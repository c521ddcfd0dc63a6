import WordIndex.Proofs.CutEntries
import WordIndex.Proofs.PostingsScan

/-! # Where a stream of postings ends

What a reader passes over tells by itself where it ends: the same front is read from any bytes that
start with it, whatever follows. So a stream ends at its stop marker, and no front that is shorter
ends without a fault. -/
namespace WordIndex

/-- A reader gets `a` from a front and leaves all the bytes that follow it. -/
def ReadsFront {α : Type} (read : Bytes → Except IndexFault (α × Bytes)) (front : Bytes) (a : α) :
    Prop :=
  ∀ rest, read (front ++ rest) = .ok (a, rest)

namespace Varint

variable {s rest : Bytes} {n : Nat}

theorem exists_front_of_decode32 (h : decode32 s = .ok (n, rest)) :
    ∃ front, s = front ++ rest ∧ ReadsFront decode32 front n := by
  obtain ⟨groups, rfl, hspells⟩ := decode32_eq_ok_iff_spells.1 h
  exact ⟨groups, rfl, fun t => decode32_eq_ok_iff_spells.2 ⟨groups, rfl, hspells⟩⟩

end Varint

namespace Postings

variable {s rest : Bytes}

/-- A list goes on after a number that does not start with the stop marker. -/
theorem readList_of_decode32 {value : Nat} (hhead : s.head? ≠ some stopMarker)
    (h : Varint.decode32 s = .ok (value, rest)) :
    readList s = (readList rest).map fun r => (value :: r.1, r.2) := by
  cases s with
  | nil => cases h
  | cons b s =>
    have hb : b ≠ stopMarker := fun heq => hhead (congrArg some heq)
    rw [readList_cons, if_neg hb, h]
    dsimp only
    cases readList rest <;> rfl

theorem exists_front_of_readList {values : List Nat} (h : readList s = .ok (values, rest)) :
    ∃ front, s = front ++ rest ∧ ReadsFront readList front values := by
  fun_induction readList s generalizing values rest with
  | case1 => cases h
  | case2 s =>
    cases h
    refine ⟨[stopMarker], rfl, fun t => ?_⟩
    rw [List.singleton_append, readList_cons, if_pos rfl]
  | case3 => cases h
  | case4 => cases h
  | case5 b s hb value s' hvalue values' s'' hvalues ih =>
    cases h
    obtain ⟨front, hfront, hreads⟩ := Varint.exists_front_of_decode32 hvalue
    obtain ⟨others, rfl, hothers⟩ := ih hvalues
    refine ⟨front ++ others, by rw [hfront, List.append_assoc], fun t => ?_⟩
    -- The number takes at least one byte, the one that is no stop marker.
    obtain ⟨tail, rfl⟩ : ∃ tail, front = b :: tail := by
      cases front with
      | nil => cases hreads []
      | cons b' tail => exact ⟨tail, by rw [(List.cons_eq_cons.1 hfront).1]⟩
    have hhead : (b :: tail ++ (others ++ t)).head? ≠ some stopMarker := fun heq =>
      hb (Option.some.inj heq)
    rw [List.append_assoc, readList_of_decode32 hhead (hreads _), hothers t]
    rfl

theorem exists_front_of_readMarkers {p q : Posting} {more : Bool}
    (h : readMarkers p s = .ok (q, more, rest)) :
    ∃ front, s = front ++ rest ∧ ∀ t, readMarkers p (front ++ t) = .ok (q, more, t) := by
  fun_induction readMarkers p s with
  | case1 => cases h
  | case2 p s =>
    cases h
    refine ⟨[continueMarker], rfl, fun t => ?_⟩
    rw [List.singleton_append, readMarkers_cons, if_pos rfl]
  | case3 p s hcontinue =>
    cases h
    refine ⟨[stopMarker], rfl, fun t => ?_⟩
    rw [List.singleton_append, readMarkers_cons, if_neg hcontinue, if_pos rfl]
  | case4 => cases h
  | case5 p s ids s' hids hcontinue hstop ih =>
    obtain ⟨list, rfl, hlist⟩ := exists_front_of_readList hids
    obtain ⟨front, rfl, hfront⟩ := ih h
    refine ⟨metaMarker :: list ++ front, by rw [List.append_assoc, List.cons_append], fun t => ?_⟩
    rw [List.append_assoc, List.cons_append, readMarkers_meta (hlist _)]
    exact hfront t
  | case6 => cases h
  | case7 p s distances s' hdistances hcontinue hstop hmeta ih =>
    obtain ⟨list, rfl, hlist⟩ := exists_front_of_readList hdistances
    obtain ⟨front, rfl, hfront⟩ := ih h
    refine ⟨positionMarker :: list ++ front, by rw [List.append_assoc, List.cons_append],
      fun t => ?_⟩
    rw [List.append_assoc, List.cons_append, readMarkers_position (hlist _)]
    exact hfront t
  | case8 => cases h

theorem exists_front_of_readPosting {p : Posting} {more : Bool}
    (h : readPosting s = .ok (p, more, rest)) :
    ∃ front, s = front ++ rest ∧ ∀ t, readPosting (front ++ t) = .ok (p, more, t) := by
  obtain ⟨file, s₁, occurrences, s₂, rank, s₃, hfile, hoccurrences, hrank, hmarkers⟩ :=
    readPosting_eq_ok_iff.1 h
  obtain ⟨front₁, rfl, hfront₁⟩ := Varint.exists_front_of_decode32 hfile
  obtain ⟨front₂, rfl, hfront₂⟩ := Varint.exists_front_of_decode32 hoccurrences
  obtain ⟨front₃, rfl, hfront₃⟩ := Varint.exists_front_of_decode32 hrank
  obtain ⟨markers, rfl, hread⟩ := exists_front_of_readMarkers hmarkers
  refine ⟨front₁ ++ (front₂ ++ (front₃ ++ markers)), by simp only [List.append_assoc], fun t => ?_⟩
  simp only [List.append_assoc]
  exact readPosting_eq_ok_iff.2
    ⟨_, _, _, _, _, _, hfront₁ _, hfront₂ _, hfront₃ _, hread t⟩

/-- A posting takes three numbers and a marker. -/
theorem length_add_four_le_of_readPosting {p : Posting} {more : Bool}
    (h : readPosting s = .ok (p, more, rest)) : rest.length + 4 ≤ s.length := by
  obtain ⟨file, s₁, occurrences, s₂, rank, s₃, hfile, hoccurrences, hrank, hmarkers⟩ :=
    readPosting_eq_ok_iff.1 h
  have hlen₁ := Varint.length_lt_of_decode32 hfile
  have hlen₂ := Varint.length_lt_of_decode32 hoccurrences
  have hlen₃ := Varint.length_lt_of_decode32 hrank
  have hlen₄ := length_lt_of_readMarkers hmarkers
  omega

/-- The postings of a stream that holds one or more, and the fault that ends it or the bytes after
its stop marker. -/
inductive Drained : Bytes → List Posting → Except IndexFault Bytes → Prop
  | broken {s : Bytes} {fault : IndexFault} (h : readPosting s = .error fault) :
    Drained s [] (.error fault)
  | last {s rest : Bytes} {p : Posting} (h : readPosting s = .ok (p, false, rest)) :
    Drained s [p] (.ok rest)
  | more {s s' : Bytes} {p : Posting} {postings : List Posting} {ended : Except IndexFault Bytes}
    (h : readPosting s = .ok (p, true, s')) (others : Drained s' postings ended) :
    Drained s (p :: postings) ended

theorem exists_drained (s : Bytes) : ∃ postings ended, Drained s postings ended := by
  fun_induction drainFrom s with
  | case1 s fault h => exact ⟨[], .error fault, .broken h⟩
  | case2 s p s' drained h ih =>
    obtain ⟨postings, ended, hothers⟩ := ih
    exact ⟨p :: postings, ended, .more h hothers⟩
  | case3 s p more rest h hmore =>
    obtain rfl : more = false := Bool.not_eq_true _ ▸ hmore
    exact ⟨[p], .ok rest, .last h⟩

namespace Drained

variable {postings : List Posting} {ended : Except IndexFault Bytes}

theorem drainFrom_eq (h : Drained s postings ended) :
    drainFrom s = (postings, Outcome.error? ended) := by
  induction h with
  | broken h =>
    rw [Postings.drainFrom_eq, h]
    rfl
  | last h =>
    rw [Postings.drainFrom_eq, h]
    rfl
  | more h others ih =>
    rw [Postings.drainFrom_eq, h]
    dsimp only
    rw [ih, if_pos rfl]

/-- Each posting takes four bytes or more. -/
theorem four_mul_length_le (h : Drained s postings ended) : 4 * postings.length ≤ s.length := by
  induction h with
  | broken h => exact Nat.zero_le _
  | last h =>
    have := length_add_four_le_of_readPosting h
    simp only [List.length_singleton]
    omega
  | more h others ih =>
    have := length_add_four_le_of_readPosting h
    rw [List.length_cons]
    omega

/-- A stream that ends without a fault ends there whatever follows. -/
theorem exists_front (h : Drained s postings (.ok rest)) :
    ∃ front, s = front ++ rest ∧ ∀ t, Drained (front ++ t) postings (.ok t) := by
  generalize hended : (Except.ok rest : Except IndexFault Bytes) = ended at h
  induction h with
  | broken h => cases hended
  | last h =>
    cases hended
    obtain ⟨front, hs, hfront⟩ := exists_front_of_readPosting h
    exact ⟨front, hs, fun t => .last (hfront t)⟩
  | more h others ih =>
    obtain ⟨front, rfl, hfront⟩ := exists_front_of_readPosting h
    obtain ⟨back, rfl, hback⟩ := ih hended
    refine ⟨front ++ back, (List.append_assoc ..).symm, fun t => ?_⟩
    rw [List.append_assoc]
    exact .more (hfront _) (hback t)

theorem eq_of_drained {postings' : List Posting} {ended' : Except IndexFault Bytes}
    (h : Drained s postings ended) (h' : Drained s postings' ended') :
    postings = postings' ∧ ended = ended' := by
  induction h generalizing postings' with
  | broken h =>
    cases h' with
    | broken h' => exact ⟨rfl, congrArg _ (Except.error.inj (h.symm.trans h'))⟩
    | last h' => cases h.symm.trans h'
    | more h' => cases h.symm.trans h'
  | last h =>
    cases h' with
    | broken h' => cases h.symm.trans h'
    | last h' =>
      cases h.symm.trans h'
      exact ⟨rfl, rfl⟩
    | more h' => cases h.symm.trans h'
  | more h others ih =>
    cases h' with
    | broken h' => cases h.symm.trans h'
    | last h' => cases h.symm.trans h'
    | more h' others' =>
      cases h.symm.trans h'
      obtain ⟨rfl, rfl⟩ := ih others'
      exact ⟨rfl, rfl⟩

/-- A front that is shorter than what was passed over does not end without a fault. -/
theorem exists_fault_of_take (h : Drained s postings (.ok rest)) {m : Nat}
    (hm : m < s.length - rest.length) :
    ∃ postings' fault, Drained (s.take m) postings' (.error fault) := by
  obtain ⟨postings', ended, hcut⟩ := exists_drained (s.take m)
  cases ended with
  | error fault => exact ⟨postings', fault, hcut⟩
  | ok rest' =>
    obtain ⟨front, hfront, hreads⟩ := hcut.exists_front
    have hall := hreads (rest' ++ s.drop m)
    rw [← List.append_assoc, ← hfront, List.take_append_drop] at hall
    have hrest : rest = rest' ++ s.drop m := Except.ok.inj (h.eq_of_drained hall).2
    have hlen := congrArg List.length hrest
    rw [List.length_append, List.length_drop] at hlen
    omega

end Drained

end Postings

end WordIndex
