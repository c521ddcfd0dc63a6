import Mathlib.Logic.Relation
import WordIndex.Failure
import WordIndex.Proofs.StreamEnds

/-! # Postings that are read one after the other

A cursor reads a stream by positions, a posting at a time. A read from behind the end of the stream
would come to nothing; none does, and the cursor gives just the postings of the stream. -/
namespace WordIndex

/-- How far a stream was read, and whether nothing more is to come of it. -/
structure PostingsCursor where
  stream : Bytes
  position : Nat
  isDone : Bool

namespace PostingsCursor
open Postings

/-- A cursor at the start of a stream. A stream that starts with the stop marker has no postings. -/
def ofStream (s : Bytes) : PostingsCursor := ⟨s, 0, s.head? = some stopMarker⟩

/-- What was read and the position after it, or nothing where the stream was left. -/
abbrev Read (α : Type) := Option (Except IndexFault α × Nat)

def Read.andThen {α β : Type} (x : Read α) (f : α → Nat → Read β) : Read β :=
  match x with
  | none => none
  | some (.error fault, pos) => some (.error fault, pos)
  | some (.ok a, pos) => f a pos

def number (s : Bytes) (pos : Nat) : Read Nat :=
  if pos ≤ s.length then
    match Varint.decode32 (s.drop pos) with
    | .error fault => some (.error fault, pos)
    | .ok (n, rest) => some (.ok n, pos + ((s.drop pos).length - rest.length))
  else none

theorem lt_of_number {s : Bytes} {pos pos' n : Nat} (h : number s pos = some (.ok n, pos')) :
    pos < pos' ∧ pos < s.length := by
  rw [number] at h
  split at h
  · next hpos =>
    split at h
    · cases h
    · next hdecode =>
      cases h
      have hlen := Varint.length_lt_of_decode32 hdecode
      rw [List.length_drop] at hlen ⊢
      omega
  · cases h

def list (s : Bytes) (pos : Nat) : Read (List Nat) :=
  match s[pos]? with
  | none => some (.error .missingStopMarker, pos)
  | some b =>
    if b = stopMarker then some (.ok [], pos + 1)
    else
      match _h : number s pos with
      | none => none
      | some (.error fault, pos') => some (.error fault, pos')
      | some (.ok value, pos') =>
        (list s pos').andThen fun values stop => some (.ok (value :: values), stop)
termination_by s.length - pos
decreasing_by
  have := lt_of_number _h
  omega

theorem lt_of_list {s : Bytes} {pos pos' : Nat} {values : List Nat}
    (h : list s pos = some (.ok values, pos')) : pos < pos' ∧ pos < s.length := by
  fun_induction list s pos generalizing values pos' with
  | case1 => cases h
  | case2 pos hb =>
    cases h
    exact ⟨Nat.lt_succ_self _, (List.getElem?_eq_some_iff.1 hb).1⟩
  | case3 => cases h
  | case4 => cases h
  | case5 pos b hb hstop value next hvalue ih =>
    obtain ⟨hnext, hpos⟩ := lt_of_number hvalue
    match hlist : list s next with
    | none =>
      rw [hlist] at h
      cases h
    | some (.error fault, stop) =>
      rw [hlist] at h
      cases h
    | some (.ok values', stop) =>
      rw [hlist] at h
      cases h
      exact ⟨Nat.lt_trans hnext (ih hlist).1, hpos⟩

/-- Reads the markers of a posting and its lists, and whether another posting follows. -/
def markers (s : Bytes) (p : Posting) (pos : Nat) : Read (Posting × Bool) :=
  match s[pos]? with
  | none => some (.error .missingStopMarker, pos)
  | some b =>
    if b = continueMarker then some (.ok (p, true), pos + 1)
    else if b = stopMarker then some (.ok (p, false), pos + 1)
    else if b = metaMarker then
      match _h : list s (pos + 1) with
      | none => none
      | some (.error fault, pos') => some (.error fault, pos')
      | some (.ok ids, pos') => markers s { p with metaIds := ids } pos'
    else if b = positionMarker then
      match _h : list s (pos + 1) with
      | none => none
      | some (.error fault, pos') => some (.error fault, pos')
      | some (.ok distances, pos') =>
        markers s { p with positions := absolutePositions 0 distances } pos'
    else some (.error (.unknownMarker b), pos + 1)
termination_by s.length - pos
decreasing_by
  all_goals
    have := lt_of_list _h
    omega

def posting (s : Bytes) (pos : Nat) : Read (Posting × Bool) :=
  (number s pos).andThen fun file pos =>
  (number s pos).andThen fun occurrences pos =>
  (number s pos).andThen fun rank pos => markers s { file, occurrences, rank } pos

/-- The next posting or the fault that is met in its place, if there is one more of them, and the
cursor after it. After a fault nothing more comes. -/
def next (c : PostingsCursor) : Option (Option (Except IndexFault Posting) × PostingsCursor) :=
  if c.isDone then some (none, c)
  else
    match posting c.stream c.position with
    | none => none
    | some (.error fault, pos) => some (some (.error fault), ⟨c.stream, pos, true⟩)
    | some (.ok (p, more), pos) => some (some (.ok p), ⟨c.stream, pos, !more⟩)

/-! ## Reading by positions and reading the bytes that are left -/

/-- Reading at a position stays in the stream and has the result of a reader of the bytes from there
on, which leaves those from the position after it on. -/
def Follows {α : Type} (s : Bytes) (pos : Nat) (x : Read α) (y : Except IndexFault (α × Bytes)) :
    Prop :=
  match x with
  | none => False
  | some (.error fault, pos') => y = .error fault ∧ pos ≤ pos' ∧ pos' ≤ s.length
  | some (.ok a, pos') => y = .ok (a, s.drop pos') ∧ pos < pos' ∧ pos' ≤ s.length

variable {s : Bytes} {pos : Nat}

theorem Follows.andThen {α β : Type} {x : Read α} {y : Except IndexFault (α × Bytes)}
    {f : α → Nat → Read β} {g : α × Bytes → Except IndexFault (β × Bytes)} (h : Follows s pos x y)
    (hf : ∀ a pos', pos' ≤ s.length → Follows s pos' (f a pos') (g (a, s.drop pos'))) :
    Follows s pos (x.andThen f) (y >>= g) := by
  match x, h with
  | some (.error fault, pos₁), ⟨hy, hpos⟩ =>
    rw [hy]
    exact ⟨rfl, hpos⟩
  | some (.ok a, pos₁), ⟨hy, hlt, hinside⟩ =>
    have hnext := hf a pos₁ hinside
    rw [hy]
    change Follows s pos (f a pos₁) (g (a, s.drop pos₁))
    match f a pos₁, hnext with
    | some (.error fault, pos₂), ⟨hg, hle, hinside'⟩ =>
      exact ⟨hg, Nat.le_trans (Nat.le_of_lt hlt) hle, hinside'⟩
    | some (.ok b, pos₂), ⟨hg, hlt', hinside'⟩ => exact ⟨hg, Nat.lt_trans hlt hlt', hinside'⟩

/-- A step that was taken lets the reading go on from behind it. -/
theorem Follows.after {α : Type} {x : Read α} {y : Except IndexFault (α × Bytes)} {pos₀ : Nat}
    (h : Follows s pos x y) (hlt : pos₀ < pos) : Follows s pos₀ x y := by
  match x, h with
  | some (.error fault, pos'), ⟨hy, hle, hinside⟩ => exact ⟨hy, by omega, hinside⟩
  | some (.ok a, pos'), ⟨hy, hlt', hinside⟩ => exact ⟨hy, by omega, hinside⟩

theorem Follows.map {α β : Type} {x : Read α} {y : Except IndexFault (α × Bytes)}
    (h : Follows s pos x y) (f : α → β) :
    Follows s pos (x.andThen fun a pos' => some (.ok (f a), pos')) (y.map fun r => (f r.1, r.2)) := by
  match x, h with
  | some (.error fault, pos'), ⟨hy, hpos⟩ =>
    rw [hy]
    exact ⟨rfl, hpos⟩
  | some (.ok a, pos'), ⟨hy, hpos⟩ =>
    rw [hy]
    exact ⟨rfl, hpos⟩

theorem number_follows (hpos : pos ≤ s.length) :
    Follows s pos (number s pos) (Varint.decode32 (s.drop pos)) := by
  rw [number, if_pos hpos]
  cases hdecode : Varint.decode32 (s.drop pos) with
  | error fault => exact ⟨rfl, Nat.le_refl _, hpos⟩
  | ok r =>
    obtain ⟨n, rest⟩ := r
    obtain ⟨front, hfront, -⟩ := Varint.exists_front_of_decode32 hdecode
    have hlt := Varint.length_lt_of_decode32 hdecode
    have hlen := congrArg List.length hfront
    rw [List.length_append, List.length_drop] at hlen
    rw [List.length_drop] at hlt
    have hrest : rest = s.drop (pos + ((s.drop pos).length - rest.length)) := by
      rw [← List.drop_drop, hfront, List.length_append, Nat.add_sub_cancel, List.drop_left]
    refine ⟨by rw [← hrest], ?_, ?_⟩
    · rw [List.length_drop]
      omega
    · rw [List.length_drop]
      omega

theorem drop_eq_cons {b : UInt8} (h : s[pos]? = some b) : s.drop pos = b :: s.drop (pos + 1) := by
  obtain ⟨hpos, rfl⟩ := List.getElem?_eq_some_iff.1 h
  exact List.drop_eq_getElem_cons hpos

theorem drop_eq_nil (h : s[pos]? = none) : s.drop pos = [] :=
  List.drop_eq_nil_of_le (List.getElem?_eq_none_iff.1 h)

theorem lt_length {b : UInt8} (h : s[pos]? = some b) : pos < s.length :=
  (List.getElem?_eq_some_iff.1 h).1

theorem list_follows (hpos : pos ≤ s.length) : Follows s pos (list s pos) (readList (s.drop pos)) := by
  fun_induction list s pos with
  | case1 pos hend =>
    rw [drop_eq_nil hend, readList]
    exact ⟨rfl, Nat.le_refl _, hpos⟩
  | case2 pos hb =>
    rw [drop_eq_cons hb, readList_cons, if_pos rfl]
    exact ⟨rfl, Nat.lt_succ_self _, lt_length hb⟩
  | case3 pos b hb hstop hnumber =>
    have hfollows := number_follows hpos
    rw [hnumber] at hfollows
    exact hfollows.elim
  | case4 pos b hb hstop fault next hnumber =>
    have hfollows := number_follows hpos
    rw [hnumber] at hfollows
    obtain ⟨hdecode, hle⟩ := hfollows
    rw [drop_eq_cons hb] at hdecode ⊢
    rw [readList_cons, if_neg hstop, hdecode]
    exact ⟨rfl, hle⟩
  | case5 pos b hb hstop value next hnumber ih =>
    have hfollows := number_follows hpos
    rw [hnumber] at hfollows
    obtain ⟨hdecode, hlt, hinside⟩ := hfollows
    have hhead : (s.drop pos).head? ≠ some stopMarker := by
      rw [drop_eq_cons hb]
      exact fun heq => hstop (Option.some.inj heq)
    rw [readList_of_decode32 hhead hdecode]
    exact ((ih hinside).map _).after hlt

/-- What is read of markers and lists, with the bytes after them apart. -/
def paired (r : Posting × Bool × Bytes) : (Posting × Bool) × Bytes := ((r.1, r.2.1), r.2.2)

theorem markers_follows (p : Posting) (hpos : pos ≤ s.length) :
    Follows s pos (markers s p pos) ((readMarkers p (s.drop pos)).map paired) := by
  fun_induction markers s p pos with
  | case1 p pos hend =>
    rw [drop_eq_nil hend, readMarkers]
    exact ⟨rfl, Nat.le_refl _, hpos⟩
  | case2 p pos hb =>
    rw [drop_eq_cons hb, readMarkers_cons, if_pos rfl]
    exact ⟨rfl, Nat.lt_succ_self _, lt_length hb⟩
  | case3 p pos hb hcontinue =>
    rw [drop_eq_cons hb, readMarkers_cons, if_neg hcontinue, if_pos rfl]
    exact ⟨rfl, Nat.lt_succ_self _, lt_length hb⟩
  | case4 p pos hlist hb =>
    have hfollows := list_follows (Nat.succ_le_of_lt (lt_length hb))
    rw [hlist] at hfollows
    exact hfollows.elim
  | case5 p pos fault next hlist hb hcontinue hstop =>
    have hfollows := list_follows (Nat.succ_le_of_lt (lt_length hb))
    rw [hlist] at hfollows
    obtain ⟨hread, hle, hinside⟩ := hfollows
    rw [drop_eq_cons hb, readMarkers_cons, if_neg hcontinue, if_neg hstop, if_pos rfl, hread]
    exact ⟨rfl, Nat.le_of_succ_le hle, hinside⟩
  | case6 p pos ids next hlist hb hcontinue hstop ih =>
    have hfollows := list_follows (Nat.succ_le_of_lt (lt_length hb))
    rw [hlist] at hfollows
    obtain ⟨hread, hlt, hinside⟩ := hfollows
    rw [drop_eq_cons hb, readMarkers_meta hread]
    exact (ih hinside).after (Nat.lt_of_succ_lt hlt)
  | case7 p pos hlist hb =>
    have hfollows := list_follows (Nat.succ_le_of_lt (lt_length hb))
    rw [hlist] at hfollows
    exact hfollows.elim
  | case8 p pos fault next hlist hb hcontinue hstop hmeta =>
    have hfollows := list_follows (Nat.succ_le_of_lt (lt_length hb))
    rw [hlist] at hfollows
    obtain ⟨hread, hle, hinside⟩ := hfollows
    rw [drop_eq_cons hb, readMarkers_cons, if_neg hcontinue, if_neg hstop, if_neg hmeta, if_pos rfl,
      hread]
    exact ⟨rfl, Nat.le_of_succ_le hle, hinside⟩
  | case9 p pos distances next hlist hb hcontinue hstop hmeta ih =>
    have hfollows := list_follows (Nat.succ_le_of_lt (lt_length hb))
    rw [hlist] at hfollows
    obtain ⟨hread, hlt, hinside⟩ := hfollows
    rw [drop_eq_cons hb, readMarkers_position hread]
    exact (ih hinside).after (Nat.lt_of_succ_lt hlt)
  | case10 p pos b hb hcontinue hstop hmeta hposition =>
    rw [drop_eq_cons hb, readMarkers_cons, if_neg hcontinue, if_neg hstop, if_neg hmeta,
      if_neg hposition]
    exact ⟨rfl, Nat.le_succ _, lt_length hb⟩

theorem readPosting_eq_bind (t : Bytes) : (readPosting t).map paired =
    Varint.decode32 t >>= fun file =>
      Varint.decode32 file.2 >>= fun occurrences =>
        Varint.decode32 occurrences.2 >>= fun rank =>
          (readMarkers { file := file.1, occurrences := occurrences.1, rank := rank.1 } rank.2).map
            paired := by
  rw [readPosting]
  cases Varint.decode32 t with
  | error fault => rfl
  | ok file =>
    simp only [bind, Except.bind]
    cases Varint.decode32 file.2 with
    | error fault => rfl
    | ok occurrences =>
      dsimp only
      cases Varint.decode32 occurrences.2 with
      | error fault => rfl
      | ok rank => rfl

theorem posting_follows (hpos : pos ≤ s.length) :
    Follows s pos (posting s pos) ((readPosting (s.drop pos)).map paired) := by
  rw [readPosting_eq_bind, posting]
  exact (number_follows hpos).andThen fun file _ hpos =>
    (number_follows hpos).andThen fun occurrences _ hpos =>
      (number_follows hpos).andThen fun rank _ hpos => markers_follows _ hpos

/-! ## Reading on -/

/-- A cursor after another one was read once. -/
def Step (c c' : PostingsCursor) : Prop := ∃ item?, c.next = some (item?, c')

/-- A cursor after another one was read any number of times. -/
def Reaches : PostingsCursor → PostingsCursor → Prop := Relation.ReflTransGen Step

/-- Inside its stream a cursor can always be read, and stays in the stream. -/
theorem exists_next {c : PostingsCursor} (h : c.position ≤ c.stream.length) :
    ∃ item? c', c.next = some (item?, c') ∧ c'.stream = c.stream ∧
      c'.position ≤ c.stream.length := by
  rw [next]
  by_cases hdone : c.isDone
  · rw [if_pos hdone]
    exact ⟨none, c, rfl, rfl, h⟩
  · rw [if_neg hdone]
    match posting c.stream c.position, posting_follows h with
    | some (.error fault, pos'), ⟨_, _, hinside⟩ => exact ⟨_, _, rfl, rfl, hinside⟩
    | some (.ok _, pos'), ⟨_, _, hinside⟩ => exact ⟨_, _, rfl, rfl, hinside⟩

theorem inside_of_reaches {c : PostingsCursor} (h : Reaches (ofStream s) c) :
    c.stream = s ∧ c.position ≤ s.length := by
  induction h with
  | refl => exact ⟨rfl, Nat.zero_le _⟩
  | tail _ hstep ih =>
    obtain ⟨rfl, hinside⟩ := ih
    obtain ⟨item?, hnext⟩ := hstep
    obtain ⟨_, _, hnext', hstream, hinside'⟩ := exists_next hinside
    cases hnext.symm.trans hnext'
    exact ⟨hstream, hinside'⟩

/-! ## Draining -/

theorem next_of_error (hpos : pos ≤ s.length) {fault : IndexFault}
    (h : readPosting (s.drop pos) = .error fault) : ∃ pos' ≤ s.length,
      next ⟨s, pos, false⟩ = some (some (.error fault), ⟨s, pos', true⟩) := by
  have hfollows := posting_follows hpos
  rw [h] at hfollows
  rw [next, if_neg Bool.false_ne_true]
  match posting s pos, hfollows with
  | some (.error _, pos'), ⟨rfl, _, hinside⟩ => exact ⟨pos', hinside, rfl⟩

theorem next_of_ok (hpos : pos ≤ s.length) {p : Posting} {more : Bool} {rest : Bytes}
    (h : readPosting (s.drop pos) = .ok (p, more, rest)) : ∃ pos' ≤ s.length,
      next ⟨s, pos, false⟩ = some (some (.ok p), ⟨s, pos', !more⟩) ∧ pos < pos' ∧
        rest = s.drop pos' := by
  have hfollows := posting_follows hpos
  rw [h] at hfollows
  rw [next, if_neg Bool.false_ne_true]
  match posting s pos, hfollows with
  | some (.ok _, pos'), ⟨hread, hlt, hinside⟩ =>
    cases hread
    exact ⟨pos', hinside, rfl, hlt, rfl⟩

/-- All that a cursor gives, in order, until nothing more comes, and the cursor after it. -/
inductive Yields : PostingsCursor → List (Except IndexFault Posting) → PostingsCursor → Prop
  | ended {c c' : PostingsCursor} (h : c.next = some (none, c')) : Yields c [] c'
  | item {c c' c'' : PostingsCursor} {item : Except IndexFault Posting}
    {items : List (Except IndexFault Posting)} (h : c.next = some (some item, c'))
    (others : Yields c' items c'') : Yields c (item :: items) c''

/-- Postings and the fault after them, if there is one. -/
def items (drained : List Posting × Option IndexFault) : List (Except IndexFault Posting) :=
  drained.1.map .ok ++ drained.2.toList.map .error

theorem Yields.eq {c c₁ c₂ : PostingsCursor} {items₁ items₂ : List (Except IndexFault Posting)}
    (h₁ : Yields c items₁ c₁) (h₂ : Yields c items₂ c₂) : items₁ = items₂ ∧ c₁ = c₂ := by
  induction h₁ generalizing items₂ with
  | ended h =>
    cases h₂ with
    | ended h' =>
      cases h.symm.trans h'
      exact ⟨rfl, rfl⟩
    | item h' => cases h.symm.trans h'
  | item h others ih =>
    cases h₂ with
    | ended h' => cases h.symm.trans h'
    | item h' others' =>
      cases h.symm.trans h'
      obtain ⟨rfl, rfl⟩ := ih others'
      exact ⟨rfl, rfl⟩

theorem yields_done (s : Bytes) (pos : Nat) : Yields ⟨s, pos, true⟩ [] ⟨s, pos, true⟩ :=
  .ended rfl

/-- A cursor in a stream gives the postings from its position on. -/
theorem yields_of_drained {postings : List Posting} {ended : Except IndexFault Bytes}
    (h : Drained (s.drop pos) postings ended) (hpos : pos ≤ s.length) :
    ∃ pos' ≤ s.length, Yields ⟨s, pos, false⟩ (items (postings, Outcome.error? ended)) ⟨s, pos', true⟩ ∧
      ∀ rest, ended = .ok rest → pos < pos' ∧ rest = s.drop pos' := by
  generalize hdrop : s.drop pos = t at h
  induction h generalizing pos with
  | broken h =>
    obtain ⟨pos', hinside, hnext⟩ := next_of_error hpos (hdrop ▸ h)
    refine ⟨pos', hinside, .item hnext (yields_done s pos'), fun rest h => ?_⟩
    cases h
  | last h =>
    obtain ⟨pos', hinside, hnext, hlt, hrest⟩ := next_of_ok hpos (hdrop ▸ h)
    refine ⟨pos', hinside, .item hnext (yields_done s pos'), ?_⟩
    rintro _ ⟨⟩
    exact ⟨hlt, hrest⟩
  | more h others ih =>
    obtain ⟨pos₁, hinside, hnext, hlt, hrest⟩ := next_of_ok hpos (hdrop ▸ h)
    obtain ⟨pos₂, hinside', hyields, hended⟩ := ih hinside hrest.symm
    refine ⟨pos₂, hinside', .item hnext hyields, fun rest h => ?_⟩
    obtain ⟨hlt', hrest'⟩ := hended rest h
    exact ⟨Nat.lt_trans hlt hlt', hrest'⟩

/-- How many bytes of a stream were looked at, if it has any: those up to the position, and in any
case the first one, which tells whether there are postings. -/
def looked (c : PostingsCursor) : Nat := max c.position 1

theorem ofStream_of_head?_ne (h : s.head? ≠ some stopMarker) : ofStream s = ⟨s, 0, false⟩ := by
  rw [ofStream, decide_eq_false h]

theorem yields_drain (s : Bytes) : ∃ final, Yields (ofStream s) (items (drain s)) final := by
  rw [drain]
  by_cases hhead : s.head? = some stopMarker
  · rw [if_pos hhead, ofStream, decide_eq_true hhead]
    exact ⟨_, yields_done s 0⟩
  · rw [if_neg hhead, ofStream_of_head?_ne hhead]
    obtain ⟨postings, ended, h⟩ := exists_drained s
    have hstart : Drained (s.drop 0) postings ended := h
    obtain ⟨pos', -, hyields, -⟩ := yields_of_drained hstart (Nat.zero_le _)
    rw [h.drainFrom_eq]
    exact ⟨_, hyields⟩

theorem length_drain_le (s : Bytes) : (drain s).1.length ≤ s.length / 4 := by
  rw [drain]
  split
  · exact Nat.zero_le _
  · obtain ⟨postings, ended, h⟩ := exists_drained s
    have hle := h.four_mul_length_le
    rw [h.drainFrom_eq]
    dsimp only
    omega

theorem drain_take_ne_none {m : Nat} (hhead : s.head? ≠ some stopMarker) {postings : List Posting}
    {rest : Bytes} (h : Drained s postings (.ok rest)) (hm : m < s.length - rest.length) :
    (drain (s.take m)).2 ≠ none := by
  have hhead' : (s.take m).head? ≠ some stopMarker := by
    rw [List.head?_take]
    split
    · exact (Option.some_ne_none _).symm
    · exact hhead
  obtain ⟨postings', fault, hcut⟩ := h.exists_fault_of_take hm
  rw [drain, if_neg hhead', hcut.drainFrom_eq]
  exact Option.some_ne_none _

/-- A cursor stops looking where the postings of its stream end. -/
theorem exists_looked_eq {front t : Bytes} {postings : List Posting}
    (hhead : (front ++ t).head? ≠ some stopMarker) (h : Drained (front ++ t) postings (.ok t)) :
    ∃ c, Yields (ofStream (front ++ t)) (items (postings, none)) c ∧ c.looked = front.length := by
  have hstart : Drained ((front ++ t).drop 0) postings (.ok t) := h
  obtain ⟨pos', hinside, hyields, hended⟩ := yields_of_drained hstart (Nat.zero_le _)
  obtain ⟨hpos, hrest⟩ := hended t rfl
  have hlen := congrArg List.length hrest
  rw [List.length_drop, List.length_append] at hlen
  rw [List.length_append] at hinside
  rw [ofStream_of_head?_ne hhead]
  refine ⟨_, hyields, ?_⟩
  change max pos' 1 = front.length
  omega

/-- What a cursor looked at in a stream without a fault gives the same postings before any bytes, and
no front of it does. -/
theorem delimited_of_yields {final : PostingsCursor} (hdrain : (drain s).2 = none)
    (hfinal : Yields (ofStream s) (items (drain s)) final) :
    final.looked ≤ s.length ∧
      (∀ t, ∃ c, Yields (ofStream (s.take final.looked ++ t)) (items (drain s)) c ∧
        c.looked = final.looked) ∧
      ∀ m < final.looked, (drain (s.take m)).2 ≠ none := by
  by_cases hhead : s.head? = some stopMarker
  · obtain ⟨s, rfl⟩ : ∃ s', s = stopMarker :: s' := by
      cases s with
      | nil => cases hhead
      | cons b s' => exact ⟨s', by rw [Option.some.inj hhead]⟩
    obtain rfl : final = ⟨stopMarker :: s, 0, true⟩ :=
      (hfinal.eq (yields_done (stopMarker :: s) 0)).2
    refine ⟨Nat.succ_le_succ (Nat.zero_le _), fun t => ⟨_, yields_done (stopMarker :: t) 0, rfl⟩, ?_⟩
    intro m hm
    obtain rfl : m = 0 := Nat.lt_one_iff.1 hm
    rw [List.take_zero, drain, if_neg (by decide), Postings.drainFrom_eq]
    exact Option.some_ne_none _
  · obtain ⟨postings, ended, h⟩ := exists_drained s
    have hdrained : drain s = (postings, Outcome.error? ended) := by
      rw [drain, if_neg hhead, h.drainFrom_eq]
    rw [hdrained] at hdrain hfinal ⊢
    cases ended with
    | error fault => cases hdrain
    | ok rest =>
      obtain ⟨front, rfl, hfront⟩ := h.exists_front
      obtain ⟨c, hyields, hlooked⟩ := exists_looked_eq hhead h
      obtain rfl := (hfinal.eq hyields).2
      have hne : front ≠ [] := by
        rintro rfl
        have hpositive : 0 < final.looked := Nat.lt_of_lt_of_le Nat.one_pos (Nat.le_max_right _ _)
        rw [hlooked] at hpositive
        exact Nat.lt_irrefl 0 hpositive
      rw [hlooked, List.take_left, List.length_append]
      refine ⟨Nat.le_add_right _ _, fun t => exists_looked_eq ?_ (hfront t), fun m hm => ?_⟩
      · rwa [List.head?_append_of_ne_nil _ hne, ← List.head?_append_of_ne_nil front hne]
      · refine drain_take_ne_none hhead h ?_
        rw [List.length_append]
        omega

/-- A stream comes to an end after at most one posting for four of its bytes and at most one fault,
which comes last, and is never left. Where it ends without a fault only what was looked at decides:
the same postings come of it before any bytes, and of no front that is shorter. -/
theorem drain_delimited (s : Bytes) : ∃ final,
    Yields (ofStream s) (items (drain s)) final ∧
    (∀ results c, Yields (ofStream s) results c → results = items (drain s) ∧ c = final) ∧
    (∀ c, Reaches (ofStream s) c → c.stream = s ∧ c.position ≤ s.length ∧ c.next ≠ none) ∧
    (drain s).1.length ≤ s.length / 4 ∧
    (∀ fault, (drain s).2 = some fault → (Failure.index fault).kind = .corruptIndex) ∧
    ((drain s).2 = none → final.looked ≤ s.length ∧
      (∀ t, ∃ c, Yields (ofStream (s.take final.looked ++ t)) (items (drain s)) c ∧
        c.looked = final.looked) ∧
      ∀ m < final.looked, ∃ postings fault c,
        Yields (ofStream (s.take m)) (items (postings, some fault)) c) := by
  obtain ⟨final, hfinal⟩ := yields_drain s
  refine ⟨final, hfinal, fun results c h => h.eq hfinal, fun c h => ?_, length_drain_le s,
    fun _ _ => rfl, fun hdrain => ?_⟩
  · obtain ⟨hstream, hinside⟩ := inside_of_reaches h
    obtain ⟨item?, c', hnext, -⟩ := exists_next (c := c) (hstream ▸ hinside)
    exact ⟨hstream, hinside, by rw [hnext]; exact Option.some_ne_none _⟩
  · obtain ⟨hinside, hbefore, hcut⟩ := delimited_of_yields hdrain hfinal
    refine ⟨hinside, hbefore, fun m hm => ?_⟩
    obtain ⟨fault, hfault⟩ := Option.ne_none_iff_exists'.1 (hcut m hm)
    obtain ⟨c, hyields⟩ := yields_drain (s.take m)
    exact ⟨_, fault, c, by rwa [← hfault]⟩

/-! ## Counting -/

theorem filterMap_items (drained : List Posting × Option IndexFault) :
    (items drained).filterMap Except.toOption = drained.1 ∧
      (items drained).filterMap Outcome.error? = drained.2.toList := by
  obtain ⟨postings, fault?⟩ := drained
  have hpostings : (items (postings, fault?)).filterMap Except.toOption = postings := by
    cases fault? <;> simp [items, List.filterMap_map, Function.comp_def, Except.toOption]
  have hfault : (items (postings, fault?)).filterMap Outcome.error? = fault?.toList := by
    cases fault? <;> simp [items, List.filterMap_map, Function.comp_def, Outcome.error?]
  exact ⟨hpostings, hfault⟩

theorem items_injective {drained drained' : List Posting × Option IndexFault}
    (h : items drained = items drained') : drained = drained' := by
  obtain ⟨hpostings, hfault⟩ := filterMap_items drained
  obtain ⟨hpostings', hfault'⟩ := filterMap_items drained'
  rw [h] at hpostings hfault
  have hfirst : drained.1 = drained'.1 := hpostings.symm.trans hpostings'
  have hsecond : drained.2.toList = drained'.2.toList := hfault.symm.trans hfault'
  refine Prod.ext hfirst (Option.ext fun fault => ?_)
  rw [← Option.mem_toList, hsecond, Option.mem_toList]

theorem countOf_eq_ok_iff {n : Nat} {drained : List Posting × Option IndexFault} :
    countOf 0 drained = .ok n ↔ ∃ postings, postings.length = n ∧ drained = (postings, none) := by
  obtain ⟨postings, fault?⟩ := drained
  cases fault? <;> simp [countOf]

theorem countOf_eq_error_iff {fault : IndexFault} {drained : List Posting × Option IndexFault} :
    countOf 0 drained = .error fault ↔ ∃ postings, drained = (postings, some fault) := by
  obtain ⟨postings, fault?⟩ := drained
  cases fault? <;> simp [countOf]

/-- The postings of an entry from the first one on. -/
def ofEntry (entry : WordEntry) : PostingsCursor := ofStream entry.stream

/-- What is drained of an entry is all that its cursor gives. -/
theorem yields_iff_drain (entry : WordEntry) (drained : List Posting × Option IndexFault) :
    (∃ final, Yields (ofEntry entry) (items drained) final) ↔ drain entry.stream = drained := by
  obtain ⟨final, hfinal⟩ := yields_drain entry.stream
  constructor
  · rintro ⟨c, h⟩
    exact items_injective (hfinal.eq h).1
  · rintro rfl
    exact ⟨final, hfinal⟩

/-- The postings of an entry are counted just as they are drained: their number where all of them can
be read, and otherwise the fault that comes last. However far a cursor of an entry was read, one at
the start of its stream gives all postings again. -/
theorem count_iff_yields (entry : WordEntry) :
    (∀ n, count entry.stream = .ok n ↔ ∃ postings : List Posting, postings.length = n ∧
      ∃ final, Yields (ofEntry entry) (postings.map .ok) final) ∧
    (∀ fault, count entry.stream = .error fault ↔ ∃ (postings : List Posting) (final : _),
      Yields (ofEntry entry) (postings.map .ok ++ [.error fault]) final) ∧
    ∀ c, Reaches (ofEntry entry) c → ofStream c.stream = ofEntry entry ∧
      ∃ final, Yields (ofStream c.stream) (items (drain entry.stream)) final := by
  have hwhole (postings : List Posting) : (∃ final, Yields (ofEntry entry) (postings.map .ok) final) ↔
      drain entry.stream = (postings, none) := by
    rw [← yields_iff_drain, items, Option.toList_none, List.map_nil, List.append_nil]
  have hbroken (postings : List Posting) (fault : IndexFault) :
      (∃ final, Yields (ofEntry entry) (postings.map .ok ++ [.error fault]) final) ↔
        drain entry.stream = (postings, some fault) :=
    yields_iff_drain entry (postings, some fault)
  refine ⟨fun n => ?_, fun fault => ?_, fun c h => ?_⟩
  · simp only [hwhole]
    rw [count_eq_countOf, countOf_eq_ok_iff]
  · simp only [hbroken]
    rw [count_eq_countOf, countOf_eq_error_iff]
  · obtain ⟨hstream, -⟩ := inside_of_reaches h
    rw [hstream]
    exact ⟨rfl, yields_drain entry.stream⟩

end PostingsCursor

end WordIndex
