import WordIndex.PostingsCount
import WordIndex.Proofs.VarintCodec

/-! # Counting postings and reading them see the same stream -/
namespace WordIndex.Postings

theorem skipList_eq_map (s : Bytes) : skipList s = (readList s).map (·.2) := by
  fun_induction readList s with
  | case1 =>
    rw [skipList]
    rfl
  | case2 rest =>
    rw [skipList_cons, if_pos rfl]
    rfl
  | case3 b rest hb fault hd =>
    rw [skipList_cons, if_neg hb, hd]
    rfl
  | case4 b rest hb value rest' hd fault hl ih =>
    rw [hl] at ih
    rw [skipList_cons, if_neg hb, hd]
    exact ih
  | case5 b rest hb value rest' hd values rest'' hl ih =>
    rw [hl] at ih
    rw [skipList_cons, if_neg hb, hd]
    exact ih

/-- A list after a marker is passed over, whichever kind it is of. -/
theorem skipMarkers_list {b : UInt8} (hb : b = metaMarker ∨ b = positionMarker) (s : Bytes) :
    skipMarkers (b :: s) = (readList s).map (·.2) >>= skipMarkers := by
  have hcontinue : b ≠ continueMarker := by rcases hb with rfl | rfl <;> decide
  have hstop : b ≠ stopMarker := by rcases hb with rfl | rfl <;> decide
  rw [skipMarkers_cons, if_neg hcontinue, if_neg hstop, if_pos hb, skipList_eq_map]
  cases readList s <;> rfl

theorem skipMarkers_eq_map (p : Posting) (s : Bytes) : skipMarkers s = (readMarkers p s).map (·.2) := by
  fun_induction readMarkers p s with
  | case1 p =>
    rw [skipMarkers]
    rfl
  | case2 p rest =>
    rw [skipMarkers_cons, if_pos rfl]
    rfl
  | case3 p rest hcontinue =>
    rw [skipMarkers_cons, if_neg hcontinue, if_pos rfl]
    rfl
  | case4 p rest fault hl =>
    rw [skipMarkers_list (.inl rfl), hl]
    rfl
  | case5 p rest ids rest' hl _ _ ih =>
    rw [skipMarkers_list (.inl rfl), hl]
    exact ih
  | case6 p rest fault hl =>
    rw [skipMarkers_list (.inr rfl), hl]
    rfl
  | case7 p rest distances rest' hl _ _ _ ih =>
    rw [skipMarkers_list (.inr rfl), hl]
    exact ih
  | case8 p b rest hcontinue hstop hmeta hposition =>
    rw [skipMarkers_cons, if_neg hcontinue, if_neg hstop, if_neg (not_or.2 ⟨hmeta, hposition⟩)]
    rfl

theorem skipPosting_eq_map (s : Bytes) : skipPosting s = (readPosting s).map (·.2) := by
  rw [skipPosting, readPosting, skipNumbers]
  cases Varint.decode32 s with
  | error fault => rfl
  | ok file =>
    dsimp only
    rw [skipNumbers]
    cases Varint.decode32 file.2 with
    | error fault => rfl
    | ok occurrences =>
      dsimp only
      rw [skipNumbers]
      cases Varint.decode32 occurrences.2 with
      | error fault => rfl
      | ok rank => exact skipMarkers_eq_map _ _

/-- What a drained stream counts. -/
def countOf (passed : Nat) : List Posting × Option IndexFault → Except IndexFault Nat
  | (_, some fault) => .error fault
  | (postings, none) => .ok (passed + postings.length)

theorem countOf_succ (p : Posting) (passed : Nat) (drained : List Posting × Option IndexFault) :
    countOf (passed + 1) drained = countOf passed (p :: drained.1, drained.2) := by
  obtain ⟨postings, fault?⟩ := drained
  cases fault? with
  | none => rw [countOf, countOf, List.length_cons, Nat.add_assoc, Nat.add_comm 1]
  | some fault => rfl

theorem countFrom_eq_countOf (passed : Nat) (s : Bytes) :
    countFrom passed s = countOf passed (drainFrom s) := by
  fun_induction drainFrom s generalizing passed with
  | case1 s fault h =>
    rw [countFrom_eq, skipPosting_eq_map, h]
    rfl
  | case2 s p rest drained h ih =>
    rw [countFrom_eq, skipPosting_eq_map, h]
    dsimp only [Except.map]
    rw [if_pos rfl, ih, countOf_succ p]
  | case3 s p more rest h hmore =>
    rw [countFrom_eq, skipPosting_eq_map, h]
    dsimp only [Except.map]
    rw [if_neg hmore]
    rfl

/-- The postings of a stream are counted as they are read. -/
theorem count_eq_countOf (s : Bytes) : count s = countOf 0 (drain s) := by
  rw [count, drain]
  split
  · rfl
  · exact countFrom_eq_countOf 0 s

theorem drain_of_decode {s : Bytes} {postings : List Posting} (h : decode s = .ok postings) :
    drain s = (postings, none) := by
  rw [decode] at h
  split at h
  · cases h
  · next hdrain =>
    rw [hdrain, Except.ok.inj h]

theorem count_of_decode {s : Bytes} {postings : List Posting} (h : decode s = .ok postings) :
    count s = .ok postings.length := by
  rw [count_eq_countOf, drain_of_decode h, countOf, Nat.zero_add]

theorem length_drainFrom_le (s : Bytes) : (drainFrom s).1.length ≤ s.length := by
  fun_induction drainFrom s with
  | case1 => exact Nat.zero_le _
  | case2 s p rest drained h ih =>
    exact Nat.le_trans (Nat.succ_le_succ ih) (length_lt_of_readPosting h)
  | case3 s p more rest h hmore =>
    have := length_lt_of_readPosting h
    simp only [List.length_singleton]
    omega

/-- There are at most as many postings as bytes. -/
theorem length_le_of_decode {s : Bytes} {postings : List Posting} (h : decode s = .ok postings) :
    postings.length ≤ s.length := by
  have hdrain := drain_of_decode h
  rw [drain] at hdrain
  split at hdrain
  · obtain rfl : [] = postings := congrArg Prod.fst hdrain
    exact Nat.zero_le _
  · have hle := length_drainFrom_le s
    rw [hdrain] at hle
    exact hle

/-- Markers leave the numbers of a posting as they are. -/
theorem numbers_of_readMarkers {p q : Posting} {more : Bool} {s rest : Bytes}
    (h : readMarkers p s = .ok (q, more, rest)) :
    q.file = p.file ∧ q.occurrences = p.occurrences ∧ q.rank = p.rank := by
  fun_induction readMarkers p s with
  | case1 => cases h
  | case2 =>
    cases h
    exact ⟨rfl, rfl, rfl⟩
  | case3 =>
    cases h
    exact ⟨rfl, rfl, rfl⟩
  | case4 => cases h
  | case5 p rest ids rest' hl _ _ ih => exact ih h
  | case6 => cases h
  | case7 p rest distances rest' hl _ _ _ ih => exact ih h
  | case8 => cases h

/-- A posting whose numbers have 32 bits. -/
structure Narrow (p : Posting) : Prop where
  file : p.file < bound32
  occurrences : p.occurrences < bound32
  rank : p.rank < bound32

theorem narrow_of_readPosting {p : Posting} {more : Bool} {s rest : Bytes}
    (h : readPosting s = .ok (p, more, rest)) : Narrow p := by
  rw [readPosting] at h
  split at h
  · cases h
  · next hfile =>
    split at h
    · cases h
    · next hoccurrences =>
      split at h
      · cases h
      · next hrank =>
        obtain ⟨hf, ho, hr⟩ := numbers_of_readMarkers h
        refine ⟨?_, ?_, ?_⟩
        · rw [hf]
          exact Varint.lt_of_decode32 hfile
        · rw [ho]
          exact Varint.lt_of_decode32 hoccurrences
        · rw [hr]
          exact Varint.lt_of_decode32 hrank

theorem narrow_of_mem_drainFrom {p : Posting} {s : Bytes} (h : p ∈ (drainFrom s).1) : Narrow p := by
  fun_induction drainFrom s with
  | case1 => cases h
  | case2 s q rest drained hread ih =>
    rcases List.mem_cons.1 h with rfl | h
    · exact narrow_of_readPosting hread
    · exact ih h
  | case3 s q more rest hread hmore =>
    rw [List.mem_singleton] at h
    exact h ▸ narrow_of_readPosting hread

theorem narrow_of_decode {p : Posting} {s : Bytes} {postings : List Posting}
    (h : decode s = .ok postings) (hp : p ∈ postings) : Narrow p := by
  have hdrain := drain_of_decode h
  rw [drain] at hdrain
  split at hdrain
  · obtain rfl : [] = postings := congrArg Prod.fst hdrain
    cases hp
  · have hfirst : (drainFrom s).1 = postings := congrArg Prod.fst hdrain
    exact narrow_of_mem_drainFrom (hfirst ▸ hp)

end WordIndex.Postings
