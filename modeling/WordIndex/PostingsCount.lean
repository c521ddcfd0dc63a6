import WordIndex.Postings

/-! # Counting postings without keeping them -/
namespace WordIndex.Postings

def skipList : Bytes → Except IndexFault Bytes
  | [] => .error .missingStopMarker
  | b :: rest =>
    if b = stopMarker then .ok rest
    else
      match _h : Varint.decode32 (b :: rest) with
      | .error fault => .error fault
      | .ok (_, rest') => skipList rest'
termination_by s => s.length
decreasing_by exact Varint.length_lt_of_decode32 _h

theorem skipList_cons (b : UInt8) (rest : Bytes) : skipList (b :: rest) =
    if b = stopMarker then .ok rest
    else
      match Varint.decode32 (b :: rest) with
      | .error fault => .error fault
      | .ok (_, rest') => skipList rest' := by
  rw [skipList]
  split
  · rfl
  · split <;> next h => rw [h]

theorem length_lt_of_skipList {s rest : Bytes} (h : skipList s = .ok rest) :
    rest.length < s.length := by
  fun_induction skipList s with
  | case1 => simp at h
  | case2 r =>
    obtain rfl : r = rest := by simpa using h
    simp
  | case3 => simp at h
  | case4 b r _ value r' hd ih => exact Nat.lt_trans (ih h) (Varint.length_lt_of_decode32 hd)

/-- Passes over the markers and lists of a posting. Gives whether another posting follows and the
bytes after the last marker. -/
def skipMarkers : Bytes → Except IndexFault (Bool × Bytes)
  | [] => .error .missingStopMarker
  | b :: rest =>
    if b = continueMarker then .ok (true, rest)
    else if b = stopMarker then .ok (false, rest)
    else if b = metaMarker ∨ b = positionMarker then
      match _h : skipList rest with
      | .error fault => .error fault
      | .ok rest' => skipMarkers rest'
    else .error (.unknownMarker b)
termination_by s => s.length
decreasing_by exact Nat.lt_succ_of_lt (length_lt_of_skipList _h)

theorem skipMarkers_cons (b : UInt8) (rest : Bytes) : skipMarkers (b :: rest) =
    if b = continueMarker then .ok (true, rest)
    else if b = stopMarker then .ok (false, rest)
    else if b = metaMarker ∨ b = positionMarker then
      match skipList rest with
      | .error fault => .error fault
      | .ok rest' => skipMarkers rest'
    else .error (.unknownMarker b) := by
  rw [skipMarkers]
  split
  · rfl
  · split
    · rfl
    · split
      · split <;> next h => rw [h]
      · rfl

theorem length_lt_of_skipMarkers {more : Bool} {s rest : Bytes}
    (h : skipMarkers s = .ok (more, rest)) : rest.length < s.length := by
  fun_induction skipMarkers s with
  | case1 => simp at h
  | case2 =>
    obtain ⟨-, rfl⟩ := by simpa using h
    simp
  | case3 =>
    obtain ⟨-, rfl⟩ := by simpa using h
    simp
  | case4 => simp at h
  | case5 b r _ _ _ r' hl ih =>
    exact Nat.lt_trans (ih h) (Nat.lt_succ_of_lt (length_lt_of_skipList hl))
  | case6 => simp at h

def skipNumbers : (count : Nat) → Bytes → Except IndexFault Bytes
  | 0, s => .ok s
  | count + 1, s =>
    match Varint.decode32 s with
    | .error fault => .error fault
    | .ok (_, rest) => skipNumbers count rest

theorem length_le_of_skipNumbers {count : Nat} {s rest : Bytes}
    (h : skipNumbers count s = .ok rest) : rest.length ≤ s.length := by
  induction count generalizing s with
  | zero =>
    obtain rfl : s = rest := by simpa [skipNumbers] using h
    exact Nat.le_refl _
  | succ count ih =>
    rw [skipNumbers] at h
    split at h
    · simp at h
    · next hd => exact Nat.le_trans (ih h) (Nat.le_of_lt (Varint.length_lt_of_decode32 hd))

def skipPosting (s : Bytes) : Except IndexFault (Bool × Bytes) :=
  match skipNumbers 3 s with
  | .error fault => .error fault
  | .ok rest => skipMarkers rest

theorem length_lt_of_skipPosting {more : Bool} {s rest : Bytes}
    (h : skipPosting s = .ok (more, rest)) : rest.length < s.length := by
  unfold skipPosting at h
  split at h
  · simp at h
  · next h₁ => exact Nat.lt_of_lt_of_le (length_lt_of_skipMarkers h) (length_le_of_skipNumbers h₁)

/-- Counts the postings of a stream that holds one or more, onto the `passed` ones before them. -/
def countFrom (passed : Nat) (s : Bytes) : Except IndexFault Nat :=
  match _h : skipPosting s with
  | .error fault => .error fault
  | .ok (more, rest) => if more then countFrom (passed + 1) rest else .ok (passed + 1)
termination_by s.length
decreasing_by exact length_lt_of_skipPosting _h

theorem countFrom_eq (passed : Nat) (s : Bytes) : countFrom passed s =
    match skipPosting s with
    | .error fault => .error fault
    | .ok (more, rest) => if more then countFrom (passed + 1) rest else .ok (passed + 1) := by
  rw [countFrom]
  split <;> next h => rw [h]

def count (s : Bytes) : Except IndexFault Nat :=
  if s.head? = some stopMarker then .ok 0 else countFrom 0 s

end WordIndex.Postings
