import WordIndex.Varint

/-! # The postings of a word

A posting is three numbers and then markers. A marker starts a list, announces another posting or
ends the stream; a list ends at the stop marker. -/
namespace WordIndex

structure Posting where
  file : Nat
  occurrences : Nat
  rank : Nat
  metaIds : List Nat := []
  positions : List Nat := []
  deriving DecidableEq

namespace Posting

def hasMeta (p : Posting) (id : Nat) : Bool := p.metaIds.contains id

end Posting

namespace Postings

def continueMarker : UInt8 := 0x00

/-- Ends a stream or a list. -/
def stopMarker : UInt8 := 0x80

def metaMarker : UInt8 := 0x01

/-- Starts the list of distances between positions. -/
def positionMarker : UInt8 := 0x02

/-- Reads numbers up to a stop marker and gives the bytes after it. -/
def readList : Bytes → Except IndexFault (List Nat × Bytes)
  | [] => .error .missingStopMarker
  | b :: rest =>
    if b = stopMarker then .ok ([], rest)
    else
      match _h : Varint.decode32 (b :: rest) with
      | .error fault => .error fault
      | .ok (value, rest') =>
        match readList rest' with
        | .error fault => .error fault
        | .ok (values, rest'') => .ok (value :: values, rest'')
termination_by s => s.length
decreasing_by exact Varint.length_lt_of_decode32 _h

theorem readList_cons (b : UInt8) (rest : Bytes) : readList (b :: rest) =
    if b = stopMarker then .ok ([], rest)
    else
      match Varint.decode32 (b :: rest) with
      | .error fault => .error fault
      | .ok (value, rest') =>
        match readList rest' with
        | .error fault => .error fault
        | .ok (values, rest'') => .ok (value :: values, rest'') := by
  rw [readList]
  split
  · rfl
  · split <;> next h => rw [h]

theorem length_lt_of_readList {s rest : Bytes} {values : List Nat}
    (h : readList s = .ok (values, rest)) : rest.length < s.length := by
  fun_induction readList s generalizing values rest with
  | case1 => simp at h
  | case2 r =>
    obtain ⟨-, rfl⟩ : _ ∧ r = rest := by simpa using h
    simp
  | case3 => simp at h
  | case4 => simp at h
  | case5 b r _ value r' hd values' r'' hl ih =>
    obtain ⟨-, rfl⟩ : _ ∧ r'' = rest := by simpa using h
    exact Nat.lt_trans (ih hl) (Varint.length_lt_of_decode32 hd)

/-- The positions at the given distances from each other, none above the greatest 32-bit number. -/
def absolutePositions (position : Nat) : List Nat → List Nat
  | [] => []
  | distance :: rest =>
    let next := min (position + distance) (bound32 - 1)
    next :: absolutePositions next rest

/-- Reads the markers of a posting and its lists; of several lists of one kind the last counts.
Gives the posting, whether another one follows, and the bytes after the last marker. -/
def readMarkers (p : Posting) : Bytes → Except IndexFault (Posting × Bool × Bytes)
  | [] => .error .missingStopMarker
  | b :: rest =>
    if b = continueMarker then .ok (p, true, rest)
    else if b = stopMarker then .ok (p, false, rest)
    else if b = metaMarker then
      match _h : readList rest with
      | .error fault => .error fault
      | .ok (ids, rest') => readMarkers { p with metaIds := ids } rest'
    else if b = positionMarker then
      match _h : readList rest with
      | .error fault => .error fault
      | .ok (distances, rest') =>
        readMarkers { p with positions := absolutePositions 0 distances } rest'
    else .error (.unknownMarker b)
termination_by s => s.length
decreasing_by all_goals exact Nat.lt_succ_of_lt (length_lt_of_readList _h)

theorem readMarkers_cons (p : Posting) (b : UInt8) (rest : Bytes) : readMarkers p (b :: rest) =
    if b = continueMarker then .ok (p, true, rest)
    else if b = stopMarker then .ok (p, false, rest)
    else if b = metaMarker then
      match readList rest with
      | .error fault => .error fault
      | .ok (ids, rest') => readMarkers { p with metaIds := ids } rest'
    else if b = positionMarker then
      match readList rest with
      | .error fault => .error fault
      | .ok (distances, rest') =>
        readMarkers { p with positions := absolutePositions 0 distances } rest'
    else .error (.unknownMarker b) := by
  rw [readMarkers]
  split
  · rfl
  · split
    · rfl
    · split
      · split <;> next h => rw [h]
      · split
        · split <;> next h => rw [h]
        · rfl

theorem length_lt_of_readMarkers {p q : Posting} {more : Bool} {s rest : Bytes}
    (h : readMarkers p s = .ok (q, more, rest)) : rest.length < s.length := by
  fun_induction readMarkers p s with
  | case1 => simp at h
  | case2 =>
    obtain ⟨-, -, rfl⟩ := by simpa using h
    simp
  | case3 =>
    obtain ⟨-, -, rfl⟩ := by simpa using h
    simp
  | case4 => simp at h
  | case5 p r ids r' hl _ _ ih =>
    exact Nat.lt_trans (ih h) (Nat.lt_succ_of_lt (length_lt_of_readList hl))
  | case6 => simp at h
  | case7 p r ids r' hl _ _ _ ih =>
    exact Nat.lt_trans (ih h) (Nat.lt_succ_of_lt (length_lt_of_readList hl))
  | case8 => simp at h

def readPosting (s : Bytes) : Except IndexFault (Posting × Bool × Bytes) :=
  match Varint.decode32 s with
  | .error fault => .error fault
  | .ok (file, s) =>
    match Varint.decode32 s with
    | .error fault => .error fault
    | .ok (occurrences, s) =>
      match Varint.decode32 s with
      | .error fault => .error fault
      | .ok (rank, s) => readMarkers { file, occurrences, rank } s

theorem length_lt_of_readPosting {p : Posting} {more : Bool} {s rest : Bytes}
    (h : readPosting s = .ok (p, more, rest)) : rest.length < s.length := by
  unfold readPosting at h
  split at h
  · simp at h
  · next h₁ =>
    split at h
    · simp at h
    · next h₂ =>
      split at h
      · simp at h
      · next h₃ =>
        exact Nat.lt_trans (length_lt_of_readMarkers h) <|
          Nat.lt_trans (Varint.length_lt_of_decode32 h₃) <|
            Nat.lt_trans (Varint.length_lt_of_decode32 h₂) (Varint.length_lt_of_decode32 h₁)

/-- The postings of a stream that holds one or more, up to the first fault. -/
def drainFrom (s : Bytes) : List Posting × Option IndexFault :=
  match _h : readPosting s with
  | .error fault => ([], some fault)
  | .ok (p, more, rest) =>
    if more then
      let drained := drainFrom rest
      (p :: drained.1, drained.2)
    else ([p], none)
termination_by s.length
decreasing_by exact length_lt_of_readPosting _h

theorem drainFrom_eq (s : Bytes) : drainFrom s =
    match readPosting s with
    | .error fault => ([], some fault)
    | .ok (p, more, rest) =>
      if more then (p :: (drainFrom rest).1, (drainFrom rest).2) else ([p], none) := by
  rw [drainFrom]
  split <;> next h => rw [h]

/-- The postings of a stream in order, up to the first fault. A stream that starts with the stop
marker has none. -/
def drain (s : Bytes) : List Posting × Option IndexFault :=
  if s.head? = some stopMarker then ([], none) else drainFrom s

def decode (s : Bytes) : Except IndexFault (List Posting) :=
  match drain s with
  | (_, some fault) => .error fault
  | (postings, none) => .ok postings

end Postings

end WordIndex
