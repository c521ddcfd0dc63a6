import WordIndex.IndexFault

/-! # Numbers as big-endian groups of seven bits -/
namespace WordIndex.Varint

def maxLength : Nat := 10

/-- The groups of a number above its last one, each marked as followed by another. -/
def leadingGroups (n : Nat) : Bytes :=
  if n = 0 then []
  else leadingGroups (n / 128) ++ [UInt8.ofNat (n % 128 + 128)]
termination_by n
decreasing_by omega

/-- The bytes of a number: seven bits in each, the most significant first, and the high bit set in
every byte but the last. -/
def encode (n : Nat) : Bytes := leadingGroups (n / 128) ++ [UInt8.ofNat (n % 128)]

/-- Reads groups onto the `value` of those `read` before. A group is refused when ten were read or
when the value would not fit in 64 bits. -/
def decodeFrom : (read value : Nat) → Bytes → Except IndexFault (Nat × Bytes)
  | _, _, [] => .error .numberIncomplete
  | read, value, b :: rest =>
    if maxLength ≤ read ∨ 0x200000000000000 ≤ value then .error .numberOverflow
    else if b.toNat < 128 then .ok (value * 128 + b.toNat, rest)
    else decodeFrom (read + 1) (value * 128 + (b.toNat - 128)) rest

def decode (s : Bytes) : Except IndexFault (Nat × Bytes) := decodeFrom 0 0 s

def decode32 (s : Bytes) : Except IndexFault (Nat × Bytes) :=
  match decode s with
  | .error fault => .error fault
  | .ok (value, rest) => if value < bound32 then .ok (value, rest) else .error .numberTooWide

theorem length_lt_of_decodeFrom {read value n : Nat} {s rest : Bytes}
    (h : decodeFrom read value s = .ok (n, rest)) : rest.length < s.length := by
  induction s generalizing read value with
  | nil => simp [decodeFrom] at h
  | cons b s ih =>
    rw [decodeFrom] at h
    split at h
    · simp at h
    · split at h
      · obtain ⟨-, rfl⟩ : _ ∧ s = rest := by simpa using h
        simp
      · exact Nat.lt_succ_of_lt (ih h)

theorem length_lt_of_decode {n : Nat} {s rest : Bytes} (h : decode s = .ok (n, rest)) :
    rest.length < s.length := length_lt_of_decodeFrom h

theorem length_lt_of_decode32 {n : Nat} {s rest : Bytes} (h : decode32 s = .ok (n, rest)) :
    rest.length < s.length := by
  rw [decode32] at h
  split at h
  · simp at h
  · next value rest' hd =>
    split at h
    · obtain ⟨-, rfl⟩ : _ ∧ rest' = rest := by simpa using h
      exact length_lt_of_decode hd
    · simp at h

end WordIndex.Varint
