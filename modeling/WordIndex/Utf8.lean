/-! # Byte strings, texts and their UTF-8 form -/
namespace WordIndex

/-! ## Little-endian words and strings that end at a zero byte -/

abbrev Bytes := List UInt8

abbrev bound32 : Nat := 0x100000000

abbrev bound64 : Nat := 0x10000000000000000

namespace Bytes

def littleEndian : Bytes → Nat
  | [] => 0
  | b :: rest => b.toNat + 256 * littleEndian rest

/-- The `width` low bytes of a number, least significant first. -/
def ofLittleEndian : Nat → Nat → Bytes
  | 0, _ => []
  | width + 1, n => UInt8.ofNat (n % 256) :: ofLittleEndian width (n / 256)

@[simp] theorem length_ofLittleEndian (width n : Nat) : (ofLittleEndian width n).length = width := by
  induction width generalizing n with
  | zero => rfl
  | succ width ih => simp [ofLittleEndian, ih]

/-- A 64-bit word read as a two's complement number. -/
def signed64 (word : Nat) : Int :=
  if word < 0x8000000000000000 then word else (word : Int) - bound64

def splitAtZero : Bytes → Option (Bytes × Bytes)
  | [] => none
  | b :: rest => if b = 0 then some ([], rest) else (splitAtZero rest).map fun p => (b :: p.1, p.2)

def terminated (s : Bytes) : Bytes := s ++ [0]

@[simp] theorem length_terminated (s : Bytes) : s.terminated.length = s.length + 1 := by
  simp [terminated]

theorem splitAtZero_terminated_append {s : Bytes} (t : Bytes) (h : 0 ∉ s) :
    splitAtZero (s.terminated ++ t) = some (s, t) := by
  induction s with
  | nil => simp [terminated, splitAtZero]
  | cons b s ih =>
    have hb : b ≠ 0 := fun e => h (by simp [e])
    have hs : 0 ∉ s := fun e => h (by simp [e])
    simpa [terminated, splitAtZero, hb] using ih hs

theorem eq_append_of_splitAtZero {b s t : Bytes} (h : splitAtZero b = some (s, t)) :
    b = s ++ 0 :: t ∧ 0 ∉ s := by
  induction b generalizing s t with
  | nil => simp [splitAtZero] at h
  | cons x b ih =>
    rw [splitAtZero] at h
    split at h
    · next hx =>
      obtain ⟨rfl, rfl⟩ : [] = s ∧ b = t := by simpa using h
      simp [hx]
    · next hx =>
      obtain ⟨⟨u, v⟩, hu, e⟩ := Option.map_eq_some_iff.1 h
      obtain ⟨rfl, rfl⟩ : x :: u = s ∧ v = t := by simpa using e
      obtain ⟨rfl, hn⟩ := ih hu
      exact ⟨rfl, by simpa [hn] using fun e => hx e.symm⟩

theorem length_lt_of_splitAtZero {b s t : Bytes} (h : splitAtZero b = some (s, t)) :
    t.length < b.length := by
  rw [(eq_append_of_splitAtZero h).1]
  simp
  omega

end Bytes

/-! ## Texts -/

abbrev Text := List Char

namespace Text

def utf8 (t : Text) : Bytes := t.flatMap String.utf8EncodeChar

@[simp] theorem utf8_nil : utf8 [] = [] := rfl

@[simp] theorem utf8_cons (c : Char) (t : Text) :
    utf8 (c :: t) = String.utf8EncodeChar c ++ utf8 t := by
  simp [utf8]

@[simp] theorem utf8_append (s t : Text) : utf8 (s ++ t) = utf8 s ++ utf8 t := by
  simp [utf8]

end Text

namespace Utf8

/-- How many bytes continue a character that starts with `b`, and the bits of its number in `b`. -/
def lead (b : Nat) : Option (Nat × Nat) :=
  if b < 0x80 then some (0, b)
  else if b < 0xC2 then none
  else if b < 0xE0 then some (1, b % 32)
  else if b < 0xF0 then some (2, b % 16)
  else if b < 0xF5 then some (3, b % 8)
  else none

/-- The least and greatest byte that may follow the first byte `b`. -/
def secondRange (b : Nat) : Nat × Nat :=
  if b = 0xE0 then (0xA0, 0xBF)
  else if b = 0xED then (0x80, 0x9F)
  else if b = 0xF0 then (0x90, 0xBF)
  else if b = 0xF4 then (0x80, 0x8F)
  else (0x80, 0xBF)

/-- Reads `count` continuing bytes, the first of them in `range`. A byte that cannot continue the
character ends it and is left unread. -/
def continuation : (count value : Nat) → (range : Nat × Nat) → Bytes → Option Char × Bytes
  | 0, value, _, rest => (some (Char.ofNat value), rest)
  | _ + 1, _, _, [] => (none, [])
  | count + 1, value, range, b :: rest =>
    if range.1 ≤ b.toNat ∧ b.toNat ≤ range.2 then
      continuation count (value * 64 + b.toNat % 64) (0x80, 0xBF) rest
    else (none, b :: rest)

theorem length_continuation_le (count value : Nat) (range : Nat × Nat) (rest : Bytes) :
    (continuation count value range rest).2.length ≤ rest.length := by
  induction rest generalizing count value range with
  | nil => cases count <;> simp [continuation]
  | cons b rest ih =>
    cases count with
    | zero => simp [continuation]
    | succ count =>
      rw [continuation]
      split
      · exact Nat.le_succ_of_le (ih ..)
      · simp

/-- The character that starts with `b`, or nothing for a longest piece that no character
completes, and the bytes after it. -/
def afterFirst (b : UInt8) (rest : Bytes) : Option Char × Bytes :=
  match lead b.toNat with
  | none => (none, rest)
  | some (count, value) => continuation count value (secondRange b.toNat) rest

theorem length_afterFirst_le (b : UInt8) (rest : Bytes) :
    (afterFirst b rest).2.length ≤ rest.length := by
  rw [afterFirst]
  split
  · simp
  · exact length_continuation_le ..

/-- The characters of a byte string in order, with nothing in place of each malformed piece. -/
def pieces : Bytes → List (Option Char)
  | [] => []
  | b :: rest => (afterFirst b rest).1 :: pieces (afterFirst b rest).2
termination_by s => s.length
decreasing_by exact Nat.lt_succ_of_le (length_afterFirst_le b rest)

def decode? (s : Bytes) : Option Text := (pieces s).mapM id

/-- The text of a byte string, with U+FFFD for each malformed piece. -/
def lossy (s : Bytes) : Text := (pieces s).map (·.getD '\uFFFD')

end Utf8

end WordIndex
