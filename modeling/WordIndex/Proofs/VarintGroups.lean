import Mathlib.Data.List.Induction
import Mathlib.Data.Nat.Digits.Defs
import WordIndex.Failure
import WordIndex.Proofs.VarintCodec

/-! # Which groups are read as a number

Of all the groups that are read as one number, the ones that are written are the shortest: the others
have groups of zero before them. -/
namespace WordIndex.Varint

/-- The number that groups spell in base 128, the most significant one first. -/
def value (groups : Bytes) : Nat := Nat.ofDigits 128 (groups.map (·.toNat % 128)).reverse

/-- Whether groups are one number of 64 bits. The high bit tells the last of them from the others. -/
structure Spells (groups : Bytes) (n : Nat) : Prop where
  length_pos : 1 ≤ groups.length
  length_le : groups.length ≤ maxLength
  marked : ∀ b ∈ groups.dropLast, 128 ≤ b.toNat
  unmarked : ∀ b ∈ groups.getLast?, b.toNat < 128
  value_eq : n = value groups
  fits : n < bound64

variable {front groups s rest : Bytes} {b : UInt8} {n : Nat}

@[simp] theorem value_nil : value [] = 0 := rfl

theorem value_append (front groups : Bytes) :
    value (front ++ groups) = value groups + 128 ^ groups.length * value front := by
  rw [value, List.map_append, List.reverse_append, Nat.ofDigits_append, List.length_reverse,
    List.length_map, value, value]

theorem value_concat (front : Bytes) (b : UInt8) :
    value (front ++ [b]) = value front * 128 + b.toNat % 128 := by
  rw [value_append, List.length_singleton, Nat.pow_one, value, List.map_singleton,
    List.reverse_singleton, Nat.ofDigits_singleton]
  omega

/-- Each group that follows moves those before it up by its seven bits. -/
theorem value_mul_le (front : Bytes) (h : groups ≠ []) :
    value front * 128 ≤ value (front ++ groups) := by
  have hlength : groups.length ≠ 0 := mt List.length_eq_zero_iff.1 h
  have hpow : 128 * value front ≤ 128 ^ groups.length * value front :=
    Nat.mul_le_mul_right _ (Nat.le_self_pow hlength 128)
  rw [value_append]
  omega

theorem spells_concat_iff : Spells (front ++ [b]) n ↔
    (∀ b ∈ front, 128 ≤ b.toNat) ∧ b.toNat < 128 ∧ front.length < maxLength ∧
      n = value (front ++ [b]) ∧ n < bound64 := by
  constructor
  · rintro ⟨-, hlength, hmarked, hunmarked, hvalue, hfits⟩
    rw [List.length_append, List.length_singleton] at hlength
    rw [List.dropLast_concat] at hmarked
    exact ⟨hmarked, hunmarked b List.getLast?_concat, hlength, hvalue, hfits⟩
  · rintro ⟨hmarked, hunmarked, hlength, hvalue, hfits⟩
    constructor
    case length_pos => simp
    case length_le => simpa [Nat.succ_le_iff] using hlength
    case marked => simpa using hmarked
    case unmarked => simpa using hunmarked
    case value_eq => exact hvalue
    case fits => exact hfits

/-! ## Reading -/

theorem decodeFrom_cons_of_room (h : ¬ (maxLength ≤ front.length ∨ 0x200000000000000 ≤ value front))
    (b : UInt8) (s : Bytes) : decodeFrom front.length (value front) (b :: s) =
      if b.toNat < 128 then .ok (value (front ++ [b]), s)
      else decodeFrom (front ++ [b]).length (value (front ++ [b])) s := by
  rw [decodeFrom, if_neg h, value_concat, List.length_append, List.length_singleton]
  by_cases hb : b.toNat < 128
  · rw [if_pos hb, if_pos hb, Nat.mod_eq_of_lt hb]
  · have hdigit : b.toNat % 128 = b.toNat - 128 := by
      have := b.toNat_lt
      omega
    rw [if_neg hb, if_neg hb, hdigit]

theorem exists_spells_of_decodeFrom (hfront : ∀ b ∈ front, 128 ≤ b.toNat)
    (h : decodeFrom front.length (value front) s = .ok (n, rest)) :
    ∃ groups, groups ++ rest = s ∧ Spells (front ++ groups) n := by
  -- The groups that were read go over to `front`, of which the reader keeps the value and the number.
  induction s generalizing front with
  | nil => cases h
  | cons b s ih =>
    by_cases hroom : maxLength ≤ front.length ∨ 0x200000000000000 ≤ value front
    · rw [decodeFrom, if_pos hroom] at h
      cases h
    · rw [decodeFrom_cons_of_room hroom] at h
      by_cases hb : b.toNat < 128
      · rw [if_pos hb] at h
        cases h
        have hfits : value (front ++ [b]) < bound64 := by
          have hbound : bound64 = 0x200000000000000 * 128 := by decide
          rw [value_concat]
          omega
        exact ⟨[b], rfl, spells_concat_iff.2 ⟨hfront, hb, by omega, rfl, hfits⟩⟩
      · rw [if_neg hb] at h
        have hmarked : ∀ c ∈ front ++ [b], 128 ≤ c.toNat := by
          rw [List.forall_mem_append]
          exact ⟨hfront, by simpa using hb⟩
        obtain ⟨groups, rfl, hspells⟩ := ih hmarked h
        exact ⟨b :: groups, rfl, by rwa [List.append_cons]⟩

/-- No group of a number is refused: before each of them there is room for what follows. -/
theorem decodeFrom_of_spells (hne : groups ≠ []) (h : Spells (front ++ groups) n) (rest : Bytes) :
    decodeFrom front.length (value front) (groups ++ rest) = .ok (n, rest) := by
  induction groups generalizing front with
  | nil => exact absurd rfl hne
  | cons b groups ih =>
    have hroom : ¬ (maxLength ≤ front.length ∨ 0x200000000000000 ≤ value front) := by
      have hbound : bound64 = 0x200000000000000 * 128 := by decide
      have hlength := h.length_le
      have hvalue := value_mul_le front hne
      have hfits := h.fits
      rw [h.value_eq] at hfits
      rw [List.length_append, List.length_cons] at hlength
      omega
    rw [List.cons_append, decodeFrom_cons_of_room hroom]
    cases groups with
    | nil =>
      obtain ⟨-, hb, -, rfl, -⟩ := spells_concat_iff.1 h
      rw [if_pos hb, List.nil_append]
    | cons c groups =>
      have hb : 128 ≤ b.toNat := by
        refine h.marked b ?_
        rw [List.dropLast_append_cons, List.dropLast_cons_cons]
        exact List.mem_append_right _ List.mem_cons_self
      rw [if_neg (by omega)]
      exact ih (List.cons_ne_nil _ _) (by rwa [← List.append_cons])

theorem decode_eq_ok_iff : decode s = .ok (n, rest) ↔ ∃ groups, groups ++ rest = s ∧ Spells groups n := by
  constructor
  · intro h
    have hnil : ∀ b ∈ ([] : Bytes), 128 ≤ b.toNat := by simp
    exact exists_spells_of_decodeFrom hnil h
  · rintro ⟨groups, rfl, h⟩
    have hne : groups ≠ [] := List.ne_nil_of_length_pos h.length_pos
    have hspells : Spells ([] ++ groups) n := h
    exact decodeFrom_of_spells hne hspells rest

/-! ## Writing -/

theorem length_encode_le (h : n < bound64) : (encode n).length ≤ maxLength := by
  have hbound : bound64 ≤ 128 ^ 10 := by decide
  have hshort : (leadingGroups (n / 128)).length ≤ 9 := length_leadingGroups_le (by omega)
  rw [encode, List.length_append, List.length_singleton, maxLength]
  omega

/-- Groups that are marked are those above the last group of a number, behind groups of zero. -/
theorem exists_eq_replicate_append_leadingGroups (h : ∀ b ∈ front, 128 ≤ b.toNat) :
    ∃ k, front = List.replicate k 0x80 ++ leadingGroups (value front) := by
  induction front using List.reverseRecOn with
  | nil => exact ⟨0, by simp⟩
  | append_singleton front b ih =>
    obtain ⟨hfront, hb⟩ := List.forall_mem_append.1 h
    have hb : 128 ≤ b.toNat := hb b List.mem_cons_self
    obtain ⟨k, hk⟩ := ih hfront
    have hbyte : b = UInt8.ofNat (b.toNat % 128 + 128) := by
      have hlt := b.toNat_lt
      rw [← UInt8.toNat_inj, UInt8.toNat_ofNat']
      omega
    rw [value_concat]
    -- A group of zero after such groups only is one more of them.
    by_cases hzero : value front * 128 + b.toNat % 128 = 0
    · have hvalue : value front = 0 := by omega
      have hdigit : b.toNat % 128 = 0 := by omega
      rw [hvalue, leadingGroups_zero, List.append_nil] at hk
      rw [hdigit] at hbyte
      refine ⟨k + 1, ?_⟩
      rw [hzero, leadingGroups_zero, List.append_nil, List.replicate_succ', ← hk, hbyte]
      rfl
    · have hdiv : (value front * 128 + b.toNat % 128) / 128 = value front := by omega
      have hmod : (value front * 128 + b.toNat % 128) % 128 = b.toNat % 128 := by omega
      refine ⟨k, ?_⟩
      rw [leadingGroups_of_ne_zero hzero, hdiv, hmod, ← List.append_assoc, ← hk, ← hbyte]

/-- A number is spelt by its own groups, with any number of zero groups before them. -/
theorem Spells.exists_eq_replicate_append_encode (h : Spells groups n) :
    ∃ k, groups = List.replicate k 0x80 ++ encode n := by
  obtain ⟨front, b, rfl⟩ : ∃ front b, groups = front ++ [b] :=
    ⟨_, _, (List.dropLast_concat_getLast (List.ne_nil_of_length_pos h.length_pos)).symm⟩
  obtain ⟨hmarked, hb, -, hvalue, -⟩ := spells_concat_iff.1 h
  obtain ⟨k, hk⟩ := exists_eq_replicate_append_leadingGroups hmarked
  rw [value_concat, Nat.mod_eq_of_lt hb] at hvalue
  have hdiv : n / 128 = value front := by omega
  have hmod : n % 128 = b.toNat := by omega
  refine ⟨k, ?_⟩
  rw [encode, hdiv, hmod, ← List.append_assoc, ← hk, UInt8.ofNat_toNat]

/-- Bytes that start with a number are not shorter than what is written for it. -/
theorem length_encode_lt (h : decode s = .ok (n, rest)) (hne : s ≠ encode n) :
    (encode n).length < s.length := by
  obtain ⟨groups, rfl, hspells⟩ := decode_eq_ok_iff.1 h
  obtain ⟨k, rfl⟩ := hspells.exists_eq_replicate_append_encode
  rw [List.length_append, List.length_append, List.length_replicate]
  refine Nat.lt_of_not_le fun hle => hne ?_
  obtain rfl : k = 0 := by omega
  obtain rfl : rest = [] := List.length_eq_zero_iff.1 (by omega)
  simp

theorem decode32_eq_ok_iff_spells : decode32 s = .ok (n, rest) ↔
    ∃ groups, groups ++ rest = s ∧ Spells groups n ∧ n < bound32 := by
  rw [decode32_eq_ok_iff, decode_eq_ok_iff]
  constructor
  · rintro ⟨⟨groups, hs, hspells⟩, hn⟩
    exact ⟨groups, hs, hspells, hn⟩
  · rintro ⟨groups, hs, hspells, hn⟩
    exact ⟨⟨groups, hs, hspells⟩, hn⟩

/-- What a reader of numbers does not accept it refuses as corrupt. -/
theorem exists_corrupt_iff {read : Bytes → Except IndexFault (Nat × Bytes)}
    {accepts : Bytes → Nat → Prop}
    (h : ∀ n rest, read s = .ok (n, rest) ↔ ∃ groups, groups ++ rest = s ∧ accepts groups n) :
    (∃ fault, read s = .error fault ∧ (Failure.index fault).kind = .corruptIndex) ↔
      ∀ groups rest n, groups ++ rest = s → ¬ accepts groups n := by
  constructor
  · rintro ⟨fault, hfault, -⟩ groups rest n hs haccepts
    cases hfault.symm.trans ((h n rest).2 ⟨groups, hs, haccepts⟩)
  · intro hnone
    cases hread : read s with
    | error fault => exact ⟨fault, rfl, rfl⟩
    | ok r =>
      obtain ⟨groups, hs, haccepts⟩ := (h r.1 r.2).1 hread
      exact absurd haccepts (hnone groups r.2 r.1 hs)

/-- Each number of 64 bits is written in the shortest way in which it can be read, which no stop
marker starts. What is read as a number is what spells one, and all else is refused as corrupt; of
the numbers of 32 bits the same is true. -/
theorem encode_shortest_and_decode_iff_spells :
    (∀ v : UInt64, (∀ t, decode (encode v.toNat ++ t) = .ok (v.toNat, t)) ∧
      (encode v.toNat).length ≤ maxLength ∧ (encode v.toNat).head? ≠ some 0x80 ∧
      ∀ s rest, decode s = .ok (v.toNat, rest) → s ≠ encode v.toNat →
        (encode v.toNat).length < s.length) ∧
    (∀ s n rest, decode s = .ok (n, rest) ↔ ∃ groups, groups ++ rest = s ∧ Spells groups n) ∧
    (∀ s, (∃ fault, decode s = .error fault ∧ (Failure.index fault).kind = .corruptIndex) ↔
      ∀ groups rest n, groups ++ rest = s → ¬ Spells groups n) ∧
    (∀ s n rest, decode32 s = .ok (n, rest) ↔
      ∃ groups, groups ++ rest = s ∧ Spells groups n ∧ n < bound32) ∧
    ∀ s, (∃ fault, decode32 s = .error fault ∧ (Failure.index fault).kind = .corruptIndex) ↔
      ∀ groups rest n, groups ++ rest = s → ¬ (Spells groups n ∧ n < bound32) := by
  refine ⟨fun v => ?written, fun s n rest => decode_eq_ok_iff, fun s => ?refused,
    fun s n rest => decode32_eq_ok_iff_spells, fun s => ?refused32⟩
  case written =>
    exact ⟨decode_encode_append v.toNat_lt, length_encode_le v.toNat_lt, head?_encode_ne _,
      fun s rest => length_encode_lt⟩
  case refused => exact exists_corrupt_iff fun n rest => decode_eq_ok_iff
  case refused32 => exact exists_corrupt_iff fun n rest => decode32_eq_ok_iff_spells

end WordIndex.Varint
