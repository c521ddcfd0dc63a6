import Mathlib.Algebra.Ring.Nat
import WordIndex.Varint

/-! # A number is read back from its groups -/
namespace WordIndex.Varint

@[simp] theorem leadingGroups_zero : leadingGroups 0 = [] := by
  rw [leadingGroups, if_pos rfl]

theorem leadingGroups_of_ne_zero {n : Nat} (h : n ≠ 0) :
    leadingGroups n = leadingGroups (n / 128) ++ [UInt8.ofNat (n % 128 + 128)] := by
  rw [leadingGroups, if_neg h]

theorem length_leadingGroups_le {n k : Nat} (h : n < 128 ^ k) : (leadingGroups n).length ≤ k := by
  induction k generalizing n with
  | zero =>
    obtain rfl : n = 0 := by simpa using h
    simp
  | succ k ih =>
    by_cases hn : n = 0
    · simp [hn]
    · have hdiv : n / 128 < 128 ^ k := by
        rw [Nat.pow_succ] at h
        omega
      rw [leadingGroups_of_ne_zero hn, List.length_append]
      exact Nat.succ_le_succ (ih hdiv)

/-- No number is written with leading zeros. -/
theorem head?_leadingGroups {n : Nat} (h : n ≠ 0) :
    ∃ digit, 0 < digit ∧ digit < 128 ∧
      (leadingGroups n).head? = some (UInt8.ofNat (digit + 128)) := by
  induction n using Nat.strongRecOn with
  | ind n ih =>
    rw [leadingGroups_of_ne_zero h]
    by_cases hdiv : n / 128 = 0
    · exact ⟨n % 128, by omega, by omega, by rw [hdiv, leadingGroups_zero]; rfl⟩
    · obtain ⟨digit, hpos, hlt, hhead⟩ := ih (n / 128) (by omega) hdiv
      exact ⟨digit, hpos, hlt, by rw [List.head?_append, hhead]; rfl⟩

theorem toNat_marked {digit : Nat} (h : digit < 128) :
    (UInt8.ofNat (digit + 128)).toNat = digit + 128 := by
  rw [UInt8.toNat_ofNat']
  omega

theorem toNat_unmarked {digit : Nat} (h : digit < 128) : (UInt8.ofNat digit).toNat = digit := by
  rw [UInt8.toNat_ofNat']
  omega

/-- A number does not start with the byte that ends a list. -/
theorem head?_encode_ne (n : Nat) : (encode n).head? ≠ some 0x80 := by
  intro hhead
  rw [encode, List.head?_append] at hhead
  by_cases hn : n / 128 = 0
  · rw [hn, leadingGroups_zero, List.head?_nil, Option.none_or, List.head?_cons] at hhead
    have h := congrArg UInt8.toNat (Option.some.inj hhead)
    rw [toNat_unmarked (Nat.mod_lt _ (by decide))] at h
    have : (0x80 : UInt8).toNat = 128 := rfl
    omega
  · obtain ⟨digit, hpos, hlt, hfirst⟩ := head?_leadingGroups hn
    rw [hfirst, Option.some_or] at hhead
    have h := congrArg UInt8.toNat (Option.some.inj hhead)
    rw [toNat_marked hlt] at h
    have : (0x80 : UInt8).toNat = 128 := rfl
    omega

theorem encode_ne_nil (n : Nat) : encode n ≠ [] := by
  simp [encode]

/-- The last group of a 64-bit number is never refused. -/
theorem room_for_digit {n : Nat} (h : n < bound64) :
    ¬ (maxLength ≤ (leadingGroups (n / 128)).length ∨ 0x200000000000000 ≤ n / 128) := by
  have hbound : bound64 = 0x200000000000000 * 128 := by decide
  have hshort : (leadingGroups (n / 128)).length ≤ 9 := length_leadingGroups_le (by omega)
  rw [maxLength]
  omega

theorem decodeFrom_leadingGroups {n : Nat} (h : n < bound64) (t : Bytes) :
    decodeFrom 0 0 (leadingGroups n ++ t) = decodeFrom (leadingGroups n).length n t := by
  induction n using Nat.strongRecOn generalizing t with
  | ind n ih =>
    by_cases hn : n = 0
    · simp [hn]
    · have hdigit : n % 128 < 128 := Nat.mod_lt _ (by decide)
      rw [leadingGroups_of_ne_zero hn, List.append_assoc, ih (n / 128) (by omega) (by omega),
        List.singleton_append, decodeFrom, if_neg (room_for_digit h), toNat_marked hdigit, if_neg (by omega),
        List.length_append, Nat.add_sub_cancel, Nat.div_add_mod']
      rfl

theorem decode_encode_append {n : Nat} (h : n < bound64) (t : Bytes) :
    decode (encode n ++ t) = .ok (n, t) := by
  have hdigit : n % 128 < 128 := Nat.mod_lt _ (by decide)
  rw [decode, encode, List.append_assoc, decodeFrom_leadingGroups (by omega),
    List.singleton_append, decodeFrom, if_neg (room_for_digit h), toNat_unmarked hdigit, if_pos hdigit,
    Nat.div_add_mod']

theorem decode32_encode_append {n : Nat} (h : n < bound32) (t : Bytes) :
    decode32 (encode n ++ t) = .ok (n, t) := by
  have hbound : bound32 < bound64 := by decide
  rw [decode32, decode_encode_append (by omega)]
  exact if_pos h

theorem decode32_eq_ok_iff {n : Nat} {s rest : Bytes} :
    decode32 s = .ok (n, rest) ↔ decode s = .ok (n, rest) ∧ n < bound32 := by
  rw [decode32]
  cases decode s with
  | error fault => simp
  | ok r =>
    obtain ⟨value, left⟩ := r
    by_cases hvalue : value < bound32
    · simp only [if_pos hvalue, Except.ok.injEq, Prod.mk.injEq, iff_self_and, and_imp]
      rintro rfl -
      exact hvalue
    · simp only [if_neg hvalue, reduceCtorEq, Except.ok.injEq, Prod.mk.injEq, false_iff, not_and,
        and_imp]
      rintro rfl -
      exact hvalue

theorem lt_of_decode32 {n : Nat} {s rest : Bytes} (h : decode32 s = .ok (n, rest)) : n < bound32 :=
  (decode32_eq_ok_iff.1 h).2

end WordIndex.Varint
