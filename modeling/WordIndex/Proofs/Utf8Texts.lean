import WordIndex.Proofs.JoinedLine

/-! # Bytes that are read as a text are those of that text -/
namespace WordIndex.Utf8

variable {b : UInt8} {c : Char} {rest rest' : Bytes} {count value n m v : Nat} {range : Nat × Nat}

theorem val_ofNat (h : v.isValidChar) : (Char.ofNat v).val.toNat = v := by
  rw [Char.ofNat, dif_pos h]
  rfl

/-! ## What was read of one character -/

theorem eq_of_continuation_zero (h : continuation 0 value range rest = (some c, rest')) :
    Char.ofNat value = c ∧ rest = rest' := by
  simpa [continuation] using h

theorem exists_of_continuation_succ
    (h : continuation (count + 1) value range rest = (some c, rest')) :
    ∃ b others, rest = b :: others ∧ range.1 ≤ b.toNat ∧ b.toNat ≤ range.2 ∧
      continuation count (value * 64 + b.toNat % 64) (0x80, 0xBF) others = (some c, rest') := by
  cases rest with
  | nil => simp [continuation] at h
  | cons b others =>
    rw [continuation] at h
    split at h
    · next hb => exact ⟨b, others, rfl, hb.1, hb.2, h⟩
    · simp at h

theorem lead_cases (h : lead n = some (count, value)) :
    n < 0x80 ∧ count = 0 ∧ value = n ∨
      (0xC2 ≤ n ∧ n < 0xE0) ∧ count = 1 ∧ value = n % 32 ∨
      (0xE0 ≤ n ∧ n < 0xF0) ∧ count = 2 ∧ value = n % 16 ∨
      (0xF0 ≤ n ∧ n < 0xF5) ∧ count = 3 ∧ value = n % 8 := by
  rw [lead] at h
  split_ifs at h <;> cases h <;> omega

/-- The second byte continues a character, and it leaves out what has a shorter form and what is no
character. -/
theorem second_bounds (hlow : (secondRange n).1 ≤ m) (hhigh : m ≤ (secondRange n).2) :
    (0x80 ≤ m ∧ m ≤ 0xBF) ∧ (n = 0xE0 → 0xA0 ≤ m) ∧ (n = 0xED → m ≤ 0x9F) ∧
      (n = 0xF0 → 0x90 ≤ m) ∧ (n = 0xF4 → m ≤ 0x8F) := by
  rw [secondRange] at hlow hhigh
  split_ifs at hlow hhigh <;> dsimp only at hlow hhigh <;> omega

/-! ## What is written for a character, by its number of bytes -/

theorem utf8EncodeChar_one (h : v ≤ 127) :
    String.utf8EncodeChar (Char.ofNat v) = [UInt8.ofNat v] := by
  have hval := val_ofNat (v := v) (.inl (by omega))
  simp only [String.utf8EncodeChar, hval, if_pos h]

theorem utf8EncodeChar_two (h : 127 < v) (h' : v ≤ 2047) : String.utf8EncodeChar (Char.ofNat v) =
    [UInt8.ofNat (v / 64 % 32 + 192), UInt8.ofNat (v % 64 + 128)] := by
  have hval := val_ofNat (v := v) (.inl (by omega))
  simp only [String.utf8EncodeChar, hval, if_neg (Nat.not_le.2 h), if_pos h']

theorem utf8EncodeChar_three (h : 2047 < v) (h' : v ≤ 65535) (hvalid : v.isValidChar) :
    String.utf8EncodeChar (Char.ofNat v) = [UInt8.ofNat (v / 4096 % 16 + 224),
      UInt8.ofNat (v / 64 % 64 + 128), UInt8.ofNat (v % 64 + 128)] := by
  have hval := val_ofNat hvalid
  have hlong : ¬ v ≤ 127 := by omega
  simp only [String.utf8EncodeChar, hval, if_neg hlong, if_neg (Nat.not_le.2 h), if_pos h']

theorem utf8EncodeChar_four (h : 65535 < v) (h' : v < 0x110000) :
    String.utf8EncodeChar (Char.ofNat v) = [UInt8.ofNat (v / 262144 % 8 + 240),
      UInt8.ofNat (v / 4096 % 64 + 128), UInt8.ofNat (v / 64 % 64 + 128),
      UInt8.ofNat (v % 64 + 128)] := by
  have hval := val_ofNat (v := v) (.inr ⟨by omega, h'⟩)
  have hlong : ¬ v ≤ 127 := by omega
  have hlong' : ¬ v ≤ 2047 := by omega
  simp only [String.utf8EncodeChar, hval, if_neg hlong, if_neg hlong', if_neg (Nat.not_le.2 h)]

theorem eq_ofNat (h : b.toNat = n) : b = UInt8.ofNat n := by
  rw [← h, UInt8.ofNat_toNat]

/-- A character is read from its own bytes only. -/
theorem eq_utf8EncodeChar_append_of_afterFirst (h : afterFirst b rest = (some c, rest')) :
    b :: rest = String.utf8EncodeChar c ++ rest' := by
  rw [afterFirst] at h
  split at h
  · simp at h
  · next count value hlead =>
    -- The bounds of the first two bytes give the number its least and greatest value for its length.
    obtain ⟨hb, rfl, rfl⟩ | ⟨hb, rfl, rfl⟩ | ⟨hb, rfl, rfl⟩ | ⟨hb, rfl, rfl⟩ := lead_cases hlead
    case inl =>
      obtain ⟨rfl, rfl⟩ := eq_of_continuation_zero h
      rw [utf8EncodeChar_one (by omega), UInt8.ofNat_toNat]
      rfl
    case inr.inl =>
      obtain ⟨b₁, rest, rfl, hlow, hhigh, h⟩ := exists_of_continuation_succ h
      obtain ⟨rfl, rfl⟩ := eq_of_continuation_zero h
      obtain ⟨h₁, -⟩ := second_bounds hlow hhigh
      rw [utf8EncodeChar_two (by omega) (by omega), ← eq_ofNat (b := b) (by omega),
        ← eq_ofNat (b := b₁) (by omega)]
      rfl
    case inr.inr.inl =>
      obtain ⟨b₁, rest, rfl, hlow, hhigh, h⟩ := exists_of_continuation_succ h
      obtain ⟨b₂, rest, rfl, hlow', hhigh', h⟩ := exists_of_continuation_succ h
      obtain ⟨rfl, rfl⟩ := eq_of_continuation_zero h
      obtain ⟨h₁, hE0, hED, -⟩ := second_bounds hlow hhigh
      have hvalid : ((b.toNat % 16 * 64 + b₁.toNat % 64) * 64 + b₂.toNat % 64).isValidChar := by
        rw [Nat.isValidChar]
        omega
      rw [utf8EncodeChar_three (by omega) (by omega) hvalid, ← eq_ofNat (b := b) (by omega),
        ← eq_ofNat (b := b₁) (by omega), ← eq_ofNat (b := b₂) (by omega)]
      rfl
    case inr.inr.inr =>
      obtain ⟨b₁, rest, rfl, hlow, hhigh, h⟩ := exists_of_continuation_succ h
      obtain ⟨b₂, rest, rfl, hlow', hhigh', h⟩ := exists_of_continuation_succ h
      obtain ⟨b₃, rest, rfl, hlow'', hhigh'', h⟩ := exists_of_continuation_succ h
      obtain ⟨rfl, rfl⟩ := eq_of_continuation_zero h
      obtain ⟨h₁, -, -, hF0, hF4⟩ := second_bounds hlow hhigh
      rw [utf8EncodeChar_four (by omega) (by omega), ← eq_ofNat (b := b) (by omega),
        ← eq_ofNat (b := b₁) (by omega), ← eq_ofNat (b := b₂) (by omega),
        ← eq_ofNat (b := b₃) (by omega)]
      rfl

/-! ## Texts -/

theorem utf8_of_pieces {s : Bytes} {t : Text} (h : pieces s = t.map some) : t.utf8 = s := by
  fun_induction pieces s generalizing t with
  | case1 =>
    obtain rfl : t = [] := by simpa using h
    rfl
  | case2 b rest ih =>
    obtain ⟨c, t, rfl, hfirst, hrest⟩ := List.map_eq_cons_iff.1 h.symm
    rw [Text.utf8_cons, ih hrest.symm]
    exact (eq_utf8EncodeChar_append_of_afterFirst (Prod.ext hfirst.symm rfl)).symm

theorem map_some_of_mapM_id {xs : List (Option Char)} {t : Text} (h : xs.mapM id = some t) :
    xs = t.map some := by
  induction xs generalizing t with
  | nil =>
    obtain rfl : [] = t := by simpa using h
    rfl
  | cons x xs ih =>
    rw [List.mapM_cons] at h
    obtain ⟨c, hc, h⟩ := Option.bind_eq_some_iff.1 h
    obtain ⟨others, hothers, h⟩ := Option.bind_eq_some_iff.1 h
    obtain rfl : c :: others = t := by simpa using h
    obtain rfl : x = some c := hc
    rw [ih hothers, List.map_cons]

/-- A byte string is a text exactly when it is the UTF-8 form of it. -/
theorem decode?_eq_some_iff {s : Bytes} {t : Text} : decode? s = some t ↔ t.utf8 = s := by
  constructor
  · exact fun h => utf8_of_pieces (map_some_of_mapM_id h)
  · rintro rfl
    exact decode?_utf8 t

theorem decode?_eq_none_iff {s : Bytes} : decode? s = none ↔ ∀ t : Text, t.utf8 ≠ s := by
  rw [Option.eq_none_iff_forall_not_mem]
  exact forall_congr' fun t => not_congr decode?_eq_some_iff

end WordIndex.Utf8
