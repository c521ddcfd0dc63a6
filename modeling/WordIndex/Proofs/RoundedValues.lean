import Mathlib.Data.Int.Log
import Mathlib.Data.Rat.Floor
import Mathlib.Tactic.Linarith
import WordIndex.RankedResults

/-! # Rounding to double precision keeps the order of numbers -/
namespace WordIndex.DoubleRounding

variable {x y : Rat}

/-! ## Integers -/

theorem nearestInteger_cases (x : Rat) :
    nearestInteger x = ⌊x⌋ ∧ x ≤ ⌊x⌋ + 1 / 2 ∨ nearestInteger x = ⌊x⌋ + 1 ∧ ⌊x⌋ + 1 / 2 ≤ x := by
  have hfloor : x.floor = ⌊x⌋ := rfl
  simp only [nearestInteger, hfloor]
  split_ifs with hbelow habove heven
  · exact .inl ⟨rfl, by linarith⟩
  · exact .inr ⟨rfl, by linarith⟩
  · exact .inl ⟨rfl, by linarith⟩
  · exact .inr ⟨rfl, by linarith⟩

theorem abs_nearestInteger_sub_le_half (x : Rat) : |nearestInteger x - x| ≤ 1 / 2 := by
  have hle := Int.floor_le x
  have hlt := Int.lt_floor_add_one x
  rw [abs_le]
  rcases nearestInteger_cases x with ⟨h, hx⟩ | ⟨h, hx⟩
  · rw [h]
    constructor <;> linarith
  · rw [h]
    push_cast
    constructor <;> linarith

theorem nearestInteger_intCast (n : Int) : nearestInteger n = n := by
  have hfloor : ⌊(n : Rat)⌋ = n := Int.floor_intCast n
  rcases nearestInteger_cases n with ⟨h, -⟩ | ⟨-, h⟩
  · rw [h, hfloor]
  · rw [hfloor] at h
    linarith

theorem nearestInteger_mono (h : x ≤ y) : nearestInteger x ≤ nearestInteger y := by
  have hfloor := Int.floor_mono h
  rcases hfloor.lt_or_eq with hlt | heq
  · rcases nearestInteger_cases x with ⟨hx, -⟩ | ⟨hx, -⟩ <;>
      rcases nearestInteger_cases y with ⟨hy, -⟩ | ⟨hy, -⟩ <;> omega
  · have hx : x.floor = y.floor := heq
    simp only [nearestInteger, hx]
    split_ifs <;> first | omega | (exfalso; linarith)

theorem le_nearestInteger {n : Int} (h : n ≤ x) : n ≤ nearestInteger x :=
  nearestInteger_intCast n ▸ nearestInteger_mono h

theorem nearestInteger_le {n : Int} (h : x ≤ n) : nearestInteger x ≤ n :=
  nearestInteger_intCast n ▸ nearestInteger_mono h

/-- No integer is nearer. -/
theorem abs_nearestInteger_sub_le (x : Rat) (n : Int) : |nearestInteger x - x| ≤ |n - x| := by
  have hhalf := abs_nearestInteger_sub_le_half x
  by_cases heq : nearestInteger x = n
  · rw [heq]
  · have hone : (1 : Rat) ≤ |(nearestInteger x - n : Int)| := by
      exact_mod_cast Int.one_le_abs (sub_ne_zero.2 heq)
    have htriangle := abs_sub_le (nearestInteger x : Rat) x n
    rw [abs_sub_comm x] at htriangle
    push_cast at hone
    linarith

/-- Of two integers that are equally near, the even one is taken. -/
theorem even_nearestInteger {n : Int} (hne : n ≠ nearestInteger x)
    (h : |n - x| = |nearestInteger x - x|) : nearestInteger x % 2 = 0 := by
  have hone : (1 : Rat) ≤ |(nearestInteger x - n : Int)| := by
    exact_mod_cast Int.one_le_abs (sub_ne_zero.2 hne.symm)
  have htriangle := abs_sub_le (nearestInteger x : Rat) x n
  have hhalf := abs_nearestInteger_sub_le_half x
  push_cast at hone
  rw [abs_sub_comm x, h] at htriangle
  have htie : |nearestInteger x - x| = 1 / 2 := le_antisymm hhalf (by linarith)
  have hfloor : x.floor = ⌊x⌋ := rfl
  have hlt := Int.lt_floor_add_one x
  have hle := Int.floor_le x
  rw [nearestInteger, hfloor] at htie ⊢
  split_ifs at htie ⊢ with hbelow habove heven
  · rw [abs_sub_comm, abs_of_nonneg (by linarith)] at htie
    linarith
  · push_cast at htie
    rw [abs_of_nonneg (by linarith)] at htie
    linarith
  · exact heven
  · omega

/-! ## Exponents -/

theorem log_eq {n : Int} (hle : (2 : Rat) ^ n ≤ x) (hlt : x < 2 ^ (n + 1)) : Int.log 2 x = n := by
  have hpos : 0 < x := (zpow_pos two_pos n).trans_le hle
  have hlow : n ≤ Int.log 2 x := (Int.zpow_le_iff_le_log one_lt_two hpos).1 (by exact_mod_cast hle)
  have hhigh : Int.log 2 x < n + 1 := (Int.lt_zpow_iff_log_lt one_lt_two hpos).1 (by exact_mod_cast hlt)
  omega

theorem binaryExponent_eq_log (h : 0 < x) : binaryExponent x = Int.log 2 x := by
  have hnum : x.num.natAbs ≠ 0 := by simpa using h.ne'
  have hdivide : x = (x.num.natAbs : Rat) / x.den := by
    rw [Nat.cast_natAbs, abs_of_nonneg (Rat.num_pos.2 h).le, Rat.num_div_den]
  have hden : (0 : Rat) < x.den := by exact_mod_cast x.den_pos
  -- a quotient lies between the quotients of the powers of two around both numbers
  have hlow : (2 : Rat) ^ ((x.num.natAbs.log2 : Int) - x.den.log2 - 1) ≤ x := by
    have hn : (2 : Rat) ^ x.num.natAbs.log2 ≤ x.num.natAbs := by
      exact_mod_cast Nat.log2_self_le hnum
    have hd : (x.den : Rat) ≤ 2 ^ (x.den.log2 + 1) := by
      exact_mod_cast Nat.lt_log2_self.le
    calc (2 : Rat) ^ ((x.num.natAbs.log2 : Int) - x.den.log2 - 1)
        = 2 ^ x.num.natAbs.log2 / 2 ^ (x.den.log2 + 1) := by
          rw [sub_sub, zpow_sub₀ two_ne_zero, zpow_natCast]
          norm_cast
      _ ≤ x.num.natAbs / x.den := by gcongr
      _ = x := hdivide.symm
  have hhigh : x < (2 : Rat) ^ ((x.num.natAbs.log2 : Int) - x.den.log2 + 1) := by
    have hn : (x.num.natAbs : Rat) < 2 ^ (x.num.natAbs.log2 + 1) := by
      exact_mod_cast Nat.lt_log2_self
    have hd : (2 : Rat) ^ x.den.log2 ≤ x.den := by
      exact_mod_cast Nat.log2_self_le x.den_ne_zero
    calc x = x.num.natAbs / x.den := hdivide
      _ < 2 ^ (x.num.natAbs.log2 + 1) / 2 ^ x.den.log2 := by gcongr
      _ = 2 ^ ((x.num.natAbs.log2 : Int) - x.den.log2 + 1) := by
          rw [sub_add_eq_add_sub, zpow_sub₀ two_ne_zero, zpow_natCast]
          norm_cast
  simp only [binaryExponent]
  split
  · next hle => exact (log_eq hle hhigh).symm
  · next hgt => exact (log_eq hlow (by rw [sub_add_cancel]; exact not_le.1 hgt)).symm

/-! ## Values -/

/-- The distance between neighbours of 53 bits in the binade of a positive number. -/
def spacing (x : Rat) : Rat := 2 ^ (Int.log 2 x - 52)

theorem spacing_pos (x : Rat) : 0 < spacing x := zpow_pos two_pos _

theorem nearest_zero : nearest 0 = 0 := rfl

theorem nearest_eq (h : 0 < x) : nearest x = nearestInteger (x / spacing x) * spacing x := by
  rw [nearest, if_neg h.ne', binaryExponent_eq_log h]
  rfl

theorem pow_mul_spacing (x : Rat) : 2 ^ 52 * spacing x = 2 ^ Int.log 2 x := by
  rw [spacing, zpow_sub₀ two_ne_zero]
  exact mul_div_cancel₀ _ (by norm_num)

/-- A number has at least 52 bits and at most 53 when it is counted in its spacing. -/
theorem div_spacing_bounds (h : 0 < x) : 2 ^ 52 ≤ x / spacing x ∧ x / spacing x < 2 ^ 53 := by
  have hlow : (2 : Rat) ^ Int.log 2 x ≤ x := by exact_mod_cast Int.zpow_log_le_self one_lt_two h
  have hhigh : x < (2 : Rat) ^ (Int.log 2 x + 1) := by
    exact_mod_cast Int.lt_zpow_succ_log_self one_lt_two x
  rw [zpow_add_one₀ two_ne_zero, ← pow_mul_spacing] at hhigh
  rw [← pow_mul_spacing] at hlow
  rw [le_div_iff₀ (spacing_pos x), div_lt_iff₀ (spacing_pos x)]
  exact ⟨hlow, by linarith⟩

theorem nearestInteger_bounds (h : 0 < x) :
    2 ^ 52 ≤ nearestInteger (x / spacing x) ∧ nearestInteger (x / spacing x) ≤ 2 ^ 53 := by
  obtain ⟨hlow, hhigh⟩ := div_spacing_bounds h
  exact ⟨le_nearestInteger (by push_cast; exact hlow), nearestInteger_le (by push_cast; exact hhigh.le)⟩

/-- Against a count of its spacing a number is rounded as an integer is. -/
theorem abs_mul_spacing_sub (x : Rat) (n : Int) :
    |n * spacing x - x| = |n - x / spacing x| * spacing x := by
  have hpos := spacing_pos x
  rw [← abs_of_pos hpos, ← abs_mul, sub_mul, abs_of_pos hpos, div_mul_cancel₀ x hpos.ne']

/-- A value of double precision: a significand of 53 bits and an exponent. -/
def IsDouble (x : Rat) : Prop := ∃ (significand : Nat) (exponent : Int),
  significand < 2 ^ precision ∧ x = significand * 2 ^ exponent

theorem isDouble_nearest (h : 0 ≤ x) : IsDouble (nearest x) := by
  rcases h.eq_or_lt with rfl | h
  · exact ⟨0, 0, by norm_num [precision], by rw [nearest_zero, Nat.cast_zero, zero_mul]⟩
  · obtain ⟨hlow, hhigh⟩ := nearestInteger_bounds h
    obtain ⟨n, hn⟩ := Int.eq_ofNat_of_zero_le (show 0 ≤ nearestInteger (x / spacing x) by omega)
    rw [hn] at hhigh
    rcases (show n ≤ 2 ^ 53 by exact_mod_cast hhigh).lt_or_eq with hlt | rfl
    · exact ⟨n, _, hlt, by rw [nearest_eq h, hn, spacing]; rfl⟩
    -- the greatest significand is carried into the next binade
    · refine ⟨1, Int.log 2 x + 1, by norm_num [precision], ?_⟩
      rw [nearest_eq h, hn, zpow_add_one₀ two_ne_zero, ← pow_mul_spacing]
      push_cast
      ring

/-- A value that is not below the binade of a number is counted in the spacing of that number. -/
theorem exists_eq_mul_spacing (hy : IsDouble y) (hxy : 2 ^ Int.log 2 x ≤ y) :
    ∃ count : Int, y = count * spacing x := by
  obtain ⟨n, e, hn, rfl⟩ := hy
  have hlog : Int.log 2 x < e + 53 := by
    have hn : (n : Rat) < 2 ^ 53 := by exact_mod_cast hn
    refine (zpow_lt_zpow_iff_right₀ (one_lt_two : (1 : Rat) < 2)).1 (hxy.trans_lt ?_)
    rw [zpow_add₀ two_ne_zero, mul_comm (2 ^ e)]
    exact mul_lt_mul_of_pos_right hn (zpow_pos two_pos e)
  obtain ⟨k, hk⟩ := Int.eq_ofNat_of_zero_le (show 0 ≤ e - (Int.log 2 x - 52) by omega)
  refine ⟨n * 2 ^ k, ?_⟩
  calc (n : Rat) * 2 ^ e = n * (2 ^ (e - (Int.log 2 x - 52)) * spacing x) := by
        rw [spacing, ← zpow_add₀ two_ne_zero, sub_add_cancel]
    _ = ((n * 2 ^ k : Int) : Rat) * spacing x := by
        rw [hk, ← mul_assoc]
        norm_cast

theorem abs_nearest_sub_le_mul (h : 0 < x) (n : Int) : |nearest x - x| ≤ |n * spacing x - x| := by
  rw [nearest_eq h, abs_mul_spacing_sub, abs_mul_spacing_sub]
  exact mul_le_mul_of_nonneg_right (abs_nearestInteger_sub_le _ _) (spacing_pos x).le

/-- A value below the binade of a number is further away than the start of the binade. -/
theorem abs_nearest_sub_lt (h : 0 < x) (hy : y < 2 ^ Int.log 2 x) : |nearest x - x| < |y - x| := by
  have hlow : (2 : Rat) ^ Int.log 2 x ≤ x := by
    exact_mod_cast Int.zpow_log_le_self one_lt_two h
  have hstart := abs_nearest_sub_le_mul h (2 ^ 52)
  rw [Int.cast_pow, Int.cast_ofNat, pow_mul_spacing] at hstart
  refine hstart.trans_lt ?_
  rw [abs_sub_comm, abs_sub_comm y, abs_of_nonneg (by linarith), abs_of_nonneg (by linarith)]
  linarith

/-- Rounding gives a value of double precision, none is nearer, and where another one is equally near
the significand that is taken is even. -/
theorem isNearest_nearest (h : 0 < x) : IsDouble (nearest x) ∧ ∀ y, IsDouble y →
    |nearest x - x| ≤ |y - x| ∧
      (|y - x| = |nearest x - x| → y ≠ nearest x → ∃ n : Int, nearest x = n * spacing x ∧ n % 2 = 0) := by
  refine ⟨isDouble_nearest h.le, fun y hy => ?_⟩
  rcases le_or_gt (2 ^ Int.log 2 x) y with hin | hbelow
  · obtain ⟨count, rfl⟩ := exists_eq_mul_spacing hy hin
    refine ⟨abs_nearest_sub_le_mul h count, fun heq hne => ⟨_, nearest_eq h, ?_⟩⟩
    rw [nearest_eq h] at heq hne
    rw [abs_mul_spacing_sub, abs_mul_spacing_sub, mul_left_inj' (spacing_pos x).ne'] at heq
    exact even_nearestInteger (fun hcount => hne (by rw [hcount])) heq
  · have hlt := abs_nearest_sub_lt h hbelow
    exact ⟨hlt.le, fun heq => absurd heq hlt.ne'⟩

end WordIndex.DoubleRounding
