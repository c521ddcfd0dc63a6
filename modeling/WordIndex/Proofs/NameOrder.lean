import WordIndex.IndexBuilder

/-! # The order of names, and names without a zero byte -/
namespace WordIndex

/-- Distinct names in increasing order of their UTF-8 forms. -/
def Increasing (names : List Text) : Prop := names.Pairwise fun s t => s.utf8 < t.utf8

namespace Text

theorem utf8_injective {s t : Text} (h : s.utf8 = t.utf8) : s = t := by
  have hbytes : List.utf8Encode s = List.utf8Encode t := congrArg List.toByteArray h
  have hdecoded := congrArg ByteArray.utf8Decode? hbytes
  simpa using hdecoded

theorem zero_notMem_utf8EncodeChar {c : Char} (h : c ≠ '\x00') : 0 ∉ String.utf8EncodeChar c := by
  have hc : c.val.toNat ≠ 0 := fun hzero => h (Char.ext (UInt32.toNat_inj.1 hzero))
  have hbyte {n : Nat} (hpos : 0 < n) (hlt : n < 256) : (0 : UInt8) ≠ UInt8.ofNat n := by
    intro heq
    have := congrArg UInt8.toNat heq
    rw [UInt8.toNat_ofNat'] at this
    have : (0 : UInt8).toNat = 0 := rfl
    omega
  intro hmem
  dsimp only [String.utf8EncodeChar] at hmem
  split at hmem
  · exact hbyte (by omega) (by omega) (List.mem_singleton.1 hmem)
  · split at hmem
    · simp only [List.mem_cons, List.not_mem_nil, or_false] at hmem
      rcases hmem with hmem | hmem <;> exact hbyte (by omega) (by omega) hmem
    · split at hmem
      · simp only [List.mem_cons, List.not_mem_nil, or_false] at hmem
        rcases hmem with hmem | hmem | hmem <;> exact hbyte (by omega) (by omega) hmem
      · simp only [List.mem_cons, List.not_mem_nil, or_false] at hmem
        rcases hmem with hmem | hmem | hmem | hmem <;> exact hbyte (by omega) (by omega) hmem

/-- Only a zero character makes a zero byte. -/
theorem zero_notMem_utf8 {t : Text} (h : '\x00' ∉ t) : 0 ∉ t.utf8 := by
  rw [utf8, List.mem_flatMap]
  rintro ⟨c, hc, hmem⟩
  have hne : c ≠ '\x00' := fun heq => h (heq ▸ hc)
  exact zero_notMem_utf8EncodeChar hne hmem

/-- A code point of a character other than zero. -/
def IsNonzeroChar (n : Nat) : Prop := 0 < n ∧ n < 0xD800 ∨ 0xDFFF < n ∧ n < 0x110000

instance (n : Nat) : Decidable (IsNonzeroChar n) := inferInstanceAs (Decidable (_ ∨ _))

/-- A run of lowercase mappings that never leaves the characters. -/
def SoundRun (run : Nat × Nat × Nat × Int) : Prop :=
  (0 < (run.1 : Int) + run.2.2.2 ∧ (run.2.1 : Int) + run.2.2.2 < 0xD800) ∨
    (0xDFFF < (run.1 : Int) + run.2.2.2 ∧ (run.2.1 : Int) + run.2.2.2 < 0x110000)

instance (run : Nat × Nat × Nat × Int) : Decidable (SoundRun run) :=
  inferInstanceAs (Decidable (_ ∨ _))

theorem soundRun_lowercaseRuns : ∀ run ∈ lowercaseRuns, SoundRun run := by decide +kernel

theorem isNonzeroChar_lowercaseCodePoint {runs : List (Nat × Nat × Nat × Int)}
    (hruns : ∀ run ∈ runs, SoundRun run) {n : Nat} (h : IsNonzeroChar n) :
    IsNonzeroChar (lowercaseCodePoint runs n) := by
  induction runs with
  | nil => exact h
  | cons run runs ih =>
    obtain ⟨first, last, stride, shift⟩ := run
    have hrun := hruns _ List.mem_cons_self
    rw [lowercaseCodePoint]
    split
    · exact h
    · split
      · split
        · simp only [SoundRun] at hrun
          rw [IsNonzeroChar]
          omega
        · exact h
      · exact ih fun run hrun => hruns run (List.mem_cons_of_mem _ hrun)

theorem ofNat_ne_zero {n : Nat} (h : IsNonzeroChar n) : Char.ofNat n ≠ '\x00' := by
  have hvalid : n.isValidChar := by
    rcases h with h | h
    · exact .inl h.2
    · exact .inr h
  intro heq
  have hzero : (Char.ofNat n).toNat = 0 := by rw [heq]; rfl
  have hsame : (Char.ofNat n).toNat = n := by
    rw [Char.ofNat, dif_pos hvalid]
    rfl
  rcases h with h | h
  · omega
  · omega

theorem isNonzeroChar_toNat {c : Char} (h : c ≠ '\x00') : IsNonzeroChar c.toNat := by
  have hc : c.val.toNat ≠ 0 := fun hzero => h (Char.ext (UInt32.toNat_inj.1 hzero))
  have hvalid : c.val.toNat < 0xD800 ∨ 0xDFFF < c.val.toNat ∧ c.val.toNat < 0x110000 := c.valid
  rw [IsNonzeroChar, Char.toNat]
  omega

theorem zero_notMem_lowercaseChar {c : Char} (h : c ≠ '\x00') : '\x00' ∉ lowercaseChar c := by
  rw [lowercaseChar]
  split
  · decide
  · rw [List.mem_singleton]
    exact fun heq => ofNat_ne_zero
      (isNonzeroChar_lowercaseCodePoint soundRun_lowercaseRuns (isNonzeroChar_toNat h)) heq.symm

theorem zero_notMem_lowercaseAfter {before t : Text} (h : '\x00' ∉ t) :
    '\x00' ∉ lowercaseAfter before t := by
  induction t generalizing before with
  | nil => exact List.not_mem_nil
  | cons c t ih =>
    rw [List.mem_cons, not_or] at h
    rw [lowercaseAfter, List.mem_append, not_or]
    refine ⟨?_, ih h.2⟩
    split
    · split
      · decide
      · decide
    · exact zero_notMem_lowercaseChar (Ne.symm h.1)

theorem zero_notMem_lowercase {t : Text} (h : '\x00' ∉ t) : '\x00' ∉ t.lowercase :=
  zero_notMem_lowercaseAfter h

theorem lt_or_lt_of_ne {s t : Text} (h : s ≠ t) : s.utf8 < t.utf8 ∨ t.utf8 < s.utf8 := by
  by_cases hlt : s.utf8 < t.utf8
  · exact .inl hlt
  · by_cases hgt : t.utf8 < s.utf8
    · exact .inr hgt
    · exact absurd (utf8_injective (List.le_antisymm hgt hlt)) h

end Text

theorem Increasing.nodup {names : List Text} (h : Increasing names) : names.Nodup := by
  refine List.Pairwise.imp ?_ h
  intro s t hlt heq
  rw [heq] at hlt
  exact List.lt_irrefl _ hlt

theorem increasing_insertName {name : Text} {names : List Text} (h : Increasing names) :
    Increasing (insertName name names) := by
  induction names with
  | nil => exact List.pairwise_singleton _ _
  | cons first rest ih =>
    obtain ⟨hfirst, hrest⟩ := List.pairwise_cons.1 h
    rw [insertName]
    split
    · exact h
    · next hne =>
      split
      · next hbefore =>
        have hlt : name.utf8 < first.utf8 := of_decide_eq_true hbefore
        refine List.pairwise_cons.2 ⟨fun other hother => ?_, h⟩
        rcases List.mem_cons.1 hother with rfl | hother
        · exact hlt
        · exact List.lt_trans hlt (hfirst other hother)
      · next hafter =>
        have hlt : first.utf8 < name.utf8 := by
          rcases Text.lt_or_lt_of_ne hne with hlt | hlt
          · exact absurd (decide_eq_true hlt) hafter
          · exact hlt
        refine List.pairwise_cons.2 ⟨fun other hother => ?_, ih hrest⟩
        rcases mem_insertName.1 hother with rfl | hother
        · exact hlt
        · exact hfirst other hother

theorem increasing_sortedNames (names : List Text) : Increasing (sortedNames names) := by
  induction names with
  | nil => exact List.Pairwise.nil
  | cons name names ih => exact increasing_insertName ih

theorem length_insertName_le (name : Text) (names : List Text) :
    (insertName name names).length ≤ names.length + 1 := by
  induction names with
  | nil => exact Nat.le_refl _
  | cons first rest ih =>
    rw [insertName]
    split
    · exact Nat.le_succ _
    · split
      · exact Nat.le_refl _
      · exact Nat.succ_le_succ ih

theorem length_sortedNames_le (names : List Text) : (sortedNames names).length ≤ names.length := by
  induction names with
  | nil => exact Nat.le_refl _
  | cons name names ih =>
    exact Nat.le_trans (length_insertName_le _ _) (Nat.succ_le_succ ih)

section Values
variable {α : Type}

/-- The values that stand under a key. -/
def valuesUnder (key : Text) (entries : List (Text × List α)) : List α :=
  entries.flatMap fun entry => if entry.1 = key then entry.2 else []

theorem valuesUnder_cons (key : Text) (entry : Text × List α) (entries : List (Text × List α)) :
    valuesUnder key (entry :: entries) =
      (if entry.1 = key then entry.2 else []) ++ valuesUnder key entries := rfl

theorem valuesUnder_eq_nil_of_lt {key : Text} {entries : List (Text × List α)}
    (h : ∀ k ∈ entries.map (·.1), key.utf8 < k.utf8) : valuesUnder key entries = [] := by
  rw [valuesUnder, List.flatMap_eq_nil_iff]
  intro entry hentry
  have hlt := h entry.1 (List.mem_map_of_mem hentry)
  rw [if_neg]
  intro heq
  rw [heq] at hlt
  exact List.lt_irrefl _ hlt

theorem mem_keys_insertValues {key other : Text} {values : List α}
    {entries : List (Text × List α)} :
    other ∈ (insertValues key values entries).map (·.1) ↔
      other = key ∨ other ∈ entries.map (·.1) := by
  induction entries with
  | nil => simp [insertValues]
  | cons first rest ih =>
    rw [insertValues]
    split
    · next h => simp [h]
    · split
      · simp
      · rw [List.map_cons, List.mem_cons, ih, List.map_cons, List.mem_cons, or_left_comm]

theorem increasing_insertValues {key : Text} {values : List α} {entries : List (Text × List α)}
    (h : Increasing (entries.map (·.1))) :
    Increasing ((insertValues key values entries).map (·.1)) := by
  have hkeys : (insertValues key values entries).map (·.1) = insertName key (entries.map (·.1)) := by
    clear h
    induction entries with
    | nil => rfl
    | cons first rest ih =>
      rw [insertValues, List.map_cons, insertName]
      split
      · rfl
      · split
        · rfl
        · rw [List.map_cons, ih]
  rw [hkeys]
  exact increasing_insertName h

theorem valuesUnder_insertValues {key other : Text} {values : List α}
    {entries : List (Text × List α)} (h : Increasing (entries.map (·.1))) :
    valuesUnder other (insertValues key values entries) =
      valuesUnder other entries ++ if key = other then values else [] := by
  induction entries with
  | nil => simp [insertValues, valuesUnder]
  | cons first rest ih =>
    obtain ⟨hfirst, hrest⟩ := List.pairwise_cons.1 h
    rw [insertValues]
    split
    · next heq =>
      rw [heq, valuesUnder_cons, valuesUnder_cons]
      by_cases hother : first.1 = other
      · have hnil : valuesUnder other rest = [] := valuesUnder_eq_nil_of_lt (hother ▸ hfirst)
        simp [hother, hnil]
      · simp [hother]
    · split
      · next hbefore =>
        have hlt : key.utf8 < first.1.utf8 := of_decide_eq_true hbefore
        rw [valuesUnder_cons]
        by_cases hother : key = other
        · have hnil : valuesUnder other (first :: rest) = [] := by
            subst hother
            refine valuesUnder_eq_nil_of_lt fun k hk => ?_
            rcases List.mem_cons.1 hk with rfl | hk
            · exact hlt
            · exact List.lt_trans hlt (hfirst k hk)
          simp [hother, hnil]
        · simp [hother]
      · rw [valuesUnder_cons, valuesUnder_cons, ih hrest, List.append_assoc]

theorem valuesUnder_of_mem {entries : List (Text × List α)} (h : Increasing (entries.map (·.1)))
    {entry : Text × List α} (hentry : entry ∈ entries) : valuesUnder entry.1 entries = entry.2 := by
  induction entries with
  | nil => cases hentry
  | cons first rest ih =>
    obtain ⟨hfirst, hrest⟩ : (∀ k ∈ rest.map (·.1), first.1.utf8 < k.utf8) ∧
        Increasing (rest.map (·.1)) := List.pairwise_cons.1 h
    rw [valuesUnder_cons]
    rcases List.mem_cons.1 hentry with rfl | hentry
    · rw [if_pos rfl, valuesUnder_eq_nil_of_lt hfirst, List.append_nil]
    · have hne : first.1 ≠ entry.1 := by
        intro heq
        have hlt := hfirst entry.1 (List.mem_map_of_mem hentry)
        rw [heq] at hlt
        exact List.lt_irrefl _ hlt
      rw [if_neg hne, ih hrest hentry, List.nil_append]

end Values

end WordIndex
