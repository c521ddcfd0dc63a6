import WordIndex.Proofs.CheckedStemming
import WordIndex.Proofs.Utf8Texts

/-! # What a stem looks like

Every step keeps the first letter, makes the word no longer and brings lowercase letters only. What is
cut off leaves at least a letter, since the stem before it has a vowel or a measure. -/
namespace WordIndex.PorterStemmer

/-- A word that may be left of another one. -/
structure Shrinks (w v : Text) : Prop where
  head? : v.head? = w.head?
  length_le : v.length ≤ w.length
  isLower : (∀ c ∈ w, c.isLower) → ∀ c ∈ v, c.isLower

namespace Shrinks

variable {w v u stem suffix replacement : Text}

theorem refl (w : Text) : Shrinks w w := ⟨rfl, Nat.le_refl _, id⟩

theorem trans (h : Shrinks w v) (h' : Shrinks v u) : Shrinks w u where
  head? := h'.head?.trans h.head?
  length_le := Nat.le_trans h'.length_le h.length_le
  isLower hw := h'.isLower (h.isLower hw)

/-- Something no longer may take the place of a suffix, unless it takes the first letter away. -/
theorem append (hhead : stem ≠ [] ∨ replacement.head? = suffix.head?)
    (hlen : replacement.length ≤ suffix.length) (hlower : replacement.all Char.isLower) :
    Shrinks (stem ++ suffix) (stem ++ replacement) where
  head? := by
    cases stem with
    | nil => exact hhead.resolve_left (absurd rfl)
    | cons => rfl
  length_le := by
    rw [List.length_append, List.length_append]
    exact Nat.add_le_add_left hlen _
  isLower hw c hc := by
    rcases List.mem_append.1 hc with hc | hc
    · exact hw c (List.mem_append_left _ hc)
    · exact List.all_eq_true.1 hlower c hc

theorem cut (hne : stem ≠ []) (suffix : Text) : Shrinks (stem ++ suffix) stem := by
  have hnone : Shrinks (stem ++ suffix) (stem ++ []) := .append (.inl hne) (Nat.zero_le _) rfl
  rwa [List.append_nil] at hnone

theorem dropLast (h : 2 ≤ w.length) : Shrinks w w.dropLast where
  head? := by
    match w, h with
    | _ :: _ :: _, _ => rfl
  length_le := by simp
  isLower hw c hc := hw c (List.mem_of_mem_dropLast hc)

/-- A rule that is applied leaves what is allowed, if all of them would. -/
theorem applyFirst {rules : List Rule} (h : ∀ rule ∈ rules, ∀ stem, w = stem ++ rule.suffix →
    rule.applies stem → Shrinks w (stem ++ rule.replacement)) :
    Shrinks w (applyFirst w rules) := by
  induction rules with
  | nil => exact refl w
  | cons rule rest ih =>
    obtain ⟨hrule, hrest⟩ := List.forall_mem_cons.1 h
    by_cases hsuffix : rule.suffix <:+ w
    · obtain ⟨stem, rfl⟩ := hsuffix
      rw [applyFirst_cons_append]
      split
      · next happlies => exact hrule stem rfl happlies
      · exact refl _
    · rw [applyFirst_cons_of_not_suffix hsuffix]
      exact ih hrest

end Shrinks

variable {w stem : Text}

theorem ne_nil_of_measure_pos (h : 0 < measure w) : w ≠ [] := by
  rintro rfl
  rw [measure_eq_turns] at h
  cases h

theorem ne_nil_of_hasVowel (h : hasVowel w) : w ≠ [] := by
  rintro rfl
  cases h

theorem two_le_of_endsDouble (h : endsDouble w) : 2 ≤ w.length := by
  rw [endsDouble] at h
  split at h
  · next hw _ =>
    have hlen := congrArg List.length hw
    rw [List.length_reverse, List.length_cons, List.length_cons] at hlen
    omega
  · cases h

/-! ## Steps -/

theorem shrinks_plural (h : 2 ≤ w.length) : Shrinks w (plural w) := by
  refine Shrinks.applyFirst fun rule hrule stem hw _ => ?_
  subst hw
  simp only [List.mem_cons, List.not_mem_nil, or_false] at hrule
  rcases hrule with rfl | rfl | rfl | rfl
  · exact .append (.inr rfl) (by decide) (by decide)
  · exact .append (.inr rfl) (by decide) (by decide)
  · exact .append (.inr rfl) (by decide) (by decide)
  · refine .append (.inl ?_) (by decide) (by decide)
    rintro rfl
    simp at h

/-- A stem that is mended is at most one letter longer than it was. -/
theorem shrinks_mend {suffix : Text} (hne : stem ≠ []) (hsuffix : suffix ≠ []) :
    Shrinks (stem ++ suffix) (mend stem) := by
  have hcut : Shrinks (stem ++ suffix) stem := .cut hne suffix
  have hlonger : Shrinks (stem ++ suffix) (stem ++ ['e']) :=
    .append (.inl hne) (List.length_pos_iff.2 hsuffix) (by decide)
  rw [mend]
  split
  · exact hlonger
  · split
    · next hdouble =>
      exact hcut.trans (.dropLast (two_le_of_endsDouble (Bool.and_eq_true_iff.1 hdouble).1))
    · split
      · exact hlonger
      · exact hcut

theorem shrinks_participle (w : Text) : Shrinks w (participle w) := by
  rw [participle]
  split
  · next stem hstem =>
    obtain rfl := without?_eq_some_iff.1 hstem
    split
    · next hmeasure => exact .append (.inl (ne_nil_of_measure_pos hmeasure)) (by decide) (by decide)
    · exact .refl _
  · split
    · next stem hstem =>
      obtain ⟨suffix, hsuffix, rfl⟩ : ∃ suffix : Text, suffix ≠ [] ∧ w = stem ++ suffix := by
        rcases Option.or_eq_some_iff.1 hstem with hed | ⟨-, hing⟩
        · exact ⟨_, by decide, without?_eq_some_iff.1 hed⟩
        · exact ⟨_, by decide, without?_eq_some_iff.1 hing⟩
      split
      · next hvowel => exact shrinks_mend (ne_nil_of_hasVowel hvowel) hsuffix
      · exact .refl _
    · exact .refl _

theorem shrinks_finalY (w : Text) : Shrinks w (finalY w) := by
  rw [finalY]
  split
  · next stem hstem =>
    obtain rfl := without?_eq_some_iff.1 hstem
    split
    · next hvowel => exact .append (.inl (ne_nil_of_hasVowel hvowel)) (Nat.le_refl _) (by decide)
    · exact .refl _
  · exact .refl _

theorem replacement_of_mem_table :
    ∀ rules ∈ [doubleSuffixRules, singleSuffixRules, longStemRules], ∀ rule ∈ rules,
      rule.replacement.length ≤ rule.suffix.length ∧ rule.replacement.all Char.isLower := by
  decide +kernel

theorem measure_pos_of_applies {rules : List Rule}
    (hrules : rules ∈ [doubleSuffixRules, singleSuffixRules, longStemRules]) {rule : Rule}
    (hrule : rule ∈ rules) (h : rule.applies stem) : 0 < measure stem := by
  have habove {bound : Nat} {suffix replacement : String}
      (h : (Rule.above bound suffix replacement).applies stem) : 0 < measure stem :=
    Nat.zero_lt_of_lt (of_decide_eq_true h)
  simp only [List.mem_cons, List.not_mem_nil, or_false] at hrules
  rcases hrules with rfl | rfl | rfl
  · obtain ⟨p, -, rfl⟩ := List.mem_map.1 hrule
    exact habove h
  · obtain ⟨p, -, rfl⟩ := List.mem_map.1 hrule
    exact habove h
  · rcases List.mem_append.1 hrule with hrule | hrule
    · obtain ⟨p, -, rfl⟩ := List.mem_map.1 hrule
      exact habove h
    · rcases List.mem_cons.1 hrule with rfl | hrule
      · exact Nat.zero_lt_of_lt (of_decide_eq_true (Bool.and_eq_true_iff.1 h).1)
      · obtain ⟨p, -, rfl⟩ := List.mem_map.1 hrule
        exact habove h

theorem shrinks_table {rules : List Rule}
    (hrules : rules ∈ [doubleSuffixRules, singleSuffixRules, longStemRules]) (w : Text) :
    Shrinks w (applyFirst w rules) := by
  refine Shrinks.applyFirst fun rule hrule stem hw happlies => ?_
  subst hw
  obtain ⟨hlen, hlower⟩ := replacement_of_mem_table rules hrules rule hrule
  exact .append (.inl (ne_nil_of_measure_pos (measure_pos_of_applies hrules hrule happlies))) hlen hlower

theorem shrinks_finalE (w : Text) : Shrinks w (finalE w) := by
  rw [finalE]
  split
  · next stem hstem =>
    obtain rfl := without?_eq_some_iff.1 hstem
    split
    · next hmeasure =>
      have hpos : 0 < measure stem := by
        simp only [Bool.or_eq_true, Bool.and_eq_true, decide_eq_true_eq, beq_iff_eq] at hmeasure
        omega
      exact .cut (ne_nil_of_measure_pos hpos) _
    · exact .refl _
  · exact .refl _

theorem shrinks_finalDoubleL (w : Text) : Shrinks w (finalDoubleL w) := by
  rw [finalDoubleL]
  split
  · next h =>
    simp only [Bool.and_eq_true] at h
    exact .dropLast (two_le_of_endsDouble h.1.2)
  · exact .refl _

theorem shrinks_reduce (h : 2 ≤ w.length) : Shrinks w (reduce w) := by
  rw [reduce]
  refine .trans ?_ (shrinks_finalDoubleL _)
  refine .trans ?_ (shrinks_finalE _)
  refine .trans ?_ (shrinks_table (by simp) _)
  refine .trans ?_ (shrinks_table (by simp) _)
  refine .trans ?_ (shrinks_table (by simp) _)
  refine .trans ?_ (shrinks_finalY _)
  exact (shrinks_plural h).trans (shrinks_participle _)

/-! ## Words of letters, by their bytes -/

def isLetter (b : UInt8) : Bool := 97 ≤ b && b ≤ 122

theorem isLower_iff {c : Char} : c.isLower ↔ 97 ≤ c.val.toNat ∧ c.val.toNat ≤ 122 := by
  have hbounds : c.isLower = (decide ('a'.val ≤ c.val) && decide (c.val ≤ 'z'.val)) := rfl
  rw [hbounds, Bool.and_eq_true, decide_eq_true_eq, decide_eq_true_eq, UInt32.le_iff_toNat_le,
    UInt32.le_iff_toNat_le]
  rfl

theorem isLetter_iff {b : UInt8} : isLetter b ↔ 97 ≤ b.toNat ∧ b.toNat ≤ 122 := by
  rw [isLetter, Bool.and_eq_true, decide_eq_true_eq, decide_eq_true_eq, UInt8.le_iff_toNat_le,
    UInt8.le_iff_toNat_le]
  rfl

theorem utf8EncodeChar_of_isLower {c : Char} (h : c.isLower) :
    String.utf8EncodeChar c = [UInt8.ofNat c.val.toNat] := by
  have hbounds := isLower_iff.1 h
  have hchar : Char.ofNat c.val.toNat = c := Char.ofNat_toNat c
  rw [← Utf8.utf8EncodeChar_one (by omega), hchar]

theorem isLetter_of_isLower {c : Char} (h : c.isLower) : isLetter (UInt8.ofNat c.val.toNat) := by
  have hbounds := isLower_iff.1 h
  rw [isLetter_iff, UInt8.toNat_ofNat']
  omega

/-- A character is a letter from a to z when its bytes are. -/
theorem isLower_of_isLetter {c : Char} (h : ∀ b ∈ String.utf8EncodeChar c, isLetter b) : c.isLower := by
  obtain ⟨first, others, hencode, -⟩ := Utf8.exists_afterFirst_utf8EncodeChar c []
  have hmem : first ∈ String.utf8EncodeChar c := by rw [hencode]; exact List.mem_cons_self
  have hbounds := isLetter_iff.1 (h first hmem)
  rw [isLower_iff, Text.toNat_of_mem_utf8EncodeChar hmem (by omega)]
  exact hbounds

theorem isLower_iff_bytes : (∀ c ∈ w, c.isLower) ↔ ∀ b ∈ w.utf8, isLetter b := by
  constructor
  · intro h b hb
    obtain ⟨c, hc, hb⟩ := List.mem_flatMap.1 hb
    rw [utf8EncodeChar_of_isLower (h c hc), List.mem_singleton] at hb
    rw [hb]
    exact isLetter_of_isLower (h c hc)
  · intro h c hc
    exact isLower_of_isLetter fun b hb => h b (List.mem_flatMap.2 ⟨c, hc, hb⟩)

theorem length_utf8_of_isLower (h : ∀ c ∈ w, c.isLower) : w.utf8.length = w.length := by
  induction w with
  | nil => rfl
  | cons c rest ih =>
    obtain ⟨hc, hrest⟩ := List.forall_mem_cons.1 h
    rw [Text.utf8_cons, utf8EncodeChar_of_isLower hc, List.length_append, ih hrest, List.length_cons]
    exact Nat.add_comm _ _

theorem length_le_length_utf8 (w : Text) : w.length ≤ w.utf8.length := by
  induction w with
  | nil => exact Nat.le_refl _
  | cons c rest ih =>
    obtain ⟨first, others, hencode, -⟩ := Utf8.exists_afterFirst_utf8EncodeChar c []
    rw [Text.utf8_cons, hencode, List.length_append, List.length_cons, List.length_cons]
    omega

/-- A word is left as it is when it has at most two bytes or one that is no letter. -/
def IsLeft (w : Text) : Prop := w.utf8.length ≤ 2 ∨ ∃ b ∈ w.utf8, ¬ isLetter b

instance : DecidablePred IsLeft := fun w =>
  inferInstanceAs (Decidable (w.utf8.length ≤ 2 ∨ ∃ b ∈ w.utf8, ¬ isLetter b))

theorem stem_of_isLeft (h : IsLeft w) : PorterStemmer.stem w = w := by
  rw [PorterStemmer.stem, if_pos]
  rw [Bool.or_eq_true, decide_eq_true_eq, Bool.not_eq_true', ← Bool.not_eq_true, List.all_eq_true]
  rcases h with hshort | ⟨b, hb, hletter⟩
  · exact .inl (Nat.le_trans (length_le_length_utf8 w) hshort)
  · exact .inr fun hlower => hletter (isLower_iff_bytes.1 hlower b hb)

theorem isLower_of_not_isLeft (h : ¬ IsLeft w) : ∀ c ∈ w, c.isLower := by
  rw [isLower_iff_bytes]
  intro b hb
  by_contra hletter
  exact h (.inr ⟨b, hb, hletter⟩)

theorem two_lt_of_not_isLeft (h : ¬ IsLeft w) : 2 < w.length := by
  rw [← length_utf8_of_isLower (isLower_of_not_isLeft h)]
  exact Nat.lt_of_not_le fun hshort => h (.inl hshort)

theorem stem_of_not_isLeft (h : ¬ IsLeft w) : PorterStemmer.stem w = reduce w := by
  rw [PorterStemmer.stem, if_neg]
  rw [Bool.or_eq_true, decide_eq_true_eq, Bool.not_eq_true', ← Bool.not_eq_true, List.all_eq_true]
  rintro (hshort | hletter)
  · exact Nat.not_lt_of_le hshort (two_lt_of_not_isLeft h)
  · exact hletter (isLower_of_not_isLeft h)

/-- The stem of a word by positions in it. -/
def stemAt (w : Text) : Option Text := if IsLeft w then some w else reduceAt w

/-- No step looks at a letter that is not there or takes more away than there is. A word of at most two
bytes and one with any byte that is no letter is its own stem. The stem of any other word is a word of
letters, no longer than it and with its first letter. -/
theorem stem_shrinks (w : Text) : stemAt w = some (PorterStemmer.stem w) ∧
    (IsLeft w → PorterStemmer.stem w = w) ∧
    (¬ IsLeft w → PorterStemmer.stem w ≠ [] ∧ (∀ b ∈ (PorterStemmer.stem w).utf8, isLetter b) ∧
      (PorterStemmer.stem w).utf8.length ≤ w.utf8.length ∧
      (PorterStemmer.stem w).head? = w.head?) := by
  refine ⟨?_, stem_of_isLeft, fun h => ?_⟩
  · rw [stemAt]
    split
    · next h => rw [stem_of_isLeft h]
    · next h => rw [stem_of_not_isLeft h, reduceAt_eq]
  · have hlong := two_lt_of_not_isLeft h
    have hlower := isLower_of_not_isLeft h
    have hshrinks := shrinks_reduce (Nat.le_of_lt hlong)
    have hstem := hshrinks.isLower hlower
    rw [stem_of_not_isLeft h]
    refine ⟨?_, isLower_iff_bytes.1 hstem, ?_, hshrinks.head?⟩
    · intro hnil
      have hhead := hshrinks.head?
      rw [hnil] at hhead
      have hempty := List.head?_eq_none_iff.1 hhead.symm
      rw [hempty] at hlong
      cases hlong
    · rw [length_utf8_of_isLower hstem, length_utf8_of_isLower hlower]
      exact hshrinks.length_le

end WordIndex.PorterStemmer
