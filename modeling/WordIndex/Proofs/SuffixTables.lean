import Mathlib.Data.List.Infix
import WordIndex.Proofs.StemmerPositions

/-! # Tables of suffixes

The first rule that fits a word is taken. In a table where no suffix is the end of a later one this is
the rule with the longest suffix, so that the order of the rules does not matter beyond that. -/
namespace WordIndex.PorterStemmer

variable {w stem suffix : Text} {rule : Rule} {rules rest : List Rule}

theorem without?_append (stem suffix : Text) : without? suffix (stem ++ suffix) = some stem := by
  rw [without?, if_pos (by simp)]
  simp

theorem without?_eq_some_iff : without? suffix w = some stem ↔ w = stem ++ suffix := by
  constructor
  · intro h
    rw [without?] at h
    split at h
    · next hsuffix =>
      obtain ⟨front, rfl⟩ := List.isSuffixOf_iff_suffix.1 hsuffix
      simp at h
      rw [h]
    · cases h
  · rintro rfl
    exact without?_append stem suffix

theorem without?_eq_none_iff : without? suffix w = none ↔ ¬ suffix <:+ w := by
  rw [without?]
  split
  · next h => simpa using List.isSuffixOf_iff_suffix.1 h
  · next h => simpa using fun hsuffix => h (List.isSuffixOf_iff_suffix.2 hsuffix)

theorem applyFirst_cons_append (stem : Text) (rule : Rule) (rest : List Rule) :
    applyFirst (stem ++ rule.suffix) (rule :: rest) =
      if rule.applies stem then stem ++ rule.replacement else stem ++ rule.suffix := by
  rw [applyFirst, without?_append]

theorem applyFirst_cons_of_not_suffix (h : ¬ rule.suffix <:+ w) (rest : List Rule) :
    applyFirst w (rule :: rest) = applyFirst w rest := by
  rw [applyFirst, without?_eq_none_iff.2 h]

/-- A rule of a table whose suffix is the longest one in it that a word ends with. -/
structure Rule.IsLongest (rules : List Rule) (w : Text) (rule : Rule) : Prop where
  mem : rule ∈ rules
  isSuffix : rule.suffix <:+ w
  length_le : ∀ other ∈ rules, other.suffix <:+ w → other.suffix.length ≤ rule.suffix.length

/-- What the rule with the longest suffix makes of a word: its suffix is replaced if the rule applies to
the stem. A word without a suffix of the table stays as it is. -/
inductive Reduces (rules : List Rule) (w : Text) : Text → Prop
  | applied {rule : Rule} {stem : Text} (h : rule.IsLongest rules w) (hw : w = stem ++ rule.suffix)
      (happlies : rule.applies stem) : Reduces rules w (stem ++ rule.replacement)
  | declined {rule : Rule} {stem : Text} (h : rule.IsLongest rules w) (hw : w = stem ++ rule.suffix)
      (happlies : rule.applies stem = false) : Reduces rules w w
  | unmatched (h : ∀ rule ∈ rules, ¬ rule.suffix <:+ w) : Reduces rules w w

/-- No suffix of the table is the end of one that comes later. -/
def LongestFirst (rules : List Rule) : Prop := rules.Pairwise fun rule later => ¬ rule.suffix <:+ later.suffix

instance : DecidablePred LongestFirst := fun rules =>
  inferInstanceAs (Decidable (rules.Pairwise fun rule later => ¬ rule.suffix <:+ later.suffix))

theorem longestFirst_tables :
    ∀ rules ∈ [doubleSuffixRules, singleSuffixRules, longStemRules], LongestFirst rules := by
  decide +kernel

section First
variable (hfirst : LongestFirst (rule :: rest))
include hfirst

/-- Of two suffixes of one word the later one in the table is the shorter one. -/
theorem length_lt_of_longestFirst (hrule : rule.suffix <:+ w) {other : Rule} (hother : other ∈ rest)
    (hsuffix : other.suffix <:+ w) : other.suffix.length < rule.suffix.length := by
  have hnot : ¬ rule.suffix <:+ other.suffix := (List.pairwise_cons.1 hfirst).1 other hother
  have hend : other.suffix <:+ rule.suffix :=
    (List.suffix_or_suffix_of_suffix hrule hsuffix).resolve_left hnot
  refine Nat.lt_of_le_of_ne hend.length_le fun hlength => hnot ?_
  rw [hend.eq_of_length hlength]

theorem isLongest_cons_of_suffix (hrule : rule.suffix <:+ w) {other : Rule} :
    other.IsLongest (rule :: rest) w ↔ other = rule := by
  constructor
  · rintro ⟨hmem, hsuffix, hlongest⟩
    refine (List.mem_cons.1 hmem).resolve_right fun hlater => ?_
    have hlt := length_lt_of_longestFirst hfirst hrule hlater hsuffix
    exact Nat.not_le_of_lt hlt (hlongest rule List.mem_cons_self hrule)
  · rintro rfl
    refine ⟨List.mem_cons_self, hrule, fun other hother hsuffix => ?_⟩
    rcases List.mem_cons.1 hother with rfl | hlater
    · exact Nat.le_refl _
    · exact Nat.le_of_lt (length_lt_of_longestFirst hfirst hrule hlater hsuffix)

end First

theorem isLongest_cons_of_not_suffix (hrule : ¬ rule.suffix <:+ w) {other : Rule} :
    other.IsLongest (rule :: rest) w ↔ other.IsLongest rest w := by
  constructor
  · rintro ⟨hmem, hsuffix, hlongest⟩
    rcases List.mem_cons.1 hmem with rfl | hmem
    · exact absurd hsuffix hrule
    · exact ⟨hmem, hsuffix, fun r hr => hlongest r (List.mem_cons_of_mem _ hr)⟩
  · rintro ⟨hmem, hsuffix, hlongest⟩
    refine ⟨List.mem_cons_of_mem _ hmem, hsuffix, fun r hr hrw => ?_⟩
    rcases List.mem_cons.1 hr with rfl | hr
    · exact absurd hrw hrule
    · exact hlongest r hr hrw

/-- A word that ends with a suffix of a table has one rule with the longest. -/
theorem existsUnique_isLongest (hfirst : LongestFirst rules) (h : ∃ rule ∈ rules, rule.suffix <:+ w) :
    ∃! rule : Rule, rule.IsLongest rules w := by
  induction rules with
  | nil => simp at h
  | cons rule rest ih =>
    by_cases hrule : rule.suffix <:+ w
    · exact ⟨rule, (isLongest_cons_of_suffix hfirst hrule).2 rfl,
        fun other hother => (isLongest_cons_of_suffix hfirst hrule).1 hother⟩
    · simp only [isLongest_cons_of_not_suffix hrule]
      obtain ⟨other, hother, hsuffix⟩ := h
      have hmem : other ∈ rest := by
        refine (List.mem_cons.1 hother).resolve_left ?_
        rintro rfl
        exact hrule hsuffix
      exact ih (List.pairwise_cons.1 hfirst).2 ⟨other, hmem, hsuffix⟩

theorem reduces_cons_of_suffix (hfirst : LongestFirst (rule :: rest)) {v : Text} :
    Reduces (rule :: rest) (stem ++ rule.suffix) v ↔
      v = if rule.applies stem then stem ++ rule.replacement else stem ++ rule.suffix := by
  have hrule : rule.suffix <:+ stem ++ rule.suffix := List.suffix_append _ _
  have hlongest : rule.IsLongest (rule :: rest) (stem ++ rule.suffix) :=
    (isLongest_cons_of_suffix hfirst hrule).2 rfl
  constructor
  · intro h
    cases h with
    | applied hother hw happlies =>
      obtain rfl := (isLongest_cons_of_suffix hfirst hrule).1 hother
      rw [← List.append_cancel_right hw] at happlies ⊢
      rw [if_pos happlies]
    | declined hother hw happlies =>
      obtain rfl := (isLongest_cons_of_suffix hfirst hrule).1 hother
      rw [← List.append_cancel_right hw] at happlies
      rw [if_neg (by rw [happlies]; exact Bool.false_ne_true)]
    | unmatched hnone => exact absurd hrule (hnone rule List.mem_cons_self)
  · rintro rfl
    split
    · next happlies => exact .applied hlongest rfl happlies
    · next happlies => exact .declined hlongest rfl (Bool.eq_false_iff.2 happlies)

theorem reduces_cons_of_not_suffix (hrule : ¬ rule.suffix <:+ w) {v : Text} :
    Reduces (rule :: rest) w v ↔ Reduces rest w v := by
  constructor
  · intro h
    cases h with
    | applied hother hw happlies =>
      exact .applied ((isLongest_cons_of_not_suffix hrule).1 hother) hw happlies
    | declined hother hw happlies =>
      exact .declined ((isLongest_cons_of_not_suffix hrule).1 hother) hw happlies
    | unmatched hnone => exact .unmatched fun r hr => hnone r (List.mem_cons_of_mem _ hr)
  · intro h
    cases h with
    | applied hother hw happlies =>
      exact .applied ((isLongest_cons_of_not_suffix hrule).2 hother) hw happlies
    | declined hother hw happlies =>
      exact .declined ((isLongest_cons_of_not_suffix hrule).2 hother) hw happlies
    | unmatched hnone => exact .unmatched (List.forall_mem_cons.2 ⟨hrule, hnone⟩)

/-- In such a table the first rule that fits is the one with the longest suffix. -/
theorem reduces_iff (hfirst : LongestFirst rules) {v : Text} :
    Reduces rules w v ↔ v = applyFirst w rules := by
  induction rules with
  | nil =>
    constructor
    · intro h
      cases h with
      | applied hother => exact absurd hother.mem List.not_mem_nil
      | declined => rfl
      | unmatched => rfl
    · rintro rfl
      exact .unmatched fun _ hmem => absurd hmem List.not_mem_nil
  | cons rule rest ih =>
    by_cases hrule : rule.suffix <:+ w
    · obtain ⟨stem, rfl⟩ := hrule
      rw [reduces_cons_of_suffix hfirst, applyFirst_cons_append]
    · rw [reduces_cons_of_not_suffix hrule, ih (List.pairwise_cons.1 hfirst).2,
        applyFirst_cons_of_not_suffix hrule]

/-- The rules may stand in any order. -/
theorem Reduces.perm {rules' : List Rule} (hperm : rules.Perm rules') {v : Text}
    (h : Reduces rules w v) : Reduces rules' w v := by
  have hlongest {rule : Rule} (h : rule.IsLongest rules w) : rule.IsLongest rules' w :=
    ⟨hperm.mem_iff.1 h.mem, h.isSuffix, fun other hother => h.length_le other (hperm.mem_iff.2 hother)⟩
  cases h with
  | applied h hw happlies => exact .applied (hlongest h) hw happlies
  | declined h hw happlies => exact .declined (hlongest h) hw happlies
  | unmatched hnone => exact .unmatched fun rule hrule => hnone rule (hperm.mem_iff.2 hrule)

/-- A y is a consonant if it comes first or follows a vowel, and the other letters but a, e, i, o and u
always are. The measure of a front of a word, by whatever letters its loops pass over, is the number of
places in it at which a consonant follows a vowel. Of each of the three tables the rule with the longest
suffix of those that a word ends with is the only one that is tried, in whatever order the rules are. -/
theorem measures_and_selects (w : Text) :
    (∀ i c, w[i]? = some c → ((form w)[i]? = some true ↔ c ∉ ['a', 'e', 'i', 'o', 'u'] ∧
      (c = 'y' → i = 0 ∨ (form w)[i - 1]? = some false))) ∧
    (∀ len ≤ w.length, measureAt w len = some (measure (w.take len)) ∧
      measure (w.take len) = (List.range len).countP fun i =>
        decide (0 < i ∧ (form w)[i - 1]? = some false ∧ (form w)[i]? = some true)) ∧
    ∀ rules ∈ [doubleSuffixRules, singleSuffixRules, longStemRules],
      ((∃ rule ∈ rules, rule.suffix <:+ w) → ∃! rule : Rule, rule.IsLongest rules w) ∧
      ∀ rules' : List Rule, rules'.Perm rules → ∀ v, Reduces rules' w v ↔ v = applyFirst w rules := by
  refine ⟨fun i c hc => getElem?_form_iff hc,
    fun len hlen => ⟨measureAt_eq hlen, measure_take_eq_countP w len⟩, fun rules hrules => ?_⟩
  have hfirst := longestFirst_tables rules hrules
  refine ⟨existsUnique_isLongest hfirst, fun rules' hperm v => ?_⟩
  rw [← reduces_iff hfirst]
  exact ⟨Reduces.perm hperm, Reduces.perm hperm.symm⟩

end WordIndex.PorterStemmer
