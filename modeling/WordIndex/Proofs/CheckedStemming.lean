import WordIndex.Proofs.SuffixTables

/-! # The steps of the stemmer by positions

Each step cuts, replaces or lengthens the end of the word by lengths that are checked. Each gives what
the step on stems gives, for every word, so that nothing is ever out of range. -/
namespace WordIndex.PorterStemmer

variable {w stem suffix : Text}

/-! ## Suffixes -/

def stemLength (w suffix : Text) : Option Nat := minus? w.length suffix.length

def replaced (w suffix replacement : Text) : Option Text := do
  let len ← stemLength w suffix
  return w.take len ++ replacement

theorem stemLength_append (stem suffix : Text) : stemLength (stem ++ suffix) suffix = some stem.length := by
  rw [stemLength, List.length_append, minus?_of_le (Nat.le_add_left _ _), Nat.add_sub_cancel]

theorem replaced_append (stem suffix replacement : Text) :
    replaced (stem ++ suffix) suffix replacement = some (stem ++ replacement) := by
  rw [replaced, stemLength_append]
  change some ((stem ++ suffix).take stem.length ++ replacement) = _
  rw [List.take_left]

theorem measureAt_append (stem suffix : Text) :
    measureAt (stem ++ suffix) stem.length = some (measure stem) := by
  rw [measureAt_eq (by simp), List.take_left]

theorem hasVowelAt_append (stem suffix : Text) :
    hasVowelAt (stem ++ suffix) stem.length = some (hasVowel stem) := by
  rw [hasVowelAt_eq (by simp), List.take_left]

theorem endsShortAt_append (stem suffix : Text) :
    endsShortAt (stem ++ suffix) stem.length = some (endsShort stem) := by
  rw [endsShortAt_eq (by simp), List.take_left]

theorem measureAt_length (w : Text) : measureAt w w.length = some (measure w) := by
  rw [measureAt_eq (Nat.le_refl _), List.take_length]

theorem endsDoubleAt_length (w : Text) : endsDoubleAt w w.length = some (endsDouble w) := by
  rw [endsDoubleAt_eq (Nat.le_refl _), List.take_length]

theorem endsShortAt_length (w : Text) : endsShortAt w w.length = some (endsShort w) := by
  rw [endsShortAt_eq (Nat.le_refl _), List.take_length]

theorem letterBefore_append (hne : stem ≠ []) (suffix : Text) :
    letterBefore (stem ++ suffix) stem.length 1 = some (stem.getLast hne) := by
  rw [letterBefore_eq (by simp) (List.length_pos_iff.2 hne), List.take_left, ← List.head?_eq_getElem?,
    List.head?_reverse, List.getLast?_eq_getLast_of_ne_nil hne]

theorem letterBefore_length (hne : w ≠ []) : letterBefore w w.length 1 = some (w.getLast hne) := by
  have happend := letterBefore_append hne []
  rwa [List.append_nil] at happend

/-- A word ends with a suffix or it does not. -/
theorem ends_cases (w suffix : Text) : (∃ stem, w = stem ++ suffix ∧ without? suffix w = some stem ∧
    suffix.isSuffixOf w = true) ∨ (without? suffix w = none ∧ suffix.isSuffixOf w = false) := by
  by_cases h : suffix <:+ w
  · obtain ⟨stem, rfl⟩ := h
    exact .inl ⟨stem, rfl, without?_append stem suffix, by simp⟩
  · refine .inr ⟨without?_eq_none_iff.2 h, ?_⟩
    rw [Bool.eq_false_iff]
    exact fun hsuffix => h (List.isSuffixOf_iff_suffix.1 hsuffix)

theorem isSuffixOf_singleton (c : Char) (w : Text) : [c].isSuffixOf w = (w.getLast? == some c) := by
  rw [← List.head?_reverse, List.isSuffixOf]
  cases w.reverse with
  | nil => rfl
  | cons d rest => simp [List.isPrefixOf, eq_comm]

theorem ne_nil_of_endsDouble (h : endsDouble w) : w ≠ [] := by
  rintro rfl
  cases h

/-! ## Steps -/

def pluralAt (w : Text) : Option Text :=
  if "sses".toList.isSuffixOf w then replaced w "sses".toList "ss".toList
  else if "ies".toList.isSuffixOf w then replaced w "ies".toList "i".toList
  else if !"ss".toList.isSuffixOf w && "s".toList.isSuffixOf w then replaced w "s".toList []
  else some w

theorem pluralAt_eq (w : Text) : pluralAt w = some (plural w) := by
  rw [pluralAt, plural]
  simp only [applyFirst]
  obtain ⟨stem, rfl, hstem, hends⟩ | ⟨hnone, hends⟩ := ends_cases w "sses".toList
  · rw [if_pos hends, replaced_append, hstem]
    rfl
  rw [if_neg (Bool.eq_false_iff.1 hends), hnone]
  obtain ⟨stem, rfl, hstem, hends⟩ | ⟨hnone, hends⟩ := ends_cases w "ies".toList
  · rw [if_pos hends, replaced_append, hstem]
    rfl
  rw [if_neg (Bool.eq_false_iff.1 hends), hnone]
  obtain ⟨stem, rfl, hstem, hends⟩ | ⟨hnone, hends⟩ := ends_cases w "ss".toList
  · rw [hends, hstem]
    rfl
  rw [hends, hnone, Bool.not_false, Bool.true_and]
  obtain ⟨stem, rfl, hstem, hends⟩ | ⟨hnone, hends⟩ := ends_cases w "s".toList
  · rw [if_pos hends, replaced_append, hstem]
    rfl
  · rw [if_neg (Bool.eq_false_iff.1 hends), hnone]

/-- Whether a word ends with a double consonant other than l, s and z. -/
def losesDoubleAt (w : Text) : Option Bool := do
  if ← endsDoubleAt w w.length then
    let c ← letterBefore w w.length 1
    return c ∉ ['l', 's', 'z']
  else return false

theorem losesDoubleAt_eq (w : Text) : losesDoubleAt w =
    some (endsDouble w && ["l", "s", "z"].all fun suffix => !suffix.toList.isSuffixOf w) := by
  rw [losesDoubleAt, endsDoubleAt_length]
  cases hdouble : endsDouble w with
  | false => rfl
  | true =>
    have hne := ne_nil_of_endsDouble hdouble
    rw [letterBefore_length hne]
    change some (decide (w.getLast hne ∉ ['l', 's', 'z'])) =
      some (!(['l'].isSuffixOf w) && (!(['s'].isSuffixOf w) && (!(['z'].isSuffixOf w) && true)))
    rw [isSuffixOf_singleton, isSuffixOf_singleton, isSuffixOf_singleton,
      List.getLast?_eq_getLast_of_ne_nil hne]
    simp [beq_eq_decide]

def mendAt (w : Text) : Option Text :=
  if ["at", "bl", "iz"].any fun suffix => suffix.toList.isSuffixOf w then some (w ++ ['e'])
  else do
    if ← losesDoubleAt w then return w.dropLast
    else if (← measureAt w w.length) = 1 then
      if ← endsShortAt w w.length then return w ++ ['e'] else return w
    else return w

theorem mendAt_eq (w : Text) : mendAt w = some (mend w) := by
  rw [mendAt, mend, losesDoubleAt_eq, measureAt_length, endsShortAt_length]
  simp only [Option.bind_eq_bind, Option.bind_some]
  split
  · rfl
  · split
    · rfl
    · by_cases hone : measure w = 1 <;> cases endsShort w <;> simp [hone]

/-- Takes a suffix from a word with a vowel before it, and mends what is left. -/
def mendWithout (w suffix : Text) : Option Text := do
  let len ← stemLength w suffix
  if ← hasVowelAt w len then
    let w ← replaced w suffix []
    mendAt w
  else return w

theorem mendWithout_append (stem suffix : Text) : mendWithout (stem ++ suffix) suffix =
    some (if hasVowel stem then mend stem else stem ++ suffix) := by
  rw [mendWithout, stemLength_append]
  simp only [Option.bind_eq_bind, Option.bind_some, hasVowelAt_append, replaced_append, mendAt_eq,
    List.append_nil]
  split <;> rfl

def participleAt (w : Text) : Option Text :=
  if "eed".toList.isSuffixOf w then do
    let len ← stemLength w "eed".toList
    if 0 < (← measureAt w len) then replaced w "eed".toList "ee".toList else return w
  else if "ed".toList.isSuffixOf w then mendWithout w "ed".toList
  else if "ing".toList.isSuffixOf w then mendWithout w "ing".toList
  else some w

theorem participleAt_eq (w : Text) : participleAt w = some (participle w) := by
  rw [participleAt, participle]
  obtain ⟨stem, rfl, hstem, hends⟩ | ⟨hnone, hends⟩ := ends_cases w "eed".toList
  · rw [if_pos hends, stemLength_append, hstem]
    simp only [Option.bind_eq_bind, Option.bind_some, measureAt_append, replaced_append]
    split <;> rfl
  rw [if_neg (Bool.eq_false_iff.1 hends), hnone]
  obtain ⟨stem, rfl, hstem, hends⟩ | ⟨hnone, hends⟩ := ends_cases w "ed".toList
  · rw [if_pos hends, mendWithout_append, hstem]
    rfl
  rw [if_neg (Bool.eq_false_iff.1 hends), hnone]
  obtain ⟨stem, rfl, hstem, hends⟩ | ⟨hnone, hends⟩ := ends_cases w "ing".toList
  · rw [if_pos hends, mendWithout_append, hstem]
    rfl
  · rw [if_neg (Bool.eq_false_iff.1 hends), hnone]
    rfl

def finalYAt (w : Text) : Option Text :=
  if ['y'].isSuffixOf w then do
    let len ← minus? w.length 1
    if ← hasVowelAt w len then
      if len < w.length then return w.set len 'i' else none
    else return w
  else some w

theorem finalYAt_eq (w : Text) : finalYAt w = some (finalY w) := by
  rw [finalYAt, finalY]
  obtain ⟨stem, rfl, hstem, hends⟩ | ⟨hnone, hends⟩ := ends_cases w ['y']
  · have hlen : minus? (stem ++ ['y']).length 1 = some stem.length := stemLength_append stem ['y']
    rw [if_pos hends, hlen, hstem]
    simp only [Option.bind_eq_bind, Option.bind_some, hasVowelAt_append]
    split
    · rw [if_pos (by simp), List.set_append_right _ _ (Nat.le_refl _), Nat.sub_self]
      rfl
    · rfl
  · rw [if_neg (Bool.eq_false_iff.1 hends), hnone]

/-- Applies the first rule of a table that fits, with its condition asked for the length of the stem. -/
def replaceFirst (condition : Rule → Text → Nat → Option Bool) (w : Text) : List Rule → Option Text
  | [] => some w
  | rule :: rest =>
    if rule.suffix.isSuffixOf w then do
      let len ← stemLength w rule.suffix
      if ← condition rule w len then replaced w rule.suffix rule.replacement else return w
    else replaceFirst condition w rest

theorem replaceFirst_eq {condition : Rule → Text → Nat → Option Bool} {rules : List Rule}
    (h : ∀ rule ∈ rules, ∀ stem,
      condition rule (stem ++ rule.suffix) stem.length = some (rule.applies stem)) (w : Text) :
    replaceFirst condition w rules = some (applyFirst w rules) := by
  induction rules with
  | nil => rfl
  | cons rule rest ih =>
    obtain ⟨hrule, hrest⟩ := List.forall_mem_cons.1 h
    rw [replaceFirst, applyFirst]
    obtain ⟨stem, rfl, hstem, hends⟩ | ⟨hnone, hends⟩ := ends_cases w rule.suffix
    · rw [if_pos hends, stemLength_append, hstem]
      simp only [Option.bind_eq_bind, Option.bind_some, hrule]
      split
      · rw [replaced_append]
      · rfl
    · rw [if_neg (Bool.eq_false_iff.1 hends), hnone, ih hrest]

/-- The measure up to a length is above zero. -/
def isMeasuredAt (_ : Rule) (w : Text) (len : Nat) : Option Bool := (measureAt w len).map (0 < ·)

theorem replaceFirst_isMeasuredAt {table : List (String × String)} (w : Text) :
    replaceFirst isMeasuredAt w (table.map fun p => .above 0 p.1 p.2) =
      some (applyFirst w (table.map fun p => .above 0 p.1 p.2)) := by
  refine replaceFirst_eq (fun rule hrule stem => ?_) w
  obtain ⟨p, -, rfl⟩ := List.mem_map.1 hrule
  rw [isMeasuredAt, measureAt_append]
  rfl

/-- The measure up to a length is above one; "ion" must also follow an s or a t. -/
def isLongAt (rule : Rule) (w : Text) (len : Nat) : Option Bool := do
  if 1 < (← measureAt w len) then
    if rule.suffix ≠ "ion".toList then return true
    else if 0 < len then
      let c ← letterBefore w len 1
      return c ∈ ['s', 't']
    else return false
  else return false

theorem isLongAt_eq {rule : Rule} (hrule : rule ∈ longStemRules) (stem : Text) :
    isLongAt rule (stem ++ rule.suffix) stem.length = some (rule.applies stem) := by
  have habove {suffixes : List String} (hne : ∀ s ∈ suffixes, s.toList ≠ "ion".toList)
      (hmem : rule ∈ suffixes.map (Rule.above 1 · "")) :
      isLongAt rule (stem ++ rule.suffix) stem.length = some (rule.applies stem) := by
    obtain ⟨s, hs, rfl⟩ := List.mem_map.1 hmem
    have hsuffix : (Rule.above 1 s "").suffix ≠ "ion".toList := hne s hs
    have happlies : (Rule.above 1 s "").applies stem = decide (1 < measure stem) := rfl
    rw [isLongAt, measureAt_append, happlies]
    simp only [Option.bind_eq_bind, Option.bind_some, if_pos hsuffix]
    split <;> simp [*]
  rcases List.mem_append.1 hrule with hmem | hmem
  · exact habove (by decide) hmem
  · rcases List.mem_cons.1 hmem with rfl | hmem
    · rw [isLongAt, measureAt_append]
      by_cases hne : stem = []
      · simp [hne]
      · rw [letterBefore_append hne]
        by_cases hlong : 1 < measure stem <;>
          simp [hlong, List.length_pos_iff.2 hne, List.getLast?_eq_getLast_of_ne_nil hne, beq_eq_decide]
    · exact habove (by decide) hmem

def finalEAt (w : Text) : Option Text :=
  if ['e'].isSuffixOf w then do
    let len ← stemLength w ['e']
    let m ← measureAt w len
    if 1 < m then return w.take len
    else if m = 1 then
      if ← endsShortAt w len then return w else return w.take len
    else return w
  else some w

theorem finalEAt_eq (w : Text) : finalEAt w = some (finalE w) := by
  rw [finalEAt, finalE]
  obtain ⟨stem, rfl, hstem, hends⟩ | ⟨hnone, hends⟩ := ends_cases w ['e']
  · rw [if_pos hends, stemLength_append, hstem]
    simp only [Option.bind_eq_bind, Option.bind_some, measureAt_append, endsShortAt_append, List.take_left]
    by_cases hlong : 1 < measure stem
    · simp [hlong]
    · by_cases hone : measure stem = 1 <;> cases endsShort stem <;> simp [hlong, hone]
  · rw [if_neg (Bool.eq_false_iff.1 hends), hnone]

def finalDoubleLAt (w : Text) : Option Text := do
  if 1 < (← measureAt w w.length) then
    if ← endsDoubleAt w w.length then
      let c ← letterBefore w w.length 1
      if c = 'l' then return w.dropLast else return w
    else return w
  else return w

theorem finalDoubleLAt_eq (w : Text) : finalDoubleLAt w = some (finalDoubleL w) := by
  rw [finalDoubleLAt, finalDoubleL, measureAt_length, endsDoubleAt_length]
  simp only [Option.bind_eq_bind, Option.bind_some]
  by_cases hlong : 1 < measure w
  · cases hdouble : endsDouble w with
    | false => simp [hlong]
    | true =>
      have hne := ne_nil_of_endsDouble hdouble
      rw [letterBefore_length hne, List.getLast?_eq_getLast_of_ne_nil hne]
      by_cases hl : w.getLast hne = 'l' <;> simp [hlong, hl]
  · simp [hlong]

def reduceAt (w : Text) : Option Text := do
  let w ← pluralAt w
  let w ← participleAt w
  let w ← finalYAt w
  let w ← replaceFirst isMeasuredAt w doubleSuffixRules
  let w ← replaceFirst isMeasuredAt w singleSuffixRules
  let w ← replaceFirst isLongAt w longStemRules
  let w ← finalEAt w
  finalDoubleLAt w

theorem reduceAt_eq (w : Text) : reduceAt w = some (reduce w) := by
  have hdouble (w : Text) : replaceFirst isMeasuredAt w doubleSuffixRules =
      some (applyFirst w doubleSuffixRules) := replaceFirst_isMeasuredAt w
  have hsingle (w : Text) : replaceFirst isMeasuredAt w singleSuffixRules =
      some (applyFirst w singleSuffixRules) := replaceFirst_isMeasuredAt w
  have hlong (w : Text) : replaceFirst isLongAt w longStemRules =
      some (applyFirst w longStemRules) := replaceFirst_eq (fun _ hrule => isLongAt_eq hrule) w
  simp only [reduceAt, reduce, pluralAt_eq, participleAt_eq, finalYAt_eq, hdouble, hsingle, hlong,
    finalEAt_eq, finalDoubleLAt_eq, Option.bind_eq_bind, Option.bind_some]

end WordIndex.PorterStemmer
