import WordIndex.Proofs.LetterKinds

/-! # The stemmer by positions in the word

The same steps with lengths and positions in place of stems. Every letter that is looked at and every
length that is taken away is checked: a letter behind the end or a length below zero would give no
word. There always is one, and it is the one that the steps on stems give. -/
namespace WordIndex.PorterStemmer

def minus? (a b : Nat) : Option Nat := if b ≤ a then some (a - b) else none

theorem minus?_of_le {a b : Nat} (h : b ≤ a) : minus? a b = some (a - b) := if_pos h

/-! ## Letters -/

def consonantAt (w : Text) : Nat → Option Bool
  | 0 => do
    let c ← w[0]?
    return c ∉ ['a', 'e', 'i', 'o', 'u']
  | i + 1 => do
    let c ← w[i + 1]?
    if c ∈ ['a', 'e', 'i', 'o', 'u'] then return false
    else if c = 'y' then return !(← consonantAt w i)
    else return true

theorem isConsonant_eq_decide (afterConsonant : Bool) (c : Char) : isConsonant afterConsonant c =
    decide (c ∉ ['a', 'e', 'i', 'o', 'u'] ∧ (c = 'y' → afterConsonant = false)) := by
  rw [Bool.eq_iff_iff, isConsonant_iff, decide_eq_true_eq]

theorem consonantAt_eq (w : Text) (i : Nat) : consonantAt w i = (form w)[i]? := by
  induction i with
  | zero =>
    cases w with
    | nil => rfl
    | cons c rest =>
      change some (decide _) = some (isConsonant false c)
      rw [isConsonant_eq_decide]
      simp
  | succ i ih =>
    cases hc : w[i + 1]? with
    | none =>
      have hlen : (form w).length ≤ i + 1 := by simpa using hc
      rw [consonantAt, hc, List.getElem?_eq_none hlen]
      rfl
    | some c =>
      obtain ⟨before, hbefore, hkind⟩ := getElem?_consonants hc false
      rw [form, hkind, consonantAt, hc, ih, form, show (consonants false w)[i]? = some before from hbefore,
        isConsonant_eq_decide]
      change (if _ then some false else if _ then some (!before) else some true) = _
      by_cases hvowel : c ∈ ['a', 'e', 'i', 'o', 'u']
      · rw [if_pos hvowel]
        simp [hvowel]
      · rw [if_neg hvowel]
        by_cases hy : c = 'y' <;> simp [hvowel, hy]

/-- The first position from `i` on at which the letters are no more of one kind, or `len`. -/
def skip (w : Text) (consonant : Bool) (len i : Nat) : Option Nat :=
  if i < len then
    match consonantAt w i with
    | none => none
    | some kind => if kind = consonant then skip w consonant len (i + 1) else some i
  else some i
termination_by len - i

theorem skip_stops {w : Text} {consonant : Bool} {len i j : Nat}
    (h : skip w consonant len i = some j) : i ≤ j ∧ (j < len → consonantAt w j = some (!consonant)) := by
  fun_induction skip w consonant len i with
  | case1 => cases h
  | case2 i hi hkind ih => exact ⟨Nat.le_of_succ_le (ih h).1, (ih h).2⟩
  | case3 i hi kind hkind hne =>
    obtain rfl : i = j := Option.some.inj h
    exact ⟨Nat.le_refl _, fun _ => by rw [hkind, Bool.eq_not.2 hne]⟩
  | case4 i hi =>
    obtain rfl : i = j := Option.some.inj h
    exact ⟨Nat.le_refl _, fun hlt => absurd hlt hi⟩

/-- From a consonant on at least one letter is passed over. -/
theorem lt_of_skip_skip {w : Text} {len i j k : Nat} (hj : skip w false len i = some j) (hlt : j < len)
    (hk : skip w true len j = some k) : i < k := by
  obtain ⟨hij, hconsonant⟩ := skip_stops hj
  rw [skip, if_pos hlt, hconsonant hlt] at hk
  exact Nat.lt_of_le_of_lt hij (skip_stops hk).1

/-- Counts the runs of vowels from `i` on that a consonant follows. -/
def runsFrom (w : Text) (len i count : Nat) : Option Nat :=
  if i < len then
    match _hj : skip w false len i with
    | none => none
    | some j =>
      if _hlt : j < len then
        match _hk : skip w true len j with
        | none => none
        | some k => runsFrom w len k (count + 1)
      else some count
  else some count
termination_by len - i
decreasing_by
  have := lt_of_skip_skip _hj _hlt _hk
  omega

def measureAt (w : Text) (len : Nat) : Option Nat := do
  let i ← skip w true len 0
  runsFrom w len i 0

def hasVowelAt (w : Text) (len : Nat) : Option Bool := do
  let i ← skip w true len 0
  return i < len

section Loops
variable {w : Text} {len : Nat}

theorem consonantAt_of_lt {i : Nat} (hi : i < len) : consonantAt w i = (form (w.take len))[i]? := by
  rw [consonantAt_eq, form_take, List.getElem?_take_of_lt hi]

variable (hlen : len ≤ w.length)
include hlen

theorem length_form_take : (form (w.take len)).length = len := by
  rw [length_form, List.length_take_of_le hlen]

/-- A loop over letters of one kind leaves of the form what is left without them. -/
theorem exists_skip_eq (consonant : Bool) {i : Nat} (hi : i ≤ len) : ∃ j, skip w consonant len i = some j ∧
    i ≤ j ∧ j ≤ len ∧
    (form (w.take len)).drop j = ((form (w.take len)).drop i).dropWhile (· == consonant) := by
  have hlength := length_form_take hlen
  fun_induction skip w consonant len i with
  | case1 i hlt hnone =>
    rw [consonantAt_of_lt hlt, List.getElem?_eq_none_iff] at hnone
    omega
  | case2 i hlt hkind ih =>
    rw [consonantAt_of_lt hlt] at hkind
    obtain ⟨hi', hget⟩ := List.getElem?_eq_some_iff.1 hkind
    obtain ⟨j, hj, hle, hle', hdrop⟩ := ih hlt
    refine ⟨j, hj, Nat.le_of_succ_le hle, hle', ?_⟩
    rw [hdrop, List.drop_eq_getElem_cons hi', List.dropWhile_cons_of_pos (by simpa using hget)]
  | case3 i hlt kind hkind hne =>
    rw [consonantAt_of_lt hlt] at hkind
    obtain ⟨hi', hget⟩ := List.getElem?_eq_some_iff.1 hkind
    refine ⟨i, rfl, Nat.le_refl _, hi, ?_⟩
    rw [List.drop_eq_getElem_cons hi', List.dropWhile_cons_of_neg (by simpa [hget] using hne)]
  | case4 i hge =>
    refine ⟨i, rfl, Nat.le_refl _, hi, ?_⟩
    rw [List.drop_eq_nil_of_le (by omega), List.dropWhile_nil]

theorem runsFrom_eq {i : Nat} (hi : i ≤ len) (count : Nat) :
    runsFrom w len i count = some (count + vowelRuns ((form (w.take len)).drop i)) := by
  have hlength := length_form_take hlen
  fun_induction runsFrom w len i count with
  | case1 i count hlt hnone =>
    obtain ⟨j, hj, -⟩ := exists_skip_eq hlen false hi
    rw [hnone] at hj
    cases hj
  | case2 i count hlt j hj hjlen hnone =>
    obtain ⟨k, hk, -⟩ := exists_skip_eq hlen true (Nat.le_of_lt hjlen)
    rw [hnone] at hk
    cases hk
  | case3 i count hlt j hj hjlen k hk ih =>
    obtain ⟨j', hj', -, -, hdrop⟩ := exists_skip_eq hlen false hi
    obtain rfl : j = j' := Option.some.inj (hj.symm.trans hj')
    obtain ⟨k', hk', -, hklen, hdrop'⟩ := exists_skip_eq hlen true (Nat.le_of_lt hjlen)
    obtain rfl : k = k' := Option.some.inj (hk.symm.trans hk')
    have hj₁ : j < (form (w.take len)).length := by omega
    have hconsonant : (form (w.take len))[j] = true := by
      have hkind := (skip_stops hj).2 hjlen
      rw [consonantAt_of_lt hjlen] at hkind
      exact (List.getElem?_eq_some_iff.1 hkind).2
    rw [List.drop_eq_getElem_cons hj₁] at hdrop hdrop'
    rw [hconsonant, List.dropWhile_cons_of_pos rfl] at hdrop'
    simp only [beq_false, beq_true] at hdrop hdrop'
    rw [ih hklen, vowelRuns_of_cons hdrop.symm, hdrop', Nat.add_assoc]
  | case4 i count hlt j hj hjlen =>
    obtain ⟨j', hj', -, -, hdrop⟩ := exists_skip_eq hlen false hi
    obtain rfl : j = j' := Option.some.inj (hj.symm.trans hj')
    rw [List.drop_eq_nil_of_le (by omega)] at hdrop
    simp only [beq_false] at hdrop
    rw [vowelRuns_of_nil hdrop.symm, Nat.add_zero]
  | case5 i count hge =>
    rw [List.drop_eq_nil_of_le (by omega), vowelRuns_of_nil rfl, Nat.add_zero]

theorem measureAt_eq : measureAt w len = some (measure (w.take len)) := by
  obtain ⟨i, hi, -, hle, hdrop⟩ := exists_skip_eq hlen true (Nat.zero_le len)
  rw [measureAt, hi, measure]
  simp only [Option.bind_eq_bind, Option.bind_some]
  rw [runsFrom_eq hlen hle, hdrop, Nat.zero_add, List.drop_zero]
  simp only [beq_true]

theorem hasVowelAt_eq : hasVowelAt w len = some (hasVowel (w.take len)) := by
  have hlength := length_form_take hlen
  obtain ⟨i, hi, -, hle, hdrop⟩ := exists_skip_eq hlen true (Nat.zero_le len)
  simp only [List.drop_zero, beq_true] at hdrop
  rw [hasVowelAt, hi, hasVowel]
  refine congrArg some ?_
  rw [Bool.eq_iff_iff, decide_eq_true_eq, List.any_eq_true]
  constructor
  · intro hlt
    have hi' : i < (form (w.take len)).length := by omega
    refine ⟨(form (w.take len))[i], List.getElem_mem hi', ?_⟩
    have hhead := List.head?_dropWhile_not (·) (form (w.take len))
    rw [← hdrop, List.drop_eq_getElem_cons hi', List.head?_cons] at hhead
    rw [hhead]
    rfl
  · rintro ⟨kind, hmem, hkind⟩
    refine Nat.lt_of_not_le fun hge => ?_
    rw [List.drop_eq_nil_of_le (by omega)] at hdrop
    have hall := List.dropWhile_eq_nil_iff.1 hdrop.symm kind hmem
    simp [hall] at hkind

end Loops

/-! ## Ends of a front of the word -/

def letterBefore (w : Text) (len back : Nat) : Option Char := do
  let i ← minus? len back
  w[i]?

def consonantBefore (w : Text) (len back : Nat) : Option Bool := do
  let i ← minus? len back
  consonantAt w i

def endsDoubleAt (w : Text) (len : Nat) : Option Bool :=
  if 2 ≤ len then do
    let c ← letterBefore w len 1
    let d ← letterBefore w len 2
    if c = d then consonantBefore w len 1 else return false
  else some false

def endsShortAt (w : Text) (len : Nat) : Option Bool :=
  if 3 ≤ len then do
    if ← consonantBefore w len 3 then
      if ← consonantBefore w len 2 then return false
      else if ← consonantBefore w len 1 then
        let c ← letterBefore w len 1
        return c ∉ ['w', 'x', 'y']
      else return false
    else return false
  else some false

section Ends
variable {w : Text} {len : Nat} (hlen : len ≤ w.length)
include hlen

theorem letterBefore_eq {back : Nat} (hback : back + 1 ≤ len) :
    letterBefore w len (back + 1) = (w.take len).reverse[back]? := by
  have hlength := List.length_take_of_le hlen
  rw [letterBefore, minus?_of_le hback, List.getElem?_reverse (by omega), hlength,
    List.getElem?_take_of_lt (by omega), Nat.sub_sub, Nat.add_comm 1]
  rfl

theorem consonantBefore_eq {back : Nat} (hback : back + 1 ≤ len) :
    consonantBefore w len (back + 1) = (form (w.take len)).reverse[back]? := by
  have hlength := length_form_take hlen
  rw [consonantBefore, minus?_of_le hback, List.getElem?_reverse (by omega), hlength, Nat.sub_sub,
    Nat.add_comm 1]
  exact consonantAt_of_lt (by omega)

theorem endsDoubleAt_eq : endsDoubleAt w len = some (endsDouble (w.take len)) := by
  have hletters : (w.take len).reverse.length = len := by simp [hlen]
  have hkinds : (form (w.take len)).reverse.length = len := by simp [hlen]
  rw [endsDoubleAt, endsDouble]
  by_cases hlong : 2 ≤ len
  · rw [if_pos hlong, letterBefore_eq hlen (by omega), letterBefore_eq hlen (by omega),
      consonantBefore_eq hlen (by omega)]
    match (w.take len).reverse, (form (w.take len)).reverse, hletters, hkinds with
    | [], _, h, _ | [_], _, h, _ => simp only [List.length_nil, List.length_cons] at h; omega
    | _, [], _, h => simp only [List.length_nil] at h; omega
    | c :: d :: _, kind :: _, _, _ =>
      change (if c = d then some kind else some false) = some (c == d && kind)
      by_cases hcd : c = d <;> simp [hcd]
  · rw [if_neg hlong]
    split
    · next heq _ => rw [heq, List.length_cons, List.length_cons] at hletters; omega
    · rfl

theorem endsShortAt_eq : endsShortAt w len = some (endsShort (w.take len)) := by
  have hletters : (w.take len).reverse.length = len := by simp [hlen]
  have hkinds : (form (w.take len)).reverse.length = len := by simp [hlen]
  rw [endsShortAt, endsShort]
  by_cases hlong : 3 ≤ len
  · rw [if_pos hlong, letterBefore_eq hlen (by omega), consonantBefore_eq hlen (by omega),
      consonantBefore_eq hlen (by omega), consonantBefore_eq hlen (by omega)]
    match (w.take len).reverse, (form (w.take len)).reverse, hletters, hkinds with
    | [], _, h, _ => simp only [List.length_nil] at h; omega
    | _, [], _, h | _, [_], _, h | _, [_, _], _, h =>
      simp only [List.length_nil, List.length_cons] at h
      omega
    | c :: _, last :: second :: third :: _, _, _ =>
      cases last <;> cases second <;> cases third <;> simp [Bool.and_assoc, bne, beq_eq_decide]
  · rw [if_neg hlong]
    split
    · next heq => rw [heq, List.length_cons, List.length_cons, List.length_cons] at hkinds; omega
    · rfl

end Ends

end WordIndex.PorterStemmer
