import Mathlib.Data.List.TakeWhile
import WordIndex.PorterStemmer

/-! # Vowels and consonants of a word

The measure of a word is counted by runs of letters. It is the number of places where a consonant
follows a vowel. -/
namespace WordIndex.PorterStemmer

theorem isConsonant_iff {afterConsonant : Bool} {c : Char} :
    isConsonant afterConsonant c ↔
      c ∉ ['a', 'e', 'i', 'o', 'u'] ∧ (c = 'y' → afterConsonant = false) := by
  rw [isConsonant]
  by_cases hvowel : c = 'a' ∨ c = 'e' ∨ c = 'i' ∨ c = 'o' ∨ c = 'u'
  · rw [if_pos hvowel]
    simp [hvowel]
  · rw [if_neg hvowel]
    by_cases hy : c = 'y'
    · simp [hy]
    · simp [hy, hvowel]

/-- The kind of a letter is told by the letter and the kind of the one before it. -/
theorem getElem?_consonants {w : Text} {i : Nat} {c : Char} (h : w[i]? = some c)
    (afterConsonant : Bool) : ∃ before, (afterConsonant :: consonants afterConsonant w)[i]? = some before ∧
      (consonants afterConsonant w)[i]? = some (isConsonant before c) := by
  induction w generalizing afterConsonant i with
  | nil => cases h
  | cons first rest ih =>
    cases i with
    | zero =>
      obtain rfl : first = c := Option.some.inj h
      exact ⟨afterConsonant, rfl, rfl⟩
    | succ i => exact ih h (isConsonant afterConsonant first)

/-- A letter is a consonant unless it is one of a, e, i, o and u, or a y after a consonant. -/
theorem getElem?_form_iff {w : Text} {i : Nat} {c : Char} (h : w[i]? = some c) :
    (form w)[i]? = some true ↔ c ∉ ['a', 'e', 'i', 'o', 'u'] ∧
      (c = 'y' → i = 0 ∨ (form w)[i - 1]? = some false) := by
  obtain ⟨before, hbefore, hkind⟩ := getElem?_consonants h false
  rw [form, hkind, Option.some.injEq, isConsonant_iff]
  refine and_congr_right fun _ => imp_congr_right fun _ => ?_
  cases i with
  | zero =>
    obtain rfl : false = before := Option.some.inj hbefore
    simp
  | succ i =>
    have hbefore : (consonants false w)[i]? = some before := hbefore
    simp [hbefore]

theorem consonants_take (afterConsonant : Bool) (w : Text) (len : Nat) :
    consonants afterConsonant (w.take len) = (consonants afterConsonant w).take len := by
  induction w generalizing afterConsonant len with
  | nil => simp [consonants]
  | cons c rest ih =>
    cases len with
    | zero => rfl
    | succ len => rw [List.take_succ_cons, consonants, consonants, List.take_succ_cons, ih]

/-- What follows a letter does not change its kind. -/
theorem form_take (w : Text) (len : Nat) : form (w.take len) = (form w).take len :=
  consonants_take false w len

/-- How often a consonant follows a vowel in a form, where `afterVowel` tells of what stands before. -/
def turns : (afterVowel : Bool) → List Bool → Nat
  | _, [] => 0
  | afterVowel, consonant :: rest => (afterVowel && consonant).toNat + turns (!consonant) rest

/-- Consonants that come first follow no vowel. -/
theorem turns_dropWhile_consonants (form : List Bool) :
    turns true (form.dropWhile (·)) = turns false form := by
  induction form with
  | nil => rfl
  | cons consonant rest ih =>
    cases consonant with
    | true =>
      rw [List.dropWhile_cons_of_pos rfl, ih, turns]
      exact (Nat.zero_add _).symm
    | false => rfl

/-- Vowels that come first may as well stand before the form. -/
theorem turns_dropWhile_vowels (form : List Bool) : turns true (form.dropWhile (!·)) = turns true form := by
  induction form with
  | nil => rfl
  | cons consonant rest ih =>
    cases consonant with
    | true => rfl
    | false =>
      rw [List.dropWhile_cons_of_pos rfl, ih, turns]
      exact (Nat.zero_add _).symm

theorem vowelRuns_of_nil {form : List Bool} (h : form.dropWhile (!·) = []) : vowelRuns form = 0 := by
  rw [vowelRuns]
  split
  · rfl
  · next hcons => cases h.symm.trans hcons

theorem vowelRuns_of_cons {form rest : List Bool} {consonant : Bool}
    (h : form.dropWhile (!·) = consonant :: rest) :
    vowelRuns form = 1 + vowelRuns (rest.dropWhile (·)) := by
  rw [vowelRuns]
  split
  · next hnil => cases h.symm.trans hnil
  · next hcons =>
    obtain ⟨-, rfl⟩ := List.cons.inj (h.symm.trans hcons)
    rfl

theorem vowelRuns_eq_turns (form : List Bool) : vowelRuns form = turns true form := by
  fun_induction vowelRuns form with
  | case1 form h =>
    rw [← turns_dropWhile_vowels, h, turns]
  | case2 form consonant rest h ih =>
    obtain rfl : consonant = true := by
      have hhead := List.head?_dropWhile_not (!·) form
      rw [h] at hhead
      simpa using hhead
    rw [ih, turns_dropWhile_consonants, ← turns_dropWhile_vowels, h, turns]
    rfl

theorem measure_eq_turns (w : Text) : measure w = turns false (form w) := by
  rw [measure, vowelRuns_eq_turns, turns_dropWhile_consonants]

/-- The places of a form at which a consonant follows a vowel, counted from the start. -/
theorem turns_take_eq_countP (afterVowel : Bool) (form : List Bool) (len : Nat) :
    turns afterVowel (form.take len) = (List.range len).countP fun i =>
      decide (((!afterVowel) :: form)[i]? = some false ∧ form[i]? = some true) := by
  induction form generalizing afterVowel len with
  | nil => simp [turns]
  | cons consonant rest ih =>
    cases len with
    | zero => rfl
    | succ len =>
      have hrest := ih (!consonant) len
      rw [Bool.not_not] at hrest
      rw [List.take_succ_cons, turns, hrest, List.range_succ_eq_map, List.countP_cons, List.countP_map,
        Nat.add_comm]
      refine congrArg₂ _ rfl ?_
      cases afterVowel <;> cases consonant <;> rfl

/-- The measure of a front of a word counts the places at which a consonant follows a vowel. -/
theorem measure_take_eq_countP (w : Text) (len : Nat) :
    measure (w.take len) = (List.range len).countP fun i =>
      decide (0 < i ∧ (form w)[i - 1]? = some false ∧ (form w)[i]? = some true) := by
  rw [measure_eq_turns, form_take, turns_take_eq_countP]
  refine List.countP_congr fun i _ => ?_
  rw [decide_eq_true_eq, decide_eq_true_eq]
  cases i with
  | zero => simp
  | succ i => simp

end WordIndex.PorterStemmer
