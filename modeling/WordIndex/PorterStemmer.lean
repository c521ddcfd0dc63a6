import WordIndex.Utf8

/-! # Porter's stemmer for English words -/
namespace WordIndex.PorterStemmer

/-- Whether a letter is a consonant, given whether the one before it is. A y is a consonant unless
it follows one. -/
def isConsonant (afterConsonant : Bool) (c : Char) : Bool :=
  if c = 'a' ∨ c = 'e' ∨ c = 'i' ∨ c = 'o' ∨ c = 'u' then false
  else if c = 'y' then !afterConsonant
  else true

def consonants : (afterConsonant : Bool) → Text → List Bool
  | _, [] => []
  | afterConsonant, c :: rest =>
    isConsonant afterConsonant c :: consonants (isConsonant afterConsonant c) rest

/-- Which letters of a whole word are consonants: a y that comes first is one. -/
def form (w : Text) : List Bool := consonants false w

@[simp] theorem length_consonants (afterConsonant : Bool) (w : Text) :
    (consonants afterConsonant w).length = w.length := by
  induction w generalizing afterConsonant with
  | nil => rfl
  | cons c rest ih => simp [consonants, ih]

@[simp] theorem length_form (w : Text) : (form w).length = w.length := length_consonants ..

/-- The number of runs of vowels that a run of consonants follows, in a form that does not start
with a consonant. -/
def vowelRuns (form : List Bool) : Nat :=
  match h : form.dropWhile (!·) with
  | [] => 0
  | _ :: rest => 1 + vowelRuns (rest.dropWhile (·))
termination_by form.length
decreasing_by
  have h₁ := (List.dropWhile_sublist (p := (·)) (l := rest)).length_le
  have h₂ := (List.dropWhile_sublist (p := (!·)) (l := form)).length_le
  rw [h, List.length_cons] at h₂
  omega

/-- The m of a word of the form [C](VC)ᵐ[V]. -/
def measure (w : Text) : Nat := vowelRuns ((form w).dropWhile (·))

def hasVowel (w : Text) : Bool := (form w).any (!·)

/-- Whether a word ends with a consonant written twice. -/
def endsDouble (w : Text) : Bool :=
  match w.reverse, (form w).reverse with
  | c :: d :: _, consonant :: _ => c == d && consonant
  | _, _ => false

/-- Whether a word ends with a consonant, a vowel and a consonant that is not w, x or y. -/
def endsShort (w : Text) : Bool :=
  match w.reverse, (form w).reverse with
  | c :: _, true :: false :: true :: _ => c != 'w' && c != 'x' && c != 'y'
  | _, _ => false

def without? (suffix : Text) (w : Text) : Option Text :=
  if suffix.isSuffixOf w then some (w.take (w.length - suffix.length)) else none

structure Rule where
  suffix : Text
  replacement : Text
  applies : Text → Bool

/-- Applies the first rule whose suffix a word ends with; the word stays as it is when the rule
does not apply to its stem. -/
def applyFirst (w : Text) : List Rule → Text
  | [] => w
  | rule :: rest =>
    match without? rule.suffix w with
    | none => applyFirst w rest
    | some stem => if rule.applies stem then stem ++ rule.replacement else w

def Rule.above (bound : Nat) (suffix replacement : String) : Rule :=
  ⟨suffix.toList, replacement.toList, fun stem => bound < measure stem⟩

def plural (w : Text) : Text :=
  applyFirst w
    [⟨"sses".toList, "ss".toList, fun _ => true⟩, ⟨"ies".toList, "i".toList, fun _ => true⟩,
      ⟨"ss".toList, "ss".toList, fun _ => true⟩, ⟨"s".toList, [], fun _ => true⟩]

/-- Mends a stem that lost "ed" or "ing". -/
def mend (w : Text) : Text :=
  if ["at", "bl", "iz"].any fun suffix => suffix.toList.isSuffixOf w then w ++ ['e']
  else if endsDouble w && ["l", "s", "z"].all fun suffix => !suffix.toList.isSuffixOf w then
    w.dropLast
  else if measure w == 1 && endsShort w then w ++ ['e']
  else w

def participle (w : Text) : Text :=
  match without? "eed".toList w with
  | some stem => if 0 < measure stem then stem ++ "ee".toList else w
  | none =>
    match (without? "ed".toList w).or (without? "ing".toList w) with
    | some stem => if hasVowel stem then mend stem else w
    | none => w

/-- A final y after a vowel. -/
def finalY (w : Text) : Text :=
  match without? ['y'] w with
  | some stem => if hasVowel stem then stem ++ ['i'] else w
  | none => w

def doubleSuffixRules : List Rule :=
  [("ational", "ate"), ("tional", "tion"), ("enci", "ence"), ("anci", "ance"), ("izer", "ize"),
    ("abli", "able"), ("alli", "al"), ("entli", "ent"), ("eli", "e"), ("ousli", "ous"),
    ("ization", "ize"), ("ation", "ate"), ("ator", "ate"), ("alism", "al"), ("iveness", "ive"),
    ("fulness", "ful"), ("ousness", "ous"), ("aliti", "al"), ("iviti", "ive"),
    ("biliti", "ble")].map fun p => .above 0 p.1 p.2

/-- Suffixes that -ic-, -full and -ness leave. -/
def singleSuffixRules : List Rule :=
  [("icate", "ic"), ("ative", ""), ("alize", "al"), ("iciti", "ic"), ("ical", "ic"), ("ful", ""),
    ("ness", "")].map fun p => .above 0 p.1 p.2

def longStemRules : List Rule :=
  ["al", "ance", "ence", "er", "ic", "able", "ible", "ant", "ement", "ment", "ent"].map
      (.above 1 · "") ++
    ⟨"ion".toList, [], fun stem =>
        1 < measure stem && (stem.getLast? == some 's' || stem.getLast? == some 't')⟩ ::
    ["ou", "ism", "ate", "iti", "ous", "ive", "ize"].map (.above 1 · "")

def finalE (w : Text) : Text :=
  match without? ['e'] w with
  | some stem => if 1 < measure stem || measure stem == 1 && !endsShort stem then stem else w
  | none => w

def finalDoubleL (w : Text) : Text :=
  if 1 < measure w && endsDouble w && w.getLast? == some 'l' then w.dropLast else w

def reduce (w : Text) : Text :=
  let w := finalY (participle (plural w))
  let w := applyFirst w doubleSuffixRules
  let w := applyFirst w singleSuffixRules
  let w := applyFirst w longStemRules
  finalDoubleL (finalE w)

/-- The stem of a word. A word of one or two letters and one with anything else than lowercase
letters is its own stem. -/
def stem (w : Text) : Text :=
  if w.length ≤ 2 || !w.all Char.isLower then w else reduce w

end WordIndex.PorterStemmer
