import WordIndex.Proofs.TokenReading

/-! # What is read of a query is all that matters in it

Of a query that is read to its end the tokens hold every alphanumeric character and every sign and
star, in order, and from the tokens the same tokens are read again. -/
namespace WordIndex.Token

/-- A character that is never left out when a query is read. -/
def isKept (c : Char) : Bool := isAlphanumeric c || c == '(' || c == ')' || c == '=' || c == '*'

theorem isKept_eq_false_of_isBlank {c : Char} (h : isBlank c) : isKept c = false := by
  have hne {sign : Char} (hsign : isBlank sign = false) : (c == sign) = false := by
    rw [beq_eq_false_iff_ne]
    rintro rfl
    rw [h] at hsign
    cases hsign
  rw [isKept, isAlphanumeric_eq_false_of_isBlank h, hne (by decide), hne (by decide),
    hne (by decide), hne (by decide)]
  rfl

theorem isKept_eq_false_of_isDelimiter_eq_false {c : Char} (h : isDelimiter c = false)
    (hc : isAlphanumeric c = false) : isKept c = false := by
  simp only [isDelimiter, Bool.or_eq_false_iff] at h
  simp [isKept, hc, h]

/-- What is cut off at the ends of a run does not matter. -/
theorem filter_core {run : Text} (h : IsRun run) : (core run).filter isKept = run.filter isKept := by
  obtain ⟨front, back, heq, hfront, hback⟩ := exists_eq_core_append run
  have hnone {part : Text} (hpart : ∀ c ∈ part, c ∈ run ∧ isAlphanumeric c = false) :
      part.filter isKept = [] :=
    List.filter_eq_nil_iff.2 fun c hc => by
      rw [isKept_eq_false_of_isDelimiter_eq_false (h.noDelimiter c (hpart c hc).1) (hpart c hc).2]
      exact Bool.false_ne_true
  have hfront' : front.filter isKept = [] :=
    hnone fun c hc => ⟨by rw [heq]; simp [hc], hfront c hc⟩
  have hback' : back.filter isKept = [] :=
    hnone fun c hc => ⟨by rw [heq]; simp [hc], hback c hc⟩
  conv_rhs => rw [heq, List.filter_append, List.filter_append, hfront', hback']
  rw [List.nil_append, List.append_nil]

/-- The tokens of a text that is read to its end hold all of it that matters. -/
theorem filter_shown_readAll {s : Text} (h : (readAll s).2 = none) :
    ((readAll s).1.flatMap shown).filter isKept = s.filter isKept := by
  induction s using text_induction with
  | nil => rw [readAll_of_finished read_nil]; rfl
  | @blank c rest hblank ih =>
    rw [readAll_blank hblank] at h ⊢
    rw [ih h, List.filter_cons_of_neg]
    simp [isKept_eq_false_of_isBlank hblank]
  | @sign c kind rest hsign ih =>
    rw [readAll_of_token (read_sign hsign rest)] at h ⊢
    rw [List.flatMap_cons, List.filter_append, ih h, shown_ofText (ne_starredWord_of_sign hsign)]
    exact (List.filter_append [c] rest).symm
  | star =>
    rw [readAll_of_refused (read_star _)] at h
    cases h
  | @starred run rest hrun ih =>
    have hread := read_starred hrun rest
    split at hread
    · rw [readAll_of_refused hread] at h
      cases h
    · have hshown : (ofText .starredWord (core run)).shown = core run ++ ['*'] := rfl
      rw [readAll_of_token hread] at h ⊢
      rw [List.flatMap_cons, List.filter_append, ih h, hshown, List.filter_append, filter_core hrun,
        List.append_assoc, List.filter_append, ← List.filter_append ['*']]
      rfl
  | @run run after hrun hafter ih =>
    have hread := read_run hrun hafter
    rw [List.filter_append, ← filter_core hrun]
    split at hread
    · next hcore =>
      rw [readAll_congr hread] at h ⊢
      rw [ih h, hcore]
      rfl
    · rw [readAll_of_token hread] at h ⊢
      rw [List.flatMap_cons, List.filter_append, ih h, shown_ofText (kindOfWord_ne_starredWord _)]

/-- Tokens that are shown with spaces between them are read again. -/
theorem readAll_join_shown {tokens : List Token} (h : ∀ t ∈ tokens, Proper t) :
    readAll (Text.join [' '] (tokens.map shown)) = (tokens, none) := by
  induction tokens with
  | nil => exact readAll_of_finished read_nil
  | cons t rest ih =>
    obtain ⟨ht, hrest⟩ := List.forall_mem_cons.1 h
    cases rest with
    | nil =>
      have hread : read (t.shown ++ []) = .token t [] := read_shown_append ht endsRun_nil
      rw [List.append_nil] at hread
      rw [List.map_singleton, Text.join, List.intercalate_singleton, readAll_of_token hread,
        readAll_of_finished read_nil]
    | cons next rest =>
      have hspace : isBlank ' ' := by decide
      rw [List.map_cons, List.map_cons, Text.join_cons_cons,
        readAll_of_token (read_shown_append ht (endsRun_blank hspace)), readAll_blank hspace,
        ← List.map_cons, ih hrest]

theorem isWord_text_of_proper {t : Token} (h : Proper t)
    (hkind : t.kind ∉ [.openParen, .closeParen, .equals]) : IsWord t.text := by
  cases h with
  | @sign c kind hsign =>
    have hkind : kind ∉ [.openParen, .closeParen, .equals] := hkind
    rcases kindOfSign_eq_some hsign with ⟨-, rfl⟩ | ⟨-, rfl⟩ | ⟨-, rfl⟩ <;> simp at hkind
  | starred hword => exact hword
  | word hword => exact hword

/-- In a query that is read to its end the text of a word, with or without a star, and of an operator
is not empty, begins and ends with an alphanumeric character and holds no delimiter. The tokens as
they are shown hold the alphanumeric characters, signs and stars of the query, in its order. Shown
with spaces between them they are read again as they are. -/
theorem readAll_texts {query : Text} {tokens : List Token} (h : readAll query = (tokens, none)) :
    (∀ t ∈ tokens, t.kind ∉ [.openParen, .closeParen, .equals] → IsWord t.text) ∧
      (tokens.flatMap shown).filter isKept = query.filter isKept ∧
      readAll (Text.join [' '] (tokens.map shown)) = (tokens, none) := by
  obtain rfl : (readAll query).1 = tokens := by rw [h]
  have hproper : ∀ t ∈ (readAll query).1, Proper t := fun t ht => proper_of_mem_readAll ht
  exact ⟨fun t ht => isWord_text_of_proper (hproper t ht), filter_shown_readAll (by rw [h]),
    readAll_join_shown hproper⟩

/-- A query with punctuation that is cut off, kept and passed over. -/
def punctuated : Text := "  -Cats,(TITLE = x-y*) -- Or 'not'".toList

theorem readAll_texts_punctuated : readAll punctuated = ((readAll punctuated).1, none) ∧
    (∀ t ∈ (readAll punctuated).1, t.kind ∉ [.openParen, .closeParen, .equals] → IsWord t.text) ∧
    ((readAll punctuated).1.flatMap shown).filter isKept = "Cats(TITLE=xy*)Ornot".toList ∧
    readAll "Cats ( TITLE = x-y* ) Or not".toList = readAll punctuated := by
  have hread : readAll punctuated = ((readAll punctuated).1, none) := by decide +kernel
  have hkept : punctuated.filter isKept = "Cats(TITLE=xy*)Ornot".toList := by decide +kernel
  have hshown : Text.join [' '] ((readAll punctuated).1.map shown) =
      "Cats ( TITLE = x-y* ) Or not".toList := by
    decide +kernel
  obtain ⟨hwords, hfilter, hagain⟩ := readAll_texts hread
  rw [hkept] at hfilter
  rw [hshown] at hagain
  exact ⟨hread, hwords, hfilter, hagain.trans hread.symm⟩

end WordIndex.Token
