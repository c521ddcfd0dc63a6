import Mathlib.Data.List.DropRight
import WordIndex.QueryToken
import WordIndex.Proofs.JoinedLine

/-! # Tokens that are read back from how they are shown

A token is a sign, a word or a word with a star after it. A word has no delimiter in it and an
alphanumeric character at either end. In front of a delimiter a token that is shown is read back. -/
namespace WordIndex

/-- No number in one of some ranges is in one of some others. -/
theorem inRanges_eq_false_of_inRanges {ranges others : List (Nat × Nat)} {n : Nat}
    (h : ∀ range ∈ ranges, ∀ i < range.2 + 1 - range.1, inRanges others (range.1 + i) = false)
    (hn : inRanges ranges n) : inRanges others n = false := by
  induction ranges with
  | nil => cases hn
  | cons range rest ih =>
    obtain ⟨hrange, hrest⟩ := List.forall_mem_cons.1 h
    rw [inRanges] at hn
    split at hn
    · cases hn
    · next hfirst =>
      split at hn
      · next hlast =>
        have hin := hrange (n - range.1) (by omega)
        rwa [Nat.add_sub_cancel' (by omega)] at hin
      · exact ih hrest hn

theorem isAlphanumeric_eq_false_of_isBlank {c : Char} (h : isBlank c) : isAlphanumeric c = false :=
  inRanges_eq_false_of_inRanges (by decide +kernel) h

namespace Token

variable {s rest : Text} {t : Token}

/-! ## Readings of all tokens -/

theorem readAll_of_finished (h : read s = .finished) : readAll s = ([], none) := by
  rw [readAll]
  split <;> simp_all

theorem readAll_of_refused {fault : QueryFault} (h : read s = .refused fault rest) :
    readAll s = ([], some fault) := by
  rw [readAll]
  split <;> simp_all

theorem readAll_of_token (h : read s = .token t rest) :
    readAll s = (t :: (readAll rest).1, (readAll rest).2) := by
  rw [readAll]
  split <;> simp_all

theorem read_nil : read [] = .finished := by rw [read]

theorem read_blank {c : Char} (h : isBlank c) : read (c :: rest) = read rest := by
  rw [read, if_pos h]

theorem readAll_congr {s' : Text} (h : read s = read s') : readAll s = readAll s' := by
  cases hread : read s' with
  | finished => rw [readAll_of_finished hread, readAll_of_finished (h.trans hread)]
  | token t rest => rw [readAll_of_token hread, readAll_of_token (h.trans hread)]
  | refused fault rest => rw [readAll_of_refused hread, readAll_of_refused (h.trans hread)]

theorem readAll_blank {c : Char} (h : isBlank c) (rest : Text) :
    readAll (c :: rest) = readAll rest :=
  readAll_congr (read_blank h)

/-! ## Words -/

/-- A text that can be a word of a query. -/
structure IsWord (w : Text) : Prop where
  ne_nil : w ≠ []
  first : ∀ c ∈ w.head?, isAlphanumeric c
  last : ∀ c ∈ w.getLast?, isAlphanumeric c
  noDelimiter : ∀ c ∈ w, isDelimiter c = false

theorem core_eq_rdropWhile (run : Text) :
    core run = (run.dropWhile (!isAlphanumeric ·)).rdropWhile (!isAlphanumeric ·) := rfl

/-- A run is its core between characters that are not alphanumeric. -/
theorem exists_eq_core_append (run : Text) : ∃ front back, run = front ++ core run ++ back ∧
    (∀ c ∈ front, isAlphanumeric c = false) ∧ ∀ c ∈ back, isAlphanumeric c = false := by
  refine ⟨run.takeWhile (!isAlphanumeric ·),
    (run.dropWhile (!isAlphanumeric ·)).rtakeWhile (!isAlphanumeric ·), ?_, ?_, ?_⟩
  · rw [core_eq_rdropWhile, List.append_assoc, List.rdropWhile_append_rtakeWhile,
      List.takeWhile_append_dropWhile]
  · exact fun c hc => by simpa using List.mem_takeWhile_imp hc
  · exact fun c hc => by simpa using List.mem_rtakeWhile_imp hc

theorem isWord_core {run : Text} (h : ∀ c ∈ run, isDelimiter c = false) (hne : core run ≠ []) :
    IsWord (core run) where
  ne_nil := hne
  first c hc := by
    obtain ⟨back, hback⟩ : core run <+: run.dropWhile (!isAlphanumeric ·) := List.rdropWhile_prefix _ _
    have hhead := List.head?_dropWhile_not (!isAlphanumeric ·) run
    rw [← hback, List.head?_append_of_ne_nil _ hne, Option.mem_def.1 hc] at hhead
    simpa using hhead
  last c hc := by
    have hlast : ¬ (!isAlphanumeric ((core run).getLast hne)) = true :=
      List.rdropWhile_last_not (!isAlphanumeric ·) _ hne
    obtain rfl : (core run).getLast hne = c := by
      simpa [List.getLast?_eq_getLast_of_ne_nil hne] using hc
    simpa using hlast
  noDelimiter c hc := by
    obtain ⟨front, back, heq, -⟩ := exists_eq_core_append run
    exact h c (by rw [heq]; simp [hc])

theorem IsWord.core_eq {w : Text} (h : IsWord w) : core w = w := by
  obtain ⟨c, rest, rfl⟩ := List.exists_cons_of_ne_nil h.ne_nil
  have hfirst : (c :: rest).dropWhile (!isAlphanumeric ·) = c :: rest :=
    List.dropWhile_cons_of_neg (by simpa using h.first c rfl)
  rw [core_eq_rdropWhile, hfirst, List.rdropWhile_eq_self_iff]
  intro hne
  simpa using h.last _ (List.getLast?_eq_getLast_of_ne_nil hne)

/-! ## What a text starts with -/

theorem kindOfSign_eq_some {c : Char} {kind : TokenKind} (h : kindOfSign c = some kind) :
    c = '(' ∧ kind = .openParen ∨ c = ')' ∧ kind = .closeParen ∨ c = '=' ∧ kind = .equals := by
  rw [kindOfSign] at h
  split at h
  · next hc => exact .inl ⟨hc, (Option.some.inj h).symm⟩
  · split at h
    · next hc => exact .inr (.inl ⟨hc, (Option.some.inj h).symm⟩)
    · split at h
      · next hc => exact .inr (.inr ⟨hc, (Option.some.inj h).symm⟩)
      · cases h

theorem ne_starredWord_of_sign {c : Char} {kind : TokenKind} (h : kindOfSign c = some kind) :
    kind ≠ .starredWord := by
  rcases kindOfSign_eq_some h with ⟨-, rfl⟩ | ⟨-, rfl⟩ | ⟨-, rfl⟩ <;> nofun

theorem isBlank_eq_false_of_sign {c : Char} {kind : TokenKind} (h : kindOfSign c = some kind) :
    isBlank c = false := by
  rcases kindOfSign_eq_some h with ⟨rfl, -⟩ | ⟨rfl, -⟩ | ⟨rfl, -⟩ <;> decide

theorem isDelimiter_eq_false_iff {c : Char} :
    isDelimiter c = false ↔ isBlank c = false ∧ kindOfSign c = none ∧ c ≠ '*' := by
  rw [kindOfSign, isDelimiter]
  by_cases hopen : c = '('
  · simp [hopen]
  · by_cases hclose : c = ')'
    · simp [hclose]
    · by_cases hequals : c = '='
      · simp [hequals]
      · simp [hopen, hclose, hequals]

/-- Characters between two delimiters. -/
structure IsRun (run : Text) : Prop where
  ne_nil : run ≠ []
  noDelimiter : ∀ c ∈ run, isDelimiter c = false

/-- A text that ends a run before it and puts no star to it. -/
def EndsRun (after : Text) : Prop := ∀ c ∈ after.head?, isDelimiter c ∧ c ≠ '*'

theorem IsWord.isRun {w : Text} (h : IsWord w) : IsRun w := ⟨h.ne_nil, h.noDelimiter⟩

theorem endsRun_nil : EndsRun [] := nofun

theorem endsRun_cons {c : Char} (h : isDelimiter c) (hstar : c ≠ '*') : EndsRun (c :: rest) := by
  intro a ha
  obtain rfl := Option.some.inj ha
  exact ⟨h, hstar⟩

theorem endsRun_blank {c : Char} (h : isBlank c) : EndsRun (c :: rest) := by
  refine endsRun_cons (by simp [isDelimiter, h]) ?_
  rintro rfl
  exact absurd h (by decide)

theorem endsRun_sign {c : Char} {kind : TokenKind} (h : kindOfSign c = some kind) :
    EndsRun (c :: rest) := by
  rcases kindOfSign_eq_some h with ⟨rfl, -⟩ | ⟨rfl, -⟩ | ⟨rfl, -⟩ <;>
    exact endsRun_cons (by decide) (by decide)

/-- Texts are made of white space, signs, stray stars, runs with a star and other runs. -/
@[elab_as_elim]
theorem text_induction {motive : Text → Prop} (nil : motive [])
    (blank : ∀ {c : Char} {rest : Text}, isBlank c → motive rest → motive (c :: rest))
    (sign : ∀ {c : Char} {kind : TokenKind} {rest : Text}, kindOfSign c = some kind → motive rest →
      motive (c :: rest))
    (star : ∀ {rest : Text}, motive ('*' :: rest))
    (starred : ∀ {run rest : Text}, IsRun run → motive rest → motive (run ++ '*' :: rest))
    (run : ∀ {run after : Text}, IsRun run → EndsRun after → motive after → motive (run ++ after))
    (s : Text) : motive s := by
  induction hlength : s.length using Nat.strongRecOn generalizing s with
  | ind n ih =>
    subst hlength
    cases s with
    | nil => exact nil
    | cons c rest =>
      by_cases hblank : isBlank c
      · exact blank hblank (ih _ (Nat.lt_succ_self _) rest rfl)
      cases hsign : kindOfSign c with
      | some kind => exact sign hsign (ih _ (Nat.lt_succ_self _) rest rfl)
      | none =>
        by_cases hstar : c = '*'
        · exact hstar ▸ star
        have hc : isDelimiter c = false :=
          isDelimiter_eq_false_iff.2 ⟨eq_false_of_ne_true hblank, hsign, hstar⟩
        obtain ⟨piece, after, heq, hne, hspan, hlength, hafter⟩ :=
          Text.exists_span (p := (!isDelimiter ·)) (by rw [hc]; rfl) rest
        have hpiece : IsRun piece := ⟨hne, fun a ha => by simpa using hspan a ha⟩
        rw [heq]
        cases after with
        | nil => exact run hpiece endsRun_nil nil
        | cons a tail =>
          rw [List.length_cons] at hlength
          by_cases ha : a = '*'
          · subst ha
            exact starred hpiece (ih _ (by rw [List.length_cons]; omega) tail rfl)
          · exact run hpiece (endsRun_cons (by simpa using hafter a rfl) ha)
              (ih _ (by rw [List.length_cons, List.length_cons]; omega) _ rfl)

/-! ## The next token of a text -/

theorem read_sign {c : Char} {kind : TokenKind} (h : kindOfSign c = some kind) (rest : Text) :
    read (c :: rest) = .token (ofText kind [c]) rest := by
  rw [read, if_neg (by simp [isBlank_eq_false_of_sign h]), h]

theorem read_star (rest : Text) : read ('*' :: rest) = .refused .strayStar ('*' :: rest) := by
  have hblank : ¬ isBlank '*' := by decide
  have hsign : kindOfSign '*' = none := by decide
  rw [read, if_neg hblank, hsign]
  exact if_pos rfl

/-- A run is read up to a delimiter. -/
theorem read_append {run after : Text} (h : IsRun run) (hafter : ∀ c ∈ after.head?, isDelimiter c) :
    read (run ++ after) =
      if after.head? = some '*' then
        if core run = [] then .refused (.starWithoutWord run) after.tail
        else .token (ofText .starredWord (core run)) after.tail
      else if core run = [] then read after
      else .token (ofText (kindOfWord (core run).lowercase) (core run)) after := by
  obtain ⟨c, others, rfl⟩ := List.exists_cons_of_ne_nil h.ne_nil
  obtain ⟨hc, hothers⟩ := List.forall_mem_cons.1 h.noDelimiter
  obtain ⟨hblank, hsign, hstar⟩ := isDelimiter_eq_false_iff.1 hc
  obtain ⟨htake, hdrop⟩ : (others ++ after).takeWhile (!isDelimiter ·) = others ∧
      (others ++ after).dropWhile (!isDelimiter ·) = after :=
    Text.span_append (fun a ha => by rw [hothers a ha]; rfl) fun a ha => by rw [hafter a ha]; rfl
  rw [List.cons_append, read, if_neg (by simp [hblank]), hsign, htake, hdrop]
  exact if_neg hstar

theorem read_starred {run : Text} (h : IsRun run) (rest : Text) : read (run ++ '*' :: rest) =
    if core run = [] then .refused (.starWithoutWord run) rest
    else .token (ofText .starredWord (core run)) rest := by
  rw [read_append h (by simp [isDelimiter])]
  exact if_pos rfl

theorem read_run {run after : Text} (h : IsRun run) (hafter : EndsRun after) : read (run ++ after) =
    if core run = [] then read after
    else .token (ofText (kindOfWord (core run).lowercase) (core run)) after := by
  have hstar : after.head? ≠ some '*' := fun hhead => (hafter _ hhead).2 rfl
  rw [read_append h (fun c hc => (hafter c hc).1), if_neg hstar]

/-! ## Tokens that are read -/

/-- The tokens that queries are read into. -/
inductive Proper : Token → Prop
  | sign {c : Char} {kind : TokenKind} (h : kindOfSign c = some kind) : Proper (ofText kind [c])
  | starred {w : Text} (h : IsWord w) : Proper (ofText .starredWord w)
  | word {w : Text} (h : IsWord w) : Proper (ofText (kindOfWord w.lowercase) w)

theorem kindOfWord_ne_starredWord (lower : Text) : kindOfWord lower ≠ .starredWord := by
  rw [kindOfWord]
  split
  · nofun
  · split
    · nofun
    · split <;> nofun

theorem shown_ofText {kind : TokenKind} (h : kind ≠ .starredWord) (text : Text) :
    (ofText kind text).shown = text := if_neg h

theorem proper_of_read (h : read s = .token t rest) : Proper t := by
  induction s using text_induction with
  | nil => simp [read] at h
  | blank hblank ih => exact ih (by rwa [read_blank hblank] at h)
  | sign hsign =>
    rw [read_sign hsign] at h
    cases h
    exact .sign hsign
  | star =>
    rw [read_star] at h
    cases h
  | starred hrun =>
    rw [read_starred hrun] at h
    split at h
    · cases h
    · next hne =>
      cases h
      exact .starred (isWord_core hrun.noDelimiter hne)
  | run hrun hafter ih =>
    rw [read_run hrun hafter] at h
    split at h
    · exact ih h
    · next hne =>
      cases h
      exact .word (isWord_core hrun.noDelimiter hne)

theorem proper_of_mem_readAll (h : t ∈ (readAll s).1) : Proper t := by
  fun_induction readAll s with
  | case1 | case2 => cases h
  | case3 s u rest hread others ih =>
    rcases List.mem_cons.1 h with rfl | h
    · exact proper_of_read hread
    · exact ih h

/-- A token that is shown is read back unless what follows it could belong to it. -/
theorem read_shown_append (h : Proper t) (hrest : EndsRun rest) :
    read (t.shown ++ rest) = .token t rest := by
  cases h with
  | @sign c kind hsign =>
    rw [shown_ofText (ne_starredWord_of_sign hsign)]
    exact read_sign hsign rest
  | @starred w hword =>
    have hshown : (ofText .starredWord w).shown ++ rest = w ++ '*' :: rest :=
      List.append_assoc w ['*'] rest
    rw [hshown, read_starred hword.isRun, hword.core_eq, if_neg hword.ne_nil]
  | @word w hword =>
    rw [shown_ofText (kindOfWord_ne_starredWord _), read_run hword.isRun hrest, hword.core_eq,
      if_neg hword.ne_nil]

end Token

end WordIndex
