import WordIndex.Proofs.LeafPostings
import WordIndex.Proofs.NameOrder
import WordIndex.Proofs.WrittenAnswers

/-! # A word that is shown, and a search for it

Both take a word to lower case, look for it among the stop words, and look it up in the form in which
words are indexed. What is shown of its postings is what its files get their scores from. -/
namespace WordIndex
open Outcome

namespace SearchConfig

/-- The form in which a word in lower case is looked up. -/
def indexed (c : SearchConfig) (word : Text) : Text :=
  if c.stemWords then PorterStemmer.stem word else word

theorem stemmer_evaluator (c : SearchConfig) (index : Store) :
    (c.evaluator index).stemmer = c.indexed := by
  funext word
  rw [evaluator, indexed]
  cases c.stemWords <;> rfl

end SearchConfig

namespace Request

variable {index : Store} {c : Contents} {config : SearchConfig} {separator : Text}

/-- The line of a posting, if the record of its file and the path in it can be read. -/
def postingLine (index : Store) (separator : Text) (p : Posting) : Except IndexFault Text := do
  let r ← index.fileRecord p.file
  let path ← index.filePath r
  return [Text.decimal p.occurrences, [' '], Text.decimal p.rank, separator, path, separator,
    Text.decimal r.size, separator, Utf8.lossy r.title, ['\n']].flatten

theorem writes_posting {p : Posting} {line : Text} (h : postingLine index separator p = .ok line) :
    (posting index [] separator p).Writes line.utf8 := by
  obtain ⟨r, hrecord, h⟩ := bind_eq_ok_iff.1 h
  obtain ⟨path, hpath, h⟩ := bind_eq_ok_iff.1 h
  obtain rfl := Except.ok.inj h
  rw [posting, hrecord]
  change (Answer.ofIndex (index.filePath r) _).Writes _
  rw [hpath]
  exact Answer.writes_ofTexts _

theorem posting_failsAfter {p : Posting} {fault : IndexFault}
    (h : postingLine index separator p = .error fault) :
    (posting index [] separator p).FailsAfter [] fault := by
  rcases bind_eq_error_iff.1 h with hrecord | ⟨r, hrecord, h⟩
  · rw [posting, hrecord]
    exact ⟨rfl, rfl⟩
  · rcases bind_eq_error_iff.1 h with hpath | ⟨path, -, h⟩
    · rw [posting, hrecord]
      change (Answer.ofIndex (index.filePath r) _).FailsAfter _ _
      rw [hpath]
      exact ⟨rfl, rfl⟩
    · cases h

/-- A line starts with the number of occurrences. -/
theorem exists_digit_of_postingLine {p : Posting} {line : Text}
    (h : postingLine index separator p = .ok line) :
    ∃ first rest, line = first :: rest ∧ first.isDigit := by
  obtain ⟨r, -, h⟩ := bind_eq_ok_iff.1 h
  obtain ⟨path, -, h⟩ := bind_eq_ok_iff.1 h
  obtain rfl := Except.ok.inj h
  cases hdigits : Text.decimal p.occurrences with
  | nil => exact absurd hdigits Nat.toDigits_ne_nil
  | cons first rest =>
    have hfirst : first ∈ Text.decimal p.occurrences := by simp [hdigits]
    exact ⟨first, _, rfl, Text.isDigit_of_mem_decimal hfirst⟩

theorem writes_each_posting {postings : List Posting} {lines : List Text}
    (h : postings.mapM (postingLine index separator) = .ok lines) :
    (Answer.each (posting index [] separator) postings).Writes (Text.utf8 lines.flatten) := by
  rw [Text.utf8_flatten]
  apply Answer.Writes.each
  rw [List.forall₂_map_right_iff]
  exact (mapM_eq_ok_iff.1 h).imp fun p line hline => writes_posting hline

theorem postings_of_decode {stream : Bytes} {ps : List Posting} (h : Postings.decode stream = .ok ps) :
    postings index [] separator stream = Answer.each (posting index [] separator) ps := by
  rw [postings, Postings.drain_of_decode h]
  exact Answer.andThen_empty _

/-- An answer shows postings: by a line for each of them and an empty line, or by the lines before the
first posting that has none and its fault. -/
inductive ShowsPostings (index : Store) (separator : Text) (a : Answer) : List Posting → Prop
  | whole {ps : List Posting} {lines : List Text}
      (hlines : ps.mapM (postingLine index separator) = .ok lines)
      (hwrites : a.Writes (Text.utf8 (lines.flatten ++ ['\n']))) : ShowsPostings index separator a ps
  | cut {before after : List Posting} {p : Posting} {lines : List Text} {fault : IndexFault}
      (hlines : before.mapM (postingLine index separator) = .ok lines)
      (hfault : postingLine index separator p = .error fault)
      (hfails : a.FailsAfter (Text.utf8 lines.flatten) fault) :
      ShowsPostings index separator a (before ++ p :: after)

theorem showsPostings_each (index : Store) (separator : Text) (ps : List Posting) :
    ShowsPostings index separator
      ((Answer.each (posting index [] separator) ps).andThen lineEnd) ps := by
  cases hlines : ps.mapM (postingLine index separator) with
  | ok lines =>
    apply ShowsPostings.whole hlines
    rw [Text.utf8_append]
    exact (writes_each_posting hlines).andThen writes_lineEnd
  | error fault =>
    obtain ⟨before, p, after, lines, rfl, hbefore, hp⟩ := exists_of_mapM_eq_error hlines
    apply ShowsPostings.cut hbefore hp
    rw [Answer.each_append]
    have hfails : (Answer.each (posting index [] separator) (p :: after)).FailsAfter [] fault :=
      (posting_failsAfter hp).andThen _
    have hjoined := (writes_each_posting hbefore).andThen_failsAfter hfails
    rw [List.append_nil] at hjoined
    exact hjoined.andThen _

/-- What shows postings starts with a digit or is an empty line, if it does not fail. -/
theorem ShowsPostings.not_writes {a : Answer} {ps : List Posting}
    (h : ShowsPostings index separator a ps) (t : Text) : ¬ a.Writes (Text.utf8 ('#' :: t)) := by
  intro hwrites'
  cases h with
  | cut _ _ hfails => exact hfails.not_writes hwrites'
  | @whole _ lines hlines hwrites =>
    have htext : lines.flatten ++ ['\n'] = '#' :: t := Text.utf8_injective (hwrites.eq hwrites')
    cases lines with
    | nil => cases htext
    | cons line rest =>
      obtain ⟨p, -, hline⟩ := exists_of_mem_right (mapM_eq_ok_iff.1 hlines) List.mem_cons_self
      obtain ⟨first, digits, rfl, hfirst⟩ := exists_digit_of_postingLine hline
      obtain ⟨rfl, -⟩ := List.cons.inj htext
      exact absurd hfirst (by decide)

variable {word : Text}

theorem dumpWord_of_stopWord (h : ReadsInOrder index c) (hstop : word.lowercase.utf8 ∈ c.stopWords) :
    dumpWord index config word = ignoredLine word := by
  rw [dumpWord, h.contains_eq, decide_eq_true hstop]
  rfl

theorem dumpWord_of_find? (h : ReadsInOrder index c) (hstop : word.lowercase.utf8 ∉ c.stopWords)
    {found? : Option Nat}
    (hfind : index.words.find? (config.indexed word.lowercase).utf8 = .ok found?) :
    dumpWord index config word = found?.elim (missingLine word) (wordPostings index config) := by
  rw [dumpWord, h.contains_eq, decide_eq_false hstop]
  change Answer.ofIndex (index.words.find? (config.indexed word.lowercase).utf8) _ = _
  rw [hfind]
  cases found? <;> rfl

theorem showsPostings_dumpWord (h : ReadsInOrder index c) (hstop : word.lowercase.utf8 ∉ c.stopWords)
    {ps : List Posting} (hkey : c.words.lookup (config.indexed word.lowercase).utf8 = some ps) :
    ShowsPostings index config.separator (dumpWord index config word) ps := by
  obtain ⟨i, entry, hfind, -, hentry, hdecode⟩ := h.exists_entry_of_lookup hkey
  rw [dumpWord_of_find? h hstop hfind, Option.elim_some, wordPostings, hentry]
  change ShowsPostings _ _ ((postings index [] config.separator entry.stream).andThen lineEnd) _
  rw [postings_of_decode hdecode]
  exact showsPostings_each index config.separator ps

end Request

namespace Evaluator

variable {e : Evaluator} {c : Contents} {word : Text}

theorem wordScores_of_stopWord (h : ReadsInOrder e.index c) (hstop : word.utf8 ∈ c.stopWords)
    (metaId? : Option Nat) : e.wordScores word metaId? = .noting (.stopWord word) .empty := by
  rw [wordScores, h.contains_eq, decide_eq_true hstop]
  rfl

theorem wordScores_of_missing (h : ReadsInOrder e.index c) (hstop : word.utf8 ∉ c.stopWords)
    (hkey : c.words.lookup (e.stemmer word).utf8 = none) (metaId? : Option Nat) :
    e.wordScores word metaId? = .ofResult (.ok .empty) := by
  rw [wordScores, h.contains_eq, decide_eq_false hstop, h.find?_of_lookup_none hkey]
  rfl

theorem wordScores_of_lookup (h : ReadsInOrder e.index c) (hstop : word.utf8 ∉ c.stopWords)
    {postings : List Posting} (hkey : c.words.lookup (e.stemmer word).utf8 = some postings)
    (hfiles : e.filesMax? = none) (hpercent : e.percentMax? = none) (metaId? : Option Nat) :
    e.wordScores word metaId? = .ofResult (.ok (RankMap.empty.addPostings metaId? postings)) := by
  obtain ⟨i, entry, hfind, -, hentry, hdecode⟩ := h.exists_entry_of_lookup hkey
  have hscores : e.wordScores word metaId? = e.entryScores word metaId? entry := by
    rw [wordScores, h.contains_eq, decide_eq_false hstop, hfind]
    simp only [Noted.ofResult_ok_bind, Bool.false_eq_true, if_false, hentry]
  have hnot : e.tooFrequent postings.length = false :=
    tooFrequent_eq_false (by simp [hfiles, hpercent]) _
  rw [hscores, entryScores_of_decode word metaId? hdecode, entryPostings, hnot]
  rfl

end Evaluator

namespace Request

variable {index : Store} {c : Contents} {config : SearchConfig} {word : Text}

/-- What is shown of a word agrees with the words that a search for it left out and with its scores. -/
structure SameFindings (index : Store) (c : Contents) (config : SearchConfig) (word : Text)
    (ignored : List Text) (scores : RankMap) : Prop where
  stopWord_iff : word.lowercase ∈ ignored ↔ word.lowercase.utf8 ∈ c.stopWords
  ignored_iff : (dumpWord index config word).Writes
      (Text.utf8 ("# ignored: ".toList ++ word ++ ['\n'])) ↔ word.lowercase ∈ ignored
  missing_iff : (dumpWord index config word).Writes
      (Text.utf8 ("# not found: ".toList ++ word ++ ['\n'])) ↔
    word.lowercase.utf8 ∉ c.stopWords ∧ c.words.lookup (config.indexed word.lowercase).utf8 = none
  missing : c.words.lookup (config.indexed word.lowercase).utf8 = none → scores = .empty
  found : ∀ ps, word.lowercase.utf8 ∉ c.stopWords →
    c.words.lookup (config.indexed word.lowercase).utf8 = some ps →
      ShowsPostings index config.separator (dumpWord index config word) ps ∧
        ∀ file, scores.get? file = Postings.scoreOf ps file

theorem writes_ignoredLine (word : Text) :
    (ignoredLine word).Writes (Text.utf8 ("# ignored: ".toList ++ word ++ ['\n'])) := by
  rw [List.append_assoc]
  exact Answer.writes_ofTexts _

theorem writes_missingLine (word : Text) :
    (missingLine word).Writes (Text.utf8 ("# not found: ".toList ++ word ++ ['\n'])) := by
  rw [List.append_assoc]
  exact Answer.writes_ofTexts _

theorem ignored_ne_missing (word : Text) :
    Text.utf8 ("# ignored: ".toList ++ word ++ ['\n']) ≠
      Text.utf8 ("# not found: ".toList ++ word ++ ['\n']) := by
  intro heq
  have htext := congrArg (·[2]?) (Text.utf8_injective heq)
  cases htext

variable (h : ReadsInOrder index c)
include h

theorem sameFindings_of_stopWord (hstop : word.lowercase.utf8 ∈ c.stopWords) :
    SameFindings index c config word [word.lowercase] .empty := by
  have hshown : dumpWord index config word = ignoredLine word := dumpWord_of_stopWord h hstop
  exact {
    stopWord_iff := iff_of_true List.mem_cons_self hstop
    ignored_iff := iff_of_true (hshown ▸ writes_ignoredLine word) List.mem_cons_self
    missing_iff := by
      refine iff_of_false (fun hwrites => ?_) fun hnot => hnot.1 hstop
      rw [hshown] at hwrites
      exact ignored_ne_missing word ((writes_ignoredLine word).eq hwrites)
    missing := fun _ => rfl
    found := fun ps hnot => absurd hstop hnot }

theorem sameFindings_of_missing (hstop : word.lowercase.utf8 ∉ c.stopWords)
    (hkey : c.words.lookup (config.indexed word.lowercase).utf8 = none) :
    SameFindings index c config word [] .empty := by
  have hshown : dumpWord index config word = missingLine word :=
    dumpWord_of_find? h hstop (h.find?_of_lookup_none hkey)
  exact {
    stopWord_iff := iff_of_false List.not_mem_nil hstop
    ignored_iff := by
      refine iff_of_false (fun hwrites => ?_) List.not_mem_nil
      rw [hshown] at hwrites
      exact ignored_ne_missing word (hwrites.eq (writes_missingLine word))
    missing_iff := iff_of_true (hshown ▸ writes_missingLine word) ⟨hstop, hkey⟩
    missing := fun _ => rfl
    found := by
      intro ps _ hps
      cases hkey.symm.trans hps }

theorem sameFindings_of_lookup (hstop : word.lowercase.utf8 ∉ c.stopWords) {ps : List Posting}
    (hkey : c.words.lookup (config.indexed word.lowercase).utf8 = some ps) :
    SameFindings index c config word [] (RankMap.empty.addPostings none ps) := by
  have hshown := showsPostings_dumpWord h hstop hkey
  exact {
    stopWord_iff := iff_of_false List.not_mem_nil hstop
    ignored_iff := iff_of_false (hshown.not_writes _) List.not_mem_nil
    missing_iff := by
      refine iff_of_false (hshown.not_writes _) fun hnot => ?_
      cases hkey.symm.trans hnot.2
    missing := by
      intro hnot
      cases hkey.symm.trans hnot
    found := by
      intro ps' _ hps
      obtain rfl := Option.some.inj (hkey.symm.trans hps)
      refine ⟨hshown, fun file => ?_⟩
      obtain ⟨i, entry, -, -, -, hdecode⟩ := h.exists_entry_of_lookup hkey
      have hnarrow (p : Posting) (hp : p ∈ ps) := Postings.narrow_of_decode hdecode hp
      have hall : ps.filter (fun p => (none : Option Nat).all p.hasMeta) = ps := by simp
      rw [Postings.get?_addPostings _ _ hnarrow, hall]
      exact none_addScores _ }

omit h

/-- Showing a word and searching for it without limits agree on an index that is in order. -/
theorem dumpWord_agrees_search (hread : index.contents = .ok c)
    (hwords : (c.words.map (·.1)).Pairwise (· ≤ ·)) (hstopWords : c.stopWords.Pairwise (· ≤ ·))
    (hfiles : config.filesMax? = none) (hpercent : config.percentMax? = none) (word : Text) :
    ∃ scores, ((config.evaluator index).search (.word word.lowercase)).result = .ok scores ∧
      SameFindings index c config word
        (ignoredWords ((config.evaluator index).search (.word word.lowercase)).notes) scores := by
  have h : ReadsInOrder index c := ⟨readsAs_of_contents hread, hwords, hstopWords⟩
  change ∃ scores, ((config.evaluator index).wordScores word.lowercase none).result = _ ∧
    SameFindings _ _ _ _ (ignoredWords ((config.evaluator index).wordScores word.lowercase none).notes) _
  have hindexed := congrFun (config.stemmer_evaluator index) word.lowercase
  by_cases hstop : word.lowercase.utf8 ∈ c.stopWords
  · rw [Evaluator.wordScores_of_stopWord h hstop]
    exact ⟨.empty, rfl, sameFindings_of_stopWord h hstop⟩
  · cases hkey : c.words.lookup (config.indexed word.lowercase).utf8 with
    | none =>
      rw [Evaluator.wordScores_of_missing h hstop (by rw [hindexed]; exact hkey)]
      exact ⟨.empty, rfl, sameFindings_of_missing h hstop hkey⟩
    | some ps =>
      rw [Evaluator.wordScores_of_lookup h hstop (by rw [hindexed]; exact hkey) hfiles hpercent]
      exact ⟨_, rfl, sameFindings_of_lookup h hstop hkey⟩

theorem dumpWord_agrees_search_threeFiles :
    ∃ index, Store.ofBytes Evaluator.threeFiles = .ok index ∧
      index.contents = .ok Evaluator.threeFilesContents ∧
      (Evaluator.threeFilesContents.words.map (·.1)).Pairwise (· ≤ ·) ∧
      Evaluator.threeFilesContents.stopWords.Pairwise (· ≤ ·) ∧
      ({ stemWords := true } : SearchConfig).filesMax? = none ∧
      ({ stemWords := true } : SearchConfig).percentMax? = none ∧
      ∃ scores, ((SearchConfig.evaluator { stemWords := true } index).search
          (.word (Text.lowercase "Cats".toList))).result = .ok scores ∧
        SameFindings index Evaluator.threeFilesContents { stemWords := true } "Cats".toList
          (ignoredWords ((SearchConfig.evaluator { stemWords := true } index).search
            (.word (Text.lowercase "Cats".toList))).notes) scores := by
  have hcontents : (Store.ofBytes Evaluator.threeFiles >>= Store.contents) =
      .ok Evaluator.threeFilesContents := by
    decide +kernel
  obtain ⟨index, hopen, hread⟩ := bind_eq_ok_iff.1 hcontents
  have hsorted : Evaluator.threeFilesContents.Sorted := by decide +kernel
  have hwords := hsorted.words.imp fun hlt => List.le_of_lt hlt
  have hstopWords := hsorted.stopWords.imp fun hlt => List.le_of_lt hlt
  exact ⟨index, hopen, hread, hwords, hstopWords, rfl, rfl,
    dumpWord_agrees_search hread hwords hstopWords rfl rfl _⟩

/-- An index of one file with a word that refers to the file and to one that is not there. -/
def strayPosting : PerSegment (List Bytes) where
  words := [[99, 97, 116, 0] ++ [0, 1, 3, 0] ++ [1, 1, 2, 128]]
  stopWords := []
  directories := [[47, 0]]
  files := [[0, 97, 0, 1, 65, 0]]
  metaNames := []

/-- A search gives a score to a file that is not there, while the word is shown up to its posting. -/
theorem exists_posting_without_line :
    ∃ index, Store.ofBytes (IndexBuilder.layOut strayPosting.toList) = .ok index ∧
      ∃ c, index.contents = .ok c ∧ c.Sorted ∧
        c.words.lookup [99, 97, 116] = some [⟨0, 1, 3, [], []⟩, ⟨1, 1, 2, [], []⟩] ∧
        (∃ path, (index.fileRecord 0 >>= index.filePath) = .ok path ∧ path = "/a".toList) ∧
        (∃ scores, (SearchConfig.evaluator {} index |>.search (.word "cat".toList)).result = .ok scores ∧
          scores.get? 1 = some ⟨2, 1⟩) ∧
        (dumpWord index {} "cat".toList).bytes = Text.utf8 "1 3 /a 1 A\n".toList ∧
        (dumpWord index {} "cat".toList).failure? =
          some (.index (.entryOutOfRange .files 1 1)) := by
  decide +kernel

end Request

end WordIndex
