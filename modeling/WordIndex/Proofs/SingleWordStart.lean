import WordIndex.RankedResults
import WordIndex.Proofs.LeafPostings
import WordIndex.Proofs.QueryContext

/-! # A start that one word has is that word

Both halvings for the start and the one for the word end at the same entry, and from there on the same
postings are read, whether they can be or not. -/
namespace WordIndex

namespace Segment

variable {s : Segment} {keys : List Bytes}

/-- The only entry that starts with some bytes makes up their range and is found as itself. -/
theorem exists_startingWith_find? (h : s.Reads keys) (hsorted : keys.Pairwise (· < ·))
    {start key : Bytes} (hone : (keys.filter fun entry => decide (start <+: entry)) = [key]) :
    ∃ i, s.startingWith start = .ok (i, i + 1) ∧ s.find? key = .ok (some i) := by
  have hle : keys.Pairwise (· ≤ ·) := hsorted.imp fun hlt => List.le_of_lt hlt
  obtain ⟨first, stop, hrange, hfirst, hstop, hstarts⟩ := startingWith_eq_ok h hle start
  rw [filter_eq_take_drop fun i entry hentry => decide_eq_true_iff.trans (hstarts i entry hentry)] at hone
  have hlength : stop = first + 1 := by
    have hlength := congrArg List.length hone
    rw [List.length_take, List.length_drop, List.length_singleton] at hlength
    omega
  have hkey : keys[first]? = some key := by
    have hget := congrArg (·[0]?) hone
    simpa [hlength] using hget
  obtain ⟨hlt, hsame⟩ := List.getElem?_eq_some_iff.1 hkey
  refine ⟨first, hlength ▸ hrange, ?_⟩
  rw [find?_eq_idxOf? h hle, List.idxOf?_eq_some_iff.2 ⟨hlt, hsame, fun j hj heq => ?_⟩]
  have hless := List.pairwise_iff_getElem.1 hsorted j first (by omega) hlt hj
  rw [heq, hsame] at hless
  exact List.lt_irrefl _ hless

end Segment

namespace Evaluator

variable {e : Evaluator} {keys : List Bytes} {start word : Text}

/-- The postings of the only word that has a start are those of the start, and without limits they are
searched for. -/
theorem wordPostings_eq_startPostings (hwords : e.index.words.Reads keys)
    (hsorted : keys.Pairwise (· < ·))
    (hone : (keys.filter fun key => decide (start.utf8 <+: key)) = [word.utf8])
    (hstop : e.index.stopWords.contains word.utf8 = .ok false) (hfiles : e.filesMax? = none)
    (hpercent : e.percentMax? = none) (hstem : e.stemmer word = word) :
    e.wordPostings word = .ofResult (e.startPostings start) := by
  obtain ⟨i, hrange, hfind⟩ := Segment.exists_startingWith_find? hwords hsorted hone
  have hstart : e.startPostings start = (e.index.wordWithPostings i).map (·.2) := by
    rw [startPostings, hrange]
    change ((List.range' i (i + 1 - i)).mapM e.index.wordWithPostings >>= _) = _
    rw [Nat.add_sub_cancel_left, List.range'_one, List.mapM_cons, List.mapM_nil]
    cases e.index.wordWithPostings i with
    | error fault => rfl
    | ok entry => exact congrArg Except.ok (List.append_nil entry.2)
  rw [wordPostings, hstop, Noted.ofResult_ok_bind, if_neg Bool.false_ne_true, hstem, hfind,
    Noted.ofResult_ok_bind, hstart]
  dsimp only
  cases e.index.wordWithPostings i with
  | error fault => rfl
  | ok entry =>
    have hlimits : ¬ (e.filesMax?.isSome || e.percentMax?.isSome) := by
      rw [hfiles, hpercent]
      exact Bool.false_ne_true
    change e.entryPostings word entry.2 = _
    rw [entryPostings, tooFrequent_eq_false hlimits]
    rfl

/-- A start that one word has can be replaced by that word wherever it stands in a query, if the word
is searched for as it is: the same files are found and shown, the same words are ignored, and the same
fault is met. -/
theorem startingWith_eq_word_everywhere (hwords : e.index.words.Reads keys)
    (hsorted : keys.Pairwise (· < ·))
    (hone : (keys.filter fun key => decide (start.utf8 <+: key)) = [word.utf8])
    (hstop : e.index.stopWords.contains word.utf8 = .ok false) (hfiles : e.filesMax? = none)
    (hpercent : e.percentMax? = none) (hstem : e.stemmer word = word) (context : QueryContext) :
    (∀ metaId?, e.evaluate (context.fill (.startingWith start)) metaId? =
      e.evaluate (context.fill (.word word)) metaId?) ∧
    (e.search (context.fill (.startingWith start))).result =
      (e.search (context.fill (.word word))).result ∧
    ignoredWords (e.search (context.fill (.startingWith start))).notes =
      ignoredWords (e.search (context.fill (.word word))).notes ∧
    ∀ skip limit, (e.search (context.fill (.startingWith start))).result.map (·.results skip limit) =
      (e.search (context.fill (.word word))).result.map (·.results skip limit) := by
  have hleaf (metaId? : Option Nat) :
      e.evaluate (.startingWith start) metaId? = e.evaluate (.word word) metaId? := by
    rw [evaluate, evaluate, startScores_eq, wordScores_eq,
      wordPostings_eq_startPostings hwords hsorted hone hstop hfiles hpercent hstem]
    rfl
  have hfill := evaluate_fill hleaf context
  have hsearch : e.search (context.fill (.startingWith start)) = e.search (context.fill (.word word)) :=
    hfill none
  refine ⟨hfill, ?_⟩
  rw [hsearch]
  exact ⟨rfl, rfl, fun _ _ => rfl⟩

/-- The postings of the word are broken off, which is met in titles behind a stop word. -/
theorem startingWith_eq_word_everywhere_brokenPostings :
    ∃ e : Evaluator, Store.ofBytes brokenPostings = .ok e.index ∧
      e.index.words.Reads [[97, 110, 116], [99, 97, 116]] ∧
      ([[97, 110, 116], [99, 97, 116]] : List Bytes).Pairwise (· < ·) ∧
      (([[97, 110, 116], [99, 97, 116]] : List Bytes).filter fun key =>
        decide (Text.utf8 ['c'] <+: key)) = [Text.utf8 "cat".toList] ∧
      e.index.stopWords.contains (Text.utf8 "cat".toList) = .ok false ∧ e.filesMax? = none ∧
      e.percentMax? = none ∧ e.stemmer "cat".toList = "cat".toList ∧
      ignoredWords (e.search (.both (.word "the".toList)
        (.within "title".toList (.startingWith ['c'])))).notes = ["the".toList] ∧
      (e.search (.both (.word "the".toList)
        (.within "title".toList (.startingWith ['c'])))).result = .error (.unknownMarker 7) := by
  obtain ⟨index, hopen, hwords, hstop, hignored, hfault⟩ :
      ∃ index, Store.ofBytes brokenPostings = .ok index ∧
        let found := search { index } (.both (.word "the".toList)
          (.within "title".toList (.word "cat".toList)))
        index.words.strings = [[97, 110, 116], [99, 97, 116]].map .ok ∧
          index.stopWords.contains (Text.utf8 "cat".toList) = .ok false ∧
          ignoredWords found.notes = ["the".toList] ∧
          Outcome.error? found.result = some (.unknownMarker 7) := by
    decide +kernel
  have hsorted : ([[97, 110, 116], [99, 97, 116]] : List Bytes).Pairwise (· < ·) := by decide
  have hone : (([[97, 110, 116], [99, 97, 116]] : List Bytes).filter fun key =>
      decide (Text.utf8 ['c'] <+: key)) = [Text.utf8 "cat".toList] := by decide +kernel
  obtain ⟨-, hresult, hnotes, -⟩ := startingWith_eq_word_everywhere (e := { index }) hwords hsorted hone
    hstop rfl rfl rfl (.bothRight (.word "the".toList) (.within "title".toList .hole))
  exact ⟨{ index }, hopen, hwords, hsorted, hone, hstop, rfl, rfl, rfl, hnotes.trans hignored,
    hresult.trans (Outcome.error?_eq_some_iff.1 hfault)⟩

end Evaluator

end WordIndex
