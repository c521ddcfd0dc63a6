import WordIndex.QueryEvaluation
import WordIndex.Proofs.ScoreMaps
import WordIndex.Proofs.StoreContents

/-! # What a query means, and that its evaluation finds just that -/
namespace WordIndex

namespace Postings

/-- The postings that carry a meta name, or all when there is none. -/
def under : (metaId? : Option Nat) → List Posting → List Posting
  | none, postings => postings
  | some id, postings => postings.filter fun p => id ∈ p.metaIds

theorem filter_hasMeta_eq_under (metaId? : Option Nat) (postings : List Posting) :
    (postings.filter fun p => metaId?.all p.hasMeta) = under metaId? postings := by
  cases metaId? with
  | none => exact List.filter_eq_self.2 fun _ _ => rfl
  | some id => exact List.filter_congr fun p _ => List.contains_eq_mem id p.metaIds

end Postings

namespace Evaluator
open Postings

/-- Whether a word with so many postings is not searched for, in exact arithmetic. -/
def exceeded (e : Evaluator) (files count : Nat) : Bool :=
  e.filesMax?.any (· < count) ||
    e.percentMax?.any fun percent => 0 < files && percent * files < 100 * count

/-- The score that a query gives a file, when words count only under a meta name, or anywhere when
there is none. -/
def meaning (e : Evaluator) (c : Contents) : QueryTree → (metaId? : Option Nat) → (file : Nat) →
    Option FileScore
  | .word word, metaId?, file =>
    if word.utf8 ∈ c.stopWords then none
    else
      match c.words.lookup (e.stemmer word).utf8 with
      | none => none
      | some postings =>
        if e.exceeded c.files postings.length then none else scoreOf (under metaId? postings) file
  | .startingWith start, metaId?, file =>
    scoreOf (under metaId? ((c.words.filter fun word => decide (start.utf8 <+: word.1)).flatMap
      (·.2))) file
  | .within name tree, _, file =>
    match c.metaNames.idxOf? name.utf8 with
    | none => none
    | some id => e.meaning c tree (some id) file
  | .both left right, metaId?, file =>
    (e.meaning c left metaId? file).bind fun a => (e.meaning c right metaId? file).map fun b => a.add b
  | .either left right, metaId?, file =>
    addScores (e.meaning c left metaId? file) (e.meaning c right metaId? file)
  | .without left right, metaId?, file =>
    if (e.meaning c right metaId? file).isSome then none else e.meaning c left metaId? file
  | .complement tree, metaId?, file =>
    if file < c.files ∧ e.meaning c tree metaId? file = none then some ⟨1, 0⟩ else none

end Evaluator

/-- An index that was opened and read, in order and small enough for the arithmetic of 64 bits. -/
structure Evaluator.Ready (e : Evaluator) (c : Contents) : Prop where
  reads : ReadsAs e.index c
  sorted : c.Sorted
  files_lt : c.files < bound32
  metaNames_lt : c.metaNames.length < bound32
  postings_lt : ∀ word ∈ c.words, word.2.length < 0x200000000000000
  percent_lt : ∀ percent, e.percentMax? = some percent → percent < 256

namespace Evaluator
open Postings Outcome

variable {e : Evaluator} {c : Contents}

/-- Neither product of the comparison leaves 64 bits. -/
theorem tooFrequent_eq_exceeded_of_lt (hfiles : e.index.files.size < 0x40000000000000)
    (hpercent : ∀ percent, e.percentMax? = some percent → percent < 256) {count : Nat}
    (hcount : count < 0x200000000000000) :
    e.tooFrequent count = e.exceeded e.index.files.size count := by
  rw [tooFrequent, exceeded]
  cases hmax : e.percentMax? with
  | none => rfl
  | some percent =>
    have hproduct : percent * e.index.files.size < 256 * 0x40000000000000 :=
      Nat.mul_lt_mul_of_lt_of_lt (hpercent percent hmax) hfiles
    have hleft : percent * e.index.files.size % bound64 = percent * e.index.files.size :=
      Nat.mod_eq_of_lt (Nat.lt_trans hproduct (by decide))
    have hbound : 0x200000000000000 * 100 < bound64 := by decide
    have hright : count * 100 % bound64 = 100 * count := by
      rw [Nat.mod_eq_of_lt (by omega), Nat.mul_comm]
    simp only [Option.any_some, hleft, hright]

theorem tooFrequent_eq_exceeded (h : e.Ready c) {count : Nat} (hcount : count < 0x200000000000000) :
    e.tooFrequent count = e.exceeded c.files count := by
  have hfiles := h.files_lt
  rw [← h.reads.files] at hfiles ⊢
  exact tooFrequent_eq_exceeded_of_lt (Nat.lt_trans hfiles (by decide)) h.percent_lt hcount

theorem narrow_of_wordWithPostings {s : Store} {i : Nat} {word : Bytes × List Posting}
    (h : s.wordWithPostings i = .ok word) : ∀ p ∈ word.2, Narrow p := by
  obtain ⟨stream, -, hdecode⟩ := wordWithPostings_eq_ok_iff.1 h
  exact fun p hp => narrow_of_decode hdecode hp

theorem addEntry_eq_ok (metaId? : Option Nat) (m : RankMap) (key : Bytes) {stream : Bytes}
    {postings : List Posting} (h : Postings.decode stream = .ok postings) :
    addEntry metaId? m ⟨key, stream⟩ = .ok (m.addPostings metaId? postings) := by
  rw [addEntry, h]
  rfl

theorem get?_entryScores (h : e.Ready c) (word : Text) (metaId? : Option Nat) {i : Nat}
    {key stream : Bytes} {postings : List Posting} (hi : c.words[i]? = some (key, postings))
    (hentry : Postings.decode stream = .ok postings) :
    ∃ scores, (e.entryScores word metaId? ⟨key, stream⟩).result = .ok scores ∧ ∀ file,
      scores.get? file = if e.exceeded c.files postings.length then none
        else scoreOf (under metaId? postings) file := by
  have hnarrow := narrow_of_wordWithPostings (h.reads.wordWithPostings hi)
  have hcount := h.postings_lt _ (List.mem_of_getElem? hi)
  have hscores (file : Nat) : (RankMap.empty.addPostings metaId? postings).get? file =
      scoreOf (under metaId? postings) file := by
    rw [get?_addPostings _ _ hnarrow, filter_hasMeta_eq_under]
    exact none_addScores _
  have hadd := addEntry_eq_ok metaId? .empty key hentry
  rw [entryScores]
  by_cases hlimits : e.filesMax?.isSome || e.percentMax?.isSome
  · rw [if_pos hlimits, count_of_decode hentry, Noted.ofResult_ok_bind,
      tooFrequent_eq_exceeded h hcount]
    by_cases hexceeded : e.exceeded c.files postings.length
    · refine ⟨.empty, ?_, fun file => by rw [if_pos hexceeded]; rfl⟩
      rw [if_pos hexceeded]
      rfl
    · refine ⟨_, ?_, fun file => by rw [if_neg hexceeded]; exact hscores file⟩
      rw [if_neg hexceeded, hadd]
      rfl
  · have hnone : e.exceeded c.files postings.length = false := by
      simp only [Bool.or_eq_true, not_or, Option.isSome_iff_ne_none, ne_eq, not_not] at hlimits
      rw [exceeded, hlimits.1, hlimits.2]
      rfl
    refine ⟨_, ?_, fun file => by rw [hnone]; exact hscores file⟩
    rw [if_neg hlimits, hadd]
    rfl

/-- A word is found by halving, unless it is a stop word. -/
theorem get?_wordScores (h : e.Ready c) (word : Text) (metaId? : Option Nat) :
    ∃ scores, (e.wordScores word metaId?).result = .ok scores ∧
      ∀ file, scores.get? file = e.meaning c (.word word) metaId? file := by
  have hin := h.reads.inOrder h.sorted
  rw [wordScores, hin.contains_eq, Noted.ofResult_ok_bind]
  by_cases hmem : word.utf8 ∈ c.stopWords
  · refine ⟨.empty, ?_, fun file => ?_⟩
    · rw [if_pos (decide_eq_true hmem)]
      rfl
    · rw [meaning, if_pos hmem]
      rfl
  · rw [if_neg (by simpa using hmem)]
    cases hkey : c.words.lookup (e.stemmer word).utf8 with
    | none =>
      rw [hin.find?_of_lookup_none hkey]
      refine ⟨.empty, rfl, fun file => ?_⟩
      rw [meaning, if_neg hmem, hkey]
      rfl
    | some postings =>
      obtain ⟨i, ⟨key, stream⟩, hfind, hi, hentry, hdecode⟩ := hin.exists_entry_of_lookup hkey
      obtain ⟨scores, hscores, hget⟩ := get?_entryScores h word metaId? hi hdecode
      refine ⟨scores, ?_, fun file => ?_⟩
      · rw [hfind, Noted.ofResult_ok_bind]
        dsimp only
        rw [hentry, Noted.ofResult_ok_bind]
        exact hscores
      · rw [meaning, if_neg hmem, hkey]
        exact hget file

theorem addPostings_append (m : RankMap) (metaId? : Option Nat) (postings others : List Posting) :
    (m.addPostings metaId? postings).addPostings metaId? others =
      m.addPostings metaId? (postings ++ others) := by
  rw [RankMap.addPostings, RankMap.addPostings, RankMap.addPostings, List.filter_append,
    List.foldl_append]

theorem addWords_eq_ok (metaId? : Option Nat) {positions : List Nat}
    {words : List (Bytes × List Posting)}
    (h : List.Forall₂ (fun i word => e.index.wordWithPostings i = .ok word) positions words)
    (m : RankMap) : e.addWords metaId? m positions =
      .ok (m.addPostings metaId? (words.flatMap (·.2))) := by
  induction h generalizing m with
  | nil => rfl
  | cons hword _ ih =>
    obtain ⟨stream, hentry, hdecode⟩ := wordWithPostings_eq_ok_iff.1 hword
    refine bind_eq_ok_iff.2 ⟨_, hentry, bind_eq_ok_iff.2 ⟨_, addEntry_eq_ok metaId? m _ hdecode, ?_⟩⟩
    rw [ih, List.flatMap_cons, addPostings_append]

/-- The range that is found by halving holds the words with a given start. -/
theorem get?_startScores (h : e.Ready c) (start : Text) (metaId? : Option Nat) :
    ∃ scores, e.startScores start metaId? = .ok scores ∧
      ∀ file, scores.get? file = e.meaning c (.startingWith start) metaId? file := by
  obtain ⟨first, stop, hrange, hle, hstop, hstarts⟩ := Segment.startingWith_eq_ok h.reads.keys
    (h.sorted.words.imp fun hlt => List.le_of_lt hlt) start.utf8
  have hfilter : (c.words.filter fun word => decide (start.utf8 <+: word.1)) =
      (c.words.drop first).take (stop - first) := by
    refine filter_eq_take_drop fun i word hword => ?_
    rw [decide_eq_true_eq]
    exact hstarts i word.1 (by rw [List.getElem?_map, hword, Option.map_some])
  have hpositions : ((List.range e.index.words.size).drop first).take (stop - first) =
      List.range' first (stop - first) := by
    have hsize : c.words.length = e.index.words.size := by
      rw [h.reads.keys.size_eq, List.length_map]
    rw [List.length_map, hsize] at hstop
    rw [List.range_eq_range', List.drop_range', List.take_range'_of_length_ge (by omega), Nat.zero_add,
      Nat.mul_one]
  have hwords : List.Forall₂ (fun i word => e.index.wordWithPostings i = .ok word)
      (List.range' first (stop - first)) ((c.words.drop first).take (stop - first)) := by
    rw [← hpositions]
    exact List.forall₂_take _ (List.forall₂_drop _ h.reads.words)
  refine ⟨RankMap.empty.addPostings metaId? (((c.words.drop first).take (stop - first)).flatMap (·.2)),
    ?_, fun file => ?_⟩
  · rw [startScores, hrange]
    exact addWords_eq_ok metaId? hwords .empty
  · have hnarrow : ∀ p ∈ ((c.words.drop first).take (stop - first)).flatMap (·.2), Narrow p := by
      intro p hp
      obtain ⟨word, hword, hp⟩ := List.mem_flatMap.1 hp
      obtain ⟨i, -, hread⟩ := exists_of_mem_right hwords hword
      exact narrow_of_wordWithPostings hread p hp
    rw [get?_addPostings _ _ hnarrow, filter_hasMeta_eq_under, meaning, hfilter]
    exact none_addScores _

/-- Every operator does to whole score maps what it means for each file. -/
theorem get?_evaluate (h : e.Ready c) (tree : QueryTree) (metaId? : Option Nat) :
    ∃ scores, (e.evaluate tree metaId?).result = .ok scores ∧
      ∀ file, scores.get? file = e.meaning c tree metaId? file := by
  induction tree generalizing metaId? with
  | word word => exact get?_wordScores h word metaId?
  | startingWith start =>
    obtain ⟨scores, hscores, hget⟩ := get?_startScores h start metaId?
    exact ⟨scores, hscores, hget⟩
  | within name tree ih =>
    have hfind := Segment.find?_eq_idxOf? h.reads.metaNames
      (h.sorted.metaNames.imp fun hlt => List.le_of_lt hlt) name.utf8
    rw [evaluate, hfind, Noted.ofResult_ok_bind]
    cases hid : c.metaNames.idxOf? name.utf8 with
    | none =>
      refine ⟨.empty, rfl, fun file => ?_⟩
      rw [meaning, hid]
      rfl
    | some id =>
      obtain ⟨hlt, -⟩ := List.idxOf?_eq_some_iff.1 hid
      have hsame : id % bound32 = id := Nat.mod_eq_of_lt (Nat.lt_trans hlt h.metaNames_lt)
      obtain ⟨scores, hscores, hget⟩ := ih (some id)
      refine ⟨scores, ?_, fun file => ?_⟩
      · dsimp only
        rw [hsame]
        exact hscores
      · rw [meaning, hid]
        exact hget file
  | both left right ihl ihr =>
    obtain ⟨l, hl, hgetl⟩ := ihl metaId?
    obtain ⟨r, hr, hgetr⟩ := ihr metaId?
    refine ⟨l.intersect r, ?_, fun file => ?_⟩
    · rw [evaluate, Noted.result_bind hl, Noted.result_bind hr]
      rfl
    · rw [RankMap.get?_intersect, hgetl, hgetr, meaning]
  | either left right ihl ihr =>
    obtain ⟨l, hl, hgetl⟩ := ihl metaId?
    obtain ⟨r, hr, hgetr⟩ := ihr metaId?
    refine ⟨l.union r, ?_, fun file => ?_⟩
    · rw [evaluate, Noted.result_bind hl, Noted.result_bind hr]
      rfl
    · rw [RankMap.get?_union, hgetl, hgetr, meaning]
  | without left right ihl ihr =>
    obtain ⟨l, hl, hgetl⟩ := ihl metaId?
    obtain ⟨r, hr, hgetr⟩ := ihr metaId?
    refine ⟨l.without r, ?_, fun file => ?_⟩
    · rw [evaluate, Noted.result_bind hl, Noted.result_bind hr]
      rfl
    · rw [RankMap.get?_without, hgetl, hgetr, meaning]
  | complement tree ih =>
    obtain ⟨excluded, hexcluded, hget⟩ := ih metaId?
    have hfiles : e.index.files.size % bound32 = c.files := by
      rw [h.reads.files]
      exact Nat.mod_eq_of_lt h.files_lt
    refine ⟨excluded.complement c.files, ?_, fun file => ?_⟩
    · rw [evaluate, Noted.result_bind hexcluded, hfiles]
      rfl
    · rw [RankMap.get?_complement, hget, meaning]

/-- On a sorted index that can be read, the evaluation of a query succeeds and gives every file the
score that the query means for it. -/
theorem evaluate_eq_meaning {e : Evaluator} {c : Contents} {data : Bytes}
    (hopen : Store.ofBytes data = .ok e.index) (hlen : data.length < 0x200000000000000)
    (hread : e.index.contents = .ok c) (hsorted : c.Sorted) (hfiles : c.files < bound32)
    (hmetaNames : c.metaNames.length < bound32)
    (hpercent : ∀ percent, e.percentMax? = some percent → percent < 256)
    (tree : QueryTree) (metaId? : Option Nat) :
    ∃ scores, (e.evaluate tree metaId?).result = .ok scores ∧
      ∀ file, scores.get? file = e.meaning c tree metaId? file := by
  have hreads := readsAs_of_contents hread
  refine get?_evaluate ⟨hreads, hsorted, hfiles, hmetaNames, fun word hword => ?_, hpercent⟩ tree metaId?
  obtain ⟨i, -, hi⟩ := exists_of_mem_right hreads.words hword
  exact Nat.lt_trans (length_postings_lt hopen hi) hlen

/-- An index of three files, with the words `ant` and `cat`, a stop word and a meta name. -/
def threeFiles : Bytes :=
  [2, 104, 122, 1, 138, 1, 142, 3, 144, 150, 156, 1, 162].flatMap (Bytes.ofLittleEndian wordWidth) ++
  ([97, 110, 116, 0] ++ [0, 1, 10, 1, 0, 128, 2, 2, 128, 0] ++ [1, 2, 5, 128]) ++
  ([99, 97, 116, 0] ++ [0, 1, 3, 0] ++ [1, 1, 1, 0] ++ [2, 1, 1, 128]) ++ [116, 104, 101, 0] ++
  [47, 0] ++ [0, 97, 0, 1, 65, 0] ++ [0, 98, 0, 2, 66, 0] ++ [0, 99, 0, 3, 67, 0] ++
  [116, 105, 116, 108, 101, 0]

/-- What can be read from `threeFiles`. -/
def threeFilesContents : Contents where
  words := [([97, 110, 116], [⟨0, 1, 10, [0], [2]⟩, ⟨1, 2, 5, [], []⟩]),
    ([99, 97, 116], [⟨0, 1, 3, [], []⟩, ⟨1, 1, 1, [], []⟩, ⟨2, 1, 1, [], []⟩])]
  stopWords := [[116, 104, 101]]
  metaNames := [[116, 105, 116, 108, 101]]
  files := 3

/-- Asks for words with `c` or `ant`, but not where `ant` has the meta name. -/
def antOutsideTitle : QueryTree :=
  .without (.either (.startingWith ['c']) (.word "ant".toList))
    (.within "title".toList (.word "ant".toList))

theorem evaluate_eq_meaning_threeFiles :
    ∃ e : Evaluator, Store.ofBytes threeFiles = .ok e.index ∧ threeFiles.length < 0x200000000000000 ∧
      e.index.contents = .ok threeFilesContents ∧ threeFilesContents.Sorted ∧
      threeFilesContents.files < bound32 ∧ threeFilesContents.metaNames.length < bound32 ∧
      (∀ percent, e.percentMax? = some percent → percent < 256) ∧
      ∃ scores, (e.evaluate antOutsideTitle none).result = .ok scores ∧
        (∀ file, scores.get? file = e.meaning threeFilesContents antOutsideTitle none file) ∧
        scores.get? 0 = none ∧ scores.get? 1 = some ⟨6, 3⟩ ∧ scores.get? 2 = some ⟨1, 1⟩ := by
  have hcontents : (Store.ofBytes threeFiles >>= Store.contents) = .ok threeFilesContents := by
    decide +kernel
  obtain ⟨store, hopen, hread⟩ := bind_eq_ok_iff.1 hcontents
  have hlen : threeFiles.length < 0x200000000000000 := by decide +kernel
  have hsorted : threeFilesContents.Sorted := by decide +kernel
  have hpercent : ∀ percent, some 70 = some percent → percent < 256 := by
    rintro percent ⟨⟩
    decide
  obtain ⟨scores, hscores, hget⟩ := evaluate_eq_meaning
    (e := { index := store, percentMax? := some 70 }) hopen hlen hread hsorted (by decide) (by decide)
    hpercent antOutsideTitle none
  exact ⟨_, hopen, hlen, hread, hsorted, by decide, by decide, hpercent, scores, hscores, hget,
    (hget 0).trans rfl, (hget 1).trans rfl, (hget 2).trans rfl⟩

end Evaluator

end WordIndex
