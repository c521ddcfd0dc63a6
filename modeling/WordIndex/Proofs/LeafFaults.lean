import WordIndex.Failure
import WordIndex.Proofs.MetFaults
import WordIndex.Proofs.StoreContents

/-! # The faults that a query meets are those of its words -/
namespace WordIndex
open Outcome

/-- A part of a query that is looked up in an index. -/
inductive QueryLeaf
  | word (word : Text)
  | startingWith (start : Text)
  deriving DecidableEq

/-- The leaves of a query from left to right, each with the meta names around it. -/
def QueryTree.leaves : QueryTree → List (List Text × QueryLeaf)
  | .word w => [([], .word w)]
  | .startingWith start => [([], .startingWith start)]
  | .within name tree => tree.leaves.map fun leaf => (name :: leaf.1, leaf.2)
  | .both left right | .either left right | .without left right => left.leaves ++ right.leaves
  | .complement tree => tree.leaves

namespace Evaluator

def knows (e : Evaluator) (name : Text) : Bool :=
  match e.index.metaNames.find? name.utf8 with
  | .ok (some _) => true
  | _ => false

/-- The leaves that are not under a meta name that the index does not have. -/
def reached (e : Evaluator) (tree : QueryTree) : List QueryLeaf :=
  (tree.leaves.filter fun leaf => leaf.1.all e.knows).map (·.2)

def wordFault? (e : Evaluator) (i : Nat) : Option IndexFault := error? (e.index.wordWithPostings i)

/-- The first fault in the postings that a leaf stands for. A stop word stands for none, but a word
that is too frequent does for its own. -/
def leafFault? (e : Evaluator) : QueryLeaf → Option IndexFault
  | .word word =>
    match e.index.stopWords.contains word.utf8, e.index.words.find? (e.stemmer word).utf8 with
    | .ok false, .ok (some i) => e.wordFault? i
    | _, _ => none
  | .startingWith start =>
    match e.index.words.startingWith start.utf8 with
    | .ok (first, stop) => (List.range' first (stop - first)).findSome? e.wordFault?
    | .error _ => none

variable {e : Evaluator}

/-! ## Leaves -/

theorem reached_append {left right tree : QueryTree} (h : tree.leaves = left.leaves ++ right.leaves) :
    e.reached tree = e.reached left ++ e.reached right := by
  rw [reached, h, List.filter_append, List.map_append, ← reached, ← reached]

theorem reached_within (name : Text) (tree : QueryTree) :
    e.reached (.within name tree) = if e.knows name then e.reached tree else [] := by
  rw [reached, QueryTree.leaves, List.filter_map, List.map_map]
  simp only [Function.comp_def, List.all_cons]
  cases e.knows name with
  | true =>
    simp only [Bool.true_and, if_true]
    rfl
  | false =>
    simp only [Bool.false_and, Bool.false_eq_true, if_false]
    rw [List.filter_false, List.map_nil]

/-! ## Postings -/

theorem error?_count (stream : Bytes) :
    error? (Postings.count stream) = error? (Postings.decode stream) := by
  rw [Postings.count_eq_countOf, Postings.decode]
  obtain ⟨postings, fault?⟩ := Postings.drain stream
  cases fault? <;> rfl

theorem error?_addEntry (metaId? : Option Nat) (m : RankMap) (entry : WordEntry) :
    error? (addEntry metaId? m entry) = error? (Postings.decode entry.stream) :=
  error?_bind_pure _ _

/-- Whether a word is too frequent is known only once all its postings were passed over. -/
theorem error?_entryScores (word : Text) (metaId? : Option Nat) (entry : WordEntry) :
    error? (e.entryScores word metaId? entry).result = error? (Postings.decode entry.stream) := by
  have hadd := error?_addEntry metaId? .empty entry
  rw [entryScores]
  split
  · rw [Noted.result_bind_eq]
    cases hdecode : Postings.decode entry.stream with
    | error fault =>
      have hcount : error? (Postings.count entry.stream) = some fault := by
        rw [error?_count, hdecode]
        rfl
      rw [Noted.ofResult, error?_eq_some_iff.1 hcount]
      rfl
    | ok postings =>
      rw [hdecode] at hadd
      rw [Noted.ofResult, Postings.count_of_decode hdecode]
      change error? (ite _ _ _ : Noted RankMap).result = _
      split
      · rfl
      · exact hadd
  · exact hadd

theorem error?_wordWithPostings (e : Evaluator) (i : Nat) : e.wordFault? i =
    error? (e.index.words.entry i >>= WordEntry.ofBytes >>= fun entry =>
      Postings.decode entry.stream) := by
  rw [wordFault?, Store.wordWithPostings]
  cases e.index.words.entry i >>= WordEntry.ofBytes with
  | error fault => rfl
  | ok entry => exact error?_bind_pure _ _

theorem error?_addWords (metaId? : Option Nat) (m : RankMap) (positions : List Nat) :
    error? (e.addWords metaId? m positions) = positions.findSome? e.wordFault? := by
  induction positions generalizing m with
  | nil => rfl
  | cons i rest ih =>
    cases hentry : e.index.words.entry i >>= WordEntry.ofBytes with
    | error fault =>
      have hword : e.wordFault? i = some fault := by
        rw [error?_wordWithPostings, hentry]
        rfl
      rw [addWords, hentry, List.findSome?_cons, hword]
      rfl
    | ok entry =>
      have hword : e.wordFault? i = error? (Postings.decode entry.stream) := by
        rw [error?_wordWithPostings, hentry]
        rfl
      have hboth := error?_bind (x := addEntry metaId? m entry) fun m _ => ih m
      rw [error?_addEntry] at hboth
      rw [addWords, hentry, List.findSome?_cons, hword]
      refine hboth.trans ?_
      cases error? (Postings.decode entry.stream) <;> rfl

/-! ## Queries -/

section Reads
variable {keys stopWords names : List Bytes} (hwords : e.index.words.Reads keys)
  (hstopWords : e.index.stopWords.Reads stopWords) (hnames : e.index.metaNames.Reads names)

include hwords in
theorem error?_startScores (start : Text) (metaId? : Option Nat) :
    error? (e.startScores start metaId?) = e.leafFault? (.startingWith start) := by
  obtain ⟨first, stop, hrange, -⟩ := hwords.exists_startingWith_eq start.utf8
  rw [startScores, leafFault?, hrange]
  exact error?_addWords metaId? .empty _

include hwords hstopWords in
theorem error?_wordScores (word : Text) (metaId? : Option Nat) :
    error? (e.wordScores word metaId?).result = e.leafFault? (.word word) := by
  obtain ⟨isStopWord, hstop⟩ := hstopWords.exists_contains_eq word.utf8
  obtain ⟨found?, hfound⟩ := hwords.exists_find?_eq (e.stemmer word).utf8
  rw [wordScores, leafFault?, hstop, hfound, Noted.ofResult_ok_bind]
  cases isStopWord with
  | true => rfl
  | false =>
    rw [if_neg Bool.false_ne_true, Noted.ofResult_ok_bind]
    cases found? with
    | none => rfl
    | some i =>
      dsimp only
      rw [Noted.result_bind_eq, error?_wordWithPostings]
      cases e.index.words.entry i >>= WordEntry.ofBytes with
      | error fault => rfl
      | ok entry => exact error?_entryScores word metaId? entry

/-- Both sides of an operator are evaluated, whatever the left one finds. -/
theorem error?_result_both (x y : Noted RankMap) (f : RankMap → RankMap → RankMap) :
    error? (x >>= fun a => y >>= fun b => pure (f a b)).result =
      (error? x.result).or (error? y.result) := by
  rw [Noted.result_bind_eq]
  refine error?_bind fun a _ => ?_
  rw [Noted.result_bind_eq]
  exact error?_bind_pure _ _

include hwords hstopWords hnames in
theorem error?_evaluate (tree : QueryTree) (metaId? : Option Nat) :
    error? (e.evaluate tree metaId?).result = (e.reached tree).findSome? e.leafFault? := by
  induction tree generalizing metaId? with
  | word word =>
    rw [evaluate, error?_wordScores hwords hstopWords]
    exact (List.findSome?_singleton).symm
  | startingWith start =>
    rw [evaluate, Noted.ofResult, error?_startScores hwords]
    exact (List.findSome?_singleton).symm
  | within name tree ih =>
    obtain ⟨found?, hfound⟩ := hnames.exists_find?_eq name.utf8
    rw [evaluate, hfound, Noted.ofResult_ok_bind, reached_within, knows, hfound]
    cases found? with
    | none => rfl
    | some id => exact ih _
  | both left right ihl ihr =>
    rw [reached_append rfl, List.findSome?_append, ← ihl metaId?, ← ihr metaId?]
    exact error?_result_both _ _ _
  | either left right ihl ihr =>
    rw [reached_append rfl, List.findSome?_append, ← ihl metaId?, ← ihr metaId?]
    exact error?_result_both _ _ _
  | without left right ihl ihr =>
    rw [reached_append rfl, List.findSome?_append, ← ihl metaId?, ← ihr metaId?]
    exact error?_result_both _ _ _
  | complement tree ih =>
    rw [evaluate, Noted.result_bind_eq]
    exact (error?_bind_pure _ _).trans (ih metaId?)

end Reads

/-- A query fails exactly when a leaf that is reached does, however often its word occurs and
whatever the other leaves find, and then with the fault of the leftmost such leaf. -/
theorem search_eq_error_iff {keys stopWords names : List Bytes}
    (hwords : e.index.words.Reads keys) (hstopWords : e.index.stopWords.Reads stopWords)
    (hnames : e.index.metaNames.Reads names) (tree : QueryTree) :
    ((∃ fault, (e.search tree).result = .error fault) ↔
        ∃ leaf ∈ e.reached tree, (e.leafFault? leaf).isSome) ∧
      ∀ fault, ((e.search tree).result = .error fault ↔
          ∃ before leaf after, e.reached tree = before ++ leaf :: after ∧
            e.leafFault? leaf = some fault ∧ ∀ other ∈ before, e.leafFault? other = none) ∧
        (Failure.index fault).kind = .corruptIndex := by
  have hfault (fault : IndexFault) : (e.search tree).result = .error fault ↔
      (e.reached tree).findSome? e.leafFault? = some fault := by
    rw [← error?_evaluate hwords hstopWords hnames tree none, error?_eq_some_iff, search]
  refine ⟨?_, fun fault => ⟨(hfault fault).trans List.findSome?_eq_some_iff, rfl⟩⟩
  rw [← List.findSome?_isSome_iff, Option.isSome_iff_exists]
  exact exists_congr hfault

/-- The postings of both words are broken off: the ones of `ant` after their first number, the ones
of `cat` by a marker that there is not. -/
def brokenPostings : Bytes :=
  [2, 80, 85, 1, 93, 0, 1, 97, 1, 103].flatMap (Bytes.ofLittleEndian wordWidth) ++
  ([97, 110, 116, 0] ++ [5]) ++ ([99, 97, 116, 0] ++ [0, 1, 3, 7]) ++ [116, 104, 101, 0] ++
  [0, 97, 0, 1, 65, 0] ++ [116, 105, 116, 108, 101, 0]

/-- Asks for `ant` under a meta name that there is not, and then for words with `c` beside one that
there is not, but not for `ant` in titles. -/
def brokenQuery : QueryTree :=
  .either (.within "author".toList (.word "ant".toList))
    (.without (.both (.word "bee".toList) (.startingWith ['c']))
      (.within "title".toList (.word "ant".toList)))

theorem search_eq_error_iff_brokenPostings :
    ∃ e : Evaluator, Store.ofBytes brokenPostings = .ok e.index ∧ e.filesMax? = some 0 ∧
      e.index.words.Reads [[97, 110, 116], [99, 97, 116]] ∧
      e.index.stopWords.Reads [[116, 104, 101]] ∧
      e.index.metaNames.Reads [[116, 105, 116, 108, 101]] ∧
      (e.search brokenQuery).result = .error (.unknownMarker 7) := by
  have hstore : (Store.ofBytes brokenPostings).toOption.any (fun store =>
      decide (store.words.strings = [[97, 110, 116], [99, 97, 116]].map .ok ∧
        store.stopWords.strings = [[116, 104, 101]].map .ok ∧
        store.metaNames.strings = [[116, 105, 116, 108, 101]].map .ok ∧
        let e : Evaluator := { index := store, filesMax? := some 0 }
        e.reached brokenQuery =
          [.word "bee".toList, .startingWith ['c'], .word "ant".toList] ∧
        e.leafFault? (.word "bee".toList) = none ∧
        e.leafFault? (.startingWith ['c']) = some (.unknownMarker 7))) := by
    decide +kernel
  cases hopen : Store.ofBytes brokenPostings with
  | error fault =>
    rw [hopen] at hstore
    cases hstore
  | ok store =>
    rw [hopen] at hstore
    obtain ⟨hwords, hstopWords, hnames, hreached, hbee, hcat⟩ := of_decide_eq_true hstore
    let e : Evaluator := { index := store, filesMax? := some 0 }
    refine ⟨e, rfl, rfl, hwords, hstopWords, hnames, ?_⟩
    refine (((search_eq_error_iff (e := e) hwords hstopWords hnames brokenQuery).2 _).1).2 ?_
    exact ⟨[.word "bee".toList], _, _, hreached, hcat, fun other hother => by
      rw [List.mem_singleton.1 hother]; exact hbee⟩

end Evaluator

end WordIndex
