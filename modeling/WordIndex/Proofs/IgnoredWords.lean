import WordIndex.Proofs.LeafPostings
import WordIndex.Proofs.QueryContext
import WordIndex.Proofs.TableLayout

/-! # The words that a query ignores

A word is ignored where a leaf is reached and takes a note in place of postings, so the list of ignored
words can be read off the tree and the lookups, without the scores. -/
namespace WordIndex

/-! ## Words where they are met first -/

/-- A word that is ignored once more is not listed again. -/
theorem ignoredWords_append_singleton {notes : List Note} {note : Note} {word : Text}
    (h : note.ignored? = some word) : ignoredWords (notes ++ [note]) =
      if word ∈ ignoredWords notes then ignoredWords notes else ignoredWords notes ++ [word] := by
  rw [ignoredWords, ignoredWords, List.filterMap_append, List.filterMap_cons_some h,
    List.filterMap_nil, List.eraseDups_append]
  generalize notes.filterMap Note.ignored? = words
  by_cases hmem : word ∈ words
  · rw [if_pos (List.mem_eraseDups.2 hmem)]
    simp [List.removeAll, hmem]
  · rw [if_neg (mt List.mem_eraseDups.1 hmem)]
    simp [List.removeAll, hmem, List.eraseDups_cons]

theorem ignoredWords_append_of_none {notes : List Note} {note : Note} (h : note.ignored? = none) :
    ignoredWords (notes ++ [note]) = ignoredWords notes := by
  rw [ignoredWords, ignoredWords, List.filterMap_append, List.filterMap_cons_none h, List.filterMap_nil,
    List.append_nil]

/-- The words are listed in the order in which they are met first, and so none twice. -/
theorem pairwise_ignoredWords (notes : List Note) : (ignoredWords notes).Pairwise fun a b =>
    (notes.filterMap Note.ignored?).idxOf a < (notes.filterMap Note.ignored?).idxOf b := by
  induction notes using List.reverseRecOn with
  | nil => exact .nil
  | append_singleton notes note ih =>
    cases hignored : note.ignored? with
    | none =>
      rw [ignoredWords_append_of_none hignored, List.filterMap_append,
        List.filterMap_cons_none hignored, List.filterMap_nil, List.append_nil]
      exact ih
    | some word =>
      have hmet {a : Text} : a ∈ ignoredWords notes ↔ a ∈ notes.filterMap Note.ignored? :=
        List.mem_eraseDups
      have hbefore {a : Text} (ha : a ∈ ignoredWords notes) :
          ((notes ++ [note]).filterMap Note.ignored?).idxOf a =
            (notes.filterMap Note.ignored?).idxOf a := by
        rw [List.filterMap_append, List.idxOf_append_of_mem (hmet.1 ha)]
      have hold : (ignoredWords notes).Pairwise fun a b =>
          ((notes ++ [note]).filterMap Note.ignored?).idxOf a <
            ((notes ++ [note]).filterMap Note.ignored?).idxOf b :=
        ih.imp_of_mem fun ha hb hlt => by rwa [hbefore ha, hbefore hb]
      rw [ignoredWords_append_singleton hignored]
      split
      · exact hold
      · next hnew =>
        refine List.pairwise_append.2 ⟨hold, List.pairwise_singleton .., fun a ha b hb => ?_⟩
        obtain rfl := List.mem_singleton.1 hb
        have hlast : (notes.filterMap Note.ignored?).length ≤
            ((notes ++ [note]).filterMap Note.ignored?).idxOf b := by
          rw [List.filterMap_append, List.idxOf_append, if_neg (mt hmet.2 hnew)]
          exact Nat.le_add_left ..
        rw [hbefore ha]
        exact Nat.lt_of_lt_of_le (List.idxOf_lt_length_iff.2 (hmet.1 ha)) hlast

namespace Evaluator

open Outcome

/-! ## Words that are left out -/

/-- The postings that are found for a word, where they can be read. -/
def foundPostings? (e : Evaluator) (word : Text) : Option (List Posting) :=
  match e.index.words.find? (e.stemmer word).utf8 with
  | .ok (some i) => (e.index.wordWithPostings i).toOption.map (·.2)
  | _ => none

/-- Whether a word is not searched for: it is found among the stop words, or with too many postings. -/
def leavesOut (e : Evaluator) (word : Text) : Bool :=
  (e.index.stopWords.contains word.utf8).toOption == some true ||
    (e.foundPostings? word).any fun postings => e.exceeded e.index.files.size postings.length

/-- Both lookups of a word succeed and find nothing. -/
structure Lacks (e : Evaluator) (word : Text) : Prop where
  stopWord : e.index.stopWords.contains word.utf8 = .ok false
  indexed : e.index.words.find? (e.stemmer word).utf8 = .ok none

def leftOut? (e : Evaluator) : QueryLeaf → Option Text
  | .word word => if e.leavesOut word then some word else none
  | .startingWith _ => none

/-- The words of a query that are not searched for, from left to right. -/
def leftOutWords (e : Evaluator) (tree : QueryTree) : List Text := (e.reached tree).filterMap e.leftOut?

variable {e : Evaluator} {tree : QueryTree} {word : Text} {metaId? : Option Nat} {scores : RankMap}

theorem mem_leftOutWords :
    word ∈ e.leftOutWords tree ↔ .word word ∈ e.reached tree ∧ e.leavesOut word := by
  rw [leftOutWords, List.mem_filterMap]
  constructor
  · rintro ⟨leaf, hleaf, hleft⟩
    cases leaf with
    | word other =>
      rw [leftOut?] at hleft
      split at hleft
      · next hout =>
        obtain rfl := Option.some.inj hleft
        exact ⟨hleaf, hout⟩
      · cases hleft
    | startingWith start => cases hleft
  · rintro ⟨hleaf, hout⟩
    exact ⟨_, hleaf, if_pos hout⟩

theorem leftOutWords_append {left right : QueryTree} (h : tree.leaves = left.leaves ++ right.leaves) :
    e.leftOutWords tree = e.leftOutWords left ++ e.leftOutWords right := by
  rw [leftOutWords, reached_append h, List.filterMap_append]
  rfl

/-- The limits are compared without overflow whatever entry of the index is counted. -/
def Exact (e : Evaluator) : Prop := ∀ i word, e.index.wordWithPostings i = .ok word →
  e.tooFrequent word.2.length = e.exceeded e.index.files.size word.2.length

theorem exact_of_ofBytes {data : Bytes} (hopen : Store.ofBytes data = .ok e.index)
    (hlen : data.length < 0x200000000000000)
    (hpercent : ∀ percent, e.percentMax? = some percent → percent < 256) : e.Exact := by
  intro i word hword
  have hsize : e.index.files.size * 8 ≤ data.length :=
    TableLayout.size_mul_wordWidth_le (Nat.lt_trans hlen (by decide)) hopen .files
  exact tooFrequent_eq_exceeded_of_lt (by omega) hpercent
    (Nat.lt_trans (length_postings_lt hopen hword) hlen)

theorem leavesOut_of_stopWord (h : e.index.stopWords.contains word.utf8 = .ok true) :
    e.leavesOut word = true := by
  rw [leavesOut, h]
  rfl

theorem leavesOut_of_lacks (h : e.Lacks word) : e.leavesOut word = false := by
  rw [leavesOut, foundPostings?, h.stopWord, h.indexed]
  rfl

theorem leavesOut_of_entry (hstop : e.index.stopWords.contains word.utf8 = .ok false) {i : Nat}
    (hfind : e.index.words.find? (e.stemmer word).utf8 = .ok (some i)) {entry : Bytes × List Posting}
    (hread : e.index.wordWithPostings i = .ok entry) :
    e.leavesOut word = e.exceeded e.index.files.size entry.2.length := by
  rw [leavesOut, foundPostings?, hstop, hfind]
  dsimp only
  rw [hread]
  rfl

/-! ## Notes -/

/-- A word that is left out is noted and stands for no postings, and no other word is noted. -/
theorem wordPostings_ignored (hexact : e.Exact) {postings : List Posting}
    (h : (e.wordPostings word).result = .ok postings) :
    (e.wordPostings word).notes.filterMap Note.ignored? = (if e.leavesOut word then [word] else []) ∧
      (e.leavesOut word → postings = []) := by
  rcases wordPostings_cases h with
    ⟨hstop, heq⟩ | ⟨hstop, hfind, heq⟩ | ⟨i, entry, hstop, hfind, hread, heq⟩ <;> rw [heq] at h ⊢
  · rw [leavesOut_of_stopWord hstop]
    exact ⟨rfl, fun _ => (Except.ok.inj h).symm⟩
  · rw [leavesOut_of_lacks ⟨hstop, hfind⟩]
    exact ⟨rfl, fun hfalse => absurd hfalse Bool.false_ne_true⟩
  · rw [entryPostings, hexact i entry hread, ← leavesOut_of_entry hstop hfind hread] at h ⊢
    cases hout : e.leavesOut word with
    | true =>
      rw [hout] at h
      exact ⟨rfl, fun _ => (Except.ok.inj h).symm⟩
    | false => exact ⟨rfl, fun hfalse => absurd hfalse Bool.false_ne_true⟩

/-- The words that are noted are those of the leaves that are reached and left out, in their order. -/
theorem ignored_evaluate (hexact : e.Exact) (h : (e.evaluate tree metaId?).result = .ok scores) :
    (e.evaluate tree metaId?).notes.filterMap Note.ignored? = e.leftOutWords tree := by
  induction tree generalizing metaId? scores with
  | word word =>
    rw [evaluate, wordScores_eq] at h ⊢
    obtain ⟨postings, hpostings, -⟩ := map_eq_ok_iff.1 h
    refine (wordPostings_ignored hexact hpostings).1.trans ?_
    change _ = [QueryLeaf.word word].filterMap e.leftOut?
    rw [List.filterMap_cons, leftOut?]
    cases e.leavesOut word <;> rfl
  | startingWith start => rfl
  | within name tree ih =>
    rw [leftOutWords, reached_within, knows]
    rw [evaluate] at h ⊢
    cases hfound : e.index.metaNames.find? name.utf8 with
    | error fault =>
      rw [hfound] at h
      cases h
    | ok found? =>
      rw [hfound, Noted.ofResult_ok_bind] at h
      rw [Noted.ofResult_ok_bind]
      cases found? with
      | none => rfl
      | some id => exact ih h
  | both left right ihl ihr | either left right ihl ihr | without left right ihl ihr =>
    obtain ⟨l, r, hl, hr, -⟩ := Noted.result_combine_eq_ok_iff.1 h
    rw [evaluate, Noted.combine_eq _ hl hr, List.filterMap_append, ihl hl, ihr hr]
    exact (leftOutWords_append rfl).symm
  | complement tree ih =>
    rw [evaluate, Noted.result_bind_eq] at h
    obtain ⟨excluded, hexcluded, -⟩ := bind_eq_ok_iff.1 h
    rw [evaluate, Noted.eq_of_result hexcluded]
    change ((e.evaluate tree metaId?).notes ++ []).filterMap Note.ignored? = _
    rw [List.append_nil]
    exact ih hexcluded

/-! ## Words that are not there -/

theorem evaluate_of_lacks (h : e.Lacks word) (metaId? : Option Nat) :
    e.evaluate (.word word) metaId? = ⟨[], .ok .empty⟩ := by
  rw [evaluate, wordScores, h.stopWord, Noted.ofResult_ok_bind, if_neg Bool.false_ne_true, h.indexed]
  rfl

theorem result_of_leavesOut (hexact : e.Exact) (hout : e.leavesOut word)
    (h : (e.evaluate (.word word) metaId?).result = .ok scores) : scores = .empty := by
  rw [evaluate, wordScores_eq] at h
  obtain ⟨postings, hpostings, rfl⟩ := map_eq_ok_iff.1 h
  rw [(wordPostings_ignored hexact hpostings).2 hout]
  rfl

/-! ## Lookups in an index that is in order -/

section Sorted
variable {c : Contents}

theorem foundPostings?_eq_lookup (hreads : ReadsAs e.index c) (hsorted : c.Sorted) (word : Text) :
    e.foundPostings? word = c.words.lookup (e.stemmer word).utf8 := by
  rw [foundPostings?, lookup_eq_of_idxOf?, (hreads.inOrder hsorted).find?_eq]
  cases hkey : (c.words.map (·.1)).idxOf? (e.stemmer word).utf8 with
  | none => rfl
  | some i =>
    obtain ⟨hlt, -⟩ := List.idxOf?_eq_some_iff.1 hkey
    rw [List.length_map] at hlt
    have hi : c.words[i]? = some c.words[i] := List.getElem?_eq_getElem hlt
    dsimp only
    rw [hreads.wordWithPostings hi, Option.bind_some, hi]
    rfl

theorem leavesOut_iff_of_sorted (hreads : ReadsAs e.index c) (hsorted : c.Sorted) (word : Text) :
    e.leavesOut word ↔ word.utf8 ∈ c.stopWords ∨
      ∃ postings ∈ c.words.lookup (e.stemmer word).utf8, e.exceeded c.files postings.length := by
  rw [leavesOut, foundPostings?_eq_lookup hreads hsorted, hreads.files,
    (hreads.inOrder hsorted).contains_eq, Bool.or_eq_true, Option.any_eq_true]
  simp [Except.toOption]

theorem lacks_iff_of_sorted (hreads : ReadsAs e.index c) (hsorted : c.Sorted) (word : Text) :
    e.Lacks word ↔ word.utf8 ∉ c.stopWords ∧ (e.stemmer word).utf8 ∉ c.words.map (·.1) := by
  have hstop := (hreads.inOrder hsorted).contains_eq word.utf8
  have hfind := (hreads.inOrder hsorted).find?_eq (e.stemmer word).utf8
  constructor
  · rintro ⟨hstopWord, hindexed⟩
    rw [hstop] at hstopWord
    rw [hfind] at hindexed
    exact ⟨of_decide_eq_false (Except.ok.inj hstopWord),
      List.idxOf?_eq_none_iff.1 (Except.ok.inj hindexed)⟩
  · rintro ⟨hstopWord, hindexed⟩
    exact ⟨by rw [hstop, decide_eq_false hstopWord],
      by rw [hfind, List.idxOf?_eq_none_iff.2 hindexed]⟩

theorem knows_iff_of_sorted (hreads : ReadsAs e.index c) (hsorted : c.Sorted) (name : Text) :
    e.knows name ↔ name.utf8 ∈ c.metaNames := by
  rw [knows, Segment.find?_eq_idxOf? hreads.metaNames (hsorted.metaNames.imp fun hlt => List.le_of_lt hlt)]
  cases hid : c.metaNames.idxOf? name.utf8 with
  | none => simpa using List.idxOf?_eq_none_iff.1 hid
  | some id => simpa using List.isSome_idxOf?.1 (Option.isSome_iff_exists.2 ⟨id, hid⟩)

end Sorted

/-- A query that succeeds ignores the words of the leaves that are reached and left out, each once and
in the order in which they stand in the query. Such a leaf counts as little as one with a word that is
not there. Where the index is in order, the lookups find what is in it. -/
theorem ignoredWords_search {data : Bytes} (hopen : Store.ofBytes data = .ok e.index)
    (hlen : data.length < 0x200000000000000)
    (hpercent : ∀ percent, e.percentMax? = some percent → percent < 256)
    (h : (e.search tree).result = .ok scores) :
    (ignoredWords (e.search tree).notes).Nodup ∧
    (ignoredWords (e.search tree).notes).Pairwise (fun a b =>
      (e.leftOutWords tree).idxOf a < (e.leftOutWords tree).idxOf b) ∧
    (∀ word, word ∈ ignoredWords (e.search tree).notes ↔
      .word word ∈ e.reached tree ∧ e.leavesOut word) ∧
    (∀ (context : QueryContext) (word other : Text), tree = context.fill (.word word) →
      e.leavesOut word → e.Lacks other →
        (e.search (context.fill (.word other))).result = .ok scores) ∧
    ∀ c, e.index.contents = .ok c → c.Sorted → ∀ word,
      (e.leavesOut word ↔ word.utf8 ∈ c.stopWords ∨
        ∃ postings ∈ c.words.lookup (e.stemmer word).utf8, e.exceeded c.files postings.length) ∧
      (e.Lacks word ↔ word.utf8 ∉ c.stopWords ∧ (e.stemmer word).utf8 ∉ c.words.map (·.1)) ∧
      (e.knows word ↔ word.utf8 ∈ c.metaNames) := by
  have hexact := exact_of_ofBytes hopen hlen hpercent
  have hignored : (e.search tree).notes.filterMap Note.ignored? = e.leftOutWords tree :=
    ignored_evaluate hexact h
  have horder := pairwise_ignoredWords (e.search tree).notes
  refine ⟨horder.imp fun hlt heq => ?_, hignored ▸ horder, fun word => ?_, ?_, ?_⟩
  · rw [heq] at hlt
    exact Nat.lt_irrefl _ hlt
  · rw [ignoredWords, List.mem_eraseDups, hignored, mem_leftOutWords]
  · rintro context word other rfl hout hlacks
    refine result_evaluate_fill (fun metaId? leaf hleaf => ?_) context h
    rw [evaluate_of_lacks hlacks, result_of_leavesOut hexact hout hleaf]
  · intro c hcontents hsorted word
    have hreads := readsAs_of_contents hcontents
    exact ⟨leavesOut_iff_of_sorted hreads hsorted word, lacks_iff_of_sorted hreads hsorted word,
      knows_iff_of_sorted hreads hsorted word⟩

/-- Has the stop word twice, and a word that is too frequent once under a meta name that there is not
and once more where it counts. -/
def ignoringQuery (last : Text) : QueryTree :=
  .either (.both (.word "the".toList) (.within "author".toList (.word "cat".toList)))
    (.either (.word "cat".toList) (.either (.word "ant".toList) (.word last)))

/-- The last leaf can have a word that is not there in place of the stop word. -/
theorem ignoredWords_search_threeFiles :
    ∃ (e : Evaluator) (scores : RankMap), Store.ofBytes threeFiles = .ok e.index ∧
      threeFiles.length < 0x200000000000000 ∧ e.filesMax? = some 2 ∧
      (∀ percent, e.percentMax? = some percent → percent < 256) ∧
      (e.search (ignoringQuery "the".toList)).result = .ok scores ∧
      scores.entries = [(0, ⟨10, 1⟩), (1, ⟨5, 2⟩)] ∧
      e.leftOutWords (ignoringQuery "the".toList) = ["the".toList, "cat".toList, "the".toList] ∧
      (ignoredWords (e.search (ignoringQuery "the".toList)).notes).Nodup ∧
      "cat".toList ∈ ignoredWords (e.search (ignoringQuery "the".toList)).notes ∧
      "ant".toList ∉ ignoredWords (e.search (ignoringQuery "the".toList)).notes ∧
      (e.search (ignoringQuery "bee".toList)).result = .ok scores := by
  obtain ⟨index, hopen, scores, hscores, hentries, hleft, hreached, hthe, hcat, hant, hstop, hfind⟩ :
      ∃ index, Store.ofBytes threeFiles = .ok index ∧
        let e : Evaluator := { index, filesMax? := some 2 }
        ∃ scores, (e.search (ignoringQuery "the".toList)).result = .ok scores ∧
          scores.entries = [(0, ⟨10, 1⟩), (1, ⟨5, 2⟩)] ∧
          e.leftOutWords (ignoringQuery "the".toList) = ["the".toList, "cat".toList, "the".toList] ∧
          QueryLeaf.word "cat".toList ∈ e.reached (ignoringQuery "the".toList) ∧
          e.leavesOut "the".toList ∧ e.leavesOut "cat".toList ∧ ¬ e.leavesOut "ant".toList ∧
          index.stopWords.contains (Text.utf8 "bee".toList) = .ok false ∧
          index.words.find? (Text.utf8 "bee".toList) = .ok none := by
    decide +kernel
  let e : Evaluator := { index, filesMax? := some 2 }
  have hlen : threeFiles.length < 0x200000000000000 := by decide +kernel
  have hpercent : ∀ percent, e.percentMax? = some percent → percent < 256 :=
    fun percent hsome => absurd hsome (Option.some_ne_none percent).symm
  obtain ⟨hnodup, -, hmem, hreplace, -⟩ := ignoredWords_search (e := e) hopen hlen hpercent hscores
  exact ⟨e, scores, hopen, hlen, rfl, hpercent, hscores, hentries, hleft, hnodup,
    (hmem _).2 ⟨hreached, hcat⟩, fun h => hant ((hmem _).1 h).2,
    hreplace (.eitherRight _ (.eitherRight _ (.eitherRight _ .hole))) _ _ rfl hthe ⟨hstop, hfind⟩⟩

/-- A query succeeds and ignores just these words. -/
def Ignores (e : Evaluator) (tree : QueryTree) (words : List Text) : Prop :=
  error? (e.search tree).result = none ∧ ignoredWords (e.search tree).notes = words

instance (e : Evaluator) (tree : QueryTree) (words : List Text) : Decidable (e.Ignores tree words) :=
  inferInstanceAs (Decidable (_ ∧ _))

/-- An index without files whose segments are out of order: the words `n`, `b` and `c` with one posting
each, the stop words `the`, `and` and `zoo` behind one that is not terminated, and the meta names
`title` and `author`. -/
def unsortedSegments : Bytes :=
  [3, 112, 118, 124, 4, 130, 130, 134, 138, 0, 0, 2, 142, 148].flatMap
      (Bytes.ofLittleEndian wordWidth) ++
    ([110, 0] ++ [0, 1, 1, 128]) ++ ([98, 0] ++ [0, 1, 1, 128]) ++ ([99, 0] ++ [0, 1, 1, 128]) ++
    [116, 104, 101, 0] ++ [97, 110, 100, 0] ++ [122, 111, 111, 0] ++
    [116, 105, 116, 108, 101, 0] ++ [97, 117, 116, 104, 111, 114, 0]

/-- Lookups by halving miss a stop word, a word and a meta name that the index has; one posting is more
than half of no files, but is not compared to it; and in place of a word that is ignored, one that is
not there meets a fault. -/
theorem exists_ignores_ne_listed :
    ∃ index, Store.ofBytes unsortedSegments = .ok index ∧ index.files.size = 0 ∧
      index.stopWords.strings = [.error .unterminatedString, .ok (Text.utf8 "the".toList),
        .ok (Text.utf8 "and".toList), .ok (Text.utf8 "zoo".toList)] ∧
      (List.range index.words.size).map index.wordWithPostings =
        [.ok (Text.utf8 ['n'], [⟨0, 1, 1, [], []⟩]), .ok (Text.utf8 ['b'], [⟨0, 1, 1, [], []⟩]),
          .ok (Text.utf8 ['c'], [⟨0, 1, 1, [], []⟩])] ∧
      index.metaNames.strings = [.ok (Text.utf8 "title".toList), .ok (Text.utf8 "author".toList)] ∧
      Ignores { index } (.word "the".toList) [] ∧
      Ignores { index, filesMax? := some 0 } (.word ['n']) [] ∧
      Ignores { index, filesMax? := some 0 } (.within "title".toList (.word ['c'])) [] ∧
      Ignores { index, percentMax? := some 50 } (.word ['c']) [] ∧
      Ignores { index, filesMax? := some 0 } (.word ['c']) [['c']] ∧
      error? (search { index, filesMax? := some 0 } (.word ['a', 'a'])).result =
        some .unterminatedString := by
  decide +kernel

end Evaluator

end WordIndex
