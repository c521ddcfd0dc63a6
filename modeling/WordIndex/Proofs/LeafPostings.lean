import WordIndex.Proofs.LeafFaults
import WordIndex.Proofs.QueryMeaning

/-! # The postings that a leaf of a query stands for

Neither the postings nor the notes depend on the meta names around a leaf: these only choose the
postings that count. -/
namespace WordIndex

/-- A result that is changed keeps its notes. -/
def Noted.map {α β : Type} (f : α → β) (x : Noted α) : Noted β := ⟨x.notes, x.result.map f⟩

namespace Evaluator

open Outcome

/-- The postings of an entry that is searched for under a word. -/
def entryPostings (e : Evaluator) (word : Text) (postings : List Posting) : Noted (List Posting) :=
  if e.tooFrequent postings.length then .noting (.tooFrequent word postings.length) []
  else .ofResult (.ok postings)

/-- The postings that a word stands for: none if it is a stop word, is not there, or is too frequent. -/
def wordPostings (e : Evaluator) (word : Text) : Noted (List Posting) := do
  if ← .ofResult (e.index.stopWords.contains word.utf8) then .noting (.stopWord word) []
  else
    match ← .ofResult (e.index.words.find? (e.stemmer word).utf8) with
    | none => return []
    | some i => e.entryPostings word (← .ofResult (e.index.wordWithPostings i)).2

/-- The postings of all words that start with some text. -/
def startPostings (e : Evaluator) (start : Text) : Except IndexFault (List Posting) := do
  let (first, stop) ← e.index.words.startingWith start.utf8
  return (← (List.range' first (stop - first)).mapM e.index.wordWithPostings).flatMap (·.2)

variable {e : Evaluator}

/-- A word whose postings are read is a stop word, is not there, or has an entry. -/
theorem wordPostings_cases {word : Text} {postings : List Posting}
    (h : (e.wordPostings word).result = .ok postings) :
    (e.index.stopWords.contains word.utf8 = .ok true ∧
      e.wordPostings word = .noting (.stopWord word) []) ∨
    (e.index.stopWords.contains word.utf8 = .ok false ∧
      e.index.words.find? (e.stemmer word).utf8 = .ok none ∧ e.wordPostings word = .ofResult (.ok [])) ∨
    ∃ i entry, e.index.stopWords.contains word.utf8 = .ok false ∧
      e.index.words.find? (e.stemmer word).utf8 = .ok (some i) ∧
      e.index.wordWithPostings i = .ok entry ∧ e.wordPostings word = e.entryPostings word entry.2 := by
  rw [wordPostings, Noted.result_bind_eq] at h
  obtain ⟨isStopWord, hstop, h⟩ := bind_eq_ok_iff.1 h
  replace hstop : e.index.stopWords.contains word.utf8 = .ok isStopWord := hstop
  rw [wordPostings, hstop, Noted.ofResult_ok_bind]
  cases isStopWord with
  | true => exact .inl ⟨rfl, rfl⟩
  | false =>
    change (ite _ _ _ : Noted (List Posting)).result = _ at h
    rw [if_neg Bool.false_ne_true, Noted.result_bind_eq] at h
    obtain ⟨found?, hfind, h⟩ := bind_eq_ok_iff.1 h
    replace hfind : e.index.words.find? (e.stemmer word).utf8 = .ok found? := hfind
    rw [if_neg Bool.false_ne_true, hfind, Noted.ofResult_ok_bind]
    cases found? with
    | none => exact .inr (.inl ⟨rfl, rfl, rfl⟩)
    | some i =>
      rw [Noted.result_bind_eq] at h
      obtain ⟨entry, hread, -⟩ := bind_eq_ok_iff.1 h
      replace hread : e.index.wordWithPostings i = .ok entry := hread
      refine .inr (.inr ⟨i, entry, rfl, rfl, hread, ?_⟩)
      dsimp only
      rw [hread, Noted.ofResult_ok_bind]

theorem tooFrequent_eq_false (h : ¬ (e.filesMax?.isSome || e.percentMax?.isSome)) (count : Nat) :
    e.tooFrequent count = false := by
  simp only [Bool.or_eq_true, not_or, Option.isSome_iff_ne_none, ne_eq, not_not] at h
  rw [tooFrequent, h.1, h.2]
  rfl

theorem wordWithPostings_of_error {i : Nat} {fault : IndexFault}
    (h : (e.index.words.entry i >>= WordEntry.ofBytes) = .error fault) :
    e.index.wordWithPostings i = .error fault := by
  rw [Store.wordWithPostings, h]
  rfl

theorem wordWithPostings_of_entry {i : Nat} {entry : WordEntry}
    (h : (e.index.words.entry i >>= WordEntry.ofBytes) = .ok entry) :
    e.index.wordWithPostings i = (Postings.decode entry.stream).map (entry.word, ·) := by
  rw [Store.wordWithPostings, h]
  change Postings.decode entry.stream >>= (fun postings => pure (entry.word, postings)) = _
  cases Postings.decode entry.stream <;> rfl

theorem addEntry_eq_map (metaId? : Option Nat) (m : RankMap) (entry : WordEntry) :
    addEntry metaId? m entry = (Postings.decode entry.stream).map (m.addPostings metaId?) := by
  rw [addEntry]
  cases Postings.decode entry.stream <;> rfl

theorem entryScores_of_decode (word : Text) (metaId? : Option Nat) {entry : WordEntry}
    {postings : List Posting} (h : Postings.decode entry.stream = .ok postings) :
    e.entryScores word metaId? entry =
      (e.entryPostings word postings).map (RankMap.empty.addPostings metaId?) := by
  rw [entryScores, entryPostings, Postings.count_of_decode h, addEntry_eq_map, h,
    Noted.ofResult_ok_bind]
  split
  · split <;> rfl
  · next hlimits =>
    rw [tooFrequent_eq_false hlimits]
    rfl

theorem entryScores_of_error (word : Text) (metaId? : Option Nat) {entry : WordEntry}
    {fault : IndexFault} (h : Postings.decode entry.stream = .error fault) :
    e.entryScores word metaId? entry = .ofResult (.error fault) := by
  have hcount : Postings.count entry.stream = .error fault := by
    rw [← error?_eq_some_iff, error?_count, h]
    rfl
  rw [entryScores, hcount, addEntry_eq_map, h]
  split <;> rfl

/-- The scores of a word are made from its postings. -/
theorem wordScores_eq (word : Text) (metaId? : Option Nat) :
    e.wordScores word metaId? = (e.wordPostings word).map (RankMap.empty.addPostings metaId?) := by
  rw [wordScores, wordPostings]
  cases e.index.stopWords.contains word.utf8 with
  | error fault => rfl
  | ok isStopWord =>
    cases isStopWord with
    | true => rfl
    | false =>
      cases e.index.words.find? (e.stemmer word).utf8 with
      | error fault => rfl
      | ok found? =>
        cases found? with
        | none => rfl
        | some i =>
          simp only [Noted.ofResult_ok_bind, Bool.false_eq_true, if_false]
          cases hentry : e.index.words.entry i >>= WordEntry.ofBytes with
          | error fault =>
            rw [wordWithPostings_of_error hentry]
            rfl
          | ok entry =>
            rw [wordWithPostings_of_entry hentry, Noted.ofResult_ok_bind]
            cases hdecode : Postings.decode entry.stream with
            | error fault => exact entryScores_of_error word metaId? hdecode
            | ok postings => exact entryScores_of_decode word metaId? hdecode

/-- Words are added one after the other, which is the same as adding all their postings at once. -/
theorem addWords_eq_map (metaId? : Option Nat) (m : RankMap) (positions : List Nat) :
    e.addWords metaId? m positions = (positions.mapM e.index.wordWithPostings).map fun words =>
      m.addPostings metaId? (words.flatMap (·.2)) := by
  induction positions generalizing m with
  | nil => rfl
  | cons i rest ih =>
    rw [addWords, List.mapM_cons]
    cases hentry : e.index.words.entry i >>= WordEntry.ofBytes with
    | error fault =>
      rw [wordWithPostings_of_error hentry]
      rfl
    | ok entry =>
      change addEntry metaId? m entry >>= (e.addWords metaId? · rest) = _
      rw [wordWithPostings_of_entry hentry, addEntry_eq_map]
      cases Postings.decode entry.stream with
      | error fault => rfl
      | ok postings =>
        change e.addWords metaId? (m.addPostings metaId? postings) rest = _
        rw [ih]
        simp only [addPostings_append]
        cases rest.mapM e.index.wordWithPostings <;> rfl

/-- The scores of a start are made from the postings of all words that have it. -/
theorem startScores_eq (start : Text) (metaId? : Option Nat) :
    e.startScores start metaId? = (e.startPostings start).map (RankMap.empty.addPostings metaId?) := by
  rw [startScores, startPostings]
  cases e.index.words.startingWith start.utf8 with
  | error fault => rfl
  | ok range =>
    change e.addWords metaId? .empty (List.range' range.1 (range.2 - range.1)) = _
    rw [addWords_eq_map]
    change _ = Except.map _ (List.mapM e.index.wordWithPostings _ >>= _)
    cases (List.range' range.1 (range.2 - range.1)).mapM e.index.wordWithPostings <;> rfl

end Evaluator

end WordIndex
