import WordIndex.QueryParser
import WordIndex.RankMap
import WordIndex.PostingsCount
import WordIndex.EntryRecords

/-! # Evaluating a query against an index -/
namespace WordIndex

/-! ## What an evaluation reports beside its result -/

inductive Note
  | stopWord (word : Text)
  | tooFrequent (word : Text) (files : Nat)
  | unknownMetaName (name : Text)
  deriving DecidableEq

namespace Note

/-- The word that is not searched for because of what was met. -/
def ignored? : Note → Option Text
  | stopWord word => some word
  | tooFrequent word _ => some word
  | unknownMetaName _ => none

end Note

/-- The words that were not searched for, each where it is met first. -/
def ignoredWords (notes : List Note) : List Text := (notes.filterMap Note.ignored?).eraseDups

/-- A result and the notes taken on the way to it, in order. A fault ends the way and leaves the
notes. -/
structure Noted (α : Type) where
  notes : List Note
  result : Except IndexFault α

namespace Noted

variable {α β : Type}

def ofResult (result : Except IndexFault α) : Noted α := ⟨[], result⟩

def noting (note : Note) (a : α) : Noted α := ⟨[note], .ok a⟩

def bind (x : Noted α) (f : α → Noted β) : Noted β :=
  match x.result with
  | .error fault => ⟨x.notes, .error fault⟩
  | .ok a => ⟨x.notes ++ (f a).notes, (f a).result⟩

instance : Monad Noted where
  pure a := ofResult (.ok a)
  bind := bind

@[ext] theorem ext {x y : Noted α} (h₁ : x.notes = y.notes) (h₂ : x.result = y.result) : x = y := by
  cases x; cases y; congr

@[simp] theorem pure_eq (a : α) : (pure a : Noted α) = ⟨[], .ok a⟩ := rfl

theorem bind_eq (x : Noted α) (f : α → Noted β) : x >>= f = x.bind f := rfl

theorem ofResult_ok_bind (a : α) (f : α → Noted β) : ofResult (.ok a) >>= f = f a := by
  simp [bind_eq, bind, ofResult]

theorem result_bind {x : Noted α} {a : α} (h : x.result = .ok a) (f : α → Noted β) :
    (x >>= f).result = (f a).result := by
  rw [bind_eq, bind, h]

instance : LawfulMonad Noted :=
  .mk' Noted
    (fun x => by
      obtain ⟨notes, result⟩ := x
      cases result <;> simp [Functor.map, bind, ofResult])
    (fun a f => by simp [bind_eq, bind])
    (fun x f g => by
      obtain ⟨notes, result⟩ := x
      cases result with
      | error => simp [bind_eq, bind]
      | ok a =>
        simp only [bind_eq, bind]
        cases (f a).result <;> simp)

end Noted

/-! ## Evaluation -/

/-- An index and how words are looked up in it: the form in which they are indexed, and above how
many files, or what part of all files, they are not searched for. -/
structure Evaluator where
  index : Store
  stemmer : Text → Text := id
  filesMax? : Option Nat := none
  percentMax? : Option Nat := none

namespace Evaluator

/-- Whether a word in so many files is not searched for. The part of all files is compared in
64-bit arithmetic. -/
def tooFrequent (e : Evaluator) (count : Nat) : Bool :=
  e.filesMax?.any (· < count) ||
    e.percentMax?.any fun percent =>
      0 < e.index.files.size &&
        percent * e.index.files.size % bound64 < count * 100 % bound64

def addEntry (metaId? : Option Nat) (m : RankMap) (entry : WordEntry) :
    Except IndexFault RankMap := do
  return m.addPostings metaId? (← Postings.decode entry.stream)

def entryScores (e : Evaluator) (word : Text) (metaId? : Option Nat) (entry : WordEntry) :
    Noted RankMap := do
  if e.filesMax?.isSome || e.percentMax?.isSome then
    let count ← .ofResult (Postings.count entry.stream)
    if e.tooFrequent count then return ← .noting (.tooFrequent word count) .empty
  .ofResult (addEntry metaId? .empty entry)

def wordScores (e : Evaluator) (word : Text) (metaId? : Option Nat) : Noted RankMap := do
  if ← .ofResult (e.index.stopWords.contains word.utf8) then
    .noting (.stopWord word) .empty
  else
    match ← .ofResult (e.index.words.find? (e.stemmer word).utf8) with
    | none => return .empty
    | some i =>
      let entry ← .ofResult (e.index.words.entry i >>= WordEntry.ofBytes)
      e.entryScores word metaId? entry

def addWords (e : Evaluator) (metaId? : Option Nat) (m : RankMap) :
    List Nat → Except IndexFault RankMap
  | [] => .ok m
  | i :: rest => do
    let entry ← e.index.words.entry i >>= WordEntry.ofBytes
    e.addWords metaId? (← addEntry metaId? m entry) rest

def startScores (e : Evaluator) (start : Text) (metaId? : Option Nat) :
    Except IndexFault RankMap := do
  let (first, stop) ← e.index.words.startingWith start.utf8
  e.addWords metaId? .empty (List.range' first (stop - first))

/-- The scores of the files that a query finds when words count only under a meta name, or
anywhere when there is none. -/
def evaluate (e : Evaluator) : QueryTree → (metaId? : Option Nat) → Noted RankMap
  | .word word, metaId? => e.wordScores word metaId?
  | .startingWith start, metaId? => .ofResult (e.startScores start metaId?)
  | .within name tree, _ => do
    match ← .ofResult (e.index.metaNames.find? name.utf8) with
    | none => .noting (.unknownMetaName name) .empty
    | some id => e.evaluate tree (some (id % bound32))
  | .both left right, metaId? => do
    return (← e.evaluate left metaId?).intersect (← e.evaluate right metaId?)
  | .either left right, metaId? => do
    return (← e.evaluate left metaId?).union (← e.evaluate right metaId?)
  | .without left right, metaId? => do
    return (← e.evaluate left metaId?).without (← e.evaluate right metaId?)
  | .complement tree, metaId? => do
    return (← e.evaluate tree metaId?).complement (e.index.files.size % bound32)

def search (e : Evaluator) (tree : QueryTree) : Noted RankMap := e.evaluate tree none

end Evaluator

end WordIndex
