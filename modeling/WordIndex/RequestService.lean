import WordIndex.Failure
import WordIndex.PorterStemmer
import WordIndex.QueryEvaluation
import WordIndex.RankedResults
import WordIndex.ReportWriter

/-! # Answering what is asked of an index -/
namespace WordIndex

/-! ## Answers: pieces that are written one after the other until a failure -/

/-- What is written, piece by piece, and the failure that ends it if there is one. -/
structure Answer where
  writes : List Bytes := []
  failure? : Option Failure := none
  deriving DecidableEq

namespace Answer

def bytes (a : Answer) : Bytes := a.writes.flatten

def ofTexts (pieces : List Text) : Answer := { writes := pieces.map Text.utf8 }

def failing (f : Failure) : Answer := { failure? := some f }

/-- One answer and, unless it fails, another one. -/
def andThen (a b : Answer) : Answer :=
  match a.failure? with
  | some _ => a
  | none => { writes := a.writes ++ b.writes, failure? := b.failure? }

def ofResult {α : Type} (result : Except Failure α) (f : α → Answer) : Answer :=
  match result with
  | .error failure => failing failure
  | .ok a => f a

def ofIndex {α : Type} (result : Except IndexFault α) (f : α → Answer) : Answer :=
  ofResult (result.mapError .index) f

def each {α : Type} (f : α → Answer) : List α → Answer
  | [] => {}
  | a :: rest => (f a).andThen (each f rest)

@[simp] theorem andThen_empty (a : Answer) : a.andThen {} = a := by
  obtain ⟨writes, failure?⟩ := a
  cases failure? <;> simp [andThen]

@[simp] theorem empty_andThen (a : Answer) : andThen {} a = a := by
  simp [andThen]

theorem andThen_assoc (a b c : Answer) : (a.andThen b).andThen c = a.andThen (b.andThen c) := by
  obtain ⟨writes, failure?⟩ := a
  cases failure? with
  | some f => rfl
  | none =>
    obtain ⟨writes', failure?'⟩ := b
    cases failure?' <;> simp [andThen]

end Answer

/-! ## Requests -/

namespace SearchConfig

def evaluator (c : SearchConfig) (index : Store) : Evaluator where
  index
  stemmer := if c.stemWords then PorterStemmer.stem else id
  filesMax? := c.filesMax?
  percentMax? := c.percentMax?

end SearchConfig

structure SearchReport where
  ignored : List Text
  ranked : RankedResults
  deriving DecidableEq

namespace SearchReport

def ofQuery (index : Store) (config : SearchConfig) (query : Text) : Except Failure SearchReport :=
  match QueryTree.ofText query with
  | .error fault => .error (.query fault)
  | .ok tree =>
    let found := (config.evaluator index).search tree
    match found.result with
    | .error fault => .error (.index fault)
    | .ok scores =>
      .ok ⟨ignoredWords found.notes, scores.results config.skipResults config.maxResults⟩

def writeResults (index : Store) (w : ReportWriter) : List RankedResult → Answer
  | [] => .ofTexts w.finish.1
  | r :: rest =>
    .ofIndex (ResultRecord.ofFile index r.file r.displayRank) fun record =>
      (Answer.ofTexts (w.add record).1).andThen (writeResults index (w.add record).2 rest)

def write (index : Store) (config : SearchConfig) (report : SearchReport) : Answer :=
  let w := ReportWriter.ofFormat config.format config.separator
  let started := w.start report.ignored report.ranked.total
  (Answer.ofTexts started.1).andThen (writeResults index started.2 report.ranked.results)

end SearchReport

namespace Request

def lineEnd : Answer := .ofTexts [['\n']]

def line (s : Bytes) : Answer := Answer.andThen { writes := [s] } lineEnd

def posting (index : Store) (indent separator : Text) (p : Posting) : Answer :=
  .ofIndex (index.fileRecord p.file) fun r =>
    .ofIndex (index.filePath r) fun path =>
      .ofTexts [indent, Text.decimal p.occurrences, [' '], Text.decimal p.rank, separator, path,
        separator, Text.decimal r.size, separator, Utf8.lossy r.title, ['\n']]

/-- One line for each posting of a stream, up to the first fault. -/
def postings (index : Store) (indent separator : Text) (stream : Bytes) : Answer :=
  let drained := Postings.drain stream
  (Answer.each (posting index indent separator) drained.1).andThen
    { failure? := drained.2.map .index }

def ignoredLine (word : Text) : Answer := .ofTexts ["# ignored: ".toList, word, ['\n']]

def missingLine (word : Text) : Answer := .ofTexts ["# not found: ".toList, word, ['\n']]

def wordPostings (index : Store) (config : SearchConfig) (i : Nat) : Answer :=
  .ofIndex (index.words.entry i >>= WordEntry.ofBytes) fun entry =>
    (postings index [] config.separator entry.stream).andThen lineEnd

def dumpWord (index : Store) (config : SearchConfig) (word : Text) : Answer :=
  let lower := word.lowercase
  .ofIndex (index.stopWords.contains lower.utf8) fun isStopWord =>
    if isStopWord then ignoredLine word
    else
      let key := if config.stemWords then PorterStemmer.stem lower else lower
      .ofIndex (index.words.find? key.utf8) fun found? =>
        match found? with
        | none => missingLine word
        | some i => wordPostings index config i

def dumpEntry (index : Store) (config : SearchConfig) (i : Nat) : Answer :=
  .ofIndex (index.words.entry i >>= WordEntry.ofBytes) fun entry =>
    ((line entry.word).andThen
      (postings index "  ".toList config.separator entry.stream)).andThen lineEnd

def dumpSegment (s : Segment) : Answer :=
  Answer.each (fun string => .ofIndex string line) s.strings

/-- Words from some positions on while they agree with `wanted` in as many bytes, at most `room` of
them. Lesser words are passed over and the first greater one ends the window. -/
def windowLines (words : Segment) (matchLength : Nat) (wanted : Bytes) :
    (room : Nat) → List Nat → Answer
  | 0, _ | _, [] => {}
  | room + 1, i :: rest =>
    .ofIndex (words.string i) fun word =>
      if word.take matchLength < wanted then windowLines words matchLength wanted (room + 1) rest
      else if wanted < word.take matchLength then {}
      else (line word).andThen (windowLines words matchLength wanted room rest)

/-- The words around a word, from half a window before it. -/
def dumpAround (index : Store) (window : Window) (word : Text) : Answer :=
  let key := word.lowercase.utf8
  .ofIndex (index.stopWords.contains key) fun isStopWord =>
    if isStopWord then ignoredLine word
    else
      .ofIndex (index.words.find? key) fun found? =>
        match found? with
        | none => missingLine word
        | some found =>
          let first := found - window.size / 2
          (windowLines index.words window.matchLength (key.take window.matchLength) window.size
            (List.range' first (index.words.size - first))).andThen lineEnd

def answer (index : Store) (config : SearchConfig) : Request → Answer
  | .search query =>
    .ofResult (SearchReport.ofQuery index config query) (SearchReport.write index config)
  | .dumpWords words => Answer.each (dumpWord index config) words
  | .dumpIndex => Answer.each (dumpEntry index config) (List.range index.words.size)
  | .dumpStopWords => dumpSegment index.stopWords
  | .dumpMetaNames => dumpSegment index.metaNames
  | .dumpWindow window words => Answer.each (dumpAround index window) words

end Request

namespace SearchArguments

/-- Answers what arguments ask for. The arguments apply over the options in `base`. -/
def answer (a : SearchArguments) (index : Store) (base : SearchConfig) : Answer :=
  .ofResult (a.request.mapError .usage) (Request.answer index (a.searchConfig base))

end SearchArguments

end WordIndex
