import WordIndex.SegmentStore
import WordIndex.Postings

/-! # Building the bytes of an index -/
namespace WordIndex

/-! ## Names in increasing order of their UTF-8 form -/

def Text.precedes (s t : Text) : Bool := decide (s.utf8 < t.utf8)

/-- Puts a name in its place in a list in increasing order, unless it is there. -/
def insertName (name : Text) : List Text → List Text
  | [] => [name]
  | first :: rest =>
    if name = first then first :: rest
    else if name.precedes first then name :: first :: rest
    else first :: insertName name rest

def sortedNames (names : List Text) : List Text := names.foldr insertName []

theorem mem_insertName {name other : Text} {names : List Text} :
    other ∈ insertName name names ↔ other = name ∨ other ∈ names := by
  induction names with
  | nil => simp [insertName]
  | cons first rest ih =>
    rw [insertName]
    split
    · next h => simp [h]
    · split
      · simp
      · simp [ih, or_left_comm]

@[simp] theorem mem_sortedNames {name : Text} {names : List Text} :
    name ∈ sortedNames names ↔ name ∈ names := by
  induction names with
  | nil => simp [sortedNames]
  | cons first rest ih => simpa [sortedNames, mem_insertName] using or_congr_right ih

/-- A key in a list in increasing order and what is added to it: a known key keeps its place and
gets the new values after its own. -/
def insertValues {α : Type} (key : Text) (values : List α) :
    List (Text × List α) → List (Text × List α)
  | [] => [(key, values)]
  | first :: rest =>
    if key = first.1 then (first.1, first.2 ++ values) :: rest
    else if key.precedes first.1 then (key, values) :: first :: rest
    else first :: insertValues key values rest

/-! ## What is added and what is built -/

structure IndexedFile where
  directory : Nat
  name : Text
  size : Nat
  title : Text
  deriving DecidableEq

inductive Addition
  | word (word : Text) (postings : List Posting)
  | stopWord (word : Text)
  | directory (path : Text)
  | file (file : IndexedFile)
  | metaName (name : Text)

inductive BuildFault
  | unknownFile (word : Text) (file : Nat)
  | unknownMetaName (id : Nat)
  | unknownDirectory (id : Nat)
  deriving DecidableEq

namespace BuildFault

def message : BuildFault → String
  | unknownFile word file =>
    s!"word {String.ofList word.quoted} refers to unknown file {file}"
  | unknownMetaName id => s!"unknown meta id {id}"
  | unknownDirectory id => s!"unknown directory id {id}"

end BuildFault

/-- What was added so far. The words are in increasing order, with their postings in the order in
which they were added; the rest is in the order in which it was added. -/
structure IndexBuilder where
  words : List (Text × List Posting) := []
  stopWords : List Text := []
  directories : List Text := []
  files : List IndexedFile := []
  metaNames : List Text := []

namespace IndexBuilder

/-- Adds postings of a word, which is kept in lowercase. -/
def addWord (b : IndexBuilder) (word : Text) (postings : List Posting) : IndexBuilder :=
  { b with words := insertValues word.lowercase postings b.words }

def addStopWord (b : IndexBuilder) (word : Text) : IndexBuilder :=
  { b with stopWords := b.stopWords ++ [word.lowercase] }

def withName (names : List Text) (name : Text) : List Text :=
  if name ∈ names then names else names ++ [name]

def addDirectory (b : IndexBuilder) (path : Text) : IndexBuilder :=
  { b with directories := withName b.directories path }

def addFile (b : IndexBuilder) (file : IndexedFile) : IndexBuilder :=
  { b with files := b.files ++ [file] }

def addMetaName (b : IndexBuilder) (name : Text) : IndexBuilder :=
  { b with metaNames := withName b.metaNames name.lowercase }

def directoryId (b : IndexBuilder) (path : Text) : Nat := b.directories.idxOf path

def metaNameId (b : IndexBuilder) (name : Text) : Nat := b.metaNames.idxOf name.lowercase

def add (b : IndexBuilder) : Addition → IndexBuilder
  | .word word postings => b.addWord word postings
  | .stopWord word => b.addStopWord word
  | .directory path => b.addDirectory path
  | .file file => b.addFile file
  | .metaName name => b.addMetaName name

/-- The number that an addition gets, where things of its kind are numbered. -/
def idOf? (b : IndexBuilder) : Addition → Option Nat
  | .word .. | .stopWord _ => none
  | .directory path => some ((b.addDirectory path).directoryId path)
  | .file _ => some b.files.length
  | .metaName name => some ((b.addMetaName name).metaNameId name)

def ofAdditions (additions : List Addition) : IndexBuilder := additions.foldl add {}

/-- The position of the `id`-th name among the names in increasing order. -/
def sortedPosition? (names : List Text) (id : Nat) : Option Nat :=
  names[id]?.map (sortedNames names).idxOf

/-- Numbers up to a stop marker, after the marker of their list; nothing for no numbers. -/
def encodeList (marker : UInt8) (values : List Nat) : Bytes :=
  if values.isEmpty then []
  else marker :: values.flatMap Varint.encode ++ [Postings.stopMarker]

/-- The distances from each position to the next. A position that is not after `previous` is at
no distance. -/
def distances (previous : Nat) : List Nat → List Nat
  | [] => []
  | position :: rest => (position - previous) :: distances position rest

def sortedMetaIds (b : IndexBuilder) : List Nat → Except BuildFault (List Nat)
  | [] => .ok []
  | id :: rest =>
    match sortedPosition? b.metaNames id with
    | none => .error (.unknownMetaName id)
    | some position => (b.sortedMetaIds rest).map (position :: ·)

/-- The bytes of a posting up to the marker after it. -/
def encodePosting (b : IndexBuilder) (word : Text) (p : Posting) : Except BuildFault Bytes := do
  if b.files.length ≤ p.file then throw (.unknownFile word p.file)
  let ids ← b.sortedMetaIds p.metaIds
  return Varint.encode p.file ++ Varint.encode p.occurrences ++ Varint.encode p.rank ++
    encodeList Postings.metaMarker ids ++
    encodeList Postings.positionMarker (distances 0 p.positions)

def encodePostings (b : IndexBuilder) (word : Text) : List Posting → Except BuildFault Bytes
  | [] => .ok [Postings.stopMarker]
  | [p] => do return (← b.encodePosting word p) ++ [Postings.stopMarker]
  | p :: q :: rest => do
    let first ← b.encodePosting word p
    let others ← b.encodePostings word (q :: rest)
    return first ++ Postings.continueMarker :: others

def encodeWord (b : IndexBuilder) (word : Text × List Posting) : Except BuildFault Bytes := do
  return word.1.utf8.terminated ++ (← b.encodePostings word.1 word.2)

def encodeFile (b : IndexBuilder) (file : IndexedFile) : Except BuildFault Bytes :=
  match sortedPosition? b.directories file.directory with
  | none => .error (.unknownDirectory file.directory)
  | some directory =>
    .ok (Varint.encode directory ++ file.name.utf8.terminated ++ Varint.encode file.size ++
      file.title.utf8.terminated)

def encodeNames (names : List Text) : List Bytes :=
  (sortedNames names).map fun name => name.utf8.terminated

def entries (b : IndexBuilder) : Except BuildFault (PerSegment (List Bytes)) := do
  let words ← b.words.mapM b.encodeWord
  let files ← b.files.mapM b.encodeFile
  return {
    words
    stopWords := encodeNames b.stopWords
    directories := encodeNames b.directories
    files
    metaNames := encodeNames b.metaNames }

def tablesLength : List (List Bytes) → Nat
  | [] => 0
  | entries :: rest => wordWidth + entries.length * wordWidth + tablesLength rest

def offsetsFrom (offset : Nat) : List Bytes → List Nat
  | [] => []
  | entry :: rest => offset :: offsetsFrom (offset + entry.length) rest

/-- The tables of segments whose entries follow each other from `offset` on. -/
def tablesFrom (offset : Nat) : List (List Bytes) → Bytes
  | [] => []
  | entries :: rest =>
    Bytes.ofLittleEndian wordWidth entries.length ++
      (offsetsFrom offset entries).flatMap (Bytes.ofLittleEndian wordWidth) ++
      tablesFrom (offset + entries.flatten.length) rest

def layOut (segments : List (List Bytes)) : Bytes :=
  tablesFrom (tablesLength segments) segments ++ segments.flatten.flatten

def encode (b : IndexBuilder) : Except BuildFault Bytes := do
  return layOut (← b.entries).toList

end IndexBuilder

end WordIndex
