import WordIndex.IndexFault

/-! # The five segments of an index, resolved from its bytes

An index starts with one table for each segment, in order: a count and as many signed offsets, each
eight bytes long. The entries follow the tables. -/
namespace WordIndex

structure PerSegment (α : Type) where
  words : α
  stopWords : α
  directories : α
  files : α
  metaNames : α
  deriving DecidableEq

namespace PerSegment

variable {α β : Type}

def get (p : PerSegment α) : SegmentKind → α
  | .words => p.words
  | .stopWords => p.stopWords
  | .directories => p.directories
  | .files => p.files
  | .metaNames => p.metaNames

def ofFn (f : SegmentKind → α) : PerSegment α :=
  ⟨f .words, f .stopWords, f .directories, f .files, f .metaNames⟩

@[simp] theorem get_ofFn (f : SegmentKind → α) (kind : SegmentKind) : (ofFn f).get kind = f kind := by
  cases kind <;> rfl

theorem ext_get {p q : PerSegment α} (h : ∀ kind, p.get kind = q.get kind) : p = q := by
  cases p; cases q
  exact congr (congr (congr (congr (congrArg _ (h .words)) (h .stopWords)) (h .directories))
    (h .files)) (h .metaNames)

def toList (p : PerSegment α) : List α := SegmentKind.all.map p.get

/-- The values of the segments after a kind, in order. -/
def after (p : PerSegment α) (kind : SegmentKind) : List α := p.toList.drop (kind.ordinal + 1)

/-- The values that a step gives when it succeeds for each segment, tried in order. -/
def tryMap {ε : Type} (f : SegmentKind → α → Except ε β) (p : PerSegment α) :
    Except ε (PerSegment β) := do
  let words ← f .words p.words
  let stopWords ← f .stopWords p.stopWords
  let directories ← f .directories p.directories
  let files ← f .files p.files
  let metaNames ← f .metaNames p.metaNames
  return ⟨words, stopWords, directories, files, metaNames⟩

end PerSegment

/-- The width in bytes of a count and of an offset. -/
def wordWidth : Nat := 8

def signedWords : (count : Nat) → Bytes → List Int
  | 0, _ => []
  | count + 1, s =>
    Bytes.signed64 (Bytes.littleEndian (s.take wordWidth)) :: signedWords count (s.drop wordWidth)

@[simp] theorem length_signedWords (count : Nat) (s : Bytes) :
    (signedWords count s).length = count := by
  induction count generalizing s with
  | zero => rfl
  | succ count ih => simp [signedWords, ih]

/-- Reads the table of one segment and gives the bytes after it. -/
def readTable (kind : SegmentKind) (s : Bytes) : Except IndexFault (List Int × Bytes) :=
  if s.length < wordWidth then .error (.headerMissing kind)
  else
    let count := Bytes.littleEndian (s.take wordWidth)
    let rest := s.drop wordWidth
    if bound64 ≤ count * wordWidth then .error (.countOverflow kind)
    else if rest.length < count * wordWidth then .error (.tableTooShort kind count)
    else .ok (signedWords count rest, rest.drop (count * wordWidth))

def readTables (s : Bytes) : Except IndexFault (PerSegment (List Int) × Bytes) := do
  let (words, s) ← readTable .words s
  let (stopWords, s) ← readTable .stopWords s
  let (directories, s) ← readTable .directories s
  let (files, s) ← readTable .files s
  let (metaNames, s) ← readTable .metaNames s
  return (⟨words, stopWords, directories, files, metaNames⟩, s)

/-- Checks the offsets of one segment from entry `entry` on: each lies from `start` up to `stop`
and none before the offset `previous` of the entry before it. -/
def checkOffsets (kind : SegmentKind) (start stop : Nat) :
    (entry previous : Nat) → List Int → Except IndexFault (List Nat)
  | _, _, [] => .ok []
  | entry, previous, offset :: rest =>
    if offset < start ∨ stop ≤ offset then .error (.offsetOutside kind entry offset)
    else if offset.toNat < previous then .error (.offsetBackwards kind entry offset.toNat)
    else (checkOffsets kind start stop (entry + 1) offset.toNat rest).map (offset.toNat :: ·)

/-- Where the last of the entries at `offsets` ends: at the least first offset of a `later` segment
that is not before it, or else at `stop`. -/
def lastEntryEnd (offsets : List Nat) (later : List (List Nat)) (stop : Nat) : Nat :=
  match offsets.getLast? with
  | none => stop
  | some last => (((later.filterMap List.head?).filter (last ≤ ·)).min?).getD stop

/-- A segment: where its entries start in the bytes of the index and where the last one ends. -/
structure Segment where
  kind : SegmentKind
  data : Bytes
  offsets : List Nat
  limit : Nat

namespace Segment

def size (s : Segment) : Nat := s.offsets.length

/-- Where an entry ends: where the next one starts, the last one at the limit. -/
def entryStop (s : Segment) (i : Nat) : Nat := s.offsets[i + 1]?.getD s.limit

def entry (s : Segment) (i : Nat) : Except IndexFault Bytes :=
  match s.offsets[i]? with
  | none => .error (.entryOutOfRange s.kind i s.size)
  | some start =>
    if start ≤ s.entryStop i ∧ s.entryStop i ≤ s.data.length then
      .ok ((s.data.drop start).take (s.entryStop i - start))
    else .error (.entryOutOfBounds s.kind i)

theorem entry_eq_ok_iff {s : Segment} {i : Nat} {bytes : Bytes} :
    s.entry i = .ok bytes ↔ ∃ start, s.offsets[i]? = some start ∧ start ≤ s.entryStop i ∧
      s.entryStop i ≤ s.data.length ∧
        bytes = (s.data.drop start).take (s.entryStop i - start) := by
  rw [entry]
  cases hstart : s.offsets[i]? with
  | none => simp
  | some start =>
    by_cases hinside : start ≤ s.entryStop i ∧ s.entryStop i ≤ s.data.length
    · simp [hinside, eq_comm]
    · simp only [if_neg hinside, reduceCtorEq, Option.some.injEq, exists_eq_left', false_iff]
      exact fun h => hinside ⟨h.1, h.2.1⟩

theorem length_entry_le {s : Segment} {i : Nat} {bytes : Bytes} (h : s.entry i = .ok bytes) :
    bytes.length ≤ s.data.length := by
  obtain ⟨start, -, -, -, rfl⟩ := entry_eq_ok_iff.1 h
  rw [List.length_take, List.length_drop]
  omega

/-- The string that an entry starts with, up to its zero byte. -/
def string (s : Segment) (i : Nat) : Except IndexFault Bytes := do
  match Bytes.splitAtZero (← s.entry i) with
  | none => throw .unterminatedString
  | some (string, _) => return string

def strings (s : Segment) : List (Except IndexFault Bytes) := (List.range s.size).map s.string

end Segment

/-- An index whose tables were checked. -/
structure Store where
  data : Bytes
  segments : PerSegment Segment

namespace Store

def ofBytes (data : Bytes) : Except IndexFault Store := do
  let (tables, rest) ← readTables data
  let start := data.length - rest.length
  let offsets ← tables.tryMap fun kind table => checkOffsets kind start data.length 0 start table
  return {
    data
    segments := .ofFn fun kind => {
      kind
      data
      offsets := offsets.get kind
      limit := lastEntryEnd (offsets.get kind) (offsets.after kind) data.length } }

/-- The length in bytes below which an index file is refused unread. -/
def leastLength : Nat := wordWidth * SegmentKind.all.length

def ofFile (path : Text) (data : Bytes) : Except IndexFault Store :=
  if data.length < leastLength then .error (.fileTooShort path) else ofBytes data

def segment (s : Store) (kind : SegmentKind) : Segment := s.segments.get kind

def words (s : Store) : Segment := s.segments.words

def stopWords (s : Store) : Segment := s.segments.stopWords

def directories (s : Store) : Segment := s.segments.directories

def files (s : Store) : Segment := s.segments.files

def metaNames (s : Store) : Segment := s.segments.metaNames

end Store

/-! ## Ordered lookup in a segment -/

namespace Segment

/-- Searches from `low` up to `high` for the first entry whose string is not `below`, by halving. -/
def search (s : Segment) (below : Bytes → Bool) (low high : Nat) : Except IndexFault Nat :=
  if low < high then
    let middle := low + (high - low) / 2
    match s.string middle with
    | .error fault => .error fault
    | .ok entry => if below entry then s.search below (middle + 1) high else s.search below low middle
  else .ok low
termination_by high - low
decreasing_by all_goals omega

def lowerBound (s : Segment) (key : Bytes) : Except IndexFault Nat :=
  s.search (fun entry => decide (entry < key)) 0 s.size

def find? (s : Segment) (key : Bytes) : Except IndexFault (Option Nat) := do
  let i ← s.lowerBound key
  if i < s.size then return if (← s.string i) = key then some i else none
  else return none

def contains (s : Segment) (key : Bytes) : Except IndexFault Bool :=
  return (← s.find? key).isSome

/-- The range of the entries that start with some bytes: its first entry and the one after its
last. Entries are compared by as many of their bytes. -/
def startingWith (s : Segment) (start : Bytes) : Except IndexFault (Nat × Nat) := do
  let first ← s.search (fun entry => decide (entry.take start.length < start)) 0 s.size
  let stop ← s.search (fun entry => decide (entry.take start.length ≤ start)) 0 s.size
  return (first, max stop first)

end Segment

end WordIndex
