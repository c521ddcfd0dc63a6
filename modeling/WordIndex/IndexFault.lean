import WordIndex.TextForms

/-! # What can be wrong with the bytes of an index -/
namespace WordIndex

/-- The tables of an index, in the order in which they are laid out. -/
inductive SegmentKind
  | words
  | stopWords
  | directories
  | files
  | metaNames
  deriving DecidableEq

namespace SegmentKind

def all : List SegmentKind := [words, stopWords, directories, files, metaNames]

def ordinal : SegmentKind → Nat
  | words => 0
  | stopWords => 1
  | directories => 2
  | files => 3
  | metaNames => 4

def name : SegmentKind → String
  | words => "words"
  | stopWords => "stop-words"
  | directories => "directories"
  | files => "files"
  | metaNames => "meta-names"

theorem mem_all (kind : SegmentKind) : kind ∈ all := by
  cases kind <;> decide

end SegmentKind

inductive IndexFault
  | numberOverflow
  | numberIncomplete
  | numberTooWide
  | unterminatedString
  | missingStopMarker
  | unknownMarker (marker : UInt8)
  | headerMissing (kind : SegmentKind)
  | countOverflow (kind : SegmentKind)
  | tableTooShort (kind : SegmentKind) (count : Nat)
  | offsetOutside (kind : SegmentKind) (entry : Nat) (offset : Int)
  | offsetBackwards (kind : SegmentKind) (entry : Nat) (offset : Nat)
  | entryOutOfRange (kind : SegmentKind) (entry count : Nat)
  | entryOutOfBounds (kind : SegmentKind) (entry : Nat)
  | fileTooShort (path : Text)
  deriving DecidableEq

namespace IndexFault

private def paddedHexadecimal (n : Nat) : String :=
  String.ofList (if n < 16 then '0' :: Text.hexadecimal n else Text.hexadecimal n)

def message : IndexFault → String
  | numberOverflow => "varint overflow"
  | numberIncomplete => "incomplete varint"
  | numberTooWide => "varint exceeds 32 bits"
  | unterminatedString => "unterminated string"
  | missingStopMarker => "postings stream has no stop marker"
  | unknownMarker marker => s!"unknown postings marker 0x{paddedHexadecimal marker.toNat}"
  | headerMissing kind => s!"{kind.name} segment header past end of file"
  | countOverflow kind => s!"{kind.name} segment count overflows"
  | tableTooShort kind count =>
    s!"{kind.name} segment claims {count} entries but the file is too short"
  | offsetOutside kind entry offset =>
    s!"{kind.name} entry {entry} has offset {offset} outside the entry region"
  | offsetBackwards kind entry offset => s!"{kind.name} entry {entry} offset {offset} goes backwards"
  | entryOutOfRange kind entry count =>
    s!"{kind.name} entry {entry} out of range (segment has {count})"
  | entryOutOfBounds kind entry => s!"{kind.name} entry {entry} out of bounds"
  | fileTooShort path => s!"{String.ofList path}: file too short to hold segment headers"

end IndexFault

end WordIndex
