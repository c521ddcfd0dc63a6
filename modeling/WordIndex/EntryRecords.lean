import WordIndex.Varint
import WordIndex.SegmentStore

/-! # Word entries, file records and what is shown of a file -/
namespace WordIndex

structure WordEntry where
  word : Bytes
  stream : Bytes
  deriving DecidableEq

namespace WordEntry

/-- Splits an entry at its first zero byte. -/
def ofBytes (s : Bytes) : Except IndexFault WordEntry :=
  match s.splitAtZero with
  | none => .error .unterminatedString
  | some (word, stream) => .ok { word, stream }

end WordEntry

structure FileRecord where
  directory : Nat
  name : Bytes
  size : Nat
  title : Bytes
  deriving DecidableEq

namespace FileRecord

/-- Reads the directory, the name, the size and the title of a file; later bytes are left out. -/
def ofBytes (s : Bytes) : Except IndexFault FileRecord := do
  let (directory, s) ← Varint.decode32 s
  let (name, s) ← string s
  let (size, s) ← Varint.decode s
  let (title, _) ← string s
  return { directory, name, size, title }
where
  string (s : Bytes) : Except IndexFault (Bytes × Bytes) :=
    match s.splitAtZero with
    | none => .error .unterminatedString
    | some p => .ok p

end FileRecord

/-! ## What is shown of a file -/

structure ResultRecord where
  rank : Nat
  path : Text
  size : Nat
  title : Text
  deriving DecidableEq

namespace Store

def fileRecord (s : Store) (i : Nat) : Except IndexFault FileRecord :=
  s.files.entry i >>= FileRecord.ofBytes

/-- The path of a file: its directory, a slash where none ends it, and its name. -/
def filePath (s : Store) (r : FileRecord) : Except IndexFault Text := do
  let directory := Utf8.lossy (← s.directories.string r.directory)
  let slash := if directory = [] ∨ directory.getLast? = some '/' then [] else ['/']
  return directory ++ slash ++ Utf8.lossy r.name

end Store

namespace ResultRecord

def ofFile (s : Store) (i rank : Nat) : Except IndexFault ResultRecord := do
  let r ← s.fileRecord i
  let path ← s.filePath r
  return { rank, path, size := r.size, title := Utf8.lossy r.title }

end ResultRecord

end WordIndex
