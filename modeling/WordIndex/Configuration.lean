import WordIndex.Utf8

/-! # What shapes a search and the search daemon -/
namespace WordIndex

/-! ## Absolute paths -/

namespace Path

def parts (path : Text) : List Text := path.splitOn '/'

/-- The parts that lead somewhere: neither empty nor a dot. -/
def steps (path : Text) : List Text := (parts path).filter fun part => part ≠ [] ∧ part ≠ ['.']

def isAbsolute (path : Text) : Bool := path.head? == some '/'

/-- The root of an absolute path: two slashes stay two, and any other number is one. -/
def root (path : Text) : Text :=
  match path with
  | '/' :: '/' :: '/' :: _ => ['/']
  | '/' :: '/' :: _ => ['/', '/']
  | _ => ['/']

/-- A path followed by more parts, with one slash before each. -/
def extend (path : Text) (parts : List Text) : Text :=
  parts.foldl (fun path part =>
    if path.getLast? = some '/' then path ++ part else path ++ '/' :: part) path

/-- The absolute form of a path that is not empty. Parts that lead nowhere are left out, two dots
stay, and so does a slash at the end. -/
def absolute (currentDirectory path : Text) : Option Text :=
  if path = [] then none
  else
    let base := if isAbsolute path then root path else currentDirectory
    let last := if path.getLast? = some '/' then [[]] else []
    some (extend base (steps path ++ last))

def parent (path : Text) : Text :=
  extend (if isAbsolute path then root path else []) (steps path).dropLast

end Path

/-! ## What shapes a search -/

inductive ReportFormat
  | classic
  | xml
  | json
  deriving DecidableEq

namespace ReportFormat

def name : ReportFormat → String
  | classic => "classic"
  | xml => "xml"
  | json => "json"

def ofName? (name : Text) : Option ReportFormat :=
  [classic, xml, json].find? fun format => format.name.toList == name

end ReportFormat

structure SearchConfig where
  indexFile : Text := "ferret.index".toList
  maxResults : Nat := 100
  skipResults : Nat := 0
  separator : Text := [' ']
  format : ReportFormat := .classic
  stemWords : Bool := false
  filesMax? : Option Nat := none
  percentMax? : Option Nat := none
  deriving DecidableEq

/-! ## What shapes the daemon -/

inductive SocketChoice
  | none
  | tcp
  | unix
  | both
  deriving DecidableEq

namespace SocketChoice

def name : SocketChoice → String
  | none => "none"
  | tcp => "tcp"
  | unix => "unix"
  | both => "both"

def ofName? (name : Text) : Option SocketChoice :=
  [none, tcp, unix, both].find? fun choice => choice.name.toList == name

def usesTcp : SocketChoice → Bool
  | tcp | both => true
  | none | unix => false

def usesUnix : SocketChoice → Bool
  | unix | both => true
  | none | tcp => false

end SocketChoice

/-- The options of a daemon. Times are in milliseconds; with no least number of threads there are
as many as processors. -/
structure DaemonConfig where
  sockets : SocketChoice := .none
  address : Text := "*:1967".toList
  socketFile : Text := "/tmp/ferret.socket".toList
  minThreads? : Option Nat := none
  maxThreads : Nat := 100
  socketTimeout : Nat := 10000
  threadTimeout : Nat := 30000
  queueSize : Nat := 511
  maxArguments : Nat := 50
  maxLineLength : Nat := 1024
  user? : Option Text := none
  group? : Option Text := none
  pidFile? : Option Text := none
  background : Bool := true
  deriving DecidableEq

namespace DaemonConfig

/-- The options with bounds that fit together: at least one thread, no more than the most of them,
and room for one connection in the queue. -/
def normalized (c : DaemonConfig) : DaemonConfig :=
  let most := max c.maxThreads 1
  { c with
    maxThreads := most
    minThreads? := c.minThreads?.map fun least => min (max least 1) most
    queueSize := max c.queueSize 1 }

/-- The options with absolute paths, unless a path is empty. -/
def withAbsolutePaths (c : DaemonConfig) (currentDirectory : Text) : Option DaemonConfig := do
  let socketFile ← Path.absolute currentDirectory c.socketFile
  match c.pidFile? with
  | none => return { c with socketFile }
  | some path => return { c with socketFile, pidFile? := some (← Path.absolute currentDirectory path) }

theorem maxThreads_normalized_pos (c : DaemonConfig) : 0 < c.normalized.maxThreads :=
  Nat.le_max_right _ _

theorem minThreads_normalized {c : DaemonConfig} {least : Nat}
    (h : c.normalized.minThreads? = some least) : 1 ≤ least ∧ least ≤ c.normalized.maxThreads := by
  obtain ⟨n, -, rfl⟩ := Option.map_eq_some_iff.1 h
  have := maxThreads_normalized_pos c
  simp only [normalized] at this ⊢
  omega

end DaemonConfig

end WordIndex
