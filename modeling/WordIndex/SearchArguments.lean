import WordIndex.OptionReading
import WordIndex.Configuration
import WordIndex.TextForms

/-! # The arguments of a command or a request -/
namespace WordIndex

/-- A window of words: how many are shown, and how many of their bytes agree. -/
structure Window where
  size : Nat
  matchLength : Nat
  deriving DecidableEq

namespace Window

/-- Reads a window: a size above zero and, after a comma, how many bytes agree. -/
def ofText? (t : Text) : Option Window :=
  let size? := Text.number? bound64 (Text.trim (t.takeWhile (· != ',')))
  let matchLength? :=
    match (t.dropWhile (· != ',')).tail? with
    | none => some 0
    | some m => Text.number? bound64 (Text.trim m)
  match size?, matchLength? with
  | some (size + 1), some matchLength => some ⟨size + 1, matchLength⟩
  | _, _ => none

end Window

inductive Request
  | search (query : Text)
  | dumpWords (words : List Text)
  | dumpIndex
  | dumpStopWords
  | dumpMetaNames
  | dumpWindow (window : Window) (words : List Text)
  deriving DecidableEq

inductive UsageFault
  | options (fault : OptionFault)
  | noWords
  | noQuery
  | notInRequest
  | daemonWords
  deriving DecidableEq

namespace UsageFault

/-- What a fault says, unless it is for the option listing to say. -/
def message? : UsageFault → Option String
  | options _ => none
  | noWords => some "no words given"
  | noQuery => some "no query given"
  | notInRequest => some "daemon and index options are not allowed in a request"
  | daemonWords => some "a daemon takes no query words"

end UsageFault

structure SearchArguments where
  given : List OptionName := []
  indexFile? : Option Text := none
  maxResults? : Option Nat := none
  skipResults? : Option Nat := none
  separator? : Option Text := none
  format? : Option ReportFormat := none
  wordFiles? : Option Nat := none
  wordPercent? : Option Nat := none
  window? : Option Window := none
  /-- How often more log lines were asked for. -/
  verbose : Nat := 0
  daemonType? : Option SocketChoice := none
  socketAddress? : Option Text := none
  socketFile? : Option Text := none
  minThreads? : Option Nat := none
  maxThreads? : Option Nat := none
  socketTimeout? : Option Nat := none
  threadTimeout? : Option Nat := none
  queueSize? : Option Nat := none
  maxArguments? : Option Nat := none
  pidFile? : Option Text := none
  user? : Option Text := none
  group? : Option Text := none
  words : List Text := []
  deriving DecidableEq

namespace SearchArguments

def number (value : Text) : Except OptionFault (Option Nat) :=
  match Text.number? bound64 value with
  | none => .error .valueValidation
  | some n => .ok (some n)

def path (value : Text) : Except OptionFault (Option Text) :=
  if value = [] then .error .invalidValue else .ok (some value)

def named {α : Type} (found? : Option α) : Except OptionFault (Option α) :=
  match found? with
  | none => .error .invalidValue
  | some a => .ok (some a)

def percent (value : Text) : Except OptionFault (Option Nat) :=
  match Text.number? 101 value with
  | some (n + 1) => .ok (some (n + 1))
  | _ => .error .valueValidation

def window (value : Text) : Except OptionFault (Option Window) :=
  match Window.ofText? value with
  | none => .error .valueValidation
  | some w => .ok (some w)

def setValue (a : SearchArguments) (name : OptionName) (value : Text) :
    Except OptionFault SearchArguments :=
  match name with
  | .indexFile => do return { a with indexFile? := ← path value }
  | .maxResults => do return { a with maxResults? := ← number value }
  | .skipResults => do return { a with skipResults? := ← number value }
  | .separator => return { a with separator? := some value }
  | .format => do return { a with format? := ← named (ReportFormat.ofName? value) }
  | .wordFiles => do return { a with wordFiles? := ← number value }
  | .wordPercent => do return { a with wordPercent? := ← percent value }
  | .window => do return { a with window? := ← window value }
  | .daemonType => do return { a with daemonType? := ← named (SocketChoice.ofName? value) }
  | .socketAddress => return { a with socketAddress? := some value }
  | .socketFile => do return { a with socketFile? := ← path value }
  | .minThreads => do return { a with minThreads? := ← number value }
  | .maxThreads => do return { a with maxThreads? := ← number value }
  | .socketTimeout => do return { a with socketTimeout? := ← number value }
  | .threadTimeout => do return { a with threadTimeout? := ← number value }
  | .queueSize => do return { a with queueSize? := ← number value }
  | .maxArguments => do return { a with maxArguments? := ← number value }
  | .pidFile => do return { a with pidFile? := ← path value }
  | .user => return { a with user? := some value }
  | .group => return { a with group? := some value }
  | _ => return a

/-- Notes that an option was given, which may happen once. -/
def once (a : SearchArguments) (name : OptionName) : Except OptionFault SearchArguments :=
  if name ∈ a.given then .error .argumentConflict else .ok { a with given := a.given ++ [name] }

/-- Puts in an option without a value. Asking for more log lines may be repeated. -/
def setFlag (a : SearchArguments) : OptionName → Except OptionFault SearchArguments
  | .help => .error .displayHelp
  | .version => .error .displayVersion
  | .verbose => .ok { a with verbose := min (a.verbose + 1) 255 }
  | name => a.once name

def put (a : SearchArguments) : CommandPiece → Except OptionFault SearchArguments
  | .word word => .ok { a with words := a.words ++ [word] }
  | .flag name => a.setFlag name
  | .attached name value | .detached name (some value) => do (← a.once name).setValue name value
  | .detached _ none => .error .invalidValue
  | .refused fault => .error fault

/-- Puts in pieces in order. A value that stands in an argument of its own is looked at only when
the next piece is one that can be put in. -/
def putAll (a : SearchArguments) : List CommandPiece → Except OptionFault SearchArguments
  | [] => .ok a
  | .detached _ _ :: .refused fault :: _ => .error fault
  | piece :: rest => do (← a.put piece).putAll rest

/-- The options of which at most one may be given. -/
def dumpOptions : List OptionName := [.dumpWords, .dumpIndex, .dumpStop, .dumpMeta, .window]

def ofArguments (arguments : List Text) : Except OptionFault SearchArguments := do
  let a ← putAll {} (CommandPiece.ofArguments none arguments)
  if 1 < (a.given.filter (dumpOptions.contains ·)).length then throw .argumentConflict
  return a

def isDaemonOption : OptionName → Bool
  | .daemonType | .socketAddress | .socketFile | .minThreads | .maxThreads | .socketTimeout
  | .threadTimeout | .queueSize | .maxArguments | .pidFile | .noBackground | .user | .group => true
  | _ => false

def daemonGiven (a : SearchArguments) : Bool := a.given.any isDaemonOption

/-- Reads the arguments of a request, which may not choose the index or change the daemon. -/
def ofRequest (arguments : List Text) : Except UsageFault SearchArguments :=
  match ofArguments arguments with
  | .error fault => .error (.options fault)
  | .ok a => if a.daemonGiven || a.indexFile?.isSome then .error .notInRequest else .ok a

/-- How much is logged: nothing but errors when quiet, then warnings, what is done, everything. -/
def verbosity (a : SearchArguments) : Nat :=
  if .quiet ∈ a.given then 0 else if a.verbose = 0 then 1 else a.verbose

/-- The options of a search where the arguments say nothing else than `base`. -/
def searchConfig (a : SearchArguments) (base : SearchConfig) : SearchConfig where
  indexFile := a.indexFile?.getD base.indexFile
  maxResults := a.maxResults?.getD base.maxResults
  skipResults := a.skipResults?.getD base.skipResults
  separator := a.separator?.getD base.separator
  format := a.format?.getD base.format
  stemWords := decide (.stemWords ∈ a.given) || base.stemWords
  filesMax? := a.wordFiles?.or base.filesMax?
  percentMax? := a.wordPercent?.or base.percentMax?

def daemonConfig (a : SearchArguments) : DaemonConfig :=
  let base : DaemonConfig := {}
  DaemonConfig.normalized
    { base with
      sockets := a.daemonType?.getD base.sockets
      address := a.socketAddress?.getD base.address
      socketFile := a.socketFile?.getD base.socketFile
      minThreads? := a.minThreads?.or base.minThreads?
      maxThreads := a.maxThreads?.getD base.maxThreads
      socketTimeout := (a.socketTimeout?.map (· * 1000)).getD base.socketTimeout
      threadTimeout := (a.threadTimeout?.map (· * 1000)).getD base.threadTimeout
      queueSize := a.queueSize?.getD base.queueSize
      maxArguments := a.maxArguments?.getD base.maxArguments
      pidFile? := a.pidFile?
      background := decide (.noBackground ∉ a.given)
      user? := a.user?
      group? := a.group? }

def needWords (a : SearchArguments) (otherwise : UsageFault) : Except UsageFault (List Text) :=
  if a.words = [] then .error otherwise else .ok a.words

def request (a : SearchArguments) : Except UsageFault Request :=
  if .dumpIndex ∈ a.given then .ok .dumpIndex
  else if .dumpStop ∈ a.given then .ok .dumpStopWords
  else if .dumpMeta ∈ a.given then .ok .dumpMetaNames
  else if .dumpWords ∈ a.given then (a.needWords .noWords).map .dumpWords
  else
    match a.window? with
    | some window => (a.needWords .noWords).map (.dumpWindow window)
    | none => (a.needWords .noQuery).map fun words => .search (Text.join [' '] words)

end SearchArguments

end WordIndex
