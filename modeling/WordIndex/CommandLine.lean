import WordIndex.SearchDaemon

/-! # The command -/
namespace WordIndex

/-! ## What is logged while requests are answered -/

namespace ActivityLog

/-- How much has to be logged for these lines to be shown. -/
def verbosity : Nat := 3

def opened (path : Text) (index : Store) : Text :=
  "opened index ".toList ++ path ++ " (".toList ++ Text.decimal index.words.size ++
    " words, ".toList ++ Text.decimal index.files.size ++ " files)".toList

def ofNote : Note → Option Text
  | .stopWord _ => none
  | .tooFrequent word files =>
    some ("ignoring ".toList ++ word ++ ": occurs in ".toList ++ Text.decimal files ++
      " files".toList)
  | .unknownMetaName name => some ("unknown meta name ".toList ++ name)

def evaluated (tree : QueryTree) (found : RankMap) (notes : List Note) : Text :=
  "query ".toList ++ tree.shown ++ " matched ".toList ++ Text.decimal found.size ++
    " files (".toList ++ Text.decimal (ignoredWords notes).length ++ " words ignored)".toList

def ofEvaluation (tree : QueryTree) (found : Noted RankMap) : List Text :=
  found.notes.filterMap ofNote ++
    match found.result with
    | .error _ => []
    | .ok scores => [evaluated tree scores found.notes]

def ofSearch (index : Store) (config : SearchConfig) (query : Text) : List Text :=
  ("searching for '".toList ++ query ++ "'".toList) ::
    match QueryTree.ofText query with
    | .error _ => []
    | .ok tree => ofEvaluation tree ((config.evaluator index).search tree)

def ofArguments (index : Store) (base : SearchConfig) (a : SearchArguments) : List Text :=
  match a.request with
  | .ok (.search query) => ofSearch index (a.searchConfig base) query
  | _ => []

def shown (line : Text) : Text := "[DEBUG] ".toList ++ line

def shownAt (level : Nat) (lines : List Text) : List Text :=
  if verbosity ≤ level then lines.map shown else []

end ActivityLog

/-! ## What the command does -/

structure CommandResult where
  exitCode : Nat := 0
  output : Bytes := []
  /-- The lines of messages, where it is not the option listing that stands for them. -/
  messages? : Option (List Text) := some []
  daemon? : Option SearchDaemon := none

namespace CommandLine

def name : String := "ferret"

def versionLine : String := s!"{name} 0.1.0\n"

def unreadableIndexCode : Nat := 3

def optionLine (form : OptionForm) : String :=
  let short := match form.short? with
    | some c => s!"-{c}, "
    | none => "    "
  let value := if form.takesValue then " <VALUE>" else ""
  s!"  {short}--{form.long}{value}\n"

def optionListing : String :=
  s!"Usage: {name} [OPTIONS] [WORDS]...\n\nOptions:\n" ++
    String.join (OptionForm.all.map optionLine)

/-- The result of a command whose options are refused, or answered at once. -/
def ofOptionFault (fault : OptionFault) : CommandResult :=
  match fault with
  | .displayVersion => { output := Text.utf8 versionLine.toList }
  | .displayHelp => { output := Text.utf8 optionListing.toList }
  | _ => { exitCode := 1, messages? := none }

def failureLine (context : String) (failure : Failure) : Text :=
  s!"{name}: {context}{failure.shownWithCause}".toList

def failed (log : List Text) (context : String) (failure : Failure) : CommandResult where
  exitCode := failure.kind.exitCode
  messages? := some (log ++ [failureLine context failure])

def openIndex (host : Host) (path : Text) : Except Failure Store := do
  let data ← (host.contents path).mapError .system
  (Store.ofFile path data).mapError .index

/-- Answers what the arguments ask for, over the options that they already gave. What was written
before a failure stays written. -/
def answerOnce (log : List Text) (index : Store) (a : SearchArguments) : CommandResult :=
  let config := a.searchConfig {}
  let answer := a.answer index config
  let log := log ++ ActivityLog.shownAt a.verbosity (ActivityLog.ofArguments index config a)
  match answer.failure? with
  | none => { output := answer.bytes, messages? := some log }
  | some failure => { failed log "" failure with output := answer.bytes }

def startDaemon (host : Host) (log : List Text) (index : Store) (a : SearchArguments)
    (config : DaemonConfig) : CommandResult :=
  if a.words ≠ [] then failed log "" (.usage .daemonWords)
  else
    match SearchDaemon.bind host index (a.searchConfig {}) config with
    | .error failure => failed log "could not start daemon: " failure
    | .ok daemon => { messages? := some log, daemon? := some daemon }

def withIndex (host : Host) (index : Store) (a : SearchArguments) : CommandResult :=
  let path := (a.searchConfig {}).indexFile
  let log := ActivityLog.shownAt a.verbosity [ActivityLog.opened path index]
  match a.daemonConfig.withAbsolutePaths host.currentDirectory with
  | none => failed log "could not resolve daemon paths: " (.system .emptyPath)
  | some config =>
    if config.sockets = .none then answerOnce log index a
    else startDaemon host log index a config

def ofArguments (host : Host) (a : SearchArguments) : CommandResult :=
  let path := (a.searchConfig {}).indexFile
  match openIndex host path with
  | .error failure =>
    { failed [] s!"could not read index file {String.ofList path}: " failure with
      exitCode := unreadableIndexCode }
  | .ok index => withIndex host index a

def run (host : Host) (arguments : List Text) : CommandResult :=
  match SearchArguments.ofArguments arguments with
  | .error fault => ofOptionFault fault
  | .ok a => ofArguments host a

def indexFile? (arguments : List Text) : Option Text :=
  match SearchArguments.ofArguments arguments with
  | .error _ => none
  | .ok a => some (a.searchConfig {}).indexFile

end CommandLine

end WordIndex
