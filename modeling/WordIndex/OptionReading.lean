import WordIndex.Utf8

/-! # Reading the options of a command line -/
namespace WordIndex

inductive OptionName
  | indexFile
  | maxResults
  | skipResults
  | separator
  | format
  | stemWords
  | wordFiles
  | wordPercent
  | dumpWords
  | dumpIndex
  | dumpStop
  | dumpMeta
  | window
  | verbose
  | quiet
  | daemonType
  | socketAddress
  | socketFile
  | minThreads
  | maxThreads
  | socketTimeout
  | threadTimeout
  | queueSize
  | maxArguments
  | pidFile
  | noBackground
  | user
  | group
  | help
  | version
  deriving DecidableEq

structure OptionForm where
  name : OptionName
  short? : Option Char
  long : String
  takesValue : Bool

/-- A cause for which a command line is refused, or answered without a search. -/
inductive OptionFault
  | unknownArgument
  | invalidValue
  | valueValidation
  | argumentConflict
  | tooManyValues
  | displayHelp
  | displayVersion
  deriving DecidableEq

namespace OptionFault

def isError : OptionFault → Bool
  | displayHelp | displayVersion => false
  | _ => true

end OptionFault

namespace OptionForm

def all : List OptionForm :=
  [⟨.indexFile, some 'i', "index-file", true⟩,
    ⟨.maxResults, some 'm', "max-results", true⟩,
    ⟨.skipResults, some 'r', "skip-results", true⟩,
    ⟨.separator, some 'R', "separator", true⟩,
    ⟨.format, some 'F', "format", true⟩,
    ⟨.stemWords, some 's', "stem-words", false⟩,
    ⟨.wordFiles, some 'f', "word-files", true⟩,
    ⟨.wordPercent, some 'p', "word-percent", true⟩,
    ⟨.dumpWords, some 'd', "dump-words", false⟩,
    ⟨.dumpIndex, some 'D', "dump-index", false⟩,
    ⟨.dumpStop, some 'S', "dump-stop", false⟩,
    ⟨.dumpMeta, some 'M', "dump-meta", false⟩,
    ⟨.window, some 'w', "window", true⟩,
    ⟨.verbose, some 'v', "verbose", false⟩,
    ⟨.quiet, some 'q', "quiet", false⟩,
    ⟨.daemonType, some 'b', "daemon-type", true⟩,
    ⟨.socketAddress, some 'a', "socket-address", true⟩,
    ⟨.socketFile, some 'u', "socket-file", true⟩,
    ⟨.minThreads, some 't', "min-threads", true⟩,
    ⟨.maxThreads, some 'T', "max-threads", true⟩,
    ⟨.socketTimeout, some 'o', "socket-timeout", true⟩,
    ⟨.threadTimeout, some 'O', "thread-timeout", true⟩,
    ⟨.queueSize, some 'Q', "queue-size", true⟩,
    ⟨.maxArguments, none, "max-args", true⟩,
    ⟨.pidFile, some 'P', "pid-file", true⟩,
    ⟨.noBackground, some 'B', "no-background", false⟩,
    ⟨.user, some 'U', "user", true⟩,
    ⟨.group, some 'G', "group", true⟩,
    ⟨.help, some 'h', "help", false⟩,
    ⟨.version, some 'V', "version", false⟩]

def ofShort? (c : Char) : Option OptionForm := all.find? (·.short? == some c)

def ofLong? (name : Text) : Option OptionForm := all.find? (·.long.toList == name)

end OptionForm

inductive CommandPiece
  | word (word : Text)
  | flag (name : OptionName)
  /-- An option with its value in the same argument. -/
  | attached (name : OptionName) (value : Text)
  /-- An option with its value in the next argument, or with none. -/
  | detached (name : OptionName) (value? : Option Text)
  | refused (fault : OptionFault)
  deriving DecidableEq

namespace CommandPiece

inductive Shape
  /-- Two dashes: only words follow. -/
  | ending
  /-- Two dashes and a name, and a value after an equals sign. -/
  | long (name : Text) (value? : Option Text)
  /-- A dash and letters. -/
  | short (letters : Text)
  /-- Anything else. -/
  | plain

def shape : Text → Shape
  | ['-', '-'] => .ending
  | '-' :: '-' :: rest =>
    .long (rest.takeWhile (· != '=')) (rest.dropWhile (· != '=')).tail?
  | '-' :: c :: rest => .short (c :: rest)
  | _ => .plain

/-- The pieces of the letters after a dash, and the option that waits for its value. Letters after
an option with a value are its value, with or without an equals sign before them. -/
def ofLetters : Text → List CommandPiece × Option OptionName
  | [] => ([], none)
  | c :: rest =>
    match OptionForm.ofShort? c with
    | none => ([.refused .unknownArgument], none)
    | some form =>
      if form.takesValue then
        match rest with
        | [] => ([], some form.name)
        | '=' :: value => ([.attached form.name value], none)
        | value => ([.attached form.name value], none)
      else
        let others := ofLetters rest
        (.flag form.name :: others.1, others.2)

def ofLong (name : Text) (value? : Option Text) : List CommandPiece × Option OptionName :=
  match OptionForm.ofLong? name with
  | none => ([.refused .unknownArgument], none)
  | some form =>
    match form.takesValue, value? with
    | true, some value => ([.attached form.name value], none)
    | true, none => ([], some form.name)
    | false, some _ => ([.refused .tooManyValues], none)
    | false, none => ([.flag form.name], none)

def unanswered : (waiting? : Option OptionName) → List CommandPiece
  | none => []
  | some name => [.detached name none]

/-- The pieces of arguments when an option waits for its value. Only an argument of no other form
is its value. -/
def ofArguments : (waiting? : Option OptionName) → List Text → List CommandPiece
  | waiting?, [] => unanswered waiting?
  | waiting?, argument :: rest =>
    match shape argument with
    | .ending => unanswered waiting? ++ rest.map word
    | .long name value? =>
      let pieces := ofLong name value?
      unanswered waiting? ++ pieces.1 ++ ofArguments pieces.2 rest
    | .short letters =>
      let pieces := ofLetters letters
      unanswered waiting? ++ pieces.1 ++ ofArguments pieces.2 rest
    | .plain =>
      match waiting? with
      | some name => .detached name (some argument) :: ofArguments none rest
      | none => .word argument :: ofArguments none rest

end CommandPiece

end WordIndex
