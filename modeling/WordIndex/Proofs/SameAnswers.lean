import WordIndex.CommandLine
import WordIndex.Proofs.IndexOption
import WordIndex.Proofs.JoinedLine
import WordIndex.Proofs.QueryMeaning
import WordIndex.Proofs.WholeReplies

/-! # The command and the daemon give the same answers

The command opens the index that it is given and applies its options twice. A connection has its
arguments in a line and applies them once. Here the reading of arguments is a parameter of both. -/
namespace WordIndex

/-- The file of an index that is open decides nothing. -/
theorem Request.answer_of_indexFile (request : Request) (index : Store) (config : SearchConfig)
    (file : Text) : request.answer index { config with indexFile := file } = request.answer index config := by
  cases request <;> rfl

namespace SearchArguments

/-- The command answers as if its index file were not named and its options were applied once. -/
theorem answer_withIndexFile (a : SearchArguments) (file : Text) (index : Store) (base : SearchConfig) :
    (a.withIndexFile file).answer index ((a.withIndexFile file).searchConfig base) =
      a.answer index base := by
  rw [answer, answer, request_withIndexFile, searchConfig_searchConfig, searchConfig_withIndexFile]
  cases a.request with
  | error fault => rfl
  | ok request => exact request.answer_of_indexFile index (a.searchConfig base) file

end SearchArguments

/-! ## Readings of arguments as parameters -/

abbrev ArgumentReading := List Text → Except OptionFault SearchArguments

/-- What the command does with arguments that are read by `parse`. -/
def CommandLine.runBy (parse : ArgumentReading) (host : Host) (arguments : List Text) :
    CommandResult :=
  match parse arguments with
  | .error fault => ofOptionFault fault
  | .ok a => ofArguments host a

theorem CommandLine.run_eq_runBy : run = runBy SearchArguments.ofArguments := rfl

/-- The arguments of a request that are read by `parse`. -/
def SearchArguments.ofRequestBy (parse : ArgumentReading) (arguments : List Text) :
    Except UsageFault SearchArguments :=
  match parse arguments with
  | .error fault => .error (.options fault)
  | .ok a => if a.daemonGiven || a.indexFile?.isSome then .error .notInRequest else .ok a

namespace Connection

def argumentsBy (parse : ArgumentReading) (limits : RequestLimits) (ending : Ending) (sent : Bytes) :
    Except Failure SearchArguments := do
  let line ← (RequestLine.ofSent limits.timeout limits.lineLength ending sent).mapError .request
  let arguments ← (RequestLine.arguments limits.arguments line).mapError .request
  (SearchArguments.ofRequestBy parse arguments).mapError .usage

def replyBy (parse : ArgumentReading) (index : Store) (base : SearchConfig) (limits : RequestLimits)
    (ending : Ending) (sent : Bytes) : Reply :=
  match argumentsBy parse limits ending sent with
  | .error failure => replyToFailure [] failure
  | .ok a => replyToAnswer (a.answer index base)

theorem reply_eq_replyBy : reply = replyBy SearchArguments.ofArguments := rfl

/-- The line of a client that joins its arguments by spaces. -/
def joinedLine (arguments : List Text) : Bytes := Text.utf8 (Text.join [' '] arguments ++ ['\n'])

section JoinedLine
variable {parse : ArgumentReading} {limits : RequestLimits} {arguments : List Text}

theorem argumentsBy_joinedLine_eq_bind (ending : Ending)
    (hsolid : ∀ argument ∈ arguments, argument.Solid)
    (hline : (Text.utf8 (Text.join [' '] arguments)).length ≤ limits.lineLength)
    (htime : limits.timeout ≠ 0) : argumentsBy parse limits ending (joinedLine arguments) =
      ((RequestLine.arguments limits.arguments (Text.join [' '] arguments)).mapError Failure.request >>=
        fun words => (SearchArguments.ofRequestBy parse words).mapError Failure.usage) := by
  rw [argumentsBy, joinedLine,
    RequestLine.ofSent_line ending htime (fun _ hc => Text.ne_of_mem_join hsolid hc) hline]
  rfl

/-- The arguments of a joined line reach their reading as they were. -/
theorem argumentsBy_joinedLine (ending : Ending) (hne : arguments ≠ [])
    (hsolid : ∀ argument ∈ arguments, argument.Solid) (hcount : arguments.length ≤ limits.arguments)
    (hline : (Text.utf8 (Text.join [' '] arguments)).length ≤ limits.lineLength)
    (htime : limits.timeout ≠ 0) : argumentsBy parse limits ending (joinedLine arguments) =
      (SearchArguments.ofRequestBy parse arguments).mapError .usage := by
  have hread : RequestLine.arguments limits.arguments (Text.join [' '] arguments) = .ok arguments := by
    rw [RequestLine.arguments, Text.splitBlank_join hsolid, if_neg (by simpa using hne),
      if_neg (by omega)]
  rw [argumentsBy_joinedLine_eq_bind ending hsolid hline htime, hread]
  rfl

theorem argumentsBy_emptyLine (ending : Ending) (htime : limits.timeout ≠ 0) :
    argumentsBy parse limits ending (joinedLine []) = .error (.request .empty) := by
  have hsolid : ∀ argument ∈ ([] : List Text), argument.Solid := fun _ h => nomatch h
  have hread : RequestLine.arguments limits.arguments (Text.join [' '] []) = .error .empty := by
    rw [RequestLine.arguments, Text.splitBlank_join hsolid]
    rfl
  rw [argumentsBy_joinedLine_eq_bind ending hsolid (Nat.zero_le _) htime, hread]
  rfl

end JoinedLine

end Connection

/-! ## The same answer -/

theorem FailureKind.exitCode_ne_zero (kind : FailureKind) : kind.exitCode ≠ 0 := by
  cases kind <;> decide

theorem FailureKind.exitCode_eq_two_iff {kind : FailureKind} :
    kind.exitCode = 2 ↔ kind = .malformedQuery := by
  cases kind <;> decide

/-- A client gets what the command puts out when it succeeds, and it is told of a malformed query
just when that ends the command, which then puts out nothing. An answer can read the same, but it is
put out. -/
structure SameAnswer (command : CommandResult) (reply : Reply) : Prop where
  answered : command.exitCode = 0 → reply = ⟨command.output, false⟩
  malformed : command.exitCode = 2 ↔ reply.sent = Connection.malformedReply ∧ command.output = []
  told : command.exitCode = 2 → reply.reset = false

theorem Connection.malformedReply_ne_nil : malformedReply ≠ [] := by decide

namespace SameAnswer
open Connection

variable {command : CommandResult} {answer : Answer} {f : Failure}

theorem of_reset (hzero : command.exitCode ≠ 0) (htwo : command.exitCode ≠ 2) :
    SameAnswer command ⟨[], true⟩ where
  answered h := absurd h hzero
  malformed := iff_of_false htwo fun h => malformedReply_ne_nil h.1.symm
  told h := absurd h htwo

theorem of_success (h : answer.failure? = none) (hcode : command.exitCode = 0)
    (houtput : command.output = answer.bytes) : SameAnswer command (replyToAnswer answer) := by
  have hreply : replyToAnswer answer = ⟨command.output, false⟩ := by
    rw [houtput, ← sent_replyToAnswer_of_none h, replyToAnswer, h]
  have htwo : command.exitCode ≠ 2 := by
    rw [hcode]
    decide
  constructor
  case answered => exact fun _ => hreply
  case malformed =>
    refine iff_of_false htwo ?_
    rintro ⟨hsent, hnil⟩
    rw [hreply] at hsent
    exact malformedReply_ne_nil (hsent.symm.trans hnil)
  case told => exact fun hcode => absurd hcode htwo

theorem of_failure (h : answer.failure? = some f)
    (hwrites : f.kind = .malformedQuery → answer.writes = [])
    (hcode : command.exitCode = f.kind.exitCode) (houtput : command.output = answer.bytes) :
    SameAnswer command (replyToAnswer answer) := by
  constructor
  case answered => exact fun hzero => absurd (hcode.symm.trans hzero) f.kind.exitCode_ne_zero
  case malformed =>
    rw [hcode, houtput, FailureKind.exitCode_eq_two_iff, sent_replyToAnswer_of_some h]
    constructor
    · intro hkind
      rw [Answer.sentEarly, Answer.bytes, hwrites hkind, toldOf, if_pos hkind]
      exact ⟨rfl, rfl⟩
    · rintro ⟨htold, hnil⟩
      by_contra hkind
      -- What is sent before another failure is a first part of what the command puts out.
      have hearly : answer.sentEarly = [] := List.prefix_nil.1 (hnil ▸ answer.sentEarly_isPrefix)
      rw [hearly, toldOf, if_neg hkind] at htold
      exact malformedReply_ne_nil htold.symm
  case told =>
    intro htwo
    have hkind := FailureKind.exitCode_eq_two_iff.1 (hcode.symm.trans htwo)
    rw [replyToAnswer, h]
    dsimp only
    rw [replyToFailure, if_pos (FailureKind.isReportable_iff.2 hkind)]

end SameAnswer

namespace CommandLine
open SearchArguments

/-- The command gives a client's answer when its index file is named apart. -/
theorem sameAnswer_answerOnce (log : List Text) (index : Store) (a : SearchArguments) (file : Text) :
    SameAnswer (answerOnce log index (a.withIndexFile file))
      (Connection.replyToAnswer (a.answer index {})) := by
  rw [answerOnce, answer_withIndexFile]
  cases h : (a.answer index {}).failure? with
  | none => exact .of_success h rfl rfl
  | some f => exact .of_failure h (writes_eq_nil_of_malformedQuery h) rfl rfl

/-- Without options about the daemon there is nothing but an answer to give. -/
theorem ofArguments_withIndexFile {host : Host} {index : Store} {a : SearchArguments} {file : Text}
    (hopen : openIndex host file = .ok index) (ha : a.daemonConfig = daemonConfig {}) :
    ∃ log, CommandLine.ofArguments host (a.withIndexFile file) =
      answerOnce log index (a.withIndexFile file) := by
  have hpath : ((a.withIndexFile file).searchConfig {}).indexFile = file := rfl
  have hpaths : ∃ config, (daemonConfig {}).withAbsolutePaths host.currentDirectory = some config ∧
      config.sockets = .none := ⟨_, rfl, rfl⟩
  obtain ⟨config, hconfig, hsockets⟩ := hpaths
  rw [CommandLine.ofArguments, hpath, hopen]
  dsimp only
  rw [withIndex, daemonConfig_withIndexFile, ha, hconfig]
  dsimp only
  rw [if_pos hsockets]
  exact ⟨_, rfl⟩

theorem exitCode_ofOptionFault {fault : OptionFault} (h : fault.isError) :
    (ofOptionFault fault).exitCode = 1 := by
  cases fault with
  | displayHelp | displayVersion => cases h
  | _ => rfl

/-- The command with an index file before its arguments and a connection with the arguments in a line
give the same answer, however arguments are read: where that an index file is named first changes
nothing else, and where nothing that has no place in a request is given. -/
theorem command_and_connection_agree {parse : ArgumentReading} {host : Host} {index : Store}
    {file : Text} {arguments : List Text} {limits : RequestLimits} (ending : Ending)
    (hopen : openIndex host file = .ok index) (hempty : parse [] = .ok {})
    (hindex : parse (indexOption :: file :: arguments) =
      (parse arguments).map (·.withIndexFile file))
    (hplain : ReadsPlain (parse arguments)) (hsolid : ∀ argument ∈ arguments, argument.Solid)
    (hcount : arguments.length ≤ limits.arguments)
    (hline : (Text.utf8 (Text.join [' '] arguments)).length ≤ limits.lineLength)
    (htime : limits.timeout ≠ 0) :
    SameAnswer (runBy parse host (indexOption :: file :: arguments))
      (Connection.replyBy parse index {} limits ending (Connection.joinedLine arguments)) := by
  rw [runBy, hindex, Connection.replyBy]
  by_cases hne : arguments = []
  case pos =>
    subst hne
    -- The command finds no query, and the connection no argument.
    obtain ⟨log, hrun⟩ := ofArguments_withIndexFile (a := {}) hopen rfl
    rw [hempty, Connection.argumentsBy_emptyLine ending htime]
    change SameAnswer (CommandLine.ofArguments host (withIndexFile {} file)) ⟨[], true⟩
    have hcode : (answerOnce log index (withIndexFile {} file)).exitCode = 1 := rfl
    rw [hrun]
    exact .of_reset (by rw [hcode]; decide) (by rw [hcode]; decide)
  case neg =>
    rw [Connection.argumentsBy_joinedLine ending hne hsolid hcount hline htime, ofRequestBy]
    cases hparse : parse arguments with
    | error fault =>
      have hcode : (ofOptionFault fault).exitCode = 1 :=
        exitCode_ofOptionFault (by rwa [hparse] at hplain)
      change SameAnswer (ofOptionFault fault) ⟨[], true⟩
      exact .of_reset (by rw [hcode]; decide) (by rw [hcode]; decide)
    | ok a =>
      have ha : a.Plain := by rwa [hparse] at hplain
      obtain ⟨log, hrun⟩ := ofArguments_withIndexFile hopen ha.daemonConfig
      have hallowed : (a.daemonGiven || a.indexFile?.isSome) = false := by
        rw [ha.daemonGiven, ha.indexFile?]
        rfl
      dsimp only [Except.map]
      rw [hrun, hallowed]
      exact sameAnswer_answerOnce log index a file

/-- A host with the same bytes at every path and no sockets. -/
def hostWith (data : Bytes) : Host where
  currentDirectory := ['/']
  contents _ := .ok data
  bindTcp _ := .error .notSupported
  bindUnix _ := .error .notSupported
  hasLoopback := false

/-- Two options that are read as the program reads them, for all stop words. -/
theorem command_and_connection_agree_threeFiles : ∃ index,
    openIndex (hostWith Evaluator.threeFiles) "pets".toList = .ok index ∧
    ReadsPlain (SearchArguments.ofArguments ["-q".toList, "-S".toList]) ∧
    (run (hostWith Evaluator.threeFiles)
      ["-i".toList, "pets".toList, "-q".toList, "-S".toList]).exitCode = 0 ∧
    SameAnswer
      (run (hostWith Evaluator.threeFiles)
        ["-i".toList, "pets".toList, "-q".toList, "-S".toList])
      (Connection.reply index {} {} .silent (Text.utf8 "-q -S\n".toList)) := by
  have hopens : (openIndex (hostWith Evaluator.threeFiles) "pets".toList).map
      (fun index => index.files.size) = .ok 3 := by
    decide +kernel
  obtain ⟨index, hopen, -⟩ := Outcome.map_eq_ok_iff.1 hopens
  have hreserved : ∀ piece ∈ CommandPiece.ofArguments none ["-q".toList, "-S".toList],
      ∀ name ∈ piece.option?, isReserved name = false := by
    decide +kernel
  have hindexFile : ∀ piece ∈ CommandPiece.ofArguments none ["-q".toList, "-S".toList],
      piece.option? ≠ some .indexFile := by
    decide +kernel
  have hplain := readsPlain_ofArguments hreserved
  have hcode : (run (hostWith Evaluator.threeFiles)
      ["-i".toList, "pets".toList, "-q".toList, "-S".toList]).exitCode = 0 := by
    decide +kernel
  have hsolid : ∀ argument ∈ ["-q".toList, "-S".toList], Text.Solid argument := by decide +kernel
  refine ⟨index, hopen, hplain, hcode, ?_⟩
  rw [run_eq_runBy, Connection.reply_eq_replyBy]
  exact command_and_connection_agree .silent hopen rfl
    (ofArguments_indexOption ⟨by decide, rfl⟩ hindexFile) hplain hsolid (by decide) (by decide)
    (by decide)

/-- The entries of an index with one stop word, which reads like the reply to a malformed query. -/
def malformedEntries : PerSegment (List Bytes) where
  words := []
  stopWords := [(Text.utf8 "error: malformed query".toList).terminated]
  directories := []
  files := []
  metaNames := []

/-- The bytes of the index with these entries. -/
def malformedIndex : Bytes := IndexBuilder.layOut malformedEntries.toList

/-- An answer can read like the reply to a malformed query: the command succeeds with the words of it. -/
theorem exists_answer_eq_malformedReply : ∃ index,
    openIndex (hostWith malformedIndex) "stops".toList = .ok index ∧
    (run (hostWith malformedIndex) ["-i".toList, "stops".toList, "-S".toList]).exitCode = 0 ∧
    (run (hostWith malformedIndex) ["-i".toList, "stops".toList, "-S".toList]).output =
      Connection.malformedReply ∧
    Connection.reply index {} {} .closed (Text.utf8 "-S\n".toList) =
      ⟨Connection.malformedReply, false⟩ ∧
    ¬ ((run (hostWith malformedIndex) ["-i".toList, "stops".toList, "-S".toList]).exitCode = 2 ↔
      Connection.reply index {} {} .closed (Text.utf8 "-S\n".toList) =
        ⟨Connection.malformedReply, false⟩) := by
  have hreplies : (openIndex (hostWith malformedIndex) "stops".toList).map (fun index =>
      Connection.reply index {} {} .closed (Text.utf8 "-S\n".toList)) =
      .ok ⟨Connection.malformedReply, false⟩ := by
    decide +kernel
  obtain ⟨index, hopen, hreply⟩ := Outcome.map_eq_ok_iff.1 hreplies
  have hcode : (run (hostWith malformedIndex)
      ["-i".toList, "stops".toList, "-S".toList]).exitCode = 0 := by
    decide +kernel
  have houtput : (run (hostWith malformedIndex)
      ["-i".toList, "stops".toList, "-S".toList]).output = Connection.malformedReply := by
    decide +kernel
  refine ⟨index, hopen, hcode, houtput, hreply, fun h => ?_⟩
  have htwo := h.2 hreply
  rw [hcode] at htwo
  cases htwo

end CommandLine

end WordIndex
