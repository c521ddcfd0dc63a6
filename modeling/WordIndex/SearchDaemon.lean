import WordIndex.RequestService

/-! # The search daemon and its connections -/
namespace WordIndex

/-! ## Output that is held back until there is enough of it -/

structure OutputBuffer where
  sent : Bytes := []
  held : Bytes := []
  deriving DecidableEq

namespace OutputBuffer

def capacity : Nat := 8192

def flush (o : OutputBuffer) : OutputBuffer := ⟨o.sent ++ o.held, []⟩

/-- Makes room for more bytes: what is held back is sent where they do not fit beside it. -/
def makeRoom (o : OutputBuffer) (count : Nat) : OutputBuffer :=
  if capacity < o.held.length + count then o.flush else o

/-- Writes a piece. One that fills the buffer by itself is sent at once. -/
def write (o : OutputBuffer) (piece : Bytes) : OutputBuffer :=
  let o := o.makeRoom piece.length
  if capacity ≤ piece.length then ⟨o.sent ++ piece, o.held⟩ else ⟨o.sent, o.held ++ piece⟩

def writeAll (o : OutputBuffer) (pieces : List Bytes) : OutputBuffer := pieces.foldl write o

def written (o : OutputBuffer) : Bytes := o.sent ++ o.held

@[simp] theorem written_flush (o : OutputBuffer) : o.flush.written = o.written := by
  simp [written, flush]

@[simp] theorem written_makeRoom (o : OutputBuffer) (count : Nat) :
    (o.makeRoom count).written = o.written := by
  rw [makeRoom]
  split <;> simp

theorem written_write (o : OutputBuffer) (piece : Bytes) :
    (o.write piece).written = o.written ++ piece := by
  rw [← written_makeRoom o piece.length, write]
  split
  · next h =>
    have : (o.makeRoom piece.length).held = [] := by
      rw [makeRoom]
      split
      · rfl
      · exact List.length_eq_zero_iff.1 (by omega)
    simp [written, this]
  · simp [written]

theorem written_writeAll (o : OutputBuffer) (pieces : List Bytes) :
    (o.writeAll pieces).written = o.written ++ pieces.flatten := by
  induction pieces generalizing o with
  | nil => simp [writeAll]
  | cons piece rest ih =>
    have := ih (o.write piece)
    rw [written_write] at this
    simpa [writeAll] using this

end OutputBuffer

/-! ## Requests and replies -/

/-- What is allowed to a request. The time is in milliseconds. -/
structure RequestLimits where
  timeout : Nat := 10000
  lineLength : Nat := 1024
  arguments : Nat := 50
  deriving DecidableEq

/-- What a client gets: some bytes, and whether its connection was broken off. -/
structure Reply where
  sent : Bytes
  reset : Bool
  deriving DecidableEq

namespace Connection

def malformedReply : Bytes := Text.utf8 "error: malformed query\n".toList

def arguments (limits : RequestLimits) (ending : Ending) (sent : Bytes) :
    Except Failure SearchArguments := do
  let line ← (RequestLine.ofSent limits.timeout limits.lineLength ending sent).mapError .request
  let arguments ← (RequestLine.arguments limits.arguments line).mapError .request
  (SearchArguments.ofRequest arguments).mapError .usage

/-- What a client gets when its request fails after some bytes were sent: word of it where it is to
be told, or else the end of the connection. -/
def replyToFailure (sent : Bytes) (failure : Failure) : Reply :=
  if failure.kind.isReportable then ⟨sent ++ malformedReply, false⟩ else ⟨sent, true⟩

/-- What a client gets of an answer. After a failure nothing that is held back is sent. -/
def replyToAnswer (answer : Answer) : Reply :=
  let output := OutputBuffer.writeAll {} answer.writes
  match answer.failure? with
  | none => ⟨output.flush.sent, false⟩
  | some failure => replyToFailure output.sent failure

def reply (index : Store) (base : SearchConfig) (limits : RequestLimits) (ending : Ending)
    (sent : Bytes) : Reply :=
  match arguments limits ending sent with
  | .error failure => replyToFailure [] failure
  | .ok a => replyToAnswer (a.answer index base)

end Connection

/-! ## The daemon -/

/-- What a command meets on its host. -/
structure Host where
  currentDirectory : Text
  contents : Text → Except SystemFault Bytes
  bindTcp : SocketAddress → Except SystemFault Unit
  /-- Binds a Unix domain socket in place of what was at its path. -/
  bindUnix : Text → Except SystemFault Unit
  /-- Whether clients on the host can connect to its TCP sockets. -/
  hasLoopback : Bool

inductive SocketKind
  | tcp
  | unix
  deriving DecidableEq

structure SearchDaemon where
  index : Store
  search : SearchConfig
  config : DaemonConfig

namespace SearchDaemon

/-- The least length in bytes at which the path of a Unix domain socket is refused. -/
def socketPathBound : Nat := 108

def bindTcp (host : Host) (config : DaemonConfig) : Except Failure Unit := do
  if config.sockets.usesTcp then
    let address ← (SocketAddress.ofText config.address).mapError .address
    (host.bindTcp address).mapError .system

def bindUnix (host : Host) (config : DaemonConfig) : Except Failure Unit := do
  if config.sockets.usesUnix then
    if socketPathBound ≤ config.socketFile.utf8.length then throw (.system .socketPathTooLong)
    (host.bindUnix config.socketFile).mapError .system

def bind (host : Host) (index : Store) (search : SearchConfig) (config : DaemonConfig) :
    Except Failure SearchDaemon := do
  let config := config.normalized
  if config.sockets = .none then throw .noSocket
  bindTcp host config
  bindUnix host config
  return { index, search, config }

def limits (d : SearchDaemon) : RequestLimits where
  timeout := d.config.socketTimeout
  lineLength := d.config.maxLineLength
  arguments := d.config.maxArguments

def isReachable (d : SearchDaemon) (host : Host) : SocketKind → Bool
  | .tcp => d.config.sockets.usesTcp && host.hasLoopback
  | .unix => d.config.sockets.usesUnix

/-- What a client gets that sends some bytes and then stays silent. -/
def reply (d : SearchDaemon) (sent : Bytes) : Reply :=
  Connection.reply d.index d.search d.limits .silent sent

/-- Whether the socket file is there after the daemon stopped: it is removed with the sockets. -/
def leavesSocketFile (_ : SearchDaemon) : Bool := false

/-- What clients get that come one after the other, unless one of the sockets, or one that a client
asks for, cannot be reached. -/
def session (d : SearchDaemon) (host : Host) (requests : List (SocketKind × Bytes)) :
    Option (List (SocketKind × Reply)) :=
  if d.config.sockets.usesTcp && !host.hasLoopback then none
  else requests.mapM fun r => if d.isReachable host r.1 then some (r.1, d.reply r.2) else none

end SearchDaemon

end WordIndex
