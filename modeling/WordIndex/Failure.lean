import WordIndex.IndexBuilder
import WordIndex.QueryToken
import WordIndex.SearchArguments
import WordIndex.RequestLine
import WordIndex.SocketAddress
import WordIndex.WorkerPool

/-! # Failures and their kinds -/
namespace WordIndex

inductive SystemFault
  | fileNotFound
  | permissionDenied
  | isDirectory
  | notSupported
  | addressNotAvailable
  | socketPathTooLong
  | emptyPath
  deriving DecidableEq

namespace SystemFault

def message : SystemFault → String
  | fileNotFound => "No such file or directory (os error 2)"
  | permissionDenied => "Permission denied (os error 13)"
  | isDirectory => "Is a directory (os error 21)"
  | notSupported => "Operation not supported (os error 95)"
  | addressNotAvailable => "Cannot assign requested address (os error 99)"
  | socketPathTooLong => "path must be shorter than SUN_LEN"
  | emptyPath => "cannot make an empty path absolute"

end SystemFault

inductive FailureKind
  | system
  | corruptIndex
  | malformedQuery
  | timeout
  | protocolViolation
  | resourceExhausted
  | usage
  | invalidArgument
  | json
  deriving DecidableEq

namespace FailureKind

def label : FailureKind → String
  | system => "I/O error"
  | corruptIndex => "corrupt index"
  | malformedQuery => "malformed query"
  | timeout => "timeout"
  | protocolViolation => "protocol violation"
  | resourceExhausted => "resource exhausted"
  | usage => "usage"
  | invalidArgument => "invalid argument"
  | json => "JSON error"

def exitCode : FailureKind → Nat
  | usage | invalidArgument => 1
  | malformedQuery => 2
  | corruptIndex => 3
  | _ => 4

/-- Whether a client is told of a failure. -/
def isReportable : FailureKind → Bool
  | malformedQuery => true
  | _ => false

def shown (kind : FailureKind) (message : String) : String := s!"{kind.label}: {message}"

end FailureKind

inductive Failure
  | system (fault : SystemFault)
  | index (fault : IndexFault)
  | query (fault : QueryFault)
  | request (fault : RequestFault)
  | usage (fault : UsageFault)
  | build (fault : BuildFault)
  | address (fault : AddressFault)
  | pool (fault : PoolFault)
  /-- A daemon that is to listen nowhere. -/
  | noSocket
  deriving DecidableEq

namespace Failure

def kind : Failure → FailureKind
  | system _ => .system
  | index _ => .corruptIndex
  | query _ => .malformedQuery
  | request .unfinished => .timeout
  | request (.tooManyArguments ..) => .resourceExhausted
  | request _ => .protocolViolation
  | usage _ => .usage
  | build _ | address _ | noSocket => .invalidArgument
  | pool (.invalidBounds ..) => .invalidArgument
  | pool .shutDown => .resourceExhausted

/-- What a failure says, unless it is for the option listing to say. -/
def message? : Failure → Option String
  | system fault => some fault.message
  | index fault => some fault.message
  | query fault => some fault.message
  | request fault => some fault.message
  | usage fault => fault.message?
  | build fault => some fault.message
  | address fault => some fault.message
  | pool fault => some fault.message
  | noSocket => some "no daemon socket type given"

def shown (f : Failure) : String := f.kind.shown (f.message?.getD "")

/-- A failure with its cause after it, where the cause is a failure of the host. -/
def shownWithCause : Failure → String
  | system fault => s!"{(system fault).shown}: {fault.message}"
  | f => f.shown

end Failure

end WordIndex
