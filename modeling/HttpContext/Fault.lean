import HttpContext.Text.Basic
/-!
Failures of input and output: what kind they are, what they say, and which of them mean that
the peer has gone away.
-/
namespace HttpContext

inductive FaultKind
  | addrInUse | addrNotAvailable | alreadyExists | argumentListTooLong | brokenPipe
  | connectionAborted | connectionRefused | connectionReset | crossesDevices | deadlock
  | directoryNotEmpty | executableFileBusy | fileTooLarge | hostUnreachable | interrupted
  | invalidData | invalidFilename | invalidInput | isADirectory | networkDown
  | networkUnreachable | notADirectory | notConnected | notFound | notSeekable | other
  | outOfMemory | permissionDenied | quotaExceeded | readOnlyFilesystem | resourceBusy
  | staleNetworkFileHandle | storageFull | timedOut | tooManyLinks | unexpectedEof
  | unsupported | wouldBlock | writeZero
  deriving Repr, DecidableEq

namespace FaultKind

/-- What a failure says that carries no text of its own. -/
def description : FaultKind → String
  | addrInUse => "address in use"
  | addrNotAvailable => "address not available"
  | alreadyExists => "entity already exists"
  | argumentListTooLong => "argument list too long"
  | brokenPipe => "broken pipe"
  | connectionAborted => "connection aborted"
  | connectionRefused => "connection refused"
  | connectionReset => "connection reset"
  | crossesDevices => "cross-device link or rename"
  | deadlock => "deadlock"
  | directoryNotEmpty => "directory not empty"
  | executableFileBusy => "executable file busy"
  | fileTooLarge => "file too large"
  | hostUnreachable => "host unreachable"
  | interrupted => "operation interrupted"
  | invalidData => "invalid data"
  | invalidFilename => "invalid filename"
  | invalidInput => "invalid input parameter"
  | isADirectory => "is a directory"
  | networkDown => "network down"
  | networkUnreachable => "network unreachable"
  | notADirectory => "not a directory"
  | notConnected => "not connected"
  | notFound => "entity not found"
  | notSeekable => "seek on unseekable file"
  | other => "other error"
  | outOfMemory => "out of memory"
  | permissionDenied => "permission denied"
  | quotaExceeded => "quota exceeded"
  | readOnlyFilesystem => "read-only filesystem or storage medium"
  | resourceBusy => "resource busy"
  | staleNetworkFileHandle => "stale network file handle"
  | storageFull => "no storage space"
  | timedOut => "timed out"
  | tooManyLinks => "too many links"
  | unexpectedEof => "unexpected end of file"
  | unsupported => "unsupported"
  | wouldBlock => "operation would block"
  | writeZero => "write zero"

end FaultKind

/-- A failure of input or output, by its cause. -/
inductive Fault
  /-- reported by a connection or a source, perhaps with a text -/
  | external (kind : FaultKind) (text : Option String)
  /-- reported by the operating system, in its own words -/
  | system (kind : FaultKind)
  /-- more bytes came than the limit allows -/
  | tooLarge (kind : FaultKind) (limit : Nat)
  /-- the connection accepted no byte of a non-empty buffer -/
  | writeZero
  | responseClosed
  | exchangeComplete
  | notBlocking
  | uploadDestroyed
  | streamTooShort
  | requestCutShort
  | fileNotUtf8
  deriving Repr, DecidableEq

/-- The text of a size limit that was passed, as input and as a request error. -/
def tooLargeText (limit : Nat) : String :=
  "Request body exceeds the maximum size of " ++ toString limit ++ " bytes"

namespace Fault

def kind : Fault → FaultKind
  | external kind _ => kind
  | system kind => kind
  | tooLarge kind _ => kind
  | writeZero => .writeZero
  | responseClosed => .brokenPipe
  | exchangeComplete => .brokenPipe
  | notBlocking => .wouldBlock
  | uploadDestroyed => .notFound
  | streamTooShort => .invalidData
  | requestCutShort => .unexpectedEof
  | fileNotUtf8 => .invalidData

def text : Fault → String
  | external kind text => text.getD kind.description
  | system kind => kind.description
  | tooLarge _ limit => tooLargeText limit
  | writeZero => "failed to write whole buffer"
  | responseClosed => "response output closed"
  | exchangeComplete => "exchange already complete"
  | notBlocking => "exchange is not in blocking mode"
  | uploadDestroyed => "file upload already destroyed"
  | streamTooShort => "stream ended before the requested range"
  | requestCutShort => "connection closed before the request was complete"
  | fileNotUtf8 => "stream did not contain valid UTF-8"

/-- The operation may be tried again as if nothing had happened. -/
def isInterrupted (fault : Fault) : Bool :=
  fault.kind = .interrupted

/-- Lower case, as far as it can reach an ASCII letter: the Kelvin sign is a `k`. -/
def lower (c : Char) : Char :=
  if c = '\u212A' then 'k' else c.toLower

def mentions (phrase : String) (fault : Fault) : Bool :=
  Text.occurs phrase.toList (fault.text.toList.map lower)

/-- The peer went away, by the kind of the failure or by what it says. -/
def isPeerGone (fault : Fault) : Bool :=
  match fault.kind with
  | .connectionReset | .connectionAborted | .brokenPipe | .unexpectedEof => true
  | _ => fault.mentions "reset by peer" || fault.mentions "broken pipe"

end Fault

/-- The failure of a result. -/
def failure? {α : Type} : Except Fault α → Option Fault
  | .ok _ => none
  | .error fault => some fault

theorem eq_ok_of_failure? {result : Except Fault Unit} (h : failure? result = none) :
    result = .ok () := by
  cases result with
  | ok => rfl
  | error fault => cases h

end HttpContext
