import HttpContext.Channel.Sink
import HttpContext.Channel.Source
import HttpContext.Exchange.Engine
import HttpContext.Message.Chunk
import HttpContext.Message.ResponseHead
/-!
A response on its way out. The head is written with the first byte of the body, after which it
counts as committed, even when that write fails. Closing ends a chunked body; an aborted close only
flushes, so that a broken-off body never looks complete.
-/
namespace HttpContext

structure Response where
  engine : Engine
  sink : Sink := {}
  head : ResponseHead := {}
  isCommitted : Bool := false
  isClosed : Bool := false
  /-- the handler may write from its own thread; on the stream engine it always may -/
  isBlocking : Bool := engine = .stream
  deriving Repr, DecidableEq

namespace Response

def wire (r : Response) : Bytes := r.sink.wire

def setStatus (r : Response) (status : Status) : Response :=
  { r with head := { r.head with status } }

def setHeader (r : Response) (name value : String) : Response :=
  { r with head := { r.head with headers := r.head.headers.set name value } }

def addHeader (r : Response) (name value : String) : Response :=
  { r with head := { r.head with headers := r.head.headers.add name value } }

def removeHeader (r : Response) (name : String) : Response :=
  { r with head := { r.head with headers := r.head.headers.remove name } }

def setLength (r : Response) (length : Nat) : Response :=
  { r with head := r.head.setContentLength length }

def setChunked (r : Response) : Response :=
  { r with head := r.head.setChunked }

def setChunkedWithoutLength (r : Response) : Response :=
  { r with head := r.head.setChunkedWithoutLength }

/-- Lets the handler write, which on the stream engine it may do anyway. -/
def allowBlocking (r : Response) : Response :=
  { r with isBlocking := true }

/-- Goes on with the response after a write, unless that failed. -/
def andThen : Except Fault Unit × Response → (Response → Except Fault Unit × Response) →
    Except Fault Unit × Response
  | (.error fault, r), _ => (.error fault, r)
  | (.ok (), r), next => next r

/-- Puts bytes on the wire as they are. -/
def put (r : Response) (bytes : Bytes) : Except Fault Unit × Response :=
  let (result, sink) := r.sink.write bytes
  (result, { r with sink })

def flushSink (r : Response) : Except Fault Unit × Response :=
  let (result, sink) := r.sink.flush
  (result, { r with sink })

/-- Writes the head unless it has been written. -/
def commit (r : Response) : Except Fault Unit × Response :=
  if r.isCommitted then (.ok (), r)
  -- a head that only went out in part is not tried again
  else { r with isCommitted := true }.put r.head.encode

def closedFault (r : Response) : Fault :=
  match r.engine with
  | .stream => .responseClosed
  | .callback => .exchangeComplete

/-- A piece of the body in the framing that the head announces. -/
def frame (head : ResponseHead) (data : Bytes) : Bytes :=
  if head.isChunked then Chunk.encode data else data

/-- Writes a piece of the body, after the head. -/
def writePiece (r : Response) (data : Bytes) : Except Fault Unit × Response :=
  if r.isClosed then (.error r.closedFault, r)
  else andThen r.commit fun r => r.put (frame r.head data)

/-- One write by a handler; gives the number of bytes taken. -/
def write (r : Response) (data : Bytes) : Except Fault Nat × Response :=
  if !r.isBlocking then (.error .notBlocking, r)
  else if data.isEmpty then (.ok 0, r)
  else
    let (result, r) := r.writePiece data
    (result.map fun _ => data.length, r)

/-- Writes all of a buffer; nothing happens for an empty one. -/
def writeAll (r : Response) (data : Bytes) : Except Fault Unit × Response :=
  if data.isEmpty then (.ok (), r)
  else
    let (result, r) := r.write data
    (result.map fun _ => (), r)

/-- A flush by a handler, which writes the head first. -/
def flush (r : Response) : Except Fault Unit × Response :=
  andThen r.commit flushSink

/-- Writes a piece of the body and flushes it. -/
def send (r : Response) (data : Bytes) : Except Fault Unit × Response :=
  andThen (r.writePiece data) flushSink

/-- Fills a buffer from a source and writes it, until the source ends or one of the two fails. The
flush comes once, at the end. -/
def writeFrom (size : Nat) (source : Source) (r : Response) : Except Fault Unit × Response :=
  match _h : source.fill size with
  | (.error fault, _) => (.error fault, r)
  | (.ok [], _) => r.flushSink
  | (.ok (b :: bs), rest) => andThen (r.writePiece (b :: bs)) fun r => writeFrom size rest r
termination_by source.weight
decreasing_by
  have := Source.weight_fill _h
  simp only [List.length_cons] at this
  omega

theorem writeFrom_eq (size : Nat) (source : Source) (r : Response) :
    writeFrom size source r =
      match source.fill size with
      | (.error fault, _) => (.error fault, r)
      | (.ok [], _) => r.flushSink
      | (.ok (b :: bs), rest) => andThen (r.writePiece (b :: bs)) (writeFrom size rest) := by
  rw [writeFrom]
  split <;> simp only [*]

/-- Copies a source in buffers of `size` bytes. -/
def copy (r : Response) (source : Source) (size : Nat) : Except Fault Unit × Response :=
  writeFrom (max size 1) source r

/-- The head that a close commits: without a body and a framing it announces a length of zero. -/
def settleLength (r : Response) : Response :=
  if !r.isCommitted && r.head.contentLength.isNone && !r.head.isChunked then r.setLength 0 else r

/-- Writes what is missing at the end: the head, and the last chunk of a chunked body. -/
def finish (r : Response) : Except Fault Unit × Response :=
  andThen r.commit fun r => if r.head.isChunked then r.put Chunk.last else (.ok (), r)

/-- Closes the response; a second close does nothing. -/
def close (r : Response) (aborted : Bool) : Except Fault Unit × Response :=
  if r.isClosed then (.ok (), r)
  else
    -- what fails from here on leaves the response closed
    let r := { r with isClosed := true }
    if aborted then r.flushSink else andThen r.settleLength.finish flushSink

theorem commit_of_isCommitted {r : Response} (h : r.isCommitted = true) :
    r.commit = (.ok (), r) := by
  simp [commit, h]

theorem close_of_isClosed {r : Response} (h : r.isClosed = true) (aborted : Bool) :
    r.close aborted = (.ok (), r) := by
  simp [close, h]

theorem writePiece_of_isOpen {r : Response} (h : r.isClosed = false) (data : Bytes) :
    r.writePiece data = andThen r.commit fun r => r.put (frame r.head data) := by
  simp [writePiece, h]

theorem frame_of_isChunked {head : ResponseHead} (h : head.isChunked = true) :
    frame head = Chunk.encode :=
  funext fun _ => if_pos h

theorem frame_of_not_isChunked {head : ResponseHead} (h : head.isChunked = false) :
    frame head = id := by
  funext data
  simp [frame, h]

theorem settleLength_eq (r : Response) :
    r.settleLength =
      if r.isCommitted || r.head.contentLength.isSome || r.head.isChunked then r
      else r.setLength 0 := by
  rw [settleLength, ← Option.not_isSome, ← Bool.not_or, ← Bool.not_or]
  cases r.isCommitted || r.head.contentLength.isSome || r.head.isChunked <;> rfl

end Response

end HttpContext
