import HttpContext.Context.Release
/-!
Sending a whole response, which ends the request. A file, and a stream with an announced length,
go out in the window that the Range header asks for.
-/
namespace HttpContext

/-- An open file as it answers to the one that sends it. -/
structure File where
  /-- why it does not report its length, if it does not -/
  metadataFault : Option Fault := none
  length : Nat
  /-- why no position can be sought in it, if none can -/
  seekFault : Option Fault := none
  /-- what its reads give from the first byte on -/
  source : Source
  deriving Repr, DecidableEq

namespace File

/-- A file with this content, which never fails. -/
def ofBytes (content : Bytes) : File :=
  { length := content.length, source := .ofBytes content }

/-- What the reads of a file give from a position on. -/
def seek (file : File) (position : Nat) : Except Fault Source :=
  match file.seekFault with
  | some fault => .error fault
  | none => .ok (file.source.seek position)

/-- The part of a file that lies in a window. -/
def window (file : File) (range : ByteRange) : Except Fault Source :=
  (file.seek range.start).map fun rest => rest.take range.window

end File

/-- What can be sent at once. -/
inductive Sending
  /-- no body -/
  | empty (status : Status)
  | bytes (data : Bytes)
  | source (source : Source)
  | file (file : File)
  deriving Repr, DecidableEq

namespace Context

/-- Announces a partial window; the whole body needs no announcement. -/
def announceRange (c : Context) (range : ByteRange) : Context :=
  if range.isPartial then
    (((c.setHeader "Accept-Ranges" "bytes").setHeader "Content-Range" range.contentRange).setLength
      range.window).setStatus .partialContent
  else c

def requestedRange (c : Context) (length : Nat) : ByteRange :=
  ByteRange.resolve (c.request.head.header? "Range") length

/-- The response goes out with a length and not in chunks. -/
def withLength (c : Context) (length : Nat) : Context :=
  { c with response := (c.response.removeHeader "Transfer-Encoding").setLength length }

/-- Writes the data to the response and ends the request. -/
def putOut (c : Context) (data : Bytes) : Context :=
  let (result, response) := c.response.send data
  { c with response }.endWith result

/-- Sends one buffer of a source. When that is out, the rest of the source follows in the same way;
the request ends with the source or with the first failure. -/
def pump (size : Nat) (source : Source) (c : Context) : Context :=
  match _h : source.fill size with
  | (.error fault, _) => c.endWith (.error fault)
  | (.ok [], _) => c.endWith (.ok ())
  | (.ok (b :: bs), rest) =>
    match c.response.send (b :: bs) with
    | (.error fault, response) => { c with response }.endWith (.error fault)
    | (.ok (), response) => pump size rest { c with response }
termination_by source.weight
decreasing_by
  have := Source.weight_fill _h
  simp only [List.length_cons] at this
  omega

/-- Copies a source to the response and ends the request. The stream engine copies it in a loop, the
callback engine is called back after every buffer. -/
def copyOut (c : Context) (source : Source) : Context :=
  match c.engine with
  | .stream =>
    let (result, response) := c.response.copy source c.router.config.bufferSize
    { c with response }.endWith result
  | .callback => c.pump (max c.router.config.bufferSize 1) source

def sendEmpty (c : Context) (status : Status) : Context :=
  (((c.withLength 0).setStatus status).release none).drop

def sendWhole (c : Context) (data : Bytes) : Context :=
  (c.withLength data.length).putOut data

/-- Copies a window out, or ends the request with the failure to find it. -/
def copyWindow (c : Context) : Except Fault Source → Context
  | .ok window => c.copyOut window
  | .error cause => c.endWith (.error cause)

def sendFile (c : Context) (file : File) : Context :=
  match file.metadataFault with
  | some cause => c.endWith (.error cause)
  | none =>
    let c := c.withLength file.length
    let range := c.requestedRange file.length
    (c.announceRange range).copyWindow (file.window range)

/-- The part of a source that lies in a window. -/
def windowOf (source : Source) (range : ByteRange) : Except Fault Source :=
  (source.skip range.start).map fun rest => rest.take range.window

def sendSource (c : Context) (source : Source) : Context :=
  match c.response.head.contentLength with
  -- a length of zero announces nothing
  | some (length + 1) =>
    let range := c.requestedRange (length + 1)
    (c.announceRange range).copyWindow (windowOf source range)
  | _ =>
    { c with response := (c.response.removeHeader "Content-Length").setChunked }.copyOut source

def send (c : Context) : Sending → Context
  | .empty status => c.sendEmpty status
  | .bytes data => c.sendWhole data
  | .source source => c.sendSource source
  | .file file => c.sendFile file

end Context

end HttpContext
