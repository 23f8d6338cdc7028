import HttpContext.Message.RequestHead
/-!
Reading a request from bytes that arrive in any pieces. What has been received is kept until the
head is whole and accepted; a head that was refused is refused again at every later feed.
-/
namespace HttpContext

namespace Parser

inductive Stage
  | requestLine
  | headers
  | body (head : RequestHead) (length : Nat)
  | complete (request : RequestMessage)
  deriving Repr, DecidableEq

end Parser

/-- A body limit of zero is no limit. -/
structure Parser where
  limit : Nat
  stage : Parser.Stage := .requestLine
  received : Bytes := []
  deriving Repr, DecidableEq

namespace Parser

def reset (p : Parser) : Parser :=
  { limit := p.limit }

def isComplete (p : Parser) : Bool :=
  match p.stage with
  | .complete _ => true
  | _ => false

/-- Completes the request once the whole body is there; bytes beyond it are dropped. -/
def takeBody (p : Parser) (head : RequestHead) (length : Nat) (received : Bytes) : Parser :=
  if length ≤ received.length then
    { p with stage := .complete ⟨head, received.take length⟩, received := [] }
  else { p with stage := .body head length, received }

/-- The header lines of a head whose request line is good, and the length of the body. -/
def readHeaders (limit : Nat) (method : Method) (target version : String)
    (lines : List (List Char)) : Except Error (RequestHead × Nat) := do
  let headers ← (RequestHead.headerLines lines).mapError Error.request
  let length ← (RequestHead.bodyLength headers).mapError Error.request
  if 0 < limit && limit < length then throw (.tooLarge limit)
  return ({ RequestHead.ofTarget method target headers with version }, length)

/-- Reads a whole head, which `rest` follows. -/
def takeHead (p : Parser) (head rest : Bytes) : Except Error Bool × Parser :=
  match Utf8.decode head with
  | .error _ => (.error (.request .headNotUtf8), p)
  | .ok text =>
    let lines := Text.lines text.toList
    match RequestHead.requestLine (lines.headD []) with
    | .error cause => (.error (.request cause), p)
    | .ok (method, target, version) =>
      match readHeaders p.limit method target version lines.tail with
      | .error cause => (.error cause, { p with stage := .headers })
      | .ok (head, length) =>
        let p := p.takeBody head length rest
        (.ok p.isComplete, p)

/-- Takes in more bytes; `true` when the request is complete. A complete parser starts afresh. -/
def feed (p : Parser) (data : Bytes) : Except Error Bool × Parser :=
  -- bytes that come after a whole request begin the next one
  let p := if p.isComplete then p.reset else p
  let received := p.received ++ data
  match p.stage with
  | .body head length =>
    let p := p.takeBody head length received
    (.ok p.isComplete, p)
  | _ =>
    match Bytes.cutAt? Bytes.blankLine received with
    -- the head is read only when all of it is there
    | none => (.ok false, { p with received })
    | some (head, rest) => takeHead { p with received } head rest

def request (p : Parser) : Except Error RequestMessage :=
  match p.stage with
  | .complete request => .ok request
  | _ => .error (.request .incomplete)

end Parser

end HttpContext
