import HttpContext.Message.Parser
/-!
A parser that writes down what it reads of a head line by line. A head that is refused leaves behind
what had been read of it by then, and the next feed reads the same head again on top of that.
-/
namespace HttpContext

inductive Draft.Stage
  | requestLine
  | headers
  | body
  | complete
  deriving Repr, DecidableEq

/-- The bytes of the request so far, head included, and what has been written down of it. -/
structure Draft where
  limit : Nat
  stage : Draft.Stage := .requestLine
  received : Bytes := []
  method : Option Method := none
  target : Option String := none
  version : Option String := none
  headers : HeaderFields := {}
  bodyStart : Nat := 0
  bodyLength : Nat := 0
  deriving Repr, DecidableEq

namespace Draft

def reset (d : Draft) : Draft :=
  { limit := d.limit }

def isComplete (d : Draft) : Bool :=
  d.stage = .complete

/-- Writes down header lines up to the first that is none. -/
def addLines : List (List Char) → Draft → Except Error Unit × Draft
  | [], d => (.ok (), d)
  | line :: rest, d =>
    match RequestHead.headerLine line with
    | .error cause => (.error (.request cause), d)
    | .ok (name, value) => addLines rest { d with headers := d.headers.add name value }

/-- Takes the length of the body from the header lines that have been written down. -/
def announce (d : Draft) : Except Error Unit × Draft :=
  match RequestHead.bodyLength d.headers with
  | .error cause => (.error (.request cause), d)
  | .ok bodyLength =>
    if 0 < d.limit && d.limit < bodyLength then (.error (.tooLarge d.limit), { d with bodyLength })
    else (.ok (), { d with bodyLength })

/-- Reads the head, which is the first `size` bytes. -/
def takeHead (d : Draft) (size : Nat) : Except Error Unit × Draft :=
  match Utf8.decode (d.received.take size) with
  | .error _ => (.error (.request .headNotUtf8), d)
  | .ok text =>
    let lines := Text.lines text.toList
    match RequestHead.requestLine (lines.headD []) with
    | .error cause => (.error (.request cause), d)
    | .ok (method, target, version) =>
      let d := { d with
        method := some method, target := some target, version := some version, stage := .headers }
      match d.addLines (lines.tail.filter fun line => !line.isEmpty) with
      | (.error cause, d) => (.error cause, d)
      | (.ok (), d) =>
        match d.announce with
        | (.error cause, d) => (.error cause, d)
        | (.ok (), d) =>
          (.ok (), { d with bodyStart := size + Bytes.blankLine.length, stage := .body })

/-- Ends the request when its body is there; bytes behind it are dropped. -/
def takeBody (d : Draft) : Draft :=
  if d.stage = .body && d.bodyLength ≤ d.received.length - d.bodyStart then
    { d with received := d.received.take (d.bodyStart + d.bodyLength), stage := .complete }
  else d

def feed (d : Draft) (data : Bytes) : Except Error Bool × Draft :=
  let d := if d.isComplete then d.reset else d
  let d := { d with received := d.received ++ data }
  if d.stage = .requestLine || d.stage = .headers then
    match Bytes.find? Bytes.blankLine d.received with
    | none => (.ok false, d)
    | some size =>
      match d.takeHead size with
      | (.error cause, d) => (.error cause, d)
      | (.ok (), d) => (.ok d.takeBody.isComplete, d.takeBody)
  else (.ok d.takeBody.isComplete, d.takeBody)

/-- The head as far as it has been written down. -/
def head? (d : Draft) : Option RequestHead := do
  let method ← d.method
  let target ← d.target
  let version := d.version.getD "HTTP/1.1"
  return { RequestHead.ofTarget method target d.headers with version }

def request (d : Draft) : Except Error RequestMessage :=
  if d.isComplete then
    match d.head? with
    | some head => .ok ⟨head, d.received.drop d.bodyStart⟩
    | none => .error (.request .incomplete)
  else .error (.request .incomplete)

end Draft

end HttpContext
