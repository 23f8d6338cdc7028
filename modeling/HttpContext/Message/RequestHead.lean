import HttpContext.Bytes
import HttpContext.Message.HeaderFields
import HttpContext.Message.Method
/-!
The request line and the header lines of a request, read from text.
-/
namespace HttpContext

structure RequestHead where
  method : Method
  path : String
  query : Option String := none
  version : String := "HTTP/1.1"
  headers : HeaderFields := {}
  deriving Repr, DecidableEq

structure RequestMessage where
  head : RequestHead
  body : Bytes
  deriving Repr, DecidableEq

namespace RequestHead

/-- The path and the query of a target, cut at its first question mark. -/
def cutTarget (target : String) : String × Option String :=
  match Text.cut? '?' target.toList with
  | some (path, query) => (String.ofList path, some (String.ofList query))
  | none => (target, none)

def ofTarget (method : Method) (target : String) (headers : HeaderFields) : RequestHead :=
  let (path, query) := cutTarget target
  { method, path, query, headers }

/-- Method, target and version: the three words of a request line. -/
def requestLine (line : List Char) : Except RequestError (Method × String × String) :=
  match Text.words line with
  | [method, target, version] => do
    let method ← Method.ofName (String.ofList method)
    return (method, String.ofList target, String.ofList version)
  | _ => .error .requestLine

def headerLine (line : List Char) : Except RequestError (String × String) :=
  match Text.cut? ':' line with
  | some (name, value) => .ok (String.ofList (Text.trim name), String.ofList (Text.trim value))
  | none => .error .headerLine

/-- The header lines, of which the empty ones count for nothing. -/
def headerLines (lines : List (List Char)) : Except RequestError HeaderFields :=
  HeaderFields.mk <$> (lines.filter fun line => !line.isEmpty).mapM headerLine

/-- The length that the head announces for the body; zero when it is silent. -/
def bodyLength (headers : HeaderFields) : Except RequestError Nat :=
  match headers.get? "content-length" with
  | none => .ok 0
  | some value =>
    match Text.count? value.toList with
    | some length => .ok length
    | none => .error (.contentLength value)

def header? (head : RequestHead) (name : String) : Option String :=
  head.headers.get? name

def contentType (head : RequestHead) : Option String :=
  head.header? "Content-Type"

/-- The announced length of the body, when it is a number. -/
def contentLength (head : RequestHead) : Option Nat :=
  (head.header? "Content-Length").bind fun value => Text.count? (Text.trim value.toList)

def target (head : RequestHead) : String :=
  match head.query with
  | some query => head.path ++ "?" ++ query
  | none => head.path

end RequestHead

/-- The bytes that make a request: request line, header lines, blank line and body. -/
def RequestMessage.encode (m : RequestMessage) : Bytes :=
  Utf8.encode (m.head.method.name ++ " " ++ m.head.target ++ " " ++ m.head.version) ++ Bytes.crlf
    ++ m.head.headers.encode ++ Bytes.crlf ++ m.body

end HttpContext
