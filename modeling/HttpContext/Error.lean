import HttpContext.Fault
import HttpContext.Text.Utf8
/-!
Why a request, a form or a configuration is refused, by cause. The wording is in the functions
named `message`.
-/
namespace HttpContext

inductive RequestError
  | headNotUtf8
  | requestLine
  | unknownMethod (name : String)
  | headerLine
  | contentLength (value : String)
  | incomplete
  | bodyNotUtf8 (place : Utf8.Malformed)
  deriving Repr, DecidableEq

inductive FormError
  | boundaryMissing
  | openingMissing
  | boundaryLine
  | headersUnterminated
  | headersNotUtf8
  | closingMissing
  | dispositionMissing
  | nameMissing
  deriving Repr, DecidableEq

inductive ConfigError
  | bufferSize
  | workerThreads
  | defaultCharset
  deriving Repr, DecidableEq

inductive JsonError
  /-- no JSON text begins like this -/
  | malformed
  /-- the text ends too early -/
  | unfinished
  /-- JSON, but not of the expected type or range -/
  | mistyped
  deriving Repr, DecidableEq

inductive Error
  | io (fault : Fault)
  | request (cause : RequestError)
  | tooLarge (limit : Nat)
  | form (cause : FormError)
  | config (cause : ConfigError)
  | json (cause : JsonError)
  deriving Repr, DecidableEq

def Utf8.Malformed.message (m : Utf8.Malformed) : String :=
  match m.length with
  | some n => "invalid utf-8 sequence of " ++ toString n ++ " bytes from index " ++ toString m.index
  | none => "incomplete utf-8 byte sequence from index " ++ toString m.index

def RequestError.message : RequestError → String
  | headNotUtf8 => "Invalid UTF-8"
  | requestLine => "Invalid request line"
  | unknownMethod name => "Invalid method: " ++ name
  | headerLine => "Invalid header"
  | contentLength value => "Invalid Content-Length: " ++ value
  | incomplete => "Request not complete"
  | bodyNotUtf8 m => "Body is not UTF-8: " ++ m.message

def FormError.message : FormError → String
  | boundaryMissing => "Missing boundary"
  | openingMissing => "Missing opening boundary"
  | boundaryLine => "Malformed boundary line"
  | headersUnterminated => "Unterminated part headers"
  | headersNotUtf8 => "Part headers are not UTF-8"
  | closingMissing => "Missing closing boundary"
  | dispositionMissing => "Part without Content-Disposition"
  | nameMissing => "Part without a name"

def ConfigError.message : ConfigError → String
  | bufferSize => "buffer_size must be greater than zero"
  | workerThreads => "worker_threads must be greater than zero"
  | defaultCharset => "default_charset must not be empty"

def JsonError.message : JsonError → String
  | malformed => "malformed text"
  | unfinished => "unexpected end of text"
  | mistyped => "value of an unexpected type or range"

namespace Error

def message : Error → String
  | io fault => "IO error: " ++ fault.text
  | request cause => "HTTP parsing error: " ++ cause.message
  | tooLarge limit => tooLargeText limit
  | form cause => "Multipart error: " ++ cause.message
  | config cause => "Configuration error: " ++ cause.message
  | json cause => "JSON error: " ++ cause.message

/-- A failure of reading a body, which names the limit when that was passed. -/
def ofBodyFault : Fault → Error
  | .tooLarge _ limit => .tooLarge limit
  | fault => .io fault

end Error

end HttpContext
