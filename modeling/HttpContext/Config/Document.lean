import HttpContext.Config.Basic
import HttpContext.Config.Json
/-!
Settings as a JSON document: an object with any of the five fields, or an array of them in the
order of the fields. What is left out has its default value; unknown fields are skipped.
-/
namespace HttpContext

namespace Config

structure Fields where
  bufferSize : Option Nat := none
  maxRequestSize : Option UInt64 := none
  tmpdir : Option String := none
  workerThreads : Option Nat := none
  defaultCharset : Option String := none

inductive FieldName
  | bufferSize | maxRequestSize | tmpdir | workerThreads | defaultCharset
  deriving DecidableEq

namespace FieldName

/-- The fields in the order in which an array gives them and a document is written. -/
def all : List FieldName := [bufferSize, maxRequestSize, tmpdir, workerThreads, defaultCharset]

def name : FieldName → String
  | bufferSize => "buffer_size"
  | maxRequestSize => "max_request_size"
  | tmpdir => "tmpdir"
  | workerThreads => "worker_threads"
  | defaultCharset => "default_charset"

def ofName? (name : String) : Option FieldName :=
  all.find? fun field => field.name == name

def isGiven : FieldName → Fields → Bool
  | bufferSize, f => f.bufferSize.isSome
  | maxRequestSize, f => f.maxRequestSize.isSome
  | tmpdir, f => f.tmpdir.isSome
  | workerThreads, f => f.workerThreads.isSome
  | defaultCharset, f => f.defaultCharset.isSome

def read (f : Fields) : FieldName → Json.Reader Fields
  | bufferSize => return { f with bufferSize := some (← Json.natural) }
  | maxRequestSize => return { f with maxRequestSize := some (.ofNat (← Json.natural)) }
  | tmpdir => return { f with tmpdir := some (← Json.text) }
  | workerThreads => return { f with workerThreads := some (← Json.natural) }
  | defaultCharset => return { f with defaultCharset := some (← Json.text) }

end FieldName

namespace Fields

/-- Reads the elements that stand behind the first `done` fields of an array. -/
def readElements (first : Bool) (f : Fields) : List FieldName → Json.Reader Fields
  | [] => do
    Json.expect ']'
    return f
  | field :: rest => do
    let c ← Json.front
    if c == ']' then
      Json.advance
      return f
    if !first then
      Json.expect ','
      -- no comma stands before the closing bracket
      if (← Json.front) == ']' then throw .malformed
    readElements false (← field.read f) rest

/-- Reads a member: a known field once, any other name as often as it comes. -/
def readMember (f : Fields) : Json.Reader Fields := do
  Json.expect '"'
  match FieldName.ofName? (← Json.textBody) with
  | some field =>
    if field.isGiven f then throw .mistyped
    Json.expect ':'
    field.read f
  | none =>
    Json.expect ':'
    Json.skip
    return f

/-- Reads the members of an object; each takes at least one character. -/
def readMembers : Nat → Bool → Fields → Json.Reader Fields
  | 0, _, _ => throw .unfinished
  | fuel + 1, first, f => do
    let c ← Json.front
    if c == '}' then
      Json.advance
      return f
    if !first then Json.expect ','
    readMembers fuel false (← readMember f)

def read : Json.Reader Fields := do
  match ← Json.front with
  | '[' =>
    Json.advance
    readElements true {} FieldName.all
  | '{' =>
    Json.advance
    readMembers ((← get).length + 1) true {}
  | _ => Json.refuse

/-- Reads a whole document, which only blanks may follow. -/
def parse (text : String) : Except JsonError Fields := do
  let (fields, rest) ← read.run text.toList
  if rest.all Json.isBlank then return fields else throw .malformed

/-- The settings, with a default for each one that is left out. -/
def complete (machine : Machine) (f : Fields) : Config :=
  let base := Config.default machine
  { bufferSize := f.bufferSize.getD base.bufferSize
    maxRequestSize := f.maxRequestSize.getD base.maxRequestSize
    tmpdir := f.tmpdir.getD base.tmpdir
    workerThreads := f.workerThreads.getD base.workerThreads
    defaultCharset := f.defaultCharset.getD base.defaultCharset }

end Fields

/-- The settings of a file, given by its content when there is one. -/
def ofFile (machine : Machine) (content : Option Bytes) : Except Error Config := do
  let some bytes := content | throw (.io (.system .notFound))
  let text ← (Utf8.decode bytes).mapError fun _ => .io .fileNotUtf8
  let fields ← (Fields.parse text).mapError Error.json
  let config := fields.complete machine
  config.validate.mapError Error.config
  return config

/-- The value of a setting as a document gives it. -/
def printed (c : Config) : FieldName → String
  | .bufferSize => toString c.bufferSize
  | .maxRequestSize => toString c.maxRequestSize.toNat
  | .tmpdir => Json.quote c.tmpdir
  | .workerThreads => toString c.workerThreads
  | .defaultCharset => Json.quote c.defaultCharset

def member (c : Config) (field : FieldName) : String :=
  "  " ++ Json.quote field.name ++ ": " ++ c.printed field

/-- A document that states some of the settings. -/
def documentOf (c : Config) (fields : List FieldName) : String :=
  "\x7b\n" ++ ",\n".intercalate (fields.map c.member) ++ "\n\x7d"

/-- The document that a file of these settings holds. -/
def document (c : Config) : String := c.documentOf FieldName.all

end Config

end HttpContext
