import HttpContext.Form.Spool
import HttpContext.Text.Basic
/-!
The entries of a form body, and what a content type and the parameters of a header say about it.
-/
namespace HttpContext

/-- One named entry: a text field or an uploaded file. -/
inductive FormEntry
  | field (name value : String)
  | file (upload : Upload)
  deriving Repr, DecidableEq

namespace FormEntry

def name : FormEntry → String
  | field name _ => name
  | file upload => upload.name

def field? : FormEntry → Option (String × String)
  | field name value => some (name, value)
  | file _ => none

def upload? : FormEntry → Option Upload
  | field _ _ => none
  | file upload => some upload

end FormEntry

/-- How a body is to be read as a form. -/
inductive FormKind
  | urlencoded
  | multipart
  deriving Repr, DecidableEq

namespace FormKind

def mediaType : FormKind → String
  | urlencoded => "application/x-www-form-urlencoded"
  | multipart => "multipart/form-data"

/-- The content type is of this kind, whatever parameters follow. -/
def announcedBy (kind : FormKind) (contentType : Option String) : Bool :=
  match contentType with
  | none => false
  | some value =>
    Text.sameName (String.ofList (Text.trim (value.toList.takeWhile (· != ';')))) kind.mediaType

def ofContentType (contentType : Option String) : Option FormKind :=
  if urlencoded.announcedBy contentType then some urlencoded
  else if multipart.announcedBy contentType then some multipart
  else none

end FormKind

namespace Parameters

/-- A value without the pair of quotes around it. -/
def unquote (cs : List Char) : List Char :=
  match cs with
  | '"' :: rest => if rest.getLast? = some '"' then rest.dropLast else cs
  | _ => cs

/-- A name and a value around the first equals sign. -/
def parameter? (cs : List Char) : Option (String × String) := do
  let (name, value) ← Text.cut? '=' cs
  return (String.ofList (Text.trim name), String.ofList (unquote (Text.trim value)))

/-- The parameters after the first semicolon of a header value. -/
def parse (value : String) : List (String × String) :=
  (value.toList.splitOn ';').tail.filterMap parameter?

/-- The first parameter of a name in any ASCII case. -/
def get? (parameters : List (String × String)) (name : String) : Option String :=
  (parameters.find? fun parameter => Text.sameName parameter.1 name).map Prod.snd

/-- The boundary of a multipart content type, which is not empty. -/
def boundary? (contentType : String) : Option String :=
  (get? (parse contentType) "boundary").filter fun boundary => !boundary.isEmpty

end Parameters

end HttpContext
