import HttpContext.Error
import HttpContext.Form.Entry
/-!
Multipart bodies: parts between delimiter lines, each with header lines and a content. `parts`
cuts a body into its parts, `FormEntry.ofParts` reads their headers and stores their files, and
`read` does both; a body that is refused leaves no file behind.
-/
namespace HttpContext

/-- A part as it stands in the body. -/
structure Part where
  head : String
  content : Bytes
  deriving Repr, DecidableEq

namespace Multipart

def dashes : Bytes := [45, 45]

/-- What stands before the first part and, after a line break, behind every part. -/
def delimiter (boundary : String) : Bytes := dashes ++ Utf8.encode boundary

/-- The parts behind a delimiter, and what is wrong with the rest when they end early. -/
def parts (boundary : String) (bytes : Bytes) : List Part × Option FormError :=
  if dashes.isPrefixOf bytes then ([], none)
  else if !Bytes.crlf.isPrefixOf bytes then ([], some .boundaryLine)
  else
    match _hh : Bytes.cutAt? Bytes.blankLine (bytes.drop 2) with
    | none => ([], some .headersUnterminated)
    | some (head, rest) =>
      match Utf8.decode head with
      | .error _ => ([], some .headersNotUtf8)
      | .ok head =>
        match _hc : Bytes.cutAt? (Bytes.crlf ++ delimiter boundary) rest with
        | none => ([], some .closingMissing)
        | some (content, rest) =>
          let (more, cause) := parts boundary rest
          (⟨head, content⟩ :: more, cause)
termination_by bytes.length
decreasing_by
  -- the two cuts take off six bytes or more, the line break in front another two
  have hh := Bytes.length_of_cutAt? _hh
  have hc := Bytes.length_of_cutAt? _hc
  simp only [List.length_drop, Bytes.blankLine, Bytes.crlf, List.length_append,
    List.length_cons] at hh hc
  omega

/-- A body with these parts, each behind a delimiter line, and the closing delimiter. -/
def encode (boundary : String) : List Part → Bytes
  | [] => delimiter boundary ++ dashes
  | part :: rest =>
    delimiter boundary ++ Bytes.crlf ++ Utf8.encode part.head ++ Bytes.blankLine
      ++ part.content ++ Bytes.crlf ++ encode boundary rest

end Multipart

namespace Part

/-- The value of the last header line of a name. -/
def header? (part : Part) (name : String) : Option String :=
  (Text.lines part.head.toList).foldl (fun found line =>
    match Text.cut? ':' line with
    | some (lineName, value) =>
      if Text.sameName (String.ofList (Text.trim lineName)) name then
        some (String.ofList (Text.trim value))
      else found
    | none => found) none

/-- What the headers of a part say about it. -/
structure Description where
  name : String
  fileName : Option String
  contentType : Option String
  deriving Repr, DecidableEq

/-- The header lines that say this about a part. -/
def Description.head (d : Description) : String :=
  let fileName := match d.fileName with
    | some fileName => "; filename=\"" ++ fileName ++ "\""
    | none => ""
  let contentType := match d.contentType with
    | some contentType => "\r\nContent-Type: " ++ contentType
    | none => ""
  "Content-Disposition: form-data; name=\"" ++ d.name ++ "\"" ++ fileName ++ contentType

def description (part : Part) : Except FormError Description :=
  match part.header? "content-disposition" with
  | none => .error .dispositionMissing
  | some disposition =>
    let parameters := Parameters.parse disposition
    match Parameters.get? parameters "name" with
    | none => .error .nameMissing
    | some name =>
      .ok ⟨name, Parameters.get? parameters "filename", part.header? "content-type"⟩

/-- The entry that a part stands for. A file is stored in the spool. -/
def entry (part : Part) (threshold : Nat) (spool : Spool) : Except Error FormEntry × Spool :=
  match part.description with
  | .error cause => (.error (.form cause), spool)
  | .ok d =>
    match d.fileName with
    -- a part without a file name is a text field
    | none => (.ok (.field d.name (Utf8.decodeLossy part.content)), spool)
    | some fileName =>
      match spool.add d.name fileName d.contentType part.content threshold with
      | (.ok upload, spool) => (.ok (.file upload), spool)
      | (.error fault, spool) => (.error (.io fault), spool)

end Part

namespace FormEntry

/-- The entries of the parts up to the first one that is refused. -/
def ofParts (threshold : Nat) : List Part → Spool → List FormEntry × Option Error × Spool
  | [], spool => ([], none, spool)
  | part :: rest, spool =>
    match part.entry threshold spool with
    | (.error cause, spool) => ([], some cause, spool)
    | (.ok entry, spool) =>
      let (more, cause, spool) := ofParts threshold rest spool
      (entry :: more, cause, spool)

/-- Drops the handles that the entries hold. -/
def release (entries : List FormEntry) (spool : Spool) : Spool :=
  spool.dropAll (entries.filterMap upload?)

end FormEntry

namespace Multipart

/-- The entries of a body, files of more than `threshold` bytes going to the spool directory. -/
def read (boundary : String) (threshold : Nat) (body : Bytes) (spool : Spool) :
    Except Error (List FormEntry) × Spool :=
  match Bytes.cutAt? (delimiter boundary) body with
  | none => (.error (.form .openingMissing), spool)
  | some (_, rest) =>
    let (found, cause) := parts boundary rest
    match FormEntry.ofParts threshold found spool with
    | (entries, some cause, spool) => (.error cause, FormEntry.release entries spool)
    | (entries, none, spool) =>
      match cause with
      | some cause => (.error (.form cause), FormEntry.release entries spool)
      | none => (.ok entries, spool)

end Multipart

end HttpContext
