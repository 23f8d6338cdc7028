/-!
Media types of responses. A textual type carries a charset.
-/
namespace HttpContext

structure MediaType where
  value : String
  deriving Repr, DecidableEq

namespace MediaType

def text : MediaType := ⟨"text/plain"⟩
def html : MediaType := ⟨"text/html"⟩
def css : MediaType := ⟨"text/css"⟩
def js : MediaType := ⟨"text/javascript"⟩
def json : MediaType := ⟨"application/json"⟩
def xml : MediaType := ⟨"application/xml"⟩
def form : MediaType := ⟨"application/x-www-form-urlencoded"⟩
def multipart : MediaType := ⟨"multipart/form-data"⟩
def octetStream : MediaType := ⟨"application/octet-stream"⟩

def isTextual (m : MediaType) : Bool :=
  "text/".toList.isPrefixOf m.value.toList
    || m.value == "application/json"
    || m.value == "application/xml"
    || m.value == "application/javascript"
    || "+xml".toList.isSuffixOf m.value.toList
    || "+json".toList.isSuffixOf m.value.toList

/-- The charset to announce when none was asked for. -/
def charset (m : MediaType) : Option String :=
  if m.isTextual then some "UTF-8" else none

def header (m : MediaType) : Option String → String
  | some charset => m.value ++ ";charset=" ++ charset
  | none => m.value

end MediaType

end HttpContext
