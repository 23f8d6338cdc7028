import HttpContext.Form.Urlencoded
import HttpContext.Value.Multimap
/-!
The query of a request target: its raw text and its values.
-/
namespace HttpContext

structure Query where
  raw : String
  values : Multimap
  isGiven : Bool
  deriving Repr, DecidableEq

namespace Query

def empty : Query := ⟨"", {}, false⟩

/-- Reads a raw query; a question mark in front is no part of it. -/
def parse (decoder : Urlencoded.Decoder) (raw : String) : Query :=
  let raw := match raw.toList with
    | '?' :: rest => String.ofList rest
    | _ => raw
  ⟨raw, Multimap.putAll {} (decoder.pairs (Utf8.encode raw)), true⟩

end Query

end HttpContext
