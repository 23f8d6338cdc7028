import HttpContext.Text.Utf8
/-!
Forms written as `name=value&name=value`, with `+` for a blank and `%` before the two hexadecimal
digits of a byte. Text that is not UTF-8 afterwards is read with replacements.
-/
namespace HttpContext.Urlencoded

/-- The byte that two hexadecimal digits write. -/
def escaped? (high low : UInt8) : Option UInt8 := do
  return (← Bytes.hexDigit? high) * 16 + (← Bytes.hexDigit? low)

/-- A `%` without two digits after it stands for itself. -/
def unescape : Bytes → Bytes
  | 37 :: high :: low :: rest =>
    match escaped? high low with
    | some b => b :: unescape rest
    -- the two bytes after it may begin an escape of their own
    | none => 37 :: unescape (high :: low :: rest)
  | 43 :: rest => 32 :: unescape rest
  | b :: rest => b :: unescape rest
  | [] => []

def decodeText (bytes : Bytes) : String :=
  Utf8.decodeLossy (unescape bytes)

/-- A name and a value, which is empty without an equals sign. -/
def decodePair (bytes : Bytes) : String × String :=
  match Bytes.cutAt? [61] bytes with
  | some (name, value) => (decodeText name, decodeText value)
  | none => (decodeText bytes, "")

def decode (bytes : Bytes) : List (String × String) :=
  ((bytes.splitOn 38).filter fun piece => !piece.isEmpty).map decodePair

/-- Takes a form apart into its pairs. Whatever reads a form is given one, of which nothing more is
asked than that an empty form has no pairs. -/
structure Decoder where
  pairs : Bytes → List (String × String)
  pairs_nil : pairs [] = []

/-- The usual one. -/
def decoder : Decoder := ⟨decode, rfl⟩

end HttpContext.Urlencoded
