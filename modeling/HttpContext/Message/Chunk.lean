import HttpContext.Bytes
/-!
Chunks of a body: the size in hexadecimal digits, the data, and a final chunk of size zero.
An empty piece of data is no chunk, since it would end the body.
-/
namespace HttpContext.Chunk

/-- The lower-case hexadecimal digits of a size. -/
def sizeDigits (n : Nat) : Bytes :=
  (Nat.toDigits 16 n).map fun c => c.toNat.toUInt8

def encode (data : Bytes) : Bytes :=
  if data.isEmpty then [] else sizeDigits data.length ++ Bytes.crlf ++ data ++ Bytes.crlf

def last : Bytes := [48, 13, 10, 13, 10]

@[simp] theorem encode_nil : encode [] = [] := rfl

/-- The number written by hexadecimal digits of either case, of which there is at least one. -/
def size? (digits : Bytes) : Option Nat :=
  if digits.isEmpty then none
  else digits.foldlM (fun n b => (Bytes.hexDigit? b).map (n * 16 + ·.toNat)) 0

/-- The data of the chunk in front, and what follows it. -/
def next? (bytes : Bytes) : Option (Bytes × Bytes) := do
  let (digits, rest) ← Bytes.cutAt? Bytes.crlf bytes
  let size ← size? digits
  let after := rest.drop size
  if size ≤ rest.length && Bytes.crlf.isPrefixOf after then
    return (rest.take size, after.drop 2)
  else none

theorem length_of_next? {bytes data rest : Bytes} (h : next? bytes = some (data, rest)) :
    rest.length < bytes.length := by
  unfold next? at h
  simp only [Option.bind_eq_bind, Option.bind_eq_some_iff] at h
  obtain ⟨⟨digits, tail⟩, hc, size, _, hs⟩ := h
  have hl := Bytes.length_of_cutAt? hc
  split at hs
  · simp only [Option.pure_def, Option.some.injEq, Prod.mk.injEq] at hs
    rw [← hs.2]
    simp only [List.length_drop, Bytes.crlf, List.length_cons] at hl ⊢
    omega
  · cases hs

/-- The data of all chunks up to the last one, and what follows that. -/
def decode? (bytes : Bytes) : Option (Bytes × Bytes) :=
  match _h : next? bytes with
  | none => none
  | some ([], rest) => some ([], rest)
  | some (b :: data, rest) => (decode? rest).map fun (more, rest) => (b :: data ++ more, rest)
termination_by bytes.length
decreasing_by
  have := length_of_next? _h
  omega

end HttpContext.Chunk
