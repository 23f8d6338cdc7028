import HttpContext.Bytes
/-!
UTF-8. `decode` gives the text or the place where it breaks; `decodeLossy` puts U+FFFD for each
longest part that could still have begun a character.
Main statements: `decode_encode` and `decodeLossy_encode`, written text is read back.
-/
namespace HttpContext.Utf8

/-- The place where a run of bytes stops being UTF-8; no length when the bytes end too early. -/
structure Malformed where
  index : Nat
  length : Option Nat
  deriving Repr, DecidableEq

def encode (text : String) : Bytes :=
  text.toList.flatMap String.utf8EncodeChar

/-- The character that the bytes begin with. -/
def char? (bytes : Bytes) : Option Char :=
  ByteArray.utf8DecodeChar? ⟨(bytes.take 4).toArray⟩ 0

/-- The bounds of the byte after a first byte that announces more. -/
def second (first : UInt8) : Option (UInt8 × UInt8) :=
  if 0xC2 ≤ first && first ≤ 0xDF then some (0x80, 0xBF)
  else if first == 0xE0 then some (0xA0, 0xBF)
  else if first == 0xED then some (0x80, 0x9F)
  else if 0xE1 ≤ first && first ≤ 0xEF then some (0x80, 0xBF)
  else if first == 0xF0 then some (0x90, 0xBF)
  else if 0xF1 ≤ first && first ≤ 0xF3 then some (0x80, 0xBF)
  else if first == 0xF4 then some (0x80, 0x8F)
  else none

/-- What stands at the front of a run of bytes after its first byte has been taken off. -/
inductive Front
  /-- a character with this many further bytes -/
  | char (c : Char) (more : Nat)
  /-- the longest part that could begin a character has this many further bytes -/
  | broken (more : Nat)
  /-- the bytes end inside a character -/
  | unfinished

/-- How far the bytes after the first one fit, when no character ends among them. -/
def reach (low high : UInt8) (done : Nat) : Bytes → Front
  | [] => .unfinished
  | b :: rest => if b < low || high < b then .broken done else reach 0x80 0xBF (done + 1) rest

def front (first : UInt8) (rest : Bytes) : Front :=
  match char? (first :: rest), second first with
  | some c, _ => .char c (c.utf8Size - 1)
  | none, none => .broken 0
  | none, some (low, high) => reach low high 0 rest

/-- The text from byte number `index` on. -/
def decodeFrom (index : Nat) : Bytes → Except Malformed (List Char)
  | [] => .ok []
  | first :: rest =>
    match front first rest with
    | .char c more => (c :: ·) <$> decodeFrom (index + more + 1) (rest.drop more)
    | .broken more => .error ⟨index, some (more + 1)⟩
    | .unfinished => .error ⟨index, none⟩
termination_by bytes => bytes.length
decreasing_by
  simp only [List.length_cons, List.length_drop]
  omega

def decode (bytes : Bytes) : Except Malformed String :=
  String.ofList <$> decodeFrom 0 bytes

def replacement : Char := '\uFFFD'

def lossyChars : Bytes → List Char
  | [] => []
  | first :: rest =>
    match front first rest with
    | .char c more => c :: lossyChars (rest.drop more)
    | .broken more => replacement :: lossyChars (rest.drop more)
    | .unfinished => [replacement]
termination_by bytes => bytes.length
decreasing_by
  all_goals
    simp only [List.length_cons, List.length_drop]
    omega

def decodeLossy (bytes : Bytes) : String :=
  String.ofList (lossyChars bytes)

@[simp] theorem encode_empty : encode "" = [] := by
  simp [encode]

theorem char?_encode_append (c : Char) (rest : Bytes) :
    char? (String.utf8EncodeChar c ++ rest) = some c := by
  have hl : (String.utf8EncodeChar c).length ≤ 4 := by
    rw [String.length_utf8EncodeChar]
    exact Char.utf8Size_le_four c
  have : (⟨((String.utf8EncodeChar c ++ rest).take 4).toArray⟩ : ByteArray)
      = (String.utf8EncodeChar c).toByteArray ++ ⟨(rest.take (4 - c.utf8Size)).toArray⟩ := by
    apply ByteArray.ext
    rw [ByteArray.data_append, List.data_toByteArray, List.take_append, List.take_of_length_le hl,
      String.length_utf8EncodeChar]
    simp
  rw [char?, this]
  exact ByteArray.utf8DecodeChar?_utf8EncodeChar_append

/-- A written character is read off the front whole. -/
theorem front_encode_append (c : Char) (rest : Bytes) :
    ∃ first more, String.utf8EncodeChar c = first :: more
      ∧ front first (more ++ rest) = .char c more.length := by
  have hc := char?_encode_append c rest
  have hl := String.length_utf8EncodeChar c
  match he : String.utf8EncodeChar c with
  | [] =>
    rw [he] at hl
    have := c.utf8Size_pos
    simp at hl
    omega
  | first :: more =>
    refine ⟨first, more, rfl, ?_⟩
    rw [he] at hc hl
    rw [front, ← List.cons_append, hc]
    simp only [List.length_cons] at hl
    simp only [Front.char.injEq, true_and]
    omega

theorem decodeFrom_flatMap_encode (cs : List Char) (index : Nat) :
    decodeFrom index (cs.flatMap String.utf8EncodeChar) = .ok cs := by
  induction cs generalizing index with
  | nil => rw [List.flatMap_nil, decodeFrom]
  | cons c cs ih =>
    obtain ⟨first, more, he, hf⟩ := front_encode_append c (cs.flatMap String.utf8EncodeChar)
    rw [List.flatMap_cons, he, List.cons_append, decodeFrom]
    simp only [hf, List.drop_left, ih]
    rfl

theorem decode_encode (text : String) : decode (encode text) = .ok text := by
  rw [decode, encode, decodeFrom_flatMap_encode]
  exact congrArg _ (String.ofList_toList)

theorem lossyChars_flatMap_encode (cs : List Char) :
    lossyChars (cs.flatMap String.utf8EncodeChar) = cs := by
  induction cs with
  | nil => rw [List.flatMap_nil, lossyChars]
  | cons c cs ih =>
    obtain ⟨first, more, he, hf⟩ := front_encode_append c (cs.flatMap String.utf8EncodeChar)
    rw [List.flatMap_cons, he, List.cons_append, lossyChars]
    simp only [hf, List.drop_left, ih]

theorem decodeLossy_encode (text : String) : decodeLossy (encode text) = text := by
  rw [decodeLossy, encode, lossyChars_flatMap_encode, String.ofList_toList]

end HttpContext.Utf8
