import HttpContext.Error
/-!
Reading JSON text from left to right, up to the first character that is wrong. A value may be read
as a number or a text, skipped at any depth, or refused for its type.
-/
namespace HttpContext.Json

abbrev Reader (α : Type) := StateT (List Char) (Except JsonError) α

def isBlank (c : Char) : Bool :=
  c == ' ' || c == '\n' || c == '\t' || c == '\r'

def peek? : Reader (Option Char) := do
  return (← get).head?

def advance : Reader Unit :=
  modify List.tail

/-- The next character that is not blank, which stays where it is. -/
def front? : Reader (Option Char) := do
  modify fun cs => cs.dropWhile isBlank
  peek?

def front : Reader Char := do
  match ← front? with
  | some c => return c
  | none => throw .unfinished

/-- The next character must be this one, after blanks. -/
def expect (mark : Char) : Reader Unit := do
  if (← front) == mark then advance else throw .malformed

def word (cs : List Char) : Reader Unit :=
  cs.forM fun c => do
    match ← peek? with
    | some d => if c == d then advance else throw .malformed
    | none => throw .unfinished

/-! ### Numbers -/

def digits : Reader (List Char) :=
  modifyGet fun cs => (cs.takeWhile Char.isDigit, cs.dropWhile Char.isDigit)

/-- The significand that digits extend as long as it fits in 64 bits, and how many of them are
left over. -/
def gather (n : Nat) : List Char → Nat × Nat
  | [] => (n, 0)
  | c :: rest =>
    let next := n * 10 + (c.toNat - 48)
    if next < UInt64.size then gather next rest else (n, rest.length + 1)

/-- The nearest number with 53 significant bits; of two equally near ones the even one. -/
def roundToDouble (n : Nat) : Nat :=
  let unit := 1 <<< (n.log2 - 52)
  let whole := n / unit
  let low := n % unit
  if unit < 2 * low || (unit == 2 * low && whole % 2 == 1) then (whole + 1) * unit else whole * unit

def infinityBound : Nat := (1 <<< 1024) - (1 <<< 970)

def maxPower : Nat := 308

/-- The product of `n` and a power of ten, both rounded to doubles before, is infinite. -/
def isInfinite (n : Nat) (power : Int) : Bool :=
  n != 0 && 0 ≤ power && ((maxPower : Int) < power
    || infinityBound ≤ roundToDouble n * roundToDouble (Nat.pow 10 power.toNat))

/-- The digits after a decimal point, when there is one. -/
def fraction (missing : JsonError) : Reader (List Char) := do
  if (← peek?) != some '.' then return []
  advance
  let found ← digits
  if found.isEmpty then
    throw (if (← peek?).isNone then missing else .malformed)
  return found

/-- The exponent after an `e`, when there is one. -/
def exponent (missing : JsonError) : Reader (Option Int) := do
  match ← peek? with
  | some 'e' | some 'E' =>
    advance
    let sign ← peek?
    if sign == some '+' || sign == some '-' then advance
    let found ← digits
    if found.isEmpty then
      throw (if (← peek?).isNone then missing else .malformed)
    let n : Int := Nat.ofDigitChars 10 found 0
    return some (if sign == some '-' then -n else n)
  | _ => return none

/-- The digits before the decimal point; a zero stands alone. -/
def wholeDigits (missing : JsonError) : Reader (List Char) := do
  let found ← digits
  match found with
  | [] => throw (if (← peek?).isNone then missing else .malformed)
  | '0' :: _ :: _ => throw .malformed
  | _ => return found

/-- A number after its sign; `some` when it was written as an integer of 64 bits. Digits that the
significand has no room for only count. -/
def unsigned : Reader (Option Nat) := do
  let whole ← wholeDigits .unfinished
  let part ← fraction .unfinished
  let power ← exponent .unfinished
  let (n, extra) := gather 0 whole
  if part.isEmpty && power.isNone && extra == 0 then return some n
  let (n, left) := gather n part
  if isInfinite n (power.getD 0 + extra + left - part.length) then throw .malformed
  return none

/-- Skips a number after its sign, however large; one that is cut short counts as malformed. -/
def skipUnsigned : Reader Unit := do
  discard (wholeDigits .malformed)
  discard (fraction .malformed)
  discard (exponent .malformed)

/-! ### Texts -/

/-- One piece of a text between quotes: a character, or an escaped code unit. -/
inductive Piece
  | char (c : Char)
  | unit (code : Nat)
  deriving Repr, DecidableEq

def unit? (cs : List Char) : Option Nat :=
  (cs.mapM Text.hexDigit?).map fun digits => digits.foldl (fun n d => n * 16 + d) 0

def escape? : Char → Option Char
  | '"' => some '"'
  | '\\' => some '\\'
  | '/' => some '/'
  | 'b' => some '\x08'
  | 'f' => some '\x0c'
  | 'n' => some '\n'
  | 'r' => some '\r'
  | 't' => some '\t'
  | _ => none

/-- The pieces after an opening quote, and what follows the closing one or why there is none. -/
def pieces : List Char → List Piece × Except JsonError (List Char)
  | [] => ([], .error .unfinished)
  | '"' :: rest => ([], .ok rest)
  | '\\' :: 'u' :: a :: b :: c :: d :: rest =>
    match unit? [a, b, c, d] with
    | some code =>
      let (more, ending) := pieces rest
      (.unit code :: more, ending)
    | none => ([], .error .malformed)
  | '\\' :: 'u' :: rest =>
    ([], .error (if (String.ofList rest).utf8ByteSize < 4 then .unfinished else .malformed))
  | '\\' :: c :: rest =>
    match escape? c with
    | some c =>
      let (more, ending) := pieces rest
      (.char c :: more, ending)
    | none => ([], .error .malformed)
  | ['\\'] => ([], .error .unfinished)
  | c :: rest =>
    if c.toNat < 32 then ([], .error .malformed)
    else
      let (more, ending) := pieces rest
      (.char c :: more, ending)

def isLeading (code : Nat) : Bool := 0xD800 ≤ code && code ≤ 0xDBFF

def isTrailing (code : Nat) : Bool := 0xDC00 ≤ code && code ≤ 0xDFFF

/-- The characters of the pieces; a surrogate must be followed by its partner. -/
def assemble (ending : Except JsonError (List Char)) : List Piece → Except JsonError (List Char)
  | [] => do
    discard ending
    return []
  | .char c :: rest => (c :: ·) <$> assemble ending rest
  | .unit high :: .unit low :: rest =>
    if isLeading high then
      if isTrailing low then
        (Char.ofNat (0x10000 + (high - 0xD800) * 0x400 + (low - 0xDC00)) :: ·)
          <$> assemble ending rest
      else .error .malformed
    else if isTrailing high then .error .malformed
    else (Char.ofNat high :: ·) <$> assemble ending (.unit low :: rest)
  | [.unit code] =>
    if isLeading code then do
      discard ending
      throw .malformed
    else if isTrailing code then .error .malformed
    else (Char.ofNat code :: ·) <$> assemble ending []
  | .unit code :: .char c :: rest =>
    if isLeading code || isTrailing code then .error .malformed
    else (Char.ofNat code :: ·) <$> assemble ending (.char c :: rest)

def textBody : Reader String := do
  let (found, ending) := pieces (← get)
  let chars ← assemble ending found
  set (← ending)
  return String.ofList chars

def skipText : Reader Unit := do
  set (← (pieces (← get)).2)

/-! ### Values -/

/-- Refuses a value for its type, unless it is not even JSON. -/
def refuse {α : Type} : Reader α := do
  match ← front with
  | 'n' => word "null".toList
  | 't' => word "true".toList
  | 'f' => word "false".toList
  | '"' => advance; discard textBody
  | '-' => advance; discard unsigned
  | '[' | '{' => pure ()
  | c => if c.isDigit then discard unsigned else throw .malformed
  throw .mistyped

/-- An integer of 64 bits without a sign. -/
def natural : Reader Nat := do
  if (← front).isDigit then
    match ← unsigned with
    | some n => return n
    | none => throw .mistyped
  else refuse

def text : Reader String := do
  if (← front) == '"' then advance; textBody else refuse

/-- What a value stands in. -/
inductive Frame
  | array
  | object
  deriving Repr, DecidableEq

def Frame.close : Frame → Char
  | array => ']'
  | object => '}'

def skipName : Reader Unit := do
  expect '"'
  skipText
  expect ':'

/-- Skips the start of a value inside `frames`: a whole scalar, an empty list or object, or an
opening bracket. Gives the frames that are open then and whether a value ended. -/
def skipStart (frames : List Frame) : Reader (List Frame × Bool) := do
  match ← front with
  | 'n' => word "null".toList; return (frames, true)
  | 't' => word "true".toList; return (frames, true)
  | 'f' => word "false".toList; return (frames, true)
  | '-' => advance; skipUnsigned; return (frames, true)
  | '"' => advance; skipText; return (frames, true)
  | '[' =>
    advance
    if (← front) == ']' then advance; return (frames, true)
    return (.array :: frames, false)
  | '{' =>
    advance
    if (← front) == '}' then advance; return (frames, true)
    skipName
    return (.object :: frames, false)
  | c =>
    if c.isDigit then skipUnsigned; return (frames, true)
    throw .malformed

/-- Skips what follows a value up to the next one. Gives the frames that are open and whether a
value ended. -/
def skipEnd (frame : Frame) (frames : List Frame) : Reader (List Frame × Bool) := do
  let c ← front
  if c == ',' then
    advance
    if frame = .object then skipName
    return (frame :: frames, false)
  if c == frame.close then advance; return (frames, true)
  throw .malformed

/-- Skips up to the end of the outermost frame; each step takes at least one character. -/
def skipWithin : Nat → List Frame × Bool → Reader Unit
  | 0, _ => throw .unfinished
  | _, ([], true) => return ()
  | fuel + 1, (frame :: frames, true) => do skipWithin fuel (← skipEnd frame frames)
  | fuel + 1, (frames, false) => do skipWithin fuel (← skipStart frames)

def skip : Reader Unit := do
  skipWithin ((← get).length + 2) ([], false)

/-! ### Texts written -/

def hexDigit (n : Nat) : Char := Nat.digitChar n

def escapeChar (c : Char) : List Char :=
  match c with
  | '"' => ['\\', '"']
  | '\\' => ['\\', '\\']
  | '\x08' => ['\\', 'b']
  | '\x0c' => ['\\', 'f']
  | '\n' => ['\\', 'n']
  | '\r' => ['\\', 'r']
  | '\t' => ['\\', 't']
  | c =>
    if c.toNat < 32 then ['\\', 'u', '0', '0', hexDigit (c.toNat / 16), hexDigit (c.toNat % 16)]
    else [c]

def quote (text : String) : String :=
  String.ofList ('"' :: text.toList.flatMap escapeChar ++ ['"'])

end HttpContext.Json
