import HttpContext.Text.Basic
/-!
Where a request came from: an internet address and a number at it. An address can be written in
several ways but has one text.
-/
namespace HttpContext

inductive Address
  | v4 (a b c d : UInt8)
  /-- eight groups of 16 bits -/
  | v6 (groups : Vector UInt16 8)
  deriving Repr, DecidableEq

namespace Address

def loopback : Address := v4 127 0 0 1

def dotted (a b c d : UInt8) : String :=
  ".".intercalate ([a, b, c, d].map fun octet => toString octet.toNat)

def colons (groups : List UInt16) : String :=
  ":".intercalate (groups.map fun group => String.ofList (Nat.toDigits 16 group.toNat))

/-- The place and the length of the first of the longest runs of zeros. -/
def zeroRun (groups : List UInt16) : Nat × Nat :=
  (List.range groups.length).foldl (fun best i =>
    let length := ((groups.drop i).takeWhile (· == 0)).length
    if best.2 < length then (i, length) else best) (0, 0)

/-- An address that stands for one of the older kind shows it; otherwise two colons stand for the
longest run of two or more zero groups. -/
def text : Address → String
  | v4 a b c d => dotted a b c d
  | v6 groups =>
    match groups.toList with
    | [0, 0, 0, 0, 0, 0xFFFF, high, low] =>
      "::ffff:" ++ dotted (high / 256).toUInt8 high.toUInt8 (low / 256).toUInt8 low.toUInt8
    | groups =>
      let (start, length) := zeroRun groups
      if length < 2 then colons groups
      else colons (groups.take start) ++ "::" ++ colons (groups.drop (start + length))

abbrev Reader := StateT (List Char) Option

def expect (mark : Char) : Reader Unit := do
  match ← get with
  | c :: rest => if c == mark then set rest else failure
  | [] => failure

/-- A number below `bound`, in decimal or hexadecimal digits. -/
def number (radix bound : Nat) : Reader (List Char × Nat) := do
  let isDigit (c : Char) := match Text.hexDigit? c with
    | some digit => digit < radix
    | none => false
  let digits ← modifyGet fun cs => (cs.takeWhile isDigit, cs.dropWhile isDigit)
  let n := digits.foldl (fun n c => n * radix + (Text.hexDigit? c).getD 0) 0
  if digits.isEmpty || bound ≤ n then failure else return (digits, n)

/-- A decimal octet, without zeros in front. -/
def octet : Reader UInt8 := do
  match ← number 10 256 with
  | ('0' :: _ :: _, _) => failure
  | (_, n) => return n.toUInt8

def readV4 : Reader (UInt8 × UInt8 × UInt8 × UInt8) := do
  let a ← octet
  expect '.'
  let b ← octet
  expect '.'
  let c ← octet
  expect '.'
  return (a, b, c, ← octet)

/-- A group of at most four hexadecimal digits. -/
def group : Reader UInt16 := do
  let (digits, n) ← number 16 65536
  if 4 < digits.length then failure else return n.toUInt16

/-- Up to `room` groups; the last two may be written in the older way, which ends them. -/
def readGroups : Nat → Bool → Reader (List UInt16 × Bool)
  | 0, _ => return ([], false)
  | room + 1, isFirst => do
    let separated {α : Type} (read : Reader α) : Reader (Option α) := fun cs =>
      match (if isFirst then read else expect ':' *> read).run cs with
      | some (value, rest) => some (some value, rest)
      | none => some (none, cs)
    if 0 < room then
      if let some (a, b, c, d) ← separated readV4 then
        return ([a.toUInt16 * 256 + b.toUInt16, c.toUInt16 * 256 + d.toUInt16], true)
    match ← separated group with
    | none => return ([], false)
    | some first =>
      let (more, isMixed) ← readGroups room false
      return (first :: more, isMixed)

def ofGroups? (groups : List UInt16) : Option Address :=
  if h : groups.length = 8 then some (v6 ⟨groups.toArray, by simp [h]⟩) else none

/-- Eight groups, or fewer around two colons. -/
def readV6 : Reader Address := do
  let (front, isMixed) ← readGroups 8 true
  if front.length == 8 then ofGroups? front
  else if isMixed then failure
  else
    expect ':'
    expect ':'
    let (back, _) ← readGroups (7 - front.length) true
    ofGroups? (front ++ List.replicate (8 - front.length - back.length) 0 ++ back)

end Address

structure Peer where
  address : Address
  portNumber : UInt16
  /-- the network that an address of the newer kind belongs to; zero when it does not matter -/
  scope : UInt32 := 0
  deriving Repr, DecidableEq

namespace Peer

/-- Address and number; brackets keep the colons of an address apart. -/
def text (p : Peer) : String :=
  let number := ":" ++ toString p.portNumber.toNat
  match p.address with
  | .v4 .. => p.address.text ++ number
  | .v6 _ =>
    let scope := if p.scope = 0 then "" else "%" ++ toString p.scope.toNat
    "[" ++ p.address.text ++ scope ++ "]" ++ number

def readPortNumber : Address.Reader UInt16 := do
  Address.expect ':'
  return (← Address.number 10 65536).2.toUInt16

def readScope : Address.Reader UInt32 := do
  Address.expect '%'
  return (← Address.number 10 UInt32.size).2.toUInt32

def readV4 : Address.Reader Peer := do
  let (a, b, c, d) ← Address.readV4
  return { address := .v4 a b c d, portNumber := ← readPortNumber }

def readV6 : Address.Reader Peer := do
  Address.expect '['
  let address ← Address.readV6
  let scope ← readScope <|> pure 0
  Address.expect ']'
  return { address, portNumber := ← readPortNumber, scope }

/-- The peer that a text names. -/
def ofText? (text : String) : Option Peer :=
  match (readV4 <|> readV6).run text.toList with
  | some (peer, []) => some peer
  | _ => none

end Peer

end HttpContext
