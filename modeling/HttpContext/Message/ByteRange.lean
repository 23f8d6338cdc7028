import HttpContext.Text.Basic
/-!
The window of a body that a Range header asks for. Only the first range of a header counts, and
a header that is absent, malformed or cannot be satisfied asks for the whole body.
-/
namespace HttpContext

/-- The bytes from `start` up to but not including `stop`, out of `length`. -/
structure ByteRange where
  start : Nat
  stop : Nat
  length : Nat
  isPartial : Bool
  deriving Repr, DecidableEq

namespace ByteRange

inductive Bounds
  | span (first : Nat) (last : Option Nat)
  | suffix (count : Nat)
  deriving Repr, DecidableEq

/-- A bound that may be left out; `none` when it is not a number. -/
def bound? (cs : List Char) : Option (Option Nat) :=
  match Text.trim cs with
  | [] => some none
  | digits => (Text.count? digits).map some

/-- The first range of a header. -/
def firstBounds? (header : List Char) : Option Bounds := do
  let ranges ← Text.after? "bytes=".toList (Text.trim header)
  let (first, last) ← Text.cut? '-' (Text.trim (ranges.takeWhile (· != ',')))
  match ← bound? first, ← bound? last with
  | some first, last => some (.span first last)
  | none, some count => some (.suffix count)
  | none, none => none

def full (length : Nat) : ByteRange :=
  ⟨0, length, length, false⟩

/-- The window of a body of positive length, when it can be satisfied. -/
def Bounds.window (length : Nat) : Bounds → ByteRange
  | span first last =>
    -- a range may end beyond the body but not begin there
    let last := (last.map (min · (length - 1))).getD (length - 1)
    if length ≤ first || last < first then full length else ⟨first, last + 1, length, true⟩
  | suffix count =>
    if count = 0 then full length else ⟨length - count, length, length, true⟩

def resolve (header : Option String) (length : Nat) : ByteRange :=
  match header.bind fun value => firstBounds? value.toList with
  | none => full length
  | some bounds => if length = 0 then full length else bounds.window length

/-- Nothing is asked for of an empty body. -/
theorem resolve_zero (header : Option String) : resolve header 0 = full 0 := by
  unfold resolve
  split <;> rfl

/-- The window is not empty, lies in the body, and is all of it unless it is partial. -/
structure Fits (r : ByteRange) (length : Nat) : Prop where
  start_lt : r.start < r.stop
  stop_le : r.stop ≤ length
  whole : r.isPartial = false → r = full length

theorem fits_full {length : Nat} (h : 0 < length) : Fits (full length) length :=
  ⟨h, Nat.le_refl length, fun _ => rfl⟩

theorem fits_window {length : Nat} (h : 0 < length) (bounds : Bounds) :
    Fits (bounds.window length) length := by
  cases bounds with
  | span first last =>
    have hlast : (last.map (min · (length - 1))).getD (length - 1) ≤ length - 1 := by
      cases last with
      | none => exact Nat.le_refl _
      | some last => exact Nat.min_le_right last (length - 1)
    simp only [Bounds.window]
    split
    · exact fits_full h
    · rename_i hn
      simp only [Bool.or_eq_true, decide_eq_true_eq, not_or, Nat.not_le, Nat.not_lt] at hn
      constructor
      · show first < _ + 1
        omega
      · show _ + 1 ≤ length
        omega
      · intro hp
        cases hp
  | suffix count =>
    simp only [Bounds.window]
    split
    · exact fits_full h
    · constructor
      · show length - count < length
        omega
      · exact Nat.le_refl length
      · intro hp
        cases hp

/-- Whatever a Range header says, its window fits the body. -/
theorem fits_resolve {length : Nat} (h : 0 < length) (header : Option String) :
    Fits (resolve header length) length := by
  unfold resolve
  split
  · exact fits_full h
  · split
    · exact fits_full h
    · exact fits_window h _

def window (r : ByteRange) : Nat := r.stop - r.start

/-- The value of a Content-Range header, for a window that is not empty. -/
def contentRange (r : ByteRange) : String :=
  "bytes " ++ toString r.start ++ "-" ++ toString (r.stop - 1) ++ "/" ++ toString r.length

end ByteRange

end HttpContext
