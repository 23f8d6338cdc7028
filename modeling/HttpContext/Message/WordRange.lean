import HttpContext.Message.ByteRange
/-!
Windows in 64-bit words. Every sum and every difference is checked, and `none` says that one of them
left the words. `Proofs.RangeBounds` shows that none ever does, and that the window is that of
`ByteRange.resolve`.
-/
namespace HttpContext

namespace Word

/-- The sum, when it fits in a word. -/
def add? (a b : UInt64) : Option UInt64 :=
  if a.toNat + b.toNat < UInt64.size then some (a + b) else none

/-- The difference, when it is not below zero. -/
def sub? (a b : UInt64) : Option UInt64 :=
  if b ≤ a then some (a - b) else none

/-- The difference, or zero in place of one below it. -/
def monus (a b : UInt64) : UInt64 :=
  if b ≤ a then a - b else 0

variable {a b c : UInt64}

theorem add?_eq_some_iff : add? a b = some c ↔ a.toNat + b.toNat = c.toNat := by
  unfold add?
  split
  · rename_i h
    rw [Option.some.injEq, ← UInt64.toNat_inj, UInt64.toNat_add, Nat.mod_eq_of_lt h]
  · rename_i h
    have hc := c.toNat_lt_size
    simp only [reduceCtorEq, false_iff]
    omega

theorem exists_add? (h : a.toNat + b.toNat < UInt64.size) :
    ∃ c, add? a b = some c ∧ c.toNat = a.toNat + b.toNat := by
  refine ⟨a + b, if_pos h, ?_⟩
  rw [UInt64.toNat_add, Nat.mod_eq_of_lt h]

theorem exists_sub? (h : b.toNat ≤ a.toNat) :
    ∃ c, sub? a b = some c ∧ c.toNat = a.toNat - b.toNat := by
  have hle := UInt64.le_iff_toNat_le.2 h
  exact ⟨a - b, if_pos hle, UInt64.toNat_sub_of_le a b hle⟩

theorem toNat_monus (a b : UInt64) : (monus a b).toNat = a.toNat - b.toNat := by
  unfold monus
  split
  · rename_i h
    exact UInt64.toNat_sub_of_le a b h
  · rename_i h
    rw [UInt64.le_iff_toNat_le] at h
    rw [UInt64.toNat_zero]
    omega

end Word

/-- The first and the last bound of a range in words. A number of bytes at the end is a last bound
without a first one. -/
def ByteRange.Bounds.words : ByteRange.Bounds → Option UInt64 × Option UInt64
  | span first last => (some (.ofNat first), last.map .ofNat)
  | suffix count => (none, some (.ofNat count))

/-- The bytes from `start` up to but not including `stop`, out of `length`. -/
structure WordRange where
  start : UInt64
  stop : UInt64
  length : UInt64
  isPartial : Bool
  deriving Repr, DecidableEq

namespace WordRange

def full (length : UInt64) : WordRange :=
  ⟨0, length, length, false⟩

/-- The last position of a span, which may be stated beyond the greatest one or not at all. -/
def lastWithin (greatest : UInt64) : Option UInt64 → UInt64
  | some last => if last ≤ greatest then last else greatest
  | none => greatest

/-- The window that bounds select of a body of positive length. -/
def select? (length : UInt64) (bounds : Option UInt64 × Option UInt64) : Option WordRange := do
  let greatest ← Word.sub? length 1
  match bounds with
  | (some first, last) =>
    if greatest < first then return full length
    let last := lastWithin greatest last
    if last < first then return full length
    return ⟨first, ← Word.add? last 1, length, true⟩
  | (none, some count) =>
    if count = 0 then return full length
    return ⟨Word.monus length count, ← Word.add? greatest 1, length, true⟩
  | (none, none) => return full length

def resolve? (header : Option String) (length : UInt64) : Option WordRange :=
  match header.bind fun value => ByteRange.firstBounds? value.toList with
  | none => some (full length)
  | some bounds => if length = 0 then some (full length) else select? length bounds.words

/-- How many bytes the window has. -/
def window? (r : WordRange) : Option UInt64 := Word.sub? r.stop r.start

/-- The value of a Content-Range header. -/
def contentRange? (r : WordRange) : Option String := do
  let last ← Word.sub? r.stop 1
  return "bytes " ++ toString r.start ++ "-" ++ toString last ++ "/" ++ toString r.length

/-- The window with its numbers out of their words. -/
def toByteRange (r : WordRange) : ByteRange :=
  ⟨r.start.toNat, r.stop.toNat, r.length.toNat, r.isPartial⟩

end WordRange

end HttpContext
