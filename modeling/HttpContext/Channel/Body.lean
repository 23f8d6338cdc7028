import HttpContext.Channel.Source
import HttpContext.Error
/-!
The body of a request: a source with a declared length and a limit on what it may yield.
A limit of zero is no limit. Otherwise one byte beyond the limit is read before it counts as
passed, so that a body of exactly that size still ends well. Limits are words of 64 bits: at the
greatest one the byte beyond it cannot be counted, and every read is refused.
-/
namespace HttpContext

structure Body where
  source : Source
  length : Option Nat
  limit : UInt64 := 0
  consumed : Nat := 0
  deriving Repr, DecidableEq

namespace Body

def ofBytes (bytes : Bytes) : Body :=
  { source := .ofBytes bytes, length := some bytes.length }

def limited (b : Body) (limit : UInt64) : Body := { b with limit }

def limitFault (b : Body) : Fault := .tooLarge .other b.limit.toNat

/-- How many bytes may be read off the source: one more than the limit, but the sum of the greatest
limit and one is zero. (Where sums are checked, the read ends in a panic there.) -/
def allowance (b : Body) : Nat := (b.limit + 1).toNat

theorem limit_eq_zero {b : Body} : b.limit = 0 ↔ b.limit.toNat = 0 := by
  rw [← UInt64.toNat_inj]
  rfl

theorem allowance_of_lt {b : Body} (h : b.limit.toNat + 1 < UInt64.size) :
    b.allowance = b.limit.toNat + 1 := by
  rw [allowance, UInt64.toNat_add]
  exact Nat.mod_eq_of_lt h

/-- At the greatest limit nothing may be read. -/
theorem allowance_of_le {b : Body} (h : UInt64.size ≤ b.limit.toNat + 1) : b.allowance = 0 := by
  have hlt := b.limit.toNat_lt_size
  have hgreatest : b.limit.toNat + (1 : UInt64).toNat = UInt64.size := Nat.le_antisymm hlt h
  rw [allowance, UInt64.toNat_add, hgreatest]
  exact Nat.mod_self _

/-- Takes note of what one read of the source gave. -/
def advance (b : Body) : Except Fault Bytes × Source → Except Fault Bytes × Body
  | (.ok bytes, source) =>
    let b := { b with source, consumed := b.consumed + bytes.length }
    if 0 < b.limit.toNat && b.limit.toNat < b.consumed then (.error b.limitFault, b)
    else (.ok bytes, b)
  | (.error fault, source) => (.error fault, { b with source })

/-- One read into a buffer with this much room. -/
def read (room : Nat) (b : Body) : Except Fault Bytes × Body :=
  if b.limit = 0 then b.advance (b.source.read room)
  -- the one byte beyond the limit has been read already
  else if b.allowance ≤ b.consumed then (.error b.limitFault, b)
  else b.advance (b.source.read (min room (b.allowance - b.consumed)))

theorem weight_advance {n : Nat} {b rest : Body} {bytes : Bytes}
    (h : b.advance (b.source.read n) = (.ok bytes, rest)) :
    rest.source.weight + bytes.length ≤ b.source.weight := by
  rcases hr : b.source.read n with ⟨_ | got, source⟩
  · rw [hr] at h
    cases h
  · rw [hr] at h
    simp only [advance] at h
    split at h
    · cases h
    · cases h
      exact Source.weight_read hr

theorem weight_advance_error {n : Nat} {b rest : Body} {fault : Fault}
    (h : b.advance (b.source.read n) = (.error fault, rest)) (hi : fault.isInterrupted = true) :
    rest.source.weight < b.source.weight := by
  rcases hr : b.source.read n with ⟨_ | got, source⟩
  · rw [hr] at h
    cases h
    exact Source.weight_read_error hr
  · rw [hr] at h
    simp only [advance] at h
    split at h
    · cases h
      cases hi
    · cases h

/-- A read uses up what it delivers. -/
theorem weight_read {room : Nat} {b rest : Body} {bytes : Bytes}
    (h : b.read room = (.ok bytes, rest)) :
    rest.source.weight + bytes.length ≤ b.source.weight := by
  unfold read at h
  split at h
  · exact weight_advance h
  · split at h
    · cases h
    · exact weight_advance h

/-- An interruption is used up by the read that meets it. -/
theorem weight_read_error {room : Nat} {b rest : Body} {fault : Fault}
    (h : b.read room = (.error fault, rest)) (hi : fault.isInterrupted = true) :
    rest.source.weight < b.source.weight := by
  unfold read at h
  split at h
  · exact weight_advance_error h hi
  · split at h
    · cases h
      cases hi
    · exact weight_advance_error h hi

/-- Reads on to the end with a buffer of `room + 1` bytes. -/
def readAll (room : Nat) (b : Body) : Except Fault Bytes :=
  match _h : b.read (room + 1) with
  | (.ok [], _) => .ok []
  | (.ok (x :: xs), rest) => (x :: xs ++ ·) <$> readAll room rest
  | (.error fault, rest) => if _hi : fault.isInterrupted then readAll room rest else .error fault
termination_by b.source.weight
decreasing_by
  · have := weight_read _h
    simp only [List.length_cons] at this
    omega
  · exact weight_read_error _h _hi

/-- The size of the buffer that whole bodies are read with; it shows in no result. -/
def bufferSize : Nat := 8192

def bytes (b : Body) : Except Error Bytes :=
  (b.readAll (bufferSize - 1)).mapError Error.ofBodyFault

def text (b : Body) : Except Error String := do
  let bytes ← b.bytes
  (Utf8.decode bytes).mapError fun place => .request (.bodyNotUtf8 place)

end Body

end HttpContext
