/-!
Runs of bytes, and cutting them at a mark. Main statements: `Bytes.cutAt?_eq_some`, a cut loses
nothing but the mark; `Bytes.find?_eq_cutAt?`, it is made at the first position of the mark.
-/
namespace HttpContext

abbrev Bytes := List UInt8

namespace Bytes

def crlf : Bytes := [13, 10]

/-- The blank line that ends a block of header lines. -/
def blankLine : Bytes := [13, 10, 13, 10]

def hexDigit? (b : UInt8) : Option UInt8 :=
  if 48 ≤ b && b ≤ 57 then some (b - 48)
  else if 65 ≤ b && b ≤ 70 then some (b - 55)
  else if 97 ≤ b && b ≤ 102 then some (b - 87)
  else none

/-- The bytes before and the bytes after the first occurrence of `mark`. -/
def cutAt? (mark : Bytes) : Bytes → Option (Bytes × Bytes)
  | [] => if mark.isEmpty then some ([], []) else none
  | b :: rest =>
    if mark.isPrefixOf (b :: rest) then some ([], (b :: rest).drop mark.length)
    else (cutAt? mark rest).map fun (before, after) => (b :: before, after)

/-- The position of the first window that is equal to `mark`, which is not empty. -/
def find? (mark bytes : Bytes) : Option Nat :=
  if mark.isEmpty then none
  else (List.range (bytes.length + 1 - mark.length)).find? fun i =>
    (bytes.drop i).take mark.length == mark

/-- The bytes from a position on; `none` beyond the end. -/
def suffix? (bytes : Bytes) (first : Nat) : Option Bytes :=
  if first ≤ bytes.length then some (bytes.drop first) else none

/-- The bytes from one position up to another; `none` unless they lie within. -/
def slice? (bytes : Bytes) (first last : Nat) : Option Bytes :=
  if first ≤ last ∧ last ≤ bytes.length then some ((bytes.take last).drop first) else none

theorem cutAt?_eq_some {mark bytes before after : Bytes}
    (h : cutAt? mark bytes = some (before, after)) : bytes = before ++ mark ++ after := by
  induction bytes generalizing before with
  | nil =>
    simp only [cutAt?] at h
    split at h
    · rename_i hm
      cases h
      simpa using hm.symm
    · cases h
  | cons b rest ih =>
    simp only [cutAt?] at h
    split at h
    · rename_i hm
      cases h
      obtain ⟨tail, ht⟩ := List.isPrefixOf_iff_prefix.1 hm
      rw [← ht]
      simp
    · obtain ⟨⟨before', after'⟩, hr, he⟩ := Option.map_eq_some_iff.1 h
      cases he
      simp [ih hr]

theorem length_of_cutAt? {mark bytes before after : Bytes}
    (h : cutAt? mark bytes = some (before, after)) :
    bytes.length = before.length + mark.length + after.length := by
  rw [cutAt?_eq_some h]
  simp [Nat.add_assoc]

/-- A mark that has been found stays the first one, whatever comes after it. -/
theorem cutAt?_append {mark bytes before after : Bytes}
    (h : cutAt? mark bytes = some (before, after)) (more : Bytes) :
    cutAt? mark (bytes ++ more) = some (before, after ++ more) := by
  induction bytes generalizing before with
  | nil =>
    simp only [cutAt?] at h
    split at h
    · rename_i hm
      cases h
      have hmark := List.isEmpty_iff.1 hm
      cases more <;> simp [cutAt?, hmark]
    · cases h
  | cons b rest ih =>
    simp only [cutAt?] at h
    split at h
    · rename_i hm
      cases h
      obtain ⟨tail, ht⟩ := List.isPrefixOf_iff_prefix.1 hm
      have hlong : mark.isPrefixOf (b :: (rest ++ more)) = true := by
        rw [List.isPrefixOf_iff_prefix, ← List.cons_append, ← ht, List.append_assoc]
        exact List.prefix_append mark _
      simp only [List.cons_append, cutAt?, hlong, ↓reduceIte]
      rw [← List.cons_append, ← ht, List.append_assoc, List.drop_left, List.drop_left]
    · rename_i hm
      obtain ⟨⟨before', after'⟩, hr, he⟩ := Option.map_eq_some_iff.1 h
      cases he
      -- the mark lies in the rest, so it is too short to begin here and end in what follows
      have hlong : ¬ mark.isPrefixOf (b :: (rest ++ more)) = true := by
        intro hp
        have hlength := length_of_cutAt? hr
        have hprefix : mark <+: b :: rest ++ more := List.isPrefixOf_iff_prefix.1 hp
        have hfront : mark <+: b :: rest := by
          refine List.prefix_of_prefix_length_le hprefix (List.prefix_append _ more) ?_
          simp only [List.length_cons]
          omega
        exact hm (List.isPrefixOf_iff_prefix.2 hfront)
      simp only [List.cons_append, cutAt?, hlong, ih hr, Option.map_some]
      rfl

/-- A window is equal to the mark where the mark is a prefix of what follows. -/
theorem take_beq_eq_isPrefixOf (mark bytes : Bytes) :
    (bytes.take mark.length == mark) = mark.isPrefixOf bytes := by
  rw [Bool.eq_iff_iff, beq_iff_eq, List.isPrefixOf_iff_prefix, List.prefix_iff_eq_take, eq_comm]

/-- The first window lies where the bytes are cut. -/
theorem find?_eq_cutAt? {mark : Bytes} (hmark : mark ≠ []) (bytes : Bytes) :
    find? mark bytes = (cutAt? mark bytes).map fun (before, _) => before.length := by
  have hempty : mark.isEmpty = false := List.isEmpty_eq_false_iff.2 hmark
  have hpos : 0 < mark.length := List.length_pos_iff.2 hmark
  simp only [find?, hempty, Bool.false_eq_true, ↓reduceIte]
  induction bytes with
  | nil =>
    have hnone : ([] : Bytes).length + 1 - mark.length = 0 := by
      rw [List.length_nil]
      omega
    rw [hnone, cutAt?, hempty]
    rfl
  | cons b rest ih =>
    rw [List.length_cons, cutAt?]
    by_cases hshort : rest.length + 1 < mark.length
    · -- there is no window, and so no mark
      have hnone : rest.length + 1 + 1 - mark.length = 0 := by omega
      have hcut : cutAt? mark (b :: rest) = none := by
        cases hc : cutAt? mark (b :: rest) with
        | none => rfl
        | some cut =>
          have hlength := length_of_cutAt? hc
          rw [List.length_cons] at hlength
          omega
      rw [cutAt?] at hcut
      rw [hnone, hcut]
      rfl
    · have hrange : rest.length + 1 + 1 - mark.length = rest.length + 1 - mark.length + 1 := by
        omega
      rw [hrange, List.range_succ_eq_map, List.find?_cons, List.drop_zero, take_beq_eq_isPrefixOf]
      by_cases hbegins : mark.isPrefixOf (b :: rest) = true
      · rw [hbegins, if_pos rfl]
        rfl
      · -- the windows behind the first byte are those of the rest
        rw [Bool.eq_false_iff.2 hbegins, if_neg Bool.false_ne_true, List.find?_map, Option.map_map]
        show Option.map Nat.succ ((List.range (rest.length + 1 - mark.length)).find? fun i =>
          (rest.drop i).take mark.length == mark) = _
        rw [ih, Option.map_map]
        rfl

theorem suffix?_of_le {bytes : Bytes} {first : Nat} (h : first ≤ bytes.length) :
    suffix? bytes first = some (bytes.drop first) :=
  if_pos h

theorem le_of_suffix? {bytes rest : Bytes} {first : Nat} (h : suffix? bytes first = some rest) :
    first ≤ bytes.length := by
  unfold suffix? at h
  split at h
  · assumption
  · cases h

/-- The bytes in front of a mark are a slice, when the mark has been looked for in a suffix. -/
theorem slice?_of_cutAt? {mark bytes before after : Bytes} {first : Nat}
    (hfirst : first ≤ bytes.length) (h : cutAt? mark (bytes.drop first) = some (before, after)) :
    slice? bytes first (first + before.length) = some before
      ∧ first + before.length + mark.length ≤ bytes.length
      ∧ bytes.drop (first + before.length + mark.length) = after := by
  have hlength := length_of_cutAt? h
  have hdrop := cutAt?_eq_some h
  rw [List.length_drop] at hlength
  have hle : first + before.length + mark.length ≤ bytes.length := by omega
  refine ⟨?_, hle, ?_⟩
  · rw [slice?, if_pos ⟨Nat.le_add_right _ _, by omega⟩, List.drop_take, Nat.add_sub_cancel_left,
      hdrop, List.append_assoc, List.take_left]
  · rw [Nat.add_assoc, ← List.drop_drop, hdrop, ← List.length_append, List.drop_left]

end Bytes

end HttpContext
