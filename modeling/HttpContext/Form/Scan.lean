import HttpContext.Form.Multipart
/-!
A multipart body read by positions: every piece is cut out between two of them, and `none` says that
a cut was out of range. Each part is stored as soon as its end is found, before anything is known of
the parts behind it. `Proofs.Positions` shows that this is the reading of `Multipart.read`.
-/
namespace HttpContext

namespace Multipart

/-- What stands behind a part and its line break. -/
def closing (boundary : String) : Bytes := Bytes.crlf ++ delimiter boundary

/-- The header lines that begin at a position, and where the content begins. -/
def headAt (body : Bytes) (pos : Nat) : Option (Except FormError (String × Nat)) := do
  let rest ← Bytes.suffix? body pos
  match Bytes.find? Bytes.blankLine rest with
  | none => return .error .headersUnterminated
  | some size =>
    let head ← Bytes.slice? body pos (pos + size)
    match Utf8.decode head with
    | .error _ => return .error .headersNotUtf8
    | .ok head => return .ok (head, pos + size + Bytes.blankLine.length)

/-- The content that begins at a position, and where the delimiter behind it ends. -/
def contentAt (boundary : String) (body : Bytes) (pos : Nat) :
    Option (Except FormError (Bytes × Nat)) := do
  let rest ← Bytes.suffix? body pos
  match Bytes.find? (closing boundary) rest with
  | none => return .error .closingMissing
  | some size =>
    let content ← Bytes.slice? body pos (pos + size)
    return .ok (content, pos + size + (closing boundary).length)

/-- The part behind a delimiter, and where the next one ends; no part behind the last delimiter. -/
def partAt (boundary : String) (body : Bytes) (pos : Nat) :
    Option (Except FormError (Option (Part × Nat))) := do
  let rest ← Bytes.suffix? body pos
  if dashes.isPrefixOf rest then return .ok none
  if !Bytes.crlf.isPrefixOf rest then return .error .boundaryLine
  match ← headAt body (pos + Bytes.crlf.length) with
  | .error cause => return .error cause
  | .ok (head, pos) =>
    match ← contentAt boundary body pos with
    | .error cause => return .error cause
    | .ok (content, pos) => return .ok (some (⟨head, content⟩, pos))

theorem bounds_of_headAt {body : Bytes} {pos next : Nat} {head : String}
    (h : headAt body pos = some (.ok (head, next))) : pos ≤ body.length ∧ pos ≤ next := by
  obtain ⟨rest, hrest, h⟩ := Option.bind_eq_some_iff.1 h
  refine ⟨Bytes.le_of_suffix? hrest, ?_⟩
  split at h
  · cases h
  · obtain ⟨_, _, h⟩ := Option.bind_eq_some_iff.1 h
    split at h
    · cases h
    · cases h
      omega

theorem le_of_contentAt {boundary : String} {body content : Bytes} {pos next : Nat}
    (h : contentAt boundary body pos = some (.ok (content, next))) : pos ≤ next := by
  obtain ⟨rest, _, h⟩ := Option.bind_eq_some_iff.1 h
  split at h
  · cases h
  · obtain ⟨_, _, h⟩ := Option.bind_eq_some_iff.1 h
    cases h
    omega

/-- A part takes the reading on, within the body. -/
theorem bounds_of_partAt {boundary : String} {body : Bytes} {pos next : Nat} {part : Part}
    (h : partAt boundary body pos = some (.ok (some (part, next)))) :
    pos < body.length ∧ pos < next := by
  obtain ⟨rest, _, h⟩ := Option.bind_eq_some_iff.1 h
  split at h
  · cases h
  · split at h
    · cases h
    · obtain ⟨found, hhead, h⟩ := Option.bind_eq_some_iff.1 h
      split at h
      · cases h
      · obtain ⟨found, hcontent, h⟩ := Option.bind_eq_some_iff.1 h
        split at h
        · cases h
        · cases h
          obtain ⟨hin, hle⟩ := bounds_of_headAt hhead
          have hnext := le_of_contentAt hcontent
          simp only [Bytes.crlf, List.length_cons, List.length_nil] at hin hle
          omega

/-- Reads the parts from a position on, with the entries that have been made already. What goes
wrong drops them all. -/
def scanFrom (boundary : String) (threshold : Nat) (body : Bytes) (pos : Nat)
    (entries : List FormEntry) (spool : Spool) : Option (Except Error (List FormEntry) × Spool) :=
  match _h : partAt boundary body pos with
  | none => none
  | some (.error cause) => some (.error (.form cause), FormEntry.release entries spool)
  | some (.ok none) => some (.ok entries, spool)
  | some (.ok (some (part, next))) =>
    match part.entry threshold spool with
    | (.error cause, spool) => some (.error cause, FormEntry.release entries spool)
    | (.ok entry, spool) => scanFrom boundary threshold body next (entries ++ [entry]) spool
termination_by body.length - pos
decreasing_by
  have hbounds := bounds_of_partAt _h
  omega

def scan (boundary : String) (threshold : Nat) (body : Bytes) (spool : Spool) :
    Option (Except Error (List FormEntry) × Spool) :=
  match Bytes.find? (delimiter boundary) body with
  | none => some (.error (.form .openingMissing), spool)
  | some before =>
    scanFrom boundary threshold body (before + (delimiter boundary).length) [] spool

end Multipart

end HttpContext
