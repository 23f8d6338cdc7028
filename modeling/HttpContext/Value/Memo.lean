/-!
A value that is computed when it is first asked for and handed back unchanged afterwards.
-/
namespace HttpContext

structure Memo (α : Type) where
  value : Option α := none
  deriving Repr, DecidableEq

namespace Memo

variable {α : Type} {ε : Type} {σ : Type}

def get (m : Memo α) : Option α := m.value

/-- Computes the value unless it is there. -/
def getOrInit (m : Memo α) (init : σ → α × σ) (s : σ) : α × Memo α × σ :=
  match m.value with
  | some value => (value, m, s)
  | none =>
    let (value, s) := init s
    (value, ⟨some value⟩, s)

/-- Computes the value unless it is there; a failure leaves nothing behind. -/
def getOrTry (m : Memo α) (init : σ → Except ε α × σ) (s : σ) : Except ε α × Memo α × σ :=
  match m.value with
  | some value => (.ok value, m, s)
  | none =>
    match init s with
    | (.ok value, s) => (.ok value, ⟨some value⟩, s)
    | (.error cause, s) => (.error cause, m, s)

end Memo

end HttpContext
