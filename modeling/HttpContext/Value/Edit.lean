import HttpContext.Value.Multimap
/-!
Edits of a map, one after the other. A removal hands out the values that it takes away.
-/
namespace HttpContext

namespace Multimap

/-- The values of the first entry of the name, and the map without that entry. -/
def take (m : Multimap) (name : String) : List String × Multimap :=
  match m.entries.findIdx? fun entry => m.rule.same entry.1 name with
  | some place =>
    (m.entries[place]?.elim [] Prod.snd, { m with entries := m.entries.eraseIdx place })
  | none => ([], m)

inductive Edit
  | put (name value : String)
  | remove (name : String)
  deriving Repr, DecidableEq

def edit (m : Multimap) : Edit → Multimap
  | .put name value => m.put name value
  | .remove name => (m.take name).2

def run (m : Multimap) (edits : List Edit) : Multimap :=
  edits.foldl edit m

theorem run_concat (m : Multimap) (edits : List Edit) (last : Edit) :
    m.run (edits ++ [last]) = (m.run edits).edit last := by
  simp only [run, List.foldl_append, List.foldl_cons, List.foldl_nil]

theorem removeIn_eq_eraseP (rule : KeyRule) (name : String)
    (entries : List (String × List String)) :
    removeIn rule name entries = entries.eraseP fun entry => rule.same entry.1 name := by
  induction entries with
  | nil => rfl
  | cons entry rest ih =>
    rw [removeIn, List.eraseP_cons, ih]
    cases rule.same entry.1 name <;> rfl

/-- Looking a name up and leaving it out are done in one search. -/
theorem take_eq (m : Multimap) (name : String) : m.take name = (m.values name, m.remove name) := by
  rw [take, values, remove, removeIn_eq_eraseP, List.eraseP_eq_eraseIdx,
    List.find?_eq_bind_findIdx?_getElem?]
  cases m.entries.findIdx? fun entry => m.rule.same entry.1 name with
  | none => rfl
  | some place =>
    simp only [Option.bind_some]
    cases m.entries[place]? <;> rfl

end Multimap

end HttpContext
