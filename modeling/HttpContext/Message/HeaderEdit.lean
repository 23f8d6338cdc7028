import HttpContext.Message.HeaderFields
/-!
Edits of the header lines, one after the other. A line is set in place: its first occurrence takes
the value, and then the list is gone through once to drop the others.
-/
namespace HttpContext

namespace HeaderFields

/-- The lines without those of the name, except for the first one of them; `seen` tells whether it
has come already. -/
def keepFirst (name : String) (seen : Bool) : List (String × String) → List (String × String)
  | [] => []
  | entry :: rest =>
    if !hasName name entry then entry :: keepFirst name seen rest
    else if seen then keepFirst name true rest
    else entry :: keepFirst name true rest

def setInPlace (h : HeaderFields) (name value : String) : HeaderFields :=
  match h.entries.findIdx? (hasName name) with
  | some place =>
    ⟨keepFirst name false (h.entries.modify place fun entry => (entry.1, value))⟩
  | none => h.add name value

inductive Edit
  | set (name value : String)
  | add (name value : String)
  | remove (name : String)
  deriving Repr, DecidableEq

def Edit.name : Edit → String
  | set name _ | add name _ | remove name => name

def edit (h : HeaderFields) : Edit → HeaderFields
  | .set name value => h.setInPlace name value
  | .add name value => h.add name value
  | .remove name => h.remove name

def run (h : HeaderFields) (edits : List Edit) : HeaderFields :=
  edits.foldl edit h

theorem keepFirst_true (name : String) (entries : List (String × String)) :
    keepFirst name true entries = entries.filter fun entry => !hasName name entry := by
  induction entries with
  | nil => rfl
  | cons entry rest ih =>
    rw [keepFirst, List.filter_cons, ih]
    rfl

/-- Setting in place leaves what one pass over the lines gives. -/
theorem setInPlace_eq_set (h : HeaderFields) (name value : String) :
    h.setInPlace name value = h.set name value := by
  have key : ∀ entries : List (String × String),
      setInPlace ⟨entries⟩ name value = ⟨setIn name value entries⟩ := by
    intro entries
    induction entries with
    | nil => rfl
    | cons entry rest ih =>
      rw [setInPlace, List.findIdx?_cons, setIn]
      by_cases hname : hasName name entry = true
      · -- the first line has the name: the flag is up from there on
        have hfirst : hasName name (entry.1, value) = true := hname
        simp only [hname, ↓reduceIte, List.modify_zero_cons, keepFirst, hfirst, Bool.not_true,
          Bool.false_eq_true, keepFirst_true]
      · -- otherwise it stays, and the search goes on behind it
        rw [setInPlace] at ih
        simp only [hname, Bool.false_eq_true, ↓reduceIte]
        cases hplace : rest.findIdx? (hasName name) with
        | none =>
          rw [hplace] at ih
          have hrest : rest ++ [(name, value)] = setIn name value rest :=
            congrArg HeaderFields.entries ih
          simp only [Option.map_none, add, List.cons_append, hrest]
        | some place =>
          rw [hplace] at ih
          have hrest : keepFirst name false (rest.modify place fun entry => (entry.1, value))
              = setIn name value rest := congrArg HeaderFields.entries ih
          simp only [Option.map_some, List.modify_succ_cons, keepFirst, hname, Bool.not_false,
            ↓reduceIte, hrest]
  exact key h.entries

end HeaderFields

end HttpContext
