import HttpContext.Message.HeaderEdit
/-!
Edits of header lines, seen by name. Each acts on the values of its own name as it would act on a
plain list, and on nothing else. Main statement: `HeaderFields.edits_affect_one_name`.
-/
namespace HttpContext

namespace HeaderFields

variable {h : HeaderFields} {name value : String}

/-- What an edit makes of the values of a name. -/
def Edit.onValues (name : String) (values : List String) (edit : Edit) : List String :=
  if Text.sameName edit.name name then
    match edit with
    | set _ value => [value]
    | add _ value => values ++ [value]
    | remove _ => []
  else values

/-- The line has none of the names that are edited. -/
def isSpared (edits : List Edit) (entry : String × String) : Bool :=
  edits.all fun edit => !hasName edit.name entry

/-! ### The values of one name -/

theorem values_edit (h : HeaderFields) (edit : Edit) (name : String) :
    (h.edit edit).values name = edit.onValues name (h.values name) := by
  cases edit with
  | set other value =>
    rw [HeaderFields.edit, setInPlace_eq_set, values_set]
    rfl
  | add other value =>
    rw [HeaderFields.edit, values_add, Edit.onValues, Edit.name]
    split
    · rfl
    · rw [List.append_nil]
  | remove other =>
    rw [HeaderFields.edit, values_remove]
    rfl

theorem values_run (h : HeaderFields) (edits : List Edit) (name : String) :
    (h.run edits).values name
      = edits.foldl (fun values edit => edit.onValues name values) (h.values name) := by
  induction edits generalizing h with
  | nil => rfl
  | cons edit rest ih =>
    have hrest := ih (h.edit edit)
    rw [values_edit] at hrest
    exact hrest

/-! ### The lines of the other names -/

theorem filter_edit {p : String × String → Bool} {edit : Edit}
    (hp : ∀ entry, hasName edit.name entry = true → p entry = false) :
    (h.edit edit).entries.filter p = h.entries.filter p := by
  cases edit with
  | set name value =>
    rw [HeaderFields.edit, setInPlace_eq_set]
    exact filter_setIn hp value h.entries
  | add name value =>
    have hnew : p (name, value) = false := hp (name, value) (Text.sameName_refl name)
    rw [HeaderFields.edit, add, List.filter_append, List.filter_cons, hnew]
    simp
  | remove name =>
    rw [HeaderFields.edit, remove]
    exact filter_without hp h.entries

theorem filter_run {p : String × String → Bool} {edits : List Edit}
    (hp : ∀ edit ∈ edits, ∀ entry, hasName edit.name entry = true → p entry = false) :
    (h.run edits).entries.filter p = h.entries.filter p := by
  induction edits generalizing h with
  | nil => rfl
  | cons edit rest ih =>
    have hrest := ih (h := h.edit edit) fun other hother => hp other (List.mem_cons_of_mem _ hother)
    exact hrest.trans (filter_edit (hp edit List.mem_cons_self))

theorem filter_isSpared_run (h : HeaderFields) (edits : List Edit) :
    (h.run edits).entries.filter (isSpared edits) = h.entries.filter (isSpared edits) := by
  refine filter_run fun edit hedit entry hname => ?_
  rw [isSpared, List.all_eq_false]
  exact ⟨edit, hedit, by simp [hname]⟩

/-! ### Where a line is set -/

theorem setIn_append {front : List (String × String)}
    (hfront : ∀ entry ∈ front, hasName name entry = false) (value : String)
    (back : List (String × String)) :
    setIn name value (front ++ back) = front ++ setIn name value back := by
  induction front with
  | nil => rfl
  | cons entry rest ih =>
    have hentry : hasName name entry = false := hfront entry List.mem_cons_self
    have hrest := ih fun other hother => hfront other (List.mem_cons_of_mem _ hother)
    rw [List.cons_append, setIn, hentry, if_neg Bool.false_ne_true, hrest, List.cons_append]

theorem entries_set_of_first {front back : List (String × String)} {entry : String × String}
    (he : h.entries = front ++ entry :: back)
    (hfront : ∀ other ∈ front, hasName name other = false) (hname : hasName name entry = true)
    (value : String) :
    (h.edit (.set name value)).entries
      = front ++ (entry.1, value) :: back.filter fun other => !hasName name other := by
  rw [edit, setInPlace_eq_set, set, he, setIn_append hfront, setIn, if_pos hname]

theorem entries_set_of_not_contains (hn : h.contains name = false) (value : String) :
    (h.edit (.set name value)).entries = h.entries ++ [(name, value)] := by
  have hnone : ∀ entry ∈ h.entries, hasName name entry = false := by
    intro entry hentry
    simpa using List.any_eq_false.1 hn entry hentry
  have hset := setIn_append hnone value []
  rw [List.append_nil] at hset
  rw [edit, setInPlace_eq_set, set, hset, setIn]

/-- The lines of each name are a list of values of their own, on which the edits of that name act and
no others: setting leaves the one new value, adding puts a value at the end, removing leaves none.
All lines of other names stay as they are, in their order. A line is set where the first one of its
name is, in that one's spelling, or else at the end; setting it again changes nothing; and looking a
name up finds the first of its values. -/
theorem edits_affect_one_name (h : HeaderFields) :
    (∀ edits name, (h.run edits).values name
      = edits.foldl (fun values edit => edit.onValues name values) (h.values name))
    ∧ (∀ edits, (h.run edits).entries.filter (isSpared edits) = h.entries.filter (isSpared edits))
    ∧ (∀ name value front entry back, h.entries = front ++ entry :: back →
      (∀ other ∈ front, hasName name other = false) → hasName name entry = true →
      (h.edit (.set name value)).entries
        = front ++ (entry.1, value) :: back.filter fun other => !hasName name other)
    ∧ (∀ name value, h.contains name = false →
      (h.edit (.set name value)).entries = h.entries ++ [(name, value)])
    ∧ (∀ name value,
      (h.edit (.set name value)).edit (.set name value) = h.edit (.set name value))
    ∧ ∀ name, h.get? name = (h.values name).head?
      ∧ h.contains name = (h.values name).head?.isSome := by
  refine ⟨values_run h, filter_isSpared_run h, ?_, ?_, ?_, ?_⟩
  · intro name value front entry back he hfront hname
    exact entries_set_of_first he hfront hname value
  · intro name value hn
    exact entries_set_of_not_contains hn value
  · intro name value
    simp only [edit, setInPlace_eq_set, set_set_self]
  · intro name
    have hget := get?_eq_head? h name
    exact ⟨hget, by rw [contains_eq_isSome, hget]⟩

/-- A name that is there twice in two spellings, and one that is not there. -/
theorem edits_affect_one_name_two_spellings :
    let h : HeaderFields :=
      ⟨[("Vary", "Range"), ("Set-Cookie", "a"), ("set-cookie", "b"), ("Date", "now")]⟩
    (h.edit (.set "SET-COOKIE" "c")).entries
        = [("Vary", "Range"), ("Set-Cookie", "c"), ("Date", "now")]
      ∧ (h.edit (.set "Age" "5")).entries = h.entries ++ [("Age", "5")] := by
  intro h
  obtain ⟨-, -, hfirst, hnew, -, -⟩ := edits_affect_one_name h
  have hset := hfirst "SET-COOKIE" "c" [("Vary", "Range")] ("Set-Cookie", "a")
    [("set-cookie", "b"), ("Date", "now")] rfl (by decide) (by decide)
  exact ⟨hset.trans (by decide), hnew "Age" "5" (by decide)⟩

end HeaderFields

end HttpContext
