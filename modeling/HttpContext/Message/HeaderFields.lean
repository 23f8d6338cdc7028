import HttpContext.Text.Basic
import HttpContext.Text.Utf8
/-!
Header lines in order. Names are compared without ASCII case and keep their spelling.
`HeaderFields.values` is the view of one name; the lemmas say what each edit does to it.
-/
namespace HttpContext

structure HeaderFields where
  entries : List (String × String) := []
  deriving Repr, DecidableEq

namespace HeaderFields

def hasName (name : String) (entry : String × String) : Bool :=
  Text.sameName entry.1 name

/-- Every value of a name, in order. -/
def values (h : HeaderFields) (name : String) : List String :=
  (h.entries.filter (hasName name)).map Prod.snd

def get? (h : HeaderFields) (name : String) : Option String :=
  (h.entries.find? (hasName name)).map Prod.snd

def contains (h : HeaderFields) (name : String) : Bool :=
  h.entries.any (hasName name)

def add (h : HeaderFields) (name value : String) : HeaderFields :=
  ⟨h.entries ++ [(name, value)]⟩

def remove (h : HeaderFields) (name : String) : HeaderFields :=
  ⟨h.entries.filter fun entry => !hasName name entry⟩

/-- The first line of the name takes the value and the later ones go; without one a line is added. -/
def setIn (name value : String) : List (String × String) → List (String × String)
  | [] => [(name, value)]
  | entry :: rest =>
    if hasName name entry then (entry.1, value) :: rest.filter fun e => !hasName name e
    else entry :: setIn name value rest

def set (h : HeaderFields) (name value : String) : HeaderFields :=
  ⟨setIn name value h.entries⟩

def size (h : HeaderFields) : Nat := h.entries.length

/-- The distinct names, each in its first spelling and place. -/
def names (h : HeaderFields) : List String :=
  h.entries.foldl (fun seen entry =>
    if seen.any (Text.sameName entry.1) then seen else seen ++ [entry.1]) []

def line (entry : String × String) : Bytes :=
  Utf8.encode entry.1 ++ Utf8.encode ": " ++ Utf8.encode entry.2 ++ Bytes.crlf

def encode (h : HeaderFields) : Bytes := h.entries.flatMap line

theorem get?_eq_head? (h : HeaderFields) (name : String) : h.get? name = (h.values name).head? := by
  simp [get?, values]

theorem contains_eq_isSome (h : HeaderFields) (name : String) :
    h.contains name = (h.get? name).isSome := by
  rw [Bool.eq_iff_iff]
  simp [contains, get?, List.find?_isSome]

theorem values_cons (entry : String × String) (rest : List (String × String)) (name : String) :
    values ⟨entry :: rest⟩ name
      = if hasName name entry then entry.2 :: values ⟨rest⟩ name else values ⟨rest⟩ name := by
  rw [values, List.filter_cons]
  split <;> rfl

/-! ### Lines left out of account -/

theorem hasName_congr {name other : String} (hs : Text.sameName name other = true) :
    hasName name = hasName other := by
  funext entry
  rw [hasName, hasName, Text.sameName, Text.sameName, Text.sameName_iff.1 hs]

/-- No line has two names that differ. -/
theorem hasName_of_ne {name other : String} (hn : Text.sameName name other = false)
    (entry : String × String) (he : hasName name entry = true) : hasName other entry = false := by
  rw [hasName, Text.sameName_iff] at he
  rw [hasName, ← hn, Text.sameName, Text.sameName, he]

section

variable {name : String} {p : String × String → Bool}

theorem filter_without (hp : ∀ entry, hasName name entry = true → p entry = false)
    (entries : List (String × String)) :
    (entries.filter fun entry => !hasName name entry).filter p = entries.filter p := by
  rw [List.filter_filter]
  apply List.filter_congr
  intro entry _
  by_cases he : hasName name entry = true
  · rw [hp entry he, Bool.false_and]
  · simp [he]

theorem filter_setIn (hp : ∀ entry, hasName name entry = true → p entry = false) (value : String)
    (entries : List (String × String)) :
    (setIn name value entries).filter p = entries.filter p := by
  have hline : ∀ spelling, hasName name (spelling, value) = true → p (spelling, value) = false :=
    fun spelling => hp (spelling, value)
  induction entries with
  | nil =>
    have hnew : p (name, value) = false := hline name (Text.sameName_refl name)
    rw [setIn, List.filter_cons, hnew]
    rfl
  | cons entry rest ih =>
    rw [setIn]
    by_cases he : hasName name entry = true
    · -- neither the line nor those that go behind it are counted
      rw [if_pos he, List.filter_cons, List.filter_cons, hp entry he, hline entry.1 he,
        filter_without hp]
      rfl
    · rw [if_neg he, List.filter_cons, List.filter_cons, ih]

/-- Of the lines of a name that is set one is left, with the value. -/
theorem filter_setIn_self (name value : String) (entries : List (String × String)) :
    ((setIn name value entries).filter (hasName name)).map Prod.snd = [value] := by
  induction entries with
  | nil =>
    have hnew : hasName name (name, value) = true := Text.sameName_refl name
    rw [setIn, List.filter_cons, hnew]
    rfl
  | cons entry rest ih =>
    rw [setIn]
    by_cases he : hasName name entry = true
    · have hline : hasName name (entry.1, value) = true := he
      rw [if_pos he, List.filter_cons, hline, List.filter_filter]
      simp
    · rw [if_neg he, List.filter_cons, if_neg he, ih]

end

/-! ### The edits, as one name sees them -/

theorem values_add (h : HeaderFields) (name value other : String) :
    (h.add name value).values other
      = h.values other ++ if Text.sameName name other then [value] else [] := by
  by_cases hs : Text.sameName name other <;>
    simp [values, add, List.filter_append, hasName, hs]

theorem values_remove (h : HeaderFields) (name other : String) :
    (h.remove name).values other = if Text.sameName name other then [] else h.values other := by
  unfold values remove
  by_cases hs : Text.sameName name other = true
  · rw [if_pos hs, hasName_congr hs, List.filter_filter]
    simp
  · rw [if_neg hs, filter_without (hasName_of_ne (by simpa using hs))]

theorem values_set (h : HeaderFields) (name value other : String) :
    (h.set name value).values other
      = if Text.sameName name other then [value] else h.values other := by
  unfold values set
  by_cases hs : Text.sameName name other = true
  · rw [if_pos hs, ← hasName_congr hs, filter_setIn_self]
  · rw [if_neg hs, filter_setIn (hasName_of_ne (by simpa using hs))]

theorem get?_set_of_ne (h : HeaderFields) {name other : String} (value : String)
    (hn : Text.sameName name other = false) : (h.set name value).get? other = h.get? other := by
  rw [get?_eq_head?, get?_eq_head?, values_set, hn]
  rfl

theorem get?_set_self (h : HeaderFields) (name value : String) :
    (h.set name value).get? name = some value := by
  rw [get?_eq_head?, values_set, Text.sameName_refl]
  rfl

theorem get?_remove_self (h : HeaderFields) (name : String) : (h.remove name).get? name = none := by
  rw [get?_eq_head?, values_remove, Text.sameName_refl]
  rfl

/-- A line that is set and then removed leaves no trace. -/
theorem remove_set_self (h : HeaderFields) (name value : String) :
    (h.set name value).remove name = h.remove name := by
  have hkept : (setIn name value h.entries).filter (fun entry => !hasName name entry)
      = h.entries.filter fun entry => !hasName name entry :=
    filter_setIn (fun entry he => by rw [he]; rfl) value h.entries
  simp only [set, remove, hkept]

/-- Edits of different names can be made in either order. -/
theorem remove_set_of_ne (h : HeaderFields) {name other : String} (value : String)
    (hn : Text.sameName name other = false) :
    (h.set name value).remove other = (h.remove other).set name value := by
  have key : ∀ entries : List (String × String),
      (setIn name value entries).filter (fun e => !hasName other e)
        = setIn name value (entries.filter fun e => !hasName other e) := by
    intro entries
    induction entries with
    | nil => simp [setIn, hasName, hn]
    | cons e rest ih =>
      by_cases he : hasName name e
      · have ho := hasName_of_ne hn e he
        have ho' : hasName other (e.1, value) = false := ho
        simp only [setIn, he, ho, ho', List.filter_cons, ↓reduceIte, Bool.not_false,
          List.filter_filter, Bool.and_comm]
      · by_cases ho : hasName other e <;> simp [setIn, he, ho, ih]
  simp only [set, remove, key]

theorem set_set_self (h : HeaderFields) (name first second : String) :
    (h.set name first).set name second = h.set name second := by
  have key : ∀ entries : List (String × String),
      setIn name second (setIn name first entries) = setIn name second entries := by
    intro entries
    induction entries with
    | nil => simp [setIn, hasName]
    | cons e rest ih =>
      by_cases he : hasName name e
      · have he' : hasName name (e.1, first) = true := he
        simp [setIn, he, he', List.filter_filter]
      · simp [setIn, he, ih]
  simp only [set, key]

end HeaderFields

end HttpContext
