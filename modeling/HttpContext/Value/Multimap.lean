import HttpContext.Text.Basic
/-!
Maps from a name to one or several values, in the order of the first values. Names are compared
exactly or without ASCII case; a name keeps the spelling it came with.
-/
namespace HttpContext

inductive KeyRule
  | exact
  | ignoringCase
  deriving Repr, DecidableEq

def KeyRule.same : KeyRule → String → String → Bool
  | exact, a, b => a == b
  | ignoringCase, a, b => Text.sameName a b

structure Multimap where
  rule : KeyRule := .exact
  entries : List (String × List String) := []
  deriving Repr, DecidableEq

namespace Multimap

def putIn (rule : KeyRule) (name value : String) :
    List (String × List String) → List (String × List String)
  | [] => [(name, [value])]
  | entry :: rest =>
    -- the spelling that came first stays
    if rule.same entry.1 name then (entry.1, entry.2 ++ [value]) :: rest
    else entry :: putIn rule name value rest

def put (m : Multimap) (name value : String) : Multimap :=
  { m with entries := putIn m.rule name value m.entries }

def putAll (m : Multimap) (pairs : List (String × String)) : Multimap :=
  pairs.foldl (fun m pair => m.put pair.1 pair.2) m

/-- Every value of a name, in the order they were put. -/
def values (m : Multimap) (name : String) : List String :=
  match m.entries.find? fun entry => m.rule.same entry.1 name with
  | some entry => entry.2
  | none => []

def get? (m : Multimap) (name : String) : Option String :=
  (m.values name).head?

def contains (m : Multimap) (name : String) : Bool :=
  m.entries.any fun entry => m.rule.same entry.1 name

def removeIn (rule : KeyRule) (name : String) :
    List (String × List String) → List (String × List String)
  | [] => []
  | entry :: rest =>
    if rule.same entry.1 name then rest else entry :: removeIn rule name rest

/-- The map without the name; its values are `values m name`. -/
def remove (m : Multimap) (name : String) : Multimap :=
  { m with entries := removeIn m.rule name m.entries }

def names (m : Multimap) : List String := m.entries.map Prod.fst

def pairs (m : Multimap) : List (String × String) :=
  m.entries.flatMap fun entry => entry.2.map fun value => (entry.1, value)

def size (m : Multimap) : Nat := m.entries.length

def isEmpty (m : Multimap) : Bool := m.entries.isEmpty

/-- Puts the pairs whose name the other map does not have. -/
def putUnless (m : Multimap) (pairs : List (String × String)) (other : Multimap) : Multimap :=
  m.putAll (pairs.filter fun pair => !other.contains pair.1)

@[simp] theorem rule_put (m : Multimap) (name value : String) : (m.put name value).rule = m.rule :=
  rfl

@[simp] theorem rule_remove (m : Multimap) (name : String) : (m.remove name).rule = m.rule := rfl

end Multimap

end HttpContext
