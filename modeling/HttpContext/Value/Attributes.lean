/-!
Values of several types that handlers attach to a request under a name. A look-up names the type
as well and finds nothing under another one.
-/
namespace HttpContext

inductive AttributeType
  | text | word32 | word64 | flag | unit
  deriving Repr, DecidableEq

inductive Attribute
  | text (value : String)
  | word32 (value : UInt32)
  | word64 (value : UInt64)
  | flag (value : Bool)
  | unit
  deriving Repr, DecidableEq

def Attribute.type : Attribute → AttributeType
  | text _ => .text
  | word32 _ => .word32
  | word64 _ => .word64
  | flag _ => .flag
  | unit => .unit

structure Attributes where
  entries : List (String × Attribute) := []
  deriving Repr, DecidableEq

namespace Attributes

def remove (a : Attributes) (name : String) : Attributes :=
  ⟨a.entries.filter fun entry => entry.1 != name⟩

/-- The value takes the place of any earlier one of that name. -/
def insert (a : Attributes) (name : String) (value : Attribute) : Attributes :=
  ⟨(a.remove name).entries ++ [(name, value)]⟩

def get? (a : Attributes) (name : String) (type : AttributeType) : Option Attribute :=
  (a.entries.lookup name).filter fun value => value.type == type

def contains (a : Attributes) (name : String) : Bool :=
  a.entries.any fun entry => entry.1 == name

def names (a : Attributes) : List String := a.entries.map Prod.fst

def size (a : Attributes) : Nat := a.entries.length

end Attributes

end HttpContext
