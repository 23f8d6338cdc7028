import HttpContext.Error
/-!
Request methods.
-/
namespace HttpContext

inductive Method
  | get | head | post | put | delete | options | trace | connect | patch
  deriving Repr, DecidableEq

namespace Method

def all : List Method := [get, head, post, put, delete, options, trace, connect, patch]

def name : Method → String
  | get => "GET"
  | head => "HEAD"
  | post => "POST"
  | put => "PUT"
  | delete => "DELETE"
  | options => "OPTIONS"
  | trace => "TRACE"
  | connect => "CONNECT"
  | patch => "PATCH"

/-- The method with this name in any ASCII case. -/
def ofName (name : String) : Except RequestError Method :=
  match all.find? fun method => method.name.toList == name.toList.map Char.toUpper with
  | some method => .ok method
  | none => .error (.unknownMethod name)

theorem ofName_name (method : Method) : ofName method.name = .ok method := by
  cases method <;> rfl

end Method

end HttpContext
