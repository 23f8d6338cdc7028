import HttpContext.Exchange.Engine
import HttpContext.Form.Spool
/-!
What happens to a request while it is served, and which of it is logged.
-/
namespace HttpContext

inductive Level
  | trace | debug | error
  deriving Repr, DecidableEq

def Level.name : Level → String
  | trace => "TRACE"
  | debug => "DEBUG"
  | error => "ERROR"

structure Record where
  level : Level
  text : String
  deriving Repr, DecidableEq

/-- The method and the path of a request, by which its records name it. -/
structure Subject where
  method : String
  path : String
  deriving Repr, DecidableEq

def Subject.text (s : Subject) : String := s.method ++ " " ++ s.path

namespace Context

inductive Event
  /-- the exchange is to go on after its handler has returned -/
  | wentAsync
  | handedOver (executor : String)
  | failed (cause : Fault)
  | uploadDestroyed (upload : Upload) (failure : Option Fault)
  | closed (aborted : Bool) (failure : Option Fault)
  | told (listener : String) (outcome : Option Fault)
  deriving Repr, DecidableEq

namespace Event

/-- The record of an event, if it leaves one. A peer that went away is no error of the server. -/
def record? (engine : Engine) (s : Subject) : Event → Option Record
  | wentAsync => match engine with
    | .stream => some ⟨.trace, "starting async " ++ s.text⟩
    | .callback => some ⟨.trace, "dispatching exchange " ++ s.text⟩
  | handedOver executor => some ⟨.trace, "dispatching " ++ s.text ++ " to " ++ executor⟩
  | failed cause =>
    some ⟨if cause.isPeerGone then .debug else .error,
      "exception found while sending response " ++ s.text ++ ": " ++ cause.text⟩
  | uploadDestroyed upload failure => failure.map fun cause =>
    ⟨.debug, "file upload destroy resulted in exception " ++ upload.name ++ ": " ++ cause.text⟩
  | closed _ failure => failure.map fun cause => match engine with
    | .stream => ⟨.debug, "close output failed " ++ s.text ++ ": " ++ cause.text⟩
    | .callback => ⟨.debug, "end exchange failed " ++ s.text ++ ": " ++ cause.text⟩
  | told _ _ => none

/-- The listener that an event told the end, with the outcome. -/
def completion? : Event → Option (String × Option Fault)
  | told listener outcome => some (listener, outcome)
  | _ => none

end Event

end Context

end HttpContext
