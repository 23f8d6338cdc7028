/-!
The two ways to serve a request.
-/
namespace HttpContext

inductive Engine
  /-- blocking, with one thread for each request -/
  | stream
  /-- writes are handed to an I/O thread and call back when they are done -/
  | callback
  deriving Repr, DecidableEq

def Engine.name : Engine → String
  | stream => "stream"
  | callback => "callback"

end HttpContext
