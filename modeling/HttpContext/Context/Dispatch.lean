import HttpContext.Context.Release
/-!
Passing a context on to an executor. It hops only when the executor is not the one it belongs to
already; a detached context stays where it is but goes on after its handler has returned.
-/
namespace HttpContext.Context

/-- Marks the exchange as one that goes on after its handler has returned. -/
def markAsync (c : Context) : Context :=
  if c.request.isAsync then c
  else
    { c with request := { c.request with isAsync := true } }.note .wentAsync

inductive Hop
  /-- at once, on the thread that asked for it -/
  | inline
  /-- as a task of the executor -/
  | submitted (executor : Executor)
  deriving Repr, DecidableEq

def passTo (c : Context) (executor : Executor) : Hop × Context :=
  if c.worker.same executor then (.inline, c)
  else
    -- the work goes on elsewhere, so the exchange must outlive its handler
    let c := c.markAsync.note (.handedOver executor.name)
    (.submitted executor, { c with worker := executor, place := c.place.handedTo executor })

def dispatch (c : Context) : Hop × Context :=
  c.passTo c.router.worker

def detach (c : Context) : Context := c.markAsync

/-- The sender of a response, through which exactly one body may be sent. On the stream engine
asking for it settles the framing and makes the exchange asynchronous. -/
def openSender (c : Context) : Context :=
  match c.engine with
  | .stream => { c with response := c.response.setChunkedWithoutLength }.markAsync
  | .callback => c

end HttpContext.Context
