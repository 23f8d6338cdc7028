import HttpContext.Context.Basic
/-!
The end of a request. It happens once: the failure is noted, the uploads are destroyed, the
response is closed, and the listeners are told.
-/
namespace HttpContext.Context

def noteFailure (c : Context) (cause : Option Fault) : Context :=
  match cause with
  | some cause => c.note (.failed cause)
  | none => c

def destroyUpload (c : Context) (upload : Upload) : Context :=
  let (result, spool) := c.spool.destroy upload
  { c with spool }.note (.uploadDestroyed upload (failure? result))

/-- Destroys the uploads; one that fails does not keep the others. -/
def destroyUploads (c : Context) : Context :=
  { c.uploads.foldl destroyUpload c with uploads := [] }

/-- Closes the response; a failure of that is only noted. -/
def closeResponse (c : Context) (aborted : Bool) : Context :=
  let (result, response) := c.response.close aborted
  let request := { c.request with asyncIsDone := c.request.asyncIsDone || c.request.isAsync }
  { c with response, request }.note (.closed aborted (failure? result))

def tellListeners (c : Context) (cause : Option Fault) : Context :=
  { c with
    history := c.history ++ c.listeners.map fun listener => .told listener cause
    listeners := [] }

/-- Ends the request, with the failure that made it end if there is one. -/
def release (c : Context) (cause : Option Fault) : Context :=
  if c.isReleased then c
  else
    -- the listeners come last, when nothing is left that could still change
    (((({ c with isReleased := true }.noteFailure cause).destroyUploads).closeResponse
      cause.isSome).tellListeners cause)

/-- Lets go of the context, which ends its request unless that has happened. -/
def drop (c : Context) : Context := c.release none

/-- Ends the request with the result of its last operation, after which the context is dropped. -/
def endWith (c : Context) (result : Except Fault Unit) : Context :=
  (c.release (failure? result)).drop

theorem release_of_isReleased {c : Context} (h : c.isReleased = true) (cause : Option Fault) :
    c.release cause = c := by
  simp [release, h]

end HttpContext.Context
