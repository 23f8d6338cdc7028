import HttpContext.Context.Release
import HttpContext.Message.Parser
/-!
Serving one request off a connection. A request that is malformed or too large is answered with
an empty response before it is refused; one that is cut short is not answered at all.
-/
namespace HttpContext

namespace Connection

/-- What came in on a connection. -/
inductive Received
  | request (message : RequestMessage)
  /-- it is no request that may be served -/
  | refused (cause : Error)
  /-- the connection failed or ended too early -/
  | broken (fault : Fault)
  deriving Repr, DecidableEq

/-- Reads with a buffer of `size` bytes until the parser has a request or refuses one. -/
def receive (size : Nat) (p : Parser) (source : Source) : Received :=
  match _h : source.read size with
  | (.error fault, _) => .broken fault
  | (.ok [], _) => .broken .requestCutShort
  | (.ok (b :: bs), rest) =>
    match p.feed (b :: bs) with
    | (.error cause, _) => .refused cause
    | (.ok false, p) => receive size p rest
    | (.ok true, p) =>
      match p.request with
      | .ok message => .request message
      | .error cause => .refused cause
termination_by source.weight
decreasing_by
  have := Source.weight_read _h
  simp only [List.length_cons] at this
  omega

/-- The head of the answer to a refused request. -/
def refusalHead (cause : Error) : ResponseHead :=
  let status := match cause with
    | .tooLarge _ => Status.payloadTooLarge
    | _ => Status.badRequest
  ({ status } : ResponseHead).setContentLength 0

/-- Answers a refused request; a failure to do so takes the place of the cause. -/
def refuse (cause : Error) (sink : Sink) : Error × Sink :=
  match sink.write (refusalHead cause).encode with
  | (.error fault, sink) => (.io fault, sink)
  | (.ok (), sink) =>
    match sink.flush with
    | (.error fault, sink) => (.io fault, sink)
    | (.ok (), sink) => (cause, sink)

/-- Reads one request under the settings of a router. -/
def takeRequest (config : Config) (source : Source) (sink : Sink) :
    Except Error RequestMessage × Sink :=
  match receive (max config.bufferSize 1) { limit := config.maxRequestSize.toNat } source with
  | .request message => (.ok message, sink)
  | .broken fault => (.error (.io fault), sink)
  | .refused cause =>
    let (cause, sink) := refuse cause sink
    (.error cause, sink)

/-- Serves one request: its context goes through the handler. On the callback engine the handler
starts on the thread `io`. -/
def serve (engine : Engine) (router : Router) (io : Executor) (peer : Option Peer)
    (spool : Spool) (source : Source) (sink : Sink) (handler : Context → Context) :
    Except Error Context × Sink :=
  match takeRequest router.config source sink with
  | (.error cause, sink) => (.error cause, sink)
  | (.ok message, sink) =>
    let request := Request.ofMessage message peer
    let place := match engine with
      | .stream => Place.caller
      | .callback => .threadOf io
    let c := handler { Context.start engine router io request sink spool with place }
    (.ok c, c.response.sink)

end Connection

end HttpContext
