import HttpContext.Context.Dispatch
import HttpContext.Context.Send
/-!
Handlers as lists of steps. Most steps look at the context or change it, some pass it on, and one
of them ends the request; a handler that comes to its end without such a step drops the context,
which ends the request as well. Every step that runs leaves one reply.
-/
namespace HttpContext

namespace Script

/-- One item written to an open response stream. -/
inductive Item
  | data (bytes : Bytes)
  | flush
  deriving Repr, DecidableEq

inductive BodyUse
  | bytes
  | text
  | length
  /-- one read into a buffer of this size -/
  | read (size : Nat)
  deriving Repr, DecidableEq

inductive Action
  | info
  | query
  | headers
  | header (name : String)
  | form
  | multipart
  | body (use : BodyUse)
  | setStatus (status : Status)
  | setHeader (name value : String)
  | defaultType (type : MediaType)
  | setType (type : MediaType) (charset : Option String)
  | setLength (length : Nat)
  | setPathMap (pairs : List (String × String))
  | pathMap
  | setRoute (route : Route)
  | route
  | setAttribute (name value : String)
  | attribute (name : String)
  | worker
  | addListener (listener : String)
  /-- writes items to a response stream; `whole` writes each buffer to its end -/
  | stream (items : List Item) (whole : Bool)
  | writer (type : MediaType) (charset : Option String) (items : List Item) (whole : Bool)
  | destroyUpload (index : Nat)
  | removeFile (index : Nat)
  deriving Repr, DecidableEq

inductive Ending
  | send (what : Sending)
  /-- obtains the sender and uses it, or drops it -/
  | sender (what : Option Sending)
  | drop
  | abort (cause : Fault)
  deriving Repr, DecidableEq

inductive Step
  | act (action : Action)
  /-- passes the context on, to the router's worker unless an executor is named -/
  | dispatch (executor : Option Executor)
  | detach
  | finish (ending : Ending)
  deriving Repr, DecidableEq

inductive Written
  /-- the number of bytes that one write took -/
  | count (n : Nat)
  | whole
  | flushed
  | failed (fault : Fault)
  deriving Repr, DecidableEq

/-- What can be seen of an upload. -/
structure UploadView where
  upload : Upload
  isOnDisk : Bool
  isDestroyed : Bool
  data : Except Fault Bytes

def UploadView.of (spool : Spool) (upload : Upload) : UploadView :=
  ⟨upload, spool.isOnDisk upload, spool.isDestroyed upload, spool.bytes upload⟩

/-- What can be seen of a context at a glance. -/
structure Info where
  engine : Engine
  method : String
  path : String
  remote : String
  protocol : String
  isAsync : Bool
  isInIoThread : Bool
  isStarted : Bool
  status : Status
  type : MediaType
  length : Option Nat
  deriving Repr, DecidableEq

inductive BodyData
  | none
  | bytes (data : Bytes)
  | text (data : String)
  | refused (cause : Error)
  /-- a single read failed -/
  | failed (fault : Fault)
  deriving Repr, DecidableEq

/-- What a step leaves behind. -/
inductive Reply
  | done
  | info (info : Info)
  | query (query : Query)
  | values (values : Multimap)
  | text (text : Option String)
  | form (result : Except Error Multimap)
  | multipart (result : Except Error (Multimap × List UploadView))
  | body (length : Option Nat) (data : BodyData)
  | type (type : MediaType)
  | length (length : Option Nat)
  | pairs (pairs : List (String × String))
  | route (route : Option Route)
  | written (results : List Written)
  /-- the upload after it was destroyed, if there is such an upload -/
  | destroyed (result : Option (Except Fault UploadView))
  | removed (result : Option Bool)
  /-- the action that goes on after a hop finds itself there -/
  | resumed (sameThread isAsync isInIoThread : Bool)
  | ended

/-- A handler at work: its context, and the uploads of the first multipart form that had any. -/
structure Handler where
  context : Context
  kept : Option (List Upload) := none

namespace Handler

def look (h : Handler) (reply : Reply) : Reply × Handler := (reply, h)

def put (h : Handler) (reply : Reply) (context : Context) : Reply × Handler :=
  (reply, { h with context })

def kept? (h : Handler) (index : Nat) : Option Upload :=
  (h.kept.getD [])[index]?

end Handler

def info (c : Context) : Info :=
  { engine := c.engine
    method := c.subject.method
    path := c.subject.path
    remote := c.remoteAddress
    protocol := c.request.head.version
    isAsync := c.isAsync
    isInIoThread := c.isInIoThread
    isStarted := c.response.isCommitted
    status := c.response.head.status
    type := c.currentType
    length := c.response.head.contentLength }

/-- What a write leaves in the reply: `done` of what it gives, or its failure. -/
def Written.of {α : Type} (done : α → Written) : Except Fault α → Written
  | .ok value => done value
  | .error fault => failed fault

def Item.write (whole : Bool) (r : Response) : Item → Written × Response
  | flush =>
    let (result, r) := r.flush
    (.of (fun _ => .flushed) result, r)
  | data bytes =>
    if whole then
      let (result, r) := r.writeAll bytes
      (.of (fun _ => .whole) result, r)
    else
      let (result, r) := r.write bytes
      (.of .count result, r)

/-- Writes every item, whatever became of those before it. -/
def writeItems (whole : Bool) : List Item → Response → List Written × Response
  | [], r => ([], r)
  | item :: rest, r =>
    let (result, r) := item.write whole r
    let (more, r) := writeItems whole rest r
    (result :: more, r)

def writeOut (c : Context) (items : List Item) (whole : Bool) : List Written × Context :=
  let (results, response) := writeItems whole items c.response
  (results, { c with response })

/-- Uses a body, which is gone afterwards. -/
def BodyUse.apply (body : Body) : BodyUse → BodyData
  | length => .none
  | bytes =>
    match body.bytes with
    | .ok data => .bytes data
    | .error cause => .refused cause
  | text =>
    match body.text with
    | .ok data => .text data
    | .error cause => .refused cause
  | read size =>
    match (body.read size).1 with
    | .ok data => .bytes data
    | .error fault => .failed fault

def act (h : Handler) : Action → Reply × Handler
  | .info => h.look (.info (info h.context))
  | .query =>
    let (query, c) := h.context.query
    h.put (.query query) c
  | .headers =>
    let (headers, c) := h.context.headers
    h.put (.values headers) c
  | .header name =>
    let (headers, c) := h.context.headers
    h.put (.text (headers.get? name)) c
  | .form =>
    let (result, c) := h.context.form
    h.put (.form result) c
  | .multipart =>
    let (result, c) := h.context.multipart
    let view := fun (m : MultipartForm) => (m.fields, m.files.map (UploadView.of c.spool))
    let files := match result with
      | .ok m => m.files
      | .error _ => []
    -- only the first form with files stays in view
    let kept := if files.isEmpty then h.kept else h.kept <|> some files
    (.multipart (result.map view), { context := c, kept })
  | .body use =>
    let (body, c) := h.context.body
    h.put (.body body.length (use.apply body)) c
  | .setStatus status => h.put .done (h.context.setStatus status)
  | .setHeader name value => h.put .done (h.context.setHeader name value)
  | .defaultType type =>
    let c := h.context.defaultType type
    h.put (.type c.currentType) c
  | .setType type charset =>
    let c := h.context.setType type charset
    h.put (.type c.currentType) c
  | .setLength length =>
    let c := h.context.setLength length
    h.put (.length c.response.head.contentLength) c
  | .setPathMap pairs => h.put .done (h.context.setPathMap pairs)
  | .pathMap => h.look (.pairs h.context.pathMap)
  | .setRoute route => h.put .done { h.context with route := some route }
  | .route => h.look (.route h.context.route)
  | .setAttribute name value =>
    let attributes := h.context.attributes.insert name (.text value)
    h.put .done { h.context with attributes }
  | .attribute name =>
    match h.context.attributes.get? name .text with
    | some (.text value) => h.look (.text (some value))
    | _ => h.look (.text none)
  | .worker => h.look (.text (some h.context.router.worker.name))
  | .addListener listener => h.put .done (h.context.addListener listener)
  | .stream items whole =>
    let (results, c) := writeOut h.context.openStream items whole
    h.put (.written results) c
  | .writer type charset items whole =>
    let (results, c) := writeOut (h.context.openWriter type charset) items whole
    h.put (.written results) c
  | .destroyUpload index =>
    match h.kept? index with
    | none => h.look (.destroyed none)
    | some upload =>
      let (result, spool) := h.context.spool.destroy upload
      let view := fun (_ : Unit) => UploadView.of spool upload
      h.put (.destroyed (some (result.map view))) { h.context with spool }
  | .removeFile index =>
    match h.kept? index with
    | none => h.look (.removed none)
    | some upload =>
      let (result, spool) := h.context.spool.removeFile upload
      h.put (.removed result) { h.context with spool }

/-- Ends the request. -/
def Ending.apply (c : Context) : Ending → Context
  | send what => c.send what
  | sender (some what) => c.openSender.send what
  | sender none => c.openSender.drop
  | drop => c.drop
  | abort cause => (c.release (some cause)).drop

/-- What the action finds that goes on with a context after a hop. -/
def resumed (sameThread : Bool) (c : Context) : Reply :=
  .resumed sameThread c.isAsync c.isInIoThread

def dispatch (h : Handler) (executor : Option Executor) : Reply × Handler :=
  let (hop, c) := match executor with
    | some executor => h.context.passTo executor
    | none => h.context.dispatch
  let sameThread := match hop with
    | .inline => true
    | .submitted executor => h.context.place.keepsThread executor
  h.put (resumed sameThread c) c

def detach (h : Handler) : Reply × Handler :=
  let c := h.context.detach
  h.put (resumed true c) c

/-- Runs a handler to the end of its request. -/
def run (h : Handler) : List Step → List Reply × Handler
  | [] => ([], { h with context := h.context.drop })
  | .finish ending :: _ => ([.ended], { h with context := ending.apply h.context })
  | .act action :: rest =>
    let (reply, h) := act h action
    let (replies, h) := run h rest
    (reply :: replies, h)
  | .dispatch executor :: rest =>
    let (reply, h) := dispatch h executor
    let (replies, h) := run h rest
    (reply :: replies, h)
  | .detach :: rest =>
    let (reply, h) := detach h
    let (replies, h) := run h rest
    (reply :: replies, h)

/-- Serves a request with a handler made of these steps. -/
def serve (engine : Engine) (router : Router) (io : Executor) (request : Request) (sink : Sink)
    (spool : Spool) (steps : List Step) : List Reply × Handler :=
  run { context := .start engine router io request sink spool } steps

end Script

end HttpContext
