import HttpContext.Context.Event
import HttpContext.Exchange.Request
import HttpContext.Exchange.Response
import HttpContext.Message.ByteRange
import HttpContext.Message.MediaType
import HttpContext.Router
import HttpContext.Value.Attributes
/-!
One request and its response, whatever engine serves it: what a handler reads of the request, each
value being made once and kept, and what it says about the response before that starts.
-/
namespace HttpContext

structure MultipartForm where
  fields : Multimap := {}
  files : List Upload := []
  deriving Repr, DecidableEq

def MultipartForm.file? (m : MultipartForm) (name : String) : Option Upload :=
  m.files.find? fun file => file.name == name

structure Context where
  router : Router
  request : Request
  response : Response
  spool : Spool := {}
  /-- the executor that the context belongs to -/
  worker : Executor
  place : Place := .caller
  route : Option Route := none
  pathMap : List (String × String) := []
  attributes : Attributes := {}
  queryMemo : Memo Query := {}
  headersMemo : Memo Multimap := {}
  formMemo : Memo Multimap := {}
  multipartMemo : Memo MultipartForm := {}
  responseType : Option MediaType := none
  uploads : List Upload := []
  listeners : List String := []
  isReleased : Bool := false
  /-- what has happened so far -/
  history : List Context.Event := []

namespace Context

def engine (c : Context) : Engine := c.response.engine

/-- A fresh context. On the stream engine it belongs to the worker of its router, on the callback
engine to the engine's own thread `io`. -/
def start (engine : Engine) (router : Router) (io : Executor) (request : Request) (sink : Sink)
    (spool : Spool) : Context :=
  let worker := match engine with
    | .stream => router.worker
    | .callback => io
  { router, request, spool, worker, response := { engine, sink } }

def subject (c : Context) : Subject :=
  ⟨c.request.head.method.name, c.request.head.path⟩

def note (c : Context) (event : Event) : Context :=
  { c with history := c.history ++ [event] }

def log (c : Context) : List Record :=
  c.history.filterMap (Event.record? c.engine c.subject)

/-- The listeners that were told the end, and how it went. -/
def completions (c : Context) : List (String × Option Fault) :=
  c.history.filterMap Event.completion?

/-! ### The request -/

def query (c : Context) : Query × Context :=
  let read (_ : Unit) := (match c.request.rawQuery with
    | some raw => Query.parse c.request.decoder raw
    | none => Query.empty, ())
  let (query, queryMemo, _) := c.queryMemo.getOrInit read ()
  (query, { c with queryMemo })

/-- The request headers, grouped by name once. -/
def headers (c : Context) : Multimap × Context :=
  let read (_ : Unit) :=
    (Multimap.putAll { rule := .ignoringCase } (c.request.headerLines c.engine), ())
  let (headers, headersMemo, _) := c.headersMemo.getOrInit read ()
  (headers, { c with headersMemo })

def limits (c : Context) : FormLimits :=
  ⟨c.router.config.maxRequestSize, c.router.config.bufferSize⟩

/-- The entries of the body and the fields that the engine makes of them. -/
def readForm (c : Context) : Except Error (List FormEntry × List (String × String)) × Context :=
  let (result, request, spool) := c.request.formEntries (some c.limits) c.spool
  let fields := fun entries => (entries, request.formFields c.engine entries)
  (result.map fields, { c with request, spool })

/-- The form and the files of a multipart body. Names that the query has belong to the query. The
files are noted for the end of the request. -/
def multipart (c : Context) : Except Error MultipartForm × Context :=
  -- the query is read first, since its names are left out of the form
  let (query, c) := c.query
  let read (c : Context) : Except Error MultipartForm × Context :=
    match c.readForm with
    | (.error cause, c) => (.error cause, c)
    | (.ok (entries, fields), c) =>
      let files := entries.filterMap FormEntry.upload?
      (.ok { fields := Multimap.putUnless {} fields query.values, files },
        { c with uploads := c.uploads ++ files })
  let (result, multipartMemo, c) := c.multipartMemo.getOrTry read c
  (result, { c with multipartMemo })

/-- The fields of the body, except those whose name the query has. -/
def form (c : Context) : Except Error Multimap × Context :=
  if FormKind.multipart.announcedBy c.request.head.contentType then
    let (result, c) := c.multipart
    (result.map MultipartForm.fields, c)
  else
    let (query, c) := c.query
    let read (c : Context) : Except Error Multimap × Context :=
      let (result, c) := c.readForm
      (result.map fun (_, fields) => Multimap.putUnless {} fields query.values, c)
    let (result, formMemo, c) := c.formMemo.getOrTry read c
    (result, { c with formMemo })

/-- Takes the body, which may be no longer than the router allows. -/
def body (c : Context) : Body × Context :=
  let (body, request) := c.request.takeBody c.router.config.maxRequestSize
  (body, { c with request, response := c.response.allowBlocking })

def remoteAddress (c : Context) : String :=
  match c.request.peer with
  | some peer => peer.address.text
  | none => ""

/-- The handler runs on the thread of the callback engine. -/
def isInIoThread (c : Context) : Bool :=
  match c.engine with
  | .stream => false
  | .callback => c.place.isIoThread

def isAsync (c : Context) : Bool := c.request.isAsync

/-- Names in a path, the later of two equal ones winning. -/
def setPathMap (c : Context) (pairs : List (String × String)) : Context :=
  let pathMap := pairs.foldl (fun found pair =>
    (found.filter fun old => old.1 != pair.1) ++ [pair]) []
  { c with pathMap }

def addListener (c : Context) (listener : String) : Context :=
  { c with listeners := c.listeners ++ [listener] }

/-! ### The response before it starts -/

def setStatus (c : Context) (status : Status) : Context :=
  { c with response := c.response.setStatus status }

def setHeader (c : Context) (name value : String) : Context :=
  { c with response := c.response.setHeader name value }

def setLength (c : Context) (length : Nat) : Context :=
  { c with response := c.response.setLength length }

/-- The charset of a type that none was asked for. -/
def defaultCharset (c : Context) (type : MediaType) : Option String :=
  if type.isTextual then some c.router.config.defaultCharset else none

def setType (c : Context) (type : MediaType) (charset : Option String) : Context :=
  { c with responseType := some type }.setHeader "Content-Type" (type.header charset)

def defaultType (c : Context) (type : MediaType) : Context :=
  if c.responseType.isNone then c.setType type (c.defaultCharset type) else c

/-- The type of the response: plain text when none has been set. -/
def currentType (c : Context) : MediaType :=
  c.responseType.getD MediaType.text

/-- Makes ready for writes by the handler, chunked unless a length was set. -/
def openStream (c : Context) : Context :=
  { c with response := c.response.allowBlocking.setChunkedWithoutLength }

/-- Makes ready for writes of this type. -/
def openWriter (c : Context) (type : MediaType) (charset : Option String) : Context :=
  (c.setType type (charset <|> c.defaultCharset type)).openStream

end Context

end HttpContext
