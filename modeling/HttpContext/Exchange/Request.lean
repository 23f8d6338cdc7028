import HttpContext.Channel.Body
import HttpContext.Exchange.Engine
import HttpContext.Exchange.Peer
import HttpContext.Form.Multipart
import HttpContext.Form.Urlencoded
import HttpContext.Message.RequestHead
import HttpContext.Value.Memo
import HttpContext.Value.Query
/-!
A request as an engine hands it over: its head, where it came from, its input, and the entries of
a form body. The input can be taken once; the entries are read once, unless reading them fails.
-/
namespace HttpContext

/-- How large a form body may be, and from where on its files go to the spool directory. -/
structure FormLimits where
  maxSize : UInt64
  threshold : Nat
  deriving Repr, DecidableEq

structure Request where
  head : RequestHead
  input : Option Source
  peer : Option Peer := none
  entries : Memo (List FormEntry) := {}
  isAsync : Bool := false
  asyncIsDone : Bool := false
  /-- reads the query and an urlencoded body -/
  decoder : Urlencoded.Decoder := Urlencoded.decoder

namespace Request

/-- The request that a message off the wire makes. -/
def ofMessage (message : RequestMessage) (peer : Option Peer) : Request :=
  { head := message.head, input := some (.ofBytes message.body), peer }

/-- The input, which is empty once it has been taken. -/
def takeInput (r : Request) : Source × Request :=
  (r.input.getD [], { r with input := none })

/-- The input as a body with the declared length. -/
def takeBody (r : Request) (limit : UInt64) : Body × Request :=
  let (source, rest) := r.takeInput
  ({ source, length := r.head.contentLength, limit }, rest)

/-- The query as a handler sees it; one that is empty counts as absent. -/
def rawQuery (r : Request) : Option String :=
  r.head.query.filter fun query => !query.isEmpty

def queryValues (r : Request) : Multimap :=
  match r.head.query with
  | some query => (Query.parse r.decoder query).values
  | none => {}

/-- Reads the entries of the body. Without limits only an urlencoded body is read. -/
def readEntries (limits : Option FormLimits) (state : Request × Spool) :
    Except Error (List FormEntry) × Request × Spool :=
  let (r, spool) := state
  let maxSize := (limits.map FormLimits.maxSize).getD 0
  match FormKind.ofContentType r.head.contentType with
  | none => (.ok [], r, spool)
  | some .urlencoded =>
    let (body, r) := r.takeBody maxSize
    match body.bytes with
    | .error cause => (.error cause, r, spool)
    | .ok bytes =>
      (.ok ((r.decoder.pairs bytes).map fun pair => .field pair.1 pair.2), r, spool)
  | some .multipart =>
    match limits with
    -- without limits the parts stay unread
    | none => (.ok [], r, spool)
    | some limits =>
      match r.head.contentType.bind Parameters.boundary? with
      | none => (.error (.form .boundaryMissing), r, spool)
      | some boundary =>
        let (body, r) := r.takeBody maxSize
        match body.bytes with
        | .error cause => (.error cause, r, spool)
        | .ok bytes =>
          let (result, spool) := Multipart.read boundary limits.threshold bytes spool
          (result, r, spool)

/-- The entries of the body, read when they are first asked for. -/
def formEntries (limits : Option FormLimits) (r : Request) (spool : Spool) :
    Except Error (List FormEntry) × Request × Spool :=
  let (result, entries, r, spool) := r.entries.getOrTry (readEntries limits) (r, spool)
  (result, { r with entries }, spool)

/-- The names of the query, then those of the fields that the query does not have. -/
def formNames (r : Request) (entries : List FormEntry) : List String :=
  (entries.filterMap FormEntry.field?).foldl (fun names field =>
    if names.contains field.1 then names else names ++ [field.1]) r.queryValues.names

/-- The values of a name in the query, then those in the fields. -/
def formValues (r : Request) (entries : List FormEntry) (name : String) : List String :=
  r.queryValues.values name
    ++ ((entries.filterMap FormEntry.field?).filter fun field => field.1 == name).map Prod.snd

/-- Every parameter with each of its values. -/
def formPairs (r : Request) (entries : List FormEntry) : List (String × String) :=
  (r.formNames entries).flatMap fun name =>
    (r.formValues entries name).map fun value => (name, value)

/-- The fields that an engine offers as a form: on the stream engine the query is among them. -/
def formFields (engine : Engine) (r : Request) (entries : List FormEntry) :
    List (String × String) :=
  match engine with
  | .stream => r.formPairs entries
  | .callback => entries.filterMap FormEntry.field?

/-- The header lines as an engine offers them: name by name, or in their order. -/
def headerLines (engine : Engine) (r : Request) : List (String × String) :=
  match engine with
  | .stream => r.head.headers.names.flatMap fun name =>
      (r.head.headers.values name).map fun value => (name, value)
  | .callback => r.head.headers.entries

end Request

end HttpContext
