import HttpContext.Context.Script
import HttpContext.Proofs.Alike
import HttpContext.Proofs.Release
/-!
Contexts of the two engines side by side. `Context.Twins` relates two contexts that serve the same
request and have come equally far with its response; every step of a script that concerns the
response keeps it and leaves the same reply on both.
-/
namespace HttpContext

namespace Response

variable {r s : Response}

/-- Twins that the handler may write to. -/
structure WritableTwins (r s : Response) : Prop extends Twins r s where
  leftBlocks : r.isBlocking = true
  rightBlocks : s.isBlocking = true

theorem WritableTwins.of_twins (h : WritableTwins r s) {r' s' : Response} (ht : Twins r' s')
    (hr : Continues r r') (hs : Continues s s') : WritableTwins r' s' :=
  ⟨ht, hr.isBlocking h.leftBlocks, hs.isBlocking h.rightBlocks⟩

theorem WritableTwins.write (h : WritableTwins r s) (data : Bytes) :
    (r.write data).1 = (s.write data).1 ∧ WritableTwins (r.write data).2 (s.write data).2 := by
  have hp := h.toTwins.writePiece data
  have ht : (r.write data).1 = (s.write data).1 ∧ Twins (r.write data).2 (s.write data).2 := by
    unfold Response.write
    rw [h.leftBlocks, h.rightBlocks]
    split
    · exact ⟨rfl, h.toTwins⟩
    · split
      · exact ⟨rfl, h.toTwins⟩
      · exact ⟨congrArg (Except.map fun _ => data.length) hp.1, hp.2⟩
  exact ⟨ht.1, h.of_twins ht.2 (continues_write r data) (continues_write s data)⟩

theorem WritableTwins.writeAll (h : WritableTwins r s) (data : Bytes) :
    (r.writeAll data).1 = (s.writeAll data).1
      ∧ WritableTwins (r.writeAll data).2 (s.writeAll data).2 := by
  have hw := h.write data
  unfold Response.writeAll
  split
  · exact ⟨rfl, h⟩
  · exact ⟨congrArg (Except.map fun _ => ()) hw.1, hw.2⟩

theorem WritableTwins.flush (h : WritableTwins r s) :
    r.flush.1 = s.flush.1 ∧ WritableTwins r.flush.2 s.flush.2 := by
  have hf := h.toAlike.flush
  have ht := h.toTwins.of_alike hf (continues_flush r) (continues_flush s)
  exact ⟨hf.1, h.of_twins ht.2 (continues_flush r) (continues_flush s)⟩

end Response

namespace Script

open Response (WritableTwins)

theorem write_item_of_twins {r s : Response} (h : WritableTwins r s) (whole : Bool) (item : Item) :
    (item.write whole r).1 = (item.write whole s).1
      ∧ WritableTwins (item.write whole r).2 (item.write whole s).2 := by
  cases item with
  | flush => exact ⟨congrArg (Written.of fun _ => .flushed) h.flush.1, h.flush.2⟩
  | data bytes =>
    have ha := h.writeAll bytes
    have hw := h.write bytes
    cases whole with
    | true => exact ⟨congrArg (Written.of fun _ => .whole) ha.1, ha.2⟩
    | false => exact ⟨congrArg (Written.of .count) hw.1, hw.2⟩

theorem writeItems_of_twins {r s : Response} (h : WritableTwins r s) (whole : Bool)
    (items : List Item) :
    (writeItems whole items r).1 = (writeItems whole items s).1
      ∧ WritableTwins (writeItems whole items r).2 (writeItems whole items s).2 := by
  induction items generalizing r s with
  | nil => exact ⟨rfl, h⟩
  | cons item rest ih =>
    have hi := write_item_of_twins h whole item
    have hr := ih hi.2
    refine ⟨?_, hr.2⟩
    simp only [writeItems, hi.1, hr.1]

end Script

namespace Context

/-- The two contexts serve the same request and have come equally far with its response. -/
structure Twins (a b : Context) : Prop where
  response : a.response.Twins b.response
  router : a.router = b.router
  head : a.request.head = b.request.head
  responseType : a.responseType = b.responseType
  listeners : a.listeners = b.listeners
  completions : a.completions = b.completions
  left : a.isReleased = false
  right : b.isReleased = false

variable {a b : Context}

/-- Two fresh contexts of one request, whatever their engines, are twins. -/
theorem twins_start (engine engine' : Engine) (router : Router) (io io' : Executor)
    (request : Request) (sink : Sink) (spool : Spool) (hs : sink.Flushes) :
    Twins (start engine router io request sink spool)
      (start engine' router io' request sink spool) where
  response := ⟨⟨rfl, rfl, rfl, hs⟩, rfl, rfl⟩
  router := rfl
  head := rfl
  responseType := rfl
  listeners := rfl
  completions := rfl
  left := rfl
  right := rfl

/-- Twins may go on with other responses, as long as these are twins too. -/
theorem Twins.withResponse (h : Twins a b) {r s : Response} (hrs : r.Twins s) :
    Twins { a with response := r } { b with response := s } :=
  { h with response := hrs }

theorem Twins.onHead (h : Twins a b) (edit : ResponseHead → ResponseHead) :
    Twins { a with response := { a.response with head := edit a.response.head } }
      { b with response := { b.response with head := edit b.response.head } } :=
  h.withResponse { h.response with head := congrArg edit h.response.head }

theorem Twins.setStatus (h : Twins a b) (status : Status) :
    Twins (a.setStatus status) (b.setStatus status) :=
  h.onHead fun head => { head with status }

theorem Twins.setHeader (h : Twins a b) (name value : String) :
    Twins (a.setHeader name value) (b.setHeader name value) :=
  h.onHead fun head => { head with headers := head.headers.set name value }

theorem Twins.setLength (h : Twins a b) (length : Nat) :
    Twins (a.setLength length) (b.setLength length) :=
  h.onHead fun head => head.setContentLength length

theorem Twins.setType (h : Twins a b) (type : MediaType) (charset : Option String) :
    Twins (a.setType type charset) (b.setType type charset) := by
  have ht : Twins { a with responseType := some type } { b with responseType := some type } :=
    { h with responseType := rfl }
  exact ht.setHeader "Content-Type" (type.header charset)

theorem Twins.defaultCharset (h : Twins a b) (type : MediaType) :
    a.defaultCharset type = b.defaultCharset type := by
  simp only [Context.defaultCharset, h.router]

theorem Twins.defaultType (h : Twins a b) (type : MediaType) :
    Twins (a.defaultType type) (b.defaultType type) := by
  unfold Context.defaultType
  rw [h.responseType, h.defaultCharset]
  split
  · exact h.setType type _
  · exact h

theorem Twins.currentType (h : Twins a b) : a.currentType = b.currentType := by
  simp only [Context.currentType, h.responseType]

theorem Twins.addListener (h : Twins a b) (listener : String) :
    Twins (a.addListener listener) (b.addListener listener) :=
  { h with listeners := congrArg (· ++ [listener]) h.listeners }

/-- Once opened, the response of either engine takes writes. -/
theorem Twins.openStream (h : Twins a b) :
    Twins a.openStream b.openStream
      ∧ a.openStream.response.WritableTwins b.openStream.response := by
  -- only the callback engine has to be told that the handler will block
  have hh := congrArg ResponseHead.setChunkedWithoutLength h.response.head
  have hr : a.openStream.response.WritableTwins b.openStream.response :=
    ⟨{ h.response with head := hh }, rfl, rfl⟩
  exact ⟨h.withResponse hr.toTwins, hr⟩

theorem Twins.openWriter (h : Twins a b) (type : MediaType) (charset : Option String) :
    Twins (a.openWriter type charset) (b.openWriter type charset)
      ∧ (a.openWriter type charset).response.WritableTwins
          (b.openWriter type charset).response := by
  unfold Context.openWriter
  rw [h.defaultCharset]
  exact (h.setType type _).openStream

end Context

namespace Script

open Context (Twins)

theorem writeOut_of_twins {a b : Context} (h : Twins a b)
    (hw : a.response.WritableTwins b.response) (items : List Item) (whole : Bool) :
    (writeOut a items whole).1 = (writeOut b items whole).1
      ∧ Twins (writeOut a items whole).2 (writeOut b items whole).2 := by
  have hi := writeItems_of_twins hw whole items
  exact ⟨hi.1, h.withResponse hi.2.toTwins⟩

/-- The step says something about the response, writes to it, or asks to be told of its end. -/
def Action.isOfResponse : Action → Bool
  | setStatus _ | setHeader _ _ | defaultType _ | setType _ _ | setLength _ => true
  | stream _ _ | writer _ _ _ _ | addListener _ => true
  | _ => false

/-- Whatever is done to the response has the same result on both engines. -/
theorem act_of_twins {g h : Handler} (ht : Twins g.context h.context) {action : Action}
    (ha : action.isOfResponse = true) :
    (act g action).1 = (act h action).1
      ∧ Twins (act g action).2.context (act h action).2.context := by
  cases action with
  | setStatus status => exact ⟨rfl, ht.setStatus status⟩
  | setHeader name value => exact ⟨rfl, ht.setHeader name value⟩
  | setLength length =>
    -- the reply reads the length back off the head
    have hl := ht.setLength length
    exact ⟨congrArg (Reply.length ∘ ResponseHead.contentLength) hl.response.head, hl⟩
  | defaultType type =>
    have hd := ht.defaultType type
    exact ⟨congrArg Reply.type hd.currentType, hd⟩
  | setType type charset =>
    have hs := ht.setType type charset
    exact ⟨congrArg Reply.type hs.currentType, hs⟩
  | addListener listener => exact ⟨rfl, ht.addListener listener⟩
  | stream items whole =>
    have hw := writeOut_of_twins ht.openStream.1 ht.openStream.2 items whole
    exact ⟨congrArg Reply.written hw.1, hw.2⟩
  | writer type charset items whole =>
    have ho := ht.openWriter type charset
    have hw := writeOut_of_twins ho.1 ho.2 items whole
    exact ⟨congrArg Reply.written hw.1, hw.2⟩
  | _ => cases ha

end Script

end HttpContext
