import HttpContext.Proofs.Endings
import HttpContext.Proofs.Twins
/-!
The engines agree. A script that speaks of the response, writes to it and ends it by sending,
aborting or dropping leaves the same replies, the same bytes on the wire and the same outcome on
both engines, as long as no flush of the connection fails.
-/
namespace HttpContext

namespace Context

variable {a b : Context}

/-! ### The sender -/

/-- The parts of a context that its response depends on, with what its listeners were told. -/
def answer (c : Context) :=
  (c.response, c.router, c.request.head, c.responseType, c.listeners, c.completions, c.isReleased)

/-- What is logged besides the end of a request is told to nobody. -/
theorem answer_note (c : Context) {event : Event} (he : event.completion? = none) :
    (c.note event).answer = c.answer := by
  have hn : (c.note event).completions = c.completions := by
    simp only [Context.completions, note, List.filterMap_append, List.filterMap_cons, he,
      List.filterMap_nil, List.append_nil]
  exact congrArg (fun told => (c.response, c.router, c.request.head, c.responseType, c.listeners,
    told, c.isReleased)) hn

theorem answer_markAsync (c : Context) : c.markAsync.answer = c.answer := by
  unfold markAsync
  split
  · rfl
  · exact answer_note { c with request := { c.request with isAsync := true } } rfl

theorem Twins.of_answer (h : Twins a b) {c d : Context} (hc : c.answer = a.answer)
    (hd : d.answer = b.answer) : Twins c d := by
  simp only [answer, Prod.mk.injEq] at hc hd
  obtain ⟨hresponse, hrouter, hhead, htype, hlisteners, htold, hreleased⟩ := hc
  obtain ⟨hresponse', hrouter', hhead', htype', hlisteners', htold', hreleased'⟩ := hd
  constructor
  · rw [hresponse, hresponse']
    exact h.response
  · rw [hrouter, hrouter', h.router]
  · rw [hhead, hhead', h.head]
  · rw [htype, htype', h.responseType]
  · rw [hlisteners, hlisteners', h.listeners]
  · rw [htold, htold', h.completions]
  · rw [hreleased, h.left]
  · rw [hreleased', h.right]

theorem answer_of_markAsync {c d : Context} (h : d = c ∨ d = c.markAsync) : d.answer = c.answer := by
  rcases h with rfl | rfl
  · rfl
  · exact answer_markAsync c

/-! ### Twins that end -/

/-- The same bytes went out, and the listeners were told the same. -/
structure SameEnd (a b : Context) : Prop where
  wire : a.response.wire = b.response.wire
  completions : a.completions = b.completions

theorem Twins.release (h : Twins a b) (cause : Option Fault) :
    SameEnd (a.release cause) (b.release cause) := by
  have hclosed : a.response.isClosed = b.response.isClosed :=
    h.response.left.trans h.response.right.symm
  have hclose := h.response.toAlike.close hclosed cause.isSome
  constructor
  · rw [response_release h.left, response_release h.right]
    exact congrArg Sink.wire hclose.2.sink
  · rw [completions_release h.left, completions_release h.right, h.completions, h.listeners]

theorem Twins.drop (h : Twins a b) : SameEnd a.drop b.drop := h.release none

theorem Twins.endWith (h : Twins a b) (result : Except Fault Unit) :
    SameEnd (a.endWith result) (b.endWith result) := by
  rw [endWith_eq, endWith_eq]
  exact h.release (failure? result)

theorem Twins.putOut (h : Twins a b) (data : Bytes) : SameEnd (a.putOut data) (b.putOut data) := by
  have hs := h.response.send data
  have ht := h.withResponse hs.2
  unfold Context.putOut
  simp only [hs.1]
  exact ht.endWith _

/-- Looping over a source and being called back after each of its buffers come to the same. -/
theorem Twins.copyOut (h : Twins a b) (source : Source) :
    SameEnd (a.copyOut source) (b.copyOut source) := by
  have hflush : a.response.sink.Flushes := h.response.sink ▸ h.response.flushes
  have hsize : a.router.config.bufferSize = b.router.config.bufferSize := by rw [h.router]
  have hc := h.response.writeFrom (max b.router.config.bufferSize 1) source
  have ht := h.withResponse hc.2
  rw [copyOut_eq, copyOut_eq, copied_of_flushes hflush, copied_of_flushes h.response.flushes, hsize]
  simp only [Response.copy, hc.1]
  exact ht.endWith _

theorem Twins.withLength (h : Twins a b) (length : Nat) :
    Twins (a.withLength length) (b.withLength length) := by
  have hr := h.onHead fun head =>
    { head with headers := head.headers.remove "Transfer-Encoding" }
  exact hr.onHead fun head => head.setContentLength length

theorem Twins.announceRange (h : Twins a b) (range : ByteRange) :
    Twins (a.announceRange range) (b.announceRange range) := by
  unfold Context.announceRange
  split
  · exact (((h.setHeader _ _).setHeader _ _).setLength _).setStatus _
  · exact h

theorem Twins.requestedRange (h : Twins a b) (length : Nat) :
    a.requestedRange length = b.requestedRange length := by
  simp only [Context.requestedRange, h.head]

/-- A window that is missing is missing on both. -/
theorem Twins.copyWindow (h : Twins a b) (window : Except Fault Source) :
    SameEnd (a.copyWindow window) (b.copyWindow window) := by
  cases window with
  | ok window => exact h.copyOut window
  | error cause => exact h.endWith (.error cause)

theorem Twins.sendFile (h : Twins a b) (file : File) :
    SameEnd (a.sendFile file) (b.sendFile file) := by
  have hl := h.withLength file.length
  have hr := hl.requestedRange file.length
  unfold Context.sendFile
  split
  · rename_i cause _
    exact h.endWith (.error cause)
  · simp only [hr]
    exact (hl.announceRange _).copyWindow _

theorem Twins.sendSource (h : Twins a b) (source : Source) :
    SameEnd (a.sendSource source) (b.sendSource source) := by
  unfold Context.sendSource
  rw [h.response.head]
  split
  · rename_i n _
    have hr := h.requestedRange (n + 1)
    simp only [hr]
    exact (h.announceRange _).copyWindow _
  · have hh := h.onHead fun head =>
      { head with headers := head.headers.remove "Content-Length" }.setChunked
    exact hh.copyOut source

theorem Twins.send (h : Twins a b) (what : Sending) : SameEnd (a.send what) (b.send what) := by
  cases what with
  | empty status =>
    have hs := ((h.withLength 0).setStatus status).release none
    simp only [Context.send, sendEmpty, drop_release]
    exact hs
  | bytes data => exact (h.withLength data.length).putOut data
  | source source => exact h.sendSource source
  | file file => exact h.sendFile file

/-- A sender that fails before it looks at the head writes nothing, however its engine has settled
the framing. -/
theorem Twins.release_openSender (h : Twins a b) (cause : Fault) :
    SameEnd (a.openSender.release (some cause)) (b.openSender.release (some cause)) := by
  have ha := a.continues_openSender
  have hb := b.continues_openSender
  have hleft : a.openSender.isReleased = false := ha.isReleased.trans h.left
  have hright : b.openSender.isReleased = false := hb.isReleased.trans h.right
  constructor
  · rw [wire_release_failed hleft, wire_release_failed hright, Response.wire, Response.wire,
      sink_openSender, sink_openSender, h.response.sink]
  · rw [completions_release hleft, completions_release hright, ha.completions, hb.completions,
      ha.listeners, hb.listeners, h.completions, h.listeners]

end Context

namespace Script

open Context (Twins SameEnd)

theorem apply_of_twins {a b : Context} (h : Twins a b) {ending : Ending}
    (he : ending ≠ .sender none) : SameEnd (ending.apply a) (ending.apply b) := by
  cases ending with
  | send what => exact h.send what
  | sender what =>
    cases what with
    | none => exact absurd rfl he
    | some what =>
      simp only [Ending.apply]
      cases hf : what.fault? with
      | some cause =>
        rw [Context.send_of_fault _ hf, Context.send_of_fault _ hf]
        exact h.release_openSender cause
      | none =>
        obtain ⟨c, hc, hac⟩ := a.send_openSender hf
        obtain ⟨d, hd, hbd⟩ := b.send_openSender hf
        have hcd : Twins c d :=
          h.of_answer (Context.answer_of_markAsync hc) (Context.answer_of_markAsync hd)
        rw [hac, hbd]
        exact hcd.send what
  | drop => exact h.drop
  | abort cause =>
    have hr := h.release (some cause)
    simp only [Ending.apply, Context.drop_release]
    exact hr

/-- Handlers that are twins make the same of every script about the response. -/
theorem run_of_twins {g h : Handler} (ht : Twins g.context h.context) {actions : List Action}
    (ha : ∀ action ∈ actions, action.isOfResponse = true) {ending : Ending}
    (he : ending ≠ .sender none) :
    (run g (actions.map .act ++ [.finish ending])).1
        = (run h (actions.map .act ++ [.finish ending])).1
      ∧ SameEnd (run g (actions.map .act ++ [.finish ending])).2.context
          (run h (actions.map .act ++ [.finish ending])).2.context := by
  -- the handlers stay twins with every action, and end alike from there
  induction actions generalizing g h with
  | nil => exact ⟨rfl, apply_of_twins ht he⟩
  | cons action rest ih =>
    have hact := act_of_twins ht (ha action List.mem_cons_self)
    have hrest := ih hact.2 fun later hl => ha later (List.mem_cons_of_mem _ hl)
    refine ⟨?_, hrest.2⟩
    simp only [List.map_cons, List.cons_append, run, hact.1, hrest.1]

/-- On both engines a script about the response leaves the same replies, puts the same bytes on the
wire and tells its listeners the same outcome, whatever the request, the source and the writes of
the connection do. -/
theorem serve_agrees (router : Router) (io : Executor) (request : Request) (spool : Spool)
    {sink : Sink} (hs : sink.Flushes) {actions : List Action}
    (ha : ∀ action ∈ actions, action.isOfResponse = true) {ending : Ending}
    (he : ending ≠ .sender none) :
    let served := fun engine =>
      serve engine router io request sink spool (actions.map .act ++ [.finish ending])
    (served .stream).1 = (served .callback).1
      ∧ (served .stream).2.context.response.wire = (served .callback).2.context.response.wire
      ∧ (served .stream).2.context.completions = (served .callback).2.context.completions := by
  have ht := Context.twins_start .stream .callback router io io request sink spool hs
  have hr := run_of_twins (g := ⟨_, none⟩) (h := ⟨_, none⟩) ht ha he
  exact ⟨hr.1, hr.2.wire, hr.2.completions⟩

/-- Here the connection refuses part of the head, once, and the source is interrupted. -/
theorem serve_agrees_refusedOnce :
    let served := fun engine =>
      serve engine { config := .default ⟨"/tmp", 1⟩, worker := .sameThread 0 } (.ioThread 1 "io")
        { head := { method := .get, path := "/" }, input := none }
        { refusals := [(20, .zero)] } {}
        ([.addListener "end", .stream [.data [1, 2, 3], .flush] false].map .act
          ++ [.finish (.send (.source [.data [4, 5], .fail (.system .interrupted), .data [6]]))])
    (served .stream).1 = (served .callback).1
      ∧ (served .stream).2.context.response.wire = (served .callback).2.context.response.wire
      ∧ (served .stream).2.context.completions = (served .callback).2.context.completions :=
  serve_agrees _ _ _ _ ⟨rfl, rfl⟩ (by simp [Action.isOfResponse]) nofun

end Script

end HttpContext
