import HttpContext.Proofs.Preparation
import HttpContext.Proofs.Teardown
import HttpContext.Proofs.Transcript
/-!
Chunks that a head has announced. The framing of a body is read off the head each time, and the head
can still be edited after it has gone out. Every step but one that sets `Transfer-Encoding` keeps
the chunks; a status, a buffer or a file that is sent to end the response takes them back, and then
its body follows the chunks as it is, without a last chunk.
-/
namespace HttpContext

namespace Response

variable {r s : Response} {base : Bytes}

/-- The head is out and announces chunks, and chunks are all that is on the wire behind `base`. -/
structure InChunks (base : Bytes) (r : Response) : Prop where
  isCommitted : r.isCommitted = true
  isChunked : r.head.isChunked = true
  wire : ∃ pieces : List Bytes, (∀ piece ∈ pieces, piece ≠ [])
    ∧ r.wire = base ++ pieces.flatMap Chunk.encode

/-- More pieces are more chunks. -/
theorem InChunks.gains (h : InChunks base r) {more : List Bytes} (hg : Gains r s more)
    (hne : ∀ piece ∈ more, piece ≠ []) : InChunks base s := by
  have hcommitted := hg.continues.isCommitted h.isCommitted
  obtain ⟨pieces, hpieces, hwire⟩ := h.wire
  refine ⟨hcommitted, hg.head ▸ h.isChunked, pieces ++ more, ?_, ?_⟩
  · intro piece hp
    rcases List.mem_append.1 hp with hp | hp
    · exact hpieces piece hp
    · exact hne piece hp
  · rw [← sent_of_isCommitted hcommitted, hg.sent, sent_of_isCommitted h.isCommitted, hwire,
      frame_of_isChunked h.isChunked, List.flatMap_append, List.append_assoc]

/-- The first pieces take the head with them. -/
theorem inChunks_of_gains (hr : r.isCommitted = false) {pieces : List Bytes}
    (hg : Gains r s pieces) (hne : ∀ piece ∈ pieces, piece ≠ []) (hs : s.isCommitted = true)
    (hc : s.head.isChunked = true) : InChunks (r.wire ++ s.head.encode) s := by
  refine ⟨hs, hc, pieces, hne, ?_⟩
  rw [← sent_of_isCommitted hs, hg.sent, sent_of_not_isCommitted hr, ← hg.head,
    frame_of_isChunked hc]

end Response

namespace Context

theorem response_passTo (c : Context) (executor : Executor) :
    (c.passTo executor).2.response = c.response := by
  unfold passTo
  split
  · rfl
  · exact response_markAsync c

end Context

namespace Script

open Context Response

theorem gains_writeItems {r : Response} (h : r.IsReady) (whole : Bool) (items : List Item) :
    Gains r (writeItems whole items r).2 (items.flatMap Item.pieces) := by
  induction items generalizing r with
  | nil => exact .refl r
  | cons item rest ih =>
    obtain ⟨hgains, _⟩ := h.item whole item
    exact hgains.trans (ih (h.of_continues hgains.continues))

/-- The action takes the chunks back from the head. -/
def Action.unframes : Action → Bool
  | .setHeader name value =>
    Text.sameName name "Transfer-Encoding" && !Text.sameName value "chunked"
  | _ => false

/-- `s` is `r` after an action: what is said of the response is edited first, without a word against
the chunks unless the action takes them back, and pieces may be written after that. -/
def Acts (action : Action) (r s : Response) : Prop :=
  ∃ (edited : Response) (pieces : List Bytes), edited.sink = r.sink
    ∧ edited.isCommitted = r.isCommitted
    ∧ (action.unframes = false → r.head.isChunked = true → edited.head.isChunked = true)
    ∧ Gains edited s pieces ∧ ∀ piece ∈ pieces, piece ≠ []

theorem acts_of_edit {action : Action} {r s : Response} (hsink : s.sink = r.sink)
    (hcommitted : s.isCommitted = r.isCommitted)
    (hchunked : action.unframes = false → r.head.isChunked = true → s.head.isChunked = true) :
    Acts action r s :=
  ⟨s, [], hsink, hcommitted, hchunked, .refl s, nofun⟩

theorem acts_of_eq {action : Action} {r s : Response} (h : s = r) : Acts action r s := by
  rw [h]
  exact acts_of_edit rfl rfl fun _ hc => hc

/-- A stream is opened and written to. -/
theorem acts_writeOut {action : Action} {c d : Context} (hs : c.response.sink.IsSound)
    (ho : c.response.isClosed = false) (hd : d.response = { c.response with head := d.response.head })
    (hchunked : c.response.head.isChunked = true → d.response.head.isChunked = true)
    (items : List Item) (whole : Bool) :
    Acts action c.response (writeOut d.openStream items whole).2.response := by
  have hready : d.openStream.response.IsReady := by
    refine ⟨?_, ?_, rfl⟩
    · show d.response.sink.IsSound
      rw [hd]
      exact hs
    · show d.response.isClosed = false
      rw [hd]
      exact ho
  refine ⟨d.openStream.response, items.flatMap Item.pieces, ?_, ?_, fun _ hc => ?_,
    gains_writeItems hready whole items, fun piece hp => ?_⟩
  · show d.response.sink = c.response.sink
    rw [hd]
  · show d.response.isCommitted = c.response.isCommitted
    rw [hd]
  · exact ResponseHead.isChunked_setChunkedWithoutLength (hchunked hc)
  · obtain ⟨item, _, hitem⟩ := List.mem_flatMap.1 hp
    exact item.pieces_ne_nil piece hitem

theorem acts_act {h : Handler} (hs : h.context.response.sink.IsSound)
    (ho : h.context.response.isClosed = false) (action : Action) :
    Acts action h.context.response (act h action).2.context.response := by
  have htype : ∀ value : String,
      { h.context.response.head with
        headers := h.context.response.head.headers.set "Content-Type" value }.isChunked
        = h.context.response.head.isChunked :=
    fun value => ResponseHead.isChunked_set_of_ne _ value (by decide)
  cases action
  case form => exact acts_of_eq h.context.response_form
  case multipart => exact acts_of_eq h.context.response_multipart
  case body use => exact acts_of_edit rfl rfl fun _ hc => hc
  case setStatus status => exact acts_of_edit rfl rfl fun _ hc => hc
  case setHeader name value =>
    refine acts_of_edit rfl rfl fun hu hc => (ResponseHead.isChunked_set _ name value).trans ?_
    simp only [Action.unframes, Bool.and_eq_false_iff, Bool.not_eq_false'] at hu
    split
    · rename_i hname
      rcases hu with hother | hvalue
      · rw [hname] at hother
        cases hother
      · exact hvalue
    · exact hc
  case setType type charset => exact acts_of_edit rfl rfl fun _ hc => (htype _).trans hc
  case defaultType type =>
    show Acts _ _ (h.context.defaultType type).response
    unfold Context.defaultType
    split
    · exact acts_of_edit rfl rfl fun _ hc => (htype _).trans hc
    · exact acts_of_eq rfl
  case setLength length =>
    exact acts_of_edit rfl rfl fun _ hc =>
      (ResponseHead.isChunked_setContentLength _ length).trans hc
  case stream items whole => exact acts_writeOut hs ho rfl id items whole
  case writer type charset items whole =>
    exact acts_writeOut (d := h.context.setType type (charset <|> h.context.defaultCharset type))
      hs ho rfl (fun hc => (htype _).trans hc) items whole
  -- what the others do has nothing to do with the response
  all_goals first
    | exact acts_of_eq rfl
    | simp only [act]
      split <;> exact acts_of_eq rfl

theorem Acts.inChunks {action : Action} {r s : Response} {base : Bytes} (h : Acts action r s)
    (hu : action.unframes = false) (hr : InChunks base r) : InChunks base s := by
  obtain ⟨edited, pieces, hsink, hcommitted, hchunked, hgains, hne⟩ := h
  obtain ⟨before, hbefore, hwire⟩ := hr.wire
  have hedited : InChunks base edited := by
    refine ⟨hcommitted.trans hr.isCommitted, hchunked hu hr.isChunked, before, hbefore, ?_⟩
    rw [Response.wire, hsink]
    exact hwire
  exact hedited.gains hgains hne

/-- The head goes out with the first pieces. -/
theorem Acts.starts {action : Action} {r s : Response} (h : Acts action r s)
    (hr : r.isCommitted = false) (hs : s.isCommitted = true) (hc : s.head.isChunked = true) :
    InChunks (r.wire ++ s.head.encode) s := by
  obtain ⟨edited, pieces, hsink, hcommitted, _, hgains, hne⟩ := h
  have hwire : edited.wire = r.wire := congrArg Sink.wire hsink
  rw [← hwire]
  exact inChunks_of_gains (hcommitted.trans hr) hgains hne hs hc

/-! ### A run of actions -/

/-- No action of the handler takes the chunks back once its response is committed. -/
def keepsFraming (h : Handler) : List Step → Bool
  | [] => true
  | .finish _ :: _ => true
  | .act action :: rest =>
    !(h.context.response.isCommitted && action.unframes) && keepsFraming (act h action).2 rest
  | .dispatch executor :: rest => keepsFraming (dispatch h executor).2 rest
  | .detach :: rest => keepsFraming (detach h).2 rest

/-- The contexts of a run: before every step that is taken, and after the last. -/
def contexts (h : Handler) : List Step → List Context
  | [] => [h.context, h.context.drop]
  | .finish ending :: _ => [h.context, ending.apply h.context]
  | .act action :: rest => h.context :: contexts (act h action).2 rest
  | .dispatch executor :: rest => h.context :: contexts (dispatch h executor).2 rest
  | .detach :: rest => h.context :: contexts (detach h).2 rest

/-- The head of a response that is committed. -/
def headOf? (c : Context) : Option ResponseHead :=
  if c.response.isCommitted then some c.response.head else none

theorem headOf?_eq_some {c : Context} {head : ResponseHead} :
    headOf? c = some head ↔ c.response.isCommitted = true ∧ c.response.head = head := by
  simp only [headOf?, Option.ite_none_right_eq_some, Option.some.injEq]

/-- The head that goes out: that of the first context whose response is committed. -/
def headSent? (h : Handler) (steps : List Step) : Option ResponseHead :=
  (contexts h steps).findSome? headOf?

theorem headSent?_of_isCommitted {h : Handler} (hc : h.context.response.isCommitted = true)
    (steps : List Step) : headSent? h steps = some h.context.response.head := by
  have hhead : headOf? h.context = some h.context.response.head := if_pos hc
  unfold headSent?
  cases steps with
  | nil => simp only [contexts, List.findSome?_cons, hhead]
  | cons step rest => cases step <;> simp only [contexts, List.findSome?_cons, hhead]

/-- While the head is not out, it is looked for in the contexts that follow. -/
theorem headSent?_of_not_isCommitted {h : Handler}
    (hc : h.context.response.isCommitted = false) (steps : List Step) :
    headSent? h steps = (contexts h steps).tail.findSome? headOf? := by
  have hhead : headOf? h.context = none := if_neg (by rw [hc]; exact Bool.false_ne_true)
  unfold headSent?
  cases steps with
  | nil => simp only [contexts, List.findSome?_cons, hhead, List.tail_cons]
  | cons step rest =>
    cases step <;> simp only [contexts, List.findSome?_cons, hhead, List.tail_cons]

theorem response_dispatch (h : Handler) (executor : Option Executor) :
    (dispatch h executor).2.context.response = h.context.response := by
  cases executor with
  | some executor => exact response_passTo h.context executor
  | none => exact response_passTo h.context h.context.router.worker

theorem response_detach (h : Handler) :
    (detach h).2.context.response = h.context.response :=
  response_markAsync h.context

/-- The response may be written to when a step has been taken, as it was before. -/
theorem isSound_act {h : Handler} (hs : h.context.response.sink.IsSound)
    (ho : h.context.response.isClosed = false) (action : Action) :
    (act h action).2.context.response.sink.IsSound
      ∧ (act h action).2.context.response.isClosed = false := by
  have hcontinues := (continues_act h action).response
  exact ⟨hcontinues.isSound hs, hcontinues.isClosed.trans ho⟩

/-- Once chunks have been announced, there are only chunks until the ending begins. -/
theorem inChunks_arrive {h : Handler} {steps : List Step} {base : Bytes}
    (hs : h.context.response.sink.IsSound) (ho : h.context.response.isClosed = false)
    (hk : keepsFraming h steps = true) (hc : InChunks base h.context.response) :
    InChunks base (arrive h steps).1.context.response := by
  fun_induction arrive h steps with
  | case1 => exact hc
  | case2 => exact hc
  | case3 h action rest ih =>
    simp only [keepsFraming, hc.isCommitted, Bool.true_and, Bool.and_eq_true,
      Bool.not_eq_true'] at hk
    obtain ⟨hs', ho'⟩ := isSound_act hs ho action
    exact ih hs' ho' hk.2 ((acts_act hs ho action).inChunks hk.1 hc)
  | case4 h executor rest ih =>
    rw [← response_dispatch h executor] at hs ho hc
    exact ih hs ho hk hc
  | case5 h rest ih =>
    rw [← response_detach h] at hs ho hc
    exact ih hs ho hk hc

/-- A head that announces chunks has gone out before the ending begins, and only chunks after it, or
it goes out with the ending. -/
theorem arrive_of_headSent? {h : Handler} {steps : List Step} {head : ResponseHead}
    (hs : h.context.response.sink.IsSound) (ho : h.context.response.isClosed = false)
    (hk : keepsFraming h steps = true) (hc : h.context.response.isCommitted = false)
    (hh : headSent? h steps = some head) (hchunked : head.isChunked = true) :
    InChunks (h.context.response.wire ++ head.encode) (arrive h steps).1.context.response
      ∨ (arrive h steps).1.context.response.isCommitted = false
        ∧ headOf? ((arrive h steps).2.apply (arrive h steps).1.context) = some head := by
  fun_induction arrive h steps with
  | case1 h =>
    rw [headSent?_of_not_isCommitted hc, contexts, List.tail_cons, List.findSome?_singleton] at hh
    exact .inr ⟨hc, hh⟩
  | case2 h ending rest =>
    rw [headSent?_of_not_isCommitted hc, contexts, List.tail_cons, List.findSome?_singleton] at hh
    exact .inr ⟨hc, hh⟩
  | case3 h action rest ih =>
    obtain ⟨hs', ho'⟩ := isSound_act hs ho action
    have hacts := acts_act hs ho action
    rw [headSent?_of_not_isCommitted hc] at hh
    simp only [keepsFraming, hc, Bool.false_and, Bool.not_false, Bool.true_and] at hk
    cases hc' : (act h action).2.context.response.isCommitted with
    | true =>
      -- the head goes out now
      obtain rfl : (act h action).2.context.response.head = head :=
        Option.some.inj ((headSent?_of_isCommitted hc' rest).symm.trans hh)
      exact .inl (inChunks_arrive hs' ho' hk (hacts.starts hc hc' hchunked))
    | false =>
      have hwire := ((continues_act h action).response.wire hc').2
      have hrest := ih hs' ho' hk hc' hh
      rw [hwire] at hrest
      exact hrest
  | case4 h executor rest ih =>
    rw [headSent?_of_not_isCommitted hc] at hh
    rw [← response_dispatch h executor] at hs ho hc ⊢
    exact ih hs ho hk hc hh
  | case5 h rest ih =>
    rw [headSent?_of_not_isCommitted hc] at hh
    rw [← response_detach h] at hs ho hc ⊢
    exact ih hs ho hk hc hh

end Script

end HttpContext
