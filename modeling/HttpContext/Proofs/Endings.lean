import HttpContext.Proofs.Continuation
import HttpContext.Proofs.Copying
import HttpContext.Proofs.Release
/-!
How a request ends. Every way of ending it first does some last work on the response and then
releases the context, with the failure of that work if there was one. `Script.arrive` cuts a run
where its ending begins.
-/
namespace HttpContext

/-- The failure that ends a send before the head is looked at: a file may not report its length. -/
def Sending.fault? : Sending → Option Fault
  | file opened => opened.metadataFault
  | _ => none

namespace Context

/-- The last work on the response makes `d` of `c`, and the request ends with this outcome. -/
structure Settles (c d : Context) (outcome : Option Fault) : Prop extends Continues c d where
  requestSide : d.requestSide = c.requestSide
  clean : outcome = none → d.response.sink.failures = c.response.sink.failures

theorem Settles.refl (c : Context) (outcome : Option Fault) : Settles c c outcome :=
  ⟨.refl c, rfl, fun _ => rfl⟩

/-- What is said about the response before the last work changes nothing for the sink. -/
theorem Settles.after {b c d : Context} {outcome : Option Fault} (h : Settles c d outcome)
    (hbc : Continues b c) (hside : c.requestSide = b.requestSide)
    (hs : c.response.sink = b.response.sink) : Settles b d outcome :=
  ⟨hbc.trans h.toContinues, h.requestSide.trans hside, fun ho => by rw [h.clean ho, hs]⟩

/-- Work that meets no failure of the sink unless it fails. -/
theorem settles_of_clean (c : Context) {out : Except Fault Unit × Response}
    (hc : c.response.Continues out.2) (hclean : c.response.Clean out) :
    Settles c { c with response := out.2 } (failure? out.1) := by
  refine ⟨.of_fixed rfl hc, requestSide_withResponse hc.engine, fun ho => hclean ?_⟩
  rcases out with ⟨fault | _, r⟩
  · cases ho
  · rfl

/-- The request of `c` ends by one release, after some last work on the response. -/
def EndsAs (c e : Context) : Prop := ∃ d outcome, Settles c d outcome ∧ e = d.release outcome

theorem EndsAs.after {b c e : Context} (h : EndsAs c e) (hbc : Continues b c)
    (hside : c.requestSide = b.requestSide) (hs : c.response.sink = b.response.sink) :
    EndsAs b e := by
  obtain ⟨d, outcome, hd, he⟩ := h
  exact ⟨d, outcome, hd.after hbc hside hs, he⟩

theorem endsAs_release (c : Context) (outcome : Option Fault) : EndsAs c (c.release outcome) :=
  ⟨c, outcome, .refl c outcome, rfl⟩

theorem endsAs_endWith (c : Context) {out : Except Fault Unit × Response}
    (hc : c.response.Continues out.2) (hclean : c.response.Clean out) :
    EndsAs c ({ c with response := out.2 }.endWith out.1) :=
  ⟨_, _, settles_of_clean c hc hclean, endWith_eq _ _⟩

theorem endsAs_putOut (c : Context) (data : Bytes) : EndsAs c (c.putOut data) :=
  endsAs_endWith c (c.response.continues_send data) (c.response.clean_send data)

theorem endsAs_copyOut (c : Context) (source : Source) : EndsAs c (c.copyOut source) := by
  rw [copyOut_eq]
  exact endsAs_endWith c (continues_copied c source) (clean_copied c source)

theorem sink_announceRange (c : Context) (range : ByteRange) :
    (c.announceRange range).response.sink = c.response.sink := by
  unfold announceRange
  split <;> rfl

theorem endsAs_copyWindow (c : Context) (window : Except Fault Source) :
    EndsAs c (c.copyWindow window) := by
  cases window with
  | ok window => exact endsAs_copyOut c window
  | error cause =>
    rw [copyWindow, endWith_eq]
    exact endsAs_release c _

theorem endsAs_sendSource (c : Context) (source : Source) : EndsAs c (c.sendSource source) := by
  unfold sendSource
  split
  · exact (endsAs_copyWindow _ _).after (continues_announceRange c _)
      (requestSide_announceRange c _) (sink_announceRange c _)
  · exact (endsAs_copyOut _ source).after (.of_head rfl rfl) rfl rfl

theorem endsAs_sendFile (c : Context) (file : File) : EndsAs c (c.sendFile file) := by
  have hl : Continues c (c.withLength file.length) := .of_head rfl rfl
  unfold sendFile
  split
  · rw [endWith_eq]
    exact endsAs_release c _
  · exact (endsAs_copyWindow _ _).after (hl.trans (continues_announceRange _ _))
      (requestSide_announceRange _ _) (sink_announceRange _ _)

theorem endsAs_send (c : Context) (what : Sending) : EndsAs c (c.send what) := by
  cases what with
  | empty status =>
    have hl : Continues c ((c.withLength 0).setStatus status) := .of_head rfl rfl
    simp only [send, sendEmpty, drop_release]
    exact (endsAs_release _ none).after hl rfl rfl
  | bytes data =>
    have hl : Continues c (c.withLength data.length) := .of_head rfl rfl
    exact (endsAs_putOut _ data).after hl rfl rfl
  | source source => exact endsAs_sendSource c source
  | file file => exact endsAs_sendFile c file

theorem sink_openSender (c : Context) : c.openSender.response.sink = c.response.sink := by
  unfold openSender
  split
  · unfold markAsync
    split <;> rfl
  · rfl

/-! ### The sender -/

theorem response_markAsync (c : Context) : c.markAsync.response = c.response := by
  unfold markAsync
  split <;> rfl

theorem send_of_fault (c : Context) {what : Sending} {cause : Fault} (h : what.fault? = some cause) :
    c.send what = c.release (some cause) := by
  cases what with
  | file file =>
    have hfault : file.metadataFault = some cause := h
    simp only [send, sendFile, hfault]
    exact endWith_eq _ _
  | _ => cases h

/-- A response that is sent at once settles its framing itself, unless it fails before that. -/
theorem send_setChunkedWithoutLength (c : Context) {what : Sending} (h : what.fault? = none) :
    { c with response := c.response.setChunkedWithoutLength }.send what = c.send what := by
  have hl : ∀ n, { c with response := c.response.setChunkedWithoutLength }.withLength n
      = c.withLength n := by
    intro n
    have hr := c.response.head.remove_setChunkedWithoutLength
    simp only [withLength, Response.removeHeader, Response.setChunkedWithoutLength, hr]
  cases what with
  | empty status => simp only [send, sendEmpty, hl]
  | bytes data => simp only [send, sendWhole, hl]
  | file file =>
    have hfault : file.metadataFault = none := h
    simp only [send, sendFile, hfault, hl]
  | source source =>
    have hc : c.response.setChunkedWithoutLength.head.contentLength
        = c.response.head.contentLength := c.response.head.contentLength_setChunkedWithoutLength
    have hs := c.response.head.setChunked_setChunkedWithoutLength
    simp only [send, sendSource, hc]
    split
    · -- with a length announced there was nothing to settle
      rename_i n hn
      have he : c.response.setChunkedWithoutLength = c.response := by
        simp only [Response.setChunkedWithoutLength, ResponseHead.setChunkedWithoutLength, hn,
          Option.isNone_some, Bool.false_eq_true, ↓reduceIte]
      rw [he]
    · simp only [Response.removeHeader, Response.setChunked, Response.setChunkedWithoutLength, hs]

/-- A sender that is used sends what its context would have sent. -/
theorem send_openSender (c : Context) {what : Sending} (h : what.fault? = none) :
    ∃ d : Context, (d = c ∨ d = c.markAsync) ∧ c.openSender.send what = d.send what := by
  unfold openSender
  split
  · refine ⟨c.markAsync, .inr rfl, ?_⟩
    have hm : { c with response := c.response.setChunkedWithoutLength }.markAsync
        = { c.markAsync with response := c.markAsync.response.setChunkedWithoutLength } := by
      unfold markAsync
      split <;> rfl
    rw [hm, send_setChunkedWithoutLength _ h]
  · exact ⟨c, .inl rfl, rfl⟩

end Context

namespace Script

open Context (Continues EndsAs)

theorem endsAs_apply (c : Context) (ending : Ending) : EndsAs c (ending.apply c) := by
  cases ending with
  | send what => exact c.endsAs_send what
  | sender what =>
    have hc := c.continues_openSender
    have hside := c.requestSide_openSender
    have hs := c.sink_openSender
    cases what with
    | none => exact (Context.endsAs_release _ none).after hc hside hs
    | some what => exact (Context.endsAs_send _ what).after hc hside hs
  | drop => exact c.endsAs_release none
  | abort cause =>
    -- the drop that follows finds the request ended
    simp only [Ending.apply, Context.drop_release]
    exact c.endsAs_release (some cause)

/-- What is sent through a sender goes out as if it were sent at once. -/
theorem apply_of_sending {c : Context} {ending : Ending} {what : Sending}
    (he : ending = .send what ∨ ending = .sender (some what)) (hf : what.fault? = none) :
    ∃ d, Continues c d ∧ d.response = c.response ∧ ending.apply c = d.send what := by
  rcases he with rfl | rfl
  · exact ⟨c, .refl c, rfl, rfl⟩
  · obtain ⟨d, rfl | rfl, hsend⟩ := c.send_openSender hf
    · exact ⟨d, .refl d, rfl, hsend⟩
    · exact ⟨c.markAsync, c.continues_markAsync, c.response_markAsync, hsend⟩

/-! ### The way to the ending -/

/-- The handler when its ending begins, and that ending. -/
def arrive (h : Handler) : List Step → Handler × Ending
  | [] => (h, .drop)
  | .finish ending :: _ => (h, ending)
  | .act action :: rest => arrive (act h action).2 rest
  | .dispatch executor :: rest => arrive (dispatch h executor).2 rest
  | .detach :: rest => arrive (detach h).2 rest

/-- What each action keeps, and passing the context on keeps, still holds on arrival. -/
theorem arrive_induction {P : Handler → Prop} {steps : List Step}
    (hact : ∀ h action, .act action ∈ steps → P h → P (act h action).2)
    (hdispatch : ∀ h executor, P h → P (dispatch h executor).2)
    (hdetach : ∀ h, P h → P (detach h).2) {h : Handler} (hp : P h) : P (arrive h steps).1 := by
  fun_induction arrive h steps with
  | case1 => exact hp
  | case2 => exact hp
  | case3 h action rest ih =>
    exact ih (fun g act hm => hact g act (List.mem_cons_of_mem _ hm))
      (hact h action List.mem_cons_self hp)
  | case4 h executor rest ih =>
    exact ih (fun g act hm => hact g act (List.mem_cons_of_mem _ hm)) (hdispatch h executor hp)
  | case5 h rest ih =>
    exact ih (fun g act hm => hact g act (List.mem_cons_of_mem _ hm)) (hdetach h hp)

/-- A run applies the ending that it arrives at. -/
theorem run_eq_apply (h : Handler) (steps : List Step) :
    (run h steps).2.context = (arrive h steps).2.apply (arrive h steps).1.context := by
  fun_induction arrive h steps with
  | case1 => rfl
  | case2 => rfl
  | case3 h action rest ih => exact ih
  | case4 h executor rest ih => exact ih
  | case5 h rest ih => exact ih

/-- Steps that have no ending among them come to the one that is put behind them. -/
theorem arrive_append_finish {h : Handler} {steps : List Step}
    (hsteps : ∀ ending, .finish ending ∉ steps) (ending : Ending) :
    arrive h (steps ++ [.finish ending]) = ((arrive h steps).1, ending) := by
  fun_induction arrive h steps with
  | case1 => rfl
  | case2 h ending' rest => exact absurd List.mem_cons_self (hsteps ending')
  | case3 h action rest ih => exact ih fun e he => hsteps e (List.mem_cons_of_mem _ he)
  | case4 h executor rest ih => exact ih fun e he => hsteps e (List.mem_cons_of_mem _ he)
  | case5 h rest ih => exact ih fun e he => hsteps e (List.mem_cons_of_mem _ he)

theorem context_run_append_finish {h : Handler} {steps : List Step}
    (hsteps : ∀ ending, .finish ending ∉ steps) (ending : Ending) :
    (run h (steps ++ [.finish ending])).2.context = ending.apply (arrive h steps).1.context := by
  rw [run_eq_apply, arrive_append_finish hsteps]

/-- The listeners that a step asks to be told. -/
def Action.listeners : Action → List String
  | addListener listener => [listener]
  | _ => []

/-- The listeners that the steps ask to be told before the request ends. -/
def listeners : List Step → List String
  | [] => []
  | .finish _ :: _ => []
  | .act action :: rest => action.listeners ++ listeners rest
  | .dispatch _ :: rest => listeners rest
  | .detach :: rest => listeners rest

/-- The context with more listeners. -/
def withListeners (c : Context) (more : List String) : Context :=
  { c with listeners := c.listeners ++ more }

theorem withListeners_nil (c : Context) : withListeners c [] = c := by
  rw [withListeners, List.append_nil]

/-- A step lets the request go on, and nothing but its listeners are added. -/
theorem continues_act (h : Handler) (action : Action) :
    Continues (withListeners h.context action.listeners) (act h action).2.context := by
  -- the edits of the head and of the values that a context holds are all alike
  cases action <;> simp only [Action.listeners, withListeners_nil]
  case addListener listener => exact .refl _
  case body use => exact .of_fixed rfl (.of_edit rfl rfl (fun _ => rfl) rfl rfl)
  case form => exact h.context.continues_form
  case multipart => exact h.context.continues_multipart
  case defaultType type => exact h.context.continues_defaultType type
  case stream items whole =>
    have ho : Continues h.context h.context.openStream :=
      .of_fixed rfl (.of_edit rfl rfl (fun _ => rfl) rfl rfl)
    exact ho.trans (continues_writeOut _ items whole)
  case writer type charset items whole =>
    have ho : Continues h.context (h.context.openWriter type charset) :=
      .of_fixed rfl (.of_edit rfl rfl (fun _ => rfl) rfl rfl)
    exact ho.trans (continues_writeOut _ items whole)
  case destroyUpload index =>
    simp only [act]
    split
    · exact .refl _
    · exact .of_head rfl rfl
  case removeFile index =>
    simp only [act]
    split
    · exact .refl _
    · exact .of_head rfl rfl
  -- an attribute is only looked up, whether it is found or not
  all_goals first
    | exact .of_head rfl rfl
    | simp only [act]
      split <;> exact .refl _

/-- The action asks for the request, its body or its files. -/
def Action.asksRequest : Action → Bool
  | query | headers | header _ | form | multipart | body _ | destroyUpload _ | removeFile _ => true
  | _ => false

/-- The other actions leave all that is known of the request. -/
theorem requestSide_act (h : Handler) {action : Action} (ha : action.asksRequest = false) :
    (act h action).2.context.requestSide = h.context.requestSide
      ∧ (act h action).2.kept = h.kept := by
  cases action
  case defaultType type =>
    refine ⟨?_, rfl⟩
    show (h.context.defaultType type).requestSide = _
    unfold Context.defaultType
    split <;> rfl
  case stream items whole =>
    exact ⟨Context.requestSide_withResponse (continues_writeItems whole items _).engine, rfl⟩
  case writer type charset items whole =>
    exact ⟨Context.requestSide_withResponse (c := h.context.openWriter type charset)
      (continues_writeItems whole items _).engine, rfl⟩
  -- an attribute is only looked up, whether it is found or not
  all_goals first
    | exact ⟨rfl, rfl⟩
    | simp only [act]
      split <;> exact ⟨rfl, rfl⟩
    | cases ha

theorem requestSide_dispatch (h : Handler) (executor : Option Executor) :
    (dispatch h executor).2.context.requestSide = h.context.requestSide := by
  cases executor with
  | some executor => exact h.context.requestSide_passTo executor
  | none => exact h.context.requestSide_passTo h.context.router.worker

theorem requestSide_detach (h : Handler) :
    (detach h).2.context.requestSide = h.context.requestSide :=
  h.context.requestSide_markAsync

theorem continues_dispatch (h : Handler) (executor : Option Executor) :
    Continues h.context (dispatch h executor).2.context := by
  cases executor with
  | some executor => exact h.context.continues_passTo executor
  | none => exact h.context.continues_passTo h.context.router.worker

theorem continues_detach (h : Handler) : Continues h.context (detach h).2.context :=
  h.context.continues_markAsync

/-- The listeners that were added on the way are all that has changed besides. -/
theorem continues_arrive (h : Handler) (steps : List Step) :
    Continues (withListeners h.context (listeners steps)) (arrive h steps).1.context := by
  have apart : ∀ {c d : Context} (more : List String), Continues c d →
      Continues (withListeners c more) (withListeners d more) := by
    intro c d more hc
    exact { hc with listeners := congrArg (· ++ more) hc.listeners }
  -- listeners that later steps add make no difference to an earlier one
  fun_induction arrive h steps with
  | case1 h => simpa only [listeners, withListeners_nil] using Continues.refl h.context
  | case2 h => simpa only [listeners, withListeners_nil] using Continues.refl h.context
  | case3 h action rest ih =>
    have ha := (apart (listeners rest) (continues_act h action)).trans ih
    simpa only [withListeners, listeners, List.append_assoc] using ha
  | case4 h executor rest ih =>
    exact (apart (listeners rest) (continues_dispatch h executor)).trans ih
  | case5 h rest ih => exact (apart (listeners rest) (continues_detach h)).trans ih

end Script

end HttpContext
