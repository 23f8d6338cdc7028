import HttpContext.Proofs.Endings
/-!
A request ends exactly once. Until its ending begins it is `Ongoing`; after that its history has
grown by one farewell, and neither the handler's last operation nor the drop of the context adds a
second one.
-/
namespace HttpContext

namespace Context

/-- Nothing of the end has happened yet. -/
structure Ongoing (c : Context) : Prop where
  isReleased : c.isReleased = false
  isClosed : c.response.isClosed = false
  uploads : c.uploads = c.registered
  history : ∀ event ∈ c.history, event.isHop = true

theorem Ongoing.of_continues {c d : Context} (h : Ongoing c) (hcd : Continues c d) : Ongoing d := by
  obtain ⟨hops, hhistory, hhops⟩ := hcd.history
  refine ⟨hcd.isReleased.trans h.isReleased, hcd.response.isClosed.trans h.isClosed,
    hcd.uploads h.uploads, ?_⟩
  intro event he
  rw [hhistory] at he
  rcases List.mem_append.1 he with hold | hnew
  · exact h.history event hold
  · exact hhops event hnew

/-! ### The record of the failure -/

/-- The failure that an event says the request ends with. -/
def Event.failure? : Event → Option Fault
  | failed cause => some cause
  | _ => none

/-- The record that a failure leaves: a peer that went away is no error of the server. -/
def failureRecord (s : Subject) (cause : Fault) : Record where
  level := if cause.isPeerGone then .debug else .error
  text := "exception found while sending response " ++ s.text ++ ": " ++ cause.text

/-- The record is about the failure that the request ended with. -/
def isOfFailure (r : Record) : Bool :=
  "exception found while sending response".toList.isPrefixOf r.text.toList

theorem isOfFailure_append (level : Level) (front rest : String) :
    isOfFailure ⟨level, front ++ rest⟩ = "exception found while sending response".toList.isPrefixOf
      (front.toList ++ rest.toList) := by
  rw [isOfFailure, String.toList_append]

theorem isOfFailure_failureRecord (s : Subject) (cause : Fault) :
    isOfFailure (failureRecord s cause) = true := by
  simp only [failureRecord, String.append_assoc, isOfFailure_append]
  rfl

/-- No other event leaves such a record. -/
theorem filter_record? (engine : Engine) (s : Subject) (event : Event) :
    (event.record? engine s).filter isOfFailure = event.failure?.map (failureRecord s) := by
  -- the constant front of each text decides, whatever names and causes follow it
  cases event with
  | failed cause =>
    have hr : (Event.failed cause).record? engine s = some (failureRecord s cause) := rfl
    rw [hr, Option.filter_some, isOfFailure_failureRecord]
    rfl
  | wentAsync =>
    cases engine <;> simp only [Event.record?, Option.filter_some, isOfFailure_append] <;> rfl
  | handedOver executor =>
    simp only [Event.record?, Option.filter_some, String.append_assoc, isOfFailure_append]
    rfl
  | uploadDestroyed upload failure =>
    cases failure with
    | none => rfl
    | some cause =>
      simp only [Event.record?, Option.map_some, Option.filter_some, String.append_assoc,
        isOfFailure_append]
      rfl
  | closed aborted failure =>
    cases failure with
    | none => rfl
    | some cause =>
      cases engine <;>
        simp only [Event.record?, Option.map_some, Option.filter_some, String.append_assoc,
          isOfFailure_append] <;>
        rfl
  | told listener outcome => rfl

/-- Which records there are of a kind is read off the events that leave them. -/
theorem filter_log_of_record? {α : Type} {c : Context} {p : Record → Bool} {f : Event → Option α}
    {g : α → Record}
    (h : ∀ event, (event.record? c.engine c.subject).filter p = (f event).map g) :
    c.log.filter p = (c.history.filterMap f).map g := by
  rw [log, List.filter_filterMap, funext h, List.map_filterMap]

theorem filter_log (c : Context) :
    c.log.filter isOfFailure
      = (c.history.filterMap Event.failure?).map (failureRecord c.subject) :=
  filter_log_of_record? (filter_record? c.engine c.subject)

theorem filterMap_failure_farewell (c : Context) (cause : Option Fault) :
    (c.farewell cause).filterMap Event.failure? = cause.toList := by
  rw [filterMap_farewell (fun _ _ => rfl) (fun _ _ => rfl)]
  have ht : c.listeners.filterMap (fun listener => Event.failure? (.told listener cause)) = [] :=
    List.filterMap_eq_nil_iff.2 fun _ _ => rfl
  have hf : cause.toList.filterMap (fun fault => Event.failure? (.failed fault)) = cause.toList :=
    List.filterMap_some
  rw [ht, hf, List.append_nil]

/-! ### The end of an ongoing request -/

variable {c : Context}

/-- While the request goes on there is nothing for an observer who does not look at hops. -/
theorem Ongoing.filterMap_history (h : Ongoing c) {α : Type} {f : Event → Option α}
    (ha : f .wentAsync = none) (ho : ∀ executor, f (.handedOver executor) = none) :
    c.history.filterMap f = [] := by
  apply List.filterMap_eq_nil_iff.2
  intro event he
  have hop := h.history event he
  cases event with
  | wentAsync => exact ha
  | handedOver executor => exact ho executor
  | _ => cases hop

theorem Ongoing.completions (h : Ongoing c) : c.completions = [] :=
  h.filterMap_history rfl fun _ => rfl

theorem Ongoing.failures (h : Ongoing c) : c.history.filterMap Event.failure? = [] :=
  h.filterMap_history rfl fun _ => rfl

theorem Ongoing.completions_release (h : Ongoing c) (outcome : Option Fault) :
    (c.release outcome).completions = c.listeners.map (·, outcome) := by
  rw [Context.completions_release h.isReleased, h.completions, List.nil_append]

/-- A failure is logged once, and a request that succeeds has none. -/
theorem Ongoing.log_release (h : Ongoing c) (outcome : Option Fault) :
    (c.release outcome).log.filter isOfFailure
      = outcome.toList.map (failureRecord c.subject) := by
  have hs : (c.release outcome).subject = c.subject := by rw [release_eq h.isReleased]; rfl
  rw [filter_log, hs, history_release h.isReleased, List.filterMap_append, h.failures,
    filterMap_failure_farewell, List.nil_append]

theorem Ongoing.registered_release (h : Ongoing c) (outcome : Option Fault) :
    (c.release outcome).registered = c.uploads := by
  rw [h.uploads, release_eq h.isReleased]
  rfl

/-- Every upload of the request is destroyed by its end. -/
theorem Ongoing.isDestroyed_release (h : Ongoing c) (outcome : Option Fault) {upload : Upload}
    (hu : upload ∈ (c.release outcome).registered) :
    (c.release outcome).spool.isDestroyed upload = true := by
  rw [h.registered_release] at hu
  rw [release_eq h.isReleased]
  exact c.spool.isDestroyed_destroyAll hu

/-- A response that is broken off is only flushed. -/
theorem response_release_failed (hc : Ongoing c) (cause : Fault) :
    (c.release (some cause)).response = { c.response with isClosed := true }.flushSink.2 := by
  rw [response_release hc.isReleased]
  simp only [Option.isSome_some, Response.close, hc.isClosed, Bool.false_eq_true, ↓reduceIte]

theorem head_release_failed (hc : Ongoing c) (cause : Fault) :
    (c.release (some cause)).response.head = c.response.head := by
  rw [response_release_failed hc]
  rfl

end Context

namespace Script

open Context

/-- The request goes on until its ending begins. -/
theorem ongoing_arrive (engine : Engine) (router : Router) (io : Executor) (request : Request)
    (sink : Sink) (spool : Spool) (steps : List Step) :
    Ongoing (arrive ⟨.start engine router io request sink spool, none⟩ steps).1.context := by
  have hfresh : Ongoing (withListeners (.start engine router io request sink spool)
      (listeners steps)) := ⟨rfl, rfl, rfl, fun _ he => nomatch he⟩
  exact hfresh.of_continues (continues_arrive ⟨_, none⟩ steps)

/-- A handler ends its request with one release, until which the request has been going on. -/
theorem serve_eq_release (engine : Engine) (router : Router) (io : Executor) (request : Request)
    (sink : Sink) (spool : Spool) (steps : List Step) :
    let fresh : Context := .start engine router io request sink spool
    ∃ (d : Context) (outcome : Option Fault),
      (serve engine router io request sink spool steps).2.context = d.release outcome
        ∧ Ongoing d
        ∧ Continues (withListeners fresh (listeners steps)) d
        ∧ Settles (arrive ⟨fresh, none⟩ steps).1.context d outcome := by
  intro fresh
  have hongoing := ongoing_arrive engine router io request sink spool steps
  have harrive := continues_arrive ⟨fresh, none⟩ steps
  obtain ⟨d, outcome, hd, he⟩ := endsAs_apply (arrive ⟨fresh, none⟩ steps).1.context
    (arrive ⟨fresh, none⟩ steps).2
  exact ⟨d, outcome, (run_eq_apply _ steps).trans he, hongoing.of_continues hd.toContinues,
    harrive.trans hd.toContinues, hd⟩

/-- Whatever a handler does and however it ends, its request ends once: the failure is noted if
there is one, every upload is destroyed, the response is closed, and then every listener is told the
outcome, in the order in which they were added. The failure leaves exactly one record. -/
theorem serve_ends_once (engine : Engine) (router : Router) (io : Executor) (request : Request)
    (sink : Sink) (spool : Spool) (steps : List Step) :
    let c := (serve engine router io request sink spool steps).2.context
    ∃ (outcome closing : Option Fault) (hops : List Event)
      (destroyed : List (Upload × Option Fault)),
      c.history = hops ++ (outcome.toList.map .failed
          ++ destroyed.map (fun d => .uploadDestroyed d.1 d.2)
          ++ .closed outcome.isSome closing
          :: (listeners steps).map fun listener => .told listener outcome)
        ∧ (∀ event ∈ hops, event.isHop = true)
        ∧ destroyed.map Prod.fst = c.registered
        ∧ (∀ upload ∈ c.registered, c.spool.isDestroyed upload = true)
        ∧ c.response.isClosed = true
        ∧ c.completions = (listeners steps).map (·, outcome)
        ∧ c.log.filter isOfFailure
            = outcome.toList.map (failureRecord ⟨request.head.method.name, request.head.path⟩) := by
  intro c
  obtain ⟨d, outcome, hend, hongoing, hcontinues, _⟩ :=
    serve_eq_release engine router io request sink spool steps
  have hcd : c = d.release outcome := hend
  have hlisteners : d.listeners = listeners steps := hcontinues.listeners
  have hsubject : d.subject = ⟨request.head.method.name, request.head.path⟩ := by
    rw [subject, hcontinues.head]
    rfl
  refine ⟨outcome, failure? (d.response.close outcome.isSome).1, d.history,
    d.spool.destructions d.uploads, ?_, hongoing.history, ?_, ?_, ?_, ?_, ?_⟩
  · rw [hcd, history_release hongoing.isReleased, farewell, hlisteners]
  · rw [Spool.map_fst_destructions, hcd, hongoing.registered_release]
  · intro upload hu
    rw [hcd] at hu ⊢
    exact hongoing.isDestroyed_release outcome hu
  · rw [hcd, response_release hongoing.isReleased]
    exact d.response.isClosed_close outcome.isSome
  · rw [hcd, hongoing.completions_release, hlisteners]
  · rw [hcd, hongoing.log_release, hsubject]

end Script

end HttpContext
