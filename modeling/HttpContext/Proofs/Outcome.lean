import HttpContext.Proofs.Teardown
/-!
What the outcome of a request says about the connection. A request that is reported as a success
has met no failure of the connection on its way out, except perhaps while it was closed: that
failure comes too late for the listeners and goes to the log.
-/
namespace HttpContext

namespace Context

/-- The record that a failing close leaves. -/
def closingRecord (engine : Engine) (s : Subject) (cause : Fault) : Record where
  level := .debug
  text := (match engine with
    | .stream => "close output failed "
    | .callback => "end exchange failed ") ++ s.text ++ ": " ++ cause.text

variable {c : Context}

theorem mem_log_of_closed {aborted : Bool} {cause : Fault}
    (h : .closed aborted (some cause) ∈ c.history) :
    closingRecord c.engine c.subject cause ∈ c.log := by
  refine List.mem_filterMap.2 ⟨_, h, ?_⟩
  cases he : c.engine <;> rfl

theorem closed_mem_release (h : c.isReleased = false) (cause : Option Fault) :
    .closed cause.isSome (failure? (c.response.close cause.isSome).1)
      ∈ (c.release cause).history := by
  rw [history_release h, farewell]
  exact List.mem_append_right _ (List.mem_append_right _ List.mem_cons_self)

/-- The end of a request adds the failure of its close to those of the connection. -/
theorem failures_release (h : c.isReleased = false) (cause : Option Fault) :
    (c.release cause).response.sink.failures
      = (failure? (c.response.close cause.isSome).1).toList ++ c.response.sink.failures := by
  rw [response_release h]
  exact c.response.reports_close cause.isSome

end Context

namespace Script

open Context

/-- When a listener is told a success, no write and no flush of the ending has failed, except
perhaps one with which the close broke off. That one is in the log. An attempt that was made again
does not count as a failure of its write; it had been interrupted. -/
theorem failures_of_success (engine : Engine) (router : Router) (io : Executor)
    (request : Request) (sink : Sink) (spool : Spool) (steps : List Step) {listener : String}
    (h : (listener, none)
      ∈ (serve engine router io request sink spool steps).2.context.completions) :
    let arrived := (arrive ⟨.start engine router io request sink spool, none⟩ steps).1.context
    let c := (serve engine router io request sink spool steps).2.context
    ∃ closing : Option Fault, .closed false closing ∈ c.history
      ∧ c.response.sink.failures = closing.toList ++ arrived.response.sink.failures
      ∧ (∀ cause ∈ closing, closingRecord c.engine c.subject cause ∈ c.log)
      ∧ (sink.Resumes → c.response.sink.Resumes) := by
  intro arrived c
  obtain ⟨d, outcome, hend, hongoing, hcontinues, hsettles⟩ :=
    serve_eq_release engine router io request sink spool steps
  have hcd : c = d.release outcome := hend
  -- all listeners are told the same, so one success means that the request had no failure
  have hsuccess : outcome = none := by
    have hmem : (listener, none) ∈ (d.release outcome).completions := hcd ▸ h
    rw [hongoing.completions_release] at hmem
    obtain ⟨_, _, htold⟩ := List.mem_map.1 hmem
    exact congrArg Prod.snd htold
  subst hsuccess
  have hclosed : .closed false (failure? (d.response.close false).1) ∈ c.history := by
    rw [hcd]
    exact closed_mem_release hongoing.isReleased none
  refine ⟨failure? (d.response.close false).1, hclosed, ?_, ?_, fun hresumes => ?_⟩
  · rw [hcd, failures_release hongoing.isReleased, hsettles.clean rfl]
    rfl
  · intro cause hcause
    rw [Option.mem_def.1 hcause] at hclosed
    exact mem_log_of_closed hclosed
  · rw [hcd, response_release hongoing.isReleased]
    exact Response.resumes_close (hcontinues.response.resumes hresumes) false

/-- Without room for the head of a response that has no body, its listener is told a success. -/
theorem status_without_room :
    let c := (serve .stream { config := .default ⟨"/tmp", 1⟩, worker := .sameThread 0 }
      (.ioThread 1 "io") { head := { method := .get, path := "/" }, input := none }
      { room := some 0 } {}
      [.act (.addListener "end"), .finish (.send (.empty .noContent))]).2.context
    c.completions = [("end", none)] ∧ c.response.sink.failures = [.writeZero]
      ∧ c.response.wire = [] := by
  decide +kernel

/-- The same response where there is room for it, though its first write is interrupted. -/
theorem failures_of_success_status :
    let router : Router := { config := .default ⟨"/tmp", 1⟩, worker := .sameThread 0 }
    let io : Executor := .ioThread 1 "io"
    let request : Request := { head := { method := .get, path := "/" }, input := none }
    let interruption : Fault := .external .interrupted none
    let sink : Sink := { refusals := [(3, .fault interruption)] }
    let steps := [.act (.addListener "end"), .finish (.send (.empty .noContent))]
    let arrived := (arrive ⟨.start .stream router io request sink {}, none⟩ steps).1.context
    let c := (serve .stream router io request sink {} steps).2.context
    c.response.sink.failures = [] ∧ c.response.sink.interruptions = [interruption]
      ∧ ∃ closing : Option Fault, .closed false closing ∈ c.history
        ∧ c.response.sink.failures = closing.toList ++ arrived.response.sink.failures
        ∧ (∀ cause ∈ closing, closingRecord c.engine c.subject cause ∈ c.log)
        ∧ (sink.Resumes → c.response.sink.Resumes) := by
  intro router io request interruption sink steps arrived c
  exact ⟨by decide +kernel, by decide +kernel,
    failures_of_success .stream _ _ _ _ _ _ (show ("end", none) ∈ _ by decide +kernel)⟩

end Script

end HttpContext
