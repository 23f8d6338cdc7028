import HttpContext.Context.Release
/-!
What the end of a request leaves behind. `release_eq` gives the whole context; `farewell` is the
part of its history that the end adds: the failure, the uploads, the close, the listeners.
-/
namespace HttpContext

namespace Spool

/-- Destroys uploads one after the other. -/
def destroyAll (s : Spool) (uploads : List Upload) : Spool :=
  uploads.foldl (fun s upload => (s.destroy upload).2) s

/-- What destroying each of the uploads fails with. -/
def destructions (s : Spool) : List Upload → List (Upload × Option Fault)
  | [] => []
  | upload :: rest =>
    (upload, failure? (s.destroy upload).1) :: destructions (s.destroy upload).2 rest

theorem map_fst_destructions (s : Spool) (uploads : List Upload) :
    (s.destructions uploads).map Prod.fst = uploads := by
  induction uploads generalizing s with
  | nil => rfl
  | cons upload rest ih => simp only [destructions, List.map_cons, ih]

/-- Destroying one upload destroys no other and brings none back. -/
theorem isDestroyed_destroy (s : Spool) (u v : Upload) :
    (s.destroy u).2.isDestroyed v = (decide (u.id = v.id) || s.isDestroyed v) := by
  unfold isDestroyed storage destroy setStorage
  simp only [List.getElem?_modify]
  by_cases hid : u.id = v.id
  · cases h : s.cells[v.id]? <;> simp [hid]
  · cases h : s.cells[v.id]? <;> simp [hid]

theorem isDestroyed_destroyAll_of_isDestroyed {s : Spool} {v : Upload}
    (h : s.isDestroyed v = true) (uploads : List Upload) :
    (s.destroyAll uploads).isDestroyed v = true := by
  induction uploads generalizing s with
  | nil => exact h
  | cons u rest ih =>
    apply ih
    rw [isDestroyed_destroy, h, Bool.or_true]

theorem isDestroyed_destroyAll (s : Spool) {uploads : List Upload} {v : Upload}
    (hv : v ∈ uploads) : (s.destroyAll uploads).isDestroyed v = true := by
  -- the upload is destroyed at its turn, and stays so while the others are
  induction uploads generalizing s with
  | nil => cases hv
  | cons u rest ih =>
    rcases List.mem_cons.1 hv with rfl | hr
    · have hd : (s.destroy v).2.isDestroyed v = true := by
        rw [isDestroyed_destroy, decide_eq_true rfl, Bool.true_or]
      exact isDestroyed_destroyAll_of_isDestroyed hd rest
    · exact ih _ hr

theorem storage_destroy_of_ne {u v : Upload} (h : u.id ≠ v.id) (s : Spool) :
    (s.destroy u).2.storage v = s.storage v := by
  unfold storage destroy setStorage
  simp only [List.getElem?_modify, h]
  cases s.cells[v.id]? <;> rfl

theorem failure_destroy (s : Spool) (u : Upload) :
    failure? (s.destroy u).1 = if s.storage u = .missing then some (.system .notFound) else none := by
  unfold destroy
  cases s.storage u <;> rfl

/-- Uploads that are distinct are destroyed each on its own: those fail whose file was gone. -/
theorem filterMap_destructions {uploads : List Upload} (hd : (uploads.map Upload.id).Nodup)
    (s : Spool) :
    (s.destructions uploads).filterMap (fun d => d.2.map (d.1, ·))
      = (uploads.filter fun u => s.storage u = .missing).map (·, .system .notFound) := by
  induction uploads generalizing s with
  | nil => rfl
  | cons u rest ih =>
    obtain ⟨hu, hrest⟩ := List.nodup_cons.1 hd
    have hkept : ∀ v ∈ rest, (s.destroy u).2.storage v = s.storage v := by
      intro v hv
      refine storage_destroy_of_ne (fun hid => hu ?_) s
      rw [hid]
      exact List.mem_map_of_mem hv
    have hothers : rest.filter (fun v => (s.destroy u).2.storage v = .missing)
        = rest.filter fun v => s.storage v = .missing :=
      List.filter_congr fun v hv => by rw [hkept v hv]
    rw [destructions, List.filterMap_cons, ih hrest, hothers, failure_destroy]
    by_cases hmissing : s.storage u = .missing <;> simp [hmissing]

end Spool

namespace Context

/-- The end of the history: nothing but this is added to it when the request ends. -/
def farewell (c : Context) (cause : Option Fault) : List Event :=
  cause.toList.map .failed
    ++ (c.spool.destructions c.uploads).map (fun d => .uploadDestroyed d.1 d.2)
    ++ .closed cause.isSome (failure? (c.response.close cause.isSome).1)
    :: c.listeners.map fun listener => .told listener cause

theorem foldl_destroyUpload (c : Context) (uploads : List Upload) :
    uploads.foldl destroyUpload c =
      { c with
        spool := c.spool.destroyAll uploads
        history := c.history
          ++ (c.spool.destructions uploads).map fun d => .uploadDestroyed d.1 d.2 } := by
  induction uploads generalizing c with
  | nil => simp only [List.foldl_nil, Spool.destroyAll, Spool.destructions, List.map_nil,
      List.append_nil]
  | cons upload rest ih =>
    rw [List.foldl_cons, ih]
    simp only [destroyUpload, note, Spool.destroyAll, Spool.destructions, List.foldl_cons,
      List.map_cons, List.append_assoc, List.cons_append, List.nil_append]

theorem noteFailure_eq (c : Context) (cause : Option Fault) :
    c.noteFailure cause = { c with history := c.history ++ cause.toList.map .failed } := by
  cases cause with
  | none => simp only [noteFailure, Option.toList_none, List.map_nil, List.append_nil]
  | some cause => rfl

/-- The context after the end of its request. -/
theorem release_eq {c : Context} (h : c.isReleased = false) (cause : Option Fault) :
    c.release cause =
      { c with
        isReleased := true
        uploads := []
        listeners := []
        spool := c.spool.destroyAll c.uploads
        response := (c.response.close cause.isSome).2
        request := { c.request with asyncIsDone := c.request.asyncIsDone || c.request.isAsync }
        history := c.history ++ c.farewell cause } := by
  simp only [release, h, noteFailure_eq, destroyUploads, foldl_destroyUpload, closeResponse, note,
    tellListeners, farewell, Bool.false_eq_true, ↓reduceIte, List.append_assoc, List.cons_append,
    List.nil_append]

theorem isReleased_release (c : Context) (cause : Option Fault) :
    (c.release cause).isReleased = true := by
  cases h : c.isReleased with
  | true => rw [release_of_isReleased h, h]
  | false => rw [release_eq h]

/-- The request that has ended does not end again when its context is let go of. -/
@[simp] theorem drop_release (c : Context) (cause : Option Fault) :
    (c.release cause).drop = c.release cause :=
  release_of_isReleased (isReleased_release c cause) none

theorem endWith_eq (c : Context) (result : Except Fault Unit) :
    c.endWith result = c.release (failure? result) :=
  drop_release c _

theorem response_release {c : Context} (h : c.isReleased = false) (cause : Option Fault) :
    (c.release cause).response = (c.response.close cause.isSome).2 := by
  rw [release_eq h]

/-- A response that is broken off gets no more bytes. -/
theorem wire_release_failed {c : Context} (h : c.isReleased = false) (cause : Fault) :
    (c.release (some cause)).response.wire = c.response.wire := by
  rw [response_release h, Response.close]
  split
  · rfl
  · exact c.response.sink.wire_flush

theorem history_release {c : Context} (h : c.isReleased = false) (cause : Option Fault) :
    (c.release cause).history = c.history ++ c.farewell cause := by
  rw [release_eq h]

/-- What an observer sees of the end who looks at neither the uploads nor the close. -/
theorem filterMap_farewell {α : Type} {f : Event → Option α}
    (hd : ∀ upload failure, f (.uploadDestroyed upload failure) = none)
    (hc : ∀ aborted failure, f (.closed aborted failure) = none) (c : Context)
    (cause : Option Fault) :
    (c.farewell cause).filterMap f = cause.toList.filterMap (fun fault => f (.failed fault))
      ++ c.listeners.filterMap fun listener => f (.told listener cause) := by
  have hnone : ((c.spool.destructions c.uploads).map fun d =>
      Event.uploadDestroyed d.1 d.2).filterMap f = [] := by
    rw [List.filterMap_eq_nil_iff]
    intro event he
    obtain ⟨d, _, rfl⟩ := List.mem_map.1 he
    exact hd d.1 d.2
  rw [farewell, List.filterMap_append, List.filterMap_append, hnone, List.append_nil,
    List.filterMap_cons, hc, List.filterMap_map, List.filterMap_map]
  rfl

/-- Only the listeners of the context are told its end. -/
theorem filterMap_completion_farewell (c : Context) (cause : Option Fault) :
    (c.farewell cause).filterMap Event.completion? =
      c.listeners.map fun listener => (listener, cause) := by
  rw [filterMap_farewell (fun _ _ => rfl) (fun _ _ => rfl)]
  have hf : cause.toList.filterMap (fun fault => Event.completion? (.failed fault)) = [] :=
    List.filterMap_eq_nil_iff.2 fun _ _ => rfl
  rw [hf, List.nil_append]
  exact congrFun (List.filterMap_eq_map (f := fun listener => (listener, cause))) c.listeners

theorem completions_release {c : Context} (h : c.isReleased = false) (cause : Option Fault) :
    (c.release cause).completions =
      c.completions ++ c.listeners.map fun listener => (listener, cause) := by
  simp only [completions, history_release h, List.filterMap_append, filterMap_completion_farewell]

end Context

end HttpContext
