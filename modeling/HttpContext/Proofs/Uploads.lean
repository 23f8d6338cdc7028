import HttpContext.Proofs.Spooling
import HttpContext.Proofs.Teardown
/-!
No upload outlives its request. Whatever a handler asks for, keeps or destroys, and whatever files
are taken away behind its back, what a request has left in the spool belongs to the uploads of its
form (`Context.Owns`), and these are destroyed when it ends. Main statement:
`Script.uploads_end_with_request`.
-/
namespace HttpContext

namespace Context

open FormEntry (files)

/-- From cell `n` on, what lies in the spool belongs to the uploads that the request will destroy,
and they are the files of its form. -/
structure Owns (n : Nat) (s : RequestSide) : Prop where
  gone : ∀ i, n ≤ i → s.spool.IsGone i ∨ i ∈ s.uploads.map Upload.id
  distinct : (s.uploads.map Upload.id).Nodup
  registered : s.uploads = (s.multipartMemo.value.map MultipartForm.files).getD []
  /-- entries that were read for another kind of form have no files -/
  unread : s.multipartMemo.value = none →
    ∀ entries, s.entries.value = some entries → files entries = []

/-- A step keeps the ownership, and no upload is forgotten. -/
structure Advances (n : Nat) (s t : RequestSide) : Prop where
  owns : Owns n s → Owns n t
  uploads : s.uploads <+: t.uploads

variable {n : Nat}

theorem Advances.refl (s : RequestSide) : Advances n s s := ⟨id, List.prefix_refl _⟩

theorem Advances.of_eq {s t : RequestSide} (h : t = s) : Advances n s t := by
  rw [h]
  exact .refl s

theorem Advances.trans {s t u : RequestSide} (hst : Advances n s t) (htu : Advances n t u) :
    Advances n s u :=
  ⟨fun h => htu.owns (hst.owns h), hst.uploads.trans htu.uploads⟩

theorem Owns.gone_of_gains {s : RequestSide} (h : Owns n s) {spool : Spool}
    (hg : s.spool.Gains spool []) (i : Nat) (hi : n ≤ i) :
    spool.IsGone i ∨ i ∈ s.uploads.map Upload.id :=
  (h.gone i hi).imp (fun hgone => (hg i hgone).resolve_right (by simp)) id

theorem advances_withSpool {c : Context} {spool : Spool} (hg : c.spool.Gains spool []) :
    Advances n c.requestSide { c with spool }.requestSide :=
  ⟨fun h => { h with gone := h.gone_of_gains hg }, List.prefix_refl _⟩

/-! ### Reading the form -/

variable {s t : RequestSide}

/-- The spool gains nothing, and entries that have been read since have no files. -/
theorem Owns.of_gains (h : Owns n s) (hg : s.spool.Gains t.spool []) (hu : t.uploads = s.uploads)
    (hm : t.multipartMemo = s.multipartMemo)
    (he : ∀ entries, t.entries.value = some entries →
      s.entries.value = some entries ∨ files entries = []) : Owns n t := by
  refine ⟨?_, ?_, ?_, ?_⟩
  · rw [hu]
    exact h.gone_of_gains hg
  · rw [hu]
    exact h.distinct
  · rw [hu, hm]
    exact h.registered
  · intro hnone entries hread
    rw [hm] at hnone
    exact (he entries hread).elim (h.unread hnone entries) id

/-- The files of the form are registered with it. Nothing has been before. -/
theorem Owns.register (h : Owns n s) (hm : s.multipartMemo.value = none) {form : MultipartForm}
    (hform : t.multipartMemo.value = some form) (hu : t.uploads = s.uploads ++ form.files)
    (hext : s.spool.Extends t.spool form.files) : Owns n t := by
  have hempty : s.uploads = [] := by
    rw [h.registered, hm]
    rfl
  rw [hempty, List.nil_append] at hu
  refine ⟨fun i hi => ?_, ?_, ?_, ?_⟩
  · have hgone : s.spool.IsGone i := by
      refine (h.gone i hi).resolve_right ?_
      rw [hempty]
      exact List.not_mem_nil
    rw [hu]
    exact hext.gains i hgone
  · rw [hu]
    exact hext.nodup
  · rw [hu, hform]
    rfl
  · intro hnone
    cases hform.symm.trans hnone

theorem advances_failed {c : Context} {cause : Error} {request : Request} {spool : Spool}
    (hf : c.request.formEntries (some c.limits) c.spool = (.error cause, request, spool)) :
    Advances n c.requestSide { c.query.2 with request, spool }.requestSide := by
  obtain ⟨hentries, hgains⟩ := Request.formEntries_error hf
  have hkept := congrArg Memo.value hentries
  exact ⟨fun h => h.of_gains hgains rfl rfl fun _ hread => .inl (hkept.symm.trans hread),
    List.prefix_refl _⟩

theorem advances_multipart (c : Context) : Advances n c.requestSide c.multipart.2.requestSide := by
  rcases c.multipart_cases with ⟨form, _, hc⟩
    | ⟨hm, request, spool, ⟨cause, hf, hc⟩ | ⟨entries, form, hf, hform, hc⟩⟩ <;> rw [hc]
  · exact ⟨fun h => { h with }, List.prefix_refl _⟩
  · exact advances_failed hf
  · obtain ⟨_, hread⟩ := Request.formEntries_ok hf
    refine ⟨fun h => h.register hm rfl rfl ?_, List.prefix_append _ _⟩
    have hfiles : form.files = files entries := by rw [hform]; rfl
    rw [hfiles]
    -- without a memo, entries that are there already were read for a form without files
    rcases hread with ⟨hkept, rfl⟩ | ⟨_, hextends, _⟩
    · rw [h.unread hm entries hkept]
      exact .refl _
    · exact hextends

theorem advances_form (c : Context) : Advances n c.requestSide c.form.2.requestSide := by
  rcases c.form_cases with ⟨_, hc⟩ | ⟨hkind, ⟨fields, _, hc⟩
    | ⟨_, request, spool, ⟨cause, hf, hc⟩ | ⟨entries, fields, hf, _, hc⟩⟩⟩ <;> rw [hc]
  · exact advances_multipart c
  · exact ⟨fun h => { h with }, List.prefix_refl _⟩
  · exact advances_failed hf
  · -- the form is not multipart, so its entries have no files
    obtain ⟨hentries, hread⟩ := Request.formEntries_ok hf
    have hgains : c.spool.Gains spool [] := by
      rcases hread with ⟨_, rfl⟩ | ⟨_, hextends, hnone⟩
      · exact .refl c.spool
      · rw [hnone hkind] at hextends
        exact hextends.gains
    refine ⟨fun h => h.of_gains hgains rfl rfl fun found hfound => ?_, List.prefix_refl _⟩
    have hsame : found = entries := Option.some.inj (hfound.symm.trans hentries)
    rw [hsame]
    exact hread.imp (·.1) fun hnew => hnew.2.2 hkind

theorem multipartMemo_multipart {c : Context} {form : MultipartForm} (h : c.multipart.1 = .ok form) :
    c.multipart.2.multipartMemo.value = some form := by
  rcases c.multipart_cases with ⟨kept, hm, hc⟩
    | ⟨_, request, spool, ⟨cause, _, hc⟩ | ⟨entries, made, _, _, hc⟩⟩ <;> rw [hc] at h ⊢
  · cases h
    exact hm
  · cases h
  · cases h
    rfl

/-! ### The record of an upload that fails -/

/-- The upload that an event says was destroyed with a failure. -/
def Event.uploadFailure? : Event → Option (Upload × Fault)
  | uploadDestroyed upload (some cause) => some (upload, cause)
  | _ => none

def uploadRecord (failed : Upload × Fault) : Record where
  level := .debug
  text := "file upload destroy resulted in exception " ++ failed.1.name ++ ": " ++ failed.2.text

/-- The record is about an upload that could not be destroyed. -/
def isOfUpload (r : Record) : Bool :=
  "file upload destroy resulted in exception".toList.isPrefixOf r.text.toList

theorem isOfUpload_append (level : Level) (front rest : String) :
    isOfUpload ⟨level, front ++ rest⟩ = "file upload destroy resulted in exception".toList.isPrefixOf
      (front.toList ++ rest.toList) := by
  rw [isOfUpload, String.toList_append]

theorem isOfUpload_uploadRecord (failed : Upload × Fault) :
    isOfUpload (uploadRecord failed) = true := by
  simp only [uploadRecord, String.append_assoc, isOfUpload_append]
  rfl

theorem filter_record?_upload (engine : Engine) (s : Subject) (event : Event) :
    (event.record? engine s).filter isOfUpload = event.uploadFailure?.map uploadRecord := by
  cases event with
  | failed cause =>
    simp only [Event.record?, Option.filter_some, String.append_assoc, isOfUpload_append]
    rfl
  | wentAsync =>
    cases engine <;> simp only [Event.record?, Option.filter_some, isOfUpload_append] <;> rfl
  | handedOver executor =>
    simp only [Event.record?, Option.filter_some, String.append_assoc, isOfUpload_append]
    rfl
  | uploadDestroyed upload failure =>
    cases failure with
    | none => rfl
    | some cause =>
      have hr : (Event.uploadDestroyed upload (some cause)).record? engine s
          = some (uploadRecord (upload, cause)) := rfl
      rw [hr, Option.filter_some, isOfUpload_uploadRecord]
      rfl
  | closed aborted failure =>
    cases failure with
    | none => rfl
    | some cause =>
      cases engine <;>
        simp only [Event.record?, Option.map_some, Option.filter_some, String.append_assoc,
          isOfUpload_append] <;>
        rfl
  | told listener outcome => rfl

theorem filterMap_uploadFailure_farewell (c : Context) (cause : Option Fault) :
    (c.farewell cause).filterMap Event.uploadFailure?
      = (c.spool.destructions c.uploads).filterMap fun d => d.2.map (d.1, ·) := by
  have hfailed : (cause.toList.map Event.failed).filterMap Event.uploadFailure? = [] := by
    rw [List.filterMap_map]
    exact List.filterMap_eq_nil_iff.2 fun _ _ => rfl
  have htold : (c.listeners.map fun listener => Event.told listener cause).filterMap
      Event.uploadFailure? = [] := by
    rw [List.filterMap_map]
    exact List.filterMap_eq_nil_iff.2 fun _ _ => rfl
  rw [farewell, List.filterMap_append, List.filterMap_append, hfailed, List.nil_append,
    List.filterMap_cons, htold, List.filterMap_map]
  simp only [Event.uploadFailure?, List.append_nil]
  refine congrArg (List.filterMap · _) (funext fun d => ?_)
  obtain ⟨upload, _ | failure⟩ := d <;> rfl

/-- The uploads whose files are gone already leave a record each, and no other upload does. -/
theorem Ongoing.log_release_uploads {c : Context} (h : Ongoing c)
    (hd : (c.uploads.map Upload.id).Nodup) (outcome : Option Fault) :
    (c.release outcome).log.filter isOfUpload
      = (c.uploads.filter fun u => c.spool.storage u = .missing).map fun u =>
          uploadRecord (u, .system .notFound) := by
  rw [filter_log_of_record? (filter_record?_upload _ _), history_release h.isReleased,
    List.filterMap_append, h.filterMap_history rfl (fun _ => rfl), List.nil_append,
    filterMap_uploadFailure_farewell, Spool.filterMap_destructions hd, List.map_map]
  rfl

end Context

namespace Script

open Context (Owns Advances Ongoing Continues)

/-! ### What a handler does with its uploads -/

/-- One turn of a handler: a step, or something that is done to an upload through one of its
handles. -/
inductive Turn
  | act (action : Action)
  | dispatch (executor : Option Executor)
  | detach
  | clone (upload : Upload)
  | letGo (upload : Upload)
  | destroy (upload : Upload)
  /-- somebody else deletes the file -/
  | lose (upload : Upload)

def onSpool (h : Handler) (spool : Spool) : Reply × Handler :=
  h.put .done { h.context with spool }

def Turn.take (h : Handler) : Turn → Reply × Handler
  | act action => Script.act h action
  | dispatch executor => Script.dispatch h executor
  | detach => Script.detach h
  | clone upload => onSpool h (h.context.spool.clone upload)
  | letGo upload => onSpool h (h.context.spool.drop upload)
  | destroy upload => onSpool h (h.context.spool.destroy upload).2
  | lose upload => onSpool h (h.context.spool.removeFile upload).2

def play (h : Handler) : List Turn → List Reply × Handler
  | [] => ([], h)
  | turn :: rest =>
    let (reply, h) := turn.take h
    let (replies, h) := play h rest
    (reply :: replies, h)

def Reply.uploads : Reply → List Upload
  | .multipart (.ok (_, views)) => views.map UploadView.upload
  | _ => []

variable {n : Nat}

theorem advances_act (h : Handler) (action : Action) :
    Advances n h.context.requestSide (act h action).2.context.requestSide := by
  cases hasks : action.asksRequest with
  | false => exact .of_eq (requestSide_act h hasks).1
  | true =>
    cases action
    case form => exact h.context.advances_form
    case multipart => exact h.context.advances_multipart
    case destroyUpload index =>
      simp only [act]
      split
      · exact .refl _
      · exact Context.advances_withSpool (Spool.gains_destroy _ _)
    case removeFile index =>
      simp only [act]
      split
      · exact .refl _
      · exact Context.advances_withSpool (Spool.gains_removeFile _ _)
    case query => exact ⟨fun hs => { hs with }, List.prefix_refl _⟩
    case headers => exact ⟨fun hs => { hs with }, List.prefix_refl _⟩
    case header name => exact ⟨fun hs => { hs with }, List.prefix_refl _⟩
    case body use => exact ⟨fun hs => { hs with }, List.prefix_refl _⟩
    all_goals cases hasks

theorem advances_take (h : Handler) (turn : Turn) :
    Advances n h.context.requestSide (turn.take h).2.context.requestSide := by
  cases turn with
  | act action => exact advances_act h action
  | dispatch executor => exact .of_eq (requestSide_dispatch h executor)
  | detach => exact .of_eq (requestSide_detach h)
  | clone upload => exact Context.advances_withSpool (Spool.gains_clone _ upload)
  | letGo upload => exact Context.advances_withSpool (Spool.gains_drop _ upload)
  | destroy upload => exact Context.advances_withSpool (Spool.gains_destroy _ upload)
  | lose upload => exact Context.advances_withSpool (Spool.gains_removeFile _ upload)

theorem uploads_act (h : Handler) {action : Action} (ha : action ≠ .multipart) :
    (act h action).1.uploads = [] := by
  cases action
  case multipart => exact absurd rfl ha
  all_goals first
    | rfl
    | simp only [act]
      split <;> rfl

/-- The uploads that are handed out are registered. -/
theorem uploads_multipart {h : Handler} (ho : Owns n h.context.requestSide) {upload : Upload}
    (hu : upload ∈ (act h .multipart).1.uploads) :
    upload ∈ (act h .multipart).2.context.uploads := by
  have hkept := (h.context.advances_multipart.owns ho).registered
  cases hform : h.context.multipart.1 with
  | error cause =>
    simp only [act, hform] at hu
    cases hu
  | ok form =>
    have hmemo := Context.multipartMemo_multipart hform
    rw [show h.context.multipart.2.requestSide.multipartMemo.value = some form from hmemo] at hkept
    have hfiles : (act h .multipart).1.uploads = form.files := by
      simp only [act, hform, Except.map, Reply.uploads, List.map_map]
      exact List.map_id _
    rw [hfiles] at hu
    show upload ∈ h.context.multipart.2.requestSide.uploads
    rw [hkept]
    exact hu

theorem uploads_take {h : Handler} (ho : Owns n h.context.requestSide) {turn : Turn}
    {upload : Upload} (hu : upload ∈ (turn.take h).1.uploads) :
    upload ∈ (turn.take h).2.context.uploads := by
  cases turn with
  | act action =>
    by_cases hm : action = .multipart
    · subst hm
      exact uploads_multipart ho hu
    · have hnone := uploads_act h hm
      rw [Turn.take, hnone] at hu
      cases hu
  | _ => cases hu

/-- Nothing is forgotten while the handler goes on, and what it has been handed is registered. -/
theorem advances_play (h : Handler) (turns : List Turn) :
    Advances n h.context.requestSide (play h turns).2.context.requestSide
      ∧ (Owns n h.context.requestSide → ∀ reply ∈ (play h turns).1, ∀ upload ∈ reply.uploads,
        upload ∈ (play h turns).2.context.uploads) := by
  induction turns generalizing h with
  | nil => exact ⟨.refl _, fun _ _ hreply => nomatch hreply⟩
  | cons turn rest ih =>
    have htake : Advances n h.context.requestSide _ := advances_take h turn
    obtain ⟨hrest, hhanded⟩ := ih (turn.take h).2
    refine ⟨htake.trans hrest, fun ho reply hreply upload hu => ?_⟩
    -- an upload that is registered at its turn stays so to the end
    rcases List.mem_cons.1 hreply with rfl | hreply
    · exact hrest.uploads.subset (uploads_take ho hu)
    · exact hhanded (htake.owns ho) reply hreply upload hu

/-! ### The request goes on meanwhile -/

theorem ongoing_take {h : Handler} (ho : Ongoing h.context) (turn : Turn) :
    Ongoing (turn.take h).2.context := by
  cases turn with
  | act action =>
    have hmore : Ongoing (withListeners h.context action.listeners) := { ho with }
    exact hmore.of_continues (continues_act h action)
  | dispatch executor => exact ho.of_continues (continues_dispatch h executor)
  | detach => exact ho.of_continues (continues_detach h)
  | _ => exact { ho with }

theorem ongoing_play {h : Handler} (ho : Ongoing h.context) (turns : List Turn) :
    Ongoing (play h turns).2.context := by
  induction turns generalizing h with
  | nil => exact ho
  | cons turn rest ih => exact ih (ongoing_take ho turn)

/-- No upload outlives its request. Whatever turns the handler takes before the request ends, and
however it ends, afterwards every upload that was handed out is destroyed, and nothing is left in
the spool of what was put there for the request. An upload whose file was gone has left one record,
and there are no others. -/
theorem uploads_end_with_request (engine : Engine) (router : Router) (io : Executor)
    (decoder : Urlencoded.Decoder) (head : RequestHead) (input : Option Source)
    (peer : Option Peer) (sink : Sink) (spool : Spool) (turns : List Turn) (ending : Ending) :
    let request : Request := { head, input, peer, decoder }
    let played := play ⟨.start engine router io request sink spool, none⟩ turns
    let a := played.2.context
    let c := ending.apply a
    (∀ reply ∈ played.1, ∀ upload ∈ reply.uploads, upload ∈ a.uploads)
      ∧ (a.uploads.map Upload.id).Nodup
      ∧ (∀ upload ∈ a.uploads, c.spool.isDestroyed upload = true
        ∧ c.spool.bytes upload = .error .uploadDestroyed
        ∧ c.spool.stream upload = .error .uploadDestroyed)
      ∧ (∀ cell ∈ c.spool.cells.drop spool.cells.length, cell.hasFile = false)
      ∧ c.log.filter Context.isOfUpload
        = (a.uploads.filter fun u => a.spool.storage u = .missing).map fun u =>
            Context.uploadRecord (u, .system .notFound) := by
  intro request played a c
  let fresh : Context := .start engine router io request sink spool
  have hfresh : Owns spool.cells.length fresh.requestSide :=
    ⟨fun i hi => .inl (Spool.isGone_of_length_le hi), .nil, rfl, fun _ _ hread => by cases hread⟩
  obtain ⟨hadvances, hhanded⟩ := advances_play ⟨fresh, none⟩ turns
  have howns : Owns spool.cells.length a.requestSide := hadvances.owns hfresh
  have hstart : Ongoing fresh := ⟨rfl, rfl, rfl, fun _ he => nomatch he⟩
  have hongoing : Ongoing a := ongoing_play hstart turns
  -- the last work on the response leaves the uploads to the release
  obtain ⟨d, outcome, hd, hend⟩ := endsAs_apply a ending
  have hspool : d.spool = a.spool := congrArg Context.RequestSide.spool hd.requestSide
  have huploads : d.uploads = a.uploads := congrArg Context.RequestSide.uploads hd.requestSide
  have hgoing := hongoing.of_continues hd.toContinues
  have hc : c.spool = a.spool.destroyAll a.uploads := by
    rw [show c = d.release outcome from hend, Context.release_eq hgoing.isReleased, hspool, huploads]
  have hdestroyed : ∀ upload ∈ a.uploads, c.spool.isDestroyed upload = true := by
    intro upload hu
    rw [hc]
    exact a.spool.isDestroyed_destroyAll hu
  refine ⟨hhanded hfresh, howns.distinct, fun upload hu => ?_, fun cell hcell => ?_, ?_⟩
  · have hstorage : c.spool.storage upload = .destroyed := by
      simpa [Spool.isDestroyed] using hdestroyed upload hu
    exact ⟨hdestroyed upload hu, by rw [Spool.bytes, hstorage], by rw [Spool.stream, hstorage]⟩
  · obtain ⟨i, hi⟩ := List.mem_iff_getElem?.1 hcell
    rw [List.getElem?_drop] at hi
    -- a cell of this request either was gone before the end or belongs to one of its uploads
    have hgone : c.spool.IsGone (spool.cells.length + i) := by
      rcases howns.gone (spool.cells.length + i) (Nat.le_add_right _ _) with hgone | hid
      · rw [hc]
        exact (a.spool.gains_destroyAll a.uploads _ hgone).resolve_right List.not_mem_nil
      · obtain ⟨upload, hu, hid⟩ := List.mem_map.1 hid
        rw [← hid, Spool.isGone_id_iff]
        exact hdestroyed upload hu
    rw [Spool.Cell.hasFile, hgone cell hi]
  · have hlog := hgoing.log_release_uploads (huploads ▸ howns.distinct) outcome
    rw [← hend, huploads, hspool] at hlog
    exact hlog

/-- The second of two long files cannot be stored. The form is refused, and the first is gone. -/
example :
    let part (name : String) : Part :=
      ⟨"Content-Disposition: form-data; name=" ++ name ++ "; filename=x", Utf8.encode "hello"⟩
    let config := { Config.default ⟨"/tmp", 1⟩ with bufferSize := 4 }
    let head : RequestHead := {
      method := .post, path := "/"
      headers := ⟨[("Content-Type", "multipart/form-data; boundary=b")]⟩ }
    let input : Source := .ofBytes (Multipart.encode "b" [part "f", part "g"])
    let spool : Spool :=
      { directory := fun n => if n = 1 then some (.system .storageFull) else none }
    let fresh : Context := .start .stream { config, worker := .sameThread 0 } (.ioThread 1 "io")
      { head, input := some input } {} spool
    fresh.multipart.1.toOption = none
      ∧ fresh.multipart.2.spool.cells.map Spool.Cell.storage = [.destroyed]
      ∧ fresh.multipart.2.uploads = [] := by
  decide +kernel

end Script

end HttpContext
