import HttpContext.Proofs.Reading
import HttpContext.Proofs.Uploads
/-!
What is left of a form that could not be read. The failed reading took the input and kept nothing,
so another one finds an empty body (`Context.Spent`): for a multipart form that is a failure again,
while an urlencoded body reads as a form without fields. Main statement:
`Script.form_after_failure`.
-/
namespace HttpContext

namespace RequestHead

/-- The boundary between the parts of a multipart body. -/
def boundary? (head : RequestHead) : Option String :=
  head.contentType.bind Parameters.boundary?

/-- Why a multipart form cannot be read when its input is gone. -/
def missing (head : RequestHead) (limit : UInt64) : Error :=
  if head.boundary?.isNone then .form .boundaryMissing
  else if limit.toNat + 1 < UInt64.size then .form .openingMissing
  else .tooLarge limit.toNat

/-- What a body with this head reads as under this limit when its input is gone. -/
def remains (head : RequestHead) (limit : UInt64) : Except Error (List FormEntry) :=
  match FormKind.ofContentType head.contentType with
  | none => .ok []
  | some .urlencoded =>
    if limit.toNat + 1 < UInt64.size then .ok [] else .error (.tooLarge limit.toNat)
  | some .multipart => .error (head.missing limit)

theorem entries_of_remains {head : RequestHead} {limit : UInt64} {entries : List FormEntry}
    (h : head.remains limit = .ok entries) : entries = [] := by
  unfold remains at h
  split at h
  · cases h
    rfl
  · split at h <;> cases h
    rfl
  · cases h

end RequestHead

namespace Request

variable {r q : Request} {spool after : Spool}

/-- Nothing is left of the body, or it cannot be cut into its parts anyway. -/
def IsDrained (head : RequestHead) (input : Option Source) : Prop :=
  input = none
    ∨ FormKind.ofContentType head.contentType = some .multipart ∧ head.boundary? = none

/-- A body that cannot be read is gone afterwards. -/
theorem isDrained_of_readEntries {limits : Option FormLimits} {cause : Error}
    (h : readEntries limits (r, spool) = (.error cause, q, after)) :
    FormKind.ofContentType r.head.contentType ≠ none ∧ IsDrained r.head q.input := by
  unfold readEntries at h
  simp only at h
  split at h
  · cases h
  · rename_i hkind
    refine ⟨by simp [hkind], .inl ?_⟩
    split at h <;> cases h
    rfl
  · rename_i hkind
    refine ⟨by simp [hkind], ?_⟩
    split at h
    · cases h
    · split at h
      · rename_i hboundary
        cases h
        exact .inr ⟨hkind, hboundary⟩
      · refine .inl ?_
        -- the parts are read of a body that has been taken already
        split at h <;> obtain ⟨_, hq⟩ := Prod.mk.inj h <;> rw [← (Prod.mk.inj hq).1] <;> rfl

theorem takeBody_of_none (hinput : r.input = none) (limit : UInt64) :
    (r.takeBody limit).1.bytes
        = (if limit.toNat + 1 < UInt64.size then .ok [] else .error (.tooLarge limit.toNat))
      ∧ (r.takeBody limit).2 = r := by
  have hsource : (r.takeBody limit).1.source = [] := by
    simp only [takeBody, takeInput, hinput, Option.getD_none]
  refine ⟨?_, by rw [takeBody, takeInput, ← hinput]⟩
  split
  · rename_i hcount
    have huntil : (r.takeBody limit).1.source.untilFailure = ([], none) := by
      rw [hsource]
      rfl
    rw [Body.bytes_eq_whole, Body.whole_of_admits (.inr ⟨hcount, ?_⟩), huntil]
    · rfl
    · rw [huntil]
      exact Nat.zero_le _
  · rename_i hcount
    exact Body.bytes_of_le (Nat.le_of_not_lt hcount)

theorem readEntries_of_isDrained (h : IsDrained r.head r.input) (limits : FormLimits) :
    readEntries (some limits) (r, spool) = (r.head.remains limits.maxSize, r, spool) := by
  unfold readEntries RequestHead.remains
  simp only [Option.map_some, Option.getD_some]
  rcases hkind : FormKind.ofContentType r.head.contentType with _ | _ | _
  · rfl
  · have hinput : r.input = none := h.resolve_right fun hm => by cases hkind.symm.trans hm.1
    obtain ⟨hbytes, hrest⟩ := takeBody_of_none hinput limits.maxSize
    by_cases hcount : limits.maxSize.toNat + 1 < UInt64.size
    · simp only [hbytes, hrest, if_pos hcount, r.decoder.pairs_nil]
      rfl
    · simp only [hbytes, hrest, if_neg hcount]
  · cases hboundary : r.head.contentType.bind Parameters.boundary? with
    | none =>
      simp only [RequestHead.missing, RequestHead.boundary?, hboundary, Option.isNone_none,
        ↓reduceIte]
    | some boundary =>
      have hinput : r.input = none := h.resolve_right fun hm => by cases hboundary.symm.trans hm.2
      obtain ⟨hbytes, hrest⟩ := takeBody_of_none hinput limits.maxSize
      have hread : Multipart.read boundary limits.threshold [] spool
          = (.error (.form .openingMissing), spool) := rfl
      simp only [hrest, RequestHead.missing, RequestHead.boundary?, hboundary, Option.isNone_some,
        Bool.false_eq_true, ↓reduceIte]
      by_cases hcount : limits.maxSize.toNat + 1 < UInt64.size
      · simp only [hbytes, if_pos hcount, hread]
      · simp only [hbytes, if_neg hcount]

end Request

namespace Context

/-- Forms are kept only with the entries that they were made of. -/
structure Grounded (s : RequestSide) : Prop where
  query : s.queryMemo.Agrees (s.head.parsedQuery s.decoder)
  form : s.entries.value = none → s.formMemo.value = none
  multipart : s.entries.value = none → s.multipartMemo.value = none

/-- What the empty rest of the body reads as. -/
def RequestSide.remains (s : RequestSide) : Except Error (List FormEntry) :=
  s.head.remains s.router.config.maxRequestSize

/-- The body could not be read. Whatever is kept by now is what the empty rest of it reads as. -/
structure Spent (s : RequestSide) : Prop where
  kind : FormKind.ofContentType s.head.contentType ≠ none
  query : s.queryMemo.Agrees (s.head.parsedQuery s.decoder)
  entries : ∀ entries, s.entries.value = some entries → s.remains = .ok entries
  input : s.entries.value = none → Request.IsDrained s.head s.input
  form : ∀ fields, s.formMemo.value = some fields → s.remains = .ok [] ∧ fields = {}
  multipart : ∀ form, s.multipartMemo.value = some form → s.remains = .ok [] ∧ form = {}

variable {c : Context}

theorem query_of_formEntries
    (h : c.queryMemo.Agrees (c.request.head.parsedQuery c.request.decoder))
    {result : Except Error (List FormEntry)} {request : Request} {spool : Spool}
    (hf : c.request.formEntries (some c.limits) c.spool = (result, request, spool)) :
    c.query.2.queryMemo.Agrees (request.head.parsedQuery request.decoder) := by
  rw [head_of_formEntries hf, decoder_of_formEntries hf]
  exact (query_of_agrees h).2

/-! ### The reading that fails -/

theorem Grounded.spent (h : Grounded c.requestSide) {cause : Error} {request : Request}
    {spool : Spool}
    (hf : c.request.formEntries (some c.limits) c.spool = (.error cause, request, spool)) :
    Spent { c.query.2 with request, spool }.requestSide := by
  have hhead : request.head = c.request.head := head_of_formEntries hf
  have hq := query_of_formEntries h.query hf
  rcases Request.formEntries_cases (some c.limits) c.request c.spool with ⟨entries, _, hform⟩
    | ⟨hnone, q, rest, ⟨cause, hread, hform⟩ | ⟨entries, _, hform⟩⟩ <;> cases hform.symm.trans hf
  obtain ⟨hkind, hdrained⟩ := Request.isDrained_of_readEntries hread
  refine ⟨hhead ▸ hkind, hq, fun entries hs => ?_, fun _ => hhead ▸ hdrained, fun fields hs => ?_,
    fun form hs => ?_⟩
  · cases hnone.symm.trans hs
  · cases (h.form hnone).symm.trans hs
  · cases (h.multipart hnone).symm.trans hs

/-- A reading that fails leaves everything as it was kept. -/
theorem Grounded.failed (h : Grounded c.requestSide) {cause : Error} {request : Request}
    {spool : Spool}
    (hf : c.request.formEntries (some c.limits) c.spool = (.error cause, request, spool)) :
    Grounded { c.query.2 with request, spool }.requestSide := by
  have hkept := congrArg Memo.value (Request.formEntries_error hf).1
  exact ⟨query_of_formEntries h.query hf, fun hs => h.form (hkept.symm.trans hs),
    fun hs => h.multipart (hkept.symm.trans hs)⟩

/-- With its entries at hand a form may be kept. -/
theorem Grounded.of_entries {s : RequestSide} {entries : List FormEntry}
    (hq : s.queryMemo.Agrees (s.head.parsedQuery s.decoder)) (he : s.entries.value = some entries) :
    Grounded s := by
  refine ⟨hq, fun hnone => ?_, fun hnone => ?_⟩ <;> cases hnone.symm.trans he

theorem Grounded.multipart_eq (h : Grounded c.requestSide) :
    Grounded c.multipart.2.requestSide
      ∧ ∀ cause, c.multipart.1 = .error cause → Spent c.multipart.2.requestSide := by
  rcases c.multipart_cases with ⟨form, _, hc⟩
    | ⟨_, request, spool, ⟨cause, hf, hc⟩ | ⟨entries, form, hf, _, hc⟩⟩ <;> rw [hc]
  · exact ⟨{ h with query := (query_of_agrees h.query).2 }, fun _ he => nomatch he⟩
  · exact ⟨h.failed hf, fun _ _ => h.spent hf⟩
  · exact ⟨.of_entries (query_of_formEntries h.query hf) (Request.formEntries_ok hf).1,
      fun _ he => nomatch he⟩

theorem Grounded.form_eq (h : Grounded c.requestSide) :
    Grounded c.form.2.requestSide
      ∧ ∀ cause, c.form.1 = .error cause → Spent c.form.2.requestSide := by
  rcases c.form_cases with ⟨_, hc⟩ | ⟨_, ⟨fields, _, hc⟩
    | ⟨_, request, spool, ⟨cause, hf, hc⟩ | ⟨entries, fields, hf, _, hc⟩⟩⟩ <;> rw [hc]
  · obtain ⟨hkept, hspent⟩ := h.multipart_eq
    refine ⟨hkept, fun cause he => ?_⟩
    cases hform : c.multipart.1 with
    | error cause => exact hspent cause hform
    | ok form =>
      rw [hform] at he
      cases he
  · exact ⟨{ h with query := (query_of_agrees h.query).2 }, fun _ he => nomatch he⟩
  · exact ⟨h.failed hf, fun _ _ => h.spent hf⟩
  · exact ⟨.of_entries (query_of_formEntries h.query hf) (Request.formEntries_ok hf).1,
      fun _ he => nomatch he⟩

/-! ### Asking again -/

/-- Without entries a form has no fields, whatever the query has. -/
theorem Spent.fields_eq (h : Spent c.requestSide) {result : Except Error (List FormEntry)}
    {request : Request} {spool : Spool}
    (hf : c.request.formEntries (some c.limits) c.spool = (result, request, spool)) :
    Multimap.putUnless {} (request.formFields c.engine []) c.query.1.values = {} :=
  fields_of_agrees h.query (head_of_formEntries hf) (decoder_of_formEntries hf) []

/-- The entries are those of an empty body. -/
theorem Spent.formEntries_eq (h : Spent c.requestSide) {result : Except Error (List FormEntry)}
    {request : Request} {spool : Spool}
    (hf : c.request.formEntries (some c.limits) c.spool = (result, request, spool)) :
    result = c.requestSide.remains
      ∧ (∀ entries, request.entries.value = some entries → c.requestSide.remains = .ok entries)
      ∧ (request.entries.value = none → Request.IsDrained c.request.head request.input) := by
  rcases Request.formEntries_cases (some c.limits) c.request c.spool with ⟨entries, hkept, hform⟩
    | ⟨hnone, q, rest, hread⟩
  · cases hform.symm.trans hf
    exact ⟨(h.entries entries hkept).symm, h.entries, h.input⟩
  · have hdrained : Request.IsDrained c.request.head c.request.input := h.input hnone
    rw [Request.readEntries_of_isDrained hdrained c.limits] at hread
    rcases hread with ⟨cause, hread, hform⟩ | ⟨entries, hread, hform⟩ <;>
      cases hform.symm.trans hf <;> obtain ⟨hremains, hrest⟩ := Prod.mk.inj hread <;> cases hrest
    · exact ⟨hremains.symm, h.entries, h.input⟩
    · exact ⟨hremains.symm, fun _ hs => Option.some.inj hs ▸ hremains, fun hs => nomatch hs⟩

/-- What is kept of a form that is asked for again is the empty rest of it. -/
theorem Spent.asked (h : Spent c.requestSide) {result : Except Error (List FormEntry)}
    {request : Request} {spool : Spool}
    (hf : c.request.formEntries (some c.limits) c.spool = (result, request, spool)) :
    Spent { c.query.2 with request, spool }.requestSide := by
  obtain ⟨_, hentries, hinput⟩ := h.formEntries_eq hf
  have hq := query_of_formEntries h.query hf
  obtain ⟨head, _, _, _, _, _, _⟩ := request
  obtain rfl : head = c.request.head := head_of_formEntries hf
  exact ⟨h.kind, hq, hentries, hinput, h.form, h.multipart⟩

/-- There are none if they can be read at all. -/
theorem Spent.entries_eq_nil (h : Spent c.requestSide) {entries : List FormEntry}
    {request : Request} {spool : Spool}
    (hf : c.request.formEntries (some c.limits) c.spool = (.ok entries, request, spool)) :
    entries = [] ∧ c.requestSide.remains = .ok []
      ∧ request.head.remains c.router.config.maxRequestSize = .ok [] := by
  have hremains := (h.formEntries_eq hf).1.symm
  obtain rfl := RequestHead.entries_of_remains hremains
  exact ⟨rfl, hremains, (head_of_formEntries hf).symm ▸ hremains⟩

theorem Spent.multipart_eq (h : Spent c.requestSide) :
    c.multipart.1 = c.requestSide.remains.map (fun _ => {}) ∧ Spent c.multipart.2.requestSide := by
  rcases c.multipart_cases with ⟨form, hm, hc⟩
    | ⟨_, request, spool, ⟨cause, hf, hc⟩ | ⟨entries, form, hf, hform, hc⟩⟩ <;> rw [hc]
  · obtain ⟨hremains, rfl⟩ := h.multipart form hm
    exact ⟨by rw [hremains]; rfl, { h with query := (query_of_agrees h.query).2 }⟩
  · exact ⟨by rw [← (h.formEntries_eq hf).1]; rfl, h.asked hf⟩
  · obtain ⟨rfl, hremains, hagain⟩ := h.entries_eq_nil hf
    have hempty : form = {} := by rw [hform, h.fields_eq hf]; rfl
    refine ⟨by rw [hremains, hempty]; rfl, { h.asked hf with multipart := ?_ }⟩
    rintro _ ⟨rfl⟩
    exact ⟨hagain, hempty⟩

theorem Spent.form_eq (h : Spent c.requestSide) :
    c.form.1 = c.requestSide.remains.map (fun _ => {}) ∧ Spent c.form.2.requestSide := by
  rcases c.form_cases with ⟨_, hc⟩ | ⟨_, ⟨fields, hm, hc⟩
    | ⟨_, request, spool, ⟨cause, hf, hc⟩ | ⟨entries, fields, hf, hfields, hc⟩⟩⟩ <;> rw [hc]
  · obtain ⟨hform, hspent⟩ := h.multipart_eq
    refine ⟨?_, hspent⟩
    rw [hform]
    cases c.requestSide.remains <;> rfl
  · obtain ⟨hremains, rfl⟩ := h.form fields hm
    exact ⟨by rw [hremains]; rfl, { h with query := (query_of_agrees h.query).2 }⟩
  · exact ⟨by rw [← (h.formEntries_eq hf).1]; rfl, h.asked hf⟩
  · obtain ⟨rfl, hremains, hagain⟩ := h.entries_eq_nil hf
    have hempty : fields = {} := by rw [hfields, h.fields_eq hf]
    refine ⟨by rw [hremains, hempty]; rfl, { h.asked hf with form := ?_ }⟩
    rintro _ ⟨rfl⟩
    exact ⟨hagain, hempty⟩

/-! ### Everything else that is asked -/

/-- No form was read, though the body may have been taken. -/
structure KeepsForm (s t : RequestSide) : Prop where
  router : t.router = s.router
  head : t.head = s.head
  decoder : t.decoder = s.decoder
  entries : t.entries = s.entries
  form : t.formMemo = s.formMemo
  multipart : t.multipartMemo = s.multipartMemo
  query : s.queryMemo.Agrees (s.head.parsedQuery s.decoder) →
    t.queryMemo.Agrees (s.head.parsedQuery s.decoder)
  input : t.input = s.input ∨ t.input = none

variable {s t : RequestSide}

theorem KeepsForm.of_eq (h : t = s) : KeepsForm s t := by
  rw [h]
  exact ⟨rfl, rfl, rfl, rfl, rfl, rfl, id, .inl rfl⟩

theorem KeepsForm.remains (h : KeepsForm s t) : t.remains = s.remains := by
  rw [RequestSide.remains, h.head, h.router]
  rfl

theorem KeepsForm.grounded (h : KeepsForm s t) (hs : Grounded s) : Grounded t := by
  refine ⟨?_, ?_, ?_⟩
  · rw [h.head, h.decoder]
    exact h.query hs.query
  · rw [h.entries, h.form]
    exact hs.form
  · rw [h.entries, h.multipart]
    exact hs.multipart

theorem KeepsForm.spent (h : KeepsForm s t) (hs : Spent s) : Spent t := by
  refine ⟨?_, ?_, ?_, ?_, ?_, ?_⟩
  · rw [h.head]
    exact hs.kind
  · rw [h.head, h.decoder]
    exact h.query hs.query
  · rw [h.remains, h.entries]
    exact hs.entries
  · rw [h.head, h.entries]
    -- a body that is taken leaves no more than there was
    exact fun hnone => h.input.elim (fun hi => hi ▸ hs.input hnone) .inl
  · rw [h.remains, h.form]
    exact hs.form
  · rw [h.remains, h.multipart]
    exact hs.multipart

end Context

namespace Script

open Context (Grounded Spent KeepsForm)

/-- The action asks for the form of the request, with or without its files. -/
def Action.asksForm : Action → Bool
  | form | multipart => true
  | _ => false

/-- Why no form was returned. -/
def Reply.formFailure? : Reply → Option Error
  | form (.error cause) | multipart (.error cause) => some cause
  | _ => none

/-- A form was returned, and it has nothing in it. -/
def Reply.isEmptyForm : Reply → Bool
  | form (.ok fields) => fields = {}
  | multipart (.ok (fields, files)) => fields = {} && files.isEmpty
  | _ => false

theorem keepsForm_act (h : Handler) {action : Action} (ha : action.asksForm = false) :
    KeepsForm h.context.requestSide (act h action).2.context.requestSide := by
  cases hasks : action.asksRequest with
  | false => exact .of_eq (requestSide_act h hasks).1
  | true =>
    cases action
    case query =>
      exact ⟨rfl, rfl, rfl, rfl, rfl, rfl, fun hq => (Context.query_of_agrees hq).2, .inl rfl⟩
    case body use => exact ⟨rfl, rfl, rfl, rfl, rfl, rfl, id, .inr rfl⟩
    case destroyUpload index =>
      simp only [act]
      split <;> exact ⟨rfl, rfl, rfl, rfl, rfl, rfl, id, .inl rfl⟩
    case removeFile index =>
      simp only [act]
      split <;> exact ⟨rfl, rfl, rfl, rfl, rfl, rfl, id, .inl rfl⟩
    case headers => exact ⟨rfl, rfl, rfl, rfl, rfl, rfl, id, .inl rfl⟩
    case header name => exact ⟨rfl, rfl, rfl, rfl, rfl, rfl, id, .inl rfl⟩
    case form => cases ha
    case multipart => cases ha
    all_goals cases hasks

/-- What holds of all that is known of a request holds on, if asking for the form and asking for
anything else both keep it. -/
theorem play_induction {P : Context.RequestSide → Prop}
    (hform : ∀ c : Context, P c.requestSide → P c.form.2.requestSide)
    (hmultipart : ∀ c : Context, P c.requestSide → P c.multipart.2.requestSide)
    (hother : ∀ s t, KeepsForm s t → P s → P t) {h : Handler} (hp : P h.context.requestSide)
    (turns : List Turn) : P (play h turns).2.context.requestSide := by
  induction turns generalizing h with
  | nil => exact hp
  | cons turn rest ih =>
    refine ih ?_
    cases turn with
    | act action =>
      cases hasks : action.asksForm with
      | false => exact hother _ _ (keepsForm_act h hasks) hp
      | true =>
        cases action
        case form => exact hform _ hp
        case multipart => exact hmultipart _ hp
        all_goals cases hasks
    | dispatch executor => exact hother _ _ (.of_eq (requestSide_dispatch h executor)) hp
    | detach => exact hother _ _ (.of_eq (requestSide_detach h)) hp
    -- an upload is of no account once the form is read, and of none before
    | _ => exact hother h.context.requestSide _ ⟨rfl, rfl, rfl, rfl, rfl, rfl, id, .inl rfl⟩ hp

/-- A handler neither replaces the request it answers nor the settings it runs under. -/
theorem request_play (h : Handler) (turns : List Turn) :
    (play h turns).2.context.request.head = h.context.request.head
      ∧ (play h turns).2.context.router = h.context.router :=
  play_induction
    (P := fun s => s.head = h.context.request.head ∧ s.router = h.context.router)
    (fun c hs => ⟨c.continues_form.head.trans hs.1, c.continues_form.router.trans hs.2⟩)
    (fun c hs => ⟨c.continues_multipart.head.trans hs.1, c.continues_multipart.router.trans hs.2⟩)
    (fun _ _ hk hs => ⟨hk.head.trans hs.1, hk.router.trans hs.2⟩) ⟨rfl, rfl⟩ turns

theorem grounded_play {h : Handler} (hg : Grounded h.context.requestSide) (turns : List Turn) :
    Grounded (play h turns).2.context.requestSide :=
  play_induction (fun _ hs => hs.form_eq.1) (fun _ hs => hs.multipart_eq.1)
    (fun _ _ hk => hk.grounded) hg turns

theorem spent_play {h : Handler} (hs : Spent h.context.requestSide) (turns : List Turn) :
    Spent (play h turns).2.context.requestSide :=
  play_induction (fun _ hs => hs.form_eq.2) (fun _ hs => hs.multipart_eq.2)
    (fun _ _ hk => hk.spent) hs turns

theorem grounded_start (decoder : Urlencoded.Decoder) (engine : Engine) (router : Router)
    (io : Executor) (head : RequestHead) (input : Option Source) (peer : Option Peer) (sink : Sink)
    (spool : Spool) :
    Grounded (Context.start engine router io { head, input, peer, decoder } sink
      spool).requestSide :=
  ⟨Memo.agrees_empty _, fun _ => rfl, fun _ => rfl⟩

/-- The form that cannot be read is spent. -/
theorem spent_act {h : Handler} (hg : Grounded h.context.requestSide) {action : Action}
    (ha : action.asksForm = true) {cause : Error}
    (hf : (act h action).1.formFailure? = some cause) :
    Spent (act h action).2.context.requestSide := by
  cases action
  case form =>
    have hreply : (act h .form).1 = .form h.context.form.1 := rfl
    rw [hreply] at hf
    cases hform : h.context.form.1 with
    | error cause => exact hg.form_eq.2 cause hform
    | ok fields =>
      rw [hform] at hf
      cases hf
  case multipart =>
    cases hform : h.context.multipart.1 with
    | error cause => exact hg.multipart_eq.2 cause hform
    | ok form =>
      simp only [act, hform] at hf
      cases hf
  all_goals cases ha

theorem reply_of_spent {h : Handler} (hs : Spent h.context.requestSide) {action : Action}
    (ha : action.asksForm = true) :
    h.context.requestSide.remains = .ok [] ∧ (act h action).1.isEmptyForm = true
      ∨ ∃ cause, h.context.requestSide.remains = .error cause
        ∧ (act h action).1.formFailure? = some cause := by
  cases action
  case form =>
    have hreply : (act h .form).1 = .form h.context.form.1 := rfl
    rw [hreply, hs.form_eq.1]
    cases hremains : h.context.requestSide.remains with
    | error cause => exact .inr ⟨cause, rfl, rfl⟩
    | ok entries =>
      rw [RequestHead.entries_of_remains hremains]
      exact .inl ⟨rfl, rfl⟩
  case multipart =>
    simp only [act, hs.multipart_eq.1]
    cases hremains : h.context.requestSide.remains with
    | error cause => exact .inr ⟨cause, rfl, rfl⟩
    | ok entries =>
      rw [RequestHead.entries_of_remains hremains]
      exact .inl ⟨rfl, rfl⟩
  all_goals cases ha

/-- Once a form could not be read, it is never returned if it is a multipart form: that is without
an opening boundary from then on. An urlencoded form is returned each time, but empty, as long as
one byte more than the limit can be counted. -/
theorem form_after_failure (decoder : Urlencoded.Decoder) (engine : Engine) (router : Router)
    (io : Executor) (head : RequestHead) (input : Option Source) (peer : Option Peer) (sink : Sink)
    (spool : Spool) (before after : List Turn) {first later : Action}
    (hfirst : first.asksForm = true) (hlater : later.asksForm = true) :
    let limit := router.config.maxRequestSize
    let fresh : Context := .start engine router io { head, input, peer, decoder } sink spool
    let failed := act (play ⟨fresh, none⟩ before).2 first
    let again := act (play failed.2 after).2 later
    ∀ cause, failed.1.formFailure? = some cause →
      FormKind.ofContentType head.contentType = some .urlencoded
          ∧ (limit.toNat + 1 < UInt64.size ∧ again.1.isEmptyForm = true
            ∨ UInt64.size ≤ limit.toNat + 1
              ∧ again.1.formFailure? = some (.tooLarge limit.toNat))
        ∨ FormKind.ofContentType head.contentType = some .multipart
          ∧ again.1.formFailure? = some (head.missing limit) := by
  intro limit fresh failed again cause hf
  have hfresh : Grounded fresh.requestSide :=
    grounded_start decoder engine router io head input peer sink spool
  have hfailed : Spent failed.2.context.requestSide :=
    spent_act (grounded_play (h := ⟨fresh, none⟩) hfresh before) hfirst hf
  have hspent := spent_play hfailed after
  -- the head and the limit are what they were at first
  obtain ⟨hhead, hrouter⟩ : (play failed.2 after).2.context.request.head = head
      ∧ (play failed.2 after).2.context.router = router := by
    obtain ⟨hbefore, hset⟩ := request_play ⟨fresh, none⟩ before
    obtain ⟨hafter, hkept⟩ := request_play failed.2 after
    rw [hafter, hkept, (continues_act _ first).head, (continues_act _ first).router]
    exact ⟨hbefore, hset⟩
  have hremains : (play failed.2 after).2.context.requestSide.remains = head.remains limit := by
    rw [← hhead, show limit = router.config.maxRequestSize from rfl, ← hrouter]
    rfl
  have hkind : FormKind.ofContentType head.contentType ≠ none := by
    rw [← hhead]
    exact hspent.kind
  have hreply := reply_of_spent hspent hlater
  rw [hremains, RequestHead.remains] at hreply
  rcases hof : FormKind.ofContentType head.contentType with _ | _ | _
  · exact absurd hof hkind
  · refine .inl ⟨rfl, ?_⟩
    rw [hof] at hreply
    rcases Nat.lt_or_ge (limit.toNat + 1) UInt64.size with hcount | hcount
    · simp only [if_pos hcount] at hreply
      rcases hreply with ⟨_, hempty⟩ | ⟨_, he, _⟩
      · exact .inl ⟨hcount, hempty⟩
      · cases he
    · simp only [if_neg (Nat.not_lt.2 hcount)] at hreply
      rcases hreply with ⟨he, _⟩ | ⟨_, he, hagain⟩
      · cases he
      · cases he
        exact .inr ⟨hcount, hagain⟩
  · refine .inr ⟨rfl, ?_⟩
    rw [hof] at hreply
    rcases hreply with ⟨he, _⟩ | ⟨_, he, hagain⟩
    · cases he
    · cases he
      exact hagain

/-- The body of a multipart form is too large. Afterwards the form has no opening boundary. -/
theorem form_after_failure_multipart :
    let router : Router :=
      { config := { Config.default ⟨"/tmp", 1⟩ with maxRequestSize := 4 }, worker := .sameThread 0 }
    let headers : HeaderFields := ⟨[("Content-Type", "multipart/form-data; boundary=b")]⟩
    let head : RequestHead := { method := .post, path := "/", headers }
    let input : Option Source := some (.ofBytes (Utf8.encode "--b--\r\n"))
    let fresh : Context := .start .callback router (.ioThread 1 "io") { head, input } {} {}
    let failed := act (play ⟨fresh, none⟩ [.act .query]).2 .form
    let again := act (play failed.2 [.detach]).2 .multipart
    failed.1.formFailure? = some (.tooLarge 4)
      ∧ again.1.formFailure? = some (.form .openingMissing)
      ∧ (FormKind.ofContentType head.contentType = some .urlencoded
          ∧ (4 + 1 < UInt64.size ∧ again.1.isEmptyForm = true
            ∨ UInt64.size ≤ 4 + 1 ∧ again.1.formFailure? = some (.tooLarge 4))
        ∨ FormKind.ofContentType head.contentType = some .multipart
          ∧ again.1.formFailure? = some (head.missing 4)) := by
  intro router headers head input fresh failed again
  have hfailed : failed.1.formFailure? = some (.tooLarge 4) := by decide +kernel
  exact ⟨hfailed, by decide +kernel, form_after_failure Urlencoded.decoder .callback router _ head
    input none {} {} [.act .query] [.detach] rfl rfl (.tooLarge 4) hfailed⟩

/-- An urlencoded body that is too large is returned as an empty form when it is asked for again. -/
theorem form_too_large_then_empty :
    let router : Router :=
      { config := { Config.default ⟨"/tmp", 1⟩ with maxRequestSize := 4 }, worker := .sameThread 0 }
    let headers : HeaderFields := ⟨[("Content-Type", "application/x-www-form-urlencoded")]⟩
    let head : RequestHead := { method := .post, path := "/", headers }
    let input : Option Source := some (.ofBytes (Utf8.encode "a=0123456789"))
    let fresh : Context := .start .stream router (.ioThread 1 "io") { head, input } {} {}
    let failed := act ⟨fresh, none⟩ .form
    let again := act failed.2 .form
    failed.1.formFailure? = some (.tooLarge 4) ∧ again.1.formFailure? = none
      ∧ again.1.isEmptyForm = true := by
  decide +kernel

end Script

end HttpContext
