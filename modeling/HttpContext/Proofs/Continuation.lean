import HttpContext.Context.Script
import HttpContext.Proofs.Writing
/-!
What a request keeps while it goes on. `Context.Continues` holds between a context and what any
step makes of it: the request, its router and its engine stay the same, nothing of its end has
happened, and the history gains hops alone. The uploads to destroy are the files of the form.
-/
namespace HttpContext

namespace Request

/-- All that a reading changes of a request is what is left of its input. -/
theorem readEntries_request (limits : Option FormLimits) (r : Request) (spool : Spool) :
    ∃ input, (readEntries limits (r, spool)).2.1 = { r with input } := by
  unfold readEntries
  simp only
  split
  · exact ⟨r.input, rfl⟩
  · refine ⟨none, ?_⟩
    split <;> rfl
  · split
    · exact ⟨r.input, rfl⟩
    · split
      · exact ⟨r.input, rfl⟩
      · refine ⟨none, ?_⟩
        split <;> rfl

/-- The entries are there from an earlier reading or are read now, and a reading that fails leaves
none behind. -/
theorem formEntries_cases (limits : Option FormLimits) (r : Request) (spool : Spool) :
    (∃ entries, r.entries.value = some entries ∧ r.formEntries limits spool = (.ok entries, r, spool))
      ∨ r.entries.value = none ∧ ∃ q rest,
        (∃ cause, readEntries limits (r, spool) = (.error cause, q, rest)
          ∧ r.formEntries limits spool = (.error cause, { q with entries := r.entries }, rest))
        ∨ ∃ entries, readEntries limits (r, spool) = (.ok entries, q, rest)
          ∧ r.formEntries limits spool
            = (.ok entries, { q with entries := ⟨some entries⟩ }, rest) := by
  cases hr : r.entries.value with
  | some entries => exact .inl ⟨entries, rfl, by simp only [formEntries, Memo.getOrTry, hr]⟩
  | none =>
    rcases hread : readEntries limits (r, spool) with ⟨cause | entries, q, rest⟩
    · exact .inr ⟨rfl, q, rest, .inl ⟨cause, rfl, by simp only [formEntries, Memo.getOrTry, hr, hread]⟩⟩
    · exact .inr ⟨rfl, q, rest, .inr ⟨entries, rfl,
        by simp only [formEntries, Memo.getOrTry, hr, hread]⟩⟩

/-- Reading a form takes the input of a request and keeps its entries; the rest it leaves alone. -/
theorem formEntries_request (limits : Option FormLimits) (r : Request) (spool : Spool) :
    ∃ input entries, (r.formEntries limits spool).2.1 = { r with input, entries } := by
  obtain ⟨input, hinput⟩ := readEntries_request limits r spool
  rcases formEntries_cases limits r spool with ⟨entries, _, hf⟩
    | ⟨_, q, rest, ⟨cause, hread, hf⟩ | ⟨entries, hread, hf⟩⟩ <;> rw [hf]
  · exact ⟨r.input, r.entries, rfl⟩
  · rw [hread] at hinput
    exact ⟨input, r.entries, by rw [show q = { r with input } from hinput]⟩
  · rw [hread] at hinput
    exact ⟨input, ⟨some entries⟩, by rw [show q = { r with input } from hinput]⟩

end Request

namespace Context

/-- The event is about where the work goes on, not about the end of the request. -/
def Event.isHop : Event → Bool
  | wentAsync | handedOver _ => true
  | _ => false

/-- The files that were submitted with the form of the request, once that has been read. -/
def registered (c : Context) : List Upload :=
  (c.multipartMemo.value.map MultipartForm.files).getD []

/-- `d` is `c` some steps later, with its request still going on. -/
structure Continues (c d : Context) : Prop where
  router : d.router = c.router
  head : d.request.head = c.request.head
  response : c.response.Continues d.response
  listeners : d.listeners = c.listeners
  isReleased : d.isReleased = c.isReleased
  uploads : c.uploads = c.registered → d.uploads = d.registered
  history : ∃ hops, d.history = c.history ++ hops ∧ ∀ event ∈ hops, event.isHop = true

theorem Continues.trans {c d e : Context} (hcd : Continues c d) (hde : Continues d e) :
    Continues c e := by
  -- the hops of the later steps come after those of the earlier ones
  obtain ⟨hops, hh, hp⟩ := hcd.history
  obtain ⟨hops', hh', hp'⟩ := hde.history
  exact {
    router := hde.router.trans hcd.router
    head := hde.head.trans hcd.head
    response := hcd.response.trans hde.response
    listeners := hde.listeners.trans hcd.listeners
    isReleased := hde.isReleased.trans hcd.isReleased
    uploads := fun h => hde.uploads (hcd.uploads h)
    history := by
      refine ⟨hops ++ hops', by rw [hh', hh, List.append_assoc], ?_⟩
      intro event he
      rcases List.mem_append.1 he with h | h
      · exact hp event h
      · exact hp' event h }

/-- While the request goes on its listeners are told nothing. -/
theorem Continues.completions {c d : Context} (h : Continues c d) :
    d.completions = c.completions := by
  obtain ⟨hops, hhistory, hhops⟩ := h.history
  have hnone : hops.filterMap Event.completion? = [] := by
    refine List.filterMap_eq_nil_iff.2 fun event he => ?_
    have hop := hhops event he
    cases event with
    | wentAsync => rfl
    | handedOver => rfl
    | _ => cases hop
  rw [Context.completions, hhistory, List.filterMap_append, hnone, List.append_nil]
  rfl

/-- The parts of a context, besides its response, that most steps leave as they are. -/
def fixed (c : Context) :=
  (c.router, c.request.head, c.listeners, c.isReleased, c.uploads, c.multipartMemo, c.history)

theorem Continues.of_fixed {c d : Context} (h : d.fixed = c.fixed)
    (hr : c.response.Continues d.response) : Continues c d := by
  simp only [fixed, Prod.mk.injEq] at h
  obtain ⟨hrouter, hhead, hlisteners, hreleased, huploads, hmemo, hhistory⟩ := h
  exact {
    router := hrouter
    head := hhead
    response := hr
    listeners := hlisteners
    isReleased := hreleased
    uploads := fun hu => by rw [huploads, hu, registered, registered, hmemo]
    history := ⟨[], by rw [hhistory, List.append_nil], fun _ he => nomatch he⟩ }

theorem Continues.refl (c : Context) : Continues c c := .of_fixed rfl (.refl _)

/-- Of the response, only the head is edited. -/
theorem Continues.of_head {c d : Context} (h : d.fixed = c.fixed)
    (hr : d.response = { c.response with head := d.response.head }) : Continues c d := by
  refine .of_fixed h ?_
  rw [hr]
  exact .of_edit rfl rfl id rfl rfl

/-! ### What a context holds of its request -/

/-- What has been read of a request and what is left to be read, with the files of its body. -/
structure RequestSide where
  router : Router
  engine : Engine
  head : RequestHead
  decoder : Urlencoded.Decoder
  input : Option Source
  entries : Memo (List FormEntry)
  queryMemo : Memo Query
  headersMemo : Memo Multimap
  formMemo : Memo Multimap
  multipartMemo : Memo MultipartForm
  spool : Spool
  uploads : List Upload

def requestSide (c : Context) : RequestSide where
  router := c.router
  engine := c.engine
  head := c.request.head
  decoder := c.request.decoder
  input := c.request.input
  entries := c.request.entries
  queryMemo := c.queryMemo
  headersMemo := c.headersMemo
  formMemo := c.formMemo
  multipartMemo := c.multipartMemo
  spool := c.spool
  uploads := c.uploads

/-- Work on the response alone leaves the request as it is. -/
theorem requestSide_withResponse {c : Context} {r : Response} (h : r.engine = c.engine) :
    { c with response := r }.requestSide = c.requestSide := by
  have hengine : { c with response := r }.engine = c.engine := h
  simp only [requestSide, hengine]

theorem requestSide_markAsync (c : Context) : c.markAsync.requestSide = c.requestSide := by
  unfold markAsync
  split <;> rfl

theorem requestSide_passTo (c : Context) (executor : Executor) :
    (c.passTo executor).2.requestSide = c.requestSide := by
  unfold passTo
  split
  · rfl
  · exact requestSide_markAsync c

theorem requestSide_openSender (c : Context) : c.openSender.requestSide = c.requestSide := by
  unfold openSender
  split
  · exact requestSide_markAsync _
  · rfl

theorem requestSide_announceRange (c : Context) (range : ByteRange) :
    (c.announceRange range).requestSide = c.requestSide := by
  unfold announceRange
  split <;> rfl

/-! ### Reading the request -/

theorem readForm_query {c : Context} {result : Except Error (List FormEntry)} {request : Request}
    {spool : Spool}
    (hf : c.request.formEntries (some c.limits) c.spool = (result, request, spool)) :
    c.query.2.readForm = (result.map fun entries => (entries, request.formFields c.engine entries),
      { c.query.2 with request, spool }) := by
  have hq : c.query.2.request.formEntries (some c.query.2.limits) c.query.2.spool
      = (result, request, spool) := hf
  simp only [readForm, hq]
  rfl

/-- A multipart form is kept from an earlier reading, or its entries are read now. Either that
fails, or their files are registered. -/
theorem multipart_cases (c : Context) :
    (∃ form, c.multipartMemo.value = some form ∧ c.multipart = (.ok form, c.query.2))
      ∨ c.multipartMemo.value = none ∧ ∃ request spool,
        (∃ cause, c.request.formEntries (some c.limits) c.spool = (.error cause, request, spool)
          ∧ c.multipart = (.error cause, { c.query.2 with request, spool }))
        ∨ ∃ entries form, c.request.formEntries (some c.limits) c.spool
            = (.ok entries, request, spool)
          ∧ form = ⟨Multimap.putUnless {} (request.formFields c.engine entries) c.query.1.values,
              entries.filterMap FormEntry.upload?⟩
          ∧ c.multipart = (.ok form, { c.query.2 with
              request, spool, uploads := c.uploads ++ form.files, multipartMemo := ⟨some form⟩ }) := by
  cases hm : c.multipartMemo.value with
  | some form =>
    have hq : c.query.2.multipartMemo.value = some form := hm
    exact .inl ⟨form, rfl, by simp only [multipart, Memo.getOrTry, hq]⟩
  | none =>
    have hq : c.query.2.multipartMemo.value = none := hm
    rcases hf : c.request.formEntries (some c.limits) c.spool with ⟨cause | entries, request, spool⟩
    · refine .inr ⟨rfl, request, spool, .inl ⟨cause, rfl, ?_⟩⟩
      simp only [multipart, Memo.getOrTry, hq, readForm_query hf, Except.map]
    · refine .inr ⟨rfl, request, spool, .inr ⟨entries, _, rfl, rfl, ?_⟩⟩
      simp only [multipart, Memo.getOrTry, hq, readForm_query hf, Except.map]
      rfl

/-- The form of a multipart body is part of it. Any other form is kept or read by itself. -/
theorem form_cases (c : Context) :
    FormKind.multipart.announcedBy c.request.head.contentType = true
        ∧ c.form = (c.multipart.1.map MultipartForm.fields, c.multipart.2)
      ∨ FormKind.multipart.announcedBy c.request.head.contentType = false
        ∧ ((∃ fields, c.formMemo.value = some fields ∧ c.form = (.ok fields, c.query.2))
          ∨ c.formMemo.value = none ∧ ∃ request spool,
            (∃ cause, c.request.formEntries (some c.limits) c.spool = (.error cause, request, spool)
              ∧ c.form = (.error cause, { c.query.2 with request, spool }))
            ∨ ∃ entries fields, c.request.formEntries (some c.limits) c.spool
                = (.ok entries, request, spool)
              ∧ fields = Multimap.putUnless {} (request.formFields c.engine entries)
                c.query.1.values
              ∧ c.form = (.ok fields,
                { c.query.2 with request, spool, formMemo := ⟨some fields⟩ })) := by
  cases hkind : FormKind.multipart.announcedBy c.request.head.contentType with
  | true => exact .inl ⟨rfl, by simp only [form, hkind, ↓reduceIte]⟩
  | false =>
    refine .inr ⟨rfl, ?_⟩
    cases hm : c.formMemo.value with
    | some fields =>
      have hq : c.query.2.formMemo.value = some fields := hm
      refine .inl ⟨fields, rfl, ?_⟩
      simp only [form, hkind, Memo.getOrTry, hq, Bool.false_eq_true, ↓reduceIte]
    | none =>
      have hq : c.query.2.formMemo.value = none := hm
      rcases hf : c.request.formEntries (some c.limits) c.spool
        with ⟨cause | entries, request, spool⟩
      · refine .inr ⟨rfl, request, spool, .inl ⟨cause, rfl, ?_⟩⟩
        simp only [form, hkind, Memo.getOrTry, hq, readForm_query hf, Except.map,
          Bool.false_eq_true, ↓reduceIte]
      · refine .inr ⟨rfl, request, spool, .inr ⟨entries, _, rfl, rfl, ?_⟩⟩
        simp only [form, hkind, Memo.getOrTry, hq, readForm_query hf, Except.map,
          Bool.false_eq_true, ↓reduceIte]

theorem request_of_formEntries {c : Context} {result : Except Error (List FormEntry)}
    {request : Request} {spool : Spool}
    (hf : c.request.formEntries (some c.limits) c.spool = (result, request, spool)) :
    ∃ input entries, request = { c.request with input, entries } := by
  have hrequest := Request.formEntries_request (some c.limits) c.request c.spool
  rwa [hf] at hrequest

theorem head_of_formEntries {c : Context} {result : Except Error (List FormEntry)}
    {request : Request} {spool : Spool}
    (hf : c.request.formEntries (some c.limits) c.spool = (result, request, spool)) :
    request.head = c.request.head := by
  obtain ⟨input, entries, rfl⟩ := request_of_formEntries hf
  rfl

theorem decoder_of_formEntries {c : Context} {result : Except Error (List FormEntry)}
    {request : Request} {spool : Spool}
    (hf : c.request.formEntries (some c.limits) c.spool = (result, request, spool)) :
    request.decoder = c.request.decoder := by
  obtain ⟨input, entries, rfl⟩ := request_of_formEntries hf
  rfl

/-- Reading the entries changes the request and the spool, but not what the request says. -/
theorem continues_of_formEntries {c d : Context} {result : Except Error (List FormEntry)}
    {request : Request} {spool : Spool}
    (hf : c.request.formEntries (some c.limits) c.spool = (result, request, spool))
    (hd : d.fixed = { c with request, spool }.fixed) (hr : d.response = c.response) :
    Continues c d := by
  have hhead := head_of_formEntries hf
  refine .of_fixed ?_ (hr ▸ .refl _)
  rw [hd]
  simp only [fixed, hhead]

/-- The files of a form are registered when it is read, which happens once. -/
theorem continues_multipart (c : Context) : Continues c c.multipart.2 := by
  rcases c.multipart_cases with ⟨form, _, hc⟩
    | ⟨hm, request, spool, ⟨cause, hf, hc⟩ | ⟨entries, form, hf, _, hc⟩⟩ <;> rw [hc]
  · exact .of_fixed rfl (.refl _)
  · exact continues_of_formEntries hf rfl rfl
  · -- until now no form was kept, so its files are the only uploads
    have hread : Continues c { c with request, spool } := continues_of_formEntries hf rfl rfl
    have hregistered : c.uploads = c.registered → c.uploads ++ form.files = form.files := by
      intro hu
      rw [hu, registered, hm]
      rfl
    exact { hread with uploads := hregistered }

theorem continues_form (c : Context) : Continues c c.form.2 := by
  rcases c.form_cases with ⟨_, hc⟩ | ⟨_, ⟨fields, _, hc⟩
    | ⟨_, request, spool, ⟨cause, hf, hc⟩ | ⟨entries, fields, hf, _, hc⟩⟩⟩ <;> rw [hc]
  · exact continues_multipart c
  · exact .of_fixed rfl (.refl _)
  · exact continues_of_formEntries hf rfl rfl
  · exact continues_of_formEntries hf rfl rfl

/-- Reading a form says nothing of the response. -/
theorem response_multipart (c : Context) : c.multipart.2.response = c.response := by
  rcases c.multipart_cases with ⟨form, _, hc⟩
    | ⟨_, request, spool, ⟨cause, _, hc⟩ | ⟨entries, form, _, _, hc⟩⟩ <;> rw [hc] <;> rfl

theorem response_form (c : Context) : c.form.2.response = c.response := by
  rcases c.form_cases with ⟨_, hc⟩ | ⟨_, ⟨fields, _, hc⟩
    | ⟨_, request, spool, ⟨cause, _, hc⟩ | ⟨entries, fields, _, _, hc⟩⟩⟩ <;> rw [hc]
  · exact response_multipart c
  all_goals rfl

/-! ### Passing the request on -/

theorem continues_markAsync (c : Context) : Continues c c.markAsync := by
  unfold markAsync
  split
  · exact .refl c
  · exact ⟨rfl, rfl, .refl _, rfl, rfl, id, [.wentAsync], rfl, by simp [Event.isHop]⟩

theorem continues_passTo (c : Context) (executor : Executor) :
    Continues c (c.passTo executor).2 := by
  unfold passTo
  split
  · exact .refl c
  · refine (continues_markAsync c).trans ?_
    exact ⟨rfl, rfl, .refl _, rfl, rfl, id, [.handedOver executor.name], rfl,
      by simp [Event.isHop]⟩

/-! ### Speaking of the response -/

theorem continues_defaultType (c : Context) (type : MediaType) :
    Continues c (c.defaultType type) := by
  unfold defaultType
  split
  · exact .of_head rfl rfl
  · exact .refl c

theorem continues_openSender (c : Context) : Continues c c.openSender := by
  have hr : Continues c { c with response := c.response.setChunkedWithoutLength } :=
    .of_head rfl rfl
  unfold openSender
  split
  · exact hr.trans (continues_markAsync _)
  · exact .refl c

theorem continues_announceRange (c : Context) (range : ByteRange) :
    Continues c (c.announceRange range) := by
  unfold announceRange
  split
  · exact .of_head rfl rfl
  · exact .refl c

end Context

namespace Script

open Context (Continues)

theorem continues_item (whole : Bool) (r : Response) (item : Item) :
    r.Continues (item.write whole r).2 := by
  cases item with
  | flush => exact r.continues_flush
  | data bytes =>
    cases whole with
    | true => exact r.continues_writeAll bytes
    | false => exact r.continues_write bytes

theorem continues_writeItems (whole : Bool) (items : List Item) (r : Response) :
    r.Continues (writeItems whole items r).2 := by
  induction items generalizing r with
  | nil => exact .refl r
  | cons item rest ih => exact (continues_item whole r item).trans (ih _)

theorem continues_writeOut (c : Context) (items : List Item) (whole : Bool) :
    Continues c (writeOut c items whole).2 :=
  .of_fixed rfl (continues_writeItems whole items c.response)

end Script

end HttpContext
