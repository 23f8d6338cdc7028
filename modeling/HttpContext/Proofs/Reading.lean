import HttpContext.Proofs.Endings
import HttpContext.Proofs.RequestData
/-!
A request can be read as often as its handler likes and in any order. Each value is made once and
kept, and the body is read once; the invariant `Context.Reads` says what the kept values are and
what is left to be read. Under the greatest limit no body is read, and `Context.Refused` says that
nothing is ever kept of it. Main statement: `Script.reads_reference`.
-/
namespace HttpContext

namespace Memo

variable {α : Type} {σ : Type}

/-- The memo holds no other value than this one. -/
def Agrees (m : Memo α) (a : α) : Prop := ∀ b, m.value = some b → b = a

variable {m : Memo α} {a : α}

theorem agrees_empty (a : α) : Agrees {} a := fun _ h => nomatch h

theorem agrees_some (a : α) : Agrees ⟨some a⟩ a := fun _ h => (Option.some.inj h).symm

theorem Agrees.getOrInit (h : m.Agrees a) (init : σ → α × σ) (s : σ) (hi : (init s).1 = a) :
    (m.getOrInit init s).1 = a ∧ (m.getOrInit init s).2.1.Agrees a := by
  unfold Memo.getOrInit
  split
  · rename_i value hvalue
    exact ⟨h value hvalue, h⟩
  · exact ⟨hi, hi ▸ agrees_some _⟩

end Memo

/-- What a form with these entries looks like beside this query. -/
def MultipartForm.ofEntries (query : List (String × String)) (entries : List FormEntry) :
    MultipartForm where
  fields := .group .exact (FormEntry.fieldsBeside query entries)
  files := entries.filterMap FormEntry.upload?

namespace Context

/-! ### What a memo that agrees returns -/

section Agreeing

variable {c : Context}

theorem query_of_agrees
    (h : c.queryMemo.Agrees (c.request.head.parsedQuery c.request.decoder)) :
    c.query.1 = c.request.head.parsedQuery c.request.decoder
      ∧ c.query.2.queryMemo.Agrees (c.request.head.parsedQuery c.request.decoder) :=
  h.getOrInit (fun _ : Unit => (c.request.head.parsedQuery c.request.decoder, ())) () rfl

theorem headers_of_agrees
    (h : c.headersMemo.Agrees (.group .ignoringCase c.request.head.headers.entries)) :
    c.headers.1 = .group .ignoringCase c.request.head.headers.entries
      ∧ c.headers.2.headersMemo.Agrees (.group .ignoringCase c.request.head.headers.entries) :=
  h.getOrInit (fun _ : Unit =>
    (Multimap.putAll { rule := .ignoringCase } (c.request.headerLines c.engine), ())) ()
    (Request.putAll_headerLines c.engine c.request)

theorem fields_of_agrees
    (h : c.queryMemo.Agrees (c.request.head.parsedQuery c.request.decoder)) {request : Request}
    (hhead : request.head = c.request.head) (hdecoder : request.decoder = c.request.decoder)
    (entries : List FormEntry) :
    Multimap.putUnless {} (request.formFields c.engine entries) c.query.1.values
      = (MultipartForm.ofEntries (c.request.head.queryPairs c.request.decoder) entries).fields := by
  rw [(query_of_agrees h).1, ← hhead, ← hdecoder]
  exact Request.putUnless_formFields c.engine request entries

end Agreeing

/-- What is kept of the head of this request is right. -/
structure Knows (router : Router) (head : RequestHead) (decoder : Urlencoded.Decoder)
    (s : RequestSide) : Prop where
  query : s.queryMemo.Agrees (head.parsedQuery decoder)
  headers : s.headersMemo.Agrees (.group .ignoringCase head.headers.entries)
  router : s.router = router
  head : s.head = head
  decodes : s.decoder = decoder

section Knowing

variable {router : Router} {head : RequestHead} {decoder : Urlencoded.Decoder} {c : Context}

theorem Knows.agrees (h : Knows router head decoder c.requestSide) :
    c.queryMemo.Agrees (c.request.head.parsedQuery c.request.decoder) := by
  have hhead : c.request.head = head := h.head
  have hdecoder : c.request.decoder = decoder := h.decodes
  rw [hhead, hdecoder]
  exact h.query

theorem Knows.query_eq (h : Knows router head decoder c.requestSide) :
    c.query.1 = head.parsedQuery decoder ∧ Knows router head decoder c.query.2.requestSide := by
  have hhead : c.request.head = head := h.head
  have hdecoder : c.request.decoder = decoder := h.decodes
  have hq := query_of_agrees h.agrees
  rw [hhead, hdecoder] at hq
  exact ⟨hq.1, { h with query := hq.2 }⟩

theorem Knows.headers_eq (h : Knows router head decoder c.requestSide) :
    c.headers.1 = .group .ignoringCase head.headers.entries
      ∧ Knows router head decoder c.headers.2.requestSide := by
  have hhead : c.request.head = head := h.head
  have hh := headers_of_agrees (c := c) (hhead ▸ h.headers)
  rw [hhead] at hh
  exact ⟨hh.1, { h with headers := hh.2 }⟩

theorem Knows.fields_eq (h : Knows router head decoder c.requestSide) {request : Request}
    (hhead : request.head = head) (hdecoder : request.decoder = decoder)
    (entries : List FormEntry) :
    Multimap.putUnless {} (request.formFields c.engine entries) c.query.1.values
      = (MultipartForm.ofEntries (head.queryPairs decoder) entries).fields := by
  have hsame : c.request.head = head := h.head
  have hdecodes : c.request.decoder = decoder := h.decodes
  have hfields := fields_of_agrees h.agrees (hhead.trans hsame.symm) (hdecoder.trans hdecodes.symm)
    entries
  rwa [hsame, hdecodes] at hfields

/-- A reading of the entries leaves what is known of the head. -/
theorem Knows.of_formEntries (h : Knows router head decoder c.requestSide)
    {result : Except Error (List FormEntry)} {request : Request} {spool : Spool}
    (hf : c.request.formEntries (some c.limits) c.spool = (result, request, spool)) :
    request.head = head ∧ request.decoder = decoder
      ∧ Knows router head decoder { c.query.2 with request, spool }.requestSide := by
  have hhead := (head_of_formEntries hf).trans h.head
  have hdecoder := (decoder_of_formEntries hf).trans h.decodes
  exact ⟨hhead, hdecoder, { h.query_eq.2 with head := hhead, decodes := hdecoder }⟩

end Knowing

/-- The body of the message has not been touched. -/
structure Unread (message : RequestMessage) (spool : Spool) (s : RequestSide) : Prop where
  input : s.input = some (.ofBytes message.body)
  entries : s.entries.value = none
  multipartMemo : s.multipartMemo.value = none
  spool : s.spool = spool

/-- Whatever has been read of the message is what there is to read, and the rest can be read yet. -/
structure Reads (router : Router) (message : RequestMessage) (decoder : Urlencoded.Decoder)
    (spool : Spool) (entries : List FormEntry) (s : RequestSide) : Prop
    extends Knows router message.head decoder s where
  form : s.formMemo.Agrees (MultipartForm.ofEntries (message.head.queryPairs decoder) entries).fields
  multipart : s.multipartMemo.Agrees (.ofEntries (message.head.queryPairs decoder) entries)
  body : s.entries.value = some entries ∨ Unread message spool s

variable {router : Router} {message : RequestMessage} {decoder : Urlencoded.Decoder}
  {spool : Spool} {entries : List FormEntry} {c : Context}

theorem Reads.query_eq (h : Reads router message decoder spool entries c.requestSide) :
    Reads router message decoder spool entries c.query.2.requestSide :=
  { h with toKnows := h.toKnows.query_eq.2, body := h.body.imp id fun hu => { hu with } }

theorem Reads.headers_eq (h : Reads router message decoder spool entries c.requestSide) :
    Reads router message decoder spool entries c.headers.2.requestSide :=
  { h with toKnows := h.toKnows.headers_eq.2, body := h.body.imp id fun hu => { hu with } }

/-! ### Reading the body -/

variable (hsize : FormKind.ofContentType message.head.contentType = none
    ∨ Body.Admits router.config.maxRequestSize message.body.length)
  (hentries : (FormEntry.ofBody decoder message.head.contentType router.config.bufferSize
    message.body spool).1 = .ok entries)

include hsize hentries

theorem Reads.readEntries_eq (h : Reads router message decoder spool entries c.requestSide)
    (hu : Unread message spool c.requestSide) :
    (Request.readEntries (some c.limits) (c.request, c.spool)).1 = .ok entries := by
  have hrouter : c.router = router := h.router
  have hhead : c.request.head = message.head := h.head
  have hdecoder : c.request.decoder = decoder := h.decodes
  have hspool : c.spool = spool := hu.spool
  subst hrouter hdecoder hspool
  have hsize' : FormKind.ofContentType c.request.head.contentType = none
      ∨ Body.Admits c.limits.maxSize (Source.content (.ofBytes message.body)).length := by
    rw [hhead, Source.content_ofBytes]
    exact hsize
  rw [Request.readEntries_of_input hu.input (Source.isSteady_ofBytes _) hsize', hhead,
    Source.content_ofBytes]
  exact hentries

theorem Reads.formEntries_eq (h : Reads router message decoder spool entries c.requestSide)
    {result : Except Error (List FormEntry)} {request : Request} {rest : Spool}
    (hf : c.request.formEntries (some c.limits) c.spool = (result, request, rest)) :
    result = .ok entries ∧ request.entries.value = some entries := by
  rcases Request.formEntries_cases (some c.limits) c.request c.spool with ⟨kept, hr, hform⟩
    | ⟨hr, request, rest, ⟨cause, hread, hform⟩ | ⟨found, hread, hform⟩⟩ <;>
    cases hform.symm.trans hf
  · -- entries that are kept come of an earlier reading of this body
    have hkept : c.request.entries.value = some entries := by
      rcases h.body with hread | hu
      · exact hread
      · cases hr.symm.trans hu.entries
    cases hr.symm.trans hkept
    exact ⟨rfl, hkept⟩
  -- with no entries kept the body has not been touched, and so it reads as it should
  all_goals
    have hu : Unread message spool c.requestSide := by
      rcases h.body with hread | hu
      · cases hr.symm.trans hread
      · exact hu
    have hok := h.readEntries_eq hsize hentries hu
    rw [hread] at hok
    cases hok
  exact ⟨rfl, rfl⟩

theorem Reads.multipart_eq (h : Reads router message decoder spool entries c.requestSide) :
    c.multipart.1 = .ok (.ofEntries (message.head.queryPairs decoder) entries)
      ∧ Reads router message decoder spool entries c.multipart.2.requestSide
      ∧ c.multipart.2.request.entries.value = some entries := by
  rcases c.multipart_cases with ⟨form, hm, hc⟩
    | ⟨_, request, rest, ⟨cause, hf, hc⟩ | ⟨found, form, hf, hform, hc⟩⟩ <;> rw [hc]
  · have hkept := h.multipart form hm
    -- a form is only there when the body has been read for it
    have hread : c.request.entries.value = some entries := by
      rcases h.body with hread | hu
      · exact hread
      · cases hm.symm.trans hu.multipartMemo
    exact ⟨congrArg _ hkept, { h.query_eq with body := .inl hread }, hread⟩
  · cases (h.formEntries_eq hsize hentries hf).1
  · obtain ⟨hok, hread⟩ := h.formEntries_eq hsize hentries hf
    obtain ⟨hhead, hdecoder, hknows⟩ := h.toKnows.of_formEntries hf
    cases hok
    have hsame : form = .ofEntries (message.head.queryPairs decoder) entries := by
      rw [hform, h.fields_eq hhead hdecoder]
      rfl
    refine ⟨congrArg _ hsame, ?_, hread⟩
    exact {
      toKnows := { hknows with }
      form := h.form
      multipart := hsame ▸ Memo.agrees_some form
      body := .inl hread }

theorem Reads.form_eq (h : Reads router message decoder spool entries c.requestSide) :
    c.form.1 = .ok (MultipartForm.ofEntries (message.head.queryPairs decoder) entries).fields
      ∧ Reads router message decoder spool entries c.form.2.requestSide
      ∧ (c.request.entries.value = some entries → c.form.2.request.entries.value = some entries) := by
  rcases c.form_cases with ⟨_, hc⟩ | ⟨_, ⟨fields, hm, hc⟩
    | ⟨_, request, rest, ⟨cause, hf, hc⟩ | ⟨found, fields, hf, hfields, hc⟩⟩⟩ <;> rw [hc]
  · obtain ⟨hform, hreads, hread⟩ := h.multipart_eq hsize hentries
    rw [hform]
    exact ⟨rfl, hreads, fun _ => hread⟩
  · exact ⟨congrArg _ (h.form fields hm), h.query_eq, id⟩
  · cases (h.formEntries_eq hsize hentries hf).1
  · obtain ⟨hok, hread⟩ := h.formEntries_eq hsize hentries hf
    obtain ⟨hhead, hdecoder, hknows⟩ := h.toKnows.of_formEntries hf
    cases hok
    have hsame := hfields.trans (h.fields_eq hhead hdecoder entries)
    refine ⟨congrArg _ hsame, ?_, fun _ => hread⟩
    exact {
      toKnows := { hknows with }
      form := hsame ▸ Memo.agrees_some fields
      multipart := h.multipart
      body := .inl hread }

omit hsize hentries

/-! ### A body that cannot be read -/

/-- Nothing is kept of the body. -/
structure Refused (router : Router) (head : RequestHead) (decoder : Urlencoded.Decoder)
    (s : RequestSide) : Prop extends Knows router head decoder s where
  entries : s.entries.value = none
  form : s.formMemo.value = none
  multipart : s.multipartMemo.value = none

section Refusing

variable {head : RequestHead}
  (hlimit : UInt64.size ≤ router.config.maxRequestSize.toNat + 1)
  (hkind : FormKind.ofContentType head.contentType ≠ none)
  (hboundary : FormKind.ofContentType head.contentType = some .multipart →
    head.contentType.bind Parameters.boundary? ≠ none)

include hlimit hkind hboundary

theorem Refused.formEntries_eq (h : Refused router head decoder c.requestSide)
    {result : Except Error (List FormEntry)} {request : Request} {rest : Spool}
    (hf : c.request.formEntries (some c.limits) c.spool = (result, request, rest)) :
    result = .error (.tooLarge router.config.maxRequestSize.toNat)
      ∧ request.entries.value = none := by
  have hrouter : c.router = router := h.router
  have hhead : c.request.head = head := h.head
  have hnone : c.request.entries.value = none := h.entries
  subst hrouter hhead
  have hlimits : UInt64.size ≤ c.limits.maxSize.toNat + 1 := hlimit
  have hrefused : (Request.readEntries (some c.limits) (c.request, c.spool)).1
      = .error (.tooLarge c.router.config.maxRequestSize.toNat) :=
    Request.readEntries_of_le hlimits hkind hboundary c.spool
  rcases Request.formEntries_cases (some c.limits) c.request c.spool with ⟨kept, hr, hform⟩
    | ⟨hr, request, rest, ⟨cause, hread, hform⟩ | ⟨found, hread, hform⟩⟩ <;>
    cases hform.symm.trans hf
  · cases hr.symm.trans hnone
  · rw [hread] at hrefused
    exact ⟨hrefused, hr⟩
  · rw [hread] at hrefused
    cases hrefused

theorem Refused.multipart_eq (h : Refused router head decoder c.requestSide) :
    c.multipart.1 = .error (.tooLarge router.config.maxRequestSize.toNat)
      ∧ Refused router head decoder c.multipart.2.requestSide := by
  rcases c.multipart_cases with ⟨form, hm, hc⟩
    | ⟨_, request, rest, ⟨cause, hf, hc⟩ | ⟨found, form, hf, _, hc⟩⟩ <;> rw [hc]
  · cases hm.symm.trans h.multipart
  · obtain ⟨hcause, hnone⟩ := h.formEntries_eq hlimit hkind hboundary hf
    cases hcause
    exact ⟨rfl, (h.toKnows.of_formEntries hf).2.2, hnone, h.form, h.multipart⟩
  · cases (h.formEntries_eq hlimit hkind hboundary hf).1

theorem Refused.form_eq (h : Refused router head decoder c.requestSide) :
    c.form.1 = .error (.tooLarge router.config.maxRequestSize.toNat)
      ∧ Refused router head decoder c.form.2.requestSide := by
  rcases c.form_cases with ⟨_, hc⟩ | ⟨_, ⟨fields, hm, hc⟩
    | ⟨_, request, rest, ⟨cause, hf, hc⟩ | ⟨found, fields, hf, _, hc⟩⟩⟩ <;> rw [hc]
  · obtain ⟨hform, hrefused⟩ := h.multipart_eq hlimit hkind hboundary
    rw [hform]
    exact ⟨rfl, hrefused⟩
  · cases hm.symm.trans h.form
  · obtain ⟨hcause, hnone⟩ := h.formEntries_eq hlimit hkind hboundary hf
    cases hcause
    exact ⟨rfl, (h.toKnows.of_formEntries hf).2.2, hnone, h.form, h.multipart⟩
  · cases (h.formEntries_eq hlimit hkind hboundary hf).1

end Refusing

end Context

namespace Script

open Context (Knows Reads Refused)

/-- Every value that the handler has asked for is right, and it keeps no files of an unread body. -/
structure ReadsSoFar (router : Router) (message : RequestMessage) (decoder : Urlencoded.Decoder)
    (spool : Spool) (entries : List FormEntry) (h : Handler) : Prop where
  reads : Reads router message decoder spool entries h.context.requestSide
  kept : h.kept = none ∨ h.context.request.entries.value = some entries

variable {router : Router} {message : RequestMessage} {decoder : Urlencoded.Decoder}
  {spool : Spool} {entries : List FormEntry}

/-- What is done to a kept file comes too late for the reading of the body. -/
theorem ReadsSoFar.withSpool {h : Handler} (hr : ReadsSoFar router message decoder spool entries h)
    {index : Nat} {upload : Upload} (hu : h.kept? index = some upload) (s : Spool) :
    ReadsSoFar router message decoder spool entries
      { h with context := { h.context with spool := s } } := by
  have hread : h.context.request.entries.value = some entries := by
    refine hr.kept.resolve_left fun hnone => ?_
    rw [Handler.kept?, hnone] at hu
    cases hu
  exact ⟨{ hr.reads with body := .inl hread }, .inr hread⟩

/-- A handler whose request is as it was knows the same of it. -/
theorem ReadsSoFar.of_requestSide {g h : Handler}
    (hr : ReadsSoFar router message decoder spool entries h)
    (hside : g.context.requestSide = h.context.requestSide) (hkept : g.kept = h.kept) :
    ReadsSoFar router message decoder spool entries g := by
  have hvalue : g.context.request.entries = h.context.request.entries :=
    congrArg Context.RequestSide.entries hside
  exact ⟨hside ▸ hr.reads, by rw [hkept, hvalue]; exact hr.kept⟩

section Arriving

variable (hsize : FormKind.ofContentType message.head.contentType = none
    ∨ Body.Admits router.config.maxRequestSize message.body.length)
  (hentries : (FormEntry.ofBody decoder message.head.contentType router.config.bufferSize
    message.body spool).1 = .ok entries)

include hsize hentries

theorem ReadsSoFar.act {h : Handler} (hr : ReadsSoFar router message decoder spool entries h)
    {action : Action} (hbody : ∀ use, action ≠ .body use) :
    ReadsSoFar router message decoder spool entries (act h action).2 := by
  cases hasks : action.asksRequest with
  | false =>
    -- what is read of the request is not touched
    obtain ⟨hside, hkept⟩ := requestSide_act h hasks
    exact hr.of_requestSide hside hkept
  | true =>
    cases action
    case body use => exact absurd rfl (hbody use)
    case query => exact ⟨hr.reads.query_eq, hr.kept⟩
    case headers => exact ⟨hr.reads.headers_eq, hr.kept⟩
    case header name => exact ⟨hr.reads.headers_eq, hr.kept⟩
    case form =>
      obtain ⟨_, hreads, hread⟩ := hr.reads.form_eq hsize hentries
      exact ⟨hreads, hr.kept.imp id hread⟩
    case multipart =>
      obtain ⟨_, hreads, hread⟩ := hr.reads.multipart_eq hsize hentries
      exact ⟨hreads, .inr hread⟩
    case destroyUpload index =>
      simp only [Script.act]
      split
      · exact hr
      · rename_i upload hu
        exact hr.withSpool hu _
    case removeFile index =>
      simp only [Script.act]
      split
      · exact hr
      · rename_i upload hu
        exact hr.withSpool hu _
    all_goals cases hasks

theorem ReadsSoFar.arrive {h : Handler} (hr : ReadsSoFar router message decoder spool entries h)
    {steps : List Step} (hbody : ∀ use, .act (.body use) ∉ steps) :
    ReadsSoFar router message decoder spool entries (arrive h steps).1 := by
  refine arrive_induction (fun h action hm hr => ?_) (fun h executor hr => ?_) (fun h hr => ?_) hr
  · exact hr.act hsize hentries fun use he => hbody use (he ▸ hm)
  · exact hr.of_requestSide (requestSide_dispatch h executor) rfl
  · exact hr.of_requestSide (requestSide_detach h) rfl

end Arriving

section Refusing

variable {head : RequestHead}
  (hlimit : UInt64.size ≤ router.config.maxRequestSize.toNat + 1)
  (hkind : FormKind.ofContentType head.contentType ≠ none)
  (hboundary : FormKind.ofContentType head.contentType = some .multipart →
    head.contentType.bind Parameters.boundary? ≠ none)

include hlimit hkind hboundary

theorem refused_act {h : Handler} (hr : Refused router head decoder h.context.requestSide)
    (action : Action) : Refused router head decoder (act h action).2.context.requestSide := by
  cases hasks : action.asksRequest with
  | false => exact (requestSide_act h hasks).1 ▸ hr
  | true =>
    cases action
    case query => exact { hr with toKnows := hr.toKnows.query_eq.2 }
    case headers => exact { hr with toKnows := hr.toKnows.headers_eq.2 }
    case header name => exact { hr with toKnows := hr.toKnows.headers_eq.2 }
    case form => exact (hr.form_eq hlimit hkind hboundary).2
    case multipart => exact (hr.multipart_eq hlimit hkind hboundary).2
    case body use => exact { hr with }
    case destroyUpload index =>
      simp only [act]
      split
      · exact hr
      · exact { hr with }
    case removeFile index =>
      simp only [act]
      split
      · exact hr
      · exact { hr with }
    all_goals cases hasks

theorem refused_arrive {h : Handler} (hr : Refused router head decoder h.context.requestSide)
    (steps : List Step) :
    Refused router head decoder (arrive h steps).1.context.requestSide := by
  refine arrive_induction (P := fun h => Refused router head decoder h.context.requestSide)
    (fun h action _ hr => refused_act hlimit hkind hboundary hr action)
    (fun h executor hr => ?_) (fun h hr => ?_) hr
  · rwa [requestSide_dispatch]
  · rwa [requestSide_detach]

end Refusing

/-- On either engine, and whatever the handler has done before unless it took the body itself, the
headers are the header lines grouped by name, each value being there once, and the query is what it
was at first. The form has the fields of the body that are not named in the query, grouped by name,
with the files in their order; except that a router with the greatest limit of all refuses every
body that has to be read for a form. -/
theorem reads_reference (decoder : Urlencoded.Decoder) (engine : Engine) (io : Executor)
    (peer : Option Peer) (sink : Sink) (steps : List Step)
    (hbody : ∀ use, .act (.body use) ∉ steps)
    (hsize : router.config.maxRequestSize = 0
      ∨ message.body.length ≤ router.config.maxRequestSize.toNat)
    (hentries : (FormEntry.ofBody decoder message.head.contentType router.config.bufferSize
      message.body spool).1 = .ok entries) :
    let request := { Request.ofMessage message peer with decoder }
    let fresh : Context := .start engine router io request sink spool
    let c := (arrive ⟨fresh, none⟩ steps).1.context
    let query := fresh.query.1
    let fields := (entries.filterMap FormEntry.field?).filter fun field =>
      field.1 ∉ (query.pairs decoder).map Prod.fst
    let isRead := FormKind.ofContentType message.head.contentType = none
      ∨ router.config.maxRequestSize.toNat + 1 < UInt64.size
    c.headers.1 = .group .ignoringCase message.head.headers.entries
      ∧ (c.headers.1.entries.flatMap Prod.snd).Perm (message.head.headers.entries.map Prod.snd)
      ∧ c.query.1 = query
      ∧ (isRead → c.form.1 = .ok (.group .exact fields)
        ∧ c.multipart.1 = .ok ⟨.group .exact fields, entries.filterMap FormEntry.upload?⟩)
      ∧ (¬ isRead → c.form.1 = .error (.tooLarge router.config.maxRequestSize.toNat)
        ∧ c.multipart.1 = .error (.tooLarge router.config.maxRequestSize.toNat)) := by
  intro request fresh c query fields isRead
  have hknows : Knows router message.head decoder fresh.requestSide :=
    ⟨Memo.agrees_empty _, Memo.agrees_empty _, rfl, rfl, rfl⟩
  have hquery : query = message.head.parsedQuery decoder := hknows.query_eq.1
  have hperm := Multimap.perm_values_group .ignoringCase message.head.headers.entries
  by_cases hread : isRead
  · have hadmits : FormKind.ofContentType message.head.contentType = none
        ∨ Body.Admits router.config.maxRequestSize message.body.length :=
      hread.imp id fun hcount => hsize.imp id fun hle => ⟨hcount, hle⟩
    have hfresh : ReadsSoFar router message decoder spool entries ⟨fresh, none⟩ :=
      ⟨⟨hknows, Memo.agrees_empty _, Memo.agrees_empty _, .inr ⟨rfl, rfl, rfl, rfl⟩⟩, .inl rfl⟩
    have hc := (hfresh.arrive hadmits hentries hbody).reads
    have hheaders := hc.toKnows.headers_eq.1
    refine ⟨hheaders, hheaders ▸ hperm, hc.toKnows.query_eq.1.trans hquery.symm, fun _ => ?_,
      absurd hread⟩
    have hform := (hc.form_eq hadmits hentries).1
    have hmultipart := (hc.multipart_eq hadmits hentries).1
    rw [RequestHead.queryPairs, ← hquery] at hform hmultipart
    exact ⟨hform, hmultipart⟩
  · obtain ⟨hkind, hcount⟩ := not_or.1 hread
    have hlimit := Nat.le_of_not_lt hcount
    -- entries could be made of the body, so its parts have a boundary
    have hboundary : FormKind.ofContentType message.head.contentType = some .multipart →
        message.head.contentType.bind Parameters.boundary? ≠ none := by
      intro hmultipart hnone
      simp only [FormEntry.ofBody, hmultipart, hnone] at hentries
      cases hentries
    have hfresh : Refused router message.head decoder fresh.requestSide := ⟨hknows, rfl, rfl, rfl⟩
    have hc := refused_arrive (h := ⟨fresh, none⟩) hlimit hkind hboundary hfresh steps
    have hheaders := hc.toKnows.headers_eq.1
    exact ⟨hheaders, hheaders ▸ hperm, hc.toKnows.query_eq.1.trans hquery.symm,
      fun h => absurd h hread,
      fun _ => ⟨(hc.form_eq hlimit hkind hboundary).1, (hc.multipart_eq hlimit hkind hboundary).1⟩⟩

/-- The form is read twice: two fields of one name, and one that the query has. -/
theorem reads_reference_urlencoded :
    let router : Router := { config := .default ⟨"/tmp", 1⟩, worker := .sameThread 0 }
    let headers : HeaderFields := ⟨[("X-A", "1"),
      ("Content-Type", "application/x-www-form-urlencoded"), ("x-a", "2")]⟩
    let message : RequestMessage :=
      ⟨{ method := .post, path := "/", query := some "a=0", headers }, Utf8.encode "b=1&a=2&b=3"⟩
    let fresh : Context := .start .stream router (.ioThread 1 "io") (.ofMessage message none) {} {}
    let c := (arrive ⟨fresh, none⟩ [.act .form, .detach]).1.context
    let query := fresh.query.1
    let entries := [.field "b" "1", .field "a" "2", .field "b" "3"]
    let fields := (entries.filterMap FormEntry.field?).filter fun field =>
      field.1 ∉ (query.pairs Urlencoded.decoder).map Prod.fst
    c.headers.1 = .group .ignoringCase headers.entries
      ∧ (c.headers.1.entries.flatMap Prod.snd).Perm (headers.entries.map Prod.snd)
      ∧ c.query.1 = query
      ∧ c.form.1 = .ok (.group .exact fields)
      ∧ c.multipart.1 = .ok ⟨.group .exact fields, entries.filterMap FormEntry.upload?⟩ := by
  intro router headers message fresh c query entries fields
  have hentries : (FormEntry.ofBody Urlencoded.decoder message.head.contentType
      router.config.bufferSize message.body {}).1 = .ok entries := by
    decide +kernel
  obtain ⟨hheaders, hperm, hquery, hread, -⟩ := reads_reference Urlencoded.decoder .stream
    (.ioThread 1 "io") none {} [.act .form, .detach] (by simp) (.inr (by decide +kernel)) hentries
  obtain ⟨hform, hmultipart⟩ := hread (.inr (by decide +kernel))
  exact ⟨hheaders, hperm, hquery, hform, hmultipart⟩

/-- Under the greatest limit a body of three bytes is too large. -/
theorem form_under_greatest_limit :
    let config := { Config.default ⟨"/tmp", 1⟩ with maxRequestSize := 0xFFFFFFFFFFFFFFFF }
    let router : Router := { config, worker := .sameThread 0 }
    let headers : HeaderFields := ⟨[("Content-Type", "application/x-www-form-urlencoded")]⟩
    let message : RequestMessage :=
      ⟨{ method := .post, path := "/", headers }, Utf8.encode "a=1"⟩
    let fresh : Context := .start .stream router (.ioThread 1 "io") (.ofMessage message none) {} {}
    message.body.length ≤ config.maxRequestSize.toNat
      ∧ (FormEntry.ofBody Urlencoded.decoder message.head.contentType config.bufferSize message.body
        {}).1 = .ok [.field "a" "1"]
      ∧ fresh.form.1 = .error (.tooLarge 18446744073709551615)
      ∧ fresh.multipart.1 = .error (.tooLarge 18446744073709551615) := by
  decide +kernel

end Script

end HttpContext
