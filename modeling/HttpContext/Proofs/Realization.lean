import HttpContext.Proofs.FormFailure
/-!
What a handler reads of its request it may ask for again and again, in any order: the answers stay
the same, the body is taken once, and its files are stored once. Only under the greatest limit, where
no body is read, the form cannot be had at all. Main statement: `Script.body_is_read_once`.
-/
namespace HttpContext

/-! ### The files of a body -/

/-- The part is a file that is too long for the memory. -/
def Part.isLongFile (threshold : Nat) (part : Part) : Bool :=
  match part.description with
  | .ok { fileName := some _, .. } => threshold < part.content.length
  | _ => false

namespace Multipart

/-- The parts that a body of this content type has. -/
def partsOf (contentType : Option String) (body : Bytes) : List Part :=
  match FormKind.ofContentType contentType, contentType.bind Parameters.boundary? with
  | some .multipart, some boundary =>
    match Bytes.cutAt? (delimiter boundary) body with
    | some (_, rest) => (parts boundary rest).1
    | none => []
  | _, _ => []

end Multipart

namespace Spool

variable {s t : Spool}

theorem fileCount_add {name fileName : String} {contentType : Option String} {content : Bytes}
    {threshold : Nat} {upload : Upload}
    (h : s.add name fileName contentType content threshold = (.ok upload, t)) :
    t.fileCount = s.fileCount + if threshold < content.length then 1 else 0 := by
  unfold add at h
  cases hrefusal : s.refusal? content threshold with
  | some fault =>
    rw [hrefusal] at h
    cases h
  | none =>
    rw [hrefusal] at h
    cases h
    by_cases hshort : content.length ≤ threshold
    · simp [fileCount, List.countP_append, Cell.hasFile, Storage.ofContent, hshort,
        Nat.not_lt.2 hshort]
    · simp [fileCount, List.countP_append, Cell.hasFile, Storage.ofContent, hshort,
        Nat.lt_of_not_le hshort]

end Spool

namespace FormEntry

variable {threshold : Nat} {s t : Spool} {entries : List FormEntry}

theorem fileCount_entry {part : Part} {entry : FormEntry}
    (h : part.entry threshold s = (.ok entry, t)) :
    t.fileCount = s.fileCount + if part.isLongFile threshold then 1 else 0 := by
  unfold Part.entry at h
  unfold Part.isLongFile
  split at h
  · cases h
  · rename_i d hd
    rw [hd]
    obtain ⟨name, fileName, contentType⟩ := d
    cases fileName with
    | none =>
      cases h
      rfl
    | some fileName =>
      simp only at h
      split at h
      · rename_i upload u hadd
        cases h
        simpa only [decide_eq_true_eq] using Spool.fileCount_add hadd
      · cases h

/-- Every part that is a long file has become one file. -/
theorem fileCount_ofParts {parts : List Part} (h : ofParts threshold parts s = (entries, none, t)) :
    t.fileCount = s.fileCount + parts.countP (Part.isLongFile threshold) := by
  induction parts generalizing s entries with
  | nil =>
    cases h
    rfl
  | cons part rest ih =>
    rw [ofParts] at h
    split at h
    · cases h
    · rename_i entry u hentry
      rcases hmore : ofParts threshold rest u with ⟨more, cause, last⟩
      rw [hmore] at h
      cases h
      rw [ih hmore, fileCount_entry hentry, List.countP_cons]
      omega

theorem fileCount_read {boundary : String} {body : Bytes}
    (h : Multipart.read boundary threshold body s = (.ok entries, t)) :
    ∃ front rest, Bytes.cutAt? (Multipart.delimiter boundary) body = some (front, rest)
      ∧ t.fileCount = s.fileCount
        + (Multipart.parts boundary rest).1.countP (Part.isLongFile threshold) := by
  unfold Multipart.read at h
  cases hcut : Bytes.cutAt? (Multipart.delimiter boundary) body with
  | none =>
    rw [hcut] at h
    cases h
  | some cut =>
    obtain ⟨front, rest⟩ := cut
    refine ⟨front, rest, rfl, ?_⟩
    rcases hfound : ofParts threshold (Multipart.parts boundary rest).1 s
      with ⟨found, cause | _, u⟩
    · simp only [hcut, hfound] at h
      -- a body whose parts end early is refused
      split at h <;> cases h
      exact fileCount_ofParts hfound
    · simp only [hcut, hfound] at h
      cases h

theorem fileCount_ofBody {decoder : Urlencoded.Decoder} {contentType : Option String}
    {body : Bytes} (h : ofBody decoder contentType threshold body s = (.ok entries, t)) :
    t.fileCount = s.fileCount
      + (Multipart.partsOf contentType body).countP (Part.isLongFile threshold) := by
  unfold ofBody at h
  unfold Multipart.partsOf
  rcases hkind : FormKind.ofContentType contentType with _ | _ | _
  · rw [hkind] at h
    cases h
    rfl
  · rw [hkind] at h
    cases h
    rfl
  · rw [hkind] at h
    cases hboundary : contentType.bind Parameters.boundary? with
    | none =>
      simp only [hboundary] at h
      cases h
    | some boundary =>
      simp only [hboundary] at h
      obtain ⟨front, rest, hcut, hcount⟩ := fileCount_read h
      simp only [hcut]
      exact hcount

end FormEntry

/-! ### One reading of a body -/

namespace Request

/-- What a reading leaves of the input: a body that is no form is not touched. -/
def inputLeft (head : RequestHead) (input : Option Source) : Option Source :=
  match FormKind.ofContentType head.contentType with
  | none => input
  | some _ => none

theorem readEntries_of_bytes {r : Request} {limits : FormLimits} {data : Bytes}
    {entries : List FormEntry} {spool after : Spool}
    (hbody : FormKind.ofContentType r.head.contentType ≠ none →
      (r.takeBody limits.maxSize).1.bytes = .ok data)
    (hentries : FormEntry.ofBody r.decoder r.head.contentType limits.threshold data spool
      = (.ok entries, after)) :
    readEntries (some limits) (r, spool)
      = (.ok entries, { r with input := inputLeft r.head r.input }, after) := by
  unfold FormEntry.ofBody at hentries
  unfold readEntries inputLeft
  simp only [Option.map_some, Option.getD_some]
  rcases hkind : FormKind.ofContentType r.head.contentType with _ | _ | _
  · rw [hkind] at hentries
    cases hentries
    rfl
  · have hbytes := hbody (by simp [hkind])
    rw [hkind] at hentries
    cases hentries
    simp only [hbytes]
    rfl
  · have hbytes := hbody (by simp [hkind])
    rw [hkind] at hentries
    cases hboundary : r.head.contentType.bind Parameters.boundary? with
    | none =>
      simp only [hboundary] at hentries
      cases hentries
    | some boundary =>
      simp only [hboundary] at hentries
      simp only [hbytes, hentries]
      rfl

end Request

namespace Context

/-- A request before its body is read, and what reading it gives. -/
structure Reading where
  router : Router
  head : RequestHead
  decoder : Urlencoded.Decoder := Urlencoded.decoder
  input : Option Source
  spool : Spool
  data : Bytes
  entries : List FormEntry
  after : Spool

namespace Reading

def form (g : Reading) : MultipartForm := .ofEntries (g.head.queryPairs g.decoder) g.entries

/-- The body can be read and is within the limit, and its entries can be made of it. -/
structure Succeeds (g : Reading) : Prop where
  body : (Request.takeBody { head := g.head, input := g.input } 0).1.bytes = .ok g.data
  within : g.router.config.maxRequestSize = 0
    ∨ g.data.length ≤ g.router.config.maxRequestSize.toNat
  entries : FormEntry.ofBody g.decoder g.head.contentType g.router.config.bufferSize g.data g.spool
    = (.ok g.entries, g.after)

/-- The body need not be read for a form, or one byte more than the limit can be counted. -/
def IsRead (g : Reading) : Prop :=
  FormKind.ofContentType g.head.contentType = none
    ∨ g.router.config.maxRequestSize.toNat + 1 < UInt64.size

/-- A body that is a form is admitted by the limit. -/
theorem Succeeds.bytes_eq {g : Reading} (hg : g.Succeeds) (hread : g.IsRead)
    (hkind : FormKind.ofContentType g.head.contentType ≠ none) :
    (Request.takeBody { head := g.head, input := g.input } g.router.config.maxRequestSize).1.bytes
      = .ok g.data := by
  refine Body.bytes_of_admits hg.body ?_
  have hcount := hread.resolve_left hkind
  rw [show (Request.takeBody _ _).1.consumed = 0 from rfl, Nat.zero_add]
  exact hg.within.imp id fun hle => ⟨hcount, hle⟩

/-- Entries could be made of the body, so its parts have a boundary. -/
theorem Succeeds.boundary {g : Reading} (hg : g.Succeeds)
    (hkind : FormKind.ofContentType g.head.contentType = some .multipart) :
    g.head.contentType.bind Parameters.boundary? ≠ none := by
  intro hnone
  have hentries := hg.entries
  simp only [FormEntry.ofBody, hkind, hnone] at hentries
  cases hentries

end Reading

variable {g : Reading} {asked : Bool} {c : Context}

/-- What is known of the request when its form has been asked for or not: each value that is kept is
right, and the body has been read once or not at all. -/
structure Realized (g : Reading) (asked : Bool) (s : RequestSide) : Prop
    extends Knows g.router g.head g.decoder s where
  form : s.formMemo.Agrees g.form.fields
  multipart : s.multipartMemo.Agrees g.form
  read : asked = true → s.entries = ⟨some g.entries⟩ ∧ s.spool = g.after
    ∧ s.input = Request.inputLeft g.head g.input
  unread : asked = false → s.entries = {} ∧ s.spool = g.spool ∧ s.input = g.input
    ∧ s.formMemo = {} ∧ s.multipartMemo = {}

theorem Realized.query_eq (h : Realized g asked c.requestSide) :
    c.query.1 = g.head.parsedQuery g.decoder ∧ Realized g asked c.query.2.requestSide :=
  ⟨h.toKnows.query_eq.1, { h with toKnows := h.toKnows.query_eq.2 }⟩

theorem Realized.headers_eq (h : Realized g asked c.requestSide) :
    c.headers.1 = .group .ignoringCase g.head.headers.entries
      ∧ Realized g asked c.headers.2.requestSide :=
  ⟨h.toKnows.headers_eq.1, { h with toKnows := h.toKnows.headers_eq.2 }⟩

section Succeeding

variable (hg : g.Succeeds) (hread : g.IsRead)

include hg hread

/-- The entries are those of the one reading, be it over or still to come. -/
theorem Realized.formEntries_eq (h : Realized g asked c.requestSide) :
    c.request.formEntries (some c.limits) c.spool
      = (.ok g.entries, { c.request with
          input := Request.inputLeft g.head g.input, entries := ⟨some g.entries⟩ }, g.after) := by
  cases asked with
  | true =>
    obtain ⟨hentries, hspool, hinput⟩ := h.read rfl
    have hkept : c.request.entries = ⟨some g.entries⟩ := hentries
    have hleft : c.request.input = Request.inputLeft g.head g.input := hinput
    have hafter : c.spool = g.after := hspool
    simp only [Request.formEntries, Memo.getOrTry, hkept, hafter, ← hleft]
  | false =>
    obtain ⟨hentries, hspool, hinput, -, -⟩ := h.unread rfl
    have hnone : c.request.entries = {} := hentries
    have hbefore : c.spool = g.spool := hspool
    have hhead : c.request.head = g.head := h.head
    have hdecoder : c.request.decoder = g.decoder := h.decodes
    have hrouter : c.router = g.router := h.router
    have hsource : c.request.input = g.input := hinput
    have hone : Request.readEntries (some c.limits) (c.request, c.spool)
        = (.ok g.entries, { c.request with
          input := Request.inputLeft c.request.head c.request.input }, g.after) := by
      apply Request.readEntries_of_bytes
      · intro hkind
        rw [hhead] at hkind
        have hbody := hg.bytes_eq hread hkind
        rw [← hhead, ← hsource, ← hrouter] at hbody
        exact hbody
      · have hentries := hg.entries
        rw [← hhead, ← hdecoder, ← hbefore, ← hrouter] at hentries
        exact hentries
    simp only [Request.formEntries, Memo.getOrTry, hnone, hone, hhead, hsource]

theorem Realized.multipart_eq (h : Realized g asked c.requestSide) :
    c.multipart.1 = .ok g.form ∧ Realized g true c.multipart.2.requestSide := by
  have hentries := h.formEntries_eq hg hread
  rcases c.multipart_cases with ⟨form, hm, hc⟩
    | ⟨_, request, rest, ⟨cause, hf, hc⟩ | ⟨found, form, hf, hform, hc⟩⟩ <;> rw [hc]
  · refine ⟨congrArg _ (h.multipart form hm), ?_⟩
    -- a form is only kept when the body has been read for it
    cases asked with
    | true => exact h.query_eq.2
    | false =>
      have hnone : c.multipartMemo = {} := (h.unread rfl).2.2.2.2
      rw [hnone] at hm
      cases hm
  · cases hentries.symm.trans hf
  · obtain ⟨hhead, hdecoder, hknows⟩ := h.toKnows.of_formEntries hf
    cases hentries.symm.trans hf
    have hsame : form = g.form :=
      hform.trans (congrArg (MultipartForm.mk · _) (h.fields_eq hhead hdecoder g.entries))
    refine ⟨congrArg _ hsame, { hknows with }, h.form, hsame ▸ Memo.agrees_some form,
      fun _ => ⟨rfl, rfl, rfl⟩, nofun⟩

theorem Realized.form_eq (h : Realized g asked c.requestSide) :
    c.form.1 = .ok g.form.fields ∧ Realized g true c.form.2.requestSide := by
  have hentries := h.formEntries_eq hg hread
  rcases c.form_cases with ⟨_, hc⟩ | ⟨_, ⟨fields, hm, hc⟩
    | ⟨_, request, rest, ⟨cause, hf, hc⟩ | ⟨found, fields, hf, hfields, hc⟩⟩⟩ <;> rw [hc]
  · obtain ⟨hform, hreads⟩ := h.multipart_eq hg hread
    rw [hform]
    exact ⟨rfl, hreads⟩
  · refine ⟨congrArg _ (h.form fields hm), ?_⟩
    cases asked with
    | true => exact h.query_eq.2
    | false =>
      have hnone : c.formMemo = {} := (h.unread rfl).2.2.2.1
      rw [hnone] at hm
      cases hm
  · cases hentries.symm.trans hf
  · obtain ⟨hhead, hdecoder, hknows⟩ := h.toKnows.of_formEntries hf
    cases hentries.symm.trans hf
    have hsame : fields = g.form.fields := hfields.trans (h.fields_eq hhead hdecoder g.entries)
    refine ⟨congrArg _ hsame, { hknows with }, hsame ▸ Memo.agrees_some fields, h.multipart,
      fun _ => ⟨rfl, rfl, rfl⟩, nofun⟩

end Succeeding

end Context

namespace Script

open Context (Realized Reading Refused)

variable {g : Reading} {asked : Bool}

/-- The turn asks for the form, with or without its files. -/
def Turn.asksForm : Turn → Bool
  | act action => action.asksForm
  | _ => false

/-- The turn neither takes the body itself nor does anything to an upload. -/
def Turn.leavesBody : Turn → Bool
  | act (.body _) | act (.destroyUpload _) | act (.removeFile _) => false
  | act _ | dispatch _ | detach => true
  | clone _ | letGo _ | destroy _ | lose _ => false

/-- What a turn has to reply that asks for something of the request. -/
def Turn.answer? (g : Reading) : Turn → Option Reply
  | act .query => some (.query (g.head.parsedQuery g.decoder))
  | act .headers => some (.values (.group .ignoringCase g.head.headers.entries))
  | act (.header name) =>
    some (.text (Multimap.get? (.group .ignoringCase g.head.headers.entries) name))
  | act .form => some (.form (.ok g.form.fields))
  | act .multipart =>
    some (.multipart (.ok (g.form.fields, g.form.files.map (UploadView.of g.after))))
  | _ => none

theorem Realized.act {h : Handler} (hr : Realized g asked h.context.requestSide)
    (hg : g.Succeeds) (hread : g.IsRead) {action : Action}
    (hleaves : (Turn.act action).leavesBody = true) :
    (∀ reply, (Turn.act action).answer? g = some reply → (act h action).1 = reply)
      ∧ Realized g (asked || action.asksForm) (act h action).2.context.requestSide := by
  cases hasks : action.asksRequest with
  | false =>
    have hanswer : (Turn.act action).answer? g = none ∧ action.asksForm = false := by
      cases action
      all_goals first
        | exact ⟨rfl, rfl⟩
        | cases hasks
    rw [(requestSide_act h hasks).1, hanswer.1, hanswer.2, Bool.or_false]
    exact ⟨(fun _ hreply => nomatch hreply), hr⟩
  | true =>
    have hsame : (asked || false) = asked := Bool.or_false asked
    have htrue : (asked || true) = true := Bool.or_true asked
    cases action
    case query =>
      obtain ⟨hquery, hnext⟩ := hr.query_eq
      refine ⟨?_, hsame.symm ▸ hnext⟩
      rintro reply ⟨⟩
      exact congrArg Reply.query hquery
    case headers =>
      obtain ⟨hheaders, hnext⟩ := hr.headers_eq
      refine ⟨?_, hsame.symm ▸ hnext⟩
      rintro reply ⟨⟩
      exact congrArg Reply.values hheaders
    case header name =>
      obtain ⟨hheaders, hnext⟩ := hr.headers_eq
      refine ⟨?_, hsame.symm ▸ hnext⟩
      rintro reply ⟨⟩
      exact congrArg (fun found => Reply.text (Multimap.get? found name)) hheaders
    case form =>
      obtain ⟨hform, hnext⟩ := hr.form_eq hg hread
      refine ⟨?_, htrue.symm ▸ hnext⟩
      rintro reply ⟨⟩
      exact congrArg Reply.form hform
    case multipart =>
      obtain ⟨hform, hnext⟩ := hr.multipart_eq hg hread
      refine ⟨?_, htrue.symm ▸ hnext⟩
      rintro reply ⟨⟩
      have hspool : h.context.multipart.2.spool = g.after := (hnext.read rfl).2.1
      simp only [Script.act, hform, hspool, Except.map]
    -- the others do not ask for the request, or they do not leave the body alone
    all_goals first
      | exact absurd hasks Bool.false_ne_true
      | exact absurd hleaves Bool.false_ne_true

theorem Realized.take {h : Handler} (hr : Realized g asked h.context.requestSide)
    (hg : g.Succeeds) (hread : g.IsRead) {turn : Turn} (hleaves : turn.leavesBody = true) :
    (∀ reply, turn.answer? g = some reply → (turn.take h).1 = reply)
      ∧ Realized g (asked || turn.asksForm) (turn.take h).2.context.requestSide := by
  have hsame : ∀ {s : Context.RequestSide}, s = h.context.requestSide →
      Realized g (asked || false) s := by
    intro s hs
    rw [hs, Bool.or_false]
    exact hr
  cases turn with
  | act action => exact Realized.act hr hg hread hleaves
  | dispatch executor =>
    exact ⟨(fun _ hreply => nomatch hreply), hsame (requestSide_dispatch h executor)⟩
  | detach => exact ⟨(fun _ hreply => nomatch hreply), hsame (requestSide_detach h)⟩
  | _ => cases hleaves

/-- Each turn replies what it has to, and the body has been read when the form was asked for. -/
theorem Realized.play {h : Handler} (hr : Realized g asked h.context.requestSide)
    (hg : g.Succeeds) (hread : g.IsRead) {turns : List Turn}
    (hleaves : ∀ turn ∈ turns, turn.leavesBody = true) :
    List.Forall₂ (fun turn reply => ∀ expected, turn.answer? g = some expected → reply = expected)
        turns (play h turns).1
      ∧ Realized g (asked || turns.any Turn.asksForm) (play h turns).2.context.requestSide := by
  induction turns generalizing h asked with
  | nil =>
    refine ⟨.nil, ?_⟩
    rw [List.any_nil, Bool.or_false]
    exact hr
  | cons turn rest ih =>
    obtain ⟨hreply, hnext⟩ := Realized.take hr hg hread (hleaves turn List.mem_cons_self)
    obtain ⟨hreplies, hlast⟩ := ih hnext fun later hlater =>
      hleaves later (List.mem_cons_of_mem _ hlater)
    refine ⟨.cons hreply hreplies, ?_⟩
    rw [List.any_cons, ← Bool.or_assoc]
    exact hlast

/-- Under the greatest limit each turn that asks for the form fails, and nothing is kept. -/
theorem refused_play {h : Handler} (hr : Refused g.router g.head g.decoder h.context.requestSide)
    (hg : g.Succeeds) (hnot : ¬ g.IsRead) (turns : List Turn) :
    List.Forall₂ (fun turn reply => turn.asksForm = true →
        reply.formFailure? = some (.tooLarge g.router.config.maxRequestSize.toNat))
        turns (play h turns).1
      ∧ Refused g.router g.head g.decoder (play h turns).2.context.requestSide := by
  obtain ⟨hkind, hcount⟩ := not_or.1 hnot
  have hlimit := Nat.le_of_not_lt hcount
  induction turns generalizing h with
  | nil => exact ⟨.nil, hr⟩
  | cons turn rest ih =>
    have hturn : (turn.asksForm = true → (turn.take h).1.formFailure?
          = some (.tooLarge g.router.config.maxRequestSize.toNat))
        ∧ Refused g.router g.head g.decoder (turn.take h).2.context.requestSide := by
      cases turn with
      | act action =>
        refine ⟨fun hasks => ?_, refused_act hlimit hkind hg.boundary hr action⟩
        cases action
        case form =>
          exact congrArg (Reply.formFailure? ∘ Reply.form)
            (hr.form_eq hlimit hkind hg.boundary).1
        case multipart =>
          have hform := (hr.multipart_eq hlimit hkind hg.boundary).1
          simp only [Turn.take, Script.act, hform]
          rfl
        all_goals cases hasks
      | dispatch executor =>
        exact ⟨Bool.false_ne_true.elim, requestSide_dispatch h executor ▸ hr⟩
      | detach => exact ⟨Bool.false_ne_true.elim, requestSide_detach h ▸ hr⟩
      | _ => exact ⟨Bool.false_ne_true.elim, { hr with }⟩
    obtain ⟨hreplies, hlast⟩ := ih hturn.2
    exact ⟨.cons hturn.1 hreplies, hlast⟩

/-- On either engine the values of a request whose body can be read and is within the limit are made
once. However often and in whatever order they are asked for, the answers are the same each time,
with one set of fields for the form and for the multipart form; the body has been taken once if the
form was asked for at all, and there is one file for each of its files that is too long for the
memory. But under the greatest limit, and only there, a form fails each time that it is asked for. -/
theorem body_is_read_once (engine : Engine) (io : Executor) (peer : Option Peer) (sink : Sink)
    (g : Reading) (hg : g.Succeeds) (turns : List Turn)
    (hleaves : ∀ turn ∈ turns, turn.leavesBody = true) :
    let request : Request :=
      { head := g.head, input := g.input, peer, decoder := g.decoder }
    let played := play ⟨.start engine g.router io request sink g.spool, none⟩ turns
    let c := played.2.context
    let asked := turns.any Turn.asksForm
    let longFiles := (Multipart.partsOf g.head.contentType g.data).countP
      (Part.isLongFile g.router.config.bufferSize)
    (g.IsRead →
      List.Forall₂ (fun turn reply => ∀ expected, turn.answer? g = some expected →
          reply = expected) turns played.1
        ∧ c.request.entries = (if asked then ⟨some g.entries⟩ else {})
        ∧ c.request.input = (if asked then Request.inputLeft g.head g.input else g.input)
        ∧ c.spool = (if asked then g.after else g.spool)
        ∧ c.spool.fileCount = g.spool.fileCount + if asked then longFiles else 0)
      ∧ (¬ g.IsRead → List.Forall₂ (fun turn reply => turn.asksForm = true →
        reply.formFailure? = some (.tooLarge g.router.config.maxRequestSize.toNat))
          turns played.1) := by
  intro request played c asked longFiles
  have hknows : Context.Knows g.router g.head g.decoder
      (Context.start engine g.router io request sink g.spool).requestSide :=
    ⟨Memo.agrees_empty _, Memo.agrees_empty _, rfl, rfl, rfl⟩
  refine ⟨fun hread => ?_, fun hnot => ?_⟩
  · have hfresh : Realized g false
        (Context.start engine g.router io request sink g.spool).requestSide :=
      ⟨hknows, Memo.agrees_empty _, Memo.agrees_empty _, nofun, fun _ => ⟨rfl, rfl, rfl, rfl, rfl⟩⟩
    obtain ⟨hreplies, hend⟩ := Realized.play (h := ⟨_, none⟩) hfresh hg hread hleaves
    rw [Bool.false_or] at hend
    have hlong : g.after.fileCount = g.spool.fileCount + longFiles :=
      FormEntry.fileCount_ofBody hg.entries
    refine ⟨hreplies, ?_⟩
    cases hasked : asked with
    | true =>
      obtain ⟨hentries, hspool, hinput⟩ := hend.read hasked
      have hafter : c.spool = g.after := hspool
      exact ⟨hentries, hinput, hafter, by rw [hafter]; exact hlong⟩
    | false =>
      obtain ⟨hentries, hspool, hinput, -, -⟩ := hend.unread hasked
      have hbefore : c.spool = g.spool := hspool
      exact ⟨hentries, hinput, hbefore, by rw [hbefore]; rfl⟩
  · exact (refused_play (h := ⟨_, none⟩) ⟨hknows, rfl, rfl, rfl⟩ hg hnot turns).1

/-- A field and two files, one of them too long for the memory: the form is asked for first, then
the multipart form, then the form again. -/
theorem body_is_read_once_multipart :
    let config := { Config.default ⟨"/tmp", 1⟩ with bufferSize := 4 }
    let file (name content : String) : Part :=
      ⟨"Content-Disposition: form-data; name=" ++ name ++ "; filename=x", Utf8.encode content⟩
    let parts : List Part :=
      [⟨"Content-Disposition: form-data; name=a", Utf8.encode "1"⟩, file "f" "hi",
        file "g" "hello"]
    let body := Multipart.encode "b" parts
    let head : RequestHead := {
      method := .post, path := "/", query := some "q=0"
      headers := ⟨[("Content-Type", "multipart/form-data; boundary=b")]⟩ }
    let g : Reading := {
      router := { config, worker := .sameThread 0 }
      head
      input := some (.ofBytes body)
      spool := {}
      data := body
      entries := [.field "a" "1", .file ⟨0, "f", "x", none, 2⟩, .file ⟨1, "g", "x", none, 5⟩]
      after := (FormEntry.ofBody Urlencoded.decoder head.contentType 4 body {}).2 }
    let turns : List Turn := [.act .form, .act .query, .dispatch none, .act .multipart, .act .form]
    let fresh : Context := .start .stream g.router (.ioThread 1 "io")
      { head := g.head, input := g.input, decoder := g.decoder } {} g.spool
    let played := play ⟨fresh, none⟩ turns
    g.Succeeds ∧ g.IsRead
      ∧ List.Forall₂ (fun turn reply => ∀ expected, turn.answer? g = some expected →
        reply = expected) turns played.1
      ∧ played.2.context.spool.cells
        = [⟨.memory (Utf8.encode "hi"), 1⟩, ⟨.disk (Utf8.encode "hello"), 1⟩] := by
  intro config file parts body head g turns fresh played
  have hg : g.Succeeds :=
    ⟨by decide +kernel, by decide +kernel, Prod.ext (by decide +kernel) rfl⟩
  have hread : g.IsRead := .inr (by decide)
  have hleaves : ∀ turn ∈ turns, turn.leavesBody = true := by decide
  have hasked : turns.any Turn.asksForm = true := rfl
  have hcells : g.after.cells
      = [⟨.memory (Utf8.encode "hi"), 1⟩, ⟨.disk (Utf8.encode "hello"), 1⟩] := by decide +kernel
  -- from here on it no longer matters what is read
  clear_value g turns
  obtain ⟨hreplies, -, -, hspool, -⟩ := (body_is_read_once .stream (.ioThread 1 "io") none {} g hg
    turns hleaves).1 hread
  rw [if_pos hasked] at hspool
  exact ⟨hg, hread, hreplies, (congrArg Spool.cells hspool).trans hcells⟩

/-- Under the greatest limit the form of a body of three bytes fails both times. -/
theorem form_twice_under_greatest_limit :
    let config := { Config.default ⟨"/tmp", 1⟩ with maxRequestSize := 0xFFFFFFFFFFFFFFFF }
    let g : Reading := {
      router := { config, worker := .sameThread 0 }
      head := {
        method := .post, path := "/"
        headers := ⟨[("Content-Type", "application/x-www-form-urlencoded")]⟩ }
      input := some (.ofBytes (Utf8.encode "a=1"))
      spool := {}
      data := Utf8.encode "a=1"
      entries := [.field "a" "1"]
      after := {} }
    let fresh : Context := .start .callback g.router (.ioThread 1 "io")
      { head := g.head, input := g.input } {} g.spool
    g.Succeeds ∧ (play ⟨fresh, none⟩ [.act .form, .act .form]).1.map Reply.formFailure?
      = [some (.tooLarge 18446744073709551615), some (.tooLarge 18446744073709551615)] := by
  intro config g fresh
  have hkind : FormKind.ofContentType g.head.contentType = some .urlencoded := by decide +kernel
  have hentries : FormEntry.ofBody g.decoder g.head.contentType g.router.config.bufferSize g.data
      g.spool = (.ok g.entries, g.after) := by
    rw [FormEntry.ofBody, hkind]
    exact Prod.ext (by decide +kernel) rfl
  exact ⟨⟨by decide +kernel, by decide +kernel, hentries⟩, by decide +kernel⟩

end Script

end HttpContext
