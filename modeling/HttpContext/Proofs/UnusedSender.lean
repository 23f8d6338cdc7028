import HttpContext.Proofs.Agreement
import HttpContext.Proofs.FileSending
import HttpContext.Proofs.HeadEnd
import HttpContext.Proofs.Refusal
import HttpContext.Proofs.Seeking
import Mathlib.Data.List.Flatten
/-!
A sender that is obtained and dropped without being used. On the callback engine it leaves no trace;
on the stream engine the response is announced as chunked from then on, and its close ends a chunked
body. Main statement: `Script.serve_unused_sender`.
-/
namespace HttpContext

namespace HeaderFields

theorem line_inj {name value : String} (hv : '\r' ∉ value.toList) {other : String}
    (ho : '\r' ∉ other.toList) {rest more : Bytes}
    (h : line (name, value) ++ rest = line (name, other) ++ more) : value = other ∧ rest = more := by
  simp only [line, List.append_assoc] at h
  have hcut := congrArg (Bytes.cutAt? Bytes.crlf)
    (List.append_cancel_left (List.append_cancel_left h))
  rw [← List.append_assoc, ← List.append_assoc, Bytes.cutAt?_crlf (Utf8.not_mem_encode hv),
    Bytes.cutAt?_crlf (Utf8.not_mem_encode ho)] at hcut
  obtain ⟨hvalue, hrest⟩ := Prod.mk.inj (Option.some.inj hcut)
  exact ⟨Utf8.encode_injective hvalue, hrest⟩

theorem length_line_pos (entry : String × String) : 0 < (line entry).length := by
  simp only [line, Bytes.crlf, List.length_append, List.length_cons]
  omega

/-- Lines that are left out are missed. -/
theorem filter_eq_self_of_flatMap_line {p : String × String → Bool}
    {entries : List (String × String)}
    (h : (entries.filter p).flatMap line = entries.flatMap line) : entries.filter p = entries := by
  induction entries with
  | nil => rfl
  | cons entry rest ih =>
    rw [List.flatMap_cons] at h
    cases hp : p entry with
    | true =>
      rw [List.filter_cons_of_pos hp, List.flatMap_cons] at h
      rw [List.filter_cons_of_pos hp, ih (List.append_cancel_left h)]
    | false =>
      rw [List.filter_cons_of_neg (by simp [hp])] at h
      have hfewer := ((List.filter_sublist (p := p) (l := rest)).flatMap line).length_le
      have hlength := congrArg List.length h
      have hpos := length_line_pos entry
      rw [List.length_append] at hlength
      omega

/-- A line that is set makes a difference, unless it was there already and was the only one. -/
theorem values_of_encode_set {h : HeaderFields} (hu : h.IsUnbroken) {name value : String}
    (hv : '\r' ∉ value.toList) (he : (h.set name value).encode = h.encode) :
    h.values name = [value] := by
  have key : ∀ entries : List (String × String), IsUnbroken ⟨entries⟩ →
      (setIn name value entries).flatMap line = entries.flatMap line →
      values ⟨entries⟩ name = [value] := by
    intro entries
    induction entries with
    | nil =>
      intro _ hnil
      have hpos := length_line_pos (name, value)
      simp [setIn] at hnil
      simp [hnil] at hpos
    | cons entry rest ih =>
      intro hentries hset
      have hrest : IsUnbroken ⟨rest⟩ := fun e hm => hentries e (List.mem_cons_of_mem entry hm)
      by_cases hname : hasName name entry = true
      · -- the first line of the name has the value, and no other one was left out
        simp only [setIn, hname, ↓reduceIte, List.flatMap_cons] at hset
        obtain ⟨hvalue, hothers⟩ := line_inj hv (hentries entry List.mem_cons_self).2 hset
        have hkept := filter_eq_self_of_flatMap_line hothers
        have hnone : rest.filter (hasName name) = [] := by
          rw [List.filter_eq_nil_iff]
          intro e hm
          simpa using (List.filter_eq_self.1 hkept) e hm
        rw [values_cons, if_pos hname, values, hnone, hvalue]
        rfl
      · simp only [setIn, hname, Bool.false_eq_true, ↓reduceIte, List.flatMap_cons] at hset
        rw [values_cons, if_neg hname]
        exact ih hrest (List.append_cancel_left hset)
  exact key h.entries hu he

end HeaderFields

/-! ### The way to the sender -/

namespace Context

/-- Reading a form is no answer to the request. -/
theorem answer_multipart (c : Context) : c.multipart.2.answer = c.answer := by
  rcases c.multipart_cases with ⟨form, _, hc⟩
    | ⟨_, request, spool, ⟨cause, hf, hc⟩ | ⟨entries, form, hf, _, hc⟩⟩ <;> rw [hc]
  · rfl
  all_goals
    rw [answer, head_of_formEntries hf]
    rfl

theorem answer_form (c : Context) : c.form.2.answer = c.answer := by
  rcases c.form_cases with ⟨_, hc⟩ | ⟨_, ⟨fields, _, hc⟩
    | ⟨_, request, spool, ⟨cause, hf, hc⟩ | ⟨entries, fields, hf, _, hc⟩⟩⟩ <;> rw [hc]
  · exact answer_multipart c
  · rfl
  all_goals
    rw [answer, head_of_formEntries hf]
    rfl

theorem answer_passTo (c : Context) (executor : Executor) :
    (c.passTo executor).2.answer = c.answer := by
  unfold passTo
  split
  · rfl
  · exact (answer_note c.markAsync rfl).trans (answer_markAsync c)

end Context

namespace Script

open Context (Twins)

variable {g h : Handler}

/-- Twins are twins still after any step, though they may not reply the same. -/
theorem twins_act (ht : Twins g.context h.context) (action : Action) :
    Twins (act g action).2.context (act h action).2.context := by
  cases ha : action.isOfResponse with
  | true => exact (act_of_twins ht ha).2
  | false =>
    cases action
    case form => exact ht.of_answer g.context.answer_form h.context.answer_form
    case multipart => exact ht.of_answer g.context.answer_multipart h.context.answer_multipart
    -- the handler may block then, on either engine
    case body use => exact { ht with response := { ht.response with } }
    -- the spool and the attributes are looked up first
    all_goals first
      | exact ht.of_answer rfl rfl
      | simp only [act]
        split <;> split <;> exact ht.of_answer rfl rfl
      | cases ha

theorem answer_dispatch (h : Handler) (executor : Option Executor) :
    (dispatch h executor).2.context.answer = h.context.answer := by
  cases executor with
  | some executor => exact h.context.answer_passTo executor
  | none => exact h.context.answer_passTo h.context.router.worker

/-- Handlers that begin as twins come to their endings as twins, whatever they do on the way. -/
theorem twins_arrive (ht : Twins g.context h.context) (steps : List Step) :
    Twins (arrive g steps).1.context (arrive h steps).1.context := by
  induction steps generalizing g h with
  | nil => exact ht
  | cons step rest ih =>
    cases step with
    | act action => exact ih (twins_act ht action)
    | dispatch executor =>
      exact ih (ht.of_answer (answer_dispatch g executor) (answer_dispatch h executor))
    | detach =>
      exact ih (ht.of_answer g.context.answer_markAsync h.context.answer_markAsync)
    | finish ending => exact ht

end Script

/-! ### The close of a response that has not started -/

namespace ResponseHead

variable {head : ResponseHead}

/-- The head that goes out with a close: where nothing announces a body, it announces none. -/
def settled (head : ResponseHead) : ResponseHead :=
  if head.contentLength.isSome || head.isChunked then head else head.setContentLength 0

theorem setChunkedWithoutLength_of_contentLength (h : head.contentLength.isSome = true) :
    head.setChunkedWithoutLength = head := by
  rw [setChunkedWithoutLength, Option.isNone_eq_false_iff.2 h]
  rfl

theorem setChunked_of_values (h : head.headers.values "Transfer-Encoding" = ["chunked"]) :
    head.setChunkedWithoutLength = head := by
  have hset : head.setChunked = head := by rw [setChunked, HeaderFields.set_of_values h]
  rw [setChunkedWithoutLength, hset, ite_self]

open Response (closingBytes)

/-- The chunks that a sender has announced are seen on the wire, unless they were announced before
in the same words. -/
theorem values_of_closingBytes (hu : head.headers.IsUnbroken)
    (hlength : head.contentLength.isSome = false)
    (h : closingBytes head.setChunkedWithoutLength.settled false = closingBytes head.settled false) :
    head.headers.values "Transfer-Encoding" = ["chunked"] := by
  have hnone : head.contentLength.isNone = true := Option.isSome_eq_false_iff.1 hlength
  have hopened : head.setChunkedWithoutLength.settled = head.setChunked := by
    rw [setChunkedWithoutLength, hnone, settled, if_pos rfl, head.isChunked_setChunked,
      Bool.or_true]
    rfl
  have hchunks : closingBytes head.setChunked false = head.setChunked.encode ++ Chunk.last := by
    rw [closingBytes, head.isChunked_setChunked]
    rfl
  rw [hopened, hchunks] at h
  cases hc : head.isChunked with
  | true =>
    have hsettled : head.settled = head := by rw [settled, hc, Bool.or_true]; rfl
    rw [hsettled, closingBytes, hc] at h
    have hencode : head.setChunked.encode = head.encode := List.append_cancel_right h
    have hheaders : (head.headers.set "Transfer-Encoding" "chunked").encode
        = head.headers.encode :=
      List.append_cancel_left (List.append_cancel_right hencode)
    exact HeaderFields.values_of_encode_set hu (by decide) hheaders
  | false =>
    -- behind the head of an empty body there is nothing
    have hsettled : head.settled = head.setContentLength 0 := by rw [settled, hc, hlength]; rfl
    have hplain : (head.setContentLength 0).isChunked = false :=
      (head.isChunked_setContentLength 0).trans hc
    rw [hsettled, closingBytes, hplain] at h
    obtain ⟨front, _, hempty⟩ := cutAt?_encode (isUnbroken_setContentLength hu 0) []
    obtain ⟨front', _, hlast⟩ := cutAt?_encode (isUnbroken_setChunked hu) Chunk.last
    rw [h] at hlast
    have hrest : ([] : Bytes) = Chunk.last :=
      congrArg Prod.snd (Option.some.inj (hempty.symm.trans hlast))
    cases hrest

end ResponseHead

namespace Context

open Response (closingBytes)

variable {c : Context}

/-- What the end of a request puts on the wire when nothing was written before. -/
theorem wire_release_of_fresh (hc : Ongoing c) (hs : c.response.sink.IsSound)
    (hfresh : c.response.isCommitted = false) :
    (c.release none).response.wire
      = c.response.wire ++ closingBytes c.response.head.settled false := by
  obtain ⟨hsink, _⟩ := Response.close_outputs hc.isClosed
  simp only [hfresh, Bool.false_or] at hsink
  rw [response_release hc.isReleased]
  refine hsink.wire.trans ?_
  rw [hs.write]
  exact Sink.wire_accept _ _

theorem head_openSender_of_stream (h : c.engine = .stream) :
    c.openSender.response.head = c.response.head.setChunkedWithoutLength := by
  rw [openSender, h, response_markAsync]
  rfl

theorem head_openSender_of_callback (h : c.engine = .callback) :
    c.openSender.response.head = c.response.head := by
  rw [openSender, h]

end Context

namespace Script

open Response (closingBytes)

/-- A request that ends before anything was written, with whatever head it has by then. -/
theorem release_of_prepares {engine : Engine} {router : Router} {io : Executor} {request : Request}
    {sink : Sink} {spool : Spool} {steps : List Step} (hs : sink.IsSound)
    (hfresh : (arrive ⟨.start engine router io request sink spool, none⟩
      steps).1.context.response.isCommitted = false) {b : Context}
    (hb : Context.Prepares (arrive ⟨.start engine router io request sink spool, none⟩
      steps).1.context b) :
    (b.release none).response.wire = sink.wire ++ closingBytes b.response.head.settled false
      ∧ (b.release none).completions = (listeners steps).map (·, none) := by
  have harrive := continues_arrive ⟨.start engine router io request sink spool, none⟩ steps
  have hcontinues := harrive.trans hb.toContinues
  have hongoing : Context.Ongoing b :=
    (ongoing_arrive engine router io request sink spool steps).of_continues hb.toContinues
  have hwire : b.response.wire = sink.wire := hb.wire.trans (harrive.response.wire hfresh).2
  have hlisteners : b.listeners = listeners steps := hcontinues.listeners
  constructor
  · rw [← hwire]
    exact Context.wire_release_of_fresh hongoing (hcontinues.response.isSound hs)
      (hb.isCommitted.trans hfresh)
  · rw [hongoing.completions_release, hlisteners]

/-- A sender that is obtained and dropped. On the callback engine the same bytes go out as if the
context had been dropped. On the stream engine they go out if a length is set, or if the response is
announced as chunked in these words already; otherwise, as long as no header is broken, they do not:
the head of an empty body has given way to one that announces chunks, with the last chunk behind it.
The listeners are told the same in any case. -/
theorem serve_unused_sender (router : Router) (io : Executor) (request : Request) {sink : Sink}
    (hs : sink.IsSound) (spool : Spool) {steps : List Step}
    (hsteps : ∀ ending, .finish ending ∉ steps)
    (hfresh : ∀ engine, (arrive ⟨.start engine router io request sink spool, none⟩
      steps).1.context.response.isCommitted = false) :
    let head := (arrive ⟨.start .stream router io request sink spool, none⟩
      steps).1.context.response.head
    let left := fun engine ending =>
      (serve engine router io request sink spool (steps ++ [.finish ending])).2.context
    let announced := head.contentLength.isSome = true
      ∨ head.headers.values "Transfer-Encoding" = ["chunked"]
    (∀ engine, (left engine .drop).response.wire
        = sink.wire ++ closingBytes head.settled false)
      ∧ (left .callback (.sender none)).response.wire
        = sink.wire ++ closingBytes head.settled false
      ∧ (left .stream (.sender none)).response.wire
        = sink.wire ++ closingBytes head.setChunkedWithoutLength.settled false
      ∧ (∀ engine, (left engine (.sender none)).completions = (left engine .drop).completions
        ∧ (left engine .drop).completions = (listeners steps).map (·, none))
      ∧ (announced →
        (left .stream (.sender none)).response.wire = (left .stream .drop).response.wire)
      ∧ (head.headers.IsUnbroken →
        (left .stream (.sender none)).response.wire = (left .stream .drop).response.wire →
          announced) := by
  intro head left announced
  let arrived := fun engine =>
    (arrive ⟨.start engine router io request sink spool, none⟩ steps).1.context
  have hhead : ∀ engine, (arrived engine).response.head = head := fun engine =>
    (twins_arrive (g := ⟨_, none⟩) (h := ⟨_, none⟩)
      (Context.twins_start engine .stream router io io request sink spool hs.flushes)
      steps).response.head
  have hengine : ∀ engine, (arrived engine).engine = engine := fun engine =>
    (continues_arrive ⟨.start engine router io request sink spool, none⟩ steps).response.engine
  have hleft : ∀ engine ending, left engine ending = ending.apply (arrived engine) :=
    fun engine ending => context_run_append_finish hsteps ending
  have hdropped : ∀ engine, (left engine .drop).response.wire
        = sink.wire ++ closingBytes head.settled false
      ∧ (left engine .drop).completions = (listeners steps).map (·, none) := by
    intro engine
    rw [hleft, ← hhead engine]
    exact release_of_prepares hs (hfresh engine) (.refl _)
  have hunused : ∀ engine, (left engine (.sender none)).response.wire
        = sink.wire ++ closingBytes (arrived engine).openSender.response.head.settled false
      ∧ (left engine (.sender none)).completions = (listeners steps).map (·, none) := by
    intro engine
    rw [hleft]
    exact release_of_prepares hs (hfresh engine) (Context.prepares_openSender _)
  have hcallback := (hunused .callback).1
  rw [Context.head_openSender_of_callback (hengine .callback), hhead] at hcallback
  have hstream := (hunused .stream).1
  rw [Context.head_openSender_of_stream (hengine .stream), hhead] at hstream
  refine ⟨fun engine => (hdropped engine).1, hcallback, hstream, fun engine => ?_,
    fun hannounced => ?_, fun hu hsame => ?_⟩
  · exact ⟨(hunused engine).2.trans (hdropped engine).2.symm, (hdropped engine).2⟩
  · rw [hstream, (hdropped .stream).1]
    rcases hannounced with hlength | hvalues
    · rw [ResponseHead.setChunkedWithoutLength_of_contentLength hlength]
    · rw [ResponseHead.setChunked_of_values hvalues]
  · rw [hstream, (hdropped .stream).1] at hsame
    have hclosing := List.append_cancel_left hsame
    cases hlength : head.contentLength.isSome with
    | true => exact .inl hlength
    | false => exact .inr (ResponseHead.values_of_closingBytes hu hlength hclosing)

/-- A length that was set keeps a sender from leaving a trace. -/
theorem serve_unused_sender_of_length :
    let router : Router := { config := .default ⟨"/tmp", 1⟩, worker := .sameThread 0 }
    let io : Executor := .ioThread 1 "io"
    let request : Request := { head := { method := .get, path := "/" }, input := none }
    let steps : List Step := [.act (.addListener "end"), .act (.setLength 0)]
    let head := (arrive ⟨.start .stream router io request {} {}, none⟩
      steps).1.context.response.head
    let left := fun engine ending =>
      (serve engine router io request {} {} (steps ++ [.finish ending])).2.context
    let announced := head.contentLength.isSome = true
      ∨ head.headers.values "Transfer-Encoding" = ["chunked"]
    Sink.IsSound {} ∧ announced ∧ head.headers.IsUnbroken
      ∧ (∀ engine, (left engine .drop).response.wire
        = ({} : Sink).wire ++ closingBytes head.settled false)
      ∧ (left .callback (.sender none)).response.wire
        = ({} : Sink).wire ++ closingBytes head.settled false
      ∧ (left .stream (.sender none)).response.wire
        = ({} : Sink).wire ++ closingBytes head.setChunkedWithoutLength.settled false
      ∧ (∀ engine, (left engine (.sender none)).completions = (left engine .drop).completions
        ∧ (left engine .drop).completions = (listeners steps).map (·, none))
      ∧ (announced →
        (left .stream (.sender none)).response.wire = (left .stream .drop).response.wire)
      ∧ (head.headers.IsUnbroken →
        (left .stream (.sender none)).response.wire = (left .stream .drop).response.wire →
          announced) := by
  intro router io request steps head left announced
  have hlength : head.contentLength.isSome = true := by decide +kernel
  have hunbroken : head.headers.IsUnbroken := by decide +kernel
  have hfresh : ∀ engine, (arrive ⟨.start engine router io request {} {}, none⟩
      steps).1.context.response.isCommitted = false := by
    intro engine
    cases engine <;> rfl
  exact ⟨⟨rfl, rfl, rfl, rfl⟩, .inl hlength, hunbroken,
    serve_unused_sender router io request ⟨rfl, rfl, rfl, rfl⟩ {} (by simp [steps]) hfresh⟩

/-- On the stream engine, a sender that is dropped at once turns the empty response of the handler
into one in chunks. -/
theorem unused_sender_in_chunks :
    let left := fun ending => (serve .stream
      { config := .default ⟨"/tmp", 1⟩, worker := .sameThread 0 } (.ioThread 1 "io")
      { head := { method := .get, path := "/" }, input := none } {} {}
      [.act (.addListener "end"), .finish ending]).2.context
    (left .drop).response.wire = Utf8.encode "HTTP/1.1 200 OK\r\nContent-Length: 0\r\n\r\n"
      ∧ (left (.sender none)).response.wire
        = Utf8.encode "HTTP/1.1 200 OK\r\nTransfer-Encoding: chunked\r\n\r\n0\r\n\r\n"
      ∧ (left .drop).completions = [("end", none)]
      ∧ (left (.sender none)).completions = [("end", none)] := by
  decide +kernel

end Script

end HttpContext
