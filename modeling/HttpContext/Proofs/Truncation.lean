import HttpContext.Proofs.HeadEnd
import HttpContext.Proofs.Teardown
/-!
A response that has failed never looks complete. Whatever went wrong, and whether or not the
connection would take more bytes afterwards, what it has been given breaks off inside the head,
inside the chunks or before the announced length. Main statement: `Script.serve_cut_short`.
-/
namespace HttpContext

/-- The bytes are no complete response with this head. A reader that looks for the first blank line
finds none, or finds fewer bytes behind it than the head announces, or chunks without a last one. -/
inductive CutShort (head : ResponseHead) (bytes : Bytes) : Prop
  | inHead (isFront : bytes <+: head.encode) (noEnd : Bytes.cutAt? Bytes.blankLine bytes = none)
  | inChunks {front body : Bytes} (isHead : front ++ Bytes.blankLine = head.encode)
      (cut : Bytes.cutAt? Bytes.blankLine bytes = some (front, body))
      (isChunked : head.isChunked = true) (unended : Chunk.decode? body = none)
  | inBody {front body : Bytes} {length : Nat} (isHead : front ++ Bytes.blankLine = head.encode)
      (cut : Bytes.cutAt? Bytes.blankLine bytes = some (front, body))
      (isWhole : head.isChunked = false) (announced : head.contentLength = some length)
      (short : body.length < length)

namespace Response

/-- On the wire is a front part of the head and of a body in its framing; of a body that goes out
as it is, less than the head announces. -/
structure FallsShort (r : Response) (wire : Bytes) : Prop where
  framed : ∃ pieces : List Bytes, wire <+: r.sent ++ pieces.flatMap (frame r.head)
  short : r.head.isChunked = false →
    wire.length < r.sent.length + r.head.contentLength.getD 0

variable {r : Response}

theorem FallsShort.cutShort {sent : Bytes} (h : FallsShort r (r.wire ++ sent))
    (hc : r.isCommitted = false) (hu : r.head.headers.IsUnbroken) : CutShort r.head sent := by
  obtain ⟨⟨pieces, hp⟩, hshort⟩ := h
  rw [sent_of_not_isCommitted hc] at hp hshort
  rw [List.append_assoc, List.prefix_append_right_inj] at hp
  by_cases hlength : sent.length < r.head.encode.length
  · have hfront : sent <+: r.head.encode :=
      List.prefix_of_prefix_length_le hp (List.prefix_append _ _) (Nat.le_of_lt hlength)
    refine .inHead hfront (ResponseHead.cutAt?_of_prefix_encode hu hfront ?_)
    rintro rfl
    exact Nat.lt_irrefl _ hlength
  · obtain ⟨body, rfl⟩ : r.head.encode <+: sent :=
      List.prefix_of_prefix_length_le (List.prefix_append _ _) hp (Nat.le_of_not_lt hlength)
    rw [List.prefix_append_right_inj] at hp
    obtain ⟨front, hfront, hcut⟩ := ResponseHead.cutAt?_encode hu body
    cases hw : r.head.isChunked with
    | true =>
      rw [frame_of_isChunked hw] at hp
      have hfront' : body <+: pieces.flatMap Chunk.encode ++ Chunk.last :=
        hp.trans (List.prefix_append _ _)
      refine .inChunks hfront hcut hw (Chunk.decode?_of_prefix hfront' ?_)
      -- the last chunk is missing, so the body is too short
      intro hwhole
      have hle := hp.length_le
      rw [hwhole, List.length_append] at hle
      have hlast : Chunk.last.length = 5 := rfl
      omega
    | false =>
      have hlt := hshort hw
      simp only [List.length_append] at hlt
      cases hl : r.head.contentLength with
      | none =>
        rw [hl, Option.getD_none] at hlt
        omega
      | some length =>
        rw [hl, Option.getD_some] at hlt
        exact .inBody hfront hcut hw hl (by omega)

theorem fallsShort_of_not_isCommitted (h : r.isCommitted = false) : FallsShort r r.wire := by
  have hhead : r.head.encode ≠ [] := by simp [ResponseHead.encode, Bytes.crlf]
  have hpos : 0 < r.head.encode.length := List.length_pos_iff.2 hhead
  refine ⟨⟨[], ?_⟩, fun _ => ?_⟩
  · exact (wire_prefix_sent r).trans (List.prefix_append _ _)
  · rw [sent_of_not_isCommitted h, List.length_append]
    omega

theorem fallsShort_send (ho : r.isClosed = false) (hf : r.sink.Flushes) {data : Bytes}
    (hl : r.head.contentLength = some data.length) {fault : Fault}
    (h : (r.send data).1 = .error fault) : FallsShort r (r.send data).2.wire := by
  obtain ⟨missing, hne, hmissing⟩ := (adds_send ho hf data).short fault h
  refine ⟨⟨[data], ?_⟩, fun hw => ?_⟩
  · rw [List.flatMap_singleton]
    exact ⟨missing, hmissing⟩
  · have hpos : 0 < missing.length := List.length_pos_iff.2 hne
    have hall := congrArg List.length hmissing
    rw [frame_of_not_isChunked hw, id, List.length_append, List.length_append] at hall
    rw [hl, Option.getD_some]
    omega

theorem fallsShort_writeFrom (ho : r.isClosed = false) (hf : r.sink.Flushes) {size : Nat}
    {source : Source} (ha : (Work.copy source).AnnouncedBy r.head) {fault : Fault}
    (h : (writeFrom size source r).1 = .error fault) :
    FallsShort r (writeFrom size source r).2.wire := by
  obtain ⟨pieces, _, _, hprefix, _⟩ := writeFrom_pieces size source ho hf
  refine ⟨⟨pieces, hprefix⟩, fun hw => ?_⟩
  rcases ha with hchunked | ⟨length, hl, hends⟩
  · rw [hw] at hchunked
    cases hchunked
  · rw [hl, Option.getD_some]
    exact length_writeFrom_lt hends ho hw h hf

/-- Work that fails leaves the response short of what its head has announced. -/
theorem fallsShort_write {size : Nat} (ho : r.isClosed = false) (hf : r.sink.Flushes)
    (hc : r.isCommitted = false) {work : Work} (ha : work.AnnouncedBy r.head) {fault : Fault}
    (h : (work.write size r).1 = .error fault) : FallsShort r (work.write size r).2.wire := by
  cases work with
  | leave outcome => cases outcome <;> exact fallsShort_of_not_isCommitted hc
  | put data => exact fallsShort_send ho hf ha.2 h
  | copy source => exact fallsShort_writeFrom ho hf ha h

/-- A failure that comes before anything is written leaves the response as it was. -/
theorem write_of_firstFault {size : Nat} {work : Work} {fault : Fault}
    (h : fault ∈ work.firstFault size) : work.write size r = (.error fault, r) := by
  cases work with
  | leave outcome =>
    obtain rfl : outcome = some fault := h
    rfl
  | put data => cases h
  | copy source =>
    -- the first buffer could not be filled
    rw [Work.write, writeFrom_eq]
    rw [Work.firstFault] at h
    rcases hfill : source.fill size with ⟨cause | bytes, rest⟩ <;> rw [hfill] at h
    · obtain rfl : cause = fault := Option.some.inj h
      rfl
    · cases h

end Response

namespace Script

open Context

/-- Before the response has started, an ending that fails leaves it short of the head that it has
prepared, and leaves it as it was if the failure comes before anything is written. -/
theorem apply_fallsShort {c : Context} (hongoing : Ongoing c) (hc : c.response.isCommitted = false)
    (hf : c.response.sink.Flushes) {ending : Ending} (hs : ending.size < UInt64.size) :
    let b := (ending.prepare c).1
    ∃ (d : Context) (outcome : Option Fault), Continues c d ∧ ending.apply c = d.release outcome
      ∧ d.response.head = b.response.head
      ∧ (outcome ≠ none → b.response.FallsShort d.response.wire)
      ∧ ∀ fault ∈ (ending.prepare c).2.firstFault (max c.router.config.bufferSize 1),
          outcome = some fault ∧ d.response.wire = c.response.wire := by
  intro b
  have hprepares : Prepares c b := prepares_ending c ending
  have hcommitted : b.response.isCommitted = false := hprepares.isCommitted.trans hc
  have hopen : b.response.isClosed = false := (hongoing.of_continues hprepares.toContinues).isClosed
  have hflushes : b.response.sink.Flushes := hprepares.response.flushes hf
  have hannounced := announcedBy_ending c hs
  obtain ⟨hcd, hend⟩ := apply_eq_release hf ending
  refine ⟨_, _, hcd, hend, Work.head_write hopen hflushes _, fun hfailed => ?_,
    fun fault hfault => ?_⟩
  · cases hw : ((ending.prepare c).2.write (max c.router.config.bufferSize 1) b.response).1 with
    | ok => exact absurd (congrArg failure? hw) hfailed
    | error fault => exact Response.fallsShort_write hopen hflushes hcommitted hannounced hw
  · have hwrite := Response.write_of_firstFault (r := b.response) hfault
    simp only
    rw [hwrite]
    exact ⟨rfl, hprepares.wire⟩

/-- A response that has not started is ended, on a connection whose flushes succeed and whose writes
may fail in any way. If its listeners are told a failure, what went out is no complete response, and
if the failure came before anything was written, nothing went out. -/
theorem serve_cut_short (engine : Engine) (router : Router) (io : Executor) (request : Request)
    {sink : Sink} (hf : sink.Flushes) (spool : Spool) (steps : List Step) :
    let arrived := (arrive ⟨.start engine router io request sink spool, none⟩ steps).1.context
    let ending := (arrive ⟨.start engine router io request sink spool, none⟩ steps).2
    arrived.response.isCommitted = false → arrived.response.head.headers.IsUnbroken →
      ending.size < UInt64.size →
    let c := (serve engine router io request sink spool steps).2.context
    ∃ (outcome : Option Fault) (sent : Bytes),
      c.completions = (listeners steps).map (·, outcome)
        ∧ c.response.wire = sink.wire ++ sent
        ∧ (outcome ≠ none → CutShort c.response.head sent)
        ∧ ∀ fault ∈ (ending.prepare arrived).2.firstFault (max router.config.bufferSize 1),
            outcome = some fault ∧ sent = [] := by
  intro arrived ending hcommitted hunbroken hsize c
  have hongoing : Ongoing arrived := ongoing_arrive engine router io request sink spool steps
  have harrive := continues_arrive ⟨.start engine router io request sink spool, none⟩ steps
  have hstart : arrived.response.wire = sink.wire := (harrive.response.wire hcommitted).2
  have hprepares := prepares_ending arrived ending
  obtain ⟨d, outcome, hcd, hend, hhead, hshort, hearly⟩ :=
    apply_fallsShort hongoing hcommitted (harrive.response.flushes hf) hsize
  have hc : c = d.release outcome := (run_eq_apply _ steps).trans hend
  have hdongoing := hongoing.of_continues hcd
  have hwire : sink.wire <+: c.response.wire := by
    rw [hc, response_release hdongoing.isReleased, ← hstart]
    exact hcd.response.grows.trans (d.response.wire_prefix_close outcome.isSome)
  obtain ⟨sent, hsent⟩ := hwire
  refine ⟨outcome, sent, ?_, hsent.symm, fun hfailed => ?_, fun fault hfault => ?_⟩
  · have hlisteners : d.listeners = listeners steps := (harrive.trans hcd).listeners
    rw [hc, hdongoing.completions_release, hlisteners]
  · obtain ⟨cause, rfl⟩ := Option.ne_none_iff_exists'.1 hfailed
    -- a failed release adds nothing, and leaves the head that the ending has prepared
    have hheads : c.response.head = (ending.prepare arrived).1.response.head := by
      rw [hc, head_release_failed hdongoing, hhead]
    have hwires : d.response.wire = (ending.prepare arrived).1.response.wire ++ sent := by
      rw [hprepares.wire, hstart, hsent, hc, wire_release_failed hdongoing.isReleased]
    have hfalls := hshort hfailed
    rw [hwires] at hfalls
    rw [hheads]
    exact hfalls.cutShort (hprepares.isCommitted.trans hcommitted) (isUnbroken_ending hunbroken ending)
  · have hrouter : arrived.router = router := harrive.router
    obtain ⟨houtcome, hkept⟩ := hearly fault (by rwa [hrouter])
    refine ⟨houtcome, ?_⟩
    rw [hc, houtcome, wire_release_failed hdongoing.isReleased, hkept, hstart] at hsent
    exact List.self_eq_append_right.1 hsent.symm

/-- A file of ten bytes is announced. The connection refuses a write two bytes into the body, after
which it would take anything. -/
theorem serve_cut_short_refused :
    let router : Router := { config := .default ⟨"/tmp", 1⟩, worker := .sameThread 0 }
    let io : Executor := .ioThread 1 "io"
    let request : Request := { head := { method := .get, path := "/" }, input := none }
    let sink : Sink := { refusals := [(41, .fault (.system .brokenPipe))] }
    let file : File := .ofBytes (Utf8.encode "abcdefghij")
    let steps := [.act (.addListener "end"), .finish (.send (.file file))]
    let arrived := (arrive ⟨.start .callback router io request sink {}, none⟩ steps).1.context
    let ending := (arrive ⟨.start .callback router io request sink {}, none⟩ steps).2
    let c := (serve .callback router io request sink {} steps).2.context
    arrived.response.isCommitted = false ∧ arrived.response.head.headers.IsUnbroken
      ∧ ending.size < UInt64.size
      ∧ c.completions = [("end", some (.system .brokenPipe))]
      ∧ c.response.wire = Utf8.encode "HTTP/1.1 200 OK\r\nContent-Length: 10\r\n\r\nab"
      ∧ ∃ (outcome : Option Fault) (sent : Bytes),
        c.completions = (listeners steps).map (·, outcome)
          ∧ c.response.wire = sink.wire ++ sent
          ∧ (outcome ≠ none → CutShort c.response.head sent)
          ∧ ∀ fault ∈ (ending.prepare arrived).2.firstFault (max router.config.bufferSize 1),
              outcome = some fault ∧ sent = [] := by
  intro router io request sink file steps arrived ending c
  have hcommitted : arrived.response.isCommitted = false := by decide +kernel
  have hunbroken : arrived.response.head.headers.IsUnbroken := by decide +kernel
  have hsize : ending.size < UInt64.size := by decide +kernel
  exact ⟨hcommitted, hunbroken, hsize, by decide +kernel, by decide +kernel,
    serve_cut_short .callback router io request ⟨rfl, rfl⟩ {} steps hcommitted hunbroken hsize⟩

/-- A file that reports ten bytes can be read up to the fifth. Its first buffer is out by then. -/
example :
    let config := { Config.default ⟨"/tmp", 1⟩ with bufferSize := 4 }
    let source : Source := [.data (Utf8.encode "abcde"), .fail (.system .timedOut)]
    let c := (serve .stream { config, worker := .sameThread 0 } (.ioThread 1 "io")
      { head := { method := .get, path := "/" }, input := none } {} {}
      [.act (.addListener "end"), .finish (.send (.file { length := 10, source }))]).2.context
    c.completions = [("end", some (.system .timedOut))]
      ∧ c.response.wire = Utf8.encode "HTTP/1.1 200 OK\r\nContent-Length: 10\r\n\r\nabcd" := by
  decide +kernel

end Script

end HttpContext
