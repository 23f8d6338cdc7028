import HttpContext.Proofs.Framing
/-!
How chunks end. A request that goes well ends its chunks with a last one, unless its ending takes
them back when their head is already out: then the body of that ending follows the chunks as it is.
Main statement: `Script.serve_chunks`.
-/
namespace HttpContext

namespace Work

/-- What the work puts out when nothing goes wrong. -/
def content : Work → Bytes
  | leave _ => []
  | put data => data
  | copy source => source.content

/-- The work has no failure of its own. -/
def IsSure : Work → Prop
  | leave outcome => outcome = none
  | put _ => True
  | copy source => source.IsSteady

end Work

/-- What is sent fails only by interruptions. -/
def Sending.IsSteady : Sending → Prop
  | .source given => given.IsSteady
  | .file opened => opened.IsSteady
  | _ => True

/-- The body of what is sent without chunks, whatever has been said of them. A file that does not
report its length fails before anything is said. -/
def Sending.plain? (c : Context) : Sending → Option Bytes
  | .empty _ => some []
  | .bytes data => some data
  | .source _ => none
  | .file opened =>
    match opened.metadataFault with
    | some _ => none
    | none => some (Work.ofWindow (opened.window (c.requestedRange opened.length))).content

namespace Context

variable {c : Context}

/-- What goes out without chunks takes them back. -/
theorem prepare_of_plain? {what : Sending} {plain : Bytes} (h : what.plain? c = some plain) :
    (c.prepare what).1.response.head.isChunked = false ∧ (c.prepare what).2.content = plain
      ∧ (what.IsSteady → (c.prepare what).2.IsSure) := by
  cases what with
  | empty status =>
    cases h
    exact ⟨isChunked_withLength c 0, rfl, fun _ => rfl⟩
  | bytes data =>
    cases h
    exact ⟨isChunked_withLength c _, rfl, fun _ => trivial⟩
  | source source => cases h
  | file file =>
    cases hf : file.metadataFault with
    | some cause =>
      simp only [Sending.plain?, hf] at h
      cases h
    | none =>
      simp only [Sending.plain?, hf, Option.some.injEq] at h
      simp only [prepare, hf]
      have hchunked := isChunked_withLength c file.length
      refine ⟨(isChunked_announceRange _ _).trans hchunked, h, fun hs => ?_⟩
      obtain ⟨window, hwindow, hsteady, _⟩ := File.IsSteady.window hs
        ((c.withLength file.length).requestedRange file.length)
      rw [hwindow]
      exact hsteady

/-- A source keeps the chunks, if it does not bring them. -/
theorem isChunked_prepare {what : Sending} (h : what.plain? c = none)
    (hc : c.response.head.isChunked = true) :
    (c.prepare what).1.response.head.isChunked = true := by
  cases what with
  | empty status => cases h
  | bytes data => cases h
  | file file =>
    cases hf : file.metadataFault with
    | some cause =>
      simp only [prepare, hf]
      exact hc
    | none =>
      simp only [Sending.plain?, hf] at h
      cases h
  | source source =>
    simp only [prepare]
    split
    · exact (isChunked_announceRange c _).trans hc
    · exact ResponseHead.isChunked_setChunked _

theorem isChunked_openSender (hc : c.response.head.isChunked = true) :
    c.openSender.response.head.isChunked = true := by
  have hset : c.response.setChunkedWithoutLength.head.isChunked = true :=
    ResponseHead.isChunked_setChunkedWithoutLength hc
  unfold openSender
  split
  · rw [response_markAsync]
    exact hset
  · exact hc

end Context

/-! ### The work on a sound connection -/

namespace Response

variable {r : Response}

theorem gains_write (ho : r.isClosed = false) (hs : r.sink.IsSound) (size : Nat) (work : Work) :
    ∃ pieces : List Bytes, Gains r (work.write size r).2 pieces ∧ ∀ piece ∈ pieces, piece ≠ [] := by
  cases work with
  | leave outcome => cases outcome <;> exact ⟨[], .refl r, nofun⟩
  | put data =>
    have hadds := adds_send ho hs.flushes data
    refine ⟨(Script.Item.data data).pieces, ⟨hadds.continues, hadds.head, ?_⟩,
      Script.Item.pieces_ne_nil _⟩
    rw [flatMap_frame_pieces]
    exact hadds.whole (hadds.sure hs)
  | copy source =>
    obtain ⟨pieces, hne, hhead, _, hsent⟩ := writeFrom_pieces size source ho hs.flushes
    exact ⟨pieces, ⟨continues_writeFrom size source r, hhead, hsent hs⟩, hne⟩

/-- Work puts out what it has up to its first failure, and without a failure of its own all of it. -/
theorem IsPlain.write (h : IsPlain r) {size : Nat} (hz : 0 < size) (work : Work) :
    ∃ front, front <+: work.content ∧ (work.write size r).2.sent = r.sent ++ front
      ∧ ((work.write size r).1 = .ok () → front = work.content)
      ∧ (work.IsSure → (work.write size r).1 = .ok ()) := by
  cases work with
  | leave outcome =>
    refine ⟨[], List.nil_prefix, ?_, fun _ => rfl, ?_⟩
    · cases outcome <;> exact (List.append_nil _).symm
    · rintro (rfl : outcome = none)
      rfl
  | put data =>
    have hadds := adds_send h.isOpen h.isSound.flushes data
    have hok := hadds.sure h.isSound
    rw [frame_of_not_isChunked h.isWhole] at hadds
    exact ⟨data, List.prefix_refl _, hadds.whole hok, fun _ => rfl, fun _ => hok⟩
  | copy source =>
    obtain ⟨front, hfront, hsends, hwhole⟩ := h.copies source hz
    exact ⟨front, hfront, hsends.sent, hwhole, fun hs => h.copy_of_isSteady hs size⟩

end Response

namespace Script

open Context Response

/-- The ending fails only by interruptions. -/
def Ending.IsSteady : Ending → Prop
  | send what => what.IsSteady
  | sender (some what) => what.IsSteady
  | abort _ => False
  | _ => True

/-- The body of an ending that goes out without chunks, whatever has been said of them. -/
def Ending.plain? (c : Context) : Ending → Option Bytes
  | send what => what.plain? c
  | sender (some what) => what.plain? c.openSender
  | _ => none

theorem prepare_of_plain? {c : Context} {ending : Ending} {plain : Bytes}
    (h : ending.plain? c = some plain) :
    (ending.prepare c).1.response.head.isChunked = false ∧ (ending.prepare c).2.content = plain
      ∧ (ending.IsSteady → (ending.prepare c).2.IsSure) := by
  cases ending with
  | send what => exact Context.prepare_of_plain? h
  | sender what =>
    cases what with
    | none => cases h
    | some what => exact Context.prepare_of_plain? h
  | drop => cases h
  | abort cause => cases h

theorem isChunked_prepare {c : Context} {ending : Ending} (h : ending.plain? c = none)
    (hc : c.response.head.isChunked = true) :
    (ending.prepare c).1.response.head.isChunked = true := by
  cases ending with
  | send what => exact Context.isChunked_prepare h hc
  | sender what =>
    have hsender := isChunked_openSender hc
    cases what with
    | none => exact hsender
    | some what => exact Context.isChunked_prepare h hsender
  | drop => exact hc
  | abort cause => exact hc

/-- Behind chunks that are left in the framing there is a last one, unless the request fails. -/
theorem wire_release_of_isChunked {d : Context} (hongoing : Ongoing d)
    (hs : d.response.sink.IsSound) (hc : d.response.head.isChunked = true) {outcome : Option Fault}
    (hcommitted : outcome ≠ none → d.response.isCommitted = true) :
    (d.release outcome).response.wire
      = d.response.sent ++ if outcome.isNone then Chunk.last else [] := by
  cases outcome with
  | none =>
    have hsettle : d.response.settleLength = d.response := by
      rw [settleLength_eq, hc, Bool.or_true]
      rfl
    have hclose := (close_of_isSound hs hongoing.isClosed).2
    rw [hsettle, hc] at hclose
    rw [response_release hongoing.isReleased]
    exact hclose
  | some cause =>
    rw [wire_release_failed hongoing.isReleased, sent_of_isCommitted (hcommitted nofun)]
    exact (List.append_nil _).symm

/-- Behind a head that is out, and that no longer announces chunks, the end of a request puts
nothing more. -/
theorem wire_release_of_not_isChunked {d : Context} (hongoing : Ongoing d)
    (hs : d.response.sink.IsSound) (hc : d.response.head.isChunked = false)
    (hcommitted : d.response.isCommitted = true) (outcome : Option Fault) :
    (d.release outcome).response.wire = d.response.sent := by
  cases outcome with
  | none =>
    have hsettle : d.response.settleLength = d.response := by
      rw [settleLength_eq, hcommitted]
      rfl
    have hclose := (close_of_isSound hs hongoing.isClosed).2
    rw [hsettle, hc] at hclose
    rw [response_release hongoing.isReleased]
    exact hclose.trans (List.append_nil _)
  | some cause => rw [wire_release_failed hongoing.isReleased, sent_of_isCommitted hcommitted]

/-- The head of a response does not lose its chunks when its length is settled. -/
theorem isChunked_settleLength (r : Response) :
    r.settleLength.head.isChunked = r.head.isChunked := by
  unfold settleLength
  split
  · exact ResponseHead.isChunked_setContentLength _ 0
  · rfl

/-- On a sound connection an ending writes pieces of the body behind the head that it has prepared.
Of a body that goes out as it is, that is a front part, and all of it if the ending does not fail. -/
theorem apply_of_isSound {c : Context} (hongoing : Ongoing c) (hs : c.response.sink.IsSound)
    (ending : Ending) :
    let b := (ending.prepare c).1
    let work := (ending.prepare c).2
    ∃ (d : Context) (outcome : Option Fault) (pieces : List Bytes), Continues c d
      ∧ ending.apply c = d.release outcome ∧ Gains b.response d.response pieces
      ∧ (∀ piece ∈ pieces, piece ≠ [])
      ∧ (b.response.head.isChunked = false → ∃ front, front <+: work.content
          ∧ d.response.sent = b.response.sent ++ front
          ∧ (outcome = none → front = work.content) ∧ (work.IsSure → outcome = none)) := by
  intro b work
  have hcb := (prepares_ending c ending).toContinues
  have hsound : b.response.sink.IsSound := hcb.response.isSound hs
  have hopen : b.response.isClosed = false := (hongoing.of_continues hcb).isClosed
  have hsize : 0 < max c.router.config.bufferSize 1 := by omega
  obtain ⟨hcd, hend⟩ := apply_eq_release hs.flushes ending
  obtain ⟨pieces, hgains, hne⟩ :=
    gains_write hopen hsound (max c.router.config.bufferSize 1) work
  refine ⟨_, _, pieces, hcd, hend, hgains, hne, fun hplain => ?_⟩
  obtain ⟨front, hfront, hsent, hwhole, hsure⟩ := IsPlain.write ⟨hsound, hopen, hplain⟩ hsize work
  refine ⟨front, hfront, hsent, fun hok => hwhole ?_, fun hs => congrArg failure? (hsure hs)⟩
  exact eq_ok_of_failure? hok

/-- Chunks that are out when an ending begins are followed by more of them, and by a last one unless
the request fails; or by the body of an ending that goes out without chunks, as far as that gets. -/
theorem apply_of_inChunks {c : Context} {base : Bytes} (hongoing : Ongoing c)
    (hs : c.response.sink.IsSound) (h : InChunks base c.response) (ending : Ending) :
    ∃ (d : Context) (outcome : Option Fault) (pieces : List Bytes) (tail : Bytes), Continues c d
      ∧ ending.apply c = d.release outcome ∧ (∀ piece ∈ pieces, piece ≠ [])
      ∧ ((ending.plain? c).isSome = true → ending.IsSteady → outcome = none)
      ∧ (d.release outcome).response.wire = base ++ pieces.flatMap Chunk.encode ++ tail
      ∧ (outcome = none → tail = (ending.plain? c).getD Chunk.last)
      ∧ (outcome ≠ none → tail <+: (ending.plain? c).getD []) := by
  have hprepares := prepares_ending c ending
  have hbcommitted := hprepares.isCommitted.trans h.isCommitted
  obtain ⟨before, hbefore, hwire⟩ := h.wire
  obtain ⟨d, outcome, pieces, hcd, hend, hgains, hne, hsure⟩ := apply_of_isSound hongoing hs ending
  have hdongoing := hongoing.of_continues hcd
  have hds := hcd.response.isSound hs
  cases hp : ending.plain? c with
  | some plain =>
    obtain ⟨hplain, rfl, hwork⟩ := prepare_of_plain? hp
    obtain ⟨front, hfront, hsent, hwhole, hnofault⟩ := hsure hplain
    refine ⟨d, outcome, before, front, hcd, hend, hbefore, fun _ hs => hnofault (hwork hs), ?_,
      hwhole, fun _ => hfront⟩
    have hrelease := wire_release_of_not_isChunked hdongoing hds (hgains.head ▸ hplain)
      (hcd.response.isCommitted h.isCommitted) outcome
    rw [hrelease, hsent, sent_of_isCommitted hbcommitted, hprepares.wire, hwire]
  | none =>
    have hchunked := isChunked_prepare hp h.isChunked
    have hb : InChunks base (ending.prepare c).1.response :=
      ⟨hbcommitted, hchunked, before, hbefore, hprepares.wire.trans hwire⟩
    have hd := hb.gains hgains hne
    obtain ⟨all, hall, hdwire⟩ := hd.wire
    refine ⟨d, outcome, all, if outcome.isNone then Chunk.last else [], hcd, hend, hall, nofun, ?_,
      fun hok => hok ▸ rfl, fun hfail => ?_⟩
    · rw [wire_release_of_isChunked hdongoing hds hd.isChunked fun _ => hd.isCommitted,
        sent_of_isCommitted hd.isCommitted, hdwire]
    · rw [Option.isNone_eq_false_iff.2 (Option.isSome_iff_ne_none.2 hfail)]
      exact List.nil_prefix

/-- When the head goes out with the ending and announces chunks, chunks follow it, and a last one
unless the request fails. -/
theorem apply_of_headOf? {c : Context} (hongoing : Ongoing c) (hs : c.response.sink.IsSound)
    (hc : c.response.isCommitted = false) {ending : Ending} {head : ResponseHead}
    (hh : headOf? (ending.apply c) = some head) (hchunked : head.isChunked = true) :
    ∃ (d : Context) (outcome : Option Fault) (pieces : List Bytes), Continues c d
      ∧ ending.apply c = d.release outcome ∧ (∀ piece ∈ pieces, piece ≠ [])
      ∧ (d.release outcome).response.wire = c.response.wire ++ head.encode
        ++ pieces.flatMap Chunk.encode ++ if outcome.isNone then Chunk.last else [] := by
  have hprepares := prepares_ending c ending
  obtain ⟨d, outcome, pieces, hcd, hend, hgains, hne, _⟩ := apply_of_isSound hongoing hs ending
  have hdongoing := hongoing.of_continues hcd
  have hds := hcd.response.isSound hs
  rw [hend] at hh
  -- the head that is out in the end is the one that the ending has prepared
  obtain ⟨hcommitted, hhead⟩ : (outcome ≠ none → d.response.isCommitted = true)
      ∧ d.response.head = head := by
    obtain ⟨hcommitted, hhead⟩ := headOf?_eq_some.1 hh
    cases outcome with
    | none =>
      refine ⟨(absurd rfl ·), ?_⟩
      rw [response_release hdongoing.isReleased] at hhead
      have hclosed : d.response.settleLength.head = head :=
        (close_of_isSound hds hdongoing.isClosed).1.symm.trans hhead
      have hsettle : d.response.settleLength = d.response := by
        rw [settleLength_eq, ← isChunked_settleLength, hclosed, hchunked, Bool.or_true]
        rfl
      rwa [hsettle] at hclosed
    | some cause =>
      rw [head_release_failed hdongoing] at hhead
      rw [response_release_failed hdongoing] at hcommitted
      exact ⟨fun _ => hcommitted, hhead⟩
  refine ⟨d, outcome, pieces, hcd, hend, hne, ?_⟩
  rw [wire_release_of_isChunked hdongoing hds (hhead ▸ hchunked) hcommitted, hgains.sent,
    sent_of_not_isCommitted (hprepares.isCommitted.trans hc), hprepares.wire, ← hgains.head, hhead,
    frame_of_isChunked hchunked]

/-- On a sound connection nothing but chunks follows a head that announces them, and when the
listeners are told a success these end with a last one; unless the head is out when an ending begins
that sends its body without chunks. Then that body stands behind the chunks in place of the last
one, and the listeners are told a success; only a file that cannot be read breaks it off and is told
as a failure. -/
theorem serve_chunks (engine : Engine) (router : Router) (io : Executor) (request : Request)
    {sink : Sink} (hs : sink.IsSound) (spool : Spool) {steps : List Step}
    (hk : keepsFraming ⟨.start engine router io request sink spool, none⟩ steps = true)
    {head : ResponseHead}
    (hh : headSent? ⟨.start engine router io request sink spool, none⟩ steps = some head)
    (hc : head.isChunked = true) :
    let arrived := (arrive ⟨.start engine router io request sink spool, none⟩ steps).1.context
    let ending := (arrive ⟨.start engine router io request sink spool, none⟩ steps).2
    let late := if arrived.response.isCommitted then ending.plain? arrived else none
    let c := (serve engine router io request sink spool steps).2.context
    ∃ (outcome : Option Fault) (pieces : List Bytes) (tail : Bytes),
      c.completions = (listeners steps).map (·, outcome)
        ∧ (∀ piece ∈ pieces, piece ≠ [])
        ∧ c.response.wire = sink.wire ++ head.encode ++ (pieces.flatMap Chunk.encode ++ tail)
        ∧ (outcome = none → tail = late.getD Chunk.last)
        ∧ (outcome ≠ none → tail <+: late.getD [])
        ∧ (late.isSome = true → ending.IsSteady → outcome = none)
        ∧ (outcome = none → (Chunk.IsBody (pieces.flatMap Chunk.encode ++ tail)
            ↔ ∀ plain ∈ late, Chunk.IsBody plain)) := by
  intro arrived ending late c
  have hongoing : Ongoing arrived := ongoing_arrive engine router io request sink spool steps
  have harrive := continues_arrive ⟨.start engine router io request sink spool, none⟩ steps
  have hsound : arrived.response.sink.IsSound := harrive.response.isSound hs
  -- either way, the request ends with one release, and this is on the wire after it
  obtain ⟨d, outcome, pieces, tail, hcd, hend, hne, hlate, hwire, htail, hbroken⟩ :
      ∃ (d : Context) (outcome : Option Fault) (pieces : List Bytes) (tail : Bytes),
        Continues arrived d
        ∧ ending.apply arrived = d.release outcome ∧ (∀ piece ∈ pieces, piece ≠ [])
        ∧ (late.isSome = true → ending.IsSteady → outcome = none)
        ∧ (d.release outcome).response.wire
          = sink.wire ++ head.encode ++ pieces.flatMap Chunk.encode ++ tail
        ∧ (outcome = none → tail = late.getD Chunk.last)
        ∧ (outcome ≠ none → tail <+: late.getD []) := by
    rcases arrive_of_headSent? hs rfl hk rfl hh hc with hchunks | ⟨hcommitted, hending⟩
    · have he : late = ending.plain? arrived := if_pos hchunks.isCommitted
      rw [he]
      exact apply_of_inChunks hongoing hsound hchunks ending
    · have he : late = none := if_neg (by rw [hcommitted]; exact Bool.false_ne_true)
      have hwire : arrived.response.wire = sink.wire := (harrive.response.wire hcommitted).2
      obtain ⟨d, outcome, pieces, hcd, hend, hne, hsent⟩ :=
        apply_of_headOf? hongoing hsound hcommitted hending hc
      rw [he]
      refine ⟨d, outcome, pieces, _, hcd, hend, hne, nofun, hwire ▸ hsent, fun hok => hok ▸ rfl,
        fun hfail => ?_⟩
      rw [Option.isNone_eq_false_iff.2 (Option.isSome_iff_ne_none.2 hfail)]
      exact List.nil_prefix
  have hcend : c = d.release outcome := (run_eq_apply _ steps).trans hend
  have hlisteners : d.listeners = listeners steps := (harrive.trans hcd).listeners
  refine ⟨outcome, pieces, tail, ?_, hne, ?_, htail, hbroken, hlate, fun hok => ?_⟩
  · rw [hcend, (hongoing.of_continues hcd).completions_release, hlisteners]
  · rw [hcend, hwire, List.append_assoc]
  · rw [Chunk.isBody_flatMap_encode_append, htail hok]
    cases late with
    | none => exact iff_of_true Chunk.isBody_last nofun
    | some plain =>
      exact ⟨fun hbody p hp => Option.some.inj hp ▸ hbody, fun hall => hall plain rfl⟩

/-- Two bytes are written in a chunk and two more are sent. These follow as they are, and the
listener is told a success. -/
theorem plain_behind_chunks :
    let router : Router := { config := .default ⟨"/tmp", 1⟩, worker := .sameThread 0 }
    let request : Request := { head := { method := .get, path := "/" }, input := none }
    let fresh : Context := .start .stream router (.ioThread 1 "io") request {} {}
    let steps := [.act (.addListener "end"), .act (.stream [.data [97, 98]] true),
      .finish (.send (.bytes [99, 100]))]
    let head : ResponseHead := { headers := ⟨[("Transfer-Encoding", "chunked")]⟩ }
    let c := (serve .stream router (.ioThread 1 "io") request {} {} steps).2.context
    headSent? ⟨fresh, none⟩ steps = some head ∧ head.isChunked = true
      ∧ c.completions = [("end", none)]
      ∧ c.response.wire = head.encode ++ (Chunk.encode [97, 98] ++ [99, 100])
      ∧ ¬ Chunk.IsBody (Chunk.encode [97, 98] ++ [99, 100]) := by
  intro router request fresh steps head c
  have hread : Chunk.decode? [99, 100] = none := by
    rw [Chunk.decode?_eq]
    rfl
  refine ⟨by decide +kernel, by decide +kernel, by decide +kernel, by decide +kernel, ?_⟩
  rintro ⟨data, hd⟩
  have hchunk := Chunk.decode?_flatMap_encode_append [[97, 98]] [99, 100]
  rw [List.flatMap_singleton, hread, hd] at hchunk
  cases hchunk

/-- A source that is sent behind a chunk goes out in chunks. -/
theorem serve_chunks_source :
    let router : Router := { config := .default ⟨"/tmp", 1⟩, worker := .sameThread 0 }
    let io : Executor := .ioThread 1 "io"
    let request : Request := { head := { method := .get, path := "/" }, input := none }
    let steps := [.act (.addListener "end"), .act (.stream [.data [97, 98], .flush] false),
      .act (.setStatus .notFound), .finish (.send (.source [.data [99], .data [100]]))]
    let fresh : Handler := ⟨.start .callback router io request {} {}, none⟩
    let head : ResponseHead := { headers := ⟨[("Transfer-Encoding", "chunked")]⟩ }
    let arrived := (arrive fresh steps).1.context
    let ending := (arrive fresh steps).2
    let late := if arrived.response.isCommitted then ending.plain? arrived else none
    let c := (serve .callback router io request {} {} steps).2.context
    keepsFraming fresh steps = true ∧ headSent? fresh steps = some head ∧ head.isChunked = true
      ∧ ∃ (outcome : Option Fault) (pieces : List Bytes) (tail : Bytes),
        c.completions = (listeners steps).map (·, outcome)
          ∧ (∀ piece ∈ pieces, piece ≠ [])
          ∧ c.response.wire = [] ++ head.encode ++ (pieces.flatMap Chunk.encode ++ tail)
          ∧ (outcome = none → tail = late.getD Chunk.last)
          ∧ (outcome ≠ none → tail <+: late.getD [])
          ∧ (late.isSome = true → ending.IsSteady → outcome = none)
          ∧ (outcome = none → (Chunk.IsBody (pieces.flatMap Chunk.encode ++ tail)
              ↔ ∀ plain ∈ late, Chunk.IsBody plain)) := by
  intro router io request steps fresh head arrived ending late c
  have hk : keepsFraming fresh steps = true := by decide +kernel
  have hh : headSent? fresh steps = some head := by decide +kernel
  have hc : head.isChunked = true := by decide +kernel
  exact ⟨hk, hh, hc, serve_chunks .callback router io request ⟨rfl, rfl, rfl, rfl⟩ {} hk hh hc⟩

end Script

end HttpContext
