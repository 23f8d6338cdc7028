import HttpContext.Proofs.LastChunk
import HttpContext.Proofs.Seeking
/-!
A source is sent by its content: in what fragments it arrives, and how often it is interrupted, makes
no difference. Without an announced length its body is cut into pieces of the size of the buffer,
and of each there are two lines on the wire. Main statement: `Script.serve_source`.
-/
namespace HttpContext

namespace Bytes

variable {size : Nat} {bytes : Bytes}

theorem flatten_pieces (hz : 0 < size) (bytes : Bytes) : (pieces size bytes).flatten = bytes := by
  fun_induction pieces size bytes with
  | case1 bytes h => exact (h.resolve_left (Nat.pos_iff_ne_zero.1 hz)).symm
  | case2 bytes h ih => rw [List.flatten_cons, ih, List.take_append_drop]

theorem bounds_of_mem_pieces {piece : Bytes} (hp : piece ∈ pieces size bytes) :
    piece ≠ [] ∧ piece.length ≤ size := by
  fun_induction pieces size bytes with
  | case1 => cases hp
  | case2 bytes h ih =>
    rcases List.mem_cons.1 hp with rfl | hp
    · exact ⟨fun hnil => h (List.take_eq_nil_iff.1 hnil), List.length_take_le size bytes⟩
    · exact ih hp

/-- A piece that another one follows is full. -/
theorem length_of_mem_dropLast_pieces {piece : Bytes} (hp : piece ∈ (pieces size bytes).dropLast) :
    piece.length = size := by
  fun_induction pieces size bytes with
  | case1 => cases hp
  | case2 bytes h ih =>
    cases hmore : pieces size (bytes.drop size) with
    | nil =>
      rw [hmore] at hp
      cases hp
    | cons next rest =>
      rw [hmore] at hp ih
      rw [List.dropLast_cons_cons] at hp
      rcases List.mem_cons.1 hp with rfl | hp
      · have hlong : size < bytes.length := by
          by_contra hle
          rw [List.drop_eq_nil_of_le (Nat.le_of_not_lt hle), pieces, if_pos (.inr rfl)] at hmore
          cases hmore
        rw [List.length_take]
        omega
      · exact ih hp

/-- The bytes are cut into pieces of this size. Only the last one may be shorter; none is empty. -/
structure CutInto (size : Nat) (bytes : Bytes) (pieces : List Bytes) : Prop where
  whole : pieces.flatten = bytes
  full : ∀ piece ∈ pieces.dropLast, piece.length = size
  bounds : ∀ piece ∈ pieces, piece ≠ [] ∧ piece.length ≤ size

theorem cutInto_pieces (hz : 0 < size) (bytes : Bytes) : CutInto size bytes (pieces size bytes) :=
  ⟨flatten_pieces hz bytes, fun _ => length_of_mem_dropLast_pieces, fun _ => bounds_of_mem_pieces⟩

end Bytes

namespace Context

open Source (IsSteady)

/-- The windows of sources with the same content have the same content, or are missed alike. -/
theorem windowOf_congr {s t : Source} (hs : s.IsSteady) (ht : t.IsSteady)
    (h : s.content = t.content) (range : ByteRange) :
    (∃ cause, windowOf s range = .error cause ∧ windowOf t range = .error cause)
      ∨ ∃ v w, windowOf s range = .ok v ∧ windowOf t range = .ok w ∧ v.IsSteady ∧ w.IsSteady
        ∧ v.content = w.content := by
  by_cases hstart : range.start ≤ s.content.length
  · obtain ⟨v, hv, hvsteady, hvcontent⟩ := hs.skip hstart
    obtain ⟨w, hw, hwsteady, hwcontent⟩ := ht.skip (h ▸ hstart)
    refine .inr ⟨v.take range.window, w.take range.window, ?_, ?_, hvsteady.take _,
      hwsteady.take _, ?_⟩
    · rw [windowOf, hv]
      rfl
    · rw [windowOf, hw]
      rfl
    · rw [Source.content_take, Source.content_take, hvcontent, hwcontent, h]
  · have hbeyond := Nat.lt_of_not_le hstart
    refine .inl ⟨.streamTooShort, ?_, ?_⟩
    · rw [windowOf, hs.skip_beyond hbeyond]
      rfl
    · rw [windowOf, ht.skip_beyond (h ▸ hbeyond)]
      rfl

theorem sendSource_congr (c : Context) {s t : Source} (hs : s.IsSteady) (ht : t.IsSteady)
    (h : s.content = t.content) : c.sendSource s = c.sendSource t := by
  unfold sendSource
  split
  · rename_i n _
    rcases windowOf_congr hs ht h (c.requestedRange (n + 1)) with ⟨cause, hv, hw⟩
      | ⟨v, w, hv, hw, hvsteady, hwsteady, hsame⟩
    · simp only [hv, hw]
    · simp only [hv, hw, copyWindow]
      exact copyOut_congr _ hvsteady hwsteady hsame
  · exact copyOut_congr _ hs ht h

/-- A length of zero announces no more than none does. -/
theorem sendSource_of_no_length {c : Context} (h : c.response.head.contentLength.getD 0 = 0)
    (source : Source) :
    c.sendSource source = { c with
      response := (c.response.removeHeader "Content-Length").setChunked }.copyOut source := by
  unfold sendSource
  split
  · rename_i n hn
    rw [hn] at h
    cases h
  · rfl

end Context

/-! ### What is on the wire whatever becomes of it -/

namespace Response

/-- What an operation makes of a response that it has these bytes for: a front part of them follows
what had been sent, all of them if it succeeds. On a sound sink it does. -/
structure Fronts (r : Response) (bytes : Bytes) (out : Except Fault Unit × Response) : Prop where
  continues : Continues r out.2
  head : out.2.head = r.head
  whole : out.1 = .ok () → out.2.sent = r.sent ++ bytes
  front : out.2.wire <+: r.sent ++ bytes
  sure : r.sink.IsSound → out.1 = .ok ()

variable {r : Response} {first second : Bytes} {out : Except Fault Unit × Response}

theorem Adds.fronts (h : Adds r first out) : Fronts r first out := by
  refine ⟨h.continues, h.head, h.whole, ?_, h.sure⟩
  rcases out with ⟨fault | _, s⟩
  · obtain ⟨missing, _, hmissing⟩ := h.short fault rfl
    exact ⟨missing, hmissing⟩
  · exact h.whole rfl ▸ wire_prefix_sent s

/-- A response that is put in chunks has the same wire, and its head has yet to go out if it had. -/
theorem sent_setChunked (r : Response) :
    let framed := (r.removeHeader "Content-Length").setChunked
    framed.sent = r.wire ++ if r.isCommitted then [] else Bytes.block framed.head.lines := by
  intro framed
  rw [sent, ← ResponseHead.encode_eq_block]
  cases hc : r.isCommitted with
  | true =>
    rw [show framed.isCommitted = true from hc]
    exact (List.append_nil _).symm
  | false =>
    rw [show framed.isCommitted = false from hc]
    rfl

theorem fronts_flushSink (r : Response) : Fronts r [] r.flushSink := by
  have hwire : r.flushSink.2.wire = r.wire := r.sink.wire_flush
  have hsent : r.flushSink.2.sent = r.sent := by
    unfold sent
    rw [hwire]
    rfl
  refine ⟨continues_flushSink r, rfl, fun _ => ?_, ?_, fun hs => ?_⟩
  · rw [hsent, List.append_nil]
  · rw [hwire, List.append_nil]
    exact wire_prefix_sent r
  · rw [flushSink_of_flushes hs.flushes]

/-- Of two operations in a row the second one is left out if the first fails. -/
theorem Fronts.andThen {next : Response → Except Fault Unit × Response} (h : Fronts r first out)
    (hn : ∀ s, Continues r s → s.head = r.head → Fronts s second (next s)) :
    Fronts r (first ++ second) (Response.andThen out next) := by
  rcases out with ⟨fault | _, s⟩
  · refine ⟨h.continues, h.head, nofun, ?_, h.sure⟩
    rw [← List.append_assoc]
    exact h.front.trans (List.prefix_append _ _)
  · have hnext := hn s h.continues h.head
    have hsent : s.sent ++ second = r.sent ++ (first ++ second) := by
      rw [← List.append_assoc]
      exact congrArg (· ++ second) (h.whole rfl)
    exact {
      continues := h.continues.trans hnext.continues
      head := hnext.head.trans h.head
      whole := fun hok => (hnext.whole hok).trans hsent
      front := hsent ▸ hnext.front
      sure := fun hs => hnext.sure (h.continues.isSound hs) }

theorem fronts_send (ho : r.isClosed = false) (data : Bytes) :
    Fronts r (frame r.head data) (r.send data) := by
  have hsend := (adds_writePiece ho data).fronts.andThen fun s _ _ => fronts_flushSink s
  rwa [List.append_nil] at hsend

/-- Buffers go out one behind the other. -/
theorem fronts_forEach {step : Response → Bytes → Except Fault Unit × Response}
    (hstep : ∀ {r : Response}, r.isClosed = false → ∀ data, Fronts r (frame r.head data) (step r data))
    (ho : r.isClosed = false) (buffers : List Bytes) :
    Fronts r (buffers.flatMap (frame r.head)) (forEach step buffers r) := by
  induction buffers generalizing r with
  | nil => exact (adds_nil r).fronts
  | cons buffer rest ih =>
    refine (hstep ho buffer).andThen fun s hrs hhead => ?_
    rw [← hhead]
    exact ih (hrs.isClosed.trans ho)

theorem fronts_close (ho : r.isClosed = false) (hc : r.head.isChunked = true) :
    Fronts { r with isClosed := true } Chunk.last (r.close false) := by
  have hsettle : { r with isClosed := true }.settleLength = { r with isClosed := true } := by
    rw [settleLength_eq, hc, Bool.or_true]
    rfl
  have hfinish := (adds_finish { r with isClosed := true }).fronts
  rw [hc, if_pos rfl] at hfinish
  have hclose := hfinish.andThen fun s _ _ => fronts_flushSink s
  rw [List.append_nil] at hclose
  simpa only [close, ho, hsettle, Bool.false_eq_true, ↓reduceIte] using hclose

end Response

namespace Context

open Response (Fronts frame)

variable {c : Context}

theorem fronts_copied (ho : c.response.isClosed = false) {source : Source} (hs : source.IsSteady) :
    Fronts c.response ((Bytes.pieces (max c.router.config.bufferSize 1) source.content).flatMap
      (frame c.response.head)) (c.copied source) := by
  unfold copied
  split
  · have hcopy := (Response.fronts_forEach (fun ho data => (Response.adds_writePiece ho data).fronts)
      ho (Bytes.pieces (max c.router.config.bufferSize 1) source.content)).andThen
      fun s _ _ => Response.fronts_flushSink s
    rw [List.append_nil] at hcopy
    rw [Response.copy, Response.writeFrom_eq_forEach, hs.buffers]
    exact hcopy
  · have hsend := (Response.fronts_forEach (fun ho data => Response.fronts_send ho data) ho
      (Bytes.pieces (max c.router.config.bufferSize 1) source.content)).andThen
      fun s _ _ => (Response.adds_nil s).fronts
    rw [List.append_nil] at hsend
    rw [Response.sendFrom_eq_forEach, hs.buffers]
    exact hsend

/-- A source that is copied in chunks puts a chunk for each of its pieces on the wire, and the last
one. On a sound sink all of that arrives, otherwise a front part of it. -/
theorem copyOut_of_isChunked (hongoing : Ongoing c) (hc : c.response.head.isChunked = true)
    {source : Source} (hs : source.IsSteady) :
    let whole := c.response.sent
      ++ (Bytes.pieces (max c.router.config.bufferSize 1) source.content).flatMap Chunk.encode
      ++ Chunk.last
    (c.copyOut source).response.head = c.response.head
      ∧ (c.copyOut source).response.wire <+: whole
      ∧ (c.response.sink.IsSound → (c.copyOut source).response.wire = whole
        ∧ (c.copyOut source).completions = c.listeners.map (·, none)) := by
  intro whole
  have hcopied := fronts_copied hongoing.isClosed hs
  rw [Response.frame_of_isChunked hc] at hcopied
  let d : Context := { c with response := (c.copied source).2 }
  have hongoing' : Ongoing d := hongoing.of_continues (.of_fixed rfl (continues_copied c source))
  have hhead : d.response.head = c.response.head := hcopied.head
  have hend : c.copyOut source = d.release (failure? (c.copied source).1) :=
    (copyOut_eq c source).trans (endWith_eq _ _)
  rw [hend]
  cases hresult : (c.copied source).1 with
  | error cause =>
    refine ⟨?_, ?_, fun hsound => ?_⟩
    · exact (head_release_failed hongoing' cause).trans hhead
    · rw [failure?, wire_release_failed hongoing'.isReleased]
      exact hcopied.front.trans (List.prefix_append _ _)
    · rw [hcopied.sure hsound] at hresult
      cases hresult
  | ok =>
    have hclose := Response.fronts_close hongoing'.isClosed (hhead ▸ hc)
    have hsent : d.response.sent ++ Chunk.last = whole :=
      congrArg (· ++ Chunk.last) (hcopied.whole hresult)
    refine ⟨?_, ?_, fun hsound => ⟨?_, ?_⟩⟩
    · exact (congrArg Response.head (response_release hongoing'.isReleased none)).trans
        (hclose.head.trans hhead)
    · rw [← hsent, failure?, response_release hongoing'.isReleased]
      exact hclose.front
    · have hcopy := continues_copied c source
      rw [← hsent, failure?, Script.wire_release_of_isChunked hongoing' (hcopy.isSound hsound)
        (hhead ▸ hc) (absurd rfl)]
      rfl
    · exact hongoing'.completions_release none

end Context

namespace Script

open Context (Ongoing Continues)

/-- Sources with the same content are sent alike, however it arrives: everything about the request
comes out the same, on any connection. Where no length was announced the body is cut into pieces of
the size of the buffer, and each of them goes out in a chunk of its own, behind the lines of the head
if that was not out before. -/
theorem serve_source (engine : Engine) (router : Router) (io : Executor) (request : Request)
    (sink : Sink) (spool : Spool) {steps : List Step} (hsteps : ∀ ending, .finish ending ∉ steps)
    {s t : Source} (hs : s.IsSteady) (ht : t.IsSteady) (h : s.content = t.content)
    {ending : Sending → Ending} (he : ending = .send ∨ ending = fun what => .sender (some what)) :
    let arrived := (arrive ⟨.start engine router io request sink spool, none⟩ steps).1.context
    let served := fun source =>
      serve engine router io request sink spool (steps ++ [.finish (ending (.source source))])
    served s = served t
      ∧ (arrived.response.head.contentLength.getD 0 = 0 →
        let head := ((arrived.response.removeHeader "Content-Length").setChunked).head
        let front := arrived.response.wire
          ++ if arrived.response.isCommitted then [] else Bytes.block head.lines
        let c := (served s).2.context
        ∃ pieces, Bytes.CutInto (max router.config.bufferSize 1) s.content pieces
          ∧ c.response.head = head ∧ head.isChunked = true
          ∧ c.response.wire <+: front ++ Bytes.block (Chunk.lines pieces)
          ∧ (sink.IsSound → c.response.wire = front ++ Bytes.block (Chunk.lines pieces)
              ∧ c.completions = (listeners steps).map (·, none))) := by
  intro arrived served
  have hsame : (ending (.source s)).apply arrived = (ending (.source t)).apply arrived := by
    rcases he with rfl | rfl
    · exact Context.sendSource_congr _ hs ht h
    · exact Context.sendSource_congr _ hs ht h
  refine ⟨run_append_finish hsame, ?_⟩
  intro hlength head front c
  let framed := (arrived.response.removeHeader "Content-Length").setChunked
  have hsent : framed.sent = front := arrived.response.sent_setChunked
  have hending : ending (.source s) = .send (.source s)
      ∨ ending (.source s) = .sender (some (.source s)) :=
    he.imp (congrFun · _) (congrFun · _)
  obtain ⟨a, hcontinues, hresponse, happly⟩ := apply_of_sending hending rfl
  let b : Context := { a with response := (a.response.removeHeader "Content-Length").setChunked }
  have hb : b.response = framed :=
    congrArg (fun r : Response => (r.removeHeader "Content-Length").setChunked) hresponse
  have hc : c = b.copyOut s :=
    calc c = (ending (.source s)).apply arrived := context_run_append_finish hsteps _
      _ = a.sendSource s := happly
      _ = b.copyOut s := Context.sendSource_of_no_length (hresponse ▸ hlength) s
  -- what was said of the framing has changed nothing else
  have hstarted : Continues arrived b := hcontinues.trans (.of_head rfl rfl)
  have hongoing : Ongoing b :=
    (ongoing_arrive engine router io request sink spool steps).of_continues hstarted
  have harrive := (continues_arrive ⟨.start engine router io request sink spool, none⟩ steps).trans
    hstarted
  have hrouter : b.router = router := harrive.router
  have hlisteners : b.listeners = listeners steps := harrive.listeners
  have hchunked : framed.head.isChunked = true := ResponseHead.isChunked_setChunked _
  obtain ⟨hhead, hfront, hwhole⟩ :=
    Context.copyOut_of_isChunked hongoing (hb ▸ hchunked) hs
  have hcut : Bytes.CutInto (max router.config.bufferSize 1) s.content _ :=
    Bytes.cutInto_pieces (by omega) _
  have hbody := Chunk.flatMap_encode_append_last fun piece hp => (hcut.bounds piece hp).1
  rw [← hc, hb] at hhead hfront hwhole
  rw [hrouter, List.append_assoc, hbody, hsent] at hfront hwhole
  refine ⟨_, hcut, hhead, hchunked, hfront, fun hsound => ?_⟩
  rw [hlisteners] at hwhole
  exact hwhole (hb ▸ harrive.response.isSound hsound)

/-- Three bytes come one by one and with an interruption, or all at once. The buffer holds two. -/
theorem serve_source_interrupted :
    let config : Config := { Config.default ⟨"/tmp", 1⟩ with bufferSize := 2 }
    let router : Router := { config, worker := .sameThread 0 }
    let io : Executor := .ioThread 1 "io"
    let request : Request := { head := { method := .get, path := "/" }, input := none }
    let steps : List Step := [.act (.addListener "end"), .act (.setStatus .notFound)]
    let s : Source := [.data [97], .fail (.external .interrupted none), .data [98], .data [99]]
    let t : Source := [.data [97, 98, 99]]
    let arrived := (arrive ⟨.start .stream router io request {} {}, none⟩ steps).1.context
    let served := fun source =>
      serve .stream router io request {} {} (steps ++ [.finish (.sender (some (.source source)))])
    let head := ((arrived.response.removeHeader "Content-Length").setChunked).head
    let c := (served s).2.context
    s.IsSteady ∧ t.IsSteady ∧ s.content = t.content ∧ Sink.IsSound {}
      ∧ arrived.response.head.contentLength.getD 0 = 0 ∧ served s = served t
      ∧ c.response.wire = Utf8.encode ("HTTP/1.1 404 Not Found\r\nTransfer-Encoding: chunked\r\n\r\n"
          ++ "2\r\nab\r\n1\r\nc\r\n0\r\n\r\n")
      ∧ ∃ pieces, Bytes.CutInto 2 [97, 98, 99] pieces
        ∧ c.response.wire = [] ++ Bytes.block head.lines ++ Bytes.block (Chunk.lines pieces)
        ∧ c.completions = [("end", none)] := by
  intro config router io request steps s t arrived served head c
  have hs : s.IsSteady := by
    intro fault hf
    simp only [s, List.mem_cons, List.not_mem_nil, or_false, reduceCtorEq, false_or,
      Source.Event.fail.injEq] at hf
    rw [hf]
    rfl
  have ht : t.IsSteady := by
    intro fault hf
    simp [t] at hf
  have hsound : Sink.IsSound {} := ⟨rfl, rfl, rfl, rfl⟩
  have hlength : arrived.response.head.contentLength.getD 0 = 0 := by decide +kernel
  have hsteps : ∀ ending, Step.finish ending ∉ steps := by simp [steps]
  obtain ⟨hsame, hchunks⟩ :=
    serve_source .stream router io request {} {} hsteps hs ht rfl (.inr rfl)
  obtain ⟨pieces, hcut, _, _, _, hwhole⟩ := hchunks hlength
  obtain ⟨hwire, htold⟩ := hwhole hsound
  exact ⟨hs, ht, rfl, hsound, hlength, hsame, by decide +kernel, pieces, hcut, hwire, htold⟩

end Script

end HttpContext
