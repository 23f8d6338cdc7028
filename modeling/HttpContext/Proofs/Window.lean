import HttpContext.Proofs.Preparation
import HttpContext.Proofs.Teardown
/-!
A source that is sent with an announced length. Its window is cut out of the bytes that it has, not
of those that were announced: a source that ends before the window begins is refused, one that ends
within the window is sent as far as it goes.
-/
namespace HttpContext

namespace Context

/-- A length has been announced for the body, of which nothing has been written. -/
structure Announces (c : Context) (length : Nat) : Prop where
  length : c.response.head.contentLength = some length
  isWhole : c.response.head.isChunked = false
  isCommitted : c.response.isCommitted = false

variable {c : Context} {length : Nat}

theorem Announces.announceRange (h : Announces c length) {range : ByteRange}
    (hr : range.Fits length) : Announces (c.announceRange range) range.window where
  length := contentLength_announceRange_of_fits h.length hr
  isWhole := (isChunked_announceRange c range).trans h.isWhole
  isCommitted := (prepares_announceRange c range).isCommitted.trans h.isCommitted

theorem Announces.of_response {d : Context} (h : Announces c length)
    (hr : d.response = c.response) : Announces d length :=
  ⟨hr ▸ h.length, hr ▸ h.isWhole, hr ▸ h.isCommitted⟩

theorem Announces.isPlain (h : Announces c length) (hc : Ongoing c)
    (hs : c.response.sink.IsSound) : c.response.IsPlain :=
  ⟨hs, hc.isClosed, h.isWhole⟩

/-! ### Sending the window -/

theorem Announces.sendSource_eq (h : Announces c length) (hpos : 0 < length) (source : Source) :
    c.sendSource source =
      match windowOf source (c.requestedRange length) with
      | .ok window => (c.announceRange (c.requestedRange length)).copyOut window
      | .error cause => (c.announceRange (c.requestedRange length)).endWith (.error cause) := by
  obtain ⟨n, rfl⟩ : ∃ n, length = n + 1 := ⟨length - 1, by omega⟩
  unfold sendSource
  split
  · rename_i m hm
    rw [h.length] at hm
    cases hm
    rfl
  · rename_i hnone
    exact absurd h.length (hnone n)

/-- A response with an announced length that is closed without a failure has its head and what was
sent of its body on the wire. -/
theorem wire_release (hc : Ongoing c) (hp : c.response.IsPlain)
    (hl : c.response.head.contentLength.isSome = true) :
    (c.release none).response.wire = c.response.sent := by
  obtain ⟨s, hclose, hwire⟩ := hp.close hl
  have hr := response_release hc.isReleased none
  rw [hr, ← hwire]
  exact congrArg (fun out => out.2.wire) hclose

/-- A steady source is copied behind the head, and the request is a success. -/
theorem Announces.copyOut (h : Announces c length) (hc : Ongoing c)
    (hsound : c.response.sink.IsSound) {source : Source} (hs : source.IsSteady) :
    ∃ d : Context, Continues c d ∧ c.copyOut source = d.release none
      ∧ d.response.head = c.response.head
      ∧ (d.release none).response.wire
          = c.response.wire ++ c.response.head.encode ++ source.content := by
  have hplain := h.isPlain hc hsound
  have hsent : c.response.sent = c.response.wire ++ c.response.head.encode :=
    Response.sent_of_not_isCommitted h.isCommitted
  have hsize : 0 < max c.router.config.bufferSize 1 := by omega
  -- where no flush fails, both engines copy in the same loop
  obtain ⟨s, hcopy, hsends⟩ := hplain.writeFrom hs hsize
  have hcopied : c.copied source = (.ok (), s) :=
    (copied_of_flushes hsound.flushes _).trans hcopy
  have hcs : c.response.Continues s := by
    have hw := continues_copied c source
    rwa [hcopied] at hw
  have hd : Continues c { c with response := s } := .of_fixed rfl hcs
  refine ⟨{ c with response := s }, hd, ?_, hsends.head, ?_⟩
  · rw [copyOut_eq, hcopied, endWith_eq]
    rfl
  · have hl : s.head.contentLength.isSome = true := by
      rw [hsends.head, h.length]
      rfl
    rw [wire_release (hc.of_continues hd) hsends.plain hl, hsends.sent, hsent]

/-- A source that reaches the window is a success, however much of the window it has. -/
theorem Announces.sendSource_within (h : Announces c length) (hpos : 0 < length) (hc : Ongoing c)
    (hsound : c.response.sink.IsSound) {source : Source} (hs : source.IsSteady)
    (hstart : (c.requestedRange length).start ≤ source.content.length) :
    ∃ (d : Context) (head : ResponseHead), Continues c d ∧ c.sendSource source = d.release none
      ∧ head.contentLength = some (c.requestedRange length).window ∧ head.isChunked = false
      ∧ (d.release none).response.wire = c.response.wire ++ head.encode
          ++ (source.content.drop (c.requestedRange length).start).take
            (c.requestedRange length).window := by
  have hfits : (c.requestedRange length).Fits length := ByteRange.fits_resolve hpos _
  -- only the range matters from here on, not how it was asked for
  generalize hrange : c.requestedRange length = range at hstart hfits ⊢
  obtain ⟨rest, hskip, hsteady, hcontent⟩ := hs.skip hstart
  have hwindow : windowOf source range = .ok (rest.take range.window) := by
    rw [windowOf, hskip]
    rfl
  have hbody : (rest.take range.window).content
      = (source.content.drop range.start).take range.window := by
    rw [Source.content_take, hcontent]
  have ha := h.announceRange hfits
  have hcontinues := continues_announceRange c range
  obtain ⟨d, hd, hcopy, hhead, hwire⟩ := ha.copyOut (hc.of_continues hcontinues)
    (hcontinues.response.isSound hsound) (hsteady.take range.window)
  refine ⟨d, d.response.head, hcontinues.trans hd, ?_, ?_, ?_, ?_⟩
  · rw [h.sendSource_eq hpos, hrange, hwindow]
    exact hcopy
  · rw [hhead]
    exact ha.length
  · rw [hhead]
    exact ha.isWhole
  · rw [hwire, hhead, hbody, Response.wire, sink_announceRange]
    rfl

/-- A source that ends before the window is a failure, and nothing is sent. -/
theorem Announces.sendSource_beyond (h : Announces c length) (hpos : 0 < length) (hc : Ongoing c)
    {source : Source} (hs : source.IsSteady)
    (hstart : source.content.length < (c.requestedRange length).start) :
    ∃ d : Context, Continues c d ∧ c.sendSource source = d.release (some .streamTooShort)
      ∧ (d.release (some .streamTooShort)).response.wire = c.response.wire := by
  have hwindow : windowOf source (c.requestedRange length) = .error .streamTooShort := by
    rw [windowOf, hs.skip_beyond hstart]
    rfl
  have hcontinues := continues_announceRange c (c.requestedRange length)
  refine ⟨_, hcontinues, ?_, ?_⟩
  · rw [h.sendSource_eq hpos, hwindow]
    exact endWith_eq _ _
  · rw [wire_release_failed (hc.of_continues hcontinues).isReleased, Response.wire, sink_announceRange]
    rfl

end Context

namespace Script

open Context

/-- A source is sent to a sound connection after a length was announced. The request succeeds when
the source reaches the window, and then the window goes out as far as the source has it. So the
announced length is kept exactly when the source ends before the window or not within it. -/
theorem serve_window (engine : Engine) (router : Router) (io : Executor) (request : Request)
    {sink : Sink} (hsink : sink.IsSound) (spool : Spool) (steps : List Step) {source : Source}
    (hsource : source.IsSteady) {length : Nat} (hpos : 0 < length)
    (ha : Announces (arrive ⟨.start engine router io request sink spool, none⟩ steps).1.context
      length)
    (he : (arrive ⟨.start engine router io request sink spool, none⟩ steps).2
        = .send (.source source)
      ∨ (arrive ⟨.start engine router io request sink spool, none⟩ steps).2
        = .sender (some (.source source))) :
    let range := ByteRange.resolve (request.head.header? "Range") length
    let body := (source.content.drop range.start).take range.window
    let c := (serve engine router io request sink spool steps).2.context
    ∃ outcome : Option Fault, c.completions = (listeners steps).map (·, outcome)
      ∧ (outcome = none ↔ range.start ≤ source.content.length)
      ∧ (outcome = none → ∃ head : ResponseHead, head.contentLength = some range.window
          ∧ head.isChunked = false ∧ c.response.wire = sink.wire ++ head.encode ++ body)
      ∧ (outcome ≠ none → c.response.wire = sink.wire)
      ∧ (((outcome = none → body.length = range.window)
            ∧ (source.content.length < range.stop → outcome ≠ none))
          ↔ (source.content.length < range.start ∨ range.stop ≤ source.content.length)) := by
  intro range body c
  have hongoing := ongoing_arrive engine router io request sink spool steps
  have harrive := continues_arrive ⟨.start engine router io request sink spool, none⟩ steps
  obtain ⟨a, hca, hresponse, happly⟩ := apply_of_sending he rfl
  have haa : Announces a length := ha.of_response hresponse
  have hc : c = a.sendSource source := (run_eq_apply _ steps).trans happly
  have hstarted := harrive.trans hca
  have hrange : a.requestedRange length = range := by
    rw [requestedRange, hstarted.head]
    rfl
  have hwire : a.response.wire = sink.wire := (hstarted.response.wire haa.isCommitted).2
  have hfits : range.Fits length := ByteRange.fits_resolve hpos _
  have hbody : body.length = min range.window (source.content.length - range.start) := by
    rw [List.length_take, List.length_drop]
  have hwindow : range.window = range.stop - range.start := rfl
  have hlt := hfits.start_lt
  -- the start of the window decides the outcome; its end is compared with nothing
  by_cases hstart : range.start ≤ source.content.length
  · obtain ⟨d, head, hd, hsend, hlength, hwhole, hsent⟩ :=
      haa.sendSource_within hpos (hongoing.of_continues hca) (hstarted.response.isSound hsink)
        hsource (hrange ▸ hstart)
    have hlisteners : d.listeners = listeners steps := (hstarted.trans hd).listeners
    rw [hrange] at hlength hsent
    refine ⟨none, ?_, iff_of_true rfl hstart, fun _ => ⟨head, hlength, hwhole, ?_⟩,
      fun h => absurd rfl h, ?_⟩
    · rw [hc, hsend, (hongoing.of_continues (hca.trans hd)).completions_release, hlisteners]
    · rw [hc, hsend, hsent, hwire]
    · -- the body is short of the window exactly when the source ends within it
      constructor
      · rintro ⟨hfull, -⟩
        have hlen := hfull rfl
        omega
      · intro hcond
        refine ⟨fun _ => ?_, fun hshort => ?_⟩ <;> omega
  · obtain ⟨d, hd, hsend, hkept⟩ :=
      haa.sendSource_beyond hpos (hongoing.of_continues hca) hsource (by rw [hrange]; omega)
    have hlisteners : d.listeners = listeners steps := (hstarted.trans hd).listeners
    refine ⟨some .streamTooShort, ?_, iff_of_false (by nofun) hstart, by nofun, fun _ => ?_, ?_⟩
    · rw [hc, hsend, (hongoing.of_continues (hca.trans hd)).completions_release, hlisteners]
    · rw [hc, hsend, hkept, hwire]
    · exact iff_of_true ⟨by nofun, by nofun⟩ (Or.inl (by omega))

/-- Ten bytes are announced, five are sent, and the listener is told a success. -/
theorem short_source_succeeds :
    let c := (serve .stream { config := .default ⟨"/tmp", 1⟩, worker := .sameThread 0 }
      (.ioThread 1 "io") { head := { method := .get, path := "/" }, input := none } {} {}
      [.act (.addListener "end"), .act (.setLength 10),
        .finish (.send (.source [.data [97, 98, 99, 100, 101]]))]).2.context
    c.completions = [("end", none)] ∧ c.response.head.contentLength = some 10
      ∧ c.response.wire = c.response.head.encode ++ [97, 98, 99, 100, 101] := by
  decide +kernel

/-- Of the ten bytes announced the request wants three, and the source has them. -/
theorem serve_window_of_three :
    let headers : HeaderFields := ⟨[("Range", "bytes=1-3")]⟩
    let request : Request := { head := { method := .get, path := "/", headers }, input := none }
    let source : Source := [.data [97, 98], .data [99, 100, 101]]
    let steps := [.act (.addListener "end"), .act (.setLength 10), .finish (.send (.source source))]
    let range := ByteRange.resolve (request.head.header? "Range") 10
    let body := (source.content.drop range.start).take range.window
    let c := (serve .callback { config := .default ⟨"/tmp", 1⟩, worker := .sameThread 0 }
      (.ioThread 1 "io") request {} {} steps).2.context
    ∃ outcome : Option Fault, c.completions = (listeners steps).map (·, outcome)
      ∧ (outcome = none ↔ range.start ≤ source.content.length)
      ∧ (outcome = none → ∃ head : ResponseHead, head.contentLength = some range.window
          ∧ head.isChunked = false ∧ c.response.wire = [] ++ head.encode ++ body)
      ∧ (outcome ≠ none → c.response.wire = [])
      ∧ (((outcome = none → body.length = range.window)
            ∧ (source.content.length < range.stop → outcome ≠ none))
          ↔ (source.content.length < range.start ∨ range.stop ≤ source.content.length)) :=
  have hsteady : Source.IsSteady [.data [97, 98], .data [99, 100, 101]] :=
    fun _ hf => by simp at hf
  serve_window .callback _ _ _ ⟨rfl, rfl, rfl, rfl⟩ _ _ hsteady (by decide)
    ⟨by decide +kernel, by decide +kernel, by decide +kernel⟩ (.inl rfl)

end Script

end HttpContext
