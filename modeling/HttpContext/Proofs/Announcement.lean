import HttpContext.Proofs.LastChunk
/-!
What the head of a response says about the end of its body: its length, that it comes in chunks, or
both. Every operation edits the one or the other, or puts one in the place of the other. Main
statement: `Script.serve_announces`.
-/
namespace HttpContext

/-- The framing that a head announces. -/
structure Framing where
  length : Option Nat := none
  isChunked : Bool := false
  deriving Repr, DecidableEq

namespace ResponseHead

/-- There is one line for the length and none for chunks, or the other way round. -/
def AnnouncesOneFraming (head : ResponseHead) : Prop :=
  (∃ length, head.headers.values "Content-Length" = [length])
      ∧ head.headers.values "Transfer-Encoding" = []
    ∨ head.headers.values "Content-Length" = []
      ∧ head.headers.values "Transfer-Encoding" = ["chunked"]

end ResponseHead

namespace Framing

/-- Neither a length nor chunks. -/
def isSilent (f : Framing) : Bool := f.length.isNone && !f.isChunked

/-- Chunks, unless a length was announced. -/
def opened (f : Framing) : Framing := if f.length.isNone then { f with isChunked := true } else f

/-- A length of zero, where nothing was announced. -/
def settled (f : Framing) : Framing := if f.isSilent then { f with length := some 0 } else f

/-- The head announces just this, in one line for each of the two. -/
structure Describes (f : Framing) (head : ResponseHead) : Prop where
  length : head.headers.values "Content-Length" = (f.length.map toString).toList
  chunked : head.headers.values "Transfer-Encoding" = if f.isChunked then ["chunked"] else []
  fits : ∀ n ∈ f.length, n < UInt64.size

theorem isSilent_settled (f : Framing) : f.settled.isSilent = false := by
  unfold settled
  split
  · rfl
  · rename_i h
    exact Bool.eq_false_iff.2 h

theorem isSilent_opened (f : Framing) : f.opened.isSilent = false := by
  unfold opened
  split
  · exact Bool.and_false _
  · rename_i h
    simp [isSilent, h]

theorem settled_of_not_isSilent {f : Framing} (h : f.isSilent = false) : f.settled = f := by
  rw [settled, h]
  rfl

variable {f : Framing} {head : ResponseHead}

/-- A head announces both only if its framing has both. -/
theorem Describes.announcesOneFraming_iff (h : f.Describes head) (hs : f.isSilent = false) :
    head.AnnouncesOneFraming ↔ ¬ (f.isChunked = true ∧ f.length.isSome = true) := by
  unfold ResponseHead.AnnouncesOneFraming
  rw [h.length, h.chunked]
  rcases f with ⟨_ | length, _ | _⟩
  · cases hs
  · simp
  · simp
  · simp

/-! ### Edits of a head -/

theorem Describes.contentLength (h : f.Describes head) : head.contentLength = f.length := by
  rw [ResponseHead.contentLength, HeaderFields.get?_eq_head?, h.length]
  cases hl : f.length with
  | none => rfl
  | some n =>
    simp only [Option.map_some, Option.toList_some, List.head?_cons, Option.bind_some,
      Text.trim_toString, Text.count?_toString (h.fits n hl)]

theorem Describes.isChunked (h : f.Describes head) : head.isChunked = f.isChunked := by
  rw [ResponseHead.isChunked, HeaderFields.get?_eq_head?, h.chunked]
  cases f.isChunked <;> rfl

theorem Describes.of_headers (h : f.Describes head) {other : ResponseHead}
    (he : other.headers = head.headers) : f.Describes other :=
  ⟨he ▸ h.length, he ▸ h.chunked, h.fits⟩

/-- A line of another name leaves the framing alone. -/
theorem Describes.set (h : f.Describes head) (name value : String)
    (hl : Text.sameName name "Content-Length" = false)
    (hc : Text.sameName name "Transfer-Encoding" = false) :
    f.Describes { head with headers := head.headers.set name value } := by
  refine ⟨?_, ?_, h.fits⟩
  · rw [HeaderFields.values_set, hl]
    exact h.length
  · rw [HeaderFields.values_set, hc]
    exact h.chunked

theorem Describes.setContentLength (h : f.Describes head) {n : Nat} (hn : n < UInt64.size) :
    { f with length := some n }.Describes (head.setContentLength n) := by
  have hc : Text.sameName "Content-Length" "Transfer-Encoding" = false := by decide
  refine ⟨?_, ?_, ?_⟩
  · rw [ResponseHead.setContentLength, HeaderFields.values_set, Text.sameName_refl]
    rfl
  · rw [ResponseHead.setContentLength, HeaderFields.values_set, hc]
    exact h.chunked
  · rintro m hm
    cases hm
    exact hn

theorem Describes.setChunked (h : f.Describes head) :
    { f with isChunked := true }.Describes head.setChunked := by
  have hl : Text.sameName "Transfer-Encoding" "Content-Length" = false := by decide
  refine ⟨?_, ?_, h.fits⟩
  · rw [ResponseHead.setChunked, HeaderFields.values_set, hl]
    exact h.length
  · rw [ResponseHead.setChunked, HeaderFields.values_set, Text.sameName_refl]
    rfl

theorem Describes.opened (h : f.Describes head) :
    f.opened.Describes head.setChunkedWithoutLength := by
  unfold Framing.opened ResponseHead.setChunkedWithoutLength
  rw [h.contentLength]
  split
  · exact h.setChunked
  · exact h

theorem Describes.removeLength (h : f.Describes head) :
    { f with length := none }.Describes
      { head with headers := head.headers.remove "Content-Length" } := by
  have hc : Text.sameName "Content-Length" "Transfer-Encoding" = false := by decide
  refine ⟨?_, ?_, nofun⟩
  · rw [HeaderFields.values_remove, Text.sameName_refl]
    rfl
  · rw [HeaderFields.values_remove, hc]
    exact h.chunked

theorem Describes.removeChunks (h : f.Describes head) :
    { f with isChunked := false }.Describes
      { head with headers := head.headers.remove "Transfer-Encoding" } := by
  have hl : Text.sameName "Transfer-Encoding" "Content-Length" = false := by decide
  refine ⟨?_, ?_, h.fits⟩
  · rw [HeaderFields.values_remove, hl]
    exact h.length
  · rw [HeaderFields.values_remove, Text.sameName_refl]
    rfl

/-- A close announces a length of zero where nothing was announced, which it sees of a response that
has not started. -/
theorem Describes.settleLength {r : Response} (h : f.Describes r.head)
    (hr : f.isSilent = true → r.isCommitted = false) :
    f.settled.Describes r.settleLength.head := by
  cases hs : f.isSilent with
  | true =>
    have hsilent := hs
    rw [isSilent, Bool.and_eq_true, ← h.contentLength, ← h.isChunked] at hs
    rw [Response.settleLength, hr hsilent, hs.1, hs.2, settled, hsilent]
    exact h.setContentLength (by decide)
  | false =>
    have hkeep : r.settleLength = r := by
      rw [Response.settleLength, h.contentLength, h.isChunked, Bool.and_assoc]
      have hspoken : (f.length.isNone && !f.isChunked) = false := hs
      rw [hspoken, Bool.and_false]
      rfl
    rw [hkeep, settled_of_not_isSilent hs]
    exact h

end Framing

/-- What is sent to end a response puts one of the two in the place of the other; only a source that
is sent with a length leaves chunks that were announced before, and a file that does not report its
length leaves everything. `range` is the window that the request asks for. -/
def Sending.framing (range : Nat → ByteRange) (f : Framing) : Sending → Framing
  | .empty _ => { length := some 0 }
  | .bytes data => { length := some data.length }
  | .file opened =>
    if opened.metadataFault.isSome then f else { length := some (range opened.length).window }
  | .source _ =>
    match f.length with
    | some (length + 1) => { f with length := some (range (length + 1)).window }
    | _ => { isChunked := true }

namespace Context

variable {c : Context} {f : Framing}

/-- The window that the request asks for stays the same. -/
theorem Continues.requestedRange {c d : Context} (h : Continues c d) :
    d.requestedRange = c.requestedRange := by
  funext length
  rw [Context.requestedRange, Context.requestedRange, h.head]

theorem describes_withLength (h : f.Describes c.response.head) {n : Nat} (hn : n < UInt64.size) :
    Framing.Describes { length := some n } (c.withLength n).response.head :=
  h.removeChunks.setContentLength hn

/-- A window that fits the announced length is announced in its place. -/
theorem describes_announceRange {length : Nat}
    (h : Framing.Describes { f with length := some length } c.response.head) :
    Framing.Describes { f with length := some (c.requestedRange length).window }
      (c.announceRange (c.requestedRange length)).response.head := by
  have hlength : length < UInt64.size := h.fits length rfl
  obtain ⟨hle, hwhole⟩ : (c.requestedRange length).window ≤ length
      ∧ ((c.requestedRange length).isPartial = false →
        (c.requestedRange length).window = length) := by
    rcases Nat.eq_zero_or_pos length with rfl | hpos
    · have hrange : c.requestedRange 0 = .full 0 := ByteRange.resolve_zero _
      rw [hrange]
      exact ⟨Nat.le_refl 0, fun _ => rfl⟩
    · have hfits : (c.requestedRange length).Fits length := ByteRange.fits_resolve hpos _
      have hstop := hfits.stop_le
      refine ⟨?_, fun hp => ?_⟩
      · unfold ByteRange.window
        omega
      · rw [hfits.whole hp]
        rfl
  unfold announceRange
  split
  · have haccept := h.set "Accept-Ranges" "bytes" (by decide) (by decide)
    have hrange := haccept.set "Content-Range" (c.requestedRange length).contentRange (by decide)
      (by decide)
    exact (hrange.setContentLength (Nat.lt_of_le_of_lt hle hlength)).of_headers rfl
  · rename_i hp
    rw [hwhole (Bool.eq_false_iff.2 hp)]
    exact h

theorem describes_openSender (h : f.Describes c.response.head) :
    (if c.engine = .stream then f.opened else f).Describes c.openSender.response.head := by
  unfold openSender
  cases hengine : c.engine with
  | stream =>
    simp only [↓reduceIte, response_markAsync]
    exact h.opened
  | callback => exact h

theorem describes_prepare (h : f.Describes c.response.head) {what : Sending}
    (hsize : what.size < UInt64.size) :
    (what.framing c.requestedRange f).Describes (c.prepare what).1.response.head := by
  cases what with
  | empty status => exact (describes_withLength h (n := 0) (by decide)).of_headers rfl
  | bytes data => exact describes_withLength h hsize
  | file opened =>
    cases hf : opened.metadataFault with
    | some cause =>
      simp only [Sending.framing, prepare, hf, Option.isSome_some, ↓reduceIte]
      exact h
    | none =>
      have hlength : Framing.Describes { length := some opened.length }
          (c.withLength opened.length).response.head := describes_withLength h hsize
      simp only [Sending.framing, prepare, hf, Option.isSome_none, Bool.false_eq_true, ↓reduceIte]
      exact describes_announceRange (f := {}) hlength
  | source source =>
    simp only [prepare, Sending.framing, h.contentLength]
    rcases hl : f.length with _ | _ | length
    · exact h.removeLength.setChunked
    · exact h.removeLength.setChunked
    · have hf : { f with length := some (length + 1) } = f := by rw [← hl]
      exact describes_announceRange (hf ▸ h)

/-- Where a sending announces nothing, it writes nothing either. -/
theorem prepare_of_isSilent_framing {range : Nat → ByteRange} {what : Sending}
    (h : (what.framing range f).isSilent = true) : ∃ outcome, (c.prepare what).2 = .leave outcome := by
  cases what with
  | empty status => cases h
  | bytes data => cases h
  | source source =>
    simp only [Sending.framing] at h
    split at h <;> cases h
  | file opened =>
    cases hf : opened.metadataFault with
    | some cause => exact ⟨some cause, by simp only [prepare, hf]⟩
    | none =>
      simp only [Sending.framing, hf] at h
      cases h

end Context

namespace Script

open Context Response

/-- What an action says of the framing. -/
def Action.framing (f : Framing) : Action → Framing
  | .setLength length => { f with length := some length }
  | .stream _ _ => f.opened
  | .writer _ _ _ _ => f.opened
  | _ => f

/-- The action makes the head go out. -/
def Action.starts : Action → Bool
  | .stream items _ => items.any Item.starts
  | .writer _ _ items _ => items.any Item.starts
  | _ => false

/-- What an ending says of the framing, before the response is closed. -/
def Ending.framing (range : Nat → ByteRange) (engine : Engine) (f : Framing) : Ending → Framing
  | .send what => what.framing range f
  | .sender what =>
    let f := if engine = .stream then f.opened else f
    (what.map (Sending.framing range f)).getD f
  | .drop => f
  | .abort _ => f

/-- The step sets no header of the framing by its name, and its length is a number of 64 bits. -/
def Step.leavesFraming : Step → Bool
  | .act (.setHeader name _) =>
    !Text.sameName name "Content-Length" && !Text.sameName name "Transfer-Encoding"
  | .act (.setLength length) => length < UInt64.size
  | .finish ending => ending.size < UInt64.size
  | _ => true

/-- The framing of the head that goes out: what was said last when the handler first wrote
something, or when the response was ended. -/
def framingSent (range : Nat → ByteRange) (engine : Engine) (f : Framing) : List Step → Framing
  | [] => f.settled
  | .finish ending :: _ => (ending.framing range engine f).settled
  | .act action :: rest =>
    if action.starts then action.framing f
    else framingSent range engine (action.framing f) rest
  | .dispatch _ :: rest => framingSent range engine f rest
  | .detach :: rest => framingSent range engine f rest

/-! ### Actions -/

theorem isCommitted_writeItems {r : Response} (h : r.IsReady) (whole : Bool) (items : List Item) :
    (writeItems whole items r).2.isCommitted = (r.isCommitted || items.any Item.starts) := by
  induction items generalizing r with
  | nil => exact (Bool.or_false _).symm
  | cons item rest ih =>
    obtain ⟨hgains, hcommitted⟩ := h.item whole item
    have hrest := ih (h.of_continues hgains.continues)
    rw [hcommitted, Bool.or_assoc] at hrest
    exact hrest

/-- `s` is `r` after an action that makes `f` of the framing. -/
structure Says (f : Framing) (starts : Bool) (r s : Response) : Prop where
  describes : f.Describes s.head
  isCommitted : s.isCommitted = (r.isCommitted || starts)

theorem says_writeOut {c : Context} (hs : c.response.sink.IsSound)
    (ho : c.response.isClosed = false) {f : Framing} (h : f.Describes c.response.head)
    (items : List Item) (whole : Bool) :
    Says f.opened (items.any Item.starts) c.response
      (writeOut c.openStream items whole).2.response := by
  have hready : c.openStream.response.IsReady := ⟨hs, ho, rfl⟩
  refine ⟨?_, isCommitted_writeItems hready whole items⟩
  show f.opened.Describes (writeItems whole items c.openStream.response).2.head
  rw [(gains_writeItems hready whole items).head]
  exact h.opened

theorem says_act {h : Handler} (hs : h.context.response.sink.IsSound)
    (ho : h.context.response.isClosed = false) {f : Framing}
    (hf : f.Describes h.context.response.head) {action : Action}
    (hstep : (Step.act action).leavesFraming = true) :
    Says (action.framing f) action.starts h.context.response
      (act h action).2.context.response := by
  have hsame : ∀ {s : Response}, s = h.context.response → Says f false h.context.response s := by
    rintro s rfl
    exact ⟨hf, (Bool.or_false _).symm⟩
  have hedit : ∀ {f : Framing} {s : Response}, f.Describes s.head →
      s.isCommitted = h.context.response.isCommitted → Says f false h.context.response s :=
    fun hd hc => ⟨hd, hc.trans (Bool.or_false _).symm⟩
  have htype : ∀ value : String, f.Describes
      { h.context.response.head with
        headers := h.context.response.head.headers.set "Content-Type" value } :=
    fun value => hf.set "Content-Type" value (by decide) (by decide)
  cases action
  case form => exact hsame h.context.response_form
  case multipart => exact hsame h.context.response_multipart
  case body use => exact hedit hf rfl
  case setStatus status => exact hedit (hf.of_headers rfl) rfl
  case setHeader name value =>
    simp only [Step.leavesFraming, Bool.and_eq_true, Bool.not_eq_true'] at hstep
    exact hedit (hf.set name value hstep.1 hstep.2) rfl
  case setType type charset => exact hedit (htype _) rfl
  case defaultType type =>
    show Says f false h.context.response (h.context.defaultType type).response
    unfold Context.defaultType
    split
    · exact hedit (htype _) rfl
    · exact hsame rfl
  case setLength length =>
    exact hedit (hf.setContentLength (of_decide_eq_true hstep)) rfl
  case stream items whole => exact says_writeOut hs ho hf items whole
  case writer type charset items whole =>
    obtain ⟨hwritten, hcommitted⟩ :=
      says_writeOut (c := h.context.setType type (charset <|> h.context.defaultCharset type))
        hs ho (htype _) items whole
    exact ⟨hwritten, hcommitted⟩
  -- what the others do has nothing to do with the response
  all_goals first
    | exact hsame rfl
    | simp only [act]
      split <;> exact hsame rfl

/-- The head goes out with the first pieces, as it stands then. -/
theorem Acts.prefix_wire {action : Action} {r s : Response} (h : Acts action r s)
    (hr : r.isCommitted = false) (hs : s.isCommitted = true) :
    r.wire ++ s.head.encode <+: s.wire := by
  obtain ⟨edited, pieces, hsink, hcommitted, _, hgains, _⟩ := h
  have hwire : edited.wire = r.wire := congrArg Sink.wire hsink
  refine ⟨pieces.flatMap (frame edited.head), ?_⟩
  rw [← sent_of_isCommitted hs, hgains.sent, sent_of_not_isCommitted (hcommitted.trans hr), hwire,
    hgains.head]

/-! ### Endings -/

theorem describes_ending {c : Context} {f : Framing} (h : f.Describes c.response.head)
    {ending : Ending} (hsize : ending.size < UInt64.size) :
    (ending.framing c.requestedRange c.engine f).Describes
      (ending.prepare c).1.response.head := by
  cases ending with
  | send what => exact describes_prepare h hsize
  | sender what =>
    have hsender := describes_openSender h
    cases what with
    | none => exact hsender
    | some what =>
      have hrange := (prepares_openSender c).toContinues.requestedRange
      have hprepared := describes_prepare hsender hsize
      rw [hrange] at hprepared
      exact hprepared
  | drop => exact h
  | abort cause => exact h

theorem prepare_of_isSilent {c : Context} {f : Framing} {ending : Ending}
    (h : (ending.framing c.requestedRange c.engine f).isSilent = true) :
    ∃ outcome, (ending.prepare c).2 = .leave outcome := by
  cases ending with
  | send what => exact prepare_of_isSilent_framing h
  | sender what =>
    cases what with
    | none => exact ⟨none, rfl⟩
    | some what => exact prepare_of_isSilent_framing (c := c.openSender) h
  | drop => exact ⟨none, rfl⟩
  | abort cause => exact ⟨some cause, rfl⟩

/-- What a close leaves of a head that goes out now or has gone out behind `base`. -/
theorem prefix_sent_settleLength {r : Response} {base more : Bytes}
    (hsent : r.sent = base ++ r.head.encode ++ more)
    (hwire : r.isCommitted = false → r.wire = base) :
    base ++ r.settleLength.head.encode <+: r.settleLength.sent := by
  unfold settleLength
  split
  · rename_i hfresh
    simp only [Bool.and_eq_true, Bool.not_eq_true'] at hfresh
    have hbase : (r.setLength 0).wire = base := hwire hfresh.1.1
    have hsettled : (r.setLength 0).sent = base ++ (r.setLength 0).head.encode := by
      rw [← hbase]
      exact sent_of_not_isCommitted hfresh.1.1
    exact ⟨[], (List.append_nil _).trans hsettled.symm⟩
  · exact ⟨more, hsent.symm⟩

theorem describes_release {d : Context} (hongoing : Ongoing d) (hs : d.response.sink.IsSound)
    {f : Framing} (hf : f.Describes d.response.head)
    (hquiet : f.isSilent = true → d.response.isCommitted = false) {base more : Bytes}
    (hsent : d.response.sent = base ++ d.response.head.encode ++ more)
    (hwire : d.response.isCommitted = false → d.response.wire = base) {outcome : Option Fault}
    {head : ResponseHead} (hh : headOf? (d.release outcome) = some head) :
    f.settled.Describes head ∧ base ++ head.encode <+: (d.release outcome).response.wire := by
  obtain ⟨hcommitted, rfl⟩ := headOf?_eq_some.1 hh
  cases outcome with
  | none =>
    obtain ⟨hclose, hclosed⟩ := close_of_isSound hs hongoing.isClosed
    rw [response_release hongoing.isReleased, Option.isSome_none, hclose, hclosed]
    exact ⟨hf.settleLength hquiet,
      (prefix_sent_settleLength hsent hwire).trans (List.prefix_append _ _)⟩
  | some cause =>
    -- a failed release writes no head, so this one was out before
    have hout : d.response.isCommitted = true := by
      rw [response_release_failed hongoing] at hcommitted
      exact hcommitted
    have hspoken : f.isSilent = false := by
      cases hsilent : f.isSilent with
      | false => rfl
      | true =>
        rw [hquiet hsilent] at hout
        cases hout
    rw [head_release_failed hongoing, wire_release_failed hongoing.isReleased,
      Framing.settled_of_not_isSilent hspoken, ← sent_of_isCommitted hout]
    exact ⟨hf, more, hsent.symm⟩

/-- The head that goes out with an ending announces what the ending has made of the framing. -/
theorem describes_apply {c : Context} (hongoing : Ongoing c) (hs : c.response.sink.IsSound)
    (hc : c.response.isCommitted = false) {f : Framing} (hf : f.Describes c.response.head)
    {ending : Ending} (hsize : ending.size < UInt64.size) {head : ResponseHead}
    (hh : headOf? (ending.apply c) = some head) :
    (ending.framing c.requestedRange c.engine f).settled.Describes head
      ∧ c.response.wire ++ head.encode <+: (ending.apply c).response.wire := by
  have hprepares := prepares_ending c ending
  have hcommitted := hprepares.isCommitted.trans hc
  have hopen := (hongoing.of_continues hprepares.toContinues).isClosed
  obtain ⟨hcd, hend⟩ := apply_eq_release hs.flushes ending
  obtain ⟨pieces, hgains, _⟩ := gains_write hopen (hprepares.response.isSound hs)
    (max c.router.config.bufferSize 1) (ending.prepare c).2
  have hquiet : (ending.framing c.requestedRange c.engine f).isSilent = true →
      ((ending.prepare c).2.write (max c.router.config.bufferSize 1)
        (ending.prepare c).1.response).2.isCommitted = false := by
    intro hsilent
    obtain ⟨outcome, hleave⟩ := prepare_of_isSilent hsilent
    rw [hleave]
    cases outcome <;> exact hcommitted
  have hb := describes_ending hf hsize
  rw [← hgains.head] at hb
  have hsent := hgains.sent
  rw [sent_of_not_isCommitted hcommitted, hprepares.wire, ← hgains.head] at hsent
  rw [hend] at hh ⊢
  have hdsent : _ = c.response.wire ++ _ ++ _ := hsent
  exact describes_release (hongoing.of_continues hcd) (hcd.response.isSound hs) hb hquiet hdsent
    (fun hquiet => (hcd.response.wire hquiet).2) hh

/-! ### A run of actions -/

/-- A head that goes out before the ending begins announces what has been said by then; otherwise it
goes out with the ending. -/
theorem framing_arrive {h : Handler} {steps : List Step} (hs : h.context.response.sink.IsSound)
    (ho : h.context.response.isClosed = false) (hc : h.context.response.isCommitted = false)
    {f : Framing} (hf : f.Describes h.context.response.head)
    (hsteps : ∀ step ∈ steps, step.leavesFraming = true) {head : ResponseHead}
    (hh : headSent? h steps = some head) :
    (framingSent h.context.requestedRange h.context.engine f steps).Describes head
        ∧ h.context.response.wire ++ head.encode <+: (arrive h steps).1.context.response.wire
      ∨ (arrive h steps).1.context.response.isCommitted = false
        ∧ headOf? ((arrive h steps).2.apply (arrive h steps).1.context) = some head
        ∧ ∃ g : Framing, g.Describes (arrive h steps).1.context.response.head
          ∧ framingSent h.context.requestedRange h.context.engine f steps
            = ((arrive h steps).2.framing h.context.requestedRange h.context.engine g).settled := by
  fun_induction arrive h steps generalizing f with
  | case1 h =>
    rw [headSent?_of_not_isCommitted hc, contexts, List.tail_cons, List.findSome?_singleton] at hh
    exact .inr ⟨hc, hh, f, hf, rfl⟩
  | case2 h ending rest =>
    rw [headSent?_of_not_isCommitted hc, contexts, List.tail_cons, List.findSome?_singleton] at hh
    exact .inr ⟨hc, hh, f, hf, rfl⟩
  | case3 h action rest ih =>
    obtain ⟨hs', ho'⟩ := isSound_act hs ho action
    have hcontinues := continues_act h action
    have hrange : (act h action).2.context.requestedRange = h.context.requestedRange :=
      hcontinues.requestedRange
    have hengine : (act h action).2.context.engine = h.context.engine := hcontinues.response.engine
    obtain ⟨hstep, hrest⟩ := List.forall_mem_cons.1 hsteps
    obtain ⟨hmade, hstarts⟩ := says_act hs ho hf hstep
    rw [hc, Bool.false_or] at hstarts
    rw [headSent?_of_not_isCommitted hc] at hh
    rw [framingSent, ← hstarts]
    cases hc' : (act h action).2.context.response.isCommitted with
    | true =>
      -- the head goes out now
      obtain rfl : (act h action).2.context.response.head = head :=
        Option.some.inj ((headSent?_of_isCommitted hc' rest).symm.trans hh)
      exact .inl ⟨hmade, ((acts_act hs ho action).prefix_wire hc hc').trans
        (continues_arrive (act h action).2 rest).response.grows⟩
    | false =>
      have hwire := (hcontinues.response.wire hc').2
      have hlater := ih hs' ho' hc' hmade hrest hh
      rw [hwire, hrange, hengine] at hlater
      exact hlater
  | case4 h executor rest ih =>
    have hresponse := response_dispatch h executor
    have hrange := (continues_dispatch h executor).requestedRange
    have hengine : (dispatch h executor).2.context.engine = h.context.engine :=
      congrArg Response.engine hresponse
    rw [headSent?_of_not_isCommitted hc] at hh
    rw [← hresponse] at hs ho hc hf ⊢
    rw [← hrange, ← hengine]
    exact ih hs ho hc hf (List.forall_mem_cons.1 hsteps).2 hh
  | case5 h rest ih =>
    have hresponse := response_detach h
    have hrange := (continues_detach h).requestedRange
    have hengine : (detach h).2.context.engine = h.context.engine :=
      congrArg Response.engine hresponse
    rw [headSent?_of_not_isCommitted hc] at hh
    rw [← hresponse] at hs ho hc hf ⊢
    rw [← hrange, ← hengine]
    exact ih hs ho hc hf (List.forall_mem_cons.1 hsteps).2 hh

/-- The ending that a run arrives at is one of its steps, or the drop of the context. -/
theorem size_arrive {h : Handler} {steps : List Step}
    (hsteps : ∀ step ∈ steps, step.leavesFraming = true) :
    (arrive h steps).2.size < UInt64.size := by
  fun_induction arrive h steps with
  | case1 => exact Nat.zero_lt_succ _
  | case2 h ending rest => exact of_decide_eq_true (hsteps _ List.mem_cons_self)
  | case3 h action rest ih => exact ih (List.forall_mem_cons.1 hsteps).2
  | case4 h executor rest ih => exact ih (List.forall_mem_cons.1 hsteps).2
  | case5 h rest ih => exact ih (List.forall_mem_cons.1 hsteps).2

theorem isSilent_framingSent (range : Nat → ByteRange) (engine : Engine) (f : Framing)
    (steps : List Step) : (framingSent range engine f steps).isSilent = false := by
  fun_induction framingSent range engine f steps with
  | case1 f => exact f.isSilent_settled
  | case2 f ending rest => exact Framing.isSilent_settled _
  | case3 f action rest hstarts =>
    -- only a stream that is opened has something written to it
    cases action <;> first
      | exact f.isSilent_opened
      | cases hstarts
  | case4 f action rest hstarts ih => exact ih
  | case5 f executor rest ih => exact ih
  | case6 f rest ih => exact ih

/-- A head that goes out on a sound connection never leaves the end of its body open. It announces
one framing and not both, unless a length was set after a stream had been opened in chunks, and the
head goes out by a write, a flush, a drop or a source that is sent with that length: what else is
sent to end the response takes the chunks back. -/
theorem serve_announces (engine : Engine) (router : Router) (io : Executor) (request : Request)
    {sink : Sink} (hs : sink.IsSound) (spool : Spool) {steps : List Step}
    (hsteps : ∀ step ∈ steps, step.leavesFraming = true) {head : ResponseHead}
    (hh : headSent? ⟨.start engine router io request sink spool, none⟩ steps = some head) :
    let f := framingSent (ByteRange.resolve (request.head.header? "Range")) engine {} steps
    let c := (serve engine router io request sink spool steps).2.context
    sink.wire ++ head.encode <+: c.response.wire
      ∧ head.headers.values "Content-Length" = (f.length.map toString).toList
      ∧ head.headers.values "Transfer-Encoding" = (if f.isChunked then ["chunked"] else [])
      ∧ (f.length.isSome = true ∨ f.isChunked = true)
      ∧ (head.AnnouncesOneFraming ↔ ¬ (f.isChunked = true ∧ f.length.isSome = true)) := by
  intro f c
  let fresh : Context := .start engine router io request sink spool
  have hongoing := ongoing_arrive engine router io request sink spool steps
  have harrive := continues_arrive ⟨fresh, none⟩ steps
  have hsound : (arrive ⟨fresh, none⟩ steps).1.context.response.sink.IsSound :=
    harrive.response.isSound hs
  have hrun : c = (arrive ⟨fresh, none⟩ steps).2.apply (arrive ⟨fresh, none⟩ steps).1.context :=
    run_eq_apply _ steps
  have hnew : Framing.Describes {} fresh.response.head := ⟨rfl, rfl, nofun⟩
  obtain ⟨hdescribes, hwire⟩ : f.Describes head ∧ sink.wire ++ head.encode <+: c.response.wire := by
    rcases framing_arrive hs rfl rfl hnew hsteps hh with ⟨hdescribes, hwire⟩
      | ⟨hcommitted, hending, g, hg, hframing⟩
    · obtain ⟨d, outcome, hd, hend⟩ := endsAs_apply (arrive ⟨fresh, none⟩ steps).1.context
        (arrive ⟨fresh, none⟩ steps).2
      have hdongoing := hongoing.of_continues hd.toContinues
      refine ⟨hdescribes, hwire.trans ?_⟩
      rw [hrun, hend, response_release hdongoing.isReleased]
      exact hd.toContinues.response.grows.trans (d.response.wire_prefix_close outcome.isSome)
    · obtain ⟨hdescribes, hwire⟩ :=
        describes_apply hongoing hsound hcommitted hg (size_arrive hsteps) hending
      have hengine : (arrive ⟨fresh, none⟩ steps).1.context.engine = engine :=
        harrive.response.engine
      have hstart : (arrive ⟨fresh, none⟩ steps).1.context.response.wire = sink.wire :=
        (harrive.response.wire hcommitted).2
      rw [harrive.requestedRange, hengine] at hdescribes
      rw [hstart, ← hrun] at hwire
      have hf : f = _ := hframing
      exact ⟨hf.symm ▸ hdescribes, hwire⟩
  have hspoken : f.isSilent = false := isSilent_framingSent _ engine {} steps
  refine ⟨hwire, hdescribes.length, hdescribes.chunked, ?_,
    hdescribes.announcesOneFraming_iff hspoken⟩
  rw [Framing.isSilent, Bool.and_eq_false_iff] at hspoken
  simpa using hspoken

/-- A stream is opened in chunks, a length is set behind that, and two bytes are written. -/
theorem length_behind_opened_stream :
    let router : Router := { config := .default ⟨"/tmp", 1⟩, worker := .sameThread 0 }
    let request : Request := { head := { method := .get, path := "/" }, input := none }
    let fresh : Context := .start .stream router (.ioThread 1 "io") request {} {}
    let steps :=
      [.act (.stream [] false), .act (.setLength 2), .act (.stream [.data [97, 98]] true)]
    let head : ResponseHead :=
      { headers := ⟨[("Transfer-Encoding", "chunked"), ("Content-Length", "2")]⟩ }
    let c := (serve .stream router (.ioThread 1 "io") request {} {} steps).2.context
    headSent? ⟨fresh, none⟩ steps = some head ∧ ¬ head.AnnouncesOneFraming
      ∧ c.response.wire = head.encode ++ Chunk.encode [97, 98] ++ Chunk.last := by
  intro router request fresh steps head c
  have hlength : head.headers.values "Content-Length" = ["2"] := by decide
  have hchunked : head.headers.values "Transfer-Encoding" = ["chunked"] := by decide
  refine ⟨by decide +kernel, ?_, by decide +kernel⟩
  unfold ResponseHead.AnnouncesOneFraming
  rw [hlength, hchunked]
  simp

/-- A length is set before a stream is opened, which then announces no chunks, and a part of a
source is sent. -/
theorem serve_announces_source :
    let router : Router := { config := .default ⟨"/tmp", 1⟩, worker := .sameThread 0 }
    let io : Executor := .ioThread 1 "io"
    let headers : HeaderFields := ⟨[("range", "bytes=1-2")]⟩
    let request : Request := { head := { method := .get, path := "/", headers }, input := none }
    let steps := [.act (.setHeader "X-Part" "1"), .act (.setLength 4), .act (.stream [] true),
      .dispatch none, .finish (.send (.source [.data [97, 98, 99], .data [100, 101]]))]
    let head : ResponseHead :=
      ⟨.partialContent, ⟨[("X-Part", "1"), ("Content-Length", "2"), ("Accept-Ranges", "bytes"),
        ("Content-Range", "bytes 1-2/4")]⟩⟩
    let f := framingSent (ByteRange.resolve (request.head.header? "Range")) .callback {} steps
    let c := (serve .callback router io request {} {} steps).2.context
    (∀ step ∈ steps, step.leavesFraming = true)
      ∧ headSent? ⟨.start .callback router io request {} {}, none⟩ steps = some head
      ∧ [] ++ head.encode <+: c.response.wire
      ∧ head.headers.values "Content-Length" = (f.length.map toString).toList
      ∧ head.headers.values "Transfer-Encoding" = (if f.isChunked then ["chunked"] else [])
      ∧ (f.length.isSome = true ∨ f.isChunked = true)
      ∧ (head.AnnouncesOneFraming ↔ ¬ (f.isChunked = true ∧ f.length.isSome = true)) := by
  intro router io headers request steps head f c
  have hsteps : ∀ step ∈ steps, step.leavesFraming = true := by decide +kernel
  have hh : headSent? ⟨.start .callback router io request {} {}, none⟩ steps = some head := by
    decide +kernel
  have hsound : Sink.IsSound {} := ⟨rfl, rfl, rfl, rfl⟩
  have hannounces := serve_announces .callback router io request hsound {} hsteps hh
  exact ⟨hsteps, hh, hannounces⟩

end Script

end HttpContext
