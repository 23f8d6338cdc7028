import HttpContext.Proofs.Framing
import HttpContext.Proofs.Refusal
/-!
A connection that dies only cuts off. Two runs of one script, one of them on a connection that takes
a number of bytes and no more, differ in nothing but their sinks until they end (`Context.on`), and
however differently they end, the dying connection has the front of what the other one got. Main
statement: `Script.serve_cuts_off`.
-/
namespace HttpContext

namespace Sink

/-- `s` refuses for good what goes beyond `total` bytes, and it has that much of what was given to
`t`, which takes everything. -/
structure CutsOff (total : Nat) (s t : Sink) : Prop where
  wire : s.wire = t.wire.take total
  refusals : s.refusals = []
  room : s.room = some (total - t.wire.length)
  flushes : s.Flushes
  isSound : t.IsSound

variable {total : Nat} {s t : Sink}

theorem CutsOff.of_matches (h : CutsOff total s t) {s' t' : Sink} (hs : s'.Matches s)
    (ht : t'.Matches t) (hsf : s'.Flushes) (htf : t'.Flushes) : CutsOff total s' t' where
  wire := by rw [hs.wire, ht.wire, h.wire]
  refusals := hs.refusals.trans h.refusals
  room := by rw [hs.room, ht.wire, h.room]
  flushes := hsf
  isSound := ⟨ht.refusals.trans h.isSound.refusals, ht.room.trans h.isSound.room, htf⟩

theorem refusals_write (h : s.refusals = []) (bytes : Bytes) : (s.write bytes).2.refusals = [] := by
  refine write_induction (P := fun t => t.refusals = []) (fun t b ht => ?_) h bytes
  unfold offer
  rw [ht, offerUpTo]
  split <;> exact ht

/-- A write leaves the front of what there is then, and if it fails the room is used up. -/
theorem CutsOff.write (h : CutsOff total s t) (bytes : Bytes) :
    CutsOff total (s.write bytes).2 (t.write bytes).2
      ∧ ((s.write bytes).1 = .ok () ∨ total ≤ (t.write bytes).2.wire.length) := by
  have hall : (t.write bytes).2 = t.accept bytes := congrArg Prod.snd (h.isSound.write bytes)
  have hlength : (t.accept bytes).wire.length = t.wire.length + bytes.length := by
    rw [wire_accept, List.length_append]
  have hfront : (t.accept bytes).wire.take total
      = s.wire ++ bytes.take (total - t.wire.length) := by
    rw [wire_accept, List.take_append, h.wire]
  have hcapacity : s.capacity = some (total - t.wire.length) := by
    rw [capacity, h.refusals, capacityOf, h.room]
  have hrefusals := refusals_write h.refusals bytes
  have hflushes := (s.flushesLike_write bytes).flushes h.flushes
  rw [hall]
  cases hr : s.hasRoom bytes.length with
  | true =>
    have hle : bytes.length ≤ total - t.wire.length := by simpa [hasRoom, hcapacity] using hr
    obtain ⟨u, hwrite, hleft, _⟩ := write_of_hasRoom hr
    rw [hwrite] at hrefusals hflushes ⊢
    refine ⟨⟨?_, hrefusals, ?_, hflushes, h.isSound.accept bytes⟩, .inl rfl⟩
    · rw [hfront, List.take_of_length_le hle, wire_write_ok hwrite]
    · have hroom : u.capacity = u.room := by rw [capacity, hrefusals, capacityOf]
      rw [hcapacity, hroom] at hleft
      obtain ⟨left, hsome, hsum⟩ := Option.map_eq_some_iff.1 hleft.symm
      rw [hsome, hlength, ← Nat.sub_sub, ← hsum, Nat.add_sub_cancel_left]
  | false =>
    -- the write is cut where the whole wire would be
    obtain ⟨room, fault, u, hleft, hlt, hwrite, hwire, hfresh⟩ := write_of_not_hasRoom hr
    obtain rfl : total - t.wire.length = room := Option.some.inj (hcapacity.symm.trans hleft)
    have hbroken : s.broken.room = some 0 := by rw [broken, h.refusals, brokenOf]
    rw [hwrite] at hrefusals hflushes ⊢
    refine ⟨⟨hwire.trans hfront.symm, hrefusals, ?_, hflushes, h.isSound.accept bytes⟩, .inr ?_⟩
    · have hnone : total - (t.accept bytes).wire.length = 0 := by omega
      rw [hnone, ← hbroken, ← hfresh, fresh]
    · omega

/-- Once the room is used up, it does not matter what either is given. -/
theorem CutsOff.wire_of_full (h : CutsOff total s t) (hfull : total ≤ t.wire.length)
    (first second : Bytes) : (s.write first).2.wire = (t.write second).2.wire.take total := by
  have hwrite : ∀ bytes, (t.write bytes).2.wire.take total = t.wire.take total := fun bytes => by
    rw [h.isSound.write, wire_accept, List.take_append_of_le_length hfull]
  rw [(h.write first).1.wire, hwrite, hwrite]

theorem CutsOff.writeEvery (h : CutsOff total s t) (writes : List Bytes) :
    CutsOff total (s.writeEvery writes) (t.writeEvery writes) := by
  induction writes generalizing s t with
  | nil => exact h
  | cons bytes rest ih => exact ih (h.write bytes).1

theorem cutsOff_start (s : Sink) (hr : s.refusals = []) (hf : s.Flushes) (n : Nat) :
    CutsOff (s.wire.length + n) { s with room := some n } { s with room := none } where
  wire := (List.take_of_length_le (Nat.le_add_right _ _)).symm
  refusals := hr
  room := congrArg some (Nat.add_sub_cancel_left _ _).symm
  flushes := ⟨hf.flushFaults, hf.flushFault⟩
  isSound := ⟨hr, rfl, hf.flushFaults, hf.flushFault⟩

end Sink

namespace Response

open Script (Item)

variable {total : Nat} {r : Response} {s t : Sink}

/-- The response on another connection. -/
def on (r : Response) (sink : Sink) : Response := { r with sink }

/-- After an operation, that is all that two responses differ in if it was so before; and the
operation had the same outcome, or the dying connection is full. -/
theorem Emits.cutsOff {bytes : Bytes} {own : Except Fault Unit} {committed : Bool}
    {out out' : Except Fault Unit × Response} (h : s.CutsOff total t)
    (hs : Emits (r.on s) bytes own committed out) (ht : Emits (r.on t) bytes own committed out') :
    out.2.sink.CutsOff total out'.2.sink ∧ out.2 = out'.2.on out.2.sink
      ∧ (out.1 = out'.1 ∨ total ≤ out'.2.wire.length) := by
  obtain ⟨hwrite, hfits⟩ := h.write bytes
  have hown : out'.1 = own := by
    have hresult := ht.result
    rw [show (r.on t).sink = t from rfl, h.isSound.write] at hresult
    exact hresult
  have hmatches := hwrite.of_matches hs.sink ht.sink (hs.flushes h.flushes)
    (ht.flushes h.isSound.flushes)
  refine ⟨hmatches, ?_, ?_⟩
  · rw [ht.rest]
    exact hs.rest
  · refine hfits.imp (fun hr => ?_) (fun hfull => ?_)
    · have hresult := hs.result
      rw [show (r.on s).sink = s from rfl, hr] at hresult
      rw [hown]
      exact hresult
    · rw [wire, ht.sink.wire]
      exact hfull

theorem cutsOff_writeItems (h : s.CutsOff total t) (ho : r.isClosed = false)
    (hb : r.isBlocking = true) (whole : Bool) (items : List Item) :
    let left := (Script.writeItems whole items (r.on s)).2
    let right := (Script.writeItems whole items (r.on t)).2
    left.sink.CutsOff total right.sink ∧ left = right.on left.sink := by
  intro left right
  obtain ⟨hs, hleft⟩ := writeItems_outputs (r := r.on s) ho hb whole items
  obtain ⟨ht, hright⟩ := writeItems_outputs (r := r.on t) ho hb whole items
  have hsf := (Script.continues_writeItems whole items (r.on s)).flushes h.flushes
  have htf := (Script.continues_writeItems whole items (r.on t)).flushes h.isSound.flushes
  refine ⟨(h.writeEvery _).of_matches hs ht hsf htf, ?_⟩
  have hrest : right.on left.sink = { r with
      sink := left.sink, isCommitted := r.isCommitted || items.any Item.starts } :=
    congrArg (·.on left.sink) hright
  rw [hrest]
  exact hleft

/-- What the last work on a response gives to a connection does not depend on the connection. -/
theorem emits_work (ho : r.isClosed = false) (size : Nat) (work : Work) :
    ∃ bytes own committed, ∀ sink : Sink, sink.Flushes →
      Emits (r.on sink) bytes own committed (work.write size (r.on sink)) := by
  have hflush : ∀ {sink : Sink}, sink.Flushes → sink.flush.1 = .ok () := fun hf =>
    congrArg Prod.fst (Sink.flush_of_flushes hf)
  cases work with
  | leave outcome =>
    cases outcome with
    | none => exact ⟨_, _, _, fun sink _ => emits_nil (r.on sink) (.ok ())⟩
    | some cause => exact ⟨_, _, _, fun sink _ => emits_nil (r.on sink) (.error cause)⟩
  | put data =>
    refine ⟨r.lead ++ frame r.head data, .ok (), true, fun sink hf => ?_⟩
    have hsend := emits_send (r := r.on sink) ho data
    rw [show (r.on sink).sink = sink from rfl, hflush hf] at hsend
    exact hsend
  | copy source =>
    let given := source.buffers size
    refine ⟨if given.1.isEmpty then [] else r.lead ++ given.1.flatMap (frame r.head),
      given.2.bind fun _ => .ok (), r.isCommitted || !given.1.isEmpty, fun sink hf => ?_⟩
    have hcopy := emits_writeFrom (r := r.on sink) ho size source
    simp only [show (r.on sink).sink = sink from rfl, hflush hf] at hcopy
    exact hcopy

/-- Nor does what is given to it by a close. -/
theorem close_on (ho : r.isClosed = false) (aborted : Bool) :
    ∃ bytes, ∀ sink, ((r.on sink).close aborted).2.sink.Matches (sink.write bytes).2 := by
  cases aborted with
  | true => exact ⟨[], fun sink => (emits_close_aborted (r := r.on sink) ho).sink⟩
  | false =>
    let settled :=
      if r.isCommitted || r.head.contentLength.isSome || r.head.isChunked then r.head
      else r.head.setContentLength 0
    exact ⟨closingBytes settled r.isCommitted, fun sink => (close_outputs (r := r.on sink) ho).1⟩

/-- A response is ended by its last work and a close. On the dying connection the front of what the
other one has is left. -/
theorem wire_of_ending (h : s.CutsOff total t) (ho : r.isClosed = false) (size : Nat)
    (work : Work) :
    let out := work.write size (r.on s)
    let out' := work.write size (r.on t)
    (out.2.close (failure? out.1).isSome).2.wire
      = (out'.2.close (failure? out'.1).isSome).2.wire.take total := by
  intro out out'
  obtain ⟨bytes, own, committed, hemits⟩ := emits_work ho size work
  have ht : Emits (r.on t) bytes own committed out' := hemits t h.isSound.flushes
  obtain ⟨hcut, hsame, houtcome⟩ := (hemits s h.flushes).cutsOff h ht
  have hopen : out'.2.isClosed = false := (congrArg isClosed ht.rest).trans ho
  have hclosed : ∀ aborted, ∃ bytes, (out.2.close aborted).2.wire = (out.2.sink.write bytes).2.wire
      ∧ (out'.2.close aborted).2.wire = (out'.2.sink.write bytes).2.wire := by
    intro aborted
    obtain ⟨bytes, hclose⟩ := close_on hopen aborted
    rw [hsame]
    exact ⟨bytes, (hclose out.2.sink).wire, (hclose out'.2.sink).wire⟩
  obtain ⟨first, hfirst, hfirst'⟩ := hclosed (failure? out.1).isSome
  obtain ⟨second, _, hsecond⟩ := hclosed (failure? out'.1).isSome
  -- with one outcome both close alike, and otherwise the room is used up
  rcases houtcome with heq | hfull
  · rw [hfirst, ← heq, hfirst']
    exact (hcut.write first).1.wire
  · rw [hfirst, hsecond]
    exact hcut.wire_of_full hfull first second

end Response

namespace Context

/-- The context with its response on another connection. -/
def on (c : Context) (sink : Sink) : Context := { c with response := c.response.on sink }

variable (c : Context) (s : Sink)

/-! ### What does not depend on the connection -/

theorem multipart_on : (c.on s).multipart = (c.multipart.1, c.multipart.2.on s) := by
  cases hm : c.multipartMemo.value with
  | some form =>
    have hq : c.query.2.multipartMemo.value = some form := hm
    have hq' : (c.on s).query.2.multipartMemo.value = some form := hm
    simp only [multipart, Memo.getOrTry, hq, hq']
    rfl
  | none =>
    have hq : c.query.2.multipartMemo.value = none := hm
    have hq' : (c.on s).query.2.multipartMemo.value = none := hm
    rcases hf : c.request.formEntries (some c.limits) c.spool with ⟨_ | entries, request, spool⟩
    all_goals
      have hf' : (c.on s).request.formEntries (some (c.on s).limits) (c.on s).spool = _ := hf
      simp only [multipart, Memo.getOrTry, hq, hq', readForm_query hf, readForm_query hf',
        Except.map]
      rfl

theorem form_on : (c.on s).form = (c.form.1, c.form.2.on s) := by
  cases hkind : FormKind.multipart.announcedBy c.request.head.contentType with
  | true =>
    have hkind' : FormKind.multipart.announcedBy (c.on s).request.head.contentType = true := hkind
    simp only [form, hkind, hkind', ↓reduceIte, multipart_on]
  | false =>
    have hkind' : FormKind.multipart.announcedBy (c.on s).request.head.contentType = false := hkind
    cases hm : c.formMemo.value with
    | some fields =>
      have hq : c.query.2.formMemo.value = some fields := hm
      have hq' : (c.on s).query.2.formMemo.value = some fields := hm
      simp only [form, hkind, hkind', Memo.getOrTry, hq, hq', Bool.false_eq_true, ↓reduceIte]
      rfl
    | none =>
      have hq : c.query.2.formMemo.value = none := hm
      have hq' : (c.on s).query.2.formMemo.value = none := hm
      rcases hf : c.request.formEntries (some c.limits) c.spool with ⟨_ | entries, request, spool⟩
      all_goals
        have hf' : (c.on s).request.formEntries (some (c.on s).limits) (c.on s).spool = _ := hf
        simp only [form, hkind, hkind', Memo.getOrTry, hq, hq', readForm_query hf,
          readForm_query hf', Except.map, Bool.false_eq_true, ↓reduceIte]
        rfl

theorem defaultType_on (type : MediaType) :
    (c.on s).defaultType type = (c.defaultType type).on s := by
  unfold defaultType
  rw [apply_ite (fun d : Context => d.on s)]
  rfl

theorem markAsync_on : (c.on s).markAsync = c.markAsync.on s := by
  unfold markAsync
  rw [apply_ite (fun d : Context => d.on s)]
  rfl

theorem announceRange_on (range : ByteRange) :
    (c.on s).announceRange range = (c.announceRange range).on s := by
  unfold announceRange
  rw [apply_ite (fun d : Context => d.on s)]
  rfl

theorem passTo_on (executor : Executor) :
    (c.on s).passTo executor = ((c.passTo executor).1, (c.passTo executor).2.on s) := by
  cases hw : c.worker.same executor with
  | true =>
    have hw' : (c.on s).worker.same executor = true := hw
    simp only [passTo, hw, hw', ↓reduceIte]
  | false =>
    have hw' : (c.on s).worker.same executor = false := hw
    simp only [passTo, hw, hw', Bool.false_eq_true, ↓reduceIte, markAsync_on]
    rfl

theorem openSender_on : (c.on s).openSender = c.openSender.on s := by
  cases he : c.engine with
  | stream =>
    have he' : (c.on s).engine = .stream := he
    simp only [openSender, he, he']
    exact markAsync_on { c with response := c.response.setChunkedWithoutLength } s
  | callback =>
    have he' : (c.on s).engine = .callback := he
    simp only [openSender, he, he']

theorem prepare_on (what : Sending) :
    (c.on s).prepare what = ((c.prepare what).1.on s, (c.prepare what).2) := by
  cases what with
  | empty status => rfl
  | bytes data => rfl
  | file file =>
    have hrange := (c.withLength file.length).announceRange_on s
    cases hf : file.metadataFault with
    | some cause => simp only [prepare, hf]
    | none =>
      simp only [prepare, hf]
      exact congrArg (·, _) (hrange _)
  | source source =>
    have hlength : (c.on s).response.head.contentLength = c.response.head.contentLength := rfl
    have hrange : ∀ n, (c.on s).requestedRange n = c.requestedRange n := fun _ => rfl
    rcases hl : c.response.head.contentLength with _ | _ | length <;>
      simp only [prepare, hlength, hl, hrange, announceRange_on]
    · rfl
    · rfl

end Context

namespace Script

/-- The handler with its response on another connection. -/
def Handler.on (h : Handler) (sink : Sink) : Handler := { h with context := h.context.on sink }

/-- The action writes to the response. -/
def Action.writes : Action → Bool
  | stream _ _ | writer _ _ _ _ => true
  | _ => false

theorem act_on (h : Handler) {action : Action} (ha : action.writes = false) (s : Sink) :
    act (h.on s) action = ((act h action).1, (act h action).2.on s) := by
  cases action
  case stream => cases ha
  case writer => cases ha
  case form => simp only [act, Handler.on, Context.form_on]; rfl
  case multipart => simp only [act, Handler.on, Context.multipart_on]; rfl
  case defaultType type => simp only [act, Handler.on, Context.defaultType_on]; rfl
  -- an attribute is looked up and an upload is found whatever the connection is
  all_goals first
    | rfl
    | simp only [act, Handler.on, Context.on, Handler.kept?]
      split <;> rfl

theorem dispatch_on (h : Handler) (executor : Option Executor) (s : Sink) :
    dispatch (h.on s) executor = ((dispatch h executor).1, (dispatch h executor).2.on s) := by
  cases executor with
  | some executor =>
    simp only [dispatch, Handler.on, Context.passTo_on]
    rfl
  | none =>
    have hpass := h.context.passTo_on s h.context.router.worker
    have hdispatch : (h.context.on s).dispatch
        = (h.context.dispatch.1, h.context.dispatch.2.on s) := hpass
    simp only [dispatch, Handler.on, hdispatch]
    rfl

theorem detach_on (h : Handler) (s : Sink) :
    detach (h.on s) = ((detach h).1, (detach h).2.on s) := by
  simp only [detach, Context.detach, Handler.on, Context.markAsync_on]
  rfl

variable {total : Nat} {s t : Sink}

/-- Items are written on two connections, of which one cuts off what the other has. -/
theorem cutsOff_writeOut {c : Context} (ho : c.response.isClosed = false)
    (hb : c.response.isBlocking = true) (hcut : s.CutsOff total t) (items : List Item)
    (whole : Bool) :
    ∃ (d : Context) (s' t' : Sink), s'.CutsOff total t' ∧ d.response.isClosed = false
      ∧ (writeOut (c.on s) items whole).2 = d.on s'
      ∧ (writeOut (c.on t) items whole).2 = d.on t' := by
  let right := (writeItems whole items (c.response.on t)).2
  obtain ⟨hsinks, hsame⟩ := Response.cutsOff_writeItems hcut ho hb whole items
  have hopen : right.isClosed = false :=
    (continues_writeItems whole items (c.response.on t)).isClosed.trans ho
  refine ⟨{ c with response := right }, _, right.sink, hsinks, hopen, ?_, rfl⟩
  exact congrArg (fun response => { c with response }) hsame

/-- One step keeps two handlers apart by their connections alone. -/
theorem cutsOff_act {h : Handler} (ho : h.context.response.isClosed = false)
    (hcut : s.CutsOff total t) (action : Action) :
    ∃ (g : Handler) (s' t' : Sink), s'.CutsOff total t' ∧ g.context.response.isClosed = false
      ∧ (act (h.on s) action).2 = g.on s' ∧ (act (h.on t) action).2 = g.on t' := by
  cases hw : action.writes with
  | false =>
    have hopen := (continues_act h action).response.isClosed.trans ho
    exact ⟨(act h action).2, s, t, hcut, hopen, congrArg Prod.snd (act_on h hw s),
      congrArg Prod.snd (act_on h hw t)⟩
  | true =>
    -- a stream and a writer differ only in how they open the response
    have hwritten : ∀ {c : Context}, c.response.isClosed = false → c.response.isBlocking = true →
        ∀ (items : List Item) (whole : Bool), ∃ (g : Handler) (s' t' : Sink), s'.CutsOff total t'
          ∧ g.context.response.isClosed = false
          ∧ { h with context := (writeOut (c.on s) items whole).2 } = g.on s'
          ∧ { h with context := (writeOut (c.on t) items whole).2 } = g.on t' := by
      intro c hc hb items whole
      obtain ⟨d, s', t', hsinks, hopen, hs, ht⟩ := cutsOff_writeOut hc hb hcut items whole
      exact ⟨{ h with context := d }, s', t', hsinks, hopen, by rw [hs]; rfl, by rw [ht]; rfl⟩
    cases action
    case stream items whole => exact hwritten (c := h.context.openStream) ho rfl items whole
    case writer type charset items whole =>
      exact hwritten (c := h.context.openWriter type charset) ho rfl items whole
    all_goals cases hw

/-- The handlers arrive at the same ending. -/
theorem cutsOff_arrive {h : Handler} (ho : h.context.response.isClosed = false)
    (hcut : s.CutsOff total t) (steps : List Step) :
    ∃ (g : Handler) (ending : Ending) (s' t' : Sink), s'.CutsOff total t'
      ∧ g.context.response.isClosed = false
      ∧ arrive (h.on s) steps = (g.on s', ending) ∧ arrive (h.on t) steps = (g.on t', ending) := by
  -- the sinks drift apart at each step that writes, the handler stays the same
  induction steps generalizing h s t with
  | nil => exact ⟨h, .drop, s, t, hcut, ho, rfl, rfl⟩
  | cons step rest ih =>
    cases step with
    | finish ending => exact ⟨h, ending, s, t, hcut, ho, rfl, rfl⟩
    | act action =>
      obtain ⟨g, s', t', hcut', ho', hs, ht⟩ := cutsOff_act ho hcut action
      simp only [arrive, hs, ht]
      exact ih ho' hcut'
    | dispatch executor =>
      have ho' : (dispatch h executor).2.context.response.isClosed = false :=
        (continues_dispatch h executor).response.isClosed.trans ho
      simp only [arrive, dispatch_on]
      exact ih ho' hcut
    | detach =>
      have ho' : (detach h).2.context.response.isClosed = false :=
        (continues_detach h).response.isClosed.trans ho
      simp only [arrive, detach_on]
      exact ih ho' hcut

/-- What an ending prepares does not depend on the connection. -/
theorem prepare_ending_on (c : Context) (ending : Ending) (s : Sink) :
    ending.prepare (c.on s) = ((ending.prepare c).1.on s, (ending.prepare c).2) := by
  cases ending with
  | send what => exact c.prepare_on s what
  | sender what =>
    cases what with
    | none => simp only [Ending.prepare, Context.openSender_on]
    | some what => simp only [Ending.prepare, Context.openSender_on, Context.prepare_on]
  | drop => rfl
  | abort cause => rfl

/-- An ending does the last work on the response and closes it. -/
theorem wire_apply_on {c : Context} (hr : c.isReleased = false) (hf : s.Flushes)
    (ending : Ending) :
    let b := (ending.prepare c).1
    let out := (ending.prepare c).2.write (max c.router.config.bufferSize 1) (b.response.on s)
    (ending.apply (c.on s)).response.wire = (out.2.close (failure? out.1).isSome).2.wire := by
  intro b out
  have hflushes : (c.on s).response.sink.Flushes := hf
  obtain ⟨hcontinues, hend⟩ := apply_eq_release hflushes ending
  rw [hend, Context.response_release (hcontinues.isReleased.trans hr)]
  simp only [prepare_ending_on]
  rfl

/-- A dying connection only cuts off. Whatever a handler does on either engine, if the connection
takes `n` more bytes and then refuses all others, these are the first `n` bytes of what a connection
without a bound is given. -/
theorem serve_cuts_off (engine : Engine) (router : Router) (io : Executor) (request : Request)
    (spool : Spool) (steps : List Step) {sink : Sink} (hr : sink.refusals = [])
    (hf : sink.Flushes) (n : Nat) :
    let wire := fun room =>
      (serve engine router io request { sink with room } spool steps).2.context.response.wire
    wire (some n) = (wire none).take (sink.wire.length + n) := by
  intro wire
  let fresh : Handler := ⟨.start engine router io request sink spool, none⟩
  obtain ⟨g, ending, s, t, hcut, hopen, hs, ht⟩ :=
    cutsOff_arrive (h := fresh) rfl (sink.cutsOff_start hr hf n) steps
  have harrive : ∀ room,
      arrive ⟨.start engine router io request { sink with room } spool, none⟩ steps
        = arrive (fresh.on { sink with room }) steps := fun _ => rfl
  have hreleased : g.context.isReleased = false := by
    have hleft := (ongoing_arrive engine router io request { sink with room := none } spool
      steps).isReleased
    rwa [harrive, ht] at hleft
  have hwire : ∀ room, wire room = ((arrive (fresh.on { sink with room }) steps).2.apply
      (arrive (fresh.on { sink with room }) steps).1.context).response.wire := fun room =>
    congrArg (·.response.wire) (run_eq_apply (fresh.on { sink with room }) steps)
  -- the ending is prepared on both connections alike
  have hprepared : (ending.prepare g.context).1.response.isClosed = false :=
    (prepares_ending g.context ending).response.isClosed.trans hopen
  rw [hwire, hwire, hs, ht]
  calc (ending.apply (g.context.on s)).response.wire = _ :=
        wire_apply_on hreleased hcut.flushes ending
    _ = _ := Response.wire_of_ending hcut hprepared _ _
    _ = (ending.apply (g.context.on t)).response.wire.take _ := by
        rw [wire_apply_on hreleased hcut.isSound.flushes ending]

/-- The connection dies inside the second chunk, two bytes into what the sender is given. -/
theorem serve_cuts_off_in_chunk :
    let router : Router := { config := .default ⟨"/tmp", 1⟩, worker := .sameThread 0 }
    let request : Request := { head := { method := .get, path := "/" }, input := none }
    let sink : Sink := { refusal := .fault (.system .brokenPipe) }
    let steps : List Step := [.act (.stream [.data [97, 98], .flush] false),
      .finish (.sender (some (.source [.data [99, 100, 101, 102], .data [103]])))]
    let wire := fun room => (serve .callback router (.ioThread 1 "io") request { sink with room } {}
      steps).2.context.response.wire
    sink.refusals = [] ∧ sink.Flushes
      ∧ wire (some 59) = (wire none).take (sink.wire.length + 59) := by
  intro router request sink steps wire
  have hflushes : sink.Flushes := ⟨rfl, rfl⟩
  exact ⟨rfl, hflushes,
    serve_cuts_off .callback router (.ioThread 1 "io") request {} steps rfl hflushes 59⟩

end Script

end HttpContext
