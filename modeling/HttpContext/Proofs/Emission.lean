import HttpContext.Proofs.Transcript
/-!
Whatever a response writes in one operation, its sink could have been given in one write: after a
refusal the rest of the operation is not tried. So what an operation comes to, on any sink, is
known by its bytes (`Response.Emits`).
-/
namespace HttpContext

namespace Sink

/-- The sinks have accepted the same bytes, and no later write tells them apart. -/
structure Matches (s t : Sink) : Prop where
  wire : s.wire = t.wire
  refusals : s.refusals = t.refusals
  room : s.room = t.room
  refusal : s.refusal = t.refusal

variable {s t u : Sink}

theorem Matches.refl (s : Sink) : Matches s s := ⟨rfl, rfl, rfl, rfl⟩

theorem Matches.symm (h : Matches s t) : Matches t s :=
  ⟨h.wire.symm, h.refusals.symm, h.room.symm, h.refusal.symm⟩

theorem Matches.trans (hst : Matches s t) (htu : Matches t u) : Matches s u :=
  ⟨hst.wire.trans htu.wire, hst.refusals.trans htu.refusals, hst.room.trans htu.room,
    hst.refusal.trans htu.refusal⟩

theorem matches_flush (s : Sink) : Matches s.flush.2 s := by
  obtain ⟨_, h⟩ | ⟨_, _, h⟩ := s.flush_cases <;> rw [h] <;> exact ⟨rfl, rfl, rfl, rfl⟩

/-- `s` has what `t` has behind these bytes, and no later write tells them apart. -/
structure Tracks (front : Bytes) (s t : Sink) : Prop where
  wire : s.wire = front ++ t.wire
  refusals : s.refusals = t.refusals
  room : s.room = t.room
  refusal : s.refusal = t.refusal

variable {front : Bytes}

theorem Tracks.accept (h : Tracks front s t) (bytes : Bytes) :
    (s.accept bytes).wire = front ++ (t.accept bytes).wire := by
  rw [wire_accept, wire_accept, h.wire, List.append_assoc]

theorem Tracks.offerUpTo (h : Tracks front s t) (b : UInt8) (refusals : List (Nat × Refusal)) :
    (offerUpTo b refusals s).1 = (offerUpTo b refusals t).1
      ∧ Tracks front (offerUpTo b refusals s).2 (offerUpTo b refusals t).2 := by
  fun_induction Sink.offerUpTo b refusals s generalizing t with
  | case1 s hroom =>
    simp only [Sink.offerUpTo, ← h.room, hroom]
    exact ⟨trivial, h.accept [b], h.refusals, h.room, h.refusal⟩
  | case2 s n hroom =>
    simp only [Sink.offerUpTo, ← h.room, hroom]
    exact ⟨trivial, h.accept [b], h.refusals, rfl, h.refusal⟩
  | case3 s hroom =>
    simp only [Sink.offerUpTo, ← h.room, hroom, h.refusal]
    exact ⟨trivial, h.wire, h.refusals, h.room, h.refusal⟩
  | case4 n refusal rest s => exact ⟨rfl, h.accept [b], rfl, h.room, h.refusal⟩
  | case5 refusal rest s hi ih =>
    simp only [Sink.offerUpTo, hi, ↓reduceIte]
    exact ih ⟨h.wire, rfl, h.room, h.refusal⟩
  | case6 refusal rest s hi =>
    simp only [Sink.offerUpTo, hi, Bool.false_eq_true, ↓reduceIte]
    exact ⟨trivial, h.wire, rfl, h.room, h.refusal⟩

theorem Tracks.offer (h : Tracks front s t) (b : UInt8) :
    (s.offer b).1 = (t.offer b).1 ∧ Tracks front (s.offer b).2 (t.offer b).2 := by
  unfold Sink.offer
  rw [h.refusals]
  exact h.offerUpTo b t.refusals

theorem Tracks.write (h : Tracks front s t) (bytes : Bytes) :
    (s.write bytes).1 = (t.write bytes).1 ∧ Tracks front (s.write bytes).2 (t.write bytes).2 := by
  induction bytes generalizing s t with
  | nil =>
    rw [write_nil, write_nil]
    exact ⟨rfl, h⟩
  | cons b bs ih =>
    obtain ⟨hresult, htracks⟩ := h.offer b
    unfold Sink.write
    generalize s.offer b = out at hresult htracks
    generalize t.offer b = out' at hresult htracks
    obtain ⟨result, s⟩ := out
    obtain ⟨result', t⟩ := out'
    obtain rfl : result = result' := hresult
    cases result with
    | ok => exact ih htracks
    | error fault => exact ⟨rfl, htracks⟩

theorem Matches.write (h : Matches s t) (bytes : Bytes) :
    (s.write bytes).1 = (t.write bytes).1 ∧ Matches (s.write bytes).2 (t.write bytes).2 := by
  have htracks : Tracks [] s t := ⟨h.wire, h.refusals, h.room, h.refusal⟩
  obtain ⟨hresult, hwrite⟩ := htracks.write bytes
  exact ⟨hresult, hwrite.wire, hwrite.refusals, hwrite.room, hwrite.refusal⟩

/-! ### Two writes as one -/

theorem write_append_of_ok {first : Bytes} (h : s.write first = (.ok (), t)) (second : Bytes) :
    s.write (first ++ second) = t.write second := by
  fun_induction write s first with
  | case1 s => cases h; rfl
  | case2 s b bs u ho ih =>
    rw [List.cons_append, write, ho]
    exact ih h
  | case3 => cases h

/-- Behind a byte that is refused nothing is tried. -/
theorem write_append_of_error {first : Bytes} {fault : Fault}
    (h : s.write first = (.error fault, t)) (second : Bytes) :
    s.write (first ++ second) = (.error fault, t) := by
  fun_induction write s first with
  | case1 => cases h
  | case2 s b bs u ho ih =>
    rw [List.cons_append, write, ho]
    exact ih h
  | case3 s b bs fault' u ho =>
    rw [List.cons_append, write, ho]
    exact h

/-! ### Where a sink refuses -/

def capacityOf : List (Nat × Refusal) → Option Nat → Option Nat
  | [], room => room
  | (n, refusal) :: rest, room =>
    if refusal.cause.isInterrupted then (capacityOf rest room).map (n + ·) else some n

/-- How many bytes a sink takes before a write to it fails. An interruption does not count. -/
def capacity (s : Sink) : Option Nat := capacityOf s.refusals s.room

/-- A sink that will do the same to what is written, with nothing on it. -/
def fresh (s : Sink) : Sink := { refusals := s.refusals, room := s.room, refusal := s.refusal }

def brokenOf (room : Option Nat) (last : Refusal) : List (Nat × Refusal) → Sink
  | [] => { room := some 0, refusal := last }
  | (_, refusal) :: rest =>
    if refusal.cause.isInterrupted then brokenOf room last rest
    else { refusals := rest, room, refusal := last }

/-- What a sink is behind its first refusal, with nothing on it. -/
def broken (s : Sink) : Sink := brokenOf s.room s.refusal s.refusals

/-- A sink takes the next byte and has that much less room, or it refuses it and is broken. -/
inductive Offered (s : Sink) : Except Fault Unit × Sink → Prop
  | taken {t : Sink} (capacity : s.capacity = t.capacity.map (· + 1)) (broken : t.broken = s.broken) :
      Offered s (.ok (), t)
  | refused {t : Sink} {fault : Fault} (capacity : s.capacity = some 0)
      (broken : t.fresh = s.broken) : Offered s (.error fault, t)

theorem offered_offerUpTo (b : UInt8) (refusals : List (Nat × Refusal)) (hs : s.refusals = refusals) :
    Offered s (offerUpTo b refusals s) := by
  fun_induction offerUpTo b refusals s with
  | case1 s hroom =>
    have hcapacity : s.capacity = none := by rw [capacity, hs, capacityOf, hroom]
    have htaken : (s.accept [b]).capacity = none := hcapacity
    refine .taken ?_ rfl
    rw [hcapacity, htaken]
    rfl
  | case2 s n hroom =>
    refine .taken ?_ ?_
    · simp only [capacity, accept, hs, capacityOf, hroom, Option.map_some]
    · simp only [broken, accept, hs, brokenOf]
  | case3 s hroom =>
    refine .refused ?_ ?_
    · rw [capacity, hs, capacityOf, hroom]
    · simp only [broken, fresh, fail, hs, brokenOf, hroom]
  | case4 n refusal rest s =>
    refine .taken ?_ ?_
    · simp only [capacity, accept, hs, capacityOf]
      split
      · rw [Option.map_map]
        refine congrArg (fun f => Option.map f _) (funext fun m => ?_)
        simp only [Function.comp]
        omega
      · rfl
    · simp only [broken, accept, hs, brokenOf]
  | case5 refusal rest s hi ih =>
    -- an interruption that comes next is met by no byte
    have hagain := ih rfl
    generalize offerUpTo b rest _ = out at hagain
    have hcapacity : s.capacity = capacityOf rest s.room := by
      simp only [capacity, hs, capacityOf, hi, ↓reduceIte, Nat.zero_add, Option.map_id']
    have hbroken : s.broken = brokenOf s.room s.refusal rest := by
      simp only [broken, hs, brokenOf, hi, ↓reduceIte]
    cases hagain with
    | taken capacity broken => exact .taken (hcapacity.trans capacity) (broken.trans hbroken.symm)
    | refused capacity broken =>
      exact .refused (hcapacity.trans capacity) (broken.trans hbroken.symm)
  | case6 refusal rest s hi =>
    refine .refused ?_ ?_
    · simp only [capacity, hs, capacityOf, hi, Bool.false_eq_true, ↓reduceIte]
    · simp only [broken, hs, brokenOf, hi, Bool.false_eq_true, ↓reduceIte]
      rfl

theorem offered (s : Sink) (b : UInt8) : Offered s (s.offer b) := offered_offerUpTo b s.refusals rfl

/-- The sink takes this many bytes before a write to it fails. -/
def hasRoom (s : Sink) (n : Nat) : Bool :=
  match s.capacity with
  | none => true
  | some room => n ≤ room

/-- What finds room goes out and leaves so much less room. -/
theorem write_of_hasRoom {bytes : Bytes} (h : s.hasRoom bytes.length = true) :
    ∃ t, s.write bytes = (.ok (), t) ∧ s.capacity = t.capacity.map (bytes.length + ·)
      ∧ t.broken = s.broken := by
  induction bytes generalizing s with
  | nil => exact ⟨s, write_nil s, by simp, rfl⟩
  | cons b bs ih =>
    have hoffer := s.offered b
    rcases ho : s.offer b with ⟨fault | _, t⟩
    · rw [ho] at hoffer
      cases hoffer with
      | refused capacity => simp [hasRoom, capacity] at h
    · rw [ho] at hoffer
      cases hoffer with
      | taken hcapacity hbroken =>
        have hroom : t.hasRoom bs.length = true := by
          unfold hasRoom at h ⊢
          rw [hcapacity] at h
          cases hc : t.capacity with
          | none => rfl
          | some room => simpa [hc] using h
        obtain ⟨u, hu, hleft, hlast⟩ := ih hroom
        refine ⟨u, ?_, ?_, hlast.trans hbroken⟩
        · rw [write, ho]
          exact hu
        · rw [hcapacity, hleft, Option.map_map]
          refine congrArg (fun f => Option.map f _) (funext fun m => ?_)
          simp only [Function.comp, List.length_cons]
          omega

/-- What finds no room is cut off, and the sink is broken. -/
theorem write_of_not_hasRoom {bytes : Bytes} (h : s.hasRoom bytes.length = false) :
    ∃ room fault t, s.capacity = some room ∧ room < bytes.length ∧ s.write bytes = (.error fault, t)
      ∧ t.wire = s.wire ++ bytes.take room ∧ t.fresh = s.broken := by
  obtain ⟨room, hroom, hlt⟩ : ∃ room, s.capacity = some room ∧ room < bytes.length := by
    unfold hasRoom at h
    split at h
    · cases h
    · rename_i room hroom
      exact ⟨room, hroom, by simpa using h⟩
  -- what the sink still takes goes out, and the next byte is refused
  obtain ⟨b, rest, hdrop⟩ :=
    List.exists_cons_of_ne_nil (mt List.drop_eq_nil_iff.1 (Nat.not_le_of_lt hlt))
  have hsplit : bytes = bytes.take room ++ b :: rest := by rw [← hdrop, List.take_append_drop]
  have hlength : (bytes.take room).length = room := List.length_take_of_le (Nat.le_of_lt hlt)
  have hfits : s.hasRoom (bytes.take room).length = true := by
    rw [hlength, hasRoom, hroom]
    exact decide_eq_true (Nat.le_refl room)
  obtain ⟨t, hwrite, hcapacity, hbroken⟩ := write_of_hasRoom hfits
  have hfull : t.capacity = some 0 := by
    rw [hroom, hlength] at hcapacity
    obtain ⟨left, hleft, hsum⟩ := Option.map_eq_some_iff.1 hcapacity.symm
    obtain rfl : left = 0 := by omega
    exact hleft
  have hoffer := t.offered b
  rcases ho : t.offer b with ⟨fault | _, u⟩
  · rw [ho] at hoffer
    cases hoffer with
    | refused _ hfresh =>
      have hstops : t.write (b :: rest) = (.error fault, u) := by rw [write, ho]
      refine ⟨room, fault, u, hroom, hlt, ?_, ?_, hfresh.trans hbroken⟩
      · rw [hsplit, write_append_of_ok hwrite]
        exact hstops
      · rw [(wire_offer_error ho).1, wire_write_ok hwrite]
  · rw [ho] at hoffer
    cases hoffer with
    | taken capacity =>
      rw [hfull] at capacity
      obtain ⟨_, _, hsum⟩ := Option.map_eq_some_iff.1 capacity.symm
      cases hsum

end Sink

namespace Response

variable {r : Response}

/-- What the next write puts in front of its bytes: the head, unless that counts as sent. -/
def lead (r : Response) : Bytes := if r.isCommitted then [] else r.head.encode

/-- The operation gives these bytes to the sink. If they are taken it has an outcome of its own.
Either way the response stays as it was, but for the sink and for the head counting as sent. -/
structure Emits (r : Response) (bytes : Bytes) (own : Except Fault Unit) (committed : Bool)
    (out : Except Fault Unit × Response) : Prop where
  sink : out.2.sink.Matches (r.sink.write bytes).2
  rest : out.2 = { r with sink := out.2.sink, isCommitted := committed }
  result : out.1 = (r.sink.write bytes).1.bind fun _ => own
  flushes : r.sink.Flushes → out.2.sink.Flushes

variable {first second : Bytes} {own : Except Fault Unit} {committed : Bool}
  {out : Except Fault Unit × Response}

/-- It gives them without a flush. -/
structure Writes (r : Response) (bytes : Bytes) (committed : Bool)
    (out : Except Fault Unit × Response) : Prop extends Emits r bytes (.ok ()) committed out where
  flushesLike : out.2.sink.FlushesLike r.sink

theorem emits_nil (r : Response) (own : Except Fault Unit) :
    Emits r [] own r.isCommitted (own, r) := by
  have hnil : r.sink.write [] = (.ok (), r.sink) := Sink.write_nil r.sink
  refine ⟨?_, rfl, ?_, id⟩
  · rw [hnil]
    exact .refl _
  · rw [hnil]
    rfl

theorem writes_nil (r : Response) : Writes r [] r.isCommitted (.ok (), r) :=
  ⟨emits_nil r (.ok ()), rfl, rfl⟩

theorem writes_put (r : Response) (bytes : Bytes) :
    Writes r bytes r.isCommitted (r.put bytes) := by
  have hlike := r.sink.flushesLike_write bytes
  refine ⟨⟨.refl _, rfl, ?_, hlike.flushes⟩, hlike⟩
  show (r.sink.write bytes).1 = _
  cases (r.sink.write bytes).1 <;> rfl

theorem emits_flushSink (r : Response) : Emits r [] r.sink.flush.1 r.isCommitted r.flushSink := by
  have hnil := emits_nil r r.sink.flush.1
  exact ⟨r.sink.matches_flush.trans hnil.sink, rfl, hnil.result, Sink.flushes_flush⟩

/-- Two operations in a row give their bytes as one. -/
theorem Writes.andThen {next : Response → Except Fault Unit × Response}
    (h : Writes r first committed out)
    (hn : ∀ sink, sink.FlushesLike r.sink →
      Emits { r with sink, isCommitted := committed } second own committed
        (next { r with sink, isCommitted := committed })) :
    Emits r (first ++ second) own committed (andThen out next) := by
  rcases out with ⟨result, s⟩
  have hrest : s = { r with sink := s.sink, isCommitted := committed } := h.rest
  have hresult : result = (r.sink.write first).1.bind fun _ => .ok () := h.result
  rcases hw : r.sink.write first with ⟨fault | _, t⟩
  · -- the second operation is not tried, and its bytes would not have been taken either
    have hboth := Sink.write_append_of_error hw second
    rw [hw] at hresult
    obtain rfl : result = .error fault := hresult
    have hsink := h.sink
    rw [hw] at hsink
    refine ⟨?_, hrest, ?_, h.flushes⟩
    · rw [hboth]
      exact hsink
    · rw [hboth]
      rfl
  · -- the second operation meets what the first left of the sink
    have hboth := Sink.write_append_of_ok hw second
    rw [hw] at hresult
    obtain rfl : result = .ok () := hresult
    have hsink := h.sink
    rw [hw] at hsink
    have hnext := hn s.sink h.flushesLike
    rw [← hrest] at hnext
    obtain ⟨hsecond, hmatches⟩ := hsink.write second
    refine ⟨?_, ?_, ?_, fun hf => hnext.flushes (h.flushes hf)⟩
    · rw [hboth]
      exact hnext.sink.trans hmatches
    · refine hnext.rest.trans ?_
      rw [hrest]
      rfl
    · rw [hboth, ← hsecond]
      exact hnext.result

theorem Writes.writes {next : Response → Except Fault Unit × Response}
    (h : Writes r first committed out)
    (hn : ∀ sink, Writes { r with sink, isCommitted := committed } second committed
        (next { r with sink, isCommitted := committed })) :
    Writes r (first ++ second) committed (Response.andThen out next) := by
  refine ⟨h.andThen fun sink _ => (hn sink).toEmits, ?_⟩
  rcases out with ⟨_ | _, s⟩
  · exact h.flushesLike
  · have hrest : s = { r with sink := s.sink, isCommitted := committed } := h.rest
    have hnext := (hn s.sink).flushesLike
    rw [← hrest] at hnext
    exact hnext.trans h.flushesLike

/-- A flush at the end of an operation fails or not, whatever has been written. -/
theorem Writes.flush (h : Writes r first committed out) :
    Emits r first r.sink.flush.1 committed (Response.andThen out flushSink) := by
  rw [← List.append_nil first]
  refine h.andThen fun sink hflush => ?_
  rw [← hflush.fst_flush]
  exact emits_flushSink { r with sink, isCommitted := committed }

/-! ### The operations -/

theorem writes_commit (r : Response) : Writes r r.lead true r.commit := by
  unfold lead commit
  cases hc : r.isCommitted with
  | true =>
    have hnil := writes_nil r
    rw [hc] at hnil
    exact hnil
  | false =>
    let marked := { r with isCommitted := true }
    have hput : Writes marked r.head.encode true (marked.put r.head.encode) := writes_put marked _
    exact ⟨⟨hput.sink, hput.rest, hput.result, hput.flushes⟩, hput.flushesLike⟩

theorem writes_writePiece (h : r.isClosed = false) (data : Bytes) :
    Writes r (r.lead ++ frame r.head data) true (r.writePiece data) := by
  rw [writePiece_of_isOpen h]
  exact (writes_commit r).writes fun sink => writes_put { r with sink, isCommitted := true } _

theorem emits_flush (r : Response) : Emits r r.lead r.sink.flush.1 true r.flush :=
  (writes_commit r).flush

theorem emits_send (h : r.isClosed = false) (data : Bytes) :
    Emits r (r.lead ++ frame r.head data) r.sink.flush.1 true (r.send data) :=
  (writes_writePiece h data).flush

theorem writes_finish (r : Response) :
    Writes r (r.lead ++ if r.head.isChunked then Chunk.last else []) true r.finish := by
  refine (writes_commit r).writes fun sink => ?_
  simp only
  split
  · exact writes_put { r with sink, isCommitted := true } Chunk.last
  · exact writes_nil { r with sink, isCommitted := true }

theorem emits_close (h : r.isClosed = false) :
    let settled := { r with isClosed := true }.settleLength
    Emits settled (settled.lead ++ if settled.head.isChunked then Chunk.last else [])
      settled.sink.flush.1 true (r.close false) := by
  unfold close
  simp only [h, Bool.false_eq_true, ↓reduceIte]
  exact (writes_finish _).flush

/-- An aborted close gives nothing to the sink. -/
theorem emits_close_aborted (h : r.isClosed = false) :
    Emits { r with isClosed := true } [] r.sink.flush.1 r.isCommitted (r.close true) := by
  unfold close
  simp only [h, Bool.false_eq_true, ↓reduceIte]
  exact emits_flushSink _

/-! ### Items and copies -/

/-- What an item gives to the sink: its piece of the body, behind the head if that is not out. -/
def itemBytes (head : ResponseHead) (committed : Bool) (item : Script.Item) : Bytes :=
  if item.starts then
    (if committed then [] else head.encode) ++ item.pieces.flatMap (frame head)
  else []

theorem emits_item (ho : r.isClosed = false) (hb : r.isBlocking = true) (whole : Bool)
    (item : Script.Item) :
    ∃ result own, Emits r (itemBytes r.head r.isCommitted item) own (r.isCommitted || item.starts)
      (result, (item.write whole r).2) := by
  rw [response_item hb]
  cases item with
  | flush =>
    have hbytes : itemBytes r.head r.isCommitted .flush = r.lead := List.append_nil _
    rw [hbytes, Script.Item.starts, Bool.or_true]
    exact ⟨_, _, emits_flush r⟩
  | data data =>
    cases hd : data.isEmpty with
    | true =>
      have hs : (Script.Item.data data).starts = false := by simp [Script.Item.starts, hd]
      simp only [itemBytes, hs, hd, Bool.or_false, Bool.false_eq_true, ↓reduceIte]
      exact ⟨_, _, emits_nil r (.ok ())⟩
    | false =>
      have hs : (Script.Item.data data).starts = true := by simp [Script.Item.starts, hd]
      simp only [itemBytes, hs, hd, flatMap_frame_pieces, Bool.or_true, Bool.false_eq_true,
        ↓reduceIte]
      exact ⟨_, _, (writes_writePiece ho data).toEmits⟩

end Response

/-- The buffers that a source fills, and how it ends. -/
def Source.buffers (size : Nat) (source : Source) : List Bytes × Except Fault Unit :=
  match _h : source.fill size with
  | (.error fault, _) => ([], .error fault)
  | (.ok [], _) => ([], .ok ())
  | (.ok (b :: bs), rest) =>
    let (more, ending) := buffers size rest
    ((b :: bs) :: more, ending)
termination_by source.weight
decreasing_by
  have := Source.weight_fill _h
  simp only [List.length_cons] at this
  omega

namespace Response

variable {r : Response}

/-- A copy gives all buffers to the sink in one go, with the head in front of the first. -/
theorem emits_writeFrom (h : r.isClosed = false) (size : Nat) (source : Source) :
    let given := source.buffers size
    Emits r (if given.1.isEmpty then [] else r.lead ++ given.1.flatMap (frame r.head))
      (given.2.bind fun _ => r.sink.flush.1) (r.isCommitted || !given.1.isEmpty)
      (writeFrom size source r) := by
  fun_induction Source.buffers size source generalizing r with
  | case1 source fault rest hfill =>
    rw [writeFrom_eq, hfill]
    simp only [List.isEmpty_nil, Bool.not_true, Bool.or_false, ↓reduceIte]
    exact emits_nil r (.error fault)
  | case2 source rest hfill =>
    rw [writeFrom_eq, hfill]
    simp only [List.isEmpty_nil, Bool.not_true, Bool.or_false, ↓reduceIte]
    exact emits_flushSink r
  | case3 source b bs rest hfill more ending hmore ih =>
    have hbytes : r.lead ++ ((b :: bs) :: more).flatMap (frame r.head)
        = r.lead ++ frame r.head (b :: bs) ++ more.flatMap (frame r.head) := by
      rw [List.flatMap_cons, List.append_assoc]
    rw [writeFrom_eq, hfill]
    simp only [List.isEmpty_cons, Bool.not_false, Bool.or_true, Bool.false_eq_true, ↓reduceIte,
      hbytes]
    refine (writes_writePiece h (b :: bs)).andThen fun sink hflush => ?_
    -- the head is out by then
    have hrest := ih (r := { r with sink, isCommitted := true }) h
    have hlater : (if more.isEmpty then []
        else { r with sink, isCommitted := true }.lead ++ more.flatMap (frame r.head))
          = more.flatMap (frame r.head) := by
      cases more <;> rfl
    simp only [hmore, hlater, Bool.true_or, hflush.fst_flush] at hrest
    exact hrest

end Response

end HttpContext
