import HttpContext.Proofs.Emission
/-!
What a response leaves on a connection that refuses a write. Each operation is one write to the
sink, so the one that is refused is torn, and none of it is made up for later. A connection that
does not go on after a refusal has a front part of the response; one that does gets whatever is
written afterwards right behind the tear. Main statement: `Response.wire_of_refusal`.
-/
namespace HttpContext

namespace Sink

/-- Makes every write, whatever became of those before it. -/
def writeEvery (s : Sink) (writes : List Bytes) : Sink :=
  writes.foldl (fun s bytes => (s.write bytes).2) s

/-- What is on the wire after these writes: all of them or, when they find no room, those before
the first that is refused, the front of that one, and what the others leave on a sink that has been
broken by then. -/
inductive Delivers : Sink → List Bytes → Bytes → Prop
  | whole {s : Sink} {writes : List Bytes} (room : s.hasRoom writes.flatten.length = true) :
      Delivers s writes (s.wire ++ writes.flatten)
  | torn {s : Sink} {before after : List Bytes} {refused more : Bytes} {room : Nat}
      (capacity : s.capacity = some room) (reached : before.flatten.length ≤ room)
      (passed : room < before.flatten.length + refused.length)
      (rest : Delivers s.broken after more) :
      Delivers s (before ++ refused :: after)
        (s.wire ++ before.flatten ++ refused.take (room - before.flatten.length) ++ more)

/-- Once the sink has refused a write it takes nothing more: it only ever interrupts one before. -/
def IsFinal (s : Sink) : Prop := ∀ refusal ∈ s.refusals, refusal.2.cause.isInterrupted = true

variable {s t : Sink}

theorem Matches.writeEvery (h : Matches s t) (writes : List Bytes) :
    Matches (s.writeEvery writes) (t.writeEvery writes) := by
  induction writes generalizing s t with
  | nil => exact h
  | cons bytes rest ih => exact ih (h.write bytes).2

theorem Tracks.writeEvery {front : Bytes} (h : Tracks front s t) (writes : List Bytes) :
    Tracks front (s.writeEvery writes) (t.writeEvery writes) := by
  induction writes generalizing s t with
  | nil => exact h
  | cons bytes rest ih => exact ih (h.write bytes).2

theorem wire_broken (s : Sink) : s.broken.wire = [] := by
  unfold broken
  induction s.refusals with
  | nil => rfl
  | cons first rest ih =>
    unfold brokenOf
    split
    · exact ih
    · rfl

theorem tracks_broken (h : t.fresh = s.broken) : Tracks t.wire t s.broken where
  wire := by rw [wire_broken, List.append_nil]
  refusals := by rw [← h, fresh]
  room := by rw [← h, fresh]
  refusal := by rw [← h, fresh]

/-- A write in front that succeeds stays in front. -/
theorem Delivers.cons {bytes wire : Bytes} {rest : List Bytes}
    (hw : s.write bytes = (.ok (), t)) (hcapacity : s.capacity = t.capacity.map (bytes.length + ·))
    (hbroken : t.broken = s.broken) (h : Delivers t rest wire) : Delivers s (bytes :: rest) wire := by
  have hwire := wire_write_ok hw
  cases h with
  | whole room =>
    have hroom : s.hasRoom (bytes :: rest).flatten.length = true := by
      rw [List.flatten_cons, List.length_append]
      unfold hasRoom at room ⊢
      rw [hcapacity]
      cases hc : t.capacity with
      | none => rfl
      | some left => simpa [hc] using room
    rw [hwire, List.append_assoc, ← List.flatten_cons]
    exact .whole hroom
  | @torn _ before after refused more left capacity reached passed rest =>
    -- the tear is where it was, with more in front of it and more room before it
    have hbefore : (bytes :: before).flatten.length = bytes.length + before.flatten.length := by
      rw [List.flatten_cons, List.length_append]
    rw [capacity, Option.map_some] at hcapacity
    have htorn : Delivers s ((bytes :: before) ++ refused :: after) _ :=
      .torn hcapacity (by omega) (by omega) (hbroken ▸ rest)
    have hleft : bytes.length + left - (bytes :: before).flatten.length
        = left - before.flatten.length := by omega
    rw [hleft, List.flatten_cons, ← List.append_assoc s.wire, ← hwire] at htorn
    exact htorn

theorem delivers_writeEvery (s : Sink) (writes : List Bytes) :
    Delivers s writes (s.writeEvery writes).wire := by
  induction writes generalizing s with
  | nil =>
    have hnone : s.hasRoom ([] : List Bytes).flatten.length = true := by
      unfold hasRoom
      split <;> simp
    have hwhole := Delivers.whole hnone
    rwa [List.flatten_nil, List.append_nil] at hwhole
  | cons bytes rest ih =>
    cases hr : s.hasRoom bytes.length with
    | true =>
      obtain ⟨t, hw, hcapacity, hbroken⟩ := write_of_hasRoom hr
      have hevery : s.writeEvery (bytes :: rest) = t.writeEvery rest := by
        rw [writeEvery, List.foldl_cons, hw]
        rfl
      rw [hevery]
      exact (ih t).cons hw hcapacity hbroken
    | false =>
      -- what follows is written to the broken sink, wherever its wire ends
      obtain ⟨room, fault, t, hcapacity, hlt, hw, hwire, hfresh⟩ := write_of_not_hasRoom hr
      have hevery : s.writeEvery (bytes :: rest) = t.writeEvery rest := by
        rw [writeEvery, List.foldl_cons, hw]
        rfl
      have hrest := ((tracks_broken hfresh).writeEvery rest).wire
      have htorn : Delivers s ([] ++ bytes :: rest) _ :=
        .torn hcapacity (Nat.zero_le _) (by simpa using hlt) (ih s.broken)
      rw [List.flatten_nil, List.append_nil, List.length_nil, Nat.sub_zero, ← hwire, ← hrest]
        at htorn
      rw [hevery]
      exact htorn

/-! ### Sinks that do not go on -/

theorem broken_of_isFinal (h : s.IsFinal) :
    s.broken = { room := some 0, refusal := s.refusal } := by
  have hall : ∀ refusals : List (Nat × Refusal),
      (∀ refusal ∈ refusals, refusal.2.cause.isInterrupted = true) →
        brokenOf s.room s.refusal refusals = { room := some 0, refusal := s.refusal } := by
    intro refusals hrefusals
    induction refusals with
    | nil => rfl
    | cons first rest ih =>
      obtain ⟨hfirst, hrest⟩ := List.forall_mem_cons.1 hrefusals
      rw [brokenOf, if_pos hfirst]
      exact ih hrest
  exact hall s.refusals h

theorem isFinal_broken (h : s.IsFinal) : s.broken.IsFinal ∧ s.broken.capacity = some 0 := by
  rw [broken_of_isFinal h]
  exact ⟨List.forall_mem_nil _, rfl⟩

/-- A sink without any room is left as it is. -/
theorem Delivers.eq_of_full {writes : List Bytes} {wire : Bytes} (h : Delivers s writes wire)
    (hf : s.IsFinal) (hfull : s.capacity = some 0) : wire = s.wire := by
  induction h with
  | @whole s writes room =>
    have hnone : writes.flatten = [] := by
      unfold hasRoom at room
      rw [hfull] at room
      exact List.length_eq_zero_iff.1 (by simpa using room)
    rw [hnone, List.append_nil]
  | @torn s before after refused more room capacity reached passed rest ih =>
    obtain rfl : room = 0 := Option.some.inj (capacity.symm.trans hfull)
    have hbefore := List.length_eq_zero_iff.1 (Nat.le_zero.1 reached)
    have hmore := ih (isFinal_broken hf).1 (isFinal_broken hf).2
    rw [hmore, wire_broken, hbefore]
    simp

/-- A sink that does not go on after a refusal is left with a front part of what it was given. -/
theorem Delivers.isPrefix {writes : List Bytes} {wire : Bytes} (h : Delivers s writes wire)
    (hf : s.IsFinal) : wire <+: s.wire ++ writes.flatten := by
  cases h with
  | whole room => exact List.prefix_refl _
  | torn capacity reached passed rest =>
    have hmore := rest.eq_of_full (isFinal_broken hf).1 (isFinal_broken hf).2
    rw [hmore, wire_broken, List.flatten_append, List.flatten_cons]
    simp only [List.append_nil, List.append_assoc, List.prefix_append_right_inj]
    exact (List.take_prefix _ _).trans (List.prefix_append _ _)

end Sink

namespace Response

open Script (Item)

/-! ### What is written, operation by operation -/

/-- The bytes of one item after the other, with the head in front of the first that is written. -/
def outputs (head : ResponseHead) : Bool → List Item → List Bytes
  | _, [] => []
  | committed, item :: rest =>
    itemBytes head committed item :: outputs head (committed || item.starts) rest

/-- The bytes of a close: the head if that is not out, and behind chunks the last one. -/
def closingBytes (head : ResponseHead) (committed : Bool) : Bytes :=
  (if committed then [] else head.encode) ++ if head.isChunked then Chunk.last else []

theorem flatMap_pieces_of_not_starts {items : List Item} (h : items.any Item.starts = false) :
    items.flatMap Item.pieces = [] := by
  refine List.flatMap_eq_nil_iff.2 fun item hitem => Item.pieces_of_not_starts ?_
  simpa using List.any_eq_false.1 h item hitem

theorem flatten_outputs (head : ResponseHead) (committed : Bool) (items : List Item) :
    (outputs head committed items).flatten
      = if items.any Item.starts then
          (if committed then [] else head.encode)
            ++ (items.flatMap Item.pieces).flatMap (frame head)
        else [] := by
  induction items generalizing committed with
  | nil => rfl
  | cons item rest ih =>
    rw [outputs, List.flatten_cons, ih, itemBytes, List.any_cons, List.flatMap_cons,
      List.flatMap_append]
    cases hs : item.starts with
    | true =>
      simp only [Bool.true_or, Bool.or_true, ↓reduceIte, List.nil_append, List.append_assoc]
      cases hr : rest.any Item.starts with
      | true => rfl
      | false =>
        rw [flatMap_pieces_of_not_starts hr]
        rfl
    | false =>
      have hpieces := Item.pieces_of_not_starts hs
      simp only [hpieces, Bool.false_or, Bool.or_false, Bool.false_eq_true, ↓reduceIte,
        List.flatMap_nil, List.nil_append]

variable {r : Response}

/-- Items are writes of their bytes, each made whatever became of those before it. -/
theorem writeItems_outputs (ho : r.isClosed = false) (hb : r.isBlocking = true) (whole : Bool)
    (items : List Item) :
    let written := (Script.writeItems whole items r).2
    written.sink.Matches (r.sink.writeEvery (outputs r.head r.isCommitted items))
      ∧ written = { r with
          sink := written.sink, isCommitted := r.isCommitted || items.any Item.starts } := by
  induction items generalizing r with
  | nil => exact ⟨.refl _, by rw [List.any_nil, Bool.or_false]; rfl⟩
  | cons item rest ih =>
    obtain ⟨result, own, hitem⟩ := emits_item ho hb whole item
    have hafter : (item.write whole r).2 = { r with
        sink := (item.write whole r).2.sink, isCommitted := r.isCommitted || item.starts } :=
      hitem.rest
    have hsink : (item.write whole r).2.sink.Matches
        (r.sink.write (itemBytes r.head r.isCommitted item)).2 := hitem.sink
    -- all that the later items see of this one is what it left of the sink
    generalize (item.write whole r).2.sink = sink at hafter hsink
    have hitems : (Script.writeItems whole (item :: rest) r).2 = (Script.writeItems whole rest
        { r with sink, isCommitted := r.isCommitted || item.starts }).2 := by
      rw [← hafter]
      rfl
    obtain ⟨hmatches, hrest⟩ :=
      ih (r := { r with sink, isCommitted := r.isCommitted || item.starts }) ho hb
    simp only [hitems, List.any_cons, ← Bool.or_assoc]
    exact ⟨hmatches.trans (hsink.writeEvery _), hrest⟩

/-- A close writes what is missing of a response that was given these items. -/
theorem outputs_closing (head : ResponseHead) (items : List Item) :
    let settled :=
      if items.any Item.starts || head.contentLength.isSome || head.isChunked then head
      else head.setContentLength 0
    (outputs head false items ++ [closingBytes settled (items.any Item.starts)]).flatten
      = settled.encode ++ body settled (items.flatMap Item.pieces) := by
  intro settled
  have hpieces : ∀ piece ∈ items.flatMap Item.pieces, piece ≠ [] := by
    intro piece hp
    obtain ⟨item, _, hpiece⟩ := List.mem_flatMap.1 hp
    exact item.pieces_ne_nil piece hpiece
  rw [List.flatten_append, List.flatten_singleton, flatten_outputs, closingBytes,
    ← flatMap_frame_append settled hpieces]
  cases hs : items.any Item.starts with
  | true =>
    have hsettled : settled = head := by simp only [settled, hs, Bool.true_or, ↓reduceIte]
    simp only [hsettled, Bool.false_eq_true, ↓reduceIte, List.nil_append, List.append_assoc]
  | false =>
    -- without a body the close writes the whole response
    rw [flatMap_pieces_of_not_starts hs]
    simp only [Bool.false_eq_true, ↓reduceIte, List.flatMap_nil, List.nil_append]

theorem close_outputs (ho : r.isClosed = false) :
    let settled :=
      if r.isCommitted || r.head.contentLength.isSome || r.head.isChunked then r.head
      else r.head.setContentLength 0
    (r.close false).2.sink.Matches (r.sink.write (closingBytes settled r.isCommitted)).2
      ∧ (r.close false).2.isCommitted = true := by
  intro settled
  have hemits := emits_close ho
  have hclosed : { r with isClosed := true }.settleLength
      = { r with isClosed := true, head := settled } := by
    rw [settleLength_eq]
    simp only [settled]
    split <;> rfl
  rw [hclosed] at hemits
  exact ⟨hemits.sink, congrArg isCommitted hemits.rest⟩

/-- What a response leaves on any connection, at any moment and when it is closed. The connection
has all of it, or it has what came before the operation that was refused, the front of that one,
and, if it goes on after that, what came later. The head counts as sent from the first operation on,
whatever became of it. -/
theorem wire_of_refusal (engine : Engine) (head : ResponseHead) (sink : Sink) (whole : Bool)
    (items : List Item) :
    let fresh : Response := { engine, sink, head, isBlocking := true }
    let written := (Script.writeItems whole items fresh).2
    let closed := (written.close false).2
    let settled :=
      if items.any Item.starts || head.contentLength.isSome || head.isChunked then head
      else head.setContentLength 0
    let writes := outputs head false items
    let closing := closingBytes settled (items.any Item.starts)
    let complete := settled.encode ++ body settled (items.flatMap Item.pieces)
    (writes ++ [closing]).flatten = complete
      ∧ sink.Delivers writes written.wire ∧ sink.Delivers (writes ++ [closing]) closed.wire
      ∧ written.isCommitted = items.any Item.starts ∧ closed.isCommitted = true
      ∧ (sink.IsFinal →
          written.wire <+: sink.wire ++ complete ∧ closed.wire <+: sink.wire ++ complete) := by
  intro fresh written closed settled writes closing complete
  obtain ⟨hwritten, hrest⟩ := writeItems_outputs (r := fresh) rfl rfl whole items
  have hcommitted : written.isCommitted = items.any Item.starts := congrArg isCommitted hrest
  have hhead : written.head = head := congrArg Response.head hrest
  have hopen : written.isClosed = false := congrArg isClosed hrest
  have hcomplete : (writes ++ [closing]).flatten = complete := outputs_closing head items
  have hdelivered : sink.Delivers writes written.wire := by
    have hevery := sink.delivers_writeEvery writes
    rwa [← hwritten.wire] at hevery
  obtain ⟨hclose, hclosed⟩ := close_outputs hopen
  rw [hcommitted, hhead] at hclose
  have hends : sink.Delivers (writes ++ [closing]) closed.wire := by
    have hevery := sink.delivers_writeEvery (writes ++ [closing])
    have hlast : sink.writeEvery (writes ++ [closing])
        = ((sink.writeEvery writes).write closing).2 := List.foldl_append
    rwa [hlast, ← (hclose.trans (hwritten.write closing).2).wire] at hevery
  refine ⟨hcomplete, hdelivered, hends, hcommitted, hclosed, fun honce => ⟨?_, ?_⟩⟩
  · rw [← hcomplete, List.flatten_append, ← List.append_assoc]
    exact (hdelivered.isPrefix honce).trans (List.prefix_append _ _)
  · rw [← hcomplete]
    exact hends.isPrefix honce

/-- The connection breaks for good inside the second of two chunks. -/
theorem wire_of_refusal_for_good :
    let head : ResponseHead := ({} : ResponseHead).setChunked
    let sink : Sink := { room := some 56, refusal := .fault (.system .brokenPipe) }
    let items : List Item := [.data [1, 2, 3], .flush, .data [4]]
    let fresh : Response := { engine := .callback, sink, head, isBlocking := true }
    let written := (Script.writeItems false items fresh).2
    let closed := (written.close false).2
    let settled :=
      if items.any Item.starts || head.contentLength.isSome || head.isChunked then head
      else head.setContentLength 0
    let complete := settled.encode ++ body settled (items.flatMap Item.pieces)
    sink.IsFinal
      ∧ written.wire <+: sink.wire ++ complete ∧ closed.wire <+: sink.wire ++ complete := by
  intro head sink items fresh written closed settled complete
  obtain ⟨_, _, _, _, _, hprefix⟩ := wire_of_refusal .callback head sink false items
  have hfinal : sink.IsFinal := List.forall_mem_nil _
  exact ⟨hfinal, hprefix hfinal⟩

/-- The first write is refused inside the head. The second goes out behind that, though the
connection has no whole head. -/
theorem written_behind_torn_head :
    let sink : Sink :=
      { refusals := [(5, .fault (.system .brokenPipe))] }
    let fresh : Response := { engine := .stream, sink }
    let written := (Script.writeItems false [.data [97, 98], .data [99, 100]] fresh).2
    written.isCommitted = true ∧ written.wire = fresh.head.encode.take 5 ++ [99, 100]
      ∧ ¬ written.wire <+: fresh.head.encode ++ [97, 98] ++ [99, 100] := by
  decide +kernel

end Response

end HttpContext
