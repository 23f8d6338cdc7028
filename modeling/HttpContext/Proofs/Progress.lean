import HttpContext.Proofs.Delivery
/-!
How far a body gets. What is written of it follows what had been sent before; a write that fails
leaves some of its bytes out. When the copy of a source of bounded length has failed, fewer bytes
than that bound have gone out.
-/
namespace HttpContext

namespace Source

/-- The source has no more than `n` bytes, and once it has given that many it fails no more. -/
def EndsBy : Nat → Source → Prop
  | _, [] => True
  | n, .fail _ :: rest => 0 < n ∧ EndsBy n rest
  | n, .data bytes :: rest => bytes.length ≤ n ∧ EndsBy (n - bytes.length) rest

theorem endsBy_take (n : Nat) (s : Source) : EndsBy n (take n s) := by
  fun_induction Source.take n s with
  | case1 => trivial
  | case2 => trivial
  | case3 n fault rest hn ih => exact ⟨Nat.pos_of_ne_zero hn, ih⟩
  | case4 => trivial
  | case5 n bytes rest hn ih =>
    have hlength : (bytes.take n).length = min n bytes.length := List.length_take
    have hleft : n - (bytes.take n).length = n - bytes.length := by omega
    refine ⟨by omega, ?_⟩
    rw [hleft]
    exact ih

variable {n : Nat} {s : Source}

/-- A buffer is filled with no more than there is, and the bound shrinks by what it got. -/
theorem EndsBy.fill (h : EndsBy n s) {room : Nat} {bytes : Bytes} {rest : Source}
    (hf : Source.fill room s = (.ok bytes, rest)) :
    bytes.length ≤ n ∧ EndsBy (n - bytes.length) rest := by
  fun_induction Source.fill room s generalizing n bytes with
  | case1 =>
    cases hf
    exact ⟨Nat.zero_le n, trivial⟩
  | case2 =>
    cases hf
    exact ⟨Nat.zero_le n, h⟩
  | case3 room fault tail hr hi ih => exact ih h.2 hf
  | case4 => cases hf
  | case5 room piece tail hd more left hm ih =>
    cases hf
    obtain ⟨hpiece, htail⟩ := h
    obtain ⟨hmore, hleft⟩ := ih htail hm
    rw [List.length_append, ← Nat.sub_sub]
    exact ⟨by omega, hleft⟩
  | case6 => cases hf
  | case7 room piece tail hd =>
    cases hf
    obtain ⟨hpiece, htail⟩ := h
    -- the piece is split in two, which together are as long as it was
    have htake : (piece.take room).length = min room piece.length := List.length_take
    have hdrop : (piece.drop room).length = piece.length - room := List.length_drop
    have hleft : n - (piece.take room).length - (piece.drop room).length = n - piece.length := by
      omega
    refine ⟨by omega, by omega, ?_⟩
    rw [hleft]
    exact htail

/-- A source that fails while a buffer is filled has not reached its bound. -/
theorem EndsBy.pos_of_fill (h : EndsBy n s) {room : Nat} {fault : Fault} {rest : Source}
    (hf : Source.fill room s = (.error fault, rest)) : 0 < n := by
  fun_induction Source.fill room s generalizing n with
  | case1 => cases hf
  | case2 => cases hf
  | case3 room fault tail hr hi ih => exact h.1
  | case4 => exact h.1
  | case5 => cases hf
  | case6 room piece tail hd fault left hm ih =>
    cases hf
    have hrest := ih h.2 hm
    omega
  | case7 => cases hf

end Source

namespace Response

/-! ### One write -/

/-- What a write of these bytes makes of a response: all of them follow what had been sent, unless
the write fails; then some are missing. On a sound sink it does not fail. -/
structure Adds (r : Response) (bytes : Bytes) (out : Except Fault Unit × Response) : Prop where
  continues : Continues r out.2
  head : out.2.head = r.head
  whole : out.1 = .ok () → out.2.sent = r.sent ++ bytes
  short : ∀ fault, out.1 = .error fault →
    ∃ missing, missing ≠ [] ∧ out.2.wire ++ missing = r.sent ++ bytes
  sure : r.sink.IsSound → out.1 = .ok ()

variable {r : Response}

theorem sent_of_isCommitted (h : r.isCommitted = true) : r.sent = r.wire := by
  simp only [sent, h, ↓reduceIte]

theorem sent_of_not_isCommitted (h : r.isCommitted = false) : r.sent = r.wire ++ r.head.encode := by
  simp only [sent, h, Bool.false_eq_true, ↓reduceIte]

theorem wire_prefix_sent (r : Response) : r.wire <+: r.sent := by
  unfold sent
  split
  · exact List.prefix_refl _
  · exact List.prefix_append _ _

/-- Nothing is written. -/
theorem adds_nil (r : Response) : Adds r [] (.ok (), r) where
  continues := .refl r
  head := rfl
  whole := fun _ => (List.append_nil _).symm
  short := by rintro _ ⟨⟩
  sure := fun _ => rfl

theorem Adds.andThen {first second : Bytes} {out : Except Fault Unit × Response}
    {next : Response → Except Fault Unit × Response} (h : Adds r first out)
    (hn : ∀ s, out = (.ok (), s) → Adds s second (next s)) :
    Adds r (first ++ second) (andThen out next) := by
  rcases out with ⟨fault | _, s⟩
  · refine ⟨h.continues, h.head, by rintro ⟨⟩, fun _ _ => ?_, h.sure⟩
    obtain ⟨missing, hne, hmissing⟩ := h.short fault rfl
    -- the second write is not made, so all of it is missing as well
    refine ⟨missing ++ second, by simp [hne], ?_⟩
    rw [← List.append_assoc, ← List.append_assoc]
    exact congrArg (· ++ second) hmissing
  · have hnext := hn s rfl
    have hsent : s.sent ++ second = r.sent ++ (first ++ second) := by
      rw [← List.append_assoc]
      exact congrArg (· ++ second) (h.whole rfl)
    exact {
      continues := h.continues.trans hnext.continues
      head := hnext.head.trans h.head
      whole := fun hok => (hnext.whole hok).trans hsent
      short := hsent ▸ hnext.short
      sure := fun hs => hnext.sure (h.continues.isSound hs) }

theorem adds_put (h : r.isCommitted = true) (bytes : Bytes) : Adds r bytes (r.put bytes) := by
  have hcontinues := continues_put h bytes
  have hsure : r.sink.IsSound → (r.put bytes).1 = .ok () := fun hs => by rw [put_of_isSound hs]
  have hafter : (r.put bytes).2.sent = (r.put bytes).2.wire := sent_of_isCommitted h
  have hput : r.put bytes = ((r.sink.write bytes).1, { r with sink := (r.sink.write bytes).2 }) :=
    rfl
  rw [hput] at hcontinues hsure hafter ⊢
  rcases hw : r.sink.write bytes with ⟨fault | _, sink⟩ <;> rw [hw] at hcontinues hsure hafter
  · obtain ⟨front, ⟨missing, hmissing⟩, hlt, hwire⟩ := Sink.wire_write_error hw
    refine ⟨hcontinues, rfl, by rintro ⟨⟩, fun _ _ => ⟨missing, ?_, ?_⟩, hsure⟩
    · rintro rfl
      rw [← hmissing, List.append_nil] at hlt
      exact Nat.lt_irrefl _ hlt
    · rw [sent_of_isCommitted h, wire, hwire, List.append_assoc, hmissing]
      rfl
  · refine ⟨hcontinues, rfl, fun _ => ?_, by rintro _ ⟨⟩, hsure⟩
    rw [hafter, sent_of_isCommitted h, wire, Sink.wire_write_ok hw]
    rfl

/-- The head counts as sent from the start, so writing it adds nothing to that. -/
theorem adds_commit (r : Response) : Adds r [] r.commit := by
  cases hc : r.isCommitted with
  | true =>
    rw [commit_of_isCommitted hc]
    exact adds_nil r
  | false =>
    have hput := adds_put (r := { r with isCommitted := true }) rfl r.head.encode
    have hcommit : r.commit = { r with isCommitted := true }.put r.head.encode := by
      simp only [commit, hc, Bool.false_eq_true, ↓reduceIte]
    have hsent : { r with isCommitted := true }.sent ++ r.head.encode = r.sent ++ [] := by
      rw [List.append_nil, sent_of_not_isCommitted hc]
      rfl
    have hcontinues := continues_commit r
    rw [hcommit] at hcontinues ⊢
    exact ⟨hcontinues, hput.head, fun hok => (hput.whole hok).trans hsent, hsent ▸ hput.short,
      hput.sure⟩

theorem adds_flushSink (h : r.sink.Flushes) : Adds r [] r.flushSink := by
  rw [flushSink_of_flushes h]
  exact adds_nil r

/-- What is written after the head. -/
theorem adds_commit_andThen {bytes : Bytes} {next : Response → Except Fault Unit × Response}
    (hn : ∀ s, s.isCommitted = true → Continues r s → s.head = r.head → Adds s bytes (next s)) :
    Adds r bytes (andThen r.commit next) := by
  have hcommit := adds_commit r
  have hcommitted := isCommitted_commit r
  rw [← List.nil_append bytes]
  refine hcommit.andThen fun s hs => ?_
  rw [hs] at hcommit hcommitted
  exact hn s hcommitted hcommit.continues hcommit.head

theorem adds_writePiece (h : r.isClosed = false) (data : Bytes) :
    Adds r (frame r.head data) (r.writePiece data) := by
  rw [writePiece_of_isOpen h]
  exact adds_commit_andThen fun s hs _ hhead => hhead ▸ adds_put hs _

theorem adds_flush (h : r.sink.Flushes) : Adds r [] r.flush :=
  adds_commit_andThen fun _ _ hrs _ => adds_flushSink (hrs.flushes h)

theorem adds_send (h : r.isClosed = false) (hf : r.sink.Flushes) (data : Bytes) :
    Adds r (frame r.head data) (r.send data) := by
  rw [send_of_flushes hf]
  exact adds_writePiece h data

theorem adds_finish (r : Response) :
    Adds r (if r.head.isChunked then Chunk.last else []) r.finish := by
  refine adds_commit_andThen fun s hs _ hhead => ?_
  rw [← hhead]
  split
  · exact adds_put hs Chunk.last
  · exact adds_nil s

/-- Whatever is written after the head, the response counts as committed. -/
theorem isCommitted_commit_andThen (r : Response)
    {next : Response → Except Fault Unit × Response}
    (hn : ∀ s, s.isCommitted = true → Continues s (next s).2) :
    (andThen r.commit next).2.isCommitted = true := by
  have hcommitted := isCommitted_commit r
  rcases h : r.commit with ⟨fault | _, s⟩ <;> rw [h] at hcommitted
  · exact hcommitted
  · exact (hn s hcommitted).isCommitted hcommitted

theorem isCommitted_finish (r : Response) : r.finish.2.isCommitted = true := by
  refine isCommitted_commit_andThen r fun s hs => ?_
  split
  · exact continues_put hs Chunk.last
  · exact .refl s

/-- A close takes nothing off the wire. -/
theorem wire_prefix_close (r : Response) (aborted : Bool) :
    r.wire <+: (r.close aborted).2.wire := by
  unfold close
  split
  · exact List.prefix_refl _
  · split
    · exact (continues_flushSink { r with isClosed := true }).grows
    · have hfinish := continues_finish { r with isClosed := true }.settleLength
      have hsettle : { r with isClosed := true }.settleLength.wire = r.wire := by
        rw [wire, sink_settleLength]
        rfl
      rw [← hsettle]
      exact (andThen_rel .trans hfinish continues_flushSink).grows

/-- A close adds the head, if that is missing, and the last chunk of a chunked body. -/
theorem close_of_isSound (h : r.sink.IsSound) (ho : r.isClosed = false) :
    (r.close false).2.head = r.settleLength.head
      ∧ (r.close false).2.wire
        = r.settleLength.sent ++ if r.settleLength.head.isChunked then Chunk.last else [] := by
  have hsettle : { r with isClosed := true }.settleLength
      = { r.settleLength with isClosed := true } := by
    unfold settleLength
    split <;> rfl
  have hsound : r.settleLength.sink.IsSound := by
    rw [sink_settleLength]
    exact h
  have hadds := adds_finish { r.settleLength with isClosed := true }
  have hcommitted := isCommitted_finish { r.settleLength with isClosed := true }
  have hok := hadds.sure hsound
  rcases hs : { r.settleLength with isClosed := true }.finish with ⟨fault | _, s⟩ <;>
    rw [hs] at hadds hcommitted hok
  · cases hok
  · have hflush := flushSink_of_flushes (hadds.continues.isSound hsound).flushes
    have hclose : (r.close false).2 = s := by
      simp only [close, ho, hsettle, hs, hflush, andThen, Bool.false_eq_true, ↓reduceIte]
    refine ⟨by rw [hclose]; exact hadds.head, ?_⟩
    rw [hclose, ← sent_of_isCommitted hcommitted]
    exact hadds.whole rfl

/-! ### A copy -/

/-- The pieces that are copied follow what had been sent, each in the framing of the head. -/
theorem writeFrom_pieces (size : Nat) (source : Source) (ho : r.isClosed = false)
    (hf : r.sink.Flushes) :
    ∃ pieces : List Bytes, (∀ piece ∈ pieces, piece ≠ [])
      ∧ (writeFrom size source r).2.head = r.head
      ∧ (writeFrom size source r).2.wire <+: r.sent ++ pieces.flatMap (frame r.head)
      ∧ (r.sink.IsSound →
          (writeFrom size source r).2.sent = r.sent ++ pieces.flatMap (frame r.head)) := by
  have hnil : ∀ r : Response, r.sent = r.sent ++ ([] : List Bytes).flatMap (frame r.head) :=
    fun r => (List.append_nil _).symm
  fun_induction writeFrom size source r with
  | case1 source r fault rest hfill =>
    exact ⟨[], List.forall_mem_nil _, rfl, hnil r ▸ wire_prefix_sent r, fun _ => hnil r⟩
  | case2 source r rest hfill =>
    rw [flushSink_of_flushes hf]
    exact ⟨[], List.forall_mem_nil _, rfl, hnil r ▸ wire_prefix_sent r, fun _ => hnil r⟩
  | case3 source r b bs rest hfill ih =>
    have hadds := adds_writePiece ho (b :: bs)
    rcases hw : r.writePiece (b :: bs) with ⟨fault | _, s⟩ <;> rw [hw] at hadds
    · -- the copy stops with the piece that did not go out whole
      obtain ⟨missing, _, hmissing⟩ := hadds.short fault rfl
      refine ⟨[b :: bs], by simp, hadds.head, ?_, fun hs => ?_⟩
      · rw [List.flatMap_singleton]
        exact ⟨missing, hmissing⟩
      · cases hadds.sure hs
    · have hopen := hadds.continues.isClosed.trans ho
      have hflushes := hadds.continues.flushes hf
      obtain ⟨pieces, hne, hhead, hprefix, hsound⟩ := ih s hopen hflushes
      have hsent : s.sent = r.sent ++ frame r.head (b :: bs) := hadds.whole rfl
      rw [hsent, hadds.head, List.append_assoc] at hprefix hsound
      refine ⟨(b :: bs) :: pieces, ?_, hhead.trans hadds.head, ?_, fun hs => ?_⟩
      · intro piece hp
        rcases List.mem_cons.1 hp with rfl | hp
        · exact List.cons_ne_nil b bs
        · exact hne piece hp
      · rw [List.flatMap_cons]
        exact hprefix
      · rw [List.flatMap_cons]
        exact hsound (hadds.continues.isSound hs)

/-- A copy that fails leaves out some of a body that goes out as it is. -/
theorem length_writeFrom_lt {size n : Nat} {source : Source} (hn : source.EndsBy n)
    (ho : r.isClosed = false) (hw : r.head.isChunked = false) {fault : Fault}
    (h : (writeFrom size source r).1 = .error fault) (hf : r.sink.Flushes) :
    (writeFrom size source r).2.wire.length < r.sent.length + n := by
  have hle : ∀ r : Response, r.wire.length ≤ r.sent.length := fun r =>
    (wire_prefix_sent r).length_le
  fun_induction writeFrom size source r generalizing n with
  | case1 source r fault' rest hfill =>
    -- the source fails before its bound, so something is still to come
    have hpos := hn.pos_of_fill hfill
    have hwire := hle r
    simp only
    omega
  | case2 source r rest hfill =>
    rw [flushSink_of_flushes hf] at h
    cases h
  | case3 source r b bs rest hfill ih =>
    obtain ⟨hlength, hrest⟩ := hn.fill hfill
    have hadds := adds_writePiece ho (b :: bs)
    rw [frame_of_not_isChunked hw, id] at hadds
    rcases hp : r.writePiece (b :: bs) with ⟨fault' | _, s⟩ <;> rw [hp] at hadds h
    · obtain ⟨missing, hne, hmissing⟩ := hadds.short fault' rfl
      have hpos : 0 < missing.length := List.length_pos_iff.2 hne
      have hall : s.wire.length + missing.length = r.sent.length + (b :: bs).length := by
        rw [← List.length_append, ← List.length_append]
        exact congrArg List.length hmissing
      show s.wire.length < r.sent.length + n
      omega
    · have hsent : s.sent = r.sent ++ (b :: bs) := hadds.whole rfl
      have hs := ih s hrest (hadds.continues.isClosed.trans ho) (hadds.head ▸ hw) h
        (hadds.continues.flushes hf)
      rw [hsent, List.length_append] at hs
      show (writeFrom size rest s).2.wire.length < r.sent.length + n
      omega

end Response

end HttpContext
