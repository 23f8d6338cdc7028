import HttpContext.Proofs.Writing
/-!
Responses that differ at most in their engine. As long as no flush fails, whatever is written to
one of them has the same result on the other and leaves the two alike.
-/
namespace HttpContext.Response

/-- The two responses have written the same to the same sink, whose flushes succeed. -/
structure Alike (r s : Response) : Prop where
  sink : r.sink = s.sink
  head : r.head = s.head
  isCommitted : r.isCommitted = s.isCommitted
  flushes : s.sink.Flushes

/-- Two writes with the same result, after which `P` holds of the responses. -/
def Both (P : Response → Response → Prop) (out out' : Except Fault Unit × Response) : Prop :=
  out.1 = out'.1 ∧ P out.2 out'.2

theorem Both.andThen {P Q : Response → Response → Prop} {out out' : Except Fault Unit × Response}
    {next next' : Response → Except Fault Unit × Response} (h : Both P out out')
    (hpq : ∀ {r s}, P r s → Q r s) (hn : ∀ r s, P r s → Both Q (next r) (next' s)) :
    Both Q (andThen out next) (andThen out' next') := by
  rcases out with ⟨result, r⟩
  rcases out' with ⟨result', s⟩
  obtain ⟨he, hp⟩ := h
  simp only at he hp
  subst he
  cases result with
  | error fault => exact ⟨rfl, hpq hp⟩
  | ok => exact hn r s hp

variable {r s : Response}

theorem flushSink_of_flushes (h : s.sink.Flushes) : s.flushSink = (.ok (), s) := by
  simp only [flushSink, Sink.flush_of_flushes h]

theorem Alike.put (h : Alike r s) (bytes : Bytes) : Both Alike (r.put bytes) (s.put bytes) := by
  have hresult : (r.sink.write bytes).1 = (s.sink.write bytes).1 := by rw [h.sink]
  have hsink : (r.sink.write bytes).2 = (s.sink.write bytes).2 := by rw [h.sink]
  have hflush := (Sink.flushesLike_write s.sink bytes).flushes h.flushes
  exact ⟨hresult, ⟨hsink, h.head, h.isCommitted, hflush⟩⟩

theorem Alike.flushSink (h : Alike r s) : Both Alike r.flushSink s.flushSink := by
  have hr : r.sink.Flushes := h.sink ▸ h.flushes
  rw [flushSink_of_flushes hr, flushSink_of_flushes h.flushes]
  exact ⟨rfl, h⟩

theorem Alike.commit (h : Alike r s) : Both Alike r.commit s.commit := by
  have he : r.head.encode = s.head.encode := by rw [h.head]
  unfold Response.commit
  rw [h.isCommitted, he]
  split
  · exact ⟨rfl, h⟩
  · have hc : Alike { r with isCommitted := true } { s with isCommitted := true } :=
      ⟨h.sink, h.head, rfl, h.flushes⟩
    exact hc.put s.head.encode

theorem Alike.finish (h : Alike r s) : Both Alike r.finish s.finish := by
  refine h.commit.andThen id fun a b hab => ?_
  rw [hab.head]
  split
  · exact hab.put Chunk.last
  · exact ⟨rfl, hab⟩

theorem Alike.flush (h : Alike r s) : Both Alike r.flush s.flush :=
  h.commit.andThen id fun _ _ hab => hab.flushSink

theorem Alike.settleLength (h : Alike r s) : Alike r.settleLength s.settleLength := by
  unfold Response.settleLength
  rw [h.isCommitted, h.head]
  split
  · exact ⟨h.sink, congrArg (·.setContentLength 0) h.head, h.isCommitted, h.flushes⟩
  · exact h

theorem Alike.close (h : Alike r s) (hc : r.isClosed = s.isClosed) (aborted : Bool) :
    Both Alike (r.close aborted) (s.close aborted) := by
  have hclosed : Alike { r with isClosed := true } { s with isClosed := true } :=
    ⟨h.sink, h.head, h.isCommitted, h.flushes⟩
  unfold Response.close
  rw [hc]
  split
  · exact ⟨rfl, h⟩
  · -- an aborted close flushes only, any other one writes what is missing before that
    split
    · exact hclosed.flushSink
    · exact hclosed.settleLength.finish.andThen id fun _ _ hab => hab.flushSink

/-! ### Open responses -/

/-- Alike and both open, so that a write refers to no engine when it fails. -/
structure Twins (r s : Response) : Prop extends Alike r s where
  left : r.isClosed = false
  right : s.isClosed = false

theorem Twins.of_alike {out out' : Except Fault Unit × Response} (h : Twins r s)
    (ha : Both Alike out out') (hr : Continues r out.2) (hs : Continues s out'.2) :
    Both Twins out out' :=
  ⟨ha.1, ha.2, hr.isClosed.trans h.left, hs.isClosed.trans h.right⟩

theorem Twins.writePiece (h : Twins r s) (data : Bytes) :
    Both Twins (r.writePiece data) (s.writePiece data) := by
  have ha : Both Alike (r.writePiece data) (s.writePiece data) := by
    unfold Response.writePiece
    rw [h.left, h.right]
    refine h.toAlike.commit.andThen id fun a b hab => ?_
    rw [hab.head]
    exact hab.put _
  exact h.of_alike ha (continues_writePiece r data) (continues_writePiece s data)

theorem Twins.writeFrom (h : Twins r s) (size : Nat) (source : Source) :
    Both Twins (writeFrom size source r) (writeFrom size source s) := by
  -- both loops fill their buffers from the same source, so they take the same turns
  fun_induction Response.writeFrom size source r generalizing s with
  | case1 source r fault rest hf =>
    rw [writeFrom_eq, hf]
    exact ⟨rfl, h⟩
  | case2 source r rest hf =>
    rw [writeFrom_eq, hf]
    have ha := h.toAlike.flushSink
    exact h.of_alike ha (continues_flushSink r) (continues_flushSink s)
  | case3 source r b bs rest hf ih =>
    rw [writeFrom_eq, hf]
    exact (h.writePiece (b :: bs)).andThen id fun _ _ hab => ih _ hab

theorem Twins.send (h : Twins r s) (data : Bytes) : Both Twins (r.send data) (s.send data) := by
  have ha : Both Alike (r.send data) (s.send data) :=
    (h.writePiece data).andThen Twins.toAlike fun _ _ hab => hab.toAlike.flushSink
  exact h.of_alike ha (continues_send r data) (continues_send s data)

end HttpContext.Response
