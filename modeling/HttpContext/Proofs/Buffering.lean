import HttpContext.Proofs.Delivery
import HttpContext.Proofs.Emission
/-!
A copy knows a source only by the buffers that it fills, and these are the pieces of its content. So
a copy does not depend on how the content arrives. Main statement: `Context.copyOut_congr`.
-/
namespace HttpContext

/-- The bytes in pieces of this size; the last may be shorter, but is not empty. -/
def Bytes.pieces (size : Nat) (bytes : Bytes) : List Bytes :=
  if size = 0 ∨ bytes = [] then [] else bytes.take size :: pieces size (bytes.drop size)
termination_by bytes.length
decreasing_by
  rename_i h
  obtain ⟨hsize, hbytes⟩ := not_or.1 h
  have := List.length_pos_iff.2 hbytes
  rw [List.length_drop]
  omega

namespace Source

variable {s : Source}

/-- A steady source fills its buffers with the pieces of its content and ends well. -/
theorem IsSteady.buffers (h : IsSteady s) (size : Nat) :
    s.buffers size = (Bytes.pieces size s.content, .ok ()) := by
  fun_induction Source.buffers size s with
  | case1 s fault rest hf =>
    obtain ⟨left, hfill, _⟩ := h.fill size
    rw [hf] at hfill
    cases hfill
  | case2 s rest hf =>
    obtain ⟨left, hfill, _⟩ := h.fill size
    rw [hf] at hfill
    have hnone : s.content.take size = [] := (Except.ok.inj (congrArg Prod.fst hfill)).symm
    rw [Bytes.pieces, if_pos (List.take_eq_nil_iff.1 hnone)]
  | case3 s b bs rest hf more ending hmore ih =>
    obtain ⟨left, hfill, hsteady, hcontent⟩ := h.fill size
    rw [hf] at hfill
    obtain rfl : rest = left := congrArg Prod.snd hfill
    have hfront : b :: bs = s.content.take size := Except.ok.inj (congrArg Prod.fst hfill)
    have hfull : ¬ (size = 0 ∨ s.content = []) := by
      rw [← List.take_eq_nil_iff, ← hfront]
      exact List.cons_ne_nil b bs
    have hpieces : Bytes.pieces size s.content
        = s.content.take size :: Bytes.pieces size (s.content.drop size) := by
      rw [Bytes.pieces, if_neg hfull]
    rw [hmore, hcontent] at ih
    obtain ⟨rfl, rfl⟩ := Prod.mk.inj (ih hsteady)
    rw [hpieces, hfront]

end Source

namespace Response

/-- Goes through the buffers one by one, up to the first failure. -/
def forEach (step : Response → Bytes → Except Fault Unit × Response) :
    List Bytes → Response → Except Fault Unit × Response
  | [], r => (.ok (), r)
  | buffer :: rest, r => andThen (step r buffer) (forEach step rest)

theorem andThen_assoc (out : Except Fault Unit × Response)
    (second third : Response → Except Fault Unit × Response) :
    andThen (andThen out second) third = andThen out fun r => andThen (second r) third := by
  rcases out with ⟨_ | _, r⟩ <;> rfl

/-- A copy in a loop writes the buffers and flushes, unless the source has failed. -/
theorem writeFrom_eq_forEach (size : Nat) (source : Source) (r : Response) :
    writeFrom size source r =
      andThen (forEach writePiece (source.buffers size).1 r) fun r =>
        andThen ((source.buffers size).2, r) flushSink := by
  fun_induction Source.buffers size source generalizing r with
  | case1 source fault rest hf => rw [writeFrom_eq, hf]; rfl
  | case2 source rest hf => rw [writeFrom_eq, hf]; rfl
  | case3 source b bs rest hf more ending hmore ih =>
    simp only [hmore] at ih
    rw [writeFrom_eq, hf, forEach, andThen_assoc]
    exact congrArg (andThen (r.writePiece (b :: bs))) (funext ih)

/-- A copy by callbacks sends the buffers, and ends as the source does. -/
theorem sendFrom_eq_forEach (size : Nat) (source : Source) (r : Response) :
    sendFrom size source r =
      andThen (forEach send (source.buffers size).1 r) fun r => ((source.buffers size).2, r) := by
  fun_induction Source.buffers size source generalizing r with
  | case1 source fault rest hf => rw [sendFrom_eq, hf]; rfl
  | case2 source rest hf => rw [sendFrom_eq, hf]; rfl
  | case3 source b bs rest hf more ending hmore ih =>
    simp only [hmore] at ih
    rw [sendFrom_eq, hf, forEach, andThen_assoc]
    exact congrArg (andThen (r.send (b :: bs))) (funext ih)

end Response

namespace Context

/-- On either engine, sources with the same content are copied alike. -/
theorem copyOut_congr (c : Context) {s t : Source} (hs : s.IsSteady) (ht : t.IsSteady)
    (h : s.content = t.content) : c.copyOut s = c.copyOut t := by
  have hbuffers : ∀ size, s.buffers size = t.buffers size := fun size => by
    rw [hs.buffers, ht.buffers, h]
  have hcopied : c.copied s = c.copied t := by
    unfold copied Response.copy
    split
    · rw [Response.writeFrom_eq_forEach, Response.writeFrom_eq_forEach, hbuffers]
    · rw [Response.sendFrom_eq_forEach, Response.sendFrom_eq_forEach, hbuffers]
  rw [copyOut_eq, copyOut_eq, hcopied]

end Context

end HttpContext
