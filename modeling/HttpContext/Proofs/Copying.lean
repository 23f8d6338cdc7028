import HttpContext.Context.Send
import HttpContext.Proofs.Alike
/-!
Copying a source. The callback engine is called back with its context after every buffer;
`Response.sendFrom` is what that does to the response, and `copyOut_eq` says that on both engines
the copy is over before the request ends.
-/
namespace HttpContext

namespace Response

/-- Fills buffers from a source and sends each of them, up to the first failure. -/
def sendFrom (size : Nat) (source : Source) (r : Response) : Except Fault Unit × Response :=
  match _h : source.fill size with
  | (.error fault, _) => (.error fault, r)
  | (.ok [], _) => (.ok (), r)
  | (.ok (b :: bs), rest) => andThen (r.send (b :: bs)) fun r => sendFrom size rest r
termination_by source.weight
decreasing_by
  have := Source.weight_fill _h
  simp only [List.length_cons] at this
  omega

theorem sendFrom_eq (size : Nat) (source : Source) (r : Response) :
    sendFrom size source r =
      match source.fill size with
      | (.error fault, _) => (.error fault, r)
      | (.ok [], _) => (.ok (), r)
      | (.ok (b :: bs), rest) => andThen (r.send (b :: bs)) (sendFrom size rest) := by
  rw [sendFrom]
  split <;> simp only [*]

theorem continues_sendFrom (size : Nat) (source : Source) (r : Response) :
    Continues r (sendFrom size source r).2 := by
  fun_induction sendFrom size source r with
  | case1 => exact .refl _
  | case2 => exact .refl _
  | case3 source r b bs rest hf ih => exact andThen_rel .trans (continues_send r _) ih

theorem clean_sendFrom (size : Nat) (source : Source) (r : Response) :
    Clean r (sendFrom size source r) := by
  fun_induction sendFrom size source r with
  | case1 =>
    intro h
    cases h
  | case2 => exact fun _ => rfl
  | case3 source r b bs rest hf ih => exact (clean_send r _).andThen ih

theorem send_of_flushes {r : Response} (h : r.sink.Flushes) (data : Bytes) :
    r.send data = r.writePiece data := by
  have keeps := (continues_writePiece r data).flushes h
  unfold send
  rcases hw : r.writePiece data with ⟨fault | _, s⟩
  · rfl
  · rw [hw] at keeps
    exact flushSink_of_flushes keeps

/-- Where no flush fails, sending buffer by buffer comes to the same as writing them in a loop. -/
theorem sendFrom_of_flushes {r : Response} (h : r.sink.Flushes) (size : Nat)
    (source : Source) : sendFrom size source r = writeFrom size source r := by
  -- that no flush fails is an invariant: a write does not change how the sink flushes
  fun_induction sendFrom size source r with
  | case1 source r fault rest hf => rw [writeFrom_eq, hf]
  | case2 source r rest hf =>
    rw [writeFrom_eq, hf]
    exact (flushSink_of_flushes h).symm
  | case3 source r b bs rest hf ih =>
    have keeps := (continues_writePiece r (b :: bs)).flushes h
    rw [writeFrom_eq, hf, send_of_flushes h]
    simp only
    rcases hw : r.writePiece (b :: bs) with ⟨fault | _, s⟩
    · rfl
    · rw [hw] at keeps
      exact ih s keeps

end Response

namespace Context

/-- What copying a source does to the response. -/
def copied (c : Context) (source : Source) : Except Fault Unit × Response :=
  match c.engine with
  | .stream => c.response.copy source c.router.config.bufferSize
  | .callback => c.response.sendFrom (max c.router.config.bufferSize 1) source

theorem pump_eq (size : Nat) (source : Source) (c : Context) :
    c.pump size source = { c with response := (c.response.sendFrom size source).2 }.endWith
      (c.response.sendFrom size source).1 := by
  -- each callback starts from the context that the one before has left
  fun_induction pump size source c with
  | case1 source c fault rest hf => rw [Response.sendFrom_eq, hf]
  | case2 source c rest hf => rw [Response.sendFrom_eq, hf]
  | case3 source c b bs rest hf fault response hs =>
    rw [Response.sendFrom_eq size source, hf]
    simp only [hs, Response.andThen]
  | case4 source c b bs rest hf response hs ih =>
    rw [ih, Response.sendFrom_eq size source, hf]
    simp only [hs, Response.andThen]

/-- On both engines the request ends when the source has been copied, with the result of that. -/
theorem copyOut_eq (c : Context) (source : Source) :
    c.copyOut source = { c with response := (c.copied source).2 }.endWith (c.copied source).1 := by
  unfold copyOut copied
  cases c.engine with
  | stream => rfl
  | callback => exact pump_eq _ source c

theorem continues_copied (c : Context) (source : Source) :
    c.response.Continues (c.copied source).2 := by
  unfold copied
  split
  · exact Response.continues_writeFrom _ source _
  · exact Response.continues_sendFrom _ source _

theorem clean_copied (c : Context) (source : Source) :
    c.response.Clean (c.copied source) := by
  unfold copied
  split
  · exact Response.clean_writeFrom _ source _
  · exact Response.clean_sendFrom _ source _

/-- Where no flush fails, the engine makes no difference to a copy. -/
theorem copied_of_flushes {c : Context} (h : c.response.sink.Flushes) (source : Source) :
    c.copied source = c.response.copy source c.router.config.bufferSize := by
  unfold copied
  split
  · rfl
  · exact Response.sendFrom_of_flushes h _ source

end Context

end HttpContext
