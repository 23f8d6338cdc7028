import HttpContext.Exchange.Response
/-!
What writing to a response leaves alone, and what it adds to the failures of the sink: nothing as
long as it succeeds. A close adds exactly the failure that it reports.
-/
namespace HttpContext.Response

/-! ### Two writes in a row -/

/-- A transitive relation that both writes keep is kept by the two of them. -/
theorem andThen_rel {P : Response → Response → Prop} (ht : ∀ {r s t}, P r s → P s t → P r t)
    {r : Response} {out : Except Fault Unit × Response}
    {next : Response → Except Fault Unit × Response} (ho : P r out.2)
    (hn : ∀ s, P s (next s).2) : P r (andThen out next).2 := by
  -- after a failure the second write is not made
  rcases out with ⟨fault | _, s⟩
  · exact ho
  · exact ht ho (hn s)

/-! ### What no write changes -/

/-- `s` is `r` after some edits and writes. They do not close it, take nothing back that allows
writes, leave a sound sink sound and one whose flushes succeed like that, make no attempt again that
was not interrupted, take nothing off the wire, and put nothing on it that does not follow the head. -/
structure Continues (r s : Response) : Prop where
  engine : s.engine = r.engine
  isClosed : s.isClosed = r.isClosed
  isBlocking : r.isBlocking = true → s.isBlocking = true
  isSound : r.sink.IsSound → s.sink.IsSound
  flushes : r.sink.Flushes → s.sink.Flushes
  resumes : r.sink.Resumes → s.sink.Resumes
  grows : r.wire <+: s.wire
  wire : s.isCommitted = false → r.isCommitted = false ∧ s.wire = r.wire

theorem Continues.refl (r : Response) : Continues r r :=
  ⟨rfl, rfl, id, id, id, id, List.prefix_refl _, fun h => ⟨h, rfl⟩⟩

theorem Continues.trans {r s t : Response} (hrs : Continues r s) (hst : Continues s t) :
    Continues r t where
  engine := hst.engine.trans hrs.engine
  isClosed := hst.isClosed.trans hrs.isClosed
  isBlocking := fun h => hst.isBlocking (hrs.isBlocking h)
  isSound := fun h => hst.isSound (hrs.isSound h)
  flushes := fun h => hst.flushes (hrs.flushes h)
  resumes := fun h => hst.resumes (hrs.resumes h)
  grows := hrs.grows.trans hst.grows
  wire := fun h => by
    obtain ⟨hs, hwire⟩ := hst.wire h
    obtain ⟨hr, hwire'⟩ := hrs.wire hs
    exact ⟨hr, hwire.trans hwire'⟩

/-- A head that is out stays out. -/
theorem Continues.isCommitted {r s : Response} (h : Continues r s) (hr : r.isCommitted = true) :
    s.isCommitted = true := by
  cases hs : s.isCommitted with
  | true => rfl
  | false =>
    obtain ⟨hr', _⟩ := h.wire hs
    rw [hr] at hr'
    cases hr'

/-- What is said about a response before it is written. -/
theorem Continues.of_edit {r s : Response} (hengine : s.engine = r.engine)
    (hclosed : s.isClosed = r.isClosed) (hblocking : r.isBlocking = true → s.isBlocking = true)
    (hsink : s.sink = r.sink) (hcommitted : s.isCommitted = r.isCommitted) : Continues r s where
  engine := hengine
  isClosed := hclosed
  isBlocking := hblocking
  isSound := fun h => hsink ▸ h
  flushes := fun h => hsink ▸ h
  resumes := fun h => hsink ▸ h
  grows := ⟨[], (List.append_nil _).trans (congrArg Sink.wire hsink).symm⟩
  wire := fun h => ⟨hcommitted ▸ h, congrArg Sink.wire hsink⟩

/-- A response that has been committed may be written to. -/
theorem continues_put {r : Response} (h : r.isCommitted = true) (bytes : Bytes) :
    Continues r (r.put bytes).2 := by
  refine ⟨rfl, rfl, id, fun hs => ?_, (r.sink.flushesLike_write bytes).flushes,
    fun hs => hs.write bytes, ?_, fun hc => ?_⟩
  · have hw : (r.put bytes).2.sink = (r.sink.write bytes).2 := rfl
    rw [hw, hs.write]
    exact hs.accept bytes
  · obtain ⟨front, _, hwire⟩ := r.sink.wire_write bytes
    exact ⟨front, hwire.symm⟩
  · have hr : r.isCommitted = false := hc
    rw [h] at hr
    cases hr

theorem continues_flushSink (r : Response) : Continues r r.flushSink.2 := by
  have hf : r.flushSink.2.sink = r.sink.flush.2 := rfl
  have hwire : r.flushSink.2.wire = r.wire := by simp only [wire, hf, Sink.wire_flush]
  have hgrows : r.wire <+: r.flushSink.2.wire := ⟨[], (List.append_nil _).trans hwire.symm⟩
  refine ⟨rfl, rfl, id, fun hs => ?_, Sink.flushes_flush, fun hs => hs.flush, hgrows,
    fun hc => ⟨hc, hwire⟩⟩
  rw [hf, Sink.flush_of_flushes hs.flushes]
  exact hs

theorem continues_commit (r : Response) : Continues r r.commit.2 := by
  unfold commit
  split
  · exact .refl r
  · let marked := { r with isCommitted := true }
    have hp : Continues marked (marked.put r.head.encode).2 := continues_put rfl _
    have hcommitted := hp.isCommitted rfl
    refine ⟨hp.engine, hp.isClosed, hp.isBlocking, hp.isSound, hp.flushes, hp.resumes, hp.grows,
      fun hc => ?_⟩
    cases hcommitted.symm.trans hc

theorem isCommitted_commit (r : Response) : r.commit.2.isCommitted = true := by
  unfold commit
  split
  · assumption
  · rfl

/-- What is written after the head. -/
theorem continues_commit_andThen (r : Response) {next : Response → Except Fault Unit × Response}
    (hn : ∀ s, s.isCommitted = true → Continues s (next s).2) :
    Continues r (andThen r.commit next).2 := by
  have hc := continues_commit r
  have hcommitted := isCommitted_commit r
  rcases h : r.commit with ⟨fault | _, s⟩ <;> rw [h] at hc hcommitted
  · exact hc
  · exact hc.trans (hn s hcommitted)

theorem continues_writePiece (r : Response) (data : Bytes) :
    Continues r (r.writePiece data).2 := by
  unfold writePiece
  split
  · exact .refl r
  · exact continues_commit_andThen r fun s hs => continues_put hs _

theorem continues_flush (r : Response) : Continues r r.flush.2 :=
  continues_commit_andThen r fun s _ => continues_flushSink s

theorem continues_write (r : Response) (data : Bytes) : Continues r (r.write data).2 := by
  unfold write
  split
  · exact .refl r
  · split
    · exact .refl r
    · exact continues_writePiece r data

theorem continues_writeAll (r : Response) (data : Bytes) : Continues r (r.writeAll data).2 := by
  unfold writeAll
  split
  · exact .refl r
  · exact continues_write r data

theorem continues_send (r : Response) (data : Bytes) : Continues r (r.send data).2 :=
  andThen_rel .trans (continues_writePiece r data) continues_flushSink

theorem continues_writeFrom (size : Nat) (source : Source) (r : Response) :
    Continues r (writeFrom size source r).2 := by
  fun_induction writeFrom size source r with
  | case1 => exact .refl _
  | case2 => exact continues_flushSink _
  | case3 source r b bs rest hf ih => exact andThen_rel .trans (continues_writePiece r _) ih

theorem continues_finish (r : Response) : Continues r r.finish.2 := by
  refine continues_commit_andThen r fun s hs => ?_
  split
  · exact continues_put hs _
  · exact .refl s

/-- Whatever comes of a close, the response is closed after it. -/
theorem isClosed_close (r : Response) (aborted : Bool) : (r.close aborted).2.isClosed = true := by
  unfold close
  split
  · assumption
  · split
    · exact (continues_flushSink _).isClosed
    · -- the flag is set before the head is written, so a failing write leaves it set
      have hs : { r with isClosed := true }.settleLength.isClosed = true := by
        unfold settleLength
        split <;> rfl
      have hc := andThen_rel .trans (continues_finish { r with isClosed := true }.settleLength)
        continues_flushSink
      exact hc.isClosed.trans hs

/-- Nor does a close make an attempt again that was not interrupted. -/
theorem resumes_close {r : Response} (h : r.sink.Resumes) (aborted : Bool) :
    (r.close aborted).2.sink.Resumes := by
  unfold close
  split
  · exact h
  · split
    · exact (continues_flushSink _).resumes h
    · have hs : { r with isClosed := true }.settleLength.sink = r.sink := by
        unfold settleLength
        split <;> rfl
      have hc := andThen_rel .trans (continues_finish { r with isClosed := true }.settleLength)
        continues_flushSink
      exact hc.resumes (hs.symm ▸ h)

/-! ### Failures of the sink -/

/-- What is reported of the writes is what the sink has failed with. -/
def Reports (r : Response) (out : Except Fault Unit × Response) : Prop :=
  out.2.sink.failures = (failure? out.1).toList ++ r.sink.failures

theorem Reports.andThen {r : Response} {out : Except Fault Unit × Response}
    {next : Response → Except Fault Unit × Response} (ho : Reports r out)
    (hn : ∀ s, Reports s (next s)) : Reports r (andThen out next) := by
  rcases out with ⟨fault | _, s⟩
  · exact ho
  · have hs : s.sink.failures = r.sink.failures := ho
    have h := hn s
    unfold Reports at h ⊢
    rw [hs] at h
    exact h

theorem reports_put (r : Response) (bytes : Bytes) : Reports r (r.put bytes) :=
  r.sink.failures_write bytes

theorem reports_flushSink (r : Response) : Reports r r.flushSink := r.sink.failures_flush

theorem reports_commit (r : Response) : Reports r r.commit := by
  unfold commit
  split
  · rfl
  · exact reports_put _ _

theorem reports_finish (r : Response) : Reports r r.finish := by
  refine (reports_commit r).andThen fun s => ?_
  split
  · exact reports_put s _
  · rfl

@[simp] theorem sink_settleLength (r : Response) : r.settleLength.sink = r.sink := by
  unfold settleLength
  split <;> rfl

/-- A close fails exactly when the sink does. -/
theorem reports_close (r : Response) (aborted : Bool) : Reports r (r.close aborted) := by
  unfold close
  split
  · rfl
  · split
    · exact reports_flushSink _
    · have hf := (reports_finish { r with isClosed := true }.settleLength).andThen reports_flushSink
      unfold Reports at hf ⊢
      simpa only [sink_settleLength] using hf

/-- Writes that succeed meet no failure of the sink. -/
def Clean (r : Response) (out : Except Fault Unit × Response) : Prop :=
  out.1 = .ok () → out.2.sink.failures = r.sink.failures

theorem Reports.clean {r : Response} {out : Except Fault Unit × Response} (h : Reports r out) :
    Clean r out := by
  intro hok
  unfold Reports at h
  rw [h, hok]
  rfl

theorem Clean.andThen {r : Response} {out : Except Fault Unit × Response}
    {next : Response → Except Fault Unit × Response} (ho : Clean r out)
    (hn : ∀ s, Clean s (next s)) : Clean r (andThen out next) := by
  rcases out with ⟨fault | _, s⟩
  · exact ho
  · intro hok
    exact (hn s hok).trans (ho rfl)

theorem clean_writePiece (r : Response) (data : Bytes) : Clean r (r.writePiece data) := by
  unfold writePiece
  split
  · intro h
    cases h
  · exact (reports_commit r).clean.andThen fun s => (reports_put s _).clean

theorem clean_send (r : Response) (data : Bytes) : Clean r (r.send data) :=
  (clean_writePiece r data).andThen fun s => (reports_flushSink s).clean

theorem clean_writeFrom (size : Nat) (source : Source) (r : Response) :
    Clean r (writeFrom size source r) := by
  fun_induction writeFrom size source r with
  | case1 =>
    intro h
    cases h
  | case2 => exact (reports_flushSink _).clean
  | case3 source r b bs rest hf ih => exact (clean_writePiece r _).andThen ih

end HttpContext.Response
