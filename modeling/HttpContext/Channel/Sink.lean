import HttpContext.Bytes
import HttpContext.Fault
/-!
A connection that bytes are written to. Each byte of a buffer goes out or meets a refusal; how many
of them one attempt takes makes no difference, since what is left is written again. So what a
connection answers to the attempts and the flushes of a run is known by the places in the stream of
bytes where it refuses one, by the flushes that fail, and with what. `Sink.wire` is everything it
accepted, `Sink.failures` every failure that ended a write or a flush, `Sink.interruptions` every
attempt that was interrupted and made again.
-/
namespace HttpContext

/-- What a sink does to bytes that it has no room for. -/
inductive Sink.Refusal
  | fault (fault : Fault)
  /-- accepts none of them and does not say why -/
  | zero
  deriving Repr, DecidableEq

structure Sink where
  /-- the accepted bytes, the latest first -/
  accepted : Bytes := []
  /-- the refusals to come after which the sink goes on: how many more bytes find room before each
  of them, and what it is -/
  refusals : List (Nat × Sink.Refusal) := []
  /-- how many more bytes find room after those; no bound when absent -/
  room : Option Nat := none
  /-- what becomes of all bytes beyond that room -/
  refusal : Sink.Refusal := .zero
  /-- the failures of flushes to come, each after so many flushes that succeed -/
  flushFaults : List (Nat × Fault) := []
  /-- the failure of every flush after those -/
  flushFault : Option Fault := none
  /-- the failures of writes and flushes so far, the latest first -/
  failures : List Fault := []
  /-- the attempts so far that were interrupted and made again, the latest first -/
  interruptions : List Fault := []
  deriving Repr, DecidableEq

namespace Sink

def wire (s : Sink) : Bytes := s.accepted.reverse

def accept (s : Sink) (bytes : Bytes) : Sink :=
  { s with accepted := bytes.reverse ++ s.accepted }

def fail (s : Sink) (fault : Fault) : Sink :=
  { s with failures := fault :: s.failures }

def interrupt (s : Sink) (fault : Fault) : Sink :=
  { s with interruptions := fault :: s.interruptions }

def Refusal.cause : Refusal → Fault
  | fault f => f
  | zero => .writeZero

/-- Offers one byte to a sink with these refusals to come. After an interruption it is offered
again. -/
def offerUpTo (b : UInt8) : List (Nat × Refusal) → Sink → Except Fault Unit × Sink
  | [], s =>
    match s.room with
    | none => (.ok (), s.accept [b])
    | some (n + 1) => (.ok (), { s.accept [b] with room := some n })
    | some 0 => (.error s.refusal.cause, s.fail s.refusal.cause)
  | (n + 1, refusal) :: rest, s => (.ok (), { s.accept [b] with refusals := (n, refusal) :: rest })
  | (0, refusal) :: rest, s =>
    if refusal.cause.isInterrupted then
      offerUpTo b rest ({ s with refusals := rest }.interrupt refusal.cause)
    else (.error refusal.cause, { s with refusals := rest }.fail refusal.cause)

def offer (s : Sink) (b : UInt8) : Except Fault Unit × Sink :=
  offerUpTo b s.refusals s

/-- Writes all the bytes, or as many as go out before one is refused. -/
def write (s : Sink) : Bytes → Except Fault Unit × Sink
  | [] => (.ok (), s)
  | b :: bs =>
    match s.offer b with
    | (.ok (), s) => s.write bs
    | (.error fault, s) => (.error fault, s)

def flush (s : Sink) : Except Fault Unit × Sink :=
  match s.flushFaults with
  | (0, fault) :: rest => (.error fault, { s with flushFaults := rest }.fail fault)
  | (n + 1, fault) :: rest => (.ok (), { s with flushFaults := (n, fault) :: rest })
  | [] =>
    match s.flushFault with
    | some fault => (.error fault, s.fail fault)
    | none => (.ok (), s)

@[simp] theorem wire_accept (s : Sink) (bytes : Bytes) :
    (s.accept bytes).wire = s.wire ++ bytes := by
  simp [wire, accept]

theorem accept_accept (s : Sink) (first second : Bytes) :
    (s.accept first).accept second = s.accept (first ++ second) := by
  simp [accept]

/-- No flush fails. -/
structure Flushes (s : Sink) : Prop where
  flushFaults : s.flushFaults = []
  flushFault : s.flushFault = none

/-- The flushes of the sinks give the same. -/
structure FlushesLike (s t : Sink) : Prop where
  flushFaults : s.flushFaults = t.flushFaults
  flushFault : s.flushFault = t.flushFault

variable {s t u : Sink}

theorem FlushesLike.trans (hst : FlushesLike s t) (htu : FlushesLike t u) : FlushesLike s u :=
  ⟨hst.flushFaults.trans htu.flushFaults, hst.flushFault.trans htu.flushFault⟩

theorem FlushesLike.flushes (h : FlushesLike s t) (ht : t.Flushes) : s.Flushes :=
  ⟨h.flushFaults.trans ht.flushFaults, h.flushFault.trans ht.flushFault⟩

theorem FlushesLike.fst_flush (h : FlushesLike s t) : s.flush.1 = t.flush.1 := by
  unfold flush
  rw [h.flushFaults, h.flushFault]
  split
  · rfl
  · rfl
  · split <;> rfl

/-- Every attempt that was made again had been interrupted. -/
def Resumes (s : Sink) : Prop := ∀ fault ∈ s.interruptions, fault.isInterrupted = true

/-! ### What a write does -/

/-- Bytes that go out leave the failures of the sink as they were. A write that fails stops short of
its end, and its failure is one of the sink. -/
inductive Wrote (s : Sink) (bytes : Bytes) : Except Fault Unit × Sink → Prop
  | all {t : Sink} (wire : t.wire = s.wire ++ bytes) (failures : t.failures = s.failures) :
      Wrote s bytes (.ok (), t)
  | front {t : Sink} {fault : Fault} {front : Bytes} (isPrefix : front <+: bytes)
      (length : front.length < bytes.length) (wire : t.wire = s.wire ++ front)
      (failures : t.failures = fault :: s.failures) : Wrote s bytes (.error fault, t)

theorem wrote_offerUpTo (b : UInt8) (refusals : List (Nat × Refusal)) (s : Sink) :
    Wrote s [b] (offerUpTo b refusals s) := by
  have hnone : s.wire = s.wire ++ [] := (List.append_nil _).symm
  fun_induction offerUpTo b refusals s with
  | case1 s => exact .all (wire_accept s [b]) rfl
  | case2 s => exact .all (wire_accept s [b]) rfl
  | case3 s => exact .front List.nil_prefix Nat.one_pos hnone rfl
  | case4 n refusal rest s => exact .all (wire_accept s [b]) rfl
  | case5 refusal rest s hi ih =>
    -- the byte is offered again to a sink with the same wire and failures
    have hagain := ih hnone
    generalize offerUpTo b rest _ = out at hagain
    cases hagain with
    | all wire failures => exact .all wire failures
    | front isPrefix length wire failures => exact .front isPrefix length wire failures
  | case6 => exact .front List.nil_prefix Nat.one_pos hnone rfl

theorem wire_offer_error {b : UInt8} {fault : Fault} (h : s.offer b = (.error fault, t)) :
    t.wire = s.wire ∧ t.failures = fault :: s.failures := by
  have hone : Wrote s [b] (s.offer b) := wrote_offerUpTo b s.refusals s
  rw [h] at hone
  cases hone with
  | front isPrefix length wire failures =>
    have hempty := List.length_eq_zero_iff.1 (Nat.lt_one_iff.1 length)
    rw [hempty, List.append_nil] at wire
    exact ⟨wire, failures⟩

theorem wrote_write (s : Sink) (bytes : Bytes) : Wrote s bytes (s.write bytes) := by
  fun_induction write s bytes with
  | case1 s => exact .all (List.append_nil _).symm rfl
  | case2 s b bs t ho ih =>
    have hone : Wrote s [b] (s.offer b) := wrote_offerUpTo b s.refusals s
    rw [ho] at hone
    cases hone with
    | all hwire hfailures =>
      generalize t.write bs = out at ih
      cases ih with
      | all wire failures =>
        refine .all ?_ (failures.trans hfailures)
        rw [wire, hwire, List.append_assoc]
        rfl
      | front isPrefix length wire failures =>
        refine .front ((List.prefix_cons_inj b).2 isPrefix) (Nat.succ_lt_succ length) ?_
          (failures.trans (congrArg _ hfailures))
        rw [wire, hwire, List.append_assoc]
        rfl
  | case3 s b bs fault t ho =>
    obtain ⟨wire, failures⟩ := wire_offer_error ho
    exact .front List.nil_prefix (Nat.succ_pos _) (wire.trans (List.append_nil _).symm) failures

/-- A write adds all its bytes to the wire or, when it fails, a front part of them. -/
theorem wire_write (s : Sink) (bytes : Bytes) :
    ∃ front, front <+: bytes ∧ (s.write bytes).2.wire = s.wire ++ front := by
  have h := s.wrote_write bytes
  generalize s.write bytes = out at h
  cases h with
  | all wire => exact ⟨bytes, List.prefix_refl _, wire⟩
  | front isPrefix _ wire => exact ⟨_, isPrefix, wire⟩

/-- A write that fails stops short of its end. -/
theorem wire_write_error {bytes : Bytes} {fault : Fault} (h : s.write bytes = (.error fault, t)) :
    ∃ front, front <+: bytes ∧ front.length < bytes.length ∧ t.wire = s.wire ++ front := by
  have hw := s.wrote_write bytes
  rw [h] at hw
  cases hw with
  | front isPrefix length wire => exact ⟨_, isPrefix, length, wire⟩

theorem wire_write_ok {bytes : Bytes} (h : s.write bytes = (.ok (), t)) :
    t.wire = s.wire ++ bytes := by
  have hw := s.wrote_write bytes
  rw [h] at hw
  cases hw with
  | all wire => exact wire

/-- A write adds its own failure to those of the sink. -/
theorem failures_write (s : Sink) (bytes : Bytes) :
    (s.write bytes).2.failures = (failure? (s.write bytes).1).toList ++ s.failures := by
  have h := s.wrote_write bytes
  generalize s.write bytes = out at h
  cases h with
  | all _ failures => exact failures
  | front _ _ _ failures => exact failures

theorem write_nil (s : Sink) : s.write [] = (.ok (), s) := rfl

/-- What every byte that is offered keeps, a write keeps. -/
theorem write_induction {P : Sink → Prop} (ho : ∀ s b, P s → P (s.offer b).2) (h : P s)
    (bytes : Bytes) : P (s.write bytes).2 := by
  fun_induction write s bytes with
  | case1 => exact h
  | case2 s b bs t hoffer ih =>
    have hkept := ho s b h
    rw [hoffer] at hkept
    exact ih hkept
  | case3 s b bs fault t hoffer =>
    have hkept := ho s b h
    rwa [hoffer] at hkept

theorem flushesLike_offerUpTo (b : UInt8) (refusals : List (Nat × Refusal)) (s : Sink) :
    FlushesLike (offerUpTo b refusals s).2 s := by
  fun_induction offerUpTo b refusals s with
  | case5 refusal rest s hi ih => exact ih.trans ⟨rfl, rfl⟩
  | _ => exact ⟨rfl, rfl⟩

theorem flushesLike_write (s : Sink) (bytes : Bytes) : FlushesLike (s.write bytes).2 s :=
  write_induction (P := fun t => FlushesLike t s)
    (fun t b ht => (flushesLike_offerUpTo b t.refusals t).trans ht) ⟨rfl, rfl⟩ bytes

theorem Resumes.offerUpTo (b : UInt8) (refusals : List (Nat × Refusal)) (h : s.Resumes) :
    (offerUpTo b refusals s).2.Resumes := by
  fun_induction Sink.offerUpTo b refusals s with
  | case5 refusal rest s hi ih => exact ih (List.forall_mem_cons.2 ⟨hi, h⟩)
  | _ => exact h

theorem Resumes.write (h : s.Resumes) (bytes : Bytes) : (s.write bytes).2.Resumes :=
  write_induction (fun t b ht => ht.offerUpTo b t.refusals) h bytes

/-! ### What a flush does -/

theorem flush_of_flushes (h : s.Flushes) : s.flush = (.ok (), s) := by
  simp only [flush, h.flushFaults, h.flushFault]

theorem flushes_flush (h : s.Flushes) : s.flush.2.Flushes := by
  rw [flush_of_flushes h]
  exact h

/-- Whether it fails or not, a flush is one of those to come less, and its failure is one of the
sink. -/
theorem flush_cases (s : Sink) :
    (∃ flushFaults, s.flush = (.ok (), { s with flushFaults }))
      ∨ ∃ flushFaults fault, s.flush = (.error fault, { s with flushFaults }.fail fault) := by
  unfold flush
  split
  · exact .inr ⟨_, _, rfl⟩
  · exact .inl ⟨_, rfl⟩
  · split
    · exact .inr ⟨s.flushFaults, _, rfl⟩
    · exact .inl ⟨s.flushFaults, rfl⟩

@[simp] theorem wire_flush (s : Sink) : s.flush.2.wire = s.wire := by
  obtain ⟨_, h⟩ | ⟨_, _, h⟩ := s.flush_cases <;> rw [h] <;> rfl

theorem failures_flush (s : Sink) :
    s.flush.2.failures = (failure? s.flush.1).toList ++ s.failures := by
  obtain ⟨_, h⟩ | ⟨_, _, h⟩ := s.flush_cases <;> rw [h] <;> rfl

theorem Resumes.flush (hs : s.Resumes) : s.flush.2.Resumes := by
  obtain ⟨_, h⟩ | ⟨_, _, h⟩ := s.flush_cases <;> rw [h] <;> exact hs

/-! ### Sinks that never fail -/

/-- The sink takes whatever it is given. -/
structure IsSound (s : Sink) : Prop where
  refusals : s.refusals = []
  room : s.room = none
  flushes : s.Flushes

theorem IsSound.accept (h : s.IsSound) (bytes : Bytes) : (s.accept bytes).IsSound :=
  ⟨h.refusals, h.room, h.flushes.flushFaults, h.flushes.flushFault⟩

theorem IsSound.write (h : s.IsSound) (bytes : Bytes) :
    s.write bytes = (.ok (), s.accept bytes) := by
  induction bytes generalizing s with
  | nil => rfl
  | cons b bs ih =>
    have hoffer : s.offer b = (.ok (), s.accept [b]) := by
      simp only [offer, h.refusals, offerUpTo, h.room]
    rw [Sink.write, hoffer]
    exact (ih (h.accept [b])).trans (congrArg _ (accept_accept s [b] bs))

-- a comparison of two responses need not look into what they write
attribute [irreducible] write

end Sink

end HttpContext
