import HttpContext.Channel.Sink
/-!
Connections that answer attempt by attempt. A write offers its bytes again and again until they are
all taken or an attempt is refused; the connection takes some of them, or refuses, each time as it
likes. Whatever it answers to the attempts and flushes of a run, there is a sink that answers the
run in the same way. Main statement: `Sink.exists_of_answers`.
-/
namespace HttpContext.Sink

/-- The answer to one attempt. -/
inductive Answer
  /-- takes the first byte, and at most so many more -/
  | takes (more : Nat)
  | refuses (refusal : Refusal)
  deriving Repr, DecidableEq

/-- Attempts to write all the bytes, as long as none is refused; one that is interrupted is made
again. What becomes of the write, the bytes that were taken, and the answers that are left, behind
which every attempt takes everything. -/
def attempts : List Answer → Bytes → Except Fault Unit × Bytes × List Answer
  | answers, [] => (.ok (), [], answers)
  | [], b :: bs => (.ok (), b :: bs, [])
  | .takes more :: rest, b :: bs =>
    let (result, front, left) := attempts rest (bs.drop more)
    (result, b :: bs.take more ++ front, left)
  | .refuses refusal :: rest, b :: bs =>
    if refusal.cause.isInterrupted then attempts rest (b :: bs)
    else (.error refusal.cause, [], rest)

/-- What comes of writes and, where there is nothing to write, flushes: the result of each and the
bytes that were taken. Behind the last answer every flush succeeds. -/
def answered : List Answer → List (Option Fault) → List (Option Bytes) →
    List (Except Fault Unit × Bytes)
  | _, _, [] => []
  | answers, flushes, some bytes :: uses =>
    let (result, front, left) := attempts answers bytes
    (result, front) :: answered left flushes uses
  | answers, [], none :: uses => (.ok (), []) :: answered answers [] uses
  | answers, none :: flushes, none :: uses => (.ok (), []) :: answered answers flushes uses
  | answers, some fault :: flushes, none :: uses =>
    (.error fault, []) :: answered answers flushes uses

/-- The same of a sink. -/
def used (s : Sink) : List (Option Bytes) → List (Except Fault Unit × Bytes)
  | [] => []
  | some bytes :: uses =>
    ((s.write bytes).1, (s.write bytes).2.wire.drop s.wire.length) :: (s.write bytes).2.used uses
  | none :: uses => (s.flush.1, []) :: s.flush.2.used uses

/-- Puts off what comes first. -/
def delay {α : Type} (k : Nat) : List (Nat × α) → List (Nat × α)
  | [] => []
  | (n, a) :: rest => (n + k, a) :: rest

variable {s : Sink}

/-- A refusal that is put off lets the front of the bytes pass. -/
theorem write_of_delay {front : Bytes} {refusals : List (Nat × Refusal)}
    (hr : s.refusals = delay front.length refusals) (hroom : s.room = none) (back : Bytes) :
    s.write (front ++ back) = { s.accept front with refusals }.write back := by
  induction front generalizing s with
  | nil =>
    have hsame : delay 0 refusals = refusals := by cases refusals <;> rfl
    obtain rfl : s.refusals = refusals := hr.trans hsame
    rfl
  | cons b front ih =>
    let t : Sink := { s.accept [b] with refusals := delay front.length refusals }
    have hoffer : s.offer b = (.ok (), t) := by
      cases refusals with
      | nil =>
        have hnone : s.refusals = [] := hr
        have ht : s.accept [b] = t := by
          simp only [t, delay, ← hnone]
          rfl
        rw [offer, hnone, offerUpTo, hroom, ← ht]
      | cons first rest =>
        rw [offer, hr]
        rfl
    have hfront : ({ t.accept front with refusals } : Sink)
        = { s.accept (b :: front) with refusals } := by
      simp [t, accept]
    rw [List.cons_append, write, hoffer, ← hfront]
    exact ih (s := t) rfl hroom

/-- A failure that is put off lets one flush succeed. -/
theorem flush_of_delay {flushFaults : List (Nat × Fault)} (hff : s.flushFaults = delay 1 flushFaults)
    (hf : s.flushFault = none) : s.flush = (.ok (), { s with flushFaults }) := by
  cases flushFaults with
  | nil =>
    have hnone : s.flushFaults = [] := hff
    have hs : s = { s with flushFaults := [] } := by rw [← hnone]
    rw [flush_of_flushes ⟨hnone, hf⟩]
    exact congrArg _ hs
  | cons first rest =>
    rw [flush, hff]
    rfl

/-- A write whose attempts have these answers is one of a sink, which then has any refusals that are
wanted of it. -/
theorem exists_write (answers : List Answer) (bytes : Bytes) (later : List (Nat × Refusal)) :
    ∃ refusals, ∀ s : Sink, s.refusals = refusals → s.room = none →
      (s.write bytes).1 = (attempts answers bytes).1
        ∧ (s.write bytes).2.wire = s.wire ++ (attempts answers bytes).2.1
        ∧ (s.write bytes).2.refusals = later ∧ (s.write bytes).2.room = none := by
  fun_induction attempts answers bytes with
  | case1 answers =>
    refine ⟨later, fun s hr hroom => ?_⟩
    rw [write_nil]
    exact ⟨rfl, (List.append_nil _).symm, hr, hroom⟩
  | case2 b bs =>
    refine ⟨delay (b :: bs).length later, fun s hr hroom => ?_⟩
    have hwrite := write_of_delay hr hroom []
    rw [List.append_nil, write_nil] at hwrite
    rw [hwrite]
    exact ⟨rfl, wire_accept s _, rfl, hroom⟩
  | case3 more rest b bs result front left hrest ih =>
    obtain ⟨refusals, hrefusals⟩ := ih
    refine ⟨delay (b :: bs.take more).length refusals, fun s hr hroom => ?_⟩
    have hwrite := write_of_delay hr hroom (bs.drop more)
    rw [List.cons_append, List.take_append_drop] at hwrite
    obtain ⟨hresult, hwire, hlater, hopen⟩ :=
      hrefusals { s.accept (b :: bs.take more) with refusals } rfl hroom
    rw [hrest] at hresult hwire
    rw [hwrite]
    refine ⟨hresult, ?_, hlater, hopen⟩
    have haccept : ({ s.accept (b :: bs.take more) with refusals } : Sink).wire
        = s.wire ++ b :: bs.take more := wire_accept s _
    rw [hwire, haccept, List.append_assoc]
  | case4 refusal rest b bs hi ih =>
    obtain ⟨refusals, hrefusals⟩ := ih
    refine ⟨(0, refusal) :: refusals, fun s hr hroom => ?_⟩
    let t : Sink := { s with refusals }.interrupt refusal.cause
    -- the byte is offered to what the interruption has left of the sink
    have hoffer : s.offer b = t.offer b := by
      rw [offer, hr, offerUpTo, if_pos hi]
      rfl
    have hwrite : s.write (b :: bs) = t.write (b :: bs) := by
      rw [write, write, hoffer]
    rw [hwrite]
    exact hrefusals t rfl hroom
  | case5 refusal rest b bs hi =>
    refine ⟨(0, refusal) :: later, fun s hr hroom => ?_⟩
    have hoffer : s.offer b
        = (.error refusal.cause, { s with refusals := later }.fail refusal.cause) := by
      rw [offer, hr, offerUpTo, if_neg hi]
    rw [write, hoffer]
    exact ⟨rfl, (List.append_nil _).symm, rfl, hroom⟩

/-- Whatever a connection answers to the attempts and flushes of a run, a sink answers the same. -/
theorem exists_of_answers (answers : List Answer) (flushes : List (Option Fault))
    (uses : List (Option Bytes)) :
    ∃ refusals flushFaults, ∀ s : Sink, s.refusals = refusals → s.room = none →
      s.flushFaults = flushFaults → s.flushFault = none →
        s.used uses = answered answers flushes uses := by
  fun_induction answered answers flushes uses with
  | case1 => exact ⟨[], [], fun s _ _ _ _ => rfl⟩
  | case2 answers flushes bytes uses result front left hattempts ih =>
    obtain ⟨later, flushFaults, hlater⟩ := ih
    obtain ⟨refusals, hrefusals⟩ := exists_write answers bytes later
    refine ⟨refusals, flushFaults, fun s hr hroom hff hf => ?_⟩
    obtain ⟨hresult, hwire, hrest, hopen⟩ := hrefusals s hr hroom
    obtain ⟨hfaults, hfault⟩ := s.flushesLike_write bytes
    rw [hattempts] at hresult hwire
    rw [used, hresult, hwire, List.drop_left,
      hlater _ hrest hopen (hfaults.trans hff) (hfault.trans hf)]
  | case3 answers uses ih =>
    obtain ⟨refusals, flushFaults, hlater⟩ := ih
    refine ⟨refusals, delay 1 flushFaults, fun s hr hroom hff hf => ?_⟩
    rw [used, flush_of_delay hff hf]
    exact congrArg _ (hlater { s with flushFaults } hr hroom rfl hf)
  | case4 answers flushes uses ih =>
    obtain ⟨refusals, flushFaults, hlater⟩ := ih
    refine ⟨refusals, delay 1 flushFaults, fun s hr hroom hff hf => ?_⟩
    rw [used, flush_of_delay hff hf]
    exact congrArg _ (hlater { s with flushFaults } hr hroom rfl hf)
  | case5 answers fault flushes uses ih =>
    obtain ⟨refusals, flushFaults, hlater⟩ := ih
    refine ⟨refusals, (0, fault) :: flushFaults, fun s hr hroom hff hf => ?_⟩
    have hflush : s.flush = (.error fault, { s with flushFaults }.fail fault) := by
      rw [flush, hff]
    rw [used, hflush]
    exact congrArg _ (hlater ({ s with flushFaults }.fail fault) hr hroom rfl hf)

end HttpContext.Sink
