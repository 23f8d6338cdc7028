import HttpContext.Proofs.Reception
/-!
A request that is refused stays refused. A parser that has refused a head gives the same cause at
every later feed until it is reset, and a parser that is reset is a new one.
-/
namespace HttpContext

/-- A parser, by what can be done to it and what can be seen of it. -/
structure Reader (σ : Type) where
  start : σ
  feed : σ → Bytes → Except Error Bool × σ
  reset : σ → σ
  isComplete : σ → Bool
  request : σ → Except Error RequestMessage

namespace Reader

inductive Move
  | feed (data : Bytes)
  | reset

variable {σ τ : Type}

def move (r : Reader σ) (s : σ) : Move → σ
  | .feed data => (r.feed s data).2
  | .reset => r.reset s

/-- What a new parser has become after these moves, whatever the feeds were answered. -/
def run (r : Reader σ) (moves : List Move) : σ :=
  moves.foldl r.move r.start

def feeds (r : Reader σ) (s : σ) (pieces : List Bytes) : σ :=
  pieces.foldl (fun s piece => (r.feed s piece).2) s

/-- Nothing but a reset gets a parser out of a refusal, and nothing of an earlier request is left
after a reset or after a request that is complete. -/
structure IsFinal (r : Reader σ) : Prop where
  refused : ∀ moves data cause, (r.feed (r.run moves) data).1 = .error cause →
    ∀ later, let s := r.feeds (r.feed (r.run moves) data).2 later
      (∀ more, (r.feed s more).1 = .error cause) ∧ r.isComplete s = false
        ∧ r.request s = .error (.request .incomplete)
  reset : ∀ moves, r.reset (r.run moves) = r.start
  complete : ∀ moves, r.isComplete (r.run moves) = true →
    ∀ data, r.feed (r.run moves) data = r.feed r.start data

/-- After the same moves nothing tells the parsers apart. -/
structure Agrees (r : Reader σ) (q : Reader τ) : Prop where
  feed : ∀ moves data, (r.feed (r.run moves) data).1 = (q.feed (q.run moves) data).1
  isComplete : ∀ moves, r.isComplete (r.run moves) = q.isComplete (q.run moves)
  request : ∀ moves, r.request (r.run moves) = q.request (q.run moves)

/-- A relation of the states of two parsers in which related states look alike and stay related. -/
structure Matches (R : σ → τ → Prop) (r : Reader σ) (q : Reader τ) : Prop where
  start : R r.start q.start
  feed : ∀ {s t}, R s t → ∀ data,
    (r.feed s data).1 = (q.feed t data).1 ∧ R (r.feed s data).2 (q.feed t data).2
  reset : ∀ {s t}, R s t → R (r.reset s) (q.reset t)
  isComplete : ∀ {s t}, R s t → r.isComplete s = q.isComplete t
  request : ∀ {s t}, R s t → r.request s = q.request t

variable {R : σ → τ → Prop} {r : Reader σ} {q : Reader τ}

theorem Matches.run (h : Matches R r q) (moves : List Move) : R (r.run moves) (q.run moves) := by
  refine List.foldl_rel h.start fun move _ s t hst => ?_
  cases move with
  | feed data => exact (h.feed hst data).2
  | reset => exact h.reset hst

theorem Matches.agrees (h : Matches R r q) : Agrees r q where
  feed moves data := (h.feed (h.run moves) data).1
  isComplete moves := h.isComplete (h.run moves)
  request moves := h.request (h.run moves)

/-- What holds of a new parser and is kept by every move holds after any moves. -/
theorem run_induction {P : σ → Prop} (start : P r.start)
    (feed : ∀ s data, P s → P (r.feed s data).2) (reset : ∀ s, P s → P (r.reset s))
    (moves : List Move) : P (r.run moves) := by
  refine List.foldlRecOn moves r.move start fun s hs move _ => ?_
  cases move with
  | feed data => exact feed s data hs
  | reset => exact reset s hs

theorem feeds_induction {P : σ → Prop} {s : σ} (start : P s)
    (feed : ∀ s data, P s → P (r.feed s data).2) (pieces : List Bytes) : P (r.feeds s pieces) :=
  List.foldlRecOn pieces _ start fun s hs piece _ => feed s piece hs

/-- A complete parser that starts afresh at the next feed does what a new one does. -/
theorem feed_of_isComplete (hreset : ∀ moves, r.reset (r.run moves) = r.start)
    (hfresh : ∀ s data, r.isComplete s = true → r.feed (r.reset s) data = r.feed s data)
    (moves : List Move) (h : r.isComplete (r.run moves) = true) (data : Bytes) :
    r.feed (r.run moves) data = r.feed r.start data := by
  rw [← hfresh _ _ h, hreset]

/-- A parser that cannot be told from a final one refuses for good too. -/
theorem Agrees.refused (h : Agrees r q) (hq : IsFinal q) {moves : List Move} {data : Bytes}
    {cause : Error} (hr : (r.feed (r.run moves) data).1 = .error cause) (later : List Bytes) :
    let s := r.feeds (r.feed (r.run moves) data).2 later
    (∀ more, (r.feed s more).1 = .error cause) ∧ r.isComplete s = false
      ∧ r.request s = .error (.request .incomplete) := by
  -- the feeds are moves too, so that both parsers have made the same ones
  have hrun : ∀ {σ : Type} (r : Reader σ), r.feeds (r.feed (r.run moves) data).2 later
      = r.run (moves ++ .feed data :: later.map .feed) := by
    intro σ r
    simp only [run, feeds, List.foldl_append, List.foldl_cons, List.foldl_map, move]
  have hfinal := hq.refused moves data cause (by rw [← h.feed]; exact hr) later
  simp only [hrun, ← h.feed, ← h.isComplete, ← h.request] at hfinal ⊢
  exact hfinal

end Reader

namespace Parser

def reader (limit : Nat) : Reader Parser :=
  { start := { limit }, feed, reset, isComplete, request }

/-! ### A refused head -/

/-- A head is refused for what it says alone, and then the parser keeps its bytes. -/
theorem takeHead_eq (p : Parser) (head rest : Bytes) :
    match readHead p.limit head with
    | .error cause => ∃ stage, (stage = p.stage ∨ stage = .headers)
        ∧ p.takeHead head rest = (.error cause, { p with stage })
    | .ok (request, length) => p.takeHead head rest
        = (.ok (decide (length ≤ rest.length)), p.takeBody request length rest) := by
  unfold takeHead readHead
  cases Utf8.decode head with
  | error malformed => exact ⟨p.stage, .inl rfl, rfl⟩
  | ok text =>
    simp only
    cases RequestHead.requestLine ((Text.lines text.toList).headD []) with
    | error cause => exact ⟨p.stage, .inl rfl, rfl⟩
    | ok line =>
      obtain ⟨method, target, version⟩ := line
      simp only
      cases readHeaders p.limit method target version (Text.lines text.toList).tail with
      | error cause => exact ⟨.headers, .inr rfl, rfl⟩
      | ok announced =>
        obtain ⟨request, length⟩ := announced
        exact Prod.ext (congrArg Except.ok (isComplete_takeBody p request length rest)) rfl

/-- The head has come, and it is refused. -/
structure HasRefused (p : Parser) (cause : Error) : Prop where
  stage : p.stage = .requestLine ∨ p.stage = .headers
  head : ∃ head rest, Bytes.cutAt? Bytes.blankLine p.received = some (head, rest)
    ∧ readHead p.limit head = .error cause

variable {p : Parser} {cause : Error}

theorem feed_fresh (p : Parser) (data : Bytes) : p.fresh.feed data = p.feed data := by
  have h := p.isComplete_fresh
  unfold fresh at h ⊢
  simp only [feed, h, Bool.false_eq_true, ↓reduceIte]

theorem AwaitsHead.stage (hp : p.AwaitsHead) :
    p.fresh.stage = .requestLine ∨ p.fresh.stage = .headers := by
  have hfresh := p.isComplete_fresh
  cases hs : p.fresh.stage with
  | requestLine => exact .inl rfl
  | headers => exact .inr rfl
  | body head length => exact absurd hs (hp head length)
  | complete request =>
    simp only [isComplete, hs] at hfresh
    cases hfresh

theorem not_isComplete_of_stage (h : p.stage = .requestLine ∨ p.stage = .headers) :
    p.isComplete = false := by
  rcases h with h | h <;> simp only [isComplete, h]

theorem awaitsHead_of_stage (h : p.stage = .requestLine ∨ p.stage = .headers) : p.AwaitsHead := by
  intro head length
  rw [fresh_of_not_isComplete (not_isComplete_of_stage h)]
  rcases h with h | h <;> rw [h] <;> nofun

/-- The feed with which a bad head comes leaves the head where the next one finds it. -/
theorem feed_of_readHead_error (hp : p.AwaitsHead) {data head rest : Bytes}
    (hc : Bytes.cutAt? Bytes.blankLine (p.fresh.received ++ data) = some (head, rest))
    (hr : readHead p.fresh.limit head = .error cause) :
    (p.feed data).1 = .error cause ∧ (p.feed data).2.HasRefused cause := by
  have htake := takeHead_eq { p.fresh with received := p.fresh.received ++ data } head rest
  rw [hr] at htake
  obtain ⟨stage, hstage, htake⟩ := htake
  rw [feed_of_cutAt?_some hp hc, htake]
  refine ⟨rfl, ⟨?_, head, rest, hc, hr⟩⟩
  rcases hstage with rfl | rfl
  · exact hp.stage
  · exact .inr rfl

theorem HasRefused.feed (h : p.HasRefused cause) (data : Bytes) :
    (p.feed data).1 = .error cause ∧ (p.feed data).2.HasRefused cause := by
  obtain ⟨head, rest, hc, hr⟩ := h.head
  have hfresh : p.fresh = p := fresh_of_not_isComplete (not_isComplete_of_stage h.stage)
  have hmore : Bytes.cutAt? Bytes.blankLine (p.fresh.received ++ data)
      = some (head, rest ++ data) := by
    rw [hfresh]
    exact Bytes.cutAt?_append hc data
  refine feed_of_readHead_error (awaitsHead_of_stage h.stage) hmore ?_
  rw [hfresh]
  exact hr

/-- A feed fails only where a bad head has come. -/
theorem hasRefused_of_feed {data : Bytes} (h : (p.feed data).1 = .error cause) :
    (p.feed data).2.HasRefused cause := by
  by_cases hp : p.AwaitsHead
  · cases hc : Bytes.cutAt? Bytes.blankLine (p.fresh.received ++ data) with
    | none =>
      rw [feed_of_cutAt?_none hp hc] at h
      cases h
    | some cut =>
      obtain ⟨head, rest⟩ := cut
      cases hr : readHead p.fresh.limit head with
      | error reason =>
        obtain ⟨hanswer, hrefused⟩ := feed_of_readHead_error hp hc hr
        rw [hanswer] at h
        cases h
        exact hrefused
      | ok announced =>
        have htake := takeHead_eq { p.fresh with received := p.fresh.received ++ data } head rest
        rw [hr] at htake
        rw [feed_of_cutAt?_some hp hc, htake] at h
        cases h
  · obtain ⟨head, length, hs⟩ : ∃ head length, p.fresh.stage = .body head length := by
      simpa [AwaitsHead] using hp
    rw [feed_of_body hs] at h
    cases h

theorem HasRefused.request (h : p.HasRefused cause) :
    p.request = .error (.request .incomplete) := by
  rcases h.stage with hs | hs <;> simp only [Parser.request, hs]

/-! ### Resets -/

theorem limit_takeBody (p : Parser) (head : RequestHead) (length : Nat) (received : Bytes) :
    (p.takeBody head length received).limit = p.limit := by
  unfold takeBody
  split <;> rfl

theorem limit_fresh (p : Parser) : p.fresh.limit = p.limit := by
  unfold fresh
  split <;> rfl

theorem limit_feed (p : Parser) (data : Bytes) : (p.feed data).2.limit = p.limit := by
  by_cases hp : p.AwaitsHead
  · cases hc : Bytes.cutAt? Bytes.blankLine (p.fresh.received ++ data) with
    | none => rw [feed_of_cutAt?_none hp hc, limit_fresh]
    | some cut =>
      obtain ⟨head, rest⟩ := cut
      rw [feed_of_cutAt?_some hp hc, ← limit_fresh p]
      rcases takeHead_cases p.fresh head with ⟨cause, stage, htake⟩ | ⟨request, length, htake⟩
      · rw [htake]
      · rw [htake, limit_takeBody]
  · obtain ⟨head, length, hs⟩ : ∃ head length, p.fresh.stage = .body head length := by
      simpa [AwaitsHead] using hp
    rw [feed_of_body hs, limit_takeBody, limit_fresh]

theorem limit_run (limit : Nat) (moves : List Reader.Move) :
    ((reader limit).run moves).limit = limit :=
  Reader.run_induction (r := reader limit) (P := fun p => p.limit = limit) rfl
    (fun p data hp => (limit_feed p data).trans hp) (fun _ hp => hp) moves

theorem reset_run (limit : Nat) (moves : List Reader.Move) :
    ((reader limit).run moves).reset = { limit } := by
  rw [reset, limit_run]

theorem feed_reset (p : Parser) (data : Bytes) (h : p.isComplete = true) :
    p.reset.feed data = p.feed data := by
  rw [← feed_fresh p, fresh, if_pos h]

theorem isFinal_reader (limit : Nat) : (reader limit).IsFinal where
  refused moves data cause h later := by
    have hlater := Reader.feeds_induction (r := reader limit) (P := fun p => p.HasRefused cause)
      (hasRefused_of_feed h) (fun _ data hp => (hp.feed data).2) later
    exact ⟨fun more => (hlater.feed more).1, not_isComplete_of_stage hlater.stage, hlater.request⟩
  reset := reset_run limit
  complete := Reader.feed_of_isComplete (reset_run limit) feed_reset

end Parser

end HttpContext
