import HttpContext.Message.Parser
/-!
A request that arrives in pieces. What the parser makes of it depends on the bytes alone, not on
where they were cut.
-/
namespace HttpContext

namespace Parser

/-- What has become of the bytes so far. -/
inductive Outcome
  | incomplete
  | complete (request : RequestMessage)
  | refused (cause : Error)
  deriving Repr, DecidableEq

/-- How a feed leaves the request. -/
def outcome : Except Error Bool × Parser → Outcome
  | (.error cause, _) => .refused cause
  | (.ok false, _) => .incomplete
  | (.ok true, p) =>
    match p.request with
    | .ok request => .complete request
    | .error cause => .refused cause

/-- Feeds pieces one after the other, up to the first feed that completes the request or refuses
it. -/
def feedAll (p : Parser) : List Bytes → Outcome
  | [] => .incomplete
  | piece :: rest =>
    match p.feed piece with
    | (.ok false, p) => feedAll p rest
    | out => outcome out

/-! ### What a feed does -/

/-- The parser as a feed finds it: a whole request is out of the way. -/
def fresh (p : Parser) : Parser := if p.isComplete then p.reset else p

theorem isComplete_fresh (p : Parser) : p.fresh.isComplete = false := by
  unfold fresh
  split
  · rfl
  · rename_i h
    exact Bool.eq_false_iff.2 h

theorem fresh_of_not_isComplete {p : Parser} (h : p.isComplete = false) : p.fresh = p := by
  simp only [fresh, h, Bool.false_eq_true, ↓reduceIte]

theorem isComplete_takeBody (p : Parser) (head : RequestHead) (length : Nat) (received : Bytes) :
    (p.takeBody head length received).isComplete = decide (length ≤ received.length) := by
  unfold takeBody
  split
  · rename_i h
    exact (decide_eq_true h).symm
  · rename_i h
    exact (decide_eq_false h).symm

/-- A head is judged on its own: it is refused whatever follows, or what follows is its body. -/
theorem takeHead_cases (p : Parser) (head : Bytes) :
    (∃ cause stage, ∀ received rest,
        takeHead { p with received } head rest = (.error cause, { p with stage, received }))
      ∨ ∃ request length, ∀ received rest, takeHead { p with received } head rest
          = (.ok (p.takeBody request length rest).isComplete, p.takeBody request length rest) := by
  unfold takeHead
  cases Utf8.decode head with
  | error malformed => exact .inl ⟨_, p.stage, fun _ _ => rfl⟩
  | ok text =>
    simp only
    cases RequestHead.requestLine ((Text.lines text.toList).headD []) with
    | error cause => exact .inl ⟨_, p.stage, fun _ _ => rfl⟩
    | ok line =>
      obtain ⟨method, target, version⟩ := line
      simp only
      cases readHeaders p.limit method target version (Text.lines text.toList).tail with
      | error cause => exact .inl ⟨cause, .headers, fun _ _ => rfl⟩
      | ok announced =>
        obtain ⟨request, length⟩ := announced
        exact .inr ⟨request, length, fun _ _ => rfl⟩

/-- A feed in the middle of a body. -/
theorem feed_of_body {p : Parser} {head : RequestHead} {length : Nat}
    (h : p.fresh.stage = .body head length) (data : Bytes) :
    p.feed data = (.ok (decide (length ≤ (p.fresh.received ++ data).length)),
      p.fresh.takeBody head length (p.fresh.received ++ data)) := by
  rw [← isComplete_takeBody p.fresh head]
  unfold fresh at h ⊢
  simp only [feed, h]

/-- The next bytes belong to the head of a request. -/
def AwaitsHead (p : Parser) : Prop :=
  ∀ head length, p.fresh.stage ≠ .body head length

/-- A feed that leaves the head unfinished. -/
theorem feed_of_cutAt?_none {p : Parser} (hp : p.AwaitsHead) {data : Bytes}
    (hc : Bytes.cutAt? Bytes.blankLine (p.fresh.received ++ data) = none) :
    p.feed data = (.ok false, { p.fresh with received := p.fresh.received ++ data }) := by
  unfold AwaitsHead fresh at hp
  unfold fresh at hc ⊢
  unfold feed
  cases hs : (if p.isComplete = true then p.reset else p).stage with
  | body head length => exact absurd hs (hp head length)
  | _ => simp only [hs, hc]

/-- A feed with which the head has come. -/
theorem feed_of_cutAt?_some {p : Parser} (hp : p.AwaitsHead) {data head rest : Bytes}
    (hc : Bytes.cutAt? Bytes.blankLine (p.fresh.received ++ data) = some (head, rest)) :
    p.feed data = takeHead { p.fresh with received := p.fresh.received ++ data } head rest := by
  unfold AwaitsHead fresh at hp
  unfold fresh at hc ⊢
  unfold feed
  cases hs : (if p.isComplete = true then p.reset else p).stage with
  | body head length => exact absurd hs (hp head length)
  | _ => simp only [hs, hc]

/-- A body that is still too short is kept as far as it has come. -/
theorem takeBody_of_lt (p : Parser) (head : RequestHead) {length : Nat} {received : Bytes}
    (h : received.length < length) :
    p.takeBody head length received = { p with stage := .body head length, received } := by
  have hn : ¬ length ≤ received.length := Nat.not_le.2 h
  simp only [takeBody, hn, ↓reduceIte]

/-- Bytes after the body make no difference. -/
theorem takeBody_append (p : Parser) (head : RequestHead) {length : Nat} {received : Bytes}
    (h : length ≤ received.length) (more : Bytes) :
    p.takeBody head length (received ++ more) = p.takeBody head length received := by
  have hm : length ≤ (received ++ more).length := by
    rw [List.length_append]
    omega
  simp only [takeBody, h, hm, ↓reduceIte, List.take_append_of_le_length h]

/-- A body that is waited for goes on where it stopped. -/
theorem feed_takeBody (p : Parser) (head : RequestHead) {length : Nat} {received : Bytes}
    (h : received.length < length) (more : Bytes) :
    (p.takeBody head length received).feed more
      = (.ok (p.takeBody head length (received ++ more)).isComplete,
        p.takeBody head length (received ++ more)) := by
  have hstage : { p with stage := .body head length, received }.fresh.stage = .body head length :=
    rfl
  rw [takeBody_of_lt p head h, feed_of_body hstage, isComplete_takeBody]
  rfl

/-- Bytes that come after an unfinished feed continue what it was given. -/
theorem feed_feed {p q : Parser} {data : Bytes} (h : p.feed data = (.ok false, q)) (more : Bytes) :
    q.feed more = p.feed (data ++ more) := by
  by_cases hp : p.AwaitsHead
  · cases hc : Bytes.cutAt? Bytes.blankLine (p.fresh.received ++ data) with
    | none =>
      -- the head is still unfinished, so both feeds look for its end in the same bytes
      rw [feed_of_cutAt?_none hp hc] at h
      obtain ⟨_, rfl⟩ := Prod.mk.inj h
      have hq : { p.fresh with received := p.fresh.received ++ data }.fresh
          = { p.fresh with received := p.fresh.received ++ data } :=
        fresh_of_not_isComplete p.isComplete_fresh
      have hawaits : { p.fresh with received := p.fresh.received ++ data }.AwaitsHead := by
        intro head length
        rw [hq]
        exact hp head length
      cases hm : Bytes.cutAt? Bytes.blankLine (p.fresh.received ++ data ++ more) with
      | none =>
        rw [feed_of_cutAt?_none hawaits (by rw [hq]; exact hm),
          feed_of_cutAt?_none hp (by rw [← List.append_assoc]; exact hm), hq, List.append_assoc]
      | some cut =>
        rw [feed_of_cutAt?_some hawaits (by rw [hq]; exact hm),
          feed_of_cutAt?_some hp (by rw [← List.append_assoc]; exact hm), hq, List.append_assoc]
    | some cut =>
      -- the head has come, and its body goes on
      obtain ⟨head, rest⟩ := cut
      have hmore : Bytes.cutAt? Bytes.blankLine (p.fresh.received ++ (data ++ more))
          = some (head, rest ++ more) := by
        rw [← List.append_assoc]
        exact Bytes.cutAt?_append hc more
      rw [feed_of_cutAt?_some hp hc] at h
      rw [feed_of_cutAt?_some hp hmore]
      rcases takeHead_cases p.fresh head with ⟨cause, stage, hrefused⟩ | ⟨request, length, htaken⟩
      · rw [hrefused] at h
        cases h
      · rw [htaken] at h
        obtain ⟨hshort, rfl⟩ := Prod.mk.inj h
        have hlt : rest.length < length := by
          simpa [isComplete_takeBody] using hshort
        rw [htaken, feed_takeBody _ _ hlt]
  · obtain ⟨head, length, hs⟩ : ∃ head length, p.fresh.stage = .body head length := by
      simpa [AwaitsHead] using hp
    rw [feed_of_body hs] at h
    obtain ⟨hshort, rfl⟩ := Prod.mk.inj h
    have hlt : (p.fresh.received ++ data).length < length := by simpa using hshort
    rw [feed_takeBody _ _ hlt, feed_of_body hs, isComplete_takeBody, List.append_assoc]

/-- Bytes after a request that is complete or refused make no difference to it. -/
theorem outcome_feed_append {p : Parser} {data : Bytes} (h : (p.feed data).1 ≠ .ok false)
    (more : Bytes) : outcome (p.feed (data ++ more)) = outcome (p.feed data) := by
  by_cases hp : p.AwaitsHead
  · cases hc : Bytes.cutAt? Bytes.blankLine (p.fresh.received ++ data) with
    | none =>
      rw [feed_of_cutAt?_none hp hc] at h
      exact absurd rfl h
    | some cut =>
      obtain ⟨head, rest⟩ := cut
      have hmore : Bytes.cutAt? Bytes.blankLine (p.fresh.received ++ (data ++ more))
          = some (head, rest ++ more) := by
        rw [← List.append_assoc]
        exact Bytes.cutAt?_append hc more
      rw [feed_of_cutAt?_some hp hc] at h ⊢
      rw [feed_of_cutAt?_some hp hmore]
      rcases takeHead_cases p.fresh head with ⟨cause, stage, hrefused⟩ | ⟨request, length, htaken⟩
      · rw [hrefused, hrefused]
        rfl
      · rw [htaken] at h
        have hle : length ≤ rest.length := by
          simpa [isComplete_takeBody] using h
        rw [htaken, htaken, takeBody_append _ _ hle]
  · obtain ⟨head, length, hs⟩ : ∃ head length, p.fresh.stage = .body head length := by
      simpa [AwaitsHead] using hp
    rw [feed_of_body hs] at h
    have hle : length ≤ (p.fresh.received ++ data).length := by simpa using h
    rw [feed_of_body hs, feed_of_body hs, ← isComplete_takeBody p.fresh head,
      ← isComplete_takeBody p.fresh head, ← List.append_assoc, takeBody_append _ _ hle]

/-! ### Pieces -/

/-- One piece and more of them. -/
theorem feedAll_cons (p : Parser) (piece : Bytes) (rest : List Bytes) :
    feedAll p (piece :: rest) = outcome (p.feed (piece ++ rest.flatten)) := by
  induction rest generalizing p piece with
  | nil =>
    rw [List.flatten_nil, List.append_nil, feedAll]
    split
    · rename_i q h
      rw [h]
      rfl
    · rfl
  | cons next rest ih =>
    rw [List.flatten_cons, feedAll]
    split
    · -- not yet decided: the next piece continues this one
      rename_i q h
      rw [ih, feed_feed h]
    · rename_i h
      have hdone : (p.feed piece).1 ≠ .ok false := fun hf => h _ (Prod.ext hf rfl)
      exact (outcome_feed_append hdone _).symm

/-- A request is read in the same way however its bytes arrive: fed in pieces to a new parser, they
are incomplete, complete or refused exactly as they are when they are fed at once, and make the same
request or give the same cause. -/
theorem feedAll_eq_feed_flatten (limit : Nat) (pieces : List Bytes) :
    feedAll { limit } pieces = outcome (feed { limit } pieces.flatten) := by
  cases pieces with
  | nil => rfl
  | cons piece rest => exact feedAll_cons { limit } piece rest

end Parser

end HttpContext
