import HttpContext.Message.Draft
import HttpContext.Proofs.Finality
/-!
A parser that writes down what it reads keeps what it has written of a head that it refuses, and
reads the same head again on top of it. What is left over never changes the verdict: nothing that
can be seen tells this parser from one that keeps the bytes alone.
-/
namespace HttpContext

namespace HeaderFields

theorem get?_append (front rest : List (String × String)) (name : String) :
    (mk (front ++ rest)).get? name = ((mk front).get? name).or ((mk rest).get? name) := by
  simp only [get?, List.find?_append, Option.map_or]

end HeaderFields

namespace Parser

/-- The length of the body that these fields announce, when the limit allows it. -/
def lengthWithin (limit : Nat) (fields : List (String × String)) : Except Error Nat :=
  match RequestHead.bodyLength ⟨fields⟩ with
  | .error cause => .error (.request cause)
  | .ok length => if 0 < limit && limit < length then .error (.tooLarge limit) else .ok length

theorem readHeaders_eq (limit : Nat) (method : Method) (target version : String)
    (lines : List (List Char)) :
    readHeaders limit method target version lines =
      match (lines.filter fun line => !line.isEmpty).mapM RequestHead.headerLine with
      | .error cause => .error (.request cause)
      | .ok fields =>
        match lengthWithin limit fields with
        | .error cause => .error cause
        | .ok length =>
          .ok ({ RequestHead.ofTarget method target ⟨fields⟩ with version }, length) := by
  unfold readHeaders RequestHead.headerLines
  cases (lines.filter fun line => !line.isEmpty).mapM RequestHead.headerLine with
  | error cause => rfl
  | ok fields =>
    show (do
      let length ← (RequestHead.bodyLength ⟨fields⟩).mapError Error.request
      if 0 < limit && limit < length then throw (Error.tooLarge limit)
      return ({ RequestHead.ofTarget method target ⟨fields⟩ with version }, length)) = _
    unfold lengthWithin
    cases hlength : RequestHead.bodyLength ⟨fields⟩ with
    | error cause =>
      simp only [hlength]
      rfl
    | ok length =>
      simp only [hlength]
      show (if 0 < limit && limit < length then Except.error (Error.tooLarge limit)
        else .ok ({ RequestHead.ofTarget method target ⟨fields⟩ with version }, length)) = _
      by_cases hpassed : (decide (0 < limit) && decide (limit < length)) = true <;>
        simp only [hpassed, Bool.false_eq_true, ↓reduceIte]

end Parser

namespace Draft

def reader (limit : Nat) : Reader Draft :=
  { start := { limit }, feed, reset, isComplete, request }

/-! ### What is written down of a head -/

/-- The fields of the lines up to the first that is none. -/
def fieldsOf : List (List Char) → List (String × String)
  | [] => []
  | line :: rest =>
    match RequestHead.headerLine line with
    | .error _ => []
    | .ok field => field :: fieldsOf rest

theorem fieldsOf_of_mapM {lines : List (List Char)} {fields : List (String × String)}
    (h : lines.mapM RequestHead.headerLine = .ok fields) : fieldsOf lines = fields := by
  induction lines generalizing fields with
  | nil =>
    cases h
    rfl
  | cons line rest ih =>
    rw [List.mapM_cons] at h
    cases hline : RequestHead.headerLine line with
    | error cause =>
      rw [hline] at h
      cases h
    | ok field =>
      rw [hline] at h
      cases hrest : rest.mapM RequestHead.headerLine with
      | error cause =>
        rw [hrest] at h
        cases h
      | ok others =>
        rw [hrest] at h
        cases h
        rw [fieldsOf, hline, ih hrest]

/-- Writes fields down. -/
def write (d : Draft) (fields : List (String × String)) : Draft :=
  { d with headers := ⟨d.headers.entries ++ fields⟩ }

/-- The good lines are written down, and the first that is none is the cause. -/
theorem addLines_eq (lines : List (List Char)) (d : Draft) :
    addLines lines d = (match lines.mapM RequestHead.headerLine with
      | .error cause => .error (.request cause)
      | .ok _ => .ok (), d.write (fieldsOf lines)) := by
  induction lines generalizing d with
  | nil => simp [addLines, write, fieldsOf, pure, Except.pure]
  | cons line rest ih =>
    rw [addLines, List.mapM_cons, fieldsOf]
    cases RequestHead.headerLine line with
    | error cause => simp [write, bind, Except.bind]
    | ok field =>
      simp only [ih]
      cases rest.mapM RequestHead.headerLine with
      | error cause => simp [write, HeaderFields.add, bind, Except.bind]
      | ok others => simp [write, HeaderFields.add, bind, Except.bind, pure, Except.pure]

/-- The fields that are written down when a head is read. -/
def fieldsOfHead (head : Bytes) : List (String × String) :=
  match Utf8.decode head with
  | .error _ => []
  | .ok text => fieldsOf ((Text.lines text.toList).tail.filter fun line => !line.isEmpty)

def lengthField (fields : List (String × String)) : Option String :=
  (HeaderFields.mk fields).get? "content-length"

/-- What is left over of earlier readings of a head says nothing of the length of the body, or says
what the head itself says. -/
def IsEchoOf (head : Bytes) (left : List (String × String)) : Prop :=
  lengthField left = none ∨ lengthField left = lengthField (fieldsOfHead head)

theorem IsEchoOf.lengthField_append {head : Bytes} {left : List (String × String)}
    (h : IsEchoOf head left) :
    lengthField (left ++ fieldsOfHead head) = lengthField (fieldsOfHead head) := by
  have happend : lengthField (left ++ fieldsOfHead head)
      = (lengthField left).or (lengthField (fieldsOfHead head)) :=
    HeaderFields.get?_append left _ "content-length"
  rcases h with h | h
  · rw [happend, h, Option.none_or]
  · rw [happend, h, Option.or_self]

theorem bodyLength_congr {fields others : List (String × String)}
    (h : lengthField fields = lengthField others) :
    RequestHead.bodyLength ⟨fields⟩ = RequestHead.bodyLength ⟨others⟩ := by
  unfold lengthField at h
  simp only [RequestHead.bodyLength, h]

/-! ### Reading a head on top of what is left over -/

/-- The verdict on the announced length depends on the length field alone. -/
theorem announce_spec {d : Draft} {limit : Nat} {fields : List (String × String)}
    (hlimit : d.limit = limit) (hfield : lengthField d.headers.entries = lengthField fields) :
    match Parser.lengthWithin limit fields with
    | .error cause => ∃ bodyLength, d.announce = (.error cause, { d with bodyLength })
    | .ok bodyLength => d.announce = (.ok (), { d with bodyLength }) := by
  subst hlimit
  unfold announce Parser.lengthWithin
  rw [show RequestHead.bodyLength d.headers = _ from bodyLength_congr hfield]
  cases RequestHead.bodyLength ⟨fields⟩ with
  | error cause => exact ⟨d.bodyLength, rfl⟩
  | ok length =>
    by_cases hpassed : (decide (0 < d.limit) && decide (d.limit < length)) = true
    · simp only [hpassed, ↓reduceIte]
      exact ⟨length, rfl⟩
    · simp only [hpassed, Bool.false_eq_true, ↓reduceIte]

/-- What reading a head leaves alone, and what is left over then. -/
structure Rereads (head : Bytes) (d d' : Draft) : Prop where
  limit : d'.limit = d.limit
  received : d'.received = d.received
  stage : d'.stage = d.stage ∨ d'.stage = .headers
  echo : IsEchoOf head d'.headers.entries

/-- A head that is taken. -/
structure Takes (head : Bytes) (length : Nat) (d d' : Draft) : Prop where
  limit : d'.limit = d.limit
  received : d'.received = d.received
  stage : d'.stage = .body
  bodyStart : d'.bodyStart = head.length + Bytes.blankLine.length
  bodyLength : d'.bodyLength = length

/-- What is left over of a head makes no difference to the verdict on it. -/
theorem takeHead_spec {d : Draft} {head : Bytes}
    (hhead : d.received.take head.length = head) (hecho : IsEchoOf head d.headers.entries) :
    match Parser.readHead d.limit head with
    | .error cause => ∃ d', d.takeHead head.length = (.error cause, d') ∧ Rereads head d d'
    | .ok (request, length) => ∃ d', d.takeHead head.length = (.ok (), d')
        ∧ Takes head length d d' ∧ (d.headers = {} → d'.head? = some request) := by
  unfold takeHead Parser.readHead
  rw [hhead]
  cases htext : Utf8.decode head with
  | error malformed => exact ⟨d, rfl, rfl, rfl, .inl rfl, hecho⟩
  | ok text =>
    have hfields : fieldsOfHead head
        = fieldsOf ((Text.lines text.toList).tail.filter fun line => !line.isEmpty) := by
      rw [fieldsOfHead, htext]
    simp only
    cases RequestHead.requestLine ((Text.lines text.toList).headD []) with
    | error cause => exact ⟨d, rfl, rfl, rfl, .inl rfl, hecho⟩
    | ok line =>
      obtain ⟨method, target, version⟩ := line
      simp only [addLines_eq, Parser.readHeaders_eq, ← hfields]
      have hwritten := hecho.lengthField_append
      have hleft : IsEchoOf head (d.headers.entries ++ fieldsOfHead head) := .inr hwritten
      cases hlines : ((Text.lines text.toList).tail.filter fun line => !line.isEmpty).mapM
          RequestHead.headerLine with
      | error cause => exact ⟨_, rfl, rfl, rfl, .inr rfl, hleft⟩
      | ok fields =>
        have hsame : fieldsOfHead head = fields := hfields.trans (fieldsOf_of_mapM hlines)
        rw [hsame] at hwritten hleft ⊢
        have hannounce := @announce_spec ({ d with
          method := some method, target := some target, version := some version,
          stage := .headers }.write fields) d.limit fields rfl hwritten
        simp only
        cases hlength : Parser.lengthWithin d.limit fields with
        | error cause =>
          rw [hlength] at hannounce
          obtain ⟨bodyLength, hannounce⟩ := hannounce
          rw [hannounce]
          exact ⟨_, rfl, rfl, rfl, .inr rfl, hleft⟩
        | ok length =>
          rw [hlength] at hannounce
          rw [show announce _ = _ from hannounce]
          refine ⟨_, rfl, ⟨rfl, rfl, rfl, rfl, rfl⟩, fun hnew => ?_⟩
          simp only [write, head?, hnew]
          rfl

/-! ### Feeds -/

theorem takeHead_of_cutAt? {d : Draft} {head rest : Bytes}
    (hc : Bytes.cutAt? Bytes.blankLine d.received = some (head, rest)) :
    d.received.take head.length = head := by
  rw [Bytes.cutAt?_eq_some hc, List.append_assoc, List.take_left]

/-- The draft as a feed finds it. -/
def fresh (d : Draft) : Draft := if d.isComplete then d.reset else d

theorem isComplete_fresh (d : Draft) : d.fresh.isComplete = false := by
  unfold fresh
  split
  · rfl
  · rename_i h
    exact Bool.eq_false_iff.2 h

theorem feed_fresh (d : Draft) (data : Bytes) : d.fresh.feed data = d.feed data := by
  have h := d.isComplete_fresh
  unfold fresh at h ⊢
  simp only [feed, h, Bool.false_eq_true, ↓reduceIte]

variable {d : Draft} {p : Parser}

theorem not_isComplete_of_stage (h : d.stage = .requestLine ∨ d.stage = .headers) :
    d.isComplete = false := by
  rcases h with h | h <;> simp only [isComplete, h] <;> rfl

theorem find?_blankLine (bytes : Bytes) : Bytes.find? Bytes.blankLine bytes
    = (Bytes.cutAt? Bytes.blankLine bytes).map fun (before, _) => before.length :=
  Bytes.find?_eq_cutAt? (by decide) bytes

theorem feed_of_cutAt?_none (hs : d.stage = .requestLine ∨ d.stage = .headers) {data : Bytes}
    (hc : Bytes.cutAt? Bytes.blankLine (d.received ++ data) = none) :
    d.feed data = (.ok false, { d with received := d.received ++ data }) := by
  have hhead : (decide (d.stage = .requestLine) || decide (d.stage = .headers)) = true := by
    simpa using hs
  simp only [feed, not_isComplete_of_stage hs, Bool.false_eq_true, ↓reduceIte, hhead,
    find?_blankLine, hc, Option.map_none]

theorem feed_of_cutAt?_some (hs : d.stage = .requestLine ∨ d.stage = .headers)
    {data head rest : Bytes}
    (hc : Bytes.cutAt? Bytes.blankLine (d.received ++ data) = some (head, rest)) :
    d.feed data = match takeHead { d with received := d.received ++ data } head.length with
      | (.error cause, d) => (.error cause, d)
      | (.ok (), d) => (.ok d.takeBody.isComplete, d.takeBody) := by
  have hhead : (decide (d.stage = .requestLine) || decide (d.stage = .headers)) = true := by
    simpa using hs
  rcases htake : takeHead { d with received := d.received ++ data } head.length with ⟨result, d'⟩
  cases result <;> simp only [feed, not_isComplete_of_stage hs, Bool.false_eq_true, ↓reduceIte,
    hhead, find?_blankLine, hc, Option.map_some, htake]

theorem feed_of_body (hs : d.stage = .body) (data : Bytes) :
    d.feed data = (.ok (takeBody { d with received := d.received ++ data }).isComplete,
      takeBody { d with received := d.received ++ data }) := by
  simp only [feed, isComplete, hs, reduceCtorEq, decide_false, Bool.false_eq_true, ↓reduceIte,
    Bool.or_self]

/-- The head has come, it is refused, and what is left over of it is an echo. -/
structure HasRefused (d : Draft) (cause : Error) : Prop where
  stage : d.stage = .requestLine ∨ d.stage = .headers
  head : ∃ head rest, Bytes.cutAt? Bytes.blankLine d.received = some (head, rest)
    ∧ Parser.readHead d.limit head = .error cause ∧ IsEchoOf head d.headers.entries

theorem feed_of_readHead_error {cause : Error} (hs : d.stage = .requestLine ∨ d.stage = .headers)
    {data head rest : Bytes}
    (hc : Bytes.cutAt? Bytes.blankLine (d.received ++ data) = some (head, rest))
    (hr : Parser.readHead d.limit head = .error cause) (hecho : IsEchoOf head d.headers.entries) :
    (d.feed data).1 = .error cause ∧ (d.feed data).2.HasRefused cause
      ∧ (d.feed data).2.limit = d.limit := by
  have hspec := @takeHead_spec { d with received := d.received ++ data } head
    (takeHead_of_cutAt? hc) hecho
  rw [hr] at hspec
  obtain ⟨d', htake, hreread⟩ := hspec
  rw [feed_of_cutAt?_some hs hc, htake]
  refine ⟨rfl, ⟨?_, head, rest, ?_, ?_, hreread.echo⟩, hreread.limit⟩
  · rcases hreread.stage with h | h
    · rw [h]
      exact hs
    · exact .inr h
  · rw [hreread.received]
    exact hc
  · rw [hreread.limit]
    exact hr

theorem HasRefused.feed {cause : Error} (h : d.HasRefused cause) (data : Bytes) :
    (d.feed data).1 = .error cause ∧ (d.feed data).2.HasRefused cause
      ∧ (d.feed data).2.limit = d.limit := by
  obtain ⟨head, rest, hc, hr, hecho⟩ := h.head
  exact feed_of_readHead_error h.stage (Bytes.cutAt?_append hc data) hr hecho

/-- The head is taken, and `body` is what has come of the body. -/
structure HasTaken (d : Draft) (head : RequestHead) (length : Nat) (body : Bytes) : Prop where
  stage : d.stage = .body
  head : d.head? = some head
  bodyLength : d.bodyLength = length
  bodyStart : d.bodyStart ≤ d.received.length
  body : d.received.drop d.bodyStart = body

/-- What the draft has written down and what the parser has kept come to the same. -/
inductive Follows (d : Draft) (p : Parser) : Prop
  | waiting (hlimit : d.limit = p.limit) (hd : d.stage = .requestLine) (hp : p.stage = .requestLine)
      (hheaders : d.headers = {}) (hreceived : d.received = p.received)
  | refused (hlimit : d.limit = p.limit) (cause : Error) (hd : d.HasRefused cause)
      (hp : p.HasRefused cause)
  | body (hlimit : d.limit = p.limit) (head : RequestHead) (length : Nat)
      (hp : p.stage = .body head length) (hd : d.HasTaken head length p.received)
  | complete (hlimit : d.limit = p.limit) (request : RequestMessage)
      (hp : p.stage = .complete request) (hd : d.stage = .complete)
      (hrequest : d.request = .ok request)

theorem HasTaken.takeBody {head : RequestHead} {length : Nat} {body : Bytes}
    (h : d.HasTaken head length body) (hlimit : d.limit = p.limit) :
    d.takeBody.isComplete = decide (length ≤ body.length)
      ∧ Follows d.takeBody (p.takeBody head length body) := by
  have hlength : body.length = d.received.length - d.bodyStart := by
    rw [← h.body, List.length_drop]
  unfold Draft.takeBody Parser.takeBody
  rw [h.bodyLength, hlength]
  by_cases hfits : length ≤ d.received.length - d.bodyStart
  · simp only [h.stage, hfits, decide_true, Bool.and_self, ↓reduceIte]
    refine ⟨rfl, .complete hlimit _ rfl rfl ?_⟩
    have hbody : (d.received.take (d.bodyStart + length)).drop d.bodyStart = body.take length := by
      rw [List.drop_take, h.body, Nat.add_sub_cancel_left]
    have hhead := h.head
    simp only [head?] at hhead
    simp only [request, isComplete, decide_true, ↓reduceIte, head?, hhead, hbody]
  · simp only [h.stage, hfits, decide_true, decide_false, Bool.and_false, Bool.false_eq_true,
      ↓reduceIte]
    refine ⟨?_, .body hlimit head length rfl h⟩
    simp only [isComplete, h.stage]
    rfl

theorem HasTaken.append {head : RequestHead} {length : Nat} {body : Bytes}
    (h : d.HasTaken head length body) (data : Bytes) :
    { d with received := d.received ++ data }.HasTaken head length (body ++ data) where
  stage := h.stage
  head := h.head
  bodyLength := h.bodyLength
  bodyStart := by
    rw [List.length_append]
    exact Nat.le_add_right_of_le h.bodyStart
  body := by
    rw [← h.body, List.drop_append_of_le_length h.bodyStart]

theorem Follows.limit (h : Follows d p) : d.limit = p.limit := by
  cases h <;> assumption

theorem Follows.isComplete (h : Follows d p) : d.isComplete = p.isComplete := by
  cases h with
  | waiting hlimit hd hp => simp only [Draft.isComplete, Parser.isComplete, hd, hp]; rfl
  | refused hlimit cause hd hp =>
    rw [not_isComplete_of_stage hd.stage, Parser.not_isComplete_of_stage hp.stage]
  | body hlimit head length hp hd =>
    simp only [Draft.isComplete, Parser.isComplete, hd.stage, hp]; rfl
  | complete hlimit request hp hd => simp only [Draft.isComplete, Parser.isComplete, hd, hp]; rfl

theorem Follows.request (h : Follows d p) : d.request = p.request := by
  have hcomplete := h.isComplete
  cases h with
  | waiting hlimit hd hp =>
    have hincomplete : d.isComplete = false := not_isComplete_of_stage (.inl hd)
    simp only [Draft.request, hincomplete, Bool.false_eq_true, ↓reduceIte, Parser.request, hp]
  | refused hlimit cause hd hp =>
    have hincomplete := not_isComplete_of_stage hd.stage
    simp only [Draft.request, hincomplete, Bool.false_eq_true, ↓reduceIte, hp.request]
  | body hlimit head length hp hd =>
    have hincomplete : d.isComplete = false := by
      rw [hcomplete, Parser.isComplete, hp]
    simp only [Draft.request, hincomplete, Bool.false_eq_true, ↓reduceIte, Parser.request, hp]
  | complete hlimit request hp hd hrequest => rw [hrequest, Parser.request, hp]

theorem follows_new (limit : Nat) : Follows { limit } { limit } :=
  .waiting rfl rfl rfl rfl rfl

theorem Follows.reset (h : Follows d p) : Follows d.reset p.reset := by
  rw [Draft.reset, Parser.reset, h.limit]
  exact follows_new p.limit

theorem Follows.fresh (h : Follows d p) : Follows d.fresh p.fresh := by
  unfold Draft.fresh Parser.fresh
  rw [h.isComplete]
  split
  · exact h.reset
  · exact h

/-- The head comes with this feed, or does not yet. -/
theorem Follows.feed_waiting (hlimit : d.limit = p.limit) (hd : d.stage = .requestLine)
    (hp : p.stage = .requestLine) (hheaders : d.headers = {}) (hreceived : d.received = p.received)
    (data : Bytes) :
    (d.feed data).1 = (p.feed data).1 ∧ Follows (d.feed data).2 (p.feed data).2 := by
  have hfresh : p.fresh = p :=
    Parser.fresh_of_not_isComplete (Parser.not_isComplete_of_stage (.inl hp))
  have hawaits := Parser.awaitsHead_of_stage (.inl hp)
  cases hc : Bytes.cutAt? Bytes.blankLine (p.received ++ data) with
  | none =>
    rw [feed_of_cutAt?_none (.inl hd) (by rw [hreceived]; exact hc),
      Parser.feed_of_cutAt?_none hawaits (by rw [hfresh]; exact hc), hfresh]
    exact ⟨rfl, .waiting hlimit hd hp hheaders (by rw [hreceived])⟩
  | some cut =>
    obtain ⟨head, rest⟩ := cut
    have hcd : Bytes.cutAt? Bytes.blankLine (d.received ++ data) = some (head, rest) := by
      rw [hreceived]
      exact hc
    have hcp : Bytes.cutAt? Bytes.blankLine (p.fresh.received ++ data) = some (head, rest) := by
      rw [hfresh]
      exact hc
    have hecho : IsEchoOf head d.headers.entries := by
      rw [hheaders]
      exact .inl rfl
    cases hr : Parser.readHead p.limit head with
    | error cause =>
      obtain ⟨hdraft, hdrefused, hkept⟩ :=
        feed_of_readHead_error (.inl hd) hcd (by rw [hlimit]; exact hr) hecho
      obtain ⟨hparser, hprefused⟩ :=
        Parser.feed_of_readHead_error hawaits hcp (by rw [hfresh]; exact hr)
      refine ⟨hdraft.trans hparser.symm, .refused ?_ cause hdrefused hprefused⟩
      rw [hkept, hlimit, Parser.limit_feed]
    | ok announced =>
      obtain ⟨request, length⟩ := announced
      have hspec := @takeHead_spec { d with received := d.received ++ data } head
        (takeHead_of_cutAt? hcd) hecho
      have htake := Parser.takeHead_eq { p with received := p.received ++ data } head rest
      have hrd : Parser.readHead d.limit head = .ok (request, length) := by
        rw [hlimit]
        exact hr
      rw [hrd] at hspec
      rw [hr] at htake
      obtain ⟨d', hdraft, htakes, hhead⟩ := hspec
      rw [feed_of_cutAt?_some (.inl hd) hcd, hdraft, Parser.feed_of_cutAt?_some hawaits hcp,
        hfresh, htake]
      have htaken : d'.HasTaken request length rest := by
        have hreceived' : d'.received = head ++ Bytes.blankLine ++ rest := by
          rw [htakes.received]
          exact Bytes.cutAt?_eq_some hcd
        have hstart : d'.bodyStart = (head ++ Bytes.blankLine).length := by
          rw [htakes.bodyStart, List.length_append]
        refine ⟨htakes.stage, hhead hheaders, htakes.bodyLength, ?_, ?_⟩
        · rw [hstart, hreceived']
          exact (List.prefix_append _ rest).length_le
        · rw [hstart, hreceived', List.drop_left]
      obtain ⟨hanswer, hfollows⟩ := htaken.takeBody (p := { p with received := p.received ++ data })
        (htakes.limit.trans hlimit)
      exact ⟨congrArg Except.ok hanswer, hfollows⟩

theorem Follows.feed (h : Follows d p) (data : Bytes) :
    (d.feed data).1 = (p.feed data).1 ∧ Follows (d.feed data).2 (p.feed data).2 := by
  have hfresh := h.fresh
  rw [← feed_fresh, ← Parser.feed_fresh]
  cases hfresh with
  | waiting hlimit hd hp hheaders hreceived =>
    exact Follows.feed_waiting hlimit hd hp hheaders hreceived data
  | refused hlimit cause hd hp =>
    obtain ⟨hdraft, hdrefused, hkept⟩ := hd.feed data
    obtain ⟨hparser, hprefused⟩ := hp.feed data
    refine ⟨hdraft.trans hparser.symm, .refused ?_ cause hdrefused hprefused⟩
    rw [hkept, hlimit, Parser.limit_feed]
  | body hlimit head length hp hd =>
    rw [Parser.feed_fresh, Parser.feed_of_body hp, feed_of_body hd.stage]
    obtain ⟨hanswer, hfollows⟩ := (hd.append data).takeBody hlimit
    exact ⟨congrArg Except.ok hanswer, hfollows⟩
  | complete hlimit request hp =>
    have hincomplete := p.isComplete_fresh
    rw [Parser.isComplete, hp] at hincomplete
    cases hincomplete

theorem matches_reader (limit : Nat) :
    Reader.Matches Follows (reader limit) (Parser.reader limit) where
  start := follows_new limit
  feed := Follows.feed
  reset := Follows.reset
  isComplete := Follows.isComplete
  request := Follows.request

theorem limit_run (limit : Nat) (moves : List Reader.Move) :
    ((reader limit).run moves).limit = limit :=
  ((matches_reader limit).run moves).limit.trans (Parser.limit_run limit moves)

theorem reset_run (limit : Nat) (moves : List Reader.Move) :
    ((reader limit).run moves).reset = { limit } := by
  rw [reset, limit_run]

theorem feed_reset (d : Draft) (data : Bytes) (h : d.isComplete = true) :
    d.reset.feed data = d.feed data := by
  rw [← feed_fresh d, fresh, if_pos h]

theorem isFinal_reader (limit : Nat) : (reader limit).IsFinal where
  refused _ _ _ h := (matches_reader limit).agrees.refused (Parser.isFinal_reader limit) h
  reset := reset_run limit
  complete := Reader.feed_of_isComplete (reset_run limit) feed_reset

/-- Whatever a parser has been through, a refusal is final until it is reset: the same cause is
given at every later feed, and there is never a request. A reset leaves nothing behind, and neither
does a complete request once the next bytes come. This holds of the parser that keeps the bytes of a
refused head alone and of the one that keeps what it had written down of it, and the two look
alike. -/
theorem final_until_reset (limit : Nat) :
    (Parser.reader limit).IsFinal ∧ (reader limit).IsFinal
      ∧ Reader.Agrees (reader limit) (Parser.reader limit) :=
  ⟨Parser.isFinal_reader limit, isFinal_reader limit, (matches_reader limit).agrees⟩

/-- The announced length is written down at each feed, and refused at each. -/
example :
    let head := Utf8.encode "POST / HTTP/1.1\r\nContent-Length: 5\r\n\r\n"
    let first := feed { limit := 4 } head
    let second := first.2.feed (Utf8.encode "abc")
    first.1 matches .error (.tooLarge 4) ∧ first.2.headers.size = 1
      ∧ second.1 matches .error (.tooLarge 4) ∧ second.2.headers.size = 2 := by
  decide +kernel

end Draft

end HttpContext
