import HttpContext.Context.Serve
import HttpContext.Proofs.Feeding
/-!
What becomes of a connection. The bytes that the client has sent decide it alone: they make a
request that is handed to the handler, they are refused and answered, or they end too early.
-/
namespace HttpContext

namespace Source

def NeverFails (s : Source) : Prop := ∀ fault, Event.fail fault ∉ s

variable {s : Source}

theorem NeverFails.tail {event : Event} (h : NeverFails (event :: s)) : NeverFails s :=
  fun fault hf => h fault (List.mem_cons_of_mem _ hf)

theorem neverFails_putBack (h : NeverFails s) (bytes : Bytes) : NeverFails (putBack bytes s) := by
  unfold putBack
  split
  · exact h
  · intro fault hf
    rcases List.mem_cons.1 hf with he | hs
    · cases he
    · exact h fault hs

theorem neverFails_map_data (pieces : List Bytes) : NeverFails (pieces.map .data) := by
  intro fault hf
  obtain ⟨piece, _, he⟩ := List.mem_map.1 hf
  cases he

theorem content_map_data (pieces : List Bytes) : content (pieces.map .data) = pieces.flatten := by
  induction pieces with
  | nil => rfl
  | cons piece rest ih => rw [List.map_cons, content, ih, List.flatten_cons]

/-- A read with room finds nothing only where nothing is left. -/
theorem NeverFails.read (h : NeverFails s) {room : Nat} (hr : 0 < room) :
    ∃ bytes rest, read room s = (.ok bytes, rest) ∧ NeverFails rest
      ∧ (bytes = [] → content rest = []) := by
  fun_induction Source.read room s with
  | case1 => exact ⟨[], [], rfl, h, fun _ => rfl⟩
  | case2 fault tail => exact absurd List.mem_cons_self (h fault)
  | case3 fault tail => exact absurd List.mem_cons_self (h fault)
  | case4 piece tail hb ih => exact ih h.tail
  | case5 piece tail hb =>
    refine ⟨_, _, rfl, neverFails_putBack h.tail _, fun hnil => ?_⟩
    -- a piece that is not empty has something to give
    rcases List.take_eq_nil_iff.1 hnil with hzero | hpiece
    · omega
    · rw [hpiece] at hb
      exact absurd rfl hb

end Source

namespace Parser

/-- What the head of a request says, and the length that it gives the body. -/
def readHead (limit : Nat) (head : Bytes) : Except Error (RequestHead × Nat) :=
  match Utf8.decode head with
  | .error _ => .error (.request .headNotUtf8)
  | .ok text =>
    let lines := Text.lines text.toList
    match RequestHead.requestLine (lines.headD []) with
    | .error cause => .error (.request cause)
    | .ok (method, target, version) => readHeaders limit method target version lines.tail

/-- The outcome of all the bytes that there are. -/
def judge (limit : Nat) (bytes : Bytes) : Outcome :=
  match Bytes.cutAt? Bytes.blankLine bytes with
  | none => .incomplete
  | some (head, rest) =>
    match readHead limit head with
    | .error cause => .refused cause
    | .ok (head, length) =>
      if length ≤ rest.length then .complete ⟨head, rest.take length⟩ else .incomplete

theorem outcome_takeBody (p : Parser) (head : RequestHead) (length : Nat) (received : Bytes) :
    outcome (.ok (p.takeBody head length received).isComplete, p.takeBody head length received)
      = if length ≤ received.length then .complete ⟨head, received.take length⟩
        else .incomplete := by
  unfold takeBody
  split <;> rfl

theorem outcome_takeHead (p : Parser) (head rest : Bytes) :
    outcome (p.takeHead head rest) =
      match readHead p.limit head with
      | .error cause => .refused cause
      | .ok (head, length) =>
        if length ≤ rest.length then .complete ⟨head, rest.take length⟩ else .incomplete := by
  unfold takeHead readHead
  cases Utf8.decode head with
  | error malformed => rfl
  | ok text =>
    simp only
    cases RequestHead.requestLine ((Text.lines text.toList).headD []) with
    | error cause => rfl
    | ok line =>
      obtain ⟨method, target, version⟩ := line
      simp only
      cases readHeaders p.limit method target version (Text.lines text.toList).tail with
      | error cause => rfl
      | ok announced => exact outcome_takeBody p announced.1 announced.2 rest

theorem outcome_feed_new (limit : Nat) (bytes : Bytes) :
    outcome (feed { limit } bytes) = judge limit bytes := by
  have hp : AwaitsHead { limit } := by
    intro head length h
    cases h
  unfold judge
  cases hc : Bytes.cutAt? Bytes.blankLine bytes with
  | none =>
    rw [feed_of_cutAt?_none hp hc]
    rfl
  | some cut =>
    obtain ⟨head, rest⟩ := cut
    rw [feed_of_cutAt?_some hp hc]
    exact outcome_takeHead _ head rest

/-- Once a feed has decided, the bytes after it make no difference. -/
theorem judge_of_feed {limit : Nat} {p : Parser} {seen : Bytes}
    (hp : feed { limit } seen = (.ok false, p)) (data more : Bytes)
    (hdone : (p.feed data).1 ≠ .ok false) :
    judge limit (seen ++ (data ++ more)) = outcome (p.feed data) := by
  -- a parser that has seen part of the bytes stands for a new one that is fed them all
  rw [feed_feed hp] at hdone ⊢
  rw [← outcome_feed_new, ← List.append_assoc]
  exact outcome_feed_append hdone more

/-! ### What the limit allows -/

/-- A head is refused for what it says or for the length that it announces; a length that is accepted
keeps the limit. -/
def KeepsLimit (limit : Nat) : Except Error (RequestHead × Nat) → Prop
  | .error cause => cause = .tooLarge limit ∨ ∃ reason, cause = .request reason
  | .ok (_, length) => limit ≠ 0 → length ≤ limit

theorem keepsLimit_readHeaders (limit : Nat) (method : Method) (target version : String)
    (lines : List (List Char)) : KeepsLimit limit (readHeaders limit method target version lines) := by
  unfold readHeaders
  cases RequestHead.headerLines lines with
  | error reason => exact .inr ⟨reason, rfl⟩
  | ok headers =>
    show KeepsLimit limit (do
      let length ← (RequestHead.bodyLength headers).mapError Error.request
      if 0 < limit && limit < length then throw (.tooLarge limit)
      return ({ RequestHead.ofTarget method target headers with version }, length))
    cases RequestHead.bodyLength headers with
    | error reason => exact .inr ⟨reason, rfl⟩
    | ok length =>
      show KeepsLimit limit (if 0 < limit && limit < length then .error (.tooLarge limit)
        else .ok ({ RequestHead.ofTarget method target headers with version }, length))
      split
      · exact .inl rfl
      · rename_i hfits
        intro hl
        simp only [Bool.and_eq_true, decide_eq_true_eq] at hfits
        omega

theorem keepsLimit_readHead (limit : Nat) (head : Bytes) :
    KeepsLimit limit (readHead limit head) := by
  unfold readHead
  cases Utf8.decode head with
  | error malformed => exact .inr ⟨_, rfl⟩
  | ok text =>
    simp only
    cases RequestHead.requestLine ((Text.lines text.toList).headD []) with
    | error reason => exact .inr ⟨reason, rfl⟩
    | ok line => exact keepsLimit_readHeaders limit line.1 line.2.1 line.2.2 _

theorem cause_of_judge {limit : Nat} {bytes : Bytes} {cause : Error}
    (h : judge limit bytes = .refused cause) :
    cause = .tooLarge limit ∨ ∃ reason, cause = .request reason := by
  unfold judge at h
  split at h
  · cases h
  · rename_i head rest _
    have hk := keepsLimit_readHead limit head
    split at h
    · rename_i hr
      cases h
      rw [hr] at hk
      exact hk
    · split at h <;> cases h

theorem length_body_of_judge {limit : Nat} {bytes : Bytes} {message : RequestMessage}
    (h : judge limit bytes = .complete message) (hl : limit ≠ 0) :
    message.body.length ≤ limit := by
  unfold judge at h
  split at h
  · cases h
  · rename_i head rest _
    have hk := keepsLimit_readHead limit head
    split at h
    · cases h
    · rename_i head' length hr
      split at h
      · cases h
        rw [hr] at hk
        have hlength : length ≤ limit := hk hl
        exact Nat.le_trans (List.length_take_le length rest) hlength
      · cases h

end Parser

namespace Connection

/-- What is received from a client that sends bytes with this outcome and then stops. -/
def Received.ofOutcome : Parser.Outcome → Received
  | .incomplete => .broken .requestCutShort
  | .complete message => .request message
  | .refused cause => .refused cause

/-- A parser that has been fed `seen` is fed the rest of the source, read by read. -/
theorem receive_of_feed {size : Nat} (hsize : 0 < size) {limit : Nat} {p : Parser} {source : Source}
    (hs : source.NeverFails) {seen : Bytes} (hp : Parser.feed { limit } seen = (.ok false, p)) :
    receive size p source = .ofOutcome (Parser.judge limit (seen ++ source.content)) := by
  -- the bytes that have been read are what the parser has seen, however they were cut
  fun_induction receive size p source generalizing seen with
  | case1 p source fault rest hr =>
    obtain ⟨bytes, left, hread, _⟩ := hs.read hsize
    rw [hr] at hread
    cases hread
  | case2 p source rest hr =>
    obtain ⟨bytes, left, hread, _, hempty⟩ := hs.read hsize
    rw [hr] at hread
    cases hread
    have hcontent : source.content = [] := by
      rw [Source.content_read hr, hempty rfl]
      rfl
    rw [hcontent, List.append_nil, ← Parser.outcome_feed_new, hp]
    rfl
  | case3 p source b bs rest hr cause q hf =>
    have hjudge := Parser.judge_of_feed hp (b :: bs) rest.content (by rw [hf]; nofun)
    rw [Source.content_read hr, hjudge, hf]
    rfl
  | case4 p source b bs rest hr q hf ih =>
    obtain ⟨bytes, left, hread, hrest, _⟩ := hs.read hsize
    rw [hr] at hread
    cases hread
    -- nothing is decided yet, and the parser has now seen these bytes too
    have hseen := (Parser.feed_feed hp (b :: bs)).symm.trans hf
    rw [ih hrest hseen, Source.content_read hr, List.append_assoc]
  | case5 p source b bs rest hr q hf message hq =>
    have hjudge := Parser.judge_of_feed hp (b :: bs) rest.content (by rw [hf]; nofun)
    rw [Source.content_read hr, hjudge, hf, Parser.outcome, hq]
    rfl
  | case6 p source b bs rest hr q hf cause hq =>
    have hjudge := Parser.judge_of_feed hp (b :: bs) rest.content (by rw [hf]; nofun)
    rw [Source.content_read hr, hjudge, hf, Parser.outcome, hq]
    rfl

/-- What is received depends neither on the pieces in which the bytes arrive nor on the buffer. -/
theorem receive_pieces {size : Nat} (hsize : 0 < size) (limit : Nat) (pieces : List Bytes) :
    receive size { limit } (pieces.map .data)
      = .ofOutcome (Parser.judge limit pieces.flatten) := by
  have hnew : Parser.feed { limit } [] = (.ok false, { limit }) := rfl
  rw [receive_of_feed hsize (Source.neverFails_map_data pieces) hnew, Source.content_map_data,
    List.nil_append]

/-! ### What the client is answered -/

def refusalStatus : Error → Status
  | .tooLarge _ => .payloadTooLarge
  | _ => .badRequest

theorem refusalHead_eq (cause : Error) :
    refusalHead cause = ⟨refusalStatus cause, ⟨[("Content-Length", "0")]⟩⟩ := by
  cases cause <;> rfl

theorem refuse_of_isSound {sink : Sink} (hs : sink.IsSound) (cause : Error) :
    refuse cause sink = (cause, sink.accept (refusalHead cause).encode) := by
  have hflush := Sink.flush_of_flushes (hs.accept (refusalHead cause).encode).flushes
  simp only [refuse, hs.write, hflush]

theorem takeRequest_pieces (config : Config) {sink : Sink} (hs : sink.IsSound)
    (pieces : List Bytes) :
    takeRequest config (pieces.map .data) sink =
      match Parser.judge config.maxRequestSize.toNat pieces.flatten with
      | .complete message => (.ok message, sink)
      | .refused cause => (.error cause, sink.accept (refusalHead cause).encode)
      | .incomplete => (.error (.io .requestCutShort), sink) := by
  have hsize : 0 < max config.bufferSize 1 := by omega
  rw [takeRequest, receive_pieces hsize]
  cases Parser.judge config.maxRequestSize.toNat pieces.flatten with
  | incomplete => rfl
  | complete message => rfl
  | refused cause => simp only [Received.ofOutcome, refuse_of_isSound hs]

/-- The context that a handler starts with. -/
def opened (engine : Engine) (router : Router) (io : Executor) (peer : Option Peer) (spool : Spool)
    (sink : Sink) (message : RequestMessage) : Context :=
  let place := match engine with
    | .stream => Place.caller
    | .callback => .threadOf io
  { Context.start engine router io (.ofMessage message peer) sink spool with place }

/-- The bytes that a client sends before it stops, on a connection that takes what is written to it,
have one of three outcomes, in whatever pieces they arrive and whatever the buffer is. A request is
handed to the handler, once, within the limit and with nothing written. What is refused is answered
once, with an empty response, and is not handled. What ends too early is neither handled nor
answered. -/
theorem serve_outcome (engine : Engine) (router : Router) (io : Executor) (peer : Option Peer)
    (spool : Spool) {sink : Sink} (hs : sink.IsSound) (pieces : List Bytes) :
    let limit := router.config.maxRequestSize.toNat
    let taken := takeRequest router.config (pieces.map .data) sink
    let served := serve engine router io peer spool (pieces.map .data) sink
    match Parser.judge limit pieces.flatten with
    | .complete message =>
      taken = (.ok message, sink)
        ∧ (limit ≠ 0 → message.body.length ≤ limit)
        ∧ ∃ c : Context, c.request = .ofMessage message peer ∧ c.response = { engine, sink }
          ∧ ∀ handler, served handler = (.ok (handler c), (handler c).response.sink)
    | .refused cause =>
      ∃ status answered, answered = sink.accept
          (ResponseHead.encode { status, headers := ⟨[("Content-Length", "0")]⟩ })
        ∧ (cause = .tooLarge limit ∧ status = .payloadTooLarge
          ∨ (∃ reason, cause = .request reason) ∧ status = .badRequest)
        ∧ taken = (.error cause, answered)
        ∧ ∀ handler, served handler = (.error cause, answered)
    | .incomplete =>
      Fault.kind .requestCutShort = .unexpectedEof
        ∧ taken = (.error (.io .requestCutShort), sink)
        ∧ ∀ handler, served handler = (.error (.io .requestCutShort), sink) := by
  intro limit taken served
  have htaken := takeRequest_pieces router.config hs pieces
  cases hj : Parser.judge limit pieces.flatten with
  | incomplete =>
    rw [hj] at htaken
    refine ⟨rfl, htaken, fun handler => ?_⟩
    simp only [served, serve, htaken]
  | complete message =>
    rw [hj] at htaken
    refine ⟨htaken, Parser.length_body_of_judge hj,
      opened engine router io peer spool sink message, rfl, rfl, fun handler => ?_⟩
    simp only [served, serve, htaken]
    rfl
  | refused cause =>
    rw [hj] at htaken
    refine ⟨refusalStatus cause, _, rfl, ?_, ?_, fun handler => ?_⟩
    · rcases Parser.cause_of_judge hj with rfl | ⟨reason, rfl⟩
      · exact .inl ⟨rfl, rfl⟩
      · exact .inr ⟨⟨reason, rfl⟩, rfl⟩
    · rw [← refusalHead_eq]
      exact htaken
    · simp only [served, serve, htaken, refusalHead_eq]

/-- The body that is announced is longer than the four bytes that are allowed. The head arrives in
two pieces, which are read with a buffer of three bytes. -/
theorem serve_outcome_too_large :
    let config : Config := { Config.default ⟨"/tmp", 1⟩ with bufferSize := 3, maxRequestSize := 4 }
    let router : Router := { config, worker := .sameThread 0 }
    let pieces := [Utf8.encode "POST / HTTP/1.1\r\nContent-Len",
      Utf8.encode "gth: 5\r\n\r\nabcde"]
    let answered := Sink.accept {} (Utf8.encode
      "HTTP/1.1 413 Payload Too Large\r\nContent-Length: 0\r\n\r\n")
    Sink.IsSound {}
      ∧ takeRequest config (pieces.map .data) {} = (.error (.tooLarge 4), answered)
      ∧ ∀ handler, serve .callback router (.ioThread 1 "io") none {} (pieces.map .data) {} handler
          = (.error (.tooLarge 4), answered) := by
  intro config router pieces answered
  have hsound : Sink.IsSound {} := ⟨rfl, rfl, rfl, rfl⟩
  have hjudge : Parser.judge 4 pieces.flatten = .refused (.tooLarge 4) := by decide +kernel
  have houtcome := serve_outcome .callback router (.ioThread 1 "io") none {} hsound pieces
  have hlimit : (4 : UInt64).toNat = 4 := rfl
  simp only [router, config, hlimit, hjudge] at houtcome
  obtain ⟨status, sink, hsink, hcause | hcause, htaken, hserved⟩ := houtcome
  · obtain ⟨_, rfl⟩ := hcause
    have hanswered : sink = answered := by
      rw [hsink]
      decide +kernel
    rw [hanswered] at htaken hserved
    exact ⟨hsound, htaken, hserved⟩
  · obtain ⟨⟨_, hreason⟩, _⟩ := hcause
    cases hreason

end Connection

end HttpContext
