import HttpContext.Proofs.Emission
/-!
What a response still does when it has been closed. Its body is refused and a second close does
nothing, but a flush does not look whether the response is closed: if an aborted close has left the
head unwritten, the first flush after it writes the head. Main statement:
`Response.wire_perform_close`.
-/
namespace HttpContext

/-- A sink is left with the bytes that it has if it has no room for a single one more. -/
theorem Sink.wire_write_eq_iff (s : Sink) {bytes : Bytes} (hne : bytes ≠ []) :
    (s.write bytes).2.wire = s.wire ↔ s.hasRoom 1 = false := by
  have hpos := List.length_pos_iff.2 hne
  have hgrows : ∀ more, s.wire ++ more = s.wire ↔ more = [] := fun more => List.append_right_eq_self
  cases hr : s.hasRoom bytes.length with
  | true =>
    have hone : s.hasRoom 1 = true := by
      unfold hasRoom at hr ⊢
      split
      · rfl
      · rename_i room hroom
        simp only [hroom, decide_eq_true_eq] at hr ⊢
        omega
    obtain ⟨t, hwrite, _⟩ := write_of_hasRoom hr
    rw [hwrite, wire_write_ok hwrite, hgrows, hone]
    exact iff_of_false hne nofun
  | false =>
    obtain ⟨room, fault, t, hroom, _, hwrite, hwire, _⟩ := write_of_not_hasRoom hr
    have hone : s.hasRoom 1 = false ↔ room = 0 := by
      simp only [hasRoom, hroom, decide_eq_false_iff_not]
      omega
    rw [hwrite, hwire, hgrows, hone, List.take_eq_nil_iff]
    exact or_iff_left hne

namespace Response

open Script (Item)

/-- Anything that can be done with a response. -/
inductive Operation
  | edit (edit : Edit)
  | allowBlocking
  | item (whole : Bool) (item : Item)
  | send (data : Bytes)
  | copy (source : Source) (size : Nat)
  | close (aborted : Bool)
  deriving Repr, DecidableEq

namespace Operation

def apply (r : Response) : Operation → Response
  | edit e => e.apply r
  | allowBlocking => r.allowBlocking
  | item whole i => (i.write whole r).2
  | send data => (r.send data).2
  | copy source size => (r.copy source size).2
  | close aborted => (r.close aborted).2

def isFlush : Operation → Bool
  | item _ .flush => true
  | _ => false

end Operation

def perform (r : Response) (operations : List Operation) : Response :=
  operations.foldl Operation.apply r

variable {r s t : Response}

/-- `s` is `r`, which is closed, with perhaps another head: nothing was written on the way. -/
structure Rests (r s : Response) : Prop where
  isClosed : s.isClosed = true
  isCommitted : s.isCommitted = r.isCommitted
  sink : s.sink.Matches r.sink

theorem Rests.refl (h : r.isClosed = true) : Rests r r := ⟨h, rfl, .refl _⟩

theorem Rests.trans (hrs : Rests r s) (hst : Rests s t) : Rests r t :=
  ⟨hst.isClosed, hst.isCommitted.trans hrs.isCommitted, hst.sink.trans hrs.sink⟩

theorem rests_flushSink (h : r.isClosed = true) : Rests r r.flushSink.2 :=
  ⟨h, rfl, r.sink.matches_flush⟩

/-! ### One operation -/

theorem writePiece_of_isClosed (h : r.isClosed = true) (data : Bytes) :
    r.writePiece data = (.error r.closedFault, r) := by
  simp only [writePiece, h, ↓reduceIte]

theorem write_of_isClosed (h : r.isClosed = true) (data : Bytes) : (r.write data).2 = r := by
  unfold write
  split
  · rfl
  · split
    · rfl
    · rw [writePiece_of_isClosed h]

theorem write_item_of_isClosed (h : r.isClosed = true) (whole : Bool) (data : Bytes) :
    ((Item.data data).write whole r).2 = r := by
  cases whole with
  | false => exact write_of_isClosed h data
  | true =>
    show (r.writeAll data).2 = r
    unfold writeAll
    split
    · rfl
    · exact write_of_isClosed h data

theorem rests_copy (h : r.isClosed = true) (source : Source) (size : Nat) :
    Rests r (r.copy source size).2 := by
  unfold copy
  rw [writeFrom_eq]
  split
  · exact .refl h
  · exact rests_flushSink h
  · rw [writePiece_of_isClosed h]
    exact .refl h

/-- Only a flush that finds the head unwritten does anything to the sink of a closed response. -/
theorem rests_apply (h : r.isClosed = true) {operation : Operation}
    (hq : r.isCommitted = true ∨ operation.isFlush = false) : Rests r (operation.apply r) := by
  cases operation with
  | edit edit => cases edit <;> exact ⟨h, rfl, .refl _⟩
  | allowBlocking => exact ⟨h, rfl, .refl _⟩
  | item whole item =>
    cases item with
    | data data =>
      rw [Operation.apply, write_item_of_isClosed h]
      exact .refl h
    | flush =>
      have hcommit := commit_of_isCommitted (hq.resolve_right nofun)
      show Rests r r.flush.2
      rw [flush, hcommit]
      exact rests_flushSink h
  | send data =>
    rw [Operation.apply, send, writePiece_of_isClosed h]
    exact .refl h
  | copy source size => exact rests_copy h source size
  | close aborted =>
    rw [Operation.apply, close_of_isClosed h]
    exact .refl h

/-- A flush that finds the head unwritten writes it, or as much of it as the sink takes. -/
theorem wire_flush_of_not_isCommitted (h : r.isCommitted = false) :
    r.flush.2.wire = (r.sink.write r.head.encode).2.wire ∧ r.flush.2.isCommitted = true := by
  have hemits := emits_flush r
  have hlead : r.lead = r.head.encode := by simp only [lead, h, Bool.false_eq_true, ↓reduceIte]
  constructor
  · rw [← hlead]
    exact hemits.sink.wire
  · rw [hemits.rest]

/-! ### A run of operations -/

theorem rests_perform (h : r.isClosed = true) {operations : List Operation}
    (hq : r.isCommitted = true ∨ operations.any Operation.isFlush = false) :
    Rests r (r.perform operations) := by
  induction operations generalizing r with
  | nil => exact .refl h
  | cons operation rest ih =>
    rw [List.any_cons, Bool.or_eq_false_iff] at hq
    have hstep := rests_apply h (hq.imp_right And.left)
    have hrest := hq.imp_right And.right
    rw [← hstep.isCommitted] at hrest
    exact hstep.trans (ih hstep.isClosed hrest)

/-- With the first flush the head goes out as it is by then, and nothing after it. -/
theorem wire_perform_of_isFlush (h : r.isClosed = true) (hc : r.isCommitted = false)
    {operations : List Operation} (hf : operations.any Operation.isFlush = true) :
    (r.perform operations).wire =
      (r.sink.write (r.perform (operations.takeWhile (!·.isFlush))).head.encode).2.wire := by
  induction operations generalizing r with
  | nil => cases hf
  | cons operation rest ih =>
    cases hop : operation.isFlush with
    | true =>
      have hbefore : (operation :: rest).takeWhile (!·.isFlush) = [] :=
        List.takeWhile_cons_of_neg (by simp [hop])
      have hflush : operation.apply r = r.flush.2 := by
        cases operation with
        | item whole item =>
          cases item with
          | data data => cases hop
          | flush => rfl
        | _ => cases hop
      obtain ⟨hwire, hcommitted⟩ := wire_flush_of_not_isCommitted hc
      have hclosed := (continues_flush r).isClosed.trans h
      -- the head counts as sent from here on, so a later flush finds nothing to write
      have hrests : Rests r.flush.2 (r.flush.2.perform rest) :=
        rests_perform hclosed (.inl hcommitted)
      have hlater := hrests.sink.wire
      rw [hbefore]
      calc (r.perform (operation :: rest)).wire = (r.flush.2.perform rest).wire :=
            congrArg (fun s => (perform s rest).wire) hflush
        _ = r.flush.2.wire := hlater
        _ = _ := hwire
    | false =>
      have hstep := rests_apply h (.inr hop)
      have hbefore : (operation :: rest).takeWhile (!·.isFlush)
          = operation :: rest.takeWhile (!·.isFlush) :=
        List.takeWhile_cons_of_pos (by simp [hop])
      rw [List.any_cons, hop, Bool.false_or] at hf
      have hrest := ih hstep.isClosed (hstep.isCommitted.trans hc) hf
      rw [hbefore]
      exact hrest.trans (hstep.sink.write _).2.wire

/-- A response that is closed has its head out, unless the close was aborted before it was. -/
theorem isCommitted_close (r : Response) (aborted : Bool) :
    (r.close aborted).2.isCommitted = (r.isCommitted || !(aborted || r.isClosed)) := by
  cases hr : r.isClosed with
  | true =>
    rw [close_of_isClosed hr, Bool.or_true, Bool.not_true, Bool.or_false]
  | false =>
    cases aborted with
    | true =>
      have hemits := emits_close_aborted hr
      rw [hemits.rest]
      simp
    | false =>
      have hemits := emits_close hr
      rw [hemits.rest]
      simp

/-- What a closed response still puts on the wire, whatever is done with it and on whatever
connection: nothing, unless it was closed by an abort before its head was out and is flushed. Then
the head goes out as it is at the first flush. So nothing is added exactly if the head is out when the
response is closed, or no flush follows, or the sink takes nothing any more. -/
theorem wire_perform_close (r : Response) (aborted : Bool) (operations : List Operation) :
    let closed := (r.close aborted).2
    let late := (closed.perform (operations.takeWhile (!·.isFlush))).head
    let silent := closed.isCommitted || !operations.any Operation.isFlush
    closed.isCommitted = (r.isCommitted || !(aborted || r.isClosed))
      ∧ (closed.perform operations).wire
          = (if silent then closed.wire else (closed.sink.write late.encode).2.wire)
      ∧ ((closed.perform operations).wire = closed.wire
          ↔ silent = true ∨ closed.sink.hasRoom 1 = false) := by
  intro closed late silent
  have hclosed : closed.isClosed = true := r.isClosed_close aborted
  have hwire : (closed.perform operations).wire
      = (if silent then closed.wire else (closed.sink.write late.encode).2.wire) := by
    cases hs : silent with
    | true =>
      have hq : closed.isCommitted = true ∨ operations.any Operation.isFlush = false := by
        simpa [silent] using hs
      exact (rests_perform hclosed hq).sink.wire
    | false =>
      obtain ⟨hc, hf⟩ := Bool.or_eq_false_iff.1 hs
      exact wire_perform_of_isFlush hclosed hc (by simpa using hf)
  refine ⟨r.isCommitted_close aborted, hwire, ?_⟩
  rw [hwire]
  cases silent with
  | true => exact iff_of_true rfl (.inl rfl)
  | false =>
    have hne : late.encode ≠ [] := by
      rw [ResponseHead.encode]
      simp [Bytes.crlf]
    exact (closed.sink.wire_write_eq_iff hne).trans (or_iff_right Bool.false_ne_true).symm

/-- A response is closed by an abort before anything of it was written. A flush sends its head. -/
theorem head_behind_aborted_close :
    let closed := (({ engine := .stream } : Response).close true).2
    closed.wire = [] ∧ closed.isClosed = true
      ∧ (closed.perform [.item false .flush]).wire = Utf8.encode "HTTP/1.1 200 OK\r\n\r\n" := by
  decide +kernel

end Response

end HttpContext
