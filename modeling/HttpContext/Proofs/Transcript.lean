import HttpContext.Context.Script
import HttpContext.Proofs.Progress
import HttpContext.Proofs.WireFormat
import Mathlib.Logic.Function.Iterate
/-!
The whole of what a response puts on a sound connection: the lines of its head as it was last
edited, and the buffers that were written, each as it is or as one chunk. Main statement:
`Response.wire_of_moves`.
-/
namespace HttpContext

namespace Script.Item

/-- The piece of the body that an item writes, unless that is empty. -/
def pieces : Item → List Bytes
  | .data bytes => if bytes.isEmpty then [] else [bytes]
  | .flush => []

/-- The item makes the head go out. -/
def starts : Item → Bool
  | .data bytes => !bytes.isEmpty
  | .flush => true

theorem pieces_ne_nil (item : Item) : ∀ piece ∈ item.pieces, piece ≠ [] := by
  intro piece hp
  cases item with
  | flush => exact nomatch hp
  | data bytes =>
    rw [pieces] at hp
    split at hp
    · exact nomatch hp
    · rename_i hne
      rw [List.mem_singleton.1 hp]
      exact fun hnil => hne (List.isEmpty_iff.2 hnil)

theorem pieces_of_not_starts {item : Item} (h : item.starts = false) : item.pieces = [] := by
  cases item with
  | flush => cases h
  | data bytes => exact if_pos (by simpa [starts] using h)

end Script.Item

namespace Response

open Script (Item)

variable {r : Response}

/-- The response can be written to, and whatever is written goes out. -/
structure IsReady (r : Response) : Prop where
  isSound : r.sink.IsSound
  isOpen : r.isClosed = false
  isBlocking : r.isBlocking = true

theorem IsReady.of_continues {s : Response} (h : IsReady r) (hrs : Continues r s) : IsReady s :=
  ⟨hrs.isSound h.isSound, hrs.isClosed.trans h.isOpen, hrs.isBlocking h.isBlocking⟩

/-- `s` is `r` after these pieces of the body were written to it. -/
structure Gains (r s : Response) (pieces : List Bytes) : Prop where
  continues : Continues r s
  head : s.head = r.head
  sent : s.sent = r.sent ++ pieces.flatMap (frame r.head)

theorem Gains.refl (r : Response) : Gains r r [] := ⟨.refl r, rfl, (List.append_nil _).symm⟩

theorem Gains.trans {s t : Response} {first second : List Bytes} (hrs : Gains r s first)
    (hst : Gains s t second) : Gains r t (first ++ second) := by
  refine ⟨hrs.continues.trans hst.continues, hst.head.trans hrs.head, ?_⟩
  rw [hst.sent, hrs.sent, hrs.head, List.flatMap_append, List.append_assoc]

/-! ### Items -/

theorem write_of_isBlocking (h : r.isBlocking = true) {data : Bytes} (hd : data.isEmpty = false) :
    r.write data = ((r.writePiece data).1.map fun _ => data.length, (r.writePiece data).2) := by
  simp only [write, h, hd, Bool.not_true, Bool.false_eq_true, ↓reduceIte]

theorem response_item (h : r.isBlocking = true) (whole : Bool) (item : Item) :
    (item.write whole r).2 =
      match item with
      | .data data => if data.isEmpty then r else (r.writePiece data).2
      | .flush => r.flush.2 := by
  cases item with
  | flush => rfl
  | data data =>
    cases hd : data.isEmpty with
    | true => cases whole <;> simp only [Item.write, writeAll, write, h, hd, Bool.not_true,
        Bool.false_eq_true, ↓reduceIte]
    | false => cases whole <;> simp only [Item.write, writeAll, write_of_isBlocking h hd, hd,
        Bool.false_eq_true, ↓reduceIte]

theorem flatMap_frame_pieces (head : ResponseHead) (data : Bytes) :
    (Item.data data).pieces.flatMap (frame head) = frame head data := by
  cases data with
  | nil =>
    unfold frame
    split <;> rfl
  | cons b bs => exact List.flatMap_singleton _ _

theorem IsReady.write_of_not_starts (h : IsReady r) (whole : Bool) {item : Item}
    (hs : item.starts = false) : (item.write whole r).2 = r := by
  rw [response_item h.isBlocking]
  cases item with
  | flush => cases hs
  | data data => exact if_pos (by simpa [Item.starts] using hs)

/-- An item adds its piece to the body; unless it is an empty write, the head is out after it. -/
theorem IsReady.item (h : IsReady r) (whole : Bool) (item : Item) :
    Gains r (item.write whole r).2 item.pieces
      ∧ (item.write whole r).2.isCommitted = (r.isCommitted || item.starts) := by
  rw [response_item h.isBlocking]
  cases item with
  | flush =>
    have hadds := adds_flush (r := r) h.isSound.flushes
    refine ⟨⟨hadds.continues, hadds.head, hadds.whole (hadds.sure h.isSound)⟩, ?_⟩
    rw [Item.starts, Bool.or_true]
    exact isCommitted_commit_andThen r fun s _ => continues_flushSink s
  | data data =>
    simp only
    split
    · rename_i hd
      simp only [Item.pieces, Item.starts, hd, Bool.not_true, Bool.or_false, ↓reduceIte, and_true]
      exact .refl r
    · rename_i hd
      have hadds := adds_writePiece h.isOpen data
      have hpieces : Item.pieces (.data data) = [data] := if_neg hd
      refine ⟨⟨hadds.continues, hadds.head, ?_⟩, ?_⟩
      · rw [hpieces, List.flatMap_singleton]
        exact hadds.whole (hadds.sure h.isSound)
      · rw [Item.starts, Bool.eq_false_iff.2 hd, Bool.not_false, Bool.or_true,
          writePiece_of_isOpen h.isOpen]
        exact isCommitted_commit_andThen r fun s hs => continues_put hs _

/-! ### Moves -/

/-- A change of the head. -/
inductive Edit
  | status (status : Status)
  | set (name value : String)
  | add (name value : String)
  | remove (name : String)
  | length (length : Nat)
  deriving Repr, DecidableEq

def Edit.apply (r : Response) : Edit → Response
  | .status s => r.setStatus s
  | .set name value => r.setHeader name value
  | .add name value => r.addHeader name value
  | .remove name => r.removeHeader name
  | .length n => r.setLength n

/-- One thing that is done with a response before it is closed. -/
inductive Move
  | edit (edit : Edit)
  | item (item : Item)
  deriving Repr, DecidableEq

namespace Move

/-- A buffer is written by one write, or with `whole` by as many as it takes. -/
def apply (whole : Bool) (r : Response) : Move → Response
  | .edit e => e.apply r
  | .item i => (i.write whole r).2

def edit? : Move → Option Edit
  | .edit e => some e
  | .item _ => none

def starts : Move → Bool
  | .edit _ => false
  | .item i => i.starts

def pieces : Move → List Bytes
  | .edit _ => []
  | .item i => i.pieces

end Move

theorem pieces_ne_nil (moves : List Move) :
    ∀ piece ∈ moves.flatMap Move.pieces, piece ≠ [] := by
  intro piece hp
  obtain ⟨move, _, hpiece⟩ := List.mem_flatMap.1 hp
  cases move with
  | edit e => cases hpiece
  | item i => exact i.pieces_ne_nil piece hpiece

/-- As long as the head is not out, nothing of the body is. -/
theorem pieces_of_not_starts {moves : List Move} (h : moves.any Move.starts = false) :
    moves.flatMap Move.pieces = [] := by
  apply List.flatMap_eq_nil_iff.2
  intro move hmove
  have hstill : move.starts = false := by
    simpa using List.any_eq_false.1 h move hmove
  cases move with
  | edit e => rfl
  | item i => exact Item.pieces_of_not_starts hstill

/-- No edit comes after the head has gone out. -/
def isFrozen : List Move → Bool
  | [] => true
  | move :: rest => if move.starts then (rest.filterMap Move.edit?).isEmpty else isFrozen rest

def play (whole : Bool) (r : Response) (moves : List Move) : Response :=
  moves.foldl (Move.apply whole) r

/-- What the edits alone make of a response. -/
def edited (r : Response) (moves : List Move) : Response :=
  (moves.filterMap Move.edit?).foldl Edit.apply r

theorem isCommitted_edit (r : Response) (edit : Edit) :
    (edit.apply r).isCommitted = r.isCommitted := by
  cases edit <;> rfl

theorem continues_edit (r : Response) (edit : Edit) : Continues r (edit.apply r) := by
  have hcommitted := isCommitted_edit r edit
  cases edit <;> exact .of_edit rfl rfl id rfl hcommitted

/-- Without edits, the pieces that are written are all that is added. -/
theorem IsReady.play (h : IsReady r) (whole : Bool) {moves : List Move}
    (hm : moves.filterMap Move.edit? = []) :
    Gains r (r.play whole moves) (moves.flatMap Move.pieces)
      ∧ (r.play whole moves).isCommitted = (r.isCommitted || moves.any Move.starts) := by
  induction moves generalizing r with
  | nil => exact ⟨.refl r, (Bool.or_false _).symm⟩
  | cons move rest ih =>
    cases move with
    | edit edit => cases hm
    | item item =>
      obtain ⟨hgains, hcommitted⟩ := h.item whole item
      obtain ⟨hrest, hcommitted'⟩ := ih (h.of_continues hgains.continues) hm
      refine ⟨hgains.trans hrest, ?_⟩
      rw [List.any_cons, ← Bool.or_assoc]
      exact hcommitted'.trans (congrArg (· || rest.any Move.starts) hcommitted)

/-- When the head is edited only before it goes out, it goes out with all of its edits, and the
pieces that were written follow it. -/
theorem IsReady.play_of_isFrozen (h : IsReady r) (hc : r.isCommitted = false) (whole : Bool)
    {moves : List Move} (hm : isFrozen moves = true) :
    (r.play whole moves).head = (r.edited moves).head
      ∧ (r.play whole moves).sent = r.wire ++ (r.edited moves).head.encode
          ++ (moves.flatMap Move.pieces).flatMap (frame (r.edited moves).head)
      ∧ (r.play whole moves).isCommitted = moves.any Move.starts
      ∧ Continues r (r.play whole moves) := by
  induction moves generalizing r with
  | nil =>
    refine ⟨rfl, ?_, hc, .refl r⟩
    rw [List.flatMap_nil, List.flatMap_nil, List.append_nil]
    exact sent_of_not_isCommitted hc
  | cons move rest ih =>
    cases move with
    | edit edit =>
      have hedit := continues_edit r edit
      have hcommitted := (isCommitted_edit r edit).trans hc
      obtain ⟨hhead, hsent, hstarted, hcontinues⟩ := ih (h.of_continues hedit) hcommitted hm
      rw [(hedit.wire hcommitted).2] at hsent
      exact ⟨hhead, hsent, hstarted, hedit.trans hcontinues⟩
    | item item =>
      cases hs : item.starts with
      | true =>
        -- the head goes out now, and no edit is left
        have hfrozen : rest.filterMap Move.edit? = [] := by
          rw [isFrozen, Move.starts, hs] at hm
          exact List.isEmpty_iff.1 hm
        have hedited : r.edited (.item item :: rest) = r := by
          simp only [edited, List.filterMap_cons, Move.edit?, hfrozen, List.foldl_nil]
        have hmoves : (Move.item item :: rest).filterMap Move.edit? = [] := hfrozen
        obtain ⟨hgains, hstarted⟩ := h.play whole hmoves
        rw [hedited]
        refine ⟨hgains.head, ?_, by rw [hstarted, hc, Bool.false_or], hgains.continues⟩
        rw [hgains.sent, sent_of_not_isCommitted hc]
      | false =>
        -- an empty write leaves everything as it is
        have hwrite := h.write_of_not_starts whole hs
        have hpieces := Item.pieces_of_not_starts hs
        have hrest := ih h hc (by rwa [isFrozen, Move.starts, hs] at hm)
        have hplay : r.play whole (.item item :: rest) = r.play whole rest :=
          congrArg (·.play whole rest) hwrite
        rw [hplay, List.flatMap_cons, Move.pieces, hpieces, List.any_cons, Move.starts, hs]
        exact hrest

/-! ### The whole response -/

/-- The body of a response: the lines of its chunks, or its pieces as they are. -/
def body (head : ResponseHead) (pieces : List Bytes) : Bytes :=
  if head.isChunked then Bytes.block (Chunk.lines pieces) else pieces.flatten

theorem flatMap_frame_append (head : ResponseHead) {pieces : List Bytes}
    (hp : ∀ piece ∈ pieces, piece ≠ []) :
    pieces.flatMap (frame head) ++ (if head.isChunked then Chunk.last else []) = body head pieces := by
  unfold body
  split
  · rename_i hc
    rw [frame_of_isChunked hc, Chunk.flatMap_encode_append_last hp]
  · rename_i hc
    rw [frame_of_not_isChunked (Bool.eq_false_iff.2 hc), List.append_nil, List.flatMap_id]

/-- A close settles the head that the edits have made: if nothing has been written, and neither a
length nor chunks are announced, the head announces a length of zero. -/
theorem IsReady.settleLength_play (h : IsReady r) (hc : r.isCommitted = false) (whole : Bool)
    {moves : List Move} (hm : isFrozen moves = true) :
    let edited := (r.edited moves).head
    let head :=
      if moves.any Move.starts || edited.contentLength.isSome || edited.isChunked then edited
      else edited.setContentLength 0
    (r.play whole moves).settleLength.head = head
      ∧ (r.play whole moves).settleLength.sent
        = r.wire ++ head.encode ++ (moves.flatMap Move.pieces).flatMap (frame head) := by
  intro edited head
  obtain ⟨hhead, hsent, hstarted, hcontinues⟩ := h.play_of_isFrozen hc whole hm
  rw [settleLength_eq, hstarted, hhead]
  cases hcond : moves.any Move.starts || edited.contentLength.isSome || edited.isChunked with
  | true =>
    have he : head = edited := if_pos hcond
    rw [he]
    exact ⟨hhead, hsent⟩
  | false =>
    -- nothing has been written, so the body is empty, and the head says so
    have he : head = edited.setContentLength 0 := by
      apply if_neg
      rw [hcond]
      exact Bool.false_ne_true
    have hquiet : moves.any Move.starts = false := by
      rw [Bool.or_assoc, Bool.or_eq_false_iff] at hcond
      exact hcond.1
    have hsettled : ((r.play whole moves).setLength 0).head = head := by
      rw [he, setLength, hhead]
    have hwire : ((r.play whole moves).setLength 0).wire = r.wire :=
      (hcontinues.wire (hstarted.trans hquiet)).2
    refine ⟨hsettled, ?_⟩
    rw [pieces_of_not_starts hquiet, List.flatMap_nil, List.append_nil]
    calc ((r.play whole moves).setLength 0).sent
        = ((r.play whole moves).setLength 0).wire
            ++ ((r.play whole moves).setLength 0).head.encode :=
          sent_of_not_isCommitted (hstarted.trans hquiet)
      _ = r.wire ++ head.encode := by
          rw [hwire, hsettled]

/-- Further closes add nothing to the first. -/
theorem iterate_close (r : Response) (k : Nat) :
    (fun r : Response => (r.close false).2)^[k + 1] r = (r.close false).2 := by
  rw [Function.iterate_succ_apply]
  apply Function.iterate_fixed
  rw [close_of_isClosed (r.isClosed_close false)]

/-- What a response puts on a sound connection, if its head is edited only before it goes out: the
lines of the head with all of its edits, and every buffer that was written, in the framing of that
head. A response that is closed before anything was written announces that it is empty. -/
theorem wire_of_moves (engine : Engine) {sink : Sink} (hs : sink.IsSound) (whole : Bool)
    {moves : List Move} (hm : isFrozen moves = true) (k : Nat) :
    let fresh : Response := { engine, sink, isBlocking := true }
    let edited := (fresh.edited moves).head
    let head :=
      if moves.any Move.starts || edited.contentLength.isSome || edited.isChunked then edited
      else edited.setContentLength 0
    let pieces := moves.flatMap Move.pieces
    let closed := (fun r : Response => (r.close false).2)^[k + 1] (fresh.play whole moves)
    closed.wire = sink.wire ++ Bytes.block head.lines ++ body head pieces
      ∧ (head.isChunked = true → Chunk.decode? (body head pieces) = some (pieces.flatten, [])) := by
  intro fresh edited head pieces closed
  have hready : IsReady fresh := ⟨hs, rfl, rfl⟩
  obtain ⟨_, _, _, hcontinues⟩ := hready.play_of_isFrozen rfl whole hm
  have hplayed := hready.of_continues hcontinues
  obtain ⟨hhead, hsent⟩ := hready.settleLength_play rfl whole hm
  constructor
  · calc closed.wire = ((fresh.play whole moves).close false).2.wire :=
          congrArg wire (iterate_close _ k)
      _ = (fresh.play whole moves).settleLength.sent ++ _ :=
          (close_of_isSound hplayed.isSound hplayed.isOpen).2
      _ = sink.wire ++ head.encode ++ (pieces.flatMap (frame head)
            ++ if head.isChunked then Chunk.last else []) := by
          rw [hhead, hsent, List.append_assoc _ (pieces.flatMap (frame head))]
          rfl
      _ = sink.wire ++ Bytes.block head.lines ++ body head pieces := by
          rw [flatMap_frame_append head (pieces_ne_nil moves), head.encode_eq_block]
  · intro hc
    have hbody : body head pieces = pieces.flatMap Chunk.encode ++ Chunk.last ++ [] := by
      rw [List.append_nil, Chunk.flatMap_encode_append_last (pieces_ne_nil moves)]
      exact if_pos hc
    rw [hbody]
    exact Chunk.decode?_chunks pieces []

/-- Two buffers in chunks, with an empty write before the last edit, and two closes. -/
theorem wire_of_moves_chunked :
    let moves : List Move := [.edit (.set "Transfer-Encoding" "chunked"), .item (.data []),
      .edit (.status .notFound), .item (.data [97, 98]), .item .flush, .item (.data [99])]
    let fresh : Response := { engine := .callback, sink := {}, isBlocking := true }
    let edited := (fresh.edited moves).head
    let head :=
      if moves.any Move.starts || edited.contentLength.isSome || edited.isChunked then edited
      else edited.setContentLength 0
    let pieces := moves.flatMap Move.pieces
    let closed := (fun r : Response => (r.close false).2)^[1 + 1] (fresh.play false moves)
    isFrozen moves = true
      ∧ closed.wire = Utf8.encode ("HTTP/1.1 404 Not Found\r\nTransfer-Encoding: chunked\r\n\r\n"
          ++ "2\r\nab\r\n1\r\nc\r\n0\r\n\r\n")
      ∧ closed.wire = [] ++ Bytes.block head.lines ++ body head pieces
      ∧ (head.isChunked = true → Chunk.decode? (body head pieces) = some (pieces.flatten, [])) :=
  ⟨rfl, by decide +kernel, wire_of_moves .callback ⟨rfl, rfl, rfl, rfl⟩ false rfl 1⟩

end Response

end HttpContext
