import HttpContext.Message.ResponseHead
import HttpContext.Proofs.Chunked
import HttpContext.Proofs.LineBreaks
/-!
What a response looks like on the wire, line by line: the status line, the header lines and a blank
line; and behind them, of a body in chunks, the size and the data of each chunk, a zero, and a blank
line again.
-/
namespace HttpContext

namespace ResponseHead

/-- The lines of a head, without their breaks. -/
def lines (head : ResponseHead) : List Bytes :=
  Utf8.encode ("HTTP/1.1 " ++ toString head.status.code ++ " " ++ head.status.reason)
    :: head.headers.entries.map fun entry =>
      Utf8.encode entry.1 ++ Utf8.encode ": " ++ Utf8.encode entry.2

theorem encode_eq_block (head : ResponseHead) : head.encode = Bytes.block head.lines := by
  have hlines : (head.headers.entries.map fun entry =>
      Utf8.encode entry.1 ++ Utf8.encode ": " ++ Utf8.encode entry.2).flatMap (· ++ Bytes.crlf)
        = head.headers.encode := List.flatMap_map _ _ _
  rw [Bytes.block, lines, List.flatMap_cons, hlines]
  rfl

end ResponseHead

namespace Chunk

/-- The lines of a body in chunks, of which each holds one piece. -/
def lines (pieces : List Bytes) : List Bytes :=
  pieces.flatMap (fun piece =>
    [Utf8.encode (String.ofList (Nat.toDigits 16 piece.length)), piece]) ++ [Utf8.encode "0"]

/-- A digit is one byte. -/
theorem utf8EncodeChar_digitChar {d : Nat} (h : d < 16) :
    String.utf8EncodeChar (Nat.digitChar d) = [(Nat.digitChar d).toNat.toUInt8] := by
  decide +revert

theorem sizeDigits_eq_encode (n : Nat) :
    sizeDigits n = Utf8.encode (String.ofList (Nat.toDigits 16 n)) := by
  rw [Utf8.encode, String.toList_ofList]
  induction n using Nat.strongRecOn with
  | ind n ih =>
    by_cases h : n < 16
    · rw [sizeDigits_of_lt h, Nat.toDigits_of_lt_base h, List.flatMap_singleton,
        utf8EncodeChar_digitChar h]
    · have hle := Nat.le_of_not_lt h
      rw [sizeDigits_of_le hle, Nat.toDigits_of_base_le (by decide) hle, List.flatMap_append,
        List.flatMap_singleton, utf8EncodeChar_digitChar (Nat.mod_lt n (by decide)),
        ih (n / 16) (by omega)]

theorem encode_of_ne_nil {piece : Bytes} (h : piece ≠ []) :
    encode piece = Utf8.encode (String.ofList (Nat.toDigits 16 piece.length)) ++ Bytes.crlf ++ piece
      ++ Bytes.crlf := by
  rw [encode, List.isEmpty_eq_false_iff.2 h, sizeDigits_eq_encode]
  rfl

/-- Chunks with the last one behind them are these lines and a blank one. -/
theorem flatMap_encode_append_last {pieces : List Bytes} (h : ∀ piece ∈ pieces, piece ≠ []) :
    pieces.flatMap encode ++ last = Bytes.block (lines pieces) := by
  have hlast : last = Utf8.encode "0" ++ Bytes.crlf ++ Bytes.crlf := by decide
  have hpieces : pieces.flatMap encode = (pieces.flatMap fun piece =>
      [Utf8.encode (String.ofList (Nat.toDigits 16 piece.length)), piece]).flatMap
        (· ++ Bytes.crlf) := by
    rw [List.flatMap_assoc]
    refine List.flatMap_congr fun piece hp => ?_
    rw [encode_of_ne_nil (h piece hp)]
    simp only [List.flatMap_cons, List.flatMap_nil, List.append_assoc, List.append_nil]
  rw [hpieces, hlast]
  simp only [Bytes.block, lines, List.flatMap_append, List.flatMap_singleton, List.append_assoc]

end Chunk

end HttpContext
