import HttpContext.Bytes
import HttpContext.Fault
/-!
Bytes that arrive in pieces, with failures between them. A read takes from one piece only; `fill`
reads on until a buffer is full, trying again after an interruption.
-/
namespace HttpContext

inductive Source.Event
  | data (bytes : Bytes)
  | fail (fault : Fault)
  deriving Repr, DecidableEq

/-- What is still to come, in order; after it every read finds nothing. -/
abbrev Source := List Source.Event

namespace Source

def ofBytes (bytes : Bytes) : Source := [.data bytes]

/-- The bytes that are still to come, whatever fails between them. -/
def content : Source → Bytes
  | [] => []
  | .data bytes :: rest => bytes ++ content rest
  | .fail _ :: rest => content rest

@[simp] theorem content_ofBytes (bytes : Bytes) : content (ofBytes bytes) = bytes :=
  List.append_nil bytes

/-- How much is left: every event counts, and every byte. -/
def weight : Source → Nat
  | [] => 0
  | .data bytes :: rest => bytes.length + 1 + weight rest
  | .fail _ :: rest => 1 + weight rest

/-- The rest of a piece in front of the rest of the source. -/
def putBack (bytes : Bytes) (rest : Source) : Source :=
  if bytes.isEmpty then rest else .data bytes :: rest

/-- One read into a buffer with this much room; without room it meets no failure. -/
def read (room : Nat) : Source → Except Fault Bytes × Source
  | [] => (.ok [], [])
  | .fail fault :: rest =>
    if room = 0 then (.ok [], .fail fault :: rest) else (.error fault, rest)
  | .data bytes :: rest =>
    if bytes.isEmpty then read room rest
    else (.ok (bytes.take room), putBack (bytes.drop room) rest)

/-- Reads until a buffer with this much room is full or the source ends. -/
def fill (room : Nat) : Source → Except Fault Bytes × Source
  | [] => (.ok [], [])
  | .fail fault :: rest =>
    if room = 0 then (.ok [], .fail fault :: rest)
    else if fault.isInterrupted then fill room rest
    else (.error fault, rest)
  | .data bytes :: rest =>
    match bytes.drop room with
    -- the whole piece finds room
    | [] =>
      match fill (room - bytes.length) rest with
      | (.ok more, left) => (.ok (bytes ++ more), left)
      | (.error fault, left) => (.error fault, left)
    | left => (.ok (bytes.take room), .data left :: rest)

theorem weight_putBack (bytes : Bytes) (rest : Source) :
    weight (putBack bytes rest) ≤ bytes.length + 1 + weight rest := by
  unfold putBack
  split <;> simp [weight]

/-- A read uses up what it delivers. -/
theorem weight_read {room : Nat} {s rest : Source} {bytes : Bytes}
    (h : read room s = (.ok bytes, rest)) : weight rest + bytes.length ≤ weight s := by
  fun_induction read room s with
  | case1 => cases h; simp
  | case2 => cases h; simp
  | case3 => cases h
  | case4 piece tail hb ih =>
    have := ih h
    simp only [weight]
    omega
  | case5 piece tail hb =>
    cases h
    have hw := weight_putBack (piece.drop room) tail
    have hl : (piece.take room).length + (piece.drop room).length = piece.length := by
      rw [← List.length_append, List.take_append_drop]
    simp only [weight]
    omega

theorem weight_read_error {room : Nat} {s rest : Source} {fault : Fault}
    (h : read room s = (.error fault, rest)) : weight rest < weight s := by
  fun_induction read room s with
  | case1 => cases h
  | case2 => cases h
  | case3 => cases h; simp [weight]
  | case4 piece tail hb ih =>
    have := ih h
    simp only [weight]
    omega
  | case5 => cases h

theorem weight_fill {room : Nat} {s rest : Source} {bytes : Bytes}
    (h : fill room s = (.ok bytes, rest)) : weight rest + bytes.length ≤ weight s := by
  fun_induction fill room s generalizing bytes with
  | case1 => cases h; simp
  | case2 => cases h; simp
  | case3 room f tail hr hi ih =>
    have := ih h
    simp only [weight]
    omega
  | case4 => cases h
  | case5 room piece tail hd more left hm ih =>
    cases h
    have := ih hm
    simp only [weight, List.length_append]
    omega
  | case6 => cases h
  | case7 room piece tail hd =>
    cases h
    have hl : (piece.take room).length + (piece.drop room).length = piece.length := by
      rw [← List.length_append, List.take_append_drop]
    simp only [weight]
    omega

@[simp] theorem content_putBack (bytes : Bytes) (rest : Source) :
    content (putBack bytes rest) = bytes ++ content rest := by
  unfold putBack
  split
  · rename_i hb
    simp [List.isEmpty_iff.1 hb]
  · rfl

/-- What a read delivers is the front of the content. -/
theorem content_read {room : Nat} {s rest : Source} {bytes : Bytes}
    (h : read room s = (.ok bytes, rest)) : content s = bytes ++ content rest := by
  fun_induction read room s with
  | case1 => cases h; rfl
  | case2 => cases h; rfl
  | case3 => cases h
  | case4 piece tail hb ih => simpa [content, List.isEmpty_iff.1 hb] using ih h
  | case5 piece tail hb =>
    cases h
    rw [content_putBack, ← List.append_assoc, List.take_append_drop]
    rfl

/-- What fills a buffer is the front of the content. -/
theorem content_fill {room : Nat} {s rest : Source} {bytes : Bytes}
    (h : fill room s = (.ok bytes, rest)) : content s = bytes ++ content rest := by
  fun_induction fill room s generalizing bytes with
  | case1 => cases h; rfl
  | case2 => cases h; rfl
  | case3 room f tail hr hi ih => exact ih h
  | case4 => cases h
  | case5 room piece tail hd more left hm ih =>
    cases h
    simp [content, ih hm]
  | case6 => cases h
  | case7 room piece tail hd =>
    cases h
    simp only [content]
    rw [← List.append_assoc, List.take_append_drop]

/-- The source cut off after `n` bytes; what would come later is never reached. -/
def take (n : Nat) : Source → Source
  | [] => []
  | .fail fault :: rest => if n = 0 then [] else .fail fault :: take n rest
  | .data bytes :: rest =>
    if n = 0 then []
    else .data (bytes.take n) :: take (n - bytes.length) rest

/-- The source from a position on. Nothing in front of that is read. -/
def seek (n : Nat) : Source → Source
  | [] => []
  | .fail fault :: rest => if n = 0 then .fail fault :: rest else seek n rest
  | .data bytes :: rest =>
    match bytes.drop n with
    | [] => seek (n - bytes.length) rest
    | left => .data left :: rest

/-- The source after its first `n` bytes, which are read. -/
def skip (n : Nat) : Source → Except Fault Source
  | [] => if n = 0 then .ok [] else .error .streamTooShort
  | .fail fault :: rest =>
    if n = 0 then .ok (.fail fault :: rest)
    else if fault.isInterrupted then skip n rest
    else .error fault
  | .data bytes :: rest =>
    match bytes.drop n with
    | [] => skip (n - bytes.length) rest
    | left => .ok (.data left :: rest)

end Source

end HttpContext
