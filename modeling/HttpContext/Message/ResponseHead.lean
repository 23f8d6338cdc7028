import HttpContext.Message.HeaderFields
import HttpContext.Message.Status
/-!
The status line and the header lines of a response, and what they say about its body.
-/
namespace HttpContext

structure ResponseHead where
  status : Status := .ok
  headers : HeaderFields := {}
  deriving Repr, DecidableEq

namespace ResponseHead

/-- The announced length of the body, when it is a number. -/
def contentLength (head : ResponseHead) : Option Nat :=
  (head.headers.get? "Content-Length").bind fun value => Text.count? (Text.trim value.toList)

def setContentLength (head : ResponseHead) (length : Nat) : ResponseHead :=
  { head with headers := head.headers.set "Content-Length" (toString length) }

def isChunked (head : ResponseHead) : Bool :=
  match head.headers.get? "Transfer-Encoding" with
  | some value => Text.sameName value "chunked"
  | none => false

theorem isChunked_set (head : ResponseHead) (name value : String) :
    { head with headers := head.headers.set name value }.isChunked
      = if Text.sameName name "Transfer-Encoding" then Text.sameName value "chunked"
        else head.isChunked := by
  simp only [isChunked, HeaderFields.get?_eq_head?, HeaderFields.values_set]
  cases Text.sameName name "Transfer-Encoding" <;> rfl

/-- A line of another name says nothing about chunks. -/
theorem isChunked_set_of_ne (head : ResponseHead) {name : String} (value : String)
    (hn : Text.sameName name "Transfer-Encoding" = false) :
    { head with headers := head.headers.set name value }.isChunked = head.isChunked := by
  simp only [isChunked_set, hn, Bool.false_eq_true, ↓reduceIte]

theorem isChunked_remove (head : ResponseHead) :
    { head with headers := head.headers.remove "Transfer-Encoding" }.isChunked = false := by
  simp only [isChunked, HeaderFields.get?_remove_self]

theorem isChunked_setContentLength (head : ResponseHead) (length : Nat) :
    (head.setContentLength length).isChunked = head.isChunked :=
  head.isChunked_set_of_ne (toString length) (by decide)

def setChunked (head : ResponseHead) : ResponseHead :=
  { head with headers := head.headers.set "Transfer-Encoding" "chunked" }

theorem isChunked_setChunked (head : ResponseHead) : head.setChunked.isChunked = true := by
  simp only [isChunked, setChunked, HeaderFields.get?_set_self, Text.sameName_refl]

/-- Chunks, unless a length was announced. -/
def setChunkedWithoutLength (head : ResponseHead) : ResponseHead :=
  if head.contentLength.isNone then head.setChunked else head

/-- A length that fits in 64 bits is announced as it was set. -/
theorem contentLength_setContentLength (head : ResponseHead) {n : Nat} (h : n < UInt64.size) :
    (head.setContentLength n).contentLength = some n := by
  simp only [contentLength, setContentLength, HeaderFields.get?_set_self, Option.bind_some,
    Text.trim_toString, Text.count?_toString h]

theorem contentLength_lt {head : ResponseHead} {length : Nat}
    (h : head.contentLength = some length) : length < UInt64.size := by
  obtain ⟨value, _, hcount⟩ := Option.bind_eq_some_iff.1 h
  exact Text.count?_lt hcount

theorem contentLength_setChunked (head : ResponseHead) :
    head.setChunked.contentLength = head.contentLength := by
  have hn : Text.sameName "Transfer-Encoding" "Content-Length" = false := by decide
  simp only [contentLength, setChunked, HeaderFields.get?_set_of_ne _ _ hn]

theorem contentLength_setChunkedWithoutLength (head : ResponseHead) :
    head.setChunkedWithoutLength.contentLength = head.contentLength := by
  unfold setChunkedWithoutLength
  split
  · exact head.contentLength_setChunked
  · rfl

theorem isChunked_setChunkedWithoutLength {head : ResponseHead} (h : head.isChunked = true) :
    head.setChunkedWithoutLength.isChunked = true := by
  unfold setChunkedWithoutLength
  split
  · exact head.isChunked_setChunked
  · exact h

/-- A body that goes out whole is not in chunks, whatever was announced before. -/
theorem remove_setChunkedWithoutLength (head : ResponseHead) :
    { head.setChunkedWithoutLength with
      headers := head.setChunkedWithoutLength.headers.remove "Transfer-Encoding" }
      = { head with headers := head.headers.remove "Transfer-Encoding" } := by
  unfold setChunkedWithoutLength
  split
  · simp only [setChunked, HeaderFields.remove_set_self]
  · rfl

/-- A body that goes out in chunks has no length, whatever was announced before. -/
theorem setChunked_setChunkedWithoutLength (head : ResponseHead) :
    { head.setChunkedWithoutLength with
      headers := head.setChunkedWithoutLength.headers.remove "Content-Length" }.setChunked
      = { head with headers := head.headers.remove "Content-Length" }.setChunked := by
  have hn : Text.sameName "Transfer-Encoding" "Content-Length" = false := by decide
  unfold setChunkedWithoutLength
  split
  · simp only [setChunked, HeaderFields.remove_set_of_ne _ _ hn, HeaderFields.set_set_self]
  · rfl

def statusLine (status : Status) : Bytes :=
  Utf8.encode ("HTTP/1.1 " ++ toString status.code ++ " " ++ status.reason) ++ Bytes.crlf

def encode (head : ResponseHead) : Bytes :=
  statusLine head.status ++ head.headers.encode ++ Bytes.crlf

end ResponseHead

end HttpContext
