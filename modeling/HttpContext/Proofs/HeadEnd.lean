import HttpContext.Proofs.Preparation
import HttpContext.Proofs.WireFormat
/-!
Where the head of a response ends. When none of its names and values has a carriage return in it,
the first blank line is the one that ends the head, and there is no blank line in a head that is cut
short. What an ending says in the head keeps it that way.
-/
namespace HttpContext

theorem Text.not_mem_toString (n : Nat) : '\r' ∉ (toString n).toList := by
  intro hm
  have hdigit := isDigit_of_mem_toString hm
  cases hdigit

/-! ### The head of a response -/

/-- No name and no value has a carriage return in it. -/
def HeaderFields.IsUnbroken (h : HeaderFields) : Prop :=
  ∀ entry ∈ h.entries, '\r' ∉ entry.1.toList ∧ '\r' ∉ entry.2.toList

instance (h : HeaderFields) : Decidable h.IsUnbroken :=
  inferInstanceAs (Decidable (∀ entry ∈ h.entries, _))

namespace ResponseHead

variable {head : ResponseHead}

theorem lines_of_isUnbroken (h : head.headers.IsUnbroken) :
    ∀ line ∈ head.lines, line ≠ [] ∧ Bytes.IsOneLine line := by
  intro line hl
  rcases List.mem_cons.1 hl with rfl | hl
  · have hreason : '\r' ∉ head.status.reason.toList := by cases head.status <;> decide
    constructor
    · apply Utf8.encode_ne_nil
      simp
    · apply Bytes.isOneLine_of_not_mem
      apply Utf8.not_mem_encode
      simp only [String.toList_append, List.mem_append, Text.not_mem_toString, hreason]
      decide
  · obtain ⟨entry, he, rfl⟩ := List.mem_map.1 hl
    obtain ⟨hname, hvalue⟩ := h entry he
    have hcolon : Utf8.encode ": " = [58, 32] := by decide
    constructor
    · rw [hcolon]
      simp
    · apply Bytes.isOneLine_of_not_mem
      rw [hcolon, List.mem_append, List.mem_append]
      rintro ((hm | hm) | hm)
      · exact Utf8.not_mem_encode hname hm
      · simp at hm
      · exact Utf8.not_mem_encode hvalue hm

/-- The first blank line is the end of the head. -/
theorem cutAt?_encode (h : head.headers.IsUnbroken) (body : Bytes) :
    ∃ front, front ++ Bytes.blankLine = head.encode
      ∧ Bytes.cutAt? Bytes.blankLine (head.encode ++ body) = some (front, body) := by
  rw [encode_eq_block]
  exact Bytes.cutAt?_block (List.cons_ne_nil _ _) (lines_of_isUnbroken h) body

/-- A head that is cut short does not end. -/
theorem cutAt?_of_prefix_encode (h : head.headers.IsUnbroken) {bytes : Bytes}
    (hp : bytes <+: head.encode) (hshort : bytes ≠ head.encode) :
    Bytes.cutAt? Bytes.blankLine bytes = none := by
  rw [encode_eq_block] at hp hshort
  exact Bytes.cutAt?_of_prefix_block (List.cons_ne_nil _ _) (lines_of_isUnbroken h) hp hshort

end ResponseHead

/-! ### What an ending says in the head -/

namespace HeaderFields

variable {h : HeaderFields}

theorem IsUnbroken.remove (hu : h.IsUnbroken) (name : String) : (h.remove name).IsUnbroken :=
  fun entry he => hu entry ((List.mem_filter.1 he).1)

theorem IsUnbroken.set (hu : h.IsUnbroken) {name value : String} (hn : '\r' ∉ name.toList)
    (hv : '\r' ∉ value.toList) : (h.set name value).IsUnbroken := by
  have key : ∀ entries : List (String × String), IsUnbroken ⟨entries⟩ →
      IsUnbroken ⟨setIn name value entries⟩ := by
    intro entries
    induction entries with
    | nil =>
      intro _ entry he
      obtain rfl := List.mem_singleton.1 he
      exact ⟨hn, hv⟩
    | cons first rest ih =>
      intro hentries
      have hrest : IsUnbroken ⟨rest⟩ := fun entry he => hentries entry (List.mem_cons_of_mem _ he)
      have hfirst := hentries first List.mem_cons_self
      intro entry he
      simp only [setIn] at he
      split at he
      · rcases List.mem_cons.1 he with rfl | he
        · exact ⟨hfirst.1, hv⟩
        · exact hrest entry ((List.mem_filter.1 he).1)
      · rcases List.mem_cons.1 he with rfl | he
        · exact hfirst
        · exact ih hrest entry he
  exact key h.entries hu

end HeaderFields

theorem ByteRange.not_mem_contentRange (r : ByteRange) : '\r' ∉ r.contentRange.toList := by
  simp only [contentRange, String.toList_append, List.mem_append, Text.not_mem_toString]
  decide

theorem ResponseHead.isUnbroken_setContentLength {head : ResponseHead}
    (h : head.headers.IsUnbroken) (length : Nat) :
    (head.setContentLength length).headers.IsUnbroken :=
  h.set (by decide) (Text.not_mem_toString length)

theorem ResponseHead.isUnbroken_setChunked {head : ResponseHead} (h : head.headers.IsUnbroken) :
    head.setChunked.headers.IsUnbroken :=
  h.set (by decide) (by decide)

namespace Context

variable {c : Context}

theorem isUnbroken_withLength (h : c.response.head.headers.IsUnbroken) (length : Nat) :
    (c.withLength length).response.head.headers.IsUnbroken :=
  ResponseHead.isUnbroken_setContentLength (h.remove "Transfer-Encoding") length

theorem isUnbroken_announceRange (h : c.response.head.headers.IsUnbroken) (range : ByteRange) :
    (c.announceRange range).response.head.headers.IsUnbroken := by
  have haccept : (c.setHeader "Accept-Ranges" "bytes").response.head.headers.IsUnbroken :=
    h.set (by decide) (by decide)
  have hrange : ((c.setHeader "Accept-Ranges" "bytes").setHeader "Content-Range"
      range.contentRange).response.head.headers.IsUnbroken :=
    haccept.set (by decide) range.not_mem_contentRange
  unfold announceRange
  split
  · exact ResponseHead.isUnbroken_setContentLength hrange range.window
  · exact h

theorem isUnbroken_openSender (h : c.response.head.headers.IsUnbroken) :
    c.openSender.response.head.headers.IsUnbroken := by
  have hset : c.response.setChunkedWithoutLength.head.headers.IsUnbroken := by
    simp only [Response.setChunkedWithoutLength, ResponseHead.setChunkedWithoutLength]
    split
    · exact ResponseHead.isUnbroken_setChunked h
    · exact h
  unfold openSender
  split
  · unfold markAsync
    split <;> exact hset
  · exact h

theorem isUnbroken_prepare (h : c.response.head.headers.IsUnbroken) (what : Sending) :
    (c.prepare what).1.response.head.headers.IsUnbroken := by
  cases what with
  | empty status => exact isUnbroken_withLength h 0
  | bytes data => exact isUnbroken_withLength h data.length
  | file file =>
    simp only [prepare]
    split
    · exact h
    · exact isUnbroken_announceRange (isUnbroken_withLength h file.length) _
  | source source =>
    simp only [prepare]
    split
    · exact isUnbroken_announceRange h _
    · exact ResponseHead.isUnbroken_setChunked (h.remove "Content-Length")

end Context

theorem Script.isUnbroken_ending {c : Context} (h : c.response.head.headers.IsUnbroken)
    (ending : Ending) : (ending.prepare c).1.response.head.headers.IsUnbroken := by
  cases ending with
  | send what => exact Context.isUnbroken_prepare h what
  | sender what =>
    have hsender := Context.isUnbroken_openSender h
    cases what with
    | none => exact hsender
    | some what => exact Context.isUnbroken_prepare hsender what
  | drop => exact h
  | abort cause => exact h

end HttpContext
