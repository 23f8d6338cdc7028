import HttpContext.Proofs.HeadEnd
import HttpContext.Proofs.PartHeaders
import HttpContext.Proofs.Spooling
import Mathlib.Data.List.Forall2
/-!
Multipart bodies are read back as they were written: every part in its place, with the content it
had, however close that comes to the delimiter. Main statement: `Multipart.read_encode`.
-/
namespace HttpContext

namespace Bytes

theorem cutAt?_mark {mark : Bytes} (h : mark ≠ []) (rest : Bytes) :
    cutAt? mark (mark ++ rest) = some ([], rest) := by
  obtain ⟨b, more, rfl⟩ := List.exists_cons_of_ne_nil h
  have hfound : (b :: more).isPrefixOf (b :: (more ++ rest)) = true :=
    List.isPrefixOf_iff_prefix.2 (List.prefix_append (b :: more) rest)
  rw [List.cons_append, cutAt?, if_pos hfound, ← List.cons_append, List.drop_left]

/-- A mark whose first byte is not repeated in it is found right behind a content that it does not
occur in: it cannot begin in the content and end in the mark. -/
theorem cutAt?_content {b : UInt8} {mark content : Bytes} (hb : b ∉ mark)
    (h : ¬ (b :: mark) <:+: content) (rest : Bytes) :
    cutAt? (b :: mark) (content ++ (b :: mark ++ rest)) = some (content, rest) := by
  induction content with
  | nil => exact cutAt?_mark (List.cons_ne_nil b mark) rest
  | cons c content ih =>
    have hrest := ih fun hi => h (List.infix_cons hi)
    have hno : ¬ (b :: mark).isPrefixOf (c :: content ++ (b :: mark ++ rest)) = true := by
      rw [List.isPrefixOf_iff_prefix]
      rintro ⟨tail, htail⟩
      rcases List.append_eq_append_iff.1 htail with ⟨more, hin, _⟩ | ⟨shared, hshared, hagain⟩
      · exact h (hin ▸ (List.prefix_append _ more).isInfix)
      · cases shared with
        | nil =>
          rw [hshared, List.append_nil] at h
          exact h (List.infix_refl _)
        | cons first more =>
          -- the mark would go on where the next one begins
          obtain rfl : b = first := (List.cons.inj hagain).1
          have hmark : mark = content ++ b :: more := (List.cons.inj hshared).2
          exact hb (hmark ▸ by simp)
    rw [List.cons_append, cutAt?, ← List.cons_append, if_neg hno, hrest]
    rfl

end Bytes

namespace Multipart

variable {boundary : String}

theorem parts_dashes (rest : Bytes) : parts boundary (dashes ++ rest) = ([], none) := by
  rw [parts]
  rfl

/-- What is read of the part behind the line break of its delimiter. -/
theorem parts_crlf (bytes : Bytes) :
    parts boundary (Bytes.crlf ++ bytes) = match Bytes.cutAt? Bytes.blankLine bytes with
      | none => ([], some .headersUnterminated)
      | some (head, rest) => match Utf8.decode head with
        | .error _ => ([], some .headersNotUtf8)
        | .ok head => match Bytes.cutAt? (Bytes.crlf ++ delimiter boundary) rest with
          | none => ([], some .closingMissing)
          | some (content, rest) =>
            (⟨head, content⟩ :: (parts boundary rest).1, (parts boundary rest).2) := by
  have hbreak : dashes.isPrefixOf (Bytes.crlf ++ bytes) = false
      ∧ Bytes.crlf.isPrefixOf (Bytes.crlf ++ bytes) = true := ⟨rfl, rfl⟩
  have hdrop : (Bytes.crlf ++ bytes).drop 2 = bytes := rfl
  rw [parts]
  simp only [hbreak, Bool.false_eq_true, Bool.not_true, ↓reduceIte]
  split
  · rename_i hnone
    rw [hdrop] at hnone
    rw [hnone]
  · rename_i head rest hhead
    rw [hdrop] at hhead
    rw [hhead]
    simp only
    cases Utf8.decode head with
    | error _ => rfl
    | ok head =>
      simp only
      split <;> rename_i hcontent <;> rw [hcontent]

/-- The content of a part ends at the next delimiter. -/
theorem cutAt?_closing (hb : '\r' ∉ boundary.toList) {content : Bytes}
    (hcontent : ¬ Bytes.crlf ++ delimiter boundary <:+: content) (rest : Bytes) :
    Bytes.cutAt? (Bytes.crlf ++ delimiter boundary)
      (content ++ (Bytes.crlf ++ delimiter boundary ++ rest)) = some (content, rest) := by
  have hmark : 13 ∉ (10 :: delimiter boundary : Bytes) := by
    have hboundary := Utf8.not_mem_encode hb
    simp [delimiter, dashes, hboundary]
  exact Bytes.cutAt?_content hmark hcontent rest

/-- One part is taken off, whatever follows its delimiter. -/
theorem parts_part {part : Part} (hb : '\r' ∉ boundary.toList)
    (hhead : ∀ rest, Bytes.cutAt? Bytes.blankLine
      (Utf8.encode part.head ++ (Bytes.blankLine ++ rest)) = some (Utf8.encode part.head, rest))
    (hcontent : ¬ Bytes.crlf ++ delimiter boundary <:+: part.content) (rest : Bytes) :
    parts boundary (Bytes.crlf ++ (Utf8.encode part.head ++ (Bytes.blankLine ++ (part.content
        ++ (Bytes.crlf ++ delimiter boundary ++ rest)))))
      = (part :: (parts boundary rest).1, (parts boundary rest).2) := by
  -- first the head is cut off at the blank line, then the content at the delimiter
  rw [parts_crlf, hhead]
  simp only [Utf8.decode_encode, cutAt?_closing hb hcontent rest]

/-- All parts are found between the delimiters, and what follows the last one is left aside. -/
theorem parts_encode (hb : '\r' ∉ boundary.toList) {written : List Part}
    (hhead : ∀ part ∈ written, ∀ line ∈ Text.lines part.head.toList, line ≠ [] ∧ '\r' ∉ line)
    (hcontent : ∀ part ∈ written, ¬ Bytes.crlf ++ delimiter boundary <:+: part.content)
    (epilogue : Bytes) :
    ∃ rest, encode boundary written ++ epilogue = delimiter boundary ++ rest
      ∧ parts boundary rest = (written, none) := by
  induction written with
  | nil => exact ⟨dashes ++ epilogue, List.append_assoc _ _ _, parts_dashes epilogue⟩
  | cons part more ih =>
    obtain ⟨rest, hrest, hparts⟩ := ih (fun p hp => hhead p (List.mem_cons_of_mem part hp))
      (fun p hp => hcontent p (List.mem_cons_of_mem part hp))
    have hfull : [] ∉ Text.lines part.head.toList := fun hm =>
      (hhead part List.mem_cons_self [] hm).1 rfl
    have hpart := parts_part hb (Utf8.cutAt?_encode hfull)
      (hcontent part List.mem_cons_self) rest
    rw [hparts] at hpart
    refine ⟨_, ?_, hpart⟩
    simp only [encode, List.append_assoc, hrest]

end Multipart

namespace Spool

variable {s t : Spool} {uploads : List Upload}

theorem lt_of_bytes {upload : Upload} {content : Bytes} (h : s.bytes upload = .ok content) :
    upload.id < s.cells.length := by
  by_contra hlt
  have hnone : s.cells[upload.id]? = none := List.getElem?_eq_none (Nat.le_of_not_lt hlt)
  rw [bytes, storage, hnone] at h
  cases h

/-- More uploads change nothing in those that are there. -/
theorem Extends.storage_eq (h : s.Extends t uploads) {upload : Upload}
    (hlt : upload.id < s.cells.length) : t.storage upload = s.storage upload := by
  obtain ⟨cells, ht, _⟩ := h
  rw [storage, storage, ht, List.getElem?_append_left hlt]

theorem refusal?_of_isSound (hs : s.directory.IsSound) (content : Bytes) (threshold : Nat) :
    s.refusal? content threshold = none := by
  unfold refusal?
  split
  · rfl
  · exact hs _

/-- Storing an upload is refused and changes nothing, or adds it with its content: on disk if that
is longer than the threshold. -/
theorem add_cases (s : Spool) (name fileName : String) (contentType : Option String)
    (content : Bytes) (threshold : Nat) :
    (∃ fault, s.refusal? content threshold = some fault
        ∧ s.add name fileName contentType content threshold = (.error fault, s))
      ∨ ∃ t, let upload : Upload :=
          ⟨s.cells.length, name, fileName, contentType, content.length⟩
        s.add name fileName contentType content threshold = (.ok upload, t)
          ∧ t.directory = s.directory ∧ s.Extends t [upload] ∧ t.bytes upload = .ok content
          ∧ (t.isOnDisk upload = true ↔ threshold < content.length) := by
  unfold add
  cases s.refusal? content threshold with
  | some fault => exact .inl ⟨fault, rfl, rfl⟩
  | none =>
    refine .inr ⟨_, rfl, rfl, ⟨[_], rfl, rfl, by simp⟩, ?_, ?_⟩
    · simp only [bytes, storage, List.getElem?_concat_length, Storage.ofContent]
      by_cases hshort : content.length ≤ threshold <;> simp only [hshort, ↓reduceIte]
    · simp only [isOnDisk, storage, List.getElem?_concat_length, Storage.ofContent]
      by_cases hshort : content.length ≤ threshold
      · simp [hshort]
      · simp [hshort, Nat.lt_of_not_le hshort]

end Spool

namespace FormEntry

/-- The entry is the part that was submitted, and the spool has the content of its file: on disk if
it is longer than the threshold. -/
def Holds (threshold : Nat) (spool : Spool) (submitted : Part.Description × Bytes) :
    FormEntry → Prop
  | field name value => submitted.1.fileName = none ∧ name = submitted.1.name
    ∧ value = Utf8.decodeLossy submitted.2
  | file upload => submitted.1.fileName = some upload.fileName ∧ upload.name = submitted.1.name
    ∧ upload.contentType = submitted.1.contentType ∧ upload.size = submitted.2.length
    ∧ spool.bytes upload = .ok submitted.2
    ∧ (spool.isOnDisk upload = true ↔ threshold < submitted.2.length)

variable {threshold : Nat} {s t : Spool}

theorem Holds.of_extends {submitted : Part.Description × Bytes} {entry : FormEntry}
    (h : Holds threshold s submitted entry) {uploads : List Upload} (hst : s.Extends t uploads) :
    Holds threshold t submitted entry := by
  cases entry with
  | field name value => exact h
  | file upload =>
    obtain ⟨hfile, hname, htype, hsize, hbytes, hdisk⟩ := h
    have hstorage := hst.storage_eq (Spool.lt_of_bytes hbytes)
    refine ⟨hfile, hname, htype, hsize, ?_, ?_⟩
    · rwa [Spool.bytes, hstorage]
    · rwa [Spool.isOnDisk, hstorage]

/-- A part that describes itself becomes an entry that holds it. -/
theorem holds_entry (threshold : Nat) {d : Part.Description} (hd : d.IsPlain) (content : Bytes)
    (hs : s.directory.IsSound) :
    ∃ entry t, (⟨d.head, content⟩ : Part).entry threshold s = (.ok entry, t)
      ∧ Holds threshold t (d, content) entry ∧ t.directory.IsSound := by
  simp only [Part.entry, Part.description_head hd]
  cases hf : d.fileName with
  | none => exact ⟨.field d.name (Utf8.decodeLossy content), s, rfl, ⟨hf, rfl, rfl⟩, hs⟩
  | some fileName =>
    rcases s.add_cases d.name fileName d.contentType content threshold with
      ⟨fault, hrefused, _⟩ | ⟨t, hadd, hkept, _, hbytes, hdisk⟩
    · rw [Spool.refusal?_of_isSound hs] at hrefused
      cases hrefused
    · simp only [hadd]
      exact ⟨_, t, rfl, ⟨hf, rfl, rfl, rfl, hbytes, hdisk⟩, hkept ▸ hs⟩

/-- The entries hold the parts one by one. -/
theorem holds_ofParts (threshold : Nat) {submitted : List (Part.Description × Bytes)}
    (hd : ∀ s ∈ submitted, s.1.IsPlain) (hs : s.directory.IsSound) :
    ∃ entries t, ofParts threshold (submitted.map fun s => ⟨s.1.head, s.2⟩) s = (entries, none, t)
      ∧ List.Forall₂ (Holds threshold t) submitted entries := by
  induction submitted generalizing s with
  | nil => exact ⟨[], s, rfl, .nil⟩
  | cons first rest ih =>
    obtain ⟨entry, t, hentry, hholds, ht⟩ :=
      holds_entry threshold (hd first List.mem_cons_self) first.2 hs
    obtain ⟨entries, u, hrest, hall⟩ := ih (fun p hp => hd p (List.mem_cons_of_mem first hp)) ht
    have hextends := extends_ofParts threshold (rest.map fun s => ⟨s.1.head, s.2⟩) t
    rw [hrest] at hextends
    -- the later parts only add uploads
    refine ⟨entry :: entries, u, ?_, .cons (hholds.of_extends hextends) hall⟩
    simp only [List.map_cons, ofParts, hentry, hrest]

end FormEntry

open FormEntry (Holds)

/-- A body in the standard encoding is read back: its entries are the parts that were written, in
their order, and the uploads among them have the contents of the files. -/
theorem Multipart.read_encode {boundary : String} (hb : '\r' ∉ boundary.toList)
    {submitted : List (Part.Description × Bytes)} (hd : ∀ s ∈ submitted, s.1.IsPlain)
    (hcontent : ∀ s ∈ submitted, ¬ Bytes.crlf ++ delimiter boundary <:+: s.2) (epilogue : Bytes)
    (threshold : Nat) {spool : Spool} (hs : spool.directory.IsSound) :
    let body := encode boundary (submitted.map fun s => ⟨s.1.head, s.2⟩) ++ epilogue
    ∃ entries after, read boundary threshold body spool = (.ok entries, after)
      ∧ List.Forall₂ (Holds threshold after) submitted entries
      ∧ spool.Extends after (FormEntry.files entries) := by
  intro body
  have hheads : ∀ part ∈ submitted.map fun s => (⟨s.1.head, s.2⟩ : Part),
      ∀ line ∈ Text.lines part.head.toList, line ≠ [] ∧ '\r' ∉ line := by
    rw [List.forall_mem_map]
    exact fun s hs => (hd s hs).forall_lines
  have hcontents : ∀ part ∈ submitted.map fun s => (⟨s.1.head, s.2⟩ : Part),
      ¬ Bytes.crlf ++ delimiter boundary <:+: part.content := by
    rw [List.forall_mem_map]
    exact hcontent
  obtain ⟨rest, hrest, hparts⟩ := parts_encode hb hheads hcontents epilogue
  obtain ⟨entries, after, hentries, hholds⟩ := FormEntry.holds_ofParts threshold hd hs
  have hextends :=
    FormEntry.extends_ofParts threshold (submitted.map fun s => ⟨s.1.head, s.2⟩) spool
  -- nothing stands in front of the first delimiter
  have hopening : Bytes.cutAt? (delimiter boundary) body = some ([], rest) := by
    have hfound : (delimiter boundary).isPrefixOf (delimiter boundary ++ rest) = true :=
      List.isPrefixOf_iff_prefix.2 (List.prefix_append _ _)
    have hat : delimiter boundary ++ rest = 45 :: (45 :: Utf8.encode boundary ++ rest) := rfl
    have hbody : body = delimiter boundary ++ rest := hrest
    rw [hbody, hat, Bytes.cutAt?, ← hat, if_pos hfound, List.drop_left]
  rw [hentries] at hextends
  refine ⟨entries, after, ?_, hholds, hextends⟩
  simp only [read, hopening, hparts, hentries]

/-- A field that ends where a delimiter would begin and a file that nearly contains one, with the
file too long for the memory and another delimiter in the epilogue. -/
theorem Multipart.read_encode_near_delimiters :
    let field : Part.Description × Bytes := (⟨"a", none, none⟩, Bytes.crlf ++ dashes ++ [255, 13])
    let file : Part.Description × Bytes :=
      (⟨"f", some "x.bin", some "text/plain; a=b"⟩, Bytes.crlf ++ dashes ++ Bytes.crlf ++ [45])
    let body := encode "b" ([field, file].map fun s => ⟨s.1.head, s.2⟩)
      ++ (Bytes.crlf ++ delimiter "b" ++ dashes)
    ∃ entries after, read "b" 6 body {} = (.ok entries, after)
      ∧ List.Forall₂ (Holds 6 after) [field, file] entries
      ∧ Spool.Extends {} after (FormEntry.files entries) := by
  intro field file body
  have hfield : field.1.IsPlain := ⟨by decide, by simp [field], by simp [field]⟩
  have hfile : file.1.IsPlain := ⟨by decide, by simp [file], by simp [file]; decide⟩
  refine read_encode (by decide) (fun s hs => ?_) (fun s hs => ?_) _ 6 (fun _ => rfl)
  · rcases List.mem_pair.1 hs with rfl | rfl
    · exact hfield
    · exact hfile
  · rcases List.mem_pair.1 hs with rfl | rfl <;> decide

end HttpContext
