import HttpContext.Proofs.Parts
/-!
A multipart body that is cut short is refused, at whatever byte it is cut, and the files that were
stored by then are gone. Main statement: `Multipart.read_of_cut_short`.
-/
namespace HttpContext

namespace Bytes

/-- The first bytes of a run that has a mark in it have no mark, or the same one. -/
theorem cutAt?_of_append {mark bytes more before after : Bytes}
    (h : cutAt? mark (bytes ++ more) = some (before, after)) :
    cutAt? mark bytes = none
      ∨ ∃ rest, cutAt? mark bytes = some (before, rest) ∧ rest ++ more = after := by
  cases hc : cutAt? mark bytes with
  | none => exact .inl rfl
  | some found =>
    obtain ⟨front, rest⟩ := found
    obtain ⟨rfl, hrest⟩ := Prod.mk.inj (Option.some.inj ((cutAt?_append hc more).symm.trans h))
    exact .inr ⟨rest, rfl, hrest⟩

end Bytes

namespace Multipart

variable {boundary : String}

theorem encode_opens (boundary : String) (written : List Part) :
    ∃ rest, encode boundary written = delimiter boundary ++ rest := by
  cases written with
  | nil => exact ⟨_, rfl⟩
  | cons part more => exact ⟨_, by simp only [encode, List.append_assoc]; rfl⟩

/-- Behind a delimiter stand two dashes or a line break. -/
theorem parts_of_neither {bytes : Bytes} (hdashes : ¬ dashes <+: bytes)
    (hbreak : ¬ Bytes.crlf <+: bytes) : parts boundary bytes = ([], some .boundaryLine) := by
  rw [← List.isPrefixOf_iff_prefix] at hdashes hbreak
  rw [parts, if_neg hdashes, if_pos]
  rw [Bool.eq_false_iff.2 hbreak, Bool.not_false]

/-- A part that is cut short ends the reading, with a cause. -/
theorem parts_of_part {part : Part} (hb : '\r' ∉ boundary.toList)
    (hfull : [] ∉ Text.lines part.head.toList)
    (hcontent : ¬ Bytes.crlf ++ delimiter boundary <:+: part.content) {front missing rest : Bytes}
    (h : front ++ missing = Bytes.crlf ++ (Utf8.encode part.head ++ (Bytes.blankLine
      ++ (part.content ++ (Bytes.crlf ++ delimiter boundary ++ rest))))) :
    (∃ cause, parts boundary front = ([], some cause))
      ∨ ∃ tail, tail ++ missing = rest
        ∧ parts boundary front = (part :: (parts boundary tail).1, (parts boundary tail).2) := by
  by_cases hbreak : Bytes.crlf <+: front
  · obtain ⟨bytes, rfl⟩ := hbreak
    rw [List.append_assoc] at h
    have hhead := Utf8.cutAt?_encode hfull
      (part.content ++ (Bytes.crlf ++ delimiter boundary ++ rest))
    rw [← List.append_cancel_left h] at hhead
    rw [parts_crlf]
    -- the cut falls in the head, in the content or its delimiter, or behind that
    rcases Bytes.cutAt?_of_append hhead with hnone | ⟨body, hfound, hbody⟩
    · exact .inl ⟨_, by rw [hnone]⟩
    · have hend : Bytes.cutAt? (Bytes.crlf ++ delimiter boundary) (body ++ missing)
          = some (part.content, rest) := hbody ▸ cutAt?_closing hb hcontent rest
      rw [hfound]
      simp only [Utf8.decode_encode]
      rcases Bytes.cutAt?_of_append hend with hnone | ⟨tail, hfound, htail⟩
      · exact .inl ⟨_, by rw [hnone]⟩
      · exact .inr ⟨tail, htail, by rw [hfound]⟩
  · refine .inl ⟨_, parts_of_neither (fun hdashes => ?_) hbreak⟩
    obtain ⟨more, rfl⟩ := hdashes
    simp [dashes, Bytes.crlf] at h

/-- Behind the first delimiter of a body that is cut short, the parts before the cut are read and
the reading ends with a cause. -/
theorem parts_of_cut_short (hb : '\r' ∉ boundary.toList) {written : List Part}
    (hfull : ∀ part ∈ written, [] ∉ Text.lines part.head.toList)
    (hcontent : ∀ part ∈ written, ¬ Bytes.crlf ++ delimiter boundary <:+: part.content)
    {front missing : Bytes} (h : delimiter boundary ++ (front ++ missing) = encode boundary written)
    (hmissing : missing ≠ []) :
    ∃ found cause, parts boundary front = (found, some cause) ∧ found <+: written := by
  induction written generalizing front with
  | nil =>
    have hend : front ++ missing = dashes := List.append_cancel_left h
    refine ⟨[], _, parts_of_neither (fun hp => ?_) (fun hp => ?_), List.nil_prefix⟩
    · obtain ⟨more, rfl⟩ := hp
      simp [dashes] at hend
      exact hmissing hend.2
    · obtain ⟨more, rfl⟩ := hp
      simp [dashes, Bytes.crlf] at hend
  | cons part more ih =>
    obtain ⟨rest, hrest⟩ := encode_opens boundary more
    rw [encode, hrest] at h
    simp only [List.append_assoc] at h
    have hpart := List.append_cancel_left h
    rw [← List.append_assoc Bytes.crlf (delimiter boundary)] at hpart
    rcases parts_of_part hb (hfull part List.mem_cons_self) (hcontent part List.mem_cons_self)
      hpart with ⟨cause, hnone⟩ | ⟨tail, htail, hfound⟩
    · exact ⟨[], cause, hnone, List.nil_prefix⟩
    · obtain ⟨found, cause, hparts, hp⟩ := ih (fun p hp => hfull p (List.mem_cons_of_mem part hp))
        (fun p hp => hcontent p (List.mem_cons_of_mem part hp)) (htail ▸ hrest.symm)
      rw [hparts] at hfound
      exact ⟨part :: found, cause, hfound, List.cons_prefix_cons.2 ⟨rfl, hp⟩⟩

end Multipart

namespace Spool

variable {s t : Spool} {uploads : List Upload}

theorem getElem?_dropAll {i : Nat} (hi : i ∉ uploads.map Upload.id) :
    (s.dropAll uploads).cells[i]? = s.cells[i]? := by
  induction uploads generalizing s with
  | nil => rfl
  | cons u rest ih =>
    rw [List.map_cons, List.mem_cons, not_or] at hi
    exact (ih hi.2).trans (List.getElem?_modify_ne _ _ (Ne.symm hi.1))

/-- When new uploads are dropped, the others are as they were and behind them nothing is stored. -/
theorem Extends.cells_dropAll (h : s.Extends t uploads) :
    ∃ discarded, (t.dropAll uploads).cells = s.cells ++ discarded
      ∧ ∀ cell ∈ discarded, cell.storage = .destroyed := by
  obtain ⟨cells, ht, hids, _⟩ := id h
  have hold : (t.dropAll uploads).cells.take s.cells.length = s.cells := by
    refine List.ext_getElem? fun i => ?_
    rw [List.getElem?_take]
    split
    · rename_i hi
      rw [getElem?_dropAll (by rw [hids, List.mem_range'_1]; omega), ht,
        List.getElem?_append_left hi]
    · rename_i hi
      rw [List.getElem?_eq_none (Nat.le_of_not_lt hi)]
  refine ⟨(t.dropAll uploads).cells.drop s.cells.length, ?_, fun cell hcell => ?_⟩
  · conv_lhs => rw [← List.take_append_drop s.cells.length (t.dropAll uploads).cells, hold]
  · obtain ⟨i, hi⟩ := List.getElem?_of_mem hcell
    rw [List.getElem?_drop] at hi
    have hgone := h.gains_dropAll _ (isGone_of_length_le (Nat.le_add_right s.cells.length i))
    exact hgone.resolve_right List.not_mem_nil cell hi

end Spool

/-- A body in the standard encoding that is cut short at any byte is refused. The uploads of before
are as they were, and of those that were made of the parts before the cut nothing remains. -/
theorem Multipart.read_of_cut_short {boundary : String} (hb : '\r' ∉ boundary.toList)
    {submitted : List (Part.Description × Bytes)} (hd : ∀ s ∈ submitted, s.1.IsPlain)
    (hcontent : ∀ s ∈ submitted, ¬ Bytes.crlf ++ delimiter boundary <:+: s.2) (threshold : Nat)
    {spool : Spool} (hs : spool.directory.IsSound) {front missing : Bytes}
    (h : front ++ missing = encode boundary (submitted.map fun s => ⟨s.1.head, s.2⟩))
    (hmissing : missing ≠ []) :
    ∃ cause after, read boundary threshold front spool = (.error (.form cause), after)
      ∧ ∃ discarded, after.cells = spool.cells ++ discarded
        ∧ ∀ cell ∈ discarded, cell.storage = .destroyed := by
  have hfull : ∀ part ∈ submitted.map fun s => (⟨s.1.head, s.2⟩ : Part),
      [] ∉ Text.lines part.head.toList := by
    rw [List.forall_mem_map]
    exact fun s hs hnil => ((hd s hs).forall_lines [] hnil).1 rfl
  have hcontents : ∀ part ∈ submitted.map fun s => (⟨s.1.head, s.2⟩ : Part),
      ¬ Bytes.crlf ++ delimiter boundary <:+: part.content := by
    rw [List.forall_mem_map]
    exact hcontent
  obtain ⟨rest, hrest⟩ := encode_opens boundary (submitted.map fun s => ⟨s.1.head, s.2⟩)
  have hdelimiter : delimiter boundary ≠ [] := List.cons_ne_nil _ _
  have hopening : Bytes.cutAt? (delimiter boundary) (front ++ missing) = some ([], rest) := by
    rw [h, hrest, Bytes.cutAt?_mark hdelimiter]
  rcases Bytes.cutAt?_of_append hopening with hnone | ⟨tail, hfound, htail⟩
  · refine ⟨.openingMissing, spool, ?_, [], (List.append_nil _).symm, fun _ hc => nomatch hc⟩
    simp only [read, hnone]
  · obtain ⟨found, cause, hparts, hp⟩ :=
      parts_of_cut_short hb hfull hcontents (htail ▸ hrest.symm) hmissing
    -- the parts before the cut are stored as in the whole body
    obtain ⟨before, hbefore, rfl⟩ := List.prefix_map_iff.1 hp
    obtain ⟨entries, after, hentries, _⟩ :=
      FormEntry.holds_ofParts threshold (fun s hs => hd s (hbefore.subset hs)) hs
    have hextends :=
      FormEntry.extends_ofParts threshold (before.map fun s => ⟨s.1.head, s.2⟩) spool
    rw [hentries] at hextends
    refine ⟨cause, FormEntry.release entries after, ?_, hextends.cells_dropAll⟩
    simp only [read, hfound, hparts, hentries]

/-- A body that lacks the last dash, behind a file that is on disk by then and nearly contains the
delimiter. -/
theorem Multipart.read_of_cut_short_last_dash :
    let file : Part.Description × Bytes :=
      (⟨"f", some "x.bin", none⟩, Bytes.crlf ++ dashes ++ Bytes.crlf ++ [45])
    let field : Part.Description × Bytes := (⟨"a", none, none⟩, [104, 105])
    let body := encode "b" ([file, field].map fun s => ⟨s.1.head, s.2⟩)
    ∃ cause after, read "b" 6 body.dropLast {} = (.error (.form cause), after)
      ∧ ∃ discarded, after.cells = ({} : Spool).cells ++ discarded
        ∧ ∀ cell ∈ discarded, cell.storage = .destroyed := by
  intro file field body
  have hfile : file.1.IsPlain := ⟨by decide, by simp [file], by simp [file]⟩
  have hfield : field.1.IsPlain := ⟨by decide, by simp [field], by simp [field]⟩
  have hbody : body ≠ [] := by decide
  refine read_of_cut_short (by decide) (fun s hs => ?_) (fun s hs => ?_) 6 (fun _ => rfl)
    (List.dropLast_concat_getLast hbody) (List.cons_ne_nil _ _)
  · rcases List.mem_pair.1 hs with rfl | rfl
    · exact hfile
    · exact hfield
  · rcases List.mem_pair.1 hs with rfl | rfl <;> decide

end HttpContext
