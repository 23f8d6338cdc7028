import HttpContext.Form.Scan
import HttpContext.Proofs.PartialBody
/-!
A multipart body is read safely, whatever it is. Read by positions no cut is out of range and the
reading ends; a reading that fails leaves no file, and one that succeeds leaves the files that are
too long for the memory, until their entries are dropped. Main statement: `Multipart.scan_safe`.
-/
namespace HttpContext

namespace Multipart

variable {boundary : String} {body : Bytes} {pos : Nat}

/-! ### What is read at a position -/

theorem headAt_eq (h : pos ≤ body.length) :
    headAt body pos = some (match Bytes.cutAt? Bytes.blankLine (body.drop pos) with
      | none => .error .headersUnterminated
      | some (head, _) =>
        match Utf8.decode head with
        | .error _ => .error .headersNotUtf8
        | .ok text => .ok (text, pos + head.length + Bytes.blankLine.length)) := by
  have hfind := @Bytes.find?_eq_cutAt? Bytes.blankLine (by decide) (body.drop pos)
  rw [headAt, Bytes.suffix?_of_le h, Option.bind_eq_bind, Option.bind_some, hfind]
  cases hc : Bytes.cutAt? Bytes.blankLine (body.drop pos) with
  | none => rfl
  | some cut =>
    obtain ⟨head, rest⟩ := cut
    simp only [Option.map_some, (Bytes.slice?_of_cutAt? h hc).1, Option.bind_some]
    cases Utf8.decode head <;> rfl

theorem contentAt_eq (h : pos ≤ body.length) :
    contentAt boundary body pos = some (match Bytes.cutAt? (closing boundary) (body.drop pos) with
      | none => .error .closingMissing
      | some (content, _) =>
        .ok (content, pos + content.length + (closing boundary).length)) := by
  have hfind := @Bytes.find?_eq_cutAt? (closing boundary) (List.cons_ne_nil _ _) (body.drop pos)
  rw [contentAt, Bytes.suffix?_of_le h, Option.bind_eq_bind, Option.bind_some, hfind]
  cases hc : Bytes.cutAt? (closing boundary) (body.drop pos) with
  | none => rfl
  | some cut =>
    obtain ⟨content, rest⟩ := cut
    simp only [Option.map_some, (Bytes.slice?_of_cutAt? h hc).1, Option.bind_some]
    rfl

/-- Behind the line break of a delimiter come a head and a content. -/
theorem partAt_of_crlf (h : pos ≤ body.length) {bytes : Bytes}
    (hbytes : Bytes.crlf ++ bytes = body.drop pos) :
    partAt boundary body pos = do
      match ← headAt body (pos + Bytes.crlf.length) with
      | .error cause => return .error cause
      | .ok (head, pos) =>
        match ← contentAt boundary body pos with
        | .error cause => return .error cause
        | .ok (content, pos) => return .ok (some (⟨head, content⟩, pos)) := by
  rw [partAt, Bytes.suffix?_of_le h, ← hbytes]
  rfl

/-- At a position of the body nothing is out of range: the delimiter was the last one, or something
is wrong, or there is a part and the next position lies within the body too. -/
theorem partAt_spec (boundary : String) (h : pos ≤ body.length) :
    match partAt boundary body pos with
    | none => False
    | some (.ok none) => parts boundary (body.drop pos) = ([], none)
    | some (.error cause) => parts boundary (body.drop pos) = ([], some cause)
    | some (.ok (some (part, next))) => next ≤ body.length
        ∧ parts boundary (body.drop pos) = (part :: (parts boundary (body.drop next)).1,
          (parts boundary (body.drop next)).2) := by
  by_cases hdashes : dashes <+: body.drop pos
  · obtain ⟨rest, hrest⟩ := hdashes
    rw [partAt, Bytes.suffix?_of_le h, ← hrest]
    exact parts_dashes rest
  · by_cases hbreak : Bytes.crlf <+: body.drop pos
    · obtain ⟨bytes, hbytes⟩ := hbreak
      have hlength := congrArg List.length hbytes
      rw [List.length_append, List.length_drop] at hlength
      have hin : pos + Bytes.crlf.length ≤ body.length := by omega
      have hdrop : body.drop (pos + Bytes.crlf.length) = bytes := by
        rw [← List.drop_drop, ← hbytes, List.drop_left]
      rw [partAt_of_crlf h hbytes, headAt_eq hin, ← hbytes, parts_crlf, ← closing, hdrop]
      cases hhead : Bytes.cutAt? Bytes.blankLine bytes with
      | none => rfl
      | some cut =>
        obtain ⟨head, rest⟩ := cut
        obtain ⟨_, hnext, hrest⟩ := Bytes.slice?_of_cutAt? hin (hdrop.symm ▸ hhead)
        simp only [Option.bind_eq_bind, Option.bind_some]
        cases Utf8.decode head with
        | error _ => rfl
        | ok text =>
          simp only [contentAt_eq hnext, hrest]
          cases hcontent : Bytes.cutAt? (closing boundary) rest with
          | none => rfl
          | some cut =>
            obtain ⟨content, more⟩ := cut
            obtain ⟨_, hend, hmore⟩ := Bytes.slice?_of_cutAt? hnext (hrest.symm ▸ hcontent)
            refine ⟨hend, ?_⟩
            rw [hmore]
    · have hneither := @parts_of_neither boundary _ hdashes hbreak
      rw [← List.isPrefixOf_iff_prefix, Bool.not_eq_true] at hdashes hbreak
      rw [partAt, Bytes.suffix?_of_le h, Option.bind_eq_bind, Option.bind_some, hdashes, hbreak]
      exact hneither

end Multipart

namespace Spool

variable {s t : Spool} {uploads : List Upload}

/-- The content of the file of a cell, when it has one. -/
def fileAt? (s : Spool) (i : Nat) : Option Bytes :=
  match (s.cells[i]?).map Cell.storage with
  | some (.disk content) => some content
  | _ => none

theorem fileAt?_of_getElem?_eq {i : Nat} (h : s.cells[i]? = t.cells[i]?) :
    s.fileAt? i = t.fileAt? i := by
  rw [fileAt?, fileAt?, h]

theorem fileAt?_of_isGone {i : Nat} (h : s.IsGone i) : s.fileAt? i = none := by
  rw [fileAt?]
  cases hc : s.cells[i]? with
  | none => rfl
  | some cell => simp only [Option.map_some, h cell hc]

theorem lt_of_fileAt? {i : Nat} {content : Bytes} (h : s.fileAt? i = some content) :
    i < s.cells.length := by
  by_contra hlt
  rw [fileAt?_of_isGone (isGone_of_length_le (Nat.le_of_not_lt hlt))] at h
  cases h

/-- The file of an upload is its content on disk. -/
theorem fileAt?_id_iff {u : Upload} {content : Bytes} :
    s.fileAt? u.id = some content ↔ s.bytes u = .ok content ∧ s.isOnDisk u = true := by
  rw [fileAt?, bytes, isOnDisk, storage]
  cases s.cells[u.id]? with
  | none => simp
  | some cell => cases h : cell.storage <;> simp [h]

end Spool

namespace FormEntry

variable {threshold : Nat} {s t : Spool}

/-- The entry is what the part describes, and the spool has its content. -/
def IsEntryOf (threshold : Nat) (spool : Spool) (part : Part) (entry : FormEntry) : Prop :=
  ∃ d, part.description = .ok d ∧ Holds threshold spool (d, part.content) entry

theorem IsEntryOf.of_extends {part : Part} {entry : FormEntry}
    (h : IsEntryOf threshold s part entry) {uploads : List Upload} (hst : s.Extends t uploads) :
    IsEntryOf threshold t part entry := by
  obtain ⟨d, hd, hholds⟩ := h
  exact ⟨d, hd, hholds.of_extends hst⟩

/-- A part is refused and changes nothing, or it becomes its entry. -/
theorem entry_cases (part : Part) (threshold : Nat) (s : Spool) :
    (∃ cause, part.entry threshold s = (.error cause, s))
      ∨ ∃ entry t, part.entry threshold s = (.ok entry, t) ∧ s.Extends t (files [entry])
        ∧ IsEntryOf threshold t part entry := by
  unfold Part.entry
  cases hd : part.description with
  | error cause => exact .inl ⟨_, rfl⟩
  | ok described =>
    obtain ⟨name, fileName, contentType⟩ := described
    cases fileName with
    | none => exact .inr ⟨_, s, rfl, .refl s, _, hd, rfl, rfl, rfl⟩
    | some fileName =>
      simp only
      rcases s.add_cases name fileName contentType part.content threshold with
        ⟨fault, _, hadd⟩ | ⟨t, hadd, _, hextends, hbytes, hdisk⟩
      · rw [hadd]
        exact .inl ⟨_, rfl⟩
      · rw [hadd]
        exact .inr ⟨_, t, rfl, hextends, _, hd, rfl, rfl, rfl, rfl, hbytes, hdisk⟩

/-- The parts become their entries, up to the first that is refused, and nothing else is added. -/
theorem ofParts_spec (threshold : Nat) (parts : List Part) (s : Spool) :
    ∃ entries cause t, ofParts threshold parts s = (entries, cause, t)
      ∧ s.Extends t (files entries)
      ∧ (cause = none → List.Forall₂ (IsEntryOf threshold t) parts entries) := by
  induction parts generalizing s with
  | nil => exact ⟨[], none, s, rfl, .refl s, fun _ => .nil⟩
  | cons part rest ih =>
    rw [ofParts]
    rcases entry_cases part threshold s with ⟨cause, hentry⟩ | ⟨entry, t, hentry, hst, hpart⟩
    · rw [hentry]
      refine ⟨[], some cause, s, rfl, .refl s, fun h => ?_⟩
      cases h
    · obtain ⟨more, cause, u, hrest, htu, hmore⟩ := ih t
      rw [hentry]
      simp only [hrest]
      refine ⟨entry :: more, cause, u, rfl, ?_, fun h => .cons (hpart.of_extends htu) (hmore h)⟩
      have hall := hst.trans htu
      rwa [files, files, ← List.filterMap_append, List.singleton_append] at hall

theorem bytes_of_mem_files {parts : List Part} {entries : List FormEntry}
    (h : List.Forall₂ (IsEntryOf threshold s) parts entries) {upload : Upload}
    (hu : upload ∈ files entries) :
    ∃ content, s.bytes upload = .ok content
      ∧ (s.isOnDisk upload = true ↔ threshold < content.length) := by
  obtain ⟨entry, hentry, hupload⟩ := List.mem_filterMap.1 hu
  obtain ⟨i, hi, rfl⟩ := List.getElem_of_mem hentry
  obtain ⟨d, _, hholds⟩ := h.get (h.length_eq ▸ hi) hi
  simp only [List.get_eq_getElem] at hholds
  cases hfile : entries[i] with
  | field name value =>
    rw [hfile] at hupload
    cases hupload
  | file found =>
    rw [hfile] at hupload hholds
    cases hupload
    obtain ⟨_, _, _, _, hbytes, hdisk⟩ := hholds
    exact ⟨_, hbytes, hdisk⟩

/-- The files that are there then: those of before, and one for each entry with a long content. -/
theorem fileAt?_iff {parts : List Part} {entries : List FormEntry}
    (hextends : s.Extends t (files entries))
    (hentries : List.Forall₂ (IsEntryOf threshold t) parts entries) (i : Nat) (content : Bytes) :
    t.fileAt? i = some content ↔ s.fileAt? i = some content
      ∨ ∃ upload ∈ files entries, upload.id = i ∧ threshold < content.length
        ∧ t.bytes upload = .ok content := by
  obtain ⟨cells, ht, hids, _⟩ := hextends
  have hold : i < s.cells.length → t.fileAt? i = s.fileAt? i := fun hlt =>
    Spool.fileAt?_of_getElem?_eq (by rw [ht, List.getElem?_append_left hlt])
  constructor
  · intro hfile
    by_cases hlt : i < s.cells.length
    · exact .inl (hold hlt ▸ hfile)
    · have hin := Spool.lt_of_fileAt? hfile
      rw [ht, List.length_append] at hin
      have hid : i ∈ (files entries).map Upload.id := by
        rw [hids, List.mem_range'_1]
        omega
      obtain ⟨upload, hupload, rfl⟩ := List.mem_map.1 hid
      obtain ⟨hbytes, hdisk⟩ := Spool.fileAt?_id_iff.1 hfile
      obtain ⟨found, hfound, hlong⟩ := bytes_of_mem_files hentries hupload
      obtain rfl : content = found := Except.ok.inj (hbytes.symm.trans hfound)
      exact .inr ⟨upload, hupload, rfl, hlong.1 hdisk, hbytes⟩
  · rintro (hfile | ⟨upload, hupload, rfl, hlong, hbytes⟩)
    · rw [hold (Spool.lt_of_fileAt? hfile)]
      exact hfile
    · obtain ⟨found, hfound, hdisk⟩ := bytes_of_mem_files hentries hupload
      obtain rfl : content = found := Except.ok.inj (hbytes.symm.trans hfound)
      exact Spool.fileAt?_id_iff.2 ⟨hbytes, hdisk.2 hlong⟩

/-- Dropping some of the entries takes their files away and no other. -/
theorem fileAt?_release {entries dropped : List FormEntry} (hextends : s.Extends t (files entries))
    (hdropped : dropped.Sublist entries) (i : Nat) :
    (release dropped t).fileAt? i
      = if i ∈ (files dropped).map Upload.id then none else t.fileAt? i := by
  split
  · rename_i hi
    have hsub : i ∈ (files entries).map Upload.id :=
      ((hdropped.filterMap upload?).map Upload.id).subset hi
    obtain ⟨cells, ht, hids, hone⟩ := hextends
    rw [hids, List.mem_range'_1] at hsub
    refine Spool.fileAt?_of_isGone (Spool.isGone_dropAll hi fun cell hcell => ?_)
    rw [ht, List.getElem?_append_right hsub.1] at hcell
    exact Nat.le_of_eq (hone cell (List.mem_of_getElem? hcell))
  · rename_i hi
    exact Spool.fileAt?_of_getElem?_eq (Spool.getElem?_dropAll hi)

end FormEntry

namespace Multipart

variable {boundary : String} {threshold : Nat} {body : Bytes} {pos : Nat}

/-- The end of a reading that has found these parts and this cause, with the entries of before. -/
def settle (threshold : Nat) (entries : List FormEntry)
    (found : List Part × Option FormError) (spool : Spool) :
    Except Error (List FormEntry) × Spool :=
  match FormEntry.ofParts threshold found.1 spool with
  | (more, some cause, spool) => (.error cause, FormEntry.release (entries ++ more) spool)
  | (more, none, spool) =>
    match found.2 with
    | some cause => (.error (.form cause), FormEntry.release (entries ++ more) spool)
    | none => (.ok (entries ++ more), spool)

/-- Storing each part when it is found comes to the same as finding them all and storing them. -/
theorem scanFrom_eq_settle (threshold : Nat) (h : pos ≤ body.length)
    (entries : List FormEntry) (spool : Spool) :
    scanFrom boundary threshold body pos entries spool
      = some (settle threshold entries (parts boundary (body.drop pos)) spool) := by
  fun_induction scanFrom boundary threshold body pos entries spool with
  | case1 pos entries spool hat =>
    have hspec := partAt_spec boundary h
    rw [hat] at hspec
    exact hspec.elim
  | case2 pos entries spool cause hat =>
    have hspec := partAt_spec boundary h
    rw [hat] at hspec
    simp only [hspec, settle, FormEntry.ofParts, List.append_nil]
  | case3 pos entries spool hat =>
    have hspec := partAt_spec boundary h
    rw [hat] at hspec
    simp only [hspec, settle, FormEntry.ofParts, List.append_nil]
  | case4 pos entries spool part next hat cause t hentry =>
    have hspec := partAt_spec boundary h
    rw [hat] at hspec
    simp only [hspec.2, settle, FormEntry.ofParts, hentry, List.append_nil]
  | case5 pos entries spool part next hat entry t hentry ih =>
    have hspec := partAt_spec boundary h
    rw [hat] at hspec
    obtain ⟨hnext, hparts⟩ := hspec
    obtain ⟨more, cause, u, hmore, _⟩ :=
      FormEntry.ofParts_spec threshold (parts boundary (body.drop next)).1 t
    rw [ih hnext, hparts, settle, settle, FormEntry.ofParts, hentry]
    simp only [hmore, List.append_assoc, List.singleton_append]
    cases cause <;> rfl

/-- The whole reading: from behind the first delimiter, wherever that is. -/
theorem scan_eq (boundary : String) (threshold : Nat) (body : Bytes) (spool : Spool) :
    scan boundary threshold body spool
      = some (match Bytes.cutAt? (delimiter boundary) body with
        | none => (.error (.form .openingMissing), spool)
        | some (_, rest) => settle threshold [] (parts boundary rest) spool) := by
  have hfind := @Bytes.find?_eq_cutAt? (delimiter boundary) (List.cons_ne_nil _ _) body
  rw [scan, hfind]
  cases hc : Bytes.cutAt? (delimiter boundary) body with
  | none => rfl
  | some cut =>
    obtain ⟨before, rest⟩ := cut
    obtain ⟨_, hin, hrest⟩ := Bytes.slice?_of_cutAt? (Nat.zero_le body.length) hc
    rw [Nat.zero_add] at hin hrest
    simp only [Option.map_some, scanFrom_eq_settle threshold hin, hrest]

theorem scan_eq_read (boundary : String) (threshold : Nat) (body : Bytes) (spool : Spool) :
    scan boundary threshold body spool = some (read boundary threshold body spool) := by
  rw [scan_eq, read]
  cases Bytes.cutAt? (delimiter boundary) body with
  | none => rfl
  | some cut =>
    obtain ⟨before, rest⟩ := cut
    obtain ⟨entries, cause, after, hentries, _⟩ :=
      FormEntry.ofParts_spec threshold (parts boundary rest).1 spool
    cases cause with
    | some cause => simp only [settle, hentries, List.nil_append]
    | none =>
      cases hfound : (parts boundary rest).2 <;>
        simp only [settle, hentries, hfound, List.nil_append]


/-- What a reading that gives these entries leaves behind it. -/
structure IsStored (boundary : String) (threshold : Nat) (body : Bytes) (spool after : Spool)
    (entries : List FormEntry) : Prop where
  parts : ∃ before rest found, Bytes.cutAt? (delimiter boundary) body = some (before, rest)
    ∧ parts boundary rest = (found, none)
    ∧ List.Forall₂ (FormEntry.IsEntryOf threshold after) found entries
  extends_spool : spool.Extends after (FormEntry.files entries)
  /-- a file for each entry with a long content, and no other -/
  files : ∀ i content, after.fileAt? i = some content
    ↔ spool.fileAt? i = some content ∨ ∃ upload ∈ FormEntry.files entries, upload.id = i
      ∧ threshold < content.length ∧ after.bytes upload = .ok content
  /-- the files of entries that are dropped go, and the others stay -/
  dropped : ∀ dropped, dropped.Sublist entries → ∀ i,
    (FormEntry.release dropped after).fileAt? i
      = if i ∈ (FormEntry.files dropped).map Upload.id then none else after.fileAt? i

/-- Whatever the parts are, their entries are stored, or what was stored of them is discarded. -/
theorem settle_spec (threshold : Nat) (found : List Part × Option FormError)
    (spool : Spool) :
    match settle threshold [] found spool with
    | (.error _, after) => ∃ discarded, after.cells = spool.cells ++ discarded
        ∧ ∀ cell ∈ discarded, cell.storage = .destroyed
    | (.ok entries, after) => found.2 = none ∧ spool.Extends after (FormEntry.files entries)
        ∧ List.Forall₂ (FormEntry.IsEntryOf threshold after) found.1 entries := by
  obtain ⟨entries, cause, t, hparts, hextends, hentries⟩ :=
    FormEntry.ofParts_spec threshold found.1 spool
  rw [settle, hparts]
  cases cause with
  | some cause => exact hextends.cells_dropAll
  | none =>
    cases hfound : found.2 with
    | some cause => exact hextends.cells_dropAll
    | none => exact ⟨rfl, hextends, hentries rfl⟩

/-- A multipart body is read safely, whatever the bytes, the boundary and the threshold are, and
whatever files the directory of the spool refuses. The reading by positions, in which no cut is out
of range, ends and is the reading of `read`. When it fails, every upload that it has stored is
destroyed again and those of before are as they were. When it gives entries, there are exactly the
files of those with a content above the threshold, each with that content, until the entry is
dropped. -/
theorem scan_safe (boundary : String) (threshold : Nat) (body : Bytes) (spool : Spool) :
    scan boundary threshold body spool = some (read boundary threshold body spool)
      ∧ ∃ result after, scan boundary threshold body spool = some (result, after)
        ∧ match result with
          | .error _ => ∃ discarded, after.cells = spool.cells ++ discarded
              ∧ ∀ cell ∈ discarded, cell.storage = .destroyed
          | .ok entries => IsStored boundary threshold body spool after entries := by
  refine ⟨scan_eq_read boundary threshold body spool, ?_⟩
  rw [scan_eq]
  cases hc : Bytes.cutAt? (delimiter boundary) body with
  | none => exact ⟨_, _, rfl, [], (List.append_nil _).symm, fun _ hcell => nomatch hcell⟩
  | some cut =>
    obtain ⟨before, rest⟩ := cut
    have hspec := settle_spec threshold (parts boundary rest) spool
    cases hsettle : settle threshold [] (parts boundary rest) spool with
    | mk result after =>
      rw [hsettle] at hspec
      refine ⟨result, after, by simp only [hsettle], ?_⟩
      cases result with
      | error cause => exact hspec
      | ok entries =>
        obtain ⟨hclosed, hextends, hentries⟩ := hspec
        exact {
          parts := ⟨before, rest, (parts boundary rest).1, hc, Prod.ext rfl hclosed, hentries⟩
          extends_spool := hextends
          files := FormEntry.fileAt?_iff hextends hentries
          dropped := fun _ hdropped => FormEntry.fileAt?_release hextends hdropped }

end Multipart

end HttpContext
