import HttpContext.Proofs.PartHeaders
/-!
The names in the header of a part stand in quotes, but the parameters are split at the semicolons
before the quotes are looked at. Main statement: `Part.entry_head`.
-/
namespace HttpContext

theorem Text.trim_cons {c : Char} (hc : isBlank c = false) (cs : List Char) :
    trim (c :: cs) = c :: (cs.reverse.dropWhile isBlank).reverse := by
  have hfirst : ¬ isBlank c = true := by simp [hc]
  rw [trim, List.dropWhile_cons_of_neg hfirst, List.reverse_cons, List.dropWhile_append]
  split
  · rename_i hnil
    rw [List.isEmpty_iff.1 hnil, List.dropWhile_cons_of_neg hfirst]
    rfl
  · rw [List.reverse_append]
    rfl

namespace Parameters

/-- What is read of a quoted value. A semicolon ends it, and then the quote in front is left. -/
def heard (value : String) : String :=
  if ';' ∈ value.toList then
    String.ofList (Text.trim ('"' :: value.toList.takeWhile (· != ';')))
  else value

theorem unquote_opened {cs : List Char} (h : '"' ∉ cs) :
    unquote (Text.trim ('"' :: cs)) = Text.trim ('"' :: cs) := by
  have hquote : Text.isBlank '"' = false := rfl
  have hopen : '"' ∉ (cs.reverse.dropWhile Text.isBlank).reverse := fun hm =>
    h (List.mem_reverse.1 ((List.dropWhile_sublist _).subset (List.mem_reverse.1 hm)))
  rw [Text.trim_cons hquote, unquote, if_neg fun hlast => hopen (List.mem_of_getLast? hlast)]

theorem heard_of_not_mem {value : String} (h : ';' ∉ value.toList) : heard value = value :=
  if_neg h

/-- A value that is cut off begins with a quote, which the value itself does not have. -/
theorem heard_eq_iff {value : String} (h : '"' ∉ value.toList) :
    heard value = value ↔ ';' ∉ value.toList := by
  refine ⟨fun heq hm => h ?_, heard_of_not_mem⟩
  have hquote : Text.isBlank '"' = false := rfl
  rw [← heq, heard, if_pos hm, String.toList_ofList, Text.trim_cons hquote]
  exact List.mem_cons_self

/-- A parameter that is written is heard, and what stands in its value behind a semicolon is read
as parameters of its own. -/
theorem filterMap_splitOn_written {name value : String}
    (hname : ';' ∉ name.toList ∧ '=' ∉ name.toList) (htrim : Text.trim name.toList = name.toList)
    (hvalue : '"' ∉ value.toList) :
    ((written (name, value)).splitOn ';').filterMap parameter?
      = (name, heard value) :: parse (value ++ "\"") := by
  have hquote : "\"".toList = ['"'] := rfl
  rw [parse, String.toList_append, hquote]
  by_cases hs : ';' ∈ value.toList
  · -- the piece up to the semicolon has lost the closing quote
    obtain ⟨cs, rest, hcs, hfirst⟩ := List.eq_append_cons_of_mem hs
    let opened := ' ' :: name.toList ++ '=' :: '"' :: cs
    have hwritten : written (name, value) = opened ++ ';' :: (rest ++ ['"']) := by
      simp [written, hcs, opened]
    have hopened : ';' ∉ opened := by
      simp [opened, hname, hfirst]
    have hheard : heard value = String.ofList (unquote (Text.trim ('"' :: cs))) := by
      have hkeep : ∀ c ∈ cs, (c != ';') = true := fun c hc => by
        rw [bne_iff_ne]
        exact ne_of_mem_of_not_mem hc hfirst
      have htake : (';' :: rest).takeWhile (· != ';') = [] := by simp
      rw [heard, if_pos hs, hcs, List.takeWhile_append_of_pos hkeep, htake, List.append_nil,
        unquote_opened]
      exact fun hm => hvalue (hcs ▸ List.mem_append_left _ hm)
    rw [hwritten, List.splitOn_append_cons_self_of_not_mem hopened, hcs, List.append_assoc,
      List.cons_append, List.splitOn_append_cons_self_of_not_mem hfirst, List.tail_cons,
      List.filterMap_cons_some (parameter?_eq hname.2 htrim _), hheard]
  · have hwritten : ';' ∉ written (name, value) := by
      simp [written, hname, hs]
    have hclosed : ';' ∉ value.toList ++ ['"'] := by
      simp [hs]
    have hread : parameter? (written (name, value)) = some (name, value) :=
      parameter?_written hname.2 htrim
    rw [List.splitOn_eq_singleton hwritten, List.splitOn_eq_singleton hclosed, heard_of_not_mem hs,
      List.filterMap_cons_some hread]
    rfl

theorem parse_append_quote {value : String} (h : ';' ∉ value.toList) : parse (value ++ "\"") = [] := by
  have hclosed : ';' ∉ (value ++ "\"").toList := by
    rw [String.toList_append]
    simp [h]
  rw [parse, List.splitOn_eq_singleton hclosed]
  rfl

theorem get?_cons (parameter : String × String) (rest : List (String × String)) (name : String) :
    get? (parameter :: rest) name
      = if Text.sameName parameter.1 name then some parameter.2 else get? rest name := by
  rw [get?, List.find?_cons]
  cases Text.sameName parameter.1 name <;> rfl

theorem get?_append (front rest : List (String × String)) (name : String) :
    get? (front ++ rest) name = (get? front name).or (get? rest name) := by
  rw [get?, List.find?_append, Option.map_or]
  rfl

end Parameters

namespace Part

open Parameters (heard)

variable {d : Description}

/-- What a part is taken for when its names are quoted. A file name that stands in the name, behind
a semicolon, comes before the one that was meant. -/
theorem description_of_quoted (hd : d.IsUnbroken)
    (hquotes : '"' ∉ d.name.toList ∧ ∀ f ∈ d.fileName, '"' ∉ f.toList) (content : Bytes) :
    (⟨d.head, content⟩ : Part).description
      = .ok ⟨heard d.name, (Parameters.get? (Parameters.parse (d.name ++ "\"")) "filename").or
          (d.fileName.map heard), d.contentType⟩ := by
  obtain ⟨hdisposition, htype⟩ := header?_head hd content
  have hlabels : (';' ∉ "name".toList ∧ '=' ∉ "name".toList)
      ∧ ';' ∉ "filename".toList ∧ '=' ∉ "filename".toList := by decide
  have htrim : Text.trim "name".toList = "name".toList
      ∧ Text.trim "filename".toList = "filename".toList := by decide
  have hkind : ';' ∉ "form-data".toList := by decide
  have hsame : Text.sameName "name" "filename" = false := by decide
  have hname := Parameters.filterMap_splitOn_written hlabels.1 htrim.1 hquotes.1
  obtain ⟨others, hparse, hothers⟩ : ∃ others,
      Parameters.parse (String.ofList d.disposition) = ("name", heard d.name)
        :: (Parameters.parse (d.name ++ "\"") ++ others)
      ∧ Parameters.get? others "filename" = d.fileName.map heard := by
    rw [Parameters.parse, String.toList_ofList, Description.disposition_eq]
    cases hf : d.fileName with
    | none =>
      refine ⟨[], ?_, rfl⟩
      rw [List.append_nil, List.append_nil, List.splitOn_append_cons_self_of_not_mem hkind,
        List.tail_cons, hname]
    | some f =>
      have hfile := Parameters.filterMap_splitOn_written hlabels.2 htrim.2 (hquotes.2 f hf)
      refine ⟨("filename", heard f) :: Parameters.parse (f ++ "\""), ?_, ?_⟩
      · rw [List.append_assoc, List.cons_append, List.splitOn_append_cons_self_of_not_mem hkind,
          List.tail_cons, List.splitOn_append_cons_self, List.filterMap_append, hname, hfile]
        rfl
      · rw [Parameters.get?_cons, if_pos (Text.sameName_refl _)]
        rfl
  simp only [description, hdisposition, hparse, Parameters.get?_cons, Text.sameName_refl,
    ↓reduceIte, hsame, Bool.false_eq_true, Parameters.get?_append, hothers, htype]

end Part

namespace FormEntry

/-- The file name, when the entry is a file. -/
def fileName? (entry : FormEntry) : Option String :=
  entry.upload?.map Upload.fileName

end FormEntry

open Parameters (heard)

theorem Spool.exists_add {s : Spool} {content : Bytes} {threshold : Nat}
    (h : s.refusal? content threshold = none) (name fileName : String)
    (contentType : Option String) :
    ∃ t, s.add name fileName contentType content threshold
      = (.ok ⟨s.cells.length, name, fileName, contentType, content.length⟩, t) := by
  simp only [add, h]
  exact ⟨_, rfl⟩

/-- A part with its names in quotes becomes an entry with these names, if there is no semicolon in
them and only then. Otherwise the name, or the file name, is cut off where the semicolon stands and
begins with the quote, and parameters that follow in the name are heard as those of the part. -/
theorem Part.entry_head {d : Description} (hd : d.IsUnbroken)
    (hquotes : '"' ∉ d.name.toList ∧ ∀ f ∈ d.fileName, '"' ∉ f.toList) {content : Bytes}
    {threshold : Nat} {spool : Spool}
    (hs : spool.refusal? content threshold = none) :
    ∃ entry after, (⟨d.head, content⟩ : Part).entry threshold spool = (.ok entry, after)
      ∧ entry.name = heard d.name
      ∧ entry.fileName? = (Parameters.get? (Parameters.parse (d.name ++ "\"")) "filename").or
          (d.fileName.map heard)
      ∧ (entry.name = d.name ∧ entry.fileName? = d.fileName
          ↔ ';' ∉ d.name.toList ∧ ∀ f ∈ d.fileName, ';' ∉ f.toList) := by
  obtain ⟨entry, after, hentry, hname, hfile⟩ : ∃ entry after,
      (⟨d.head, content⟩ : Part).entry threshold spool = (.ok entry, after)
      ∧ entry.name = heard d.name
      ∧ entry.fileName? = (Parameters.get? (Parameters.parse (d.name ++ "\"")) "filename").or
          (d.fileName.map heard) := by
    simp only [entry, description_of_quoted hd hquotes]
    generalize (Parameters.get? (Parameters.parse (d.name ++ "\"")) "filename").or
      (d.fileName.map heard) = fileName
    cases fileName with
    | none => exact ⟨.field (heard d.name) (Utf8.decodeLossy content), spool, rfl, rfl, rfl⟩
    | some f =>
      obtain ⟨t, hadd⟩ := Spool.exists_add hs (heard d.name) f d.contentType
      simp only [hadd]
      exact ⟨_, t, rfl, rfl, rfl⟩
  refine ⟨entry, after, hentry, hname, hfile, ?_⟩
  rw [hname, hfile, Parameters.heard_eq_iff hquotes.1]
  refine and_congr_right fun hplain => ?_
  rw [Parameters.parse_append_quote hplain]
  cases hf : d.fileName with
  | none => simp [Parameters.get?]
  | some f =>
    have hiff := Parameters.heard_eq_iff (hquotes.2 f hf)
    simpa [Parameters.get?] using hiff

/-- Names with other marks and blanks in them. -/
theorem Part.entry_head_of_blanks :
    let d : Description := ⟨"f=1", some " a: b.txt ", none⟩
    ∃ entry after, (⟨d.head, [120]⟩ : Part).entry 8 {} = (.ok entry, after)
      ∧ entry.name = heard d.name
      ∧ entry.fileName? = (Parameters.get? (Parameters.parse (d.name ++ "\"")) "filename").or
          (d.fileName.map heard)
      ∧ (entry.name = d.name ∧ entry.fileName? = d.fileName
          ↔ ';' ∉ d.name.toList ∧ ∀ f ∈ d.fileName, ';' ∉ f.toList) := by
  intro d
  refine entry_head ⟨by decide, ?_, ?_⟩ ⟨by decide, ?_⟩ rfl
  · simp [d]
  · simp [d]
  · simp [d]

/-- Of a file name with a semicolon only the front is left, with the quote before it. -/
theorem Part.entry_semicolon_in_fileName :
    let d : Description := ⟨"f", some "a;b.txt", none⟩
    ((⟨d.head, [120]⟩ : Part).entry 8 {}).1 = .ok (.file ⟨0, "f", "\"a", none, 1⟩) := by
  decide +kernel

/-- A field whose name goes on with a file name is taken for a file. -/
example :
    let d : Part.Description := ⟨"a; filename=x", none, none⟩
    ((⟨d.head, [120]⟩ : Part).entry 8 {}).1 = .ok (.file ⟨0, "\"a", "x\"", none, 1⟩) := by
  decide +kernel

end HttpContext
