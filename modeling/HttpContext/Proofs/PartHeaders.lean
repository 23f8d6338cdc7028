import HttpContext.Form.Multipart
import HttpContext.Proofs.LineBreaks
import Mathlib.Data.List.Basic
/-!
The header lines of a part say what it is, and that is read back from them. Main statement:
`Part.description_head`.
-/
namespace HttpContext

namespace Parameters

/-- A parameter as it stands behind a semicolon. -/
def written (parameter : String × String) : List Char :=
  ' ' :: parameter.1.toList ++ '=' :: '"' :: parameter.2.toList ++ ['"']

theorem unquote_quoted (cs : List Char) : unquote ('"' :: cs ++ ['"']) = cs := by
  simp only [unquote, List.cons_append, List.getLast?_concat, ↓reduceIte, List.dropLast_concat]

theorem parameter?_eq {name : String} (heq : '=' ∉ name.toList)
    (htrim : Text.trim name.toList = name.toList) (value : List Char) :
    parameter? (' ' :: name.toList ++ '=' :: value)
      = some (name, String.ofList (unquote (Text.trim value))) := by
  have hname : '=' ∉ ' ' :: name.toList := by
    rw [List.mem_cons, not_or]
    exact ⟨by decide, heq⟩
  simp only [parameter?, Text.cut?_append hname, Option.bind_eq_bind, Option.bind_some,
    Text.trim_blank_cons (c := ' ') rfl, htrim, String.ofList_toList]
  rfl

theorem parameter?_written {parameter : String × String} (heq : '=' ∉ parameter.1.toList)
    (htrim : Text.trim parameter.1.toList = parameter.1.toList) :
    parameter? (written parameter) = some parameter := by
  have hquoted : Text.trim ('"' :: parameter.2.toList ++ ['"'])
      = '"' :: parameter.2.toList ++ ['"'] := by
    refine Text.trim_of_ends (fun c hc => ?_) (fun c hc => ?_)
    · obtain rfl := Option.some.inj hc
      rfl
    · rw [List.getLast?_concat] at hc
      obtain rfl := Option.some.inj hc
      rfl
  have hread := parameter?_eq heq htrim ('"' :: parameter.2.toList ++ ['"'])
  rw [hquoted, unquote_quoted, String.ofList_toList] at hread
  rw [← hread, written, List.append_assoc]
  rfl

/-- Parameters without semicolons in them are read back from a header value. -/
theorem parse_written {kind : List Char} (hkind : ';' ∉ kind) {parameters : List (String × String)}
    (hp : ∀ p ∈ parameters, '=' ∉ p.1.toList ∧ Text.trim p.1.toList = p.1.toList)
    (hs : ∀ p ∈ parameters, ';' ∉ written p) :
    parse (String.ofList ([';'].intercalate (kind :: parameters.map written))) = parameters := by
  have hpieces : ∀ piece ∈ kind :: parameters.map written, ';' ∉ piece := by
    intro piece hm
    rcases List.mem_cons.1 hm with rfl | hm
    · exact hkind
    · obtain ⟨p, hmem, rfl⟩ := List.mem_map.1 hm
      exact hs p hmem
  rw [parse, String.toList_ofList, List.splitOn_intercalate ';' hpieces (List.cons_ne_nil _ _),
    List.tail_cons, List.filterMap_map]
  have hread : ∀ p ∈ parameters, (parameter? ∘ written) p = some p := fun p hm =>
    parameter?_written (hp p hm).1 (hp p hm).2
  rw [List.filterMap_congr hread, List.filterMap_some]

end Parameters

namespace Part

theorem not_mem_headerLine {c : Char} (hc : c ≠ ':' ∧ c ≠ ' ') {name : String} (hname : c ∉ name.toList)
    {value : List Char} (hvalue : c ∉ value) : c ∉ Text.headerLine name value := by
  simp [Text.headerLine, hc, hname, hvalue]

namespace Description

/-- The names have no semicolon and no carriage return, and the content type is a trimmed line. -/
structure IsPlain (d : Description) : Prop where
  name : ';' ∉ d.name.toList ∧ '\r' ∉ d.name.toList
  fileName : ∀ f ∈ d.fileName, ';' ∉ f.toList ∧ '\r' ∉ f.toList
  contentType : ∀ t ∈ d.contentType, Text.trim t.toList = t.toList ∧ '\r' ∉ t.toList

/-- No header line is broken, and the content type is trimmed. -/
structure IsUnbroken (d : Description) : Prop where
  name : '\r' ∉ d.name.toList
  fileName : ∀ f ∈ d.fileName, '\r' ∉ f.toList
  contentType : ∀ t ∈ d.contentType, Text.trim t.toList = t.toList ∧ '\r' ∉ t.toList

theorem IsPlain.isUnbroken {d : Description} (h : d.IsPlain) : d.IsUnbroken :=
  ⟨h.name.2, fun f hf => (h.fileName f hf).2, h.contentType⟩

def parameters (d : Description) : List (String × String) :=
  ("name", d.name) :: (d.fileName.map ("filename", ·)).toList

/-- The value of the disposition line. -/
def disposition (d : Description) : List Char :=
  [';'].intercalate ("form-data".toList :: d.parameters.map Parameters.written)

theorem disposition_eq (d : Description) :
    d.disposition = "form-data".toList ++ ';' :: Parameters.written ("name", d.name)
      ++ match d.fileName with
        | some f => ';' :: Parameters.written ("filename", f)
        | none => [] := by
  unfold disposition parameters
  cases d.fileName <;> simp [List.intercalate]

theorem toList_head (d : Description) :
    d.head.toList = Text.headerLine "Content-Disposition" d.disposition
      ++ match d.contentType with
        | some t => '\r' :: '\n' :: Text.headerLine "Content-Type" t.toList
        | none => [] := by
  have hname : "Content-Disposition: form-data; name=\"".toList
      = "Content-Disposition".toList ++ ':' :: ' ' :: "form-data".toList
        ++ ';' :: ' ' :: "name".toList ++ ['=', '"'] := by decide
  have hfile : "; filename=\"".toList = ';' :: ' ' :: "filename".toList ++ ['=', '"'] := by decide
  have htype : "\r\nContent-Type: ".toList
      = '\r' :: '\n' :: "Content-Type".toList ++ [':', ' '] := by decide
  have hquote : "\"".toList = ['"'] := by decide
  rw [disposition_eq]
  unfold head Text.headerLine Parameters.written
  cases d.fileName <;> cases d.contentType <;>
    simp only [String.toList_append, String.toList_empty, hname, hfile, htype, hquote,
      List.append_assoc, List.cons_append, List.nil_append, List.append_nil]

theorem not_mem_written {c : Char} (hc : c ≠ ' ' ∧ c ≠ '=' ∧ c ≠ '"') {parameter : String × String}
    (hname : c ∉ parameter.1.toList) (hvalue : c ∉ parameter.2.toList) :
    c ∉ Parameters.written parameter := by
  simp [Parameters.written, hc, hname, hvalue]

variable {d : Description}

theorem IsPlain.parse_disposition (h : d.IsPlain) :
    Parameters.parse (String.ofList d.disposition) = d.parameters := by
  have hsemi : ';' ≠ ' ' ∧ ';' ≠ '=' ∧ ';' ≠ '"' := by decide
  have hplain : ∀ p ∈ d.parameters, (p.1 = "name" ∨ p.1 = "filename") ∧ ';' ∉ p.2.toList := by
    intro p hp
    rcases List.mem_cons.1 hp with rfl | hp
    · exact ⟨.inl rfl, h.name.1⟩
    · obtain ⟨f, hf, rfl⟩ := Option.map_eq_some_iff.1 (Option.mem_toList.1 hp)
      exact ⟨.inr rfl, (h.fileName f hf).1⟩
  refine Parameters.parse_written (by decide) (fun p hp => ?_) (fun p hp => ?_)
  · rcases (hplain p hp).1 with hn | hn <;> rw [hn] <;> decide
  · refine not_mem_written hsemi ?_ (hplain p hp).2
    rcases (hplain p hp).1 with hn | hn <;> rw [hn] <;> decide

theorem trim_disposition (d : Description) : Text.trim d.disposition = d.disposition := by
  obtain ⟨rest, hrest⟩ : ∃ rest, d.disposition = 'f' :: rest := ⟨_, disposition_eq d⟩
  -- the last parameter ends with a quote
  obtain ⟨front, hfront⟩ : ∃ front, d.disposition = front ++ ['"'] := by
    rw [disposition_eq]
    cases d.fileName with
    | none =>
      let opened := ' ' :: "name".toList ++ '=' :: '"' :: d.name.toList
      exact ⟨"form-data".toList ++ ';' :: opened, by simp [Parameters.written, opened]⟩
    | some f =>
      let opened := ' ' :: "filename".toList ++ '=' :: '"' :: f.toList
      exact ⟨_, (List.append_assoc _ (';' :: opened) _).symm⟩
  refine Text.trim_of_ends (fun c hc => ?_) (fun c hc => ?_)
  · rw [hrest] at hc
    obtain rfl := Option.some.inj hc
    rfl
  · rw [hfront, List.getLast?_concat] at hc
    obtain rfl := Option.some.inj hc
    rfl

theorem IsUnbroken.not_mem_disposition (h : d.IsUnbroken) : '\r' ∉ d.disposition := by
  have hreturn : '\r' ≠ ' ' ∧ '\r' ≠ '=' ∧ '\r' ≠ '"' := by decide
  have hlabels : '\r' ∉ "name".toList ∧ '\r' ∉ "filename".toList := by decide
  have hname : '\r' ∉ Parameters.written ("name", d.name) :=
    not_mem_written hreturn hlabels.1 h.name
  have hfile : ∀ f ∈ d.fileName, '\r' ∉ Parameters.written ("filename", f) := fun f hf =>
    not_mem_written hreturn hlabels.2 (h.fileName f hf)
  rw [disposition_eq]
  cases hf : d.fileName with
  | none => simp [hname]
  | some f => simp [hname, hfile f hf]

theorem IsUnbroken.not_mem_line (h : d.IsUnbroken) :
    '\r' ∉ Text.headerLine "Content-Disposition" d.disposition
    ∧ ∀ t ∈ d.contentType, '\r' ∉ Text.headerLine "Content-Type" t.toList := by
  have hreturn : '\r' ≠ ':' ∧ '\r' ≠ ' ' := by decide
  have hnames : '\r' ∉ "Content-Disposition".toList ∧ '\r' ∉ "Content-Type".toList := by decide
  exact ⟨Part.not_mem_headerLine hreturn hnames.1 h.not_mem_disposition,
    fun t ht => Part.not_mem_headerLine hreturn hnames.2 (h.contentType t ht).2⟩

/-- The head is one line, or two when there is a content type. -/
theorem IsUnbroken.lines_head (h : d.IsUnbroken) :
    Text.lines d.head.toList = Text.headerLine "Content-Disposition" d.disposition
      :: (d.contentType.map fun t => Text.headerLine "Content-Type" t.toList).toList := by
  obtain ⟨hfirst, hsecond⟩ := h.not_mem_line
  have hone := Text.isOneLine_of_not_mem hfirst
  rw [toList_head]
  cases ht : d.contentType with
  | none =>
    rw [List.append_nil]
    exact Text.lines_of_isOneLine hone
  | some t =>
    simp only
    rw [Text.lines_append hone, Text.lines_of_isOneLine (Text.isOneLine_of_not_mem (hsecond t ht))]
    rfl

/-- None of the lines is blank or broken. -/
theorem IsPlain.forall_lines (h : d.IsPlain) :
    ∀ text ∈ Text.lines d.head.toList, text ≠ [] ∧ '\r' ∉ text := by
  obtain ⟨hfirst, hsecond⟩ := h.isUnbroken.not_mem_line
  rw [h.isUnbroken.lines_head]
  intro text hm
  rcases List.mem_cons.1 hm with rfl | hm
  · exact ⟨Text.headerLine_ne_nil _ _, hfirst⟩
  · obtain ⟨t, ht, rfl⟩ := Option.map_eq_some_iff.1 (Option.mem_toList.1 hm)
    exact ⟨Text.headerLine_ne_nil _ _, hsecond t ht⟩

end Description

variable {d : Description}

/-- The two header lines are read back. -/
theorem header?_head (h : d.IsUnbroken) (content : Bytes) :
    (⟨d.head, content⟩ : Part).header? "content-disposition" = some (String.ofList d.disposition)
      ∧ (⟨d.head, content⟩ : Part).header? "content-type" = d.contentType := by
  have hcolon : ':' ∉ "Content-Disposition".toList ∧ ':' ∉ "Content-Type".toList := by decide
  have htrim : Text.trim "Content-Disposition".toList = "Content-Disposition".toList
      ∧ Text.trim "Content-Type".toList = "Content-Type".toList := by decide
  have hsame : Text.sameName "Content-Disposition" "content-disposition" = true
      ∧ Text.sameName "Content-Disposition" "content-type" = false
      ∧ Text.sameName "Content-Type" "content-disposition" = false
      ∧ Text.sameName "Content-Type" "content-type" = true := by decide
  have hdisposition : Text.trim (' ' :: d.disposition) = d.disposition :=
    (Text.trim_blank_cons rfl _).trans d.trim_disposition
  -- of the lines with a name the last one counts, and there is one of each name at most
  unfold header?
  rw [h.lines_head]
  cases ht : d.contentType with
  | none =>
    simp only [Option.map_none, Option.toList_none, List.foldl_cons, List.foldl_nil,
      Text.cut?_headerLine hcolon.1, htrim, hdisposition, hsame, String.ofList_toList,
      Bool.false_eq_true, ↓reduceIte, and_self]
  | some t =>
    have htype : Text.trim (' ' :: t.toList) = t.toList :=
      (Text.trim_blank_cons rfl _).trans (h.contentType t ht).1
    simp only [Option.map_some, Option.toList_some, List.foldl_cons, List.foldl_nil,
      Text.cut?_headerLine hcolon.1, Text.cut?_headerLine hcolon.2, htrim, hdisposition, htype, hsame,
      String.ofList_toList, Bool.false_eq_true, ↓reduceIte, and_self]

/-- What a part is described by is read back from its header lines. -/
theorem description_head (h : d.IsPlain) (content : Bytes) :
    (⟨d.head, content⟩ : Part).description = .ok d := by
  obtain ⟨hdisposition, htype⟩ := header?_head h.isUnbroken content
  have hname : Parameters.get? d.parameters "name" = some d.name := by
    simp [Description.parameters, Parameters.get?]
  have hfile : Parameters.get? d.parameters "filename" = d.fileName := by
    have hother : Text.sameName "name" "filename" = false := by decide
    unfold Description.parameters Parameters.get?
    cases d.fileName <;> simp [hother]
  simp only [description, hdisposition, h.parse_disposition, hname, hfile, htype]

end Part

end HttpContext
