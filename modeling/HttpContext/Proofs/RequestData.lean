import HttpContext.Proofs.BodyLimit
import HttpContext.Proofs.Grouping
import HttpContext.Proofs.Reception
import Mathlib.Data.List.Basic
/-!
What there is to read of a request: its header lines grouped by name, its query, and the fields of
its body whose names the query does not have. The engines list them differently and come to the
same maps.
-/
namespace HttpContext

/-! ### The entries of a body -/

namespace FormEntry

/-- The entries that a body of this content type has, the files of it being stored in the spool. -/
def ofBody (decoder : Urlencoded.Decoder) (contentType : Option String) (threshold : Nat)
    (body : Bytes) (spool : Spool) :
    Except Error (List FormEntry) × Spool :=
  match FormKind.ofContentType contentType with
  | none => (.ok [], spool)
  | some .urlencoded =>
    (.ok ((decoder.pairs body).map fun pair => .field pair.1 pair.2), spool)
  | some .multipart =>
    match contentType.bind Parameters.boundary? with
    | none => (.error (.form .boundaryMissing), spool)
    | some boundary => Multipart.read boundary threshold body spool

end FormEntry

namespace Request

variable {r : Request}

theorem readEntries_of_input {source : Source} (hinput : r.input = some source)
    (hsteady : source.IsSteady) {limits : FormLimits}
    (hsize : FormKind.ofContentType r.head.contentType = none
      ∨ Body.Admits limits.maxSize source.content.length) (spool : Spool) :
    (readEntries (some limits) (r, spool)).1
      = (FormEntry.ofBody r.decoder r.head.contentType limits.threshold source.content spool).1 := by
  have hbytes : Body.Admits limits.maxSize source.content.length →
      (r.takeBody limits.maxSize).1.bytes = .ok source.content := by
    intro hadmits
    have hsource : (r.takeBody limits.maxSize).1.source = source := by
      simp only [takeBody, takeInput, hinput, Option.getD_some]
    have huntil : (r.takeBody limits.maxSize).1.source.untilFailure = (source.content, none) :=
      hsource ▸ hsteady.untilFailure
    rw [Body.bytes_eq_whole, Body.whole_of_admits, huntil]
    · rfl
    · rw [huntil, show (r.takeBody limits.maxSize).1.consumed = 0 from rfl, Nat.zero_add]
      exact hadmits
  unfold readEntries FormEntry.ofBody
  simp only [Option.map_some, Option.getD_some]
  rcases hkind : FormKind.ofContentType r.head.contentType with _ | _ | _
  · rfl
  · simp only [hbytes (hsize.resolve_left (by simp [hkind]))]
    rfl
  · have hbytes := hbytes (hsize.resolve_left (by simp [hkind]))
    rcases r.head.contentType.bind Parameters.boundary? with _ | boundary
    · rfl
    · simp only [hbytes]

/-- Under the greatest limit no form is read at all. -/
theorem readEntries_of_le {limits : FormLimits} (hlimit : UInt64.size ≤ limits.maxSize.toNat + 1)
    (hkind : FormKind.ofContentType r.head.contentType ≠ none)
    (hboundary : FormKind.ofContentType r.head.contentType = some .multipart →
      r.head.contentType.bind Parameters.boundary? ≠ none) (spool : Spool) :
    (readEntries (some limits) (r, spool)).1 = .error (.tooLarge limits.maxSize.toNat) := by
  have hbytes : (r.takeBody limits.maxSize).1.bytes = .error (.tooLarge limits.maxSize.toNat) :=
    Body.bytes_of_le hlimit
  unfold readEntries
  simp only [Option.map_some, Option.getD_some]
  rcases h : FormKind.ofContentType r.head.contentType with _ | _ | _
  · exact absurd h hkind
  · simp only [hbytes]
  · obtain ⟨boundary, hb⟩ := Option.ne_none_iff_exists'.1 (hboundary h)
    simp only [hb, hbytes]

/-! ### What the engines make of them -/

theorem names_eq_firstNames (fields : HeaderFields) :
    fields.names = Multimap.firstNames .ignoringCase (fields.entries.map Prod.fst) := by
  obtain ⟨entries⟩ := fields
  induction entries using List.reverseRecOn with
  | nil => rfl
  | append_singleton entries last ih =>
    have hany : (Multimap.firstNames .ignoringCase (entries.map Prod.fst)).any
        (Text.sameName last.1) = (entries.map Prod.fst).any (KeyRule.ignoringCase.same · last.1) := by
      rw [← Multimap.any_firstNames]
      exact List.any_congr rfl fun name => Text.sameName_comm last.1 name
    rw [HeaderFields.names] at ih
    rw [HeaderFields.names, List.foldl_append, ih, List.map_append, List.map_cons, List.map_nil,
      Multimap.firstNames_concat, List.foldl_cons, List.foldl_nil, hany]

/-- The header lines come to the same map, whether an engine lists them name by name or as they
stand. -/
theorem putAll_headerLines (engine : Engine) (r : Request) :
    Multimap.putAll { rule := .ignoringCase } (r.headerLines engine)
      = .group .ignoringCase r.head.headers.entries := by
  cases engine with
  | stream =>
    have hlines : r.headerLines .stream
        = (Multimap.group .ignoringCase r.head.headers.entries).pairs := by
      rw [Multimap.pairs_group, headerLines, names_eq_firstNames]
      rfl
    rw [hlines, Multimap.putAll_pairs_group]
  | callback => exact Multimap.putAll_eq_group .ignoringCase r.head.headers.entries

end Request

def RequestHead.parsedQuery (head : RequestHead) (decoder : Urlencoded.Decoder) : Query :=
  match head.query.filter fun query => !query.isEmpty with
  | some raw => .parse decoder raw
  | none => .empty

/-- The pairs that a query is made of. -/
def Query.pairs (query : Query) (decoder : Urlencoded.Decoder) : List (String × String) :=
  decoder.pairs (Utf8.encode query.raw)

/-- The pairs of the query that a request has. -/
def RequestHead.queryPairs (head : RequestHead) (decoder : Urlencoded.Decoder) :
    List (String × String) :=
  (head.parsedQuery decoder).pairs decoder

/-- The fields of a body whose names the query does not have. -/
def FormEntry.fieldsBeside (query : List (String × String)) (entries : List FormEntry) :
    List (String × String) :=
  (entries.filterMap field?).filter fun field => field.1 ∉ query.map Prod.fst

namespace Request

open FormEntry (fieldsBeside)

variable {r : Request}

theorem values_parsedQuery (head : RequestHead) (decoder : Urlencoded.Decoder) :
    (head.parsedQuery decoder).values = .group .exact (head.queryPairs decoder) := by
  unfold RequestHead.queryPairs RequestHead.parsedQuery
  split
  · exact Multimap.putAll_eq_group .exact _
  · have hnone : Query.empty.pairs decoder = [] := decoder.pairs_nil
    rw [hnone]
    rfl

theorem queryValues_eq (r : Request) : r.queryValues = (r.head.parsedQuery r.decoder).values := by
  unfold queryValues RequestHead.parsedQuery
  rcases r.head.query with _ | query
  · rfl
  · rw [Option.filter_some]
    by_cases hempty : query.isEmpty = true
    · rw [String.isEmpty_iff.1 hempty]
      have hnone : (Query.parse r.decoder "").values = Multimap.putAll {} [] :=
        congrArg (Multimap.putAll {}) r.decoder.pairs_nil
      exact hnone
    · simp only [hempty]
      rfl

theorem contains_parsedQuery (head : RequestHead) (decoder : Urlencoded.Decoder) (name : String) :
    (!(head.parsedQuery decoder).values.contains name)
      = decide (name ∉ (head.queryPairs decoder).map Prod.fst) := by
  rw [values_parsedQuery, Multimap.contains_group, decide_not]
  simp only [KeyRule.same, List.any_beq', List.contains_eq_mem]

theorem contains_names (r : Request) (name : String) :
    r.queryValues.names.contains name = (r.head.parsedQuery r.decoder).values.contains name := by
  rw [queryValues_eq, values_parsedQuery, Multimap.contains, Multimap.names, ← List.any_beq',
    List.any_map]
  rfl

theorem foldl_names (known : List String) (fields : List (String × String)) :
    fields.foldl (fun names field =>
        if names.contains field.1 then names else names ++ [field.1]) known
      = known ++ Multimap.firstNames .exact
          ((fields.filter fun field => !known.contains field.1).map Prod.fst) := by
  induction fields using List.reverseRecOn with
  | nil => simp [Multimap.firstNames]
  | append_singleton fields last ih =>
    have hcontains : ∀ names : List String,
        (Multimap.firstNames .exact names).contains last.1
          = names.any (KeyRule.exact.same · last.1) := by
      intro names
      rw [← Multimap.any_firstNames]
      simp only [KeyRule.same, List.any_beq']
    rw [List.foldl_append, ih, List.foldl_cons, List.foldl_nil, List.filter_append,
      List.contains_append, hcontains]
    -- a field with a known name adds nothing, another one only at its first occurrence
    cases hknown : known.contains last.1 with
    | true =>
      have hlast : [last].filter (fun field => !known.contains field.1) = [] := by
        rw [List.filter_cons, hknown]
        rfl
      rw [hlast, List.append_nil, Bool.true_or, if_pos rfl]
    | false =>
      have hlast : [last].filter (fun field => !known.contains field.1) = [last] := by
        rw [List.filter_cons, hknown]
        rfl
      rw [hlast, List.map_append, List.map_cons, List.map_nil, Multimap.firstNames_concat,
        Bool.false_or]
      split
      · rfl
      · rw [List.append_assoc]

theorem formNames_eq (r : Request) (entries : List FormEntry) :
    r.formNames entries = r.queryValues.names ++ Multimap.firstNames .exact
      ((fieldsBeside (r.head.queryPairs r.decoder) entries).map Prod.fst) := by
  have hfields : fieldsBeside (r.head.queryPairs r.decoder) entries
      = (entries.filterMap FormEntry.field?).filter
        fun field => !r.queryValues.names.contains field.1 := by
    refine List.filter_congr fun field _ => ?_
    rw [contains_names, contains_parsedQuery]
  rw [hfields]
  exact foldl_names _ _

theorem formValues_eq {name : String} (h : (r.head.parsedQuery r.decoder).values.contains name = false)
    (entries : List FormEntry) :
    r.formValues entries name
      = Multimap.valuesOf .exact (fieldsBeside (r.head.queryPairs r.decoder) entries) name := by
  have hnew := contains_parsedQuery r.head r.decoder name
  rw [h] at hnew
  rw [formValues, queryValues_eq, Multimap.values_of_not_contains h, List.nil_append,
    Multimap.valuesOf, fieldsBeside, List.filter_filter]
  refine congrArg (List.map Prod.snd) (List.filter_congr fun field _ => ?_)
  by_cases hsame : field.1 = name
  · rw [hsame, ← hnew]
    simp [KeyRule.same]
  · simp [KeyRule.same, hsame]

/-- Without the names of the query, the stream engine lists the fields name by name. -/
theorem filter_formPairs (r : Request) (entries : List FormEntry) :
    (r.formPairs entries).filter (fun pair => !(r.head.parsedQuery r.decoder).values.contains pair.1)
      = (Multimap.group .exact (fieldsBeside (r.head.queryPairs r.decoder) entries)).pairs := by
  rw [formPairs, formNames_eq, List.flatMap_append, List.filter_append, List.filter_flatMap,
    List.filter_flatMap, Multimap.pairs_group]
  -- the names of the query come first, and all that is listed under them is taken out again
  have hfront : r.queryValues.names.flatMap (fun name =>
      ((r.formValues entries name).map fun value => (name, value)).filter fun pair =>
        !(r.head.parsedQuery r.decoder).values.contains pair.1) = [] := by
    refine List.flatMap_eq_nil_iff.2 fun name hname => List.filter_eq_nil_iff.2 fun pair hpair => ?_
    obtain ⟨_, _, rfl⟩ := List.mem_map.1 hpair
    rw [← contains_names]
    simp [hname]
  rw [hfront, List.nil_append]
  -- what is listed under the other names stays
  refine List.flatMap_congr fun name hname => ?_
  obtain ⟨field, hfield, rfl⟩ := List.mem_map.1 (Multimap.mem_of_mem_firstNames hname)
  have hnew : (r.head.parsedQuery r.decoder).values.contains field.1 = false := by
    have hkept := (List.mem_filter.1 hfield).2
    rw [← contains_parsedQuery] at hkept
    simpa using hkept
  rw [formValues_eq hnew]
  refine List.filter_eq_self.2 fun pair hpair => ?_
  obtain ⟨_, _, rfl⟩ := List.mem_map.1 hpair
  simp [hnew]

/-- The form is the same, whether an engine lists the query with the fields or not. -/
theorem putUnless_formFields (engine : Engine) (r : Request) (entries : List FormEntry) :
    Multimap.putUnless {} (r.formFields engine entries) (r.head.parsedQuery r.decoder).values
      = .group .exact (fieldsBeside (r.head.queryPairs r.decoder) entries) := by
  cases engine with
  | stream => rw [Multimap.putUnless, formFields, filter_formPairs, Multimap.putAll_pairs_group]
  | callback =>
    simp only [Multimap.putUnless, formFields, contains_parsedQuery]
    exact Multimap.putAll_eq_group .exact _

end Request

end HttpContext
