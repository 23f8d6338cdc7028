import HttpContext.Proofs.Grouping
import HttpContext.Value.Edit
import Mathlib.Data.List.DropRight
/-!
What a map holds after any puts and removals: the pairs whose name has not been removed since they
were put, grouped by name. Main statement: `Multimap.holds_live_values`.
-/
namespace HttpContext

namespace Multimap

variable {rule : KeyRule}

/-! ### What a history of edits leaves -/

namespace Edit

def removes (rule : KeyRule) (name : String) : Edit → Bool
  | put _ _ => false
  | remove other => rule.same other name

/-- The value that an edit puts under the name. -/
def valueFor? (rule : KeyRule) (name : String) : Edit → Option String
  | put other value => if rule.same other name then some value else none
  | remove _ => none

end Edit

/-- The values put under the name since it was last removed. -/
def valuesSince (rule : KeyRule) (edits : List Edit) (name : String) : List String :=
  (edits.rtakeWhile fun edit => !edit.removes rule name).filterMap (Edit.valueFor? rule name)

/-- The pairs put whose name is not removed later. -/
def livePairs (rule : KeyRule) : List Edit → List (String × String)
  | [] => []
  | .put name value :: later =>
    if later.any (Edit.removes rule name) then livePairs rule later
    else (name, value) :: livePairs rule later
  | .remove _ :: later => livePairs rule later

theorem livePairs_concat_put (edits : List Edit) (name value : String) :
    livePairs rule (edits ++ [.put name value]) = livePairs rule edits ++ [(name, value)] := by
  induction edits with
  | nil => rfl
  | cons edit later ih =>
    cases edit with
    | put other earlier =>
      rw [List.cons_append, livePairs, livePairs, ih, List.any_append]
      cases later.any (Edit.removes rule other) <;> rfl
    | remove other => rw [List.cons_append, livePairs, livePairs, ih]

theorem livePairs_concat_remove (edits : List Edit) (name : String) :
    livePairs rule (edits ++ [.remove name])
      = (livePairs rule edits).filter fun pair => !rule.same pair.1 name := by
  induction edits with
  | nil => rfl
  | cons edit later ih =>
    cases edit with
    | put other value =>
      have hlast : [Edit.remove name].any (Edit.removes rule other) = rule.same other name := by
        rw [List.any_cons, List.any_nil, Bool.or_false, Edit.removes, KeyRule.same_comm]
      rw [List.cons_append, livePairs, livePairs, ih, List.any_append, hlast]
      -- what was removed before stays out, and what was not goes if it has this name
      by_cases hgone : later.any (Edit.removes rule other) = true
      · simp only [hgone, Bool.true_or, ↓reduceIte]
      · by_cases hsame : rule.same other name = true
        · simp only [hgone, hsame, Bool.or_true, Bool.false_eq_true, ↓reduceIte, List.filter_cons,
            Bool.not_true]
        · simp only [hgone, hsame, Bool.or_false, Bool.false_eq_true, ↓reduceIte, List.filter_cons,
            Bool.not_false]
    | remove other => rw [List.cons_append, livePairs, livePairs, ih]

theorem valuesSince_concat_put (edits : List Edit) (other value name : String) :
    valuesSince rule (edits ++ [.put other value]) name
      = valuesSince rule edits name ++ if rule.same name other then [value] else [] := by
  rw [valuesSince, List.rtakeWhile_concat, Edit.removes, if_pos Bool.not_false,
    List.filterMap_append, KeyRule.same_comm name other]
  by_cases hsame : rule.same other name = true <;>
    simp [valuesSince, Edit.valueFor?, hsame]

theorem valuesSince_concat_remove (edits : List Edit) (other name : String) :
    valuesSince rule (edits ++ [.remove other]) name
      = if rule.same other name then [] else valuesSince rule edits name := by
  rw [valuesSince, List.rtakeWhile_concat, Edit.removes]
  by_cases hsame : rule.same other name = true <;>
    simp [valuesSince, Edit.valueFor?, hsame]

/-! ### A name taken out of a group -/

theorem firstNames_filter (names : List String) (name : String) :
    firstNames rule (names.filter fun other => !rule.same other name)
      = (firstNames rule names).filter fun other => !rule.same other name := by
  induction names with
  | nil => rfl
  | cons first rest ih =>
    by_cases hsame : rule.same first name = true
    · -- the first name goes, and with it the same names that it kept out
      have hothers : (fun other => !rule.same other first) = fun other => !rule.same other name :=
        funext fun other => by rw [KeyRule.same_congr hsame]
      simp only [List.filter_cons, hsame, Bool.not_true, Bool.false_eq_true, ↓reduceIte, ih,
        firstNames, hothers, List.filter_filter, Bool.and_self]
    · simp only [List.filter_cons, hsame, Bool.not_false, ↓reduceIte, ih, firstNames]
      rw [List.filter_comm]

theorem valuesOf_congr {pairs : List (String × String)} {name other : String}
    (h : rule.same name other = true) : valuesOf rule pairs name = valuesOf rule pairs other := by
  simp only [valuesOf, KeyRule.same_congr h]

theorem valuesOf_filter (pairs : List (String × String)) (name other : String) :
    valuesOf rule (pairs.filter fun pair => !rule.same pair.1 name) other
      = if rule.same name other then [] else valuesOf rule pairs other := by
  rw [valuesOf, List.filter_filter]
  by_cases hsame : rule.same name other = true
  · simp only [hsame, ↓reduceIte, KeyRule.same_congr hsame, Bool.and_not_self, List.filter_false,
      List.map_nil]
  · rw [if_neg hsame, valuesOf]
    congr 1
    refine List.filter_congr fun pair _ => ?_
    by_cases hpair : rule.same pair.1 other = true
    · have hkept : rule.same pair.1 name = false := by
        rw [KeyRule.same_comm, KeyRule.same_congr hpair]
        simpa using hsame
      rw [hpair, hkept]
      rfl
    · simp [hpair]

theorem names_group (pairs : List (String × String)) :
    (group rule pairs).names = firstNames rule (pairs.map Prod.fst) := by
  simp only [names, group, List.map_map, Function.comp_def, List.map_id']

theorem values_group (pairs : List (String × String)) (name : String) :
    (group rule pairs).values name = valuesOf rule pairs name := by
  rw [values, group, List.find?_map]
  cases hfound : (firstNames rule (pairs.map Prod.fst)).find?
      ((fun entry => rule.same entry.1 name) ∘ fun other => (other, valuesOf rule pairs other)) with
  | some first =>
    have hsame := List.find?_some hfound
    exact valuesOf_congr hsame
  | none =>
    -- no name of the group is this one, so no pair has it
    have hnone : (firstNames rule (pairs.map Prod.fst)).any (rule.same · name) = false :=
      List.any_eq_false.2 (List.find?_eq_none.1 hfound)
    rw [any_firstNames] at hnone
    rw [valuesOf_of_absent hnone]
    rfl

/-- Where the names differ, the first entry of a name is its only one. -/
theorem removeIn_eq_filter {entries : List (String × List String)}
    (hd : (entries.map Prod.fst).Pairwise fun a b => rule.same a b = false) (name : String) :
    removeIn rule name entries = entries.filter fun entry => !rule.same entry.1 name := by
  induction entries with
  | nil => rfl
  | cons entry rest ih =>
    obtain ⟨hentry, hrest⟩ := List.pairwise_cons.1 hd
    rw [removeIn, List.filter_cons]
    by_cases hsame : rule.same entry.1 name = true
    · have hothers : ∀ other ∈ rest, (!rule.same other.1 name) = true := by
        intro other hother
        have hdiffers := hentry other.1 (List.mem_map_of_mem hother)
        rw [KeyRule.same_comm, KeyRule.same_congr hsame] at hdiffers
        rw [hdiffers]
        rfl
      simp only [hsame, ↓reduceIte, Bool.not_true, Bool.false_eq_true]
      exact (List.filter_eq_self.2 hothers).symm
    · simp only [hsame, Bool.false_eq_true, ↓reduceIte, Bool.not_false, ih hrest]

theorem entries_remove {m : Multimap} (hd : m.names.Pairwise fun a b => m.rule.same a b = false)
    (name : String) :
    (m.remove name).entries = m.entries.filter fun entry => !m.rule.same entry.1 name :=
  removeIn_eq_filter hd name

theorem distinct_names_group (pairs : List (String × String)) :
    (group rule pairs).names.Pairwise fun a b => rule.same a b = false := by
  rw [names_group]
  exact pairwise_firstNames _

theorem remove_group (pairs : List (String × String)) (name : String) :
    (group rule pairs).remove name
      = group rule (pairs.filter fun pair => !rule.same pair.1 name) := by
  let kept := pairs.filter fun pair => !rule.same pair.1 name
  let others := (firstNames rule (pairs.map Prod.fst)).filter fun other => !rule.same other name
  have hnames : firstNames rule (kept.map Prod.fst) = others := by
    have hkept : kept.map Prod.fst
        = (pairs.map Prod.fst).filter fun other => !rule.same other name := by
      rw [List.filter_map]
      rfl
    rw [hkept, firstNames_filter]
  -- a name that stays keeps all of its values
  have hvalues : ∀ other ∈ others, valuesOf rule kept other = valuesOf rule pairs other := by
    intro other hother
    have hdiffers : rule.same name other = false := by
      rw [KeyRule.same_comm]
      simpa using (List.mem_filter.1 hother).2
    rw [valuesOf_filter, hdiffers, if_neg Bool.false_ne_true]
  have hentries : ((group rule pairs).remove name).entries = (group rule kept).entries := by
    calc ((group rule pairs).remove name).entries
        = (group rule pairs).entries.filter fun entry => !rule.same entry.1 name :=
          entries_remove (m := group rule pairs) (distinct_names_group pairs) name
      _ = others.map fun other => (other, valuesOf rule pairs other) := List.filter_map
      _ = others.map fun other => (other, valuesOf rule kept other) :=
          List.map_congr_left fun other hother => by rw [hvalues other hother]
      _ = (group rule kept).entries := by rw [group, hnames]
  exact congrArg (Multimap.mk rule) hentries

/-! ### One edit, and a run of them -/

theorem edit_group (edits : List Edit) (last : Edit) :
    (group rule (livePairs rule edits)).edit last
      = group rule (livePairs rule (edits ++ [last])) := by
  cases last with
  | put name value => rw [edit, livePairs_concat_put, group_concat]
  | remove name => rw [edit, take_eq, livePairs_concat_remove, remove_group]

theorem run_eq_group (rule : KeyRule) (edits : List Edit) :
    run { rule } edits = group rule (livePairs rule edits) := by
  induction edits using List.reverseRecOn with
  | nil => rfl
  | append_singleton edits last ih => rw [run_concat, ih, edit_group]

/-- The live pairs of a name are those since its last removal. -/
theorem valuesOf_livePairs (edits : List Edit) (name : String) :
    valuesOf rule (livePairs rule edits) name = valuesSince rule edits name := by
  induction edits using List.reverseRecOn with
  | nil => rfl
  | append_singleton edits last ih =>
    cases last with
    | put other value =>
      rw [livePairs_concat_put, valuesOf_concat, valuesSince_concat_put, ih]
    | remove other =>
      rw [livePairs_concat_remove, valuesOf_filter, valuesSince_concat_remove, ih]

theorem values_run (edits : List Edit) (name : String) :
    (run { rule } edits).values name = valuesSince rule edits name := by
  rw [run_eq_group, values_group, valuesOf_livePairs]

theorem take_run (edits : List Edit) (name : String) :
    let m := run { rule } edits
    m.take name = (valuesSince rule edits name,
      { m with entries := m.entries.filter fun entry => !rule.same entry.1 name }) := by
  intro m
  have hm : m = group rule (livePairs rule edits) := run_eq_group rule edits
  have hd : m.names.Pairwise fun a b => m.rule.same a b = false := by
    rw [hm]
    exact distinct_names_group _
  have hrule : m.rule = rule := by rw [hm, group]
  rw [take_eq, values_run, ← hrule, ← entries_remove hd name]
  rfl

/-- The pairs of a group, counted by their values, are those that were grouped. -/
theorem perm_pairs_group (pairs : List (String × String)) :
    ((group rule pairs).pairs.map Prod.snd).Perm (pairs.map Prod.snd) := by
  have hvalues : (group rule pairs).pairs.map Prod.snd
      = (group rule pairs).entries.flatMap Prod.snd := by
    simp only [Multimap.pairs, List.map_flatMap, List.map_map, Function.comp_def, List.map_id']
  rw [hvalues]
  exact perm_values_group rule pairs

theorem pairs_group_by_name (pairs : List (String × String)) :
    (group rule pairs).pairs = (group rule pairs).names.flatMap fun name =>
      ((group rule pairs).values name).map fun value => (name, value) := by
  simp only [pairs_group, names_group, values_group]

/-- A map that has been through any puts and removals holds, for each name, the values put under it
since it was last removed, and nothing else. The names differ from each other and stand in the order
and in the spelling of the first put that counts; a removal hands out the values of its name and
leaves all other entries as they are; and the pairs of the map are these values, each once. -/
theorem holds_live_values (rule : KeyRule) (edits : List Edit) :
    let m := run { rule } edits
    m.names.Pairwise (fun a b => rule.same a b = false)
    ∧ (∀ entry ∈ m.entries, entry.2 ≠ [])
    ∧ (∀ name, m.values name = valuesSince rule edits name)
    ∧ (∀ name, m.take name = (valuesSince rule edits name,
      { m with entries := m.entries.filter fun entry => !rule.same entry.1 name }))
    ∧ m.names = firstNames rule ((livePairs rule edits).map Prod.fst)
    ∧ (m.pairs = m.names.flatMap fun name => (m.values name).map fun value => (name, value))
    ∧ (m.pairs.map Prod.snd).Perm ((livePairs rule edits).map Prod.snd) := by
  intro m
  have hm : m = group rule (livePairs rule edits) := run_eq_group rule edits
  refine ⟨?_, ?_, values_run edits, take_run edits, ?_, ?_, ?_⟩
  · rw [hm]
    exact distinct_names_group _
  · intro entry hentry
    rw [hm] at hentry
    obtain ⟨name, hname, rfl⟩ := List.mem_map.1 hentry
    exact valuesOf_ne_nil hname
  · rw [hm, names_group]
  · rw [hm, ← pairs_group_by_name]
  · rw [hm]
    exact perm_pairs_group _

example :
    run { rule := .ignoringCase }
        [.put "Tag" "1", .put "x" "2", .put "TAG" "3", .remove "tag", .put "tAg" "4"]
      = ⟨.ignoringCase, [("x", ["2"]), ("tAg", ["4"])]⟩ := by
  decide

end Multimap

end HttpContext
