import HttpContext.Message.HeaderFields
import HttpContext.Value.Multimap
import Mathlib.Data.List.Induction
/-!
Pairs grouped by name: the names in the order in which they first come up, each in its first
spelling, and under each its values in order. Putting pairs into a map one after the other groups
them (`Multimap.putAll_eq_group`), and grouping what has been grouped changes nothing
(`Multimap.putAll_pairs_group`).
-/
namespace HttpContext

namespace KeyRule

variable {rule : KeyRule}

@[simp] theorem same_refl (rule : KeyRule) (a : String) : rule.same a a = true := by
  cases rule <;> simp [same]

theorem same_congr {a b : String} (h : rule.same a b = true) (c : String) :
    rule.same c a = rule.same c b := by
  cases rule with
  | exact =>
    have hab : a = b := by simpa [same] using h
    rw [hab]
  | ignoringCase =>
    have hab : Text.fold a = Text.fold b := Text.sameName_iff.1 h
    simp only [same, Text.sameName, hab]

theorem same_comm (a b : String) : rule.same a b = rule.same b a := by
  cases rule with
  | exact => exact Bool.beq_comm
  | ignoringCase => exact Text.sameName_comm a b

end KeyRule

namespace Multimap

variable {rule : KeyRule}

/-- The distinct names, each in its first spelling and place. -/
def firstNames (rule : KeyRule) : List String → List String
  | [] => []
  | name :: rest => name :: (firstNames rule rest).filter fun other => !rule.same other name

/-- The values that stand under a name, in order. -/
def valuesOf (rule : KeyRule) (pairs : List (String × String)) (name : String) : List String :=
  (pairs.filter fun pair => rule.same pair.1 name).map Prod.snd

def group (rule : KeyRule) (pairs : List (String × String)) : Multimap where
  rule := rule
  entries := (firstNames rule (pairs.map Prod.fst)).map fun name =>
    (name, valuesOf rule pairs name)

/-! ### Distinct names -/

theorem firstNames_concat (names : List String) (name : String) :
    firstNames rule (names ++ [name])
      = if names.any (rule.same · name) then firstNames rule names
        else firstNames rule names ++ [name] := by
  induction names with
  | nil => rfl
  | cons first rest ih =>
    simp only [List.cons_append, firstNames, ih, List.any_cons]
    -- a name that is new behind the first one is dropped there if it is the first one's own
    by_cases hany : rest.any (rule.same · name) = true
    · simp only [hany, Bool.or_true, ↓reduceIte]
    by_cases hsame : rule.same first name = true
    · have hfiltered : rule.same name first = true := by rw [KeyRule.same_comm, hsame]
      simp [hany, hsame, hfiltered]
    · have hkept : rule.same name first = false := by
        rw [KeyRule.same_comm]
        simpa using hsame
      simp [hany, hsame, hkept]

theorem mem_of_mem_firstNames {names : List String} {name : String}
    (h : name ∈ firstNames rule names) : name ∈ names := by
  induction names with
  | nil => exact h
  | cons first rest ih =>
    rcases List.mem_cons.1 h with rfl | h
    · exact List.mem_cons_self
    · exact List.mem_cons_of_mem _ (ih (List.mem_filter.1 h).1)

theorem any_firstNames (names : List String) (name : String) :
    (firstNames rule names).any (rule.same · name) = names.any (rule.same · name) := by
  induction names using List.reverseRecOn with
  | nil => rfl
  | append_singleton names last ih =>
    rw [firstNames_concat]
    split
    · rename_i hknown
      rw [ih, List.any_append]
      -- the last name is known already, under another spelling perhaps
      by_cases hlast : rule.same last name = true
      · simp only [KeyRule.same_congr hlast] at hknown
        simp [hknown]
      · simp [hlast]
    · rw [List.any_append, List.any_append, ih]

theorem pairwise_firstNames (names : List String) :
    (firstNames rule names).Pairwise fun a b => rule.same a b = false := by
  induction names with
  | nil => exact .nil
  | cons first rest ih =>
    refine .cons ?_ (ih.filter _)
    intro other hother
    have hkept := (List.mem_filter.1 hother).2
    rw [KeyRule.same_comm]
    simpa using hkept

/-! ### Putting pairs one after the other -/

theorem putIn_append {front : List (String × List String)} {name : String}
    (h : front.any (fun entry => rule.same entry.1 name) = false) (value : String)
    (back : List (String × List String)) :
    putIn rule name value (front ++ back) = front ++ putIn rule name value back := by
  induction front with
  | nil => rfl
  | cons entry rest ih =>
    obtain ⟨hentry, hrest⟩ := Bool.or_eq_false_iff.1 h
    have hentry : rule.same entry.1 name = false := hentry
    rw [List.cons_append, putIn, hentry, if_neg Bool.false_ne_true, ih hrest, List.cons_append]

/-- A value of a known name goes to that name, and the others keep theirs. -/
theorem putIn_map {names : List String} (hd : names.Pairwise fun a b => rule.same a b = false)
    {name : String} (h : names.any (rule.same · name) = true) (values : String → List String)
    (value : String) :
    putIn rule name value (names.map fun other => (other, values other))
      = names.map fun other =>
          (other, values other ++ if rule.same other name then [value] else []) := by
  induction names with
  | nil => cases h
  | cons first rest ih =>
    obtain ⟨hfirst, hrest⟩ := List.pairwise_cons.1 hd
    rw [List.map_cons, List.map_cons, putIn]
    by_cases hsame : rule.same first name = true
    · -- the names differ from each other, so no later one is given the value too
      have hothers : ∀ other ∈ rest, rule.same other name = false := by
        intro other hother
        rw [← KeyRule.same_congr hsame, KeyRule.same_comm]
        exact hfirst other hother
      simp only [hsame, ↓reduceIte, List.cons.injEq, true_and]
      refine List.map_congr_left fun other hother => ?_
      simp [hothers other hother]
    · rw [List.any_cons, (Bool.not_eq_true _).mp hsame, Bool.false_or] at h
      simp [hsame, ih hrest h]

theorem valuesOf_concat (pairs : List (String × String)) (name value other : String) :
    valuesOf rule (pairs ++ [(name, value)]) other
      = valuesOf rule pairs other ++ if rule.same other name then [value] else [] := by
  rw [KeyRule.same_comm]
  by_cases hsame : rule.same name other = true <;> simp [valuesOf, hsame]

theorem valuesOf_of_absent {pairs : List (String × String)} {name : String}
    (h : (pairs.map Prod.fst).any (rule.same · name) = false) : valuesOf rule pairs name = [] := by
  rw [valuesOf, List.filter_eq_nil_iff.2, List.map_nil]
  intro pair hpair hsame
  have hany := List.any_eq_false.1 h pair.1 (List.mem_map_of_mem hpair)
  exact hany hsame

theorem group_concat (pairs : List (String × String)) (name value : String) :
    group rule (pairs ++ [(name, value)]) = (group rule pairs).put name value := by
  simp only [group, put, List.map_append, List.map_cons, List.map_nil, firstNames_concat,
    valuesOf_concat]
  split
  · -- the names stay as they are, and the value goes to the entry of its name
    rename_i hknown
    rw [← any_firstNames] at hknown
    rw [putIn_map (pairwise_firstNames _) hknown]
  · -- a new entry at the end has this value alone, and none of the others is given it
    rename_i hnew
    have hnew : (pairs.map Prod.fst).any (rule.same · name) = false := by simpa using hnew
    have hentries : ((firstNames rule (pairs.map Prod.fst)).map fun other =>
        (other, valuesOf rule pairs other)).any (fun entry => rule.same entry.1 name) = false := by
      rw [List.any_map]
      exact (any_firstNames _ name).trans hnew
    have hput := putIn_append hentries value []
    rw [List.append_nil] at hput
    rw [hput, List.map_append, List.map_cons, valuesOf_of_absent hnew]
    congr 2
    · refine List.map_congr_left fun other hother => ?_
      have hother := List.any_eq_false.1 hnew other (mem_of_mem_firstNames hother)
      simp [hother]
    · simp [putIn]

theorem putAll_concat (m : Multimap) (pairs : List (String × String)) (pair : String × String) :
    m.putAll (pairs ++ [pair]) = (m.putAll pairs).put pair.1 pair.2 := by
  simp only [putAll, List.foldl_append, List.foldl_cons, List.foldl_nil]

theorem putAll_eq_group (rule : KeyRule) (pairs : List (String × String)) :
    putAll { rule } pairs = group rule pairs := by
  induction pairs using List.reverseRecOn with
  | nil => rfl
  | append_singleton pairs pair ih => rw [putAll_concat, ih, group_concat]

theorem contains_group (pairs : List (String × String)) (name : String) :
    (group rule pairs).contains name = (pairs.map Prod.fst).any (rule.same · name) := by
  rw [← any_firstNames, contains, group, List.any_map]
  rfl

theorem values_of_not_contains {m : Multimap} {name : String} (h : m.contains name = false) :
    m.values name = [] := by
  rw [values, List.find?_eq_none.2]
  exact fun entry hentry => List.any_eq_false.1 h entry hentry

/-- Every value is there once. -/
theorem perm_values_group (rule : KeyRule) (pairs : List (String × String)) :
    ((group rule pairs).entries.flatMap Prod.snd).Perm (pairs.map Prod.snd) := by
  have hput : ∀ name value (entries : List (String × List String)),
      ((putIn rule name value entries).flatMap Prod.snd).Perm
        (entries.flatMap Prod.snd ++ [value]) := by
    intro name value entries
    induction entries with
    | nil => exact .refl _
    | cons entry rest ih =>
      rw [putIn]
      split
      · -- the value comes after those of its name, in front of those of the later names
        simp only [List.flatMap_cons, List.append_assoc]
        exact List.perm_append_comm.append_left _
      · simp only [List.flatMap_cons, List.append_assoc]
        exact ih.append_left _
  induction pairs using List.reverseRecOn with
  | nil => exact .refl _
  | append_singleton pairs pair ih =>
    rw [group_concat, List.map_append]
    exact (hput pair.1 pair.2 _).trans (ih.append_right _)

/-! ### Grouping again -/

theorem putAll_append (m : Multimap) (front back : List (String × String)) :
    m.putAll (front ++ back) = (m.putAll front).putAll back :=
  List.foldl_append

theorem putAll_last {entries : List (String × List String)} {name : String}
    (h : entries.any (fun entry => rule.same entry.1 name) = false) (values more : List String) :
    putAll ⟨rule, entries ++ [(name, values)]⟩ (more.map fun value => (name, value))
      = ⟨rule, entries ++ [(name, values ++ more)]⟩ := by
  induction more generalizing values with
  | nil => simp [putAll]
  | cons value more ih =>
    have hput : put ⟨rule, entries ++ [(name, values)]⟩ name value
        = ⟨rule, entries ++ [(name, values ++ [value])]⟩ := by
      simp only [put, putIn_append h, putIn, KeyRule.same_refl, ↓reduceIte]
    have hall := ih (values ++ [value])
    rw [List.append_assoc, List.singleton_append] at hall
    rw [List.map_cons, putAll, List.foldl_cons, hput]
    exact hall

theorem putAll_values {entries : List (String × List String)} {name : String}
    (h : entries.any (fun entry => rule.same entry.1 name) = false) {values : List String}
    (hne : values ≠ []) :
    putAll ⟨rule, entries⟩ (values.map fun value => (name, value))
      = ⟨rule, entries ++ [(name, values)]⟩ := by
  -- the first value makes the entry, and the others are added to it
  obtain ⟨value, more, rfl⟩ := List.exists_cons_of_ne_nil hne
  have hput : put ⟨rule, entries⟩ name value = ⟨rule, entries ++ [(name, [value])]⟩ := by
    have hin := putIn_append h value []
    rw [List.append_nil] at hin
    rw [put, hin, putIn]
  rw [List.map_cons, putAll, List.foldl_cons, hput]
  exact putAll_last h [value] more

theorem putAll_flatMap {names : List String}
    (hd : names.Pairwise fun a b => rule.same a b = false) {values : String → List String}
    (hne : ∀ name ∈ names, values name ≠ []) {entries : List (String × List String)}
    (hnew : ∀ name ∈ names, entries.any (fun entry => rule.same entry.1 name) = false) :
    putAll ⟨rule, entries⟩ (names.flatMap fun name => (values name).map fun value => (name, value))
      = ⟨rule, entries ++ names.map fun name => (name, values name)⟩ := by
  induction names generalizing entries with
  | nil => simp [putAll]
  | cons first rest ih =>
    obtain ⟨hfirst, hrest⟩ := List.pairwise_cons.1 hd
    have hput := putAll_values (hnew first List.mem_cons_self) (hne first List.mem_cons_self)
    rw [List.flatMap_cons, putAll_append, hput, ih hrest]
    · rw [List.map_cons, List.append_assoc, List.singleton_append]
    · exact fun name hname => hne name (List.mem_cons_of_mem _ hname)
    · intro name hname
      rw [List.any_append, hnew name (List.mem_cons_of_mem _ hname), Bool.false_or, List.any_cons,
        hfirst name hname]
      rfl

theorem valuesOf_ne_nil {pairs : List (String × String)} {name : String}
    (h : name ∈ firstNames rule (pairs.map Prod.fst)) : valuesOf rule pairs name ≠ [] := by
  obtain ⟨pair, hpair, rfl⟩ := List.mem_map.1 (mem_of_mem_firstNames h)
  have hmem : pair.2 ∈ valuesOf rule pairs pair.1 :=
    List.mem_map_of_mem (List.mem_filter.2 ⟨hpair, by simp⟩)
  exact List.ne_nil_of_mem hmem

theorem pairs_group (pairs : List (String × String)) :
    (group rule pairs).pairs = (firstNames rule (pairs.map Prod.fst)).flatMap fun name =>
      (valuesOf rule pairs name).map fun value => (name, value) := by
  simp only [Multimap.pairs, group, List.flatMap_map]

theorem putAll_pairs_group (rule : KeyRule) (pairs : List (String × String)) :
    putAll { rule } (group rule pairs).pairs = group rule pairs := by
  rw [pairs_group]
  exact putAll_flatMap (pairwise_firstNames _) (fun _ hname => valuesOf_ne_nil hname)
    (fun _ _ => rfl)

end Multimap

end HttpContext
