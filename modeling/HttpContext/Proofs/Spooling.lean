import HttpContext.Proofs.Continuation
import HttpContext.Proofs.Release
/-!
To whom the content of a spool belongs. A reading of a form leaves behind what its own uploads
hold, and a reading that fails leaves behind nothing.
-/
namespace HttpContext

namespace Spool

/-- Nothing lies in this cell, or there is no such cell yet. -/
def IsGone (s : Spool) (i : Nat) : Prop :=
  ∀ cell, s.cells[i]? = some cell → cell.storage = .destroyed

/-- Whatever `t` holds and `s` does not belongs to these uploads. -/
def Gains (s t : Spool) (uploads : List Upload) : Prop :=
  ∀ i, s.IsGone i → t.IsGone i ∨ i ∈ uploads.map Upload.id

variable {s t : Spool}

theorem isGone_of_length_le {i : Nat} (h : s.cells.length ≤ i) : s.IsGone i := by
  intro cell hcell
  rw [List.getElem?_eq_none h] at hcell
  cases hcell

theorem isGone_id_iff (s : Spool) (u : Upload) : s.IsGone u.id ↔ s.isDestroyed u = true := by
  rw [isDestroyed, storage, decide_eq_true_eq, IsGone]
  cases s.cells[u.id]? with
  | none => simp
  | some cell => simp

theorem Gains.refl (s : Spool) : Gains s s [] := fun _ h => .inl h

theorem Gains.trans {u : Spool} {first second : List Upload} (hst : Gains s t first)
    (htu : Gains t u second) : Gains s u (first ++ second) := by
  intro i hi
  rw [List.map_append, List.mem_append]
  rcases hst i hi with ht | hfirst
  · exact (htu i ht).imp id .inr
  · exact .inr (.inl hfirst)

/-! ### What brings nothing back -/

theorem gains_modify {f : Cell → Cell}
    (hf : ∀ cell, cell.storage = .destroyed → (f cell).storage = .destroyed) (s : Spool) (k : Nat) :
    Gains s { s with cells := s.cells.modify k f } [] := by
  refine fun i hi => .inl fun cell hcell => ?_
  rw [List.getElem?_modify] at hcell
  obtain ⟨old, hold, rfl⟩ := Option.map_eq_some_iff.1 hcell
  have hdestroyed := hi old hold
  split
  · exact hf old hdestroyed
  · exact hdestroyed

theorem gains_clone (s : Spool) (u : Upload) : Gains s (s.clone u) [] := by
  refine gains_modify (fun cell h => ?_) s u.id
  exact h

theorem gains_drop (s : Spool) (u : Upload) : Gains s (s.drop u) [] := by
  refine gains_modify (fun cell h => ?_) s u.id
  split
  · rfl
  · exact h

theorem gains_destroy (s : Spool) (u : Upload) : Gains s (s.destroy u).2 [] :=
  gains_modify (fun _ _ => rfl) s u.id

theorem gains_removeFile (s : Spool) (u : Upload) : Gains s (s.removeFile u).2 [] := by
  unfold removeFile
  split
  · rename_i content hdisk
    refine fun i hi => .inl fun cell hcell => ?_
    rw [setStorage, List.getElem?_modify] at hcell
    obtain ⟨old, hold, rfl⟩ := Option.map_eq_some_iff.1 hcell
    have hdestroyed := hi old hold
    split
    · rename_i hid
      -- only a file that is there can be removed
      rw [storage, hid, hold] at hdisk
      cases hdisk.symm.trans hdestroyed
    · exact hdestroyed
  · exact .refl s
  · exact .refl s

theorem gains_dropAll (s : Spool) (uploads : List Upload) : Gains s (s.dropAll uploads) [] := by
  induction uploads generalizing s with
  | nil => exact .refl s
  | cons u rest ih => exact (s.gains_drop u).trans (ih _)

theorem gains_destroyAll (s : Spool) (uploads : List Upload) : Gains s (s.destroyAll uploads) [] := by
  induction uploads generalizing s with
  | nil => exact .refl s
  | cons u rest ih => exact (s.gains_destroy u).trans (ih _)

/-! ### What is added -/

/-- `t` is `s` with one cell more for each of the uploads, which has the only handle. -/
def Extends (s t : Spool) (uploads : List Upload) : Prop :=
  ∃ cells, t.cells = s.cells ++ cells
    ∧ uploads.map Upload.id = List.range' s.cells.length cells.length
    ∧ ∀ cell ∈ cells, cell.handles = 1

variable {uploads : List Upload}

theorem Extends.refl (s : Spool) : Extends s s [] :=
  ⟨[], (List.append_nil _).symm, rfl, fun _ h => nomatch h⟩

theorem Extends.trans {u : Spool} {first second : List Upload} (hst : Extends s t first)
    (htu : Extends t u second) : Extends s u (first ++ second) := by
  obtain ⟨cells, ht, hfirst, hone⟩ := hst
  obtain ⟨more, hu, hsecond, hmore⟩ := htu
  refine ⟨cells ++ more, by rw [hu, ht, List.append_assoc], ?_, ?_⟩
  · rw [List.map_append, hfirst, hsecond, ht, List.length_append, List.length_append,
      List.range'_append_1]
  · intro cell hcell
    rcases List.mem_append.1 hcell with h | h
    · exact hone cell h
    · exact hmore cell h

theorem extends_add {name fileName : String} {contentType : Option String} {content : Bytes}
    {threshold : Nat} {upload : Upload}
    (h : s.add name fileName contentType content threshold = (.ok upload, t)) :
    Extends s t [upload] := by
  unfold add at h
  split at h
  · cases h
  · cases h
    exact ⟨_, rfl, rfl, by simp⟩

theorem add_error {name fileName : String} {contentType : Option String} {content : Bytes}
    {threshold : Nat} {fault : Fault}
    (h : s.add name fileName contentType content threshold = (.error fault, t)) : t = s := by
  unfold add at h
  split at h
  · cases h
    rfl
  · cases h

theorem Extends.nodup (h : Extends s t uploads) : (uploads.map Upload.id).Nodup := by
  obtain ⟨cells, _, hids, _⟩ := h
  rw [hids]
  exact List.nodup_range'

theorem Extends.gains (h : Extends s t uploads) : Gains s t uploads := by
  obtain ⟨cells, ht, hids, _⟩ := h
  intro i hi
  rw [hids, List.mem_range'_1]
  -- an old cell is as it was, a new one has its upload, and behind them there is none
  by_cases hold : i < s.cells.length
  · left
    rw [IsGone, ht, List.getElem?_append_left hold]
    exact hi
  · by_cases hnew : i < s.cells.length + cells.length
    · exact .inr ⟨by omega, hnew⟩
    · exact .inl (isGone_of_length_le (by rw [ht, List.length_append]; omega))

/-- With its last handle an upload loses its content. -/
theorem isGone_dropAll {i : Nat} (hi : i ∈ uploads.map Upload.id)
    (hone : ∀ cell, s.cells[i]? = some cell → cell.handles ≤ 1) : (s.dropAll uploads).IsGone i := by
  induction uploads generalizing s with
  | nil => cases hi
  | cons u rest ih =>
    have hcells : (s.drop u).cells[i]? = s.cells[i]?.map fun cell =>
        if u.id = i then (if cell.handles ≤ 1 then ⟨.destroyed, 0⟩
          else { cell with handles := cell.handles - 1 }) else cell := by
      rw [drop, List.getElem?_modify]
      rfl
    by_cases hid : u.id = i
    · have hgone : (s.drop u).IsGone i := by
        intro cell hcell
        rw [hcells] at hcell
        obtain ⟨old, hold, rfl⟩ := Option.map_eq_some_iff.1 hcell
        rw [if_pos hid, if_pos (hone old hold)]
      -- it is gone at its turn and does not come back
      exact ((s.drop u).gains_dropAll rest i hgone).resolve_right (by simp)
    · -- the handles on it are not those that this upload gives up
      rw [List.map_cons, List.mem_cons] at hi
      refine ih (hi.resolve_left (Ne.symm hid)) fun cell hcell => ?_
      rw [hcells] at hcell
      obtain ⟨old, hold, rfl⟩ := Option.map_eq_some_iff.1 hcell
      rw [if_neg hid]
      exact hone old hold

/-- New uploads that nobody else has taken leave nothing when they are dropped. -/
theorem Extends.gains_dropAll (h : Extends s t uploads) : Gains s (t.dropAll uploads) [] := by
  intro i hi
  left
  rcases h.gains i hi with hgone | hid
  · exact (t.gains_dropAll uploads i hgone).resolve_right (by simp)
  · obtain ⟨cells, ht, hids, hone⟩ := h
    refine isGone_dropAll hid fun cell hcell => ?_
    rw [hids, List.mem_range'_1] at hid
    rw [ht, List.getElem?_append_right hid.1] at hcell
    exact Nat.le_of_eq (hone cell (List.mem_of_getElem? hcell))

end Spool

/-! ### Readings of a form -/

namespace FormEntry

def files (entries : List FormEntry) : List Upload := entries.filterMap upload?

/-- A reading leaves its files in the spool, and nothing at all when it fails. -/
def Leaves (s : Spool) : Except Error (List FormEntry) → Spool → Prop
  | .ok entries, t => s.Extends t (files entries)
  | .error _, t => s.Gains t []

theorem extends_entry {part : Part} {threshold : Nat} {s t : Spool} {entry : FormEntry}
    (h : part.entry threshold s = (.ok entry, t)) : s.Extends t (files [entry]) := by
  unfold Part.entry at h
  split at h
  · cases h
  · split at h
    · cases h
      exact .refl s
    · split at h
      · rename_i upload u hadd
        cases h
        exact Spool.extends_add hadd
      · cases h

theorem entry_error {part : Part} {threshold : Nat} {s t : Spool} {cause : Error}
    (h : part.entry threshold s = (.error cause, t)) : t = s := by
  unfold Part.entry at h
  split at h
  · cases h
    rfl
  · split at h
    · cases h
    · split at h
      · cases h
      · rename_i fault u hadd
        cases h
        exact Spool.add_error hadd

theorem extends_ofParts (threshold : Nat) (parts : List Part) (s : Spool) :
    s.Extends (ofParts threshold parts s).2.2 (files (ofParts threshold parts s).1) := by
  fun_induction ofParts threshold parts s with
  | case1 s => exact .refl s
  | case2 s part rest cause t he =>
    rw [entry_error he]
    exact .refl _
  | case3 s part rest entry t he more cause u hrest ih =>
    rw [hrest] at ih
    have hall := (extends_entry he).trans ih
    rwa [files, files, ← List.filterMap_append, List.singleton_append] at hall

end FormEntry

open FormEntry (Leaves)

theorem Multipart.leaves_read (boundary : String) (threshold : Nat) (body : Bytes) (s : Spool) :
    Leaves s (read boundary threshold body s).1 (read boundary threshold body s).2 := by
  unfold read
  split
  · exact .refl s
  · rename_i rest _
    have hparts := FormEntry.extends_ofParts threshold (parts boundary rest).1 s
    simp only
    split
    · rename_i entries cause t he
      rw [he] at hparts
      exact hparts.gains_dropAll
    · rename_i entries t he
      rw [he] at hparts
      split
      · exact hparts.gains_dropAll
      · exact hparts

namespace Request

theorem files_fields (pairs : List (String × String)) :
    FormEntry.files (pairs.map fun pair => .field pair.1 pair.2) = [] := by
  rw [FormEntry.files, List.filterMap_map]
  exact List.filterMap_eq_nil_iff.2 fun _ _ => rfl

theorem leaves_readEntries (limits : Option FormLimits) (r : Request) (s : Spool) :
    Leaves s (readEntries limits (r, s)).1 (readEntries limits (r, s)).2.2 := by
  unfold readEntries
  simp only
  split
  · exact .refl s
  · split
    · exact .refl s
    · rw [Leaves, files_fields]
      exact .refl s
  · split
    · exact .refl s
    · split
      · exact .refl s
      · split
        · exact .refl s
        · exact Multipart.leaves_read _ _ _ s

theorem files_readEntries {limits : Option FormLimits} {r : Request} {s : Spool}
    (hkind : FormKind.multipart.announcedBy r.head.contentType = false)
    {entries : List FormEntry} (h : (readEntries limits (r, s)).1 = .ok entries) :
    FormEntry.files entries = [] := by
  unfold readEntries at h
  simp only at h
  split at h
  · cases h
    rfl
  · split at h
    · cases h
    · cases h
      exact files_fields _
  · rename_i hmultipart
    unfold FormKind.ofContentType at hmultipart
    rw [hkind] at hmultipart
    split at hmultipart <;> cases hmultipart

theorem formEntries_error {limits : Option FormLimits} {r q : Request} {s t : Spool} {cause : Error}
    (h : r.formEntries limits s = (.error cause, q, t)) : q.entries = r.entries ∧ s.Gains t [] := by
  have hleaves := leaves_readEntries limits r s
  rcases formEntries_cases limits r s with ⟨entries, _, hf⟩
    | ⟨_, q, rest, ⟨cause, hread, hf⟩ | ⟨entries, hread, hf⟩⟩ <;> cases hf.symm.trans h
  rw [hread] at hleaves
  exact ⟨rfl, hleaves⟩

/-- The entries have been read before, or they are read now with the files that go with them. -/
theorem formEntries_ok {limits : Option FormLimits} {r q : Request} {s t : Spool}
    {entries : List FormEntry} (h : r.formEntries limits s = (.ok entries, q, t)) :
    q.entries.value = some entries
      ∧ (r.entries.value = some entries ∧ t = s
        ∨ r.entries.value = none ∧ s.Extends t (FormEntry.files entries)
          ∧ (FormKind.multipart.announcedBy r.head.contentType = false →
            FormEntry.files entries = [])) := by
  have hleaves := leaves_readEntries limits r s
  rcases formEntries_cases limits r s with ⟨entries, hr, hf⟩
    | ⟨hr, q, rest, ⟨cause, hread, hf⟩ | ⟨entries, hread, hf⟩⟩ <;> cases hf.symm.trans h
  · exact ⟨hr, .inl ⟨hr, rfl⟩⟩
  · rw [hread] at hleaves
    have hfound : (readEntries limits (r, s)).1 = .ok entries := by rw [hread]
    exact ⟨rfl, .inr ⟨hr, hleaves, fun hkind => files_readEntries hkind hfound⟩⟩

end Request

end HttpContext
