import HttpContext.Form.Sharing
import HttpContext.Proofs.Positions
/-!
An upload is one resource: whatever its handles do, in whatever order, what the spool holds for it
depends on three things only, namely whether it was destroyed, whether its file was removed, and
whether a handle is left. Main statement: `Sharing.one_resource`.
-/
namespace HttpContext

namespace Spool

variable {s : Spool} {u : Upload} {storage : Storage} {handles : Nat}

/-- What the spool does with an upload it does with its cell alone. -/
theorem cell_modify {f : Cell → Cell} (h : s.cells[u.id]? = some ⟨storage, handles⟩) :
    (s.cells.modify u.id f)[u.id]? = some (f ⟨storage, handles⟩) := by
  rw [List.getElem?_modify_eq, h]
  rfl

theorem storage_of_cell (h : s.cells[u.id]? = some ⟨storage, handles⟩) : s.storage u = storage := by
  rw [Spool.storage, h]

/-- Destroying what is destroyed already changes nothing. -/
theorem setStorage_self (h : s.cells[u.id]? = some ⟨storage, handles⟩) :
    s.setStorage u storage = s := by
  have hcells : s.cells.modify u.id (fun cell => { cell with storage }) = s.cells := by
    apply List.ext_getElem?
    intro i
    rw [List.getElem?_modify]
    by_cases hi : u.id = i
    · subst hi
      simp only [↓reduceIte, h, Option.map_eq_map, Option.map_some]
    · simp only [hi, ↓reduceIte, Option.map_eq_map, Option.map_id_fun', id]
  rw [setStorage, hcells]

end Spool

namespace Sharing

variable {content : Bytes} {threshold : Nat} {past uses : List Use} {alive : List Nat}
  {s t : Sharing} {answer : Answer} {answers : List Answer}

/-! ### What the spool holds after some uses -/

def Destroyed (past : List Use) : Prop := ∃ use ∈ past, use.isDestroy = true

instance (past : List Use) : Decidable (Destroyed past) :=
  inferInstanceAs (Decidable (∃ use ∈ past, use.isDestroy = true))

/-- Where the content lies after these uses, with these handles left. -/
def whereabouts (content : Bytes) (threshold : Nat) (past : List Use) (alive : List Nat) :
    Spool.Storage :=
  if Destroyed past ∨ alive = [] then .destroyed
  else if content.length ≤ threshold then .memory content
  else if .removeFile ∈ past then .missing
  else .disk content

theorem destroyed_concat {use : Use} :
    Destroyed (past ++ [use]) ↔ Destroyed past ∨ use.isDestroy = true := by
  unfold Destroyed
  simp only [List.mem_append, List.mem_singleton, or_and_right, exists_or, exists_eq_left]

/-- A use that neither destroys nor removes leaves the content where it is. -/
theorem whereabouts_concat {use : Use} (hd : use.isDestroy = false) (hr : use ≠ .removeFile) :
    whereabouts content threshold (past ++ [use]) alive
      = whereabouts content threshold past alive := by
  have hmem : Use.removeFile ∈ past ++ [use] ↔ .removeFile ∈ past := by
    simp only [List.mem_append, List.mem_singleton, hr.symm, or_false]
  simp only [whereabouts, destroyed_concat, hd, Bool.false_eq_true, or_false, hmem]

/-- It matters only whether there are handles. -/
theorem whereabouts_of_ne_nil {others : List Nat} (ha : alive ≠ []) (ho : others ≠ []) :
    whereabouts content threshold past alive = whereabouts content threshold past others := by
  simp only [whereabouts, ha, ho, or_false]

theorem whereabouts_nil : whereabouts content threshold past [] = .destroyed := by
  rw [whereabouts, if_pos (.inr rfl)]

theorem whereabouts_destroyed (h : Destroyed past) :
    whereabouts content threshold past alive = .destroyed := by
  rw [whereabouts, if_pos (.inl h)]

/-- What holds of the upload after these uses: its cell has the content where it has to be, and it
counts the handles that are left. -/
def Stands (content : Bytes) (threshold : Nat) (past : List Use) (s : Sharing) : Prop :=
  s.spool.cells[s.upload.id]? = some ⟨whereabouts content threshold past s.alive, s.alive.length⟩

theorem stands_add {spool after : Spool} {upload : Upload} {name fileName : String}
    {contentType : Option String}
    (h : spool.add name fileName contentType content threshold = (.ok upload, after)) :
    Stands content threshold [] { spool := after, upload } := by
  have hnone : ¬Destroyed [] := by
    rintro ⟨use, hmem, -⟩
    cases hmem
  simp only [Stands, whereabouts, hnone, List.cons_ne_nil, or_false, ↓reduceIte, List.not_mem_nil]
  unfold Spool.add at h
  split at h
  · cases h
  · cases h
    exact List.getElem?_concat_length

/-! ### One use -/

theorem mem_alive_of_use? {use : Use} {handle : Nat} (h : s.use? use = some (answer, t))
    (hu : use.handle? = some handle) : handle ∈ s.alive := by
  unfold use? at h
  split at h
  · rename_i halive
    exact halive handle hu
  · cases h

theorem use_of_use? {use : Use} (h : s.use? use = some (answer, t)) : s.use use = (answer, t) := by
  unfold use? at h
  split at h
  · exact Option.some.inj h
  · cases h

theorem Stands.clone (h : Stands content threshold past s) {handle : Nat} (ha : handle ∈ s.alive) :
    Stands content threshold (past ++ [.clone handle]) (s.use (.clone handle)).2 := by
  have hsome : s.alive ++ [s.made] ≠ [] := by simp
  have hcell := Spool.cell_modify (f := fun cell => { cell with handles := cell.handles + 1 }) h
  rw [Stands, whereabouts_concat rfl (by simp)]
  simpa only [use, Spool.clone, List.length_append, List.length_singleton,
    whereabouts_of_ne_nil hsome (List.ne_nil_of_mem ha)] using hcell

/-- The last handle takes the content with it. -/
theorem Stands.drop (h : Stands content threshold past s) {handle : Nat} (ha : handle ∈ s.alive) :
    Stands content threshold (past ++ [.drop handle]) (s.use (.drop handle)).2 := by
  have hlength := List.length_erase_of_mem ha
  have hcell := Spool.cell_modify (f := fun cell =>
    if cell.handles ≤ 1 then ⟨.destroyed, 0⟩ else { cell with handles := cell.handles - 1 }) h
  rw [Stands, whereabouts_concat rfl (by simp)]
  by_cases hlast : s.alive.length ≤ 1
  · have hnone : s.alive.erase handle = [] := by
      apply List.eq_nil_of_length_eq_zero
      omega
    simpa only [use, Spool.drop, hnone, whereabouts_nil, List.length_nil, hlast, ↓reduceIte]
      using hcell
  · have hsome : s.alive.erase handle ≠ [] := by
      intro hnil
      rw [hnil, List.length_nil] at hlength
      omega
    simpa only [use, Spool.drop, hlength, hlast, ↓reduceIte,
      whereabouts_of_ne_nil hsome (List.ne_nil_of_mem ha)] using hcell

/-- Whatever it reports. -/
theorem Stands.destroy (h : Stands content threshold past s) (handle : Nat) :
    Stands content threshold (past ++ [.destroy handle]) (s.use (.destroy handle)).2 := by
  have hnow : Destroyed (past ++ [.destroy handle]) := destroyed_concat.2 (.inr rfl)
  have hcell := Spool.cell_modify (f := fun cell => { cell with storage := .destroyed }) h
  rw [Stands, whereabouts_destroyed hnow]
  exact hcell

theorem Stands.removeFile (h : Stands content threshold past s) :
    Stands content threshold (past ++ [.removeFile]) (s.use .removeFile).2 := by
  have hmem : Use.removeFile ∈ past ++ [.removeFile] := by simp
  have hstorage := Spool.storage_of_cell h
  have hd : Destroyed (past ++ [.removeFile]) ↔ Destroyed past := by
    rw [destroyed_concat]
    simp [Use.isDestroy]
  have hcell := h
  simp only [Stands, use, Spool.removeFile, hstorage]
  simp only [Stands, whereabouts, hd, hmem, ↓reduceIte] at hcell ⊢
  by_cases hgone : Destroyed past ∨ s.alive = []
  · simpa only [hgone, ↓reduceIte] using hcell
  · by_cases hshort : content.length ≤ threshold
    · simpa only [hgone, hshort, ↓reduceIte] using hcell
    · by_cases hr : Use.removeFile ∈ past
      · simpa only [hgone, hshort, hr, ↓reduceIte] using hcell
      · simp only [hgone, hshort, hr, ↓reduceIte] at hcell ⊢
        exact Spool.cell_modify (f := fun cell => { cell with storage := .missing }) hcell

theorem Stands.use? (h : Stands content threshold past s) {use : Use}
    (hu : s.use? use = some (answer, t)) :
    Stands content threshold (past ++ [use]) t ∧ t.upload = s.upload := by
  have ht : t = (s.use use).2 := by rw [use_of_use? hu]
  subst ht
  cases use with
  | clone handle => exact ⟨h.clone (mem_alive_of_use? hu rfl), rfl⟩
  | drop handle => exact ⟨h.drop (mem_alive_of_use? hu rfl), rfl⟩
  | bytes handle =>
    refine ⟨?_, rfl⟩
    rwa [Stands, whereabouts_concat rfl (by simp)]
  | stream handle =>
    refine ⟨?_, rfl⟩
    rwa [Stands, whereabouts_concat rfl (by simp)]
  | destroy handle => exact ⟨h.destroy handle, rfl⟩
  | removeFile => exact ⟨h.removeFile, rfl⟩

/-- Each handle that is left has its own number, and the next one gets a new one. -/
structure Numbered (s : Sharing) : Prop where
  distinct : s.alive.Nodup
  lt_made : ∀ handle ∈ s.alive, handle < s.made

theorem Numbered.use? (h : Numbered s) {use : Use} (hu : s.use? use = some (answer, t)) :
    Numbered t := by
  have ht : t = (s.use use).2 := by rw [use_of_use? hu]
  subst ht
  cases use with
  | clone handle =>
    have hnew : s.made ∉ s.alive := fun hmem => Nat.lt_irrefl _ (h.lt_made s.made hmem)
    constructor
    · refine List.nodup_append.2 ⟨h.distinct, List.pairwise_singleton _ _, ?_⟩
      rintro other hold _ hnext rfl
      rw [List.mem_singleton.1 hnext] at hold
      exact hnew hold
    · intro other hother
      rcases List.mem_append.1 hother with hold | hnext
      · exact Nat.lt_succ_of_lt (h.lt_made other hold)
      · rw [List.mem_singleton.1 hnext]
        exact Nat.lt_succ_self s.made
  | drop handle =>
    refine ⟨h.distinct.erase handle, ?_⟩
    intro other hother
    exact h.lt_made other (List.mem_of_mem_erase hother)
  | bytes _ | stream _ | destroy _ | removeFile => exact ⟨h.distinct, h.lt_made⟩

/-! ### A whole run -/

/-- What every use keeps holds after a whole run. -/
theorem run?_induction {P : List Use → Sharing → Prop}
    (hstep : ∀ past s use answer t, P past s → s.use? use = some (answer, t) → P (past ++ [use]) t)
    (past : List Use) (h : P past s) (hrun : s.run? uses = some (answers, t)) :
    P (past ++ uses) t := by
  induction uses generalizing past s answers with
  | nil =>
    cases hrun
    rwa [List.append_nil]
  | cons use uses ih =>
    rw [Sharing.run?, Option.bind_eq_bind, Option.bind_eq_some_iff] at hrun
    obtain ⟨⟨answer, between⟩, hfirst, hrest⟩ := hrun
    obtain ⟨⟨answers, last⟩, hrest, hlast⟩ := Option.bind_eq_some_iff.1 hrest
    cases hlast
    have hall := ih (past ++ [use]) (hstep past s use answer between h hfirst) hrest
    rwa [List.append_assoc] at hall

theorem Stands.run? (h : Stands content threshold past s)
    (hrun : s.run? uses = some (answers, t)) :
    Stands content threshold (past ++ uses) t ∧ t.upload = s.upload := by
  refine run?_induction
    (P := fun past other => Stands content threshold past other ∧ other.upload = s.upload)
    ?_ past ⟨h, rfl⟩ hrun
  rintro past other use answer next ⟨hother, hupload⟩ hu
  obtain ⟨hnext, hsame⟩ := hother.use? hu
  exact ⟨hnext, hsame.trans hupload⟩

theorem Numbered.run? (h : Numbered s) (hrun : s.run? uses = some (answers, t)) : Numbered t :=
  run?_induction (P := fun _ other => Numbered other)
    (fun _ _ _ _ _ hother hu => hother.use? hu) [] h hrun

/-! ### What the handles find -/

/-- What a handle finds that is left. -/
theorem use?_of_mem {handle : Nat} (ha : handle ∈ s.alive) (use : Use)
    (hu : use.handle? = some handle) : s.use? use = some (s.use use) := by
  rw [use?, if_pos]
  intro other hother
  rw [hu] at hother
  cases hother
  exact ha

/-- The file is there exactly while the content needs one, nobody has destroyed or removed it, and
there is a handle. -/
theorem Stands.fileAt? (h : Stands content threshold past s) :
    s.spool.fileAt? s.upload.id =
      if threshold < content.length ∧ ¬Destroyed past ∧ .removeFile ∉ past ∧ s.alive ≠ []
      then some content else none := by
  rw [Spool.fileAt?, h, Option.map_some, whereabouts]
  by_cases hgone : Destroyed past ∨ s.alive = []
  · have hno : ¬(threshold < content.length ∧ ¬Destroyed past ∧ .removeFile ∉ past
        ∧ s.alive ≠ []) := by
      intro hall
      exact hgone.elim hall.2.1 hall.2.2.2
    simp only [hgone, hno, ↓reduceIte]
  · obtain ⟨hkept, halive⟩ := not_or.1 hgone
    by_cases hshort : content.length ≤ threshold
    · simp only [hgone, hshort, Nat.not_lt.2 hshort, false_and, ↓reduceIte]
    · by_cases hr : Use.removeFile ∈ past
      · simp only [hgone, hshort, hr, not_true_eq_false, false_and, and_false, ↓reduceIte]
      · have hall : threshold < content.length ∧ ¬Destroyed past ∧ .removeFile ∉ past
            ∧ s.alive ≠ [] := ⟨Nat.lt_of_not_le hshort, hkept, hr, halive⟩
        rw [if_pos hall, if_neg hgone, if_neg hshort, if_neg hr]

/-- Once the upload was destroyed, whatever was reported, it is so for every handle. -/
theorem Stands.spent (h : Stands content threshold past s) (hd : Destroyed past) {handle : Nat}
    (ha : handle ∈ s.alive) :
    s.spool.isDestroyed s.upload = true
      ∧ s.use? (.bytes handle) = some (.bytes (.error .uploadDestroyed), s)
      ∧ s.use? (.stream handle) = some (.stream (.error .uploadDestroyed), s)
      ∧ s.use? (.destroy handle) = some (.destroyed (.ok ()), s) := by
  rw [Stands, whereabouts_destroyed hd] at h
  have hstorage := Spool.storage_of_cell h
  refine ⟨?_, ?_, ?_, ?_⟩
  · rw [Spool.isDestroyed, hstorage]
    rfl
  · rw [use?_of_mem ha (.bytes handle) rfl, use, Spool.bytes, hstorage]
  · rw [use?_of_mem ha (.stream handle) rfl, use, Spool.stream, hstorage]
  · rw [use?_of_mem ha (.destroy handle) rfl]
    simp only [use, Spool.destroy, hstorage, Spool.setStorage_self h]

/-- Until then every handle finds the whole content, except that a file is missing once it was
removed. -/
theorem Stands.kept (h : Stands content threshold past s) (hd : ¬Destroyed past) {handle : Nat}
    (ha : handle ∈ s.alive) :
    let removed := threshold < content.length ∧ Use.removeFile ∈ past
    s.spool.isDestroyed s.upload = false
      ∧ s.use? (.bytes handle) =
        some (.bytes (if removed then .error (.system .notFound) else .ok content), s)
      ∧ s.use? (.stream handle) =
        some (.stream (if removed then .error (.system .notFound) else .ok (.ofBytes content)), s)
      ∧ (s.use? (.destroy handle)).map Prod.fst =
        some (.destroyed (if removed then .error (.system .notFound) else .ok ())) := by
  have hkept : ¬(Destroyed past ∨ s.alive = []) :=
    not_or.2 ⟨hd, List.ne_nil_of_mem ha⟩
  have hstorage := Spool.storage_of_cell h
  simp only [whereabouts, hkept, ↓reduceIte] at hstorage
  rw [use?_of_mem ha (.bytes handle) rfl, use?_of_mem ha (.stream handle) rfl,
    use?_of_mem ha (.destroy handle) rfl]
  simp only [use, Spool.bytes, Spool.stream, Spool.destroy, Spool.isDestroyed, Option.map_some]
  by_cases hshort : content.length ≤ threshold
  · have hno := Nat.not_lt.2 hshort
    simp [hstorage, hshort, hno]
  · have hlong := Nat.lt_of_not_le hshort
    by_cases hr : Use.removeFile ∈ past
    · simp [hstorage, hshort, hlong, hr]
    · simp [hstorage, hshort, hr]

/-- Uploaded content is one resource, released once, whatever is done with it through any of its
handles. Its file is there exactly while it is needed. Until the upload is destroyed each handle
gives all of the content, or says that the file is missing; from then on no handle gives anything,
and destroying it again does nothing. -/
theorem one_resource {spool after : Spool} {upload : Upload} {name fileName : String}
    {contentType : Option String}
    (hadd : spool.add name fileName contentType content threshold = (.ok upload, after))
    (hrun : run? { spool := after, upload } uses = some (answers, s)) :
    let removed := threshold < content.length ∧ Use.removeFile ∈ uses
    s.alive.Nodup
    ∧ (s.spool.fileAt? upload.id =
      if threshold < content.length ∧ ¬Destroyed uses ∧ .removeFile ∉ uses ∧ s.alive ≠ []
      then some content else none)
    ∧ (¬Destroyed uses → ∀ handle ∈ s.alive,
      s.spool.isDestroyed upload = false
      ∧ s.use? (.bytes handle) =
        some (.bytes (if removed then .error (.system .notFound) else .ok content), s)
      ∧ s.use? (.stream handle) =
        some (.stream (if removed then .error (.system .notFound) else .ok (.ofBytes content)), s)
      ∧ (s.use? (.destroy handle)).map Prod.fst =
        some (.destroyed (if removed then .error (.system .notFound) else .ok ())))
    ∧ (Destroyed uses → ∀ handle ∈ s.alive,
      s.spool.isDestroyed upload = true
      ∧ s.use? (.bytes handle) = some (.bytes (.error .uploadDestroyed), s)
      ∧ s.use? (.stream handle) = some (.stream (.error .uploadDestroyed), s)
      ∧ s.use? (.destroy handle) = some (.destroyed (.ok ()), s)) := by
  obtain ⟨hstands, hupload⟩ := (stands_add hadd).run? hrun
  have hsame : s.upload = upload := hupload
  subst hsame
  rw [List.nil_append] at hstands
  have hnumbered : Numbered s := Numbered.run? ⟨by simp, by simp⟩ hrun
  refine ⟨hnumbered.distinct, hstands.fileAt?, ?_, ?_⟩
  · intro hd handle ha
    exact hstands.kept hd ha
  · intro hd handle ha
    exact hstands.spent hd ha

/-- Two handles of a file that somebody removes: destroying it through one of them fails, and has
destroyed it for the other one. -/
theorem one_resource_removed :
    let upload : Upload := ⟨0, "doc", "big.bin", none, 3⟩
    let spool : Spool := { cells := [⟨.disk [7, 7, 7], 1⟩] }
    let uses : List Use := [.clone 0, .removeFile, .destroy 0, .drop 0]
    Spool.add {} "doc" "big.bin" none [7, 7, 7] 2 = (.ok upload, spool)
      ∧ ∃ s, run? { spool, upload } uses = some
          ([.cloned 1, .removed (some true), .destroyed (.error (.system .notFound)), .dropped], s)
        ∧ s.alive = [1]
        ∧ s.use? (.bytes 1) = some (.bytes (.error .uploadDestroyed), s)
        ∧ s.use? (.destroy 1) = some (.destroyed (.ok ()), s) := by
  intro upload spool uses
  have hadd : Spool.add {} "doc" "big.bin" none [7, 7, 7] 2 = (.ok upload, spool) := rfl
  have hrun : run? { spool, upload } uses = some
      ([.cloned 1, .removed (some true), .destroyed (.error (.system .notFound)), .dropped],
        { spool := { cells := [⟨.destroyed, 1⟩] }, upload, alive := [1], made := 2 }) := rfl
  obtain ⟨-, -, -, hspent⟩ := one_resource hadd hrun
  obtain ⟨-, hbytes, -, hdestroy⟩ := hspent (by decide) 1 (by decide)
  exact ⟨hadd, _, hrun, rfl, hbytes, hdestroy⟩

end Sharing

end HttpContext
