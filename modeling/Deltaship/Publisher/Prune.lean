import Deltaship.Lib.Ranked
import Deltaship.Publisher.DiffStore
import Deltaship.Publisher.Housekeeping

/-!
# Deltaship.Publisher.Prune

What `prune --delete-files` leaves.

The versions of a binary are told apart by the second they were registered in: of two versions
of one second, the list that `prune` cuts has the older one first, so a cut between them keeps
the older one.  The files of the rows that go are deleted one after the other, without a look at
who else names them: two versions that were registered from one path lose it together, whatever
its spelling, and so does a version whose path leads over a link that is deleted.
`prune_keeps_iff` says exactly when neither happens.
-/

namespace Deltaship

open Prog Lexical

namespace Housekeeping

/-! ## the rows and files that go -/

/-- The versions that `prune` removes. -/
def prunedVersions (db : PublisherDb) (name : String) (keep : Nat) : List DbVersion :=
  (db.listBinaries.filter fun b => b.binaryName == name).flatMap fun b =>
    (db.listVersions b.binaryId).drop keep

/-- The files of a version and of the diffs from or to it. -/
def versionPaths (db : PublisherDb) (v : DbVersion) : List (List Char) :=
  v.filePath.toList ::
    (((db.listDiffJobsByStatus .completed).filter fun j => j.touches v.versionId).filterMap
      (·.diffPath)).map String.toList

/-- The files that `prune --delete-files` deletes. -/
def prunedPaths (db : PublisherDb) (name : String) (keep : Nat) : List (List Char) :=
  (prunedVersions db name keep).flatMap (versionPaths db)

/-- The files of the versions that stay, and of the diffs between them. -/
def keptPaths (db : PublisherDb) (name : String) (keep : Nat) : List (List Char) :=
  ((db.versions.rows.filter fun v => v ∉ prunedVersions db name keep).map (·.filePath.toList)) ++
    ((((db.listDiffJobsByStatus .completed).filter fun j =>
      (prunedVersions db name keep).all fun v => !j.touches v.versionId).filterMap
        (·.diffPath)).map String.toList)

/-- One version is newer than another: it was registered in a later second, or in the same one
but after it. -/
def Newer (db : PublisherDb) (v w : DbVersion) : Prop :=
  w.createdAt < v.createdAt ∨ w.createdAt = v.createdAt ∧ List.Sublist [w, v] db.versions.rows

/-- The versions of a binary. -/
def versionsOf (db : PublisherDb) (id : String) : List DbVersion :=
  db.versions.rows.filter fun v => v.binaryId == id

/-- Of the versions of a binary, so many newest ones stay, or all if there are fewer. -/
structure KeepsNewest (keep : Nat) (id : String) (db db' : PublisherDb) : Prop where
  subset : versionsOf db' id ⊆ versionsOf db id
  count : (versionsOf db' id).length = min keep (versionsOf db id).length
  newer : ∀ v ∈ versionsOf db' id, ∀ w ∈ versionsOf db id, w ∉ versionsOf db' id → Newer db v w

/-- What `prune` promises: the newest versions stay, and so do the files of what stays. -/
structure PruneKeeps (name : String) (keep : Nat) (s s' : Project) : Prop where
  newest : ∀ b ∈ s.db.binaries, b.binaryName = name → KeepsNewest keep b.binaryId s.db s'.db
  others : ∀ id, (∀ b ∈ s.db.binaries, b.binaryName = name → b.binaryId ≠ id) →
    versionsOf s'.db id = versionsOf s.db id
  versionFiles : ∀ v ∈ s'.db.versions, (s.content v.filePath.toList).isSome = true →
    (s'.content v.filePath.toList).isSome = true
  diffFiles : ∀ j ∈ s'.db.diffJobs, j.status = .completed → ∀ path, j.diffPath = some path →
    (s.content path.toList).isSome = true → (s'.content path.toList).isSome = true

/-! ## the loops -/

/- The prune goes through the versions behind the cut. For each it deletes the files of its diffs
and its own, as far as they can be deleted, and then the row; `Pruned` is the state behind any
number of them. -/

/-- The places of the files of some versions, and of the diffs from or to them. -/
def Doomed (s : Project) (gone : List DbVersion) (p : Path) : Prop :=
  ∃ v ∈ gone, ∃ path ∈ versionPaths s.db v, p = s.entry path

/-- The project without these versions, the diffs from or to them, and their files, as far
as they can be removed. -/
structure Pruned (e : PublisherEnv) (s : Project) (gone : List DbVersion) (s' : Project) :
    Prop where
  disk : Unlinked e (Doomed s gone) s s'
  binaries : s'.db.binaries = s.db.binaries
  versions : s'.db.versions.rows =
    s.db.versions.rows.filter fun v => v.versionId ∉ gone.map (·.versionId)
  diffJobs : s'.db.diffJobs.rows =
    s.db.diffJobs.rows.filter fun j => gone.all fun v => !j.touches v.versionId

/-- The operations of the database do not fail; a file may not be removable. -/
def DatabaseUp (e : PublisherEnv) : Prop :=
  ∀ site, (∀ p, site ≠ .removeFile p) → e.faults site = none

section Loops

variable {e : PublisherEnv} {s s₁ : Project} {gone : List DbVersion} {E : String → Project → Prop}

/-- Without a fault a query answers from the database. -/
theorem wp_dbRead_of {α : Type} {site : PublisherSite} {f : PublisherDb → α}
    {Q : α → Project → Prop} (hsite : e.faults site = none) (h : Q (f s.db) s) :
    wp (dbRead e site f) Q E s := by
  unfold dbRead hostOp
  rw [hsite]
  exact h

theorem wp_dbUpdate_of {site : PublisherSite} {f : PublisherDb → PublisherDb}
    {Q : Unit → Project → Prop} (hsite : e.faults site = none)
    (h : Q () { s with db := f s.db }) :
    wp (dbUpdate e site fun db => .ok (f db)) Q E s := by
  unfold dbUpdate hostOp
  rw [hsite]
  exact h

/-- A failure that is ignored leaves what it has done. -/
theorem wp_ignore_of {α : Type} {m : PublisherM α} {P : Project → Prop}
    (h : wp m (fun _ s' => P s') (fun _ s' => P s') s) :
    wp (ignore m) (fun _ s' => P s') E s := by
  rw [wp_ignore]
  exact wp_exec_snd h

/-- The paths of a version are its file and its completed diffs. -/
theorem mem_versionPaths {db : PublisherDb} {v : DbVersion} {path : List Char} :
    path ∈ versionPaths db v ↔ path = v.filePath.toList ∨ ∃ j ∈ db.diffJobs.rows,
      j.status = .completed ∧ j.touches v.versionId = true ∧
      ∃ text, j.diffPath = some text ∧ text.toList = path := by
  simp only [versionPaths, PublisherDb.listDiffJobsByStatus, List.mem_cons, List.mem_map,
    List.mem_filterMap, List.mem_filter, beq_iff_eq]
  grind

/-- The files of the diffs from or to a version are removed. -/
theorem wp_removeDiffs (hup : DatabaseUp e) {v : DbVersion} :
    wp (removeDiffs e false v)
      (fun _ s' => Removed e (fun p => ∃ j ∈ s.db.listDiffJobsByStatus .completed,
        j.touches v.versionId = true ∧ ∃ path, j.diffPath = some path ∧ p = s.entry path.toList)
        s s') E s := by
  unfold removeDiffs
  rw [wp_bind]
  refine wp_dbRead_of (hup _ fun _ => by simp) ?_
  refine wp_forEach_removed (fun (j : DbDiffJob) p => j.touches v.versionId = true ∧
    ∃ path, j.diffPath = some path ∧ p = s.entry path.toList) fun job _ s' hentry _ => ?_
  cases hpath : job.diffPath with
  | none => exact ⟨.refl fun p hp => by simp at hp, rfl⟩
  | some path =>
      by_cases htouches : job.touches v.versionId = true
      · simp only [htouches, if_true]
        refine wp_mono (fun _ s'' h => ⟨h.toUnlinked.congr fun p => ?_, h.db⟩) (fun _ _ h => h)
          wp_removeIfThere
        simp [hentry]
      · simp only [htouches]
        exact ⟨.refl fun p hp => absurd hp.1 (by simp), rfl⟩

/-- The files of a version are removed. -/
theorem wp_removePaths (hup : DatabaseUp e) {v : DbVersion} {Q : Unit → Project → Prop}
    (h : ∀ s', Removed e (fun p => ∃ path ∈ versionPaths s.db v, p = s.entry path) s s' →
      Q () s') :
    wp (removeIfThere e false v.filePath.toList)
      (fun _ s' => wp (removeDiffs e false v) Q E s') E s := by
  refine wp_mono (fun _ s₁ h₁ => ?_) (fun _ _ h => h) wp_removeIfThere
  refine wp_mono (fun _ s₂ h₂ => h s₂ ⟨?_, h₂.db.trans h₁.db⟩) (fun _ _ h => h)
    (wp_removeDiffs hup)
  refine (h₁.toUnlinked.trans h₂.toUnlinked).congr fun p => ?_
  simp only [mem_versionPaths, PublisherDb.listDiffJobsByStatus, List.mem_filter, beq_iff_eq, h₁.db,
    h₁.entry]
  grind

/-- Where no version was pruned, nothing was done. -/
theorem Pruned.nil (e : PublisherEnv) (s : Project) : Pruned e s [] s where
  disk := .refl fun p hp => by
    obtain ⟨v, hv, -⟩ := hp
    exact List.not_mem_nil hv
  binaries := rfl
  versions := by simp
  diffJobs := by simp

/-- The diffs that are left are among the diffs before. -/
theorem Pruned.versionPaths_subset (h : Pruned e s gone s₁) {v : DbVersion} {path : List Char}
    (hpath : path ∈ versionPaths s₁.db v) : path ∈ versionPaths s.db v := by
  rw [mem_versionPaths, h.diffJobs] at hpath
  rw [mem_versionPaths]
  grind

/-- A diff that is not left is one of a version that is gone. -/
theorem Pruned.versionPaths_cases (h : Pruned e s gone s₁) {v : DbVersion} {path : List Char}
    (hpath : path ∈ versionPaths s.db v) :
    path ∈ versionPaths s₁.db v ∨ ∃ g ∈ gone, path ∈ versionPaths s.db g := by
  simp only [mem_versionPaths, h.diffJobs, List.mem_filter, List.all_eq_true] at hpath ⊢
  grind

/-- One more version is pruned. -/
theorem Pruned.version (hup : DatabaseUp e) (h : Pruned e s gone s₁) (v : DbVersion) :
    wp (pruneVersion e true false v) (fun _ s' => Pruned e s (gone ++ [v]) s') E s₁ := by
  unfold pruneVersion
  simp only [if_true, wp_bind]
  refine wp_removePaths hup fun s₂ h₂ => ?_
  rw [if_neg (by simp), wp_bind]
  refine wp_ignore_of (wp_dbUpdate_of (hup _ fun _ => by simp) ?_)
  refine wp_ignore_of (wp_dbUpdate_of (hup _ fun _ => by simp) ?_)
  refine ⟨?_, ?_, ?_, ?_⟩
  · refine ((h.disk.trans h₂.toUnlinked).congr fun p => ⟨fun hp => ?_, fun hp => ?_⟩).of_same rfl rfl
    · rcases hp with ⟨g, hg, path, hpath, rfl⟩ | ⟨path, hpath, rfl⟩
      · exact ⟨g, List.mem_append_left _ hg, path, hpath, rfl⟩
      · exact ⟨v, List.mem_append_right _ List.mem_cons_self, path, h.versionPaths_subset hpath,
          h.disk.entry path⟩
    · obtain ⟨g, hg, path, hpath, rfl⟩ := hp
      rcases List.mem_append.mp hg with hg | hg
      · exact .inl ⟨g, hg, path, hpath, rfl⟩
      · obtain rfl := List.mem_singleton.mp hg
        rcases h.versionPaths_cases hpath with hpath | ⟨g', hg', hpath'⟩
        · exact .inr ⟨path, hpath, (h.disk.entry path).symm⟩
        · exact .inl ⟨g', hg', path, hpath', rfl⟩
  · exact (congrArg PublisherDb.binaries h₂.db).trans h.binaries
  · show (s₂.db.versions.delete _).rows = _
    rw [h₂.db, Table.rows_delete, h.versions, List.filter_filter]
    refine List.filter_congr fun u _ => ?_
    simp only [List.map_append, List.mem_append, List.map_cons, List.map_nil, List.mem_singleton]
    grind
  · show ((s₂.db.diffJobs.delete _).delete _).rows = _
    rw [h₂.db, Table.rows_delete, Table.rows_delete, h.diffJobs, List.filter_filter,
      List.filter_filter]
    refine List.filter_congr fun j _ => ?_
    simp only [List.all_append, List.all_cons, List.all_nil]
    grind

/-! ### the versions of a binary -/

/-- The versions that are left are listed in their order. -/
theorem Pruned.listVersions (h : Pruned e s gone s₁) (id : String) :
    s₁.db.listVersions id =
      (s.db.listVersions id).filter fun v => v.versionId ∉ gone.map (·.versionId) := by
  unfold PublisherDb.listVersions
  rw [List.filter_insertionSort, h.versions, List.filter_filter, List.filter_filter]
  congr 1
  exact List.filter_congr fun v _ => Bool.and_comm _ _

/-- The versions of another binary stay. -/
theorem Pruned.listVersions_of_ne (h : Pruned e s gone s₁) {id : String}
    (hgone : ∀ g ∈ gone, g ∈ s.db.versions ∧ g.binaryId ≠ id) :
    s₁.db.listVersions id = s.db.listVersions id := by
  rw [h.listVersions]
  refine List.filter_eq_self.mpr fun v hv => decide_eq_true fun hmem => ?_
  obtain ⟨hv, hid⟩ := PublisherDb.mem_listVersions.mp hv
  obtain ⟨g, hg, heq⟩ := List.mem_map.mp hmem
  obtain rfl : g = v := Table.eq_of_key_eq (hgone g hg).1 hv heq
  exact (hgone g hg).2 hid

/-- The versions of one more binary are pruned. -/
theorem Pruned.binary (hup : DatabaseUp e) (h : Pruned e s gone s₁) {keep : Nat} {b : DbBinary}
    (hgone : ∀ g ∈ gone, g ∈ s.db.versions ∧ g.binaryId ≠ b.binaryId) :
    wp (pruneBinary e true false keep b)
      (fun _ s' => Pruned e s (gone ++ (s.db.listVersions b.binaryId).drop keep) s') E s₁ := by
  unfold pruneBinary
  rw [wp_bind]
  refine wp_dbRead_of (hup _ fun _ => by simp) ?_
  rw [h.listVersions_of_ne hgone]
  split
  · next hfew =>
      rw [List.drop_eq_nil_of_le hfew, List.append_nil]
      exact h
  · refine wp_forEach (fun done s' => Pruned e s (gone ++ done) s') (by simpa using h)
      fun done v rest s' _ h' => ?_
    rw [← List.append_assoc]
    exact h'.version hup v

/-- What is pruned are the versions behind the newest ones of the binary. -/
theorem mem_prunedVersions {db : PublisherDb} {name : String} {keep : Nat} {v : DbVersion} :
    v ∈ prunedVersions db name keep ↔
      ∃ b ∈ db.binaries, b.binaryName = name ∧ v ∈ (db.listVersions b.binaryId).drop keep := by
  simp only [prunedVersions, List.mem_flatMap, List.mem_filter, PublisherDb.mem_listBinaries,
    beq_iff_eq, and_assoc]

theorem mem_versions_of_mem_drop {db : PublisherDb} {id : String} {keep : Nat} {v : DbVersion}
    (h : v ∈ (db.listVersions id).drop keep) : v ∈ db.versions ∧ v.binaryId = id :=
  PublisherDb.mem_listVersions.mp (List.mem_of_mem_drop h)

/-- The ids of the binaries with a name are pairwise distinct. -/
theorem nodup_matching (db : PublisherDb) (name : String) :
    ((db.listBinaries.filter fun b => b.binaryName == name).map (·.binaryId)).Nodup := by
  have hsorted : (db.listBinaries.map (·.binaryId)).Nodup :=
    ((List.perm_insertionSort _ _).map _).nodup_iff.mpr db.binaries.nodup
  exact hsorted.sublist (List.filter_sublist.map _)

/-- Whatever its outcome, `prune` has removed the versions it had to. -/
theorem pruned_runPrune (hup : DatabaseUp e) (s : Project) (name : String) {keep : Nat}
    (hkeep : 1 ≤ keep) :
    Pruned e s (prunedVersions s.db name keep) (exec (runPrune e true false name keep) s).2 := by
  refine wp_exec_snd (P := fun s' => Pruned e s (prunedVersions s.db name keep) s') ?_
  unfold runPrune
  rw [if_neg (by omega), wp_bind]
  unfold hostOp
  rw [hup .openDb fun _ => by simp, wp_pure, wp_bind]
  refine wp_dbRead_of (hup _ fun _ => by simp) ?_
  split
  · next hnone =>
      have hnone : prunedVersions s.db name keep = [] := by
        rw [prunedVersions, List.isEmpty_iff.mp hnone]
        rfl
      rw [hnone]
      exact .nil e s
  · refine wp_forEach (fun done s' => Pruned e s (done.flatMap fun (b : DbBinary) =>
      (s.db.listVersions b.binaryId).drop keep) s') (.nil e s) fun done b rest s' hsplit h => ?_
    rw [List.flatMap_append, List.flatMap_cons, List.flatMap_nil, List.append_nil]
    refine h.binary hup fun g hg => ?_
    obtain ⟨b', hb', hg⟩ := List.mem_flatMap.mp hg
    obtain ⟨hg, hid⟩ := mem_versions_of_mem_drop hg
    refine ⟨hg, fun heq => ?_⟩
    have hnodup := nodup_matching s.db name
    rw [hsplit, List.map_append, List.map_cons] at hnodup
    exact (List.nodup_append.mp hnodup).2.2 _ (List.mem_map_of_mem hb') _ List.mem_cons_self
      (hid.symm.trans heq)

end Loops

/-! ## what stays -/

section Kept

variable {e : PublisherEnv} {s s' : Project} {name : String} {keep : Nat}

/-- The versions of a binary with the name that stay are its newest ones. -/
theorem Pruned.newest (h : Pruned e s (prunedVersions s.db name keep) s') {b : DbBinary}
    (hb : b ∈ s.db.binaries) (hname : b.binaryName = name) :
    s'.db.listVersions b.binaryId = (s.db.listVersions b.binaryId).take keep := by
  rw [h.listVersions]
  have hnodup : ((s.db.listVersions b.binaryId).map (·.versionId)).Nodup := by
    refine ((List.perm_insertionSort _ _).map _).nodup_iff.mpr ?_
    exact s.db.versions.nodup.sublist (List.filter_sublist.map _)
  rw [← List.take_append_drop keep (s.db.listVersions b.binaryId), List.map_append] at hnodup
  nth_rewrite 1 [← List.take_append_drop keep (s.db.listVersions b.binaryId)]
  rw [List.filter_append]
  have htake : ((s.db.listVersions b.binaryId).take keep).filter
      (fun v => v.versionId ∉ (prunedVersions s.db name keep).map (·.versionId)) =
      (s.db.listVersions b.binaryId).take keep := by
    refine List.filter_eq_self.mpr fun v hv => decide_eq_true fun hmem => ?_
    obtain ⟨g, hg, heq⟩ := List.mem_map.mp hmem
    obtain ⟨b', hb', -, hg⟩ := mem_prunedVersions.mp hg
    obtain ⟨hgmem, hgid⟩ := mem_versions_of_mem_drop hg
    obtain ⟨hvmem, hvid⟩ := PublisherDb.mem_listVersions.mp (List.mem_of_mem_take hv)
    obtain rfl : g = v := Table.eq_of_key_eq hgmem hvmem heq
    obtain rfl : b' = b := Table.eq_of_key_eq hb' hb (hgid.symm.trans hvid)
    exact (List.nodup_append.mp hnodup).2.2 _ (List.mem_map_of_mem hv) _ (List.mem_map_of_mem hg)
      rfl
  have hdrop : ((s.db.listVersions b.binaryId).drop keep).filter
      (fun v => v.versionId ∉ (prunedVersions s.db name keep).map (·.versionId)) = [] := by
    refine List.filter_eq_nil_iff.mpr fun v hv hkept => ?_
    exact of_decide_eq_true hkept
      (List.mem_map_of_mem (mem_prunedVersions.mpr ⟨b, hb, hname, hv⟩))
  rw [htake, hdrop, List.append_nil]

/-- A version stays if and only if it is not pruned. -/
theorem Pruned.mem_versions (h : Pruned e s (prunedVersions s.db name keep) s') {v : DbVersion} :
    v ∈ s'.db.versions ↔ v ∈ s.db.versions ∧ v ∉ prunedVersions s.db name keep := by
  rw [Table.mem_def, h.versions, List.mem_filter]
  refine and_congr_right fun hv => ?_
  rw [decide_eq_true_iff]
  refine not_congr ⟨fun hmem => ?_, List.mem_map_of_mem⟩
  obtain ⟨g, hg, heq⟩ := List.mem_map.mp hmem
  obtain ⟨b, -, -, hdrop⟩ := mem_prunedVersions.mp hg
  obtain rfl : g = v := Table.eq_of_key_eq (mem_versions_of_mem_drop hdrop).1 hv heq
  exact hg

/-- The paths that are kept are those of the rows that are left. -/
theorem mem_keptPaths {db : PublisherDb} {q : List Char} :
    q ∈ keptPaths db name keep ↔
      (∃ v ∈ db.versions, v ∉ prunedVersions db name keep ∧ v.filePath.toList = q) ∨
      ∃ j ∈ db.diffJobs.rows, j.status = .completed ∧
        (∀ v ∈ prunedVersions db name keep, j.touches v.versionId = false) ∧
        ∃ text, j.diffPath = some text ∧ text.toList = q := by
  simp only [keptPaths, PublisherDb.listDiffJobsByStatus, List.mem_append, List.mem_map,
    List.mem_filterMap, List.mem_filter, List.all_eq_true, Bool.not_eq_true', beq_iff_eq,
    Table.mem_def]
  grind

/-- The versions of a binary are its rows. -/
theorem mem_versionsOf {db : PublisherDb} {id : String} {v : DbVersion} :
    v ∈ versionsOf db id ↔ v ∈ db.versions ∧ v.binaryId = id := by
  rw [versionsOf, List.mem_filter, beq_iff_eq]
  rfl

/-- The versions of a binary are listed newest first. -/
theorem perm_listVersions (db : PublisherDb) (id : String) :
    (db.listVersions id).Perm (versionsOf db id) := List.perm_insertionSort _ _

theorem nodup_listVersions (db : PublisherDb) (id : String) : (db.listVersions id).Nodup := by
  rw [(perm_listVersions db id).nodup_iff]
  exact db.versions.nodup.of_map.filter _

/-- Two versions of one second are listed in the order of their registration. -/
theorem sublist_listVersions {db : PublisherDb} {id : String} {v w : DbVersion}
    (hv : v.binaryId = id) (hw : w.binaryId = id) (hle : w.createdAt ≤ v.createdAt)
    (hsub : List.Sublist [v, w] db.versions.rows) :
    List.Sublist [v, w] (db.listVersions id) := by
  refine List.sublist_insertionSort ?_ ?_
  · simpa using hle
  · have hfilter := hsub.filter fun u => u.binaryId == id
    simpa [hv, hw] using hfilter

/-- A version stays if and only if it is among the first of its binary. -/
theorem Pruned.mem_versionsOf (h : Pruned e s (prunedVersions s.db name keep) s') {b : DbBinary}
    (hb : b ∈ s.db.binaries) (hname : b.binaryName = name) {v : DbVersion} :
    v ∈ versionsOf s'.db b.binaryId ↔ v ∈ (s.db.listVersions b.binaryId).take keep := by
  rw [← h.newest hb hname, (perm_listVersions _ _).mem_iff]

end Kept

/-! ## when the promise is kept -/

/- The versions are listed by seconds, newest first, and the list is cut behind the first `keep` of
them. What stays are the newest versions unless the cut falls between two versions of one second;
and their files stay unless a file that is deleted is one of theirs, under whatever path. -/

/-- No second has fewer than `keep` versions of a binary behind it and more from it on. -/
def SecondsWhole (db : PublisherDb) (name : String) (keep : Nat) : Prop :=
  ∀ b ∈ db.binaries.rows, b.binaryName = name → ∀ v ∈ versionsOf db b.binaryId,
    (versionsOf db b.binaryId).countP (fun w => v.createdAt < w.createdAt) < keep →
    (versionsOf db b.binaryId).countP (fun w => v.createdAt ≤ w.createdAt) ≤ keep

/-- No file that the prune can delete, and no link to one, is on the way to a file of those that
stay, whatever their spellings. -/
def PruneApart (e : PublisherEnv) (s : Project) (name : String) (keep : Nat) : Prop :=
  ∀ p ∈ prunedPaths s.db name keep, ∀ q ∈ keptPaths s.db name keep,
    s.entry p ∈ s.trailAt (s.entry q) → (s.content q).isSome = true →
      e.faults (.removeFile (s.entry p)) ≠ none

section Newest

variable {e : PublisherEnv} {s s' : Project} {name : String} {keep : Nat} {b : DbBinary}

/-- The versions of a binary that stay are its newest ones if and only if the cut between them
and the others goes through no second. -/
theorem Pruned.keepsNewest_iff (h : Pruned e s (prunedVersions s.db name keep) s')
    (hb : b ∈ s.db.binaries) (hname : b.binaryName = name) :
    KeepsNewest keep b.binaryId s.db s'.db ↔
      ∀ v ∈ (s.db.listVersions b.binaryId).take keep,
        ∀ w ∈ (s.db.listVersions b.binaryId).drop keep, w.createdAt < v.createdAt := by
  have hmem : ∀ v, v ∈ versionsOf s'.db b.binaryId ↔
      v ∈ (s.db.listVersions b.binaryId).take keep := fun v => h.mem_versionsOf hb hname
  have hperm := perm_listVersions s.db b.binaryId
  have hnodup := nodup_listVersions s.db b.binaryId
  constructor
  · intro hkeeps v hv w hw
    have hwgone : w ∉ versionsOf s'.db b.binaryId := fun hmem' => by
      rw [← List.take_append_drop keep (s.db.listVersions b.binaryId)] at hnodup
      exact (List.nodup_append.mp hnodup).2.2 w ((hmem w).mp hmem') w hw rfl
    rcases hkeeps.newer v ((hmem v).mpr hv) w (hperm.mem_iff.mp (List.mem_of_mem_drop hw)) hwgone with
      hlater | ⟨hsame, hsub⟩
    · exact hlater
    · refine absurd (sublist_listVersions ?_ ?_ hsame.ge hsub)
        (List.not_sublist_of_mem_take_of_mem_drop hnodup hv hw)
      · exact (PublisherDb.mem_listVersions.mp (List.mem_of_mem_drop hw)).2
      · exact (PublisherDb.mem_listVersions.mp (List.mem_of_mem_take hv)).2
  · intro habove
    refine ⟨fun v hv => hperm.mem_iff.mp (List.mem_of_mem_take ((hmem v).mp hv)), ?_,
      fun v hv w hw hgone => .inl (habove v ((hmem v).mp hv) w ?_)⟩
    · rw [← (perm_listVersions s'.db b.binaryId).length_eq, h.newest hb hname, List.length_take,
        hperm.length_eq]
    · have hw := hperm.mem_iff.mpr hw
      rw [← List.take_append_drop keep (s.db.listVersions b.binaryId)] at hw
      exact (List.mem_append.mp hw).resolve_left fun htake => hgone ((hmem w).mpr htake)

/-- That is so for every binary with the name if and only if no second is cut. -/
theorem secondsWhole_iff (db : PublisherDb) (name : String) (keep : Nat) :
    (∀ b ∈ db.binaries, b.binaryName = name → ∀ v ∈ (db.listVersions b.binaryId).take keep,
      ∀ w ∈ (db.listVersions b.binaryId).drop keep, w.createdAt < v.createdAt) ↔
      SecondsWhole db name keep := by
  refine forall₂_congr fun b _ => forall_congr' fun _ => ?_
  have hsorted : (db.listVersions b.binaryId).Pairwise fun v w => w.createdAt ≤ v.createdAt :=
    List.pairwise_insertionSort _ _
  rw [List.take_above_drop_iff hsorted]
  have hperm := perm_listVersions db b.binaryId
  simp only [hperm.mem_iff, hperm.countP_eq]

end Newest

section Apart

variable {e : PublisherEnv} {s s' : Project} {name : String} {keep : Nat}

/-- Files that are apart from those of the pruned versions stay. -/
theorem PruneApart.kept (h : PruneApart e s name keep)
    (hpruned : Pruned e s (prunedVersions s.db name keep) s') {q : List Char}
    (hq : q ∈ keptPaths s.db name keep) (hthere : (s.content q).isSome = true) :
    (s'.content q).isSome = true := by
  have hsame : s'.contentAt (s.entry q) = s.contentAt (s.entry q) := by
    refine (hpruned.disk.kept fun p hp hdoomed => ?_).1
    obtain ⟨v, hv, path, hpath, rfl⟩ := hdoomed
    exact h path (List.mem_flatMap.mpr ⟨v, hv, hpath⟩) q hq hp hthere
  have hcontent : s'.content q = s'.contentAt (s.entry q) := by rw [← hpruned.disk.entry q]; rfl
  rwa [hcontent, hsame]

/-- A file is not there any more if something on the way to it was deleted. -/
theorem Pruned.deleted (hpruned : Pruned e s (prunedVersions s.db name keep) s') {p q : List Char}
    (hp : p ∈ prunedPaths s.db name keep) (hway : s.entry p ∈ s.trailAt (s.entry q))
    (hfault : e.faults (.removeFile (s.entry p)) = none) : s'.content q = none := by
  obtain ⟨v, hv, hpath⟩ := List.mem_flatMap.mp hp
  have hcontent : s'.content q = s'.contentAt (s.entry q) := by rw [← hpruned.disk.entry q]; rfl
  rw [hcontent]
  exact hpruned.disk.lost hway ⟨v, hv, p, hpath, rfl⟩ hfault

/-- The files of what stays are all there if and only if what is deleted is apart from them. -/
theorem Pruned.files_iff (hpruned : Pruned e s (prunedVersions s.db name keep) s') :
    (∀ q ∈ keptPaths s.db name keep, (s.content q).isSome = true →
      (s'.content q).isSome = true) ↔ PruneApart e s name keep := by
  refine ⟨fun h p hp q hq hway hthere hfault => ?_, fun h q hq => h.kept hpruned hq⟩
  have hgone := hpruned.deleted hp hway hfault
  have hstays := h q hq hthere
  rw [hgone] at hstays
  contradiction

/-- The files of what stays are those of the rows that are left. -/
theorem Pruned.forall_keptPaths (hpruned : Pruned e s (prunedVersions s.db name keep) s')
    {P : List Char → Prop} : (∀ q ∈ keptPaths s.db name keep, P q) ↔
      (∀ v ∈ s'.db.versions, P v.filePath.toList) ∧
        ∀ j ∈ s'.db.diffJobs, j.status = .completed → ∀ path, j.diffPath = some path →
          P path.toList := by
  have hjob : ∀ j, j ∈ s'.db.diffJobs ↔ j ∈ s.db.diffJobs.rows ∧
      ∀ v ∈ prunedVersions s.db name keep, j.touches v.versionId = false := fun j => by
    rw [Table.mem_def, hpruned.diffJobs, List.mem_filter]
    simp
  constructor
  · intro h
    refine ⟨fun v hv => h _ (mem_keptPaths.mpr (.inl ?_)), fun j hj hdone path hpath =>
      h _ (mem_keptPaths.mpr (.inr ?_))⟩
    · obtain ⟨hv, hkept⟩ := hpruned.mem_versions.mp hv
      exact ⟨v, hv, hkept, rfl⟩
    · obtain ⟨hj, hkept⟩ := (hjob j).mp hj
      exact ⟨j, hj, hdone, hkept, path, hpath, rfl⟩
  · rintro ⟨hversions, hjobs⟩ q hq
    rcases mem_keptPaths.mp hq with ⟨v, hv, hkept, rfl⟩ | ⟨j, hj, hdone, hkept, path, hpath, rfl⟩
    · exact hversions v (hpruned.mem_versions.mpr ⟨hv, hkept⟩)
    · exact hjobs j ((hjob j).mpr ⟨hj, hkept⟩) hdone path hpath

end Apart

/-- `prune --delete-files` keeps what it says if and only if no second is cut and nothing that it
can delete is on the way to the file of a version that stays or of a completed diff between
versions that stay. -/
theorem prune_keeps_iff (e : PublisherEnv) (s : Project) (name : String) (keep : Nat)
    (hkeep : 1 ≤ keep) (hup : DatabaseUp e) :
    PruneKeeps name keep s (exec (runPrune e true false name keep) s).2 ↔
      SecondsWhole s.db name keep ∧ PruneApart e s name keep := by
  have hpruned := pruned_runPrune hup s name hkeep
  generalize (exec (runPrune e true false name keep) s).2 = s' at hpruned
  rw [← secondsWhole_iff, ← hpruned.files_iff, hpruned.forall_keptPaths]
  constructor
  · intro h
    exact ⟨fun b hb hname => (hpruned.keepsNewest_iff hb hname).mp (h.newest b hb hname),
      h.versionFiles, h.diffFiles⟩
  · rintro ⟨hnewest, hversions, hjobs⟩
    refine ⟨fun b hb hname => (hpruned.keepsNewest_iff hb hname).mpr (hnewest b hb hname),
      fun id hid => ?_, hversions, hjobs⟩
    unfold versionsOf
    rw [hpruned.versions, List.filter_filter]
    refine List.filter_congr fun v hv => ?_
    rw [Bool.and_eq_left_iff_imp]
    intro hv'
    refine decide_eq_true fun hgone => ?_
    obtain ⟨g, hg, heq⟩ := List.mem_map.mp hgone
    obtain ⟨b, hb, hname, hdrop⟩ := mem_prunedVersions.mp hg
    obtain ⟨hg, hbinary⟩ := mem_versions_of_mem_drop hdrop
    obtain rfl : g = v := Table.eq_of_key_eq hg hv heq
    exact hid b hb hname (hbinary.symm.trans (beq_iff_eq.mp hv'))

/-! ### a file that was registered twice -/

/-- The registration of a version of `app` from a file, without diffs. -/
def sampleRelease (version file : String) (now : Nat) : PublisherCommand :=
  .register { samplePublisherEnv with uuid := fun _ => version, now := now } "app" version file
    "linux-x86_64" true

/-- A project with two versions of `app`: the first is registered, the build goes on, and
the second is registered so many seconds later, each from its file. -/
def sampleReleasesAfter (later : Nat) (first second : String) : Project :=
  Runs.final (PublisherCommand.next samplePublisherCrates sampleSigningKey)
    ⟨.plain "/p".toList, PublisherDb.empty,
      Files.ofList [(normalize (join "/p".toList first.toList), [1])]⟩
    [sampleRelease "1.0.0" first 0, .edit second.toList (some [2]),
      sampleRelease "1.1.0" second later]

/-- The versions are a minute apart. -/
def sampleReleases (first second : String) : Project := sampleReleasesAfter 60 first second

/-- With a file for each version, the newest version is kept and has its file. -/
theorem prune_keeps_iff_two_files :
    (sampleReleases "app-1.0" "app-1.1").db.versions.rows.map (·.versionString) =
        ["1.0.0", "1.1.0"] ∧
      PruneKeeps "app" 1 (sampleReleases "app-1.0" "app-1.1")
        (exec (runPrune samplePublisherEnv true false "app" 1)
          (sampleReleases "app-1.0" "app-1.1")).2 := by
  refine ⟨by decide, ?_⟩
  refine (prune_keeps_iff samplePublisherEnv (sampleReleases "app-1.0" "app-1.1") "app" 1
    (by decide) fun _ _ => rfl).mpr ?_
  unfold SecondsWhole PruneApart
  decide

-- of two versions of one second the older one is kept
example : (exec (runPrune samplePublisherEnv true false "app" 1)
    (sampleReleasesAfter 0 "app-1.0" "app-1.1")).2.db.versions.rows.map (·.versionString) =
      ["1.0.0"] := by decide +kernel

/-- The project whose two versions were registered from one file, after the prune. -/
def samplePruned : Project :=
  (exec (runPrune samplePublisherEnv true false "app" 1) (sampleReleases "app" "app")).2

/-- The file of the newest version is deleted, if the older one was registered from it. -/
theorem prune_deletes_kept_file :
    ¬ ∀ (e : PublisherEnv) (s : Project) (name : String) (keep : Nat), 1 ≤ keep → DatabaseUp e →
      PruneKeeps name keep s (exec (runPrune e true false name keep) s).2 := by
  intro h
  have hkeeps : PruneKeeps "app" 1 (sampleReleases "app" "app") samplePruned :=
    h samplePublisherEnv (sampleReleases "app" "app") "app" 1 (by decide) fun _ _ => rfl
  have hrow : ∃ v ∈ samplePruned.db.versions.rows, v.filePath = "app" := by decide
  have hbefore : ((sampleReleases "app" "app").content "app".toList).isSome = true := by
    decide
  have hafter : (samplePruned.content "app".toList).isSome = false := by decide
  obtain ⟨v, hv, hpath⟩ := hrow
  have hthere := hkeeps.versionFiles v (Table.mem_def.mpr hv)
  rw [hpath, hbefore, hafter] at hthere
  exact Bool.false_ne_true (hthere rfl)

end Housekeeping

end Deltaship
