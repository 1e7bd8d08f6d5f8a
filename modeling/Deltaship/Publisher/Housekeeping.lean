import Deltaship.Publisher.Commands

/-!
# Deltaship.Publisher.Housekeeping

`cleanup.rs`: the commands `cleanup`, which removes files that no row of the database
names, and `prune`, which removes all but the newest versions of a binary.

A directory is walked as `walkdir` does: a file or a link to one is named by the text of the
directory with the components below it joined on, and links to directories are not entered.
The directories themselves are not part of a project, so one that does not exist is one
without files.  A removal takes away what stands at the place of a path, which is the link
where the path ends in one (`Project.unlink`).  The printed output, and the counts that only
it has, are left out.
-/

namespace Deltaship

open Prog Lexical

namespace Project

/-- The text with which a walk through a directory names a place below it. -/
def walkText (s : Project) (dir : List Char) (p : Path) : List Char :=
  (p.components.drop (s.entry dir).components.length).foldl join dir

/-- `WalkDir::new(dir)`: the files below a directory, and the links to files. -/
def walk (s : Project) (dir : List Char) : List (List Char) :=
  ((s.files.paths ++ s.root.links.files.paths).filter fun p =>
    (s.entry dir).Contains p).map (s.walkText dir)

end Project

namespace Housekeeping

/-- The directory of the binaries that were imported. -/
def binariesDir : List Char := join deltashipDir.toList "binaries".toList

section Host

variable (e : PublisherEnv)

/-- `fs::remove_file`. -/
def removeFile (path : List Char) : PublisherM Unit := do
  let s ← get
  hostOp e (.removeFile (s.entry path))
  if s.stands (s.entry path) then modify fun s => s.unlink (s.entry path)
  else throw notFoundText

/-- Remove a file if it is there; a failure is printed and passed over. -/
def removeIfThere (dryRun : Bool) (path : List Char) : PublisherM Unit := do
  if ((← get).content path).isSome && !dryRun then ignore (removeFile e path) else pure ()

end Host

/-! ## cleanup -/

section Cleanup

variable (e : PublisherEnv) (dryRun : Bool)

/-- `walk_directory_for_orphans`. -/
def walkDirectoryForOrphans (dir : List Char) (knownPaths : List String) : PublisherM Unit := do
  let paths := (← get).walk dir
  forEach (fun path => if String.ofList path ∈ knownPaths then pure ()
    else removeIfThere e dryRun path) paths

/-- The paths that `find_orphaned_diffs` knows. -/
def knownDiffs (db : PublisherDb) : List String :=
  (db.listDiffJobsByStatus .completed).filterMap (·.diffPath)

/-- `find_orphaned_diffs`. -/
def findOrphanedDiffs : PublisherM Unit := do
  let known ← dbRead e .listJobs knownDiffs
  walkDirectoryForOrphans e dryRun diffsOutputDir known

/-- The paths that `find_orphaned_binaries` knows. -/
def knownBinaries (db : PublisherDb) : List String :=
  db.listBinaries.flatMap fun b => (db.listVersions b.binaryId).map (·.filePath)

/-- `find_orphaned_binaries`. -/
def findOrphanedBinaries : PublisherM Unit := do
  let known ← dbRead e .listBinaries knownBinaries
  walkDirectoryForOrphans e dryRun binariesDir known

/-- `cleanup_failed_jobs`. -/
def cleanupFailedJobs : PublisherM Unit := do
  let failed ← dbRead e .listJobs fun db => db.listDiffJobsByStatus .failed
  forEach (fun job => if dryRun then pure ()
    else ignore (dbUpdate e (.deleteJob job.jobId) fun db =>
      .ok (db.deleteDiffJob job.jobId))) failed

/-- `run_cleanup`; the age of a diff is not looked at. -/
def runCleanup : PublisherM Unit := do
  hostOp e .openDb
  findOrphanedDiffs e dryRun
  findOrphanedBinaries e dryRun
  cleanupFailedJobs e dryRun

end Cleanup

/-! ## prune -/

section Prune

variable (e : PublisherEnv) (deleteFiles dryRun : Bool)

/-- Remove the diffs from or to a version. -/
def removeDiffs (version : DbVersion) : PublisherM Unit := do
  let completed ← dbRead e (.jobsOf version.versionId) fun db => db.listDiffJobsByStatus .completed
  forEach (fun job =>
    match job.diffPath with
    | some path =>
      if job.touches version.versionId then removeIfThere e dryRun path.toList else pure ()
    | none => pure ()) completed

/-- Remove one version. -/
def pruneVersion (version : DbVersion) : PublisherM Unit := do
  if deleteFiles then do
    removeIfThere e dryRun version.filePath.toList
    removeDiffs e dryRun version
  if dryRun then pure ()
  else do
    ignore (dbUpdate e (.deleteJobs version.versionId) fun db =>
      .ok (db.deleteDiffJobsForVersion version.versionId))
    ignore (dbUpdate e (.deleteVersion version.versionId) fun db =>
      .ok (db.deleteVersion version.versionId))

/-- Remove all but the newest versions of a binary. -/
def pruneBinary (keep : Nat) (binary : DbBinary) : PublisherM Unit := do
  let versions ← dbRead e (.versionsOf binary.binaryId) fun db => db.listVersions binary.binaryId
  if versions.length ≤ keep then pure ()
  else forEach (pruneVersion e deleteFiles dryRun) (versions.drop keep)

/-- `run_prune`. -/
def runPrune (name : String) (keep : Nat) : PublisherM Unit := do
  if keep = 0 then throw "Cannot keep 0 versions. Use at least --keep 1."
  else do
    hostOp e .openDb
    let matching ← dbRead e .listBinaries fun db =>
      db.listBinaries.filter fun b => b.binaryName == name
    if matching.isEmpty then throw s!"No binary found with name '{name}'"
    else forEach (pruneBinary e deleteFiles dryRun keep) matching

end Prune

/-! ## the disk without some places -/

end Housekeeping

namespace Project

/-- The project without what stands at these places. -/
def unlinkAll (s : Project) (places : List Path) : Project := places.foldl unlink s

section Unlink

variable {s s' : Project} {p q : Path} {places : List Path}

/-- A place leads to the file at the end of its way. -/
theorem contentAt_eq_read (s : Project) (p : Path) :
    s.contentAt p = s.root.links.read s.files Links.maxLinks p := by
  unfold contentAt follow Links.read
  obtain ⟨r, hr⟩ := Option.isSome_iff_exists.mp (s.root.grounded.chase p)
  rw [hr]
  rfl

/-- The content of a place depends on the files only. -/
theorem contentAt_congr (hroot : s'.root = s.root) (hfiles : s'.files = s.files) (p : Path) :
    s'.contentAt p = s.contentAt p := by
  unfold contentAt follow
  rw [hroot, hfiles]

/-- What is there has a file or a link at its place. -/
theorem stands_of_contentAt (h : (s.contentAt p).isSome = true) : s.stands p = true := by
  unfold stands
  cases hlink : s.root.links.files.read p with
  | some text => simp
  | none =>
      unfold contentAt follow at h
      rw [Links.chase_of_none hlink] at h
      simpa using h

/-- After a removal, what leads over the place is gone and all else is as it was. -/
theorem contentAt_unlink :
    (s.unlink q).contentAt p = if q ∈ s.trailAt p then none else s.contentAt p := by
  rw [contentAt_eq_read, contentAt_eq_read]
  exact Links.read_remove

/-- A path that does not lead through a removed link leads where it led. -/
theorem trailAt_unlink (h : q ∉ s.trailAt p) : (s.unlink q).trailAt p = s.trailAt p :=
  (Links.chase_remove_of_not_mem h).2

theorem stands_unlink_of_ne (h : p ≠ q) : (s.unlink q).stands p = s.stands p := by
  show (((s.files.remove q).read p).isSome ||
    ((s.root.links.files.remove q).read p).isSome) = s.stands p
  rw [Files.read_remove_ne _ h, Files.read_remove_ne _ h]
  rfl

/-- What was removed does not stand any more. -/
theorem stands_unlink_self : (s.unlink q).stands q = false := by
  show (((s.files.remove q).read q).isSome ||
    ((s.root.links.files.remove q).read q).isSome) = false
  rw [Files.read_remove_self, Files.read_remove_self]
  rfl

/-! ### several places -/

/-- The entry of a path is the same, as its directories are not removed. -/
theorem entry_unlinkAll (places : List Path) (path : List Char) :
    (s.unlinkAll places).entry path = s.entry path := by
  induction places generalizing s with
  | nil => rfl
  | cons q places ih => exact ih

theorem unlinkAll_append (places places' : List Path) :
    s.unlinkAll (places ++ places') = (s.unlinkAll places).unlinkAll places' :=
  List.foldl_append

/-- What is gone stays gone. -/
theorem contentAt_unlinkAll_eq_none (h : s.contentAt p = none) :
    (s.unlinkAll places).contentAt p = none := by
  induction places generalizing s with
  | nil => exact h
  | cons q places ih =>
      refine ih ?_
      rw [contentAt_unlink]
      split
      · rfl
      · exact h

/-- What leads over none of the places is as it was. -/
theorem contentAt_unlinkAll (places : List Path) (h : ∀ q ∈ s.trailAt p, q ∉ places) :
    (s.unlinkAll places).contentAt p = s.contentAt p ∧
      (s.unlinkAll places).trailAt p = s.trailAt p := by
  induction places generalizing s with
  | nil => exact ⟨rfl, rfl⟩
  | cons q places ih =>
      have hq : q ∉ s.trailAt p := fun hmem => h q hmem List.mem_cons_self
      obtain ⟨hcontent, htrail⟩ := @ih (s.unlink q) fun r hr => by
        rw [trailAt_unlink hq] at hr
        exact fun hmem => h r hr (List.mem_cons_of_mem q hmem)
      rw [contentAt_unlink, if_neg hq] at hcontent
      exact ⟨hcontent, htrail.trans (trailAt_unlink hq)⟩

/-- What led over a place that leads nowhere now is gone. -/
theorem contentAt_unlinkAll_of_mem_trailAt (hmem : q ∈ s.trailAt p)
    (hnone : (s.unlinkAll places).contentAt q = none) :
    (s.unlinkAll places).contentAt p = none := by
  induction places generalizing s with
  | nil =>
      rw [unlinkAll, List.foldl_nil, contentAt_eq_read] at hnone ⊢
      exact Links.read_eq_none_of_mem_trail hmem le_rfl hnone
  | cons r places ih =>
      by_cases hr : r ∈ s.trailAt p
      · refine contentAt_unlinkAll_eq_none (s := s.unlink r) ?_
        rw [contentAt_unlink, if_pos hr]
      · refine ih (s := s.unlink r) ?_ hnone
        rwa [trailAt_unlink hr]

/-- An entry that is not among them is left standing. -/
theorem stands_unlinkAll (places : List Path) (h : p ∉ places) : (s.unlinkAll places).stands p = s.stands p := by
  induction places generalizing s with
  | nil => rfl
  | cons q places ih =>
      rw [List.mem_cons, not_or] at h
      exact (ih h.2).trans (stands_unlink_of_ne h.1)

theorem stands_of_unlinkAll (places : List Path) (h : (s.unlinkAll places).stands p = true) : s.stands p = true := by
  induction places generalizing s with
  | nil => exact h
  | cons q places ih =>
      have hstands := ih (s := s.unlink q) h
      by_cases hq : p = q
      · rw [hq, stands_unlink_self] at hstands
        contradiction
      · rwa [stands_unlink_of_ne hq] at hstands

end Unlink

end Project

/-! ## what is removed -/

namespace Housekeeping

/-- The disk without some of the doomed places; those that can be removed lead nowhere. -/
structure Unlinked (e : PublisherEnv) (doomed : Path → Prop) (s s' : Project) : Prop where
  places : ∃ places, s'.root = (s.unlinkAll places).root ∧ s'.files = (s.unlinkAll places).files ∧
    ∀ p ∈ places, doomed p ∧ e.faults (.removeFile p) = none
  gone : ∀ p, doomed p → e.faults (.removeFile p) = none → s'.contentAt p = none

/-- Of these places, those that can be removed are gone; nothing else changed. -/
structure Removed (e : PublisherEnv) (doomed : Path → Prop) (s s' : Project) : Prop extends
    Unlinked e doomed s s' where
  db : s'.db = s.db

section Removed

variable {e : PublisherEnv} {s s₁ s₂ : Project} {doomed doomed' : Path → Prop} {p q : Path}

theorem Unlinked.refl (hnone : ∀ p, ¬ doomed p) : Unlinked e doomed s s :=
  ⟨⟨[], rfl, rfl, fun _ hp => absurd hp List.not_mem_nil⟩, fun p hp => absurd hp (hnone p)⟩

/-- The entry of a path stays the same. -/
theorem Unlinked.entry (h : Unlinked e doomed s s₁) (path : List Char) :
    s₁.entry path = s.entry path := by
  obtain ⟨places, hroot, -⟩ := h.places
  exact (Project.entry_congr hroot path).trans (Project.entry_unlinkAll places path)

/-- What was gone is gone. -/
theorem Unlinked.contentAt_eq_none (h : Unlinked e doomed s s₁) (hnone : s.contentAt p = none) :
    s₁.contentAt p = none := by
  obtain ⟨places, hroot, hfiles, -⟩ := h.places
  rw [Project.contentAt_congr hroot hfiles]
  exact Project.contentAt_unlinkAll_eq_none hnone

/-- What leads over no place that can be removed is as it was. -/
theorem Unlinked.kept (h : Unlinked e doomed s s₁)
    (hkept : ∀ q ∈ s.trailAt p, doomed q → e.faults (.removeFile q) ≠ none) :
    s₁.contentAt p = s.contentAt p ∧ s₁.trailAt p = s.trailAt p := by
  obtain ⟨places, hroot, hfiles, hplaces⟩ := h.places
  obtain ⟨hcontent, htrail⟩ := Project.contentAt_unlinkAll (s := s) (p := p) places
    fun q hq hmem => hkept q hq (hplaces q hmem).1 (hplaces q hmem).2
  rw [Project.contentAt_congr hroot hfiles]
  refine ⟨hcontent, ?_⟩
  rw [← htrail, Project.trailAt, hroot]
  rfl

/-- What led over a place that can be removed is gone. -/
theorem Unlinked.lost (h : Unlinked e doomed s s₁) (hmem : q ∈ s.trailAt p) (hdoomed : doomed q)
    (hfault : e.faults (.removeFile q) = none) : s₁.contentAt p = none := by
  have hnone := h.gone q hdoomed hfault
  obtain ⟨places, hroot, hfiles, -⟩ := h.places
  rw [Project.contentAt_congr hroot hfiles] at hnone ⊢
  exact Project.contentAt_unlinkAll_of_mem_trailAt hmem hnone

/-- What stands there stood there before, -/
theorem Unlinked.stands (h : Unlinked e doomed s s₁) (hstands : s₁.stands p = true) :
    s.stands p = true := by
  obtain ⟨places, hroot, hfiles, -⟩ := h.places
  refine Project.stands_of_unlinkAll places ?_
  rwa [Project.stands, hroot, hfiles] at hstands

/-- and what cannot be removed still stands there. -/
theorem Unlinked.stands_iff (h : Unlinked e doomed s s₁)
    (hkept : doomed p → e.faults (.removeFile p) ≠ none) : s₁.stands p = s.stands p := by
  obtain ⟨places, hroot, hfiles, hplaces⟩ := h.places
  rw [← Project.stands_unlinkAll (s := s) places fun hmem =>
    hkept (hplaces p hmem).1 (hplaces p hmem).2]
  unfold Project.stands
  rw [hroot, hfiles]

/-- What is removed in two steps is removed. -/
theorem Unlinked.trans (h : Unlinked e doomed s s₁) (h' : Unlinked e doomed' s₁ s₂) :
    Unlinked e (fun p => doomed p ∨ doomed' p) s s₂ := by
  constructor
  · obtain ⟨places, hroot, hfiles, hplaces⟩ := h.places
    obtain ⟨places', hroot', hfiles', hplaces'⟩ := h'.places
    have hsame : ∀ (a b : Project) (l : List Path), a.root = b.root → a.files = b.files →
        (a.unlinkAll l).root = (b.unlinkAll l).root ∧
          (a.unlinkAll l).files = (b.unlinkAll l).files := by
      intro a b l
      induction l generalizing a b with
      | nil => exact fun hr hf => ⟨hr, hf⟩
      | cons q l ih =>
          exact fun hr hf => ih _ _ (by simp only [Project.unlink, hr]) (congrArg (·.remove q) hf)
    obtain ⟨hr, hf⟩ := hsame s₁ (s.unlinkAll places) places' hroot hfiles
    refine ⟨places ++ places', ?_, ?_, fun p hp => ?_⟩
    · rw [hroot', hr, Project.unlinkAll_append]
    · rw [hfiles', hf, Project.unlinkAll_append]
    · rcases List.mem_append.mp hp with hp | hp
      · exact ⟨.inl (hplaces p hp).1, (hplaces p hp).2⟩
      · exact ⟨.inr (hplaces' p hp).1, (hplaces' p hp).2⟩
  · intro p hp hfault
    rcases hp with hp | hp
    · exact h'.contentAt_eq_none (h.gone p hp hfault)
    · exact h'.gone p hp hfault

/-- It matters what was removed, not how that is said. -/
theorem Unlinked.congr (h : Unlinked e doomed s s₁) (hiff : ∀ p, doomed p ↔ doomed' p) :
    Unlinked e doomed' s s₁ := by
  obtain ⟨places, hroot, hfiles, hplaces⟩ := h.places
  exact ⟨⟨places, hroot, hfiles, fun p hp => ⟨(hiff p).mp (hplaces p hp).1, (hplaces p hp).2⟩⟩,
    fun p hp => h.gone p ((hiff p).mpr hp)⟩

/-- The database does not matter to the disk. -/
theorem Unlinked.of_same (h : Unlinked e doomed s s₁) (hroot : s₂.root = s₁.root)
    (hfiles : s₂.files = s₁.files) : Unlinked e doomed s s₂ := by
  obtain ⟨places, hroot', hfiles', hplaces⟩ := h.places
  refine ⟨⟨places, hroot.trans hroot', hfiles.trans hfiles', hplaces⟩, fun p hp hfault => ?_⟩
  rw [Project.contentAt_congr hroot hfiles]
  exact h.gone p hp hfault

/-- What can be removed is. -/
theorem wp_removeIfThere {E : String → Project → Prop} {path : List Char} :
    wp (removeIfThere e false path) (fun _ s' => Removed e (· = s.entry path) s s') E s := by
  unfold removeIfThere
  rw [wp_bind, wp_get]
  by_cases hthere : (s.content path).isSome = true
  · rw [if_pos (by simp [hthere])]
    rw [wp_ignore]
    refine wp_exec_snd (P := fun s' => Removed e (· = s.entry path) s s') ?_
    unfold removeFile hostOp
    simp only [wp_bind, wp_get]
    cases hfault : e.faults (.removeFile (s.entry path)) with
    | some fault =>
        refine ⟨⟨⟨[], rfl, rfl, fun _ hp => absurd hp List.not_mem_nil⟩, fun p hp hnone => ?_⟩, rfl⟩
        rw [hp, hfault] at hnone
        contradiction
    | none =>
        rw [wp_pure, if_pos (Project.stands_of_contentAt hthere), wp_modify]
        refine ⟨⟨⟨[s.entry path], rfl, rfl, fun p hp => ?_⟩, fun p hp _ => ?_⟩, rfl⟩
        · obtain rfl := List.mem_singleton.mp hp
          exact ⟨rfl, hfault⟩
        · rw [hp, Project.contentAt_unlink]
          exact if_pos Links.mem_trail_self
  · rw [if_neg (by simp [hthere]), wp_pure]
    refine ⟨⟨⟨[], rfl, rfl, fun _ hp => absurd hp List.not_mem_nil⟩, fun p hp _ => ?_⟩, rfl⟩
    rw [hp]
    exact Option.not_isSome_iff_eq_none.mp hthere

/-- A loop that removes some of the files it goes through. -/
theorem wp_forEach_removed {β : Type} {f : β → PublisherM Unit} {E : String → Project → Prop}
    {xs : List β} (file : β → Path → Prop)
    (hround : ∀ x ∈ xs, ∀ s', (∀ path, s'.entry path = s.entry path) → s'.db = s.db →
      wp (f x) (fun _ s'' => Removed e (file x) s' s'') E s') :
    wp (forEach f xs) (fun _ s' => Removed e (fun p => ∃ x ∈ xs, file x p) s s') E s := by
  refine wp_forEach (fun done s' => Removed e (fun p => ∃ x ∈ done, file x p) s s')
    ⟨.refl fun p hp => ?_, rfl⟩ fun done x rest s' hxs h => ?_
  · obtain ⟨x, hx, -⟩ := hp
    exact List.not_mem_nil hx
  · refine wp_mono (fun _ s'' h' => ⟨?_, h'.db.trans h.db⟩) (fun _ _ h => h)
      (hround x (hxs ▸ by simp) s' h.entry h.db)
    refine (h.toUnlinked.trans h'.toUnlinked).congr fun p => ?_
    simp only [List.mem_append, List.mem_singleton, or_and_right, exists_or, exists_eq_left]

end Removed

end Housekeeping

end Deltaship
