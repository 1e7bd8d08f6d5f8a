import Deltaship.Publisher.Prune

/-!
# Deltaship.Publisher.Orphans

What `cleanup` leaves of the files that the database refers to.

A file that a walk finds is an orphan if the text it is found under is not stored, letter
for letter.  The walks join the names of directories and files to `.deltaship/diffs` and
`.deltaship/binaries`; a row has whatever path it was given.  So a file of a row is safe if no walk comes across it, or
across a link on the way to it, under a text that is not stored: `cleanup_keeps_iff` says that
this is also necessary.
-/

namespace Deltaship

open Prog Lexical

namespace Housekeeping

/-! ## the files that are referred to -/

/-- The paths of the versions and of the completed diffs. -/
def referencedPaths (db : PublisherDb) : List (List Char) :=
  db.versions.rows.map (·.filePath.toList) ++ (knownDiffs db).map String.toList

/-- Each file that is referred to is there as before. -/
def KeepsReferenced (s s' : Project) : Prop :=
  ∀ path ∈ referencedPaths s.db, (s.content path).isSome = true →
    s'.content path = s.content path

/-- A walk that finds a file that is referred to, or a link on the way to it, finds it under a
known text. -/
def WalkKnows (s : Project) (dir : List Char) (known : List String) : Prop :=
  ∀ path ∈ referencedPaths s.db, (s.content path).isSome = true → ∀ found ∈ s.walk dir,
    s.entry found ∈ s.trailAt (s.entry path) → String.ofList found ∈ known

/-- The files that are referred to are known to both walks by their texts. -/
structure WellSpelled (s : Project) : Prop where
  diffs : WalkKnows s diffsOutputDir (knownDiffs s.db)
  binaries : WalkKnows s binariesDir (knownBinaries s.db)

/-! ## the walks -/

/-- The places that a walk takes for orphans. -/
def Orphan (s : Project) (dir : List Char) (known : List String) (p : Path) : Prop :=
  ∃ found ∈ s.walk dir, String.ofList found ∉ known ∧ p = s.entry found

/-- The ways to the files that are referred to are as before. -/
def KeepsWays (s s' : Project) : Prop :=
  ∀ path ∈ referencedPaths s.db, (s.content path).isSome = true →
    s'.contentAt (s.entry path) = s.contentAt (s.entry path) ∧
      s'.trailAt (s.entry path) = s.trailAt (s.entry path)

section Walks

variable {e : PublisherEnv} {s s₁ s₂ : Project} {dir : List Char} {known : List String}
  {doomed : Path → Prop} {E : String → Project → Prop}

/-- The walk removes the files of the directory that are not known. -/
theorem wp_walkDirectoryForOrphans :
    wp (walkDirectoryForOrphans e false dir known)
      (fun _ s' => Removed e (Orphan s dir known) s s') E s := by
  unfold walkDirectoryForOrphans
  rw [wp_bind, wp_get]
  refine wp_forEach_removed (fun found p => String.ofList found ∉ known ∧ p = s.entry found)
    fun found _ s' hentry _ => ?_
  by_cases hknown : String.ofList found ∈ known
  · rw [if_pos hknown]
    exact ⟨.refl fun p hp => hp.1 hknown, rfl⟩
  · rw [if_neg hknown]
    refine wp_mono (fun _ s'' h => ⟨h.toUnlinked.congr fun p => ?_, h.db⟩) (fun _ _ h => h)
      wp_removeIfThere
    simp [hknown, hentry]

/-- What a walk goes through is what stands below the directory. -/
theorem mem_walk {found : List Char} : found ∈ s.walk dir ↔
    ∃ p, s.stands p = true ∧ (s.entry dir).Contains p ∧ s.walkText dir p = found := by
  simp only [Project.walk, Project.stands, List.mem_map, List.mem_filter, List.mem_append,
    Files.mem_paths, Bool.or_eq_true, decide_eq_true_eq, and_assoc]

/-- A walk after a removal finds no more than before, -/
theorem Unlinked.mem_walk (h : Unlinked e doomed s s₁) {found : List Char}
    (hfound : found ∈ s₁.walk dir) : found ∈ s.walk dir := by
  obtain ⟨p, hstands, hbelow, htext⟩ := Housekeeping.mem_walk.mp hfound
  rw [h.entry] at hbelow
  refine Housekeeping.mem_walk.mpr ⟨p, h.stands hstands, hbelow, ?_⟩
  rw [← htext, Project.walkText, Project.walkText, h.entry]

/-- and all of it if nothing could be removed. -/
theorem Unlinked.mem_walk_of (h : Unlinked e doomed s s₁)
    (hkept : ∀ p, doomed p → e.faults (.removeFile p) ≠ none) {found : List Char}
    (hfound : found ∈ s.walk dir) : found ∈ s₁.walk dir := by
  obtain ⟨p, hstands, hbelow, htext⟩ := Housekeeping.mem_walk.mp hfound
  rw [← h.stands_iff (hkept p)] at hstands
  rw [← h.entry] at hbelow
  refine Housekeeping.mem_walk.mpr ⟨p, hstands, hbelow, ?_⟩
  rw [← htext, Project.walkText, Project.walkText, h.entry]

/-- A walk that knows what is referred to removes nothing on the way to it. -/
theorem KeepsWays.walk (h : KeepsWays s s₁) (hentry : ∀ path, s₁.entry path = s.entry path)
    (hwalk : ∀ found ∈ s₁.walk dir, found ∈ s.walk dir) (hknows : WalkKnows s dir known)
    (hremoved : Unlinked e (Orphan s₁ dir known) s₁ s₂) : KeepsWays s s₂ := by
  intro path hpath hthere
  obtain ⟨hcontent, htrail⟩ := h path hpath hthere
  obtain ⟨hcontent', htrail'⟩ := hremoved.kept (p := s.entry path) fun q hq horphan => by
    obtain ⟨found, hfound, hunknown, rfl⟩ := horphan
    rw [htrail, hentry] at hq
    exact absurd (hknows path hpath hthere found (hwalk found hfound) hq) hunknown
  exact ⟨hcontent'.trans hcontent, htrail'.trans htrail⟩

end Walks

/-! ## a whole cleanup -/

/- A cleanup removes orphaned diffs, orphaned binaries and failed jobs, in this order. What a row
refers to is found over the links on the way to it, and it is kept if nothing on this way counts as
an orphan. -/

section Cleanup

variable {e : PublisherEnv} {s s₁ s' : Project}

/-- The removal of the failed jobs touches no file. -/
theorem wp_cleanupFailedJobs {P : Project → Prop}
    (hP : ∀ s s' : Project, s'.root = s.root → s'.files = s.files → P s → P s') (hs : P s) :
    wp (cleanupFailedJobs e false) (fun _ s' => P s') (fun _ s' => P s') s := by
  unfold cleanupFailedJobs
  rw [wp_bind]
  refine wp_dbRead ?_ fun _ => hs
  refine wp_forEach (fun _ s' => P s') hs fun _ job _ s' _ h => ?_
  rw [if_neg (by simp)]
  exact wp_ignore_of (wp_dbUpdate (fun db _ => hP s' _ rfl rfl h) fun _ => h)

/-- The entries of all paths and the ways to what is referred to are as before. -/
structure Safe (s s' : Project) : Prop where
  entry : ∀ path, s'.entry path = s.entry path
  ways : KeepsWays s s'

theorem Safe.refl (s : Project) : Safe s s := ⟨fun _ => rfl, fun _ _ _ => ⟨rfl, rfl⟩⟩

/-- What is safe keeps every file that a row refers to. -/
theorem Safe.keepsReferenced (h : Safe s s') : KeepsReferenced s s' := by
  intro path hpath hthere
  calc s'.content path = s'.contentAt (s.entry path) := by rw [← h.entry path]; rfl
    _ = s.content path := (h.ways path hpath hthere).1

/-- It is a matter of the files only. -/
theorem Safe.congr {s₂ : Project} (h : Safe s s₁) (hroot : s₂.root = s₁.root)
    (hfiles : s₂.files = s₁.files) : Safe s s₂ := by
  refine ⟨fun path => (Project.entry_congr hroot path).trans (h.entry path),
    fun path hpath hthere => ?_⟩
  rw [Project.contentAt_congr hroot hfiles, Project.trailAt, hroot]
  exact h.ways path hpath hthere

/-- A cleanup of a well-spelled project keeps what is referred to, also if it fails. -/
theorem keepsReferenced_runCleanup (h : WellSpelled s) (e : PublisherEnv) :
    KeepsReferenced s (exec (runCleanup e false) s).2 := by
  refine Safe.keepsReferenced (wp_exec_snd (P := fun s' => Safe s s') ?_)
  unfold runCleanup findOrphanedDiffs findOrphanedBinaries
  simp only [wp_bind]
  refine wp_hostOp (wp_dbRead ?_ fun _ => .refl s) fun _ => .refl s
  refine wp_mono (fun _ s₁ hremoved => ?_) (fun _ _ h => h) wp_walkDirectoryForOrphans
  have hfirst : Safe s s₁ := ⟨hremoved.entry,
    (Safe.refl s).ways.walk (fun _ => rfl) (fun _ h => h) h.diffs hremoved.toUnlinked⟩
  refine wp_dbRead ?_ fun _ => hfirst
  refine wp_mono (fun _ s₂ hremoved' => ?_) (fun _ _ h => h) wp_walkDirectoryForOrphans
  rw [hremoved.db] at hremoved'
  have hsecond : Safe s s₂ := ⟨fun path => (hremoved'.entry path).trans (hfirst.entry path),
    hfirst.ways.walk hfirst.entry (fun _ => hremoved.toUnlinked.mem_walk) h.binaries
      hremoved'.toUnlinked⟩
  exact wp_cleanupFailedJobs (fun a b hroot hfiles hsafe => hsafe.congr hroot hfiles) hsecond

/-- What a cleanup has removed, if the database is up. -/
structure CleanedUp (e : PublisherEnv) (s s₁ s' : Project) : Prop where
  diffs : Removed e (Orphan s diffsOutputDir (knownDiffs s.db)) s s₁
  binaries : Unlinked e (Orphan s₁ binariesDir (knownBinaries s.db)) s₁ s'

/-- A cleanup that can read the database cleans up. -/
theorem cleanedUp_runCleanup (hup : DatabaseUp e) (s : Project) :
    ∃ s₁, CleanedUp e s s₁ (exec (runCleanup e false) s).2 := by
  refine wp_exec_snd (P := fun s' => ∃ s₁, CleanedUp e s s₁ s') ?_
  unfold runCleanup findOrphanedDiffs findOrphanedBinaries hostOp
  rw [hup .openDb fun _ => by simp]
  simp only [wp_bind, wp_pure]
  refine wp_dbRead_of (hup _ fun _ => by simp) ?_
  refine wp_mono (fun _ s₁ hremoved => ?_) (fun _ _ h => h) wp_walkDirectoryForOrphans
  refine wp_dbRead_of (hup _ fun _ => by simp) ?_
  refine wp_mono (fun _ s₂ hremoved' => ?_) (fun _ _ h => h) wp_walkDirectoryForOrphans
  rw [hremoved.db] at hremoved'
  exact wp_cleanupFailedJobs
    (fun a b hroot hfiles h => h.imp fun s₁ h => ⟨h.diffs, h.binaries.of_same hroot hfiles⟩)
    ⟨s₁, hremoved, hremoved'.toUnlinked⟩

/-- Of all places, only this one can be removed; nothing else fails. -/
def removesOnly (target : Path) : PublisherEnv where
  faults site := match site with
    | .removeFile p => if p = target then none else some ⟨"Permission denied (os error 13)", 0⟩
    | _ => none
  uuid _ := ""
  now := 0
  clock := 0
  timestamp := ""

/-- On the sample host the database can be read. -/
theorem databaseUp_removesOnly (target : Path) : DatabaseUp (removesOnly target) := by
  intro site hsite
  cases site <;> first | rfl | exact absurd rfl (hsite _)

/-- No place on the way to a file that every cleanup keeps is an orphan for one of the walks. -/
theorem not_orphan_of_kept {path : List Char} {q : Path} (hway : q ∈ s.trailAt (s.entry path))
    (hthere : (s.content path).isSome = true)
    (hkept : ∀ e, (exec (runCleanup e false) s).2.content path = s.content path) :
    ¬ Orphan s diffsOutputDir (knownDiffs s.db) q ∧
      ¬ Orphan s binariesDir (knownBinaries s.db) q := by
  -- where nothing else can be removed
  obtain ⟨s₁, hcleaned⟩ := cleanedUp_runCleanup (databaseUp_removesOnly q) s
  have hfault : (removesOnly q).faults (.removeFile q) = none := by simp [removesOnly]
  have hend := hkept (removesOnly q)
  generalize (exec (runCleanup (removesOnly q) false) s).2 = s' at hcleaned hend
  have hlost : s₁.contentAt (s.entry path) = none ∨ s'.contentAt (s.entry path) = none → False := by
    intro hgone
    have hgone : s'.contentAt (s.entry path) = none :=
      hgone.elim hcleaned.binaries.contentAt_eq_none id
    rw [← hcleaned.diffs.entry, ← hcleaned.binaries.entry] at hgone
    rw [← hend] at hthere
    exact absurd hgone (Option.isSome_iff_ne_none.mp hthere)
  have hdiffs : ¬ Orphan s diffsOutputDir (knownDiffs s.db) q := fun horphan =>
    hlost (.inl (hcleaned.diffs.lost hway horphan hfault))
  refine ⟨hdiffs, fun horphan => hlost (.inr ?_)⟩
  have hkept : ∀ p, Orphan s diffsOutputDir (knownDiffs s.db) p →
      (removesOnly q).faults (.removeFile p) ≠ none := by
    intro p hp
    have hne : p ≠ q := fun heq => hdiffs (heq ▸ hp)
    simp [removesOnly, hne]
  obtain ⟨found, hfound, hunknown, heq⟩ := horphan
  refine hcleaned.binaries.lost (q := q) ?_ ⟨found, ?_, hunknown, ?_⟩ hfault
  · rwa [(hcleaned.diffs.kept fun p _ => hkept p).2]
  · exact hcleaned.diffs.mem_walk_of hkept hfound
  · rw [heq, hcleaned.diffs.entry]

/-- In every project, the files that are referred to survive every cleanup if and only if the
project is well spelled. -/
theorem cleanup_keeps_iff (s : Project) :
    (∀ e, KeepsReferenced s (exec (runCleanup e false) s).2) ↔ WellSpelled s := by
  refine ⟨fun h => ?_, fun h e => keepsReferenced_runCleanup h e⟩
  have hneither := fun path hpath hthere q hway =>
    not_orphan_of_kept (q := q) hway hthere fun e => h e path hpath hthere
  refine ⟨fun path hpath hthere found hfound hway => ?_,
    fun path hpath hthere found hfound hway => ?_⟩
  · by_contra hunknown
    exact (hneither path hpath hthere _ hway).1 ⟨found, hfound, hunknown, rfl⟩
  · by_contra hunknown
    exact (hneither path hpath hthere _ hway).2 ⟨found, hfound, hunknown, rfl⟩

end Cleanup

/-! ### another spelling -/

/-- A file is put among the imported binaries, and a version is registered from it. -/
def sampleSpelling (file : String) : List PublisherCommand :=
  [.edit ".deltaship/binaries/app".toList (some [1]), sampleRelease "1.0.0" file 0]

/-- The project after that. -/
def sampleSpelled (root : Root) (file : String) : Project :=
  Runs.final (PublisherCommand.next samplePublisherCrates sampleSigningKey)
    ⟨root, PublisherDb.empty, Files.empty⟩ (sampleSpelling file)

/-- Whether a project has a version whose file is lost by a cleanup. -/
def losesVersion (s : Project) : Bool :=
  s.db.versions.rows.any fun v => (s.content v.filePath.toList).isSome &&
    ((exec (runCleanup samplePublisherEnv false) s).2.content v.filePath.toList).isNone

/-- A version that was registered under another spelling of its path loses its file. -/
theorem cleanup_deletes_registered :
    ¬ ∀ (X : PublisherCrates) (K : SigningKey X.crypto) (root : Root) (files : Files Path Bytes)
      (run : List PublisherCommand) (s : Project),
      s = Runs.final (PublisherCommand.next X K) ⟨root, PublisherDb.empty, files⟩ run → ∀ e,
        KeepsReferenced s (exec (runCleanup e false) s).2 := by
  intro h
  have hany : losesVersion (sampleSpelled (.plain "/p".toList) "./.deltaship/binaries/app") = true := by
    decide
  obtain ⟨v, hv, hboth⟩ := List.any_eq_true.mp hany
  obtain ⟨hbefore, hafter⟩ := (Bool.and_eq_true _ _).mp hboth
  have hkept := h samplePublisherCrates sampleSigningKey _ _ _ _ rfl samplePublisherEnv
    v.filePath.toList (List.mem_append_left _ (List.mem_map_of_mem hv)) hbefore
  rw [← sampleSpelled, Option.isNone_iff_eq_none.mp hafter] at hkept
  rw [← hkept] at hbefore
  contradiction

/-- A disk with a link `builds` to the imported binaries. -/
def sampleLinked : Root where
  dir := "/p".toList
  links := ⟨Files.ofList [(normalize "/p/builds".toList, ".deltaship/binaries".toList)], Files.empty⟩
  grounded _ hp := absurd hp List.not_mem_nil

-- the same over a link
example : losesVersion (sampleSpelled sampleLinked "builds/app") = true := by decide +kernel

end Housekeeping

end Deltaship
