import Deltaship.Lib.Runs
import Deltaship.Publisher.Delta
import Deltaship.Publisher.Effects

/-!
# Deltaship.Publisher.DiffStore

The publisher's diffs over whole runs: every completed diff is in the file of its
row, as long as no command writes a diff to the file of a completed one.

The file of a diff is named after the binary and the two versions, but the rows are
made for each platform of a binary.  Two platforms with the same versions share a
file.
-/

namespace Deltaship

open Prog Lexical

/-- The file of a completed diff. -/
def CompletedFile (s : Project) (p : Path) : Prop :=
  ∃ job ∈ s.db.diffJobs, job.status = .completed ∧
    ∃ path, job.diffPath = some path ∧ s.resolve path.toList = p

/-- Every completed diff has a file with its hash. -/
def DiffStore (X : PublisherCrates) (s : Project) : Prop :=
  ∀ job ∈ s.db.diffJobs, job.status = .completed → ∃ path diff, job.diffPath = some path ∧
    s.content path.toList = some diff ∧ job.diffHashBlake3 = some (X.crypto.blake3 diff).val

namespace PublisherCommand

/-- The files that a command writes diffs to, or that an edit changes. -/
def targets (X : PublisherCrates) (s : Project) : PublisherCommand → List Path
  | register e name version _ platform noDiff =>
      match noDiff, normalizeVersionString X.semver version with
      | false, .ok v =>
        (previousVersions s.db (s.db.binaryIdFor e name platform) (e.uuid .version)).map fun old =>
          s.resolve (join (binaryDiffDir name) s!"{old.versionString}-to-{v}.patch".toList)
      | _, _ => []
  | diff _ name platform fromString toString output =>
      match s.db.getBinaryByName name platform with
      | none => []
      | some b =>
        match s.db.getVersionByString b.binaryId fromString,
            s.db.getVersionByString b.binaryId toString with
        | some fromVersion, some toVersion =>
            [s.resolve (diffFilePath ((output.map String.toList).getD (binaryDiffDir name))
              fromVersion toVersion)]
        | _, _ => []
  | edit path _ => [s.resolve path]
  | _ => []

/-- The files that a command writes to are distinct, and none is the file of a
completed diff. -/
def FreshTargets (X : PublisherCrates) (s : Project) (c : PublisherCommand) : Prop :=
  (c.targets X s).Nodup ∧ ∀ p ∈ c.targets X s, ¬ CompletedFile s p

end PublisherCommand

/-! ## one diff -/

section Store

variable {X : PublisherCrates} {s s' : Project}

/-- It is a matter of the jobs and the directory only. -/
theorem CompletedFile.congr {p : Path} (h : CompletedFile s p) (hroot : s'.root = s.root)
    (hjobs : s'.db.diffJobs = s.db.diffJobs) : CompletedFile s' p := by
  unfold CompletedFile at *
  simpa only [Project.resolve_congr hroot, hjobs] using h

/-- Nothing that the completed diffs depend on has changed. -/
theorem DiffStore.congr (h : DiffStore X s) (hroot : s'.root = s.root) (hfiles : s'.files = s.files)
    (hjobs : s'.db.diffJobs = s.db.diffJobs) : DiffStore X s' := by
  intro job hjob hcompleted
  rw [hjobs] at hjob
  obtain ⟨path, diff, hpath, hcontent, hhash⟩ := h job hjob hcompleted
  refine ⟨path, diff, hpath, ?_, hhash⟩
  rw [← hcontent]
  unfold Project.content
  rw [Project.resolve_congr hroot, hfiles]

/-- A completed diff is still in its file if no other file than `target` changed. -/
theorem DiffStore.of_agreeOff (h : DiffStore X s) {target : Path} (hfree : ¬ CompletedFile s target)
    (hroot : s'.root = s.root) (hfiles : Files.AgreeOff (· = target) s.files s'.files)
    {job : DbDiffJob} (hjob : job ∈ s.db.diffJobs) (hcompleted : job.status = .completed) :
    ∃ path diff, job.diffPath = some path ∧ s'.content path.toList = some diff ∧
      job.diffHashBlake3 = some (X.crypto.blake3 diff).val := by
  obtain ⟨path, diff, hpath, hcontent, hhash⟩ := h job hjob hcompleted
  refine ⟨path, diff, hpath, ?_, hhash⟩
  have hother : s.resolve path.toList ≠ target := fun heq =>
    hfree ⟨job, hjob, hcompleted, path, hpath, heq⟩
  rw [← hcontent]
  unfold Project.content
  rw [Project.resolve_congr hroot]
  exact hfiles _ hother

/-- The files of the completed diffs after a job was added. -/
theorem completedFile_of_jobAdded {job : DbDiffJob} (h : JobAdded s s' job) {p : Path}
    (hp : CompletedFile s' p) : CompletedFile s p ∨ job.status = .completed ∧
      ∃ path, job.diffPath = some path ∧ s.resolve path.toList = p := by
  obtain ⟨j, hj, hcompleted, path, hpath, hresolve⟩ := hp
  have hresolve : s.resolve path.toList = p := by
    rw [← hresolve, Project.resolve_congr h.root]
  rcases (h.jobs j).mp hj with hold | rfl
  · exact .inl ⟨j, hold, hcompleted, path, hpath, hresolve⟩
  · exact .inr ⟨hcompleted, path, hpath, hresolve⟩

/-- The generation of a diff to a file that is not the file of a completed diff. -/
theorem DiffStore.generate (h : DiffStore X s) {e : PublisherEnv} {k : Nat}
    {fromVersion toVersion : DbVersion} {outputDir : List Char}
    (hfree : ¬ CompletedFile s (s.resolve (diffFilePath outputDir fromVersion toVersion)))
    (hrun : (exec (generateSingleDiff X e k fromVersion toVersion outputDir) s).2 = s') :
    DiffStore X s' ∧ s'.root = s.root ∧ ∀ p, CompletedFile s' p →
      CompletedFile s p ∨ p = s.resolve (diffFilePath outputDir fromVersion toVersion) := by
  have heffect := generateSingleDiff_effect X e k s fromVersion toVersion outputDir
  dsimp only at heffect
  rw [hrun] at heffect
  rcases heffect with rfl | ⟨⟨job, hadded, -, -, -, hstatus⟩, hfiles⟩ | ⟨hmade⟩
  · exact ⟨h, rfl, fun p hp => .inl hp⟩
  · refine ⟨fun j hj hcompleted => ?_, hadded.root, fun p hp => .inl ?_⟩
    · rcases (hadded.jobs j).mp hj with hold | rfl
      · exact h.of_agreeOff hfree hadded.root hfiles hold hcompleted
      · contradiction
    · rcases completedFile_of_jobAdded hadded hp with hold | ⟨hcompleted, -⟩
      · exact hold
      · contradiction
  · obtain ⟨old, new, raw, compressed, job, -, hadded, -, -, -, -, hpath, -, hhash, hfiles⟩ := hmade
    refine ⟨fun j hj hcompleted => ?_, hadded.root, fun p hp => ?_⟩
    · rcases (hadded.jobs j).mp hj with hold | rfl
      · refine h.of_agreeOff hfree hadded.root ?_ hold hcompleted
        rw [hfiles]
        exact .write rfl
      · refine ⟨_, compressed, hpath, ?_, hhash⟩
        unfold Project.content
        rw [String.toList_ofList, Project.resolve_congr hadded.root, hfiles]
        exact Files.read_write_self _ _ _
    · rcases completedFile_of_jobAdded hadded hp with hold | ⟨-, path, hpath', hresolve⟩
      · exact .inl hold
      · obtain rfl := Option.some.inj (hpath.symm.trans hpath')
        rw [String.toList_ofList] at hresolve
        exact .inr hresolve.symm

/-- The generation of diffs to distinct files, none of which is the file of a
completed diff. -/
theorem DiffStore.generateAll (h : DiffStore X s) {e : PublisherEnv} {k : Nat}
    {newVersion : DbVersion} {outputDir : List Char} {olds : List DbVersion}
    (hnodup : (olds.map fun old => s.resolve (diffFilePath outputDir old newVersion)).Nodup)
    (hfree : ∀ old ∈ olds, ¬ CompletedFile s (s.resolve (diffFilePath outputDir old newVersion))) :
    DiffStore X (exec (Deltaship.generateAll X e newVersion outputDir olds k) s).2 := by
  induction olds generalizing s k with
  | nil => exact h
  | cons old rest ih =>
      rw [snd_exec_generateAll_cons]
      obtain ⟨hstore, hroot, hfiles⟩ := h.generate (hfree old List.mem_cons_self) rfl
      rw [List.map_cons, List.nodup_cons] at hnodup
      refine ih hstore ?_ fun old' hold' hcompleted => ?_
      · simp only [Project.resolve_congr hroot]
        exact hnodup.2
      · rcases hfiles _ hcompleted with hbefore | hsame
        · refine hfree old' (List.mem_cons_of_mem _ hold') ?_
          rwa [Project.resolve_congr hroot] at hbefore
        · refine hnodup.1 (List.mem_map.mpr ⟨old', hold', ?_⟩)
          rw [← hsame, Project.resolve_congr hroot]

end Store

/-! ## whole runs -/

section Runs

variable {X : PublisherCrates} {K : SigningKey X.crypto} {s : Project}

/-- A registration to fresh paths leaves every diff where it is. -/
theorem DiffStore.register (h : DiffStore X s) {e : PublisherEnv}
    {name version file platform : String} {noDiff : Bool}
    (hfresh : (PublisherCommand.register e name version file platform noDiff).FreshTargets X s) :
    DiffStore X (exec (Register.run X e name version file platform noDiff) s).2 := by
  rcases register_effect X e s name version file platform noDiff with hbinary | ⟨s₁, row, hrow, hend⟩
  · exact h.congr hbinary.root hbinary.files hbinary.diffJobs
  · have hstart := h.congr hrow.root hrow.files hrow.diffJobs
    rcases hend with hend | ⟨rfl, hend⟩
    · rwa [hend]
    · have htargets : (PublisherCommand.register e name version file platform false).targets X s =
          (previousVersions s.db (s.db.binaryIdFor e name platform) (e.uuid .version)).map fun old =>
            s₁.resolve (diffFilePath (binaryDiffDir name) old row) := by
        unfold PublisherCommand.targets
        simp only [hrow.normalized, Project.resolve_congr hrow.root]
        rfl
      rw [PublisherCommand.FreshTargets, htargets] at hfresh
      rw [hend]
      refine hstart.generateAll hfresh.1 fun old hold hcompleted => ?_
      refine hfresh.2 _ (List.mem_map.mpr ⟨old, hold, rfl⟩) ?_
      exact hcompleted.congr hrow.root.symm hrow.diffJobs.symm

theorem DiffStore.diff (h : DiffStore X s) {e : PublisherEnv}
    {name platform fromString toString : String} {output : Option String}
    (hfresh : (PublisherCommand.diff e name platform fromString toString output).FreshTargets X s) :
    DiffStore X (exec (Diff.run X e name platform fromString toString output) s).2 := by
  rcases diff_effect X e s name platform fromString toString output with
    hsame | ⟨binary, fromVersion, toVersion, hbinary, hfrom, hto, hrun⟩
  · rwa [hsame]
  · have htargets : (PublisherCommand.diff e name platform fromString toString output).targets X s =
        [s.resolve (diffFilePath ((output.map String.toList).getD (binaryDiffDir name))
          fromVersion toVersion)] := by
      unfold PublisherCommand.targets
      simp only [hbinary, hfrom, hto]
    rw [PublisherCommand.FreshTargets, htargets] at hfresh
    rw [hrun]
    exact (h.generate (hfresh.2 _ (List.mem_singleton_self _)) rfl).1

/-- One command keeps the completed diffs in their files. -/
theorem DiffStore.next (h : DiffStore X s) {c : PublisherCommand} (hfresh : c.FreshTargets X s) :
    DiffStore X (c.next X K s) := by
  cases c with
  | register e name version file platform noDiff => exact h.register hfresh
  | diff e name platform fromString toString output => exact h.diff hfresh
  | sign e versionId name version =>
      rcases sign_effect X K e s versionId name version with hsame | ⟨v, -, timestamp, db, hdb, hsigned⟩
      · show DiffStore X (exec (Sign.run X K e versionId name version) s).2
        rwa [hsame]
      · show DiffStore X (exec (Sign.run X K e versionId name version) s).2
        rw [hsigned]
        exact h.congr rfl rfl (updateVersion_eq_ok hdb).2.1
  | verify e publicKey name version fix json answer =>
      have heffect := verify_effect X e s publicKey name version fix json answer
      rw [← snd_exec_bind_pure _ fun _ => ()] at heffect
      exact h.congr heffect.root heffect.files heffect.diffJobs
  | edit path content =>
      have hfree : ¬ CompletedFile s (s.resolve path) := hfresh.2 _ (List.mem_singleton_self _)
      cases content with
      | none =>
          show DiffStore X { s with files := s.files.remove (s.resolve path) }
          intro job hjob hcompleted
          exact @DiffStore.of_agreeOff X s { s with files := s.files.remove (s.resolve path) } h _
            hfree rfl (.remove rfl) job hjob hcompleted
      | some b =>
          show DiffStore X { s with files := s.files.write (s.resolve path) b }
          intro job hjob hcompleted
          exact @DiffStore.of_agreeOff X s { s with files := s.files.write (s.resolve path) b } h _
            hfree rfl (.write rfl) job hjob hcompleted

/-- In every run whose commands write their diffs to files that are not those of
completed diffs, every completed diff has a file with its hash. -/
theorem completed_diffs_stored (X : PublisherCrates) (K : SigningKey X.crypto) (root : Root)
    (files : Files Path Bytes) (s : Project)
    (hrun : Runs.Reaches (PublisherCommand.next X K) (fun s c => c.FreshTargets X s)
      ⟨root, PublisherDb.empty, files⟩ s) : DiffStore X s := by
  refine hrun.invariant (fun job hjob => ?_) fun s c h hfresh => h.next hfresh
  exact absurd hjob Table.not_mem_empty

end Runs

/-! ## two platforms -/

/-- The sample publisher's signing key. -/
def sampleSigningKey : SigningKey samplePublisherCrates.crypto := ⟨⟨sampleKey, rfl⟩, sampleSign⟩

/-- The registration of a version of the sample binary from a file. -/
def sampleRegistration (version file platform : String) : PublisherCommand :=
  .register
    { samplePublisherEnv with
      uuid := fun
        | .binary => platform
        | .version => file
        | .job _ => file
        | .mergedBinary id | .mergedVersion id => id }
    "app" version file platform false

/-- The binaries of two platforms. -/
def samplePlatformFiles : Files Path Bytes :=
  Files.ofList [(normalize "/p/v1".toList, []), (normalize "/p/v2".toList, List.replicate 24 7),
    (normalize "/p/w1".toList, []), (normalize "/p/w2".toList, List.replicate 32 7)]

/-- The project before any registration. -/
def samplePlatforms : Project := ⟨.plain "/p".toList, PublisherDb.empty, samplePlatformFiles⟩

/-- The project with the first platform's first version. -/
def sampleFirstPlatform : Project :=
  (sampleRegistration "1.0.0" "v1" "linux-x86_64").next samplePublisherCrates sampleSigningKey
    samplePlatforms

/-- With one platform, the diff is in its file. -/
theorem completed_diffs_stored_sample :
    DiffStore samplePublisherCrates
      ((sampleRegistration "1.1.0" "v2" "linux-x86_64").next samplePublisherCrates sampleSigningKey
        sampleFirstPlatform) := by
  have hfirst : (sampleRegistration "1.0.0" "v1" "linux-x86_64").FreshTargets samplePublisherCrates
      samplePlatforms := by
    have htargets : (sampleRegistration "1.0.0" "v1" "linux-x86_64").targets samplePublisherCrates
        samplePlatforms = [] := by decide +kernel
    simp [PublisherCommand.FreshTargets, htargets]
  have hsecond : (sampleRegistration "1.1.0" "v2" "linux-x86_64").FreshTargets samplePublisherCrates
      sampleFirstPlatform := by
    have hjobs : sampleFirstPlatform.db.diffJobs = Table.empty := by decide +kernel
    refine ⟨by decide +kernel, fun p _ hp => ?_⟩
    obtain ⟨job, hjob, -⟩ := hp
    rw [hjobs] at hjob
    exact Table.not_mem_empty hjob
  exact completed_diffs_stored samplePublisherCrates sampleSigningKey (.plain "/p".toList)
    samplePlatformFiles _ (((Runs.Reaches.refl _).tail hfirst).tail hsecond)

/-- The versions of one platform are registered, then those of the other. -/
def samplePlatformRun : List PublisherCommand :=
  [sampleRegistration "1.0.0" "v1" "linux-x86_64", sampleRegistration "1.1.0" "v2" "linux-x86_64",
   sampleRegistration "1.0.0" "w1" "windows-x86_64",
   sampleRegistration "1.1.0" "w2" "windows-x86_64"]

/-- After the run, the file of the first diff holds the second one. -/
theorem samplePlatformRun_overwrites :
    let s := Runs.final (PublisherCommand.next samplePublisherCrates sampleSigningKey)
      samplePlatforms samplePlatformRun
    s.db.getDiffJob "v2" = some { sampleJob with jobId := "v2" } ∧
      s.content ".deltaship/diffs/app/1.0.0-to-1.1.0.patch".toList = some sampleDiff32 := by
  decide +kernel

/-- The property fails in a run of registrations. -/
theorem two_platforms_share_a_diff_file :
    ¬ ∀ (X : PublisherCrates) (K : SigningKey X.crypto) (root : Root)
      (files : Files Path Bytes) (run : List PublisherCommand),
      (∀ c ∈ run, ∃ e name version file platform,
        c = .register e name version file platform false) →
      DiffStore X
        (Runs.final (PublisherCommand.next X K) ⟨root, PublisherDb.empty, files⟩ run) := by
  intro h
  have hstore := h samplePublisherCrates sampleSigningKey (.plain "/p".toList) samplePlatformFiles
    samplePlatformRun (by simp [samplePlatformRun, sampleRegistration])
  obtain ⟨hjob, hcontent⟩ := samplePlatformRun_overwrites
  obtain ⟨path, diff, hpath, hdiff, hhash⟩ := hstore _ (Table.mem_of_find hjob).1 rfl
  obtain rfl : ".deltaship/diffs/app/1.0.0-to-1.1.0.patch" = path := Option.some.inj hpath
  obtain rfl : sampleDiff32 = diff := Option.some.inj (hcontent.symm.trans hdiff)
  exact absurd hhash (by decide +kernel)

end Deltaship
