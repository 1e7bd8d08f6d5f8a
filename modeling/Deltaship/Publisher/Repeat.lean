import Deltaship.Publisher.JobStates

/-!
# Deltaship.Publisher.Repeat

The generation of a diff that was attempted before.

A generation inserts its job with `insert_diff_job`, which has no second job for a pair of
versions, and leaves it behind however it ends.  So a pair of versions has one attempt
(`insert_or_get_diff_job`, which would return the job that is there, is not called).
-/

namespace Deltaship

open Prog Lexical

/-! ## the jobs of a pair -/

/-- A job of the diff between two versions. -/
def DbDiffJob.IsFor (job : DbDiffJob) (fromVersion toVersion : DbVersion) : Prop :=
  job.fromVersionId = fromVersion.versionId ∧ job.toVersionId = toVersion.versionId ∧
    job.diffAlgorithm = defaultAlgorithm

/-- The job of the diff between two versions, as it is inserted. -/
def pendingJob (id : String) (fromVersion toVersion : DbVersion) : DbDiffJob where
  jobId := id
  fromVersionId := fromVersion.versionId
  toVersionId := toVersion.versionId
  diffAlgorithm := defaultAlgorithm

/-- The diff between two versions has a job. -/
def Attempted (s : Project) (fromVersion toVersion : DbVersion) : Prop :=
  ∃ job ∈ s.db.diffJobs, job.IsFor fromVersion toVersion

section Jobs

variable {s : Project} {fromVersion toVersion : DbVersion} {id : String} {row : DbDiffJob}
  {db : PublisherDb}

theorem validateDiffAlgorithm_default : validateDiffAlgorithm defaultAlgorithm = .ok () :=
  if_pos (by simp [defaultAlgorithm, Text.asciiLower, knownDiffAlgorithms])

/-- No job is found exactly if none was attempted. -/
theorem find_job_eq_none : (s.db.diffJobs.find fun j =>
    j.fromVersionId == fromVersion.versionId && j.toVersionId == toVersion.versionId &&
      j.diffAlgorithm == defaultAlgorithm) = none ↔ ¬ Attempted s fromVersion toVersion := by
  rw [Table.find_eq_none, Attempted]
  grind [DbDiffJob.IsFor]

/-- The job that is inserted is the first of its pair. -/
theorem isFor_insertDiffJob (h : PublisherDb.insertDiffJob id fromVersion.versionId
    toVersion.versionId defaultAlgorithm s.db = .ok (row, db)) :
    row.IsFor fromVersion toVersion ∧ ¬ Attempted s fromVersion toVersion := by
  unfold PublisherDb.insertDiffJob at h
  obtain ⟨_, -, h⟩ := Except.bind_eq_ok.mp h
  obtain ⟨_, -, h⟩ := Except.bind_eq_ok.mp h
  obtain ⟨_, -, h⟩ := Except.bind_eq_ok.mp h
  obtain ⟨_, -, h⟩ := Except.bind_eq_ok.mp h
  obtain ⟨_, hnone, h⟩ := Except.bind_eq_ok.mp h
  obtain ⟨diffJobs, -, h⟩ := Except.bind_eq_ok.mp h
  obtain ⟨rfl, rfl⟩ := Prod.mk.inj (Except.ok.inj h)
  exact ⟨⟨rfl, rfl, rfl⟩, find_job_eq_none.mp (Except.ensure_eq_ok.mp hnone)⟩

/-- A version is found by its id. -/
theorem getVersion_of_mem (h : fromVersion ∈ s.db.versions) :
    s.db.getVersion fromVersion.versionId = some fromVersion := by
  cases hfind : s.db.getVersion fromVersion.versionId with
  | none =>
      have hother := Table.find_eq_none.mp hfind fromVersion h
      simp at hother
  | some v =>
      obtain ⟨hv, hid⟩ := Table.mem_of_find hfind
      rw [Table.eq_of_key_eq hv h (by simpa using hid)]

/-- The first job of a pair can be inserted. -/
theorem exists_insertDiffJob (hfrom : fromVersion ∈ s.db.versions)
    (hto : toVersion ∈ s.db.versions) (hsame : fromVersion.binaryId = toVersion.binaryId)
    (hfresh : ∀ j ∈ s.db.diffJobs, j.jobId ≠ id) (hfirst : ¬ Attempted s fromVersion toVersion) :
    ∃ db, PublisherDb.insertDiffJob id fromVersion.versionId toVersion.versionId
      defaultAlgorithm s.db = .ok (pendingJob id fromVersion toVersion, db) := by
  have hpending : ∀ j ∈ s.db.diffJobs, j.jobId ≠ (pendingJob id fromVersion toVersion).jobId :=
    hfresh
  obtain ⟨diffJobs, hinsert⟩ := Table.exists_insert hpending
  rw [pendingJob] at hinsert
  refine ⟨{ s.db with diffJobs := diffJobs }, ?_⟩
  simp [PublisherDb.insertDiffJob, getVersion_of_mem hfrom, getVersion_of_mem hto, hsame,
    validateDiffAlgorithm_default, find_job_eq_none.mpr hfirst, hinsert, pendingJob,
    Except.ofOption, Except.ensure, bind, Except.bind, pure, Except.pure]

/-- An update leaves the pairs of all jobs alone. -/
theorem Attempted.update (h : Attempted s fromVersion toVersion) {jobId : String}
    {f : DbDiffJob → DbDiffJob} {hf : ∀ j, (f j).jobId = j.jobId}
    (hupdate : PublisherDb.updateDiffJob jobId f hf s.db = .ok db)
    (hpair : ∀ j : DbDiffJob, j.IsFor fromVersion toVersion → (f j).IsFor fromVersion toVersion) :
    Attempted { s with db := db } fromVersion toVersion := by
  obtain ⟨job, hjob, hfor⟩ := h
  unfold PublisherDb.updateDiffJob at hupdate
  split at hupdate
  · obtain rfl := Except.ok.inj hupdate
    refine ⟨if job.jobId == jobId then f job else job,
      (Table.mem_update hf).mpr ⟨job, hjob, rfl⟩, ?_⟩
    split
    · exact hpair job hfor
    · exact hfor
  · contradiction

/-- The files do not matter to the jobs. -/
theorem Attempted.files (h : Attempted s fromVersion toVersion) (files : Files Path Bytes) :
    Attempted { s with files := files } fromVersion toVersion := h

end Jobs

/-! ## what an attempt leaves -/

section Attempt

variable {X : PublisherCrates} {e : PublisherEnv} {k : Nat} {s : Project} {jobId : String}
  {fromVersion toVersion : DbVersion} {outputDir : List Char}

theorem Attempted.failsTo (h : Attempted s fromVersion toVersion) :
    FailsTo e k jobId (fun _ s' => Attempted s' fromVersion toVersion) s := by
  intro α err Q
  rw [failJob, wp_bind]
  exact wp_dbUpdate (fun _ hdb => h.update hdb fun _ hj => hj) fun _ => h

/-- An attempt that changes anything leaves its job, whatever fails. -/
theorem wp_generateSingleDiff_attempted :
    wp (generateSingleDiff X e k fromVersion toVersion outputDir)
      (fun _ s' => Attempted s' fromVersion toVersion)
      (fun _ s' => s' = s ∨ Attempted s' fromVersion toVersion) s := by
  unfold generateSingleDiff
  rw [wp_bind]
  refine wp_dbInsert (fun job db hinsert => ?_) fun _ => .inl rfl
  have hstart : Attempted { s with db := db } fromVersion toVersion :=
    ⟨job, ((jobAdded_insert hinsert).1.jobs job).mpr (.inr rfl), (isFor_insertDiffJob hinsert).1⟩
  refine wp_mono (fun _ _ h => h) (fun _ s' h => Or.inr h) ?_
  simp only [wp_bind]
  refine wp_hostOp (wp_dbUpdate (fun db' hrunning => ?_) fun _ => hstart) fun _ => hstart
  have hworking := hstart.update hrunning fun _ hj => hj
  refine wp_readBinaries (fun old new _ => ?_) fun _ => hworking.failsTo
  refine wp_computeDiff (fun raw compressed _ _ => ?_) fun _ => hworking.failsTo
  split
  · rw [wp_bind]
    exact wp_dbUpdate (fun _ hfailed => hworking.update hfailed fun _ hj => hj) fun _ => hworking
  · simp only [wp_bind]
    refine wp_writeDiff (fun _ => ?_) fun _ _ => (hworking.files _).failsTo
    refine wp_verifyDiff (Files.read_write_self _ _ _) (fun _ => ?_) fun _ _ => hworking
    refine wp_diffPathText (fun _ => ?_) fun _ _ => hworking
    refine wp_dbUpdate (fun db'' hcompleted => ?_) fun _ => hworking
    unfold PublisherDb.setDiffJobCompleted at hcompleted
    obtain ⟨_, _, hcompleted⟩ := Except.bind_eq_ok.mp hcompleted
    exact Attempted.update hworking hcompleted fun _ hj => hj

end Attempt

/-! ## another attempt -/

/-- The diff is completed, or it is skipped because it is not smaller than the new binary. -/
def DiffRepeated (fromVersion toVersion : DbVersion) (new compressed : Bytes)
    (r : Except String (Option DiffResult)) (s' : Project) : Prop :=
  ∃ job ∈ s'.db.diffJobs, job.IsFor fromVersion toVersion ∧
    (compressed.length < new.length ∧ job.status = .completed ∧ (∃ d, r = .ok (some d)) ∨
      new.length ≤ compressed.length ∧ job.status = .failed ∧ r = .ok none)

section Repeat

variable {X : PublisherCrates} {e : PublisherEnv} {k : Nat} {s s' : Project} {binary : DbBinary}
  {binaryName platform fromText toText : String} {output : Option String}
  {fromVersion toVersion : DbVersion} {outputDir : List Char} {old new compressed : Bytes}
  {r : Except String (Option DiffResult)}

/-- Both versions are found. -/
theorem exec_generateDiffBetween (hfaults : ∀ site, e.faults site = none)
    (hbinary : s.db.getBinaryByName binaryName platform = some binary)
    (hfrom : s.db.getVersionByString binary.binaryId fromText = some fromVersion)
    (hto : s.db.getVersionByString binary.binaryId toText = some toVersion) :
    exec (generateDiffBetween X e binaryName platform fromText toText output) s =
      exec (generateSingleDiff X e 0 fromVersion toVersion
        ((output.map String.toList).getD (binaryDiffDir binaryName))) s := by
  simp [generateDiffBetween, dbRead, hostOp, hfaults, exec_bind, hbinary, hfrom, hto,
    Except.ofOption]

/-- A job is not added by doing nothing. -/
theorem not_jobAdded_self {job : DbDiffJob} : ¬ JobAdded s s job := fun h =>
  h.fresh job ((h.jobs job).mpr (.inr rfl)) rfl

/-- A generation adds a job, however it ends. -/
theorem GenerationEnds.jobAdded (h : GenerationEnds X e k s fromVersion toVersion r s') :
    ∃ job, JobAdded s s' job := by
  cases h with
  | completed d _ _ _ hjob => exact hjob.imp fun _ h => h.1
  | skipped _ _ _ hjob => exact hjob.imp fun _ h => h.1
  | failed err _ _ _ _ hjob => exact hjob.imp fun _ h => h.1
  | left err _ _ hjob => exact hjob.imp fun _ h => h.1

/-- A generation that has inserted its job and in which nothing fails. -/
theorem GenerationEnds.repeated (h : GenerationEnds X e k s fromVersion toVersion r s')
    (hfaults : ∀ site, e.faults site = none) (hfirst : ¬ Attempted s fromVersion toVersion)
    (hattempted : Attempted s' fromVersion toVersion)
    (hcomputed : DiffComputed X e k s fromVersion toVersion old new compressed) :
    DiffRepeated fromVersion toVersion new compressed r s' := by
  -- the job of the pair is the one that was added
  have hfor : ∀ {job}, JobAdded s s' job → job.IsFor fromVersion toVersion := by
    intro job hadded
    obtain ⟨j, hj, hjfor⟩ := hattempted
    rcases (hadded.jobs j).mp hj with hold | rfl
    · exact absurd ⟨j, hold, hjfor⟩ hfirst
    · exact hjfor
  cases h with
  | completed d _ hwritten _ hjob =>
      obtain ⟨job, hadded, -, hstatus⟩ := hjob
      exact ⟨job, (hadded.jobs job).mpr (.inr rfl), hfor hadded,
        .inl ⟨(hcomputed.written_iff.mp hwritten).2, hstatus, d, rfl⟩⟩
  | skipped _ hskipped _ hjob =>
      obtain ⟨job, hadded, -, hstatus⟩ := hjob
      exact ⟨job, (hadded.jobs job).mpr (.inr rfl), hfor hadded,
        .inr ⟨hcomputed.skipped_iff.mp hskipped, hstatus, rfl⟩⟩
  | failed err _ hwritten hskipped _ _ =>
      rcases Nat.lt_or_ge compressed.length new.length with hsmaller | hlarge
      · exact absurd (hcomputed.written_iff.mpr ⟨hfaults _, hsmaller⟩) hwritten
      · exact absurd (hcomputed.skipped_iff.mpr hlarge) hskipped
  | left err _ hleaves _ => simp [LeavesJob, hfaults] at hleaves

/-- The second job of a pair is refused. -/
theorem exec_generateSingleDiff_attempted (h : Attempted s fromVersion toVersion) :
    ∃ err, exec (generateSingleDiff X e k fromVersion toVersion outputDir) s = (.error err, s) := by
  have hrun : wp (generateSingleDiff X e k fromVersion toVersion outputDir) (fun _ _ => False)
      (fun _ s' => s' = s) s := by
    unfold generateSingleDiff
    rw [wp_bind]
    exact wp_dbInsert (fun _ _ hinsert => absurd h (isFor_insertDiffJob hinsert).2) fun _ => rfl
  generalize hexec : exec (generateSingleDiff X e k fromVersion toVersion outputDir) s = out
  obtain ⟨r, s'⟩ := out
  cases r with
  | ok r => exact (wp_exec_ok hrun hexec).elim
  | error err =>
      obtain rfl := wp_exec_error hrun hexec
      exact ⟨err, rfl⟩

/-- A diff between two versions whose files are there is generated, if nothing fails, if and
only if no job of an earlier attempt is left. -/
theorem diffRepeated_iff (hfaults : ∀ site, e.faults site = none)
    (hfresh : ∀ j ∈ s.db.diffJobs, j.jobId ≠ e.uuid (.job 0))
    (hbinary : s.db.getBinaryByName binaryName platform = some binary)
    (hfrom : s.db.getVersionByString binary.binaryId fromText = some fromVersion)
    (hto : s.db.getVersionByString binary.binaryId toText = some toVersion)
    (hcomputed : DiffComputed X e 0 s fromVersion toVersion old new compressed) :
    DiffRepeated fromVersion toVersion new compressed
        (exec (generateDiffBetween X e binaryName platform fromText toText output) s).1
        (exec (generateDiffBetween X e binaryName platform fromText toText output) s).2 ↔
      ¬ Attempted s fromVersion toVersion := by
  rw [exec_generateDiffBetween hfaults hbinary hfrom hto]
  constructor
  · intro hrepeated hattempted
    obtain ⟨err, hexec⟩ := @exec_generateSingleDiff_attempted X e 0 s fromVersion toVersion
      ((output.map String.toList).getD (binaryDiffDir binaryName)) hattempted
    rw [hexec] at hrepeated
    obtain ⟨job, -, -, ⟨-, -, d, hok⟩ | ⟨-, -, hok⟩⟩ := hrepeated
    · contradiction
    · contradiction
  · intro hfirst
    obtain ⟨hmem, hbinaryId⟩ := Table.mem_of_find hfrom
    obtain ⟨hmem', hbinaryId'⟩ := Table.mem_of_find hto
    have hsame : fromVersion.binaryId = toVersion.binaryId := by
      simp only [Bool.and_eq_true, beq_iff_eq] at hbinaryId hbinaryId'
      rw [hbinaryId.1, hbinaryId'.1]
    obtain ⟨db, hinsert⟩ := exists_insertDiffJob hmem hmem' hsame hfresh hfirst
    have hends := @generationEnds X e 0 s fromVersion toVersion
      ((output.map String.toList).getD (binaryDiffDir binaryName)) _ _
      ⟨hfaults _, hfaults _, hfaults _⟩ (hfaults _) hinsert
    refine hends.repeated hfaults hfirst ?_ hcomputed
    rcases wp_exec_snd (P := fun s' => s' = s ∨ Attempted s' fromVersion toVersion)
      (wp_mono (fun _ _ h => .inr h) (fun _ _ h => h) wp_generateSingleDiff_attempted) with h | h
    · rw [h] at hends
      exact absurd hends.jobAdded (by simp [not_jobAdded_self])
    · exact h

end Repeat

/-! ## the sample diff again -/

/-- The sample diff between its two versions. -/
theorem sample_computed : DiffComputed samplePublisherCrates samplePublisherEnv 0 sampleProject
    sampleFrom sampleTo [] (List.replicate 24 7) sampleDiff24 where
  binaries :=
    { openSource := rfl, openTarget := rfl, lockSource := rfl, lockTarget := rfl
      readSource := rfl, readTarget := rfl
      source := by decide
      target := by decide
      sourceSize := by decide
      targetSize := by decide
      sourceHash := fun _ => rfl
      targetHash := fun _ => rfl }
  patch := ⟨patchBytes [samplePatchRecord 24], by decide, by decide⟩

/-- The first attempt makes the sample diff. -/
theorem diffRepeated_sample :
    DiffRepeated sampleFrom sampleTo (List.replicate 24 7) sampleDiff24
      (exec (generateDiffBetween samplePublisherCrates samplePublisherEnv "app" "linux-x86_64"
        "1.0.0" "1.1.0" none) sampleProject).1
      (exec (generateDiffBetween samplePublisherCrates samplePublisherEnv "app" "linux-x86_64"
        "1.0.0" "1.1.0" none) sampleProject).2 := by
  have hbinary : sampleProject.db.getBinaryByName "app" "linux-x86_64" =
      some ⟨"b", "app", "linux-x86_64", "/p/v1"⟩ := rfl
  refine (diffRepeated_iff (fun _ => rfl) (fun j hj => absurd hj List.not_mem_nil) hbinary rfl rfl
    sample_computed).mpr ?_
  simp [Attempted, sampleProject, PublisherDb.empty]

/-- A later command draws another id. -/
def laterEnv : PublisherEnv := { samplePublisherEnv with uuid := fun _ => "later" }

/-- The sample diff is complete, and it cannot be generated again. -/
theorem generateDiffBetween_twice :
    (exec (generateDiffBetween samplePublisherCrates samplePublisherEnv "app" "linux-x86_64"
      "1.0.0" "1.1.0" none) sampleProject).2 = sampleDiffed ∧
    ¬ DiffRepeated sampleFrom sampleTo (List.replicate 24 7) sampleDiff24
      (exec (generateDiffBetween samplePublisherCrates laterEnv "app" "linux-x86_64"
        "1.0.0" "1.1.0" none) sampleDiffed).1
      (exec (generateDiffBetween samplePublisherCrates laterEnv "app" "linux-x86_64"
        "1.0.0" "1.1.0" none) sampleDiffed).2 := by
  have hfirst : (exec (generateDiffBetween samplePublisherCrates samplePublisherEnv "app"
      "linux-x86_64" "1.0.0" "1.1.0" none) sampleProject).2 = sampleDiffed := by decide
  have hagain : (exec (generateDiffBetween samplePublisherCrates laterEnv "app" "linux-x86_64"
      "1.0.0" "1.1.0" none) sampleDiffed).1 = .error ("Duplicate record: UNIQUE constraint " ++
        "failed: diff_jobs.from_version_id, diff_jobs.to_version_id, diff_jobs.diff_algorithm") := by
    decide
  exact ⟨hfirst, by simp [DiffRepeated, hagain]⟩

end Deltaship
