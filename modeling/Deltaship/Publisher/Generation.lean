import Deltaship.Publisher.DiffManager

/-!
# Deltaship.Publisher.Generation

What the generation of a diff does to the project, whatever fails.

It adds one job and touches one file, the one the diff is written to.  The job is
completed only behind the last check, and then the file holds the compressed patch
between the two binaries, which had the hashes of their rows.
-/

namespace Deltaship

open Prog Lexical

/-! ## jobs -/

/-- One job was added to the database, and nothing else changed in it. -/
structure JobAdded (s s' : Project) (job : DbDiffJob) : Prop where
  root : s'.root = s.root
  binaries : s'.db.binaries = s.db.binaries
  versions : s'.db.versions = s.db.versions
  fresh : ∀ j ∈ s.db.diffJobs, j.jobId ≠ job.jobId
  jobs : ∀ j, j ∈ s'.db.diffJobs ↔ j ∈ s.db.diffJobs ∨ j = job

/-- A job between two versions that was not completed. -/
structure DiffUnfinished (s : Project) (target : Path) (fromVersion toVersion : DbVersion)
    (jobId : String) (s' : Project) : Prop where
  added : ∃ job, JobAdded s s' job ∧ job.jobId = jobId ∧
    job.fromVersionId = fromVersion.versionId ∧ job.toVersionId = toVersion.versionId ∧
    job.status ≠ .completed
  files : Files.AgreeOff (· = target) s.files s'.files

/-- What a completed diff was made from. -/
structure DiffOf (X : PublisherCrates) (s : Project) (fromVersion toVersion : DbVersion)
    (old new raw compressed : Bytes) : Prop where
  source : s.content fromVersion.filePath.toList = some old
  target : s.content toVersion.filePath.toList = some new
  sourceSize : old.length < i64Size
  sourceHash : fromVersion.fileHashBlake3 ≠ [] →
    (X.crypto.blake3 old).val = fromVersion.fileHashBlake3
  targetHash : toVersion.fileHashBlake3 ≠ [] → (X.crypto.blake3 new).val = toVersion.fileHashBlake3
  diff : X.bsdiff old new = .ok raw
  encoded : X.zstdEncode raw = .ok compressed
  smaller : compressed.length < new.length

/-- A job between two versions that was completed. -/
structure DiffFinished (X : PublisherCrates) (s : Project) (path : List Char)
    (fromVersion toVersion : DbVersion) (jobId : String) (s' : Project) : Prop where
  made : ∃ old new raw compressed job, DiffOf X s fromVersion toVersion old new raw compressed ∧
    JobAdded s s' job ∧ job.jobId = jobId ∧ job.fromVersionId = fromVersion.versionId ∧
    job.toVersionId = toVersion.versionId ∧ job.status = .completed ∧
    job.diffPath = some (String.ofList path) ∧ job.diffSizeBytes = some compressed.length ∧
    job.diffHashBlake3 = some (X.crypto.blake3 compressed).val ∧
    s'.files = s.files.write (s.resolve path) compressed

section Jobs

variable {s s₁ : Project} {job : DbDiffJob} {db : PublisherDb}

theorem jobAdded_insert {id fromId toId algorithm : String}
    (h : PublisherDb.insertDiffJob id fromId toId algorithm s.db = .ok (job, db)) :
    JobAdded s { s with db := db } job ∧ job.jobId = id ∧ job.fromVersionId = fromId ∧
      job.toVersionId = toId ∧ job.status = .pending := by
  unfold PublisherDb.insertDiffJob at h
  obtain ⟨_, _, h⟩ := Except.bind_eq_ok.mp h
  obtain ⟨_, _, h⟩ := Except.bind_eq_ok.mp h
  obtain ⟨_, _, h⟩ := Except.bind_eq_ok.mp h
  obtain ⟨_, _, h⟩ := Except.bind_eq_ok.mp h
  obtain ⟨_, _, h⟩ := Except.bind_eq_ok.mp h
  obtain ⟨diffJobs, hinsert, h⟩ := Except.bind_eq_ok.mp h
  obtain ⟨rfl, rfl⟩ := Prod.mk.inj (Except.ok.inj h)
  have hinsert := Except.ofOption_eq_ok.mp hinsert
  refine ⟨⟨rfl, rfl, rfl, fun j hj heq => ?_,
    fun j => Table.mem_insert hinsert⟩, rfl, rfl, rfl, rfl⟩
  rw [Table.insert_eq_none ⟨j, hj, heq⟩] at hinsert
  contradiction

/-- An update of the new job changes the new job only. -/
theorem JobAdded.update (h : JobAdded s s₁ job) {f : DbDiffJob → DbDiffJob}
    {hf : ∀ j, (f j).jobId = j.jobId}
    (hupdate : PublisherDb.updateDiffJob job.jobId f hf s₁.db = .ok db) :
    JobAdded s { s₁ with db := db } (f job) := by
  unfold PublisherDb.updateDiffJob at hupdate
  split at hupdate
  · obtain rfl := Except.ok.inj hupdate
    refine ⟨h.root, h.binaries, h.versions, fun j hj => ?_, fun j => ?_⟩
    · rw [hf]
      exact h.fresh j hj
    · show j ∈ s₁.db.diffJobs.update _ f hf ↔ _
      rw [Table.mem_update]
      constructor
      · rintro ⟨j', hj', rfl⟩
        rcases (h.jobs j').mp hj' with hold | rfl
        · rw [if_neg (by simpa using h.fresh j' hold)]
          exact .inl hold
        · rw [if_pos (beq_self_eq_true _)]
          exact .inr rfl
      · rintro (hold | rfl)
        · exact ⟨j, (h.jobs j).mpr (.inl hold), by rw [if_neg (by simpa using h.fresh j hold)]⟩
        · exact ⟨job, (h.jobs job).mpr (.inr rfl), by rw [if_pos (beq_self_eq_true _)]⟩
  · contradiction

/-- Files do not matter to the database. -/
theorem JobAdded.files (h : JobAdded s s₁ job) (files : Files Path Bytes) :
    JobAdded s { s₁ with files := files } job :=
  ⟨h.root, h.binaries, h.versions, h.fresh, h.jobs⟩

end Jobs

/-! ## the steps -/

/-- Both binaries can be opened, locked and read, and have the hashes of their rows. -/
structure BinariesRead (X : PublisherCrates) (e : PublisherEnv) (k : Nat) (s : Project)
    (fromVersion toVersion : DbVersion) (old new : Bytes) : Prop where
  openSource : e.faults (.openSource k) = none
  openTarget : e.faults (.openTarget k) = none
  lockSource : e.faults (.lockSource k) = none
  lockTarget : e.faults (.lockTarget k) = none
  readSource : e.faults (.readSource k) = none
  readTarget : e.faults (.readTarget k) = none
  source : s.content fromVersion.filePath.toList = some old
  target : s.content toVersion.filePath.toList = some new
  sourceSize : old.length < i64Size
  targetSize : new.length < i64Size
  sourceHash : fromVersion.fileHashBlake3 ≠ [] →
    (X.crypto.blake3 old).val = fromVersion.fileHashBlake3
  targetHash : toVersion.fileHashBlake3 ≠ [] →
    (X.crypto.blake3 new).val = toVersion.fileHashBlake3

/-- Wherever the job is marked as failed here, this holds at the end. -/
def FailsTo (e : PublisherEnv) (k : Nat) (jobId : String) (E : String → Project → Prop)
    (s : Project) : Prop :=
  ∀ {α : Type} (err : String) (Q : α → Project → Prop),
    wp (failJob e k jobId err : PublisherM α) Q E s

section Steps

variable {X : PublisherCrates} {e : PublisherEnv} {k : Nat} {s : Project}
  {fromVersion toVersion : DbVersion} {jobId : String} {E : String → Project → Prop}

/-- A binary is opened, or the job is marked as failed. -/
theorem wp_openBinary {site : PublisherSite} {what path : String} {Q : Unit → Project → Prop}
    (hok : e.faults site = none → s.content path.toList ≠ none → Q () s)
    (hfail : e.faults site ≠ none ∨ s.content path.toList = none → FailsTo e k jobId E s) :
    wp (openBinary e k site jobId what path) Q E s := by
  unfold openBinary
  split
  · next hfault => exact hfail (.inl (by simp [hfault])) _ _
  · next hfault =>
      rw [wp_bind, wp_get]
      split
      · next hsome => exact hok hfault (Option.isSome_iff_ne_none.mp hsome)
      · next hnone => exact hfail (.inr (by simpa using hnone)) _ _

/-- It is locked, or the job is marked as failed. -/
theorem wp_lockBinary {site : PublisherSite} {what path : String} {Q : Unit → Project → Prop}
    (hok : e.faults site = none → Q () s)
    (hfail : e.faults site ≠ none → FailsTo e k jobId E s) :
    wp (lockBinary e k site jobId what path) Q E s := by
  unfold lockBinary
  split
  · next hfault => exact hfail (by simp [hfault]) _ _
  · next hfault => exact hok hfault

/-- It is read as it is, or the job is marked as failed. -/
theorem wp_readBinary {site : PublisherSite} {what path : String} {Q : Bytes → Project → Prop}
    (hok : ∀ b, e.faults site = none → s.content path.toList = some b → b.length < i64Size → Q b s)
    (hfail : (∀ b, e.faults site = none → s.content path.toList = some b → ¬ b.length < i64Size) →
      FailsTo e k jobId E s) :
    wp (readBinary e k site jobId what path) Q E s := by
  unfold readBinary
  rw [wp_bind]
  refine wp_readAll_cases (fun b hfault hb hlt => hok b hfault hb hlt) fun err hnone => ?_
  exact hfail hnone _ _

/-- Its hash is the recorded one, if one was recorded, or the job is marked as failed. -/
theorem wp_checkBinary {what : String} {version : DbVersion} {data : Bytes}
    {Q : Unit → Project → Prop}
    (hok : (version.fileHashBlake3 ≠ [] → (X.crypto.blake3 data).val = version.fileHashBlake3) →
      Q () s)
    (hfail : ¬ (version.fileHashBlake3 ≠ [] →
      (X.crypto.blake3 data).val = version.fileHashBlake3) → FailsTo e k jobId E s) :
    wp (checkBinary X e k jobId what version data) Q E s := by
  unfold checkBinary
  split
  · next hcheck => exact hfail (fun h => hcheck.2 (h hcheck.1)) _ _
  · next hcheck => exact hok fun hne => by_contra fun hdiff => hcheck ⟨hne, hdiff⟩

/-- Both binaries are read and checked, or the job is marked as failed. -/
theorem wp_readBinaries {Q : Bytes × Bytes → Project → Prop}
    (hok : ∀ old new, BinariesRead X e k s fromVersion toVersion old new → Q (old, new) s)
    (hfail : (∀ old new, ¬ BinariesRead X e k s fromVersion toVersion old new) →
      FailsTo e k jobId E s) :
    wp (readBinaries X e k jobId fromVersion toVersion) Q E s := by
  unfold readBinaries
  simp only [wp_bind]
  refine wp_openBinary (fun hopen _ => ?_) fun hwhy => hfail fun old new h => ?_
  · refine wp_openBinary (fun hopen' _ => ?_) fun hwhy => hfail fun old new h => ?_
    · refine wp_lockBinary (fun hlock => ?_) fun hwhy => hfail fun old new h => hwhy h.lockSource
      refine wp_lockBinary (fun hlock' => ?_) fun hwhy => hfail fun old new h => hwhy h.lockTarget
      refine wp_readBinary (fun old hread hold hlt => ?_) fun hnone => hfail fun old new h =>
        hnone old h.readSource h.source h.sourceSize
      refine wp_readBinary (fun new hread' hnew hlt' => ?_) fun hnone => hfail fun old new h =>
        hnone new h.readTarget h.target h.targetSize
      refine wp_checkBinary (fun hsource => ?_) fun hwhy => hfail fun old' new' h => hwhy ?_
      · refine wp_checkBinary (fun htarget => ?_) fun hwhy => hfail fun old' new' h => hwhy ?_
        · exact hok old new ⟨hopen, hopen', hlock, hlock', hread, hread', hold, hnew, hlt, hlt',
            hsource, htarget⟩
        · exact Option.some.inj (hnew.symm.trans h.target) ▸ h.targetHash
      · exact Option.some.inj (hold.symm.trans h.source) ▸ h.sourceHash
    · exact hwhy.elim (· h.openTarget) fun hnone => by simp [h.target] at hnone
  · exact hwhy.elim (· h.openSource) fun hnone => by simp [h.source] at hnone

/-- The diff is the compressed patch between them, or the job is marked as failed. -/
theorem wp_computeDiff {old new : Bytes} {Q : Bytes → Project → Prop}
    (hok : ∀ raw compressed, X.bsdiff old new = .ok raw → X.zstdEncode raw = .ok compressed →
      Q compressed s)
    (hfail : (∀ raw compressed, X.bsdiff old new = .ok raw → X.zstdEncode raw ≠ .ok compressed) →
      FailsTo e k jobId E s) :
    wp (computeDiff X e k jobId old new) Q E s := by
  unfold computeDiff
  split
  · next hraw => exact hfail (fun raw _ h => by simp [hraw] at h) _ _
  · next raw hraw =>
      split
      · next hencoded =>
          refine hfail (fun raw' compressed h => ?_) _ _
          obtain rfl := Except.ok.inj (hraw.symm.trans h)
          simp [hencoded]
      · next compressed hcompressed => exact hok raw compressed hraw hcompressed

/-- It is written to its path, or the job is marked as failed. -/
theorem wp_writeDiff {path : List Char} {data : Bytes} {Q : Unit → Project → Prop}
    (hok : e.faults (.writeDiff k) = none →
      Q () { s with files := s.files.write (s.resolve path) data })
    (hfail : e.faults (.writeDiff k) ≠ none → ∀ n, FailsTo e k jobId E
      { s with files := s.files.write (s.resolve path) (data.take n) }) :
    wp (writeDiff e k jobId path data) Q E s := by
  unfold writeDiff
  split
  · next hfault => exact hok hfault
  · next fault hfault =>
      rw [wp_bind, wp_modify]
      exact hfail (by simp [hfault]) _ _ _

/-- The file is hashed again: if it cannot be read the job is left as it is. -/
theorem wp_verifyDiff {path : List Char} {data : Bytes} {Q : Hash → Project → Prop}
    (hcontent : s.content path = some data)
    (hok : e.faults (.hashDiff k) = none → Q (X.crypto.blake3 data) s)
    (hfail : ∀ err, e.faults (.hashDiff k) ≠ none ∨ ¬ data.length < i64Size → E err s) :
    wp (verifyDiff X e k jobId path (X.crypto.blake3 data)) Q E s := by
  unfold verifyDiff
  rw [wp_bind]
  refine wp_readAll_cases (fun b hfault hb _ => ?_) fun err hnone => ?_
  · rw [String.toList_ofList] at hb
    obtain rfl := Option.some.inj (hcontent.symm.trans hb)
    dsimp only
    rw [if_neg (not_not.mpr rfl)]
    exact hok hfault
  · refine hfail err (or_iff_not_imp_left.mpr fun hfault => hnone data (not_not.mp hfault) ?_)
    rw [String.toList_ofList]
    exact hcontent

/-- The path is recorded as text, if it is one. -/
theorem wp_diffPathText {path : List Char} {Q : String → Project → Prop}
    (hok : e.faults (.diffPathText k) = none → Q (String.ofList path) s)
    (hfail : ∀ err, e.faults (.diffPathText k) ≠ none → E err s) :
    wp (diffPathText e k path) Q E s := by
  unfold diffPathText
  split
  · next hfault => exact hok hfault
  · next hfault => exact hfail _ (by simp [hfault])

end Steps

/-! ## unfinished jobs -/

section Unfinished

variable {X : PublisherCrates} {e : PublisherEnv} {k : Nat} {s s₁ : Project} {target : Path}
  {fromVersion toVersion : DbVersion} {jobId : String}

/-- A job that is marked as failed is not finished. -/
theorem DiffUnfinished.failed (h : DiffUnfinished s target fromVersion toVersion jobId s₁)
    {err : String} {db : PublisherDb}
    (hfail : PublisherDb.setDiffJobFailed jobId err s₁.db = .ok db) :
    DiffUnfinished s target fromVersion toVersion jobId { s₁ with db := db } := by
  obtain ⟨⟨job, hadded, rfl, hfrom, hto, -⟩, hfiles⟩ := h
  exact ⟨⟨_, hadded.update hfail, rfl, hfrom, hto, by simp⟩, hfiles⟩

/-- So a failure leaves the job unfinished. -/
theorem DiffUnfinished.failsTo (h : DiffUnfinished s target fromVersion toVersion jobId s₁) :
    FailsTo e k jobId (fun _ s' => DiffUnfinished s target fromVersion toVersion jobId s') s₁ := by
  intro α err Q
  unfold failJob
  rw [wp_bind]
  exact wp_dbUpdate (fun db hdb => h.failed hdb) fun _ => h

/-- So does a write to the path of the diff. -/
theorem DiffUnfinished.write (h : DiffUnfinished s target fromVersion toVersion jobId s₁)
    {path : List Char} (htarget : s₁.resolve path = target) (b : Bytes) :
    DiffUnfinished s target fromVersion toVersion jobId
      { s₁ with files := s₁.files.write (s₁.resolve path) b } := by
  obtain ⟨⟨job, hadded, hjob⟩, hfiles⟩ := h
  exact ⟨⟨job, hadded.files _, hjob⟩, hfiles.trans (.write htarget)⟩

/-- Everything the generation of a diff can do. -/
theorem wp_generateSingleDiff {outputDir : List Char} :
    let path := diffFilePath outputDir fromVersion toVersion
    wp (generateSingleDiff X e k fromVersion toVersion outputDir)
      (fun r s' => if r.isSome then
          DiffFinished X s path fromVersion toVersion (e.uuid (.job k)) s'
        else DiffUnfinished s (s.resolve path) fromVersion toVersion (e.uuid (.job k)) s')
      (fun _ s' => s' = s ∨
        DiffUnfinished s (s.resolve path) fromVersion toVersion (e.uuid (.job k)) s') s := by
  intro path
  unfold generateSingleDiff
  rw [wp_bind]
  refine wp_dbInsert (fun job db hinsert => ?_) fun _ => .inl rfl
  obtain ⟨hadded, hid, hfrom, hto, hpending⟩ := jobAdded_insert hinsert
  rw [← hid]
  have hstart : DiffUnfinished s (s.resolve path) fromVersion toVersion job.jobId
      { s with db := db } := ⟨⟨job, hadded, rfl, hfrom, hto, by simp [hpending]⟩, .refl _ _⟩
  refine wp_mono (fun _ _ h => h) (fun _ s' h => Or.inr h) ?_
  simp only [wp_bind]
  refine wp_hostOp (wp_dbUpdate (fun db' hrunning => ?_) fun _ => hstart) fun _ => hstart
  have hadded := hadded.update hrunning
  have hworking : DiffUnfinished s (s.resolve path) fromVersion toVersion job.jobId
      { s with db := db' } :=
    ⟨⟨_, hadded, rfl, hfrom, hto, by simp⟩, .refl _ _⟩
  refine wp_readBinaries (fun old new hread => ?_) fun _ => hworking.failsTo
  refine wp_computeDiff (fun raw compressed hraw hencoded => ?_) fun _ => hworking.failsTo
  split
  · rw [wp_bind]
    exact wp_dbUpdate (fun _ hfailed => hworking.failed hfailed) fun _ => hworking
  · next hsmaller =>
      have hmade : DiffOf X s fromVersion toVersion old new raw compressed :=
        ⟨hread.source, hread.target, hread.sourceSize, hread.sourceHash, hread.targetHash, hraw,
          hencoded, Nat.lt_of_not_le hsmaller⟩
      have hwritten := @DiffUnfinished.write _ _ _ _ _ _ hworking path rfl compressed
      simp only [wp_bind]
      refine wp_writeDiff (fun _ => ?_) fun _ n => (hworking.write rfl _).failsTo
      refine wp_verifyDiff (Files.read_write_self _ _ _) (fun _ => ?_) fun _ _ => hwritten
      refine wp_diffPathText (fun _ => ?_) fun _ _ => hwritten
      refine wp_dbUpdate (fun db'' hcompleted => ?_) fun _ => hwritten
      unfold PublisherDb.setDiffJobCompleted at hcompleted
      obtain ⟨_, _, hcompleted⟩ := Except.bind_eq_ok.mp hcompleted
      exact ⟨old, new, raw, compressed, _, hmade,
        (hadded.files (s.files.write (s.resolve path) compressed)).update hcompleted, rfl, hfrom,
        hto, rfl, rfl, rfl, rfl, rfl⟩

end Unfinished

/-- The state that the generation of a diff ends in, whatever it returns. -/
theorem generateSingleDiff_effect (X : PublisherCrates) (e : PublisherEnv) (k : Nat) (s : Project)
    (fromVersion toVersion : DbVersion) (outputDir : List Char) :
    let path := diffFilePath outputDir fromVersion toVersion
    let s' := (exec (generateSingleDiff X e k fromVersion toVersion outputDir) s).2
    s' = s ∨ DiffUnfinished s (s.resolve path) fromVersion toVersion (e.uuid (.job k)) s' ∨
      DiffFinished X s path fromVersion toVersion (e.uuid (.job k)) s' := by
  intro path s'
  have hrun : wp (generateSingleDiff X e k fromVersion toVersion outputDir)
      (fun _ s₁ => s₁ = s ∨
        DiffUnfinished s (s.resolve path) fromVersion toVersion (e.uuid (.job k)) s₁ ∨
        DiffFinished X s path fromVersion toVersion (e.uuid (.job k)) s₁)
      (fun _ s₁ => s₁ = s ∨
        DiffUnfinished s (s.resolve path) fromVersion toVersion (e.uuid (.job k)) s₁ ∨
        DiffFinished X s path fromVersion toVersion (e.uuid (.job k)) s₁) s := by
    refine wp_mono (fun r s₁ h => ?_) (fun _ s₁ h => h.imp_right .inl) wp_generateSingleDiff
    split at h
    · exact .inr (.inr h)
    · exact .inr (.inl h)
  exact wp_exec_snd hrun

end Deltaship
