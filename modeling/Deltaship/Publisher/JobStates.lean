import Deltaship.Publisher.Delta

/-!
# Deltaship.Publisher.JobStates

The states that the jobs of diffs are left in.

A generation that has inserted its job marks it by hand wherever it stops with a message of its
own.  Three exits are taken with `?`, without marking the job: the row that was inserted cannot
be read back, the file that was written cannot be hashed, and its path is not UTF-8.
-/

namespace Deltaship

open Prog Lexical

/-! ## the updates of a job -/

section Updates

variable {e : PublisherEnv} {k : Nat} {s s₁ : Project} {job : DbDiffJob} {site : PublisherSite}

/-- Without a fault a call to the host succeeds. -/
theorem wp_hostOp_of {Q : Unit → Project → Prop} {E : String → Project → Prop}
    (hfault : e.faults site = none) (h : Q () s) : wp (hostOp e site) Q E s := by
  rw [hostOp, hfault]
  exact h

theorem wp_hostOp_error {Q : Unit → Project → Prop} {E : String → Project → Prop}
    (hfault : e.faults site ≠ none) (h : ∀ err, E err s) : wp (hostOp e site) Q E s := by
  obtain ⟨fault, hsome⟩ := Option.ne_none_iff_exists'.mp hfault
  rw [hostOp, hsome]
  exact h _

/-- Without a fault an insertion that the database takes is made. -/
theorem wp_dbInsert_of {α : Type} {f : PublisherDb → Except DbError (α × PublisherDb)} {a : α}
    {db : PublisherDb} {Q : α → Project → Prop} {E : String → Project → Prop}
    (hfault : e.faults site = none) (hf : f s.db = .ok (a, db)) (h : Q a { s with db := db }) :
    wp (dbInsert e site f) Q E s := by
  rw [dbInsert, wp_bind]
  refine wp_hostOp_of hfault ?_
  rw [wp_bind, wp_get, hf]
  exact h

/-- Without a fault an update that the database takes is made. -/
theorem wp_dbUpdate_of {f : PublisherDb → Except DbError PublisherDb} {db : PublisherDb}
    {Q : Unit → Project → Prop} {E : String → Project → Prop} (hfault : e.faults site = none)
    (hf : f s.db = .ok db) (h : Q () { s with db := db }) : wp (dbUpdate e site f) Q E s := by
  rw [dbUpdate, wp_bind]
  refine wp_hostOp_of hfault ?_
  rw [wp_bind, wp_get, hf]
  exact h

/-- The job that was added can be updated. -/
theorem JobAdded.exists_update (h : JobAdded s s₁ job) (f : DbDiffJob → DbDiffJob)
    (hf : ∀ j, (f j).jobId = j.jobId) :
    ∃ db, PublisherDb.updateDiffJob job.jobId f hf s₁.db = .ok db := by
  have hjob : (s₁.db.getDiffJob job.jobId).isSome = true := by
    rw [Option.isSome_iff_ne_none, PublisherDb.getDiffJob, ne_eq, Table.find_eq_none]
    intro hnone
    simpa using hnone job ((h.jobs job).mpr (.inr rfl))
  exact ⟨_, if_pos hjob⟩

/-- A job with this id was added, in a state that satisfies `p`. -/
def JobLeft (s : Project) (jobId : String) (p : DiffJobStatus → Prop) (s' : Project) : Prop :=
  ∃ job, JobAdded s s' job ∧ job.jobId = jobId ∧ p job.status

/-- The update marks the job that was added. -/
theorem wp_markJob {jobId : String} {p q : DiffJobStatus → Prop} {f : DbDiffJob → DbDiffJob}
    {hf : ∀ j, (f j).jobId = j.jobId} {Q : Unit → Project → Prop} {E : String → Project → Prop}
    (hfault : e.faults site = none) (hleft : JobLeft s jobId p s₁) (hq : ∀ j, q (f j).status)
    (h : ∀ db, JobLeft s jobId q { s₁ with db := db } → Q () { s₁ with db := db }) :
    wp (dbUpdate e site (PublisherDb.updateDiffJob jobId f hf)) Q E s₁ := by
  obtain ⟨job, hadded, rfl, -⟩ := hleft
  obtain ⟨db, hdb⟩ := hadded.exists_update f hf
  exact wp_dbUpdate_of hfault hdb (h db ⟨_, hadded.update hdb, hf job, hq job⟩)

/-- The state of a job does not depend on the files. -/
theorem JobLeft.files {jobId : String} {p : DiffJobStatus → Prop} (h : JobLeft s jobId p s₁)
    (files : Files Path Bytes) : JobLeft s jobId p { s₁ with files := files } := by
  obtain ⟨job, hadded, hjob⟩ := h
  exact ⟨job, hadded.files files, hjob⟩

/-- A job that is marked as failed is left as failed. -/
theorem JobLeft.failsTo {jobId : String} {p : DiffJobStatus → Prop} {E : String → Project → Prop}
    (h : JobLeft s jobId p s₁) (hfault : e.faults (.setFailed k) = none)
    (hE : ∀ err s', JobLeft s jobId (· = .failed) s' → E err s') : FailsTo e k jobId E s₁ := by
  intro α err Q
  rw [failJob, wp_bind, PublisherDb.setDiffJobFailed]
  exact wp_markJob hfault h (fun _ => rfl) fun db hleft => hE err _ hleft

end Updates

/-! ## final states -/

/- How a generation ends that has inserted its job is one of four cases. Which case it is depends on
whether the patch can be computed, whether it is smaller than the new binary and where something
fails; the lemmas below follow the code from one exit to the next. -/

/-- The updates of the status succeed. -/
structure UpdatesSucceed (e : PublisherEnv) (k : Nat) : Prop where
  setRunning : e.faults (.setRunning k) = none
  setFailed : e.faults (.setFailed k) = none
  setCompleted : e.faults (.setCompleted k) = none

/-- The job is completed, and the diff was returned, or it has failed. -/
def JobSettled (jobId : String) (r : Except String (Option DiffResult)) (s' : Project) : Prop :=
  ∃ job ∈ s'.db.diffJobs, job.jobId = jobId ∧
    (job.status = .completed ∧ (∃ d, r = .ok (some d)) ∨ job.status = .failed)

/-- The binaries can be read, and the patch between them can be computed and compressed. -/
structure DiffComputed (X : PublisherCrates) (e : PublisherEnv) (k : Nat) (s : Project)
    (fromVersion toVersion : DbVersion) (old new compressed : Bytes) : Prop where
  binaries : BinariesRead X e k s fromVersion toVersion old new
  patch : ∃ raw, X.bsdiff old new = .ok raw ∧ X.zstdEncode raw = .ok compressed

/-- Nothing keeps the diff from being written. -/
def DiffWritten (X : PublisherCrates) (e : PublisherEnv) (k : Nat) (s : Project)
    (fromVersion toVersion : DbVersion) : Prop :=
  e.faults (.writeDiff k) = none ∧ ∃ old new compressed,
    DiffComputed X e k s fromVersion toVersion old new compressed ∧ compressed.length < new.length

/-- The diff is not smaller than the new binary. -/
def DiffSkipped (X : PublisherCrates) (e : PublisherEnv) (k : Nat) (s : Project)
    (fromVersion toVersion : DbVersion) : Prop :=
  ∃ old new compressed, DiffComputed X e k s fromVersion toVersion old new compressed ∧
    new.length ≤ compressed.length

/-- One of the exits is taken that leave the job as it is. -/
def LeavesJob (X : PublisherCrates) (e : PublisherEnv) (k : Nat) (s : Project)
    (fromVersion toVersion : DbVersion) : Prop :=
  e.faults (.readJob k) ≠ none ∨ DiffWritten X e k s fromVersion toVersion ∧
    (e.faults (.hashDiff k) ≠ none ∨ e.faults (.diffPathText k) ≠ none)

/-- How a generation ends that has inserted its job: what it returns and where it leaves the
job. -/
inductive GenerationEnds (X : PublisherCrates) (e : PublisherEnv) (k : Nat) (s : Project)
    (fromVersion toVersion : DbVersion) :
    Except String (Option DiffResult) → Project → Prop where
  | completed (d : DiffResult) (s' : Project) (h : DiffWritten X e k s fromVersion toVersion)
      (hleaves : ¬ LeavesJob X e k s fromVersion toVersion)
      (hjob : JobLeft s (e.uuid (.job k)) (· = .completed) s') :
      GenerationEnds X e k s fromVersion toVersion (.ok (some d)) s'
  | skipped (s' : Project) (h : DiffSkipped X e k s fromVersion toVersion)
      (hleaves : ¬ LeavesJob X e k s fromVersion toVersion)
      (hjob : JobLeft s (e.uuid (.job k)) (· = .failed) s') :
      GenerationEnds X e k s fromVersion toVersion (.ok none) s'
  | failed (err : String) (s' : Project) (hwritten : ¬ DiffWritten X e k s fromVersion toVersion)
      (hskipped : ¬ DiffSkipped X e k s fromVersion toVersion)
      (hleaves : ¬ LeavesJob X e k s fromVersion toVersion)
      (hjob : JobLeft s (e.uuid (.job k)) (· = .failed) s') :
      GenerationEnds X e k s fromVersion toVersion (.error err) s'
  | left (err : String) (s' : Project) (hleaves : LeavesJob X e k s fromVersion toVersion)
      (hjob : JobLeft s (e.uuid (.job k)) (fun st => st = .pending ∨ st = .running) s') :
      GenerationEnds X e k s fromVersion toVersion (.error err) s'

section Settled

variable {X : PublisherCrates} {e : PublisherEnv} {k : Nat} {s s' : Project}
  {fromVersion toVersion : DbVersion} {outputDir : List Char}

/-- A job that was left pending or running is not settled. -/
theorem JobLeft.not_settled {jobId : String} {r : Except String (Option DiffResult)}
    (h : JobLeft s jobId (fun st => st = .pending ∨ st = .running) s') :
    ¬ JobSettled jobId r s' := by
  obtain ⟨job, hadded, hid, hstatus⟩ := h
  intro hsettled
  obtain ⟨job', hjob', hid', hstatus'⟩ := hsettled
  obtain rfl := Table.eq_of_key_eq hjob' ((hadded.jobs job).mpr (.inr rfl)) (hid'.trans hid.symm)
  rcases hstatus with h | h <;> simp [h] at hstatus'

theorem JobLeft.mono {jobId : String} {p q : DiffJobStatus → Prop} (h : JobLeft s jobId p s')
    (hpq : ∀ st, p st → q st) : JobLeft s jobId q s' := by
  obtain ⟨job, hadded, hid, hstatus⟩ := h
  exact ⟨job, hadded, hid, hpq _ hstatus⟩

/-- A job that is left as failed is settled. -/
theorem JobLeft.settled_failed {jobId : String} {r : Except String (Option DiffResult)}
    (h : JobLeft s jobId (· = .failed) s') : JobSettled jobId r s' := by
  obtain ⟨job, hadded, hid, hstatus⟩ := h
  exact ⟨job, (hadded.jobs job).mpr (.inr rfl), hid, .inr hstatus⟩

/-- A job that is left as completed is settled. -/
theorem JobLeft.settled_completed {jobId : String} {d : DiffResult}
    (h : JobLeft s jobId (· = .completed) s') : JobSettled jobId (.ok (some d)) s' := by
  obtain ⟨job, hadded, hid, hstatus⟩ := h
  exact ⟨job, (hadded.jobs job).mpr (.inr rfl), hid, .inl ⟨hstatus, d, rfl⟩⟩

/-- The rows do not matter to the binaries. -/
theorem binariesRead_db {db : PublisherDb} {old new : Bytes} :
    BinariesRead X e k { s with db := db } fromVersion toVersion old new ↔
      BinariesRead X e k s fromVersion toVersion old new :=
  ⟨fun h => { h with source := h.source, target := h.target },
    fun h => { h with source := h.source, target := h.target }⟩

/-- There is one new binary and one patch. -/
theorem DiffComputed.unique {old old' new new' compressed compressed' : Bytes}
    (h : DiffComputed X e k s fromVersion toVersion old new compressed)
    (h' : DiffComputed X e k s fromVersion toVersion old' new' compressed') :
    new' = new ∧ compressed' = compressed := by
  obtain ⟨raw, hraw, hencoded⟩ := h.patch
  obtain ⟨raw', hraw', hencoded'⟩ := h'.patch
  obtain rfl := Option.some.inj (h'.binaries.source.symm.trans h.binaries.source)
  obtain rfl := Option.some.inj (h'.binaries.target.symm.trans h.binaries.target)
  obtain rfl := Except.ok.inj (hraw'.symm.trans hraw)
  exact ⟨rfl, Except.ok.inj (hencoded'.symm.trans hencoded)⟩

/-- A computed diff is written exactly if it is worth it and the write does not fail. -/
theorem DiffComputed.written_iff {old new compressed : Bytes}
    (h : DiffComputed X e k s fromVersion toVersion old new compressed) :
    DiffWritten X e k s fromVersion toVersion ↔
      e.faults (.writeDiff k) = none ∧ compressed.length < new.length := by
  constructor
  · rintro ⟨hwrite, old', new', compressed', h', hsmaller⟩
    obtain ⟨rfl, rfl⟩ := h.unique h'
    exact ⟨hwrite, hsmaller⟩
  · rintro ⟨hwrite, hsmaller⟩
    exact ⟨hwrite, old, new, compressed, h, hsmaller⟩

/-- It is skipped exactly if it is no smaller than the binary. -/
theorem DiffComputed.skipped_iff {old new compressed : Bytes}
    (h : DiffComputed X e k s fromVersion toVersion old new compressed) :
    DiffSkipped X e k s fromVersion toVersion ↔ new.length ≤ compressed.length := by
  constructor
  · rintro ⟨old', new', compressed', h', hlarge⟩
    obtain ⟨rfl, rfl⟩ := h.unique h'
    exact hlarge
  · exact fun hlarge => ⟨old, new, compressed, h, hlarge⟩

/-- The exits behind the writing of the diff are not taken as long as nothing is written. -/
theorem not_leavesJob (hread : e.faults (.readJob k) = none)
    (hwritten : ¬ DiffWritten X e k s fromVersion toVersion) :
    ¬ LeavesJob X e k s fromVersion toVersion :=
  fun h => h.elim (· hread) fun h => hwritten h.1

/-- As long as nothing has been written or skipped, to stop is to fail. -/
theorem JobLeft.failsTo_generation (hupdates : UpdatesSucceed e k)
    (hread : e.faults (.readJob k) = none)
    (hleft : JobLeft s (e.uuid (.job k)) (· = .running) s')
    (hwritten : ¬ DiffWritten X e k s fromVersion toVersion)
    (hskipped : ¬ DiffSkipped X e k s fromVersion toVersion) :
    FailsTo e k (e.uuid (.job k))
      (fun err s'' => GenerationEnds X e k s fromVersion toVersion (.error err) s'') s' :=
  hleft.failsTo hupdates.setFailed fun err s'' hfailed =>
    .failed err s'' hwritten hskipped (not_leavesJob hread hwritten) hfailed

/-- A generation that has no patch fails. -/
theorem JobLeft.failsTo_of_uncomputed (hupdates : UpdatesSucceed e k)
    (hread : e.faults (.readJob k) = none)
    (hleft : JobLeft s (e.uuid (.job k)) (· = .running) s')
    (hnone : ∀ old new compressed,
      ¬ DiffComputed X e k s fromVersion toVersion old new compressed) :
    FailsTo e k (e.uuid (.job k))
      (fun err s'' => GenerationEnds X e k s fromVersion toVersion (.error err) s'') s' := by
  refine hleft.failsTo_generation hupdates hread (fun hwritten => ?_) fun hskipped => ?_
  · obtain ⟨_, old, new, compressed, h, _⟩ := hwritten
    exact hnone old new compressed h
  · obtain ⟨old, new, compressed, h, _⟩ := hskipped
    exact hnone old new compressed h

/-- A diff that is not smaller than the new binary is skipped. -/
theorem wp_skipDiff {old new compressed : Bytes} {reason : String}
    {E : String → Project → Prop} (hupdates : UpdatesSucceed e k)
    (hread : e.faults (.readJob k) = none)
    (hleft : JobLeft s (e.uuid (.job k)) (· = .running) s')
    (hcomputed : DiffComputed X e k s fromVersion toVersion old new compressed)
    (hlarge : new.length ≤ compressed.length) :
    wp (dbUpdate e (.setFailed k) (PublisherDb.setDiffJobFailed (e.uuid (.job k)) reason))
      (fun _ s'' => GenerationEnds X e k s fromVersion toVersion (.ok none) s'') E s' := by
  have hwritten : ¬ DiffWritten X e k s fromVersion toVersion := fun h =>
    absurd (hcomputed.written_iff.mp h).2 (Nat.not_lt.mpr hlarge)
  rw [PublisherDb.setDiffJobFailed]
  exact wp_markJob hupdates.setFailed hleft (q := (· = .failed)) (fun _ => rfl)
    fun _ hfailed =>
      .skipped _ (hcomputed.skipped_iff.mpr hlarge) (not_leavesJob hread hwritten) hfailed

/-- A BLAKE3 hash has the size that the completion of a job asks for. -/
theorem setDiffJobCompleted_eq (jobId path : String) (size : Nat) (hash : Hash) :
    PublisherDb.setDiffJobCompleted jobId path size hash.val =
      PublisherDb.updateDiffJob jobId (fun j => { j with
        status := .completed
        diffPath := some path
        diffSizeBytes := some size
        diffHashBlake3 := some hash.val }) (fun _ => rfl) := by
  funext db
  simp [PublisherDb.setDiffJobCompleted, validateHashSize, blake3HashSize, hash.property, bind,
    Except.bind]

/-- Once the diff is written the generation completes its job, or it leaves it running. -/
theorem wp_finishDiff {path : List Char} {compressed : Bytes} {d : String → DiffResult}
    (hupdates : UpdatesSucceed e k) (hread : e.faults (.readJob k) = none)
    (hleft : JobLeft s (e.uuid (.job k)) (· = .running) s')
    (hwritten : DiffWritten X e k s fromVersion toVersion)
    (hcontent : s'.content path = some compressed) (hshort : compressed.length < i64Size) :
    wp (verifyDiff X e k (e.uuid (.job k)) path (X.crypto.blake3 compressed))
      (fun hash => wp (diffPathText e k path)
        (fun text => wp (dbUpdate e (.setCompleted k) (PublisherDb.setDiffJobCompleted
            (e.uuid (.job k)) text compressed.length hash.val))
          (fun _ s'' => GenerationEnds X e k s fromVersion toVersion (.ok (some (d text))) s'')
          (fun err s'' => GenerationEnds X e k s fromVersion toVersion (.error err) s''))
        (fun err s'' => GenerationEnds X e k s fromVersion toVersion (.error err) s''))
      (fun err s'' => GenerationEnds X e k s fromVersion toVersion (.error err) s'') s' := by
  have hstopped : e.faults (.hashDiff k) ≠ none ∨ e.faults (.diffPathText k) ≠ none →
      ∀ err, GenerationEnds X e k s fromVersion toVersion (.error err) s' := fun hwhy err =>
    .left err _ (.inr ⟨hwritten, hwhy⟩) (hleft.mono fun _ => .inr)
  refine wp_verifyDiff hcontent (fun hhash => ?_) fun err hwhy =>
    hstopped (.inl (hwhy.resolve_right (not_not.mpr hshort))) err
  refine wp_diffPathText (fun htext => ?_) fun err hwhy => hstopped (.inr hwhy) err
  rw [setDiffJobCompleted_eq]
  refine wp_markJob hupdates.setCompleted hleft (q := (· = .completed)) (fun _ => rfl)
    fun db hdone => ?_
  exact .completed _ _ hwritten (fun h => h.elim (· hread) fun h => h.2.elim (· hhash) (· htext))
    hdone

/-- Every exit behind the insertion. -/
theorem wp_generateSingleDiff_ends {row : DbDiffJob} {db : PublisherDb}
    (hupdates : UpdatesSucceed e k) (hfault : e.faults (.insertJob k) = none)
    (hinsert : PublisherDb.insertDiffJob (e.uuid (.job k)) fromVersion.versionId
      toVersion.versionId defaultAlgorithm s.db = .ok (row, db)) :
    wp (generateSingleDiff X e k fromVersion toVersion outputDir)
      (fun r s' => GenerationEnds X e k s fromVersion toVersion (.ok r) s')
      (fun err s' => GenerationEnds X e k s fromVersion toVersion (.error err) s') s := by
  obtain ⟨hadded, hid, -, -, hpending⟩ := jobAdded_insert hinsert
  have hstart : JobLeft s (e.uuid (.job k)) (· = .pending) { s with db := db } :=
    ⟨row, hadded, hid, hpending⟩
  unfold generateSingleDiff
  simp only [wp_bind]
  refine wp_dbInsert_of hfault hinsert ?_
  rw [hid]
  by_cases hread : e.faults (.readJob k) = none
  · refine wp_hostOp_of hread ?_
    refine wp_markJob hupdates.setRunning hstart (q := (· = .running)) (fun _ => rfl)
      fun db' hrunning => ?_
    refine wp_readBinaries (fun old new hbinaries => ?_) fun hnone =>
      hrunning.failsTo_of_uncomputed hupdates hread fun old new compressed h =>
        hnone old new (binariesRead_db.mpr (binariesRead_db.mpr h.binaries))
    rw [binariesRead_db, binariesRead_db] at hbinaries
    refine wp_computeDiff (fun raw compressed hraw hencoded => ?_) fun hnone =>
      hrunning.failsTo_of_uncomputed hupdates hread fun old' new' compressed h => ?_
    · have hcomputed : DiffComputed X e k s fromVersion toVersion old new compressed :=
        ⟨hbinaries, raw, hraw, hencoded⟩
      split
      · next hlarge =>
          rw [wp_bind]
          exact wp_skipDiff hupdates hread hrunning hcomputed hlarge
      · next hsmaller =>
          have hskipped : ¬ DiffSkipped X e k s fromVersion toVersion := fun h =>
            hsmaller (hcomputed.skipped_iff.mp h)
          have hlt := Nat.lt_of_not_le hsmaller
          simp only [wp_bind]
          refine wp_writeDiff (fun hwrite => ?_) fun hwrite n =>
            (hrunning.files _).failsTo_generation hupdates hread
              (fun h => hwrite (hcomputed.written_iff.mp h).1) hskipped
          refine wp_finishDiff hupdates hread (hrunning.files _)
            (hcomputed.written_iff.mpr ⟨hwrite, hlt⟩) ?_ (hlt.trans hbinaries.targetSize)
          exact Files.read_write_self _ _ _
    · obtain ⟨raw, hraw, hencoded⟩ := h.patch
      obtain rfl := Option.some.inj (hbinaries.source.symm.trans h.binaries.source)
      obtain rfl := Option.some.inj (hbinaries.target.symm.trans h.binaries.target)
      exact hnone raw compressed hraw hencoded
  · exact wp_hostOp_error hread fun err =>
      .left err _ (.inl hread) (hstart.mono fun _ => .inl)

/-- The end of a generation that has inserted its job. -/
theorem generationEnds {row : DbDiffJob} {db : PublisherDb} (hupdates : UpdatesSucceed e k)
    (hfault : e.faults (.insertJob k) = none)
    (hinsert : PublisherDb.insertDiffJob (e.uuid (.job k)) fromVersion.versionId
      toVersion.versionId defaultAlgorithm s.db = .ok (row, db)) :
    GenerationEnds X e k s fromVersion toVersion
      (exec (generateSingleDiff X e k fromVersion toVersion outputDir) s).1
      (exec (generateSingleDiff X e k fromVersion toVersion outputDir) s).2 := by
  generalize hexec : exec (generateSingleDiff X e k fromVersion toVersion outputDir) s = out
  obtain ⟨r, s'⟩ := out
  cases r with
  | ok r => exact wp_exec_ok (wp_generateSingleDiff_ends hupdates hfault hinsert) hexec
  | error err => exact wp_exec_error (wp_generateSingleDiff_ends hupdates hfault hinsert) hexec

/-- A job that was inserted is in a final state afterwards, unless one of the exits is taken
that leave it as it is. -/
theorem jobSettled_iff {row : DbDiffJob} {db : PublisherDb} (hupdates : UpdatesSucceed e k)
    (hfault : e.faults (.insertJob k) = none)
    (hinsert : PublisherDb.insertDiffJob (e.uuid (.job k)) fromVersion.versionId
      toVersion.versionId defaultAlgorithm s.db = .ok (row, db)) :
    JobSettled (e.uuid (.job k))
        (exec (generateSingleDiff X e k fromVersion toVersion outputDir) s).1
        (exec (generateSingleDiff X e k fromVersion toVersion outputDir) s).2 ↔
      ¬ LeavesJob X e k s fromVersion toVersion := by
  have hends := @generationEnds X e k s fromVersion toVersion outputDir _ _ hupdates hfault hinsert
  generalize (exec (generateSingleDiff X e k fromVersion toVersion outputDir) s).1 = r at hends ⊢
  generalize (exec (generateSingleDiff X e k fromVersion toVersion outputDir) s).2 = s' at hends ⊢
  cases hends with
  | completed d _ h hleaves hjob => exact iff_of_true hjob.settled_completed hleaves
  | skipped _ h hleaves hjob => exact iff_of_true hjob.settled_failed hleaves
  | failed err _ hwritten hskipped hleaves hjob => exact iff_of_true hjob.settled_failed hleaves
  | left err _ hleaves hjob => exact iff_of_false hjob.not_settled (not_not.mpr hleaves)

end Settled

/-! ## the sample job -/

/-- The version that the sample diff starts from. -/
def sampleFrom : DbVersion := sampleDbVersion "1.0.0" "v1" []

/-- The version that the sample diff makes. -/
def sampleTo : DbVersion := sampleDbVersion "1.1.0" "v2" (List.replicate 24 7)

/-- The sample job as it is inserted. -/
def sampleStarted : DbDiffJob where
  jobId := "j0"
  fromVersionId := "v1"
  toVersionId := "v2"
  diffAlgorithm := "bsdiff"

theorem insert_sampleStarted :
    PublisherDb.insertDiffJob (samplePublisherEnv.uuid (.job 0)) sampleFrom.versionId
        sampleTo.versionId defaultAlgorithm sampleProject.db =
      .ok (sampleStarted,
        { sampleProject.db with diffJobs := ⟨[sampleStarted], by decide⟩ }) := by
  decide

/-- Nothing fails, and the sample job is settled. -/
theorem jobSettled_sample :
    JobSettled (samplePublisherEnv.uuid (.job 0))
      (exec (generateSingleDiff samplePublisherCrates samplePublisherEnv 0 sampleFrom sampleTo
        (binaryDiffDir "app")) sampleProject).1
      (exec (generateSingleDiff samplePublisherCrates samplePublisherEnv 0 sampleFrom sampleTo
        (binaryDiffDir "app")) sampleProject).2 :=
  (jobSettled_iff ⟨rfl, rfl, rfl⟩ rfl insert_sampleStarted).mpr
    (by simp [LeavesJob, samplePublisherEnv])

/-- The file of the sample diff cannot be hashed. -/
def unhashedEnv : PublisherEnv :=
  { samplePublisherEnv with
    faults := fun site =>
      if site = .hashDiff 0 then some ⟨"Permission denied (os error 13)", 0⟩ else none }

/-- The file cannot be hashed after it was written, and the sample job is left running. -/
theorem jobSettled_unhashed :
    UpdatesSucceed unhashedEnv 0 ∧ unhashedEnv.faults (.insertJob 0) = none ∧
      (exec (generateSingleDiff samplePublisherCrates unhashedEnv 0 sampleFrom sampleTo
        (binaryDiffDir "app")) sampleProject).2.db.diffJobs.rows =
          [{ sampleStarted with status := .running }] ∧
      ¬ JobSettled (unhashedEnv.uuid (.job 0))
        (exec (generateSingleDiff samplePublisherCrates unhashedEnv 0 sampleFrom sampleTo
          (binaryDiffDir "app")) sampleProject).1
        (exec (generateSingleDiff samplePublisherCrates unhashedEnv 0 sampleFrom sampleTo
          (binaryDiffDir "app")) sampleProject).2 := by
  have hjobs : (exec (generateSingleDiff samplePublisherCrates unhashedEnv 0 sampleFrom sampleTo
      (binaryDiffDir "app")) sampleProject).2.db.diffJobs.rows =
        [{ sampleStarted with status := .running }] := by
    decide
  exact ⟨⟨rfl, rfl, rfl⟩, rfl, hjobs, by simp [JobSettled, Table.mem_def, hjobs]⟩

end Deltaship
