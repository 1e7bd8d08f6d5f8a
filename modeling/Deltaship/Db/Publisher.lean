import Deltaship.Db.Models
import Deltaship.Lib.Prog
import Deltaship.Lib.Table
import Mathlib.Data.List.Sort

/-!
# Deltaship.Db.Publisher

The publisher database: its binaries, their versions and the diff jobs between
versions, with the operations of `PublisherDb` that the commands use.

The primary keys are carried by the tables, and the other uniqueness constraints
are checked where a row is inserted.  The ids of new rows are inputs.  Columns that
no modelled command reads are left out: the description of a binary and the times of a
job.  Whether a version is published is beside these tables, in `Publisher.Publish`.
-/

namespace Deltaship

/-! ## rows -/

/-- A row of `binaries`. -/
structure DbBinary where
  binaryId : String
  binaryName : String
  platform : String
  /-- The canonical path of the first file. -/
  binaryPath : String
deriving DecidableEq, Repr

/-- A row of `versions`.  `createdAt` is the second of insertion. -/
structure DbVersion where
  versionId : String
  binaryId : String
  versionString : String
  filePath : String
  fileSizeBytes : Nat
  fileHashBlake3 : Bytes
  fileHashSha256 : Bytes
  signatureEd25519 : Option Bytes
  signatureTimestamp : Option String
  createdAt : Nat
deriving DecidableEq, Repr

/-- `DiffJobStatus`. -/
inductive DiffJobStatus where
  | pending | running | completed | failed
deriving DecidableEq, Repr

/-- A row of `diff_jobs`. -/
structure DbDiffJob where
  jobId : String
  fromVersionId : String
  toVersionId : String
  diffAlgorithm : String
  status : DiffJobStatus := .pending
  diffPath : Option String := none
  diffSizeBytes : Option Nat := none
  diffHashBlake3 : Option Bytes := none
  errorMessage : Option String := none
deriving DecidableEq, Repr

/-- Whether a job is from or to a version. -/
def DbDiffJob.touches (j : DbDiffJob) (versionId : String) : Bool :=
  j.fromVersionId == versionId || j.toVersionId == versionId

/-- `NewVersion`. -/
structure NewVersion where
  binaryId : String
  versionString : String
  filePath : String
  fileSizeBytes : Nat
  fileHashBlake3 : Bytes
  fileHashSha256 : Bytes
deriving DecidableEq, Repr

/-- `KNOWN_DIFF_ALGORITHMS`. -/
def knownDiffAlgorithms : List String := ["bsdiff", "courgette", "xdelta3"]

/-- `validate_diff_algorithm`. -/
def validateDiffAlgorithm (algorithm : String) : Except DbError Unit :=
  if Text.asciiLower algorithm ∈ knownDiffAlgorithms then .ok ()
  else .error (.invalidData
    s!"Unknown diff algorithm '{algorithm}'. Valid algorithms: bsdiff, courgette, xdelta3")

/-- The publisher's database. -/
structure PublisherDb where
  binaries : Table DbBinary String (·.binaryId)
  versions : Table DbVersion String (·.versionId)
  diffJobs : Table DbDiffJob String (·.jobId)
deriving DecidableEq

namespace PublisherDb

/-- The database after `init`. -/
def empty : PublisherDb := ⟨Table.empty, Table.empty, Table.empty⟩

/-! ## binaries -/

/-- `get_binary`. -/
def getBinary (db : PublisherDb) (binaryId : String) : Option DbBinary :=
  db.binaries.find fun b => b.binaryId == binaryId

/-- `get_binary_by_name`. -/
def getBinaryByName (db : PublisherDb) (binaryName platform : String) : Option DbBinary :=
  db.binaries.find fun b => b.binaryName == binaryName && b.platform == platform

/-- `list_binaries`: ordered by name. -/
def listBinaries (db : PublisherDb) : List DbBinary :=
  db.binaries.rows.insertionSort fun a b => a.binaryName ≤ b.binaryName

theorem mem_listBinaries {db : PublisherDb} {b : DbBinary} :
    b ∈ db.listBinaries ↔ b ∈ db.binaries := List.mem_insertionSort _

/-- `insert_binary`; `binaryPath` is what the check of the file gives. -/
def insertBinary (id binaryName platform : String) (binaryPath : Except DbError String)
    (db : PublisherDb) : Except DbError (DbBinary × PublisherDb) := do
  validatePlatform platform
  let canonicalPath ← binaryPath
  Except.ensure (db.getBinaryByName binaryName platform = none)
    (.duplicate "UNIQUE constraint failed: binaries.binary_name, binaries.platform")
  let row : DbBinary := ⟨id, binaryName, platform, canonicalPath⟩
  let binaries ← Except.ofOption (.duplicate "UNIQUE constraint failed: binaries.binary_id")
    (db.binaries.insert row)
  pure (row, { db with binaries })

/-- A binary is inserted with its path made absolute, if it is new. -/
theorem insertBinary_eq_ok {id binaryName platform : String} {binaryPath : Except DbError String}
    {db db' : PublisherDb} {row : DbBinary}
    (h : insertBinary id binaryName platform binaryPath db = .ok (row, db')) :
    ∃ canonicalPath binaries, binaryPath = .ok canonicalPath ∧
      row = ⟨id, binaryName, platform, canonicalPath⟩ ∧
      db.getBinaryByName binaryName platform = none ∧
      db.binaries.insert row = some binaries ∧ db' = { db with binaries } := by
  unfold insertBinary at h
  obtain ⟨_, -, h⟩ := Except.bind_eq_ok.mp h
  obtain ⟨canonicalPath, hpath, h⟩ := Except.bind_eq_ok.mp h
  obtain ⟨_, hnone, h⟩ := Except.bind_eq_ok.mp h
  obtain ⟨binaries, hbinaries, h⟩ := Except.bind_eq_ok.mp h
  obtain ⟨rfl, rfl⟩ := Prod.mk.inj (Except.ok.inj h)
  exact ⟨canonicalPath, binaries, hpath, rfl, Except.ensure_eq_ok.mp hnone,
    Except.ofOption_eq_ok.mp hbinaries, rfl⟩

/-! ## versions -/

/-- `get_version`. -/
def getVersion (db : PublisherDb) (versionId : String) : Option DbVersion :=
  db.versions.find fun v => v.versionId == versionId

/-- `get_version_by_string`. -/
def getVersionByString (db : PublisherDb) (binaryId versionString : String) : Option DbVersion :=
  db.versions.find fun v => v.binaryId == binaryId && v.versionString == versionString

theorem getVersion_of_mem {db : PublisherDb} {v : DbVersion} (h : v ∈ db.versions) :
    db.getVersion v.versionId = some v :=
  Table.find_of_unique h (beq_self_eq_true _) fun _ hv' hkey =>
    Table.eq_of_key_eq hv' h (beq_iff_eq.mp hkey)

/-- `list_versions`: newest first. -/
def listVersions (db : PublisherDb) (binaryId : String) : List DbVersion :=
  (db.versions.rows.filter fun v => v.binaryId == binaryId).insertionSort
    fun a b => b.createdAt ≤ a.createdAt

/-- What is listed are the versions of the binary. -/
theorem mem_listVersions {db : PublisherDb} {binaryId : String} {v : DbVersion} :
    v ∈ db.listVersions binaryId ↔ v ∈ db.versions ∧ v.binaryId = binaryId := by
  unfold listVersions
  rw [List.mem_insertionSort, List.mem_filter, beq_iff_eq]
  rfl

/-- `insert_version`. -/
def insertVersion (S : SemverCrate) (id : String) (now : Nat) (version : NewVersion)
    (db : PublisherDb) : Except DbError (DbVersion × PublisherDb) := do
  validateHashSize version.fileHashBlake3 blake3HashSize "Blake3"
  validateHashSize version.fileHashSha256 sha256HashSize "SHA-256"
  let normalizedVersion ← normalizeVersionString S version.versionString
  Except.ensure ((db.getBinary version.binaryId).isSome = true)
    (.constraintViolation "FOREIGN KEY constraint failed")
  Except.ensure (db.getVersionByString version.binaryId normalizedVersion = none)
    (.duplicate "UNIQUE constraint failed: versions.binary_id, versions.version_string")
  let row : DbVersion :=
    ⟨id, version.binaryId, normalizedVersion, version.filePath, version.fileSizeBytes,
      version.fileHashBlake3, version.fileHashSha256, none, none, now⟩
  let versions ← Except.ofOption (.duplicate "UNIQUE constraint failed: versions.version_id")
    (db.versions.insert row)
  pure (row, { db with versions })

/-- A version is inserted with its text normalized, if it is new and its fields are accepted. -/
theorem insertVersion_eq_ok {S : SemverCrate} {id : String} {now : Nat} {version : NewVersion}
    {db db' : PublisherDb} {row : DbVersion}
    (h : insertVersion S id now version db = .ok (row, db')) :
    ∃ normalizedVersion versions,
      normalizeVersionString S version.versionString = .ok normalizedVersion ∧
      row = ⟨id, version.binaryId, normalizedVersion, version.filePath, version.fileSizeBytes,
        version.fileHashBlake3, version.fileHashSha256, none, none, now⟩ ∧
      validateHashSize version.fileHashBlake3 blake3HashSize "Blake3" = .ok () ∧
      db.versions.insert row = some versions ∧ db' = { db with versions } := by
  unfold insertVersion at h
  obtain ⟨_, hsize, h⟩ := Except.bind_eq_ok.mp h
  obtain ⟨_, -, h⟩ := Except.bind_eq_ok.mp h
  obtain ⟨normalizedVersion, hnormalized, h⟩ := Except.bind_eq_ok.mp h
  obtain ⟨_, -, h⟩ := Except.bind_eq_ok.mp h
  obtain ⟨_, -, h⟩ := Except.bind_eq_ok.mp h
  obtain ⟨versions, hversions, h⟩ := Except.bind_eq_ok.mp h
  obtain ⟨rfl, rfl⟩ := Prod.mk.inj (Except.ok.inj h)
  exact ⟨normalizedVersion, versions, hnormalized, rfl, hsize,
    Except.ofOption_eq_ok.mp hversions, rfl⟩

/-- A version that is inserted is the only one of its binary with its text. -/
theorem getVersionByString_of_insertVersion {S : SemverCrate} {id : String} {now : Nat}
    {version : NewVersion} {db db' : PublisherDb} {row : DbVersion}
    (h : insertVersion S id now version db = .ok (row, db')) :
    db.getVersionByString version.binaryId row.versionString = none := by
  unfold insertVersion at h
  obtain ⟨_, -, h⟩ := Except.bind_eq_ok.mp h
  obtain ⟨_, -, h⟩ := Except.bind_eq_ok.mp h
  obtain ⟨normalizedVersion, -, h⟩ := Except.bind_eq_ok.mp h
  obtain ⟨_, -, h⟩ := Except.bind_eq_ok.mp h
  obtain ⟨_, hnone, h⟩ := Except.bind_eq_ok.mp h
  obtain ⟨versions, -, h⟩ := Except.bind_eq_ok.mp h
  obtain ⟨rfl, -⟩ := Prod.mk.inj (Except.ok.inj h)
  exact Except.ensure_eq_ok.mp hnone

/-- An `UPDATE` of one version; it fails if there is no such row. -/
def updateVersion (versionId : String) (f : DbVersion → DbVersion)
    (hf : ∀ v, (f v).versionId = v.versionId) (db : PublisherDb) : Except DbError PublisherDb :=
  if (db.getVersion versionId).isSome then
    .ok { db with versions := db.versions.update (fun v => v.versionId == versionId) f hf }
  else .error (.notFound s!"Version not found: '{versionId}'")

/-- `set_version_signature`. -/
def setVersionSignature (versionId : String) (signature : Bytes) (timestamp : String) :
    PublisherDb → Except DbError PublisherDb :=
  updateVersion versionId
    (fun v => { v with
      signatureEd25519 := some signature
      signatureTimestamp := some timestamp }) fun _ => rfl

/-- `update_version_hashes`. -/
def updateVersionHashes (versionId : String) (blake3Hash sha256Hash : Bytes) (fileSizeBytes : Nat)
    (db : PublisherDb) : Except DbError PublisherDb := do
  validateHashSize blake3Hash blake3HashSize "Blake3"
  validateHashSize sha256Hash sha256HashSize "SHA-256"
  updateVersion versionId
    (fun v => { v with
      fileHashBlake3 := blake3Hash
      fileHashSha256 := sha256Hash
      fileSizeBytes := fileSizeBytes }) (fun _ => rfl) db

/-- `delete_version`, with the jobs that the foreign keys take along. -/
def deleteVersion (versionId : String) (db : PublisherDb) : PublisherDb :=
  { db with
    versions := db.versions.delete fun v => v.versionId == versionId
    diffJobs := db.diffJobs.delete fun j => j.touches versionId }

/-! ## diff jobs -/

/-- `get_diff_job`. -/
def getDiffJob (db : PublisherDb) (jobId : String) : Option DbDiffJob :=
  db.diffJobs.find fun j => j.jobId == jobId

/-- `insert_diff_job`. -/
def insertDiffJob (id fromVersionId toVersionId diffAlgorithm : String) (db : PublisherDb) :
    Except DbError (DbDiffJob × PublisherDb) := do
  let fromVersion ← Except.ofOption (.notFound s!"From version not found: '{fromVersionId}'")
    (db.getVersion fromVersionId)
  let toVersion ← Except.ofOption (.notFound s!"To version not found: '{toVersionId}'")
    (db.getVersion toVersionId)
  Except.ensure (fromVersion.binaryId = toVersion.binaryId)
    (.invalidData (s!"Cannot create diff job: versions belong to different binaries. " ++
      s!"From version '{fromVersionId}' belongs to binary '{fromVersion.binaryId}', " ++
      s!"to version '{toVersionId}' belongs to binary '{toVersion.binaryId}'"))
  validateDiffAlgorithm diffAlgorithm
  Except.ensure
    ((db.diffJobs.find fun j => j.fromVersionId == fromVersionId && j.toVersionId == toVersionId &&
      j.diffAlgorithm == diffAlgorithm) = none)
    (.duplicate "UNIQUE constraint failed: diff_jobs.from_version_id, diff_jobs.to_version_id, diff_jobs.diff_algorithm")
  let row : DbDiffJob :=
    { jobId := id, fromVersionId := fromVersionId, toVersionId := toVersionId,
      diffAlgorithm := diffAlgorithm }
  let diffJobs ← Except.ofOption (.duplicate "UNIQUE constraint failed: diff_jobs.job_id")
    (db.diffJobs.insert row)
  pure (row, { db with diffJobs })

/-- `list_diff_jobs_by_status`, in the order of insertion. -/
def listDiffJobsByStatus (db : PublisherDb) (status : DiffJobStatus) : List DbDiffJob :=
  db.diffJobs.rows.filter fun j => j.status == status

/-- `delete_diff_job`. -/
def deleteDiffJob (jobId : String) (db : PublisherDb) : PublisherDb :=
  { db with diffJobs := db.diffJobs.delete fun j => j.jobId == jobId }

/-- `delete_diff_jobs_for_version`. -/
def deleteDiffJobsForVersion (versionId : String) (db : PublisherDb) : PublisherDb :=
  { db with diffJobs := db.diffJobs.delete fun j => j.touches versionId }

/-- An `UPDATE` of one job; it fails if there is no such row. -/
def updateDiffJob (jobId : String) (f : DbDiffJob → DbDiffJob) (hf : ∀ j, (f j).jobId = j.jobId)
    (db : PublisherDb) : Except DbError PublisherDb :=
  if (db.getDiffJob jobId).isSome then
    .ok { db with diffJobs := db.diffJobs.update (fun j => j.jobId == jobId) f hf }
  else .error (.notFound s!"Diff job not found: '{jobId}'")

/-- `set_diff_job_running`. -/
def setDiffJobRunning (jobId : String) : PublisherDb → Except DbError PublisherDb :=
  updateDiffJob jobId (fun j => { j with status := .running }) fun _ => rfl

/-- `set_diff_job_completed`. -/
def setDiffJobCompleted (jobId diffPath : String) (diffSizeBytes : Nat) (diffHashBlake3 : Bytes)
    (db : PublisherDb) : Except DbError PublisherDb := do
  validateHashSize diffHashBlake3 blake3HashSize "Diff Blake3"
  updateDiffJob jobId
    (fun j => { j with
      status := .completed
      diffPath := some diffPath
      diffSizeBytes := some diffSizeBytes
      diffHashBlake3 := some diffHashBlake3 }) (fun _ => rfl) db

/-- `set_diff_job_failed`. -/
def setDiffJobFailed (jobId errorMessage : String) : PublisherDb → Except DbError PublisherDb :=
  updateDiffJob jobId
    (fun j => { j with
      status := .failed
      errorMessage := some errorMessage }) fun _ => rfl

end PublisherDb

end Deltaship
