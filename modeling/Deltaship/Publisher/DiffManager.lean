import Deltaship.Publisher.Project

/-!
# Deltaship.Publisher.DiffManager

`diff_manager.rs`: the generation of a diff between two registered versions, and of
the diffs from the previous versions to a new one.

A job is inserted first and marked as failed wherever the generation stops with a
message; the diff is written to a file whose name has the two versions in it.
-/

namespace Deltaship

open Prog Lexical

/-- `DEFAULT_DIFF_COUNT`. -/
def defaultDiffCount : Nat := 3

/-- `DEFAULT_ALGORITHM`. -/
def defaultAlgorithm : String := "bsdiff"

/-- `DELTASHIP_DIR`. -/
def deltashipDir : String := ".deltaship"

/-- The output directory of `DiffManager::new`. -/
def diffsOutputDir : List Char := join deltashipDir.toList "diffs".toList

/-- The directory of the diffs of a binary. -/
def binaryDiffDir (binaryName : String) : List Char := join diffsOutputDir binaryName.toList

/-- The file that a diff is written to. -/
def diffFilePath (outputDir : List Char) (fromVersion toVersion : DbVersion) : List Char :=
  join outputDir s!"{fromVersion.versionString}-to-{toVersion.versionString}.patch".toList

/-- `DiffResult`, without the ratio and the time. -/
structure DiffResult where
  fromVersion : String
  toVersion : String
  diffPath : String
  diffSize : Nat
  jobId : String
deriving DecidableEq, Repr

/-- `hex::encode`. -/
def hexEncode (b : Bytes) : String :=
  String.ofList (b.flatMap fun x => [hexChar (x / 16), hexChar (x % 16)])

section Generate

variable (X : PublisherCrates) (e : PublisherEnv) (k : Nat)

/-- Mark the job as failed and stop with a message. -/
def failJob {α : Type} (jobId err : String) : PublisherM α := do
  dbUpdate e (.setFailed k) (PublisherDb.setDiffJobFailed jobId err)
  throw err

/-- `File::open`. -/
def openBinary (site : PublisherSite) (jobId what path : String) : PublisherM Unit := do
  match e.faults site with
  | some fault => failJob e k jobId s!"Failed to open {what} file {path}: {fault.text}"
  | none =>
    if ((← get).content path.toList).isSome then pure ()
    else failJob e k jobId s!"Failed to open {what} file {path}: {notFoundText}"

/-- The loop around `try_lock_shared`. -/
def lockBinary (site : PublisherSite) (jobId what path : String) : PublisherM Unit :=
  match e.faults site with
  | some fault => failJob e k jobId
      s!"Failed to acquire read lock on {what} file {path} after 5 retries: {fault.text}"
  | none => pure ()

/-- `read_to_end`. -/
def readBinary (site : PublisherSite) (jobId what path : String) : PublisherM Bytes := do
  match ← readAll e site path with
  | .ok b => pure b
  | .error text => failJob e k jobId s!"Failed to read {what} file {path}: {text}"

/-- The integrity check of a binary that was read. -/
def checkBinary (jobId what : String) (version : DbVersion) (data : Bytes) : PublisherM Unit :=
  if version.fileHashBlake3 ≠ [] ∧ (X.crypto.blake3 data).val ≠ version.fileHashBlake3 then
    failJob e k jobId
      (s!"{what} binary integrity check failed for {version.filePath}: hash mismatch " ++
        s!"(expected {hexEncode version.fileHashBlake3}, got {(X.crypto.blake3 data).toHex})")
  else pure ()

/-- Read the two binaries and check them. -/
def readBinaries (jobId : String) (fromVersion toVersion : DbVersion) :
    PublisherM (Bytes × Bytes) := do
  openBinary e k (.openSource k) jobId "source" fromVersion.filePath
  openBinary e k (.openTarget k) jobId "target" toVersion.filePath
  lockBinary e k (.lockSource k) jobId "source" fromVersion.filePath
  lockBinary e k (.lockTarget k) jobId "target" toVersion.filePath
  let old ← readBinary e k (.readSource k) jobId "source" fromVersion.filePath
  let new ← readBinary e k (.readTarget k) jobId "target" toVersion.filePath
  checkBinary X e k jobId "Source" fromVersion old
  checkBinary X e k jobId "Target" toVersion new
  pure (old, new)

/-- `generate_diff` and `compress_diff`. -/
def computeDiff (jobId : String) (old new : Bytes) : PublisherM Bytes :=
  match X.bsdiff old new with
  | .error msg => failJob e k jobId s!"Diff generation failed: failed to generate diff: {msg}"
  | .ok diff =>
    match X.zstdEncode diff with
    | .error msg => failJob e k jobId s!"Diff compression failed: I/O error: {msg}"
    | .ok compressed => pure compressed

/-- `fs::write` of the diff; a failing one has written the front of it. -/
def writeDiff (jobId : String) (path : List Char) (data : Bytes) : PublisherM Unit :=
  match e.faults (.writeDiff k) with
  | none => modify fun s => { s with files := s.files.write (s.resolve path) data }
  | some fault => do
      modify fun s => { s with files := s.files.write (s.resolve path) (data.take fault.done) }
      failJob e k jobId s!"Failed to write diff file {String.ofList path}: {fault.text}"

/-- Remove the file of a diff, if it can be removed. -/
def removeDiff (path : List Char) : PublisherM Unit :=
  match e.faults (.removeDiff k) with
  | none => modify fun s => { s with files := s.files.remove (s.resolve path) }
  | some _ => pure ()

/-- Hash the file that was written and compare it with what should be there. -/
def verifyDiff (jobId : String) (path : List Char) (expected : Hash) : PublisherM Hash := do
  match ← readAll e (.hashDiff k) (String.ofList path) with
  | .error text => throw text
  | .ok written =>
    let actual := X.crypto.blake3 written
    if actual ≠ expected then do
      let err := "Diff file write verification failed: hash mismatch. " ++
        s!"Expected {expected.toHex}, got {actual.toHex}"
      dbUpdate e (.setFailed k) (PublisherDb.setDiffJobFailed jobId err)
      removeDiff e k path
      throw err
    else pure actual

/-- `diff_path.to_str()`; a path that is not UTF-8 is an input of the command. -/
def diffPathText (path : List Char) : PublisherM String :=
  match e.faults (.diffPathText k) with
  | none => pure (String.ofList path)
  | some _ => throw s!"Diff path contains invalid UTF-8: {String.ofList path}"

/-- `generate_single_diff`, for the `k`-th diff of a command. -/
def generateSingleDiff (fromVersion toVersion : DbVersion) (outputDir : List Char) :
    PublisherM (Option DiffResult) := do
  let job ← dbInsert e (.insertJob k) (PublisherDb.insertDiffJob (e.uuid (.job k))
    fromVersion.versionId toVersion.versionId defaultAlgorithm)
  -- `insert_diff_job` reads the row back before it returns it.
  hostOp e (.readJob k)
  dbUpdate e (.setRunning k) (PublisherDb.setDiffJobRunning job.jobId)
  let path := diffFilePath outputDir fromVersion toVersion
  let (old, new) ← readBinaries X e k job.jobId fromVersion toVersion
  let compressed ← computeDiff X e k job.jobId old new
  if compressed.length ≥ new.length then do
    dbUpdate e (.setFailed k) (PublisherDb.setDiffJobFailed job.jobId
      (s!"Skipped: compressed delta ({compressed.length} bytes) >= full binary " ++
        s!"({new.length} bytes); client will use full binary download"))
    pure none
  else do
    writeDiff e k job.jobId path compressed
    let hash ← verifyDiff X e k job.jobId path (X.crypto.blake3 compressed)
    let text ← diffPathText e k path
    dbUpdate e (.setCompleted k) (PublisherDb.setDiffJobCompleted job.jobId text
      compressed.length hash.val)
    pure (some ⟨fromVersion.versionString, toVersion.versionString, text, compressed.length,
      job.jobId⟩)

end Generate

section Commands

variable (X : PublisherCrates) (e : PublisherEnv)

/-- The loop of `generate_diff_for_version`: a diff that fails is passed over. -/
def generateAll (newVersion : DbVersion) (outputDir : List Char) :
    List DbVersion → Nat → PublisherM (List DiffResult)
  | [], _ => pure []
  | old :: rest, k => do
      let result ← attempt (generateSingleDiff X e k old newVersion outputDir)
      let results ← generateAll newVersion outputDir rest (k + 1)
      match result with
      | .ok (some r) => pure (r :: results)
      | _ => pure results

/-- The previous versions that `generate_diff_for_version` takes. -/
def previousVersions (db : PublisherDb) (binaryId versionId : String) : List DbVersion :=
  ((db.listVersions binaryId).filter fun v => v.versionId != versionId).take defaultDiffCount

/-- `generate_diff_for_version`. -/
def generateDiffForVersion (binaryName binaryId : String) (newVersion : DbVersion) :
    PublisherM (List DiffResult) := do
  let previous ← dbRead e .listVersions fun db => previousVersions db binaryId newVersion.versionId
  if previous.isEmpty then pure []
  else do
    hostOp e .diffsDir
    generateAll X e newVersion (binaryDiffDir binaryName) previous 0

/-- `generate_diff_between`. -/
def generateDiffBetween (binaryName platform fromString toString : String)
    (outputPath : Option String) : PublisherM (Option DiffResult) := do
  let binary? ← dbRead e .getBinary fun db => db.getBinaryByName binaryName platform
  let binary ← Prog.ofExcept (Except.ofOption s!"Binary not found: {binaryName} ({platform})" binary?)
  let from? ← dbRead e .getVersion fun db => db.getVersionByString binary.binaryId fromString
  let fromVersion ← Prog.ofExcept (Except.ofOption s!"Version not found: {fromString}" from?)
  let to? ← dbRead e .getVersion fun db => db.getVersionByString binary.binaryId toString
  let toVersion ← Prog.ofExcept (Except.ofOption s!"Version not found: {toString}" to?)
  hostOp e .diffsDir
  generateSingleDiff X e 0 fromVersion toVersion
    ((outputPath.map String.toList).getD (binaryDiffDir binaryName))

end Commands

end Deltaship
