import Deltaship.Client.Checker
import Deltaship.Client.InstallPath

/-!
# Deltaship.Client.Patcher

`apply_update` and what it calls: back up the installed binary, obtain the new
one (by a diff against the installed file, else as a whole), check its BLAKE3
checksum and the publisher's signature, rename it into place, keep the
signature beside it, and record the result in the database; on a failed update,
copy the backup back.

`execute_update` is one long function in the source.  It is cut here at its own
landmarks -- `obtainBinary`, `checkSource`, `verifySignature`, `installBinary`,
`verifyInstalled`, `persistSidecar` -- and `executeUpdate` runs them in order.
Likewise `apply_update` is cut into the steps before the update
(`checkSpace`, `makeBackup`), its success arm (`finishUpdate`) and its failure
arm (`restoreBackup`).

Progress bars, tracing and measured times are left out.
-/

namespace Deltaship

/-- `BinarySource`: where the new binary is. -/
inductive BinarySource where
  | inMemory (data : Bytes)
  | onDisk (path : String)
deriving DecidableEq, Repr

/-- `MAX_SIGNATURE_SIZE`. -/
def maxSignatureSize : Nat := 500 * 1024 * 1024

/-- The first bytes of a zstd frame. -/
def zstdMagic : Bytes := [0x28, 0xB5, 0x2F, 0xFD]

section Patcher

variable (X : Crates) (e : Env)

/-- `hash_file`. -/
def hashFile (site : Site) (p : String) : M Hash := do
  let b ← readFile e site p
  pure (X.crypto.blake3 b)

/-- `sha256_file`. -/
def sha256File (site : Site) (p : String) : M (ByteVec 32) := do
  let b ← readFile e site p
  pure (X.crypto.sha256 b)

/-- Hand on the result of the crypto library. -/
def ofCrypto {α : Type} (r : Except CryptoError α) : M α :=
  Prog.ofExcept (r.mapError CryptoError.text)

/-! ## the source of the new binary -/

namespace BinarySource

/-- The hash `verify_checksum` compares. -/
def hash : BinarySource → M Hash
  | .inMemory data => pure (X.crypto.blake3 data)
  | .onDisk path => hashFile X e .hashSource path

/-- `BinarySource::verify_checksum`. -/
def verifyChecksum (src : BinarySource) (expected : Hash) : M Unit := do
  let actual ← src.hash X e
  emit (.checksum expected actual)
  bailIf (expected ≠ actual)
    s!"Binary checksum mismatch: expected {expected.toHex}, got {actual.toHex}"

/-- `BinarySource::read_for_verification`. -/
def readForVerification : BinarySource → M Bytes
  | .inMemory data => pure data
  | .onDisk path => do
      let size ← fileLen e .sourceMetadata path
      bailIf (size > maxSignatureSize)
        s!"Binary too large for signature verification: {size / 1024 / 1024} MB exceeds {maxSignatureSize / 1024 / 1024} MB limit. Consider using full binary download instead of diff updates for very large binaries."
      -- `check_available_memory`
      guardIo e .availableMemory
      context s!"Failed to read binary from {debugPath path}" (readFile e .readSource path)

/-- `BinarySource::write_to`. -/
def writeTo (dest : String) : BinarySource → M Unit
  | .inMemory data => writeFile e .writeTemp dest data
  | .onDisk path => copyFile e .writeTemp path dest

/-- `BinarySource::cleanup`. -/
def cleanup : BinarySource → M Unit
  | .inMemory _ => pure ()
  | .onDisk path => Prog.ignore (removeFile e .sourceCleanup path)

end BinarySource

/-! ## obtaining the new binary -/

/-- Where a diff is downloaded to. -/
def diffPath (cfg : ClientConfig) (mb : ManagedBinary) (upd : UpdateInfo) : String :=
  joinPath cfg.downloadsDir s!"{mb.binaryName}_{upd.versionId}.diff"

/-- Where a full binary is downloaded to. -/
def fullPath (cfg : ClientConfig) (mb : ManagedBinary) (upd : UpdateInfo) : String :=
  joinPath cfg.downloadsDir s!"{mb.binaryName}_{upd.versionId}.tmp"

/-- Decompress a diff that starts like a zstd frame. -/
def decodeDiff (raw : Bytes) : Except DiffError Bytes :=
  if zstdMagic.isPrefixOf raw then decompressDiff X.zstd raw else .ok raw

/-- The second half of `apply_diff_update`: check the downloaded diff and apply
it to the installed file. -/
def patchWithDiff (mb : ManagedBinary) (upd : UpdateInfo) : M Bytes := do
  let path := diffPath e.config mb upd
  let expectedText ← orThrow upd.diffChecksum
    "Security error: diff checksum is required but missing. All diff-based updates must include checksums for integrity verification."
  let expected ← ofCrypto (Hash.fromHex expectedText)
  let actual ← hashFile X e .hashDiff path
  if expected ≠ actual then do
    Prog.ignore (removeFile e .removeDiff path)
    throw s!"Diff checksum mismatch: expected {expected.toHex}, got {actual.toHex}"
  else do
    let current ← readFile e .readCurrent mb.installPath
    let raw ← readFile e .readDiff path
    Prog.ignore (removeFile e .removeDiff path)
    let diff ← Prog.ofExcept ((decodeDiff X raw).mapError fun err =>
      s!"Failed to decompress diff: {err.text}")
    Prog.ofExcept ((applyPatch current diff).mapError fun err =>
      s!"Failed to apply diff patch: {err.text}")

/-- `apply_diff_update`.  The metrics are filled in as the steps succeed, and
what was filled in stays when a later step fails. -/
def applyDiffUpdate (mb : ManagedBinary) (upd : UpdateInfo) (metrics : UpdateMetrics) :
    M (UpdateMetrics × Except String Bytes) := do
  match upd.diffUrl with
  | none => pure (metrics, .error "No diff URL available")
  | some url =>
    let path := diffPath e.config mb upd
    match ← Prog.attempt (downloadFileWithProgress X e url path) with
    | .error err => pure (metrics, .error err)
    | .ok _ =>
      let named := { metrics with
        diffId := some upd.versionId
        diffAlgorithm := some "bsdiff" }
      match ← Prog.attempt (fileLen e .diffMetadata path) with
      | .error err => pure (named, .error err)
      | .ok size =>
        let sized := { named with
          diffSizeBytes := some size
          actualDownloadedBytes := some size
          fullSizeBytes := upd.fullBinarySize <|> named.fullSizeBytes }
        let r ← Prog.attempt (patchWithDiff X e mb upd)
        pure (sized, r)

/-- `download_full_binary`. -/
def downloadFullBinary (mb : ManagedBinary) (upd : UpdateInfo) (metrics : UpdateMetrics) :
    M (UpdateMetrics × BinarySource) := do
  let url ← orThrow upd.fullBinaryUrl "No full binary URL available"
  let path := fullPath e.config mb upd
  let _ ← downloadFileWithProgress X e url path
  let size ← fileLen e .fullMetadata path
  pure ({ metrics with fullSizeBytes := some size, actualDownloadedBytes := some size },
    .onDisk path)

/-- A diff if there is one and a file to apply it to, else the full binary; the
full binary as well if the diff fails. -/
def obtainBinary (mb : ManagedBinary) (upd : UpdateInfo) : M (UpdateMetrics × BinarySource) := do
  if upd.diffUrl.isSome ∧ (← pathExists mb.installPath) then do
    let (metrics, r) ← applyDiffUpdate X e mb upd {}
    match r with
    | .ok data => pure (metrics, .inMemory data)
    | .error _ => downloadFullBinary X e mb upd metrics
  else downloadFullBinary X e mb upd {}

/-! ## the two checks -/

/-- Compare the checksum; a binary that fails is removed. -/
def checkSource (src : BinarySource) (expected : Hash) : M Unit := do
  match ← Prog.attempt (src.verifyChecksum X e expected) with
  | .ok _ => pure ()
  | .error err => do
      src.cleanup e
      throw err

/-- Go on with a signature the key accepted; else remove the binary. -/
def requireAccepted (src : BinarySource) (key : ByteVec 32) (payload : Bytes)
    (signature : Signature) (accepted : Bool) : M Signature := do
  emit (.verify key payload signature accepted)
  if accepted then pure signature
  else do
    src.cleanup e
    throw CryptoError.signatureVerificationFailure.text

/-- Download the signature and check it with the pinned key, over the hash of
the bytes that will be installed and the version they are offered as. -/
def verifySignature (mb : ManagedBinary) (upd : UpdateInfo) (src : BinarySource) :
    M Signature := do
  let sigUrl ← orThrow upd.signatureUrl
    "Security error: signature URL is required but missing. All updates must be cryptographically signed for security."
  let sigBytes ← downloadBytes X e sigUrl
  let signature ← orThrow (ByteVec.tryInto 64 sigBytes)
    s!"Invalid signature: expected 64 bytes, got {sigBytes.length}"
  let keyBytes ← orThrow (ByteVec.tryInto 32 mb.publisherPublicKey) "Invalid public key length"
  let key ← ofCrypto (VerifyingKey.fromBytes X.crypto keyBytes)
  let data ← src.readForVerification e
  let payload := signingPayload (X.crypto.blake3 data).val (X.semver.display upd.version)
  requireAccepted e src keyBytes payload signature (key.verify payload signature)

/-! ## installing -/

/-- Write the new binary beside its place and rename it. -/
def installBinary (mb : ManagedBinary) (src : BinarySource) : M Unit := do
  let parent ← orThrow (parentPath mb.installPath) "Install path has no parent directory"
  createDirAll e .createParentDir parent
  persistTemp e .tempCreate .persist parent mb.installPath id
    (fun err => s!"Failed to persist temp file to {mb.installPath}: {err}")
    fun temp => do
      guardIo e .parentStat
      guardIo e .tempMode
      src.writeTo e temp
      src.cleanup e
      guardIo e .tempExec
      context s!"Install path validation failed immediately before write for '{mb.installPath}'"
        (validateInstallPath e.host mb.installPath)
      -- the parent directory must still be the one the temporary file is in
      guardIo e .parentRestat

/-- Compare the checksum of the installed file. -/
def verifyInstalled (mb : ManagedBinary) (expected : Hash) : M Unit := do
  let installed ← hashFile X e .hashInstalled mb.installPath
  emit (.checksum expected installed)
  bailIf (expected ≠ installed)
    s!"Installed binary checksum mismatch: expected {expected.toHex}, got {installed.toHex}"

/-- Keep the publisher's signature beside the installed binary. -/
def persistSidecar (mb : ManagedBinary) (signature : Signature) : M Unit := do
  let sigPath := sigPathFor mb.installPath
  let parent ← orThrow (parentPath sigPath) "Signature sidecar path has no parent directory"
  persistTemp e .sidecarTemp .sidecarPersist parent sigPath
    (fun _ => "Failed to create temp file for signature sidecar")
    (fun err => s!"Failed to persist signature sidecar to {sigPath}: {err}")
    fun temp => context "Failed to write signature sidecar to temp file"
      (writeFile e .sidecarWrite temp signature.val)

/-- `execute_update`. -/
def executeUpdate (mb : ManagedBinary) (upd : UpdateInfo) : M UpdateMetrics := do
  createDirAll e .createDownloadsDir e.config.downloadsDir
  let expected ← ofCrypto (Hash.fromHex upd.checksum)
  let (metrics, src) ← obtainBinary X e mb upd
  checkSource X e src expected
  let signature ← verifySignature X e mb upd src
  installBinary e mb src
  verifyInstalled X e mb expected
  persistSidecar e mb signature
  pure metrics

/-! ## `apply_update` -/

/- The preparation makes a backup, the update is executed, and one of two arms is taken: the success
arm records the version, and the failure arm copies the backup back. -/

/-- `check_disk_space` and the check for the diff. -/
def checkDiskSpace (upd : UpdateInfo) : M Unit := do
  guardIo e .diskSpaceInstall
  guardIo e .diskSpaceBackup
  if upd.diffSize.isSome then guardIo e .diskSpaceDiff else pure ()

/-- The disk checks: by the announced size, else by the size of the installed
file. -/
def checkSpace (mb : ManagedBinary) (upd : UpdateInfo) : M Unit := do
  if upd.fullBinarySize.isSome then checkDiskSpace e upd
  else if ← pathExists mb.installPath then do
    let _ ← context s!"Failed to read metadata for {debugPath mb.installPath}"
      (fileLen e .currentMetadata mb.installPath)
    checkDiskSpace e upd
  else pure ()

/-- Where `apply_update` copies the installed binary to: one path for each
binary and version. -/
def backupPathFor (cfg : ClientConfig) (mb : ManagedBinary) : String :=
  let version := mb.currentVersionString.getD "unknown"
  joinPath cfg.backupsDir s!"{mb.binaryName}_{version}.backup"

/-- Copy the sidecar of the installed binary, if it has one. -/
def copySidecar (site : Site) (src dst : String) : M Unit := do
  if ← pathExists (sigPathFor src) then
    context s!"Failed to copy signature sidecar: {debugPath (sigPathFor src)} -> {debugPath (sigPathFor dst)}"
      (copyFile e site (sigPathFor src) (sigPathFor dst))
  else pure ()

/-- Back up the installed binary and its sidecar; nothing is there to back up
on a first install. -/
def makeBackup (mb : ManagedBinary) : M (Option String) := do
  if ← pathExists mb.installPath then do
    let backup := backupPathFor e.config mb
    context s!"Failed to create backup: {debugPath mb.installPath} -> {debugPath backup}"
      (copyFile e .backupCopy mb.installPath backup)
    copySidecar e .backupSigCopy mb.installPath backup
    pure (some backup)
  else pure none

/-- Record the backup, if the version it holds is known. -/
def recordBackup (mb : ManagedBinary) (backup : Option String) : M Unit :=
  match backup, mb.currentVersionId, mb.currentVersionString with
  | some path, some prevId, some prevString => do
      if ← pathExists path then do
        let hash ← hashFile X e .hashBackup path
        let size ← fileLen e .backupMetadata path
        dbCall e .createBackupRow
          (ClientDb.createBackup X.semver e.now mb.binaryId prevId prevString path hash.val size
            none)
      else pure ()
  | _, _, _ => pure ()

/-- The success arm of `apply_update`. -/
def finishUpdate (mb : ManagedBinary) (upd : UpdateInfo) (updateId : Nat) (backup : Option String)
    (metrics : UpdateMetrics) : M Unit := do
  let versionString := X.semver.display upd.version
  dbCall e .recordComplete (ClientDb.recordUpdateComplete updateId true none metrics)
  let size ← fileLen e .installedMetadata mb.installPath
  let blake3 ← orThrow (X.crypto.blake3FromHex upd.checksum)
    "Failed to decode blake3 checksum from update info"
  let sha256 ← context "Failed to compute sha256 of installed binary"
    (sha256File X e .sha256Installed mb.installPath)
  context "Failed to record installed version"
    (dbCall e .recordInstalled
      (ClientDb.recordInstalledVersion X.semver mb.binaryId upd.versionId versionString blake3.val
        sha256.val size))
  dbCall e .updateCurrent
    (ClientDb.updateCurrentVersion mb.binaryId upd.versionId versionString)
  recordBackup X e mb backup

/-- Copy the backup back; the error of the copy, if it fails. -/
def restoreBackup (mb : ManagedBinary) (backup : Option String) : M (Option String) :=
  match backup with
  | none => pure none
  | some path => do
      if ← pathExists path then
        match ← Prog.attempt (copyFile e .restoreCopy path mb.installPath) with
        | .ok _ => pure none
        | .error err => pure (some err)
      else pure none

/-- The failure arm of `apply_update`. -/
def abortUpdate (mb : ManagedBinary) (updateId : Nat) (backup : Option String) (err : String) :
    M Unit := do
  let restoreError ← restoreBackup e mb backup
  dbCall e .recordFailure (ClientDb.recordUpdateComplete updateId false (some err) {})
  match restoreError with
  | some restoreErr =>
    throw s!"Update failed: {err}. CRITICAL: Backup restore also failed: {restoreErr}. Binary may be in inconsistent state."
  | none => throw err

/-- The steps of `apply_update` before the update itself: the id of the new
history row and the backup. -/
def prepareUpdate (mb : ManagedBinary) (upd : UpdateInfo) : M (Nat × Option String) := do
  context s!"Install path validation failed for binary '{mb.binaryName}' at '{mb.installPath}'"
    (validateInstallPath e.host mb.installPath)
  checkSpace e mb upd
  let updateId ← context "Failed to record update start in database"
    (dbQuery e .recordUpdateStart
      (ClientDb.recordUpdateStart e.now
        { binaryId := mb.binaryId
          fromVersionId := mb.currentVersionId
          fromVersionString := mb.currentVersionString
          toVersionId := upd.versionId
          toVersionString := X.semver.display upd.version }))
  context s!"Failed to create backups directory: {debugPath e.config.backupsDir}"
    (createDirAll e .createBackupsDir e.config.backupsDir)
  let backup ← makeBackup e mb
  pure (updateId, backup)

/-- `apply_update`. -/
def applyUpdate (mb : ManagedBinary) (upd : UpdateInfo) : M Unit := do
  let (updateId, backup) ← prepareUpdate X e mb upd
  match ← Prog.attempt (executeUpdate X e mb upd) with
  | .ok metrics => finishUpdate X e mb upd updateId backup metrics
  | .error err => abortUpdate e mb updateId backup err

end Patcher

end Deltaship
