import Deltaship.Client.Outcome

/-!
# Deltaship.Client.Commands

The entry points that install updates: the `update` command, the cycle of the
daemon (`check_and_apply_updates`, also behind `--check-now`) and the sidecar
process `deltaship-updater`.

`apply_update` compares no versions.  `update` and the daemon do so before they
call it, by the same rule (`refusesDowngrade`); the sidecar does not.

What is printed, traced and written to the audit log is left out, and so is the
flag `--force`: the source reads it only in an arm that is never reached.
-/

namespace Deltaship

open Prog ClientDb

/-- `UpdateResult`. -/
inductive UpdateResult where
  | updated | alreadyCurrent | skipped | failed
deriving DecidableEq, Repr

/-- The flags of the `update` command. -/
structure UpdateFlags where
  dryRun : Bool
  downloadOnly : Bool
  allowDowngrade : Bool
deriving DecidableEq, Repr

/-- The downgrade protection: a target that is not newer than the recorded
version is refused, and every target if the recorded version does not parse. -/
def refusesDowngrade (S : SemverCrate) (current : Option String) (target : Version) : Bool :=
  match current with
  | none => false
  | some text =>
    match S.parse text with
    | some cur => Version.le S target cur
    | none => true

/-- A target that is let pass over a recorded version is newer. -/
theorem gt_of_not_refusesDowngrade {S : SemverCrate} {v : String} {target : Version}
    (h : refusesDowngrade S (some v) target = false) :
    ∃ cur, S.parse v = some cur ∧ Version.gt S target cur = true := by
  simp only [refusesDowngrade] at h
  split at h
  · next cur hcur =>
      refine ⟨cur, hcur, ?_⟩
      rw [Version.gt_eq_not_le, h]
      rfl
  · contradiction

section Commands

variable (X : Crates) (e : Env)

/-! ## the update command -/

/- The command looks at its flags between the check and the update, and goes through all binaries if
it is not given a name. -/

/-- `verify_downloaded_signature`. -/
def verifyDownloadedSignature (sigUrl : String) (binary : ManagedBinary) (binaryHash : Hash)
    (version : String) : M Unit := do
  let sigBytes ← downloadBytes X e sigUrl
  let signature ← orThrow (ByteVec.tryInto 64 sigBytes)
    s!"invalid signature length: expected 64 bytes, got {sigBytes.length}"
  let keyBytes ← orThrow (ByteVec.tryInto 32 binary.publisherPublicKey)
    "invalid publisher public key length"
  let key ← ofCrypto (VerifyingKey.fromBytes X.crypto keyBytes)
  let payload := signingPayload binaryHash.val version
  emit (.verify keyBytes payload signature (key.verify payload signature))
  bailIf (key.verify payload signature = false) CryptoError.signatureVerificationFailure.text

/-- What `--download-only` downloads: the address, the destination, the expected
checksum and whether it is a full binary. -/
def downloadChoice (binary : ManagedBinary) (upd : UpdateInfo) :
    Except String (String × String × String × Bool) :=
  let version := X.semver.display upd.version
  match upd.diffUrl, upd.fullBinaryUrl with
  | some diffUrl, _ =>
    match upd.diffChecksum with
    | some checksum =>
      .ok (diffUrl, joinPath e.config.downloadsDir s!"{binary.binaryName}_{version}.diff",
        checksum, false)
    | none => .error
        "Security error: diff checksum is required but missing. Cannot download unverified diff files."
  | none, some fullUrl =>
    .ok (fullUrl, joinPath e.config.downloadsDir s!"{binary.binaryName}_{version}", upd.checksum,
      true)
  | none, none => .error "No download URL available for update"

/-- Remove the downloaded file and fail. -/
def dropDownload {α : Type} (dest msg : String) : M α := do
  Prog.ignore (removeFile e (.removeDownload dest) dest)
  throw msg

/-- The checks of `download_update_only` after the download. -/
def verifyDownload (binary : ManagedBinary) (upd : UpdateInfo) (dest checksum : String)
    (isFullBinary : Bool) : M Unit := do
  match Hash.fromHex checksum with
  | .error err => dropDownload e dest s!"Invalid checksum format from server: {err.text}"
  | .ok expected =>
    match ← Prog.attempt (hashFile X e .hashDownload dest) with
    | .error err =>
        dropDownload e dest s!"Failed to compute checksum of downloaded file: {err}"
    | .ok actual => do
      if expected ≠ actual then
        dropDownload e dest
          s!"Checksum verification failed: expected {expected.toHex}, got {actual.toHex}. Downloaded file has been deleted for security."
      else
        match isFullBinary, upd.signatureUrl with
        | true, some sigUrl =>
          match ← Prog.attempt (verifyDownloadedSignature X e sigUrl binary actual
              (X.semver.display upd.version)) with
          | .ok _ => pure ()
          | .error err =>
              dropDownload e dest
                s!"Signature verification failed: {err}. Downloaded file has been deleted for security."
        | _, _ => pure ()

/-- `download_update_only`. -/
def downloadUpdateOnly (binary : ManagedBinary) (upd : UpdateInfo) : M String := do
  createDirAll e .createDownloadsDir e.config.downloadsDir
  let (url, dest, checksum, isFullBinary) ← Prog.ofExcept (downloadChoice X e binary upd)
  downloadFile X e url dest
  verifyDownload X e binary upd dest checksum isFullBinary
  pure dest

/-- Record the time of a check; a failure is only logged. -/
def recordCheck (binary : ManagedBinary) : M Unit :=
  Prog.ignore (dbCall e (.setLastCheck binary.binaryId) (setLastCheck binary.binaryId e.now))

/-- What `process_binary_update` does with an update that was found. -/
def processUpdate (flags : UpdateFlags) (binary : ManagedBinary) (upd : UpdateInfo) :
    M UpdateResult := do
  if refusesDowngrade X.semver binary.currentVersionString upd.version && !flags.allowDowngrade then
    pure .failed
  else if flags.dryRun then pure .skipped
  else if flags.downloadOnly then
    match ← Prog.attempt (downloadUpdateOnly X e binary upd) with
    | .ok _ => pure .skipped
    | .error _ => pure .failed
  else
    match ← Prog.attempt (applyUpdate X e binary upd) with
    | .ok _ => pure .updated
    | .error _ => pure .failed

/-- `process_binary_update`. -/
def processBinaryUpdate (flags : UpdateFlags) (binary : ManagedBinary) : M UpdateResult := do
  recordCheck e binary
  match ← Prog.attempt (checkForUpdates X e binary) with
  | .error _ => pure .failed
  | .ok none => pure .alreadyCurrent
  | .ok (some upd) => processUpdate X e flags binary upd

/-- The loop of `perform_update`. -/
def processAll (flags : UpdateFlags) : List ManagedBinary → M (List UpdateResult)
  | [] => pure []
  | binary :: rest => do
      let result ← processBinaryUpdate X e flags binary
      let results ← processAll flags rest
      pure (result :: results)

/-- `UpdateChecker::new`. -/
def newChecker : M Unit :=
  Prog.mapErr (fun err => s!"Failed to create HTTP client: {err}") (guardIo e .newChecker)

/-- `perform_update`. -/
def performUpdate (name : Option String) (flags : UpdateFlags) : M (List UpdateResult) := do
  newChecker e
  match name with
  | some binaryName => do
      guardIo e .getBinary
      match (← get).db.getBinaryByName binaryName with
      | some binary => processAll X e flags [binary]
      | none => pure [.failed]
  | none => do
      guardIo e .listBinaries
      processAll X e flags (← get).db.listBinaries

/-! ## the daemon -/

/-- What a cycle of the daemon does for one binary. -/
def checkAndApply (binary : ManagedBinary) : M Unit :=
  if !binary.autoUpdate then pure ()
  else do
    recordCheck e binary
    match ← Prog.attempt (checkForUpdates X e binary) with
    | .ok (some upd) =>
      if refusesDowngrade X.semver binary.currentVersionString upd.version then pure ()
      else Prog.ignore (applyUpdate X e binary upd)
    | .ok none => pure ()
    | .error _ => pure ()

/-- `check_and_apply_updates`. -/
def checkAndApplyUpdates : M Unit := do
  guardIo e .listBinaries
  Prog.forEach (checkAndApply X e) (← get).db.listBinaries

/-- `acquire_update_lock`; the lock file itself is not part of the world. -/
def acquireUpdateLock : M Unit := do
  createDirAll e .createDataDir e.config.dataDir
  guardIo e .updateLock

/-- `run_check_once`. -/
def runCheckOnce : M Unit := do
  acquireUpdateLock e
  newChecker e
  checkAndApplyUpdates X e

/-- The update step of a cycle of `run_daemon`: whether the cycle failed. -/
def daemonCycle : M Bool := do
  match ← Prog.attempt (acquireUpdateLock e) with
  | .error _ => pure true
  | .ok _ =>
    match ← Prog.attempt (checkAndApplyUpdates X e) with
    | .ok _ => pure false
    | .error _ => pure true

/-! ## the sidecar process -/

/-- `Args`, with what the process finds on the host: the key in the file
`--public-key` (or why it cannot be loaded), the platform it was built for and
the UUID it would register a binary under. -/
structure UpdaterArgs where
  name : String
  installPath : String
  publicKey : Except String (ByteVec 32)
  checkOnly : Bool
  platform : String
  newId : String

/-- `EXIT_UP_TO_DATE`. -/
def exitUpToDate : Nat := 0

/-- `EXIT_UPDATED`. -/
def exitUpdated : Nat := 2

/-- `validate_name` of `deltaship-updater`. -/
def validateUpdaterName (name : String) : Except String Unit :=
  if name.isEmpty then .error "--name cannot be empty"
  else if Text.byteLen name > 64 then
    .error s!"--name is too long ({Text.byteLen name} chars, max 64)"
  else if !name.toList.all fun c => isAsciiAlphanumeric c || c == '-' || c == '_' then
    .error s!"--name '{name}' is invalid: only alphanumeric characters, hyphens, and underscores are allowed"
  else .ok ()

/-- Everything `run` does before it looks at the binary: its arguments are
checked and the database is opened.  The key of the publisher is returned. -/
def openUpdater (args : UpdaterArgs) : M (ByteVec 32) := do
  Prog.ofExcept (validateUpdaterName args.name)
  createDirAll e .createDataDir e.config.dataDir
  guardIo e .openDb
  guardIo e .initDb
  Prog.ofExcept args.publicKey

/-- The registered binary, which the first run registers. -/
def updaterBinary (args : UpdaterArgs) (key : ByteVec 32) : M ManagedBinary := do
  guardIo e .getBinary
  match (← get).db.getBinaryByName args.name with
  | some existing => pure existing
  | none => do
      dbCall e .registerBinary (registerBinary
        ⟨args.newId, args.name, args.platform, args.installPath, key.val⟩)
      orThrow ((← get).db.getBinary args.newId) "Record not found: Binary just registered not found"

/-- `run` of `deltaship-updater`: the exit code.  A found update is applied
whatever version is recorded. -/
def updaterRun (args : UpdaterArgs) : M Nat := do
  let key ← openUpdater e args
  let binary ← updaterBinary e args key
  newChecker e
  match ← checkForUpdates X e binary with
  | none => pure exitUpToDate
  | some upd =>
    if args.checkOnly then pure exitUpdated
    else do
      applyUpdate X e binary upd
      pure exitUpdated

end Commands

end Deltaship
