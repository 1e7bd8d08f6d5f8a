import Deltaship.Client.Atomicity
import Deltaship.Lib.Lexical

/-!
# Deltaship.Client.Rollback

`perform_rollback`: select a recorded backup, check its hash and its publisher
signature, take a snapshot of the installed binary, rename the backup's bytes
into place and record the version.

The checks come first and the bytes are copied last, and in between the
snapshot is written to a path that is a function of the binary and its current
version only.  That path can lead to the selected backup: its bytes are then
replaced by the installed ones between the check and the copy.
`performRollback_integrity` says exactly when the restored bytes are the
checked ones.

Which file a path leads to is a parameter, `place`: two texts can be spellings
of one path, or lead to one file through symbolic links.  A rollback changes no
link: the one file that it renames goes to the install path, which is no link
itself when the rename is made.
-/

namespace Deltaship

open Prog ClientDb

section Rollback

variable (X : Crates) (e : Env) (place : String → String)

/-- `verify_backup_signature`. -/
def verifyBackupSignature (backupPath : String) (publisherPublicKey : Bytes)
    (binaryName version : String) : M Unit := do
  let sigPath := sigPathFor backupPath
  bailIf ((← pathExists (place sigPath)) = false)
    s!"Backup signature missing at {sigPath} — refusing to restore unverified backup. This backup was likely created before signature persistence was added; reinstall the desired version from the publisher rather than rolling back."
  let sigBytes ← context s!"Failed to read backup signature: {sigPath}"
    (readFile e .readBackupSig (place sigPath))
  let signature ← orThrow (ByteVec.tryInto 64 sigBytes)
    s!"Invalid backup signature length at {sigPath}: expected 64 bytes, got {sigBytes.length}"
  let keyBytes ← orThrow (ByteVec.tryInto 32 publisherPublicKey)
    "Invalid publisher public key length"
  let key ← context "Failed to parse publisher public key"
    (ofCrypto (VerifyingKey.fromBytes X.crypto keyBytes))
  let hash ← context s!"Failed to hash backup file: {backupPath}"
    (hashFile X e .hashSigned (place backupPath))
  let payload := signingPayload hash.val version
  emit (.verify keyBytes payload signature (key.verify payload signature))
  bailIf (key.verify payload signature = false)
    s!"Backup signature verification failed for {binaryName} version {version}: {CryptoError.signatureVerificationFailure.text}"

/-- The backup of a version, or the newest one. -/
def selectBackup (backups : List RollbackBackup) : Option String → Option RollbackBackup
  | some version => backups.find? fun b => b.versionString == version
  | none => backups.head?

/-- The binary and the backup a rollback is about. -/
def chooseBackup (binaryName : String) (toVersion : Option String) :
    M (ManagedBinary × RollbackBackup) := do
  guardIo e .getBinary
  let binary ← orThrow ((← get).db.getBinaryByName binaryName) s!"Binary '{binaryName}' not found"
  guardIo e .listBackups
  let backups := (← get).db.listBackups binary.binaryId
  bailIf (backups = []) s!"No backups available for '{binaryName}'"
  let version := toVersion.getD ""
  let target ← orThrow (selectBackup backups toVersion) s!"No backup found for version '{version}'"
  pure (binary, target)

/-- Check the backup file: it has the recorded hash, and the publisher signed
it as this version. -/
def verifyTarget (binary : ManagedBinary) (target : RollbackBackup) : M Unit := do
  bailIf ((← pathExists (place target.backupPath)) = false)
    s!"Backup file not found: {target.backupPath}. The backup may have been deleted."
  let expected ← orThrow (ByteVec.tryInto 32 target.backupHashBlake3)
    "Invalid backup hash stored in database"
  let actual ← hashFile X e .hashTarget (place target.backupPath)
  emit (.checksum expected actual)
  bailIf (expected ≠ actual)
    s!"Backup file corrupted: checksum mismatch for version {target.versionString}"
  verifyBackupSignature X e place target.backupPath binary.publisherPublicKey binary.binaryName
    target.versionString

/-- `str::replace(['/', '\\', ' '], "_")`. -/
def flattenName (s : String) : String :=
  String.ofList (s.toList.map fun c => if c = '/' ∨ c = '\\' ∨ c = ' ' then '_' else c)

/-- Where the snapshot of the installed binary goes: one path for each binary
and version. -/
def preRollbackPath (cfg : ClientConfig) (binary : ManagedBinary) : String :=
  let version := flattenName (binary.currentVersionString.getD "(unknown)")
  joinPath cfg.backupsDir s!"{binary.binaryName}_{version}_pre_rollback.backup"

/-- Record the snapshot, if the installed version is known. -/
def recordSnapshot (binary : ManagedBinary) : M Unit :=
  match binary.currentVersionId, binary.currentVersionString with
  | some versionId, some versionString => do
      let path := preRollbackPath e.config binary
      let hash ← hashFile X e .hashSnapshot (place path)
      let size ← fileLen e .snapshotMetadata (place path)
      -- snapshots expire after thirty days
      dbCall e .createSnapshotRow
        (createBackup X.semver e.now binary.binaryId versionId versionString path hash.val size
          (some (X.chrono.format (e.now + 30 * 86400))))
  | _, _ => pure ()

/-- Copy a file if it is there. -/
def copyIfThere (site : Site) (msg src dst : String) : M Unit := do
  if ← pathExists src then context msg (copyFile e site src dst) else pure ()

/-- Carry the sidecar of the installed binary forward to the snapshot. -/
def snapshotSidecar (binary : ManagedBinary) : M Unit :=
  let installSig := sigPathFor binary.installPath
  let preRollbackSig := sigPathFor (preRollbackPath e.config binary)
  copyIfThere e .snapshotSigCopy
    s!"Failed to copy signature sidecar: {debugPath installSig} -> {debugPath preRollbackSig}"
    (place installSig) (place preRollbackSig)

/-- Keep a copy of the installed binary, so that the rollback can be undone. -/
def snapshotInstalled (binary : ManagedBinary) : M Unit := do
  if ← pathExists (place binary.installPath) then do
    createDirAll e .createSnapshotDir (place e.config.backupsDir)
    copyFile e .snapshotCopy (place binary.installPath) (place (preRollbackPath e.config binary))
    snapshotSidecar e place binary
    recordSnapshot X e place binary
  else pure ()

/-- Copy the backup beside the install path and rename it into place. -/
def restoreTarget (binary : ManagedBinary) (target : RollbackBackup) : M Unit := do
  let parent ← orThrow (parentPath binary.installPath) "Install path has no parent directory"
  persistTemp e .restoreTemp .restorePersist (place parent) (place binary.installPath)
    (fun err => s!"Failed to create temp file for restore: {err}")
    (fun err => s!"Failed to atomically restore binary to {binary.installPath}: {err}")
    fun temp => do
      copyFile e .restoreTempCopy (place target.backupPath) temp
      guardIo e .restoreMode
      context s!"Install path validation failed immediately before rollback write for '{binary.installPath}'"
        (validateInstallPath e.host binary.installPath)

/-- Restore the sidecar of the backup. -/
def restoreSidecar (binary : ManagedBinary) (target : RollbackBackup) : M Unit :=
  let backupSig := sigPathFor target.backupPath
  let installSig := sigPathFor binary.installPath
  copyIfThere e .restoreSigCopy
    s!"Failed to restore signature sidecar: {debugPath backupSig} -> {debugPath installSig}"
    (place backupSig) (place installSig)

/-- `perform_rollback`. -/
def performRollback (binaryName : String) (toVersion : Option String) : M Unit := do
  let (binary, target) ← chooseBackup e binaryName toVersion
  verifyTarget X e place binary target
  context s!"Install path validation failed for binary '{binaryName}' at '{binary.installPath}'"
    (validateInstallPath e.host binary.installPath)
  snapshotInstalled X e place binary
  restoreTarget e place binary target
  restoreSidecar e place binary target
  dbCall e .rollbackCurrent
    (updateCurrentVersion binary.binaryId target.versionId target.versionString)
  dbCall e .recordRollback
    (ClientDb.recordRollback e.now
      { binaryId := binary.binaryId
        fromVersionId := binary.currentVersionId
        fromVersionString := binary.currentVersionString
        toVersionId := target.versionId
        toVersionString := target.versionString })

end Rollback

/-! ## choosing and checking the backup -/

/-- The binary and the backup a rollback selects. -/
structure Selected (db : ClientDb) (binaryName : String) (toVersion : Option String)
    (binary : ManagedBinary) (target : RollbackBackup) : Prop where
  known : db.getBinaryByName binaryName = some binary
  selected : selectBackup (db.listBackups binary.binaryId) toVersion = some target

/-- The sidecar of a backup is a signature of the publisher for a hash, as the
version of the row. -/
def SidecarAccepts (X : Crates) (place : String → String) (binary : ManagedBinary)
    (target : RollbackBackup) (w : World) (hash : Hash) : Prop :=
  ∃ (key : ByteVec 32) (sig : Signature), key.val = binary.publisherPublicKey ∧
    w.file (place (sigPathFor target.backupPath)) = some sig.val ∧
    X.crypto.verifyStrict key (signingPayload hash.val target.versionString) sig = true

/-- The backup file has these bytes, and they pass both checks. -/
structure Verified (X : Crates) (place : String → String) (binary : ManagedBinary)
    (target : RollbackBackup) (w : World) (data : Bytes) : Prop where
  file : w.file (place target.backupPath) = some data
  hash : (X.crypto.blake3 data).val = target.backupHashBlake3
  signed : SidecarAccepts X place binary target w (X.crypto.blake3 data)

section Check

variable {X : Crates} {e : Env} {place : String → String} {w : World} {binary : ManagedBinary}
  {target : RollbackBackup} {binaryName : String} {toVersion : Option String}

/-- What is selected is one of the backups. -/
theorem mem_of_selectBackup {backups : List RollbackBackup}
    (h : selectBackup backups toVersion = some target) : target ∈ backups := by
  cases toVersion with
  | none => exact List.mem_of_head? h
  | some version => exact List.mem_of_find?_eq_some h

/-- The selected binary and backup are rows of the database. -/
theorem Selected.mem {db : ClientDb} (h : Selected db binaryName toVersion binary target) :
    binary ∈ db.managed ∧ target ∈ db.backups ∧ target.binaryId = binary.binaryId := by
  have hmem := mem_of_selectBackup h.selected
  rw [listBackups, List.mem_insertionSort, List.mem_filter] at hmem
  exact ⟨(Table.mem_of_find h.known).1, hmem.1, beq_iff_eq.mp hmem.2⟩

/-- Choosing a backup changes nothing. -/
theorem wp_chooseBackup :
    wp (chooseBackup e binaryName toVersion)
      (fun r w' => w' = w ∧ Selected w.db binaryName toVersion r.1 r.2) (fun _ w' => w' = w) w := by
  unfold chooseBackup
  simp only [wp_bind, wp_get]
  refine wp_guardIo (fun _ => ?_) fun _ _ => rfl
  refine wp_orThrow (fun binary hbinary => ?_) fun _ => rfl
  refine wp_guardIo (fun _ => ?_) fun _ _ => rfl
  refine wp_bailIf (fun _ => ?_) fun _ => rfl
  refine wp_orThrow (fun target htarget => ?_) fun _ => rfl
  exact ⟨rfl, hbinary, htarget⟩

/-- The signature check passes only if the sidecar accepts the hash of the backup file. -/
theorem wp_verifyBackupSignature {data : Bytes}
    (hdata : w.file (place target.backupPath) = some data) :
    wp (verifyBackupSignature X e place target.backupPath binary.publisherPublicKey
        binary.binaryName target.versionString)
      (fun _ w' => Touches (fun _ => False) w w' ∧
        SidecarAccepts X place binary target w (X.crypto.blake3 data))
      (fun _ w' => Touches (fun _ => False) w w') w := by
  unfold verifyBackupSignature hashFile ofCrypto
  simp only [wp_bind, context, wp_mapErr, wp_pathExists, wp_ofExcept]
  refine wp_bailIf (fun _ => ?_) fun _ => .refl _ w
  refine wp_readFile (fun sigBytes _ hsig => ?_) fun _ _ => .refl _ w
  refine wp_orThrow (fun sig hsig' => ?_) fun _ => .refl _ w
  refine wp_orThrow (fun key hkey => ?_) fun _ => .refl _ w
  cases hk : VerifyingKey.fromBytes X.crypto key with
  | error err => exact .refl _ w
  | ok vk =>
      refine wp_readFile (fun b _ hb => ?_) fun _ _ => .refl _ w
      obtain rfl : b = data := Option.some.inj (hb.symm.trans hdata)
      have hvk : vk.bytes = key := VerifyingKey.bytes_of_fromBytes hk
      refine wp_bailIf (fun haccepted => ?_) fun _ => .record _ w _ rfl
      refine ⟨.record _ w _ rfl, key, sig, (ByteVec.tryInto_eq_some.mp hkey).symm, ?_, ?_⟩
      · rw [hsig, ByteVec.tryInto_eq_some.mp hsig']
      · rw [Bool.not_eq_false] at haccepted
        exact hvk ▸ haccepted

/-- The checks change nothing, and pass only for a backup that is verified. -/
theorem wp_verifyTarget :
    wp (verifyTarget X e place binary target)
      (fun _ w' => Touches (fun _ => False) w w' ∧ ∃ data, Verified X place binary target w data)
      (fun _ w' => Touches (fun _ => False) w w') w := by
  unfold verifyTarget hashFile
  simp only [wp_bind, wp_pathExists]
  refine wp_bailIf (fun _ => ?_) fun _ => .refl _ w
  refine wp_orThrow (fun expected hexpected => ?_) fun _ => .refl _ w
  refine wp_readFile (fun data _ hdata => ?_) fun _ _ => .refl _ w
  have hlogged : Touches (fun _ => False) w
      (w.record (.checksum expected (X.crypto.blake3 data))) := .record _ w _ rfl
  refine wp_bailIf (fun heq => ?_) fun _ => hlogged
  have hdata' : (w.record (.checksum expected (X.crypto.blake3 data))).file
      (place target.backupPath) = some data := hdata
  refine wp_mono ?_ (fun _ _ h => hlogged.trans h) (wp_verifyBackupSignature hdata')
  rintro _ w' ⟨h, haccepts⟩
  refine ⟨hlogged.trans h, data, hdata, ?_, haccepts⟩
  rw [← not_not.mp heq]
  exact (ByteVec.tryInto_eq_some.mp hexpected).symm

end Check

/-! ## copies -/

/-- What copying `src` to `dst` leaves at `dst`, if it copies. -/
def copyOf (w : World) (src dst : String) : Option Bytes :=
  (w.file src).map fun b => if src = dst then [] else b

/-- A copy depends on the file that is copied only. -/
theorem copyOf_congr {w w' : World} {src : String} (h : w'.file src = w.file src) (dst : String) :
    copyOf w' src dst = copyOf w src dst := by
  unfold copyOf
  rw [h]

/-- What was copied to another file is what was there. -/
theorem file_of_copyOf {w : World} {src dst : String} {b : Bytes} (hne : src ≠ dst)
    (h : copyOf w src dst = some b) : w.file src = some b := by
  obtain ⟨b', hb', rfl⟩ := Option.map_eq_some_iff.mp h
  rw [if_neg hne]
  exact hb'

/-- A file is copied if it is there; the copy fails only if the host does. -/
theorem wp_copyIfThere {e : Env} {w : World} {site : Site} {msg src dst : String} :
    wp (copyIfThere e site msg src dst)
      (fun _ w' => Touches (· = dst) w w' ∧ w'.file dst = (copyOf w src dst).or (w.file dst))
      (fun _ w' => (e.faults site ≠ none ∨ w.file src = none) ∧ Touches (· = dst) w w') w := by
  unfold copyIfThere
  rw [wp_bind, wp_pathExists]
  cases hex : w.pathExists src with
  | false =>
      have hnone := w.file_eq_none_of_not_pathExists hex
      exact ⟨.refl _ w, by rw [copyOf, hnone]; rfl⟩
  | true =>
      simp only [↓reduceIte, context, wp_mapErr]
      refine wp_copyFile (fun b _ hb => ⟨.write rfl, ?_⟩) fun _ _ hwhy h => ⟨?_, h⟩
      · rw [copyOf, hb]
        exact World.file_write_self _ _
      · exact hwhy.imp_right And.left

/-! ## the snapshot -/

/- Before it restores anything, a rollback copies the installed binary to a snapshot, with its
sidecar, and records it as a backup. The snapshot is the only file written before the backup is
read, so that a backup is damaged exactly where it is the same file as the snapshot. -/

section Snapshot

variable {X : Crates} {e : Env} {place : String → String} {w : World} {cfg : ClientConfig}
  {binary : ManagedBinary} {target : RollbackBackup}

/-- The files a snapshot of the installed binary is written to. -/
def SnapshotFile (place : String → String) (cfg : ClientConfig) (binary : ManagedBinary)
    (p : String) : Prop :=
  p = place (preRollbackPath cfg binary) ∨ p = place (sigPathFor (preRollbackPath cfg binary))

instance (p : String) : Decidable (SnapshotFile place cfg binary p) :=
  inferInstanceAs (Decidable (_ ∨ _))

/-- A snapshot is named like a backup. -/
theorem suffix_preRollbackPath (cfg : ClientConfig) (binary : ManagedBinary) :
    ".backup".toList <:+ (preRollbackPath cfg binary).toList := by
  have h : ".backup".toList <:+ "_pre_rollback.backup".toList := by decide
  refine suffix_joinPath (h.trans ?_)
  rw [String.toList_append]
  exact List.suffix_append _ _

/-- The sidecar of the snapshot is another file than the snapshot. -/
def SidecarApart (place : String → String) (cfg : ClientConfig) (binary : ManagedBinary) : Prop :=
  place (sigPathFor (preRollbackPath cfg binary)) ≠ place (preRollbackPath cfg binary)

/-- Where no two paths lead to one file, it is. -/
theorem sidecarApart_id (cfg : ClientConfig) (binary : ManagedBinary) :
    SidecarApart id cfg binary := sigPathFor_ne _

/-- What the snapshot writes to a file, if it writes it: the installed bytes, and after them
their sidecar. -/
def snapshotWrite (place : String → String) (cfg : ClientConfig) (binary : ManagedBinary)
    (w : World) (p : String) : Option Bytes :=
  let snapshot := place (preRollbackPath cfg binary)
  let sidecar := place (sigPathFor (preRollbackPath cfg binary))
  let installed := copyOf w (place binary.installPath) snapshot
  let signature := installed.bind fun b =>
    copyOf (w.write snapshot b) (place (sigPathFor binary.installPath)) sidecar
  (if p = sidecar then signature else none).or (if p = snapshot then installed else none)

/-- The snapshot depends on the files only. -/
theorem snapshotWrite_congr {w' : World} (h : ∀ p, w'.file p = w.file p) (p : String) :
    snapshotWrite place cfg binary w' p = snapshotWrite place cfg binary w p := by
  have hwrite : ∀ b, (w'.write (place (preRollbackPath cfg binary)) b).file =
      (w.write (place (preRollbackPath cfg binary)) b).file := by
    intro b
    funext q
    by_cases hq : q = place (preRollbackPath cfg binary)
    · rw [hq, World.file_write_self, World.file_write_self]
    · rw [World.file_write_ne _ _ hq, World.file_write_ne _ _ hq, h]
  simp only [snapshotWrite, copyOf, h, hwrite]

/-- What a file holds when the snapshot is complete. -/
def afterSnapshot (place : String → String) (cfg : ClientConfig) (binary : ManagedBinary)
    (w : World) (p : String) : Option Bytes :=
  (snapshotWrite place cfg binary w p).or (w.file p)

/-- A row for the snapshot that was just made. -/
def SnapshotRow (X : Crates) (place : String → String) (binary : ManagedBinary) (path : String)
    (w : World) (r : RollbackBackup) : Prop :=
  r.backupPath = path ∧ ∃ b version, w.file (place path) = some b ∧
    r.backupHashBlake3 = (X.crypto.blake3 b).val ∧ r.binaryId = binary.binaryId ∧
    binary.currentVersionId = some r.versionId ∧ binary.currentVersionString = some version ∧
    normalizeVersionString X.semver version = .ok r.versionString

/-- Where no two paths lead to one file, it is the row of a backup. -/
theorem SnapshotRow.backupRow {path : String} {r : RollbackBackup}
    (h : SnapshotRow X id binary path w r) : BackupRow X binary (some path) w r := by
  obtain ⟨rfl, b, version, hb, hrow⟩ := h
  exact ⟨b, version, rfl, hb, hrow⟩

/-- What a snapshot may do, wherever it stops. -/
structure Snapshotted (X : Crates) (e : Env) (place : String → String) (binary : ManagedBinary)
    (w w' : World) : Prop where
  files : Files.AgreeOff (SnapshotFile place e.config binary) w.files w'.files
  managed : w'.db.managed = w.db.managed
  installed : w'.db.installed = w.db.installed
  /-- A new row describes the snapshot, which is a copy of the installed file. -/
  backups : ∀ r ∈ w'.db.backups, r ∈ w.db.backups ∨
    SnapshotRow X place binary (preRollbackPath e.config binary) w' r ∧
      (SidecarApart place e.config binary → w'.file (place (preRollbackPath e.config binary)) =
        copyOf w (place binary.installPath) (place (preRollbackPath e.config binary)))
  /-- Without faults the snapshot is as it was, or a copy of the installed file. -/
  content : e.NoFault → SidecarApart place e.config binary →
    w'.file (place (preRollbackPath e.config binary)) =
        w.file (place (preRollbackPath e.config binary)) ∨
      ∃ b, copyOf w (place binary.installPath) (place (preRollbackPath e.config binary)) = some b ∧
        w'.file (place (preRollbackPath e.config binary)) = some b

/-- A step that writes nothing is no part of the snapshot. -/
theorem Snapshotted.of_touches {w' : World} (h : Touches (fun _ => False) w w') :
    Snapshotted X e place binary w w' where
  files := h.files.mono fun _ => False.elim
  managed := by rw [h.db]
  installed := by rw [h.db]
  backups _ hr := .inl (h.db ▸ hr)
  content _ _ := .inl (h.file not_false)

/-- A row for the snapshot may be added afterwards. -/
theorem Snapshotted.of_record {w₁ w' : World} (h : Snapshotted X e place binary w w₁)
    (hfile : ∀ p, w'.file p = w₁.file p) (hmanaged : w'.db.managed = w₁.db.managed)
    (hinstalled : w'.db.installed = w₁.db.installed)
    (hbackups : ∀ r ∈ w'.db.backups, r ∈ w₁.db.backups ∨
      SnapshotRow X place binary (preRollbackPath e.config binary) w₁ r ∧
        (SidecarApart place e.config binary → w₁.file (place (preRollbackPath e.config binary)) =
          copyOf w (place binary.installPath) (place (preRollbackPath e.config binary)))) :
    Snapshotted X e place binary w w' := by
  refine ⟨fun p hp => (hfile p).trans (h.files p hp),
    hmanaged.trans h.managed, hinstalled.trans h.installed,
    fun r hr => ?_, fun hf hapart => ?_⟩
  · refine ((hbackups r hr).elim (h.backups r) .inr).imp_right ?_
    rintro ⟨⟨hpath, b, version, hb, hrow⟩, hcopy⟩
    exact ⟨⟨hpath, b, version, (hfile _).trans hb, hrow⟩, fun hapart =>
      (hfile _).trans (hcopy hapart)⟩
  · rw [hfile]
    exact h.content hf hapart

/-- Nothing that matters happened after the snapshot. -/
theorem Snapshotted.then_quiet {w₁ w' : World} (h : Snapshotted X e place binary w w₁)
    (h' : Touches (fun _ => False) w₁ w') : Snapshotted X e place binary w w' :=
  h.of_record (fun _ => h'.file not_false) (by rw [h'.db]) (by rw [h'.db])
    fun _ hr => .inl (h'.db ▸ hr)

/-- Nothing that matters happened before the snapshot. -/
theorem Snapshotted.of_quiet {w₁ w' : World} (h' : Snapshotted X e place binary w₁ w')
    (h : Touches (fun _ => False) w w₁) : Snapshotted X e place binary w w' := by
  have hfile : ∀ p, w₁.file p = w.file p := fun p => h.file not_false
  refine ⟨(h.files.mono fun _ => False.elim).trans h'.files, h'.managed.trans (by rw [h.db]),
    h'.installed.trans (by rw [h.db]), fun r hr => ?_, fun hf hapart => ?_⟩
  · rw [← h.db, copyOf, ← hfile]
    exact h'.backups r hr
  · rw [← hfile, copyOf, ← hfile]
    exact h'.content hf hapart

/-- Recording the snapshot changes no file and adds at most its row. -/
theorem wp_recordSnapshot :
    wp (recordSnapshot X e place binary)
      (fun _ w' => w'.files = w.files ∧ w'.db.managed = w.db.managed ∧
        w'.db.installed = w.db.installed ∧ ∀ r ∈ w'.db.backups, r ∈ w.db.backups ∨
          SnapshotRow X place binary (preRollbackPath e.config binary) w r)
      (fun _ w' => w' = w) w := by
  unfold recordSnapshot
  split
  · next versionId versionString hid hstring =>
      unfold hashFile
      simp only [wp_bind]
      refine wp_readFile (fun b _ hb => ?_) fun _ _ => rfl
      refine wp_fileLen (fun _ _ _ => ?_) fun _ _ => rfl
      refine wp_dbCall (fun db hop => ?_) fun _ _ => rfl
      obtain ⟨n, hn, hmanaged, hinstalled, -, hbackups⟩ := createBackup_ok hop
      refine ⟨rfl, hmanaged, hinstalled, fun r hr => ?_⟩
      rcases (hbackups r).mp hr with hr | rfl
      · exact .inl hr
      · exact .inr ⟨rfl, b, versionString, hb, rfl, rfl, hid, hstring, hn⟩
  · exact ⟨rfl, rfl, rfl, fun _ h => .inl h⟩

/-- The two copies of a snapshot. -/
theorem afterSnapshot_of_copies {w₁ w' : World} {b : Bytes}
    (hcopy : copyOf w (place binary.installPath) (place (preRollbackPath cfg binary)) = some b)
    (hfirst : ∀ p, w₁.file p = (w.write (place (preRollbackPath cfg binary)) b).file p)
    (hother : ∀ p, p ≠ place (sigPathFor (preRollbackPath cfg binary)) → w'.file p = w₁.file p)
    (hsecond : w'.file (place (sigPathFor (preRollbackPath cfg binary))) =
      (copyOf w₁ (place (sigPathFor binary.installPath))
        (place (sigPathFor (preRollbackPath cfg binary)))).or
          (w₁.file (place (sigPathFor (preRollbackPath cfg binary))))) (p : String) :
    w'.file p = afterSnapshot place cfg binary w p := by
  have hone : w₁.file p =
      (if p = place (preRollbackPath cfg binary) then some b else none).or (w.file p) := by
    rw [hfirst]
    by_cases hp : p = place (preRollbackPath cfg binary)
    · rw [hp, World.file_write_self, if_pos rfl]
      rfl
    · rw [World.file_write_ne _ _ hp, if_neg hp]
      rfl
  simp only [afterSnapshot, snapshotWrite, hcopy, Option.bind_some, Option.or_assoc]
  rw [← hone]
  by_cases hp : p = place (sigPathFor (preRollbackPath cfg binary))
  · rw [if_pos hp, copyOf_congr (hfirst _).symm, hp, hsecond]
  · rw [if_neg hp, hother p hp]
    rfl

/-- A completed snapshot writes exactly its two files. -/
theorem wp_snapshotInstalled :
    wp (snapshotInstalled X e place binary)
      (fun _ w' => Snapshotted X e place binary w w' ∧
        ∀ p, w'.file p = afterSnapshot place e.config binary w p)
      (fun _ w' => Snapshotted X e place binary w w') w := by
  unfold snapshotInstalled
  rw [wp_bind, wp_pathExists]
  cases hex : w.pathExists (place binary.installPath) with
  | false =>
      refine ⟨.of_touches (.refl _ w), fun p => ?_⟩
      have hnone := w.file_eq_none_of_not_pathExists hex
      simp [afterSnapshot, snapshotWrite, copyOf, hnone]
  | true =>
      simp only [↓reduceIte]
      refine Preserves.wp_bind (R := Touches fun _ => False) preserves_createDirAll
        (fun _ w₁ h₁ => ?_) fun _ _ h => .of_touches h
      have hfile₁ : ∀ p, w₁.file p = w.file p := fun p => h₁.file not_false
      rw [wp_bind]
      refine wp_copyFile (fun b _ hb => ?_) fun _ w₂ hwhy h₂ => ?_
      rotate_left
      · have hall : Touches (SnapshotFile place e.config binary) w w₂ :=
          (h₁.mono fun _ => False.elim).trans (h₂.mono fun _ => .inl)
        refine ⟨hall.files, by rw [hall.db], by rw [hall.db], fun _ hr => .inl (hall.db ▸ hr),
          fun hf _ => .inl ?_⟩
        rcases hwhy with hfault | ⟨-, rfl⟩
        · exact absurd (hf _) hfault
        · exact hfile₁ _
      have hcopy : copyOf w (place binary.installPath) (place (preRollbackPath e.config binary)) =
          some (if place binary.installPath = place (preRollbackPath e.config binary) then []
            else b) := by
        rw [copyOf, ← hfile₁, hb, Option.map_some]
      revert hcopy
      generalize (if place binary.installPath = place (preRollbackPath e.config binary) then []
        else b) = b'
      intro hcopy
      have h₂ : Touches (SnapshotFile place e.config binary) w
          (w₁.write (place (preRollbackPath e.config binary)) b') :=
        (h₁.mono fun _ => False.elim).trans (.write (.inl rfl))
      -- the sidecar and the row leave the copy alone
      have hrest : ∀ w₃, Touches (· = place (sigPathFor (preRollbackPath e.config binary)))
          (w₁.write (place (preRollbackPath e.config binary)) b') w₃ →
          Snapshotted X e place binary w w₃ ∧ (SidecarApart place e.config binary →
            w₃.file (place (preRollbackPath e.config binary)) = some b') := by
        intro w₃ h₃
        have hsame : SidecarApart place e.config binary →
            w₃.file (place (preRollbackPath e.config binary)) = some b' := fun hapart =>
          (h₃.file fun heq => hapart heq.symm).trans (World.file_write_self _ _)
        have h₃ := h₂.trans (h₃.mono fun _ => .inr)
        exact ⟨⟨h₃.files, by rw [h₃.db], by rw [h₃.db], fun _ hr => .inl (h₃.db ▸ hr),
          fun _ hapart => .inr ⟨b', hcopy, hsame hapart⟩⟩, hsame⟩
      rw [wp_bind]
      refine wp_mono (fun _ w₃ h₃ => ?_) (fun _ w₃ h₃ => (hrest w₃ h₃.2).1) wp_copyIfThere
      obtain ⟨hsnap, hsame⟩ := hrest w₃ h₃.1
      refine wp_mono (fun _ w₄ h₄ => ?_) (fun _ w₄ (h₄ : w₄ = w₃) => by rw [h₄]; exact hsnap)
        wp_recordSnapshot
      obtain ⟨hfiles, hmanaged, hinstalled, hbackups⟩ := h₄
      have hfile₄ : ∀ p, w₄.file p = w₃.file p := fun p => congrArg (Files.read · p) hfiles
      refine ⟨hsnap.of_record hfile₄ hmanaged hinstalled fun r hr =>
        (hbackups r hr).imp_right fun h => ⟨h, fun hapart => (hsame hapart).trans hcopy.symm⟩,
        fun p => (hfile₄ p).trans ?_⟩
      refine afterSnapshot_of_copies hcopy (fun q => ?_) (fun q hq => h₃.1.file hq) h₃.2 p
      by_cases hq : q = place (preRollbackPath e.config binary)
      · rw [hq, World.file_write_self, World.file_write_self]
      · rw [World.file_write_ne _ _ hq, World.file_write_ne _ _ hq, hfile₁]

/-- The snapshot removes no file. -/
theorem exists_afterSnapshot {p : String} {b : Bytes} (h : w.file p = some b) :
    ∃ b', afterSnapshot place cfg binary w p = some b' := by
  unfold afterSnapshot
  rw [h]
  cases snapshotWrite place cfg binary w p with
  | none => exact ⟨b, rfl⟩
  | some b' => exact ⟨b', rfl⟩

end Snapshot

/-! ## the restore -/

/- Behind the snapshot the backup is read again, its hash is checked against the row, and the bytes
are put in place. The rollback restores what the file holds by then, whether or not that is what the
first check has seen. -/

section Restore

variable {X : Crates} {e : Env} {place : String → String} {w : World} {binary : ManagedBinary}
  {target : RollbackBackup} {binaryName : String} {toVersion : Option String}

/-- Restoring places the bytes the backup file has by then. -/
theorem wp_restoreTarget {data : Bytes} (hdata : w.file (place target.backupPath) = some data) :
    wp (restoreTarget e place binary target)
      (fun _ w' => Placed (fun _ => False) (place binary.installPath) data w w')
      (fun _ w' => Touches (fun _ => False) w w') w := by
  unfold restoreTarget
  rw [wp_bind]
  refine wp_orThrow (fun parent _ => ?_) fun _ => .refl _ w
  refine wp_mono (fun _ _ h => h) (fun _ _ h => h.1)
    (wp_persistTemp_placed (F := True) (fun _ => trivial) (fun _ => trivial) fun temp hnone => ?_)
  have hne : place target.backupPath ≠ temp := by
    intro heq
    rw [heq, hnone] at hdata
    contradiction
  rw [wp_bind]
  refine wp_copyFile (fun b _ hb => ?_) fun _ _ _ h => ⟨h.mono fun _ => .inr, trivial⟩
  obtain rfl : b = data :=
    Option.some.inj (hb.symm.trans ((w.file_write_ne _ hne).trans hdata))
  rw [if_neg hne]
  have hfill : Touches (fun p => False ∨ p = temp) (w.write temp [])
      ((w.write temp []).write temp b) := .write (.inr rfl)
  rw [wp_bind]
  refine wp_guardIo (fun _ => ?_) fun _ _ => ⟨hfill, trivial⟩
  refine Preserves.wp (R := Touches fun _ => False) (.mapErr (preserves_validateInstallPath _ _))
    (fun _ _ h => ⟨hfill.trans (h.mono fun _ => False.elim), ?_⟩)
    fun _ _ h => ⟨hfill.trans (h.mono fun _ => False.elim), trivial⟩
  rw [h.file not_false]
  exact World.file_write_self _ _

/-- What a completed restore has done to the files. -/
structure TargetRestored (place : String → String) (binary : ManagedBinary)
    (target : RollbackBackup) (data : Bytes) (w w' : World) : Prop where
  file : w'.file (place binary.installPath) = some data
  /-- The bytes are those of the backup. -/
  apart : place (sigPathFor binary.installPath) ≠ place binary.installPath →
    w.file (place target.backupPath) = some data
  /-- Unless the sidecar, which is copied last, is the installed file itself. -/
  onto : place (sigPathFor binary.installPath) = place binary.installPath →
    (if place (sigPathFor target.backupPath) = place binary.installPath then some []
      else w.file (place (sigPathFor target.backupPath))) = some data
  frame : ∀ p, p ≠ place binary.installPath → p ≠ place (sigPathFor binary.installPath) →
    w'.file p = w.file p

/-- The sidecar is copied behind the backup. -/
theorem TargetRestored.of_placed {restored sig : Bytes} {w₁ w' : World}
    (hrestored : w.file (place target.backupPath) = some restored)
    (hsig : w.file (place (sigPathFor target.backupPath)) = some sig)
    (hplaced : Placed (fun _ => False) (place binary.installPath) restored w w₁)
    (hcopied : Touches (· = place (sigPathFor binary.installPath)) w₁ w')
    (hfile : w'.file (place (sigPathFor binary.installPath)) =
      (copyOf w₁ (place (sigPathFor target.backupPath))
        (place (sigPathFor binary.installPath))).or
          (w₁.file (place (sigPathFor binary.installPath)))) :
    ∃ data, TargetRestored place binary target data w w' := by
  have hframe : ∀ p, p ≠ place binary.installPath → p ≠ place (sigPathFor binary.installPath) →
      w'.file p = w.file p :=
    fun p hp hps => (hcopied.file hps).trans (hplaced.frame p not_false hp)
  by_cases hsame : place (sigPathFor binary.installPath) = place binary.installPath
  · rw [hsame] at hfile
    by_cases hback : place (sigPathFor target.backupPath) = place binary.installPath
    · refine ⟨[], ?_, fun h => absurd hsame h, fun _ => if_pos hback, hframe⟩
      rw [hfile, copyOf, hback, hplaced.file, Option.map_some, if_pos rfl]
      rfl
    · refine ⟨sig, ?_, fun h => absurd hsame h, fun _ => (if_neg hback).trans hsig, hframe⟩
      rw [hfile, copyOf, hplaced.frame _ not_false hback, hsig, Option.map_some, if_neg hback]
      rfl
  · exact ⟨restored, (hcopied.file (Ne.symm hsame)).trans hplaced.file, fun _ => hrestored,
      fun h => absurd h hsame, hframe⟩

/-- What a completed rollback has done after the snapshot. -/
structure RolledBack (place : String → String) (binary : ManagedBinary) (target : RollbackBackup)
    (data : Bytes) (w w' : World) : Prop extends TargetRestored place binary target data w w' where
  managed : ∀ b', b' ∈ w'.db.managed ↔ ∃ b ∈ w.db.managed,
    b' = setCurrent binary.binaryId target.versionId target.versionString b
  installed : ∀ r', r' ∈ w'.db.installed ↔ ∃ r ∈ w.db.installed,
    r' = markCurrent binary.binaryId target.versionId r
  backups : w'.db.backups = w.db.backups

/-- Why a rollback can fail after the rename: a fault, or a backup of a version
that is not recorded as installed. -/
def RollbackFault (e : Env) (db : ClientDb) (binary : ManagedBinary) (target : RollbackBackup) :
    Prop :=
  ¬ e.NoFault ∨ ¬ ∃ r ∈ db.installed, r.binaryId = binary.binaryId ∧ r.versionId = target.versionId

/-- A fault at any site is one. -/
theorem RollbackFault.of_site {db : ClientDb} {site : Site} (h : e.faults site ≠ none) :
    RollbackFault e db binary target := .inl fun hf => h (hf site)

/-- What a rollback that failed after the rename has done since the snapshot:
only the installed file, its sidecar and the version of the binary can differ. -/
structure HalfRolledBack (place : String → String) (binary : ManagedBinary) (w w' : World) :
    Prop where
  frame : ∀ p, p ≠ place binary.installPath → p ≠ place (sigPathFor binary.installPath) →
    w'.file p = w.file p
  backups : w'.db.backups = w.db.backups

/-- The database calls at the end of a rollback. -/
theorem wp_recordRolledBack {data : Bytes} {w₀ : World}
    (hrestored : TargetRestored place binary target data w₀ w) (hdb : w.db = w₀.db)
    (hmem : binary ∈ w.db.managed) {record : NewUpdateRecord}
    (hrecord : record.binaryId = binary.binaryId) :
    wp (do
        dbCall e .rollbackCurrent
          (updateCurrentVersion binary.binaryId target.versionId target.versionString)
        dbCall e .recordRollback (ClientDb.recordRollback e.now record))
      (fun _ w' => RolledBack place binary target data w₀ w')
      (fun _ w' => RollbackFault e w.db binary target ∧ HalfRolledBack place binary w₀ w') w := by
  have hb : w.db.hasBinary binary.binaryId = true := hasBinary_iff.mpr ⟨binary, hmem, rfl⟩
  rw [wp_bind]
  refine wp_dbCall (fun db hop => ?_) fun _ hwhy => ?_
  · obtain ⟨-, -, hmanaged, hinstalled, hbackups, -⟩ := updateCurrentVersion_ok hop
    refine wp_dbCall (fun db' hop' => ?_) fun _ hwhy => ?_
    · have hrows := recordRollback_ok hop'
      refine ⟨⟨hrestored.file, hrestored.apart, hrestored.onto, hrestored.frame⟩, fun b' => ?_,
        fun r' => ?_, ?_⟩
      · rw [hrows.managed, hmanaged, hdb]
      · rw [hrows.installed, hinstalled, hdb]
      · rw [hrows.backups, hbackups, hdb]
    · refine ⟨?_, hrestored.frame, by rw [hbackups, hdb]⟩
      rcases hwhy with hfault | hnever
      · exact .of_site hfault
      · have hb' : db.hasBinary record.binaryId = true :=
          hasBinary_iff.mpr ⟨_, (hmanaged _).mpr ⟨binary, hmem, rfl⟩,
            (binaryId_setCurrent _ _ _ binary).trans hrecord.symm⟩
        obtain ⟨db', hop'⟩ := exists_recordRollback hb'
        exact absurd hop' (hnever db')
  · refine ⟨?_, hrestored.frame, by rw [hdb]⟩
    rcases hwhy with hfault | hnever
    · exact .of_site hfault
    · refine .inr fun hrow => ?_
      obtain ⟨db, hop⟩ := exists_updateCurrentVersion hb hrow
      exact absurd hop (hnever db)

/-- The restore behind a completed snapshot. -/
theorem wp_restore {w₀ : World} (hmem : binary ∈ w.db.managed)
    (hinstalled : w.db.installed = w₀.db.installed)
    (hback : ∃ b, w.file (place target.backupPath) = some b)
    (hsig : ∃ sig, w.file (place (sigPathFor target.backupPath)) = some sig)
    {record : NewUpdateRecord} (hrecord : record.binaryId = binary.binaryId) :
    wp (do
        restoreTarget e place binary target
        restoreSidecar e place binary target
        dbCall e .rollbackCurrent
          (updateCurrentVersion binary.binaryId target.versionId target.versionString)
        dbCall e .recordRollback (ClientDb.recordRollback e.now record))
      (fun _ w' => ∃ data, RolledBack place binary target data w w')
      (fun _ w' => Touches (fun _ => False) w w' ∨
        RollbackFault e w₀.db binary target ∧ HalfRolledBack place binary w w') w := by
  obtain ⟨restored, hrestored⟩ := hback
  obtain ⟨sig, hsig⟩ := hsig
  rw [wp_bind]
  refine wp_mono (fun _ w₄ h₄ => ?_) (fun _ _ h => .inl h) (wp_restoreTarget hrestored)
  have hsidecar : w₄.file (place (sigPathFor target.backupPath)) ≠ none := by
    by_cases heq : place (sigPathFor target.backupPath) = place binary.installPath
    · rw [heq, h₄.file]
      exact Option.some_ne_none _
    · rw [h₄.frame _ not_false heq, hsig]
      exact Option.some_ne_none _
  rw [wp_bind]
  refine wp_mono (fun _ w₅ h₅ => ?_) (fun _ w₅ h₅ => .inr ⟨.of_site (h₅.1.resolve_right hsidecar),
    fun p hp hps => (h₅.2.file hps).trans (h₄.frame p not_false hp), by rw [h₅.2.db, h₄.db]⟩)
    wp_copyIfThere
  obtain ⟨data, hdone⟩ := TargetRestored.of_placed hrestored hsig h₄ h₅.1 h₅.2
  have hdb : w₅.db = w.db := h₅.1.db.trans h₄.db
  have hmem : binary ∈ w₅.db.managed := by
    rw [hdb]
    exact hmem
  refine wp_mono (fun _ _ h => ⟨data, h⟩) (fun _ _ h => .inr ⟨?_, h.2⟩)
    (wp_recordRolledBack hdone hdb hmem hrecord)
  have hfault := h.1
  unfold RollbackFault at hfault ⊢
  rw [hdb, hinstalled] at hfault
  exact hfault

/-- Every run of `perform_rollback`: it completes, and the installed bytes are
the ones the backup file had after the snapshot; or it fails and has at most
taken the snapshot; or it fails after the rename. -/
theorem wp_performRollback :
    wp (performRollback X e place binaryName toVersion)
      (fun _ w' => ∃ binary target checked data w₁,
        Selected w.db binaryName toVersion binary target ∧
        Verified X place binary target w checked ∧ Snapshotted X e place binary w w₁ ∧
        (∀ p, w₁.file p = afterSnapshot place e.config binary w p) ∧
        RolledBack place binary target data w₁ w')
      (fun _ w' => w' = w ∨ ∃ binary target, Selected w.db binaryName toVersion binary target ∧
        (Snapshotted X e place binary w w' ∨ RollbackFault e w.db binary target ∧
          ∃ w₁, Snapshotted X e place binary w w₁ ∧ HalfRolledBack place binary w₁ w')) w := by
  unfold performRollback
  rw [wp_bind]
  refine wp_mono ?_ (fun _ _ h => .inl h) wp_chooseBackup
  rintro ⟨binary, target⟩ w₀ ⟨h₀, hsel⟩
  subst h₀
  obtain ⟨hbinary, -, -⟩ := hsel.mem
  rw [wp_bind]
  refine wp_mono ?_ (fun _ _ h => .inr ⟨binary, target, hsel, .inl (.of_touches h)⟩)
    wp_verifyTarget
  rintro _ w₁ ⟨h₁, data, hverified⟩
  refine Preserves.wp_bind (R := Touches fun _ => False)
    (.mapErr (preserves_validateInstallPath _ _)) (fun _ w₂ h₂ => ?_)
    fun _ _ h => .inr ⟨binary, target, hsel, .inl (.of_touches (h₁.trans h))⟩
  have h₂ := h₁.trans h₂
  rw [wp_bind]
  refine wp_mono ?_ (fun _ _ h => .inr ⟨binary, target, hsel, .inl (h.of_quiet h₂)⟩)
    wp_snapshotInstalled
  rintro _ w₃ ⟨h₃, hexact⟩
  have h₃ : Snapshotted X e place binary w₀ w₃ := h₃.of_quiet h₂
  have hexact : ∀ p, w₃.file p = afterSnapshot place e.config binary w₀ p := by
    intro p
    rw [hexact, afterSnapshot, snapshotWrite_congr fun p => h₂.file not_false,
      h₂.file not_false]
    rfl
  have hmem : binary ∈ w₃.db.managed := by
    rw [h₃.managed]
    exact hbinary
  obtain ⟨-, sig, -, hsig, -⟩ := hverified.signed
  have hback : ∃ b, w₃.file (place target.backupPath) = some b := by
    rw [hexact]
    exact exists_afterSnapshot hverified.file
  have hsig : ∃ b, w₃.file (place (sigPathFor target.backupPath)) = some b := by
    rw [hexact]
    exact exists_afterSnapshot hsig
  refine wp_mono (fun _ w₄ h₄ => ?_) (fun _ w₄ h₄ => .inr ⟨binary, target, hsel, ?_⟩)
    (wp_restore hmem h₃.installed hback hsig rfl)
  · obtain ⟨restored, hrolled⟩ := h₄
    exact ⟨binary, target, data, restored, w₃, hsel, hverified, h₃, hexact, hrolled⟩
  · exact h₄.imp (fun h => h₃.then_quiet h) fun h => ⟨h.1, w₃, h₃, h.2⟩

/-! ## integrity -/

/-- The installed bytes have the hash of the row, and the sidecar of the backup
was a signature of the publisher for them. -/
def RestoresChecked (X : Crates) (place : String → String) (binary : ManagedBinary)
    (target : RollbackBackup) (w w' : World) : Prop :=
  ∃ data, w'.file (place binary.installPath) = some data ∧
    (X.crypto.blake3 data).val = target.backupHashBlake3 ∧
    SidecarAccepts X place binary target w (X.crypto.blake3 data)

/-- If the snapshot writes over the backup file, it writes bytes with the hash
of the row. -/
def SnapshotKeeps (X : Crates) (place : String → String) (cfg : ClientConfig)
    (binary : ManagedBinary) (target : RollbackBackup) (w : World) : Prop :=
  ∀ b, snapshotWrite place cfg binary w (place target.backupPath) = some b →
    (X.crypto.blake3 b).val = target.backupHashBlake3

/-- No copy of the rollback replaces the checked bytes by others: the snapshot does not, and if
the sidecar of the installed binary leads to the binary itself, the sidecar that is copied there
has the hash of the row, too. -/
structure CopiesKeep (X : Crates) (place : String → String) (cfg : ClientConfig)
    (binary : ManagedBinary) (target : RollbackBackup) (w : World) : Prop where
  snapshot : place (sigPathFor binary.installPath) ≠ place binary.installPath →
    SnapshotKeeps X place cfg binary target w
  sidecar : place (sigPathFor binary.installPath) = place binary.installPath →
    ∀ b, (if place (sigPathFor target.backupPath) = place binary.installPath then some []
      else afterSnapshot place cfg binary w (place (sigPathFor target.backupPath))) = some b →
    (X.crypto.blake3 b).val = target.backupHashBlake3

/-- The backup has the hash of the row behind the snapshot exactly if the snapshot keeps it. -/
theorem hash_afterSnapshot_iff {cfg : ClientConfig} {data restored : Bytes}
    (hverified : Verified X place binary target w data)
    (hrestored : afterSnapshot place cfg binary w (place target.backupPath) = some restored) :
    (X.crypto.blake3 restored).val = target.backupHashBlake3 ↔
      SnapshotKeeps X place cfg binary target w := by
  unfold SnapshotKeeps
  unfold afterSnapshot at hrestored
  cases hwrite : snapshotWrite place cfg binary w (place target.backupPath) with
  | none =>
      rw [hwrite, Option.none_or, hverified.file] at hrestored
      rw [← Option.some.inj hrestored]
      exact iff_of_true hverified.hash fun b hb => by contradiction
  | some b =>
      rw [hwrite] at hrestored
      rw [← Option.some.inj hrestored]
      exact ⟨fun h b' hb' => Option.some.inj hb' ▸ h, fun h => h b rfl⟩

/-- The restored bytes have the hash of the row exactly if the copies keep it. -/
theorem hash_restored_iff {data restored : Bytes} {w₁ w' : World}
    (hverified : Verified X place binary target w data)
    (hexact : ∀ p, w₁.file p = afterSnapshot place e.config binary w p)
    (hrestored : TargetRestored place binary target restored w₁ w') :
    (X.crypto.blake3 restored).val = target.backupHashBlake3 ↔
      CopiesKeep X place e.config binary target w := by
  by_cases hsame : place (sigPathFor binary.installPath) = place binary.installPath
  · have honto := hrestored.onto hsame
    rw [hexact] at honto
    exact ⟨fun h => ⟨fun hne => absurd hsame hne, fun _ b hb =>
        Option.some.inj (honto.symm.trans hb) ▸ h⟩, fun h => h.sidecar hsame _ honto⟩
  · have hback := hrestored.apart hsame
    rw [hexact] at hback
    rw [hash_afterSnapshot_iff hverified hback]
    exact ⟨fun h => ⟨fun _ => h, fun heq => absurd heq hsame⟩, fun h => h.snapshot hsame⟩

/-- Bytes with the hash of the row are checked. -/
theorem Verified.restoresChecked {data restored : Bytes} {w' : World}
    (hverified : Verified X place binary target w data)
    (hfile : w'.file (place binary.installPath) = some restored)
    (hhash : (X.crypto.blake3 restored).val = target.backupHashBlake3) :
    RestoresChecked X place binary target w w' := by
  have hsame : X.crypto.blake3 restored = X.crypto.blake3 data :=
    Subtype.ext (hhash.trans hverified.hash.symm)
  exact ⟨restored, hfile, hhash, hsame ▸ hverified.signed⟩

end Restore

/-- A completed rollback restores bytes that were checked if and only if none of its copies
replaces them by others, wherever the paths lead. -/
theorem performRollback_integrity (X : Crates) (e : Env) (place : String → String)
    (binaryName : String) (toVersion : Option String) (w w' : World)
    (hrun : exec (performRollback X e place binaryName toVersion) w = (.ok (), w')) :
    ∃ binary target, Selected w.db binaryName toVersion binary target ∧
      (RestoresChecked X place binary target w w' ↔
        CopiesKeep X place e.config binary target w) := by
  obtain ⟨binary, target, data, restored, w₁, hsel, hverified, -, hexact, hrolled⟩ :=
    wp_exec_ok wp_performRollback hrun
  refine ⟨binary, target, hsel, ?_⟩
  rw [← hash_restored_iff hverified hexact hrolled.toTargetRestored]
  constructor
  · rintro ⟨data', hdata', hhash, -⟩
    rw [Option.some.inj (hrolled.file.symm.trans hdata')]
    exact hhash
  · exact hverified.restoresChecked hrolled.file

/-! ### rolling back to the installed version -/

/-- The backup row of a version. -/
def sampleBackup (id : Nat) (version path : String) (binary : Bytes)
    (expiresAt : Option String) : RollbackBackup :=
  ⟨id, "b1", version, version, path, (sampleBlake3 binary).val, binary.length, 0, expiresAt⟩

/-- The backup that the update to version 1.1.0 made. -/
def sampleBackup1 : RollbackBackup :=
  sampleBackup 1 "1.0.0" "/data/backups/app_1.0.0.backup" [1] none

/-- The snapshot that a rollback from version 1.1.0 made. -/
def sampleBackup2 : RollbackBackup :=
  sampleBackup 2 "1.1.0" "/data/backups/app_1.1.0_pre_rollback.backup" [2]
    (some "1970-01-31 00:00:00")

/-- The client after an update to version 1.1.0, a rollback and a rollback of
the rollback, with these bytes installed. -/
def sampleWorld2 (installed : Bytes) : World where
  files := Files.ofList
    [("/opt/app", installed), ("/opt/app.sig", sampleSig2.val),
     ("/data/backups/app_1.0.0.backup", [1]), ("/data/backups/app_1.0.0.backup.sig", sampleSig1.val),
     ("/data/backups/app_1.1.0_pre_rollback.backup", [2]),
     ("/data/backups/app_1.1.0_pre_rollback.backup.sig", sampleSig2.val)]
  dirs := sampleDirs
  db :=
    { managed := ⟨[sampleBinaryAt "1.1.0"], by decide⟩
      installed := ⟨[sampleInstalled "1.0.0" [1] false, sampleInstalled "1.1.0" [2] true],
        by decide⟩
      backups := ⟨⟨[sampleBackup1, sampleBackup2], by decide⟩, 3, by
        intro r hr
        rcases List.mem_pair.mp hr with rfl | rfl
        · decide
        · decide⟩
      history := AutoTable.empty }
  log := []
  sent := []
  asked := []

/-- A rollback of `app`. -/
def sampleRollback (place : String → String) (toVersion : String) : M Unit :=
  performRollback sampleCrates (sampleEnv []) place "app" (some toVersion)

/-- Where a path leads if there are no links. -/
def samplePlace (p : String) : String := String.ofList (Lexical.normalize p.toList).text

/-- The same client, whose data directory was once spelled `/data/.`. -/
def sampleRespelled : World :=
  { sampleWorld2 [2] with
    db :=
      { (sampleWorld2 [2]).db with
        backups := ⟨⟨[sampleBackup 1 "1.0.0" "/data/./backups/app_1.0.0.backup" [1] none],
          by decide⟩, 3, by
            intro r hr
            rw [List.mem_singleton.mp hr]
            decide⟩ } }

/-- Rolling back to version 1.0.0 restores the checked bytes. -/
theorem performRollback_integrity_older :
    (exec (sampleRollback samplePlace "1.0.0") sampleRespelled).1 = .ok () ∧
      ∃ binary target, Selected sampleRespelled.db "app" (some "1.0.0") binary target ∧
        (RestoresChecked sampleCrates samplePlace binary target sampleRespelled
            (exec (sampleRollback samplePlace "1.0.0") sampleRespelled).2 ↔
          CopiesKeep sampleCrates samplePlace sampleConfig binary target sampleRespelled) := by
  have hrun : (exec (sampleRollback samplePlace "1.0.0") sampleRespelled).1 = .ok () := by
    decide +kernel
  exact ⟨hrun, performRollback_integrity sampleCrates (sampleEnv []) samplePlace "app"
    (some "1.0.0") sampleRespelled _ (exec_of_fst hrun)⟩

/-- After the installed file was modified, rolling back to the installed version
succeeds and restores the modified bytes. -/
theorem performRollback_restores_unchecked :
    ¬ ∀ (X : Crates) (e : Env) (place : String → String) (binaryName : String)
      (toVersion : Option String) (w w' : World),
      exec (performRollback X e place binaryName toVersion) w = (.ok (), w') →
      ∀ binary target, Selected w.db binaryName toVersion binary target →
        RestoresChecked X place binary target w w' := by
  intro h
  have hrun : (exec (sampleRollback id "1.1.0") (sampleWorld2 [3])).1 = .ok () := by decide +kernel
  have hfile : (exec (sampleRollback id "1.1.0") (sampleWorld2 [3])).2.file
      (sampleBinaryAt "1.1.0").installPath = some [3] := by decide +kernel
  have hsel : Selected (sampleWorld2 [3]).db "app" (some "1.1.0") (sampleBinaryAt "1.1.0")
      sampleBackup2 := ⟨by decide, by decide⟩
  obtain ⟨data, hdata, hhash, -⟩ := h sampleCrates (sampleEnv []) id "app" (some "1.1.0")
    (sampleWorld2 [3]) _ (exec_of_fst hrun) _ _ hsel
  have hne : (sampleCrates.crypto.blake3 [3]).val ≠ sampleBackup2.backupHashBlake3 := by
    decide
  rw [← Option.some.inj (hfile.symm.trans hdata)] at hhash
  exact hne hhash

end Deltaship
