import Deltaship.Db.Models
import Deltaship.Lib.Prog
import Deltaship.Lib.Table
import Mathlib.Data.List.Sort

/-!
# Deltaship.Db.Client

The client database: the tables of `deltaship-db::schema` and the operations
of `ClientDb` on them.

Every operation is a function from the database to a result and a database,
and a failing one returns no database: the source runs each in one statement
or one transaction, so a failure leaves the rows as they were.  The uniqueness
constraints are carried by the tables; the foreign keys are checked where a
row that refers to a binary is inserted.

Columns that no modelled operation reads are left out (`installed_at`,
`updated_at`, the times of an update).
-/

namespace Deltaship

/-! ## rows -/

/-- A row of `managed_binaries`. -/
structure ManagedBinary where
  binaryId : String
  binaryName : String
  platform : String
  installPath : String
  currentVersionId : Option String
  currentVersionString : Option String
  publisherPublicKey : Bytes
  autoUpdate : Bool
  lastCheckAt : Option Nat
deriving DecidableEq, Repr

/-- A row of `installed_versions`. -/
structure InstalledVersion where
  binaryId : String
  versionId : String
  versionString : String
  fileHashBlake3 : Bytes
  fileHashSha256 : Bytes
  fileSizeBytes : Nat
  isCurrent : Bool
deriving DecidableEq, Repr

/-- A row of `rollback_backups`.  `createdAt` is the second of insertion, which
the column keeps as a text of the same order. -/
structure RollbackBackup where
  backupId : Nat
  binaryId : String
  versionId : String
  versionString : String
  backupPath : String
  backupHashBlake3 : Bytes
  backupSizeBytes : Nat
  createdAt : Nat
  expiresAt : Option String
deriving DecidableEq, Repr

/-- `UpdateMetrics`, without the measured times. -/
structure UpdateMetrics where
  diffId : Option String := none
  diffAlgorithm : Option String := none
  diffSizeBytes : Option Nat := none
  fullSizeBytes : Option Nat := none
  actualDownloadedBytes : Option Nat := none
deriving DecidableEq, Repr

/-- `UpdateHistoryStatus`, as far as the client writes it. -/
inductive UpdateHistoryStatus where
  | downloading
  | completed
  | failed
  | rolledBack
deriving DecidableEq, Repr

/-- `NewUpdateRecord`. -/
structure NewUpdateRecord where
  binaryId : String
  fromVersionId : Option String
  fromVersionString : Option String
  toVersionId : String
  toVersionString : String
deriving DecidableEq, Repr

/-- A row of `update_history`. -/
structure UpdateHistory where
  updateId : Nat
  record : NewUpdateRecord
  metrics : UpdateMetrics
  startedAt : Nat
  status : UpdateHistoryStatus
  success : Option Bool
  errorMessage : Option String
deriving DecidableEq, Repr

/-- `NewManagedBinary`. -/
structure NewManagedBinary where
  binaryId : String
  binaryName : String
  platform : String
  installPath : String
  publisherPublicKey : Bytes
deriving DecidableEq, Repr

/-- The database of one client. -/
structure ClientDb where
  managed : Table ManagedBinary String (·.binaryId)
  installed : Table InstalledVersion (String × String) fun r => (r.binaryId, r.versionId)
  backups : AutoTable RollbackBackup (·.backupId)
  history : AutoTable UpdateHistory (·.updateId)
deriving DecidableEq

namespace ClientDb

/-- The database after `init`. -/
def empty : ClientDb := ⟨Table.empty, Table.empty, AutoTable.empty, AutoTable.empty⟩

/-- The row of `managed_binaries` with an id. -/
def getBinary (db : ClientDb) (binaryId : String) : Option ManagedBinary :=
  db.managed.find fun b => b.binaryId == binaryId

/-- `get_binary_by_name`. -/
def getBinaryByName (db : ClientDb) (binaryName : String) : Option ManagedBinary :=
  db.managed.find fun b => b.binaryName == binaryName

/-- `list_binaries`: ordered by name. -/
def listBinaries (db : ClientDb) : List ManagedBinary :=
  db.managed.rows.insertionSort fun a b => a.binaryName ≤ b.binaryName

/-- `list_backups`: the rows of one binary, newest first. -/
def listBackups (db : ClientDb) (binaryId : String) : List RollbackBackup :=
  (db.backups.rows.filter fun r => r.binaryId == binaryId).insertionSort
    fun a b => b.createdAt ≤ a.createdAt

/-- `REFERENCES managed_binaries(binary_id)`. -/
def hasBinary (db : ClientDb) (binaryId : String) : Bool := (db.getBinary binaryId).isSome

/-- The error of a foreign key that refers to no row. -/
def foreignKeyError : DbError := .constraintViolation "FOREIGN KEY constraint failed"

/-- `register_binary`. -/
def registerBinary (b : NewManagedBinary) (db : ClientDb) : Except DbError ClientDb := do
  validatePlatform b.platform
  Except.ensure (db.getBinaryByName b.binaryName = none)
    (.duplicate "UNIQUE constraint failed: managed_binaries.binary_name")
  let row : ManagedBinary :=
    ⟨b.binaryId, b.binaryName, b.platform, b.installPath, none, none, b.publisherPublicKey,
      true, none⟩
  let managed ← Except.ofOption
    (.duplicate "UNIQUE constraint failed: managed_binaries.binary_id") (db.managed.insert row)
  pure { db with managed }

/-- `set_last_check`. -/
def setLastCheck (binaryId : String) (now : Nat) (db : ClientDb) : Except DbError ClientDb :=
  if db.hasBinary binaryId then
    .ok { db with
      managed := db.managed.update (fun b => b.binaryId == binaryId)
        (fun b => { b with lastCheckAt := some now }) fun _ => rfl }
  else .error (.notFound s!"Binary not found: '{binaryId}'")

/-- `delete_managed_binary`.  `ON DELETE CASCADE` takes the rows that refer to the binary. -/
def deleteManagedBinary (binaryId : String) (db : ClientDb) : Except DbError ClientDb :=
  if db.hasBinary binaryId then
    .ok {
      managed := db.managed.delete fun b => b.binaryId == binaryId
      installed := db.installed.delete fun r => r.binaryId == binaryId
      backups := db.backups.delete fun r => r.binaryId == binaryId
      history := db.history.delete fun r => r.record.binaryId == binaryId }
  else .error (.notFound s!"Binary not found: '{binaryId}'")

/-! ## versions -/

/-- `record_installed_version`. -/
def recordInstalledVersion (S : SemverCrate) (binaryId versionId versionString : String)
    (fileHashBlake3 fileHashSha256 : Bytes) (fileSizeBytes : Nat) (db : ClientDb) :
    Except DbError ClientDb := do
  validateHashSize fileHashBlake3 blake3HashSize "File Blake3"
  validateHashSize fileHashSha256 sha256HashSize "File SHA-256"
  let normalizedVersion ← normalizeVersionString S versionString
  Except.ensure (fileSizeBytes ≠ 0)
    (.invalidData s!"File size must be positive, got {fileSizeBytes}")
  Except.ensure (db.hasBinary binaryId) foreignKeyError
  let row : InstalledVersion :=
    ⟨binaryId, versionId, normalizedVersion, fileHashBlake3, fileHashSha256, fileSizeBytes, false⟩
  let installed ← Except.ofOption
    (.duplicate
      "UNIQUE constraint failed: installed_versions.binary_id, installed_versions.version_id")
    (db.installed.insert row)
  pure { db with installed }

/-- The row an `installed_versions` row becomes when a version is made current. -/
def markCurrent (binaryId versionId : String) (r : InstalledVersion) : InstalledVersion :=
  if r.binaryId = binaryId then { r with isCurrent := r.versionId == versionId } else r

theorem key_markCurrent (binaryId versionId : String) (r : InstalledVersion) :
    ((markCurrent binaryId versionId r).binaryId, (markCurrent binaryId versionId r).versionId) =
      (r.binaryId, r.versionId) := by
  unfold markCurrent
  split <;> rfl

/-- The row a `managed_binaries` row becomes when a version is made current. -/
def setCurrent (binaryId versionId versionString : String) (b : ManagedBinary) : ManagedBinary :=
  if b.binaryId = binaryId then
    { b with
      currentVersionId := some versionId
      currentVersionString := some versionString }
  else b

theorem binaryId_setCurrent (binaryId versionId versionString : String) (b : ManagedBinary) :
    (setCurrent binaryId versionId versionString b).binaryId = b.binaryId := by
  unfold setCurrent
  split <;> rfl

/-- `update_current_version`: clear `is_current`, set the binary's version and
set `is_current` on its row, or leave everything as it was. -/
def updateCurrentVersion (binaryId versionId versionString : String) (db : ClientDb) :
    Except DbError ClientDb :=
  if !db.hasBinary binaryId then
    .error (.notFound s!"Binary not found: '{binaryId}'")
  else if (db.installed.find fun r => r.binaryId == binaryId && r.versionId == versionId).isNone then
    .error (.notFound
      s!"Version {versionId} not found in installed_versions for binary {binaryId}. Call record_installed_version() before update_current_version().")
  else
    .ok { db with
      installed := db.installed.update (fun _ => true) (markCurrent binaryId versionId)
        (key_markCurrent binaryId versionId)
      managed := db.managed.update (fun _ => true) (setCurrent binaryId versionId versionString)
        (binaryId_setCurrent binaryId versionId versionString) }

/-! ## backups -/

/-- `create_backup`. -/
def createBackup (S : SemverCrate) (now : Nat)
    (binaryId versionId versionString backupPath : String) (backupHashBlake3 : Bytes)
    (backupSizeBytes : Nat) (expiresAt : Option String) (db : ClientDb) :
    Except DbError ClientDb := do
  validateHashSize backupHashBlake3 blake3HashSize "Backup Blake3"
  (expiresAt.map validateExpiresAtTimestamp).getD (.ok ())
  let normalizedVersion ← normalizeVersionString S versionString
  Except.ensure (db.hasBinary binaryId) foreignKeyError
  let row : Nat → RollbackBackup := fun n =>
    ⟨n, binaryId, versionId, normalizedVersion, backupPath, backupHashBlake3, backupSizeBytes,
      now, expiresAt⟩
  pure { db with backups := db.backups.insert row fun _ => rfl }

/-- `delete_backup`. -/
def deleteBackup (backupId : Nat) (db : ClientDb) : Except DbError ClientDb :=
  if db.backups.rows.any fun r => r.backupId == backupId then
    .ok { db with backups := db.backups.delete fun r => r.backupId == backupId }
  else .error (.notFound s!"Backup not found: '{backupId}'")

/-- `delete_expired_backups`; the times are compared as texts. -/
def deleteExpiredBackups (now : String) (db : ClientDb) : ClientDb :=
  { db with backups := db.backups.delete fun b => b.expiresAt.any (· < now) }

/-- `get_backup_by_version`: the newest backup with this text for its version. -/
def getBackupByVersion (db : ClientDb) (binaryId versionString : String) :
    Option RollbackBackup :=
  (db.listBackups binaryId).find? fun r => r.versionString == versionString

/-! ## update history -/

/-- `record_update_start`: the new row's id and the database with it. -/
def recordUpdateStart (now : Nat) (record : NewUpdateRecord) (db : ClientDb) :
    Except DbError (Nat × ClientDb) :=
  if !db.hasBinary record.binaryId then .error foreignKeyError
  else
    let row : Nat → UpdateHistory := fun n => ⟨n, record, {}, now, .downloading, none, none⟩
    .ok (db.history.next, { db with history := db.history.insert row fun _ => rfl })

/-- `record_update_complete`. -/
def recordUpdateComplete (updateId : Nat) (success : Bool) (errorMessage : Option String)
    (metrics : UpdateMetrics) (db : ClientDb) : Except DbError ClientDb :=
  if db.history.rows.any fun r => r.updateId == updateId then
    .ok { db with
      history := db.history.update (fun r => r.updateId == updateId)
        (fun r => { r with
          metrics := metrics
          status := if success then .completed else .failed
          success := some success
          errorMessage := errorMessage }) fun _ => rfl }
  else .error (.notFound s!"Update record not found: '{updateId}'")

/-- `record_rollback`. -/
def recordRollback (now : Nat) (record : NewUpdateRecord) (db : ClientDb) :
    Except DbError ClientDb :=
  if !db.hasBinary record.binaryId then .error foreignKeyError
  else
    let row : Nat → UpdateHistory := fun n => ⟨n, record, {}, now, .rolledBack, some true, none⟩
    .ok { db with history := db.history.insert row fun _ => rfl }

/-- `get_recent_updates`: the newest rows of one binary. -/
def getRecentUpdates (db : ClientDb) (binaryId : String) (limit : Nat) : List UpdateHistory :=
  ((db.history.rows.filter fun r => r.record.binaryId == binaryId).insertionSort
    fun a b => b.startedAt ≤ a.startedAt).take limit

/-- `delete_update_history`: the rows older than a number of days. -/
def deleteUpdateHistory (now : Nat) (days : Int) (db : ClientDb) : Except DbError ClientDb :=
  if days ≤ 0 then .error (.invalidData s!"Days must be positive, got {days}")
  else .ok { db with history := db.history.delete fun r => r.startedAt + 86400 * days < now }

end ClientDb

end Deltaship
