import Deltaship.Client.Apply

/-!
# Deltaship.Client.Cleanup

The `cleanup` and `prune-backups` commands.

Both delete a backup in the same way: first its row, then the file its row
names (`dropBackup`).  A file can be named by more than one row, and it is
removed with the first of them; `Dropped` says exactly which rows and files are
gone afterwards.
-/

namespace Deltaship

open Prog ClientDb

/-! ## the commands -/

section Commands

variable (X : Crates) (e : Env)

/-- Delete a backup: the row, and then the file, if the row could be deleted. -/
def dropBackup (backup : RollbackBackup) : M Unit := do
  match ← attempt (dbCall e (.deleteRow backup.backupId) (deleteBackup backup.backupId)) with
  | .error _ => pure ()
  | .ok _ =>
      if ← pathExists backup.backupPath then
        ignore (removeFile e (.removeBackup backup.backupId) backup.backupPath)
      else pure ()

/-- Delete some backups, or only list them. -/
def dropBackups (dryRun : Bool) (backups : List RollbackBackup) : M Unit :=
  if dryRun then pure () else forEach (dropBackup e) backups

/-- Whether a backup has expired.  The clock is read to the nanosecond. -/
def isExpired (backup : RollbackBackup) : Bool :=
  match backup.expiresAt.bind X.chrono.parse with
  | some expires => expires < e.now || expires == e.now && 0 < e.nanos
  | none => false

/-- The expired backups of one binary. -/
def dropExpired (dryRun : Bool) (binary : ManagedBinary) : M Unit := do
  guardIo e (.listBackupsOf binary.binaryId)
  let backups := (← get).db.listBackups binary.binaryId
  dropBackups e dryRun (backups.filter (isExpired X e))

/-- `cleanup_expired_backups`. -/
def cleanupExpiredBackups (dryRun : Bool) : M Unit := do
  if ← pathExists e.config.backupsDir then do
    guardIo e .listBinaries
    forEach (dropExpired X e dryRun) (← get).db.listBinaries
  else pure ()

/-- `Path::starts_with`, for a directory without a trailing slash. -/
def isUnder (dir p : String) : Bool := p == dir || Text.startsWith p (joinPath dir "")

/-- The extensions of temporary files. -/
def hasTempExtension (name : String) : Bool :=
  Text.endsWith name ".tmp" || Text.endsWith name ".part" || Text.endsWith name ".download"

/-- `is_deltaship_temp_file`. -/
def isDeltashipTempFile (path dataDir : String) : Bool :=
  match fileName path with
  | none => false
  | some name =>
      hasTempExtension name &&
        (Text.startsWith name "deltaship-" || Text.startsWith name ".partial_deltaship-" ||
          isUnder dataDir path)

/-- `cleanup_incomplete_downloads`. -/
def cleanupIncompleteDownloads (dryRun : Bool) : M Unit := do
  if ← pathExists e.config.downloadsDir then do
    let paths := (← get).files.paths.filter fun p =>
      isUnder e.config.downloadsDir p && isDeltashipTempFile p e.config.dataDir
    if dryRun then pure ()
    else forEach (fun p => ignore (removeFile e (.removeDownload p) p)) paths
  else pure ()

/-- A cast to a signed type with this many values. -/
def asSigned (size n : Nat) : Int :=
  if n % size < size / 2 then ((n % size : Nat) : Int) else ((n % size : Nat) : Int) - size

/-- `DEFAULT_HISTORY_AGE_DAYS`. -/
def defaultHistoryAgeDays : Nat := 90

/-- Whether an update started before a time.  The clock is read to the nanosecond. -/
def startedBefore (cutoff : Int) (update : UpdateHistory) : Bool :=
  update.startedAt < cutoff || update.startedAt == cutoff && 0 < e.nanos

/-- `cleanup_old_history`. -/
def cleanupOldHistory (dryRun : Bool) (maxAgeDays : Nat) : M Unit := do
  guardIo e .listBinaries
  let cutoff ← orThrow (X.chrono.daysBefore e.now (asSigned u64Size maxAgeDays)) "panicked"
  let binaries := (← get).db.listBinaries
  forEach (fun b => guardIo e (.recentUpdates b.binaryId)) binaries
  let db := (← get).db
  let old := binaries.flatMap fun b =>
    (db.getRecentUpdates b.binaryId 1000).filter (startedBefore e cutoff)
  if !dryRun && !old.isEmpty then
    dbCall e .deleteHistory (deleteUpdateHistory e.now (asSigned 0x100000000 maxAgeDays))
  else pure ()

/-- `run_cleanup`. -/
def runCleanup (dryRun : Bool) (maxAgeDays : Option Nat) : M Unit := do
  cleanupExpiredBackups X e dryRun
  cleanupIncompleteDownloads e dryRun
  cleanupOldHistory X e dryRun (maxAgeDays.getD defaultHistoryAgeDays)

/-- `run_prune_backups`. -/
def runPruneBackups (name : String) (keep : Nat) (dryRun : Bool) : M Unit := do
  bailIf (keep = 0) "Cannot keep 0 backups. Use at least --keep 1."
  guardIo e .getBinary
  let binary ← orThrow ((← get).db.getBinaryByName name) s!"Binary '{name}' not found"
  guardIo e (.listBackupsOf binary.binaryId)
  let backups := (← get).db.listBackups binary.binaryId
  if backups.length ≤ keep then pure () else dropBackups e dryRun (backups.drop keep)

end Commands

/-! ## what they delete -/

/- Both ways to delete backups come down to one step for one backup, which deletes its row and the
file that the row names. `Purged` says which rows a sequence of such steps has deleted, so that the
order of the steps and the way the rows were selected no longer matter. -/

section Dropped

variable {X : Crates} {e : Env} {w w₁ w' : World} {R R' : RollbackBackup → Prop}

/-- The backups in `R` were deleted: their rows, if nothing failed, and files
that one of their rows named; nothing else. -/
structure Dropped (e : Env) (R : RollbackBackup → Prop) (w w' : World) : Prop where
  frame : ∀ p, (∀ r ∈ w.db.backups, R r → r.backupPath ≠ p) → w'.file p = w.file p
  backups : ∀ r ∈ w'.db.backups, r ∈ w.db.backups
  gone : e.NoFault → ∀ r ∈ w'.db.backups, ¬ R r
  managed : w'.db.managed = w.db.managed

namespace Dropped

/-- Where nothing was done, nothing was dropped. -/
theorem refl (e : Env) (w : World) : Dropped e (fun _ => False) w w where
  frame _ _ := rfl
  backups _ h := h
  gone _ _ _ := not_false
  managed := rfl

/-- It matters which of the rows were dropped, not how that is said. -/
theorem congr (h : Dropped e R w w') (hR : ∀ r ∈ w.db.backups, R r ↔ R' r) :
    Dropped e R' w w' where
  frame p hp := h.frame p fun r hr h => hp r hr ((hR r hr).mp h)
  backups := h.backups
  gone hf r hr h' := h.gone hf r hr ((hR r (h.backups r hr)).mpr h')
  managed := h.managed

end Dropped

/-- The backups in `R` were deleted: their rows and the files these named, and
nothing else. -/
structure Purged (R : RollbackBackup → Prop) (w w' : World) : Prop where
  rows : ∀ r, r ∈ w'.db.backups ↔ r ∈ w.db.backups ∧ ¬ R r
  removed : ∀ r ∈ w.db.backups, R r → w'.file r.backupPath = none
  frame : ∀ p, (∀ r ∈ w.db.backups, R r → r.backupPath ≠ p) → w'.file p = w.file p
  managed : w'.db.managed = w.db.managed

namespace Purged

theorem refl (w : World) : Purged (fun _ => False) w w where
  rows _ := (and_iff_left not_false).symm
  removed _ _ h := h.elim
  frame _ _ := rfl
  managed := rfl

/-- A file stays as it is, or it is gone. -/
theorem file (h : Purged R w w') (p : String) : w'.file p = w.file p ∨ w'.file p = none := by
  by_cases hp : ∃ r ∈ w.db.backups, R r ∧ r.backupPath = p
  · obtain ⟨r, hr, hR, rfl⟩ := hp
    exact .inr (h.removed r hr hR)
  · exact .inl (h.frame p fun r hr hR heq => hp ⟨r, hr, hR, heq⟩)

/-- What is purged in two steps is purged. -/
theorem trans (h : Purged R w w₁) (h' : Purged R' w₁ w') :
    Purged (fun r => R r ∨ R' r) w w' where
  rows r := by rw [h'.rows, h.rows, not_or, and_assoc]
  removed r hr hR := by
    by_cases hfirst : R r
    · rcases h'.file r.backupPath with hsame | hgone
      · exact hsame.trans (h.removed r hr hfirst)
      · exact hgone
    · exact h'.removed r ((h.rows r).mpr ⟨hr, hfirst⟩) (hR.resolve_left hfirst)
  frame p hp := by
    rw [h'.frame p fun r hr hR => hp r ((h.rows r).mp hr).1 (.inr hR)]
    exact h.frame p fun r hr hR => hp r hr (.inl hR)
  managed := h'.managed.trans h.managed

/-- It matters which of the rows were purged, not how that is said. -/
theorem congr (h : Purged R w w') (hR : ∀ r ∈ w.db.backups, R r ↔ R' r) : Purged R' w w' where
  rows r := (h.rows r).trans (and_congr_right fun hr => not_congr (hR r hr))
  removed r hr h' := h.removed r hr ((hR r hr).mpr h')
  frame p hp := h.frame p fun r hr h => hp r hr ((hR r hr).mp h)
  managed := h.managed

theorem dropped (e : Env) (h : Purged R w w') : Dropped e R w w' where
  frame := h.frame
  backups r hr := ((h.rows r).mp hr).1
  gone _ r hr := ((h.rows r).mp hr).2
  managed := h.managed

end Purged

/-- Deleting a backup deletes its row and its file. -/
theorem wp_dropBackup {backup : RollbackBackup} (hf : e.NoFault)
    (hid : ∀ r ∈ w.db.backups, r.backupId = backup.backupId → r = backup) :
    wp (dropBackup e backup) (fun _ w' => Purged (· = backup) w w') (fun _ _ => False) w := by
  unfold dropBackup
  rw [wp_bind, wp_attempt]
  refine wp_dbCall (fun db hop => ?_) fun _ hwhy => ?_
  · obtain ⟨hmanaged, -, -, hrows⟩ := deleteBackup_ok hop
    obtain ⟨row, hrow, hrowid⟩ := exists_deleteBackup_iff.mp ⟨db, hop⟩
    obtain rfl : row = backup := hid row hrow hrowid
    have hpurged : ∀ w₁, w₁.db = db → w₁.file row.backupPath = none →
        (∀ p, p ≠ row.backupPath → w₁.file p = w.file p) → Purged (· = row) w w₁ := by
      intro w₁ hdb hgone hfile
      refine ⟨fun r => ?_, ?_, fun p hp => hfile p (hp row hrow rfl).symm, by rw [hdb, hmanaged]⟩
      · rw [hdb, hrows]
        exact and_congr_right fun hr => ⟨fun hne heq => hne (congrArg _ heq),
          fun hne heq => hne (hid r hr heq)⟩
      · rintro r - rfl
        exact hgone
    simp only [wp_bind]
    rw [wp_pathExists]
    split
    · rw [wp_ignore]
      refine wp_exec_snd (P := Purged (· = row) w) (wp_removeFile ?_ fun _ hwhy => ?_)
      · exact hpurged _ rfl (World.file_remove_self _) fun _ => World.file_remove_ne _
      · exact hpurged _ rfl (hwhy.resolve_left fun hfault => hfault (hf _)) fun _ _ => rfl
    · next hnot =>
        exact hpurged _ rfl (World.file_eq_none_of_not_pathExists _ (by simpa using hnot))
          fun _ _ => rfl
  · refine (Purged.refl w).congr fun r hr => ?_
    refine iff_of_false not_false fun heq => ?_
    obtain ⟨db, hop⟩ := exists_deleteBackup_iff.mpr ⟨r, hr, congrArg _ heq⟩
    exact hwhy.elim (fun hfault => hfault (hf _)) fun hnever => hnever db hop

/-- Deleting backups deletes exactly them. -/
theorem wp_forEach_dropBackup (hf : e.NoFault) (backups : List RollbackBackup) :
    ∀ w, (∀ b ∈ backups, ∀ r ∈ w.db.backups, r.backupId = b.backupId → r = b) →
    wp (forEach (dropBackup e) backups) (fun _ w' => Purged (· ∈ backups) w w')
      (fun _ _ => False) w := by
  induction backups with
  | nil =>
      intro w _
      exact (Purged.refl w).congr fun r _ => by simp
  | cons b rest ih =>
      intro w hid
      unfold forEach
      rw [wp_bind]
      refine wp_mono (fun _ w₁ h₁ => ?_) (fun _ _ h => h) (wp_dropBackup hf (hid b (by simp)))
      have hid₁ : ∀ b ∈ rest, ∀ r ∈ w₁.db.backups, r.backupId = b.backupId → r = b :=
        fun b hb r hr => hid b (List.mem_cons_of_mem _ hb) r ((h₁.rows r).mp hr).1
      refine wp_mono (fun _ w₂ h₂ => ?_) (fun _ _ h => h) (ih w₁ hid₁)
      exact (h₁.trans h₂).congr fun r _ => by simp

/-- All of the backups are dropped, unless it is a dry run. -/
theorem wp_dropBackups {dryRun : Bool} {backups : List RollbackBackup} (hf : e.NoFault)
    (hmem : ∀ b ∈ backups, b ∈ w.db.backups) :
    wp (dropBackups e dryRun backups)
      (fun _ w' => Purged (fun r => dryRun = false ∧ r ∈ backups) w w') (fun _ _ => False) w := by
  cases dryRun with
  | true => exact (Purged.refl w).congr fun r _ => by simp
  | false =>
      have hid : ∀ b ∈ backups, ∀ r ∈ w.db.backups, r.backupId = b.backupId → r = b :=
        fun b hb r hr heq => AutoTable.eq_of_key_eq hr (hmem b hb) heq
      refine wp_mono (fun _ w' h => ?_) (fun _ _ h => h) (wp_forEach_dropBackup hf backups w hid)
      exact h.congr fun r _ => by simp

/-- The backups a cleanup deletes: the expired ones of the known binaries. -/
def CleanedUp (X : Crates) (e : Env) (dryRun : Bool) (ids : List String) (r : RollbackBackup) :
    Prop :=
  dryRun = false ∧ isExpired X e r = true ∧ r.binaryId ∈ ids

/-- Of one binary, the backups that have expired are dropped. -/
theorem wp_dropExpired {dryRun : Bool} {binary : ManagedBinary} (hf : e.NoFault) :
    wp (dropExpired X e dryRun binary)
      (fun _ w' => Purged (CleanedUp X e dryRun [binary.binaryId]) w w') (fun _ _ => False)
      w := by
  unfold dropExpired
  rw [wp_bind]
  refine wp_guardIo (fun _ => ?_) fun _ h => h (hf _)
  rw [wp_bind, wp_get]
  refine wp_mono (fun _ w' h => ?_) (fun _ _ h => h) (wp_dropBackups hf fun b hb => ?_)
  · refine h.congr fun r hr => ?_
    simp only [CleanedUp, List.mem_filter, mem_listBackups, List.mem_singleton]
    exact and_congr_right fun _ => ⟨fun h => ⟨h.2, h.1.2⟩, fun h => ⟨⟨hr, h.2⟩, h.1⟩⟩
  · exact (mem_listBackups.mp (List.mem_filter.mp hb).1).1

/-- So it is with all binaries, one after the other. -/
theorem wp_forEach_dropExpired {dryRun : Bool} (hf : e.NoFault) (binaries : List ManagedBinary) :
    ∀ w, wp (forEach (dropExpired X e dryRun) binaries)
      (fun _ w' => Purged (CleanedUp X e dryRun (binaries.map (·.binaryId))) w w')
      (fun _ _ => False) w := by
  induction binaries with
  | nil =>
      intro w
      exact (Purged.refl w).congr fun r _ => by simp [CleanedUp]
  | cons b rest ih =>
      intro w
      unfold forEach
      rw [wp_bind]
      refine wp_mono (fun _ w₁ h₁ => ?_) (fun _ _ h => h) (wp_dropExpired hf)
      refine wp_mono (fun _ w₂ h₂ => ?_) (fun _ _ h => h) (ih w₁)
      refine (h₁.trans h₂).congr fun r _ => ?_
      simp only [CleanedUp, List.map_cons, List.mem_cons, List.not_mem_nil, or_false]
      tauto

/-- The ids of the known binaries. -/
def binaryIds (db : ClientDb) : List String := db.listBinaries.map (·.binaryId)

/-- Without faults the expired backups are deleted, unless there is no
directory for them. -/
theorem wp_cleanupExpiredBackups {dryRun : Bool} (hf : e.NoFault) :
    wp (cleanupExpiredBackups X e dryRun)
      (fun _ w' => Purged (fun r => w.pathExists e.config.backupsDir = true ∧
        CleanedUp X e dryRun (binaryIds w.db) r) w w') (fun _ _ => False) w := by
  unfold cleanupExpiredBackups
  rw [wp_bind, wp_pathExists]
  cases hdir : w.pathExists e.config.backupsDir with
  | true =>
      rw [if_pos rfl, wp_bind]
      refine wp_guardIo (fun _ => ?_) fun _ h => h (hf _)
      rw [wp_bind, wp_get]
      refine wp_mono (fun _ _ h => ?_) (fun _ _ h => h) (wp_forEach_dropExpired hf _ w)
      exact h.congr fun r _ => (and_iff_right rfl).symm
  | false => exact (Purged.refl w).congr fun r _ => by simp

/-- A file that is named like a temporary file. -/
def TempNamed (p : String) : Prop :=
  ".tmp".toList <:+ p.toList ∨ ".part".toList <:+ p.toList ∨ ".download".toList <:+ p.toList

/-- The name of a file ends its path. -/
theorem suffix_of_fileName {p name : String} (h : fileName p = some name) :
    name.toList <:+ p.toList := by
  unfold fileName at h
  simp only at h
  split at h
  · contradiction
  · rw [← Option.some.inj h, String.toList_ofList, ← List.reverse_prefix, List.reverse_reverse]
    exact List.takeWhile_prefix _

/-- A temporary file is known by the name that the client gives it. -/
theorem tempNamed_of_isDeltashipTempFile {path dataDir : String}
    (h : isDeltashipTempFile path dataDir = true) : TempNamed path := by
  unfold isDeltashipTempFile at h
  cases hname : fileName path with
  | none =>
      rw [hname] at h
      contradiction
  | some name =>
      simp only [hname, Bool.and_eq_true, hasTempExtension, Bool.or_eq_true, Text.endsWith,
        List.isSuffixOf_iff_suffix] at h
      have hsuffix := suffix_of_fileName hname
      rcases h.1 with (h | h) | h
      · exact .inl (h.trans hsuffix)
      · exact .inr (.inl (h.trans hsuffix))
      · exact .inr (.inr (h.trans hsuffix))

/-- The files that a cleanup of the downloads can remove. -/
def TempDownload (e : Env) (p : String) : Prop :=
  isUnder e.config.downloadsDir p = true ∧ TempNamed p

theorem preserves_cleanupIncompleteDownloads {dryRun : Bool} :
    Preserves (Touches (TempDownload e)) (cleanupIncompleteDownloads e dryRun) := by
  refine .bind preserves_pathExists fun _ => .ite ?_ .pure
  refine .of_wp fun w => ?_
  rw [wp_bind, wp_get]
  split
  · exact .refl _ w
  · have hall : ∀ p ∈ w.files.paths.filter (fun p =>
        isUnder e.config.downloadsDir p && isDeltashipTempFile p e.config.dataDir),
          TempDownload e p := by
      intro p hp
      have h := (List.mem_filter.mp hp).2
      rw [Bool.and_eq_true] at h
      exact ⟨h.1, tempNamed_of_isDeltashipTempFile h.2⟩
    exact (Preserves.forEach_of fun p hp => .ignore (preserves_removeFile (hall p hp))).wp
      (fun _ _ h => h) fun _ _ h => h

/-- Deleting history touches no file and no backup. -/
theorem preserves_cleanupOldHistory {dryRun : Bool} {maxAgeDays : Nat} :
    Preserves (Aside fun _ => False) (cleanupOldHistory X e dryRun maxAgeDays) := by
  refine .bind preserves_guardIo fun _ => .bind preserves_orThrow fun _ => .bind .get fun _ => ?_
  refine .bind (.forEach (fun _ => preserves_guardIo) _) fun _ => .bind .get fun _ => .ite ?_ .pure
  exact preserves_dbCall_aside deleteUpdateHistory_ok

/-- What a cleanup without faults does: the expired backups are deleted, and no
other file but temporary ones. -/
def AfterCleanup (X : Crates) (e : Env) (dryRun : Bool) (w w' : World) : Prop :=
  ∃ w₁, Purged (fun r => w.pathExists e.config.backupsDir = true ∧
      CleanedUp X e dryRun (binaryIds w.db) r) w w₁ ∧
    Aside (TempDownload e) w₁ w'

/-- Without faults a cleanup drops what has expired, files and rows. -/
theorem wp_runCleanup {dryRun : Bool} (maxAgeDays : Option Nat) (hf : e.NoFault) :
    wp (runCleanup X e dryRun maxAgeDays) (fun _ => AfterCleanup X e dryRun w)
      (fun _ => AfterCleanup X e dryRun w) w := by
  unfold runCleanup
  rw [wp_bind]
  refine wp_mono (fun _ w₁ h₁ => ?_) (fun _ _ h => h.elim) (wp_cleanupExpiredBackups hf)
  have hrest : Preserves (Aside (TempDownload e)) (do
      cleanupIncompleteDownloads e dryRun
      cleanupOldHistory X e dryRun (maxAgeDays.getD defaultHistoryAgeDays)) :=
    .bind (preserves_aside preserves_cleanupIncompleteDownloads) fun _ =>
      preserves_cleanupOldHistory.mono fun _ _ h => h.mono fun _ => False.elim
  exact hrest.wp (fun _ _ h => ⟨w₁, h₁, h⟩) fun _ _ h => ⟨w₁, h₁, h⟩

/-- The backups a prune deletes: all but the newest ones. -/
def Pruned (db : ClientDb) (name : String) (keep : Nat) (dryRun : Bool) (r : RollbackBackup) :
    Prop :=
  dryRun = false ∧ keep ≠ 0 ∧ ∃ binary, db.getBinaryByName name = some binary ∧
    r ∈ (db.listBackups binary.binaryId).drop keep

/-- Without faults a prune deletes all but the newest backups. -/
theorem wp_runPruneBackups {name : String} {keep : Nat} {dryRun : Bool} (hf : e.NoFault) :
    wp (runPruneBackups e name keep dryRun)
      (fun _ w' => Dropped e (Pruned w.db name keep dryRun) w w') (fun _ w' => w' = w) w := by
  unfold runPruneBackups
  simp only [wp_bind]
  refine wp_bailIf (fun hkeep => ?_) fun _ => rfl
  refine wp_guardIo (fun _ => ?_) fun _ h => absurd (hf _) h
  rw [wp_get]
  refine wp_orThrow (fun binary hbinary => ?_) fun _ => rfl
  refine wp_guardIo (fun _ => ?_) fun _ h => absurd (hf _) h
  rw [wp_get]
  have hpruned : ∀ r, Pruned w.db name keep dryRun r ↔
      dryRun = false ∧ r ∈ (w.db.listBackups binary.binaryId).drop keep := by
    intro r
    simp [Pruned, hkeep, hbinary]
  split
  · next hle =>
      refine (Dropped.refl e w).congr fun r _ => ?_
      rw [hpruned, List.drop_eq_nil_of_le hle]
      simp
  · refine wp_mono (fun _ _ h => (h.congr fun r _ => (hpruned r).symm).dropped e)
      (fun _ _ h => h.elim)
      (wp_dropBackups hf fun b hb => (mem_listBackups.mp (List.mem_of_mem_drop hb)).1)

end Dropped

end Deltaship
