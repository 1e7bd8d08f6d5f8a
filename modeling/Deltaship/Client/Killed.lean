import Deltaship.Client.Crash

/-!
# Deltaship.Client.Killed

`apply_update` that is killed.

Restoring the backup after a failed update has no temporary file: it copies over the installed
one.  A process that is killed there leaves a part of the old bytes, but then the backup has the
whole of them (`applyUpdate_killed`).  The database never runs ahead of the installed file.
-/

namespace Deltaship

open Prog Script ClientDb

/-! ## the steps -/

namespace Stepwise

variable (X : Crates) (e : Env)

/-- Copy the sidecar of the installed binary, if it has one. -/
def copySidecar (site : Site) (src dst : String) : Script World String Unit :=
  .bind (whole (pathExists (sigPathFor src))) fun found =>
    if found then
      .mapErr (fun _ => s!"Failed to copy signature sidecar: {debugPath (sigPathFor src)} -> {debugPath (sigPathFor dst)}")
        (copyFile e site (sigPathFor src) (sigPathFor dst))
    else whole (pure ())

/-- Back up the installed binary and its sidecar. -/
def makeBackup (mb : ManagedBinary) : Script World String (Option String) :=
  .bind (whole (pathExists mb.installPath)) fun installed =>
    if installed then
      .bind (.mapErr (fun _ => s!"Failed to create backup: {debugPath mb.installPath} -> {debugPath (backupPathFor e.config mb)}")
        (copyFile e .backupCopy mb.installPath (backupPathFor e.config mb))) fun _ =>
      .bind (copySidecar e .backupSigCopy mb.installPath (backupPathFor e.config mb)) fun _ =>
      whole (pure (some (backupPathFor e.config mb)))
    else whole (pure none)

/-- The steps of `apply_update` before the update itself. -/
def prepareUpdate (mb : ManagedBinary) (upd : UpdateInfo) :
    Script World String (Nat × Option String) :=
  .bind (whole (context
    s!"Install path validation failed for binary '{mb.binaryName}' at '{mb.installPath}'"
    (validateInstallPath e.host mb.installPath))) fun _ =>
  .bind (whole (checkSpace e mb upd)) fun _ =>
  .bind (whole (context "Failed to record update start in database"
    (dbQuery e .recordUpdateStart
      (ClientDb.recordUpdateStart e.now
        { binaryId := mb.binaryId
          fromVersionId := mb.currentVersionId
          fromVersionString := mb.currentVersionString
          toVersionId := upd.versionId
          toVersionString := X.semver.display upd.version })))) fun updateId =>
  .bind (whole (context s!"Failed to create backups directory: {debugPath e.config.backupsDir}"
    (createDirAll e .createBackupsDir e.config.backupsDir))) fun _ =>
  .bind (makeBackup e mb) fun backup =>
  whole (pure (updateId, backup))

/-- The success arm of `apply_update`. -/
def finishUpdate (mb : ManagedBinary) (upd : UpdateInfo) (updateId : Nat) (backup : Option String)
    (metrics : UpdateMetrics) : Script World String Unit :=
  .bind (whole (dbCall e .recordComplete
    (ClientDb.recordUpdateComplete updateId true none metrics))) fun _ =>
  .bind (whole (fileLen e .installedMetadata mb.installPath)) fun size =>
  .bind (whole (orThrow (X.crypto.blake3FromHex upd.checksum)
    "Failed to decode blake3 checksum from update info")) fun blake3 =>
  .bind (whole (context "Failed to compute sha256 of installed binary"
    (sha256File X e .sha256Installed mb.installPath))) fun sha256 =>
  .bind (whole (context "Failed to record installed version"
    (dbCall e .recordInstalled
      (ClientDb.recordInstalledVersion X.semver mb.binaryId upd.versionId
        (X.semver.display upd.version) blake3.val sha256.val size)))) fun _ =>
  .bind (whole (dbCall e .updateCurrent
    (ClientDb.updateCurrentVersion mb.binaryId upd.versionId (X.semver.display upd.version))))
    fun _ =>
  whole (recordBackup X e mb backup)

/-- Copy the backup back. -/
def restoreBackup (mb : ManagedBinary) (backup : Option String) :
    Script World String (Option String) :=
  match backup with
  | none => whole (pure none)
  | some path =>
    .bind (whole (pathExists path)) fun found =>
      if found then
        .bind (.attempt (copyFile e .restoreCopy path mb.installPath)) fun
          | .ok _ => whole (pure none)
          | .error err => whole (pure (some err))
      else whole (pure none)

/-- Record that the update failed and report why. -/
def recordFailure (updateId : Nat) (err : String) (restoreError : Option String) :
    Script World String Unit :=
  .bind (whole (dbCall e .recordFailure
    (ClientDb.recordUpdateComplete updateId false (some err) {}))) fun _ =>
  match restoreError with
  | some restoreErr =>
    whole (throw s!"Update failed: {err}. CRITICAL: Backup restore also failed: {restoreErr}. Binary may be in inconsistent state.")
  | none => whole (throw err)

/-- The failure arm of `apply_update`. -/
def abortUpdate (mb : ManagedBinary) (updateId : Nat) (backup : Option String) (err : String) :
    Script World String Unit :=
  .bind (restoreBackup e mb backup) (recordFailure e updateId err)

/-- `apply_update`. -/
def applyUpdate (mb : ManagedBinary) (upd : UpdateInfo) : Script World String Unit :=
  .bind (prepareUpdate X e mb upd) fun r =>
  .bind (.attempt (executeUpdate X e mb upd)) fun
    | .ok metrics => finishUpdate X e mb upd r.1 r.2 metrics
    | .error err => abortUpdate e mb r.1 r.2 err

/-! ### it is the same update -/

section Run

variable {X e} {mb : ManagedBinary} {upd : UpdateInfo} {metrics : UpdateMetrics}
  {updateId : Nat} {backup : Option String} {err : String}

/-- Copying a signature does the same when it is not killed. -/
theorem run_copySidecar {site : Site} {src dst : String} :
    (copySidecar e site src dst).run = Deltaship.copySidecar e site src dst := by
  unfold copySidecar Deltaship.copySidecar
  rw [run_bind, run_whole]
  congr 1
  funext found
  split
  · exact run_mapErr _ _
  · rfl

/-- So does making a backup. -/
theorem run_makeBackup : (makeBackup e mb).run = Deltaship.makeBackup e mb := by
  unfold makeBackup Deltaship.makeBackup
  rw [run_bind, run_whole]
  congr 1
  funext installed
  split
  · simp only [run_bind, run_mapErr, run_copySidecar]
    rfl
  · rfl

/-- So does everything before the update is executed. -/
theorem run_prepareUpdate :
    (prepareUpdate X e mb upd).run = Deltaship.prepareUpdate X e mb upd := by
  unfold prepareUpdate Deltaship.prepareUpdate
  simp only [run_bind, run_whole, run_makeBackup]

theorem run_restoreBackup :
    (restoreBackup e mb backup).run = Deltaship.restoreBackup e mb backup := by
  unfold restoreBackup Deltaship.restoreBackup
  cases backup with
  | none => rfl
  | some path =>
      dsimp only
      rw [run_bind, run_whole]
      congr 1
      funext found
      split
      · rw [run_bind, run_attempt]
        congr 1
        funext r
        cases r <;> rfl
      · rfl

theorem run_abortUpdate :
    (abortUpdate e mb updateId backup err).run =
      Deltaship.abortUpdate e mb updateId backup err := by
  unfold abortUpdate Deltaship.abortUpdate
  rw [run_bind, run_restoreBackup]
  congr 1
  funext restoreError
  cases restoreError <;> rfl

/-- The steps are those of the update. -/
theorem run_applyUpdate : (applyUpdate X e mb upd).run = Deltaship.applyUpdate X e mb upd := by
  unfold applyUpdate Deltaship.applyUpdate
  rw [run_bind, run_prepareUpdate]
  refine congrArg (Deltaship.prepareUpdate X e mb upd >>= ·) (funext fun r => ?_)
  obtain ⟨updateId, backup⟩ := r
  rw [run_bind, run_attempt, run_executeUpdate]
  refine congrArg (Prog.attempt (Deltaship.executeUpdate X e mb upd) >>= ·) (funext fun r => ?_)
  cases r with
  | ok metrics => rfl
  | error err => exact run_abortUpdate

end Run

end Stepwise

/-! ## what a killed update leaves -/

section Update

variable {X : Crates} {e : Env} {mb : ManagedBinary} {upd : UpdateInfo} {w w₁ w₂ w' : World}
  {updateId : Nat} {backup : Option String} {metrics : UpdateMetrics} {err : String}

/-- The checked and signed new bytes are installed. -/
def NewInstalled (X : Crates) (mb : ManagedBinary) (upd : UpdateInfo) (w : World) : Prop :=
  ∃ data sig, Hash.fromHex upd.checksum = .ok (X.crypto.blake3 data) ∧
    Accepted X mb upd data sig ∧ w.file mb.installPath = some data

/-- A part of the old bytes is installed, and the backup has the whole of them. -/
def TornRestore (e : Env) (mb : ManagedBinary) (w w' : World) : Prop :=
  ∃ old n, w.file mb.installPath = some old ∧ w'.file mb.installPath = some (old.take n) ∧
    w'.file (backupPathFor e.config mb) = some old

/-- What `apply_update` may have done when it is killed. -/
structure Struck (X : Crates) (e : Env) (mb : ManagedBinary) (upd : UpdateInfo) (w w' : World) :
    Prop where
  installed : w'.file mb.installPath = w.file mb.installPath ∨ NewInstalled X mb upd w' ∨
    TornRestore e mb w w'
  /-- Another version is recorded only once the new binary is installed. -/
  recorded : w'.db.managed = w.db.managed ∨ NewInstalled X mb upd w'

/-- When both files are swapped, the new binary is installed. -/
theorem Swapped.newInstalled {S : String → Prop} {data : Bytes} {sig : Signature}
    (h : Swapped X e mb upd S data sig w w') : NewInstalled X mb upd w' :=
  ⟨data, sig, h.checksum, h.accepted, h.file⟩

/-- It is a matter of the installed file only. -/
theorem NewInstalled.of_file (h : NewInstalled X mb upd w)
    (hfile : w'.file mb.installPath = w.file mb.installPath) : NewInstalled X mb upd w' := by
  obtain ⟨data, sig, hsum, haccepted, hdata⟩ := h
  exact ⟨data, sig, hsum, haccepted, hfile.trans hdata⟩

/-- Up to the update itself. -/
theorem Struck.of_aside (hap : Apart e.config mb upd) (h : Aside (BackupFile e.config mb) w w') :
    Struck X e mb upd w w' :=
  ⟨.inl (h.file hap.install_backup), .inl h.rows.managed⟩

/-! ### the preparation -/

/-- Before the update is executed only the backup is written, wherever it is killed. -/
theorem stays_prepareUpdate :
    Stays (Aside (BackupFile e.config mb)) (Stepwise.prepareUpdate X e mb upd) := by
  have hcopy : ∀ {site src dst}, BackupFile e.config mb dst →
      Stays (Aside (BackupFile e.config mb)) (Stepwise.copyFile e site src dst) := fun hdst =>
    (stays_copyFile hdst).mono fun _ _ => Touches.aside
  refine .bind (.whole (.mapErr (preserves_validateInstallPath _ _))) fun _ => ?_
  refine .bind (.whole preserves_checkSpace) fun _ => ?_
  refine .bind (.whole (.mapErr
    (preserves_dbQuery_aside fun hop => (recordUpdateStart_ok hop).2.1))) fun updateId => ?_
  refine .bind (.whole (.mapErr (preserves_aside preserves_createDirAll))) fun _ => ?_
  refine .bind (.bind (.whole preserves_pathExists) fun installed => ?_) fun _ => .whole .pure
  split
  · refine .bind (.mapErr (hcopy (.inl rfl))) fun _ => .bind ?_ fun _ => .whole .pure
    refine .bind (.whole preserves_pathExists) fun found => ?_
    split
    · exact .mapErr (hcopy (.inr rfl))
    · exact .whole .pure
  · exact .whole .pure

/-! ### the success arm -/

/-- The success arm changes no file. -/
theorem stays_finishUpdate :
    Stays (Booked X mb upd backup) (Stepwise.finishUpdate X e mb upd updateId backup metrics) := by
  refine .bind (.whole (preserves_dbCall_booked fun hop => ?_)) fun _ => ?_
  · have hrows := recordUpdateComplete_ok hop
    exact .of_rows rfl rfl hrows.managed hrows.backups
  refine .bind (.whole preserves_fileLen) fun size => .bind (.whole preserves_orThrow) fun _ => ?_
  refine .bind (.whole (.mapErr (.bind preserves_readFile fun _ => .pure))) fun sha256 => ?_
  refine .bind (.whole (.mapErr (preserves_dbCall_booked fun hop => ?_))) fun _ => ?_
  · obtain ⟨_, -, -, hmanaged, hbackups, -⟩ := recordInstalledVersion_ok hop
    exact .of_rows rfl rfl hmanaged hbackups
  refine .bind (.whole (preserves_dbCall_booked fun hop => ?_)) fun _ =>
    .whole preserves_recordBackup
  obtain ⟨-, -, hmanaged, -, hbackups, -⟩ := updateCurrentVersion_ok hop
  refine ⟨rfl, rfl, fun b' hb' => ?_, fun _ h => .inl (hbackups ▸ h)⟩
  obtain ⟨b, hb, rfl⟩ := (hmanaged b').mp hb'
  unfold setCurrent
  split
  · next hid => exact .inr ⟨hid, rfl, b, hb, rfl⟩
  · exact .inl hb

/-! ### the failure arm -/

/-- A copy keeps what each prefix of its source keeps. -/
theorem keeps_copyFile {I : World → Prop} {site : Site} {src dst : String} (hI : I w)
    (hwrite : ∀ b n, w.file src = some b → I (w.write dst (b.take n))) :
    Keeps I (Stepwise.copyFile e site src dst) (fun _ w' => I w') (fun _ w' => I w') w := by
  refine keeps_step hI ?_ ?_
  · rintro w' ⟨b, n, hb, rfl⟩
    exact hwrite b n hb
  · unfold copyFile
    rw [wp_bind, wp_get]
    cases hb : w.file src with
    | none => exact ⟨hI, hI⟩
    | some b =>
        have hpart : ∀ n, I (w.write dst ((if src = dst then [] else b).take n)) := by
          intro n
          split
          · rw [List.take_nil]
            exact hwrite b 0 hb
          · exact hwrite b n hb
        unfold writeFile
        dsimp only
        cases e.faults site with
        | none =>
            have hwhole := hpart (if src = dst then [] else b).length
            rw [List.take_length] at hwhole
            exact ⟨hwhole, hwhole⟩
        | some f =>
            simp only
            cases f.written with
            | none => exact ⟨hI, hI⟩
            | some n => exact ⟨hpart n, hpart n⟩

/-- The failure arm copies the old bytes back, and the backup has all of them. -/
theorem keeps_abortUpdate (hdb : w₂.db.managed = w.db.managed) (h₂ : Struck X e mb upd w w₂)
    (hcopy : ∀ path, backup = some path → path = backupPathFor e.config mb ∧
      mb.installPath ≠ path ∧ ∃ old, w.file mb.installPath = some old ∧ w₂.file path = some old) :
    Keeps (Struck X e mb upd w) (Stepwise.abortUpdate e mb updateId backup err)
      (fun _ _ => True) (fun _ _ => True) w₂ := by
  -- what is written to the history is not looked at
  have hrecord : ∀ restoreError w₃, Struck X e mb upd w w₃ →
      Keeps (Struck X e mb upd w) (Stepwise.recordFailure e updateId err restoreError)
        (fun _ _ => True) (fun _ _ => True) w₃ := by
    intro restoreError w₃ h₃
    refine keeps_bind (keeps_whole h₃ ?_)
    refine wp_dbCall (fun db hop => ?_) fun _ _ => ⟨h₃, trivial⟩
    have hrows := recordUpdateComplete_ok hop
    have h₄ : Struck X e mb upd w { w₃ with db } :=
      ⟨h₃.installed, h₃.recorded.imp_left hrows.managed.trans⟩
    refine ⟨h₄, ?_⟩
    cases restoreError with
    | none => exact keeps_whole h₄ ⟨h₄, trivial⟩
    | some restoreErr => exact keeps_whole h₄ ⟨h₄, trivial⟩
  refine keeps_bind (keeps_mono (fun restoreError w₃ h₃ => hrecord restoreError w₃ h₃)
    (fun (_ : String) _ h => h) ?_)
  unfold Stepwise.restoreBackup
  cases backup with
  | none => exact keeps_whole h₂ ⟨h₂, h₂⟩
  | some path =>
      obtain ⟨rfl, hne, old, hold, hbackup⟩ := hcopy path rfl
      refine keeps_bind (keeps_whole h₂ ⟨h₂, ?_⟩)
      split
      · refine keeps_bind (keeps_attempt (keeps_mono (fun _ w₃ h₃ => ?_) (fun _ w₃ h₃ => ?_)
          (keeps_copyFile h₂ fun b n hb => ?_)))
        · exact keeps_whole h₃ ⟨h₃, h₃⟩
        · exact keeps_whole h₃ ⟨h₃, h₃⟩
        · obtain rfl : b = old := Option.some.inj (hb.symm.trans hbackup)
          refine ⟨.inr (.inr ⟨b, n, hold, w₂.file_write_self _, ?_⟩), .inl hdb⟩
          exact (w₂.file_write_ne _ hne.symm).trans hbackup
      · exact keeps_whole h₂ ⟨h₂, h₂⟩

/-! ### the whole update -/

/-- Until the update itself ends. -/
theorem Struck.of_interrupted (hap : Apart e.config mb upd)
    (hprep : Aside (BackupFile e.config mb) w w₁) (h : Interrupted X e mb upd w₁ w') :
    Struck X e mb upd w w' := by
  have hmanaged : w'.db.managed = w.db.managed := by rw [h.db, hprep.rows.managed]
  refine ⟨?_, .inl hmanaged⟩
  rcases h.installed with ⟨hfile, -⟩ | ⟨data, sig, hsum, haccepted, hdata, -⟩
  · exact .inl (hfile.trans (hprep.file hap.install_backup))
  · exact .inr (.inl ⟨data, sig, hsum, haccepted, hdata⟩)

/-- Wherever `apply_update` is killed, the old binary is installed, or the checked and signed new
one, or a part of the old one whose backup is complete; and the database does not record the new
version before the new binary is installed. -/
theorem applyUpdate_killed (X : Crates) (e : Env) (mb : ManagedBinary) (upd : UpdateInfo)
    (w w' : World) (hap : Apart e.config mb upd) (hinstall : e.TempApart mb.installPath)
    (hsidecar : e.TempApart (sigPathFor mb.installPath))
    (hpass : (Stepwise.applyUpdate X e mb upd).Passes w w') : Struck X e mb upd w w' := by
  have hkeeps : Keeps (Struck X e mb upd w) (Stepwise.applyUpdate X e mb upd)
      (fun _ _ => True) (fun _ _ => True) w := by
    have hprepare : wp (Stepwise.prepareUpdate X e mb upd).run
        (fun r w' => Prepared e mb r w w') (fun _ _ => True) w := by
      rw [Stepwise.run_prepareUpdate]
      exact wp_mono (fun _ _ h => h) (fun _ _ _ => trivial) wp_prepareUpdate
    refine keeps_bind (keeps_mono (fun r w₁ hprep => ?_) (fun _ _ h => h)
      (keeps_of_stays stays_prepareUpdate (fun _ h => .of_aside hap h) hprepare))
    obtain ⟨updateId, backup⟩ := r
    -- the backup is complete before the update starts, and is not touched by it
    have hcopied : ∀ w₂ : World, w₂.file (backupPathFor e.config mb) =
        w₁.file (backupPathFor e.config mb) → ∀ path, backup = some path →
        path = backupPathFor e.config mb ∧ mb.installPath ≠ path ∧
          ∃ old, w.file mb.installPath = some old ∧ w₂.file path = some old := by
      intro w₂ hsame path hpath
      obtain ⟨rfl, old, hold, hcopy⟩ := hprep.copied path hpath
      exact ⟨rfl, hap.install_ne, old, hold, hsame.trans (hcopy hap.install_ne)⟩
    refine keeps_bind (keeps_attempt (keeps_imp (fun _ h => .of_interrupted hap hprep.aside h)
      (keeps_mono (fun metrics w₂ h₂ => ?_) (fun err w₂ h₂ => ?_)
        (keeps_executeUpdate hap hinstall hsidecar))))
    · obtain ⟨data, sig, hswap, -⟩ := h₂
      refine keeps_of_stays stays_finishUpdate (fun w₃ h₃ => ?_)
        (wp_mono (fun _ _ _ => trivial) (fun _ _ _ => trivial) wp_self)
      have hnew : NewInstalled X mb upd w₃ :=
        hswap.newInstalled.of_file (congrArg (Files.read · mb.installPath) h₃.files)
      exact ⟨.inr (.inl hnew), .inr hnew⟩
    · rcases h₂ with h₂ | ⟨-, data, sig, h₂⟩
      · have hmanaged : w₂.db.managed = w.db.managed := by rw [h₂.db, hprep.aside.rows.managed]
        refine keeps_abortUpdate hmanaged ⟨.inl ?_, .inl hmanaged⟩
          (hcopied w₂ (h₂.file hap.backup_download))
        exact (h₂.file hap.install_download).trans (hprep.aside.file hap.install_backup)
      · have hmanaged : w₂.db.managed = w.db.managed := by rw [h₂.db, hprep.aside.rows.managed]
        exact keeps_abortUpdate hmanaged ⟨.inr (.inl h₂.newInstalled), .inl hmanaged⟩
          (hcopied w₂ (h₂.frame _ hap.backup_download hap.install_ne.symm not_false))
  exact hkeeps.1 w' hpass

end Update

/-! ### a kill while the backup is copied back -/

/-- A client that cannot write the sidecar. -/
def fullDiskEnv : Env :=
  { sampleEnv (sampleFiles [2] sampleSig2) with
    faults := fun site =>
      if site = .sidecarWrite then some ⟨"No space left on device (os error 28)", none⟩ else none }

/-- The client after the preparation of the update to version 1.1.0. -/
def samplePrepared : World :=
  (exec (prepareUpdate sampleCrates fullDiskEnv (sampleBinaryAt "1.0.0")
    (sampleUpdate (.new 1 1 0) [2])) sampleWorld1).2

/-- The client after the update has failed behind the rename. -/
def sampleLate : World :=
  (exec (executeUpdate sampleCrates fullDiskEnv (sampleBinaryAt "1.0.0")
    (sampleUpdate (.new 1 1 0) [2])) samplePrepared).2

/-- The update fails, and the client is killed before a byte of the backup is copied back: the
installed file is empty. -/
theorem applyUpdate_killed_torn :
    (sampleLate.write "/opt/app" []).file "/opt/app" = some [] ∧
      Struck sampleCrates fullDiskEnv (sampleBinaryAt "1.0.0") (sampleUpdate (.new 1 1 0) [2])
        sampleWorld1 (sampleLate.write "/opt/app" []) := by
  refine ⟨World.file_write_self _ _, ?_⟩
  have hprepare : exec (Stepwise.prepareUpdate sampleCrates fullDiskEnv (sampleBinaryAt "1.0.0")
      (sampleUpdate (.new 1 1 0) [2])).run sampleWorld1 =
        (.ok (2, some "/data/backups/app_1.0.0.backup"), samplePrepared) := by
    rw [Stepwise.run_prepareUpdate]
    exact exec_of_fst (by decide +kernel)
  have hlate : (exec (executeUpdate sampleCrates fullDiskEnv (sampleBinaryAt "1.0.0")
      (sampleUpdate (.new 1 1 0) [2])) samplePrepared).1 =
        .error "Failed to write signature sidecar to temp file" ∧
      sampleLate.file "/data/backups/app_1.0.0.backup" = some [1] := by decide +kernel
  have hexecute : exec (attempt (Stepwise.executeUpdate sampleCrates fullDiskEnv
      (sampleBinaryAt "1.0.0") (sampleUpdate (.new 1 1 0) [2]))).run samplePrepared =
        (.ok (.error "Failed to write signature sidecar to temp file"), sampleLate) := by
    rw [run_attempt, exec_attempt, Stepwise.run_executeUpdate]
    exact Prod.ext (congrArg Except.ok hlate.1) rfl
  have hfound : sampleLate.pathExists "/data/backups/app_1.0.0.backup" = true := by
    rw [World.pathExists, hlate.2]
    rfl
  have hexists : exec (pathExists "/data/backups/app_1.0.0.backup") sampleLate =
      (.ok true, sampleLate) := congrArg (fun found => (Except.ok found, sampleLate)) hfound
  have hcopy : (Stepwise.copyFile fullDiskEnv .restoreCopy "/data/backups/app_1.0.0.backup"
      "/opt/app").Passes sampleLate (sampleLate.write "/opt/app" []) :=
    .inr (.inl ⟨[1], 0, hlate.2, rfl⟩)
  have hrestore : (Stepwise.restoreBackup fullDiskEnv (sampleBinaryAt "1.0.0")
      (some "/data/backups/app_1.0.0.backup")).Passes sampleLate (sampleLate.write "/opt/app" []) :=
    passes_bind hexists (.inl hcopy)
  have habort : (Stepwise.abortUpdate fullDiskEnv (sampleBinaryAt "1.0.0") 2
      (some "/data/backups/app_1.0.0.backup")
      "Failed to write signature sidecar to temp file").Passes sampleLate
        (sampleLate.write "/opt/app" []) := .inl hrestore
  exact applyUpdate_killed sampleCrates fullDiskEnv (sampleBinaryAt "1.0.0")
    (sampleUpdate (.new 1 1 0) [2]) sampleWorld1 _ sampleSecond_apart
    (tempApart_longName (fun _ => rfl) (by decide)) (tempApart_longName (fun _ => rfl) (by decide))
    (passes_bind hprepare (passes_bind hexecute habort))

end Deltaship
