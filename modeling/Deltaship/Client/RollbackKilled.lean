import Deltaship.Client.Killed
import Deltaship.Client.Rollback

/-!
# Deltaship.Client.RollbackKilled

`perform_rollback` that is killed.

The backup is renamed into place, so the installed bytes are the old ones or those of the backup
at any time, provided that the snapshot does not replace the backup by other bytes.  The snapshot
is complete before the rename, so the old bytes are not lost either (`performRollback_killed`),
provided that its two files, the installed binary and the sidecar of that are not the same files.
-/

namespace Deltaship

open Prog Script ClientDb

/-! ## the steps -/

namespace Stepwise

variable (X : Crates) (e : Env) (place : String → String)

/-- Copy a file if it is there. -/
def copyIfThere (site : Site) (msg src dst : String) : Script World String Unit :=
  .bind (whole (pathExists src)) fun found =>
    if found then .mapErr (fun _ => msg) (copyFile e site src dst) else whole (pure ())

/-- Carry the sidecar of the installed binary forward to the snapshot. -/
def snapshotSidecar (binary : ManagedBinary) : Script World String Unit :=
  let installSig := sigPathFor binary.installPath
  let preRollbackSig := sigPathFor (preRollbackPath e.config binary)
  copyIfThere e .snapshotSigCopy
    s!"Failed to copy signature sidecar: {debugPath installSig} -> {debugPath preRollbackSig}"
    (place installSig) (place preRollbackSig)

/-- Keep a copy of the installed binary. -/
def snapshotInstalled (binary : ManagedBinary) : Script World String Unit :=
  .bind (whole (pathExists (place binary.installPath))) fun installed =>
    if installed then
      .bind (whole (createDirAll e .createSnapshotDir (place e.config.backupsDir))) fun _ =>
      .bind (copyFile e .snapshotCopy (place binary.installPath)
        (place (preRollbackPath e.config binary))) fun _ =>
      .bind (snapshotSidecar e place binary) fun _ =>
      whole (recordSnapshot X e place binary)
    else whole (pure ())

/-- The filling of the temporary file that becomes the installed one. -/
def fillRestored (binary : ManagedBinary) (target : RollbackBackup) (temp : String) :
    Script World String Unit :=
  .bind (copyFile e .restoreTempCopy (place target.backupPath) temp) fun _ =>
  .bind (whole (guardIo e .restoreMode)) fun _ =>
  whole (context
    s!"Install path validation failed immediately before rollback write for '{binary.installPath}'"
    (validateInstallPath e.host binary.installPath))

/-- Copy the backup beside the install path and rename it into place. -/
def restoreTarget (binary : ManagedBinary) (target : RollbackBackup) : Script World String Unit :=
  .bind (whole (orThrow (parentPath binary.installPath) "Install path has no parent directory"))
    fun parent =>
  persistTemp e .restoreTemp .restorePersist (place parent) (place binary.installPath)
    (fun err => s!"Failed to create temp file for restore: {err}")
    (fun err => s!"Failed to atomically restore binary to {binary.installPath}: {err}")
    (fillRestored e place binary target)

/-- Restore the sidecar of the backup. -/
def restoreSidecar (binary : ManagedBinary) (target : RollbackBackup) : Script World String Unit :=
  let backupSig := sigPathFor target.backupPath
  let installSig := sigPathFor binary.installPath
  copyIfThere e .restoreSigCopy
    s!"Failed to restore signature sidecar: {debugPath backupSig} -> {debugPath installSig}"
    (place backupSig) (place installSig)

/-- The steps of `perform_rollback` behind the snapshot. -/
def restore (binary : ManagedBinary) (target : RollbackBackup) : Script World String Unit :=
  .bind (restoreTarget e place binary target) fun _ =>
  .bind (restoreSidecar e place binary target) fun _ =>
  .bind (whole (dbCall e .rollbackCurrent
    (updateCurrentVersion binary.binaryId target.versionId target.versionString))) fun _ =>
  whole (dbCall e .recordRollback
    (ClientDb.recordRollback e.now
      { binaryId := binary.binaryId
        fromVersionId := binary.currentVersionId
        fromVersionString := binary.currentVersionString
        toVersionId := target.versionId
        toVersionString := target.versionString }))

/-- `perform_rollback`.  Choosing and checking the backup changes nothing. -/
def performRollback (binaryName : String) (toVersion : Option String) :
    Script World String Unit :=
  .bind (whole (chooseBackup e binaryName toVersion)) fun r =>
  .bind (whole (verifyTarget X e place r.1 r.2)) fun _ =>
  .bind (whole (context
    s!"Install path validation failed for binary '{binaryName}' at '{r.1.installPath}'"
    (validateInstallPath e.host r.1.installPath))) fun _ =>
  .bind (snapshotInstalled X e place r.1) fun _ =>
  restore e place r.1 r.2

/-! ### it is the same rollback -/

section Run

variable {X e place} {binary : ManagedBinary} {target : RollbackBackup} {binaryName : String}
  {toVersion : Option String}

/-- The steps of a copy. -/
theorem run_copyIfThere {site : Site} {msg src dst : String} :
    (copyIfThere e site msg src dst).run = Deltaship.copyIfThere e site msg src dst := by
  unfold copyIfThere Deltaship.copyIfThere
  rw [run_bind, run_whole]
  refine congrArg (pathExists src >>= ·) (funext fun found => ?_)
  split
  · exact run_mapErr _ _
  · rfl

/-- The steps of the snapshot. -/
theorem run_snapshotInstalled :
    (snapshotInstalled X e place binary).run = Deltaship.snapshotInstalled X e place binary := by
  unfold snapshotInstalled Deltaship.snapshotInstalled
  rw [run_bind, run_whole]
  refine congrArg (pathExists (place binary.installPath) >>= ·) (funext fun installed => ?_)
  split
  · simp only [run_bind, run_whole, snapshotSidecar, run_copyIfThere]
    rfl
  · rfl

/-- The steps of the restore. -/
theorem run_restoreTarget :
    (restoreTarget e place binary target).run = Deltaship.restoreTarget e place binary target := by
  unfold restoreTarget Deltaship.restoreTarget
  simp only [run_bind, run_whole, run_persistTemp]
  rfl

/-- The steps are those of the rollback. -/
theorem run_performRollback :
    (performRollback X e place binaryName toVersion).run =
      Deltaship.performRollback X e place binaryName toVersion := by
  unfold performRollback restore restoreSidecar Deltaship.performRollback
  simp only [run_bind, run_whole, run_snapshotInstalled, run_restoreTarget, run_copyIfThere]
  rfl

end Run

end Stepwise

/-! ## what a killed rollback leaves -/

section Rollback

variable {X : Crates} {e : Env} {place : String → String} {cfg : ClientConfig}
  {binary : ManagedBinary} {target : RollbackBackup} {w w₁ w' : World} {binaryName : String}
  {toVersion : Option String} {data restored : Bytes}

/-- The files of a rollback are apart: the installed binary, its sidecar, the snapshot and the
sidecar of that. -/
structure FilesApart (place : String → String) (cfg : ClientConfig) (binary : ManagedBinary) :
    Prop where
  install : ¬ SnapshotFile place cfg binary (place binary.installPath)
  sidecar_install : place (sigPathFor binary.installPath) ≠ place binary.installPath
  sidecar_snapshot : place (sigPathFor binary.installPath) ≠ place (preRollbackPath cfg binary)
  snapshot : SidecarApart place cfg binary

/-- What `perform_rollback` may have done when it is killed. -/
structure RollbackStruck (X : Crates) (e : Env) (place : String → String) (binary : ManagedBinary)
    (target : RollbackBackup) (w w' : World) : Prop where
  installed : w'.file (place binary.installPath) = w.file (place binary.installPath) ∨
    RestoresChecked X place binary target w w'
  /-- Another version is recorded only once the backup is installed. -/
  recorded : w'.db.managed = w.db.managed ∨ RestoresChecked X place binary target w w'
  /-- The snapshot has the old bytes once they are not installed any more. -/
  kept : w'.file (place binary.installPath) = w.file (place binary.installPath) ∨
    ∀ b, w.file (place binary.installPath) = some b →
      w'.file (place (preRollbackPath e.config binary)) = some b

/-! ### before the rename -/

/-- Only files of the snapshot and rows of backups differ. -/
structure SnapshotStays (place : String → String) (cfg : ClientConfig) (binary : ManagedBinary)
    (w w' : World) : Prop where
  files : Files.AgreeOff (SnapshotFile place cfg binary) w.files w'.files
  managed : w'.db.managed = w.db.managed

instance : IsPreorder World (SnapshotStays place cfg binary) where
  refl w := ⟨.refl _ w.files, rfl⟩
  trans _ _ _ h h' := ⟨h.files.trans h'.files, h'.managed.trans h.managed⟩

/-- A step that touches no row stays in the snapshot. -/
theorem Touches.snapshotStays (h : Touches (SnapshotFile place cfg binary) w w') :
    SnapshotStays place cfg binary w w' := ⟨h.files, by rw [h.db]⟩

/-- Until the rename the old bytes are installed. -/
theorem RollbackStruck.of_snapshotStays (hap : FilesApart place e.config binary)
    (h : SnapshotStays place e.config binary w w') : RollbackStruck X e place binary target w w' :=
  have hsame : w'.file (place binary.installPath) = w.file (place binary.installPath) :=
    h.files _ hap.install
  ⟨.inl hsame, .inl h.managed, .inl hsame⟩

/-- A copy, as far as it gets. -/
theorem stays_copyIfThere {P : String → Prop} {site : Site} {msg src dst : String} (hdst : P dst) :
    Stays (Touches P) (Stepwise.copyIfThere e site msg src dst) := by
  refine .bind (.whole preserves_pathExists) fun found => ?_
  split
  · exact .mapErr (stays_copyFile hdst)
  · exact .whole .pure

/-- The snapshot, as far as it gets. -/
theorem stays_snapshotInstalled :
    Stays (SnapshotStays place e.config binary) (Stepwise.snapshotInstalled X e place binary) := by
  refine .bind (.whole preserves_pathExists) fun installed => ?_
  split
  · refine .bind (.whole (preserves_createDirAll_of fun w => ⟨.refl _ _, rfl⟩)) fun _ => ?_
    refine .bind ((stays_copyFile (.inl rfl)).mono fun _ _ => Touches.snapshotStays) fun _ => ?_
    refine .bind ((stays_copyIfThere (.inr rfl)).mono fun _ _ => Touches.snapshotStays) fun _ => ?_
    refine .whole (.of_wp fun w => ?_)
    refine wp_mono (fun _ w' h => ⟨?_, h.2.1⟩) (fun _ w' h => ?_) wp_recordSnapshot
    · rw [h.1]
      exact .refl _ _
    · rw [h]
      exact refl_of _ w
  · exact .whole .pure

/-! ### behind the snapshot -/

/-- The snapshot is complete, and the backup is still one that was checked. -/
structure Ready (X : Crates) (e : Env) (place : String → String) (binary : ManagedBinary)
    (target : RollbackBackup) (restored : Bytes) (w w₁ : World) : Prop where
  stays : SnapshotStays place e.config binary w w₁
  backup : w₁.file (place target.backupPath) = some restored
  checked : ∀ w', w'.file (place binary.installPath) = some restored →
    RestoresChecked X place binary target w w'
  copied : ∀ b, w.file (place binary.installPath) = some b →
    w₁.file (place (preRollbackPath e.config binary)) = some b

/-- The snapshot is a copy of the installed file. -/
theorem afterSnapshot_snapshot (hap : FilesApart place cfg binary)
    (h : w.file (place binary.installPath) = some data) :
    afterSnapshot place cfg binary w (place (preRollbackPath cfg binary)) = some data := by
  have hcopy : copyOf w (place binary.installPath) (place (preRollbackPath cfg binary)) =
      some data := by
    rw [copyOf, h, Option.map_some, if_neg fun heq => hap.install (.inl heq)]
  simp only [afterSnapshot, snapshotWrite]
  rw [if_neg (Ne.symm hap.snapshot), if_pos trivial, hcopy]
  rfl

/-- A completed snapshot that keeps the backup. -/
theorem Ready.of_afterSnapshot (hap : FilesApart place e.config binary)
    (hkeeps : SnapshotKeeps X place e.config binary target w)
    (hverified : Verified X place binary target w data)
    (hstays : SnapshotStays place e.config binary w w₁)
    (hexact : ∀ p, w₁.file p = afterSnapshot place e.config binary w p) :
    ∃ restored, Ready X e place binary target restored w w₁ := by
  have hback : ∃ b, afterSnapshot place e.config binary w (place target.backupPath) = some b :=
    exists_afterSnapshot hverified.file
  obtain ⟨restored, hrestored⟩ := hback
  have hhash := (hash_afterSnapshot_iff hverified hrestored).mpr hkeeps
  exact ⟨restored, hstays, (hexact _).trans hrestored,
    fun w' hfile => hverified.restoresChecked hfile hhash,
    fun b hb => (hexact _).trans (afterSnapshot_snapshot hap hb)⟩

/-- From the rename on. -/
theorem Ready.struck (h : Ready X e place binary target restored w w₁)
    (hfile : w'.file (place binary.installPath) = some restored)
    (hsame : ∀ b, w₁.file (place (preRollbackPath e.config binary)) = some b →
      w'.file (place (preRollbackPath e.config binary)) = some b) :
    RollbackStruck X e place binary target w w' :=
  ⟨.inr (h.checked w' hfile), .inr (h.checked w' hfile), .inr fun b hb => hsame b (h.copied b hb)⟩

/-- While the temporary file is filled and renamed. -/
theorem Ready.struck_of_placing (h : Ready X e place binary target restored w w₁)
    (hap : FilesApart place e.config binary)
    (hplacing : Placing e (fun _ => False) (place binary.installPath) restored w₁ w') :
    RollbackStruck X e place binary target w w' := by
  rcases hplacing.file with hold | hnew
  · have hsame := hold.trans (h.stays.files _ hap.install)
    exact ⟨.inl hsame, .inl (by rw [hplacing.db, h.stays.managed]), .inl hsame⟩
  · refine h.struck hnew fun b hb => ?_
    rw [hplacing.frame _ not_false (fun heq => hap.install (.inl heq.symm))
      (.inl (by rw [hb]; exact Option.some_ne_none b)), hb]

/-! ### the rename -/

/-- The temporary file is filled with the backup, as far as it gets. -/
theorem keeps_fillRestored {temp : String} (hdata : w.file (place target.backupPath) = some data)
    (hnone : w.file temp = none) :
    Keeps (fun w' => Touches (fun p => False ∨ p = temp) (w.write temp []) w')
      (Stepwise.fillRestored e place binary target temp) (fun _ w' => w'.file temp = some data)
      (fun _ _ => True) (w.write temp []) := by
  have hvalid : ∀ {R : World → World → Prop} [IsPreorder World R], Preserves R (context
      s!"Install path validation failed immediately before rollback write for '{binary.installPath}'"
      (validateInstallPath e.host binary.installPath)) :=
    .mapErr (preserves_validateInstallPath _ _)
  have hstays : Stays (Touches fun p => False ∨ p = temp)
      (Stepwise.fillRestored e place binary target temp) :=
    .bind (stays_copyFile (.inr rfl)) fun _ => .bind (.whole preserves_guardIo) fun _ =>
      .whole hvalid
  refine keeps_of_stays hstays (fun _ h => h) ?_
  have hne : place target.backupPath ≠ temp := by
    intro heq
    rw [heq, hnone] at hdata
    contradiction
  unfold Stepwise.fillRestored
  simp only [run_bind, run_whole, wp_bind]
  refine wp_copyFile (fun b _ hb => ?_) fun _ _ _ _ => trivial
  obtain rfl : b = data := Option.some.inj (hb.symm.trans ((w.file_write_ne _ hne).trans hdata))
  rw [if_neg hne]
  refine wp_guardIo (fun _ => ?_) fun _ _ => trivial
  refine Preserves.wp (R := SameDest temp) hvalid (fun _ w₁ h₁ => ?_) fun _ _ _ => trivial
  exact h₁.trans (World.file_write_self _ _)

/-- The rename of the restored file. -/
theorem keeps_restoreTarget (htemp : e.TempApart (place binary.installPath))
    (hdata : w.file (place target.backupPath) = some data) :
    Keeps (Placing e (fun _ => False) (place binary.installPath) data w)
      (Stepwise.restoreTarget e place binary target)
      (fun _ w' => Placed (fun _ => False) (place binary.installPath) data w w')
      (fun _ w' => Touches (fun _ => False) w w') w := by
  have hsame : Placing e (fun _ => False) (place binary.installPath) data w w :=
    .of_touches (.refl _ w) not_false
  refine keeps_bind (keeps_whole hsame ?_)
  refine wp_orThrow (fun parent _ => ⟨hsame, ?_⟩) fun _ => ⟨hsame, .refl _ w⟩
  exact keeps_persistTemp htemp not_false fun temp hnone => keeps_fillRestored hdata hnone

/-- The steps behind the snapshot. -/
theorem keeps_restore (hap : FilesApart place e.config binary)
    (htemp : e.TempApart (place binary.installPath))
    (hready : Ready X e place binary target restored w w₁) :
    Keeps (RollbackStruck X e place binary target w) (Stepwise.restore e place binary target)
      (fun _ _ => True) (fun _ _ => True) w₁ := by
  refine keeps_bind (keeps_imp (fun w' => hready.struck_of_placing hap)
    (keeps_mono (fun _ w₂ h₂ => ?_) (fun _ _ _ => trivial)
      (keeps_restoreTarget htemp hready.backup)))
  -- the sidecar is neither the installed file nor the snapshot
  have hlate : ∀ w' db, Touches (· = place (sigPathFor binary.installPath)) w₂ w' →
      RollbackStruck X e place binary target w { w' with db } := by
    intro w' db h
    refine hready.struck ((h.file (Ne.symm hap.sidecar_install)).trans h₂.file) fun b hb => ?_
    have hsnap := h₂.frame (place (preRollbackPath e.config binary)) not_false
      fun heq => hap.install (.inl heq.symm)
    exact (h.file (Ne.symm hap.sidecar_snapshot)).trans (hsnap.trans hb)
  have hstays : Stays (Touches (· = place (sigPathFor binary.installPath)))
      (Stepwise.restoreSidecar e place binary target) := stays_copyIfThere rfl
  refine keeps_bind (keeps_of_stays hstays (fun w' h => hlate w' w'.db h)
    (hstays.preserves.wp (fun _ w₃ h₃ => ?_) fun _ _ _ => trivial))
  have hlast := fun db => hlate w₃ db h₃
  refine keeps_bind (keeps_whole (hlast w₃.db) ?_)
  refine wp_dbCall (fun db _ => ⟨hlast db, ?_⟩) fun _ _ => ⟨hlast w₃.db, trivial⟩
  refine keeps_whole (hlast db) ?_
  exact wp_dbCall (fun db' _ => ⟨hlast db', trivial⟩) fun _ _ => ⟨hlast db, trivial⟩

/-! ### the whole rollback -/

/-- The snapshot behind steps that wrote nothing. -/
theorem keeps_snapshotInstalled (hap : FilesApart place e.config binary)
    (hkeeps : SnapshotKeeps X place e.config binary target w)
    (hverified : Verified X place binary target w data) (hquiet : Touches (fun _ => False) w w₁) :
    Keeps (RollbackStruck X e place binary target w) (Stepwise.snapshotInstalled X e place binary)
      (fun _ w' => ∃ restored, Ready X e place binary target restored w w') (fun _ _ => True)
      w₁ := by
  have hbefore : SnapshotStays place e.config binary w w₁ :=
    (hquiet.mono fun _ => False.elim).snapshotStays
  refine keeps_of_stays stays_snapshotInstalled
    (fun w' h => .of_snapshotStays hap (trans_of _ hbefore h)) ?_
  rw [Stepwise.run_snapshotInstalled]
  refine wp_mono (fun _ w₂ h₂ => ?_) (fun _ _ _ => trivial) wp_snapshotInstalled
  refine Ready.of_afterSnapshot hap hkeeps hverified
    (trans_of _ hbefore ⟨h₂.1.files, h₂.1.managed⟩) fun p => ?_
  rw [h₂.2, afterSnapshot, snapshotWrite_congr fun p => hquiet.file not_false,
    hquiet.file not_false]
  rfl

/-- Every stop of the rollback. -/
theorem keeps_performRollback (hsel : Selected w.db binaryName toVersion binary target)
    (hap : FilesApart place e.config binary)
    (hkeeps : SnapshotKeeps X place e.config binary target w)
    (htemp : e.TempApart (place binary.installPath)) :
    Keeps (RollbackStruck X e place binary target w)
      (Stepwise.performRollback X e place binaryName toVersion)
      (fun _ _ => True) (fun _ _ => True) w := by
  have hquiet : ∀ {w'}, Touches (fun _ => False) w w' →
      RollbackStruck X e place binary target w w' := fun h =>
    .of_snapshotStays hap (h.mono fun _ => False.elim).snapshotStays
  have hstart := hquiet (.refl _ w)
  refine keeps_bind (keeps_whole hstart ?_)
  refine wp_mono ?_ (fun _ w' (h : w' = w) => ⟨h ▸ hstart, trivial⟩) wp_chooseBackup
  rintro ⟨binary', target'⟩ w₀ ⟨rfl, hsel'⟩
  obtain rfl : binary' = binary := Option.some.inj (hsel'.known.symm.trans hsel.known)
  obtain rfl : target' = target := Option.some.inj (hsel'.selected.symm.trans hsel.selected)
  refine ⟨hstart, keeps_bind (keeps_whole hstart ?_)⟩
  refine wp_mono ?_ (fun _ _ h => ⟨hquiet h, trivial⟩) wp_verifyTarget
  rintro _ w₁ ⟨h₁, data, hverified⟩
  refine ⟨hquiet h₁, keeps_bind (keeps_whole (hquiet h₁) ?_)⟩
  refine Preserves.wp (R := Touches fun _ => False)
    (.mapErr (preserves_validateInstallPath _ _)) (fun _ w₂ h₂ => ?_)
    fun _ _ h => ⟨hquiet (h₁.trans h), trivial⟩
  have h₂ := h₁.trans h₂
  refine ⟨hquiet h₂, keeps_bind (keeps_mono (fun _ w₃ h₃ => ?_) (fun _ _ h => h)
    (keeps_snapshotInstalled hap hkeeps hverified h₂))⟩
  obtain ⟨restored, hready⟩ := h₃
  exact keeps_restore hap htemp hready

/-- Wherever `perform_rollback` is killed, the old binary is installed, or the checked backup is
and the snapshot has the old binary; and the database does not record the version of the backup
before. -/
theorem performRollback_killed (X : Crates) (e : Env) (place : String → String)
    (binaryName : String) (toVersion : Option String) (binary : ManagedBinary)
    (target : RollbackBackup) (w w' : World)
    (hsel : Selected w.db binaryName toVersion binary target)
    (hap : FilesApart place e.config binary)
    (hkeeps : SnapshotKeeps X place e.config binary target w)
    (htemp : e.TempApart (place binary.installPath))
    (hpass : (Stepwise.performRollback X e place binaryName toVersion).Passes w w') :
    RollbackStruck X e place binary target w w' :=
  (keeps_performRollback hsel hap hkeeps htemp).1 w' hpass

end Rollback

/-! ### a kill behind the rename -/

/-- The client after the checks of a rollback to version 1.0.0. -/
def sampleChecked : World :=
  (exec (verifyTarget sampleCrates (sampleEnv []) id (sampleBinaryAt "1.1.0") sampleBackup1)
    (sampleWorld2 [2])).2

/-- The client after the snapshot. -/
def sampleSnapshotted : World :=
  (exec (snapshotInstalled sampleCrates (sampleEnv []) id (sampleBinaryAt "1.1.0"))
    sampleChecked).2

/-- The client after the rename. -/
def sampleRestored : World :=
  (exec (restoreTarget (sampleEnv []) id (sampleBinaryAt "1.1.0") sampleBackup1)
    sampleSnapshotted).2

/-- A client that is killed before a byte of the sidecar is copied: version 1.0.0 is installed
with an empty sidecar, and version 1.1.0 is in the snapshot. -/
theorem performRollback_killed_late :
    (sampleRestored.write "/opt/app.sig" []).file "/opt/app" = some [1] ∧
      RollbackStruck sampleCrates (sampleEnv []) id (sampleBinaryAt "1.1.0") sampleBackup1
        (sampleWorld2 [2]) (sampleRestored.write "/opt/app.sig" []) := by
  have hsteps :
      (exec (chooseBackup (sampleEnv []) "app" (some "1.0.0")) (sampleWorld2 [2])) =
        (.ok (sampleBinaryAt "1.1.0", sampleBackup1), sampleWorld2 [2]) ∧
      (exec (verifyTarget sampleCrates (sampleEnv []) id (sampleBinaryAt "1.1.0") sampleBackup1)
        (sampleWorld2 [2])).1 = .ok () ∧
      exec (validateInstallPath sampleHost "/opt/app") sampleChecked = (.ok (), sampleChecked) ∧
      (exec (snapshotInstalled sampleCrates (sampleEnv []) id (sampleBinaryAt "1.1.0"))
        sampleChecked).1 = .ok () ∧
      (exec (restoreTarget (sampleEnv []) id (sampleBinaryAt "1.1.0") sampleBackup1)
        sampleSnapshotted).1 = .ok () ∧
      (sampleRestored.write "/opt/app.sig" []).file "/opt/app" = some [1] ∧
      sampleRestored.file "/data/backups/app_1.0.0.backup.sig" = some sampleSig1.val := by
    decide +kernel
  obtain ⟨hchoose, hverify, hvalidate, hsnapshot, hrestore, hfile, hsig⟩ := hsteps
  refine ⟨hfile, ?_⟩
  have hcontext : ∀ msg, exec (context msg (validateInstallPath sampleHost "/opt/app"))
      sampleChecked = (.ok (), sampleChecked) := by
    intro msg
    rw [context, exec_mapErr, hvalidate]
  have hsnapshot : exec (Stepwise.snapshotInstalled sampleCrates (sampleEnv []) id
      (sampleBinaryAt "1.1.0")).run sampleChecked = (.ok (), sampleSnapshotted) := by
    rw [Stepwise.run_snapshotInstalled]
    exact exec_of_fst hsnapshot
  have hrestore : exec (Stepwise.restoreTarget (sampleEnv []) id (sampleBinaryAt "1.1.0")
      sampleBackup1).run sampleSnapshotted = (.ok (), sampleRestored) := by
    rw [Stepwise.run_restoreTarget]
    exact exec_of_fst hrestore
  have hfound : exec (pathExists "/data/backups/app_1.0.0.backup.sig") sampleRestored =
      (.ok true, sampleRestored) := by
    refine congrArg (fun found => (Except.ok found, sampleRestored)) ?_
    rw [World.pathExists, hsig]
    rfl
  have hcopy : (Stepwise.restoreSidecar (sampleEnv []) id (sampleBinaryAt "1.1.0")
      sampleBackup1).Passes sampleRestored (sampleRestored.write "/opt/app.sig" []) :=
    passes_bind hfound (.inl (.inr (.inl ⟨sampleSig1.val, 0, hsig, rfl⟩)))
  have hpass : (Stepwise.performRollback sampleCrates (sampleEnv []) id "app"
      (some "1.0.0")).Passes (sampleWorld2 [2]) (sampleRestored.write "/opt/app.sig" []) :=
    passes_bind hchoose (passes_bind (exec_of_fst hverify) (passes_bind (hcontext _)
      (passes_bind hsnapshot (passes_bind hrestore (.inl hcopy)))))
  have hkeeps : SnapshotKeeps sampleCrates id sampleConfig (sampleBinaryAt "1.1.0") sampleBackup1
      (sampleWorld2 [2]) := by
    intro b hb
    have hnone : snapshotWrite id sampleConfig (sampleBinaryAt "1.1.0") (sampleWorld2 [2])
        (id sampleBackup1.backupPath) = none := by decide
    exact absurd (hb.symm.trans hnone) (Option.some_ne_none b)
  exact performRollback_killed sampleCrates (sampleEnv []) id "app" (some "1.0.0")
    (sampleBinaryAt "1.1.0") sampleBackup1 (sampleWorld2 [2]) _
    ⟨by decide, by decide⟩
    ⟨by decide, by decide, by decide, sidecarApart_id _ _⟩ hkeeps
    (tempApart_longName (fun _ => rfl) (by decide)) hpass

end Deltaship
