import Deltaship.Client.Execute
import Deltaship.Db.Rows

/-!
# Deltaship.Client.Apply

What the parts of `apply_update` around the update itself do: the preparation
with the backup (`Prepared`), the success arm, which only writes the database
(`Booked`), and the failure arm, which copies the backup back (`Restored`).
-/

namespace Deltaship

open Prog ClientDb

/-! ## frames -/

/-- Only files in `P` and the update history changed, and nothing was renamed. -/
structure Aside (P : String → Prop) (w w' : World) : Prop where
  files : Files.AgreeOff P w.files w'.files
  rows : SameRows w.db w'.db
  log : ∃ evs, w'.log = w.log ++ evs ∧ Quiet evs

theorem Touches.aside {P : String → Prop} {w w' : World} (h : Touches P w w') : Aside P w w' :=
  ⟨h.files, h.db ▸ .refl _, h.log⟩

namespace Aside

variable {P P' : String → Prop} {w w' w'' : World}

/-- Where nothing was done, nothing was done aside. -/
theorem refl (P : String → Prop) (w : World) : Aside P w w := (Touches.refl P w).aside

/-- What is done aside in two steps is done aside. -/
theorem trans (h : Aside P w w') (h' : Aside P w' w'') : Aside P w w'' := by
  obtain ⟨evs, hlog, hq⟩ := h.log
  obtain ⟨evs', hlog', hq'⟩ := h'.log
  exact ⟨h.files.trans h'.files, h.rows.trans h'.rows, evs ++ evs',
    by rw [hlog', hlog, List.append_assoc], hq.append hq'⟩

instance : IsPreorder World (Aside P) where
  refl := refl P
  trans _ _ _ := trans

theorem mono (h : Aside P w w') (hP : ∀ p, P p → P' p) : Aside P' w w' :=
  ⟨h.files.mono hP, h.rows, h.log⟩

/-- A file at another path is what it was. -/
theorem file (h : Aside P w w') {p : String} (hp : ¬ P p) : w'.file p = w.file p := h.files p hp

end Aside

/-- The frame of a program that touches files only. -/
theorem preserves_aside {α : Type} {m : M α} {P : String → Prop} (h : Preserves (Touches P) m) :
    Preserves (Aside P) m := h.mono fun _ _ => Touches.aside

/-- A database call that only writes the history. -/
theorem preserves_dbQuery_aside {α : Type} {e : Env} {site : Site} {P : String → Prop}
    {op : ClientDb → Except DbError (α × ClientDb)}
    (h : ∀ {db a db'}, op db = .ok (a, db') → SameRows db db') :
    Preserves (Aside P) (dbQuery e site op) :=
  .of_wp fun w => wp_dbQuery (fun _ _ hop => ⟨.refl P _, h hop, log_unchanged w⟩)
    fun _ _ => .refl P w

/-- A statement that keeps the rows is done aside. -/
theorem preserves_dbCall_aside {e : Env} {site : Site} {P : String → Prop}
    {op : ClientDb → Except DbError ClientDb} (h : ∀ {db db'}, op db = .ok db' → SameRows db db') :
    Preserves (Aside P) (dbCall e site op) :=
  .of_wp fun w => wp_dbCall (fun _ hop => ⟨.refl P _, h hop, log_unchanged w⟩) fun _ _ => .refl P w

/-! ## the preparation -/

section Prepare

variable {X : Crates} {e : Env} {w : World} {mb : ManagedBinary} {upd : UpdateInfo}

/-- The files a backup of the installed binary is written to. -/
def BackupFile (cfg : ClientConfig) (mb : ManagedBinary) (p : String) : Prop :=
  p = backupPathFor cfg mb ∨ p = sigPathFor (backupPathFor cfg mb)

instance (cfg : ClientConfig) (mb : ManagedBinary) (p : String) :
    Decidable (BackupFile cfg mb p) := inferInstanceAs (Decidable (_ ∨ _))

/-- Asking for the free space changes nothing. -/
theorem preserves_checkDiskSpace {R : World → World → Prop} [IsPreorder World R] :
    Preserves R (checkDiskSpace e upd) :=
  .bind preserves_guardIo fun _ => .bind preserves_guardIo fun _ => .ite preserves_guardIo .pure

/-- Nor does comparing it with what an update needs. -/
theorem preserves_checkSpace {R : World → World → Prop} [IsPreorder World R] :
    Preserves R (checkSpace e mb upd) := by
  refine .ite preserves_checkDiskSpace ?_
  refine .bind preserves_pathExists fun _ => .ite ?_ .pure
  exact .bind (.mapErr preserves_fileLen) fun _ => preserves_checkDiskSpace

/-- What is known after the preparation. -/
structure Prepared (e : Env) (mb : ManagedBinary) (r : Nat × Option String) (w w' : World) :
    Prop where
  aside : Aside (BackupFile e.config mb) w w'
  /-- The database knows the binary. -/
  known : w.db.hasBinary mb.binaryId = true
  /-- The update is in the history. -/
  started : ∃ row ∈ w'.db.history, row.updateId = r.1
  /-- Nothing is backed up only if nothing is installed. -/
  absent : r.2 = none → w.file mb.installPath = none ∧ ∀ p, w'.file p = w.file p
  /-- A backup has the installed bytes. -/
  copied : ∀ path, r.2 = some path → path = backupPathFor e.config mb ∧
    ∃ b, w.file mb.installPath = some b ∧ (mb.installPath ≠ path → w'.file path = some b)

/-- Copying a signature beside a backup touches that path only. -/
theorem preserves_copySidecar {P : String → Prop} {site : Site} {src dst : String}
    (hp : P (sigPathFor dst)) : Preserves (Touches P) (copySidecar e site src dst) :=
  .bind preserves_pathExists fun _ => .ite (.mapErr (preserves_copyFile hp)) .pure

/-- The backup has the installed bytes, and only the two backup files change. -/
theorem wp_makeBackup :
    wp (makeBackup e mb)
      (fun r w' => Touches (BackupFile e.config mb) w w' ∧
        (r = none → w.file mb.installPath = none ∧ ∀ p, w'.file p = w.file p) ∧
        ∀ path, r = some path → path = backupPathFor e.config mb ∧
          ∃ b, w.file mb.installPath = some b ∧ (mb.installPath ≠ path → w'.file path = some b))
      (fun _ w' => Touches (BackupFile e.config mb) w w') w := by
  unfold makeBackup
  rw [wp_bind, wp_pathExists]
  cases hex : w.pathExists mb.installPath with
  | false =>
      exact ⟨.refl _ w, fun _ => ⟨w.file_eq_none_of_not_pathExists hex, fun _ => rfl⟩,
        fun path h => by contradiction⟩
  | true =>
      simp only [↓reduceIte, wp_bind, context, wp_mapErr]
      refine wp_copyFile (fun b _ hb => ?_) fun _ _ _ h => h.mono fun _ => .inl
      generalize hw : w.write (backupPathFor e.config mb)
        (if mb.installPath = backupPathFor e.config mb then [] else b) = w₁
      have hwrite : Touches (BackupFile e.config mb) w w₁ := hw ▸ .write (.inl rfl)
      have hsidecar : Preserves (Touches (· = sigPathFor (backupPathFor e.config mb)))
          (copySidecar e .backupSigCopy mb.installPath (backupPathFor e.config mb)) :=
        preserves_copySidecar rfl
      refine hsidecar.wp (fun _ w₂ h₂ => ?_) fun _ w₂ h₂ => hwrite.trans (h₂.mono fun _ => .inr)
      refine ⟨hwrite.trans (h₂.mono fun _ => .inr), fun h => by contradiction, fun path h => ?_⟩
      obtain rfl : backupPathFor e.config mb = path := Option.some.inj h
      refine ⟨rfl, b, hb, fun hne => ?_⟩
      rw [h₂.file (sigPathFor_ne _).symm, ← hw, if_neg hne]
      exact World.file_write_self _ _

/-- Before an update is executed there is a backup of what was installed, if anything was. -/
theorem wp_prepareUpdate :
    wp (prepareUpdate X e mb upd) (fun r w' => Prepared e mb r w w')
      (fun _ w' => Aside (BackupFile e.config mb) w w') w := by
  unfold prepareUpdate
  refine Preserves.wp_bind
    (R := Touches fun _ => False) (.mapErr (preserves_validateInstallPath _ _))
    (fun _ w₁ h₁ => ?_) fun _ _ h => (h.mono fun _ => False.elim).aside
  refine Preserves.wp_bind (R := Touches fun _ => False) preserves_checkSpace
    (fun _ w₂ h₂ => ?_) fun _ _ h => ((h₁.trans h).mono fun _ => False.elim).aside
  have h₂ := h₁.trans h₂
  simp only [context, wp_bind, wp_mapErr]
  refine wp_dbQuery (fun updateId db hop => ?_) fun _ _ => (h₂.mono fun _ => False.elim).aside
  obtain ⟨hknown, hrows, hstarted⟩ := recordUpdateStart_ok hop
  have h₃ : Aside (fun _ => False) w { w₂ with db } :=
    h₂.aside.trans ⟨.refl _ _, hrows, log_unchanged w₂⟩
  refine (preserves_createDirAll (P := fun _ => False)).wp (fun _ w₄ h₄ => ?_)
    fun _ _ h => (h₃.trans h.aside).mono fun _ => False.elim
  have hstarted₄ : ∃ row ∈ w₄.db.history, row.updateId = updateId := by
    rw [h₄.db]
    exact hstarted
  have h₄ := h₃.trans h₄.aside
  have hfile₄ : ∀ p, w₄.file p = w.file p := fun p => h₄.file not_false
  refine wp_mono ?_ (fun _ _ h => (h₄.mono fun _ => False.elim).trans h.aside) wp_makeBackup
  rintro backup w₅ ⟨h₅, hnone, hsome⟩
  refine ⟨(h₄.mono fun _ => False.elim).trans h₅.aside, ?_, ?_, fun h => ?_, fun path h => ?_⟩
  · rw [← hasBinary_congr h₂.aside.rows.managed]
    exact hknown
  · rw [h₅.db]
    exact hstarted₄
  · obtain ⟨hfile, hsame⟩ := hnone h
    exact ⟨(hfile₄ _).symm.trans hfile, fun p => (hsame p).trans (hfile₄ p)⟩
  · obtain ⟨hpath, b, hb, hcopy⟩ := hsome path h
    exact ⟨hpath, b, (hfile₄ _).symm.trans hb, hcopy⟩

end Prepare

/-! ## the success arm -/

section Finish

variable {X : Crates} {e : Env} {w : World} {mb : ManagedBinary} {upd : UpdateInfo}
  {updateId : Nat} {backup : Option String} {metrics : UpdateMetrics}

/-- What the success arm may do, wherever it stops: no file changes, only the
updated binary's version changes and only to the new one, and a new backup row
describes the backup it is for. -/
structure Booked (X : Crates) (mb : ManagedBinary) (upd : UpdateInfo) (backup : Option String)
    (w w' : World) : Prop where
  files : w'.files = w.files
  log : w'.log = w.log
  managed : ∀ b' ∈ w'.db.managed, b' ∈ w.db.managed ∨
    b'.binaryId = mb.binaryId ∧ b'.currentVersionString = some (X.semver.display upd.version) ∧
      ∃ b ∈ w.db.managed, b.binaryId = b'.binaryId
  backups : ∀ r ∈ w'.db.backups, r ∈ w.db.backups ∨
    ∃ b, backup = some r.backupPath ∧ w.file r.backupPath = some b ∧
      r.backupHashBlake3 = (X.crypto.blake3 b).val

namespace Booked

theorem of_rows {w w' : World} (hfiles : w'.files = w.files) (hlog : w'.log = w.log)
    (hmanaged : w'.db.managed = w.db.managed) (hbackups : w'.db.backups = w.db.backups) :
    Booked X mb upd backup w w' :=
  ⟨hfiles, hlog, fun _ h => .inl (hmanaged ▸ h), fun _ h => .inl (hbackups ▸ h)⟩

/-- What is booked in two steps is booked. -/
theorem trans {w w' w'' : World} (h : Booked X mb upd backup w w')
    (h' : Booked X mb upd backup w' w'') : Booked X mb upd backup w w'' := by
  refine ⟨h'.files.trans h.files, h'.log.trans h.log, fun b' hb' => ?_, fun r hr => ?_⟩
  · rcases h'.managed b' hb' with hb | ⟨hid, hv, b, hb, hkey⟩
    · exact h.managed b' hb
    · refine .inr ⟨hid, hv, ?_⟩
      rcases h.managed b hb with hb | ⟨-, -, b₀, hb₀, hkey₀⟩
      · exact ⟨b, hb, hkey⟩
      · exact ⟨b₀, hb₀, hkey₀.trans hkey⟩
  · rcases h'.backups r hr with hr | ⟨b, hpath, hfile, hhash⟩
    · exact h.backups r hr
    · exact .inr ⟨b, hpath, (congrArg (Files.read · _) h.files).symm.trans hfile, hhash⟩

instance : IsPreorder World (Booked X mb upd backup) where
  refl _ := of_rows rfl rfl rfl rfl
  trans _ _ _ := trans

end Booked

/-- A statement books what it does to the rows. -/
theorem preserves_dbCall_booked {site : Site} {op : ClientDb → Except DbError ClientDb}
    (h : ∀ {w : World} {db}, op w.db = .ok db → Booked X mb upd backup w { w with db }) :
    Preserves (Booked X mb upd backup) (dbCall e site op) :=
  .of_wp fun w => wp_dbCall (fun _ hop => h hop) fun _ _ => refl_of _ w

theorem preserves_recordBackup :
    Preserves (Booked X mb upd backup) (recordBackup X e mb backup) := by
  unfold recordBackup
  split
  · next path prevId prevString =>
      refine .bind preserves_pathExists fun _ => .ite ?_ .pure
      refine .of_wp fun w => ?_
      unfold hashFile
      simp only [wp_bind]
      refine wp_readFile (fun b _ hb => ?_) fun _ _ => refl_of _ w
      refine wp_fileLen (fun _ _ _ => ?_) fun _ _ => refl_of _ w
      refine wp_dbCall (fun db hop => ?_) fun _ _ => refl_of _ w
      obtain ⟨_, -, hmanaged, -, -, hbackups⟩ := createBackup_ok hop
      refine ⟨rfl, rfl, fun _ h => .inl (hmanaged ▸ h), fun r hr => ?_⟩
      rcases (hbackups r).mp hr with hr | rfl
      · exact .inl hr
      · exact .inr ⟨b, rfl, hb, rfl⟩
  · exact .pure

theorem preserves_finishUpdate :
    Preserves (Booked X mb upd backup) (finishUpdate X e mb upd updateId backup metrics) := by
  unfold finishUpdate
  refine .bind (preserves_dbCall_booked fun hop => ?_) fun _ => ?_
  · have hrows := recordUpdateComplete_ok hop
    exact .of_rows rfl rfl hrows.managed hrows.backups
  refine .bind preserves_fileLen fun _ => .bind preserves_orThrow fun _ => ?_
  refine .bind (.mapErr (.bind preserves_readFile fun _ => .pure)) fun _ => ?_
  refine .bind (.mapErr (preserves_dbCall_booked fun hop => ?_)) fun _ => ?_
  · obtain ⟨_, -, -, hmanaged, hbackups, -⟩ := recordInstalledVersion_ok hop
    exact .of_rows rfl rfl hmanaged hbackups
  refine .bind (preserves_dbCall_booked fun hop => ?_) fun _ => preserves_recordBackup
  obtain ⟨-, -, hmanaged, -, hbackups, -⟩ := updateCurrentVersion_ok hop
  refine ⟨rfl, rfl, fun b' hb' => ?_, fun _ h => .inl (hbackups ▸ h)⟩
  obtain ⟨b, hb, rfl⟩ := (hmanaged b').mp hb'
  unfold setCurrent
  split
  · next hid => exact .inr ⟨hid, rfl, b, hb, rfl⟩
  · exact .inl hb

end Finish

/-! ### when the success arm cannot fail -/

/- The success arm is a sequence of calls to the database, each of which can be refused. What they
need is that the row of the update is there, that the checksum can be decoded, and that no row has
the id of the version yet. -/

section Complete

variable {X : Crates} {e : Env} {w : World} {mb : ManagedBinary} {upd : UpdateInfo}
  {updateId : Nat} {backup : Option String} {metrics : UpdateMetrics}

/-- The sites of the success arm. -/
def bookSites : List Site :=
  [.recordComplete, .installedMetadata, .sha256Installed, .recordInstalled, .updateCurrent,
   .hashBackup, .backupMetadata, .createBackupRow]

/-- A row for the backup that was just made. -/
def BackupRow (X : Crates) (mb : ManagedBinary) (backup : Option String) (w : World)
    (r : RollbackBackup) : Prop :=
  ∃ b version, backup = some r.backupPath ∧ w.file r.backupPath = some b ∧
    r.backupHashBlake3 = (X.crypto.blake3 b).val ∧ r.binaryId = mb.binaryId ∧
    mb.currentVersionId = some r.versionId ∧ mb.currentVersionString = some version ∧
    normalizeVersionString X.semver version = .ok r.versionString

/-- What a completed success arm has done. -/
structure Finished (X : Crates) (mb : ManagedBinary) (upd : UpdateInfo) (backup : Option String)
    (hash : Hash) (version : String) (w w' : World) : Prop where
  files : w'.files = w.files
  log : w'.log = w.log
  managed : ∀ b', b' ∈ w'.db.managed ↔ ∃ b ∈ w.db.managed,
    b' = setCurrent mb.binaryId upd.versionId (X.semver.display upd.version) b
  installed : ∃ sha256 size, ∀ r', r' ∈ w'.db.installed ↔
    ∃ r, (r ∈ w.db.installed ∨
        r = ⟨mb.binaryId, upd.versionId, version, hash.val, sha256, size, false⟩) ∧
      r' = markCurrent mb.binaryId upd.versionId r
  backups : ∀ r ∈ w'.db.backups, r ∈ w.db.backups ∨ BackupRow X mb backup w r

/-- Without faults the backup is recorded, if the database takes its version. -/
theorem wp_recordBackup_ok (hsites : ∀ site ∈ bookSites, e.faults site = none)
    (hb : w.db.hasBinary mb.binaryId = true)
    (hcopy : ∀ path, backup = some path → ∃ b, w.file path = some b)
    (hprev : backup ≠ none → ∀ id v, mb.currentVersionId = some id →
      mb.currentVersionString = some v → ∃ n, normalizeVersionString X.semver v = .ok n) :
    wp (recordBackup X e mb backup)
      (fun _ w' => w'.files = w.files ∧ w'.log = w.log ∧ w'.db.managed = w.db.managed ∧
        w'.db.installed = w.db.installed ∧
        ∀ r ∈ w'.db.backups, r ∈ w.db.backups ∨ BackupRow X mb backup w r)
      (fun _ _ => False) w := by
  unfold recordBackup
  split
  · next path prevId prevString hid hstring =>
      obtain ⟨b, hfile⟩ := hcopy path rfl
      obtain ⟨n, hn⟩ := hprev (Option.some_ne_none _) prevId prevString hid hstring
      obtain ⟨db, hop⟩ := exists_createBackup (X.crypto.blake3 b).property hn hb
      rw [wp_bind, wp_pathExists]
      split
      · unfold hashFile
        simp only [wp_bind]
        refine wp_readFile_of (hsites _ (by simp [bookSites])) hfile ?_
        refine wp_fileLen_of (hsites _ (by simp [bookSites])) hfile ?_
        refine wp_dbCall_of (hsites _ (by simp [bookSites])) hop ?_
        obtain ⟨n', hn', hmanaged, hinstalled, -, hbackups⟩ := createBackup_ok hop
        refine ⟨rfl, rfl, hmanaged, hinstalled, fun r hr => ?_⟩
        rcases (hbackups r).mp hr with hr | rfl
        · exact .inl hr
        · exact .inr ⟨b, prevString, rfl, hfile, rfl, rfl, hid, hstring, hn'⟩
      · exact ⟨rfl, rfl, rfl, rfl, fun _ h => .inl h⟩
  · exact ⟨rfl, rfl, rfl, rfl, fun _ h => .inl h⟩

/-- A version that was not recorded before, with a checksum both parsers read,
is recorded and made current, and the backup is recorded. -/
theorem wp_finishUpdate_ok {data : Bytes} {hash : Hash} {version : String}
    (hsites : ∀ site ∈ bookSites, e.faults site = none)
    (hstarted : ∃ row ∈ w.db.history, row.updateId = updateId)
    (hfile : w.file mb.installPath = some data) (hdata : data ≠ [])
    (hhash : X.crypto.blake3FromHex upd.checksum = some hash)
    (hversion : normalizeVersionString X.semver (X.semver.display upd.version) = .ok version)
    (hb : w.db.hasBinary mb.binaryId = true)
    (hfresh : ∀ r ∈ w.db.installed,
      ¬ (r.binaryId = mb.binaryId ∧ r.versionId = upd.versionId))
    (hcopy : ∀ path, backup = some path → ∃ b, w.file path = some b)
    (hprev : backup ≠ none → ∀ id v, mb.currentVersionId = some id →
      mb.currentVersionString = some v → ∃ n, normalizeVersionString X.semver v = .ok n) :
    wp (finishUpdate X e mb upd updateId backup metrics)
      (fun _ w' => Finished X mb upd backup hash version w w') (fun _ _ => False) w := by
  have hcomplete : ∃ db, recordUpdateComplete updateId true none metrics w.db = .ok db :=
    exists_recordUpdateComplete hstarted
  obtain ⟨db₁, hop₁⟩ := hcomplete
  have hrows := recordUpdateComplete_ok hop₁
  have hb₁ : db₁.hasBinary mb.binaryId = true := (hasBinary_congr hrows.managed).trans hb
  have hfresh₁ : ∀ r ∈ db₁.installed,
      ¬ (r.binaryId = mb.binaryId ∧ r.versionId = upd.versionId) := by
    rw [hrows.installed]
    exact hfresh
  obtain ⟨db₂, hop₂⟩ := exists_recordInstalledVersion hash.property
    (X.crypto.sha256 data).property hversion (mt List.length_eq_zero_iff.mp hdata) hb₁ hfresh₁
  obtain ⟨n, hn, hinsert, hmanaged₂, hbackups₂, -⟩ := recordInstalledVersion_ok hop₂
  obtain rfl : n = version := Except.ok.inj (hn.symm.trans hversion)
  have hb₂ : db₂.hasBinary mb.binaryId = true := (hasBinary_congr hmanaged₂).trans hb₁
  have hcurrent : ∃ db, updateCurrentVersion mb.binaryId upd.versionId
      (X.semver.display upd.version) db₂ = .ok db :=
    exists_updateCurrentVersion hb₂ ⟨_, (Table.mem_insert hinsert).mpr (.inr rfl), rfl, rfl⟩
  obtain ⟨db₃, hop₃⟩ := hcurrent
  obtain ⟨-, -, hmanaged₃, hinstalled₃, hbackups₃, -⟩ := updateCurrentVersion_ok hop₃
  have hb₃ : db₃.hasBinary mb.binaryId = true := by
    obtain ⟨b, hmem, hid⟩ := hasBinary_iff.mp hb₂
    exact hasBinary_iff.mpr ⟨_, (hmanaged₃ _).mpr ⟨b, hmem, rfl⟩,
      (binaryId_setCurrent _ _ _ b).trans hid⟩
  unfold finishUpdate sha256File
  simp only [wp_bind, context, wp_mapErr]
  refine wp_dbCall_of (hsites _ (by simp [bookSites])) hop₁ ?_
  refine wp_fileLen_of (hsites _ (by simp [bookSites])) hfile ?_
  refine wp_orThrow (fun hash' hhash' => ?_)
    fun hnone => absurd (hhash.symm.trans hnone) (Option.some_ne_none hash)
  obtain rfl : hash' = hash := Option.some.inj (hhash'.symm.trans hhash)
  refine wp_readFile_of (hsites _ (by simp [bookSites])) hfile ?_
  refine wp_dbCall_of (hsites _ (by simp [bookSites])) hop₂ ?_
  refine wp_dbCall_of (hsites _ (by simp [bookSites])) hop₃ ?_
  refine wp_mono ?_ (fun _ _ h => h) (wp_recordBackup_ok hsites hb₃ hcopy hprev)
  rintro _ w' ⟨hfiles, hlog, hmanaged, hinstalled, hbackups⟩
  refine ⟨hfiles, hlog, fun b' => ?_,
    ⟨(X.crypto.sha256 data).val, data.length, fun r' => ?_⟩, fun r hr => ?_⟩
  · rw [hmanaged, hmanaged₃, hmanaged₂, hrows.managed]
  · rw [hinstalled, hinstalled₃]
    refine exists_congr fun r => and_congr_left fun _ => ?_
    rw [Table.mem_insert hinsert, hrows.installed]
  · refine (hbackups r hr).imp_left fun h => ?_
    rw [← hrows.backups, ← hbackups₂, ← hbackups₃]
    exact h

/-- A version id that is already recorded makes the success arm fail, before it
has written any row but the history. -/
theorem wp_finishUpdate_taken
    (htaken : ∃ r ∈ w.db.installed, r.binaryId = mb.binaryId ∧ r.versionId = upd.versionId) :
    wp (finishUpdate X e mb upd updateId backup metrics) (fun _ _ => False)
      (fun _ w' => w'.files = w.files ∧ SameRows w.db w'.db) w := by
  unfold finishUpdate sha256File
  simp only [wp_bind, context, wp_mapErr]
  refine wp_dbCall (fun db₁ hop₁ => ?_) fun _ _ => ⟨rfl, .refl _⟩
  have hrows := recordUpdateComplete_ok hop₁
  refine wp_fileLen (fun _ _ _ => ?_) fun _ _ => ⟨rfl, hrows⟩
  refine wp_orThrow (fun _ _ => ?_) fun _ => ⟨rfl, hrows⟩
  refine wp_readFile (fun _ _ _ => ?_) fun _ _ => ⟨rfl, hrows⟩
  refine wp_dbCall (fun db₂ hop₂ => ?_) fun _ _ => ⟨rfl, hrows⟩
  obtain ⟨n, -, hinsert, -⟩ := recordInstalledVersion_ok hop₂
  obtain ⟨r, hr, hbinary, hversion⟩ := htaken
  have hr₁ : r ∈ db₁.installed := by
    rw [hrows.installed]
    exact hr
  rw [Table.insert_eq_none ⟨r, hr₁, Prod.ext hbinary hversion⟩] at hinsert
  contradiction

end Complete

/-! ## the failure arm -/

section Abort

variable {e : Env} {w : World} {mb : ManagedBinary} {updateId : Nat} {backup : Option String}
  {err : String}

/-- What the failure arm does: nothing but the installed file and the history
changes, and the installed file only to the bytes of the backup. -/
structure Restored (e : Env) (mb : ManagedBinary) (backup : Option String) (w w' : World) :
    Prop where
  aside : Aside (· = mb.installPath) w w'
  untouched : backup = none → ∀ p, w'.file p = w.file p
  restored : ∀ path b, backup = some path → w.file path = some b → path ≠ mb.installPath →
    e.faults .restoreCopy = none → w'.file mb.installPath = some b

/-- What was done aside before does not matter for the restored files. -/
theorem Restored.of_aside {w₁ w' : World} (h : Restored e mb backup w w₁)
    (h' : Aside (fun _ => False) w₁ w') : Restored e mb backup w w' where
  aside := h.aside.trans (h'.mono fun _ => False.elim)
  untouched hb p := (h'.file not_false).trans (h.untouched hb p)
  restored path b hb hfile hne hf := (h'.file not_false).trans (h.restored path b hb hfile hne hf)

/-- A restore copies the backup back where there is one, and never fails. -/
theorem wp_restoreBackup :
    wp (restoreBackup e mb backup) (fun _ w' => Restored e mb backup w w') (fun _ _ => False) w := by
  unfold restoreBackup
  cases backup with
  | none => exact ⟨.refl _ w, fun _ _ => rfl, fun _ _ h => by contradiction⟩
  | some path =>
      simp only [wp_bind]
      rw [wp_pathExists]
      cases hex : w.pathExists path with
      | false =>
          refine ⟨.refl _ w, fun h => by contradiction, fun path' b h hfile => ?_⟩
          obtain rfl := Option.some.inj h
          rw [w.file_eq_none_of_not_pathExists hex] at hfile
          contradiction
      | true =>
          simp only [↓reduceIte, wp_bind, wp_attempt]
          refine wp_copyFile (fun b _ hb => ?_) fun _ w' hwhy h => ?_
          · have hwrite : Touches (· = mb.installPath) w
                (w.write mb.installPath (if path = mb.installPath then [] else b)) := .write rfl
            refine ⟨hwrite.aside, fun h => by contradiction, fun path' b' h hfile hne _ => ?_⟩
            obtain rfl := Option.some.inj h
            rw [if_neg hne]
            exact (World.file_write_self _ _).trans (hb.symm.trans hfile)
          · refine ⟨h.aside, fun h => by contradiction, fun path' b' h hfile _ hf => ?_⟩
            obtain rfl := Option.some.inj h
            rcases hwhy with hfault | ⟨hnone, -⟩
            · exact absurd hf hfault
            · rw [hnone] at hfile; contradiction

/-- The failure arm always reports an error. -/
theorem wp_abortUpdate :
    wp (abortUpdate e mb updateId backup err) (fun _ _ => False)
      (fun _ w' => Restored e mb backup w w') w := by
  unfold abortUpdate
  rw [wp_bind]
  refine wp_mono (fun restoreError w₁ h₁ => ?_) (fun _ _ h => h.elim) wp_restoreBackup
  refine Preserves.wp_bind (preserves_dbCall_aside recordUpdateComplete_ok) (fun _ w₂ h₂ => ?_)
    fun _ _ h => h₁.of_aside h
  cases restoreError with
  | none => exact h₁.of_aside h₂
  | some restoreErr => exact h₁.of_aside h₂

end Abort

end Deltaship
