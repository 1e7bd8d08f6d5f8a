import Deltaship.Client.Cleanup
import Deltaship.Client.Coherence

/-!
# Deltaship.Client.Backups

The store of backups, over whole runs of updates, rollbacks, cleanups and
prunes without faults.

The name of a backup file is a function of the binary and a version, while
every event has a row of its own: two rows can name one file.  The file is then
overwritten for the second row, and it is removed with the first of the two
that is pruned (`prune_removes_kept_backup`).  `backupsStored_of_apart` shows
that nothing else can go wrong.
-/

namespace Deltaship

open Prog ClientDb Runs

/-! ## runs -/

/-- One command of the client. -/
inductive Command where
  | register (e : Env) (b : NewManagedBinary)
  | call (c : Call)
  | cleanup (e : Env) (dryRun : Bool) (maxAgeDays : Option Nat)
  | prune (e : Env) (name : String) (keep : Nat) (dryRun : Bool)

/-- What the client does for a command. -/
def Command.body (X : Crates) : Command → M Unit
  | .register e b => dbCall e .registerBinary (registerBinary b)
  | .call c => c.body X
  | .cleanup e dryRun maxAgeDays => runCleanup X e dryRun maxAgeDays
  | .prune e name keep dryRun => runPruneBackups e name keep dryRun

/-- The state after a command, whether it succeeded or failed. -/
def Command.next (X : Crates) (w : World) (c : Command) : World := (exec (c.body X) w).2.settle

/-- A command without faults. -/
def Command.Clean (cfg : ClientConfig) (w : World) : Command → Prop
  | .register e _ => e.config = cfg ∧ e.NoFault
  | .call c => c.Clean cfg w
  | .cleanup e _ _ => e.config = cfg ∧ e.NoFault
  | .prune e _ _ _ => e.config = cfg ∧ e.NoFault

/-- Every backup row names a file with the hash of the row. -/
def BackupsStored (X : Crates) (w : World) : Prop :=
  ∀ r ∈ w.db.backups, ∃ b, w.file r.backupPath = some b ∧
    (X.crypto.blake3 b).val = r.backupHashBlake3

/-! ## the condition -/

/-- Writing the installed file to a path replaces no backup by other bytes: the
installed file is not a backup itself, and a row that names the path has the
hash of the installed bytes. -/
structure CopyKeeps (X : Crates) (mb : ManagedBinary) (path : String) (w : World) : Prop where
  apart : mb.installPath ≠ path
  install : ∀ r ∈ w.db.backups, r.backupPath ≠ mb.installPath
  same : ∀ r ∈ w.db.backups, r.backupPath = path → ∀ b, w.file mb.installPath = some b →
    (X.crypto.blake3 b).val = r.backupHashBlake3

/-- No backup to be deleted names the file of one that is kept. -/
def DropKeeps (R : RollbackBackup → Prop) (w : World) : Prop :=
  ∀ r ∈ w.db.backups, R r → ∀ kept ∈ w.db.backups, ¬ R kept → r.backupPath ≠ kept.backupPath

/-- The condition on the commands of a run. -/
def Command.Keeps (X : Crates) (w : World) : Command → Prop
  | .register _ _ => True
  | .call (.update e mb _) => CopyKeeps X mb (backupPathFor e.config mb) w
  | .call (.rollback e binaryName toVersion) => ∀ binary target,
      Selected w.db binaryName toVersion binary target →
        CopyKeeps X binary (preRollbackPath e.config binary) w
  | .cleanup e dryRun _ => DropKeeps (CleanedUp X e dryRun (binaryIds w.db)) w
  | .prune _ name keep dryRun => DropKeeps (Pruned w.db name keep dryRun) w

/-! ## the invariant -/

/- Every row for a backup names a file that holds what the row says. An update, a rollback, a
cleanup and a prune are each shown to keep it, as long as they do not write over, or delete, a file
that another row names. -/

/-- The backups are stored, under names of backups. -/
structure Stored (X : Crates) (w : World) : Prop where
  stored : BackupsStored X w
  named : ∀ r ∈ w.db.backups, ".backup".toList <:+ r.backupPath.toList

section Invariant

variable {X : Crates} {e : Env} {w w₁ w' : World}

/-- What keeps the rows and the files they name keeps the invariant. -/
theorem Stored.of_kept (h : Stored X w) (hrows : ∀ r ∈ w'.db.backups, r ∈ w.db.backups)
    (hfile : ∀ r ∈ w'.db.backups, w'.file r.backupPath = w.file r.backupPath) : Stored X w' where
  stored r hr := by
    rw [hfile r hr]
    exact h.stored r (hrows r hr)
  named r hr := h.named r (hrows r hr)

/-- A copy of the installed file keeps the invariant, and so does a row for
it. -/
theorem Stored.of_copied (h : Stored X w) {mb : ManagedBinary} {path : String}
    (hkeeps : CopyKeeps X mb path w) (hpath : ".backup".toList <:+ path.toList)
    (hframe : ∀ p, ".backup".toList <:+ p.toList → p ≠ path → p ≠ mb.installPath →
      w'.file p = w.file p)
    (hcopied : w'.file path = w.file path ∨
      ∃ b, w.file mb.installPath = some b ∧ w'.file path = some b)
    (hbackups : ∀ r ∈ w'.db.backups, r ∈ w.db.backups ∨
      ∃ b, r.backupPath = path ∧ w'.file r.backupPath = some b ∧
        r.backupHashBlake3 = (X.crypto.blake3 b).val) : Stored X w' := by
  refine ⟨fun r hr => ?_, fun r hr => ?_⟩
  · rcases hbackups r hr with hold | ⟨b, -, hb, hhash⟩
    · by_cases hp : r.backupPath = path
      · rcases hcopied with hsame | ⟨b, hinst, hb⟩
        · rw [hp, hsame, ← hp]
          exact h.stored r hold
        · exact ⟨b, by rw [hp, hb], hkeeps.same r hold hp b hinst⟩
      · rw [hframe _ (h.named r hold) hp (hkeeps.install r hold)]
        exact h.stored r hold
    · exact ⟨b, hb, hhash.symm⟩
  · rcases hbackups r hr with hold | ⟨-, hp, -⟩
    · exact h.named r hold
    · rw [hp]
      exact hpath

/-- Behind an update every backup that was stored is, and so is the new one. -/
theorem stored_update {mb : ManagedBinary} {upd : UpdateInfo} (h : Stored X w) (hf : e.NoFault)
    (hkeeps : CopyKeeps X mb (backupPathFor e.config mb) w)
    (hupd : Updated X e mb upd w w') : Stored X w' := by
  refine h.of_copied hkeeps (suffix_backupPathFor _ _) (fun p hp hpath hinst => ?_)
    (hupd.copied hf hkeeps.apart) hupd.backups
  refine hupd.frame p ?_
  rintro ((hb | hb) | hd | hi | hs)
  · exact hpath hb
  · exact ne_sigPathFor_of_suffix hp _ hb
  · exact not_downloadFile_of_suffix hp hd
  · exact hinst hi
  · exact ne_sigPathFor_of_suffix hp _ hs

/-- Behind a rollback, too, as its snapshot overwrites no other backup. -/
theorem stored_rollback {binary : ManagedBinary} (h : Stored X w) (hf : e.NoFault)
    (hkeeps : CopyKeeps X binary (preRollbackPath e.config binary) w)
    (hsnap : Snapshotted X e id binary w w₁) (hhalf : HalfRolledBack id binary w₁ w') : Stored X w' := by
  have hsuffix := suffix_preRollbackPath e.config binary
  have hlate : ∀ p, ".backup".toList <:+ p.toList → p ≠ binary.installPath →
      w'.file p = w₁.file p :=
    fun p hp hinst => hhalf.frame p hinst (ne_sigPathFor_of_suffix hp _)
  have hpre := hlate _ hsuffix hkeeps.apart.symm
  refine h.of_copied hkeeps hsuffix (fun p hp hpath hinst => ?_) ?_ fun r hr => ?_
  · rw [hlate p hp hinst]
    exact hsnap.files p fun hs => hs.elim hpath (ne_sigPathFor_of_suffix hp _)
  · rw [hpre]
    exact (hsnap.content hf (sidecarApart_id _ _)).imp_right fun ⟨b, hcopy, hb⟩ =>
      ⟨b, file_of_copyOf hkeeps.apart hcopy, hb⟩
  · rw [hhalf.backups] at hr
    refine (hsnap.backups r hr).imp_right ?_
    rintro ⟨⟨hpath, b, version, hb, hhash, -⟩, -⟩
    rw [hpath]
    exact ⟨b, rfl, hpre.trans hb, hhash⟩

theorem stored_of_dropped {R : RollbackBackup → Prop} (h : Stored X w) (hf : e.NoFault)
    (hkeeps : DropKeeps R w) (hdrop : Dropped e R w w') : Stored X w' :=
  h.of_kept hdrop.backups fun r hr => hdrop.frame _ fun r' hr' hR =>
    hkeeps r' hr' hR r (hdrop.backups r hr) (hdrop.gone hf r hr)

/-- Temporary files are no backups. -/
theorem stored_of_tempNamed (h : Stored X w) (haside : Aside TempNamed w w') : Stored X w' := by
  refine h.of_kept (fun r hr => haside.rows.backups ▸ hr) fun r hr => haside.file ?_
  have hnamed := h.named r (haside.rows.backups ▸ hr)
  rintro (ht | ht | ht)
  · exact Text.ne_of_suffix hnamed ht (by decide) (by decide) rfl
  · exact Text.ne_of_suffix hnamed ht (by decide) (by decide) rfl
  · exact Text.ne_of_suffix hnamed ht (by decide) (by decide) rfl

end Invariant

/-- A rollback that has not begun is half one. -/
theorem HalfRolledBack.refl (binary : ManagedBinary) (w : World) : HalfRolledBack id binary w w :=
  ⟨fun _ _ _ => rfl, rfl⟩

/-- One that is done is half one, too. -/
theorem RolledBack.half {binary : ManagedBinary} {target : RollbackBackup} {data : Bytes}
    {w w' : World} (h : RolledBack id binary target data w w') : HalfRolledBack id binary w w' :=
  ⟨h.frame, h.backups⟩

/-- Every command that keeps the backups apart leaves them stored. -/
theorem stored_next {X : Crates} {cfg : ClientConfig} {w : World} {c : Command} (h : Stored X w)
    (hclean : c.Clean cfg w) (hkeeps : c.Keeps X w) : Stored X (exec (c.body X) w).2 := by
  cases c with
  | register e b =>
      refine wp_exec_snd (wp_dbCall (fun db hop => ?_) fun _ _ => h)
      obtain ⟨-, hbackups, -⟩ := registerBinary_ok hop
      exact h.of_kept (fun r hr => hbackups ▸ hr) fun _ _ => rfl
  | call c =>
      cases c with
      | update e mb upd => exact stored_update h hclean.2.1 hkeeps updated_applyUpdate
      | rollback e binaryName toVersion =>
          refine wp_exec_snd (wp_mono ?_ ?_ wp_performRollback)
          · rintro _ w' ⟨binary, target, data, restored, w₁, hsel, -, hsnap, -, hrolled⟩
            exact stored_rollback h hclean.2.1 (hkeeps binary target hsel) hsnap hrolled.half
          · rintro _ w' (rfl | ⟨binary, target, hsel, hsnap | ⟨-, w₁, hsnap, hhalf⟩⟩)
            · exact h
            · exact stored_rollback h hclean.2.1 (hkeeps binary target hsel) hsnap (.refl _ _)
            · exact stored_rollback h hclean.2.1 (hkeeps binary target hsel) hsnap hhalf
  | cleanup e dryRun maxAgeDays =>
      have hdone : ∀ w', AfterCleanup X e dryRun w w' → Stored X w' := by
        rintro w' ⟨w₁, hpurged, haside⟩
        refine stored_of_tempNamed ?_ (haside.mono fun _ hp => hp.2)
        refine stored_of_dropped h hclean.2 (fun r hr hR r' hr' hkept => ?_) (hpurged.dropped e)
        exact hkeeps r hr hR.2 r' hr' fun hcleaned => hkept ⟨hR.1, hcleaned⟩
      exact wp_exec_snd (wp_mono (fun _ => hdone) (fun _ => hdone)
        (wp_runCleanup maxAgeDays hclean.2))
  | prune e name keep dryRun =>
      refine wp_exec_snd (wp_mono (fun _ w' hdrop => ?_) (fun _ w' hw => ?_)
        (wp_runPruneBackups hclean.2))
      · exact stored_of_dropped h hclean.2 hkeeps hdrop
      · rw [hw]
        exact h

/-- In every run from an empty client in which no installed file is copied over
a backup of other bytes and no deleted backup shares its file with a kept one,
every backup row names a file with its hash after every command. -/
theorem backupsStored_of_apart (X : Crates) (cfg : ClientConfig) (w₀ w : World)
    (hempty : w₀.db = ClientDb.empty)
    (hrun : Reaches (Command.next X) (fun w c => c.Clean cfg w ∧ c.Keeps X w) w₀ w) :
    BackupsStored X w := by
  have hstart : Stored X w₀ := by
    refine ⟨fun r hr => ?_, fun r hr => ?_⟩
    · rw [hempty] at hr
      exact absurd hr List.not_mem_nil
    · rw [hempty] at hr
      exact absurd hr List.not_mem_nil
  have hstored : Stored X w := hrun.invariant hstart fun s c h hc => by
    have hnext := stored_next h hc.1 hc.2
    exact ⟨hnext.stored, hnext.named⟩
  exact hstored.stored

/-- A client that knows no binary. -/
def sampleEmpty : World := ⟨Files.empty, ["/opt"], ClientDb.empty, [], [], []⟩

/-- The registration of `app`. -/
def sampleRegister : Command :=
  .register (sampleEnv []) ⟨"b1", "app", "linux-x86_64", "/opt/app", sampleKey.val⟩

theorem sampleRegister_next : sampleRegister.next sampleCrates sampleEmpty = sampleWorld := by
  decide +kernel

/-- The files of the second call are not in the way of each other. -/
theorem sampleUpdateCall_clean {w : World} (h : w.db.managed = sampleWorld1.db.managed) :
    sampleUpdateCall.Clean sampleConfig w :=
  ⟨rfl, fun _ => rfl, sampleEnv_tempFresh _, by rw [h]; exact List.mem_singleton.mpr rfl⟩

/-- A copy to a file that no row names. -/
theorem copyKeeps_of_no_rows {X : Crates} {mb : ManagedBinary} {path : String} {w : World}
    (hrows : ∀ r, ¬ r ∈ w.db.backups) (hapart : mb.installPath ≠ path) : CopyKeeps X mb path w :=
  ⟨hapart, fun r hr => absurd hr (hrows r), fun r hr => absurd hr (hrows r)⟩

/-- The backup of the first update is stored. -/
theorem backupsStored_of_apart_update : BackupsStored sampleCrates sampleUpdated := by
  have hrun : Reaches (Command.next sampleCrates)
      (fun w c => c.Clean sampleConfig w ∧ c.Keeps sampleCrates w) sampleEmpty sampleUpdated := by
    have h₁ : Reaches (Command.next sampleCrates)
        (fun w c => c.Clean sampleConfig w ∧ c.Keeps sampleCrates w) sampleEmpty sampleWorld :=
      sampleRegister_next ▸ (Reaches.refl _).tail ⟨⟨rfl, fun _ => rfl⟩, trivial⟩
    have h₂ : Reaches (Command.next sampleCrates)
        (fun w c => c.Clean sampleConfig w ∧ c.Keeps sampleCrates w) sampleEmpty sampleWorld1 :=
      sampleInstallCall_next ▸ h₁.tail (a := .call sampleInstallCall)
        ⟨sampleInstallCall_clean,
          copyKeeps_of_no_rows (fun _ => List.not_mem_nil) (by decide +kernel)⟩
    exact sampleUpdateCall_next ▸ h₂.tail (a := .call sampleUpdateCall)
      ⟨sampleUpdateCall_clean rfl,
        copyKeeps_of_no_rows (fun _ => List.not_mem_nil) (by decide +kernel)⟩
  exact backupsStored_of_apart sampleCrates sampleConfig sampleEmpty sampleUpdated rfl hrun

/-! ### pruning a file that is still named -/

/-- The update from version 1.0.0 to version 2.0.0, a second later. -/
def sampleThirdCall : Call :=
  .update { sampleEnv (sampleFiles [3] sampleSig3) with now := 1 } (sampleBinaryAt "1.0.0")
    (sampleUpdate (.new 2 0 0) [3])

/-- The second backup of version 1.0.0. -/
def sampleBackup3 : RollbackBackup := { sampleBackup1 with backupId := 3, createdAt := 1 }

/-- The client after the update to version 2.0.0: two rows name the backup of
version 1.0.0. -/
def sampleThird : World where
  files := Files.ofList
    ([("/opt/app.sig", sampleSig3.val), ("/opt/app", [3])] ++ sampleBackupFiles ++
      [("/data/backups/app_1.1.0_pre_rollback.backup.sig", sampleSig2.val),
       ("/data/backups/app_1.1.0_pre_rollback.backup", [2])])
  dirs := sampleDirs
  db :=
    { managed := ⟨[sampleBinaryAt "2.0.0"], by decide +kernel⟩
      installed := ⟨[sampleInstalled "1.0.0" [1] false, sampleInstalled "1.1.0" [2] false,
        sampleInstalled "2.0.0" [3] true], by decide +kernel⟩
      backups := (sampleWorld2 [2]).db.backups.insert
        (fun n => { sampleBackup3 with backupId := n }) fun _ => rfl
      history := sampleRolledBack.db.history.insert
        (fun n => { sampleHistory n (some "1.0.0") "2.0.0" [3] with startedAt := 1 }) fun _ => rfl }
  log := []
  sent := []
  asked := []

theorem sampleThirdCall_next :
    sampleThirdCall.next sampleCrates sampleRolledBack = sampleThird := by
  decide +kernel

/-- Keep one backup of `app`. -/
def samplePrune : Command := .prune (sampleEnv []) "app" 1 false

/-- Updating from version 1.0.0 twice and then pruning to one backup removes the
file of the backup that is kept. -/
theorem prune_removes_kept_backup :
    ¬ ∀ (X : Crates) (cfg : ClientConfig) (w₀ w : World), w₀.db = ClientDb.empty →
      Reaches (Command.next X) (fun w c => c.Clean cfg w) w₀ w → BackupsStored X w := by
  intro h
  have h₁ : Reaches (Command.next sampleCrates) (fun w c => c.Clean sampleConfig w) sampleEmpty
      sampleWorld := sampleRegister_next ▸ (Reaches.refl _).tail ⟨rfl, fun _ => rfl⟩
  have h₂ : Reaches (Command.next sampleCrates) (fun w c => c.Clean sampleConfig w) sampleEmpty
      sampleWorld1 :=
    sampleInstallCall_next ▸ h₁.tail (a := .call sampleInstallCall) sampleInstallCall_clean
  have h₃ : Reaches (Command.next sampleCrates) (fun w c => c.Clean sampleConfig w) sampleEmpty
      sampleUpdated :=
    sampleUpdateCall_next ▸ h₂.tail (a := .call sampleUpdateCall) (sampleUpdateCall_clean rfl)
  have h₄ : Reaches (Command.next sampleCrates) (fun w c => c.Clean sampleConfig w) sampleEmpty
      sampleRolledBack :=
    sampleRollbackCall_next ▸ h₃.tail (a := .call sampleRollbackCall)
      ⟨rfl, fun _ => rfl, sampleEnv_tempFresh _⟩
  have h₅ : Reaches (Command.next sampleCrates) (fun w c => c.Clean sampleConfig w) sampleEmpty
      sampleThird :=
    sampleThirdCall_next ▸ h₄.tail (a := .call sampleThirdCall)
      ⟨rfl, fun _ => rfl, fun _ w dir => not_pathExists_longName w dir,
        List.mem_singleton.mpr rfl⟩
  have h₆ := h sampleCrates sampleConfig sampleEmpty _ rfl
    (h₅.tail (a := samplePrune) ⟨rfl, fun _ => rfl⟩)
  have hlast : (samplePrune.next sampleCrates sampleThird).db.backups.rows = [sampleBackup3] ∧
      (samplePrune.next sampleCrates sampleThird).file sampleBackup3.backupPath = none := by
    decide +kernel
  generalize samplePrune.next sampleCrates sampleThird = w at h₆ hlast
  have hmem : sampleBackup3 ∈ w.db.backups := by
    rw [← AutoTable.mem_rows, hlast.1]
    exact List.mem_singleton.mpr rfl
  obtain ⟨b, hb, -⟩ := h₆ sampleBackup3 hmem
  rw [hlast.2] at hb
  contradiction

end Deltaship
