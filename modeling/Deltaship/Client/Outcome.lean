import Deltaship.Client.Apply

/-!
# Deltaship.Client.Outcome

What an update may leave behind, whatever its outcome and whatever fails.

`Updated` is the description that results about runs use: which files can have
changed, that a recorded version can only have become the new one, and that a
new backup row describes the file it names.
-/

namespace Deltaship

open Prog ClientDb

/-- The files an update may write. -/
def UpdateFile (cfg : ClientConfig) (mb : ManagedBinary) (upd : UpdateInfo) (p : String) : Prop :=
  BackupFile cfg mb p ∨ DownloadFile cfg mb upd p ∨ p = mb.installPath ∨
    p = sigPathFor mb.installPath

/-! ## the backup file is no other file of the update -/

section Paths

variable (cfg : ClientConfig) (mb : ManagedBinary) (upd : UpdateInfo)

/-- The path of a backup ends in its extension. -/
theorem suffix_backupPathFor : ".backup".toList <:+ (backupPathFor cfg mb).toList := by
  refine suffix_joinPath ?_
  rw [String.toList_append]
  exact List.suffix_append _ _

theorem suffix_diffPath : ".diff".toList <:+ (diffPath cfg mb upd).toList := by
  refine suffix_joinPath ?_
  rw [String.toList_append]
  exact List.suffix_append _ _

theorem suffix_fullPath : ".tmp".toList <:+ (fullPath cfg mb upd).toList := by
  refine suffix_joinPath ?_
  rw [String.toList_append]
  exact List.suffix_append _ _

variable {cfg mb upd} {p : String}

/-- A file that is named like a backup is no download. -/
theorem not_downloadFile_of_suffix (hp : ".backup".toList <:+ p.toList) :
    ¬ DownloadFile cfg mb upd p := by
  rintro (h | h)
  · exact Text.ne_of_suffix hp (suffix_diffPath cfg mb upd) (by decide) (by decide) h
  · exact Text.ne_of_suffix hp (suffix_fullPath cfg mb upd) (by decide) (by decide) h

/-- A file that is named like a backup is no sidecar. -/
theorem ne_sigPathFor_of_suffix (hp : ".backup".toList <:+ p.toList) (q : String) :
    p ≠ sigPathFor q :=
  Text.ne_of_suffix hp (suffix_sigPathFor q) (by decide) (by decide)

end Paths

/-! ## every outcome -/

section Outcome

variable {X : Crates} {e : Env} {mb : ManagedBinary} {upd : UpdateInfo} {w w₁ w₂ w' : World}

/-- Without faults the backup file is as it was, or a copy of what was
installed. -/
def BackupCopied (e : Env) (mb : ManagedBinary) (w w' : World) : Prop :=
  e.NoFault → mb.installPath ≠ backupPathFor e.config mb →
    w'.file (backupPathFor e.config mb) = w.file (backupPathFor e.config mb) ∨
    ∃ b, w.file mb.installPath = some b ∧ w'.file (backupPathFor e.config mb) = some b

/-- The backup is a copy of what was installed, or the copy has failed. -/
theorem wp_makeBackup_copied :
    wp (makeBackup e mb) (fun _ w' => BackupCopied e mb w w') (fun _ w' => BackupCopied e mb w w')
      w := by
  unfold makeBackup
  rw [wp_bind, wp_pathExists]
  split
  · simp only [wp_bind, context, wp_mapErr]
    refine wp_copyFile (fun b _ hb => ?_) fun _ w₁ hwhy h₁ hf => ?_
    · -- the sidecar is copied to another file
      have hcopied : ∀ w₂, Touches (· = sigPathFor (backupPathFor e.config mb))
          (w.write (backupPathFor e.config mb)
            (if mb.installPath = backupPathFor e.config mb then [] else b)) w₂ →
          BackupCopied e mb w w₂ := by
        intro w₂ h₂ _ hne
        refine .inr ⟨b, hb, ?_⟩
        rw [h₂.file (sigPathFor_ne _).symm, if_neg hne, World.file_write_self]
      have hsidecar : Preserves (Touches (· = sigPathFor (backupPathFor e.config mb)))
          (copySidecar e .backupSigCopy mb.installPath (backupPathFor e.config mb)) :=
        preserves_copySidecar rfl
      exact hsidecar.wp (fun _ w₂ h₂ => hcopied w₂ h₂) fun _ w₂ h₂ => hcopied w₂ h₂
    · rcases hwhy with hfault | ⟨-, rfl⟩
      · exact absurd (hf _) hfault
      · exact fun _ => .inl rfl
  · exact fun _ _ => .inl rfl

/-- So it is behind everything that comes before the update. -/
theorem wp_prepareUpdate_copied :
    wp (prepareUpdate X e mb upd) (fun _ w' => BackupCopied e mb w w')
      (fun _ w' => BackupCopied e mb w w') w := by
  have hkept : ∀ {w' : World}, Aside (fun _ => False) w w' → BackupCopied e mb w w' :=
    fun h _ _ => .inl (h.file not_false)
  unfold prepareUpdate
  refine Preserves.wp_bind (R := Touches fun _ => False)
    (.mapErr (preserves_validateInstallPath _ _)) (fun _ w₁ h₁ => ?_) fun _ _ h => hkept h.aside
  refine Preserves.wp_bind (R := Touches fun _ => False) preserves_checkSpace
    (fun _ w₂ h₂ => ?_) fun _ _ h => hkept (h₁.trans h).aside
  have h₂ := (h₁.trans h₂).aside
  refine Preserves.wp_bind (R := Aside fun _ => False)
    (.mapErr (preserves_dbQuery_aside fun hop => (recordUpdateStart_ok hop).2.1))
    (fun _ w₃ h₃ => ?_) fun _ _ h => hkept (h₂.trans h)
  refine Preserves.wp_bind (R := Touches fun _ => False) (.mapErr preserves_createDirAll)
    (fun _ w₄ h₄ => ?_) fun _ _ h => hkept ((h₂.trans h₃).trans h.aside)
  have h₄ := (h₂.trans h₃).trans h₄.aside
  have hback : ∀ {w' : World}, BackupCopied e mb w₄ w' → BackupCopied e mb w w' := by
    intro w' h hf hne
    rw [← h₄.file not_false, ← h₄.file (p := mb.installPath) not_false]
    exact h hf hne
  rw [wp_bind]
  exact wp_mono (fun _ _ h => hback h) (fun _ _ h => hback h) wp_makeBackup_copied

/-- What an update may have done. -/
structure Updated (X : Crates) (e : Env) (mb : ManagedBinary) (upd : UpdateInfo) (w w' : World) :
    Prop where
  frame : ∀ p, ¬ UpdateFile e.config mb upd p → w'.file p = w.file p
  copied : BackupCopied e mb w w'
  /-- A row of a binary is as before, or has the new version. -/
  managed : ∀ b' ∈ w'.db.managed, b' ∈ w.db.managed ∨
    b'.binaryId = mb.binaryId ∧ b'.currentVersionString = some (X.semver.display upd.version) ∧
      ∃ b ∈ w.db.managed, b.binaryId = b'.binaryId
  /-- A new backup row describes the backup file. -/
  backups : ∀ r ∈ w'.db.backups, r ∈ w.db.backups ∨
    ∃ b, r.backupPath = backupPathFor e.config mb ∧ w'.file r.backupPath = some b ∧
      r.backupHashBlake3 = (X.crypto.blake3 b).val

/-- After the preparation, an update touches its backup no more. -/
theorem updated_of_executed (hprep : Aside (BackupFile e.config mb) w w₁)
    (hcopied : BackupCopied e mb w w₁)
    (hexec : ∀ p, ¬ DownloadFile e.config mb upd p → p ≠ mb.installPath →
      p ≠ sigPathFor mb.installPath → w'.file p = w₁.file p)
    (hmanaged : ∀ b' ∈ w'.db.managed, b' ∈ w₁.db.managed ∨
      b'.binaryId = mb.binaryId ∧ b'.currentVersionString = some (X.semver.display upd.version) ∧
        ∃ b ∈ w₁.db.managed, b.binaryId = b'.binaryId)
    (hbackups : ∀ r ∈ w'.db.backups, r ∈ w₁.db.backups ∨
      ∃ b, r.backupPath = backupPathFor e.config mb ∧ w'.file r.backupPath = some b ∧
        r.backupHashBlake3 = (X.crypto.blake3 b).val) :
    Updated X e mb upd w w' := by
  rw [hprep.rows.managed] at hmanaged
  rw [hprep.rows.backups] at hbackups
  refine ⟨fun p hp => ?_, fun hf hne => ?_, hmanaged, hbackups⟩
  · rw [hexec p (fun h => hp (.inr (.inl h))) (fun h => hp (.inr (.inr (.inl h))))
      fun h => hp (.inr (.inr (.inr h)))]
    exact hprep.file fun h => hp (.inl h)
  · have hsuffix := suffix_backupPathFor e.config mb
    rw [hexec _ (not_downloadFile_of_suffix hsuffix) hne.symm (ne_sigPathFor_of_suffix hsuffix _)]
    exact hcopied hf hne

/-- The success arm only adds rows for the new version and for the backup. -/
theorem updated_of_booked {r : Nat × Option String} {data : Bytes} {sig : Signature}
    {S : String → Prop} (hS : ∀ p, S p → p = sigPathFor mb.installPath)
    (hprep : Prepared e mb r w w₁) (hcopied : BackupCopied e mb w w₁)
    (hswap : Swapped X e mb upd S data sig w₁ w₂) (hbooked : Booked X mb upd r.2 w₂ w') :
    Updated X e mb upd w w' := by
  have hfile : ∀ p, w'.file p = w₂.file p := fun p => congrArg (Files.read · p) hbooked.files
  have hmanaged := hbooked.managed
  have hbackups := hbooked.backups
  rw [hswap.db] at hmanaged hbackups
  refine updated_of_executed hprep.aside hcopied (fun p hp hpi hps => ?_) hmanaged
    fun row hrow => ?_
  · rw [hfile, hswap.frame p hp hpi fun h => hps (hS p h)]
  · refine (hbackups row hrow).imp_right fun ⟨b, hpath, hb, hhash⟩ => ?_
    exact ⟨b, (hprep.copied _ hpath).1, (hfile _).trans hb, hhash⟩

/-- The failure arm only copies the backup back. -/
theorem updated_of_restored {r : Nat × Option String} (hprep : Prepared e mb r w w₁)
    (hcopied : BackupCopied e mb w w₁)
    (hexec : ∀ p, ¬ DownloadFile e.config mb upd p → p ≠ mb.installPath → w₂.file p = w₁.file p)
    (hdb : w₂.db = w₁.db) (hrest : Restored e mb r.2 w₂ w') : Updated X e mb upd w w' := by
  have hrows := hrest.aside.rows
  rw [hdb] at hrows
  refine updated_of_executed hprep.aside hcopied (fun p hp hpi _ => ?_)
    (fun _ h => .inl (hrows.managed ▸ h)) fun _ h => .inl (hrows.backups ▸ h)
  exact (hrest.aside.file hpi).trans (hexec p hp hpi)

/-- Every run of `apply_update`. -/
theorem updated_applyUpdate : Updated X e mb upd w (exec (applyUpdate X e mb upd) w).2 := by
  unfold applyUpdate
  refine wp_exec_snd ?_
  rw [wp_bind]
  refine wp_mono ?_ ?_ (wp_and wp_prepareUpdate wp_prepareUpdate_copied)
  · rintro ⟨updateId, backup⟩ w₁ ⟨hprep, hcopied⟩
    simp only [wp_bind, wp_attempt]
    refine wp_mono ?_ ?_ wp_executeUpdate
    · rintro metrics w₂ ⟨data, sig, hswap, -⟩
      exact preserves_finishUpdate.wp
        (fun _ _ h => updated_of_booked (fun _ h => h) hprep hcopied hswap h)
        fun _ _ h => updated_of_booked (fun _ h => h) hprep hcopied hswap h
    · intro err w₂ hexec
      refine wp_mono (fun _ _ h => h.elim) (fun _ w₃ hrest => ?_) wp_abortUpdate
      rcases hexec with h | ⟨-, data, sig, h⟩
      · exact updated_of_restored hprep hcopied (fun p hp _ => h.file hp) h.db hrest
      · exact updated_of_restored hprep hcopied (fun p hp hpi => h.frame p hp hpi not_false) h.db
          hrest
  · rintro _ w₁ ⟨hprep, hcopied⟩
    exact updated_of_executed hprep hcopied (fun _ _ _ _ => rfl) (fun _ h => .inl h)
      fun _ h => .inl h

end Outcome

end Deltaship
