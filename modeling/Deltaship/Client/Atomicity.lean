import Deltaship.Client.Authenticity

/-!
# Deltaship.Client.Atomicity

What a failed `apply_update` leaves behind.

A failure before the rename is undone: only download and backup files were
touched.  So is a failure between the rename and the end of `execute_update`,
by copying the backup back -- if there was something to back up.  A failure in
the success arm is not undone at all: the new binary stays installed while the
database still records the old version.
-/

namespace Deltaship

open Prog ClientDb

/-! ## the condition -/

/- What an update needs in order to be undone, or to be completed: that its own files do not get in
each other's way, and that the success arm cannot fail. The success arm comes behind the rename and
has no way back. -/

/-- The files of an update are apart: the installed binary and its sidecar are
neither download nor backup files, and the backup is no download file. -/
structure Apart (cfg : ClientConfig) (mb : ManagedBinary) (upd : UpdateInfo) : Prop where
  install_backup : ¬ BackupFile cfg mb mb.installPath
  sidecar_backup : ¬ BackupFile cfg mb (sigPathFor mb.installPath)
  install_download : ¬ DownloadFile cfg mb upd mb.installPath
  sidecar_download : ¬ DownloadFile cfg mb upd (sigPathFor mb.installPath)
  backup_download : ¬ DownloadFile cfg mb upd (backupPathFor cfg mb)

namespace Apart

variable {cfg : ClientConfig} {mb : ManagedBinary} {upd : UpdateInfo} (h : Apart cfg mb upd)
include h

/-- The backup does not lie where the binary is installed. -/
theorem install_ne : mb.installPath ≠ backupPathFor cfg mb := fun heq => h.install_backup (.inl heq)

/-- Nor does it lie where its signature is. -/
theorem backup_ne_sidecar : backupPathFor cfg mb ≠ sigPathFor mb.installPath :=
  fun heq => h.sidecar_backup (.inl heq.symm)

end Apart

/-- Nothing in the success arm can fail: no fault, a checksum that the `blake3`
crate reads and that is not the one of an empty file, a version text that the
database accepts, no row for the version id yet, and a previous version that
the database accepts where there is something to back up. -/
structure Bookable (X : Crates) (e : Env) (mb : ManagedBinary) (upd : UpdateInfo) (w : World) :
    Prop where
  noFault : ∀ site ∈ bookSites, e.faults site = none
  hex : ∃ hash, X.crypto.blake3FromHex upd.checksum = some hash
  nonempty : Hash.fromHex upd.checksum ≠ .ok (X.crypto.blake3 [])
  version : ∃ n, normalizeVersionString X.semver (X.semver.display upd.version) = .ok n
  fresh : ∀ r ∈ w.db.installed, ¬ (r.binaryId = mb.binaryId ∧ r.versionId = upd.versionId)
  previous : w.file mb.installPath ≠ none → ∀ id v, mb.currentVersionId = some id →
    mb.currentVersionString = some v → ∃ n, normalizeVersionString X.semver v = .ok n

section Outcome

variable {X : Crates} {e : Env} {mb : ManagedBinary} {upd : UpdateInfo} {w w₁ w₂ w' : World}
  {r : Nat × Option String}

/-- Everything before the success arm: the backup, and the swap after it. -/
structure Installed (X : Crates) (e : Env) (mb : ManagedBinary) (upd : UpdateInfo)
    (r : Nat × Option String) (data : Bytes) (sig : Signature) (w w₁ w₂ : World) : Prop where
  prepared : Prepared e mb r w w₁
  swapped : Swapped X e mb upd (· = sigPathFor mb.installPath) data sig w₁ w₂
  sidecar : w₂.file (sigPathFor mb.installPath) = some sig.val

/-- The backup is still there after the swap. -/
theorem Installed.backup {data : Bytes} {sig : Signature}
    (h : Installed X e mb upd r data sig w w₁ w₂) (hap : Apart e.config mb upd) {path : String}
    (hpath : r.2 = some path) :
    path = backupPathFor e.config mb ∧ ∃ b, w.file mb.installPath = some b ∧
      w₂.file path = some b := by
  obtain ⟨rfl, b, hb, hcopy⟩ := h.prepared.copied path hpath
  refine ⟨rfl, b, hb, ?_⟩
  rw [h.swapped.frame _ hap.backup_download hap.install_ne.symm hap.backup_ne_sidecar]
  exact hcopy hap.install_ne

/-- What is left of a failed update once the backup has been copied back. -/
structure Reverted (e : Env) (mb : ManagedBinary) (upd : UpdateInfo) (w w' : World) : Prop where
  install : w'.file mb.installPath = w.file mb.installPath
  frame : ∀ p, ¬ BackupFile e.config mb p → ¬ DownloadFile e.config mb upd p →
    p ≠ mb.installPath → w'.file p = w.file p
  rows : SameRows w.db w'.db

/-- Copying the backup back undoes a failed `execute_update`, whether it failed
before or after the rename. -/
theorem reverted_of_restored (hap : Apart e.config mb upd) (hcopy : e.faults .restoreCopy = none)
    (hprep : Prepared e mb r w w₁)
    (hexec : Touches (DownloadFile e.config mb upd) w₁ w₂ ∨
      w.file mb.installPath ≠ none ∧
        ∃ data sig, Swapped X e mb upd (fun _ => False) data sig w₁ w₂)
    (hrest : Restored e mb r.2 w₂ w') : Reverted e mb upd w w' := by
  -- in both cases files apart from the downloads and the install path are kept
  have hkeep : ∀ p, ¬ DownloadFile e.config mb upd p → p ≠ mb.installPath →
      w₂.file p = w₁.file p := by
    intro p hp hpi
    rcases hexec with h | ⟨-, data, sig, h⟩
    · exact h.file hp
    · exact h.frame p hp hpi not_false
  have hrows : SameRows w₁.db w₂.db := by
    rcases hexec with h | ⟨-, data, sig, h⟩
    · exact h.db ▸ .refl _
    · exact h.db ▸ .refl _
  refine ⟨?_, fun p hpb hpd hpi => ?_, (hprep.aside.rows.trans hrows).trans hrest.aside.rows⟩
  · cases hback : r.2 with
    | none =>
        obtain ⟨habsent, hsame⟩ := hprep.absent hback
        rcases hexec with h | ⟨hsome, -⟩
        · rw [hrest.untouched hback, h.file hap.install_download, hsame]
        · exact absurd habsent hsome
    | some path =>
        obtain ⟨rfl, b, hb, hback'⟩ := hprep.copied path hback
        have hfile : w₂.file (backupPathFor e.config mb) = some b :=
          (hkeep _ hap.backup_download hap.install_ne.symm).trans (hback' hap.install_ne)
        rw [hb]
        exact hrest.restored _ b hback hfile hap.install_ne.symm hcopy
  · rw [hrest.aside.file hpi, hkeep p hpd hpi, hprep.aside.file hpb]

/-- Before the update is executed nothing has to be reverted. -/
theorem Reverted.of_prepare (hap : Apart e.config mb upd)
    (h : Aside (BackupFile e.config mb) w w') : Reverted e mb upd w w' :=
  ⟨h.file hap.install_backup, fun _ hpb _ _ => h.file hpb, h.rows⟩

/-- An update that was reverted leaves the signature that was there. -/
theorem Reverted.sidecar (h : Reverted e mb upd w w') (hap : Apart e.config mb upd) :
    w'.file (sigPathFor mb.installPath) = w.file (sigPathFor mb.installPath) :=
  h.frame _ hap.sidecar_backup hap.sidecar_download (sigPathFor_ne _)

/-- An update that failed after the rename on a first install. -/
structure Stranded (X : Crates) (e : Env) (mb : ManagedBinary) (upd : UpdateInfo) (w w' : World) :
    Prop where
  late : LateFault e
  first : w.file mb.installPath = none
  left : ∃ r w₁ w₂ data sig, Prepared e mb r w w₁ ∧
    Swapped X e mb upd (fun _ => False) data sig w₁ w₂ ∧ Restored e mb r.2 w₂ w'

/-- Every outcome of an update: the success arm runs after the swap, or the
update is undone, unless something failed between the rename and the end of
`execute_update` on a first install. -/
theorem wp_applyUpdate_of {Q : Unit → World → Prop} {E : String → World → Prop}
    (hap : Apart e.config mb upd) (hcopy : e.faults .restoreCopy = none)
    (hfinish : ∀ updateId backup metrics data sig w₁ w₂,
      Installed X e mb upd (updateId, backup) data sig w w₁ w₂ →
        wp (finishUpdate X e mb upd updateId backup metrics) Q E w₂)
    (hfail : ∀ msg w', Reverted e mb upd w w' ∨ Stranded X e mb upd w w' → E msg w') :
    wp (applyUpdate X e mb upd) Q E w := by
  unfold applyUpdate
  rw [wp_bind]
  refine wp_mono ?_ (fun msg w' h => hfail msg w' (.inl (.of_prepare hap h))) wp_prepareUpdate
  rintro r w₁ hprep
  obtain ⟨updateId, backup⟩ := r
  simp only [wp_bind, wp_attempt]
  refine wp_mono ?_ ?_ wp_executeUpdate
  · rintro metrics w₂ ⟨data, sig, hswap, hsidecar⟩
    exact hfinish updateId backup metrics data sig w₁ w₂ ⟨hprep, hswap, hsidecar⟩
  · intro err w₂ hexec
    refine wp_mono (fun _ _ h => h.elim) (fun msg w₃ hrest => hfail msg w₃ ?_) wp_abortUpdate
    rcases hexec with h | ⟨hlate, data, sig, h⟩
    · exact .inl (reverted_of_restored (X := X) hap hcopy hprep (.inl h) hrest)
    · by_cases hnone : w.file mb.installPath = none
      · exact .inr ⟨hlate, hnone, _, w₁, w₂, data, sig, hprep, h, hrest⟩
      · exact .inl (reverted_of_restored hap hcopy hprep (.inr ⟨hnone, data, sig, h⟩) hrest)

/-- The rows are as before when the success arm starts. -/
theorem Installed.rows {data : Bytes} {sig : Signature}
    (h : Installed X e mb upd r data sig w w₁ w₂) : SameRows w.db w₂.db :=
  h.prepared.aside.rows.trans (h.swapped.db ▸ .refl _)

/-- A success arm that cannot fail is completed. -/
theorem wp_finishUpdate_installed {updateId : Nat} {backup : Option String}
    {metrics : UpdateMetrics} {data : Bytes} {sig : Signature} (hap : Apart e.config mb upd)
    (hbook : Bookable X e mb upd w)
    (hinst : Installed X e mb upd (updateId, backup) data sig w w₁ w₂) :
    wp (finishUpdate X e mb upd updateId backup metrics)
      (fun _ w' => ∃ hash version, X.crypto.blake3FromHex upd.checksum = some hash ∧
        normalizeVersionString X.semver (X.semver.display upd.version) = .ok version ∧
        Finished X mb upd backup hash version w₂ w') (fun _ _ => False) w₂ := by
  obtain ⟨hash, hhash⟩ := hbook.hex
  obtain ⟨version, hversion⟩ := hbook.version
  have hdata : data ≠ [] := by
    rintro rfl
    exact hbook.nonempty hinst.swapped.checksum
  have hstarted : ∃ row ∈ w₂.db.history, row.updateId = updateId := by
    rw [hinst.swapped.db]
    exact hinst.prepared.started
  have hb : w₂.db.hasBinary mb.binaryId = true := by
    rw [hasBinary_congr hinst.rows.managed]
    exact hinst.prepared.known
  have hfresh : ∀ r ∈ w₂.db.installed,
      ¬ (r.binaryId = mb.binaryId ∧ r.versionId = upd.versionId) := by
    rw [hinst.rows.installed]
    exact hbook.fresh
  have hbackup : ∀ path, backup = some path → ∃ b, w₂.file path = some b := by
    intro path hpath
    obtain ⟨-, b, -, hb⟩ := hinst.backup hap hpath
    exact ⟨b, hb⟩
  have hprev : backup ≠ none → ∀ id v, mb.currentVersionId = some id →
      mb.currentVersionString = some v → ∃ n, normalizeVersionString X.semver v = .ok n := by
    intro hne
    obtain ⟨path, rfl⟩ := Option.ne_none_iff_exists'.mp hne
    obtain ⟨-, b, hb, -⟩ := hinst.prepared.copied path rfl
    exact hbook.previous (by rw [hb]; exact Option.some_ne_none b)
  refine wp_mono (fun _ w₃ hfin => ?_) (fun _ _ h => h.elim)
    (wp_finishUpdate_ok hbook.noFault hstarted hinst.swapped.file hdata hhash hversion hb hfresh
      hbackup hprev)
  exact ⟨hash, version, hhash, hversion, hfin⟩

/-- An update whose success arm cannot fail is completed or undone. -/
theorem wp_applyUpdate (hap : Apart e.config mb upd) (hbook : Bookable X e mb upd w)
    (hcopy : e.faults .restoreCopy = none) :
    wp (applyUpdate X e mb upd)
      (fun _ w' => ∃ r w₁ w₂ data sig hash version,
        Installed X e mb upd r data sig w w₁ w₂ ∧
        X.crypto.blake3FromHex upd.checksum = some hash ∧
        normalizeVersionString X.semver (X.semver.display upd.version) = .ok version ∧
        Finished X mb upd r.2 hash version w₂ w')
      (fun _ w' => Reverted e mb upd w w' ∨ Stranded X e mb upd w w') w := by
  refine wp_applyUpdate_of hap hcopy (fun updateId backup metrics data sig w₁ w₂ hinst => ?_)
    fun _ _ h => h
  refine wp_mono (fun _ w₃ hfin => ?_) (fun _ _ h => h.elim)
    (wp_finishUpdate_installed hap hbook hinst)
  obtain ⟨hash, version, hhash, hversion, hfin⟩ := hfin
  exact ⟨_, w₁, w₂, data, sig, hash, version, hinst, hhash, hversion, hfin⟩

end Outcome

/-! ## a sample client -/

/-- The row of `app` once a version is installed. -/
def sampleBinaryAt (version : String) : ManagedBinary :=
  { sampleBinary with
    currentVersionId := some version
    currentVersionString := some version }

/-- The row of an installed version. -/
def sampleInstalled (version : String) (binary : Bytes) (current : Bool) : InstalledVersion :=
  ⟨"b1", version, version, (sampleBlake3 binary).val, (sampleCrypto.sha256 binary).val,
    binary.length, current⟩

/-- The history row of a completed update. -/
def sampleHistory (id : Nat) (old : Option String) (new : String) (binary : Bytes) :
    UpdateHistory :=
  ⟨id, ⟨"b1", old, old, new, new⟩,
    { fullSizeBytes := some binary.length, actualDownloadedBytes := some binary.length }, 0,
    .completed, some true, none⟩

/-- The directories the client has created. -/
def sampleDirs : List String := ["/data/downloads", "/data/backups", "/opt"]

/-- The client after the first install. -/
def sampleWorld1 : World where
  files := Files.ofList [("/opt/app.sig", sampleSig1.val), ("/opt/app", [1])]
  dirs := sampleDirs
  db :=
    { managed := ⟨[sampleBinaryAt "1.0.0"], by decide +kernel⟩
      installed := ⟨[sampleInstalled "1.0.0" [1] true], by decide +kernel⟩
      backups := AutoTable.empty
      history := ⟨⟨[sampleHistory 1 none "1.0.0" [1]], by decide +kernel⟩, 2, by
        intro r hr; rw [List.mem_singleton.mp hr]; decide⟩ }
  log := []
  sent := []
  asked := []

theorem settle_sampleFirstInstall :
    (exec sampleFirstInstall sampleWorld).2.settle = sampleWorld1 := by decide +kernel

/-- The update to version 1.1.0. -/
def sampleSecond (e : Env) : M Unit :=
  applyUpdate sampleCrates e (sampleBinaryAt "1.0.0") (sampleUpdate (.new 1 1 0) [2])

/-- The files of the second call are apart. -/
theorem sampleSecond_apart :
    Apart sampleConfig (sampleBinaryAt "1.0.0") (sampleUpdate (.new 1 1 0) [2]) :=
  ⟨by decide +kernel, by decide +kernel, by decide +kernel, by decide +kernel, by decide +kernel⟩

end Deltaship
