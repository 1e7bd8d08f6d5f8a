import Deltaship.Client.Attempt

/-!
# Deltaship.Client.Recovery

Attempts that were killed or failed take nothing of it away that an update needs to succeed.

Only a diff can be in the way afterwards: it was made for the old binary, and an attempt that was
killed late has installed the new one.
-/

namespace Deltaship

open Prog Script

/-! ## any number of attempts -/

/-- The server sends an attempt parts of the two files at most, and its temporary files have
other names. -/
structure Attempting (e : Env) (cfg : ClientConfig) (mb : ManagedBinary) (upd : UpdateInfo)
    (data raw : Bytes) : Prop where
  config : e.config = cfg
  full : ∀ url, upd.fullBinaryUrl = some url → e.Serves url data
  diff : ∀ url, upd.diffUrl = some url → e.Serves url raw
  temp : ∀ p, DownloadFile cfg mb upd p → e.TempApart p

/-- Attempts at an update, each with faults of its own and killed somewhere, at its end if not
before; what else happens leaves the two downloads alone, or removes them. -/
inductive Attempts (X : Crates) (cfg : ClientConfig) (mb : ManagedBinary) (upd : UpdateInfo)
    (data raw : Bytes) (w : World) : World → Prop
  | start : Attempts X cfg mb upd data raw w w
  | attempt {w₁ w₂ : World} (e : Env) (h : Attempts X cfg mb upd data raw w w₁)
      (hclient : Attempting e cfg mb upd data raw)
      (hpass : (Stepwise.applyUpdate X e mb upd).Passes w₁ w₂) : Attempts X cfg mb upd data raw w w₂
  | elsewhere {w₁ w₂ : World} (h : Attempts X cfg mb upd data raw w w₁)
      (hleft : ∀ p, DownloadFile cfg mb upd p → w₂.file p = w₁.file p ∨ w₂.file p = none) :
      Attempts X cfg mb upd data raw w w₂

section Attempts

variable {X : Crates} {cfg : ClientConfig} {mb : ManagedBinary} {upd : UpdateInfo}
  {data raw : Bytes} {w w' : World}

/-- An update can be killed when `execute_update` has ended. -/
theorem passes_executed {e : Env} :
    (Stepwise.applyUpdate X e mb upd).Passes w
      (exec (prepareUpdate X e mb upd >>= fun _ => executeUpdate X e mb upd) w).2 := by
  rw [exec_bind, ← Stepwise.run_prepareUpdate]
  have hprepare := passes_exec (Stepwise.prepareUpdate X e mb upd) w
  cases hrun : exec (Stepwise.prepareUpdate X e mb upd).run w with
  | mk r w₁ =>
      rw [hrun] at hprepare
      cases r with
      | error err => exact .inl hprepare
      | ok r =>
          refine passes_bind hrun (.inl ?_)
          have hexecute := passes_exec (Stepwise.executeUpdate X e mb upd) w₁
          rwa [Stepwise.run_executeUpdate] at hexecute

/-- Attempts leave parts of the downloads that can be resumed. -/
theorem Attempts.leftover (h : Attempts X cfg mb upd data raw w w') (hap : Apart cfg mb upd)
    (hw : Leftover cfg mb upd data raw w) : Leftover cfg mb upd data raw w' := by
  induction h with
  | start => exact hw
  | attempt e _ hclient hpass ih =>
      obtain ⟨rfl, hfull, hdiff, htemp⟩ := hclient
      exact stays_applyUpdate_spares hap hfull hdiff htemp _ _ hpass ih
  | elsewhere _ hleft ih =>
      have hpart : ∀ {content p}, DownloadFile cfg mb upd p → Partial content p _ →
          Partial content p _ := fun hp hpart =>
        (hleft _ hp).elim hpart.of_file partial_of_absent
      exact ⟨hpart (.inr rfl) ih.full, hpart (.inl rfl) ih.diff⟩

end Attempts

/-! ### killed behind the rename -/

/-- The client that was killed when version 1.1.0 was installed but not yet recorded. -/
def sampleUnrecorded : World where
  files := Files.ofList
    [("/opt/app.sig", sampleSig2.val), ("/opt/app", [2]),
      ("/data/backups/app_1.0.0.backup.sig", sampleSig1.val),
      ("/data/backups/app_1.0.0.backup", [1])]
  dirs := sampleDirs
  db := { sampleWorld1.db with
    history := sampleWorld1.db.history.insert
      (fun n => ⟨n, ⟨"b1", some "1.0.0", some "1.0.0", "1.1.0", "1.1.0"⟩, {}, 0, .downloading, none,
        none⟩) fun _ => rfl }
  log := []
  sent := []
  asked := []

theorem sampleEnv_delivers {files : List (String × Bytes)} {url : String} {content : Bytes}
    (hfind : (files.find? fun f => f.1 == url) = some (url, content)) :
    (sampleEnv files).Delivers url content := by
  have hserve : ∀ history range, (sampleEnv files).serve (history ++ [.get url range]) =
      .response 200 (some content.length) [content] none := by
    intro history range
    simp [sampleEnv, serveFiles, hfind]
  refine ⟨fun history range status length body cut hreply => ?_, fun history range =>
    ⟨_, _, _, hserve history range, .inr rfl⟩⟩
  rw [hserve] at hreply
  obtain ⟨rfl, -, rfl, rfl⟩ := Reply.response.inj hreply
  exact ⟨fun h => by contradiction, fun h => by contradiction, fun _ _ => ⟨by simp, by simp⟩⟩

/-- The downloads of an update of the sample client to version 1.1.0. -/
theorem sampleDownloads :
    diffPath sampleConfig (sampleBinaryAt "1.0.0") sampleDiffUpdate =
        "/data/downloads/app_1.1.0.diff" ∧
      fullPath sampleConfig (sampleBinaryAt "1.0.0") sampleDiffUpdate =
        "/data/downloads/app_1.1.0.tmp" := by
  decide

/-- Their names are those of the version. -/
theorem downloadFile_sample {upd : UpdateInfo} {p : String}
    (hupd : upd.versionId = sampleDiffUpdate.versionId)
    (hp : DownloadFile sampleConfig (sampleBinaryAt "1.0.0") upd p) :
    p = "/data/downloads/app_1.1.0.diff" ∨ p = "/data/downloads/app_1.1.0.tmp" := by
  obtain ⟨hdiff, hfull⟩ := sampleDownloads
  rcases hp with rfl | rfl
  · left
    rw [← hdiff, diffPath, diffPath, hupd]
  · right
    rw [← hfull, fullPath, fullPath, hupd]

/-- Nothing of them is left in the installed sample client. -/
theorem sampleWorld1_absent {upd : UpdateInfo} {p : String}
    (hupd : upd.versionId = sampleDiffUpdate.versionId)
    (hp : DownloadFile sampleConfig (sampleBinaryAt "1.0.0") upd p) :
    sampleWorld1.file p = none := by
  have habsent : sampleWorld1.file "/data/downloads/app_1.1.0.diff" = none ∧
      sampleWorld1.file "/data/downloads/app_1.1.0.tmp" = none := by decide
  rcases downloadFile_sample hupd hp with rfl | rfl
  · exact habsent.1
  · exact habsent.2

/-- What a state of the sample client needs for an update of `app` from version 1.0.0 to 1.1.0. -/
def SampleReady (X : Crates) (upd : UpdateInfo) (w : World) : Prop :=
  let mb := sampleBinaryAt "1.0.0"
  (¬ BackupFile sampleConfig mb mb.installPath ∧
    ¬ BackupFile sampleConfig mb (sigPathFor mb.installPath) ∧
    ¬ DownloadFile sampleConfig mb upd mb.installPath ∧
    ¬ DownloadFile sampleConfig mb upd (sigPathFor mb.installPath) ∧
    ¬ DownloadFile sampleConfig mb upd (backupPathFor sampleConfig mb)) ∧
  (parentPath mb.installPath = some "/opt" ∧ (w.file mb.installPath).isSome = true ∧
    (exec (validateInstallPath sampleHost mb.installPath) w).1 = .ok () ∧
    diffPath sampleConfig mb upd ∉ w.dirs ∧ fullPath sampleConfig mb upd ∉ w.dirs ∧
    sigPathFor mb.installPath ∉ w.dirs) ∧
  w.db.hasBinary mb.binaryId = true ∧ (X.crypto.blake3FromHex upd.checksum).isSome = true ∧
    Hash.fromHex upd.checksum ≠ .ok (X.crypto.blake3 []) ∧
    normalizeVersionString X.semver (X.semver.display upd.version) = .ok "1.1.0" ∧
    normalizeVersionString X.semver "1.0.0" = .ok "1.0.0" ∧
    ∀ r ∈ w.db.installed.rows, ¬ (r.binaryId = mb.binaryId ∧ r.versionId = upd.versionId)

instance (X : Crates) (upd : UpdateInfo) (w : World) : Decidable (SampleReady X upd w) :=
  inferInstanceAs (Decidable (_ ∧ _ ∧ _))

/-- Then a client without faults can install it. -/
theorem SampleReady.installing {X : Crates} {e : Env} {upd : UpdateInfo} {w : World}
    (h : SampleReady X upd w) (hfault : e.NoFault) (hfresh : e.TempFresh)
    (hhost : e.host = sampleHost) (hconfig : e.config = sampleConfig) :
    Installing X e (sampleBinaryAt "1.0.0") upd [2] w := by
  obtain ⟨⟨hinstall, hsidecar, hdownload, hdownload', hbackup⟩,
    ⟨hparent, hthere, hvalid, hdiff, hfull, hdir⟩, hknown, hhex, hnonempty, hversion, hprevious,
    hrows⟩ := h
  refine ⟨hfault, hfresh, ?_, by decide, ⟨_, hparent⟩, fun w' hfile => ?_, hthere, hknown,
    ⟨fun _ _ => hfault _, Option.isSome_iff_exists.mp hhex, hnonempty, ⟨_, hversion⟩, hrows,
      fun _ id v _ hv => ?_⟩, ?_, hdir⟩
  · rw [hconfig]
    exact ⟨hinstall, hsidecar, hdownload, hdownload', hbackup⟩
  · rw [hhost]
    exact (respects_validateInstallPath _ _ w' w ⟨hfile, hthere⟩).1.trans hvalid
  · rw [← Option.some.inj hv]
    exact ⟨_, hprevious⟩
  · rw [hconfig]
    rintro p (rfl | rfl)
    · exact hdiff
    · exact hfull

/-- The client was killed between `execute_update` and the recording. -/
theorem attempts_unrecorded (upd : UpdateInfo)
    (hupd : upd = sampleDiffUpdate ∨ upd = sampleDiffUpdate.withoutDiff) :
    Attempts sampleDiffCrates sampleConfig (sampleBinaryAt "1.0.0") upd [2] sampleIncrement
      sampleWorld1 sampleUnrecorded := by
  have hfull : upd.fullBinaryUrl = some "/binary" := by
    rcases hupd with rfl | rfl <;> rfl
  have hversion : upd.versionId = sampleDiffUpdate.versionId := by
    rcases hupd with rfl | rfl <;> rfl
  have hdiff : ∀ url, upd.diffUrl = some url → url = "/diff" := by
    rintro url hurl
    rcases hupd with rfl | rfl
    · exact (Option.some.inj hurl).symm
    · contradiction
  refine .elsewhere (.attempt sampleDiffEnv .start ⟨rfl, fun url hurl => ?_, fun url hurl => ?_,
    fun p hp => ?_⟩ passes_executed) fun p hp => .inr ?_
  · obtain rfl := Option.some.inj (hurl.symm.trans hfull)
    exact (sampleEnv_delivers rfl).serves
  · obtain rfl := hdiff url hurl
    exact (sampleEnv_delivers rfl).serves
  · rcases downloadFile_sample hversion hp with rfl | rfl
    · exact tempApart_longName (fun _ => rfl) (by decide)
    · exact tempApart_longName (fun _ => rfl) (by decide)
  · rcases downloadFile_sample hversion hp with rfl | rfl
    · decide
    · decide

/-- Both downloads of the sample update are delivered. -/
theorem delivered_sampleDiffUpdate :
    Delivered sampleDiffCrates sampleDiffEnv (sampleBinaryAt "1.0.0") sampleDiffUpdate [2]
      sampleIncrement where
  full := ⟨"/binary", rfl, sampleEnv_delivers rfl⟩
  diff url hurl := by
    obtain rfl := Option.some.inj hurl
    exact sampleEnv_delivers rfl
  signature := ⟨"/signature", sampleSig2, sampleKey, ⟨sampleKey, by decide⟩, rfl,
    fun sent => ⟨200, some sampleSig2.val.length, [sampleSig2.val],
      by simp [sampleDiffEnv, sampleEnv, serveFiles, sampleFiles], rfl, by decide⟩,
    by decide, rfl, by decide⟩
  checksum := by decide
  diffChecksum _ := ⟨_, rfl, by decide⟩

/-- Without its diff an update is delivered as well. -/
theorem Delivered.withoutDiff {X : Crates} {e : Env} {mb : ManagedBinary} {upd : UpdateInfo}
    {data raw : Bytes} (h : Delivered X e mb upd data raw) :
    Delivered X e mb upd.withoutDiff data raw :=
  ⟨h.full, nofun, h.signature, h.checksum, nofun⟩

/-- The client that was killed can install the update. -/
theorem installing_unrecorded : Installing sampleDiffCrates sampleDiffEnv (sampleBinaryAt "1.0.0")
    sampleDiffUpdate [2] sampleUnrecorded := by
  have hready : SampleReady sampleDiffCrates sampleDiffUpdate sampleUnrecorded := by decide
  exact hready.installing (fun _ => rfl) (sampleEnv_tempFresh _) rfl rfl

/-- Without the diff it can install it as well. -/
theorem Installing.withoutDiff {X : Crates} {e : Env} {mb : ManagedBinary} {upd : UpdateInfo}
    {data : Bytes} {w : World} (h : Installing X e mb upd data w) :
    Installing X e mb upd.withoutDiff data w where
  noFault := h.noFault
  fresh := h.fresh
  apart := ⟨h.apart.install_backup, h.apart.sidecar_backup, h.apart.install_download,
    h.apart.sidecar_download, h.apart.backup_download⟩
  size := h.size
  parent := h.parent
  valid := h.valid
  installed := h.installed
  known := h.known
  bookable := ⟨h.bookable.noFault, h.bookable.hex, h.bookable.nonempty, h.bookable.version,
    h.bookable.fresh, h.bookable.previous⟩
  dirs := h.dirs
  sidecarDir := h.sidecarDir

/-- The update with a diff, up to the end of `execute_update`. -/
def sampleUnrecordedRun : M UpdateMetrics := do
  let _ ← prepareUpdate sampleDiffCrates sampleDiffEnv (sampleBinaryAt "1.0.0") sampleDiffUpdate
  executeUpdate sampleDiffCrates sampleDiffEnv (sampleBinaryAt "1.0.0") sampleDiffUpdate

example : (exec sampleUnrecordedRun sampleWorld1).2.settle = sampleUnrecorded := by decide +kernel

end Deltaship
