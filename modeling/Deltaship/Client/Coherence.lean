import Deltaship.Client.Outcome
import Deltaship.Client.Rollback
import Deltaship.Lib.Runs

/-!
# Deltaship.Client.Coherence

Whether the installed file is the one the database records, over whole runs of
updates and rollbacks without faults.

The file is swapped before the database is written, so a run can lose
coherence where the database refuses the new version: it keeps one row for
each version id, and re-installing a version that was rolled back from is
refused after the rename (`update_after_rollback_incoherent`).
`Recorded` is the invariant of the runs in which this does not happen: the
current version of each binary and every backup refer to a row of
`installed_versions` with the hash of the file.
-/

namespace Deltaship

open Prog ClientDb Runs

/-! ## runs -/

/-- One call of the client. -/
inductive Call where
  | update (e : Env) (mb : ManagedBinary) (upd : UpdateInfo)
  | rollback (e : Env) (binaryName : String) (toVersion : Option String)

/-- What the client does in a call. -/
def Call.body (X : Crates) : Call → M Unit
  | .update e mb upd => applyUpdate X e mb upd
  | .rollback e binaryName toVersion => performRollback X e id binaryName toVersion

/-- The state after a call, whether it succeeded or failed. -/
def Call.next (X : Crates) (w : World) (c : Call) : World := (exec (c.body X) w).2.settle

/-- A call without faults; an update is called with a row of the database. -/
def Call.Clean (cfg : ClientConfig) (w : World) : Call → Prop
  | .update e mb _ => e.config = cfg ∧ e.NoFault ∧ e.TempFresh ∧ mb ∈ w.db.managed
  | .rollback e _ _ => e.config = cfg ∧ e.NoFault ∧ e.TempFresh

/-- Binaries are registered, and nothing was installed yet. -/
structure Registered (w : World) : Prop where
  managed : ∀ b ∈ w.db.managed, b.currentVersionId = none ∧ b.currentVersionString = none
  installed : ∀ r, ¬ r ∈ w.db.installed
  backups : ∀ r, ¬ r ∈ w.db.backups

/-- The row of `installed_versions` for a version of a binary. -/
def VersionRow (db : ClientDb) (binaryId versionId versionString : String) (hash : Bytes) : Prop :=
  ∃ r ∈ db.installed, r.binaryId = binaryId ∧ r.versionId = versionId ∧
    r.versionString = versionString ∧ r.fileHashBlake3 = hash

/-- If a version is recorded for a binary, the installed file has the hash
recorded for that version. -/
def Coherent (X : Crates) (w : World) : Prop :=
  ∀ b ∈ w.db.managed, ∀ v, b.currentVersionString = some v →
    ∃ id data, b.currentVersionId = some id ∧ w.file b.installPath = some data ∧
      VersionRow w.db b.binaryId id v (X.crypto.blake3 data).val

/-! ## the condition -/

/-- The files a rollback may write. -/
def RollbackFile (cfg : ClientConfig) (binary : ManagedBinary) (p : String) : Prop :=
  SnapshotFile id cfg binary p ∨ p = binary.installPath ∨ p = sigPathFor binary.installPath

/-- The binaries other than this one have their files elsewhere. -/
def OthersOff (P : String → Prop) (db : ClientDb) (binaryId : String) : Prop :=
  ∀ b ∈ db.managed, b.binaryId ≠ binaryId → ¬ P b.installPath

/-- The database will accept the new version: the paths are apart, the checksum
is one that both parsers read and not the one of an empty file, the version text
is kept as it is, and the version id is not recorded yet, unless the update is to
the bytes that are installed already. -/
structure UpdateAccepted (X : Crates) (cfg : ClientConfig) (mb : ManagedBinary) (upd : UpdateInfo)
    (w : World) : Prop where
  apart : Apart cfg mb upd
  others : OthersOff (UpdateFile cfg mb upd) w.db mb.binaryId
  hex : ∃ hash, X.crypto.blake3FromHex upd.checksum = some hash
  nonempty : Hash.fromHex upd.checksum ≠ .ok (X.crypto.blake3 [])
  version : normalizeVersionString X.semver (X.semver.display upd.version) =
    .ok (X.semver.display upd.version)
  fresh : (∀ r ∈ w.db.installed, ¬ (r.binaryId = mb.binaryId ∧ r.versionId = upd.versionId)) ∨
    ∃ id v hash, mb.currentVersionId = some id ∧ mb.currentVersionString = some v ∧
      VersionRow w.db mb.binaryId id v hash.val ∧ Hash.fromHex upd.checksum = .ok hash

/-- The snapshot of a rollback goes to files of its own, and does not replace
the selected backup by other bytes. -/
structure RollbackAccepted (X : Crates) (cfg : ClientConfig) (binary : ManagedBinary)
    (target : RollbackBackup) (w : World) : Prop where
  install : ¬ SnapshotFile id cfg binary binary.installPath
  others : OthersOff (RollbackFile cfg binary) w.db binary.binaryId
  keeps : SnapshotKeeps X id cfg binary target w

/-- The condition of a coherent run on its calls. -/
def Call.Accepted (X : Crates) (cfg : ClientConfig) (w : World) : Call → Prop
  | .update _ mb upd => UpdateAccepted X cfg mb upd w
  | .rollback _ binaryName toVersion => ∀ binary target,
      Selected w.db binaryName toVersion binary target → RollbackAccepted X cfg binary target w

/-! ## the invariant -/

/- The current version of a binary, its row among the installed versions and the hash of the
installed file belong together, and so do a backup and the row of its version. -/

/-- The current version of each binary is recorded with the hash of the
installed file, and every backup is one of a recorded version. -/
structure Recorded (X : Crates) (w : World) : Prop where
  current : ∀ b ∈ w.db.managed, ∀ id, b.currentVersionId = some id → ∃ v data,
    b.currentVersionString = some v ∧ w.file b.installPath = some data ∧
      VersionRow w.db b.binaryId id v (X.crypto.blake3 data).val
  paired : ∀ b ∈ w.db.managed, b.currentVersionId = none → b.currentVersionString = none
  normal : ∀ r ∈ w.db.installed,
    normalizeVersionString X.semver r.versionString = .ok r.versionString
  backups : ∀ r ∈ w.db.backups,
    VersionRow w.db r.binaryId r.versionId r.versionString r.backupHashBlake3

namespace Recorded

variable {X : Crates} {w w' : World}

/-- Before anything was installed there is nothing to have recorded. -/
theorem of_registered (h : Registered w) : Recorded X w where
  current b hb id hid := by
    rw [(h.managed b hb).1] at hid
    contradiction
  paired b hb _ := (h.managed b hb).2
  normal r hr := absurd hr (h.installed r)
  backups r hr := absurd hr (h.backups r)

theorem coherent (h : Recorded X w) : Coherent X w := by
  intro b hb v hv
  cases hid : b.currentVersionId with
  | none =>
      rw [h.paired b hb hid] at hv
      contradiction
  | some id =>
      obtain ⟨v', data, hv', hfile, hrow⟩ := h.current b hb id hid
      obtain rfl : v' = v := Option.some.inj (hv'.symm.trans hv)
      exact ⟨id, data, rfl, hfile, hrow⟩

/-- A call that keeps the rows and the installed files keeps the invariant. -/
theorem of_same (h : Recorded X w) (hmanaged : w'.db.managed = w.db.managed)
    (hinstalled : w'.db.installed = w.db.installed)
    (hbackups : ∀ r ∈ w'.db.backups,
      VersionRow w.db r.binaryId r.versionId r.versionString r.backupHashBlake3)
    (hfile : ∀ b ∈ w.db.managed, w'.file b.installPath = w.file b.installPath) :
    Recorded X w' where
  current b hb id hid := by
    rw [hmanaged] at hb
    rw [hfile b hb]
    unfold VersionRow
    rw [hinstalled]
    exact h.current b hb id hid
  paired b hb := h.paired b (hmanaged ▸ hb)
  normal r hr := h.normal r (hinstalled ▸ hr)
  backups r hr := by
    unfold VersionRow
    rw [hinstalled]
    exact hbackups r hr

/-- A call that makes a version current keeps the invariant, if the installed
file has the hash recorded for it. -/
theorem of_current (h : Recorded X w) {mb : ManagedBinary} (hmb : mb ∈ w.db.managed)
    {id v : String} {data : Bytes}
    (hmanaged : ∀ b' ∈ w'.db.managed, ∃ b ∈ w.db.managed, b' = setCurrent mb.binaryId id v b)
    (hfile : w'.file mb.installPath = some data)
    (hrow : VersionRow w'.db mb.binaryId id v (X.crypto.blake3 data).val)
    (hothers : ∀ b ∈ w.db.managed, b.binaryId ≠ mb.binaryId →
      w'.file b.installPath = w.file b.installPath)
    (hkept : ∀ {binaryId versionId versionString : String} {hash : Bytes},
      VersionRow w.db binaryId versionId versionString hash →
        VersionRow w'.db binaryId versionId versionString hash)
    (hnormal : ∀ r ∈ w'.db.installed,
      normalizeVersionString X.semver r.versionString = .ok r.versionString)
    (hbackups : ∀ r ∈ w'.db.backups,
      VersionRow w'.db r.binaryId r.versionId r.versionString r.backupHashBlake3) :
    Recorded X w' := by
  refine ⟨fun b' hb' id' hid' => ?_, fun b' hb' hnone => ?_, hnormal, hbackups⟩
  · obtain ⟨b, hb, rfl⟩ := hmanaged b' hb'
    by_cases hid : b.binaryId = mb.binaryId
    · obtain rfl : b = mb := Table.eq_of_key_eq hb hmb hid
      rw [setCurrent, if_pos rfl] at hid' ⊢
      obtain rfl : id = id' := Option.some.inj hid'
      exact ⟨v, data, rfl, hfile, hrow⟩
    · rw [setCurrent, if_neg hid] at hid' ⊢
      obtain ⟨v', data', hv', hfile', hrow'⟩ := h.current b hb id' hid'
      exact ⟨v', data', hv', (hothers b hb hid).trans hfile', hkept hrow'⟩
  · obtain ⟨b, hb, rfl⟩ := hmanaged b' hb'
    by_cases hid : b.binaryId = mb.binaryId
    · rw [setCurrent, if_pos hid] at hnone
      contradiction
    · rw [setCurrent, if_neg hid] at hnone ⊢
      exact h.paired b hb hnone

/-- A backup of the installed file is one of a recorded version. -/
theorem of_backupRow (h : Recorded X w) {mb : ManagedBinary} (hmb : mb ∈ w.db.managed)
    {backup : Option String} {r : RollbackBackup} {w₁ : World}
    (hrow : BackupRow X mb backup w₁ r)
    (hcopy : ∀ b, w₁.file r.backupPath = some b → w.file mb.installPath = some b) :
    VersionRow w.db r.binaryId r.versionId r.versionString r.backupHashBlake3 := by
  obtain ⟨b, version, -, hb, hhash, hbinary, hid, hversion, hnormal⟩ := hrow
  obtain ⟨v, data, hv, hfile, row, hrow, hkey, hrowid, hstring, hrowhash⟩ :=
    h.current mb hmb r.versionId hid
  obtain rfl : version = v := Option.some.inj (hversion.symm.trans hv)
  obtain rfl : b = data := Option.some.inj ((hcopy b hb).symm.trans hfile)
  have hsame : r.versionString = version := by
    have hfix := h.normal row hrow
    rw [hstring, hnormal] at hfix
    exact Except.ok.inj hfix
  exact ⟨row, hrow, hkey.trans hbinary.symm, hrowid, hstring.trans hsame.symm,
    hrowhash.trans hhash.symm⟩

end Recorded

/-- Marking the current version leaves the version texts. -/
theorem markCurrent_versionString (binaryId versionId : String) (r : InstalledVersion) :
    (markCurrent binaryId versionId r).versionString = r.versionString := by
  unfold markCurrent
  split <;> rfl

theorem markCurrent_fileHashBlake3 (binaryId versionId : String) (r : InstalledVersion) :
    (markCurrent binaryId versionId r).fileHashBlake3 = r.fileHashBlake3 := by
  unfold markCurrent
  split <;> rfl

/-- Marking a version as current keeps what is recorded for it. -/
theorem versionRow_of_markCurrent {db' : ClientDb} {binaryId versionId versionString : String}
    {hash : Bytes} {bid vid : String} {r : InstalledVersion}
    (hr : markCurrent bid vid r ∈ db'.installed)
    (h : r.binaryId = binaryId ∧ r.versionId = versionId ∧ r.versionString = versionString ∧
      r.fileHashBlake3 = hash) : VersionRow db' binaryId versionId versionString hash := by
  have hkey := key_markCurrent bid vid r
  obtain ⟨hbinary, hversion, hstring, hhash⟩ := h
  exact ⟨_, hr, (congrArg Prod.fst hkey).trans hbinary, (congrArg Prod.snd hkey).trans hversion,
    (markCurrent_versionString bid vid r).trans hstring,
    (markCurrent_fileHashBlake3 bid vid r).trans hhash⟩

/-! ## updates -/

/- An update changes the installed file in one place and the rows in another. The invariant is kept
where the rename is followed by the recording or by the restore, and where the new bytes are those
that are recorded already. -/

section Update

variable {X : Crates} {e : Env} {mb : ManagedBinary} {upd : UpdateInfo} {w w' : World}

/-- An undone update keeps the invariant. -/
theorem recorded_of_reverted (h : Recorded X w) (hacc : UpdateAccepted X e.config mb upd w)
    (hmb : mb ∈ w.db.managed) (hrev : Reverted e mb upd w w') : Recorded X w' := by
  refine h.of_same hrev.rows.managed hrev.rows.installed (fun r hr => ?_) fun b hb => ?_
  · rw [hrev.rows.backups] at hr
    exact h.backups r hr
  · by_cases hid : b.binaryId = mb.binaryId
    · obtain rfl : b = mb := Table.eq_of_key_eq hb hmb hid
      exact hrev.install
    · have hoff := hacc.others b hb hid
      exact hrev.frame _ (fun h => hoff (.inl h)) (fun h => hoff (.inr (.inl h)))
        fun h => hoff (.inr (.inr (.inl h)))

/-- An update leaves the files of the other binaries alone. -/
theorem file_of_installed (hacc : UpdateAccepted X e.config mb upd w) {r : Nat × Option String}
    {w₁ w₂ : World} {data : Bytes} {sig : Signature}
    (hinst : Installed X e mb upd r data sig w w₁ w₂) {b : ManagedBinary}
    (hb : b ∈ w.db.managed) (hid : b.binaryId ≠ mb.binaryId) :
    w₂.file b.installPath = w.file b.installPath := by
  have hoff := hacc.others b hb hid
  rw [hinst.swapped.frame _ (fun h => hoff (.inr (.inl h)))
    (fun h => hoff (.inr (.inr (.inl h)))) fun h => hoff (.inr (.inr (.inr h)))]
  exact hinst.prepared.aside.file fun h => hoff (.inl h)

/-- A completed update keeps the invariant. -/
theorem recorded_of_finished (hstrict : X.crypto.StrictHex) (h : Recorded X w)
    (hacc : UpdateAccepted X e.config mb upd w) (hmb : mb ∈ w.db.managed)
    {r : Nat × Option String} {w₁ w₂ : World} {data : Bytes} {sig : Signature} {hash : Hash}
    (hinst : Installed X e mb upd r data sig w w₁ w₂)
    (hhash : X.crypto.blake3FromHex upd.checksum = some hash)
    (hfin : Finished X mb upd r.2 hash (X.semver.display upd.version) w₂ w') : Recorded X w' := by
  have hrows := hinst.rows
  have hfile : ∀ p, w'.file p = w₂.file p := fun p => congrArg (Files.read · p) hfin.files
  -- both parsers read the checksum alike, so the recorded hash is the one of the new bytes
  obtain rfl : hash = X.crypto.blake3 data := by
    rw [hstrict] at hhash
    exact Except.ok.inj ((fromHex_of_strictFromHex hhash).symm.trans hinst.swapped.checksum)
  obtain ⟨sha256, size, hinstalled⟩ := hfin.installed
  rw [hrows.installed] at hinstalled
  have hkept : ∀ {binaryId versionId versionString : String} {hash : Bytes},
      VersionRow w.db binaryId versionId versionString hash →
        VersionRow w'.db binaryId versionId versionString hash := by
    rintro _ _ _ _ ⟨row, hrow, hfields⟩
    exact versionRow_of_markCurrent ((hinstalled _).mpr ⟨row, .inl hrow, rfl⟩) hfields
  have hmanaged := fun b' => (hfin.managed b').mp
  rw [hrows.managed] at hmanaged
  refine h.of_current hmb hmanaged ((hfile _).trans hinst.swapped.file) ?_
    (fun b hb hid => ?_) hkept (fun row hrow => ?_) fun row hrow => ?_
  · exact versionRow_of_markCurrent ((hinstalled _).mpr ⟨_, .inr rfl, rfl⟩) ⟨rfl, rfl, rfl, rfl⟩
  · exact (hfile _).trans (file_of_installed hacc hinst hb hid)
  · obtain ⟨old, hold, rfl⟩ := (hinstalled row).mp hrow
    rw [markCurrent_versionString]
    rcases hold with hold | rfl
    · exact h.normal old hold
    · exact hacc.version
  · rcases hfin.backups row hrow with hold | hnew
    · rw [hrows.backups] at hold
      exact hkept (h.backups row hold)
    · refine hkept (h.of_backupRow hmb hnew fun b hb => ?_)
      obtain ⟨_, _, hpath, -⟩ := hnew
      obtain ⟨-, b', hb', hcopy⟩ := hinst.backup hacc.apart hpath
      rw [hb', ← hcopy, hb]

/-- An update to the recorded bytes keeps the invariant, although the database
refuses it. -/
theorem recorded_of_refused (h : Recorded X w) (hacc : UpdateAccepted X e.config mb upd w)
    (hmb : mb ∈ w.db.managed) {id v : String} {hash : Hash} (hid : mb.currentVersionId = some id)
    (hv : mb.currentVersionString = some v) (hrow : VersionRow w.db mb.binaryId id v hash.val)
    (hhash : Hash.fromHex upd.checksum = .ok hash) {r : Nat × Option String} {w₁ w₂ : World}
    {data : Bytes} {sig : Signature} (hinst : Installed X e mb upd r data sig w w₁ w₂)
    (hfiles : w'.files = w₂.files) (hrows : SameRows w₂.db w'.db) : Recorded X w' := by
  have hrows : SameRows w.db w'.db := hinst.rows.trans hrows
  have hfile : ∀ p, w'.file p = w₂.file p := fun p => congrArg (Files.read · p) hfiles
  have hversion : ∀ {binaryId versionId versionString : String} {hash : Bytes},
      VersionRow w.db binaryId versionId versionString hash →
        VersionRow w'.db binaryId versionId versionString hash := by
    intro _ _ _ _ h
    unfold VersionRow
    rw [hrows.installed]
    exact h
  refine ⟨fun b hb id' hid' => ?_, fun b hb => h.paired b (hrows.managed ▸ hb),
    fun row hrow => h.normal row (hrows.installed ▸ hrow),
    fun row hrow => hversion (h.backups row (hrows.backups ▸ hrow))⟩
  rw [hrows.managed] at hb
  by_cases heq : b.binaryId = mb.binaryId
  · obtain rfl : b = mb := Table.eq_of_key_eq hb hmb heq
    obtain rfl : id = id' := Option.some.inj (hid.symm.trans hid')
    obtain rfl : hash = X.crypto.blake3 data :=
      Except.ok.inj (hhash.symm.trans hinst.swapped.checksum)
    exact ⟨v, data, hv, (hfile _).trans hinst.swapped.file, hversion hrow⟩
  · obtain ⟨v', data', hv', hfile', hrow'⟩ := h.current b hb id' hid'
    refine ⟨v', data', hv', ?_, hversion hrow'⟩
    rw [hfile, file_of_installed hacc hinst hb heq]
    exact hfile'

/-- Every update that meets the condition keeps the invariant, completed or
not. -/
theorem recorded_update (hstrict : X.crypto.StrictHex) (h : Recorded X w) (hclean : e.NoFault)
    (htemp : e.TempFresh) (hmb : mb ∈ w.db.managed) (hacc : UpdateAccepted X e.config mb upd w) :
    Recorded X (exec (applyUpdate X e mb upd) w).2 := by
  have hfail : ∀ w', Reverted e mb upd w w' ∨ Stranded X e mb upd w w' → Recorded X w' := by
    rintro w' (hrev | ⟨hlate, -⟩)
    · exact recorded_of_reverted h hacc hmb hrev
    · exact absurd hlate (not_lateFault hclean htemp)
  by_cases hfresh : ∀ r ∈ w.db.installed,
      ¬ (r.binaryId = mb.binaryId ∧ r.versionId = upd.versionId)
  · have hbook : Bookable X e mb upd w := by
      refine ⟨fun site _ => hclean site, hacc.hex, hacc.nonempty, ⟨_, hacc.version⟩, hfresh,
        fun _ id v hid hv => ?_⟩
      obtain ⟨v', -, hv', -, row, hrow, -, -, hstring, -⟩ := h.current mb hmb id hid
      obtain rfl : v' = v := Option.some.inj (hv'.symm.trans hv)
      exact ⟨v', hstring ▸ h.normal row hrow⟩
    refine wp_exec_snd (wp_mono ?_ (fun _ => hfail) (wp_applyUpdate hacc.apart hbook (hclean _)))
    rintro _ w' ⟨r, w₁, w₂, data, sig, hash, version, hinst, hhash, hversion, hfin⟩
    obtain rfl : X.semver.display upd.version = version :=
      Except.ok.inj (hacc.version.symm.trans hversion)
    exact recorded_of_finished hstrict h hacc hmb hinst hhash hfin
  · obtain ⟨id, v, hash, hid, hv, hrow, hhash⟩ := hacc.fresh.resolve_left hfresh
    simp only [not_forall, not_not] at hfresh
    obtain ⟨row, hmem, htaken⟩ := hfresh
    refine wp_exec_snd (wp_applyUpdate_of hacc.apart (hclean _)
      (fun updateId backup metrics data sig w₁ w₂ hinst => ?_) fun _ => hfail)
    have htaken₂ : ∃ r ∈ w₂.db.installed,
        r.binaryId = mb.binaryId ∧ r.versionId = upd.versionId :=
      ⟨row, by rw [hinst.rows.installed]; exact hmem, htaken⟩
    refine wp_mono (fun _ _ h => h.elim) (fun _ w' h' => ?_) (wp_finishUpdate_taken htaken₂)
    exact recorded_of_refused h hacc hmb hid hv hrow hhash hinst h'.1 h'.2

end Update

/-! ## rollbacks -/

section Rollback

variable {X : Crates} {e : Env} {w w' : World} {binary : ManagedBinary} {target : RollbackBackup}

/-- A snapshot is one of a recorded version. -/
theorem backups_of_snapshotted (h : Recorded X w) (hbinary : binary ∈ w.db.managed)
    (hinstall : ¬ SnapshotFile id e.config binary binary.installPath)
    (hsnap : Snapshotted X e id binary w w') : ∀ r ∈ w'.db.backups,
      VersionRow w.db r.binaryId r.versionId r.versionString r.backupHashBlake3 := by
  intro r hr
  rcases hsnap.backups r hr with hold | ⟨hnew, hcopy⟩
  · exact h.backups r hold
  · refine h.of_backupRow hbinary hnew.backupRow fun b hb => ?_
    rw [hnew.1] at hb
    exact file_of_copyOf (fun heq => hinstall (.inl heq))
      ((hcopy (sidecarApart_id _ _)).symm.trans hb)

/-- A snapshot leaves the installed files alone. -/
theorem file_of_snapshotted (hacc : RollbackAccepted X e.config binary target w)
    (hbinary : binary ∈ w.db.managed) (hsnap : Snapshotted X e id binary w w') {b : ManagedBinary}
    (hb : b ∈ w.db.managed) : w'.file b.installPath = w.file b.installPath := by
  by_cases hid : b.binaryId = binary.binaryId
  · obtain rfl : b = binary := Table.eq_of_key_eq hb hbinary hid
    exact hsnap.files _ hacc.install
  · exact hsnap.files _ fun h => hacc.others b hb hid (.inl h)

/-- Every rollback that meets the condition keeps the invariant, completed or
not. -/
theorem recorded_rollback {binaryName : String} {toVersion : Option String} (h : Recorded X w)
    (hclean : e.NoFault)
    (hacc : ∀ binary target, Selected w.db binaryName toVersion binary target →
      RollbackAccepted X e.config binary target w) :
    Recorded X (exec (performRollback X e id binaryName toVersion) w).2 := by
  refine wp_exec_snd (wp_mono ?_ ?_ wp_performRollback)
  · rintro _ w' ⟨binary, target, data, restored, w₁, hsel, hverified, hsnap, hexact, hrolled⟩
    have hacc := hacc binary target hsel
    obtain ⟨hbinary, htarget, hsame⟩ := hsel.mem
    have hrestored := hrolled.apart (sigPathFor_ne _)
    rw [hexact] at hrestored
    have hhash := (hash_afterSnapshot_iff hverified hrestored).mpr hacc.keeps
    have hkept : ∀ {binaryId versionId versionString : String} {hash : Bytes},
        VersionRow w.db binaryId versionId versionString hash →
          VersionRow w'.db binaryId versionId versionString hash := by
      rintro _ _ _ _ ⟨row, hrow, hfields⟩
      rw [← hsnap.installed] at hrow
      exact versionRow_of_markCurrent ((hrolled.installed _).mpr ⟨row, hrow, rfl⟩) hfields
    have hmanaged := fun b' => (hrolled.managed b').mp
    rw [hsnap.managed] at hmanaged
    refine h.of_current hbinary hmanaged hrolled.file ?_ (fun b hb hid => ?_) hkept
      (fun row hrow => ?_) fun row hrow => ?_
    · rw [hhash, ← hsame]
      exact hkept (h.backups target htarget)
    · have hoff := hacc.others b hb hid
      rw [hrolled.frame _ (fun h => hoff (.inr (.inl h))) fun h => hoff (.inr (.inr h))]
      exact file_of_snapshotted hacc hbinary hsnap hb
    · obtain ⟨old, hold, rfl⟩ := (hrolled.installed row).mp hrow
      rw [markCurrent_versionString]
      rw [hsnap.installed] at hold
      exact h.normal old hold
    · rw [hrolled.backups] at hrow
      exact hkept (backups_of_snapshotted h hbinary hacc.install hsnap row hrow)
  · rintro _ w' (rfl | ⟨binary, target, hsel, hsnap | ⟨hfault, -⟩⟩)
    · exact h
    · have hacc := hacc binary target hsel
      obtain ⟨hbinary, -, -⟩ := hsel.mem
      exact h.of_same hsnap.managed hsnap.installed
        (backups_of_snapshotted h hbinary hacc.install hsnap) fun b hb =>
          file_of_snapshotted hacc hbinary hsnap hb
    · -- without faults the version of the backup is recorded as installed
      obtain ⟨-, htarget, hsame⟩ := hsel.mem
      obtain ⟨row, hrow, hbid, hvid, -⟩ := h.backups target htarget
      rcases hfault with hfault | hnone
      · exact absurd hclean hfault
      · exact absurd ⟨row, hrow, hbid.trans hsame, hvid⟩ hnone

end Rollback

/-! ## coherence -/

/-- Every accepted call leaves everything recorded, whatever fails in it. -/
theorem recorded_next {X : Crates} {cfg : ClientConfig} {w : World} {c : Call}
    (hstrict : X.crypto.StrictHex) (h : Recorded X w) (hclean : c.Clean cfg w)
    (hacc : c.Accepted X cfg w) : Recorded X (c.next X w) := by
  cases c with
  | update e mb upd =>
      obtain ⟨rfl, hfault, htemp, hmb⟩ := hclean
      have hnext := recorded_update hstrict h hfault htemp hmb hacc
      exact ⟨hnext.current, hnext.paired, hnext.normal, hnext.backups⟩
  | rollback e binaryName toVersion =>
      obtain ⟨rfl, hfault, htemp⟩ := hclean
      have hnext := recorded_rollback h hfault hacc
      exact ⟨hnext.current, hnext.paired, hnext.normal, hnext.backups⟩

/-- In every run of updates and rollbacks in which the database accepts each
new version and no snapshot replaces the selected backup, the installed file is
the recorded one after every call. -/
theorem coherent_of_accepted (X : Crates) (cfg : ClientConfig) (hstrict : X.crypto.StrictHex)
    (w₀ w : World) (hstart : Registered w₀)
    (hrun : Reaches (Call.next X) (fun w c => c.Clean cfg w ∧ c.Accepted X cfg w) w₀ w) :
    Coherent X w := by
  have hrec : Recorded X w := hrun.invariant (Recorded.of_registered hstart)
    fun _ _ h hc => recorded_next hstrict h hc.1 hc.2
  exact hrec.coherent

/-! ### an install, an update and a rollback -/

/-- The first install of version 1.0.0. -/
def sampleInstallCall : Call :=
  .update (sampleEnv (sampleFiles [1] sampleSig1)) sampleBinary (sampleUpdate (.new 1 0 0) [1])

theorem sampleInstallCall_next : sampleInstallCall.next sampleCrates sampleWorld = sampleWorld1 :=
  settle_sampleFirstInstall

theorem sampleWorld_registered : Registered sampleWorld where
  managed b hb := by
    rw [List.mem_singleton.mp hb]
    exact ⟨rfl, rfl⟩
  installed _ hr := absurd hr List.not_mem_nil
  backups _ hr := absurd hr List.not_mem_nil

/-- None of its files is in the way of the first call. -/
theorem sampleInstallCall_clean : sampleInstallCall.Clean sampleConfig sampleWorld :=
  ⟨rfl, fun _ => rfl, sampleEnv_tempFresh _, List.mem_singleton.mpr rfl⟩

theorem sampleInstallCall_accepted :
    sampleInstallCall.Accepted sampleCrates sampleConfig sampleWorld where
  apart := ⟨by decide +kernel, by decide +kernel, by decide +kernel, by decide +kernel,
    by decide +kernel⟩
  others b hb hne := absurd (congrArg ManagedBinary.binaryId (List.mem_singleton.mp hb)) hne
  hex := Option.isSome_iff_exists.mp (by decide +kernel)
  nonempty := by decide +kernel
  version := by decide +kernel
  fresh := .inl fun _ hr => absurd hr List.not_mem_nil

/-- The update from version 1.0.0 to version 1.1.0. -/
def sampleUpdateCall : Call :=
  .update (sampleEnv (sampleFiles [2] sampleSig2)) (sampleBinaryAt "1.0.0")
    (sampleUpdate (.new 1 1 0) [2])

/-- A rollback to the newest backup. -/
def sampleRollbackCall : Call := .rollback (sampleEnv []) "app" none

/-- The backup files of version 1.0.0. -/
def sampleBackupFiles : List (String × Bytes) :=
  [("/data/backups/app_1.0.0.backup.sig", sampleSig1.val), ("/data/backups/app_1.0.0.backup", [1])]

/-- The client after the update to version 1.1.0. -/
def sampleUpdated : World where
  files := Files.ofList
    ([("/opt/app.sig", sampleSig2.val), ("/opt/app", [2])] ++ sampleBackupFiles)
  dirs := sampleDirs
  db :=
    { managed := (sampleWorld2 [2]).db.managed
      installed := (sampleWorld2 [2]).db.installed
      backups := ⟨⟨[sampleBackup1], by decide +kernel⟩, 2, by
        intro r hr; rw [List.mem_singleton.mp hr]; decide⟩
      history := ⟨⟨[sampleHistory 1 none "1.0.0" [1], sampleHistory 2 (some "1.0.0") "1.1.0" [2]],
        by decide +kernel⟩, 3, by
          intro r hr
          rcases List.mem_pair.mp hr with rfl | rfl
          · decide
          · decide⟩ }
  log := []
  sent := []
  asked := []

/-- The client after the rollback to version 1.0.0. -/
def sampleRolledBack : World where
  files := Files.ofList
    ([("/opt/app.sig", sampleSig1.val), ("/opt/app", [1]),
      ("/data/backups/app_1.1.0_pre_rollback.backup.sig", sampleSig2.val),
      ("/data/backups/app_1.1.0_pre_rollback.backup", [2])] ++ sampleBackupFiles)
  dirs := sampleDirs
  db :=
    { managed := sampleWorld1.db.managed
      installed := ⟨[sampleInstalled "1.0.0" [1] true, sampleInstalled "1.1.0" [2] false],
        by decide +kernel⟩
      backups := (sampleWorld2 [2]).db.backups
      history := sampleUpdated.db.history.insert
        (fun n => ⟨n, ⟨"b1", some "1.1.0", some "1.1.0", "1.0.0", "1.0.0"⟩, {}, 0, .rolledBack,
          some true, none⟩) fun _ => rfl }
  log := []
  sent := []
  asked := []

/-- The second call updates it to version 1.1.0. -/
theorem sampleUpdateCall_next :
    sampleUpdateCall.next sampleCrates sampleWorld1 = sampleUpdated := by
  decide +kernel

theorem sampleRollbackCall_next :
    sampleRollbackCall.next sampleCrates sampleUpdated = sampleRolledBack := by
  decide +kernel

theorem sampleUpdateCall_accepted :
    sampleUpdateCall.Accepted sampleCrates sampleConfig sampleWorld1 where
  apart := sampleSecond_apart
  others b hb hne := absurd (congrArg ManagedBinary.binaryId (List.mem_singleton.mp hb)) hne
  hex := Option.isSome_iff_exists.mp (by decide +kernel)
  nonempty := by decide +kernel
  version := by decide +kernel
  fresh := .inl fun r hr => by
    rw [List.mem_singleton.mp hr]
    decide

/-- The third call selects a backup that is not overwritten before. -/
theorem sampleRollbackCall_accepted :
    sampleRollbackCall.Accepted sampleCrates sampleConfig sampleUpdated := by
  intro binary target hsel
  have hknown : sampleUpdated.db.getBinaryByName "app" = some (sampleBinaryAt "1.1.0") ∧
      selectBackup (sampleUpdated.db.listBackups "b1") none = some sampleBackup1 ∧
      snapshotWrite id sampleConfig (sampleBinaryAt "1.1.0") sampleUpdated
        (id sampleBackup1.backupPath) = none := by decide +kernel
  obtain ⟨hbinary, htarget, hnone⟩ := hknown
  obtain rfl : binary = sampleBinaryAt "1.1.0" := Option.some.inj (hsel.known.symm.trans hbinary)
  obtain rfl : target = sampleBackup1 := Option.some.inj (hsel.selected.symm.trans htarget)
  refine ⟨by decide +kernel, fun b hb hne => ?_, fun b hb => ?_⟩
  · exact absurd (congrArg ManagedBinary.binaryId (List.mem_singleton.mp hb)) hne
  · exact absurd (hb.symm.trans hnone) (Option.some_ne_none b)

/-- Installing version 1.0.0, updating to 1.1.0 and rolling back is coherent. -/
theorem coherent_of_accepted_rolled_back : Coherent sampleCrates sampleRolledBack := by
  have hrun : Reaches (Call.next sampleCrates)
      (fun w c => c.Clean sampleConfig w ∧ c.Accepted sampleCrates sampleConfig w) sampleWorld
      sampleRolledBack := by
    rw [← sampleRollbackCall_next, ← sampleUpdateCall_next, ← sampleInstallCall_next]
    refine (((Reaches.refl _).tail ⟨sampleInstallCall_clean, sampleInstallCall_accepted⟩).tail
      ?_).tail ?_
    · rw [sampleInstallCall_next]
      exact ⟨⟨rfl, fun _ => rfl, sampleEnv_tempFresh _, List.mem_singleton.mpr rfl⟩,
        sampleUpdateCall_accepted⟩
    · rw [sampleInstallCall_next, sampleUpdateCall_next]
      exact ⟨⟨rfl, fun _ => rfl, sampleEnv_tempFresh _⟩, sampleRollbackCall_accepted⟩
  exact coherent_of_accepted sampleCrates sampleConfig sampleCrypto_strictHex sampleWorld _
    sampleWorld_registered hrun

/-! ### updating again after a rollback -/

/-- Installing version 1.0.0, updating to 1.1.0, rolling back and updating to
1.1.0 again leaves version 1.1.0 installed and version 1.0.0 recorded. -/
theorem update_after_rollback_incoherent :
    ¬ ∀ (X : Crates) (cfg : ClientConfig) (w₀ w : World), X.crypto.StrictHex → Registered w₀ →
      Reaches (Call.next X) (fun w c => c.Clean cfg w) w₀ w → Coherent X w := by
  intro h
  have hclean : ∀ files, (sampleEnv files).config = sampleConfig ∧ (sampleEnv files).NoFault ∧
      (sampleEnv files).TempFresh := fun files => ⟨rfl, fun _ => rfl, sampleEnv_tempFresh files⟩
  have hrun : Reaches (Call.next sampleCrates) (fun w c => c.Clean sampleConfig w) sampleWorld
      sampleRolledBack := by
    rw [← sampleRollbackCall_next, ← sampleUpdateCall_next, ← sampleInstallCall_next]
    refine (((Reaches.refl _).tail sampleInstallCall_clean).tail ?_).tail (hclean _)
    rw [sampleInstallCall_next]
    exact ⟨rfl, fun _ => rfl, sampleEnv_tempFresh _, List.mem_singleton.mpr rfl⟩
  have hagain : sampleUpdateCall.Clean sampleConfig sampleRolledBack :=
    ⟨rfl, fun _ => rfl, sampleEnv_tempFresh _, List.mem_singleton.mpr rfl⟩
  have hrun' := hrun.tail hagain
  have hlast : (sampleUpdateCall.next sampleCrates sampleRolledBack).db.managed =
        sampleRolledBack.db.managed ∧
      (sampleUpdateCall.next sampleCrates sampleRolledBack).db.installed =
        sampleRolledBack.db.installed ∧
      (sampleUpdateCall.next sampleCrates sampleRolledBack).file sampleBinary.installPath =
        some [2] := by decide +kernel
  generalize sampleUpdateCall.next sampleCrates sampleRolledBack = w at hrun' hlast
  obtain ⟨hmanaged, hinstalled, hfile⟩ := hlast
  have hmem : sampleBinaryAt "1.0.0" ∈ w.db.managed := by
    rw [hmanaged]
    exact List.mem_singleton.mpr rfl
  obtain ⟨id, data, hid, hdata, r, hr, -, hversion, -, hhash⟩ :=
    h sampleCrates sampleConfig sampleWorld w sampleCrypto_strictHex sampleWorld_registered hrun'
      (sampleBinaryAt "1.0.0") hmem "1.0.0" rfl
  have hdata : w.file sampleBinary.installPath = some data := hdata
  obtain rfl : [2] = data := Option.some.inj (hfile.symm.trans hdata)
  obtain rfl : "1.0.0" = id := Option.some.inj hid
  rw [hinstalled] at hr
  rcases List.mem_pair.mp hr with rfl | rfl
  · exact absurd hhash (by decide +kernel)
  · exact absurd hversion (by decide +kernel)

end Deltaship
