import Deltaship.Client.Atomicity

/-!
# Deltaship.Client.Undone

Which failed updates are undone, exactly.

An update that fails before the rename is undone, and so is one that fails
between the rename and the end of `execute_update` over an installed file.  One
that fails there on a first install leaves the new file, and one that fails in
the success arm is not undone at all: then everything is as before only if the
update has put in place what was there.
-/

namespace Deltaship

open Prog ClientDb

/-! ## what must not change -/

/-- The version the database records for a binary. -/
def recordedVersion (db : ClientDb) (binaryId : String) :
    Option (Option String × Option String) :=
  (db.getBinary binaryId).map fun b => (b.currentVersionId, b.currentVersionString)

/-- The installed file, its sidecar and the recorded version are as they were. -/
def Untouched (mb : ManagedBinary) (w w' : World) : Prop :=
  w'.file mb.installPath = w.file mb.installPath ∧
  w'.file (sigPathFor mb.installPath) = w.file (sigPathFor mb.installPath) ∧
  recordedVersion w'.db mb.binaryId = recordedVersion w.db mb.binaryId

instance (mb : ManagedBinary) (w w' : World) : Decidable (Untouched mb w w') :=
  inferInstanceAs (Decidable (_ ∧ _ ∧ _))

/-- The recorded version is a matter of the managed binaries only. -/
theorem recordedVersion_congr {db db' : ClientDb} (h : db'.managed = db.managed)
    (binaryId : String) : recordedVersion db' binaryId = recordedVersion db binaryId := by
  unfold recordedVersion getBinary
  rw [h]

/-- The version that `update_current_version` has recorded. -/
theorem recordedVersion_setCurrent {db db' : ClientDb} {binaryId id version : String}
    (hb : db.hasBinary binaryId = true)
    (hmanaged : ∀ b', b' ∈ db'.managed ↔ ∃ b ∈ db.managed, b' = setCurrent binaryId id version b) :
    recordedVersion db' binaryId = some (some id, some version) := by
  obtain ⟨b, hmem, hid⟩ := hasBinary_iff.mp hb
  have hset : setCurrent binaryId id version b =
      { b with currentVersionId := some id, currentVersionString := some version } := if_pos hid
  have hget : db'.getBinary binaryId = some (setCurrent binaryId id version b) :=
    getBinary_eq_some.mpr
      ⟨(hmanaged _).mpr ⟨b, hmem, rfl⟩, (binaryId_setCurrent _ _ _ b).trans hid⟩
  rw [recordedVersion, hget, hset]
  rfl

/-- A reverted update is undone. -/
theorem Reverted.untouched {e : Env} {mb : ManagedBinary} {upd : UpdateInfo} {w w' : World}
    (h : Reverted e mb upd w w') (hap : Apart e.config mb upd) : Untouched mb w w' :=
  ⟨h.install, h.sidecar hap, recordedVersion_congr h.rows.managed _⟩

/-! ## the steps before a file is written -/

section Begin

variable (X : Crates) (e : Env) (mb : ManagedBinary) (upd : UpdateInfo)

/-- The steps of `apply_update` before it writes a file: the id of the new history row. -/
def beginUpdate : M Nat := do
  context s!"Install path validation failed for binary '{mb.binaryName}' at '{mb.installPath}'"
    (validateInstallPath e.host mb.installPath)
  checkSpace e mb upd
  let updateId ← context "Failed to record update start in database"
    (dbQuery e .recordUpdateStart
      (ClientDb.recordUpdateStart e.now
        { binaryId := mb.binaryId
          fromVersionId := mb.currentVersionId
          fromVersionString := mb.currentVersionString
          toVersionId := upd.versionId
          toVersionString := X.semver.display upd.version }))
  context s!"Failed to create backups directory: {debugPath e.config.backupsDir}"
    (createDirAll e .createBackupsDir e.config.backupsDir)
  pure updateId

/-- The update gets as far as writing files. -/
def Begins (w : World) : Prop :=
  ∃ updateId w', exec (beginUpdate X e mb upd) w = (.ok updateId, w')

variable {X e mb upd} {w : World}

/-- Behind them there is only the backup. -/
theorem wp_prepareUpdate_stages {Q : Nat × Option String → World → Prop}
    {E : String → World → Prop} :
    wp (prepareUpdate X e mb upd) Q E w ↔
      wp (beginUpdate X e mb upd) (fun updateId w' =>
        wp (makeBackup e mb) (fun backup w' => Q (updateId, backup) w') E w') E w := by
  unfold prepareUpdate beginUpdate
  simp only [wp_bind, wp_pure]

/-- The first steps write nothing but the history. -/
theorem preserves_beginUpdate : Preserves (Aside fun _ => False) (beginUpdate X e mb upd) := by
  unfold beginUpdate
  refine .bind (preserves_aside (.mapErr (preserves_validateInstallPath _ _))) fun _ => ?_
  refine .bind (preserves_aside preserves_checkSpace) fun _ => ?_
  refine .bind (.mapErr (preserves_dbQuery_aside fun h => (recordUpdateStart_ok h).2.1)) fun _ => ?_
  exact .bind (.mapErr (preserves_aside preserves_createDirAll)) fun _ => .pure

/-- The preparation fails before the first file is written, or it has written at most the two
files of the backup. -/
theorem wp_prepareUpdate_begins :
    wp (prepareUpdate X e mb upd) (fun _ _ => Begins X e mb upd w)
      (fun _ w' => Aside (fun _ => False) w w' ∨ Begins X e mb upd w) w := by
  rw [wp_prepareUpdate_stages]
  refine wp_mono (fun updateId w₁ h₁ => ?_) (fun _ w₁ h₁ => .inl h₁.2)
    (wp_and wp_self (preserves_beginUpdate.wp (fun _ _ h => h) fun _ _ h => h))
  have hbegins : Begins X e mb upd w := ⟨updateId, w₁, h₁.1⟩
  exact wp_mono (fun _ _ _ => hbegins) (fun _ _ _ => .inr hbegins) wp_self

end Begin

/-! ## the condition -/

/- Only an update that gets to the rename can leave anything behind. A failure between the rename
and the end of `execute_update` is answered by copying the backup back; one in the success arm is
not answered at all, and is harmless only if the update has changed nothing that can be seen. -/

section Condition

variable (X : Crates) (e : Env) (mb : ManagedBinary) (upd : UpdateInfo)

/-- The update gets to the rename: these bytes are put in place, and this signature was
accepted for them. -/
def Replaces (w : World) (data : Bytes) (sig : Signature) : Prop :=
  ∃ r metrics expected w₁ w₂, exec (prepareUpdate X e mb upd) w = (.ok r, w₁) ∧
    exec (replaceBinary X e mb upd) w₁ = (.ok (metrics, expected, sig), w₂) ∧
    w₂.file mb.installPath = some data

/-- A step between the rename and the end of `execute_update` fails. -/
def FailsBehindRename : Prop :=
  e.faults .hashInstalled ≠ none ∨ e.faults .sidecarTemp ≠ none ∨ e.faults .sidecarWrite ≠ none ∨
    e.faults .sidecarPersist ≠ none

/-- The sites of the success arm up to the new current version. -/
def currentSites : List Site :=
  [.recordComplete, .installedMetadata, .sha256Installed, .recordInstalled, .updateCurrent]

/-- The success arm gets to the new current version: no call of it fails, the `blake3` crate
reads the checksum, the new file is not empty, and the database takes the version and has none
of this id. -/
structure RecordsVersion (data : Bytes) (w : World) : Prop where
  noFault : ∀ site ∈ currentSites, e.faults site = none
  hex : ∃ hash, X.crypto.blake3FromHex upd.checksum = some hash
  nonempty : data ≠ []
  version : ∃ n, normalizeVersionString X.semver (X.semver.display upd.version) = .ok n
  fresh : ∀ r ∈ w.db.installed, ¬ (r.binaryId = mb.binaryId ∧ r.versionId = upd.versionId)

/-- How a failing success arm leaves the state: the files are as before, and the recorded version
is the new one exactly if the arm got that far. -/
structure FinishFailed (data : Bytes) (w w' : World) : Prop where
  files : w'.files = w.files
  recorded : RecordsVersion X e mb upd data w → recordedVersion w'.db mb.binaryId =
    some (some upd.versionId, some (X.semver.display upd.version))
  kept : ¬ RecordsVersion X e mb upd data w →
    recordedVersion w'.db mb.binaryId = recordedVersion w.db mb.binaryId

/-- What the update puts in place was there before. -/
structure AlreadyThere (w : World) (data : Bytes) (sig : Signature) : Prop where
  installed : w.file mb.installPath = some data
  sidecar : w.file (sigPathFor mb.installPath) = some sig.val
  version : RecordsVersion X e mb upd data w → recordedVersion w.db mb.binaryId =
    some (some upd.versionId, some (X.semver.display upd.version))

/-- An update that gets to the rename fails where the backup is copied back, and there is one;
or it puts in place what was there. -/
structure UndoneOnFailure (w : World) : Prop where
  restored : ∀ data sig, Replaces X e mb upd w data sig → FailsBehindRename e →
    w.file mb.installPath ≠ none
  same : ∀ data sig, Replaces X e mb upd w data sig → ¬ FailsBehindRename e →
    AlreadyThere X e mb upd w data sig

end Condition

section Arms

variable {X : Crates} {e : Env} {mb : ManagedBinary} {upd : UpdateInfo} {w w₁ w₂ w' : World}
  {data : Bytes} {sig : Signature}

theorem failsBehindRename_of_late (htemp : e.TempFresh) (h : LateFault e) :
    FailsBehindRename e := by
  rcases h with h | h | h | h | h
  · exact .inl h
  · exact .inr (.inl h)
  · exact .inr (.inr (.inl h))
  · exact .inr (.inr (.inr h))
  · exact absurd htemp h

/-- Behind the rename `execute_update` fails exactly if a step there does. -/
theorem wp_behindRename (htemp : e.TempFresh)
    (hswapped : Swapped X e mb upd (fun _ => False) data sig w w₁) :
    wp (verifyInstalled X e mb (X.crypto.blake3 data))
      (fun _ w' => wp (persistSidecar e mb sig)
        (fun _ w' => ¬ FailsBehindRename e ∧
          Swapped X e mb upd (· = sigPathFor mb.installPath) data sig w w' ∧
          w'.file (sigPathFor mb.installPath) = some sig.val)
        (fun _ w' => FailsBehindRename e ∧ Swapped X e mb upd (fun _ => False) data sig w w') w')
      (fun _ w' => FailsBehindRename e ∧ Swapped X e mb upd (fun _ => False) data sig w w') w₁ := by
  refine wp_mono (fun _ w₂ h₂ => ?_)
    (fun _ _ h => ⟨failsBehindRename_of_late htemp h.1.2, hswapped.of_touches h.1.1⟩)
    (wp_and (wp_verifyInstalled hswapped.file) wp_verifyInstalled_inv)
  have hchecked := hswapped.of_touches h₂.1
  refine wp_mono (fun _ w₃ h₃ => ⟨?_, hchecked.of_sidecar h₃.1, h₃.1.file⟩)
    (fun _ _ h => ⟨failsBehindRename_of_late htemp h.1.2, hchecked.of_touches h.1.1⟩)
    (wp_and wp_persistSidecar wp_persistSidecar_inv)
  obtain ⟨htempFault, hpersist, hwrite⟩ := h₃.2
  rintro (h | h | h | h)
  · exact h h₂.2
  · exact h htempFault
  · exact h hwrite
  · exact h hpersist

/-- A database call that succeeds has no fault. -/
theorem wp_dbCall_cases {site : Site} {op : ClientDb → Except DbError ClientDb}
    {Q : Unit → World → Prop} {E : String → World → Prop}
    (hok : e.faults site = none → ∀ db, op w.db = .ok db → Q () { w with db })
    (hfail : ∀ msg, e.faults site ≠ none ∨ (∀ db, op w.db ≠ .ok db) → E msg w) :
    wp (dbCall e site op) Q E w := by
  cases hfault : e.faults site with
  | none => exact wp_dbCall (hok hfault) hfail
  | some f =>
      have hne : e.faults site ≠ none := by
        rw [hfault]
        exact Option.some_ne_none f
      unfold dbCall dbQuery
      rw [wp_bind]
      exact wp_guardIo (fun hnone => absurd hnone hne) fun msg _ => hfail msg (.inl hne)

/-- Recording the backup changes neither a file nor a managed binary. -/
theorem wp_recordBackup_frame {backup : Option String} :
    wp (recordBackup X e mb backup)
      (fun _ w' => w'.files = w.files ∧ w'.db.managed = w.db.managed)
      (fun _ w' => w'.files = w.files ∧ w'.db.managed = w.db.managed) w := by
  unfold recordBackup
  split
  · rw [wp_bind, wp_pathExists]
    split
    · unfold hashFile
      simp only [wp_bind]
      refine wp_readFile (fun b _ hb => ?_) fun _ _ => ⟨rfl, rfl⟩
      refine wp_fileLen (fun _ _ _ => ?_) fun _ _ => ⟨rfl, rfl⟩
      refine wp_dbCall (fun db hop => ?_) fun _ _ => ⟨rfl, rfl⟩
      obtain ⟨_, -, hmanaged, -⟩ := createBackup_ok hop
      exact ⟨rfl, hmanaged⟩
    · exact ⟨rfl, rfl⟩
  · exact ⟨rfl, rfl⟩

/-- A success arm that stops before the new current version leaves the managed binaries as they
were. -/
theorem FinishFailed.of_early (hnot : ¬ RecordsVersion X e mb upd data w)
    (hfiles : w'.files = w.files) (hmanaged : w'.db.managed = w.db.managed) :
    FinishFailed X e mb upd data w w' :=
  ⟨hfiles, fun h => absurd h hnot, fun _ => recordedVersion_congr hmanaged _⟩

/-- A call that fails keeps the arm from its new current version. -/
theorem not_recordsVersion_of_fault (site : Site) (hmem : site ∈ currentSites)
    (h : e.faults site ≠ none) : ¬ RecordsVersion X e mb upd data w :=
  fun hrecords => h (hrecords.noFault _ hmem)

/-- So does a failing read of the new file, which is there. -/
theorem not_recordsVersion_of_unread {site : Site} (hmem : site ∈ currentSites)
    (hfile : w.file mb.installPath = some data)
    (h : e.faults site ≠ none ∨ w.file mb.installPath = none) :
    ¬ RecordsVersion X e mb upd data w :=
  not_recordsVersion_of_fault _ hmem
    (h.resolve_right fun hnone => Option.some_ne_none _ (hfile.symm.trans hnone))

/-- The database takes a version that the arm gets to. -/
theorem RecordsVersion.exists_recordInstalled {db : ClientDb} {blake3 sha256 : Hash}
    (h : RecordsVersion X e mb upd data w) (hinstalled : db.installed = w.db.installed)
    (hb : db.hasBinary mb.binaryId = true) :
    ∃ db', recordInstalledVersion X.semver mb.binaryId upd.versionId
      (X.semver.display upd.version) blake3.val sha256.val data.length db = .ok db' := by
  obtain ⟨n, hn⟩ := h.version
  have hfresh : ∀ r ∈ db.installed,
      ¬ (r.binaryId = mb.binaryId ∧ r.versionId = upd.versionId) := by
    rw [hinstalled]
    exact h.fresh
  exact exists_recordInstalledVersion blake3.property sha256.property hn
    (mt List.length_eq_zero_iff.mp h.nonempty) hb hfresh

/-- Where the database took the version and no call fails, the arm gets to the new current
version. -/
theorem RecordsVersion.of_recorded {db db' : ClientDb} {blake3 : Hash} {bytes sha256 : Bytes}
    (hfaults : ∀ site ∈ currentSites, e.faults site = none)
    (hhex : X.crypto.blake3FromHex upd.checksum = some blake3)
    (hinstalled : db.installed = w.db.installed)
    (hop : recordInstalledVersion X.semver mb.binaryId upd.versionId
      (X.semver.display upd.version) bytes sha256 data.length db = .ok db') :
    RecordsVersion X e mb upd data w := by
  obtain ⟨n, hn, hinsert, -, -⟩ := recordInstalledVersion_ok hop
  refine ⟨hfaults, ⟨blake3, hhex⟩, mt List.length_eq_zero_iff.mpr (recordInstalledVersion_size hop),
    ⟨n, hn⟩, fun r hr hkey => ?_⟩
  have hr' : r ∈ db.installed := by
    rw [hinstalled]
    exact hr
  rw [Table.insert_eq_none ⟨r, hr', Prod.ext hkey.1 hkey.2⟩] at hinsert
  contradiction

/-- The end of the success arm, from the new current version on. -/
theorem wp_setCurrent_failed {backup : Option String} (hfiles : w'.files = w.files)
    (hmanaged : w'.db.managed = w.db.managed) (hb : w'.db.hasBinary mb.binaryId = true)
    (hrow : ∃ r ∈ w'.db.installed, r.binaryId = mb.binaryId ∧ r.versionId = upd.versionId)
    (hrecords : e.faults .updateCurrent = none → RecordsVersion X e mb upd data w) :
    wp (dbCall e .updateCurrent (updateCurrentVersion mb.binaryId upd.versionId
        (X.semver.display upd.version)))
      (fun _ w₁ => wp (recordBackup X e mb backup) (fun _ _ => True)
        (fun _ w₂ => FinishFailed X e mb upd data w w₂) w₁)
      (fun _ w₂ => FinishFailed X e mb upd data w w₂) w' := by
  refine wp_dbCall_cases (fun hfault db hop => ?_) fun _ hwhy =>
    .of_early (not_recordsVersion_of_fault .updateCurrent ?_ ?_) hfiles hmanaged
  · obtain ⟨-, -, hset, -⟩ := updateCurrentVersion_ok hop
    have hcurrent : recordedVersion db mb.binaryId =
        some (some upd.versionId, some (X.semver.display upd.version)) :=
      recordedVersion_setCurrent hb hset
    refine wp_mono (fun _ _ _ => trivial) (fun _ w₂ h => ?_) wp_recordBackup_frame
    exact ⟨h.1.trans hfiles, fun _ => (recordedVersion_congr h.2 _).trans hcurrent,
      fun hnot => absurd (hrecords hfault) hnot⟩
  · simp [currentSites]
  · refine hwhy.resolve_right fun hnone => ?_
    have hop : ∃ db, updateCurrentVersion mb.binaryId upd.versionId
        (X.semver.display upd.version) w'.db = .ok db := exists_updateCurrentVersion hb hrow
    obtain ⟨db, hop⟩ := hop
    exact hnone db hop

/-- The success arm changes no file; behind a failure the recorded version is the new one
exactly if the arm got that far. -/
theorem wp_finishUpdate_failed {updateId : Nat} {backup : Option String} {metrics : UpdateMetrics}
    (hstarted : ∃ row ∈ w.db.history, row.updateId = updateId)
    (hfile : w.file mb.installPath = some data) (hb : w.db.hasBinary mb.binaryId = true) :
    wp (finishUpdate X e mb upd updateId backup metrics) (fun _ _ => True)
      (fun _ w' => FinishFailed X e mb upd data w w') w := by
  unfold finishUpdate sha256File
  simp only [wp_bind, context, wp_mapErr]
  refine wp_dbCall_cases (fun hf₁ db₁ hop₁ => ?_) fun _ hwhy => .of_early ?_ rfl rfl
  rotate_left
  · refine not_recordsVersion_of_fault .recordComplete (by simp [currentSites])
      (hwhy.resolve_right fun hnone => ?_)
    obtain ⟨db, hop⟩ := exists_recordUpdateComplete hstarted
    exact hnone db hop
  have hrows := recordUpdateComplete_ok hop₁
  refine wp_fileLen (fun b hf₂ hb₂ => ?_) fun _ hwhy => .of_early
    (not_recordsVersion_of_unread (by simp [currentSites]) hfile hwhy) rfl hrows.managed
  obtain rfl : b = data := Option.some.inj (hb₂.symm.trans hfile)
  refine wp_orThrow (fun hash hhash => ?_) fun hnone => .of_early (fun h => ?_) rfl hrows.managed
  rotate_left
  · obtain ⟨hash, hhash⟩ := h.hex
    rw [hnone] at hhash
    contradiction
  refine wp_readFile (fun b' hf₃ _ => ?_) fun _ hwhy => .of_early
    (not_recordsVersion_of_unread (by simp [currentSites]) hfile hwhy) rfl hrows.managed
  have hb₁ : db₁.hasBinary mb.binaryId = true := (hasBinary_congr hrows.managed).trans hb
  refine wp_dbCall_cases (fun hf₄ db₂ hop₂ => ?_) fun _ hwhy => .of_early ?_ rfl hrows.managed
  rotate_left
  · intro h
    rcases hwhy with hne | hnone
    · exact not_recordsVersion_of_fault _ (by simp [currentSites]) hne h
    · obtain ⟨db, hop⟩ := h.exists_recordInstalled hrows.installed hb₁
      exact hnone db hop
  obtain ⟨n, -, hinsert, hmanaged, -⟩ := recordInstalledVersion_ok hop₂
  refine wp_setCurrent_failed rfl (hmanaged.trans hrows.managed)
    ((hasBinary_congr hmanaged).trans hb₁)
    ⟨_, (Table.mem_insert hinsert).mpr (.inr rfl), rfl, rfl⟩ fun hf₅ => ?_
  refine RecordsVersion.of_recorded ?_ hhash hrows.installed hop₂
  simp only [currentSites, List.forall_mem_cons, List.not_mem_nil, false_imp_iff,
    implies_true, and_true]
  exact ⟨hf₁, hf₂, hf₃, hf₄, hf₅⟩

end Arms

/-! ## failure atomicity -/

/- The cases in the order of the code: the preparation fails, the update fails before the rename,
between the rename and the success arm, or in the success arm. For each of them being undone is
equivalent to a condition on the state before the call. -/

section Failure

variable {X : Crates} {e : Env} {mb : ManagedBinary} {upd : UpdateInfo} {w w₁ w₂ w' : World}
  {r : Nat × Option String} {metrics : UpdateMetrics} {expected : Hash} {data data' : Bytes}
  {sig sig' : Signature}

/-- What an update puts in place is determined. -/
theorem Replaces.unique (h : Replaces X e mb upd w data sig)
    (h' : Replaces X e mb upd w data' sig') : data' = data ∧ sig' = sig := by
  obtain ⟨r, metrics, expected, w₁, w₂, hprep, hrep, hfile⟩ := h
  obtain ⟨r', metrics', expected', w₁', w₂', hprep', hrep', hfile'⟩ := h'
  obtain ⟨hr, rfl⟩ := Prod.mk.inj (hprep'.symm.trans hprep)
  obtain ⟨hx, rfl⟩ := Prod.mk.inj (hrep'.symm.trans hrep)
  obtain ⟨-, -, hsig⟩ := by simpa using Except.ok.inj hx
  exact ⟨Option.some.inj (hfile'.symm.trans hfile), hsig⟩

/-- An update that does not get to the rename is no exception. -/
theorem undoneOnFailure_of_not_replaces (h : ∀ data sig, ¬ Replaces X e mb upd w data sig) :
    UndoneOnFailure X e mb upd w :=
  ⟨fun data sig hr => absurd hr (h data sig), fun data sig hr => absurd hr (h data sig)⟩

/-- The condition of an update that gets to the rename. -/
theorem undoneOnFailure_iff (h : Replaces X e mb upd w data sig) :
    UndoneOnFailure X e mb upd w ↔ (FailsBehindRename e → w.file mb.installPath ≠ none) ∧
      (¬ FailsBehindRename e → AlreadyThere X e mb upd w data sig) := by
  constructor
  · intro hcond
    exact ⟨hcond.restored data sig h, hcond.same data sig h⟩
  · intro hcond
    refine ⟨fun data' sig' _ => hcond.1, fun data' sig' h' => ?_⟩
    obtain ⟨rfl, rfl⟩ := h.unique h'
    exact hcond.2

/-- A failure between the rename and the end of `execute_update` is undone exactly if there is
a backup. -/
theorem untouched_iff_of_restored (hap : Apart e.config mb upd)
    (hcopy : e.faults .restoreCopy = none) (hprep : Prepared e mb r w w₁)
    (hswapped : Swapped X e mb upd (fun _ => False) data sig w₁ w₂)
    (hrest : Restored e mb r.2 w₂ w') :
    Untouched mb w w' ↔ w.file mb.installPath ≠ none := by
  constructor
  · intro huntouched hnone
    have hback : r.2 = none := by
      by_contra hsome
      obtain ⟨path, hpath⟩ := Option.ne_none_iff_exists'.mp hsome
      obtain ⟨-, b, hb, -⟩ := hprep.copied path hpath
      rw [hnone] at hb
      contradiction
    have hfile := hrest.untouched hback mb.installPath
    rw [hswapped.file, huntouched.1, hnone] at hfile
    contradiction
  · intro hsome
    exact (reverted_of_restored hap hcopy hprep (.inr ⟨hsome, data, sig, hswapped⟩)
      hrest).untouched hap

/-- A failure in the success arm leaves everything as it was exactly if it was there before. -/
theorem wp_finishUpdate_untouched (hinst : Installed X e mb upd r data sig w w₁ w₂) :
    wp (finishUpdate X e mb upd r.1 r.2 metrics) (fun _ _ => True)
      (fun _ w' => Untouched mb w w' ↔ AlreadyThere X e mb upd w data sig) w₂ := by
  have hrows := hinst.rows
  have hstarted : ∃ row ∈ w₂.db.history, row.updateId = r.1 := by
    rw [hinst.swapped.db]
    exact hinst.prepared.started
  have hb : w₂.db.hasBinary mb.binaryId = true := by
    rw [hasBinary_congr hrows.managed]
    exact hinst.prepared.known
  have hrecords : RecordsVersion X e mb upd data w₂ ↔ RecordsVersion X e mb upd data w := by
    constructor <;> intro h
    · exact ⟨h.noFault, h.hex, h.nonempty, h.version, hrows.installed ▸ h.fresh⟩
    · exact ⟨h.noFault, h.hex, h.nonempty, h.version, hrows.installed.symm ▸ h.fresh⟩
  refine wp_mono (fun _ _ _ => trivial) (fun _ w' h => ?_)
    (wp_finishUpdate_failed hstarted hinst.swapped.file hb)
  obtain ⟨hfiles, hnew, hold⟩ := h
  have hfile : ∀ p, w'.file p = w₂.file p := fun p => congrArg (Files.read · p) hfiles
  rw [hrecords] at hnew hold
  unfold Untouched
  rw [hfile, hfile, hinst.swapped.file, hinst.sidecar]
  constructor
  · intro huntouched
    obtain ⟨hinstalled, hsidecar, hversion⟩ := huntouched
    exact ⟨hinstalled.symm, hsidecar.symm, fun h => hversion.symm.trans (hnew h)⟩
  · intro hthere
    refine ⟨hthere.installed.symm, hthere.sidecar.symm, ?_⟩
    by_cases h : RecordsVersion X e mb upd data w
    · rw [hnew h, hthere.version h]
    · rw [hold h, recordedVersion_congr hrows.managed]

/-- Every failure of an update: it is undone exactly if the condition holds. -/
theorem wp_applyUpdate_untouched (htemp : e.TempFresh) (hcopy : e.faults .restoreCopy = none)
    (hap : Begins X e mb upd w → Apart e.config mb upd) :
    wp (applyUpdate X e mb upd) (fun _ _ => True)
      (fun _ w' => Untouched mb w w' ↔ UndoneOnFailure X e mb upd w) w := by
  unfold applyUpdate
  rw [wp_bind]
  refine wp_mono (fun r w₁ h₁ => ?_) (fun msg w' h => ?_)
    (wp_and wp_self (wp_and wp_prepareUpdate wp_prepareUpdate_begins))
  rotate_left
  · -- the preparation fails
    have hnot : ∀ data sig, ¬ Replaces X e mb upd w data sig := by
      rintro data sig ⟨r, metrics, expected, w₁, w₂, hprep, -⟩
      exact absurd ((congrArg Prod.fst hprep).symm.trans (congrArg Prod.fst h.1)) (by simp)
    refine iff_of_true ?_ (undoneOnFailure_of_not_replaces hnot)
    rcases h.2.2 with hnothing | hbegins
    · exact ⟨hnothing.file not_false, hnothing.file not_false,
        recordedVersion_congr hnothing.rows.managed _⟩
    · exact (Reverted.of_prepare (hap hbegins) h.2.1).untouched (hap hbegins)
  obtain ⟨hrun, hprep, hbegins⟩ := h₁
  have hap := hap hbegins
  simp only [wp_bind, wp_attempt]
  rw [wp_executeUpdate_stages]
  refine wp_mono (fun x w₂ h₂ => ?_) (fun err w₂ h₂ => ?_) (wp_and wp_self wp_replaceBinary)
  rotate_left
  · -- the update fails before the rename
    have hnot : ∀ data sig, ¬ Replaces X e mb upd w data sig := by
      rintro data sig ⟨r', metrics, expected, w₁', w₂', hprep', hrep, -⟩
      obtain ⟨-, rfl⟩ := Prod.mk.inj (hprep'.symm.trans hrun)
      exact absurd ((congrArg Prod.fst hrep).symm.trans (congrArg Prod.fst h₂.1)) (by simp)
    refine wp_mono (fun _ _ h => h.elim) (fun _ w' hrest => ?_) wp_abortUpdate
    exact iff_of_true ((reverted_of_restored (X := X) hap hcopy hprep (.inl h₂.2) hrest).untouched
      hap) (undoneOnFailure_of_not_replaces hnot)
  obtain ⟨metrics, expected, sig⟩ := x
  obtain ⟨hrep, data, rfl, hswapped⟩ := h₂
  have hreplaces : Replaces X e mb upd w data sig :=
    ⟨r, metrics, _, w₁, w₂, hrun, hrep, hswapped.file⟩
  have hlate : ∀ {err : String} {w₃ : World}, FailsBehindRename e ∧
      Swapped X e mb upd (fun _ => False) data sig w₁ w₃ →
      wp (abortUpdate e mb r.1 r.2 err) (fun _ _ => True)
        (fun _ w' => Untouched mb w w' ↔ UndoneOnFailure X e mb upd w) w₃ := by
    intro err w₃ h₃
    refine wp_mono (fun _ _ h => h.elim) (fun _ w' hrest => ?_) wp_abortUpdate
    rw [undoneOnFailure_iff hreplaces, untouched_iff_of_restored hap hcopy hprep h₃.2 hrest]
    exact ⟨fun h => ⟨fun _ => h, fun hnot => absurd h₃.1 hnot⟩, fun h => h.1 h₃.1⟩
  refine wp_mono (fun _ w₃ h₃ => wp_mono (fun _ w₄ h₄ => ?_) (fun _ w₄ h₄ => hlate h₄) h₃)
    (fun _ w₃ h₃ => hlate h₃) (wp_behindRename htemp hswapped)
  -- the success arm fails
  obtain ⟨hnot, hplaced, hsidecar⟩ := h₄
  refine wp_mono (fun _ _ _ => trivial) (fun _ w' h => ?_)
    (wp_finishUpdate_untouched ⟨hprep, hplaced, hsidecar⟩)
  rw [h, undoneOnFailure_iff hreplaces]
  exact ⟨fun h => ⟨fun hfails => absurd hfails hnot, fun _ => h⟩, fun h => h.2 hnot⟩

end Failure

/-- An update that fails is undone if and only if it fails before the rename, or between the
rename and the end of `execute_update` over an installed file, or puts in place what was
there. -/
theorem applyUpdate_failure_undone (X : Crates) (e : Env) (mb : ManagedBinary) (upd : UpdateInfo)
    (w w' : World) (msg : String) (htemp : e.TempFresh) (hcopy : e.faults .restoreCopy = none)
    (hap : Begins X e mb upd w → Apart e.config mb upd)
    (hrun : exec (applyUpdate X e mb upd) w = (.error msg, w')) :
    Untouched mb w w' ↔ UndoneOnFailure X e mb upd w :=
  wp_exec_error (wp_applyUpdate_untouched htemp hcopy hap) hrun

/-- An update that cannot get as far as the rename is no exception. -/
theorem undoneOnFailure_of_refused {X : Crates} {e : Env} {mb : ManagedBinary} {upd : UpdateInfo}
    {w : World} {msg : String}
    (h : (exec (prepareUpdate X e mb upd >>= fun _ => replaceBinary X e mb upd) w).1 =
      .error msg) : UndoneOnFailure X e mb upd w := by
  refine undoneOnFailure_of_not_replaces fun data sig hreplaces => ?_
  obtain ⟨r, metrics, expected, w₁, w₂, hprep, hrep, -⟩ := hreplaces
  rw [exec_bind_ok hprep, hrep] at h
  simp at h

/-- The installed version again, under another content: its row is recorded already. -/
def sampleAgain (e : Env) : M Unit :=
  applyUpdate sampleCrates e (sampleBinaryAt "1.0.0") (sampleUpdate (.new 1 0 0) [2])

/-- An update with a signature for something else is undone, although the database could not
have recorded its version. -/
theorem applyUpdate_failure_undone_bad_signature :
    (exec (sampleAgain (sampleEnv (sampleFiles [2] sampleSig1))) sampleWorld1).1 =
        .error CryptoError.signatureVerificationFailure.text ∧
      Untouched (sampleBinaryAt "1.0.0") sampleWorld1
        (exec (sampleAgain (sampleEnv (sampleFiles [2] sampleSig1))) sampleWorld1).2 := by
  have hruns :
      (exec (sampleAgain (sampleEnv (sampleFiles [2] sampleSig1))) sampleWorld1).1 =
        .error CryptoError.signatureVerificationFailure.text ∧
      (exec (prepareUpdate sampleCrates (sampleEnv (sampleFiles [2] sampleSig1))
          (sampleBinaryAt "1.0.0") (sampleUpdate (.new 1 0 0) [2]) >>= fun _ =>
        replaceBinary sampleCrates (sampleEnv (sampleFiles [2] sampleSig1))
          (sampleBinaryAt "1.0.0") (sampleUpdate (.new 1 0 0) [2])) sampleWorld1).1 =
        .error CryptoError.signatureVerificationFailure.text := by decide +kernel
  refine ⟨hruns.1, (applyUpdate_failure_undone sampleCrates
    (sampleEnv (sampleFiles [2] sampleSig1)) (sampleBinaryAt "1.0.0")
    (sampleUpdate (.new 1 0 0) [2]) sampleWorld1 _ _ (sampleEnv_tempFresh _) rfl (fun _ => ?_)
    (exec_of_fst hruns.1)).mpr (undoneOnFailure_of_refused hruns.2)⟩
  exact ⟨by decide +kernel, by decide +kernel, by decide +kernel, by decide +kernel,
    by decide +kernel⟩

/-- A client whose database is locked when the new version is to be recorded. -/
def lockedEnv : Env :=
  { sampleEnv (sampleFiles [2] sampleSig2) with
    faults := fun site =>
      if site = .recordInstalled then some ⟨"database is locked", none⟩ else none }

/-- If the database cannot record the new version, the update fails, but the
new binary stays installed. -/
theorem applyUpdate_failure_not_undone :
    ¬ ∀ (X : Crates) (e : Env) (mb : ManagedBinary) (upd : UpdateInfo) (w w' : World)
      (msg : String), e.TempFresh → e.faults .restoreCopy = none →
      exec (applyUpdate X e mb upd) w = (.error msg, w') → Untouched mb w w' := by
  intro h
  have hrun : (exec (sampleSecond lockedEnv) sampleWorld1).1 =
      .error "Failed to record installed version" := by decide +kernel
  have hchanged : ¬ Untouched (sampleBinaryAt "1.0.0") sampleWorld1
      (exec (sampleSecond lockedEnv) sampleWorld1).2 := by decide +kernel
  exact hchanged (h sampleCrates lockedEnv (sampleBinaryAt "1.0.0") (sampleUpdate (.new 1 1 0) [2])
    sampleWorld1 _ _ (fun _ w dir => not_pathExists_longName w dir) rfl (exec_of_fst hrun))

end Deltaship
