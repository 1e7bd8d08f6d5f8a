import Deltaship.Client.Atomicity
import Deltaship.Client.Commands
import Deltaship.Lib.Runs

/-!
# Deltaship.Client.Downgrade

Whether an update can lower a recorded version, over whole runs of the entry
points of `Deltaship.Client.Commands`, whatever the server answers and whatever
fails.

`update` and the daemon look at every version before they install it, so a
recorded version only rises; `deltaship-updater` installs what it is offered,
and so keeps this only while it is offered newer versions.
-/

namespace Deltaship

open Prog ClientDb Runs

/-! ## runs -/

/-- One run of an entry point that installs updates. -/
inductive UpdateCommand where
  | update (e : Env) (name : Option String) (flags : UpdateFlags)
  | checkNow (e : Env)
  | cycle (e : Env)
  | updater (e : Env) (args : UpdaterArgs)

/-- The state after a run of the entry point, whether it succeeded or failed. -/
def UpdateCommand.next (X : Crates) (w : World) : UpdateCommand → World
  | .update e name flags => (exec (performUpdate X e name flags) w).2.settle
  | .checkNow e => (exec (runCheckOnce X e) w).2.settle
  | .cycle e => (exec (daemonCycle X e) w).2.settle
  | .updater e args => (exec (updaterRun X e args) w).2.settle

/-- A recorded version of a binary is kept or replaced by a newer one. -/
def Rises (X : Crates) (w w' : World) : Prop :=
  ∀ b ∈ w.db.managed, ∀ b' ∈ w'.db.managed, b'.binaryId = b.binaryId →
    ∀ v, b.currentVersionString = some v →
      b'.currentVersionString = some v ∨
      ∃ cur target, X.semver.parse v = some cur ∧ Version.gt X.semver target cur = true ∧
        b'.currentVersionString = some (X.semver.display target)

/-- The server offers the sidecar only what the other entry points would let
pass over the recorded version of its binary. -/
def OffersNewer (X : Crates) (e : Env) (name : String) (w : World) : Prop :=
  ∀ b, w.db.getBinaryByName name = some b → ∀ target, e.Offers target →
    refusesDowngrade X.semver b.currentVersionString target = false

/-- The condition of a run without downgrades on its steps. -/
def UpdateCommand.Guarded (X : Crates) (w : World) : UpdateCommand → Prop
  | .update _ _ flags => flags.allowDowngrade = false
  | .checkNow _ => True
  | .cycle _ => True
  | .updater e args => args.checkOnly = true ∨ OffersNewer X e args.name w

/-! ## what one entry point may record -/

/- An entry point compares the version that it is offered with the recorded one, as it was read at
the start of the cycle. Every version that a run records has passed this comparison. -/

/-- The recorded versions are as before, but for versions that were let pass
over what `l` says is recorded. -/
def Passed (X : Crates) (l : List ManagedBinary) (w w' : World) : Prop :=
  ∀ b' ∈ w'.db.managed,
    (∃ b ∈ w.db.managed, b.binaryId = b'.binaryId ∧
      b.currentVersionString = b'.currentVersionString) ∨
    ∃ mb ∈ l, mb.binaryId = b'.binaryId ∧ ∃ target,
      refusesDowngrade X.semver mb.currentVersionString target = false ∧
      b'.currentVersionString = some (X.semver.display target)

namespace Passed

variable {X : Crates} {l : List ManagedBinary} {w w' w'' : World}

/-- As long as the table of binaries is the same, nothing has passed. -/
theorem of_managed (h : w'.db.managed = w.db.managed) : Passed X l w w' :=
  fun b' hb' => .inl ⟨b', h ▸ hb', rfl, rfl⟩

theorem refl (w : World) : Passed X l w w := of_managed rfl

/-- What passes in two steps passes in each of them. -/
theorem trans (h : Passed X l w w') (h' : Passed X l w' w'') : Passed X l w w'' := by
  intro b'' hb''
  rcases h' b'' hb'' with ⟨b', hb', hid, hv⟩ | hnew
  · rw [← hid, ← hv]
    exact h b' hb'
  · exact .inr hnew

instance : IsPreorder World (Passed X l) where
  refl := refl
  trans _ _ _ h h' := h.trans h'

/-- If `l` is what was recorded before, the recorded versions have risen. -/
theorem rises (h : Passed X l w w') (hl : ∀ mb ∈ l, mb ∈ w.db.managed) : Rises X w w' := by
  intro b hb b' hb' hid v hv
  rcases h b' hb' with ⟨b₀, hb₀, hid₀, hv₀⟩ | ⟨mb, hmb, hid₀, target, hpass, hnew⟩
  · obtain rfl : b₀ = b := Table.eq_of_key_eq hb₀ hb (hid₀.trans hid)
    exact .inl (hv₀ ▸ hv)
  · obtain rfl : mb = b := Table.eq_of_key_eq (hl mb hmb) hb (hid₀.trans hid)
    rw [hv] at hpass
    obtain ⟨cur, hcur, hgt⟩ := gt_of_not_refusesDowngrade hpass
    exact .inr ⟨cur, target, hcur, hgt, hnew⟩

end Passed

section Steps

variable {X : Crates} {e : Env} {l : List ManagedBinary} {mb : ManagedBinary} {upd : UpdateInfo}
  {w : World}

theorem preserves_of_touches {α : Type} {P : String → Prop} {m : M α}
    (h : Preserves (Touches P) m) : Preserves (Passed X l) m :=
  h.mono fun _ _ h => .of_managed (congrArg ClientDb.managed h.db)

/-- Recording the time of a check keeps the versions. -/
theorem preserves_recordCheck : Preserves (Passed X l) (recordCheck e mb) := by
  refine .ignore (.of_wp fun w => wp_dbCall (fun db hdb b' hb' => .inl ?_) fun _ _ => .refl w)
  obtain ⟨b, hb, _, rfl⟩ := setLastCheck_ok hdb hb'
  exact ⟨b, hb, rfl, rfl⟩

/-- An update records the new version of its binary only. -/
theorem preserves_applyUpdate (hmb : mb ∈ l)
    (hpass : refusesDowngrade X.semver mb.currentVersionString upd.version = false) :
    Preserves (Passed X l) (applyUpdate X e mb upd) := by
  intro w b' hb'
  rcases updated_applyUpdate.managed b' hb' with hold | ⟨hid, hv, -⟩
  · exact .inl ⟨b', hold, rfl, rfl⟩
  · exact .inr ⟨mb, hmb, hid.symm, upd.version, hpass, hv⟩

/-- Giving up a download touches its file only. -/
theorem preserves_dropDownload {P : String → Prop} {dest msg : String} {α : Type} (hdest : P dest) :
    Preserves (Touches P) (dropDownload e dest msg : M α) :=
  .bind (.ignore (preserves_removeFile hdest)) fun _ => .throw

/-- The check of a downloaded signature touches no file. -/
theorem preserves_verifyDownloadedSignature {P : String → Prop} {sigUrl version : String}
    {hash : Hash} :
    Preserves (Touches P) (verifyDownloadedSignature X e sigUrl mb hash version) := by
  refine .bind preserves_downloadBytes fun _ => .bind preserves_orThrow fun signature => ?_
  refine .bind preserves_orThrow fun keyBytes => .bind .ofExcept fun key => ?_
  exact .bind (preserves_emit rfl) fun _ => preserves_bailIf

/-- The check of a download touches its file only. -/
theorem preserves_verifyDownload {dest checksum : String} {isFullBinary : Bool} :
    Preserves (Touches (· = dest)) (verifyDownload X e mb upd dest checksum isFullBinary) := by
  unfold verifyDownload
  split
  · exact preserves_dropDownload rfl
  · refine .bind (.attempt preserves_hashFile) fun r => ?_
    cases r with
    | error err => exact preserves_dropDownload rfl
    | ok actual =>
        refine .ite (preserves_dropDownload rfl) ?_
        split
        · refine .bind (.attempt preserves_verifyDownloadedSignature) fun r => ?_
          cases r with
          | ok _ => exact .pure
          | error err => exact preserves_dropDownload rfl
        · exact .pure

/-- Downloading an update installs nothing. -/
theorem preserves_downloadUpdateOnly : Preserves (Passed X l) (downloadUpdateOnly X e mb upd) := by
  refine .bind (preserves_of_touches (P := fun _ => False) preserves_createDirAll) fun _ => ?_
  refine .bind .ofExcept fun choice => ?_
  refine .bind (preserves_of_touches
    (preserves_downloadFile (P := (· = choice.2.1)) rfl)) fun _ => ?_
  exact .bind (preserves_of_touches preserves_verifyDownload) fun _ => .pure

theorem preserves_checkForUpdates_passed :
    Preserves (Passed X l) (checkForUpdates X e mb) :=
  preserves_of_touches (P := fun _ => False) preserves_checkForUpdates

/-! ## the update command -/

variable {flags : UpdateFlags}

/-- An update that is a downgrade is refused before it is applied. -/
theorem preserves_processUpdate (hflags : flags.allowDowngrade = false) (hmb : mb ∈ l) :
    Preserves (Passed X l) (processUpdate X e flags mb upd) := by
  unfold processUpdate
  split
  · exact .pure
  · next hpass =>
      rw [hflags, Bool.not_false, Bool.and_true, Bool.not_eq_true] at hpass
      refine .ite .pure (.ite ?_ ?_)
      · refine .bind (.attempt preserves_downloadUpdateOnly) fun r => ?_
        cases r <;> exact .pure
      · refine .bind (.attempt (preserves_applyUpdate hmb hpass)) fun r => ?_
        cases r <;> exact .pure

/-- So it is with the check in front. -/
theorem preserves_processBinaryUpdate (hflags : flags.allowDowngrade = false) (hmb : mb ∈ l) :
    Preserves (Passed X l) (processBinaryUpdate X e flags mb) := by
  refine .bind preserves_recordCheck fun _ => ?_
  refine .bind (.attempt preserves_checkForUpdates_passed) fun r => ?_
  rcases r with _ | ⟨_ | upd⟩
  · exact .pure
  · exact .pure
  · exact preserves_processUpdate hflags hmb

/-- And with all binaries, one after the other. -/
theorem preserves_processAll (hflags : flags.allowDowngrade = false) {bs : List ManagedBinary}
    (hbs : ∀ mb ∈ bs, mb ∈ l) : Preserves (Passed X l) (processAll X e flags bs) := by
  induction bs with
  | nil => exact .pure
  | cons mb rest ih =>
      unfold processAll
      refine .bind (preserves_processBinaryUpdate hflags (hbs mb List.mem_cons_self)) fun _ => ?_
      exact .bind (ih fun mb' h => hbs mb' (List.mem_cons_of_mem mb h)) fun _ => .pure

/-! ## the daemon -/

theorem preserves_checkAndApply (hmb : mb ∈ l) :
    Preserves (Passed X l) (checkAndApply X e mb) := by
  refine .ite .pure (.bind preserves_recordCheck fun _ => ?_)
  refine .bind (.attempt preserves_checkForUpdates_passed) fun r => ?_
  rcases r with _ | ⟨_ | upd⟩
  · exact .pure
  · exact .pure
  · show Preserves _ (if refusesDowngrade _ _ _ then _ else _)
    split
    · exact .pure
    · next hpass => exact .ignore (preserves_applyUpdate hmb (Bool.not_eq_true _ ▸ hpass))

/-! ## the entry points -/

/-- Where nothing was done, no version has gone down. -/
theorem Rises.refl (w : World) : Rises X w w := by
  intro b hb b' hb' hid v hv
  obtain rfl : b' = b := Table.eq_of_key_eq hb' hb hid
  exact .inl hv

/-- What a program over the rows of the database records has risen. -/
theorem wp_rises {α : Type} {m : M α} (hl : ∀ mb ∈ l, mb ∈ w.db.managed)
    (h : Preserves (Passed X l) m) :
    wp m (fun _ w' => Rises X w w') (fun _ w' => Rises X w w') w :=
  h.wp (fun _ _ h => h.rises hl) fun _ _ h => h.rises hl

theorem mem_listBinaries {db : ClientDb} : mb ∈ db.listBinaries ↔ mb ∈ db.managed :=
  List.mem_insertionSort _

/-- The update command lets no version go down. -/
theorem wp_performUpdate (hflags : flags.allowDowngrade = false) {name : Option String} :
    wp (performUpdate X e name flags) (fun _ w' => Rises X w w') (fun _ w' => Rises X w w') w := by
  unfold performUpdate newChecker
  rw [wp_bind, wp_mapErr]
  refine wp_guardIo (fun _ => ?_) fun _ _ => .refl w
  cases name with
  | some binaryName =>
      simp only [wp_bind]
      refine wp_guardIo (fun _ => ?_) fun _ _ => .refl w
      rw [wp_get]
      split
      · next binary hbinary =>
          refine wp_rises (l := [binary]) (fun mb hmb => ?_)
            (preserves_processAll hflags fun _ h => h)
          rw [List.mem_singleton.mp hmb]
          exact (Table.mem_of_find hbinary).1
      · exact .refl w
  | none =>
      simp only [wp_bind]
      refine wp_guardIo (fun _ => ?_) fun _ _ => .refl w
      exact wp_rises (fun _ => mem_listBinaries.mp) (preserves_processAll hflags fun _ h => h)

theorem wp_checkAndApplyUpdates :
    wp (checkAndApplyUpdates X e) (fun _ w' => Rises X w w') (fun _ w' => Rises X w w') w := by
  unfold checkAndApplyUpdates
  rw [wp_bind]
  refine wp_guardIo (fun _ => ?_) fun _ _ => .refl w
  rw [wp_bind, wp_get]
  exact wp_rises (fun _ => mem_listBinaries.mp)
    (.forEach_of fun _ hmb => preserves_checkAndApply hmb)

/-- Rows that were added before do not matter. -/
theorem Rises.of_subset {w₁ w' : World} (h : Rises X w₁ w')
    (hsub : ∀ b ∈ w.db.managed, b ∈ w₁.db.managed) : Rises X w w' :=
  fun b hb => h b (hsub b hb)

/-- What was done to the files before does not matter. -/
theorem Rises.of_touches {P : String → Prop} {w₁ w' : World} (h : Rises X w₁ w')
    (ht : Touches P w w₁) : Rises X w w' :=
  h.of_subset fun _ hb => ht.db ▸ hb

theorem preserves_acquireUpdateLock {P : String → Prop} :
    Preserves (Touches P) (acquireUpdateLock e) :=
  .bind preserves_createDirAll fun _ => preserves_guardIo

/-- A check that is asked for lets no version go down. -/
theorem wp_runCheckOnce :
    wp (runCheckOnce X e) (fun _ w' => Rises X w w') (fun _ w' => Rises X w w') w := by
  unfold runCheckOnce newChecker
  refine Preserves.wp_bind (R := Touches fun _ => False) preserves_acquireUpdateLock
    (fun _ w₁ h₁ => ?_) fun _ w₁ h₁ => (Rises.refl w₁).of_touches h₁
  refine Preserves.wp_bind (R := Touches fun _ => False) (.mapErr preserves_guardIo)
    (fun _ w₂ h₂ => ?_) fun _ w₂ h₂ => (Rises.refl w₂).of_touches (h₁.trans h₂)
  have hframe := h₁.trans h₂
  exact wp_mono (fun _ _ h => h.of_touches hframe) (fun _ _ h => h.of_touches hframe)
    wp_checkAndApplyUpdates

theorem wp_daemonCycle :
    wp (daemonCycle X e) (fun _ w' => Rises X w w') (fun _ w' => Rises X w w') w := by
  unfold daemonCycle
  refine Preserves.wp_bind (R := Touches fun _ => False) (.attempt preserves_acquireUpdateLock)
    (fun r w₁ h₁ => ?_) fun _ w₁ h₁ => (Rises.refl w₁).of_touches h₁
  cases r with
  | error err => exact (Rises.refl w₁).of_touches h₁
  | ok _ =>
      simp only [wp_bind, wp_attempt]
      exact wp_mono (fun _ _ h => h.of_touches h₁) (fun _ _ h => h.of_touches h₁)
        wp_checkAndApplyUpdates

/-! ## the sidecar process -/

variable {args : UpdaterArgs}

/-- Opening the updater touches no file. -/
theorem preserves_openUpdater {P : String → Prop} : Preserves (Touches P) (openUpdater e args) := by
  refine .bind .ofExcept fun _ => .bind preserves_createDirAll fun _ => ?_
  exact .bind preserves_guardIo fun _ => .bind preserves_guardIo fun _ => .ofExcept

/-- The sidecar works on the registered binary, or on a new row without a
version. -/
theorem wp_updaterBinary {key : ByteVec 32} :
    wp (updaterBinary e args key)
      (fun binary w' => (∀ b ∈ w.db.managed, b ∈ w'.db.managed) ∧ binary ∈ w'.db.managed ∧
        (w.db.getBinaryByName args.name = some binary ∨ binary.currentVersionString = none))
      (fun _ w' => ∀ b ∈ w.db.managed, b ∈ w'.db.managed) w := by
  unfold updaterBinary
  rw [wp_bind]
  refine wp_guardIo (fun _ => ?_) fun _ _ _ hb => hb
  rw [wp_bind, wp_get]
  split
  · next existing hexisting =>
      exact ⟨fun _ hb => hb, (Table.mem_of_find hexisting).1, .inl hexisting⟩
  · rw [wp_bind]
    refine wp_dbCall (fun db hdb => ?_) fun _ _ _ hb => hb
    have hrows := (registerBinary_ok hdb).2.2
    have hsub : ∀ b ∈ w.db.managed, b ∈ db.managed := fun b hb => (hrows b).mpr (.inl hb)
    rw [wp_bind, wp_get]
    refine wp_orThrow (fun binary hbinary => ⟨hsub, ?_, .inr ?_⟩) fun _ => hsub
    · exact (getBinary_eq_some.mp hbinary).1
    · obtain ⟨hmem, hid⟩ := getBinary_eq_some.mp hbinary
      have hnew := (hrows _).mpr (.inr rfl)
      rw [Table.eq_of_key_eq hmem hnew hid]

/-- Nor does the updater, if it is offered something newer or only checks. -/
theorem wp_updaterRun (hguard : args.checkOnly = true ∨ OffersNewer X e args.name w) :
    wp (updaterRun X e args) (fun _ w' => Rises X w w') (fun _ w' => Rises X w w') w := by
  unfold updaterRun newChecker
  refine Preserves.wp_bind (R := Touches fun _ => False) preserves_openUpdater
    (fun key w₁ h₁ => ?_) fun _ w₁ h₁ => (Rises.refl w₁).of_touches h₁
  rw [wp_bind]
  refine wp_mono (fun binary w₂ h₂ => ?_)
    (fun _ w₂ hsub => ((Rises.refl w₂).of_subset hsub).of_touches h₁) wp_updaterBinary
  obtain ⟨hsub, hmem, hknown⟩ := h₂
  -- all that follows is over a database that has the rows of the first one
  have hback : ∀ {w'}, Rises X w₂ w' → Rises X w w' := fun h => (h.of_subset hsub).of_touches h₁
  refine wp_mono (fun _ _ h => hback h) (fun _ _ h => hback h) ?_
  have hmem' : ∀ mb ∈ [binary], mb ∈ w₂.db.managed :=
    fun mb hmb => List.mem_singleton.mp hmb ▸ hmem
  rw [wp_bind, wp_mapErr]
  refine wp_guardIo (fun _ => ?_) fun _ _ => .refl w₂
  rw [wp_bind]
  have hcheck : Preserves (Touches fun _ => False) (checkForUpdates X e binary) :=
    preserves_checkForUpdates
  refine wp_mono (fun found w₃ h₃ => ?_)
    (fun _ w₃ h₃ => (Rises.refl w₃).of_touches h₃.2) (wp_and wp_checkForUpdates
      (hcheck.wp (fun _ _ h => h) fun _ _ h => h))
  obtain ⟨hoffer, h₃⟩ := h₃
  cases found with
  | none => exact (Rises.refl w₃).of_touches h₃
  | some upd =>
      show wp (if args.checkOnly then _ else _) _ _ _
      split
      · exact (Rises.refl w₃).of_touches h₃
      · next happly =>
          have hpass :
              refusesDowngrade X.semver binary.currentVersionString upd.version = false := by
            rcases hknown with hfound | hnone
            · rw [h₁.db] at hfound
              exact (hguard.resolve_left happly) binary hfound upd.version (hoffer upd rfl)
            · rw [hnone]
              rfl
          have hrun : Preserves (Passed X [binary])
              (do applyUpdate X e binary upd; pure exitUpdated : M Nat) :=
            .bind (preserves_applyUpdate List.mem_cons_self hpass) fun _ => .pure
          have hmem₃ : ∀ mb ∈ [binary], mb ∈ w₃.db.managed := fun mb hmb => h₃.db ▸ hmem' mb hmb
          exact wp_mono (fun _ _ h => h.of_touches h₃) (fun _ _ h => h.of_touches h₃)
            (wp_rises hmem₃ hrun)

end Steps

/-! ## whole runs -/

/-- In every run of updates in which the sidecar is offered newer versions only
and `update` is not told to allow downgrades, every step keeps each recorded
version or replaces it by a newer one. -/
theorem versions_rise_of_guarded {X : Crates} {w : World} {run : List UpdateCommand}
    (h : Permitted (UpdateCommand.next X) (UpdateCommand.Guarded X) w run) :
    (states (UpdateCommand.next X) w run).IsChain (Rises X) := by
  refine isChain_states (fun w c hc => ?_) h
  cases c with
  | update e name flags => exact wp_exec_snd (P := Rises X w) (wp_performUpdate hc)
  | checkNow e => exact wp_exec_snd (P := Rises X w) wp_runCheckOnce
  | cycle e => exact wp_exec_snd (P := Rises X w) wp_daemonCycle
  | updater e args => exact wp_exec_snd (P := Rises X w) (wp_updaterRun hc)

/-! ### the sidecar process -/

/-- A server that offers a version, and the client that asks it. -/
def sampleOffer (version : Version) (binary : Bytes) (sig : Signature) : Env :=
  { sampleEnv [("http://localhost:3000/binary", binary), ("http://localhost:3000/signature", sig.val)]
      with
    serveCheck := fun _ => .json
      { updateAvailable := true
        targetVersion := some version
        diffUrl := none
        diffChecksum := none
        diffSize := none
        fullBinaryUrl := some "/binary"
        fullBinarySize := some binary.length
        checksum := some (sampleBlake3 binary).toHex
        signatureUrl := some "/signature"
        forced := false
        releaseNotes := none
        versionId := none } }

/-- How the sidecar of `app` is started. -/
def sampleArgs : UpdaterArgs where
  name := "app"
  installPath := "/opt/app"
  publicKey := .ok sampleKey
  checkOnly := false
  platform := "linux-x86_64"
  newId := "b1"

/-- The sidecar installs version 1.1.0. -/
def sampleUpdater : UpdateCommand := .updater (sampleOffer (.new 1 1 0) [2] sampleSig2) sampleArgs

/-- A client on which the sidecar was never started. -/
def sampleUnused : World := ⟨Files.empty, ["/opt"], ClientDb.empty, [], [], []⟩

/-- A first start of the sidecar, and then a cycle of the daemon that is offered
version 2.0.0. -/
theorem versions_rise_of_guarded_updater :
    (states (UpdateCommand.next sampleCrates) sampleUnused
      [sampleUpdater, .cycle (sampleOffer (.new 2 0 0) [3] sampleSig3)]).IsChain
        (Rises sampleCrates) := by
  refine versions_rise_of_guarded ⟨.inr fun b hb => ?_, trivial, trivial⟩
  exact absurd (Table.mem_of_find hb).1 Table.not_mem_empty

/-- The client after the sidecar installed version 1.1.0. -/
def sampleUnguarded : World where
  files := Files.ofList [("/opt/app.sig", sampleSig2.val), ("/opt/app", [2])]
  dirs := ["/data/downloads", "/data/backups", "/data", "/opt"]
  db :=
    { managed := ⟨[sampleBinaryAt "1.1.0"], List.nodup_singleton _⟩
      installed := ⟨[sampleInstalled "1.1.0" [2] true], List.nodup_singleton _⟩
      backups := AutoTable.empty
      history := AutoTable.empty.insert (fun n => sampleHistory n none "1.1.0" [2]) fun _ => rfl }
  log := []
  sent := []
  asked := []

/-- The updater installs what is older than what was installed. -/
theorem sampleUpdater_next : sampleUpdater.next sampleCrates sampleUnused = sampleUnguarded := by
  decide +kernel

/-- Started again with a server that offers version 1.0.0, the sidecar replaces
version 1.1.0 by it. -/
theorem updater_downgrades :
    ¬ ∀ (X : Crates) (w : World) (run : List UpdateCommand),
      (∀ e name flags, .update e name flags ∈ run → flags.allowDowngrade = false) →
      (states (UpdateCommand.next X) w run).IsChain (Rises X) := by
  intro h
  have hrun := h sampleCrates sampleUnused
    [sampleUpdater, .updater (sampleOffer (.new 1 0 0) [1] sampleSig1) sampleArgs] (by
      intro e name flags hmem
      simp [sampleUpdater] at hmem)
  simp only [states, sampleUpdater_next] at hrun
  have hrises := (List.isChain_cons_cons.mp (List.isChain_cons_cons.mp hrun).2).1
  have hlast : (UpdateCommand.next sampleCrates sampleUnguarded
      (.updater (sampleOffer (.new 1 0 0) [1] sampleSig1) sampleArgs)).db.managed.rows =
        [sampleBinaryAt "1.0.0"] := by decide +kernel
  generalize UpdateCommand.next sampleCrates sampleUnguarded _ = w at hrises hlast
  have hmem : sampleBinaryAt "1.0.0" ∈ w.db.managed := by
    rw [Table.mem_def, hlast]
    exact List.mem_singleton.mpr rfl
  rcases hrises (sampleBinaryAt "1.1.0") (List.mem_singleton.mpr rfl) _ hmem rfl "1.1.0" rfl with
    hsame | ⟨cur, target, hcur, hgt, hnew⟩
  · exact absurd hsame (by decide)
  · obtain rfl : Version.new 1 1 0 = cur := Option.some.inj hcur
    have htext : (Version.new 1 0 0).text = target.text := Option.some.inj hnew
    obtain ⟨hmajor, hminor⟩ := Version.numbers_of_text_eq htext
    simp [Version.gt, Version.cmp, ← hmajor, ← hminor, Version.new] at hgt
    exact absurd hgt (by decide)

end Deltaship
