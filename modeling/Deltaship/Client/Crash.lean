import Deltaship.Client.Atomicity
import Deltaship.Client.Resume

/-!
# Deltaship.Client.Crash

Updates that are killed.

`Stepwise` has `execute_update` as a tree of its steps; a process can be killed between two
steps, and in the middle of a write or a copy, which has then put a part of the new content in
place.  A rename and a database call are done or not done.

Wherever `execute_update` is killed, the install path holds the bytes it held before or the
checked and signed new ones (`executeUpdate_killed`): the new binary is written under another
name.
-/

namespace Deltaship

open Prog Script

/-! ## the steps -/

namespace Stepwise

variable (X : Crates) (e : Env)

/-- Put a content in place of a file's; a part of it may be there when the process is killed. -/
def writeFile (site : Site) (p : String) (b : Bytes) : Script World String Unit :=
  .step (Deltaship.writeFile e site p b) fun w w' => ∃ n, w' = w.write p (b.take n)

/-- `fs::copy`. -/
def copyFile (site : Site) (src dst : String) : Script World String Unit :=
  .step (Deltaship.copyFile e site src dst)
    fun w w' => ∃ b n, w.file src = some b ∧ w' = w.write dst (b.take n)

/-- The rename of a temporary file that was filled; if it cannot be renamed it is removed. -/
def persistFilled (rename : Site) (temp dst : String) (persistErr : String → String)
    (fill : Script World String Unit) : Script World String Unit :=
  .bind (.attempt (.bind fill fun _ =>
      whole (Prog.mapErr persistErr (renameFile e rename temp dst)))) fun
    | .ok _ => whole (pure ())
    | .error msg => .bind (whole (modify fun w => w.remove temp)) fun _ => whole (throw msg)

/-- `NamedTempFile::new_in`, `fill` and `persist`. -/
def persistTemp (create rename : Site) (dir dst : String) (createErr persistErr : String → String)
    (fill : String → Script World String Unit) : Script World String Unit :=
  .bind (whole get) fun w =>
  .bind (whole (Prog.mapErr createErr (do
    guardIo e create
    bailIf (← pathExists (joinPath dir (e.tempName create w))) "File exists (os error 17)")))
    fun _ =>
  .bind (whole (modify fun w' => w'.write (joinPath dir (e.tempName create w)) [])) fun _ =>
  persistFilled e rename (joinPath dir (e.tempName create w)) dst persistErr
    (fill (joinPath dir (e.tempName create w)))

/-- `apply_diff_update`.  Behind the download it removes one file at most. -/
def applyDiffUpdate (mb : ManagedBinary) (upd : UpdateInfo) (metrics : UpdateMetrics) :
    Script World String (UpdateMetrics × Except String Bytes) :=
  match upd.diffUrl with
  | none => whole (pure (metrics, .error "No diff URL available"))
  | some url =>
    .bind (.attempt (downloadFileWithProgress X e url (diffPath e.config mb upd))) fun
      | .error err => whole (pure (metrics, .error err))
      | .ok _ =>
        let named := { metrics with
          diffId := some upd.versionId
          diffAlgorithm := some "bsdiff" }
        .bind (whole (Prog.attempt (fileLen e .diffMetadata (diffPath e.config mb upd)))) fun
          | .error err => whole (pure (named, .error err))
          | .ok size =>
            let sized := { named with
              diffSizeBytes := some size
              actualDownloadedBytes := some size
              fullSizeBytes := upd.fullBinarySize <|> named.fullSizeBytes }
            .bind (whole (Prog.attempt (patchWithDiff X e mb upd))) fun r => whole (pure (sized, r))

/-- `download_full_binary`. -/
def downloadFullBinary (mb : ManagedBinary) (upd : UpdateInfo) (metrics : UpdateMetrics) :
    Script World String (UpdateMetrics × BinarySource) :=
  .bind (whole (orThrow upd.fullBinaryUrl "No full binary URL available")) fun url =>
  .bind (downloadFileWithProgress X e url (fullPath e.config mb upd)) fun _ =>
  .bind (whole (fileLen e .fullMetadata (fullPath e.config mb upd))) fun size =>
  whole (pure ({ metrics with fullSizeBytes := some size, actualDownloadedBytes := some size },
    .onDisk (fullPath e.config mb upd)))

/-- A diff if there is one and a file to apply it to, else or if it fails the full binary. -/
def obtainBinary (mb : ManagedBinary) (upd : UpdateInfo) :
    Script World String (UpdateMetrics × BinarySource) :=
  .bind (whole (pathExists mb.installPath)) fun installed =>
    if upd.diffUrl.isSome ∧ installed then
      .bind (applyDiffUpdate X e mb upd {}) fun
        | (metrics, .ok data) => whole (pure (metrics, .inMemory data))
        | (metrics, .error _) => downloadFullBinary X e mb upd metrics
    else downloadFullBinary X e mb upd {}

/-- `BinarySource::write_to`. -/
def writeTo (dest : String) : BinarySource → Script World String Unit
  | .inMemory data => writeFile e .writeTemp dest data
  | .onDisk path => copyFile e .writeTemp path dest

/-- The filling of the temporary file that becomes the installed one. -/
def fillBinary (mb : ManagedBinary) (src : BinarySource) (temp : String) :
    Script World String Unit :=
  .bind (whole (guardIo e .parentStat)) fun _ =>
  .bind (whole (guardIo e .tempMode)) fun _ =>
  .bind (writeTo e temp src) fun _ =>
  .bind (whole (src.cleanup e)) fun _ =>
  .bind (whole (guardIo e .tempExec)) fun _ =>
  .bind (whole (context
    s!"Install path validation failed immediately before write for '{mb.installPath}'"
    (validateInstallPath e.host mb.installPath))) fun _ =>
  whole (guardIo e .parentRestat)

/-- Write the new binary beside its place and rename it. -/
def installBinary (mb : ManagedBinary) (src : BinarySource) : Script World String Unit :=
  .bind (whole (orThrow (parentPath mb.installPath) "Install path has no parent directory"))
    fun parent =>
  .bind (whole (createDirAll e .createParentDir parent)) fun _ =>
  persistTemp e .tempCreate .persist parent mb.installPath id
    (fun err => s!"Failed to persist temp file to {mb.installPath}: {err}") (fillBinary e mb src)

/-- Keep the publisher's signature beside the installed binary. -/
def persistSidecar (mb : ManagedBinary) (signature : Signature) : Script World String Unit :=
  .bind (whole (orThrow (parentPath (sigPathFor mb.installPath))
    "Signature sidecar path has no parent directory")) fun parent =>
  persistTemp e .sidecarTemp .sidecarPersist parent (sigPathFor mb.installPath)
    (fun _ => "Failed to create temp file for signature sidecar")
    (fun err => s!"Failed to persist signature sidecar to {sigPathFor mb.installPath}: {err}")
    fun temp => .mapErr (fun _ => "Failed to write signature sidecar to temp file")
      (writeFile e .sidecarWrite temp signature.val)

/-- `execute_update`.  The two checks remove one file at most. -/
def executeUpdate (mb : ManagedBinary) (upd : UpdateInfo) : Script World String UpdateMetrics :=
  .bind (whole (createDirAll e .createDownloadsDir e.config.downloadsDir)) fun _ =>
  .bind (whole (ofCrypto (Hash.fromHex upd.checksum))) fun expected =>
  .bind (obtainBinary X e mb upd) fun r =>
  .bind (whole (checkSource X e r.2 expected)) fun _ =>
  .bind (whole (verifySignature X e mb upd r.2)) fun signature =>
  .bind (installBinary e mb r.2) fun _ =>
  .bind (whole (verifyInstalled X e mb expected)) fun _ =>
  .bind (persistSidecar e mb signature) fun _ =>
  whole (pure r.1)

/-! ### it is the same update -/

section Run

variable {X e} {mb : ManagedBinary} {upd : UpdateInfo} {metrics : UpdateMetrics}
  {src : BinarySource}

/-- Writing through a temporary file does the same when it is not killed. -/
theorem run_persistTemp {create rename : Site} {dir dst : String}
    {createErr persistErr : String → String} {fill : String → Script World String Unit} :
    (persistTemp e create rename dir dst createErr persistErr fill).run =
      Deltaship.persistTemp e create rename dir dst createErr persistErr
        fun temp => (fill temp).run := by
  unfold persistTemp persistFilled Deltaship.persistTemp
  simp only [run_bind, run_whole, run_attempt]
  congr 1
  funext w
  congr 1
  funext _
  congr 1
  funext _
  congr 1
  funext r
  cases r <;> rfl

/-- So does downloading and applying a diff. -/
theorem run_applyDiffUpdate :
    (applyDiffUpdate X e mb upd metrics).run = Deltaship.applyDiffUpdate X e mb upd metrics := by
  unfold applyDiffUpdate Deltaship.applyDiffUpdate
  cases upd.diffUrl with
  | none => rfl
  | some url =>
      dsimp only
      rw [run_bind, run_attempt, run_downloadFileWithProgress]
      congr 1
      funext r
      cases r with
      | error err => rfl
      | ok n =>
          dsimp only
          rw [run_bind, run_whole]
          congr 1
          funext r
          cases r <;> rfl

/-- So does downloading the full binary. -/
theorem run_downloadFullBinary :
    (downloadFullBinary X e mb upd metrics).run =
      Deltaship.downloadFullBinary X e mb upd metrics := by
  unfold downloadFullBinary Deltaship.downloadFullBinary
  simp only [run_bind, run_whole, run_downloadFileWithProgress]

/-- So does getting the new binary in either way. -/
theorem run_obtainBinary :
    (obtainBinary X e mb upd).run = Deltaship.obtainBinary X e mb upd := by
  unfold obtainBinary Deltaship.obtainBinary
  rw [run_bind, run_whole]
  congr 1
  funext installed
  split
  · rw [run_bind, run_applyDiffUpdate]
    congr 1
    funext r
    obtain ⟨metrics, r⟩ := r
    cases r with
    | ok data => rfl
    | error err => exact run_downloadFullBinary
  · exact run_downloadFullBinary

/-- So does filling the temporary file with it. -/
theorem run_fillBinary {temp : String} :
    (fillBinary e mb src temp).run = (do
      guardIo e .parentStat
      guardIo e .tempMode
      src.writeTo e temp
      src.cleanup e
      guardIo e .tempExec
      context s!"Install path validation failed immediately before write for '{mb.installPath}'"
        (validateInstallPath e.host mb.installPath)
      guardIo e .parentRestat) := by
  cases src <;> rfl

theorem run_installBinary : (installBinary e mb src).run = Deltaship.installBinary e mb src := by
  unfold installBinary Deltaship.installBinary
  simp only [run_bind, run_whole, run_persistTemp, run_fillBinary]

theorem run_persistSidecar {sig : Signature} :
    (persistSidecar e mb sig).run = Deltaship.persistSidecar e mb sig := by
  unfold persistSidecar Deltaship.persistSidecar
  simp only [run_bind, run_whole, run_persistTemp, run_mapErr]
  rfl

/-- The steps are those of the update. -/
theorem run_executeUpdate :
    (executeUpdate X e mb upd).run = Deltaship.executeUpdate X e mb upd := by
  unfold executeUpdate Deltaship.executeUpdate
  simp only [run_bind, run_whole, run_obtainBinary, run_installBinary, run_persistSidecar]

end Run

end Stepwise

/-! ## before the rename -/

/- Nothing up to the rename touches the installed binary or its sidecar, however far it gets. -/

section Frames

variable {X : Crates} {e : Env} {mb : ManagedBinary} {upd : UpdateInfo} {dest url : String}
  {R : World → World → Prop} [IsPreorder World R]

/-- A write that is killed has written a part of its bytes. -/
theorem stays_writeFile {site : Site} {p : String} {b : Bytes} (hwrite : ∀ w b, R w (w.write p b)) :
    Stays R (Stepwise.writeFile e site p b) := by
  refine .step (preserves_writeFile_of hwrite) ?_
  rintro w w' ⟨n, rfl⟩
  exact hwrite w _

/-- A copy that is killed has touched its target only. -/
theorem stays_copyFile {P : String → Prop} {site : Site} {src dst : String} (hdst : P dst) :
    Stays (Touches P) (Stepwise.copyFile e site src dst) := by
  refine .step (preserves_copyFile hdst) ?_
  rintro w w' ⟨b, n, -, rfl⟩
  exact .write hdst

/-- A body that comes in goes to the file of the download, chunk by chunk. -/
theorem stays_downloadStreamToFile (hR : DownloadFrame R dest) {k : Nat} {cut : Option String}
    (body : List Bytes) (i downloaded : Nat) :
    Stays R (Stepwise.downloadStreamToFile e dest k cut body i downloaded) := by
  induction body generalizing i downloaded with
  | nil =>
      refine .whole ?_
      unfold Stepwise.endStream
      cases cut with
      | some msg => exact .throw
      | none => exact .bind (.mapErr preserves_guardIo) fun _ => .pure
  | cons chunk rest ih =>
      refine .bind (.step (.mapErr (preserves_appendFile_of hR.write)) ?_) fun _ => ih _ _
      rintro w w' ⟨n, rfl⟩
      exact hR.write w _

theorem stays_openDest (hR : DownloadFrame R dest) {k : Nat} {resume : Bool} :
    Stays R (Stepwise.openDest e dest k resume) := by
  cases resume with
  | true => exact .whole (.mapErr preserves_guardIo)
  | false =>
      exact .bind (.whole (preserves_createParent hR)) fun _ =>
        .whole (.mapErr (preserves_writeFile_of hR.write))

theorem stays_dropPartial (hR : DownloadFrame R dest) {k existing : Nat} :
    Stays R (Stepwise.dropPartial e url dest k existing) := by
  unfold Stepwise.dropPartial
  split
  · refine .bind (.whole (preserves_headLength hR)) fun expected => ?_
    refine .bind (.attempt (.whole preserves_verifyPartialDownload)) fun r => ?_
    rcases r with _ | ⟨_ | _⟩
    · exact .whole (preserves_removeFile_of hR.remove)
    · exact .whole (preserves_removeFile_of hR.remove)
    · exact .whole .pure
  · exact .whole .pure

theorem stays_downloadAttempt (hR : DownloadFrame R dest) {k : Nat} :
    Stays R (Stepwise.downloadAttempt X e url dest k) := by
  refine .bind (.whole preserves_existingSize) fun _ => ?_
  refine .bind (stays_dropPartial hR) fun _ => ?_
  refine .bind (.whole preserves_existingSize) fun existing => ?_
  refine .bind (.whole fun w => hR.send w _) fun reply => ?_
  cases reply with
  | failed msg => exact .whole .throw
  | response status length body cut =>
      unfold Stepwise.receive
      dsimp only
      split
      · exact .whole .pure
      · refine .bind (.whole preserves_bailIf) fun _ => ?_
        exact .bind (stays_openDest hR) fun _ => stays_downloadStreamToFile hR _ _ _

/-- A download that is killed has changed its destination only. -/
theorem stays_downloadFileWithProgress (hR : DownloadFrame R dest) :
    Stays R (Stepwise.downloadFileWithProgress X e url dest) := by
  have hgiveUp : ∀ errors, Stays R (Stepwise.giveUp e dest errors) := fun _ =>
    .bind (.whole (preserves_removePartial hR)) fun _ => .whole .throw
  unfold Stepwise.downloadFileWithProgress
  generalize List.range maxRetries = ks
  generalize ([] : List String) = errors
  induction ks generalizing errors with
  | nil => exact hgiveUp _
  | cons k rest ih =>
      refine .bind (.attempt (stays_downloadAttempt hR)) fun r => ?_
      cases r with
      | ok bytes => exact .whole .pure
      | error err =>
          dsimp only
          split
          · exact hgiveUp _
          · exact ih _

/-- Obtaining the new binary changes the download files only, however far it gets. -/
theorem stays_obtainBinary :
    Stays (Touches (DownloadFile e.config mb upd)) (Stepwise.obtainBinary X e mb upd) := by
  have hfull : ∀ metrics, Stays (Touches (DownloadFile e.config mb upd))
      (Stepwise.downloadFullBinary X e mb upd metrics) := by
    intro metrics
    refine .bind (.whole preserves_orThrow) fun url => ?_
    refine .bind (stays_downloadFileWithProgress (downloadFrame_touches (.inr rfl))) fun _ => ?_
    exact .bind (.whole preserves_fileLen) fun _ => .whole .pure
  have hdiff : DownloadFrame (Touches (DownloadFile e.config mb upd)) (diffPath e.config mb upd) :=
    downloadFrame_touches (.inl rfl)
  refine .bind (.whole preserves_pathExists) fun installed => ?_
  split
  · refine .bind ?_ fun r => ?_
    · unfold Stepwise.applyDiffUpdate
      cases upd.diffUrl with
      | none => exact .whole .pure
      | some url =>
          refine .bind (.attempt (stays_downloadFileWithProgress hdiff)) fun r => ?_
          cases r with
          | error err => exact .whole .pure
          | ok n =>
              refine .bind (.whole (.attempt preserves_fileLen)) fun r => ?_
              cases r with
              | error err => exact .whole .pure
              | ok size =>
                  exact .bind (.whole (.attempt (preserves_patchWithDiff hdiff))) fun _ =>
                    .whole .pure
    · obtain ⟨metrics, r⟩ := r
      cases r with
      | ok data => exact .whole .pure
      | error err => exact hfull metrics
  · exact hfull {}

end Frames

/-! ## the rename -/

/- The installed binary is replaced by one rename, which is done or not done. The temporary file
beside it may be left over, half written. -/

/-- The names of temporary files are none of this path. -/
def Env.TempApart (e : Env) (p : String) : Prop :=
  ∀ site (w : World) dir, joinPath dir (e.tempName site w) ≠ p

/-- Until a file is renamed to `dst`, it is as it was, and then it has its new content.  Of the
other files only those in `P` differ, and those with the name of a temporary file that are new. -/
structure Placing (e : Env) (P : String → Prop) (dst : String) (b : Bytes) (w w' : World) :
    Prop where
  file : w'.file dst = w.file dst ∨ w'.file dst = some b
  frame : ∀ p, ¬ P p → p ≠ dst → w.file p ≠ none ∨ e.TempApart p → w'.file p = w.file p
  db : w'.db = w.db

section Placing

variable {e : Env} {P : String → Prop} {dst temp : String} {b : Bytes} {w w₁ w' : World}

/-- Before the rename other paths are touched only. -/
theorem Placing.of_touches (h : Touches P w w') (hdst : ¬ P dst) : Placing e P dst b w w' :=
  ⟨.inl (h.file hdst), fun _ hp _ _ => h.file hp, h.db⟩

/-- Behind the rename everything is in its place. -/
theorem Placing.of_placed (h : Placed P dst b w w') : Placing e P dst b w w' :=
  ⟨.inr h.file, fun p hp hpd _ => h.frame p hp hpd, h.db⟩

/-- What was done before touches files in `P` only. -/
theorem Placing.after (h' : Placing e P dst b w₁ w') (h : Touches P w w₁) (hdst : ¬ P dst) :
    Placing e P dst b w w' := by
  refine ⟨?_, fun p hp hpd hkept => ?_, h'.db.trans h.db⟩
  · rw [← h.file hdst]
    exact h'.file
  · rw [← h.file hp] at hkept ⊢
    exact h'.frame p hp hpd hkept

/-- A file that is there, or that is not named like a temporary one, is no new temporary file. -/
theorem ne_temp {p : String} (hnone : w.file temp = none)
    (htemp : ∀ p, e.TempApart p → temp ≠ p) (hkept : w.file p ≠ none ∨ e.TempApart p) :
    p ≠ temp := by
  rintro rfl
  rcases hkept with hsome | hapart
  · exact hsome hnone
  · exact htemp p hapart rfl

/-- While a temporary file is filled. -/
theorem Placing.of_filling (hnone : w.file temp = none) (htemp : ∀ p, e.TempApart p → temp ≠ p)
    (hdst : ¬ P dst) (hapart : e.TempApart dst)
    (h : Touches (fun p => P p ∨ p = temp) (w.write temp []) w') : Placing e P dst b w w' := by
  have hother : ∀ p, ¬ P p → p ≠ temp → w'.file p = w.file p := by
    intro p hp hpt
    rw [h.file fun h' => h'.elim hp hpt]
    exact w.file_write_ne _ hpt
  exact ⟨.inl (hother dst hdst (htemp dst hapart).symm),
    fun p hp _ hkept => hother p hp (ne_temp hnone htemp hkept), h.db⟩

/-- The rename itself. -/
theorem Placing.of_rename (hnone : w.file temp = none) (htemp : ∀ p, e.TempApart p → temp ≠ p)
    (h : Touches (fun p => P p ∨ p = temp) (w.write temp []) w') :
    Placing e P dst b w (w'.rename temp dst b) := by
  refine ⟨.inr (w'.file_rename_self b), fun p hp hpd hkept => ?_, h.db⟩
  have hpt := ne_temp hnone htemp hkept
  calc (w'.rename temp dst b).file p = w'.file p := w'.file_rename_ne b hpt hpd
    _ = (w.write temp []).file p := h.file fun h' => h'.elim hp hpt
    _ = w.file p := w.file_write_ne _ hpt

/-- When a temporary file is removed or renamed, what it was created for is as before or has
the new content. -/
theorem keeps_persistTemp {create rename : Site} {dir : String}
    {createErr persistErr : String → String} {fill : String → Script World String Unit}
    (hapart : e.TempApart dst) (hdst : ¬ P dst)
    (hfill : ∀ temp, w.file temp = none →
      Keeps (fun w' => Touches (fun p => P p ∨ p = temp) (w.write temp []) w') (fill temp)
        (fun _ w' => w'.file temp = some b) (fun _ _ => True) (w.write temp [])) :
    Keeps (Placing e P dst b w)
      (Stepwise.persistTemp e create rename dir dst createErr persistErr fill)
      (fun _ w' => Placed P dst b w w') (fun _ w' => Touches P w w') w := by
  have hwp : wp (Stepwise.persistTemp e create rename dir dst createErr persistErr fill).run
      (fun _ w' => Placed P dst b w w') (fun _ w' => Touches P w w') w := by
    rw [Stepwise.run_persistTemp]
    refine wp_mono (fun _ _ h => h) (fun _ _ h => h.1) (wp_persistTemp_placed (F := True)
      (fun _ => trivial) (fun _ => trivial) fun temp hnone => ?_)
    exact (keeps_and (hfill temp hnone)).2
  refine ⟨?_, hwp⟩
  have hsame : Placing e P dst b w w := .of_touches (.refl P w) hdst
  have hkeeps : Keeps (Placing e P dst b w)
      (Stepwise.persistTemp e create rename dir dst createErr persistErr fill)
      (fun _ _ => True) (fun _ _ => True) w := by
    refine keeps_bind (keeps_whole hsame ⟨hsame, ?_⟩)
    refine keeps_bind (keeps_whole hsame ?_)
    simp only [wp_mapErr, wp_bind]
    refine wp_guardIo (fun _ => ?_) fun _ _ => ⟨hsame, trivial⟩
    rw [wp_pathExists]
    refine wp_bailIf (fun hex => ?_) fun _ => ⟨hsame, trivial⟩
    refine ⟨hsame, ?_⟩
    have htemp : ∀ p, e.TempApart p → joinPath dir (e.tempName create w) ≠ p :=
      fun p hp => hp create w dir
    generalize joinPath dir (e.tempName create w) = temp at hex htemp
    have hnone : w.file temp = none := w.file_eq_none_of_not_pathExists (by simpa using hex)
    have hfilling : ∀ w', Touches (fun p => P p ∨ p = temp) (w.write temp []) w' →
        Placing e P dst b w w' := fun w' h => .of_filling hnone htemp hdst hapart h
    have hcreated := hfilling _ (.refl _ _)
    refine keeps_bind (keeps_whole hsame ⟨hcreated, ?_⟩)
    -- whatever was written to it, the temporary file is removed
    have hdrop : ∀ msg w', Touches (fun p => P p ∨ p = temp) (w.write temp []) w' →
        Keeps (Placing e P dst b w)
          (.bind (whole (modify fun w => w.remove temp)) fun _ => whole (throw msg : M Unit))
          (fun _ _ => True) (fun _ _ => True) w' := by
      intro msg w' h'
      have hgone := hfilling _ (h'.trans (.remove (.inr rfl)))
      exact keeps_bind (keeps_whole (hfilling w' h') ⟨hgone, keeps_whole hgone ⟨hgone, trivial⟩⟩)
    refine keeps_bind (keeps_attempt (keeps_bind ?_))
    refine keeps_mono (fun _ w' h' => ?_) (fun msg w' h' => hdrop msg w' h'.1)
      (keeps_imp hfilling (keeps_and (hfill temp hnone)))
    obtain ⟨hframe, hdata⟩ := h'
    refine keeps_whole (hfilling w' hframe) ?_
    rw [wp_mapErr]
    refine wp_renameFile (fun b' _ hb' => ?_) fun msg _ =>
      ⟨hfilling w' hframe, hdrop (persistErr msg) w' hframe⟩
    obtain rfl : b' = b := Option.some.inj (hb'.symm.trans hdata)
    have hplaced : Placing e P dst b' w (w'.rename temp dst b') := .of_rename hnone htemp hframe
    exact ⟨hplaced, keeps_whole hplaced ⟨hplaced, trivial⟩⟩
  exact hkeeps.1

end Placing

/-! ## the whole update -/

/- From the download to the sidecar, at every place where the process may be killed: the relation
`Interrupted` holds between the state before the update and the one in which it stops. -/

section Update

variable {X : Crates} {e : Env} {mb : ManagedBinary} {upd : UpdateInfo} {w w₁ w' : World}
  {P : String → Prop} {src : BinarySource} {data : Bytes} {temp : String}

/-- The temporary file is filled with the new binary, as far as it gets. -/
theorem keeps_fillBinary (hsrc : src.Within P) (hdata : src.content w = some data)
    (hnone : w.file temp = none) :
    Keeps (fun w' => Touches (fun p => P p ∨ p = temp) (w.write temp []) w')
      (Stepwise.fillBinary e mb src temp) (fun _ w' => w'.file temp = some data)
      (fun _ _ => True) (w.write temp []) := by
  have hcleanup : Preserves (Touches fun p => P p ∧ p ≠ temp) (src.cleanup e) :=
    preserves_cleanup (BinarySource.within_ne hsrc hdata hnone)
  have hvalid : Preserves (Touches fun p => P p ∨ p = temp) (context
      s!"Install path validation failed immediately before write for '{mb.installPath}'"
      (validateInstallPath e.host mb.installPath)) :=
    .mapErr (preserves_validateInstallPath _ _)
  have hstays : Stays (Touches fun p => P p ∨ p = temp) (Stepwise.fillBinary e mb src temp) := by
    refine .bind (.whole preserves_guardIo) fun _ => .bind (.whole preserves_guardIo) fun _ => ?_
    refine .bind ?_ fun _ => .bind (.whole (hcleanup.mono fun _ _ h => h.mono fun _ hp =>
      .inl hp.1)) fun _ => .bind (.whole preserves_guardIo) fun _ => ?_
    · cases src with
      | inMemory bytes => exact stays_writeFile fun _ _ => .write (.inr rfl)
      | onDisk path => exact stays_copyFile (.inr rfl)
    · exact .bind (.whole hvalid) fun _ => .whole preserves_guardIo
  refine keeps_of_stays hstays (fun _ h => h) ?_
  rw [Stepwise.run_fillBinary]
  simp only [wp_bind]
  refine wp_guardIo (fun _ => ?_) fun _ _ => trivial
  refine wp_guardIo (fun _ => ?_) fun _ _ => trivial
  refine wp_mono (fun _ w₂ h₂ => ?_) (fun _ _ _ => trivial) (wp_writeTo hdata hnone)
  refine hcleanup.wp (fun _ w₃ h₃ => ?_) fun _ _ _ => trivial
  have hfile₃ : w₃.file temp = some data := (h₃.file fun h => h.2 rfl).trans h₂.2
  refine wp_guardIo (fun _ => ?_) fun _ _ => trivial
  refine Preserves.wp (R := SameDest temp) (.mapErr (preserves_validateInstallPath _ _))
    (fun _ w₄ h₄ => ?_) fun _ _ _ => trivial
  exact wp_guardIo (fun _ => h₄.trans hfile₃) fun _ _ => trivial

/-- Wherever the installation is killed, the old or the new binary is in place. -/
theorem keeps_installBinary (htemp : e.TempApart mb.installPath) (hapart : ¬ P mb.installPath)
    (hsrc : src.Within P) (hdata : src.content w = some data) :
    Keeps (Placing e P mb.installPath data w) (Stepwise.installBinary e mb src)
      (fun _ w' => Placed P mb.installPath data w w') (fun _ w' => Touches P w w') w := by
  have hsame : Placing e P mb.installPath data w w := .of_touches (.refl P w) hapart
  refine keeps_bind (keeps_whole hsame ?_)
  refine wp_orThrow (fun parent _ => ⟨hsame, ?_⟩) fun _ => ⟨hsame, .refl P w⟩
  refine keeps_bind (keeps_whole hsame ?_)
  refine (preserves_createDirAll (P := fun _ => False)).wp (fun _ w₁ h₁ => ?_) fun _ w₁ h₁ => ?_
  · have hdata₁ : src.content w₁ = some data := (src.content_congr h₁).trans hdata
    have h₁ : Touches P w w₁ := h₁.mono fun _ => False.elim
    refine ⟨.of_touches h₁ hapart, ?_⟩
    exact keeps_imp (fun w' h => h.after h₁ hapart) (keeps_mono (fun _ _ h => h.of_touches h₁)
      (fun _ _ h => h₁.trans h) (keeps_persistTemp htemp hapart fun temp hnone =>
        keeps_fillBinary hsrc hdata₁ hnone))
  · have h₁ : Touches P w w₁ := h₁.mono fun _ => False.elim
    exact ⟨.of_touches h₁ hapart, h₁⟩

/-- So it is with the signature beside it. -/
theorem keeps_persistSidecar {sig : Signature} (htemp : e.TempApart (sigPathFor mb.installPath)) :
    Keeps (Placing e (fun _ => False) (sigPathFor mb.installPath) sig.val w)
      (Stepwise.persistSidecar e mb sig)
      (fun _ w' => Placed (fun _ => False) (sigPathFor mb.installPath) sig.val w w')
      (fun _ w' => Touches (fun _ => False) w w') w := by
  have hsame : Placing e (fun _ => False) (sigPathFor mb.installPath) sig.val w w :=
    .of_touches (.refl _ w) not_false
  refine keeps_bind (keeps_whole hsame ?_)
  refine wp_orThrow (fun parent _ => ⟨hsame, ?_⟩) fun _ => ⟨hsame, .refl _ w⟩
  refine keeps_persistTemp htemp not_false fun temp _ => keeps_mapErr ?_
  refine keeps_of_stays (stays_writeFile fun _ _ => .write (.inr rfl)) (fun _ h => h) ?_
  exact wp_writeFile (fun _ => World.file_write_self _ _) fun _ _ _ _ => trivial

/-- The checked and signed new bytes are installed, and the sidecar is as it was or holds the
signature that was checked. -/
def Replaced (X : Crates) (mb : ManagedBinary) (upd : UpdateInfo) (w w' : World) : Prop :=
  ∃ data sig, Hash.fromHex upd.checksum = .ok (X.crypto.blake3 data) ∧
    Accepted X mb upd data sig ∧ w'.file mb.installPath = some data ∧
    (w'.file (sigPathFor mb.installPath) = w.file (sigPathFor mb.installPath) ∨
      w'.file (sigPathFor mb.installPath) = some sig.val)

/-- What `execute_update` may have done when it is killed: the installed binary and its sidecar
are as they were, or the new ones are there; the database is as it was, and of the other files
only downloads and new temporary files differ. -/
structure Interrupted (X : Crates) (e : Env) (mb : ManagedBinary) (upd : UpdateInfo)
    (w w' : World) : Prop where
  installed : (w'.file mb.installPath = w.file mb.installPath ∧
      w'.file (sigPathFor mb.installPath) = w.file (sigPathFor mb.installPath)) ∨
    Replaced X mb upd w w'
  frame : ∀ p, ¬ DownloadFile e.config mb upd p → p ≠ mb.installPath →
    p ≠ sigPathFor mb.installPath → w.file p ≠ none ∨ e.TempApart p → w'.file p = w.file p
  db : w'.db = w.db

namespace Interrupted

/-- An update that has touched its downloads only has installed nothing yet. -/
theorem of_touches (hap : Apart e.config mb upd)
    (h : Touches (DownloadFile e.config mb upd) w w') : Interrupted X e mb upd w w' :=
  ⟨.inl ⟨h.file hap.install_download, h.file hap.sidecar_download⟩, fun _ hp _ _ _ => h.file hp,
    h.db⟩

/-- While the new binary is put in place, and behind that. -/
theorem of_placing {sig : Signature} (hap : Apart e.config mb upd)
    (htemp : e.TempApart (sigPathFor mb.installPath))
    (hsum : Hash.fromHex upd.checksum = .ok (X.crypto.blake3 data))
    (haccepted : Accepted X mb upd data sig)
    (h : Placing e (DownloadFile e.config mb upd) mb.installPath data w w') :
    Interrupted X e mb upd w w' := by
  have hsidecar : w'.file (sigPathFor mb.installPath) = w.file (sigPathFor mb.installPath) :=
    h.frame _ hap.sidecar_download (sigPathFor_ne _) (.inr htemp)
  refine ⟨?_, fun p hp hpi _ hkept => h.frame p hp hpi hkept, h.db⟩
  rcases h.file with hold | hnew
  · exact .inl ⟨hold, hsidecar⟩
  · exact .inr ⟨data, sig, hsum, haccepted, hnew, .inl hsidecar⟩

/-- While the sidecar is put in place. -/
theorem of_sidecar {sig : Signature} (hap : Apart e.config mb upd)
    (htemp : ∀ p, p = mb.installPath ∨ p = sigPathFor mb.installPath → e.TempApart p)
    (hsum : Hash.fromHex upd.checksum = .ok (X.crypto.blake3 data))
    (haccepted : Accepted X mb upd data sig)
    (h : Placed (DownloadFile e.config mb upd) mb.installPath data w w₁)
    (h' : Placing e (fun _ => False) (sigPathFor mb.installPath) sig.val w₁ w') :
    Interrupted X e mb upd w w' := by
  have hsidecar : w₁.file (sigPathFor mb.installPath) = w.file (sigPathFor mb.installPath) :=
    h.frame _ hap.sidecar_download (sigPathFor_ne _)
  refine ⟨.inr ⟨data, sig, hsum, haccepted, ?_, ?_⟩, fun p hp hpi hps hkept => ?_,
    h'.db.trans h.db⟩
  · rw [h'.frame _ not_false (sigPathFor_ne _).symm (.inr (htemp _ (.inl rfl)))]
    exact h.file
  · rw [← hsidecar]
    exact h'.file
  · have hkept₁ := h.frame p hp hpi
    rw [← hkept₁] at hkept
    exact (h'.frame p not_false hps hkept).trans hkept₁

end Interrupted

/-- Every way through `execute_update`, and every place on it. -/
theorem keeps_executeUpdate (hap : Apart e.config mb upd) (hinstall : e.TempApart mb.installPath)
    (hsidecar : e.TempApart (sigPathFor mb.installPath)) :
    Keeps (Interrupted X e mb upd w) (Stepwise.executeUpdate X e mb upd)
      (fun _ w' => ∃ data sig,
        Swapped X e mb upd (· = sigPathFor mb.installPath) data sig w w' ∧
        w'.file (sigPathFor mb.installPath) = some sig.val)
      (fun _ w' => Touches (DownloadFile e.config mb upd) w w' ∨
        LateFault e ∧ ∃ data sig, Swapped X e mb upd (fun _ => False) data sig w w') w := by
  have htemp : ∀ p, p = mb.installPath ∨ p = sigPathFor mb.installPath → e.TempApart p := by
    rintro p (rfl | rfl)
    · exact hinstall
    · exact hsidecar
  have hwp : wp (executeUpdate X e mb upd) _ _ w := wp_executeUpdate
  rw [← Stepwise.run_executeUpdate] at hwp
  refine ⟨?_, hwp⟩
  have hbefore : ∀ {w'}, Touches (DownloadFile e.config mb upd) w w' →
      Interrupted X e mb upd w w' := fun h => .of_touches hap h
  have hkeeps : Keeps (Interrupted X e mb upd w) (Stepwise.executeUpdate X e mb upd)
      (fun _ _ => True) (fun _ _ => True) w := by
    refine keeps_bind (keeps_whole (hbefore (.refl _ w)) ?_)
    refine preserves_createDirAll.wp (fun _ w₁ h₁ => ⟨hbefore h₁, ?_⟩)
      fun _ _ h => ⟨hbefore h, trivial⟩
    refine keeps_bind (keeps_whole (hbefore h₁) ?_)
    unfold ofCrypto
    rw [wp_ofExcept]
    cases hex : Hash.fromHex upd.checksum with
    | error err => exact ⟨hbefore h₁, trivial⟩
    | ok expected =>
        refine ⟨hbefore h₁, keeps_bind (keeps_of_stays stays_obtainBinary
          (fun _ h => hbefore (h₁.trans h)) ?_)⟩
        rw [Stepwise.run_obtainBinary]
        refine wp_mono ?_ (fun _ _ _ => trivial) wp_obtainBinary
        rintro ⟨metrics, src⟩ w₂ ⟨hsrc, h₂⟩
        have h₂ := h₁.trans h₂
        refine keeps_bind (keeps_whole (hbefore h₂) ?_)
        refine wp_mono ?_ (fun _ _ h => ⟨hbefore (h₂.trans h), trivial⟩) (wp_checkSource hsrc)
        rintro _ w₃ ⟨data, hdata, rfl, rfl⟩
        have hrecorded := Touches.record (fun _ => False) w₂
          (.checksum (X.crypto.blake3 data) (X.crypto.blake3 data)) rfl
        have hdata₃ := (src.content_congr hrecorded).trans hdata
        have h₃ := h₂.trans (hrecorded.mono fun _ => False.elim)
        refine ⟨hbefore h₃, keeps_bind (keeps_whole (hbefore h₃) ?_)⟩
        refine wp_mono ?_ (fun _ _ h => ⟨hbefore (h₃.trans h), trivial⟩)
          (wp_verifySignature hsrc hdata₃)
        rintro sig w₄ ⟨key, hkey, hv, hfiles₄, hdb₄, hlog₄⟩
        have hread : Touches (fun _ => False) _ w₄ :=
          ⟨hfiles₄ ▸ .refl _ _, hdb₄, _, hlog₄, fun _ h => List.mem_singleton.mp h ▸ rfl⟩
        have hdata₄ := (src.content_congr hread).trans hdata₃
        have h₄ := h₃.trans (hread.mono fun _ => False.elim)
        -- from here on the bytes are checked
        have haccepted : Accepted X mb upd data sig := ⟨key, hkey, hv⟩
        refine ⟨hbefore h₄, keeps_bind (keeps_imp (fun w' h => ?_) (keeps_mono (fun _ w₅ h₅ => ?_)
          (fun _ _ _ => trivial)
          (keeps_installBinary hinstall hap.install_download hsrc hdata₄)))⟩
        · exact .of_placing hap hsidecar hex haccepted (h.after h₄ hap.install_download)
        · have hswapped := h₅.of_touches h₄
          have hafter : ∀ {w'},
              Placing e (fun _ => False) (sigPathFor mb.installPath) sig.val w₅ w' →
                Interrupted X e mb upd w w' :=
            fun h => .of_sidecar hap htemp hex haccepted hswapped h
          have hverified : ∀ {w'}, Touches (fun _ => False) w₅ w' → Interrupted X e mb upd w w' :=
            fun h => hafter (.of_touches h not_false)
          refine keeps_bind (keeps_whole (hverified (.refl _ w₅)) ?_)
          refine wp_mono (fun _ w₆ h₆ => ?_) (fun _ _ h => ⟨hverified h.1, trivial⟩)
            (wp_verifyInstalled h₅.file)
          refine ⟨hverified h₆, keeps_bind (keeps_imp (fun w' h => hafter (h.after h₆ not_false))
            (keeps_mono (fun _ w₇ h₇ => ?_) (fun _ _ _ => trivial)
              (keeps_persistSidecar hsidecar)))⟩
          have hlast := hafter ((Placing.of_placed h₇).after h₆ not_false)
          exact keeps_whole hlast ⟨hlast, trivial⟩
  exact hkeeps.1

/-- Wherever `execute_update` is killed, the old or the checked new binary is installed. -/
theorem executeUpdate_killed (X : Crates) (e : Env) (mb : ManagedBinary) (upd : UpdateInfo)
    (w w' : World) (hap : Apart e.config mb upd) (hinstall : e.TempApart mb.installPath)
    (hsidecar : e.TempApart (sigPathFor mb.installPath))
    (hpass : (Stepwise.executeUpdate X e mb upd).Passes w w') : Interrupted X e mb upd w w' :=
  (keeps_executeUpdate hap hinstall hsidecar).1 w' hpass

end Update

/-! ### a kill behind the rename -/

/-- The names of the sample client's temporary files end with an `x`. -/
theorem tempApart_longName {e : Env} {p : String} (he : ∀ site, e.tempName site = longName)
    (hp : ¬ "x".toList <:+ p.toList) : e.TempApart p := by
  intro site w dir heq
  refine hp (heq ▸ suffix_joinPath ?_)
  rw [he, longName, List.replicate_succ']
  simp only [String.toList_ofList]
  exact List.suffix_append _ ['x']

/-- The sample client, when it is served version 1.1.0. -/
def sampleServedEnv : Env := sampleEnv (sampleFiles [2] sampleSig2)

/-- The client after its first step. -/
def sampleBegun : World :=
  (exec (createDirAll sampleServedEnv .createDownloadsDir sampleConfig.downloadsDir) sampleWorld1).2

/-- The client after the download of version 1.1.0. -/
def sampleObtained : World :=
  (exec (obtainBinary sampleCrates sampleServedEnv (sampleBinaryAt "1.0.0")
    (sampleUpdate (.new 1 1 0) [2])) sampleBegun).2

/-- What it has downloaded. -/
def sampleSource : BinarySource := .onDisk "/data/downloads/app_1.1.0.tmp"

/-- The client after the checks. -/
def sampleVerified : World :=
  (exec (verifySignature sampleCrates sampleServedEnv (sampleBinaryAt "1.0.0")
    (sampleUpdate (.new 1 1 0) [2]) sampleSource)
      (exec (checkSource sampleCrates sampleServedEnv sampleSource (sampleBlake3 [2]))
        sampleObtained).2).2

/-- The client after the rename. -/
def sampleRenamed : World :=
  (exec (installBinary sampleServedEnv (sampleBinaryAt "1.0.0") sampleSource) sampleVerified).2

/-- A client that is killed right behind the rename: the new binary has the old sidecar. -/
theorem executeUpdate_killed_late :
    sampleRenamed.file "/opt/app" = some [2] ∧
      sampleRenamed.file "/opt/app.sig" = some sampleSig1.val ∧
      Interrupted sampleCrates sampleServedEnv (sampleBinaryAt "1.0.0")
        (sampleUpdate (.new 1 1 0) [2]) sampleWorld1 sampleRenamed := by
  have hsteps :
      (exec (createDirAll sampleServedEnv .createDownloadsDir sampleConfig.downloadsDir)
        sampleWorld1).1 = .ok () ∧
      exec (ofCrypto (Hash.fromHex (sampleUpdate (.new 1 1 0) [2]).checksum)) sampleBegun =
        (.ok (sampleBlake3 [2]), sampleBegun) ∧
      (exec (obtainBinary sampleCrates sampleServedEnv (sampleBinaryAt "1.0.0")
        (sampleUpdate (.new 1 1 0) [2])) sampleBegun).1 =
        .ok ({ fullSizeBytes := some 1, actualDownloadedBytes := some 1 }, sampleSource) ∧
      (exec (checkSource sampleCrates sampleServedEnv sampleSource (sampleBlake3 [2]))
        sampleObtained).1 = .ok () ∧
      (exec (verifySignature sampleCrates sampleServedEnv (sampleBinaryAt "1.0.0")
        (sampleUpdate (.new 1 1 0) [2]) sampleSource)
          (exec (checkSource sampleCrates sampleServedEnv sampleSource (sampleBlake3 [2]))
            sampleObtained).2).1 = .ok sampleSig2 ∧
      sampleRenamed.file "/opt/app" = some [2] ∧
      sampleRenamed.file "/opt/app.sig" = some sampleSig1.val := by decide +kernel
  obtain ⟨hdir, hhash, hobtain, hcheck, hverify, hfile, hsidecar⟩ := hsteps
  refine ⟨hfile, hsidecar, ?_⟩
  have hobtain : exec (Stepwise.obtainBinary sampleCrates sampleServedEnv (sampleBinaryAt "1.0.0")
      (sampleUpdate (.new 1 1 0) [2])).run sampleBegun =
      (.ok ({ fullSizeBytes := some 1, actualDownloadedBytes := some 1 }, sampleSource),
        sampleObtained) := by
    rw [Stepwise.run_obtainBinary]
    exact exec_of_fst hobtain
  have hinstall : (Stepwise.installBinary sampleServedEnv (sampleBinaryAt "1.0.0")
      sampleSource).Passes sampleVerified sampleRenamed := by
    unfold sampleRenamed
    rw [← Stepwise.run_installBinary]
    exact passes_exec _ _
  have hpass : (Stepwise.executeUpdate sampleCrates sampleServedEnv (sampleBinaryAt "1.0.0")
      (sampleUpdate (.new 1 1 0) [2])).Passes sampleWorld1 sampleRenamed :=
    passes_bind (exec_of_fst hdir) (passes_bind hhash (passes_bind hobtain
      (passes_bind (exec_of_fst hcheck) (passes_bind (exec_of_fst hverify) (.inl hinstall)))))
  exact executeUpdate_killed sampleCrates sampleServedEnv (sampleBinaryAt "1.0.0")
    (sampleUpdate (.new 1 1 0) [2]) sampleWorld1 _ sampleSecond_apart
    (tempApart_longName (fun _ => rfl) (by decide))
    (tempApart_longName (fun _ => rfl) (by decide)) hpass

end Deltaship
