import Deltaship.Server.Artifacts

/-!
# Deltaship.Server.Stages

The operations of the storage, step by step: what each of them leaves, and under which
failures of the host it leaves less.
-/

namespace Deltaship

open Prog

/-! ## frames -/

/-- Nothing but directories and temporary files differs. -/
def Staging (s s' : Store) : Prop := s'.toArtifacts = s.toArtifacts

instance : IsPreorder Store Staging where
  refl _ := rfl
  trans _ _ _ h h' := h'.trans h

/-- Where nothing was done, there was no staging. -/
theorem Staging.refl (s : Store) : Staging s s := rfl

theorem Staging.trans {s s' s'' : Store} (h : Staging s s') (h' : Staging s' s'') :
    Staging s s'' := Eq.trans h' h

/-- Nothing but directories and the temporary files of JSON files differs. -/
structure Dressing (s s' : Store) : Prop where
  artifacts : s'.toArtifacts = s.toArtifacts
  uploads : s'.uploads = s.uploads

/-- Where nothing was done, the files are the same. -/
theorem Dressing.refl (s : Store) : Dressing s s := ⟨rfl, rfl⟩

/-- What changes no file in two steps changes none. -/
theorem Dressing.trans {s s' s'' : Store} (h : Dressing s s') (h' : Dressing s' s'') :
    Dressing s s'' :=
  ⟨h'.artifacts.trans h.artifacts, h'.uploads.trans h.uploads⟩

/-! ## operations of the host -/

section Host

variable {e : ServerEnv} {s : Store} {site : ServerSite} {E : StorageError → Store → Prop}

/-- A call fails exactly if the host has a fault for it. -/
theorem wp_tryIo_cases {Q : Unit → Store → Prop} (hok : e.faults site = none → Q () s)
    (hfail : e.faults site ≠ none → E .io s) : wp (tryIo e site) Q E s := by
  unfold tryIo
  split
  · next h => exact hok h
  · next h => exact hfail (by simp [h])

/-- So does making directories, and no file is changed. -/
theorem wp_createDirs_cases {Q : Unit → Store → Prop} {dir : Dir}
    (hok : e.faults site = none → ∀ s', Dressing s s' → Q () s')
    (hfail : e.faults site ≠ none → ∀ s', Dressing s s' → E .io s') :
    wp (createDirs e site dir) Q E s := by
  unfold createDirs
  split
  · next h => exact hok h _ ⟨rfl, rfl⟩
  · next h => exact hfail (by simp [h]) _ ⟨rfl, rfl⟩

/-- So does writing a temporary file, and no other is changed. -/
theorem wp_writeTemp_cases {Q : Unit → Store → Prop} {op : JsonOp → ServerSite} {file : JsonFile}
    {value : JsonValue} (hok : e.faults (op .write) = none → ∀ s', Dressing s s' → Q () s')
    (hfail : e.faults (op .write) ≠ none → ∀ s', Dressing s s' → E .io s') :
    wp (writeTemp e op file value) Q E s := by
  unfold writeTemp
  split
  · next h => exact hok h _ ⟨rfl, rfl⟩
  · next h => exact hfail (by simp [h]) _ ⟨rfl, rfl⟩

/-- A check without effects. -/
theorem wp_check_cases {ε α : Type} {r : Except ε α} {Q : α → Store → Prop}
    {E : ε → Store → Prop} (hok : ∀ a, r = .ok a → Q a s)
    (hfail : ∀ err, r = .error err → E err s) :
    wp (Prog.ofExcept r : Prog Store ε α) Q E s := by
  cases r with
  | ok a => exact hok a rfl
  | error err => exact hfail err rfl

/-! ### either outcome -/

/-- A call succeeds, or fails without a change. -/
theorem wp_tryIo {Q : Unit → Store → Prop} (hok : e.faults site = none → Q () s)
    (hfail : E .io s) : wp (tryIo e site) Q E s :=
  wp_tryIo_cases hok fun _ => hfail

/-- Making directories changes no file, however it ends. -/
theorem wp_createDirs {Q : Unit → Store → Prop} {dir : Dir}
    (hok : ∀ s', Dressing s s' → Q () s') (hfail : ∀ s', Dressing s s' → E .io s') :
    wp (createDirs e site dir) Q E s :=
  wp_createDirs_cases (fun _ => hok) fun _ => hfail

/-- Writing a temporary file changes no other, however it ends. -/
theorem wp_writeTemp {Q : Unit → Store → Prop} {op : JsonOp → ServerSite} {file : JsonFile}
    {value : JsonValue} (hok : ∀ s', Dressing s s' → Q () s')
    (hfail : ∀ s', Dressing s s' → E .io s') : wp (writeTemp e op file value) Q E s :=
  wp_writeTemp_cases (fun _ => hok) fun _ => hfail

/-- A result that is known is passed on, or its error. -/
theorem wp_check {ε α : Type} {r : Except ε α} {Q : α → Store → Prop} {E : ε → Store → Prop}
    (hok : ∀ a, r = .ok a → Q a s) (hfail : ∀ err, E err s) :
    wp (Prog.ofExcept r : Prog Store ε α) Q E s :=
  wp_check_cases hok fun err _ => hfail err

end Host

/-! ## operations of the storage -/

/- A failing operation is described as precisely as one that succeeds. The point in question is
always the same: up to the rename, or up to the opening for a signature, the published file is as
before, and behind it the file is the new one, or the front of it. -/

/-- Open a file, which is created if it is missing. -/
def openOrCreate {π κ : Type} [DecidableEq π] (f : Files π (Option κ)) (p : π) :
    Files π (Option κ) :=
  if (f.read p).isSome then f else f.write p none

section Opening

variable {π κ : Type} [DecidableEq π] {f : Files π (Option κ)} {q : π}

/-- A file that is only opened is read as before. -/
theorem join_read_openOrCreate (k : π) :
    ((openOrCreate f q).read k).join = (f.read k).join := by
  unfold openOrCreate
  split
  · rfl
  · next hnone =>
      by_cases hk : k = q
      · rw [hk, Files.read_write_self, Option.not_isSome_iff_eq_none.mp hnone]
        rfl
      · rw [f.read_write_ne none hk]

/-- What is written then replaces the file that opening has made. -/
theorem write_openOrCreate {x : Option κ} : (openOrCreate f q).write q x = f.write q x := by
  unfold openOrCreate
  split
  · rfl
  · exact Files.write_write _ _ _ _

/-- Opening changes nothing exactly if the file was there. -/
theorem read_openOrCreate_eq_iff :
    (∀ k, (openOrCreate f q).read k = f.read k) ↔ (f.read q).isSome = true := by
  unfold openOrCreate
  split
  · next hsome => simp [hsome]
  · next hnone =>
      rw [Files.read_write_eq_iff]
      simp [Option.not_isSome_iff_eq_none.mp hnone]

end Opening

section Sites

variable (e : ServerEnv)

/-- The temporary file is moved to its place. -/
def Saves : Prop := e.faults (.versionDir 1) = none ∧ e.faults .saveBinary = none

/-- The temporary file of a diff is moved to its place. -/
def SavesDiff : Prop := e.faults (.diffsDir 1) = none ∧ e.faults .saveDiff = none

/-- The signature is written, at least in part. -/
def SignatureOpened : Prop := e.faults (.versionDir 2) = none ∧ e.faults .openSignature = none

/-- What is written of a signature. -/
def writtenSignature (data : Bytes) : Bytes :=
  match e.faults .saveSignature with
  | none => data
  | some n => data.take n

instance : Decidable (Saves e) := inferInstanceAs (Decidable (_ ∧ _))

instance : Decidable (SavesDiff e) := inferInstanceAs (Decidable (_ ∧ _))

instance : Decidable (SignatureOpened e) := inferInstanceAs (Decidable (_ ∧ _))

end Sites

section Storage

variable {S : SemverCrate} {e : ServerEnv} {s : Store} {p : VersionPath} {Q : Unit → Store → Prop}
  {E : StorageError → Store → Prop}

/-- The binary is what the upload held, or a fault kept it from its place. -/
theorem wp_saveBinaryFromTemp {platform : Platform} {temp : UploadPath} {b : Bytes}
    (htemp : s.uploads.read temp = some b)
    (hok : Saves e → ∀ s', s'.toArtifacts =
      { s.toArtifacts with binaries := s.binaries.write (p, platform) b } →
      s'.uploads = s.uploads.remove temp → Q () s')
    (hfail : ¬ Saves e → ∀ s', Dressing s s' → E .io s') :
    wp (saveBinaryFromTemp e p platform temp) Q E s := by
  unfold saveBinaryFromTemp ensureVersionDir
  rw [wp_bind]
  refine wp_createDirs_cases (fun hdir s₁ h₁ => ?_) fun hdir s₁ h₁ =>
    hfail (fun h => hdir h.1) s₁ h₁
  rw [wp_bind]
  refine wp_tryIo_cases (fun hsave => ?_) fun hsave => hfail (fun h => hsave h.2) s₁ h₁
  rw [wp_bind, wp_get, h₁.uploads, htemp]
  exact hok ⟨hdir, hsave⟩ _ (by simp only [h₁.artifacts]) (by simp only [h₁.uploads])

/-- A signature that is not opened is as it was; one that is opened holds what was written. -/
theorem wp_saveSignature {data : Bytes}
    (hok : SignatureOpened e → e.faults .saveSignature = none → ∀ s', s'.toArtifacts =
      { s.toArtifacts with signatures := s.signatures.write p data } →
      s'.uploads = s.uploads → Q () s')
    (hpart : SignatureOpened e → e.faults .saveSignature ≠ none → ∀ s', s'.toArtifacts =
      { s.toArtifacts with signatures := s.signatures.write p (writtenSignature e data) } →
      s'.uploads = s.uploads → E .io s')
    (hfail : ¬ SignatureOpened e → ∀ s', Dressing s s' → E .io s') :
    wp (saveSignature e p data) Q E s := by
  unfold saveSignature ensureVersionDir
  rw [wp_bind]
  refine wp_createDirs_cases (fun hdir s₁ h₁ => ?_) fun hdir s₁ h₁ =>
    hfail (fun h => hdir h.1) s₁ h₁
  rw [wp_bind]
  refine wp_tryIo_cases (fun hopen => ?_) fun hopen => hfail (fun h => hopen h.2) s₁ h₁
  split
  · next hsave =>
      exact hok ⟨hdir, hopen⟩ hsave _ (by simp only [h₁.artifacts]) h₁.uploads
  · next n hsave =>
      rw [wp_bind, wp_modify, wp_throw]
      exact hpart ⟨hdir, hopen⟩ (by simp [hsave]) _
        (by simp only [h₁.artifacts, writtenSignature, hsave]) h₁.uploads

/-- A manifest that is not replaced is as it was. -/
theorem wp_replaceManifest {manifest : VersionManifest}
    (hok : e.faults (.manifest .write) = none ∧ e.faults (.manifest .rename) = none →
      ∀ s', s'.toArtifacts =
        { s.toArtifacts with
          manifests := s.manifests.write p (some (manifest.inOrder e.mapOrder)) } →
        s'.uploads = s.uploads → Q () s')
    (hfail : ¬ (e.faults (.manifest .write) = none ∧ e.faults (.manifest .rename) = none) →
      ∀ s', Dressing s s' → E .io s') : wp (replaceManifest e p manifest) Q E s := by
  unfold replaceManifest
  rw [wp_bind]
  refine wp_writeTemp_cases (fun hwrite s₁ h₁ => ?_) fun hwrite s₁ h₁ =>
    hfail (fun h => hwrite h.1) s₁ h₁
  rw [wp_bind]
  refine wp_tryIo_cases (fun hrename => ?_) fun hrename => hfail (fun h => hrename h.2) s₁ h₁
  exact hok ⟨hwrite, hrename⟩ _ (by simp only [h₁.artifacts]) h₁.uploads

/-- The manifest has the new artifact; a fault leaves it as it was, or empty if it was missing. -/
theorem wp_updateManifest {platform : Platform} {checksum : String} {size : Nat}
    {version : Version} (hparse : S.parse p.version = some version)
    (hok : (e.faults (.versionDir 3) = none ∧ e.faults (.manifest .open) = none) →
      (e.faults (.manifest .lock) = none ∧ e.faults (.manifest .write) = none ∧
        e.faults (.manifest .rename) = none) → ∀ s', s'.toArtifacts =
      { s.toArtifacts with
        manifests := s.manifests.write p
          (some ((publishManifest version platform ⟨checksum, size, []⟩
            (if !(e.faults (.manifest .read)).isSome then s.getVersionManifest p
              else none)).inOrder e.mapOrder)) } →
      s'.uploads = s.uploads → Q () s')
    (hopen : (e.faults (.versionDir 3) = none ∧ e.faults (.manifest .open) = none) →
      ¬ (e.faults (.manifest .lock) = none ∧ e.faults (.manifest .write) = none ∧
        e.faults (.manifest .rename) = none) → ∀ s', s'.toArtifacts =
      { s.toArtifacts with manifests := openOrCreate s.manifests p } →
      s'.uploads = s.uploads → E .io s')
    (hfail : ¬ (e.faults (.versionDir 3) = none ∧ e.faults (.manifest .open) = none) →
      ∀ s', Dressing s s' → E .io s') :
    wp (updateManifest S e p platform checksum size) Q E s := by
  unfold updateManifest ensureVersionDir
  rw [wp_bind]
  refine wp_createDirs_cases (fun hdir s₁ h₁ => ?_) fun hdir s₁ h₁ =>
    hfail (fun h => hdir h.1) s₁ h₁
  rw [wp_bind]
  refine wp_tryIo_cases (fun hfile => ?_) fun hfile => hfail (fun h => hfile h.2) s₁ h₁
  rw [wp_bind, wp_modify, wp_bind]
  -- the file that is created for the lock holds no manifest
  generalize hs₂ : ({ s₁ with
    manifests := if (s₁.manifests.read p).isSome then s₁.manifests
      else s₁.manifests.write p none } : Store) = s₂
  have hopened : s₂.toArtifacts =
      { s.toArtifacts with manifests := openOrCreate s.manifests p } := by
    rw [← hs₂, ← h₁.artifacts]
    rfl
  have huploads : s₂.uploads = s.uploads := by
    rw [← hs₂]
    exact h₁.uploads
  refine wp_tryIo_cases (fun hlock => ?_) fun hlock =>
    hopen ⟨hdir, hfile⟩ (fun h => hlock h.1) s₂ hopened huploads
  rw [wp_bind, wp_get, hparse]
  have hread : s₂.getVersionManifest p = s.getVersionManifest p := by
    rw [hopened]
    exact join_read_openOrCreate p
  rw [hread]
  dsimp only
  generalize hcurrent : (if (e.faults (.manifest .read)).isSome = true then none
    else s.getVersionManifest p) = current
  have hif : (if !(e.faults (.manifest .read)).isSome then s.getVersionManifest p else none) =
      current := by
    rw [← hcurrent]
    cases (e.faults (.manifest .read)).isSome <;> rfl
  rw [hif] at hok
  have hreplaced : ∀ manifest,
      manifest = publishManifest version platform ⟨checksum, size, []⟩ current →
      wp (replaceManifest e p manifest) Q E s₂ := by
    intro manifest heq
    refine wp_replaceManifest (fun hsites s' h' hu => ?_) fun hsites s' h' => ?_
    · refine hok ⟨hdir, hfile⟩ ⟨hlock, hsites⟩ s' ?_ (hu.trans huploads)
      rw [h', hopened, heq]
      simp only [write_openOrCreate]
    · exact hopen ⟨hdir, hfile⟩ (fun h => hsites h.2) s' (h'.artifacts.trans hopened)
        (h'.uploads.trans huploads)
  cases current with
  | some manifest => exact hreplaced _ rfl
  | none => exact hreplaced _ rfl

/-- A catalog that is not replaced is as it was. -/
theorem wp_replaceCatalog {appName : String} {catalog : AppCatalog}
    (hok : ∀ s', s'.toArtifacts = s.toArtifacts.setCatalog appName catalog → Q () s')
    (hfail : ∀ s', Dressing s s' → E .io s') : wp (replaceCatalog e appName catalog) Q E s := by
  unfold replaceCatalog
  rw [wp_bind]
  refine wp_writeTemp (fun s₁ h₁ => ?_) fun s₁ h₁ => hfail s₁ h₁
  rw [wp_bind]
  refine wp_tryIo (fun _ => ?_) (hfail s₁ h₁)
  exact hok _ (by simp only [Artifacts.setCatalog, h₁.artifacts])

/-- An update of the catalog that fails has replaced nothing. -/
theorem wp_updateCatalogAtomic {appName : String} {info : VersionInfo}
    (hok : ∀ s', s'.toArtifacts = s.toArtifacts.setCatalog appName
      (publishCatalog S appName info
        (if !(e.faults (.catalog .read)).isSome then s.getAppCatalog appName else none)) → Q () s')
    (hopen : (e.faults .appVersionsDir = none ∧ e.faults .appDiffsDir = none ∧
      e.faults (.catalog .open) = none) → ∀ s', s'.toArtifacts =
      { s.toArtifacts with catalogs := openOrCreate s.catalogs appName } →
      s'.uploads = s.uploads → E .io s')
    (hfail : ¬ (e.faults .appVersionsDir = none ∧ e.faults .appDiffsDir = none ∧
      e.faults (.catalog .open) = none) → ∀ s', Dressing s s' → E .io s') :
    wp (updateCatalogAtomic S e appName info) Q E s := by
  unfold updateCatalogAtomic ensureAppDirs openCatalog
  simp only [wp_bind]
  refine wp_createDirs_cases (fun hversions s₁ h₁ => ?_) fun hversions s₁ h₁ =>
    hfail (fun h => hversions h.1) s₁ h₁
  refine wp_createDirs_cases (fun hdiffs s₂ h₂ => ?_) fun hdiffs s₂ h₂ =>
    hfail (fun h => hdiffs h.2.1) s₂ (h₁.trans h₂)
  have h₂ : Dressing s s₂ := h₁.trans h₂
  refine wp_tryIo_cases (fun hfile => ?_) fun hfile => hfail (fun h => hfile h.2.2) s₂ h₂
  rw [wp_modify]
  generalize hs₃ : ({ s₂ with
    catalogs := if (s₂.catalogs.read appName).isSome then s₂.catalogs
      else s₂.catalogs.write appName none } : Store) = s₃
  have h₃ : s₃.toArtifacts =
      { s.toArtifacts with catalogs := openOrCreate s.catalogs appName } := by
    rw [← hs₃, ← h₂.artifacts]
    rfl
  have hopened : ∀ s', Dressing s₃ s' → E .io s' := by
    intro s' h'
    refine hopen ⟨hversions, hdiffs, hfile⟩ s' (h'.artifacts.trans h₃) ?_
    rw [h'.uploads, ← hs₃]
    exact h₂.uploads
  refine wp_tryIo (fun _ => ?_) (hopened s₃ ⟨rfl, rfl⟩)
  rw [wp_get]
  have hread : s₃.getAppCatalog appName = s.getAppCatalog appName := by
    rw [h₃]
    exact join_read_openOrCreate appName
  refine wp_replaceCatalog (fun s' h' => hok s' ?_) hopened
  rw [h', hread, h₃]
  simp only [Artifacts.setCatalog, write_openOrCreate]
  cases (e.faults (.catalog .read)).isSome <;> rfl

/-- The diff is what the upload held, or a fault kept it from its place. -/
theorem wp_saveDiffFromTemp {appName fromVersion toVersion : String} {platform : Platform}
    {temp : UploadPath} {b : Bytes} (htemp : s.uploads.read temp = some b)
    (hok : SavesDiff e → ∀ s', s'.toArtifacts =
      { s.toArtifacts with
        diffs := s.diffs.write (appName, diffFileName fromVersion toVersion platform) b } →
      s'.uploads = s.uploads.remove temp → Q () s')
    (hfail : ¬ SavesDiff e → ∀ s', Dressing s s' → E .io s') :
    wp (saveDiffFromTemp e appName fromVersion toVersion platform temp) Q E s := by
  unfold saveDiffFromTemp ensureDiffsDir
  rw [wp_bind]
  refine wp_createDirs_cases (fun hdir s₁ h₁ => ?_) fun hdir s₁ h₁ =>
    hfail (fun h => hdir h.1) s₁ h₁
  rw [wp_bind]
  refine wp_tryIo_cases (fun hsave => ?_) fun hsave => hfail (fun h => hsave h.2) s₁ h₁
  rw [wp_bind, wp_get, h₁.uploads, htemp]
  exact hok ⟨hdir, hsave⟩ _ (by simp only [h₁.artifacts]) (by simp only [h₁.uploads])

/-- The manifest has the diff, or is what it was. -/
theorem wp_addDiffToManifest {platform : Platform} {diff : DiffInfo}
    (hok : ∀ manifest artifact s', s.getVersionManifest p = some manifest →
      manifest.platforms.read platform = some artifact →
      s'.toArtifacts =
        { s.toArtifacts with
          manifests := s.manifests.write p
            (some (({ manifest with
              platforms := manifest.platforms.write platform
                { artifact with diffsFrom := mergeDiff diff artifact.diffsFrom } } :
                  VersionManifest).inOrder e.mapOrder)) } → Q () s')
    (hfail : ∀ err s', Dressing s s' → E err s') :
    wp (addDiffToManifest e p platform diff) Q E s := by
  have hfail' : ∀ err, E err s := fun err => hfail err s (.refl s)
  unfold addDiffToManifest
  rw [wp_bind, wp_get]
  split
  · exact hfail' _
  · simp only [wp_bind]
    refine wp_tryIo (fun _ => wp_tryIo (fun _ => wp_tryIo (fun _ => ?_) (hfail' _)) (hfail' _))
      (hfail' _)
    rw [wp_get]
    split
    · exact hfail' _
    · next manifest hmanifest =>
        split
        · exact hfail' _
        · next artifact hartifact =>
            exact wp_replaceManifest
              (fun _ s' h _ => hok manifest artifact s' hmanifest hartifact h)
              fun _ s' h => hfail _ s' h

end Storage

end Deltaship
