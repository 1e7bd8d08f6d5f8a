import Deltaship.Server.Uploads

/-!
# Deltaship.Server.Traces

What a publication or a diff upload leaves behind when it fails.

The temporary file of a field is removed where the streaming of this field fails, and
behind the reading of the form.  In between, a form that cannot be read to its end leaves
the files of the fields before; and only the last file of a name is known behind it.
A request that fails behind `save_binary` or `save_diff` takes nothing back.
-/

namespace Deltaship

open Prog

/-! ## the form of a publication -/

section PublishForm

variable (X : ServerCrates) (e : ServerEnv) (p : VersionPath)

/-- A field of a publish form can be read. -/
def readsPublish (k : Nat) (field : Field) : Bool :=
  match field.name with
  | "binary" => decide (Streams e k maxBinaryFieldSize field)
  | "platform" => (readFieldTextLimited field maxTextFieldSize).toBool
  | "signature" =>
      ((readFieldTextLimited field maxSignatureFieldSize).toOption.bind (decodeSignature X)).isSome
  | "checksum" => (readFieldTextLimited field maxTextFieldSize).toBool
  | "release_notes" => (readFieldTextLimited field maxTextFieldSize).toBool
  | _ => true

/-- What a field adds to a publish form. -/
def addPublish (k : Nat) (field : Field) (acc : PublishForm) : PublishForm :=
  match field.name with
  | "binary" =>
      { acc with binary := some ⟨uploadPath e (.version p) k field, X.crypto.blake3 field.content,
          field.content.length⟩ }
  | "platform" => { acc with platform := field.text }
  | "signature" => { acc with signature := field.text.bind (decodeSignature X) }
  | "checksum" => { acc with checksum := field.text }
  | "release_notes" =>
      if field.text = some "" then acc else { acc with releaseNotes := field.text }
  | _ => acc

variable {X e p}

/-- A field whose text is read. -/
theorem wp_readText {α : Type} {maxSize : Nat} {field : Field} {s : Store}
    (add : Option String → α) {f : String → α} (hf : ∀ text, f text = add (some text)) :
    wp (Prog.ofExcept (readFieldTextLimited field maxSize) >>= fun text => pure (f text))
      (fun a s' => (readFieldTextLimited field maxSize).toBool = true ∧ a = add field.text ∧ s' = s)
      (fun _ s' => (readFieldTextLimited field maxSize).toBool = false ∧ s' = s) s := by
  rw [wp_bind]
  refine wp_check_cases (fun text hread => wp_pure.mpr ⟨?_, ?_, rfl⟩) fun err hread => ⟨?_, rfl⟩
  · rw [hread]
    rfl
  · rw [hf, text_of_readFieldTextLimited hread]
  · rw [hread]
    rfl

/-- A field of a publish form is read or refused, and the binary is streamed. -/
theorem readsField_collectPublish :
    ReadsField e (.version p) "binary" (readsPublish X e) (addPublish X e p)
      (collectPublish X e p) := by
  intro k field acc s
  have hsame : Uploaded ∅ ∅ s s := Dressing.uploaded ⟨rfl, rfl⟩
  unfold collectPublish readsPublish addPublish
  split
  · next hname =>
      simp only [hname, wp_bind]
      refine wp_mono (fun streamed s' h => ?_) (fun _ s' h => ?_) wp_streamFieldToTemp_uploads
      · obtain ⟨hstreams, rfl, huploads⟩ := h
        exact ⟨decide_eq_true hstreams, rfl, by simpa using huploads⟩
      · exact ⟨decide_eq_false h.1, by simpa [and_assoc, and_left_comm] using h.2⟩
  · next hname =>
      simp only [hname]
      refine wp_mono (fun a s' h => ⟨h.1, h.2.1, ?_⟩) (fun _ s' h => ⟨h.1, ?_⟩)
        (wp_readText (fun text => { acc with platform := text }) fun _ => rfl)
      · simpa [h.2.2] using hsame
      · simpa [h.2] using hsame
  · next hname =>
      simp only [hname, wp_bind]
      refine wp_check_cases (fun text hread => ?_) fun err hread => ⟨by rw [hread]; rfl, ?_⟩
      · rw [hread, text_of_readFieldTextLimited hread]
        simp only [Except.toOption, Option.bind_some]
        cases decodeSignature X text with
        | none => exact ⟨rfl, by simpa using hsame⟩
        | some data => exact ⟨rfl, rfl, by simpa using hsame⟩
      · simpa using hsame
  · next hname =>
      simp only [hname]
      refine wp_mono (fun a s' h => ⟨h.1, h.2.1, ?_⟩) (fun _ s' h => ⟨h.1, ?_⟩)
        (wp_readText (fun text => { acc with checksum := text }) fun _ => rfl)
      · simpa [h.2.2] using hsame
      · simpa [h.2] using hsame
  · next hname =>
      simp only [hname]
      refine wp_mono (fun a s' h => ⟨h.1, h.2.1, ?_⟩) (fun _ s' h => ⟨h.1, ?_⟩)
        (wp_readText (fun text => if text = some "" then acc else { acc with releaseNotes := text })
          fun text => ?_)
      · simpa [h.2.2] using hsame
      · simpa [h.2] using hsame
      · simp
  · next hbinary hplatform hsignature hchecksum hnotes =>
      have hne : field.name ≠ "binary" := hbinary
      exact ⟨by simp, by simp, by simpa [hne] using hsame⟩

end PublishForm

/-! ## what a publication has stored when it fails -/

/- A publication stores in a fixed sequence: the binary, the signature, the manifest, the catalog.
Wherever it stops, the store has the front of this sequence, and the lemma for each stage says what
the front is there. -/

section Stages

variable (e : ServerEnv)

/-- The manifest is opened behind the signature. -/
def ManifestOpened : Prop :=
  SignatureOpened e ∧ e.faults .saveSignature = none ∧ e.faults (.versionDir 3) = none ∧
    e.faults (.manifest .open) = none

/-- The manifest is replaced. -/
def ManifestReplaced : Prop :=
  ManifestOpened e ∧ e.faults (.manifest .lock) = none ∧ e.faults (.manifest .write) = none ∧
    e.faults (.manifest .rename) = none

/-- The catalog is opened behind the manifest. -/
def CatalogOpened : Prop :=
  ManifestReplaced e ∧ e.faults .appVersionsDir = none ∧ e.faults .appDiffsDir = none ∧
    e.faults (.catalog .open) = none

instance : Decidable (ManifestOpened e) := inferInstanceAs (Decidable (_ ∧ _))

instance : Decidable (ManifestReplaced e) := inferInstanceAs (Decidable (_ ∧ _))

instance : Decidable (CatalogOpened e) := inferInstanceAs (Decidable (_ ∧ _))

/-- The files behind a publication that failed after its binary was saved. -/
def partlyPublished (p : VersionPath) (r : Release) (a : Artifacts) : Artifacts :=
  { a with
    binaries := a.binaries.write (p, r.platform) r.binary
    signatures := if SignatureOpened e then
        a.signatures.write p (writtenSignature e r.signature.val)
      else a.signatures
    manifests := if ManifestReplaced e then
        a.manifests.write p (some ((publishManifest r.version r.platform r.artifact
          (if !(e.faults (.manifest .read)).isSome then a.getVersionManifest p
            else none)).inOrder e.mapOrder))
      else if ManifestOpened e then openOrCreate a.manifests p
      else a.manifests
    catalogs := if CatalogOpened e then openOrCreate a.catalogs p.appName else a.catalogs }

variable {e} {S : SemverCrate} {s : Store} {p : VersionPath} {Q : Unit → Store → Prop}
  {E : StorageError → Store → Prop}

/-- A publication that fails in its last part has moved its temporary file or tried to remove
it, and leaves what it has stored; one that succeeds has moved it. -/
theorem wp_storePublish_partly {X : ServerCrates} {streamed : StreamedField} {r : Release}
    (hparse : X.semver.parse p.version = some r.version)
    (htemp : s.uploads.read streamed.tempPath = some r.binary)
    (hsize : streamed.size = r.binary.length) :
    wp (storePublish X e p r.version streamed ⟨r.platform, r.signature, r.checksum⟩ r.releaseNotes)
      (fun _ _ => Saves e)
      (fun _ s' => (¬ Saves e ∧ Uploaded ∅ {t | Cleans e ∧ t = streamed.tempPath} s s') ∨
        (Saves e ∧ s'.toArtifacts = partlyPublished e p r s.toArtifacts ∧
          s'.uploads = s.uploads.remove streamed.tempPath)) s := by
  unfold storePublish
  rw [wp_bind, wp_attempt, wp_adapt]
  refine wp_saveBinaryFromTemp htemp (fun hsaves s₁ h₁ hu₁ => ?_) fun hsaves s₁ h₁ => ?_
  · rw [wp_adapt, wp_bind]
    have hleaf : ∀ {s'}, s'.toArtifacts = partlyPublished e p r s.toArtifacts →
        s'.uploads = s₁.uploads → (¬ Saves e ∧ Uploaded ∅
            {t | Cleans e ∧ t = streamed.tempPath} s s') ∨
        (Saves e ∧ s'.toArtifacts = partlyPublished e p r s.toArtifacts ∧
          s'.uploads = s.uploads.remove streamed.tempPath) := fun h hu =>
      .inr ⟨hsaves, h, hu.trans hu₁⟩
    refine wp_saveSignature (fun hopened hwritten s₂ h₂ hu₂ => ?_)
      (fun hopened hwritten s₂ h₂ hu₂ => hleaf ?_ hu₂) fun hopened s₂ h₂ => hleaf ?_ h₂.uploads
    · rw [wp_bind]
      have hsig : writtenSignature e r.signature.val = r.signature.val := by
        simp [writtenSignature, hwritten]
      refine wp_updateManifest hparse (fun hfile hsites s₃ h₃ hu₃ => ?_)
        (fun hfile hsites s₃ h₃ hu₃ => hleaf ?_ (hu₃.trans hu₂))
        fun hfile s₃ h₃ => hleaf ?_ (h₃.uploads.trans hu₂)
      · have hreplaced : ManifestReplaced e := ⟨⟨hopened, hwritten, hfile⟩, hsites⟩
        refine wp_updateCatalogAtomic (fun _ _ => hsaves)
          (fun hcatalog s₄ h₄ hu₄ => hleaf ?_ ?_) fun hcatalog s₄ h₄ => hleaf ?_ ?_
        · have hc : CatalogOpened e := ⟨hreplaced, hcatalog⟩
          rw [h₄, h₃, h₂, h₁, hsize]
          simp only [partlyPublished, if_pos hopened, if_pos hreplaced, if_pos hc, hsig]
          rfl
        · exact (hu₄.trans hu₃).trans hu₂
        · have hc : ¬ CatalogOpened e := fun h => hcatalog h.2
          rw [h₄.artifacts, h₃, h₂, h₁, hsize]
          simp only [partlyPublished, if_pos hopened, if_pos hreplaced, if_neg hc, hsig]
          rfl
        · exact (h₄.uploads.trans hu₃).trans hu₂
      · have hm : ManifestOpened e := ⟨hopened, hwritten, hfile⟩
        have hr : ¬ ManifestReplaced e := fun h => hsites h.2
        have hc : ¬ CatalogOpened e := fun h => hr h.1
        rw [h₃, h₂, h₁]
        simp only [partlyPublished, if_pos hopened, if_pos hm, if_neg hr, if_neg hc, hsig]
      · have hm : ¬ ManifestOpened e := fun h => hfile h.2.2
        have hr : ¬ ManifestReplaced e := fun h => hm h.1
        have hc : ¬ CatalogOpened e := fun h => hr h.1
        rw [h₃.artifacts, h₂, h₁]
        simp only [partlyPublished, if_pos hopened, if_neg hm, if_neg hr, if_neg hc, hsig]
    · have hm : ¬ ManifestOpened e := fun h => hwritten h.2.1
      have hr : ¬ ManifestReplaced e := fun h => hm h.1
      have hc : ¬ CatalogOpened e := fun h => hr h.1
      rw [h₂, h₁]
      simp only [partlyPublished, if_pos hopened, if_neg hm, if_neg hr, if_neg hc]
    · have hm : ¬ ManifestOpened e := fun h => hopened h.1
      have hr : ¬ ManifestReplaced e := fun h => hm h.1
      have hc : ¬ CatalogOpened e := fun h => hr h.1
      rw [h₂.artifacts, h₁]
      simp only [partlyPublished, if_neg hopened, if_neg hm, if_neg hr, if_neg hc]
  · refine wp_mono (fun _ _ h => h) (fun _ s' h => .inl ⟨hsaves, ?_⟩) wp_bail_uploads
    exact .of_dressing h₁ h

end Stages

/-! ## a failed publication -/

/- What a failing publication leaves is compared byte by byte. A manifest is written out of a map
whose order is not fixed, so that even a release that adds nothing may put its platforms into
another order; the environment of a request says which order that is. -/

/-- A manifest as it is read. -/
def VersionManifest.view (m : VersionManifest) : Version × (Platform → Option PlatformArtifact) :=
  (m.version, m.platforms.read)

/-- The binaries, signatures, manifests and catalogs are byte for byte the same; a manifest
is written as its version and its platforms in their order. -/
structure KeptPublished (a a' : Artifacts) : Prop where
  binaries : ∀ k, a'.binaries.read k = a.binaries.read k
  signatures : ∀ p, a'.signatures.read p = a.signatures.read p
  manifests : ∀ p, a'.manifests.read p = a.manifests.read p
  catalogs : ∀ appName, a'.catalogs.read appName = a.catalogs.read appName

/-- The manifest has exactly what a release would put into it; one that cannot be read is
replaced by a manifest of this release only. -/
def ManifestSettled (reads : Bool) (p : VersionPath) (r : Release) (a : Artifacts) : Prop :=
  ∃ m, a.getVersionManifest p = some m ∧ m.platforms.read r.platform = some r.artifact ∧
    (reads = false → m.version = r.version ∧ ∀ q, q ≠ r.platform → m.platforms.read q = none)

/-- What a failing publication has stored was there before. -/
structure AlreadyStored (e : ServerEnv) (p : VersionPath) (r : Release) (a : Artifacts) : Prop where
  binary : a.binaries.read (p, r.platform) = some r.binary
  signature : SignatureOpened e →
    a.signatures.read p = some (writtenSignature e r.signature.val)
  manifest : ManifestOpened e → (a.manifests.read p).isSome = true
  entry : ManifestReplaced e → ManifestSettled (!(e.faults (.manifest .read)).isSome) p r a
  order : ManifestReplaced e → ∀ m, a.getVersionManifest p = some m → m.inOrder e.mapOrder = m
  catalog : CatalogOpened e → (a.catalogs.read p.appName).isSome = true

section Same

variable {π κ : Type} [DecidableEq π] {e : ServerEnv} {p : VersionPath} {r : Release}
  {a : Artifacts}

/-- Where nothing was done, everything published is kept. -/
theorem KeptPublished.refl (a : Artifacts) : KeptPublished a a :=
  ⟨fun _ => rfl, fun _ => rfl, fun _ => rfl, fun _ => rfl⟩

/-- The order in which it is written does not matter to who reads a manifest. -/
theorem view_inOrder (m : VersionManifest) (o : MapOrder) : (m.inOrder o).view = m.view :=
  Prod.ext rfl (funext fun platform => m.read_inOrder o platform)

/-- A manifest that is replaced by the one of a release reads the same. -/
theorem view_publishManifest_eq_iff {reads : Bool} {m : VersionManifest} :
    (publishManifest r.version r.platform r.artifact (if reads then some m else none)).view =
        m.view ↔
      m.platforms.read r.platform = some r.artifact ∧
        (reads = false → m.version = r.version ∧ ∀ q,
          q ≠ r.platform → m.platforms.read q = none) := by
  unfold VersionManifest.view
  rw [Prod.mk.injEq, funext_iff]
  cases reads with
  | true =>
      show (m.version = m.version ∧ ∀ k, (m.platforms.write r.platform r.artifact).read k = _) ↔ _
      rw [Files.read_write_eq_iff]
      simp
  | false =>
      show (r.version = m.version ∧
        ∀ k, (Files.empty.write r.platform r.artifact).read k = m.platforms.read k) ↔ _
      constructor
      · intro h
        obtain ⟨hversion, hread⟩ := h
        refine ⟨by rw [← hread, Files.read_write_self], fun _ => ⟨hversion.symm, fun q hq => ?_⟩⟩
        rw [← hread, Files.read_write_ne _ _ hq, Files.read_empty]
      · intro h
        obtain ⟨hartifact, honly⟩ := h
        refine ⟨(honly rfl).1.symm, fun q => ?_⟩
        by_cases hq : q = r.platform
        · rw [hq, Files.read_write_self, hartifact]
        · rw [Files.read_write_ne _ _ hq, Files.read_empty, (honly rfl).2 q hq]

/-- A release changes nothing that is read of a manifest if and only if it is settled. -/
theorem manifestSettled_iff {reads : Bool} {o : MapOrder} :
    (∀ q, ((a.manifests.write p (some ((publishManifest r.version r.platform r.artifact
        (if reads then a.getVersionManifest p else none)).inOrder o))).read q).map
          (Option.map VersionManifest.view) =
      (a.manifests.read q).map (Option.map VersionManifest.view)) ↔
      ManifestSettled reads p r a := by
  have hself : ∀ f : Files VersionPath (Option VersionManifest), ∀ x,
      (∀ q, ((f.write p x).read q).map (Option.map VersionManifest.view) =
        (f.read q).map (Option.map VersionManifest.view)) ↔
      some (x.map VersionManifest.view) = (f.read p).map (Option.map VersionManifest.view) := by
    intro f x
    refine ⟨fun h => by simpa using h p, fun h q => ?_⟩
    by_cases hq : q = p
    · rw [hq, Files.read_write_self, ← h]
      rfl
    · rw [f.read_write_ne x hq]
  rw [hself]
  unfold ManifestSettled Artifacts.getVersionManifest
  rcases a.manifests.read p with _ | _ | m
  · simp
  · simp
  · simp only [Option.map_some, Option.some.injEq, Option.join_some, exists_eq_left',
      view_inOrder]
    exact view_publishManifest_eq_iff

/-- A manifest that a publication does not change is there. -/
theorem ManifestSettled.isSome {reads : Bool} (h : ManifestSettled reads p r a) :
    (a.manifests.read p).isSome = true := by
  obtain ⟨m, hm, -⟩ := h
  unfold Artifacts.getVersionManifest at hm
  cases hread : a.manifests.read p with
  | none => simp [hread] at hm
  | some _ => rfl

/-- A manifest is what another one is written as in an order, if and only if it reads the same
and has this order. -/
theorem eq_inOrder_iff {m x : VersionManifest} {o : MapOrder} :
    m = x.inOrder o ↔ x.view = m.view ∧ m.inOrder o = m := by
  have hwritten : x.view = m.view → x.inOrder o = m.inOrder o := fun h =>
    VersionManifest.inOrder_congr (congrArg Prod.fst h) (congrFun (congrArg Prod.snd h))
  constructor
  · intro h
    have hview : x.view = m.view := by rw [h, view_inOrder]
    exact ⟨hview, (hwritten hview).symm.trans h.symm⟩
  · intro h
    obtain ⟨hview, horder⟩ := h
    rw [hwritten hview, horder]

/-- A release writes the manifest that is there if and only if it is settled and its platforms
stand in the order in which they are written. -/
theorem read_eq_publishManifest_iff {reads : Bool} {o : MapOrder} :
    a.manifests.read p = some (some ((publishManifest r.version r.platform r.artifact
        (if reads then a.getVersionManifest p else none)).inOrder o)) ↔
      ManifestSettled reads p r a ∧
        ∀ m, a.getVersionManifest p = some m → m.inOrder o = m := by
  unfold ManifestSettled Artifacts.getVersionManifest
  rcases a.manifests.read p with _ | _ | m
  · simp
  · simp
  · simp only [Option.join_some, Option.some.injEq, exists_eq_left', forall_eq']
    rw [eq_inOrder_iff, view_publishManifest_eq_iff]

/-- A publication that fails leaves the manifests exactly if it opens and replaces nothing new. -/
theorem manifests_partlyPublished_iff :
    (∀ q, (partlyPublished e p r a).manifests.read q = a.manifests.read q) ↔
    (ManifestOpened e → (a.manifests.read p).isSome = true) ∧
      (ManifestReplaced e → ManifestSettled (!(e.faults (.manifest .read)).isSome) p r a) ∧
      (ManifestReplaced e → ∀ m, a.getVersionManifest p = some m →
        m.inOrder e.mapOrder = m) := by
  unfold partlyPublished
  by_cases hreplaced : ManifestReplaced e
  · rw [if_pos hreplaced, Files.read_write_eq_iff, read_eq_publishManifest_iff]
    simp only [hreplaced, hreplaced.1, forall_const]
    exact ⟨fun h => ⟨h.1.isSome, h⟩, fun h => h.2⟩
  · by_cases hopened : ManifestOpened e
    · rw [if_neg hreplaced, if_pos hopened, read_openOrCreate_eq_iff]
      simp [hreplaced, hopened]
    · simp [hreplaced, hopened]

/-- A failing publication changes nothing if and only if all it has stored was there. -/
theorem keptPublished_partlyPublished_iff :
    KeptPublished a (partlyPublished e p r a) ↔ AlreadyStored e p r a := by
  have hbinaries : (∀ k, (partlyPublished e p r a).binaries.read k = a.binaries.read k) ↔
      a.binaries.read (p, r.platform) = some r.binary := Files.read_write_eq_iff
  have hsignatures : (∀ q, (partlyPublished e p r a).signatures.read q = a.signatures.read q) ↔
      (SignatureOpened e → a.signatures.read p = some (writtenSignature e r.signature.val)) := by
    unfold partlyPublished
    by_cases hopened : SignatureOpened e
    · rw [if_pos hopened, Files.read_write_eq_iff]
      simp only [hopened, forall_const]
    · simp [hopened]
  have hcatalogs : (∀ n, (partlyPublished e p r a).catalogs.read n = a.catalogs.read n) ↔
      (CatalogOpened e → (a.catalogs.read p.appName).isSome = true) := by
    unfold partlyPublished
    by_cases hopened : CatalogOpened e
    · rw [if_pos hopened, read_openOrCreate_eq_iff]
      simp only [hopened, forall_const]
    · simp [hopened]
  have hmanifests := manifests_partlyPublished_iff (e := e) (p := p) (r := r) (a := a)
  constructor
  · intro h
    obtain ⟨hmanifest, hentry, horder⟩ := hmanifests.mp h.manifests
    exact ⟨hbinaries.mp h.binaries, hsignatures.mp h.signatures, hmanifest, hentry, horder,
      hcatalogs.mp h.catalogs⟩
  · intro h
    exact ⟨hbinaries.mpr h.binary, hsignatures.mpr h.signature,
      hmanifests.mpr ⟨h.manifest, h.entry, h.order⟩, hcatalogs.mpr h.catalog⟩

end Same

section Publication

variable (X : ServerCrates) (e : ServerEnv) (publisher : Publisher) (p : VersionPath) (form : Form)

/-- The form of the request is read. -/
structure AdmitsPublish : Prop where
  nameOk : validateName p.appName = .ok ()
  versionOk : validateVersion p.version = .ok ()
  parses : (X.semver.parse p.version).isSome = true
  allowed : publisher.canPublish p.appName = true
  dir : e.faults (.versionDir 0) = none

/-- What is collected from a form that is read to its end. -/
def collectedPublish : PublishForm := addFields (addPublish X e p) 0 form.fields {}

/-- The temporary file of the binary that is collected. -/
def publishTemp : Option UploadPath := (collectedPublish X e p form).binary.map (·.tempPath)

/-- A check fails, or the binary cannot be moved to its place. -/
def RefusesPublish : Prop :=
  ∀ streamed, (collectedPublish X e p form).binary = some streamed →
    (checkPublish X publisher p (collectedPublish X e p form) streamed.hash).toBool = false ∨
      ¬ Saves e

/-- The form is stored as this release, at least in part. -/
structure StoresRelease (r : Release) : Prop where
  read : readForm (readsPublish X e) 0 form.fields = (form.fields, none)
  whole : form.broken = false
  saves : Saves e
  parse : X.semver.parse p.version = some r.version
  binary : (lastField "binary" form.fields).map Field.content = some r.binary
  notes : (collectedPublish X e p form).releaseNotes = r.releaseNotes
  checked : ∃ streamed, (collectedPublish X e p form).binary = some streamed ∧
    checkPublish X publisher p (collectedPublish X e p form) streamed.hash =
      .ok ⟨r.platform, r.signature, r.checksum⟩

/-- A failing publication has left nothing. -/
structure PublishTraceless (s s' : Store) : Prop where
  uploads : NoUploadLeft s s'
  kept : KeptPublished s.toArtifacts s'.toArtifacts

/-- Each temporary file that the request creates was there before, or it is the one that is
removed or moved; and what it stores was there before. -/
structure PublishClean (s : Store) : Prop where
  reading : FormClean e (.version p) "binary" (readsPublish X e) form (publishTemp X e p form)
    (RefusesPublish X e publisher p form) s
  moved : ∀ r, StoresRelease X e publisher p form r → ∀ u ∈ publishTemp X e p form,
    ∀ t ∈ uploadPaths e (.version p) "binary" 0 form.fields \ {u}, s.HasUpload t
  stored : ∀ r, StoresRelease X e publisher p form r → AlreadyStored e p r s.toArtifacts

/-- The form is read to its end, and has a binary: the last field of this name. -/
structure PublishCollected (s s' : Store) (streamed : StreamedField) (field : Field) : Prop where
  read : readForm (readsPublish X e) 0 form.fields = (form.fields, none)
  whole : form.broken = false
  binary : (collectedPublish X e p form).binary = some streamed
  last : lastField "binary" form.fields = some field
  staged : Staged X field streamed s'
  uploads : Uploaded (uploadPaths e (.version p) "binary" 0 form.fields) ∅ s s'

/-- How a publication fails, and what it leaves. -/
inductive PublishFailed (s s' : Store) : Prop where
  | turnedAway (hadmits : ¬ AdmitsPublish X e publisher p) (h : Dressing s s')
  | form (hadmits : AdmitsPublish X e publisher p)
      (h : FormFailed e (.version p) "binary" (readsPublish X e) form (publishTemp X e p form)
        (RefusesPublish X e publisher p form) s s')
  | stored {r : Release} {u : UploadPath} (hadmits : AdmitsPublish X e publisher p)
      (hstores : StoresRelease X e publisher p form r) (htemp : publishTemp X e p form = some u)
      (h : s'.toArtifacts = partlyPublished e p r s.toArtifacts)
      (huploads : ∀ t, s'.HasUpload t ↔
        (s.HasUpload t ∨ t ∈ uploadPaths e (.version p) "binary" 0 form.fields) ∧
          t ∉ ({u} : Set UploadPath))

variable {X e publisher p form} {s s' s₁ s₂ : Store} {streamed : StreamedField} {field : Field}

/-- A form that is turned down behind its reading loses the temporary file of its binary, if
that can be removed. -/
theorem PublishCollected.failed (h : PublishCollected X e p form s s₂ streamed field)
    (hadmits : AdmitsPublish X e publisher p)
    (hwhy : (checkPublish X publisher p (collectedPublish X e p form)
      streamed.hash).toBool = false ∨ ¬ Saves e)
    (hbail : Uploaded ∅ {t | Cleans e ∧ t = streamed.tempPath} s₂ s') :
    PublishFailed X e publisher p form s s' := by
  have htemp : publishTemp X e p form = some streamed.tempPath := by
    rw [publishTemp, h.binary]
    rfl
  refine .form hadmits (.refused h.read h.whole htemp (fun x hx => ?_)
    (h.uploads.andRemoved hbail))
  rw [← Option.some.inj (h.binary.symm.trans hx)]
  exact hwhy

/-- A form that passes the checks is stored as a release, or the storing fails in between. -/
theorem PublishCollected.wp_store (h : PublishCollected X e p form s s₂ streamed field)
    (hadmits : AdmitsPublish X e publisher p) {version : Version} {checked : CheckedPublish}
    (hparse : X.semver.parse p.version = some version)
    (hcheck : checkPublish X publisher p (collectedPublish X e p form) streamed.hash =
      .ok checked) :
    wp (storePublish X e p version streamed checked (collectedPublish X e p form).releaseNotes)
      (fun _ s' => ∃ r, StoresRelease X e publisher p form r ∧ s'.toArtifacts =
        s.toArtifacts.publish X.semver p r e.mapOrder (!(e.faults (.manifest .read)).isSome)
          (!(e.faults (.catalog .read)).isSome))
      (fun _ s' => PublishFailed X e publisher p form s s') s₂ := by
  let r : Release := ⟨version, checked.platform, field.content, checked.signature,
    checked.checksum, (collectedPublish X e p form).releaseNotes⟩
  have hstores : Saves e → StoresRelease X e publisher p form r := fun hsaves =>
    ⟨h.read, h.whole, hsaves, hparse, by rw [h.last]; rfl, rfl, streamed, h.binary, hcheck⟩
  have htemp : publishTemp X e p form = some streamed.tempPath := by
    rw [publishTemp, h.binary]
    rfl
  refine wp_mono (fun _ s' h' => ⟨r, hstores h'.2, ?_⟩) (fun _ s' h' => ?_)
    (wp_and (wp_storePublish (r := r) hparse h.staged.stored h.staged.size)
      (wp_storePublish_partly (r := r) hparse h.staged.stored h.staged.size))
  · rw [h'.1, h.uploads.artifacts]
  · rcases h'.2 with ⟨hsaves, hbail⟩ | ⟨hsaves, hpartly, hmoved⟩
    · exact h.failed hadmits (.inr hsaves) hbail
    · refine .stored hadmits (hstores hsaves) htemp (by rw [hpartly, h.uploads.artifacts])
        fun t => ?_
      rw [hasUpload_of_removed hmoved, h.uploads.uploads t]
      simp

/-- What the reading of the form of a publication leaves. -/
theorem wp_collectPublish_cases (hstart : Dressing s s₁) :
    wp (collectFields (collectPublish X e p) form.broken form.fields 0 {})
      (fun collected s₂ => collected = collectedPublish X e p form ∧
        (∀ streamed, collected.binary = some streamed →
          ∃ field, PublishCollected X e p form s s₂ streamed field) ∧
        (collected.binary = none → FormFailed e (.version p) "binary" (readsPublish X e) form
          (publishTemp X e p form) (RefusesPublish X e publisher p form) s s₂))
      (fun _ s₂ => FormFailed e (.version p) "binary" (readsPublish X e) form
        (publishTemp X e p form) (RefusesPublish X e publisher p form) s s₂) s₁ := by
  have hempty : CollectedPublish X [] {} s₁ :=
    ⟨fun _ h => by contradiction, fun _ h => by contradiction, fun _ h => by contradiction⟩
  refine wp_mono (fun collected s₂ h₂ => ?_) (fun _ s₂ h₂ => ?_)
    (wp_and (wp_collectFields wp_collectPublish form.fields [] 0 {} hempty)
      (wp_collectFields_uploads readsField_collectPublish form.fields 0 {}))
  · obtain ⟨⟨-, hcollected⟩, hread, hbroken, rfl, huploads⟩ := h₂
    rw [List.nil_append] at hcollected
    have huploads := huploads.of_dressing hstart
    refine ⟨rfl, fun streamed hbinary => ?_, fun hnone => .cut hread (.inr ?_) huploads⟩
    · obtain ⟨field, hfield, hstaged⟩ := hcollected.binary _ hbinary
      exact ⟨field, hread, hbroken, hbinary, hfield, hstaged, huploads⟩
    · exact congrArg (Option.map StreamedField.tempPath) hnone
  · rcases h₂.2 with ⟨seen, field, hread, h⟩ | ⟨hread, hbroken, h⟩
    · rw [Nat.zero_add] at h
      exact .stopped hread (.of_dressing hstart h)
    · exact .cut hread (.inl hbroken) (.of_dressing hstart h)

/-- A publication stores its form as a release, or it fails. -/
theorem wp_publishVersion_cases :
    wp (publishVersion X e publisher p form)
      (fun _ s' => ∃ r, StoresRelease X e publisher p form r ∧ s'.toArtifacts =
        s.toArtifacts.publish X.semver p r e.mapOrder (!(e.faults (.manifest .read)).isSome)
          (!(e.faults (.catalog .read)).isSome))
      (fun _ s' => PublishFailed X e publisher p form s s') s := by
  have haway : ¬ AdmitsPublish X e publisher p → PublishFailed X e publisher p form s s :=
    fun hadmits => .turnedAway hadmits ⟨rfl, rfl⟩
  unfold publishVersion
  rw [wp_bind]
  refine wp_requireValid_cases (fun hname => ?_) fun hname _ => haway fun h => hname h.nameOk
  rw [wp_bind]
  refine wp_requireValid_cases (fun hversion => ?_) fun hversion _ =>
    haway fun h => hversion h.versionOk
  rw [wp_bind]
  refine wp_check_cases (fun version hparse => ?_) fun _ hparse => haway fun h => ?_
  · have hparse := Except.ofOption_eq_ok.mp hparse
    rw [wp_bind]
    refine wp_requirePublisher_cases (fun hallowed => ?_) fun hallowed _ =>
      haway fun h => hallowed h.allowed
    rw [wp_bind, wp_adapt]
    refine wp_createDirs_cases (fun hdir s₁ h₁ => ?_) fun hdir s₁ h₁ =>
      .turnedAway (fun h => hdir h.dir) h₁
    have hadmits : AdmitsPublish X e publisher p :=
      ⟨hname, hversion, Option.isSome_iff_exists.mpr ⟨version, hparse⟩, hallowed, hdir⟩
    rw [wp_bind]
    refine wp_mono (fun collected s₂ h₂ => ?_) (fun _ s₂ h₂ => .form hadmits h₂)
      (wp_collectPublish_cases h₁)
    obtain ⟨rfl, hsome, hnone⟩ := h₂
    rw [wp_bind]
    cases hbinary : (collectedPublish X e p form).binary with
    | none => exact .form hadmits (hnone hbinary)
    | some streamed =>
        obtain ⟨field, h⟩ := hsome streamed hbinary
        rw [Except.ofOption, wp_ofExcept]
        dsimp only
        split
        · next err hcheck =>
            exact wp_mono (fun _ _ h => h)
              (fun _ _ hbail => h.failed hadmits (.inl (by rw [hcheck]; rfl)) hbail) wp_bail_uploads
        · next checked hcheck =>
            rw [wp_bind]
            exact wp_mono (fun _ _ h => h) (fun _ _ h => h) (h.wp_store hadmits hparse hcheck)
  · obtain ⟨version, hversion⟩ := Option.isSome_iff_exists.mp h.parses
    rw [hversion] at hparse
    contradiction

/-- A form that gives a release is not refused. -/
theorem StoresRelease.not_refuses {r : Release} (h : StoresRelease X e publisher p form r) :
    ¬ RefusesPublish X e publisher p form := by
  obtain ⟨streamed, hbinary, hchecked⟩ := h.checked
  intro hrefuses
  have hwhy := hrefuses streamed hbinary
  simp [hchecked, h.saves, Except.toBool] at hwhy

theorem StoresRelease.exists_temp {r : Release} (h : StoresRelease X e publisher p form r) :
    ∃ u, publishTemp X e p form = some u := by
  obtain ⟨streamed, hbinary, -⟩ := h.checked
  exact ⟨streamed.tempPath, by rw [publishTemp, hbinary]; rfl⟩

/-- Two collected forms differ in nothing but their temporary files. -/
structure SameForm (f f' : PublishForm) : Prop where
  hash : f'.binary.map StreamedField.hash = f.binary.map StreamedField.hash
  platform : f'.platform = f.platform
  signature : f'.signature = f.signature
  checksum : f'.checksum = f.checksum
  releaseNotes : f'.releaseNotes = f.releaseNotes

/-- What is collected differs in the names of the uploads only. -/
theorem sameForm_addFields {e' : ServerEnv} (fields : List Field) (k : Nat) {f f' : PublishForm}
    (h : SameForm f f') :
    SameForm
      (addFields (addPublish X e p) k fields f) (addFields (addPublish X e' p) k fields f') := by
  induction fields generalizing k f f' with
  | nil => exact h
  | cons field rest ih =>
      refine ih (k + 1) ?_
      unfold addPublish
      split
      · exact ⟨rfl, h.platform, h.signature, h.checksum, h.releaseNotes⟩
      · exact ⟨h.hash, rfl, h.signature, h.checksum, h.releaseNotes⟩
      · exact ⟨h.hash, h.platform, rfl, h.checksum, h.releaseNotes⟩
      · exact ⟨h.hash, h.platform, h.signature, rfl, h.releaseNotes⟩
      · split
        · exact h
        · exact ⟨h.hash, h.platform, h.signature, h.checksum, rfl⟩
      · exact h

/-- So the checks of the form go alike. -/
theorem SameForm.checkPublish {f f' : PublishForm} (h : SameForm f f') {hash : Hash} :
    checkPublish X publisher p f' hash = checkPublish X publisher p f hash := by
  unfold Deltaship.checkPublish
  rw [h.platform, h.signature, h.checksum]

/-- A form is stored as one release only, on every host. -/
theorem StoresRelease.unique {e' : ServerEnv} {r r' : Release}
    (h : StoresRelease X e publisher p form r) (h' : StoresRelease X e' publisher p form r') :
    r' = r := by
  have hsame : SameForm (collectedPublish X e p form) (collectedPublish X e' p form) :=
    sameForm_addFields form.fields 0 ⟨rfl, rfl, rfl, rfl, rfl⟩
  obtain ⟨streamed, hbinary, hchecked⟩ := h.checked
  obtain ⟨streamed', hbinary', hchecked'⟩ := h'.checked
  have hhash := hsame.hash
  rw [hbinary, hbinary', Option.map_some, Option.map_some, Option.some.injEq] at hhash
  rw [hsame.checkPublish, hhash] at hchecked'
  have hchecks := Except.ok.inj (hchecked.symm.trans hchecked')
  have hversion := Option.some.inj (h.parse.symm.trans h'.parse)
  have hcontent := Option.some.inj (h.binary.symm.trans h'.binary)
  have hnotes := (h.notes.symm.trans hsame.releaseNotes.symm).trans h'.notes
  rcases r with ⟨version, platform, binary, signature, checksum, notes⟩
  rcases r' with ⟨version', platform', binary', signature', checksum', notes'⟩
  simp_all

/-- A publication that fails leaves nothing if and only if it is clean, or turned away. -/
theorem publishTraceless_iff (h : PublishFailed X e publisher p form s s') :
    PublishTraceless s s' ↔
      (AdmitsPublish X e publisher p → PublishClean X e publisher p form s) := by
  cases h with
  | turnedAway hadmits h =>
      refine iff_of_true ⟨fun t => ?_, ?_⟩ fun h => absurd h hadmits
      · simpa using ((h.uploaded).uploads t).mp
      · rw [h.artifacts]
        exact .refl _
  | form hadmits h =>
      have hkept : KeptPublished s.toArtifacts s'.toArtifacts := by
        rw [h.artifacts]
        exact .refl _
      have hnone : ∀ r, ¬ StoresRelease X e publisher p form r := fun r hr => by
        obtain ⟨u, hu⟩ := hr.exists_temp
        exact h.elim hr.read hr.whole hu hr.not_refuses
      constructor
      · intro htraceless _
        exact ⟨h.noUploadLeft_iff.mp htraceless.uploads, fun r hr => absurd hr (hnone r),
          fun r hr => absurd hr (hnone r)⟩
      · intro hclean
        exact ⟨h.noUploadLeft_iff.mpr (hclean hadmits).reading, hkept⟩
  | @stored r u hadmits hstores htemp h huploads =>
      have hkept :=
        keptPublished_partlyPublished_iff (e := e) (p := p) (r := r) (a := s.toArtifacts)
      constructor
      · intro htraceless _
        refine ⟨formClean_of_read hstores.read hstores.whole htemp hstores.not_refuses,
          fun _ _ u' hu => ?_, fun r' hr => ?_⟩
        · rw [← Option.some.inj (htemp.symm.trans hu)]
          exact (noUploadLeft_iff huploads).mp htraceless.uploads
        · rw [hstores.unique hr]
          refine hkept.mp ?_
          rw [← h]
          exact htraceless.kept
      · intro hclean
        refine ⟨(noUploadLeft_iff huploads).mpr ((hclean hadmits).moved _ hstores _ htemp), ?_⟩
        rw [h]
        exact hkept.mpr ((hclean hadmits).stored _ hstores)

end Publication

end Deltaship
