import Deltaship.Server.Concurrent
import Deltaship.Server.Effects
import Deltaship.Server.Offers

/-!
# Deltaship.Server.Visible

What is visible is stored, while requests run beside each other and wherever some of them are
stopped: a manifest has an entry for a platform only when the binary and the signature are there,
and a catalog has a platform of a version only when a manifest has.

A publication stores in this order, and nothing that was stored goes away again (`Grows`); what
the manifests need besides is that two requests of an application do not change them at the same
time, which is what the mutex is for (`Rely`).
-/

namespace Deltaship

open Prog Thread

/-! ## what holds in between -/

/-- The files of a release can be asked for, and are there. -/
structure Downloadable (a : Artifacts) (p : VersionPath) (platform : Platform) : Prop where
  nameOk : validateName p.appName = .ok ()
  versionOk : validateVersion p.version = .ok ()
  binary : (a.binaries.read (p, platform)).isSome = true
  signature : (a.signatures.read p).isSome = true

/-- The manifest of a version has an entry for a platform. -/
def Artifacts.Lists (a : Artifacts) (p : VersionPath) (platform : Platform) : Prop :=
  (a.artifactAt p platform).isSome = true

/-- A platform is listed if the manifest of the version has an artifact for it. -/
theorem Artifacts.lists_iff {a : Artifacts} {p : VersionPath} {platform : Platform} :
    a.Lists p platform ↔ ∃ manifest, a.getVersionManifest p = some manifest ∧
      (manifest.platforms.read platform).isSome = true := by
  unfold Lists artifactAt
  cases a.getVersionManifest p <;> simp

/-- Every platform of a catalog is one of a manifest; a catalog knows versions up to their build
metadata. -/
def CatalogBacked (X : ServerCrates) (a : Artifacts) (appName : String) (catalog : AppCatalog) :
    Prop :=
  ∀ info ∈ catalog.versions, ∀ platform ∈ info.platforms, ∃ p v, p.appName = appName ∧
    X.semver.parse p.version = some v ∧ Version.eq info.version v = true ∧ a.Lists p platform

/-- Whatever the manifests and catalogs name is there; also what a catalog that is being written
names. -/
structure Backed (X : ServerCrates) (s : Store) : Prop where
  manifests : ∀ p platform, s.Lists p platform → Downloadable s.toArtifacts p platform
  catalogs : ∀ appName catalog, s.getAppCatalog appName = some catalog →
    CatalogBacked X s.toArtifacts appName catalog
  temps : ∀ appName catalog, s.temps.read (.catalog appName) = some (.catalog catalog, none) →
    CatalogBacked X s.toArtifacts appName catalog

/-- Nothing that was stored goes away. -/
structure Grows (a a' : Artifacts) : Prop where
  lists : ∀ p platform, a.Lists p platform → a'.Lists p platform
  binaries : ∀ k, (a.binaries.read k).isSome = true → (a'.binaries.read k).isSome = true
  signatures : ∀ p, (a.signatures.read p).isSome = true → (a'.signatures.read p).isSome = true
  diffs : ∀ k, (a.diffs.read k).isSome = true → (a'.diffs.read k).isSome = true
  deleted : ∀ p ∈ a.deleted, p ∈ a'.deleted

/-- The manifests of an application, and what is written to replace them, are as they were. -/
def SameManifests (appName : String) (s s' : Store) : Prop :=
  ∀ p : VersionPath, p.appName = appName → s'.manifests.read p = s.manifests.read p ∧
    s'.temps.read (.manifest p) = s.temps.read (.manifest p)

/-- What the others do, while one holds the mutexes of the applications `H`. -/
structure Rely (H : Set String) (s s' : Store) : Prop where
  grows : Grows s.toArtifacts s'.toArtifacts
  same : ∀ appName ∈ H, SameManifests appName s s'

theorem Grows.refl (a : Artifacts) : Grows a a :=
  ⟨fun _ _ h => h, fun _ h => h, fun _ h => h, fun _ h => h, fun _ h => h⟩

theorem Grows.trans {a a' a'' : Artifacts} (h : Grows a a') (h' : Grows a' a'') : Grows a a'' where
  lists p platform hs := h'.lists p platform (h.lists p platform hs)
  binaries k hs := h'.binaries k (h.binaries k hs)
  signatures p hs := h'.signatures p (h.signatures p hs)
  diffs k hs := h'.diffs k (h.diffs k hs)
  deleted p hs := h'.deleted p (h.deleted p hs)

instance (H : Set String) : IsPreorder Store (Rely H) where
  refl _ := ⟨.refl _, fun _ _ _ _ => ⟨rfl, rfl⟩⟩
  trans _ _ _ h h' := ⟨h.grows.trans h'.grows, fun appName hmem p hp =>
    ⟨(h'.same appName hmem p hp).1.trans (h.same appName hmem p hp).1,
      (h'.same appName hmem p hp).2.trans (h.same appName hmem p hp).2⟩⟩

/-- The more locks a request holds, the less the others can do. -/
theorem antitone_rely : Antitone Rely :=
  fun _ _ hsub _ _ h => ⟨h.grows, fun appName hmem => h.same appName (hsub hmem)⟩

/-- What can be downloaded stays so when nothing goes away. -/
theorem Downloadable.grow {a a' : Artifacts} {p : VersionPath} {platform : Platform}
    (h : Downloadable a p platform) (hgrows : Grows a a') : Downloadable a' p platform :=
  ⟨h.nameOk, h.versionOk, hgrows.binaries _ h.binary, hgrows.signatures _ h.signature⟩

/-- A catalog that is backed stays so when nothing goes away. -/
theorem CatalogBacked.grow {X : ServerCrates} {a a' : Artifacts} {appName : String}
    {catalog : AppCatalog} (h : CatalogBacked X a appName catalog) (hgrows : Grows a a') :
    CatalogBacked X a' appName catalog := by
  intro info hinfo platform hplatform
  obtain ⟨p, v, happ, hparse, heq, hlists⟩ := h info hinfo platform hplatform
  exact ⟨p, v, happ, hparse, heq, hgrows.lists p platform hlists⟩

/-- What stays true when nothing goes away stays true under any mutexes. -/
theorem stable_of_grows {P : Store → Prop} {H : Set String}
    (h : ∀ s s', Grows s.toArtifacts s'.toArtifacts → P s → P s') : Stable (Rely H) P :=
  fun s s' hR => h s s' hR.grows

/-! ## steps -/

/-- A step that changes rollouts, directories and uploads only. -/
structure Parked (s s' : Store) : Prop where
  catalogs : s'.catalogs = s.catalogs
  manifests : s'.manifests = s.manifests
  binaries : s'.binaries = s.binaries
  signatures : s'.signatures = s.signatures
  deleted : s'.deleted = s.deleted
  diffs : s'.diffs = s.diffs
  temps : ∀ file, (∀ p, file ≠ .rollout p) → s'.temps.read file = s.temps.read file

instance : IsPreorder Store Parked where
  refl _ := ⟨rfl, rfl, rfl, rfl, rfl, rfl, fun _ _ => rfl⟩
  trans _ _ _ h h' := ⟨h'.catalogs.trans h.catalogs, h'.manifests.trans h.manifests,
    h'.binaries.trans h.binaries, h'.signatures.trans h.signatures, h'.deleted.trans h.deleted,
    h'.diffs.trans h.diffs, fun file hfile => (h'.temps file hfile).trans (h.temps file hfile)⟩

/-- A step that lets everything stored grow, and touches the manifests of no application that is
locked by another request. -/
theorem allowed_of {H : Set String} {s s' : Store} (hgrows : Grows s.toArtifacts s'.toArtifacts)
    (hsame : ∀ p : VersionPath, p.appName ∉ H → s'.manifests.read p = s.manifests.read p ∧
      s'.temps.read (.manifest p) = s.temps.read (.manifest p)) : Allowed Rely H s s' :=
  fun _ hdisjoint => ⟨hgrows, fun _ hmem p hp =>
    hsame p (hp ▸ Set.disjoint_left.mp hdisjoint hmem)⟩

section Steps

variable {X : ServerCrates} {s s' : Store} {H : Set String}

/-- What is named in a catalog or in what is written of one stays there. -/
theorem Backed.grow (h : Backed X s) (hgrows : Grows s.toArtifacts s'.toArtifacts)
    (hmanifests : ∀ p platform, s'.Lists p platform → Downloadable s'.toArtifacts p platform)
    (hcatalogs : ∀ appName catalog, s'.getAppCatalog appName = some catalog →
      s.getAppCatalog appName = some catalog ∨ CatalogBacked X s'.toArtifacts appName catalog)
    (htemps : ∀ appName catalog, s'.temps.read (.catalog appName) = some (.catalog catalog, none) →
      s.temps.read (.catalog appName) = some (.catalog catalog, none) ∨
        CatalogBacked X s'.toArtifacts appName catalog) : Backed X s' where
  manifests := hmanifests
  catalogs appName catalog hread := (hcatalogs appName catalog hread).elim
    (fun hold => (h.catalogs appName catalog hold).grow hgrows) fun hnew => hnew
  temps appName catalog hread := (htemps appName catalog hread).elim
    (fun hold => (h.temps appName catalog hold).grow hgrows) fun hnew => hnew

/-- Nothing is listed or written that was not before. -/
theorem Backed.grow_same (h : Backed X s) (hgrows : Grows s.toArtifacts s'.toArtifacts)
    (hmanifests : s'.manifests = s.manifests) (hcatalogs : s'.catalogs = s.catalogs)
    (htemps : ∀ appName, s'.temps.read (.catalog appName) = s.temps.read (.catalog appName)) :
    Backed X s' := by
  refine h.grow hgrows (fun p platform hlists => ?_) (fun appName catalog hread => .inl ?_)
    fun appName catalog hread => .inl ?_
  · unfold Artifacts.Lists Artifacts.artifactAt Artifacts.getVersionManifest at hlists
    rw [hmanifests] at hlists
    exact (h.manifests p platform hlists).grow hgrows
  · unfold Artifacts.getAppCatalog at hread ⊢
    rwa [hcatalogs] at hread
  · rwa [htemps] at hread

theorem Parked.grows (h : Parked s s') : Grows s.toArtifacts s'.toArtifacts := by
  refine ⟨fun p platform => ?_, fun k => ?_, fun p => ?_, fun k => ?_, fun p => ?_⟩
  · unfold Artifacts.Lists Artifacts.artifactAt Artifacts.getVersionManifest
    rw [h.manifests]
    exact id
  · rw [h.binaries]
    exact id
  · rw [h.signatures]
    exact id
  · rw [h.diffs]
    exact id
  · rw [h.deleted]
    exact id

/-- Parking something breaks no promise, whichever locks are held. -/
theorem Parked.keeps (h : Parked s s') (hs : Backed X s) : Backed X s' ∧ Allowed Rely H s s' :=
  ⟨hs.grow_same h.grows h.manifests h.catalogs fun appName => h.temps _ fun _ => nofun,
    allowed_of h.grows fun p _ => ⟨by rw [h.manifests], h.temps _ fun _ => nofun⟩⟩

end Steps

/-! ## steps that store nothing -/

section Parking

variable {X : ServerCrates} {e : ServerEnv}

/-- A thread that only parks things keeps what the others leave true. -/
theorem guards_parked {ε α : Type} {m : Thread Store String ε α} {H : Set String}
    {F : Store → Prop} (hF : Stable (Rely ∅) F) (h : m.Within Parked) :
    m.Guards Rely (Backed X) H F (fun _ => F) fun _ _ => True :=
  guards_mono (fun _ h => h) (fun _ _ h => h) (fun _ _ _ => trivial)
    (guards_pass hF antitone_rely (fun _ _ hp hs => hp.keeps hs) h)

theorem stable_true {R : Store → Store → Prop} : Stable R fun _ => True := fun _ _ _ _ => trivial

/-- Where neither the files nor the temporary files changed, something was parked at most. -/
theorem parked_of_eq {s s' : Store} (hartifacts : s'.toArtifacts = s.toArtifacts)
    (htemps : s'.temps = s.temps) : Parked s s' := by
  refine ⟨?_, ?_, ?_, ?_, ?_, ?_, fun file _ => by rw [htemps]⟩ <;> rw [hartifacts]

/-- A call that can fail does nothing by itself. -/
theorem within_tryIo {site : ServerSite} :
    (whole (tryIo e site) : StorageThread Unit).Within Parked := by
  refine ⟨fun s => ?_, fun _ _ h => h.elim⟩
  unfold tryIo
  split <;> exact refl_of Parked s

theorem within_createDirs {site : ServerSite} {dir : Dir} :
    (Threaded.createDirs e site dir).Within Parked := by
  refine ⟨fun s => ?_, fun s s' h => ?_⟩
  · unfold createDirs
    split <;> exact parked_of_eq rfl rfl
  · obtain ⟨n, rfl⟩ := h
    exact parked_of_eq rfl rfl

theorem within_check {ε α : Type} {r : Except ε α} :
    (check r : Thread Store String ε α).Within Parked :=
  ⟨.ofExcept, fun _ _ h => h.elim⟩

theorem within_get {ε : Type} : (whole get : Thread Store String ε Store).Within Parked :=
  ⟨.get, fun _ _ h => h.elim⟩

theorem within_pure {ε α : Type} {a : α} :
    (whole (pure a) : Thread Store String ε α).Within Parked :=
  ⟨.pure, fun _ _ h => h.elim⟩

theorem within_throw {ε α : Type} {err : ε} :
    (whole (throw err) : Thread Store String ε α).Within Parked :=
  ⟨.throw, fun _ _ h => h.elim⟩

theorem within_requireValid {r : Except ValidationError Unit} {err : HttpError} :
    (whole (requireValid r err) : HandlerThread Unit).Within Parked :=
  ⟨.ofExcept, fun _ _ h => h.elim⟩

theorem within_requirePublisher {publisher : Publisher} {appName : String} :
    (whole (requirePublisher publisher appName) : HandlerThread Unit).Within Parked := by
  refine ⟨fun s => ?_, fun _ _ h => h.elim⟩
  unfold requirePublisher
  split <;> exact refl_of Parked s

/-- Removing an upload takes nothing away that anybody sees. -/
theorem within_cleanup {temp : UploadPath} :
    (whole (cleanup e temp) : HandlerThread Unit).Within Parked := by
  refine ⟨fun s => ?_, fun _ _ h => h.elim⟩
  unfold cleanup
  split <;> exact parked_of_eq rfl rfl

/-- So does answering with an error behind it. -/
theorem within_bail {α : Type} {temp : UploadPath} {err : HttpError} :
    (Threaded.bail e temp err : HandlerThread α).Within Parked :=
  ⟨within_cleanup, fun _ => within_throw⟩

/-- What is streamed goes to the upload, which nobody sees. -/
theorem within_streamChunks {k : Nat} {temp : UploadPath} {maxSize : Nat} {field : Field}
    {chunks : List Bytes} {i : Nat} {written : Bytes} :
    (Threaded.streamChunks e k temp maxSize field chunks i written).Within Parked := by
  induction chunks generalizing i written with
  | nil =>
      unfold Threaded.streamChunks
      split
      · exact within_bail
      · split
        · exact within_pure
        · exact within_bail
  | cons chunk rest ih =>
      unfold Threaded.streamChunks
      split
      · exact within_bail
      · split
        · exact within_bail
        · refine ⟨⟨fun s => parked_of_eq rfl rfl, fun s s' h => ?_⟩, fun _ => ih⟩
          obtain ⟨n, rfl⟩ := h
          exact parked_of_eq rfl rfl

theorem within_streamFieldToTemp {dir : Dir} {k maxSize : Nat} {field : Field} :
    (Threaded.streamFieldToTemp X e dir k maxSize field).Within Parked :=
  ⟨within_createDirs, fun _ => ⟨within_tryIo, fun _ =>
    ⟨⟨fun _ => parked_of_eq rfl rfl, fun _ _ h => h.elim⟩, fun _ =>
      ⟨within_streamChunks, fun _ => within_pure⟩⟩⟩⟩

end Parking

end Deltaship
