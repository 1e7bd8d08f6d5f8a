import Deltaship.Server.Visible

/-!
# Deltaship.Server.Storing

The steps that store a release keep what is visible stored, one lemma for each of them: the files,
then the manifest that lists them, then the catalog that lists the manifest.

A manifest and a catalog are read, changed in memory and written again.  What was read stays true
while other requests run, because the mutex of the application is held (`Rely`).
-/

namespace Deltaship

open Prog Thread

/-! ## storing a release -/

section Storing

variable {X : ServerCrates} {e : ServerEnv} {H : Set String} {P : Store → Prop} {s : Store}
  {p : VersionPath} {platform : Platform}

/-- A call that can fail keeps what is known. -/
theorem guards_tryIo {site : ServerSite} :
    (whole (tryIo e site) : StorageThread Unit).Guards Rely (Backed X) H P (fun _ => P)
      fun _ _ => True :=
  guards_still fun _ _ hs => wp_tryIo (fun _ => ⟨rfl, hs⟩) ⟨rfl, trivial⟩

/-- A binary that is written anew breaks no promise. -/
theorem keeps_binary {uploads : Files UploadPath Bytes} {b : Bytes} (hs : Backed X s) :
    Backed X { s with uploads, binaries := s.binaries.write (p, platform) b } ∧
      Allowed Rely H s { s with uploads, binaries := s.binaries.write (p, platform) b } := by
  have hgrows : Grows s.toArtifacts
      { s.toArtifacts with binaries := s.binaries.write (p, platform) b } :=
    { Grows.refl s.toArtifacts with binaries := fun k h => Files.isSome_read_write h }
  exact ⟨hs.grow_same hgrows rfl rfl fun _ => rfl, allowed_of hgrows fun _ _ => ⟨rfl, rfl⟩⟩

/-- Nor does a signature, even if it is written in part. -/
theorem keeps_signature {data : Bytes} (hs : Backed X s) :
    Backed X { s with signatures := s.signatures.write p data } ∧
      Allowed Rely H s { s with signatures := s.signatures.write p data } := by
  have hgrows : Grows s.toArtifacts
      { s.toArtifacts with signatures := s.signatures.write p data } :=
    { Grows.refl s.toArtifacts with signatures := fun k h => Files.isSome_read_write h }
  exact ⟨hs.grow_same hgrows rfl rfl fun _ => rfl, allowed_of hgrows fun _ _ => ⟨rfl, rfl⟩⟩

/-- Behind it the binary is there, whatever the others do meanwhile. -/
theorem guards_saveBinaryFromTemp {temp : UploadPath} :
    (Threaded.saveBinaryFromTemp e p platform temp).Guards Rely (Backed X) H (fun _ => True)
      (fun _ s => (s.binaries.read (p, platform)).isSome = true) fun _ _ => True := by
  refine guards_bind (fun _ => stable_true) (guards_parked stable_true within_createDirs)
    fun _ => ?_
  refine guards_bind (fun _ => stable_true) (guards_parked stable_true within_tryIo) fun _ => ?_
  refine guards_whole fun s hs _ => ?_
  rw [wp_bind, wp_get]
  split
  · exact ⟨⟨hs, fun _ _ => refl_of _ s⟩, trivial⟩
  · exact ⟨keeps_binary hs, by rw [Files.read_write_self]; rfl⟩

theorem guards_saveSignature {data : Bytes} :
    (Threaded.saveSignature e p data).Guards Rely (Backed X) H (fun _ => True)
      (fun _ s => (s.signatures.read p).isSome = true) fun _ _ => True := by
  have hwritten : ∀ (s : Store) (b : Bytes),
      ((s.signatures.write p b).read p).isSome = true := fun s b => by
    rw [Files.read_write_self]
    rfl
  refine guards_bind (fun _ => stable_true) (guards_parked stable_true within_createDirs)
    fun _ => ?_
  refine guards_bind (fun _ => stable_true) (guards_parked stable_true within_tryIo) fun _ => ?_
  refine guards_bind (fun _ => stable_true)
    (guards_whole fun s hs _ => ⟨keeps_signature hs, trivial⟩) fun _ => ?_
  intro s hs _
  refine ⟨?_, ?_⟩
  · rintro s' ⟨n, rfl⟩
    exact keeps_signature hs
  · split
    · exact ⟨keeps_signature hs, hwritten s data⟩
    · next n _ => exact ⟨keeps_signature hs, trivial⟩

/-! ### catalogs -/

/- A catalog may only name platforms that a manifest lists already. A catalog that was read under
the lock stays true until it is written, because manifests do not lose platforms in the meantime. -/

variable {S : SemverCrate} {appName : String} {catalog : AppCatalog}

/-- Writing a temporary file of a catalog, whole or in part. -/
theorem keeps_temp {torn : Option Nat} (hs : Backed X s)
    (hcatalog : torn = none → CatalogBacked X s.toArtifacts appName catalog) :
    Backed X { s with temps := s.temps.write (.catalog appName) (.catalog catalog, torn) } ∧
      Allowed Rely H s
        { s with temps := s.temps.write (.catalog appName) (.catalog catalog, torn) } := by
  refine ⟨hs.grow (.refl _) hs.manifests (fun _ _ h => .inl h) fun appName' catalog' hread => ?_,
    allowed_of (.refl _) fun q _ => ⟨rfl, Files.read_write_ne _ _ nofun⟩⟩
  by_cases happ : appName' = appName
  · subst happ
    rw [Files.read_write_self] at hread
    obtain ⟨hvalue, htorn⟩ := Prod.mk.inj (Option.some.inj hread)
    obtain rfl := JsonValue.catalog.inj hvalue
    exact .inr (hcatalog htorn)
  · rw [Files.read_write_ne _ _ fun h => happ (JsonFile.catalog.inj h)] at hread
    exact .inl hread

/-- Catalogs can be replaced without anything going away. -/
theorem grows_catalogs (a : Artifacts) (catalogs : Files String (Option AppCatalog)) :
    Grows a { a with catalogs } :=
  ⟨fun _ _ h => h, fun _ h => h, fun _ h => h, fun _ h => h, fun _ h => h⟩

/-- Renaming the temporary file of a catalog: whoever wrote it, its platforms are listed. -/
theorem keeps_placed {content : JsonValue × Option Nat} (hs : Backed X s)
    (hread : s.temps.read (.catalog appName) = some content) :
    Backed X { s with
        temps := s.temps.remove (.catalog appName)
        catalogs := s.catalogs.write appName (Threaded.catalogOf content) } ∧
      Allowed Rely H s { s with
        temps := s.temps.remove (.catalog appName)
        catalogs := s.catalogs.write appName (Threaded.catalogOf content) } := by
  have hgrows := grows_catalogs s.toArtifacts
    (s.catalogs.write appName (Threaded.catalogOf content))
  refine ⟨hs.grow hgrows (fun q platform hlists => (hs.manifests q platform hlists).grow hgrows)
    (fun appName' catalog' hget => ?_) fun appName' catalog' hget => ?_,
    allowed_of hgrows fun q _ => ⟨rfl, Files.read_remove_ne _ nofun⟩⟩
  · by_cases happ : appName' = appName
    · subst happ
      unfold Artifacts.getAppCatalog at hget
      rw [Files.read_write_self] at hget
      have hcontent : content = (.catalog catalog', none) := by
        unfold Threaded.catalogOf at hget
        split at hget
        · rw [← Option.some.inj hget]
        · contradiction
      rw [hcontent] at hread
      exact .inr ((hs.temps appName' catalog' hread).grow hgrows)
    · unfold Artifacts.getAppCatalog at hget
      rw [Files.read_write_ne _ _ happ] at hget
      exact .inl hget
  · by_cases happ : appName' = appName
    · subst happ
      rw [Files.read_remove_self] at hget
      contradiction
    · rw [Files.read_remove_ne _ fun h => happ (JsonFile.catalog.inj h)] at hget
      exact .inl hget

/-- A file that is opened, and created if it is missing. -/
theorem keeps_created (hs : Backed X s) :
    Backed X { s with catalogs := openOrCreate s.catalogs appName } ∧
      Allowed Rely H s { s with catalogs := openOrCreate s.catalogs appName } := by
  have hgrows := grows_catalogs s.toArtifacts (openOrCreate s.catalogs appName)
  refine ⟨hs.grow hgrows (fun q platform hlists => (hs.manifests q platform hlists).grow hgrows)
    (fun appName' catalog' hget => .inl ?_) fun _ _ h => .inl h,
    allowed_of hgrows fun q _ => ⟨rfl, rfl⟩⟩
  unfold Artifacts.getAppCatalog at hget ⊢
  rwa [join_read_openOrCreate] at hget

/-- A catalog whose platforms are all listed can replace the one that is there. -/
theorem guards_replaceCatalog :
    (Threaded.replaceCatalog e appName catalog).Guards Rely (Backed X) H
      (fun s => CatalogBacked X s.toArtifacts appName catalog) (fun _ _ => True)
      fun _ _ => True := by
  have hstable : Stable (Rely H) fun s => CatalogBacked X s.toArtifacts appName catalog :=
    stable_of_grows fun s s' hgrows h => h.grow hgrows
  refine guards_bind (M := fun _ _ => True) (fun _ => stable_true) ?_ fun _ => ?_
  · refine guards_bind (fun _ => hstable)
      (guards_whole fun s hs hcatalog => ⟨keeps_temp hs nofun, hcatalog⟩) fun _ => ?_
    intro s hs hcatalog
    refine ⟨?_, ?_⟩
    · rintro s' ⟨n, rfl⟩
      exact keeps_temp hs nofun
    · unfold writeTemp
      split
      · exact ⟨keeps_temp hs fun _ => hcatalog, trivial⟩
      · exact ⟨keeps_temp hs nofun, trivial⟩
  · refine guards_bind (fun _ => stable_true) guards_tryIo fun _ => ?_
    refine guards_whole fun s hs _ => ?_
    unfold Threaded.renameTemp
    rw [wp_bind, wp_get]
    split
    · exact ⟨⟨hs, fun _ _ => refl_of _ s⟩, trivial⟩
    · next content hread =>
        exact ⟨keeps_placed hs hread, trivial⟩

/-- The new version of a catalog has the platform that was published; all others are those of the
catalog that was read. -/
theorem CatalogBacked.publish {a : Artifacts} {info : VersionInfo} {current : Option AppCatalog}
    {version : Version} (hparse : X.semver.parse p.version = some version)
    (hinfo : info.version = version) (hplatforms : info.platforms = [platform])
    (hlists : a.Lists p platform)
    (hcurrent : ∀ catalog, current = some catalog → CatalogBacked X a p.appName catalog) :
    CatalogBacked X a p.appName (publishCatalog X.semver p.appName info current) := by
  intro v hv platform' hplatform
  rcases platform_of_mem_publishCatalog hv hplatform with
    ⟨catalog, hread, old, hold, hversion, hmem⟩ | ⟨heq, hmem⟩
  · obtain ⟨q, w, happ, hq, heq, hq'⟩ := hcurrent catalog hread old hold platform' hmem
    exact ⟨q, w, happ, hq, hversion ▸ heq, hq'⟩
  · rw [hplatforms, List.mem_singleton] at hmem
    rw [hinfo] at heq
    exact ⟨p, version, rfl, hparse, heq, hmem ▸ hlists⟩

/-- The catalog names what a manifest lists already. -/
theorem guards_updateCatalogAtomic {info : VersionInfo} {version : Version}
    (hparse : X.semver.parse p.version = some version) (hinfo : info.version = version)
    (hplatforms : info.platforms = [platform]) :
    (Threaded.updateCatalogAtomic X.semver e p.appName info).Guards Rely (Backed X) H
      (fun s => s.Lists p platform) (fun _ _ => True) fun _ _ => True := by
  have hstable : ∀ {H}, Stable (Rely H) fun s => s.Lists p platform := fun {H} =>
    stable_of_grows fun s s' hgrows h => hgrows.lists p platform h
  refine guards_bind (fun _ => hstable) (guards_parked hstable within_createDirs) fun _ => ?_
  refine guards_bind (fun _ => hstable) (guards_parked hstable within_createDirs) fun _ => ?_
  refine guards_bind (H := insert p.appName H) (fun _ => hstable) guards_tryIo fun _ => ?_
  refine guards_bind (fun _ => hstable)
    (guards_whole fun s hs hlists => ⟨keeps_created hs, hlists⟩) fun _ => ?_
  refine guards_bind (fun _ => hstable) guards_tryIo fun _ => ?_
  -- what is read stays listed until it is written again
  refine guards_bind (M := fun (read : Store) s => s.Lists p platform ∧
      ∀ catalog, read.getAppCatalog p.appName = some catalog →
        CatalogBacked X s.toArtifacts p.appName catalog)
    (fun read => stable_of_grows fun s s' hgrows h => ⟨hgrows.lists p platform h.1,
      fun catalog hread => (h.2 catalog hread).grow hgrows⟩)
    (guards_get fun s hs hlists => ⟨hlists, hs.catalogs p.appName⟩) fun read => ?_
  refine guards_mono (fun s h => ?_) (fun _ _ h => h) (fun _ _ h => h) guards_replaceCatalog
  refine CatalogBacked.publish hparse hinfo hplatforms h.1 fun catalog hcatalog => h.2 catalog ?_
  split at hcatalog
  · contradiction
  · exact hcatalog

/-- What is read stays listed until it is written again. -/
theorem guards_readCatalog :
    (Threaded.readCatalog e appName).Guards Rely (Backed X) H (fun _ => True)
      (fun catalog s => CatalogBacked X s.toArtifacts appName catalog) fun _ _ => True := by
  refine guards_bind (fun _ => stable_true) guards_tryIo fun _ => ?_
  refine guards_bind (fun _ => stable_true) guards_tryIo fun _ => ?_
  refine guards_bind (fun _ => stable_true) guards_tryIo fun _ => ?_
  refine guards_bind (M := fun (read : Store) s => ∀ catalog,
      read.getAppCatalog appName = some catalog → CatalogBacked X s.toArtifacts appName catalog)
    (fun read => stable_of_grows fun s s' hgrows h catalog hread => (h catalog hread).grow hgrows)
    (guards_get fun s hs _ => hs.catalogs appName) fun read => ?_
  exact guards_check (fun catalog s hread _ h => h catalog (Except.ofOption_eq_ok.mp hread))
    fun _ _ _ _ _ => trivial

/-- A catalog that was read stays backed while others go on. -/
theorem stable_catalogBacked :
    Stable (Rely H) fun s => CatalogBacked X s.toArtifacts appName catalog :=
  stable_of_grows fun _ _ hgrows h => h.grow hgrows

/-- An activation names nothing that the catalog did not. -/
theorem guards_setLatestVersion :
    (Threaded.setLatestVersion X.semver e p).Guards Rely (Backed X) H (fun _ => True)
      (fun _ _ => True) fun _ _ => True := by
  refine guards_bind (H := insert p.appName H) (M := fun _ _ => True) (fun _ => stable_true)
    (guards_get fun _ _ _ => trivial) fun read => ?_
  split
  · exact guards_still fun s _ _ => ⟨rfl, trivial⟩
  · refine guards_bind (fun _ => stable_catalogBacked) guards_readCatalog fun catalog => ?_
    refine guards_bind (fun _ => stable_catalogBacked)
      (guards_check (fun changed s hchange _ h => ?_) fun _ _ _ _ _ => trivial)
      fun changed => guards_replaceCatalog
    -- the entries stay, whatever is the latest one
    obtain ⟨-, latestVersion, -, rfl⟩ := activateCatalog_ok hchange
    exact h

/-- A deletion leaves a mark for good. -/
theorem guards_deleteVersionFiles :
    (Threaded.deleteVersionFiles X.semver e p).Guards Rely (Backed X) H (fun _ => True)
      (fun _ s => p ∈ s.deleted) fun _ _ => True := by
  have hmarked : ∀ {H}, Stable (Rely H) fun s : Store => p ∈ s.deleted := fun {H} =>
    stable_of_grows fun s s' hgrows h => hgrows.deleted p h
  refine guards_bind (M := fun _ _ => True) (fun _ => stable_true)
    (guards_get fun _ _ _ => trivial) fun read => ?_
  split
  · refine guards_bind (fun _ => stable_true) guards_tryIo fun _ => ?_
    refine guards_bind (fun _ => hmarked) (guards_whole fun s hs _ => ?_) fun _ => ?_
    · have hgrows : Grows s.toArtifacts { s.toArtifacts with deleted := s.deleted.insert p } :=
        { Grows.refl s.toArtifacts with
          deleted := fun q hq => List.mem_insert_iff.mpr (.inr hq) }
      exact ⟨⟨hs.grow_same hgrows rfl rfl fun _ => rfl, allowed_of hgrows fun _ _ => ⟨rfl, rfl⟩⟩,
        List.mem_insert_self⟩
    · refine guards_bind (M := fun _ s => p ∈ s.deleted) (fun _ => hmarked)
        (guards_get fun _ _ h => h) fun read' => ?_
      split
      · refine guards_bind (M := fun catalog s => CatalogBacked X s.toArtifacts p.appName catalog ∧
            p ∈ s.deleted)
          (fun _ s s' hR h => ⟨stable_catalogBacked s s' hR h.1, hmarked s s' hR h.2⟩)
          (guards_mono (fun _ h => ⟨trivial, h⟩) (fun _ _ h => h) (fun _ _ _ => trivial)
            (guards_frame hmarked antitone_rely guards_readCatalog)) fun catalog => ?_
        refine guards_bind (M := fun _ s => CatalogBacked X s.toArtifacts p.appName catalog ∧
            p ∈ s.deleted)
          (fun _ s s' hR h => ⟨stable_catalogBacked s s' hR h.1, hmarked s s' hR h.2⟩)
          (guards_get fun _ _ h => h) fun marks => ?_
        refine guards_mono (fun s h => ⟨?_, h.2⟩) (fun _ _ h => h.2) (fun _ _ _ => trivial)
          (guards_frame hmarked antitone_rely guards_replaceCatalog)
        -- the entries stay, deleted or not
        intro info hinfo
        rw [versions_deleteCatalog] at hinfo
        exact h.1 info hinfo
      · exact guards_still fun s _ h => ⟨rfl, h⟩
  · exact guards_still fun s _ _ => ⟨rfl, trivial⟩

/-! ### manifests -/

/- A manifest is read, changed and replaced under a lock and the mutex of its application. What
keeps the files that it names in place is that no request ever removes one: the new manifest names
at least what the old one named, and every platform in it has its files. -/

/-- A manifest that has every platform of the one it replaces, and no platform without files. -/
structure Covers (s : Store) (p : VersionPath) (manifest : VersionManifest) : Prop where
  keeps : ∀ platform, s.Lists p platform → (manifest.platforms.read platform).isSome = true
  stored : ∀ platform, (manifest.platforms.read platform).isSome = true →
    Downloadable s.toArtifacts p platform

/-- The order of the platforms does not matter for what a manifest covers. -/
theorem Covers.inOrder {manifest : VersionManifest} {o : MapOrder} (h : Covers s p manifest) :
    Covers s p (manifest.inOrder o) where
  keeps platform hlists := by
    rw [VersionManifest.read_inOrder]
    exact h.keeps platform hlists
  stored platform hread := by
    rw [VersionManifest.read_inOrder] at hread
    exact h.stored platform hread

/-- Under the mutex of the application nobody else changes what is there for a platform. -/
theorem Covers.stable {manifest : VersionManifest} (hlocked : p.appName ∈ H) :
    Stable (Rely H) fun s => Covers s p manifest := by
  intro s s' hR h
  refine ⟨fun platform hlists => h.keeps platform ?_,
    fun platform hread => (h.stored platform hread).grow hR.grows⟩
  unfold Artifacts.Lists Artifacts.artifactAt Artifacts.getVersionManifest at hlists ⊢
  rwa [(hR.same p.appName hlocked p rfl).1] at hlists

/-- Writing a temporary file of a manifest, whole or in part. -/
theorem keeps_manifestTemp {content : JsonValue × Option Nat} (hs : Backed X s)
    (hlocked : p.appName ∈ H) :
    Backed X { s with temps := s.temps.write (.manifest p) content } ∧
      Allowed Rely H s { s with temps := s.temps.write (.manifest p) content } := by
  refine ⟨hs.grow_same (.refl _) rfl rfl fun _ => Files.read_write_ne _ _ nofun,
    allowed_of (.refl _) fun q hq => ⟨rfl, Files.read_write_ne _ _ fun h => ?_⟩⟩
  exact hq (JsonFile.manifest.inj h ▸ hlocked)

/-- A manifest file that is opened, and created if it is missing. -/
theorem keeps_manifestCreated (hs : Backed X s) (hlocked : p.appName ∈ H) :
    Backed X { s with manifests := openOrCreate s.manifests p } ∧
      Allowed Rely H s { s with manifests := openOrCreate s.manifests p } := by
  have hlists : ∀ q platform,
      Artifacts.Lists { s.toArtifacts with manifests := openOrCreate s.manifests p } q platform ↔
        s.Lists q platform := by
    intro q platform
    unfold Artifacts.Lists Artifacts.artifactAt Artifacts.getVersionManifest
    rw [join_read_openOrCreate]
  have hgrows : Grows s.toArtifacts
      { s.toArtifacts with manifests := openOrCreate s.manifests p } :=
    { Grows.refl s.toArtifacts with lists := fun q platform h => (hlists q platform).mpr h }
  refine ⟨hs.grow hgrows (fun q platform h =>
    (hs.manifests q platform ((hlists q platform).mp h)).grow hgrows) (fun _ _ h => .inl h)
    fun _ _ h => .inl h, allowed_of hgrows fun q hq => ⟨?_, rfl⟩⟩
  have hne : q ≠ p := fun h => hq (h ▸ hlocked)
  unfold openOrCreate
  split
  · rfl
  · exact Files.read_write_ne _ _ hne

/-- A manifest lists what it has artifacts for. -/
theorem lists_write_self {a : Artifacts} {manifest : VersionManifest} {platform : Platform} :
    Artifacts.Lists { a with manifests := a.manifests.write p (some manifest) } p platform ↔
      (manifest.platforms.read platform).isSome = true := by
  unfold Artifacts.Lists Artifacts.artifactAt Artifacts.getVersionManifest
  rw [Files.read_write_self]
  rfl

theorem lists_write_ne {a : Artifacts} {manifest : Option VersionManifest} {q : VersionPath}
    {platform : Platform} (hq : q ≠ p) :
    Artifacts.Lists { a with manifests := a.manifests.write p manifest } q platform ↔
      a.Lists q platform := by
  unfold Artifacts.Lists Artifacts.artifactAt Artifacts.getVersionManifest
  rw [Files.read_write_ne _ _ hq]

/-- Renaming the temporary file of a manifest that covers what is there. -/
theorem keeps_manifestPlaced {manifest : VersionManifest} (hs : Backed X s)
    (hlocked : p.appName ∈ H) (hcovers : Covers s p manifest) :
    Backed X { s with
        temps := s.temps.remove (.manifest p)
        manifests := s.manifests.write p (some manifest) } ∧
      Allowed Rely H s { s with
        temps := s.temps.remove (.manifest p)
        manifests := s.manifests.write p (some manifest) } := by
  have hgrows : Grows s.toArtifacts
      { s.toArtifacts with manifests := s.manifests.write p (some manifest) } := by
    refine { Grows.refl s.toArtifacts with lists := fun q platform hlists => ?_ }
    by_cases hq : q = p
    · subst hq
      exact lists_write_self.mpr (hcovers.keeps platform hlists)
    · exact (lists_write_ne hq).mpr hlists
  refine ⟨hs.grow hgrows (fun q platform hlists => ?_) (fun _ _ h => .inl h)
    fun appName catalog hread => .inl ?_, allowed_of hgrows fun q hq => ?_⟩
  · by_cases hq : q = p
    · subst hq
      exact (hcovers.stored platform (lists_write_self.mp hlists)).grow hgrows
    · exact (hs.manifests q platform ((lists_write_ne hq).mp hlists)).grow hgrows
  · have hother : JsonFile.catalog appName ≠ .manifest p := nofun
    rwa [Files.read_remove_ne _ hother] at hread
  · have hne : q ≠ p := fun h => hq (h ▸ hlocked)
    exact ⟨Files.read_write_ne _ _ hne,
      Files.read_remove_ne _ fun h => hne (JsonFile.manifest.inj h)⟩

/-- A manifest that covers the one that is there can replace it. -/
theorem guards_replaceManifest {manifest : VersionManifest} (hlocked : p.appName ∈ H) :
    (Threaded.replaceManifest e p manifest).Guards Rely (Backed X) H
      (fun s => Covers s p manifest)
      (fun _ s => ∀ platform, (manifest.platforms.read platform).isSome = true →
        s.Lists p platform) fun _ _ => True := by
  have hcovers : Stable (Rely H) fun s => Covers s p manifest := Covers.stable hlocked
  -- nobody else writes the temporary file
  have hwritten : Stable (Rely H) fun s => Covers s p manifest ∧
      s.temps.read (.manifest p) = some (.manifest (manifest.inOrder e.mapOrder), none) :=
    fun s s' hR h =>
    ⟨hcovers s s' hR h.1, (hR.same p.appName hlocked p rfl).2.trans h.2⟩
  have hsame : ∀ {s : Store} {content}, Covers s p manifest →
      Covers { s with temps := s.temps.write (.manifest p) content } p manifest :=
    fun h => ⟨h.keeps, h.stored⟩
  refine guards_bind (fun _ => hwritten) ?_ fun _ => ?_
  · refine guards_bind (fun _ => hcovers)
      (guards_whole fun s hs h => ⟨keeps_manifestTemp hs hlocked, hsame h⟩) fun _ => ?_
    intro s hs h
    refine ⟨?_, ?_⟩
    · rintro s' ⟨n, rfl⟩
      exact keeps_manifestTemp hs hlocked
    · unfold writeTemp
      split
      · exact ⟨keeps_manifestTemp hs hlocked, hsame h, Files.read_write_self _ _ _⟩
      · exact ⟨keeps_manifestTemp hs hlocked, trivial⟩
  · refine guards_bind (fun _ => hwritten) guards_tryIo fun _ => ?_
    refine guards_whole fun s hs h => ?_
    unfold Threaded.renameTemp
    rw [wp_bind, wp_get, h.2]
    refine ⟨keeps_manifestPlaced hs hlocked h.1.inOrder, fun platform hread => ?_⟩
    exact lists_write_self.mpr (by rwa [VersionManifest.read_inOrder])

/-- The manifest with the new entry covers the one that was read. -/
theorem covers_changedManifest {S : SemverCrate} {artifact : PlatformArtifact}
    {changed : VersionManifest} (hs : Backed X s) (hfiles : Downloadable s.toArtifacts p platform)
    (hchange : Threaded.changedManifest S p platform artifact (s.getVersionManifest p) =
      .ok changed) :
    Covers s p changed ∧ (changed.platforms.read platform).isSome = true := by
  have hcases : ∀ {f : Files Platform PlatformArtifact} {platform' : Platform},
      ((f.write platform artifact).read platform').isSome = true →
        platform' = platform ∨ (f.read platform').isSome = true := by
    intro f platform' hread
    by_cases hp : platform' = platform
    · exact .inl hp
    · rw [Files.read_write_ne _ _ hp] at hread
      exact .inr hread
  unfold Threaded.changedManifest at hchange
  cases hcurrent : s.getVersionManifest p with
  | some manifest =>
      rw [hcurrent] at hchange
      obtain rfl := Except.ok.inj hchange
      refine ⟨⟨fun platform' hl => ?_, fun platform' hread => ?_⟩,
        by rw [Files.read_write_self]; rfl⟩
      · obtain ⟨manifest', hread, hl⟩ := Artifacts.lists_iff.mp hl
        obtain rfl := Option.some.inj (hcurrent.symm.trans hread)
        exact Files.isSome_read_write hl
      · rcases hcases hread with rfl | hold
        · exact hfiles
        · exact hs.manifests p platform' (Artifacts.lists_iff.mpr ⟨manifest, hcurrent, hold⟩)
  | none =>
      rw [hcurrent] at hchange
      split at hchange
      · contradiction
      · next version _ _ =>
          obtain rfl := Except.ok.inj hchange
          refine ⟨⟨fun platform' hl => ?_, fun platform' hread => ?_⟩,
            by rw [Files.read_write_self]; rfl⟩
          · obtain ⟨manifest', hread, -⟩ := Artifacts.lists_iff.mp hl
            rw [hcurrent] at hread
            contradiction
          · rcases hcases hread with rfl | hold
            · exact hfiles
            · contradiction
      · contradiction

/-- The manifest with a new diff has the platforms of the one that was read. -/
theorem covers_manifestWithDiff {diff : DiffInfo} {manifest changed : VersionManifest}
    (hs : Backed X s) (hread : s.getVersionManifest p = some manifest)
    (hchange : Threaded.manifestWithDiff p platform diff manifest = .ok changed) :
    Covers s p changed := by
  have hold : ∀ platform', (manifest.platforms.read platform').isSome = true ↔
      s.Lists p platform' := by
    intro platform'
    rw [Artifacts.lists_iff]
    exact ⟨fun h => ⟨manifest, hread, h⟩, fun ⟨manifest', hread', h⟩ =>
      (Option.some.inj (hread.symm.trans hread')) ▸ h⟩
  unfold Threaded.manifestWithDiff at hchange
  split at hchange
  · contradiction
  · next artifact hartifact =>
      obtain rfl := Except.ok.inj hchange
      refine ⟨fun platform' hl => Files.isSome_read_write ((hold platform').mpr hl),
        fun platform' hnew => hs.manifests p platform' ((hold platform').mp ?_)⟩
      by_cases hplatform : platform' = platform
      · rw [hplatform, hartifact]
        rfl
      · rwa [Files.read_write_ne _ _ hplatform] at hnew

/-- The manifest lists a platform whose files are there already. -/
theorem guards_updateManifest {checksum : String} {size : Nat}
    (hread : e.faults (.manifest .read) = none) :
    (Threaded.updateManifest X.semver e p platform checksum size).Guards Rely (Backed X) H
      (fun s => Downloadable s.toArtifacts p platform) (fun _ s => s.Lists p platform)
      fun _ _ => True := by
  have hfiles : ∀ {H}, Stable (Rely H) fun s => Downloadable s.toArtifacts p platform :=
    stable_of_grows fun s s' hgrows h => h.grow hgrows
  have hlocked : p.appName ∈ insert p.appName H := Set.mem_insert _ _
  refine guards_bind (fun _ => hfiles) (guards_parked hfiles within_createDirs) fun _ => ?_
  refine guards_bind (H := insert p.appName H) (fun _ => hfiles) guards_tryIo fun _ => ?_
  refine guards_bind (fun _ => hfiles)
    (guards_whole fun s hs h => ⟨keeps_manifestCreated hs hlocked, ⟨h.1, h.2, h.3, h.4⟩⟩)
    fun _ => ?_
  refine guards_bind (fun _ => hfiles) guards_tryIo fun _ => ?_
  -- what was read is there until it is replaced
  refine guards_bind (M := fun (read : Store) s => Downloadable s.toArtifacts p platform ∧
      s.manifests.read p = read.manifests.read p)
    (fun read s s' hR h => ⟨h.1.grow hR.grows, (hR.same p.appName hlocked p rfl).1.trans h.2⟩)
    (guards_get fun s _ h => ⟨h, rfl⟩) fun read => ?_
  refine guards_bind (M := fun changed s => Covers s p changed ∧
      (changed.platforms.read platform).isSome = true)
    (fun changed s s' hR h => ⟨Covers.stable hlocked s s' hR h.1, h.2⟩)
    (guards_check (fun changed s hchange hs h => ?_) fun _ _ _ _ _ => trivial) fun changed => ?_
  · have hsame : s.getVersionManifest p = read.getVersionManifest p := congrArg Option.join h.2
    rw [hread] at hchange
    have hcurrent : Threaded.changedManifest X.semver p platform ⟨checksum, size, []⟩
        (s.getVersionManifest p) = .ok changed := by
      rw [hsame]
      exact hchange
    exact covers_changedManifest hs h.1 hcurrent
  · refine guards_mono (fun s h => ⟨h.1, ?_⟩) (fun _ s h => h.1 platform h.2) (fun _ _ h => trivial)
      (guards_frame (F := fun _ => (changed.platforms.read platform).isSome = true)
        (fun _ _ _ h => h) antitone_rely (guards_replaceManifest hlocked))
    exact h.2

/-- A diff that is added takes no platform from the manifest. -/
theorem guards_addDiffToManifest {diff : DiffInfo} :
    (Threaded.addDiffToManifest e p platform diff).Guards Rely (Backed X) H (fun _ => True)
      (fun _ _ => True) fun _ _ => True := by
  have hlocked : p.appName ∈ insert p.appName H := Set.mem_insert _ _
  refine guards_bind (H := insert p.appName H) (M := fun _ _ => True) (fun _ => stable_true)
    (guards_get fun _ _ _ => trivial) fun read => ?_
  split
  · exact guards_still fun s _ _ => ⟨rfl, trivial⟩
  · refine guards_bind (fun _ => stable_true) guards_tryIo fun _ => ?_
    refine guards_bind (fun _ => stable_true) guards_tryIo fun _ => ?_
    refine guards_bind (fun _ => stable_true) guards_tryIo fun _ => ?_
    refine guards_bind (M := fun (read : Store) s => s.manifests.read p = read.manifests.read p)
      (fun read s s' hR h => (hR.same p.appName hlocked p rfl).1.trans h)
      (guards_get fun s _ _ => rfl) fun read => ?_
    refine guards_bind (M := fun manifest s => s.getVersionManifest p = some manifest)
      (fun manifest s s' hR h => ?_)
      (guards_check (fun manifest s hmanifest _ h => ?_) fun _ _ _ _ _ => trivial)
      fun manifest => ?_
    · exact (congrArg Option.join (hR.same p.appName hlocked p rfl).1).trans h
    · exact (congrArg Option.join h).trans (Except.ofOption_eq_ok.mp hmanifest)
    · refine guards_bind (fun changed => Covers.stable hlocked)
        (guards_check (fun changed s hchange hs h => covers_manifestWithDiff hs h hchange)
          fun _ _ _ _ _ => trivial) fun changed => ?_
      exact guards_mono (fun _ h => h) (fun _ _ _ => trivial) (fun _ _ h => h)
        (guards_replaceManifest hlocked)

/-! ### diffs and rollouts -/

/-- A diff that is written anew breaks no promise. -/
theorem keeps_diff {uploads : Files UploadPath Bytes} {key : String × String} {b : Bytes}
    (hs : Backed X s) : Backed X { s with uploads, diffs := s.diffs.write key b } ∧
      Allowed Rely H s { s with uploads, diffs := s.diffs.write key b } := by
  have hgrows : Grows s.toArtifacts { s.toArtifacts with diffs := s.diffs.write key b } :=
    { Grows.refl s.toArtifacts with diffs := fun k h => Files.isSome_read_write h }
  exact ⟨hs.grow_same hgrows rfl rfl fun _ => rfl, allowed_of hgrows fun _ _ => ⟨rfl, rfl⟩⟩

theorem guards_saveDiffFromTemp {fromVersion toVersion : String} {temp : UploadPath} :
    (Threaded.saveDiffFromTemp e appName fromVersion toVersion platform temp).Guards Rely
      (Backed X) H (fun _ => True)
      (fun _ s => (s.diffs.read (appName,
        diffFileName fromVersion toVersion platform)).isSome = true) fun _ _ => True := by
  refine guards_bind (fun _ => stable_true) (guards_parked stable_true within_createDirs)
    fun _ => ?_
  refine guards_bind (fun _ => stable_true) (guards_parked stable_true within_tryIo) fun _ => ?_
  refine guards_whole fun s hs _ => ?_
  rw [wp_bind, wp_get]
  split
  · exact ⟨⟨hs, fun _ _ => refl_of _ s⟩, trivial⟩
  · exact ⟨keeps_diff hs, by rw [Files.read_write_self]; rfl⟩

/-- What concerns the rollouts only. -/
theorem parked_rollout {s' : Store} {rollouts : Files VersionPath (Option RolloutConfig)}
    (hartifacts : s'.toArtifacts = { s.toArtifacts with rollouts })
    (htemps : ∀ file, (∀ p, file ≠ .rollout p) → s'.temps.read file = s.temps.read file) :
    Parked s s' := by
  refine ⟨?_, ?_, ?_, ?_, ?_, ?_, htemps⟩ <;> rw [hartifacts]

theorem within_replaceRollout {config : RolloutConfig} :
    (Threaded.replaceRollout e p config).Within Parked := by
  have hwrite : ∀ (s : Store) content,
      Parked s { s with temps := s.temps.write (.rollout p) content } := fun s content =>
    parked_rollout rfl fun file hfile => Files.read_write_ne _ _ (hfile p)
  refine ⟨⟨⟨fun s => hwrite s _, fun _ _ h => h.elim⟩, fun _ => ⟨fun s => ?_, fun s s' h => ?_⟩⟩,
    fun _ => ⟨within_tryIo, fun _ => ⟨fun s => ?_, fun _ _ h => h.elim⟩⟩⟩
  · unfold writeTemp
    split <;> exact hwrite s _
  · obtain ⟨n, rfl⟩ := h
    exact hwrite s _
  · unfold Threaded.renameTemp
    rw [exec_bind, exec_get]
    dsimp only
    split
    · exact refl_of Parked s
    · exact parked_rollout rfl fun file hfile => Files.read_remove_ne _ (hfile p)

theorem within_updateRolloutConfigAtomic {update : RolloutConfig → RolloutConfig} :
    (Threaded.updateRolloutConfigAtomic e p update).Within Parked :=
  ⟨within_createDirs, fun _ => ⟨within_tryIo, fun _ =>
    ⟨⟨fun _ => parked_rollout rfl fun _ _ => rfl, fun _ _ h => h.elim⟩, fun _ =>
      ⟨within_tryIo, fun _ => ⟨within_get, fun _ =>
        ⟨within_replaceRollout, fun _ => within_pure⟩⟩⟩⟩⟩⟩

end Storing

end Deltaship
