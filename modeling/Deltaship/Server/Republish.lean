import Deltaship.Server.CatalogOrder
import Deltaship.Server.DiffTraces
import Deltaship.Server.Offers

/-!
# Deltaship.Server.Republish

A publication that is sent again, as the publisher does when the response was lost.

Nothing but another publication changes the binary of a version for a platform and the
checksum of its entry in the manifest (`Holds`).  The repeat writes both again, and with
them what other requests may have changed: the signature, the diffs of the entry and the
latest version of the catalog (`samePublished_publish_iff`).
-/

namespace Deltaship

open Prog Runs

/-! ## requests that store no files of a version -/

/-- The binaries and the manifests are the same. -/
structure SameFiles (s s' : Store) : Prop where
  binaries : s'.binaries = s.binaries
  manifests : s'.manifests = s.manifests

instance : IsPreorder Store SameFiles where
  refl _ := ⟨rfl, rfl⟩
  trans _ _ _ h h' := ⟨h'.binaries.trans h.binaries, h'.manifests.trans h.manifests⟩

/-- Where nothing was done, the files are the same. -/
theorem SameFiles.refl (s : Store) : SameFiles s s := ⟨rfl, rfl⟩

theorem SameFiles.of_eq {s s' : Store} {a : Artifacts} (h : s'.toArtifacts = a)
    (hb : a.binaries = s.binaries) (hm : a.manifests = s.manifests) : SameFiles s s' :=
  ⟨by rw [h, hb], by rw [h, hm]⟩

section Frames

variable {X : ServerCrates} {e : ServerEnv} {publisher : Publisher} {p : VersionPath}

theorem sameFiles_createDirs {site : ServerSite} {dir : Dir} :
    Preserves SameFiles (createDirs e site dir) :=
  .of_wp fun _ => wp_createDirs (fun _ h => .of_eq h.artifacts rfl rfl)
    fun _ h => .of_eq h.artifacts rfl rfl

/-- A call that can fail leaves them as they are. -/
theorem sameFiles_tryIo {site : ServerSite} : Preserves SameFiles (tryIo e site) :=
  .of_wp fun s => wp_tryIo (fun _ => .refl s) (.refl s)

theorem sameFiles_writeTemp {op : JsonOp → ServerSite} {file : JsonFile} {value : JsonValue} :
    Preserves SameFiles (writeTemp e op file value) :=
  .of_wp fun _ => wp_writeTemp (fun _ h => .of_eq h.artifacts rfl rfl)
    fun _ h => .of_eq h.artifacts rfl rfl

theorem sameFiles_updateRolloutConfigAtomic {update : RolloutConfig → RolloutConfig} :
    Preserves SameFiles (updateRolloutConfigAtomic e p update) := by
  unfold updateRolloutConfigAtomic ensureVersionDir
  refine .bind sameFiles_createDirs fun _ => .bind sameFiles_tryIo fun _ =>
    .bind (fun _ => ⟨rfl, rfl⟩) fun _ => .bind sameFiles_tryIo fun _ => .bind .get fun _ =>
    .bind sameFiles_writeTemp fun _ => .bind sameFiles_tryIo fun _ =>
    .bind (fun _ => ⟨rfl, rfl⟩) fun _ => .pure

theorem sameFiles_activateVersion {request : Option ActivateRequest} :
    Preserves SameFiles (activateVersion X e publisher p request) := by
  refine .of_wp fun s => ?_
  unfold activateVersion
  simp only [wp_bind, wp_adapt]
  refine wp_requireValid (fun _ => ?_) fun _ => .refl s
  refine wp_requirePublisher (fun _ => ?_) fun _ => .refl s
  refine wp_requireValid (fun _ => ?_) fun _ => .refl s
  exact wp_setLatestVersion (fun _ _ _ _ _ h => .of_eq h rfl rfl) fun _ _ h => .of_eq h rfl rfl

/-- A deletion changes the catalog and a marker only. -/
theorem sameFiles_deleteVersion : Preserves SameFiles (deleteVersion X e publisher p) := by
  refine .of_wp fun s => wp_mono (fun _ s' h => ?_) (fun _ s' h => ?_) wp_deleteVersion
  · rcases h with ⟨-, h⟩ | ⟨catalog, -, h⟩ <;> exact .of_eq h rfl rfl
  · rcases h with h | h <;> exact .of_eq h rfl rfl

/-- A change of a rollout changes its configuration only. -/
theorem sameFiles_updateRollout {request : RolloutRequest} :
    Preserves SameFiles (updateRollout e publisher p request) := by
  refine .of_wp fun s => ?_
  unfold updateRollout
  simp only [wp_bind]
  refine wp_requireValid (fun _ => ?_) fun _ => .refl s
  refine wp_requirePublisher (fun _ => ?_) fun _ => .refl s
  refine wp_requireValid (fun _ => ?_) fun _ => .refl s
  split
  · exact .refl s
  · rw [wp_bind, wp_get]
    split
    · exact .refl s
    · exact sameFiles_updateRolloutConfigAtomic.adapt.wp_bind (fun _ _ h => h) fun _ _ h => h

end Frames

/-! ## what a request does to the files of versions -/

/-- The request stores a release of the version for the platform, at least in part. -/
def Request.StoresFor (X : ServerCrates) (p : VersionPath) (platform : Platform) (q : Request) :
    Prop :=
  ∃ e publisher form r, q = .publish e publisher p form ∧
    StoresRelease X e publisher p form r ∧ r.platform = platform

/-- What a request does to the binaries and the manifests. -/
inductive FileEffect (X : ServerCrates) (a : Artifacts) : Request → Artifacts → Prop where
  | kept {q : Request} {a' : Artifacts} (hb : a'.binaries = a.binaries)
      (hm : a'.manifests = a.manifests) : FileEffect X a q a'
  | stored {e : ServerEnv} {publisher : Publisher} {p : VersionPath} {form : Form} {r : Release}
      {a' : Artifacts} (hr : StoresRelease X e publisher p form r)
      (hb : a'.binaries = a.binaries.write (p, r.platform) r.binary)
      (hm : (∀ q, a'.getVersionManifest q = a.getVersionManifest q) ∨
        ∃ (reads : Bool) (o : MapOrder),
          a'.manifests = a.manifests.write p
            (some ((publishManifest r.version r.platform r.artifact
              (if reads then a.getVersionManifest p else none)).inOrder o))) :
      FileEffect X a (.publish e publisher p form) a'
  | diffAdded {e : ServerEnv} {publisher : Publisher} {p : DiffPath} {form : Form}
      {platform : Platform} {diff : DiffInfo} {b : Bytes} {manifest : VersionManifest}
      {artifact : PlatformArtifact} {o : MapOrder}
      (hmanifest : a.getVersionManifest ⟨p.appName, p.toVersion⟩ = some manifest)
      (hartifact : manifest.platforms.read platform = some artifact) :
      FileEffect X a
        (.uploadDiff e publisher p form) (a.addDiff p platform diff b manifest artifact o)

section FileEffects

variable {X : ServerCrates} {e : ServerEnv} {publisher : Publisher} {s s' : Store}

/-- Where the manifests are the same, so is what is read of them. -/
theorem getVersionManifest_congr {a a' : Artifacts} (h : a'.manifests = a.manifests)
    (q : VersionPath) : a'.getVersionManifest q = a.getVersionManifest q := by
  simp only [Artifacts.getVersionManifest, h]

theorem getVersionManifest_write_ne {a a' : Artifacts} {p q : VersionPath}
    {m : Option VersionManifest} (h : a'.manifests = a.manifests.write p m) (hq : q ≠ p) :
    a'.getVersionManifest q = a.getVersionManifest q := by
  simp only [Artifacts.getVersionManifest, h, Files.read_write_ne _ _ hq]

/-- The manifest that was written is read back. -/
theorem getVersionManifest_write_self {a a' : Artifacts} {p : VersionPath}
    {m : Option VersionManifest} (h : a'.manifests = a.manifests.write p m) :
    a'.getVersionManifest p = m := by
  simp only [Artifacts.getVersionManifest, h, Files.read_write_self, Option.join_some]

/-- A request of which both outcomes have an effect on the files has one. -/
theorem fileEffect_of_wp {α : Type} {m : Handler α} {q : Request}
    (h : wp m (fun _ s' => FileEffect X s.toArtifacts q s'.toArtifacts)
      (fun _ s' => FileEffect X s.toArtifacts q s'.toArtifacts) s) :
    FileEffect X s.toArtifacts q (Request.run.outcome (exec m s)).2.toArtifacts := wp_exec_snd h

/-- A request that leaves the files as they are has no effect on them. -/
theorem fileEffect_of_preserves {α : Type} {m : Handler α} (h : Preserves SameFiles m)
    (q : Request) :
    FileEffect X s.toArtifacts q (Request.run.outcome (exec m s)).2.toArtifacts :=
  .kept (h s).binaries (h s).manifests

/-- A publication that fails has written its manifest or none. -/
theorem getVersionManifest_partlyPublished {p : VersionPath} {r : Release} {a : Artifacts} :
    (∀ q, (partlyPublished e p r a).getVersionManifest q = a.getVersionManifest q) ∨
      ∃ (reads : Bool) (o : MapOrder), (partlyPublished e p r a).manifests =
        a.manifests.write p (some ((publishManifest r.version r.platform r.artifact
          (if reads then a.getVersionManifest p else none)).inOrder o)) := by
  by_cases hreplaced : ManifestReplaced e
  · exact .inr ⟨_, _, if_pos hreplaced⟩
  · have hkept : (partlyPublished e p r a).manifests =
        if ManifestOpened e then openOrCreate a.manifests p else a.manifests := if_neg hreplaced
    refine .inl fun q => ?_
    split at hkept
    · rw [Artifacts.getVersionManifest, hkept]
      exact join_read_openOrCreate q
    · exact getVersionManifest_congr hkept q

/-- Every request has an effect on the files of versions. -/
theorem fileEffect (X : ServerCrates) (s : Store) (q : Request) :
    FileEffect X s.toArtifacts q (q.next X s).toArtifacts := by
  cases q with
  | publish e publisher p form =>
      refine fileEffect_of_wp
        (wp_mono (fun _ s' h => ?_) (fun _ s' h => ?_) wp_publishVersion_cases)
      · obtain ⟨r, hr, h⟩ := h
        rw [h]
        exact .stored hr rfl (.inr ⟨_, _, rfl⟩)
      · cases h with
        | turnedAway _ h => rw [h.artifacts]; exact .kept rfl rfl
        | form _ h => rw [h.artifacts]; exact .kept rfl rfl
        | stored _ hstores _ h =>
            rw [h]
            exact .stored hstores rfl getVersionManifest_partlyPublished
  | uploadDiff e publisher p form =>
      refine fileEffect_of_wp (wp_mono (fun _ s' h => ?_) (fun _ s' h => ?_)
        (wp_and wp_uploadDiff wp_uploadDiff_failed))
      · obtain ⟨⟨platform, diff, b, manifest, artifact, -, hmanifest, hartifact, h⟩, -⟩ := h
        rw [h]
        exact .diffAdded hmanifest hartifact
      · cases h.2 with
        | turnedAway _ h => rw [h.artifacts]; exact .kept rfl rfl
        | form _ h => rw [h.artifacts]; exact .kept rfl rfl
        | stored _ _ _ h => rw [h]; exact .kept rfl rfl
  | activate e publisher p request => exact fileEffect_of_preserves sameFiles_activateVersion _
  | rollout e publisher p request => exact fileEffect_of_preserves sameFiles_updateRollout _
  | delete e publisher p => exact fileEffect_of_preserves sameFiles_deleteVersion _

end FileEffects

/-! ## a release in place -/

/- What a release has put into the store, and what other requests leave of it. -/

/-- The manifests are of the versions they are stored under. -/
def ManifestsParse (S : SemverCrate) (a : Artifacts) : Prop :=
  ∀ q m, a.getVersionManifest q = some m → S.parse q.version = some m.version

/-- The binary of a release is in place, and so is the entry of the manifest, if there is one,
but for its diffs. -/
structure Holds (p : VersionPath) (r : Release) (a : Artifacts) : Prop where
  binary : a.binaries.read (p, r.platform) = some r.binary
  entry : ∀ m artifact, a.getVersionManifest p = some m →
    m.platforms.read r.platform = some artifact →
    artifact.checksum = r.checksum ∧ artifact.size = r.binary.length

section Invariants

variable {X : ServerCrates} {a a' : Artifacts} {q : Request} {p : VersionPath} {r : Release}

/-- A manifest keeps its version when a platform is added. -/
theorem version_publishManifest {version : Version} {platform : Platform}
    {artifact : PlatformArtifact} {current : Option VersionManifest}
    (h : ∀ m, current = some m → m.version = version) :
    (publishManifest version platform artifact current).version = version := by
  cases current with
  | none => rfl
  | some m => exact h m rfl

/-- No request makes a manifest of a version that does not parse. -/
theorem ManifestsParse.effect (h : ManifestsParse X.semver a) (heffect : FileEffect X a q a') :
    ManifestsParse X.semver a' := by
  intro path m hread
  cases heffect with
  | kept _ hm =>
      rw [getVersionManifest_congr hm] at hread
      exact h path m hread
  | @stored e publisher p form r _ hr _ hm =>
      rcases hm with hsame | ⟨reads, o, hm⟩
      · rw [hsame] at hread
        exact h path m hread
      · by_cases hpath : path = p
        · subst hpath
          rw [getVersionManifest_write_self hm, Option.some.injEq] at hread
          rw [← hread, VersionManifest.version_inOrder, version_publishManifest, hr.parse]
          intro m' hm'
          have hread' : a.getVersionManifest path = some m' := by
            cases reads with
            | true => exact hm'
            | false => contradiction
          exact Option.some.inj ((h path m' hread').symm.trans hr.parse)
        · rw [getVersionManifest_write_ne hm hpath] at hread
          exact h path m hread
  | @diffAdded e publisher p form platform diff b manifest artifact o hmanifest hartifact =>
      by_cases hpath : path = ⟨p.appName, p.toVersion⟩
      · subst hpath
        rw [getVersionManifest_write_self rfl, Option.some.injEq] at hread
        rw [← hread]
        exact h _ manifest hmanifest
      · rw [getVersionManifest_write_ne rfl hpath] at hread
        exact h path m hread

/-- No other request changes the binary, or the checksum of the entry. -/
theorem Holds.effect (h : Holds p r a) (heffect : FileEffect X a q a')
    (hq : ¬ q.StoresFor X p r.platform) : Holds p r a' := by
  cases heffect with
  | kept hb hm =>
      refine ⟨by rw [hb, h.binary], fun m artifact hread => ?_⟩
      rw [getVersionManifest_congr hm] at hread
      exact h.entry m artifact hread
  | @stored e publisher path form r' _ hr hb hm =>
      have hother : p = path → r.platform ≠ r'.platform := by
        rintro rfl hplatform
        exact hq ⟨e, publisher, form, r', rfl, hr, hplatform.symm⟩
      constructor
      · rw [hb, Files.read_write_ne _ _ fun hkey => ?_, h.binary]
        obtain ⟨hpath, hplatform⟩ := Prod.mk.inj hkey
        exact hother hpath hplatform
      · intro m artifact hread hentry
        rcases hm with hsame | ⟨reads, o, hm⟩
        · rw [hsame] at hread
          exact h.entry m artifact hread hentry
        · by_cases hpath : p = path
          · subst hpath
            rw [getVersionManifest_write_self hm, Option.some.injEq] at hread
            rw [← hread, VersionManifest.read_inOrder, publishManifest,
              Files.read_write_ne _ _ (hother rfl)] at hentry
            -- the entry is that of the manifest before
            cases reads with
            | false => contradiction
            | true =>
                cases hold : a.getVersionManifest p with
                | none =>
                    rw [hold] at hentry
                    contradiction
                | some old =>
                    rw [hold] at hentry
                    exact h.entry old artifact hold hentry
          · rw [getVersionManifest_write_ne hm hpath] at hread
            exact h.entry m artifact hread hentry
  | @diffAdded e publisher path form platform diff b manifest old o hmanifest hold =>
      refine ⟨h.binary, fun m artifact hread hentry => ?_⟩
      by_cases hpath : p = ⟨path.appName, path.toVersion⟩
      · subst hpath
        rw [getVersionManifest_write_self rfl, Option.some.injEq] at hread
        subst hread
        rw [VersionManifest.read_inOrder] at hentry
        by_cases hplatform : r.platform = platform
        · subst hplatform
          rw [Files.read_write_self, Option.some.injEq] at hentry
          rw [← hentry]
          exact h.entry manifest old hmanifest hold
        · rw [Files.read_write_ne _ _ hplatform] at hentry
          exact h.entry manifest artifact hmanifest hentry
      · rw [getVersionManifest_write_ne rfl hpath] at hread
        exact h.entry m artifact hread hentry

theorem holds_publish {S : SemverCrate} {o : MapOrder} {reads reads' : Bool} :
    Holds p r (a.publish S p r o reads reads') := by
  refine ⟨Files.read_write_self _ _ _, fun m artifact hread hentry => ?_⟩
  rw [Artifacts.getVersionManifest_publish_self, Option.some.injEq] at hread
  rw [← hread, VersionManifest.read_inOrder, publishManifest, Files.read_write_self,
    Option.some.injEq] at hentry
  rw [← hentry]
  exact ⟨rfl, rfl⟩

end Invariants

/-! ## a repeat -/

/- A repeat of a release writes the same files again. Each of them is compared with what is there:
the binary and the signature are the same bytes, and the manifest and the catalog are the same
values exactly if nothing was added to the entries that the repeat resets. -/

/-- The binaries, signatures, manifests and catalogs read the same. -/
structure SamePublished (a a' : Artifacts) : Prop where
  binaries : ∀ k, a'.binaries.read k = a.binaries.read k
  signatures : ∀ p, a'.signatures.read p = a.signatures.read p
  manifests : ∀ p, (a'.manifests.read p).map (Option.map VersionManifest.view) =
    (a.manifests.read p).map (Option.map VersionManifest.view)
  catalogs : ∀ appName, a'.catalogs.read appName = a.catalogs.read appName

section Catalogs

variable {S : SemverCrate} {appName : String} {info : VersionInfo} {catalog : AppCatalog}

/-- A merge changes nothing if and only if it changes nothing in the first entry. -/
theorem mergeFirst_eq_self_iff {versions : List VersionInfo} :
    mergeFirst info versions = versions ↔
      ∀ v, versions.find? (fun v => Version.eq v.version info.version) = some v →
        mergeInfo v info = v := by
  induction versions with
  | nil => simp [mergeFirst]
  | cons w rest ih =>
      unfold mergeFirst
      by_cases heq : Version.eq w.version info.version = true
      · rw [if_pos heq]
        simp [heq]
      · rw [if_neg heq, List.cons.injEq, ih]
        simp [heq]

theorem insertInfo_ne_self {versions : List VersionInfo} :
    insertInfo S info versions ≠ versions := by
  intro h
  have hlength := congrArg List.length h
  rw [insertInfo, List.length_insertIdx_of_le_length (BinarySearch.place_le versions)] at hlength
  omega

/-- A publication changes nothing in a catalog if and only if the first entry of its version has
what it would add, and the latest version is not older. -/
theorem publishCatalog_eq_self_iff :
    publishCatalog S appName info (some catalog) = catalog ↔
      (∃ v, catalog.versions.find? (fun v => Version.eq v.version info.version) = some v ∧
        mergeInfo v info = v) ∧
      (Version.gt S info.version catalog.latestVersion = true →
        catalog.latestVersion = info.version) := by
  have hversions : (if catalog.versions.any fun v => Version.eq v.version info.version then
      mergeFirst info catalog.versions else insertInfo S info catalog.versions) = catalog.versions ↔
      ∃ v, catalog.versions.find? (fun v => Version.eq v.version info.version) = some v ∧
        mergeInfo v info = v := by
    split
    · next hany =>
        obtain ⟨v, hv⟩ :=
          Option.isSome_iff_exists.mp (List.find?_isSome.mpr (List.any_eq_true.mp hany))
        rw [mergeFirst_eq_self_iff, hv]
        simp
    · next hnone =>
        refine iff_of_false insertInfo_ne_self fun ⟨v, hv, _⟩ => hnone ?_
        exact List.any_eq_true.mpr (List.find?_isSome.mp (Option.isSome_of_eq_some hv))
  have hlatest : (if Version.gt S info.version catalog.latestVersion then info.version
      else catalog.latestVersion) = catalog.latestVersion ↔
      (Version.gt S info.version catalog.latestVersion = true →
        catalog.latestVersion = info.version) := by
    split
    · next hgt => simp [hgt, eq_comm]
    · next hle => simp [hle]
  rw [← hversions, ← hlatest]
  rcases catalog with ⟨name, versions, latest⟩
  simp [publishCatalog]

/-- The first publication of an application makes a catalog of one entry. -/
theorem publishCatalog_none :
    publishCatalog S appName info none = ⟨appName, [info], info.version⟩ := by
  have hplace : BinarySearch.place (fun v : VersionInfo => Version.cmp S info.version v.version) [] =
      0 := Nat.le_zero.mp (BinarySearch.place_le [])
  simp [publishCatalog, insertInfo, hplace]

/-- An entry has what a release would add to it. -/
theorem mergeInfo_eq_self_iff {v : VersionInfo} {r : Release} :
    mergeInfo v r.info = v ↔
      r.platform ∈ v.platforms ∧ ∀ notes,
        r.releaseNotes = some notes → v.releaseNotes = some notes := by
  have hplatforms : mergePlatforms v.platforms [r.platform] = v.platforms ↔
      r.platform ∈ v.platforms := by
    rw [mergePlatforms_singleton]
    by_cases hmem : r.platform ∈ v.platforms <;> simp [hmem]
  have hnotes : (if r.releaseNotes.isSome then r.releaseNotes else v.releaseNotes) =
      v.releaseNotes ↔
      ∀ notes, r.releaseNotes = some notes → v.releaseNotes = some notes := by
    cases r.releaseNotes with
    | none => simp
    | some notes => simp [eq_comm]
  rw [← hplatforms, ← hnotes]
  rcases v with ⟨version, platforms, notes, forced, rollout⟩
  simp only [mergeInfo, Release.info, VersionInfo.mk.injEq, true_and, and_true]
  rfl

end Catalogs

/-- Nothing that a repeat of a release would write has been changed by other requests. -/
structure Undisturbed (S : SemverCrate) (readsManifest readsCatalog : Bool) (p : VersionPath)
    (r : Release) (a : Artifacts) : Prop where
  /-- No release for another platform has put its own signature in place. -/
  signature : a.signatures.read p = some r.signature.val
  /-- No diff was added for the platform; and if the manifest cannot be read, no other platform
  has an entry. -/
  manifest : ∃ m artifact, a.getVersionManifest p = some m ∧
    m.platforms.read r.platform = some artifact ∧ artifact.diffsFrom = [] ∧
    (readsManifest = false → ∀ q, q ≠ r.platform → m.platforms.read q = none)
  /-- The catalog lists the platform and the notes, and no older version was made the latest;
  and if the catalog cannot be read, it lists nothing else. -/
  catalog : ∃ catalog, a.getAppCatalog p.appName = some catalog ∧
    (readsCatalog = true →
      (∃ v, catalog.versions.find? (fun v => Version.eq v.version r.version) = some v ∧
        r.platform ∈ v.platforms ∧
        ∀ notes, r.releaseNotes = some notes → v.releaseNotes = some notes) ∧
      (Version.gt S r.version catalog.latestVersion = true → catalog.latestVersion = r.version)) ∧
    (readsCatalog = false → catalog = ⟨p.appName, [r.info], r.version⟩)

section Repeats

variable {X : ServerCrates} {S : SemverCrate} {o : MapOrder} {reads reads' : Bool}
  {p : VersionPath} {r : Release}
  {a : Artifacts}

/-- With its checksum and its size right, an artifact differs in its diffs only. -/
theorem PlatformArtifact.eq_of_fields {artifact : PlatformArtifact}
    (h : artifact.checksum = r.checksum ∧ artifact.size = r.binary.length) :
    artifact = r.artifact ↔ artifact.diffsFrom = [] := by
  rcases artifact with ⟨checksum, size, diffsFrom⟩
  obtain ⟨rfl, rfl⟩ : checksum = r.checksum ∧ size = r.binary.length := h
  simp [Release.artifact]

/-- A release that is in place is settled in its manifest if and only if no diff was added. -/
theorem Holds.settled_iff (h : Holds p r a) (hmanifests : ManifestsParse S a)
    (hparse : S.parse p.version = some r.version) :
    ManifestSettled reads p r a ↔
      ∃ m artifact, a.getVersionManifest p = some m ∧
        m.platforms.read r.platform = some artifact ∧ artifact.diffsFrom = [] ∧
        (reads = false → ∀ q, q ≠ r.platform → m.platforms.read q = none) := by
  unfold ManifestSettled
  constructor
  · intro hsettled
    obtain ⟨m, hread, hentry, honly⟩ := hsettled
    exact ⟨m, r.artifact, hread, hentry, rfl, fun hreads => (honly hreads).2⟩
  · intro hplain
    obtain ⟨m, artifact, hread, hentry, hdiffs, honly⟩ := hplain
    have hversion := Option.some.inj ((hmanifests p m hread).symm.trans hparse)
    rw [← (PlatformArtifact.eq_of_fields (h.entry m artifact hread hentry)).mpr hdiffs]
    exact ⟨m, hread, hentry, fun hreads => ⟨hversion, honly hreads⟩⟩

/-- The catalog behind a release is the one before it if and only if it has the entry. -/
theorem catalog_publish_iff :
    (∀ n, (a.publish S p r o reads reads').catalogs.read n = a.catalogs.read n) ↔
      ∃ catalog, a.getAppCatalog p.appName = some catalog ∧
        publishCatalog S p.appName r.info (if reads' then some catalog else none) = catalog := by
  have hself : (∀ n, (a.publish S p r o reads reads').catalogs.read n = a.catalogs.read n) ↔
      a.catalogs.read p.appName = some (some (publishCatalog S p.appName r.info
        (if reads' then a.getAppCatalog p.appName else none))) := Files.read_write_eq_iff
  rw [hself]
  unfold Artifacts.getAppCatalog
  rcases a.catalogs.read p.appName with _ | _ | catalog
  · simp
  · simp
  · simp [eq_comm]

/-- A release that is in place changes nothing if and only if it is undisturbed. -/
theorem samePublished_publish_iff (h : Holds p r a) (hmanifests : ManifestsParse S a)
    (hparse : S.parse p.version = some r.version) :
    SamePublished a (a.publish S p r o reads reads') ↔ Undisturbed S reads reads' p r a := by
  have hbinaries : ∀ k, (a.publish S p r o reads reads').binaries.read k = a.binaries.read k :=
    Files.read_write_eq_iff.mpr h.binary
  have hsignatures : (∀ q, (a.publish S p r o reads reads').signatures.read q =
      a.signatures.read q) ↔ a.signatures.read p = some r.signature.val := Files.read_write_eq_iff
  have hsettled : (∀ q, ((a.publish S p r o reads reads').manifests.read q).map
      (Option.map VersionManifest.view) =
      (a.manifests.read q).map (Option.map VersionManifest.view)) ↔ _ :=
    manifestSettled_iff.trans (h.settled_iff hmanifests hparse)
  have hcatalogs : (∀ n, (a.publish S p r o reads reads').catalogs.read n = a.catalogs.read n) ↔ _ :=
    catalog_publish_iff
  have hentry : ∀ catalog : AppCatalog,
      publishCatalog S p.appName r.info (if reads' then some catalog else none) = catalog ↔
      (reads' = true →
        (∃ v, catalog.versions.find? (fun v => Version.eq v.version r.version) = some v ∧
          r.platform ∈ v.platforms ∧
          ∀ notes, r.releaseNotes = some notes → v.releaseNotes = some notes) ∧
        (Version.gt S r.version catalog.latestVersion = true →
          catalog.latestVersion = r.version)) ∧
      (reads' = false → catalog = ⟨p.appName, [r.info], r.version⟩) := by
    intro catalog
    cases reads' with
    | true =>
        simp only [publishCatalog_eq_self_iff, mergeInfo_eq_self_iff, if_true, forall_const]
        simp [Release.info]
    | false =>
        rw [if_neg Bool.false_ne_true, publishCatalog_none]
        exact ⟨fun heq => ⟨fun h => absurd h Bool.false_ne_true, fun _ => heq.symm⟩,
          fun heq => (heq.2 rfl).symm⟩
  simp only [hentry] at hcatalogs
  constructor
  · intro hsame
    exact ⟨hsignatures.mp hsame.signatures, hsettled.mp hsame.manifests,
      hcatalogs.mp hsame.catalogs⟩
  · intro hundisturbed
    exact ⟨hbinaries, hsignatures.mpr hundisturbed.signature, hsettled.mpr hundisturbed.manifest,
      hcatalogs.mpr hundisturbed.catalog⟩

end Repeats

theorem stores_of_succeeds {X : ServerCrates} {e : ServerEnv} {publisher : Publisher}
    {p : VersionPath} {form : Form} {s : Store}
    (h : (Request.publish e publisher p form).Succeeds X s) :
    ∃ r, StoresRelease X e publisher p form r ∧
      ((Request.publish e publisher p form).next X s).toArtifacts =
        s.toArtifacts.publish X.semver p r e.mapOrder (!(e.faults (.manifest .read)).isSome)
          (!(e.faults (.catalog .read)).isSome) :=
  Request.succeeded_of_wp wp_publishVersion_cases h

/-- In every run, between a publication that succeeds and its repeat, with no other publication
of the version for the platform: the repeat changes nothing if and only if nothing that it
writes was changed. -/
theorem republish_same_iff (X : ServerCrates) (e e' : ServerEnv) (publisher : Publisher)
    (p : VersionPath) (form : Form) (s₀ : Store)
    (hreach : Reaches (Request.next X) (fun _ _ => True) Store.empty s₀)
    (hfirst : (Request.publish e publisher p form).Succeeds X s₀) :
    ∃ r, StoresRelease X e publisher p form r ∧ ∀ run s,
      s = final (Request.next X) ((Request.publish e publisher p form).next X s₀) run →
      Permitted (Request.next X) (fun _ q => ¬ q.StoresFor X p r.platform)
        ((Request.publish e publisher p form).next X s₀) run →
      (Request.publish e' publisher p form).Succeeds X s →
      (SamePublished s.toArtifacts ((Request.publish e' publisher p form).next X s).toArtifacts ↔
        Undisturbed X.semver (!(e'.faults (.manifest .read)).isSome)
          (!(e'.faults (.catalog .read)).isSome) p r s.toArtifacts) := by
  obtain ⟨r, hr, hnext⟩ := stores_of_succeeds hfirst
  refine ⟨r, hr, fun run s hs hrun hrepeat => ?_⟩
  have hempty : ManifestsParse X.semver Store.empty.toArtifacts := fun _ _ h => by contradiction
  have hbefore : ManifestsParse X.semver s₀.toArtifacts :=
    hreach.invariant (I := fun s => ManifestsParse X.semver s.toArtifacts) hempty
      fun s q h _ => h.effect (fileEffect X s q)
  -- the release is in place behind the first publication, and stays there
  have hstart : ManifestsParse X.semver
        ((Request.publish e publisher p form).next X s₀).toArtifacts ∧
      Holds p r ((Request.publish e publisher p form).next X s₀).toArtifacts := by
    refine ⟨hbefore.effect (fileEffect X s₀ _), ?_⟩
    rw [hnext]
    exact holds_publish
  have hkept : ManifestsParse X.semver s.toArtifacts ∧ Holds p r s.toArtifacts := by
    rw [hs]
    exact hrun.invariant (I := fun s => ManifestsParse X.semver s.toArtifacts ∧
      Holds p r s.toArtifacts) hstart fun s q h hq =>
        ⟨h.1.effect (fileEffect X s q), h.2.effect (fileEffect X s q) hq⟩
  obtain ⟨r', hr', hagain⟩ := stores_of_succeeds hrepeat
  rw [hagain, hr.unique hr']
  exact samePublished_publish_iff hkept.2 hkept.1 hr.parse

/-! ### a diff between a publication and its repeat -/

/-- The store of the first publication is reached. -/
theorem sampleFirst_reached :
    Reaches (Request.next sampleServer) (fun _ _ => True) Store.empty sampleFirstStore := by
  have hrun : Reaches (Request.next sampleServer) (fun _ _ => True) Store.empty
      (Request.next sampleServer Store.empty (samplePublish .linuxX86_64 [1] sampleSig1)) :=
    (Reaches.refl _).tail trivial
  rwa [Request.next, samplePublish_run] at hrun

/-- Behind the second publication the upload leads to the store with the diff. -/
theorem sampleUpload_final :
    final (Request.next sampleServer) (samplePublishNewer.next sampleServer sampleFirstStore)
      [sampleUpload] = sampleDiffStore := by
  rw [final, List.foldl_cons, List.foldl_nil, Request.next, Request.next, samplePublishNewer_run,
    sampleUpload_run]

/-- The upload of a diff stores no binary. -/
theorem sampleUpload_permitted {p : VersionPath} {platform : Platform} {s : Store} :
    Permitted (Request.next sampleServer) (fun _ q => ¬ q.StoresFor sampleServer p platform) s
      [sampleUpload] := by
  refine ⟨fun hstores => ?_, trivial⟩
  obtain ⟨e, publisher, form, r, heq, -⟩ := hstores
  unfold sampleUpload at heq
  contradiction

/-- The repeat succeeds behind the diff upload, and the manifest has no diff any more. -/
theorem sampleRepeat_run : samplePublishNewer.Succeeds sampleServer sampleDiffStore ∧
    ((samplePublishNewer.next sampleServer sampleDiffStore).manifests.read
      ⟨"app", "1.1.0"⟩).map (Option.map fun m => (m.platforms.read .linuxX86_64).map
        PlatformArtifact.diffsFrom) = some (some (some [])) := by
  decide +kernel

/-- Version 1.1.0 is published again behind the upload of its diff. -/
theorem republish_same_iff_sample :
    ∃ r, StoresRelease sampleServer sampleServerEnv samplePublisher ⟨"app", "1.1.0"⟩
        (sampleForm .linuxX86_64 [2] sampleSig2) r ∧
      (SamePublished sampleDiffStore.toArtifacts
          (samplePublishNewer.next sampleServer sampleDiffStore).toArtifacts ↔
        Undisturbed sampleSemver true true ⟨"app", "1.1.0"⟩ r sampleDiffStore.toArtifacts) := by
  obtain ⟨r, hr, hsame⟩ := republish_same_iff sampleServer sampleServerEnv sampleServerEnv
    samplePublisher ⟨"app", "1.1.0"⟩ (sampleForm .linuxX86_64 [2] sampleSig2) sampleFirstStore
    sampleFirst_reached (congrArg Prod.fst samplePublishNewer_run)
  exact ⟨r, hr, hsame [sampleUpload] sampleDiffStore sampleUpload_final.symm sampleUpload_permitted
    sampleRepeat_run.1⟩

/-- A repeat takes back the diffs that were uploaded behind the publication. -/
theorem repeat_drops_diffs :
    ¬ ∀ (X : ServerCrates) (e e' : ServerEnv) (publisher : Publisher) (p : VersionPath)
      (form : Form) (r : Release) (s₀ : Store) (run : List Request) (s : Store),
      Reaches (Request.next X) (fun _ _ => True) Store.empty s₀ →
      (Request.publish e publisher p form).Succeeds X s₀ →
      StoresRelease X e publisher p form r →
      s = final (Request.next X) ((Request.publish e publisher p form).next X s₀) run →
      Permitted (Request.next X) (fun _ q => ¬ q.StoresFor X p r.platform)
        ((Request.publish e publisher p form).next X s₀) run →
      (Request.publish e' publisher p form).Succeeds X s →
      SamePublished s.toArtifacts
        ((Request.publish e' publisher p form).next X s).toArtifacts := by
  intro h
  have hfirst : samplePublishNewer.Succeeds sampleServer sampleFirstStore :=
    congrArg Prod.fst samplePublishNewer_run
  obtain ⟨r, hr, -⟩ := stores_of_succeeds hfirst
  have hsame : SamePublished sampleDiffStore.toArtifacts
      (samplePublishNewer.next sampleServer sampleDiffStore).toArtifacts :=
    h sampleServer sampleServerEnv sampleServerEnv samplePublisher ⟨"app", "1.1.0"⟩
      (sampleForm .linuxX86_64 [2] sampleSig2) r sampleFirstStore [sampleUpload] sampleDiffStore
      sampleFirst_reached hfirst hr sampleUpload_final.symm sampleUpload_permitted
      sampleRepeat_run.1
  have hmanifests := hsame.manifests ⟨"app", "1.1.0"⟩
  have hdiffs := congrArg (Option.map (Option.map
    fun v : Version × (Platform → Option PlatformArtifact) =>
      (v.2 .linuxX86_64).map PlatformArtifact.diffsFrom)) hmanifests
  simp only [Option.map_map, Function.comp_def, VersionManifest.view] at hdiffs
  have hnone := sampleRepeat_run.2.symm.trans hdiffs
  revert hnone
  decide

end Deltaship
