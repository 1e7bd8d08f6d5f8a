import Mathlib.Algebra.Group.Nat.Defs
import Deltaship.Server.Rollout

/-!
# Deltaship.Server.Listing

The rollout of a version as the server reports it: `list_versions` and `get_rollout`.

A publication leaves the rollout of its entry in the catalog empty, and `update_rollout`
writes `rollout.json` only.  `get_rollout` and `check_update` read that file; the listing
reads the catalog, and the file only where there is no catalog.
-/

namespace Deltaship

open Runs

/-! ## the listing -/

/-- `VersionListItem`; the time of publication is never known. -/
structure VersionListItem where
  version : String
  sizeBytes : Nat
  platforms : List String
  rolloutPercentage : Nat
  deleted : Bool
deriving DecidableEq, Repr

/-- The greatest `u64`. -/
def maxU64 : Nat := 2 ^ 64 - 1

/-- The size of all files of a manifest; the sum saturates. -/
def manifestSize (manifest : VersionManifest) : Nat :=
  (manifest.platforms.paths.filterMap manifest.platforms.read).foldl
    (fun total artifact => min (total + artifact.size) maxU64) 0

/-- The percentage that the listing has for a version. -/
def listedPercentage (S : SemverCrate) (a : Artifacts) (p : VersionPath) : Nat :=
  match a.getAppCatalog p.appName with
  | some catalog =>
      (((catalog.versions.find? fun v => S.display v.version == p.version).bind (·.rollout)).map
        (·.percentage)).getD 100
  | none => ((a.getRolloutConfig p).map (·.percentage)).getD 100

/-- The item of a version. -/
def versionListItem (S : SemverCrate) (s : Store) (p : VersionPath) : VersionListItem where
  version := p.version
  sizeBytes := ((s.getVersionManifest p).map manifestSize).getD 0
  platforms := ((s.getVersionManifest p).map fun m => m.platforms.paths.map Platform.asStr).getD []
  rolloutPercentage := listedPercentage S s.toArtifacts p
  deleted := s.isDeleted p

/-- The directories of the versions of an application; `.` is not one of them. -/
def versionDirs (s : Store) (appName : String) : List String :=
  (s.dirs.filterMap fun
    | .version p => if p.appName = appName ∧ p.version ≠ "." then some p.version else none
    | _ => none).dedup

/-- `list_versions`: the greatest text first. -/
def listVersions (S : SemverCrate) (s : Store) (appName : String) :
    Except StorageError (List VersionListItem) :=
  if .app appName ∉ s.dirs then .error (.notFound s!"Application not found: {appName}")
  else if .versions appName ∉ s.dirs then .ok []
  else .ok (((versionDirs s appName).map fun version => versionListItem S s ⟨appName, version⟩)
    |>.insertionSort fun a b => b.version ≤ a.version)

/-- `get_rollout`. -/
def getRollout (a : Artifacts) (p : VersionPath) : Except HttpError RolloutResponse := do
  (validateName p.appName).mapError fun _ => badRequest "Invalid request"
  (validateVersion p.version).mapError fun _ => badRequest "Invalid request"
  Except.ensure ((a.getVersionManifest p).isSome = true) ⟨404, "Version not found"⟩
  pure ⟨(a.getRolloutConfig p).getD .default,
    s!"Rollout config for version {p.version} of {p.appName}"⟩

section Reports

variable {X : ServerCrates} {S : SemverCrate} {a a' : Artifacts} {s : Store} {p : VersionPath}
  {q : Request} {ok : Bool}

/-- An item of the listing has the percentage listed for its version. -/
theorem rolloutPercentage_of_mem {appName : String} {items : List VersionListItem}
    {item : VersionListItem} (h : listVersions S s appName = .ok items) (hitem : item ∈ items) :
    item.rolloutPercentage = listedPercentage S s.toArtifacts ⟨appName, item.version⟩ := by
  unfold listVersions at h
  split at h
  · contradiction
  · split at h
    · rw [← Except.ok.inj h] at hitem
      contradiction
    · rw [← Except.ok.inj h, List.mem_insertionSort] at hitem
      obtain ⟨version, -, rfl⟩ := List.mem_map.mp hitem
      rfl

/-- The percentage that is answered is the one in the store. -/
theorem getRollout_eq_ok {resp : RolloutResponse} (h : getRollout a p = .ok resp) :
    resp.rollout.percentage = a.percentage p := by
  unfold getRollout at h
  obtain ⟨_, -, h⟩ := Except.bind_eq_ok.mp h
  obtain ⟨_, -, h⟩ := Except.bind_eq_ok.mp h
  obtain ⟨_, -, h⟩ := Except.bind_eq_ok.mp h
  rw [← Except.ok.inj h]
  rfl

/-! ## what requests leave -/

/-- The catalogs have no rollouts, and the configurations are enabled. -/
structure RolloutsApart (a : Artifacts) : Prop where
  catalogs : ∀ appName catalog, a.getAppCatalog appName = some catalog →
    ∀ v ∈ catalog.versions, v.rollout = none
  enabled : ∀ p, ((a.getRolloutConfig p).getD .default).enabled = true

/-- Merging a platform brings no percentage into the catalog. -/
theorem rollout_of_mem_mergeFirst {info v : VersionInfo} {versions : List VersionInfo}
    (h : ∀ w ∈ versions, w.rollout = none) (hv : v ∈ mergeFirst info versions) :
    v.rollout = none := by
  induction versions with
  | nil => contradiction
  | cons w rest ih =>
      unfold mergeFirst at hv
      split at hv
      · rcases List.mem_cons.mp hv with rfl | hv
        · exact h w List.mem_cons_self
        · exact h v (List.mem_cons_of_mem w hv)
      · rcases List.mem_cons.mp hv with rfl | hv
        · exact h v List.mem_cons_self
        · exact ih (fun w' hw' => h w' (List.mem_cons_of_mem w hw')) hv

theorem rollout_of_mem_publishCatalog {appName : String} {info v : VersionInfo}
    {current : Option AppCatalog} (hinfo : info.rollout = none)
    (hcurrent : ∀ catalog, current = some catalog → ∀ w ∈ catalog.versions, w.rollout = none)
    (hv : v ∈ (publishCatalog S appName info current).versions) : v.rollout = none := by
  have hold : ∀ w ∈ (current.getD ⟨appName, [], info.version⟩).versions, w.rollout = none := by
    cases current with
    | none => simp
    | some catalog => exact hcurrent catalog rfl
  unfold publishCatalog at hv
  dsimp only at hv
  split at hv
  · exact rollout_of_mem_mergeFirst hold hv
  · rcases mem_insertInfo.mp hv with rfl | hv
    · exact hinfo
    · exact hold v hv

theorem RolloutsApart.setCatalog (h : RolloutsApart a) {appName : String} {catalog : AppCatalog}
    (hcatalog : ∀ v ∈ catalog.versions, v.rollout = none) :
    RolloutsApart (a.setCatalog appName catalog) := by
  refine ⟨fun appName' catalog' hread => ?_, h.enabled⟩
  by_cases hname : appName' = appName
  · subst hname
    rw [Artifacts.getAppCatalog_setCatalog_self] at hread
    rw [← Option.some.inj hread]
    exact hcatalog
  · rw [Artifacts.getAppCatalog_setCatalog_ne hname] at hread
    exact h.catalogs appName' catalog' hread

theorem RolloutsApart.effect (h : RolloutsApart a) (heffect : q.Effect X a ok a') :
    RolloutsApart a' := by
  cases heffect with
  | @published e publisher p form r o b b' hr =>
      have hstored : RolloutsApart (a.storeRelease p r o b) := ⟨h.catalogs, h.enabled⟩
      refine hstored.setCatalog fun v hv => ?_
      refine rollout_of_mem_publishCatalog rfl (fun catalog hcatalog => ?_) hv
      cases b' with
      | true => exact h.catalogs _ _ hcatalog
      | false => contradiction
  | diffAdded => exact ⟨h.catalogs, h.enabled⟩
  | @activated e publisher p request catalog catalog' hcatalog hchange =>
      obtain ⟨-, latestVersion, -, rfl⟩ := activateCatalog_ok hchange
      exact h.setCatalog fun v hv => h.catalogs _ _ hcatalog v hv
  | @rolledOut e publisher p request b hle =>
      refine ⟨h.catalogs, fun p' => ?_⟩
      by_cases hp : p' = p
      · subst hp
        rw [Artifacts.getRolloutConfig_setRollout_self]
        cases b with
        | true => exact h.enabled p'
        | false => rfl
      · rw [Artifacts.getRolloutConfig_setRollout_ne hp]
        exact h.enabled p'
  | marked => exact ⟨h.catalogs, h.enabled⟩
  | @deleted e publisher p catalog hcatalog =>
      have hmarked : RolloutsApart (a.markDeleted p) := ⟨h.catalogs, h.enabled⟩
      refine hmarked.setCatalog fun v hv => ?_
      rw [versions_deleteCatalog] at hv
      exact h.catalogs _ _ hcatalog v hv
  | failed hsame =>
      refine ⟨fun appName catalog hread => ?_, fun p => ?_⟩
      · rw [hsame.catalog] at hread
        exact h.catalogs appName catalog hread
      · rw [hsame.rollout]
        exact h.enabled p

/-- In every state that is reached the listing has 100 wherever there is a catalog. -/
theorem RolloutsApart.listedPercentage (h : RolloutsApart a) :
    listedPercentage S a p =
      if (a.getAppCatalog p.appName).isSome then 100 else a.percentage p := by
  unfold Deltaship.listedPercentage
  cases hcatalog : a.getAppCatalog p.appName with
  | none =>
      unfold Artifacts.percentage
      cases a.getRolloutConfig p <;> rfl
  | some catalog =>
      dsimp only [Option.isSome_some, if_true]
      cases hfind : catalog.versions.find? fun v => S.display v.version == p.version with
      | none => rfl
      | some v =>
          rw [Option.bind_some, h.catalogs _ _ hcatalog v (List.mem_of_find?_eq_some hfind)]
          rfl

end Reports

/-! ## what is reported and what is enforced -/

/-- What the listing says of a version is what `get_rollout` answers, and what decides
whether a device is offered the version. -/
structure ReportedAsEnforced (X : ServerCrates) (a : Artifacts) (p : VersionPath)
    (item : VersionListItem) (resp : RolloutResponse) : Prop where
  answered : item.rolloutPercentage = resp.rollout.percentage
  enforced : ∀ query catalog deviceId, Eligible X a p.appName query catalog →
    X.semver.display catalog.latestVersion = p.version → query.deviceIdHash = some deviceId →
    (Offered X a p.appName query ↔ bucket X deviceId < item.rolloutPercentage)

/-- In every state that requests can reach, the listing of a version is right exactly if
the percentage in force is 100 or the application has no catalog. -/
theorem reportedAsEnforced_iff (X : ServerCrates) (s : Store)
    (hrun : Reaches (Request.next X) (fun _ _ => True) Store.empty s) (p : VersionPath)
    (items : List VersionListItem) (item : VersionListItem) (resp : RolloutResponse)
    (hlist : listVersions X.semver s p.appName = .ok items) (hitem : item ∈ items)
    (hversion : item.version = p.version) (hget : getRollout s.toArtifacts p = .ok resp) :
    ReportedAsEnforced X s.toArtifacts p item resp ↔
      s.percentage p = 100 ∨ s.getAppCatalog p.appName = none := by
  have hapart : RolloutsApart s.toArtifacts := by
    refine hrun.invariant (I := fun s => RolloutsApart s.toArtifacts)
      ⟨fun _ _ h => by contradiction, fun _ => rfl⟩ fun s q h _ => h.effect (Request.effect X s q)
  have hlisted := rolloutPercentage_of_mem hlist hitem
  rw [hversion, hapart.listedPercentage] at hlisted
  have hanswered := getRollout_eq_ok hget
  constructor
  · intro h
    cases hcatalog : s.getAppCatalog p.appName with
    | none => exact .inr rfl
    | some catalog =>
        rw [hcatalog] at hlisted
        exact .inl (hanswered.symm.trans (h.answered.symm.trans hlisted))
  · intro h
    have hpercentage : item.rolloutPercentage = s.percentage p := by
      rcases h with h | h
      · rw [hlisted, h]
        exact ite_self 100
      · rw [hlisted, h]
        rfl
    refine ⟨hpercentage.trans hanswered.symm,
      fun query catalog deviceId heligible hlatest hdevice => ?_⟩
    rcases h with h | h
    · have hforce : InForce s.toArtifacts p 100 := ⟨hapart.enabled p, h⟩
      rw [offered_iff_refusal heligible, hlatest, hdevice, hpercentage, h]
      exact rolloutRefusal_eq_none_iff hforce
    · rw [heligible.catalogRead] at h
      contradiction

/-- A version that was published and not staged. -/
theorem reportedAsEnforced_iff_published :
    ReportedAsEnforced sampleServer sampleFirstStore.toArtifacts ⟨"app", "1.0.0"⟩
      (versionListItem sampleSemver sampleFirstStore ⟨"app", "1.0.0"⟩)
      ⟨.default, "Rollout config for version 1.0.0 of app"⟩ := by
  have hrun : Reaches (Request.next sampleServer) (fun _ _ => True) Store.empty sampleFirstStore := by
    have hstep : Reaches (Request.next sampleServer) (fun _ _ => True) Store.empty
        (Request.next sampleServer Store.empty (samplePublish .linuxX86_64 [1] sampleSig1)) :=
      (Reaches.refl _).tail trivial
    rwa [Request.next, samplePublish_run] at hstep
  exact (reportedAsEnforced_iff sampleServer sampleFirstStore hrun ⟨"app", "1.0.0"⟩ _ _ _ rfl
    List.mem_cons_self rfl (by decide)).mpr (.inl rfl)

/-! ### a staged version -/

/-- The request that rolls version 1.0.0 out to half of the devices. -/
def sampleStage : Request :=
  .rollout sampleServerEnv samplePublisher ⟨"app", "1.0.0"⟩ ⟨50⟩

/-- The server after version 1.0.0 was published and staged. -/
def sampleStagedStore : Store :=
  { sampleFirstStore with
    rollouts := Files.ofList [(⟨"app", "1.0.0"⟩, some ⟨50, true, none, none⟩)]
    dirs := [.diffs "app", .app "app", .versions "app", .version ⟨"app", "1.0.0"⟩] }

/-- The rollout of the first version is set to half of the devices. -/
theorem sampleStage_run :
    sampleStage.run sampleServer sampleFirstStore = (true, sampleStagedStore) := by
  decide

/-- A staged version is reported as rolled out to all devices. -/
theorem staged_version_listed_in_full :
    ¬ ∀ (X : ServerCrates) (s : Store),
      Reaches (Request.next X) (fun _ _ => True) Store.empty s →
      ∀ (p : VersionPath) (items : List VersionListItem) (item : VersionListItem)
        (resp : RolloutResponse), listVersions X.semver s p.appName = .ok items → item ∈ items →
        item.version = p.version → getRollout s.toArtifacts p = .ok resp →
        ReportedAsEnforced X s.toArtifacts p item resp := by
  intro h
  have hrun : Reaches (Request.next sampleServer) (fun _ _ => True) Store.empty
      sampleStagedStore := by
    have hsteps : Reaches (Request.next sampleServer) (fun _ _ => True) Store.empty
        (Request.next sampleServer (Request.next sampleServer Store.empty
          (samplePublish .linuxX86_64 [1] sampleSig1)) sampleStage) :=
      ((Reaches.refl _).tail trivial).tail trivial
    rwa [Request.next, Request.next, samplePublish_run, sampleStage_run] at hsteps
  have hreport := h sampleServer sampleStagedStore hrun ⟨"app", "1.0.0"⟩ _
    (versionListItem sampleSemver sampleStagedStore ⟨"app", "1.0.0"⟩)
    ⟨⟨50, true, none, none⟩, "Rollout config for version 1.0.0 of app"⟩ rfl List.mem_cons_self rfl
    (by decide)
  exact absurd hreport.answered (by decide)

end Deltaship
