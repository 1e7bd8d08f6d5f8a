import Deltaship.Lib.Runs
import Deltaship.Server.Effects
import Deltaship.Server.Update

/-!
# Deltaship.Server.Deletion

Whether a deleted version can still be offered, over whole runs of requests.

A deletion sets a marker and moves the latest version on to one without a marker.
Nothing else looks at the markers: a version that is the last one stays the
latest, a deleted version can be activated, and publishing a version again leaves
its marker.  In runs without these three, a deleted version is not offered.
-/

namespace Deltaship

open Prog Runs

/-! ## the property -/

/-- Some client is offered this version. -/
def Offers (X : ServerCrates) (a : Artifacts) (p : VersionPath) : Prop :=
  ∃ query resp target, checkUpdate X a p.appName query = .ok resp ∧ resp.updateAvailable = true ∧
    resp.targetVersion = some target ∧ X.semver.display target = p.version

/-- The request does not publish this version. -/
def NotRepublished (X : ServerCrates) (p : VersionPath) (s : Store) (q : Request) : Prop :=
  ∀ e publisher form, q = .publish e publisher p form → ¬ q.Succeeds X s

/-- In a run from the first request on, a version that was deleted is not offered
until it is published again, and is not marked behind that. -/
def DeletionRespected (X : ServerCrates) (run : List Request) : Prop :=
  ∀ before q after, run = before ++ q :: after →
    q.Succeeds X (final (Request.next X) Store.empty before) →
    (∀ e publisher p, q = .delete e publisher p →
      Permitted (Request.next X) (NotRepublished X p)
        (final (Request.next X) Store.empty (before ++ [q])) after →
      ¬ Offers X (final (Request.next X) Store.empty run).toArtifacts p) ∧
    ∀ e publisher p form, q = .publish e publisher p form →
      (final (Request.next X) Store.empty (before ++ [q])).isDeleted p = false

/-- The condition on a request: it publishes and activates no deleted version,
and deletes the latest version only if the catalog has another one that is not
deleted. -/
def Careful (X : ServerCrates) (s : Store) : Request → Prop
  | .publish _ _ p _ => s.isDeleted p = false
  | .activate _ _ p _ => s.isDeleted p = false
  | .delete _ _ p => ∀ catalog, s.getAppCatalog p.appName = some catalog →
      X.semver.display catalog.latestVersion = p.version →
      ∃ info ∈ catalog.versions, X.semver.display info.version ≠ p.version ∧
        s.isDeleted ⟨p.appName, X.semver.display info.version⟩ = false
  | .uploadDiff _ _ _ _ => True
  | .rollout _ _ _ _ => True

/-! ## one request -/

/- A deleted version is gone if it is marked and is not the latest one of its catalog. A careful
deletion makes it so, and other requests leave it so unless they publish the version again. -/

/-- The versions of the catalogs are what their texts parse to. -/
def CatalogsParse (S : SemverCrate) (a : Artifacts) : Prop :=
  ∀ appName catalog, a.getAppCatalog appName = some catalog →
    ∀ info ∈ catalog.versions, S.parse (S.display info.version) = some info.version

/-- A version is marked, and not the latest one. -/
structure Gone (S : SemverCrate) (p : VersionPath) (a : Artifacts) : Prop where
  marked : a.isDeleted p = true
  notLatest : ∀ catalog, a.getAppCatalog p.appName = some catalog →
    S.display catalog.latestVersion ≠ p.version

section Step

variable {X : ServerCrates} {a a' : Artifacts} {q : Request} {ok : Bool} {p : VersionPath}

/-- What is gone is not offered. -/
theorem Gone.not_offers (h : Gone X.semver p a) : ¬ Offers X a p := by
  rintro ⟨query, resp, target, hresp, havailable, htarget, htext⟩
  obtain ⟨platform, current, catalog, info, hoffer, rfl⟩ := offerOf_of_checkUpdate hresp havailable
  obtain rfl := Option.some.inj htarget
  exact h.notLatest catalog hoffer.catalogRead htext

/-- It is a matter of the catalogs only. -/
theorem catalogsParse_congr (h : CatalogsParse X.semver a)
    (hcatalog : ∀ n, a'.getAppCatalog n = a.getAppCatalog n) : CatalogsParse X.semver a' := by
  intro appName catalog hread
  exact h appName catalog (hcatalog appName ▸ hread)

/-- Replacing a catalog by one whose versions parse. -/
theorem catalogsParse_setCatalog {appName : String} {catalog : AppCatalog}
    (h : CatalogsParse X.semver a)
    (hparse : ∀ info ∈ catalog.versions,
      X.semver.parse (X.semver.display info.version) = some info.version) :
    CatalogsParse X.semver (a.setCatalog appName catalog) := by
  intro n c hread
  by_cases hn : n = appName
  · subst hn
    rw [Artifacts.getAppCatalog_setCatalog_self] at hread
    obtain rfl := Option.some.inj hread
    exact hparse
  · rw [Artifacts.getAppCatalog_setCatalog_ne hn] at hread
    exact h n c hread

/-- Every request leaves the versions of the catalogs parseable. -/
theorem catalogsParse_effect (hS : X.semver.DisplayParse) (h : q.Effect X a ok a')
    (ha : CatalogsParse X.semver a) : CatalogsParse X.semver a' := by
  cases h with
  | @published e publisher p form r o b b' hr =>
      refine catalogsParse_setCatalog (a := a.storeRelease p r o b) ha fun info hinfo => ?_
      rcases version_of_mem_publishCatalog hinfo with heq | ⟨catalog, hcurrent, old, hold, heq⟩
      · rw [heq, show r.info.version = r.version from rfl, hS hr.parse]
        exact hr.parse
      · rw [← heq]
        cases b' with
        | true => exact ha p.appName catalog hcurrent old hold
        | false => contradiction
  | diffAdded => exact ha
  | activated hcatalog hchange =>
      obtain ⟨-, latestVersion, -, rfl⟩ := activateCatalog_ok hchange
      have hold := ha _ _ hcatalog
      exact catalogsParse_setCatalog ha hold
  | rolledOut => exact ha
  | marked => exact ha
  | @deleted e publisher p catalog hcatalog =>
      refine catalogsParse_setCatalog (a := a.markDeleted p) ha ?_
      rw [versions_deleteCatalog]
      exact ha _ _ hcatalog
  | failed hsame => exact catalogsParse_congr ha hsame.catalog

/-- A careful deletion that succeeds. -/
theorem gone_of_delete (hS : X.semver.DisplayParse) {s : Store} {e : ServerEnv}
    {publisher : Publisher} (hparse : CatalogsParse X.semver s.toArtifacts)
    (hcareful : Careful X s (.delete e publisher p))
    (h : (Request.delete e publisher p).Effect X s.toArtifacts true a') : Gone X.semver p a' := by
  have hmarked : (s.toArtifacts.markDeleted p).isDeleted p = true := by
    simp [Artifacts.isDeleted_markDeleted]
  cases h with
  | marked hnone =>
      refine ⟨hmarked, fun catalog hcatalog => ?_⟩
      have hcatalog : s.getAppCatalog p.appName = some catalog := hcatalog
      rw [hnone rfl] at hcatalog
      contradiction
  | deleted hcatalog =>
      refine ⟨hmarked, fun catalog' hcatalog' => ?_⟩
      rw [Artifacts.getAppCatalog_setCatalog_self] at hcatalog'
      obtain rfl := Option.some.inj hcatalog'
      next catalog =>
      have hfallback : ∀ {v latestVersion}, v ∈ availableVersions X.semver
          (fun v => (s.toArtifacts.markDeleted p).isDeleted ⟨p.appName, v⟩) p.version catalog →
          X.semver.parse v = some latestVersion → X.semver.display latestVersion ≠ p.version := by
        intro v latestVersion hv hlatest
        rw [hS hlatest]
        exact (mem_availableVersions.mp hv).2.1
      by_cases hlatest : X.semver.display catalog.latestVersion = p.version
      · obtain ⟨info, hinfo, hne, hunmarked⟩ := hcareful catalog hcatalog hlatest
        have hkept : (s.toArtifacts.markDeleted p).isDeleted
            ⟨p.appName, X.semver.display info.version⟩ = false := by
          rw [Artifacts.isDeleted_markDeleted, hunmarked, Bool.false_or]
          exact beq_eq_false_iff_ne.mpr fun h => hne (congrArg VersionPath.version h)
        have hmem : X.semver.display info.version ∈ availableVersions X.semver
            (fun v => (s.toArtifacts.markDeleted p).isDeleted ⟨p.appName, v⟩) p.version catalog :=
          mem_availableVersions.mpr ⟨⟨info, hinfo, rfl⟩, hne, hkept⟩
        obtain ⟨v, hv, hv'⟩ := latestVersion_deleteCatalog_of_available hlatest
          (hparse _ _ hcatalog) (List.ne_nil_of_mem hmem)
        exact hfallback hv hv'
      · rcases latestVersion_deleteCatalog with hsame | ⟨v, hv, hv'⟩
        · rw [hsame]
          exact hlatest
        · exact hfallback hv hv'

/-- A version that is gone stays gone while it is not published. -/
theorem gone_effect (hS : X.semver.DisplayParse) {s : Store} (hgone : Gone X.semver p s.toArtifacts)
    (hcareful : Careful X s q) (hpublish : NotRepublished X p s q)
    (h : q.Effect X s.toArtifacts (q.run X s).1 a') : Gone X.semver p a' := by
  have hset : ∀ {a : Artifacts} {appName catalog}, Gone X.semver p a →
      (p.appName = appName → X.semver.display catalog.latestVersion ≠ p.version) →
      Gone X.semver p (a.setCatalog appName catalog) := by
    intro a appName catalog hgone hlatest
    refine ⟨hgone.marked, fun c hc => ?_⟩
    by_cases hn : p.appName = appName
    · rw [hn, Artifacts.getAppCatalog_setCatalog_self] at hc
      obtain rfl := Option.some.inj hc
      exact hlatest hn
    · rw [Artifacts.getAppCatalog_setCatalog_ne hn] at hc
      exact hgone.notLatest c hc
  have hmark : ∀ p', Gone X.semver p (s.toArtifacts.markDeleted p') := by
    intro p'
    refine ⟨?_, hgone.notLatest⟩
    rw [Artifacts.isDeleted_markDeleted, hgone.marked, Bool.true_or]
  generalize hrun : (q.run X s).1 = ok at h
  cases h with
  | @published e publisher p' form r o b b' hr =>
      have hne : p ≠ p' := by
        rintro rfl
        exact hpublish e publisher form rfl hrun
      have hstored : Gone X.semver p (s.toArtifacts.storeRelease p' r o b) :=
        ⟨hgone.marked, hgone.notLatest⟩
      refine hset hstored fun hn => ?_
      rcases latestVersion_publishCatalog with hnew | ⟨catalog, hcurrent, hold⟩
      · rw [hnew, show r.info.version = r.version from rfl, hS hr.parse]
        intro hv
        exact hne (by cases p; cases p'; simp_all)
      · rw [hold]
        cases b' with
        | true => exact hgone.notLatest catalog (by rw [hn]; exact hcurrent)
        | false => contradiction
  | diffAdded => exact ⟨hgone.marked, hgone.notLatest⟩
  | @activated e publisher p' request catalog catalog' hcatalog hchange =>
      obtain ⟨-, latestVersion, hparse, rfl⟩ := activateCatalog_ok hchange
      refine hset hgone fun hn hv => ?_
      -- the activated version is not marked, so it is another one
      have hunmarked : s.isDeleted p' = false := hcareful
      rw [hS hparse] at hv
      rw [show p' = p by cases p; cases p'; simp_all, hgone.marked] at hunmarked
      contradiction
  | rolledOut => exact ⟨hgone.marked, hgone.notLatest⟩
  | marked => exact hmark _
  | @deleted e publisher p' catalog hcatalog =>
      refine hset (hmark p') fun hn => ?_
      rcases latestVersion_deleteCatalog with hsame | ⟨v, hv, hparse⟩
      · rw [hsame]
        exact hgone.notLatest catalog (by rw [hn]; exact hcatalog)
      · rw [hS hparse]
        rintro rfl
        -- an available version is not marked
        have hunmarked := (mem_availableVersions.mp hv).2.2
        rw [← hn, (hmark p').marked] at hunmarked
        contradiction
  | failed hsame =>
      refine ⟨?_, fun catalog hcatalog => ?_⟩
      · rw [Artifacts.isDeleted, hsame.deleted]
        exact hgone.marked
      · rw [hsame.catalog] at hcatalog
        exact hgone.notLatest catalog hcatalog

/-- A careful publication leaves no marker. -/
theorem not_isDeleted_of_publish {s : Store} {e : ServerEnv} {publisher : Publisher} {form : Form}
    (hcareful : Careful X s (.publish e publisher p form))
    (h : (Request.publish e publisher p form).Effect X s.toArtifacts true a') :
    a'.isDeleted p = false := by
  cases h with
  | published hr => exact hcareful

end Step

/-! ## whole runs -/

/-- In every run of careful requests deletions are respected. -/
theorem deletionRespected_of_careful {X : ServerCrates} (hS : X.semver.DisplayParse)
    {run : List Request} (h : Permitted (Request.next X) (Careful X) Store.empty run) :
    DeletionRespected X run := by
  rintro before q after rfl hok
  obtain ⟨hbefore, hq, hafter⟩ := permitted_append.mp h
  set s := final (Request.next X) Store.empty before with hs
  have hlast : final (Request.next X) Store.empty (before ++ [q]) = q.next X s := by
    simp [final, hs]
  have heffect := Request.effect X s q
  rw [hok] at heffect
  constructor
  · rintro e publisher p rfl hpublish
    have hparse : CatalogsParse X.semver s.toArtifacts :=
      hbefore.invariant (I := fun s => CatalogsParse X.semver s.toArtifacts)
        (fun _ _ h => by contradiction)
        fun s q hparse _ => catalogsParse_effect hS (Request.effect X s q) hparse
    have hgone := gone_of_delete hS hparse hq heffect
    rw [hlast] at hpublish
    have hend := (hafter.and hpublish).invariant (I := fun s => Gone X.semver p s.toArtifacts) hgone
      fun s q hgone hq => gone_effect hS hgone hq.1 hq.2 (Request.effect X s q)
    have hfinal : final (Request.next X) Store.empty (before ++ .delete e publisher p :: after) =
        final (Request.next X) (Request.next X s (.delete e publisher p)) after := by
      simp [final, hs]
    rw [hfinal]
    exact hend.not_offers
  · rintro e publisher p form rfl
    rw [hlast]
    exact not_isDeleted_of_publish hq heffect

/-! ### two versions and one -/

/-- The request that publishes the binary `[2]` as version 1.1.0. -/
def samplePublishNewer : Request :=
  .publish sampleServerEnv samplePublisher ⟨"app", "1.1.0"⟩ (sampleForm .linuxX86_64 [2] sampleSig2)

/-- The request that deletes a version. -/
def sampleDelete (version : String) : Request :=
  .delete sampleServerEnv samplePublisher ⟨"app", version⟩

/-- The server after versions 1.0.0 and 1.1.0 were published. -/
def sampleNewerStore : Store :=
  { sampleFirstStore with
    catalogs := Files.ofList [("app", some ⟨"app",
      [⟨.new 1 1 0, [.linuxX86_64], none, false, none⟩,
        ⟨.new 1 0 0, [.linuxX86_64], none, false, none⟩], .new 1 1 0⟩)]
    manifests := sampleFirstStore.manifests.write ⟨"app", "1.1.0"⟩ (some ⟨.new 1 1 0,
      Files.ofList [(.linuxX86_64, ⟨(sampleBlake3 [2]).toHex, 1, []⟩)]⟩)
    binaries := sampleFirstStore.binaries.write (⟨"app", "1.1.0"⟩, .linuxX86_64) [2]
    signatures := sampleFirstStore.signatures.write ⟨"app", "1.1.0"⟩ sampleSig2.val
    dirs := .version ⟨"app", "1.1.0"⟩ :: sampleFirstStore.dirs }

/-- The second publication succeeds, and leaves both versions. -/
theorem samplePublishNewer_run :
    samplePublishNewer.run sampleServer sampleFirstStore = (true, sampleNewerStore) := by
  decide +kernel

/-- Of two versions the newer one is deleted. -/
theorem deletionRespected_of_careful_newer :
    DeletionRespected sampleServer
      [samplePublish .linuxX86_64 [1] sampleSig1, samplePublishNewer, sampleDelete "1.1.0"] := by
  refine deletionRespected_of_careful sampleSemver_displayParse ⟨rfl, ?_⟩
  rw [Request.next, samplePublish_run]
  refine ⟨rfl, ?_⟩
  rw [Request.next, samplePublishNewer_run]
  refine ⟨fun catalog hcatalog _ => ?_, trivial⟩
  obtain rfl := Option.some.inj hcatalog
  exact ⟨_, List.mem_cons_of_mem _ List.mem_cons_self, by decide, rfl⟩

/-- The server after the only version was deleted. -/
def sampleDeletedStore : Store := { sampleFirstStore with deleted := [⟨"app", "1.0.0"⟩] }

/-- The only version is offered after it was deleted. -/
theorem deleted_only_version_offered :
    ¬ ∀ (X : ServerCrates) (run : List Request),
      X.semver.DisplayParse → DeletionRespected X run := by
  intro h
  have hdelete : (sampleDelete "1.0.0").run sampleServer sampleFirstStore =
      (true, sampleDeletedStore) := by decide
  have hbefore : final (Request.next sampleServer) Store.empty
      [samplePublish .linuxX86_64 [1] sampleSig1] = sampleFirstStore := by
    rw [final, List.foldl_cons, List.foldl_nil, Request.next, samplePublish_run]
  have hend : final (Request.next sampleServer) Store.empty
      [samplePublish .linuxX86_64 [1] sampleSig1, sampleDelete "1.0.0"] = sampleDeletedStore := by
    rw [final, List.foldl_cons, List.foldl_cons, List.foldl_nil, Request.next, Request.next,
      samplePublish_run, hdelete]
  obtain ⟨hgone, -⟩ := h sampleServer _ sampleSemver_displayParse
    [samplePublish .linuxX86_64 [1] sampleSig1] (sampleDelete "1.0.0") [] rfl
    (by rw [Request.Succeeds, hbefore, hdelete])
  refine hgone _ _ _ rfl trivial ?_
  rw [show [samplePublish .linuxX86_64 [1] sampleSig1] ++ [sampleDelete "1.0.0"] =
    [samplePublish .linuxX86_64 [1] sampleSig1, sampleDelete "1.0.0"] from rfl, hend]
  refine ⟨⟨none, "linux-x86_64", none⟩, offer sampleServer sampleDeletedStore.toArtifacts "app"
    ⟨none, "linux-x86_64", none⟩ .linuxX86_64 (.new 0 0 0)
    ⟨.new 1 0 0, [.linuxX86_64], none, false, none⟩ (.new 1 0 0), .new 1 0 0, ?_, rfl, rfl, ?_⟩
  · decide
  · decide

end Deltaship
