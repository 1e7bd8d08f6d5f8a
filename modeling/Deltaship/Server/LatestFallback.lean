import Deltaship.Server.Deletion
import Mathlib.Data.String.Basic

/-!
# Deltaship.Server.LatestFallback

Which version is the latest one after the latest one was deleted.

`delete_version` compares the texts of the versions that remain, so that it falls back to
the newest of them exactly if that one has the greatest text.
-/

namespace Deltaship

open Prog

/-- An entry of the catalog that is not the deleted version and has no marker. -/
structure Remains (S : SemverCrate) (a : Artifacts) (p : VersionPath) (catalog : AppCatalog)
    (info : VersionInfo) : Prop where
  mem : info ∈ catalog.versions
  other : S.display info.version ≠ p.version
  unmarked : a.isDeleted ⟨p.appName, S.display info.version⟩ = false

/-- The latest version is the maximum of those that remain. -/
def LatestIsNewest (S : SemverCrate) (a : Artifacts) (p : VersionPath) (catalog : AppCatalog)
    (latestVersion : Version) : Prop :=
  (∃ info, Remains S a p catalog info ∧ info.version = latestVersion) ∧
    ∀ info, Remains S a p catalog info → Version.le S info.version latestVersion = true

/-- Of the versions that remain, the one with the greatest text is the maximum. -/
def GreatestTextIsNewest (S : SemverCrate) (a : Artifacts) (p : VersionPath)
    (catalog : AppCatalog) : Prop :=
  ∃ top, Remains S a p catalog top ∧ ∀ info, Remains S a p catalog info →
    S.display info.version ≤ S.display top.version ∧ Version.le S info.version top.version = true

section Fallback

variable {S : SemverCrate} {a : Artifacts} {p : VersionPath} {catalog : AppCatalog}
  {info : VersionInfo}

/-- The texts that a deletion chooses from are those of the entries that remain. -/
theorem mem_availableVersions_iff_remains {v : String} :
    v ∈ availableVersions S (fun v => (a.markDeleted p).isDeleted ⟨p.appName, v⟩) p.version
        catalog ↔ ∃ info, Remains S a p catalog info ∧ S.display info.version = v := by
  have hmark : ∀ v, v ≠ p.version →
      (a.markDeleted p).isDeleted ⟨p.appName, v⟩ = a.isDeleted ⟨p.appName, v⟩ := by
    intro v hne
    have hpath : (⟨p.appName, v⟩ : VersionPath) ≠ p := fun h => hne (congrArg VersionPath.version h)
    rw [Artifacts.isDeleted_markDeleted, beq_eq_false_iff_ne.mpr hpath, Bool.or_false]
  rw [mem_availableVersions]
  constructor
  · rintro ⟨⟨info, hinfo, rfl⟩, hne, hkept⟩
    exact ⟨info, ⟨hinfo, hne, (hmark _ hne).symm.trans hkept⟩, rfl⟩
  · rintro ⟨info, hremains, rfl⟩
    exact ⟨⟨info, hremains.mem, rfl⟩, hremains.other,
      (hmark _ hremains.other).trans hremains.unmarked⟩

/-- The first text is the greatest. -/
theorem le_head_availableVersions {marked : String → Bool} {version v w : String}
    (hhead : (availableVersions S marked version catalog).head? = some v)
    (hw : w ∈ availableVersions S marked version catalog) : w ≤ v := by
  have htotal : Std.Total fun a b : String => b ≤ a := ⟨fun a b => le_total b a⟩
  have htrans : IsTrans String fun a b : String => b ≤ a := ⟨fun a b c hab hbc => hbc.trans hab⟩
  have hsorted : (availableVersions S marked version catalog).Pairwise fun a b => b ≤ a :=
    List.pairwise_insertionSort _ _
  obtain ⟨rest, hv⟩ := List.head?_eq_some_iff.mp hhead
  rw [hv] at hsorted hw
  rcases List.mem_cons.mp hw with rfl | hw
  · exact le_refl w
  · exact (List.pairwise_cons.mp hsorted).1 w hw

/-- The latest version after a deletion of the latest one is the one with the greatest
text. -/
theorem latestVersion_deleteCatalog_greatest
    (hlatest : S.display catalog.latestVersion = p.version)
    (hparse : ∀ info ∈ catalog.versions, S.parse (S.display info.version) = some info.version)
    (hremains : Remains S a p catalog info) :
    ∃ top, Remains S a p catalog top ∧
      (∀ info, Remains S a p catalog info → S.display info.version ≤ S.display top.version) ∧
      (deleteCatalog S (fun v => (a.markDeleted p).isDeleted ⟨p.appName, v⟩) p.version
        catalog).latestVersion = top.version := by
  have hmem := mem_availableVersions_iff_remains.mpr ⟨info, hremains, rfl⟩
  obtain ⟨v, rest, hv⟩ := List.exists_cons_of_ne_nil (List.ne_nil_of_mem hmem)
  have hhead : (availableVersions S (fun v => (a.markDeleted p).isDeleted ⟨p.appName, v⟩)
      p.version catalog).head? = some v := by rw [hv, List.head?_cons]
  obtain ⟨top, htop, rfl⟩ := mem_availableVersions_iff_remains.mp (List.mem_of_mem_head? hhead)
  refine ⟨top, htop, fun info hinfo => ?_, ?_⟩
  · exact le_head_availableVersions hhead
      (mem_availableVersions_iff_remains.mpr ⟨info, hinfo, rfl⟩)
  · simp [deleteCatalog, hlatest, hhead, hparse top htop.mem]

/-- The catalog after a deletion that succeeds. -/
theorem getAppCatalog_next_delete {X : ServerCrates} {s : Store} {e : ServerEnv}
    {publisher : Publisher} (hcatalog : s.getAppCatalog p.appName = some catalog)
    (hdelete : (Request.delete e publisher p).Succeeds X s) :
    ((Request.delete e publisher p).next X s).getAppCatalog p.appName =
      some (deleteCatalog X.semver
        (fun v => (s.toArtifacts.markDeleted p).isDeleted ⟨p.appName, v⟩) p.version catalog) := by
  have heffect := Request.effect X s (.delete e publisher p)
  rw [hdelete] at heffect
  generalize (Request.delete e publisher p).next X s = s' at heffect ⊢
  generalize hs' : s'.toArtifacts = a' at heffect ⊢
  cases heffect with
  | marked hnone => simp [hnone rfl] at hcatalog
  | deleted hread =>
      obtain rfl := Option.some.inj (hcatalog.symm.trans hread)
      rw [Artifacts.getAppCatalog_setCatalog_self]

end Fallback

/-- After the latest version is deleted, the latest one is the newest of those that remain
if and only if that one has the greatest text. -/
theorem latest_is_newest_iff (X : ServerCrates) (s : Store) (e : ServerEnv) (publisher : Publisher)
    (p : VersionPath) (catalog : AppCatalog) (hcatalog : s.getAppCatalog p.appName = some catalog)
    (hparse : ∀ info ∈ catalog.versions,
      X.semver.parse (X.semver.display info.version) = some info.version)
    (hlatest : X.semver.display catalog.latestVersion = p.version)
    (hother : ∃ info, Remains X.semver s.toArtifacts p catalog info)
    (hdelete : (Request.delete e publisher p).Succeeds X s) :
    (∃ catalog', ((Request.delete e publisher p).next X s).getAppCatalog p.appName = some catalog' ∧
        LatestIsNewest X.semver s.toArtifacts p catalog catalog'.latestVersion) ↔
      GreatestTextIsNewest X.semver s.toArtifacts p catalog := by
  obtain ⟨info, hinfo⟩ := hother
  obtain ⟨top, htop, hgreatest, hnew⟩ :=
    latestVersion_deleteCatalog_greatest hlatest hparse hinfo
  have hnext := getAppCatalog_next_delete hcatalog hdelete
  constructor
  · rintro ⟨catalog', hcatalog', -, hnewest⟩
    obtain rfl := Option.some.inj (hnext.symm.trans hcatalog')
    refine ⟨top, htop, fun info hinfo => ⟨hgreatest info hinfo, ?_⟩⟩
    rw [← hnew]
    exact hnewest info hinfo
  · rintro ⟨newest, hnewest, hall⟩
    -- the greatest text is that of one version only
    have htext : X.semver.display newest.version = X.semver.display top.version :=
      le_antisymm (hgreatest newest hnewest) (hall top htop).1
    have hversion : newest.version = top.version := by
      have hparsed := hparse newest hnewest.mem
      rw [htext, hparse top htop.mem] at hparsed
      exact (Option.some.inj hparsed).symm
    refine ⟨_, hnext, ⟨top, htop, hnew.symm⟩, fun info hinfo => ?_⟩
    rw [hnew, ← hversion]
    exact (hall info hinfo).2

/-- Of two versions the newer one is deleted. -/
theorem latest_is_newest_of_two :
    ∃ catalog', ((sampleDelete "1.1.0").next sampleServer sampleNewerStore).getAppCatalog "app" =
        some catalog' ∧
      LatestIsNewest sampleSemver sampleNewerStore.toArtifacts ⟨"app", "1.1.0"⟩
        ⟨"app", [⟨.new 1 1 0, [.linuxX86_64], none, false, none⟩,
          ⟨.new 1 0 0, [.linuxX86_64], none, false, none⟩], .new 1 1 0⟩ catalog'.latestVersion := by
  have hremains : Remains sampleSemver sampleNewerStore.toArtifacts ⟨"app", "1.1.0"⟩
      ⟨"app", [⟨.new 1 1 0, [.linuxX86_64], none, false, none⟩,
        ⟨.new 1 0 0, [.linuxX86_64], none, false, none⟩], .new 1 1 0⟩
      ⟨.new 1 0 0, [.linuxX86_64], none, false, none⟩ :=
    ⟨List.mem_cons_of_mem _ List.mem_cons_self, by decide, rfl⟩
  refine (latest_is_newest_iff sampleServer sampleNewerStore sampleServerEnv samplePublisher
    ⟨"app", "1.1.0"⟩ _ rfl (by decide) (by decide) ⟨_, hremains⟩
    (by unfold Request.Succeeds; decide)).mpr ⟨_, hremains, fun info hinfo => ?_⟩
  -- the only one that remains
  rcases List.mem_cons.mp hinfo.mem with rfl | hmem
  · exact absurd hinfo.other (by decide)
  · rw [List.mem_singleton.mp hmem]
    exact ⟨le_refl _, by decide⟩

/-! ### a minor version of two digits -/

/-- The crate on versions 2.0.0, 1.10.0 and 1.9.0. -/
def sampleMinorServer : ServerCrates :=
  { sampleServer with semver := semverOf [.new 2 0 0, .new 1 10 0, .new 1 9 0] }

/-- A catalog of these versions. -/
def sampleMinorCatalog (latestVersion : Version) : AppCatalog :=
  ⟨"app", [⟨.new 2 0 0, [.linuxX86_64], none, false, none⟩,
    ⟨.new 1 10 0, [.linuxX86_64], none, false, none⟩,
    ⟨.new 1 9 0, [.linuxX86_64], none, false, none⟩], latestVersion⟩

/-- A server with these versions. -/
def sampleMinorStore : Store :=
  { Store.empty with
    catalogs := Files.ofList [("app", some (sampleMinorCatalog (.new 2 0 0)))]
    dirs := [.version ⟨"app", "2.0.0"⟩, .version ⟨"app", "1.10.0"⟩, .version ⟨"app", "1.9.0"⟩] }

/-- After version 2.0.0 is deleted, 1.9.0 is the latest one, and not 1.10.0. -/
theorem fallback_to_older :
    ¬ ∀ (X : ServerCrates) (s : Store) (e : ServerEnv) (publisher : Publisher) (p : VersionPath)
        (catalog : AppCatalog), s.getAppCatalog p.appName = some catalog →
      (∀ info ∈ catalog.versions,
        X.semver.parse (X.semver.display info.version) = some info.version) →
      X.semver.display catalog.latestVersion = p.version →
      (∃ info, Remains X.semver s.toArtifacts p catalog info) →
      (Request.delete e publisher p).Succeeds X s →
      ∃ catalog', ((Request.delete e publisher p).next X s).getAppCatalog p.appName =
          some catalog' ∧
        LatestIsNewest X.semver s.toArtifacts p catalog catalog'.latestVersion := by
  intro h
  have hremains : Remains sampleMinorServer.semver sampleMinorStore.toArtifacts ⟨"app", "2.0.0"⟩
      (sampleMinorCatalog (.new 2 0 0)) ⟨.new 1 10 0, [.linuxX86_64], none, false, none⟩ :=
    ⟨List.mem_cons_of_mem _ List.mem_cons_self, by decide, rfl⟩
  obtain ⟨catalog', hcatalog', -, hnewest⟩ := h sampleMinorServer sampleMinorStore sampleServerEnv
    samplePublisher ⟨"app", "2.0.0"⟩ (sampleMinorCatalog (.new 2 0 0)) rfl (by decide)
    (by decide) ⟨_, hremains⟩ (by unfold Request.Succeeds; decide)
  have hafter : ((sampleDelete "2.0.0").next sampleMinorServer sampleMinorStore).getAppCatalog
      "app" = some (sampleMinorCatalog (.new 1 9 0)) := by decide
  obtain rfl := Option.some.inj (hafter.symm.trans hcatalog')
  exact absurd (hnewest _ hremains) (by decide)

end Deltaship
