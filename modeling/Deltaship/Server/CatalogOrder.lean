import Deltaship.Core.Precedence
import Deltaship.Lib.Runs
import Deltaship.Server.Deletion
import Deltaship.Server.Effects
import Mathlib.Data.List.Induction

/-!
# Deltaship.Server.CatalogOrder

What a catalog lists, over whole runs of requests: the versions that were published, from
the newest down, each with its platforms.

The place of a new version is found by a binary search, which relies on the order that
the requests before have kept.  A catalog that a publication fails to read counts as
empty, so that the versions before it are lost.
-/

namespace Deltaship

open Runs

/-! ## catalogs in order -/

/-- The entries are strictly descending. -/
def Descending (S : SemverCrate) (versions : List VersionInfo) : Prop :=
  versions.Pairwise fun v w => Version.gt S v.version w.version = true

section Order

variable {S : SemverCrate} {info : VersionInfo} {versions : List VersionInfo}

/-- In a list in order, a merge changes the one entry of the version. -/
theorem mergeFirst_eq_map (hS : S.PreOrdered) (h : Descending S versions) :
    mergeFirst info versions = versions.map fun v =>
      if Version.eq v.version info.version then mergeInfo v info else v := by
  induction versions with
  | nil => rfl
  | cons v rest ih =>
      obtain ⟨hv, hrest⟩ := List.pairwise_cons.mp h
      rw [mergeFirst, List.map_cons]
      by_cases heq : Version.eq v.version info.version = true
      · rw [if_pos heq, if_pos heq]
        -- the others are of other versions
        have hsame : rest.map (fun v =>
            if Version.eq v.version info.version then mergeInfo v info else v) = rest := by
          refine (List.map_congr_left fun w hw => ?_).trans (List.map_id rest)
          refine if_neg fun hw' => ?_
          have hne := Version.eq_false_of_gt hS (hv w hw)
          rw [Version.eq_trans heq (Version.eq_symm hw')] at hne
          contradiction
        rw [hsame]
      · rw [if_neg heq, if_neg heq, ih hrest]

/-- A list in order, without the version, is split where the search ends. -/
theorem exists_split (hS : S.PreOrdered) (h : Descending S versions)
    (hnew : ∀ v ∈ versions, Version.eq v.version info.version = false) :
    ∃ newer older, versions = newer ++ older ∧
      (∀ v ∈ newer, Version.gt S v.version info.version = true) ∧
      ∀ v ∈ older, Version.gt S info.version v.version = true := by
  induction versions with
  | nil => exact ⟨[], [], rfl, by simp, by simp⟩
  | cons v rest ih =>
      obtain ⟨hv, hrest⟩ := List.pairwise_cons.mp h
      obtain ⟨newer, older, hsplit, hnewer, holder⟩ :=
        ih hrest fun w hw => hnew w (List.mem_cons_of_mem v hw)
      by_cases hgt : Version.gt S v.version info.version = true
      · refine ⟨v :: newer, older, by rw [hsplit, List.cons_append], ?_, holder⟩
        simpa using ⟨hgt, hnewer⟩
      · have hless := Version.gt_of_not_gt hS hgt (hnew v List.mem_cons_self)
        refine ⟨[], v :: rest, rfl, by simp, fun w hw => ?_⟩
        rcases List.mem_cons.mp hw with rfl | hw
        · exact hless
        · exact Version.gt_trans hS hless (hv w hw)

/-- A new version is inserted between the newer and the older ones. -/
theorem insertInfo_eq (hS : S.PreOrdered) (h : Descending S versions)
    (hnew : ∀ v ∈ versions, Version.eq v.version info.version = false) :
    ∃ newer older, versions = newer ++ older ∧
      (∀ v ∈ newer, Version.gt S v.version info.version = true) ∧
      (∀ v ∈ older, Version.gt S info.version v.version = true) ∧
      insertInfo S info versions = newer ++ info :: older := by
  obtain ⟨newer, older, rfl, hnewer, holder⟩ := exists_split hS h hnew
  refine ⟨newer, older, rfl, hnewer, holder, ?_⟩
  have hplace : BinarySearch.place (fun v => Version.cmp S info.version v.version)
      (newer ++ older) = newer.length := by
    refine BinarySearch.place_of_split (fun v hv => ?_) fun v hv => Version.gt_iff.mp (holder v hv)
    have htrans := Version.transCmp hS
    rw [htrans.eq_swap, Version.gt_iff.mp (hnewer v hv)]
    rfl
  rw [insertInfo, hplace, BinarySearch.insertIdx_length_append]

/-- A version that is inserted by binary search keeps the order. -/
theorem descending_insertInfo (hS : S.PreOrdered) (h : Descending S versions)
    (hnew : ∀ v ∈ versions, Version.eq v.version info.version = false) :
    Descending S (insertInfo S info versions) := by
  obtain ⟨newer, older, rfl, hnewer, holder, heq⟩ := insertInfo_eq hS h hnew
  obtain ⟨hfront, hback, hacross⟩ := List.pairwise_append.mp h
  rw [Descending, heq]
  refine List.pairwise_append.mpr ⟨hfront, List.pairwise_cons.mpr ⟨holder, hback⟩, ?_⟩
  intro v hv w hw
  rcases List.mem_cons.mp hw with rfl | hw
  · exact hnewer v hv
  · exact hacross v hv w hw

/-- Adding a platform to an entry keeps the order. -/
theorem descending_mergeFirst (hS : S.PreOrdered) (h : Descending S versions) :
    Descending S (mergeFirst info versions) := by
  rw [Descending, mergeFirst_eq_map hS h, List.pairwise_map]
  have hversion : ∀ v : VersionInfo,
      (if Version.eq v.version info.version then mergeInfo v info else v).version = v.version := by
    intro v
    split <;> rfl
  simp only [hversion]
  exact h

end Order

/-! ## what a catalog lists -/

/- The abstract catalog is the list of the publications that succeeded, in their order. The stored
one keeps one entry for versions that compare as equal, with the entries sorted, and finds the entry
by a binary search. -/

/-- The catalog lists what was published: its entries are in order, and have the versions
and the platforms of the publications. -/
structure Lists (S : SemverCrate) (published : List (Version × Platform)) (catalog : AppCatalog) :
    Prop where
  descending : Descending S catalog.versions
  all : ∀ e ∈ published, ∃ info ∈ catalog.versions, Version.eq info.version e.1 = true
  only : ∀ info ∈ catalog.versions, ∃ e ∈ published, Version.eq info.version e.1 = true
  nodup : ∀ info ∈ catalog.versions, info.platforms.Nodup
  platforms : ∀ info ∈ catalog.versions, ∀ platform, platform ∈ info.platforms ↔
    ∃ e ∈ published, Version.eq info.version e.1 = true ∧ e.2 = platform
  latest : ∃ info ∈ catalog.versions, Version.eq info.version catalog.latestVersion = true

/-- There is no catalog before the first publication, and then one that lists what was
published. -/
structure Represents (S : SemverCrate) (published : List (Version × Platform))
    (current : Option AppCatalog) : Prop where
  missing : current = none → published = []
  lists : ∀ catalog, current = some catalog → Lists S published catalog

section Lists

variable {S : SemverCrate} {appName : String} {info : VersionInfo} {platform : Platform}
  {published : List (Version × Platform)} {catalog : AppCatalog}

/-- The first publication. -/
theorem lists_publish_first (hinfo : info.platforms = [platform]) :
    Lists S [(info.version, platform)] (publishCatalog S appName info none) := by
  have hversions : (publishCatalog S appName info none).versions = [info] := by
    simp [publishCatalog, insertInfo, BinarySearch.place, BinarySearch.binarySearchBy]
  have hlatest : (publishCatalog S appName info none).latestVersion = info.version := by
    simp [publishCatalog]
  constructor
  · rw [hversions]
    exact List.pairwise_singleton _ _
  · simp [hversions, Version.eq_refl]
  · simp [hversions, Version.eq_refl]
  · simp [hversions, hinfo]
  · intro v hv platform'
    obtain rfl : v = info := by simpa [hversions] using hv
    simp [hinfo, Version.eq_refl, eq_comm (a := platform)]
  · simp [hversions, hlatest, Version.eq_refl]

/-- What is found in a longer list is found in the shorter one or at its end. -/
theorem exists_mem_concat {α : Type} {l : List α} {x : α} {P : α → Prop} :
    (∃ y ∈ l ++ [x], P y) ↔ (∃ y ∈ l, P y) ∨ P x := by
  simp [or_and_right, exists_or]

theorem mergePlatforms_singleton (old : List Platform) (platform : Platform) :
    mergePlatforms old [platform] =
      if old.contains platform then old else old ++ [platform] := rfl

/-- A publication of a version that is listed. -/
theorem Lists.merge (hS : S.PreOrdered) (h : Lists S published catalog)
    (hinfo : info.platforms = [platform])
    (hlisted : ∃ v ∈ catalog.versions, Version.eq v.version info.version = true) :
    Lists S (published ++ [(info.version, platform)])
      { catalog with versions := mergeFirst info catalog.versions } := by
  obtain ⟨found, hfound, hfoundEq⟩ := hlisted
  have hmem : ∀ {w}, w ∈ mergeFirst info catalog.versions →
      ∃ v ∈ catalog.versions, w.version = v.version ∧ w.platforms =
        if Version.eq v.version info.version then mergePlatforms v.platforms [platform]
        else v.platforms := by
    intro w hw
    rw [mergeFirst_eq_map hS h.descending] at hw
    obtain ⟨v, hv, rfl⟩ := List.mem_map.mp hw
    refine ⟨v, hv, ?_⟩
    split
    · exact ⟨rfl, by rw [mergeInfo, hinfo]⟩
    · exact ⟨rfl, rfl⟩
  have hexists : ∀ {v}, v ∈ catalog.versions →
      ∃ w ∈ mergeFirst info catalog.versions, w.version = v.version :=
    fun hv => exists_mem_mergeFirst hv
  constructor
  · exact descending_mergeFirst hS h.descending
  · intro e he
    obtain ⟨v, hv, heq⟩ : ∃ v ∈ catalog.versions, Version.eq v.version e.1 = true := by
      rcases List.mem_append.mp he with he | he
      · exact h.all e he
      · rw [List.mem_singleton.mp he]
        exact ⟨found, hfound, hfoundEq⟩
    obtain ⟨w, hw, hversion⟩ := hexists hv
    exact ⟨w, hw, hversion ▸ heq⟩
  · intro w hw
    obtain ⟨v, hv, hversion, -⟩ := hmem hw
    obtain ⟨e, he, heq⟩ := h.only v hv
    exact ⟨e, List.mem_append_left _ he, hversion ▸ heq⟩
  · intro w hw
    obtain ⟨v, hv, -, hplatforms⟩ := hmem hw
    have hold := h.nodup v hv
    rw [hplatforms, mergePlatforms_singleton]
    split
    · split
      · exact hold
      · next hnot =>
          have hnot : platform ∉ v.platforms := by simpa using hnot
          refine List.nodup_append.mpr ⟨hold, List.nodup_singleton _, fun q hq q' hq' heq => ?_⟩
          rw [heq, List.mem_singleton.mp hq'] at hq
          exact hnot hq
    · exact hold
  · intro w hw platform'
    obtain ⟨v, hv, hversion, hplatforms⟩ := hmem hw
    rw [exists_mem_concat, hversion, ← h.platforms v hv, hplatforms]
    split
    · next heq => simp [mem_mergePlatforms, heq, eq_comm]
    · next hne => simp [hne]
  · obtain ⟨v, hv, heq⟩ := h.latest
    obtain ⟨w, hw, hversion⟩ := hexists hv
    exact ⟨w, hw, hversion ▸ heq⟩

/-- A publication of a version that is not listed. -/
theorem Lists.insert (hS : S.PreOrdered) (h : Lists S published catalog)
    (hinfo : info.platforms = [platform])
    (hnew : ∀ v ∈ catalog.versions, Version.eq v.version info.version = false) :
    Lists S (published ++ [(info.version, platform)])
      { catalog with versions := insertInfo S info catalog.versions } := by
  constructor
  · exact descending_insertInfo hS h.descending hnew
  · intro e he
    rcases List.mem_append.mp he with he | he
    · obtain ⟨v, hv, heq⟩ := h.all e he
      exact ⟨v, mem_insertInfo.mpr (.inr hv), heq⟩
    · rw [List.mem_singleton.mp he]
      exact ⟨info, mem_insertInfo.mpr (.inl rfl), Version.eq_refl _⟩
  · intro v hv
    rw [exists_mem_concat]
    rcases mem_insertInfo.mp hv with rfl | hv
    · exact .inr (Version.eq_refl _)
    · exact .inl (h.only v hv)
  · intro v hv
    rcases mem_insertInfo.mp hv with rfl | hv
    · rw [hinfo]
      exact List.nodup_singleton _
    · exact h.nodup v hv
  · intro v hv platform'
    rw [exists_mem_concat]
    rcases mem_insertInfo.mp hv with rfl | hv
    · -- nothing was published for it before
      have hnone : ¬ ∃ e ∈ published, Version.eq v.version e.1 = true ∧ e.2 = platform' := by
        rintro ⟨e, he, heq, -⟩
        obtain ⟨w, hw, heq'⟩ := h.all e he
        have hne := hnew w hw
        rw [Version.eq_trans heq' (Version.eq_symm heq)] at hne
        contradiction
      simp only [hinfo, List.mem_singleton, hnone, false_or, Version.eq_refl, true_and]
      exact eq_comm
    · simp [← h.platforms v hv, hnew v hv]
  · obtain ⟨v, hv, heq⟩ := h.latest
    exact ⟨v, mem_insertInfo.mpr (.inr hv), heq⟩

/-- Another version that is listed becomes the latest one. -/
theorem Lists.setLatest (h : Lists S published catalog) {latestVersion : Version}
    (hlatest : ∃ info ∈ catalog.versions, Version.eq info.version latestVersion = true) :
    Lists S published { catalog with latestVersion } :=
  ⟨h.descending, h.all, h.only, h.nodup, h.platforms, hlatest⟩

/-- A catalog that lists what was published represents it. -/
theorem Lists.represents (h : Lists S published catalog) :
    Represents S published (some catalog) where
  missing hnone := by contradiction
  lists catalog' heq := by
    rw [← Option.some.inj heq]
    exact h

/-- A publication. -/
theorem lists_publish (hS : S.PreOrdered) {current : Option AppCatalog}
    (h : Represents S published current) (hinfo : info.platforms = [platform]) :
    Lists S (published ++ [(info.version, platform)]) (publishCatalog S appName info current) := by
  cases current with
  | none =>
      obtain rfl := h.missing rfl
      exact lists_publish_first hinfo
  | some catalog =>
      have h := h.lists catalog rfl
      have hversions : Lists S (published ++ [(info.version, platform)]) { catalog with
          versions := if catalog.versions.any fun v => Version.eq v.version info.version then
            mergeFirst info catalog.versions else insertInfo S info catalog.versions } := by
        split
        · next hany => exact h.merge hS hinfo (List.any_eq_true.mp hany)
        · next hnone =>
            refine h.insert hS hinfo fun v hv => Bool.eq_false_iff.mpr fun heq => ?_
            exact hnone (List.any_eq_true.mpr ⟨v, hv, heq⟩)
      refine hversions.setLatest ?_
      rw [Option.getD_some]
      by_cases hgt : Version.gt S info.version catalog.latestVersion = true
      · rw [if_pos hgt]
        exact hversions.all _ (List.mem_append_right _ List.mem_cons_self)
      · rw [if_neg hgt]
        exact hversions.latest

/-- The greater one of a version and the latest version so far. -/
def IsMax (S : SemverCrate) (version : Version) (current : Option AppCatalog) (new : Version) :
    Prop :=
  match current with
  | none => new = version
  | some catalog => (new = version ∨ new = catalog.latestVersion) ∧
      Version.le S version new = true ∧ Version.le S catalog.latestVersion new = true

/-- The latest version is the largest one behind a publication, too. -/
theorem isMax_publish (hS : S.PreOrdered) {current : Option AppCatalog} :
    IsMax S info.version current (publishCatalog S appName info current).latestVersion := by
  cases current with
  | none => simp [IsMax, publishCatalog]
  | some catalog =>
      have hlatest : (publishCatalog S appName info (some catalog)).latestVersion =
          if Version.gt S info.version catalog.latestVersion then info.version
          else catalog.latestVersion := rfl
      rw [hlatest]
      by_cases hgt : Version.gt S info.version catalog.latestVersion = true
      · rw [if_pos hgt]
        exact ⟨.inl rfl, Version.le_refl hS _, Version.le_of_gt hS hgt⟩
      · rw [if_neg hgt]
        exact ⟨.inr rfl, Version.le_iff_not_gt.mpr hgt, Version.le_refl hS _⟩

/-- The versions of a catalog are what their texts parse to. -/
def Parses (S : SemverCrate) (current : Option AppCatalog) : Prop :=
  ∀ catalog, current = some catalog →
    ∀ info ∈ catalog.versions, S.parse (S.display info.version) = some info.version

/-- The version that is activated is listed. -/
theorem Lists.activate {version : String} {catalog' : AppCatalog}
    (h : Lists S published catalog) (hparses : Parses S (some catalog))
    (hchange : activateCatalog S version catalog = .ok catalog') :
    Lists S published catalog' := by
  obtain ⟨⟨info, hinfo, htext⟩, latestVersion, hparse, rfl⟩ := activateCatalog_ok hchange
  refine h.setLatest ⟨info, hinfo, ?_⟩
  have hsame := hparses catalog rfl info hinfo
  rw [htext, hparse] at hsame
  rw [Option.some.inj hsame]
  exact Version.eq_refl _

/-- The version that a deletion falls back to is listed. -/
theorem Lists.delete {marked : String → Bool} {version : String}
    (h : Lists S published catalog) (hparses : Parses S (some catalog)) :
    Lists S published (deleteCatalog S marked version catalog) := by
  have hcatalog : deleteCatalog S marked version catalog =
      { catalog with latestVersion := (deleteCatalog S marked version catalog).latestVersion } := by
    unfold deleteCatalog
    split
    · split <;> rfl
    · rfl
  rw [hcatalog]
  refine h.setLatest ?_
  rcases latestVersion_deleteCatalog with hsame | ⟨text, havailable, hparse⟩
  · rw [hsame]
    exact h.latest
  · obtain ⟨⟨info, hinfo, rfl⟩, -⟩ := mem_availableVersions.mp havailable
    rw [hparses catalog rfl info hinfo] at hparse
    rw [← Option.some.inj hparse]
    exact ⟨info, hinfo, Version.eq_refl _⟩

end Lists

/-! ## runs -/

/- The requests of a run that publish for the application, if they succeed, are a list of
publications; all others leave the catalog listing what it listed. -/

/-- What a request publishes for an application, if it succeeds. -/
def Request.publication (X : ServerCrates) (appName : String) :
    Request → Option (Version × Platform)
  | .publish _ _ p form =>
    if p.appName = appName then do
      let version ← X.semver.parse p.version
      let platform ← (lastText "platform" form.fields).bind Platform.parse
      some (version, platform)
    else none
  | _ => none

/-- What is published for an application by the requests of a run that succeed. -/
def publications (X : ServerCrates) (appName : String) :
    Store → List Request → List (Version × Platform)
  | _, [] => []
  | s, q :: run =>
    (if q.Succeeds X s then (q.publication X appName).toList else []) ++
      publications X appName (q.next X s) run

/-- A request that succeeds is in the list. -/
theorem publications_cons_of_run {X : ServerCrates} {appName : String} {s s' : Store}
    {q : Request} {run : List Request} (h : q.run X s = (true, s')) :
    publications X appName s (q :: run) =
      (q.publication X appName).toList ++ publications X appName s' run := by
  have hok : q.Succeeds X s := congrArg Prod.fst h
  rw [publications, if_pos hok, Request.next, h]

/-- A publication can read the catalog, if there is one. -/
def ReadsCatalog (appName : String) (s : Store) (q : Request) : Prop :=
  ∀ e publisher p form, q = .publish e publisher p form → p.appName = appName →
    s.getAppCatalog appName ≠ none → e.faults (.catalog .read) = none

section Runs

variable {X : ServerCrates} {appName : String} {s : Store} {q : Request}
  {published : List (Version × Platform)}

/-- What a publication that succeeds leaves. -/
theorem getAppCatalog_publish {e : ServerEnv} {publisher : Publisher} {p : VersionPath}
    {form : Form} (h : (Request.publish e publisher p form).Succeeds X s)
    (hreads : ReadsCatalog p.appName s (.publish e publisher p form)) :
    ∃ r : Release, r.Accepted X publisher p form.fields ∧
      ((Request.publish e publisher p form).next X s).getAppCatalog p.appName =
        some (publishCatalog X.semver p.appName r.info (s.getAppCatalog p.appName)) := by
  obtain ⟨r, hr, hnext⟩ := Request.publish_next h
  refine ⟨r, hr, ?_⟩
  rw [hnext, Artifacts.getAppCatalog_publish_self]
  cases hcatalog : s.getAppCatalog p.appName with
  | none => simp
  | some catalog =>
      have hread := hreads e publisher p form rfl rfl (by simp [hcatalog])
      simp [hread]

theorem publications_append (X : ServerCrates) (appName : String) (s : Store)
    (run : List Request) (q : Request) :
    publications X appName s (run ++ [q]) =
      publications X appName s run ++
        if q.Succeeds X (final (Request.next X) s run) then (q.publication X appName).toList
        else [] := by
  induction run generalizing s with
  | nil =>
      simp only [List.nil_append, publications, List.append_nil]
      rfl
  | cons q' run ih =>
      simp only [List.cons_append, publications, ih, List.append_assoc]
      rfl

/-- A publication is that of the release it was accepted for. -/
theorem publication_of_accepted {e : ServerEnv} {publisher : Publisher} {p : VersionPath}
    {form : Form} {r : Release} (hr : r.Accepted X publisher p form.fields) :
    (Request.publish e publisher p form).publication X p.appName =
      some (r.version, r.platform) := by
  simp [Request.publication, hr.parse, hr.platform]

/-- A publication keeps the versions of the catalog parseable. -/
theorem Parses.publish {info : VersionInfo} {current : Option AppCatalog}
    (h : Parses X.semver current)
    (hinfo : X.semver.parse (X.semver.display info.version) = some info.version) :
    Parses X.semver (some (publishCatalog X.semver appName info current)) := by
  intro catalog hcatalog v hv
  obtain rfl := Option.some.inj hcatalog
  rcases version_of_mem_publishCatalog hv with heq | ⟨old, hold, w, hw, heq⟩
  · rw [heq]
    exact hinfo
  · rw [← heq]
    exact h old hold w hw

/-- A request that does not publish for the application. -/
theorem represents_other {a a' : Artifacts} {ok : Bool} (heffect : q.Effect X a ok a')
    (hnone : ok = true → q.publication X appName = none)
    (h : Represents X.semver published (a.getAppCatalog appName))
    (hparses : Parses X.semver (a.getAppCatalog appName)) :
    Represents X.semver published (a'.getAppCatalog appName) ∧
      Parses X.semver (a'.getAppCatalog appName) := by
  -- the catalog stays as it is, or is another one in order
  have hset : ∀ {a : Artifacts} {name : String} {catalog : AppCatalog},
      Represents X.semver published (a.getAppCatalog appName) →
      Parses X.semver (a.getAppCatalog appName) →
      (appName = name → Lists X.semver published catalog ∧ Parses X.semver (some catalog)) →
      Represents X.semver published ((a.setCatalog name catalog).getAppCatalog appName) ∧
        Parses X.semver ((a.setCatalog name catalog).getAppCatalog appName) := by
    intro a name catalog h hparses hnew
    by_cases hname : appName = name
    · subst hname
      rw [Artifacts.getAppCatalog_setCatalog_self]
      exact ⟨(hnew rfl).1.represents, (hnew rfl).2⟩
    · rw [Artifacts.getAppCatalog_setCatalog_ne hname]
      exact ⟨h, hparses⟩
  cases heffect with
  | @published e publisher p form r o b b' hr =>
      have hname : appName ≠ p.appName := by
        rintro rfl
        rw [publication_of_accepted hr] at hnone
        exact absurd (hnone rfl) (Option.some_ne_none _)
      rw [Artifacts.getAppCatalog_publish_ne hname]
      exact ⟨h, hparses⟩
  | diffAdded => exact ⟨h, hparses⟩
  | @activated e publisher p request catalog catalog' hcatalog hchange =>
      refine hset h hparses fun hname => ?_
      subst hname
      rw [hcatalog] at h hparses
      refine ⟨(h.lists catalog rfl).activate hparses hchange, fun c hc => ?_⟩
      obtain rfl := Option.some.inj hc
      obtain ⟨-, latestVersion, -, rfl⟩ := activateCatalog_ok hchange
      exact hparses catalog rfl
  | rolledOut => exact ⟨h, hparses⟩
  | marked => exact ⟨h, hparses⟩
  | @deleted e publisher p catalog hcatalog =>
      refine hset (a := a.markDeleted p) h hparses fun hname => ?_
      subst hname
      rw [hcatalog] at h hparses
      refine ⟨(h.lists catalog rfl).delete hparses, fun c hc => ?_⟩
      obtain rfl := Option.some.inj hc
      rw [versions_deleteCatalog]
      exact hparses catalog rfl
  | failed hsame =>
      rw [hsame.catalog]
      exact ⟨h, hparses⟩

/-- One request. -/
theorem represents_next (hdisplay : X.semver.DisplayParse) (hS : X.semver.PreOrdered)
    (h : Represents X.semver published (s.getAppCatalog appName))
    (hparses : Parses X.semver (s.getAppCatalog appName)) (hreads : ReadsCatalog appName s q) :
    Represents X.semver
        (published ++ if q.Succeeds X s then (q.publication X appName).toList else [])
        ((q.next X s).getAppCatalog appName) ∧
      Parses X.semver ((q.next X s).getAppCatalog appName) := by
  by_cases hpublishes : q.Succeeds X s ∧ q.publication X appName ≠ none
  · obtain ⟨hok, hpublication⟩ := hpublishes
    cases q with
    | publish e publisher p form =>
        obtain rfl : p.appName = appName := by
          by_contra hname
          exact hpublication (if_neg hname)
        obtain ⟨r, hr, hnext⟩ := getAppCatalog_publish hok hreads
        rw [hnext, if_pos hok, publication_of_accepted hr]
        have hlists : Lists X.semver (published ++ [(r.info.version, r.platform)])
            (publishCatalog X.semver p.appName r.info (s.getAppCatalog p.appName)) :=
          lists_publish hS h rfl
        refine ⟨hlists.represents, hparses.publish ?_⟩
        rw [show r.info.version = r.version from rfl, hdisplay hr.parse]
        exact hr.parse
    | uploadDiff => exact absurd rfl hpublication
    | activate => exact absurd rfl hpublication
    | rollout => exact absurd rfl hpublication
    | delete => exact absurd rfl hpublication
  · have hnone : q.Succeeds X s → q.publication X appName = none := by
      intro hok
      by_contra hne
      exact hpublishes ⟨hok, hne⟩
    have hlist : (if q.Succeeds X s then (q.publication X appName).toList else []) = [] := by
      split
      · next hok => rw [hnone hok, Option.toList_none]
      · rfl
    rw [hlist, List.append_nil]
    exact represents_other (Request.effect X s q) hnone h hparses

end Runs

/-- In every run in which publications can read the catalog, from a state without a
catalog on, the catalog of an application lists what was published, and the next
publication makes the greater one of its version and the latest one the latest one. -/
theorem catalog_represents (X : ServerCrates) (hdisplay : X.semver.DisplayParse)
    (hS : X.semver.PreOrdered) (appName : String) (s : Store)
    (hnone : s.getAppCatalog appName = none) (run : List Request)
    (hrun : Permitted (Request.next X) (ReadsCatalog appName) s run) :
    Represents X.semver (publications X appName s run)
        ((final (Request.next X) s run).getAppCatalog appName) ∧
      ∀ e publisher p form, p.appName = appName →
        (Request.publish e publisher p form).Succeeds X (final (Request.next X) s run) →
        ReadsCatalog appName (final (Request.next X) s run) (.publish e publisher p form) →
        ∃ version catalog, X.semver.parse p.version = some version ∧
          ((Request.publish e publisher p form).next X
            (final (Request.next X) s run)).getAppCatalog appName = some catalog ∧
          IsMax X.semver version ((final (Request.next X) s run).getAppCatalog appName)
            catalog.latestVersion := by
  have hstate : Represents X.semver (publications X appName s run)
        ((final (Request.next X) s run).getAppCatalog appName) ∧
      Parses X.semver ((final (Request.next X) s run).getAppCatalog appName) := by
    induction run using List.reverseRecOn with
    | nil =>
        rw [show (final (Request.next X) s []).getAppCatalog appName = none from hnone]
        exact ⟨⟨fun _ => rfl, fun _ h => by contradiction⟩, fun _ h => by contradiction⟩
    | append_singleton run q ih =>
        obtain ⟨hbefore, hlast, -⟩ := permitted_append.mp hrun
        obtain ⟨hrepresents, hparses⟩ := ih hbefore
        rw [publications_append, final_append]
        exact represents_next hdisplay hS hrepresents hparses hlast
  refine ⟨hstate.1, ?_⟩
  rintro e publisher p form rfl hok hreads
  obtain ⟨r, hr, hnext⟩ := getAppCatalog_publish hok hreads
  exact ⟨r.version, _, hr.parse, hnext, isMax_publish hS⟩

/-- Two publications. -/
theorem catalog_represents_newer :
    Represents sampleSemver [(.new 1 0 0, .linuxX86_64), (.new 1 1 0, .linuxX86_64)]
      (sampleNewerStore.getAppCatalog "app") := by
  have hrun : Permitted (Request.next sampleServer) (ReadsCatalog "app") Store.empty
      [samplePublish .linuxX86_64 [1] sampleSig1, samplePublishNewer] := by
    refine ⟨fun _ _ _ _ _ _ hcatalog => absurd rfl hcatalog, fun e publisher p form hq _ _ => ?_,
      trivial⟩
    cases hq
    rfl
  have hS : sampleServer.semver.PreOrdered := semverOf_preOrdered sampleVersions
  have hnone : Store.empty.getAppCatalog "app" = none := rfl
  have hlists := (catalog_represents sampleServer sampleSemver_displayParse hS "app" Store.empty
    hnone _ hrun).1
  have hpublications : publications sampleServer "app" Store.empty
      [samplePublish .linuxX86_64 [1] sampleSig1, samplePublishNewer] =
        [(.new 1 0 0, .linuxX86_64), (.new 1 1 0, .linuxX86_64)] := by
    rw [publications_cons_of_run samplePublish_run, publications_cons_of_run samplePublishNewer_run,
      publications]
    decide
  have hfinal : final (Request.next sampleServer) Store.empty
      [samplePublish .linuxX86_64 [1] sampleSig1, samplePublishNewer] = sampleNewerStore := by
    rw [final, List.foldl_cons, List.foldl_cons, List.foldl_nil, Request.next, Request.next,
      samplePublish_run, samplePublishNewer_run]
  rwa [hpublications, hfinal] at hlists

/-! ### a catalog that is not read -/

/-- A host on which reading the catalog fails. -/
def sampleUnreadable : ServerEnv :=
  { sampleServerEnv with
    faults := fun
      | .catalog .read => some 0
      | _ => none }

/-- The request that publishes version 1.1.0 there. -/
def samplePublishUnread : Request :=
  .publish sampleUnreadable samplePublisher ⟨"app", "1.1.0"⟩ (sampleForm .linuxX86_64 [2] sampleSig2)

/-- A catalog that cannot be read is replaced by one with the new version only. -/
theorem samplePublishUnread_run : ∃ s',
    samplePublishUnread.run sampleServer sampleFirstStore = (true, s') ∧ s'.getAppCatalog "app" =
      some ⟨"app", [⟨.new 1 1 0, [.linuxX86_64], none, false, none⟩], .new 1 1 0⟩ := by
  have h : (samplePublishUnread.run sampleServer sampleFirstStore).1 = true ∧
      (samplePublishUnread.run sampleServer sampleFirstStore).2.getAppCatalog "app" =
        some ⟨"app", [⟨.new 1 1 0, [.linuxX86_64], none, false, none⟩], .new 1 1 0⟩ := by
    decide +kernel
  revert h
  generalize samplePublishUnread.run sampleServer sampleFirstStore = x
  intro h
  exact ⟨x.2, Prod.ext h.1 rfl, h.2⟩

/-- The publication of version 1.1.0 succeeds, and the catalog does not list 1.0.0. -/
theorem unread_catalog_forgets :
    ¬ ∀ (X : ServerCrates) (appName : String) (s : Store) (run : List Request),
      X.semver.DisplayParse → X.semver.PreOrdered → s.getAppCatalog appName = none →
      Represents X.semver (publications X appName s run)
        ((final (Request.next X) s run).getAppCatalog appName) := by
  intro h
  have hlists := h sampleServer "app" Store.empty
    [samplePublish .linuxX86_64 [1] sampleSig1, samplePublishUnread] sampleSemver_displayParse
    (semverOf_preOrdered _) rfl
  obtain ⟨s', hrun, hcatalog⟩ := samplePublishUnread_run
  have hpublications : publications sampleServer "app" Store.empty
      [samplePublish .linuxX86_64 [1] sampleSig1, samplePublishUnread] =
        [(.new 1 0 0, .linuxX86_64), (.new 1 1 0, .linuxX86_64)] := by
    rw [publications_cons_of_run samplePublish_run, publications_cons_of_run hrun, publications]
    decide
  have hfinal : final (Request.next sampleServer) Store.empty
      [samplePublish .linuxX86_64 [1] sampleSig1, samplePublishUnread] = s' := by
    rw [final, List.foldl_cons, List.foldl_cons, List.foldl_nil, Request.next, Request.next,
      samplePublish_run, hrun]
  rw [hpublications, hfinal, hcatalog] at hlists
  obtain ⟨info, hinfo, heq⟩ := (hlists.lists _ rfl).all _ List.mem_cons_self
  rw [List.mem_singleton.mp hinfo] at heq
  exact absurd heq (by decide)

end Deltaship
