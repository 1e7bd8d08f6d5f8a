import Deltaship.Core.Platform
import Deltaship.Core.Version
import Deltaship.Crypto.Signing
import Deltaship.Lib.BinarySearch
import Deltaship.Lib.Files
import Mathlib.Data.List.Sort

/-!
# Deltaship.Server.Models

The records the server keeps in its JSON files, the checks on the names that
come with a request, and what each kind of request does to a catalog.

A catalog finds a version by `==`, which ignores build metadata; everything
else the server stores is found by the text of the version.
-/

namespace Deltaship

/-! ## records -/

/-- `RolloutConfig`. -/
structure RolloutConfig where
  percentage : Nat
  enabled : Bool
  startedAt : Option String
  completedAt : Option String
deriving DecidableEq, Repr

/-- `Default for RolloutConfig`. -/
def RolloutConfig.default : RolloutConfig := ⟨100, true, none, none⟩

/-- `VersionInfo`. -/
structure VersionInfo where
  version : Version
  platforms : List Platform
  releaseNotes : Option String
  forced : Bool
  rollout : Option RolloutConfig
deriving DecidableEq, Repr

/-- `AppCatalog`. -/
structure AppCatalog where
  appName : String
  versions : List VersionInfo
  latestVersion : Version
deriving DecidableEq, Repr

/-- `DiffInfo`. -/
structure DiffInfo where
  fromVersion : Version
  checksum : String
  size : Nat
  algorithm : String
deriving DecidableEq, Repr

/-- `PlatformArtifact`. -/
structure PlatformArtifact where
  checksum : String
  size : Nat
  diffsFrom : List DiffInfo
deriving DecidableEq, Repr

/-- `VersionManifest`. -/
structure VersionManifest where
  version : Version
  platforms : Files Platform PlatformArtifact
deriving DecidableEq

/-- The order in which a `HashMap` of platforms is walked.  The standard library draws it anew
for every map. -/
structure MapOrder where
  platforms : List Platform
  nodup : platforms.Nodup
  complete : ∀ platform, platform ∈ platforms

namespace VersionManifest

/-- The manifest as `serde_json` writes it, its platforms in the order of their map. -/
def inOrder (m : VersionManifest) (order : MapOrder) : VersionManifest :=
  { m with platforms := m.platforms.arrange order.platforms order.nodup }

/-- The order of the platforms is not part of the version. -/
@[simp] theorem version_inOrder (m : VersionManifest) (order : MapOrder) :
    (m.inOrder order).version = m.version := rfl

/-- Every platform is read as before. -/
@[simp] theorem read_inOrder (m : VersionManifest) (order : MapOrder) (platform : Platform) :
    (m.inOrder order).platforms.read platform = m.platforms.read platform :=
  m.platforms.read_arrange order.nodup (order.complete platform)

/-- Manifests that read the same are written the same in one order. -/
theorem inOrder_congr {m m' : VersionManifest} {order : MapOrder}
    (hversion : m.version = m'.version)
    (hread : ∀ platform, m.platforms.read platform = m'.platforms.read platform) :
    m.inOrder order = m'.inOrder order := by
  unfold inOrder
  rw [Files.arrange_congr hread, hversion]

end VersionManifest

/-- `Publisher`: the identity behind an API key. -/
structure Publisher where
  owner : String
  allowedApps : Option (List String)
  pubkey : Option (ByteVec 32)
deriving DecidableEq, Repr

/-- `Publisher::can_publish`. -/
def Publisher.canPublish (p : Publisher) (appName : String) : Bool :=
  match p.allowedApps with
  | none => true
  | some apps => apps.contains appName

/-! ## names -/

/-- `ValidationError`, as far as names can cause it. -/
inductive ValidationError where
  | empty | tooLong | invalidCharacters | pathTraversal | nullByte
deriving DecidableEq, Repr

/-- `MAX_NAME_LENGTH`. -/
def maxNameLength : Nat := 255

/-- The checks that `validate_name` and `validate_version` share; they differ in
the characters they allow. -/
def validateText (allowed : Char → Bool) (s : String) : Except ValidationError Unit :=
  if s.isEmpty then .error .empty
  else if Text.byteLen s > maxNameLength then .error .tooLong
  else if s.toList.contains (Char.ofNat 0) then .error .nullByte
  else if Text.contains s ".." || s.toList.contains '/' || s.toList.contains (Char.ofNat 92) then
    .error .pathTraversal
  else if s.toList.all allowed then .ok ()
  else .error .invalidCharacters

/-- The letters, digits and punctuation of `VALID_NAME_REGEX`. -/
def nameChar (c : Char) : Bool :=
  c.isAlpha || c.isDigit || c == '.' || c == '_' || c == '-'

/-- The characters of `VALID_VERSION_REGEX`. -/
def versionChar (c : Char) : Bool := nameChar c || c == '+'

/-- `validate_name`. -/
def validateName : String → Except ValidationError Unit := validateText nameChar

/-- `validate_version`. -/
def validateVersion : String → Except ValidationError Unit := validateText versionChar

/-- What is accepted. -/
theorem validateText_ok {allowed : Char → Bool} {s : String}
    (h : validateText allowed s = .ok ()) :
    s.isEmpty = false ∧ Text.byteLen s ≤ maxNameLength ∧ Text.contains s ".." = false ∧
      '/' ∉ s.toList ∧ ∀ c ∈ s.toList, allowed c = true := by
  unfold validateText at h
  split at h
  · contradiction
  · next hempty =>
      split at h
      · contradiction
      · next hlong =>
          split at h
          · contradiction
          · split at h
            · contradiction
            · next htraversal =>
                split at h
                · next hall =>
                    simp only [Bool.or_eq_true, not_or, List.contains_eq_mem, decide_eq_true_eq]
                      at htraversal
                    exact ⟨by simpa using hempty, Nat.le_of_not_lt hlong,
                      by simpa using htraversal.1.1,
                      htraversal.1.2, List.all_eq_true.mp hall⟩
                · contradiction

/-! ## catalogs -/

section Catalog

variable (S : SemverCrate)

/-- The platforms of a version that was published again. -/
def mergePlatforms (old new : List Platform) : List Platform :=
  new.foldl (fun acc p => if acc.contains p then acc else acc ++ [p]) old

/-- The entry of a version that was published again. -/
def mergeInfo (existing info : VersionInfo) : VersionInfo :=
  { existing with
    platforms := mergePlatforms existing.platforms info.platforms
    releaseNotes := if info.releaseNotes.isSome then info.releaseNotes else existing.releaseNotes }

/-- Merge into the first entry of the same version. -/
def mergeFirst (info : VersionInfo) : List VersionInfo → List VersionInfo
  | [] => []
  | v :: rest =>
    if Version.eq v.version info.version then mergeInfo v info :: rest
    else v :: mergeFirst info rest

/-- Insert an entry where `binary_search_by` finds its place, in a list with the newest
first. -/
def insertInfo (info : VersionInfo) (versions : List VersionInfo) : List VersionInfo :=
  let pos := BinarySearch.place (fun v => Version.cmp S info.version v.version) versions
  versions.insertIdx pos info

/-- The change `update_catalog_atomic` makes; a file that is missing or does not
parse counts as an empty catalog. -/
def publishCatalog (appName : String) (info : VersionInfo) (current : Option AppCatalog) :
    AppCatalog :=
  let catalog := current.getD ⟨appName, [], info.version⟩
  let versions :=
    if catalog.versions.any fun v => Version.eq v.version info.version then
      mergeFirst info catalog.versions
    else insertInfo S info catalog.versions
  { catalog with
    versions
    latestVersion :=
      if Version.gt S info.version catalog.latestVersion then info.version
      else catalog.latestVersion }

/-- `StorageError`; the texts of the first two come from the host. -/
inductive StorageError where
  | io
  | json
  | notFound (msg : String)
deriving DecidableEq, Repr

/-- The change `set_latest_version` makes. -/
def activateCatalog (version : String) (catalog : AppCatalog) : Except StorageError AppCatalog :=
  if catalog.versions.any fun v => S.display v.version == version then
    match S.parse version with
    | some latestVersion => .ok { catalog with latestVersion }
    | none => .error (.notFound s!"Invalid version: {version}")
  else .error (.notFound s!"Version {version} not found in catalog")

/-- The versions `delete_version` may fall back to, from the greatest text
down. -/
def availableVersions (marked : String → Bool) (version : String) (catalog : AppCatalog) :
    List String :=
  ((catalog.versions.map fun v => S.display v.version).filter fun v =>
    v != version && !marked v).insertionSort fun a b => b ≤ a

/-- The change `delete_version` makes, given the versions marked as deleted. -/
def deleteCatalog (marked : String → Bool) (version : String) (catalog : AppCatalog) : AppCatalog :=
  if S.display catalog.latestVersion == version then
    match (availableVersions S marked version catalog).head?.bind S.parse with
    | some latestVersion => { catalog with latestVersion }
    | none => catalog
  else catalog

end Catalog

/-! ### what a change can do -/

/- A catalog is changed in three ways, by a publication, an activation and a deletion. These lemmas
say of each what becomes of the versions, the platforms and the latest version, and the invariants
of runs use them instead of the definitions. -/

section Changes

variable {S : SemverCrate} {appName version : String} {info : VersionInfo}
  {current : Option AppCatalog} {catalog catalog' : AppCatalog}

theorem version_of_mem_mergeFirst {versions : List VersionInfo} {v : VersionInfo}
    (h : v ∈ mergeFirst info versions) : ∃ old ∈ versions, old.version = v.version := by
  induction versions with
  | nil => contradiction
  | cons w rest ih =>
      unfold mergeFirst at h
      split at h
      · rcases List.mem_cons.mp h with rfl | h
        · exact ⟨w, List.mem_cons_self, rfl⟩
        · exact ⟨v, List.mem_cons_of_mem w h, rfl⟩
      · rcases List.mem_cons.mp h with rfl | h
        · exact ⟨v, List.mem_cons_self, rfl⟩
        · obtain ⟨old, hold, heq⟩ := ih h
          exact ⟨old, List.mem_cons_of_mem w hold, heq⟩

/-- An entry that is inserted is one more. -/
theorem mem_insertInfo {versions : List VersionInfo} {v : VersionInfo} :
    v ∈ insertInfo S info versions ↔ v = info ∨ v ∈ versions :=
  List.mem_insertIdx (BinarySearch.place_le versions)

/-- The versions of a catalog after a publication are those from before and the
new one. -/
theorem version_of_mem_publishCatalog {v : VersionInfo}
    (h : v ∈ (publishCatalog S appName info current).versions) :
    v.version = info.version ∨
      ∃ catalog, current = some catalog ∧ ∃ old ∈ catalog.versions, old.version = v.version := by
  unfold publishCatalog at h
  dsimp only at h
  have hold : ∀ {old : VersionInfo}, old ∈ (current.getD ⟨appName, [], info.version⟩).versions →
      old.version = v.version → ∃ catalog, current = some catalog ∧
        ∃ old ∈ catalog.versions, old.version = v.version := by
    intro old hmem heq
    cases current with
    | none => contradiction
    | some catalog => exact ⟨catalog, rfl, old, hmem, heq⟩
  split at h
  · obtain ⟨old, hmem, heq⟩ := version_of_mem_mergeFirst h
    exact .inr (hold hmem heq)
  · rcases mem_insertInfo.mp h with rfl | hmem
    · exact .inl rfl
    · exact .inr (hold hmem rfl)

theorem mem_mergePlatforms {platform : Platform} {new old : List Platform} :
    platform ∈ mergePlatforms old new ↔ platform ∈ old ∨ platform ∈ new := by
  unfold mergePlatforms
  induction new generalizing old with
  | nil => simp
  | cons q rest ih =>
      rw [List.foldl_cons, ih, List.mem_cons]
      by_cases hq : q ∈ old
      · simp only [List.contains_eq_mem, hq, decide_true, if_true]
        constructor
        · tauto
        · rintro (h | rfl | h)
          exacts [.inl h, .inl hq, .inr h]
      · simp [hq, or_assoc]

/-- A platform of a merged entry was there before, or is a new one of the same
version. -/
theorem platform_of_mem_mergeFirst {versions : List VersionInfo} {v : VersionInfo}
    {platform : Platform} (h : v ∈ mergeFirst info versions) (hp : platform ∈ v.platforms) :
    (∃ old ∈ versions, old.version = v.version ∧ platform ∈ old.platforms) ∨
      (Version.eq v.version info.version = true ∧ platform ∈ info.platforms) := by
  induction versions with
  | nil => contradiction
  | cons w rest ih =>
      unfold mergeFirst at h
      split at h
      · next heq =>
          rcases List.mem_cons.mp h with rfl | h
          · rcases mem_mergePlatforms.mp hp with hold | hnew
            · exact .inl ⟨w, List.mem_cons_self, rfl, hold⟩
            · exact .inr ⟨heq, hnew⟩
          · exact .inl ⟨v, List.mem_cons_of_mem w h, rfl, hp⟩
      · rcases List.mem_cons.mp h with rfl | h
        · exact .inl ⟨v, List.mem_cons_self, rfl, hp⟩
        · rcases ih h with ⟨old, hold, hsame⟩ | hnew
          · exact .inl ⟨old, List.mem_cons_of_mem w hold, hsame⟩
          · exact .inr hnew

/-- A merge keeps every version. -/
theorem exists_mem_mergeFirst {versions : List VersionInfo} {v : VersionInfo} (h : v ∈ versions) :
    ∃ w ∈ mergeFirst info versions, w.version = v.version := by
  induction versions with
  | nil => contradiction
  | cons w rest ih =>
      unfold mergeFirst
      split
      · rcases List.mem_cons.mp h with rfl | h
        · exact ⟨_, List.mem_cons_self, rfl⟩
        · exact ⟨v, List.mem_cons_of_mem _ h, rfl⟩
      · rcases List.mem_cons.mp h with rfl | h
        · exact ⟨v, List.mem_cons_self, rfl⟩
        · obtain ⟨w', hw', heq⟩ := ih h
          exact ⟨w', List.mem_cons_of_mem _ hw', heq⟩

/-- A platform of an entry after a publication was there before, or was published
under an equal version. -/
theorem platform_of_mem_publishCatalog {v : VersionInfo} {platform : Platform}
    (h : v ∈ (publishCatalog S appName info current).versions) (hp : platform ∈ v.platforms) :
    (∃ catalog, current = some catalog ∧
        ∃ old ∈ catalog.versions, old.version = v.version ∧ platform ∈ old.platforms) ∨
      (Version.eq v.version info.version = true ∧ platform ∈ info.platforms) := by
  unfold publishCatalog at h
  cases current with
  | none =>
      obtain rfl : v = info := by
        simpa [insertInfo, BinarySearch.place, BinarySearch.binarySearchBy] using h
      exact .inr ⟨Version.eq_refl _, hp⟩
  | some catalog =>
      dsimp only [Option.getD_some] at h
      split at h
      · rcases platform_of_mem_mergeFirst h hp with hold | hnew
        · exact .inl ⟨catalog, rfl, hold⟩
        · exact .inr hnew
      · rcases mem_insertInfo.mp h with rfl | hmem
        · exact .inr ⟨Version.eq_refl _, hp⟩
        · exact .inl ⟨catalog, rfl, v, hmem, rfl, hp⟩

/-- A publication keeps every version of the catalog that it reads. -/
theorem exists_mem_publishCatalog {v : VersionInfo} (hcurrent : current = some catalog)
    (h : v ∈ catalog.versions) :
    ∃ w ∈ (publishCatalog S appName info current).versions, w.version = v.version := by
  subst hcurrent
  unfold publishCatalog
  dsimp only [Option.getD_some]
  split
  · exact exists_mem_mergeFirst h
  · exact ⟨v, mem_insertInfo.mpr (.inr h), rfl⟩

/-- A published version is in the catalog, perhaps with other build metadata. -/
theorem exists_eq_mem_publishCatalog :
    ∃ w ∈ (publishCatalog S appName info current).versions,
      Version.eq w.version info.version = true := by
  unfold publishCatalog
  dsimp only
  split
  · next hany =>
      obtain ⟨v, hv, heq⟩ := List.any_eq_true.mp hany
      obtain ⟨w, hw, hsame⟩ := exists_mem_mergeFirst hv
      exact ⟨w, hw, hsame ▸ heq⟩
  · exact ⟨info, mem_insertInfo.mpr (.inl rfl), Version.eq_refl _⟩

/-- The latest version after a publication is the new one or that from before. -/
theorem latestVersion_publishCatalog :
    (publishCatalog S appName info current).latestVersion = info.version ∨
      ∃ catalog, current = some catalog ∧
        (publishCatalog S appName info current).latestVersion = catalog.latestVersion := by
  unfold publishCatalog
  dsimp only
  split
  · exact .inl rfl
  · cases current with
    | none => exact .inl rfl
    | some catalog => exact .inr ⟨catalog, rfl, rfl⟩

/-- An activation makes the version the latest one, and changes nothing else. -/
theorem activateCatalog_ok (h : activateCatalog S version catalog = .ok catalog') :
    (∃ v ∈ catalog.versions, S.display v.version = version) ∧
      ∃ latestVersion, S.parse version = some latestVersion ∧
        catalog' = { catalog with latestVersion } := by
  unfold activateCatalog at h
  split at h
  · next hany =>
      split at h
      · next latestVersion hparse =>
          obtain ⟨v, hv, heq⟩ := List.any_eq_true.mp hany
          exact ⟨⟨v, hv, beq_iff_eq.mp heq⟩, latestVersion, hparse, (Except.ok.inj h).symm⟩
      · contradiction
  · contradiction

/-- What is available is in the catalog, not the deleted one, and not marked. -/
theorem mem_availableVersions {marked : String → Bool} {v : String} :
    v ∈ availableVersions S marked version catalog ↔
      (∃ info ∈ catalog.versions, S.display info.version = v) ∧ v ≠ version ∧ marked v = false := by
  simp [availableVersions, List.mem_insertionSort]

@[simp] theorem versions_deleteCatalog {marked : String → Bool} :
    (deleteCatalog S marked version catalog).versions = catalog.versions := by
  unfold deleteCatalog
  repeat' split
  all_goals rfl

/-- A deletion keeps the latest version, or falls back to an available one. -/
theorem latestVersion_deleteCatalog {marked : String → Bool} :
    (deleteCatalog S marked version catalog).latestVersion = catalog.latestVersion ∨
      ∃ v ∈ availableVersions S marked version catalog,
        S.parse v = some (deleteCatalog S marked version catalog).latestVersion := by
  unfold deleteCatalog
  split
  · split
    · next latestVersion h =>
        obtain ⟨v, hv, hparse⟩ := Option.bind_eq_some_iff.mp h
        exact .inr ⟨v, List.mem_of_mem_head? hv, hparse⟩
    · exact .inl rfl
  · exact .inl rfl

/-- Deleting the latest version falls back if every available version parses and
there is one. -/
theorem latestVersion_deleteCatalog_of_available {marked : String → Bool}
    (hlatest : S.display catalog.latestVersion = version)
    (hparse : ∀ info ∈ catalog.versions, S.parse (S.display info.version) = some info.version)
    (havailable : availableVersions S marked version catalog ≠ []) :
    ∃ v ∈ availableVersions S marked version catalog,
      S.parse v = some (deleteCatalog S marked version catalog).latestVersion := by
  obtain ⟨v, rest, hv⟩ := List.exists_cons_of_ne_nil havailable
  have hmem : v ∈ availableVersions S marked version catalog := by
    rw [hv]
    exact List.mem_cons_self
  obtain ⟨⟨info, hinfo, rfl⟩, -⟩ := mem_availableVersions.mp hmem
  refine ⟨_, hmem, ?_⟩
  simp [deleteCatalog, hlatest, hv, hparse info hinfo]

end Changes

end Deltaship
