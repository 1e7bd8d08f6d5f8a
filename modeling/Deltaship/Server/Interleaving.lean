import Deltaship.Lib.Replace
import Deltaship.Server.Models

/-!
# Deltaship.Server.Interleaving

Requests that change the catalog of an application at the same time.

`update_catalog_atomic` and `set_latest_version` hold the mutex of the application,
`delete_version` does not; all three lock the `catalog.json` that they opened, read it
by its path and replace it through the same `catalog.json.tmp`.  A deletion that waited
for the lock of a catalog that was replaced meanwhile runs beside a publication that
opened the new one, and the last rename wins.
-/

namespace Deltaship

open Runs

/-- What a request does to the catalog. -/
inductive CatalogChange where
  | publish (info : VersionInfo)
  | activate (version : String)
  /-- With what its checks for the markers of deleted versions find. -/
  | delete (version : String) (marked : String → Bool)

namespace CatalogChange

/-- Whether the request takes the mutex of the application. -/
def takesMutex : CatalogChange → Bool
  | publish _ | activate _ => true
  | delete _ _ => false

/-- Whether the request opens the catalog with `create(true)`. -/
def creates : CatalogChange → Bool
  | publish _ => true
  | activate _ | delete _ _ => false

/-- Whether the request succeeds without a catalog. -/
def skips : CatalogChange → Bool
  | delete _ _ => true
  | publish _ | activate _ => false

/-- The catalog that the request writes. -/
def update (S : SemverCrate) (appName : String) :
    CatalogChange → Option AppCatalog → Option AppCatalog
  | publish info, current => some (publishCatalog S appName info current)
  | activate version, current => current.bind fun c => (activateCatalog S version c).toOption
  | delete version marked, current => current.map (deleteCatalog S marked version)

/-- Without a catalog there is nothing to change but by a publication. -/
theorem update_none {S : SemverCrate} {appName : String} {change : CatalogChange}
    (h : change.creates = false) : change.update S appName none = none := by
  cases change with
  | publish info => contradiction
  | activate version => rfl
  | delete version marked => rfl

end CatalogChange

variable {ι : Type}

/-- The requests to one application. -/
def catalogProtocol (S : SemverCrate) (appName : String) (requests : ι → CatalogChange) :
    Replace.Protocol ι AppCatalog where
  guarded i := (requests i).takesMutex
  creates i := (requests i).creates
  skips i := (requests i).skips
  update i := (requests i).update S appName
  update_none _ h := CatalogChange.update_none h

/-- The catalog is as if the requests had come one after another, and has every version
that was published. -/
structure NoLostUpdate (S : SemverCrate) (appName : String) (requests : ι → CatalogChange)
    (initial final : Option (Option AppCatalog)) : Prop where
  serial : Replace.Serial (catalogProtocol S appName requests) initial final
  published : ∀ i info, requests i = .publish info → ∃ catalog, final = some (some catalog) ∧
    ∃ entry ∈ catalog.versions, Version.eq entry.version info.version = true

/-! ## versions stay -/

section Versions

variable {S : SemverCrate} {appName : String} {requests : ι → CatalogChange} {i : ι} {v : Version}
  {file file' : Option (Option AppCatalog)}

/-- The catalog has a version, perhaps with other build metadata. -/
def HasVersion (file : Option (Option AppCatalog)) (v : Version) : Prop :=
  ∃ catalog, file = some (some catalog) ∧
    ∃ entry ∈ catalog.versions, Version.eq entry.version v = true

/-- No change drops a version. -/
theorem HasVersion.apply (h : HasVersion file v)
    (happly : Replace.apply (catalogProtocol S appName requests) file i = some file') :
    HasVersion file' v := by
  obtain ⟨catalog, rfl, entry, hentry, heq⟩ := h
  obtain ⟨new, hnew, rfl⟩ := Option.map_eq_some_iff.mp happly
  refine ⟨new, rfl, ?_⟩
  change (requests i).update S appName (some catalog) = some new at hnew
  cases hchange : requests i with
  | publish info =>
      rw [hchange] at hnew
      obtain rfl := Option.some.inj hnew
      obtain ⟨w, hw, hversion⟩ : ∃ w ∈ (publishCatalog S appName info (some catalog)).versions,
          w.version = entry.version := exists_mem_publishCatalog rfl hentry
      exact ⟨w, hw, hversion ▸ heq⟩
  | activate version =>
      rw [hchange] at hnew
      cases hactivate : activateCatalog S version catalog with
      | error err => simp [CatalogChange.update, hactivate, Except.toOption] at hnew
      | ok catalog' =>
          simp only [CatalogChange.update, hactivate, Option.bind_some, Except.toOption,
            Option.some.injEq] at hnew
          obtain ⟨-, latestVersion, -, rfl⟩ := activateCatalog_ok hactivate
          subst hnew
          exact ⟨entry, hentry, heq⟩
  | delete version marked =>
      rw [hchange] at hnew
      obtain rfl := Option.some.inj hnew
      exact ⟨entry, by rw [versions_deleteCatalog]; exact hentry, heq⟩

/-- A version that is in the catalog stays there through every change. -/
theorem HasVersion.foldlM {order : List ι} (h : HasVersion file v)
    (hfold : order.foldlM (Replace.apply (catalogProtocol S appName requests)) file = some file') :
    HasVersion file' v := by
  induction order generalizing file with
  | nil => exact Option.some.inj hfold ▸ h
  | cons i rest ih =>
      rw [List.foldlM_cons] at hfold
      obtain ⟨mid, happly, hrest⟩ := Option.bind_eq_some_iff.mp hfold
      exact ih (h.apply happly) hrest

/-- A publication puts its version into the catalog. -/
theorem hasVersion_of_publish {info : VersionInfo} (hrequest : requests i = .publish info)
    (happly : Replace.apply (catalogProtocol S appName requests) file i = some file') :
    HasVersion file' info.version := by
  have hcreates : (catalogProtocol S appName requests).creates i = true := by
    show (requests i).creates = true
    rw [hrequest]
    rfl
  simp only [Replace.apply, hcreates, Bool.not_true, Bool.and_false, Bool.false_eq_true,
    if_false] at happly
  obtain ⟨new, hnew, rfl⟩ := Option.map_eq_some_iff.mp happly
  change (requests i).update S appName file.join = some new at hnew
  rw [hrequest] at hnew
  obtain rfl := Option.some.inj hnew
  exact ⟨_, rfl, exists_eq_mem_publishCatalog⟩

/-- Requests one after another lose no version. -/
theorem noLostUpdate_of_serial
    (h : Replace.Serial (catalogProtocol S appName requests) file file') :
    NoLostUpdate S appName requests file file' := by
  refine ⟨h, fun i info hrequest => ?_⟩
  obtain ⟨order, -, hall, hfold⟩ := h
  obtain ⟨before, after, rfl⟩ := List.append_of_mem (hall i)
  rw [List.foldlM_append] at hfold
  obtain ⟨mid, -, hfold⟩ := Option.bind_eq_some_iff.mp hfold
  rw [List.foldlM_cons] at hfold
  obtain ⟨mid', happly, hrest⟩ := Option.bind_eq_some_iff.mp hfold
  exact (hasVersion_of_publish hrequest happly).foldlM hrest

end Versions

/-- No update of a catalog is lost if no request reads it while another one, that
locked another inode and does not share the mutex, is between its read and its rename. -/
theorem no_lost_update [DecidableEq ι] (S : SemverCrate) (appName : String)
    (requests : ι → CatalogChange) (initial : Option (Option AppCatalog))
    (s : Replace.State ι AppCatalog)
    (hrun : Reaches (Replace.next (catalogProtocol S appName requests))
      (fun s i => Replace.Enabled (catalogProtocol S appName requests) s i ∧
        Replace.Apart (catalogProtocol S appName requests) s i) (Replace.State.init initial) s)
    (hdone : ∀ i, s.phase i = .done) : NoLostUpdate S appName requests initial s.file :=
  noLostUpdate_of_serial (Replace.serial_of_apart hrun hdone)

/-! ### three requests -/

/-- The catalog with version 1.0.0. -/
def sampleCatalog : AppCatalog :=
  ⟨"app", [⟨.new 1 0 0, [.linuxX86_64], none, false, none⟩], .new 1 0 0⟩

/-- Version 1.1.0 is published, version 1.0.0 deleted and version 2.0.0 published. -/
def sampleChanges : Fin 3 → CatalogChange
  | 0 => .publish ⟨.new 1 1 0, [.linuxX86_64], none, false, none⟩
  | 1 => .delete "1.0.0" fun v => v == "1.0.0"
  | 2 => .publish ⟨.new 2 0 0, [.linuxX86_64], none, false, none⟩

/-- The deletion waits for the lock of the first catalog, and goes on before the second
publication begins. -/
def sampleSchedule : List (Fin 3) :=
  [0, 1, 0, 1, 0, 0, 0, 0, 0, 0] ++ [1, 1, 1, 1, 1, 1] ++ [2, 2, 2, 2, 2, 2, 2, 2]

/-- The deletion has read the catalog when the second publication begins, and is the
last to rename. -/
def lostSchedule : List (Fin 3) :=
  [0, 1, 0, 1, 0, 0, 0, 0, 0, 0] ++ [1, 1] ++ [2, 2, 2, 2, 2, 2, 2, 2] ++ [1, 1, 1, 1]

/-- Two publications and an activation, in turns, lose nothing. -/
theorem no_lost_update_sample :
    NoLostUpdate sampleSemver "app" sampleChanges (some (some sampleCatalog))
      (final (Replace.next (catalogProtocol sampleSemver "app" sampleChanges))
        (Replace.State.init (some (some sampleCatalog))) sampleSchedule).file := by
  have hrun : Permitted (Replace.next (catalogProtocol sampleSemver "app" sampleChanges))
      (fun s i => Replace.Enabled (catalogProtocol sampleSemver "app" sampleChanges) s i ∧
        Replace.Apart (catalogProtocol sampleSemver "app" sampleChanges) s i)
      (Replace.State.init (some (some sampleCatalog))) sampleSchedule := by decide
  exact no_lost_update sampleSemver "app" sampleChanges (some (some sampleCatalog)) _ hrun.reaches
    (by decide)

/-- Version 2.0.0 was published, and is not in the catalog. -/
theorem deletion_loses_publication :
    ¬ ∀ (ι : Type) [DecidableEq ι] (S : SemverCrate) (appName : String)
      (requests : ι → CatalogChange) (initial : Option (Option AppCatalog))
      (s : Replace.State ι AppCatalog),
      Reaches (Replace.next (catalogProtocol S appName requests))
        (Replace.Enabled (catalogProtocol S appName requests)) (Replace.State.init initial) s →
      (∀ i, s.phase i = .done) → NoLostUpdate S appName requests initial s.file := by
  intro h
  have hrun : Permitted (Replace.next (catalogProtocol sampleSemver "app" sampleChanges))
      (Replace.Enabled (catalogProtocol sampleSemver "app" sampleChanges))
      (Replace.State.init (some (some sampleCatalog))) lostSchedule := by decide
  have hlost := h (Fin 3) sampleSemver "app" sampleChanges (some (some sampleCatalog)) _ hrun.reaches
    (by decide)
  obtain ⟨catalog, hcatalog, entry, hentry, heq⟩ := hlost.published 2 _ rfl
  have hfile : (final (Replace.next (catalogProtocol sampleSemver "app" sampleChanges))
      (Replace.State.init (some (some sampleCatalog))) lostSchedule).file =
      some (some ⟨"app", [⟨.new 1 1 0, [.linuxX86_64], none, false, none⟩,
        ⟨.new 1 0 0, [.linuxX86_64], none, false, none⟩], .new 1 1 0⟩) := by decide
  rw [hfile] at hcatalog
  obtain rfl := Option.some.inj (Option.some.inj hcatalog)
  have hnone : ∀ entry ∈ [VersionInfo.mk (.new 1 1 0) [.linuxX86_64] none false none,
      ⟨.new 1 0 0, [.linuxX86_64], none, false, none⟩],
      ¬ Version.eq entry.version (.new 2 0 0) = true := by decide
  exact hnone entry hentry heq

end Deltaship
