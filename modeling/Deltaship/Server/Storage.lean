import Deltaship.Lib.Prog
import Deltaship.Server.Models

/-!
# Deltaship.Server.Storage

The files of the server and the operations of `storage.rs` on them.

Names are checked before they reach the storage, so a path is given by the names
in it: `Store` has one table for each kind of file, with these names as keys.
The file of a diff is the exception: its name is put together from two versions
and a platform, and is kept as the text it is.  `Deltaship.Server.Paths` has the
paths these keys stand for.

A JSON file holds the value it was written from, or no value: a writer creates
the file before it writes it.  Which operations of the host fail is an input
(`ServerEnv.faults`).  Requests are taken one after another here, so the locks
leave no trace in the state.
-/

namespace Deltaship

open Prog

/-! ## the state -/

/- Files are kept in tables by what they belong to, a catalog by its application and a manifest by
its version, and not by their paths; what is below the directory of an application is a matter of
`Deltaship.Server.Scope`. -/

/-- `VersionPath`: the directory `apps/<app_name>/versions/<version>`. -/
structure VersionPath where
  appName : String
  version : String
deriving DecidableEq, Repr

/-- The directories under `apps` that requests create. -/
inductive Dir where
  | app (appName : String)
  | versions (appName : String)
  | diffs (appName : String)
  | version (p : VersionPath)
deriving DecidableEq, Repr

/-- A directory and the ones around it, from the outermost on. -/
def Dir.chain : Dir → List Dir
  | app appName => [app appName]
  | versions appName => [app appName, versions appName]
  | diffs appName => [app appName, diffs appName]
  | version p => [app p.appName, versions p.appName, version p]

/-- The file `.upload-<field>-<suffix>.tmp` of a directory; the suffix is a
random number in hexadecimal and a time in nanoseconds. -/
structure UploadPath where
  dir : Dir
  field : String
  suffix : Nat × Nat
deriving DecidableEq, Repr

/-- A file that is replaced by renaming its `.tmp` file. -/
inductive JsonFile where
  | catalog (appName : String)
  | manifest (p : VersionPath)
  | rollout (p : VersionPath)
deriving DecidableEq, Repr

/-- What such a file can hold. -/
inductive JsonValue where
  | catalog (catalog : AppCatalog)
  | manifest (manifest : VersionManifest)
  | rollout (config : RolloutConfig)
deriving DecidableEq

/-- The files that answers to clients are made from. -/
structure Artifacts where
  /-- `catalog.json`. -/
  catalogs : Files String (Option AppCatalog)
  /-- `manifest.json`. -/
  manifests : Files VersionPath (Option VersionManifest)
  /-- `binary-<platform>`. -/
  binaries : Files (VersionPath × Platform) Bytes
  /-- `signature.sig`. -/
  signatures : Files VersionPath Bytes
  /-- `.deleted`. -/
  deleted : List VersionPath
  /-- `rollout.json`. -/
  rollouts : Files VersionPath (Option RolloutConfig)
  /-- The application and the name of the file. -/
  diffs : Files (String × String) Bytes
deriving DecidableEq

namespace Artifacts

/-- The server before its first request. -/
def empty : Artifacts where
  catalogs := Files.empty
  manifests := Files.empty
  binaries := Files.empty
  signatures := Files.empty
  deleted := []
  rollouts := Files.empty
  diffs := Files.empty

/-- `get_app_catalog`. -/
def getAppCatalog (a : Artifacts) (appName : String) : Option AppCatalog :=
  (a.catalogs.read appName).join

/-- `get_version_manifest`. -/
def getVersionManifest (a : Artifacts) (p : VersionPath) : Option VersionManifest :=
  (a.manifests.read p).join

/-- `get_rollout_config`. -/
def getRolloutConfig (a : Artifacts) (p : VersionPath) : Option RolloutConfig :=
  (a.rollouts.read p).join

/-- Whether a version is marked as deleted. -/
def isDeleted (a : Artifacts) (p : VersionPath) : Bool := a.deleted.contains p

end Artifacts

/-- The files under `data_dir`. -/
structure Store extends Artifacts where
  dirs : List Dir
  uploads : Files UploadPath Bytes
  /-- The `.tmp` files of the JSON files: the value, and how many bytes of it a
  failing write had written. -/
  temps : Files JsonFile (JsonValue × Option Nat)
deriving DecidableEq

namespace Store

/-- The server before its first request. -/
def empty : Store where
  toArtifacts := Artifacts.empty
  dirs := []
  uploads := Files.empty
  temps := Files.empty

/-- Whether the directory of a version exists; `.` is the directory of all
versions. -/
def versionDirExists (s : Store) (p : VersionPath) : Bool :=
  if p.version = "." then s.dirs.contains (.versions p.appName) else s.dirs.contains (.version p)

end Store

/-- The file name of `get_diff_path`. -/
def diffFileName (fromVersion toVersion : String) (platform : Platform) : String :=
  s!"{fromVersion}-to-{toVersion}-{platform.asStr}"

/-! ## the host -/

/-- The steps of rewriting a JSON file. -/
inductive JsonOp where
  | open | lock | read | write | rename
deriving DecidableEq, Repr

/-- The operations of the host that can fail while a request is served; `k`
counts the fields of the request, and `call` the calls of one function. -/
inductive ServerSite where
  | versionDir (call : Nat) | diffsDir (call : Nat) | appVersionsDir | appDiffsDir
  | saveBinary | openSignature | saveSignature | saveDiff | deletedMarker
  | catalog (op : JsonOp) | manifest (op : JsonOp) | rollout (op : JsonOp)
  | uploadDir (k : Nat) | uploadCreate (k : Nat)
  | uploadWrite (k chunk : Nat) | uploadFlush (k : Nat)
  | uploadCleanup
deriving DecidableEq, Repr

/-- What a request cannot choose: which operations fail (and how much a failing
one had done), the random part of the names of temporary files, the time as a
text, and the order of the map in a manifest that is written. -/
structure ServerEnv where
  faults : ServerSite → Option Nat
  uniqSuffix : Nat → Nat × Nat
  now : String
  mapOrder : MapOrder

/-! ## operations -/

/- The operations in the order of the source. Each of them fails at the first call that fails, and
leaves what was done before it. -/

/-- An operation of the storage. -/
abbrev StorageM (α : Type) : Type := Prog Store StorageError α

section Operations

variable (S : SemverCrate) (e : ServerEnv)

/-- Fail if the operation fails. -/
def tryIo (site : ServerSite) : StorageM Unit :=
  match e.faults site with
  | none => pure ()
  | some _ => throw .io

/-- `create_dir_all`; a failing one has created the outermost directories. -/
def createDirs (site : ServerSite) (dir : Dir) : StorageM Unit :=
  match e.faults site with
  | none => modify fun s => { s with dirs := dir.chain ∪ s.dirs }
  | some n => do
      modify fun s => { s with dirs := dir.chain.take n ∪ s.dirs }
      throw .io

/-- `ensure_version_dir`. -/
def ensureVersionDir (call : Nat) (p : VersionPath) : StorageM Unit :=
  createDirs e (.versionDir call) (.version p)

/-- `ensure_diffs_dir`. -/
def ensureDiffsDir (call : Nat) (appName : String) : StorageM Unit :=
  createDirs e (.diffsDir call) (.diffs appName)

/-- `ensure_app_dirs`. -/
def ensureAppDirs (appName : String) : StorageM Unit := do
  createDirs e .appVersionsDir (.versions appName)
  createDirs e .appDiffsDir (.diffs appName)

/-- `save_binary_from_temp`. -/
def saveBinaryFromTemp (p : VersionPath) (platform : Platform) (temp : UploadPath) :
    StorageM Unit := do
  ensureVersionDir e 1 p
  tryIo e .saveBinary
  match (← get).uploads.read temp with
  | none => throw .io
  | some b => modify fun s =>
      { s with
        uploads := s.uploads.remove temp
        binaries := s.binaries.write (p, platform) b }

/-- `save_signature`.  A file that cannot be opened is as it was; one that is
opened is emptied, and holds what was written. -/
def saveSignature (p : VersionPath) (data : Bytes) : StorageM Unit := do
  ensureVersionDir e 2 p
  tryIo e .openSignature
  match e.faults .saveSignature with
  | none => modify fun s => { s with signatures := s.signatures.write p data }
  | some n => do
      modify fun s => { s with signatures := s.signatures.write p (data.take n) }
      throw .io

/-- `save_diff_from_temp`. -/
def saveDiffFromTemp (appName fromVersion toVersion : String) (platform : Platform)
    (temp : UploadPath) : StorageM Unit := do
  ensureDiffsDir e 1 appName
  tryIo e .saveDiff
  match (← get).uploads.read temp with
  | none => throw .io
  | some b => modify fun s =>
      { s with
        uploads := s.uploads.remove temp
        diffs := s.diffs.write (appName, diffFileName fromVersion toVersion platform) b }

/-- Write the `.tmp` file of a JSON file. -/
def writeTemp (op : JsonOp → ServerSite) (file : JsonFile) (value : JsonValue) : StorageM Unit :=
  match e.faults (op .write) with
  | none => modify fun s => { s with temps := s.temps.write file (value, none) }
  | some n => do
      modify fun s => { s with temps := s.temps.write file (value, some n) }
      throw .io

/-- Open a catalog that is created if it is missing, and lock it. -/
def openCatalog (appName : String) : StorageM Unit := do
  tryIo e (.catalog .open)
  modify fun s =>
    { s with
      catalogs := if (s.catalogs.read appName).isSome then s.catalogs
        else s.catalogs.write appName none }
  tryIo e (.catalog .lock)

/-- Write the temporary file and rename it over `catalog.json`. -/
def replaceCatalog (appName : String) (catalog : AppCatalog) : StorageM Unit := do
  writeTemp e .catalog (.catalog appName) (.catalog catalog)
  tryIo e (.catalog .rename)
  modify fun s =>
    { s with
      temps := s.temps.remove (.catalog appName)
      catalogs := s.catalogs.write appName (some catalog) }

/-- `update_catalog_atomic`.  A catalog that cannot be read counts as missing. -/
def updateCatalogAtomic (appName : String) (info : VersionInfo) : StorageM Unit := do
  ensureAppDirs e appName
  openCatalog e appName
  let content := (← get).getAppCatalog appName
  let current := if (e.faults (.catalog .read)).isSome then none else content
  replaceCatalog e appName (publishCatalog S appName info current)

/-- Open, lock and read a catalog that must be there. -/
def readCatalog (appName : String) : StorageM AppCatalog := do
  tryIo e (.catalog .open)
  tryIo e (.catalog .lock)
  tryIo e (.catalog .read)
  match (← get).getAppCatalog appName with
  | some catalog => pure catalog
  | none => throw .json

/-- `set_latest_version`. -/
def setLatestVersion (p : VersionPath) : StorageM Unit := do
  if ((← get).catalogs.read p.appName).isNone then
    throw (.notFound s!"Catalog not found for app: {p.appName}")
  else do
    let catalog ← readCatalog e p.appName
    let changed ← Prog.ofExcept (activateCatalog S p.version catalog)
    replaceCatalog e p.appName changed

/-- `delete_version`. -/
def deleteVersionFiles (p : VersionPath) : StorageM Unit := do
  if (← get).versionDirExists p then do
    tryIo e .deletedMarker
    modify fun s => { s with deleted := s.deleted.insert p }
    if ((← get).catalogs.read p.appName).isSome then do
      let catalog ← readCatalog e p.appName
      let s ← get
      replaceCatalog e p.appName
        (deleteCatalog S (fun v => s.isDeleted ⟨p.appName, v⟩) p.version catalog)
    else pure ()
  else throw (.notFound s!"Version not found: {p.appName}/{p.version}")

/-- Write the temporary file and rename it over `manifest.json`. -/
def replaceManifest (p : VersionPath) (manifest : VersionManifest) : StorageM Unit := do
  let content := manifest.inOrder e.mapOrder
  writeTemp e .manifest (.manifest p) (.manifest content)
  tryIo e (.manifest .rename)
  modify fun s =>
    { s with
      temps := s.temps.remove (.manifest p)
      manifests := s.manifests.write p (some content) }

/-- `update_manifest`.  A manifest that cannot be read counts as missing; a
version that does not parse panics. -/
def updateManifest (p : VersionPath) (platform : Platform) (checksum : String) (size : Nat) :
    StorageM Unit := do
  ensureVersionDir e 3 p
  tryIo e (.manifest .open)
  modify fun s =>
    { s with
      manifests := if (s.manifests.read p).isSome then s.manifests else s.manifests.write p none }
  tryIo e (.manifest .lock)
  let content := (← get).getVersionManifest p
  let current := if (e.faults (.manifest .read)).isSome then none else content
  match current, S.parse p.version with
  | some manifest, _ =>
    replaceManifest e p { manifest with
      platforms := manifest.platforms.write platform ⟨checksum, size, []⟩ }
  | none, some version =>
    replaceManifest e p ⟨version, Files.empty.write platform ⟨checksum, size, []⟩⟩
  | none, none => throw .io

/-- Put a diff in place of the one from the same version, or behind the
others. -/
def mergeDiff (diff : DiffInfo) : List DiffInfo → List DiffInfo
  | [] => [diff]
  | d :: rest =>
    if Version.eq d.fromVersion diff.fromVersion then diff :: rest else d :: mergeDiff diff rest

/-- `add_diff_to_manifest`. -/
def addDiffToManifest (p : VersionPath) (platform : Platform) (diff : DiffInfo) :
    StorageM Unit := do
  if ((← get).manifests.read p).isNone then
    throw (.notFound s!"Manifest not found for version: {p.version}")
  else do
    tryIo e (.manifest .open)
    tryIo e (.manifest .lock)
    tryIo e (.manifest .read)
    match (← get).getVersionManifest p with
    | none => throw .json
    | some manifest =>
      match manifest.platforms.read platform with
      | none => throw (.notFound
          s!"Platform {platform.asStr} not found in manifest for version {p.version}")
      | some artifact =>
        replaceManifest e p { manifest with
          platforms := manifest.platforms.write platform
            { artifact with diffsFrom := mergeDiff diff artifact.diffsFrom } }

/-- `update_rollout_config_atomic`.  A configuration that cannot be read counts
as the default one. -/
def updateRolloutConfigAtomic (p : VersionPath) (update : RolloutConfig → RolloutConfig) :
    StorageM RolloutConfig := do
  ensureVersionDir e 1 p
  tryIo e (.rollout .open)
  modify fun s =>
    { s with
      rollouts := if (s.rollouts.read p).isSome then s.rollouts else s.rollouts.write p none }
  tryIo e (.rollout .lock)
  let content := (← get).getRolloutConfig p
  let current := if (e.faults (.rollout .read)).isSome then none else content
  let config := update (current.getD .default)
  writeTemp e .rollout (.rollout p) (.rollout config)
  tryIo e (.rollout .rename)
  modify fun s =>
    { s with
      temps := s.temps.remove (.rollout p)
      rollouts := s.rollouts.write p (some config) }
  pure config

end Operations

end Deltaship
