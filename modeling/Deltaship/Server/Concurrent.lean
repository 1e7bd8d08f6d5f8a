import Deltaship.Lib.Threads
import Deltaship.Server.Update

/-!
# Deltaship.Server.Concurrent

The requests as threads: the same calls as in `Deltaship.Server.Publish` and
`Deltaship.Server.Update`, one step for each access to the files, with the mutexes of the
applications as locks.

What a rename moves is what the temporary file holds then, which another request may have written.
The locks of the files are not modelled: they do not keep a request from a file that was renamed
over the one it waits for.  A request that is stopped is one whose server was killed.

`run_publishVersion` and the others say that a request that nobody comes between does what it
does in `Deltaship.Server.Publish`.
-/

namespace Deltaship

open Prog Thread

/-- An operation of the storage, with the names of applications as locks. -/
abbrev StorageThread (α : Type) : Type 1 := Thread Store String StorageError α

/-- The serving of a request. -/
abbrev HandlerThread (α : Type) : Type 1 := Thread Store String HttpError α

namespace Threaded

/-! ## operations of the storage -/

/- The operations once more, cut into the steps between which other requests may come. A write can
be stopped when a part of the data is written; a rename, the making of one directory and the removal
of a file cannot. -/

section Operations

variable (S : SemverCrate) (e : ServerEnv)

/-- `create_dir_all`; it can be stopped when the outermost directories are there. -/
def createDirs (site : ServerSite) (dir : Dir) : StorageThread Unit :=
  step (Deltaship.createDirs e site dir) fun s s' =>
    ∃ n, s' = { s with dirs := dir.chain.take n ∪ s.dirs }

/-- `save_binary_from_temp`. -/
def saveBinaryFromTemp (p : VersionPath) (platform : Platform) (temp : UploadPath) :
    StorageThread Unit :=
  bind (createDirs e (.versionDir 1) (.version p)) fun _ =>
  bind (whole (tryIo e .saveBinary)) fun _ =>
  whole (do
    match (← get).uploads.read temp with
    | none => throw .io
    | some b => modify fun s =>
        { s with
          uploads := s.uploads.remove temp
          binaries := s.binaries.write (p, platform) b })

/-- `save_signature`: the file is emptied before it is written. -/
def saveSignature (p : VersionPath) (data : Bytes) : StorageThread Unit :=
  bind (createDirs e (.versionDir 2) (.version p)) fun _ =>
  bind (whole (tryIo e .openSignature)) fun _ =>
  bind (whole (modify fun s => { s with signatures := s.signatures.write p [] })) fun _ =>
  step
    (match e.faults .saveSignature with
    | none => modify fun s => { s with signatures := s.signatures.write p data }
    | some n => do
        modify fun s => { s with signatures := s.signatures.write p (data.take n) }
        throw .io)
    fun s s' => ∃ n, s' = { s with signatures := s.signatures.write p (data.take n) }

/-- `save_diff_from_temp`. -/
def saveDiffFromTemp (appName fromVersion toVersion : String) (platform : Platform)
    (temp : UploadPath) : StorageThread Unit :=
  bind (createDirs e (.diffsDir 1) (.diffs appName)) fun _ =>
  bind (whole (tryIo e .saveDiff)) fun _ =>
  whole (do
    match (← get).uploads.read temp with
    | none => throw .io
    | some b => modify fun s =>
        { s with
          uploads := s.uploads.remove temp
          diffs := s.diffs.write (appName, diffFileName fromVersion toVersion platform) b })

/-- Write the `.tmp` file of a JSON file, which is emptied before. -/
def writeTemp (op : JsonOp → ServerSite) (file : JsonFile) (value : JsonValue) :
    StorageThread Unit :=
  bind (whole (modify fun s => { s with temps := s.temps.write file (value, some 0) })) fun _ =>
  step (Deltaship.writeTemp e op file value) fun s s' =>
    ∃ n, s' = { s with temps := s.temps.write file (value, some n) }

/-- Rename the `.tmp` file of a JSON file: `place` puts what it holds in place. -/
def renameTemp (file : JsonFile) (place : JsonValue × Option Nat → Store → Store) :
    StorageM Unit := do
  match (← get).temps.read file with
  | none => throw .io
  | some content => modify fun s => place content { s with temps := s.temps.remove file }

/-- What a catalog that was written holds, if all of it was written. -/
def catalogOf : JsonValue × Option Nat → Option AppCatalog
  | (.catalog catalog, none) => some catalog
  | _ => none

/-- What a manifest that was written holds, if all of it was written. -/
def manifestOf : JsonValue × Option Nat → Option VersionManifest
  | (.manifest manifest, none) => some manifest
  | _ => none

/-- What a rollout configuration that was written holds, if all of it was written. -/
def rolloutOf : JsonValue × Option Nat → Option RolloutConfig
  | (.rollout config, none) => some config
  | _ => none

/-- Write the temporary file and rename it over `catalog.json`. -/
def replaceCatalog (appName : String) (catalog : AppCatalog) : StorageThread Unit :=
  bind (writeTemp e .catalog (.catalog appName) (.catalog catalog)) fun _ =>
  bind (whole (tryIo e (.catalog .rename))) fun _ =>
  whole (renameTemp (.catalog appName) fun content s =>
    { s with catalogs := s.catalogs.write appName (catalogOf content) })

/-- `update_catalog_atomic`. -/
def updateCatalogAtomic (appName : String) (info : VersionInfo) : StorageThread Unit :=
  bind (createDirs e .appVersionsDir (.versions appName)) fun _ =>
  bind (createDirs e .appDiffsDir (.diffs appName)) fun _ =>
  locked appName <|
    bind (whole (tryIo e (.catalog .open))) fun _ =>
    bind (whole (modify fun s =>
      { s with
        catalogs := if (s.catalogs.read appName).isSome then s.catalogs
          else s.catalogs.write appName none })) fun _ =>
    bind (whole (tryIo e (.catalog .lock))) fun _ =>
    bind (whole get) fun s =>
    replaceCatalog e appName (publishCatalog S appName info
      (if (e.faults (.catalog .read)).isSome then none else s.getAppCatalog appName))

/-- Open and lock a catalog that must be there; its value. -/
def readCatalog (appName : String) : StorageThread AppCatalog :=
  bind (whole (tryIo e (.catalog .open))) fun _ =>
  bind (whole (tryIo e (.catalog .lock))) fun _ =>
  bind (whole (tryIo e (.catalog .read))) fun _ =>
  bind (whole get) fun s =>
  check (Except.ofOption .json (s.getAppCatalog appName))

/-- `set_latest_version`. -/
def setLatestVersion (p : VersionPath) : StorageThread Unit :=
  locked p.appName <|
    bind (whole get) fun s =>
    if (s.catalogs.read p.appName).isNone then
      whole (throw (.notFound s!"Catalog not found for app: {p.appName}"))
    else
      bind (readCatalog e p.appName) fun catalog =>
      bind (check (activateCatalog S p.version catalog)) fun changed =>
      replaceCatalog e p.appName changed

/-- `delete_version`, which takes no mutex. -/
def deleteVersionFiles (p : VersionPath) : StorageThread Unit :=
  bind (whole get) fun s =>
  if s.versionDirExists p then
    bind (whole (tryIo e .deletedMarker)) fun _ =>
    bind (whole (modify fun s => { s with deleted := s.deleted.insert p })) fun _ =>
    bind (whole get) fun s =>
    if (s.catalogs.read p.appName).isSome then
      bind (readCatalog e p.appName) fun catalog =>
      bind (whole get) fun s =>
      replaceCatalog e p.appName
        (deleteCatalog S (fun v => s.isDeleted ⟨p.appName, v⟩) p.version catalog)
    else whole (pure ())
  else whole (throw (.notFound s!"Version not found: {p.appName}/{p.version}"))

/-- Write the temporary file and rename it over `manifest.json`. -/
def replaceManifest (p : VersionPath) (manifest : VersionManifest) : StorageThread Unit :=
  bind (writeTemp e .manifest (.manifest p) (.manifest (manifest.inOrder e.mapOrder))) fun _ =>
  bind (whole (tryIo e (.manifest .rename))) fun _ =>
  whole (renameTemp (.manifest p) fun content s =>
    { s with manifests := s.manifests.write p (manifestOf content) })

/-- The manifest that `update_manifest` writes; a version that does not parse panics. -/
def changedManifest (p : VersionPath) (platform : Platform) (artifact : PlatformArtifact)
    (current : Option VersionManifest) : Except StorageError VersionManifest :=
  match current, S.parse p.version with
  | some manifest, _ =>
    .ok { manifest with platforms := manifest.platforms.write platform artifact }
  | none, some version => .ok ⟨version, Files.empty.write platform artifact⟩
  | none, none => .error .io

/-- `update_manifest`. -/
def updateManifest (p : VersionPath) (platform : Platform) (checksum : String) (size : Nat) :
    StorageThread Unit :=
  bind (createDirs e (.versionDir 3) (.version p)) fun _ =>
  locked p.appName <|
    bind (whole (tryIo e (.manifest .open))) fun _ =>
    bind (whole (modify fun s =>
      { s with
        manifests := if (s.manifests.read p).isSome then s.manifests
          else s.manifests.write p none })) fun _ =>
    bind (whole (tryIo e (.manifest .lock))) fun _ =>
    bind (whole get) fun s =>
    bind (check (changedManifest S p platform ⟨checksum, size, []⟩
      (if (e.faults (.manifest .read)).isSome then none else s.getVersionManifest p)))
      fun changed =>
    replaceManifest e p changed

/-- The manifest that `add_diff_to_manifest` writes. -/
def manifestWithDiff (p : VersionPath) (platform : Platform) (diff : DiffInfo)
    (manifest : VersionManifest) : Except StorageError VersionManifest :=
  match manifest.platforms.read platform with
  | none => .error (.notFound
      s!"Platform {platform.asStr} not found in manifest for version {p.version}")
  | some artifact => .ok { manifest with
      platforms := manifest.platforms.write platform
        { artifact with diffsFrom := mergeDiff diff artifact.diffsFrom } }

/-- `add_diff_to_manifest`. -/
def addDiffToManifest (p : VersionPath) (platform : Platform) (diff : DiffInfo) :
    StorageThread Unit :=
  locked p.appName <|
    bind (whole get) fun s =>
    if (s.manifests.read p).isNone then
      whole (throw (.notFound s!"Manifest not found for version: {p.version}"))
    else
      bind (whole (tryIo e (.manifest .open))) fun _ =>
      bind (whole (tryIo e (.manifest .lock))) fun _ =>
      bind (whole (tryIo e (.manifest .read))) fun _ =>
      bind (whole get) fun s =>
      bind (check (Except.ofOption .json (s.getVersionManifest p))) fun manifest =>
      bind (check (manifestWithDiff p platform diff manifest)) fun changed =>
      replaceManifest e p changed

/-- Write the temporary file and rename it over `rollout.json`. -/
def replaceRollout (p : VersionPath) (config : RolloutConfig) : StorageThread Unit :=
  bind (writeTemp e .rollout (.rollout p) (.rollout config)) fun _ =>
  bind (whole (tryIo e (.rollout .rename))) fun _ =>
  whole (renameTemp (.rollout p) fun content s =>
    { s with rollouts := s.rollouts.write p (rolloutOf content) })

/-- `update_rollout_config_atomic`, which takes no mutex. -/
def updateRolloutConfigAtomic (p : VersionPath) (update : RolloutConfig → RolloutConfig) :
    StorageThread RolloutConfig :=
  bind (createDirs e (.versionDir 1) (.version p)) fun _ =>
  bind (whole (tryIo e (.rollout .open))) fun _ =>
  bind (whole (modify fun s =>
    { s with
      rollouts := if (s.rollouts.read p).isSome then s.rollouts
        else s.rollouts.write p none })) fun _ =>
  bind (whole (tryIo e (.rollout .lock))) fun _ =>
  bind (whole get) fun s =>
  let config := update (((if (e.faults (.rollout .read)).isSome then none
    else s.getRolloutConfig p) : Option RolloutConfig).getD .default)
  bind (replaceRollout e p config) fun _ => whole (pure config)

end Operations

/-! ## forms -/

section Forms

variable (X : ServerCrates) (e : ServerEnv)

/-- Remove the temporary file and answer with an error. -/
def bail {α : Type} (temp : UploadPath) (err : HttpError) : HandlerThread α :=
  bind (whole (cleanup e temp)) fun _ => whole (throw err)

/-- The chunk loop of `stream_field_to_temp`; a part of a chunk can be written. -/
def streamChunks (k : Nat) (temp : UploadPath) (maxSize : Nat) (field : Field) :
    List Bytes → Nat → Bytes → HandlerThread Bytes
  | [], _, written =>
    if field.broken then bail e temp (badRequest "Invalid request")
    else
      match e.faults (.uploadFlush k) with
      | none => whole (pure written)
      | some _ => bail e temp serverError
  | chunk :: rest, i, written =>
    if written.length + chunk.length > maxSize then
      bail e temp ⟨413, s!"Field '{field.name}' exceeds size limit"⟩
    else
      match e.faults (.uploadWrite k i) with
      | some _ => bail e temp serverError
      | none =>
        bind (step (modify fun s => { s with uploads := s.uploads.write temp (written ++ chunk) })
          fun s s' => ∃ n, s' =
            { s with uploads := s.uploads.write temp (written ++ chunk.take n) })
          fun _ => streamChunks k temp maxSize field rest (i + 1) (written ++ chunk)

/-- `stream_field_to_temp`, for the `k`-th field of a form. -/
def streamFieldToTemp (dir : Dir) (k : Nat) (maxSize : Nat) (field : Field) :
    HandlerThread StreamedField :=
  let temp : UploadPath := ⟨dir, field.name, e.uniqSuffix k⟩
  bind (adapt (fun _ => serverError) (createDirs e (.uploadDir k) dir)) fun _ =>
  bind (adapt (fun _ => serverError) (whole (tryIo e (.uploadCreate k)))) fun _ =>
  bind (whole (modify fun s => { s with uploads := s.uploads.write temp [] })) fun _ =>
  bind (streamChunks e k temp maxSize field field.chunks 0 []) fun content =>
  whole (pure ⟨temp, X.crypto.blake3 content, content.length⟩)

/-- Read a form field by field; `one` adds a field to what was collected. -/
def collectFields {α : Type} (one : Nat → Field → α → HandlerThread α) (broken : Bool) :
    List Field → Nat → α → HandlerThread α
  | [], _, acc => whole (if broken then throw (badRequest "Invalid request") else pure acc)
  | field :: rest, k, acc =>
    if k + 1 > maxMultipartFields then whole (throw (badRequest "Too many multipart fields"))
    else bind (one k field acc) fun acc => collectFields one broken rest (k + 1) acc

/-- Add one field of a publish form to what was collected; only the binary is streamed. -/
def collectPublish (p : VersionPath) (k : Nat) (field : Field) (acc : PublishForm) :
    HandlerThread PublishForm :=
  if field.name = "binary" then
    bind (streamFieldToTemp X e (.version p) k maxBinaryFieldSize field) fun streamed =>
    whole (pure { acc with binary := some streamed })
  else whole (Deltaship.collectPublish X e p k field acc)

/-- Add one field of a diff form to what was collected; only the diff is streamed. -/
def collectDiff (p : DiffPath) (k : Nat) (field : Field) (acc : DiffForm) :
    HandlerThread DiffForm :=
  if field.name = "diff" then
    bind (streamFieldToTemp X e (.diffs p.appName) k maxDiffFieldSize field) fun streamed =>
    whole (pure { acc with diff := some streamed })
  else whole (Deltaship.collectDiff X e p k field acc)

end Forms

/-! ## requests -/

/- The handlers are those of the sequential model with the operations replaced by their steps. -/

section Requests

variable (X : ServerCrates) (e : ServerEnv)

/-- The binary, the signature, the manifest and the catalog, in this order. -/
def storePublish (p : VersionPath) (version : Version) (streamed : StreamedField)
    (checked : CheckedPublish) (releaseNotes : Option String) : HandlerThread Unit :=
  bind (attempt (adapt (fun _ => serverError)
    (saveBinaryFromTemp e p checked.platform streamed.tempPath))) fun saved =>
  match saved with
  | .error err => bail e streamed.tempPath err
  | .ok _ =>
    adapt (fun _ => serverError) <|
      bind (saveSignature e p checked.signature.val) fun _ =>
      bind (updateManifest X.semver e p checked.platform checked.checksum streamed.size) fun _ =>
      updateCatalogAtomic X.semver e p.appName
        ⟨version, [checked.platform], releaseNotes, false, none⟩

/-- `publish_version`. -/
def publishVersion (publisher : Publisher) (p : VersionPath) (form : Form) :
    HandlerThread PublishResponse :=
  bind (whole (requireValid (validateName p.appName) (badRequest "Invalid request"))) fun _ =>
  bind (whole (requireValid (validateVersion p.version) (badRequest "Invalid request"))) fun _ =>
  bind (check (Except.ofOption (badRequest "Invalid version format")
    (X.semver.parse p.version))) fun version =>
  bind (whole (requirePublisher publisher p.appName)) fun _ =>
  bind (adapt (fun _ => serverError) (createDirs e (.versionDir 0) (.version p))) fun _ =>
  bind (collectFields (collectPublish X e p) form.broken form.fields 0 {}) fun collected =>
  bind (check (Except.ofOption (badRequest "Missing required field: binary")
    collected.binary)) fun streamed =>
  match checkPublish X publisher p collected streamed.hash with
  | .error err => bail e streamed.tempPath err
  | .ok checked =>
    bind (storePublish X e p version streamed checked collected.releaseNotes) fun _ =>
    whole (pure ⟨p.version, s!"Successfully published version {p.version} for {p.appName}"⟩)

/-- `activate_version`. -/
def activateVersion (publisher : Publisher) (p : VersionPath) : HandlerThread PublishResponse :=
  bind (whole (requireValid (validateName p.appName) (badRequest "Invalid request"))) fun _ =>
  bind (whole (requirePublisher publisher p.appName)) fun _ =>
  bind (whole (requireValid (validateVersion p.version) (badRequest "Invalid request"))) fun _ =>
  bind (adapt versionError (setLatestVersion X.semver e p)) fun _ =>
  whole (pure ⟨p.version, s!"Version {p.version} is now the latest for {p.appName}"⟩)

/-- `delete_version`. -/
def deleteVersion (publisher : Publisher) (p : VersionPath) : HandlerThread String :=
  bind (whole (requireValid (validateName p.appName) (badRequest "Invalid application name")))
    fun _ =>
  bind (whole (requirePublisher publisher p.appName)) fun _ =>
  bind (whole (requireValid (validateVersion p.version) (badRequest "Invalid version"))) fun _ =>
  bind (adapt versionError (deleteVersionFiles X.semver e p)) fun _ =>
  whole (pure s!"Version {p.version} of {p.appName} has been marked as deleted")

/-- `update_rollout`. -/
def updateRollout (publisher : Publisher) (p : VersionPath) (request : RolloutRequest) :
    HandlerThread RolloutResponse :=
  bind (whole (requireValid (validateName p.appName) (badRequest "Invalid request"))) fun _ =>
  bind (whole (requirePublisher publisher p.appName)) fun _ =>
  bind (whole (requireValid (validateVersion p.version) (badRequest "Invalid request"))) fun _ =>
  if request.percentage > 100 then
    whole (throw (badRequest "Percentage must be between 0 and 100"))
  else
    bind (whole get) fun s =>
    if (s.getVersionManifest p).isNone then whole (throw ⟨404, "Version not found"⟩)
    else
      bind (adapt (fun _ => serverError)
        (updateRolloutConfigAtomic e p (changeRollout e.now request.percentage))) fun config =>
      whole (pure ⟨config,
        s!"Rollout updated to {config.percentage}% for version {p.version} of {p.appName}"⟩)

/-- The diff, and then its entry in the manifest of its target. -/
def storeDiff (p : DiffPath) (fromVersion : Version) (streamed : StreamedField)
    (platform : Platform) (checksum algorithm : String) : HandlerThread Unit :=
  bind (attempt (adapt (fun _ => serverError)
    (saveDiffFromTemp e p.appName p.fromVersion p.toVersion platform streamed.tempPath)))
    fun saved =>
  match saved with
  | .error err => bail e streamed.tempPath err
  | .ok _ =>
    adapt (fun _ => serverError) (addDiffToManifest e ⟨p.appName, p.toVersion⟩ platform
      ⟨fromVersion, checksum, streamed.size, algorithm⟩)

/-- `upload_diff`. -/
def uploadDiff (publisher : Publisher) (p : DiffPath) (form : Form) :
    HandlerThread PublishResponse :=
  bind (whole (requireValid (validateName p.appName) (badRequest "Invalid request"))) fun _ =>
  bind (whole (requirePublisher publisher p.appName)) fun _ =>
  bind (whole (requireValid (validateVersion p.fromVersion) (badRequest "Invalid request")))
    fun _ =>
  bind (whole (requireValid (validateVersion p.toVersion) (badRequest "Invalid request"))) fun _ =>
  bind (check (Except.ofOption (badRequest "Invalid version format")
    (X.semver.parse p.fromVersion))) fun fromVersion =>
  bind (check (Except.ofOption (badRequest "Invalid version format")
    (X.semver.parse p.toVersion))) fun _ =>
  bind (adapt (fun _ => serverError) (createDirs e (.diffsDir 0) (.diffs p.appName))) fun _ =>
  bind (collectFields (collectDiff X e p) form.broken form.fields 0 {}) fun collected =>
  bind (check (Except.ofOption (badRequest "Missing required field: diff")
    collected.diff)) fun streamed =>
  match checkDiff collected streamed.hash with
  | .error err => bail e streamed.tempPath err
  | .ok (platform, checksum) =>
    bind (storeDiff e p fromVersion streamed platform checksum collected.algorithm) fun _ =>
    whole (pure ⟨p.toVersion,
      s!"Successfully uploaded diff from {p.fromVersion} to {p.toVersion} for {p.appName}"⟩)

/-- `check_update`: the catalog, the rollout configuration and the manifest are read one after
the other. -/
def checkUpdate (appName : String) (query : UpdateCheckQuery) :
    HandlerThread UpdateCheckResponse :=
  bind (whole (requireValid (validateName appName) (badRequest "Invalid request"))) fun _ =>
  bind (check (Except.ofOption (badRequest s!"Invalid platform: {query.platform}")
    (Platform.parse query.platform))) fun platform =>
  bind (check (parseCurrent X query.currentVersion)) fun current =>
  bind (whole get) fun s =>
  bind (check (Except.ofOption ⟨404, s!"Application not found: {appName}"⟩
    (s.getAppCatalog appName))) fun catalog =>
  let latest := catalog.latestVersion
  if Version.ge X.semver current latest then whole (pure {})
  else
    match catalog.versions.find? fun v =>
        Version.eq v.version latest && v.platforms.contains platform with
    | none => whole (pure {})
    | some info =>
      bind (whole get) fun s₁ =>
      match rolloutRefusal X (s₁.getRolloutConfig ⟨appName, X.semver.display latest⟩)
          query.deviceIdHash latest with
      | some refusal => whole (pure refusal)
      | none =>
        bind (whole get) fun s₂ =>
        whole (pure (offer X { s₂.toArtifacts with rollouts := s₁.rollouts } appName query platform
          current info latest))

end Requests

end Threaded

/-! ## without interruption -/

/- The steps of an operation, done one behind the other, are the operation of the sequential model.
-/

section Run

open Threaded

variable {S : SemverCrate} {X : ServerCrates} {e : ServerEnv}

@[simp] theorem run_createDirs (site : ServerSite) (dir : Dir) :
    (Threaded.createDirs e site dir).run = createDirs e site dir := rfl

theorem run_saveBinaryFromTemp (p : VersionPath) (platform : Platform) (temp : UploadPath) :
    (Threaded.saveBinaryFromTemp e p platform temp).run =
      saveBinaryFromTemp e p platform temp := rfl

theorem run_saveDiffFromTemp (appName fromVersion toVersion : String) (platform : Platform)
    (temp : UploadPath) :
    (Threaded.saveDiffFromTemp e appName fromVersion toVersion platform temp).run =
      saveDiffFromTemp e appName fromVersion toVersion platform temp := rfl

/-- A file that is emptied before it is written is as if it was only written. -/
theorem run_saveSignature (p : VersionPath) (data : Bytes) :
    (Threaded.saveSignature e p data).run = saveSignature e p data := by
  refine congrArg (Deltaship.createDirs e (.versionDir 2) (.version p) >>= ·) (funext fun _ => ?_)
  refine congrArg (tryIo e .openSignature >>= ·) (funext fun _ => ?_)
  refine funext fun s => ?_
  show exec (modify _ >>= fun _ => _) s = exec _ s
  rw [exec_bind, exec_modify]
  cases e.faults .saveSignature with
  | none =>
      exact congrArg (fun f => (Except.ok (), { s with signatures := f }))
        (Files.write_write _ _ _ _)
  | some n =>
      exact congrArg (fun f => (Except.error StorageError.io, { s with signatures := f }))
        (Files.write_write _ _ _ _)

/-- A temporary file is replaced as a whole by a request that nobody comes between. -/
theorem run_replaceTemp {op : JsonOp → ServerSite} {file : JsonFile} {value : JsonValue}
    {place : JsonValue × Option Nat → Store → Store} {change : Store → Store}
    (hchange : ∀ s, place (value, none) { s with temps := s.temps.remove file } = change s) :
    (Thread.bind (Threaded.writeTemp e op file value) fun _ =>
      Thread.bind (Thread.whole (tryIo e (op .rename))) fun _ =>
      Thread.whole (renameTemp file place)).run =
    (do
      writeTemp e op file value
      tryIo e (op .rename)
      modify change) := by
  refine funext fun s => ?_
  show exec _ s = exec _ s
  have hfirst : exec (Threaded.writeTemp e op file value).run s =
      exec (writeTemp e op file value) s := by
    show exec (modify _ >>= fun _ => _) s = _
    rw [exec_bind, exec_modify]
    show exec (writeTemp e op file value) _ = _
    unfold writeTemp
    cases e.faults (op .write) with
    | none =>
        exact congrArg (fun f => (Except.ok (), { s with temps := f })) (Files.write_write _ _ _ _)
    | some n =>
        exact congrArg (fun f => (Except.error StorageError.io, { s with temps := f }))
          (Files.write_write _ _ _ _)
  rw [exec_bind, hfirst, exec_bind]
  unfold writeTemp
  cases e.faults (op .write) with
  | some n => rfl
  | none =>
      rw [exec_modify]
      show exec (tryIo e (op .rename) >>= fun _ => renameTemp file place) _ =
        exec (tryIo e (op .rename) >>= fun _ => modify change) _
      rw [exec_bind, exec_bind]
      unfold tryIo
      cases e.faults (op .rename) with
      | some n => rfl
      | none =>
          -- what is renamed is what was written before
          show exec (renameTemp file place) _ = (.ok (), change _)
          unfold renameTemp
          rw [exec_bind, exec_get]
          dsimp only
          rw [Files.read_write_self]
          exact congrArg (Prod.mk _) (hchange _)

/-- What is renamed over the catalog is what was written before. -/
theorem run_replaceCatalog (appName : String) (catalog : AppCatalog) :
    (Threaded.replaceCatalog e appName catalog).run = replaceCatalog e appName catalog :=
  run_replaceTemp fun _ => rfl

/-- What is renamed over a manifest is what was written before. -/
theorem run_replaceManifest (p : VersionPath) (manifest : VersionManifest) :
    (Threaded.replaceManifest e p manifest).run = replaceManifest e p manifest :=
  run_replaceTemp fun _ => rfl

/-- A catalog that nobody else touches is updated in one go. -/
theorem run_updateCatalogAtomic (appName : String) (info : VersionInfo) :
    (Threaded.updateCatalogAtomic S e appName info).run =
      updateCatalogAtomic S e appName info := by
  unfold Threaded.updateCatalogAtomic updateCatalogAtomic ensureAppDirs openCatalog
  simp only [run_bind, run_locked, run_whole, run_createDirs, run_replaceCatalog, bind_assoc]

theorem run_readCatalog (appName : String) :
    (Threaded.readCatalog e appName).run = readCatalog e appName := by
  unfold Threaded.readCatalog readCatalog
  simp only [run_bind, run_whole, run_check]
  refine congrArg (tryIo e (.catalog .open) >>= ·) (funext fun _ => ?_)
  refine congrArg (tryIo e (.catalog .lock) >>= ·) (funext fun _ => ?_)
  refine congrArg (tryIo e (.catalog .read) >>= ·) (funext fun _ => ?_)
  refine congrArg (get >>= ·) (funext fun s => ?_)
  cases s.getAppCatalog appName <;> rfl

theorem run_setLatestVersion (p : VersionPath) :
    (Threaded.setLatestVersion S e p).run = setLatestVersion S e p := by
  unfold Threaded.setLatestVersion setLatestVersion
  simp only [run_bind, run_locked, run_whole]
  refine congrArg (get >>= ·) (funext fun s => ?_)
  split
  · rfl
  · simp only [run_bind, run_check, run_readCatalog, run_replaceCatalog]

theorem run_deleteVersionFiles (p : VersionPath) :
    (Threaded.deleteVersionFiles S e p).run = deleteVersionFiles S e p := by
  unfold Threaded.deleteVersionFiles deleteVersionFiles
  simp only [run_bind, run_whole]
  refine congrArg (get >>= ·) (funext fun s => ?_)
  split
  · simp only [run_bind, run_whole]
    refine congrArg (tryIo e .deletedMarker >>= ·) (funext fun _ => ?_)
    refine congrArg (modify _ >>= ·) (funext fun _ => ?_)
    refine congrArg (get >>= ·) (funext fun s => ?_)
    split
    · simp only [run_bind, run_whole, run_readCatalog, run_replaceCatalog]
    · rfl
  · rfl

/-- A manifest that nobody else touches is updated in one go. -/
theorem run_updateManifest (p : VersionPath) (platform : Platform) (checksum : String)
    (size : Nat) : (Threaded.updateManifest S e p platform checksum size).run =
      updateManifest S e p platform checksum size := by
  unfold Threaded.updateManifest updateManifest ensureVersionDir
  simp only [run_bind, run_locked, run_whole, run_createDirs, run_check, run_replaceManifest]
  refine congrArg (createDirs e (.versionDir 3) (.version p) >>= ·) (funext fun _ => ?_)
  refine congrArg (tryIo e (.manifest .open) >>= ·) (funext fun _ => ?_)
  refine congrArg (modify _ >>= ·) (funext fun _ => ?_)
  refine congrArg (tryIo e (.manifest .lock) >>= ·) (funext fun _ => ?_)
  refine congrArg (get >>= ·) (funext fun s => ?_)
  unfold changedManifest
  generalize (if (e.faults (.manifest .read)).isSome = true then none
    else s.getVersionManifest p) = current
  generalize S.parse p.version = version
  cases current with
  | some manifest => rfl
  | none => cases version <;> rfl

/-- So it is when a diff is added. -/
theorem run_addDiffToManifest (p : VersionPath) (platform : Platform) (diff : DiffInfo) :
    (Threaded.addDiffToManifest e p platform diff).run = addDiffToManifest e p platform diff := by
  unfold Threaded.addDiffToManifest addDiffToManifest
  simp only [run_bind, run_locked, run_whole]
  refine congrArg (get >>= ·) (funext fun s => ?_)
  split
  · rfl
  · simp only [run_bind, run_whole, run_check, run_replaceManifest]
    refine congrArg (tryIo e (.manifest .open) >>= ·) (funext fun _ => ?_)
    refine congrArg (tryIo e (.manifest .lock) >>= ·) (funext fun _ => ?_)
    refine congrArg (tryIo e (.manifest .read) >>= ·) (funext fun _ => ?_)
    refine congrArg (get >>= ·) (funext fun s => ?_)
    cases s.getVersionManifest p with
    | none => rfl
    | some manifest =>
        show (Prog.ofExcept (manifestWithDiff p platform diff manifest) >>= fun changed =>
          replaceManifest e p changed) = _
        unfold manifestWithDiff
        dsimp only
        generalize manifest.platforms.read platform = artifact
        cases artifact <;> rfl

theorem run_updateRolloutConfigAtomic (p : VersionPath) (update : RolloutConfig → RolloutConfig) :
    (Threaded.updateRolloutConfigAtomic e p update).run = updateRolloutConfigAtomic e p update := by
  have hreplace : ∀ config, (Threaded.replaceRollout e p config).run = (do
      writeTemp e .rollout (.rollout p) (.rollout config)
      tryIo e (.rollout .rename)
      modify fun s =>
        { s with
          temps := s.temps.remove (.rollout p)
          rollouts := s.rollouts.write p (some config) }) := fun _ => run_replaceTemp fun _ => rfl
  unfold Threaded.updateRolloutConfigAtomic updateRolloutConfigAtomic ensureVersionDir
  simp only [run_bind, run_whole, run_createDirs, hreplace, bind_assoc]

/-! ### requests -/

/- A request that nobody comes between does what the same request does in the sequential model. So
both models are of one program, and what was shown of single requests can be used beside others. -/

/-- The chunks of a field are streamed alike. -/
theorem run_streamChunks (k : Nat) (temp : UploadPath) (maxSize : Nat) (field : Field)
    (chunks : List Bytes) (i : Nat) (written : Bytes) :
    (Threaded.streamChunks e k temp maxSize field chunks i written).run =
      streamChunks e k temp maxSize field chunks i written := by
  induction chunks generalizing i written with
  | nil =>
      unfold Threaded.streamChunks streamChunks
      split
      · rfl
      · cases e.faults (.uploadFlush k) <;> rfl
  | cons chunk rest ih =>
      unfold Threaded.streamChunks streamChunks
      split
      · rfl
      · cases e.faults (.uploadWrite k i) with
        | some n => rfl
        | none => simp only [run_bind, run_step, ih]

theorem run_streamFieldToTemp (dir : Dir) (k : Nat) (maxSize : Nat) (field : Field) :
    (Threaded.streamFieldToTemp X e dir k maxSize field).run =
      streamFieldToTemp X e dir k maxSize field := by
  unfold Threaded.streamFieldToTemp streamFieldToTemp
  simp only [run_bind, run_adapt, run_whole, run_createDirs, run_streamChunks]

/-- If every field is collected alike, so is the form. -/
theorem run_collectFields {α : Type} {one : Nat → Field → α → HandlerThread α}
    {one' : Nat → Field → α → Handler α}
    (hone : ∀ k field acc, (one k field acc).run = one' k field acc)
    (broken : Bool) (fields : List Field) (k : Nat) (acc : α) :
    (Threaded.collectFields one broken fields k acc).run =
      collectFields one' broken fields k acc := by
  induction fields generalizing k acc with
  | nil => rfl
  | cons field rest ih =>
      unfold Threaded.collectFields collectFields
      split
      · rfl
      · simp only [run_bind, hone, ih]

/-- A field of a publish form is collected alike. -/
theorem run_collectPublish (p : VersionPath) (k : Nat) (field : Field) (acc : PublishForm) :
    (Threaded.collectPublish X e p k field acc).run = collectPublish X e p k field acc := by
  unfold Threaded.collectPublish
  split
  · next hname =>
      unfold collectPublish
      rw [run_bind, run_streamFieldToTemp, hname]
      rfl
  · rfl

/-- So is a field of a diff form. -/
theorem run_collectDiff (p : DiffPath) (k : Nat) (field : Field) (acc : DiffForm) :
    (Threaded.collectDiff X e p k field acc).run = collectDiff X e p k field acc := by
  unfold Threaded.collectDiff
  split
  · next hname =>
      unfold collectDiff
      rw [run_bind, run_streamFieldToTemp, hname]
      rfl
  · rfl

/-- What a publication stores is the same alone. -/
theorem run_storePublish (p : VersionPath) (version : Version) (streamed : StreamedField)
    (checked : CheckedPublish) (releaseNotes : Option String) :
    (Threaded.storePublish X e p version streamed checked releaseNotes).run =
      storePublish X e p version streamed checked releaseNotes := by
  unfold Threaded.storePublish storePublish
  simp only [run_bind, run_attempt, run_adapt, run_saveBinaryFromTemp]
  refine congrArg (Prog.attempt _ >>= ·) (funext fun saved => ?_)
  cases saved with
  | error err => rfl
  | ok _ =>
      simp only [run_adapt, run_bind, run_saveSignature, run_updateManifest,
        run_updateCatalogAtomic]

/-- A publication that nobody comes between. -/
theorem run_publishVersion (publisher : Publisher) (p : VersionPath) (form : Form) :
    (Threaded.publishVersion X e publisher p form).run = publishVersion X e publisher p form := by
  unfold Threaded.publishVersion publishVersion
  simp only [run_bind, run_whole, run_check, run_adapt, run_createDirs,
    run_collectFields (run_collectPublish p)]
  refine congrArg (requireValid _ _ >>= ·) (funext fun _ => ?_)
  refine congrArg (requireValid _ _ >>= ·) (funext fun _ => ?_)
  refine congrArg (Prog.ofExcept _ >>= ·) (funext fun version => ?_)
  refine congrArg (requirePublisher _ _ >>= ·) (funext fun _ => ?_)
  refine congrArg (Prog.adapt _ _ >>= ·) (funext fun _ => ?_)
  refine congrArg (collectFields _ _ _ _ _ >>= ·) (funext fun collected => ?_)
  refine congrArg (Prog.ofExcept _ >>= ·) (funext fun streamed => ?_)
  cases checkPublish X publisher p collected streamed.hash with
  | error err => rfl
  | ok checked => simp only [run_bind, run_whole, run_storePublish]

/-- An activation that nobody comes between. -/
theorem run_activateVersion (publisher : Publisher) (p : VersionPath)
    (request : Option ActivateRequest) : (Threaded.activateVersion X e publisher p).run =
      activateVersion X e publisher p request := by
  unfold Threaded.activateVersion activateVersion
  simp only [run_bind, run_whole, run_adapt, run_setLatestVersion]

/-- A deletion that nobody comes between. -/
theorem run_deleteVersion (publisher : Publisher) (p : VersionPath) :
    (Threaded.deleteVersion X e publisher p).run = deleteVersion X e publisher p := by
  unfold Threaded.deleteVersion deleteVersion
  simp only [run_bind, run_whole, run_adapt, run_deleteVersionFiles]

/-- A change of a rollout that nobody comes between. -/
theorem run_updateRollout (publisher : Publisher) (p : VersionPath) (request : RolloutRequest) :
    (Threaded.updateRollout e publisher p request).run = updateRollout e publisher p request := by
  unfold Threaded.updateRollout updateRollout
  simp only [run_bind, run_whole]
  refine congrArg (requireValid _ _ >>= ·) (funext fun _ => ?_)
  refine congrArg (requirePublisher _ _ >>= ·) (funext fun _ => ?_)
  refine congrArg (requireValid _ _ >>= ·) (funext fun _ => ?_)
  split
  · rfl
  · refine congrArg (get >>= ·) (funext fun s => ?_)
    dsimp only
    split
    · rfl
    · simp only [run_bind, run_whole, run_adapt, run_updateRolloutConfigAtomic]

/-- So is what the upload of a diff stores. -/
theorem run_storeDiff (p : DiffPath) (fromVersion : Version) (streamed : StreamedField)
    (platform : Platform) (checksum algorithm : String) :
    (Threaded.storeDiff e p fromVersion streamed platform checksum algorithm).run =
      storeDiff e p fromVersion streamed platform checksum algorithm := by
  unfold Threaded.storeDiff storeDiff
  simp only [run_bind, run_attempt, run_adapt, run_saveDiffFromTemp]
  refine congrArg (Prog.attempt _ >>= ·) (funext fun saved => ?_)
  cases saved with
  | error err => rfl
  | ok _ => simp only [run_adapt, run_addDiffToManifest]

/-- The upload of a diff that nobody comes between. -/
theorem run_uploadDiff (publisher : Publisher) (p : DiffPath) (form : Form) :
    (Threaded.uploadDiff X e publisher p form).run = uploadDiff X e publisher p form := by
  unfold Threaded.uploadDiff uploadDiff
  simp only [run_bind, run_whole, run_check, run_adapt, run_createDirs,
    run_collectFields (run_collectDiff p)]
  refine congrArg (requireValid _ _ >>= ·) (funext fun _ => ?_)
  refine congrArg (requirePublisher _ _ >>= ·) (funext fun _ => ?_)
  refine congrArg (requireValid _ _ >>= ·) (funext fun _ => ?_)
  refine congrArg (requireValid _ _ >>= ·) (funext fun _ => ?_)
  refine congrArg (Prog.ofExcept _ >>= ·) (funext fun fromVersion => ?_)
  refine congrArg (Prog.ofExcept _ >>= ·) (funext fun _ => ?_)
  refine congrArg (Prog.adapt _ _ >>= ·) (funext fun _ => ?_)
  refine congrArg (collectFields _ _ _ _ _ >>= ·) (funext fun collected => ?_)
  refine congrArg (Prog.ofExcept _ >>= ·) (funext fun streamed => ?_)
  cases checkDiff collected streamed.hash with
  | error err => rfl
  | ok checked => simp only [run_bind, run_whole, run_storeDiff]

/-- An update check that nobody comes between. -/
theorem exec_run_checkUpdate (appName : String) (query : UpdateCheckQuery) (s : Store) :
    exec (Threaded.checkUpdate X appName query).run s =
      (checkUpdate X s.toArtifacts appName query, s) := by
  unfold Threaded.checkUpdate checkUpdate requireValid
  simp only [run_bind, run_whole, run_check, exec_bind, exec_ofExcept]
  cases (validateName appName).mapError fun _ => badRequest "Invalid request" with
  | error err => rfl
  | ok _ =>
    cases Except.ofOption (badRequest s!"Invalid platform: {query.platform}")
        (Platform.parse query.platform) with
    | error err => rfl
    | ok platform =>
      cases parseCurrent X query.currentVersion with
      | error err => rfl
      | ok current =>
        simp only [exec_get]
        cases s.getAppCatalog appName with
        | none => rfl
        | some catalog =>
          simp only [Except.ofOption]
          show exec (Thread.run (if Version.ge X.semver current catalog.latestVersion then _
            else _)) s = ((if Version.ge X.semver current catalog.latestVersion then _ else _ :
              Except HttpError UpdateCheckResponse), s)
          split
          · rfl
          · cases catalog.versions.find? fun v =>
                Version.eq v.version catalog.latestVersion && v.platforms.contains platform with
            | none => rfl
            | some info =>
              simp only [run_bind, run_whole, exec_bind, exec_get]
              cases rolloutRefusal X
                  (s.getRolloutConfig ⟨appName, X.semver.display catalog.latestVersion⟩)
                  query.deviceIdHash catalog.latestVersion <;> rfl

end Run

end Deltaship
