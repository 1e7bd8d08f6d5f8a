import Deltaship.Diff.Apply
import Deltaship.Server.Publish

/-!
# Deltaship.Server.Update

The requests of a client: `check_update`, and the downloads its answer points
to.

The addresses in an answer are texts, so what they lead to is decided by the
router (`resolve`).  They are put together from names that were validated, which
have no percent signs: nothing in them has to be decoded.
-/

namespace Deltaship

/-! ## update checks -/

/-- `UpdateCheckQuery`. -/
structure UpdateCheckQuery where
  currentVersion : Option String
  platform : String
  deviceIdHash : Option String
deriving DecidableEq, Repr

/-- `UpdateCheckResponse`. -/
structure UpdateCheckResponse where
  updateAvailable : Bool := false
  targetVersion : Option Version := none
  diffUrl : Option String := none
  diffChecksum : Option String := none
  diffSize : Option Nat := none
  fullBinaryUrl : Option String := none
  fullBinarySize : Option Nat := none
  checksum : Option String := none
  signatureUrl : Option String := none
  releaseNotes : Option String := none
  forced : Bool := false
  rolloutPercentage : Option Nat := none
  inRollout : Option Bool := none
deriving DecidableEq, Repr

/-- `RolloutPercentage::new`. -/
def rolloutPercentage (value : Nat) : Option Nat := if value > 100 then none else some value

section Update

variable (X : ServerCrates) (s : Artifacts)

/-- `device_in_rollout`. -/
def deviceInRollout (deviceId : String) (percentage : Nat) : Bool :=
  if percentage = 0 then false
  else if percentage ≥ 100 then true
  else fromLeBytes ((X.crypto.blake3 (utf8 deviceId)).val.take 8) % 100 < percentage

/-- The answer to a device that is not in the rollout of the latest version, if
it is not. -/
def rolloutRefusal (config : Option RolloutConfig) (deviceIdHash : Option String)
    (latest : Version) : Option UpdateCheckResponse :=
  match config, deviceIdHash with
  | some config, some deviceId =>
    if config.enabled && config.percentage < 100 &&
      !deviceInRollout X deviceId config.percentage then
      some
        { targetVersion := some latest
          rolloutPercentage := some ((rolloutPercentage config.percentage).getD 0)
          inRollout := some false }
    else none
  | _, _ => none

/-- The addresses of an application start like this. -/
def baseUrl (appName : String) : String := s!"/api/v1/apps/{appName}"

/-- The address of a full binary. -/
def binaryUrl (p : VersionPath) (platform : Platform) : String :=
  s!"{baseUrl p.appName}/versions/{p.version}/binary?platform={platform.asStr}"

/-- The address of a signature. -/
def signatureUrl (p : VersionPath) : String :=
  s!"{baseUrl p.appName}/versions/{p.version}/signature"

/-- What an address of a diff names it by. -/
def diffSpec (fromVersion toVersion : String) : String := s!"{fromVersion}-to-{toVersion}"

/-- The address of a diff. -/
def diffUrl (appName fromVersion toVersion : String) (platform : Platform) : String :=
  s!"{baseUrl appName}/diffs/{diffSpec fromVersion toVersion}?platform={platform.asStr}"

/-- The diff of an artifact from a version: the first one that is equal. -/
def findDiff (artifact : PlatformArtifact) (current : Version) : Option DiffInfo :=
  artifact.diffsFrom.find? fun d => Version.eq d.fromVersion current

/-- The answer that offers the latest version. -/
def offer (appName : String) (query : UpdateCheckQuery) (platform : Platform) (current : Version)
    (info : VersionInfo) (latest : Version) : UpdateCheckResponse :=
  let p : VersionPath := ⟨appName, X.semver.display latest⟩
  let artifact := (s.getVersionManifest p).bind fun m => m.platforms.read platform
  let diff := artifact.bind fun a => findDiff a current
  let config := s.getRolloutConfig p
  { updateAvailable := true
    targetVersion := some latest
    diffUrl := diff.map fun _ => diffUrl appName (X.semver.display current) p.version platform
    diffChecksum := diff.map (·.checksum)
    diffSize := diff.map (·.size)
    fullBinaryUrl := some (binaryUrl p platform)
    checksum := artifact.map (·.checksum)
    signatureUrl := some (signatureUrl p)
    releaseNotes := info.releaseNotes
    forced := info.forced
    rolloutPercentage := config.bind fun c => rolloutPercentage c.percentage
    inRollout := if config.isSome && query.deviceIdHash.isSome then some true else none }

/-- The version a client reports; none counts as 0.0.0. -/
def parseCurrent (currentVersion : Option String) : Except HttpError Version :=
  match currentVersion with
  | none => .ok (.new 0 0 0)
  | some text => Except.ofOption (badRequest s!"Invalid version: {text}") (X.semver.parse text)

/-- `check_update`. -/
def checkUpdate (appName : String) (query : UpdateCheckQuery) :
    Except HttpError UpdateCheckResponse := do
  (validateName appName).mapError fun _ => badRequest "Invalid request"
  let platform ← Except.ofOption (badRequest s!"Invalid platform: {query.platform}")
    (Platform.parse query.platform)
  let current ← parseCurrent X query.currentVersion
  let catalog ← Except.ofOption ⟨404, s!"Application not found: {appName}"⟩
    (s.getAppCatalog appName)
  let latest := catalog.latestVersion
  if Version.ge X.semver current latest then pure {}
  else
    match catalog.versions.find? fun v =>
        Version.eq v.version latest && v.platforms.contains platform with
    | none => pure {}
    | some info =>
      let config := s.getRolloutConfig ⟨appName, X.semver.display latest⟩
      match rolloutRefusal X config query.deviceIdHash latest with
      | some refusal => pure refusal
      | none => pure (offer X s appName query platform current info latest)

/-- What an update that is offered was made from. -/
structure OfferOf (appName : String) (query : UpdateCheckQuery) (platform : Platform)
    (current : Version) (catalog : AppCatalog) (info : VersionInfo) : Prop where
  nameOk : validateName appName = .ok ()
  parsePlatform : Platform.parse query.platform = some platform
  parseCurrent : parseCurrent X query.currentVersion = .ok current
  catalogRead : s.getAppCatalog appName = some catalog
  newer : Version.ge X.semver current catalog.latestVersion = false
  found : (catalog.versions.find? fun v =>
    Version.eq v.version catalog.latestVersion && v.platforms.contains platform) = some info
  rollout : rolloutRefusal X
    (s.getRolloutConfig ⟨appName, X.semver.display catalog.latestVersion⟩) query.deviceIdHash
    catalog.latestVersion = none

/-- Every answer with an update is an offer of the latest version. -/
theorem offerOf_of_checkUpdate {X : ServerCrates} {s : Artifacts} {appName : String}
    {query : UpdateCheckQuery} {resp : UpdateCheckResponse}
    (h : checkUpdate X s appName query = .ok resp) (havailable : resp.updateAvailable = true) :
    ∃ platform current catalog info, OfferOf X s appName query platform current catalog info ∧
      resp = offer X s appName query platform current info catalog.latestVersion := by
  unfold checkUpdate at h
  obtain ⟨_, hname, h⟩ := Except.bind_eq_ok.mp h
  obtain ⟨platform, hplatform, h⟩ := Except.bind_eq_ok.mp h
  obtain ⟨current, hcurrent, h⟩ := Except.bind_eq_ok.mp h
  obtain ⟨catalog, hcatalog, h⟩ := Except.bind_eq_ok.mp h
  have hname : validateName appName = .ok () := by
    cases hv : validateName appName with
    | ok u => rfl
    | error _ => rw [hv] at hname; contradiction
  dsimp only at h
  split at h
  · obtain rfl := Except.ok.inj h
    contradiction
  · next hnewer =>
      split at h
      · obtain rfl := Except.ok.inj h
        contradiction
      · next info hinfo =>
          split at h
          · next refusal hrefusal =>
              obtain rfl := Except.ok.inj h
              unfold rolloutRefusal at hrefusal
              split at hrefusal
              · split at hrefusal
                · obtain rfl := Option.some.inj hrefusal
                  contradiction
                · contradiction
              · contradiction
          · next hrollout =>
              obtain rfl := Except.ok.inj h
              exact ⟨platform, current, catalog, info, ⟨hname, Except.ofOption_eq_ok.mp hplatform,
                hcurrent, Except.ofOption_eq_ok.mp hcatalog, Bool.not_eq_true _ ▸ hnewer, hinfo,
                hrollout⟩, rfl⟩

/-! ## downloads -/

/-- `serve_file`, for a file whose checksum may be known. -/
def serveFile (content : Option Bytes) (expected : Option String) : Except HttpError Bytes := do
  let b ← Except.ofOption ⟨404, "Resource not found"⟩ content
  match expected with
  | some checksum =>
    Except.ensure (Text.asciiLower (X.crypto.blake3 b).toHex = Text.asciiLower checksum)
      ⟨500, "File integrity check failed"⟩
  | none => pure ()
  pure b

/-- Names that were accepted, or the error for all others. -/
def requireName (r : Except ValidationError Unit) : Except HttpError Unit :=
  r.mapError fun _ => badRequest "Invalid request"

/-- The platform parameter of a download. -/
def requirePlatform (platform : String) : Except HttpError Platform :=
  Except.ofOption (badRequest "Invalid request") (Platform.parse platform)

/-- `download_binary`. -/
def downloadBinary (appName version platform : String) : Except HttpError Bytes := do
  requireName (validateName appName)
  requireName (validateVersion version)
  let platform ← requirePlatform platform
  let p : VersionPath := ⟨appName, version⟩
  let expected := (s.getVersionManifest p).bind fun m =>
    (m.platforms.read platform).map (·.checksum)
  serveFile X (s.binaries.read (p, platform)) expected

/-- `download_signature`. -/
def downloadSignature (appName version : String) : Except HttpError Bytes := do
  requireName (validateName appName)
  requireName (validateVersion version)
  serveFile X (s.signatures.read ⟨appName, version⟩) none

/-- The versions a diff is between: what stands around the only `-to-`. -/
def parseDiffSpec (spec : String) : Option (String × String) :=
  match Text.split spec "-to-" with
  | [fromVersion, toVersion] =>
    if fromVersion.isEmpty || toVersion.isEmpty then none else some (fromVersion, toVersion)
  | _ => none

/-- `download_diff`. -/
def downloadDiff (appName spec platform : String) : Except HttpError Bytes := do
  requireName (validateName appName)
  let platform ← requirePlatform platform
  let (fromVersion, toVersion) ← Except.ofOption (badRequest "Invalid request") (parseDiffSpec spec)
  requireName (validateVersion fromVersion)
  requireName (validateVersion toVersion)
  let expected := (s.getVersionManifest ⟨appName, toVersion⟩).bind fun m =>
    (m.platforms.read platform).bind fun artifact =>
      (artifact.diffsFrom.find? fun d => X.semver.display d.fromVersion == fromVersion).map
        (·.checksum)
  serveFile X (s.diffs.read (appName, diffFileName fromVersion toVersion platform)) expected

/-! ## the router -/

/-- The value of a parameter of a query. -/
def queryParam (name : String) (query : List Char) : Option String :=
  ((query.splitOn '&').findSome? (Text.stripPrefix (name ++ "=").toList)).map String.ofList

/-- The segments of a path. -/
def segments (path : List Char) : List String := (path.splitOn '/').map String.ofList

/-- `GET` of an address, by the routes of `download::router`. -/
def resolve (url : String) : Except HttpError Bytes :=
  let pieces := url.toList.splitOn '?'
  let platform := Except.ofOption (badRequest "Failed to deserialize query string")
    (pieces[1]?.bind (queryParam "platform"))
  match segments (pieces.headD []) with
  | ["", "api", "v1", "apps", appName, "versions", version, "binary"] => do
      downloadBinary X s appName version (← platform)
  | ["", "api", "v1", "apps", appName, "versions", version, "signature"] =>
      downloadSignature X s appName version
  | ["", "api", "v1", "apps", appName, "diffs", spec] => do
      downloadDiff X s appName spec (← platform)
  | _ => .error ⟨404, ""⟩

end Update

end Deltaship
