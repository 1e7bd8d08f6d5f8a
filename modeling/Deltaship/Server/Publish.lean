import Deltaship.Crypto.HexText
import Deltaship.Server.Storage

/-!
# Deltaship.Server.Publish

The requests that change the store: `publish_version`, `upload_diff`,
`activate_version`, `update_rollout` and `delete_version`.

A form arrives as a list of fields, each in chunks, and may break off in a field
or between two.  Large fields are streamed to a temporary file; the rest of a
form is read into memory.  The authenticated publisher is an argument.
-/

namespace Deltaship

open Prog

/-- An error response. -/
structure HttpError where
  status : Nat
  message : String
deriving DecidableEq, Repr

/-- `PublishResponse`, when it reports a success. -/
structure PublishResponse where
  versionId : String
  message : String
deriving DecidableEq, Repr

/-- The serving of a request. -/
abbrev Handler (α : Type) : Type := Prog Store HttpError α

/-- The third-party crates of the server. -/
structure ServerCrates where
  semver : SemverCrate
  crypto : CryptoCrates
  /-- The `STANDARD` engine of the `base64` crate. -/
  base64Decode : String → Option Bytes

/-- `StatusCode::INTERNAL_SERVER_ERROR`, with the text that goes with it. -/
def serverError : HttpError := ⟨500, "Internal server error"⟩

/-- `StatusCode::BAD_REQUEST`. -/
def badRequest (message : String) : HttpError := ⟨400, message⟩

/-- `MAX_MULTIPART_FIELDS`. -/
def maxMultipartFields : Nat := 10

/-- `MAX_BINARY_FIELD_SIZE`. -/
def maxBinaryFieldSize : Nat := 512 * 1024 * 1024

/-- `MAX_DIFF_FIELD_SIZE`. -/
def maxDiffFieldSize : Nat := 256 * 1024 * 1024

/-- `MAX_TEXT_FIELD_SIZE`. -/
def maxTextFieldSize : Nat := 64 * 1024

/-- `MAX_SIGNATURE_FIELD_SIZE`. -/
def maxSignatureFieldSize : Nat := 1024

/-! ## forms -/

/-- A field of a form: its name, the chunks it arrives in, and whether reading
it fails behind them. -/
structure Field where
  name : String
  chunks : List Bytes
  broken : Bool
deriving DecidableEq, Repr

/-- A form: its fields, and whether reading it fails behind them. -/
structure Form where
  fields : List Field
  broken : Bool
deriving DecidableEq, Repr

/-- `read_field_bytes_limited`. -/
def readFieldBytesLimited (field : Field) (maxSize : Nat) : Except HttpError Bytes :=
  if field.broken then .error (badRequest "Invalid request")
  else if field.chunks.flatten.length > maxSize then
    .error ⟨413, s!"Field '{field.name}' exceeds size limit"⟩
  else .ok field.chunks.flatten

/-- `read_field_text_limited`. -/
def readFieldTextLimited (field : Field) (maxSize : Nat) : Except HttpError String := do
  let bytes ← readFieldBytesLimited field maxSize
  match String.fromUTF8? ⟨bytes.toArray⟩ with
  | some text => pure text
  | none => throw (badRequest s!"Field '{field.name}' contains invalid UTF-8")

/-- `StreamedField`. -/
structure StreamedField where
  tempPath : UploadPath
  hash : Hash
  size : Nat
deriving DecidableEq, Repr

section Streaming

variable (X : ServerCrates) (e : ServerEnv)

/-- Remove a temporary file, if it can be removed. -/
def cleanup (temp : UploadPath) : Handler Unit :=
  match e.faults .uploadCleanup with
  | none => modify fun s => { s with uploads := s.uploads.remove temp }
  | some _ => pure ()

/-- Remove the temporary file and answer with an error. -/
def bail {α : Type} (temp : UploadPath) (err : HttpError) : Handler α := do
  cleanup e temp
  throw err

/-- The chunk loop of `stream_field_to_temp`: what was written so far, which is
also what was hashed. -/
def streamChunks (k : Nat) (temp : UploadPath) (maxSize : Nat) (field : Field) :
    List Bytes → Nat → Bytes → Handler Bytes
  | [], _, written =>
    if field.broken then bail e temp (badRequest "Invalid request")
    else
      match e.faults (.uploadFlush k) with
      | none => pure written
      | some _ => bail e temp serverError
  | chunk :: rest, i, written =>
    if written.length + chunk.length > maxSize then
      bail e temp ⟨413, s!"Field '{field.name}' exceeds size limit"⟩
    else
      match e.faults (.uploadWrite k i) with
      | some _ => bail e temp serverError
      | none => do
          modify fun s => { s with uploads := s.uploads.write temp (written ++ chunk) }
          streamChunks k temp maxSize field rest (i + 1) (written ++ chunk)

/-- `stream_field_to_temp`, for the `k`-th field of a form. -/
def streamFieldToTemp (dir : Dir) (k : Nat) (maxSize : Nat) (field : Field) :
    Handler StreamedField := do
  adapt (fun _ => serverError) (createDirs e (.uploadDir k) dir)
  let temp : UploadPath := ⟨dir, field.name, e.uniqSuffix k⟩
  adapt (fun _ => serverError) (tryIo e (.uploadCreate k))
  modify fun s => { s with uploads := s.uploads.write temp [] }
  let content ← streamChunks e k temp maxSize field field.chunks 0 []
  pure ⟨temp, X.crypto.blake3 content, content.length⟩

/-- Read a form field by field; `one` adds a field to what was collected. -/
def collectFields {α : Type} (one : Nat → Field → α → Handler α) (broken : Bool) :
    List Field → Nat → α → Handler α
  | [], _, acc => if broken then throw (badRequest "Invalid request") else pure acc
  | field :: rest, k, acc =>
    if k + 1 > maxMultipartFields then throw (badRequest "Too many multipart fields")
    else do
      let acc ← one k field acc
      collectFields one broken rest (k + 1) acc

end Streaming

/-! ## the checks on a form -/

section Checks

variable (X : ServerCrates)

/-- `decode_signature`: a text of hexadecimal digits only is hexadecimal, any
other is base64. -/
def decodeSignature (input : String) : Option Bytes :=
  let input := Text.trim input
  if input.toList.all isAsciiHexdigit then decodePairs strictHexByte (utf8 input)
  else X.base64Decode input

/-- The platform field. -/
def checkPlatform (platform : Option String) : Except HttpError Platform := do
  let text ← Except.ofOption (badRequest "Missing required field: platform") platform
  Except.ofOption (badRequest "Invalid platform") (Platform.parse text)

/-- The checksum field must be a hash in hexadecimal, and the one of the
streamed bytes. -/
def checkChecksum (hash : Hash) (checksum : Option String) : Except HttpError String := do
  let text ← Except.ofOption (badRequest "Missing required field: checksum") checksum
  Except.ensure (text.toList.all isAsciiHexdigit ∧ Text.byteLen text = 64)
    (badRequest "Invalid checksum format")
  Except.ensure (Text.asciiLower hash.toHex = Text.asciiLower text)
    (badRequest "Checksum verification failed")
  pure text

/-- Whether a key accepts a signature over the canonical payload. -/
def verifies (pubkey : ByteVec 32) (hash : Hash) (version : String)
    (signature : Signature) : Bool :=
  match VerifyingKey.fromBytes X.crypto pubkey with
  | .ok key => key.verify (signingPayload hash.val version) signature
  | .error _ => false

/-- `ED25519_SIGNATURE_SIZE`. -/
def ed25519SignatureSize : Nat := 64

/-- The signature field. -/
def checkSignature (signature : Option Bytes) : Except HttpError Signature := do
  let data ← Except.ofOption (badRequest "Missing required field: signature") signature
  Except.ofOption (badRequest "Invalid signature") (ByteVec.tryInto ed25519SignatureSize data)

end Checks

/-! ## `publish_version` -/

/-- What `publish_version` collects from a form. -/
structure PublishForm where
  binary : Option StreamedField := none
  platform : Option String := none
  signature : Option Bytes := none
  checksum : Option String := none
  releaseNotes : Option String := none

/-- A form that passed its checks. -/
structure CheckedPublish where
  platform : Platform
  signature : Signature
  checksum : String

section Requests

variable (X : ServerCrates) (e : ServerEnv)

/-- Refuse a request whose names are not valid. -/
def requireValid (r : Except ValidationError Unit) (err : HttpError) : Handler Unit :=
  Prog.ofExcept (r.mapError fun _ => err)

/-- Refuse a request of a publisher that may not change the application. -/
def requirePublisher (publisher : Publisher) (appName : String) : Handler Unit :=
  if publisher.canPublish appName then pure () else throw ⟨403, "Not authorized for this app"⟩

/-- Add one field of a publish form to what was collected. -/
def collectPublish (p : VersionPath) (k : Nat) (field : Field) (acc : PublishForm) :
    Handler PublishForm :=
  match field.name with
  | "binary" => do
      let streamed ← streamFieldToTemp X e (.version p) k maxBinaryFieldSize field
      pure { acc with binary := some streamed }
  | "platform" => do
      let text ← Prog.ofExcept (readFieldTextLimited field maxTextFieldSize)
      pure { acc with platform := some text }
  | "signature" => do
      let text ← Prog.ofExcept (readFieldTextLimited field maxSignatureFieldSize)
      let data ← Prog.ofExcept (Except.ofOption (badRequest "Invalid signature")
        (decodeSignature X text))
      pure { acc with signature := some data }
  | "checksum" => do
      let text ← Prog.ofExcept (readFieldTextLimited field maxTextFieldSize)
      pure { acc with checksum := some text }
  | "release_notes" => do
      let notes ← Prog.ofExcept (readFieldTextLimited field maxTextFieldSize)
      pure (if notes.isEmpty then acc else { acc with releaseNotes := some notes })
  | _ => pure acc

/-- The checks of `publish_version` on a complete form. -/
def checkPublish (publisher : Publisher) (p : VersionPath) (form : PublishForm) (hash : Hash) :
    Except HttpError CheckedPublish := do
  let platform ← checkPlatform form.platform
  let signature ← checkSignature form.signature
  let checksum ← checkChecksum hash form.checksum
  match publisher.pubkey with
  | some pubkey =>
    Except.ensure (verifies X pubkey hash p.version signature = true)
      (badRequest "Signature verification failed")
  | none => pure ()
  pure ⟨platform, signature, checksum⟩

/-- Store a checked form: the binary, the signature, the manifest and the
catalog, in this order. -/
def storePublish (p : VersionPath) (version : Version) (streamed : StreamedField)
    (checked : CheckedPublish) (releaseNotes : Option String) : Handler Unit := do
  match ← attempt (adapt (fun _ => serverError)
      (saveBinaryFromTemp e p checked.platform streamed.tempPath)) with
  | .error err => bail e streamed.tempPath err
  | .ok _ =>
    adapt (fun _ => serverError) (do
      saveSignature e p checked.signature.val
      updateManifest X.semver e p checked.platform checked.checksum streamed.size
      updateCatalogAtomic X.semver e p.appName
        ⟨version, [checked.platform], releaseNotes, false, none⟩)

/-- `publish_version`. -/
def publishVersion (publisher : Publisher) (p : VersionPath) (form : Form) :
    Handler PublishResponse := do
  requireValid (validateName p.appName) (badRequest "Invalid request")
  requireValid (validateVersion p.version) (badRequest "Invalid request")
  let version ← Prog.ofExcept (Except.ofOption (badRequest "Invalid version format")
    (X.semver.parse p.version))
  requirePublisher publisher p.appName
  adapt (fun _ => serverError) (ensureVersionDir e 0 p)
  let collected ← collectFields (collectPublish X e p) form.broken form.fields 0 {}
  let streamed ← Prog.ofExcept (Except.ofOption (badRequest "Missing required field: binary")
    collected.binary)
  match checkPublish X publisher p collected streamed.hash with
  | .error err => bail e streamed.tempPath err
  | .ok checked => do
      storePublish X e p version streamed checked collected.releaseNotes
      pure ⟨p.version, s!"Successfully published version {p.version} for {p.appName}"⟩

/-! ## `activate_version` and `delete_version` -/

/-- How `activate_version` and `delete_version` word an error of the storage. -/
def versionError : StorageError → HttpError
  | .notFound _ => ⟨404, "Version not found"⟩
  | _ => serverError

/-- `ActivateRequest`. -/
structure ActivateRequest where
  rolloutPercentage : Option Nat
deriving DecidableEq, Repr

/-- `activate_version`; the body of the request is not used. -/
def activateVersion (publisher : Publisher) (p : VersionPath) (_request : Option ActivateRequest) :
    Handler PublishResponse := do
  requireValid (validateName p.appName) (badRequest "Invalid request")
  requirePublisher publisher p.appName
  requireValid (validateVersion p.version) (badRequest "Invalid request")
  adapt versionError (setLatestVersion X.semver e p)
  pure ⟨p.version, s!"Version {p.version} is now the latest for {p.appName}"⟩

/-- `delete_version`: the message of the response. -/
def deleteVersion (publisher : Publisher) (p : VersionPath) : Handler String := do
  requireValid (validateName p.appName) (badRequest "Invalid application name")
  requirePublisher publisher p.appName
  requireValid (validateVersion p.version) (badRequest "Invalid version")
  adapt versionError (deleteVersionFiles X.semver e p)
  pure s!"Version {p.version} of {p.appName} has been marked as deleted"

/-! ## `update_rollout` -/

/-- `RolloutRequest`. -/
structure RolloutRequest where
  percentage : Nat
deriving DecidableEq, Repr

/-- `RolloutResponse`, when it reports a success. -/
structure RolloutResponse where
  rollout : RolloutConfig
  message : String
deriving DecidableEq, Repr

/-- The change `update_rollout` makes. -/
def changeRollout (now : String) (percentage : Nat) (config : RolloutConfig) : RolloutConfig :=
  { config with
    percentage
    startedAt :=
      if config.percentage = 0 ∧ percentage > 0 ∧ config.startedAt.isNone then some now
      else config.startedAt
    completedAt :=
      if percentage ≥ 100 ∧ config.completedAt.isNone then some now else config.completedAt }

/-- `update_rollout`. -/
def updateRollout (publisher : Publisher) (p : VersionPath) (request : RolloutRequest) :
    Handler RolloutResponse := do
  requireValid (validateName p.appName) (badRequest "Invalid request")
  requirePublisher publisher p.appName
  requireValid (validateVersion p.version) (badRequest "Invalid request")
  if request.percentage > 100 then throw (badRequest "Percentage must be between 0 and 100")
  else if ((← get).getVersionManifest p).isNone then throw ⟨404, "Version not found"⟩
  else do
    let config ← adapt (fun _ => serverError)
      (updateRolloutConfigAtomic e p (changeRollout e.now request.percentage))
    pure ⟨config,
      s!"Rollout updated to {config.percentage}% for version {p.version} of {p.appName}"⟩

/-! ## `upload_diff` -/

/-- `DiffPath`. -/
structure DiffPath where
  appName : String
  fromVersion : String
  toVersion : String
deriving DecidableEq, Repr

/-- What `upload_diff` collects from a form. -/
structure DiffForm where
  diff : Option StreamedField := none
  platform : Option String := none
  checksum : Option String := none
  algorithm : String := "bsdiff"

/-- Add one field of a diff form to what was collected. -/
def collectDiff (p : DiffPath) (k : Nat) (field : Field) (acc : DiffForm) : Handler DiffForm :=
  match field.name with
  | "diff" => do
      let streamed ← streamFieldToTemp X e (.diffs p.appName) k maxDiffFieldSize field
      pure { acc with diff := some streamed }
  | "platform" => do
      let text ← Prog.ofExcept (readFieldTextLimited field maxTextFieldSize)
      pure { acc with platform := some text }
  | "checksum" => do
      let text ← Prog.ofExcept (readFieldTextLimited field maxTextFieldSize)
      pure { acc with checksum := some text }
  | "algorithm" => do
      let algorithm ← Prog.ofExcept (readFieldTextLimited field maxTextFieldSize)
      if ["bsdiff", "courgette", "xdelta3"].contains algorithm then pure { acc with algorithm }
      else throw (badRequest "Invalid algorithm")
  | _ => pure acc

/-- The checks of `upload_diff` on a complete form. -/
def checkDiff (form : DiffForm) (hash : Hash) : Except HttpError (Platform × String) := do
  let platform ← checkPlatform form.platform
  let checksum ← checkChecksum hash form.checksum
  pure (platform, checksum)

/-- Store a checked diff, and then add it to the manifest of its target. -/
def storeDiff (p : DiffPath) (fromVersion : Version) (streamed : StreamedField)
    (platform : Platform) (checksum algorithm : String) : Handler Unit := do
  match ← attempt (adapt (fun _ => serverError)
      (saveDiffFromTemp e p.appName p.fromVersion p.toVersion platform streamed.tempPath)) with
  | .error err => bail e streamed.tempPath err
  | .ok _ =>
      adapt (fun _ => serverError)
        (addDiffToManifest e ⟨p.appName, p.toVersion⟩ platform
          ⟨fromVersion, checksum, streamed.size, algorithm⟩)

/-- `upload_diff`. -/
def uploadDiff (publisher : Publisher) (p : DiffPath) (form : Form) : Handler PublishResponse := do
  requireValid (validateName p.appName) (badRequest "Invalid request")
  requirePublisher publisher p.appName
  requireValid (validateVersion p.fromVersion) (badRequest "Invalid request")
  requireValid (validateVersion p.toVersion) (badRequest "Invalid request")
  let fromVersion ← Prog.ofExcept (Except.ofOption (badRequest "Invalid version format")
    (X.semver.parse p.fromVersion))
  let _ ← Prog.ofExcept (Except.ofOption (badRequest "Invalid version format")
    (X.semver.parse p.toVersion))
  adapt (fun _ => serverError) (ensureDiffsDir e 0 p.appName)
  let collected ← collectFields (collectDiff X e p) form.broken form.fields 0 {}
  let streamed ← Prog.ofExcept (Except.ofOption (badRequest "Missing required field: diff")
    collected.diff)
  match checkDiff collected streamed.hash with
  | .error err => bail e streamed.tempPath err
  | .ok (platform, checksum) => do
      storeDiff e p fromVersion streamed platform checksum collected.algorithm
      pure ⟨p.toVersion,
        s!"Successfully uploaded diff from {p.fromVersion} to {p.toVersion} for {p.appName}"⟩

end Requests

/-! ## requests -/

/-- A request to a route that changes the store, by a publisher that was
authenticated. -/
inductive Request where
  | publish (e : ServerEnv) (publisher : Publisher) (p : VersionPath) (form : Form)
  | uploadDiff (e : ServerEnv) (publisher : Publisher) (p : DiffPath) (form : Form)
  | activate (e : ServerEnv) (publisher : Publisher) (p : VersionPath)
      (request : Option ActivateRequest)
  | rollout (e : ServerEnv) (publisher : Publisher) (p : VersionPath) (request : RolloutRequest)
  | delete (e : ServerEnv) (publisher : Publisher) (p : VersionPath)

namespace Request

/-- Whether the request succeeds, and the store behind it. -/
def run (X : ServerCrates) (s : Store) : Request → Bool × Store
  | publish e publisher p form => outcome (exec (publishVersion X e publisher p form) s)
  | uploadDiff e publisher p form => outcome (exec (Deltaship.uploadDiff X e publisher p form) s)
  | activate e publisher p request => outcome (exec (activateVersion X e publisher p request) s)
  | rollout e publisher p request => outcome (exec (updateRollout e publisher p request) s)
  | delete e publisher p => outcome (exec (deleteVersion X e publisher p) s)
where
  /-- A response of any kind is a success. -/
  outcome {α : Type} (r : Except HttpError α × Store) : Bool × Store := (r.1.toBool, r.2)

/-- The store behind a request. -/
def next (X : ServerCrates) (s : Store) (q : Request) : Store := (q.run X s).2

/-- Whether a request succeeds. -/
def Succeeds (X : ServerCrates) (s : Store) (q : Request) : Prop := (q.run X s).1 = true

instance (X : ServerCrates) (s : Store) (q : Request) : Decidable (q.Succeeds X s) :=
  inferInstanceAs (Decidable ((q.run X s).1 = true))

end Request

end Deltaship
