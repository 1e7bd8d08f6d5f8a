import Deltaship.Server.Publish

/-!
# Deltaship.Server.Artifacts

What a request is for: the change it makes to the files that answers are made
from, once everything it checks has been checked and nothing fails.

`Release` is what a publish request uploads; `Release.Accepted` says that the
checks of `publish_version` passed.  The changes are functions on `Artifacts`;
`Deltaship.Server.Effects` shows that the requests make exactly these.
-/

namespace Deltaship

/-! ## forms -/

/-- The bytes of a field. -/
def Field.content (field : Field) : Bytes := field.chunks.flatten

/-- The text of a field, if it is one. -/
def Field.text (field : Field) : Option String := String.fromUTF8? ⟨field.content.toArray⟩

/-- The last of these fields that has a name. -/
def lastField (name : String) (fields : List Field) : Option Field :=
  (fields.filter fun field => field.name == name).getLast?

/-- The text of the last field of a name. -/
def lastText (name : String) (fields : List Field) : Option String :=
  (lastField name fields).bind Field.text

/-- A field of that name at the end is the last one. -/
theorem lastField_append_of_eq {name : String} {fields : List Field} {field : Field}
    (h : field.name = name) : lastField name (fields ++ [field]) = some field := by
  simp [lastField, h]

/-- Another field at the end does not matter. -/
theorem lastField_append_of_ne {name : String} {fields : List Field} {field : Field}
    (h : field.name ≠ name) : lastField name (fields ++ [field]) = lastField name fields := by
  simp [lastField, h]

/-! ## releases -/

/-- A text is the hash of these bytes in hexadecimal. -/
structure ChecksumOf (X : ServerCrates) (b : Bytes) (checksum : String) : Prop where
  digits : checksum.toList.all isAsciiHexdigit = true
  length : Text.byteLen checksum = 64
  value : Text.asciiLower (X.crypto.blake3 b).toHex = Text.asciiLower checksum

/-- What a publish request uploads. -/
structure Release where
  version : Version
  platform : Platform
  binary : Bytes
  signature : Signature
  checksum : String
  releaseNotes : Option String

namespace Release

/-- The entry of a release in a catalog. -/
def info (r : Release) : VersionInfo := ⟨r.version, [r.platform], r.releaseNotes, false, none⟩

/-- The entry of a release in a manifest. -/
def artifact (r : Release) : PlatformArtifact := ⟨r.checksum, r.binary.length, []⟩

/-- The release is what a form uploads, and `publish_version` accepts it. -/
structure Accepted (X : ServerCrates) (publisher : Publisher) (p : VersionPath)
    (fields : List Field) (r : Release) : Prop where
  nameOk : validateName p.appName = .ok ()
  versionOk : validateVersion p.version = .ok ()
  parse : X.semver.parse p.version = some r.version
  allowed : publisher.canPublish p.appName = true
  binary : (lastField "binary" fields).map Field.content = some r.binary
  platform : (lastText "platform" fields).bind Platform.parse = some r.platform
  signature : (lastText "signature" fields).bind (decodeSignature X) = some r.signature.val
  checksum : ChecksumOf X r.binary r.checksum
  verified : ∀ pubkey, publisher.pubkey = some pubkey →
    verifies X pubkey (X.crypto.blake3 r.binary) p.version r.signature = true

end Release

/-- The manifest of a version after a release of it; a manifest that is missing
or does not parse counts as empty. -/
def publishManifest (version : Version) (platform : Platform) (artifact : PlatformArtifact)
    (current : Option VersionManifest) : VersionManifest :=
  let manifest := current.getD ⟨version, Files.empty⟩
  { manifest with platforms := manifest.platforms.write platform artifact }

/-! ## changes -/

namespace Artifacts

/-- Replace a catalog. -/
def setCatalog (appName : String) (catalog : AppCatalog) (a : Artifacts) : Artifacts :=
  { a with catalogs := a.catalogs.write appName (some catalog) }

/-- The files of a release: the binary, the signature and the manifest.  Whether
the manifest can be read, and the order of its platforms, is up to the host. -/
def storeRelease (p : VersionPath) (r : Release) (order : MapOrder) (readsManifest : Bool)
    (a : Artifacts) : Artifacts :=
  { a with
    binaries := a.binaries.write (p, r.platform) r.binary
    signatures := a.signatures.write p r.signature.val
    manifests := a.manifests.write p
      (some ((publishManifest r.version r.platform r.artifact
        (if readsManifest then a.getVersionManifest p else none)).inOrder order)) }

/-- A release: its files, and then its entry in the catalog. -/
def publish (S : SemverCrate) (p : VersionPath) (r : Release) (order : MapOrder)
    (readsManifest readsCatalog : Bool) (a : Artifacts) : Artifacts :=
  (a.storeRelease p r order readsManifest).setCatalog p.appName
    (publishCatalog S p.appName r.info (if readsCatalog then a.getAppCatalog p.appName else none))

/-- Mark a version as deleted. -/
def markDeleted (p : VersionPath) (a : Artifacts) : Artifacts :=
  { a with deleted := a.deleted.insert p }

/-- A diff: its file, and its entry in the manifest of the target. -/
def addDiff (p : DiffPath) (platform : Platform) (diff : DiffInfo) (b : Bytes)
    (manifest : VersionManifest) (artifact : PlatformArtifact) (order : MapOrder)
    (a : Artifacts) : Artifacts :=
  { a with
    diffs := a.diffs.write (p.appName, diffFileName p.fromVersion p.toVersion platform) b
    manifests := a.manifests.write ⟨p.appName, p.toVersion⟩
      (some (({ manifest with
        platforms := manifest.platforms.write platform
          { artifact with diffsFrom := mergeDiff diff artifact.diffsFrom } } :
            VersionManifest).inOrder order)) }

/-- Replace a rollout configuration. -/
def setRollout (p : VersionPath) (config : RolloutConfig) (a : Artifacts) : Artifacts :=
  { a with rollouts := a.rollouts.write p (some config) }

/-! ### reading back -/

variable {S : SemverCrate} {p q : VersionPath} {r : Release} {o : MapOrder} {b b' : Bool}
  {a : Artifacts}

/-- The catalog that was replaced is read back. -/
@[simp] theorem getAppCatalog_setCatalog_self {appName : String} {catalog : AppCatalog} :
    (a.setCatalog appName catalog).getAppCatalog appName = some catalog := by
  simp [setCatalog, getAppCatalog]

/-- The catalogs of other applications are what they were. -/
theorem getAppCatalog_setCatalog_ne {appName appName' : String} {catalog : AppCatalog}
    (h : appName' ≠ appName) :
    (a.setCatalog appName catalog).getAppCatalog appName' = a.getAppCatalog appName' := by
  simp [setCatalog, getAppCatalog, Files.read_write_ne _ _ h]

/-- A publication enters its version into the catalog. -/
@[simp] theorem getAppCatalog_publish_self :
    (a.publish S p r o b b').getAppCatalog p.appName =
      some (publishCatalog S p.appName r.info
        (if b' then a.getAppCatalog p.appName else none)) := by
  simp [publish]

theorem getAppCatalog_publish_ne {appName : String} (h : appName ≠ p.appName) :
    (a.publish S p r o b b').getAppCatalog appName = a.getAppCatalog appName := by
  rw [publish, getAppCatalog_setCatalog_ne h]
  rfl

/-- A publication enters its platform into the manifest. -/
@[simp] theorem getVersionManifest_publish_self :
    (a.publish S p r o b b').getVersionManifest p =
      some ((publishManifest r.version r.platform r.artifact
        (if b then a.getVersionManifest p else none)).inOrder o) := by
  simp [publish, setCatalog, storeRelease, getVersionManifest]

theorem getVersionManifest_publish_ne (h : q ≠ p) :
    (a.publish S p r o b b').getVersionManifest q = a.getVersionManifest q := by
  simp [publish, setCatalog, storeRelease, getVersionManifest, Files.read_write_ne _ _ h]

/-- A version that is marked is deleted, and the others are as they were. -/
theorem isDeleted_markDeleted : (a.markDeleted p).isDeleted q = (a.isDeleted q || q == p) := by
  simp only [markDeleted, isDeleted, List.contains_eq_mem, List.mem_insert_iff, Bool.decide_or,
    Bool.or_comm, beq_eq_decide]

/-- The configuration that was replaced is read back. -/
@[simp] theorem getRolloutConfig_setRollout_self {config : RolloutConfig} :
    (a.setRollout p config).getRolloutConfig p = some config := by
  simp [setRollout, getRolloutConfig]

/-- Those of other versions are what they were. -/
theorem getRolloutConfig_setRollout_ne {config : RolloutConfig} (h : q ≠ p) :
    (a.setRollout p config).getRolloutConfig q = a.getRolloutConfig q := by
  simp [setRollout, getRolloutConfig, Files.read_write_ne _ _ h]

end Artifacts

/-! ## a sample server -/

/-- The crates of a sample server; nothing it is sent is in base64. -/
def sampleServer : ServerCrates := ⟨sampleSemver, sampleCrypto, fun _ => none⟩

/-- The platforms in the order of their declaration. -/
def sampleOrder : MapOrder :=
  ⟨[.linuxX86_64, .linuxAarch64, .windowsX86_64, .macosX86_64, .macosAarch64], by decide,
    fun platform => by cases platform <;> decide⟩

/-- A host on which nothing fails. -/
def sampleServerEnv : ServerEnv := ⟨fun _ => none, fun _ => (0, 0), "", sampleOrder⟩

/-- A publisher with the sample key. -/
def samplePublisher : Publisher := ⟨"publisher", none, some sampleKey⟩

/-- A form with a binary, its checksum and a signature in hexadecimal. -/
def sampleForm (platform : Platform) (binary : Bytes) (sig : Signature) : Form where
  fields :=
    [⟨"platform", [utf8 platform.asStr], false⟩, ⟨"binary", [binary], false⟩,
      ⟨"checksum", [utf8 (sampleBlake3 binary).toHex], false⟩,
      ⟨"signature", [utf8 (String.ofList (sig.val.flatMap fun x =>
        [hexChar (x / 16), hexChar (x % 16)]))], false⟩]
  broken := false

/-- The request that publishes this as version 1.0.0. -/
def samplePublish (platform : Platform) (binary : Bytes) (sig : Signature) : Request :=
  .publish sampleServerEnv samplePublisher ⟨"app", "1.0.0"⟩ (sampleForm platform binary sig)

/-- The server after the binary `[1]` was published for Linux. -/
def sampleFirstStore : Store where
  catalogs := Files.ofList [("app", some ⟨"app",
    [⟨.new 1 0 0, [.linuxX86_64], none, false, none⟩], .new 1 0 0⟩)]
  manifests := Files.ofList [(⟨"app", "1.0.0"⟩, some ⟨.new 1 0 0,
    Files.ofList [(.linuxX86_64, ⟨(sampleBlake3 [1]).toHex, 1, []⟩)]⟩)]
  binaries := Files.ofList [((⟨"app", "1.0.0"⟩, .linuxX86_64), [1])]
  signatures := Files.ofList [(⟨"app", "1.0.0"⟩, sampleSig1.val)]
  deleted := []
  rollouts := Files.empty
  diffs := Files.empty
  dirs := [.diffs "app", .app "app", .versions "app", .version ⟨"app", "1.0.0"⟩]
  uploads := Files.empty
  temps := Files.empty

/-- The publication succeeds, and leaves the first store. -/
theorem samplePublish_run :
    (samplePublish .linuxX86_64 [1] sampleSig1).run sampleServer Store.empty =
      (true, sampleFirstStore) := by
  decide +kernel

end Deltaship
