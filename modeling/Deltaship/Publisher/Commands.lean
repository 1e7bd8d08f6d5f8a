import Deltaship.Core.Platform
import Deltaship.Publisher.DiffManager

/-!
# Deltaship.Publisher.Commands

The publisher's commands that change its database: `register`, `diff`, `sign` and
`verify`, in a project that has been initialized.

The signing key is given, since a project has one; loading it can fail.  The public
key of the configuration is an input of `verify`, as is what is typed at its prompt.
The printed output is left out, but for the results of `verify`.
-/

namespace Deltaship

open Prog

/-- A signing key with its public half. -/
structure SigningKey (C : CryptoCrates) where
  verifyingKey : VerifyingKey C
  /-- `SigningKey::sign`. -/
  sign : Bytes → Signature

section Host

variable (e : PublisherEnv)

/-- `fs::metadata(path)?.len()`. -/
def fileSize (site : PublisherSite) (path : String) : PublisherM Nat := do
  hostOp e site
  match (← get).content path.toList with
  | none => throw notFoundText
  | some b => pure b.length

/-- A file that has to be read. -/
def readFileOrFail (site : PublisherSite) (path : String) : PublisherM Bytes := do
  match ← readAll e site path with
  | .ok b => pure b
  | .error text => throw text

end Host

/-! ## register -/

namespace Register

variable (X : PublisherCrates) (e : PublisherEnv)

/-- Get or create the binary. -/
def binaryFor (name platform file : String) : PublisherM DbBinary := do
  match ← dbRead e .getBinary fun db => db.getBinaryByName name platform with
  | some b => pure b
  | none => do
      let binaryPath := (← get).canonicalBinaryPath file
      dbInsert e .insertBinary (PublisherDb.insertBinary (e.uuid .binary) name platform binaryPath)

/-- Hash the file and insert the version. -/
def insertVersion (binary : DbBinary) (version file : String) : PublisherM DbVersion := do
  let size ← fileSize e .metadata file
  let data ← readFileOrFail e .hashBlake3 file
  let data' ← readFileOrFail e .hashSha256 file
  dbInsert e .insertVersion (PublisherDb.insertVersion X.semver (e.uuid .version) e.now
    ⟨binary.binaryId, version, file, size, (X.crypto.blake3 data).val,
      (X.crypto.sha256 data').val⟩)

/-- `register::run`. -/
def run (name version file platform : String) (noDiff : Bool) : PublisherM Unit := do
  if ((← get).content file.toList).isNone then
    throw (s!"Binary file not found: {file}\n\nNext steps:\n" ++
      "  - Verify the file path is correct\n" ++
      s!"  - Check that the file exists: ls -l {file}\n" ++
      "  - Ensure you're running the command from the correct directory\n" ++
      "  - Use an absolute path if the file is not in the current directory")
  else if (X.semver.parse version).isNone then
    throw (s!"Invalid version '{version}': Not valid semantic versioning.\n\nNext steps:\n" ++
      "  - Use semantic versioning format: MAJOR.MINOR.PATCH\n" ++
      "  - Examples: 1.0.0, 2.1.3, 0.1.0-beta\n" ++
      "  - See https://semver.org for full specification\n" ++
      s!"  - Current input: '{version}'")
  else if (Platform.parse platform).isNone then
    throw (s!"Invalid platform '{platform}': Not a recognized platform identifier.\n\n" ++
      "Next steps:\n  - Use one of the supported platforms:\n" ++
      "    * linux-x86_64 (64-bit Linux on Intel/AMD)\n" ++
      "    * linux-aarch64 (64-bit Linux on ARM)\n    * windows-x86_64 (64-bit Windows)\n" ++
      "    * macos-x86_64 (macOS on Intel)\n    * macos-aarch64 (macOS on Apple Silicon)\n" ++
      s!"  - Current input: '{platform}'")
  else do
    hostOp e .openDb
    let binary ← binaryFor e name platform file
    let existing ← dbRead e .getVersion fun db => db.getVersionByString binary.binaryId version
    if existing.isSome then
      throw (s!"Version {version} already registered for {name} ({platform}).\n\nNext steps:\n" ++
        s!"  - List versions with: deltaship-publisher list --name {name}\n" ++
        "  - Use a different version number if this is a new release\n" ++
        "  - To replace the existing version, delete it first with: " ++
        s!"deltaship-publisher cleanup --version {version}\n" ++
        s!"  - Or use a pre-release identifier: {version}-rc.1")
    else do
      let dbVersion ← insertVersion X e binary version file
      if noDiff then pure ()
      else do
        let _ ← generateDiffForVersion X e name binary.binaryId dbVersion
        pure ()

end Register

/-! ## diff -/

/-- `diff::run`. -/
def Diff.run (X : PublisherCrates) (e : PublisherEnv)
    (name platform fromVersion toVersion : String) (output : Option String) : PublisherM Unit := do
  hostOp e .openDb
  let _ ← generateDiffBetween X e name platform fromVersion toVersion output
  pure ()

/-! ## sign -/

namespace Sign

variable (X : PublisherCrates) (K : SigningKey X.crypto) (e : PublisherEnv)

/-- The version to sign. -/
def findVersion : Option String → Option String → Option String → PublisherM DbVersion
  | some vid, _, _ => do
      let version? ← dbRead e .getVersion fun db => db.getVersion vid
      Prog.ofExcept (Except.ofOption s!"Version not found: {vid}" version?)
  | none, some n, some v => do
      let binary? ← dbRead e .listBinaries fun db =>
        db.listBinaries.find? fun b => b.binaryName == n
      let binary ← Prog.ofExcept (Except.ofOption s!"Binary not found: {n}" binary?)
      let version? ← dbRead e .getVersion fun db => db.getVersionByString binary.binaryId v
      Prog.ofExcept (Except.ofOption s!"Version {v} not found for binary {n}" version?)
  | _, _, _ => throw "Must provide either --version-id or both --name and --version"

/-- `sign::run`. -/
def run (versionId name version : Option String) : PublisherM Unit := do
  hostOp e .openDb
  let dbVersion ← findVersion e versionId name version
  hostOp e .loadKey
  let signature := K.sign (signingPayload dbVersion.fileHashBlake3 dbVersion.versionString)
  dbUpdate e .setSignature
    (PublisherDb.setVersionSignature dbVersion.versionId signature.val e.timestamp)
  let binary? ← dbRead e .showBinary fun db => db.getBinary dbVersion.binaryId
  let _ ← Prog.ofExcept (Except.ofOption "Binary not found" binary?)
  pure ()

end Sign

/-! ## verify -/

/-- `VersionVerifyResult`, without the file size as it is printed. -/
structure VersionVerifyResult where
  versionId : String
  versionString : String
  binaryName : String
  platform : String
  fileExists : Bool := false
  blake3Matches : Option Bool := none
  sha256Matches : Option Bool := none
  isSigned : Bool
  signatureValid : Option Bool := none
  signatureTimestamp : Option String
  timestampReasonable : Option Bool := none
  passed : Bool := true
  warnings : List String := []
  errors : List String := []
deriving DecidableEq, Repr

namespace VersionVerifyResult

/-- Add a warning. -/
def warn (r : VersionVerifyResult) (text : String) : VersionVerifyResult :=
  { r with warnings := r.warnings ++ [text] }

/-- Add an error, with which the version does not pass. -/
def fail (r : VersionVerifyResult) (text : String) : VersionVerifyResult :=
  { r with passed := false, errors := r.errors ++ [text] }

end VersionVerifyResult

namespace Verify

variable (X : PublisherCrates) (e : PublisherEnv)

/-- `hex_decode`; slicing inside a character panics, which fails as well. -/
def hexDecode (s : String) : Except String Bytes :=
  if (utf8 s).length % 2 ≠ 0 then .error "Invalid hex string length"
  else Except.ofOption "invalid digit found in string" (decodePairs hexByte (utf8 s))

/-- `load_public_key`, for the key of the configuration. -/
def loadPublicKey : Option String → Except String (Option (VerifyingKey X.crypto))
  | none => .ok none
  | some hex =>
    if hex.isEmpty then .ok none
    else do
      let bytes ← hexDecode hex
      let array ← Except.ofOption "Invalid public key length" (ByteVec.tryInto 32 bytes)
      let key ← (VerifyingKey.fromBytes X.crypto array).mapError CryptoError.text
      pure (some key)

/-- Check 2: the BLAKE3 hash. -/
def checkBlake3 (k : Nat) (version : DbVersion) (size : Nat) (data : Bytes) (fix : Bool)
    (r : VersionVerifyResult) : PublisherM VersionVerifyResult := do
  let stored ← Prog.ofExcept
    (Except.ofOption "Invalid stored Blake3 hash length" (ByteVec.tryInto 32 version.fileHashBlake3))
  if X.crypto.blake3 data = stored then pure { r with blake3Matches := some true }
  else if fix then do
    dbUpdate e (.updateHashes k) (PublisherDb.updateVersionHashes version.versionId
      (X.crypto.blake3 data).val (X.crypto.sha256 data).val size)
    pure ({ r with blake3Matches := some false }.warn "Blake3 hash mismatch - FIXED")
  else pure ({ r with blake3Matches := some false }.fail "Blake3 hash mismatch")

/-- Check 3: the SHA-256 hash. -/
def checkSha256 (k : Nat) (version : DbVersion) (size : Nat) (data : Bytes) (fix : Bool)
    (r : VersionVerifyResult) : PublisherM VersionVerifyResult := do
  let stored ← Prog.ofExcept
    (Except.ofOption "Invalid stored SHA256 hash length" (ByteVec.tryInto 32 version.fileHashSha256))
  if X.crypto.sha256 data = stored then pure { r with sha256Matches := some true }
  else if fix then do
    -- the other update has already stored both hashes
    if r.blake3Matches = some true then
      dbUpdate e (.updateHashes k) (PublisherDb.updateVersionHashes version.versionId
        version.fileHashBlake3 (X.crypto.sha256 data).val size)
    pure ({ r with sha256Matches := some false }.warn "SHA256 hash mismatch - FIXED")
  else pure ({ r with sha256Matches := some false }.fail "SHA256 hash mismatch")

/-- Check 4: the signature, over the hash of the file. -/
def checkSignature (key : Option (VerifyingKey X.crypto)) (version : DbVersion) (data : Bytes)
    (r : VersionVerifyResult) : Except String VersionVerifyResult :=
  match version.signatureEd25519, key with
  | none, _ => .ok (r.warn "Not signed")
  | some _, none => .ok (r.warn "Cannot verify signature: no public key configured")
  | some sig, some key => do
      let signature ← Except.ofOption "Invalid signature length" (ByteVec.tryInto 64 sig)
      if key.verify (signingPayload (X.crypto.blake3 data).val version.versionString) signature then
        pure { r with signatureValid := some true }
      else pure ({ r with signatureValid := some false }.fail "Signature verification failed")

/-- Nanoseconds in an hour. -/
def hour : Int := 3600000000000

/-- Check 5: the time of the signature. -/
def checkTimestamp (version : DbVersion) (r : VersionVerifyResult) : VersionVerifyResult :=
  match version.signatureTimestamp with
  | none => r
  | some text =>
    match X.parseRfc3339 text with
    | none => { r with timestampReasonable := some false }.warn "Invalid signature timestamp format"
    | some timestamp =>
      if timestamp > e.clock + hour then
        { r with timestampReasonable := some false }.fail "Signature timestamp is in the future"
      else if timestamp < e.clock - 3650 * 24 * hour then
        { r with timestampReasonable := some false }.warn
          "Signature timestamp is very old (>10 years)"
      else { r with timestampReasonable := some true }

/-- `verify_version`, for the `k`-th version. -/
def verifyVersion (k : Nat) (version : DbVersion) (binary : DbBinary)
    (key : Option (VerifyingKey X.crypto)) (fix : Bool) : PublisherM VersionVerifyResult := do
  let start : VersionVerifyResult :=
    { versionId := version.versionId
      versionString := version.versionString
      binaryName := binary.binaryName
      platform := binary.platform
      isSigned := version.signatureEd25519.isSome
      signatureTimestamp := version.signatureTimestamp }
  if ((← get).content version.filePath.toList).isNone then
    pure (start.fail s!"Binary file not found: {version.filePath}")
  else do
    let size ← fileSize e (.fileMetadata k) version.filePath
    let data ← readFileOrFail e (.readFile k) version.filePath
    let r ← checkBlake3 X e k version size data fix { start with fileExists := true }
    let r ← checkSha256 X e k version size data fix r
    let r ← Prog.ofExcept (checkSignature X key version data r)
    pure (checkTimestamp X e version r)

/-- The versions to verify, with their binaries. -/
def versionsToVerify (db : PublisherDb) (name : String) (version : Option String) :
    List (DbVersion × DbBinary) :=
  (db.listBinaries.filter fun b => b.binaryName == name).flatMap fun b =>
    ((db.listVersions b.binaryId).filter fun v =>
      version.all fun text => v.versionString == text).map fun v => (v, b)

/-- Verify each version. -/
def verifyAll (key : Option (VerifyingKey X.crypto)) (fix : Bool) :
    List (DbVersion × DbBinary) → Nat → PublisherM (List VersionVerifyResult)
  | [], _ => pure []
  | (version, binary) :: rest, k => do
      let result ← verifyVersion X e k version binary key fix
      let results ← verifyAll key fix rest (k + 1)
      pure (result :: results)

/-- The confirmation that `--fix` asks for. -/
def confirmFix (fix json : Bool) (answer : String) : PublisherM Unit :=
  if fix && !json then do
    hostOp e .confirmFix
    if Text.trim answer ≠ "YES" then throw "Fix operation cancelled. No changes were made."
    else pure ()
  else pure ()

/-- `verify::run`. -/
def run (publicKey : Option String) (name : String) (version : Option String) (fix json : Bool)
    (answer : String) : PublisherM (List VersionVerifyResult) := do
  hostOp e .openDb
  confirmFix e fix json answer
  let binaries ← dbRead e .listBinaries fun db =>
    db.listBinaries.filter fun b => b.binaryName == name
  if binaries.isEmpty then throw s!"No binary found with name '{name}'"
  else do
    hostOp e .loadPublicKey
    let key ← Prog.ofExcept (loadPublicKey X publicKey)
    let versions ← dbRead e .listVersions fun db => versionsToVerify db name version
    if versions.isEmpty then
      throw (match version with
        | some ver => s!"Version {ver} not found for binary '{name}'"
        | none => s!"No versions found for binary '{name}'")
    else do
      let results ← verifyAll X e key fix versions 0
      let failed := results.countP fun r => !r.passed
      if failed > 0 then throw s!"{failed} verification(s) failed" else pure results

end Verify

/-! ## whole runs -/

/-- What happens in a project: a command, or a change of a file by somebody else. -/
inductive PublisherCommand where
  | register (e : PublisherEnv) (name version file platform : String) (noDiff : Bool)
  | diff (e : PublisherEnv) (name platform fromVersion toVersion : String) (output : Option String)
  | sign (e : PublisherEnv) (versionId name version : Option String)
  | verify (e : PublisherEnv) (publicKey : Option String) (name : String)
      (version : Option String) (fix json : Bool) (answer : String)
  | edit (path : List Char) (content : Option Bytes)

namespace PublisherCommand

variable (X : PublisherCrates) (K : SigningKey X.crypto)

/-- What the command runs. -/
def body : PublisherCommand → PublisherM Unit
  | register e name version file platform noDiff =>
      Register.run X e name version file platform noDiff
  | diff e name platform fromVersion toVersion output =>
      Diff.run X e name platform fromVersion toVersion output
  | sign e versionId name version => Sign.run X K e versionId name version
  | verify e publicKey name version fix json answer => do
      let _ ← Verify.run X e publicKey name version fix json answer
      pure ()
  | edit path (some b) => modify fun s => { s with files := s.files.write (s.resolve path) b }
  | edit path none => modify fun s => { s with files := s.files.remove (s.resolve path) }

/-- The project after a command, whatever its outcome. -/
def next (s : Project) (c : PublisherCommand) : Project := (exec (c.body X K) s).2

end PublisherCommand

end Deltaship
