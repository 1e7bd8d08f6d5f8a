import Deltaship.Crypto.HexText
import Deltaship.Lib.Files
import Deltaship.Lib.Lines
import Deltaship.Lib.Prog

/-!
# Deltaship.Crypto.KeyFile

The files a publisher keeps its keys in.

A key is written as lines of hexadecimal digits between a header and a footer.  A signing key
with a passphrase is encrypted, and the lines in front of the ciphertext are labelled with what
is needed to decrypt it.  A file is written beside its place and renamed.
-/

namespace Deltaship

/-- The errors of reading and writing keys. -/
inductive KeyFileError where
  | crypto (err : CryptoError)
  | invalidKeyFileFormat
  | invalidKeyFileHexOddLength
  | invalidKeyFileHexChar (character : Char) (position : Nat)
  | invalidKeyFileHexLength (expected actual : Nat)
  | invalidKeyFileVersion (expected actual : Nat)
  | invalidKeyFileSalt (reason : String)
  | invalidKeyFileNonce (reason : String)
  | passphraseRequired
  | argonParamsFailure
  | keyDerivationFailure (msg : String)
  | aeadEncryptionFailure
  | aeadDecryptionFailure
  | legacyKeyFormat
  | io (path msg : String)
deriving DecidableEq, Repr

/-- The bytes of a `SigningKey`; all are accepted. -/
abbrev SigningKeyBytes : Type := ByteVec 32

/-- The parts of `argon2`, `chacha20poly1305` and `hex` the program calls. -/
structure KeyFileCrates where
  /-- `Params::new`, one lane and 32 bytes of output: whether the costs are accepted. -/
  argonParams : Nat × Nat → Bool
  /-- `SaltString::encode_b64`. -/
  encodeSalt : ByteVec 16 → Except String String
  /-- `hash_password` of Argon2id, and the output if there is one. -/
  hashPassword : Nat × Nat → Bytes → String → Except String (Option (ByteVec 32))
  /-- `encrypt` of ChaCha20-Poly1305, with a key and a nonce. -/
  encrypt : ByteVec 32 → ByteVec 12 → Bytes → Option Bytes
  /-- `decrypt` of ChaCha20-Poly1305. -/
  decrypt : ByteVec 32 → ByteVec 12 → Bytes → Option Bytes
  /-- `hex::decode`. -/
  hexDecode : String → Except String Bytes

/-- What the program relies on: decryption and decoding undo what was done. -/
structure KeyFileCrates.Lawful (K : KeyFileCrates) : Prop where
  decrypt_encrypt : ∀ key nonce data ciphertext, K.encrypt key nonce data = some ciphertext →
    K.decrypt key nonce ciphertext = some data
  hexDecode_hexText : ∀ b, K.hexDecode (String.ofList (hexText b)) = .ok b

/-! ## markers -/

def signingKeyHeader : String := "-----BEGIN DELTASHIP SIGNING KEY-----"
def signingKeyFooter : String := "-----END DELTASHIP SIGNING KEY-----"
def encryptedSigningKeyHeader : String := "-----BEGIN DELTASHIP ENCRYPTED SIGNING KEY-----"
def encryptedSigningKeyFooter : String := "-----END DELTASHIP ENCRYPTED SIGNING KEY-----"
def verifyingKeyHeader : String := "-----BEGIN DELTASHIP VERIFYING KEY-----"
def verifyingKeyFooter : String := "-----END DELTASHIP VERIFYING KEY-----"

/-- `CURRENT_VERSION`. -/
def currentKeyVersion : Nat := 1

/-- How expensive it is to derive a key from a passphrase. -/
inductive SecurityLevel where
  | standard
  | high
  | maximum
deriving DecidableEq, Repr

namespace SecurityLevel

/-- The costs in memory and in time. -/
def costs : SecurityLevel → Nat × Nat
  | standard => (19456, 2)
  | high => (65536, 3)
  | maximum => (262144, 4)

/-- The name in a key file. -/
def text : SecurityLevel → String
  | standard => "standard"
  | high => "high"
  | maximum => "maximum"

/-- Read the name in a key file. -/
def ofText (l : List Char) : Option SecurityLevel :=
  if l = "standard".toList then some standard
  else if l = "high".toList then some high
  else if l = "maximum".toList then some maximum
  else none

/-- `SecurityLevel::params`. -/
def params (K : KeyFileCrates) (level : SecurityLevel) : Except KeyFileError (Nat × Nat) :=
  if K.argonParams level.costs then .ok level.costs else .error .argonParamsFailure

end SecurityLevel

/-! ## keys and texts -/

section Text

variable (K : KeyFileCrates)

/-- `derive_key_from_passphrase`. -/
def deriveKeyFromPassphrase (passphrase : String) (salt : ByteVec 16) (level : SecurityLevel) :
    Except KeyFileError (ByteVec 32) := do
  let params ← level.params K
  let saltString ← (K.encodeSalt salt).mapError fun e =>
    .keyDerivationFailure s!"salt encoding failed: {e}"
  let hash ← (K.hashPassword params (utf8 passphrase) saltString).mapError fun e =>
    .keyDerivationFailure s!"Argon2 hashing failed: {e}"
  Except.ofOption (.keyDerivationFailure "hash output missing") hash

/-- `encrypt_with_key`. -/
def encryptWithKey (data : Bytes) (key : ByteVec 32) (nonce : ByteVec 12) :
    Except KeyFileError Bytes :=
  Except.ofOption .aeadEncryptionFailure (K.encrypt key nonce data)

/-- `decrypt_with_key`. -/
def decryptWithKey (ciphertext : Bytes) (key : ByteVec 32) (nonce : ByteVec 12) :
    Except KeyFileError Bytes :=
  Except.ofOption .aeadDecryptionFailure (K.decrypt key nonce ciphertext)

/-- `encode_key_data`: lines of 64 digits. -/
def encodeKeyData (data : Bytes) : List Char := Text.joinLines (Text.chunks 64 (hexText data))

/-- `decode_hex_string`; `decode_key_data` is the same. -/
def decodeHexString (text : List Char) : Except KeyFileError Bytes :=
  let hex := text.filter fun c => !Text.isWhitespace c
  if (utf8 (String.ofList hex)).length % 2 ≠ 0 then .error .invalidKeyFileHexOddLength
  else
    (K.hexDecode (String.ofList hex)).mapError fun e =>
      if Text.contains e "Invalid character" then
        match hex with
        | ch :: _ => .invalidKeyFileHexChar ch 0
        | [] => .invalidKeyFileHexChar '?' 0
      else .invalidKeyFileHexChar '?' 0

/-- The bytes of a key. -/
def keyBytes (decoded : Bytes) : Except KeyFileError (ByteVec 32) :=
  Except.ofOption (.invalidKeyFileHexLength 32 decoded.length) (ByteVec.tryInto 32 decoded)

/-- What is between the markers of a trimmed text. -/
def betweenMarkers (header footer : String) (content : List Char) :
    Except KeyFileError (List Char) :=
  Except.ofOption .invalidKeyFileFormat
    (((Text.stripPrefix header.toList content).bind (Text.stripSuffix footer.toList)).map
      (Text.trimMatches Text.isWhitespace))

/-! ## encrypted keys -/

/-- What has been read of an encrypted key. -/
structure KeyFields where
  version : Option Nat := none
  securityLevel : Option SecurityLevel := none
  salt : Option Bytes := none
  nonce : Option Bytes := none
  ciphertextLines : List (List Char) := []

/-- One line of an encrypted key. -/
def KeyFields.line (f : KeyFields) (raw : List Char) : Except KeyFileError KeyFields :=
  let line := Text.trimMatches Text.isWhitespace raw
  if line = [] then .ok f
  else if let some v := Text.stripPrefix "version:".toList line then do
    let version ← Except.ofOption (.invalidKeyFileVersion currentKeyVersion 0)
      (Text.parseUnsigned 256 (Text.trimMatches Text.isWhitespace v))
    pure { f with version := some version }
  else if let some sl := Text.stripPrefix "security_level:".toList line then do
    let level ← Except.ofOption .invalidKeyFileFormat
      (SecurityLevel.ofText (Text.trimMatches Text.isWhitespace sl))
    pure { f with securityLevel := some level }
  else if let some s := Text.stripPrefix "salt:".toList line then do
    let salt ← (decodeHexString K (Text.trimMatches Text.isWhitespace s)).mapError fun _ =>
      .invalidKeyFileSalt "invalid hex encoding"
    pure { f with salt := some salt }
  else if let some n := Text.stripPrefix "nonce:".toList line then do
    let nonce ← (decodeHexString K (Text.trimMatches Text.isWhitespace n)).mapError fun _ =>
      .invalidKeyFileNonce "invalid hex encoding"
    pure { f with nonce := some nonce }
  else if let some c := Text.stripPrefix "ciphertext:".toList line then
    .ok { f with ciphertextLines := f.ciphertextLines ++ [Text.trimMatches Text.isWhitespace c] }
  else if "-----".toList.isPrefixOf line then .ok f
  else .ok { f with ciphertextLines := f.ciphertextLines ++ [line] }

/-- `parse_encrypted_key_metadata`. -/
def parseEncryptedKeyMetadata (data : List Char) :
    Except KeyFileError (Nat × SecurityLevel × Bytes × Bytes × Bytes) := do
  let f ← (Text.lines data).foldlM (KeyFields.line K) {}
  let version ← Except.ofOption (.invalidKeyFileVersion currentKeyVersion 0) f.version
  let level := f.securityLevel.getD .standard
  let salt ← Except.ofOption (.invalidKeyFileSalt "missing salt field") f.salt
  let nonce ← Except.ofOption (.invalidKeyFileNonce "missing nonce field") f.nonce
  let ciphertext ← decodeHexString K (Text.joinLines f.ciphertextLines)
  pure (version, level, salt, nonce, ciphertext)

/-- The key in a trimmed text, as in `load_signing_key`. -/
def signingKeyOf (content : List Char) (passphrase : Option String) :
    Except KeyFileError SigningKeyBytes :=
  if encryptedSigningKeyHeader.toList.isPrefixOf content then do
    let data ← betweenMarkers encryptedSigningKeyHeader encryptedSigningKeyFooter content
    if Text.hasInfix "version:".toList data then do
      let (version, level, salt, nonce, ciphertext) ← parseEncryptedKeyMetadata K data
      Except.ensure (version = currentKeyVersion) (.invalidKeyFileVersion currentKeyVersion version)
      let pass ← Except.ofOption .passphraseRequired passphrase
      let salt ← Except.ofOption
        (.invalidKeyFileSalt "expected 16 bytes, got different length") (ByteVec.tryInto 16 salt)
      let nonce ← Except.ofOption
        (.invalidKeyFileNonce "expected 12 bytes, got different length") (ByteVec.tryInto 12 nonce)
      let derived ← deriveKeyFromPassphrase K pass salt level
      let decrypted ← decryptWithKey K ciphertext derived nonce
      keyBytes decrypted
    else .error .legacyKeyFormat
  else if signingKeyHeader.toList.isPrefixOf content then do
    let data ← betweenMarkers signingKeyHeader signingKeyFooter content
    let decoded ← decodeHexString K data
    keyBytes decoded
  else .error .invalidKeyFileFormat

/-- The key in a trimmed text, as in `load_verifying_key`. -/
def verifyingKeyOf (C : CryptoCrates) (content : List Char) :
    Except KeyFileError (VerifyingKey C) := do
  let data ← betweenMarkers verifyingKeyHeader verifyingKeyFooter content
  let decoded ← decodeHexString K data
  let bytes ← keyBytes decoded
  (VerifyingKey.fromBytes C bytes).mapError .crypto

end Text

/-! ## files -/

/-- The operations of the host that can fail. -/
inductive KeyFileSite where
  | writeTemp
  | setPermissions
  | rename
  | read
deriving DecidableEq, Repr

/-- What a key is saved or loaded with. -/
structure KeyFileHost where
  /-- The text of the error of an operation that fails. -/
  faults : KeyFileSite → Option String
  /-- How much a write that fails has written, if it has opened the file. -/
  written : Option Nat
  /-- The random salt and nonce. -/
  salt : ByteVec 16
  nonce : ByteVec 12

/-- The programs of this module, over the files of the host. -/
abbrev KeyM : Type → Type := Prog (Files String Bytes) KeyFileError

/-- A path without trailing separators and dots, backwards. -/
def dropTrailing : List Char → List Char
  | '/' :: rest => dropTrailing rest
  | '.' :: '/' :: rest => dropTrailing rest
  | rest => rest

/-- `Path::with_extension`. -/
def withExtension (path ext : String) : String :=
  let back := dropTrailing path.toList.reverse
  let name := (back.takeWhile (· != '/')).reverse
  if name = [] ∨ name = ['.'] ∨ name = ['.', '.'] then path
  else
    -- The stem ends in front of the last dot, if there is something in front of it.
    let stem := ((name.reverse.dropWhile (· != '.')).drop 1).reverse
    let stem := if stem = [] then name else stem
    String.ofList ((back.dropWhile (· != '/')).reverse ++ stem ++ '.' :: ext.toList)

section Files

variable (K : KeyFileCrates) (h : KeyFileHost)

/-- An operation fails if the host says so. -/
def keyFileGuard (site : KeyFileSite) (path : String) : KeyM Unit :=
  match h.faults site with
  | none => pure ()
  | some msg => throw (.io path msg)

/-- Write a file beside its place, set its permissions and rename it. -/
def writeAtomically (path content : String) : KeyM Unit := do
  let tempPath := withExtension path "tmp"
  match h.faults .writeTemp with
  | none => modify (·.write tempPath (utf8 content))
  | some msg => do
      match h.written with
      | some n => modify (·.write tempPath ((utf8 content).take n))
      | none => pure ()
      throw (.io tempPath msg)
  keyFileGuard h .setPermissions tempPath
  keyFileGuard h .rename path
  modify (·.move tempPath path (utf8 content))

/-- `fs::read_to_string`. -/
def readToString (path : String) : KeyM String := do
  keyFileGuard h .read path
  match (← get).read path with
  | none => throw (.io path "No such file or directory (os error 2)")
  | some b =>
    match String.fromUTF8? ⟨b.toArray⟩ with
    | some s => pure s
    | none => throw (.io path "stream did not contain valid UTF-8")

/-- The text of a key that is not encrypted. -/
def plainKeyText (header footer : String) (data : Bytes) : String :=
  s!"{header}\n{String.ofList (encodeKeyData data)}\n{footer}\n"

/-- The text of an encrypted key. -/
def encryptedKeyText (level : SecurityLevel) (salt : ByteVec 16) (nonce : ByteVec 12)
    (ciphertext : Bytes) : String :=
  let saltHex := String.ofList (hexText salt.val)
  let nonceHex := String.ofList (hexText nonce.val)
  s!"{encryptedSigningKeyHeader}\nversion: {currentKeyVersion}\nsecurity_level: {level.text}\nsalt: {saltHex}\nnonce: {nonceHex}\nciphertext: {String.ofList (encodeKeyData ciphertext)}\n{encryptedSigningKeyFooter}\n"

/-- The text `save_signing_key` writes. -/
def signingKeyText (key : SigningKeyBytes) (passphrase : Option String) (level : SecurityLevel) :
    Except KeyFileError String :=
  match passphrase with
  | some pass => do
      let derived ← deriveKeyFromPassphrase K pass h.salt level
      let ciphertext ← encryptWithKey K key.val derived h.nonce
      pure (encryptedKeyText level h.salt h.nonce ciphertext)
  | none => pure (plainKeyText signingKeyHeader signingKeyFooter key.val)

/-- `save_signing_key`. -/
def saveSigningKey (key : SigningKeyBytes) (path : String) (passphrase : Option String)
    (level : SecurityLevel) : KeyM Unit := do
  let content ← Prog.ofExcept (signingKeyText K h key passphrase level)
  writeAtomically h path content

/-- `load_signing_key`. -/
def loadSigningKey (path : String) (passphrase : Option String) : KeyM SigningKeyBytes := do
  let content ← readToString h path
  Prog.ofExcept (signingKeyOf K (Text.trimMatches Text.isWhitespace content.toList) passphrase)

/-- `save_verifying_key`. -/
def saveVerifyingKey {C : CryptoCrates} (key : VerifyingKey C) (path : String) : KeyM Unit :=
  writeAtomically h path (plainKeyText verifyingKeyHeader verifyingKeyFooter key.bytes.val)

/-- `load_verifying_key`. -/
def loadVerifyingKey (C : CryptoCrates) (path : String) : KeyM (VerifyingKey C) := do
  let content ← readToString h path
  Prog.ofExcept (verifyingKeyOf K C (Text.trimMatches Text.isWhitespace content.toList))

end Files

end Deltaship
