import Deltaship.Core.Version
import Deltaship.Crypto.Hashing
import Deltaship.Lib.Text

/-!
# Deltaship.Db.Models

The validators that `deltaship-db` runs before it writes a row.

`normalizeVersionString` is the one the update path depends on: both
`record_installed_version` and `create_backup` store its result, and fail when
it fails.
-/

namespace Deltaship

/-- The errors of `deltaship-db` that its client half can return.  `panicked`
stands for a slice at a byte that is no character boundary. -/
inductive DbError where
  | sqlx (msg : String)
  | constraintViolation (msg : String)
  | notFound (msg : String)
  | duplicate (msg : String)
  | invalidData (msg : String)
  | panicked
deriving DecidableEq, Repr

/-- `Display for DbError`. -/
def DbError.text : DbError → String
  | .sqlx m => "Database error: " ++ m
  | .constraintViolation m => "Constraint violation: " ++ m
  | .notFound m => "Record not found: " ++ m
  | .duplicate m => "Duplicate record: " ++ m
  | .invalidData m => "Invalid data: " ++ m
  | .panicked => "byte index is not a char boundary"

/-- `BLAKE3_HASH_SIZE`. -/
def blake3HashSize : Nat := 32

/-- `SHA256_HASH_SIZE`. -/
def sha256HashSize : Nat := 32

/-- `validate_hash_size`. -/
def validateHashSize (hash : Bytes) (expectedSize : Nat) (hashName : String) :
    Except DbError Unit :=
  if hash.length ≠ expectedSize then
    .error (.invalidData
      s!"{hashName} hash must be exactly {expectedSize} bytes, got {hash.length} bytes")
  else .ok ()

/-- `KNOWN_PLATFORMS`: `Platform::all_platform_variants`. -/
def knownPlatforms : List String :=
  ["linux-x86_64", "linux_x86_64", "linux-aarch64", "linux_aarch64", "windows-x86_64",
   "windows_x86_64", "macos-x86_64", "macos_x86_64", "macos-aarch64", "macos_aarch64"]

/-- `validate_platform`.  The source lower-cases by Unicode; the only letters
outside ASCII that become ASCII are the Kelvin sign, and no platform has a `k`. -/
def validatePlatform (platform : String) : Except DbError Unit :=
  if Text.asciiLower platform ∈ knownPlatforms then .ok ()
  else .error (.invalidData
    s!"Unknown platform '{platform}'. Known platforms: linux-x86_64, linux-aarch64, windows-x86_64, macos-x86_64, macos-aarch64")

/-! ## version strings -/

/-- Strip an optional `v` or `V`. -/
def stripV : List Char → List Char
  | 'v' :: cs => cs
  | 'V' :: cs => cs
  | cs => cs

/-- `normalize_version_string`. -/
def normalizeVersionString (S : SemverCrate) (version : String) : Except DbError String :=
  let trimmed := Text.trim version
  if !trimmed.toList.all Text.isAscii then
    .error (.invalidData
      s!"Version string must contain only ASCII characters, got: '{trimmed}'")
  else
    let normalized := String.ofList (stripV trimmed.toList)
    if Text.byteLen normalized > 255 then
      .error (.invalidData
        s!"Version string too long (max 255 chars): got {Text.byteLen normalized} chars")
    else
      match S.parse normalized with
      | none => .error (.invalidData s!"Invalid semver version '{version}'")
      | some v =>
        if v.major = 0 ∧ v.minor = 0 ∧ v.patch = 0 then
          .error (.invalidData "Version 0.0.0 is not a valid release version")
        else .ok normalized

/-! ## timestamps -/

/-- `str::is_char_boundary`: no byte of a character but its first is one. -/
def isCharBoundary (b : Bytes) (i : Nat) : Bool :=
  match b[i]? with
  | some x => x < 128 || 192 ≤ x
  | none => i == b.length

/-- The text between two byte offsets; slicing inside a character panics. -/
def sliceBytes (b : Bytes) (lo hi : Nat) : Except DbError Bytes :=
  if isCharBoundary b lo && isCharBoundary b hi then .ok ((b.take hi).drop lo)
  else .error .panicked

/-- The characters within the first `n` bytes of a text. -/
def charsWithin : Nat → List Char → List Char
  | _, [] => []
  | n, c :: cs => if c.utf8Size ≤ n then c :: charsWithin (n - c.utf8Size) cs else []

/-- `str::parse` for the date and time fields: an optional sign, where the type
is signed a minus as well, and decimal digits. -/
def parseField (signed : Bool) (b : Bytes) : Option Int :=
  let digits := fun (l : Bytes) => Text.parseDigits (l.map fun x => Char.ofNat x.toNat)
  match b with
  | 43 :: ds => (digits ds).map Int.ofNat
  | 45 :: ds => if signed then (digits ds).map fun n => -(n : Int) else none
  | ds => (digits ds).map Int.ofNat

/-- One field of an expiration timestamp: its name, whether its type is signed,
the bytes it is read from and the values it may have. -/
structure StampField where
  name : String
  signed : Bool
  lo : Nat
  hi : Nat
  min : Int
  max : Int
  range : String

/-- The fields `validate_expires_at_timestamp` reads, in its order. -/
def stampFields : List StampField :=
  [⟨"year", true, 0, 4, 1970, 2100, "Year out of range (1970-2100)"⟩,
   ⟨"month", false, 5, 7, 1, 12, "Month out of range (1-12)"⟩,
   ⟨"day", false, 8, 10, 1, 31, "Day out of range (1-31)"⟩,
   ⟨"hour", false, 11, 13, 0, 23, "Hour out of range (0-23)"⟩,
   ⟨"minute", false, 14, 16, 0, 59, "Minute out of range (0-59)"⟩,
   ⟨"second", false, 17, 19, 0, 59, "Second out of range (0-59)"⟩]

/-- Read one field. -/
def readStampField (b : Bytes) (expiresAt : String) (f : StampField) : Except DbError Int := do
  match parseField f.signed (← sliceBytes b f.lo f.hi) with
  | some n => pure n
  | none => throw (.invalidData s!"Invalid {f.name} in expiration timestamp: '{expiresAt}'")

/-- `validate_expires_at_timestamp`: all fields are read before any range is
checked. -/
def validateExpiresAtTimestamp (expiresAt : String) : Except DbError Unit := do
  let b := utf8 (Text.trim expiresAt)
  if b.length < 19 then
    throw (.invalidData
      s!"Expiration timestamp too short, expected at least 'YYYY-MM-DD HH:MM:SS', got: '{expiresAt}'")
  let _ ← sliceBytes b 0 19
  let sep := (charsWithin 19 (Text.trim expiresAt).toList)[10]?
  if ¬ (sep = some 'T' ∨ sep = some ' ') then
    throw (.invalidData
      s!"Expiration timestamp missing valid separator at position 10 (expected 'T' or space), got: '{expiresAt}'")
  let values ← stampFields.mapM (readStampField b expiresAt)
  match (stampFields.zip values).find? fun p => p.2 < p.1.min || p.1.max < p.2 with
  | some (f, _) => throw (.invalidData s!"{f.range} in expiration timestamp: '{expiresAt}'")
  | none => pure ()

example : validateExpiresAtTimestamp "2024-12-31 23:59:59" = .ok () := by decide +kernel

end Deltaship
