import Deltaship.Crypto.Hashing

/-!
# Deltaship.Crypto.Signing

The canonical signing payload (`DELTASHIP-sig-v1`) and the cryptographic
crates behind it.

`signingPayload` is the message the publisher signs and the client and the
server verify: a 17-byte domain tag, the 32 raw bytes of the BLAKE3 hash and
the version text, without separators.  The tag and the hash have fixed sizes,
so the payload determines both the hash and the version
(`signingPayload_inj`).
-/

namespace Deltaship

/-- The parts of `blake3`, `sha2` and `ed25519-dalek` the program calls. -/
structure CryptoCrates where
  /-- `blake3::hash`. -/
  blake3 : Bytes → Hash
  /-- `blake3::Hash::from_hex`. -/
  blake3FromHex : String → Option Hash
  /-- The SHA-256 digest. -/
  sha256 : Bytes → ByteVec 32
  /-- Whether `VerifyingKey::from_bytes` accepts the key. -/
  validKey : ByteVec 32 → Bool
  /-- `VerifyingKey::verify_strict`, as a predicate. -/
  verifyStrict : ByteVec 32 → Bytes → ByteVec 64 → Bool

/-- `blake3::Hash::from_hex` accepts exactly 64 hexadecimal digits. -/
def CryptoCrates.StrictHex (C : CryptoCrates) : Prop :=
  ∀ s, C.blake3FromHex s = strictFromHex s

/-- `deltaship_crypto::Signature`. -/
abbrev Signature : Type := ByteVec 64

/-- `SIGNING_DOMAIN_TAG`: `b"DELTASHIP-sig-v1\x00"`. -/
def signingDomainTag : Bytes :=
  [68, 69, 76, 84, 65, 83, 72, 73, 80, 45, 115, 105, 103, 45, 118, 49, 0]

/-- `signing_payload`. -/
def signingPayload (blake3Hash : Bytes) (versionString : String) : Bytes :=
  signingDomainTag ++ blake3Hash ++ utf8 versionString

/-- A deltaship verifying key: 32 bytes the Ed25519 library accepted. -/
structure VerifyingKey (C : CryptoCrates) where
  bytes : ByteVec 32
  valid : C.validKey bytes = true

/-- `VerifyingKey::from_bytes`. -/
def VerifyingKey.fromBytes (C : CryptoCrates) (b : ByteVec 32) :
    Except CryptoError (VerifyingKey C) :=
  if h : C.validKey b = true then .ok ⟨b, h⟩ else .error .invalidVerifyingKey

/-- `VerifyingKey::verify`. -/
def VerifyingKey.verify {C : CryptoCrates} (k : VerifyingKey C) (message : Bytes)
    (signature : Signature) : Bool :=
  C.verifyStrict k.bytes message signature

/-- A key that is accepted has the bytes it was made of. -/
theorem VerifyingKey.bytes_of_fromBytes {C : CryptoCrates} {b : ByteVec 32} {k : VerifyingKey C}
    (h : fromBytes C b = .ok k) : k.bytes = b := by
  unfold fromBytes at h
  split at h
  · rw [← Except.ok.inj h]
  · contradiction

/-- The domain tag has a fixed size, so the hash and the version can be read
back from the payload. -/
theorem signingPayload_inj {h h' : Hash} {v v' : String}
    (heq : signingPayload h.val v = signingPayload h'.val v') : h = h' ∧ v = v' := by
  unfold signingPayload at heq
  rw [List.append_assoc, List.append_assoc] at heq
  have htail : h.val ++ utf8 v = h'.val ++ utf8 v' := List.append_cancel_left heq
  have hlen : h.val.length = h'.val.length := by rw [h.property, h'.property]
  obtain ⟨hh, hv⟩ := List.append_inj htail hlen
  exact ⟨Subtype.ext hh, utf8_inj hv⟩

example : (signingPayload (List.replicate 32 0) "0.1.0").length = 17 + 32 + 5 := by decide

/-! ## a sample publisher -/

/-- The diff that adds one to the only byte of a file. -/
def sampleIncrement : Bytes :=
  [1, 0, 0, 0, 0, 0, 0, 0, 0, 0, 0, 0, 0, 0, 0, 0, 0, 0, 0, 0, 0, 0, 0, 0, 1]

/-- The BLAKE3 hash of the diff. -/
def sampleIncrementHash : Hash :=
  ⟨[151, 47, 151, 177, 250, 193, 233, 70, 57, 180, 161, 110, 63, 93, 88, 125, 223, 233, 21, 216,
    136, 135, 67, 110, 53, 211, 207, 87, 96, 83, 206, 221], rfl⟩

/-- BLAKE3 and SHA-256 of the binaries and the diff the worked cases of later modules use. -/
def sampleHashes : List (Bytes × Hash × ByteVec 32) :=
  [([],
    ⟨[175, 19, 73, 185, 245, 249, 161, 166, 160, 64, 77, 234, 54, 220, 201, 73, 155, 203, 37, 201,
      173, 193, 18, 183, 204, 154, 147, 202, 228, 31, 50, 98], rfl⟩,
    ⟨[227, 176, 196, 66, 152, 252, 28, 20, 154, 251, 244, 200, 153, 111, 185, 36, 39, 174, 65,
      228, 100, 155, 147, 76, 164, 149, 153, 27, 120, 82, 184, 85], rfl⟩),
   ([1],
    ⟨[72, 252, 114, 31, 187, 193, 114, 224, 146, 95, 162, 122, 241, 103, 29, 226, 37, 186, 146,
      113, 52, 128, 41, 152, 177, 10, 21, 104, 161, 136, 101, 43], rfl⟩,
    ⟨[75, 245, 18, 47, 52, 69, 84, 197, 59, 222, 46, 187, 140, 210, 183, 227, 209, 96, 10, 214,
      49, 195, 133, 165, 215, 204, 226, 60, 119, 133, 69, 154], rfl⟩),
   ([2],
    ⟨[171, 19, 190, 223, 66, 232, 75, 174, 15, 124, 98, 199, 221, 106, 138, 218, 87, 30, 136, 41,
      190, 214, 234, 85, 130, 23, 240, 54, 27, 94, 37, 208], rfl⟩,
    ⟨[219, 193, 180, 201, 0, 255, 228, 141, 87, 91, 93, 165, 198, 56, 4, 1, 37, 246, 93, 176, 254,
      62, 36, 73, 75, 118, 234, 152, 100, 87, 217, 134], rfl⟩),
   ([3],
    ⟨[225, 224, 232, 29, 110, 163, 155, 12, 248, 184, 111, 253, 68, 9, 33, 1, 31, 87, 64, 12, 188,
      63, 118, 168, 161, 113, 144, 106, 155, 141, 117, 5], rfl⟩,
    ⟨[8, 79, 237, 8, 185, 120, 175, 77, 125, 25, 106, 116, 70, 168, 107, 88, 0, 158, 99, 107, 97,
      29, 177, 98, 17, 182, 90, 154, 173, 255, 41, 197], rfl⟩),
   (sampleIncrement, sampleIncrementHash,
    ⟨[136, 132, 127, 113, 79, 66, 182, 135, 193, 161, 159, 146, 65, 147, 152, 35, 26, 63, 136, 90,
      173, 56, 62, 140, 26, 67, 85, 152, 200, 106, 78, 248], rfl⟩)]

/-- The sample publisher's Ed25519 public key. -/
def sampleKey : ByteVec 32 :=
  ⟨[234, 74, 108, 99, 226, 156, 82, 10, 190, 245, 80, 123, 19, 46, 197, 249, 149, 71, 118, 174,
    190, 190, 123, 146, 66, 30, 234, 105, 20, 70, 210, 44], rfl⟩

/-- The hash of a sample binary. -/
def sampleBlake3 (b : Bytes) : Hash :=
  ((sampleHashes.find? fun h => h.1 == b).map (·.2.1)).getD ⟨List.replicate 32 0, rfl⟩

/-- The sample publisher's signature for the binary `[1]` as version 1.0.0. -/
def sampleSig1 : Signature :=
  ⟨[18, 233, 37, 3, 93, 248, 185, 135, 140, 218, 17, 51, 19, 231, 221, 60, 184, 131, 156, 100, 13,
    38, 191, 247, 109, 219, 158, 122, 207, 72, 96, 119, 252, 195, 18, 79, 60, 91, 9, 192, 57, 10,
    85, 161, 114, 224, 22, 222, 173, 45, 229, 151, 188, 116, 162, 228, 21, 192, 75, 82, 155, 240,
    235, 7], rfl⟩

/-- The sample publisher's signature for the binary `[2]` as version 1.1.0. -/
def sampleSig2 : Signature :=
  ⟨[249, 153, 14, 110, 104, 102, 46, 130, 45, 217, 200, 219, 16, 157, 196, 56, 104, 86, 123, 255,
    91, 40, 189, 201, 12, 204, 90, 68, 67, 115, 227, 233, 57, 132, 156, 30, 64, 106, 32, 116, 195,
    169, 18, 159, 174, 146, 168, 112, 109, 104, 211, 245, 3, 175, 175, 159, 221, 44, 193, 154,
    253, 43, 225, 1], rfl⟩

/-- The sample publisher's signature for the binary `[3]` as version 2.0.0. -/
def sampleSig3 : Signature :=
  ⟨[25, 48, 138, 0, 100, 160, 155, 219, 199, 220, 222, 53, 3, 57, 181, 194, 77, 81, 131, 56, 99,
    115, 188, 26, 21, 250, 143, 181, 177, 18, 56, 79, 9, 96, 108, 218, 243, 30, 183, 42, 198, 83,
    22, 8, 80, 158, 139, 2, 16, 38, 82, 28, 68, 124, 21, 63, 119, 15, 118, 4, 196, 224, 61, 0],
    rfl⟩

/-- The sample publisher's signature for the binary `[2]` as version 1.0.0. -/
def sampleSig4 : Signature :=
  ⟨[86, 194, 193, 0, 61, 16, 69, 31, 141, 153, 56, 31, 241, 182, 32, 156, 147, 219, 163, 180,
    252, 21, 72, 36, 219, 64, 226, 165, 245, 87, 183, 161, 131, 179, 146, 115, 181, 192, 206,
    107, 226, 252, 147, 202, 211, 249, 110, 104, 155, 14, 42, 153, 158, 115, 8, 41, 185, 251,
    245, 27, 186, 200, 186, 10], rfl⟩

/-- The messages the sample publisher has signed. -/
def sampleSigned : List (Bytes × Signature) :=
  [(signingPayload (sampleBlake3 [1]).val "1.0.0", sampleSig1),
   (signingPayload (sampleBlake3 [2]).val "1.1.0", sampleSig2),
   (signingPayload (sampleBlake3 [3]).val "2.0.0", sampleSig3),
   (signingPayload (sampleBlake3 [2]).val "1.0.0", sampleSig4)]

/-- The crates, on the sample publisher's binaries and signatures. -/
def sampleCrypto : CryptoCrates where
  blake3 := sampleBlake3
  blake3FromHex := strictFromHex
  sha256 b := ((sampleHashes.find? fun h => h.1 == b).map (·.2.2)).getD ⟨List.replicate 32 0, rfl⟩
  validKey k := k == sampleKey
  verifyStrict k m s := k == sampleKey && sampleSigned.contains (m, s)

theorem sampleCrypto_strictHex : sampleCrypto.StrictHex := fun _ => rfl

end Deltaship
