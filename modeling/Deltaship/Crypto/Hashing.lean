import Mathlib.Tactic.Common

/-!
# Deltaship.Crypto.Hashing

Byte arrays of fixed size and `deltaship-crypto::Hash`, the 32-byte BLAKE3
hash with its hexadecimal text form.

`Hash::from_hex` parses each pair of characters with `u8::from_str_radix`,
which takes an optional plus sign, so it accepts more than 64 hexadecimal
digits: `hexByte` keeps that.  The `blake3` crate's own parser, which the
client applies to the same text, is `strictHexByte`.
-/

namespace Deltaship

/-- A byte string. -/
abbrev Bytes : Type := List UInt8

/-- `[u8; n]`. -/
abbrev ByteVec (n : Nat) : Type := { b : Bytes // b.length = n }

/-- `<[u8; n]>::try_from`. -/
def ByteVec.tryInto (n : Nat) (b : Bytes) : Option (ByteVec n) :=
  if h : b.length = n then some ⟨b, h⟩ else none

/-- Bytes become an array exactly if there are as many. -/
theorem ByteVec.tryInto_eq_some {n : Nat} {b : Bytes} {v : ByteVec n} :
    tryInto n b = some v ↔ b = v.val := by
  unfold tryInto
  constructor
  · intro h
    split at h
    · rw [← Option.some.inj h]
    · contradiction
  · intro h
    have hlen : b.length = n := h ▸ v.property
    rw [dif_pos hlen]
    exact congrArg some (Subtype.ext h)

/-- `as_bytes`. -/
def utf8 (s : String) : Bytes := s.toUTF8.data.toList

/-- Texts with the same UTF-8 bytes are the same text. -/
theorem utf8_inj {s t : String} (h : utf8 s = utf8 t) : s = t := by
  unfold utf8 at h
  have hdata : s.toUTF8.data = t.toUTF8.data := Array.toList_inj.mp h
  have hbytes : s.toUTF8 = t.toUTF8 := ByteArray.ext hdata
  rw [String.toUTF8_eq_toByteArray, String.toUTF8_eq_toByteArray] at hbytes
  exact String.toByteArray_inj.mp hbytes

/-- The UTF-8 bytes of a text, character by character. -/
theorem utf8_ofList (l : List Char) : utf8 (String.ofList l) = l.flatMap String.utf8EncodeChar := by
  unfold utf8
  rw [String.toUTF8_eq_toByteArray, String.toByteArray_ofList, List.utf8Encode,
    List.data_toByteArray]

/-- ASCII characters are single bytes. -/
theorem utf8EncodeChar_of_isAscii {c : Char} (h : c.toNat < 128) :
    String.utf8EncodeChar c = [UInt8.ofNat c.toNat] := by
  have hsize : c.utf8Size = 1 := Char.utf8Size_eq_one_iff.mpr (UInt32.le_iff_toNat_le.mpr (by
    have hval : c.val.toNat = c.toNat := rfl
    have h127 : (127 : UInt32).toNat = 127 := rfl
    omega))
  rw [String.utf8EncodeChar_eq_singleton hsize]
  rfl

/-- ASCII text takes one byte for each character. -/
theorem utf8_ofList_of_ascii {l : List Char} (h : ∀ c ∈ l, c.toNat < 128) :
    utf8 (String.ofList l) = l.map fun c => UInt8.ofNat c.toNat := by
  rw [utf8_ofList, List.map_eq_flatMap]
  induction l with
  | nil => rfl
  | cons c cs ih =>
      rw [List.flatMap_cons, List.flatMap_cons, utf8EncodeChar_of_isAscii (h c List.mem_cons_self),
        ih fun d hd => h d (List.mem_cons_of_mem c hd)]

/-- The errors of `deltaship-crypto` that parsing and verifying can return. -/
inductive CryptoError where
  | signatureVerificationFailure
  | invalidVerifyingKey
  | invalidHex (msg : String)
deriving DecidableEq, Repr

/-- `Display for CryptoError`. -/
def CryptoError.text : CryptoError → String
  | .signatureVerificationFailure =>
    "Signature verification failed: The signature does not match the data.\n  Next steps:\n  - Verify you are using the correct public key\n  - Ensure the data was not modified after signing\n  - Check that the signature was generated for this exact data"
  | .invalidVerifyingKey =>
    "Invalid verifying key: The key format is not recognized or corrupted.\n  Next steps:\n  - Verify the key file was not modified\n  - Ensure you are loading a verifying key (.pub file)\n  - Request a fresh copy from the publisher"
  | .invalidHex msg =>
    s!"Invalid hex string: {msg}\n  Next steps:\n  - Ensure the string contains only hexadecimal characters (0-9, a-f)\n  - Check that the string has even length (2 characters per byte)\n  - Verify no whitespace or special characters are present"

/-- `deltaship_crypto::Hash`. -/
abbrev Hash : Type := ByteVec 32

/-! ## hexadecimal text -/

/-- The value of one hexadecimal digit, given as an ASCII byte. -/
def hexDigit (c : UInt8) : Option UInt8 :=
  if 48 ≤ c ∧ c ≤ 57 then some (c - 48)
  else if 97 ≤ c ∧ c ≤ 102 then some (c - 87)
  else if 65 ≤ c ∧ c ≤ 70 then some (c - 55)
  else none

/-- Two hexadecimal digits. -/
def strictHexByte (a b : UInt8) : Option UInt8 :=
  match hexDigit a, hexDigit b with
  | some x, some y => some (16 * x + y)
  | _, _ => none

/-- `u8::from_str_radix` on a two-byte text: a leading plus sign is allowed. -/
def hexByte (a b : UInt8) : Option UInt8 :=
  if a = 43 then hexDigit b else strictHexByte a b

/-- Decode a byte string pair by pair. -/
def decodePairs (f : UInt8 → UInt8 → Option UInt8) : Bytes → Option Bytes
  | [] => some []
  | [_] => none
  | a :: b :: rest =>
    match f a b, decodePairs f rest with
    | some x, some xs => some (x :: xs)
    | _, _ => none

/-- `str::from_utf8` on two bytes: two ASCII characters or one of two bytes. -/
def pairText (a b : UInt8) : Option String :=
  if a < 128 ∧ b < 128 then some (String.ofList [Char.ofNat a.toNat, Char.ofNat b.toNat])
  else if 194 ≤ a ∧ a < 224 ∧ 128 ≤ b ∧ b < 192 then
    some (String.singleton (Char.ofNat ((a.toNat - 192) * 64 + (b.toNat - 128))))
  else none

/-- The error of the first pair that is no byte. -/
def badPairError : Bytes → String
  | a :: b :: rest =>
    match pairText a b with
    | none => "invalid UTF-8"
    | some t => if (hexByte a b).isSome then badPairError rest else s!"invalid hex: {t}"
  | _ => ""

/-- `Hash::from_hex`. -/
def Hash.fromHex (s : String) : Except CryptoError Hash :=
  if (utf8 s).length ≠ 64 then
    .error (.invalidHex s!"expected 64 hex chars, got {(utf8 s).length}")
  else
    match (decodePairs hexByte (utf8 s)).bind (ByteVec.tryInto 32) with
    | some h => .ok h
    | none => .error (.invalidHex (badPairError (utf8 s)))

example : Hash.fromHex (String.ofList (List.replicate 64 'g')) =
    .error (.invalidHex "invalid hex: gg") := by decide +kernel

/-- Exactly 64 hexadecimal digits, as the `blake3` crate parses a hash. -/
def strictFromHex (s : String) : Option Hash :=
  if (utf8 s).length ≠ 64 then none
  else (decodePairs strictHexByte (utf8 s)).bind (ByteVec.tryInto 32)

/-- The lower-case digit of a value below 16, as an ASCII byte. -/
def hexChar (x : UInt8) : Char :=
  if x < 10 then Char.ofNat (48 + x.toNat) else Char.ofNat (87 + x.toNat)

/-- `Hash::to_hex`: `{:02x}` of each byte. -/
def Hash.toHex (h : Hash) : String :=
  String.ofList (h.val.flatMap fun x => [hexChar (x / 16), hexChar (x % 16)])

/-- A plus sign is no digit, so on the pairs the strict parser accepts the two
parsers agree. -/
theorem hexByte_of_strictHexByte {a b x : UInt8} (h : strictHexByte a b = some x) :
    hexByte a b = some x := by
  unfold hexByte
  split
  · next ha =>
      subst ha
      have hplus : hexDigit 43 = none := by decide
      simp only [strictHexByte, hplus] at h
      contradiction
  · exact h

/-- Whatever a pair parser accepts, a more permissive one decodes alike. -/
theorem decodePairs_mono {f g : UInt8 → UInt8 → Option UInt8}
    (hfg : ∀ a b x, f a b = some x → g a b = some x) :
    ∀ (bs out : Bytes), decodePairs f bs = some out → decodePairs g bs = some out
  | [], out, h => h
  | [_], _, h => by simp only [decodePairs] at h; contradiction
  | a :: b :: rest, out, h => by
      simp only [decodePairs] at h ⊢
      cases hf : f a b with
      | none => simp only [hf] at h; contradiction
      | some x =>
          cases hr : decodePairs f rest with
          | none => simp only [hf, hr] at h; contradiction
          | some xs =>
              simp only [hf, hr] at h
              rw [hfg a b x hf, decodePairs_mono hfg rest xs hr]
              exact h

/-- On the texts the `blake3` crate accepts, `Hash::from_hex` gives the same
hash. -/
theorem fromHex_of_strictFromHex {s : String} {h : Hash} (hs : strictFromHex s = some h) :
    Hash.fromHex s = .ok h := by
  unfold strictFromHex at hs
  unfold Hash.fromHex
  split at hs
  · contradiction
  · next hlen =>
      rw [if_neg hlen]
      obtain ⟨out, hout, hvec⟩ := Option.bind_eq_some_iff.mp hs
      rw [decodePairs_mono (fun _ _ _ => hexByte_of_strictHexByte) _ _ hout, Option.bind_some,
        hvec]

end Deltaship
