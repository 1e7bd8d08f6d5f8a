import Deltaship.Crypto.HexText
import Deltaship.Lib.Base64
import Deltaship.Server.Artifacts

/-!
# Deltaship.Server.SignatureText

The two spellings of a signature in a form, and that they cannot be mistaken for each other.

Which one a text is, is guessed from its characters.  The base64 text of a signature ends in
padding, as 64 bytes do not come in threes, so it is never a text of hexadecimal digits only.
-/

namespace Deltaship

/-! ## hexadecimal text -/

/-- The digits of a byte string in upper case. -/
def upperHexText (b : Bytes) : List Char := (hexText b).map Char.toUpper

/-! ## decoding -/

section Decoding

variable {X : ServerCrates} {pre post text : List Char} {b : Bytes}

/-- The white space around a text without any is not seen. -/
theorem trim_surround (hpre : ∀ c ∈ pre, Text.isWhitespace c = true)
    (hpost : ∀ c ∈ post, Text.isWhitespace c = true)
    (htext : ∀ c ∈ text, Text.isWhitespace c = false) :
    Text.trim (String.ofList (pre ++ (text ++ post))) = String.ofList text := by
  rw [Text.trim, String.toList_ofList, Text.trimMatches_surround hpre hpost
    (fun c hc => htext c (List.mem_of_head? hc)) fun c hc => htext c (List.mem_of_getLast? hc)]

/-- A text of hexadecimal digits is decoded as such. -/
theorem decodeSignature_hex {f : Char → Char} (hf : WritesDigits f)
    (hpre : ∀ c ∈ pre, Text.isWhitespace c = true)
    (hpost : ∀ c ∈ post, Text.isWhitespace c = true) :
    decodeSignature X (String.ofList (pre ++ ((hexText b).map f ++ post))) = some b := by
  have hdigit : ∀ c ∈ (hexText b).map f, isAsciiHexdigit c = true := fun c hc => (hf.of_mem hc).1
  unfold decodeSignature
  rw [trim_surround hpre hpost fun c hc =>
    have hprint := printing_of_isAsciiHexdigit (hdigit c hc)
    Text.isWhitespace_of_printing hprint.1 hprint.2]
  dsimp only
  rw [String.toList_ofList, if_pos (List.all_eq_true.mpr hdigit),
    utf8_ofList_of_ascii fun c hc => (hf.of_mem hc).2]
  exact hf.decodePairs b

/-- The base64 text of bytes that do not come in threes is no text of hexadecimal digits. -/
theorem encode_not_hex (h : b.length % 3 ≠ 0) :
    (Base64.encode b).all isAsciiHexdigit = false := by
  rw [List.all_eq_false]
  exact ⟨'=', Base64.pad_mem_encode h, by decide⟩

theorem decodeSignature_base64 (hpre : ∀ c ∈ pre, Text.isWhitespace c = true)
    (hpost : ∀ c ∈ post, Text.isWhitespace c = true) (h : b.length % 3 ≠ 0) :
    decodeSignature X (String.ofList (pre ++ (Base64.encode b ++ post))) =
      X.base64Decode (String.ofList (Base64.encode b)) := by
  unfold decodeSignature
  rw [trim_surround hpre hpost fun c hc =>
    have hprint := Base64.printing_of_mem_encode hc
    Text.isWhitespace_of_printing hprint.1 hprint.2]
  dsimp only
  rw [String.toList_ofList, if_neg (by simp [encode_not_hex h])]

/-- The engine undoes the standard encoder. -/
def ServerCrates.DecodesBase64 (X : ServerCrates) : Prop :=
  ∀ b : Bytes, X.base64Decode (String.ofList (Base64.encode b)) = some b

/-- A signature is read back from each of its spellings, with any white space around, and no
base64 text of a signature is taken for hexadecimal. -/
theorem signature_spellings (hX : X.DecodesBase64) (s : Signature) {pre post : List Char}
    (hpre : ∀ c ∈ pre, Text.isWhitespace c = true)
    (hpost : ∀ c ∈ post, Text.isWhitespace c = true) :
    decodeSignature X (String.ofList (pre ++ (hexText s.val ++ post))) = some s.val ∧
      decodeSignature X (String.ofList (pre ++ (upperHexText s.val ++ post))) = some s.val ∧
      decodeSignature X (String.ofList (pre ++ (Base64.encode s.val ++ post))) = some s.val ∧
      (Base64.encode s.val).all isAsciiHexdigit = false := by
  have hlength : s.val.length % 3 ≠ 0 := by
    rw [s.property]
    decide
  refine ⟨?_, decodeSignature_hex writesDigits_toUpper hpre hpost, ?_, encode_not_hex hlength⟩
  · have hlower := decodeSignature_hex (X := X) (b := s.val) writesDigits_id hpre hpost
    rwa [List.map_id] at hlower
  · rw [decodeSignature_base64 hpre hpost hlength, hX]

/-- A server whose engine is the strict decoder. -/
def sampleBase64Server : ServerCrates :=
  { sampleServer with base64Decode := fun text => Base64.decode text.toList }

/-- The signature of zeros with a space in front and a line break behind. -/
theorem signature_spellings_zeros :
    decodeSignature sampleBase64Server
      (String.ofList ([' '] ++ (Base64.encode (List.replicate 64 0) ++ ['\n']))) =
        some (List.replicate 64 0) := by
  have hX : sampleBase64Server.DecodesBase64 := by
    intro b
    show Base64.decode _ = _
    rw [String.toList_ofList]
    exact Base64.decode_encode b
  exact (signature_spellings hX ⟨List.replicate 64 0, rfl⟩ (by simp [Text.isWhitespace])
    (by simp [Text.isWhitespace])).2.2.1

end Decoding

end Deltaship
