import Deltaship.Crypto.Signing
import Deltaship.Lib.Text

/-!
# Deltaship.Crypto.HexText

Hexadecimal text as the program writes it, and which texts the two parsers of a hash accept.

`Hash::from_hex` and the parser of the `blake3` crate read the same texts but those with a plus
sign in front of a digit.
-/

namespace Deltaship

/-- `char::is_ascii_hexdigit`. -/
def isAsciiHexdigit (c : Char) : Bool :=
  c.isDigit || ('a' ≤ c && c ≤ 'f') || ('A' ≤ c && c ≤ 'F')

/-- `{:02x}` of each byte, as in `hex_encode`. -/
def hexText (b : Bytes) : List Char := b.flatMap fun x => [hexChar (x / 16), hexChar (x % 16)]

/-! ## writing -/

section Hex

variable {f : Char → Char} {b : Bytes}

/-- A way to write the sixteen digits: each is one, and is read as its value. -/
structure WritesDigits (f : Char → Char) : Prop where
  digit : ∀ n < 16, isAsciiHexdigit (f (hexChar (UInt8.ofNat n))) = true
  ascii : ∀ n < 16, (f (hexChar (UInt8.ofNat n))).toNat < 128
  value : ∀ n < 16,
    hexDigit (UInt8.ofNat (f (hexChar (UInt8.ofNat n))).toNat) = some (UInt8.ofNat n)

theorem writesDigits_id : WritesDigits id := ⟨by decide, by decide, by decide⟩

/-- Upper case digits are digits. -/
theorem writesDigits_toUpper : WritesDigits Char.toUpper := ⟨by decide, by decide, by decide⟩

/-- The two digits of a byte. -/
theorem digits_lt (x : UInt8) : ∃ m < 16, ∃ n < 16, x / 16 = UInt8.ofNat m ∧
    x % 16 = UInt8.ofNat n ∧ 16 * UInt8.ofNat m + UInt8.ofNat n = x := by
  have hx := x.toNat_lt
  refine ⟨x.toNat / 16, by omega, x.toNat % 16, by omega, ?_, ?_, ?_⟩
  · apply UInt8.toNat_inj.mp
    simp only [UInt8.toNat_div, UInt8.toNat_ofNat', UInt8.reduceToNat]
    omega
  · apply UInt8.toNat_inj.mp
    simp only [UInt8.toNat_mod, UInt8.toNat_ofNat', UInt8.reduceToNat]
    omega
  · apply UInt8.toNat_inj.mp
    simp only [UInt8.toNat_add, UInt8.toNat_mul, UInt8.toNat_ofNat', UInt8.reduceToNat]
    omega

/-- In either case, the text consists of ASCII digits. -/
theorem WritesDigits.of_mem (h : WritesDigits f) {c : Char} (hc : c ∈ (hexText b).map f) :
    isAsciiHexdigit c = true ∧ c.toNat < 128 := by
  obtain ⟨d, hd, rfl⟩ := List.mem_map.mp hc
  obtain ⟨x, -, hd⟩ := List.mem_flatMap.mp hd
  obtain ⟨m, hm, n, hn, hhigh, hlow, -⟩ := digits_lt x
  rw [hhigh, hlow] at hd
  rcases List.mem_cons.mp hd with rfl | hd
  · exact ⟨h.digit m hm, h.ascii m hm⟩
  · obtain rfl := List.mem_singleton.mp hd
    exact ⟨h.digit n hn, h.ascii n hn⟩

/-- A byte string that is written with hexadecimal digits is read back. -/
theorem WritesDigits.decodePairs (h : WritesDigits f) (b : Bytes) :
    decodePairs strictHexByte (((hexText b).map f).map fun c => UInt8.ofNat c.toNat) = some b := by
  induction b with
  | nil => rfl
  | cons x b ih =>
      obtain ⟨m, hm, n, hn, hhigh, hlow, hbyte⟩ := digits_lt x
      simp only [hexText, List.flatMap_cons, hhigh, hlow, List.map_cons, List.cons_append,
        List.nil_append] at ih ⊢
      rw [Deltaship.decodePairs, ih]
      simp only [strictHexByte, h.value m hm, h.value n hn, hbyte]

end Hex

/-- A hexadecimal digit is a printing ASCII character. -/
theorem printing_of_isAsciiHexdigit {c : Char} (h : isAsciiHexdigit c = true) :
    32 < c.toNat ∧ c.toNat < 127 := by
  simp only [isAsciiHexdigit, Char.isDigit, Bool.or_eq_true, Bool.and_eq_true, decide_eq_true_eq,
    Char.le_def, UInt32.le_iff_toNat_le] at h
  have hval : c.toNat = c.val.toNat := rfl
  have h0 : '0'.val.toNat = 48 := rfl
  have h9 : '9'.val.toNat = 57 := rfl
  have ha : 'a'.val.toNat = 97 := rfl
  have hf : 'f'.val.toNat = 102 := rfl
  have hA : 'A'.val.toNat = 65 := rfl
  have hF : 'F'.val.toNat = 70 := rfl
  omega

/-! ## reading -/

/- A decoder of pairs is described by what it takes as the first and as the second character of a
pair; what it accepts then follows for texts of every length. -/

/-- The ASCII byte of a character. -/
def charByte (c : Char) : UInt8 := UInt8.ofNat c.toNat

/-- A text in pairs. -/
def ofPairs (pairs : List (Char × Char)) : List Char := pairs.flatMap fun p => [p.1, p.2]

/-- A pair parser that reads one ASCII character of a first kind and one of a second kind. -/
structure ReadsPairs (f : UInt8 → UInt8 → Option UInt8) (first second : Char → Prop) : Prop where
  first_ascii : ∀ c, first c → c.toNat < 128
  second_ascii : ∀ c, second c → c.toNat < 128
  isSome_iff : ∀ a b, (f a b).isSome = true ↔
    ∃ c d, first c ∧ second d ∧ a = charByte c ∧ b = charByte d

section Reading

variable {f : UInt8 → UInt8 → Option UInt8} {first second : Char → Prop} {s : String}
  {pairs : List (Char × Char)}

/-- The text of pairs begins with the two characters of the first one. -/
@[simp] theorem ofPairs_cons (p : Char × Char) (rest : List (Char × Char)) :
    ofPairs (p :: rest) = p.1 :: p.2 :: ofPairs rest := rfl

theorem length_ofPairs : (ofPairs pairs).length = 2 * pairs.length := by
  induction pairs with
  | nil => rfl
  | cons p rest ih =>
      simp only [ofPairs_cons, List.length_cons, ih]
      omega

/-- What stands in the text stands in one of the pairs. -/
theorem mem_ofPairs {c : Char} : c ∈ ofPairs pairs ↔ ∃ p ∈ pairs, c = p.1 ∨ c = p.2 := by
  simp [ofPairs]

/-- A text of even length falls into pairs. -/
theorem exists_ofPairs {n : Nat} : ∀ {l : List Char}, l.length = 2 * n →
    ∃ pairs, pairs.length = n ∧ l = ofPairs pairs := by
  induction n with
  | zero =>
      intro l hl
      obtain rfl := List.eq_nil_of_length_eq_zero hl
      exact ⟨[], rfl, rfl⟩
  | succ n ih =>
      intro l hl
      obtain ⟨c, tail, rfl⟩ := List.exists_cons_of_length_eq_add_one hl
      obtain ⟨d, rest, rfl⟩ := List.exists_cons_of_length_eq_add_one (Nat.succ.inj hl)
      obtain ⟨pairs, hlength, rfl⟩ := ih (Nat.succ.inj (Nat.succ.inj hl))
      exact ⟨(c, d) :: pairs, by rw [List.length_cons, hlength], rfl⟩

/-- A text is decoded if its first pair is, and then the rest. -/
theorem decodePairs_cons_cons {a b : UInt8} {rest : Bytes} :
    (decodePairs f (a :: b :: rest)).isSome = true ↔
      (f a b).isSome = true ∧ (decodePairs f rest).isSome = true := by
  rw [decodePairs]
  cases f a b <;> cases decodePairs f rest <;> simp

theorem length_of_decodePairs : ∀ {b out : Bytes}, decodePairs f b = some out →
    b.length = 2 * out.length
  | [], out, h => by simp [← Option.some.inj h]
  | [_], _, h => by simp [decodePairs] at h
  | a :: b :: rest, out, h => by
      rw [decodePairs] at h
      split at h
      · next x xs hx hxs =>
          rw [← Option.some.inj h, List.length_cons, List.length_cons, length_of_decodePairs hxs,
            List.length_cons]
          omega
      · contradiction

/-- Which byte strings are decoded. -/
theorem ReadsPairs.isSome_decodePairs (hf : ReadsPairs f first second) : ∀ b : Bytes,
    (decodePairs f b).isSome = true ↔ ∃ pairs, b = (ofPairs pairs).map charByte ∧
      ∀ p ∈ pairs, first p.1 ∧ second p.2
  | [] => ⟨fun _ => ⟨[], rfl, by simp⟩, fun _ => rfl⟩
  | [_] => by
      refine iff_of_false (by simp [decodePairs]) fun h => ?_
      obtain ⟨pairs, hb, -⟩ := h
      have hlength := congrArg List.length hb
      rw [List.length_map, length_ofPairs, List.length_singleton] at hlength
      omega
  | a :: b :: rest => by
      rw [decodePairs_cons_cons, hf.isSome_iff, hf.isSome_decodePairs rest]
      constructor
      · intro h
        obtain ⟨⟨c, d, hc, hd, rfl, rfl⟩, pairs, rfl, hpairs⟩ := h
        exact ⟨(c, d) :: pairs, rfl, by simpa using ⟨⟨hc, hd⟩, fun c d h => hpairs (c, d) h⟩⟩
      · intro h
        obtain ⟨pairs, hb, hpairs⟩ := h
        cases pairs with
        | nil => contradiction
        | cons p pairs =>
            obtain ⟨hp, hrest⟩ := List.forall_mem_cons.mp hpairs
            obtain ⟨ha, hb, hrest'⟩ : a = charByte p.1 ∧ b = charByte p.2 ∧
                rest = (ofPairs pairs).map charByte := by simpa using hb
            exact ⟨⟨p.1, p.2, hp.1, hp.2, ha, hb⟩, pairs, hrest', hrest⟩

/-- A text of pairs that are read is one byte for each character. -/
theorem ReadsPairs.utf8_ofPairs (hf : ReadsPairs f first second)
    (hpairs : ∀ p ∈ pairs, first p.1 ∧ second p.2) :
    utf8 (String.ofList (ofPairs pairs)) = (ofPairs pairs).map charByte := by
  refine utf8_ofList_of_ascii fun c hc => ?_
  obtain ⟨p, hp, rfl | rfl⟩ := mem_ofPairs.mp hc
  · exact hf.first_ascii _ (hpairs p hp).1
  · exact hf.second_ascii _ (hpairs p hp).2

/-- Which texts of 64 bytes are decoded. -/
theorem ReadsPairs.decodes_iff (hf : ReadsPairs f first second) :
    ((utf8 s).length = 64 ∧ (decodePairs f (utf8 s)).isSome = true) ↔
      ∃ pairs, pairs.length = 32 ∧ s.toList = ofPairs pairs ∧
        ∀ p ∈ pairs, first p.1 ∧ second p.2 := by
  rw [hf.isSome_decodePairs]
  constructor
  · intro h
    obtain ⟨hlength, pairs, hbytes, hpairs⟩ := h
    rw [← hf.utf8_ofPairs hpairs] at hbytes
    obtain rfl := utf8_inj hbytes
    rw [hf.utf8_ofPairs hpairs, List.length_map, length_ofPairs] at hlength
    exact ⟨pairs, by omega, String.toList_ofList, hpairs⟩
  · intro h
    obtain ⟨pairs, hlength, htext, hpairs⟩ := h
    have hbytes : utf8 s = (ofPairs pairs).map charByte := by
      rw [← hf.utf8_ofPairs hpairs, ← htext, String.ofList_toList]
    exact ⟨by rw [hbytes, List.length_map, length_ofPairs, hlength], pairs, hbytes, hpairs⟩

end Reading

/-! ## the two parsers -/

/- The parser of the program decodes pairs with `u8::from_str_radix`, which takes a plus sign in
front of a digit; the one of the `blake3` crate takes digits only. Everything else is the same for
both, and that is what is shown first. -/

/-- A text of exactly 64 hexadecimal digits. -/
def HexDigits (s : String) : Prop :=
  s.toList.length = 64 ∧ ∀ c ∈ s.toList, isAsciiHexdigit c = true

/-- A text of 32 pairs of hexadecimal digits, in some of which a plus sign stands for the first
digit. -/
def PlusSigned (s : String) : Prop :=
  ∃ pairs : List (Char × Char), pairs.length = 32 ∧ s.toList = ofPairs pairs ∧
    (∀ p ∈ pairs, (isAsciiHexdigit p.1 = true ∨ p.1 = '+') ∧ isAsciiHexdigit p.2 = true) ∧
    ∃ p ∈ pairs, p.1 = '+'

section Parsers

variable {s : String} {h : Hash}

/-- A byte is read as a digit exactly if it is that of one. -/
theorem hexDigit_isSome_iff {a : UInt8} : (hexDigit a).isSome = true ↔
    ∃ c, isAsciiHexdigit c = true ∧ a = charByte c := by
  have hbyte : ∀ n < 256, (hexDigit (UInt8.ofNat n)).isSome = true →
      isAsciiHexdigit (Char.ofNat n) = true ∧ UInt8.ofNat n = charByte (Char.ofNat n) := by
    decide +kernel
  have hchar : ∀ n < 128, isAsciiHexdigit (Char.ofNat n) = true →
      (hexDigit (charByte (Char.ofNat n))).isSome = true := by decide
  constructor
  · intro ha
    have hn := hbyte a.toNat a.toNat_lt (by rwa [UInt8.ofNat_toNat])
    exact ⟨_, hn.1, by rw [← hn.2, UInt8.ofNat_toNat]⟩
  · intro ha
    obtain ⟨c, hc, rfl⟩ := ha
    have hlow := (printing_of_isAsciiHexdigit hc).2
    have hn := hchar c.toNat (by omega)
    rw [Char.ofNat_toNat] at hn
    exact hn hc

theorem readsPairs_strictHexByte :
    ReadsPairs strictHexByte (isAsciiHexdigit · = true) (isAsciiHexdigit · = true) where
  first_ascii _ hc := (printing_of_isAsciiHexdigit hc).2.trans (by decide)
  second_ascii _ hc := (printing_of_isAsciiHexdigit hc).2.trans (by decide)
  isSome_iff a b := by
    have hboth : (strictHexByte a b).isSome = true ↔
        (hexDigit a).isSome = true ∧ (hexDigit b).isSome = true := by
      unfold strictHexByte
      cases hexDigit a <;> cases hexDigit b <;> simp
    rw [hboth, hexDigit_isSome_iff, hexDigit_isSome_iff]
    grind

/-- The other one also reads a plus sign in front of a digit. -/
theorem readsPairs_hexByte :
    ReadsPairs hexByte (fun c => isAsciiHexdigit c = true ∨ c = '+')
      (isAsciiHexdigit · = true) where
  first_ascii c hc := by
    rcases hc with hc | rfl
    · exact (printing_of_isAsciiHexdigit hc).2.trans (by decide)
    · decide
  second_ascii _ hc := (printing_of_isAsciiHexdigit hc).2.trans (by decide)
  isSome_iff a b := by
    have hboth : (hexByte a b).isSome = true ↔
        ((hexDigit a).isSome = true ∨ a = charByte '+') ∧ (hexDigit b).isSome = true := by
      have hplus : charByte '+' = 43 := by decide
      rw [hplus]
      unfold hexByte strictHexByte
      split
      · next ha => simp [ha]
      · next ha => cases hexDigit a <;> cases hexDigit b <;> simp [ha]
    have hfirst : ((∃ c, isAsciiHexdigit c = true ∧ a = charByte c) ∨ a = charByte '+') ↔
        ∃ c, (isAsciiHexdigit c = true ∨ c = '+') ∧ a = charByte c := by
      simp only [or_and_right, exists_or, exists_eq_left]
    rw [hboth, hexDigit_isSome_iff, hexDigit_isSome_iff, hfirst]
    grind

/-- A hash is parsed from 64 bytes that are decoded pair by pair. -/
theorem exists_fromHex_iff_isSome : (∃ h, Hash.fromHex s = .ok h) ↔
    (utf8 s).length = 64 ∧ (decodePairs hexByte (utf8 s)).isSome = true := by
  unfold Hash.fromHex
  split
  · next hlength => simp [hlength]
  · next hlength =>
      cases hdecode : decodePairs hexByte (utf8 s) with
      | none => simp
      | some out =>
          have hout := length_of_decodePairs hdecode
          have hvec : ByteVec.tryInto 32 out = some ⟨out, by omega⟩ :=
            ByteVec.tryInto_eq_some.mpr rfl
          simp [hvec, Decidable.not_not.mp hlength]

/-- So it is by the strict parser, with its decoder. -/
theorem isSome_strictFromHex : (strictFromHex s).isSome = true ↔
    (utf8 s).length = 64 ∧ (decodePairs strictHexByte (utf8 s)).isSome = true := by
  unfold strictFromHex
  split
  · next hlength => simp [hlength]
  · next hlength =>
      cases hdecode : decodePairs strictHexByte (utf8 s) with
      | none => simp
      | some out =>
          have hout := length_of_decodePairs hdecode
          have hvec : ByteVec.tryInto 32 out = some ⟨out, by omega⟩ :=
            ByteVec.tryInto_eq_some.mpr rfl
          simp [hvec, Decidable.not_not.mp hlength]

/-- A hash is parsed from 32 pairs, each of them a digit, or a plus sign, and a digit. -/
theorem exists_fromHex_iff : (∃ h, Hash.fromHex s = .ok h) ↔
    ∃ pairs : List (Char × Char), pairs.length = 32 ∧ s.toList = ofPairs pairs ∧
      ∀ p ∈ pairs, (isAsciiHexdigit p.1 = true ∨ p.1 = '+') ∧ isAsciiHexdigit p.2 = true :=
  exists_fromHex_iff_isSome.trans readsPairs_hexByte.decodes_iff

/-- The parser of the `blake3` crate accepts exactly 64 hexadecimal digits. -/
theorem isSome_strictFromHex_iff : (strictFromHex s).isSome = true ↔ HexDigits s := by
  rw [isSome_strictFromHex, readsPairs_strictHexByte.decodes_iff]
  constructor
  · intro h
    obtain ⟨pairs, hlength, htext, hpairs⟩ := h
    refine ⟨by rw [htext, length_ofPairs, hlength], fun c hc => ?_⟩
    rw [htext] at hc
    obtain ⟨p, hp, rfl | rfl⟩ := mem_ofPairs.mp hc
    · exact (hpairs p hp).1
    · exact (hpairs p hp).2
  · intro h
    obtain ⟨pairs, hlength, htext⟩ := exists_ofPairs (n := 32) h.1
    have hdigit := h.2
    rw [htext] at hdigit
    exact ⟨pairs, hlength, htext, fun p hp =>
      ⟨hdigit _ (mem_ofPairs.mpr ⟨p, hp, .inl rfl⟩), hdigit _ (mem_ofPairs.mpr ⟨p, hp, .inr rfl⟩)⟩⟩

/-- Both parsers accept the same texts but for those with a plus sign. -/
theorem exists_fromHex_iff_or :
    (∃ h, Hash.fromHex s = .ok h) ↔ HexDigits s ∨ PlusSigned s := by
  rw [← isSome_strictFromHex_iff, isSome_strictFromHex, readsPairs_strictHexByte.decodes_iff,
    exists_fromHex_iff]
  constructor
  · intro h
    obtain ⟨pairs, hlength, htext, hpairs⟩ := h
    by_cases hplus : ∃ p ∈ pairs, p.1 = '+'
    · exact .inr ⟨pairs, hlength, htext, hpairs, hplus⟩
    · refine .inl ⟨pairs, hlength, htext, fun p hp => ⟨?_, (hpairs p hp).2⟩⟩
      exact (hpairs p hp).1.resolve_right fun heq => hplus ⟨p, hp, heq⟩
  · intro h
    rcases h with ⟨pairs, hlength, htext, hpairs⟩ | ⟨pairs, hlength, htext, hpairs, -⟩
    · exact ⟨pairs, hlength, htext, fun p hp => ⟨.inl (hpairs p hp).1, (hpairs p hp).2⟩⟩
    · exact ⟨pairs, hlength, htext, hpairs⟩

/-- A plus sign is no digit. -/
theorem PlusSigned.not_hexDigits (h : PlusSigned s) : ¬ HexDigits s := by
  obtain ⟨pairs, -, htext, -, p, hp, hplus⟩ := h
  intro hdigits
  have hdigit := hdigits.2 '+' (by rw [htext]; exact mem_ofPairs.mpr ⟨p, hp, .inl hplus.symm⟩)
  contradiction

/-- The digits of a byte are those it was read from, in lower case. -/
theorem lower_digit {c : Char} (hc : isAsciiHexdigit c = true) :
    ∃ n < 16, hexDigit (charByte c) = some (UInt8.ofNat n) ∧
      hexChar (UInt8.ofNat n) = c.toLower := by
  have hall : ∀ k < 128, isAsciiHexdigit (Char.ofNat k) = true →
      ∃ n < 16, hexDigit (charByte (Char.ofNat k)) = some (UInt8.ofNat n) ∧
        hexChar (UInt8.ofNat n) = (Char.ofNat k).toLower := by decide
  have hlow := (printing_of_isAsciiHexdigit hc).2
  have hk := hall c.toNat (by omega)
  rw [Char.ofNat_toNat] at hk
  exact hk hc

/-- Two digits are found again in the byte that they make. -/
theorem digits_of_digits (m : Nat) (hm : m < 16) (n : Nat) (hn : n < 16) :
    (16 * UInt8.ofNat m + UInt8.ofNat n) / 16 = UInt8.ofNat m ∧
      (16 * UInt8.ofNat m + UInt8.ofNat n) % 16 = UInt8.ofNat n := by
  constructor <;> apply UInt8.toNat_inj.mp <;> simp <;> omega

/-- What is read from digits is written as these digits in lower case. -/
theorem hexText_of_decodePairs {pairs : List (Char × Char)} {out : Bytes}
    (hpairs : ∀ p ∈ pairs, isAsciiHexdigit p.1 = true ∧ isAsciiHexdigit p.2 = true)
    (h : decodePairs strictHexByte ((ofPairs pairs).map charByte) = some out) :
    hexText out = (ofPairs pairs).map Char.toLower := by
  induction pairs generalizing out with
  | nil => rw [← Option.some.inj h]; rfl
  | cons p rest ih =>
      obtain ⟨hp, hrest⟩ := List.forall_mem_cons.mp hpairs
      obtain ⟨m, hm, hvalue, hlower⟩ := lower_digit hp.1
      obtain ⟨n, hn, hvalue', hlower'⟩ := lower_digit hp.2
      obtain ⟨hhigh, hlow⟩ := digits_of_digits m hm n hn
      rw [ofPairs_cons, List.map_cons, List.map_cons, decodePairs, strictHexByte, hvalue,
        hvalue'] at h
      cases hdecode : decodePairs strictHexByte ((ofPairs rest).map charByte) with
      | none => simp [hdecode] at h
      | some xs =>
          simp only [hdecode, Option.some.injEq] at h
          have htail := ih hrest hdecode
          rw [← h]
          simp only [hexText, List.flatMap_cons, hhigh, hlow, hlower, hlower'] at htail ⊢
          rw [htail]
          rfl

/-- What is parsed strictly is displayed in lower case. -/
theorem toHex_of_strictFromHex (h' : strictFromHex s = some h) :
    h.toHex = Text.asciiLower s := by
  have hdigits : HexDigits s := isSome_strictFromHex_iff.mp (by rw [h']; rfl)
  obtain ⟨pairs, hlength, htext, hpairs⟩ := readsPairs_strictHexByte.decodes_iff.mp
    (isSome_strictFromHex.mp (isSome_strictFromHex_iff.mpr hdigits))
  have hbytes : utf8 s = (ofPairs pairs).map charByte := by
    rw [← readsPairs_strictHexByte.utf8_ofPairs hpairs, ← htext, String.ofList_toList]
  unfold strictFromHex at h'
  split at h'
  · contradiction
  · obtain ⟨out, hout, hvec⟩ := Option.bind_eq_some_iff.mp h'
    obtain rfl := ByteVec.tryInto_eq_some.mp hvec
    rw [hbytes] at hout
    have hlower := hexText_of_decodePairs hpairs hout
    rw [Text.asciiLower, htext, ← hlower]
    rfl

/-- What is written is read back. -/
theorem strictFromHex_toHex (h : Hash) : strictFromHex h.toHex = some h := by
  have hascii : ∀ c ∈ hexText h.val, c.toNat < 128 := fun c hc =>
    (writesDigits_id.of_mem (by simpa using hc)).2
  have hbytes : utf8 h.toHex = (hexText h.val).map charByte := utf8_ofList_of_ascii hascii
  have hdecode : decodePairs strictHexByte (utf8 h.toHex) = some h.val := by
    rw [hbytes]
    have hread := writesDigits_id.decodePairs h.val
    rw [List.map_id] at hread
    exact hread
  have hlength : (utf8 h.toHex).length = 64 := by
    rw [length_of_decodePairs hdecode, h.property]
  unfold strictFromHex
  rw [if_neg (not_not.mpr hlength), hdecode, Option.bind_some]
  exact ByteVec.tryInto_eq_some.mpr rfl

/-- A hash that is displayed is parsed as itself. -/
theorem fromHex_toHex (h : Hash) : Hash.fromHex h.toHex = .ok h :=
  fromHex_of_strictFromHex (strictFromHex_toHex h)

/-- The text of a hash is exactly 64 digits, and it is the same text for both parsers. -/
structure HexCodec (C : CryptoCrates) (s : String) : Prop where
  accepts : (∃ h, Hash.fromHex s = .ok h) ↔ HexDigits s
  lower : ∀ h, Hash.fromHex s = .ok h → h.toHex = Text.asciiLower s
  agrees : (∃ h, Hash.fromHex s = .ok h) ↔ (C.blake3FromHex s).isSome = true

/-- What is written is always read back, and a text is treated well if and only if no plus sign
stands for a digit. -/
theorem hexCodec_iff {C : CryptoCrates} (hC : C.StrictHex) :
    (∀ h, Hash.fromHex h.toHex = .ok h) ∧ ∀ s, HexCodec C s ↔ ¬ PlusSigned s := by
  refine ⟨fromHex_toHex, fun s => ⟨fun h hplus => ?_, fun hplain => ?_⟩⟩
  · exact hplus.not_hexDigits (h.accepts.mp (exists_fromHex_iff_or.mpr (.inr hplus)))
  · have haccepts : (∃ h, Hash.fromHex s = .ok h) ↔ HexDigits s :=
      exists_fromHex_iff_or.trans (or_iff_left hplain)
    refine ⟨haccepts, fun h hok => ?_, ?_⟩
    · obtain ⟨h', hstrict⟩ :=
        Option.isSome_iff_exists.mp (isSome_strictFromHex_iff.mpr (haccepts.mp ⟨h, hok⟩))
      obtain rfl := Except.ok.inj (hok.symm.trans (fromHex_of_strictFromHex hstrict))
      exact toHex_of_strictFromHex hstrict
    · rw [haccepts, hC, isSome_strictFromHex_iff]

/-- The two parsers differ at the texts with a plus sign. -/
theorem hexCodec_iff_sample : (∀ h, Hash.fromHex h.toHex = .ok h) ∧
    ∀ s, HexCodec sampleCrypto s ↔ ¬ PlusSigned s :=
  hexCodec_iff sampleCrypto_strictHex

/-- The first of 64 characters is a plus sign. -/
theorem fromHex_accepts_plus : ¬ ∀ (C : CryptoCrates) (s : String), C.StrictHex → HexCodec C s := by
  intro h
  have haccepts := (h sampleCrypto (String.ofList ('+' :: List.replicate 63 'f'))
    sampleCrypto_strictHex).accepts
  have hok : Hash.fromHex (String.ofList ('+' :: List.replicate 63 'f')) =
      .ok ⟨15 :: List.replicate 31 255, rfl⟩ := by decide
  have hdigit := (haccepts.mp ⟨_, hok⟩).2 '+' (by simp)
  contradiction

end Parsers

end Deltaship
