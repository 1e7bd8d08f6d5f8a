import Deltaship.Db.Models
import Deltaship.Lib.Calendar
import Deltaship.Lib.Prog

/-!
# Deltaship.Db.Timestamps

Which texts `validate_expires_at_timestamp` accepts, and on which it panics.

The function counts bytes.  It never looks at the bytes 4, 7, 13 and 16, it reads numbers with
`str::parse`, which takes a plus sign, and it does not look behind the 19th byte: so it accepts
exactly the texts that can be read as a `Reading`, and of these only the `Proper` ones are
timestamps.  Where it cuts inside a character it panics (`CutsCharacter`).
-/

namespace Deltaship

open Calendar

/-! ## timestamps -/

/-- `YYYY-MM-DD`, `T` or a space, `HH:MM:SS`, and nothing, `Z` or an offset; from 1970 to 2100. -/
def IsTimestamp (t : List Char) : Prop :=
  ∃ (stamp : Stamp) (sep : Char) (zone : Zone), 1970 ≤ stamp.date.year ∧ stamp.date.year ≤ 2100 ∧
    (sep = 'T' ∨ sep = ' ') ∧ t = stamp.text sep ++ zone.text

/-! ## fields -/

/- A field is parsed like any number of Rust: a plus sign may stand in front of the digits. Two
ASCII digits, or four, are therefore not the only texts that are read as a field. -/

/-- A field of two characters: two digits, or one digit behind a plus sign. -/
structure Pair where
  plus : Bool
  value : Nat
  value_lt : value < if plus then 10 else 100
deriving DecidableEq, Repr

/-- The two characters. -/
def Pair.text (p : Pair) : List Char :=
  if p.plus then '+' :: digits 1 p.value else digits 2 p.value

/-- `parseField`, on characters. -/
def parseFieldChars (signed : Bool) : List Char → Option Int
  | '+' :: ds => (Text.parseDigits ds).map Int.ofNat
  | '-' :: ds => if signed then (Text.parseDigits ds).map fun n => -(n : Int) else none
  | ds => (Text.parseDigits ds).map Int.ofNat

/-- The byte of an ASCII character. -/
def asciiByte (c : Char) : UInt8 := UInt8.ofNat c.toNat

/-- The byte of an ASCII character is its number. -/
theorem toNat_asciiByte {c : Char} (hc : c.toNat < 128) : (asciiByte c).toNat = c.toNat := by
  rw [asciiByte, UInt8.toNat_ofNat']
  omega

/-- Two ASCII characters with the same byte are one. -/
theorem asciiByte_inj {c d : Char} (hc : c.toNat < 128) (hd : d.toNat < 128)
    (h : asciiByte c = asciiByte d) : c = d := by
  have hnat := congrArg UInt8.toNat h
  rw [toNat_asciiByte hc, toNat_asciiByte hd] at hnat
  exact Char.toNat_inj.mp hnat

/-- ASCII characters are read back from their bytes. -/
theorem map_ofNat_asciiByte {l : List Char} (hl : ∀ c ∈ l, c.toNat < 128) :
    (l.map asciiByte).map (fun x => Char.ofNat x.toNat) = l := by
  rw [List.map_map]
  refine (List.map_congr_left fun c hc => ?_).trans (List.map_id' l)
  rw [Function.comp_apply, toNat_asciiByte (hl c hc), Char.ofNat_toNat]

/-- On ASCII the bytes are the characters. -/
theorem parseField_map {signed : Bool} {l : List Char} (hl : ∀ c ∈ l, c.toNat < 128) :
    parseField signed (l.map asciiByte) = parseFieldChars signed l := by
  cases l with
  | nil => rfl
  | cons c l =>
      have hc := hl c List.mem_cons_self
      have hrest := map_ofNat_asciiByte fun d hd => hl d (List.mem_cons_of_mem c hd)
      have hall := map_ofNat_asciiByte hl
      unfold parseField parseFieldChars
      rw [List.map_cons] at hall ⊢
      split
      · next heq =>
          obtain ⟨hbyte, rfl⟩ := List.cons.inj heq
          obtain rfl : c = '+' := asciiByte_inj hc (by decide) hbyte
          dsimp only
          rw [hrest]
          rfl
      · next heq =>
          obtain ⟨hbyte, rfl⟩ := List.cons.inj heq
          obtain rfl : c = '-' := asciiByte_inj hc (by decide) hbyte
          dsimp only
          rw [hrest]
          rfl
      · next hplus hminus =>
          split
          · next heq =>
              obtain ⟨rfl, rfl⟩ := List.cons.inj heq
              exact absurd rfl (hplus _)
          · next heq =>
              obtain ⟨rfl, rfl⟩ := List.cons.inj heq
              exact absurd rfl (hminus _)
          · dsimp only
            rw [hall]

/-- A pair of digits does not begin with a minus sign. -/
theorem Pair.text_ne_minus {p : Pair} {l : List Char} : p.text ≠ '-' :: l := by
  obtain ⟨plus, value, hlt⟩ := p
  intro htext
  cases plus with
  | true => exact absurd (List.cons.inj htext).1 (by decide)
  | false => exact digits_ne_cons rfl l htext

/-- The fields of two characters. -/
theorem parseFieldChars_pair {c c' : Char} {n : Int} :
    parseFieldChars false [c, c'] = some n ↔
      ∃ p : Pair, (p.value : Int) = n ∧ p.text = [c, c'] := by
  unfold parseFieldChars
  split
  · next heq =>
      obtain ⟨rfl, rfl⟩ := List.cons.inj heq
      simp only [Option.map_eq_some_iff, parseDigits_eq_some_iff]
      constructor
      · rintro ⟨m, ⟨-, hlt, hc⟩, rfl⟩
        exact ⟨⟨true, m, hlt⟩, rfl, congrArg _ hc.symm⟩
      · rintro ⟨⟨plus, m, hlt⟩, rfl, htext⟩
        cases plus with
        | true => exact ⟨m, ⟨by simp, hlt, (List.cons.inj htext).2.symm⟩, rfl⟩
        | false => exact absurd htext (digits_ne_cons rfl _)
  · next heq =>
      obtain ⟨rfl, rfl⟩ := List.cons.inj heq
      constructor
      · intro h
        contradiction
      · rintro ⟨p, -, htext⟩
        exact absurd htext Pair.text_ne_minus
  · next hplus _ =>
      simp only [Option.map_eq_some_iff, parseDigits_eq_some_iff]
      constructor
      · rintro ⟨m, ⟨-, hlt, hc⟩, rfl⟩
        exact ⟨⟨false, m, hlt⟩, rfl, hc.symm⟩
      · rintro ⟨⟨plus, m, hlt⟩, rfl, htext⟩
        cases plus with
        | true =>
            obtain ⟨rfl, -⟩ := List.cons.inj htext
            exact absurd rfl (hplus _)
        | false => exact ⟨m, ⟨by simp, hlt, htext.symm⟩, rfl⟩

/-- The years from 1970 to 2100 are written with four digits. -/
theorem parseFieldChars_year {l : List Char} (hl : l.length = 4) :
    (∃ n, parseFieldChars true l = some n ∧ 1970 ≤ n ∧ n ≤ 2100) ↔
      ∃ y, 1970 ≤ y ∧ y ≤ 2100 ∧ l = digits 4 y := by
  unfold parseFieldChars
  split
  · next ds =>
      have hds : ds.length = 3 := by simpa using hl
      constructor
      · rintro ⟨n, hn, hlow, -⟩
        rw [Option.map_eq_some_iff] at hn
        obtain ⟨m, hm, rfl⟩ := hn
        have hlt := (parseDigits_eq_some_iff.mp hm).2.1
        rw [hds] at hlt
        simp only [Int.ofNat_eq_natCast] at hlow
        omega
      · rintro ⟨y, -, -, heq⟩
        exact absurd heq.symm (digits_ne_cons rfl ds)
  · next ds =>
      constructor
      · rintro ⟨n, hn, hlow, -⟩
        have hneg : ∃ m : Nat, -(m : Int) = n := by
          cases hm : Text.parseDigits ds with
          | none => rw [hm] at hn; contradiction
          | some m => rw [hm] at hn; exact ⟨m, Option.some.inj hn⟩
        obtain ⟨m, rfl⟩ := hneg
        omega
      · rintro ⟨y, -, -, heq⟩
        exact absurd heq.symm (digits_ne_cons rfl ds)
  · simp only [Option.map_eq_some_iff, parseDigits_eq_some_iff, hl]
    constructor
    · rintro ⟨n, ⟨m, ⟨-, -, hm⟩, rfl⟩, hlow, hhigh⟩
      simp only [Int.ofNat_eq_natCast] at hlow hhigh
      exact ⟨m, by omega, by omega, hm⟩
    · rintro ⟨y, hlow, hhigh, hy⟩
      refine ⟨y, ⟨y, ⟨?_, by omega, hy⟩, rfl⟩, by omega, by omega⟩
      rintro rfl
      contradiction

/-! ## bytes and characters -/

section Bytes

variable {a r t : List Char} {b : Bytes} {i : Nat}

/-- Outside ASCII a character takes a first byte and at least one more, at which no character
begins. -/
theorem utf8EncodeChar_of_not_ascii {c : Char} (h : 128 ≤ c.toNat) :
    ∃ x y rest, String.utf8EncodeChar c = x :: y :: rest ∧
      192 ≤ x.toNat ∧ 128 ≤ y.toNat ∧ y.toNat < 192 := by
  have hval : c.val.toNat = c.toNat := rfl
  unfold String.utf8EncodeChar
  rw [hval, if_neg (by omega)]
  split
  · refine ⟨_, _, _, rfl, ?_⟩
    simp only [UInt8.toNat_ofNat']
    omega
  · split
    · refine ⟨_, _, _, rfl, ?_⟩
      simp only [UInt8.toNat_ofNat']
      omega
    · refine ⟨_, _, _, rfl, ?_⟩
      simp only [UInt8.toNat_ofNat']
      omega

/-- A byte begins a character exactly if it does not continue one. -/
theorem isCharBoundary_of_getElem? {x : UInt8} (h : b[i]? = some x) :
    isCharBoundary b i = true ↔ x.toNat < 128 ∨ 192 ≤ x.toNat := by
  simp [isCharBoundary, h, UInt8.lt_iff_toNat_lt, UInt8.le_iff_toNat_le]

/-- Texts one behind the other are encoded one behind the other. -/
theorem utf8_append (a r : List Char) :
    utf8 (String.ofList (a ++ r)) = utf8 (String.ofList a) ++ utf8 (String.ofList r) := by
  rw [utf8_ofList, utf8_ofList, utf8_ofList, List.flatMap_append]

/-- An ASCII character in front is one byte in front. -/
theorem utf8_cons_ascii {c : Char} (hc : c.toNat < 128) (r : List Char) :
    utf8 (String.ofList (c :: r)) = asciiByte c :: utf8 (String.ofList r) := by
  rw [utf8_ofList, utf8_ofList, List.flatMap_cons, utf8EncodeChar_of_isAscii hc]
  rfl

/-- ASCII characters in front are as many bytes in front. -/
theorem utf8_ascii_append (ha : ∀ c ∈ a, c.toNat < 128) (r : List Char) :
    utf8 (String.ofList (a ++ r)) = a.map asciiByte ++ utf8 (String.ofList r) := by
  rw [utf8_append, utf8_ofList_of_ascii ha]
  rfl

/-- The end of a text is the beginning of what follows it. -/
theorem isCharBoundary_append (r : List Char) (hb : b.length = i) :
    isCharBoundary (b ++ utf8 (String.ofList r)) i = true := by
  subst hb
  cases r with
  | nil =>
      rw [utf8_ofList, List.flatMap_nil, List.append_nil]
      simp [isCharBoundary]
  | cons c r =>
      by_cases hc : c.toNat < 128
      · rw [utf8_cons_ascii hc, isCharBoundary_of_getElem? (x := asciiByte c) (by simp),
          toNat_asciiByte hc]
        exact .inl hc
      · obtain ⟨x, y, rest, hbytes, hx, -⟩ := utf8EncodeChar_of_not_ascii (Nat.not_lt.mp hc)
        rw [utf8_ofList, List.flatMap_cons, hbytes, isCharBoundary_of_getElem? (x := x) (by simp)]
        exact .inr hx

theorem isCharBoundary_zero (s : String) : isCharBoundary (utf8 s) 0 = true := by
  have hzero := isCharBoundary_append (b := []) s.toList rfl
  rwa [List.nil_append, String.ofList_toList] at hzero

/-- Before an ASCII character there is a boundary. -/
theorem isCharBoundary_of_ascii (ha : ∀ c ∈ a, c.toNat < 128) (hi : i < a.length) :
    isCharBoundary (a.map asciiByte ++ b) i = true := by
  have hmem : a[i] ∈ a := List.getElem_mem hi
  have hget : (a.map asciiByte ++ b)[i]? = some (asciiByte a[i]) := by
    rw [List.getElem?_append_left (by simpa using hi), List.getElem?_map,
      List.getElem?_eq_getElem hi]
    rfl
  rw [isCharBoundary_of_getElem? hget, toNat_asciiByte (ha _ hmem)]
  exact .inl (ha _ hmem)

/-- The ASCII characters at the beginning come one to a byte. -/
theorem charsWithin_append (ha : ∀ c ∈ a, c.toNat < 128) (n : Nat) (r : List Char) :
    charsWithin (a.length + n) (a ++ r) = a ++ charsWithin n r := by
  induction a with
  | nil => simp
  | cons c a ih =>
      have hsize : c.utf8Size = 1 := Char.utf8Size_eq_one_iff.mpr (UInt32.le_iff_toNat_le.mpr (by
        have hc := ha c List.mem_cons_self
        have hval : c.val.toNat = c.toNat := rfl
        have hlast : (127 : UInt32).toNat = 127 := rfl
        omega))
      have hrest : a.length + 1 + n - 1 = a.length + n := by omega
      rw [List.cons_append, charsWithin, hsize, List.length_cons, if_pos (by omega), hrest,
        ih fun d hd => ha d (List.mem_cons_of_mem c hd), List.cons_append]

end Bytes

/-! ## one run of the validator -/

/- The validator slices the text by bytes and panics where a slice cuts a character. The lemmas go
through its stages in order, and the last two of them say when it accepts and when it panics. -/

/-- A field is read as a number: it is cut between characters, and parsed. -/
def Reads (b : Bytes) (f : StampField) (n : Int) : Prop :=
  isCharBoundary b f.lo = true ∧ isCharBoundary b f.hi = true ∧
    parseField f.signed ((b.take f.hi).drop f.lo) = some n

/-- The eleventh character of the first 19 bytes separates the date from the time. -/
def HasSeparator (t : List Char) : Prop :=
  (charsWithin 19 t)[10]? = some 'T' ∨ (charsWithin 19 t)[10]? = some ' '

instance (t : List Char) : Decidable (HasSeparator t) := inferInstanceAs (Decidable (_ ∨ _))

/-- The validator cuts inside a character: behind the 19th byte or, if the separator is there, at
the ends of a field before which all fields can be read. -/
def CutsCharacter (t : List Char) : Prop :=
  let b := utf8 (String.ofList t)
  19 ≤ b.length ∧ (isCharBoundary b 19 = false ∨ HasSeparator t ∧
    ∃ pre f post, stampFields = pre ++ f :: post ∧ (∀ g ∈ pre, ∃ n, Reads b g n) ∧
      (isCharBoundary b f.lo = false ∨ isCharBoundary b f.hi = false))

/-- The validator accepts: the separator is there, and all fields can be read and are in range. -/
def Accepts (t : List Char) : Prop :=
  let b := utf8 (String.ofList t)
  19 ≤ b.length ∧ isCharBoundary b 19 = true ∧ HasSeparator t ∧
    ∀ f ∈ stampFields, ∃ n, Reads b f n ∧ f.min ≤ n ∧ n ≤ f.max

section Run

variable {s : String} {b : Bytes} {f : StampField} {n : Int}

/-- A slice is cut at two boundaries, and panics elsewhere. -/
theorem sliceBytes_eq (b : Bytes) (lo hi : Nat) :
    sliceBytes b lo hi = if isCharBoundary b lo = true ∧ isCharBoundary b hi = true then
      .ok ((b.take hi).drop lo) else .error .panicked := by
  simp [sliceBytes]

/-- A field is read as what its slice says. -/
theorem readStampField_eq_ok : readStampField b s f = .ok n ↔ Reads b f n := by
  unfold readStampField Reads
  rw [sliceBytes_eq, ← and_assoc]
  split
  · next hcut =>
      rw [and_iff_right hcut]
      simp only [bind, Except.bind]
      cases parseField f.signed ((b.take f.hi).drop f.lo) with
      | none => simp [throw, throwThe, MonadExceptOf.throw]
      | some m => simp [pure, Except.pure]
  · next hcut =>
      constructor
      · intro h
        contradiction
      · intro h
        exact absurd h.1 hcut

/-- Reading a field panics exactly if its slice cuts through a character. -/
theorem readStampField_eq_panicked : readStampField b s f = .error .panicked ↔
    isCharBoundary b f.lo = false ∨ isCharBoundary b f.hi = false := by
  unfold readStampField
  rw [sliceBytes_eq]
  split
  · next hcut =>
      have hwhole : ¬ (isCharBoundary b f.lo = false ∨ isCharBoundary b f.hi = false) := by
        simp [hcut]
      simp only [bind, Except.bind]
      cases parseField f.signed ((b.take f.hi).drop f.lo) with
      | none => simp [throw, throwThe, MonadExceptOf.throw, hcut]
      | some m => simp [pure, Except.pure, hcut]
  · next hcut =>
      refine iff_of_true rfl ?_
      rw [not_and_or, Bool.not_eq_true, Bool.not_eq_true] at hcut
      exact hcut

/-- The numbers that are read, and their ranges. -/
theorem fields_in_range : (∃ values, stampFields.mapM (readStampField b s) = .ok values ∧
      (stampFields.zip values).find? (fun p => p.2 < p.1.min || p.1.max < p.2) = none) ↔
    ∀ f ∈ stampFields, ∃ n, Reads b f n ∧ f.min ≤ n ∧ n ≤ f.max := by
  generalize stampFields = fields
  induction fields with
  | nil =>
      constructor
      · intro _ f hf
        contradiction
      · intro _
        exact ⟨[], rfl, rfl⟩
  | cons f fields ih =>
      rw [List.forall_mem_cons, ← ih]
      simp only [Except.mapM_eq_ok, List.forall₂_cons_left_iff]
      constructor
      · rintro ⟨_, ⟨n, values, hn, hvalues, rfl⟩, hrange⟩
        rw [List.zip_cons_cons, List.find?_cons] at hrange
        split at hrange
        · contradiction
        · next hin =>
            refine ⟨⟨n, readStampField_eq_ok.mp hn, ?_⟩, values, hvalues, hrange⟩
            simpa using hin
      · rintro ⟨⟨n, hn, hin⟩, values, hvalues, hrange⟩
        refine ⟨n :: values, ⟨n, values, readStampField_eq_ok.mpr hn, hvalues, rfl⟩, ?_⟩
        have hfits : (decide (n < f.min) || decide (f.max < n)) = false := by simpa using hin
        rw [List.zip_cons_cons, List.find?_cons, hrange]
        dsimp only
        rw [hfits]

/-- The first bytes, once the text is long enough. -/
theorem sliceBytes_front (s : String) : sliceBytes (utf8 s) 0 19 =
    if isCharBoundary (utf8 s) 19 = true then .ok ((utf8 s).take 19) else .error .panicked := by
  rw [sliceBytes_eq]
  simp [isCharBoundary_zero]

/-- The stages of the validator. -/
theorem validateExpiresAtTimestamp_eq (s : String) :
    ∃ (short noSeparator : String) (outOfRange : List Int → String),
    validateExpiresAtTimestamp s =
      if (utf8 (Text.trim s)).length < 19 then .error (.invalidData short)
      else if isCharBoundary (utf8 (Text.trim s)) 19 = false then .error .panicked
      else if ¬ HasSeparator (Text.trim s).toList then .error (.invalidData noSeparator)
      else match stampFields.mapM (readStampField (utf8 (Text.trim s)) s) with
        | .error e => .error e
        | .ok values =>
          if (stampFields.zip values).find? (fun p => p.2 < p.1.min || p.1.max < p.2) = none then
            .ok ()
          else .error (.invalidData (outOfRange values)) := by
  refine ⟨s!"Expiration timestamp too short, expected at least 'YYYY-MM-DD HH:MM:SS', got: '{s}'",
    s!"Expiration timestamp missing valid separator at position 10 (expected 'T' or space), got: '{s}'",
    fun values =>
      ((stampFields.zip values).find? fun p => p.2 < p.1.min || p.1.max < p.2).elim ""
        fun p => s!"{p.1.range} in expiration timestamp: '{s}'", ?_⟩
  have hbind : ∀ {α β : Type} (a : α) (f : α → Except DbError β), (Except.ok a >>= f) = f a :=
    fun _ _ => rfl
  unfold validateExpiresAtTimestamp HasSeparator
  dsimp only
  rw [sliceBytes_front]
  by_cases hshort : (utf8 (Text.trim s)).length < 19
  · rw [if_pos hshort, if_pos hshort]
    rfl
  · rw [if_neg hshort, if_neg hshort]
    cases hcut : isCharBoundary (utf8 (Text.trim s)) 19 with
    | false => rfl
    | true =>
        have hwhole : ¬ true = false := by decide
        rw [if_pos rfl, hbind, if_neg hwhole]
        by_cases hsep : (charsWithin 19 (Text.trim s).toList)[10]? = some 'T' ∨
            (charsWithin 19 (Text.trim s).toList)[10]? = some ' '
        · rw [if_neg (not_not.mpr hsep), if_neg (not_not.mpr hsep)]
          cases stampFields.mapM (readStampField (utf8 (Text.trim s)) s) with
          | error e => rfl
          | ok values =>
              rw [hbind]
              dsimp only
              cases (stampFields.zip values).find?
                fun p => decide (p.2 < p.1.min) || decide (p.1.max < p.2) with
              | none => rfl
              | some p => rfl
        · rw [if_pos hsep, if_pos hsep]
          rfl

/-- A text is accepted exactly if every field reads as a number in its range. -/
theorem validateExpiresAtTimestamp_eq_ok :
    validateExpiresAtTimestamp s = .ok () ↔ Accepts (Text.trim s).toList := by
  obtain ⟨short, noSeparator, outOfRange, hstages⟩ := validateExpiresAtTimestamp_eq s
  rw [hstages, Accepts, String.ofList_toList, ← fields_in_range (s := s)]
  split
  · next h =>
      refine iff_of_false (by simp) fun h' => ?_
      omega
  · next hlong =>
      rw [and_iff_right (Nat.not_lt.mp hlong)]
      split
      · next h =>
          refine iff_of_false (by simp) fun h' => ?_
          rw [h] at h'
          exact Bool.false_ne_true h'.1
      · next hwhole =>
          rw [and_iff_right (by simpa using hwhole)]
          split
          · next h => exact iff_of_false (by simp) fun h' => h h'.1
          · next hsep =>
              rw [and_iff_right (not_not.mp hsep)]
              cases stampFields.mapM (readStampField (utf8 (Text.trim s)) s) with
              | error e => simp
              | ok values => simp

/-- The validation panics exactly if a slice cuts through a character. -/
theorem validateExpiresAtTimestamp_eq_panicked :
    validateExpiresAtTimestamp s = .error .panicked ↔ CutsCharacter (Text.trim s).toList := by
  obtain ⟨short, noSeparator, outOfRange, hstages⟩ := validateExpiresAtTimestamp_eq s
  rw [hstages, CutsCharacter, String.ofList_toList]
  split
  · next h =>
      refine iff_of_false (by simp) fun h' => ?_
      omega
  · next hlong =>
      rw [and_iff_right (Nat.not_lt.mp hlong)]
      split
      · next h => exact iff_of_true rfl (.inl h)
      · next hwhole =>
          rw [or_iff_right hwhole]
          split
          · next h => exact iff_of_false (by simp) fun h' => h h'.1
          · next hsep =>
              rw [and_iff_right (not_not.mp hsep)]
              have hfails : (stampFields.mapM (readStampField (utf8 (Text.trim s)) s)) =
                    .error .panicked ↔ ∃ pre f post, stampFields = pre ++ f :: post ∧
                      (∀ g ∈ pre, ∃ n, Reads (utf8 (Text.trim s)) g n) ∧
                      (isCharBoundary (utf8 (Text.trim s)) f.lo = false ∨
                        isCharBoundary (utf8 (Text.trim s)) f.hi = false) := by
                simp only [Except.mapM_eq_error, readStampField_eq_ok, readStampField_eq_panicked]
              rw [← hfails]
              cases stampFields.mapM (readStampField (utf8 (Text.trim s)) s) with
              | error e => simp
              | ok values =>
                  dsimp only
                  split <;> simp

end Run

/-! ## readings -/

/- The validator is described without running it: a text that is accepted begins with 19 ASCII
characters, which are laid out as six fields with a mark behind each but the last, and what the
validator reads of such a text are these fields. What it does not look at, the marks and everything
behind the seconds, is free. -/

section Layouts

variable {a r t y mo d h mi se : List Char} {b : Bytes} {m4 m7 m10 m13 m16 : Char}

/-- Six fields with a mark behind each but the last. -/
def layout (y : List Char) (m4 : Char) (mo : List Char) (m7 : Char) (d : List Char) (m10 : Char)
    (h : List Char) (m13 : Char) (mi : List Char) (m16 : Char) (se : List Char) : List Char :=
  y ++ m4 :: (mo ++ m7 :: (d ++ m10 :: (h ++ m13 :: (mi ++ m16 :: se))))

/-- A text that is long enough has a character at any place, and what surrounds it. -/
theorem exists_append_cons {l : List Char} (m n : Nat) (hl : l.length = m + (n + 1)) :
    ∃ x c rest, l = x ++ c :: rest ∧ x.length = m ∧ rest.length = n := by
  have hlast : m < l.length := by omega
  exact ⟨l.take m, l[m], l.drop (m + 1), by simp, by simp; omega, by simp; omega⟩

/-- What the fields cover. -/
theorem stampFields_bounds :
    ∀ f ∈ stampFields, f.lo < 19 ∧ f.hi ≤ 19 := by decide

/-- Every one of the first 19 bytes is in a field or behind the cut in front of one. -/
theorem stampFields_cover :
    ∀ k < 19, ∃ f ∈ stampFields, f.lo = k + 1 ∨ f.lo ≤ k ∧ k < f.hi := by decide

/-- In an ASCII front a field is read from its characters. -/
theorem reads_iff (ha : ∀ c ∈ a, c.toNat < 128) (hlength : a.length = 19) {f : StampField}
    (hf : f ∈ stampFields) {n : Int} :
    Reads (a.map asciiByte ++ utf8 (String.ofList r)) f n ↔
      parseFieldChars f.signed ((a.take f.hi).drop f.lo) = some n := by
  obtain ⟨hlo, hhi⟩ := stampFields_bounds f hf
  have hslice : (((a.map asciiByte ++ utf8 (String.ofList r)).take f.hi).drop f.lo) =
      ((a.take f.hi).drop f.lo).map asciiByte := by
    rw [List.take_append_of_le_length (by simp [hlength, hhi]), List.map_drop, List.map_take]
  have hascii : ∀ c ∈ (a.take f.hi).drop f.lo, c.toNat < 128 := fun c hc =>
    ha c (List.mem_of_mem_take (List.mem_of_mem_drop hc))
  have hleft := isCharBoundary_of_ascii (b := utf8 (String.ofList r)) ha (hlength ▸ hlo)
  have hright : isCharBoundary (a.map asciiByte ++ utf8 (String.ofList r)) f.hi = true := by
    rcases Nat.lt_or_eq_of_le hhi with hlt | heq
    · exact isCharBoundary_of_ascii ha (hlength ▸ hlt)
    · exact isCharBoundary_append r (by simp [hlength, heq])
  rw [Reads, hslice, parseField_map hascii, and_iff_right hleft, and_iff_right hright]

/-- With 19 ASCII characters in front, the validator reads these. -/
theorem accepts_append_iff (ha : ∀ c ∈ a, c.toNat < 128) (hlength : a.length = 19) :
    Accepts (a ++ r) ↔ (a[10]? = some 'T' ∨ a[10]? = some ' ') ∧
      ∀ f ∈ stampFields, ∃ n, parseFieldChars f.signed ((a.take f.hi).drop f.lo) = some n ∧
        f.min ≤ n ∧ n ≤ f.max := by
  have hwithin : charsWithin 19 (a ++ r) = a ++ charsWithin 0 r := by
    rw [← charsWithin_append ha 0 r, hlength]
  have hsep : HasSeparator (a ++ r) ↔ a[10]? = some 'T' ∨ a[10]? = some ' ' := by
    rw [HasSeparator, hwithin, List.getElem?_append_left (by omega)]
  have hbytes := utf8_ascii_append ha r
  unfold Accepts
  rw [hbytes, hsep]
  have hlong : 19 ≤ (a.map asciiByte ++ utf8 (String.ofList r)).length := by simp [hlength]
  have hwhole : isCharBoundary (a.map asciiByte ++ utf8 (String.ofList r)) 19 = true :=
    isCharBoundary_append r (by simp [hlength])
  dsimp only
  rw [and_iff_right hlong, and_iff_right hwhole]
  refine and_congr_right fun _ => forall₂_congr fun f hf => exists_congr fun n => ?_
  rw [reads_iff ha hlength hf]

/-- The character of a byte has its number. -/
theorem toNat_ofNat_byte : ∀ n < 256, (Char.ofNat n).toNat = n := by decide +kernel

theorem ascii_of_parseDigits {n : Nat}
    (h : Text.parseDigits (b.map fun x => Char.ofNat x.toNat) = some n) :
    ∀ x ∈ b, x.toNat < 128 := by
  obtain ⟨-, -, hdigits⟩ := parseDigits_eq_some_iff.mp h
  intro x hx
  have hmem : Char.ofNat x.toNat ∈ b.map fun x => Char.ofNat x.toNat := List.mem_map_of_mem hx
  rw [hdigits] at hmem
  have hdigit := Text.isDigit_iff.mp (isDigit_of_mem_digits hmem)
  have hbyte := x.toNat_lt
  rw [toNat_ofNat_byte _ hbyte] at hdigit
  omega

/-- The bytes that are parsed are ASCII. -/
theorem ascii_of_parseField {signed : Bool} {n : Int} (h : parseField signed b = some n) :
    ∀ x ∈ b, x.toNat < 128 := by
  have hmap : ∀ {f : Nat → Int} {b : Bytes},
      (Text.parseDigits (b.map fun x => Char.ofNat x.toNat)).map f = some n →
        ∀ x ∈ b, x.toNat < 128 := by
    intro f b hb
    obtain ⟨m, hm, -⟩ := Option.map_eq_some_iff.mp hb
    exact ascii_of_parseDigits hm
  unfold parseField at h
  dsimp only at h
  split at h
  · next ds =>
      rw [List.forall_mem_cons]
      exact ⟨by decide, hmap h⟩
  · next ds =>
      rw [List.forall_mem_cons]
      split at h
      · cases hm : Text.parseDigits (ds.map fun x => Char.ofNat x.toNat) with
        | none => rw [hm] at h; contradiction
        | some m => exact ⟨by decide, ascii_of_parseDigits hm⟩
      · contradiction
  · exact hmap h

/-- What is accepted begins with 19 ASCII characters. -/
theorem exists_front (h : Accepts t) :
    ∃ a r, t = a ++ r ∧ a.length = 19 ∧ ∀ c ∈ a, c.toNat < 128 := by
  obtain ⟨hlong, -, -, hfields⟩ := h
  have hfront : ∀ c ∈ t.takeWhile fun c : Char => decide (c.toNat < 128), c.toNat < 128 :=
    fun c hc => of_decide_eq_true
      (List.mem_takeWhile_imp (p := fun c : Char => decide (c.toNat < 128)) hc)
  have hsplit := List.takeWhile_append_dropWhile (p := fun c : Char => decide (c.toNat < 128))
    (l := t)
  have hstop := List.head?_dropWhile_not (fun c : Char => decide (c.toNat < 128)) t
  generalize t.takeWhile (fun c : Char => decide (c.toNat < 128)) = a at hfront hsplit
  generalize t.dropWhile (fun c : Char => decide (c.toNat < 128)) = r at hsplit hstop
  by_cases hlength : 19 ≤ a.length
  · refine ⟨a.take 19, a.drop 19 ++ r, ?_, by simp [hlength], fun c hc => ?_⟩
    · rw [← List.append_assoc, List.take_append_drop, hsplit]
    · exact hfront c (List.mem_of_mem_take hc)
  · exfalso
    rw [← hsplit, utf8_ascii_append hfront] at hlong hfields
    cases r with
    | nil =>
        rw [utf8_ofList, List.flatMap_nil, List.append_nil, List.length_map] at hlong
        exact hlength hlong
    | cons c r =>
        have hc : 128 ≤ c.toNat := by simpa using hstop
        obtain ⟨x, y, rest, hbytes, hx, hy, hy'⟩ := utf8EncodeChar_of_not_ascii hc
        have hmore : utf8 (String.ofList (c :: r)) =
            x :: y :: (rest ++ r.flatMap String.utf8EncodeChar) := by
          rw [utf8_ofList, List.flatMap_cons, hbytes]
          rfl
        rw [hmore] at hfields
        generalize rest ++ r.flatMap String.utf8EncodeChar = more at hfields
        -- the first character beyond ASCII is in a field, or in front of one
        obtain ⟨f, hf, hcover⟩ := stampFields_cover a.length (Nat.not_le.mp hlength)
        obtain ⟨n, ⟨hlo, -, hparse⟩, -⟩ := hfields f hf
        rcases hcover with hbehind | ⟨hlow, hhigh⟩
        · have hget : (a.map asciiByte ++ x :: y :: more)[f.lo]? = some y := by
            rw [hbehind, List.getElem?_append_right (by simp)]
            simp
          rw [isCharBoundary_of_getElem? hget] at hlo
          omega
        · have hget :
            (((a.map asciiByte ++ x :: y :: more).take f.hi).drop f.lo)[a.length - f.lo]? =
              some x := by
            rw [List.getElem?_drop, List.getElem?_take, Nat.add_sub_cancel' hlow, if_pos hhigh,
              List.getElem?_append_right (by simp)]
            simp
          have hascii := ascii_of_parseField hparse x (List.mem_of_getElem? hget)
          omega

end Layouts

/-- The lengths of the fields. -/
structure LayoutLengths (y mo d h mi se : List Char) : Prop where
  year : y.length = 4
  month : mo.length = 2
  day : d.length = 2
  hour : h.length = 2
  minute : mi.length = 2
  second : se.length = 2

/-- What the validator checks of a field. -/
def InRange (signed : Bool) (l : List Char) (min max : Int) : Prop :=
  ∃ n, parseFieldChars signed l = some n ∧ min ≤ n ∧ n ≤ max

section Layouts

variable {a r t y mo d h mi se : List Char} {m4 m7 m10 m13 m16 : Char}

/-- The slices of a text in the layout are its six fields. -/
theorem slices_layout (hl : LayoutLengths y mo d h mi se) :
    let a := layout y m4 mo m7 d m10 h m13 mi m16 se
    a.length = 19 ∧ a[10]? = some m10 ∧ (a.take 4).drop 0 = y ∧ (a.take 7).drop 5 = mo ∧
      (a.take 10).drop 8 = d ∧ (a.take 13).drop 11 = h ∧ (a.take 16).drop 14 = mi ∧
      (a.take 19).drop 17 = se := by
  obtain ⟨hy, hmo, hd, hh, hmi, hse⟩ := hl
  obtain ⟨y, ys, rfl⟩ := List.exists_cons_of_length_eq_add_one hy
  obtain ⟨y₁, y₂, y₃, rfl⟩ := List.length_eq_three.mp (Nat.succ.inj hy)
  obtain ⟨mo, mo', rfl⟩ := List.length_eq_two.mp hmo
  obtain ⟨d, d', rfl⟩ := List.length_eq_two.mp hd
  obtain ⟨h, h', rfl⟩ := List.length_eq_two.mp hh
  obtain ⟨mi, mi', rfl⟩ := List.length_eq_two.mp hmi
  obtain ⟨se, se', rfl⟩ := List.length_eq_two.mp hse
  exact ⟨rfl, rfl, rfl, rfl, rfl, rfl, rfl, rfl⟩

/-- The validator reads the fields, one by one. -/
theorem accepts_layout_iff (hl : LayoutLengths y mo d h mi se)
    (hascii : ∀ c ∈ layout y m4 mo m7 d m10 h m13 mi m16 se, c.toNat < 128) :
    Accepts (layout y m4 mo m7 d m10 h m13 mi m16 se ++ r) ↔ (m10 = 'T' ∨ m10 = ' ') ∧
      InRange true y 1970 2100 ∧ InRange false mo 1 12 ∧ InRange false d 1 31 ∧
      InRange false h 0 23 ∧ InRange false mi 0 59 ∧ InRange false se 0 59 := by
  obtain ⟨hlength, hsep, hyear, hmonth, hday, hhour, hminute, hsecond⟩ :=
    @slices_layout y mo d h mi se m4 m7 m10 m13 m16 hl
  rw [accepts_append_iff hascii hlength, hsep, Option.some.injEq, Option.some.injEq]
  simp only [stampFields, List.forall_mem_cons, hyear, hmonth, hday, hhour, hminute, hsecond]
  simp [InRange]

/-- What is 19 characters long is laid out. -/
theorem exists_layout (hlength : a.length = 19) : ∃ y m4 mo m7 d m10 h m13 mi m16 se,
    a = layout y m4 mo m7 d m10 h m13 mi m16 se ∧ LayoutLengths y mo d h mi se := by
  obtain ⟨y, m4, a, rfl, hy, ha⟩ := exists_append_cons 4 14 hlength
  obtain ⟨mo, m7, a, rfl, hmo, ha⟩ := exists_append_cons 2 11 ha
  obtain ⟨d, m10, a, rfl, hd, ha⟩ := exists_append_cons 2 8 ha
  obtain ⟨h, m13, a, rfl, hh, ha⟩ := exists_append_cons 2 5 ha
  obtain ⟨mi, m16, se, rfl, hmi, hse⟩ := exists_append_cons 2 2 ha
  exact ⟨y, m4, mo, m7, d, m10, h, m13, mi, m16, se, rfl, hy, hmo, hd, hh, hmi, hse⟩

end Layouts

/-- How a text can be read as a time, if signs, marks and the rest do not count. -/
structure Reading where
  year : Nat
  month : Pair
  day : Pair
  hour : Pair
  minute : Pair
  second : Pair
  mark4 : Char
  mark7 : Char
  mark10 : Char
  mark13 : Char
  mark16 : Char
  rest : List Char

namespace Reading

/-- The first 19 characters. -/
def front (r : Reading) : List Char :=
  layout (digits 4 r.year) r.mark4 r.month.text r.mark7 r.day.text r.mark10 r.hour.text r.mark13
    r.minute.text r.mark16 r.second.text

def text (r : Reading) : List Char := r.front ++ r.rest

/-- The numbers are in range, the marks take one byte each, and the one in the middle is a `T` or a
space. -/
structure Valid (r : Reading) : Prop where
  year : 1970 ≤ r.year ∧ r.year ≤ 2100
  month : 1 ≤ r.month.value ∧ r.month.value ≤ 12
  day : 1 ≤ r.day.value ∧ r.day.value ≤ 31
  hour : r.hour.value ≤ 23
  minute : r.minute.value ≤ 59
  second : r.second.value ≤ 59
  separator : r.mark10 = 'T' ∨ r.mark10 = ' '
  marks : ∀ c ∈ [r.mark4, r.mark7, r.mark13, r.mark16], c.toNat < 128

/-- What the validator does not check: no number has a sign, the marks are the right ones, the
day exists in its month, and nothing but a zone follows. -/
structure Proper (r : Reading) : Prop where
  unsigned : ∀ p ∈ [r.month, r.day, r.hour, r.minute, r.second], p.plus = false
  dashes : r.mark4 = '-' ∧ r.mark7 = '-'
  colons : r.mark13 = ':' ∧ r.mark16 = ':'
  exists_day : r.day.value ≤ daysInMonth r.year r.month.value
  zone : ∃ zone : Zone, r.rest = zone.text

end Reading

section Readings

variable {t : List Char} {r : Reading}

theorem Pair.length_text (p : Pair) : p.text.length = 2 := by
  unfold Pair.text
  split <;> simp

/-- A pair is ASCII. -/
theorem Pair.ascii_text (p : Pair) : ∀ c ∈ p.text, c.toNat < 128 := by
  have hdigits : ∀ {w n : Nat}, ∀ c ∈ digits w n, c.toNat < 128 := by
    intro w n c hc
    have hdigit := Text.isDigit_iff.mp (isDigit_of_mem_digits hc)
    omega
  unfold Pair.text
  split
  · rw [List.forall_mem_cons]
    exact ⟨by decide, hdigits⟩
  · exact hdigits

/-- Two characters are in a range exactly if they are a pair whose value is. -/
theorem inRange_pair_iff {l : List Char} (hl : l.length = 2) (min max : Nat) :
    InRange false l min max ↔ ∃ p : Pair, p.text = l ∧ min ≤ p.value ∧ p.value ≤ max := by
  obtain ⟨c, c', rfl⟩ := List.length_eq_two.mp hl
  simp only [InRange, parseFieldChars_pair]
  constructor
  · rintro ⟨n, ⟨p, rfl, htext⟩, hmin, hmax⟩
    exact ⟨p, htext, by omega, by omega⟩
  · rintro ⟨p, htext, hmin, hmax⟩
    exact ⟨p.value, ⟨p, rfl, htext⟩, by omega, by omega⟩

/-- The fields of a reading have the lengths of the layout. -/
theorem Reading.lengths (r : Reading) : LayoutLengths (digits 4 r.year) r.month.text r.day.text
    r.hour.text r.minute.text r.second.text :=
  ⟨length_digits _ _, r.month.length_text, r.day.length_text, r.hour.length_text,
    r.minute.length_text, r.second.length_text⟩

/-- Up to its zone a reading is ASCII. -/
theorem Reading.ascii_front (hr : r.Valid) : ∀ c ∈ r.front, c.toNat < 128 := by
  have hsep : r.mark10.toNat < 128 := by
    rcases hr.separator with h | h <;> rw [h] <;> decide
  have hyear : ∀ c ∈ digits 4 r.year, c.toNat < 128 := by
    intro c hc
    have hdigit := Text.isDigit_iff.mp (isDigit_of_mem_digits hc)
    omega
  have hmarks := hr.marks
  simp only [List.forall_mem_cons] at hmarks
  obtain ⟨h4, h7, h13, h16, -⟩ := hmarks
  simp only [Reading.front, layout, List.forall_mem_append, List.forall_mem_cons]
  exact ⟨hyear, h4, r.month.ascii_text, h7, r.day.ascii_text, hsep, r.hour.ascii_text, h13,
    r.minute.ascii_text, h16, r.second.ascii_text⟩

/-- Four characters are a year in the range exactly if they are its digits. -/
theorem inRange_year_iff {l : List Char} (hl : l.length = 4) :
    InRange true l 1970 2100 ↔ ∃ y, 1970 ≤ y ∧ y ≤ 2100 ∧ l = digits 4 y :=
  parseFieldChars_year hl

/-- The validator accepts exactly what can be read so. -/
theorem accepts_iff : Accepts t ↔ ∃ r : Reading, r.Valid ∧ t = r.text := by
  constructor
  · intro h
    obtain ⟨a, rest, rfl, hlength, hascii⟩ := exists_front h
    obtain ⟨y, m4, mo, m7, d, m10, ho, m13, mi, m16, se, rfl, hl⟩ := exists_layout hlength
    obtain ⟨hsep, hyear, hmonth, hday, hhour, hminute, hsecond⟩ :=
      (accepts_layout_iff hl hascii).mp h
    obtain ⟨year, hlow, hhigh, rfl⟩ := (inRange_year_iff hl.year).mp hyear
    obtain ⟨month, rfl, hmo⟩ := (inRange_pair_iff hl.month 1 12).mp hmonth
    obtain ⟨day, rfl, hd⟩ := (inRange_pair_iff hl.day 1 31).mp hday
    obtain ⟨hour, rfl, -, hh⟩ := (inRange_pair_iff hl.hour 0 23).mp hhour
    obtain ⟨minute, rfl, -, hmi⟩ :=
      (inRange_pair_iff hl.minute 0 59).mp hminute
    obtain ⟨second, rfl, -, hse⟩ :=
      (inRange_pair_iff hl.second 0 59).mp hsecond
    refine ⟨⟨year, month, day, hour, minute, second, m4, m7, m10, m13, m16, rest⟩,
      ⟨⟨hlow, hhigh⟩, hmo, hd, hh, hmi, hse, hsep, fun c hc => hascii c ?_⟩, rfl⟩
    simp only [List.mem_cons, List.not_mem_nil, or_false] at hc
    rcases hc with rfl | rfl | rfl | rfl <;> simp [layout]
  · rintro ⟨r, hr, rfl⟩
    refine (accepts_layout_iff r.lengths (Reading.ascii_front hr)).mpr
      ⟨hr.separator, ?_, ?_, ?_, ?_, ?_, ?_⟩
    · exact (inRange_year_iff r.lengths.year).mpr ⟨r.year, hr.year.1, hr.year.2, rfl⟩
    · exact (inRange_pair_iff r.lengths.month 1 12).mpr ⟨r.month, rfl, hr.month⟩
    · exact (inRange_pair_iff r.lengths.day 1 31).mpr ⟨r.day, rfl, hr.day⟩
    · exact (inRange_pair_iff r.lengths.hour 0 23).mpr ⟨r.hour, rfl, Nat.zero_le _, hr.hour⟩
    · exact (inRange_pair_iff r.lengths.minute 0 59).mpr ⟨r.minute, rfl, Nat.zero_le _, hr.minute⟩
    · exact (inRange_pair_iff r.lengths.second 0 59).mpr ⟨r.second, rfl, Nat.zero_le _, hr.second⟩

/-- A pair is known by its text. -/
theorem Pair.text_inj {p q : Pair} (h : p.text = q.text) : p = q := by
  obtain ⟨plus, value, hlt⟩ := p
  obtain ⟨plus', value', hlt'⟩ := q
  cases plus with
  | true =>
      cases plus' with
      | true =>
          obtain rfl := (digits_inj (w := 1) hlt hlt').mp (List.cons.inj h).2
          rfl
      | false => exact absurd h.symm (digits_ne_cons rfl _)
  | false =>
      cases plus' with
      | true => exact absurd h (digits_ne_cons rfl _)
      | false =>
          obtain rfl := (digits_inj (w := 2) hlt hlt').mp h
          rfl

/-- There is only one way to read a text. -/
theorem Reading.text_inj {r r' : Reading} (hr : r.Valid) (hr' : r'.Valid) (h : r.text = r'.text) :
    r = r' := by
  obtain ⟨hfront, hrest⟩ := List.append_inj h
    ((slices_layout r.lengths).1.trans (slices_layout r'.lengths).1.symm)
  obtain ⟨hyear, htail⟩ := List.append_inj hfront (by simp)
  obtain ⟨h4, htail⟩ := List.cons.inj htail
  obtain ⟨hmonth, htail⟩ := List.append_inj htail (by simp [Pair.length_text])
  obtain ⟨h7, htail⟩ := List.cons.inj htail
  obtain ⟨hday, htail⟩ := List.append_inj htail (by simp [Pair.length_text])
  obtain ⟨h10, htail⟩ := List.cons.inj htail
  obtain ⟨hhour, htail⟩ := List.append_inj htail (by simp [Pair.length_text])
  obtain ⟨h13, htail⟩ := List.cons.inj htail
  obtain ⟨hminute, htail⟩ := List.append_inj htail (by simp [Pair.length_text])
  obtain ⟨h16, hsecond⟩ := List.cons.inj htail
  have hyears : ∀ {r : Reading}, r.Valid → r.year < 10 ^ 4 := by
    intro r hr
    have hhigh := hr.year.2
    omega
  have hyear := (digits_inj (hyears hr) (hyears hr')).mp hyear
  have hmonth := Pair.text_inj hmonth
  have hday := Pair.text_inj hday
  have hhour := Pair.text_inj hhour
  have hminute := Pair.text_inj hminute
  have hsecond := Pair.text_inj hsecond
  cases r
  cases r'
  dsimp only at *
  subst hyear hmonth hday hhour hminute hsecond h4 h7 h10 h13 h16 hrest
  rfl

/-- A number of two digits. -/
def Pair.plain (n : Nat) (h : n < 100) : Pair := ⟨false, n, h⟩

/-- How a timestamp is read. -/
def Reading.ofStamp (stamp : Stamp) (sep : Char) (zone : Zone) : Reading where
  year := stamp.date.year
  month := .plain stamp.date.month (by have := stamp.date.month_le; omega)
  day := .plain stamp.date.day (Stamp.day_lt_hundred stamp.date)
  hour := .plain stamp.time.hour (by have := stamp.time.hour_lt; omega)
  minute := .plain stamp.time.minute (by have := stamp.time.minute_lt; omega)
  second := .plain stamp.time.second (by have := stamp.time.second_lt; omega)
  mark4 := '-'
  mark7 := '-'
  mark10 := sep
  mark13 := ':'
  mark16 := ':'
  rest := zone.text

section OfStamp

variable {stamp : Stamp} {sep : Char} {zone : Zone}

/-- A stamp within the years, in either documented form, is a valid reading. -/
theorem Reading.valid_ofStamp (hlow : 1970 ≤ stamp.date.year) (hhigh : stamp.date.year ≤ 2100)
    (hsep : sep = 'T' ∨ sep = ' ') : (Reading.ofStamp stamp sep zone).Valid where
  year := ⟨hlow, hhigh⟩
  month := ⟨stamp.date.month_pos, stamp.date.month_le⟩
  day := ⟨stamp.date.day_pos, stamp.date.day_le.trans (daysInMonth_le _ _)⟩
  hour := Nat.le_of_lt_succ stamp.time.hour_lt
  minute := Nat.le_of_lt_succ stamp.time.minute_lt
  second := Nat.le_of_lt_succ stamp.time.second_lt
  separator := hsep
  marks := by simp [Reading.ofStamp]

/-- The fields of a stamp are plain digits. -/
theorem Reading.proper_ofStamp : (Reading.ofStamp stamp sep zone).Proper where
  unsigned := by simp [Reading.ofStamp, Pair.plain]
  dashes := ⟨rfl, rfl⟩
  colons := ⟨rfl, rfl⟩
  exists_day := stamp.date.day_le
  zone := ⟨zone, rfl⟩

theorem Reading.text_ofStamp :
    (Reading.ofStamp stamp sep zone).text = stamp.text sep ++ zone.text := by
  simp [Stamp.text, Stamp.dateText, Stamp.timeText, Reading.text, Reading.front, layout,
    Pair.text, Reading.ofStamp, Pair.plain]

end OfStamp

/-- The timestamps are the texts with a proper reading. -/
theorem isTimestamp_iff : IsTimestamp t ↔ ∃ r : Reading, r.Valid ∧ r.Proper ∧ t = r.text := by
  constructor
  · rintro ⟨stamp, sep, zone, hlow, hhigh, hsep, rfl⟩
    exact ⟨Reading.ofStamp stamp sep zone, Reading.valid_ofStamp hlow hhigh hsep,
      Reading.proper_ofStamp, Reading.text_ofStamp.symm⟩
  · rintro ⟨r, hr, hproper, rfl⟩
    obtain ⟨zone, hzone⟩ := hproper.zone
    have hunsigned := hproper.unsigned
    simp only [List.forall_mem_cons] at hunsigned
    obtain ⟨hmonth, hday, hhour, hminute, hsecond, -⟩ := hunsigned
    have h23 := hr.hour
    have h59 := hr.minute
    have h59' := hr.second
    refine ⟨⟨⟨r.year, r.month.value, r.day.value, hr.month.1, hr.month.2, hr.day.1,
      hproper.exists_day⟩, ⟨r.hour.value, r.minute.value, r.second.value, by omega, by omega,
      by omega⟩⟩, r.mark10, zone, hr.year.1, hr.year.2, hr.separator, ?_⟩
    simp [Stamp.text, Stamp.dateText, Stamp.timeText, Reading.text, Reading.front, layout,
      Pair.text, hmonth, hday, hhour, hminute, hsecond, hproper.dashes, hproper.colons, hzone]

end Readings

/-- When the validator is what its documentation says.  It does not panic, and it accepts exactly
the timestamps, if and only if it cuts no character of the trimmed text and, where this can be
read as a time, the reading has no signs, the right marks, a day that exists in its month and
nothing behind it but a zone. -/
theorem validateExpiresAtTimestamp_iff (s : String) :
    (validateExpiresAtTimestamp s ≠ .error .panicked ∧
      (validateExpiresAtTimestamp s = .ok () ↔ IsTimestamp (Text.trim s).toList)) ↔
    ¬ CutsCharacter (Text.trim s).toList ∧
      ∀ r : Reading, r.Valid → (Text.trim s).toList = r.text → r.Proper := by
  rw [Ne, validateExpiresAtTimestamp_eq_panicked, validateExpiresAtTimestamp_eq_ok, accepts_iff,
    isTimestamp_iff]
  refine and_congr_right fun _ => ⟨fun h r hr htext => ?_, fun h => ⟨?_, ?_⟩⟩
  · obtain ⟨r', hr', hproper, htext'⟩ := h.mp ⟨r, hr, htext⟩
    obtain rfl := Reading.text_inj hr hr' (htext.symm.trans htext')
    exact hproper
  · rintro ⟨r, hr, htext⟩
    exact ⟨r, hr, h r hr htext, htext⟩
  · rintro ⟨r, hr, -, htext⟩
    exact ⟨r, hr, htext⟩

/-- The 19th byte of this text is the first of the two for `é`. -/
theorem validateExpiresAtTimestamp_panics :
    ¬ ∀ s : String, validateExpiresAtTimestamp s ≠ .error .panicked ∧
      (validateExpiresAtTimestamp s = .ok () ↔ IsTimestamp (Text.trim s).toList) := by
  intro h
  exact (h "2024-12-31 23:59:5é").1 (by decide)

end Deltaship
