import Deltaship.Client.Checker
import Deltaship.Crypto.HexText

/-!
# Deltaship.Client.PathSegment

Names in the addresses that the client asks.

`url_encode_path_segment` writes unreserved characters as they are and the bytes of all others as
triplets, so percent-decoding gives the name back (`percentDecode_urlEncodePathSegment`).  Names
that are made of dots are not encoded, but removing dot segments does not identify their addresses
either (`checkPath_injective`).
-/

namespace Deltaship

/-! ## percent-encoding -/

/-- The unreserved characters of RFC 3986. -/
def isUnreserved (c : Char) : Bool :=
  c.isAlpha || c.isDigit || c == '-' || c == '.' || c == '_' || c == '~'

/-- An upper-case hexadecimal digit. -/
def isUpperHex (c : Char) : Bool := c.isDigit || (65 ≤ c.toNat && c.toNat ≤ 70)

/-- A text of unreserved characters and of triplets. -/
inductive PercentText : List Char → Prop
  | nil : PercentText []
  | unreserved {c : Char} {l : List Char} : isUnreserved c = true → PercentText l →
      PercentText (c :: l)
  | triplet {a b : Char} {l : List Char} : isUpperHex a = true → isUpperHex b = true →
      PercentText l → PercentText ('%' :: a :: b :: l)

/-- Percent-decoding: a percent sign and two hexadecimal digits stand for a byte. -/
def percentDecode : Bytes → Bytes
  | x :: a :: b :: rest =>
    if x = 37 then
      match strictHexByte a b with
      | some y => y :: percentDecode rest
      | none => x :: percentDecode (a :: b :: rest)
    else x :: percentDecode (a :: b :: rest)
  | rest => rest

section Percent

variable {c : Char} {l l' : List Char}

/-- A byte that is no percent sign stands for itself. -/
theorem percentDecode_cons_of_ne {x : UInt8} (h : x ≠ 37) (rest : Bytes) :
    percentDecode (x :: rest) = x :: percentDecode rest := by
  match rest with
  | [] => rfl
  | [_] => rfl
  | _ :: _ :: _ => rw [percentDecode, if_neg h]

/-- A triplet stands for the byte of its two digits. -/
theorem percentDecode_triplet {a b x : UInt8} (h : strictHexByte a b = some x) (rest : Bytes) :
    percentDecode (37 :: a :: b :: rest) = x :: percentDecode rest := by
  rw [percentDecode, if_pos rfl, h]

/-- An upper case digit is read as its value. -/
theorem hexDigit_upperHexDigit : ∀ n < 16,
    hexDigit (UInt8.ofNat (upperHexDigit n).toNat) = some (UInt8.ofNat n) := by decide

theorem isUpperHex_upperHexDigit : ∀ n < 16, isUpperHex (upperHexDigit n) = true := by decide

theorem upperHexDigit_ascii : ∀ n < 16, (upperHexDigit n).toNat < 128 := by decide

/-- An unreserved character is ASCII, and neither a percent sign nor a slash. -/
theorem ascii_of_isUnreserved (h : isUnreserved c = true) :
    c.toNat < 128 ∧ c ≠ '%' ∧ c ≠ '/' := by
  refine ⟨?_, by rintro rfl; contradiction, by rintro rfl; contradiction⟩
  simp only [isUnreserved, Bool.or_eq_true, Text.isAlpha_iff, Text.isDigit_iff, beq_iff_eq] at h
  rcases h with ((((h | h) | rfl) | rfl) | rfl) | rfl
  · omega
  · omega
  all_goals decide

/-- The triplet of a byte. -/
def triplet (x : UInt8) : List Char :=
  ['%', upperHexDigit (x.toNat / 16), upperHexDigit (x.toNat % 16)]

/-- The byte of a triplet. -/
theorem strictHexByte_triplet (x : UInt8) :
    strictHexByte (UInt8.ofNat (upperHexDigit (x.toNat / 16)).toNat)
      (UInt8.ofNat (upperHexDigit (x.toNat % 16)).toNat) = some x := by
  have hx := x.toNat_lt
  rw [strictHexByte, hexDigit_upperHexDigit _ (by omega), hexDigit_upperHexDigit _ (by omega)]
  refine congrArg some (UInt8.toNat_inj.mp ?_)
  simp only [UInt8.toNat_add, UInt8.toNat_mul, UInt8.toNat_ofNat', UInt8.reduceToNat]
  omega

/-- What is written for a character. -/
def encodedChar (c : Char) : List Char :=
  if isUnreserved c then [c] else (String.utf8EncodeChar c).flatMap triplet

theorem toList_urlEncodePathSegment (s : String) :
    (urlEncodePathSegment s).toList = s.toList.flatMap encodedChar := by
  rw [urlEncodePathSegment, String.toList_ofList]
  refine List.flatMap_congr fun c _ => ?_
  have hsame : (isAsciiAlphanumeric c || c == '-' || c == '_' || c == '.' || c == '~') =
      isUnreserved c := by
    rw [isAsciiAlphanumeric, isUnreserved]
    grind
  rw [hsame, encodedChar, String.singleton_eq_ofList, utf8_ofList, List.flatMap_singleton]
  rfl

/-! ## what is written -/

/-- Triplets may stand in front of encoded text. -/
theorem percentText_triplets (b : Bytes) (h : PercentText l) :
    PercentText (b.flatMap triplet ++ l) := by
  induction b with
  | nil => exact h
  | cons x b ih =>
      have hx := x.toNat_lt
      exact .triplet (isUpperHex_upperHexDigit _ (by omega)) (isUpperHex_upperHexDigit _ (by omega))
        ih

/-- So may any character that is encoded. -/
theorem percentText_encodedChar (c : Char) (h : PercentText l) :
    PercentText (encodedChar c ++ l) := by
  unfold encodedChar
  split
  · next hc => exact .unreserved hc h
  · exact percentText_triplets _ h

/-- So what is encoded is a sequence of plain characters and triplets. -/
theorem percentText_urlEncodePathSegment (s : String) :
    PercentText (urlEncodePathSegment s).toList := by
  rw [toList_urlEncodePathSegment]
  induction s.toList with
  | nil => exact .nil
  | cons c l ih => exact percentText_encodedChar c ih

/-- Such a text is ASCII without a slash. -/
theorem PercentText.ascii (h : PercentText l) : ∀ c ∈ l, c.toNat < 128 ∧ c ≠ '/' := by
  induction h with
  | nil => simp
  | unreserved hc _ ih =>
      have hascii := ascii_of_isUnreserved hc
      exact List.forall_mem_cons.mpr ⟨⟨hascii.1, hascii.2.2⟩, ih⟩
  | triplet ha hb _ ih =>
      have hhex : ∀ c : Char, isUpperHex c = true → c.toNat < 128 ∧ c ≠ '/' := by
        intro c hc
        refine ⟨?_, by rintro rfl; contradiction⟩
        simp only [isUpperHex, Bool.or_eq_true, Text.isDigit_iff, Bool.and_eq_true,
          decide_eq_true_eq] at hc
        omega
      exact List.forall_mem_cons.mpr ⟨by decide, List.forall_mem_cons.mpr ⟨hhex _ ha,
        List.forall_mem_cons.mpr ⟨hhex _ hb, ih⟩⟩⟩

/-! ## what is read -/

theorem percentDecode_triplets (b rest : Bytes) :
    percentDecode ((b.flatMap triplet).flatMap String.utf8EncodeChar ++ rest) =
      b ++ percentDecode rest := by
  induction b with
  | nil => rfl
  | cons x b ih =>
      have hx := x.toNat_lt
      rw [List.flatMap_cons, List.flatMap_append, List.append_assoc]
      simp only [triplet, List.flatMap_cons, List.flatMap_nil, List.append_nil,
        utf8EncodeChar_of_isAscii (upperHexDigit_ascii (x.toNat / 16) (by omega)),
        utf8EncodeChar_of_isAscii (upperHexDigit_ascii (x.toNat % 16) (by omega)),
        utf8EncodeChar_of_isAscii (c := '%') (by decide), List.cons_append, List.nil_append]
      exact (percentDecode_triplet (strictHexByte_triplet x) _).trans (congrArg _ ih)

/-- A character that was encoded is decoded to its bytes. -/
theorem percentDecode_encodedChar (c : Char) (rest : Bytes) :
    percentDecode ((encodedChar c).flatMap String.utf8EncodeChar ++ rest) =
      String.utf8EncodeChar c ++ percentDecode rest := by
  unfold encodedChar
  split
  · next hc =>
      have hascii := ascii_of_isUnreserved hc
      rw [List.flatMap_singleton, utf8EncodeChar_of_isAscii hascii.1]
      refine percentDecode_cons_of_ne (fun h => hascii.2.1 (Char.toNat_inj.mp ?_)) rest
      have hnat := congrArg UInt8.toNat h
      rw [UInt8.toNat_ofNat_of_lt' (Nat.lt_of_lt_of_le hascii.1 (by decide))] at hnat
      exact hnat
  · exact percentDecode_triplets _ rest

/-- Decoding gives the bytes of the name back. -/
theorem percentDecode_urlEncodePathSegment (s : String) :
    percentDecode (utf8 (urlEncodePathSegment s)) = utf8 s := by
  have hname := utf8_ofList s.toList
  rw [String.ofList_toList] at hname
  have henc := utf8_ofList (urlEncodePathSegment s).toList
  rw [String.ofList_toList, toList_urlEncodePathSegment] at henc
  rw [hname, henc]
  induction s.toList with
  | nil => rfl
  | cons c l ih =>
      rw [List.flatMap_cons, List.flatMap_append, percentDecode_encodedChar, List.flatMap_cons, ih]

/-- Names are written differently. -/
theorem urlEncodePathSegment_injective : Function.Injective urlEncodePathSegment := by
  intro s t h
  have hdecode := percentDecode_urlEncodePathSegment s
  rw [h, percentDecode_urlEncodePathSegment] at hdecode
  exact (utf8_inj hdecode).symm

end Percent

/-! ## addresses -/

/-- The address of an update check of an application. -/
def checkUrl (base name : String) : String :=
  s!"{base}/api/v1/apps/{urlEncodePathSegment name}/check-update"

/-- An update check asks at the address of the binary's name. -/
theorem checkForUpdates_eq (X : Crates) (e : Env) (binary : ManagedBinary) :
    checkForUpdates X e binary = checkLoop X e binary
      (checkUrl (trimEndSlashes e.config.serverUrl) binary.binaryName) (List.range maxRetries) [] :=
  rfl

/-- Removing a dot segment, and with `..` the segment before it. -/
def pushSegment (path : List (List Char)) (segment : List Char) : List (List Char) :=
  if segment = ['.'] then path
  else if segment = ['.', '.'] then path.dropLast
  else path ++ [segment]

/-- The segments of an address, without dot segments. -/
def addressPath (url : String) : List (List Char) := (url.toList.splitOn '/').foldl pushSegment []

section Addresses

variable {base name : String}

/-- The encoded name is one component of that address. -/
theorem splitOn_checkUrl : (checkUrl base name).toList.splitOn '/' =
    base.toList.splitOn '/' ++ ["api".toList, "v1".toList, "apps".toList,
      (urlEncodePathSegment name).toList, "check-update".toList] := by
  have hslash : '/' ∉ (urlEncodePathSegment name).toList := fun h =>
    ((percentText_urlEncodePathSegment name).ascii _ h).2 rfl
  have htext : (checkUrl base name).toList = base.toList ++ '/' :: ("api".toList ++ '/' ::
      ("v1".toList ++ '/' :: ("apps".toList ++ '/' :: ((urlEncodePathSegment name).toList ++
        '/' :: "check-update".toList)))) := by
    simp [checkUrl, ToString.toString]
  simp only [htext, List.splitOn_append_cons_self, List.splitOn_eq_singleton hslash]
  rfl

/-- What the segment of a name makes of the path. -/
def nameSegments (segment : List Char) : List (List Char) :=
  if segment = ['.'] then ["apps".toList]
  else if segment = ['.', '.'] then []
  else ["apps".toList, segment]

theorem nameSegments_inj {a b : List Char} : nameSegments a = nameSegments b ↔ a = b := by
  refine ⟨fun h => ?_, congrArg nameSegments⟩
  unfold nameSegments at h
  split_ifs at h <;> simp_all

/-- The path of the address is that of the server, with the name encoded. -/
theorem addressPath_checkUrl : addressPath (checkUrl base name) =
    (base.toList.splitOn '/').foldl pushSegment [] ++ ["api".toList, "v1".toList] ++
      nameSegments (urlEncodePathSegment name).toList ++ ["check-update".toList] := by
  rw [addressPath, splitOn_checkUrl, List.foldl_append]
  generalize (base.toList.splitOn '/').foldl pushSegment [] = front
  have hplain : ∀ (path : List (List Char)) (segment : List Char), segment ≠ ['.'] →
      segment ≠ ['.', '.'] → pushSegment path segment = path ++ [segment] := fun _ _ h h' => by
    rw [pushSegment, if_neg h, if_neg h']
  simp only [List.foldl_cons, List.foldl_nil, hplain _ "api".toList (by simp) (by simp),
    hplain _ "v1".toList (by simp) (by simp), hplain _ "apps".toList (by simp) (by simp),
    hplain _ "check-update".toList (by simp) (by simp)]
  unfold pushSegment nameSegments
  split
  · simp
  · split <;> simp

/-- Distinct names have distinct addresses, also without dot segments. -/
theorem checkPath_injective (base : String) :
    Function.Injective fun name => addressPath (checkUrl base name) := by
  intro s t h
  simp only [addressPath_checkUrl, List.append_cancel_right_eq, List.append_cancel_left_eq,
    nameSegments_inj] at h
  exact urlEncodePathSegment_injective (String.toList_inj.mp h)

end Addresses

/-- The encoding is a percent-encoding that can be undone, and distinct names have distinct
addresses. -/
theorem urlEncodePathSegment_faithful :
    (∀ s, PercentText (urlEncodePathSegment s).toList) ∧
      (∀ s, percentDecode (utf8 (urlEncodePathSegment s)) = utf8 s) ∧
      Function.Injective urlEncodePathSegment ∧
      ∀ base, Function.Injective fun name => addressPath (checkUrl base name) :=
  ⟨percentText_urlEncodePathSegment, percentDecode_urlEncodePathSegment,
    urlEncodePathSegment_injective, checkPath_injective⟩

end Deltaship
