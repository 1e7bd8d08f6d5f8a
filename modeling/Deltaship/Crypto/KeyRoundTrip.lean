import Deltaship.Crypto.KeyFile

/-!
# Deltaship.Crypto.KeyRoundTrip

A key that was saved is loaded again.

The writer and the reader agree on the markers, on the labels of an encrypted key and on the
lines of hexadecimal digits; the reader takes a line without a label for digits, and no line of
digits has a label.
-/

namespace Deltaship

open Text

/-! ## digits -/

section Hex

variable {K : KeyFileCrates} {b : Bytes} {l : List Char} {c : Char}

theorem digit_of_mem_hexText (hc : c ∈ hexText b) : isAsciiHexdigit c = true :=
  (writesDigits_id.of_mem (by simpa using hc)).1

/-- No digit is white space, so nothing of a key is trimmed away. -/
theorem isWhitespace_of_digit (h : isAsciiHexdigit c = true) : isWhitespace c = false :=
  isWhitespace_of_printing (printing_of_isAsciiHexdigit h).1 (printing_of_isAsciiHexdigit h).2

/-- Every byte takes two digits. -/
theorem length_hexText (b : Bytes) : (hexText b).length = 2 * b.length := by
  induction b with
  | nil => rfl
  | cons x b ih =>
      simp only [hexText, List.flatMap_cons, List.length_append, List.length_cons,
        List.length_nil] at ih ⊢
      omega

/-- There is no white space to be taken out of it. -/
theorem filter_hexText (b : Bytes) : (hexText b).filter (fun c => !isWhitespace c) = hexText b :=
  List.filter_eq_self.mpr fun c hc => by simp [isWhitespace_of_digit (digit_of_mem_hexText hc)]

/-- White space between digits is ignored. -/
theorem decodeHexString_of_filter (hK : K.Lawful)
    (h : l.filter (fun c => !isWhitespace c) = hexText b) : decodeHexString K l = .ok b := by
  have hascii : ∀ c ∈ hexText b, c.toNat < 128 := fun c hc =>
    (printing_of_isAsciiHexdigit (digit_of_mem_hexText hc)).2.trans (by decide)
  have heven : (utf8 (String.ofList (hexText b))).length % 2 = 0 := by
    rw [utf8_ofList_of_ascii hascii, List.length_map, length_hexText]
    omega
  simp [decodeHexString, h, heven, hK.hexDecode_hexText, Except.mapError]

/-- The lines of a key, put together again, are its digits. -/
theorem flatten_chunks_hexText (b : Bytes) : (chunks 64 (hexText b)).flatten = hexText b :=
  flatten_chunks (by decide) _

/-- Without its line breaks, encoded key data is its digits. -/
theorem filter_encodeKeyData (b : Bytes) :
    (encodeKeyData b).filter (fun c => !isWhitespace c) = hexText b := by
  rw [encodeKeyData, filter_joinLines (by decide), flatten_chunks_hexText, filter_hexText]

/-- The bytes of a key have the right length. -/
theorem keyBytes_val (key : ByteVec 32) : keyBytes key.val = .ok key := by
  rw [keyBytes, ByteVec.tryInto_eq_some.mpr rfl]
  rfl

end Hex

/-! ## markers -/

/-- A text that trimming does not change, and that is not empty. -/
structure Trimmed (l : List Char) : Prop where
  head : ∀ c ∈ l.head?, isWhitespace c = false
  last : ∀ c ∈ l.getLast?, isWhitespace c = false
  ne_nil : l ≠ []

/-- A text that begins and ends in characters that are not white space is trimmed. -/
theorem Trimmed.of_ends {l : List Char} {a b : Char} (hhead : l.head? = some a)
    (hlast : l.getLast? = some b) (ha : isWhitespace a = false) (hb : isWhitespace b = false) :
    Trimmed l where
  head c hc := by
    rw [hhead] at hc
    exact Option.some.inj hc ▸ ha
  last c hc := by
    rw [hlast] at hc
    exact Option.some.inj hc ▸ hb
  ne_nil := by
    rintro rfl
    contradiction

/-- The line break at the end of a key file is white space. -/
theorem forall_mem_lf : ∀ c ∈ ['\n'], isWhitespace c = true :=
  List.forall_mem_singleton.mpr (by decide)

/-- A body between two markers. -/
def armored (header footer : String) (body : List Char) : List Char :=
  header.toList ++ '\n' :: (body ++ '\n' :: footer.toList)

section Markers

variable {header footer : String} {body : List Char}

/-- Trimming a key file takes away that line break and no more. -/
theorem trim_armored (hheader : Trimmed header.toList) (hfooter : Trimmed footer.toList) :
    trimMatches isWhitespace (armored header footer body ++ ['\n']) =
      armored header footer body := by
  have hfront : ∀ c ∈ (armored header footer body).head?, isWhitespace c = false := by
    intro c hc
    rw [armored, List.head?_append_of_ne_nil _ hheader.ne_nil] at hc
    exact hheader.head c hc
  have hback : ∀ c ∈ (armored header footer body).getLast?, isWhitespace c = false := by
    intro c hc
    have hsome := List.getLast?_eq_some_getLast hfooter.ne_nil
    simp only [armored, List.getLast?_append, List.getLast?_cons, hsome] at hc
    exact hfooter.last c (by simpa [hsome] using hc)
  rw [← List.nil_append (armored header footer body ++ _)]
  exact trimMatches_surround (by simp) forall_mem_lf hfront hback

/-- What stands between the markers is the body, trimmed. -/
theorem betweenMarkers_armored :
    betweenMarkers header footer (armored header footer body) =
      .ok (trimMatches isWhitespace body) := by
  have hsplit : '\n' :: (body ++ '\n' :: footer.toList) =
      '\n' :: (body ++ ['\n']) ++ footer.toList := by simp
  rw [betweenMarkers, armored, stripPrefix_append, Option.bind_some, hsplit, stripSuffix_append,
    Option.map_some, show '\n' :: (body ++ ['\n']) = ['\n'] ++ (body ++ ['\n']) from rfl,
    trimMatches_append_left forall_mem_lf, trimMatches_append_right forall_mem_lf]
  rfl

/-- Markers begin and end with dashes. -/
theorem trimmed_of_dashes {l : List Char} (hhead : l.head? = some '-')
    (hlast : l.getLast? = some '-') : Trimmed l :=
  .of_ends hhead hlast (by decide) (by decide)

/-- The markers of a signing key are not changed by trimming. -/
theorem trimmed_signingKey :
    Trimmed signingKeyHeader.toList ∧ Trimmed signingKeyFooter.toList :=
  ⟨trimmed_of_dashes (by simp [signingKeyHeader]) (by simp [signingKeyHeader]),
    trimmed_of_dashes (by simp [signingKeyFooter]) (by simp [signingKeyFooter])⟩

theorem trimmed_encryptedSigningKey :
    Trimmed encryptedSigningKeyHeader.toList ∧ Trimmed encryptedSigningKeyFooter.toList :=
  ⟨trimmed_of_dashes (by simp [encryptedSigningKeyHeader]) (by simp [encryptedSigningKeyHeader]),
    trimmed_of_dashes (by simp [encryptedSigningKeyFooter]) (by simp [encryptedSigningKeyFooter])⟩

theorem trimmed_verifyingKey :
    Trimmed verifyingKeyHeader.toList ∧ Trimmed verifyingKeyFooter.toList :=
  ⟨trimmed_of_dashes (by simp [verifyingKeyHeader]) (by simp [verifyingKeyHeader]),
    trimmed_of_dashes (by simp [verifyingKeyFooter]) (by simp [verifyingKeyFooter])⟩

end Markers

/-! ## plain keys -/

section Plain

variable {K : KeyFileCrates}

/-- Digits are decoded whatever is trimmed around them. -/
theorem decodeHexString_encodeKeyData (hK : K.Lawful) (b : Bytes) :
    decodeHexString K (trimMatches isWhitespace (encodeKeyData b)) = .ok b :=
  decodeHexString_of_filter hK (by rw [filter_trimMatches, filter_encodeKeyData])

/-- An unencrypted signing key is read back, whatever passphrase is given. -/
theorem signingKeyOf_plain (hK : K.Lawful) (key : SigningKeyBytes) (passphrase : Option String) :
    signingKeyOf K (armored signingKeyHeader signingKeyFooter (encodeKeyData key.val)) passphrase =
      .ok key := by
  have hnot : encryptedSigningKeyHeader.toList.isPrefixOf
      (armored signingKeyHeader signingKeyFooter (encodeKeyData key.val)) = false :=
    isPrefixOf_append_eq_false (by simp [encryptedSigningKeyHeader, signingKeyHeader])
      (by simp [encryptedSigningKeyHeader, signingKeyHeader]) _
  have hheader : signingKeyHeader.toList.isPrefixOf
      (armored signingKeyHeader signingKeyFooter (encodeKeyData key.val)) = true :=
    List.isPrefixOf_iff_prefix.mpr (List.prefix_append _ _)
  simp [signingKeyOf, hnot, hheader, betweenMarkers_armored, decodeHexString_encodeKeyData hK,
    keyBytes_val, bind, Except.bind]

theorem verifyingKeyOf_plain (hK : K.Lawful) {C : CryptoCrates} (key : VerifyingKey C) :
    verifyingKeyOf K C
      (armored verifyingKeyHeader verifyingKeyFooter (encodeKeyData key.bytes.val)) = .ok key := by
  have hkey : VerifyingKey.fromBytes C key.bytes = .ok key := dif_pos key.valid
  simp [verifyingKeyOf, betweenMarkers_armored, decodeHexString_encodeKeyData hK, keyBytes_val,
    hkey, bind, Except.bind, Except.mapError]

end Plain

/-! ## encrypted keys -/

/- An encrypted key is written in labelled lines of hexadecimal digits, and the digits of the
ciphertext are broken into lines. The reader trims and joins the lines, so that what matters is only
which digits follow which label. -/

/-- The lines of the ciphertext, the first one with its label. -/
def ciphertextLines : List (List Char) → List (List Char)
  | [] => ["ciphertext:".toList]
  | c :: cs => ("ciphertext: ".toList ++ c) :: cs

/-- The lines of an encrypted key. -/
def keyLines (level : SecurityLevel) (salt : ByteVec 16) (nonce : ByteVec 12) (ciphertext : Bytes) :
    List (List Char) :=
  "version: 1".toList :: ("security_level: ".toList ++ level.text.toList) ::
    ("salt: ".toList ++ hexText salt.val) :: ("nonce: ".toList ++ hexText nonce.val) ::
    ciphertextLines (chunks 64 (hexText ciphertext))

/-- The text of an encrypted key between its markers. -/
def encryptedBody (level : SecurityLevel) (salt : ByteVec 16) (nonce : ByteVec 12)
    (ciphertext : Bytes) : List Char :=
  "version: ".toList ++ ((toString currentKeyVersion).toList ++ ("\nsecurity_level: ".toList ++
    (level.text.toList ++ ("\nsalt: ".toList ++ (hexText salt.val ++ ("\nnonce: ".toList ++
      (hexText nonce.val ++ ("\nciphertext: ".toList ++ encodeKeyData ciphertext))))))))

/-- A line that is read as it stands. -/
structure PlainLine (l : List Char) : Prop extends Trimmed l where
  lf : '\n' ∉ l
  cr : '\r' ∉ l

section Lines

variable {level : SecurityLevel} {salt : ByteVec 16} {nonce : ByteVec 12} {ciphertext : Bytes}
  {l label : List Char}

/-- A line of a key is not changed by trimming. -/
theorem PlainLine.trim (h : PlainLine l) : trimMatches isWhitespace l = l :=
  trimMatches_of_ends h.head h.last

/-- Digits make a line, if there are any. -/
theorem plainLine_of_digits (hl : ∀ c ∈ l, isAsciiHexdigit c = true) (hne : l ≠ []) :
    PlainLine l where
  head c hc := isWhitespace_of_digit (hl c (List.mem_of_head? hc))
  last c hc := isWhitespace_of_digit (hl c (List.mem_of_getLast? hc))
  ne_nil := hne
  lf hc := absurd (hl _ hc) (by decide)
  cr hc := absurd (hl _ hc) (by decide)

/-- A label in front of digits. -/
theorem PlainLine.append {a : Char} (h : PlainLine l) (hlf : '\n' ∉ label) (hcr : '\r' ∉ label)
    (hhead : label.head? = some a) (ha : isWhitespace a = false) : PlainLine (label ++ l) where
  head c hc := by
    rw [List.head?_append, hhead] at hc
    exact Option.some.inj hc ▸ ha
  last c hc := h.last c (by rwa [List.getLast?_append_of_ne_nil _ h.ne_nil] at hc)
  ne_nil := by simp [h.ne_nil]
  lf := by simp [hlf, h.lf]
  cr := by simp [hcr, h.cr]

theorem hexText_ne_nil {n : Nat} (b : ByteVec (n + 1)) : hexText b.val ≠ [] := by
  intro h
  have hlength := length_hexText b.val
  rw [h, b.property] at hlength
  simp at hlength

theorem plainLine_hexText {n : Nat} (b : ByteVec (n + 1)) : PlainLine (hexText b.val) :=
  plainLine_of_digits (fun _ hc => digit_of_mem_hexText hc) (hexText_ne_nil b)

/-- The line of the salt is read as it was written. -/
theorem plainLine_salt (salt : ByteVec 16) : PlainLine ("salt: ".toList ++ hexText salt.val) :=
  (plainLine_hexText salt).append (a := 's') (by simp) (by simp)
    (by simp) (by decide)

/-- So is the line of the nonce. -/
theorem plainLine_nonce (nonce : ByteVec 12) : PlainLine ("nonce: ".toList ++ hexText nonce.val) :=
  (plainLine_hexText nonce).append (a := 'n') (by simp) (by simp)
    (by simp) (by decide)

/-- So is each line of the digits of a ciphertext. -/
theorem plainLine_of_mem_chunks (h : l ∈ chunks 64 (hexText ciphertext)) : PlainLine l :=
  plainLine_of_digits (fun _ hc => digit_of_mem_hexText (mem_of_mem_chunks (by decide) h hc))
    (ne_nil_of_mem_chunks (by decide) h)

/-- So is each line of a ciphertext, with the first one's label. -/
theorem plainLine_of_mem_ciphertextLines
    (h : l ∈ ciphertextLines (chunks 64 (hexText ciphertext))) : PlainLine l := by
  cases hchunks : chunks 64 (hexText ciphertext) with
  | nil =>
      rw [hchunks] at h
      obtain rfl := List.mem_singleton.mp h
      exact ⟨.of_ends (a := 'c') (b := ':') (by simp) (by simp) (by decide)
        (by decide), by simp, by simp⟩
  | cons c cs =>
      have hplain : ∀ d ∈ c :: cs, PlainLine d := fun d hd =>
        plainLine_of_mem_chunks (hchunks.symm ▸ hd : d ∈ chunks 64 (hexText ciphertext))
      rw [hchunks] at h
      rcases List.mem_cons.mp h with rfl | h
      · exact (hplain c List.mem_cons_self).append (a := 'c') (by simp)
          (by simp) (by simp) (by decide)
      · exact hplain l (List.mem_cons_of_mem _ h)

/-- So is each line of an encrypted key. -/
theorem plainLine_of_mem_keyLines (h : l ∈ keyLines level salt nonce ciphertext) :
    PlainLine l := by
  simp only [keyLines, List.mem_cons] at h
  rcases h with rfl | rfl | rfl | rfl | h
  · exact ⟨.of_ends (a := 'v') (b := '1') (by simp) (by simp) (by decide)
      (by decide), by simp, by simp⟩
  · cases level with
    | standard =>
        exact ⟨.of_ends (a := 's') (b := 'd') (by simp) (by simp [SecurityLevel.text]) (by decide)
          (by decide), by simp [SecurityLevel.text], by simp [SecurityLevel.text]⟩
    | high =>
        exact ⟨.of_ends (a := 's') (b := 'h') (by simp) (by simp [SecurityLevel.text]) (by decide)
          (by decide), by simp [SecurityLevel.text], by simp [SecurityLevel.text]⟩
    | maximum =>
        exact ⟨.of_ends (a := 's') (b := 'm') (by simp) (by simp [SecurityLevel.text]) (by decide)
          (by decide), by simp [SecurityLevel.text], by simp [SecurityLevel.text]⟩
  · exact plainLine_salt salt
  · exact plainLine_nonce nonce
  · exact plainLine_of_mem_ciphertextLines h

theorem trimmed_joinLines {ls : List (List Char)} (h : ∀ l ∈ ls, Trimmed l) (hne : ls ≠ []) :
    Trimmed (joinLines ls) := by
  obtain ⟨l, rest, rfl⟩ := List.exists_cons_of_ne_nil hne
  have hfirst := h l List.mem_cons_self
  have hsome := List.getLast?_eq_some_getLast hne
  have hend := h _ (List.getLast_mem hne)
  have hsplit : ∃ m, joinLines (l :: rest) = l ++ m := by
    cases rest with
    | nil => exact ⟨[], by simp⟩
    | cons l' rest => exact ⟨_, joinLines_cons_cons⟩
  obtain ⟨m, hm⟩ := hsplit
  refine ⟨fun c hc => ?_, fun c hc => ?_, by simp [hm, hfirst.ne_nil]⟩
  · rw [hm, List.head?_append_of_ne_nil _ hfirst.ne_nil] at hc
    exact hfirst.head c hc
  · rw [getLast?_joinLines hsome hend.ne_nil] at hc
    exact hend.last c hc

/-- The text is its lines, but for the blank behind the last label if there are no digits. -/
theorem exists_encryptedBody_eq :
    ∃ blanks, (∀ c ∈ blanks, isWhitespace c = true) ∧
      encryptedBody level salt nonce ciphertext =
        joinLines (keyLines level salt nonce ciphertext) ++ blanks := by
  have hversion : "version: 1".toList =
      "version: ".toList ++ (toString currentKeyVersion).toList := by
    simp [currentKeyVersion, Nat.toDigits, Nat.toDigitsCore, Nat.digitChar]
  have hlevel : "\nsecurity_level: ".toList = '\n' :: "security_level: ".toList := by simp
  have hsalt : "\nsalt: ".toList = '\n' :: "salt: ".toList := by simp
  have hnonce : "\nnonce: ".toList = '\n' :: "nonce: ".toList := by simp
  have hlabel : "\nciphertext: ".toList = '\n' :: "ciphertext: ".toList := by simp
  have hblank : "ciphertext: ".toList = "ciphertext:".toList ++ [' '] := by simp
  unfold encryptedBody keyLines encodeKeyData
  rw [hversion, hlevel, hsalt, hnonce, hlabel]
  cases chunks 64 (hexText ciphertext) with
  | nil =>
      exact ⟨[' '], List.forall_mem_singleton.mpr (by decide), by simp [ciphertextLines, hblank]⟩
  | cons c cs =>
      refine ⟨[], by simp, ?_⟩
      cases cs <;> simp [ciphertextLines]

/-- An encrypted key has at least one line. -/
theorem keyLines_ne_nil : keyLines level salt nonce ciphertext ≠ [] := List.cons_ne_nil _ _

/-- What is between the markers is trimmed to the lines. -/
theorem trim_encryptedBody :
    trimMatches isWhitespace (encryptedBody level salt nonce ciphertext) =
      joinLines (keyLines level salt nonce ciphertext) := by
  obtain ⟨blanks, hblanks, hbody⟩ := @exists_encryptedBody_eq level salt nonce ciphertext
  have htrimmed : Trimmed (joinLines (keyLines level salt nonce ciphertext)) :=
    trimmed_joinLines (fun l hl => (plainLine_of_mem_keyLines hl).toTrimmed) keyLines_ne_nil
  rw [hbody, trimMatches_append_right hblanks, trimMatches_of_ends htrimmed.head htrimmed.last]

/-- The lines of an encrypted key are found again in its text. -/
theorem lines_keyLines :
    lines (joinLines (keyLines level salt nonce ciphertext)) =
      keyLines level salt nonce ciphertext := by
  apply lines_joinLines
  · intro l hl
    exact ⟨(plainLine_of_mem_keyLines hl).lf, (plainLine_of_mem_keyLines hl).cr⟩
  · intro hlast
    exact (plainLine_of_mem_keyLines (List.mem_of_getLast? hlast)).ne_nil rfl

end Lines

/-! ## reading the lines -/

/- The reader goes through the lines one by one. A line with a label sets the field of this name,
and a line of digits without one continues the ciphertext. -/

section Reading

variable {K : KeyFileCrates} {f : KeyFields} {level : SecurityLevel} {l : List Char}

/-- The line of the version sets the version. -/
theorem line_version :
    KeyFields.line K f "version: 1".toList = .ok { f with version := some 1 } := by
  rfl

/-- The line of the security level sets the level. -/
theorem line_securityLevel :
    KeyFields.line K f ("security_level: ".toList ++ level.text.toList) =
      .ok { f with securityLevel := some level } := by
  cases level <;> rfl

/-- Digits behind a label and a blank. -/
theorem decodeHexString_label (hK : K.Lawful) (b : Bytes) :
    decodeHexString K (trimMatches isWhitespace (' ' :: hexText b)) = .ok b := by
  apply decodeHexString_of_filter hK
  rw [filter_trimMatches, List.filter_cons_of_neg (by decide), filter_hexText]

/-- A label that ends in a blank, and what follows it. -/
theorem append_blank {label label' : String} (h : label'.toList = label.toList ++ [' ']) :
    label'.toList ++ l = label.toList ++ ' ' :: l := by
  simp [h]

/-- The line of the salt sets the salt. -/
theorem line_salt (hK : K.Lawful) (salt : ByteVec 16) :
    KeyFields.line K f ("salt: ".toList ++ hexText salt.val) =
      .ok { f with salt := some salt.val } := by
  have hplain := plainLine_salt salt
  have hlabel : "salt: ".toList = "salt:".toList ++ [' '] := by simp
  have hversion : ∀ l, stripPrefix "version:".toList ("salt:".toList ++ l) = none :=
    stripPrefix_append_of_not_prefix (by simp) (by simp)
  have hlevel : ∀ l, stripPrefix "security_level:".toList ("salt:".toList ++ l) = none :=
    stripPrefix_append_of_not_prefix (by simp) (by simp)
  rw [KeyFields.line, hplain.trim, if_neg hplain.ne_nil, append_blank hlabel, hversion, hlevel,
    stripPrefix_append]
  simp [decodeHexString_label hK, Except.mapError, bind, Except.bind, pure, Except.pure]

/-- The line of the nonce sets the nonce. -/
theorem line_nonce (hK : K.Lawful) (nonce : ByteVec 12) :
    KeyFields.line K f ("nonce: ".toList ++ hexText nonce.val) =
      .ok { f with nonce := some nonce.val } := by
  have hplain := plainLine_nonce nonce
  have hlabel : "nonce: ".toList = "nonce:".toList ++ [' '] := by simp
  have hversion : ∀ l, stripPrefix "version:".toList ("nonce:".toList ++ l) = none :=
    stripPrefix_append_of_not_prefix (by simp) (by simp)
  have hlevel : ∀ l, stripPrefix "security_level:".toList ("nonce:".toList ++ l) = none :=
    stripPrefix_append_of_not_prefix (by simp) (by simp)
  have hsalt : ∀ l, stripPrefix "salt:".toList ("nonce:".toList ++ l) = none :=
    stripPrefix_append_of_not_prefix (by simp) (by simp)
  rw [KeyFields.line, hplain.trim, if_neg hplain.ne_nil, append_blank hlabel, hversion, hlevel,
    hsalt, stripPrefix_append]
  simp [decodeHexString_label hK, Except.mapError, bind, Except.bind, pure, Except.pure]

/-- The first line of the ciphertext. -/
theorem line_ciphertext (h : PlainLine ("ciphertext:".toList ++ l)) :
    KeyFields.line K f ("ciphertext:".toList ++ l) =
      .ok { f with ciphertextLines := f.ciphertextLines ++ [trimMatches isWhitespace l] } := by
  have hversion : ∀ l, stripPrefix "version:".toList ("ciphertext:".toList ++ l) = none :=
    stripPrefix_append_of_not_prefix (by simp) (by simp)
  have hlevel : ∀ l, stripPrefix "security_level:".toList ("ciphertext:".toList ++ l) = none :=
    stripPrefix_append_of_not_prefix (by simp) (by simp)
  have hsalt : ∀ l, stripPrefix "salt:".toList ("ciphertext:".toList ++ l) = none :=
    stripPrefix_append_of_not_prefix (by simp) (by simp)
  have hnonce : ∀ l, stripPrefix "nonce:".toList ("ciphertext:".toList ++ l) = none :=
    stripPrefix_append_of_not_prefix (by simp) (by simp)
  rw [KeyFields.line, h.trim, if_neg h.ne_nil, hversion, hlevel, hsalt, hnonce,
    stripPrefix_append]

/-- A line of digits has no label. -/
theorem line_digits (hl : ∀ c ∈ l, isAsciiHexdigit c = true) (hne : l ≠ []) :
    KeyFields.line K f l = .ok { f with ciphertextLines := f.ciphertextLines ++ [l] } := by
  have hplain := plainLine_of_digits hl hne
  have hcolon : ':' ∉ l := fun hc => absurd (hl _ hc) (by decide)
  have hlabel : ∀ label : String, ':' ∈ label.toList → stripPrefix label.toList l = none :=
    fun label hc => stripPrefix_of_not_mem hc hcolon
  have hdash : "-----".toList.isPrefixOf l = false := by
    rw [← Bool.not_eq_true, List.isPrefixOf_iff_prefix]
    intro h
    exact absurd (hl '-' (h.subset (by simp))) (by decide)
  rw [KeyFields.line, hplain.trim, if_neg hne, hlabel _ (by simp),
    hlabel _ (by simp), hlabel _ (by simp), hlabel _ (by simp),
    hlabel _ (by simp), hdash]
  rfl

/-- Lines of digits are added to the ciphertext, one behind the other. -/
theorem foldlM_digits {cs : List (List Char)}
    (h : ∀ c ∈ cs, (∀ d ∈ c, isAsciiHexdigit d = true) ∧ c ≠ []) :
    cs.foldlM (KeyFields.line K) f =
      .ok { f with ciphertextLines := f.ciphertextLines ++ cs } := by
  induction cs generalizing f with
  | nil => simp [pure, Except.pure]
  | cons c cs ih =>
      obtain ⟨hc, hrest⟩ := List.forall_mem_cons.mp h
      simp [List.foldlM_cons, line_digits hc.1 hc.2, ih hrest, bind, Except.bind]

/-- The lines of the ciphertext are collected, and they are its digits. -/
theorem foldlM_ciphertextLines (hempty : f.ciphertextLines = []) (ciphertext : Bytes) :
    ∃ collected, (ciphertextLines (chunks 64 (hexText ciphertext))).foldlM (KeyFields.line K) f =
        .ok { f with ciphertextLines := collected } ∧
      (joinLines collected).filter (fun c => !isWhitespace c) = hexText ciphertext := by
  have hplain : ∀ l ∈ ciphertextLines (chunks 64 (hexText ciphertext)), PlainLine l :=
    fun l hl => plainLine_of_mem_ciphertextLines hl
  have hdigits : ∀ c ∈ chunks 64 (hexText ciphertext),
      (∀ d ∈ c, isAsciiHexdigit d = true) ∧ c ≠ [] := fun c hc =>
    ⟨fun d hd => digit_of_mem_hexText (mem_of_mem_chunks (by decide) hc hd),
      ne_nil_of_mem_chunks (by decide) hc⟩
  have hflatten := flatten_chunks_hexText ciphertext
  cases hchunks : chunks 64 (hexText ciphertext) with
  | nil =>
      rw [hchunks] at hplain hflatten
      have hline := @line_ciphertext K f [] (by simpa [ciphertextLines] using hplain)
      refine ⟨[[]], ?_, by simpa using hflatten⟩
      rw [ciphertextLines, List.foldlM_cons, ← List.append_nil "ciphertext:".toList, hline, hempty]
      rfl
  | cons c cs =>
      rw [hchunks] at hplain hdigits hflatten
      have hlabel : "ciphertext: ".toList = "ciphertext:".toList ++ [' '] := by simp
      have hfirst := hplain _ List.mem_cons_self
      rw [append_blank hlabel] at hfirst
      refine ⟨trimMatches isWhitespace (' ' :: c) :: cs, ?_, ?_⟩
      · rw [ciphertextLines, List.foldlM_cons, append_blank hlabel, line_ciphertext hfirst, hempty]
        exact foldlM_digits fun d hd => hdigits d (List.mem_cons_of_mem _ hd)
      · rw [filter_joinLines (by decide), List.flatten_cons, List.filter_append,
          filter_trimMatches, List.filter_cons_of_neg (by decide), ← List.filter_append,
          ← List.flatten_cons, hflatten, filter_hexText]

/-- The metadata of an encrypted key is parsed as what was written. -/
theorem parseEncryptedKeyMetadata_keyLines (hK : K.Lawful) (level : SecurityLevel)
    (salt : ByteVec 16) (nonce : ByteVec 12) (ciphertext : Bytes) :
    parseEncryptedKeyMetadata K (joinLines (keyLines level salt nonce ciphertext)) =
      .ok (currentKeyVersion, level, salt.val, nonce.val, ciphertext) := by
  obtain ⟨collected, hcollected, hdigits⟩ := @foldlM_ciphertextLines K
    ⟨some 1, some level, some salt.val, some nonce.val, []⟩ rfl ciphertext
  have hfold : (keyLines level salt nonce ciphertext).foldlM (KeyFields.line K) {} =
      .ok ⟨some 1, some level, some salt.val, some nonce.val, collected⟩ := by
    simp only [keyLines, List.foldlM_cons, line_version, line_securityLevel, line_salt hK,
      line_nonce hK, bind, Except.bind]
    exact hcollected
  rw [parseEncryptedKeyMetadata, lines_keyLines, hfold]
  simp [Except.ofOption, decodeHexString_of_filter hK hdigits, currentKeyVersion, bind,
    Except.bind, pure, Except.pure]

end Reading

/-! ## the texts -/

section Texts

variable {K : KeyFileCrates} {level : SecurityLevel} {salt : ByteVec 16} {nonce : ByteVec 12}
  {ciphertext : Bytes} {content : List Char} {key : SigningKeyBytes}

/-- An encrypted key is known by the label of its version. -/
theorem hasInfix_version :
    hasInfix "version:".toList (joinLines (keyLines level salt nonce ciphertext)) = true := by
  have hversion : "version:".toList <+: "version: 1".toList := by simp
  rw [hasInfix_iff, keyLines, joinLines_cons_cons]
  exact (hversion.trans (List.prefix_append _ _)).isInfix

/-- An encrypted key is not loaded without a passphrase, and with one it is decrypted. -/
theorem signingKeyOf_encrypted (hK : K.Lawful) (passphrase : Option String) :
    signingKeyOf K (armored encryptedSigningKeyHeader encryptedSigningKeyFooter
        (encryptedBody level salt nonce ciphertext)) passphrase = (do
      let pass ← Except.ofOption .passphraseRequired passphrase
      let derived ← deriveKeyFromPassphrase K pass salt level
      let decrypted ← decryptWithKey K ciphertext derived nonce
      keyBytes decrypted) := by
  have hheader : encryptedSigningKeyHeader.toList.isPrefixOf
      (armored encryptedSigningKeyHeader encryptedSigningKeyFooter
        (encryptedBody level salt nonce ciphertext)) = true :=
    List.isPrefixOf_iff_prefix.mpr (List.prefix_append _ _)
  have hsalt : ByteVec.tryInto 16 salt.val = some salt := ByteVec.tryInto_eq_some.mpr rfl
  have hnonce : ByteVec.tryInto 12 nonce.val = some nonce := ByteVec.tryInto_eq_some.mpr rfl
  rw [signingKeyOf, if_pos hheader, betweenMarkers_armored, trim_encryptedBody]
  simp only [bind, Except.bind, hasInfix_version, ↓reduceIte,
    parseEncryptedKeyMetadata_keyLines hK, Except.ensure_pos, hsalt, hnonce, Except.ofOption]

/-- Text that starts as an encrypted key is never a key without a passphrase. -/
theorem signingKeyOf_ne_ok (hheader : encryptedSigningKeyHeader.toList <+: content) :
    signingKeyOf K content none ≠ .ok key := by
  intro h
  rw [signingKeyOf, if_pos (List.isPrefixOf_iff_prefix.mpr hheader)] at h
  obtain ⟨data, -, h⟩ := Except.bind_eq_ok.mp h
  split at h
  · obtain ⟨fields, -, h⟩ := Except.bind_eq_ok.mp h
    obtain ⟨u, -, h⟩ := Except.bind_eq_ok.mp h
    contradiction
  · contradiction

/-- The text of an unencrypted key, character by character. -/
theorem toList_plainKeyText {header footer : String} {data : Bytes} :
    (plainKeyText header footer data).toList =
      armored header footer (encodeKeyData data) ++ ['\n'] := by
  have hfeed : "\n".toList = ['\n'] := by simp
  have hself : ∀ s : String, toString s = s := fun _ => rfl
  simp only [plainKeyText, armored, hself, String.toList_append, String.toList_ofList, hfeed,
    List.append_assoc, List.cons_append, List.nil_append]

/-- The text of an encrypted key, character by character. -/
theorem toList_encryptedKeyText :
    (encryptedKeyText level salt nonce ciphertext).toList =
      armored encryptedSigningKeyHeader encryptedSigningKeyFooter
        (encryptedBody level salt nonce ciphertext) ++ ['\n'] := by
  have hfeed : "\n".toList = ['\n'] := by simp
  have hlabel : "\nversion: ".toList = '\n' :: "version: ".toList := by simp
  have hself : ∀ s : String, toString s = s := fun _ => rfl
  unfold encryptedKeyText armored encryptedBody
  simp only [hself, String.toList_append, String.toList_ofList]
  rw [hfeed, hlabel]
  simp only [List.append_assoc, List.cons_append, List.nil_append]

/-- What is written of a key is the key under the same passphrase, and none without it. -/
theorem signingKeyOf_signingKeyText {h : KeyFileHost} {passphrase : Option String} {text : String}
    (hK : K.Lawful) (htext : signingKeyText K h key passphrase level = .ok text) :
    signingKeyOf K (trimMatches isWhitespace text.toList) passphrase = .ok key ∧
    (passphrase.isSome → signingKeyOf K (trimMatches isWhitespace text.toList) none =
      .error .passphraseRequired) := by
  cases passphrase with
  | none =>
      obtain rfl := Except.ok.inj htext
      rw [toList_plainKeyText, trim_armored trimmed_signingKey.1 trimmed_signingKey.2]
      exact ⟨signingKeyOf_plain hK key none, by simp⟩
  | some pass =>
      obtain ⟨derived, hderived, htext⟩ := Except.bind_eq_ok.mp htext
      obtain ⟨ciphertext, hciphertext, htext⟩ := Except.bind_eq_ok.mp htext
      obtain rfl := Except.ok.inj htext
      have hdecrypt := hK.decrypt_encrypt _ _ _ _ (Except.ofOption_eq_ok.mp hciphertext)
      rw [toList_encryptedKeyText,
        trim_armored trimmed_encryptedSigningKey.1 trimmed_encryptedSigningKey.2,
        signingKeyOf_encrypted hK, signingKeyOf_encrypted hK]
      constructor
      · simp [hderived, decryptWithKey, hdecrypt, keyBytes_val, Except.ofOption, bind, Except.bind]
      · exact fun _ => rfl

end Texts

/-! ## the files -/

section Files

open Prog

variable {h : KeyFileHost} {path content : String} {files : Files String Bytes}

/-- The bytes of a text are decoded to it. -/
theorem fromUTF8?_utf8 (s : String) : String.fromUTF8? ⟨(utf8 s).toArray⟩ = some s := by
  unfold utf8 String.fromUTF8?
  rw [Array.toArray_toList, String.toUTF8_eq_toByteArray]
  exact dif_pos s.isValidUTF8

/-- A file that was written holds what was to be written. -/
theorem wp_writeAtomically :
    wp (writeAtomically h path content) (fun _ files' => files'.read path = some (utf8 content))
      (fun _ _ => True) files := by
  unfold writeAtomically keyFileGuard
  cases h.faults .writeTemp with
  | some msg => cases h.written <;> simp [wp_bind]
  | none =>
      cases h.faults .setPermissions <;> cases h.faults .rename <;> simp [wp_bind]

/-- A write that meets no fault succeeds. -/
theorem exec_writeAtomically (hnone : ∀ site, h.faults site = none) (path content : String)
    (files : Files String Bytes) : (exec (writeAtomically h path content) files).1 = .ok () := by
  simp [writeAtomically, keyFileGuard, hnone, exec_bind]

/-- A file whose content is text is read as that text. -/
theorem exec_readToString (hread : h.faults .read = none)
    (hfile : files.read path = some (utf8 content)) :
    exec (readToString h path) files = (.ok content, files) := by
  simp [readToString, keyFileGuard, hread, exec_bind, hfile, fromUTF8?_utf8]

end Files

/-! ## the round trip -/

section RoundTrip

open Prog

variable {K : KeyFileCrates} {h h' : KeyFileHost} {path : String}
  {files files' : Files String Bytes}

/-- Loading a signing key is decoding the content of its file. -/
theorem exec_loadSigningKey {content : String} (hread : h'.faults .read = none)
    (hfile : files.read path = some (utf8 content)) (passphrase : Option String) :
    exec (loadSigningKey K h' path passphrase) files =
      (signingKeyOf K (trimMatches isWhitespace content.toList) passphrase, files) := by
  rw [loadSigningKey, exec_bind_ok (exec_readToString hread hfile), exec_ofExcept]

/-- A signing key is loaded as it was saved. -/
theorem loadSigningKey_of_save (hK : K.Lawful) {key : SigningKeyBytes} {passphrase : Option String}
    {level : SecurityLevel}
    (hsave : exec (saveSigningKey K h key path passphrase level) files = (.ok (), files'))
    (hread : h'.faults .read = none) :
    exec (loadSigningKey K h' path passphrase) files' = (.ok key, files') ∧
    (passphrase.isSome →
      exec (loadSigningKey K h' path none) files' = (.error .passphraseRequired, files')) := by
  have hwrite : wp (saveSigningKey K h key path passphrase level)
      (fun _ s => ∃ text, signingKeyText K h key passphrase level = .ok text ∧
        s.read path = some (utf8 text)) (fun _ _ => True) files := by
    rw [saveSigningKey, wp_bind, wp_ofExcept]
    cases htext : signingKeyText K h key passphrase level with
    | error err => trivial
    | ok text => exact wp_mono (fun _ s hs => ⟨text, rfl, hs⟩) (fun _ _ h => h) wp_writeAtomically
  obtain ⟨text, htext, hfile⟩ := wp_exec_ok hwrite hsave
  obtain ⟨hsame, hnone⟩ := signingKeyOf_signingKeyText hK htext
  rw [exec_loadSigningKey hread hfile, exec_loadSigningKey hread hfile, hsame]
  exact ⟨rfl, fun hsome => by rw [hnone hsome]⟩

/-- A verifying key is loaded as it was saved. -/
theorem loadVerifyingKey_of_save (hK : K.Lawful) {C : CryptoCrates} {key : VerifyingKey C}
    (hsave : exec (saveVerifyingKey h key path) files = (.ok (), files'))
    (hread : h'.faults .read = none) :
    exec (loadVerifyingKey K h' C path) files' = (.ok key, files') := by
  have hfile := wp_exec_ok wp_writeAtomically hsave
  rw [loadVerifyingKey, exec_bind_ok (exec_readToString hread hfile), exec_ofExcept,
    toList_plainKeyText, trim_armored trimmed_verifyingKey.1 trimmed_verifyingKey.2,
    verifyingKeyOf_plain hK]

/-- Every verifying key is saved where no step fails, and what was saved is loaded. -/
theorem verifyingKey_roundTrip (hK : K.Lawful) {C : CryptoCrates} (key : VerifyingKey C)
    (hnone : ∀ site, h.faults site = none) (hread : h'.faults .read = none) :
    ∃ files', exec (saveVerifyingKey h key path) files = (.ok (), files') ∧
      exec (loadVerifyingKey K h' C path) files' = (.ok key, files') := by
  have hsave := exec_of_fst (exec_writeAtomically hnone path
    (plainKeyText verifyingKeyHeader verifyingKeyFooter key.bytes.val) files)
  exact ⟨_, hsave, loadVerifyingKey_of_save hK hsave hread⟩

/-- Keys are loaded as they were saved, under the same passphrase if there was one.  Without it
the passphrase is asked for, and no file that starts as an encrypted key is ever a key.  Every
verifying key is saved and loaded where nothing fails. -/
theorem keyFile_roundTrip (hK : K.Lawful) :
    (∀ (h h' : KeyFileHost) (key : SigningKeyBytes) (path : String) (passphrase : Option String)
        (level : SecurityLevel) (files files' : Files String Bytes),
      exec (saveSigningKey K h key path passphrase level) files = (.ok (), files') →
      h'.faults .read = none →
      exec (loadSigningKey K h' path passphrase) files' = (.ok key, files') ∧
      (passphrase.isSome →
        exec (loadSigningKey K h' path none) files' = (.error .passphraseRequired, files'))) ∧
    (∀ (h : KeyFileHost) (key : SigningKeyBytes) (path content : String)
        (files : Files String Bytes),
      files.read path = some (utf8 content) →
      encryptedSigningKeyHeader.toList <+: trimMatches isWhitespace content.toList →
      (exec (loadSigningKey K h path none) files).1 ≠ .ok key) ∧
    (∀ (C : CryptoCrates) (h h' : KeyFileHost) (key : VerifyingKey C) (path : String)
        (files files' : Files String Bytes),
      exec (saveVerifyingKey h key path) files = (.ok (), files') → h'.faults .read = none →
      exec (loadVerifyingKey K h' C path) files' = (.ok key, files')) ∧
    ∀ (C : CryptoCrates) (h h' : KeyFileHost) (key : VerifyingKey C) (path : String)
        (files : Files String Bytes),
      (∀ site, h.faults site = none) → h'.faults .read = none →
      ∃ files', exec (saveVerifyingKey h key path) files = (.ok (), files') ∧
        exec (loadVerifyingKey K h' C path) files' = (.ok key, files') := by
  refine ⟨fun _ _ _ _ _ _ _ _ hsave hread => loadSigningKey_of_save hK hsave hread, ?_,
    fun _ _ _ _ _ _ _ hsave hread => loadVerifyingKey_of_save hK hsave hread,
    fun _ _ _ key _ _ hnone hread => verifyingKey_roundTrip hK key hnone hread⟩
  intro h key path content files hfile hheader hload
  cases hread : h.faults .read with
  | none =>
      rw [exec_loadSigningKey hread hfile] at hload
      exact signingKeyOf_ne_ok hheader hload
  | some msg =>
      have hfail : exec (loadSigningKey K h path none) files = (.error (.io path msg), files) := by
        simp [loadSigningKey, readToString, keyFileGuard, hread]
      rw [hfail] at hload
      contradiction

end RoundTrip

/-! ## a sample key -/

def sampleSalt : ByteVec 16 := ⟨[0, 1, 2, 3, 4, 5, 6, 7, 8, 9, 10, 11, 12, 13, 14, 15], rfl⟩

def sampleNonce : ByteVec 12 := ⟨[0, 1, 2, 3, 4, 5, 6, 7, 8, 9, 10, 11], rfl⟩

def sampleSecretKey : SigningKeyBytes :=
  ⟨[0, 1, 2, 3, 4, 5, 6, 7, 8, 9, 10, 11, 12, 13, 14, 15, 16, 17, 18, 19, 20, 21, 22, 23, 24, 25,
    26, 27, 28, 29, 30, 31], rfl⟩

/-- Argon2id of `correct horse` with the sample salt at the standard level. -/
def sampleDerivedKey : ByteVec 32 :=
  ⟨[208, 11, 144, 196, 15, 145, 140, 248, 137, 120, 13, 125, 58, 158, 195, 194, 177, 113, 157, 248,
    125, 197, 228, 212, 217, 62, 166, 22, 61, 176, 78, 23], rfl⟩

/-- The sample key under the derived key and the sample nonce. -/
def sampleCiphertext : Bytes :=
  [33, 144, 81, 128, 25, 152, 107, 199, 86, 198, 192, 209, 132, 122, 149, 148, 76, 136, 190, 113,
    251, 63, 123, 200, 178, 191, 92, 147, 230, 188, 38, 115, 172, 132, 200, 203, 224, 208, 152, 3,
    176, 19, 56, 112, 69, 113, 165, 141]

/-- Crates that know the sample key. -/
def sampleKeyCrates : KeyFileCrates where
  argonParams costs := decide (8 ≤ costs.1 ∧ 1 ≤ costs.2)
  encodeSalt salt :=
    if salt = sampleSalt then .ok "AAECAwQFBgcICQoLDA0ODw" else .error "unknown salt"
  hashPassword costs password salt :=
    if costs = (19456, 2) ∧ password = utf8 "correct horse" ∧ salt = "AAECAwQFBgcICQoLDA0ODw" then
      .ok (some sampleDerivedKey)
    else .error "unknown password"
  encrypt key nonce data :=
    if key = sampleDerivedKey ∧ nonce = sampleNonce ∧ data = sampleSecretKey.val then
      some sampleCiphertext
    else none
  decrypt key nonce ciphertext :=
    if key = sampleDerivedKey ∧ nonce = sampleNonce ∧ ciphertext = sampleCiphertext then
      some sampleSecretKey.val
    else none
  hexDecode s := Except.ofOption "Invalid character" (decodePairs strictHexByte (utf8 s))

/-- The sample cipher decrypts what it encrypts, and the sample encoders are read back. -/
theorem sampleKeyCrates_lawful : sampleKeyCrates.Lawful where
  decrypt_encrypt key nonce data ciphertext h := by
    simp only [sampleKeyCrates, Option.ite_none_right_eq_some, Option.some.injEq] at h ⊢
    obtain ⟨⟨rfl, rfl, rfl⟩, rfl⟩ := h
    exact ⟨⟨rfl, rfl, rfl⟩, rfl⟩
  hexDecode_hexText b := by
    have hascii : ∀ c ∈ hexText b, c.toNat < 128 := fun c hc =>
      (printing_of_isAsciiHexdigit (digit_of_mem_hexText hc)).2.trans (by decide)
    have hread := writesDigits_id.decodePairs b
    rw [List.map_id] at hread
    simp [sampleKeyCrates, utf8_ofList_of_ascii hascii, hread, Except.ofOption]

def sampleKeyHost : KeyFileHost := ⟨fun _ => none, none, sampleSalt, sampleNonce⟩

/-- The files after the sample key was saved. -/
def sampleKeyFiles : Files String Bytes :=
  (Prog.exec (saveSigningKey sampleKeyCrates sampleKeyHost sampleSecretKey "keys/signing.key"
    (some "correct horse") .standard) Files.empty).2

/-- The verifying key of the sample signatures. -/
def sampleVerifyingKey : VerifyingKey sampleCrypto := ⟨sampleKey, by simp [sampleCrypto]⟩

/-- An encrypted key and a verifying key are saved and loaded. -/
theorem keyFile_roundTrip_sample :
    Prog.exec (loadSigningKey sampleKeyCrates sampleKeyHost "keys/signing.key"
      (some "correct horse")) sampleKeyFiles = (.ok sampleSecretKey, sampleKeyFiles) ∧
    ∃ files', Prog.exec (saveVerifyingKey sampleKeyHost sampleVerifyingKey "keys/verifying.key")
        sampleKeyFiles = (.ok (), files') ∧
      Prog.exec (loadVerifyingKey sampleKeyCrates sampleKeyHost sampleCrypto
        "keys/verifying.key") files' = (.ok sampleVerifyingKey, files') := by
  obtain ⟨hsigning, -, -, hverifying⟩ := keyFile_roundTrip sampleKeyCrates_lawful
  exact ⟨(hsigning sampleKeyHost sampleKeyHost sampleSecretKey "keys/signing.key"
      (some "correct horse") .standard Files.empty sampleKeyFiles
      (Prog.exec_of_fst (by decide +kernel)) rfl).1,
    hverifying sampleCrypto sampleKeyHost sampleKeyHost sampleVerifyingKey "keys/verifying.key"
      sampleKeyFiles (fun _ => rfl) rfl⟩

end Deltaship
