import Mathlib.Tactic.Common

/-!
# Deltaship.Lib.Base64

Standard base64 with padding: three bytes are four digits, and what is left at the end is
filled up with `=`.

The decoder is a strict one: the padding must be there, and the bits it stands for must be zero.
It undoes the encoder (`decode_encode`).
-/

namespace Base64

/-! ## digits -/

/-- The digit for a value below 64. -/
def digit (n : Nat) : Char :=
  if n < 26 then Char.ofNat (65 + n)
  else if n < 52 then Char.ofNat (71 + n)
  else if n < 62 then Char.ofNat (n - 4)
  else if n = 62 then '+'
  else '/'

/-- The value of a digit. -/
def value (c : Char) : Option Nat :=
  let n := c.toNat
  if 65 ≤ n ∧ n ≤ 90 then some (n - 65)
  else if 97 ≤ n ∧ n ≤ 122 then some (n - 71)
  else if 48 ≤ n ∧ n ≤ 57 then some (n + 4)
  else if c = '+' then some 62
  else if c = '/' then some 63
  else none

theorem value_digit {n : Nat} (h : n < 64) : value (digit n) = some n := by
  have hall : ∀ n < 64, value (digit n) = some n := by decide
  exact hall n h

theorem digit_ne_pad {n : Nat} (h : n < 64) : digit n ≠ '=' := by
  have hall : ∀ n < 64, digit n ≠ '=' := by decide
  exact hall n h

/-- A digit is a printing ASCII character. -/
theorem digit_printing {n : Nat} (h : n < 64) : 32 < (digit n).toNat ∧ (digit n).toNat < 127 := by
  have hall : ∀ n < 64, 32 < (digit n).toNat ∧ (digit n).toNat < 127 := by decide
  exact hall n h

/-! ## texts -/

/-- The text of a byte string. -/
def encode : List UInt8 → List Char
  | [] => []
  | [a] => [digit (a.toNat / 4), digit (a.toNat % 4 * 16), '=', '=']
  | [a, b] =>
    [digit (a.toNat / 4), digit (a.toNat % 4 * 16 + b.toNat / 16), digit (b.toNat % 16 * 4), '=']
  | a :: b :: c :: rest =>
    digit (a.toNat / 4) :: digit (a.toNat % 4 * 16 + b.toNat / 16) ::
      digit (b.toNat % 16 * 4 + c.toNat / 64) :: digit (c.toNat % 64) :: encode rest

/-- The byte of two digits; nothing of the second one may be left over. -/
def lastByte (x y : Char) : Option (List UInt8) :=
  match value x, value y with
  | some x, some y => if y % 16 = 0 then some [UInt8.ofNat (x * 4 + y / 16)] else none
  | _, _ => none

/-- The two bytes of three digits; nothing of the third one may be left over. -/
def lastBytes (x y z : Char) : Option (List UInt8) :=
  match value x, value y, value z with
  | some x, some y, some z =>
    if z % 4 = 0 then some [UInt8.ofNat (x * 4 + y / 16), UInt8.ofNat (y % 16 * 16 + z / 4)]
    else none
  | _, _, _ => none

/-- The three bytes of four digits. -/
def fullBytes (x y z u : Char) : Option (List UInt8) :=
  match value x, value y, value z, value u with
  | some x, some y, some z, some u =>
    some [UInt8.ofNat (x * 4 + y / 16), UInt8.ofNat (y % 16 * 16 + z / 4),
      UInt8.ofNat (z % 4 * 64 + u)]
  | _, _, _, _ => none

/-- The byte string of a text. -/
def decode : List Char → Option (List UInt8)
  | [] => some []
  | x :: y :: z :: u :: rest =>
    if u = '=' then
      if rest ≠ [] then none else if z = '=' then lastByte x y else lastBytes x y z
    else
      match fullBytes x y z u, decode rest with
      | some bytes, some more => some (bytes ++ more)
      | _, _ => none
  | _ => none

/-! ## reading back -/

/-- One byte is read back from two digits. -/
theorem lastByte_digit (a : UInt8) :
    lastByte (digit (a.toNat / 4)) (digit (a.toNat % 4 * 16)) = some [a] := by
  have ha := a.toNat_lt
  have hbyte : a.toNat / 4 * 4 + a.toNat % 4 * 16 / 16 = a.toNat := by omega
  simp only [lastByte, value_digit (show a.toNat / 4 < 64 by omega),
    value_digit (show a.toNat % 4 * 16 < 64 by omega), hbyte, UInt8.ofNat_toNat]
  rw [if_pos (by omega)]

/-- Two bytes are read back from three digits. -/
theorem lastBytes_digit (a b : UInt8) :
    lastBytes (digit (a.toNat / 4)) (digit (a.toNat % 4 * 16 + b.toNat / 16))
      (digit (b.toNat % 16 * 4)) = some [a, b] := by
  have ha := a.toNat_lt
  have hb := b.toNat_lt
  have hfirst : a.toNat / 4 * 4 + (a.toNat % 4 * 16 + b.toNat / 16) / 16 = a.toNat := by omega
  have hsecond : (a.toNat % 4 * 16 + b.toNat / 16) % 16 * 16 + b.toNat % 16 * 4 / 4 = b.toNat := by
    omega
  simp only [lastBytes, value_digit (show a.toNat / 4 < 64 by omega),
    value_digit (show a.toNat % 4 * 16 + b.toNat / 16 < 64 by omega),
    value_digit (show b.toNat % 16 * 4 < 64 by omega), hfirst, hsecond, UInt8.ofNat_toNat]
  rw [if_pos (by omega)]

/-- Three bytes are read back from four digits. -/
theorem fullBytes_digit (a b c : UInt8) :
    fullBytes (digit (a.toNat / 4)) (digit (a.toNat % 4 * 16 + b.toNat / 16))
      (digit (b.toNat % 16 * 4 + c.toNat / 64)) (digit (c.toNat % 64)) = some [a, b, c] := by
  have ha := a.toNat_lt
  have hb := b.toNat_lt
  have hc := c.toNat_lt
  have hfirst : a.toNat / 4 * 4 + (a.toNat % 4 * 16 + b.toNat / 16) / 16 = a.toNat := by omega
  have hsecond : (a.toNat % 4 * 16 + b.toNat / 16) % 16 * 16 +
      (b.toNat % 16 * 4 + c.toNat / 64) / 4 = b.toNat := by omega
  have hthird : (b.toNat % 16 * 4 + c.toNat / 64) % 4 * 64 + c.toNat % 64 = c.toNat := by omega
  simp only [fullBytes, value_digit (show a.toNat / 4 < 64 by omega),
    value_digit (show a.toNat % 4 * 16 + b.toNat / 16 < 64 by omega),
    value_digit (show b.toNat % 16 * 4 + c.toNat / 64 < 64 by omega),
    value_digit (show c.toNat % 64 < 64 by omega), hfirst, hsecond, hthird, UInt8.ofNat_toNat]

/-- The decoder undoes the encoder. -/
theorem decode_encode (b : List UInt8) : decode (encode b) = some b := by
  induction b using encode.induct with
  | case1 => rfl
  | case2 a =>
      rw [encode, decode, if_pos rfl, if_neg (by simp), if_pos rfl]
      exact lastByte_digit a
  | case3 a b =>
      have hb := b.toNat_lt
      rw [encode, decode, if_pos rfl, if_neg (by simp), if_neg (digit_ne_pad (by omega))]
      exact lastBytes_digit a b
  | case4 a b c rest ih =>
      rw [encode, decode, if_neg (digit_ne_pad (by omega)), fullBytes_digit, ih]
      rfl

/-! ## what a text looks like -/

/-- A text is of printing ASCII characters. -/
theorem printing_of_mem_encode {b : List UInt8} {c : Char} (h : c ∈ encode b) :
    32 < c.toNat ∧ c.toNat < 127 := by
  have hpad : 32 < '='.toNat ∧ '='.toNat < 127 := by decide
  induction b using encode.induct with
  | case1 => simp [encode] at h
  | case2 x =>
      have hx := x.toNat_lt
      simp only [encode, List.mem_cons, List.not_mem_nil, or_false] at h
      rcases h with rfl | rfl | rfl | rfl
      · exact digit_printing (by omega)
      · exact digit_printing (by omega)
      · exact hpad
      · exact hpad
  | case3 x y =>
      have hx := x.toNat_lt
      have hy := y.toNat_lt
      simp only [encode, List.mem_cons, List.not_mem_nil, or_false] at h
      rcases h with rfl | rfl | rfl | rfl
      · exact digit_printing (by omega)
      · exact digit_printing (by omega)
      · exact digit_printing (by omega)
      · exact hpad
  | case4 x y z rest ih =>
      have hx := x.toNat_lt
      have hy := y.toNat_lt
      have hz := z.toNat_lt
      simp only [encode, List.mem_cons] at h
      rcases h with rfl | rfl | rfl | rfl | h
      · exact digit_printing (by omega)
      · exact digit_printing (by omega)
      · exact digit_printing (by omega)
      · exact digit_printing (by omega)
      · exact ih h

/-- A text is padded unless the bytes come in threes. -/
theorem pad_mem_encode {b : List UInt8} (h : b.length % 3 ≠ 0) : '=' ∈ encode b := by
  induction b using encode.induct with
  | case1 => simp at h
  | case2 x => simp [encode]
  | case3 x y => simp [encode]
  | case4 x y z rest ih =>
      rw [List.length_cons, List.length_cons, List.length_cons] at h
      have hrest := ih (by omega)
      simp only [encode, List.mem_cons]
      exact .inr (.inr (.inr (.inr hrest)))

end Base64
