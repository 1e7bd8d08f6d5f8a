import Mathlib.Data.List.TakeWhile
import Mathlib.Tactic.Common

/-!
# Deltaship.Lib.Text

String operations as Rust's standard library documents them, where Lean's own
differ or do not reduce: trimming by the Unicode `White_Space` property,
searching for a substring and splitting at one.
-/

namespace Text

/-- `char::is_whitespace`: the Unicode `White_Space` property. -/
def isWhitespace (c : Char) : Bool :=
  let n := c.toNat
  (9 ≤ n && n ≤ 13) || n == 32 || n == 0x85 || n == 0xA0 || n == 0x1680 ||
    (0x2000 ≤ n && n ≤ 0x200A) || n == 0x2028 || n == 0x2029 || n == 0x202F ||
    n == 0x205F || n == 0x3000

/-- `char::is_ascii`. -/
def isAscii (c : Char) : Bool := c.toNat < 128

/-- `str::to_ascii_lowercase`. -/
def asciiLower (s : String) : String := String.ofList (s.toList.map Char.toLower)

/-- Drop the leading and the trailing elements that satisfy `p`. -/
def trimMatches (p : Char → Bool) (l : List Char) : List Char :=
  ((l.dropWhile p).reverse.dropWhile p).reverse

/-- `str::trim`. -/
def trim (s : String) : String := String.ofList (trimMatches isWhitespace s.toList)

/-- `str::len`: the length in bytes. -/
def byteLen (s : String) : Nat := s.utf8ByteSize

/-- Whether `needle` occurs in `hay`. -/
def hasInfix (needle : List Char) : List Char → Bool
  | [] => needle.isEmpty
  | c :: cs => needle.isPrefixOf (c :: cs) || hasInfix needle cs

/-- `str::contains` with a string pattern. -/
def contains (s needle : String) : Bool := hasInfix needle.toList s.toList

/-- `str::starts_with`. -/
def startsWith (s pre : String) : Bool := pre.toList.isPrefixOf s.toList

/-- `str::ends_with`. -/
def endsWith (s post : String) : Bool := post.toList.isSuffixOf s.toList

/-- `str::strip_prefix`. -/
def stripPrefix (pre l : List Char) : Option (List Char) :=
  if pre.isPrefixOf l then some (l.drop pre.length) else none

/-- The text before the first occurrence of `sep` and the text after it. -/
def splitFirst (sep : List Char) : List Char → Option (List Char × List Char)
  | [] => if sep.isEmpty then some ([], []) else none
  | c :: cs =>
    if sep.isPrefixOf (c :: cs) then
      some ([], (c :: cs).drop sep.length)
    else
      (splitFirst sep cs).map fun p => (c :: p.1, p.2)

/-- `str::split` with a non-empty string pattern: the pieces between successive
occurrences.  Every piece but the last costs at least one character, so the
length of the text bounds the number of splits. -/
def splitAux (sep : List Char) : Nat → List Char → List (List Char)
  | 0, l => [l]
  | n + 1, l =>
    match splitFirst sep l with
    | none => [l]
    | some (a, rest) => a :: splitAux sep n rest

/-- `str::split` with a non-empty string pattern. -/
def split (s sep : String) : List String :=
  (splitAux sep.toList s.toList.length s.toList).map String.ofList

/-- `str::split_whitespace`. -/
def words (l : List Char) : List (List Char) :=
  go l.length l
where
  go : Nat → List Char → List (List Char)
    | 0, _ => []
    | n + 1, l =>
      match l.dropWhile isWhitespace with
      | [] => []
      | c :: cs =>
        let w := (c :: cs).takeWhile fun x => !isWhitespace x
        w :: go n ((c :: cs).dropWhile fun x => !isWhitespace x)

/-- Decimal digits, at least one. -/
def parseDigits (l : List Char) : Option Nat :=
  if !l.isEmpty && l.all Char.isDigit then
    some (l.foldl (fun n c => 10 * n + (c.toNat - 48)) 0)
  else none

/-- `str::parse` for an unsigned integer below `bound`: an optional plus sign
and decimal digits. -/
def parseUnsigned (bound : Nat) (l : List Char) : Option Nat :=
  let digits := match l with
    | '+' :: ds => ds
    | ds => ds
  match parseDigits digits with
  | some n => if n < bound then some n else none
  | none => none

/-- `str::parse` for a signed integer of at least `-bound` and below `bound`. -/
def parseSigned (bound : Nat) : List Char → Option Int
  | '-' :: ds =>
    match parseDigits ds with
    | some n => if n ≤ bound then some (-n) else none
    | none => none
  | l => (parseUnsigned bound l).map Int.ofNat

/-! ## trimming -/

section Trim

variable {p : Char → Bool} {l pre post : List Char}

/-- Nothing is dropped if the first character does not match. -/
theorem dropWhile_of_head (h : ∀ c ∈ l.head?, p c = false) : l.dropWhile p = l := by
  cases l with
  | nil => rfl
  | cons c cs => simp [h c rfl]

theorem trimMatches_append_left (h : ∀ c ∈ pre, p c = true) :
    trimMatches p (pre ++ l) = trimMatches p l := by
  rw [trimMatches, trimMatches, List.dropWhile_append_of_pos h]

/-- Nothing is cut off a text that begins and ends with what is kept. -/
theorem trimMatches_of_ends (hfirst : ∀ c ∈ l.head?, p c = false)
    (hlast : ∀ c ∈ l.getLast?, p c = false) : trimMatches p l = l := by
  have hreverse : ∀ c ∈ l.reverse.head?, p c = false := by rwa [List.head?_reverse]
  rw [trimMatches, dropWhile_of_head hfirst, dropWhile_of_head hreverse, List.reverse_reverse]

/-- A text in which nothing matches is trimmed to itself. -/
theorem trimMatches_of_forall (h : ∀ c ∈ l, p c = false) : trimMatches p l = l :=
  trimMatches_of_ends (fun c hc => h c (List.mem_of_head? hc))
    fun c hc => h c (List.mem_of_getLast? hc)

/-- Of a text in the middle exactly that is left. -/
theorem trimMatches_surround (hpre : ∀ c ∈ pre, p c = true) (hpost : ∀ c ∈ post, p c = true)
    (hfirst : ∀ c ∈ l.head?, p c = false) (hlast : ∀ c ∈ l.getLast?, p c = false) :
    trimMatches p (pre ++ (l ++ post)) = l := by
  rw [trimMatches_append_left hpre]
  cases l with
  | nil =>
      have hnil : post.dropWhile p = [] := List.dropWhile_eq_nil_iff.mpr hpost
      rw [List.nil_append, trimMatches, hnil]
      rfl
  | cons c cs =>
      have hreverse : ∀ d ∈ (c :: cs).reverse.head?, p d = false := by rwa [List.head?_reverse]
      have hkeep : ((c :: cs) ++ post).dropWhile p = (c :: cs) ++ post :=
        dropWhile_of_head fun d hd => hfirst d (by simpa using hd)
      rw [trimMatches, hkeep, List.reverse_append,
        List.dropWhile_append_of_pos fun d hd => hpost d (List.mem_reverse.mp hd),
        dropWhile_of_head hreverse, List.reverse_reverse]

/-- What is cut off stands around what is left. -/
theorem exists_trimMatches (p : Char → Bool) (l : List Char) :
    ∃ pre post, l = pre ++ (trimMatches p l ++ post) ∧ (∀ c ∈ pre, p c = true) ∧
      ∀ c ∈ post, p c = true := by
  refine ⟨l.takeWhile p, ((l.dropWhile p).reverse.takeWhile p).reverse, ?_,
    fun c hc => List.mem_takeWhile_imp hc,
    fun c hc => List.mem_takeWhile_imp (List.mem_reverse.mp hc)⟩
  rw [trimMatches, ← List.reverse_append, List.takeWhile_append_dropWhile, List.reverse_reverse,
    List.takeWhile_append_dropWhile]

/-- A trimmed text does not begin with what is trimmed. -/
theorem head?_trimMatches : ∀ c ∈ (trimMatches p l).head?, p c = false := by
  intro c hc
  have hprefix : trimMatches p l <+: l.dropWhile p := by
    rw [trimMatches, ← List.reverse_suffix, List.reverse_reverse]
    exact List.dropWhile_suffix p
  have hhead := List.head?_dropWhile_not p l
  cases htrim : trimMatches p l with
  | nil => simp [htrim] at hc
  | cons d ds =>
      rw [htrim] at hc hprefix
      obtain ⟨rest, hrest⟩ := hprefix
      rw [← hrest] at hhead
      obtain rfl : d = c := by simpa using hc
      simpa using hhead

theorem getLast?_trimMatches : ∀ c ∈ (trimMatches p l).getLast?, p c = false := by
  intro c hc
  rw [trimMatches, List.getLast?_reverse] at hc
  have hhead := List.head?_dropWhile_not p (l.dropWhile p).reverse
  rw [hc] at hhead
  simpa using hhead

/-- What matches at the end is trimmed away. -/
theorem trimMatches_append_right (h : ∀ c ∈ post, p c = true) :
    trimMatches p (l ++ post) = trimMatches p l := by
  obtain ⟨front, back, hl, hfront, hback⟩ := exists_trimMatches p l
  have hpost : ∀ c ∈ back ++ post, p c = true := fun c hc =>
    (List.mem_append.mp hc).elim (hback c) (h c)
  conv_lhs => rw [hl, List.append_assoc, List.append_assoc]
  exact trimMatches_surround hfront hpost head?_trimMatches getLast?_trimMatches

/-- Only what satisfies `p` is cut off. -/
theorem filter_trimMatches (l : List Char) :
    (trimMatches p l).filter (fun c => !p c) = l.filter fun c => !p c := by
  obtain ⟨front, back, hl, hfront, hback⟩ := exists_trimMatches p l
  have hnil : ∀ l' : List Char, (∀ c ∈ l', p c = true) → l'.filter (fun c => !p c) = [] := by
    intro l' h
    simpa using h
  conv_rhs => rw [hl]
  simp [List.filter_append, hnil _ hfront, hnil _ hback]

end Trim

/-! ## numbers -/

/-- The digits of a number are parsed as that number. -/
theorem parseDigits_toDigits (n : Nat) : parseDigits (Nat.toDigits 10 n) = some n := by
  have hdigits : (Nat.toDigits 10 n).all Char.isDigit = true := by
    rw [List.all_eq_true]
    intro c hc
    exact Nat.isDigit_of_mem_toDigits (by decide) (by decide) hc
  have hne : (Nat.toDigits 10 n).isEmpty = false := by simp [Nat.toDigits_ne_nil]
  unfold parseDigits
  rw [hne, hdigits]
  exact congrArg some Nat.ofDigitChars_ten_toDigits

/-- The first digit of a number is no sign. -/
theorem toDigits_ne_cons {c : Char} (hc : c.isDigit = false) (n : Nat) (l : List Char) :
    Nat.toDigits 10 n ≠ c :: l := by
  intro h
  have hmem : c ∈ Nat.toDigits 10 n := by simp [h]
  rw [Nat.isDigit_of_mem_toDigits (by decide) (by decide) hmem] at hc
  contradiction

/-- So they are with a bound that the number is below. -/
theorem parseUnsigned_toDigits {bound n : Nat} (h : n < bound) :
    parseUnsigned bound (Nat.toDigits 10 n) = some n := by
  unfold parseUnsigned
  split
  · next ds heq => exact absurd heq (toDigits_ne_cons (by decide) n ds)
  · simp [parseDigits_toDigits, h]

/-- A number that is printed and parsed is the number. -/
theorem parseUnsigned_toString {bound n : Nat} (h : n < bound) :
    parseUnsigned bound (toString n).toList = some n := by
  rw [show (toString n).toList = Nat.toDigits 10 n from String.toList_ofList]
  exact parseUnsigned_toDigits h

/-- A natural number that is displayed is parsed as a signed one. -/
theorem parseSigned_toString {bound n : Nat} (h : n < bound) :
    parseSigned bound (toString n).toList = some (n : Int) := by
  rw [show (toString n).toList = Nat.toDigits 10 n from String.toList_ofList]
  unfold parseSigned
  split
  · next ds heq => exact absurd heq (toDigits_ne_cons (by decide) n ds)
  · simp [parseUnsigned_toDigits h]

/-! ## searching and splitting -/

theorem hasInfix_iff {needle l : List Char} : hasInfix needle l = true ↔ needle <:+: l := by
  induction l with
  | nil => simp [hasInfix]
  | cons c cs ih => simp [hasInfix, ih, List.infix_cons_iff]

/-- A prefix of a longer text that fits into a shorter one is a prefix of it. -/
theorem isPrefixOf_append_of_length_le {needle a b : List Char} (h : needle.length ≤ a.length) :
    needle.isPrefixOf (a ++ b) = needle.isPrefixOf a := by
  rw [Bool.eq_iff_iff, List.isPrefixOf_iff_prefix, List.isPrefixOf_iff_prefix]
  constructor
  · intro hpre
    exact List.prefix_of_prefix_length_le hpre (List.prefix_append a b) h
  · intro hpre
    exact hpre.trans (List.prefix_append a b)

/-- Where neither of two texts starts with the other, what follows does not matter. -/
theorem isPrefixOf_append_eq_false {a b : List Char} (hab : ¬ a <+: b) (hba : ¬ b <+: a)
    (l : List Char) : a.isPrefixOf (b ++ l) = false := by
  rw [← Bool.not_eq_true, List.isPrefixOf_iff_prefix]
  intro h
  exact (List.prefix_or_prefix_of_prefix h (List.prefix_append b l)).elim hab hba

/-- The parts and the separator are the text. -/
theorem eq_of_splitFirst {sep l a b : List Char} (h : splitFirst sep l = some (a, b)) :
    l = a ++ (sep ++ b) := by
  induction l generalizing a with
  | nil =>
      unfold splitFirst at h
      split at h
      · next hsep => simp_all
      · contradiction
  | cons c cs ih =>
      unfold splitFirst at h
      split at h
      · next hpre =>
          obtain ⟨rfl, rfl⟩ := Prod.mk.inj (Option.some.inj h)
          obtain ⟨rest, hrest⟩ := List.isPrefixOf_iff_prefix.mp hpre
          simp [← hrest]
      · obtain ⟨⟨a', b'⟩, hfirst, heq⟩ := Option.map_eq_some_iff.mp h
        obtain ⟨rfl, rfl⟩ := Prod.mk.inj heq
        rw [ih hfirst]
        rfl

/-- There is nothing to split at exactly if the separator does not occur. -/
theorem splitFirst_eq_none_iff {sep l : List Char} (hsep : sep ≠ []) :
    splitFirst sep l = none ↔ hasInfix sep l = false := by
  induction l with
  | nil => simp [splitFirst, hasInfix, hsep]
  | cons c cs ih =>
      unfold splitFirst hasInfix
      split
      · next h => simp [h]
      · next h => simp [h, ih]

/-- A separator between two texts is the first one exactly if it does not begin
any earlier. -/
theorem splitFirst_append_iff {sep a b : List Char} (hsep : sep ≠ []) :
    splitFirst sep (a ++ (sep ++ b)) = some (a, b) ↔ hasInfix sep (a ++ sep.dropLast) = false := by
  have hpos : 0 < sep.length := List.length_pos_iff.mpr hsep
  induction a with
  | nil =>
      obtain ⟨c, cs, rfl⟩ := List.exists_cons_of_ne_nil hsep
      have hfirst : splitFirst (c :: cs) ((c :: cs) ++ b) = some ([], b) := by
        rw [List.cons_append, splitFirst, if_pos (by simp)]
        simp
      have hshort : hasInfix (c :: cs) (c :: cs).dropLast = false := by
        rw [Bool.eq_false_iff, Ne, hasInfix_iff]
        intro h
        have hlength := h.length_le
        rw [List.length_dropLast, List.length_cons] at hlength
        omega
      simp only [List.nil_append, hfirst, hshort]
  | cons c cs ih =>
      have hlen : sep.length ≤ (c :: cs ++ sep.dropLast).length := by
        rw [List.length_append, List.length_dropLast, List.length_cons]
        omega
      have hprefix : sep.isPrefixOf (c :: (cs ++ (sep ++ b))) =
          sep.isPrefixOf (c :: (cs ++ sep.dropLast)) := by
        have hsplit : c :: (cs ++ (sep ++ b)) =
            (c :: cs ++ sep.dropLast) ++ (sep.getLast hsep :: b) := by
          conv_lhs => rw [← List.dropLast_concat_getLast hsep]
          simp
        rw [hsplit, isPrefixOf_append_of_length_le hlen, List.cons_append]
      rw [List.cons_append, splitFirst, List.cons_append, hasInfix, hprefix]
      split
      · next h => simp [h]
      · next h =>
          rw [Bool.not_eq_true] at h
          rw [h, Bool.false_or, ih.symm]
          cases splitFirst sep (cs ++ (sep ++ b)) <;> simp [Prod.ext_iff]

theorem splitAux_ne_nil (sep : List Char) (n : Nat) (l : List Char) : splitAux sep n l ≠ [] := by
  cases n with
  | zero => simp [splitAux]
  | succ n =>
      rw [splitAux]
      split <;> simp

/-- A text splits into two pieces exactly if the separator stands once between
them, and in neither. -/
theorem splitAux_eq_pair_iff {sep a b : List Char} {n : Nat} (hsep : sep ≠ []) :
    splitAux sep (n + 2) (a ++ (sep ++ b)) = [a, b] ↔
      hasInfix sep (a ++ sep.dropLast) = false ∧ hasInfix sep b = false := by
  rw [← splitFirst_append_iff hsep, ← splitFirst_eq_none_iff hsep, splitAux]
  constructor
  · intro h
    split at h
    · simp at h
    · next x rest hfirst =>
        obtain ⟨rfl, hrest⟩ := List.cons.inj h
        rw [splitAux] at hrest
        split at hrest
        · next hnone =>
            obtain rfl := (List.cons.inj hrest).1
            exact ⟨hfirst, hnone⟩
        · exact absurd (List.cons.inj hrest).2 (splitAux_ne_nil _ _ _)
  · rintro ⟨hfirst, hnone⟩
    simp [hfirst, splitAux, hnone]

/-! ## words -/

/- Words are what white space separates. A search in a text is a search in its words if what is
looked for has no white space in it. -/

/-- A text without a separator that a longer one starts with ends before the separator. -/
theorem prefix_append_cons {α : Type} {x a b : List α} {s : α} (hs : s ∉ x)
    (h : x <+: a ++ s :: b) : x <+: a := by
  have hfront : a ++ [s] <+: a ++ s :: b := ⟨b, by simp⟩
  rcases List.prefix_or_prefix_of_prefix h hfront with hpre | hpre
  · rcases List.prefix_concat_iff.mp hpre with heq | hpre
    · exact absurd (by simp [heq]) hs
    · exact hpre
  · exact absurd (hpre.subset (by simp)) hs

/-- A text without a separator stands on one side of it. -/
theorem infix_append_cons {α : Type} {x a b : List α} {s : α} (hs : s ∉ x)
    (h : x <:+: a ++ s :: b) : x <:+: a ∨ x <:+: b := by
  induction a with
  | nil =>
      rcases List.infix_cons_iff.mp h with hpre | hinf
      · exact .inl (prefix_append_cons (a := []) hs hpre).isInfix
      · exact .inr hinf
  | cons c a ih =>
      rcases List.infix_cons_iff.mp h with hpre | hinf
      · exact .inl (prefix_append_cons (a := c :: a) hs hpre).isInfix
      · exact (ih hinf).imp List.infix_cons id

/-- Skipping white space loses no text without white space. -/
theorem infix_dropWhile {x l : List Char} (hx : x ≠ []) (hwhite : ∀ c ∈ x, isWhitespace c = false)
    (h : x <:+: l) : x <:+: l.dropWhile isWhitespace := by
  induction l with
  | nil => exact h
  | cons c l ih =>
      by_cases hc : isWhitespace c = true
      · rw [List.dropWhile_cons_of_pos hc]
        have hnot : c ∉ x := fun hmem => by simp [hwhite c hmem] at hc
        rcases infix_append_cons (a := []) hnot h with hnil | hrest
        · exact absurd (List.infix_nil.mp hnil) hx
        · exact ih hrest
      · rwa [List.dropWhile_cons_of_neg hc]

/-- A text without white space stands in one of the words. -/
theorem infix_words {x l : List Char} (hx : x ≠ [])
    (hwhite : ∀ c ∈ x, isWhitespace c = false) (h : x <:+: l) : ∃ w ∈ words l, x <:+: w := by
  have hgo : ∀ n l, l.length ≤ n → x <:+: l → ∃ w ∈ words.go n l, x <:+: w := by
    intro n
    induction n with
    | zero =>
        intro l hlen h
        obtain rfl := List.length_eq_zero_iff.mp (Nat.le_zero.mp hlen)
        exact absurd (List.infix_nil.mp h) hx
    | succ n ih =>
        intro l hlen h
        have hskip := infix_dropWhile hx hwhite h
        have hshort := (List.dropWhile_suffix isWhitespace (l := l)).length_le
        unfold words.go
        cases hrest : l.dropWhile isWhitespace with
        | nil =>
            rw [hrest] at hskip
            exact absurd (List.infix_nil.mp hskip) hx
        | cons c cs =>
            rw [hrest] at hskip hshort
            have hsplit := List.takeWhile_append_dropWhile (p := fun x => !isWhitespace x)
              (l := c :: cs)
            have hc : (!isWhitespace c) = true := by
              have hhead := List.head?_dropWhile_not isWhitespace l
              simpa [hrest] using hhead
            cases hafter : (c :: cs).dropWhile fun x => !isWhitespace x with
            | nil =>
                rw [hafter, List.append_nil] at hsplit
                exact ⟨_, List.mem_cons_self, by rwa [hsplit]⟩
            | cons s rest =>
                have hs : isWhitespace s = true := by
                  have hhead := List.head?_dropWhile_not (fun x => !isWhitespace x) (c :: cs)
                  simpa [hafter] using hhead
                rw [← hsplit, hafter] at hskip
                have hnot : s ∉ x := fun hmem => by simp [hwhite s hmem] at hs
                rcases infix_append_cons hnot hskip with hword | hlater
                · exact ⟨_, List.mem_cons_self, hword⟩
                · have hlength : (s :: rest).length ≤ n := by
                    rw [← hafter, List.dropWhile_cons_of_pos (p := fun x => !isWhitespace x) hc]
                    have := (List.dropWhile_suffix (fun x => !isWhitespace x) (l := cs)).length_le
                    simp only [List.length_cons] at hshort
                    omega
                  obtain ⟨w, hw, hin⟩ := ih (s :: rest) hlength (List.infix_cons hlater)
                  rw [← hafter] at hw
                  exact ⟨w, List.mem_cons_of_mem _ hw, hin⟩
  exact hgo l.length l (Nat.le_refl _) h

/-- The fuel of `words` does not matter once it is enough. -/
theorem words_go_of_length_le {n m : Nat} {l : List Char} (hn : l.length ≤ n) (hm : l.length ≤ m) :
    words.go n l = words.go m l := by
  induction n generalizing m l with
  | zero =>
      obtain rfl := List.length_eq_zero_iff.mp (Nat.le_zero.mp hn)
      cases m <;> rfl
  | succ n ih =>
      cases m with
      | zero =>
          obtain rfl := List.length_eq_zero_iff.mp (Nat.le_zero.mp hm)
          rfl
      | succ m =>
          have hshort := (List.dropWhile_suffix isWhitespace (l := l)).length_le
          unfold words.go
          cases hrest : l.dropWhile isWhitespace with
          | nil => rfl
          | cons c cs =>
              have hc : (!isWhitespace c) = true := by
                have hhead := List.head?_dropWhile_not isWhitespace l
                simpa [hrest] using hhead
              have hlater := (List.dropWhile_suffix (fun x => !isWhitespace x) (l := cs)).length_le
              rw [hrest, List.length_cons] at hshort
              dsimp only
              rw [List.dropWhile_cons_of_pos (p := fun x => !isWhitespace x) hc,
                ih (m := m) (by omega) (by omega)]

@[simp] theorem words_nil : words [] = [] := rfl

theorem words_cons_white {c : Char} {l : List Char} (hc : isWhitespace c = true) :
    words (c :: l) = words l := by
  have hdrop : (c :: l).dropWhile isWhitespace = l.dropWhile isWhitespace :=
    List.dropWhile_cons_of_pos hc
  have hlong : words (c :: l) = words.go (l.length + 1) l := by
    show words.go (l.length + 1) (c :: l) = _
    unfold words.go
    rw [hdrop]
  rw [hlong]
  exact words_go_of_length_le (Nat.le_succ _) (Nat.le_refl _)

/-- A word lasts up to the next white space. -/
theorem words_cons_black {c : Char} {l : List Char} (hc : isWhitespace c = false) :
    words (c :: l) = ((c :: l).takeWhile fun x => !isWhitespace x) ::
      words ((c :: l).dropWhile fun x => !isWhitespace x) := by
  have hdrop : (c :: l).dropWhile isWhitespace = c :: l :=
    List.dropWhile_cons_of_neg (by simp [hc])
  have hshort := (List.dropWhile_suffix (fun x => !isWhitespace x) (l := l)).length_le
  have hlater : (c :: l).dropWhile (fun x => !isWhitespace x) =
      l.dropWhile fun x => !isWhitespace x := List.dropWhile_cons_of_pos (by simp [hc])
  show words.go (l.length + 1) (c :: l) = _
  rw [words.go, hdrop]
  dsimp only
  rw [hlater]
  exact congrArg _ (words_go_of_length_le hshort (Nat.le_refl _))

/-- White space is between words. -/
theorem words_append_cons {s : Char} {a b : List Char} (hs : isWhitespace s = true) :
    words (a ++ s :: b) = words a ++ words b := by
  induction hlength : a.length using Nat.strongRecOn generalizing a with
  | ind n ih =>
      subst hlength
      cases a with
      | nil => rw [List.nil_append, words_cons_white hs, words_nil, List.nil_append]
      | cons c a =>
          cases hc : isWhitespace c with
          | true =>
              rw [List.cons_append, words_cons_white hc, words_cons_white hc]
              exact ih a.length (by simp) rfl
          | false =>
              have hsplit := List.takeWhile_append_dropWhile (p := fun x => !isWhitespace x)
                (l := c :: a)
              rw [words_cons_black hc, List.cons_append, words_cons_black hc, ← List.cons_append]
              cases hrest : (c :: a).dropWhile fun x => !isWhitespace x with
              | nil =>
                  rw [hrest, List.append_nil] at hsplit
                  have hall : ∀ x ∈ c :: a, (!isWhitespace x) = true := by
                    intro x hx
                    rw [← hsplit] at hx
                    exact List.mem_takeWhile_imp (p := fun x => !isWhitespace x) hx
                  rw [List.takeWhile_append_of_pos hall, List.dropWhile_append_of_pos hall,
                    List.takeWhile_cons_of_neg (by simp [hs]),
                    List.dropWhile_cons_of_neg (by simp [hs]), words_cons_white hs, hsplit]
                  simp
              | cons d ds =>
                  have hd : isWhitespace d = true := by
                    have hhead := List.head?_dropWhile_not (fun x => !isWhitespace x) (c :: a)
                    simpa [hrest] using hhead
                  have hword : ∀ x ∈ (c :: a).takeWhile (fun x => !isWhitespace x),
                      (!isWhitespace x) = true := fun x hx =>
                        List.mem_takeWhile_imp (p := fun x => !isWhitespace x) hx
                  have hshort : (d :: ds).length < (c :: a).length := by
                    have hlater :=
                      (List.dropWhile_suffix (fun x => !isWhitespace x) (l := a)).length_le
                    rw [List.dropWhile_cons_of_pos (p := fun x => !isWhitespace x) (by simp [hc])]
                      at hrest
                    rw [hrest] at hlater
                    exact Nat.lt_succ_of_le hlater
                  rw [hrest] at hsplit
                  generalize ((c :: a).takeWhile fun x => !isWhitespace x) = word at hsplit hword
                  have htext : c :: a ++ s :: b = word ++ (d :: (ds ++ s :: b)) := by
                    rw [← hsplit, List.append_assoc, List.cons_append]
                  rw [htext, List.takeWhile_append_of_pos hword, List.dropWhile_append_of_pos hword,
                    List.takeWhile_cons_of_neg (by simp [hd]),
                    List.dropWhile_cons_of_neg (by simp [hd]), List.append_nil, ← List.cons_append,
                    ih _ hshort rfl, List.cons_append]

/-- A printing ASCII character is no white space. -/
theorem isWhitespace_of_printing {c : Char} (hlow : 32 < c.toNat) (hhigh : c.toNat < 127) :
    isWhitespace c = false := by
  simp only [isWhitespace, Bool.or_eq_false_iff, Bool.and_eq_false_iff, decide_eq_false_iff_not,
    beq_eq_false_iff_ne]
  omega

/-- The digits, by their numbers. -/
theorem isDigit_iff {c : Char} : c.isDigit = true ↔ 48 ≤ c.toNat ∧ c.toNat ≤ 57 := by
  simp [Char.isDigit, UInt32.le_iff_toNat_le]

/-- The letters, by their numbers. -/
theorem isAlpha_iff {c : Char} : c.isAlpha = true ↔
    (65 ≤ c.toNat ∧ c.toNat ≤ 90) ∨ (97 ≤ c.toNat ∧ c.toNat ≤ 122) := by
  have hcases : c.isAlpha = (decide (c.val ≥ 65 ∧ c.val ≤ 90) ||
      (decide (c.val ≥ 97) && decide (c.val ≤ 122))) := rfl
  simp [hcases, UInt32.le_iff_toNat_le]

/-- The characters of a decimal number. -/
theorem toNat_of_mem_toDigits {c : Char} {n : Nat} (hc : c ∈ Nat.toDigits 10 n) :
    48 ≤ c.toNat ∧ c.toNat ≤ 57 :=
  isDigit_iff.mp (Nat.isDigit_of_mem_toDigits (by decide) (by decide) hc)

/-- Only the letters from `A` to `Z` are changed by lower-casing, by a constant. -/
theorem toLower_cases (c : Char) :
    (65 ≤ c.toNat ∧ c.toNat ≤ 90 ∧ c.toLower.toNat = c.toNat + 32) ∨
      ¬ (65 ≤ c.toNat ∧ c.toNat ≤ 90) ∧ c.toLower = c := by
  have hA : 'A'.val.toNat = 65 := rfl
  have hZ : 'Z'.val.toNat = 90 := rfl
  have hval : c.toNat = c.val.toNat := rfl
  unfold Char.toLower
  split
  · next h =>
      have hlow := UInt32.le_iff_toNat_le.mp h.1
      have hhigh := UInt32.le_iff_toNat_le.mp h.2
      refine .inl ⟨by omega, by omega, ?_⟩
      show (c.val + ('a'.val - 'A'.val)).toNat = _
      have hshift : ('a'.val - 'A'.val).toNat = 32 := rfl
      rw [UInt32.toNat_add, hshift, ← hval]
      omega
  · next h =>
      refine .inr ⟨fun hboth => h ⟨?_, ?_⟩, rfl⟩
      · exact UInt32.le_iff_toNat_le.mpr (by omega)
      · exact UInt32.le_iff_toNat_le.mpr (by omega)

/-- A letter that is lower case already stays so. -/
theorem toLower_toLower (c : Char) : c.toLower.toLower = c.toLower := by
  rcases toLower_cases c with ⟨hlow, -, hlower⟩ | ⟨-, hsame⟩
  · rcases toLower_cases c.toLower with ⟨-, hhigh, -⟩ | ⟨-, hsame⟩
    · omega
    · exact hsame
  · rw [hsame, hsame]

/-- White space has no case. -/
theorem toLower_of_isWhitespace {c : Char} (h : isWhitespace c = true) : c.toLower = c := by
  simp only [isWhitespace, Bool.or_eq_true, Bool.and_eq_true, decide_eq_true_eq, beq_iff_eq] at h
  rcases toLower_cases c with ⟨hlow, hhigh, -⟩ | ⟨-, hsame⟩
  · omega
  · exact hsame

/-- A text without white space that stands in a lower-case text stands in one of its
words. -/
theorem infix_lower_words {x l : List Char} (hx : x ≠ [])
    (hwhite : ∀ c ∈ x, isWhitespace c = false) (h : x <:+: l.map Char.toLower) :
    ∃ w ∈ words l, x <:+: w.map Char.toLower := by
  obtain ⟨before, after, heq⟩ := h
  obtain ⟨front, last, rfl, hfront, -⟩ := List.map_eq_append_iff.mp heq.symm
  obtain ⟨first, y, rfl, -, rfl⟩ := List.map_eq_append_iff.mp hfront
  have hy : y ≠ [] := fun hnil => hx (by simp [hnil])
  have hywhite : ∀ c ∈ y, isWhitespace c = false := by
    intro c hc
    have hlower := hwhite c.toLower (List.mem_map_of_mem hc)
    by_contra hspace
    have hspace : isWhitespace c = true := by simpa using hspace
    rw [toLower_of_isWhitespace hspace, hspace] at hlower
    contradiction
  obtain ⟨w, hw, hin⟩ := infix_words hy hywhite ⟨first, last, rfl⟩
  exact ⟨w, hw, hin.map Char.toLower⟩

/-- A word is a part of the text. -/
theorem infix_of_mem_words {w l : List Char} (h : w ∈ words l) : w <:+: l := by
  have hgo : ∀ n l, w ∈ words.go n l → w <:+: l := by
    intro n
    induction n with
    | zero => intro l h; simp [words.go] at h
    | succ n ih =>
        intro l h
        unfold words.go at h
        have hsuffix := List.dropWhile_suffix isWhitespace (l := l)
        cases hrest : l.dropWhile isWhitespace with
        | nil => simp [hrest] at h
        | cons c cs =>
            simp only [hrest] at h
            rw [hrest] at hsuffix
            rcases List.mem_cons.mp h with rfl | h
            · exact (List.takeWhile_prefix _).isInfix.trans hsuffix.isInfix
            · exact ((ih _ h).trans (List.dropWhile_suffix _).isInfix).trans hsuffix.isInfix
  exact hgo l.length l h

/-! ## reading back -/

/-- What stands before the first separator can be read back from a text. -/
theorem append_cons_inj {α : Type} {sep : α} {x y z z' : List α} (hx : sep ∉ x) (hy : sep ∉ y)
    (h : x ++ sep :: z = y ++ sep :: z') : x = y ∧ z = z' := by
  induction x generalizing y with
  | nil =>
      cases y with
      | nil => exact ⟨rfl, (List.cons.inj h).2⟩
      | cons c y => exact absurd (List.cons.inj h).1 (List.ne_of_not_mem_cons hy)
  | cons c x ih =>
      cases y with
      | nil => exact absurd (List.cons.inj h).1.symm (List.ne_of_not_mem_cons hx)
      | cons d y =>
          obtain ⟨rfl, htail⟩ := List.cons.inj h
          obtain ⟨rfl, hz⟩ := ih (List.not_mem_of_not_mem_cons hx) (List.not_mem_of_not_mem_cons hy)
            htail
          exact ⟨rfl, hz⟩

/-- A number in front of a dot can be read back from a text. -/
theorem number_dot_inj {m n : Nat} {x y : String}
    (h : toString m ++ ("." ++ x) = toString n ++ ("." ++ y)) : m = n ∧ x = y := by
  have htext : ∀ k : Nat, (toString k).toList = Nat.toDigits 10 k := fun k => String.toList_ofList
  have hdot : ∀ k : Nat, '.' ∉ (toString k).toList := by
    intro k hk
    rw [htext] at hk
    exact absurd (Nat.isDigit_of_mem_toDigits (by decide) (by decide) hk) (by decide)
  have hl := congrArg String.toList h
  rw [String.toList_append, String.toList_append, String.toList_append, String.toList_append] at hl
  obtain ⟨hnumber, hrest⟩ := append_cons_inj (hdot m) (hdot n) hl
  rw [htext, htext] at hnumber
  have hvalue := congrArg (Nat.ofDigitChars 10 · 0) hnumber
  rw [Nat.ofDigitChars_toDigits (by decide) (by decide),
    Nat.ofDigitChars_toDigits (by decide) (by decide)] at hvalue
  exact ⟨hvalue, String.toList_inj.mp hrest⟩

/-- Texts with different endings are different. -/
theorem ne_of_suffix {a b : List Char} {s t : String} (hs : a <:+ s.toList) (ht : b <:+ t.toList)
    (hab : ¬ a <:+ b) (hba : ¬ b <:+ a) : s ≠ t := by
  rintro rfl
  rcases List.suffix_or_suffix_of_suffix hs ht with h | h
  · exact hab h
  · exact hba h

end Text
