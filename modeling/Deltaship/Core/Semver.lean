import Deltaship.Core.Precedence
import Deltaship.Lib.Calendar
import Mathlib.Data.Char
import Mathlib.Data.List.Lex
import Mathlib.Data.Prod.Lex
import Mathlib.Data.Sum.Order
import Mathlib.Order.WithBot

/-!
# Deltaship.Core.Semver

The precedence of SemVer 2.0.

Section 11 compares the numbers, puts a prerelease below its release, and compares prereleases
identifier by identifier (`Precedes`).  On the versions that section 9 admits, that is the order of
a key (`Version.key_lt_iff`), so it is total, and the hand-written `cmp` and `eq` of the program
are it (`cmp_precedence`).
-/

namespace Deltaship

open Calendar

/-! ## prereleases -/

/-- The dot-separated identifiers of a prerelease. -/
def identifiers (pre : String) : List (List Char) := pre.toList.splitOn '.'

/-- An identifier of only digits. -/
def IsNumeric (id : List Char) : Prop := ∀ c ∈ id, c.isDigit = true

instance (id : List Char) : Decidable (IsNumeric id) :=
  decidable_of_iff (id.all Char.isDigit = true) List.all_eq_true

/-- The number of a numeric identifier. -/
def numericValue (id : List Char) : Nat := Nat.ofDigitChars 10 id 0

/-- An identifier of section 9: letters, digits and hyphens, no number with a leading zero. -/
structure ValidIdentifier (id : List Char) : Prop where
  ne_nil : id ≠ []
  alphabet : ∀ c ∈ id, c.isAlphanum = true ∨ c = '-'
  no_leading_zero : IsNumeric id → id.head? = some '0' → id = ['0']

/-- A prerelease of section 9. -/
def ValidPrerelease (pre : String) : Prop := ∀ id ∈ identifiers pre, ValidIdentifier id

/-- A version whose prerelease is absent or valid, as the crate builds them. -/
structure SemverVersion extends Version where
  valid : pre = "" ∨ ValidPrerelease pre

/-- Section 11.4, for two identifiers. -/
inductive IdentifierBelow : List Char → List Char → Prop
  /-- Numbers are compared numerically. -/
  | numeric {a b : List Char} : IsNumeric a → IsNumeric b → numericValue a < numericValue b →
      IdentifierBelow a b
  /-- Others are compared in ASCII order. -/
  | alphanumeric {a b : List Char} : ¬ IsNumeric a → ¬ IsNumeric b → a < b → IdentifierBelow a b
  /-- Numbers are below the others. -/
  | mixed {a b : List Char} : IsNumeric a → ¬ IsNumeric b → IdentifierBelow a b

example : IdentifierBelow ['9'] ['1', '0'] := .numeric (by decide) (by decide) (by decide)

/-- Section 11.4: the first identifier that differs decides, and the longer one is above if none
does. -/
def PrereleaseBelow (x y : String) : Prop :=
  List.Lex IdentifierBelow (identifiers x) (identifiers y)

/-- Section 11. -/
inductive Precedes (a b : Version) : Prop
  | major : a.major < b.major → Precedes a b
  | minor : a.major = b.major → a.minor < b.minor → Precedes a b
  | patch : a.major = b.major → a.minor = b.minor → a.patch < b.patch → Precedes a b
  /-- Section 11.3: a prerelease is below its release. -/
  | release : a.major = b.major → a.minor = b.minor → a.patch = b.patch → a.pre ≠ "" →
      b.pre = "" → Precedes a b
  | prerelease : a.major = b.major → a.minor = b.minor → a.patch = b.patch → a.pre ≠ "" →
      b.pre ≠ "" → PrereleaseBelow a.pre b.pre → Precedes a b

/-- `Ord for semver::Prerelease` is section 11.4, on prereleases that are not empty. -/
structure SemverCrate.Section11 (S : SemverCrate) : Prop where
  lt_iff {x y : String} : x ≠ "" → y ≠ "" → ValidPrerelease x → ValidPrerelease y →
    (S.preCmp x y = .lt ↔ PrereleaseBelow x y)
  gt_iff {x y : String} : x ≠ "" → y ≠ "" → ValidPrerelease x → ValidPrerelease y →
    (S.preCmp x y = .gt ↔ PrereleaseBelow y x)

/-! ## identifiers by their keys -/

section Identifiers

variable {a b : List Char} {c : Char} {cs : List Char}

/-- The value of an identifier is read digit by digit. -/
theorem numericValue_eq_foldl (id : List Char) :
    numericValue id = id.foldl (fun n c => 10 * n + (c.toNat - 48)) 0 := by
  rw [numericValue, Nat.ofDigitChars_eq_foldl]
  rfl

/-- So many digits make a number of that size. -/
theorem numericValue_lt (h : IsNumeric a) : numericValue a < 10 ^ a.length := by
  rw [numericValue_eq_foldl]
  exact (digits_foldl h).1

/-- A number without a leading zero has as many digits as it is written with. -/
theorem le_numericValue (h : IsNumeric (c :: cs)) (hzero : c ≠ '0') :
    10 ^ cs.length ≤ numericValue (c :: cs) := by
  have hdigit := Text.isDigit_iff.mp (h c List.mem_cons_self)
  have hne : c.toNat ≠ 48 := fun heq => hzero (Char.toNat_inj.mp heq)
  rw [numericValue, Nat.ofDigitChars_cons, Nat.ofDigitChars_eq_ofDigitChars_zero]
  have hpos : 1 ≤ 10 * 0 + (c.toNat - '0'.toNat) := by
    have : '0'.toNat = 48 := rfl
    omega
  exact (Nat.le_mul_of_pos_right _ hpos).trans (Nat.le_add_right _ _)

/-- Numbers of as many digits are different. -/
theorem eq_of_numericValue_eq_of_length (ha : IsNumeric a) (hb : IsNumeric b)
    (hlength : a.length = b.length) (h : numericValue a = numericValue b) : a = b := by
  rw [numericValue_eq_foldl, numericValue_eq_foldl] at h
  rw [← (digits_foldl ha).2, ← (digits_foldl hb).2, h, hlength]

/-- The number of digits is that of the value. -/
theorem length_le_of_numericValue_eq (ha : IsNumeric a) (hb : IsNumeric b)
    (hva : ValidIdentifier a) (hvb : ValidIdentifier b) (h : numericValue a = numericValue b) :
    a.length ≤ b.length := by
  obtain ⟨c, cs, rfl⟩ := List.exists_cons_of_ne_nil hva.ne_nil
  by_cases hzero : c = '0'
  · rw [hva.no_leading_zero ha (by simp [hzero])]
    exact List.length_pos_iff.mpr hvb.ne_nil
  · have hlt : 10 ^ cs.length < 10 ^ b.length := by
      have := le_numericValue ha hzero
      have := numericValue_lt hb
      omega
    exact (Nat.pow_lt_pow_iff_right (by decide)).mp hlt

/-- Valid numbers are equal when their values are. -/
theorem numericValue_inj (ha : IsNumeric a) (hb : IsNumeric b) (hva : ValidIdentifier a)
    (hvb : ValidIdentifier b) : numericValue a = numericValue b ↔ a = b := by
  refine ⟨fun h => ?_, congrArg numericValue⟩
  exact eq_of_numericValue_eq_of_length ha hb
    (Nat.le_antisymm (length_le_of_numericValue_eq ha hb hva hvb h)
      (length_le_of_numericValue_eq hb ha hvb hva h.symm)) h

/-- Numbers are below texts. -/
def identifierKey (id : List Char) : Nat ⊕ₗ List Char :=
  if IsNumeric id then Sum.inlₗ (numericValue id) else Sum.inrₗ id

theorem identifierBelow_iff : IdentifierBelow a b ↔ identifierKey a < identifierKey b := by
  unfold identifierKey
  split
  · next ha =>
      split
      · next hb =>
          rw [Sum.Lex.inl_lt_inl_iff]
          exact ⟨fun h => by cases h <;> first | assumption | contradiction, .numeric ha hb⟩
      · next hb => exact ⟨fun _ => Sum.Lex.inl_lt_inr _ _, fun _ => .mixed ha hb⟩
  · next ha =>
      split
      · next hb =>
          exact ⟨fun h => by cases h <;> contradiction, fun h => absurd h Sum.Lex.not_inr_lt_inl⟩
      · next hb =>
          rw [Sum.Lex.inr_lt_inr_iff]
          exact ⟨fun h => by cases h <;> first | assumption | contradiction, .alphanumeric ha hb⟩

/-- An identifier is known by its key, as it has no leading zeros. -/
theorem identifierKey_inj (hva : ValidIdentifier a) (hvb : ValidIdentifier b) :
    identifierKey a = identifierKey b ↔ a = b := by
  refine ⟨fun h => ?_, congrArg identifierKey⟩
  unfold identifierKey at h
  split at h
  · next ha =>
      split at h
      · next hb => exact (numericValue_inj ha hb hva hvb).mp (Sum.inl_injective h)
      · contradiction
  · split at h
    · contradiction
    · exact Sum.inr_injective h

end Identifiers

/-! ## versions by their keys -/

/- Each version gets a key in a linear order, so that the laws of precedence are those of this order
and need no case analysis. -/

section Keys

variable {la lb : List (List Char)} {a b : Version}

/-- Lists of identifiers are ordered as the lists of their keys. -/
theorem lex_map_identifierKey (ha : ∀ id ∈ la, ValidIdentifier id)
    (hb : ∀ id ∈ lb, ValidIdentifier id) :
    List.Lex IdentifierBelow la lb ↔ la.map identifierKey < lb.map identifierKey := by
  induction la generalizing lb with
  | nil => cases lb <;> simp
  | cons x xs ih =>
      cases lb with
      | nil => simp
      | cons y ys =>
          rw [List.forall_mem_cons] at ha hb
          rw [List.cons_lex_cons_iff, List.map_cons, List.map_cons, List.cons_lt_cons_iff,
            identifierBelow_iff, identifierKey_inj ha.1 hb.1, ih ha.2 hb.2]

theorem map_identifierKey_inj (ha : ∀ id ∈ la, ValidIdentifier id)
    (hb : ∀ id ∈ lb, ValidIdentifier id) :
    la.map identifierKey = lb.map identifierKey ↔ la = lb := by
  induction la generalizing lb with
  | nil => simp [eq_comm]
  | cons x xs ih =>
      cases lb with
      | nil => simp
      | cons y ys =>
          rw [List.forall_mem_cons] at ha hb
          simp only [List.map_cons, List.cons.injEq, identifierKey_inj ha.1 hb.1, ih ha.2 hb.2]

theorem identifiers_inj {x y : String} : identifiers x = identifiers y ↔ x = y := by
  refine ⟨fun h => ?_, congrArg identifiers⟩
  have hjoin := congrArg ['.'].intercalate h
  rw [identifiers, identifiers, List.intercalate_splitOn, List.intercalate_splitOn] at hjoin
  exact String.toList_inj.mp hjoin

/-- A release is above all of its prereleases. -/
def prereleaseKey (pre : String) : WithTop (List (Nat ⊕ₗ List Char)) :=
  if pre = "" then ⊤ else ((identifiers pre).map identifierKey : List (Nat ⊕ₗ List Char))

variable {x y : String}

/-- The key of a prerelease is the list of the keys of its identifiers. -/
theorem prereleaseKey_of_ne (h : x ≠ "") :
    prereleaseKey x = ((identifiers x).map identifierKey : List (Nat ⊕ₗ List Char)) :=
  if_neg h

/-- Prereleases are ordered as their keys, and a release comes behind all of them. -/
theorem prereleaseKey_lt_iff (hx : x = "" ∨ ValidPrerelease x) (hy : y = "" ∨ ValidPrerelease y) :
    prereleaseKey x < prereleaseKey y ↔
      x ≠ "" ∧ y = "" ∨ x ≠ "" ∧ y ≠ "" ∧ PrereleaseBelow x y := by
  by_cases hxe : x = ""
  · simp [hxe, prereleaseKey]
  · by_cases hye : y = ""
    · simp [hye, hxe, prereleaseKey]
    · rw [prereleaseKey_of_ne hxe, prereleaseKey_of_ne hye, WithTop.coe_lt_coe, PrereleaseBelow,
        lex_map_identifierKey (hx.resolve_left hxe) (hy.resolve_left hye)]
      simp [hxe, hye]

theorem prereleaseKey_inj (hx : x = "" ∨ ValidPrerelease x) (hy : y = "" ∨ ValidPrerelease y) :
    prereleaseKey x = prereleaseKey y ↔ x = y := by
  refine ⟨fun h => ?_, congrArg prereleaseKey⟩
  by_cases hxe : x = ""
  · by_cases hye : y = ""
    · rw [hxe, hye]
    · simp [prereleaseKey, hxe, hye] at h
  · by_cases hye : y = ""
    · simp [prereleaseKey, hxe, hye] at h
    · rw [prereleaseKey_of_ne hxe, prereleaseKey_of_ne hye, WithTop.coe_inj,
        map_identifierKey_inj (hx.resolve_left hxe) (hy.resolve_left hye), identifiers_inj] at h
      exact h

end Keys

namespace SemverVersion

variable {S : SemverCrate} {a b c : SemverVersion}

/-- What precedence looks at, in the order in which it does. -/
def key (v : SemverVersion) : Nat ×ₗ Nat ×ₗ Nat ×ₗ WithTop (List (Nat ⊕ₗ List Char)) :=
  toLex (v.major, toLex (v.minor, toLex (v.patch, prereleaseKey v.pre)))

/-- Precedence is the order of the keys. -/
theorem key_lt_iff : a.key < b.key ↔ Precedes a.toVersion b.toVersion := by
  simp only [key, Prod.Lex.toLex_lt_toLex, prereleaseKey_lt_iff a.valid b.valid]
  constructor
  · rintro (h | ⟨h, h | ⟨h', h | ⟨h'', ⟨hx, hy⟩ | ⟨hx, hy, hbelow⟩⟩⟩⟩)
    · exact .major h
    · exact .minor ‹_› h
    · exact .patch ‹_› h' h
    · exact .release h h' h'' hx hy
    · exact .prerelease h h' h'' hx hy hbelow
  · intro h
    cases h <;> simp [*]

/-- Versions have one key if they are equal up to their build metadata. -/
theorem key_inj : a.key = b.key ↔ Version.eq a.toVersion b.toVersion = true := by
  rw [Version.eq_iff]
  simp only [key, EmbeddingLike.apply_eq_iff_eq, Prod.mk.injEq, prereleaseKey_inj a.valid b.valid]

/-- The comparison of prereleases is that of their keys. -/
theorem preOrder_eq_compare (hS : S.Section11) :
    Version.preOrder S a.pre b.pre = compare (prereleaseKey a.pre) (prereleaseKey b.pre) := by
  have ha := a.valid
  have hb := b.valid
  have hempty : ∀ {z : String}, z.isEmpty = true ↔ z = "" := String.isEmpty_iff
  unfold Version.preOrder
  symm
  split
  · next hx hy =>
      rw [hempty] at hx
      rw [compare_gt_iff_gt, prereleaseKey_lt_iff hb ha]
      simp_all
  · next hx hy =>
      rw [hempty] at hy
      rw [compare_lt_iff_lt, prereleaseKey_lt_iff ha hb]
      simp_all
  · next hx hy => rw [compare_eq_iff_eq, hempty.mp hx, hempty.mp hy]
  · next hx hy =>
      have hxe : a.pre ≠ "" := fun h => by simp [h] at hx
      have hye : b.pre ≠ "" := fun h => by simp [h] at hy
      have hva := ha.resolve_left hxe
      have hvb := hb.resolve_left hye
      have hlt : prereleaseKey a.pre < prereleaseKey b.pre ↔ S.preCmp a.pre b.pre = .lt := by
        rw [prereleaseKey_lt_iff ha hb, hS.lt_iff hxe hye hva hvb]
        simp [hxe, hye]
      have hgt : prereleaseKey b.pre < prereleaseKey a.pre ↔ S.preCmp a.pre b.pre = .gt := by
        rw [prereleaseKey_lt_iff hb ha, hS.gt_iff hxe hye hva hvb]
        simp [hxe, hye]
      cases hcmp : S.preCmp a.pre b.pre with
      | lt => exact compare_lt_iff_lt.mpr (hlt.mpr hcmp)
      | gt => exact compare_gt_iff_gt.mpr (hgt.mpr hcmp)
      | eq => exact compare_eq_iff_eq.mpr (le_antisymm
          (not_lt.mp fun h => by simp [hcmp] at hgt; exact absurd h (not_lt.mpr hgt))
          (not_lt.mp fun h => by simp [hcmp] at hlt; exact absurd h (not_lt.mpr hlt)))

/-- The comparison of versions is that of their keys. -/
theorem cmp_eq_compare (hS : S.Section11) :
    Version.cmp S a.toVersion b.toVersion = compare a.key b.key := by
  rw [Version.cmp_eq_compareLex]
  simp only [Prod.Lex.compare_def, compareLex, compareOn, preOrder_eq_compare hS]
  rfl

/-- `a <= b`, by keys. -/
theorem le_iff (hS : S.Section11) :
    Version.le S a.toVersion b.toVersion = true ↔ a.key ≤ b.key := by
  rw [Version.le, cmp_eq_compare hS, ← Ordering.ne_gt_iff_isLE]
  exact compare_le_iff_le

end SemverVersion

/-! ## the comparison -/

/-- A comparison that is a total order, agrees with section 11 and with equality, and ignores
build metadata. -/
structure Precedence (S : SemverCrate) : Prop where
  refl (a : SemverVersion) : Version.le S a.toVersion a.toVersion = true
  antisymm (a b : SemverVersion) : Version.le S a.toVersion b.toVersion = true →
    Version.le S b.toVersion a.toVersion = true → Version.eq a.toVersion b.toVersion = true
  trans (a b c : SemverVersion) : Version.le S a.toVersion b.toVersion = true →
    Version.le S b.toVersion c.toVersion = true → Version.le S a.toVersion c.toVersion = true
  total (a b : SemverVersion) : Version.le S a.toVersion b.toVersion = true ∨
    Version.le S b.toVersion a.toVersion = true
  lt_iff (a b : SemverVersion) : Version.cmp S a.toVersion b.toVersion = .lt ↔
    Precedes a.toVersion b.toVersion
  gt_iff (a b : SemverVersion) : Version.cmp S a.toVersion b.toVersion = .gt ↔
    Precedes b.toVersion a.toVersion
  eq_iff (a b : SemverVersion) : Version.eq a.toVersion b.toVersion = true ↔
    Version.cmp S a.toVersion b.toVersion = .eq
  build_cmp (a b : Version) (x y : String) :
    Version.cmp S { a with build := x } { b with build := y } = Version.cmp S a b
  build_eq (a b : Version) (x y : String) :
    Version.eq { a with build := x } { b with build := y } = Version.eq a b

/-- The comparison of versions is the precedence of section 11. -/
theorem cmp_precedence (S : SemverCrate) (hS : S.Section11) : Precedence S where
  refl a := (SemverVersion.le_iff hS).mpr le_rfl
  antisymm a b hab hba := SemverVersion.key_inj.mp
    (le_antisymm ((SemverVersion.le_iff hS).mp hab) ((SemverVersion.le_iff hS).mp hba))
  trans a b c hab hbc := (SemverVersion.le_iff hS).mpr
    (((SemverVersion.le_iff hS).mp hab).trans ((SemverVersion.le_iff hS).mp hbc))
  total a b := by
    rw [SemverVersion.le_iff hS, SemverVersion.le_iff hS]
    exact le_total _ _
  lt_iff a b := by
    rw [SemverVersion.cmp_eq_compare hS, compare_lt_iff_lt, SemverVersion.key_lt_iff]
  gt_iff a b := by
    rw [SemverVersion.cmp_eq_compare hS, compare_gt_iff_gt, SemverVersion.key_lt_iff]
  eq_iff a b := by
    rw [SemverVersion.cmp_eq_compare hS, compare_eq_iff_eq, SemverVersion.key_inj]
  build_cmp a b x y := rfl
  build_eq a b x y := rfl

/-- The crate on these versions, with the comparison of section 11.4. -/
def sectionCrate (versions : List Version) : SemverCrate where
  parse := (semverOf versions).parse
  display := Version.text
  preCmp x y :=
    let a := (identifiers x).map identifierKey
    let b := (identifiers y).map identifierKey
    if a < b then .lt else if b < a then .gt else .eq

/-- A crate that compares keys follows section 11 of the specification. -/
theorem sectionCrate_section11 (versions : List Version) : (sectionCrate versions).Section11 where
  lt_iff _ _ hx hy := by
    rw [PrereleaseBelow, lex_map_identifierKey hx hy]
    simp only [sectionCrate]
    split
    · next h => exact iff_of_true rfl h
    · next h => split <;> exact iff_of_false (by decide) h
  gt_iff _ _ hx hy := by
    rw [PrereleaseBelow, lex_map_identifierKey hy hx]
    simp only [sectionCrate]
    split
    · next h => exact iff_of_false (by decide) (lt_asymm h)
    · split
      · next h => exact iff_of_true rfl h
      · next h => exact iff_of_false (by decide) h

/-- The crate on the sample versions. -/
theorem cmp_precedence_sample : Precedence (sectionCrate sampleVersions) :=
  cmp_precedence (sectionCrate sampleVersions) (sectionCrate_section11 sampleVersions)

end Deltaship
