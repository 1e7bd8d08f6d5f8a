import Deltaship.Lib.Text

/-!
# Deltaship.Core.Version

`deltaship-core::Version`: a wrapper around the `semver` crate's version that
replaces its equality and order by ones that ignore build metadata (SemVer 2.0,
section 10).

The crate itself -- its parser, its `Display` and the order of its
`Prerelease` -- is third-party code, so it enters as a parameter
(`SemverCrate`).  What a result relies on about it is a named hypothesis of
that result.
-/

namespace Deltaship

/-- The fields of `semver::Version`; an absent prerelease or build is the
empty string, as in the crate. -/
structure Version where
  major : Nat
  minor : Nat
  patch : Nat
  pre : String
  build : String
deriving DecidableEq, Repr

/-- The parts of the `semver` crate the program calls. -/
structure SemverCrate where
  /-- `semver::Version::parse`. -/
  parse : String → Option Version
  /-- `Display for semver::Version`. -/
  display : Version → String
  /-- `Ord for semver::Prerelease`, on non-empty prereleases. -/
  preCmp : String → String → Ordering

/-- `Version::parse` accepts exactly the canonical spelling: what was parsed is
displayed unchanged (no leading zeros, no surrounding blanks, prerelease and
build kept as text). -/
def SemverCrate.DisplayParse (S : SemverCrate) : Prop :=
  ∀ {s : String} {v : Version}, S.parse s = some v → S.display v = s

/-- `Version::parse` accepts texts that start with a number only. -/
def SemverCrate.StartsWithDigit (S : SemverCrate) : Prop :=
  ∀ {s : String} {v : Version}, S.parse s = some v →
    ∃ c rest, s.toList = c :: rest ∧ c.isDigit = true

namespace Version

/-- `Version::new`. -/
def new (major minor patch : Nat) : Version := ⟨major, minor, patch, "", ""⟩

/-- `PartialEq for Version`: build metadata is ignored. -/
def eq (a b : Version) : Bool :=
  a.major == b.major && a.minor == b.minor && a.patch == b.patch && a.pre == b.pre

/-- `Ord for Version`: build metadata is ignored, and a version without a
prerelease is above every prerelease of it. -/
def cmp (S : SemverCrate) (a b : Version) : Ordering :=
  match compare a.major b.major with
  | .eq =>
    match compare a.minor b.minor with
    | .eq =>
      match compare a.patch b.patch with
      | .eq =>
        match a.pre.isEmpty, b.pre.isEmpty with
        | true, false => .gt
        | false, true => .lt
        | true, true => .eq
        | false, false => S.preCmp a.pre b.pre
      | ord => ord
    | ord => ord
  | ord => ord

/-- `a <= b`. -/
def le (S : SemverCrate) (a b : Version) : Bool := (cmp S a b).isLE

/-- `a > b`. -/
def gt (S : SemverCrate) (a b : Version) : Bool := (cmp S a b).isGT

/-- `a >= b`. -/
def ge (S : SemverCrate) (a b : Version) : Bool := (cmp S a b).isGE

/-- A version is above another exactly when it is not at or below it. -/
theorem gt_eq_not_le (S : SemverCrate) (a b : Version) : gt S a b = !le S a b := by
  unfold gt le
  cases cmp S a b <;> rfl

/-- Equality is of everything but the build metadata. -/
theorem eq_iff {a b : Version} :
    eq a b = true ↔
      a.major = b.major ∧ a.minor = b.minor ∧ a.patch = b.patch ∧ a.pre = b.pre := by
  simp only [eq, Bool.and_eq_true, beq_iff_eq, and_assoc]

theorem eq_refl (a : Version) : eq a a = true := eq_iff.mpr ⟨rfl, rfl, rfl, rfl⟩

/-- Equality of versions, which leaves the build out, is symmetric. -/
theorem eq_symm {a b : Version} (h : eq a b = true) : eq b a = true := by
  obtain ⟨h1, h2, h3, h4⟩ := eq_iff.mp h
  exact eq_iff.mpr ⟨h1.symm, h2.symm, h3.symm, h4.symm⟩

theorem eq_trans {a b c : Version} (h : eq a b = true) (h' : eq b c = true) :
    eq a c = true := by
  obtain ⟨h1, h2, h3, h4⟩ := eq_iff.mp h
  obtain ⟨k1, k2, k3, k4⟩ := eq_iff.mp h'
  exact eq_iff.mpr ⟨h1.trans k1, h2.trans k2, h3.trans k3, h4.trans k4⟩

/-- `Display for semver::Version`. -/
def text (v : Version) : String :=
  s!"{v.major}.{v.minor}.{v.patch}" ++ (if v.pre.isEmpty then "" else "-" ++ v.pre) ++
    (if v.build.isEmpty then "" else "+" ++ v.build)

/-- The text of a version starts with its numbers. -/
theorem numbers_of_text_eq {a b : Version} (h : a.text = b.text) :
    a.major = b.major ∧ a.minor = b.minor := by
  unfold text at h
  simp only [String.append_assoc, ToString.toString] at h
  obtain ⟨hmajor, h⟩ := Text.number_dot_inj h
  exact ⟨hmajor, (Text.number_dot_inj h).1⟩

end Version

/-! ## a few versions -/

/-- The crate on these versions. -/
def semverOf (versions : List Version) : SemverCrate where
  parse s := versions.find? fun v => v.text == s
  display := Version.text
  preCmp a b := compare a b

theorem semverOf_displayParse (versions : List Version) : (semverOf versions).DisplayParse := by
  intro s v h
  have hfind : versions.find? (fun v => v.text == s) = some v := h
  have htext := List.find?_some hfind
  exact beq_iff_eq.mp htext

/-- The text of a version starts with its major version. -/
theorem Version.head_text (v : Version) :
    ∃ c rest, v.text.toList = c :: rest ∧ c.isDigit = true := by
  have hdigits : (toString v.major).toList = Nat.toDigits 10 v.major := String.toList_ofList
  obtain ⟨c, cs, hc⟩ := List.exists_cons_of_ne_nil (Nat.toDigits_ne_nil (n := v.major) (b := 10))
  have hdigit : c.isDigit = true :=
    Nat.isDigit_of_mem_toDigits (by decide) (by decide) (hc ▸ List.mem_cons_self)
  refine ⟨c, cs ++ ("." ++ (toString v.minor ++ ("." ++ (toString v.patch ++
    ((if v.pre.isEmpty then "" else "-" ++ v.pre) ++
      (if v.build.isEmpty then "" else "+" ++ v.build)))))).toList, ?_, hdigit⟩
  rw [← List.cons_append, ← hc, ← hdigits, ← String.toList_append]
  simp only [text, String.append_assoc, ToString.toString]

theorem semverOf_startsWithDigit (versions : List Version) :
    (semverOf versions).StartsWithDigit := by
  intro s v h
  obtain rfl := semverOf_displayParse versions h
  exact v.head_text

/-- The versions the worked cases of later modules use. -/
def sampleVersions : List Version :=
  [.new 1 0 0, .new 1 1 0, .new 2 0 0]

/-- The crate on these versions. -/
def sampleSemver : SemverCrate := semverOf sampleVersions

theorem sampleSemver_displayParse : sampleSemver.DisplayParse :=
  semverOf_displayParse sampleVersions

end Deltaship
