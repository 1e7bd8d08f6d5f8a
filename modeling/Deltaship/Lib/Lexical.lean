import Mathlib.Tactic.Common

/-!
# Deltaship.Lib.Lexical

Paths as texts, and what they stand for when they are compared lexically: empty
components and `.` are dropped, and `..` takes back the component before it.

`join` is `PathBuf::join` on a host with `/` as its separator.  The lemmas cover
the joining of a name that is a single component (`normalize_join`), which is how
the developments built on this module make their paths.
-/

namespace Lexical

/-- A path that was normalized. -/
structure Path where
  absolute : Bool
  components : List (List Char)
deriving DecidableEq, Repr

namespace Path

/-- A path and everything below it. -/
def Contains (p q : Path) : Prop := p.absolute = q.absolute ∧ p.components <+: q.components

instance (p q : Path) : Decidable (Contains p q) := inferInstanceAs (Decidable (_ ∧ _))

/-- A path right below another. -/
def Child (p q : Path) : Prop :=
  q.absolute = p.absolute ∧ ∃ name, q.components = p.components ++ [name]

/-- The text of a path. -/
def text (p : Path) : List Char :=
  (if p.absolute then ['/'] else []) ++ ['/'].intercalate p.components

theorem Contains.refl (p : Path) : Contains p p := ⟨rfl, List.prefix_refl _⟩

theorem Contains.trans {p q r : Path} (h : Contains p q) (h' : Contains q r) : Contains p r :=
  ⟨h.1.trans h'.1, h.2.trans h'.2⟩

theorem not_child_self (p : Path) : ¬ Child p p := by
  rintro ⟨-, name, hname⟩
  simp at hname

end Path

/-- Add a component. -/
def push (absolute : Bool) (acc : List (List Char)) (c : List Char) : List (List Char) :=
  if c = [] ∨ c = ['.'] then acc
  else if c = ['.', '.'] then
    match acc.getLast? with
    | some l => if l = ['.', '.'] then acc ++ [c] else acc.dropLast
    | none => if absolute then [] else [c]
  else acc ++ [c]

/-- Whether a text is an absolute path. -/
def isAbsolute (path : List Char) : Bool := path.head? == some '/'

/-- What a text stands for as a path. -/
def normalize (path : List Char) : Path :=
  ⟨isAbsolute path, (path.splitOn '/').foldl (push (isAbsolute path)) []⟩

/-- `PathBuf::join`. -/
def join (base name : List Char) : List Char :=
  if isAbsolute name then name
  else if base = [] ∨ base.getLast? = some '/' then base ++ name
  else base ++ '/' :: name

/-! ## joining a single component -/

section Join

variable {base name : List Char} {absolute : Bool} {acc : List (List Char)}

@[simp] theorem push_nil : push absolute acc [] = acc := by simp [push]

theorem push_dot : push absolute acc ['.'] = acc := by simp [push]

/-- Every other name but two dots goes one level down. -/
theorem push_of_ne (h0 : name ≠ []) (h1 : name ≠ ['.']) (h2 : name ≠ ['.', '.']) :
    push absolute acc name = acc ++ [name] := by
  simp [push, h0, h1, h2]

/-- A component other than `..` takes nothing back. -/
theorem prefix_push (h : name ≠ ['.', '.']) : acc <+: push absolute acc name := by
  unfold push
  split
  · exact List.prefix_refl _
  · exact List.prefix_append _ _

theorem isAbsolute_of_not_mem (h : '/' ∉ name) : isAbsolute name = false := by
  cases name with
  | nil => rfl
  | cons c rest => simpa [isAbsolute] using (List.ne_of_not_mem_cons h).symm

/-- Joining a relative path adds its components. -/
theorem normalize_join_of_relative {path : List Char} (habs : isAbsolute path = false) :
    normalize (join base path) = ⟨(normalize base).absolute,
      (path.splitOn '/').foldl (push (normalize base).absolute) (normalize base).components⟩ := by
  unfold join
  rw [if_neg (by simp [habs])]
  split
  · next hbase =>
      rcases hbase with rfl | hlast
      · rw [List.nil_append, normalize, habs]
        simp [normalize, isAbsolute]
      · obtain ⟨front, rfl⟩ := List.getLast?_eq_some_iff.mp hlast
        have hhead : isAbsolute (front ++ ['/'] ++ path) = isAbsolute (front ++ ['/']) := by
          cases front <;> simp [isAbsolute]
        rw [normalize, hhead, List.append_assoc, List.singleton_append,
          List.splitOn_append_cons_self]
        simp [normalize, List.splitOn_append_cons_self]
  · next hbase =>
      have hhead : isAbsolute (base ++ '/' :: path) = isAbsolute base := by
        cases base with
        | nil => simp at hbase
        | cons c rest => simp [isAbsolute]
      rw [normalize, hhead, List.splitOn_append_cons_self]
      simp [normalize]

/-- Joining a name adds it as a component. -/
theorem normalize_join (h : '/' ∉ name) :
    normalize (join base name) =
      ⟨(normalize base).absolute,
        push (normalize base).absolute (normalize base).components name⟩ := by
  rw [normalize_join_of_relative (isAbsolute_of_not_mem h), List.splitOn_eq_singleton h]
  rfl

/-- Without `..`, nothing is taken back. -/
theorem prefix_foldl_push {names : List (List Char)} (h : ['.', '.'] ∉ names) :
    acc <+: names.foldl (push absolute) acc := by
  induction names generalizing acc with
  | nil => exact List.prefix_refl _
  | cons name names ih =>
      rw [List.mem_cons, not_or] at h
      exact (prefix_push (Ne.symm h.1)).trans (ih h.2)

/-- A relative path without `..` is joined below. -/
theorem contains_join_of_relative {path : List Char} (habs : isAbsolute path = false)
    (h : ['.', '.'] ∉ path.splitOn '/') :
    (normalize base).Contains (normalize (join base path)) := by
  rw [normalize_join_of_relative habs]
  exact ⟨rfl, prefix_foldl_push h⟩

/-- What is joined stays below. -/
theorem contains_join (h : '/' ∉ name) (h2 : name ≠ ['.', '.']) :
    (normalize base).Contains (normalize (join base name)) := by
  rw [normalize_join h]
  exact ⟨rfl, prefix_push h2⟩

/-- A dot at the end is the directory itself. -/
theorem normalize_join_dot : normalize (join base ['.']) = normalize base := by
  rw [normalize_join (by decide), push_dot]

/-- A name of its own adds exactly one component. -/
theorem normalize_join_of_ne (h : '/' ∉ name) (h0 : name ≠ []) (h1 : name ≠ ['.'])
    (h2 : name ≠ ['.', '.']) :
    normalize (join base name) =
      ⟨(normalize base).absolute, (normalize base).components ++ [name]⟩ := by
  rw [normalize_join h, push_of_ne h0 h1 h2]

end Join

end Lexical
