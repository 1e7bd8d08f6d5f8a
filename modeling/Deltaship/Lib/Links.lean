import Deltaship.Lib.Files
import Deltaship.Lib.Lexical

/-!
# Deltaship.Lib.Links

Paths on a disk with symbolic links.

A link holds a text, which is resolved from the directory the link is in.  Links to directories
and links to files are kept apart: the former are followed wherever they stand in a path
(`Links.locate`), the latter only at its end (`Links.chase`).  So a path has a place in a
directory, which is what the removal of a file acts on, and it leads from there to the file that
is read and written.  More than `maxLinks` links are not followed.

* `read_remove` — what a path leads to after something was removed;
* `read_eq_none_of_mem_trail` — a path leads nowhere if a place on its way does.
-/

namespace Lexical

namespace Path

/-- One more component. -/
def push (p : Path) (c : List Char) : Path := ⟨p.absolute, Lexical.push p.absolute p.components c⟩

/-- The directory that a path is in. -/
def parent (p : Path) : Path := ⟨p.absolute, p.components.dropLast⟩

end Path

theorem foldl_push (p : Path) (names : List (List Char)) :
    names.foldl Path.push p = ⟨p.absolute, names.foldl (push p.absolute) p.components⟩ := by
  induction names generalizing p with
  | nil => rfl
  | cons name names ih => exact ih (p.push name)

/-- The symbolic links of a disk, by their places, with the texts they hold. -/
structure Links where
  dirs : Files Path (List Char)
  files : Files Path (List Char)
deriving DecidableEq

namespace Links

/-- A disk without links. -/
def empty : Links := ⟨Files.empty, Files.empty⟩

/-- How many links the host follows. -/
def maxLinks : Nat := 40

/-- Where a text starts to be resolved. -/
def origin (here : Path) (text : List Char) : Path :=
  if isAbsolute text then ⟨true, []⟩ else here

/-! ## links to directories -/

/-- Go down to the first link: where it is, what it holds and what comes behind it. -/
def firstLink (dirs : Files Path (List Char)) :
    Path → List (List Char) → Path × Option (List Char × List (List Char))
  | here, [] => (here, none)
  | here, c :: rest =>
    match dirs.read (here.push c) with
    | none => firstLink dirs (here.push c) rest
    | some text => (here, some (text, rest))

/-- Go down and follow at most so many links. -/
def enter (dirs : Files Path (List Char)) : Nat → Path → List (List Char) → Path
  | 0, here, names => names.foldl Path.push here
  | n + 1, here, names =>
    match firstLink dirs here names with
    | (place, none) => place
    | (place, some (text, rest)) => enter dirs n (origin place text) (text.splitOn '/' ++ rest)

/-- The place of a path; a link at its end is followed if it is one to a directory. -/
def locate (L : Links) (here : Path) (text : List Char) : Path :=
  enter L.dirs maxLinks (origin here text) (text.splitOn '/')

theorem firstLink_empty (here : Path) (names : List (List Char)) :
    firstLink Files.empty here names = (names.foldl Path.push here, none) := by
  induction names generalizing here with
  | nil => rfl
  | cons name names ih => exact ih (here.push name)

/-- Without links, a path is resolved lexically. -/
theorem locate_empty (text : List Char) : empty.locate ⟨false, []⟩ text = normalize text := by
  have hplain : ∀ here names, enter (Files.empty (π := Path)) maxLinks here names =
      names.foldl Path.push here := fun here names => by
    rw [maxLinks, enter, firstLink_empty]
  have horigin : origin ⟨false, []⟩ text = ⟨isAbsolute text, []⟩ := by
    unfold origin
    split
    · next habs => rw [habs]
    · next habs => rw [Bool.eq_false_iff.mpr habs]
  rw [locate, empty, hplain, foldl_push, horigin]
  rfl

/-! ## links to files -/

/- A path is followed over links until it names no link. The number of links bounds how many have to
be followed, so that this is a recursion on a number, and more fuel than there are links changes
nothing. -/

section Files

variable (L : Links)

/-- The place that the link at a place leads to. -/
def next (p : Path) (text : List Char) : Path := L.locate p.parent text

/-- The file that a place leads to, over at most so many links. -/
def chase : Nat → Path → Option Path
  | 0, p => if (L.files.read p).isSome then none else some p
  | n + 1, p =>
    match L.files.read p with
    | none => some p
    | some text => chase n (L.next p text)

/-- The places on the way. -/
def trail : Nat → Path → List Path
  | 0, p => [p]
  | n + 1, p =>
    match L.files.read p with
    | none => [p]
    | some text => p :: trail n (L.next p text)

/-- Every place leads to a file, or to a place that a file can be written to. -/
def Grounded : Prop := ∀ p ∈ L.files.paths, (L.chase maxLinks p).isSome = true

instance : Decidable L.Grounded := inferInstanceAs (Decidable (∀ p ∈ _, _))

/-- The content of the file that a place leads to. -/
def read {κ : Type} (files : Files Path κ) (n : Nat) (p : Path) : Option κ :=
  (L.chase n p).bind files.read

/-- The disk without the link at a place. -/
def remove (p : Path) : Links := { L with files := L.files.remove p }

end Files

section Remove

variable {κ : Type} {L : Links} {files : Files Path κ} {n m : Nat} {p q : Path} {text : List Char}

/-- Removing a link leaves what its text leads to. -/
@[simp] theorem locate_remove (here : Path) : (L.remove q).locate here text = L.locate here text :=
  rfl

@[simp] theorem next_remove : (L.remove q).next p text = L.next p text := rfl

theorem mem_trail_self : p ∈ L.trail n p := by
  cases n with
  | zero => exact List.mem_singleton_self p
  | succ n =>
      unfold trail
      split <;> exact List.mem_cons_self

theorem trail_succ_of_link (h : L.files.read p = some text) :
    L.trail (n + 1) p = p :: L.trail n (L.next p text) := by
  rw [trail, h]

theorem chase_succ_of_link (h : L.files.read p = some text) :
    L.chase (n + 1) p = L.chase n (L.next p text) := by
  rw [chase, h]

/-- Without a link, a place leads to itself. -/
theorem chase_of_none (h : L.files.read p = none) : L.chase n p = some p := by
  cases n with
  | zero => rw [chase, h]; rfl
  | succ n => rw [chase, h]

theorem trail_of_none (h : L.files.read p = none) : L.trail n p = [p] := by
  cases n with
  | zero => rfl
  | succ n => rw [trail, h]

/-- A place that is removed beside the way changes nothing. -/
theorem chase_remove_of_not_mem (h : q ∉ L.trail n p) :
    (L.remove q).chase n p = L.chase n p ∧ (L.remove q).trail n p = L.trail n p := by
  induction n generalizing p with
  | zero =>
      have hne : p ≠ q := fun heq => h (by rw [heq]; exact mem_trail_self)
      exact ⟨by rw [chase, chase, remove, Files.read_remove_ne _ hne], rfl⟩
  | succ n ih =>
      have hne : p ≠ q := fun heq => h (by rw [heq]; exact mem_trail_self)
      have hsame : (L.remove q).files.read p = L.files.read p := Files.read_remove_ne _ hne
      cases hread : L.files.read p with
      | none =>
          rw [chase_of_none hread, trail_of_none hread, chase_of_none (hsame.trans hread),
            trail_of_none (hsame.trans hread)]
          exact ⟨rfl, rfl⟩
      | some text =>
          rw [trail_succ_of_link hread] at h
          obtain ⟨hchase, htrail⟩ := ih fun hmem => h (List.mem_cons_of_mem p hmem)
          rw [chase_succ_of_link hread, trail_succ_of_link hread,
            chase_succ_of_link (hsame.trans hread), trail_succ_of_link (hsame.trans hread),
            next_remove]
          exact ⟨hchase, by rw [htrail]⟩

/-- The way ends at a place that is removed. -/
theorem chase_remove_of_mem (h : q ∈ L.trail n p) : (L.remove q).chase n p = some q := by
  have hgone : (L.remove q).files.read q = none := Files.read_remove_self _ _
  induction n generalizing p with
  | zero =>
      obtain rfl := List.mem_singleton.mp h
      exact chase_of_none hgone
  | succ n ih =>
      by_cases heq : p = q
      · rw [heq]
        exact chase_of_none hgone
      · have hsame : (L.remove q).files.read p = L.files.read p := Files.read_remove_ne _ heq
        cases hread : L.files.read p with
        | none =>
            rw [trail_of_none hread] at h
            exact absurd (List.mem_singleton.mp h).symm heq
        | some text =>
            rw [trail_succ_of_link hread] at h
            rw [chase_succ_of_link (hsame.trans hread)]
            exact ih ((List.mem_cons.mp h).resolve_left fun h => heq h.symm)

/-- The file that a place leads to is the end of the way. -/
theorem mem_trail_of_chase {r : Path} (h : L.chase n p = some r) : r ∈ L.trail n p := by
  induction n generalizing p with
  | zero =>
      unfold chase at h
      split at h
      · contradiction
      · rw [Option.some.inj h]
        exact mem_trail_self
  | succ n ih =>
      cases hread : L.files.read p with
      | none =>
          rw [chase_of_none hread] at h
          rw [Option.some.inj h]
          exact mem_trail_self
      | some text =>
          rw [chase_succ_of_link hread] at h
          rw [trail_succ_of_link hread]
          exact List.mem_cons_of_mem p (ih h)

/-- More links than there are do not matter. -/
theorem chase_mono {r : Path} (h : L.chase n p = some r) (hle : n ≤ m) :
    L.chase m p = some r := by
  induction n generalizing p m with
  | zero =>
      unfold chase at h
      split at h
      · contradiction
      · next hplain => exact (chase_of_none (Option.not_isSome_iff_eq_none.mp hplain)).trans h
  | succ n ih =>
      obtain ⟨m, rfl⟩ : ∃ k, m = k + 1 := ⟨m - 1, by omega⟩
      cases hread : L.files.read p with
      | none =>
          rw [chase_of_none hread] at h ⊢
          exact h
      | some text =>
          rw [chase_succ_of_link hread] at h ⊢
          exact ih h (by omega)

/-- What was removed is not read any more, and everything else is read as before. -/
theorem read_remove : (L.remove q).read (files.remove q) n p =
    if q ∈ L.trail n p then none else L.read files n p := by
  unfold read
  split
  · next hmem =>
      rw [chase_remove_of_mem hmem]
      exact Files.read_remove_self _ _
  · next hmem =>
      rw [(chase_remove_of_not_mem hmem).1]
      cases hchase : L.chase n p with
      | none => rfl
      | some r =>
          refine Files.read_remove_ne _ fun heq => hmem ?_
          rw [← heq]
          exact mem_trail_of_chase hchase

/-- A path leads nowhere if a place on its way does. -/
theorem read_eq_none_of_mem_trail (hmem : q ∈ L.trail n p) (hle : n ≤ m)
    (hnone : L.read files m q = none) : L.read files n p = none := by
  induction n generalizing p with
  | zero =>
      obtain rfl := List.mem_singleton.mp hmem
      unfold read at hnone ⊢
      cases hchase : L.chase 0 q with
      | none => rfl
      | some r => rwa [chase_mono hchase hle] at hnone
  | succ n ih =>
      by_cases heq : p = q
      · subst heq
        unfold read at hnone ⊢
        cases hchase : L.chase (n + 1) p with
        | none => rfl
        | some r => rwa [chase_mono hchase hle] at hnone
      · cases hread : L.files.read p with
        | none =>
            rw [trail_of_none hread] at hmem
            exact absurd (List.mem_singleton.mp hmem).symm heq
        | some text =>
            rw [trail_succ_of_link hread] at hmem
            have hread' := ih ((List.mem_cons.mp hmem).resolve_left fun h => heq h.symm) (by omega)
            unfold read at hread' ⊢
            rwa [chase_succ_of_link hread]

/-! ### grounded links -/

/-- Without links every path is at its end. -/
theorem Grounded.empty : Links.empty.Grounded := fun _ hp => absurd hp List.not_mem_nil

/-- Where every trail ends, a chase ends within the limit. -/
theorem Grounded.chase (h : L.Grounded) (p : Path) : (L.chase maxLinks p).isSome = true := by
  cases hread : L.files.read p with
  | none =>
      rw [chase_of_none hread]
      rfl
  | some text => exact h p (Files.mem_paths.mpr (by rw [hread]; rfl))

/-- The removal of a link leads no other one in a circle. -/
theorem Grounded.remove (h : L.Grounded) (q : Path) : (L.remove q).Grounded := by
  intro p _
  by_cases hmem : q ∈ L.trail maxLinks p
  · rw [chase_remove_of_mem hmem]
    rfl
  · rw [(chase_remove_of_not_mem hmem).1]
    exact h.chase p

end Remove

end Links

end Lexical
