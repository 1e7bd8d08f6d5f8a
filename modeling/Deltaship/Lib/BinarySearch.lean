import Mathlib.Data.List.Basic
import Mathlib.Tactic.Common

/-!
# Deltaship.Lib.BinarySearch

`slice::binary_search_by` of Rust's standard library.

`binarySearchBy_of_split`: in a list whose elements are below the target up to some place,
and above it from there on, the search ends at that place.
-/

namespace BinarySearch

variable {α : Type} (compare : α → Ordering)

/-- The loop: `size` elements from `base` on are left.  The size shrinks in each round, so
that it bounds the number of rounds. -/
def searchLoop (l : List α) : Nat → Nat → Nat → Nat
  | 0, _, base => base
  | fuel + 1, size, base =>
    if size ≤ 1 then base
    else
      let half := size / 2
      let mid := base + half
      let above := l[mid]?.any fun x => compare x == .gt
      searchLoop l fuel (size - half) (if above then base else mid)

/-- The place of an element that compares equal, or the place to insert one. -/
def binarySearchBy (l : List α) : Except Nat Nat :=
  match l with
  | [] => .error 0
  | first :: rest =>
    let l := first :: rest
    let base := searchLoop compare l l.length l.length 0
    match (l[base]?).map compare with
    | some .eq => .ok base
    | some .lt => .error (base + 1)
    | _ => .error base

/-- `unwrap_or_else(|pos| pos)`: the place in either case. -/
def place (l : List α) : Nat :=
  match binarySearchBy compare l with
  | .ok pos => pos
  | .error pos => pos

variable {compare}

/-- The search stays in the list. -/
theorem searchLoop_lt {l : List α} {fuel size base : Nat} (hpos : 0 < size)
    (h : base + size ≤ l.length) : searchLoop compare l fuel size base < l.length := by
  induction fuel generalizing size base with
  | zero =>
      unfold searchLoop
      omega
  | succ fuel ih =>
      unfold searchLoop
      split
      · omega
      · refine ih (by omega) ?_
        split <;> omega

/-- The place lies within the list or at its end. -/
theorem place_le (l : List α) : place compare l ≤ l.length := by
  unfold place binarySearchBy
  cases l with
  | nil => exact Nat.le_refl 0
  | cons first rest =>
      have hlt : searchLoop compare (first :: rest) (first :: rest).length
          (first :: rest).length 0 < (first :: rest).length :=
        searchLoop_lt (by simp) (by simp)
      dsimp only
      generalize searchLoop compare (first :: rest) _ _ 0 = base at hlt ⊢
      cases hcmp : ((first :: rest)[base]?).map compare with
      | none => exact Nat.le_of_lt hlt
      | some ord =>
          cases ord with
          | lt => exact hlt
          | eq => exact Nat.le_of_lt hlt
          | gt => exact Nat.le_of_lt hlt

/-- Inserting at the end of the front of a list. -/
theorem insertIdx_length_append (front back : List α) (x : α) :
    (front ++ back).insertIdx front.length x = front ++ x :: back := by
  induction front with
  | nil => rfl
  | cons y front ih => simp [ih]

/-! ## a list that is split at the target -/

section Split

variable {below above : List α} (hbelow : ∀ x ∈ below, compare x = .lt)
  (habove : ∀ x ∈ above, compare x = .gt)

include hbelow habove

/-- The element at a place tells on which side of the split it is. -/
theorem compare_getElem {i : Nat} {x : α} (h : (below ++ above)[i]? = some x) :
    compare x = if i < below.length then .lt else .gt := by
  rw [List.getElem?_append] at h
  split at h
  · rw [if_pos ‹_›]
    exact hbelow x (List.mem_of_getElem? h)
  · rw [if_neg ‹_›]
    exact habove x (List.mem_of_getElem? h)

/-- The split is among the elements that are left. -/
theorem searchLoop_of_split {fuel size base : Nat} (hpos : 0 < size) (hfuel : size ≤ fuel + 1)
    (hsize : base + size ≤ (below ++ above).length) (hbase : base = 0 ∨ base < below.length)
    (hsplit : below.length ≤ base + size) :
    let last := searchLoop compare (below ++ above) fuel size base
    (last = 0 ∨ last < below.length) ∧ below.length ≤ last + 1 ∧
      last < (below ++ above).length := by
  induction fuel generalizing size base with
  | zero =>
      unfold searchLoop
      exact ⟨hbase, by omega, by omega⟩
  | succ fuel ih =>
      unfold searchLoop
      split
      · exact ⟨hbase, by omega, by omega⟩
      · obtain ⟨x, hx⟩ : ∃ x, (below ++ above)[base + size / 2]? = some x :=
          ⟨_, List.getElem?_eq_getElem (by omega)⟩
        have hcompare := compare_getElem hbelow habove hx
        by_cases hmid : base + size / 2 < below.length
        · have hside :
            ((below ++ above)[base + size / 2]?.any fun x => compare x == .gt) = false := by
            rw [hx, Option.any_some, hcompare, if_pos hmid]
            rfl
          simp only [hside, Bool.false_eq_true, if_false]
          exact ih (by omega) (by omega) (by omega) (.inr hmid) (by omega)
        · have hside :
            ((below ++ above)[base + size / 2]?.any fun x => compare x == .gt) = true := by
            rw [hx, Option.any_some, hcompare, if_neg hmid]
            rfl
          simp only [hside, if_true]
          exact ih (by omega) (by omega) (by omega) hbase (by omega)

/-- The search ends at the split. -/
theorem binarySearchBy_of_split :
    binarySearchBy compare (below ++ above) = .error below.length := by
  cases hl : below ++ above with
  | nil =>
      have hlength := congrArg List.length (List.append_eq_nil_iff.mp hl).1
      rw [hlength]
      rfl
  | cons first rest =>
      have hlength : 0 < (below ++ above).length := by simp [hl]
      have hlast := searchLoop_of_split hbelow habove hlength (Nat.le_succ _)
        (Nat.le_of_eq (Nat.zero_add _)) (.inl rfl) (by simp)
      unfold binarySearchBy
      simp only
      rw [← hl]
      obtain ⟨hbase, hsplit, hlt⟩ := hlast
      generalize searchLoop compare (below ++ above) _ _ 0 = last at hbase hsplit hlt ⊢
      obtain ⟨x, hx⟩ : ∃ x, (below ++ above)[last]? = some x := ⟨_, List.getElem?_eq_getElem hlt⟩
      rw [hx, Option.map_some, compare_getElem hbelow habove hx]
      by_cases hside : last < below.length
      · rw [if_pos hside]
        exact congrArg Except.error (by omega)
      · rw [if_neg hside]
        exact congrArg Except.error (by omega)

theorem place_of_split : place compare (below ++ above) = below.length := by
  rw [place, binarySearchBy_of_split hbelow habove]

end Split

end BinarySearch
