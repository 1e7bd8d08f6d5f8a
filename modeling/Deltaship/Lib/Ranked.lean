import Mathlib.Data.List.Sort

/-!
# Deltaship.Lib.Ranked

The front of a list that is sorted by a key, the largest first.

A cut of such a list may go through elements of one key.  `take_above_drop_iff` says when it
does not, by counting; then the elements in front of the cut are above those behind it.
-/

namespace List

variable {α : Type} {l : List α} {key : α → Nat} {k : Nat} {a b : α}

/-- In a list without repetitions nothing behind a cut comes before something in front of it. -/
theorem not_sublist_of_mem_take_of_mem_drop (hl : l.Nodup) (ha : a ∈ l.take k)
    (hb : b ∈ l.drop k) : ¬ [b, a] <+ l := by
  rw [← List.take_append_drop k l] at hl
  have hdisjoint := (List.nodup_append.mp hl).2.2
  intro hsub
  rw [← List.take_append_drop k l, List.sublist_append_iff] at hsub
  obtain ⟨front, back, hsplit, hfront, hback⟩ := hsub
  cases front with
  | nil =>
      rw [List.nil_append] at hsplit
      rw [← hsplit] at hback
      exact hdisjoint a ha a (hback.subset (by simp)) rfl
  | cons c front =>
      obtain rfl : b = c := (List.cons.inj hsplit).1
      exact hdisjoint b (hfront.subset List.mem_cons_self) b hb rfl

/-- A cut does not go through elements of one key if and only if no key has fewer than `k`
elements above it and more than `k` from it on. -/
theorem take_above_drop_iff (hl : l.Pairwise fun x y => key y ≤ key x) :
    (∀ a ∈ l.take k, ∀ b ∈ l.drop k, key b < key a) ↔
      ∀ v ∈ l, l.countP (fun x => key v < key x) < k → l.countP (fun x => key v ≤ key x) ≤ k := by
  have hsplit : ∀ p : α → Bool, l.countP p = (l.take k).countP p + (l.drop k).countP p := fun p => by
    rw [← List.countP_append, List.take_append_drop]
  have hlen : ∀ b ∈ l.drop k, (l.take k).length = k := fun b hb => by
    have hpos := List.length_pos_of_mem hb
    rw [List.length_drop] at hpos
    rw [List.length_take]
    omega
  constructor
  · intro habove v hv hfew
    rw [hsplit] at hfew ⊢
    rw [← List.take_append_drop k l, List.mem_append] at hv
    rcases hv with hv | hv
    · have hnone : (l.drop k).countP (fun x => decide (key v ≤ key x)) = 0 :=
        List.countP_eq_zero.mpr fun x hx => by simpa using habove v hv x hx
      have hle : (l.take k).countP (fun x => decide (key v ≤ key x)) ≤ k :=
        List.countP_le_length.trans (List.length_take_le _ _)
      omega
    · have hall : (l.take k).countP (fun x => decide (key v < key x)) = k := by
        rw [List.countP_eq_length.mpr fun x hx => by simpa using habove x hx v hv, hlen v hv]
      omega
  · intro hcount a ha b hb
    rw [← List.take_append_drop k l, List.pairwise_append] at hl
    have hle := hl.2.2
    by_contra hnot
    have heq : key b = key a := Nat.le_antisymm (hle a ha b hb) (not_lt.mp hnot)
    have hfront : (l.take k).countP (fun x => decide (key a < key x)) < (l.take k).length := by
      refine Nat.lt_of_le_of_ne List.countP_le_length fun hall => ?_
      simpa using List.countP_eq_length.mp hall a ha
    have hback : (l.drop k).countP (fun x => decide (key a < key x)) = 0 :=
      List.countP_eq_zero.mpr fun x hx => by simpa using hle a ha x hx
    have hfront' : (l.take k).countP (fun x => decide (key a ≤ key x)) = (l.take k).length :=
      List.countP_eq_length.mpr fun x hx => by simpa [← heq] using hle x hx b hb
    have hback' : 0 < (l.drop k).countP (fun x => decide (key a ≤ key x)) :=
      List.countP_pos_iff.mpr ⟨b, hb, by simp [heq]⟩
    have hbound := hcount a (List.mem_of_mem_take ha)
    rw [hsplit, hsplit] at hbound
    have hk := hlen b hb
    omega

end List
