import Deltaship.Core.Version
import Mathlib.Order.Compare

/-!
# Deltaship.Core.Precedence

The order of versions is a total preorder, whose ties are the versions that are equal up to
their build metadata.
-/

namespace Deltaship

/-- `Ord for semver::Prerelease` is a total order. -/
structure SemverCrate.PreOrdered (S : SemverCrate) : Prop where
  trans : Std.TransCmp S.preCmp
  lawful : Std.LawfulEqCmp S.preCmp

namespace Version

section Order

variable {S : SemverCrate} {a b c : Version}

/-- The order of prereleases, with none above all. -/
def preOrder (S : SemverCrate) (x y : String) : Ordering :=
  match x.isEmpty, y.isEmpty with
  | true, false => .gt
  | false, true => .lt
  | true, true => .eq
  | false, false => S.preCmp x y

/-- Two prereleases are level exactly if they are equal. -/
theorem preOrder_eq_iff (hS : S.PreOrdered) {x y : String} : preOrder S x y = .eq ↔ x = y := by
  have hlawful := hS.lawful
  have hempty : ∀ {z : String}, z.isEmpty = true ↔ z = "" := String.isEmpty_iff
  unfold preOrder
  cases hx : x.isEmpty <;> cases hy : y.isEmpty
  · exact @Std.LawfulEqCmp.compare_eq_iff_eq _ S.preCmp _ x y
  all_goals grind

/-- The order of prereleases is total, with none above all of them. -/
theorem transCmp_preOrder (hS : S.PreOrdered) : Std.TransCmp (preOrder S) where
  eq_swap {x y} := by
    have htrans := hS.trans
    unfold preOrder
    cases x.isEmpty <;> cases y.isEmpty
    · exact htrans.eq_swap
    all_goals rfl
  isLE_trans {x y z} hxy hyz := by
    have htrans := hS.trans
    unfold preOrder at *
    cases hx : x.isEmpty <;> cases hy : y.isEmpty <;> cases hz : z.isEmpty <;>
      simp only [hx, hy, hz] at hxy hyz ⊢
    · exact htrans.isLE_trans hxy hyz
    all_goals simp_all

/-- Versions are compared number by number, and then by prerelease. -/
theorem cmp_eq_compareLex (S : SemverCrate) :
    cmp S = compareLex (compareOn major) (compareLex (compareOn minor)
      (compareLex (compareOn patch) fun a b => preOrder S a.pre b.pre)) := by
  funext a b
  unfold cmp preOrder compareLex compareOn
  cases compare a.major b.major <;> cases compare a.minor b.minor <;>
    cases compare a.patch b.patch <;> rfl

/-- The order of versions is total. -/
theorem transCmp (hS : S.PreOrdered) : Std.TransCmp (cmp S) := by
  have hpre := transCmp_preOrder hS
  have hon : Std.TransCmp fun a b : Version => preOrder S a.pre b.pre :=
    { eq_swap := hpre.eq_swap
      isLE_trans := hpre.isLE_trans }
  rw [cmp_eq_compareLex]
  infer_instance

/-- Versions are of the same precedence if they are equal up to their build metadata. -/
theorem cmp_eq_iff (hS : S.PreOrdered) : cmp S a b = .eq ↔ eq a b = true := by
  rw [eq_iff, cmp_eq_compareLex]
  simp [compareLex_eq_eq, compareOn, preOrder_eq_iff hS]

theorem gt_iff : gt S a b = true ↔ cmp S a b = .gt := Ordering.isGT_iff_eq_gt

theorem le_iff_not_gt : le S a b = true ↔ ¬ gt S a b = true := by
  rw [gt_eq_not_le]
  simp

/-- What is greater than something greater is greater. -/
theorem gt_trans (hS : S.PreOrdered) (hab : gt S a b = true) (hbc : gt S b c = true) :
    gt S a c = true := by
  have htrans := transCmp hS
  exact gt_iff.mpr (Std.TransCmp.gt_trans (gt_iff.mp hab) (gt_iff.mp hbc))

theorem eq_false_of_gt (hS : S.PreOrdered) (h : gt S a b = true) : eq a b = false := by
  refine Bool.eq_false_iff.mpr fun heq => ?_
  rw [gt_iff, (cmp_eq_iff hS).mpr heq] at h
  contradiction

/-- Of two that are not equal, one is greater. -/
theorem gt_of_not_gt (hS : S.PreOrdered) (h : ¬ gt S a b = true) (hne : eq a b = false) :
    gt S b a = true := by
  have htrans := transCmp hS
  rw [gt_iff] at h ⊢
  cases hcmp : cmp S a b with
  | lt => rw [htrans.eq_swap, hcmp]; rfl
  | eq => simp [(cmp_eq_iff hS).mp hcmp] at hne
  | gt => contradiction

/-- Every version is less than or equal to itself. -/
theorem le_refl (hS : S.PreOrdered) (a : Version) : le S a a = true := by
  rw [le, (cmp_eq_iff hS).mpr (eq_refl a)]
  rfl

theorem le_of_gt (hS : S.PreOrdered) (h : gt S a b = true) : le S b a = true := by
  have htrans := transCmp hS
  rw [le, htrans.eq_swap, gt_iff.mp h]
  rfl

end Order

end Version

theorem semverOf_preOrdered (versions : List Version) : (semverOf versions).PreOrdered where
  trans := inferInstanceAs (Std.TransCmp (compare : String → String → Ordering))
  lawful := inferInstanceAs (Std.LawfulEqCmp (compare : String → String → Ordering))

end Deltaship
