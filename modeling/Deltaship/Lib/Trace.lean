import Mathlib.Tactic.Common

/-!
# Deltaship.Lib.Trace

Traces whose actions are each allowed by what came before them.  `Guarded ok`
is the form that composes along the trace (`guarded_append`), and
`ok_of_guarded` is what it says: wherever the trace is cut in front of an
action, the part before the cut allows the action.
-/

namespace Trace

variable {α : Type} {ok : List α → α → Prop}

/-- Every action of a trace that continues `seen` is allowed by what precedes
it. -/
def Guarded (ok : List α → α → Prop) : List α → List α → Prop
  | _, [] => True
  | seen, x :: xs => ok seen x ∧ Guarded ok (seen ++ [x]) xs

/-- A trace is guarded if its parts are, the second one with the first behind it. -/
theorem guarded_append {seen xs ys : List α} :
    Guarded ok seen (xs ++ ys) ↔ Guarded ok seen xs ∧ Guarded ok (seen ++ xs) ys := by
  induction xs generalizing seen with
  | nil => simp only [List.nil_append, Guarded, true_and, List.append_nil]
  | cons x xs ih =>
      simp only [List.cons_append, Guarded, ih, and_assoc, List.append_assoc, List.nil_append]

/-- A trace of actions that are always allowed. -/
theorem guarded_of_forall {seen xs : List α} (h : ∀ x ∈ xs, ∀ before, ok before x) :
    Guarded ok seen xs := by
  induction xs generalizing seen with
  | nil => trivial
  | cons x xs ih =>
      exact ⟨h x List.mem_cons_self seen, ih fun y hy => h y (List.mem_cons_of_mem x hy)⟩

/-- What precedes an action of a guarded trace allows it. -/
theorem ok_of_guarded {seen before after : List α} {x : α}
    (h : Guarded ok seen (before ++ x :: after)) : ok (seen ++ before) x :=
  (guarded_append.mp h).2.1

end Trace
