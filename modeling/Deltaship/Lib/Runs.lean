import Mathlib.Logic.Relation
import Mathlib.Tactic.Common

/-!
# Deltaship.Lib.Runs

Whole runs of a system whose next state is a function of the state and of the
action taken.  `ok` says which actions may be taken in a state; a property of
every state of a run is an invariant of the steps (`Reaches.invariant`).
-/

namespace Runs

variable {σ α : Type}

/-- `s'` is reached from `s` by actions each of which may be taken where it is
taken. -/
def Reaches (next : σ → α → σ) (ok : σ → α → Prop) : σ → σ → Prop :=
  Relation.ReflTransGen fun s s' => ∃ a, ok s a ∧ s' = next s a

namespace Reaches

variable {next : σ → α → σ} {ok ok' : σ → α → Prop} {s s' : σ}

theorem refl (s : σ) : Reaches next ok s s := Relation.ReflTransGen.refl

/-- One more action reaches the state that it leads to. -/
theorem tail (h : Reaches next ok s s') {a : α} (ha : ok s' a) :
    Reaches next ok s (next s' a) :=
  Relation.ReflTransGen.tail h ⟨a, ha, rfl⟩

/-- What holds at the start and is kept by every allowed action holds in every
state reached. -/
theorem invariant {I : σ → Prop} (h : Reaches next ok s s') (hs : I s)
    (hstep : ∀ s a, I s → ok s a → I (next s a)) : I s' := by
  induction h with
  | refl => exact hs
  | tail _ hlast ih =>
      obtain ⟨a, ha, rfl⟩ := hlast
      exact hstep _ a ih ha

end Reaches

/-! ## the steps of a run -/

/-- The states of a run, from the first to the last. -/
def states (next : σ → α → σ) : σ → List α → List σ
  | s, [] => [s]
  | s, a :: rest => s :: states next (next s a) rest

/-- Each action of a run may be taken where it is taken. -/
def Permitted (next : σ → α → σ) (ok : σ → α → Prop) : σ → List α → Prop
  | _, [] => True
  | s, a :: rest => ok s a ∧ Permitted next ok (next s a) rest

/-- The last state of a run. -/
def final (next : σ → α → σ) (s : σ) (run : List α) : σ := run.foldl next s

/-- A run behind another one begins where that one ends. -/
theorem final_append (next : σ → α → σ) (s : σ) (run run' : List α) :
    final next s (run ++ run') = final next (final next s run) run' := List.foldl_append

/-- It is permitted if it is so from there on. -/
theorem permitted_append {next : σ → α → σ} {ok : σ → α → Prop} {s : σ} {run run' : List α} :
    Permitted next ok s (run ++ run') ↔
      Permitted next ok s run ∧ Permitted next ok (final next s run) run' := by
  induction run generalizing s with
  | nil => simp [Permitted, final]
  | cons a rest ih => simp [Permitted, final, ih, and_assoc]

/-- What holds at the start of a run and is kept by its actions holds at its
end. -/
theorem Permitted.invariant {next : σ → α → σ} {ok : σ → α → Prop} {I : σ → Prop} {s : σ}
    {run : List α} (h : Permitted next ok s run) (hs : I s)
    (hstep : ∀ s a, I s → ok s a → I (next s a)) : I (final next s run) := by
  induction run generalizing s with
  | nil => exact hs
  | cons a rest ih => exact ih h.2 (hstep s a hs h.1)

/-- An invariant of every action holds at the end of every run. -/
theorem final_invariant {next : σ → α → σ} {I : σ → Prop} {s : σ} (hs : I s)
    (hstep : ∀ s a, I s → I (next s a)) (run : List α) : I (final next s run) := by
  induction run generalizing s with
  | nil => exact hs
  | cons a rest ih => exact ih (hstep s a hs)

/-- A run reaches its last state. -/
theorem Permitted.reaches {next : σ → α → σ} {ok : σ → α → Prop} {s : σ} {run : List α}
    (h : Permitted next ok s run) : Reaches next ok s (final next s run) := by
  induction run generalizing s with
  | nil => exact Reaches.refl s
  | cons a rest ih => exact Relation.ReflTransGen.head ⟨a, h.1, rfl⟩ (ih h.2)

instance decidablePermitted {next : σ → α → σ} {ok : σ → α → Prop} [∀ s a, Decidable (ok s a)] :
    ∀ s run, Decidable (Permitted next ok s run)
  | _, [] => inferInstanceAs (Decidable True)
  | s, a :: rest =>
    haveI : Decidable (Permitted next ok (next s a) rest) :=
      decidablePermitted (next s a) rest
    inferInstanceAs (Decidable (ok s a ∧ Permitted next ok (next s a) rest))

/-- A run that may be taken under a condition may be taken under a weaker one. -/
theorem Permitted.mono {next : σ → α → σ} {ok ok' : σ → α → Prop} {s : σ} {run : List α}
    (h : Permitted next ok s run) (hok : ∀ s a, ok s a → ok' s a) : Permitted next ok' s run := by
  induction run generalizing s with
  | nil => trivial
  | cons a rest ih => exact ⟨hok s a h.1, ih h.2⟩

/-- A run that may be taken under two conditions may be taken under both. -/
theorem Permitted.and {next : σ → α → σ} {ok ok' : σ → α → Prop} {s : σ} {run : List α}
    (h : Permitted next ok s run) (h' : Permitted next ok' s run) :
    Permitted next (fun s a => ok s a ∧ ok' s a) s run := by
  induction run generalizing s with
  | nil => trivial
  | cons a rest ih => exact ⟨⟨h.1, h'.1⟩, ih h.2 h'.2⟩

/-- What every allowed action establishes between the states before and after
it holds of all neighbours in the states of a run. -/
theorem isChain_states {next : σ → α → σ} {ok : σ → α → Prop} {R : σ → σ → Prop}
    (hstep : ∀ s a, ok s a → R s (next s a)) {s : σ} {run : List α}
    (h : Permitted next ok s run) : (states next s run).IsChain R := by
  induction run generalizing s with
  | nil => exact List.IsChain.singleton s
  | cons a rest ih =>
      obtain ⟨ha, hrest⟩ := h
      have htail := ih hrest
      -- the second state is the one the first action leads to
      cases rest with
      | nil => exact List.IsChain.cons_cons (hstep s a ha) htail
      | cons b rest => exact List.IsChain.cons_cons (hstep s a ha) htail

end Runs
