import Mathlib.Logic.Function.Basic
import Mathlib.Tactic.Common

/-!
# Deltaship.Lib.Sections

Processes whose code takes locks and has sections that must not overlap.

The code of a process is a list of instructions, followed by a loop for ever; a process
that finds a lock taken that it does not wait for ends, and one can end at any time, and
its locks are released then.  Two processes are never inside their sections at the same
time if there is a lock that the code of each holds throughout its sections
(`Program.GuardedBy`), which can be read off the code: such a process holds the lock
wherever its code relies on it (`Holds`), and every action keeps that (`Holds.next`).
-/

namespace Sections

variable {ι κ : Type}

inductive Instr (κ : Type) where
  /-- Wait for a lock. -/
  | acquire (lock : κ)
  /-- Take a lock, or end. -/
  | tryAcquire (lock : κ)
  | release (lock : κ)
  | enter
  | leave
deriving DecidableEq

/-- The code of a process. -/
structure Program (κ : Type) where
  start : List (Instr κ)
  loop : List (Instr κ)

/-- What the processes have yet to do, unless they have ended, and who holds the
locks. -/
structure State (ι κ : Type) where
  code : ι → Option (List (Instr κ))
  owner : κ → Option ι

/-- A process takes a step, or ends. -/
inductive Action (ι : Type) where
  | step (i : ι)
  | kill (i : ι)

/-- No process has begun. -/
def init (P : ι → Program κ) : State ι κ := ⟨fun i => some (P i).start, fun _ => none⟩

/-- The process is in a section. -/
def Inside (s : State ι κ) (i : ι) : Prop := ∃ rest, s.code i = some (.leave :: rest)

section Steps

variable [DecidableEq ι] [DecidableEq κ] (P : ι → Program κ)

/-- The rest of the code of a process. -/
def State.goto (s : State ι κ) (i : ι) (code : List (Instr κ)) : State ι κ :=
  { s with code := Function.update s.code i (some code) }

/-- The end of a process. -/
def State.exit (s : State ι κ) (i : ι) : State ι κ where
  code := Function.update s.code i none
  owner l := if s.owner l = some i then none else s.owner l

/-- The step of a process, if it need not wait. -/
def step (s : State ι κ) (i : ι) : Option (State ι κ) :=
  match s.code i with
  | none => none
  | some [] => some (s.goto i (P i).loop)
  | some (.acquire l :: rest) =>
    if (s.owner l).isNone then
      some { s.goto i rest with owner := Function.update s.owner l (some i) }
    else none
  | some (.tryAcquire l :: rest) =>
    if (s.owner l).isNone then
      some { s.goto i rest with owner := Function.update s.owner l (some i) }
    else some (s.exit i)
  | some (.release l :: rest) =>
    if s.owner l = some i then
      some { s.goto i rest with owner := Function.update s.owner l none }
    else some (s.goto i rest)
  | some (.enter :: rest) | some (.leave :: rest) => some (s.goto i rest)

/-- The state behind an action; a process that has to wait stays where it is. -/
def next (s : State ι κ) : Action ι → State ι κ
  | .step i => (step P s i).getD s
  | .kill i => s.exit i

/-- The code holds the lock in all its sections, if it does at its start as `held` says
and whenever it comes back as `again` says. -/
def guards (l : κ) (again : Bool) : Bool → List (Instr κ) → Bool
  | held, [] => !again || held
  | held, .acquire l' :: rest | held, .tryAcquire l' :: rest =>
    guards l again (held || l' == l) rest
  | held, .release l' :: rest => guards l again (held && l' != l) rest
  | held, .enter :: rest => guards l again held rest
  | held, .leave :: rest => held && guards l again held rest

/-- The program holds the lock in all its sections. -/
def Program.GuardedBy (p : Program κ) (l : κ) : Prop :=
  ∃ again, guards l again false p.start = true ∧ guards l again again p.loop = true

instance (p : Program κ) (l : κ) : Decidable (p.GuardedBy l) :=
  inferInstanceAs (Decidable (∃ _ : Bool, _ ∧ _))

/-! ## guarded sections do not overlap -/

/- Each process is a program that takes and gives back locks around its sections. If the locks that
guard two sections have one in common, the processes are never in both at the same time; the
invariant says of each single process that it holds its locks where it relies on them. -/

/-- The process holds the lock wherever its code relies on it. -/
def Holds (l : κ) (s : State ι κ) (i : ι) : Prop :=
  ∀ code, s.code i = some code → ∃ again held, guards l again held code = true ∧
    guards l again again (P i).loop = true ∧ (held = true → s.owner l = some i)

variable {P} {s t : State ι κ} {i j : ι} {l : κ}

omit [DecidableEq ι] in
theorem Holds.inside (h : Holds P l s i) (hinside : Inside s i) : s.owner l = some i := by
  obtain ⟨rest, hcode⟩ := hinside
  obtain ⟨again, held, hguards, -, howner⟩ := h _ hcode
  simp only [guards, Bool.and_eq_true] at hguards
  exact howner hguards.1

omit [DecidableEq ι] in
/-- Two processes that hold a lock wherever they rely on it are not in their sections at
the same time. -/
theorem Holds.eq_of_inside (hi : Holds P l s i) (hj : Holds P l s j)
    (hinside : Inside s i) (hinside' : Inside s j) : i = j := by
  have howner := hi.inside hinside
  rw [hj.inside hinside'] at howner
  exact (Option.some.inj howner).symm

omit [DecidableEq ι] in
theorem holds_init (h : (P i).GuardedBy l) : Holds P l (init P) i := by
  intro code hcode
  obtain rfl := Option.some.inj hcode
  obtain ⟨again, hstart, hloop⟩ := h
  exact ⟨again, false, hstart, hloop, fun h => by contradiction⟩

/-- Everything a step can do. -/
inductive Step (P : ι → Program κ) (s : State ι κ) (i : ι) : State ι κ → Prop where
  | loop (hcode : s.code i = some []) : Step P s i (s.goto i (P i).loop)
  | take {l : κ} {rest : List (Instr κ)}
      (hcode : s.code i = some (.acquire l :: rest) ∨ s.code i = some (.tryAcquire l :: rest))
      (hfree : s.owner l = none) :
      Step P s i { s.goto i rest with owner := Function.update s.owner l (some i) }
  | fail {l : κ} {rest : List (Instr κ)} (hcode : s.code i = some (.tryAcquire l :: rest)) :
      Step P s i (s.exit i)
  | release {l : κ} {rest : List (Instr κ)} (hcode : s.code i = some (.release l :: rest))
      (hown : s.owner l = some i) :
      Step P s i { s.goto i rest with owner := Function.update s.owner l none }
  | idle {l : κ} {rest : List (Instr κ)} (hcode : s.code i = some (.release l :: rest))
      (hother : s.owner l ≠ some i) : Step P s i (s.goto i rest)
  | enter {rest : List (Instr κ)} (hcode : s.code i = some (.enter :: rest)) :
      Step P s i (s.goto i rest)
  | leave {rest : List (Instr κ)} (hcode : s.code i = some (.leave :: rest)) :
      Step P s i (s.goto i rest)

/-- A step that can be taken is one. -/
theorem Step.of_step (h : step P s i = some t) : Step P s i t := by
  unfold step at h
  split at h
  · contradiction
  · next hcode =>
      obtain rfl := Option.some.inj h
      exact .loop hcode
  · next l rest hcode =>
      split at h
      · next hfree =>
          obtain rfl := Option.some.inj h
          exact .take (.inl hcode) (Option.isNone_iff_eq_none.mp hfree)
      · contradiction
  · next l rest hcode =>
      split at h
      · next hfree =>
          obtain rfl := Option.some.inj h
          exact .take (.inr hcode) (Option.isNone_iff_eq_none.mp hfree)
      · obtain rfl := Option.some.inj h
        exact .fail hcode
  · next l rest hcode =>
      split at h
      · next hown =>
          obtain rfl := Option.some.inj h
          exact .release hcode hown
      · next hother =>
          obtain rfl := Option.some.inj h
          exact .idle hcode hother
  · next rest hcode =>
      obtain rfl := Option.some.inj h
      exact .enter hcode
  · next rest hcode =>
      obtain rfl := Option.some.inj h
      exact .leave hcode

omit [DecidableEq κ] in
/-- Who leaves takes no lock of another one along. -/
theorem owner_exit_ne (hne : i ≠ j) (howner : s.owner l = some i) :
    (s.exit j).owner l = some i := by
  simp [State.exit, howner, hne]

/-- What another process does takes no lock away. -/
theorem Step.owner_ne (h : Step P s j t) (hne : i ≠ j) (howner : s.owner l = some i) :
    t.owner l = some i := by
  cases h with
  | @take l' rest hcode hfree =>
      have hl : l ≠ l' := by
        rintro rfl
        rw [hfree] at howner
        contradiction
      exact (Function.update_of_ne hl _ _).trans howner
  | fail hcode => exact owner_exit_ne hne howner
  | @release l' rest hcode hown =>
      have hl : l ≠ l' := by
        rintro rfl
        rw [howner] at hown
        exact hne (Option.some.inj hown)
      exact (Function.update_of_ne hl _ _).trans howner
  | loop | idle | enter | leave => exact howner

/-- A step of one process leaves the code of the others. -/
theorem Step.code_ne (h : Step P s j t) (hne : i ≠ j) : t.code i = s.code i := by
  cases h <;> exact Function.update_of_ne hne _ _

/-- So it is with a step that cannot be taken. -/
theorem code_next_step_ne (hne : i ≠ j) : (next P s (.step j)).code i = s.code i := by
  show ((step P s j).getD s).code i = s.code i
  cases hstep : step P s j with
  | none => rfl
  | some t => exact (Step.of_step hstep).code_ne hne

omit [DecidableEq ι] in
/-- What another process does leaves the lock with its owner. -/
theorem Holds.other (h : Holds P l s i) (hcode : t.code i = s.code i)
    (howner : s.owner l = some i → t.owner l = some i) : Holds P l t i := by
  intro code hc
  obtain ⟨again, held, hguards, hloop, hheld⟩ := h code (hcode ▸ hc)
  exact ⟨again, held, hguards, hloop, fun hh => howner (hheld hh)⟩

omit [DecidableEq κ] in
/-- A process that goes on is at the code it has gone to. -/
theorem code_goto {code code' : List (Instr κ)} {owner : κ → Option ι}
    (h : State.code { s.goto i code with owner } i = some code') : code' = code := by
  simpa [State.goto] using h.symm

/-- Its own steps leave it outside, or with the lock. -/
theorem Holds.self (h : Holds P l s i) (hstep : Step P s i t) : Holds P l t i := by
  intro code' hcode'
  cases hstep with
  | loop hcode =>
      obtain rfl := code_goto hcode'
      obtain ⟨again, held, hguards, hloop, hheld⟩ := h _ hcode
      refine ⟨again, again, hloop, hloop, fun hagain => hheld ?_⟩
      simpa [guards, hagain] using hguards
  | @take l' rest hcode hfree =>
      obtain rfl := code_goto hcode'
      obtain ⟨again, held, hguards, hloop, hheld⟩ : ∃ again held,
          guards l again (held || l' == l) code' = true ∧
          guards l again again (P i).loop = true ∧ (held = true → s.owner l = some i) := by
        rcases hcode with hcode | hcode
        · exact h _ hcode
        · exact h _ hcode
      refine ⟨again, held || l' == l, hguards, hloop, fun hh => ?_⟩
      by_cases hl : l = l'
      · subst hl
        exact Function.update_self _ _ _
      · have hl' : ¬ l' = l := fun heq => hl heq.symm
        exact (Function.update_of_ne hl _ _).trans (hheld (by simpa [hl'] using hh))
  | fail hcode => simp [State.exit] at hcode'
  | @release l' rest hcode hown =>
      obtain rfl := code_goto hcode'
      obtain ⟨again, held, hguards, hloop, hheld⟩ := h _ hcode
      refine ⟨again, held && l' != l, hguards, hloop, fun hh => ?_⟩
      simp only [Bool.and_eq_true, bne_iff_ne, ne_eq] at hh
      exact (Function.update_of_ne (fun heq => hh.2 heq.symm) _ _).trans (hheld hh.1)
  | @idle l' rest hcode hother =>
      obtain rfl := code_goto hcode'
      obtain ⟨again, held, hguards, hloop, hheld⟩ := h _ hcode
      refine ⟨again, held && l' != l, hguards, hloop, fun hh => hheld ?_⟩
      simp only [Bool.and_eq_true] at hh
      exact hh.1
  | enter hcode =>
      obtain rfl := code_goto hcode'
      obtain ⟨again, held, hguards, hloop, hheld⟩ := h _ hcode
      exact ⟨again, held, hguards, hloop, hheld⟩
  | leave hcode =>
      obtain rfl := code_goto hcode'
      obtain ⟨again, held, hguards, hloop, hheld⟩ := h _ hcode
      simp only [guards, Bool.and_eq_true] at hguards
      exact ⟨again, held, hguards.2, hloop, hheld⟩

theorem Holds.next (h : Holds P l s i) (a : Action ι) : Holds P l (next P s a) i := by
  cases a with
  | step j =>
      show Holds P l ((step P s j).getD s) i
      cases hstep : step P s j with
      | none => exact h
      | some t =>
          rw [Option.getD_some]
          have hstep := Step.of_step hstep
          by_cases hij : i = j
          · subst hij
            exact h.self hstep
          · exact h.other (hstep.code_ne hij) (hstep.owner_ne hij)
  | kill j =>
      by_cases hij : i = j
      · subst hij
        intro code hcode
        simp [Sections.next, State.exit] at hcode
      · exact h.other (Function.update_of_ne hij _ _) (owner_exit_ne hij)

end Steps

end Sections
