import Deltaship.Lib.Prog

/-!
# Deltaship.Lib.Script

Programs that can be stopped.

A `Prog` has an outcome, but the states it passes through are not seen.  A `Script` is such a
program as a tree of its steps: `run` puts it together again, and `Passes` says in which states
it can be stopped, be it between two steps or in the middle of one.

`Keeps I m Q E s` is the judgement on scripts: wherever `m` is stopped, `I` holds, and if it is
not stopped it ends in `Q` or in `E`.
-/

/-- A program as a tree of steps. -/
inductive Script (σ ε : Type) : Type → Type 1 where
  /-- One step, and the states it can be stopped in the middle in. -/
  | step {α : Type} (m : Prog σ ε α) (during : σ → σ → Prop) : Script σ ε α
  | bind {α β : Type} (m : Script σ ε α) (f : α → Script σ ε β) : Script σ ε β
  | attempt {α : Type} (m : Script σ ε α) : Script σ ε (Except ε α)

namespace Script

open Prog

variable {σ ε α β : Type}

/-- A step that is done or not done. -/
def whole (m : Prog σ ε α) : Script σ ε α := step m fun _ _ => False

/-- A result that is known, or an error. -/
def check (r : Except ε α) : Script σ ε α := whole (Prog.ofExcept r)

/-- The program without its steps. -/
def run {α : Type} : Script σ ε α → Prog σ ε α
  | step m _ => m
  | bind m f => m.run >>= fun a => (f a).run
  | attempt m => Prog.attempt m.run

/-- A script whose errors are reworded. -/
def mapErr (f : ε → ε) (m : Script σ ε α) : Script σ ε α :=
  bind (attempt m) fun r => check (r.mapError f)

/-- The states a script that is started in `s` can be stopped in. -/
def Passes {α : Type} : Script σ ε α → σ → σ → Prop
  | step m during, s, s' => s' = s ∨ during s s' ∨ s' = (exec m s).2
  | bind m f, s, s' => m.Passes s s' ∨ ∃ a s₁, exec m.run s = (.ok a, s₁) ∧ (f a).Passes s₁ s'
  | attempt m, s, s' => m.Passes s s'

/-- Where the first part runs to its end, the second part can be stopped. -/
theorem passes_bind {m : Script σ ε α} {f : α → Script σ ε β} {s s₁ s' : σ} {a : α}
    (hrun : exec m.run s = (.ok a, s₁)) (hpass : (f a).Passes s₁ s') : (bind m f).Passes s s' :=
  .inr ⟨a, s₁, hrun, hpass⟩

/-- A step that is done or not done runs as its program. -/
@[simp] theorem run_whole (m : Prog σ ε α) : (whole m).run = m := rfl

/-- What a step can be killed in the middle in does not matter when it is not. -/
@[simp] theorem run_step (m : Prog σ ε α) (during : σ → σ → Prop) : (step m during).run = m := rfl

/-- A sequence runs as the sequence of the programs. -/
@[simp] theorem run_bind (m : Script σ ε α) (f : α → Script σ ε β) :
    (bind m f).run = m.run >>= fun a => (f a).run := rfl

/-- An attempt runs as the attempt of the program. -/
@[simp] theorem run_attempt (m : Script σ ε α) : (attempt m).run = Prog.attempt m.run := rfl

/-- Replacing errors runs as replacing those of the program. -/
@[simp] theorem run_mapErr (f : ε → ε) (m : Script σ ε α) :
    (mapErr f m).run = Prog.mapErr f m.run := by
  refine funext fun s => ?_
  have hexec : exec (mapErr f m).run s = exec (Prog.mapErr f m.run) s := by
    rw [mapErr, run_bind, run_attempt, exec_bind, exec_attempt, exec_mapErr]
    cases exec m.run s with
    | mk r s' => cases r <;> rfl
  exact hexec

/-- The last state it can be stopped in is the one it ends in. -/
theorem passes_exec (m : Script σ ε α) (s : σ) : m.Passes s (exec m.run s).2 := by
  induction m generalizing s with
  | step m during => exact .inr (.inr rfl)
  | bind m f ihm ihf =>
      have hm := ihm s
      rw [run_bind, exec_bind]
      cases hrun : exec m.run s with
      | mk r s₁ =>
          rw [hrun] at hm
          cases r with
          | ok a => exact .inr ⟨a, s₁, hrun, ihf a s₁⟩
          | error e => exact .inl hm
  | attempt m ih => exact ih s

/-! ## frames -/

/-- Wherever `m` is stopped, the state is related to the one it was started in. -/
def Stays (R : σ → σ → Prop) (m : Script σ ε α) : Prop := ∀ s s', m.Passes s s' → R s s'

namespace Stays

variable {R : σ → σ → Prop}

theorem attempt {m : Script σ ε α} (hm : Stays R m) : Stays R (Script.attempt m) := hm

/-- The frame of a script is one of the program. -/
theorem preserves {m : Script σ ε α} (h : Stays R m) : Preserves R m.run :=
  fun s => h s _ (passes_exec m s)

/-- What stays within a relation stays within a weaker one. -/
theorem mono {R' : σ → σ → Prop} {m : Script σ ε α} (h : Stays R m) (hR : ∀ s s', R s s' → R' s s') :
    Stays R' m := fun s s' hpass => hR s s' (h s s' hpass)

variable [IsPreorder σ R]

/-- A step stays if its end and everything in its middle does. -/
theorem step {m : Prog σ ε α} {during : σ → σ → Prop} (hm : Preserves R m)
    (hduring : ∀ s s', during s s' → R s s') : Stays R (Script.step m during) := by
  rintro s s' (rfl | hpass | rfl)
  · exact refl_of R s'
  · exact hduring s s' hpass
  · exact hm s

/-- A step that is done or not done stays if its end does. -/
theorem whole {m : Prog σ ε α} (hm : Preserves R m) : Stays R (Script.whole m) :=
  step hm fun _ _ h => h.elim

theorem check {r : Except ε α} : Stays R (Script.check r : Script σ ε α) := whole .ofExcept

/-- What goes on need only be considered for results that the first part has. -/
theorem bind_of {m : Script σ ε α} {f : α → Script σ ε β} (hm : Stays R m)
    (hf : ∀ a s s₁, exec m.run s = (.ok a, s₁) → Stays R (f a)) : Stays R (Script.bind m f) := by
  rintro s s' (hpass | ⟨a, s₁, hrun, hpass⟩)
  · exact hm s s' hpass
  · have hend := hm.preserves s
    rw [hrun] at hend
    exact trans_of R hend (hf a s s₁ hrun s₁ s' hpass)

/-- A sequence stays if both of its parts do. -/
theorem bind {m : Script σ ε α} {f : α → Script σ ε β} (hm : Stays R m)
    (hf : ∀ a, Stays R (f a)) : Stays R (Script.bind m f) := bind_of hm fun a _ _ _ => hf a

/-- Replacing errors does not change where a script stays. -/
theorem mapErr {f : ε → ε} {m : Script σ ε α} (hm : Stays R m) : Stays R (Script.mapErr f m) :=
  bind hm fun _ => check

end Stays

/-! ## the judgement -/

/-- Wherever `m` is stopped, `I` holds; if it is not, it ends in `Q` or in `E`. -/
def Keeps (I : σ → Prop) (m : Script σ ε α) (Q : α → σ → Prop) (E : ε → σ → Prop) (s : σ) : Prop :=
  (∀ s', m.Passes s s' → I s') ∧ wp m.run Q E s

section Rules

variable {I : σ → Prop} {Q Q' : α → σ → Prop} {E E' : ε → σ → Prop} {s : σ}

/-- A step keeps an invariant that holds at both ends and in its middle. -/
theorem keeps_step {m : Prog σ ε α} {during : σ → σ → Prop} (hI : I s)
    (hduring : ∀ s', during s s' → I s')
    (h : wp m (fun a s' => I s' ∧ Q a s') (fun e s' => I s' ∧ E e s') s) :
    Keeps I (step m during) Q E s := by
  refine ⟨fun s' hpass => ?_, wp_mono (fun _ _ h => h.2) (fun _ _ h => h.2) h⟩
  rcases hpass with rfl | hpass | rfl
  · exact hI
  · exact hduring s' hpass
  · exact wp_exec_snd (wp_mono (fun _ _ h => h.1) (fun _ _ h => h.1) h)

/-- A step that is done or not done keeps an invariant that holds at both ends. -/
theorem keeps_whole {m : Prog σ ε α} (hI : I s)
    (h : wp m (fun a s' => I s' ∧ Q a s') (fun e s' => I s' ∧ E e s') s) :
    Keeps I (whole m) Q E s :=
  keeps_step hI (fun _ h => h.elim) h

/-- A result that is known keeps what holds already. -/
theorem keeps_check {r : Except ε α} (hI : I s) (hok : ∀ a, r = .ok a → Q a s)
    (herror : ∀ e, r = .error e → E e s) : Keeps I (check r) Q E s := by
  refine keeps_whole hI ?_
  rw [wp_ofExcept]
  cases r with
  | ok a => exact ⟨hI, hok a rfl⟩
  | error e => exact ⟨hI, herror e rfl⟩

/-- The first part has to keep it and establish what the second one needs. -/
theorem keeps_bind {m : Script σ ε α} {f : α → Script σ ε β} {Q : β → σ → Prop}
    (h : Keeps I m (fun a s' => Keeps I (f a) Q E s') E s) : Keeps I (bind m f) Q E s := by
  refine ⟨fun s' hpass => ?_, ?_⟩
  · rcases hpass with hpass | ⟨a, s₁, hrun, hpass⟩
    · exact h.1 s' hpass
    · exact (wp_exec_ok h.2 hrun).1 s' hpass
  · exact wp_bind.mpr (wp_mono (fun _ _ h => h.2) (fun _ _ h => h) h.2)

theorem keeps_attempt {m : Script σ ε α} {Q : Except ε α → σ → Prop}
    (h : Keeps I m (fun a => Q (.ok a)) (fun e => Q (.error e)) s) : Keeps I (attempt m) Q E s :=
  ⟨h.1, wp_attempt.mpr h.2⟩

/-- What the frame of a script says about the states it can be stopped in. -/
theorem keeps_of_stays {R : σ → σ → Prop} {m : Script σ ε α} (h : Stays R m)
    (hI : ∀ s', R s s' → I s') (hwp : wp m.run Q E s) : Keeps I m Q E s :=
  ⟨fun s' hpass => hI s' (h s s' hpass), hwp⟩

/-- The postcondition of errors is asked of the errors that replace them. -/
theorem keeps_mapErr {f : ε → ε} {m : Script σ ε α} (h : Keeps I m Q (fun e => E (f e)) s) :
    Keeps I (mapErr f m) Q E s := by
  have hlast := h.1 _ (passes_exec m s)
  refine ⟨fun s' hpass => ?_, by rw [run_mapErr, wp_mapErr]; exact h.2⟩
  rcases hpass with hpass | ⟨r, s₁, hrun, hpass⟩
  · exact h.1 s' hpass
  · -- rewording the error is no step that changes the state
    have hsame : s' = s₁ := by
      rcases hpass with rfl | hpass | rfl
      · rfl
      · exact hpass.elim
      · rw [exec_ofExcept]
    rw [run_attempt, exec_attempt] at hrun
    rw [hsame, ← (Prod.mk.inj hrun).2]
    exact hlast

/-- The invariant holds at the end, too. -/
theorem keeps_and {m : Script σ ε α} (h : Keeps I m Q E s) :
    Keeps I m (fun a s' => I s' ∧ Q a s') (fun e s' => I s' ∧ E e s') s :=
  ⟨h.1, wp_and (wp_of_exec_snd (h.1 _ (passes_exec m s))) h.2⟩

/-- A weaker invariant. -/
theorem keeps_imp {I' : σ → Prop} {m : Script σ ε α} (hI : ∀ s', I s' → I' s')
    (h : Keeps I m Q E s) : Keeps I' m Q E s := ⟨fun s' hpass => hI s' (h.1 s' hpass), h.2⟩

theorem keeps_mono {m : Script σ ε α} (hQ : ∀ a s', Q a s' → Q' a s')
    (hE : ∀ e s', E e s' → E' e s') (h : Keeps I m Q E s) : Keeps I m Q' E' s :=
  ⟨h.1, wp_mono hQ hE h.2⟩

end Rules

end Script
