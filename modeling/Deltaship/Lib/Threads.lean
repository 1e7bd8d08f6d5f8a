import Deltaship.Lib.Prog
import Mathlib

/-!
# Deltaship.Lib.Threads

Programs that run beside each other on one state.

A `Thread` is a program as a tree of steps.  Other threads can come between two of its steps,
and a part of it can run under a lock.  A `Pool` takes the steps of its threads in any order, and
can stop a thread for good, be it between two steps or in the middle of one.

`Guards R I H m P Q E` is the judgement on threads, for one that holds the locks `H`; `R H` says
what the others do to the state meanwhile.  A thread that starts in `P` keeps `I`, does nothing
that `R` does not let it do, and ends in `Q` or in `E`.  `Pool.Safe` is what follows from it for
all of them together.
-/

/-- A program as a tree of steps, with parts that run under a lock. -/
inductive Thread (σ L : Type) : Type → Type → Type 1 where
  /-- One step, and the states it can be stopped in the middle in. -/
  | step {ε α : Type} (m : Prog σ ε α) (during : σ → σ → Prop) : Thread σ L ε α
  | bind {ε α β : Type} (m : Thread σ L ε α) (f : α → Thread σ L ε β) : Thread σ L ε β
  | attempt {ε α : Type} (m : Thread σ L ε α) : Thread σ L ε (Except ε α)
  | adapt {ε ε' α : Type} (f : ε → ε') (m : Thread σ L ε α) : Thread σ L ε' α
  /-- Take a lock, when it is free, and release it behind `m`. -/
  | locked {ε α : Type} (l : L) (m : Thread σ L ε α) : Thread σ L ε α
  /-- What is left of such a part when the lock was taken. -/
  | holding {ε α : Type} (l : L) (m : Thread σ L ε α) : Thread σ L ε α

namespace Thread

open Prog

variable {σ L ε ε' α β : Type}

/-- A step that is done or not done. -/
def whole (m : Prog σ ε α) : Thread σ L ε α := step m fun _ _ => False

/-- A result that is known, or an error. -/
def check (r : Except ε α) : Thread σ L ε α := whole (Prog.ofExcept r)

/-- The program without its steps and locks. -/
def run {ε α : Type} : Thread σ L ε α → Prog σ ε α
  | step m _ => m
  | bind m f => m.run >>= fun a => (f a).run
  | attempt m => Prog.attempt m.run
  | adapt f m => Prog.adapt f m.run
  | locked _ m => m.run
  | holding _ m => m.run

/-- The locks that a thread holds. -/
def held {ε α : Type} : Thread σ L ε α → Set L
  | step _ _ => ∅
  | bind m _ => m.held
  | attempt m => m.held
  | adapt _ m => m.held
  | locked _ _ => ∅
  | holding l m => insert l m.held

/-- The locks that a thread holds, one by one. -/
def locks {ε α : Type} : Thread σ L ε α → List L
  | step _ _ => []
  | bind m _ => m.locks
  | attempt m => m.locks
  | adapt _ m => m.locks
  | locked _ _ => []
  | holding l m => l :: m.locks

/-- What a step leaves: what is to do behind it, or the result; and the state. -/
abbrev Rest (σ L ε α : Type) : Type 1 := (Thread σ L ε α ⊕ Except ε α) × σ

namespace Rest

/-- What is left of `bind m f`, given what is left of `m`. -/
def bind (f : α → Thread σ L ε β) : Rest σ L ε α → Rest σ L ε β
  | (.inl m, s) => (.inl (.bind m f), s)
  | (.inr (.ok a), s) => (.inl (f a), s)
  | (.inr (.error e), s) => (.inr (.error e), s)

/-- What is left of `attempt m`. -/
def attempt : Rest σ L ε α → Rest σ L ε (Except ε α)
  | (.inl m, s) => (.inl (.attempt m), s)
  | (.inr r, s) => (.inr (.ok r), s)

/-- What is left of `adapt f m`. -/
def adapt (f : ε → ε') : Rest σ L ε α → Rest σ L ε' α
  | (.inl m, s) => (.inl (.adapt f m), s)
  | (.inr r, s) => (.inr (r.mapError f), s)

/-- What is left of a part under a lock. -/
def holding (l : L) : Rest σ L ε α → Rest σ L ε α
  | (.inl m, s) => (.inl (.holding l m), s)
  | (.inr r, s) => (.inr r, s)

end Rest

/-- One step. -/
def next {ε α : Type} : Thread σ L ε α → σ → Rest σ L ε α
  | step m _, s => (.inr (exec m s).1, (exec m s).2)
  | bind m f, s => (m.next s).bind f
  | attempt m, s => (m.next s).attempt
  | adapt f m, s => (m.next s).adapt f
  | locked l m, s => (.inl (holding l m), s)
  | holding l m, s => (m.next s).holding l

/-- The states that the next step can be stopped in the middle in. -/
def Torn {ε α : Type} : Thread σ L ε α → σ → σ → Prop
  | step _ during, s, s' => during s s'
  | bind m _, s, s' => m.Torn s s'
  | attempt m, s, s' => m.Torn s s'
  | adapt _ m, s, s' => m.Torn s s'
  | locked _ _, _, _ => False
  | holding _ m, s, s' => m.Torn s s'

/-- A sequence takes the steps of its first part. -/
theorem next_bind (m : Thread σ L ε α) (f : α → Thread σ L ε β) (s : σ) :
    (bind m f).next s = (m.next s).bind f := by rw [next]

/-- An attempt takes the steps of its thread. -/
theorem next_attempt (m : Thread σ L ε α) (s : σ) : (attempt m).next s = (m.next s).attempt := by
  rw [next]

/-- A thread whose errors are replaced takes its own steps. -/
theorem next_adapt (f : ε → ε') (m : Thread σ L ε α) (s : σ) :
    (adapt f m).next s = (m.next s).adapt f := by rw [next]

/-- A part under a lock takes its own steps. -/
theorem next_holding (l : L) (m : Thread σ L ε α) (s : σ) :
    (holding l m).next s = (m.next s).holding l := by rw [next]

/-- A part under a lock holds that lock and those of its own. -/
@[simp] theorem held_holding (l : L) (m : Thread σ L ε α) :
    (holding l m).held = insert l m.held := by rw [held]

/-- The list holds the locks of the set. -/
theorem mem_held_iff {l : L} {m : Thread σ L ε α} : l ∈ m.held ↔ l ∈ m.locks := by
  induction m with
  | step m during => exact iff_of_false (Set.notMem_empty l) List.not_mem_nil
  | bind m f ih => exact ih
  | attempt m ih => exact ih
  | adapt f m ih => exact ih
  | locked l' m => exact iff_of_false (Set.notMem_empty l) List.not_mem_nil
  | holding l' m ih => rw [held_holding, Set.mem_insert_iff, locks, List.mem_cons, ih]

/-- A step that is done or not done runs as its program. -/
@[simp] theorem run_whole (m : Prog σ ε α) : (whole m : Thread σ L ε α).run = m := rfl

/-- A result that is known runs as that result. -/
@[simp] theorem run_check (r : Except ε α) :
    (check r : Thread σ L ε α).run = Prog.ofExcept r := rfl

/-- What a step can be stopped in the middle in does not matter when it is not. -/
@[simp] theorem run_step (m : Prog σ ε α) (during : σ → σ → Prop) :
    (step m during : Thread σ L ε α).run = m := rfl

/-- A sequence runs as the sequence of the programs. -/
@[simp] theorem run_bind (m : Thread σ L ε α) (f : α → Thread σ L ε β) :
    (bind m f).run = m.run >>= fun a => (f a).run := rfl

/-- An attempt runs as the attempt of the program. -/
@[simp] theorem run_attempt (m : Thread σ L ε α) : (attempt m).run = Prog.attempt m.run := rfl

/-- Replacing errors runs as replacing those of the program. -/
@[simp] theorem run_adapt (f : ε → ε') (m : Thread σ L ε α) :
    (adapt f m).run = Prog.adapt f m.run := rfl

/-- A lock does not change what the part under it does. -/
@[simp] theorem run_locked (l : L) (m : Thread σ L ε α) : (locked l m).run = m.run := rfl

/-- Nor does a lock that was taken already. -/
@[simp] theorem run_holding (l : L) (m : Thread σ L ε α) : (holding l m).run = m.run := rfl

/-! ## alone -/

/-- One step of a thread that runs alone. -/
inductive Turn {ε α : Type} : Rest σ L ε α → Rest σ L ε α → Prop where
  | next (m : Thread σ L ε α) (s : σ) : Turn (.inl m, s) (m.next s)

/-- Steps of a part are steps of the whole. -/
theorem Turn.lift {x y : Rest σ L ε α} {f : Rest σ L ε α → Rest σ L ε' β}
    (hf : ∀ m s, Turn (f (.inl m, s)) (f (m.next s))) (h : Relation.ReflTransGen Turn x y) :
    Relation.ReflTransGen Turn (f x) (f y) :=
  h.lift f fun x y hturn => by
    cases hturn with
    | next m s => exact hf m s

/-- A thread that runs alone ends in the outcome of its program. -/
theorem turns_run (m : Thread σ L ε α) (s : σ) :
    Relation.ReflTransGen Turn (.inl m, s) (.inr (exec m.run s).1, (exec m.run s).2) := by
  induction m generalizing s with
  | step m during => exact .single (.next (step m during) s)
  | bind m f ihm ihf =>
      have hm := Turn.lift (f := Rest.bind f)
        (fun m s => next_bind m f s ▸ .next (bind m f) s) (ihm s)
      rw [run_bind, exec_bind]
      cases hrun : exec m.run s with
      | mk r s' =>
          rw [hrun] at hm
          cases r with
          | ok a => exact hm.trans (ihf a s')
          | error e => exact hm
  | attempt m ih =>
      exact Turn.lift (f := Rest.attempt)
        (fun m s => next_attempt m s ▸ .next (attempt m) s) (ih s)
  | adapt f m ih =>
      have hm := Turn.lift (f := Rest.adapt f)
        (fun m s => next_adapt f m s ▸ .next (adapt f m) s) (ih s)
      rw [run_adapt, exec_adapt]
      cases hrun : exec m.run s with
      | mk r s' =>
          rw [hrun] at hm
          cases r <;> exact hm
  | locked l m ih =>
      have hm := Turn.lift (f := Rest.holding l)
        (fun m s => next_holding l m s ▸ .next (holding l m) s) (ih s)
      exact .head (.next (locked l m) s) hm
  | holding l m ih =>
      exact Turn.lift (f := Rest.holding l)
        (fun m s => next_holding l m s ▸ .next (holding l m) s) (ih s)

/-! ## the judgement -/

/- A thread is verified alone, against what the others may do: its assertions have to be stable
under their steps, and its own steps have to be among those that it is allowed. Locks restrict both,
as nobody else does what needs a lock that the thread holds. -/

/-- Nobody who does `R` makes `P` false. -/
def Stable (R : σ → σ → Prop) (P : σ → Prop) : Prop := ∀ s s', R s s' → P s → P s'

/-- What a thread with the locks `H` can do to the others, which hold none of them. -/
def Allowed (R : Set L → σ → σ → Prop) (H : Set L) (s s' : σ) : Prop :=
  ∀ H', Disjoint H' H → R H' s s'

/-- An outcome is in `Q` or in `E`. -/
def Lands (Q : α → σ → Prop) (E : ε → σ → Prop) (s : σ) : Except ε α → Prop
  | .ok a => Q a s
  | .error e => E e s

section Judgement

variable (R : Set L → σ → σ → Prop) (I : σ → Prop)

/-- From `P`, and holding the locks `H`, every step keeps `I` and is allowed; the last one ends
in `Q` or in `E`.  What is known between two steps is something that the others leave true. -/
def Guards {ε α : Type} :
    Thread σ L ε α → Set L → (σ → Prop) → (α → σ → Prop) → (ε → σ → Prop) → Prop
  | step m during, H, P, Q, E => ∀ s, I s → P s →
      (∀ s', during s s' → I s' ∧ Allowed R H s s') ∧
        wp m (fun a s' => (I s' ∧ Allowed R H s s') ∧ Q a s')
          (fun e s' => (I s' ∧ Allowed R H s s') ∧ E e s') s
  | bind m f, H, P, Q, E => ∃ M, (∀ a, Stable (R H) (M a)) ∧ m.Guards H P M E ∧
      ∀ a, (f a).Guards H (M a) Q E
  | attempt m, H, P, Q, E => m.Guards H P (fun a => Q (.ok a)) fun e => Q (.error e)
  | adapt f m, H, P, Q, E => m.Guards H P Q fun e => E (f e)
  | locked l m, H, P, Q, E => m.Guards (insert l H) P Q E
  | holding l m, H, P, Q, E => m.Guards (insert l H) P Q E

/-- Every step does `G`. -/
def Within (G : σ → σ → Prop) {ε α : Type} : Thread σ L ε α → Prop
  | step m during => Preserves G m ∧ ∀ s s', during s s' → G s s'
  | bind m f => m.Within G ∧ ∀ a, (f a).Within G
  | attempt m => m.Within G
  | adapt _ m => m.Within G
  | locked _ m => m.Within G
  | holding _ m => m.Within G

/-- What a step leaves is a thread with its own assertion, or an outcome. -/
def Rests (H : Set L) (Q : α → σ → Prop) (E : ε → σ → Prop) (s : σ) :
    Thread σ L ε α ⊕ Except ε α → Prop
  | .inl m => ∃ P, Stable (R (H ∪ m.held)) P ∧ P s ∧ m.Guards R I H P Q E
  | .inr r => Lands Q E s r

end Judgement

section Rules

variable {R : Set L → σ → σ → Prop} {I P P' F : σ → Prop} {H : Set L} {s s' : σ}
  {Q Q' : α → σ → Prop} {E E' : ε → σ → Prop}

/-- A thread may be given more at the start than it needs, and asked for less at its end. -/
theorem guards_mono {m : Thread σ L ε α} (hP : ∀ s, P' s → P s) (hQ : ∀ a s, Q a s → Q' a s)
    (hE : ∀ e s, E e s → E' e s) (h : m.Guards R I H P Q E) : m.Guards R I H P' Q' E' := by
  induction m generalizing H P P' with
  | step m during =>
      intro s hI hs
      obtain ⟨hduring, hstep⟩ := h s hI (hP s hs)
      exact ⟨hduring, wp_mono (fun a s' h => ⟨h.1, hQ a s' h.2⟩) (fun e s' h => ⟨h.1, hE e s' h.2⟩)
        hstep⟩
  | bind m f ihm ihf =>
      obtain ⟨M, hM, hm, hf⟩ := h
      exact ⟨M, hM, ihm hP (fun _ _ h => h) hE hm, fun a => ihf a (fun _ h => h) hQ hE (hf a)⟩
  | attempt m ih => exact ih hP (fun a => hQ _) (fun e => hQ _) h
  | adapt f m ih => exact ih hP hQ (fun e => hE _) h
  | locked l m ih => exact ih hP hQ hE h
  | holding l m ih => exact ih hP hQ hE h

/-- What the others leave true stays true besides. -/
theorem guards_frame {m : Thread σ L ε α} (hF : Stable (R ∅) F) (hanti : Antitone R)
    (h : m.Guards R I H P Q E) :
    m.Guards R I H (fun s => P s ∧ F s) (fun a s => Q a s ∧ F s) (fun e s => E e s ∧ F s) := by
  induction m generalizing H P with
  | step m during =>
      rintro s hI ⟨hs, hframe⟩
      obtain ⟨hduring, hstep⟩ := h s hI hs
      have hkept : ∀ {s'}, Allowed R H s s' → F s' := fun hallowed =>
        hF _ _ (hallowed ∅ (Set.empty_disjoint _)) hframe
      exact ⟨hduring, wp_mono (fun a s' h => ⟨h.1, h.2, hkept h.1.2⟩)
        (fun e s' h => ⟨h.1, h.2, hkept h.1.2⟩) hstep⟩
  | bind m f ihm ihf =>
      obtain ⟨M, hM, hm, hf⟩ := h
      refine ⟨fun a s => M a s ∧ F s, fun a s s' hR hs => ⟨hM a s s' hR hs.1, ?_⟩, ihm hm,
        fun a => ihf a (hf a)⟩
      exact hF s s' (hanti (Set.empty_subset H) s s' hR) hs.2
  | attempt m ih => exact ih h
  | adapt f m ih => exact ih h
  | locked l m ih => exact ih h
  | holding l m ih => exact ih h

/-- For a step that is done or not done, only its two ends matter. -/
theorem guards_whole {m : Prog σ ε α}
    (hstep : ∀ s, I s → P s → wp m (fun a s' => (I s' ∧ Allowed R H s s') ∧ Q a s')
      (fun e s' => (I s' ∧ Allowed R H s s') ∧ E e s') s) :
    (whole m : Thread σ L ε α).Guards R I H P Q E :=
  fun s hI hs => ⟨fun _ h => h.elim, hstep s hI hs⟩

/-- What is known between two parts has to be something that the others leave true. -/
theorem guards_bind {m : Thread σ L ε α} {f : α → Thread σ L ε β} {Q : β → σ → Prop}
    {M : α → σ → Prop} (hM : ∀ a, Stable (R H) (M a)) (hm : m.Guards R I H P M E)
    (hf : ∀ a, (f a).Guards R I H (M a) Q E) : (bind m f).Guards R I H P Q E :=
  ⟨M, hM, hm, hf⟩

/-- What is allowed with some locks is allowed with one more. -/
theorem Allowed.insert {l : L} (h : Allowed R H s s') : Allowed R (insert l H) s s' :=
  fun H' hdisjoint => h H' (hdisjoint.mono_right (Set.subset_insert l H))

/-- Steps that need to know nothing. -/
theorem guards_of_within {G : σ → σ → Prop} {m : Thread σ L ε α}
    (hG : ∀ s s', G s s' → I s → I s' ∧ Allowed R H s s') (h : m.Within G) :
    m.Guards R I H P (fun _ _ => True) fun _ _ => True := by
  induction m generalizing H P with
  | step m during =>
      intro s hI hs
      have hend := hG s _ (h.1 s) hI
      exact ⟨fun s' hpass => hG s s' (h.2 s s' hpass) hI,
        wp_of_exec_snd (P := fun s' => (I s' ∧ Allowed R H s s') ∧ True) ⟨hend, trivial⟩⟩
  | bind m f ihm ihf =>
      exact ⟨fun _ _ => True, fun _ _ _ _ _ => trivial, ihm hG h.1, fun a => ihf a hG (h.2 a)⟩
  | attempt m ih => exact ih hG h
  | adapt f m ih => exact ih hG h
  | locked l m ih => exact ih (fun s s' hs hI => ⟨(hG s s' hs hI).1, (hG s s' hs hI).2.insert⟩) h
  | holding l m ih => exact ih (fun s s' hs hI => ⟨(hG s s' hs hI).1, (hG s s' hs hI).2.insert⟩) h

/-- Such steps keep what the others leave true. -/
theorem guards_pass {G : σ → σ → Prop} {m : Thread σ L ε α} (hF : Stable (R ∅) F)
    (hanti : Antitone R) (hG : ∀ s s', G s s' → I s → I s' ∧ Allowed R H s s')
    (h : m.Within G) : m.Guards R I H F (fun _ => F) fun _ => F :=
  guards_mono (fun _ hs => ⟨trivial, hs⟩) (fun _ _ hs => hs.2) (fun _ _ hs => hs.2)
    (guards_frame hF hanti (guards_of_within (P := fun _ => True) hG h))

theorem guards_attempt {m : Thread σ L ε α} {Q : Except ε α → σ → Prop}
    (h : m.Guards R I H P (fun a => Q (.ok a)) fun e => Q (.error e)) :
    (attempt m).Guards R I H P Q E := h

/-- The assertion on errors is asked of the errors that replace them. -/
theorem guards_adapt {f : ε → ε'} {m : Thread σ L ε α} {E : ε' → σ → Prop}
    (h : m.Guards R I H P Q fun e => E (f e)) : (adapt f m).Guards R I H P Q E := h

/-- A thread that cannot be started guards anything. -/
theorem guards_absurd {m : Thread σ L ε α} (hP : ∀ s, ¬ P s) : m.Guards R I H P Q E := by
  induction m generalizing H P with
  | step m during => exact fun s _ hs => (hP s hs).elim
  | bind m f ihm ihf =>
      exact ⟨fun _ _ => False, fun _ _ _ _ h => h, ihm hP, fun a => ihf a fun _ h => h⟩
  | attempt m ih => exact ih hP
  | adapt f m ih => exact ih hP
  | locked l m ih => exact ih hP
  | holding l m ih => exact ih hP

/-- What is known but does not concern the state. -/
theorem guards_of_fact {m : Thread σ L ε α} {φ : Prop} (h : φ → m.Guards R I H P Q E) :
    m.Guards R I H (fun s => φ ∧ P s) Q E := by
  by_cases hφ : φ
  · exact guards_mono (fun _ hs => hs.2) (fun _ _ hQ => hQ) (fun _ _ hE => hE) (h hφ)
  · exact guards_absurd fun s hs => hφ hs.1

variable [∀ H, IsPreorder σ (R H)]

/-- A step that leaves the state as it is. -/
theorem guards_still {m : Prog σ ε α} (h : ∀ s, I s → P s →
      wp m (fun a s' => s' = s ∧ Q a s) (fun e s' => s' = s ∧ E e s) s) :
    (whole m : Thread σ L ε α).Guards R I H P Q E := by
  refine guards_whole fun s hI hs => ?_
  have hstay : Allowed R H s s := fun H' _ => refl_of (R H') s
  refine wp_mono (fun a s' h => ?_) (fun e s' h => ?_) (h s hI hs)
  · rw [h.1]
    exact ⟨⟨hI, hstay⟩, h.2⟩
  · rw [h.1]
    exact ⟨⟨hI, hstay⟩, h.2⟩

/-- What was read is known, as long as the others leave it true. -/
theorem guards_get {Q : σ → σ → Prop} (h : ∀ s, I s → P s → Q s s) :
    (whole get : Thread σ L ε σ).Guards R I H P Q E :=
  guards_still fun s hI hs => ⟨rfl, h s hI hs⟩

/-- A result that is known is checked against the assertion that it falls under. -/
theorem guards_check {r : Except ε α} (hok : ∀ a s, r = .ok a → I s → P s → Q a s)
    (herror : ∀ e s, r = .error e → I s → P s → E e s) :
    (check r : Thread σ L ε α).Guards R I H P Q E := by
  refine guards_still fun s hI hs => ?_
  rw [wp_ofExcept]
  cases r with
  | ok a => exact ⟨rfl, hok a s rfl hI hs⟩
  | error e => exact ⟨rfl, herror e s rfl hI hs⟩

end Rules

/-! ## one step -/

section Step

variable {R : Set L → σ → σ → Prop} {I P : σ → Prop} {H : Set L} {s s' : σ}
  {Q : α → σ → Prop} {E : ε → σ → Prop}

/-- The lock of a part counts among those that the part holds. -/
theorem insert_union_held {l : L} {m : Thread σ L ε α} :
    insert l H ∪ m.held = H ∪ (holding l m).held := by
  rw [held_holding, Set.insert_union, Set.union_insert]

/-- A thread that is stopped in the middle of a step has done nothing that is not allowed. -/
theorem guards_torn {m : Thread σ L ε α} (h : m.Guards R I H P Q E) (hI : I s) (hs : P s)
    (htorn : m.Torn s s') : I s' ∧ Allowed R (H ∪ m.held) s s' := by
  induction m generalizing H P with
  | step m during =>
      unfold held
      rw [Set.union_empty]
      exact (h s hI hs).1 s' htorn
  | bind m f ihm ihf =>
      obtain ⟨M, hM, hm, hf⟩ := h
      exact ihm hm hs htorn
  | attempt m ih => exact ih h hs htorn
  | adapt f m ih => exact ih h hs htorn
  | locked l m ih => exact htorn.elim
  | holding l m ih =>
      have hkept := ih h hs htorn
      rwa [insert_union_held] at hkept

variable [∀ H, IsPreorder σ (R H)]

/-- Between two steps of a thread that guards, the rest of it guards. -/
theorem guards_next {m : Thread σ L ε α} (hanti : Antitone R) (h : m.Guards R I H P Q E)
    (hP : Stable (R (H ∪ m.held)) P) (hI : I s) (hs : P s) :
    (I (m.next s).2 ∧ Allowed R (H ∪ m.held) s (m.next s).2) ∧
      Rests R I H Q E (m.next s).2 (m.next s).1 := by
  induction m generalizing H P s with
  | step m during =>
      obtain ⟨-, hstep⟩ := h s hI hs
      unfold wp at hstep
      unfold next held
      rw [Set.union_empty]
      cases hrun : exec m s with
      | mk r s' =>
          rw [hrun] at hstep
          cases r with
          | ok a => exact hstep
          | error e => exact hstep
  | bind m f ihm ihf =>
      obtain ⟨M, hM, hm, hf⟩ := h
      obtain ⟨hkept, hrests⟩ := ihm hm hP hI hs
      unfold next
      cases hnext : m.next s with
      | mk rest s' =>
          rw [hnext] at hkept hrests
          cases rest with
          | inl m' =>
              obtain ⟨P', hP', hs', hguards⟩ := hrests
              exact ⟨hkept, P', hP', hs', M, hM, hguards, hf⟩
          | inr r =>
              cases r with
              | ok a =>
                  have hstable : Stable (R (H ∪ (f a).held)) (M a) := fun s s' hR =>
                    hM a s s' (hanti Set.subset_union_left s s' hR)
                  exact ⟨hkept, M a, hstable, hrests, hf a⟩
              | error e => exact ⟨hkept, hrests⟩
  | attempt m ih =>
      obtain ⟨hkept, hrests⟩ := ih h hP hI hs
      unfold next
      cases hnext : m.next s with
      | mk rest s' =>
          rw [hnext] at hkept hrests
          cases rest with
          | inl m' => exact ⟨hkept, hrests⟩
          | inr r => cases r <;> exact ⟨hkept, hrests⟩
  | adapt f m ih =>
      obtain ⟨hkept, hrests⟩ := ih h hP hI hs
      unfold next
      cases hnext : m.next s with
      | mk rest s' =>
          rw [hnext] at hkept hrests
          cases rest with
          | inl m' => exact ⟨hkept, hrests⟩
          | inr r => cases r <;> exact ⟨hkept, hrests⟩
  | locked l m ih =>
      have hsub : H ∪ (∅ : Set L) ⊆ H ∪ insert l m.held :=
        Set.union_subset_union_right H (Set.empty_subset _)
      exact ⟨⟨hI, fun H' _ => refl_of (R H') s⟩, P,
        fun s s' hR => hP s s' (hanti hsub s s' hR), hs, h⟩
  | holding l m ih =>
      have hP' : Stable (R (insert l H ∪ m.held)) P := by rwa [insert_union_held]
      obtain ⟨hkept, hrests⟩ := ih h hP' hI hs
      rw [insert_union_held] at hkept
      unfold next
      cases hnext : m.next s with
      | mk rest s' =>
          rw [hnext] at hkept hrests
          cases rest with
          | inl m' =>
              obtain ⟨P', hP', hs', hguards⟩ := hrests
              rw [insert_union_held] at hP'
              exact ⟨hkept, P', hP', hs', hguards⟩
          | inr r => exact ⟨hkept, hrests⟩

end Step

end Thread

/-! ## pools -/

/- A pool is a shared state with threads beside it. One step of one thread is done, or is stopped in
the middle, and its locks are held from the step before to the step behind; a thread that is stopped
never goes on and holds nothing. -/

/-- How far a thread is. -/
inductive Phase (σ L ε α : Type) where
  | running (m : Thread σ L ε α)
  | ended (r : Except ε α)
  | stopped

/-- The locks that a thread holds; what is stopped holds none. -/
def Phase.held {σ L ε α : Type} : Phase σ L ε α → Set L
  | running m => m.held
  | ended _ => ∅
  | stopped => ∅

/-- These locks, one by one. -/
def Phase.locks {σ L ε α : Type} : Phase σ L ε α → List L
  | running m => m.locks
  | ended _ => []
  | stopped => []

/-- The list holds the locks of the set. -/
theorem Phase.mem_held_iff {σ L ε α : Type} {l : L} {phase : Phase σ L ε α} :
    l ∈ phase.held ↔ l ∈ phase.locks := by
  cases phase with
  | running m => exact Thread.mem_held_iff
  | ended r => exact iff_of_false (Set.notMem_empty l) List.not_mem_nil
  | stopped => exact iff_of_false (Set.notMem_empty l) List.not_mem_nil

/-- It holds no lock. -/
theorem Phase.held_eq_empty {σ L ε α : Type} {phase : Phase σ L ε α} (h : phase.locks = []) :
    phase.held = ∅ := by
  refine Set.eq_empty_iff_forall_notMem.mpr fun l hl => ?_
  rw [mem_held_iff, h] at hl
  exact List.not_mem_nil hl

/-- The states that its next step can be stopped in the middle in. -/
def Phase.Torn {σ L ε α : Type} : Phase σ L ε α → σ → σ → Prop
  | running m, s, s' => m.Torn s s'
  | ended _, _, _ => False
  | stopped, _, _ => False

/-- How far a thread is behind a step. -/
def Phase.ofRest {σ L ε α : Type} : Thread σ L ε α ⊕ Except ε α → Phase σ L ε α
  | .inl m => running m
  | .inr r => ended r

/-- The state, and how far every thread is. -/
structure Pool (σ L ε : Type) {ι : Type} (α : ι → Type) where
  state : σ
  phase : ∀ i, Phase σ L ε (α i)

namespace Pool

open Thread Relation

variable {σ L ε ι : Type} {α : ι → Type}

/-- Nothing was done yet. -/
def start (s : σ) (code : ∀ i, Thread σ L ε (α i)) : Pool σ L ε α := ⟨s, fun i => .running (code i)⟩

/-- One thread goes on. -/
def move [DecidableEq ι] (p : Pool σ L ε α) (i : ι) (phase : Phase σ L ε (α i)) (s : σ) :
    Pool σ L ε α :=
  ⟨s, Function.update p.phase i phase⟩

section Move

variable [DecidableEq ι]

/-- The thread that went on is where it went. -/
@[simp] theorem phase_move_self (p : Pool σ L ε α) (i : ι) (phase : Phase σ L ε (α i)) (s : σ) :
    (p.move i phase s).phase i = phase := by
  show Function.update p.phase i phase i = phase
  rw [Function.update_self]

theorem phase_move_ne (p : Pool σ L ε α) {i j : ι} (phase : Phase σ L ε (α i)) (s : σ)
    (hj : j ≠ i) : (p.move i phase s).phase j = p.phase j := by
  show Function.update p.phase i phase j = p.phase j
  rw [Function.update_of_ne hj]

/-- Of two moves of one thread the second one is left. -/
@[simp] theorem move_move (p : Pool σ L ε α) (i : ι) (phase phase' : Phase σ L ε (α i)) (s s' : σ) :
    (p.move i phase s).move i phase' s' = p.move i phase' s' := by
  rw [move, move, move, Function.update_idem]

end Move

/-- What can happen next: a thread takes a step, if that leaves it with no lock of another one;
it ends; or it is stopped. -/
inductive Step [DecidableEq ι] (p : Pool σ L ε α) : Pool σ L ε α → Prop where
  | run {i : ι} {m m' : Thread σ L ε (α i)} {s : σ} (hphase : p.phase i = .running m)
      (hnext : m.next p.state = (.inl m', s))
      (hfree : ∀ j, j ≠ i → Disjoint m'.held (p.phase j).held) : Step p (p.move i (.running m') s)
  | finish {i : ι} {m : Thread σ L ε (α i)} {r : Except ε (α i)} {s : σ}
      (hphase : p.phase i = .running m) (hnext : m.next p.state = (.inr r, s)) :
      Step p (p.move i (.ended r) s)
  | stop {i : ι} {m : Thread σ L ε (α i)} {s : σ} (hphase : p.phase i = .running m)
      (hstate : s = p.state ∨ m.Torn p.state s) : Step p (p.move i .stopped s)

/-- A thread is stopped in the middle of its next step. -/
theorem Step.torn [DecidableEq ι] {p : Pool σ L ε α} {i : ι} {s : σ}
    (h : (p.phase i).Torn p.state s) : Step p (p.move i .stopped s) := by
  cases hphase : p.phase i with
  | running m =>
      rw [hphase] at h
      exact .stop hphase (.inr h)
  | ended r =>
      rw [hphase] at h
      exact h.elim
  | stopped =>
      rw [hphase] at h
      exact h.elim

/-- Any number of steps, by any of the threads. -/
abbrev Reaches [DecidableEq ι] : Pool σ L ε α → Pool σ L ε α → Prop := ReflTransGen Step

section Safety

variable (R : Set L → σ → σ → Prop) (I : σ → Prop) (Q : ∀ i, α i → σ → Prop)
  (E : ι → ε → σ → Prop)

/-- What is known of a thread. -/
def Fine (i : ι) (s : σ) : Phase σ L ε (α i) → Prop
  | .running m => ∃ P, Stable (R m.held) P ∧ P s ∧ m.Guards R I ∅ P (Q i) (E i)
  | .ended r => Lands (Q i) (E i) s r
  | .stopped => True

/-- What is known of the threads together. -/
structure Safe (p : Pool σ L ε α) : Prop where
  inv : I p.state
  apart : ∀ i j, i ≠ j → Disjoint (p.phase i).held (p.phase j).held
  fine : ∀ i, Fine R I Q E i p.state (p.phase i)

end Safety

variable {R : Set L → σ → σ → Prop} {I : σ → Prop} {Q : ∀ i, α i → σ → Prop}
  {E : ι → ε → σ → Prop} {s s' : σ}

/-- What the others do leaves it known. -/
theorem Fine.other {i : ι} {phase : Phase σ L ε (α i)} (hQ : ∀ i a, Stable (R ∅) (Q i a))
    (hE : ∀ i e, Stable (R ∅) (E i e)) (hR : R phase.held s s')
    (h : Fine R I Q E i s phase) : Fine R I Q E i s' phase := by
  cases phase with
  | running m =>
      obtain ⟨P, hP, hs, hguards⟩ := h
      exact ⟨P, hP, hP s s' hR hs, hguards⟩
  | ended r =>
      cases r with
      | ok a => exact hQ i a s s' hR h
      | error e => exact hE i e s s' hR h
  | stopped => trivial

variable [DecidableEq ι]

/-- One thread goes on, and the others are where they were. -/
theorem Safe.move {p : Pool σ L ε α} {i : ι} {phase : Phase σ L ε (α i)} {H : Set L}
    (hQ : ∀ i a, Stable (R ∅) (Q i a)) (hE : ∀ i e, Stable (R ∅) (E i e)) (h : Safe R I Q E p)
    (hheld : (p.phase i).held = H) (hinv : I s) (hallowed : Allowed R H p.state s)
    (hfree : ∀ j, j ≠ i → Disjoint phase.held (p.phase j).held) (hfine : Fine R I Q E i s phase) :
    Safe R I Q E (p.move i phase s) := by
  have hself := phase_move_self p i phase s
  have hother : ∀ j, j ≠ i → (p.move i phase s).phase j = p.phase j := fun j hj =>
    phase_move_ne p phase s hj
  refine ⟨hinv, fun j k hjk => ?_, fun j => ?_⟩
  · by_cases hj : j = i
    · subst hj
      rw [hself, hother k hjk.symm]
      exact hfree k hjk.symm
    · rw [hother j hj]
      by_cases hk : k = i
      · subst hk
        rw [hself]
        exact (hfree j hj).symm
      · rw [hother k hk]
        exact h.apart j k hjk
  · by_cases hj : j = i
    · subst hj
      rw [hself]
      exact hfine
    · rw [hother j hj]
      refine Fine.other hQ hE (hallowed _ ?_) (h.fine j)
      rw [← hheld]
      exact h.apart j i hj

variable [∀ H, IsPreorder σ (R H)]

/-- Each of the three kinds of steps keeps what is known of all threads. -/
theorem Safe.step {p p' : Pool σ L ε α} (hanti : Antitone R) (hQ : ∀ i a, Stable (R ∅) (Q i a))
    (hE : ∀ i e, Stable (R ∅) (E i e)) (h : Safe R I Q E p) (hstep : Step p p') :
    Safe R I Q E p' := by
  cases hstep with
  | @run i m m' s hphase hnext hfree =>
      have hfine := h.fine i
      rw [hphase] at hfine
      obtain ⟨P, hP, hs, hguards⟩ := hfine
      rw [← Set.empty_union m.held] at hP
      have hgo := guards_next hanti hguards hP h.inv hs
      rw [hnext] at hgo
      obtain ⟨⟨hinv, hallowed⟩, P', hP', hs', hguards'⟩ := hgo
      rw [Set.empty_union] at hallowed hP'
      exact h.move hQ hE (congrArg Phase.held hphase) hinv hallowed hfree ⟨P', hP', hs', hguards'⟩
  | @finish i m r s hphase hnext =>
      have hfine := h.fine i
      rw [hphase] at hfine
      obtain ⟨P, hP, hs, hguards⟩ := hfine
      rw [← Set.empty_union m.held] at hP
      have hgo := guards_next hanti hguards hP h.inv hs
      rw [hnext] at hgo
      obtain ⟨⟨hinv, hallowed⟩, hlands⟩ := hgo
      rw [Set.empty_union] at hallowed
      exact h.move hQ hE (congrArg Phase.held hphase) hinv hallowed
        (fun j _ => Set.empty_disjoint _) hlands
  | @stop i m s hphase hstate =>
      have hfine := h.fine i
      rw [hphase] at hfine
      obtain ⟨P, hP, hs, hguards⟩ := hfine
      have hgo : I s ∧ Allowed R m.held p.state s := by
        rcases hstate with rfl | htorn
        · exact ⟨h.inv, fun H' _ => refl_of (R H') _⟩
        · have hgo := guards_torn hguards h.inv hs htorn
          rwa [Set.empty_union] at hgo
      exact h.move hQ hE (congrArg Phase.held hphase) hgo.1 hgo.2
        (fun j _ => Set.empty_disjoint _) trivial

/-- Threads that guard and hold no lock at first are safe, whatever steps follow each other. -/
theorem safe_of_guards {code : ∀ i, Thread σ L ε (α i)} {p : Pool σ L ε α} (hanti : Antitone R)
    (hQ : ∀ i a, Stable (R ∅) (Q i a)) (hE : ∀ i e, Stable (R ∅) (E i e)) (hI : I s)
    (hheld : ∀ i, (code i).held = ∅)
    (hcode : ∀ i, (code i).Guards R I ∅ (fun _ => True) (Q i) (E i))
    (hreach : Reaches (start s code) p) : Safe R I Q E p := by
  induction hreach with
  | refl =>
      refine ⟨hI, fun i j _ => ?_, fun i =>
        ⟨fun _ => True, fun _ _ _ _ => trivial, trivial, hcode i⟩⟩
      show Disjoint (code i).held _
      rw [hheld i]
      exact Set.empty_disjoint _
  | tail _ hstep ih => exact ih.step hanti hQ hE hstep

/-! ### threads one after the other -/

/-- A thread that nobody comes between ends in the outcome of its program. -/
theorem reaches_run {p : Pool σ L ε α} {i : ι} {m : Thread σ L ε (α i)}
    (hphase : p.phase i = .running m) (hfree : ∀ j, j ≠ i → (p.phase j).held = ∅) :
    Reaches p (p.move i (.ended (Prog.exec m.run p.state).1) (Prog.exec m.run p.state).2) := by
  have hmove : ∀ x y : Rest σ L ε (α i), Turn x y →
      Step (p.move i (Phase.ofRest x.1) x.2) (p.move i (Phase.ofRest y.1) y.2) := by
    intro x y hturn
    cases hturn with
    | next m s =>
        have hself := phase_move_self p i (.running m) s
        cases hnext : m.next s with
        | mk rest s' =>
            cases rest with
            | inl m' =>
                have hstep := Step.run hself hnext fun j hj => by
                  rw [phase_move_ne p _ s hj, hfree j hj]
                  exact Set.disjoint_empty _
                rwa [move_move] at hstep
            | inr r =>
                have hstep := Step.finish hself hnext
                rwa [move_move] at hstep
  have hreach : Reaches (p.move i (.running m) p.state) _ :=
    (turns_run m p.state).lift (fun x => p.move i (Phase.ofRest x.1) x.2) hmove
  have hsame : p.move i (.running m) p.state = p := by
    rw [Pool.move, ← hphase, Function.update_eq_self]
  rwa [hsame] at hreach

/-! ### schedules -/

/-- One step of a thread, if it has one to take and need not wait for a lock. -/
def advance [Fintype ι] [DecidableEq L] (p : Pool σ L ε α) (i : ι) : Pool σ L ε α :=
  match p.phase i with
  | .running m =>
    match m.next p.state with
    | (.inl m', s) =>
      if ∀ j, j ≠ i → ∀ l ∈ m'.locks, l ∉ (p.phase j).locks then p.move i (.running m') s else p
    | (.inr r, s) => p.move i (.ended r) s
  | _ => p

/-- The threads take their steps in the order of a schedule. -/
def play [Fintype ι] [DecidableEq L] (p : Pool σ L ε α) (schedule : List ι) : Pool σ L ε α :=
  schedule.foldl advance p

section Schedules

variable [Fintype ι] [DecidableEq L]

/-- A step that can be taken, or none. -/
theorem reaches_advance (p : Pool σ L ε α) (i : ι) : Reaches p (p.advance i) := by
  unfold advance
  cases hphase : p.phase i with
  | running m =>
      cases hnext : m.next p.state with
      | mk rest s =>
          cases rest with
          | inl m' =>
              simp only [hnext]
              split_ifs with hfree
              · refine .single (.run hphase hnext fun j hj => ?_)
                rw [Set.disjoint_left]
                intro l hl hl'
                rw [Phase.mem_held_iff] at hl'
                exact hfree j hj l (mem_held_iff.mp hl) hl'
              · exact .refl
          | inr r =>
              simp only [hnext]
              exact .single (.finish hphase hnext)
  | ended r => exact .refl
  | stopped => exact .refl

/-- The others are where they were. -/
theorem phase_advance_ne (p : Pool σ L ε α) {i j : ι} (hj : j ≠ i) :
    (p.advance i).phase j = p.phase j := by
  unfold advance
  cases hphase : p.phase i with
  | running m =>
      cases hnext : m.next p.state with
      | mk rest s =>
          cases rest with
          | inl m' =>
              simp only [hnext]
              split_ifs
              · exact phase_move_ne p _ s hj
              · rfl
          | inr r =>
              simp only [hnext]
              exact phase_move_ne p _ s hj
  | ended r => rfl
  | stopped => rfl

/-- A thread that is not in the schedule is where it was. -/
theorem phase_play_of_notMem {p : Pool σ L ε α} {schedule : List ι} {i : ι} (hi : i ∉ schedule) :
    (p.play schedule).phase i = p.phase i := by
  induction schedule generalizing p with
  | nil => rfl
  | cons j rest ih =>
      rw [List.mem_cons, not_or] at hi
      exact (ih (p := p.advance j) hi.2).trans (p.phase_advance_ne hi.1)

/-- A schedule is one of the orders in which the threads can take their steps. -/
theorem reaches_play (p : Pool σ L ε α) (schedule : List ι) : Reaches p (p.play schedule) := by
  induction schedule generalizing p with
  | nil => exact .refl
  | cons i rest ih => exact (p.reaches_advance i).trans (ih (p.advance i))

end Schedules

end Pool
