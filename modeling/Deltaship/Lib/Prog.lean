import Mathlib.Data.List.Forall2
import Mathlib.Order.Defs.Unbundled
import Mathlib.Tactic.Common

/-!
# Deltaship.Lib.Prog

Fallible stateful programs and their rules of pre- and postconditions.

A `Prog σ ε α` runs from a state and ends either with a value or with an
error, and in both cases with a state: an error does *not* undo the effects
made before it.  Two judgements cover what the developments built on this
module need:

* `wp m Q E s` -- running `m` from `s` ends in `Q` if it returns and in `E`
  if it fails.  It is total: a program has exactly one outcome.
* `Preserves R m` -- whatever the outcome, the states before and after are
  related by `R`.  For a preorder `R` this is closed under sequencing, which
  makes it the form in which frame conditions are stated and composed.

Everything here is over arbitrary state, error and value types.
-/

/-! ## computations that may fail -/

namespace Except

variable {ε α β : Type}

/-- A chain succeeds exactly if each of its links does. -/
theorem bind_eq_ok {x : Except ε α} {f : α → Except ε β} {b : β} :
    (x >>= f) = .ok b ↔ ∃ a, x = .ok a ∧ f a = .ok b := by
  cases x with
  | error e =>
      constructor
      · intro h; contradiction
      · rintro ⟨a, h, -⟩; contradiction
  | ok a =>
      constructor
      · intro h; exact ⟨a, rfl, h⟩
      · rintro ⟨a', h, hb⟩; rw [Except.ok.inj h]; exact hb

/-- Go on only if a condition holds. -/
def ensure (c : Prop) [Decidable c] (err : ε) : Except ε Unit :=
  if c then .ok () else .error err

/-- A check passes exactly if its condition holds. -/
theorem ensure_eq_ok {c : Prop} [Decidable c] {err : ε} {u : Unit} :
    ensure c err = .ok u ↔ c := by
  unfold ensure
  split
  · next h => exact ⟨fun _ => h, fun _ => rfl⟩
  · next h => exact ⟨fun h' => by contradiction, fun h' => absurd h' h⟩

/-- A check whose condition holds lets the rest go on. -/
theorem ensure_pos {c : Prop} [Decidable c] {err : ε} (h : c) : ensure c err = .ok () := if_pos h

/-- A check whose condition fails ends in the error that goes with it. -/
theorem ensure_neg {c : Prop} [Decidable c] {err : ε} (h : ¬ c) : ensure c err = .error err :=
  if_neg h

/-- Go on with a value if there is one. -/
def ofOption (err : ε) : Option α → Except ε α
  | some a => .ok a
  | none => .error err

/-- An option becomes a success exactly if there is something in it. -/
theorem ofOption_eq_ok {err : ε} {o : Option α} {a : α} :
    ofOption err o = .ok a ↔ o = some a := by
  cases o with
  | none => exact ⟨fun h => by contradiction, fun h => by contradiction⟩
  | some a' =>
      exact ⟨fun h => congrArg some (Except.ok.inj h),
        fun h => congrArg Except.ok (Option.some.inj h)⟩

end Except

namespace Except

variable {ε α β : Type}

/-- Changing the error does not change what succeeds. -/
theorem mapError_eq_ok {ε' : Type} {f : ε → ε'} {r : Except ε α} {a : α} :
    r.mapError f = .ok a ↔ r = .ok a := by
  cases r <;> simp [Except.mapError]

/-- All succeed. -/
theorem mapM_eq_ok {f : α → Except ε β} {l : List α} {bs : List β} :
    l.mapM f = .ok bs ↔ List.Forall₂ (fun a b => f a = .ok b) l bs := by
  induction l generalizing bs with
  | nil =>
      rw [List.mapM_nil, List.forall₂_nil_left_iff]
      exact ⟨fun h => (Except.ok.inj h).symm, fun h => by rw [h]; rfl⟩
  | cons a l ih =>
      rw [List.mapM_cons, bind_eq_ok, List.forall₂_cons_left_iff]
      refine exists_congr fun b => ?_
      rw [bind_eq_ok]
      constructor
      · rintro ⟨hb, bs', hbs', h⟩
        exact ⟨bs', hb, ih.mp hbs', (Except.ok.inj h).symm⟩
      · rintro ⟨bs', hb, hbs', rfl⟩
        exact ⟨hb, bs', ih.mpr hbs', rfl⟩

/-- The first failure is the failure of the whole. -/
theorem mapM_eq_error {f : α → Except ε β} {l : List α} {e : ε} : l.mapM f = .error e ↔
    ∃ pre a post, l = pre ++ a :: post ∧ (∀ x ∈ pre, ∃ b, f x = .ok b) ∧ f a = .error e := by
  induction l with
  | nil => simp [List.mapM_nil, pure, Except.pure]
  | cons a l ih =>
      rw [List.mapM_cons]
      cases ha : f a with
      | error e' =>
          show Except.error e' = Except.error e ↔ _
          constructor
          · intro h
            exact ⟨[], a, l, rfl, by simp, by rw [ha, Except.error.inj h]⟩
          · rintro ⟨pre, x, post, hl, hpre, hx⟩
            cases pre with
            | nil =>
                obtain ⟨rfl, rfl⟩ := List.cons.inj hl
                rw [Except.error.inj (ha.symm.trans hx)]
            | cons y pre =>
                obtain ⟨rfl, rfl⟩ := List.cons.inj hl
                obtain ⟨b, hb⟩ := hpre _ List.mem_cons_self
                rw [ha] at hb
                contradiction
      | ok b =>
          have hrest : (Except.ok b >>= fun b => l.mapM f >>= fun bs => pure (b :: bs)) =
              .error e ↔ l.mapM f = .error e := by
            show (l.mapM f >>= fun bs => pure (b :: bs)) = .error e ↔ _
            cases l.mapM f <;> simp [bind, Except.bind, pure, Except.pure]
          rw [hrest, ih]
          constructor
          · rintro ⟨pre, x, post, rfl, hpre, hx⟩
            refine ⟨a :: pre, x, post, rfl, fun y hy => ?_, hx⟩
            rcases List.mem_cons.mp hy with rfl | hy
            · exact ⟨b, ha⟩
            · exact hpre y hy
          · rintro ⟨pre, x, post, hl, hpre, hx⟩
            cases pre with
            | nil =>
                obtain ⟨rfl, rfl⟩ := List.cons.inj hl
                rw [ha] at hx
                contradiction
            | cons y pre =>
                obtain ⟨rfl, rfl⟩ := List.cons.inj hl
                exact ⟨pre, x, post, rfl, fun z hz => hpre z (List.mem_cons_of_mem _ hz), hx⟩

/-- Put together what `f` gives for each element, stopping at the first failure. -/
def gather (f : α → Except ε (List β)) : List α → Except ε (List β)
  | [] => .ok []
  | a :: as => do
      let bs ← f a
      let rest ← gather f as
      .ok (bs ++ rest)

/-- If all goes well, everything is put together. -/
theorem gather_eq_ok {f : α → Except ε (List β)} {g : α → List β} {as : List α} {bs : List β}
    (hf : ∀ a ∈ as, ∀ b, f a = .ok b → b = g a) (h : gather f as = .ok bs) : bs = as.flatMap g := by
  induction as generalizing bs with
  | nil => exact (Except.ok.inj h).symm
  | cons a as ih =>
      obtain ⟨front, hfront, h⟩ := bind_eq_ok.mp h
      obtain ⟨rest, hrest, h⟩ := bind_eq_ok.mp h
      rw [← Except.ok.inj h, hf a List.mem_cons_self front hfront,
        ih (fun a ha => hf a (List.mem_cons_of_mem _ ha)) hrest, List.flatMap_cons]

/-- If every element is accepted, the lists they give are put one behind the other. -/
theorem gather_of_ok {f : α → Except ε (List β)} {g : α → List β} {as : List α}
    (hf : ∀ a ∈ as, f a = .ok (g a)) : gather f as = .ok (as.flatMap g) := by
  induction as with
  | nil => rfl
  | cons a as ih =>
      unfold gather
      rw [hf a List.mem_cons_self, ih fun a ha => hf a (List.mem_cons_of_mem _ ha),
        List.flatMap_cons]
      rfl

end Except

/-! ## programs -/

/-- A program over a state `σ` that may fail with an `ε`; failing keeps the
effects made so far. -/
abbrev Prog (σ ε α : Type) : Type := ExceptT ε (StateM σ) α

namespace Prog

variable {σ ε α β : Type}

/-- Run a program: its outcome and the state it ends in. -/
def exec (m : Prog σ ε α) (s : σ) : Except ε α × σ := m.run.run s

/-- Run `m` and hand its outcome on as a value: the `match f().await` of a
caller that handles the error itself. -/
def attempt (m : Prog σ ε α) : Prog σ ε (Except ε α) :=
  ExceptT.mk fun s => (.ok (exec m s).1, (exec m s).2)

/-- Replace the error of a failing program. -/
def mapErr (f : ε → ε) (m : Prog σ ε α) : Prog σ ε α :=
  ExceptT.mk fun s => match exec m s with
    | (.ok a, s') => (.ok a, s')
    | (.error e, s') => (.error (f e), s')

/-- Run a program as part of one with other errors. -/
def adapt {ε' : Type} (f : ε → ε') (m : Prog σ ε α) : Prog σ ε' α :=
  ExceptT.mk fun s => match exec m s with
    | (.ok a, s') => (.ok a, s')
    | (.error e, s') => (.error (f e), s')

/-- Run `m` and forget whether it failed: `let _ = f().await`. -/
def ignore (m : Prog σ ε α) : Prog σ ε Unit := do
  let _ ← attempt m
  pure ()

/-- Hand on an outcome that was computed without effects. -/
def ofExcept : Except ε α → Prog σ ε α
  | .ok a => pure a
  | .error e => throw e

/-- Run `f` on each element in turn, stopping at the first failure. -/
def forEach (f : β → Prog σ ε Unit) : List β → Prog σ ε Unit
  | [] => pure ()
  | x :: xs => do
      f x
      forEach f xs

/-! ## running the constructors -/

/-- A result that is given leaves the state as it is. -/
@[simp] theorem exec_pure (a : α) (s : σ) : exec (pure a : Prog σ ε α) s = (.ok a, s) := rfl

/-- An error that is thrown leaves the state as it is. -/
@[simp] theorem exec_throw (e : ε) (s : σ) :
    exec (throw e : Prog σ ε α) s = (.error e, s) := rfl

@[simp] theorem exec_get (s : σ) : exec (get : Prog σ ε σ) s = (.ok s, s) := rfl

@[simp] theorem exec_set (s' s : σ) :
    exec (set s' : Prog σ ε PUnit) s = (.ok PUnit.unit, s') := rfl

/-- A modification applies its function to the state. -/
@[simp] theorem exec_modify (f : σ → σ) (s : σ) :
    exec (modify f : Prog σ ε PUnit) s = (.ok PUnit.unit, f s) := rfl

/-- The second program runs in the state that the first one leaves, unless that one fails. -/
theorem exec_bind (m : Prog σ ε α) (f : α → Prog σ ε β) (s : σ) :
    exec (m >>= f) s = match exec m s with
      | (.ok a, s') => exec (f a) s'
      | (.error e, s') => (.error e, s') := by
  simp only [exec, Bind.bind, ExceptT.bind, ExceptT.mk, ExceptT.run, StateT.run, StateT.bind]
  cases h : m s with
  | mk r s' => cases r <;> rfl

/-- A program that has already returned continues with its value. -/
theorem exec_bind_ok {m : Prog σ ε α} {f : α → Prog σ ε β} {s s' : σ} {a : α}
    (h : exec m s = (.ok a, s')) : exec (m >>= f) s = exec (f a) s' := by
  rw [exec_bind, h]

/-- A program that has already failed does not continue. -/
theorem exec_bind_error {m : Prog σ ε α} {f : α → Prog σ ε β} {s s' : σ} {e : ε}
    (h : exec m s = (.error e, s')) : exec (m >>= f) s = (.error e, s') := by
  rw [exec_bind, h]

/-- What is made of a value does not matter to the state. -/
theorem snd_exec_bind_pure (m : Prog σ ε α) (f : α → β) (s : σ) :
    (exec (m >>= fun a => pure (f a)) s).2 = (exec m s).2 := by
  rw [exec_bind]
  rcases exec m s with ⟨r, s'⟩
  cases r <;> rfl

/-- A result that is computed beforehand leaves the state as it is. -/
@[simp] theorem exec_ofExcept (r : Except ε α) (s : σ) :
    exec (ofExcept r : Prog σ ε α) s = (r, s) := by
  cases r <;> rfl

/-- An attempt always succeeds, with the outcome of its program as a value. -/
@[simp] theorem exec_attempt (m : Prog σ ε α) (s : σ) :
    exec (attempt m) s = (.ok (exec m s).1, (exec m s).2) := rfl

/-- The error is replaced, and the state that it leaves is kept. -/
theorem exec_mapErr (f : ε → ε) (m : Prog σ ε α) (s : σ) :
    exec (mapErr f m) s = match exec m s with
      | (.ok a, s') => (.ok a, s')
      | (.error e, s') => (.error (f e), s') := rfl

/-- The error becomes one of another type, and the state that it leaves is kept. -/
theorem exec_adapt {ε' : Type} (f : ε → ε') (m : Prog σ ε α) (s : σ) :
    exec (adapt f m) s = match exec m s with
      | (.ok a, s') => (.ok a, s')
      | (.error e, s') => (.error (f e), s') := rfl

/-- An ignored program succeeds, and what it did to the state remains. -/
@[simp] theorem exec_ignore (m : Prog σ ε α) (s : σ) :
    exec (ignore m) s = (.ok (), (exec m s).2) := by
  rw [ignore, exec_bind]; rfl

/-- The outcome and the final state of a run. -/
theorem exec_of_fst {m : Prog σ ε α} {s : σ} {r : Except ε α} (h : (exec m s).1 = r) :
    exec m s = (r, (exec m s).2) := Prod.ext h rfl

/-! ## weakest preconditions -/

/- A program returns a value or an error, and the state is kept in both cases. The precondition is
therefore taken for two postconditions at once. -/

/-- Running `m` from `s` ends in `Q` if it returns and in `E` if it fails. -/
def wp (m : Prog σ ε α) (Q : α → σ → Prop) (E : ε → σ → Prop) (s : σ) : Prop :=
  match exec m s with
  | (.ok a, s') => Q a s'
  | (.error e, s') => E e s'

variable {Q Q' : α → σ → Prop} {E E' : ε → σ → Prop} {s : σ}

/-- A given result needs the postcondition of it as it is. -/
@[simp] theorem wp_pure {a : α} : wp (pure a : Prog σ ε α) Q E s ↔ Q a s := Iff.rfl

/-- A thrown error needs the postcondition of errors as it is. -/
@[simp] theorem wp_throw {e : ε} : wp (throw e : Prog σ ε α) Q E s ↔ E e s := Iff.rfl

/-- What reads the state needs the postcondition of the state that it finds. -/
@[simp] theorem wp_get {Q : σ → σ → Prop} : wp (get : Prog σ ε σ) Q E s ↔ Q s s := Iff.rfl

/-- A modification needs the postcondition of the state that it makes. -/
@[simp] theorem wp_modify {f : σ → σ} {Q : PUnit → σ → Prop} :
    wp (modify f : Prog σ ε PUnit) Q E s ↔ Q PUnit.unit (f s) := Iff.rfl

/-- The first program has to establish what the second one needs. -/
@[simp] theorem wp_bind {m : Prog σ ε α} {f : α → Prog σ ε β} {Q : β → σ → Prop} :
    wp (m >>= f) Q E s ↔ wp m (fun a s' => wp (f a) Q E s') E s := by
  unfold wp
  rw [exec_bind]
  rcases exec m s with ⟨r, s'⟩
  cases r <;> rfl

/-- Both outcomes of an attempt have to meet the postcondition of successes. -/
@[simp] theorem wp_attempt {m : Prog σ ε α} {Q : Except ε α → σ → Prop} :
    wp (attempt m) Q E s ↔ wp m (fun a => Q (.ok a)) (fun e => Q (.error e)) s := by
  unfold wp
  rw [exec_attempt]
  rcases exec m s with ⟨r, s'⟩
  cases r <;> rfl

/-- The postcondition of errors is asked of the error that replaces the one thrown. -/
@[simp] theorem wp_mapErr {f : ε → ε} {m : Prog σ ε α} :
    wp (mapErr f m) Q E s ↔ wp m Q (fun e => E (f e)) s := by
  unfold wp
  rw [exec_mapErr]
  rcases exec m s with ⟨r, s'⟩
  cases r <;> rfl

/-- The postcondition of errors is asked of the error of the other type. -/
@[simp] theorem wp_adapt {ε' : Type} {f : ε → ε'} {m : Prog σ ε α} {E : ε' → σ → Prop} :
    wp (adapt f m) Q E s ↔ wp m Q (fun e => E (f e)) s := by
  unfold wp
  rw [exec_adapt]
  rcases exec m s with ⟨r, s'⟩
  cases r <;> rfl

/-- An ignored program has to leave a state that meets the postcondition, however it ends. -/
@[simp] theorem wp_ignore {m : Prog σ ε α} {Q : Unit → σ → Prop} :
    wp (ignore m) Q E s ↔ Q () (exec m s).2 := by
  unfold wp
  rw [exec_ignore]

/-- A result that is computed beforehand needs the postcondition that belongs to it. -/
@[simp] theorem wp_ofExcept {r : Except ε α} :
    wp (ofExcept r : Prog σ ε α) Q E s ↔ match r with
      | .ok a => Q a s
      | .error e => E e s := by
  cases r <;> rfl

/-- Consequence: both postconditions may be weakened. -/
theorem wp_mono {m : Prog σ ε α} (hQ : ∀ a s', Q a s' → Q' a s')
    (hE : ∀ e s', E e s' → E' e s') (h : wp m Q E s) : wp m Q' E' s := by
  unfold wp at *
  rcases hr : exec m s with ⟨r, s'⟩
  cases r with
  | ok a => rw [hr] at h; exact hQ a s' h
  | error e => rw [hr] at h; exact hE e s' h

/-- A program has one outcome, so what is known of it can be put together. -/
theorem wp_and {m : Prog σ ε α} (h : wp m Q E s) (h' : wp m Q' E' s) :
    wp m (fun a s' => Q a s' ∧ Q' a s') (fun e s' => E e s' ∧ E' e s') s := by
  unfold wp at *
  rcases hr : exec m s with ⟨r, s'⟩
  rw [hr] at h h'
  cases r with
  | ok a => exact ⟨h, h'⟩
  | error e => exact ⟨h, h'⟩

/-- A loop keeps an invariant of what it has done, if each round does. -/
theorem wp_forEach {f : β → Prog σ ε Unit} (I : List β → σ → Prop) {xs : List β}
    (hstart : I [] s)
    (hround : ∀ done x rest s, xs = done ++ x :: rest → I done s →
      wp (f x) (fun _ s' => I (done ++ [x]) s') E s) :
    wp (forEach f xs) (fun _ s' => I xs s') E s := by
  suffices h : ∀ done rest s, xs = done ++ rest → I done s →
      wp (forEach f rest) (fun _ s' => I xs s') E s from h [] xs s rfl hstart
  intro done rest
  induction rest generalizing done with
  | nil =>
      intro s hxs hs
      rw [List.append_nil] at hxs
      exact hxs ▸ hs
  | cons x rest ih =>
      intro s hxs hs
      unfold forEach
      rw [wp_bind]
      refine wp_mono (fun _ s' hs' => ?_) (fun _ _ h => h) (hround done x rest s hxs hs)
      exact ih (done ++ [x]) s' (by rw [hxs, List.append_assoc]; rfl) hs'

/-- A returning run meets the postcondition for returning. -/
theorem wp_exec_ok {m : Prog σ ε α} (h : wp m Q E s) {a : α} {s' : σ}
    (hr : exec m s = (.ok a, s')) : Q a s' := by
  unfold wp at h
  rw [hr] at h
  exact h

/-- A failing run meets the postcondition for failing. -/
theorem wp_exec_error {m : Prog σ ε α} (h : wp m Q E s) {e : ε} {s' : σ}
    (hr : exec m s = (.error e, s')) : E e s' := by
  unfold wp at h
  rw [hr] at h
  exact h

/-- A run that cannot fail returns. -/
theorem exists_exec_ok {m : Prog σ ε α} (h : wp m Q E s) (hE : ∀ e s', ¬ E e s') :
    ∃ a s', exec m s = (.ok a, s') ∧ Q a s' := by
  unfold wp at h
  cases hr : exec m s with
  | mk r s' =>
      rw [hr] at h
      cases r with
      | ok a => exact ⟨a, s', rfl, h⟩
      | error e => exact absurd h (hE e s')

/-- What both postconditions say holds of the final state. -/
theorem wp_exec_snd {P : σ → Prop} {m : Prog σ ε α}
    (h : wp m (fun _ s' => P s') (fun _ s' => P s') s) : P (exec m s).2 := by
  unfold wp at h
  rcases hr : exec m s with ⟨r, s'⟩
  rw [hr] at h
  cases r <;> exact h

/-- What holds of the final state is a postcondition for both outcomes. -/
theorem wp_of_exec_snd {P : σ → Prop} {m : Prog σ ε α} (h : P (exec m s).2) :
    wp m (fun _ s' => P s') (fun _ s' => P s') s := by
  unfold wp
  rcases hr : exec m s with ⟨r, s'⟩
  rw [hr] at h
  cases r <;> exact h

/-- A run ends where it ends. -/
theorem wp_self {m : Prog σ ε α} :
    wp m (fun a s' => exec m s = (.ok a, s')) (fun e s' => exec m s = (.error e, s')) s := by
  unfold wp
  rcases exec m s with ⟨r, s'⟩
  cases r <;> rfl

/-- Programs that go on alike are alike. -/
theorem exec_bind_congr {m : Prog σ ε α} {f g : α → Prog σ ε β}
    (h : wp m (fun a s' => exec (f a) s' = exec (g a) s') (fun _ _ => True) s) :
    exec (m >>= f) s = exec (m >>= g) s := by
  cases hrun : exec m s with
  | mk r s' =>
      cases r with
      | ok a => rw [exec_bind_ok hrun, exec_bind_ok hrun, wp_exec_ok h hrun]
      | error e => rw [exec_bind_error hrun, exec_bind_error hrun]

/-! ## frame conditions -/

/- A frame condition is a relation between the states before and after, kept whatever the outcome
is. It is shown along the code, once for each construct, and gives a postcondition for both
outcomes. -/

/-- Whatever the outcome of `m`, the states before and after are related. -/
def Preserves (R : σ → σ → Prop) (m : Prog σ ε α) : Prop := ∀ s, R s (exec m s).2

namespace Preserves

variable {R : σ → σ → Prop}

/-- A frame condition gives a postcondition for both outcomes. -/
theorem wp {m : Prog σ ε α} (h : Preserves R m) (hQ : ∀ a s', R s s' → Q a s')
    (hE : ∀ e s', R s s' → E e s') : Prog.wp m Q E s := by
  have hs := h s
  unfold Prog.wp
  rcases hr : exec m s with ⟨r, s'⟩
  rw [hr] at hs
  cases r with
  | ok a => exact hQ a s' hs
  | error e => exact hE e s' hs

/-- A postcondition that only mentions the relation is a frame condition. -/
theorem of_wp {m : Prog σ ε α}
    (h : ∀ s, Prog.wp m (fun _ s' => R s s') (fun _ s' => R s s') s) : Preserves R m :=
  fun s => wp_exec_snd (h s)

/-- The states before and after a run are related. -/
theorem of_exec {m : Prog σ ε α} (h : Preserves R m) {s s' : σ} {r : Except ε α}
    (hrun : exec m s = (r, s')) : R s s' := by
  have hs := h s
  rwa [hrun] at hs

/-- Frame conditions weaken along implication. -/
theorem mono {R' : σ → σ → Prop} {m : Prog σ ε α} (h : Preserves R m)
    (hR : ∀ s s', R s s' → R' s s') : Preserves R' m :=
  fun s => hR s _ (h s)

/-- Run a framed program first, and go on from any state the frame allows. -/
theorem wp_bind {m : Prog σ ε α} {f : α → Prog σ ε β} {Q : β → σ → Prop} (hm : Preserves R m)
    (hf : ∀ a s', R s s' → Prog.wp (f a) Q E s') (hE : ∀ e s', R s s' → E e s') :
    Prog.wp (m >>= f) Q E s :=
  Prog.wp_bind.mpr (hm.wp hf hE)

section Preorder

variable [IsPreorder σ R]

/-- A given result relates every state to itself. -/
theorem pure {a : α} : Preserves R (Pure.pure a : Prog σ ε α) := fun s => refl_of R s

/-- A thrown error relates every state to itself. -/
theorem throw {e : ε} : Preserves R (MonadExcept.throw e : Prog σ ε α) :=
  fun s => refl_of R s

/-- What reads the state relates it to itself. -/
theorem get : Preserves R (MonadState.get : Prog σ ε σ) := fun s => refl_of R s

/-- A transitive relation that both parts keep is kept by one behind the other. -/
theorem bind {m : Prog σ ε α} {f : α → Prog σ ε β} (hm : Preserves R m)
    (hf : ∀ a, Preserves R (f a)) : Preserves R (m >>= f) := by
  intro s
  have h1 := hm s
  rw [exec_bind]
  rcases hr : exec m s with ⟨r, s'⟩
  rw [hr] at h1
  cases r with
  | ok a => exact trans_of R h1 (hf a s')
  | error e => exact h1

/-- A result that is computed beforehand relates every state to itself. -/
theorem ofExcept {r : Except ε α} : Preserves R (Prog.ofExcept r : Prog σ ε α) := by
  cases r with
  | ok a => exact pure
  | error e => exact throw

/-- A loop keeps what its body keeps for each of the elements it runs over. -/
theorem forEach_of {f : β → Prog σ ε Unit} {xs : List β} (hf : ∀ x ∈ xs, Preserves R (f x)) :
    Preserves R (Prog.forEach f xs) := by
  induction xs with
  | nil => exact pure
  | cons x xs ih =>
      exact bind (hf x List.mem_cons_self) fun _ => ih fun y hy => hf y (List.mem_cons_of_mem x hy)

/-- A loop keeps what its body keeps for every element. -/
theorem forEach {f : β → Prog σ ε Unit} (hf : ∀ x, Preserves R (f x)) (xs : List β) :
    Preserves R (Prog.forEach f xs) := forEach_of fun x _ => hf x

end Preorder

/-- An attempt does to the state what its program does. -/
theorem attempt {m : Prog σ ε α} (h : Preserves R m) : Preserves R (Prog.attempt m) := h

/-- Ignoring the outcome does not change what is done to the state. -/
theorem ignore {m : Prog σ ε α} (h : Preserves R m) : Preserves R (Prog.ignore m) := by
  intro s
  rw [exec_ignore]
  exact h s

/-- Replacing the error does not change what is done to the state. -/
theorem mapErr {f : ε → ε} {m : Prog σ ε α} (h : Preserves R m) :
    Preserves R (Prog.mapErr f m) := by
  intro s
  have hs := h s
  rw [exec_mapErr]
  rcases hr : exec m s with ⟨r, s'⟩
  rw [hr] at hs
  cases r <;> exact hs

/-- An error of another type does not change what is done to the state. -/
theorem adapt {ε' : Type} {f : ε → ε'} {m : Prog σ ε α} (h : Preserves R m) :
    Preserves R (Prog.adapt f m) := by
  intro s
  have hs := h s
  rw [exec_adapt]
  rcases hr : exec m s with ⟨r, s'⟩
  rw [hr] at hs
  cases r <;> exact hs

/-- The condition does not depend on the state, so both runs take the same branch. -/
theorem ite {c : Prop} [Decidable c] {m₁ m₂ : Prog σ ε α} (h₁ : Preserves R m₁)
    (h₂ : Preserves R m₂) : Preserves R (if c then m₁ else m₂) := by
  split
  · exact h₁
  · exact h₂

end Preserves

/-! ## states that look the same -/

/-- From states related by `R`, the program has the same outcome, and it ends in related
states. -/
def Respects (R : σ → σ → Prop) (m : Prog σ ε α) : Prop :=
  ∀ s s', R s s' → (exec m s).1 = (exec m s').1 ∧ R (exec m s).2 (exec m s').2

namespace Respects

variable {R : σ → σ → Prop}

/-- A given result is the same in related states. -/
theorem pure {a : α} : Respects R (Pure.pure a : Prog σ ε α) := fun _ _ h => ⟨rfl, h⟩

/-- A thrown error is the same in related states. -/
theorem throw {e : ε} : Respects R (MonadExcept.throw e : Prog σ ε α) := fun _ _ h => ⟨rfl, h⟩

/-- If the first parts go alike, so do the second ones, and so the whole. -/
theorem bind {m : Prog σ ε α} {f : α → Prog σ ε β} (hm : Respects R m)
    (hf : ∀ a, Respects R (f a)) : Respects R (m >>= f) := by
  intro s t h
  obtain ⟨hfst, hsnd⟩ := hm s t h
  rw [exec_bind, exec_bind]
  rcases hr : exec m s with ⟨r, s₁⟩
  rcases hr' : exec m t with ⟨r', t₁⟩
  rw [hr, hr'] at hfst hsnd
  obtain rfl : r = r' := hfst
  cases r with
  | ok a => exact hf a s₁ t₁ hsnd
  | error e => exact ⟨rfl, hsnd⟩

/-- An attempt of a program that goes alike goes alike. -/
theorem attempt {m : Prog σ ε α} (h : Respects R m) : Respects R (Prog.attempt m) := by
  intro s t hst
  obtain ⟨hfst, hsnd⟩ := h s t hst
  rw [exec_attempt, exec_attempt]
  exact ⟨congrArg Except.ok hfst, hsnd⟩

/-- Ignoring the outcome of a program that goes alike goes alike. -/
theorem ignore {m : Prog σ ε α} (h : Respects R m) : Respects R (Prog.ignore m) :=
  bind (attempt h) fun _ => pure

/-- Errors that are the same are replaced by errors that are the same. -/
theorem mapErr {f : ε → ε} {m : Prog σ ε α} (h : Respects R m) :
    Respects R (Prog.mapErr f m) := by
  intro s t hst
  obtain ⟨hfst, hsnd⟩ := h s t hst
  rw [exec_mapErr, exec_mapErr]
  rcases hr : exec m s with ⟨r, s₁⟩
  rcases hr' : exec m t with ⟨r', t₁⟩
  rw [hr, hr'] at hfst hsnd
  obtain rfl : r = r' := hfst
  cases r <;> exact ⟨rfl, hsnd⟩

theorem ite {c : Prop} [Decidable c] {m₁ m₂ : Prog σ ε α} (h₁ : Respects R m₁)
    (h₂ : Respects R m₂) : Respects R (if c then m₁ else m₂) := by
  split
  · exact h₁
  · exact h₂

/-- What it does is the same in both states. -/
theorem of_modify {f : σ → σ} (h : ∀ s t, R s t → R (f s) (f t)) :
    Respects R (modify f : Prog σ ε PUnit) := fun s t hst => ⟨rfl, h s t hst⟩

end Respects

end Prog
