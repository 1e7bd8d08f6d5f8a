import Mathlib.Data.List.Basic
import Mathlib.Tactic.Common

/-!
# Deltaship.Lib.FixedWindow

A fixed-window counter.  The first request opens a window, and so does the first one
after it has expired; of the requests in a window, the first `limit` are admitted.

`admittedIn_le`: an interval shorter than the window meets at most two windows, so at
most `2 * limit` requests are admitted in it.
-/

/-- A counter that admits `limit` requests in each window. -/
structure FixedWindow where
  limit : Nat
  window : Nat

namespace FixedWindow

/-- An open window: when it began, and how many requests it has admitted. -/
structure Open where
  start : Nat
  count : Nat
deriving DecidableEq, Repr

/-- The window that a request at a time falls in. -/
def current (c : FixedWindow) (now : Nat) : Option Open → Open
  | none => ⟨now, 0⟩
  | some w => if now - w.start < c.window then w else ⟨now, 0⟩

/-- The answer to a request, and the window it leaves. -/
def ask (c : FixedWindow) (now : Nat) (w? : Option Open) : Bool × Open :=
  let w := c.current now w?
  if w.count < c.limit then (true, { w with count := w.count + 1 }) else (false, w)

/-- The answers to requests at these times. -/
def answers (c : FixedWindow) : Option Open → List Nat → List Bool
  | _, [] => []
  | w?, t :: times => (c.ask t w?).1 :: c.answers (some (c.ask t w?).2) times

/-- How many of the requests between `a` and `b` are admitted. -/
def admittedIn (c : FixedWindow) (w? : Option Open) (times : List Nat) (a b : Nat) : Nat :=
  (times.zip (c.answers w? times)).countP fun e => e.2 && a ≤ e.1 && e.1 ≤ b

variable {c : FixedWindow} {w? : Option Open} {now : Nat}

@[simp] theorem admittedIn_nil (a b : Nat) : c.admittedIn w? [] a b = 0 := rfl

/-- The first one counts if it is admitted within the span. -/
theorem admittedIn_cons (t : Nat) (times : List Nat) (a b : Nat) :
    c.admittedIn w? (t :: times) a b =
      c.admittedIn (some (c.ask t w?).2) times a b +
        if (c.ask t w?).1 && a ≤ t && t ≤ b then 1 else 0 := by
  simp only [admittedIn, answers, List.zip_cons_cons, List.countP_cons]

/-- A window that has expired is as good as none. -/
theorem current_expired {w : Open} (h : c.window ≤ now - w.start) :
    c.current now (some w) = ⟨now, 0⟩ := if_neg (Nat.not_lt.mpr h)

/-- A window that has expired is as good as none. -/
theorem ask_expired {w : Open} (h : c.window ≤ now - w.start) :
    c.ask now (some w) = c.ask now none := by
  rw [ask, ask, current_expired h]
  rfl

/-- The window a request leaves, from the one it falls in. -/
theorem ask_snd (c : FixedWindow) (now : Nat) (w? : Option Open) :
    (c.ask now w?).2 =
      ⟨(c.current now w?).start, (c.current now w?).count + if (c.ask now w?).1 then 1 else 0⟩ := by
  unfold ask
  by_cases hlt : (c.current now w?).count < c.limit <;> simp [hlt]

/-- Who asks is admitted as long as the window is not full. -/
theorem ask_fst (c : FixedWindow) (now : Nat) (w? : Option Open) :
    (c.ask now w?).1 = true ↔ (c.current now w?).count < c.limit := by
  unfold ask
  by_cases hlt : (c.current now w?).count < c.limit <;> simp [hlt]

/-! ## admissions in an interval -/

/- An interval that is no longer than the window meets two windows at most. `budget` is what the
second of them may still admit, and together with the admissions so far it never exceeds twice the
limit. -/

/-- How many requests in the interval from `a` to `b` may have been admitted, when this
window is open. -/
def budget (c : FixedWindow) (a b : Nat) (w : Open) : Nat :=
  if w.start < a then w.count else if w.start ≤ b then c.limit + w.count else 2 * c.limit

/-- The state after requests up to a time, `n` of which were admitted in the interval. -/
structure Accounted (c : FixedWindow) (a b : Nat) (now : Nat) (w? : Option Open) (n : Nat) :
    Prop where
  start_le : ∀ w ∈ w?, w.start ≤ now
  count_le : ∀ w ∈ w?, w.count ≤ c.limit
  before : now < a → n = 0
  within : n ≤ w?.elim 0 (c.budget a b)

variable {a b n : Nat}

theorem accounted_start (c : FixedWindow) (a b : Nat) : Accounted c a b 0 none 0 :=
  ⟨by simp, by simp, fun _ => rfl, Nat.le_refl 0⟩

/-- No span has room for more than twice the limit. -/
theorem budget_le {w : Open} (h : w.count ≤ c.limit) : c.budget a b w ≤ 2 * c.limit := by
  unfold budget
  split
  · omega
  · split <;> omega

/-- A request that the window admits. -/
theorem budget_le_admitted {w : Open} {t : Nat} (hstart : w.start ≤ t) :
    c.budget a b w + (if true && a ≤ t && t ≤ b then 1 else 0) ≤
      c.budget a b ⟨w.start, w.count + 1⟩ := by
  simp only [budget, Bool.true_and, Bool.and_eq_true, decide_eq_true_eq]
  by_cases hbefore : w.start < a
  · simp only [hbefore, if_true]
    split <;> omega
  · by_cases hin : w.start ≤ b
    · simp only [hbefore, hin, if_true, if_false]
      split <;> omega
    · have hout : ¬ (a ≤ t ∧ t ≤ b) := by omega
      simp [hbefore, hin, hout]

theorem Accounted.le (h : Accounted c a b now w? n) : n ≤ 2 * c.limit := by
  have hwithin := h.within
  cases w? with
  | none => exact Nat.le_trans hwithin (Nat.zero_le _)
  | some w => exact Nat.le_trans hwithin (budget_le (h.count_le w rfl))

/-- The window that a request falls in is the one that was open, or begins with it. -/
theorem Accounted.current (h : Accounted c a b now w? n) {t : Nat} (hnow : now ≤ t)
    (hshort : b < a + c.window) : Accounted c a b t (some (c.current t w?)) n := by
  have hbegins : n ≤ c.limit ∨ b < t → Accounted c a b t (some ⟨t, 0⟩) n := by
    intro hn
    have hle := h.le
    have hbefore : t < a → n = 0 := fun hta => h.before (Nat.lt_of_le_of_lt hnow hta)
    constructor
    · simp
    · simp
    · exact hbefore
    · simp only [Option.elim_some, budget]
      split
      · have := hbefore ‹_›
        omega
      · split <;> omega
  cases w? with
  | none => exact hbegins (.inl (Nat.le_trans h.within (Nat.zero_le _)))
  | some w =>
      have hstart := h.start_le w rfl
      have hcount := h.count_le w rfl
      have hwithin : n ≤ c.budget a b w := h.within
      unfold FixedWindow.current
      by_cases hopen : t - w.start < c.window
      · simp only [hopen, if_true]
        constructor
        · simpa using Nat.le_trans hstart hnow
        · simpa using hcount
        · exact fun hta => h.before (Nat.lt_of_le_of_lt hnow hta)
        · exact hwithin
      · simp only [hopen, if_false]
        -- a window that begins in the interval does not expire in it
        apply hbegins
        unfold budget at hwithin
        split at hwithin
        · exact .inl (Nat.le_trans hwithin hcount)
        · exact .inr (by omega)

/-- A request. -/
theorem Accounted.ask (h : Accounted c a b now w? n) {t : Nat} (hnow : now ≤ t)
    (hshort : b < a + c.window) :
    Accounted c a b t (some (c.ask t w?).2)
      (n + if (c.ask t w?).1 && a ≤ t && t ≤ b then 1 else 0) := by
  have hcurrent := h.current hnow hshort
  have hstart := hcurrent.start_le _ rfl
  have hcount := hcurrent.count_le _ rfl
  have hwithin : n ≤ c.budget a b (c.current t w?) := hcurrent.within
  rw [ask_snd]
  have hadmit := ask_fst c t w?
  generalize (c.ask t w?).1 = admitted at hadmit ⊢
  constructor
  · simpa using hstart
  · simp only [Option.mem_some_iff, forall_eq']
    cases admitted with
    | false => simpa using hcount
    | true => exact hadmit.mp rfl
  · intro hta
    simp [hcurrent.before hta, Nat.not_le.mpr hta]
  · cases admitted with
    | false => simpa using hwithin
    | true => exact Nat.le_trans (Nat.add_le_add_right hwithin _) (budget_le_admitted hstart)

/-- Requests at times that do not go back. -/
theorem Accounted.answers {times : List Nat} (hshort : b < a + c.window)
    (hsorted : (now :: times).Pairwise (· ≤ ·)) (h : Accounted c a b now w? n) :
    n + c.admittedIn w? times a b ≤ 2 * c.limit := by
  induction times generalizing now w? n with
  | nil => exact h.le
  | cons t times ih =>
      obtain ⟨hnow, hrest⟩ := List.pairwise_cons.mp hsorted
      have hasked := h.ask (hnow t List.mem_cons_self) hshort
      have hle := ih hrest hasked
      rw [admittedIn_cons]
      omega

/-- In an interval shorter than the window, at most `2 * limit` requests are admitted. -/
theorem admittedIn_le {times : List Nat} (hsorted : times.Pairwise (· ≤ ·))
    (hshort : b < a + c.window) : c.admittedIn none times a b ≤ 2 * c.limit := by
  have hstart : (0 :: times).Pairwise (· ≤ ·) :=
    List.pairwise_cons.mpr ⟨fun t _ => Nat.zero_le t, hsorted⟩
  simpa using (accounted_start c a b).answers hshort hstart

end FixedWindow
