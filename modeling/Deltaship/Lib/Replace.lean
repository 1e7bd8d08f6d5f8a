import Deltaship.Lib.Runs
import Mathlib.Data.Fintype.Basic
import Mathlib.Data.List.Nodup
import Mathlib.Logic.Function.Basic

/-!
# Deltaship.Lib.Replace

A file that several parties read, change and replace at the same time.

A party may hold a mutex that it shares with others (`guarded`).  It opens the file,
locks what it opened, reads the file by its path, writes the new content to a
temporary file and renames that to the path.  The rename puts another inode behind the
path, so a lock on the old inode no longer keeps out those who open the file
afterwards.

Parties that never read while another one is between its read and its rename leave the
file as if they had come one after another.  The locks see to this among those who
locked the same inode and among those who hold the mutex.
-/

namespace Replace

open Runs

variable {ι σ : Type}

/-- What the parties do.  The content of a file that cannot be parsed is `none`. -/
structure Protocol (ι σ : Type) where
  /-- Takes the mutex. -/
  guarded : ι → Bool
  /-- Creates the file if it is missing. -/
  creates : ι → Bool
  /-- Is content if the file is missing. -/
  skips : ι → Bool
  /-- The new content, unless the party gives up. -/
  update : ι → Option σ → Option σ
  /-- Only a party that may create the file does without its content. -/
  update_none : ∀ i, creates i = false → update i none = none

/-- Where a party is; it keeps the inode that it opened. -/
inductive Phase (σ : Type) where
  | start
  | entered
  | opened (inode : Nat)
  | locked (inode : Nat)
  | computed (inode : Nat) (new : σ)
  | written (inode : Nat)
  | renamed (inode : Nat)
  | unlocked
  | done
deriving DecidableEq

namespace Phase

/-- The inode of the lock that is held. -/
def lock? : Phase σ → Option Nat
  | locked n | computed n _ | written n | renamed n => some n
  | _ => none

/-- The inode of the lock of a party between its read and its rename. -/
def updating? : Phase σ → Option Nat
  | computed n _ | written n => some n
  | _ => none

/-- Whether the mutex is held by a party that takes it. -/
def entered? : Phase σ → Bool
  | start | done => false
  | _ => true

/-- Whether the party has opened the file and is not yet through with it. -/
def pending : Phase σ → Bool
  | opened _ | locked _ | computed _ _ | written _ => true
  | _ => false

/-- Whether the change of the party has been made. -/
def applied : Phase σ → Bool
  | renamed _ | unlocked | done => true
  | _ => false

end Phase

/-- The file, the temporary file, the locks and the parties. -/
structure State (ι σ : Type) where
  phase : ι → Phase σ
  /-- The inode behind the path. -/
  path : Option Nat
  content : Nat → Option σ
  temp : Option σ
  locks : Nat → Option ι
  mutex : Option ι
  /-- The next inode. -/
  fresh : Nat

namespace State

/-- The file, if it is there, with its content. -/
def file (s : State ι σ) : Option (Option σ) := s.path.map s.content

/-- No party has begun. -/
def init (file : Option (Option σ)) : State ι σ where
  phase _ := .start
  path := file.map fun _ => 0
  content _ := file.join
  temp := none
  locks _ := none
  mutex := none
  fresh := 1

end State

section Steps

variable [DecidableEq ι] (P : Protocol ι σ)

/-- A party moves on. -/
def State.move (s : State ι σ) (i : ι) (phase : Phase σ) : State ι σ :=
  { s with phase := Function.update s.phase i phase }

/-- The next step of a party, if it can take one.  A step that would end in an error is
none. -/
def step (s : State ι σ) (i : ι) : Option (State ι σ) :=
  match s.phase i with
  | .start =>
    if P.guarded i then
      if s.mutex.isNone then some { s.move i .entered with mutex := some i } else none
    else some (s.move i .entered)
  | .entered =>
    match s.path with
    | some n => some (s.move i (.opened n))
    | none =>
      if P.creates i then
        some { s.move i (.opened s.fresh) with
          path := some s.fresh
          content := Function.update s.content s.fresh none
          fresh := s.fresh + 1 }
      else if P.skips i then some (s.move i .unlocked) else none
  | .opened n =>
    if (s.locks n).isNone then
      some { s.move i (.locked n) with locks := Function.update s.locks n (some i) }
    else none
  | .locked n => (P.update i s.file.join).map fun new => s.move i (.computed n new)
  | .computed n new => some { s.move i (.written n) with temp := some new }
  | .written n =>
    s.temp.map fun new =>
      { s.move i (.renamed n) with
        path := some s.fresh
        content := Function.update s.content s.fresh (some new)
        temp := none
        fresh := s.fresh + 1 }
  | .renamed n => some { s.move i .unlocked with locks := Function.update s.locks n none }
  | .unlocked =>
    some { s.move i .done with mutex := if P.guarded i then none else s.mutex }
  | .done => none

/-- The state behind a step. -/
def next (s : State ι σ) (i : ι) : State ι σ := (step P s i).getD s

/-- A party can take a step. -/
def Enabled (s : State ι σ) (i : ι) : Prop := (step P s i).isSome = true

instance (s : State ι σ) (i : ι) : Decidable (Enabled P s i) :=
  inferInstanceAs (Decidable (_ = true))

/-- A party that reads the file does so while nobody that locked another inode, and
that it does not share the mutex with, is between its read and its rename. -/
def Apart (s : State ι σ) (i : ι) : Prop :=
  ∀ n, s.phase i = .locked n → ∀ j m, j ≠ i → (s.phase j).updating? = some m →
    m = n ∨ (P.guarded i = true ∧ P.guarded j = true)

instance [Fintype ι] (s : State ι σ) (i : ι) : Decidable (Apart P s i) :=
  match hphase : s.phase i with
  | .locked n =>
    decidable_of_iff
      (∀ j, j ≠ i → ∀ m ∈ (s.phase j).updating?,
        m = n ∨ (P.guarded i = true ∧ P.guarded j = true)) (by
      unfold Apart
      rw [hphase]
      constructor
      · rintro h _ ⟨⟩ j m hj hm
        exact h j hj m hm
      · intro h j hj m hm
        exact h n rfl j m hj hm)
  | .start | .entered | .opened _ | .computed _ _ | .written _ | .renamed _ | .unlocked | .done =>
    isTrue fun n h => by
      rw [hphase] at h
      contradiction

/-! ## one after another -/

/-- What a party does to the file when it is alone. -/
def apply (file : Option (Option σ)) (i : ι) : Option (Option (Option σ)) :=
  if file.isNone && !P.creates i then if P.skips i then some none else none
  else (P.update i file.join).map fun new => some (some new)

/-- The file is as if all parties had come one after another. -/
def Serial (initial final : Option (Option σ)) : Prop :=
  ∃ order : List ι, order.Nodup ∧ (∀ i, i ∈ order) ∧
    order.foldlM (apply P) initial = some final

end Steps

/-! ## the locks -/

/- A party opens the file, locks what it has opened, reads, writes a temporary file and renames it.
The lock belongs to the file that was opened and not to its name, so that two parties can hold locks
at once if one of them has opened the file before a rename; who is guarded by the mutex cannot. -/

section Invariants

variable [DecidableEq ι] {P : Protocol ι σ} {s : State ι σ} {i j : ι}

/-- The process that went on is where it went. -/
@[simp] theorem phase_move_self {phase : Phase σ} : (s.move i phase).phase i = phase := by
  simp [State.move]

theorem phase_move_ne {phase : Phase σ} (h : j ≠ i) :
    (s.move i phase).phase j = s.phase j := by
  simp [State.move, h]

/-- Everything a step can do. -/
inductive Step (P : Protocol ι σ) (s : State ι σ) (i : ι) : State ι σ → Prop where
  | take (hphase : s.phase i = .start) (hguarded : P.guarded i = true) (hfree : s.mutex = none) :
      Step P s i { s.move i .entered with mutex := some i }
  | enter (hphase : s.phase i = .start) (hguarded : P.guarded i = false) :
      Step P s i (s.move i .entered)
  | openFile {n : Nat} (hphase : s.phase i = .entered) (hpath : s.path = some n) :
      Step P s i (s.move i (.opened n))
  | create (hphase : s.phase i = .entered) (hpath : s.path = none) (hcreates : P.creates i = true) :
      Step P s i { s.move i (.opened s.fresh) with
        path := some s.fresh
        content := Function.update s.content s.fresh none
        fresh := s.fresh + 1 }
  | skip (hphase : s.phase i = .entered) (hpath : s.path = none) (hcreates : P.creates i = false)
      (hskips : P.skips i = true) : Step P s i (s.move i .unlocked)
  | lock {n : Nat} (hphase : s.phase i = .opened n) (hfree : s.locks n = none) :
      Step P s i { s.move i (.locked n) with locks := Function.update s.locks n (some i) }
  | read {n : Nat} {new : σ} (hphase : s.phase i = .locked n)
      (hnew : P.update i s.file.join = some new) : Step P s i (s.move i (.computed n new))
  | write {n : Nat} {new : σ} (hphase : s.phase i = .computed n new) :
      Step P s i { s.move i (.written n) with temp := some new }
  | rename {n : Nat} {new : σ} (hphase : s.phase i = .written n) (htemp : s.temp = some new) :
      Step P s i { s.move i (.renamed n) with
        path := some s.fresh
        content := Function.update s.content s.fresh (some new)
        temp := none
        fresh := s.fresh + 1 }
  | unlock {n : Nat} (hphase : s.phase i = .renamed n) :
      Step P s i { s.move i .unlocked with locks := Function.update s.locks n none }
  | leave (hphase : s.phase i = .unlocked) :
      Step P s i { s.move i .done with mutex := if P.guarded i then none else s.mutex }

/-- A process that is enabled can take its step. -/
theorem Step.of_enabled (h : Enabled P s i) : Step P s i (next P s i) := by
  obtain ⟨t, ht⟩ := Option.isSome_iff_exists.mp h
  rw [next, ht, Option.getD_some]
  unfold step at ht
  split at ht
  · next hphase =>
      split at ht
      · next hguarded =>
          split at ht
          · next hfree =>
              obtain rfl := Option.some.inj ht
              exact .take hphase hguarded (Option.isNone_iff_eq_none.mp hfree)
          · contradiction
      · next hguarded =>
          obtain rfl := Option.some.inj ht
          exact .enter hphase (by simpa using hguarded)
  · next hphase =>
      split at ht
      · next n hpath =>
          obtain rfl := Option.some.inj ht
          exact .openFile hphase hpath
      · next hpath =>
          split at ht
          · next hcreates =>
              obtain rfl := Option.some.inj ht
              exact .create hphase hpath hcreates
          · next hcreates =>
              split at ht
              · next hskips =>
                  obtain rfl := Option.some.inj ht
                  exact .skip hphase hpath (by simpa using hcreates) hskips
              · contradiction
  · next n hphase =>
      split at ht
      · next hfree =>
          obtain rfl := Option.some.inj ht
          exact .lock hphase (Option.isNone_iff_eq_none.mp hfree)
      · contradiction
  · next n hphase =>
      obtain ⟨new, hnew, rfl⟩ := Option.map_eq_some_iff.mp ht
      exact .read hphase hnew
  · next n new hphase =>
      obtain rfl := Option.some.inj ht
      exact .write hphase
  · next n hphase =>
      obtain ⟨new, htemp, rfl⟩ := Option.map_eq_some_iff.mp ht
      exact .rename hphase htemp
  · next n hphase =>
      obtain rfl := Option.some.inj ht
      exact .unlock hphase
  · next hphase =>
      obtain rfl := Option.some.inj ht
      exact .leave hphase
  · contradiction

/-- A step leaves the other parties where they are. -/
theorem Step.phase_ne {t : State ι σ} (h : Step P s i t) (hne : j ≠ i) : t.phase j = s.phase j := by
  cases h <;> exact phase_move_ne hne

/-- The mutex and the locks are held by those who took them, and one party at a time is
between its read and its rename. -/
structure Disciplined (P : Protocol ι σ) (s : State ι σ) : Prop where
  mutex : ∀ i, P.guarded i = true → (s.phase i).entered? = true → s.mutex = some i
  lock : ∀ i n, (s.phase i).lock? = some n → s.locks n = some i
  alone : ∀ i j, (s.phase i).updating?.isSome = true → (s.phase j).updating?.isSome = true → i = j

theorem Phase.lock?_of_updating? {phase : Phase σ} {n : Nat} (h : phase.updating? = some n) :
    phase.lock? = some n := by
  cases phase <;> simp_all [updating?, lock?]

theorem Phase.entered?_of_lock? {phase : Phase σ} {n : Nat} (h : phase.lock? = some n) :
    phase.entered? = true := by
  cases phase <;> simp_all [lock?, entered?]

/-- A step leaves the mutex with the guarded process that has entered. -/
theorem Disciplined.mutex_step {t : State ι σ} (h : Disciplined P s) (hstep : Step P s i t) :
    ∀ j, P.guarded j = true → (t.phase j).entered? = true → t.mutex = some j := by
  intro j hguarded hentered
  by_cases hj : j = i
  · subst hj
    cases hstep with
    | take hphase hg hfree => rfl
    | enter hphase hg => rw [hguarded] at hg; contradiction
    | leave hphase => rw [phase_move_self] at hentered; contradiction
    | openFile hphase => exact h.mutex j hguarded (by rw [hphase]; rfl)
    | create hphase => exact h.mutex j hguarded (by rw [hphase]; rfl)
    | skip hphase => exact h.mutex j hguarded (by rw [hphase]; rfl)
    | lock hphase => exact h.mutex j hguarded (by rw [hphase]; rfl)
    | read hphase => exact h.mutex j hguarded (by rw [hphase]; rfl)
    | write hphase => exact h.mutex j hguarded (by rw [hphase]; rfl)
    | rename hphase => exact h.mutex j hguarded (by rw [hphase]; rfl)
    | unlock hphase => exact h.mutex j hguarded (by rw [hphase]; rfl)
  · rw [hstep.phase_ne hj] at hentered
    have hheld := h.mutex j hguarded hentered
    cases hstep with
    | take hphase hg hfree => rw [hfree] at hheld; contradiction
    | leave hphase =>
        show (if P.guarded i = true then none else s.mutex) = some j
        -- the one who leaves does not hold the mutex of another
        by_cases hg : P.guarded i = true
        · have hheld' := h.mutex i hg (by rw [hphase]; rfl)
          rw [hheld] at hheld'
          exact absurd (Option.some.inj hheld') hj
        · rw [if_neg hg]
          exact hheld
    | enter | openFile | create | skip | lock | read | write | rename | unlock => exact hheld

/-- A step leaves every lock with the process that has taken it. -/
theorem Disciplined.lock_step {t : State ι σ} (h : Disciplined P s) (hstep : Step P s i t) :
    ∀ j m, (t.phase j).lock? = some m → t.locks m = some j := by
  intro j m hlock
  by_cases hj : j = i
  · subst hj
    cases hstep with
    | take | enter | openFile | create | skip | unlock | leave =>
        rw [phase_move_self] at hlock
        contradiction
    | @lock n hphase hfree =>
        rw [phase_move_self] at hlock
        obtain rfl := Option.some.inj hlock
        exact Function.update_self _ _ _
    | read hphase | write hphase | rename hphase =>
        rw [phase_move_self] at hlock
        obtain rfl := Option.some.inj hlock
        exact h.lock j _ (by rw [hphase]; rfl)
  · rw [hstep.phase_ne hj] at hlock
    have hheld := h.lock j m hlock
    cases hstep with
    | @lock n hphase hfree =>
        have hm : m ≠ n := by
          rintro rfl
          rw [hfree] at hheld
          contradiction
        exact (Function.update_of_ne hm _ _).trans hheld
    | @unlock n hphase =>
        have hm : m ≠ n := by
          rintro rfl
          have hheld' := h.lock i m (by rw [hphase]; rfl)
          rw [hheld] at hheld'
          exact hj (Option.some.inj hheld')
        exact (Function.update_of_ne hm _ _).trans hheld
    | take | enter | openFile | create | skip | read | write | rename | leave => exact hheld

omit [DecidableEq ι] in
/-- The locks keep a party that reads apart from those that they are to keep out, and
`Apart` says that there are no others. -/
theorem Disciplined.not_updating {n : Nat} (h : Disciplined P s) (hphase : s.phase i = .locked n)
    (hapart : Apart P s i) (hj : j ≠ i) : (s.phase j).updating? = none := by
  by_contra hsome
  obtain ⟨m, hm⟩ := Option.ne_none_iff_exists'.mp hsome
  have hi : (s.phase i).lock? = some n := by rw [hphase]; rfl
  have hlock := Phase.lock?_of_updating? hm
  rcases hapart n hphase j m hj hm with rfl | ⟨hgi, hgj⟩
  · have hheld := h.lock j m hlock
    rw [h.lock i m hi] at hheld
    exact hj (Option.some.inj hheld).symm
  · have hheld := h.mutex j hgj (Phase.entered?_of_lock? hlock)
    rw [h.mutex i hgi (Phase.entered?_of_lock? hi)] at hheld
    exact hj (Option.some.inj hheld).symm

/-- Two processes update at the same time neither before nor behind a step. -/
theorem Disciplined.alone_step {t : State ι σ} (h : Disciplined P s) (hapart : Apart P s i)
    (hstep : Step P s i t) : ∀ j k, (t.phase j).updating?.isSome = true →
      (t.phase k).updating?.isSome = true → j = k := by
  -- whoever was between its read and its rename before, or has just read
  have hsame : ∀ j, (t.phase j).updating?.isSome = true → j = i ∨
      (s.phase j).updating?.isSome = true := by
    intro j hupdating
    by_cases hj : j = i
    · exact .inl hj
    · rw [hstep.phase_ne hj] at hupdating
      exact .inr hupdating
  have hself : ∀ j, j ≠ i → (t.phase i).updating?.isSome = true →
      (s.phase j).updating?.isSome = true → False := by
    intro j hj hi hupdating
    cases hstep with
    | take | enter | openFile | create | skip | lock | rename | unlock | leave =>
        rw [phase_move_self] at hi
        contradiction
    | read hphase =>
        rw [h.not_updating hphase hapart hj] at hupdating
        contradiction
    | write hphase => exact hj (h.alone j i hupdating (by rw [hphase]; rfl))
  intro j k hj hk
  by_cases hji : j = i
  · subst hji
    by_cases hkj : k = j
    · exact hkj.symm
    · rcases hsame k hk with rfl | hk
      · rfl
      · exact (hself k hkj hj hk).elim
  · rcases hsame j hj with rfl | hj'
    · contradiction
    · by_cases hki : k = i
      · subst hki
        exact (hself j hji hk hj').elim
      · rcases hsame k hk with rfl | hk'
        · contradiction
        · exact h.alone j k hj' hk'

/-- The three parts of the discipline are kept together. -/
theorem Disciplined.step {t : State ι σ} (h : Disciplined P s) (hapart : Apart P s i)
    (hstep : Step P s i t) : Disciplined P t :=
  ⟨h.mutex_step hstep, h.lock_step hstep, h.alone_step hapart hstep⟩

/-! ## one after another, again -/

/- The refinement: beside the protocol runs a list of the updates whose renames have happened, in
this order, and the file always holds what they make one after another. A party that has read is
ready if its value is still the one of the list. -/

/-- What a party between its read and its rename is about to make of the file. -/
def Ready (P : Protocol ι σ) (s : State ι σ) (i : ι) : Prop :=
  match s.phase i with
  | .computed _ new => P.update i s.file.join = some new
  | .written _ => ∃ new, s.temp = some new ∧ P.update i s.file.join = some new
  | _ => True

/-- The file is as if the parties of a list had come one after another; only that a
party may have created it already. -/
structure Refines (P : Protocol ι σ) (initial : Option (Option σ)) (s : State ι σ)
    (order : List ι) : Prop where
  nodup : order.Nodup
  mem : ∀ i, i ∈ order ↔ (s.phase i).applied = true
  opened : ∀ i, (s.phase i).pending = true → s.path.isSome = true
  ready : ∀ i, Ready P s i
  file : ∃ file, order.foldlM (apply P) initial = some file ∧
    (s.file = file ∨ (file = none ∧ s.file = some none ∧ ∃ i, (s.phase i).pending = true))

variable {t : State ι σ} {initial : Option (Option σ)} {order : List ι}

/-- Only a rename changes the content of the file. -/
theorem Step.join_file (h : Step P s i t) :
    t.file.join = s.file.join ∨ (s.phase i).updating?.isSome = true := by
  cases h with
  | create hphase hpath =>
      refine .inl ?_
      simp [State.file, hpath]
  | rename hphase => exact .inr (by rw [hphase]; rfl)
  | take | enter | openFile | skip | lock | read | write | unlock | leave => exact .inl rfl

/-- Only who is updating writes the temporary file. -/
theorem Step.temp_eq (h : Step P s i t) :
    t.temp = s.temp ∨ (s.phase i).updating?.isSome = true := by
  cases h with
  | write hphase | rename hphase => exact .inr (by rw [hphase]; rfl)
  | take | enter | openFile | create | skip | lock | read | unlock | leave => exact .inl rfl

/-- Once the file is there, it stays there. -/
theorem Step.path_isSome (h : Step P s i t) (hpath : s.path.isSome = true) :
    t.path.isSome = true := by
  cases h with
  | create | rename => rfl
  | take | enter | openFile | skip | lock | read | write | unlock | leave => exact hpath

omit [DecidableEq ι] in
/-- Who is not updating has nothing to be ready for. -/
theorem ready_of_not_updating (h : (s.phase i).updating? = none) : Ready P s i := by
  unfold Ready
  cases hphase : s.phase i <;> simp_all [Phase.updating?]

/-- What another process does leaves the update of this one ready. -/
theorem Disciplined.ready_ne (h : Disciplined P s) (hstep : Step P s i t) (hj : j ≠ i)
    (hready : Ready P s j) : Ready P t j := by
  by_cases hupdating : (s.phase j).updating?.isSome = true
  · -- nobody else is between its read and its rename
    have hother : ¬ (s.phase i).updating?.isSome = true := fun hi =>
      hj (h.alone j i hupdating hi)
    have hfile : t.file.join = s.file.join := hstep.join_file.resolve_right hother
    have htemp : t.temp = s.temp := hstep.temp_eq.resolve_right hother
    unfold Ready at hready ⊢
    rw [hstep.phase_ne hj, hfile, htemp]
    exact hready
  · refine ready_of_not_updating ?_
    rw [hstep.phase_ne hj]
    simpa using hupdating

/-- Every process is ready for its update behind a step, too. -/
theorem Refines.ready_step (hr : Refines P initial s order) (h : Disciplined P s)
    (hstep : Step P s i t) : ∀ j, Ready P t j := by
  intro j
  by_cases hj : j = i
  · subst hj
    have hself := hr.ready j
    cases hstep with
    | read hphase hnew =>
        unfold Ready
        rw [phase_move_self]
        exact hnew
    | write hphase =>
        unfold Ready at hself ⊢
        rw [hphase] at hself
        rw [phase_move_self]
        exact ⟨_, rfl, hself⟩
    | take | enter | openFile | create | skip | lock | rename | unlock | leave =>
        refine ready_of_not_updating ?_
        rw [phase_move_self]
        rfl
  · exact h.ready_ne hstep hj (hr.ready j)

/-- A process with an open file has one to go back to. -/
theorem Refines.opened_step (hr : Refines P initial s order) (hstep : Step P s i t) :
    ∀ j, (t.phase j).pending = true → t.path.isSome = true := by
  intro j hpending
  by_cases hj : j = i
  · subst hj
    have hself := hr.opened j
    cases hstep with
    | openFile hphase hpath =>
        show s.path.isSome = true
        rw [hpath]
        rfl
    | create | rename => rfl
    | lock hphase | read hphase | write hphase => exact hself (by rw [hphase]; rfl)
    | take | enter | skip | unlock | leave =>
        rw [phase_move_self] at hpending
        contradiction
  · rw [hstep.phase_ne hj] at hpending
    exact hstep.path_isSome (hr.opened j hpending)

/-- A step after which the party is where it was, as far as the order is concerned. -/
theorem Refines.keep (hr : Refines P initial s order) (h : Disciplined P s)
    (hstep : Step P s i t) (happlied : (t.phase i).applied = (s.phase i).applied)
    (hpending : (s.phase i).pending = true → (t.phase i).pending = true)
    (hfile : t.file = s.file) : Refines P initial t order := by
  have hboth : ∀ {f : Phase σ → Bool} (j : ι), (j = i → f (t.phase i) = f (s.phase i)) →
      f (t.phase j) = f (s.phase j) := by
    intro f j hsame
    by_cases hj : j = i
    · subst hj
      exact hsame rfl
    · rw [hstep.phase_ne hj]
  refine ⟨hr.nodup, fun j => ?_, hr.opened_step hstep, hr.ready_step h hstep, ?_⟩
  · rw [hboth j fun _ => happlied]
    exact hr.mem j
  · obtain ⟨file, hfold, hsame | ⟨hnone, hempty, j, hj⟩⟩ := hr.file
    · exact ⟨file, hfold, .inl (hfile.trans hsame)⟩
    · refine ⟨file, hfold, .inr ⟨hnone, hfile.trans hempty, j, ?_⟩⟩
      by_cases hji : j = i
      · subst hji
        exact hpending hj
      · rw [hstep.phase_ne hji]
        exact hj

/-- A step with which a party takes its turn. -/
theorem Refines.turn (hr : Refines P initial s order) (h : Disciplined P s)
    (hstep : Step P s i t) (hbefore : (s.phase i).applied = false)
    (hafter : (t.phase i).applied = true) {file : Option (Option σ)}
    (hfold : order.foldlM (apply P) initial = some file)
    (happly : apply P file i = some t.file) : Refines P initial t (order ++ [i]) := by
  have hnew : i ∉ order := by
    rw [hr.mem, hbefore]
    simp
  refine ⟨?_, fun j => ?_, hr.opened_step hstep, hr.ready_step h hstep, t.file, ?_, .inl rfl⟩
  · exact List.nodup_append.mpr ⟨hr.nodup, List.nodup_singleton i, fun a ha b hb => by
      rintro rfl
      exact hnew (List.mem_singleton.mp hb ▸ ha)⟩
  · rw [List.mem_append, List.mem_singleton]
    by_cases hj : j = i
    · subst hj
      simp [hafter]
    · rw [hstep.phase_ne hj, hr.mem]
      simp [hj]
  · rw [List.foldlM_append, hfold]
    simp [happly]

/-- A step of the protocol is an update of the abstract value, or none. -/
theorem Refines.step (hr : Refines P initial s order) (h : Disciplined P s)
    (hstep : Step P s i t) : ∃ order', Refines P initial t order' := by
  have hkeep := hr.keep h hstep
  have hturn := fun hbefore hafter file (hfold : order.foldlM (apply P) initial = some file) =>
    hr.turn h hstep hbefore hafter hfold
  obtain ⟨file, hfold, hfile⟩ := hr.file
  cases hstep with
  | create hphase hpath hcreates =>
      -- the file was missing, and is empty now
      have hmissing : s.file = none := by simp [State.file, hpath]
      have hnone : file = none := by
        rcases hfile with hsame | ⟨hnone, -⟩
        · exact hsame ▸ hmissing
        · exact hnone
      refine ⟨order, hr.nodup, fun j => ?_, hr.opened_step (.create hphase hpath hcreates),
        hr.ready_step h (.create hphase hpath hcreates), file, hfold, .inr ⟨hnone, ?_, i, ?_⟩⟩
      · by_cases hj : j = i
        · subst hj
          rw [hr.mem, phase_move_self, hphase]
          rfl
        · rw [Step.phase_ne (.create hphase hpath hcreates) hj]
          exact hr.mem j
      · simp [State.file]
      · rw [phase_move_self]
        rfl
  | skip hphase hpath hcreates hskips =>
      have hmissing : s.file = none := by simp [State.file, hpath]
      have hsame : file = none := by
        rcases hfile with hsame | ⟨hnone, -⟩
        · exact hsame ▸ hmissing
        · exact hnone
      refine ⟨_, hturn (by rw [hphase]; rfl) (by rw [phase_move_self]; rfl) file hfold ?_⟩
      show apply P file i = some s.file
      rw [hsame, hmissing]
      simp [apply, hcreates, hskips]
  | @rename n new hphase htemp =>
      have hready := hr.ready i
      unfold Ready at hready
      rw [hphase] at hready
      obtain ⟨new', htemp', hupdate⟩ := hready
      obtain rfl := Option.some.inj (htemp.symm.trans htemp')
      refine ⟨_, hturn (by rw [hphase]; rfl) (by rw [phase_move_self]; rfl) file hfold ?_⟩
      have hthere : s.file ≠ none := by
        have hopened := hr.opened i (by rw [hphase]; rfl)
        obtain ⟨m, hm⟩ := Option.isSome_iff_exists.mp hopened
        simp [State.file, hm]
      have hresult : State.file { s.move i (.renamed n) with
          path := some s.fresh
          content := Function.update s.content s.fresh (some new)
          temp := none
          fresh := s.fresh + 1 } = some (some new) := by
        simp [State.file]
      rw [hresult]
      rcases hfile with hsame | ⟨hnone, hempty, -⟩
      · rw [hsame] at hupdate hthere
        simp [apply, hupdate, hthere]
      · -- only a party that creates the file gets here
        have hcreates : P.creates i = true := by
          by_contra hno
          rw [hempty, Option.join_some, P.update_none i (by simpa using hno)] at hupdate
          contradiction
        rw [hempty, Option.join_some] at hupdate
        simp [apply, hnone, hcreates, hupdate]
  | take hphase | enter hphase | openFile hphase | lock hphase | read hphase | write hphase
  | unlock hphase | leave hphase =>
      refine ⟨order, hkeep ?_ ?_ rfl⟩
      · rw [phase_move_self, hphase]
        rfl
      · rw [phase_move_self, hphase]
        simp [Phase.pending]

/-! ## whole runs -/

omit [DecidableEq ι] in
theorem disciplined_init {file : Option (Option σ)} :
    Disciplined P (State.init file) :=
  ⟨fun i _ h => by contradiction, fun i n h => by contradiction, fun i j h => by contradiction⟩

omit [DecidableEq ι] in
/-- At first the file has the initial value, and no update was made. -/
theorem refines_init : Refines P initial (State.init initial) [] := by
  refine ⟨List.nodup_nil, fun i => ?_, fun i h => by contradiction, fun i => trivial, initial, rfl,
    .inl ?_⟩
  · simp [State.init, Phase.applied]
  · cases initial with
    | none => rfl
    | some content => rfl

/-- Parties that keep apart leave the file as if they had come one after another. -/
theorem serial_of_apart
    (hrun : Reaches (next P) (fun s i => Enabled P s i ∧ Apart P s i) (State.init initial) s)
    (hdone : ∀ i, s.phase i = .done) : Serial P initial s.file := by
  have hinv := hrun.invariant
    (I := fun s => Disciplined P s ∧ ∃ order, Refines P initial s order)
    ⟨disciplined_init, [], refines_init⟩ fun s i hs hi => by
      obtain ⟨hdisciplined, order, hrefines⟩ := hs
      have hstep := Step.of_enabled hi.1
      exact ⟨hdisciplined.step hi.2 hstep, hrefines.step hdisciplined hstep⟩
  obtain ⟨-, order, hrefines⟩ := hinv
  obtain ⟨file, hfold, hsame | ⟨-, -, i, hi⟩⟩ := hrefines.file
  · refine ⟨order, hrefines.nodup, fun i => ?_, hsame ▸ hfold⟩
    rw [hrefines.mem, hdone i]
    rfl
  · rw [hdone i] at hi
    contradiction

end Invariants

end Replace
