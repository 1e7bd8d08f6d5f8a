import Deltaship.Client.DaemonLock
import Deltaship.Lib.Sections

/-!
# Deltaship.Client.Exclusion

The client processes that share a data directory, and the update lock.

The lock is taken by each entry point for itself: by `main` for some of its commands, by
the daemon for its update cycle and by a run of `--check-now`.  The `remove` command and
`deltaship-updater` do not take it, and the daemon deletes the rows of expired backups
after it has released it.
-/

namespace Deltaship

open Runs Sections

/-- What a client process runs. -/
inductive Entry where
  | update
  | rollback
  | cleanup
  | pruneBackups
  | remove
  | daemon
  | checkNow
  | updater
deriving DecidableEq, Repr

/-- `UPDATE_LOCK_FILE`; the PID file is in `Daemons`. -/
inductive FileLock where
  | updateLock
deriving DecidableEq

namespace Entry

/-- The commands of `main` for which `needs_lock` is true. -/
def needsLock : Entry → Bool
  | update | rollback | cleanup | pruneBackups => true
  | remove | daemon | checkNow | updater => false

/-- The mutating code of an entry point; it is inside from `enter` to `leave`. -/
def program : Entry → Program FileLock
  -- `try_acquire_update_lock` in `main`, dropped at its end
  | update | rollback | cleanup | pruneBackups =>
    ⟨[.tryAcquire .updateLock, .enter, .leave, .release .updateLock], []⟩
  | remove => ⟨[.enter, .leave], []⟩
  -- `run_check_once`
  | checkNow => ⟨[.acquire .updateLock, .enter, .leave, .release .updateLock], []⟩
  -- the cycle, and `delete_expired_backups` behind it
  | daemon => ⟨[], [.acquire .updateLock, .enter, .leave, .release .updateLock, .enter, .leave]⟩
  -- `register_binary`, and `apply_update`
  | updater => ⟨[.enter, .leave, .enter, .leave], []⟩

/-- All that the entry point mutates is done under the update lock. -/
def locked (e : Entry) : Bool := e.needsLock || e == .checkNow

/-- A command that takes the lock does everything under it. -/
theorem guardedBy_of_locked {e : Entry} (h : e.locked = true) :
    e.program.GuardedBy .updateLock := by
  revert h
  cases e <;> decide

end Entry

/-! ## the processes of a data directory -/

namespace DaemonPhase

/-- The guard is alive. -/
def isLive : DaemonPhase → Bool
  | live _ => true
  | start | opened _ | locked _ | unlinked _ | closed => false

/-- The process has given up, or has begun to drop its guard. -/
def isOver : DaemonPhase → Bool
  | unlinked _ | closed => true
  | start | opened _ | locked _ | live _ => false

end DaemonPhase

variable {ι : Type}

/-- A killed process loses its locks, and the path stays. -/
def Daemons.kill [DecidableEq ι] (s : Daemons ι) (i : ι) : Daemons ι :=
  { s.move i .closed with locks := fun n => if s.locks n = some i then none else s.locks n }

/-- The client processes of a data directory. -/
structure Clients (ι : Type) where
  daemons : Daemons ι
  sections : State ι FileLock

namespace Clients

/-- A process goes on with `acquire_daemon_lock` or with the drop of its guard, takes a
step of its program, or is killed. -/
inductive Act (ι : Type) where
  | start (i : ι)
  | step (i : ι)
  | kill (i : ι)

/-- A process is inside code that mutates the installed file, the backups or their
rows. -/
def Inside (s : Clients ι) (i : ι) : Prop := Sections.Inside s.sections i

/-- The PID path still names what a process is about to lock. -/
def StillNamed (s : Clients ι) : Act ι → Prop
  | .start i => s.daemons.StillNamed i
  | .step _ | .kill _ => True

section Steps

variable (kind : ι → Entry)

/-- No process has begun. -/
def init (path : Option Nat) : Clients ι where
  daemons := Daemons.init path
  sections := Sections.init fun i => (kind i).program

variable [DecidableEq ι]

/-- The state after an action.  A daemon takes steps while its guard is live. -/
def next (s : Clients ι) : Act ι → Clients ι
  | .start i =>
    if kind i = .daemon then
      let daemons := s.daemons.next i
      { daemons
        sections := if (daemons.phase i).isOver then s.sections.exit i else s.sections }
    else s
  | .step i =>
    if kind i = .daemon ∧ (s.daemons.phase i).isLive = false then s
    else { s with sections := Sections.next (fun i => (kind i).program) s.sections (.step i) }
  | .kill i => ⟨s.daemons.kill i, s.sections.exit i⟩

end Steps

end Clients

/-! ## what the locks exclude -/

/- A program is a list of sections, with the locks that are held around each. Two entry points
exclude each other if they both hold the update lock in all of their sections, or if they are both
daemons. -/

section Exclusion

variable [DecidableEq ι] {kind : ι → Entry} {s : Clients ι} {i : ι}

/-- A process that is killed leaves at most one daemon running. -/
theorem HeldByOne.kill {s : Daemons ι} (h : HeldByOne s) : HeldByOne (s.kill i) := by
  have hmoved : HeldByOne (s.move i .closed) :=
    h.move (fun m hm => by contradiction) fun m hm => by contradiction
  refine ⟨fun j m hj => ?_, hmoved.named⟩
  have hji : j ≠ i := by
    rintro rfl
    simp [Daemons.kill, Daemons.move, DaemonPhase.lock?] at hj
  have hheld : s.locks m = some j := hmoved.lock j m hj
  simp [Daemons.kill, hheld, hji]

/-- So does every step, as long as the path names the file. -/
theorem HeldByOne.clientsNext (h : HeldByOne s.daemons) {a : Clients.Act ι}
    (hnamed : s.StillNamed a) : HeldByOne (Clients.next kind s a).daemons := by
  cases a with
  | start i =>
      unfold Clients.next
      dsimp only
      split
      · exact h.next hnamed
      · exact h
  | step i =>
      unfold Clients.next
      dsimp only
      split <;> exact h
  | kill i => exact h.kill

/-- A process is killed, takes a step of its program or does not. -/
theorem Clients.next_sections (kind : ι → Entry) (s : Clients ι) (a : Clients.Act ι) :
    (Clients.next kind s a).sections = s.sections ∨
      ∃ b, (Clients.next kind s a).sections =
        Sections.next (fun i => (kind i).program) s.sections b := by
  cases a with
  | start i =>
      unfold Clients.next
      dsimp only
      split
      · dsimp only
        split
        · exact .inr ⟨.kill i, rfl⟩
        · exact .inl rfl
      · exact .inl rfl
  | step i =>
      unfold Clients.next
      dsimp only
      split
      · exact .inl rfl
      · exact .inr ⟨.step i, rfl⟩
  | kill i => exact .inr ⟨.kill i, rfl⟩

/-- A process holds the update lock wherever its program relies on it. -/
def HoldsUpdateLock (kind : ι → Entry) (i : ι) (s : Clients ι) : Prop :=
  Holds (fun i => (kind i).program) .updateLock s.sections i

/-- Who is inside holds the update lock, whatever the others do. -/
theorem HoldsUpdateLock.next (h : HoldsUpdateLock kind i s) (a : Clients.Act ι) :
    HoldsUpdateLock kind i (Clients.next kind s a) := by
  unfold HoldsUpdateLock at h ⊢
  rcases Clients.next_sections kind s a with hsame | ⟨b, hb⟩
  · rw [hsame]
    exact h
  · rw [hb]
    exact h.next b

/-- A daemon that has begun its loop has a live guard. -/
def DaemonsLive (kind : ι → Entry) (s : Clients ι) : Prop :=
  ∀ i, kind i = .daemon → ∀ code, s.sections.code i = some code →
    code = [] ∨ (s.daemons.phase i).isLive = true

/-- A step of one daemon leaves the others where they are. -/
theorem Daemons.phase_next_ne {s : Daemons ι} {j : ι} (hne : j ≠ i) :
    (s.next i).phase j = s.phase j := by
  unfold Daemons.next
  repeat' split
  all_goals first | rfl | exact Function.update_of_ne hne _ _

/-- The step of a daemon that is running ends it. -/
theorem Daemons.isOver_next {s : Daemons ι} (h : (s.phase i).isLive = true) :
    ((s.next i).phase i).isOver = true := by
  cases hphase : s.phase i <;> simp [hphase, DaemonPhase.isLive] at h
  simp [Daemons.next, hphase, Daemons.move, DaemonPhase.isOver]

/-- Starting a process leaves the live daemons the running ones. -/
theorem DaemonsLive.start (h : DaemonsLive kind s) :
    DaemonsLive kind (Clients.next kind s (.start i)) := by
  intro j hj code hcode
  unfold Clients.next at hcode ⊢
  dsimp only at hcode ⊢
  by_cases hi : kind i = .daemon
  · rw [if_pos hi] at hcode ⊢
    by_cases hji : j = i
    · subst hji
      by_cases hover : ((s.daemons.next j).phase j).isOver = true
      · simp [hover, State.exit] at hcode
      · simp only [hover, Bool.false_eq_true, if_false] at hcode
        -- a guard that was alive would be dropped
        have hdead := mt Daemons.isOver_next hover
        exact .inl ((h j hj code hcode).resolve_right hdead)
    · rw [Daemons.phase_next_ne hji]
      refine h j hj code ?_
      dsimp only at hcode
      split at hcode
      · exact (Function.update_of_ne hji _ _).symm.trans hcode
      · exact hcode
  · rw [if_neg hi] at hcode ⊢
    exact h j hj code hcode

theorem DaemonsLive.step (h : DaemonsLive kind s) :
    DaemonsLive kind (Clients.next kind s (.step i)) := by
  intro j hj code hcode
  unfold Clients.next at hcode ⊢
  dsimp only at hcode ⊢
  by_cases hwaits : kind i = .daemon ∧ (s.daemons.phase i).isLive = false
  · rw [if_pos hwaits] at hcode ⊢
    exact h j hj code hcode
  · rw [if_neg hwaits] at hcode ⊢
    by_cases hji : j = i
    · subst hji
      exact .inr (by simpa [hj] using hwaits)
    · exact h j hj code ((code_next_step_ne hji).symm.trans hcode)

theorem DaemonsLive.next (h : DaemonsLive kind s) (a : Clients.Act ι) :
    DaemonsLive kind (Clients.next kind s a) := by
  cases a with
  | start i => exact h.start
  | step i => exact h.step
  | kill i =>
      intro j hj code hcode
      by_cases hji : j = i
      · subst hji
        simp [Clients.next, State.exit] at hcode
      · have hphase : (s.daemons.kill i).phase j = s.daemons.phase j :=
          Function.update_of_ne hji _ _
        have hsame : (s.sections.exit i).code j = s.sections.code j :=
          Function.update_of_ne hji _ _
        have hlive := h j hj code (hsame.symm.trans hcode)
        rwa [← hphase] at hlive

/-- The entry points that exclude each other. -/
def Entry.Excludes (e f : Entry) : Prop :=
  (e.locked = true ∧ f.locked = true) ∨ (e = .daemon ∧ f = .daemon)

instance (e f : Entry) : Decidable (e.Excludes f) := inferInstanceAs (Decidable (_ ∨ _))

/-- A live daemon has its lock. -/
theorem DaemonPhase.running?_of_isLive {phase : DaemonPhase} (h : phase.isLive = true) :
    ∃ n, phase.running? = some n := by
  cases phase <;> simp_all [isLive, running?]

/-- Two processes that exclude each other are not inside together. -/
theorem eq_of_inside_of_excludes {path : Option Nat} {j : ι}
    (hrun : Reaches (Clients.next kind) Clients.StillNamed (Clients.init kind path) s)
    (hkinds : (kind i).Excludes (kind j)) (hi : s.Inside i) (hj : s.Inside j) : i = j := by
  rcases hkinds with ⟨hli, hlj⟩ | ⟨hdi, hdj⟩
  · have hholds : ∀ k, (kind k).locked = true → HoldsUpdateLock kind k s := fun k hk =>
      hrun.invariant (holds_init (P := fun i => (kind i).program)
        (Entry.guardedBy_of_locked hk)) fun s a h _ => h.next a
    exact Holds.eq_of_inside (hholds i hli) (hholds j hlj) hi hj
  · have hheld : HeldByOne s.daemons :=
      hrun.invariant (I := fun s => HeldByOne s.daemons) heldByOne_init
        fun s a h ha => h.clientsNext ha
    have hlive : DaemonsLive kind s := by
      refine hrun.invariant ?_ fun s a h _ => h.next a
      intro k hk code hcode
      simp [Clients.init, Sections.init, hk, Entry.program] at hcode
      exact .inl hcode
    have hrunning : ∀ k, kind k = .daemon → s.Inside k →
        ∃ n, (s.daemons.phase k).running? = some n := by
      intro k hk hinside
      obtain ⟨rest, hcode⟩ := hinside
      exact DaemonPhase.running?_of_isLive
        ((hlive k hk _ hcode).resolve_left (List.cons_ne_nil _ _))
    obtain ⟨n, hn⟩ := hrunning i hdi hi
    obtain ⟨m, hm⟩ := hrunning j hdj hj
    exact hheld.eq_of_running hn hm

/-! ## what they do not exclude -/

/- The converse is a run. One process goes up to the section that it enters without the update lock,
and then the other one, which finds the lock free, goes up to a section of its own. -/

/-- A process that may take steps, alone. -/
theorem reaches_steps (hmay : kind i = .daemon → (s.daemons.phase i).isLive = true)
    (n : Nat) :
    Reaches (Clients.next kind) Clients.StillNamed s
      ⟨s.daemons, final (Sections.next fun i => (kind i).program) s.sections
        (List.replicate n (.step i))⟩ := by
  induction n generalizing s with
  | zero => exact Reaches.refl s
  | succ n ih =>
      have hnext : Clients.next kind s (.step i) =
          ⟨s.daemons, Sections.next (fun i => (kind i).program) s.sections (.step i)⟩ := by
        refine if_neg ?_
        rintro ⟨hd, hdead⟩
        rw [hmay hd] at hdead
        contradiction
      have hfirst : Reaches (Clients.next kind) Clients.StillNamed s
          (Clients.next kind s (.step i)) := (Reaches.refl s).tail trivial
      rw [hnext] at hfirst
      exact hfirst.trans (ih (s := ⟨s.daemons, _⟩) hmay)

/-- A daemon that starts alone. -/
theorem reaches_live {path : Option Nat} (hkind : kind i = .daemon)
    (hdaemons : s.daemons = Daemons.init path) :
    ∃ t, Reaches (Clients.next kind) Clients.StillNamed s t ∧ t.sections = s.sections ∧
      (t.daemons.phase i).isLive = true := by
  obtain ⟨_, sections⟩ := s
  subst hdaemons
  have hrun : Permitted (Clients.next kind) Clients.StillNamed
      ⟨Daemons.init path, sections⟩ [.start i, .start i, .start i] := by
    cases path <;>
      simp [Permitted, Clients.StillNamed, Daemons.StillNamed, Clients.next, hkind,
        Daemons.next, Daemons.init, Daemons.move, DaemonPhase.isOver]
  refine ⟨_, hrun.reaches, ?_, ?_⟩
  · cases path <;>
      simp [final, Clients.next, hkind, Daemons.next, Daemons.init, Daemons.move,
        DaemonPhase.isOver]
  · cases path <;>
      simp [final, Clients.next, hkind, Daemons.next, Daemons.init, Daemons.move,
        DaemonPhase.isLive]

/-- A process that may take steps, after it has started alone if it is a daemon. -/
theorem reaches_begun (path : Option Nat)
    (hdaemons : kind i = .daemon → s.daemons = Daemons.init path) :
    ∃ t, Reaches (Clients.next kind) Clients.StillNamed s t ∧ t.sections = s.sections ∧
      (kind i = .daemon → (t.daemons.phase i).isLive = true) ∧
      (kind i ≠ .daemon → t.daemons = s.daemons) := by
  by_cases hkind : kind i = .daemon
  · obtain ⟨t, hreach, hsections, hlive⟩ := reaches_live hkind (hdaemons hkind)
    exact ⟨t, hreach, hsections, fun _ => hlive, fun hne => absurd hkind hne⟩
  · exact ⟨s, Reaches.refl s, rfl, fun hk => absurd hk hkind, fun _ => rfl⟩

/-- The code of a program before its first section. -/
def Entry.untilInside : Entry → Nat
  | .remove | .updater => 1
  | .update | .rollback | .cleanup | .pruneBackups | .checkNow => 2
  | .daemon => 3

/-- A process that has not begun gets inside if the update lock is free. -/
theorem inside_alone (hcode : s.sections.code i = some (kind i).program.start)
    (hfree : s.sections.owner .updateLock = none) :
    Sections.Inside (final (Sections.next fun i => (kind i).program) s.sections
      (List.replicate (kind i).untilInside (.step i))) i := by
  cases hkind : kind i <;>
    simp [Sections.Inside, Entry.untilInside, final, Sections.next, Sections.step, hcode,
      hkind, Entry.program, hfree, State.goto, List.replicate]

/-- The steps of a process do not move the others. -/
theorem code_final_steps {P : ι → Program FileLock} {s : State ι FileLock} {j : ι}
    (hne : j ≠ i) (n : Nat) :
    (final (Sections.next P) s (List.replicate n (.step i))).code j = s.code j := by
  induction n generalizing s with
  | zero => rfl
  | succ n ih => exact ih.trans (code_next_step_ne hne)

/-- The steps of a program to the section that it enters without the update lock. -/
def Entry.untilExposed : Entry → Nat
  | .daemon => 6
  | .remove | .updater => 1
  | .update | .rollback | .cleanup | .pruneBackups | .checkNow => 0

/-- A process that does not hold the update lock all the time gets inside, and the lock is
free then. -/
theorem exposed_alone (hkind : (kind i).locked = false)
    (hcode : s.sections.code i = some (kind i).program.start)
    (hfree : s.sections.owner .updateLock = none) :
    let t := final (Sections.next fun i => (kind i).program) s.sections
      (List.replicate (kind i).untilExposed (.step i))
    Sections.Inside t i ∧ t.owner .updateLock = none := by
  cases hentry : kind i <;> simp [hentry, Entry.locked, Entry.needsLock] at hkind <;>
    simp [Sections.Inside, Entry.untilExposed, final, Sections.next, Sections.step, hcode,
      hentry, Entry.program, hfree, State.goto, List.replicate]

/-- A process that does not hold the update lock all the time and another one meet. -/
theorem overlap (path : Option Nat) {j : ι} (hij : i ≠ j) (hkind : (kind i).locked = false)
    (hdaemons : ¬ (kind i = .daemon ∧ kind j = .daemon)) :
    ∃ s, Reaches (Clients.next kind) Clients.StillNamed (Clients.init kind path) s ∧
      s.Inside i ∧ s.Inside j := by
  obtain ⟨s₁, hreach₁, hsections₁, hlive₁, hsame₁⟩ :=
    reaches_begun (s := Clients.init kind path) (i := i) path fun _ => rfl
  obtain ⟨hinside, hfree⟩ := exposed_alone (s := s₁) hkind
    (by rw [hsections₁]; rfl) (by rw [hsections₁]; rfl)
  have hreach₂ := reaches_steps hlive₁ (kind i).untilExposed
  -- the other one begins while the first stays inside
  obtain ⟨s₃, hreach₃, hsections₃, hlive₃, -⟩ := reaches_begun
    (s := ⟨s₁.daemons, final (Sections.next fun i => (kind i).program) s₁.sections
      (List.replicate (kind i).untilExposed (.step i))⟩) (i := j) path
    fun hj => hsame₁ fun hi => hdaemons ⟨hi, hj⟩
  have hcode : s₃.sections.code j = some (kind j).program.start := by
    rw [hsections₃, code_final_steps hij.symm, hsections₁]
    rfl
  have hinside' := inside_alone (s := s₃) hcode (by rw [hsections₃]; exact hfree)
  refine ⟨_, ((hreach₁.trans hreach₂).trans hreach₃).trans
    (reaches_steps hlive₃ (kind j).untilInside), ?_, hinside'⟩
  obtain ⟨rest, hrest⟩ := hinside
  refine ⟨rest, ?_⟩
  rw [code_final_steps hij, hsections₃]
  exact hrest

end Exclusion

/-- No two processes are ever inside mutating code at the same time exactly if any two of
them hold the update lock for all of it or are daemons, as long as no daemon gets the lock
of a PID file that the path no longer names. -/
theorem clients_exclusive_iff [DecidableEq ι] (kind : ι → Entry) (path : Option Nat) :
    (∀ s, Reaches (Clients.next kind) Clients.StillNamed (Clients.init kind path) s →
        ∀ i j, s.Inside i → s.Inside j → i = j) ↔
      ∀ i j, i ≠ j → (kind i).Excludes (kind j) := by
  constructor
  · intro h i j hij
    by_contra hkinds
    simp only [Entry.Excludes, not_or] at hkinds
    obtain ⟨hlocked, hdaemons⟩ := hkinds
    have hmeet : ∃ s, Reaches (Clients.next kind) Clients.StillNamed (Clients.init kind path) s ∧
        s.Inside i ∧ s.Inside j := by
      by_cases hi : (kind i).locked = true
      · have hj : (kind j).locked = false := by simpa [hi] using hlocked
        obtain ⟨s, hreach, hinside, hinside'⟩ := overlap path hij.symm hj
          fun h => hdaemons h.symm
        exact ⟨s, hreach, hinside', hinside⟩
      · exact overlap path hij (Bool.eq_false_iff.mpr hi) hdaemons
    obtain ⟨s, hreach, hinside, hinside'⟩ := hmeet
    exact hij (h s hreach i j hinside hinside')
  · intro h s hreach i j hi hj
    by_contra hij
    exact hij (eq_of_inside_of_excludes hreach (h i j hij) hi hj)

/-- An update, and a `remove` beside it. -/
def updateAndRemove : Bool → Entry
  | false => .update
  | true => .remove

/-- The `remove` gets inside while the update is. -/
theorem remove_beside_update :
    ¬ ∀ (ι : Type) [DecidableEq ι] (kind : ι → Entry) (path : Option Nat) (s : Clients ι),
      Reaches (Clients.next kind) (fun _ _ => True) (Clients.init kind path) s →
      ∀ i j, s.Inside i → s.Inside j → i = j := by
  intro h
  have hrun : Permitted (Clients.next updateAndRemove) (fun _ _ => True)
      (Clients.init updateAndRemove none) [.step false, .step false, .step true] := by
    decide
  have hsame := h Bool updateAndRemove none _ hrun.reaches false true ⟨_, rfl⟩ ⟨_, rfl⟩
  contradiction

end Deltaship
