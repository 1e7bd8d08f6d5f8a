import Deltaship.Lib.Runs
import Mathlib.Data.Fintype.Basic
import Mathlib.Logic.Function.Basic

/-!
# Deltaship.Client.DaemonLock

The lock that keeps a second daemon from starting.

`acquire_daemon_lock` opens or creates the PID file and locks what it opened; the guard
unlinks the file when it is dropped, and only then closes it.  A process that opened the
file before it was unlinked can lock it afterwards, beside one that created a new file.
A lock excludes other daemons as long as the path still names the file that is locked.
-/

namespace Deltaship

open Runs

/-- Where a process is; it keeps the inode that it opened. -/
inductive DaemonPhase where
  | start
  | opened (inode : Nat)
  | locked (inode : Nat)
  /-- The PID is written, and the guard returned. -/
  | live (inode : Nat)
  /-- The guard is dropped and has unlinked the path. -/
  | unlinked (inode : Nat)
  | closed
deriving DecidableEq, Repr

namespace DaemonPhase

/-- The inode of the lock that is held. -/
def lock? : DaemonPhase → Option Nat
  | locked n | live n | unlinked n => some n
  | start | opened _ | closed => none

/-- The inode of the lock of a daemon that is starting or running. -/
def running? : DaemonPhase → Option Nat
  | locked n | live n => some n
  | start | opened _ | unlinked _ | closed => none

end DaemonPhase

variable {ι : Type}

/-- The PID file and the processes that share it. -/
structure Daemons (ι : Type) where
  phase : ι → DaemonPhase
  /-- The inode behind the path. -/
  path : Option Nat
  locks : Nat → Option ι
  fresh : Nat

namespace Daemons

/-- No process has begun, and there may be a PID file. -/
def init (path : Option Nat) : Daemons ι where
  phase _ := .start
  path := path
  locks _ := none
  fresh := path.elim 0 (· + 1)

/-- A guard is alive. -/
def Live (s : Daemons ι) (i : ι) : Prop := ∃ n, s.phase i = .live n

/-- The path still names what a process is about to lock. -/
def StillNamed (s : Daemons ι) (i : ι) : Prop :=
  ∀ n, s.phase i = .opened n → s.locks n = none → s.path = some n

variable [DecidableEq ι]

/-- A process moves on. -/
def move (s : Daemons ι) (i : ι) (phase : DaemonPhase) : Daemons ι :=
  { s with phase := Function.update s.phase i phase }

/-- The next step of a process.  One that does not get the lock gives up. -/
def next (s : Daemons ι) (i : ι) : Daemons ι :=
  match s.phase i with
  | .start =>
    match s.path with
    | some n => s.move i (.opened n)
    | none => { s.move i (.opened s.fresh) with path := some s.fresh, fresh := s.fresh + 1 }
  | .opened n =>
    if (s.locks n).isNone then
      { s.move i (.locked n) with locks := Function.update s.locks n (some i) }
    else s.move i .closed
  | .locked n => s.move i (.live n)
  | .live n => { s.move i (.unlinked n) with path := none }
  | .unlinked n => { s.move i .closed with locks := Function.update s.locks n none }
  | .closed => s

end Daemons

/-! ## one at a time -/

section Steps

variable {s : Daemons ι} {i : ι}

/-- The locks are held by those who took them, and the path names what a daemon that is
starting or running has locked. -/
structure HeldByOne (s : Daemons ι) : Prop where
  lock : ∀ i n, (s.phase i).lock? = some n → s.locks n = some i
  named : ∀ i n, (s.phase i).running? = some n → s.path = some n

theorem DaemonPhase.lock?_of_running? {phase : DaemonPhase} {n : Nat}
    (h : phase.running? = some n) : phase.lock? = some n := by
  cases phase <;> simp_all [running?, lock?]

theorem heldByOne_init {path : Option Nat} : HeldByOne (Daemons.init path : Daemons ι) :=
  ⟨fun i n h => by contradiction, fun i n h => by contradiction⟩

/-- Two daemons that are starting or running are the same. -/
theorem HeldByOne.eq_of_running (h : HeldByOne s) {i j : ι} {n m : Nat}
    (hi : (s.phase i).running? = some n) (hj : (s.phase j).running? = some m) : i = j := by
  have hsame : n = m := Option.some.inj ((h.named i n hi).symm.trans (h.named j m hj))
  have hlock := h.lock i n (DaemonPhase.lock?_of_running? hi)
  rw [hsame, h.lock j m (DaemonPhase.lock?_of_running? hj)] at hlock
  exact (Option.some.inj hlock).symm

variable [DecidableEq ι]

/-- A step after which only the phase of one process is another one, and that holds what
it held. -/
theorem HeldByOne.move {phase : DaemonPhase} (h : HeldByOne s)
    (hlock : ∀ n, phase.lock? = some n → (s.phase i).lock? = some n)
    (hrunning : ∀ n, phase.running? = some n → (s.phase i).running? = some n) :
    HeldByOne (s.move i phase) := by
  refine ⟨fun j n hj => ?_, fun j n hj => ?_⟩
  · by_cases hji : j = i
    · subst hji
      exact h.lock j n (hlock n (by simpa [Daemons.move] using hj))
    · exact h.lock j n (by simpa [Daemons.move, hji] using hj)
  · by_cases hji : j = i
    · subst hji
      exact h.named j n (hrunning n (by simpa [Daemons.move] using hj))
    · exact h.named j n (by simpa [Daemons.move, hji] using hj)

/-- Every step leaves it with one of them, as long as the path names the file. -/
theorem HeldByOne.next (h : HeldByOne s) (hnamed : s.StillNamed i) : HeldByOne (s.next i) := by
  unfold Daemons.next
  cases hphase : s.phase i with
  | start =>
      dsimp only
      split
      · exact h.move (fun n hn => by contradiction) fun n hn => by contradiction
      · next hpath =>
          have hmoved : HeldByOne (s.move i (.opened s.fresh)) :=
            h.move (fun n hn => by contradiction) fun n hn => by contradiction
          refine ⟨hmoved.lock, fun j n hj => ?_⟩
          -- nobody runs while there is no file
          have hnone := hmoved.named j n hj
          rw [show (s.move i (.opened s.fresh)).path = none from hpath] at hnone
          contradiction
  | opened n =>
      dsimp only
      split
      · next hfree =>
          have hfree := Option.isNone_iff_eq_none.mp hfree
          have hpath := hnamed n hphase hfree
          refine ⟨fun j m hj => ?_, fun j m hj => ?_⟩
          · by_cases hji : j = i
            · subst hji
              have hm : n = m := by simpa [Daemons.move, DaemonPhase.lock?] using hj
              subst hm
              exact Function.update_self _ _ _
            · have hheld := h.lock j m (by simpa [Daemons.move, hji] using hj)
              have hm : m ≠ n := by
                rintro rfl
                rw [hfree] at hheld
                contradiction
              exact (Function.update_of_ne hm _ _).trans hheld
          · by_cases hji : j = i
            · subst hji
              have hm : n = m := by simpa [Daemons.move, DaemonPhase.running?] using hj
              exact hm ▸ hpath
            · exact h.named j m (by simpa [Daemons.move, hji] using hj)
      · exact h.move (fun n hn => by contradiction) fun n hn => by contradiction
  | locked n =>
      exact h.move (fun m hm => by rw [hphase]; exact hm) fun m hm => by rw [hphase]; exact hm
  | live n =>
      have hmoved : HeldByOne (s.move i (.unlinked n)) :=
        h.move (fun m hm => by rw [hphase]; exact hm) fun m hm => by contradiction
      refine ⟨hmoved.lock, fun j m hj => ?_⟩
      by_cases hji : j = i
      · subst hji
        simp [Daemons.move, DaemonPhase.running?] at hj
      · -- the only daemon is the one that ends
        have hj : (s.phase j).running? = some m := by simpa [Daemons.move, hji] using hj
        exact absurd (h.eq_of_running hj (by rw [hphase]; rfl)) hji
  | unlinked n =>
      have hmoved : HeldByOne (s.move i .closed) :=
        h.move (fun m hm => by contradiction) fun m hm => by contradiction
      refine ⟨fun j m hj => ?_, hmoved.named⟩
      have hji : j ≠ i := by
        rintro rfl
        simp [Daemons.move, DaemonPhase.lock?] at hj
      have hheld := hmoved.lock j m hj
      have hm : m ≠ n := by
        rintro rfl
        have hown := h.lock i m (by rw [hphase]; rfl)
        exact hji (Option.some.inj (hheld.symm.trans hown))
      exact (Function.update_of_ne hm _ _).trans hheld
  | closed => exact h

end Steps

/-- There is one daemon at most, if no process gets the lock of a file that the path no
longer names. -/
theorem single_daemon [DecidableEq ι] (path : Option Nat) (s : Daemons ι)
    (hrun : Reaches Daemons.next Daemons.StillNamed (Daemons.init path) s) (i j : ι)
    (hi : s.Live i) (hj : s.Live j) : i = j := by
  have hheld : HeldByOne s := hrun.invariant heldByOne_init fun s i h hi => h.next hi
  obtain ⟨n, hn⟩ := hi
  obtain ⟨m, hm⟩ := hj
  exact hheld.eq_of_running (n := n) (m := m) (by rw [hn]; rfl) (by rw [hm]; rfl)

/-! ### three processes -/

instance (s : Daemons ι) (i : ι) : Decidable (s.StillNamed i) :=
  match hphase : s.phase i with
  | .opened n =>
    decidable_of_iff ((s.locks n).isNone = true → s.path = some n) (by
      unfold Daemons.StillNamed
      rw [hphase, Option.isNone_iff_eq_none]
      constructor
      · rintro h _ ⟨⟩ hfree
        exact h hfree
      · intro h hfree
        exact h n rfl hfree)
  | .start | .locked _ | .live _ | .unlinked _ | .closed =>
    isTrue fun n h => by
      rw [hphase] at h
      contradiction

/-- The second process gives up, and the third starts after the first has ended. -/
theorem single_daemon_sample :
    (final Daemons.next (Daemons.init none : Daemons (Fin 3))
      [0, 1, 0, 0, 1, 0, 0, 2, 2, 2]).Live 2 ∧ (2 : Fin 3) = 2 := by
  have hrun : Permitted Daemons.next Daemons.StillNamed (Daemons.init none : Daemons (Fin 3))
      [0, 1, 0, 0, 1, 0, 0, 2, 2, 2] := by decide
  have hlive : (final Daemons.next (Daemons.init none : Daemons (Fin 3))
      [0, 1, 0, 0, 1, 0, 0, 2, 2, 2]).Live 2 := ⟨1, by decide⟩
  exact ⟨hlive, single_daemon none _ hrun.reaches 2 2 hlive hlive⟩

/-- The second process opened the file before the first unlinked it, and locks it after
the third has created a new one. -/
theorem two_daemons :
    ¬ ∀ (ι : Type) [DecidableEq ι] (path : Option Nat) (s : Daemons ι),
      Reaches Daemons.next (fun _ _ => True) (Daemons.init path) s →
      ∀ i j, s.Live i → s.Live j → i = j := by
  intro h
  have hrun : Permitted Daemons.next (fun _ _ => True) (Daemons.init none : Daemons (Fin 3))
      [0, 0, 0, 1, 0, 0, 2, 2, 2, 1, 1] := by decide
  have hsame := h (Fin 3) none _ hrun.reaches 1 2 ⟨0, by decide⟩ ⟨1, by decide⟩
  contradiction

end Deltaship
