import Deltaship.Lib.Files
import Deltaship.Lib.Runs
import Mathlib.Data.List.Count

/-!
# Deltaship.Server.Mutexes

The mutexes of the applications: a map from names to reference-counted mutexes, from
which `get_catalog_mutex` evicts those that nobody holds when there are too many.

The lock of the map is held during a call, but handles are dropped without it, also
while `retain` goes through the entries; and a handle can be locked and unlocked at any
time.  The count of a mutex in the map is one more than the number of its handles, so
what is evicted has none.
-/

namespace Deltaship

open Runs

/-- `MAX_CATALOG_MUTEXES`. -/
def maxCatalogMutexes : Nat := 4096

/-- An `Arc` that a call has returned and nobody has dropped. -/
structure Handle where
  serial : Nat
  appName : String
  mutex : Nat
deriving DecidableEq, Repr

/-- A call that holds the lock of the map, with the entries that `retain` has yet to
look at. -/
structure MutexCall where
  appName : String
  pending : List String
deriving DecidableEq, Repr

/-- `CATALOG_MUTEXES` and everything that was handed out. -/
structure Mutexes where
  map : Files String Nat
  /-- `Arc::strong_count`. -/
  strong : Nat → Nat
  handles : List Handle
  /-- The handle that has locked a mutex. -/
  owner : Nat → Option Nat
  call : Option MutexCall
  freshMutex : Nat
  freshSerial : Nat

/-- What the tasks do. -/
inductive MutexAction where
  | enter (appName : String)
  | visit (appName : String)
  | finish
  | lock (h : Handle)
  | unlock (h : Handle)
  | drop (h : Handle)

namespace Mutexes

/-- No call yet. -/
def init : Mutexes where
  map := Files.empty
  strong _ := 0
  handles := []
  owner _ := none
  call := none
  freshMutex := 0
  freshSerial := 0

/-- A call takes the lock of the map, and starts to evict if a new entry would be one
too many. -/
def enter (appName : String) (s : Mutexes) : Mutexes :=
  let full := maxCatalogMutexes ≤ s.map.paths.length && (s.map.read appName).isNone
  { s with call := some ⟨appName, if full then s.map.paths else []⟩ }

/-- `retain` looks at an entry, and keeps it if somebody holds the mutex. -/
def visit (appName : String) (call : MutexCall) (s : Mutexes) : Mutexes :=
  let s := { s with call := some { call with pending := call.pending.erase appName } }
  match s.map.read appName with
  | some m =>
    if s.strong m > 1 then s
    else
      { s with
        map := s.map.remove appName
        strong := Function.update s.strong m (s.strong m - 1) }
  | none => s

/-- The entry of the map, or a new one, is cloned. -/
def finish (call : MutexCall) (s : Mutexes) : Mutexes :=
  match s.map.read call.appName with
  | some m =>
    { s with
      strong := Function.update s.strong m (s.strong m + 1)
      handles := ⟨s.freshSerial, call.appName, m⟩ :: s.handles
      call := none
      freshSerial := s.freshSerial + 1 }
  | none =>
    { s with
      map := s.map.write call.appName s.freshMutex
      strong := Function.update s.strong s.freshMutex 2
      handles := ⟨s.freshSerial, call.appName, s.freshMutex⟩ :: s.handles
      call := none
      freshMutex := s.freshMutex + 1
      freshSerial := s.freshSerial + 1 }

/-- The handle has locked its mutex. -/
def Locks (s : Mutexes) (h : Handle) : Prop := s.owner h.mutex = some h.serial

instance (s : Mutexes) (h : Handle) : Decidable (s.Locks h) :=
  inferInstanceAs (Decidable (_ = _))

/-- The next state, if the action can be taken.  A handle is not dropped while it is
locked: the guard borrows it. -/
def step (s : Mutexes) : MutexAction → Option Mutexes
  | .enter appName => if s.call.isNone then some (s.enter appName) else none
  | .visit appName =>
    match s.call with
    | some call => if appName ∈ call.pending then some (s.visit appName call) else none
    | none => none
  | .finish =>
    match s.call with
    | some call => if call.pending = [] then some (s.finish call) else none
    | none => none
  | .lock h =>
    if h ∈ s.handles ∧ s.owner h.mutex = none then
      some { s with owner := Function.update s.owner h.mutex (some h.serial) }
    else none
  | .unlock h =>
    if h ∈ s.handles ∧ s.Locks h then
      some { s with owner := Function.update s.owner h.mutex none }
    else none
  | .drop h =>
    if h ∈ s.handles ∧ ¬ s.Locks h then
      some { s with
        handles := s.handles.erase h
        strong := Function.update s.strong h.mutex (s.strong h.mutex - 1) }
    else none

/-- The state behind an action. -/
def next (s : Mutexes) (a : MutexAction) : Mutexes := (s.step a).getD s

/-- The action can be taken. -/
def Enabled (s : Mutexes) (a : MutexAction) : Prop := (s.step a).isSome = true

instance (s : Mutexes) (a : MutexAction) : Decidable (s.Enabled a) :=
  inferInstanceAs (Decidable (_ = true))

/-- The handles of an application are handles of one mutex, and one of them at most has
locked it. -/
structure Exclusive (s : Mutexes) : Prop where
  same : ∀ h ∈ s.handles, ∀ h' ∈ s.handles, h.appName = h'.appName → h.mutex = h'.mutex
  alone : ∀ h ∈ s.handles, ∀ h' ∈ s.handles, h.appName = h'.appName → s.Locks h → s.Locks h' →
    h = h'

/-! ## counts -/

/- The registry evicts a mutex only if nobody else has a handle on it, and it decides that by the
count of the handles. The invariant counts them: those of the calls that have one, and the one of
the map. -/

/-- The handles are handles of what is in the map, and are counted. -/
structure Counted (s : Mutexes) : Prop where
  mapped : ∀ h ∈ s.handles, s.map.read h.appName = some h.mutex
  count : ∀ n m, s.map.read n = some m → s.strong m = 1 + s.handles.countP (·.mutex == m)
  injective : ∀ n n' m, s.map.read n = some m → s.map.read n' = some m → n = n'
  bound : ∀ n m, s.map.read n = some m → m < s.freshMutex
  serials : (s.handles.map Handle.serial).Nodup
  issued : ∀ h ∈ s.handles, h.serial < s.freshSerial

variable {s : Mutexes}

/-- With the handles counted, no two calls are inside together. -/
theorem Counted.exclusive (h : s.Counted) : s.Exclusive := by
  have hsame : ∀ a ∈ s.handles, ∀ b ∈ s.handles, a.appName = b.appName → a.mutex = b.mutex := by
    intro a ha b hb hname
    have hread := h.mapped a ha
    rw [hname, h.mapped b hb] at hread
    exact (Option.some.inj hread).symm
  refine ⟨hsame, fun a ha b hb hname hlock hlock' => ?_⟩
  have hserial : a.serial = b.serial := by
    unfold Locks at hlock hlock'
    rw [hsame a ha b hb hname, hlock'] at hlock
    exact (Option.some.inj hlock).symm
  exact List.inj_on_of_nodup_map h.serials ha hb hserial

theorem counted_init : init.Counted where
  mapped h hh := by contradiction
  count n m hread := by contradiction
  injective n n' m hread := by contradiction
  bound n m hread := by contradiction
  serials := List.nodup_nil
  issued h hh := by contradiction

/-- What is evicted has no handles. -/
theorem Counted.visit (h : s.Counted) (appName : String) (call : MutexCall) :
    (s.visit appName call).Counted := by
  have hsame : ∀ {call : Option MutexCall}, Counted { s with call } := fun {call} =>
    ⟨h.mapped, h.count, h.injective, h.bound, h.serials, h.issued⟩
  unfold Mutexes.visit
  dsimp only
  split
  · next m hread =>
      split
      · exact hsame
      · next hcount =>
          have hnone : ∀ a ∈ s.handles, a.mutex ≠ m := by
            have hzero : s.handles.countP (·.mutex == m) = 0 := by
              have htotal := h.count appName m hread
              omega
            intro a ha hmutex
            have hnot := List.countP_eq_zero.mp hzero a ha
            simp [hmutex] at hnot
          have hother : ∀ {n : String} {m' : Nat}, (s.map.remove appName).read n = some m' →
              n ≠ appName ∧ s.map.read n = some m' := by
            intro n m' hn
            by_cases hname : n = appName
            · rw [hname, Files.read_remove_self] at hn
              contradiction
            · rw [Files.read_remove_ne _ hname] at hn
              exact ⟨hname, hn⟩
          refine ⟨fun a ha => ?_, fun n m' hn => ?_, fun n n' m' hn hn' => ?_, fun n m' hn => ?_,
            h.serials, h.issued⟩
          · have hname : a.appName ≠ appName := by
              intro hname
              have hmapped := h.mapped a ha
              rw [hname, hread] at hmapped
              exact hnone a ha (Option.some.inj hmapped).symm
            exact (Files.read_remove_ne _ hname).trans (h.mapped a ha)
          · obtain ⟨hname, hold⟩ := hother hn
            have hm : m' ≠ m := by
              rintro rfl
              exact hname (h.injective n appName m' hold hread)
            exact (Function.update_of_ne hm _ _).trans (h.count n m' hold)
          · exact h.injective n n' m' (hother hn).2 (hother hn').2
          · exact h.bound n m' (hother hn).2
  · exact hsame

/-- The next serial is in no handle. -/
theorem Counted.serials_cons (h : s.Counted) (n : String) (m : Nat) :
    ((⟨s.freshSerial, n, m⟩ :: s.handles).map Handle.serial).Nodup := by
  refine List.nodup_cons.mpr ⟨fun hmem => ?_, h.serials⟩
  obtain ⟨a, ha, hserial⟩ := List.mem_map.mp hmem
  exact absurd (h.issued a ha) (by rw [hserial]; exact Nat.lt_irrefl _)

theorem Counted.issued_cons (h : s.Counted) (n : String) (m : Nat) :
    ∀ a ∈ (⟨s.freshSerial, n, m⟩ : Handle) :: s.handles, a.serial < s.freshSerial + 1 := by
  intro a ha
  rcases List.mem_cons.mp ha with rfl | ha
  · exact Nat.lt_succ_self _
  · exact Nat.lt_succ_of_lt (h.issued a ha)

/-- A handle more on a mutex that the map has. -/
theorem Counted.clone {n : String} {m : Nat} (h : s.Counted) (hread : s.map.read n = some m) :
    Counted { s with
      strong := Function.update s.strong m (s.strong m + 1)
      handles := ⟨s.freshSerial, n, m⟩ :: s.handles
      call := none
      freshSerial := s.freshSerial + 1 } := by
  refine ⟨fun a ha => ?_, fun n' m' hn => ?_, h.injective, h.bound, h.serials_cons n m,
    h.issued_cons n m⟩
  · rcases List.mem_cons.mp ha with rfl | ha
    · exact hread
    · exact h.mapped a ha
  · show Function.update s.strong m (s.strong m + 1) m' = _
    rw [List.countP_cons]
    by_cases hm : m' = m
    · subst hm
      have hcount := h.count n' m' hn
      simp
      omega
    · have hm' : ¬ m = m' := fun heq => hm heq.symm
      rw [Function.update_of_ne hm, h.count n' m' hn]
      simp [hm']

/-- A name that the map lacks gets a mutex that nobody has a handle on. -/
theorem Counted.insert {n : String} (h : s.Counted) (hread : s.map.read n = none) :
    Counted { s with
      map := s.map.write n s.freshMutex
      strong := Function.update s.strong s.freshMutex 2
      handles := ⟨s.freshSerial, n, s.freshMutex⟩ :: s.handles
      call := none
      freshMutex := s.freshMutex + 1
      freshSerial := s.freshSerial + 1 } := by
  have hnew : ∀ {n' : String} {m : Nat}, (s.map.write n s.freshMutex).read n' = some m →
      (n' = n ∧ m = s.freshMutex) ∨ s.map.read n' = some m := by
    intro n' m hn
    by_cases hname : n' = n
    · subst hname
      rw [Files.read_write_self] at hn
      exact .inl ⟨rfl, (Option.some.inj hn).symm⟩
    · rw [Files.read_write_ne _ _ hname] at hn
      exact .inr hn
  have hunused : ∀ a ∈ s.handles, a.mutex < s.freshMutex := fun a ha =>
    h.bound _ _ (h.mapped a ha)
  refine ⟨fun a ha => ?_, fun n₁ m hn => ?_, fun n₁ n₂ m hn hn' => ?_, fun n₁ m hn => ?_,
    h.serials_cons _ _, h.issued_cons _ _⟩
  · rcases List.mem_cons.mp ha with rfl | ha
    · exact Files.read_write_self _ _ _
    · have hname : a.appName ≠ n := by
        intro hname
        have hmapped := h.mapped a ha
        rw [hname, hread] at hmapped
        contradiction
      exact (Files.read_write_ne _ _ hname).trans (h.mapped a ha)
  · show Function.update s.strong s.freshMutex 2 m = _
    rw [List.countP_cons]
    rcases hnew hn with ⟨-, rfl⟩ | hold
    · have hzero : s.handles.countP (·.mutex == s.freshMutex) = 0 := by
        refine List.countP_eq_zero.mpr fun a ha => ?_
        have hlt := hunused a ha
        simp
        omega
      simp [hzero]
    · have hlt := h.bound n₁ m hold
      have hne : m ≠ s.freshMutex := by omega
      have hne' : ¬ s.freshMutex = m := by omega
      rw [Function.update_of_ne hne, h.count n₁ m hold]
      simp [hne']
  · rcases hnew hn with ⟨rfl, rfl⟩ | hold
    · rcases hnew hn' with ⟨rfl, -⟩ | hold'
      · rfl
      · exact absurd (h.bound n₂ _ hold') (Nat.lt_irrefl _)
    · rcases hnew hn' with ⟨rfl, rfl⟩ | hold'
      · exact absurd (h.bound n₁ _ hold) (Nat.lt_irrefl _)
      · exact h.injective n₁ n₂ m hold hold'
  · rcases hnew hn with ⟨-, rfl⟩ | hold
    · exact Nat.lt_succ_self _
    · exact Nat.lt_succ_of_lt (h.bound n₁ m hold)

/-- A call that is through with the eviction clones the entry or adds one. -/
theorem Counted.finish (h : s.Counted) (call : MutexCall) : (s.finish call).Counted := by
  unfold Mutexes.finish
  split
  · next hread => exact h.clone hread
  · next hread => exact h.insert hread

theorem Counted.drop {a : Handle} (h : s.Counted) (ha : a ∈ s.handles) :
    Counted { s with
      handles := s.handles.erase a
      strong := Function.update s.strong a.mutex (s.strong a.mutex - 1) } := by
  have hsub : ∀ b ∈ s.handles.erase a, b ∈ s.handles := fun b hb => List.mem_of_mem_erase hb
  refine ⟨fun b hb => h.mapped b (hsub b hb), fun n m hn => ?_, h.injective, h.bound, ?_,
    fun b hb => h.issued b (hsub b hb)⟩
  · show Function.update s.strong a.mutex (s.strong a.mutex - 1) m = _
    have hcount := h.count n m hn
    rw [List.countP_erase]
    by_cases hm : m = a.mutex
    · subst hm
      have hpos : 0 < s.handles.countP (·.mutex == a.mutex) :=
        List.countP_pos_iff.mpr ⟨a, ha, by simp⟩
      simp [ha]
      omega
    · have hm' : ¬ a.mutex = m := fun heq => hm heq.symm
      rw [Function.update_of_ne hm, hcount]
      simp [hm']
  · exact h.serials.sublist (List.erase_sublist.map _)

theorem Counted.next {a : MutexAction} (h : s.Counted) (henabled : s.Enabled a) :
    (s.next a).Counted := by
  obtain ⟨t, ht⟩ := Option.isSome_iff_exists.mp henabled
  rw [Mutexes.next, ht, Option.getD_some]
  have hlocks : ∀ {owner : Nat → Option Nat}, Counted { s with owner } := fun {owner} =>
    ⟨h.mapped, h.count, h.injective, h.bound, h.serials, h.issued⟩
  cases a with
  | enter appName =>
      simp only [step, Option.ite_none_right_eq_some, Option.some.injEq] at ht
      obtain ⟨-, rfl⟩ := ht
      exact ⟨h.mapped, h.count, h.injective, h.bound, h.serials, h.issued⟩
  | visit appName =>
      unfold step at ht
      dsimp only at ht
      split at ht
      · next call hcall =>
          simp only [Option.ite_none_right_eq_some, Option.some.injEq] at ht
          obtain ⟨-, rfl⟩ := ht
          exact h.visit appName call
      · contradiction
  | finish =>
      unfold step at ht
      dsimp only at ht
      split at ht
      · next call hcall =>
          simp only [Option.ite_none_right_eq_some, Option.some.injEq] at ht
          obtain ⟨-, rfl⟩ := ht
          exact h.finish call
      · contradiction
  | lock a =>
      simp only [step, Option.ite_none_right_eq_some, Option.some.injEq] at ht
      obtain ⟨-, rfl⟩ := ht
      exact hlocks
  | unlock a =>
      simp only [step, Option.ite_none_right_eq_some, Option.some.injEq] at ht
      obtain ⟨-, rfl⟩ := ht
      exact hlocks
  | drop a =>
      simp only [step, Option.ite_none_right_eq_some, Option.some.injEq] at ht
      obtain ⟨⟨ha, -⟩, rfl⟩ := ht
      exact h.drop ha

end Mutexes

/-- The mutex of an application excludes, however calls, evictions, locks and drops
follow each other. -/
theorem mutexes_exclusive (s : Mutexes)
    (hrun : Reaches Mutexes.next Mutexes.Enabled Mutexes.init s) : s.Exclusive :=
  (hrun.invariant Mutexes.counted_init fun _ _ h ha => h.next ha).exclusive

/-- Two calls for one application; the first handle is locked. -/
theorem mutexes_exclusive_sample :
    (final Mutexes.next Mutexes.init [.enter "app", .finish, .enter "app", .finish,
      .lock ⟨0, "app", 0⟩]).Exclusive := by
  have hrun : Permitted Mutexes.next Mutexes.Enabled Mutexes.init
      [.enter "app", .finish, .enter "app", .finish, .lock ⟨0, "app", 0⟩] := by decide
  exact mutexes_exclusive _ hrun.reaches

end Deltaship
