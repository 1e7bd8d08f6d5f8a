import Deltaship.Client.Authenticity
import Deltaship.Client.Commands
import Deltaship.Lib.Runs

/-!
# Deltaship.Client.Breaker

The circuit breaker of the daemon: how long it sleeps after its cycles.

The count of failed cycles is kept in memory and in the configuration table, with the time
of the last failure, and is loaded again when the daemon is started.  A cycle counts as
failed if the update lock cannot be taken or the binaries cannot be listed;
`check_and_apply_updates` only logs that an update check or an update failed.
-/

namespace Deltaship

open Runs Prog

/-! ## the configuration table -/

/-- `client_config`. -/
abbrev ConfigTable : Type := String → Option String

/-- `CIRCUIT_BREAKER_FAILURES_KEY`. -/
def circuitBreakerFailuresKey : String := "daemon_consecutive_failures"

/-- `CIRCUIT_BREAKER_TIMESTAMP_KEY`. -/
def circuitBreakerTimestampKey : String := "daemon_failures_timestamp"

/-- Which of the two calls for the count and for the timestamp fail. -/
structure ConfigFaults where
  count : Bool
  timestamp : Bool
deriving DecidableEq, Repr

/-- No call fails. -/
def ConfigFaults.none : ConfigFaults := ⟨false, false⟩

/-- The value `get_config` finds, if it finds one. -/
def getConfig (fails : Bool) (t : ConfigTable) (key : String) : Option String :=
  if fails then .none else t key

/-- The table after `set_config`. -/
def setConfig (fails : Bool) (t : ConfigTable) (key value : String) : ConfigTable :=
  if fails then t else fun k => if k = key then some value else t k

/-- Save a count and a timestamp. -/
def saveBreaker (faults : ConfigFaults) (t : ConfigTable) (count timestamp : String) :
    ConfigTable :=
  setConfig faults.timestamp (setConfig faults.count t circuitBreakerFailuresKey count)
    circuitBreakerTimestampKey timestamp

/-! ## the daemon -/

/-- `u32::MAX`. -/
def u32Max : Nat := 2 ^ 32 - 1

/-- `MAX_BACKOFF_MULTIPLIER`. -/
def maxBackoffMultiplier : Nat := 16

/-- `CIRCUIT_BREAKER_EXPIRATION_SECS`. -/
def circuitBreakerExpirationSecs : Nat := 24 * 60 * 60

/-- The seconds since the epoch that a clock shows; they fit into an `i64`. -/
abbrev UnixSecs : Type := Fin (2 ^ 63)

inductive DaemonStatus where
  /-- Before the first cycle. -/
  | started
  | sleeping (secs : Nat)
  /-- The sleep does not fit into a `Duration`. -/
  | panicked
deriving DecidableEq, Repr

/-- The daemon and what it leaves behind when it ends. -/
structure Daemon where
  world : World
  config : ConfigTable
  consecutiveFailures : Nat
  status : DaemonStatus

/-- What a start of the daemon meets. -/
structure StartInput where
  clock : UnixSecs
  reads : ConfigFaults
  writes : ConfigFaults

/-- What a cycle of the daemon meets; the clock is read at its end. -/
structure CycleInput where
  env : Env
  clock : UnixSecs
  writes : ConfigFaults
  /-- Whether `delete_expired_backups` fails. -/
  keepExpired : Bool

/-- The count that `run_daemon` starts with, and the table behind it. -/
def loadFailures (i : StartInput) (t : ConfigTable) : Nat × ConfigTable :=
  match getConfig i.reads.count t circuitBreakerFailuresKey with
  | some value =>
    let failures := (Text.parseUnsigned (2 ^ 32) value.toList).getD 0
    if 0 < failures then
      match getConfig i.reads.timestamp t circuitBreakerTimestampKey with
      | some timestampStr =>
        match Text.parseSigned (2 ^ 63) timestampStr.toList with
        | some timestamp =>
          if (circuitBreakerExpirationSecs : Int) < i.clock.val - timestamp then
            (0, saveBreaker i.writes t "0" "0")
          else (failures, t)
        | none => (0, t)
      | none => (0, t)
    else (failures, t)
  | none => (0, t)

/-- `2u32.saturating_pow`. -/
def saturatingPowTwo (n : Nat) : Nat := if n < 32 then 2 ^ n else u32Max

/-- `backoff_multiplier`. -/
def backoffMultiplier (failures : Nat) : Nat :=
  if failures = 0 then 1 else min (saturatingPowTwo (failures - 1)) maxBackoffMultiplier

/-- `base_interval * backoff_multiplier`. -/
def sleepFor (base multiplier : Nat) : DaemonStatus :=
  if base * multiplier < 2 ^ 64 then .sleeping (base * multiplier) else .panicked

namespace Daemon

/-- The start of `run_daemon`. -/
def start (i : StartInput) (d : Daemon) : Daemon :=
  let (failures, config) := loadFailures i d.config
  { d with config, consecutiveFailures := failures, status := .started }

/-- The counter and the table after a cycle. -/
def count (c : CycleInput) (cycleFailed : Bool) (d : Daemon) : Nat × ConfigTable :=
  if cycleFailed then
    let failures := min (d.consecutiveFailures + 1) u32Max
    (failures, saveBreaker c.writes d.config (toString failures) (toString c.clock.val))
  else
    (0, if 0 < d.consecutiveFailures then saveBreaker c.writes d.config "0" "0" else d.config)

/-- A pass of the loop of `run_daemon`, with `check_interval_secs`. -/
def cycle (X : Crates) (base : Nat) (c : CycleInput) (d : Daemon) : Daemon :=
  let (result, w) := exec (daemonCycle X c.env) d.world
  let w := w.settle
  let db :=
    if c.keepExpired then w.db else w.db.deleteExpiredBackups (X.chrono.format c.env.now)
  let (failures, config) := d.count c (result matches .ok true)
  { world := { w with db }
    config
    consecutiveFailures := failures
    status := sleepFor base (backoffMultiplier failures) }

end Daemon

/-! ## runs -/

section Failures

variable (X : Crates) (e : Env)

/-- The update check of an auto-update binary fails, or the update. -/
def binaryFailed (binary : ManagedBinary) (w : World) : Bool :=
  binary.autoUpdate &&
    match exec (checkForUpdates X e binary) (exec (recordCheck e binary) w).2 with
    | (.error _, _) => true
    | (.ok none, _) => false
    | (.ok (some upd), w₁) =>
      !refusesDowngrade X.semver binary.currentVersionString upd.version &&
        !(exec (applyUpdate X e binary upd) w₁).1.isOk

/-- One of the binaries fails, when each is handled in turn. -/
def anyFailed : List ManagedBinary → World → Bool
  | [], _ => false
  | binary :: rest, w =>
    binaryFailed X e binary w || anyFailed rest (exec (checkAndApply X e binary) w).2

/-- The update lock cannot be taken. -/
def lockFailed (w : World) : Bool := !(exec (acquireUpdateLock e) w).1.isOk

/-- The binaries can be listed, and none of them fails. -/
def CycleClean (w : World) : Prop :=
  let w₁ := (exec (acquireUpdateLock e) w).2
  e.faults .listBinaries = none ∧ anyFailed X e w₁.db.listBinaries w₁ = false

/-- The cycle does not get the update lock, or an update check or an update of an
auto-update binary fails. -/
def hadFailure (w : World) : Bool :=
  let w₁ := (exec (acquireUpdateLock e) w).2
  lockFailed e w ||
    ((e.faults .listBinaries).isNone && anyFailed X e w₁.db.listBinaries w₁)

end Failures

/-- A daemon that may be restarted, and its history. -/
structure DaemonRun where
  daemon : Daemon
  /-- Which cycles had a failure, from the last to the first. -/
  cycles : List Bool
  /-- When the last one of them ended. -/
  failedAt : Nat

inductive DaemonEvent where
  | cycle (c : CycleInput)
  | restart (i : StartInput)

namespace DaemonRun

/-- A daemon that was never started before. -/
def init (w : World) : DaemonRun := ⟨⟨w, fun _ => none, 0, .started⟩, [], 0⟩

/-- How many cycles in a row had a failure, up to the last one. -/
def streak (r : DaemonRun) : Nat := (r.cycles.takeWhile id).length

section Steps

variable (X : Crates) (base : Nat)

/-- The run after a cycle. -/
def cycle (r : DaemonRun) (c : CycleInput) : DaemonRun :=
  let failed := hadFailure X c.env r.daemon.world
  { daemon := r.daemon.cycle X base c
    cycles := failed :: r.cycles
    failedAt := if failed then c.clock else r.failedAt }

/-- The run after an event.  A daemon that panicked has no more cycles. -/
def next (r : DaemonRun) : DaemonEvent → DaemonRun
  | .cycle c => if r.daemon.status = .panicked then r else r.cycle X base c
  | .restart i => { r with daemon := r.daemon.start i }

/-- The sleep that a number of cycles with a failure in a row calls for. -/
def backoff (k : Nat) : Nat := if k = 0 then base else base * min (2 ^ (k - 1)) 16

/-- The daemon is not restarted later than a day after the last failure. -/
def WithinDay (r : DaemonRun) : DaemonEvent → Prop
  | .cycle _ => True
  | .restart i => 0 < r.streak → i.clock < r.failedAt + 24 * 60 * 60

/-- A cycle that gets the update lock can list the binaries and has no failure, its sleep
can be represented, and the count is saved and loaded. -/
def Counted (r : DaemonRun) : DaemonEvent → Prop
  | .cycle c => (lockFailed c.env r.daemon.world = true ∨ CycleClean X c.env r.daemon.world) ∧
      backoff base (r.cycle X base c).streak < 2 ^ 64 ∧ c.writes = .none
  | .restart i => i.reads = .none

end Steps

end DaemonRun

/-! ## what a cycle counts -/

section Cycle

variable {X : Crates} {e : Env} {w : World}

/-- Nothing that fails for one binary ends a cycle. -/
theorem wp_checkAndApply {binary : ManagedBinary} :
    wp (checkAndApply X e binary) (fun _ _ => True) (fun _ _ => False) w := by
  unfold checkAndApply
  split
  · trivial
  · simp only [recordCheck, wp_bind, wp_ignore, wp_attempt]
    refine wp_mono (fun upd w₁ _ => ?_) (fun err w₁ _ => trivial)
      (wp_of_exec_snd (P := fun _ => True) trivial)
    cases upd with
    | none => trivial
    | some upd =>
        dsimp only
        split
        · trivial
        · simp only [wp_ignore]

/-- The binaries are updated one after the other, and none of them stops the others. -/
theorem wp_forEach_checkAndApply (binaries : List ManagedBinary) :
    ∀ w, wp (forEach (checkAndApply X e) binaries) (fun _ _ => True) (fun _ _ => False) w := by
  induction binaries with
  | nil => exact fun w => trivial
  | cons binary rest ih =>
      intro w
      simp only [forEach, wp_bind]
      exact wp_mono (fun _ w₁ _ => ih w₁) (fun _ _ h => h) wp_checkAndApply

/-- A round fails exactly if the binaries cannot be listed. -/
theorem isOk_checkAndApplyUpdates :
    (exec (checkAndApplyUpdates X e) w).1.isOk = (e.faults .listBinaries).isNone := by
  unfold checkAndApplyUpdates guardIo
  cases hfault : e.faults .listBinaries with
  | some f => rfl
  | none =>
      have hwp := wp_forEach_checkAndApply (X := X) (e := e) w.db.listBinaries w
      rw [exec_bind, exec_pure]
      dsimp only
      rw [exec_bind, exec_get]
      dsimp only
      cases hresult : exec (forEach (checkAndApply X e) w.db.listBinaries) w with
      | mk r w' =>
          cases r with
          | ok _ => rfl
          | error err => exact absurd (wp_exec_error hwp hresult) id

/-- A cycle counts as failed if the lock cannot be taken or the binaries cannot be
listed. -/
theorem daemonCycle_fst :
    (exec (daemonCycle X e) w).1 = .ok (lockFailed e w || (e.faults .listBinaries).isSome) := by
  unfold daemonCycle lockFailed
  rw [exec_bind, exec_attempt]
  dsimp only
  cases hlock : (exec (acquireUpdateLock e) w).1 with
  | error err => rfl
  | ok _ =>
      dsimp only
      rw [exec_bind, exec_attempt]
      dsimp only
      have hlist := isOk_checkAndApplyUpdates (X := X) (e := e)
        (w := (exec (acquireUpdateLock e) w).2)
      cases hcheck : (exec (checkAndApplyUpdates X e) (exec (acquireUpdateLock e) w).2).1 with
      | ok _ =>
          rw [hcheck] at hlist
          have hnone := Option.isNone_iff_eq_none.mp hlist.symm
          rw [hnone]
          rfl
      | error err =>
          rw [hcheck] at hlist
          have hsome : (e.faults .listBinaries).isSome = true := by
            simpa [Except.isOk, Except.toBool] using hlist
          rw [hsome]
          rfl

/-- A cycle that gets the lock only without a failure is counted as it went. -/
theorem counted_eq_hadFailure
    (h : lockFailed e w = true ∨ CycleClean X e w) :
    (lockFailed e w || (e.faults .listBinaries).isSome) = hadFailure X e w := by
  unfold hadFailure
  rcases h with hlock | ⟨hlist, hnone⟩
  · simp [hlock]
  · simp [hlist, hnone]

end Cycle

/-! ## the law -/

/- What the daemon counts is compared with its history: the length of the streak of failing cycles
at the end of it. The count is saved with a time, and a restart reads it back unless that is too
long ago. -/

/-- The delay no longer grows from the largest count on. -/
theorem backoffMultiplier_min (base k : Nat) :
    base * backoffMultiplier (min k u32Max) = DaemonRun.backoff base k := by
  unfold backoffMultiplier DaemonRun.backoff
  by_cases hk : k = 0
  · simp [hk]
  · have hmin : min k u32Max ≠ 0 := by
      unfold u32Max
      omega
    rw [if_neg hmin, if_neg hk]
    congr 1
    unfold maxBackoffMultiplier saturatingPowTwo
    by_cases hsmall : k < 33
    · have hn : min k u32Max = k := Nat.min_eq_left (by unfold u32Max; omega)
      rw [hn, if_pos (by omega)]
    · -- both are far beyond the cap
      have hexp : 4 ≤ k - 1 := by omega
      have hbig : 16 ≤ 2 ^ (k - 1) := Nat.pow_le_pow_right (n := 2) (by decide) hexp
      rw [if_neg (by unfold u32Max; omega), Nat.min_eq_right (by decide),
        Nat.min_eq_right hbig]

/-- A delay that fits in the clock is slept as it is. -/
theorem sleepFor_eq {base multiplier : Nat} (h : base * multiplier < 2 ^ 64) :
    sleepFor base multiplier = .sleeping (base * multiplier) := if_pos h

/-- The counter and the table agree with the history. -/
structure Tracks (r : DaemonRun) : Prop where
  count : r.daemon.consecutiveFailures = min r.streak u32Max
  cleared : r.streak = 0 → ∀ value, r.daemon.config circuitBreakerFailuresKey = some value →
    (Text.parseUnsigned (2 ^ 32) value.toList).getD 0 = 0
  saved : 0 < r.streak →
    r.daemon.config circuitBreakerFailuresKey = some (toString (min r.streak u32Max)) ∧
    r.daemon.config circuitBreakerTimestampKey = some (toString r.failedAt)
  failedAt_lt : r.failedAt < 2 ^ 63
  alive : r.daemon.status ≠ .panicked

section Law

variable {X : Crates} {base : Nat} {r : DaemonRun}

/-- A daemon that has just been started has counted no failure. -/
theorem tracks_init (w : World) : Tracks (DaemonRun.init w) where
  count := rfl
  cleared _ value h := by contradiction
  saved h := by contradiction
  failedAt_lt := show 0 < 2 ^ 63 by decide
  alive h := by contradiction

@[simp] theorem saveBreaker_failures (t : ConfigTable) (count timestamp : String) :
    saveBreaker .none t count timestamp circuitBreakerFailuresKey = some count := rfl

@[simp] theorem saveBreaker_timestamp (t : ConfigTable) (count timestamp : String) :
    saveBreaker .none t count timestamp circuitBreakerTimestampKey = some timestamp := rfl

/-- A daemon that has not panicked goes through its cycle. -/
theorem DaemonRun.next_cycle {c : CycleInput} (h : r.daemon.status ≠ .panicked) :
    r.next X base (.cycle c) = r.cycle X base c := if_neg h

/-- A cycle with a failure makes the streak longer, and any other ends it. -/
theorem DaemonRun.streak_cycle (base : Nat) {c : CycleInput} :
    (r.cycle X base c).streak =
      if hadFailure X c.env r.daemon.world then r.streak + 1 else 0 := by
  unfold DaemonRun.streak DaemonRun.cycle
  dsimp only
  cases hadFailure X c.env r.daemon.world <;> rfl

/-- The counter and the table after a cycle that is counted as it went. -/
theorem count_cycle (base : Nat) {c : CycleInput}
    (h : lockFailed c.env r.daemon.world = true ∨ CycleClean X c.env r.daemon.world) :
    ((r.daemon.cycle X base c).consecutiveFailures, (r.daemon.cycle X base c).config) =
      r.daemon.count c (hadFailure X c.env r.daemon.world) := by
  have hfst := daemonCycle_fst (X := X) (e := c.env) (w := r.daemon.world)
  rw [counted_eq_hadFailure h] at hfst
  unfold Daemon.cycle
  dsimp only
  rw [hfst]
  cases hadFailure X c.env r.daemon.world <;> rfl

/-- The count follows the streak through a cycle whose failures are counted. -/
theorem Tracks.failures_cycle (h : Tracks r) (base : Nat) {c : CycleInput}
    (hcounted : lockFailed c.env r.daemon.world = true ∨ CycleClean X c.env r.daemon.world) :
    (r.daemon.cycle X base c).consecutiveFailures = min (r.cycle X base c).streak u32Max := by
  have hcount := congrArg Prod.fst (count_cycle base hcounted)
  dsimp only at hcount
  rw [hcount, DaemonRun.streak_cycle, Daemon.count]
  have hfailures := h.count
  cases hadFailure X c.env r.daemon.world with
  | false => rfl
  | true =>
      simp only [if_true]
      omega

/-- After a cycle the daemon sleeps as long as its history calls for. -/
theorem Tracks.status_cycle (h : Tracks r) {c : CycleInput}
    (hcounted : r.Counted X base (.cycle c)) :
    (r.cycle X base c).daemon.status =
      .sleeping (DaemonRun.backoff base (r.cycle X base c).streak) := by
  obtain ⟨hcounted, hfits, -⟩ := hcounted
  show sleepFor base (backoffMultiplier (r.daemon.cycle X base c).consecutiveFailures) = _
  rw [h.failures_cycle base hcounted]
  rw [← backoffMultiplier_min] at hfits ⊢
  exact sleepFor_eq hfits

/-- So what is counted stays right through such a cycle. -/
theorem Tracks.cycle (h : Tracks r) {c : CycleInput} (hcounted : r.Counted X base (.cycle c)) :
    Tracks (r.cycle X base c) := by
  have hstatus := h.status_cycle hcounted
  have hcount := h.failures_cycle base hcounted.1
  have hstreak := DaemonRun.streak_cycle (X := X) (r := r) (c := c) base
  have hconfig := congrArg Prod.snd (count_cycle base hcounted.1)
  have hwrites := hcounted.2.2
  dsimp only at hconfig
  refine ⟨hcount, fun hzero value hvalue => ?_, fun hpos => ?_, ?_, by simp [hstatus]⟩
  · -- without a failure the count is cleared, unless it was not set
    cases hfailed : hadFailure X c.env r.daemon.world with
    | true => simp [hstreak, hfailed] at hzero
    | false =>
        rw [hfailed, Daemon.count] at hconfig
        simp only [Bool.false_eq_true, if_false, hwrites] at hconfig
        have hvalue : (r.daemon.cycle X base c).config circuitBreakerFailuresKey = some value :=
          hvalue
        rw [hconfig] at hvalue
        split at hvalue
        · obtain rfl := Option.some.inj hvalue
          rfl
        · next hcleared =>
            have hbefore := h.count
            exact h.cleared (by unfold u32Max at hbefore; omega) value hvalue
  · cases hfailed : hadFailure X c.env r.daemon.world with
    | false => simp [hstreak, hfailed] at hpos
    | true =>
        rw [hfailed, Daemon.count] at hconfig
        simp only [if_true, hwrites] at hconfig
        have hfailedAt : (r.cycle X base c).failedAt = c.clock := if_pos hfailed
        have hn : min (r.daemon.consecutiveFailures + 1) u32Max =
            min (r.cycle X base c).streak u32Max := by
          rw [hstreak, hfailed, h.count, if_pos rfl]
          omega
        show (r.daemon.cycle X base c).config _ = _ ∧ (r.daemon.cycle X base c).config _ = _
        rw [hconfig, hfailedAt, hn]
        exact ⟨rfl, rfl⟩
  · show (if hadFailure X c.env r.daemon.world then c.clock.val else r.failedAt) < 2 ^ 63
    split
    · exact c.clock.isLt
    · exact h.failedAt_lt

/-- A daemon that is restarted in time goes on with its count. -/
theorem Tracks.loadFailures (h : Tracks r) {i : StartInput} (hreads : i.reads = .none)
    (hday : r.WithinDay (.restart i)) :
    loadFailures i r.daemon.config = (min r.streak u32Max, r.daemon.config) := by
  unfold Deltaship.loadFailures getConfig
  rw [hreads]
  simp only [ConfigFaults.none, Bool.false_eq_true, if_false]
  by_cases hzero : r.streak = 0
  · rw [hzero]
    cases hvalue : r.daemon.config circuitBreakerFailuresKey with
    | none => rfl
    | some value =>
        simp only [h.cleared hzero value hvalue, Nat.lt_irrefl, if_false]
        rfl
  · have hpos : 0 < r.streak := Nat.pos_of_ne_zero hzero
    obtain ⟨hcount, htimestamp⟩ := h.saved hpos
    have hmin : 0 < min r.streak u32Max ∧ min r.streak u32Max < 2 ^ 32 := by
      unfold u32Max
      omega
    have hage : ¬ (circuitBreakerExpirationSecs : Int) < i.clock.val - (r.failedAt : Int) := by
      have hclock : i.clock.val < r.failedAt + 24 * 60 * 60 := hday hpos
      unfold circuitBreakerExpirationSecs
      omega
    simp only [hcount, htimestamp, Text.parseUnsigned_toString hmin.2, Option.getD_some, hmin.1,
      if_true, Text.parseSigned_toString h.failedAt_lt, hage, if_false]

/-- It is read back at a restart within a day. -/
theorem Tracks.restart (h : Tracks r) {i : StartInput} (hreads : i.reads = .none)
    (hday : r.WithinDay (.restart i)) :
    Tracks { r with daemon := r.daemon.start i } := by
  have hload := h.loadFailures hreads hday
  have hconfig : (r.daemon.start i).config = r.daemon.config := by
    unfold Daemon.start
    rw [hload]
  have hfailures : (r.daemon.start i).consecutiveFailures = min r.streak u32Max := by
    unfold Daemon.start
    rw [hload]
  exact {
    count := hfailures
    cleared := fun hzero => by
      rw [hconfig]
      exact h.cleared hzero
    saved := fun hpos => by
      rw [hconfig]
      exact h.saved hpos
    failedAt_lt := h.failedAt_lt
    alive := fun hstatus => by contradiction }

theorem Tracks.next (h : Tracks r) {ev : DaemonEvent} (hday : r.WithinDay ev)
    (hcounted : r.Counted X base ev) : Tracks (r.next X base ev) := by
  cases ev with
  | cycle c =>
      rw [DaemonRun.next_cycle h.alive]
      exact h.cycle hcounted
  | restart i => exact h.restart hcounted hday

end Law

/-- In every run of the daemon, with restarts within a day of the last failure, the sleep
after a cycle doubles with each cycle in a row that had a failure, up to sixteen times the
interval, if no update check and no update fails in a cycle that gets the update lock. -/
theorem daemon_backs_off (X : Crates) (base : Nat) (w : World) (r : DaemonRun) (c : CycleInput)
    (hrun : Reaches (DaemonRun.next X base)
      (fun r ev => r.WithinDay ev ∧ r.Counted X base ev) (DaemonRun.init w) r)
    (hcycle : r.Counted X base (.cycle c)) :
    (r.next X base (.cycle c)).daemon.status =
      .sleeping (DaemonRun.backoff base (r.next X base (.cycle c)).streak) := by
  have htracks : Tracks r :=
    hrun.invariant (tracks_init w) fun r ev h hev => h.next hev.1 hev.2
  rw [DaemonRun.next_cycle htracks.alive]
  exact htracks.status_cycle hcycle

/-- A cycle of the sample client, with an update lock that cannot be opened or with a
server that knows nothing. -/
def sampleCycle (locked : Bool) (clock : UnixSecs) : CycleInput where
  env :=
    { sampleEnv [] with
      faults := fun site => if locked && site == .updateLock then some ⟨"denied", none⟩ else none }
  clock := clock
  writes := .none
  keepExpired := false

/-- The sample client after a cycle without the lock and a restart. -/
def sampleRestarted : DaemonRun :=
  ((DaemonRun.init sampleWorld).next sampleCrates 3600 (.cycle (sampleCycle true 0))).next
    sampleCrates 3600 (.restart ⟨3000, .none, .none⟩)

/-- The second cycle without the lock. -/
theorem daemon_backs_off_restarted :
    (sampleRestarted.next sampleCrates 3600 (.cycle (sampleCycle true 4000))).daemon.status =
      .sleeping 7200 := by
  have hfirst : Reaches (DaemonRun.next sampleCrates 3600)
      (fun r ev => r.WithinDay ev ∧ r.Counted sampleCrates 3600 ev)
      (DaemonRun.init sampleWorld) _ :=
    (Reaches.refl _).tail (a := DaemonEvent.cycle (sampleCycle true 0))
      ⟨trivial, .inl (by decide), by decide, rfl⟩
  have hrun : Reaches (DaemonRun.next sampleCrates 3600)
      (fun r ev => r.WithinDay ev ∧ r.Counted sampleCrates 3600 ev)
      (DaemonRun.init sampleWorld) sampleRestarted :=
    hfirst.tail (a := DaemonEvent.restart ⟨3000, .none, .none⟩)
      ⟨fun _ => (by decide : 3000 < 0 + 24 * 60 * 60), rfl⟩
  have hstatus := daemon_backs_off sampleCrates 3600 sampleWorld sampleRestarted
    (sampleCycle true 4000) hrun ⟨.inl (by decide), by decide, rfl⟩
  rw [hstatus]
  decide

/-- Two cycles in which the update check fails are followed by the usual sleep. -/
theorem failed_checks_not_counted :
    ¬ ∀ (X : Crates) (base : Nat) (w : World) (r : DaemonRun) (c : CycleInput),
      Reaches (DaemonRun.next X base) DaemonRun.WithinDay (DaemonRun.init w) r →
      (r.next X base (.cycle c)).daemon.status =
        .sleeping (DaemonRun.backoff base (r.next X base (.cycle c)).streak) := by
  intro h
  have hstatus := h sampleCrates 3600 sampleWorld _ (sampleCycle false 4000)
    ((Reaches.refl _).tail (a := DaemonEvent.cycle (sampleCycle false 0)) trivial)
  revert hstatus
  decide

end Deltaship
