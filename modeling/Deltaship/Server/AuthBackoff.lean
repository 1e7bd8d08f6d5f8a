import Deltaship.Lib.Runs
import Mathlib.Algebra.Group.Nat.Defs
import Mathlib.Data.Finset.Card
import Mathlib.Logic.Function.Basic

/-!
# Deltaship.Server.AuthBackoff

The backoff of clients that fail to authenticate.

`require_api_key` asks the limiter whether the address is blocked, verifies the key and
records a failure.  The limiter takes its mutex for each of these calls, so that requests
which come at the same time are all let through before the first failure is recorded.
-/

namespace Deltaship

open Runs

/-! ## the limiter -/

/-- `AUTH_FAILURE_THRESHOLD`. -/
def authFailureThreshold : Nat := 5

/-- `AUTH_BACKOFF_BASE_SECONDS`. -/
def authBackoffBaseSeconds : Nat := 60

/-- `MAX_AUTH_BACKOFF_SECONDS`. -/
def maxAuthBackoffSeconds : Nat := 600

/-- `AuthFailureEntry`, with times in nanoseconds. -/
structure AuthFailureEntry where
  failureCount : Nat
  backoffUntil : Option Nat
  lastAccess : Nat
deriving DecidableEq, Repr

namespace AuthFailureEntry

/-- The address is in a backoff period. -/
def inBackoff (now : Nat) (entry : AuthFailureEntry) : Bool :=
  entry.backoffUntil.any (now < ·)

/-- The seconds of a backoff period; the power and the product wrap in a release build. -/
def backoffSeconds (failureCount : Nat) : Nat :=
  let exponent := failureCount - authFailureThreshold
  let power := if exponent < 64 then 2 ^ exponent else 0
  min (authBackoffBaseSeconds * power % 2 ^ 64) maxAuthBackoffSeconds

/-- The `u32` counter after a failure. -/
def nextCount (entry : AuthFailureEntry) : Nat := (entry.failureCount + 1) % 2 ^ 32

/-- A failure begins a backoff period. -/
def startsBackoff (now : Nat) (entry : AuthFailureEntry) : Bool :=
  !entry.inBackoff now && decide (authFailureThreshold ≤ entry.nextCount)

/-- The entry that a failure finds. -/
def orNew (now : Nat) (entry : Option AuthFailureEntry) : AuthFailureEntry :=
  entry.getD ⟨0, none, now⟩

end AuthFailureEntry

open AuthFailureEntry

/-- `record_failure`: the entry, and whether the address is not in backoff. -/
def recordFailure (now : Nat) (entry : Option AuthFailureEntry) : AuthFailureEntry × Bool :=
  let entry := { orNew now entry with lastAccess := now }
  if entry.inBackoff now then (entry, false)
  else
    let failureCount := entry.nextCount
    if authFailureThreshold ≤ failureCount then
      (⟨failureCount, some (now + backoffSeconds failureCount * 10 ^ 9), now⟩, false)
    else (⟨failureCount, none, now⟩, true)

/-- `record_success`. -/
def recordSuccess (now : Nat) : Option AuthFailureEntry → Option AuthFailureEntry
  | none => none
  | some entry =>
    let failureCount := entry.failureCount - 1
    if failureCount = 0 then none else some ⟨failureCount, none, now⟩

/-- `is_blocked`. -/
def isBlocked (now : Nat) (entry : Option AuthFailureEntry) : Bool :=
  entry.any fun entry => entry.inBackoff now

/-! ## requests -/

/- A request looks at the limiter, verifies its key and records a failure in three separate steps,
with requests of all addresses between them. -/

/-- The `X-API-Key` header. -/
inductive Credential where
  | missing
  /-- `verify_api_key` finds no hash for it. -/
  | wrong
  | valid
deriving DecidableEq, Repr

structure AuthRequest where
  ip : String
  credential : Credential

inductive AuthAnswer where
  | passed
  | unauthorized
  | tooManyRequests
deriving DecidableEq, Repr

/-- Where a request is in `require_api_key`. -/
inductive AuthPhase where
  | start
  /-- It was not blocked. -/
  | checked
  /-- The key was verified, if there was one. -/
  | verified
  | answered (answer : AuthAnswer)
deriving DecidableEq, Repr

/-- The request is between `is_blocked` and the record of its outcome. -/
def AuthPhase.inFlight : AuthPhase → Bool
  | checked | verified => true
  | start | answered _ => false

variable {ι : Type}

/-- The limiter and the requests it sees. -/
structure AuthServer (ι : Type) where
  entries : String → Option AuthFailureEntry
  now : Nat
  phase : ι → AuthPhase
  /-- The backoff periods of an address that have begun. -/
  periods : String → Nat
  /-- The verifications for an address since the last of them began. -/
  verifications : String → Nat

namespace AuthServer

inductive Act (ι : Type) where
  | step (i : ι)
  | tick (nanos : Nat)
  /-- The cleanup task or an eviction removes an entry. -/
  | reclaim (ip : String)

/-- No request has come. -/
def init (now : Nat) : AuthServer ι := ⟨fun _ => none, now, fun _ => .start, fun _ => 0, fun _ => 0⟩

/-- The failures that are counted for an address. -/
def failures (s : AuthServer ι) (ip : String) : Nat :=
  (s.entries ip).elim 0 AuthFailureEntry.failureCount

/-- At most `AUTH_FAILURE_THRESHOLD` verifications until the first backoff period begins,
and at most one after each period, when it has expired. -/
structure Bounded (s : AuthServer ι) (ip : String) : Prop where
  first : s.periods ip = 0 → s.verifications ip ≤ authFailureThreshold
  later : 0 < s.periods ip → s.verifications ip ≤ 1 ∧
    (0 < s.verifications ip → isBlocked s.now (s.entries ip) = false)

section Steps

variable [DecidableEq ι] (requests : ι → AuthRequest)

/-- A request moves on. -/
def move (s : AuthServer ι) (i : ι) (phase : AuthPhase) : AuthServer ι :=
  { s with phase := Function.update s.phase i phase }

/-- The call of `is_blocked`. -/
def check (s : AuthServer ι) (i : ι) : AuthServer ι :=
  if isBlocked s.now (s.entries (requests i).ip) then s.move i (.answered .tooManyRequests)
  else s.move i .checked

/-- The verification of the key, if there is one. -/
def verify (s : AuthServer ι) (i : ι) : AuthServer ι :=
  let ip := (requests i).ip
  match (requests i).credential with
  | .missing => s.move i .verified
  | .wrong | .valid =>
    { s.move i .verified with
      verifications := Function.update s.verifications ip (s.verifications ip + 1) }

/-- The call of `record_failure`. -/
def fail (s : AuthServer ι) (i : ι) : AuthServer ι :=
  let ip := (requests i).ip
  let (entry, allowed) := recordFailure s.now (s.entries ip)
  let s' :=
    { s.move i (.answered (if allowed then .unauthorized else .tooManyRequests)) with
      entries := Function.update s.entries ip (some entry) }
  if (orNew s.now (s.entries ip)).startsBackoff s.now then
    { s' with
      periods := Function.update s.periods ip (s.periods ip + 1)
      verifications := Function.update s.verifications ip 0 }
  else s'

/-- The record of the outcome. -/
def record (s : AuthServer ι) (i : ι) : AuthServer ι :=
  let ip := (requests i).ip
  match (requests i).credential with
  | .valid =>
    { s.move i (.answered .passed) with
      entries := Function.update s.entries ip (recordSuccess s.now (s.entries ip)) }
  | .missing | .wrong => s.fail requests i

/-- The state after an action. -/
def next (s : AuthServer ι) : Act ι → AuthServer ι
  | .step i =>
    match s.phase i with
    | .start => s.check requests i
    | .checked => s.verify requests i
    | .verified => s.record requests i
    | .answered _ => s
  | .tick nanos => { s with now := s.now + nanos }
  | .reclaim ip => { s with entries := Function.update s.entries ip none }

/-- The requests of an address that are between `is_blocked` and the record of their
outcome. -/
def InFlight (s : AuthServer ι) (ip : String) (F : Finset ι) : Prop :=
  ∀ i, i ∈ F ↔ (requests i).ip = ip ∧ (s.phase i).inFlight = true

/-- The entry of the address is not reclaimed. -/
def Kept (ip : String) : Act ι → Prop
  | .reclaim ip' => ip' ≠ ip
  | .step _ | .tick _ => True

/-- A request of the address is let through while no other one is in flight, or while
those in flight would not complete the threshold; and the counter does not wrap. -/
def Orderly (ip : String) (s : AuthServer ι) : Act ι → Prop
  | .step i => (requests i).ip = ip →
    (s.phase i = .start → isBlocked s.now (s.entries ip) = false →
      ∃ F, InFlight requests s ip F ∧
        (F = ∅ ∨ s.failures ip + F.card < authFailureThreshold)) ∧
    (s.phase i = .verified → s.failures ip + 1 < 2 ^ 32)
  | .tick _ | .reclaim _ => True

end Steps

end AuthServer

/-! ## what is in flight -/

section InFlight

open AuthServer

variable [DecidableEq ι] {requests : ι → AuthRequest} {s : AuthServer ι} {ip : String} {i : ι}
  {F : Finset ι}

/-- The requests in flight that have verified their key. -/
def verifiedIn (s : AuthServer ι) (F : Finset ι) : Nat :=
  (F.filter fun j => s.phase j = .verified).card

omit [DecidableEq ι] in
theorem AuthServer.InFlight.eq {F' : Finset ι} (h : InFlight requests s ip F)
    (h' : InFlight requests s ip F') : F = F' := by
  ext i
  rw [h i, h' i]

/-- A request moves within the flight, joins it or leaves it. -/
theorem AuthServer.InFlight.move (h : InFlight requests s ip F) (hip : (requests i).ip = ip)
    (phase : AuthPhase) :
    InFlight requests (s.move i phase) ip (if phase.inFlight then insert i F else F.erase i) := by
  intro j
  by_cases hji : j = i
  · subst hji
    cases hphase : phase.inFlight <;> simp [AuthServer.move, hip, hphase]
  · cases hphase : phase.inFlight <;> simp [AuthServer.move, hji, h j]

/-- Requests of other addresses do not matter. -/
theorem AuthServer.InFlight.move_ne (h : InFlight requests s ip F) (hip : (requests i).ip ≠ ip)
    (phase : AuthPhase) : InFlight requests (s.move i phase) ip F := by
  intro j
  by_cases hji : j = i
  · subst hji
    simp [h j, hip]
  · simp [AuthServer.move, hji, h j]

/-- A request that is not among them does not count. -/
theorem verifiedIn_move_of_notMem (hi : i ∉ F) (phase : AuthPhase) :
    verifiedIn (s.move i phase) F = verifiedIn s F := by
  unfold verifiedIn
  congr 1
  refine Finset.filter_congr fun j hj => ?_
  have hji : j ≠ i := fun heq => hi (heq ▸ hj)
  simp [AuthServer.move, hji]

/-- One that was let in has not been verified yet. -/
theorem verifiedIn_insert_checked (hi : i ∉ F) :
    verifiedIn (s.move i .checked) (insert i F) = verifiedIn s F := by
  rw [← verifiedIn_move_of_notMem hi .checked]
  unfold verifiedIn
  rw [Finset.filter_insert, if_neg (by simp [AuthServer.move])]

/-- A guess that is verified counts one more. -/
theorem verifiedIn_verified (hi : i ∈ F) (hphase : s.phase i = .checked) :
    verifiedIn (s.move i .verified) F = verifiedIn s F + 1 := by
  unfold verifiedIn
  rw [← Finset.card_insert_of_notMem (a := i) (s := F.filter fun j => s.phase j = .verified)
    (by simp [hphase])]
  congr 1
  ext j
  rw [Finset.mem_insert, Finset.mem_filter, Finset.mem_filter]
  by_cases hji : j = i
  · subst hji
    simp [AuthServer.move, hi]
  · simp [AuthServer.move, hji]

/-- A guess that is answered counts no more. -/
theorem verifiedIn_erase (hi : i ∈ F) (hphase : s.phase i = .verified) (answer : AuthAnswer) :
    verifiedIn (s.move i (.answered answer)) (F.erase i) + 1 = verifiedIn s F := by
  rw [verifiedIn_move_of_notMem (Finset.notMem_erase i F)]
  unfold verifiedIn
  rw [Finset.filter_erase, Finset.card_erase_of_mem (by simp [hi, hphase])]
  have hpos : 0 < (F.filter fun j => s.phase j = .verified).card :=
    Finset.card_pos.mpr ⟨i, by simp [hi, hphase]⟩
  omega

end InFlight

/-! ## the bound -/

/- The invariant speaks of one address and has two parts. Up to the first backoff each verified
guess is a failure that is counted or a request still in flight; afterwards at most one request is
let through each time a period ends. The steps of other addresses leave both as they are. -/

section Bound

open AuthServer

variable {requests : ι → AuthRequest} {s : AuthServer ι} {ip : String} {i : ι} {F : Finset ι}

/-- Before the first backoff period every verification is a counted failure or still in
flight, and together they do not exceed the threshold. -/
structure BeforeBackoff (s : AuthServer ι) (ip : String) (F : Finset ι) : Prop where
  clear : ∀ entry, s.entries ip = some entry → entry.backoffUntil = none
  failures_lt : s.failures ip < authFailureThreshold
  inFlight : s.failures ip + F.card ≤ authFailureThreshold
  verifications : s.verifications ip ≤ s.failures ip + verifiedIn s F

/-- Later at most one request is in flight, and only if the period has expired. -/
structure AfterBackoff (s : AuthServer ι) (ip : String) (F : Finset ι) : Prop where
  entry : ∃ entry, s.entries ip = some entry ∧ authFailureThreshold ≤ entry.failureCount ∧
    ∃ t, entry.backoffUntil = some t ∧ (F.Nonempty → t ≤ s.now)
  inFlight : F.card ≤ 1
  verifications : s.verifications ip ≤ verifiedIn s F

/-- The invariant of the limiter. -/
def Guards (requests : ι → AuthRequest) (ip : String) (s : AuthServer ι) : Prop :=
  ∃ F, InFlight requests s ip F ∧
    (s.periods ip = 0 ∧ BeforeBackoff s ip F ∨ 0 < s.periods ip ∧ AfterBackoff s ip F)

theorem guards_init (now : Nat) : Guards requests ip (AuthServer.init now) := by
  refine ⟨∅, fun i => ?_, .inl ⟨rfl, ⟨fun entry h => by contradiction, ?_, ?_, ?_⟩⟩⟩
  · simp [AuthServer.init, AuthPhase.inFlight]
  · simp [AuthServer.init, failures, authFailureThreshold]
  · simp [AuthServer.init, failures]
  · simp [AuthServer.init]

/-- An address is blocked until its time has come. -/
theorem isBlocked_of_entry {now t : Nat} {entry : AuthFailureEntry}
    (ht : entry.backoffUntil = some t) : isBlocked now (some entry) = decide (now < t) := by
  simp [isBlocked, inBackoff, ht]

/-- No more guesses are verified than requests are in flight. -/
theorem verifiedIn_le_card (s : AuthServer ι) (F : Finset ι) : verifiedIn s F ≤ F.card :=
  Finset.card_filter_le _ _

theorem Guards.bounded (h : Guards requests ip s) : Bounded s ip := by
  obtain ⟨F, -, ⟨hperiods, hbefore⟩ | ⟨hperiods, hafter⟩⟩ := h
  · have hverified := hbefore.verifications
    have hflight := hbefore.inFlight
    have hle := verifiedIn_le_card s F
    exact ⟨fun _ => by omega, fun hpos => by omega⟩
  · refine ⟨fun hzero => by omega, fun _ => ⟨?_, fun hpos => ?_⟩⟩
    · have hverified := hafter.verifications
      have hflight := hafter.inFlight
      have hle := verifiedIn_le_card s F
      omega
    · obtain ⟨entry, hentry, -, t, ht, hexpired⟩ := hafter.entry
      have hne : F.Nonempty := by
        have hverified := hafter.verifications
        have hle := verifiedIn_le_card s F
        exact Finset.card_pos.mp (by omega)
      rw [hentry, isBlocked_of_entry ht]
      simpa using hexpired hne

/-- The invariant only looks at the address, and at time that passes. -/
theorem Guards.of_same {s' : AuthServer ι} {F' : Finset ι} (hF : InFlight requests s' ip F')
    (hcard : F'.card = F.card) (hverified : verifiedIn s' F' = verifiedIn s F)
    (hentries : s'.entries ip = s.entries ip) (hnow : s.now ≤ s'.now)
    (hperiods : s'.periods ip = s.periods ip)
    (hverifications : s'.verifications ip = s.verifications ip)
    (h : s.periods ip = 0 ∧ BeforeBackoff s ip F ∨ 0 < s.periods ip ∧ AfterBackoff s ip F) :
    Guards requests ip s' := by
  have hfailures : s'.failures ip = s.failures ip := by simp [failures, hentries]
  refine ⟨F', hF, ?_⟩
  rcases h with ⟨hzero, hbefore⟩ | ⟨hpos, hafter⟩
  · refine .inl ⟨hperiods.trans hzero, ?_⟩
    constructor
    · rw [hentries]
      exact hbefore.clear
    · rw [hfailures]
      exact hbefore.failures_lt
    · rw [hfailures, hcard]
      exact hbefore.inFlight
    · rw [hverifications, hfailures, hverified]
      exact hbefore.verifications
  · refine .inr ⟨hperiods ▸ hpos, ?_⟩
    obtain ⟨entry, hentry, hcount, t, ht, hexpired⟩ := hafter.entry
    constructor
    · refine ⟨entry, hentries.trans hentry, hcount, t, ht, fun hne => ?_⟩
      have hne : F.Nonempty := Finset.card_pos.mp (hcard ▸ Finset.card_pos.mpr hne)
      exact (hexpired hne).trans hnow
    · rw [hcard]
      exact hafter.inFlight
    · rw [hverifications, hverified]
      exact hafter.verifications

variable [DecidableEq ι]

/-- What a request does that is none of the address. -/
theorem next_elsewhere (hip : (requests i).ip ≠ ip) :
    ∃ phase, (s.next requests (.step i)).phase = (s.move i phase).phase ∧
      (s.next requests (.step i)).entries ip = s.entries ip ∧
      (s.next requests (.step i)).now = s.now ∧
      (s.next requests (.step i)).periods ip = s.periods ip ∧
      (s.next requests (.step i)).verifications ip = s.verifications ip := by
  have hne : ip ≠ (requests i).ip := fun h => hip h.symm
  cases hphase : s.phase i with
  | start =>
      simp only [AuthServer.next, hphase, check]
      split
      · exact ⟨_, rfl, rfl, rfl, rfl, rfl⟩
      · exact ⟨_, rfl, rfl, rfl, rfl, rfl⟩
  | checked =>
      simp only [AuthServer.next, hphase, verify]
      split
      · exact ⟨_, rfl, rfl, rfl, rfl, rfl⟩
      all_goals exact ⟨_, rfl, rfl, rfl, rfl, Function.update_of_ne hne _ _⟩
  | verified =>
      simp only [AuthServer.next, hphase, record, fail]
      split
      · exact ⟨_, rfl, Function.update_of_ne hne _ _, rfl, rfl, rfl⟩
      all_goals
        split
        · exact ⟨_, rfl, Function.update_of_ne hne _ _, rfl, Function.update_of_ne hne _ _,
            Function.update_of_ne hne _ _⟩
        · exact ⟨_, rfl, Function.update_of_ne hne _ _, rfl, rfl, rfl⟩
  | answered answer =>
      have hsame : s.next requests (.step i) = s := by simp only [AuthServer.next, hphase]
      rw [hsame]
      exact ⟨s.phase i, (Function.update_eq_self i s.phase).symm, rfl, rfl, rfl, rfl⟩

theorem Guards.next_ne (h : Guards requests ip s) (hip : (requests i).ip ≠ ip) :
    Guards requests ip (s.next requests (.step i)) := by
  obtain ⟨F, hF, hstate⟩ := h
  obtain ⟨phase, hphase, hentries, hnow, hperiods, hverifications⟩ :=
    next_elsewhere (s := s) hip
  have hi : i ∉ F := fun hmem => hip ((hF i).mp hmem).1
  have hF' : InFlight requests (s.next requests (.step i)) ip F := by
    unfold InFlight
    rw [hphase]
    exact hF.move_ne hip phase
  have hverified : verifiedIn (s.next requests (.step i)) F = verifiedIn s F := by
    unfold verifiedIn
    rw [hphase]
    exact verifiedIn_move_of_notMem hi phase
  exact .of_same hF' rfl hverified hentries hnow.ge hperiods hverifications hstate

/-- A request that is blocked. -/
theorem Guards.blocked (h : Guards requests ip s) (hip : (requests i).ip = ip)
    (hphase : s.phase i = .start) (answer : AuthAnswer) :
    Guards requests ip (s.move i (.answered answer)) := by
  obtain ⟨F, hF, hstate⟩ := h
  have hi : i ∉ F := fun hmem => by
    have hflight := ((hF i).mp hmem).2
    rw [hphase] at hflight
    contradiction
  have hF' := hF.move hip (.answered answer)
  simp only [AuthPhase.inFlight, Bool.false_eq_true, if_false, Finset.erase_eq_of_notMem hi] at hF'
  exact .of_same hF' rfl (verifiedIn_move_of_notMem hi _) rfl (Nat.le_refl _) rfl rfl hstate

/-- A request that is let through. -/
theorem Guards.checked (h : Guards requests ip s) (hip : (requests i).ip = ip)
    (hphase : s.phase i = .start) (hblocked : isBlocked s.now (s.entries ip) = false)
    (horderly : ∃ F, InFlight requests s ip F ∧
      (F = ∅ ∨ s.failures ip + F.card < authFailureThreshold)) :
    Guards requests ip (s.move i .checked) := by
  obtain ⟨F, hF, hstate⟩ := h
  obtain ⟨F', hF', hroom⟩ := horderly
  obtain rfl := hF'.eq hF
  have hi : i ∉ F' := fun hmem => by
    have hflight := ((hF i).mp hmem).2
    rw [hphase] at hflight
    contradiction
  have hmoved := hF.move hip .checked
  simp only [AuthPhase.inFlight, if_true] at hmoved
  have hcard := Finset.card_insert_of_notMem hi
  have hverified := verifiedIn_insert_checked (s := s) hi
  refine ⟨_, hmoved, ?_⟩
  rcases hstate with ⟨hzero, hbefore⟩ | ⟨hpos, hafter⟩
  · refine .inl ⟨hzero, ⟨hbefore.clear, hbefore.failures_lt, ?_, ?_⟩⟩
    · have hlt := hbefore.failures_lt
      show s.failures ip + _ ≤ _
      rw [hcard]
      rcases hroom with rfl | hroom
      · rw [Finset.card_empty]
        exact hlt
      · omega
    · rw [hverified]
      exact hbefore.verifications
  · obtain ⟨entry, hentry, hcount, t, ht, -⟩ := hafter.entry
    have hfailures : s.failures ip = entry.failureCount := by simp [failures, hentry]
    -- the threshold is reached, so nothing else is in flight
    have hempty : F' = ∅ := by
      rcases hroom with hempty | hroom
      · exact hempty
      · omega
    rw [hentry, isBlocked_of_entry ht] at hblocked
    have hexpired : t ≤ s.now := by simpa using hblocked
    refine .inr ⟨hpos, ⟨⟨entry, hentry, hcount, t, ht, fun _ => hexpired⟩, ?_, ?_⟩⟩
    · rw [hcard, hempty]
      simp
    · rw [hverified]
      exact hafter.verifications

/-- A request whose key is verified, if it has one. -/
theorem Guards.verified (h : Guards requests ip s) (hip : (requests i).ip = ip)
    (hphase : s.phase i = .checked) :
    Guards requests ip (s.verify requests i) := by
  obtain ⟨F, hF, hstate⟩ := h
  have hi : i ∈ F := (hF i).mpr ⟨hip, by rw [hphase]; rfl⟩
  have hmoved := hF.move hip .verified
  simp only [AuthPhase.inFlight, if_true, Finset.insert_eq_of_mem hi] at hmoved
  have hverified := verifiedIn_verified hi hphase
  -- at most one verification is added
  have hverify : ∃ n ≤ s.verifications ip + 1, s.verify requests i =
      { s.move i .verified with verifications := Function.update s.verifications ip n } := by
    unfold verify
    split
    · exact ⟨s.verifications ip, Nat.le_succ _, by rw [Function.update_eq_self]; rfl⟩
    all_goals exact ⟨_, Nat.le_refl _, by rw [hip]⟩
  obtain ⟨n, hn, hverify⟩ := hverify
  rw [hverify]
  refine ⟨F, hmoved, ?_⟩
  rcases hstate with ⟨hzero, hbefore⟩ | ⟨hpos, hafter⟩
  · refine .inl ⟨hzero, ⟨hbefore.clear, hbefore.failures_lt, hbefore.inFlight, ?_⟩⟩
    have hle := hbefore.verifications
    show Function.update s.verifications ip n ip ≤ s.failures ip + verifiedIn (s.move i _) F
    rw [Function.update_self, hverified]
    omega
  · refine .inr ⟨hpos, ⟨hafter.entry, hafter.inFlight, ?_⟩⟩
    have hle := hafter.verifications
    show Function.update s.verifications ip n ip ≤ verifiedIn (s.move i _) F
    rw [Function.update_self, hverified]
    omega

omit [DecidableEq ι] in
/-- A failure counts one more, as long as the counter does not wrap around. -/
theorem nextCount_orNew (hwrap : s.failures ip + 1 < 2 ^ 32) :
    (orNew s.now (s.entries ip)).nextCount = s.failures ip + 1 := by
  unfold nextCount orNew failures
  unfold failures at hwrap
  cases hentry : s.entries ip with
  | none => rfl
  | some entry =>
      rw [hentry] at hwrap
      exact Nat.mod_eq_of_lt hwrap

/-- A failure below the threshold. -/
theorem fail_of_lt (hip : (requests i).ip = ip) (hwrap : s.failures ip + 1 < 2 ^ 32)
    (hback : (orNew s.now (s.entries ip)).inBackoff s.now = false)
    (hlt : s.failures ip + 1 < authFailureThreshold) :
    s.fail requests i =
      { s.move i (.answered .unauthorized) with
        entries := Function.update s.entries ip (some ⟨s.failures ip + 1, none, s.now⟩) } := by
  have hcount := nextCount_orNew hwrap
  subst hip
  have hback' : ({ orNew s.now (s.entries (requests i).ip) with lastAccess := s.now } :
      AuthFailureEntry).inBackoff s.now = false := hback
  have hcount' : ({ orNew s.now (s.entries (requests i).ip) with lastAccess := s.now } :
      AuthFailureEntry).nextCount = s.failures (requests i).ip + 1 := hcount
  simp [fail, recordFailure, startsBackoff, hback, hback', hcount, hcount', Nat.not_le.mpr hlt]

/-- A failure that begins a backoff period. -/
theorem fail_of_le (hip : (requests i).ip = ip) (hwrap : s.failures ip + 1 < 2 ^ 32)
    (hback : (orNew s.now (s.entries ip)).inBackoff s.now = false)
    (hle : authFailureThreshold ≤ s.failures ip + 1) :
    ∃ t, s.fail requests i =
      { s.move i (.answered .tooManyRequests) with
        entries := Function.update s.entries ip (some ⟨s.failures ip + 1, some t, s.now⟩)
        periods := Function.update s.periods ip (s.periods ip + 1)
        verifications := Function.update s.verifications ip 0 } := by
  have hcount := nextCount_orNew hwrap
  subst hip
  have hback' : ({ orNew s.now (s.entries (requests i).ip) with lastAccess := s.now } :
      AuthFailureEntry).inBackoff s.now = false := hback
  have hcount' : ({ orNew s.now (s.entries (requests i).ip) with lastAccess := s.now } :
      AuthFailureEntry).nextCount = s.failures (requests i).ip + 1 := hcount
  refine ⟨s.now + backoffSeconds (s.failures (requests i).ip + 1) * 10 ^ 9, ?_⟩
  simp only [fail, recordFailure, startsBackoff, hback, hback', hcount, hcount', hle,
    Bool.not_false, Bool.true_and, decide_true, if_true, Bool.false_eq_true, if_false]

/-- A failure of a request in flight. -/
theorem Guards.fail (h : Guards requests ip s) (hip : (requests i).ip = ip)
    (hphase : s.phase i = .verified) (hwrap : s.failures ip + 1 < 2 ^ 32) :
    Guards requests ip (s.fail requests i) := by
  obtain ⟨F, hF, hstate⟩ := h
  have hi : i ∈ F := (hF i).mpr ⟨hip, by rw [hphase]; rfl⟩
  have hmoved : ∀ answer, InFlight requests (s.move i (.answered answer)) ip (F.erase i) :=
    fun answer => hF.move hip (.answered answer)
  have hcard := Finset.card_erase_add_one hi
  have hverified := verifiedIn_erase hi hphase
  rcases hstate with ⟨hzero, hbefore⟩ | ⟨hpos, hafter⟩
  · have hback : (orNew s.now (s.entries ip)).inBackoff s.now = false := by
      unfold orNew inBackoff
      cases hentry : s.entries ip with
      | none => rfl
      | some entry => simp [hbefore.clear entry hentry]
    have hflight := hbefore.inFlight
    have hle := hbefore.verifications
    by_cases hlt : s.failures ip + 1 < authFailureThreshold
    · rw [fail_of_lt hip hwrap hback hlt]
      refine ⟨_, hmoved .unauthorized, .inl ⟨hzero, ?_⟩⟩
      have hverified := hverified .unauthorized
      constructor
      · intro entry hentry
        have hentry : Function.update s.entries ip _ ip = some entry := hentry
        rw [Function.update_self] at hentry
        obtain rfl := Option.some.inj hentry
        rfl
      · simpa [failures] using hlt
      · simp only [failures, Function.update_self, Option.elim_some]
        unfold failures at hflight
        omega
      · simp only [failures, Function.update_self, Option.elim_some]
        unfold failures at hle
        show s.verifications ip ≤ _ + 1 + verifiedIn (s.move i _) _
        omega
    · -- the last of the threshold is the only one in flight
      obtain ⟨t, ht⟩ := fail_of_le hip hwrap hback (Nat.not_lt.mp hlt)
      have hempty : F.erase i = ∅ := Finset.card_eq_zero.mp (by omega)
      rw [ht]
      refine ⟨_, hmoved .tooManyRequests, .inr ⟨by simp, ?_⟩⟩
      constructor
      · refine ⟨_, Function.update_self _ _ _, Nat.not_lt.mp hlt, t, rfl, fun hne => ?_⟩
        rw [hempty] at hne
        exact absurd hne Finset.not_nonempty_empty
      · simp [hempty]
      · simp
  · obtain ⟨entry, hentry, hcount, t, ht, hexpired⟩ := hafter.entry
    have hexpired : t ≤ s.now := hexpired ⟨i, hi⟩
    have hfailures : s.failures ip = entry.failureCount := by simp [failures, hentry]
    have hback : (orNew s.now (s.entries ip)).inBackoff s.now = false := by
      simp [orNew, inBackoff, hentry, ht, hexpired]
    obtain ⟨t', ht'⟩ := fail_of_le hip hwrap hback (by omega)
    have hempty : F.erase i = ∅ := by
      have hflight := hafter.inFlight
      exact Finset.card_eq_zero.mp (by omega)
    rw [ht']
    refine ⟨_, hmoved .tooManyRequests, .inr ⟨by simp, ?_⟩⟩
    constructor
    · refine ⟨_, Function.update_self _ _ _, by show _ ≤ s.failures ip + 1; omega, t', rfl,
        fun hne => ?_⟩
      rw [hempty] at hne
      exact absurd hne Finset.not_nonempty_empty
    · simp [hempty]
    · simp

/-- Every step of a request with a wrong key leaves it guarded. -/
theorem Guards.next (h : Guards requests ip s)
    (hkeys : ∀ i, (requests i).ip = ip → (requests i).credential ≠ .valid) {a : Act ι}
    (hkept : Kept ip a) (horderly : Orderly requests ip s a) :
    Guards requests ip (s.next requests a) := by
  cases a with
  | tick nanos =>
      obtain ⟨F, hF, hstate⟩ := h
      exact Guards.of_same (s := s) hF rfl rfl rfl (Nat.le_add_right _ _) rfl rfl hstate
  | reclaim ip' =>
      obtain ⟨F, hF, hstate⟩ := h
      have hne : ip ≠ ip' := fun heq => hkept heq.symm
      exact Guards.of_same (s := s) hF rfl rfl (Function.update_of_ne hne _ _) (Nat.le_refl _)
        rfl rfl hstate
  | step i =>
      by_cases hip : (requests i).ip = ip
      · obtain ⟨hroom, hwrap⟩ := horderly hip
        cases hphase : s.phase i with
        | start =>
            simp only [AuthServer.next, hphase, check, hip]
            cases hblocked : isBlocked s.now (s.entries ip) with
            | true => exact h.blocked hip hphase _
            | false => exact h.checked hip hphase hblocked (hroom hphase hblocked)
        | checked =>
            simp only [AuthServer.next, hphase]
            exact h.verified hip hphase
        | verified =>
            have hrecord : s.record requests i = s.fail requests i := by
              unfold record
              cases hcredential : (requests i).credential with
              | valid => exact absurd hcredential (hkeys i hip)
              | missing => rfl
              | wrong => rfl
            simp only [AuthServer.next, hphase, hrecord]
            exact h.fail hip hphase (hwrap hphase)
        | answered answer =>
            simp only [AuthServer.next, hphase]
            exact h
      · exact h.next_ne hip

end Bound

open AuthServer in
/-- For an address whose requests all have wrong keys or none, and whose entry is not
reclaimed, the verifications are bounded, if its requests are let through while no other
one is in flight or while those in flight cannot complete the threshold. -/
theorem brute_force_bounded [DecidableEq ι] (requests : ι → AuthRequest) (ip : String)
    (now : Nat) (s : AuthServer ι)
    (hkeys : ∀ i, (requests i).ip = ip → (requests i).credential ≠ .valid)
    (hrun : Reaches (AuthServer.next requests)
      (fun s a => Kept ip a ∧ Orderly requests ip s a) (AuthServer.init now) s) :
    s.Bounded ip := by
  have hguards : Guards requests ip s :=
    hrun.invariant (guards_init now) fun s a h ha => h.next hkeys ha.1 ha.2
  exact hguards.bounded

/-! ### requests at the same time -/

/-- Requests with wrong keys from one address. -/
def sampleGuesses {n : Nat} (_ : Fin n) : AuthRequest := ⟨"192.0.2.1", .wrong⟩

open AuthServer in
/-- Two requests one after the other. -/
theorem brute_force_bounded_guesses :
    (final (AuthServer.next sampleGuesses) (AuthServer.init 0 : AuthServer (Fin 2))
      [.step 0, .step 0, .step 0, .tick 1, .step 1, .step 1, .step 1]).Bounded "192.0.2.1" := by
  have hrun : Permitted (AuthServer.next sampleGuesses)
      (fun s a => Kept "192.0.2.1" a ∧ Orderly sampleGuesses "192.0.2.1" s a)
      (AuthServer.init 0 : AuthServer (Fin 2))
      [.step 0, .step 0, .step 0, .tick 1, .step 1, .step 1, .step 1] := by
    refine ⟨⟨trivial, fun _ => ⟨fun _ _ => ⟨∅, ?_, .inl rfl⟩, fun h => by contradiction⟩⟩,
      ⟨trivial, fun _ => ⟨fun h => by contradiction, fun h => by contradiction⟩⟩,
      ⟨trivial, fun _ => ⟨fun h => by contradiction, fun _ => by decide⟩⟩, ⟨trivial, trivial⟩,
      ⟨trivial, fun _ => ⟨fun _ _ => ⟨∅, ?_, .inl rfl⟩, fun h => by contradiction⟩⟩,
      ⟨trivial, fun _ => ⟨fun h => by contradiction, fun h => by contradiction⟩⟩,
      ⟨trivial, fun _ => ⟨fun h => by contradiction, fun _ => by decide⟩⟩, trivial⟩
    · unfold InFlight
      decide
    · unfold InFlight
      decide
  exact brute_force_bounded sampleGuesses "192.0.2.1" 0 _ (by decide) hrun.reaches

open AuthServer in
/-- Six requests are let through, and verify their keys, before one of them has
failed. -/
theorem six_guesses :
    ¬ ∀ (ι : Type) [DecidableEq ι] (requests : ι → AuthRequest) (ip : String) (now : Nat)
        (s : AuthServer ι),
      (∀ i, (requests i).ip = ip → (requests i).credential ≠ .valid) →
      Reaches (AuthServer.next requests) (fun _ a => Kept ip a) (AuthServer.init now) s →
      s.Bounded ip := by
  intro h
  have hrun : Permitted (AuthServer.next sampleGuesses) (fun _ a => Kept "192.0.2.1" a)
      (AuthServer.init 0 : AuthServer (Fin 6))
      [.step 0, .step 1, .step 2, .step 3, .step 4, .step 5,
        .step 0, .step 1, .step 2, .step 3, .step 4, .step 5] :=
    ⟨trivial, trivial, trivial, trivial, trivial, trivial, trivial, trivial, trivial, trivial,
      trivial, trivial, trivial⟩
  have hbounded := (h (Fin 6) sampleGuesses "192.0.2.1" 0 _ (by decide) hrun.reaches).first
  revert hbounded
  decide

end Deltaship
