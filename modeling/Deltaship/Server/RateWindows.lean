import Deltaship.Lib.FixedWindow
import Deltaship.Lib.Runs
import Deltaship.Server.RateLimit

/-!
# Deltaship.Server.RateWindows

The limiter of requests, seen from one address: below the capacity it answers like a
fixed-window counter for that address alone.

An entry that a sweep removes is one whose window has expired, so that the next request
opens a window whether or not the entry is there.
-/

namespace Deltaship

open Runs

/-- The window of an entry. -/
def RateLimitEntry.opened (entry : RateLimitEntry) : FixedWindow.Open :=
  ⟨entry.windowStart, entry.count⟩

/-- The window that a request is counted in. -/
theorem RateLimitEntry.opened_current (limit windowDuration now : Nat)
    (entry : Option RateLimitEntry) :
    (current windowDuration now entry).opened =
      FixedWindow.current ⟨limit, windowDuration⟩ now (entry.map opened) := by
  cases entry with
  | none => by_cases hzero : windowDuration ≤ 0 <;> simp [current, FixedWindow.current, opened, hzero]
  | some entry =>
      by_cases hexpired : windowDuration ≤ now - entry.windowStart
      · simp [current, FixedWindow.current, opened, hexpired, Nat.not_lt.mpr hexpired]
      · simp [current, FixedWindow.current, opened, hexpired, Nat.lt_of_not_le hexpired]

namespace RateLimiter

variable {l : RateLimiter} {order : HashOrder} {now : Nat} {ip ip' : String}

/-- The counter of one address. -/
def counter (l : RateLimiter) : FixedWindow := ⟨l.maxRequests, l.windowDuration⟩

theorem makeRoom_of_lt (h : l.entries.size < maxLimiterEntries) :
    l.makeRoom order now ip = l := by
  have hnot : ¬ maxLimiterEntries ≤ l.entries.size := Nat.not_le.mpr h
  simp [makeRoom, hnot]

/-- The answer is that of the counter, whose window is the one of the entry. -/
theorem checkRateLimit_eq (order : HashOrder) (now : Nat) (ip : String)
    (h : l.entries.size < maxLimiterEntries) :
    ∃ entry : RateLimitEntry, l.checkRateLimit order now ip =
        ((l.counter.ask now ((l.entries.read ip).map RateLimitEntry.opened)).1,
          { l with entries := l.entries.write ip entry }) ∧
      entry.opened = (l.counter.ask now ((l.entries.read ip).map RateLimitEntry.opened)).2 := by
  have hopened := RateLimitEntry.opened_current l.maxRequests l.windowDuration now
    (l.entries.read ip)
  rw [checkRateLimit, makeRoom_of_lt h]
  unfold FixedWindow.ask counter
  rw [← hopened]
  generalize RateLimitEntry.current l.windowDuration now (l.entries.read ip) = entry
  by_cases hfull : l.maxRequests ≤ entry.count
  · refine ⟨entry, ?_⟩
    simp [RateLimitEntry.opened, hfull, Nat.not_lt.mpr hfull]
  · refine ⟨{ entry with count := entry.count + 1 }, ?_⟩
    simp [RateLimitEntry.opened, hfull, Nat.lt_of_not_le hfull]

/-- The entry of an address and the window of its counter: without an entry, the window
has expired. -/
def Tracks (windowDuration now : Nat) :
    Option RateLimitEntry → Option FixedWindow.Open → Prop
  | some entry, w? => w? = some entry.opened
  | none, w? => ∀ w ∈ w?, windowDuration ≤ now - w.start

theorem Tracks.mono {windowDuration now' : Nat} {entry : Option RateLimitEntry}
    {w? : Option FixedWindow.Open} (h : Tracks windowDuration now entry w?) (hle : now ≤ now') :
    Tracks windowDuration now' entry w? := by
  cases entry with
  | some entry => exact h
  | none => exact fun w hw => Nat.le_trans (h w hw) (Nat.sub_le_sub_right hle _)

/-- The counter does not tell an entry that is gone from a window that has expired. -/
theorem Tracks.ask {entry : Option RateLimitEntry} {w? : Option FixedWindow.Open}
    (h : Tracks l.windowDuration now entry w?) :
    l.counter.ask now (entry.map RateLimitEntry.opened) = l.counter.ask now w? := by
  cases entry with
  | some entry => rw [show w? = _ from h, Option.map_some]
  | none =>
      cases w? with
      | none => rfl
      | some w => exact (FixedWindow.ask_expired (c := l.counter) (h w rfl)).symm

/-- A request of the address. -/
theorem Tracks.check {w? : Option FixedWindow.Open} (order : HashOrder)
    (h : Tracks l.windowDuration now (l.entries.read ip) w?)
    (hroom : l.entries.size < maxLimiterEntries) :
    (l.checkRateLimit order now ip).1 = (l.counter.ask now w?).1 ∧
      Tracks l.windowDuration now ((l.checkRateLimit order now ip).2.entries.read ip)
        (some (l.counter.ask now w?).2) := by
  obtain ⟨entry, heq, hopened⟩ := checkRateLimit_eq order now ip hroom
  rw [h.ask] at heq hopened
  rw [heq, Files.read_write_self]
  exact ⟨rfl, congrArg some hopened.symm⟩

/-- A request of another address. -/
theorem Tracks.check_ne {w? : Option FixedWindow.Open}
    (h : Tracks l.windowDuration now (l.entries.read ip) w?) (hne : ip ≠ ip')
    (hroom : l.entries.size < maxLimiterEntries) :
    Tracks l.windowDuration now ((l.checkRateLimit order now ip').2.entries.read ip) w? := by
  obtain ⟨entry, heq, -⟩ := checkRateLimit_eq order now ip' hroom
  rw [heq, Files.read_write_ne _ _ hne]
  exact h

/-- A sweep. -/
theorem Tracks.cleanup {w? : Option FixedWindow.Open}
    (h : Tracks l.windowDuration now (l.entries.read ip) w?) :
    Tracks l.windowDuration now ((l.cleanupExpiredEntries now).entries.read ip) w? := by
  rw [cleanupExpiredEntries, Files.read_retain]
  cases hentry : l.entries.read ip with
  | none => simpa [hentry] using h
  | some entry =>
      rw [hentry] at h
      by_cases hopen : now - entry.windowStart < l.windowDuration
      · simpa [hopen, Option.filter_some] using h
      · -- the entry is dropped, and its window has expired
        obtain rfl : w? = some entry.opened := h
        have hdropped : (some entry).filter
            (fun entry => decide (now - entry.windowStart < l.windowDuration)) = none := by
          simpa using Nat.le_of_not_lt hopen
        rw [hdropped]
        intro w hw
        obtain rfl := Option.some.inj hw
        exact Nat.le_of_not_lt hopen

end RateLimiter

/-! ## runs -/

/- The table holds one window for each address, and a sweep may drop a window that has expired.
Below the capacity none of this can be noticed by an address: it is answered as by a counter of its
own. -/

namespace Limiters

/-- A call asks whether a request of this address is admitted. -/
def Act.asks (ip : String) (a : Act) : Bool :=
  match a.call with
  | .checkRateLimit _ ip' => ip' = ip
  | _ => false

/-- The times of the requests of an address. -/
def requestTimes (ip : String) (run : List Act) : List Nat :=
  (run.filter (Act.asks ip)).map Act.now

/-- The answers to the requests of an address. -/
def answersTo (ip : String) : Limiters → List Act → List Bool
  | _, [] => []
  | s, a :: run =>
    match a.call with
    | .checkRateLimit order ip' =>
      if ip' = ip then
        (s.rate.checkRateLimit order a.now ip').1 :: answersTo ip (s.next a) run
      else answersTo ip (s.next a) run
    | _ => answersTo ip (s.next a) run

/-- How many of its requests between `a` and `b` are admitted. -/
def admittedTo (ip : String) (s : Limiters) (run : List Act) (a b : Nat) : Nat :=
  ((requestTimes ip run).zip (answersTo ip s run)).countP fun e => e.2 && a ≤ e.1 && e.1 ≤ b

/-- A call when fewer than the most addresses are tracked. -/
def BelowCapacity (s : Limiters) (a : Act) : Prop :=
  Timely s a ∧ s.rate.entries.size < maxLimiterEntries

variable {s : Limiters} {a : Act} {ip : String} {w? : Option FixedWindow.Open}

/-- The limiter of requests tracks the counter of an address. -/
def Follows (c : FixedWindow) (ip : String) (s : Limiters) (w? : Option FixedWindow.Open) : Prop :=
  s.rate.counter = c ∧ RateLimiter.Tracks c.window s.now (s.rate.entries.read ip) w?

/-- A call that is not a request of the address. -/
theorem Follows.next_other {c : FixedWindow} (h : Follows c ip s w?)
    (hbelow : BelowCapacity s a) (hasks : a.asks ip = false) : Follows c ip (s.next a) w? := by
  obtain ⟨rfl, htracks⟩ := h
  obtain ⟨htimely, hroom⟩ := hbelow
  have htracks := htracks.mono htimely
  unfold Act.asks at hasks
  unfold Limiters.next
  cases hcall : a.call with
  | checkRateLimit order ip' =>
      have hne : ip ≠ ip' := fun heq => by simp [hcall, heq] at hasks
      obtain ⟨entry, heq, -⟩ :=
        RateLimiter.checkRateLimit_eq order a.now ip' hroom
      refine ⟨?_, htracks.check_ne hne hroom⟩
      show RateLimiter.counter (s.rate.checkRateLimit order a.now ip').2 = _
      rw [heq]
      rfl
  | recordFailure order ip' => exact ⟨rfl, htracks⟩
  | recordSuccess ip' => exact ⟨rfl, htracks⟩
  | isBlocked ip' => exact ⟨rfl, htracks⟩
  | sweepRate => exact ⟨rfl, htracks.cleanup⟩
  | sweepAuth => exact ⟨rfl, htracks⟩

/-- A request of the address. -/
theorem Follows.next_asks {c : FixedWindow} {order : HashOrder} (h : Follows c ip s w?)
    (hbelow : BelowCapacity s a) (hcall : a.call = .checkRateLimit order ip) :
    (s.rate.checkRateLimit order a.now ip).1 = (c.ask a.now w?).1 ∧
      Follows c ip (s.next a) (some (c.ask a.now w?).2) := by
  obtain ⟨rfl, htracks⟩ := h
  obtain ⟨htimely, hroom⟩ := hbelow
  obtain ⟨hanswer, htracks⟩ := (htracks.mono htimely).check order hroom
  obtain ⟨entry, heq, -⟩ :=
    RateLimiter.checkRateLimit_eq order a.now ip hroom
  refine ⟨hanswer, ?_, ?_⟩
  · simp only [Limiters.next, hcall, heq]
    rfl
  · simp only [Limiters.next, hcall]
    exact htracks

/-- The answers along a run are those of the counter. -/
theorem Follows.answersTo {c : FixedWindow} {run : List Act} (h : Follows c ip s w?)
    (hrun : Permitted Limiters.next BelowCapacity s run) :
    answersTo ip s run = c.answers w? (requestTimes ip run) := by
  induction run generalizing s w? with
  | nil => rfl
  | cons a run ih =>
      obtain ⟨hbelow, hrun⟩ := hrun
      unfold Limiters.answersTo requestTimes
      cases hasks : a.asks ip with
      | false =>
          have hrest := ih (h.next_other hbelow hasks) hrun
          rw [List.filter_cons_of_neg (by simp [hasks])]
          unfold Act.asks at hasks
          cases hcall : a.call with
          | checkRateLimit order ip' =>
              have hne : ip' ≠ ip := fun heq => by simp [hcall, heq] at hasks
              simp only [hne, if_false]
              exact hrest
          | recordFailure order ip' => exact hrest
          | recordSuccess ip' => exact hrest
          | isBlocked ip' => exact hrest
          | sweepRate => exact hrest
          | sweepAuth => exact hrest
      | true =>
          rw [List.filter_cons_of_pos hasks]
          unfold Act.asks at hasks
          cases hcall : a.call with
          | checkRateLimit order ip' =>
              obtain rfl : ip' = ip := by simpa [hcall] using hasks
              obtain ⟨hanswer, hnext⟩ := h.next_asks hbelow hcall
              simp only [if_true, List.map_cons, FixedWindow.answers]
              rw [hanswer, ih hnext hrun]
              rfl
          | recordFailure order ip' => simp [hcall] at hasks
          | recordSuccess ip' => simp [hcall] at hasks
          | isBlocked ip' => simp [hcall] at hasks
          | sweepRate => simp [hcall] at hasks
          | sweepAuth => simp [hcall] at hasks

/-- The clock does not go back in a run. -/
theorem pairwise_now {run : List Act} (hrun : Permitted Limiters.next BelowCapacity s run) :
    (s.now :: run.map Act.now).Pairwise (· ≤ ·) := by
  induction run generalizing s with
  | nil => simp
  | cons a run ih =>
      obtain ⟨⟨htimely, -⟩, hrun⟩ := hrun
      have hnow : (s.next a).now = a.now := by
        unfold Limiters.next
        cases a.call <;> rfl
      have hrest := ih hrun
      rw [hnow] at hrest
      rw [List.map_cons]
      refine List.pairwise_cons.mpr ⟨fun t ht => ?_, hrest⟩
      rcases List.mem_cons.mp ht with rfl | ht
      · exact htimely
      · exact Nat.le_trans htimely ((List.pairwise_cons.mp hrest).1 t ht)

/-- The requests of a run come one after the other. -/
theorem pairwise_requestTimes {run : List Act}
    (hrun : Permitted Limiters.next BelowCapacity s run) :
    (requestTimes ip run).Pairwise (· ≤ ·) :=
  (List.pairwise_cons.mp (pairwise_now hrun)).2.sublist (List.filter_sublist.map Act.now)

end Limiters

open Limiters in
/-- Below the capacity, each address is answered like by a fixed-window counter for that
address alone; of its requests in an interval shorter than the window, at most twice the
maximum are admitted. -/
theorem rate_limit_windows (maxRequests windowDuration : Nat) (run : List Act)
    (hrun : Permitted Limiters.next BelowCapacity (Limiters.init maxRequests windowDuration) run)
    (ip : String) :
    answersTo ip (Limiters.init maxRequests windowDuration) run =
        FixedWindow.answers ⟨maxRequests, windowDuration⟩ none (requestTimes ip run) ∧
      ∀ a b, b < a + windowDuration →
        admittedTo ip (Limiters.init maxRequests windowDuration) run a b ≤ 2 * maxRequests := by
  have hstart : Follows ⟨maxRequests, windowDuration⟩ ip
      (Limiters.init maxRequests windowDuration) none := by
    refine ⟨rfl, fun w hw => ?_⟩
    contradiction
  have hanswers := hstart.answersTo hrun
  refine ⟨hanswers, fun a b hshort => ?_⟩
  rw [admittedTo, hanswers]
  exact FixedWindow.admittedIn_le (c := ⟨maxRequests, windowDuration⟩)
    (pairwise_requestTimes hrun) hshort

open Limiters in
/-- A request that is admitted, one that is not, and one after a sweep has dropped the
entry. -/
theorem rate_limit_windows_sample :
    answersTo "192.0.2.1" (Limiters.init 1 10)
      [⟨0, .checkRateLimit .same "192.0.2.1"⟩, ⟨1, .checkRateLimit .same "192.0.2.1"⟩,
        ⟨10, .sweepRate⟩, ⟨11, .checkRateLimit .same "192.0.2.1"⟩] = [true, false, true] ∧
    ∀ a b, b < a + 10 → admittedTo "192.0.2.1" (Limiters.init 1 10)
      [⟨0, .checkRateLimit .same "192.0.2.1"⟩, ⟨1, .checkRateLimit .same "192.0.2.1"⟩,
        ⟨10, .sweepRate⟩, ⟨11, .checkRateLimit .same "192.0.2.1"⟩] a b ≤ 2 := by
  have hrun : Permitted Limiters.next BelowCapacity (Limiters.init 1 10)
      [⟨0, .checkRateLimit .same "192.0.2.1"⟩, ⟨1, .checkRateLimit .same "192.0.2.1"⟩,
        ⟨10, .sweepRate⟩, ⟨11, .checkRateLimit .same "192.0.2.1"⟩] := by
    unfold BelowCapacity Timely
    decide
  obtain ⟨hanswers, hinterval⟩ := rate_limit_windows 1 10 _ hrun "192.0.2.1"
  exact ⟨hanswers, hinterval⟩

end Deltaship
