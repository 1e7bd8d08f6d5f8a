import Deltaship.Lib.Runs
import Deltaship.Lib.Text
import Deltaship.Server.RateLimit

/-!
# Deltaship.Server.LimiterBounds

How many entries the limiters hold, and whom the limiter of failures forgets.

A full map makes room for a new address by evicting the oldest of a sample.  The limiter
of failures passes over the addresses in backoff, so that it makes no room when all of
them are.
-/

namespace Deltaship

open Runs

/-! ## eviction -/

/- A full table makes room by sampling entries and evicting the oldest ones of the sample. Both
limiters do it alike, so that the bound is shown once. -/

section Evict

variable {ε : Type} {order : HashOrder} {evictable : ε → Bool} {lastAccess : ε → Nat}
  {entries : Files String ε}

/-- The addresses that are evicted are different ones. -/
theorem nodup_evicted : (evicted order evictable lastAccess entries).Nodup := by
  have hwalk : (order.walk entries.paths).Nodup :=
    (order.perm entries.paths).nodup_iff.mpr entries.nodup_paths
  unfold evicted
  refine List.Nodup.sublist (List.take_sublist _ _) ?_
  refine (List.perm_insertionSort _ _).nodup_iff.mpr ?_
  exact (hwalk.sublist List.filter_sublist).sublist (List.take_sublist _ _)

/-- Only entries that may go are evicted. -/
theorem evictable_of_mem_evicted {ip : String}
    (h : ip ∈ evicted order evictable lastAccess entries) :
    ∃ entry, entries.read ip = some entry ∧ evictable entry = true := by
  unfold evicted at h
  have hsorted := List.mem_of_mem_take h
  have hsampled := (List.perm_insertionSort _ _).mem_iff.mp hsorted
  have hcandidate := (List.mem_filter.mp (List.mem_of_mem_take hsampled)).2
  cases hentry : entries.read ip with
  | none => simp [hentry] at hcandidate
  | some entry => exact ⟨entry, rfl, by simpa [hentry] using hcandidate⟩

/-- If some entry may go, and the map is full, one is evicted. -/
theorem evicted_ne_nil (order : HashOrder) (evictable : ε → Bool) (lastAccess : ε → Nat)
    {ip : String} {entry : ε} (hentry : entries.read ip = some entry)
    (hevictable : evictable entry = true) (hfull : maxLimiterEntries ≤ entries.size) :
    evicted order evictable lastAccess entries ≠ [] := by
  have hwalked : ip ∈ order.walk entries.paths :=
    (order.perm entries.paths).mem_iff.mpr (Files.mem_paths.mpr (by simp [hentry]))
  have hcandidate : ip ∈ (order.walk entries.paths).filter
      fun ip => (entries.read ip).any evictable :=
    List.mem_filter.mpr ⟨hwalked, by simp [hentry, hevictable]⟩
  have hpos := List.length_pos_of_mem hcandidate
  have hevict : 0 < min lruEvictionCount entries.size := by
    have : 0 < lruEvictionCount := by decide
    have : 0 < maxLimiterEntries := by decide
    omega
  rw [← List.length_pos_iff]
  unfold evicted
  simp only [List.length_take, List.length_insertionSort]
  omega

theorem size_evictSampled :
    (evictSampled order evictable lastAccess entries).size =
      entries.size - (evicted order evictable lastAccess entries).length := by
  refine Files.size_foldl_remove nodup_evicted fun ip hip => ?_
  obtain ⟨entry, hentry, -⟩ := evictable_of_mem_evicted hip
  exact Files.mem_paths.mpr (by simp [hentry])

/-- What making room for an address does to a map: nothing, or a sweep, or a sweep and an
eviction. -/
inductive RoomMade (order : HashOrder) (evictable : ε → Bool) (lastAccess : ε → Nat) (ip : String)
    (entries swept made : Files String ε) : Prop
  | kept (h : made = entries) (hsize : entries.read ip = none → entries.size < maxLimiterEntries)
  | swept (h : made = swept) (hsize : swept.size < maxLimiterEntries)
  | evicted (h : made = evictSampled order evictable lastAccess swept)
      (hnew : entries.read ip = none) (hfull : maxLimiterEntries ≤ entries.size)
      (hstill : maxLimiterEntries ≤ swept.size)

section Room

variable {ip : String} {swept made : Files String ε}

/-- Room is made only if the map is full, and only as far as necessary. -/
theorem roomMade_of_ite (hmade : made =
    if (entries.read ip).isNone && maxLimiterEntries ≤ entries.size then
      if entries.size < maxLimiterEntries then entries
      else if swept.size < maxLimiterEntries then swept
      else evictSampled order evictable lastAccess swept
    else entries) : RoomMade order evictable lastAccess ip entries swept made := by
  by_cases hfull : ((entries.read ip).isNone && maxLimiterEntries ≤ entries.size) = true
  · rw [if_pos hfull] at hmade
    simp only [Bool.and_eq_true, Option.isNone_iff_eq_none, decide_eq_true_eq] at hfull
    rw [if_neg (Nat.not_lt.mpr hfull.2)] at hmade
    by_cases hswept : swept.size < maxLimiterEntries
    · exact .swept (hmade.trans (if_pos hswept)) hswept
    · exact .evicted (hmade.trans (if_neg hswept)) hfull.1 hfull.2 (Nat.le_of_not_lt hswept)
  · refine .kept (hmade.trans (if_neg hfull)) fun hnew => ?_
    simpa [hnew] using hfull

/-- Making room keeps the bound. -/
theorem RoomMade.size_le (h : RoomMade order evictable lastAccess ip entries swept made)
    (hentries : entries.size ≤ maxLimiterEntries) (hswept : swept.size ≤ maxLimiterEntries) :
    made.size ≤ maxLimiterEntries := by
  cases h with
  | kept h _ => rwa [h]
  | swept h _ => rwa [h]
  | evicted h _ _ _ =>
      rw [h, size_evictSampled]
      omega

/-- A new address finds room, if some entry of a full map may go. -/
theorem RoomMade.size_lt (h : RoomMade order evictable lastAccess ip entries swept made)
    (hswept : swept.size ≤ maxLimiterEntries)
    (hroom : entries.read ip = none → maxLimiterEntries ≤ entries.size →
      maxLimiterEntries ≤ swept.size →
      ∃ ip' entry, swept.read ip' = some entry ∧ evictable entry = true)
    (hnew : made.read ip = none) : made.size < maxLimiterEntries := by
  cases h with
  | kept h hsize =>
      rw [h] at hnew ⊢
      exact hsize hnew
  | swept h hsize => rwa [h]
  | evicted h hnone hfull hstill =>
      obtain ⟨ip', entry, hentry, hevictable⟩ := hroom hnone hfull hstill
      have hevicted := List.length_pos_iff.mpr
        (evicted_ne_nil order evictable lastAccess hentry hevictable hstill)
      have hpos : 0 < maxLimiterEntries := by decide
      rw [h, size_evictSampled]
      omega

end Room

/-- An entry that may not go stays. -/
theorem read_evictSampled {ip : String} {entry : ε} (hentry : entries.read ip = some entry)
    (hkeep : evictable entry = false) :
    (evictSampled order evictable lastAccess entries).read ip = some entry := by
  rw [evictSampled, Files.read_foldl_remove_of_notMem, hentry]
  intro hmem
  obtain ⟨entry', hentry', hevictable⟩ := evictable_of_mem_evicted hmem
  obtain rfl := Option.some.inj (hentry.symm.trans hentry')
  simp [hkeep] at hevictable

end Evict

/-! ## the limiter of requests -/

namespace RateLimiter

variable {order : HashOrder} {now : Nat} {ip : String} {l : RateLimiter}

/-- Any entry may go. -/
theorem roomMade (order : HashOrder) (now : Nat) (ip : String) (l : RateLimiter) :
    RoomMade order (fun _ => true) (·.lastAccess) ip l.entries
      (l.cleanupExpiredEntries now).entries (l.makeRoom order now ip).entries := by
  refine roomMade_of_ite ?_
  unfold makeRoom evictWhenFull
  split
  · split
    · rfl
    · dsimp only
      split <;> rfl
  · rfl

/-- A sweep keeps the bound. -/
theorem size_cleanup_le (h : l.entries.size ≤ maxLimiterEntries) :
    (l.cleanupExpiredEntries now).entries.size ≤ maxLimiterEntries :=
  Nat.le_trans (Files.size_retain_le _ _) h

/-- A request keeps the bound. -/
theorem size_checkRateLimit_le (h : l.entries.size ≤ maxLimiterEntries) :
    (l.checkRateLimit order now ip).2.entries.size ≤ maxLimiterEntries := by
  have hroom := roomMade order now ip l
  have hle := hroom.size_le h (size_cleanup_le h)
  have hlt := hroom.size_lt (size_cleanup_le h) fun _ _ hstill => by
    obtain ⟨ip', entry, hentry⟩ :=
      Files.exists_read_of_size_pos (Nat.lt_of_lt_of_le (by decide) hstill)
    exact ⟨ip', entry, hentry, rfl⟩
  simp only [checkRateLimit]
  split <;> exact Files.size_write_le hle hlt

end RateLimiter

/-! ## the limiter of failures -/

/- An entry whose backoff has not expired is not evicted. A table full of such entries has none to
give up, and takes a new one nevertheless. -/

namespace AuthFailureLimiter

variable {order : HashOrder} {now : Nat} {ip ip' : String} {l : AuthFailureLimiter}

/-- If the map is full when a new address comes, some address is not in backoff. -/
def HasRoom (now : Nat) (ip : String) (l : AuthFailureLimiter) : Prop :=
  l.entries.read ip = none → maxLimiterEntries ≤ l.entries.size →
    ∃ ip' entry, l.entries.read ip' = some entry ∧ entry.inBackoff now = false

/-- Only an entry that is not in backoff may go. -/
theorem roomMade (order : HashOrder) (now : Nat) (ip : String) (l : AuthFailureLimiter) :
    RoomMade order (fun entry => !entry.inBackoff now) (·.lastAccess) ip l.entries
      (l.cleanupExpiredEntries now).entries (l.makeRoom order now ip).entries := by
  refine roomMade_of_ite ?_
  unfold makeRoom evictWhenFull
  split
  · split
    · rfl
    · dsimp only
      split <;> rfl
  · rfl

/-- A sweep keeps the bound. -/
theorem size_cleanup_le (h : l.entries.size ≤ maxLimiterEntries) :
    (l.cleanupExpiredEntries now).entries.size ≤ maxLimiterEntries :=
  Nat.le_trans (Files.size_retain_le _ _) h

/-- A sweep that leaves a full map has removed nothing. -/
theorem read_cleanup_of_full {entry : AuthFailureEntry} (h : l.entries.size ≤ maxLimiterEntries)
    (hstill : maxLimiterEntries ≤ (l.cleanupExpiredEntries now).entries.size)
    (hentry : l.entries.read ip = some entry) :
    (l.cleanupExpiredEntries now).entries.read ip = some entry := by
  rw [cleanupExpiredEntries, Files.read_retain, hentry]
  refine Option.filter_eq_some_iff.mpr ⟨rfl, ?_⟩
  by_contra hdrop
  have hdrop := Bool.eq_false_iff.mpr hdrop
  have hlt : (l.cleanupExpiredEntries now).entries.size < l.entries.size :=
    Files.size_retain_lt hentry hdrop
  exact absurd (Nat.le_trans h hstill) (Nat.not_le.mpr hlt)

/-- When all addresses are in backoff, none is evicted. -/
theorem makeRoom_of_inBackoff
    (h : ∀ ip entry, l.entries.read ip = some entry → entry.inBackoff now = true) :
    l.makeRoom order now ip = l := by
  have hkept : l.cleanupExpiredEntries now = l := by
    unfold cleanupExpiredEntries
    rw [Files.retain_eq_self fun ip entry hentry => by simp [h ip entry hentry]]
  have hevicted : evicted order (fun entry : AuthFailureEntry => !entry.inBackoff now)
      (·.lastAccess) l.entries = [] := by
    refine List.eq_nil_iff_forall_not_mem.mpr fun ip hip => ?_
    obtain ⟨entry, hentry, hfree⟩ := evictable_of_mem_evicted hip
    simp [h ip entry hentry] at hfree
  unfold makeRoom evictWhenFull
  simp [hkept, evictSampled, hevicted]

/-- The map keeps its bound, unless all addresses are in backoff when a new one comes. -/
theorem size_recordFailure_le_iff (h : l.entries.size ≤ maxLimiterEntries) :
    (l.recordFailure order now ip).2.entries.size ≤ maxLimiterEntries ↔ l.HasRoom now ip := by
  constructor
  · intro hle hnew hfull
    by_contra hnone
    push Not at hnone
    have hall : ∀ ip entry, l.entries.read ip = some entry → entry.inBackoff now = true :=
      fun ip entry hentry => by simpa using hnone ip entry hentry
    rw [recordFailure, makeRoom_of_inBackoff hall, Files.size_write_of_none hnew] at hle
    omega
  · intro hroom
    have hmade := roomMade order now ip l
    refine Files.size_write_le (hmade.size_le h (size_cleanup_le h))
      (hmade.size_lt (size_cleanup_le h) fun hnew hfull hstill => ?_)
    obtain ⟨ip', entry, hentry, hfree⟩ := hroom hnew hfull
    exact ⟨ip', entry, read_cleanup_of_full h hstill hentry, by simp [hfree]⟩

/-- An address in backoff is not forgotten when room is made. -/
theorem read_makeRoom {entry : AuthFailureEntry} (hentry : l.entries.read ip' = some entry)
    (hbackoff : entry.inBackoff now = true) :
    (l.makeRoom order now ip).entries.read ip' = some entry := by
  have hswept : (l.cleanupExpiredEntries now).entries.read ip' = some entry := by
    rw [cleanupExpiredEntries, Files.read_retain, hentry]
    exact Option.filter_eq_some_iff.mpr ⟨rfl, by simp [hbackoff]⟩
  cases roomMade order now ip l with
  | kept h _ => rwa [h]
  | swept h _ => rwa [h]
  | evicted h _ _ _ =>
      rw [h]
      exact read_evictSampled hswept (by simp [hbackoff])

theorem read_makeRoom_none (h : l.entries.read ip' = none) :
    (l.makeRoom order now ip).entries.read ip' = none := by
  have hswept : (l.cleanupExpiredEntries now).entries.read ip' = none := by
    rw [cleanupExpiredEntries, Files.read_retain, h]
    rfl
  cases roomMade order now ip l with
  | kept heq _ => rwa [heq]
  | swept heq _ => rwa [heq]
  | evicted heq _ _ _ =>
      rw [heq, evictSampled, Files.read_foldl_remove_of_notMem, hswept]
      intro hmem
      obtain ⟨entry, hentry, -⟩ := evictable_of_mem_evicted hmem
      simp [hswept] at hentry

/-- A failure does not end a backoff. -/
theorem read_recordFailure {entry : AuthFailureEntry} (hentry : l.entries.read ip' = some entry)
    (hbackoff : entry.inBackoff now = true) :
    ∃ entry', (l.recordFailure order now ip).2.entries.read ip' = some entry' ∧
      entry'.backoffUntil = entry.backoffUntil := by
  have hkept : (l.makeRoom order now ip).entries.read ip' = some entry :=
    read_makeRoom hentry hbackoff
  by_cases heq : ip' = ip
  · subst heq
    have hstill : ({ entry with lastAccess := now } : AuthFailureEntry).inBackoff now = true :=
      hbackoff
    refine ⟨{ entry with lastAccess := now }, ?_, rfl⟩
    simp only [recordFailure, hkept, Files.read_write_self, Deltaship.recordFailure,
      AuthFailureEntry.orNew, Option.getD_some, hstill, if_true]
  · refine ⟨entry, ?_, rfl⟩
    simp only [recordFailure, Files.read_write_ne _ _ heq, hkept]

/-- A success of one address leaves the others. -/
theorem read_recordSuccess_ne (hne : ip' ≠ ip) :
    (l.recordSuccess now ip).entries.read ip' = l.entries.read ip' := by
  unfold recordSuccess
  split
  · exact Files.read_remove_ne _ hne
  · exact Files.read_write_ne _ _ hne

theorem size_recordSuccess_le (h : l.entries.size ≤ maxLimiterEntries) :
    (l.recordSuccess now ip).entries.size ≤ maxLimiterEntries := by
  unfold recordSuccess
  cases hentry : l.entries.read ip with
  | none => exact Nat.le_trans (Files.size_remove_le _ _) h
  | some entry =>
      split
      · exact Nat.le_trans (Files.size_remove_le _ _) h
      · exact Files.size_write_le h fun hnone => by simp [hentry] at hnone

end AuthFailureLimiter

/-! ## runs -/

namespace Limiters

variable {s : Limiters} {a : Act}

/-- A failure of a new address finds an address that is not in backoff, if the map is
full. -/
def HasRoom (s : Limiters) (a : Act) : Prop :=
  ∀ order ip, a.call = .recordFailure order ip → s.auth.HasRoom a.now ip

/-- No address in backoff is forgotten, except when it succeeds. -/
def Remembers (s : Limiters) (a : Act) : Prop :=
  ∀ ip entry, s.auth.entries.read ip = some entry → entry.inBackoff a.now = true →
    a.call ≠ .recordSuccess ip →
    ∃ entry', (s.next a).auth.entries.read ip = some entry' ∧
      entry'.backoffUntil = entry.backoffUntil

/-- Every call leaves the addresses in backoff remembered, but for a success of theirs. -/
theorem remembers (s : Limiters) (a : Act) : Remembers s a := by
  intro ip entry hentry hbackoff hcall
  unfold Limiters.next
  cases hact : a.call with
  | recordFailure order ip' => exact AuthFailureLimiter.read_recordFailure hentry hbackoff
  | recordSuccess ip' =>
      have hne : ip ≠ ip' := fun heq => hcall (heq ▸ hact)
      exact ⟨entry, (AuthFailureLimiter.read_recordSuccess_ne hne).trans hentry, rfl⟩
  | sweepAuth =>
      refine ⟨entry, ?_, rfl⟩
      simp only [AuthFailureLimiter.cleanupExpiredEntries, Files.read_retain, hentry]
      exact Option.filter_eq_some_iff.mpr ⟨rfl, by simp [hbackoff]⟩
  | checkRateLimit order ip' => exact ⟨entry, hentry, rfl⟩
  | isBlocked ip' => exact ⟨entry, hentry, rfl⟩
  | sweepRate => exact ⟨entry, hentry, rfl⟩

/-- A call keeps the bound of the limiter of requests. -/
theorem size_rate_next (h : s.rate.entries.size ≤ maxLimiterEntries) :
    (s.next a).rate.entries.size ≤ maxLimiterEntries := by
  unfold Limiters.next
  cases a.call with
  | checkRateLimit order ip => exact RateLimiter.size_checkRateLimit_le h
  | sweepRate => exact Nat.le_trans (Files.size_retain_le _ _) h
  | recordFailure order ip => exact h
  | recordSuccess ip => exact h
  | isBlocked ip => exact h
  | sweepAuth => exact h

/-- A call keeps the bound of the limiter of failures, if and only if it has room. -/
theorem size_auth_next_iff (h : s.auth.entries.size ≤ maxLimiterEntries) :
    (s.next a).auth.entries.size ≤ maxLimiterEntries ↔ HasRoom s a := by
  unfold Limiters.next HasRoom
  cases hact : a.call with
  | recordFailure order ip =>
      refine (AuthFailureLimiter.size_recordFailure_le_iff h).trans
        ⟨fun hroom => ?_, fun hroom => ?_⟩
      · intro order' ip' hcall
        obtain ⟨-, rfl⟩ := Call.recordFailure.inj hcall
        exact hroom
      · exact hroom order ip rfl
  | recordSuccess ip => simp [AuthFailureLimiter.size_recordSuccess_le h]
  | sweepAuth =>
      simpa [AuthFailureLimiter.cleanupExpiredEntries] using
        Nat.le_trans (Files.size_retain_le _ _) h
  | checkRateLimit order ip => simpa using h
  | isBlocked ip => simpa using h
  | sweepRate => simpa using h

end Limiters

open Limiters in
/-- The map of requests is bounded and no address in backoff is forgotten.  The map of
failures is bounded as long as each new address finds room, and no longer. -/
theorem limiters_bounded (maxRequests windowDuration : Nat) (s : Limiters)
    (hrun : Reaches Limiters.next Timely (Limiters.init maxRequests windowDuration) s) :
    s.rate.entries.size ≤ maxLimiterEntries ∧ (∀ a, Remembers s a) ∧
      (Reaches Limiters.next (fun s a => Timely s a ∧ HasRoom s a)
          (Limiters.init maxRequests windowDuration) s →
        s.auth.entries.size ≤ maxLimiterEntries ∧
        ∀ a, (s.next a).auth.entries.size ≤ maxLimiterEntries ↔ HasRoom s a) := by
  refine ⟨?_, remembers s, fun hroomy => ?_⟩
  · exact hrun.invariant (I := fun s => s.rate.entries.size ≤ maxLimiterEntries)
      (Nat.zero_le _) fun s a h _ => size_rate_next h
  · have hauth : s.auth.entries.size ≤ maxLimiterEntries :=
      hroomy.invariant (I := fun s => s.auth.entries.size ≤ maxLimiterEntries)
        (Nat.zero_le _) fun s a h ha => (size_auth_next_iff h).mpr ha.2
    exact ⟨hauth, fun a => size_auth_next_iff hauth⟩

/-! ### a crowd -/


/-- Different addresses. -/
def floodIp (n : Nat) : String :=
  toString (11 + n / 65536) ++ ("." ++ (toString (n / 256 % 256) ++ ("." ++
    (toString (n % 256) ++ ("." ++ "1")))))

/-- The addresses of the flood are all different. -/
theorem floodIp_inj {m n : Nat} (h : floodIp m = floodIp n) : m = n := by
  unfold floodIp at h
  obtain ⟨h1, h⟩ := Text.number_dot_inj h
  obtain ⟨h2, h⟩ := Text.number_dot_inj h
  obtain ⟨h3, -⟩ := Text.number_dot_inj h
  omega

/-- One failure of each of these addresses, at one time. -/
def crowd : Nat → List Limiters.Act
  | 0 => []
  | n + 1 => crowd n ++ [⟨0, .recordFailure .same (floodIp n)⟩]

namespace AuthFailureLimiter

/-- There is room as long as the map is not full. -/
theorem makeRoom_of_lt {order : HashOrder} {now : Nat} {ip : String} {l : AuthFailureLimiter}
    (h : l.entries.size < maxLimiterEntries) : l.makeRoom order now ip = l := by
  simp [makeRoom, h]

end AuthFailureLimiter

namespace Limiters

/-- All addresses of the crowd are tracked, and none is in backoff. -/
theorem final_crowd (maxRequests windowDuration : Nat) {n : Nat} (hn : n ≤ maxLimiterEntries) :
    let s := final Limiters.next (Limiters.init maxRequests windowDuration) (crowd n)
    s.now = 0 ∧ s.auth.entries.size = n ∧
      (∀ ip entry, s.auth.entries.read ip = some entry → entry.inBackoff 0 = false) ∧
      ∀ m, s.auth.entries.read (floodIp m) = none ↔ n ≤ m := by
  induction n with
  | zero =>
      refine ⟨rfl, rfl, fun ip entry hentry => ?_, fun m => iff_of_true rfl (Nat.zero_le m)⟩
      contradiction
  | succ n ih =>
      obtain ⟨-, hsize, hfree, hread⟩ := ih (Nat.le_of_succ_le hn)
      rw [crowd, final_append]
      generalize final Limiters.next (Limiters.init maxRequests windowDuration) (crowd n) = s
        at hsize hfree hread
      have hnew := (hread n).mpr (Nat.le_refl n)
      have hnext : (s.auth.recordFailure .same 0 (floodIp n)).2 =
          ⟨s.auth.entries.write (floodIp n) ⟨1, none, 0⟩⟩ := by
        have hroom : s.auth.entries.size < maxLimiterEntries := by omega
        simp only [AuthFailureLimiter.recordFailure, AuthFailureLimiter.makeRoom_of_lt hroom, hnew]
        rfl
      show _ ∧ (s.auth.recordFailure .same 0 (floodIp n)).2.entries.size = n + 1 ∧ (∀ ip entry,
        (s.auth.recordFailure .same 0 (floodIp n)).2.entries.read ip = some entry → _) ∧ ∀ m,
          (s.auth.recordFailure .same 0 (floodIp n)).2.entries.read (floodIp m) = none ↔ _
      rw [hnext]
      refine ⟨rfl, ?_, fun ip entry hentry => ?_, fun m => ?_⟩
      · rw [Files.size_write_of_none hnew, hsize]
      · by_cases heq : ip = floodIp n
        · rw [heq, Files.read_write_self] at hentry
          obtain rfl := Option.some.inj hentry
          rfl
        · rw [Files.read_write_ne _ _ heq] at hentry
          exact hfree ip entry hentry
      · by_cases heq : m = n
        · rw [heq, Files.read_write_self]
          simp
        · rw [Files.read_write_ne _ _ fun h => heq (floodIp_inj h), hread]
          omega

/-- The crowd may come, and one address more: it finds room, since none is in backoff. -/
theorem permitted_crowd (maxRequests windowDuration : Nat) {n : Nat}
    (hn : n ≤ maxLimiterEntries + 1) :
    Permitted Limiters.next (fun s a => Timely s a ∧ HasRoom s a)
      (Limiters.init maxRequests windowDuration) (crowd n) := by
  induction n with
  | zero => trivial
  | succ n ih =>
      obtain ⟨hnow, hsize, hfree, hread⟩ :=
        final_crowd maxRequests windowDuration (Nat.le_of_succ_le_succ hn)
      refine permitted_append.mpr ⟨ih (Nat.le_of_succ_le hn), ⟨?_, fun order ip hcall hnew hfull => ?_⟩,
        trivial⟩
      · exact Nat.le_of_eq hnow
      · have hpos : 0 < maxLimiterEntries := by decide
        have hthere : 0 < (final Limiters.next (Limiters.init maxRequests windowDuration)
            (crowd n)).auth.entries.size := Nat.lt_of_lt_of_le hpos hfull
        obtain ⟨ip', entry, hentry⟩ := Files.exists_read_of_size_pos hthere
        exact ⟨ip', entry, hentry, hfree ip' entry hentry⟩

end Limiters

open Limiters in
/-- One address more than the map has entries: somebody is evicted. -/
theorem limiters_bounded_failure :
    (final Limiters.next (Limiters.init 60 (60 * 10 ^ 9))
      (crowd (maxLimiterEntries + 1))).auth.entries.size ≤ maxLimiterEntries := by
  -- for each length, so that the run is not unfolded
  have hbound : ∀ n, n ≤ maxLimiterEntries + 1 → (final Limiters.next
      (Limiters.init 60 (60 * 10 ^ 9)) (crowd n)).auth.entries.size ≤ maxLimiterEntries := by
    intro n hn
    have hroomy := permitted_crowd 60 (60 * 10 ^ 9) hn
    have htimely := hroomy.mono fun _ _ h => h.1
    exact ((limiters_bounded 60 (60 * 10 ^ 9) _ htimely.reaches).2.2 hroomy.reaches).1
  exact hbound _ (Nat.le_refl _)

/-! ### a flood -/

/-- Five failures of each of these addresses, at one time. -/
def flood : Nat → List Limiters.Act
  | 0 => []
  | n + 1 => flood n ++ List.replicate 5 ⟨0, .recordFailure .same (floodIp n)⟩

namespace AuthFailureLimiter

/-- A failure of an address that is tracked makes no room. -/
theorem makeRoom_of_read {order : HashOrder} {now : Nat} {ip : String} {l : AuthFailureLimiter}
    {entry : AuthFailureEntry} (h : l.entries.read ip = some entry) :
    l.makeRoom order now ip = l := by
  simp [makeRoom, h]

/-- The fifth failure begins a backoff. -/
theorem recordFailure_five (order : HashOrder) {ip : String} {l : AuthFailureLimiter}
    (hall : ∀ ip entry, l.entries.read ip = some entry → entry.inBackoff 0 = true)
    (hnew : l.entries.read ip = none) :
    (List.replicate 5 ip).foldl (fun l ip => (l.recordFailure order 0 ip).2) l =
      ⟨l.entries.write ip ⟨5, some (60 * 10 ^ 9), 0⟩⟩ := by
  have hfirst : (l.recordFailure order 0 ip).2 = ⟨l.entries.write ip ⟨1, none, 0⟩⟩ := by
    simp only [recordFailure, makeRoom_of_inBackoff hall, hnew]
    rfl
  have hnext : ∀ entry : AuthFailureEntry,
      ((⟨l.entries.write ip entry⟩ : AuthFailureLimiter).recordFailure order 0 ip).2 =
        ⟨l.entries.write ip (Deltaship.recordFailure 0 (some entry)).1⟩ := by
    intro entry
    have hread : (l.entries.write ip entry).read ip = some entry := Files.read_write_self _ _ _
    simp only [recordFailure, makeRoom_of_read (l := ⟨l.entries.write ip entry⟩) hread, hread,
      Files.write_write]
  simp only [List.replicate, List.foldl_cons, List.foldl_nil, hfirst, hnext]
  rfl

end AuthFailureLimiter

namespace Limiters

/-- Calls that are all made at one time are timely. -/
theorem permitted_at_zero {s : Limiters} {run : List Act} (hs : s.now = 0)
    (hrun : ∀ a ∈ run, a.now = 0) : Permitted Limiters.next Timely s run := by
  induction run generalizing s with
  | nil => trivial
  | cons a run ih =>
      have ha := hrun a List.mem_cons_self
      have hnow : (s.next a).now = 0 := by
        unfold Limiters.next
        cases a.call <;> exact ha
      exact ⟨hs.trans_le (Nat.zero_le _), ih hnow fun b hb => hrun b (List.mem_cons_of_mem a hb)⟩

/-- The calls of the flood are all made at one time. -/
theorem now_of_mem_flood {n : Nat} : ∀ a ∈ flood n, a.now = 0 := by
  induction n with
  | zero => simp [flood]
  | succ n ih =>
      intro a ha
      rcases List.mem_append.mp ha with ha | ha
      · exact ih a ha
      · rw [List.eq_of_mem_replicate ha]

/-- Failures of one address go to its entry, one after the other. -/
theorem auth_final_failures (s : Limiters) (ip : String) (k : Nat) :
    (final Limiters.next s (List.replicate k ⟨0, .recordFailure .same ip⟩)).auth =
      (List.replicate k ip).foldl (fun l ip => (l.recordFailure .same 0 ip).2) s.auth := by
  induction k generalizing s with
  | zero => rfl
  | succ k ih => exact ih (s.next ⟨0, .recordFailure .same ip⟩)

/-- All addresses of the flood are in backoff, and tracked. -/
theorem final_flood (maxRequests windowDuration n : Nat) :
    let l := (final Limiters.next (Limiters.init maxRequests windowDuration) (flood n)).auth
    l.entries.size = n ∧
      (∀ ip entry, l.entries.read ip = some entry → entry.inBackoff 0 = true) ∧
      ∀ m, n ≤ m → l.entries.read (floodIp m) = none := by
  induction n with
  | zero =>
      refine ⟨rfl, fun ip entry hentry => ?_, fun m _ => rfl⟩
      contradiction
  | succ n ih =>
      obtain ⟨hsize, hall, hnew⟩ := ih
      have hfinal := AuthFailureLimiter.recordFailure_five .same hall
        (hnew n (Nat.le_refl n))
      rw [flood, final_append, auth_final_failures, hfinal]
      refine ⟨?_, fun ip entry hentry => ?_, fun m hm => ?_⟩
      · simp only [Files.size_write_of_none (hnew n (Nat.le_refl n)), hsize]
      · by_cases heq : ip = floodIp n
        · rw [heq, Files.read_write_self] at hentry
          obtain rfl := Option.some.inj hentry
          decide
        · rw [Files.read_write_ne _ _ heq] at hentry
          exact hall ip entry hentry
      · have hne : floodIp m ≠ floodIp n := fun heq => by
          have := floodIp_inj heq
          omega
        rw [Files.read_write_ne _ _ hne]
        exact hnew m (Nat.le_of_succ_le hm)

end Limiters

open Limiters in
/-- After five failures of each of `MAX_ENTRIES + 1` addresses, the map of failures has an
entry too many. -/
theorem flood_overflows :
    ¬ ∀ (maxRequests windowDuration : Nat) (s : Limiters),
      Reaches Limiters.next Timely (Limiters.init maxRequests windowDuration) s →
      s.rate.entries.size ≤ maxLimiterEntries ∧ s.auth.entries.size ≤ maxLimiterEntries ∧
        ∀ a, Remembers s a := by
  intro h
  -- for each length, so that the run is not unfolded
  have hbound : ∀ n, n ≤ maxLimiterEntries := fun n => by
    have hrun : Permitted Limiters.next Timely (Limiters.init 60 (60 * 10 ^ 9)) (flood n) :=
      permitted_at_zero rfl now_of_mem_flood
    have hle := (h 60 (60 * 10 ^ 9) _ hrun.reaches).2.1
    rwa [(final_flood 60 (60 * 10 ^ 9) n).1] at hle
  have hmore := hbound (maxLimiterEntries + 1)
  omega

/-! ## the length of a backoff -/

/- The backoff is computed in 64 bits without a check. It is compared with what the formula says in
unbounded numbers, first for a number of failures and then for the failures of an address in a run.
-/

namespace AuthFailureEntry

/-- The seconds of a backoff, computed without overflow. -/
def intendedSeconds (failureCount : Nat) : Nat :=
  min (authBackoffBaseSeconds * 2 ^ (failureCount - authFailureThreshold)) maxAuthBackoffSeconds

/-- More failures are not followed by a shorter backoff. -/
theorem intendedSeconds_mono {c c' : Nat} (h : c ≤ c') :
    intendedSeconds c ≤ intendedSeconds c' := by
  have hpow : 2 ^ (c - authFailureThreshold) ≤ 2 ^ (c' - authFailureThreshold) :=
    Nat.pow_le_pow_right (by decide) (Nat.sub_le_sub_right h _)
  have hmul := Nat.mul_le_mul_left authBackoffBaseSeconds hpow
  unfold intendedSeconds
  omega

theorem base_le_intendedSeconds (c : Nat) : authBackoffBaseSeconds ≤ intendedSeconds c :=
  intendedSeconds_mono (c := 0) (Nat.zero_le c)

/-- The product wraps to zero at an exponent of 62. -/
theorem backoffSeconds_eq_iff {c : Nat} (h : authFailureThreshold ≤ c) :
    backoffSeconds c = intendedSeconds c ↔ c < 67 := by
  have hexp : c - authFailureThreshold < 62 ↔ c < 67 := by
    unfold authFailureThreshold at *
    omega
  have hbase := base_le_intendedSeconds c
  rw [← hexp]
  unfold backoffSeconds intendedSeconds at *
  generalize c - authFailureThreshold = e at *
  have hsmall : ∀ e < 62, min (authBackoffBaseSeconds * (if e < 64 then 2 ^ e else 0) % 2 ^ 64)
      maxAuthBackoffSeconds = min (authBackoffBaseSeconds * 2 ^ e) maxAuthBackoffSeconds := by
    decide
  simp only []
  constructor
  · intro heq
    by_contra hlarge
    have hzero : authBackoffBaseSeconds * (if e < 64 then 2 ^ e else 0) % 2 ^ 64 = 0 := by
      split
      · obtain rfl | rfl : e = 62 ∨ e = 63 := by omega
        · decide
        · decide
      · decide
    rw [hzero] at heq
    rw [← heq] at hbase
    exact absurd hbase (by decide)
  · exact hsmall e

/-- A backoff of this many seconds, from now on, is the intended one for the failures that
are counted: at least the base, at most the maximum, and not shorter than one for fewer
failures. -/
structure Applied (now seconds : Nat) (entry : AuthFailureEntry) : Prop where
  backoffUntil : entry.backoffUntil = some (now + seconds * 10 ^ 9)
  intended : seconds = intendedSeconds entry.failureCount
  base_le : authBackoffBaseSeconds ≤ seconds
  le_max : seconds ≤ maxAuthBackoffSeconds
  mono : ∀ c, authFailureThreshold ≤ c → c ≤ entry.failureCount → backoffSeconds c ≤ seconds

end AuthFailureEntry

namespace AuthFailureLimiter

/-- The failures that are counted for an address. -/
def failures (l : AuthFailureLimiter) (ip : String) : Nat :=
  (l.entries.read ip).elim 0 AuthFailureEntry.failureCount

end AuthFailureLimiter

/-- What a failure does to an entry: it is not counted, or it is and may begin a backoff. -/
theorem AuthFailureEntry.recordFailure_cases (now : Nat) (found : Option AuthFailureEntry) :
    (recordFailure now found).1.failureCount = (orNew now found).failureCount ∨
      (recordFailure now found).1 = ⟨(orNew now found).nextCount,
        if authFailureThreshold ≤ (orNew now found).nextCount then
          some (now + backoffSeconds (orNew now found).nextCount * 10 ^ 9) else none, now⟩ := by
  unfold recordFailure
  generalize orNew now found = entry
  have hcount : ({ entry with lastAccess := now } : AuthFailureEntry).nextCount =
      entry.nextCount := rfl
  simp only [hcount]
  by_cases hbackoff : ({ entry with lastAccess := now } : AuthFailureEntry).inBackoff now = true
  · simp [hbackoff]
  · by_cases hreached : authFailureThreshold ≤ entry.nextCount <;> simp [hbackoff, hreached]

/-- A failure that is counted begins a backoff from the threshold on. -/
theorem AuthFailureEntry.raised {now : Nat} {found : Option AuthFailureEntry}
    (hraised : found.elim 0 failureCount < (recordFailure now found).1.failureCount)
    (hthreshold : authFailureThreshold ≤ (recordFailure now found).1.failureCount) :
    (recordFailure now found).1.failureCount = found.elim 0 failureCount + 1 ∧
      (recordFailure now found).1.backoffUntil =
        some (now + backoffSeconds (recordFailure now found).1.failureCount * 10 ^ 9) := by
  have hfound : (orNew now found).failureCount = found.elim 0 failureCount := by
    cases found <;> rfl
  rw [← hfound] at hraised ⊢
  rcases recordFailure_cases now found with hsame | hcounted
  · omega
  · rw [hcounted] at hraised hthreshold ⊢
    refine ⟨?_, if_pos hthreshold⟩
    -- a counter that wraps is not raised
    unfold nextCount at hraised ⊢
    simp only at hraised ⊢
    omega

open AuthFailureEntry in
/-- A failure that is counted, from the threshold on, begins the backoff that is intended
for its count, if and only if fewer than 66 were counted before it. -/
theorem backoff_applied_iff (order : HashOrder) (now : Nat) (ip : String) (l : AuthFailureLimiter)
    (entry : AuthFailureEntry)
    (hentry : (l.recordFailure order now ip).2.entries.read ip = some entry)
    (hraised : l.failures ip < entry.failureCount)
    (hthreshold : authFailureThreshold ≤ entry.failureCount) :
    (∃ seconds, entry.Applied now seconds) ↔ l.failures ip < 66 := by
  have hfound : (l.makeRoom order now ip).entries.read ip = l.entries.read ip := by
    cases hread : l.entries.read ip with
    | some found => rw [AuthFailureLimiter.makeRoom_of_read hread, hread]
    | none => exact AuthFailureLimiter.read_makeRoom_none hread
  simp only [AuthFailureLimiter.recordFailure, Files.read_write_self, Option.some.injEq,
    hfound] at hentry
  subst hentry
  obtain ⟨hcount, huntil⟩ := AuthFailureEntry.raised hraised hthreshold
  have hlt : l.failures ip < 66 ↔ (recordFailure now (l.entries.read ip)).1.failureCount < 67 := by
    rw [hcount]
    unfold AuthFailureLimiter.failures
    omega
  rw [hlt, ← backoffSeconds_eq_iff hthreshold]
  constructor
  · intro happlied
    obtain ⟨seconds, happlied⟩ := happlied
    have heq := Option.some.inj (huntil.symm.trans happlied.backoffUntil)
    rw [← happlied.intended]
    omega
  · intro hright
    refine ⟨_, huntil, hright, ?_, ?_, fun c hc hle => ?_⟩
    · rw [hright]
      exact base_le_intendedSeconds _
    · exact Nat.min_le_right _ _
    · have hsmall := (backoffSeconds_eq_iff hthreshold).mp hright
      rw [hright, (backoffSeconds_eq_iff hc).mpr (by omega)]
      exact intendedSeconds_mono hle

/-- Failures of one address, each when the backoff of the one before has expired. -/
def guesses (n : Nat) : List Limiters.Act :=
  (List.range n).map fun i => ⟨i * 600 * 10 ^ 9, .recordFailure .same "192.0.2.1"⟩

/-- The limiter after these failures. -/
def guessed (n : Nat) : AuthFailureLimiter :=
  (final Limiters.next (Limiters.init 60 (60 * 10 ^ 9)) (guesses n)).auth

open AuthFailureEntry in
/-- The fifth failure. -/
theorem backoff_applied_five : ∃ seconds,
    (⟨5, some (60 * 10 ^ 9), 0⟩ : AuthFailureEntry).Applied 0 seconds := by
  have hread : (((guessed 4).recordFailure .same 0 "192.0.2.1").2.entries.read "192.0.2.1") =
      some ⟨5, some (60 * 10 ^ 9), 0⟩ := by
    decide
  exact (backoff_applied_iff .same 0 "192.0.2.1" (guessed 4) _ hread (by decide)
    (by decide)).mpr (by decide)

open Limiters in
/-- The 67th failure begins a backoff of no time. -/
theorem no_backoff_at_67 :
    ¬ ∀ (maxRequests windowDuration : Nat) (s : Limiters),
      Reaches Limiters.next Timely (Limiters.init maxRequests windowDuration) s →
      ∀ (order : HashOrder) (now : Nat) (ip : String) (entry : AuthFailureEntry), s.now ≤ now →
        (s.auth.recordFailure order now ip).2.entries.read ip = some entry →
        s.auth.failures ip < entry.failureCount → authFailureThreshold ≤ entry.failureCount →
        ∃ seconds, entry.Applied now seconds := by
  intro h
  have hrun : Permitted Limiters.next Timely (Limiters.init 60 (60 * 10 ^ 9)) (guesses 66) := by
    unfold Timely
    decide
  have happlied := h 60 (60 * 10 ^ 9) _ hrun.reaches .same (66 * 600 * 10 ^ 9) "192.0.2.1"
    ⟨67, some (66 * 600 * 10 ^ 9), 66 * 600 * 10 ^ 9⟩ (by decide +kernel) (by decide +kernel)
    (by decide +kernel) (by decide)
  obtain ⟨seconds, happlied⟩ := happlied
  have huntil := Option.some.inj happlied.backoffUntil
  have hbase := happlied.base_le
  unfold authBackoffBaseSeconds at hbase
  omega

end Deltaship
