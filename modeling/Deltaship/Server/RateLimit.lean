import Deltaship.Lib.Files
import Deltaship.Server.AuthBackoff
import Mathlib.Data.List.Sort

/-!
# Deltaship.Server.RateLimit

`rate_limit.rs`: the limiter of requests and that of failed authentications, with the
sweeps that reclaim their entries.

The clock and the order in which a hash map is walked are inputs.  Times are in
nanoseconds.  What happens to the entry of one address at a failure or a success is in
`Deltaship.Server.AuthBackoff`.
-/

namespace Deltaship

/-! ## eviction -/

/-- `MAX_ENTRIES` of the limiters. -/
def maxLimiterEntries : Nat := 100000

/-- `LRU_EVICTION_COUNT`. -/
def lruEvictionCount : Nat := maxLimiterEntries / 10

/-- The order in which a hash map is walked. -/
structure HashOrder where
  walk : List String → List String
  perm : ∀ ips, (walk ips).Perm ips

/-- A map that is walked in the order of its list. -/
def HashOrder.same : HashOrder := ⟨id, fun _ => .rfl⟩

section Evict

variable {ε : Type} (order : HashOrder) (evictable : ε → Bool) (lastAccess : ε → Nat)
  (entries : Files String ε)

/-- The addresses to evict: the oldest of a sample of the entries that may go. -/
def evicted : List String :=
  let evict := min lruEvictionCount entries.size
  let sample := min (evict * 4) entries.size
  let candidates :=
    ((order.walk entries.paths).filter fun ip => (entries.read ip).any evictable).take sample
  (candidates.insertionSort fun ip ip' =>
    ((entries.read ip).map lastAccess).getD 0 ≤ ((entries.read ip').map lastAccess).getD 0).take evict

/-- Evict entries of a full map. -/
def evictSampled : Files String ε :=
  (evicted order evictable lastAccess entries).foldl Files.remove entries

end Evict

/-! ## the limiter of requests -/

/-- `RateLimitEntry`. -/
structure RateLimitEntry where
  count : Nat
  windowStart : Nat
  lastAccess : Nat
deriving DecidableEq, Repr

/-- The entry that a request is counted in; its window is reset if it has expired. -/
def RateLimitEntry.current (windowDuration now : Nat) (entry : Option RateLimitEntry) :
    RateLimitEntry :=
  let entry := { entry.getD ⟨0, now, now⟩ with lastAccess := now }
  if windowDuration ≤ now - entry.windowStart then { entry with count := 0, windowStart := now }
  else entry

/-- `RateLimiter`. -/
structure RateLimiter where
  entries : Files String RateLimitEntry
  maxRequests : Nat
  windowDuration : Nat

namespace RateLimiter

/-- `RateLimiter::new`. -/
def new (maxRequests windowDuration : Nat) : RateLimiter :=
  ⟨Files.empty, maxRequests, windowDuration⟩

variable (order : HashOrder) (now : Nat) (ip : String) (l : RateLimiter)

/-- `cleanup_expired_entries`; the task of `spawn_cleanup_task` does the same. -/
def cleanupExpiredEntries : RateLimiter :=
  { l with entries := l.entries.retain fun _ entry => now - entry.windowStart < l.windowDuration }

/-- `evict_when_full`. -/
def evictWhenFull : RateLimiter :=
  if l.entries.size < maxLimiterEntries then l
  else
    let l := l.cleanupExpiredEntries now
    if l.entries.size < maxLimiterEntries then l
    else { l with entries := evictSampled order (fun _ => true) (·.lastAccess) l.entries }

/-- Make room for a new address, if there is none. -/
def makeRoom : RateLimiter :=
  if (l.entries.read ip).isNone && maxLimiterEntries ≤ l.entries.size then
    l.evictWhenFull order now
  else l

/-- `check_rate_limit`: whether the request is admitted. -/
def checkRateLimit : Bool × RateLimiter :=
  let l := l.makeRoom order now ip
  let entry := RateLimitEntry.current l.windowDuration now (l.entries.read ip)
  if l.maxRequests ≤ entry.count then (false, { l with entries := l.entries.write ip entry })
  else (true, { l with entries := l.entries.write ip { entry with count := entry.count + 1 } })

end RateLimiter

/-! ## the limiter of failures -/

/-- `AuthFailureLimiter`. -/
structure AuthFailureLimiter where
  entries : Files String AuthFailureEntry

namespace AuthFailureLimiter

/-- `AuthFailureLimiter::new`. -/
def new : AuthFailureLimiter := ⟨Files.empty⟩

variable (order : HashOrder) (now : Nat) (ip : String) (l : AuthFailureLimiter)

/-- `cleanup_expired_entries`; the task of `spawn_cleanup_task` does the same. -/
def cleanupExpiredEntries : AuthFailureLimiter :=
  ⟨l.entries.retain fun _ entry =>
    entry.inBackoff now || now - entry.lastAccess < maxAuthBackoffSeconds * 10 ^ 9⟩

/-- `evict_when_full`. -/
def evictWhenFull : AuthFailureLimiter :=
  if l.entries.size < maxLimiterEntries then l
  else
    let l := l.cleanupExpiredEntries now
    if l.entries.size < maxLimiterEntries then l
    else ⟨evictSampled order (fun entry => !entry.inBackoff now) (·.lastAccess) l.entries⟩

/-- Make room for a new address, if there is none. -/
def makeRoom : AuthFailureLimiter :=
  if (l.entries.read ip).isNone && maxLimiterEntries ≤ l.entries.size then
    l.evictWhenFull order now
  else l

/-- `record_failure`: whether the address is not in backoff. -/
def recordFailure : Bool × AuthFailureLimiter :=
  let l := l.makeRoom order now ip
  let recorded := Deltaship.recordFailure now (l.entries.read ip)
  (recorded.2, ⟨l.entries.write ip recorded.1⟩)

/-- `record_success`. -/
def recordSuccess : AuthFailureLimiter :=
  match Deltaship.recordSuccess now (l.entries.read ip) with
  | none => ⟨l.entries.remove ip⟩
  | some entry => ⟨l.entries.write ip entry⟩

/-- `is_blocked`. -/
def isBlocked : Bool := Deltaship.isBlocked now (l.entries.read ip)

end AuthFailureLimiter

/-! ## runs -/

/-- The limiters of a server, and the time of the last call. -/
structure Limiters where
  rate : RateLimiter
  auth : AuthFailureLimiter
  now : Nat

namespace Limiters

/-- The calls, and the sweeps of the cleanup tasks. -/
inductive Call where
  | checkRateLimit (order : HashOrder) (ip : String)
  | recordFailure (order : HashOrder) (ip : String)
  | recordSuccess (ip : String)
  | isBlocked (ip : String)
  | sweepRate
  | sweepAuth

/-- A call at a time. -/
structure Act where
  now : Nat
  call : Call

/-- The limiters of a server that starts. -/
def init (maxRequests windowDuration : Nat) : Limiters :=
  ⟨RateLimiter.new maxRequests windowDuration, AuthFailureLimiter.new, 0⟩

/-- What a call does. -/
def next (s : Limiters) (a : Act) : Limiters :=
  match a.call with
  | .checkRateLimit order ip =>
      { s with rate := (s.rate.checkRateLimit order a.now ip).2, now := a.now }
  | .recordFailure order ip =>
      { s with auth := (s.auth.recordFailure order a.now ip).2, now := a.now }
  | .recordSuccess ip => { s with auth := s.auth.recordSuccess a.now ip, now := a.now }
  | .isBlocked _ => { s with now := a.now }
  | .sweepRate => { s with rate := s.rate.cleanupExpiredEntries a.now, now := a.now }
  | .sweepAuth => { s with auth := s.auth.cleanupExpiredEntries a.now, now := a.now }

/-- The clock does not go back. -/
def Timely (s : Limiters) (a : Act) : Prop := s.now ≤ a.now

end Limiters

end Deltaship
