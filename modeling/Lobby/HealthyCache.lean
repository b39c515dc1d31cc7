/-
# The cached number of healthy endpoints

`healthy_endpoint_count` answers from a cache while the cache is fresh.  What it takes for
the time is `Instant::now().elapsed()`, the duration between two readings of the clock that
follow each other, on both sides of the comparison: the cache is fresh unless the call itself
is suspended between the two for as long as the cache may live.  So it shows the pool as it was
when an endpoint was added last.

The pool goes through additions, changes of the health of an endpoint, and counts, at any
times (`Reachable`); the pools of the past are kept with the moments at which they held.
-/
import Lobby.EndpointPool
import Lobby.Timeline

namespace Lobby

open Timelines

/-- `CACHE_TTL_SECS` -/
def cacheTtlSecs : UInt64 := 5

/-- `CACHE_TTL_SECS` on the clock. -/
def cacheTtl : ℕ := cacheTtlSecs.toNat * 1000000000

/-- `Instant::now()` at the first reading, and the seconds of its `elapsed()` at the second. -/
def Readings.elapsedSecs (t : Readings) : UInt64 :=
  UInt64.ofNat ((t.read 1 - t.read 0) / 1000000000)

/-- `u64::saturating_sub` -/
def saturatingSub (a b : UInt64) : UInt64 := if b ≤ a then a - b else 0

/-- The endpoints of a chain, with the indices of the healthy ones as they were cached. -/
structure CachedPool (F : Type) where
  pool : EndpointPool F
  healthyCache : List ℕ
  cacheTimestamp : UInt64

/-- The loop of `update_healthy_cache`. -/
def EndpointPool.healthyIndices {F : Type} (pool : EndpointPool F) : List ℕ :=
  (pool.endpoints.zipIdx.filter fun entry => entry.1.health.isAvailable).map Prod.snd

/-- The number of available endpoints. -/
def EndpointPool.availableCount {F : Type} (pool : EndpointPool F) : ℕ :=
  pool.endpoints.countP fun m => m.health.isAvailable

theorem length_healthyIndices {F : Type} (pool : EndpointPool F) :
    pool.healthyIndices.length = pool.availableCount := by
  have hfst : pool.endpoints = pool.endpoints.zipIdx.map Prod.fst := by simp
  rw [EndpointPool.healthyIndices, EndpointPool.availableCount, List.length_map,
    ← List.countP_eq_length_filter, hfst, List.countP_map]
  simp [Function.comp_def]

/-! ## The operations -/

namespace CachedPool

variable {F : Type}

def new : CachedPool F := ⟨.new, [], 0⟩

def updateHealthyCache (p : CachedPool F) (t : Readings) : CachedPool F :=
  { p with healthyCache := p.pool.healthyIndices, cacheTimestamp := t.elapsedSecs }

def addEndpoint (p : CachedPool F) (metrics : EndpointMetrics F) (t : Readings) : CachedPool F :=
  { p with pool := p.pool.addEndpoint metrics }.updateHealthyCache t

/-- Whether `healthy_endpoint_count` answers from the cache. -/
def IsFresh (p : CachedPool F) (t : Readings) : Prop :=
  saturatingSub t.elapsedSecs p.cacheTimestamp < cacheTtlSecs

instance (p : CachedPool F) (t : Readings) : Decidable (p.IsFresh t) :=
  inferInstanceAs (Decidable (_ < _))

def healthyEndpointCount (p : CachedPool F) (t : Readings) : ℕ × CachedPool F :=
  if p.IsFresh t then (p.healthyCache.length, p)
  else
    let p := p.updateHealthyCache (t.drop 2)
    (p.healthyCache.length, p)

end CachedPool

/-- What happens to a pool. -/
inductive CacheEvent (F : Type) : Type where
  | addEndpoint (metrics : EndpointMetrics F)
  /-- An endpoint records something, or its circuit breaker is activated. -/
  | healthChange (index : ℕ) (f : EndpointMetrics F → EndpointMetrics F)
  | healthyEndpointCount

/-- A pool with its past, and with the last moment at which the cache was updated. -/
structure CacheHistory (F : Type) where
  line : Timeline (CachedPool F)
  updatedAt : Instant
  updatedFrom : EndpointPool F

namespace CacheHistory

variable {F : Type}

def created (clock : Instant) : CacheHistory F := ⟨.start clock .new, clock, .new⟩

abbrev cached (h : CacheHistory F) : CachedPool F := h.line.current

/-- The pool after an event. -/
def after (h : CacheHistory F) (t : Readings) : CacheEvent F → CachedPool F
  | .addEndpoint metrics => h.cached.addEndpoint metrics t
  | .healthChange index f => { h.cached with pool := h.cached.pool.modify index f }
  | .healthyEndpointCount => (h.cached.healthyEndpointCount t).2

/-- Whether an event updates the cache. -/
def Updates (h : CacheHistory F) (t : Readings) : CacheEvent F → Prop
  | .addEndpoint _ => True
  | .healthChange _ _ => False
  | .healthyEndpointCount => ¬ h.cached.IsFresh t

instance (h : CacheHistory F) (t : Readings) : DecidablePred (h.Updates t)
  | .addEndpoint _ => instDecidableTrue
  | .healthChange _ _ => instDecidableFalse
  | .healthyEndpointCount => inferInstanceAs (Decidable (¬ _))

/-- An event that reads the clock at `t` and ends at `now`. -/
def perform (h : CacheHistory F) (t : Readings) (now : Instant) (event : CacheEvent F) :
    CacheHistory F where
  line := h.line.next now (h.after t event)
  updatedAt := if h.Updates t event then now else h.updatedAt
  updatedFrom := if h.Updates t event then (h.after t event).pool else h.updatedFrom

/-- The histories of a pool. -/
inductive Reachable : CacheHistory F → Prop where
  | created (clock : Instant) : Reachable (created clock)
  | perform {h : CacheHistory F} {t : Readings} {now : Instant} (hreach : Reachable h)
      (hfrom : h.line.clock ≤ t.read 0) (hto : ∀ k, t.read k ≤ now) (event : CacheEvent F) :
      Reachable (h.perform t now event)

/-- So many endpoints were available at some moment not longer before `now` than the cache may
live. -/
def CountedWithinTtl (h : CacheHistory F) (now : Instant) (count : ℕ) : Prop :=
  h.line.HeldWithin cacheTtl now fun p => count = p.pool.availableCount

/-! ## What the cache holds -/

variable {h : CacheHistory F} {t : Readings} {now : Instant}

theorem healthyEndpointCount_fresh {p : CachedPool F} (h : p.IsFresh t) :
    p.healthyEndpointCount t = (p.healthyCache.length, p) := if_pos h

theorem healthyEndpointCount_expired {p : CachedPool F} (h : ¬ p.IsFresh t) :
    p.healthyEndpointCount t
      = (p.pool.availableCount, p.updateHealthyCache (t.drop 2)) := by
  rw [CachedPool.healthyEndpointCount, if_neg h, ← length_healthyIndices]
  rfl

/-- The cache holds the healthy endpoints of the pool it was updated from, which was the pool
at that moment. -/
structure Cached (h : CacheHistory F) : Prop where
  cache : h.cached.healthyCache = h.updatedFrom.healthyIndices
  updatedAt_le : h.updatedAt ≤ h.line.clock
  heldAt : ∃ p, h.line.HeldAt h.updatedAt p ∧ p.pool = h.updatedFrom

/-- An event that updates the cache leaves the indices of the pool in it; another one leaves
the cache alone. -/
theorem healthyCache_after (h : CacheHistory F) (t : Readings) (event : CacheEvent F) :
    (h.after t event).healthyCache
      = if h.Updates t event then (h.after t event).pool.healthyIndices
        else h.cached.healthyCache := by
  cases event with
  | addEndpoint metrics => rw [if_pos (show h.Updates t (.addEndpoint metrics) from trivial)]; rfl
  | healthChange index f =>
      rw [if_neg (show ¬ h.Updates t (.healthChange index f) from id)]
      rfl
  | healthyEndpointCount =>
      by_cases hfresh : h.cached.IsFresh t
      · rw [if_neg (show ¬ h.Updates t .healthyEndpointCount from not_not_intro hfresh), after,
          healthyEndpointCount_fresh hfresh]
      · rw [if_pos (show h.Updates t .healthyEndpointCount from hfresh), after,
          healthyEndpointCount_expired hfresh]
        rfl

/-- The step lemma. -/
theorem Cached.perform (hcached : h.Cached) (hle : h.line.clock ≤ now) (event : CacheEvent F) :
    (h.perform t now event).Cached := by
  have hcache : (h.perform t now event).cached.healthyCache = _ := healthyCache_after h t event
  -- the cache is new, or it is the one from before and one moment older
  by_cases hupdates : h.Updates t event
  · have hat : (h.perform t now event).updatedAt = now := if_pos hupdates
    have hfrom : (h.perform t now event).updatedFrom = (h.after t event).pool := if_pos hupdates
    refine ⟨?_, hat.le, h.after t event, ?_, hfrom.symm⟩
    · rw [hcache, hfrom, if_pos hupdates]
    · rw [hat]
      exact Timeline.heldAt_current (l := (h.perform t now event).line) le_rfl
  · have hat : (h.perform t now event).updatedAt = h.updatedAt := if_neg hupdates
    have hfrom : (h.perform t now event).updatedFrom = h.updatedFrom := if_neg hupdates
    have hpast : h.updatedAt ≤ now := hcached.updatedAt_le.trans hle
    obtain ⟨p, hheld, hp⟩ := hcached.heldAt
    refine ⟨?_, hat ▸ hpast, p, ?_, hp.trans hfrom.symm⟩
    · rw [hcache, hfrom, if_neg hupdates, hcached.cache]
    · rw [hat]
      exact hheld.next hpast _

/-- The run lemma. -/
theorem Reachable.cached (hreach : h.Reachable) : h.Cached := by
  induction hreach with
  | created clock => exact ⟨rfl, le_rfl, .new, Timeline.heldAt_current le_rfl, rfl⟩
  | perform _ hfrom hto event ih => exact ih.perform (hfrom.trans (hto 0)) event

/-! ## Staleness -/

/-- **When a count is at most `CACHE_TTL_SECS` stale**, in every history: when the call is
suspended until the cache counts as expired, or as many endpoints as were available when the
cache was updated last were available at some moment within the time to live. -/
theorem countedWithinTtl_iff (hreach : h.Reachable) (hfrom : h.line.clock ≤ t.read 0)
    (hto : ∀ k, t.read k ≤ now) :
    h.CountedWithinTtl now (h.cached.healthyEndpointCount t).1
      ↔ ¬ h.cached.IsFresh t ∨ h.CountedWithinTtl now h.updatedFrom.availableCount := by
  by_cases hfresh : h.cached.IsFresh t
  · rw [healthyEndpointCount_fresh hfresh, hreach.cached.cache, length_healthyIndices]
    simp [hfresh]
  · rw [healthyEndpointCount_expired hfresh]
    refine iff_of_true ?_ (Or.inl hfresh)
    exact Timeline.heldWithin_current (hfrom.trans (hto 0)) rfl

/-- Shortly after an update, the endpoints it counted were available within the time to live. -/
theorem Reachable.updatedFrom_within (hreach : h.Reachable) (hle : h.line.clock ≤ now)
    (hupdated : now ≤ h.updatedAt + cacheTtl) :
    h.CountedWithinTtl now h.updatedFrom.availableCount := by
  have hcached := hreach.cached
  obtain ⟨p, hheld, hp⟩ := hcached.heldAt
  have hpast : h.updatedAt ≤ now := hcached.updatedAt_le.trans hle
  exact hheld.within hupdated hpast (congrArg EndpointPool.availableCount hp.symm)

/-! ## A stale count -/

/-- One endpoint is added, and its circuit breaker is activated a second later. -/
def broken : CacheHistory Float :=
  ((created 0).perform (.pausing 0 0) 0 (.addEndpoint .new)).perform (.pausing 1000000000 0)
    1000000000 (.healthChange 0 fun m => m.activateCircuitBreaker (.pausing 1000000000 0))

theorem reachable_broken : broken.Reachable := by
  refine .perform (.perform (.created 0) ?_ ?_ _) ?_ ?_ _
  · exact Nat.zero_le _
  · exact Readings.read_pausing_le 0 0
  · exact Nat.zero_le _
  · exact Readings.read_pausing_le 1000000000 0

/-- Three seconds later one endpoint is counted, though none is available any more: one was when
the endpoint was added, four seconds before. -/
theorem countedWithinTtl_broken :
    broken.Reachable ∧ broken.cached.pool.availableCount = 0
      ∧ broken.cached.IsFresh (.pausing 4000000000 0)
      ∧ (broken.cached.healthyEndpointCount (.pausing 4000000000 0)).1 = 1
      ∧ broken.CountedWithinTtl 4000000000
        (broken.cached.healthyEndpointCount (.pausing 4000000000 0)).1 := by
  have hclock : broken.line.clock ≤ 4000000000 := by decide
  refine ⟨reachable_broken, by decide +kernel, by decide +kernel, by decide +kernel, ?_⟩
  refine (countedWithinTtl_iff reachable_broken hclock
    (Readings.read_pausing_le 4000000000 0)).mpr (Or.inr ?_)
  exact reachable_broken.updatedFrom_within hclock (by decide)

/-- Ninety-nine seconds after the last one was available, one endpoint is still counted. -/
theorem broken_stale :
    broken.Reachable ∧ (broken.cached.healthyEndpointCount (.pausing 100000000000 0)).1 = 1
      ∧ ¬ broken.CountedWithinTtl 100000000000
        (broken.cached.healthyEndpointCount (.pausing 100000000000 0)).1 := by
  have hcount : (broken.cached.healthyEndpointCount (.pausing 100000000000 0)).1 = 1 := by
    decide +kernel
  have havailable : broken.cached.pool.availableCount = 0 := by decide +kernel
  refine ⟨reachable_broken, hcount, ?_⟩
  rintro ⟨moment, p, hwithin, -, hheld, heq⟩
  -- the endpoint was available for the first second only
  have hpast : ∀ era ∈ broken.line.past, era.upTo < moment := by
    have hupTo : ∀ era ∈ broken.line.past, era.upTo ≤ 1000000000 := by
      simp [broken, perform, created, Timeline.next, Timeline.start]
    intro era hera
    refine (hupTo era hera).trans_lt ?_
    have hwithin' : (100000000000 : ℕ) ≤ moment + 5000000000 := hwithin
    show (1000000000 : ℕ) < moment
    omega
  rw [hcount, hheld.eq hpast, havailable] at heq
  exact absurd heq one_ne_zero

end CacheHistory

end Lobby
