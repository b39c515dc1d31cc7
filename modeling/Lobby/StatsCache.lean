/-
# The cached statistics of the endpoints

`RpcClient` keeps two pools for each chain, one for each actor, and one cache of statistics
whose key is the chain.  `get_unary_endpoint_stats` therefore answers each actor with the
statistics of the actor that asked first while the entry is fresh.

A pool is shared by reference: the registries hold references, and anyone who has one may
change the endpoints behind it.  A call of the client happens at one moment.
-/
import Lobby.Types
import Lobby.EndpointMetrics
import Lobby.Timeline

namespace Lobby

open Timelines

/-- `STATS_CACHE_TTL_MS` -/
def statsCacheTtlMs : ℕ := 1000

/-- `STATS_CACHE_TTL_MS` on the clock. -/
def statsCacheTtl : ℕ := statsCacheTtlMs * 1000000

theorem le_of_elapsed {now timestamp : ℕ}
    (h : (now - timestamp) / 1000000 < statsCacheTtlMs) : now ≤ timestamp + statsCacheTtl := by
  unfold statsCacheTtl statsCacheTtlMs at *
  omega

/-! ## Statistics -/

inductive SelectActor : Type where
  | broadcast
  | validator
  deriving DecidableEq

/-- The metrics of an endpoint with its id and url. -/
structure EndpointEntry (F : Type) where
  id : String
  url : String
  metrics : EndpointMetrics F

structure EndpointStats (F : Type) where
  id : String
  url : String
  health : EndpointHealth
  avgResponseTimeMs : F
  errorRate : F
  score : F
  requestCount : UInt64
  errorCount : UInt64

/-- The statistics of a snapshot. -/
def EndpointEntry.snapshot {F : Type} [F64 F] (entry : EndpointEntry F) : EndpointStats F where
  id := entry.id
  url := entry.url
  health := entry.metrics.health
  avgResponseTimeMs := entry.metrics.averageResponseTimeMs
  errorRate := entry.metrics.errorRate
  score := entry.metrics.loadBalancingScore
  requestCount := entry.metrics.requestCount
  errorCount := entry.metrics.errorCount

/-- `endpoints_metrics` of a pool. -/
def endpointsMetrics {F : Type} [F64 F] (pool : List (EndpointEntry F)) :
    List (EndpointStats F) :=
  pool.map EndpointEntry.snapshot

/-! ## The client -/

/-- A reference to a pool. -/
abbrev PoolRef := ℕ

/-- The client, with the endpoints behind all references. -/
structure RpcClient (F : Type) where
  broadcast : ChainId → Option PoolRef
  validator : ChainId → Option PoolRef
  pools : PoolRef → List (EndpointEntry F)
  statsCache : ChainId → Option (List (EndpointStats F) × Instant)

namespace RpcClient

variable {F : Type}

def new (pools : PoolRef → List (EndpointEntry F)) : RpcClient F :=
  ⟨fun _ => none, fun _ => none, pools, fun _ => none⟩

def getPool (c : RpcClient F) : SelectActor → ChainId → Option PoolRef
  | .broadcast, chainId => c.broadcast chainId
  | .validator, chainId => c.validator chainId

def registerChain (c : RpcClient F) (chainId : ChainId) (broadcastPool validatorPool : PoolRef) :
    RpcClient F :=
  { c with
    broadcast := Function.update c.broadcast chainId (some broadcastPool)
    validator := Function.update c.validator chainId (some validatorPool)
    statsCache := Function.update c.statsCache chainId none }

/-- The entry of the cache while it is fresh: `timestamp.elapsed().as_millis()` is below
`STATS_CACHE_TTL_MS`. -/
def freshStats (c : RpcClient F) (now : Instant) (chainId : ChainId) :
    Option (List (EndpointStats F) × Instant) :=
  (c.statsCache chainId).filter fun entry => (now - entry.2) / 1000000 < statsCacheTtlMs

variable [F64 F]

def getUnaryEndpointStats (c : RpcClient F) (now : Instant) (actor : SelectActor)
    (chainId : ChainId) : Option (List (EndpointStats F)) × RpcClient F :=
  match c.freshStats now chainId with
  | some (stats, _) => (some stats, c)
  | none =>
    match c.getPool actor chainId with
    | none => (none, c)
    | some pool =>
      let stats := endpointsMetrics (c.pools pool)
      (some stats,
        { c with statsCache := Function.update c.statsCache chainId (some (stats, now)) })

def refreshStats (c : RpcClient F) (now : Instant) (actor : SelectActor) (chainId : ChainId) :
    Option (List (EndpointStats F)) × RpcClient F :=
  { c with statsCache := Function.update c.statsCache chainId none }.getUnaryEndpointStats now
    actor chainId

/-! ### The three ways of a query -/

variable {c : RpcClient F} {now : Instant} {actor : SelectActor} {chainId : ChainId}

theorem getUnaryEndpointStats_fresh {stats : List (EndpointStats F)} {timestamp : Instant}
    (h : c.freshStats now chainId = some (stats, timestamp)) :
    c.getUnaryEndpointStats now actor chainId = (some stats, c) := by
  rw [getUnaryEndpointStats, h]

theorem getUnaryEndpointStats_unknown (h : c.freshStats now chainId = none)
    (hpool : c.getPool actor chainId = none) :
    c.getUnaryEndpointStats now actor chainId = (none, c) := by
  rw [getUnaryEndpointStats, h]
  dsimp only
  rw [hpool]

theorem getUnaryEndpointStats_taken {pool : PoolRef} (h : c.freshStats now chainId = none)
    (hpool : c.getPool actor chainId = some pool) :
    c.getUnaryEndpointStats now actor chainId
      = (some (endpointsMetrics (c.pools pool)),
        { c with statsCache := Function.update c.statsCache chainId
                  (some (endpointsMetrics (c.pools pool), now)) }) := by
  rw [getUnaryEndpointStats, h]
  dsimp only
  rw [hpool]

omit [F64 F] in
/-- Without an entry none is fresh. -/
theorem freshStats_removed (c : RpcClient F) (now : Instant) (chainId : ChainId) :
    { c with statsCache := Function.update c.statsCache chainId none }.freshStats now chainId
      = none := by
  simp [freshStats]

/-- A refreshed answer is a snapshot of the pool of the actor. -/
theorem refreshStats_eq (c : RpcClient F) (now : Instant) (actor : SelectActor)
    (chainId : ChainId) : (c.refreshStats now actor chainId).1
      = (c.getPool actor chainId).map fun pool => endpointsMetrics (c.pools pool) := by
  rw [refreshStats]
  cases hpool : c.getPool actor chainId with
  | none =>
      rw [getUnaryEndpointStats_unknown (freshStats_removed c now chainId)]
      · rfl
      · cases actor <;> exact hpool
  | some pool =>
      have hremoved : RpcClient.getPool { c with
          statsCache := Function.update c.statsCache chainId none } actor chainId
            = some pool := by
        cases actor <;> exact hpool
      rw [getUnaryEndpointStats_taken (freshStats_removed c now chainId) hremoved]
      rfl

end RpcClient

/-- What happens to a client. -/
inductive ClientEvent (F : Type) : Type where
  | registerChain (chainId : ChainId) (broadcastPool validatorPool : PoolRef)
  /-- The endpoints behind a reference change. -/
  | poolChange (pool : PoolRef) (f : List (EndpointEntry F) → List (EndpointEntry F))
  | refreshStats (actor : SelectActor) (chainId : ChainId)
  | getUnaryEndpointStats (actor : SelectActor) (chainId : ChainId)

/-- A client with its past, and with the reference that each entry of the cache was taken
from. -/
structure ClientHistory (F : Type) where
  line : Timeline (RpcClient F)
  takenFrom : ChainId → Option PoolRef

namespace ClientHistory

variable {F : Type}

def created (clock : Instant) (pools : PoolRef → List (EndpointEntry F)) : ClientHistory F :=
  ⟨.start clock (.new pools), fun _ => none⟩

abbrev client (h : ClientHistory F) : RpcClient F := h.line.current

variable [F64 F]

/-- The client after an event at the moment `now`. -/
def after (h : ClientHistory F) (now : Instant) : ClientEvent F → RpcClient F
  | .registerChain chainId broadcastPool validatorPool =>
    h.client.registerChain chainId broadcastPool validatorPool
  | .poolChange pool f =>
    { h.client with pools := Function.update h.client.pools pool (f (h.client.pools pool)) }
  | .refreshStats actor chainId => (h.client.refreshStats now actor chainId).2
  | .getUnaryEndpointStats actor chainId => (h.client.getUnaryEndpointStats now actor chainId).2

/-- The reference that the entry of the chain is taken from after a query. -/
def takenBy (h : ClientHistory F) (actor : SelectActor) (chainId : ChainId) :
    ChainId → Option PoolRef :=
  match h.client.getPool actor chainId with
  | none => h.takenFrom
  | some pool => Function.update h.takenFrom chainId (some pool)

def takenAfter (h : ClientHistory F) (now : Instant) : ClientEvent F → ChainId → Option PoolRef
  | .registerChain _ _ _ | .poolChange _ _ => h.takenFrom
  | .refreshStats actor chainId => h.takenBy actor chainId
  | .getUnaryEndpointStats actor chainId =>
    if (h.client.freshStats now chainId).isSome then h.takenFrom else h.takenBy actor chainId

def perform (h : ClientHistory F) (now : Instant) (event : ClientEvent F) : ClientHistory F :=
  ⟨h.line.next now (h.after now event), h.takenAfter now event⟩

/-- The histories of a client. -/
inductive Reachable : ClientHistory F → Prop where
  | created (clock : Instant) (pools : PoolRef → List (EndpointEntry F)) :
      Reachable (created clock pools)
  | perform {h : ClientHistory F} {now : Instant} (hreach : Reachable h)
      (hle : h.line.clock ≤ now) (event : ClientEvent F) : Reachable (h.perform now event)

/-- The statistics are a snapshot of the pool, not older than the cache may be. -/
def SnapshotWithinTtl (h : ClientHistory F) (now : Instant) (pool : PoolRef)
    (stats : List (EndpointStats F)) : Prop :=
  h.line.HeldWithin statsCacheTtl now fun c => stats = endpointsMetrics (c.pools pool)

/-- The actor is answered with its own pool, if it has one. -/
def OwnStats (h : ClientHistory F) (now : Instant) (actor : SelectActor) (chainId : ChainId) :
    Prop :=
  match (h.client.getUnaryEndpointStats now actor chainId).1 with
  | none => h.client.getPool actor chainId = none
  | some stats => ∃ pool, h.client.getPool actor chainId = some pool
      ∧ h.SnapshotWithinTtl now pool stats

/-! ## Where the entries come from -/

variable {h : ClientHistory F} {now : Instant} {actor : SelectActor} {chainId : ChainId}

/-- An entry of the cache is a snapshot of the pool it was taken from. -/
def Cached (h : ClientHistory F) : Prop :=
  ∀ chainId stats at', h.client.statsCache chainId = some (stats, at') → at' ≤ h.line.clock
    ∧ ∃ pool c, h.takenFrom chainId = some pool ∧ h.line.HeldAt at' c
      ∧ stats = endpointsMetrics (c.pools pool)

/-- An entry of the cache is gone, or left alone, or taken from a pool. -/
def EntryAfter (h : ClientHistory F) (now : Instant) (c : RpcClient F)
    (taken : ChainId → Option PoolRef) (chainId : ChainId) : Prop :=
  c.statsCache chainId = none
    ∨ c.statsCache chainId = h.client.statsCache chainId ∧ taken chainId = h.takenFrom chainId
    ∨ ∃ pool, taken chainId = some pool
      ∧ c.statsCache chainId = some (endpointsMetrics (c.pools pool), now)

/-- A query that is not answered from the cache, of the client or after a removal from it. -/
theorem entryAfter_query {c : RpcClient F} {asked : ChainId}
    (hfresh : c.freshStats now asked = none)
    (hpool : c.getPool actor asked = h.client.getPool actor asked)
    (hcache : ∀ chainId, c.statsCache chainId = none
      ∨ c.statsCache chainId = h.client.statsCache chainId) (chainId : ChainId) :
    h.EntryAfter now (c.getUnaryEndpointStats now actor asked).2 (h.takenBy actor asked)
      chainId := by
  rw [takenBy]
  cases hp : h.client.getPool actor asked with
  | none =>
      -- a chain without a pool: nothing is stored
      rw [RpcClient.getUnaryEndpointStats_unknown hfresh (hpool.trans hp)]
      exact (hcache chainId).imp_right fun hsame => Or.inl ⟨hsame, rfl⟩
  | some pool =>
      -- the statistics are taken and stored under the chain that was asked for
      rw [RpcClient.getUnaryEndpointStats_taken hfresh (hpool.trans hp)]
      unfold EntryAfter
      dsimp only
      by_cases hchain : chainId = asked
      · subst hchain
        rw [Function.update_self, Function.update_self]
        exact Or.inr (Or.inr ⟨pool, rfl, rfl⟩)
      · rw [Function.update_of_ne hchain, Function.update_of_ne hchain]
        exact (hcache chainId).imp_right fun hsame => Or.inl ⟨hsame, rfl⟩

/-- What an event does to an entry of the cache. -/
theorem entryAfter (h : ClientHistory F) (now : Instant) (event : ClientEvent F)
    (chainId : ChainId) :
    h.EntryAfter now (h.after now event) (h.takenAfter now event) chainId := by
  cases event with
  | registerChain registered broadcastPool validatorPool =>
      by_cases hchain : chainId = registered
      · subst hchain
        exact Or.inl (Function.update_self ..)
      · exact Or.inr (Or.inl ⟨Function.update_of_ne hchain .., rfl⟩)
  | poolChange pool f => exact Or.inr (Or.inl ⟨rfl, rfl⟩)
  | refreshStats actor asked =>
      -- the entry is dropped first, so the query takes new statistics
      refine entryAfter_query (RpcClient.freshStats_removed h.client now asked) ?_ ?_ chainId
      · cases actor <;> rfl
      · intro chainId
        by_cases hchain : chainId = asked
        · subst hchain
          exact Or.inl (Function.update_self ..)
        · exact Or.inr (Function.update_of_ne hchain ..)
  | getUnaryEndpointStats actor asked =>
      rw [after, takenAfter]
      cases hfresh : h.client.freshStats now asked with
      | some entry =>
          rw [RpcClient.getUnaryEndpointStats_fresh hfresh]
          exact Or.inr (Or.inl ⟨rfl, rfl⟩)
      | none => exact entryAfter_query hfresh rfl (fun _ => Or.inr rfl) chainId

/-- The step lemma. -/
theorem Cached.perform (hcached : h.Cached) (hle : h.line.clock ≤ now) (event : ClientEvent F) :
    (h.perform now event).Cached := by
  intro chainId stats at' hentry
  change (h.after now event).statsCache chainId = _ at hentry
  rcases h.entryAfter now event chainId with hnone | ⟨hsame, htaken⟩ | ⟨pool, htaken, hnew⟩
  · rw [hnone] at hentry
    cases hentry
  · rw [hsame] at hentry
    obtain ⟨hat, pool, c, hpool, hheld, hstats⟩ := hcached chainId stats at' hentry
    exact ⟨hat.trans hle, pool, c, htaken.trans hpool, hheld.next (hat.trans hle) _, hstats⟩
  · rw [hnew] at hentry
    cases hentry
    refine ⟨le_rfl, pool, _, htaken, ?_, rfl⟩
    exact Timeline.heldAt_current (l := (h.perform now event).line) le_rfl

/-- The run lemma. -/
theorem Reachable.cached (hreach : h.Reachable) : h.Cached := by
  induction hreach with
  | created clock pools =>
      intro chainId stats at' hentry
      cases hentry
  | perform _ hle event ih => exact ih.perform hle event

/-! ## Whose statistics are returned -/

/-- A fresh entry is a snapshot, not too old, of the pool it was taken from. -/
theorem Cached.fresh (hcached : h.Cached) (hle : h.line.clock ≤ now)
    {stats : List (EndpointStats F)} {timestamp : Instant}
    (hfresh : h.client.freshStats now chainId = some (stats, timestamp)) :
    ∃ pool, h.takenFrom chainId = some pool ∧ h.SnapshotWithinTtl now pool stats := by
  obtain ⟨hentry, hage⟩ := Option.filter_eq_some_iff.mp hfresh
  obtain ⟨hat, pool, c, hpool, hheld, hstats⟩ := hcached chainId stats timestamp hentry
  exact ⟨pool, hpool, hheld.within (le_of_elapsed (of_decide_eq_true hage)) (hat.trans hle) hstats⟩

/-- The entry that the actor would be answered from was taken from its own pool. -/
def OwnEntry (h : ClientHistory F) (now : Instant) (actor : SelectActor) (chainId : ChainId) :
    Prop :=
  h.client.freshStats now chainId ≠ none → h.takenFrom chainId = h.client.getPool actor chainId

/-- The pool that the entry was taken from and the one of the actor never showed the same
statistics, unless they are one pool. -/
def PoolsDiffer (h : ClientHistory F) (actor : SelectActor) (chainId : ChainId) : Prop :=
  ∀ pool pool' moment moment' c c', h.takenFrom chainId = some pool →
    h.client.getPool actor chainId = some pool' → h.line.HeldAt moment c →
    h.line.HeldAt moment' c' →
    endpointsMetrics (c.pools pool) = endpointsMetrics (c'.pools pool') → pool = pool'

theorem Cached.ownStats (hcached : h.Cached) (hle : h.line.clock ≤ now)
    (hentry : h.OwnEntry now actor chainId) : h.OwnStats now actor chainId := by
  rw [OwnStats]
  cases hfresh : h.client.freshStats now chainId with
  | some entry =>
      obtain ⟨stats, timestamp⟩ := entry
      rw [RpcClient.getUnaryEndpointStats_fresh hfresh]
      obtain ⟨pool, hpool, hsnapshot⟩ := hcached.fresh hle hfresh
      have hown := hentry (by simp [hfresh])
      exact ⟨pool, hown.symm.trans hpool, hsnapshot⟩
  | none =>
      cases hpool : h.client.getPool actor chainId with
      | none =>
          rw [RpcClient.getUnaryEndpointStats_unknown hfresh hpool]
      | some pool =>
          rw [RpcClient.getUnaryEndpointStats_taken hfresh hpool]
          exact ⟨pool, rfl, Timeline.heldWithin_current hle rfl⟩

theorem Cached.ownEntry (hcached : h.Cached) (hle : h.line.clock ≤ now)
    (hdiffer : h.PoolsDiffer actor chainId) (hown : h.OwnStats now actor chainId) :
    h.OwnEntry now actor chainId := by
  intro hsome
  obtain ⟨⟨stats, timestamp⟩, hfresh⟩ := Option.ne_none_iff_exists'.mp hsome
  rw [OwnStats, RpcClient.getUnaryEndpointStats_fresh hfresh] at hown
  obtain ⟨pool, hpool, moment, c, -, -, hheld, hstats⟩ := hown
  obtain ⟨pool', hpool', moment', c', -, -, hheld', hstats'⟩ := hcached.fresh hle hfresh
  obtain rfl := hdiffer pool' pool moment' moment c' c hpool' hpool hheld' hheld
    (hstats'.symm.trans hstats)
  exact hpool'.trans hpool.symm

/-- **When an actor is answered with its own pool**, in every history: when the entry it is
answered from, if any, was taken from that pool.  Where the pool it was taken from and that of
the actor never showed the same statistics, only then. -/
theorem ownStats_of_ownEntry (hreach : h.Reachable) (hle : h.line.clock ≤ now)
    (actor : SelectActor) (chainId : ChainId) :
    (h.OwnEntry now actor chainId → h.OwnStats now actor chainId)
      ∧ (h.PoolsDiffer actor chainId → h.OwnStats now actor chainId →
        h.OwnEntry now actor chainId) :=
  ⟨fun hentry => hreach.cached.ownStats hle hentry,
    fun hdiffer hown => hreach.cached.ownEntry hle hdiffer hown⟩

/-! ## The other actor's statistics -/

/-- The pools of the two actors as `build_rpc_client` makes them for one url. -/
def twoPools : PoolRef → List (EndpointEntry Float)
  | 0 => [⟨"broadcast-1-0", "http://localhost:8545", .new⟩]
  | _ => [⟨"validator-1-0", "http://localhost:8545", .new⟩]

/-- The chain is registered, and the validator asks for its statistics. -/
def asked : ClientHistory Float :=
  ((created 0 twoPools).perform 0 (.registerChain ⟨1⟩ 0 1)).perform 0
    (.getUnaryEndpointStats .validator ⟨1⟩)

theorem reachable_asked : asked.Reachable :=
  .perform (.perform (.created 0 twoPools) le_rfl _) le_rfl _

/-- A millisecond later the validator is answered with its own pool, from the cache. -/
theorem asked_ownStats : asked.OwnStats 1000000 .validator ⟨1⟩ :=
  (ownStats_of_ownEntry reachable_asked (Nat.zero_le _) .validator ⟨1⟩).1 fun _ => by decide +kernel

theorem pools_asked {moment : ℕ} {c : RpcClient Float} (h : asked.line.HeldAt moment c) :
    c.pools = twoPools := by
  rcases h with ⟨-, rfl⟩ | ⟨era, hera, -, -, rfl⟩
  · rfl
  · rcases List.mem_cons.mp hera with rfl | hera
    · rfl
    · rcases List.mem_cons.mp hera with rfl | hera
      · rfl
      · cases hera

/-- And the broadcast actor is answered with the pool of the validator. -/
theorem asked_not_ownStats :
    asked.Reachable ∧ asked.line.clock ≤ 1000000 ∧ ¬ asked.OwnStats 1000000 .broadcast ⟨1⟩ := by
  refine ⟨reachable_asked, Nat.zero_le _, fun hown => ?_⟩
  have hanswer : (asked.client.getUnaryEndpointStats 1000000 .broadcast ⟨1⟩).1
      = some (endpointsMetrics (twoPools 1)) := rfl
  rw [OwnStats, hanswer] at hown
  obtain ⟨pool, hpool, moment, c, -, -, hheld, hstats⟩ := hown
  obtain rfl : 0 = pool := Option.some.inj hpool
  rw [pools_asked hheld] at hstats
  have hids := congrArg (List.map EndpointStats.id) hstats
  exact absurd hids (by decide +kernel)

end ClientHistory

end Lobby
