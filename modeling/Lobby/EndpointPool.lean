/-
# Selecting an endpoint

`EndpointPool::select_endpoint` picks one of the endpoints of a chain: the sticky one while
it is available, else by the roulette wheel of the scores, else by the recovery path.  A
choice is modelled by the index of the endpoint, which stands for its provider and metrics.

The pool is driven by its clients (`Run`): a client selects an endpoint and holds the choice,
records outcomes on it, and drops it; a circuit breaker can be activated on any endpoint.  The
clock moves on in every call and between calls.
-/
import Lobby.EndpointMetrics

namespace Lobby

/-- The endpoints of one chain, by their metrics. -/
structure EndpointPool (F : Type) where
  endpoints : List (EndpointMetrics F)

inductive LoadBalancingStrategy : Type where
  | weightedLeastResponseTime
  | stickySession (stickyIndex : ℕ)

namespace EndpointPool

variable {F : Type} [F64 F]

def new : EndpointPool F := ⟨[]⟩

def addEndpoint (pool : EndpointPool F) (metrics : EndpointMetrics F) : EndpointPool F :=
  ⟨pool.endpoints ++ [metrics]⟩

/-- The pool that `build_rpc_client` makes of a list of so many urls. -/
def build : ℕ → EndpointPool F
  | 0 => new
  | urls + 1 => (build urls).addEndpoint .new

/-- The endpoint of a choice records something. -/
def modify (pool : EndpointPool F) (index : ℕ)
    (f : EndpointMetrics F → EndpointMetrics F) : EndpointPool F :=
  ⟨pool.endpoints.modify index f⟩

section

variable {pool : EndpointPool F} {index : ℕ} {f : EndpointMetrics F → EndpointMetrics F}

omit [F64 F]

theorem getElem?_modify_self :
    (pool.modify index f).endpoints[index]? = pool.endpoints[index]?.map f := by
  simp [modify]

theorem getElem?_modify_of_ne {j : ℕ} (h : j ≠ index) :
    (pool.modify index f).endpoints[j]? = pool.endpoints[j]? := by
  simp [modify, h.symm]

end

/-! ## The strategies -/

/-- Circuit breaker recovery: the first endpoint whose circuit breaker has expired, else the
first one. -/
def selectCircuitBreakerRecovery (pool : EndpointPool F) (t : Readings) : Option ℕ :=
  let now := t.read 0
  let expired := pool.endpoints.zipIdx.find? fun (metrics, index) =>
    match metrics.circuitBreakerUntil? (t.drop (1 + 2 * index)) with
    | some expiry => expiry < now
    | none => false
  match expired with
  | some (_, index) => some index
  | none => pool.endpoints.head?.map fun _ => 0

/-- The endpoints with a positive score. -/
def scoredEndpoints (pool : EndpointPool F) : List (ℕ × F) :=
  (pool.endpoints.zipIdx.map fun (metrics, index) => (index, metrics.loadBalancingScore)).filter
    fun (_, score) => decide ((0.0 : F) < score)

/-- The loop of the roulette wheel, with the sum of the scores so far: the sum at its end, and
the selected index. -/
def roulette (threshold : F) : F → List (ℕ × F) → F × ℕ
  | cumulative, [] => (cumulative, 0)
  | cumulative, (index, score) :: scored =>
    let cumulative := cumulative + score
    if threshold ≤ cumulative then (cumulative, index)
    else roulette threshold cumulative scored

/-- The wheel turned by the draw `u` of `fastrand::f64()`, with `last` as the fallback when the
sums of `f64` do not reach the threshold. -/
def spin (u : F) (scored : List (ℕ × F)) (last : ℕ) : ℕ :=
  let totalScore := scored.foldl (fun total entry => total + entry.2) (0.0 : F)
  let threshold := u * totalScore
  let (cumulative, selected) := roulette threshold 0.0 scored
  if cumulative < threshold then last else selected

/-- Weighted selection. -/
def selectByWeightedScore (pool : EndpointPool F) (u : F) (t : Readings) : Option ℕ :=
  if pool.endpoints = [] then none
  else
    let scored := pool.scoredEndpoints
    match scored.getLast? with
    | none => pool.selectCircuitBreakerRecovery t
    | some (last, _) =>
      let selected := spin u scored last
      if selected < pool.endpoints.length then some selected else none

/-- Sticky selection. -/
def selectByStickySession (pool : EndpointPool F) (stickyIndex : ℕ) (u : F) (t : Readings) :
    Option ℕ :=
  match pool.endpoints[stickyIndex]? with
  | some metrics =>
    if metrics.health.isAvailable then some stickyIndex
    else pool.selectByWeightedScore u t
  | none => pool.selectByWeightedScore u t

def selectEndpoint (pool : EndpointPool F) (strategy : LoadBalancingStrategy) (u : F)
    (t : Readings) : Option ℕ :=
  match strategy with
  | .weightedLeastResponseTime => pool.selectByWeightedScore u t
  | .stickySession stickyIndex => pool.selectByStickySession stickyIndex u t

/-! ## What is selected -/

section

variable {pool : EndpointPool Float} {index : ℕ} {u : Float} {t : Readings}

/-- The endpoint can be selected as the sticky one. -/
def IsAvailable (pool : EndpointPool F) (index : ℕ) : Prop :=
  ∃ m, pool.endpoints[index]? = some m ∧ m.health.isAvailable = true

theorem selectEndpoint_sticky (h : pool.IsAvailable index) :
    pool.selectEndpoint (.stickySession index) u t = some index := by
  obtain ⟨m, hm, havailable⟩ := h
  simp [selectEndpoint, selectByStickySession, hm, havailable]

omit [F64 F] in
/-- The clock is read before the expiries, so none of them is in the past: the recovery path
is the first endpoint. -/
theorem selectCircuitBreakerRecovery_eq (pool : EndpointPool F) (t : Readings) :
    pool.selectCircuitBreakerRecovery t = pool.endpoints.head?.map fun _ => 0 := by
  -- no expiry that is read lies behind the clock that was read before it
  have hnone : pool.endpoints.zipIdx.find? (fun (metrics, index) =>
      match metrics.circuitBreakerUntil? (t.drop (1 + 2 * index)) with
      | some expiry => decide (expiry < t.read 0)
      | none => false) = none := by
    refine List.find?_eq_none.mpr ?_
    rintro ⟨metrics, index⟩ -
    dsimp only
    split
    · next expiry hexpiry =>
        have hread : t.read 0 ≤ (t.drop (1 + 2 * index)).read 0 := t.monotone (Nat.zero_le _)
        simpa using hread.trans (EndpointMetrics.le_circuitBreakerUntil? hexpiry)
    · simp
  unfold selectCircuitBreakerRecovery
  dsimp only
  rw [hnone]

/-- A scored endpoint is available. -/
theorem isAvailable_of_mem_scored {entry : ℕ × Float} (h : entry ∈ pool.scoredEndpoints) :
    pool.IsAvailable entry.1 := by
  obtain ⟨hmem, hscore⟩ := List.mem_filter.mp h
  obtain ⟨⟨m, index⟩, hm, rfl⟩ := List.mem_map.mp hmem
  refine ⟨m, List.mem_zipIdx_iff_getElem?.mp hm, ?_⟩
  by_contra hunavailable
  have hunhealthy : m.health = .unhealthy := by simpa using hunavailable
  have hzero : ¬ (0.0 : Float) < 0.0 := by decide +kernel
  have hpositive : (0.0 : Float) < m.loadBalancingScore := of_decide_eq_true hscore
  rw [EndpointMetrics.loadBalancingScore_unhealthy hunhealthy] at hpositive
  exact hzero hpositive

/-- The wheel stops at one of its entries, or was not turned. -/
theorem roulette_mem (threshold : F) (cumulative : F) (scored : List (ℕ × F)) :
    (roulette threshold cumulative scored).2 = 0
      ∨ ∃ entry ∈ scored, entry.1 = (roulette threshold cumulative scored).2 := by
  induction scored generalizing cumulative with
  | nil => exact .inl rfl
  | cons entry scored ih =>
      obtain ⟨index, score⟩ := entry
      unfold roulette
      dsimp only
      split
      · exact .inr ⟨(index, score), by simp, rfl⟩
      · exact (ih (cumulative + score)).imp_right fun ⟨entry, hentry, heq⟩ =>
          ⟨entry, by simp [hentry], heq⟩

theorem spin_mem {last : ℕ × F} {scored : List (ℕ × F)} (hlast : last ∈ scored) (u : F) :
    spin u scored last.1 = 0 ∨ ∃ entry ∈ scored, entry.1 = spin u scored last.1 := by
  unfold spin
  dsimp only
  split
  · exact .inr ⟨last, hlast, rfl⟩
  · exact roulette_mem _ _ _

/-- Weighted selection returns the first endpoint or an available one. -/
theorem selectByWeightedScore_some (h : pool.selectByWeightedScore u t = some index) :
    index = 0 ∨ pool.IsAvailable index := by
  unfold selectByWeightedScore at h
  split at h
  · simp at h
  · dsimp only at h
    split at h
    · -- no score is positive: the recovery path names the first endpoint
      rw [selectCircuitBreakerRecovery_eq] at h
      obtain ⟨m, -, rfl⟩ := Option.map_eq_some_iff.mp h
      exact .inl rfl
    · next last score hlast =>
        have hspin := spin_mem (List.mem_of_getLast? hlast) u
        split at h
        · rw [Option.some.inj h] at hspin
          refine hspin.imp_right ?_
          rintro ⟨entry, hentry, rfl⟩
          exact isAvailable_of_mem_scored hentry
        · simp at h

/-- So does every selection. -/
theorem selectEndpoint_some {strategy : LoadBalancingStrategy}
    (h : pool.selectEndpoint strategy u t = some index) : index = 0 ∨ pool.IsAvailable index := by
  cases strategy with
  | weightedLeastResponseTime => exact selectByWeightedScore_some h
  | stickySession stickyIndex =>
      simp only [selectEndpoint, selectByStickySession] at h
      split at h
      · next m hm =>
          split at h
          · next havailable =>
              exact .inr ⟨m, Option.some.inj h ▸ hm, havailable⟩
          · exact selectByWeightedScore_some h
      · exact selectByWeightedScore_some h

/-- With every endpoint unhealthy the first one is selected. -/
theorem selectByWeightedScore_unhealthy (hpool : pool.endpoints ≠ [])
    (h : ∀ index, ¬ pool.IsAvailable index) : pool.selectByWeightedScore u t = some 0 := by
  have hscored : pool.scoredEndpoints = [] :=
    List.eq_nil_iff_forall_not_mem.mpr fun entry hentry =>
      h entry.1 (isAvailable_of_mem_scored hentry)
  obtain ⟨m, rest, hendpoints⟩ := List.exists_cons_of_ne_nil hpool
  rw [selectByWeightedScore, if_neg hpool, hscored]
  dsimp only [List.getLast?_nil]
  rw [selectCircuitBreakerRecovery_eq, hendpoints]
  rfl

end

end EndpointPool

end Lobby
