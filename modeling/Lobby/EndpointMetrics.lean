/-
# The metrics of an RPC endpoint

`EndpointMetrics` counts the requests and the errors of one endpoint, keeps its last 128
response times, and derives from them its health and its score in the load balancing.  A
call of it runs without interruption here; the source keeps each field in an atomic.

* The arithmetic of `f64` is a parameter, so that a score can also be computed over the
  rationals; at `Float` it is the arithmetic of the source.
* The methods read the monotone clock, `Instant::now()` and `elapsed()`, and the readings of
  one call are an argument of it (`Readings`).  The source measures most times as
  `Instant::now().elapsed()`, the time since the moment before.
-/
import Mathlib.Data.List.Range
import Mathlib.Data.Rat.Floor
import Mathlib.Order.Monotone.Basic
import Lobby.Retry

namespace Lobby

/-! ## Arithmetic and the clock -/

/-- The operations of `f64` that the pool uses. -/
class F64 (F : Type) extends Add F, Mul F, Div F, BEq F, LE F, LT F, OfScientific F where
  /-- `n as f64` -/
  ofNat : ℕ → F
  decidableLE : DecidableLE F
  decidableLT : DecidableLT F

attribute [reducible, instance] F64.decidableLE F64.decidableLT

instance : F64 Float where
  ofNat := Float.ofNat
  decidableLE := inferInstance
  decidableLT := inferInstance

instance : F64 ℚ where
  ofNat n := n
  decidableLE := inferInstance
  decidableLT := inferInstance

/-- A moment of the monotone clock, in nanoseconds. -/
abbrev Instant := ℕ

/-- What the clock shows during one call, reading after reading. -/
structure Readings where
  read : ℕ → Instant
  monotone : Monotone read

namespace Readings

/-- The readings after the first `n`. -/
def drop (t : Readings) (n : ℕ) : Readings where
  read k := t.read (n + k)
  monotone _ _ h := t.monotone (Nat.add_le_add_left h n)

/-- A call that is suspended for `gap` after its first reading. -/
def pausing (now : Instant) (gap : ℕ) : Readings where
  read k := now + min k 1 * gap
  monotone _ _ h := Nat.add_le_add_left (Nat.mul_le_mul_right gap (min_le_min_right 1 h)) now

/-- `Instant::now()` at the first reading, and the milliseconds of its `elapsed()` at the
second, `as u64`. -/
def elapsedMillis (t : Readings) : UInt64 := UInt64.ofNat ((t.read 1 - t.read 0) / 1000000)

@[simp] theorem read_pausing_zero (now : Instant) (gap : ℕ) : (pausing now gap).read 0 = now := by
  simp [pausing]

theorem read_pausing_le (now : Instant) (gap k : ℕ) : (pausing now gap).read k ≤ now + gap := by
  refine Nat.add_le_add_left ?_ now
  simpa using Nat.mul_le_mul_right gap (min_le_right k 1)

theorem elapsedMillis_pausing (now : Instant) (millis : UInt64) :
    (pausing now (millis.toNat * 1000000)).elapsedMillis = millis := by
  simp [elapsedMillis, pausing]

end Readings

/-! ## Health -/

inductive EndpointHealth : Type where
  | healthy
  | degraded
  | unhealthy
  deriving DecidableEq

namespace EndpointHealth

/-- Traffic multiplier for load balancing weighting. -/
def trafficMultiplier {F : Type} [F64 F] : EndpointHealth → F
  | .healthy => 1.0
  | .degraded => 0.5
  | .unhealthy => 0.0

def isAvailable : EndpointHealth → Bool
  | .unhealthy => false
  | _ => true

@[simp] theorem isAvailable_eq_false {health : EndpointHealth} :
    health.isAvailable = false ↔ health = .unhealthy := by
  cases health <;> simp [isAvailable]

end EndpointHealth

/-! ## The metrics -/

/-- `RESPONSE_TIME_WINDOW_SIZE` -/
def responseTimeWindowSize : ℕ := 128

/-- `DEFAULT_RESPONSE_TIME_MS` -/
def defaultResponseTimeMs {F : Type} [F64 F] : F := 100.0

/-- `CIRCUIT_BREAKER_BACKOFF`, in seconds. -/
def circuitBreakerBackoff : Fin 3 → ℕ := ![10, 30, 60]

/-- `MIN_REQUESTS_FOR_HEALTH` -/
def minRequestsForHealth : UInt64 := 10

/-- `DEGRADED_THRESHOLD` -/
def degradedThresholdDefault {F : Type} [F64 F] : F := 0.15

/-- `UNHEALTHY_THRESHOLD` -/
def unhealthyThresholdDefault {F : Type} [F64 F] : F := 0.40

structure EndpointMetrics (F : Type) where
  health : EndpointHealth
  /-- The response times, in a ring. -/
  responseTimesMs : Fin responseTimeWindowSize → UInt64
  responseTimeIndex : UInt64
  errorCount : UInt64
  requestCount : UInt64
  lastSuccessAt : UInt64
  /-- When the circuit breaker expires; zero for none. -/
  circuitBreakerUntil : UInt64
  circuitBreakerAttempts : UInt32
  degradedThreshold : F
  unhealthyThreshold : F

namespace EndpointMetrics

variable {F : Type} [F64 F]

def new : EndpointMetrics F where
  health := .healthy
  responseTimesMs _ := 0
  responseTimeIndex := 0
  errorCount := 0
  requestCount := 0
  lastSuccessAt := 0
  circuitBreakerUntil := 0
  circuitBreakerAttempts := 0
  degradedThreshold := degradedThresholdDefault
  unhealthyThreshold := unhealthyThresholdDefault

/-! ### Reading -/

/-- `index & RESPONSE_TIME_MASK` -/
def slot (index : UInt64) : Fin responseTimeWindowSize :=
  ⟨index.toNat % responseTimeWindowSize, Nat.mod_lt _ (by decide)⟩

/-- The average of the recorded response times, of which every fourth is read when there are
more than 32. -/
def averageResponseTimeMs (m : EndpointMetrics F) : F :=
  let index := m.responseTimeIndex
  if index = 0 then defaultResponseTimeMs
  else
    let count := min index.toNat responseTimeWindowSize
    let step := if 32 < count then 4 else 1
    -- `(0..count).step_by(step)`
    let sampled := List.range' 0 ((count + step - 1) / step) step
    let values := sampled.map fun i => m.responseTimesMs (slot (index - 1 - UInt64.ofNat i))
    let valid := values.filter fun value => decide (0 < value)
    if valid = [] then defaultResponseTimeMs
    else F64.ofNat valid.sum.toNat / F64.ofNat valid.length * F64.ofNat step

/-- Current error rate. -/
def errorRate (m : EndpointMetrics F) : F :=
  if m.requestCount < minRequestsForHealth then 0.0
  else F64.ofNat m.errorCount.toNat / F64.ofNat m.requestCount.toNat

/-- Load balancing score: higher is better. -/
def loadBalancingScore (m : EndpointMetrics F) : F :=
  let multiplier : F := m.health.trafficMultiplier
  if multiplier == 0.0 then 0.0
  else
    -- `max(1.0)`
    let avgMs := if m.averageResponseTimeMs ≤ 1.0 then 1.0 else m.averageResponseTimeMs
    1000.0 / avgMs * multiplier

example : (new : EndpointMetrics ℚ).loadBalancingScore = 10 := by decide +kernel

/-- `circuit_breaker_until()`: the moment the circuit breaker expires, while it has not. -/
def circuitBreakerUntil? (m : EndpointMetrics F) (t : Readings) : Option Instant :=
  if m.circuitBreakerUntil = 0 then none
  else if t.elapsedMillis < m.circuitBreakerUntil then
    some (t.read 0 + (m.circuitBreakerUntil - t.elapsedMillis).toNat * 1000000)
  else none

/-- An unhealthy endpoint gets no traffic. -/
theorem loadBalancingScore_unhealthy {m : EndpointMetrics Float} (h : m.health = .unhealthy) :
    m.loadBalancingScore = 0.0 := by
  have hzero : ((0.0 : Float) == 0.0) = true := by decide +kernel
  rw [loadBalancingScore, h]
  exact if_pos hzero

/-- Over the rationals the score is one formula. -/
theorem loadBalancingScore_eq (m : EndpointMetrics ℚ) :
    m.loadBalancingScore
      = 1000 / max 1 m.averageResponseTimeMs * m.health.trafficMultiplier := by
  have hzero : (0.0 : ℚ) = 0 := by decide +kernel
  have hone : (1.0 : ℚ) = 1 := by decide +kernel
  have hthousand : (1000.0 : ℚ) = 1000 := by decide +kernel
  unfold loadBalancingScore
  dsimp only
  rw [hzero, hone, hthousand, max_comm]
  split
  · next hmultiplier => rw [eq_of_beq hmultiplier, mul_zero]
  · rfl

omit [F64 F] in
/-- The expiry is not before the moment at which it is asked for. -/
theorem le_circuitBreakerUntil? {m : EndpointMetrics F} {t : Readings} {expiry : Instant}
    (h : m.circuitBreakerUntil? t = some expiry) : t.read 0 ≤ expiry := by
  unfold circuitBreakerUntil? at h
  split at h
  · simp at h
  · split at h
    · rw [← Option.some.inj h]
      exact Nat.le_add_right _ _
    · simp at h

/-! ### Recording -/

/-- The health that the error rate stands for. -/
def healthOfErrorRate (m : EndpointMetrics F) : EndpointHealth :=
  if m.unhealthyThreshold < m.errorRate then .unhealthy
  else if m.degradedThreshold < m.errorRate then .degraded
  else .healthy

def updateHealthStatus (m : EndpointMetrics F) (t : Readings) : EndpointMetrics F :=
  if 0 < m.circuitBreakerUntil then
    if t.elapsedMillis < m.circuitBreakerUntil then { m with health := .unhealthy }
    else { m with circuitBreakerUntil := 0, health := m.healthOfErrorRate }
  else { m with health := m.healthOfErrorRate }

def recordSuccess (m : EndpointMetrics F) (duration : Duration) (t : Readings) :
    EndpointMetrics F :=
  let nowMillis := t.elapsedMillis
  let m := { m with
    responseTimesMs := Function.update m.responseTimesMs (slot m.responseTimeIndex)
      (UInt64.ofNat duration.asMillis)
    responseTimeIndex := m.responseTimeIndex + 1
    requestCount := m.requestCount + 1
    lastSuccessAt := nowMillis }
  let m :=
    if 0 < m.circuitBreakerUntil ∧ m.circuitBreakerUntil ≤ nowMillis then
      { m with circuitBreakerUntil := 0, circuitBreakerAttempts := 0 }
    else m
  m.updateHealthStatus (t.drop 2)

def recordFailure (m : EndpointMetrics F) (t : Readings) : EndpointMetrics F :=
  updateHealthStatus
    { m with errorCount := m.errorCount + 1, requestCount := m.requestCount + 1 } t

/-- The expiry is stored as its own `elapsed()`: the time by which the clock has passed it. -/
def activateCircuitBreaker (m : EndpointMetrics F) (t : Readings) : EndpointMetrics F :=
  let backoffSecs := circuitBreakerBackoff
    ⟨min m.circuitBreakerAttempts.toNat 2, by omega⟩
  let expiry := t.read 0 + backoffSecs * 1000000000
  { m with
    circuitBreakerUntil := UInt64.ofNat ((t.read 1 - expiry) / 1000000)
    circuitBreakerAttempts := m.circuitBreakerAttempts + 1
    health := .unhealthy }

/-! ### What recording changes -/

/-- How a request on an endpoint ended. -/
inductive Outcome : Type where
  | success (duration : Duration)
  | failure

def record (m : EndpointMetrics F) : Outcome → Readings → EndpointMetrics F
  | .success duration, t => m.recordSuccess duration t
  | .failure, t => m.recordFailure t

/-- The errors that an outcome adds. -/
def Outcome.errors : Outcome → ℕ
  | .success _ => 0
  | .failure => 1

variable (m : EndpointMetrics F) (t : Readings)

/-- `updateHealthStatus` changes the health and clears the circuit breaker, nothing else. -/
theorem updateHealthStatus_eq :
    ∃ expiry health,
      m.updateHealthStatus t = { m with circuitBreakerUntil := expiry, health := health } := by
  unfold updateHealthStatus
  split
  · split
    · exact ⟨_, _, rfl⟩
    · exact ⟨_, _, rfl⟩
  · exact ⟨_, _, rfl⟩

@[simp] theorem requestCount_updateHealthStatus :
    (m.updateHealthStatus t).requestCount = m.requestCount := by
  obtain ⟨expiry, health, heq⟩ := m.updateHealthStatus_eq t
  rw [heq]

@[simp] theorem errorCount_updateHealthStatus :
    (m.updateHealthStatus t).errorCount = m.errorCount := by
  obtain ⟨expiry, health, heq⟩ := m.updateHealthStatus_eq t
  rw [heq]

@[simp] theorem degradedThreshold_updateHealthStatus :
    (m.updateHealthStatus t).degradedThreshold = m.degradedThreshold := by
  obtain ⟨expiry, health, heq⟩ := m.updateHealthStatus_eq t
  rw [heq]

@[simp] theorem unhealthyThreshold_updateHealthStatus :
    (m.updateHealthStatus t).unhealthyThreshold = m.unhealthyThreshold := by
  obtain ⟨expiry, health, heq⟩ := m.updateHealthStatus_eq t
  rw [heq]

/-- A recorded outcome is one more request and its errors, under the same thresholds. -/
theorem record_counts (outcome : Outcome) :
    (m.record outcome t).requestCount = m.requestCount + 1
    ∧ (m.record outcome t).errorCount = m.errorCount + UInt64.ofNat outcome.errors
    ∧ (m.record outcome t).degradedThreshold = m.degradedThreshold
    ∧ (m.record outcome t).unhealthyThreshold = m.unhealthyThreshold := by
  cases outcome with
  | success duration =>
      simp only [record, recordSuccess, Outcome.errors]
      split <;> simp
  | failure => simp [record, recordFailure, Outcome.errors]

/-! ### Ten failures -/

/-- The thresholds that `new` sets. -/
def StandardThresholds (m : EndpointMetrics F) : Prop :=
  m.degradedThreshold = degradedThresholdDefault
    ∧ m.unhealthyThreshold = unhealthyThresholdDefault

theorem StandardThresholds.record {m : EndpointMetrics F} (h : m.StandardThresholds)
    (outcome : Outcome) (t : Readings) : (m.record outcome t).StandardThresholds := by
  obtain ⟨-, -, hdegraded, hunhealthy⟩ := m.record_counts t outcome
  exact ⟨hdegraded.trans h.1, hunhealthy.trans h.2⟩

/-- Ten errors in ten requests are too many. -/
theorem healthOfErrorRate_unhealthy {m : EndpointMetrics Float} (h : m.StandardThresholds)
    (herrors : m.errorCount = 10) (hrequests : m.requestCount = 10) :
    m.healthOfErrorRate = .unhealthy := by
  have hrate : (unhealthyThresholdDefault : Float) < F64.ofNat 10 / F64.ofNat 10 := by
    decide +kernel
  have herrorRate : m.errorRate = F64.ofNat 10 / F64.ofNat 10 := by
    rw [errorRate, hrequests, herrors]
    exact if_neg (by decide)
  rw [healthOfErrorRate, herrorRate, h.2, if_pos hrate]

/-- The tenth failure of ten requests makes an endpoint unhealthy. -/
theorem recordFailure_unhealthy {m : EndpointMetrics Float} (h : m.StandardThresholds)
    (herrors : m.errorCount + 1 = 10) (hrequests : m.requestCount + 1 = 10) (t : Readings) :
    (m.recordFailure t).health = .unhealthy := by
  unfold recordFailure updateHealthStatus
  split
  · split
    · rfl
    · exact healthOfErrorRate_unhealthy h herrors hrequests
  · exact healthOfErrorRate_unhealthy h herrors hrequests

end EndpointMetrics

end Lobby
