/-
# What the circuit breaker keeps

`activate_circuit_breaker` takes an endpoint out of the traffic for a backoff of 10, 30 or 60
seconds.  Each endpoint is followed through a run together with what its activations ask for:
their number since the attempts were reset, and the moment until which the endpoint has to
stay unhealthy.

The expiry is stored as its own `elapsed()`, which is zero, so nothing but the error rate
keeps the endpoint unhealthy, and the recovery path finds no expired breaker.  A run keeps
what the breaker promises exactly when each of its steps meets a condition on the state it
starts from (`breaker_holds_iff`): an outcome recorded during the backoff leaves the error
rate above the threshold, and recovery is asked for when the first endpoint's breaker has
expired, if any has.
-/
import Lobby.EndpointPool

namespace Lobby

variable {F : Type} [F64 F]

/-! ## One outcome -/

namespace EndpointMetrics

/-- The error rate after one more outcome. -/
def rateAfter (m : EndpointMetrics F) (outcome : Outcome) : F :=
  errorRate { m with
    errorCount := m.errorCount + UInt64.ofNat outcome.errors
    requestCount := m.requestCount + 1 }

/-- The stored expiry lies ahead whenever the recording of an outcome looks at it. -/
def StoredRuns (m : EndpointMetrics F) : Outcome → Readings → Prop
  | .success _, t =>
      t.elapsedMillis < m.circuitBreakerUntil ∧ (t.drop 2).elapsedMillis < m.circuitBreakerUntil
  | .failure, t => t.elapsedMillis < m.circuitBreakerUntil

/-- The recording of an outcome leaves the endpoint unhealthy. -/
def KeepsUnhealthy (m : EndpointMetrics F) (outcome : Outcome) (t : Readings) : Prop :=
  m.unhealthyThreshold < m.rateAfter outcome ∨ m.StoredRuns outcome t

instance (m : EndpointMetrics F) : (outcome : Outcome) → (t : Readings) →
    Decidable (m.StoredRuns outcome t)
  | .success _, _ => inferInstanceAs (Decidable (_ ∧ _))
  | .failure, _ => inferInstanceAs (Decidable (_ < _))

instance (m : EndpointMetrics F) (outcome : Outcome) (t : Readings) :
    Decidable (m.KeepsUnhealthy outcome t) := inferInstanceAs (Decidable (_ ∨ _))

/-- `record_success` resets the attempts. -/
def Resets (m : EndpointMetrics F) : Outcome → Readings → Prop
  | .success _, t => 0 < m.circuitBreakerUntil ∧ m.circuitBreakerUntil ≤ t.elapsedMillis
  | .failure, _ => False

instance (m : EndpointMetrics F) : (outcome : Outcome) → (t : Readings) →
    Decidable (m.Resets outcome t)
  | .success _, _ => inferInstanceAs (Decidable (_ ∧ _))
  | .failure, _ => instDecidableFalse

variable (m : EndpointMetrics F) (t : Readings)

theorem healthOfErrorRate_eq_unhealthy :
    m.healthOfErrorRate = .unhealthy ↔ m.unhealthyThreshold < m.errorRate := by
  rw [healthOfErrorRate]
  split
  · simp [*]
  · split <;> simp [*]

/-- After an update an endpoint is unhealthy for its breaker or for its error rate. -/
theorem health_updateHealthStatus :
    (m.updateHealthStatus t).health = .unhealthy ↔
      m.unhealthyThreshold < m.errorRate ∨ t.elapsedMillis < m.circuitBreakerUntil := by
  rw [updateHealthStatus]
  split
  · split
    · rename_i hruns
      simp [hruns]
    · rename_i hexpired
      simp only [hexpired, or_false]
      exact m.healthOfErrorRate_eq_unhealthy
  · rename_i hunset
    have hnot : ¬ t.elapsedMillis < m.circuitBreakerUntil := by
      intro hlt
      have hpos := Nat.lt_of_le_of_lt (Nat.zero_le _) (UInt64.lt_iff_toNat_lt.mp hlt)
      exact hunset (UInt64.lt_iff_toNat_lt.mpr hpos)
    simp only [hnot, or_false]
    exact m.healthOfErrorRate_eq_unhealthy

/-- **When a recorded outcome leaves an endpoint unhealthy.** -/
theorem health_record (outcome : Outcome) :
    (m.record outcome t).health = .unhealthy ↔ m.KeepsUnhealthy outcome t := by
  cases outcome with
  | failure => exact health_updateHealthStatus _ _
  | success duration =>
      have hrate : m.rateAfter (.success duration) = errorRate { m with
          requestCount := m.requestCount + 1 } := by
        rw [rateAfter, errorRate, errorRate]
        simp [Outcome.errors]
      rw [record, recordSuccess, KeepsUnhealthy, hrate, StoredRuns]
      dsimp only
      split
      · -- the breaker is reset, and nothing is stored any more
        rename_i hreset
        rw [health_updateHealthStatus]
        have hcleared : ¬ (t.drop 2).elapsedMillis < 0 := by
          intro hlt
          exact absurd (UInt64.lt_iff_toNat_lt.mp hlt) (Nat.not_lt_zero _)
        have hnot : ¬ t.elapsedMillis < m.circuitBreakerUntil :=
          UInt64.not_lt.mpr hreset.2
        simp only [hcleared, hnot, false_and, or_false]
        exact Iff.rfl
      · rename_i hkept
        rw [health_updateHealthStatus]
        -- the second reading of the clock is not earlier than the first
        have hfirst : (t.drop 2).elapsedMillis < m.circuitBreakerUntil →
            t.elapsedMillis < m.circuitBreakerUntil := by
          intro hlt
          have hpos := Nat.lt_of_le_of_lt (Nat.zero_le _) (UInt64.lt_iff_toNat_lt.mp hlt)
          by_contra hge
          exact hkept ⟨UInt64.lt_iff_toNat_lt.mpr hpos, UInt64.not_lt.mp hge⟩
        constructor
        · exact fun h => h.imp_right fun hlt => ⟨hfirst hlt, hlt⟩
        · exact fun h => h.imp_right fun hboth => hboth.2

/-- The attempts are reset and counted as the run does. -/
theorem circuitBreakerAttempts_record (outcome : Outcome) :
    (m.record outcome t).circuitBreakerAttempts
      = if m.Resets outcome t then 0 else m.circuitBreakerAttempts := by
  have hupdate : ∀ (m' : EndpointMetrics F) (t' : Readings),
      (m'.updateHealthStatus t').circuitBreakerAttempts = m'.circuitBreakerAttempts := by
    intro m' t'
    obtain ⟨expiry, health, heq⟩ := m'.updateHealthStatus_eq t'
    rw [heq]
  cases outcome with
  | failure =>
      rw [record, recordFailure, hupdate]
      rfl
  | success duration =>
      rw [record, recordSuccess, hupdate]
      dsimp only [Resets]
      split
      · rename_i hreset
        exact (if_pos hreset).symm
      · rename_i hkept
        exact (if_neg hkept).symm

end EndpointMetrics

/-! ## An endpoint and what its activations ask for -/

/-- The backoff of an activation, in nanoseconds, by the number of activations before it. -/
def backoffNanos (activations : ℕ) : ℕ :=
  circuitBreakerBackoff ⟨min activations 2, by omega⟩ * 1000000000

structure Watched (F : Type) where
  metrics : EndpointMetrics F
  /-- The activations since the attempts were reset. -/
  activations : ℕ
  /-- The latest end of a backoff; none when no breaker was activated, or when an outcome was
  recorded after it. -/
  deadline : Option Instant

namespace Watched

def record (w : Watched F) (outcome : EndpointMetrics.Outcome) (t : Readings) : Watched F where
  metrics := w.metrics.record outcome t
  activations := if w.metrics.Resets outcome t then 0 else w.activations
  deadline := w.deadline.filter fun expiry => decide (t.read 0 < expiry)

def activate (w : Watched F) (t : Readings) : Watched F where
  metrics := w.metrics.activateCircuitBreaker t
  activations := w.activations + 1
  deadline := some (max (w.deadline.getD 0) (t.read 0 + backoffNanos w.activations))

/-- Some backoff is not over. -/
def RunsAt (w : Watched F) (now : Instant) : Prop := ∃ expiry ∈ w.deadline, now < expiry

/-- The breaker was set and has expired. -/
def ExpiredAt (w : Watched F) (now : Instant) : Prop := ∃ expiry ∈ w.deadline, expiry ≤ now

instance (w : Watched F) (now : Instant) : Decidable (w.RunsAt now) :=
  inferInstanceAs (Decidable (∃ expiry ∈ w.deadline, now < expiry))

instance (w : Watched F) (now : Instant) : Decidable (w.ExpiredAt now) :=
  inferInstanceAs (Decidable (∃ expiry ∈ w.deadline, expiry ≤ now))

/-- The endpoint is out of the traffic while a backoff runs. -/
def Held (w : Watched F) (now : Instant) : Prop := w.RunsAt now → w.metrics.health = .unhealthy

instance (w : Watched F) (now : Instant) : Decidable (w.Held now) :=
  inferInstanceAs (Decidable (w.RunsAt now → w.metrics.health = .unhealthy))

variable {w : Watched F} {t : Readings} {now now' : Instant}

omit [F64 F] in
theorem Held.mono (h : w.Held now) (hle : now ≤ now') : w.Held now' := by
  rintro ⟨expiry, hexpiry, hlt⟩
  exact h ⟨expiry, hexpiry, lt_of_le_of_lt hle hlt⟩

/-- An outcome that is recorded before the end of the backoff leaves it as it is. -/
theorem runsAt_record (outcome : EndpointMetrics.Outcome) (hle : t.read 0 ≤ now) :
    (w.record outcome t).RunsAt now ↔ w.RunsAt now := by
  constructor
  · rintro ⟨expiry, hexpiry, hlt⟩
    exact ⟨expiry, (Option.filter_eq_some_iff.mp hexpiry).1, hlt⟩
  · rintro ⟨expiry, hexpiry, hlt⟩
    refine ⟨expiry, Option.filter_eq_some_iff.mpr ⟨hexpiry, ?_⟩, hlt⟩
    exact decide_eq_true (lt_of_le_of_lt hle hlt)

theorem held_record (outcome : EndpointMetrics.Outcome) (hle : t.read 0 ≤ now) :
    (w.record outcome t).Held now
      ↔ (w.RunsAt now → w.metrics.KeepsUnhealthy outcome t) := by
  rw [Held, runsAt_record outcome hle]
  exact imp_congr_right fun _ => w.metrics.health_record t outcome

omit [F64 F] in
theorem held_activate : (w.activate t).Held now := fun _ => rfl

end Watched

/-! ## Runs of a pool -/

/-- The endpoints of a pool, and the clock. -/
structure WatchedPool (F : Type) where
  endpoints : List (Watched F)
  clock : Instant

inductive BreakerCall : Type where
  | record (index : ℕ) (outcome : EndpointMetrics.Outcome)
  | activate (index : ℕ)
  /-- `select_circuit_breaker_recovery` -/
  | recover

/-- A call, what the clock shows during it, and when it ends. -/
structure BreakerStep where
  call : BreakerCall
  readings : Readings
  now : Instant
  within : ∀ k, readings.read k ≤ now

/-- A call during which the clock stands still. -/
def BreakerStep.still (call : BreakerCall) (moment : Instant) : BreakerStep where
  call := call
  readings := .pausing moment 0
  now := moment
  within k := by simpa using Readings.read_pausing_le moment 0 k

namespace WatchedPool

/-- Before any activation. -/
def start (metrics : List (EndpointMetrics F)) (clock : Instant) : WatchedPool F where
  endpoints := metrics.map fun m => ⟨m, m.circuitBreakerAttempts.toNat, none⟩
  clock := clock

/-- The pool as the code has it. -/
def pool (s : WatchedPool F) : EndpointPool F := ⟨s.endpoints.map Watched.metrics⟩

def perform (s : WatchedPool F) (x : BreakerStep) : WatchedPool F where
  endpoints :=
    match x.call with
    | .record index outcome => s.endpoints.modify index (·.record outcome x.readings)
    | .activate index => s.endpoints.modify index (·.activate x.readings)
    | .recover => s.endpoints
  clock := x.now

/-- The pool after the steps of a run, the latest first. -/
def after (s : WatchedPool F) : List BreakerStep → WatchedPool F
  | [] => s
  | x :: steps => (s.after steps).perform x

/-- The calls follow one another. -/
def Timed (s : WatchedPool F) : List BreakerStep → Prop
  | [] => True
  | x :: steps => (s.after steps).clock ≤ x.readings.read 0 ∧ s.Timed steps

/-- Something holds of every step and the pool it starts from. -/
def Along (P : WatchedPool F → BreakerStep → Prop) (s : WatchedPool F) :
    List BreakerStep → Prop
  | [] => True
  | x :: steps => P (s.after steps) x ∧ s.Along P steps

/-! ### The promise and the condition -/

/-- No endpoint has a positive score, and some breaker was set and has expired. -/
def NeedsRecovery (s : WatchedPool F) (now : Instant) : Prop :=
  (∀ w ∈ s.endpoints, ¬ (0.0 : F) < w.metrics.loadBalancingScore)
    ∧ ∃ w ∈ s.endpoints, w.ExpiredAt now

instance (s : WatchedPool F) (now : Instant) : Decidable (s.NeedsRecovery now) :=
  inferInstanceAs (Decidable (_ ∧ _))

/-- The recovery path returns an endpoint with an expired breaker, where there is one. -/
def Recovers (s : WatchedPool F) (t : Readings) : Prop :=
  s.NeedsRecovery (t.read 0) → ∃ index w, s.pool.selectCircuitBreakerRecovery t = some index
    ∧ s.endpoints[index]? = some w ∧ w.ExpiredAt (t.read 0)

/-- What a circuit breaker promises of a step: the endpoints whose backoff is not over when
the step ends are unhealthy, and recovery probes an expired one. -/
def Keeps (s : WatchedPool F) (x : BreakerStep) : Prop :=
  (∀ w ∈ (s.perform x).endpoints, w.Held x.now)
    ∧ match x.call with
      | .recover => s.Recovers x.readings
      | _ => True

/-- An outcome recorded during a backoff leaves the error rate above the threshold; recovery
is asked for when the breaker of the first endpoint has expired, if any has. -/
def Meets (s : WatchedPool F) (x : BreakerStep) : Prop :=
  match x.call with
  | .record index outcome => ∀ w, s.endpoints[index]? = some w → w.RunsAt x.now →
      w.metrics.KeepsUnhealthy outcome x.readings
  | .activate _ => True
  | .recover => s.NeedsRecovery (x.readings.read 0) →
      ∃ w, s.endpoints[0]? = some w ∧ w.ExpiredAt (x.readings.read 0)

variable {s : WatchedPool F} {x : BreakerStep} {steps : List BreakerStep}

/-- The recovery path returns the first endpoint. -/
theorem recovers_iff (s : WatchedPool F) (t : Readings) :
    s.Recovers t ↔ (s.NeedsRecovery (t.read 0) →
      ∃ w, s.endpoints[0]? = some w ∧ w.ExpiredAt (t.read 0)) := by
  refine imp_congr_right fun _ => ?_
  rw [EndpointPool.selectCircuitBreakerRecovery_eq]
  constructor
  · rintro ⟨index, w, hindex, hw, hexpired⟩
    obtain ⟨m, -, rfl⟩ := Option.map_eq_some_iff.mp hindex
    exact ⟨w, hw, hexpired⟩
  · rintro ⟨w, hw, hexpired⟩
    refine ⟨0, w, ?_, hw, hexpired⟩
    have hfirst : s.endpoints.head? = some w := by
      rw [List.head?_eq_getElem?]
      exact hw
    rw [pool, List.head?_map, hfirst]
    rfl

omit [F64 F] in
/-- What is left to show for a call that changes one endpoint. -/
theorem forall_mem_modify {l : List (Watched F)} {index : ℕ} {f : Watched F → Watched F}
    {P : Watched F → Prop} (hothers : ∀ w ∈ l, P w) :
    (∀ w ∈ l.modify index f, P w) ↔ ∀ w, l[index]? = some w → P (f w) := by
  constructor
  · intro h w hw
    refine h (f w) (List.mem_of_getElem? (i := index) ?_)
    rw [List.getElem?_modify_eq, hw]
    rfl
  · intro h w hw
    obtain ⟨j, hj⟩ := List.mem_iff_getElem?.mp hw
    by_cases hne : j = index
    · subst hne
      rw [List.getElem?_modify_eq] at hj
      obtain ⟨w', hw', rfl⟩ := Option.map_eq_some_iff.mp hj
      exact h w' hw'
    · have hj' : l[j]? = some w := by simpa [Ne.symm hne] using hj
      exact hothers w (List.mem_of_getElem? hj')

/-- The activations of a run are the ones the code counts, in 32 bits. -/
theorem attempts_after (metrics : List (EndpointMetrics F)) (clock : Instant)
    (steps : List BreakerStep) :
    ∀ w ∈ ((start metrics clock).after steps).endpoints,
      w.metrics.circuitBreakerAttempts = UInt32.ofNat w.activations := by
  induction steps with
  | nil =>
      intro w hw
      obtain ⟨m, -, rfl⟩ := List.mem_map.mp hw
      exact UInt32.ofNat_toNat.symm
  | cons x steps ih =>
      rw [after, perform]
      cases x.call with
      | record index outcome =>
          refine (forall_mem_modify ih).mpr fun w hw => ?_
          have hcount := ih w (List.mem_of_getElem? hw)
          -- an outcome resets both counts, or leaves both
          rw [Watched.record, EndpointMetrics.circuitBreakerAttempts_record, hcount]
          split
          · rfl
          · rfl
      | activate index =>
          refine (forall_mem_modify ih).mpr fun w hw => ?_
          have hcount := ih w (List.mem_of_getElem? hw)
          show w.metrics.circuitBreakerAttempts + 1 = UInt32.ofNat (w.activations + 1)
          rw [hcount]
          exact (UInt32.ofNat_add _ _).symm
      | recover => exact ih

/-- **One step.**  From a pool that keeps the promise a step keeps it exactly when it meets
the condition. -/
theorem keeps_iff (hheld : ∀ w ∈ s.endpoints, w.Held s.clock)
    (htime : s.clock ≤ x.readings.read 0) : s.Keeps x ↔ s.Meets x := by
  have hnow : s.clock ≤ x.now := htime.trans (x.within 0)
  have hothers : ∀ w ∈ s.endpoints, w.Held x.now := fun w hw => (hheld w hw).mono hnow
  rw [Keeps, Meets, perform]
  cases hcall : x.call with
  | record index outcome =>
      dsimp only
      rw [forall_mem_modify hothers]
      simp only [Watched.held_record outcome (x.within 0), and_true]
  | activate index =>
      dsimp only
      rw [forall_mem_modify hothers]
      simp only [Watched.held_activate, implies_true, and_true]
  | recover =>
      dsimp only
      rw [recovers_iff]
      exact ⟨fun h => h.2, fun h => ⟨hothers, h⟩⟩

/-- A run that keeps the promise ends in a pool that keeps it. -/
theorem held_after (hstart : ∀ w ∈ s.endpoints, w.Held s.clock) (h : s.Along Keeps steps) :
    ∀ w ∈ (s.after steps).endpoints, w.Held (s.after steps).clock := by
  cases steps with
  | nil => exact hstart
  | cons x steps => exact h.1.1

omit [F64 F] in
theorem held_start (metrics : List (EndpointMetrics F)) (clock : Instant) :
    ∀ w ∈ (start metrics clock).endpoints, w.Held (start metrics clock).clock := by
  intro w hw
  obtain ⟨m, -, rfl⟩ := List.mem_map.mp hw
  rintro ⟨expiry, hexpiry, -⟩
  cases hexpiry

instance (s : WatchedPool F) (t : Readings) : Decidable (s.Recovers t) :=
  decidable_of_iff _ (recovers_iff s t).symm

instance (s : WatchedPool F) (x : BreakerStep) : Decidable (s.Keeps x) :=
  have : Decidable (match x.call with
      | .recover => s.Recovers x.readings
      | _ => True) :=
    match x.call with
    | .record _ _ | .activate _ => instDecidableTrue
    | .recover => inferInstanceAs (Decidable (s.Recovers x.readings))
  inferInstanceAs (Decidable (_ ∧ _))

instance (s : WatchedPool F) (x : BreakerStep) : Decidable (s.Meets x) :=
  match x with
  | ⟨.record index outcome, readings, now, _⟩ =>
    inferInstanceAs (Decidable (∀ w ∈ s.endpoints[index]?, w.RunsAt now →
      w.metrics.KeepsUnhealthy outcome readings))
  | ⟨.activate _, _, _, _⟩ => instDecidableTrue
  | ⟨.recover, readings, _, _⟩ =>
    inferInstanceAs (Decidable (s.NeedsRecovery (readings.read 0) →
      ∃ w ∈ s.endpoints[0]?, w.ExpiredAt (readings.read 0)))

instance (P : WatchedPool F → BreakerStep → Prop) [∀ s x, Decidable (P s x)]
    (s : WatchedPool F) : (steps : List BreakerStep) → Decidable (s.Along P steps)
  | [] => instDecidableTrue
  | _ :: steps =>
    have := instDecidableAlong P s steps
    inferInstanceAs (Decidable (_ ∧ _))

instance (s : WatchedPool F) : (steps : List BreakerStep) → Decidable (s.Timed steps)
  | [] => instDecidableTrue
  | _ :: steps =>
    have := instDecidableTimed s steps
    inferInstanceAs (Decidable (_ ∧ _))

/-- **What the circuit breaker keeps.**  In every run of a pool, whatever metrics it starts
with, the promise of the breakers is kept in every step exactly when every step meets the
condition. -/
theorem breaker_holds_iff (metrics : List (EndpointMetrics F)) (clock : Instant)
    (htimed : (start metrics clock).Timed steps) :
    (start metrics clock).Along Keeps steps ↔ (start metrics clock).Along Meets steps := by
  induction steps with
  | nil => exact Iff.rfl
  | cons x steps ih =>
      have hsteps := ih htimed.2
      constructor
      · rintro ⟨hkeeps, hall⟩
        have hheld := held_after (held_start metrics clock) hall
        exact ⟨(keeps_iff hheld htimed.1).mp hkeeps, hsteps.mp hall⟩
      · rintro ⟨hmeets, hall⟩
        have hall' := hsteps.mpr hall
        have hheld := held_after (held_start metrics clock) hall'
        exact ⟨(keeps_iff hheld htimed.1).mpr hmeets, hall'⟩

/-! ### Short runs -/

/-- Fresh endpoints. -/
def fresh (endpoints : ℕ) : WatchedPool Float := start (List.replicate endpoints .new) 0

/-- Ten failures, an activation, another failure five seconds into its backoff, and a
recovery one second after it has run out. -/
def failingThroughout : List BreakerStep :=
  [.still .recover 11000000000, .still (.record 0 .failure) 5000000000,
    .still (.activate 0) 0] ++ List.replicate 10 (.still (.record 0 .failure) 0)

/-- The promise is kept, also by the recovery, which is needed. -/
theorem breaker_holds_failing :
    (fresh 1).Along Keeps failingThroughout
      ∧ ((fresh 1).after failingThroughout.tail).NeedsRecovery 11000000000 := by
  have htimed : (fresh 1).Timed failingThroughout := by decide +kernel
  exact ⟨(breaker_holds_iff _ 0 htimed).mpr (by decide +kernel), by decide +kernel⟩

/-- A success one nanosecond after an activation. -/
def successMeanwhile : List BreakerStep :=
  [.still (.record 0 (.success (.fromMillis 5))) 1, .still (.activate 0) 0]

/-- The breaker of the second endpoint has expired, the one of the first has not. -/
def secondExpired : List BreakerStep :=
  [.still .recover 11000000000, .still (.activate 0) 5000000000, .still (.activate 1) 0]

/-- A success opens the traffic at once, and recovery probes the first endpoint although the
breaker of the second one has expired. -/
theorem breaker_forgotten :
    ((fresh 1).Timed successMeanwhile ∧ ¬ (fresh 1).Along Keeps successMeanwhile)
      ∧ (fresh 2).Timed secondExpired ∧ ¬ (fresh 2).Along Keeps secondExpired := by
  exact ⟨⟨by decide, by decide +kernel⟩, by decide, by decide +kernel⟩

end WatchedPool

end Lobby
