/-
# Which endpoints can be selected again

The clients of a pool select endpoints, hold the choices and record outcomes on them (`Run`).
A request, as `execute_unary` makes it, records one outcome and gives its choice back with it
(`Served`).  From every reachable state an endpoint can be selected again exactly when it is the
first of the pool, or is available, or the outcomes of the requests that still hold it can bring
its error rate down (`selectsAgain_iff`): the recovery path never finds an expired circuit
breaker, and the counters of an endpoint that nobody holds do not change.

* `Lost`, the invariant of an endpoint that is gone: no call of any client brings it back.
* `exists_served_all`: one outcome on each of several held choices.
* `exists_unavailable`: an endpoint that fails until it is unavailable.
-/
import Lobby.CircuitBreaker

namespace Lobby

/-! ## Several outcomes -/

namespace EndpointMetrics

variable {F : Type} [F64 F]

/-- The error rate after so many requests more, with so many errors. -/
def rateAfterAll (m : EndpointMetrics F) (requests errors : ℕ) : F :=
  errorRate { m with
    errorCount := m.errorCount + UInt64.ofNat errors
    requestCount := m.requestCount + UInt64.ofNat requests }

/-- The rate is that of the counters. -/
theorem rateAfterAll_congr {m m' : EndpointMetrics F} {requests errors requests' errors' : ℕ}
    (herrors : m.errorCount + UInt64.ofNat errors = m'.errorCount + UInt64.ofNat errors')
    (hrequests : m.requestCount + UInt64.ofNat requests
      = m'.requestCount + UInt64.ofNat requests') :
    m.rateAfterAll requests errors = m'.rateAfterAll requests' errors' := by
  simp only [rateAfterAll, errorRate, herrors, hrequests]

theorem rateAfterAll_record (m : EndpointMetrics F) (outcome : Outcome) (t : Readings)
    (requests errors : ℕ) :
    (m.record outcome t).rateAfterAll requests errors
      = m.rateAfterAll (requests + 1) (errors + outcome.errors) := by
  obtain ⟨hrequests, herrors, -⟩ := m.record_counts t outcome
  refine rateAfterAll_congr ?_ ?_
  · rw [herrors, UInt64.ofNat_add, UInt64.add_assoc, UInt64.add_comm (UInt64.ofNat errors)]
  · rw [hrequests, UInt64.ofNat_add, UInt64.add_assoc, UInt64.add_comm (UInt64.ofNat requests)]
    rfl

theorem unhealthyThreshold_record (m : EndpointMetrics F) (outcome : Outcome) (t : Readings) :
    (m.record outcome t).unhealthyThreshold = m.unhealthyThreshold :=
  (m.record_counts t outcome).2.2.2

/-- An outcome that waits for the circuit breaker leaves the endpoint available, if the error
rate is not too high. -/
theorem isAvailable_record {m : EndpointMetrics F} {t : Readings} {outcome : Outcome}
    (hexpired : m.circuitBreakerUntil ≤ t.elapsedMillis)
    (hrate : ¬ m.unhealthyThreshold < m.rateAfter outcome) :
    (m.record outcome t).health.isAvailable = true := by
  have hnot : ¬ m.StoredRuns outcome t := by
    cases outcome with
    | success duration => exact fun h => absurd h.1 (UInt64.not_lt.mpr hexpired)
    | failure => exact UInt64.not_lt.mpr hexpired
  rw [← Bool.not_eq_false, EndpointHealth.isAvailable_eq_false, health_record]
  exact fun h => h.elim hrate hnot

end EndpointMetrics

/-! ## The clients of a pool -/

/-- A pool, the choices its clients hold, and the clock. -/
structure PoolState where
  pool : EndpointPool Float
  choices : List ℕ
  clock : Instant

/-- What a client does. -/
inductive PoolCall : Type where
  /-- `select_endpoint`, with the draw of `fastrand::f64()`. -/
  | select (strategy : LoadBalancingStrategy) (u : Float)
  | record (index : ℕ) (outcome : EndpointMetrics.Outcome)
  | drop (index : ℕ)
  | activateCircuitBreaker (index : ℕ)

/-- Every call but an activation of a circuit breaker. -/
def PoolCall.IsRequest : PoolCall → Prop
  | .activateCircuitBreaker _ => False
  | _ => True

namespace PoolState

/-- The state after `build_rpc_client`. -/
def built (urls : ℕ) (clock : Instant) : PoolState := ⟨.build urls, [], clock⟩

/-- A draw lies in `[0, 1)`, and an outcome is recorded on an endpoint that was chosen. -/
def Admits (s : PoolState) : PoolCall → Prop
  | .select _ u => 0.0 ≤ u ∧ u < 1.0
  | .record index _ => index ∈ s.choices
  | _ => True

/-- A call that reads the clock at `t` and ends at `now`. -/
def perform (s : PoolState) (t : Readings) (now : Instant) : PoolCall → PoolState
  | .select strategy u =>
    ⟨s.pool, (s.pool.selectEndpoint strategy u t).toList ++ s.choices, now⟩
  | .record index outcome => ⟨s.pool.modify index (·.record outcome t), s.choices, now⟩
  | .drop index => ⟨s.pool, s.choices.erase index, now⟩
  | .activateCircuitBreaker index =>
    ⟨s.pool.modify index (·.activateCircuitBreaker t), s.choices, now⟩

/-- Calls one after the other, with any time between them and inside them. -/
inductive Run : PoolState → List PoolCall → PoolState → Prop where
  | refl (s : PoolState) : Run s [] s
  | step {s s' : PoolState} {call : PoolCall} {calls : List PoolCall} {t : Readings}
      {now : Instant} (hadmits : s.Admits call) (hfrom : s.clock ≤ t.read 0)
      (hto : ∀ k, t.read k ≤ now) (hrun : Run (s.perform t now call) calls s') :
      Run s (call :: calls) s'

/-- A call of clients whose requests record one outcome: with it the choice is given back. -/
def serve (s : PoolState) (t : Readings) (now : Instant) : PoolCall → PoolState
  | .select strategy u => s.perform t now (.select strategy u)
  | .record index outcome =>
    ⟨s.pool.modify index (·.record outcome t), s.choices.erase index, now⟩
  | .drop index => s.perform t now (.drop index)
  | .activateCircuitBreaker index => s.perform t now (.activateCircuitBreaker index)

/-- Calls of such clients, one after the other. -/
inductive Served : PoolState → List PoolCall → PoolState → Prop where
  | refl (s : PoolState) : Served s [] s
  | step {s s' : PoolState} {call : PoolCall} {calls : List PoolCall} {t : Readings}
      {now : Instant} (hadmits : s.Admits call) (hfrom : s.clock ≤ t.read 0)
      (hto : ∀ k, t.read k ≤ now) (hrun : Served (s.serve t now call) calls s') :
      Served s (call :: calls) s'

/-- A continuation of requests: selections, outcomes, and time. -/
def Continues (s s' : PoolState) : Prop :=
  ∃ calls, Served s calls s' ∧ ∀ call ∈ calls, call.IsRequest

/-- In some continuation the endpoint is selected. -/
def SelectsAgain (s : PoolState) (index : ℕ) : Prop :=
  ∃ s', Continues s s' ∧ ∃ strategy u t, (0.0 ≤ u ∧ u < 1.0) ∧ s'.clock ≤ t.read 0
    ∧ s'.pool.selectEndpoint strategy u t = some index

/-- Some of the requests that hold the endpoint can end so that its error rate is not above the
unhealthy threshold any more. -/
def Recovers (s : PoolState) (index : ℕ) : Prop :=
  ∃ m, s.pool.endpoints[index]? = some m ∧ ∃ requests errors, 0 < requests ∧ errors ≤ requests
    ∧ requests ≤ s.choices.count index
    ∧ ¬ m.unhealthyThreshold < m.rateAfterAll requests errors

instance (s : PoolState) : DecidablePred s.Admits
  | .select _ _ => inferInstanceAs (Decidable (_ ∧ _))
  | .record index _ => inferInstanceAs (Decidable (index ∈ s.choices))
  | .drop _ | .activateCircuitBreaker _ => instDecidableTrue

/-! ## An endpoint that is gone -/

variable {s s' : PoolState} {index : ℕ} {call : PoolCall} {calls : List PoolCall} {t : Readings}
  {now : Instant}

/-- An endpoint other than the first that is not available, and that no outcomes of the requests
that hold it can bring back. -/
structure Lost (s : PoolState) (index : ℕ) : Prop where
  notFirst : index ≠ 0
  unavailable : ¬ s.pool.IsAvailable index
  notRecovers : ¬ s.Recovers index

theorem Lost.not_selected (h : s.Lost index) (strategy : LoadBalancingStrategy) (u : Float)
    (t : Readings) : s.pool.selectEndpoint strategy u t ≠ some index := by
  intro hselected
  exact (EndpointPool.selectEndpoint_some hselected).elim h.notFirst h.unavailable

/-- An endpoint that stays as it is, held by no more requests than before, stays lost. -/
theorem Lost.of_getElem? (h : s.Lost index)
    (hsame : s'.pool.endpoints[index]? = s.pool.endpoints[index]?)
    (hcount : s'.choices.count index ≤ s.choices.count index) : s'.Lost index := by
  refine ⟨h.notFirst, ?_, ?_⟩
  · rintro ⟨m, hm, havailable⟩
    exact h.unavailable ⟨m, hsame.symm.trans hm, havailable⟩
  · rintro ⟨m, hm, requests, errors, hpos, hle, hheld, hrate⟩
    exact h.notRecovers
      ⟨m, hsame.symm.trans hm, requests, errors, hpos, hle, hheld.trans hcount, hrate⟩

/-- Another outcome does not bring it back, and one choice of it less is held. -/
theorem Lost.record {outcome : EndpointMetrics.Outcome} (h : s.Lost index)
    (hheld : index ∈ s.choices) : (s.serve t now (.record index outcome)).Lost index := by
  have hcount : s.choices.count index = (s.choices.erase index).count index + 1 := by
    have hpos := List.count_pos_iff.mpr hheld
    rw [List.count_erase_self]
    omega
  -- what some outcomes could do now, they could do before together with this one
  have hrecorded : ∀ m, s.pool.endpoints[index]? = some m → ∀ requests errors,
      errors ≤ requests → requests ≤ (s.choices.erase index).count index →
      m.unhealthyThreshold < m.rateAfterAll (requests + 1) (errors + outcome.errors) := by
    intro m hm requests errors hle hheld'
    by_contra hrate
    refine h.notRecovers ⟨m, hm, requests + 1, errors + outcome.errors, by omega, ?_, by omega,
      hrate⟩
    have hone : outcome.errors ≤ 1 := by cases outcome <;> simp [EndpointMetrics.Outcome.errors]
    omega
  refine ⟨h.notFirst, ?_, ?_⟩
  · rintro ⟨m', hm', havailable⟩
    rw [serve, EndpointPool.getElem?_modify_self] at hm'
    obtain ⟨m, hm, rfl⟩ := Option.map_eq_some_iff.mp hm'
    have hrate := hrecorded m hm 0 0 le_rfl (Nat.zero_le _)
    rw [Nat.zero_add, Nat.zero_add] at hrate
    have hunhealthy := (m.health_record t outcome).mpr (.inl hrate)
    rw [hunhealthy] at havailable
    exact Bool.false_ne_true havailable
  · rintro ⟨m', hm', requests, errors, -, hle, hheld', hrate⟩
    rw [serve, EndpointPool.getElem?_modify_self] at hm'
    obtain ⟨m, hm, rfl⟩ := Option.map_eq_some_iff.mp hm'
    rw [EndpointMetrics.rateAfterAll_record, EndpointMetrics.unhealthyThreshold_record] at hrate
    exact hrate (hrecorded m hm requests errors hle hheld')

/-- No call brings it back. -/
theorem Lost.serve (h : s.Lost index) (hadmits : s.Admits call) :
    (s.serve t now call).Lost index := by
  cases call with
  | select strategy u =>
      refine h.of_getElem? rfl ?_
      have hnot : index ∉ (s.pool.selectEndpoint strategy u t).toList := fun hselected =>
        h.not_selected strategy u t (Option.mem_toList.mp hselected)
      rw [PoolState.serve, PoolState.perform, List.count_append, List.count_eq_zero.mpr hnot,
        Nat.zero_add]
  | record j outcome =>
      by_cases heq : index = j
      · subst heq
        exact h.record hadmits
      · refine h.of_getElem? (EndpointPool.getElem?_modify_of_ne heq) ?_
        exact (List.erase_sublist).count_le index
  | drop j => exact h.of_getElem? rfl ((List.erase_sublist).count_le index)
  | activateCircuitBreaker j =>
      by_cases heq : index = j
      · subst heq
        -- an activation leaves the endpoint unhealthy, and its counters as they are
        refine ⟨h.notFirst, ?_, ?_⟩
        · rintro ⟨m', hm', havailable⟩
          rw [PoolState.serve, PoolState.perform, EndpointPool.getElem?_modify_self] at hm'
          obtain ⟨m, -, rfl⟩ := Option.map_eq_some_iff.mp hm'
          exact absurd havailable Bool.false_ne_true
        · rintro ⟨m', hm', requests, errors, hpos, hle, hheld, hrate⟩
          rw [PoolState.serve, PoolState.perform, EndpointPool.getElem?_modify_self] at hm'
          obtain ⟨m, hm, rfl⟩ := Option.map_eq_some_iff.mp hm'
          exact h.notRecovers ⟨m, hm, requests, errors, hpos, hle, hheld, hrate⟩
      · exact h.of_getElem? (EndpointPool.getElem?_modify_of_ne heq) le_rfl

theorem Lost.served (h : s.Lost index) (hrun : Served s calls s') : s'.Lost index := by
  induction hrun with
  | refl s => exact h
  | step hadmits _ _ _ ih => exact ih (h.serve hadmits)

/-! ## Continuations -/

theorem Run.trans {s'' : PoolState} {calls' : List PoolCall} (h : Run s calls s')
    (h' : Run s' calls' s'') : Run s (calls ++ calls') s'' := by
  induction h with
  | refl s => exact h'
  | step hadmits hfrom hto _ ih => exact .step hadmits hfrom hto (ih h')

theorem Served.trans {s'' : PoolState} {calls' : List PoolCall} (h : Served s calls s')
    (h' : Served s' calls' s'') : Served s (calls ++ calls') s'' := by
  induction h with
  | refl s => exact h'
  | step hadmits hfrom hto _ ih => exact .step hadmits hfrom hto (ih h')

/-- A served call is one call of a run, or the outcome and then the drop of its choice. -/
theorem exists_run_serve (hadmits : s.Admits call) (hfrom : s.clock ≤ t.read 0)
    (hto : ∀ k, t.read k ≤ now) : ∃ calls, Run s calls (s.serve t now call) := by
  cases call with
  | select strategy u => exact ⟨_, .step hadmits hfrom hto (.refl _)⟩
  | record index outcome =>
      refine ⟨[.record index outcome, .drop index], .step hadmits hfrom hto ?_⟩
      exact .step trivial (by simp [perform]) (Readings.read_pausing_le now 0) (.refl _)
  | drop index => exact ⟨_, .step hadmits hfrom hto (.refl _)⟩
  | activateCircuitBreaker index => exact ⟨_, .step hadmits hfrom hto (.refl _)⟩

/-- The clients that record one outcome are among all clients. -/
theorem Served.exists_run (h : Served s calls s') : ∃ calls', Run s calls' s' := by
  induction h with
  | refl s => exact ⟨[], .refl s⟩
  | step hadmits hfrom hto _ ih =>
      obtain ⟨calls₁, hrun₁⟩ := exists_run_serve hadmits hfrom hto
      obtain ⟨calls₂, hrun₂⟩ := ih
      exact ⟨calls₁ ++ calls₂, hrun₁.trans hrun₂⟩

theorem Continues.refl (s : PoolState) : Continues s s := ⟨[], .refl s, by simp⟩

theorem Continues.trans {s'' : PoolState} (h : Continues s s') (h' : Continues s' s'') :
    Continues s s'' := by
  obtain ⟨calls, hrun, hrequests⟩ := h
  obtain ⟨calls', hrun', hrequests'⟩ := h'
  refine ⟨calls ++ calls', hrun.trans hrun', fun call hcall => ?_⟩
  exact (List.mem_append.mp hcall).elim (hrequests call) (hrequests' call)

/-- A call during which the clock does not move. -/
def still (s : PoolState) (call : PoolCall) : PoolState :=
  s.perform (.pausing s.clock 0) s.clock call

theorem continues_serve (hrequest : call.IsRequest) (hadmits : s.Admits call)
    (hfrom : s.clock ≤ t.read 0) (hto : ∀ k, t.read k ≤ now) :
    Continues s (s.serve t now call) :=
  ⟨[call], .step hadmits hfrom hto (.refl _), by simpa using hrequest⟩

/-- The thresholds of a pool are those of `new`: no client sets others. -/
def Standard (s : PoolState) : Prop := ∀ m ∈ s.pool.endpoints, m.StandardThresholds

theorem standard_modify {pool : EndpointPool Float}
    {f : EndpointMetrics Float → EndpointMetrics Float}
    (hf : ∀ m : EndpointMetrics Float, m.StandardThresholds → (f m).StandardThresholds)
    (h : ∀ m ∈ pool.endpoints, m.StandardThresholds) :
    ∀ m ∈ (pool.modify index f).endpoints, m.StandardThresholds := by
  intro m hm
  obtain ⟨j, hj⟩ := List.mem_iff_getElem?.mp hm
  by_cases hne : j = index
  · subst hne
    rw [EndpointPool.getElem?_modify_self] at hj
    obtain ⟨m', hm', rfl⟩ := Option.map_eq_some_iff.mp hj
    exact hf m' (h m' (List.mem_of_getElem? hm'))
  · rw [EndpointPool.getElem?_modify_of_ne hne] at hj
    exact h m (List.mem_of_getElem? hj)

theorem Standard.perform (h : s.Standard) : (s.perform t now call).Standard := by
  cases call with
  | select strategy u => exact h
  | record j outcome => exact standard_modify (fun _ hm => hm.record outcome t) h
  | drop j => exact h
  | activateCircuitBreaker j => exact standard_modify (fun _ hm => hm) h

theorem length_perform :
    (s.perform t now call).pool.endpoints.length = s.pool.endpoints.length := by
  cases call <;> simp [PoolState.perform, EndpointPool.modify]

theorem standard_built (urls : ℕ) (clock : Instant) :
    (built urls clock).Standard ∧ (built urls clock).pool.endpoints.length = urls := by
  induction urls with
  | zero => exact ⟨by simp [Standard, built, EndpointPool.build, EndpointPool.new], rfl⟩
  | succ urls ih =>
      refine ⟨fun m hm => ?_, ?_⟩
      · obtain hm | rfl := List.mem_append.mp hm |>.imp_right List.mem_singleton.mp
        · exact ih.1 m hm
        · exact ⟨rfl, rfl⟩
      · simpa [built, EndpointPool.build, EndpointPool.addEndpoint] using ih.2

/-- In every reachable state. -/
theorem Run.standard (h : Run s calls s') (hstandard : s.Standard) :
    s'.Standard ∧ s'.pool.endpoints.length = s.pool.endpoints.length := by
  induction h with
  | refl s => exact ⟨hstandard, rfl⟩
  | step _ _ _ _ ih =>
      obtain ⟨hstandard', hlength⟩ := ih hstandard.perform
      exact ⟨hstandard', hlength.trans length_perform⟩

theorem Continues.standard (h : Continues s s') (hstandard : s.Standard) :
    s'.Standard ∧ s'.pool.endpoints.length = s.pool.endpoints.length := by
  obtain ⟨calls, hserved, -⟩ := h
  obtain ⟨calls', hrun⟩ := hserved.exists_run
  exact hrun.standard hstandard

/-! ## Outcomes on held choices -/

/-- The outcome of one request that holds the endpoint, in a call suspended for `gap`. -/
theorem exists_served {m : EndpointMetrics Float} (hheld : index ∈ s.choices)
    (hm : s.pool.endpoints[index]? = some m) (outcome : EndpointMetrics.Outcome) (gap : ℕ) :
    ∃ s', Continues s s' ∧ s'.choices = s.choices.erase index
      ∧ (∀ j ≠ index, s'.pool.endpoints[j]? = s.pool.endpoints[j]?)
      ∧ s'.pool.endpoints[index]? = some (m.record outcome (.pausing s.clock gap)) := by
  refine ⟨s.serve (.pausing s.clock gap) (s.clock + gap) (.record index outcome), ?_, rfl,
    fun _ hj => EndpointPool.getElem?_modify_of_ne hj, ?_⟩
  · exact continues_serve trivial hheld (by simp) (Readings.read_pausing_le _ _)
  · rw [PoolState.serve, EndpointPool.getElem?_modify_self, hm, Option.map_some]

/-- The outcomes of several such requests: the counters move on by their numbers. -/
theorem exists_served_all {m : EndpointMetrics Float} (hm : s.pool.endpoints[index]? = some m)
    (outcomes : List EndpointMetrics.Outcome) {n : ℕ}
    (hheld : s.choices.count index = outcomes.length + n) :
    ∃ s' m', Continues s s' ∧ s'.choices.count index = n
      ∧ s'.pool.endpoints[index]? = some m' ∧ m'.unhealthyThreshold = m.unhealthyThreshold
      ∧ ∀ requests errors, m'.rateAfterAll requests errors = m.rateAfterAll
        (requests + outcomes.length)
        (errors + (outcomes.map EndpointMetrics.Outcome.errors).sum) := by
  induction outcomes generalizing s m with
  | nil =>
      refine ⟨s, m, .refl s, ?_, hm, rfl, fun _ _ => rfl⟩
      rw [hheld, List.length_nil, Nat.zero_add]
  | cons outcome outcomes ih =>
      rw [List.length_cons] at hheld
      have hmem : index ∈ s.choices := List.count_pos_iff.mp (by omega)
      obtain ⟨s₁, hstep, hchoices, -, hm₁⟩ := exists_served hmem hm outcome 0
      have hheld₁ : s₁.choices.count index = outcomes.length + n := by
        rw [hchoices, List.count_erase_self, hheld]
        omega
      obtain ⟨s', m', hcontinues, hcount, hm', hthreshold, hrate⟩ := ih hm₁ hheld₁
      refine ⟨s', m', hstep.trans hcontinues, hcount, hm',
        hthreshold.trans (m.unhealthyThreshold_record _ _), fun requests errors => ?_⟩
      rw [hrate, EndpointMetrics.rateAfterAll_record, List.length_cons, List.map_cons,
        List.sum_cons, Nat.add_assoc, Nat.add_assoc,
        Nat.add_comm (outcomes.map EndpointMetrics.Outcome.errors).sum]

/-- So many outcomes before a last one, with so many errors together. -/
theorem exists_outcomes {n errors : ℕ} (h : errors ≤ n + 1) :
    ∃ (outcomes : List EndpointMetrics.Outcome) (last : EndpointMetrics.Outcome),
      outcomes.length = n
      ∧ last.errors + (outcomes.map EndpointMetrics.Outcome.errors).sum = errors := by
  let fast : EndpointMetrics.Outcome := .success (.fromMillis 0)
  rcases Nat.eq_zero_or_pos errors with rfl | hpos
  · refine ⟨List.replicate n fast, fast, List.length_replicate, ?_⟩
    simp [fast, EndpointMetrics.Outcome.errors]
  · refine ⟨List.replicate (errors - 1) .failure ++ List.replicate (n + 1 - errors) fast,
      .failure, ?_, ?_⟩
    · rw [List.length_append, List.length_replicate, List.length_replicate]
      omega
    · simp only [List.map_append, List.map_replicate, List.sum_append, List.sum_replicate,
        EndpointMetrics.Outcome.errors, fast, smul_eq_mul]
      omega

/-- An endpoint that can recover is brought back: the last of the outcomes waits for the circuit
breaker. -/
theorem Recovers.exists_available (h : s.Recovers index) :
    ∃ s', Continues s s' ∧ s'.pool.IsAvailable index := by
  obtain ⟨m, hm, requests, errors, hpos, hle, hheld, hrate⟩ := h
  obtain ⟨n, rfl⟩ := Nat.exists_eq_add_of_lt hpos
  rw [Nat.zero_add] at hle hheld hrate
  obtain ⟨outcomes, last, rfl, rfl⟩ := exists_outcomes hle
  obtain ⟨k, hk⟩ := Nat.exists_eq_add_of_le hheld
  obtain ⟨s₁, m₁, hcontinues, hcount, hm₁, hthreshold, hrate₁⟩ :=
    exists_served_all (n := k + 1) hm outcomes (by omega)
  have hmem : index ∈ s₁.choices := List.count_pos_iff.mp (by omega)
  let gap := m₁.circuitBreakerUntil.toNat * 1000000
  obtain ⟨s', hstep, -, -, hm'⟩ := exists_served hmem hm₁ last gap
  refine ⟨s', hcontinues.trans hstep, _, hm', EndpointMetrics.isAvailable_record ?_ ?_⟩
  · rw [Readings.elapsedMillis_pausing]
    exact UInt64.le_refl _
  · rw [hthreshold]
    show ¬ m.unhealthyThreshold < m₁.rateAfterAll 1 last.errors
    rw [hrate₁, Nat.add_comm 1]
    exact hrate

/-! ## Failing requests -/

/-- `s'` continues `s` with requests on one endpoint. -/
structure OnlyOn (s s' : PoolState) (index : ℕ) : Prop where
  continues : Continues s s'
  others : ∀ j ≠ index, s'.pool.endpoints[j]? = s.pool.endpoints[j]?

theorem OnlyOn.trans {s'' : PoolState} (h : OnlyOn s s' index) (h' : OnlyOn s' s'' index) :
    OnlyOn s s'' index where
  continues := h.continues.trans h'.continues
  others j hj := (h'.others j hj).trans (h.others j hj)

/-- A request on an available endpoint. -/
theorem exists_request {m : EndpointMetrics Float} (hm : s.pool.endpoints[index]? = some m)
    (havailable : m.health.isAvailable = true) (outcome : EndpointMetrics.Outcome) :
    ∃ s' t, OnlyOn s s' index ∧ s'.pool.endpoints[index]? = some (m.record outcome t) := by
  let s₀ := s.serve (.pausing s.clock 0) s.clock (.select (.stickySession index) 0.0)
  have hselect : Continues s s₀ :=
    continues_serve trivial (by simp only [Admits]; decide +kernel) (by simp)
      (Readings.read_pausing_le s.clock 0)
  have hheld : index ∈ s₀.choices := by
    simp [s₀, serve, perform, EndpointPool.selectEndpoint_sticky ⟨m, hm, havailable⟩]
  obtain ⟨s', hstep, -, hothers, hm'⟩ :=
    exists_served (s := s₀) hheld (show s₀.pool.endpoints[index]? = some m from hm) outcome 0
  exact ⟨s', _, ⟨hselect.trans hstep, hothers⟩, hm'⟩

/-- Requests one after the other: after one of them the endpoint is unavailable, or the counters
have moved on by their numbers. -/
theorem exists_requests {m : EndpointMetrics Float} (hm : s.pool.endpoints[index]? = some m)
    (havailable : m.health.isAvailable = true) (outcomes : List EndpointMetrics.Outcome) :
    ∃ s' m', OnlyOn s s' index ∧ s'.pool.endpoints[index]? = some m'
      ∧ (m'.health.isAvailable = false
        ∨ m'.health.isAvailable = true
          ∧ m'.requestCount = m.requestCount + UInt64.ofNat outcomes.length
          ∧ m'.errorCount
            = m.errorCount + UInt64.ofNat (outcomes.map EndpointMetrics.Outcome.errors).sum) := by
  induction outcomes generalizing s m with
  | nil => exact ⟨s, m, ⟨.refl s, fun _ _ => rfl⟩, hm, .inr ⟨havailable, by simp, by simp⟩⟩
  | cons outcome outcomes ih =>
      obtain ⟨s₁, t, hstep, hm₁⟩ := exists_request hm havailable outcome
      cases hhealth : (m.record outcome t).health.isAvailable with
      | false => exact ⟨s₁, _, hstep, hm₁, .inl hhealth⟩
      | true =>
          obtain ⟨s', m', honly, hm', hend⟩ := ih hm₁ hhealth
          refine ⟨s', m', hstep.trans honly, hm', hend.imp_right ?_⟩
          obtain ⟨hrequests, herrors, -⟩ := m.record_counts t outcome
          rintro ⟨havailable', hrequests', herrors'⟩
          refine ⟨havailable', ?_, ?_⟩
          · rw [hrequests', hrequests, List.length_cons, UInt64.ofNat_add, UInt64.add_assoc,
              UInt64.add_comm 1]
            rfl
          · rw [herrors', herrors, List.map_cons, List.sum_cons, UInt64.ofNat_add,
              UInt64.add_assoc]

/-- Successes and failures that bring the two counters to given values: both wrap around. -/
theorem exists_outcomes_counts (m : EndpointMetrics Float) (requests errors : UInt64) :
    ∃ outcomes : List EndpointMetrics.Outcome,
      m.requestCount + UInt64.ofNat outcomes.length = requests
      ∧ m.errorCount + UInt64.ofNat (outcomes.map EndpointMetrics.Outcome.errors).sum
        = errors := by
  let fast : EndpointMetrics.Outcome := .success (.fromMillis 0)
  let failures := errors - m.errorCount
  let successes := requests - m.requestCount - failures
  refine ⟨List.replicate successes.toNat fast ++ List.replicate failures.toNat .failure,
    ?_, ?_⟩
  · rw [List.length_append, List.length_replicate, List.length_replicate, UInt64.ofNat_add,
      UInt64.ofNat_toNat, UInt64.ofNat_toNat, UInt64.sub_add_cancel, UInt64.add_comm,
      UInt64.sub_add_cancel]
  · have hsum : ((List.replicate successes.toNat fast
        ++ List.replicate failures.toNat EndpointMetrics.Outcome.failure).map
        EndpointMetrics.Outcome.errors).sum = failures.toNat := by
      simp [fast, EndpointMetrics.Outcome.errors]
    rw [hsum, UInt64.ofNat_toNat, UInt64.add_comm, UInt64.sub_add_cancel]

/-- An available endpoint is made unavailable by failing requests. -/
theorem exists_unavailable (hstandard : s.Standard) (havailable : s.pool.IsAvailable index) :
    ∃ s', OnlyOn s s' index ∧ ¬ s'.pool.IsAvailable index := by
  have hnot : ∀ {s' : PoolState} {m' : EndpointMetrics Float},
      s'.pool.endpoints[index]? = some m' → m'.health.isAvailable = false →
      ¬ s'.pool.IsAvailable index := by
    rintro s' m' hm' hhealth ⟨m'', hm'', hhealth'⟩
    rw [Option.some.inj (hm''.symm.trans hm'), hhealth] at hhealth'
    exact Bool.false_ne_true hhealth'
  obtain ⟨m, hm, hhealth⟩ := havailable
  obtain ⟨outcomes, hrequests, herrors⟩ := exists_outcomes_counts m 9 9
  obtain ⟨s₁, m₁, honly, hm₁, hunavailable | ⟨hhealth₁, hrequests₁, herrors₁⟩⟩ :=
    exists_requests hm hhealth outcomes
  · exact ⟨s₁, honly, hnot hm₁ hunavailable⟩
  · -- the tenth of ten failures
    obtain ⟨s', t, hstep, hm'⟩ := exists_request hm₁ hhealth₁ .failure
    have hstandard₁ : m₁.StandardThresholds :=
      (honly.continues.standard hstandard).1 m₁ (List.mem_of_getElem? hm₁)
    have hunhealthy := EndpointMetrics.recordFailure_unhealthy hstandard₁
      (by rw [herrors₁, herrors]; rfl) (by rw [hrequests₁, hrequests]; rfl) t
    refine ⟨s', honly.trans hstep, hnot hm' ?_⟩
    exact EndpointHealth.isAvailable_eq_false.mpr hunhealthy

/-- So are any number of endpoints after the first. -/
theorem exists_unavailable_upTo (hstandard : s.Standard) (n : ℕ) :
    ∃ s', Continues s s' ∧ s'.pool.endpoints[0]? = s.pool.endpoints[0]?
      ∧ ∀ j, 0 < j → j < n → ¬ s'.pool.IsAvailable j := by
  induction n with
  | zero => exact ⟨s, .refl s, rfl, fun j _ hj => absurd hj (Nat.not_lt_zero j)⟩
  | succ n ih =>
      obtain ⟨s₁, hcontinues, hfirst, hunavailable⟩ := ih
      by_cases hn : 0 < n ∧ s₁.pool.IsAvailable n
      · obtain ⟨s', honly, hunavailable'⟩ :=
          exists_unavailable (hcontinues.standard hstandard).1 hn.2
        refine ⟨s', hcontinues.trans honly.continues, (honly.others 0 hn.1.ne).trans hfirst, ?_⟩
        intro j hj hjn havailable
        by_cases heq : j = n
        · exact hunavailable' (heq ▸ havailable)
        · obtain ⟨m, hm, hhealth⟩ := havailable
          exact hunavailable j hj (by omega) ⟨m, (honly.others j heq).symm.trans hm, hhealth⟩
      · refine ⟨s₁, hcontinues, hfirst, fun j hj hjn havailable => ?_⟩
        by_cases heq : j = n
        · exact hn (heq ▸ ⟨hj, havailable⟩)
        · exact hunavailable j hj (by omega) havailable

/-! ## Selecting again -/

theorem selectsAgain_of_isAvailable (h : Continues s s') (havailable : s'.pool.IsAvailable index) :
    s.SelectsAgain index :=
  ⟨s', h, .stickySession index, 0.0, .pausing s'.clock 0, by decide +kernel, by simp,
    EndpointPool.selectEndpoint_sticky havailable⟩

/-- The first endpoint is the last resort once all the others have failed. -/
theorem selectsAgain_first (hstandard : s.Standard) (hpool : 0 < s.pool.endpoints.length) :
    s.SelectsAgain 0 := by
  by_cases havailable : s.pool.IsAvailable 0
  · exact selectsAgain_of_isAvailable (.refl s) havailable
  · obtain ⟨s', hcontinues, hfirst, hunavailable⟩ :=
      exists_unavailable_upTo hstandard s.pool.endpoints.length
    have hlength := (hcontinues.standard hstandard).2
    refine ⟨s', hcontinues, .weightedLeastResponseTime, 0.0, .pausing s'.clock 0,
      by decide +kernel, by simp, ?_⟩
    refine EndpointPool.selectByWeightedScore_unhealthy
      (List.ne_nil_of_length_pos (hlength ▸ hpool)) fun j => ?_
    rcases Nat.eq_zero_or_pos j with rfl | hj
    · rintro ⟨m, hm, hhealth⟩
      exact havailable ⟨m, hfirst.symm.trans hm, hhealth⟩
    · intro hj'
      obtain ⟨m, hm, -⟩ := id hj'
      have hlt : j < s'.pool.endpoints.length := (List.getElem?_eq_some_iff.mp hm).1
      exact hunavailable j hj (hlength ▸ hlt) hj'

/-- **Which endpoints can be selected again**, from any state that clients of any kind have
reached, by requests that record one outcome each. -/
theorem selectsAgain_iff {urls : ℕ} {clock : Instant} (hrun : Run (built urls clock) calls s)
    (hindex : index < urls) :
    s.SelectsAgain index
      ↔ index = 0 ∨ s.pool.IsAvailable index ∨ s.Recovers index := by
  obtain ⟨hbuilt, hurls⟩ := standard_built urls clock
  obtain ⟨hstandard, hlength⟩ := hrun.standard hbuilt
  have hindex' : index < s.pool.endpoints.length := by rwa [hlength, hurls]
  constructor
  · rintro ⟨s', ⟨calls', hserved, -⟩, strategy, u, t, -, -, hselected⟩
    by_contra hlost
    obtain ⟨hfirst, havailable, hrecovers⟩ : index ≠ 0 ∧ ¬ s.pool.IsAvailable index
        ∧ ¬ s.Recovers index := by simpa using hlost
    exact (Lost.served ⟨hfirst, havailable, hrecovers⟩ hserved).not_selected strategy u t hselected
  · rintro (rfl | havailable | hrecovers)
    · exact selectsAgain_first hstandard hindex'
    · exact selectsAgain_of_isAvailable (.refl s) havailable
    · obtain ⟨s', hcontinues, havailable⟩ := hrecovers.exists_available
      exact selectsAgain_of_isAvailable hcontinues havailable

/-! ## Ten failed requests -/

/-- Every call is admitted where it is made, the clock standing still. -/
def AdmitsAll (s : PoolState) : List PoolCall → Prop
  | [] => True
  | call :: calls => s.Admits call ∧ (s.still call).AdmitsAll calls

instance : (s : PoolState) → (calls : List PoolCall) → Decidable (s.AdmitsAll calls)
  | _, [] => instDecidableTrue
  | s, call :: calls =>
    have := instDecidableAdmitsAll (s.still call) calls
    inferInstanceAs (Decidable (_ ∧ _))

theorem run_still (h : s.AdmitsAll calls) : Run s calls (calls.foldl still s) := by
  induction calls generalizing s with
  | nil => exact .refl s
  | cons call calls ih =>
      exact .step h.1 (by simp) (Readings.read_pausing_le s.clock 0) (ih h.2)

/-- Thirteen requests on the second endpoint at once, of which five succeed and five fail. -/
def thirteenRequests : List PoolCall :=
  List.replicate 13 (.select (.stickySession 1) 0.5)
    ++ (List.replicate 5 [.record 1 (.success (.fromMillis 20)), .drop 1]).flatten
    ++ (List.replicate 5 [.record 1 .failure, .drop 1]).flatten

/-- The second endpoint is unhealthy then, but the other three can still succeed. -/
theorem selectsAgain_thirteen : ∃ s, Run (built 2 0) thirteenRequests s
    ∧ ¬ s.pool.IsAvailable 1 ∧ s.choices.count 1 = 3 ∧ s.SelectsAgain 1 := by
  have hadmits : (built 2 0).AdmitsAll thirteenRequests := by decide +kernel
  have hrate : ((thirteenRequests.foldl still (built 2 0)).pool.endpoints[1]?.map fun m =>
      (m.health, decide (m.unhealthyThreshold < m.rateAfterAll 3 0)))
      = some (.unhealthy, false) := by decide +kernel
  have hcount : (thirteenRequests.foldl still (built 2 0)).choices.count 1 = 3 := by
    decide +kernel
  obtain ⟨m, hm, heq⟩ := Option.map_eq_some_iff.mp hrate
  obtain ⟨hhealth, hbelow⟩ := Prod.mk.inj heq
  refine ⟨_, run_still hadmits, ?_, hcount, ?_⟩
  · rintro ⟨m', hm', havailable⟩
    rw [Option.some.inj (hm'.symm.trans hm), hhealth] at havailable
    exact Bool.false_ne_true havailable
  · refine (selectsAgain_iff (run_still hadmits) (by decide)).mpr (.inr (.inr ?_))
    exact ⟨m, hm, 3, 0, by omega, by omega, hcount.ge, of_decide_eq_false hbelow⟩

/-- Ten requests on the second endpoint, each of which fails. -/
def tenFailures : List PoolCall :=
  (List.replicate 10 [.select (.stickySession 1) 0.5, .record 1 .failure, .drop 1]).flatten

/-- After them it is never selected again. -/
theorem second_lost : ∃ s, Run (built 2 0) tenFailures s ∧ ¬ s.SelectsAgain 1 := by
  have hhealth : (tenFailures.foldl still (built 2 0)).pool.endpoints[1]?.map
      EndpointMetrics.health = some .unhealthy := by decide +kernel
  have hchoices : (tenFailures.foldl still (built 2 0)).choices = [] := by decide +kernel
  refine ⟨_, run_still (by decide +kernel), ?_⟩
  have hlost : (tenFailures.foldl still (built 2 0)).Lost 1 := by
    refine ⟨one_ne_zero, ?_, ?_⟩
    · rintro ⟨m, hm, havailable⟩
      rw [hm, Option.map_some, Option.some.injEq] at hhealth
      rw [hhealth] at havailable
      exact Bool.false_ne_true havailable
    · rintro ⟨m, -, requests, errors, hpos, -, hheld, -⟩
      rw [hchoices, List.count_nil] at hheld
      omega
  rintro ⟨s', ⟨calls', hserved, -⟩, strategy, u, t, -, -, hselected⟩
  exact (hlost.served hserved).not_selected strategy u t hselected

end PoolState

end Lobby
