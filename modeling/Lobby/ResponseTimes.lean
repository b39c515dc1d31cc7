/-
# The average response time

`average_response_time_ms` over the rationals, for an endpoint that has recorded any number of
successes.  Up to 32 response times are all read; of more, every fourth, and the mean of what
was read is then multiplied by four.

The average lies between the smallest and the largest of the last 128 response times exactly
when the sampled ones allow for that factor (`averages_fairly_iff`).  The ring and its index
are followed for any number of successes, beyond the `2 ^ 64` at which the index wraps.
-/
import Lobby.EndpointMetrics
import Lobby.RingBuffer

namespace Lobby

open EndpointMetrics

/-! ## Recorded response times -/

/-- An endpoint that has recorded successes, the latest first. -/
def served : List (Duration × Readings) → EndpointMetrics ℚ
  | [] => .new
  | (duration, t) :: r => (served r).recordSuccess duration t

/-- The response times, in whole milliseconds as they are stored. -/
def millis (r : List (Duration × Readings)) : List UInt64 :=
  r.map fun x => UInt64.ofNat x.1.asMillis

/-- The last 128 of them. -/
def window (r : List (Duration × Readings)) : List ℕ :=
  ((millis r).take responseTimeWindowSize).map UInt64.toNat

def fastest (r : List (Duration × Readings)) : ℕ := (window r).min?.getD 0

def slowest (r : List (Duration × Readings)) : ℕ := (window r).max?.getD 0

/-- The average lies between the smallest and the largest response time. -/
def AverageBetween (r : List (Duration × Readings)) : Prop :=
  (fastest r : ℚ) ≤ (served r).averageResponseTimeMs
    ∧ (served r).averageResponseTimeMs ≤ (slowest r : ℚ)

/-- All response times are the same. -/
def Uniform (d : UInt64) (r : List (Duration × Readings)) : Prop := ∀ x ∈ millis r, x = d

instance (d : UInt64) (r : List (Duration × Readings)) : Decidable (Uniform d r) :=
  List.decidableBAll (· = d) (millis r)

/-- Both averages lie in between, and uniform endpoints of the same response time have the
same score. -/
structure AveragesFairly (r r' : List (Duration × Readings)) : Prop where
  left : AverageBetween r
  right : AverageBetween r'
  score : ∀ d, 0 < d → Uniform d r → Uniform d r' →
    (served r).loadBalancingScore = (served r').loadBalancingScore

/-! ## What is sampled -/

/-- The index after so many successes. -/
def wrappedIndex (r : List (Duration × Readings)) : ℕ := r.length % 2 ^ 64

/-- How many of the response times are kept. -/
def sampleCount (r : List (Duration × Readings)) : ℕ :=
  min (wrappedIndex r) responseTimeWindowSize

/-- All of up to 32 are read, else every fourth. -/
def sampleStep (r : List (Duration × Readings)) : ℕ := if 32 < sampleCount r then 4 else 1

/-- How far back the ones that are read lie. -/
def sampledAges (r : List (Duration × Readings)) : List ℕ :=
  List.range' 0 ((sampleCount r + sampleStep r - 1) / sampleStep r) (sampleStep r)

/-- The positive response times that are read. -/
def sampledTimes (r : List (Duration × Readings)) : List ℕ :=
  ((sampledAges r).map fun i => ((millis r).getD i 0).toNat).filter fun value => decide (0 < value)

/-- The samples allow for the factor.  Where nothing positive is sampled, the default of 100
lies in between; where the sum of the samples overflows, the wrapped one happens to fit. -/
def SamplesFit (r : List (Duration × Readings)) : Prop :=
  let sum := (sampledTimes r).sum
  let samples := (sampledTimes r).length
  if samples = 0 then fastest r ≤ 100 ∧ 100 ≤ slowest r
  else if sum < 2 ^ 64 then sampleStep r = 1 ∨ 4 * sum ≤ samples * slowest r
  else
    samples * fastest r ≤ sampleStep r * (sum % 2 ^ 64)
      ∧ sampleStep r * (sum % 2 ^ 64) ≤ samples * slowest r

/-! ## The endpoint after the successes -/

instance : NeZero responseTimeWindowSize := ⟨by decide⟩

/-- What recording successes keeps. -/
structure ServedState (m : EndpointMetrics ℚ) (r : List (Duration × Readings)) : Prop where
  index : m.responseTimeIndex = UInt64.ofNat r.length
  ring : RingBuffer.Holds m.responseTimesMs (millis r)
  errors : m.errorCount = 0
  breaker : m.circuitBreakerUntil = 0
  thresholds : m.StandardThresholds
  health : m.health = .healthy

@[simp] theorem length_millis (r : List (Duration × Readings)) :
    (millis r).length = r.length := List.length_map _

/-- The slot of a wrapped index is that of the index. -/
theorem slot_ofNat (n : ℕ) :
    slot (UInt64.ofNat n) = RingBuffer.slotOf responseTimeWindowSize n := by
  apply Fin.ext
  show (UInt64.ofNat n).toNat % 128 = n % 128
  rw [UInt64.toNat_ofNat']
  omega

/-- Without errors the rate is zero. -/
theorem healthOfErrorRate_noErrors {m : EndpointMetrics ℚ} (hthresholds : m.StandardThresholds)
    (herrors : m.errorCount = 0) : m.healthOfErrorRate = .healthy := by
  have hrate : m.errorRate = 0 := by
    rw [errorRate]
    split
    · decide +kernel
    · rw [herrors]
      exact zero_div _
  have hunhealthy : ¬ (unhealthyThresholdDefault : ℚ) < 0 := by decide +kernel
  have hdegraded : ¬ (degradedThresholdDefault : ℚ) < 0 := by decide +kernel
  rw [healthOfErrorRate, hrate, hthresholds.1, hthresholds.2, if_neg hunhealthy,
    if_neg hdegraded]

theorem servedState (r : List (Duration × Readings)) : ServedState (served r) r := by
  induction r with
  | nil =>
      refine ⟨rfl, RingBuffer.holds_nil _, rfl, rfl, ⟨rfl, rfl⟩, rfl⟩
  | cons x r ih =>
      have hunset : ¬ (0 : UInt64) < 0 := by decide
      have hindex : (served r).responseTimeIndex + 1 = UInt64.ofNat (r.length + 1) := by
        rw [ih.index]
        exact (UInt64.ofNat_add _ _).symm
      have hring : RingBuffer.Holds (Function.update (served r).responseTimesMs
          (slot (served r).responseTimeIndex) (UInt64.ofNat x.1.asMillis)) (millis (x :: r)) := by
        have hslot : slot (served r).responseTimeIndex
            = RingBuffer.slotOf responseTimeWindowSize (millis r).length := by
          rw [ih.index, slot_ofNat, length_millis]
        rw [hslot]
        exact ih.ring.push _
      -- no breaker is set, so the health is that of the error rate
      rw [served, recordSuccess]
      simp only [ih.breaker, hunset, false_and, if_false, updateHealthStatus]
      exact ⟨hindex, hring, ih.errors, rfl, ih.thresholds,
        healthOfErrorRate_noErrors ih.thresholds ih.errors⟩

/-- What the loop reads. -/
theorem read_slot {r : List (Duration × Readings)} {i : ℕ}
    (hi : i < sampleCount r) :
    (served r).responseTimesMs
      (slot ((served r).responseTimeIndex - 1 - UInt64.ofNat i)) = (millis r).getD i 0 := by
  have hstate := servedState r
  have hle : wrappedIndex r ≤ r.length := Nat.mod_le _ _
  unfold sampleCount at hi
  have hlt : i < r.length := by omega
  have hindex : (served r).responseTimeIndex - 1 - UInt64.ofNat i
      = UInt64.ofNat (r.length - 1 - i) := by
    have hsum : r.length = (r.length - 1 - i) + i + 1 := by omega
    rw [hstate.index]
    nth_rewrite 1 [hsum]
    rw [UInt64.ofNat_add, UInt64.ofNat_add]
    show _ + 1 - 1 - _ = _
    rw [UInt64.add_sub_cancel, UInt64.add_sub_cancel]
  have hread := hstate.ring i (by rw [length_millis]; exact hlt) (by omega)
  rw [hindex, slot_ofNat, List.getD_eq_getElem _ _ (by rw [length_millis]; exact hlt), ← hread,
    length_millis]

/-! ## The average -/

theorem sampleStep_cases (r : List (Duration × Readings)) :
    sampleStep r = 1 ∨ sampleStep r = 4 := by
  unfold sampleStep
  split
  · exact .inr rfl
  · exact .inl rfl

/-- The loop stays within the count. -/
theorem lt_of_mem_sampledAges {r : List (Duration × Readings)} {i : ℕ}
    (hi : i ∈ sampledAges r) : i < sampleCount r := by
  obtain ⟨k, hk, rfl⟩ := List.mem_range'.mp hi
  obtain hstep | hstep := sampleStep_cases r
  · rw [hstep] at hk ⊢
    omega
  · rw [hstep] at hk ⊢
    omega

/-- A sum of `u64` is the sum of the numbers, wrapped. -/
theorem toNat_sum (values : List UInt64) :
    values.sum.toNat = (values.map UInt64.toNat).sum % 2 ^ 64 := by
  induction values with
  | nil => rfl
  | cons value values ih =>
      rw [List.sum_cons, List.map_cons, List.sum_cons, UInt64.toNat_add, ih]
      exact Nat.add_mod_mod _ _ _

/-- The positive values that the loop reads are the sampled times. -/
theorem map_toNat_filter (r : List (Duration × Readings)) :
    (((sampledAges r).map fun i => (served r).responseTimesMs
      (slot ((served r).responseTimeIndex - 1 - UInt64.ofNat i))).filter
        fun value => decide (0 < value)).map UInt64.toNat = sampledTimes r := by
  have hread : ((sampledAges r).map fun i => (served r).responseTimesMs
      (slot ((served r).responseTimeIndex - 1 - UInt64.ofNat i)))
      = (sampledAges r).map fun i => (millis r).getD i 0 :=
    List.map_congr_left fun i hi => read_slot (lt_of_mem_sampledAges hi)
  have hpositive : (fun value : UInt64 => decide (0 < value))
      = (fun value : ℕ => decide (0 < value)) ∘ UInt64.toNat := by
    funext value
    exact decide_eq_decide.mpr UInt64.lt_iff_toNat_lt
  rw [hread, hpositive, ← List.filter_map, List.map_map]
  rfl

/-- What the average is of the recorded times. -/
theorem averageResponseTimeMs_served (r : List (Duration × Readings)) :
    (served r).averageResponseTimeMs
      = if (sampledTimes r).length = 0 then 100
        else (((sampledTimes r).sum % 2 ^ 64 : ℕ) : ℚ) / (sampledTimes r).length
          * sampleStep r := by
  have hindex : (served r).responseTimeIndex.toNat = wrappedIndex r := by
    rw [(servedState r).index]
    exact UInt64.toNat_ofNat'
  have hdefault : (defaultResponseTimeMs : ℚ) = 100 := by decide +kernel
  have htimes := map_toNat_filter r
  unfold averageResponseTimeMs
  dsimp only
  rw [hdefault]
  by_cases hzero : (served r).responseTimeIndex = 0
  · -- nothing is counted, so nothing is sampled
    have hcount : sampleCount r = 0 := by
      unfold sampleCount
      rw [← hindex, hzero]
      rfl
    have hnone : sampledTimes r = [] := by
      rw [sampledTimes, List.eq_nil_iff_forall_not_mem.mpr fun i hi =>
        absurd (lt_of_mem_sampledAges hi) (by omega)]
      rfl
    rw [if_pos hzero, hnone]
    rfl
  · rw [if_neg hzero, hindex]
    change (if List.filter _ (List.map _ (sampledAges r)) = [] then _ else _) = _
    rw [← htimes, ← toNat_sum, List.length_map]
    by_cases hvalid : List.filter (fun value : UInt64 => decide (0 < value))
        ((sampledAges r).map fun i => (served r).responseTimesMs
          (slot ((served r).responseTimeIndex - 1 - UInt64.ofNat i))) = []
    · rw [if_pos hvalid, hvalid]
      rfl
    · rw [if_neg hvalid, if_neg (mt List.length_eq_zero_iff.mp hvalid)]
      rfl

/-! ## Its bounds -/

theorem sampledTimes_subset_window (r : List (Duration × Readings)) :
    sampledTimes r ⊆ window r := by
  intro value hvalue
  obtain ⟨i, hi, rfl⟩ := List.mem_map.mp (List.mem_filter.mp hvalue).1
  have hcount := lt_of_mem_sampledAges hi
  have hle : wrappedIndex r ≤ r.length := Nat.mod_le _ _
  unfold sampleCount at hcount
  have hlt : i < (millis r).length := by
    rw [length_millis]
    omega
  have htake : i < ((millis r).take responseTimeWindowSize).length := by
    rw [List.length_take]
    omega
  rw [List.getD_eq_getElem _ _ hlt, ← List.getElem_take (h := htake)]
  exact List.mem_map_of_mem (List.getElem_mem htake)

/-- The sum of the samples lies between its bounds. -/
theorem sum_sampledTimes (r : List (Duration × Readings)) :
    (sampledTimes r).length * fastest r ≤ (sampledTimes r).sum
      ∧ (sampledTimes r).sum ≤ (sampledTimes r).length * slowest r := by
  have hlower := List.card_nsmul_le_sum (sampledTimes r) (fastest r) fun value hvalue =>
    List.min?_getD_le_of_mem (sampledTimes_subset_window r hvalue)
  have hupper := List.sum_le_card_nsmul (sampledTimes r) (slowest r) fun value hvalue =>
    List.le_max?_getD_of_mem (sampledTimes_subset_window r hvalue)
  exact ⟨hlower, hupper⟩

/-- The bounds of a mean that is multiplied, without fractions. -/
theorem between_mean_iff (low sum samples factor high : ℕ) (hsamples : samples ≠ 0) :
    ((low : ℚ) ≤ (sum : ℚ) / samples * factor ∧ (sum : ℚ) / samples * factor ≤ high)
      ↔ samples * low ≤ factor * sum ∧ factor * sum ≤ samples * high := by
  have hpos : (0 : ℚ) < samples := by exact_mod_cast Nat.pos_of_ne_zero hsamples
  have hmean : (sum : ℚ) / samples * factor = ((factor * sum : ℕ) : ℚ) / samples := by
    push_cast
    ring
  rw [hmean, le_div_iff₀ hpos, div_le_iff₀ hpos, mul_comm (low : ℚ), mul_comm (high : ℚ)]
  norm_cast

theorem averageBetween_iff (r : List (Duration × Readings)) :
    AverageBetween r ↔ SamplesFit r := by
  obtain ⟨hlower, hupper⟩ := sum_sampledTimes r
  unfold AverageBetween SamplesFit
  dsimp only
  rw [averageResponseTimeMs_served]
  by_cases hsamples : (sampledTimes r).length = 0
  · rw [if_pos hsamples, if_pos hsamples]
    norm_cast
  · rw [if_neg hsamples, if_neg hsamples, between_mean_iff _ _ _ _ _ hsamples]
    by_cases hfits : (sampledTimes r).sum < 2 ^ 64
    · rw [if_pos hfits, Nat.mod_eq_of_lt hfits]
      -- the factor only ever takes the mean above the largest
      obtain hstep | hstep := sampleStep_cases r
      · rw [hstep, one_mul]
        exact ⟨fun _ => .inl rfl, fun _ => ⟨hlower, hupper⟩⟩
      · rw [hstep]
        constructor
        · exact fun h => .inr h.2
        · rintro (h | h)
          · exact absurd h (by decide)
          · exact ⟨by omega, h⟩
    · rw [if_neg hfits]

/-! ## Uniform endpoints -/

/-- Every response time of the window is the common one, and there is one if the average lies
in between. -/
theorem fastest_slowest_uniform {d : UInt64} {r : List (Duration × Readings)}
    (huniform : Uniform d r) (hsome : r ≠ []) :
    fastest r = d.toNat ∧ slowest r = d.toNat := by
  have hlength : 0 < (window r).length := by
    rw [window, List.length_map, List.length_take, length_millis]
    exact lt_min (by decide) (List.length_pos_of_ne_nil hsome)
  have hwindow : window r = List.replicate (window r).length d.toNat := by
    refine List.eq_replicate_of_mem fun value hvalue => ?_
    obtain ⟨x, hx, rfl⟩ := List.mem_map.mp hvalue
    rw [huniform x (List.mem_of_mem_take hx)]
  unfold fastest slowest
  rw [hwindow, List.min?_replicate_of_pos hlength, List.max?_replicate_of_pos hlength]
  exact ⟨rfl, rfl⟩

/-- Nothing recorded: the default lies above. -/
theorem not_averageBetween_nil : ¬ AverageBetween [] := by
  have hnone : (sampledTimes []).length = 0 := rfl
  rw [averageBetween_iff, SamplesFit, if_pos hnone]
  rintro ⟨-, hslowest⟩
  exact absurd hslowest (by decide)

theorem averageResponseTimeMs_uniform {d : UInt64} {r : List (Duration × Readings)}
    (huniform : Uniform d r) (hbetween : AverageBetween r) :
    (served r).averageResponseTimeMs = d.toNat := by
  have hsome : r ≠ [] := by
    rintro rfl
    exact not_averageBetween_nil hbetween
  obtain ⟨hfastest, hslowest⟩ := fastest_slowest_uniform huniform hsome
  obtain ⟨hlow, hhigh⟩ := hbetween
  rw [hfastest] at hlow
  rw [hslowest] at hhigh
  exact le_antisymm hhigh hlow

/-- The score of a healthy endpoint. -/
theorem loadBalancingScore_served (r : List (Duration × Readings)) :
    (served r).loadBalancingScore = 1000 / max 1 (served r).averageResponseTimeMs := by
  have hmultiplier : EndpointHealth.trafficMultiplier (F := ℚ) .healthy = 1 := by decide +kernel
  rw [loadBalancingScore_eq, (servedState r).health, hmultiplier, mul_one]

/-- **When the average is one.** -/
theorem averages_fairly_iff (r r' : List (Duration × Readings)) :
    AveragesFairly r r' ↔ SamplesFit r ∧ SamplesFit r' := by
  rw [← averageBetween_iff, ← averageBetween_iff]
  constructor
  · exact fun h => ⟨h.left, h.right⟩
  · intro ⟨hleft, hright⟩
    refine ⟨hleft, hright, fun d _ huniform huniform' => ?_⟩
    rw [loadBalancingScore_served, loadBalancingScore_served,
      averageResponseTimeMs_uniform huniform hleft, averageResponseTimeMs_uniform huniform' hright]

/-- Thirty-three successes of 5 ms average to 20 ms, and score a quarter of what one does. -/
theorem averages_unfairly :
    let success : Duration × Readings := (.fromMillis 5, .pausing 0 0)
    ¬ AveragesFairly (List.replicate 33 success) [success] := by
  intro success hfair
  have hscores := hfair.score 5 (by decide) (by decide +kernel) (by decide +kernel)
  have hone : (served [success]).averageResponseTimeMs = 5 := by
    rw [averageResponseTimeMs_served]
    decide +kernel
  have hmany : (served (List.replicate 33 success)).averageResponseTimeMs = 20 := by
    rw [averageResponseTimeMs_served]
    decide +kernel
  rw [loadBalancingScore_served, loadBalancingScore_served, hone, hmany] at hscores
  exact absurd hscores (by decide +kernel)

end Lobby
