/-
# The roulette wheel

`select_by_weighted_score` over the rationals.  The scores of the endpoints are the arcs of a
wheel, an unavailable endpoint has an arc of length zero, and the draw `u` of `[0, 1)` selects
the endpoint in whose arc `u` times the total score lies (`IsScored.select_iff`).  The draw zero
is at the start of the wheel, in no arc, and selects what the draws right after it do.

So each endpoint is selected in proportion to its score (`roulette_fair`).
-/
import Lobby.EndpointPool
import Lobby.Wheel

namespace Lobby

/-! ## Scores -/

namespace EndpointMetrics

/-- An available endpoint gets traffic, an unhealthy one does not. -/
theorem loadBalancingScore_cases (m : EndpointMetrics ℚ) :
    m.loadBalancingScore = 0 ∨ 0 < m.loadBalancingScore ∧ m.health ≠ .unhealthy := by
  have haverage : 0 < 1000 / max 1 m.averageResponseTimeMs := by positivity
  rw [loadBalancingScore_eq]
  cases m.health with
  | unhealthy =>
      have hmultiplier : EndpointHealth.trafficMultiplier (F := ℚ) .unhealthy = 0 := by
        decide +kernel
      exact .inl (by rw [hmultiplier, mul_zero])
  | healthy =>
      have hmultiplier : 0 < EndpointHealth.trafficMultiplier (F := ℚ) .healthy := by
        decide +kernel
      exact .inr ⟨mul_pos haverage hmultiplier, by decide⟩
  | degraded =>
      have hmultiplier : 0 < EndpointHealth.trafficMultiplier (F := ℚ) .degraded := by
        decide +kernel
      exact .inr ⟨mul_pos haverage hmultiplier, by decide⟩

theorem loadBalancingScore_nonneg (m : EndpointMetrics ℚ) : 0 ≤ m.loadBalancingScore := by
  obtain hzero | ⟨hpos, -⟩ := m.loadBalancingScore_cases
  · exact hzero.ge
  · exact hpos.le

end EndpointMetrics

namespace EndpointPool

/-- The scores of all endpoints. -/
def scores (pool : EndpointPool ℚ) : List ℚ := pool.endpoints.map (·.loadBalancingScore)

def totalScore (pool : EndpointPool ℚ) : ℚ := pool.scores.sum

/-- The draws of `fastrand::f64()` that select an endpoint. -/
def draws (pool : EndpointPool ℚ) (t : Readings) (index : ℕ) : Set ℚ :=
  {u | u ∈ Set.Ico 0 1 ∧ pool.selectByWeightedScore u t = some index}

/-- An interval of this length, with or without its ends. -/
def IsInterval (s : Set ℚ) (length : ℚ) : Prop :=
  ∃ a b, a ≤ b ∧ b - a = length ∧ Set.Ioo a b ⊆ s ∧ s ⊆ Set.Icc a b

/-- The endpoints are selected in proportion to their scores. -/
structure FairRoulette (pool : EndpointPool ℚ) (t : Readings) : Prop where
  safe : ∀ u ∈ Set.Ico (0 : ℚ) 1, ∃ index m,
    pool.selectByWeightedScore u t = some index ∧ pool.endpoints[index]? = some m
      ∧ 0 < m.loadBalancingScore ∧ m.health ≠ .unhealthy
  proportional : ∀ index m, pool.endpoints[index]? = some m →
    IsInterval (pool.draws t index) (m.loadBalancingScore / pool.totalScore)
  disjoint : Pairwise fun i j => Disjoint (pool.draws t i) (pool.draws t j)
  covering : ⋃ index, pool.draws t index = Set.Ico 0 1

/-! ## When nothing is selected -/

section

variable {F : Type} [F64 F]

theorem lt_of_mem_scoredEndpoints {pool : EndpointPool F} {entry : ℕ × F}
    (h : entry ∈ pool.scoredEndpoints) : entry.1 < pool.endpoints.length := by
  obtain ⟨⟨m, index⟩, hm, rfl⟩ := List.mem_map.mp (List.mem_filter.mp h).1
  exact (List.getElem?_eq_some_iff.mp (List.mem_zipIdx_iff_getElem?.mp hm)).1

/-- Where there is a score, the wheel selects. -/
theorem selectByWeightedScore_of_getLast? {pool : EndpointPool F} {last : ℕ × F}
    (hlast : pool.scoredEndpoints.getLast? = some last) (u : F) (t : Readings) :
    pool.selectByWeightedScore u t = some (spin u pool.scoredEndpoints last.1) := by
  have hmem : last ∈ pool.scoredEndpoints := List.mem_of_getLast? hlast
  have hlt := lt_of_mem_scoredEndpoints hmem
  have hsome : pool.endpoints ≠ [] := by
    intro hnil
    rw [hnil] at hlt
    exact absurd hlt (Nat.not_lt_zero _)
  have hspin : spin u pool.scoredEndpoints last.1 < pool.endpoints.length := by
    obtain hzero | ⟨entry, hentry, heq⟩ := spin_mem hmem u
    · rw [hzero]
      exact List.length_pos_of_ne_nil hsome
    · rw [← heq]
      exact lt_of_mem_scoredEndpoints hentry
  rw [selectByWeightedScore, if_neg hsome]
  dsimp only
  rw [hlast]
  exact if_pos hspin

theorem selectByWeightedScore_eq_none_iff (pool : EndpointPool F) (u : F) (t : Readings) :
    pool.selectByWeightedScore u t = none ↔ pool.endpoints = [] := by
  cases hlast : pool.scoredEndpoints.getLast? with
  | some last =>
      rw [selectByWeightedScore_of_getLast? hlast]
      refine iff_of_false (by simp) fun hnil => ?_
      have hlt := lt_of_mem_scoredEndpoints (List.mem_of_getLast? hlast)
      rw [hnil] at hlt
      exact absurd hlt (Nat.not_lt_zero _)
  | none =>
      -- the recovery path finds the first endpoint at least
      unfold selectByWeightedScore
      dsimp only
      rw [hlast, selectCircuitBreakerRecovery_eq]
      simp

end

/-! ## The loop -/

/-- The scores of the entries that the loop walks over. -/
def weights (entries : List (ℕ × ℚ)) : List ℚ := entries.map Prod.snd

section

variable {threshold cumulative score : ℚ} {index : ℕ} {entries : List (ℕ × ℚ)}

theorem nonneg_cons : (∀ weight ∈ weights ((index, score) :: entries), 0 ≤ weight)
    ↔ 0 ≤ score ∧ ∀ weight ∈ weights entries, 0 ≤ weight :=
  List.forall_mem_cons

theorem roulette_stop (h : threshold ≤ cumulative + score) :
    roulette threshold cumulative ((index, score) :: entries) = (cumulative + score, index) :=
  if_pos h

theorem roulette_next (h : ¬ threshold ≤ cumulative + score) :
    roulette threshold cumulative ((index, score) :: entries)
      = roulette threshold (cumulative + score) entries :=
  if_neg h

/-- **Where the loop stops.**  It stops at the entry in whose arc the threshold lies, and has
reached the threshold there. -/
theorem roulette_arc (hnonneg : ∀ weight ∈ weights entries, 0 ≤ weight) {i : ℕ}
    (hi : i < entries.length) (harc : threshold - cumulative ∈ Wheel.arc (weights entries) i) :
    (roulette threshold cumulative entries).2 = entries[i].1
      ∧ threshold ≤ (roulette threshold cumulative entries).1 := by
  induction entries generalizing cumulative i with
  | nil => exact absurd hi (Nat.not_lt_zero i)
  | cons entry entries ih =>
      obtain ⟨index, score⟩ := entry
      obtain ⟨-, hrest⟩ := nonneg_cons.mp hnonneg
      obtain ⟨hstart, hend⟩ := harc
      rw [weights, List.map_cons, Wheel.before_cons_succ] at hend
      cases i with
      | zero =>
          rw [Wheel.before_zero, add_zero] at hend
          have hreached : threshold ≤ cumulative + score := by linarith
          rw [roulette_stop hreached]
          exact ⟨rfl, hreached⟩
      | succ i =>
          rw [weights, List.map_cons, Wheel.before_cons_succ] at hstart
          have hbefore := Wheel.before_nonneg hrest i
          have hbeyond : ¬ threshold ≤ cumulative + score := by
            unfold weights at hbefore
            linarith
          rw [roulette_next hbeyond]
          refine ih hrest (Nat.lt_of_succ_lt_succ hi) ⟨?_, ?_⟩
          · unfold weights
            linarith
          · unfold weights
            linarith

/-- Entries without a score do not stop a loop that has not reached the threshold. -/
theorem roulette_filter (hnonneg : ∀ weight ∈ weights entries, 0 ≤ weight)
    (hbeyond : cumulative < threshold) :
    roulette threshold cumulative (entries.filter fun entry => decide (0 < entry.2))
      = roulette threshold cumulative entries := by
  induction entries generalizing cumulative with
  | nil => rfl
  | cons entry entries ih =>
      obtain ⟨index, score⟩ := entry
      obtain ⟨hscore, hrest⟩ := nonneg_cons.mp hnonneg
      obtain hscore | hscore := hscore.lt_or_eq
      · rw [List.filter_cons_of_pos (by simpa using hscore)]
        by_cases hreached : threshold ≤ cumulative + score
        · rw [roulette_stop hreached, roulette_stop hreached]
        · rw [roulette_next hreached, roulette_next hreached,
            ih hrest (lt_of_not_ge hreached)]
      · have hbefore : ¬ threshold ≤ cumulative + score := by linarith
        rw [List.filter_cons_of_neg (by simp [← hscore]), roulette_next hbefore, ← hscore,
          add_zero]
        exact ih hrest hbeyond

/-- Nor do they add to the total. -/
theorem sum_weights_filter (hnonneg : ∀ weight ∈ weights entries, 0 ≤ weight) :
    (weights (entries.filter fun entry => decide (0 < entry.2))).sum
      = (weights entries).sum := by
  induction entries with
  | nil => rfl
  | cons entry entries ih =>
      obtain ⟨index, score⟩ := entry
      obtain ⟨hscore, hrest⟩ := nonneg_cons.mp hnonneg
      obtain hscore | hscore := hscore.lt_or_eq
      · rw [List.filter_cons_of_pos (by simpa using hscore)]
        simpa [weights] using ih hrest
      · rw [List.filter_cons_of_neg (by simp [← hscore])]
        simpa [weights, ← hscore] using ih hrest

end

/-- The total that the scan adds up. -/
theorem foldl_scored (entries : List (ℕ × ℚ)) (total : ℚ) :
    entries.foldl (fun total entry => total + entry.2) total
      = total + (weights entries).sum := by
  induction entries generalizing total with
  | nil => exact (add_zero total).symm
  | cons entry entries ih =>
      rw [List.foldl_cons, ih, weights, weights, List.map_cons, List.sum_cons, add_assoc]

/-! ## The wheel of a pool -/

theorem zero_literal : (0.0 : ℚ) = 0 := by decide +kernel

theorem spin_eq (u : ℚ) (scored : List (ℕ × ℚ)) (last : ℕ) :
    spin u scored last
      = if (roulette (u * (weights scored).sum) 0 scored).1 < u * (weights scored).sum then last
        else (roulette (u * (weights scored).sum) 0 scored).2 := by
  have htotal := foldl_scored scored 0
  rw [zero_add] at htotal
  unfold spin
  dsimp only
  rw [zero_literal, htotal]

/-- The endpoints with their scores, before those without one are left out. -/
def entries (pool : EndpointPool ℚ) : List (ℕ × ℚ) :=
  pool.endpoints.zipIdx.map fun (metrics, index) => (index, metrics.loadBalancingScore)

variable {pool : EndpointPool ℚ}

theorem scoredEndpoints_eq (pool : EndpointPool ℚ) :
    pool.scoredEndpoints = pool.entries.filter fun entry => decide (0 < entry.2) := by
  unfold scoredEndpoints
  rw [zero_literal]
  rfl

theorem length_entries (pool : EndpointPool ℚ) :
    pool.entries.length = pool.endpoints.length := by
  simp [entries]

theorem weights_entries (pool : EndpointPool ℚ) : weights pool.entries = pool.scores := by
  apply List.ext_getElem?
  intro i
  simp [weights, entries, scores, Function.comp_def]

theorem getElem_entries {i : ℕ} (hi : i < pool.entries.length) : pool.entries[i].1 = i := by
  simp [entries]

theorem scores_nonneg (pool : EndpointPool ℚ) : ∀ score ∈ pool.scores, 0 ≤ score := by
  intro score hscore
  obtain ⟨m, -, rfl⟩ := List.mem_map.mp hscore
  exact m.loadBalancingScore_nonneg

theorem entries_nonneg (pool : EndpointPool ℚ) : ∀ weight ∈ weights pool.entries, 0 ≤ weight := by
  rw [weights_entries]
  exact pool.scores_nonneg

theorem scored_nonneg (pool : EndpointPool ℚ) :
    ∀ weight ∈ weights pool.scoredEndpoints, 0 ≤ weight := by
  intro weight hweight
  obtain ⟨entry, hentry, rfl⟩ := List.mem_map.mp hweight
  rw [scoredEndpoints_eq] at hentry
  exact pool.entries_nonneg _ (List.mem_map_of_mem (List.mem_filter.mp hentry).1)

theorem sum_weights_scored (pool : EndpointPool ℚ) :
    (weights pool.scoredEndpoints).sum = pool.totalScore := by
  rw [scoredEndpoints_eq, sum_weights_filter pool.entries_nonneg, weights_entries]
  rfl

/-- The draw selects the endpoint in whose arc it lies. -/
theorem spin_arc {u : ℚ} {i : ℕ} (hi : i < pool.endpoints.length)
    (harc : u * pool.totalScore ∈ Wheel.arc pool.scores i) (last : ℕ) :
    spin u pool.scoredEndpoints last = i := by
  have hpos : 0 < u * pool.totalScore :=
    (Wheel.before_nonneg pool.scores_nonneg i).trans_lt harc.1
  have hentry : i < pool.entries.length := by rwa [length_entries]
  have harc' : u * pool.totalScore - 0 ∈ Wheel.arc (weights pool.entries) i := by
    rwa [sub_zero, weights_entries]
  obtain ⟨hindex, hreached⟩ := roulette_arc pool.entries_nonneg hentry harc'
  rw [spin_eq, sum_weights_scored, scoredEndpoints_eq,
    roulette_filter pool.entries_nonneg hpos, if_neg (not_lt_of_ge hreached), hindex]
  exact getElem_entries hentry

/-- A draw that does not get past the first score selects the first entry. -/
theorem spin_first {u score : ℚ} {index : ℕ} {rest : List (ℕ × ℚ)}
    (h : u * (weights ((index, score) :: rest)).sum ≤ score) (last : ℕ) :
    spin u ((index, score) :: rest) last = index := by
  have hreached : u * (weights ((index, score) :: rest)).sum ≤ 0 + score := by rwa [zero_add]
  rw [spin_eq, roulette_stop hreached]
  exact if_neg (not_lt_of_ge hreached)

/-! ## Selecting from it -/

/-- Some endpoint has a positive score. -/
def IsScored (pool : EndpointPool ℚ) : Prop := ∃ m ∈ pool.endpoints, 0 < m.loadBalancingScore

theorem IsScored.totalScore_pos (h : pool.IsScored) : 0 < pool.totalScore := by
  obtain ⟨m, hm, hpos⟩ := h
  refine hpos.trans_le (List.single_le_sum pool.scores_nonneg _ ?_)
  exact List.mem_map_of_mem hm

theorem IsScored.exists_cons (h : pool.IsScored) :
    ∃ index score rest, 0 < score ∧ pool.scoredEndpoints = (index, score) :: rest := by
  obtain ⟨m, hm, hpos⟩ := h
  obtain ⟨i, hi, rfl⟩ := List.getElem_of_mem hm
  have hmem : (i, pool.endpoints[i].loadBalancingScore) ∈ pool.scoredEndpoints := by
    rw [scoredEndpoints_eq]
    refine List.mem_filter.mpr ⟨List.mem_map.mpr ⟨(pool.endpoints[i], i), ?_, rfl⟩, ?_⟩
    · exact List.mem_zipIdx_iff_getElem?.mpr (List.getElem?_eq_getElem hi)
    · exact decide_eq_true hpos
  cases hscored : pool.scoredEndpoints with
  | nil =>
      rw [hscored] at hmem
      exact absurd hmem List.not_mem_nil
  | cons entry rest =>
      have hfirst : entry ∈ pool.scoredEndpoints := by
        rw [hscored]
        exact List.mem_cons_self
      rw [scoredEndpoints_eq] at hfirst
      exact ⟨entry.1, entry.2, rest, by simpa using (List.mem_filter.mp hfirst).2, rfl⟩

/-- The wheel is turned. -/
theorem IsScored.selectByWeightedScore_eq (h : pool.IsScored) :
    ∃ last : ℕ, ∀ u t, pool.selectByWeightedScore u t
      = some (spin u pool.scoredEndpoints last) := by
  obtain ⟨index, score, rest, -, hscored⟩ := h.exists_cons
  have hlast := List.getLast?_eq_some_getLast (l := pool.scoredEndpoints) (by simp [hscored])
  exact ⟨_, fun u t => selectByWeightedScore_of_getLast? hlast u t⟩

/-- A positive draw selects the endpoint in whose arc it lies. -/
theorem IsScored.select_iff (h : pool.IsScored) {u : ℚ} (hpos : 0 < u) (hle : u ≤ 1)
    (t : Readings) (i : ℕ) :
    pool.selectByWeightedScore u t = some i ↔ u * pool.totalScore ∈ Wheel.arc pool.scores i := by
  obtain ⟨last, hselect⟩ := h.selectByWeightedScore_eq
  have htotal := h.totalScore_pos
  obtain ⟨j, hj, harc⟩ := Wheel.mem_arc pool.scores_nonneg (mul_pos hpos htotal)
    (mul_le_of_le_one_left htotal.le hle)
  rw [hselect, spin_arc (by simpa [scores] using hj) harc]
  constructor
  · intro heq
    rwa [← Option.some.inj heq]
  · intro harc'
    rw [Wheel.arc_disjoint pool.scores_nonneg harc harc']

/-- The draws from zero on select the same endpoint for a while. -/
theorem IsScored.select_start (h : pool.IsScored) (t : Readings) :
    ∃ first, 0 < first ∧ first ≤ 1 ∧ ∀ u ≤ first,
      pool.selectByWeightedScore u t = pool.selectByWeightedScore first t := by
  obtain ⟨last, hselect⟩ := h.selectByWeightedScore_eq
  obtain ⟨index, score, rest, hpos, hscored⟩ := h.exists_cons
  have htotal := h.totalScore_pos
  have hle : score ≤ pool.totalScore := by
    rw [← sum_weights_scored, hscored]
    refine List.single_le_sum ?_ score List.mem_cons_self
    rw [← hscored]
    exact pool.scored_nonneg
  have hspin : ∀ u ≤ score / pool.totalScore, spin u pool.scoredEndpoints last = index := by
    intro u hu
    rw [hscored]
    refine spin_first ?_ last
    rw [← hscored, sum_weights_scored]
    exact (le_div_iff₀ htotal).mp hu
  refine ⟨score / pool.totalScore, div_pos hpos htotal, (div_le_one htotal).mpr hle, ?_⟩
  intro u hu
  rw [hselect, hselect, hspin u hu, hspin _ le_rfl]

/-! ## The draws of an endpoint -/

/-- Where the draws of an endpoint start. -/
def drawStart (pool : EndpointPool ℚ) (i : ℕ) : ℚ := Wheel.before pool.scores i / pool.totalScore

theorem IsScored.arc_iff (h : pool.IsScored) (u : ℚ) (i : ℕ) :
    u * pool.totalScore ∈ Wheel.arc pool.scores i
      ↔ pool.drawStart i < u ∧ u ≤ pool.drawStart (i + 1) := by
  have htotal := h.totalScore_pos
  rw [drawStart, drawStart, div_lt_iff₀ htotal, le_div_iff₀ htotal]
  rfl

theorem drawStart_nonneg (pool : EndpointPool ℚ) (i : ℕ) : 0 ≤ pool.drawStart i :=
  div_nonneg (Wheel.before_nonneg pool.scores_nonneg i) (List.sum_nonneg pool.scores_nonneg)

theorem getD_scores {i : ℕ} {m : EndpointMetrics ℚ} (hm : pool.endpoints[i]? = some m) :
    pool.scores.getD i 0 = m.loadBalancingScore := by
  rw [List.getD_eq_getElem?_getD, scores, List.getElem?_map, hm]
  rfl

/-- As long as the share of the endpoint. -/
theorem drawStart_succ {i : ℕ} {m : EndpointMetrics ℚ} (hm : pool.endpoints[i]? = some m) :
    pool.drawStart (i + 1) = pool.drawStart i + m.loadBalancingScore / pool.totalScore := by
  rw [drawStart, Wheel.before_succ, getD_scores hm, add_div, drawStart]

/-- Some positive draw selects what a draw does. -/
theorem IsScored.exists_draw (h : pool.IsScored) {u : ℚ} (hu : u ∈ Set.Ico 0 1) (t : Readings) :
    ∃ v, 0 < v ∧ v ≤ 1 ∧ pool.selectByWeightedScore u t = pool.selectByWeightedScore v t := by
  obtain hzero | hpos := hu.1.eq_or_lt
  · obtain ⟨first, hfirst, hle, hstart⟩ := h.select_start t
    exact ⟨first, hfirst, hle, hstart u (hzero ▸ hfirst.le)⟩
  · exact ⟨u, hpos, hu.2.le, rfl⟩

theorem IsScored.safe (h : pool.IsScored) {u : ℚ} (hu : u ∈ Set.Ico 0 1) (t : Readings) :
    ∃ index m, pool.selectByWeightedScore u t = some index ∧ pool.endpoints[index]? = some m
      ∧ 0 < m.loadBalancingScore ∧ m.health ≠ .unhealthy := by
  obtain ⟨v, hpos, hle, heq⟩ := h.exists_draw hu t
  have htotal := h.totalScore_pos
  obtain ⟨i, hi, harc⟩ := Wheel.mem_arc pool.scores_nonneg (mul_pos hpos htotal)
    (mul_le_of_le_one_left htotal.le hle)
  have hlt : i < pool.endpoints.length := by simpa [scores] using hi
  have hm := List.getElem?_eq_getElem hlt
  refine ⟨i, _, heq.trans ((h.select_iff hpos hle t i).mpr harc), hm, ?_⟩
  -- an arc with a draw in it is not empty
  obtain ⟨hstart, hend⟩ := (h.arc_iff v i).mp harc
  rw [drawStart_succ hm] at hend
  obtain hzero | hscore := pool.endpoints[i].loadBalancingScore_cases
  · rw [hzero, zero_div, add_zero] at hend
    exact absurd hend (not_le_of_gt hstart)
  · exact hscore

theorem IsScored.drawStart_le_one (h : pool.IsScored) {i : ℕ} (hi : i < pool.endpoints.length) :
    pool.drawStart (i + 1) ≤ 1 := by
  rw [drawStart, div_le_one h.totalScore_pos]
  exact Wheel.before_le_sum pool.scores_nonneg (by simpa [scores] using hi)

/-- What zero selects is first on the wheel: the draws after zero select it as well. -/
theorem IsScored.drawStart_of_zero (h : pool.IsScored) {t : Readings} {i : ℕ}
    (hselect : pool.selectByWeightedScore 0 t = some i) : pool.drawStart i = 0 := by
  obtain ⟨first, hfirst, hle, hstart⟩ := h.select_start t
  refine le_antisymm (le_of_not_gt fun hpos => ?_) (pool.drawStart_nonneg i)
  have hdraw : 0 < min first (pool.drawStart i) := lt_min hfirst hpos
  have hsame : pool.selectByWeightedScore (min first (pool.drawStart i)) t = some i := by
    rw [hstart _ (min_le_left _ _), ← hstart 0 hfirst.le, hselect]
  rw [h.select_iff hdraw ((min_le_left _ _).trans hle), h.arc_iff] at hsame
  exact absurd hsame.1 (not_lt_of_ge (min_le_right _ _))

theorem IsScored.proportional (h : pool.IsScored) (t : Readings) {i : ℕ} {m : EndpointMetrics ℚ}
    (hm : pool.endpoints[i]? = some m) :
    IsInterval (pool.draws t i) (m.loadBalancingScore / pool.totalScore) := by
  have hlength := drawStart_succ hm
  have hshare : 0 ≤ m.loadBalancingScore / pool.totalScore :=
    div_nonneg m.loadBalancingScore_nonneg h.totalScore_pos.le
  refine ⟨pool.drawStart i, pool.drawStart (i + 1), by linarith, by linarith, ?_, ?_⟩
  · intro u ⟨hstart, hend⟩
    have hpos := (pool.drawStart_nonneg i).trans_lt hstart
    have hlt := hend.trans_le (h.drawStart_le_one (List.getElem?_eq_some_iff.mp hm).1)
    refine ⟨⟨hpos.le, hlt⟩, ?_⟩
    exact (h.select_iff hpos hlt.le t i).mpr ((h.arc_iff u i).mpr ⟨hstart, hend.le⟩)
  · intro u ⟨hu, hselect⟩
    obtain hzero | hpos := hu.1.eq_or_lt
    · rw [← hzero] at hselect ⊢
      exact ⟨(h.drawStart_of_zero hselect).le, pool.drawStart_nonneg _⟩
    · rw [h.select_iff hpos hu.2.le, h.arc_iff] at hselect
      exact ⟨hselect.1.le, hselect.2⟩

/-- **Roulette selection.** -/
theorem roulette_fair (pool : EndpointPool ℚ) (t : Readings) :
    (∀ u, pool.selectByWeightedScore u t = none ↔ pool.endpoints = [])
      ∧ (pool.IsScored → pool.FairRoulette t) := by
  refine ⟨fun u => pool.selectByWeightedScore_eq_none_iff u t, fun h => ?_⟩
  refine ⟨fun u hu => h.safe hu t, fun i m hm => h.proportional t hm, ?_, ?_⟩
  · intro i j hne
    refine Set.disjoint_left.mpr ?_
    rintro u ⟨-, hi⟩ ⟨-, hj⟩
    exact hne (Option.some.inj (hi.symm.trans hj))
  · apply Set.Subset.antisymm
    · exact Set.iUnion_subset fun i u hu => hu.1
    · intro u hu
      obtain ⟨i, m, hselect, -⟩ := h.safe hu t
      exact Set.mem_iUnion.mpr ⟨i, hu, hselect⟩

theorem roulette_fair_degraded :
    (⟨[.new, { EndpointMetrics.new with health := .unhealthy },
        { EndpointMetrics.new with health := .degraded }]⟩ : EndpointPool ℚ).FairRoulette
      (.pausing 0 0) :=
  (roulette_fair _ _).2 ⟨.new, by simp, by decide +kernel⟩

end EndpointPool

end Lobby
