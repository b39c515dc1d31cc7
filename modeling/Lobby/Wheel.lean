/-
# Wheels

A list of weights laid out as arcs one after the other, from zero to the total weight.  The
arc of an entry is as long as its weight, the arcs of nonnegative weights are disjoint
(`arc_disjoint`), and together they are the wheel (`mem_arc`).
-/
import Mathlib.Algebra.Order.BigOperators.Group.List
import Mathlib.Data.List.GetD
import Mathlib.Data.Nat.SuccPred
import Mathlib.Order.SuccPred.IntervalSucc

namespace Wheel

variable {K : Type*} [AddCommMonoid K]

/-- Where the arc of an entry starts: after the weights before it. -/
def before (weights : List K) (i : ℕ) : K := (weights.take i).sum

@[simp] theorem before_zero (weights : List K) : before weights 0 = 0 := rfl

@[simp] theorem before_cons_succ (weight : K) (weights : List K) (i : ℕ) :
    before (weight :: weights) (i + 1) = weight + before weights i := by
  rw [before, List.take_succ_cons, List.sum_cons, before]

theorem before_length (weights : List K) : before weights weights.length = weights.sum := by
  rw [before, List.take_length]

/-- The next arc starts where this one ends. -/
theorem before_succ (weights : List K) (i : ℕ) :
    before weights (i + 1) = before weights i + weights.getD i 0 := by
  induction weights generalizing i with
  | nil => simp [before]
  | cons weight weights ih =>
      cases i with
      | zero => simp
      | succ i => rw [before_cons_succ, before_cons_succ, ih, List.getD_cons_succ, add_assoc]

/-! ## The arcs -/

variable [LinearOrder K] [IsOrderedAddMonoid K] {weights : List K}

/-- The arc of an entry. -/
def arc (weights : List K) (i : ℕ) : Set K :=
  Set.Ioc (before weights i) (before weights (i + 1))

theorem before_mono (h : ∀ weight ∈ weights, 0 ≤ weight) : Monotone (before weights) := by
  refine monotone_nat_of_le_succ fun i => ?_
  rw [before_succ]
  refine le_add_of_nonneg_right ?_
  by_cases hi : i < weights.length
  · rw [List.getD_eq_getElem _ _ hi]
    exact h _ (List.getElem_mem hi)
  · rw [List.getD_eq_default _ _ (Nat.le_of_not_lt hi)]

theorem before_nonneg (h : ∀ weight ∈ weights, 0 ≤ weight) (i : ℕ) : 0 ≤ before weights i :=
  before_mono h (Nat.zero_le i)

theorem before_le_sum (h : ∀ weight ∈ weights, 0 ≤ weight) {i : ℕ} (hi : i ≤ weights.length) :
    before weights i ≤ weights.sum := by
  rw [← before_length]
  exact before_mono h hi

/-- **The arcs are disjoint.** -/
theorem arc_disjoint (h : ∀ weight ∈ weights, 0 ≤ weight) {i j : ℕ} {x : K}
    (hi : x ∈ arc weights i) (hj : x ∈ arc weights j) : i = j := by
  by_contra hne
  exact Set.disjoint_left.mp ((before_mono h).pairwise_disjoint_on_Ioc_succ hne) hi hj

/-- **The arcs are the wheel.** -/
theorem mem_arc (h : ∀ weight ∈ weights, 0 ≤ weight) {x : K} (hpos : 0 < x)
    (hle : x ≤ weights.sum) : ∃ i < weights.length, x ∈ arc weights i := by
  have hx : x ∈ Set.Ioc (before weights 0) (before weights weights.length) := by
    rw [before_zero, before_length]
    exact ⟨hpos, hle⟩
  rw [← (before_mono h).biUnion_Ico_Ioc_map_succ 0 weights.length] at hx
  obtain ⟨i, hi, hmem⟩ := Set.mem_iUnion₂.mp hx
  exact ⟨i, (Set.mem_Ico.mp hi).2, hmem⟩

end Wheel
