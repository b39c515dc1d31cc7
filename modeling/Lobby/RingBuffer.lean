/-
# Ring buffers

A ring of `N` slots into which values are written one after the other, the `n`-th into the
slot `n % N`.  It holds the last `N` of them (`Holds.push`).
-/
import Mathlib

namespace RingBuffer

variable {α : Type*} {N : ℕ} [NeZero N]

/-- The slot of the `n`-th write. -/
def slotOf (N : ℕ) [NeZero N] (n : ℕ) : Fin N :=
  ⟨n % N, Nat.mod_lt n (Nat.pos_of_ne_zero (NeZero.ne N))⟩

/-- The ring holds the last of the values that were written, the latest first. -/
def Holds (ring : Fin N → α) (written : List α) : Prop :=
  ∀ i, (hi : i < written.length) → i < N →
    ring (slotOf N (written.length - 1 - i)) = written[i]

theorem holds_nil (ring : Fin N → α) : Holds ring [] := by
  intro i hi
  exact absurd hi (Nat.not_lt_zero i)

/-- Two writes that are fewer than `N` apart go into different slots. -/
theorem slotOf_ne {m n : ℕ} (hlt : m < n) (hnear : n - m < N) : slotOf N m ≠ slotOf N n := by
  intro heq
  have hmod : m % N = n % N := congrArg Fin.val heq
  have hzero : (n - m) % N = 0 := Nat.sub_mod_eq_zero_of_mod_eq hmod.symm
  rw [Nat.mod_eq_of_lt hnear] at hzero
  omega

/-- **The next write.** -/
theorem Holds.push {ring : Fin N → α} {written : List α} (h : Holds ring written) (x : α) :
    Holds (Function.update ring (slotOf N written.length) x) (x :: written) := by
  intro i hi hN
  rw [List.length_cons] at hi ⊢
  cases i with
  | zero =>
      rw [List.getElem_cons_zero, show written.length + 1 - 1 - 0 = written.length by omega,
        Function.update_self]
  | succ i =>
      have hlt : written.length - 1 - i < written.length := by omega
      rw [List.getElem_cons_succ,
        show written.length + 1 - 1 - (i + 1) = written.length - 1 - i by omega,
        Function.update_of_ne (slotOf_ne hlt (by omega))]
      exact h i (by omega) (by omega)

end RingBuffer
