/-
# Recovering public keys from ECDSA signatures

The recovery equation over a group of order `n`: the point of a signature is lifted from
`r` and the recovery id, and the key is `r⁻¹ (s R - z G)`.  Bit zero of the recovery id is
the parity of the point, so flipping it negates the point.

Three facts are derived: a signature recovers the key it was made with (`recover_of_signed`),
negating `s` and flipping the parity recovers the same key (`recover_neg`), and flipping the
parity alone never does (`recover_flip`).
-/
import Mathlib

namespace Ecdsa

/-- A group of odd order `n` without points of smaller order, with the lift of a signature's
`r` and recovery id to its point. -/
structure Curve (E : Type*) [AddCommGroup E] (n : ℕ) where
  generator : E
  lift : ℕ → UInt8 → Option E
  inverse : ℕ → ℕ
  odd_order : n % 2 = 1
  order_nsmul : ∀ P : E, n • P = 0
  dvd_of_nsmul : ∀ (k : ℕ) (P : E), P ≠ 0 → k • P = 0 → n ∣ k
  lift_flip : ∀ r v, lift r (v ^^^ 1) = (lift r v).map (- ·)
  lift_ne_zero : ∀ r v P, lift r v = some P → P ≠ 0
  mul_inverse : ∀ r, 0 < r → r < n → r * inverse r % n = 1

namespace Curve

variable {E : Type*} [AddCommGroup E] {n : ℕ} (C : Curve E n)

/-- The key of a signature of `z`. -/
def recover (z r s : ℕ) (v : UInt8) : Option E :=
  (C.lift r v).map fun R => C.inverse r • (s • R - z • C.generator)

include C in
/-- Multiples depend on the number up to the order. -/
theorem nsmul_congr {a b : ℕ} (h : a % n = b % n) (P : E) : a • P = b • P := by
  have hmod : ∀ k : ℕ, k • P = (k % n) • P := by
    intro k
    calc k • P = (k % n + n * (k / n)) • P := by rw [Nat.mod_add_div]
      _ = (k % n) • P + (k / n) • n • P := by rw [add_nsmul, mul_nsmul]
      _ = (k % n) • P := by rw [C.order_nsmul, smul_zero, add_zero]
  rw [hmod a, hmod b, h]

/-- **The key of a signature**: with the secret number `k`, the key `d` signs `z` by the `r` of
the point `k G` and the `s` with `s k = z + r d`. -/
theorem recover_of_signed {k d z r s : ℕ} {v : UInt8} (hr : 0 < r) (hrn : r < n)
    (hlift : C.lift r v = some (k • C.generator)) (hs : s * k % n = (z + r * d) % n) :
    C.recover z r s v = some (d • C.generator) := by
  have hdiff : s • k • C.generator - z • C.generator = (r * d) • C.generator := by
    rw [← mul_nsmul', C.nsmul_congr hs, add_nsmul, add_sub_cancel_left]
  have hinverse : C.inverse r * (r * d) % n = d % n := by
    rw [← mul_assoc, mul_comm (C.inverse r) r, Nat.mul_mod, C.mul_inverse r hr hrn, one_mul,
      Nat.mod_mod]
  rw [recover, hlift, Option.map_some, hdiff, ← mul_nsmul', C.nsmul_congr hinverse]

include C in
/-- The point of the negated scalar. -/
theorem sub_nsmul_neg {s : ℕ} (hs : s ≤ n) (P : E) : (n - s) • (-P) = s • P := by
  have hsum : (n - s) • P + s • P = 0 := by
    rw [← add_nsmul, Nat.sub_add_cancel hs, C.order_nsmul]
  rw [smul_neg, neg_eq_iff_add_eq_zero, hsum]

/-- **Negating `s` flips the parity.** -/
theorem recover_neg (z r : ℕ) {s : ℕ} (hs : s ≤ n) (v : UInt8) :
    C.recover z r (n - s) (v ^^^ 1) = C.recover z r s v := by
  rw [recover, recover, C.lift_flip, Option.map_map]
  congr 1
  funext R
  show C.inverse r • ((n - s) • (-R) - z • C.generator) = _
  rw [C.sub_nsmul_neg hs]

/-- A multiple of a nonzero point by a number that `r` turns into `2 s` is not zero. -/
theorem not_dvd_inverse {r s : ℕ} (hr : 0 < r) (hrn : r < n) (hs : 0 < s) (hsn : s < n) :
    ¬ n ∣ C.inverse r * (2 * s) := by
  intro hdvd
  have hmul : n ∣ r * (C.inverse r * (2 * s)) := Dvd.dvd.mul_left hdvd r
  have hone : r * C.inverse r = n * (r * C.inverse r / n) + 1 := by
    have h := Nat.div_add_mod (r * C.inverse r) n
    rw [C.mul_inverse r hr hrn] at h
    exact h.symm
  have htwo : n ∣ 2 * s := by
    have hsplit : r * (C.inverse r * (2 * s))
        = n * (r * C.inverse r / n * (2 * s)) + 2 * s := by
      calc r * (C.inverse r * (2 * s)) = r * C.inverse r * (2 * s) := by ring
        _ = (n * (r * C.inverse r / n) + 1) * (2 * s) := by rw [← hone]
        _ = n * (r * C.inverse r / n * (2 * s)) + 2 * s := by ring
    rw [hsplit] at hmul
    exact (Nat.dvd_add_right (Dvd.intro _ rfl)).mp hmul
  -- `2 s` lies below `2 n`, so it would be `n` itself, which is odd
  obtain ⟨k, hk⟩ := htwo
  have hodd := C.odd_order
  have hk2 : k < 2 := by
    by_contra hge
    have := Nat.mul_le_mul_left n (show 2 ≤ k by omega)
    omega
  interval_cases k <;> omega

/-- **The other parity recovers another key.** -/
theorem recover_flip (z : ℕ) {r s : ℕ} (hr : 0 < r) (hrn : r < n) (hs : 0 < s) (hsn : s < n)
    (v : UInt8) {key : E} (h : C.recover z r s v = some key) :
    C.recover z r s (v ^^^ 1) ≠ some key := by
  obtain ⟨R, hlift, rfl⟩ := Option.map_eq_some_iff.mp h
  intro hflip
  rw [recover, C.lift_flip, hlift, Option.map_some, Option.map_some, Option.some_inj] at hflip
  -- equal keys would make a multiple of the point zero
  have hzero : (C.inverse r * (2 * s)) • R = 0 := by
    have hdiff : C.inverse r • (s • R - z • C.generator)
        - C.inverse r • (s • (-R) - z • C.generator) = 0 := by rw [hflip, sub_self]
    rw [← nsmul_sub] at hdiff
    have hpoint : s • R - z • C.generator - (s • (-R) - z • C.generator) = (2 * s) • R := by
      rw [smul_neg, mul_nsmul', two_nsmul]
      abel
    rw [hpoint, ← mul_nsmul'] at hdiff
    exact hdiff
  exact C.not_dvd_inverse hr hrn hs hsn
    (C.dvd_of_nsmul _ R (C.lift_ne_zero r v R hlift) hzero)

end Curve

end Ecdsa
