/-
# The curve secp256k1

The curve `y² = x³ + 7` over its prime field, with the points that its generator spans, as a
curve of ECDSA (`Secp256k1.ecdsa`).  Its group is the one of Weierstrass curves.

Two kinds of facts about large numbers are computed.  The orders of the field and of the group
are prime by a chain of Lucas tests.  The coordinates of a multiple of the generator are found
by doubling and adding in Jacobian coordinates; so the generator has the order it should have
(`order_nsmul_generator`), and the point of a signature is found (`lift_eq_of_multiple`).
-/
import Mathlib
import Lobby.Ecdsa

namespace Lucas

/-! ## Lucas's test -/

/-- `base ^ exponent % modulus`, over the binary digits of the exponent. -/
def powMod (modulus base : ℕ) : ℕ → ℕ → ℕ
  | 0, _ => 1 % modulus
  | digits + 1, exponent =>
    let root := powMod modulus base digits (exponent / 2)
    if exponent % 2 = 0 then root * root % modulus else root * root * base % modulus

theorem powMod_eq (modulus base : ℕ) : ∀ {digits exponent : ℕ}, exponent < 2 ^ digits →
    powMod modulus base digits exponent = base ^ exponent % modulus := by
  intro digits
  induction digits with
  | zero =>
      intro exponent h
      rw [show exponent = 0 by omega]
      rfl
  | succ digits ih =>
      intro exponent h
      have hroot := ih (show exponent / 2 < 2 ^ digits by rw [pow_succ] at h; omega)
      have hsquare : powMod modulus base digits (exponent / 2)
          * powMod modulus base digits (exponent / 2) ≡ base ^ (exponent / 2 + exponent / 2)
          [MOD modulus] := by
        rw [hroot, pow_add]
        exact (Nat.mod_modEq _ _).mul (Nat.mod_modEq _ _)
      rw [powMod]
      by_cases heven : exponent % 2 = 0
      · rw [if_pos heven, show base ^ exponent = base ^ (exponent / 2 + exponent / 2) by
          congr 1; omega]
        exact hsquare
      · rw [if_neg heven, show base ^ exponent = base ^ (exponent / 2 + exponent / 2) * base by
          rw [← pow_succ]; congr 1; omega]
        exact hsquare.mul_right base

/-- A number below `2 ^ 256` that is shown to be prime by the order of `base`. -/
structure Test where
  number : ℕ
  base : ℕ
  /-- the prime divisors of `number - 1`, as often as they divide it -/
  divisors : List ℕ

/-- The test, for divisors out of a list of primes. -/
def Test.passes (primes : List ℕ) (t : Test) : Bool :=
  1 < t.number && t.number < 2 ^ 256 && t.divisors.all primes.contains
    && t.divisors.prod == t.number - 1
    && powMod t.number t.base 256 (t.number - 1) == 1
    && t.divisors.all fun q => powMod t.number t.base 256 ((t.number - 1) / q) != 1

/-- A chain of tests, each of which may use the numbers before it. -/
def passes : List ℕ → List Test → Bool
  | _, [] => true
  | primes, t :: chain => t.passes primes && passes (t.number :: primes) chain

theorem pow_eq_one_iff {n : ℕ} (h : 1 < n) (a k : ℕ) : (a : ZMod n) ^ k = 1 ↔ a ^ k % n = 1 := by
  have hone : 1 % n = 1 := Nat.mod_eq_of_lt h
  rw [← Nat.cast_pow, ← Nat.cast_one, ZMod.natCast_eq_natCast_iff', hone]

theorem Test.prime {primes : List ℕ} {t : Test} (hprimes : ∀ q ∈ primes, q.Prime)
    (h : t.passes primes = true) : t.number.Prime := by
  simp only [passes, Bool.and_eq_true, decide_eq_true_eq, List.all_eq_true, beq_iff_eq,
    bne_iff_ne, List.contains_iff_mem] at h
  obtain ⟨⟨⟨⟨⟨hone, hbound⟩, hdivisors⟩, hprod⟩, hfull⟩, hproper⟩ := h
  have hpow : ∀ k ≤ t.number - 1,
      powMod t.number t.base 256 k = 1 ↔ (t.base : ZMod t.number) ^ k = 1 := by
    intro k hk
    rw [pow_eq_one_iff hone, powMod_eq _ _ (by omega)]
  refine lucas_primality t.number t.base ((hpow _ le_rfl).mp hfull) fun q hq hdvd => ?_
  rw [← hprod] at hdvd
  obtain ⟨r, hr, hqr⟩ := (Prime.dvd_prod_iff hq.prime).mp hdvd
  obtain rfl := (Nat.prime_dvd_prime_iff_eq hq (hprimes _ (hdivisors r hr))).mp hqr
  exact mt (hpow _ (Nat.div_le_self _ _)).mpr (hproper q hr)

/-- **The numbers of a chain are prime.** -/
theorem prime_of_passes {primes : List ℕ} {chain : List Test} (hprimes : ∀ q ∈ primes, q.Prime)
    (h : passes primes chain = true) : ∀ t ∈ chain, t.number.Prime := by
  induction chain generalizing primes with
  | nil => exact fun t ht => absurd ht List.not_mem_nil
  | cons t chain ih =>
      rw [passes, Bool.and_eq_true] at h
      have ht := t.prime hprimes h.1
      refine List.forall_mem_cons.mpr ⟨ht, ih ?_ h.2⟩
      exact List.forall_mem_cons.mpr ⟨ht, hprimes⟩

end Lucas

namespace Secp256k1

/-! ## The orders -/

/-- The order of the field. -/
def fieldOrder : ℕ := 2 ^ 256 - 2 ^ 32 - 977

/-- The order of the group. -/
def groupOrder : ℕ := 0xFFFFFFFFFFFFFFFFFFFFFFFFFFFFFFFEBAAEDCE6AF48A03BBFD25E8CD0364141

def smallPrimes : List ℕ :=
  [2, 3, 5, 7, 11, 17, 29, 31, 41, 53, 59, 97, 109, 149, 293, 461, 631, 797, 971, 1373, 1627,
    1871, 2011, 2621, 2657, 4051, 4423, 5323, 7723, 9349, 13441, 16699, 20113, 24809, 28181,
    41201, 85831, 96557, 120233, 305873]

theorem prime_of_small : ∀ q ∈ smallPrimes, q.Prime := by
  simp only [smallPrimes, List.forall_mem_cons]
  norm_num

/-- The primes on which those of the two orders rest. -/
def chain : List Lucas.Test :=
  [⟨1206781, 10, [2, 2, 3, 5, 20113]⟩,
    ⟨1627771, 3, [2, 3, 5, 29, 1871]⟩,
    ⟨4681609, 23, [2, 2, 2, 3, 97, 2011]⟩,
    ⟨7240687, 3, [2, 3, 1206781]⟩,
    ⟨13331831, 13, [2, 5, 971, 1373]⟩,
    ⟨44706919, 6, [2, 3, 797, 9349]⟩,
    ⟨107590001, 3, [2, 2, 2, 2, 5, 5, 5, 5, 7, 29, 53]⟩,
    ⟨545358713, 5, [2, 2, 2, 41, 59, 28181]⟩,
    ⟨297159362677, 2, [2, 2, 3, 3, 11, 461, 1627771]⟩,
    ⟨107361793816595537, 3, [2, 2, 2, 2, 16699, 85831, 4681609]⟩,
    ⟨173378833005251801, 6, [2, 2, 2, 5, 5, 2621, 24809, 13331831]⟩,
    ⟨174723607534414371449, 3, [2, 2, 2, 17, 59, 4051, 120233, 44706919]⟩,
    ⟨22149492674086928081353, 5, [2, 2, 2, 3, 5323, 173378833005251801]⟩,
    ⟨132896956044521568488119, 6, [2, 3, 22149492674086928081353]⟩,
    ⟨29047611873442575647497758179, 2, [2, 293, 305873, 545358713, 297159362677]⟩,
    ⟨341948486974166000522343609283189, 2,
      [2, 2, 3, 3, 3, 109, 29047611873442575647497758179]⟩,
    ⟨255515944373312847190720520512484175977, 3,
      [2, 2, 2, 7, 7, 11, 1627, 2657, 4423, 41201, 96557, 7240687, 107590001]⟩,
    ⟨205115282021455665897114700593932402728804164701536103180137503955397371, 10,
      [2, 3, 5, 29, 29, 31, 7723, 132896956044521568488119,
        255515944373312847190720520512484175977]⟩,
    ⟨groupOrder, 7, [2, 2, 2, 2, 2, 2, 3, 149, 631, 107361793816595537, 174723607534414371449,
      341948486974166000522343609283189]⟩,
    ⟨fieldOrder, 3, [2, 3, 7, 13441,
      205115282021455665897114700593932402728804164701536103180137503955397371]⟩]

theorem passes_chain : Lucas.passes smallPrimes chain = true := by decide +kernel

theorem prime_of_mem {n : ℕ} (h : n ∈ chain.map Lucas.Test.number) : n.Prime := by
  obtain ⟨t, ht, rfl⟩ := List.mem_map.mp h
  exact Lucas.prime_of_passes prime_of_small passes_chain t ht

instance fieldOrder_prime : Fact fieldOrder.Prime := ⟨prime_of_mem (by decide +kernel)⟩

instance groupOrder_prime : Fact groupOrder.Prime := ⟨prime_of_mem (by decide +kernel)⟩

/-! ## The curve -/

/-- `y² = x³ + 7`. -/
def curve : WeierstrassCurve (ZMod fieldOrder) where
  a₁ := 0
  a₂ := 0
  a₃ := 0
  a₄ := 0
  a₆ := 7

theorem natCast_ne_zero {k : ℕ} (h : ¬ fieldOrder ∣ k) : (k : ZMod fieldOrder) ≠ 0 :=
  fun hk => h ((ZMod.natCast_eq_zero_iff k fieldOrder).mp hk)

theorem Δ_ne_zero : curve.Δ ≠ 0 := by
  have h : curve.Δ = -((21168 : ℕ) : ZMod fieldOrder) := by
    simp [WeierstrassCurve.Δ, WeierstrassCurve.b₂, WeierstrassCurve.b₄, WeierstrassCurve.b₆,
      WeierstrassCurve.b₈, curve]
    norm_num
  rw [h]
  exact neg_ne_zero.mpr (natCast_ne_zero (by decide +kernel))

abbrev CurvePoint : Type := curve.toAffine.Point

open WeierstrassCurve Jacobian

/-- Jacobian coordinates, on natural numbers. -/
structure Coordinates where
  x : ℕ
  y : ℕ
  z : ℕ

namespace Coordinates

def toField (c : Coordinates) : Fin 3 → ZMod fieldOrder := ![c.x, c.y, c.z]

/-- `- a` in the field. -/
def negate (a : ℕ) : ℕ := fieldOrder - a % fieldOrder

theorem cast_negate (a : ℕ) : (negate a : ZMod fieldOrder) = -a := by
  rw [negate, Nat.cast_sub (Nat.mod_lt _ (by decide +kernel)).le, ZMod.natCast_self,
    ZMod.natCast_mod, zero_sub]

/-- Twice a point. -/
def double (c : Coordinates) : Coordinates :=
  let s := 4 * c.x * c.y * c.y % fieldOrder
  let m := 3 * c.x * c.x % fieldOrder
  let x := (m * m + 2 * negate s) % fieldOrder
  ⟨x, (m * (s + negate x) + negate (8 * (c.y * c.y) * (c.y * c.y))) % fieldOrder,
    2 * c.y * c.z % fieldOrder⟩

theorem toField_double (c : Coordinates) :
    c.double.toField = curve.toJacobian.dblXYZ c.toField := by
  funext i
  fin_cases i <;>
    simp [toField, double, dblXYZ, dblX, dblY, dblZ, negDblY, dblU_eq, negY, curve,
      cast_negate] <;>
    ring

/-- The sum with a point `(gx, gy)`. -/
def addAffine (c : Coordinates) (gx gy : ℕ) : Coordinates :=
  let zz := c.z * c.z % fieldOrder
  let zzz := zz * c.z % fieldOrder
  let gxx := gx * gx % fieldOrder
  ⟨(c.x * gxx * zz + 2 * negate (c.y * gy * c.z) + c.x * c.x * gx + 14 * (zz * zz)) % fieldOrder,
    (c.y * gxx * gx * zzz + 2 * negate (c.y * gy * gy * zzz) + 3 * (c.x * c.x * gx * gy * zz)
      + 3 * negate (c.x * c.y * gxx * c.z) + negate (c.x * c.x * c.x * gy)
      + 2 * (c.y * c.y * gy) + 14 * (gy * zzz * zzz) + 14 * negate (c.y * zzz)) % fieldOrder,
    (c.x + negate (gx * zz)) % fieldOrder⟩

theorem toField_addAffine (c : Coordinates) (gx gy : ℕ) :
    (c.addAffine gx gy).toField
      = curve.toJacobian.addXYZ c.toField ![(gx : ZMod fieldOrder), gy, 1] := by
  funext i
  fin_cases i <;>
    simp [toField, addAffine, addXYZ, addX, addY, addZ, negAddY, negY, curve, cast_negate] <;>
    ring

/-- The coordinates are those of `P`. -/
def Represents (c : Coordinates) (P : CurvePoint) : Prop :=
  curve.toJacobian.Nonsingular c.toField ∧ Point.toAffine curve.toJacobian c.toField = P

theorem Represents.double {c : Coordinates} {P : CurvePoint} (h : c.Represents P) :
    c.double.Represents (P + P) := by
  obtain ⟨hc, rfl⟩ := h
  rw [Represents, toField_double, ← add_self]
  exact ⟨nonsingular_add hc hc, Point.toAffine_add hc hc⟩

/-- Whether the coordinates are those of `(gx, gy)`. -/
def isAffine (c : Coordinates) (gx gy : ℕ) : Bool :=
  c.x % fieldOrder == gx * (c.z * c.z) % fieldOrder
    && c.y % fieldOrder == gy * (c.z * c.z * c.z) % fieldOrder

theorem not_equiv_of_isAffine {c : Coordinates} {gx gy : ℕ} (h : c.isAffine gx gy = false) :
    ¬ c.toField ≈ ![(gx : ZMod fieldOrder), gy, 1] := by
  intro hequiv
  have hx : ((c.x : ℕ) : ZMod fieldOrder) = ((gx * (c.z * c.z) : ℕ) : ZMod fieldOrder) := by
    have := X_eq_of_equiv hequiv
    simp [toField] at this
    push_cast
    rw [this]
    ring
  have hy : ((c.y : ℕ) : ZMod fieldOrder) = ((gy * (c.z * c.z * c.z) : ℕ) : ZMod fieldOrder) := by
    have := Y_eq_of_equiv hequiv
    simp [toField] at this
    push_cast
    rw [this]
    ring
  rw [ZMod.natCast_eq_natCast_iff'] at hx hy
  simp [isAffine, hx, hy] at h

theorem Represents.addAffine {c : Coordinates} {P Q : CurvePoint} {gx gy : ℕ} (h : c.Represents P)
    (hg : Coordinates.Represents ⟨gx, gy, 1⟩ Q) (hne : c.isAffine gx gy = false) :
    (c.addAffine gx gy).Represents (P + Q) := by
  obtain ⟨hc, rfl⟩ := h
  obtain ⟨hg, rfl⟩ := hg
  have hfield : (⟨gx, gy, 1⟩ : Coordinates).toField = ![(gx : ZMod fieldOrder), gy, 1] := by
    simp [toField]
  rw [hfield] at hg ⊢
  rw [Represents, toField_addAffine, ← add_of_not_equiv (not_equiv_of_isAffine hne)]
  exact ⟨nonsingular_add hc hg, Point.toAffine_add hc hg⟩

/-- `(gx, gy)` added up as often as the binary digits of `k` say. -/
def multiple (gx gy : ℕ) : ℕ → ℕ → Option Coordinates
  | 0, _ => some ⟨1, 1, 0⟩
  | digits + 1, k =>
    match multiple gx gy digits (k / 2) with
    | none => none
    | some c =>
      let d := c.double
      if k % 2 = 0 then some d
      else if d.isAffine gx gy then none
      else some (d.addAffine gx gy)

theorem represents_multiple {gx gy : ℕ} {P : CurvePoint}
    (hg : Coordinates.Represents ⟨gx, gy, 1⟩ P) : ∀ {digits k : ℕ} {c : Coordinates},
    k < 2 ^ digits → multiple gx gy digits k = some c → c.Represents (k • P) := by
  intro digits
  induction digits with
  | zero =>
      intro k c hk h
      obtain rfl : ⟨1, 1, 0⟩ = c := Option.some.inj h
      rw [show k = 0 by omega, zero_nsmul]
      have hfield : (⟨1, 1, 0⟩ : Coordinates).toField = ![1, 1, 0] := by simp [toField]
      rw [Represents, hfield]
      exact ⟨nonsingular_zero, Point.toAffine_zero⟩
  | succ digits ih =>
      intro k c hk h
      rw [multiple] at h
      cases hhalf : multiple gx gy digits (k / 2) with
      | none => rw [hhalf] at h; cases h
      | some half =>
          rw [hhalf] at h
          dsimp only at h
          -- the half was found, and is doubled
          have hdouble := (ih (show k / 2 < 2 ^ digits by rw [pow_succ] at hk; omega) hhalf).double
          rw [← add_nsmul] at hdouble
          by_cases heven : k % 2 = 0
          · rw [if_pos heven] at h
            rw [show k = k / 2 + k / 2 by omega, ← Option.some.inj h]
            exact hdouble
          · rw [if_neg heven] at h
            -- the addition is for different points, which `multiple` has tested
            by_cases hsame : half.double.isAffine gx gy = true
            · rw [if_pos hsame] at h; cases h
            · rw [if_neg hsame] at h
              rw [← Option.some.inj h, show k = k / 2 + k / 2 + 1 by omega, succ_nsmul]
              exact hdouble.addAffine hg (Bool.eq_false_of_not_eq_true hsame)

end Coordinates

/-! ## The generator -/

def generatorX : ℕ := 0x79BE667EF9DCBBAC55A06295CE870B07029BFCDB2DCE28D959F2815B16F81798

def generatorY : ℕ := 0x483ADA7726A3C4655DA4FBFC0E1108A8FD17B448A68554199C47D08FFB10D4B8

theorem nonsingular {x y : ℕ} (h : (y * y) % fieldOrder = (x * x * x + 7) % fieldOrder) :
    curve.toAffine.Nonsingular (x : ZMod fieldOrder) y := by
  refine (Affine.equation_iff_nonsingular_of_Δ_ne_zero Δ_ne_zero).mp ?_
  have hcast := (ZMod.natCast_eq_natCast_iff' _ _ fieldOrder).mpr h
  push_cast at hcast
  rw [Affine.equation_iff]
  simp only [curve]
  linear_combination hcast

def generator : CurvePoint :=
  .some (generatorX : ZMod fieldOrder) generatorY (nonsingular (by decide +kernel))

namespace Coordinates

theorem represents_affine {x y : ℕ} (h : curve.toAffine.Nonsingular (x : ZMod fieldOrder) y) :
    Coordinates.Represents ⟨x, y, 1⟩ (.some (x : ZMod fieldOrder) y h) := by
  have hfield : (⟨x, y, 1⟩ : Coordinates).toField = ![(x : ZMod fieldOrder), y, 1] := by
    simp [toField]
  have hsingular : curve.toJacobian.Nonsingular ![(x : ZMod fieldOrder), y, 1] :=
    (nonsingular_some _ _).mpr h
  rw [Represents, hfield]
  exact ⟨hsingular, Point.toAffine_some hsingular⟩

theorem Represents.eq_zero {c : Coordinates} {P : CurvePoint} (h : c.Represents P)
    (hz : c.z % fieldOrder = 0) : P = 0 := by
  rw [← h.2]
  refine Point.toAffine_of_Z_eq_zero ?_
  show (c.z : ZMod fieldOrder) = 0
  rw [← ZMod.natCast_mod, hz, Nat.cast_zero]

theorem Represents.eq_some {c : Coordinates} {P : CurvePoint} {x y : ℕ} (h : c.Represents P)
    (hz : c.z % fieldOrder ≠ 0) (haffine : c.isAffine x y = true)
    (hxy : curve.toAffine.Nonsingular (x : ZMod fieldOrder) y) :
    P = .some (x : ZMod fieldOrder) y hxy := by
  have hunit : (c.z : ZMod fieldOrder) ≠ 0 := by
    rw [ne_eq, ZMod.natCast_eq_zero_iff, Nat.dvd_iff_mod_eq_zero]
    exact hz
  simp only [isAffine, Bool.and_eq_true, beq_iff_eq] at haffine
  have hx := (ZMod.natCast_eq_natCast_iff' _ _ fieldOrder).mpr haffine.1
  have hy := (ZMod.natCast_eq_natCast_iff' _ _ fieldOrder).mpr haffine.2
  push_cast at hx hy
  have hsmul : c.toField = (c.z : ZMod fieldOrder) • ![(x : ZMod fieldOrder), y, 1] := by
    rw [smul_fin3, toField, hx, hy]
    simp
    constructor <;> ring
  rw [← h.2, hsmul, Point.toAffine_smul _ hunit.isUnit]
  exact (represents_affine hxy).2 ▸ by simp [toField]

end Coordinates

/-- The coordinates of a multiple of the generator, computed. -/
theorem nsmul_generator {k : ℕ} {c : Coordinates} (hk : k < 2 ^ 256)
    (h : Coordinates.multiple generatorX generatorY 256 k = some c) :
    c.Represents (k • generator) :=
  Coordinates.represents_multiple (Coordinates.represents_affine _) hk h

/-- **The order of the generator.** -/
theorem order_nsmul_generator : groupOrder • generator = 0 := by
  have hz : (Coordinates.multiple generatorX generatorY 256 groupOrder).map
      (fun c => c.z % fieldOrder) = some 0 := by decide +kernel
  obtain ⟨c, hc, hz⟩ := Option.map_eq_some_iff.mp hz
  exact (nsmul_generator (by decide +kernel) hc).eq_zero hz

/-! ## The group -/

/-- The points that the generator spans. -/
abbrev Group : Type := AddSubgroup.zmultiples generator

theorem order_nsmul (P : Group) : groupOrder • P = 0 := by
  obtain ⟨P, k, rfl⟩ := P
  refine Subtype.ext ?_
  show groupOrder • k • generator = 0
  rw [smul_comm, order_nsmul_generator, zsmul_zero]

/-- No point but zero has a smaller order. -/
theorem dvd_of_nsmul (k : ℕ) (P : Group) (hP : P ≠ 0) (h : k • P = 0) : groupOrder ∣ k := by
  have horder : addOrderOf P = groupOrder := by
    rcases (Nat.dvd_prime groupOrder_prime.out).mp
      (addOrderOf_dvd_of_nsmul_eq_zero (order_nsmul P)) with hone | horder
    · exact absurd (AddMonoid.addOrderOf_eq_one_iff.mp hone) hP
    · exact horder
  exact horder ▸ addOrderOf_dvd_of_nsmul_eq_zero h

/-! ## Points from signatures -/

/-- The point whose `x` is `r`, or `r` and the order of the group for the recovery ids 2 and 3,
and whose `y` is odd for the recovery ids 1 and 3. -/
def IsLift (r : ℕ) (v : UInt8) (P : Group) : Prop :=
  ∃ (x y : ZMod fieldOrder) (h : curve.toAffine.Nonsingular x y),
    P.val = .some x y h ∧ v.toNat < 4 ∧ x.val = r + v.toNat / 2 * groupOrder
      ∧ y.val % 2 = v.toNat % 2

theorem toNat_flip (v : UInt8) :
    (v ^^^ 1).toNat / 2 = v.toNat / 2 ∧ (v ^^^ 1).toNat % 2 = 1 - v.toNat % 2 := by
  rw [UInt8.toNat_xor, UInt8.toNat_one, Nat.xor_div_two, Nat.xor_mod_two_eq]
  exact ⟨Nat.xor_zero _, by omega⟩

/-- Points with `y = 0` have order two. -/
theorem y_ne_zero {P : Group} {x y : ZMod fieldOrder} {h : curve.toAffine.Nonsingular x y}
    (hP : P.val = .some x y h) : y ≠ 0 := by
  rintro rfl
  have hneg : P = -P := by
    refine Subtype.ext ?_
    show P.val = -P.val
    rw [hP, Affine.Point.neg_some, Affine.Point.some.injEq]
    simp [Affine.negY, curve]
  have hzero : P ≠ 0 := by
    intro hzero
    rw [hzero] at hP
    cases hP
  have htwo : 2 • P = 0 := by
    rw [two_nsmul]
    nth_rewrite 1 [hneg]
    exact neg_add_cancel P
  exact absurd (dvd_of_nsmul 2 P hzero htwo) (by decide +kernel)

theorem val_neg_mod_two {y : ZMod fieldOrder} (hy : y ≠ 0) :
    (-y).val % 2 = 1 - y.val % 2 := by
  have hlt := ZMod.val_lt y
  have hodd : fieldOrder % 2 = 1 := by decide +kernel
  rw [ZMod.neg_val, if_neg hy]
  omega

theorem IsLift.neg {r : ℕ} {v : UInt8} {P : Group} (h : IsLift r v P) :
    IsLift r (v ^^^ 1) (-P) := by
  obtain ⟨x, y, hxy, hP, hv, hx, hy⟩ := h
  have hflip := toNat_flip v
  have hneg : curve.toAffine.negY x y = -y := by simp [Affine.negY, curve]
  refine ⟨x, _, _, (congrArg Neg.neg hP).trans (Affine.Point.neg_some hxy), ?_, ?_, ?_⟩
  · omega
  · rw [hx, hflip.1]
  · rw [hneg, val_neg_mod_two (y_ne_zero hP), hy, hflip.2]

theorem isLift_neg_iff {r : ℕ} {v : UInt8} {P : Group} :
    IsLift r (v ^^^ 1) P ↔ IsLift r v (-P) := by
  constructor
  · intro h
    have hneg := h.neg
    rw [UInt8.xor_assoc, UInt8.xor_self, UInt8.xor_zero] at hneg
    exact hneg
  · intro h
    have hneg := h.neg
    rw [neg_neg] at hneg
    exact hneg

/-- A signature has one point. -/
theorem IsLift.unique {r : ℕ} {v : UInt8} {P Q : Group} (hP : IsLift r v P)
    (hQ : IsLift r v Q) : P = Q := by
  obtain ⟨x, y, hxy, hP, -, hx, hy⟩ := hP
  obtain ⟨x', y', hxy', hQ, -, hx', hy'⟩ := hQ
  have hsame : x = x' := ZMod.val_injective _ (hx.trans hx'.symm)
  have heq : Affine.Point.some x y hxy = .some x' y' hxy'
      ∨ Affine.Point.some x y hxy = -.some x' y' hxy' := Affine.Point.X_eq_iff.mp hsame
  rcases heq with heq | heq
  · exact Subtype.ext (hP.trans (heq.trans hQ.symm))
  · -- the other point with this `x` has the other parity
    rw [Affine.Point.neg_some] at heq
    rw [Affine.Point.some.injEq] at heq
    have hneg : y = -y' := by
      rw [heq.2]
      simp [Affine.negY, curve]
    have hparity := val_neg_mod_two (y_ne_zero hQ)
    rw [← hneg] at hparity
    omega

open Classical in
/-- The point of a signature. -/
noncomputable def lift (r : ℕ) (v : UInt8) : Option Group :=
  if h : ∃ P, IsLift r v P then some h.choose else none

theorem lift_eq_some_iff {r : ℕ} {v : UInt8} {P : Group} :
    lift r v = some P ↔ IsLift r v P := by
  unfold lift
  constructor
  · intro h
    split at h
    · next hex =>
        rw [← Option.some.inj h]
        exact hex.choose_spec
    · cases h
  · intro h
    have hex : ∃ P, IsLift r v P := ⟨P, h⟩
    rw [dif_pos hex, hex.choose_spec.unique h]

theorem lift_flip (r : ℕ) (v : UInt8) : lift r (v ^^^ 1) = (lift r v).map (- ·) := by
  refine Option.ext fun P => ?_
  rw [lift_eq_some_iff, isLift_neg_iff, Option.map_eq_some_iff]
  constructor
  · intro h
    exact ⟨-P, lift_eq_some_iff.mpr h, neg_neg P⟩
  · rintro ⟨Q, hQ, rfl⟩
    rw [neg_neg]
    exact lift_eq_some_iff.mp hQ

theorem lift_ne_zero (r : ℕ) (v : UInt8) (P : Group) (h : lift r v = some P) : P ≠ 0 := by
  rintro rfl
  obtain ⟨x, y, hxy, hP, -⟩ := lift_eq_some_iff.mp h
  cases hP

/-- **The curve of ECDSA.** -/
noncomputable def ecdsa : Ecdsa.Curve Group groupOrder where
  generator := ⟨generator, AddSubgroup.mem_zmultiples generator⟩
  lift := lift
  inverse r := ((r : ZMod groupOrder)⁻¹).val
  odd_order := by decide +kernel
  order_nsmul := order_nsmul
  dvd_of_nsmul := dvd_of_nsmul
  lift_flip := lift_flip
  lift_ne_zero := lift_ne_zero
  mul_inverse r hpos hlt := by
    have hne : (r : ZMod groupOrder) ≠ 0 := by
      rw [ne_eq, ZMod.natCast_eq_zero_iff]
      exact Nat.not_dvd_of_pos_of_lt hpos hlt
    have hone : ((r * ((r : ZMod groupOrder)⁻¹).val : ℕ) : ZMod groupOrder) = (1 : ℕ) := by
      rw [Nat.cast_mul, ZMod.natCast_zmod_val, mul_inv_cancel₀ hne, Nat.cast_one]
    rw [(ZMod.natCast_eq_natCast_iff' _ _ _).mp hone]
    exact Nat.mod_eq_of_lt (by decide +kernel)

/-- **The point of a signature, computed**: the one with the coordinates of `k G`. -/
theorem lift_eq_of_multiple {k x y r : ℕ} {v : UInt8} {c : Coordinates} (hk : k < 2 ^ 256)
    (hmultiple : Coordinates.multiple generatorX generatorY 256 k = some c)
    (hz : c.z % fieldOrder ≠ 0) (haffine : c.isAffine x y = true)
    (hcurve : y * y % fieldOrder = (x * x * x + 7) % fieldOrder) (hv : v.toNat < 4)
    (hx : x < fieldOrder ∧ x = r + v.toNat / 2 * groupOrder)
    (hy : y < fieldOrder ∧ y % 2 = v.toNat % 2) :
    ecdsa.lift r v = some (k • ecdsa.generator) := by
  have hpoint := (nsmul_generator hk hmultiple).eq_some hz haffine (nonsingular hcurve)
  refine lift_eq_some_iff.mpr ⟨x, y, nonsingular hcurve, hpoint, hv, ?_, ?_⟩
  · rw [ZMod.val_natCast, Nat.mod_eq_of_lt hx.1, hx.2]
  · rw [ZMod.val_natCast, Nat.mod_eq_of_lt hy.1, hy.2]

end Secp256k1
