/-
# The window of a backoff

`jittered_delay` in numbers.  Both durations are truncated to whole milliseconds first, so that
1.5 ms count as one.  Whole milliseconds that fit a `u64` are then multiplied and bounded
exactly: the saturation of the product does not show under the bound.  The exponent grows up
to 10 only, so that the window stays at 1024 base delays from the eleventh attempt on.  No
sleep of `retry_with_backoff` is longer than the largest delay.
-/
import Lobby.RetryCalls

namespace Lobby

open Interaction Prog

/-! ## Arithmetic on u64 -/

theorem toNat_min (a b : UInt64) : (min a b).toNat = min a.toNat b.toNat := by
  show (if a ≤ b then a else b).toNat = _
  by_cases h : a ≤ b
  · rw [if_pos h, min_eq_left (UInt64.le_iff_toNat_le.mp h)]
  · rw [if_neg h, min_eq_right (le_of_not_ge fun hle => h (UInt64.le_iff_toNat_le.mpr hle))]

/-- A product that saturates is at least any other number. -/
theorem toNat_saturatingMul (a b : UInt64) :
    (saturatingMul a b).toNat = min (a.toNat * b.toNat) (UInt64.size - 1) := by
  rw [saturatingMul]
  by_cases h : a.toNat * b.toNat < UInt64.size
  · rw [if_pos h, UInt64.toNat_mul, min_eq_left (Nat.le_sub_one_of_lt h)]
    exact Nat.mod_eq_of_lt h
  · rw [if_neg h, min_eq_right ((Nat.sub_le _ 1).trans (not_lt.mp h))]
    rfl

/-- The exponent of the shift: the attempt before this one, at most 10. -/
def backoffShift (attempt : UInt32) : ℕ := min (attempt.toNat - 1) 10

theorem backoffShift_le (attempt : UInt32) : backoffShift attempt ≤ 10 := min_le_right _ _

theorem backoffShift_mono {a a' : UInt32} (h : a ≤ a') : backoffShift a ≤ backoffShift a' := by
  have hle : a.toNat ≤ a'.toNat := UInt32.le_iff_toNat_le.mp h
  exact min_le_min_right 10 (Nat.sub_le_sub_right hle 1)

theorem toNat_shift {attempt : UInt32} (h : 1 ≤ attempt) :
    ((1 : UInt64) <<< (min (attempt - 1) 10).toUInt64).toNat = 2 ^ backoffShift attempt := by
  have hpos : 1 ≤ attempt.toNat := UInt32.le_iff_toNat_le.mp h
  have hshift : (min (attempt - 1) 10).toUInt64.toNat = backoffShift attempt := by
    rw [UInt32.toNat_toUInt64, backoffShift]
    show (if attempt - 1 ≤ 10 then attempt - 1 else 10).toNat = _
    have hsub : (attempt - 1).toNat = attempt.toNat - 1 := UInt32.toNat_sub_of_le _ _ h
    by_cases hle : attempt - 1 ≤ 10
    · have hle' : (attempt - 1).toNat ≤ 10 := UInt32.le_iff_toNat_le.mp hle
      rw [if_pos hle, hsub]
      omega
    · have hlt : 10 < (attempt - 1).toNat := UInt32.lt_iff_toNat_lt.mp (UInt32.not_le.mp hle)
      rw [if_neg hle]
      show 10 = _
      omega
  have hlow := backoffShift_le attempt
  have hpow : 2 ^ backoffShift attempt ≤ 2 ^ 10 := Nat.pow_le_pow_right (by omega) hlow
  rw [UInt64.toNat_shiftLeft, hshift, Nat.mod_eq_of_lt (show backoffShift attempt < 64 by omega),
    UInt64.toNat_one, Nat.one_shiftLeft]
  exact Nat.mod_eq_of_lt (by omega)

/-! ## The window -/

/-- **The window in numbers**, for durations of any size: milliseconds are taken modulo the
size of a `u64`. -/
theorem toNat_jitterWindow (base max : Duration) {attempt : UInt32} (h : 1 ≤ attempt) :
    (jitterWindow base max attempt).toNat
      = min (max.asMillis % UInt64.size)
        (base.asMillis % UInt64.size * 2 ^ backoffShift attempt) := by
  have hmax : max.asMillis % UInt64.size ≤ UInt64.size - 1 :=
    Nat.le_sub_one_of_lt (Nat.mod_lt _ (by decide))
  rw [jitterWindow, toNat_min, toNat_saturatingMul, toNat_shift h]
  show min (min (base.asMillis % UInt64.size * _) _) (max.asMillis % UInt64.size) = _
  omega

/-- The duration in nanoseconds. -/
def Duration.asNanos (d : Duration) : ℕ := d.secs.toNat * 1000000000 + d.nanos

theorem asNanos_fromMillis (ms : UInt64) :
    (Duration.fromMillis ms).asNanos = ms.toNat * 1000000 := by
  rw [Duration.asNanos, Duration.fromMillis]
  dsimp only
  rw [UInt64.toNat_div]
  show ms.toNat / 1000 * _ + _ = _
  omega

theorem asMillis_le_asNanos (d : Duration) : d.asMillis * 1000000 ≤ d.asNanos := by
  rw [Duration.asMillis, Duration.asNanos]
  omega

theorem jitterWindow_le (base max : Duration) (attempt : UInt32) :
    (jitterWindow base max attempt).toNat ≤ max.asMillis := by
  rw [jitterWindow, toNat_min]
  exact (min_le_right _ _).trans (Nat.mod_le _ _)

/-- `min(max_delay, base_delay * 2^(attempt-1))`, the documented window, in nanoseconds. -/
def documentedWindow (base max : Duration) (attempt : UInt32) : ℕ :=
  min max.asNanos (base.asNanos * 2 ^ (attempt.toNat - 1))

/-- Truncated durations and a capped exponent give no wider window than the documented one. -/
theorem jitterWindow_le_documented (base max : Duration) {attempt : UInt32} (h : 1 ≤ attempt) :
    (jitterWindow base max attempt).toNat * 1000000 ≤ documentedWindow base max attempt := by
  rw [toNat_jitterWindow base max h]
  refine le_min ?_ ?_
  · calc _ ≤ max.asMillis % UInt64.size * 1000000 := Nat.mul_le_mul_right _ (min_le_left _ _)
      _ ≤ max.asMillis * 1000000 := Nat.mul_le_mul_right _ (Nat.mod_le _ _)
      _ ≤ max.asNanos := asMillis_le_asNanos max
  · have hpow : 2 ^ backoffShift attempt ≤ 2 ^ (attempt.toNat - 1) :=
      Nat.pow_le_pow_right (by omega) (min_le_left _ _)
    calc _ ≤ base.asMillis % UInt64.size * 2 ^ backoffShift attempt * 1000000 :=
          Nat.mul_le_mul_right _ (min_le_right _ _)
      _ ≤ base.asMillis * 2 ^ (attempt.toNat - 1) * 1000000 :=
          Nat.mul_le_mul_right _ (Nat.mul_le_mul (Nat.mod_le _ _) hpow)
      _ = base.asMillis * 1000000 * 2 ^ (attempt.toNat - 1) := Nat.mul_right_comm _ _ _
      _ ≤ base.asNanos * 2 ^ (attempt.toNat - 1) :=
          Nat.mul_le_mul_right _ (asMillis_le_asNanos base)

/-- A delay drawn from the window is not longer than the largest one. -/
theorem fromMillis_le (base max : Duration) (attempt : UInt32) {jitter : UInt64}
    (h : jitter ≤ jitterWindow base max attempt) :
    (Duration.fromMillis jitter).asNanos ≤ max.asNanos := by
  have hjitter : jitter.toNat ≤ max.asMillis :=
    (UInt64.le_iff_toNat_le.mp h).trans (jitterWindow_le base max attempt)
  calc (Duration.fromMillis jitter).asNanos = jitter.toNat * 1000000 := asNanos_fromMillis jitter
    _ ≤ max.asMillis * 1000000 := Nat.mul_le_mul_right _ hjitter
    _ ≤ max.asNanos := asMillis_le_asNanos max

theorem jitterWindow_mono (base max : Duration) {a a' : UInt32} (ha : 1 ≤ a) (h : a ≤ a') :
    jitterWindow base max a ≤ jitterWindow base max a' := by
  have hpow : 2 ^ backoffShift a ≤ 2 ^ backoffShift a' :=
    Nat.pow_le_pow_right (by omega) (backoffShift_mono h)
  rw [UInt64.le_iff_toNat_le, toNat_jitterWindow base max ha,
    toNat_jitterWindow base max (UInt32.le_trans ha h)]
  exact min_le_min_left _ (Nat.mul_le_mul_left _ hpow)

/-- **The window of a backoff**: the documented one for the whole milliseconds of both durations,
with the exponent capped at 10, when they fit a `u64`; for all durations it is no wider than the
documented one and does not shrink from one attempt to the next, and no delay drawn from it is
longer than the largest one. -/
theorem jitterWindow_spec (base max : Duration) :
    (∀ attempt : UInt32, 1 ≤ attempt → base.asMillis < UInt64.size → max.asMillis < UInt64.size →
      (jitterWindow base max attempt).toNat
        = min max.asMillis (base.asMillis * 2 ^ min (attempt.toNat - 1) 10))
    ∧ (∀ attempt : UInt32, 1 ≤ attempt →
      (jitterWindow base max attempt).toNat * 1000000 ≤ documentedWindow base max attempt)
    ∧ (∀ a a' : UInt32, 1 ≤ a → a ≤ a' → jitterWindow base max a ≤ jitterWindow base max a')
    ∧ ∀ (attempt : UInt32) (jitter : UInt64), jitter ≤ jitterWindow base max attempt →
      (Duration.fromMillis jitter).asNanos ≤ max.asNanos := by
  refine ⟨?_, ?_, ?_, ?_⟩
  · intro attempt hattempt hbase hmax
    rw [toNat_jitterWindow base max hattempt, Nat.mod_eq_of_lt hbase, Nat.mod_eq_of_lt hmax,
      backoffShift]
  · intro attempt hattempt
    exact jitterWindow_le_documented base max hattempt
  · intro a a' ha h
    exact jitterWindow_mono base max ha h
  · intro attempt jitter h
    exact fromMillis_le base max attempt h

/-- A base delay of 1.5 milliseconds. -/
def oneAndAHalf : Duration := ⟨0, 1500000, by decide⟩

/-- The default delays at the second attempt have the documented window; a base delay of 1.5
milliseconds counts as one millisecond there. -/
theorem jitterWindow_default :
    (jitterWindow (.fromMillis 50) (.fromMillis 150) 2).toNat = min 150 (50 * 2 ^ (2 - 1))
      ∧ (jitterWindow oneAndAHalf (.fromMillis 150) 2).toNat = min 150 (1 * 2 ^ (2 - 1)) :=
  ⟨(jitterWindow_spec (.fromMillis 50) (.fromMillis 150)).1 2 (by decide) (by decide) (by decide),
    (jitterWindow_spec oneAndAHalf (.fromMillis 150)).1 2 (by decide) (by decide) (by decide)⟩

/-- The documented window is missed in two ways.  At the twelfth attempt of a base delay of one
millisecond it is 2048 milliseconds, and the code's is 1024; at the second attempt of a base
delay of 1.5 milliseconds it is 3 milliseconds, and the code's is 2. -/
theorem jitterWindow_capped :
    ((jitterWindow (.fromMillis 1) (.fromMillis 10000) 12).toNat = 1024
      ∧ documentedWindow (.fromMillis 1) (.fromMillis 10000) 12 = 2048 * 1000000)
    ∧ (jitterWindow oneAndAHalf (.fromMillis 10000) 2).toNat = 2
      ∧ documentedWindow oneAndAHalf (.fromMillis 10000) 2 = 3 * 1000000 := by
  decide

/-- The attempts whose window is the documented one for the whole milliseconds: the first
eleven, and all if the largest delay is reached by then. -/
theorem jitterWindow_documented_iff {base max : Duration} {attempt : UInt32}
    (hattempt : 1 ≤ attempt) (hbase : base.asMillis < UInt64.size)
    (hmax : max.asMillis < UInt64.size) :
    (jitterWindow base max attempt).toNat
        = min max.asMillis (base.asMillis * 2 ^ (attempt.toNat - 1))
      ↔ attempt.toNat ≤ 11 ∨ base.asMillis = 0 ∨ max.asMillis ≤ base.asMillis * 2 ^ 10 := by
  rw [toNat_jitterWindow base max hattempt, Nat.mod_eq_of_lt hbase, Nat.mod_eq_of_lt hmax,
    backoffShift]
  by_cases hearly : attempt.toNat ≤ 11
  · rw [min_eq_left (Nat.sub_le_of_le_add hearly)]
    exact iff_of_true rfl (Or.inl hearly)
  · have hlate : 11 ≤ attempt.toNat - 1 := Nat.le_sub_one_of_lt (not_le.mp hearly)
    have hpow : 2 ^ 11 ≤ 2 ^ (attempt.toNat - 1) := Nat.pow_le_pow_right (by omega) hlate
    have hgrow : base.asMillis * 2 ^ 11 ≤ base.asMillis * 2 ^ (attempt.toNat - 1) :=
      Nat.mul_le_mul_left _ hpow
    rw [min_eq_right (Nat.le_of_succ_le hlate), or_iff_right hearly]
    rcases Nat.eq_zero_or_pos base.asMillis with hzero | hpos
    · rw [hzero, Nat.zero_mul, Nat.zero_mul]
      exact iff_of_true rfl (Or.inl rfl)
    · -- the product has doubled at least once since the cap
      generalize base.asMillis * 2 ^ (attempt.toNat - 1) = product at hgrow ⊢
      omega

/-! ## The sleeps of a run -/

section

variable {E T : Type} (outcome : ℕ → Except (RetryDecision E) T)

/-- A sleep is at most so long. -/
def RetryCall.SleepsWithin (max : Duration) : RetryCall → Prop
  | .sleep delay => delay.asNanos ≤ max.asNanos
  | _ => True

/-- The surroundings of `retry_with_backoff`, where nothing is demanded of its calls. -/
def retrySurroundings : Contract RetryCall (RetryCall.Reply E T) ℕ :=
  .alone (fun _ _ => True) (RetryCall.Step outcome)

/-- The surroundings with the demand that no sleep is longer than the largest delay. -/
abbrev sleepContract (config : RetryConfig) :
    Contract RetryCall (RetryCall.Reply E T)
      (ℕ × List (Entry RetryCall (RetryCall.Reply E T) ℕ)) :=
  (retrySurroundings outcome).logged fun c _ => RetryCall.SleepsWithin config.maxDelay c

theorem wp_backoff_sleeps (config : RetryConfig) (attempt : ℕ)
    (x : ℕ × List (Entry RetryCall (RetryCall.Reply E T) ℕ)) :
    wp (sleepContract outcome config) (config.backoff attempt : RetryProg E T Unit)
      (fun _ _ => True) x := by
  obtain ⟨k, log⟩ := x
  unfold RetryConfig.backoff
  dsimp only
  split
  · refine wp_alone_call ⟨trivial, trivial⟩ ?_
    rintro jitter k' ⟨hjitter, rfl⟩
    refine wp_alone_call ⟨trivial, ?_⟩ fun _ _ _ => wp_alone_ret trivial
    exact fromMillis_le _ _ _ hjitter
  · refine wp_alone_call ⟨trivial, ?_⟩ fun _ _ _ => wp_alone_ret trivial
    show (Duration.fromMillis 0).asNanos ≤ _
    exact Nat.zero_le _

-- what is known of a backoff is said by its lemma
attribute [local irreducible] RetryConfig.backoff

/-- **No sleep of a run is longer than the largest delay.** -/
theorem sleep_le_maxDelay (config : RetryConfig)
    {log : List (Entry RetryCall (RetryCall.Reply E T) ℕ)} {delay : Duration} {n : ℕ}
    {next : Unit → RetryProg E T (Except E T)}
    (h : config.retryWithBackoff.Reaches (retrySurroundings outcome) 0 log
      (.call (.sleep delay) next) n) :
    delay.asNanos ≤ config.maxDelay.asNanos := by
  suffices hwp : wp (sleepContract outcome config)
      (config.retryWithBackoff : RetryProg E T (Except E T)) (fun _ _ => True) (0, []) from
    (h.requires hwp).2
  refine wp_retryLoop (I := fun _ _ => True) (fun _ _ _ _ _ => trivial) ?_ ?_ ?_ trivial
  · rintro attempt ⟨k, log⟩ - - -
    refine wp_alone_call ⟨trivial, trivial⟩ fun result k' _ => wp_alone_ret ?_
    match result with
    | .ok value => trivial
    | .error (.failImmediately err) => trivial
    | .error (.retry err) =>
        rw [afterAttempt]
        split <;> trivial
  · intro attempt x _
    exact wp_backoff_sleeps outcome config attempt x
  · rintro ⟨k, log⟩ - -
    refine wp_alone_call ⟨trivial, trivial⟩ fun impossible _ _ => ?_
    cases impossible

end

end Lobby
