/-
# Retrying with backoff

`retry_with_backoff` over any set of calls: the operation runs up to `max_attempts + 1`
times, a backoff between two attempts, and an error marked as fatal ends it at once.
The rule `wp_retryLoop` proves a retried operation from an invariant indexed by the
number of the attempt.
-/
import Lobby.Interaction

namespace Lobby

open Interaction Prog

/-! ## Durations and the retry policy -/

/-- `std::time::Duration`: seconds in a `u64` and nanoseconds below one second. -/
structure Duration where
  secs : UInt64
  nanos : ℕ
  nanos_lt : nanos < 1000000000
  deriving DecidableEq

namespace Duration

/-- `Duration::from_millis`. -/
def fromMillis (ms : UInt64) : Duration where
  secs := ms / 1000
  nanos := ms.toNat % 1000 * 1000000
  nanos_lt := by omega

/-- `Duration::from_secs`. -/
def fromSecs (s : UInt64) : Duration := ⟨s, 0, by norm_num⟩

/-- `Duration::as_millis`, a `u128`. -/
def asMillis (d : Duration) : ℕ := d.secs.toNat * 1000 + d.nanos / 1000000

end Duration

structure RetryConfig where
  maxAttempts : UInt32
  baseDelay : Duration
  maxDelay : Duration
  deriving DecidableEq

/-- `RetryConfig::default`. -/
def RetryConfig.default : RetryConfig where
  maxAttempts := 2
  baseDelay := .fromMillis 50
  maxDelay := .fromMillis 150

/-- `u64::saturating_mul`. -/
def saturatingMul (a b : UInt64) : UInt64 :=
  if a.toNat * b.toNat < UInt64.size then a * b else UInt64.ofNat (UInt64.size - 1)

/-- The window, in milliseconds, that `jittered_delay` draws from. -/
def jitterWindow (base max : Duration) (attempt : UInt32) : UInt64 :=
  let shift := min (attempt - 1) 10
  min (saturatingMul (UInt64.ofNat base.asMillis) ((1 : UInt64) <<< shift.toUInt64))
    (UInt64.ofNat max.asMillis)

/-- `config.max_attempts + 1` on `u32`.  At the largest value it wraps to zero in a release
build and the loop runs into its `unreachable!`; a debug build panics on the addition. -/
def RetryConfig.maxTotal (config : RetryConfig) : UInt32 := config.maxAttempts + 1

theorem maxTotal_toNat {config : RetryConfig} (h : config.maxAttempts.toNat + 1 < UInt32.size) :
    config.maxTotal.toNat = config.maxAttempts.toNat + 1 := by
  rw [RetryConfig.maxTotal, UInt32.toNat_add]
  exact Nat.mod_eq_of_lt h

/-- Without room for one more, no attempt is left. -/
theorem maxTotal_eq_zero {config : RetryConfig}
    (h : ¬ config.maxAttempts.toNat + 1 < UInt32.size) : config.maxTotal.toNat = 0 := by
  have hlt : config.maxAttempts.toNat < UInt32.size := config.maxAttempts.toNat_lt_size
  have hsize : config.maxAttempts.toNat + 1 = 2 ^ 32 := by
    rw [show UInt32.size = 2 ^ 32 from rfl] at h hlt
    omega
  rw [RetryConfig.maxTotal, UInt32.toNat_add]
  exact (congrArg (· % 2 ^ 32) hsize).trans (Nat.mod_self _)

/-! ## The loop -/

/-- Whether an error is retried or ends the stage. -/
inductive RetryDecision (E : Type) : Type where
  | retry (error : E)
  | failImmediately (error : E)

section

variable {C : Type} {R : C → Type} {T E : Type}

/-- The loop `for attempt in 1..=max_total`, with the number of attempts that are left. -/
def retryLoop (backoff : ℕ → Prog C R Unit) (unreachable : Prog C R (Except E T))
    (operation : Prog C R (Except (RetryDecision E) T)) (maxTotal : ℕ) :
    ℕ → ℕ → Prog C R (Except E T)
  | 0, _ => unreachable
  | remaining + 1, attempt => do
    match ← operation with
    | .ok value => .ret (.ok value)
    | .error (.failImmediately err) => .ret (.error err)
    | .error (.retry err) =>
      if attempt = maxTotal then .ret (.error err)
      else do
        backoff attempt
        retryLoop backoff unreachable operation maxTotal remaining (attempt + 1)

/-- An attempt makes at most three calls: its operation, and a backoff of two. -/
theorem within_retryLoop {backoff : ℕ → Prog C R Unit} {unreachable : Prog C R (Except E T)}
    {operation : Prog C R (Except (RetryDecision E) T)} {maxTotal : ℕ}
    (hbackoff : ∀ attempt, (backoff attempt).Within 2) (hunreachable : unreachable.Within 1)
    (hoperation : operation.Within 1) (remaining attempt : ℕ) :
    (retryLoop backoff unreachable operation maxTotal remaining attempt).Within
      (3 * remaining + 1) := by
  induction remaining generalizing attempt with
  | zero => exact hunreachable
  | succ remaining ih =>
      refine (hoperation.bind (n := 3 * remaining + 3) fun result => ?_).mono (by omega)
      match result with
      | .ok value => exact within_ret _
      | .error (.failImmediately err) => exact within_ret _
      -- one operation and one backoff of two calls for each attempt
      | .error (.retry err) =>
          dsimp only
          split
          · exact within_ret _
          · exact ((hbackoff attempt).bind fun _ => ih (attempt + 1)).mono (by omega)

variable {W : Type*} {K : Contract C R W} {backoff : ℕ → Prog C R Unit}
  {unreachable : Prog C R (Except E T)}
  {operation : Prog C R (Except (RetryDecision E) T)} {maxTotal : ℕ}

/-- What has to hold after an attempt: the postcondition of the stage, or the invariant
of the next attempt. -/
def afterAttempt (I : ℕ → W → Prop) (Q : Except E T → W → Prop) (maxTotal attempt : ℕ) :
    Except (RetryDecision E) T → W → Prop
  | .ok value, w => Q (.ok value) w
  | .error (.failImmediately err), w => Q (.error err) w
  | .error (.retry err), w => if attempt = maxTotal then Q (.error err) w else I (attempt + 1) w

/-- **The rule for a retried operation.**  The induction is on the attempts that are left;
the invariant `I` carries the number of the current one, and `J` holds before the backoff. -/
theorem wp_retryLoop_backoff {I J : ℕ → W → Prop} {Q : Except E T → W → Prop}
    (hstable : ∀ a w w', Q a w → K.rely w w' → Q a w')
    (hoperation : ∀ attempt w, 1 ≤ attempt → attempt ≤ maxTotal → I attempt w →
      wp K operation (afterAttempt J Q maxTotal attempt) w)
    (hbackoff : ∀ attempt w, J (attempt + 1) w →
      wp K (backoff attempt) (fun _ => I (attempt + 1)) w)
    (hunreachable : ∀ w, maxTotal = 0 → I 1 w → wp K unreachable Q w)
    {w : W} (hI : I 1 w) :
    wp K (retryLoop backoff unreachable operation maxTotal maxTotal 1) Q w := by
  suffices hloop : ∀ remaining attempt w, attempt + remaining = maxTotal + 1 →
      1 ≤ attempt → (remaining = 0 → maxTotal = 0) → I attempt w →
      wp K (retryLoop backoff unreachable operation maxTotal remaining attempt) Q w from
    hloop maxTotal 1 w (by omega) le_rfl id hI
  intro remaining
  induction remaining with
  | zero =>
      -- no attempt was left at the start: `max_attempts + 1` has wrapped
      intro attempt w hsum hattempt hzero hI
      obtain rfl : attempt = 1 := by have := hzero rfl; omega
      exact hunreachable w (hzero rfl) hI
  | succ remaining ih =>
      intro attempt w hsum hattempt _ hI
      refine wp_seq (hoperation attempt w hattempt (by omega) hI) fun result w' hresult => ?_
      match result with
      | .ok value => exact wp_ret fun w'' hrely => hstable _ w' w'' hresult hrely
      | .error (.failImmediately err) =>
          exact wp_ret fun w'' hrely => hstable _ w' w'' hresult hrely
      | .error (.retry err) =>
          by_cases hlast : attempt = maxTotal
          · simp only [afterAttempt, hlast, if_true] at hresult ⊢
            exact wp_ret fun w'' hrely => hstable _ w' w'' hresult hrely
          · simp only [afterAttempt, hlast, if_false] at hresult ⊢
            refine wp_seq (hbackoff attempt w' hresult) fun _ w'' hnext => ?_
            exact ih (attempt + 1) w'' (by omega) (by omega) (by omega) hnext

/-- The rule with one invariant, which the backoff keeps. -/
theorem wp_retryLoop {I : ℕ → W → Prop} {Q : Except E T → W → Prop}
    (hstable : ∀ a w w', Q a w → K.rely w w' → Q a w')
    (hoperation : ∀ attempt w, 1 ≤ attempt → attempt ≤ maxTotal → I attempt w →
      wp K operation (afterAttempt I Q maxTotal attempt) w)
    (hbackoff : ∀ attempt w, I (attempt + 1) w →
      wp K (backoff attempt) (fun _ => I (attempt + 1)) w)
    (hunreachable : ∀ w, maxTotal = 0 → I 1 w → wp K unreachable Q w)
    {w : W} (hI : I 1 w) :
    wp K (retryLoop backoff unreachable operation maxTotal maxTotal 1) Q w :=
  wp_retryLoop_backoff hstable hoperation hbackoff hunreachable hI

end

end Lobby
