/-
# The calls of a retried operation

`retry_with_backoff` on its own, over an operation that is one call.  With fewer than
`u32::MAX` retries it makes exactly the calls up to the first outcome that is no retry, or
`max_attempts + 1` of them, with one sleep between two calls, and answers as the last one
does (`callsExactly_iff`).  At `u32::MAX` the bound of the loop wraps to zero: the operation
is never called and the loop runs into its `unreachable!`.
-/
import Lobby.RunLog
import Lobby.Pipeline

namespace Lobby

open Interaction Prog

/-! ## The function over its own calls -/

/-- What `retry_with_backoff` asks of its surroundings. -/
inductive RetryCall : Type where
  | operation
  | genRange (window : UInt64)
  | sleep (delay : Duration)
  | unreachable (message : String)
  deriving DecidableEq

/-- The replies. -/
@[reducible]
def RetryCall.Reply (E T : Type) : RetryCall → Type
  | .operation => Except (RetryDecision E) T
  | .genRange _ => UInt64
  | .sleep _ => Unit
  | .unreachable _ => Empty

abbrev RetryProg (E T α : Type) : Type := Prog RetryCall (RetryCall.Reply E T) α

/-- Make one call. -/
abbrev RetryCall.ask {E T : Type} (c : RetryCall) : RetryProg E T (c.Reply E T) := perform c

namespace RetryConfig

variable {E T : Type} (config : RetryConfig)

/-- `jittered_delay` and the sleep that follows it. -/
def backoff (attempt : ℕ) : RetryProg E T Unit := do
  let window := jitterWindow config.baseDelay config.maxDelay (UInt32.ofNat attempt)
  if window > 0 then do
    let jitter ← (RetryCall.genRange window).ask
    (RetryCall.sleep (.fromMillis jitter)).ask
  else (RetryCall.sleep (.fromMillis 0)).ask

/-- `unreachable!("retry loop exited without returning")`. -/
def exitedLoop : RetryProg E T (Except E T) := do
  let impossible ← (RetryCall.unreachable "retry loop exited without returning").ask
  nomatch impossible

/-- `retry_with_backoff`. -/
def retryWithBackoff : RetryProg E T (Except E T) :=
  retryLoop config.backoff exitedLoop RetryCall.operation.ask config.maxTotal.toNat
    config.maxTotal.toNat 1

end RetryConfig

/-! ## The retried stages of a pipeline -/

/-- The calls of `retry_with_backoff` as calls of a pipeline. -/
def RetryCall.ofPipeline {E T : Type} (operation : PipelineProg (Except (RetryDecision E) T)) :
    (c : RetryCall) → PipelineProg (c.Reply E T)
  | .operation => operation
  | .genRange window => (PipelineCall.genRange window).ask
  | .sleep delay => (PipelineCall.sleep delay).ask
  | .unreachable message => (PipelineCall.unreachable message).ask

theorem interp_backoff {E T : Type} (ctx : PipelineContext)
    (operation : PipelineProg (Except (RetryDecision E) T)) (attempt : ℕ) :
    (ctx.retryConfig.backoff attempt : RetryProg E T Unit).interp
      (RetryCall.ofPipeline operation) = ctx.backoff attempt := by
  unfold RetryConfig.backoff PipelineContext.backoff
  dsimp only
  split <;> rfl

-- what is known of a backoff is said by its lemmas
attribute [local irreducible] RetryConfig.backoff

/-- **A retried stage is `retry_with_backoff` of its operation.** -/
theorem interp_retryWithBackoff {E T : Type} (ctx : PipelineContext)
    (operation : PipelineProg (Except (RetryDecision E) T)) :
    (ctx.retryConfig.retryWithBackoff : RetryProg E T (Except E T)).interp
      (RetryCall.ofPipeline operation) = ctx.retryWithBackoff operation := by
  unfold RetryConfig.retryWithBackoff PipelineContext.retryWithBackoff
  generalize ctx.retryConfig.maxTotal.toNat = maxTotal
  suffices hloop : ∀ remaining attempt,
      (retryLoop ctx.retryConfig.backoff RetryConfig.exitedLoop RetryCall.operation.ask
        maxTotal remaining attempt : RetryProg E T (Except E T)).interp
          (RetryCall.ofPipeline operation)
        = retryLoop ctx.backoff PipelineContext.exitedLoop operation maxTotal remaining
          attempt from hloop maxTotal 1
  intro remaining
  induction remaining with
  | zero =>
      intro attempt
      refine congrArg (call _) (funext fun impossible => ?_)
      cases impossible
  | succ remaining ih =>
      intro attempt
      refine congrArg (operation >>= ·) (funext fun result => ?_)
      match result with
      | .ok value => rfl
      | .error (.failImmediately err) => rfl
      | .error (.retry err) =>
          by_cases hlast : attempt = maxTotal
          · simp only [hlast, if_true]
            rfl
          · simp only [hlast, if_false]
            show (ctx.retryConfig.backoff attempt >>= fun _ => _).interp _ = _
            rw [interp_bind, interp_backoff]
            exact congrArg (ctx.backoff attempt >>= ·) (funext fun _ => ih (attempt + 1))

/-! ## An operation with given outcomes -/

section

variable {E T : Type} (outcome : ℕ → Except (RetryDecision E) T)

/-- The operation answers its `i`-th call with the `i`-th outcome; the world counts its
calls.  The generator draws any number up to the window. -/
def RetryCall.Step : (c : RetryCall) → ℕ → c.Reply E T → ℕ → Prop
  | .operation, n, reply, n' => reply = outcome (n + 1) ∧ n' = n + 1
  | .genRange window, n, jitter, n' => jitter ≤ window ∧ n' = n
  | _, n, _, n' => n' = n

/-- The surroundings of `retry_with_backoff`, which may not run into `unreachable!`. -/
def retryContract : Contract RetryCall (RetryCall.Reply E T) ℕ :=
  .alone (fun c _ => ∀ message, c ≠ .unreachable message) (RetryCall.Step outcome)

/-- Whether a call is the operation. -/
def RetryCall.isOperation : RetryCall → Bool
  | .operation => true
  | _ => false

def RetryCall.isSleep : RetryCall → Bool
  | .sleep _ => true
  | _ => false

/-- How often a kind of call was made. -/
def countCalls (kind : RetryCall → Bool)
    (log : List (Entry RetryCall (RetryCall.Reply E T) ℕ)) : ℕ :=
  log.countP fun entry => kind entry.call

/-- What the last call answers, as the reply of the whole. -/
def RetryDecision.result : Except (RetryDecision E) T → Except E T
  | .ok value => .ok value
  | .error (.failImmediately err) => .error err
  | .error (.retry err) => .error err

/-- The call after which there is no other: the first whose outcome is no retry, or the one
that uses up `max_attempts + 1`. -/
structure RetryConfig.StopsAt (config : RetryConfig) (k : ℕ) : Prop where
  pos : 1 ≤ k
  le : k ≤ config.maxAttempts.toNat + 1
  retried : ∀ i, 1 ≤ i → i < k → ∃ err, outcome i = .error (.retry err)
  last : k = config.maxAttempts.toNat + 1 ∨ ∀ err, outcome k ≠ .error (.retry err)

/-- A run exists, and every run makes the calls up to the last one, sleeps between any two of
them, answers as the last one does, and does not run into `unreachable!`. -/
def RetryConfig.CallsExactly (config : RetryConfig) : Prop :=
  ∃ k, config.StopsAt outcome k
    ∧ (∃ log n, config.retryWithBackoff.Reaches (retryContract outcome) 0 log
        (.ret (RetryDecision.result (outcome k))) n)
    ∧ (∀ log result n,
        config.retryWithBackoff.Reaches (retryContract outcome) 0 log (.ret result) n →
        countCalls RetryCall.isOperation log = k ∧ countCalls RetryCall.isSleep log = k - 1
          ∧ result = RetryDecision.result (outcome k))
    ∧ ∀ log message next n, ¬ config.retryWithBackoff.Reaches (retryContract outcome) 0 log
        (.call (.unreachable message) next) n

/-! ## Counting -/

/-- What has been called and slept so far. -/
structure Tally (n sleeps : ℕ) (x : ℕ × List (Entry RetryCall (RetryCall.Reply E T) ℕ)) :
    Prop where
  calls : x.1 = n
  operations : countCalls RetryCall.isOperation x.2 = n
  sleeps : countCalls RetryCall.isSleep x.2 = sleeps

/-- Every outcome before the `k`-th is a retry. -/
def Retried (k : ℕ) : Prop :=
  ∀ i, 1 ≤ i → i < k → ∃ err, outcome i = .error (.retry err)

variable {outcome} {config : RetryConfig} {k l n sleeps : ℕ}
  {log : List (Entry RetryCall (RetryCall.Reply E T) ℕ)}

theorem Retried.succ (h : Retried outcome k) {err : E}
    (hk : outcome k = .error (.retry err)) : Retried outcome (k + 1) := by
  intro i hpos hlt
  rcases Nat.lt_succ_iff_lt_or_eq.mp hlt with hlt | rfl
  · exact h i hpos hlt
  · exact ⟨err, hk⟩

/-- An earlier end would have ended the later one. -/
theorem RetryConfig.StopsAt.le_of_stops (hk : config.StopsAt outcome k)
    (hl : config.StopsAt outcome l) : l ≤ k := by
  by_contra! hlt
  rcases hk.last with hlast | hlast
  · have hle := hl.le
    omega
  · obtain ⟨err, herr⟩ := hl.retried k hk.pos hlt
    exact hlast err herr

theorem RetryConfig.StopsAt.unique (hk : config.StopsAt outcome k)
    (hl : config.StopsAt outcome l) : k = l :=
  (hl.le_of_stops hk).antisymm (hk.le_of_stops hl)

@[simp] theorem countCalls_cons (kind : RetryCall → Bool)
    (entry : Entry RetryCall (RetryCall.Reply E T) ℕ) :
    countCalls kind (entry :: log) = countCalls kind log + if kind entry.call then 1 else 0 :=
  List.countP_cons

theorem Tally.operation (h : Tally n sleeps (k, log)) (r : Except (RetryDecision E) T)
    (before : ℕ) : Tally (n + 1) sleeps (k + 1, ⟨.operation, r, before⟩ :: log) :=
  ⟨congrArg (· + 1) h.calls, by rw [countCalls_cons, h.operations]; rfl, h.sleeps⟩

theorem Tally.genRange (h : Tally n sleeps (k, log)) (window jitter : UInt64) (before : ℕ) :
    Tally n sleeps (k, ⟨.genRange window, jitter, before⟩ :: log) :=
  ⟨h.calls, h.operations, h.sleeps⟩

theorem Tally.sleep (h : Tally n sleeps (k, log)) (delay : Duration) (r : Unit) (before : ℕ) :
    Tally n (sleeps + 1) (k, ⟨.sleep delay, r, before⟩ :: log) :=
  ⟨h.calls, h.operations, by rw [countCalls_cons, h.sleeps]; rfl⟩

/-! ## The calls of a run -/

/-- Every call but `unreachable!` can be answered. -/
theorem RetryCall.exists_step (c : RetryCall) (n : ℕ) (h : ∀ message, c ≠ .unreachable message) :
    ∃ (r : c.Reply E T) (n' : ℕ), RetryCall.Step outcome c n r n' := by
  cases c with
  | operation => exact ⟨outcome (n + 1), n + 1, rfl, rfl⟩
  | genRange window => exact ⟨window, n, UInt64.le_refl window, rfl⟩
  | sleep delay => exact ⟨(), n, rfl⟩
  | unreachable message => exact absurd rfl (h message)

/-- A backoff sleeps once. -/
theorem wp_backoff_tally (config : RetryConfig) (attempt : ℕ) (h : Tally n sleeps (k, log)) :
    wp ((retryContract outcome).logged noDemand) (config.backoff attempt)
      (fun _ => Tally n (sleeps + 1)) (k, log) := by
  have hsleep : ∀ delay log, Tally n sleeps (k, log) →
      wp ((retryContract outcome).logged noDemand) (RetryCall.sleep delay).ask
        (fun _ => Tally n (sleeps + 1)) (k, log) := by
    intro delay log h
    refine wp_alone_call ⟨nofun, trivial⟩ fun r k' hk' => wp_alone_ret ?_
    obtain rfl : k' = k := hk'
    exact h.sleep delay r _
  unfold RetryConfig.backoff
  dsimp only
  split
  · refine wp_alone_call ⟨nofun, trivial⟩ ?_
    rintro jitter k' ⟨_, rfl⟩
    exact hsleep _ _ (h.genRange _ jitter _)
  · exact hsleep _ _ h

/-- The calls of a run, when the bound of the loop has not wrapped: each attempt but the last
is retried, after one sleep. -/
theorem wp_retryWithBackoff_tally (outcome : ℕ → Except (RetryDecision E) T)
    (htotal : config.maxTotal.toNat = config.maxAttempts.toNat + 1) :
    wp ((retryContract outcome).logged noDemand)
      (config.retryWithBackoff : RetryProg E T (Except E T))
      (fun result x => ∃ n, config.StopsAt outcome (n + 1) ∧ Tally (n + 1) n x
        ∧ result = RetryDecision.result (outcome (n + 1))) (0, []) := by
  refine wp_retryLoop_backoff
    (I := fun attempt x => ∃ n, attempt = n + 1 ∧ Tally n n x ∧ Retried outcome (n + 1))
    (J := fun attempt x => ∃ n, attempt = n + 2 ∧ Tally (n + 1) n x ∧ Retried outcome (n + 2))
    ?_ ?_ ?_ ?_ ⟨0, rfl, ⟨rfl, rfl, rfl⟩, fun i hpos hlt => by omega⟩
  · intro result x x' h hrely
    rwa [eq_of_rely_alone hrely]
  · rintro attempt ⟨k, log⟩ - hle ⟨n, rfl, htally, hretried⟩
    refine wp_alone_call ⟨nofun, trivial⟩ ?_
    rintro result k' ⟨hresult, rfl⟩
    refine wp_alone_ret ?_
    obtain rfl : k = n := htally.calls
    have htally' := htally.operation result k
    -- the attempt is the last, unless it is to be retried and the bound is not reached
    match result with
    | .ok value =>
        refine ⟨k, ⟨by omega, by omega, hretried, Or.inr fun err herr => ?_⟩, htally', ?_⟩
        · cases hresult.trans herr
        · rw [← hresult]
          rfl
    | .error (.failImmediately err) =>
        refine ⟨k, ⟨by omega, by omega, hretried, Or.inr fun err' herr => ?_⟩, htally', ?_⟩
        · cases hresult.trans herr
        · rw [← hresult]
          rfl
    | .error (.retry err) =>
        unfold afterAttempt
        dsimp only
        split
        · refine ⟨k, ⟨by omega, by omega, hretried, Or.inl (by omega)⟩, htally', ?_⟩
          rw [← hresult]
          rfl
        · exact ⟨k, rfl, htally', hretried.succ hresult.symm⟩
  · rintro attempt ⟨k, log⟩ ⟨n, hattempt, htally, hretried⟩
    refine wp_mono (wp_backoff_tally config attempt htally) fun _ x htally' => ?_
    exact ⟨n + 1, hattempt, htally', hretried⟩
  · intro x hzero
    omega

/-- **`retry_with_backoff` is exact** for fewer than `u32::MAX` retries, and only then. -/
theorem callsExactly_iff (config : RetryConfig) (outcome : ℕ → Except (RetryDecision E) T) :
    config.CallsExactly outcome ↔ config.maxAttempts.toNat + 1 < UInt32.size := by
  constructor
  · rintro ⟨k, -, -, -, hunreachable⟩
    by_contra hmax
    -- the loop has no attempt, so the first call is `unreachable!`
    have hprog : (config.retryWithBackoff : RetryProg E T (Except E T))
        = RetryConfig.exitedLoop := by
      unfold RetryConfig.retryWithBackoff
      rw [maxTotal_eq_zero hmax]
      rfl
    rw [hprog] at hunreachable
    exact hunreachable [] "retry loop exited without returning" _ 0 .start
  · intro hmax
    have hwp := wp_retryWithBackoff_tally outcome (maxTotal_toNat hmax)
    have hended : ∀ log result n,
        config.retryWithBackoff.Reaches (retryContract outcome) 0 log (.ret result) n →
        ∃ n, config.StopsAt outcome (n + 1) ∧ countCalls RetryCall.isOperation log = n + 1
          ∧ countCalls RetryCall.isSleep log = n
          ∧ result = RetryDecision.result (outcome (n + 1)) := by
      intro log result _ hreach
      obtain ⟨n, hstops, htally, hresult⟩ := hreach.ended hwp
      exact ⟨n, hstops, htally.operations, htally.sleeps, hresult⟩
    obtain ⟨log, result, m, hrun⟩ := exists_run (fun c n => RetryCall.exists_step c n) hwp
    obtain ⟨n, hstops, -, -, rfl⟩ := hended log result m hrun
    refine ⟨n + 1, hstops, ⟨log, m, hrun⟩, fun log' result' m' hrun' => ?_, ?_⟩
    · obtain ⟨n', hstops', hoperations, hsleeps, hresult⟩ := hended log' result' m' hrun'
      obtain rfl : n = n' := Nat.succ.inj (hstops.unique hstops')
      exact ⟨hoperations, hsleeps, hresult⟩
    · intro log' message next m' hreach
      exact (hreach.requires hwp).1 message rfl

/-- At `u32::MAX` retries an operation that would succeed at once is never called: the first
call is `unreachable!`. -/
theorem not_callsExactly_max :
    ¬ (⟨4294967295, .fromMillis 50, .fromMillis 150⟩ : RetryConfig).CallsExactly
      (fun _ => (.ok () : Except (RetryDecision String) Unit)) := by
  rintro ⟨k, -, -, -, hunreachable⟩
  exact hunreachable [] "retry loop exited without returning" _ 0 .start

end

end Lobby
