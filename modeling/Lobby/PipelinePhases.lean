/-
# The phases of a pipeline

The control points of `run_pipeline`, with the calls made at each of them and the control
point each reply leads to.  This is the abstract machine behind the program: a family of
assertions, one for each phase, that every call keeps is an outline of the whole run
(`wp_runPipeline`).  Later proofs are about phases and calls, not about the program text.

Waiting, drawing a random number and telemetry happen in any phase and change none.  The
`unreachable!` behind a retry loop is reached only when `max_attempts + 1` has wrapped.
-/
import Lobby.Pipeline

namespace Lobby

open Interaction Prog PipelineContext

/-- The control points of a run.  A phase with a retried call carries the number of the
attempt. -/
inductive Phase : Type where
  | registering (attempt : ℕ)
  | registered
  | reserving (attempt : ℕ)
  | reserved (nonce : TxNonce)
  | signing (nonce : TxNonce) (attempt : ℕ)
  | signed (nonce : TxNonce) (txn : SignedTransaction)
  | acquiring (nonce : TxNonce) (txn : SignedTransaction)
  /-- a broadcast round; `recoveries` counts the recoveries that are left -/
  | sending (recoveries : ℕ) (nonce : TxNonce) (txn : SignedTransaction) (attempt : ℕ)
  | mismatch (nonce nonceOnChain attemptedNonce : TxNonce)
  | consuming (nonce nonceOnChain : TxNonce) (attempt : ℕ)
  | reverting (nonceOnChain : TxNonce) (attempt : ℕ)
  | syncing (nonceOnChain : TxNonce) (attempt : ℕ)
  | synced (nonce : TxNonce)
  | resigning (nonce : TxNonce) (attempt : ℕ)
  | resigned (nonce : TxNonce) (txn : SignedTransaction)
  | broadcasted (nonce : TxNonce) (txHash : TxHash)
  | validating (nonce : TxNonce) (txHash : TxHash)
  | finalizing (nonce : TxNonce) (txHash : TxHash) (attempt : ℕ)
  | confirmed (nonce : TxNonce) (txHash : TxHash)
  | retiring (nonce : TxNonce) (attempt : ℕ)
  | timedOut (nonce : TxNonce)
  | releasing (nonce : TxNonce) (status : PipelineStatus) (attempt : ℕ)
  | failing (status : PipelineStatus)
  | ended

namespace Phase

/-- The phase after an attempt of a retried call. -/
def attempted {T E : Type} (maxTotal : ℕ) (stage : ℕ → Phase) (attempt : ℕ)
    (onOk : T → Phase) (onError : E → Phase) : Except (RetryDecision E) T → Phase
  | .ok value => onOk value
  | .error (.failImmediately err) => onError err
  | .error (.retry err) => if attempt = maxTotal then onError err else stage (attempt + 1)

/-- What holds of the phase after an attempt. -/
theorem attempted_of {H : Phase → Prop} {T E : Type} {maxTotal attempt : ℕ}
    {stage : ℕ → Phase} {onOk : T → Phase} {onError : E → Phase}
    {r : Except (RetryDecision E) T} (hstage : ∀ k, H (stage k))
    (hok : ∀ value, r = .ok value → H (onOk value))
    (herror : ∀ err, r = .error (.failImmediately err) ∨ r = .error (.retry err) →
      H (onError err)) :
    H (attempted maxTotal stage attempt onOk onError r) := by
  match r with
  | .ok value => exact hok value rfl
  | .error (.failImmediately err) => exact herror err (Or.inl rfl)
  | .error (.retry err) =>
      rw [attempted]
      split
      · exact herror err (Or.inr rfl)
      · exact hstage _

/-- The phase after the last attempt of a retried call. -/
def settled {T E : Type} (onOk : T → Phase) (onError : E → Phase) : Except E T → Phase
  | .ok value => onOk value
  | .error err => onError err

/-- The phase after a broadcast round that failed for good. -/
def afterBroadcastError (recoveries : ℕ) (nonce : TxNonce) : BroadcastError → Phase
  | .nonceTooLow nonceOnChain attemptedNonce =>
      if recoveries = 0 then
        .releasing nonce
          (CortexError.broadcast (.nonceTooLow nonceOnChain attemptedNonce)).status 1
      else .mismatch nonce nonceOnChain attemptedNonce
  | err =>
      if keepsNonce err then .failing (CortexError.broadcast err).status
      else .releasing nonce (CortexError.broadcast err).status 1

/-- After a nonce mismatch: the pipeline ends when it has recovered once, and recovers before. -/
theorem afterBroadcastError_of {H : Phase → Prop} {recoveries : ℕ} {nonce m n : TxNonce}
    (hreleasing : recoveries = 0 →
      H (.releasing nonce (CortexError.broadcast (.nonceTooLow m n)).status 1))
    (hmismatch : recoveries ≠ 0 → H (.mismatch nonce m n)) :
    H (afterBroadcastError recoveries nonce (.nonceTooLow m n)) := by
  rw [afterBroadcastError]
  split
  · next hzero => exact hreleasing hzero
  · next hne => exact hmismatch hne

/-- The phase after the validator's verdict. -/
def afterValidation (nonce : TxNonce) (txHash : TxHash) :
    Except ValidatorError ValidatorOutcome → Phase
  | .error (.database err) => .failing (CortexError.validator (.database err)).status
  | .error (.internal message) => .failing (CortexError.validator (.internal message)).status
  | .error err => .releasing nonce (CortexError.validator err).status 1
  | .ok (.included _ _) => .finalizing nonce txHash 1
  | .ok .notIncluded =>
      .releasing nonce
        (.failed "validator" ("tx " ++ lowerHex txHash.bytes ++ " not included on-chain")) 1
  | .ok .timeout => .retiring nonce 1

end Phase

open Phase

/-- The calls a run makes at each phase, with the phase each reply leads to. -/
inductive Calls (ctx : PipelineContext) :
    Phase → (c : PipelineCall) → (c.Reply → Phase) → Prop where
  | genRange (p window) : Calls ctx p (.genRange window) fun _ => p
  | sleep (p delay) : Calls ctx p (.sleep delay) fun _ => p
  | telemetry (p call) : Calls ctx p (.telemetry ctx.executionId call) fun _ => p
  | unreachable (p message) (hzero : ctx.retryConfig.maxTotal.toNat = 0) :
      Calls ctx p (.unreachable message) fun _ => p
  | register (attempt) : Calls ctx (.registering attempt)
      (.registerTransaction ctx.executionId ctx.txn ctx.clientConfig) fun reply =>
        attempted ctx.retryConfig.maxTotal.toNat .registering attempt
          (fun _ => .registered) (fun err => .failing (CortexError.relayHost err).status)
          (retryAll reply)
  | accept : Calls ctx .registered (.setStatus ctx.executionId .accepted)
      fun _ => .reserving 1
  | reserve (attempt) : Calls ctx (.reserving attempt)
      (.reserve ctx.txn.chainId ctx.clientConfig.fromAddress ctx.executionId) fun reply =>
        attempted ctx.retryConfig.maxTotal.toNat .reserving attempt .reserved
          (fun err => .failing (CortexError.nonceReservation err).status) (retryAll reply)
  | showReserved (nonce) : Calls ctx (.reserved nonce)
      (.setStatus ctx.executionId .nonceReserved) fun _ => .signing nonce 1
  | sign (nonce attempt) : Calls ctx (.signing nonce attempt)
      (.sign ctx.txn.chainId ctx.clientConfig.fromAddress ctx.executionId
        { ctx.txn with nonce := nonce }) fun reply =>
        attempted ctx.retryConfig.maxTotal.toNat (.signing nonce) attempt
          (.signed nonce) (fun err => .releasing nonce (CortexError.sign err).status 1)
          (retryAll reply)
  | showSigned (nonce txn) : Calls ctx (.signed nonce txn)
      (.setStatus ctx.executionId .signed) fun _ => .acquiring nonce txn
  | acquire (nonce txn) : Calls ctx (.acquiring nonce txn)
      (.acquireHealthyEndpoint ctx.txn.chainId (.fromSecs 30)) fun reply =>
        match reply with
        | .ok (some _) => .sending 1 nonce txn 1
        | .ok none => .releasing nonce (CortexError.noHealthyRpcProvider
            (.noEndpointsAvailable ctx.txn.chainId)).status 1
        | .error err => .releasing nonce (CortexError.endpointPoolFailed err).status 1
  | broadcast (recoveries nonce txn attempt stickyIndex) :
      Calls ctx (.sending recoveries nonce txn attempt)
        (.broadcast ctx.txn.chainId ctx.clientConfig.fromAddress ctx.executionId txn
          stickyIndex) fun reply =>
          attempted ctx.retryConfig.maxTotal.toNat (.sending recoveries nonce txn) attempt
            (fun outcome => .broadcasted nonce outcome.txnHash)
            (afterBroadcastError recoveries nonce) (broadcastDecision reply)
  | showMismatch (nonce nonceOnChain attemptedNonce) :
      Calls ctx (.mismatch nonce nonceOnChain attemptedNonce)
        (.setStatus ctx.executionId (.nonceMismatchDetected nonceOnChain attemptedNonce))
        fun _ => .consuming nonce nonceOnChain 1
  | consume (nonce nonceOnChain attempt) : Calls ctx (.consuming nonce nonceOnChain attempt)
      (.resolve ctx.executionId .consumed) fun reply =>
        attempted ctx.retryConfig.maxTotal.toNat (.consuming nonce nonceOnChain) attempt
          (fun _ => .reverting nonceOnChain 1) (fun _ => .reverting nonceOnChain 1)
          (retryAll reply)
  | revert (nonceOnChain attempt) : Calls ctx (.reverting nonceOnChain attempt)
      (.revert ctx.executionId) fun reply =>
        attempted ctx.retryConfig.maxTotal.toNat (.reverting nonceOnChain) attempt
          (fun _ => .syncing nonceOnChain 1) (fun _ => .syncing nonceOnChain 1)
          (retryAll reply)
  | sync (nonceOnChain attempt) : Calls ctx (.syncing nonceOnChain attempt)
      (.sync ctx.txn.chainId ctx.clientConfig.fromAddress ctx.executionId nonceOnChain)
      fun reply =>
        attempted ctx.retryConfig.maxTotal.toNat (.syncing nonceOnChain) attempt .synced
          (fun err => .failing (CortexError.nonceSync err).status) (retryAll reply)
  | showSynced (nonce) : Calls ctx (.synced nonce)
      (.setStatus ctx.executionId .nonceReserved) fun _ => .resigning nonce 1
  | resign (nonce attempt) : Calls ctx (.resigning nonce attempt)
      (.sign ctx.txn.chainId ctx.clientConfig.fromAddress ctx.executionId
        { ctx.txn with nonce := nonce }) fun reply =>
        attempted ctx.retryConfig.maxTotal.toNat (.resigning nonce) attempt
          (.resigned nonce) (fun err => .releasing nonce (CortexError.reSign err).status 1)
          (retryAll reply)
  | showResigned (nonce txn) : Calls ctx (.resigned nonce txn)
      (.setStatus ctx.executionId .signed) fun _ => .sending 0 nonce txn 1
  | showBroadcasted (nonce txHash) : Calls ctx (.broadcasted nonce txHash)
      (.setStatus ctx.executionId
        (.broadcasted (lowerHex txHash.bytes) "Waiting for validation on-chain"))
      fun _ => .validating nonce txHash
  | validate (nonce txHash stickyIndex) : Calls ctx (.validating nonce txHash)
      (.validate ctx.txn.chainId ctx.executionId txHash stickyIndex)
      (afterValidation nonce txHash)
  | finalize (nonce txHash attempt) : Calls ctx (.finalizing nonce txHash attempt)
      (.resolve ctx.executionId .finalized) fun reply =>
        attempted ctx.retryConfig.maxTotal.toNat (.finalizing nonce txHash) attempt
          (fun _ => .confirmed nonce txHash) (fun _ => .confirmed nonce txHash)
          (retryAll reply)
  | showConfirmed (nonce txHash) : Calls ctx (.confirmed nonce txHash)
      (.setStatus ctx.executionId (.confirmedOnChain (lowerHex txHash.bytes)))
      fun _ => .ended
  | retire (nonce attempt) : Calls ctx (.retiring nonce attempt)
      (.resolve ctx.executionId .consumed) fun reply =>
        attempted ctx.retryConfig.maxTotal.toNat (.retiring nonce) attempt
          (fun _ => .timedOut nonce) (fun _ => .timedOut nonce) (retryAll reply)
  | showTimedOut (nonce) : Calls ctx (.timedOut nonce)
      (.setStatus ctx.executionId
        (.validatorTimedOut "validator timed out, wait for confirmation"))
      fun _ => .ended
  | release (nonce status attempt) : Calls ctx (.releasing nonce status attempt)
      (.resolve ctx.executionId .released) fun reply =>
        attempted ctx.retryConfig.maxTotal.toNat (.releasing nonce status) attempt
          (fun _ => .failing status) (fun _ => .failing status) (retryAll reply)
  | fail (status) : Calls ctx (.failing status) (.setStatus ctx.executionId status)
      fun _ => .ended

/-- An outline: one assertion for each phase, kept by interference and by the calls. -/
structure Outline {W : Type*} (E : Contract PipelineCall PipelineCall.Reply W)
    (ctx : PipelineContext) (holds : Phase → W → Prop) : Prop where
  stable : ∀ {p w w'}, holds p w → E.rely w w' → holds p w'
  call : ∀ {p c next w}, Calls ctx p c next → holds p w →
    E.requires c w ∧ ∀ r w', E.step c w r w' → holds (next r) w'

namespace Outline

variable {W : Type*} {E : Contract PipelineCall PipelineCall.Reply W}
  {ctx : PipelineContext} {holds : Phase → W → Prop} {w : W}

section

variable (h : Outline E ctx holds)

include h

/-- One call of the program is one step of the phases. -/
theorem wp_ask {p : Phase} {c : PipelineCall} {next : c.Reply → Phase}
    (hcall : Calls ctx p c next) (hw : holds p w) :
    wp E c.ask (fun r w' => holds (next r) w') w := by
  refine wp_call fun w₁ hrely => ?_
  obtain ⟨hreq, hstep⟩ := h.call hcall (h.stable hw hrely)
  refine ⟨hreq, fun r w₂ hr => wp_ret fun w₃ hrely' => ?_⟩
  exact h.stable (hstep r w₂ hr) hrely'

theorem wp_done {α : Type} {p : Phase} {a : α} (hw : holds p w) :
    wp E (.ret a : PipelineProg α) (fun _ => holds p) w :=
  wp_ret fun _ hrely => h.stable hw hrely

theorem wp_record {p : Phase} (call : TelemetryCall) (hw : holds p w) :
    wp E (ctx.record call) (fun _ => holds p) w := by
  unfold record
  split
  · exact h.wp_ask (.telemetry p call) hw
  · exact h.wp_done hw

theorem wp_backoff {p : Phase} (attempt : ℕ) (hw : holds p w) :
    wp E (ctx.backoff attempt) (fun _ => holds p) w := by
  rw [backoff]
  split
  · refine wp_seq (h.wp_ask (.genRange p _) hw) fun jitter w' hw' => ?_
    exact h.wp_ask (.sleep p _) hw'
  · exact h.wp_ask (.sleep p _) hw

/-- The end of the loop is reached when the number of attempts has wrapped to zero. -/
theorem wp_exitedLoop {α : Type} {p : Phase} {Q : α → W → Prop}
    (hzero : ctx.retryConfig.maxTotal.toNat = 0) (hw : holds p w) :
    wp E exitedLoop Q w := by
  unfold exitedLoop
  exact wp_seq (h.wp_ask (.unreachable p _ hzero) hw) fun impossible => nomatch impossible

/-- A retried operation goes through the attempts of its stage. -/
theorem wp_retryWithBackoff {T F : Type} (stage : ℕ → Phase) (onOk : T → Phase)
    (onError : F → Phase) {operation : PipelineProg (Except (RetryDecision F) T)}
    (hoperation : ∀ attempt w, holds (stage attempt) w →
      wp E operation (fun r w' =>
        holds (attempted ctx.retryConfig.maxTotal.toNat stage attempt onOk onError r)
          w') w)
    (hw : holds (stage 1) w) :
    wp E (ctx.retryWithBackoff operation)
      (fun r w' => holds (settled onOk onError r) w') w := by
  refine wp_retryLoop (I := fun attempt => holds (stage attempt)) ?_ ?_ ?_ ?_ hw
  · intro r w w' hr hrely
    exact h.stable hr hrely
  · intro attempt w _ _ hI
    refine wp_mono (hoperation attempt w hI) fun r w' hr => ?_
    -- what the loop does with the reply is what the phase does
    match r with
    | .ok value => exact hr
    | .error (.failImmediately err) => exact hr
    | .error (.retry err) =>
        simp only [attempted, afterAttempt] at hr ⊢
        split at hr
        · rwa [if_pos ‹_›]
        · rwa [if_neg ‹_›]
  · intro attempt w hI
    exact h.wp_backoff attempt hI
  · intro w hzero hI
    exact h.wp_exitedLoop hzero hI

/-- A call all of whose errors are retried. -/
theorem wp_retryCall {T F : Type} {stage : ℕ → Phase} {onOk : T → Phase}
    {onError : F → Phase} {operation : PipelineProg (Except F T)}
    (hoperation : ∀ attempt w, holds (stage attempt) w →
      wp E operation (fun r w' =>
        holds (attempted ctx.retryConfig.maxTotal.toNat stage attempt onOk onError
          (retryAll r)) w') w)
    (hw : holds (stage 1) w) :
    wp E (ctx.retryCall operation)
      (fun r w' => holds (settled onOk onError r) w') w := by
  refine h.wp_retryWithBackoff stage onOk onError (fun attempt w hI => ?_) hw
  refine wp_seq (hoperation attempt w hI) fun r w' hr => ?_
  exact wp_ret fun _ hrely => h.stable hr hrely

/-- A resolve whose failures are logged only. -/
theorem wp_resolveNonce {stage : ℕ → Phase} {p : Phase} {s : NonceState}
    (hcall : ∀ attempt, Calls ctx (stage attempt) (.resolve ctx.executionId s) fun reply =>
      attempted ctx.retryConfig.maxTotal.toNat stage attempt (fun _ => p)
        (fun _ => p) (retryAll reply))
    (hw : holds (stage 1) w) :
    wp E (ctx.resolveNonce s) (fun _ => holds p) w := by
  unfold resolveNonce
  refine wp_seq (h.wp_retryCall (fun attempt w hI => h.wp_ask (hcall attempt) hI) hw) ?_
  intro r w' hr
  cases r <;> exact h.wp_done hr

theorem wp_releaseAndFail {nonce : TxNonce} (err : CortexError)
    (hw : holds (.releasing nonce err.status 1) w) :
    wp E (ctx.releaseAndFail err) (fun _ => holds .ended) w := by
  unfold releaseAndFail
  refine wp_seq (h.wp_resolveNonce (fun attempt => .release nonce err.status attempt) hw) ?_
  intro _ w' hw'
  exact h.wp_ask (.fail err.status) hw'

theorem wp_recordFaliure (err : CortexError) (hw : holds (.failing err.status) w) :
    wp E (ctx.recordFaliure err) (fun _ => holds .ended) w :=
  h.wp_ask (.fail err.status) hw

theorem wp_revertSign {nonceOnChain : TxNonce} (hw : holds (.reverting nonceOnChain 1) w) :
    wp E ctx.revertSign (fun _ => holds (.syncing nonceOnChain 1)) w := by
  unfold revertSign
  refine wp_seq (h.wp_retryCall
    (fun attempt w hI => h.wp_ask (.revert nonceOnChain attempt) hI) hw) ?_
  intro r w' hr
  cases r <;> exact h.wp_done hr

theorem wp_recoverNonce {nonce nonceOnChain attemptedNonce : TxNonce}
    (hw : holds (.mismatch nonce nonceOnChain attemptedNonce) w) :
    wp E (ctx.recoverNonce nonceOnChain attemptedNonce)
      (fun r w' => match r with
        | none => holds .ended w'
        | some txn => ∃ corrected, holds (.sending 0 corrected txn 1) w') w := by
  unfold recoverNonce
  refine wp_seq (h.wp_ask (.showMismatch nonce nonceOnChain attemptedNonce) hw) ?_
  intro _ w₁ hw₁
  refine wp_seq (h.wp_resolveNonce
    (fun attempt => .consume nonce nonceOnChain attempt) hw₁) fun _ w₂ hw₂ => ?_
  refine wp_seq (h.wp_revertSign hw₂) fun _ w₃ hw₃ => ?_
  refine wp_seq (h.wp_retryCall
    (fun attempt w hI => h.wp_ask (.sync nonceOnChain attempt) hI) hw₃) fun r w₄ hw₄ => ?_
  -- the sync, and then the signature of the corrected transaction
  cases r with
  | error err =>
      refine wp_seq (h.wp_recordFaliure (.nonceSync err) hw₄) fun _ w₅ hw₅ => ?_
      exact wp_ret fun _ hrely => h.stable hw₅ hrely
  | ok corrected =>
      refine wp_seq (h.wp_ask (.showSynced corrected) hw₄) fun _ w₅ hw₅ => ?_
      refine wp_seq (h.wp_retryCall
        (fun attempt w hI => h.wp_ask (.resign corrected attempt) hI) hw₅) fun r w₆ hw₆ => ?_
      cases r with
      | error err =>
          refine wp_seq (h.wp_releaseAndFail (.reSign err) hw₆) fun _ w₇ hw₇ => ?_
          exact wp_ret fun _ hrely => h.stable hw₇ hrely
      | ok txn =>
          refine wp_seq (h.wp_ask (.showResigned corrected txn) hw₆) fun _ w₇ hw₇ => ?_
          exact wp_ret fun _ hrely => ⟨corrected, h.stable hw₇ hrely⟩

theorem wp_broadcastRound {recoveries : ℕ} {nonce : TxNonce} {txn : SignedTransaction}
    (stickyIndex : ℕ) (hw : holds (.sending recoveries nonce txn 1) w) :
    wp E (ctx.broadcastRound txn stickyIndex)
      (fun r w' => holds (settled (fun outcome => .broadcasted nonce outcome.txnHash)
        (afterBroadcastError recoveries nonce) r) w') w := by
  unfold broadcastRound
  refine h.wp_retryWithBackoff (.sending recoveries nonce txn)
    (fun outcome : BroadcastOutcome => .broadcasted nonce outcome.txnHash)
    (afterBroadcastError recoveries nonce) (fun attempt w hI => ?_) hw
  refine wp_seq (h.wp_ask (.broadcast recoveries nonce txn attempt stickyIndex) hI) ?_
  intro r w' hr
  exact wp_ret fun _ hrely => h.stable hr hrely

/-- A round that ended in an error other than `NonceTooLow`. -/
theorem wp_failRound (recoveries : ℕ) (nonce : TxNonce) {err : BroadcastError}
    (herr : ∀ a b, err ≠ .nonceTooLow a b)
    (hw : holds (afterBroadcastError recoveries nonce err) w) :
    wp E (ctx.failRound err) (fun r w' => r = none ∧ holds .ended w') w := by
  have hended : ∀ w', holds .ended w' →
      wp E (.ret none : PipelineProg (Option BroadcastOutcome))
        (fun r w' => r = none ∧ holds .ended w') w' :=
    fun w' hw' => wp_ret fun _ hrely => ⟨rfl, h.stable hw' hrely⟩
  cases err with
  | nonceTooLow a b => exact absurd rfl (herr a b)
  | internal _ | databaseError _ | invariant _ =>
      exact wp_seq (h.wp_recordFaliure _ hw) fun _ w' hw' => hended w' hw'
  | missingProvider _ | rejected _ | unexpected _ | rpcError _ =>
      exact wp_seq (h.wp_releaseAndFail _ hw) fun _ w' hw' => hended w' hw'

/-- The broadcast rounds, by induction on the recoveries that are left. -/
theorem wp_broadcastLoop (stickyIndex : ℕ) {recoveries : ℕ} (hle : recoveries ≤ 1)
    {nonce : TxNonce} {txn : SignedTransaction}
    (hw : holds (.sending recoveries nonce txn 1) w) :
    wp E (ctx.broadcastLoop stickyIndex recoveries txn)
      (fun r w' => r = none ∧ holds .ended w'
        ∨ ∃ outcome nonce, r = some outcome ∧ holds (.broadcasted nonce outcome.txnHash) w')
      w := by
  induction recoveries generalizing nonce txn w with
  | zero =>
      unfold broadcastLoop
      refine wp_seq (h.wp_broadcastRound stickyIndex hw) fun r w₁ hw₁ => ?_
      cases r with
      | ok outcome =>
          exact wp_ret fun _ hrely => Or.inr ⟨outcome, nonce, rfl, h.stable hw₁ hrely⟩
      | error err =>
          cases err with
          | nonceTooLow a b =>
              refine wp_seq (h.wp_releaseAndFail _ hw₁) fun _ w₂ hw₂ => ?_
              exact wp_ret fun _ hrely => Or.inl ⟨rfl, h.stable hw₂ hrely⟩
          | _ =>
              exact wp_mono (h.wp_failRound 0 nonce (by simp) hw₁) fun _ _ => Or.inl
  | succ recoveries ih =>
      unfold broadcastLoop
      refine wp_seq (h.wp_broadcastRound stickyIndex hw) fun r w₁ hw₁ => ?_
      cases r with
      | ok outcome =>
          exact wp_ret fun _ hrely => Or.inr ⟨outcome, nonce, rfl, h.stable hw₁ hrely⟩
      | error err =>
          cases err with
          | nonceTooLow a b =>
              refine wp_seq (h.wp_recoverNonce hw₁) fun r w₂ hw₂ => ?_
              match r with
              | none => exact wp_ret fun _ hrely => Or.inl ⟨rfl, h.stable hw₂ hrely⟩
              | some txn =>
                  -- there is one recovery, so the next round is the last
                  obtain ⟨corrected, hw₂⟩ := hw₂
                  obtain rfl : recoveries = 0 := by omega
                  exact ih (by omega) hw₂
          | _ =>
              exact wp_mono (h.wp_failRound (recoveries + 1) nonce (by simp) hw₁)
                fun _ _ => Or.inl

theorem wp_validation {nonce : TxNonce} {txHash : TxHash} (stickyIndex : ℕ)
    (hw : holds (.broadcasted nonce txHash) w) :
    wp E (ctx.validation stickyIndex txHash) (fun _ => holds .ended) w := by
  unfold validation
  refine wp_seq (h.wp_ask (.showBroadcasted nonce txHash) hw) fun _ w₁ hw₁ => ?_
  refine wp_seq (h.wp_record _ hw₁) fun _ w₂ hw₂ => ?_
  refine wp_seq (h.wp_record _ hw₂) fun _ w₃ hw₃ => ?_
  refine wp_seq (h.wp_ask (.validate nonce txHash stickyIndex) hw₃) fun r w₄ hw₄ => ?_
  match r with
  | .error (.database err) => exact h.wp_recordFaliure _ hw₄
  | .error (.internal message) => exact h.wp_recordFaliure _ hw₄
  | .error (.rpc hash message) => exact h.wp_releaseAndFail _ hw₄
  | .error (.reverted hash) => exact h.wp_releaseAndFail _ hw₄
  | .error (.rpcError message) => exact h.wp_releaseAndFail _ hw₄
  | .ok (.included block confirmations) =>
      refine wp_seq (h.wp_resolveNonce (fun attempt => .finalize nonce txHash attempt) hw₄) ?_
      exact fun _ w₅ hw₅ => h.wp_ask (.showConfirmed nonce txHash) hw₅
  | .ok .notIncluded =>
      refine wp_seq (h.wp_resolveNonce (fun attempt => .release nonce _ attempt) hw₄) ?_
      exact fun _ w₅ hw₅ => h.wp_ask (.fail _) hw₅
  | .ok .timeout =>
      refine wp_seq (h.wp_resolveNonce (fun attempt => .retire nonce attempt) hw₄) ?_
      exact fun _ w₅ hw₅ => h.wp_ask (.showTimedOut nonce) hw₅

theorem wp_broadcastStages {nonce : TxNonce} {txn : SignedTransaction}
    (hw : holds (.acquiring nonce txn) w) :
    wp E (ctx.broadcastStages txn) (fun _ => holds .ended) w := by
  unfold broadcastStages
  refine wp_seq (h.wp_ask (.acquire nonce txn) hw) fun r w₁ hw₁ => ?_
  match r with
  | .ok none => exact h.wp_releaseAndFail _ hw₁
  | .error err => exact h.wp_releaseAndFail _ hw₁
  | .ok (some stickyIndex) =>
      refine wp_seq (h.wp_broadcastLoop stickyIndex le_rfl hw₁) fun r w₂ hw₂ => ?_
      rcases hw₂ with ⟨rfl, hw₂⟩ | ⟨outcome, nonce, rfl, hw₂⟩
      · exact h.wp_done hw₂
      · exact h.wp_validation stickyIndex hw₂

theorem wp_signStages {nonce : TxNonce} (hw : holds (.reserved nonce) w) :
    wp E (ctx.signStages nonce) (fun _ => holds .ended) w := by
  unfold signStages
  refine wp_seq (h.wp_ask (.showReserved nonce) hw) fun _ w₁ hw₁ => ?_
  refine wp_seq (h.wp_record _ hw₁) fun _ w₂ hw₂ => ?_
  refine wp_seq (h.wp_retryCall
    (fun attempt w hI => h.wp_ask (.sign nonce attempt) hI) hw₂) fun r w₃ hw₃ => ?_
  cases r with
  | error err => exact h.wp_releaseAndFail _ hw₃
  | ok txn =>
      refine wp_seq (h.wp_ask (.showSigned nonce txn) hw₃) fun _ w₄ hw₄ => ?_
      exact wp_seq (h.wp_record _ hw₄) fun _ w₅ hw₅ => h.wp_broadcastStages hw₅

/-- **The program goes through the phases.**  An outline of the phases that holds at the
start holds along the whole run of `run_pipeline`, which ends in the last phase. -/
theorem wp_runPipeline (hw : holds (.registering 1) w) :
    wp E (runPipeline ctx) (fun _ => holds .ended) w := by
  unfold runPipeline
  refine wp_seq (h.wp_record _ hw) fun _ w₁ hw₁ => ?_
  refine wp_seq (h.wp_retryCall
    (fun attempt w hI => h.wp_ask (.register attempt) hI) hw₁) fun r w₂ hw₂ => ?_
  cases r with
  | error err => exact h.wp_recordFaliure _ hw₂
  | ok _ =>
      refine wp_seq (h.wp_ask .accept hw₂) fun _ w₃ hw₃ => ?_
      refine wp_seq (h.wp_record _ hw₃) fun _ w₄ hw₄ => ?_
      refine wp_seq (h.wp_retryCall
        (fun attempt w hI => h.wp_ask (.reserve attempt) hI) hw₄) fun r w₅ hw₅ => ?_
      cases r with
      | error err => exact h.wp_recordFaliure _ hw₅
      | ok nonce => exact h.wp_signStages hw₅

/-- A submission records its permit and goes through the phases. -/
theorem wp_submit (hpermit : wp E (ctx.setStatus .permitAquired)
    (fun _ => holds (.registering 1)) w) :
    wp E (submit ctx (.ok ())) (fun _ => holds .ended) w := by
  unfold submit
  refine wp_seq hpermit fun _ w₁ hw₁ => ?_
  refine wp_seq (h.wp_runPipeline hw₁) fun _ w₂ hw₂ => ?_
  exact h.wp_done hw₂

end

end Outline

end Lobby
