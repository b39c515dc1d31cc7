/-
# The transaction pipeline

`run_pipeline` as a program over the calls it makes to its actors, to the status
registry, to the clock and to the telemetry registry.  The actors' replies are left to
the environment.  A stage of the source that returns early returns `none` here.
-/
import Lobby.Types
import Lobby.Retry

namespace Lobby

open Interaction Prog

/-! ## Calls -/

/-- The stages `TelemetryContext::record_stage` tells apart. -/
inductive TelemetryStage : Type where
  | relayHost
  | nonce
  | sign
  | broadcast
  deriving DecidableEq

inductive TelemetryCall : Type where
  | recordStart
  | recordStage (stage : TelemetryStage)
  | finalize
  deriving DecidableEq

/-- What a pipeline asks of its surroundings. -/
inductive PipelineCall : Type where
  | registerTransaction (executionId : ExecutionId) (txn : Eip1559Transaction)
      (clientConfig : ClientConfig)
  | reserve (chainId : ChainId) (fromAddress : Address) (executionId : ExecutionId)
  | resolve (executionId : ExecutionId) (state : NonceState)
  | sync (chainId : ChainId) (fromAddress : Address) (executionId : ExecutionId)
      (nonceOnChain : TxNonce)
  | sign (chainId : ChainId) (fromAddress : Address) (executionId : ExecutionId)
      (txn : Eip1559Transaction)
  | revert (executionId : ExecutionId)
  | acquireHealthyEndpoint (chainId : ChainId) (timeout : Duration)
  | broadcast (chainId : ChainId) (fromAddress : Address) (executionId : ExecutionId)
      (txn : SignedTransaction) (stickyIndex : ℕ)
  | validate (chainId : ChainId) (executionId : ExecutionId) (txHash : TxHash)
      (stickyIndex : ℕ)
  | setStatus (executionId : ExecutionId) (status : PipelineStatus)
  | telemetry (executionId : ExecutionId) (call : TelemetryCall)
  /-- `gen_range(0..=window)` -/
  | genRange (window : UInt64)
  | sleep (delay : Duration)
  /-- `unreachable!` -/
  | unreachable (message : String)

/-- The replies. -/
@[reducible]
def PipelineCall.Reply : PipelineCall → Type
  | .registerTransaction _ _ _ => Except RelayHostError Unit
  | .reserve _ _ _ => Except LocalError TxNonce
  | .resolve _ _ => Except LocalError Unit
  | .sync _ _ _ _ => Except LocalError TxNonce
  | .sign _ _ _ _ => Except LocalError SignedTransaction
  | .revert _ => Except LocalError Unit
  | .acquireHealthyEndpoint _ _ => Except LobbyRpcError (Option ℕ)
  | .broadcast _ _ _ _ _ => Except BroadcastError BroadcastOutcome
  | .validate _ _ _ _ => Except ValidatorError ValidatorOutcome
  | .setStatus _ _ => Unit
  | .telemetry _ _ => Unit
  | .genRange _ => UInt64
  | .sleep _ => Unit
  | .unreachable _ => Empty

abbrev PipelineProg (α : Type) : Type := Prog PipelineCall PipelineCall.Reply α

/-- Make one call. -/
abbrev PipelineCall.ask (c : PipelineCall) : PipelineProg c.Reply := perform c

/-! ## Errors and context -/

/-- The failures a pipeline records. -/
inductive CortexError : Type where
  | endpointPoolFailed (error : LobbyRpcError)
  | noHealthyRpcProvider (error : LobbyRpcError)
  | relayHost (error : RelayHostError)
  | nonceReservation (error : LocalError)
  | nonceSync (error : LocalError)
  | sign (error : LocalError)
  | reSign (error : LocalError)
  | broadcast (error : BroadcastError)
  | validator (error : ValidatorError)
  deriving DecidableEq

namespace CortexError

def stage : CortexError → String
  | endpointPoolFailed _ => "rpc_semaphore_permit"
  | noHealthyRpcProvider _ => "acquire_healthy_endpoint"
  | relayHost _ => "relay_host"
  | nonceReservation _ => "nonce_reserve"
  | nonceSync _ => "nonce_sync"
  | sign _ => "sign"
  | reSign _ => "sign_post_nonce_sync"
  | broadcast _ => "broadcast"
  | validator _ => "validator"

def toString : CortexError → String
  | endpointPoolFailed e => "EndpointPool busy or curropted: " ++ e.toString
  | noHealthyRpcProvider e => "No healthy RPC provider available: " ++ e.toString
  | relayHost e =>
      "relay-host rejected or failed to record the transaction after retries: " ++ e.toString
  | nonceReservation e => "nonce reservation failed after retries: " ++ e.toString
  | nonceSync e => "failed to sync and reserve nonce after retry: " ++ e.toString
  | sign e => "signing failed after retries: " ++ e.toString
  | reSign e => "re-signing failed after nonce sync: " ++ e.toString
  | broadcast e => "broadcast failed after retries: " ++ e.toString
  | validator e => "Validator failed after retries: " ++ e.toString

/-- The status a failure is recorded as. -/
def status (e : CortexError) : PipelineStatus := .failed e.stage e.toString

end CortexError

/-- The data of one run; the pools and clients are behind the calls. -/
structure PipelineContext where
  executionId : ExecutionId
  clientConfig : ClientConfig
  txn : Eip1559Transaction
  retryConfig : RetryConfig
  /-- the feature `benchmark-telemetry` -/
  telemetry : Bool
  deriving DecidableEq

namespace PipelineContext

variable (ctx : PipelineContext)

/-! ## Helpers -/

/-- `jittered_delay` and the sleep that follows it. -/
def backoff (attempt : ℕ) : PipelineProg Unit := do
  let window := jitterWindow ctx.retryConfig.baseDelay ctx.retryConfig.maxDelay
    (UInt32.ofNat attempt)
  if window > 0 then do
    let jitter ← (PipelineCall.genRange window).ask
    (PipelineCall.sleep (.fromMillis jitter)).ask
  else (PipelineCall.sleep (.fromMillis 0)).ask

/-- `unreachable!("retry loop exited without returning")`. -/
def exitedLoop {α : Type} : PipelineProg α := do
  let impossible ← (PipelineCall.unreachable "retry loop exited without returning").ask
  nomatch impossible

/-- `retry_with_backoff`. -/
def retryWithBackoff {T E : Type} (operation : PipelineProg (Except (RetryDecision E) T)) :
    PipelineProg (Except E T) :=
  retryLoop ctx.backoff exitedLoop operation ctx.retryConfig.maxTotal.toNat
    ctx.retryConfig.maxTotal.toNat 1

/-- `.map_err(RetryDecision::Retry)`: every error is worth another attempt. -/
def retryAll {T E : Type} : Except E T → Except (RetryDecision E) T
  | .ok value => .ok value
  | .error err => .error (.retry err)

/-- A stage that retries every error of one call. -/
def retryCall {T E : Type} (operation : PipelineProg (Except E T)) :
    PipelineProg (Except E T) :=
  ctx.retryWithBackoff do
    let result ← operation
    .ret (retryAll result)

/-- A call of the telemetry registry, when the feature is on. -/
def record (call : TelemetryCall) : PipelineProg Unit :=
  if ctx.telemetry then (PipelineCall.telemetry ctx.executionId call).ask else .ret ()

def setStatus (status : PipelineStatus) : PipelineProg Unit :=
  (PipelineCall.setStatus ctx.executionId status).ask

/-- `record_faliure`. -/
def recordFaliure (err : CortexError) : PipelineProg Unit := ctx.setStatus err.status

/-- The common body of `release_nonce`, `finalise_nonce` and `consume_nonce`: a failure of
all attempts is logged only. -/
def resolveNonce (state : NonceState) : PipelineProg Unit := do
  let _ ← ctx.retryCall (PipelineCall.resolve ctx.executionId state).ask

def releaseNonce : PipelineProg Unit := ctx.resolveNonce .released

def finaliseNonce : PipelineProg Unit := ctx.resolveNonce .finalized

def consumeNonce : PipelineProg Unit := ctx.resolveNonce .consumed

def revertSign : PipelineProg Unit := do
  let _ ← ctx.retryCall (PipelineCall.revert ctx.executionId).ask

/-- Release the nonce, then record the failure. -/
def releaseAndFail (err : CortexError) : PipelineProg Unit := do
  ctx.releaseNonce
  ctx.recordFaliure err

/-- Sign a transaction, retrying every error. -/
def signTxn (txn : Eip1559Transaction) : PipelineProg (Except LocalError SignedTransaction) :=
  ctx.retryCall (PipelineCall.sign ctx.txn.chainId ctx.clientConfig.fromAddress
    ctx.executionId txn).ask

/-! ## Broadcast -/

/-- Which broadcast errors end the round at once. -/
def broadcastDecision :
    Except BroadcastError BroadcastOutcome →
      Except (RetryDecision BroadcastError) BroadcastOutcome
  | .ok outcome => .ok outcome
  | .error (.nonceTooLow nonceOnChain attemptedNonce) =>
      .error (.failImmediately (.nonceTooLow nonceOnChain attemptedNonce))
  | .error (.missingProvider chainId) => .error (.failImmediately (.missingProvider chainId))
  | .error err => .error (.retry err)

/-- The decision carries the error of the reply. -/
theorem broadcastDecision_error {r : Except BroadcastError BroadcastOutcome}
    {err : BroadcastError}
    (h : broadcastDecision r = .error (.failImmediately err)
      ∨ broadcastDecision r = .error (.retry err)) : r = .error err := by
  cases r with
  | ok outcome => rcases h with h | h <;> cases h
  | error err' =>
      cases err' <;> rcases h with h | h <;> cases h <;> rfl

theorem broadcastDecision_ok {r : Except BroadcastError BroadcastOutcome}
    {outcome : BroadcastOutcome} (h : broadcastDecision r = .ok outcome) :
    r = .ok outcome := by
  cases r with
  | ok outcome' =>
      cases h
      rfl
  | error err => cases err <;> cases h

/-- One round of broadcast attempts. -/
def broadcastRound (signed : SignedTransaction) (stickyIndex : ℕ) :
    PipelineProg (Except BroadcastError BroadcastOutcome) :=
  ctx.retryWithBackoff do
    let result ← (PipelineCall.broadcast ctx.txn.chainId ctx.clientConfig.fromAddress
      ctx.executionId signed stickyIndex).ask
    .ret (broadcastDecision result)

/-- The errors after which the nonce stays reserved: they say nothing about the chain. -/
def keepsNonce : BroadcastError → Bool
  | .internal _ => true
  | .databaseError _ => true
  | .invariant _ => true
  | _ => false

/-- The recovery after the first `NonceTooLow`: consume the nonce, revert the signature,
sync with the chain and sign again. -/
def recoverNonce (nonceOnChain attemptedNonce : TxNonce) :
    PipelineProg (Option SignedTransaction) := do
  ctx.setStatus (.nonceMismatchDetected nonceOnChain attemptedNonce)
  -- what these two come to is logged only
  ctx.consumeNonce
  ctx.revertSign
  match ← ctx.retryCall (PipelineCall.sync ctx.txn.chainId ctx.clientConfig.fromAddress
      ctx.executionId nonceOnChain).ask with
  | .error err => do
    ctx.recordFaliure (.nonceSync err)
    return none
  | .ok correctedNonce => do
    ctx.setStatus .nonceReserved
    match ← ctx.signTxn { ctx.txn with nonce := correctedNonce } with
    | .error err => do
      ctx.releaseAndFail (.reSign err)
      return none
    | .ok signed => do
      ctx.setStatus .signed
      return some signed

/-- A round that ended in an error other than `NonceTooLow`. -/
def failRound (err : BroadcastError) : PipelineProg (Option BroadcastOutcome) := do
  if keepsNonce err then ctx.recordFaliure (.broadcast err)
  else ctx.releaseAndFail (.broadcast err)
  return none

/-- The loop around the broadcast rounds.  The number counts the recoveries that are left:
`nonce_retry_attempted` is set when it is zero. -/
def broadcastLoop (stickyIndex : ℕ) :
    ℕ → SignedTransaction → PipelineProg (Option BroadcastOutcome)
  | recoveries, signed => do
    match ← ctx.broadcastRound signed stickyIndex with
    | .ok outcome => return some outcome
    | .error (.nonceTooLow nonceOnChain attemptedNonce) =>
      match recoveries with
      | 0 => do
        ctx.releaseAndFail (.broadcast (.nonceTooLow nonceOnChain attemptedNonce))
        return none
      | recoveries + 1 =>
        match ← ctx.recoverNonce nonceOnChain attemptedNonce with
        | none => return none
        | some signed => broadcastLoop stickyIndex recoveries signed
    | .error err => ctx.failRound err

/-! ## Validation -/

/-- The stages after a successful broadcast. -/
def validation (stickyIndex : ℕ) (txHash : TxHash) : PipelineProg Unit := do
  ctx.setStatus (.broadcasted (lowerHex txHash.bytes) "Waiting for validation on-chain")
  ctx.record (.recordStage .broadcast)
  ctx.record .finalize
  match ← (PipelineCall.validate ctx.txn.chainId ctx.executionId txHash stickyIndex).ask with
  -- a database or an internal error keeps the nonce reserved
  | .error (.database err) => ctx.recordFaliure (.validator (.database err))
  | .error (.internal message) => ctx.recordFaliure (.validator (.internal message))
  | .error err => ctx.releaseAndFail (.validator err)
  | .ok (.included _ _) => do
    ctx.finaliseNonce
    ctx.setStatus (.confirmedOnChain (lowerHex txHash.bytes))
  | .ok .notIncluded => do
    ctx.releaseNonce
    ctx.setStatus (.failed "validator"
      ("tx " ++ lowerHex txHash.bytes ++ " not included on-chain"))
  | .ok .timeout => do
    ctx.consumeNonce
    ctx.setStatus (.validatorTimedOut "validator timed out, wait for confirmation")

/-! ## The pipeline -/

/-- The stages from the endpoint on, with a signed transaction. -/
def broadcastStages (signed : SignedTransaction) : PipelineProg Unit := do
  match ← (PipelineCall.acquireHealthyEndpoint ctx.txn.chainId (.fromSecs 30)).ask with
  | .ok none =>
    ctx.releaseAndFail (.noHealthyRpcProvider (.noEndpointsAvailable ctx.txn.chainId))
  | .error err => ctx.releaseAndFail (.endpointPoolFailed err)
  | .ok (some stickyIndex) =>
    match ← ctx.broadcastLoop stickyIndex 1 signed with
    | none => return ()
    | some outcome => ctx.validation stickyIndex outcome.txnHash

/-- The stages from signing on, with a reserved nonce. -/
def signStages (nonce : TxNonce) : PipelineProg Unit := do
  ctx.setStatus .nonceReserved
  ctx.record (.recordStage .nonce)
  match ← ctx.signTxn { ctx.txn with nonce := nonce } with
  | .error err => ctx.releaseAndFail (.sign err)
  | .ok signed => do
    ctx.setStatus .signed
    ctx.record (.recordStage .sign)
    ctx.broadcastStages signed

end PipelineContext

/-- `run_pipeline`. -/
def runPipeline (ctx : PipelineContext) : PipelineProg Unit := do
  ctx.record .recordStart
  match ← ctx.retryCall (PipelineCall.registerTransaction ctx.executionId ctx.txn
      ctx.clientConfig).ask with
  | .error err => ctx.recordFaliure (.relayHost err)
  | .ok () => do
    ctx.setStatus .accepted
    ctx.record (.recordStage .relayHost)
    match ← ctx.retryCall (PipelineCall.reserve ctx.txn.chainId ctx.clientConfig.fromAddress
        ctx.executionId).ask with
    | .error err => ctx.recordFaliure (.nonceReservation err)
    | .ok nonce => ctx.signStages nonce

/-- The reply of `submit` when no permit becomes free in time. -/
structure BackpressureTimeout where
  timeoutMs : ℕ
  deriving DecidableEq

/-- `submit`, given how the wait for a permit ended.  The pipeline it spawns starts when the
status is recorded; `submit` does not wait for it. -/
def submit (ctx : PipelineContext) (permit : Except BackpressureTimeout Unit) :
    PipelineProg (Except BackpressureTimeout Unit) :=
  match permit with
  | .error err => .ret (.error err)
  | .ok () => do
    ctx.setStatus .permitAquired
    runPipeline ctx
    return .ok ()

end Lobby
