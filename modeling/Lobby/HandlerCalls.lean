/-
# What the handlers call

A handler of an actor makes a bounded number of calls, and each of them is about the execution
of its command, whatever the calls before it were answered.  Only `pollReceipt` has a loop: one
round of polling makes at most four calls, and the last one records the outcome.
-/
import Lobby.System

namespace Lobby

open Interaction Prog

/-! ## Calls about an execution -/

/-- A call about the execution, with the data of its submission. -/
def PipelineCall.Own (e : ExecutionId) (s : Submission) : PipelineCall → Prop
  | .registerTransaction e' txn clientConfig =>
      e' = e ∧ txn = s.txn ∧ clientConfig = s.clientConfig
  | .reserve _ _ e' | .resolve e' _ | .sync _ _ e' _ | .sign _ _ e' _ | .revert e'
  | .broadcast _ _ e' _ _ | .validate _ e' _ _ | .setStatus e' _ | .telemetry e' _ => e' = e
  | .acquireHealthyEndpoint _ _ | .genRange _ | .sleep _ | .unreachable _ => True

def NonceQuery.executionId : NonceQuery → ExecutionId
  | .reserveCandidate _ _ e | .existing e | .syncReserve _ _ e _ | .resolve e _ | .latest e => e

def SignQuery.executionId : SignQuery → ExecutionId
  | .insertRequest _ _ e | .markSigned e _ _ | .markFailed e _ | .revertSigned e | .latest e => e

def BroadcastQuery.executionId : BroadcastQuery → ExecutionId
  | .insertRequest _ _ e | .latestRequest e | .markSubmitted e _ _ | .markRejected e _ _ => e

def ValidationQuery.executionId : ValidationQuery → ExecutionId
  | .latest e | .insertRequest _ e _ | .recordOutcome e _ => e

def BroadcastCall.Own (e : ExecutionId) : BroadcastCall → Prop
  | .query q => q.executionId = e
  | .sendRawTransaction _ _ _ e' _ => e' = e
  | .getTransactionCount _ _ _ => True

def ValidatorCall.Own (e : ExecutionId) : ValidatorCall → Prop
  | .query q => q.executionId = e
  | _ => True

/-- A call about the execution. -/
def EngineCall.Own (e : ExecutionId) (s : Submission) : EngineCall → Prop
  | .deliver _ | .collect _ => True
  | .nonce q => q.executionId = e
  | .sign q => q.executionId = e
  | .broadcast c => c.Own e
  | .validator c => c.Own e
  | .outside c => c.Own e s

/-! ## The handlers -/

section handlers

variable (e : ExecutionId)

theorem bounded_handleReserve (chainId : ChainId) (fromAddress : Address) :
    (handleReserve chainId fromAddress e).Bounded (fun q => q.executionId = e) 2 := by
  unfold handleReserve
  cases chainId.id.toI64 with
  | none => exact trivial
  | some chainIdI64 =>
      refine ⟨rfl, fun candidate => ?_⟩
      rcases candidate with error | _ | nonce
      · exact trivial
      · refine ⟨rfl, fun existing => ?_⟩
        rcases existing with error | _ | ⟨nonce, _ | _ | _ | _⟩ <;> exact bounded_ret _
      · exact trivial

theorem bounded_handleSync (chainId : ChainId) (fromAddress : Address)
    (nonceOnChain : TxNonce) :
    (handleSync chainId fromAddress e nonceOnChain).Bounded (fun q => q.executionId = e) 2 := by
  unfold handleSync
  cases chainId.id.toI64 with
  | none => exact trivial
  | some chainIdI64 =>
      cases nonceOnChain.value.toI64 with
      | none => exact trivial
      | some nonceOnChainI64 =>
          refine ⟨rfl, fun inserted => ?_⟩
          rcases inserted with error | _ | nonce
          · exact trivial
          · refine ⟨rfl, fun existing => ?_⟩
            rcases existing with error | _ | ⟨nonce, _ | _ | _ | _⟩ <;> exact bounded_ret _
          · exact trivial

theorem bounded_handleResolve (state : NonceState) :
    (handleResolve e state).Bounded (fun q => q.executionId = e) 2 := by
  cases state with
  | reserved => exact trivial
  | finalized | released | consumed =>
      simp only [handleResolve, perform_bind]
      refine ⟨rfl, fun updated => ?_⟩
      rcases updated with error | rowsAffected
      · exact trivial
      · dsimp only
        split
        · exact trivial
        · refine ⟨rfl, fun latest => ?_⟩
          rcases latest with error | _ | current
          · exact bounded_ret _
          · exact bounded_ret _
          · dsimp only
            split
            · exact bounded_ret _
            · split <;> exact bounded_ret _

theorem bounded_handleSign (crypto : Crypto) (custodyKeys : JsonPolicyEngine)
    (fromAddress : Address) (chainId : ChainId) (txn : Eip1559Transaction) :
    (handleSign crypto custodyKeys fromAddress chainId e txn).Bounded
      (fun q => q.executionId = e) 2 := by
  unfold handleSign
  cases custodyKeys.resolveKey crypto fromAddress with
  | error _ => exact trivial
  | ok pvtKey =>
      cases chainId.id.toI64 with
      | none => exact trivial
      | some chainIdI64 =>
          simp only [perform_bind]
          refine ⟨rfl, fun inserted => ?_⟩
          rcases inserted with error | _ | revision
          · exact trivial
          · exact trivial
          · dsimp only
            split
            · exact trivial
            -- the row is marked as signed, or as failed
            all_goals
              refine ⟨rfl, fun marked => ?_⟩
              rcases marked with error | rowsAffected
              · exact bounded_ret _
              · dsimp only
                split <;> exact bounded_ret _

theorem bounded_handleRevert :
    (handleRevert e).Bounded (fun q => q.executionId = e) 2 := by
  simp only [handleRevert, perform_bind]
  refine ⟨rfl, fun reverted => ?_⟩
  rcases reverted with error | rowsAffected
  · exact trivial
  · dsimp only
    split
    · exact trivial
    · refine ⟨rfl, fun latest => ?_⟩
      rcases latest with error | _ | _ | _ | _ <;> exact bounded_ret _

theorem bounded_recordReply (chainId : ChainId) (fromAddress : Address)
    (txn : SignedTransaction) (stickyIndex revision : ℕ)
    (reply : Except LobbyRpcError TxHash) :
    (recordReply chainId fromAddress e txn stickyIndex revision reply).Bounded
      (BroadcastCall.Own e) 2 := by
  cases reply with
  | ok txnHash =>
      refine ⟨rfl, fun marked => ?_⟩
      rcases marked with error | rowsAffected <;> exact bounded_ret _
  | error err =>
      simp only [recordReply, perform_bind]
      split
      · refine ⟨trivial, fun counted => ?_⟩
        rcases counted with error | nonceOnChain
        · exact bounded_ret _
        · refine ⟨rfl, fun marked => ?_⟩
          rcases marked with error | rowsAffected <;> exact bounded_ret _
      · refine ⟨rfl, fun marked => ?_⟩
        rcases marked with error | rowsAffected <;> exact bounded_ret _

theorem bounded_handleBroadcast (chainId : ChainId) (fromAddress : Address)
    (txn : SignedTransaction) (stickyIndex : ℕ) :
    (handleBroadcast chainId fromAddress e txn stickyIndex).Bounded (BroadcastCall.Own e) 4 := by
  unfold handleBroadcast
  cases chainId.id.toI64 with
  | none => exact trivial
  | some chainIdI64 =>
      refine ⟨rfl, fun inserted => ?_⟩
      rcases inserted with error | _ | revision
      · exact trivial
      · refine ⟨rfl, fun row => ?_⟩
        rcases row with error | row <;> exact bounded_ret _
      · exact ⟨rfl, fun reply => bounded_recordReply e chainId fromAddress txn stickyIndex
          revision reply⟩

theorem bounded_recordAndReply (outcome : ValidatorOutcome)
    (reply : Except ValidatorError ValidatorOutcome) :
    (recordAndReply e outcome reply).Bounded (ValidatorCall.Own e) 2 := by
  have hrecord : (recordOutcome e outcome).Bounded (ValidatorCall.Own e) 2 := by
    simp only [recordOutcome, perform_bind]
    refine ⟨rfl, fun recorded => ?_⟩
    rcases recorded with error | rowsAffected
    · exact trivial
    · dsimp only
      split
      · exact trivial
      · refine ⟨rfl, fun latest => ?_⟩
        rcases latest with error | _ | _ | _ | _ | _ <;> exact bounded_ret _
  refine hrecord.bind (n := 0) fun result => ?_
  rcases result with error | _ <;> exact bounded_ret _

/-- A round of polling makes at most four calls, and the last one records the outcome. -/
theorem bounded_pollReceipt (config : ValidatorConfig) (chainId : ChainId) (txHash : TxHash)
    (stickyIndex : ℕ) (start : Timestamp) (rounds : ℕ) :
    (pollReceipt config chainId e txHash stickyIndex start rounds).Bounded
      (ValidatorCall.Own e) (4 * rounds + 1) := by
  induction rounds with
  | zero => exact ⟨trivial, fun impossible => impossible.elim⟩
  | succ rounds ih =>
      refine Bounded.mono (m := 4 * rounds + 1 + 1 + 1 + 1 + 1) ?_ (by omega)
      have hrecord : ∀ outcome reply, (recordAndReply e outcome reply).Bounded
          (ValidatorCall.Own e) (4 * rounds + 2) := fun outcome reply =>
        (bounded_recordAndReply e outcome reply).mono (by omega)
      -- a round: the clock, the receipt, the block and a wait
      simp only [pollReceipt, perform_bind]
      refine ⟨trivial, fun now => ?_⟩
      dsimp only
      split
      · exact (hrecord _ _).mono (by omega)
      · refine ⟨trivial, fun receipt => ?_⟩
        rcases receipt with error | _ | receipt
        · exact (hrecord _ _).mono (by omega)
        · exact ⟨trivial, fun _ => ih.mono (by omega)⟩
        · dsimp only
          split
          · exact (hrecord _ _).mono (by omega)
          · refine ⟨trivial, fun block => ?_⟩
            rcases block with error | currentBlock
            · exact bounded_ret _
            · dsimp only
              split
              · exact hrecord _ _
              · exact ⟨trivial, fun _ => ih⟩

theorem bounded_handleValidation (config : ValidatorConfig) (rounds : ℕ) (chainId : ChainId)
    (txHash : TxHash) (stickyIndex : ℕ) :
    (handleValidation config rounds chainId e txHash stickyIndex).Bounded
      (ValidatorCall.Own e) (4 * rounds + 4) := by
  have hcached : (checkCachedResult e).Bounded (ValidatorCall.Own e) 1 := by
    refine ⟨rfl, fun latest => ?_⟩
    rcases latest with error | _ | _ | _ | _ | _ <;> exact bounded_ret _
  have hrecord : (recordValidationRequest chainId e txHash).Bounded (ValidatorCall.Own e) 1 := by
    unfold recordValidationRequest
    cases chainId.id.toI64 with
    | none => exact trivial
    | some chainIdI64 =>
        refine ⟨rfl, fun inserted => ?_⟩
        rcases inserted with error | rowsAffected <;> exact bounded_ret _
  -- the cache, the insert and the clock in front of the rounds
  refine (hcached.bind (n := 4 * rounds + 3) fun cached => ?_).mono (by omega)
  rcases cached with error | _ | cache
  · exact bounded_ret _
  · refine (hrecord.bind (n := 4 * rounds + 2) fun result => ?_).mono (by omega)
    rcases result with error | _
    · exact bounded_ret _
    · exact ⟨trivial, fun start => bounded_pollReceipt e config chainId txHash stickyIndex
        start rounds⟩
  · exact bounded_ret _

end handlers

end Lobby
