/-
# The validator engine

The table `validator.validation_requests` and `handle_validation`, as a program over the
SQL statements, the RPC requests and the clock.  The polling loop of the source has no
bound of its own; the program takes the number of rounds it may still run, and a run that
has used them up waits for a reply that never comes.  Every finite run of the source is a
run of the program with enough rounds.
-/
import Lobby.RequestTable
import Lobby.Retry

namespace Lobby

open Revisions Interaction Prog

/-! ## The table -/

structure ValidationRow where
  executionId : ExecutionId
  revision : ℕ
  chainId : ℕ
  txHash : TxHash
  state : ValidationState
  updatedAt : Timestamp
  deriving DecidableEq

instance : RequestRow ValidationRow where
  owner := ValidationRow.executionId
  revision := ValidationRow.revision
  isActive r := decide (r.state = .pending)
  activeIndex := "idx_validation_no_concurrent"
  primaryKeyName := "validation_requests_pkey"
  -- the column is `INT`, unlike those of the other tables
  revisionBound := 2 ^ 31
  outOfRange := .other "error returned from database: integer out of range"

namespace ValidationRow

/-- `SET state = s` with the trigger `update_updated_at`, which always moves the
timestamp. -/
def setState (now : Timestamp) (s : ValidationState) (r : ValidationRow) : ValidationRow :=
  { r with state := s, updatedAt := now }

/-- `state IN ('included', 'not_included') OR (state = 'pending' AND updated_at > now() -
interval '2 minutes')`. -/
def isHeld (now : Timestamp) (r : ValidationRow) : Bool :=
  decide (r.state = .included) || decide (r.state = .notIncluded)
    || (decide (r.state = .pending) && decide (now - minutes 2 < r.updatedAt))

end ValidationRow

abbrev ValidationTable : Type := RequestTable ValidationRow

/-! ## The statements and requests as calls -/

/-- The statements the validator engine sends. -/
inductive ValidationQuery : Type where
  | latest (executionId : ExecutionId)
  | insertRequest (chainId : ℕ) (executionId : ExecutionId) (txHash : TxHash)
  | recordOutcome (executionId : ExecutionId) (state : ValidationState)
  deriving DecidableEq

/-- What a statement returns when it succeeds. -/
@[reducible]
def ValidationQuery.Rows : ValidationQuery → Type
  | .latest _ => Option ValidationState
  | .insertRequest _ _ _ => Option ℕ
  | .recordOutcome _ _ => ℕ

/-- The effect of a statement, or its error. -/
def ValidationQuery.execute (now : Timestamp) (t : ValidationTable) :
    (q : ValidationQuery) → Except SqlxError (q.Rows × ValidationTable)
  | .latest e => .ok ((t.newest e).map ValidationRow.state, t)
  | .insertRequest chainId e txHash =>
      t.insertUnless e (ValidationRow.isHeld now) fun revision =>
        { executionId := e
          revision := revision
          chainId := chainId
          txHash := txHash
          state := .pending
          updatedAt := now }
  | .recordOutcome e s =>
      t.updateLatest e (fun r => decide (r.state = .pending)) (ValidationRow.setState now s)

/-- The fields of a receipt the engine reads. -/
structure TransactionReceipt where
  status : Bool
  blockNumber : Option UInt64
  deriving DecidableEq

/-- What the validator engine asks of its surroundings. -/
inductive ValidatorCall : Type where
  | query (q : ValidationQuery)
  /-- `Instant::now()` -/
  | instant
  | getTransactionReceipt (chainId : ChainId) (stickyIndex : ℕ) (txHash : TxHash)
  | getBlockNumber (chainId : ChainId) (stickyIndex : ℕ)
  | sleep (delay : Duration)
  /-- no round is left -/
  | exhausted
  deriving DecidableEq

/-- The replies. -/
@[reducible]
def ValidatorCall.Reply : ValidatorCall → Type
  | .query q => Except SqlxError q.Rows
  | .instant => Timestamp
  | .getTransactionReceipt _ _ _ => Except LobbyRpcError (Option TransactionReceipt)
  | .getBlockNumber _ _ => Except LobbyRpcError UInt64
  | .sleep _ => Unit
  | .exhausted => Empty

abbrev ValidatorProg (α : Type) : Type := Prog ValidatorCall ValidatorCall.Reply α

/-- Make one call. -/
abbrev ValidatorCall.ask (c : ValidatorCall) : ValidatorProg c.Reply := perform c

/-! ## The database operations -/

/-- The text of a state in the column. -/
def ValidationState.text : ValidationState → String
  | .pending => "pending"
  | .included => "included"
  | .notIncluded => "not_included"
  | .timedOut => "timed_out"

/-- The state an outcome is recorded as. -/
def ValidatorOutcome.state : ValidatorOutcome → ValidationState
  | .included _ _ => .included
  | .notIncluded => .notIncluded
  | .timeout => .timedOut

/-- `check_cached_result`. -/
def checkCachedResult (executionId : ExecutionId) :
    ValidatorProg (Except ValidatorError (Option ValidatorOutcome)) := do
  match ← (ValidatorCall.query (.latest executionId)).ask with
  | .error e => .ret (.error (.database e))
  | .ok (some .included) => .ret (.ok (some (.included 0 0)))
  | .ok (some .notIncluded) => .ret (.ok (some .notIncluded))
  | .ok _ => .ret (.ok none)

/-- `record_validation_request`. -/
def recordValidationRequest (chainId : ChainId) (executionId : ExecutionId)
    (txHash : TxHash) : ValidatorProg (Except ValidatorError Unit) :=
  match chainId.id.toI64 with
  | none => .ret (.error (.internal "chain_id does not fit in i64"))
  | some chainIdI64 => do
    match ← (ValidatorCall.query (.insertRequest chainIdI64 executionId txHash)).ask with
    | .error e => .ret (.error (.database e))
    | .ok _ => .ret (.ok ())

/-- `record_outcome`. -/
def recordOutcome (executionId : ExecutionId) (outcome : ValidatorOutcome) :
    ValidatorProg (Except ValidatorError Unit) := do
  match ← (ValidatorCall.query (.recordOutcome executionId outcome.state)).ask with
  | .error e => .ret (.error (.database e))
  | .ok rowsAffected =>
    if rowsAffected > 0 then .ret (.ok ())
    else
      -- no pending row was there: the latest one says which error it is
      match ← (ValidatorCall.query (.latest executionId)).ask with
      | .error e => .ret (.error (.database e))
      | .ok none =>
        .ret (.error (.internal "invalid execution_id, no validation request found"))
      | .ok (some .pending) =>
        .ret (.error (.internal "validation should have been pending, update failed"))
      | .ok (some state) =>
        .ret (.error (.internal ("validation already completed with state '" ++ state.text
          ++ "', cannot update to '" ++ outcome.state.text ++ "'")))

/-- Record an outcome, then reply. -/
def recordAndReply (executionId : ExecutionId) (outcome : ValidatorOutcome)
    (reply : Except ValidatorError ValidatorOutcome) :
    ValidatorProg (Except ValidatorError ValidatorOutcome) := do
  match ← recordOutcome executionId outcome with
  | .error e => .ret (.error e)
  | .ok () => .ret reply

/-! ## The handler -/

structure ValidatorConfig where
  pollInterval : Duration
  timeout : Duration
  requiredConfirmations : UInt64
  deriving DecidableEq

/-- `ValidatorConfig::default`. -/
def ValidatorConfig.default : ValidatorConfig where
  pollInterval := .fromSecs 2
  timeout := .fromSecs 300
  requiredConfirmations := 0

/-- A span of microseconds is longer than a duration. -/
def Duration.isExceededBy (d : Duration) (elapsed : ℤ) : Bool :=
  decide ((d.secs.toNat : ℤ) * 1000000000 + d.nanos < elapsed * 1000)

/-- The polling loop, with the rounds that are left. -/
def pollReceipt (config : ValidatorConfig) (chainId : ChainId) (executionId : ExecutionId)
    (txHash : TxHash) (stickyIndex : ℕ) (start : Timestamp) :
    ℕ → ValidatorProg (Except ValidatorError ValidatorOutcome)
  | 0 => do
    let impossible ← ValidatorCall.exhausted.ask
    nomatch impossible
  | rounds + 1 => do
    let now ← ValidatorCall.instant.ask
    if config.timeout.isExceededBy (now - start) then
      recordAndReply executionId .timeout (.ok .timeout)
    else
      match ← (ValidatorCall.getTransactionReceipt chainId stickyIndex txHash).ask with
      -- one failed request ends the validation
      | .error e => recordAndReply executionId .notIncluded (.error (.rpcError e.debug))
      | .ok none => do
        (ValidatorCall.sleep config.pollInterval).ask
        pollReceipt config chainId executionId txHash stickyIndex start rounds
      | .ok (some receipt) =>
        if !receipt.status then
          recordAndReply executionId .notIncluded (.error (.reverted txHash))
        else
          match ← (ValidatorCall.getBlockNumber chainId stickyIndex).ask with
          | .error e => .ret (.error (.rpcError e.debug))
          | .ok currentBlock =>
            -- a receipt without a block number counts as block zero
            let txBlock := (receipt.blockNumber.getD 0).toNat
            let confirmations := currentBlock.toNat - txBlock
            if confirmations ≥ config.requiredConfirmations.toNat then
              recordAndReply executionId (.included txBlock confirmations)
                (.ok (.included txBlock confirmations))
            else do
              (ValidatorCall.sleep config.pollInterval).ask
              pollReceipt config chainId executionId txHash stickyIndex start rounds

/-- `handle_validation`. -/
def handleValidation (config : ValidatorConfig) (rounds : ℕ) (chainId : ChainId)
    (executionId : ExecutionId) (txHash : TxHash) (stickyIndex : ℕ) :
    ValidatorProg (Except ValidatorError ValidatorOutcome) := do
  match ← checkCachedResult executionId with
  | .error e => .ret (.error e)
  | .ok (some cache) => .ret (.ok cache)
  | .ok none =>
    match ← recordValidationRequest chainId executionId txHash with
    | .error e => .ret (.error e)
    | .ok () => do
      let start ← ValidatorCall.instant.ask
      pollReceipt config chainId executionId txHash stickyIndex start rounds

end Lobby
