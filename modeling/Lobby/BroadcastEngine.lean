/-
# The broadcast engine

The table `broadcast.broadcast_requests` and `handle_broadcast`, as a program over the SQL
statements and the two RPC requests it sends.  A request that hands a transaction to the
network also names the row it is made for; the source passes no such thing to the node,
and no reply depends on it.
-/
import Lobby.RequestTable
import Lobby.Interaction

namespace Lobby

open Revisions Interaction Prog

/-! ## The table -/

structure BroadcastRow where
  executionId : ExecutionId
  revision : ℕ
  chainId : ℕ
  fromAddress : Address
  txHash : Option TxHash
  state : BroadcastState
  rejectionReason : Option String
  updatedAt : Timestamp
  deriving DecidableEq

instance : RequestRow BroadcastRow where
  owner := BroadcastRow.executionId
  revision := BroadcastRow.revision
  isActive r := match r.state with
    | .received => true
    | .submitted => true
    | .rejected => false
  activeIndex := "uniq_active_broadcast"
  primaryKeyName := "broadcast_requests_pkey"
  revisionBound := i64Bound
  outOfRange := .bigintOutOfRange

namespace BroadcastRow

@[simp] theorem owner_eq (r : BroadcastRow) : owner r = r.executionId := rfl

@[simp] theorem revision_eq (r : BroadcastRow) : Revisioned.revision r = r.revision := rfl

/-- `SET state = s` with the trigger `touch_updated_at`. -/
def setState (now : Timestamp) (s : BroadcastState) (r : BroadcastRow) : BroadcastRow :=
  { r with state := s, updatedAt := if s = r.state then r.updatedAt else now }

/-- `SET state = 'submitted', tx_hash = h`. -/
def submit (now : Timestamp) (h : TxHash) (r : BroadcastRow) : BroadcastRow :=
  { r.setState now .submitted with txHash := some h }

/-- `SET state = 'rejected', rejection_reason = reason`. -/
def reject (now : Timestamp) (reason : String) (r : BroadcastRow) : BroadcastRow :=
  { r.setState now .rejected with rejectionReason := some reason }

/-- `state = 'submitted' OR (state = 'received' AND updated_at > now() - interval '2 minutes')`. -/
def isHeld (now : Timestamp) (r : BroadcastRow) : Bool :=
  decide (r.state = .submitted)
    || (decide (r.state = .received) && decide (now - minutes 2 < r.updatedAt))

section

variable (now : Timestamp) (h : TxHash) (reason : String) (r : BroadcastRow)

@[simp] theorem key_submit : key (r.submit now h) = key r := rfl
@[simp] theorem key_reject : key (r.reject now reason) = key r := rfl
@[simp] theorem submit_state : (r.submit now h).state = .submitted := rfl
@[simp] theorem reject_state : (r.reject now reason).state = .rejected := rfl

end

end BroadcastRow

abbrev BroadcastTable : Type := RequestTable BroadcastRow

/-! ## The statements and requests as calls -/

/-- The statements the broadcast engine sends. -/
inductive BroadcastQuery : Type where
  | insertRequest (chainId : ℕ) (fromAddress : Address) (executionId : ExecutionId)
  | latestRequest (executionId : ExecutionId)
  | markSubmitted (executionId : ExecutionId) (revision : ℕ) (txHash : TxHash)
  | markRejected (executionId : ExecutionId) (revision : ℕ) (reason : String)
  deriving DecidableEq

/-- What a statement returns when it succeeds. -/
@[reducible]
def BroadcastQuery.Rows : BroadcastQuery → Type
  | .insertRequest _ _ _ => Option ℕ
  | .latestRequest _ => BroadcastState × Option TxHash × Option String
  | .markSubmitted _ _ _ => ℕ
  | .markRejected _ _ _ => ℕ

/-- A row inserted in state `'received'`. -/
def BroadcastRow.received (now : Timestamp) (chainId : ℕ) (fromAddress : Address)
    (e : ExecutionId) (revision : ℕ) : BroadcastRow where
  executionId := e
  revision := revision
  chainId := chainId
  fromAddress := fromAddress
  txHash := none
  state := .received
  rejectionReason := none
  updatedAt := now

/-- The effect of a statement, or its error. -/
def BroadcastQuery.execute (now : Timestamp) (t : BroadcastTable) :
    (q : BroadcastQuery) → Except SqlxError (q.Rows × BroadcastTable)
  | .insertRequest chainId fromAddress e =>
      t.insertUnless e (BroadcastRow.isHeld now) (.received now chainId fromAddress e)
  | .latestRequest e =>
    match t.newest e with
    | some r => .ok ((r.state, r.txHash, r.rejectionReason), t)
    | none => .error .rowNotFound
  | .markSubmitted e revision txHash =>
      t.updateWhere e revision (fun _ => true) (BroadcastRow.submit now txHash)
  | .markRejected e revision reason =>
      t.updateWhere e revision (fun _ => true) (BroadcastRow.reject now reason)

/-- What the broadcast engine asks of its surroundings. -/
inductive BroadcastCall : Type where
  | query (q : BroadcastQuery)
  /-- `eth_sendRawTransaction`, for the given row of the table -/
  | sendRawTransaction (chainId : ChainId) (stickyIndex : ℕ) (txn : SignedTransaction)
      (executionId : ExecutionId) (revision : ℕ)
  /-- `eth_getTransactionCount` -/
  | getTransactionCount (chainId : ChainId) (stickyIndex : ℕ) (fromAddress : Address)
  deriving DecidableEq

/-- The replies. -/
@[reducible]
def BroadcastCall.Reply : BroadcastCall → Type
  | .query q => Except SqlxError q.Rows
  | .sendRawTransaction _ _ _ _ _ => Except LobbyRpcError TxHash
  | .getTransactionCount _ _ _ => Except LobbyRpcError TxNonce

abbrev BroadcastProg (α : Type) : Type := Prog BroadcastCall BroadcastCall.Reply α

/-- Make one call. -/
abbrev BroadcastCall.ask (c : BroadcastCall) : BroadcastProg c.Reply := perform c

/-! ## The handler -/

/-- `str::contains`. -/
def contains (text pattern : String) : Bool := decide (pattern.toList <:+: text.toList)

/-- The text of an RPC error as the handler classifies and stores it. -/
def rpcErrorText (e : LobbyRpcError) : String := (BroadcastError.rpcError e.debug).toString

/-- The errors the handler takes for a nonce mismatch. -/
def isNonceMismatch (errStr : String) : Bool :=
  contains errStr "nonce" || contains errStr "known transaction"

/-- A database error as a broadcast error. -/
def BroadcastError.ofSqlx (e : SqlxError) : BroadcastError := .databaseError e.toString

/-- The reply for an execution that already has a live request. -/
def earlierOutcome : BroadcastState × Option TxHash × Option String →
    Except BroadcastError BroadcastOutcome
  | (.submitted, some txHash, _) => .ok ⟨txHash⟩
  | (.submitted, none, _) =>
      .error (.invariant "Tx hash submitted with invalid format")
  | (.rejected, _, reason) =>
      .error (.rejected (reason.getD "rejection reason unknown to database"))
  | (.received, _, _) => .error (.databaseError "unknown database inclusion error")

/-- Record how the request was answered. -/
def recordReply (chainId : ChainId) (fromAddress : Address) (executionId : ExecutionId)
    (txn : SignedTransaction) (stickyIndex revision : ℕ) :
    Except LobbyRpcError TxHash → BroadcastProg (Except BroadcastError BroadcastOutcome)
  | .ok txnHash => do
    match ← (BroadcastCall.query (.markSubmitted executionId revision txnHash)).ask with
    | .error e => .ret (.error (.ofSqlx e))
    | .ok _ => .ret (.ok ⟨txnHash⟩)
  | .error err =>
    let errStr := rpcErrorText err
    if isNonceMismatch errStr then do
      -- the count is asked first: when it fails, the row stays received
      match ← (BroadcastCall.getTransactionCount chainId stickyIndex fromAddress).ask with
      | .error e => .ret (.error (.rpcError e.debug))
      | .ok nonceOnChain =>
        match ← (BroadcastCall.query (.markRejected executionId revision errStr)).ask with
        | .error e => .ret (.error (.ofSqlx e))
        | .ok _ => .ret (.error (.nonceTooLow nonceOnChain txn.withNonce))
    else do
      match ← (BroadcastCall.query (.markRejected executionId revision errStr)).ask with
      | .error e => .ret (.error (.ofSqlx e))
      | .ok _ => .ret (.error (.rejected errStr))

/-- Send the transaction, for a row that has just been inserted. -/
def sendRequest (chainId : ChainId) (fromAddress : Address) (executionId : ExecutionId)
    (txn : SignedTransaction) (stickyIndex revision : ℕ) :
    BroadcastProg (Except BroadcastError BroadcastOutcome) := do
  let reply ← (BroadcastCall.sendRawTransaction chainId stickyIndex txn executionId
    revision).ask
  recordReply chainId fromAddress executionId txn stickyIndex revision reply

/-- `handle_broadcast`. -/
def handleBroadcast (chainId : ChainId) (fromAddress : Address) (executionId : ExecutionId)
    (txn : SignedTransaction) (stickyIndex : ℕ) :
    BroadcastProg (Except BroadcastError BroadcastOutcome) :=
  match chainId.id.toI64 with
  | none => .ret (.error (.invariant "chain_id does not fit in i64"))
  | some chainIdI64 => do
    match ← (BroadcastCall.query (.insertRequest chainIdI64 fromAddress executionId)).ask with
    | .error e => .ret (.error (.ofSqlx e))
    | .ok (some revision) =>
      sendRequest chainId fromAddress executionId txn stickyIndex revision
    | .ok none =>
      -- no row was inserted, so an earlier request is answered for
      match ← (BroadcastCall.query (.latestRequest executionId)).ask with
      | .error e => .ret (.error (.ofSqlx e))
      | .ok row => .ret (earlierOutcome row)

end Lobby
