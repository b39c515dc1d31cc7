/-
# The sign engine

The table `sign.sign_requests` and the two handlers of `SignEngine`, as programs over the
SQL statements they send.
-/
import Lobby.RequestTable
import Lobby.Signing
import Lobby.Interaction

namespace Lobby

open Revisions Interaction Prog

/-! ## The table -/

structure SignRow where
  executionId : ExecutionId
  revision : ℕ
  chainId : ℕ
  fromAddress : Address
  signedTx : Option (List UInt8)
  state : SignState
  updatedAt : Timestamp
  deriving DecidableEq

instance : RequestRow SignRow where
  owner := SignRow.executionId
  revision := SignRow.revision
  isActive r := match r.state with
    | .reserved => true
    | .signed => true
    | .failed => false
  activeIndex := "uniq_active_reservation"
  primaryKeyName := "sign_requests_pkey"
  revisionBound := i64Bound
  outOfRange := .bigintOutOfRange

namespace SignRow

/-- `SET state = s` with the trigger `touch_updated_at`. -/
def setState (now : Timestamp) (s : SignState) (r : SignRow) : SignRow :=
  { r with state := s, updatedAt := if s = r.state then r.updatedAt else now }

/-- `state = 'signed' OR (state = 'reserved' AND updated_at > now() - interval '2 minutes')`. -/
def isHeld (now : Timestamp) (r : SignRow) : Bool :=
  decide (r.state = .signed)
    || (decide (r.state = .reserved) && decide (now - minutes 2 < r.updatedAt))

/-- `state = 'reserved' AND updated_at > now() - interval '5 minutes'`. -/
def isPending (now : Timestamp) (r : SignRow) : Bool :=
  decide (r.state = .reserved) && decide (now - minutes 5 < r.updatedAt)

end SignRow

abbrev SignTable : Type := RequestTable SignRow

/-! ## The statements as calls -/

/-- The statements the sign engine sends. -/
inductive SignQuery : Type where
  | insertRequest (chainId : ℕ) (fromAddress : Address) (executionId : ExecutionId)
  | markSigned (executionId : ExecutionId) (revision : ℕ) (signedTx : List UInt8)
  | markFailed (executionId : ExecutionId) (revision : ℕ)
  | revertSigned (executionId : ExecutionId)
  | latest (executionId : ExecutionId)
  deriving DecidableEq

/-- What a statement returns when it succeeds. -/
@[reducible]
def SignQuery.Rows : SignQuery → Type
  | .insertRequest _ _ _ => Option ℕ
  | .markSigned _ _ _ => ℕ
  | .markFailed _ _ => ℕ
  | .revertSigned _ => ℕ
  | .latest _ => Option SignState

abbrev SignQuery.Reply (q : SignQuery) : Type := Except SqlxError q.Rows

/-- Send one statement. -/
abbrev SignQuery.fetch (q : SignQuery) : Prog SignQuery SignQuery.Reply q.Reply := perform q

/-- The effect of a statement, or its error. -/
def SignQuery.execute (now : Timestamp) (t : SignTable) :
    (q : SignQuery) → Except SqlxError (q.Rows × SignTable)
  | .insertRequest chainId fromAddress e =>
      t.insertUnless e (SignRow.isHeld now) fun revision =>
        { executionId := e
          revision := revision
          chainId := chainId
          fromAddress := fromAddress
          signedTx := none
          state := .reserved
          updatedAt := now }
  | .markSigned e revision signedTx =>
      t.updateWhere e revision (SignRow.isPending now) fun r =>
        { r.setState now .signed with signedTx := some signedTx }
  | .markFailed e revision =>
      t.updateWhere e revision (SignRow.isPending now) (SignRow.setState now .failed)
  | .revertSigned e =>
      t.updateLatest e (fun r => decide (r.state = .signed)) (SignRow.setState now .failed)
  | .latest e => .ok ((t.newest e).map SignRow.state, t)

/-! ## The handlers -/

/-- What the caller sees when the actor dies before it replies. -/
def LocalError.signReplyDropped : LocalError :=
  .internal "sign actor has dropped its reply channel"

/-- `handle_sign`. -/
def handleSign (crypto : Crypto) (custodyKeys : JsonPolicyEngine) (fromAddress : Address)
    (chainId : ChainId) (executionId : ExecutionId) (txn : Eip1559Transaction) :
    Prog SignQuery SignQuery.Reply (Except LocalError SignedTransaction) :=
  match custodyKeys.resolveKey crypto fromAddress with
  | .error e => .ret (.error e)
  | .ok pvtKey =>
    match chainId.id.toI64 with
    | none => .ret (.error (.invariant "Chain_id does not fit in i64"))
    | some chainIdI64 => do
      -- the row is inserted before anything is signed
      match ← (SignQuery.insertRequest chainIdI64 fromAddress executionId).fetch with
      | .error e => .ret (.error (.ofSqlx e))
      | .ok none => .ret (.error (.invariant "Invariant failed while state insertion"))
      | .ok (some revision) =>
        match signEip1559Transaction crypto txn pvtKey with
        | none => .ret (.error .signReplyDropped)
        | some (.ok signedTx) =>
          match ← (SignQuery.markSigned executionId revision signedTx.rlp).fetch with
          | .error e => .ret (.error (.ofSqlx e))
          | .ok rowsAffected =>
            if rowsAffected ≠ 1 then
              .ret (.error (.invariant "Invalid sign_requests state transition"))
            else .ret (.ok signedTx)
        | some (.error e) =>
          match ← (SignQuery.markFailed executionId revision).fetch with
          | .error err => .ret (.error (.ofSqlx err))
          | .ok rowsAffected =>
            if rowsAffected ≠ 1 then
              .ret (.error (.invariant "Invalid sign_requests state transition"))
            else .ret (.error e)

/-- `handle_revert`. -/
def handleRevert (executionId : ExecutionId) :
    Prog SignQuery SignQuery.Reply (Except LocalError Unit) := do
  match ← (SignQuery.revertSigned executionId).fetch with
  | .error e => .ret (.error (.ofSqlx e))
  | .ok rowsAffected =>
    if rowsAffected > 0 then .ret (.ok ())
    else
      match ← (SignQuery.latest executionId).fetch with
      | .error e => .ret (.error (.ofSqlx e))
      | .ok (some .reserved) =>
        .ret (.error (.internal "txn should have been signed by now, update failed"))
      | .ok (some .failed) => .ret (.error (.internal "txn already updated to failed"))
      | .ok (some .signed) => .ret (.error (.internal "curropted state"))
      | .ok none => .ret (.error (.internal "invalid execution_id"))

/-- Whatever the database answers, a signed transaction carries the nonce it was asked
for. -/
theorem handleSign_returns (crypto : Crypto) (custodyKeys : JsonPolicyEngine)
    (fromAddress : Address) (chainId : ChainId) (executionId : ExecutionId)
    (txn : Eip1559Transaction) :
    (handleSign crypto custodyKeys fromAddress chainId executionId txn).Returns
      fun result => ∀ signed, result = .ok signed → signed.withNonce = txn.nonce := by
  unfold handleSign
  cases custodyKeys.resolveKey crypto fromAddress with
  | error e => exact fun _ h => nomatch h
  | ok pvtKey =>
      cases chainId.id.toI64 with
      | none => exact fun _ h => nomatch h
      | some chainIdI64 =>
          simp only [perform_bind]
          intro inserted
          match inserted with
          | .error e => exact fun _ h => nomatch h
          | .ok none => exact fun _ h => nomatch h
          | .ok (some revision) =>
              dsimp only
              split
              · exact fun _ h => nomatch h
              · -- signed: the update that records it may still fail
                rename_i signedTx hsign
                intro marked
                dsimp only
                split
                · exact fun _ h => nomatch h
                · split
                  · exact fun _ h => nomatch h
                  · intro signed hsigned
                    cases hsigned
                    exact withNonce_of_sign hsign
              · -- not signed: whatever becomes of the update, an error is returned
                intro marked
                dsimp only
                split
                · exact fun _ h => nomatch h
                · split <;> exact fun _ h => nomatch h

end Lobby
