/-
# The nonce engine

The three handlers of `NonceEngine` and the sweeper's query, as programs over the SQL
statements of `Lobby.NonceTable`.  Run against a database that answers every statement
they become operations on a table; the lemmas say what each operation answers and what
it leaves behind, in terms of its first statement.
-/
import Lobby.NonceTable
import Lobby.Interaction

namespace Lobby

open Interaction Prog

/-! ## The statements as calls -/

/-- The statements the nonce engine sends. -/
inductive NonceQuery : Type where
  | reserveCandidate (chainId : ℕ) (fromAddress : Address) (executionId : ExecutionId)
  | existing (executionId : ExecutionId)
  | syncReserve (chainId : ℕ) (fromAddress : Address) (executionId : ExecutionId)
      (nonceOnChain : ℕ)
  | resolve (executionId : ExecutionId) (state : NonceState)
  | latest (executionId : ExecutionId)
  deriving DecidableEq

/-- What a statement returns when it succeeds. -/
@[reducible]
def NonceQuery.Rows : NonceQuery → Type
  | .reserveCandidate _ _ _ => Option (ℕ × ℕ)
  | .existing _ => Option (ℕ × NonceState)
  | .syncReserve _ _ _ _ => Option (ℕ × ℕ)
  | .resolve _ _ => ℕ
  | .latest _ => Option NonceState

abbrev NonceQuery.Reply (q : NonceQuery) : Type := Except SqlxError q.Rows

/-- Send one statement. -/
abbrev NonceQuery.fetch (q : NonceQuery) : Prog NonceQuery NonceQuery.Reply q.Reply :=
  perform q

/-- The effect of a statement, or its error. -/
def NonceTable.execute (now : Timestamp) (t : NonceTable) :
    (q : NonceQuery) → Except SqlxError (q.Rows × NonceTable)
  | .reserveCandidate chainId fromAddress e => t.reserveCandidate now chainId fromAddress e
  | .existing e => .ok ((t.existing e).map fun r => (r.nonce, r.state), t)
  | .syncReserve chainId fromAddress e nonceOnChain =>
      t.syncReserve now chainId fromAddress e nonceOnChain
  | .resolve e s => t.resolveUpdate now e s
  | .latest e => .ok (t.latestState e, t)

/-! ## The handlers -/

/-- `handle_reserve`. -/
def handleReserve (chainId : ChainId) (fromAddress : Address) (executionId : ExecutionId) :
    Prog NonceQuery NonceQuery.Reply (Except LocalError TxNonce) :=
  match chainId.id.toI64 with
  | none => .ret (.error (.invariant "chain_id does not fit in i64"))
  | some chainIdI64 => do
    match ← (NonceQuery.reserveCandidate chainIdI64 fromAddress executionId).fetch with
    | .error e => .ret (.error (.ofSqlx e))
    | .ok (some (nonce, _)) => .ret (TxNonce.tryFrom nonce)
    | .ok none =>
      match ← (NonceQuery.existing executionId).fetch with
      | .error e => .ret (.error (.ofSqlx e))
      | .ok none => .ret (.error (.ofSqlx .rowNotFound))
      | .ok (some (nonce, _)) => .ret (TxNonce.tryFrom nonce)

/-- `handle_sync`. -/
def handleSync (chainId : ChainId) (fromAddress : Address) (executionId : ExecutionId)
    (nonceOnChain : TxNonce) :
    Prog NonceQuery NonceQuery.Reply (Except LocalError TxNonce) :=
  match chainId.id.toI64 with
  | none => .ret (.error (.invariant "chain_id does not fit in i64"))
  | some chainIdI64 =>
    match nonceOnChain.value.toI64 with
    | none => .ret (.error (.invariant "nonce_on_chain does not fit in i64"))
    | some nonceOnChainI64 => do
      match ← (NonceQuery.syncReserve chainIdI64 fromAddress executionId
          nonceOnChainI64).fetch with
      | .error e => .ret (.error (.ofSqlx e))
      | .ok (some (nonce, _)) => .ret (TxNonce.tryFrom nonce)
      | .ok none =>
        -- nothing was inserted: an earlier row of the execution answers, whatever its nonce
        match ← (NonceQuery.existing executionId).fetch with
        | .error e => .ret (.error (.ofSqlx e))
        | .ok (some (nonce, _)) => .ret (TxNonce.tryFrom nonce)
        | .ok none =>
          .ret (.error (.rejected ("nonce " ++ nonceOnChain.value.toNat.repr
            ++ " was already reserved by another execution during sync")))

/-- `{:?}` of a nonce state. -/
def NonceState.debug : NonceState → String
  | .reserved => "Reserved"
  | .finalized => "Finalized"
  | .released => "Released"
  | .consumed => "Consumed"

/-- `handle_resolve`. -/
def handleResolve (executionId : ExecutionId) (state : NonceState) :
    Prog NonceQuery NonceQuery.Reply (Except LocalError Unit) :=
  match state with
  | .reserved => .ret (.error (.internal "noce should have been 'reserved' by now"))
  | .finalized | .released | .consumed => do
    match ← (NonceQuery.resolve executionId state).fetch with
    | .error e => .ret (.error (.ofSqlx e))
    | .ok rowsAffected =>
      if rowsAffected > 0 then .ret (.ok ())
      else
        -- no reserved row was left to update: the latest one decides
        match ← (NonceQuery.latest executionId).fetch with
        | .error e => .ret (.error (.ofSqlx e))
        | .ok none => .ret (.error (.invariant "invalid execution_id"))
        | .ok (some latest) =>
          if latest = state then .ret (.ok ())
          else if latest = .reserved then
            .ret (.error (.invariant "expected reserved state but UPDATE failed"))
          else
            .ret (.error (.internal ("execution_id already resolved to " ++ latest.debug
              ++ ", cannot transition to " ++ state.debug)))

/-! ## The operations on a table -/

namespace NonceTable

/-- A database that answers every statement. -/
def answer (now : Timestamp) (q : NonceQuery) (t : NonceTable) : q.Reply × NonceTable :=
  match t.execute now q with
  | .ok (rows, t') => (.ok rows, t')
  | .error e => (.error e, t)

/-- `reserve` on a table: the reply and the table after it. -/
def reserve (t : NonceTable) (now : Timestamp) (chainId : ChainId) (fromAddress : Address)
    (e : ExecutionId) : Except LocalError TxNonce × NonceTable :=
  (handleReserve chainId fromAddress e).eval (answer now) t

/-- `sync` on a table. -/
def sync (t : NonceTable) (now : Timestamp) (chainId : ChainId) (fromAddress : Address)
    (e : ExecutionId) (nonceOnChain : TxNonce) : Except LocalError TxNonce × NonceTable :=
  (handleSync chainId fromAddress e nonceOnChain).eval (answer now) t

/-- `resolve` on a table. -/
def resolve (t : NonceTable) (now : Timestamp) (e : ExecutionId) (s : NonceState) :
    Except LocalError Unit × NonceTable :=
  (handleResolve e s).eval (answer now) t

/-- One tick of the sweeper. -/
def sweep (t : NonceTable) (now : Timestamp) : NonceTable :=
  match t.expireStates now with
  | .ok (_, t') => t'
  | .error _ => t

variable {t t' : NonceTable} {now : Timestamp} {chainId : ChainId} {c : ℕ}
  {fromAddress : Address} {e : ExecutionId}

@[simp] theorem answer_existing : answer now (.existing e) t
    = (.ok ((t.existing e).map fun r => (r.nonce, r.state)), t) := rfl

@[simp] theorem answer_latest : answer now (.latest e) t = (.ok (t.latestState e), t) := rfl

theorem reserve_of_toI64_none (hchain : chainId.id.toI64 = none) :
    t.reserve now chainId fromAddress e
      = (.error (.invariant "chain_id does not fit in i64"), t) := by
  rw [reserve, handleReserve, hchain]
  rfl

/-- A failed `INSERT` leaves the table as it was. -/
theorem reserve_of_error {err : SqlxError} (hchain : chainId.id.toI64 = some c)
    (hinsert : t.reserveCandidate now c fromAddress e = .error err) :
    t.reserve now chainId fromAddress e = (.error (.ofSqlx err), t) := by
  simp [reserve, handleReserve, hchain, answer, execute, hinsert]

/-- A new row answers with its nonce. -/
theorem reserve_of_insert {nonce revision : ℕ} (hchain : chainId.id.toI64 = some c)
    (hinsert : t.reserveCandidate now c fromAddress e
      = .ok (some (nonce, revision), t')) :
    t.reserve now chainId fromAddress e = (TxNonce.tryFrom nonce, t') := by
  simp [reserve, handleReserve, hchain, answer, execute, hinsert]

/-- Without a new row the newest row that holds a nonce answers. -/
theorem reserve_of_held (hchain : chainId.id.toI64 = some c)
    (hinsert : t.reserveCandidate now c fromAddress e = .ok (none, t')) :
    t.reserve now chainId fromAddress e
      = ((match t'.existing e with
          | some r => TxNonce.tryFrom r.nonce
          | none => .error (.ofSqlx .rowNotFound)), t') := by
  cases hexisting : t'.existing e <;>
    simp [reserve, handleReserve, hchain, answer, execute, hinsert, hexisting]

theorem sync_of_toI64_none {nonceOnChain : TxNonce}
    (h : chainId.id.toI64 = none ∨ nonceOnChain.value.toI64 = none) :
    (t.sync now chainId fromAddress e nonceOnChain).2 = t := by
  rw [sync, handleSync]
  cases hchain : chainId.id.toI64 with
  | none => rfl
  | some c =>
      have hnonce := h.resolve_left (by simp [hchain])
      simp [hnonce]

/-- `sync` ends in the table its `INSERT` leaves, and as it was when that failed. -/
theorem sync_snd (t : NonceTable) (now : Timestamp) (fromAddress : Address)
    (e : ExecutionId) {nonceOnChain : TxNonce} {n : ℕ} (hchain : chainId.id.toI64 = some c)
    (hnonce : nonceOnChain.value.toI64 = some n) :
    (t.sync now chainId fromAddress e nonceOnChain).2
      = match t.syncReserve now c fromAddress e n with
        | .ok (_, t') => t'
        | .error _ => t := by
  rw [sync, handleSync]
  simp only [hchain, hnonce, perform_bind, eval_call, answer, execute]
  cases hinsert : t.syncReserve now c fromAddress e n with
  | error err => simp
  | ok reply =>
      obtain ⟨rows, t'⟩ := reply
      cases rows with
      | none => cases hexisting : t'.existing e <;> simp [hexisting]
      | some row => simp

/-- `resolve` ends in the table its `UPDATE` leaves. -/
theorem resolve_snd {s : NonceState} (hs : s ≠ .reserved) {n : ℕ}
    (hupdate : t.resolveUpdate now e s = .ok (n, t')) :
    (t.resolve now e s).2 = t' := by
  unfold resolve
  cases s with
  | reserved => exact absurd rfl hs
  | finalized | released | consumed =>
      simp only [handleResolve, perform_bind, eval_call, answer, execute, hupdate]
      by_cases hn : n > 0
      · simp [hn]
      · cases hlatest : t'.latestState e with
        | none => simp [hn, hlatest]
        | some s => cases s <;> simp [hn, hlatest]

theorem resolve_reserved : t.resolve now e .reserved
    = (.error (.internal "noce should have been 'reserved' by now"), t) := rfl

theorem sweep_eq {released : List (ℕ × ExecutionId)}
    (h : t.expireStates now = .ok (released, t')) : t.sweep now = t' := by
  rw [sweep, h]

end NonceTable

end Lobby
