/-
# The relay host over a database that may fail

`RelayHostEngine::handle_submit_transaction` with its two statements.  A statement may fail, or
run while its acknowledgement is lost.  Without faults it is the function of `Lobby.RelayHost`
(`submitIntent_smooth`).  Whatever fails, a call adds the row of its transaction or nothing, and
it succeeds only if the execution has a row (`submitIntent_cases`); so a call that is repeated
after a lost acknowledgement adds no second one.
-/
import Lobby.RelayHost
import Lobby.RequestTable
import Lobby.Interaction

namespace Lobby

open Interaction Prog

/-- The statements of the relay host. -/
inductive RelayHostQuery : Type where
  /-- `SELECT EXISTS(... WHERE execution_id = $1)` -/
  | existsIntent (executionId : ExecutionId)
  /-- `INSERT INTO relay_host.transaction_intents` -/
  | insertIntent (row : TransactionIntent)
  deriving DecidableEq

namespace RelayHostQuery

@[reducible]
def Rows : RelayHostQuery → Type
  | .existsIntent _ => Bool
  | .insertIntent _ => Unit

@[reducible]
def Reply (q : RelayHostQuery) : Type := Except SqlxError q.Rows

/-- The effect of a statement. -/
def execute (t : TransactionIntents) :
    (q : RelayHostQuery) → Except SqlxError (q.Rows × TransactionIntents)
  | .existsIntent e => .ok (t.holds e, t)
  | .insertIntent row => (t.insert row).map fun t' => ((), t')

abbrev ask (q : RelayHostQuery) : Prog RelayHostQuery Reply q.Reply := perform q

end RelayHostQuery

/-- `handle_submit_transaction`. -/
def RelayHostEngine.handleSubmitTransaction (executionId : ExecutionId)
    (txn : Eip1559Transaction) (clientConfig : ClientConfig) :
    Prog RelayHostQuery RelayHostQuery.Reply (Except RelayHostError Unit) := do
  match ← (RelayHostQuery.existsIntent executionId).ask with
  | .error e => return .error (.databaseError e)
  | .ok true => return .ok ()
  | .ok false =>
    match transactionLint txn with
    | .error e => return .error e
    | .ok () =>
      match toIntent executionId txn clientConfig with
      | .error e => return .error e
      | .ok row =>
        match ← (RelayHostQuery.insertIntent row).ask with
        | .error e => return .error (.databaseError e)
        | .ok () => return .ok ()

/-- A statement over a table, with what happens to it. -/
def RelayHostQuery.run (fault : RelayHostQuery → DatabaseFault) (q : RelayHostQuery)
    (t : TransactionIntents) : q.Reply × TransactionIntents :=
  (fault q).reply t (q.execute t)

/-- The reply of the relay host and the table behind it. -/
def submitIntent (fault : RelayHostQuery → DatabaseFault) (t : TransactionIntents)
    (executionId : ExecutionId) (txn : Eip1559Transaction) (clientConfig : ClientConfig) :
    Except RelayHostError Unit × TransactionIntents :=
  (RelayHostEngine.handleSubmitTransaction executionId txn clientConfig).eval
    (RelayHostQuery.run fault) t

section

variable {fault : RelayHostQuery → DatabaseFault} {t t' : TransactionIntents}
  {executionId : ExecutionId} {txn : Eip1559Transaction} {clientConfig : ClientConfig}
  {r : Except RelayHostError Unit}

/-- The first statement changes nothing, and says whether the execution has a row. -/
theorem existsIntent_run (fault : RelayHostQuery → DatabaseFault) (t : TransactionIntents)
    (e : ExecutionId) :
    ((RelayHostQuery.existsIntent e).run fault t).2 = t
      ∧ ∀ b, ((RelayHostQuery.existsIntent e).run fault t).1 = .ok b → b = t.holds e := by
  rw [RelayHostQuery.run, RelayHostQuery.execute]
  cases fault (.existsIntent e) with
  | none => exact ⟨rfl, fun b hb => (Except.ok.inj hb).symm⟩
  | failed message => exact ⟨rfl, fun b hb => nomatch hb⟩
  | unacknowledged message => exact ⟨rfl, fun b hb => nomatch hb⟩

/-- The second one stores the row or changes nothing, and fails if it changes nothing. -/
theorem insertIntent_run {row : TransactionIntent} (hrow : row.violation = none)
    (hkey : t.holds row.executionId = false) (fault : RelayHostQuery → DatabaseFault) :
    ((RelayHostQuery.insertIntent row).run fault t).2.rows = row :: t.rows
      ∨ ((RelayHostQuery.insertIntent row).run fault t).2 = t
        ∧ ∃ e, ((RelayHostQuery.insertIntent row).run fault t).1 = .error e := by
  obtain ⟨t', hinsert, hrows⟩ :=
    TransactionIntents.insert_eq_ok hrow (of_decide_eq_false hkey)
  rw [RelayHostQuery.run, RelayHostQuery.execute, hinsert]
  cases fault (.insertIntent row) with
  | none => exact Or.inl hrows
  | failed message => exact Or.inr ⟨rfl, _, rfl⟩
  | unacknowledged message => exact Or.inl hrows

/-- Without faults the statements do what the function says. -/
theorem submitIntent_smooth (t : TransactionIntents) (executionId : ExecutionId)
    (txn : Eip1559Transaction) (clientConfig : ClientConfig) :
    submitIntent (fun _ => .none) t executionId txn clientConfig
      = match handleSubmitTransaction t executionId txn clientConfig with
        | .ok t' => (.ok (), t')
        | .error e => (.error e, t) := by
  have hexists : (RelayHostQuery.existsIntent executionId).run (fun _ => .none) t
      = (.ok (t.holds executionId), t) := rfl
  rw [submitIntent, RelayHostEngine.handleSubmitTransaction, handleSubmitTransaction,
    perform_bind, eval_call, hexists]
  -- a repeated execution id is accepted without a second row
  cases hholds : t.holds executionId with
  | true => rfl
  | false =>
      rw [if_neg (by simp)]
      dsimp only
      cases hlint : transactionLint txn with
      | error e => rfl
      | ok _ =>
          have hrow : toIntent executionId txn clientConfig
              = .ok (intentOf executionId txn clientConfig) := (toIntent_of_lint hlint).1
          have hviolation : (intentOf executionId txn clientConfig).violation = none :=
            (toIntent_of_lint hlint).2
          obtain ⟨t', hinsert, -⟩ :=
            TransactionIntents.insert_eq_ok hviolation (of_decide_eq_false hholds)
          have hinserted : (RelayHostQuery.insertIntent
              (intentOf executionId txn clientConfig)).run (fun _ => .none) t = (.ok (), t') := by
            rw [RelayHostQuery.run, RelayHostQuery.execute, hinsert]
            rfl
          simp only [hrow, perform_bind, eval_call, hinserted]
          show (Except.ok (), t')
            = match (t.insert (intentOf executionId txn clientConfig)).mapError
                RelayHostError.databaseError with
              | .ok t' => (.ok (), t')
              | .error e => (.error e, t)
          rw [hinsert]
          rfl

/-- **One call**: the row of the transaction is added, or nothing; and a call that succeeds
leaves a row of the execution. -/
theorem submitIntent_cases (h : submitIntent fault t executionId txn clientConfig = (r, t')) :
    t' = t ∧ (r = .ok () → t.holds executionId = true)
      ∨ t.holds executionId = false ∧ transactionLint txn = .ok ()
        ∧ t'.rows = intentOf executionId txn clientConfig :: t.rows := by
  obtain ⟨hsame, hread⟩ := existsIntent_run fault t executionId
  rw [submitIntent, RelayHostEngine.handleSubmitTransaction, perform_bind, eval_call, hsame] at h
  match hfound : ((RelayHostQuery.existsIntent executionId).run fault t).1 with
  | .error e =>
      rw [hfound] at h
      cases h
      exact Or.inl ⟨rfl, fun hok => nomatch hok⟩
  | .ok true =>
      rw [hfound] at h
      cases h
      exact Or.inl ⟨rfl, fun _ => (hread true hfound).symm⟩
  | .ok false =>
      have hholds : t.holds executionId = false := (hread false hfound).symm
      rw [hfound] at h
      dsimp only at h
      cases hlint : transactionLint txn with
      | error e =>
          rw [hlint] at h
          cases h
          exact Or.inl ⟨rfl, fun hok => nomatch hok⟩
      | ok _ =>
          have hrow : toIntent executionId txn clientConfig
              = .ok (intentOf executionId txn clientConfig) := (toIntent_of_lint hlint).1
          have hviolation : (intentOf executionId txn clientConfig).violation = none :=
            (toIntent_of_lint hlint).2
          simp only [hlint, hrow, perform_bind, eval_call] at h
          -- a lost acknowledgement leaves the row behind an error
          rcases insertIntent_run hviolation hholds fault with hrows | ⟨hleft, e, herror⟩
          · refine Or.inr ⟨hholds, rfl, ?_⟩
            rw [← hrows]
            split at h <;> cases h <;> rfl
          · rw [herror] at h
            cases h
            exact Or.inl ⟨hleft, fun hok => nomatch hok⟩

end

end Lobby
