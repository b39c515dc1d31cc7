/-
# The ledger of broadcast requests

Sequences of `handle_broadcast` calls for any executions, with any transactions and RPC
replies, and any database fault at any statement.  At most one row of an execution is
received or submitted, and it is the newest; a call that answered with a hash is answered
with it ever after, without another request (`broadcast_agreement`).
-/
import Lobby.BroadcastEngine

namespace Lobby

open Revisions Interaction Prog

/-- The broadcast table, and what was handed to the network, the latest first. -/
structure BroadcastLedger where
  table : BroadcastTable
  sent : List SignedTransaction

/-- What `handle_broadcast` is called with. -/
structure BroadcastCommand where
  chainId : ChainId
  fromAddress : Address
  executionId : ExecutionId
  txn : SignedTransaction
  stickyIndex : ℕ

def BroadcastCommand.handler (command : BroadcastCommand) :
    BroadcastProg (Except BroadcastError BroadcastOutcome) :=
  handleBroadcast command.chainId command.fromAddress command.executionId command.txn
    command.stickyIndex

namespace BroadcastLedger

def empty : BroadcastLedger := ⟨.empty, []⟩

/-- What a call of the handler may be answered and do.  Statements run at any time and meet
some of the given faults; the node answers anything. -/
def Step (faults : DatabaseFault → Prop) :
    (c : BroadcastCall) → BroadcastLedger → c.Reply → BroadcastLedger → Prop
  | .query q, w, reply, w' => ∃ now fault, faults fault
      ∧ (reply, w'.table) = fault.reply w.table (q.execute now w.table) ∧ w'.sent = w.sent
  | .sendRawTransaction _ _ txn _ _, w, _, w' => w' = { w with sent := txn :: w.sent }
  | .getTransactionCount _ _ _, w, _, w' => w' = w

/-- One call of the handler, with its reply. -/
def Call (faults : DatabaseFault → Prop) (command : BroadcastCommand) (w : BroadcastLedger)
    (reply : Except BroadcastError BroadcastOutcome) (w' : BroadcastLedger) : Prop :=
  command.handler.Runs (Step faults) w reply w'

/-- Any sequence of calls. -/
inductive Calls : BroadcastLedger → BroadcastLedger → Prop where
  | refl (w) : Calls w w
  | next {w w' w'' command reply} (h : Calls w w')
      (hcall : Call (fun _ => True) command w' reply w'') : Calls w w''

variable {faults : DatabaseFault → Prop} {command : BroadcastCommand}
  {w w' w'' : BroadcastLedger} {reply : Except BroadcastError BroadcastOutcome}
  {e : ExecutionId} {t t' : BroadcastTable} {row : BroadcastRow}

/-! ## One call -/

/-- A statement at some time, with some fault. -/
theorem answers_of_step {q : BroadcastQuery} {reply : (BroadcastCall.query q).Reply}
    (h : Step faults (.query q) w reply w') :
    ∃ now t', w' = ⟨t', w.sent⟩ ∧ Answers w.table (q.execute now w.table) reply t' := by
  obtain ⟨now, fault, _, heq, hsent⟩ := h
  have hanswers := fault.answers w.table (q.execute now w.table)
  rw [← heq] at hanswers
  exact ⟨now, w'.table, by rw [← hsent], hanswers⟩

/-- The table has the given row besides those of another table, under the next revision of
an execution without a row that is received or submitted. -/
structure Adds (e : ExecutionId) (t : BroadcastTable) (row : BroadcastRow)
    (t' : BroadcastTable) : Prop where
  rows : t'.rows = t.rows ++ [row]
  executionId : row.executionId = e
  revision : row.revision = nextRevision t.rows e
  free : ∀ r ∈ t.rows, r.executionId = e → RequestRow.isActive r = false

/-- The `INSERT` adds a row only beside rejected ones. -/
theorem adds_of_insert {now : Timestamp} {chainId : ℕ} {fromAddress : Address}
    {reply : Option ℕ}
    (h : (BroadcastQuery.insertRequest chainId fromAddress e).execute now t
      = .ok (reply, t')) :
    reply = none ∧ t' = t
    ∨ ∃ revision, reply = some revision ∧ revision = nextRevision t.rows e
        ∧ Adds e t (.received now chainId fromAddress e revision) t' := by
  rcases RequestTable.insertUnless_eq_ok.mp h with ⟨_, hreply, ht⟩ | ⟨_, hreply, hrows⟩
  · exact Or.inl ⟨hreply, ht⟩
  · exact Or.inr ⟨_, hreply, rfl, hrows, rfl, rfl,
      RequestTable.inactive_of_append hrows rfl rfl⟩

/-- An `UPDATE` of the new row touches no other. -/
theorem Adds.update {f : BroadcastRow → BroadcastRow} {n : ℕ} {t'' : BroadcastTable}
    (h : Adds e t row t') (hf : ∀ r, key (f r) = key r)
    (hupdate : t'.updateWhere e row.revision (fun _ => true) f = .ok (n, t'')) :
    Adds e t (f row) t'' := by
  have hkey : key (f row) = (e, row.revision) := (hf row).trans (Prod.ext h.executionId rfl)
  obtain ⟨_, hrows⟩ := RequestTable.updateWhere_append h.rows h.executionId h.revision hupdate
  exact ⟨hrows, congrArg Prod.fst hkey, (congrArg Prod.snd hkey).trans h.revision, h.free⟩

/-- A statement that marks the new row leaves it there. -/
theorem Adds.mark {q : BroadcastQuery} {f : BroadcastRow → BroadcastRow}
    {reply : Except SqlxError q.Rows} {t'' : BroadcastTable} (h : Adds e t row t')
    (hf : ∀ r, key (f r) = key r)
    (hq : ∀ rows, q.execute now t' = .ok (rows, t'') → ∃ n,
      t'.updateWhere e row.revision (fun _ => true) f = .ok (n, t''))
    (hanswers : Answers t' (q.execute now t') reply t'') :
    ∃ row', Adds e t row' t'' ∧ ∀ rows, reply = .ok rows → row' = f row := by
  cases hanswers with
  | failed err => exact ⟨row, h, fun _ h => nomatch h⟩
  | done hdone =>
      obtain ⟨n, hn⟩ := hq _ hdone
      exact ⟨f row, h.update hf hn, fun _ _ => rfl⟩
  | unacknowledged hdone err =>
      obtain ⟨n, hn⟩ := hq _ hdone
      exact ⟨f row, h.update hf hn, fun _ h => nomatch h⟩

/-- The `SELECT` changes nothing, and answers with the newest row. -/
theorem latestRequest_eq_ok {now : Timestamp}
    {found : BroadcastState × Option TxHash × Option String}
    (h : (BroadcastQuery.latestRequest e).execute now t = .ok (found, t')) :
    t' = t ∧ ∃ r, t.newest e = some r ∧ found = (r.state, r.txHash, r.rejectionReason) := by
  rw [BroadcastQuery.execute] at h
  cases hnewest : t.newest e with
  | none =>
      rw [hnewest] at h
      cases h
  | some r =>
      rw [hnewest] at h
      cases h
      exact ⟨rfl, r, rfl, rfl⟩

/-- The reply for an execution that already has a live request. -/
theorem latest_cases
    {next : Except SqlxError (BroadcastState × Option TxHash × Option String) →
      BroadcastProg (Except BroadcastError BroadcastOutcome)}
    (hnextErr : ∀ err, next (.error err) = .ret (.error (.ofSqlx err)))
    (hnextOk : ∀ row, next (.ok row) = .ret (earlierOutcome row))
    (h : (call (.query (.latestRequest e)) next : BroadcastProg _).Runs (Step faults) w reply
      w') :
    w' = w ∧ ∀ outcome, reply = .ok outcome →
      ∃ r, w.table.newest e = some r ∧ r.state = .submitted
        ∧ r.txHash = some outcome.txnHash := by
  obtain ⟨row, w₁, hstep, h⟩ := runs_call_iff.mp h
  obtain ⟨now, t₁, rfl, hanswers⟩ := answers_of_step hstep
  cases hanswers with
  | failed err =>
      rw [hnextErr] at h
      obtain ⟨rfl, rfl⟩ := runs_ret_iff.mp h
      exact ⟨rfl, fun _ h => nomatch h⟩
  | unacknowledged hdone err =>
      rw [hnextErr] at h
      obtain ⟨rfl, rfl⟩ := runs_ret_iff.mp h
      obtain ⟨rfl, _⟩ := latestRequest_eq_ok hdone
      exact ⟨rfl, fun _ h => nomatch h⟩
  | done hdone =>
      rw [hnextOk] at h
      obtain ⟨rfl, rfl⟩ := runs_ret_iff.mp h
      obtain ⟨rfl, r, hr, rfl⟩ := latestRequest_eq_ok hdone
      refine ⟨rfl, fun outcome hok => ⟨r, hr, ?_⟩⟩
      cases hstate : r.state <;> cases hhash : r.txHash <;>
        simp [hstate, hhash, earlierOutcome] at hok
      exact ⟨rfl, by rw [← hok]⟩

/-- A statement that marks the new row, before a reply that is no success. -/
theorem mark_cases {q : BroadcastQuery} {f : Timestamp → BroadcastRow → BroadcastRow}
    {next : Except SqlxError q.Rows → BroadcastProg (Except BroadcastError BroadcastOutcome)}
    (hadds : Adds e t row w.table) (hf : ∀ now r, key (f now r) = key r)
    (hq : ∀ now rows t'', q.execute now w.table = .ok (rows, t'') → ∃ n,
      w.table.updateWhere e row.revision (fun _ => true) (f now) = .ok (n, t''))
    (hnext : ∀ rows, ∃ outcome, next rows = .ret outcome)
    (h : (call (.query q) next : BroadcastProg _).Runs (Step faults) w reply w') :
    ∃ row', Adds e t row' w'.table ∧ w'.sent = w.sent ∧ ∃ rows, next rows = .ret reply
      ∧ ∀ n, rows = .ok n → ∃ now, row' = f now row := by
  obtain ⟨rows, w₁, hstep, h⟩ := runs_call_iff.mp h
  obtain ⟨now, t₁, rfl, hanswers⟩ := answers_of_step hstep
  obtain ⟨row', hadds', hmarked⟩ := hadds.mark (hf now) (fun rows => hq now rows t₁) hanswers
  obtain ⟨outcome, houtcome⟩ := hnext rows
  rw [houtcome] at h
  obtain ⟨rfl, rfl⟩ := runs_ret_iff.mp h
  exact ⟨row', hadds', rfl, rows, houtcome, fun n hn => ⟨now, hmarked n hn⟩⟩

/-- A rejection that is recorded is no success. -/
theorem reject_cases {reason : String} {err : BroadcastError}
    {next : Except SqlxError ℕ → BroadcastProg (Except BroadcastError BroadcastOutcome)}
    (hadds : Adds e t row w.table)
    (hnextErr : ∀ err', next (.error err') = .ret (.error (.ofSqlx err')))
    (hnextOk : ∀ n, next (.ok n) = .ret (.error err))
    (h : (call (.query (.markRejected e row.revision reason)) next : BroadcastProg _).Runs
      (Step faults) w reply w') :
    ∃ row', Adds e t row' w'.table ∧ ∀ outcome, reply ≠ .ok outcome := by
  have hnext : ∀ rows, ∃ err', next rows = .ret (.error err') := by
    intro rows
    cases rows with
    | error err' => exact ⟨_, hnextErr err'⟩
    | ok n => exact ⟨_, hnextOk n⟩
  obtain ⟨row', hadds', _, rows, hreply, _⟩ :=
    mark_cases (q := .markRejected e row.revision reason)
      (f := fun now => BroadcastRow.reject now reason) hadds
      (fun now => BroadcastRow.key_reject now reason)
      (fun _ rows _ hrows => ⟨rows, hrows⟩) (fun rows => (hnext rows).elim fun err' h => ⟨_, h⟩) h
  refine ⟨row', hadds', fun outcome hok => ?_⟩
  obtain ⟨err', herr'⟩ := hnext rows
  rw [hok, herr'] at hreply
  cases hreply

/-- The request for a new row, and what is recorded of its answer. -/
theorem send_cases {chainId : ChainId} {fromAddress : Address} {txn : SignedTransaction}
    {stickyIndex : ℕ} (hadds : Adds e t row w.table)
    (h : (sendRequest chainId fromAddress e txn stickyIndex row.revision).Runs (Step faults) w
      reply w') :
    ∃ row', Adds e t row' w'.table ∧ ∀ outcome, reply = .ok outcome →
      row'.state = .submitted ∧ row'.txHash = some outcome.txnHash ∧ w'.sent = txn :: w.sent := by
  obtain ⟨answer, w₁, rfl, h⟩ := runs_call_iff.mp h
  -- a success is recorded before it is answered, and every error ends in an error
  cases answer with
  | ok txnHash =>
      obtain ⟨row', hadds', hsent, rows, hreply, hmarked⟩ :=
        mark_cases (w := { w with sent := txn :: w.sent })
          (q := .markSubmitted e row.revision txnHash)
          (f := fun now => BroadcastRow.submit now txnHash) hadds
          (fun now => BroadcastRow.key_submit now txnHash)
          (fun _ rows _ hrows => ⟨rows, hrows⟩)
          (fun rows => by cases rows <;> exact ⟨_, rfl⟩) h
      refine ⟨row', hadds', fun outcome hok => ?_⟩
      cases rows with
      | error err =>
          rw [hok] at hreply
          cases hreply
      | ok n =>
          obtain ⟨now, rfl⟩ := hmarked n rfl
          rw [hok] at hreply
          cases hreply
          exact ⟨rfl, rfl, hsent⟩
  | error err =>
      have h : (recordReply chainId fromAddress e txn stickyIndex row.revision
        (.error err)).Runs (Step faults) { w with sent := txn :: w.sent } reply w' := h
      simp only [recordReply, perform_bind] at h
      by_cases hmismatch : isNonceMismatch (rpcErrorText err) = true
      · rw [if_pos hmismatch] at h
        obtain ⟨count, w₂, rfl, h⟩ := runs_call_iff.mp h
        cases count with
        | error err' =>
            obtain ⟨rfl, rfl⟩ := runs_ret_iff.mp h
            exact ⟨row, hadds, fun _ h => nomatch h⟩
        | ok nonceOnChain =>
            obtain ⟨row', hadds', hno⟩ := reject_cases (w := { w with sent := txn :: w.sent })
              hadds (fun _ => rfl) (fun _ => rfl) h
            exact ⟨row', hadds', fun outcome hok => absurd hok (hno outcome)⟩
      · rw [if_neg hmismatch] at h
        obtain ⟨row', hadds', hno⟩ := reject_cases (w := { w with sent := txn :: w.sent })
          hadds (fun _ => rfl) (fun _ => rfl) h
        exact ⟨row', hadds', fun outcome hok => absurd hok (hno outcome)⟩

/-- What one call leaves behind: nothing changes, or a row is added beside rejected ones,
which carries the hash of a success, for which the transaction was handed over. -/
theorem call_cases (h : Call faults command w reply w') :
    (w' = w ∧ ∀ outcome, reply = .ok outcome →
      ∃ r, w.table.newest command.executionId = some r ∧ r.state = .submitted
        ∧ r.txHash = some outcome.txnHash)
    ∨ ∃ row, Adds command.executionId w.table row w'.table
        ∧ ∀ outcome, reply = .ok outcome → row.state = .submitted
          ∧ row.txHash = some outcome.txnHash ∧ w'.sent = command.txn :: w.sent := by
  rw [Call, BroadcastCommand.handler, handleBroadcast] at h
  cases hchain : command.chainId.id.toI64 with
  | none =>
      rw [hchain] at h
      obtain ⟨rfl, rfl⟩ := runs_ret_iff.mp h
      exact Or.inl ⟨rfl, fun _ h => nomatch h⟩
  | some c =>
      simp only [hchain, perform_bind] at h
      obtain ⟨inserted, w₁, hinsert, h⟩ := runs_call_iff.mp h
      obtain ⟨now, t₁, rfl, hanswers⟩ := answers_of_step hinsert
      cases hanswers with
      | failed err =>
          obtain ⟨rfl, rfl⟩ := runs_ret_iff.mp h
          exact Or.inl ⟨rfl, fun _ h => nomatch h⟩
      | unacknowledged hdone err =>
          obtain ⟨rfl, rfl⟩ := runs_ret_iff.mp h
          rcases adds_of_insert hdone with ⟨_, rfl⟩ | ⟨revision, _, _, hadds⟩
          · exact Or.inl ⟨rfl, fun _ h => nomatch h⟩
          · exact Or.inr ⟨_, hadds, fun _ h => nomatch h⟩
      | done hdone =>
          rcases adds_of_insert hdone with ⟨rfl, rfl⟩ | ⟨revision, rfl, _, hadds⟩
          · exact Or.inl (latest_cases (fun _ => rfl) (fun _ => rfl) h)
          · have hsend : (sendRequest command.chainId command.fromAddress command.executionId
                command.txn command.stickyIndex (BroadcastRow.received now c command.fromAddress
                  command.executionId revision).revision).Runs (Step faults) ⟨t₁, w.sent⟩ reply
                w' := h
            have hcases := send_cases (w := ⟨t₁, w.sent⟩) hadds hsend
            exact Or.inr hcases

/-! ## The newest row -/

variable {e' : ExecutionId} {txHash : TxHash}

theorem Adds.newest (h : Adds e t row t') : t'.newest e = some row :=
  RequestTable.newest_of_append h.rows h.executionId h.revision

theorem Adds.newest_of_ne (h : Adds e t row t') (he : e' ≠ e) :
    t'.newest e' = t.newest e' := by
  have hfilter : (t'.rows.filter fun r => decide (owner r = e') && true)
      = t.rows.filter fun r => decide (owner r = e') && true := by
    rw [h.rows, List.filter_append]
    simp [h.executionId, he.symm]
  rw [RequestTable.newest, RequestTable.newest, latest, latest, hfilter]

/-- A row that is received or submitted is the newest of its execution. -/
def ActiveNewest (t : BroadcastTable) : Prop :=
  ∀ r ∈ t.rows, RequestRow.isActive r = true →
    ∀ s ∈ t.rows, s.executionId = r.executionId → s.revision ≤ r.revision

theorem Adds.activeNewest (h : Adds e t row t') (ht : ActiveNewest t) : ActiveNewest t' := by
  have howner : owner row = e := h.executionId
  refine RequestTable.NewestWhere.append ht h.rows (howner ▸ h.revision) fun s hs hsame hact => ?_
  rw [h.free s hs (hsame.trans howner)] at hact
  cases hact

theorem call_activeNewest (h : Call faults command w reply w') (hw : ActiveNewest w.table) :
    ActiveNewest w'.table := by
  rcases call_cases h with ⟨rfl, _⟩ | ⟨row, hadds, _⟩
  · exact hw
  · exact hadds.activeNewest hw

theorem Calls.activeNewest (h : Calls w w') (hw : ActiveNewest w.table) :
    ActiveNewest w'.table := by
  induction h with
  | refl => exact hw
  | next _ hcall ih => exact call_activeNewest hcall ih

/-! ## After a success -/

/-- The newest row of the execution is submitted with the given hash. -/
def SubmittedAs (e : ExecutionId) (txHash : TxHash) (w : BroadcastLedger) : Prop :=
  ∃ r, w.table.newest e = some r ∧ r.state = .submitted ∧ r.txHash = some txHash

theorem submittedAs_of_call {outcome : BroadcastOutcome}
    (h : Call faults command w (.ok outcome) w') :
    SubmittedAs command.executionId outcome.txnHash w'
      ∧ (w' = w ∨ w'.sent = command.txn :: w.sent) := by
  rcases call_cases h with ⟨rfl, hok⟩ | ⟨row, hadds, hok⟩
  · exact ⟨hok outcome rfl, Or.inl rfl⟩
  · obtain ⟨hstate, hhash, hsent⟩ := hok outcome rfl
    exact ⟨⟨row, hadds.newest, hstate, hhash⟩, Or.inr hsent⟩

/-- A further call for the execution changes nothing and sends nothing. -/
theorem SubmittedAs.unchanged (h : SubmittedAs command.executionId txHash w)
    (hcall : Call faults command w reply w') : w' = w := by
  rcases call_cases hcall with ⟨rfl, _⟩ | ⟨row, hadds, _⟩
  · rfl
  · obtain ⟨r, hr, hstate, _⟩ := h
    obtain ⟨hmem, howner, _⟩ := latest_eq_some hr
    have hact : RequestRow.isActive r = true := by simp [RequestRow.isActive, hstate]
    rw [hadds.free r hmem howner] at hact
    cases hact

theorem SubmittedAs.call (h : SubmittedAs e txHash w)
    (hcall : Call faults command w reply w') : SubmittedAs e txHash w' := by
  by_cases he : e = command.executionId
  · subst he
    rw [h.unchanged hcall]
    exact h
  · rcases call_cases hcall with ⟨rfl, _⟩ | ⟨row, hadds, _⟩
    · exact h
    · obtain ⟨r, hr, hsubmitted⟩ := h
      exact ⟨r, (hadds.newest_of_ne he).trans hr, hsubmitted⟩

theorem SubmittedAs.calls (h : SubmittedAs e txHash w) (hcalls : Calls w w') :
    SubmittedAs e txHash w' := by
  induction hcalls with
  | refl => exact h
  | next _ hcall ih => exact ih.call hcall

/-- A statement without a fault has its own effect. -/
theorem execute_of_step {q : BroadcastQuery} {rows : q.Rows}
    {reply : (BroadcastCall.query q).Reply} {t' : BroadcastTable}
    (hq : ∀ now, q.execute now w.table = .ok (rows, t'))
    (h : Step (fun fault => fault = .none) (.query q) w reply w') :
    reply = .ok rows ∧ w' = ⟨t', w.sent⟩ := by
  obtain ⟨now, fault, rfl, heq, hsent⟩ := h
  rw [hq now] at heq
  obtain ⟨hreply, htable⟩ := Prod.mk.injEq .. ▸ heq
  exact ⟨hreply, by rw [← hsent, ← htable]⟩

/-- Where no statement fails, the reply repeats the hash. -/
theorem SubmittedAs.repeats (h : SubmittedAs command.executionId txHash w)
    (hchain : command.chainId.id.toI64.isSome = true)
    (hcall : Call (fun fault => fault = .none) command w reply w') :
    reply = .ok ⟨txHash⟩ := by
  obtain ⟨r, hr, hstate, hhash⟩ := h
  obtain ⟨hmem, howner, _⟩ := latest_eq_some hr
  obtain ⟨c, hc⟩ := Option.isSome_iff_exists.mp hchain
  rw [Call, BroadcastCommand.handler, handleBroadcast, hc] at hcall
  obtain ⟨inserted, w₁, hinsert, hcall⟩ := runs_call_iff.mp hcall
  -- the guard finds the submitted row at any time
  have hnone : ∀ now, (BroadcastQuery.insertRequest c command.fromAddress
      command.executionId).execute now w.table = .ok (none, w.table) := fun now =>
    RequestTable.insertUnless_eq_ok.mpr
      (Or.inl ⟨⟨r, hmem, howner, by simp [BroadcastRow.isHeld, hstate]⟩, rfl, rfl⟩)
  obtain ⟨rfl, rfl⟩ := execute_of_step hnone hinsert
  obtain ⟨latest, w₂, hlatest, hcall⟩ := runs_call_iff.mp hcall
  have hrow : ∀ now, (BroadcastQuery.latestRequest command.executionId).execute now w.table
      = .ok ((r.state, r.txHash, r.rejectionReason), w.table) := by
    intro now
    rw [BroadcastQuery.execute, hr]
  obtain ⟨rfl, rfl⟩ := execute_of_step hrow hlatest
  obtain ⟨rfl, _⟩ := runs_ret_iff.mp hcall
  rw [hstate, hhash]
  rfl

/-! ## Agreement -/

/-- **Broadcast agreement.**  In every sequence of calls an execution has at most one row
that is received or submitted, and no newer row.  When a call answers with a hash, the newest
row is submitted with it, and the transaction was handed over in this call or the call
changed nothing.  After that, every later call for the execution leaves the table and the
network alone; if its chain id is one the database can hold and no statement fails, it
answers with the same hash. -/
theorem broadcast_agreement (h : Calls .empty w) :
    (∀ e, (w.table.rows.filter fun r => decide (r.executionId = e)
        && (decide (r.state = .received) || decide (r.state = .submitted))).length ≤ 1)
    ∧ (∀ r ∈ w.table.rows, r.state = .received ∨ r.state = .submitted →
        ∀ s ∈ w.table.rows, s.executionId = r.executionId → s.revision ≤ r.revision)
    ∧ ∀ command outcome w₁, Call (fun _ => True) command w (.ok outcome) w₁ →
        (SubmittedAs command.executionId outcome.txnHash w₁
          ∧ (w₁ = w ∨ w₁.sent = command.txn :: w.sent))
        ∧ ∀ w₂, Calls w₁ w₂ → ∀ command', command'.executionId = command.executionId →
          (∀ reply w₃, Call (fun _ => True) command' w₂ reply w₃ → w₃ = w₂)
          ∧ ∀ reply w₃, command'.chainId.id.toI64.isSome = true →
              Call (fun fault => fault = .none) command' w₂ reply w₃ → reply = .ok outcome := by
  have hnewest : ActiveNewest w.table := h.activeNewest fun _ hr => nomatch hr
  have hactive : ∀ r : BroadcastRow, (decide (r.state = .received)
      || decide (r.state = .submitted)) = RequestRow.isActive r := by
    intro r
    cases hstate : r.state <;> simp [RequestRow.isActive, hstate]
  refine ⟨fun e => ?_, fun r hr hstate => hnewest r hr ?_, ?_⟩
  · simp only [hactive]
    exact w.table.length_activeOf_le_one e
  · rw [← hactive]
    simpa using hstate
  · intro command outcome w₁ hcall
    refine ⟨submittedAs_of_call hcall, fun w₂ hcalls command' hsame => ?_⟩
    have hsubmitted : SubmittedAs command'.executionId outcome.txnHash w₂ := by
      rw [hsame]
      exact (submittedAs_of_call hcall).1.calls hcalls
    exact ⟨fun reply w₃ => hsubmitted.unchanged, fun reply w₃ => hsubmitted.repeats⟩

/-- Answers without an error. -/
def smooth : (c : BroadcastCall) → BroadcastLedger → c.Reply × BroadcastLedger
  | .query q, w =>
    let answer := DatabaseFault.none.reply w.table (q.execute 0 w.table)
    (answer.1, ⟨answer.2, w.sent⟩)
  | .sendRawTransaction _ _ txn _ _, w =>
      (.ok ⟨List.replicate 32 7, rfl⟩, { w with sent := txn :: w.sent })
  | .getTransactionCount _ _ _, w => (.ok ⟨0⟩, w)

theorem step_smooth (c : BroadcastCall) (w : BroadcastLedger) :
    Step (fun _ => True) c w (smooth c w).1 (smooth c w).2 := by
  cases c with
  | query q => exact ⟨0, .none, trivial, rfl, rfl⟩
  | sendRawTransaction chainId stickyIndex txn executionId revision => exact rfl
  | getTransactionCount chainId stickyIndex fromAddress => exact rfl

def sampleCommand : BroadcastCommand where
  chainId := ⟨1⟩
  fromAddress := .ofByte 1
  executionId := ⟨1⟩
  txn := ⟨[2], ⟨0⟩⟩
  stickyIndex := 0

theorem broadcast_agreement_again :
    (sampleCommand.handler.eval smooth .empty).1 = .ok ⟨⟨List.replicate 32 7, rfl⟩⟩
    ∧ SubmittedAs ⟨1⟩ ⟨List.replicate 32 7, rfl⟩ (sampleCommand.handler.eval smooth .empty).2
    ∧ (sampleCommand.handler.eval smooth (sampleCommand.handler.eval smooth .empty).2).2
      = (sampleCommand.handler.eval smooth .empty).2 := by
  have hok : (sampleCommand.handler.eval smooth .empty).1
      = .ok ⟨⟨List.replicate 32 7, rfl⟩⟩ := by decide +kernel
  have hcall := runs_eval step_smooth sampleCommand.handler .empty
  rw [hok] at hcall
  obtain ⟨_, _, hlater⟩ := broadcast_agreement (.refl .empty)
  obtain ⟨⟨hsubmitted, _⟩, hrepeats⟩ := hlater sampleCommand _ _ hcall
  exact ⟨hok, hsubmitted, (hrepeats _ (.refl _) sampleCommand rfl).1 _ _
    (runs_eval step_smooth sampleCommand.handler _)⟩

end BroadcastLedger

end Lobby
