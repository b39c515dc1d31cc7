/-
# Leases that have run out

The three engines over a request table insert a new row unless the execution has a finished
one, or an unfinished one that was touched in the last two minutes: an older one is meant to
be taken over.  The partial unique indexes cover unfinished rows of any age, so that the
`INSERT` the guard lets through fails, and nothing but an `UPDATE` of the stale row could
make room for it (`stale_lease_blocks`).
-/
import Lobby.System

namespace Lobby

open Revisions Interaction Prog

/-! ## Stale leases -/

/-- The newest row of an execution is unfinished and was last touched two minutes ago or
earlier, and no row of the execution is finished. -/
structure RequestTable.StaleLease {ρ : Type} [RequestRow ρ] (unfinished finished : ρ → Prop)
    (updatedAt : ρ → Timestamp) (t : RequestTable ρ) (e : ExecutionId) (now : Timestamp) :
    Prop where
  newest : ∃ r, t.newest e = some r ∧ unfinished r ∧ updatedAt r ≤ now - minutes 2
  none_finished : ∀ r ∈ t.rows, owner r = e → ¬ finished r

/-- A request to sign was left `'reserved'`. -/
abbrev SignRow.StaleLease : SignTable → ExecutionId → Timestamp → Prop :=
  RequestTable.StaleLease (fun r => r.state = .reserved) (fun r => r.state = .signed)
    SignRow.updatedAt

/-- A request to broadcast was left `'received'`. -/
abbrev BroadcastRow.StaleLease : BroadcastTable → ExecutionId → Timestamp → Prop :=
  RequestTable.StaleLease (fun r => r.state = .received) (fun r => r.state = .submitted)
    BroadcastRow.updatedAt

/-- A request to validate was left `'pending'`. -/
abbrev ValidationRow.StaleLease : ValidationTable → ExecutionId → Timestamp → Prop :=
  RequestTable.StaleLease (fun r => r.state = .pending)
    (fun r => r.state = .included ∨ r.state = .notIncluded) ValidationRow.updatedAt

section

variable {ρ : Type} [RequestRow ρ] {unfinished finished : ρ → Prop} {updatedAt : ρ → Timestamp}
  {t : RequestTable ρ} {e : ExecutionId} {now now' : Timestamp}

theorem RequestTable.StaleLease.later (h : t.StaleLease unfinished finished updatedAt e now)
    (hnow : now ≤ now') : t.StaleLease unfinished finished updatedAt e now' := by
  obtain ⟨r, hr, hunfinished, hage⟩ := h.newest
  exact ⟨⟨r, hr, hunfinished, hage.trans (sub_le_sub_right hnow _)⟩, h.none_finished⟩

/-- The guard lets the `INSERT` through, and the index refuses it. -/
theorem RequestTable.StaleLease.insertUnless
    (h : t.StaleLease unfinished finished updatedAt e now) (guard : ρ → Bool) (row : ℕ → ρ)
    (hact : ∀ r, unfinished r → RequestRow.isActive r = true)
    (hguard : ∀ r, guard r = true →
      finished r ∨ unfinished r ∧ now - minutes 2 < updatedAt r)
    (hrow : ∀ n, owner (row n) = e ∧ revision (row n) = n ∧ RequestRow.isActive (row n) = true) :
    t.insertUnless e guard row = .error
      (if nextRevision t.rows e < RequestRow.revisionBound ρ
        then .uniqueViolation (RequestRow.activeIndex ρ) else RequestRow.outOfRange ρ) := by
  obtain ⟨r, hr, hunfinished, hage⟩ := h.newest
  obtain ⟨hmem, howner, _⟩ := latest_eq_some hr
  refine insertUnless_of_active hmem howner (hact r hunfinished) (fun s hs hsowner => ?_) hrow
  rw [← Bool.not_eq_true]
  intro hheld
  rcases hguard s hheld with hfinished | ⟨hsunfinished, hfresh⟩
  · exact h.none_finished s hs hsowner hfinished
  · -- the only unfinished row is the stale one
    have heq := t.eq_of_owner_eq hs hmem (hact s hsunfinished) (hact r hunfinished)
      (hsowner.trans howner.symm)
    rw [heq] at hfresh
    exact absurd hage (not_le.mpr hfresh)

end

/-! ## The handlers -/

/-- A statement on one table from some time on, with any fault. -/
def StatementStep {ρ τ : Type} (since : Timestamp)
    (execute : Timestamp → τ → Except SqlxError (ρ × τ)) (t : τ) (reply : Except SqlxError ρ)
    (t' : τ) : Prop :=
  ∃ now fault, since ≤ now ∧ (reply, t') = DatabaseFault.reply fault t (execute now t)

/-- What a statement of the sign engine may answer and do from some time on. -/
def SignQuery.Step (since : Timestamp) (q : SignQuery) (t : SignTable) (reply : q.Reply)
    (t' : SignTable) : Prop :=
  StatementStep since q.execute t reply t'

/-- What a call of the broadcast engine may answer and do from some time on. -/
def BroadcastCall.Step (since : Timestamp) :
    (c : BroadcastCall) → BroadcastTable → c.Reply → BroadcastTable → Prop
  | .query q, t, reply, t' => StatementStep since q.execute t reply t'
  | _, t, _, t' => t' = t

/-- What a call of the validator engine may answer and do from some time on. -/
def ValidatorCall.Step (since : Timestamp) :
    (c : ValidatorCall) → ValidationTable → c.Reply → ValidationTable → Prop
  | .query q, t, reply, t' => StatementStep since q.execute t reply t'
  | _, t, _, t' => t' = t

/-- A statement that cannot succeed from some time on fails. -/
theorem StatementStep.of_error {ρ τ : Type} {since : Timestamp}
    {execute : Timestamp → τ → Except SqlxError (ρ × τ)} {t t' : τ}
    {reply : Except SqlxError ρ} (h : StatementStep since execute t reply t')
    (herr : ∀ now, since ≤ now → ∃ err, execute now t = .error err) :
    t' = t ∧ ∃ err, reply = .error err := by
  obtain ⟨now, fault, hsince, heq⟩ := h
  obtain ⟨err, herr⟩ := herr now hsince
  have hanswers := fault.answers t (execute now t)
  rw [← heq, herr] at hanswers
  exact hanswers.of_error

section

variable {e : ExecutionId} {now : Timestamp}

theorem SignRow.StaleLease.insertRequest {t : SignTable} (h : SignRow.StaleLease t e now)
    (chainId : ℕ) (fromAddress : Address) :
    ∃ err, (SignQuery.insertRequest chainId fromAddress e).execute now t = .error err := by
  unfold SignQuery.execute
  exact ⟨_, RequestTable.StaleLease.insertUnless h (SignRow.isHeld now) _
    (fun r hr => by simp [RequestRow.isActive, hr])
    (fun r hr => by simpa [SignRow.isHeld] using hr) fun _ => ⟨rfl, rfl, rfl⟩⟩

theorem handleSign_of_stale {t t' : SignTable} (h : SignRow.StaleLease t e now)
    {crypto : Crypto} {custodyKeys : JsonPolicyEngine} {fromAddress : Address}
    {chainId : ChainId} {txn : Eip1559Transaction} {reply : Except LocalError SignedTransaction}
    (hrun : (handleSign crypto custodyKeys fromAddress chainId e txn).Runs
      (SignQuery.Step now) t reply t') :
    t' = t ∧ ∀ signed, reply ≠ .ok signed := by
  unfold handleSign at hrun
  cases hkey : custodyKeys.resolveKey crypto fromAddress with
  | error err =>
      rw [hkey] at hrun
      obtain ⟨rfl, rfl⟩ := runs_ret_iff.mp hrun
      exact ⟨rfl, by rintro _ ⟨⟩⟩
  | ok pvtKey =>
      rw [hkey] at hrun
      cases hchain : chainId.id.toI64 with
      | none =>
          rw [hchain] at hrun
          obtain ⟨rfl, rfl⟩ := runs_ret_iff.mp hrun
          exact ⟨rfl, by rintro _ ⟨⟩⟩
      | some chainIdI64 =>
          rw [hchain] at hrun
          -- the insert violates the unique index, whatever else fails
          obtain ⟨inserted, t₁, hstep, hrun⟩ := runs_call_iff.mp hrun
          obtain ⟨rfl, err, rfl⟩ := StatementStep.of_error hstep fun now' hnow =>
            SignRow.StaleLease.insertRequest (h.later hnow) chainIdI64 fromAddress
          obtain ⟨rfl, rfl⟩ := runs_ret_iff.mp hrun
          exact ⟨rfl, by rintro _ ⟨⟩⟩

theorem BroadcastRow.StaleLease.insertRequest {t : BroadcastTable}
    (h : BroadcastRow.StaleLease t e now) (chainId : ℕ) (fromAddress : Address) :
    ∃ err, (BroadcastQuery.insertRequest chainId fromAddress e).execute now t = .error err := by
  unfold BroadcastQuery.execute
  exact ⟨_, RequestTable.StaleLease.insertUnless h (BroadcastRow.isHeld now) _
    (fun r hr => by simp [RequestRow.isActive, hr])
    (fun r hr => by simpa [BroadcastRow.isHeld] using hr) fun _ => ⟨rfl, rfl, rfl⟩⟩

theorem handleBroadcast_of_stale {t t' : BroadcastTable} (h : BroadcastRow.StaleLease t e now)
    {chainId : ChainId} {fromAddress : Address} {txn : SignedTransaction} {stickyIndex : ℕ}
    {reply : Except BroadcastError BroadcastOutcome}
    (hrun : (handleBroadcast chainId fromAddress e txn stickyIndex).Runs
      (BroadcastCall.Step now) t reply t') :
    t' = t ∧ ∀ outcome, reply ≠ .ok outcome := by
  unfold handleBroadcast at hrun
  cases hchain : chainId.id.toI64 with
  | none =>
      rw [hchain] at hrun
      obtain ⟨rfl, rfl⟩ := runs_ret_iff.mp hrun
      exact ⟨rfl, fun _ h => nomatch h⟩
  | some chainIdI64 =>
      rw [hchain] at hrun
      obtain ⟨inserted, t₁, hstep, hrun⟩ := runs_call_iff.mp hrun
      have hstep : StatementStep now
        (BroadcastQuery.insertRequest chainIdI64 fromAddress e).execute t inserted t₁ := hstep
      obtain ⟨rfl, err, rfl⟩ := hstep.of_error fun now' hnow =>
        BroadcastRow.StaleLease.insertRequest (h.later hnow) chainIdI64 fromAddress
      obtain ⟨rfl, rfl⟩ := runs_ret_iff.mp hrun
      exact ⟨rfl, fun _ h => nomatch h⟩

theorem ValidationRow.StaleLease.insertRequest {t : ValidationTable}
    (h : ValidationRow.StaleLease t e now) (chainId : ℕ) (txHash : TxHash) :
    ∃ err, (ValidationQuery.insertRequest chainId e txHash).execute now t = .error err := by
  unfold ValidationQuery.execute
  exact ⟨_, RequestTable.StaleLease.insertUnless h (ValidationRow.isHeld now) _
    (fun r hr => by simp [RequestRow.isActive, hr])
    (fun r hr => by simpa [ValidationRow.isHeld, or_assoc] using hr) fun _ => ⟨rfl, rfl, rfl⟩⟩

theorem recordValidationRequest_of_stale {t t' : ValidationTable}
    (h : ValidationRow.StaleLease t e now) {chainId : ChainId} {txHash : TxHash}
    {reply : Except ValidatorError Unit}
    (hrun : (recordValidationRequest chainId e txHash).Runs (ValidatorCall.Step now) t reply
      t') :
    t' = t ∧ reply ≠ .ok () := by
  unfold recordValidationRequest at hrun
  cases hchain : chainId.id.toI64 with
  | none =>
      rw [hchain] at hrun
      obtain ⟨rfl, rfl⟩ := runs_ret_iff.mp hrun
      exact ⟨rfl, fun h => nomatch h⟩
  | some chainIdI64 =>
      rw [hchain] at hrun
      obtain ⟨inserted, t₁, hstep, hrun⟩ := runs_call_iff.mp hrun
      have hstep : StatementStep now
        (ValidationQuery.insertRequest chainIdI64 e txHash).execute t inserted t₁ := hstep
      obtain ⟨rfl, err, rfl⟩ := hstep.of_error fun now' hnow =>
        ValidationRow.StaleLease.insertRequest (h.later hnow) chainIdI64 txHash
      obtain ⟨rfl, rfl⟩ := runs_ret_iff.mp hrun
      exact ⟨rfl, fun h => nomatch h⟩

end

/-- **A stale lease blocks its execution for good.**  While the newest row of an execution
is unfinished and past its lease and no row is finished, every call that should take the
request over inserts nothing and answers with an error, at any later time and whatever the
database answers. -/
theorem stale_lease_blocks (e : ExecutionId) (now : Timestamp) :
    (∀ t, SignRow.StaleLease t e now →
      ∀ crypto custodyKeys fromAddress chainId txn reply t',
        (handleSign crypto custodyKeys fromAddress chainId e txn).Runs (SignQuery.Step now) t
          reply t' → t' = t ∧ ∀ signed, reply ≠ .ok signed)
    ∧ (∀ t, BroadcastRow.StaleLease t e now →
      ∀ chainId fromAddress txn stickyIndex reply t',
        (handleBroadcast chainId fromAddress e txn stickyIndex).Runs (BroadcastCall.Step now) t
          reply t' → t' = t ∧ ∀ outcome, reply ≠ .ok outcome)
    ∧ (∀ t, ValidationRow.StaleLease t e now →
      ∀ chainId txHash reply t',
        (recordValidationRequest chainId e txHash).Runs (ValidatorCall.Step now) t reply t' →
          t' = t ∧ reply ≠ .ok ()) :=
  ⟨fun _ ht _ _ _ _ _ _ _ => handleSign_of_stale ht,
    fun _ ht _ _ _ _ _ _ => handleBroadcast_of_stale ht,
    fun _ ht _ _ _ _ => recordValidationRequest_of_stale ht⟩

/-! ## A lost statement

The statement that would finish the row does not reach the database, and the next call
comes three minutes after the first. -/

/-- A statement at a given time, with its fault. -/
def answerAt {κ ρ τ : Type} (now : Timestamp) (fault : κ → DatabaseFault)
    (execute : Timestamp → τ → Except SqlxError (ρ × τ)) (q : κ) (t : τ) :
    Except SqlxError ρ × τ :=
  (fault q).reply t (execute now t)

theorem statementStep_answerAt {κ ρ τ : Type} (now : Timestamp) (fault : κ → DatabaseFault)
    (execute : Timestamp → τ → Except SqlxError (ρ × τ)) (q : κ) (t : τ) :
    StatementStep now execute t (answerAt now fault execute q t).1
      (answerAt now fault execute q t).2 :=
  ⟨now, fault q, le_refl now, rfl⟩

/-- The connection is closed before the statement is sent. -/
def DatabaseFault.closed : DatabaseFault := .failed "connection closed"

/-- The outcome of a signature is not recorded. -/
def signFault : SignQuery → DatabaseFault
  | .markSigned _ _ _ => .closed
  | _ => .none

/-- The hash of a transaction is not recorded. -/
def broadcastFault : BroadcastQuery → DatabaseFault
  | .markSubmitted _ _ _ => .closed
  | _ => .none

/-- A call of the broadcast engine at a given time. -/
def BroadcastCall.answerAt (now : Timestamp) :
    (c : BroadcastCall) → BroadcastTable → c.Reply × BroadcastTable
  | .query q, t => Lobby.answerAt now broadcastFault q.execute q t
  | .sendRawTransaction _ _ _ _ _, t => (.ok (sampleTxHash 0), t)
  | .getTransactionCount _ _ _, t => (.ok ⟨0⟩, t)

/-- One call to the sign engine at a given time. -/
def signAt (now : Timestamp) (t : SignTable) : Except LocalError SignedTransaction × SignTable :=
  (handleSign sampleDeployment.crypto sampleDeployment.custodyKeys sampleAccount ⟨1⟩ ⟨1⟩
    sampleTxn).eval (fun q => Lobby.answerAt now signFault q.execute q) t

/-- One call to the broadcast engine at a given time. -/
def broadcastAt (now : Timestamp) (t : BroadcastTable) :
    Except BroadcastError BroadcastOutcome × BroadcastTable :=
  (handleBroadcast ⟨1⟩ sampleAccount ⟨1⟩ ⟨[], ⟨0⟩⟩ 0).eval
    (BroadcastCall.answerAt now) t

/-- One request to validate at a given time. -/
def validationAt (now : Timestamp) (t : ValidationTable) :
    Except ValidatorError Unit × ValidationTable :=
  match (ValidationQuery.insertRequest 1 ⟨1⟩ (sampleTxHash 0)).execute now t with
  | .error e => (.error (.database e), t)
  | .ok (_, t') => (.ok (), t')

theorem runs_signAt (now : Timestamp) (t : SignTable) :
    (handleSign sampleDeployment.crypto sampleDeployment.custodyKeys sampleAccount ⟨1⟩ ⟨1⟩
      sampleTxn).Runs (SignQuery.Step now) t (signAt now t).1 (signAt now t).2 :=
  runs_eval (fun q t => statementStep_answerAt now signFault q.execute q t) _ t

theorem runs_broadcastAt (now : Timestamp) (t : BroadcastTable) :
    (handleBroadcast ⟨1⟩ sampleAccount ⟨1⟩ ⟨[], ⟨0⟩⟩ 0).Runs (BroadcastCall.Step now) t
      (broadcastAt now t).1 (broadcastAt now t).2 := by
  refine runs_eval (fun c t => ?_) _ t
  cases c with
  | query q => exact statementStep_answerAt now broadcastFault q.execute q t
  | sendRawTransaction chainId stickyIndex txn executionId revision => exact rfl
  | getTransactionCount chainId stickyIndex fromAddress => exact rfl

theorem runs_validationAt (now : Timestamp) (t : ValidationTable) :
    (recordValidationRequest ⟨1⟩ ⟨1⟩ (sampleTxHash 0)).Runs (ValidatorCall.Step now) t
      (validationAt now t).1 (validationAt now t).2 := by
  have hchain : U256.toI64 1 = some 1 := by decide
  have hstep : ∀ reply t', (reply, t') = DatabaseFault.reply .none t
      ((ValidationQuery.insertRequest 1 ⟨1⟩ (sampleTxHash 0)).execute now t) →
      ValidatorCall.Step now (.query (.insertRequest 1 ⟨1⟩ (sampleTxHash 0))) t reply t' :=
    fun reply t' h => ⟨now, .none, le_refl now, h⟩
  rw [recordValidationRequest, hchain, validationAt]
  cases hinsert : (ValidationQuery.insertRequest 1 ⟨1⟩ (sampleTxHash 0)).execute now t with
  | error err =>
      rw [hinsert] at hstep
      exact .call (hstep (.error err) t rfl) (.ret _ _)
  | ok answer =>
      rw [hinsert] at hstep
      exact .call (hstep (.ok answer.1) answer.2 rfl) (.ret _ _)

theorem staleLease_signAt :
    SignRow.StaleLease (signAt 0 .empty).2 ⟨1⟩ (minutes 3) where
  newest := ⟨((signAt 0 .empty).2.newest ⟨1⟩).get (by decide +kernel),
    (Option.some_get _).symm, by decide +kernel, by decide +kernel⟩
  none_finished := by decide +kernel

theorem staleLease_broadcastAt :
    BroadcastRow.StaleLease (broadcastAt 0 .empty).2 ⟨1⟩ (minutes 3) where
  newest := ⟨((broadcastAt 0 .empty).2.newest ⟨1⟩).get (by decide +kernel),
    (Option.some_get _).symm, by decide +kernel, by decide +kernel⟩
  none_finished := by decide +kernel

theorem staleLease_validationAt :
    ValidationRow.StaleLease (validationAt 0 .empty).2 ⟨1⟩ (minutes 3) where
  newest := ⟨((validationAt 0 .empty).2.newest ⟨1⟩).get (by decide +kernel),
    (Option.some_get _).symm, by decide +kernel, by decide +kernel⟩
  none_finished := by decide +kernel

/-- A request that is not finished leaves a stale lease in each of the tables, and three
minutes later the unique index refuses the row that should replace it. -/
theorem stale_lease_refused :
    (∃ t reply, (handleSign sampleDeployment.crypto sampleDeployment.custodyKeys sampleAccount
          ⟨1⟩ ⟨1⟩ sampleTxn).Runs (SignQuery.Step 0) .empty reply t
        ∧ SignRow.StaleLease t ⟨1⟩ (minutes 3)
        ∧ (handleSign sampleDeployment.crypto sampleDeployment.custodyKeys sampleAccount
          ⟨1⟩ ⟨1⟩ sampleTxn).Runs (SignQuery.Step (minutes 3)) t
            (.error (.ofSqlx (.uniqueViolation "uniq_active_reservation"))) t)
    ∧ (∃ t reply, (handleBroadcast ⟨1⟩ sampleAccount ⟨1⟩ ⟨[], ⟨0⟩⟩ 0).Runs
          (BroadcastCall.Step 0) .empty reply t
        ∧ BroadcastRow.StaleLease t ⟨1⟩ (minutes 3)
        ∧ (handleBroadcast ⟨1⟩ sampleAccount ⟨1⟩ ⟨[], ⟨0⟩⟩ 0).Runs
          (BroadcastCall.Step (minutes 3)) t
            (.error (.ofSqlx (.uniqueViolation "uniq_active_broadcast"))) t)
    ∧ ∃ t reply, (recordValidationRequest ⟨1⟩ ⟨1⟩ (sampleTxHash 0)).Runs
          (ValidatorCall.Step 0) .empty reply t
        ∧ ValidationRow.StaleLease t ⟨1⟩ (minutes 3)
        ∧ (recordValidationRequest ⟨1⟩ ⟨1⟩ (sampleTxHash 0)).Runs
          (ValidatorCall.Step (minutes 3)) t
            (.error (.database (.uniqueViolation "idx_validation_no_concurrent"))) t := by
  refine ⟨⟨_, _, runs_signAt 0 .empty, staleLease_signAt, ?_⟩,
    ⟨_, _, runs_broadcastAt 0 .empty, staleLease_broadcastAt, ?_⟩,
    ⟨_, _, runs_validationAt 0 .empty, staleLease_validationAt, ?_⟩⟩
  · -- the retry runs on the table that the first request has left
    have hrun := runs_signAt (minutes 3) (signAt 0 .empty).2
    have hreply : (signAt (minutes 3) (signAt 0 .empty).2).1
        = .error (.ofSqlx (.uniqueViolation "uniq_active_reservation")) := by decide +kernel
    rw [(handleSign_of_stale staleLease_signAt hrun).1, hreply] at hrun
    exact hrun
  · have hrun := runs_broadcastAt (minutes 3) (broadcastAt 0 .empty).2
    have hreply : (broadcastAt (minutes 3) (broadcastAt 0 .empty).2).1
        = .error (.ofSqlx (.uniqueViolation "uniq_active_broadcast")) := by decide +kernel
    rw [(handleBroadcast_of_stale staleLease_broadcastAt hrun).1, hreply] at hrun
    exact hrun
  · have hrun := runs_validationAt (minutes 3) (validationAt 0 .empty).2
    have hreply : (validationAt (minutes 3) (validationAt 0 .empty).2).1
        = .error (.database (.uniqueViolation "idx_validation_no_concurrent")) := by
      decide +kernel
    rw [(recordValidationRequest_of_stale staleLease_validationAt hrun).1, hreply] at hrun
    exact hrun

/-- Such a table, and the second call on it. -/
theorem stale_lease_blocks_signAt :
    (signAt (minutes 3) (signAt 0 .empty).2).2 = (signAt 0 .empty).2
    ∧ (broadcastAt (minutes 3) (broadcastAt 0 .empty).2).2 = (broadcastAt 0 .empty).2
    ∧ (validationAt (minutes 3) (validationAt 0 .empty).2).2 = (validationAt 0 .empty).2 := by
  obtain ⟨hsign, hbroadcast, hvalidation⟩ := stale_lease_blocks ⟨1⟩ (minutes 3)
  exact ⟨(hsign _ staleLease_signAt _ _ _ _ _ _ _ (runs_signAt _ _)).1,
    (hbroadcast _ staleLease_broadcastAt _ _ _ _ _ _ (runs_broadcastAt _ _)).1,
    (hvalidation _ staleLease_validationAt _ _ _ _ (runs_validationAt _ _)).1⟩

end Lobby
