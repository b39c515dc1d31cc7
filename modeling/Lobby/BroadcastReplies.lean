/-
# What a broadcast reply says

Complete runs of `handle_broadcast` with the log of their calls.  `NonceTooLow` is answered
exactly when the text of a send error is taken for a nonce mismatch and the pending count was
fetched; the two nonces are not compared, and any text with the word nonce is taken so.  The
reply is sound where every count is above the nonce of the transaction and every error taken
for a mismatch says that the nonce is too low (`nonceTooLow_sound_iff`).  Which errors say so
is a parameter.  The row of a call is submitted or rejected when it returns, unless the count
could not be fetched: then it stays received (`row_closed_iff`).
-/
import Lobby.BroadcastLedger
import Lobby.PipelinePhases
import Lobby.RunLog

namespace Lobby

open Revisions Interaction Prog

/-! ## What a log shows -/

namespace BroadcastCall

/-- The error of a statement. -/
@[simp]
def queryError : (c : BroadcastCall) → c.Reply → Option SqlxError
  | .query _, .error err => some err
  | _, _ => none

/-- The revision of a row that was inserted. -/
@[simp]
def insertedRow : (c : BroadcastCall) → c.Reply → Option ℕ
  | .query (.insertRequest _ _ _), .ok revision => revision
  | _, _ => none

/-- The error of `eth_sendRawTransaction`. -/
@[simp]
def sendError : (c : BroadcastCall) → c.Reply → Option LobbyRpcError
  | .sendRawTransaction _ _ _ _ _, .error err => some err
  | _, _ => none

/-- The pending count the node returned. -/
@[simp]
def pendingCount : (c : BroadcastCall) → c.Reply → Option TxNonce
  | .getTransactionCount _ _ _, .ok nonceOnChain => some nonceOnChain
  | _, _ => none

/-- The error of `eth_getTransactionCount`. -/
@[simp]
def countError : (c : BroadcastCall) → c.Reply → Option LobbyRpcError
  | .getTransactionCount _ _ _, .error err => some err
  | _, _ => none

end BroadcastCall

abbrev BroadcastLog : Type := List (Entry BroadcastCall BroadcastCall.Reply BroadcastLedger)

namespace BroadcastLog

variable (log : BroadcastLog)

/-- No statement failed. -/
def StatementsSucceed : Prop := readings BroadcastCall.queryError log = []

/-- No statement failed, and neither did the count. -/
def Answered : Prop := log.StatementsSucceed ∧ readings BroadcastCall.countError log = []

/-- The pending count is above the nonce of the transaction, whenever it was fetched. -/
def CountsAbove (txn : SignedTransaction) : Prop :=
  ∀ nonceOnChain ∈ readings BroadcastCall.pendingCount log,
    txn.withNonce.value < nonceOnChain.value

/-- The send errors that the handler takes for a nonce mismatch say that the nonce is too low. -/
def MismatchesSay (tooLow : LobbyRpcError → Prop) : Prop :=
  ∀ err ∈ readings BroadcastCall.sendError log, isNonceMismatch (rpcErrorText err) = true →
    tooLow err

end BroadcastLog

namespace BroadcastLedger

/-- The surroundings of one call of the handler: any fault at any statement, any reply of the
node. -/
abbrev broadcastContract : Contract BroadcastCall BroadcastCall.Reply BroadcastLedger :=
  .alone (fun _ _ => True) (Step fun _ => True)

/-- The pipeline starts the recovery from a nonce mismatch. -/
def StartsRecovery (reply : Except BroadcastError BroadcastOutcome) : Prop :=
  ∃ recoveries nonce err a b, reply = .error err
    ∧ Phase.afterBroadcastError recoveries nonce err = .mismatch nonce a b

/-- `NonceTooLow` names a nonce below the pending count, and a send error that does not say so
is reported as a rejection, without a recovery. -/
structure ReportsSoundly (tooLow : LobbyRpcError → Prop) (log : BroadcastLog)
    (reply : Except BroadcastError BroadcastOutcome) : Prop where
  below : ∀ nonceOnChain attemptedNonce,
    reply = .error (.nonceTooLow nonceOnChain attemptedNonce) →
      attemptedNonce.value < nonceOnChain.value
  reported : ∀ err ∈ readings BroadcastCall.sendError log,
    (∃ nonceOnChain attemptedNonce,
      reply = .error (.nonceTooLow nonceOnChain attemptedNonce))
    ∨ reply = .error (.rejected (rpcErrorText err)) ∧ ¬ StartsRecovery reply
  rejected : ∀ err ∈ readings BroadcastCall.sendError log, ¬ tooLow err →
    reply = .error (.rejected (rpcErrorText err)) ∧ ¬ StartsRecovery reply

/-- The row is submitted with the hash of the reply, or rejected. -/
def Closed (reply : Except BroadcastError BroadcastOutcome) (row : BroadcastRow) : Prop :=
  (∃ outcome, reply = .ok outcome ∧ row.state = .submitted
    ∧ row.txHash = some outcome.txnHash)
  ∨ row.state = .rejected

/-- The row a call inserted is closed when it returns. -/
def ClosesRow (command : BroadcastCommand) (log : BroadcastLog)
    (reply : Except BroadcastError BroadcastOutcome) (w : BroadcastLedger) : Prop :=
  ∀ revision ∈ readings BroadcastCall.insertedRow log, ∃ row ∈ w.table.rows,
    key row = (command.executionId, revision) ∧ Closed reply row

/-- After a call that inserted a row, no call for the execution answers that nothing is known
of the request. -/
def DecidesRetry (command : BroadcastCommand) (log : BroadcastLog) (w : BroadcastLedger) :
    Prop :=
  readings BroadcastCall.insertedRow log ≠ [] →
    ∀ (command' : BroadcastCommand) (log' : BroadcastLog) reply w',
      command'.executionId = command.executionId →
      command'.handler.Reaches broadcastContract w log' (.ret reply) w' →
      log'.StatementsSucceed →
      reply ≠ .error (.databaseError "unknown database inclusion error")

/-! ## What is known of a call that has ended -/

/-- What the log of a call says of its reply and of the row it inserted. -/
structure Concluded (command : BroadcastCommand) (w : BroadcastLedger)
    (reply : Except BroadcastError BroadcastOutcome) (x : BroadcastLedger × BroadcastLog) :
    Prop where
  tooLow : ∀ a b, reply = .error (.nonceTooLow a b) →
    b = command.txn.withNonce ∧ a ∈ readings BroadcastCall.pendingCount x.2
      ∧ ∀ err ∈ readings BroadcastCall.sendError x.2, isNonceMismatch (rpcErrorText err) = true
  counted : x.2.Answered → ∀ a ∈ readings BroadcastCall.pendingCount x.2,
    reply = .error (.nonceTooLow a command.txn.withNonce)
  failed : x.2.Answered → ∀ err ∈ readings BroadcastCall.sendError x.2,
    if isNonceMismatch (rpcErrorText err) = true then readings BroadcastCall.pendingCount x.2 ≠ []
    else reply = .error (.rejected (rpcErrorText err))
  inserted : x.2.StatementsSucceed → ∀ revision ∈ readings BroadcastCall.insertedRow x.2,
    ∃ row, Adds command.executionId w.table row x.1.table ∧ row.revision = revision
      ∧ if readings BroadcastCall.countError x.2 = [] then Closed reply row
        else row.state = .received
  uncounted : readings BroadcastCall.countError x.2 ≠ [] →
    readings BroadcastCall.insertedRow x.2 ≠ []
  unknown : x.2.StatementsSucceed →
    reply = .error (.databaseError "unknown database inclusion error") →
    ∃ r, w.table.newest command.executionId = some r ∧ r.state = .received

section

variable {e : ExecutionId} {t : BroadcastTable} {command : BroadcastCommand}
  {w w' : BroadcastLedger} {log : BroadcastLog} {row : BroadcastRow}
  {reply : Except BroadcastError BroadcastOutcome}

/-- A statement failed, and the reply says so. -/
theorem Concluded.of_queryError {err : SqlxError}
    (h : err ∈ readings BroadcastCall.queryError log)
    (hcount : readings BroadcastCall.countError log = []) :
    Concluded command w (.error (.ofSqlx err)) (w', log) := by
  have hfailed : ¬ log.StatementsSucceed := fun h' => by
    rw [show readings BroadcastCall.queryError log = [] from h'] at h
    exact absurd h List.not_mem_nil
  constructor
  · exact fun a b h => nomatch h
  · exact fun h => absurd h.1 hfailed
  · exact fun h => absurd h.1 hfailed
  · exact fun h => absurd h hfailed
  · exact fun h => absurd hcount h
  · exact fun h => absurd h hfailed

/-- Only a received row is answered as unknown. -/
theorem state_of_unknown {found : BroadcastState × Option TxHash × Option String}
    (h : earlierOutcome found
      = .error (.databaseError "unknown database inclusion error")) : found.1 = .received := by
  match found with
  | (.received, _, _) => rfl
  | (.submitted, some txHash, _) => cases h
  | (.submitted, none, _) => cases h
  | (.rejected, _, _) => cases h

theorem earlierOutcome_ne_nonceTooLow (found : BroadcastState × Option TxHash × Option String)
    (a b : TxNonce) : earlierOutcome found ≠ .error (.nonceTooLow a b) := by
  intro h
  match found with
  | (.received, _, _) => cases h
  | (.submitted, some txHash, _) => cases h
  | (.submitted, none, _) => cases h
  | (.rejected, _, _) => cases h

/-- The statement that marks the row of the call, and the reply after it. -/
theorem wp_mark {q : BroadcastQuery} {f : Timestamp → BroadcastRow → BroadcastRow}
    {next : Except SqlxError q.Rows → BroadcastProg (Except BroadcastError BroadcastOutcome)}
    (hadds : Adds command.executionId w.table row w'.table)
    (hf : ∀ now r, key (f now r) = key r)
    (hq : ∀ now rows t'', q.execute now w'.table = .ok (rows, t'') → ∃ n,
      w'.table.updateWhere command.executionId row.revision (fun _ => true) (f now)
        = .ok (n, t''))
    (hcount : readings BroadcastCall.countError log = [])
    (herror : ∀ err, next (.error err) = .ret (.error (.ofSqlx err)))
    (hok : ∀ n, next (.ok n) = .ret reply)
    (h : ∀ now n w₁, Adds command.executionId w.table (f now row) w₁.table →
      Concluded command w reply (w₁, ⟨.query q, .ok n, w'⟩ :: log)) :
    wp (broadcastContract.logged noDemand) (call (.query q) next) (Concluded command w)
      (w', log) := by
  refine wp_alone_call ⟨trivial, trivial⟩ fun rows w₁ hstep => ?_
  obtain ⟨now, t₁, rfl, hanswers⟩ := answers_of_step hstep
  obtain ⟨row', hadds', hmarked⟩ := hadds.mark (hf now) (fun rows => hq now rows t₁) hanswers
  match rows with
  | .error err =>
      rw [herror err]
      exact wp_alone_ret (.of_queryError (by simp) (by simpa using hcount))
  | .ok n =>
      obtain rfl := hmarked n rfl
      rw [hok n]
      exact wp_alone_ret (h now n _ hadds')

/-- What is recorded of the answer to a request, for a row that was inserted. -/
theorem wp_sendRequest {c : ℕ} (hadds : Adds command.executionId w.table row w'.table)
    (hreceived : row.state = .received) :
    wp (broadcastContract.logged noDemand)
      (sendRequest command.chainId command.fromAddress command.executionId command.txn
        command.stickyIndex row.revision)
      (Concluded command w)
      (w', [⟨.query (.insertRequest c command.fromAddress command.executionId),
        .ok (some row.revision), w⟩]) := by
  unfold sendRequest
  refine wp_alone_call ⟨trivial, trivial⟩ fun answer w₁ hstep => ?_
  obtain rfl := hstep
  cases answer with
  | ok txnHash =>
      refine wp_mark (f := fun now => BroadcastRow.submit now txnHash) hadds
        (fun now => BroadcastRow.key_submit now txnHash)
        (fun _ rows _ hrows => ⟨rows, hrows⟩) (by simp) (fun _ => rfl) (fun _ => rfl)
        fun now n w₂ hadds' => ?_
      constructor
      case inserted =>
        simpa using fun _ => ⟨_, hadds', rfl, Or.inl ⟨_, rfl, rfl, rfl⟩⟩
      all_goals simp [BroadcastLog.Answered]
  | error err =>
      show wp (broadcastContract.logged noDemand) (recordReply command.chainId
        command.fromAddress command.executionId command.txn command.stickyIndex row.revision
        (.error err)) _ _
      unfold recordReply
      dsimp only
      by_cases hmismatch : isNonceMismatch (rpcErrorText err) = true
      · rw [if_pos hmismatch]
        refine wp_alone_call ⟨trivial, trivial⟩ fun count w₁ hstep => ?_
        obtain rfl := hstep
        cases count with
        | error err' =>
            -- the early return: the row stays as it was inserted
            refine wp_alone_ret ?_
            constructor
            case inserted =>
              simpa using fun _ => ⟨_, hadds, rfl, hreceived⟩
            all_goals simp [BroadcastLog.Answered]
        | ok nonceOnChain =>
            refine wp_mark (f := fun now => BroadcastRow.reject now (rpcErrorText err)) hadds
              (fun now => BroadcastRow.key_reject now _)
              (fun _ rows _ hrows => ⟨rows, hrows⟩) (by simp) (fun _ => rfl) (fun _ => rfl)
              fun now n w₂ hadds' => ?_
            constructor
            case inserted =>
              simpa using fun _ => ⟨_, hadds', rfl, Or.inr rfl⟩
            all_goals simp [BroadcastLog.Answered, hmismatch]
      · rw [if_neg hmismatch]
        refine wp_mark (f := fun now => BroadcastRow.reject now (rpcErrorText err)) hadds
          (fun now => BroadcastRow.key_reject now _)
          (fun _ rows _ hrows => ⟨rows, hrows⟩) (by simp) (fun _ => rfl) (fun _ => rfl)
          fun now n w₂ hadds' => ?_
        constructor
        case inserted =>
          simpa using fun _ => ⟨_, hadds', rfl, Or.inr rfl⟩
        all_goals simp [BroadcastLog.Answered, hmismatch]

/-- **What the log of a call says of its reply and its row.** -/
theorem wp_handleBroadcast (command : BroadcastCommand) (w : BroadcastLedger) :
    wp (broadcastContract.logged noDemand) command.handler (Concluded command w) (w, []) := by
  unfold BroadcastCommand.handler handleBroadcast
  cases hchain : command.chainId.id.toI64 with
  | none =>
      refine wp_alone_ret ?_
      constructor <;> simp
  | some c =>
      dsimp only
      refine wp_alone_call ⟨trivial, trivial⟩ fun inserted w₁ hinsert => ?_
      obtain ⟨now, t₁, rfl, hanswers⟩ := answers_of_step hinsert
      rcases inserted with err | _ | revision
      · exact wp_alone_ret (.of_queryError (by simp) (by simp))
      · have hsame : t₁ = w.table := by
          cases hanswers with
          | done hdone =>
              rcases adds_of_insert hdone with ⟨_, rfl⟩ | ⟨_, hsome, _⟩
              · rfl
              · cases hsome
        subst hsame
        refine wp_alone_call ⟨trivial, trivial⟩ fun latest w₂ hlatest => ?_
        obtain ⟨_, t₂, rfl, hanswers⟩ := answers_of_step hlatest
        cases latest with
        | error err => exact wp_alone_ret (.of_queryError (by simp) (by simp))
        | ok found =>
            cases hanswers with
            | done hdone =>
                obtain ⟨rfl, r, hr, rfl⟩ := latestRequest_eq_ok hdone
                refine wp_alone_ret ?_
                constructor
                case unknown => exact fun _ hunknown => ⟨r, hr, state_of_unknown hunknown⟩
                case tooLow => exact fun a b h => absurd h (earlierOutcome_ne_nonceTooLow _ a b)
                all_goals simp
      · cases hanswers with
        | done hdone =>
            rcases adds_of_insert hdone with ⟨hnone, _⟩ | ⟨_, hsome, _, hadds⟩
            · cases hnone
            · obtain rfl : revision = _ := Option.some.inj hsome
              have hreceived : (BroadcastRow.received now c command.fromAddress
                command.executionId revision).state = .received := rfl
              exact wp_sendRequest (c := c) hadds hreceived

theorem concluded (h : command.handler.Reaches broadcastContract w log (.ret reply) w') :
    Concluded command w reply (w', log) :=
  h.ended (wp_handleBroadcast command w)

/-! ## Runs to compute -/

/-- A node that answers a request with the given error and a count request as told. -/
def errorReply (message : String) (count : Except LobbyRpcError TxNonce) :
    (c : BroadcastCall) → BroadcastLedger → Option (c.Reply × BroadcastLedger)
  | .sendRawTransaction _ _ txn _ _, w =>
    some (.error (.rpcBroadcastError message), { w with sent := txn :: w.sent })
  | .getTransactionCount _ _ _, w => some (count, w)
  | .query q, w => some (smooth (.query q) w)

theorem step_of_errorReply {message : String} {count : Except LobbyRpcError TxNonce} :
    ∀ c w r w', errorReply message count c w = some (r, w') →
      broadcastContract.step c w r w' := by
  intro c w r w' h
  cases c with
  | query q =>
      have hstep := step_smooth (.query q) w
      rw [Option.some.inj h] at hstep
      exact hstep
  | sendRawTransaction chainId stickyIndex txn executionId revision =>
      cases h
      rfl
  | getTransactionCount chainId stickyIndex fromAddress =>
      cases h
      rfl

/-- A call that an evaluation shows to have ended, with all its statements and the count
answered, and with the errors that the node sent. -/
theorem exists_answered {message : String} {count : Except LobbyRpcError TxNonce} {n : ℕ}
    {errs : List LobbyRpcError}
    (h : (command.handler.follow (errorReply message count) n w).map (fun run =>
      (run.2.1.result, readings BroadcastCall.queryError run.1,
        readings BroadcastCall.countError run.1, readings BroadcastCall.sendError run.1))
      = some (some reply, [], [], errs)) :
    ∃ (log : BroadcastLog) (w' : BroadcastLedger),
      command.handler.Reaches broadcastContract w log (.ret reply) w' ∧ log.Answered
        ∧ readings BroadcastCall.sendError log = errs := by
  obtain ⟨log, p, w', hreach, hend⟩ :=
    exists_reaches (E := broadcastContract) step_of_errorReply h
  simp only [Prod.mk.injEq] at hend
  obtain ⟨hresult, hqueries, hcounted, hsent⟩ := hend
  rw [eq_ret_of_result hresult] at hreach
  exact ⟨log, w', hreach, ⟨hqueries, hcounted⟩, hsent⟩

/-- The call with another nonce. -/
def commandWith (nonce : TxNonce) : BroadcastCommand :=
  { sampleCommand with txn := ⟨[2], nonce⟩ }

/-! ## Nonces reported too low -/

/-- A recovery starts after `NonceTooLow` only. -/
theorem exists_nonceTooLow (h : StartsRecovery reply) :
    ∃ nonceOnChain attemptedNonce,
      reply = .error (.nonceTooLow nonceOnChain attemptedNonce) := by
  obtain ⟨recoveries, nonce, err, a, b, rfl, hphase⟩ := h
  cases err with
  | nonceTooLow nonceOnChain attemptedNonce => exact ⟨_, _, rfl⟩
  | _ => cases hphase

theorem not_startsRecovery_rejected {text : String} (h : reply = .error (.rejected text)) :
    ¬ StartsRecovery reply := by
  intro hstarts
  obtain ⟨_, _, hreply⟩ := exists_nonceTooLow hstarts
  rw [h] at hreply
  cases hreply

/-- **When `NonceTooLow` is sound**, for any reading of which errors say that the nonce is too
low.  In every run of `handle_broadcast`, whatever fails, `NonceTooLow` names a nonce below the
pending count and no other error starts a recovery if every count the node returned is above
the nonce of the transaction and every error taken for a mismatch says that it is too low.
Where all statements and the count are answered, that is also the only case in which every
reply to a send error is sound. -/
theorem nonceTooLow_sound_iff (tooLow : LobbyRpcError → Prop)
    (h : command.handler.Reaches broadcastContract w log (.ret reply) w') :
    (log.CountsAbove command.txn ∧ log.MismatchesSay tooLow →
      (∀ nonceOnChain attemptedNonce,
        reply = .error (.nonceTooLow nonceOnChain attemptedNonce) →
          attemptedNonce.value < nonceOnChain.value)
      ∧ ∀ err ∈ readings BroadcastCall.sendError log, ¬ tooLow err → ¬ StartsRecovery reply)
    ∧ (log.Answered → (ReportsSoundly tooLow log reply
      ↔ log.CountsAbove command.txn ∧ log.MismatchesSay tooLow)) := by
  have hconcluded := concluded h
  have hbelow : log.CountsAbove command.txn → ∀ nonceOnChain attemptedNonce,
      reply = .error (.nonceTooLow nonceOnChain attemptedNonce) →
        attemptedNonce.value < nonceOnChain.value := by
    intro habove nonceOnChain attemptedNonce hreply
    obtain ⟨rfl, hcount, -⟩ := hconcluded.tooLow _ _ hreply
    exact habove _ hcount
  refine ⟨?_, fun hanswered => ⟨fun hsound => ⟨?_, ?_⟩, ?_⟩⟩
  · rintro ⟨habove, hsay⟩
    refine ⟨hbelow habove, fun err herr hother hstarts => ?_⟩
    obtain ⟨_, _, hreply⟩ := exists_nonceTooLow hstarts
    exact hother (hsay err herr ((hconcluded.tooLow _ _ hreply).2.2 err herr))
  · intro nonceOnChain hcount
    exact hsound.below _ _ (hconcluded.counted hanswered _ hcount)
  · -- the count was fetched, so that the reply is no rejection
    intro err herr hmismatch
    have hcounted := hconcluded.failed hanswered err herr
    rw [if_pos hmismatch] at hcounted
    obtain ⟨nonceOnChain, hcount⟩ := List.exists_mem_of_ne_nil _ hcounted
    by_contra hother
    have hrejected := (hsound.rejected err herr hother).1
    rw [hconcluded.counted hanswered _ hcount] at hrejected
    cases hrejected
  · rintro ⟨habove, hsay⟩
    refine ⟨hbelow habove, fun err herr => ?_, fun err herr hother => ?_⟩
    · have hfailed := hconcluded.failed hanswered err herr
      by_cases hmismatch : isNonceMismatch (rpcErrorText err) = true
      · rw [if_pos hmismatch] at hfailed
        obtain ⟨nonceOnChain, hcount⟩ := List.exists_mem_of_ne_nil _ hfailed
        exact Or.inl ⟨_, _, hconcluded.counted hanswered _ hcount⟩
      · rw [if_neg hmismatch] at hfailed
        exact Or.inr ⟨hfailed, not_startsRecovery_rejected hfailed⟩
    · have hfailed := hconcluded.failed hanswered err herr
      rw [if_neg fun hmismatch => hother (hsay err herr hmismatch)] at hfailed
      exact ⟨hfailed, not_startsRecovery_rejected hfailed⟩

/-- The error says "nonce too low". -/
def SaysTooLow (err : LobbyRpcError) : Prop := contains (rpcErrorText err) "nonce too low" = true

/-- A nonce below the count is reported as such. -/
theorem nonceTooLow_sound_below :
    ∃ (log : BroadcastLog) (w' : BroadcastLedger),
      (commandWith ⟨2⟩).handler.Reaches broadcastContract .empty log
        (.ret (.error (.nonceTooLow ⟨3⟩ ⟨2⟩))) w'
      ∧ ReportsSoundly SaysTooLow log (.error (.nonceTooLow ⟨3⟩ ⟨2⟩)) := by
  have hrun : ((commandWith ⟨2⟩).handler.follow (errorReply "nonce too low" (.ok ⟨3⟩)) 8
      .empty).map (fun run => (run.2.1.result,
        readings BroadcastCall.queryError run.1,
        readings BroadcastCall.countError run.1,
        readings BroadcastCall.sendError run.1))
      = some (some (.error (.nonceTooLow ⟨3⟩ ⟨2⟩)), [], [],
        [.rpcBroadcastError "nonce too low"]) := by decide +kernel
  obtain ⟨log, w', hreach, hanswered, hsent⟩ := exists_answered hrun
  refine ⟨log, w', hreach, ((nonceTooLow_sound_iff SaysTooLow hreach).2 hanswered).mpr ⟨?_, ?_⟩⟩
  · intro nonceOnChain hcount
    have hreply := (concluded hreach).counted hanswered nonceOnChain hcount
    obtain ⟨rfl, _⟩ := BroadcastError.nonceTooLow.inj (Except.error.inj hreply)
    decide
  · intro err herr _
    rw [hsent, List.mem_singleton] at herr
    subst herr
    show contains _ _ = true
    decide +kernel

/-- Two ways to miss it: a nonce that is too high is reported as too low, and an error that only
mentions the nonce of the account starts the recovery, though the pending count is above the
nonce of the transaction. -/
theorem nonceTooLow_unsound :
    (¬ ∀ (command : BroadcastCommand) (w : BroadcastLedger) (log : BroadcastLog) reply w',
      command.handler.Reaches broadcastContract w log (.ret reply) w' → log.Answered →
      ∀ nonceOnChain attemptedNonce,
        reply = .error (.nonceTooLow nonceOnChain attemptedNonce) →
          attemptedNonce.value < nonceOnChain.value)
    ∧ ¬ ∀ (command : BroadcastCommand) (w : BroadcastLedger) (log : BroadcastLog) reply w',
      command.handler.Reaches broadcastContract w log (.ret reply) w' → log.Answered →
      ReportsSoundly SaysTooLow log reply := by
  constructor
  · intro hclaim
    have hrun : ((commandWith ⟨5⟩).handler.follow (errorReply "nonce too high" (.ok ⟨3⟩)) 8
        .empty).map (fun run => (run.2.1.result,
          readings BroadcastCall.queryError run.1,
          readings BroadcastCall.countError run.1,
          readings BroadcastCall.sendError run.1))
        = some (some (.error (.nonceTooLow ⟨3⟩ ⟨5⟩)), [], [],
          [.rpcBroadcastError "nonce too high"]) := by decide +kernel
    obtain ⟨log, w', hreach, hanswered, -⟩ := exists_answered hrun
    exact absurd (hclaim _ _ _ _ _ hreach hanswered _ _ rfl) (by decide)
  · intro hclaim
    have hrun : ((commandWith ⟨2⟩).handler.follow
        (errorReply "insufficient funds for gas (account nonce 2)" (.ok ⟨3⟩)) 8
        .empty).map (fun run => (run.2.1.result,
          readings BroadcastCall.queryError run.1,
          readings BroadcastCall.countError run.1,
          readings BroadcastCall.sendError run.1))
        = some (some (.error (.nonceTooLow ⟨3⟩ ⟨2⟩)), [], [],
          [.rpcBroadcastError "insufficient funds for gas (account nonce 2)"]) := by
      decide +kernel
    obtain ⟨log, w', hreach, hanswered, hsent⟩ := exists_answered hrun
    have hother : ¬ SaysTooLow
        (.rpcBroadcastError "insufficient funds for gas (account nonce 2)") := by
      show ¬ contains _ _ = true
      decide +kernel
    have hrejected := (hclaim _ _ _ _ _ hreach hanswered).rejected _
      (by rw [hsent]; exact List.mem_singleton_self _) hother
    exact hrejected.2 ⟨1, ⟨2⟩, _, _, _, rfl, rfl⟩

/-! ## Rows left open -/

theorem Closed.ne_received (h : Closed reply row) : row.state ≠ .received := by
  intro hstate
  rcases h with ⟨_, _, hsubmitted, _⟩ | hrejected
  · rw [hstate] at hsubmitted
    cases hsubmitted
  · rw [hstate] at hrejected
    cases hrejected

/-- **A row is closed unless the count could not be fetched.**  In every run of
`handle_broadcast` whose statements succeed, the row it inserted is submitted with the hash of
the reply or rejected, and a retry is decided by what happened, if and only if
`eth_getTransactionCount` did not fail. -/
theorem row_closed_iff
    (h : command.handler.Reaches broadcastContract w log (.ret reply) w')
    (hsucceed : log.StatementsSucceed) :
    ClosesRow command log reply w' ∧ DecidesRetry command log w'
      ↔ readings BroadcastCall.countError log = [] := by
  have hconcluded := concluded h
  constructor
  · rintro ⟨hcloses, _⟩
    by_contra hcount
    obtain ⟨revision, hrevision⟩ :=
      List.exists_mem_of_ne_nil _ (hconcluded.uncounted hcount)
    obtain ⟨row, hadds, rfl, hstate⟩ := hconcluded.inserted hsucceed revision hrevision
    rw [if_neg hcount] at hstate
    obtain ⟨row', hrow', hkey, hclosed⟩ := hcloses _ hrevision
    -- the row found is the one that was inserted
    have hrow : row ∈ w'.table.rows := by rw [hadds.rows]; simp
    have heq : row' = row :=
      w'.table.eq_of_key_eq hrow' hrow (hkey.trans (Prod.ext hadds.executionId.symm rfl))
    subst heq
    exact hclosed.ne_received hstate
  · intro hcount
    have hinserted : ∀ revision ∈ readings BroadcastCall.insertedRow log, ∃ row,
        Adds command.executionId w.table row w'.table ∧ row.revision = revision
          ∧ Closed reply row := by
      intro revision hrevision
      obtain ⟨row, hadds, hrow, hclosed⟩ := hconcluded.inserted hsucceed revision hrevision
      rw [if_pos hcount] at hclosed
      exact ⟨row, hadds, hrow, hclosed⟩
    constructor
    · intro revision hrevision
      obtain ⟨row, hadds, rfl, hclosed⟩ := hinserted revision hrevision
      exact ⟨row, by rw [hadds.rows]; simp, Prod.ext hadds.executionId rfl, hclosed⟩
    · intro hne command' log' reply' w'' hsame hretry hsucceed' hunknown
      obtain ⟨revision, hrevision⟩ := List.exists_mem_of_ne_nil _ hne
      obtain ⟨row, hadds, _, hclosed⟩ := hinserted revision hrevision
      obtain ⟨r, hr, hstate⟩ := (concluded hretry).unknown hsucceed' hunknown
      rw [hsame, hadds.newest] at hr
      obtain rfl := Option.some.inj hr
      exact hclosed.ne_received hstate

/-- A rejected request is closed. -/
theorem row_closed_rejected :
    ∃ (log : BroadcastLog) (w' : BroadcastLedger),
      let reply := .error (.rejected (rpcErrorText (.rpcBroadcastError "insufficient funds")))
      sampleCommand.handler.Reaches broadcastContract .empty log (.ret reply) w'
      ∧ ClosesRow sampleCommand log reply w' ∧ DecidesRetry sampleCommand log w' := by
  have hrun : (sampleCommand.handler.follow (errorReply "insufficient funds" (.ok ⟨3⟩)) 8
      .empty).map (fun run => (run.2.1.result,
        readings BroadcastCall.queryError run.1,
        readings BroadcastCall.countError run.1,
        readings BroadcastCall.sendError run.1))
      = some (some (.error (.rejected (rpcErrorText (.rpcBroadcastError
        "insufficient funds")))), [], [], [.rpcBroadcastError "insufficient funds"]) := by
    decide +kernel
  obtain ⟨log, w', hreach, ⟨hqueries, hcounted⟩, -⟩ := exists_answered hrun
  exact ⟨log, w', hreach, (row_closed_iff hreach hqueries).mpr hcounted⟩

/-- The count cannot be fetched, and the row stays received. -/
theorem row_left_received :
    ¬ ∀ (command : BroadcastCommand) (w : BroadcastLedger) (log : BroadcastLog) reply w',
      command.handler.Reaches broadcastContract w log (.ret reply) w' →
      log.StatementsSucceed → ClosesRow command log reply w' ∧ DecidesRetry command log w' := by
  intro hclaim
  have hrun : (sampleCommand.handler.follow
      (errorReply "nonce too low" (.error (.nonceFetchError "timeout"))) 8 .empty).map
      (fun run => (run.2.1.result.isSome, readings BroadcastCall.queryError run.1,
        readings BroadcastCall.insertedRow run.1,
        run.2.2.table.rows.map BroadcastRow.state))
      = some (true, [], [1], [.received]) := by decide +kernel
  obtain ⟨log, p, w', hreach, hend⟩ :=
    exists_reaches (E := broadcastContract) step_of_errorReply hrun
  simp only [Prod.mk.injEq] at hend
  obtain ⟨hresult, hqueries, hinserted, hstates⟩ := hend
  obtain ⟨reply, hreply⟩ := Option.isSome_iff_exists.mp hresult
  rw [eq_ret_of_result hreply] at hreach
  obtain ⟨row, hrow, _, hclosed⟩ := (hclaim _ _ _ _ _ hreach hqueries).1 1
    (by rw [hinserted]; exact List.mem_singleton_self 1)
  have hstate : row.state ∈ w'.table.rows.map BroadcastRow.state :=
    List.mem_map_of_mem hrow
  rw [hstates, List.mem_singleton] at hstate
  exact hclosed.ne_received hstate

end

end BroadcastLedger

end Lobby
