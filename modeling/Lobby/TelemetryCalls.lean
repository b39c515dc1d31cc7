/-
# The telemetry calls of a pipeline

With the feature `benchmark-telemetry` a run of `run_pipeline` records its start and its stages,
and calls `finalize` right after the broadcast, before the validation: exactly once when one of
its broadcasts was answered with a hash, and on no failure path before that
(`TelemetryRun.finalized`).
-/
import Lobby.StatusOrder

namespace Lobby

open Interaction Prog PipelineContext

/-! ## What a log shows -/

namespace PipelineCall

/-- The call of the telemetry context, with its execution id. -/
@[simp]
def telemetryCall : (c : PipelineCall) → c.Reply → Option (ExecutionId × TelemetryCall)
  | .telemetry executionId recorded, _ => some (executionId, recorded)
  | _, _ => none

/-- The outcome of a broadcast that was answered with a hash. -/
@[simp]
def broadcastOutcome : (c : PipelineCall) → c.Reply → Option BroadcastOutcome
  | .broadcast _ _ _ _ _, .ok outcome => some outcome
  | _, _ => none

/-- The calls that neither read nor show anything here. -/
def Quiet : PipelineCall → Prop
  | .telemetry _ _ => False
  | .broadcast _ _ _ _ _ => False
  | _ => True

theorem Quiet.telemetryCall {c : PipelineCall} (h : c.Quiet) (r : c.Reply) :
    c.telemetryCall r = none := by
  cases c <;> first | rfl | exact h.elim

theorem Quiet.broadcastOutcome {c : PipelineCall} (h : c.Quiet) (r : c.Reply) :
    c.broadcastOutcome r = none := by
  cases c <;> first | rfl | exact h.elim

end PipelineCall

/-- What a log shows, the latest first: calls for the execution of the pipeline, and the
outcomes of its broadcasts. -/
structure LogShows (ctx : PipelineContext) (calls : List TelemetryCall)
    (outcomes : List BroadcastOutcome) (log : PipelineLog) : Prop where
  calls : readings PipelineCall.telemetryCall log = calls.map (Prod.mk ctx.executionId)
  outcomes : readings PipelineCall.broadcastOutcome log = outcomes

variable {ctx : PipelineContext} {calls : List TelemetryCall}
  {outcomes : List BroadcastOutcome} {log : PipelineLog}

theorem LogShows.quiet (h : LogShows ctx calls outcomes log) {c : PipelineCall} (hc : c.Quiet)
    (r : c.Reply) (u : Unit) : LogShows ctx calls outcomes (⟨c, r, u⟩ :: log) := by
  constructor
  · rw [readings_cons, hc.telemetryCall r, h.calls]
    rfl
  · rw [readings_cons, hc.broadcastOutcome r, h.outcomes]
    rfl

/-! ## The calls of each stage -/

/-- Any replies, with the calls logged. -/
abbrev telemetryContract : Contract PipelineCall PipelineCall.Reply (Unit × PipelineLog) :=
  Contract.free.logged noDemand

theorem wp_shows_ret {α : Type} {a : α} {Q : α → Unit × PipelineLog → Prop} {u : Unit}
    (h : Q a ((), log)) : wp telemetryContract (.ret a) Q (u, log) := by
  refine wp_ret ?_
  rintro ⟨_, _⟩ ⟨_, rfl⟩
  exact h

theorem wp_shows_call {α : Type} {c : PipelineCall} {next : c.Reply → PipelineProg α}
    {Q : α → Unit × PipelineLog → Prop} {u : Unit}
    (h : ∀ r, wp telemetryContract (next r) Q ((), ⟨c, r, ()⟩ :: log)) :
    wp telemetryContract (.call c next) Q (u, log) := by
  refine wp_call ?_
  rintro ⟨_, _⟩ ⟨_, rfl⟩
  refine ⟨⟨trivial, trivial⟩, ?_⟩
  rintro r ⟨_, _⟩ ⟨_, rfl⟩
  exact h r

/-- A program of quiet calls shows nothing new. -/
theorem wp_quiet_shows {α : Type} {p : PipelineProg α} (hp : p.Asks PipelineCall.Quiet) {u : Unit}
    (h : LogShows ctx calls outcomes log) :
    wp telemetryContract p (fun _ x => LogShows ctx calls outcomes x.2) (u, log) := by
  induction p generalizing u log with
  | ret a => exact wp_shows_ret h
  | call c next ih => exact wp_shows_call fun r => ih r (hp.2 r) (h.quiet hp.1 r ())

/-- A retried operation asks what its attempts and the backoff ask. -/
theorem asks_retryLoop {T E : Type} {backoff : ℕ → PipelineProg Unit}
    {unreachable : PipelineProg (Except E T)}
    {operation : PipelineProg (Except (RetryDecision E) T)} {maxTotal : ℕ}
    {P : PipelineCall → Prop} (hbackoff : ∀ attempt, (backoff attempt).Asks P)
    (hunreachable : unreachable.Asks P) (hoperation : operation.Asks P)
    (remaining attempt : ℕ) :
    (retryLoop backoff unreachable operation maxTotal remaining attempt).Asks P := by
  induction remaining generalizing attempt with
  | zero => exact hunreachable
  | succ remaining ih =>
      refine hoperation.bind fun result => ?_
      match result with
      | .ok value => trivial
      | .error (.failImmediately err) => trivial
      | .error (.retry err) =>
          dsimp only
          split
          · trivial
          · exact (hbackoff attempt).bind fun _ => ih (attempt + 1)

theorem asks_backoff (attempt : ℕ) : (ctx.backoff attempt).Asks PipelineCall.Quiet := by
  unfold PipelineContext.backoff
  dsimp only
  split
  · exact ⟨trivial, fun _ => ⟨trivial, fun _ => trivial⟩⟩
  · exact ⟨trivial, fun _ => trivial⟩

-- what is asked by a backoff is said by its lemma
attribute [local irreducible] PipelineContext.backoff

theorem asks_exitedLoop {α : Type} :
    (exitedLoop : PipelineProg α).Asks PipelineCall.Quiet :=
  ⟨trivial, fun impossible => impossible.elim⟩

theorem asks_retryCall {T E : Type} {operation : PipelineProg (Except E T)}
    (h : operation.Asks PipelineCall.Quiet) :
    (ctx.retryCall operation).Asks PipelineCall.Quiet := by
  have hattempt : (operation >>= fun result => (.ret (retryAll result) :
      PipelineProg (Except (RetryDecision E) T))).Asks PipelineCall.Quiet :=
    h.bind fun _ => trivial
  exact asks_retryLoop asks_backoff asks_exitedLoop hattempt _ _

theorem asks_setStatus (status : PipelineStatus) :
    (ctx.setStatus status).Asks PipelineCall.Quiet :=
  ⟨trivial, fun _ => trivial⟩

theorem asks_resolveNonce (state : NonceState) :
    (ctx.resolveNonce state).Asks PipelineCall.Quiet := by
  unfold resolveNonce
  exact (asks_retryCall (asks_perform trivial)).bind fun _ => trivial

theorem asks_revertSign : ctx.revertSign.Asks PipelineCall.Quiet := by
  unfold revertSign
  exact (asks_retryCall (asks_perform trivial)).bind fun _ => trivial

theorem asks_releaseAndFail (err : CortexError) :
    (ctx.releaseAndFail err).Asks PipelineCall.Quiet :=
  (asks_resolveNonce _).bind fun _ => asks_setStatus _

theorem asks_signTxn (txn : Eip1559Transaction) :
    (ctx.signTxn txn).Asks PipelineCall.Quiet := by
  unfold signTxn
  exact asks_retryCall (asks_perform trivial)

theorem asks_recoverNonce (nonceOnChain attemptedNonce : TxNonce) :
    (ctx.recoverNonce nonceOnChain attemptedNonce).Asks PipelineCall.Quiet := by
  unfold recoverNonce
  refine (asks_setStatus _).bind fun _ => (asks_resolveNonce _).bind fun _ =>
    asks_revertSign.bind fun _ => (asks_retryCall (asks_perform trivial)).bind ?_
  intro synced
  match synced with
  | .error err => exact (asks_setStatus _).bind fun _ => trivial
  | .ok correctedNonce =>
      refine (asks_setStatus _).bind fun _ => (asks_signTxn _).bind fun signed => ?_
      match signed with
      | .error err => exact (asks_releaseAndFail _).bind fun _ => trivial
      | .ok signed => exact (asks_setStatus _).bind fun _ => trivial

/-! ## The telemetry calls of each stage -/

/-- A recorded call shows. -/
theorem wp_record (htelemetry : ctx.telemetry = true) (recorded : TelemetryCall) {u : Unit}
    (h : LogShows ctx calls outcomes log) :
    wp telemetryContract (ctx.record recorded)
      (fun _ x => LogShows ctx (recorded :: calls) outcomes x.2) (u, log) := by
  unfold record
  rw [if_pos htelemetry]
  refine wp_shows_call fun _ => wp_shows_ret ⟨?_, ?_⟩
  · rw [readings_cons, h.calls]
    rfl
  · rw [readings_cons, h.outcomes]
    rfl

/-- A broadcast round ends with the first hash it is answered. -/
theorem wp_broadcastRound_shows (signed : SignedTransaction) (stickyIndex : ℕ) {u : Unit}
    (h : LogShows ctx calls [] log) :
    wp telemetryContract (ctx.broadcastRound signed stickyIndex)
      (fun result x => LogShows ctx calls result.toOption.toList x.2) (u, log) := by
  unfold broadcastRound retryWithBackoff
  refine wp_retryLoop (I := fun _ x => LogShows ctx calls [] x.2) ?_ ?_ ?_ ?_ h
  · rintro result ⟨_, _⟩ ⟨_, _⟩ hresult ⟨_, rfl⟩
    exact hresult
  · rintro attempt ⟨u, log⟩ - - hI
    refine wp_shows_call fun reply => wp_shows_ret ?_
    have hreadings : LogShows ctx calls (PipelineCall.broadcastOutcome _ reply).toList
        (⟨.broadcast ctx.txn.chainId ctx.clientConfig.fromAddress ctx.executionId signed
          stickyIndex, reply, ()⟩ :: log) := by
      constructor
      · rw [readings_cons, hI.calls]
        rfl
      · rw [readings_cons, hI.outcomes, List.append_nil]
    have hfailed : ∀ {err : BroadcastError}, reply = .error err → LogShows ctx calls []
        (⟨.broadcast ctx.txn.chainId ctx.clientConfig.fromAddress ctx.executionId signed
          stickyIndex, reply, ()⟩ :: log) := by
      rintro err rfl
      exact hreadings
    match hdecision : broadcastDecision reply with
    | .ok outcome =>
        obtain rfl := broadcastDecision_ok hdecision
        exact hreadings
    | .error (.failImmediately err) =>
        exact hfailed (broadcastDecision_error (Or.inl hdecision))
    | .error (.retry err) =>
        have hshows := hfailed (broadcastDecision_error (Or.inr hdecision))
        rw [afterAttempt]
        split
        · exact hshows
        · exact hshows
  · rintro attempt ⟨u, log⟩ hI
    exact wp_quiet_shows (asks_backoff attempt) hI
  · rintro ⟨u, log⟩ - -
    unfold exitedLoop
    exact wp_shows_call fun impossible => impossible.elim

/-- A failed round answers no hash. -/
theorem wp_failRound_shows (err : BroadcastError) {u : Unit} (h : LogShows ctx calls [] log) :
    wp telemetryContract (ctx.failRound err)
      (fun result x => LogShows ctx calls result.toList x.2) (u, log) := by
  unfold failRound
  split
  · exact wp_seq (wp_quiet_shows (asks_setStatus _) h) fun _ _ hfailed => wp_shows_ret hfailed
  · exact wp_seq (wp_quiet_shows (asks_releaseAndFail _) h) fun _ _ hfailed => wp_shows_ret hfailed

/-- At most one broadcast of the loop is answered with a hash, the last one. -/
theorem wp_broadcastLoop_shows (stickyIndex recoveries : ℕ) (signed : SignedTransaction)
    {u : Unit} (h : LogShows ctx calls [] log) :
    wp telemetryContract (ctx.broadcastLoop stickyIndex recoveries signed)
      (fun result x => LogShows ctx calls result.toList x.2) (u, log) := by
  induction recoveries generalizing signed u log with
  | zero =>
      unfold broadcastLoop
      refine wp_seq (wp_broadcastRound_shows signed stickyIndex h) ?_
      rintro result ⟨u, log⟩ hresult
      split
      · exact wp_shows_ret hresult
      · refine wp_seq (wp_quiet_shows (asks_releaseAndFail _) hresult) ?_
        rintro _ ⟨u, log⟩ hfailed
        exact wp_shows_ret hfailed
      · exact wp_failRound_shows _ hresult
  | succ recoveries ih =>
      unfold broadcastLoop
      refine wp_seq (wp_broadcastRound_shows signed stickyIndex h) ?_
      rintro result ⟨u, log⟩ hresult
      split
      · exact wp_shows_ret hresult
      · -- the recovery makes no call of the telemetry; then the next round
        refine wp_seq (wp_quiet_shows (asks_recoverNonce _ _) hresult) ?_
        rintro recovered ⟨u, log⟩ hrecovered
        match recovered with
        | none => exact wp_shows_ret hrecovered
        | some signed => exact ih signed hrecovered
      · exact wp_failRound_shows _ hresult

/-- A validation is finalized before the validator is asked. -/
theorem wp_validation_shows (htelemetry : ctx.telemetry = true) (stickyIndex : ℕ)
    (txHash : TxHash) {u : Unit} (h : LogShows ctx calls outcomes log) :
    wp telemetryContract (ctx.validation stickyIndex txHash)
      (fun _ x => LogShows ctx (.finalize :: .recordStage .broadcast :: calls) outcomes x.2)
      (u, log) := by
  unfold validation
  refine wp_seq (wp_quiet_shows (asks_setStatus _) h) ?_
  rintro _ ⟨u, log⟩ hbroadcasted
  refine wp_seq (wp_record htelemetry (.recordStage .broadcast) hbroadcasted) ?_
  rintro _ ⟨u, log⟩ hrecorded
  refine wp_seq (wp_record htelemetry .finalize hrecorded) ?_
  rintro _ ⟨u, log⟩ hfinalized
  refine wp_quiet_shows ((asks_perform trivial).bind fun verdict => ?_) hfinalized
  split
  · exact asks_setStatus _
  · exact asks_setStatus _
  · exact asks_releaseAndFail _
  · exact (asks_resolveNonce _).bind fun _ => asks_setStatus _
  · exact (asks_resolveNonce _).bind fun _ => asks_setStatus _
  · exact (asks_resolveNonce _).bind fun _ => asks_setStatus _

/-- How the telemetry calls of a run end: without a hash as they were, and finalized after
the first hash. -/
def LogEndsWith (ctx : PipelineContext) (calls : List TelemetryCall) (log : PipelineLog) :
    Prop :=
  LogShows ctx calls [] log
    ∨ ∃ outcome, LogShows ctx (.finalize :: .recordStage .broadcast :: calls) [outcome] log

theorem wp_broadcastStages_shows (htelemetry : ctx.telemetry = true)
    (signed : SignedTransaction) {u : Unit} (h : LogShows ctx calls [] log) :
    wp telemetryContract (ctx.broadcastStages signed) (fun _ x => LogEndsWith ctx calls x.2)
      (u, log) := by
  have hacquire : (PipelineCall.acquireHealthyEndpoint ctx.txn.chainId
      (.fromSecs 30)).ask.Asks PipelineCall.Quiet := asks_perform trivial
  unfold broadcastStages
  refine wp_seq (wp_quiet_shows hacquire h) ?_
  rintro acquired ⟨u, log⟩ hacquired
  split
  · exact wp_mono (wp_quiet_shows (asks_releaseAndFail _) hacquired) fun _ _ => Or.inl
  · exact wp_mono (wp_quiet_shows (asks_releaseAndFail _) hacquired) fun _ _ => Or.inl
  · refine wp_seq (wp_broadcastLoop_shows _ 1 signed hacquired) ?_
    rintro result ⟨u, log⟩ hresult
    match result with
    | none => exact wp_shows_ret (Or.inl hresult)
    | some outcome =>
        exact wp_mono (wp_validation_shows htelemetry _ _ hresult)
          fun _ _ hvalidated => Or.inr ⟨outcome, hvalidated⟩

/-- The stages whose ends were recorded before the broadcast. -/
def Records (calls : List TelemetryCall) : Prop :=
  .recordStart ∈ calls ∧ .finalize ∉ calls

/-- What a run of a pipeline shows when it has ended. -/
def LogEnded (ctx : PipelineContext) (log : PipelineLog) : Prop :=
  ∃ calls, Records calls ∧ LogEndsWith ctx calls log

/-- The calls of a run that has signed its transaction, the latest first. -/
def signedCalls : List TelemetryCall :=
  [.recordStage .sign, .recordStage .nonce, .recordStage .relayHost, .recordStart]

/-- What a run of a pipeline shows when it has ended, stage by stage: without a hash the stages
as far as it came, and after a hash all. -/
def LogStaged (ctx : PipelineContext) (log : PipelineLog) : Prop :=
  (∃ calls, .recordStart ∈ calls ∧ calls <:+ signedCalls ∧ LogShows ctx calls [] log)
    ∨ ∃ outcome, LogShows ctx (.finalize :: .recordStage .broadcast :: signedCalls) [outcome] log

theorem LogStaged.ended (h : LogStaged ctx log) : LogEnded ctx log := by
  rcases h with ⟨calls, hstart, hcalls, hshows⟩ | ⟨outcome, hshows⟩
  · have hfinalize : .finalize ∉ calls := fun hmem => absurd (hcalls.subset hmem) (by decide)
    exact ⟨calls, ⟨hstart, hfinalize⟩, Or.inl hshows⟩
  · exact ⟨signedCalls, ⟨by decide, by decide⟩, Or.inr ⟨outcome, hshows⟩⟩

theorem wp_signStages_shows (htelemetry : ctx.telemetry = true) (nonce : TxNonce) {u : Unit}
    (h : LogShows ctx [.recordStage .relayHost, .recordStart] [] log) :
    wp telemetryContract (ctx.signStages nonce) (fun _ x => LogStaged ctx x.2) (u, log) := by
  unfold signStages
  refine wp_seq (wp_quiet_shows (asks_setStatus _) h) ?_
  rintro _ ⟨u, log⟩ hreserved
  refine wp_seq (wp_record htelemetry (.recordStage .nonce) hreserved) ?_
  rintro _ ⟨u, log⟩ hrecorded
  refine wp_seq (wp_quiet_shows (asks_signTxn _) hrecorded) ?_
  rintro signed ⟨u, log⟩ hsigned
  split
  · exact wp_mono (wp_quiet_shows (asks_releaseAndFail _) hsigned)
      fun _ _ hfailed => Or.inl ⟨_, by decide, by decide, hfailed⟩
  · refine wp_seq (wp_quiet_shows (asks_setStatus _) hsigned) ?_
    rintro _ ⟨u, log⟩ hstatus
    refine wp_seq (wp_record htelemetry (.recordStage .sign) hstatus) ?_
    rintro _ ⟨u, log⟩ hstage
    exact wp_mono (wp_broadcastStages_shows htelemetry _ hstage) fun _ _ hends =>
      hends.imp_left fun hfailed => ⟨_, by decide, List.suffix_rfl, hfailed⟩

theorem wp_runPipeline_staged (htelemetry : ctx.telemetry = true) :
    wp telemetryContract (runPipeline ctx) (fun _ x => LogStaged ctx x.2) ((), []) := by
  have hempty : LogShows ctx [] [] [] := ⟨rfl, rfl⟩
  unfold runPipeline
  refine wp_seq (wp_record htelemetry .recordStart hempty) ?_
  rintro _ ⟨u, log⟩ hrecorded
  refine wp_seq (wp_quiet_shows (asks_retryCall (asks_perform trivial)) hrecorded) ?_
  rintro registered ⟨u, log⟩ hregistered
  split
  · exact wp_mono (wp_quiet_shows (asks_setStatus _) hregistered)
      fun _ _ hfailed => Or.inl ⟨_, by decide, by decide, hfailed⟩
  · refine wp_seq (wp_quiet_shows (asks_setStatus _) hregistered) ?_
    rintro _ ⟨u, log⟩ haccepted
    refine wp_seq (wp_record htelemetry (.recordStage .relayHost) haccepted) ?_
    rintro _ ⟨u, log⟩ hstage
    refine wp_seq (wp_quiet_shows (asks_retryCall (asks_perform trivial)) hstage) ?_
    rintro reserved ⟨u, log⟩ hreserved
    split
    · exact wp_mono (wp_quiet_shows (asks_setStatus _) hreserved)
        fun _ _ hfailed => Or.inl ⟨_, by decide, by decide, hfailed⟩
    · exact wp_signStages_shows htelemetry _ hreserved

/-! ## Runs that have returned -/

/-- A run of a pipeline that has returned, with the feature on. -/
structure TelemetryRun where
  ctx : PipelineContext
  log : PipelineLog
  enabled : ctx.telemetry = true
  returned : (runPipeline ctx).Reaches .free () log (.ret ()) ()

namespace TelemetryRun

variable (run : TelemetryRun)

/-- The telemetry calls of the run, in order. -/
def telemetryCalls : List (ExecutionId × TelemetryCall) :=
  (readings PipelineCall.telemetryCall run.log).reverse

/-- One of the broadcasts of the run was answered with a hash. -/
def Broadcasts : Prop := readings PipelineCall.broadcastOutcome run.log ≠ []

/-- **A run is finalized after a broadcast, and on no other path.**  Of a run that got no
hash no call is `finalize`; of one that did it is the last call and no other. -/
theorem finalized :
    ∃ records : List TelemetryCall, .recordStart ∈ records ∧ .finalize ∉ records
      ∧ (¬ run.Broadcasts ∧ run.telemetryCalls = records.map (Prod.mk run.ctx.executionId)
        ∨ run.Broadcasts ∧ run.telemetryCalls
          = records.map (Prod.mk run.ctx.executionId)
            ++ [(run.ctx.executionId, .finalize)]) := by
  obtain ⟨calls, ⟨hstart, hfinalize⟩, hends⟩ :=
    (run.returned.ended (wp_runPipeline_staged run.enabled)).ended
  rcases hends with hshows | ⟨outcome, hshows⟩
  · refine ⟨calls.reverse, List.mem_reverse.mpr hstart, ?_, Or.inl ⟨?_, ?_⟩⟩
    · rwa [List.mem_reverse]
    · exact fun hbroadcasts => hbroadcasts hshows.outcomes
    · rw [telemetryCalls, hshows.calls, List.map_reverse]
  · refine ⟨(.recordStage .broadcast :: calls).reverse, ?_, ?_, Or.inr ⟨?_, ?_⟩⟩
    · exact List.mem_reverse.mpr (List.mem_cons_of_mem _ hstart)
    · rw [List.mem_reverse, List.mem_cons]
      exact not_or.mpr ⟨nofun, hfinalize⟩
    · unfold Broadcasts
      rw [hshows.outcomes]
      exact List.cons_ne_nil _ _
    · rw [telemetryCalls, hshows.calls, List.map_cons, List.reverse_cons, List.map_reverse]

/-- After a hash a run has recorded every stage, in order. -/
theorem staged (h : run.Broadcasts) :
    run.telemetryCalls = ([.recordStart, .recordStage .relayHost, .recordStage .nonce,
      .recordStage .sign, .recordStage .broadcast, .finalize] : List TelemetryCall).map
        (Prod.mk run.ctx.executionId) := by
  rcases run.returned.ended (wp_runPipeline_staged run.enabled) with
    ⟨calls, -, -, hshows⟩ | ⟨outcome, hshows⟩
  · exact absurd hshows.outcomes h
  · rw [telemetryCalls, hshows.calls]
    rfl

/-- A record of a run is not `finalize`. -/
theorem ne_finalize_of_mem_map {e : ExecutionId} {records : List TelemetryCall}
    (h : .finalize ∉ records) {call : ExecutionId × TelemetryCall}
    (hcall : call ∈ records.map (Prod.mk e)) : call.1 = e ∧ call.2 ≠ .finalize := by
  obtain ⟨recorded, hrecorded, rfl⟩ := List.mem_map.mp hcall
  exact ⟨rfl, fun heq => h (heq ▸ hrecorded)⟩

theorem recordStart_mem :
    (run.ctx.executionId, TelemetryCall.recordStart) ∈ run.telemetryCalls := by
  obtain ⟨records, hstart, -, hcalls⟩ := run.finalized
  have hmem := List.mem_map_of_mem (f := Prod.mk run.ctx.executionId) hstart
  rcases hcalls with ⟨-, hcalls⟩ | ⟨-, hcalls⟩
  · rwa [hcalls]
  · rw [hcalls]
    exact List.mem_append_left _ hmem

theorem unfinished (h : ¬ run.Broadcasts) :
    ∀ call ∈ run.telemetryCalls, call.2 ≠ .finalize := by
  obtain ⟨records, -, hfinalize, hcalls⟩ := run.finalized
  intro call hcall
  rcases hcalls with ⟨-, hcalls⟩ | ⟨hbroadcasts, -⟩
  · rw [hcalls] at hcall
    exact (ne_finalize_of_mem_map hfinalize hcall).2
  · exact absurd hbroadcasts h

/-- A run is finalized once after a broadcast, and never without one. -/
theorem count_finalize :
    run.telemetryCalls.count (run.ctx.executionId, .finalize) = 1 ↔ run.Broadcasts := by
  obtain ⟨records, -, hfinalize, hcalls⟩ := run.finalized
  have hcount : (records.map (Prod.mk run.ctx.executionId)).count
      (run.ctx.executionId, .finalize) = 0 :=
    List.count_eq_zero.mpr fun hmem => (ne_finalize_of_mem_map hfinalize hmem).2 rfl
  rcases hcalls with ⟨hbroadcasts, hcalls⟩ | ⟨hbroadcasts, hcalls⟩
  · rw [hcalls, hcount]
    exact iff_of_false zero_ne_one hbroadcasts
  · rw [hcalls, List.count_append, hcount, List.count_singleton_self]
    exact iff_of_true rfl hbroadcasts

end TelemetryRun

end Lobby
