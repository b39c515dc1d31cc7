/-
# The trace of a pipeline

What a submission calls and shows, whatever the replies: the number of its calls is bounded,
it never runs into `unreachable!`, it makes at most two rounds of broadcasts and one of
syncs, and the statuses it records are a prefix of the course of a successful run, then one
final status, which is its last call, and each but the permit reports an earlier reply
(`submit_trace`).
-/
import Lobby.System
import Lobby.StatusReports

namespace Lobby

open Interaction Prog PipelineContext Phase

/-! ## The number of calls -/

section

variable {ctx : PipelineContext}

theorem within_ask (c : PipelineCall) : c.ask.Within 1 := within_perform c

/-- The calls of a stage with retries. -/
def PipelineContext.stageCalls (ctx : PipelineContext) : ℕ :=
  3 * ctx.retryConfig.maxTotal.toNat + 1

theorem within_backoff (attempt : ℕ) : (ctx.backoff attempt).Within 2 := by
  rw [backoff]
  split
  · refine (within_ask _).bind (n := 1) fun jitter => ?_
    exact within_ask _
  · exact (within_ask _).mono (by omega)

-- what is known of a backoff is said by its lemmas
attribute [local irreducible] PipelineContext.backoff

theorem within_exitedLoop {α : Type} : (exitedLoop : PipelineProg α).Within 1 :=
  fun impossible => nomatch impossible

theorem within_retryWithBackoff {T F : Type}
    {operation : PipelineProg (Except (RetryDecision F) T)} (h : operation.Within 1) :
    (ctx.retryWithBackoff operation).Within ctx.stageCalls :=
  within_retryLoop within_backoff within_exitedLoop h _ _

theorem within_retryCall {T F : Type} {operation : PipelineProg (Except F T)}
    (h : operation.Within 1) : (ctx.retryCall operation).Within ctx.stageCalls :=
  within_retryWithBackoff (h.bind (n := 0) fun _ => within_ret _)

theorem within_record (call : TelemetryCall) : (ctx.record call).Within 1 := by
  unfold record
  split
  · exact within_ask _
  · exact within_ret _

theorem within_setStatus (status : PipelineStatus) : (ctx.setStatus status).Within 1 :=
  within_ask _

theorem within_recordFaliure (err : CortexError) : (ctx.recordFaliure err).Within 1 :=
  within_ask _

theorem within_resolveNonce (s : NonceState) : (ctx.resolveNonce s).Within ctx.stageCalls :=
  (within_retryCall (within_ask _)).bind (n := 0) fun _ => within_ret _

theorem within_revertSign : ctx.revertSign.Within ctx.stageCalls :=
  (within_retryCall (within_ask _)).bind (n := 0) fun _ => within_ret _

theorem within_releaseAndFail (err : CortexError) :
    (ctx.releaseAndFail err).Within (ctx.stageCalls + 1) :=
  (within_resolveNonce .released).bind fun _ => within_recordFaliure err

theorem within_signTxn (txn : Eip1559Transaction) : (ctx.signTxn txn).Within ctx.stageCalls :=
  within_retryCall (within_ask _)

theorem within_broadcastRound (signed : SignedTransaction) (stickyIndex : ℕ) :
    (ctx.broadcastRound signed stickyIndex).Within ctx.stageCalls :=
  within_retryWithBackoff ((within_ask _).bind (n := 0) fun _ => within_ret _)

theorem within_recoverNonce (nonceOnChain attemptedNonce : TxNonce) :
    (ctx.recoverNonce nonceOnChain attemptedNonce).Within (5 * ctx.stageCalls + 3) := by
  unfold recoverNonce
  refine ((within_setStatus _).bind (n := 5 * ctx.stageCalls + 2) fun _ => ?_).mono (by omega)
  refine ((within_resolveNonce _).bind (n := 4 * ctx.stageCalls + 2) fun _ => ?_).mono (by omega)
  refine (within_revertSign.bind (n := 3 * ctx.stageCalls + 2) fun _ => ?_).mono (by omega)
  refine ((within_retryCall (within_ask _)).bind (n := 2 * ctx.stageCalls + 2) fun r => ?_).mono
    (by omega)
  cases r with
  | error err =>
      exact ((within_recordFaliure _).bind (n := 0) fun _ => within_ret _).mono (by omega)
  | ok corrected =>
      refine ((within_setStatus _).bind (n := 2 * ctx.stageCalls + 1) fun _ => ?_).mono
        (by omega)
      refine ((within_signTxn _).bind (n := ctx.stageCalls + 1) fun r => ?_).mono (by omega)
      cases r with
      | error err => exact (within_releaseAndFail _).bind (n := 0) fun _ => within_ret _
      | ok signed =>
          exact ((within_setStatus _).bind (n := 0) fun _ => within_ret _).mono (by omega)

theorem within_failRound (err : BroadcastError) :
    (ctx.failRound err).Within (ctx.stageCalls + 1) := by
  unfold failRound
  split
  · exact ((within_recordFaliure _).bind (n := 0) fun _ => within_ret _).mono (by omega)
  · exact (within_releaseAndFail _).bind (n := 0) fun _ => within_ret _

/-- A round, and for each recovery that is left the recovery and another round. -/
theorem within_broadcastLoop (stickyIndex recoveries : ℕ) (signed : SignedTransaction) :
    (ctx.broadcastLoop stickyIndex recoveries signed).Within
      (2 * ctx.stageCalls + 1 + recoveries * (6 * ctx.stageCalls + 3)) := by
  induction recoveries generalizing signed with
  | zero =>
      unfold broadcastLoop
      refine ((within_broadcastRound _ _).bind (n := ctx.stageCalls + 1) fun r => ?_).mono
        (by omega)
      rcases r with err | outcome
      · cases err with
        | nonceTooLow => exact (within_releaseAndFail _).bind (n := 0) fun _ => within_ret _
        | _ => exact within_failRound _
      · exact within_ret _
  | succ recoveries ih =>
      unfold broadcastLoop
      refine ((within_broadcastRound _ _).bind
        (n := 5 * ctx.stageCalls + 3
          + (2 * ctx.stageCalls + 1 + recoveries * (6 * ctx.stageCalls + 3)))
        fun r => ?_).mono (by rw [Nat.add_one_mul recoveries]; omega)
      rcases r with err | outcome
      · cases err with
        | nonceTooLow =>
            refine (within_recoverNonce _ _).bind fun r => ?_
            cases r with
            | none => exact within_ret _
            | some signed => exact ih signed
        | _ => exact (within_failRound _).mono (by omega)
      · exact within_ret _

theorem within_validation (stickyIndex : ℕ) (txHash : TxHash) :
    (ctx.validation stickyIndex txHash).Within (ctx.stageCalls + 5) := by
  unfold validation
  refine ((within_setStatus _).bind (n := ctx.stageCalls + 4) fun _ => ?_).mono (by omega)
  refine ((within_record _).bind (n := ctx.stageCalls + 3) fun _ => ?_).mono (by omega)
  refine ((within_record _).bind (n := ctx.stageCalls + 2) fun _ => ?_).mono (by omega)
  refine ((within_ask _).bind (n := ctx.stageCalls + 1) fun r => ?_).mono (by omega)
  rcases r with err | result
  · cases err with
    | database | internal => exact (within_recordFaliure _).mono (by omega)
    | rpc | reverted | rpcError => exact within_releaseAndFail _
  · cases result with
    | included | notIncluded | timeout =>
        exact (within_resolveNonce _).bind fun _ => within_setStatus _

theorem within_broadcastStages (signed : SignedTransaction) :
    (ctx.broadcastStages signed).Within (9 * ctx.stageCalls + 10) := by
  unfold broadcastStages
  refine ((within_ask _).bind (n := 9 * ctx.stageCalls + 9) fun r => ?_).mono (by omega)
  rcases r with err | _ | stickyIndex
  · exact (within_releaseAndFail _).mono (by omega)
  · exact (within_releaseAndFail _).mono (by omega)
  · refine ((within_broadcastLoop _ _ _).bind (n := ctx.stageCalls + 5) fun r => ?_).mono
      (by omega)
    cases r with
    | none => exact within_ret _
    | some outcome => exact within_validation _ _

theorem within_signStages (nonce : TxNonce) :
    (ctx.signStages nonce).Within (10 * ctx.stageCalls + 14) := by
  unfold signStages
  refine ((within_setStatus _).bind (n := 10 * ctx.stageCalls + 13) fun _ => ?_).mono (by omega)
  refine ((within_record _).bind (n := 10 * ctx.stageCalls + 12) fun _ => ?_).mono (by omega)
  refine ((within_signTxn _).bind (n := 9 * ctx.stageCalls + 12) fun r => ?_).mono (by omega)
  cases r with
  | error err => exact (within_releaseAndFail _).mono (by omega)
  | ok signed =>
      refine ((within_setStatus _).bind (n := 9 * ctx.stageCalls + 11) fun _ => ?_).mono
        (by omega)
      exact ((within_record _).bind fun _ => within_broadcastStages signed).mono (by omega)

/-- **A pipeline ends.**  Twelve stages, with at most so many attempts each. -/
theorem within_runPipeline : (runPipeline ctx).Within (12 * ctx.stageCalls + 17) := by
  unfold runPipeline
  refine ((within_record _).bind (n := 12 * ctx.stageCalls + 16) fun _ => ?_).mono (by omega)
  refine ((within_retryCall (within_ask _)).bind (n := 11 * ctx.stageCalls + 16)
    fun r => ?_).mono (by omega)
  cases r with
  | error err => exact (within_recordFaliure _).mono (by omega)
  | ok _ =>
      refine ((within_setStatus _).bind (n := 11 * ctx.stageCalls + 15) fun _ => ?_).mono
        (by omega)
      refine ((within_record _).bind (n := 11 * ctx.stageCalls + 14) fun _ => ?_).mono
        (by omega)
      refine ((within_retryCall (within_ask _)).bind (n := 10 * ctx.stageCalls + 14)
        fun r => ?_).mono (by omega)
      cases r with
      | error err => exact (within_recordFaliure _).mono (by omega)
      | ok nonce => exact within_signStages nonce

end

/-! ## Statuses -/

/-- The status a call records for an execution. -/
def PipelineCall.statusFor (e : ExecutionId) : PipelineCall → Option PipelineStatus
  | .setStatus e' status => if e' = e then some status else none
  | _ => none

/-- The statuses recorded for an execution, in the order of time. -/
def shown (e : ExecutionId) (calls : List PipelineCall) : List PipelineStatus :=
  (calls.filterMap (PipelineCall.statusFor e)).reverse

@[simp] theorem shown_setStatus (e : ExecutionId) (status : PipelineStatus)
    (calls : List PipelineCall) :
    shown e (.setStatus e status :: calls) = shown e calls ++ [status] := by
  simp [shown, PipelineCall.statusFor]

theorem shown_cons {e : ExecutionId} {c : PipelineCall} (h : c.statusFor e = none)
    (calls : List PipelineCall) : shown e (c :: calls) = shown e calls := by
  rw [shown, List.filterMap_cons_none h, shown]

/-- The statuses of a run that gets as far as a broadcast, with or without a recovery from a
nonce mismatch. -/
def IsCourse (course : List PipelineStatus) : Prop :=
  ∃ (recovery : List PipelineStatus) (txHash : String),
    (recovery = [] ∨ ∃ nonceOnChain attemptedNonce : TxNonce,
      recovery = [.nonceMismatchDetected nonceOnChain attemptedNonce, .nonceReserved, .signed])
    ∧ course = ([.accepted, .nonceReserved, .signed] : List PipelineStatus) ++ recovery
      ++ [.broadcasted txHash "Waiting for validation on-chain"]

theorem isCourse_plain (txHash : String) :
    IsCourse [.accepted, .nonceReserved, .signed,
      .broadcasted txHash "Waiting for validation on-chain"] :=
  ⟨[], txHash, Or.inl rfl, rfl⟩

theorem isCourse_recovered (a b : TxNonce) (txHash : String) :
    IsCourse [.accepted, .nonceReserved, .signed, .nonceMismatchDetected a b, .nonceReserved,
      .signed, .broadcasted txHash "Waiting for validation on-chain"] :=
  ⟨[.nonceMismatchDetected a b, .nonceReserved, .signed], txHash, Or.inr ⟨a, b, rfl⟩, rfl⟩

def PipelineStatus.isFailed : PipelineStatus → Bool
  | .failed _ _ => true
  | _ => false

/-- The statuses that end a run. -/
def PipelineStatus.isTerminal : PipelineStatus → Bool
  | .failed _ _ => true
  | .confirmedOnChain _ => true
  | .validatorTimedOut _ => true
  | _ => false

/-- A permit, then a part of a course. -/
def Underway (l : List PipelineStatus) : Prop :=
  ∃ course progress, IsCourse course ∧ progress <+: course ∧ l = .permitAquired :: progress

/-- What has been shown before a broadcast. -/
def Ready (recoveries : ℕ) (l : List PipelineStatus) : Prop :=
  recoveries = 1 ∧ l = [.permitAquired, .accepted, .nonceReserved, .signed]
  ∨ recoveries = 0 ∧ ∃ a b, l = [.permitAquired, .accepted, .nonceReserved, .signed,
      .nonceMismatchDetected a b, .nonceReserved, .signed]

/-- A permit and a whole course. -/
def Complete (l : List PipelineStatus) : Prop :=
  ∃ course, IsCourse course ∧ l = .permitAquired :: course

/-- What has been shown at the end. -/
def Concluded (final : PipelineStatus) (l : List PipelineStatus) : Prop :=
  final.isTerminal = true ∧ ∃ before, l = before ++ [final] ∧ Underway before
    ∧ (final.isFailed = false → Complete before)

/-- What has been shown at each phase. -/
def Shows : Phase → List PipelineStatus → Prop
  | .registering _, l => l = [.permitAquired]
  | .registered, l => l = [.permitAquired]
  | .reserving _, l => l = [.permitAquired, .accepted]
  | .reserved _, l => l = [.permitAquired, .accepted]
  | .signing _ _, l => l = [.permitAquired, .accepted, .nonceReserved]
  | .signed _ _, l => l = [.permitAquired, .accepted, .nonceReserved]
  | .acquiring _ _, l => Ready 1 l
  | .sending recoveries _ _ _, l => Ready recoveries l
  | .mismatch _ _ _, l => Ready 1 l
  | .consuming _ _ _, l | .reverting _ _, l | .syncing _ _, l | .synced _, l =>
    ∃ a b, l = [.permitAquired, .accepted, .nonceReserved, .signed, .nonceMismatchDetected a b]
  | .resigning _ _, l | .resigned _ _, l =>
    ∃ a b, l = [.permitAquired, .accepted, .nonceReserved, .signed,
      .nonceMismatchDetected a b, .nonceReserved]
  | .broadcasted _ _, l => ∃ recoveries, Ready recoveries l
  | .validating _ _, l | .finalizing _ _ _, l | .confirmed _ _, l | .retiring _ _, l
  | .timedOut _, l => Complete l
  | .releasing _ status _, l | .failing status, l => status.isFailed = true ∧ Underway l
  | .ended, l => ∃ final, Concluded final l

section

variable {l : List PipelineStatus}

theorem Complete.underway (h : Complete l) : Underway l := by
  obtain ⟨course, hcourse, rfl⟩ := h
  exact ⟨course, course, hcourse, List.prefix_rfl, rfl⟩

theorem Ready.underway {recoveries : ℕ} (h : Ready recoveries l) : Underway l := by
  rcases h with ⟨_, rfl⟩ | ⟨_, a, b, rfl⟩
  · exact ⟨_, _, isCourse_plain "", ⟨[_], rfl⟩, rfl⟩
  · exact ⟨_, _, isCourse_recovered a b "", ⟨[_], rfl⟩, rfl⟩

/-- Whatever has been shown before the end is part of a course. -/
theorem underway_of_shows {p : Phase} (hp : p ≠ .ended) (h : Shows p l) : Underway l := by
  cases p with
  | registering | registered =>
      obtain rfl := h
      exact ⟨_, [], isCourse_plain "", List.nil_prefix, rfl⟩
  | reserving | reserved =>
      obtain rfl := h
      exact ⟨_, [_], isCourse_plain "", ⟨[_, _, _], rfl⟩, rfl⟩
  | signing | signed =>
      obtain rfl := h
      exact ⟨_, [_, _], isCourse_plain "", ⟨[_, _], rfl⟩, rfl⟩
  | acquiring | sending | mismatch => exact Ready.underway h
  | consuming | reverting | syncing | synced =>
      obtain ⟨a, b, rfl⟩ := h
      exact ⟨_, [_, _, _, _], isCourse_recovered a b "", ⟨[_, _, _], rfl⟩, rfl⟩
  | resigning | resigned =>
      obtain ⟨a, b, rfl⟩ := h
      exact ⟨_, [_, _, _, _, _], isCourse_recovered a b "", ⟨[_, _], rfl⟩, rfl⟩
  | broadcasted =>
      obtain ⟨_, h⟩ := h
      exact h.underway
  | validating | finalizing | confirmed | retiring | timedOut => exact Complete.underway h
  | releasing | failing => exact h.2
  | ended => exact absurd rfl hp

/-- A broadcast that succeeded completes the course. -/
theorem Ready.broadcasted {recoveries : ℕ} (h : Ready recoveries l) (txHash : String) :
    Complete (l ++ [.broadcasted txHash "Waiting for validation on-chain"]) := by
  rcases h with ⟨_, rfl⟩ | ⟨_, a, b, rfl⟩
  · exact ⟨_, isCourse_plain txHash, rfl⟩
  · exact ⟨_, isCourse_recovered a b txHash, rfl⟩

theorem concluded_of_failed {status : PipelineStatus} (hfailed : status.isFailed = true)
    (h : Underway l) : Concluded status (l ++ [status]) := by
  cases status with
  | failed stage reason => exact ⟨rfl, l, rfl, h, fun h => nomatch h⟩
  | _ => cases hfailed

end

/-! ## Rounds -/

/-- Waiting and telemetry: calls of no actor. -/
def PipelineCall.isAside : PipelineCall → Bool
  | .genRange _ => true
  | .sleep _ => true
  | .telemetry _ _ => true
  | _ => false

def PipelineCall.isBroadcast : PipelineCall → Bool
  | .broadcast _ _ _ _ _ => true
  | _ => false

def PipelineCall.isSync : PipelineCall → Bool
  | .sync _ _ _ _ => true
  | _ => false

/-- The latest call but for waiting and telemetry. -/
def lastCall (calls : List PipelineCall) : Option PipelineCall :=
  calls.find? fun c => !c.isAside

/-- The rounds of one kind of calls: the calls of that kind that do not repeat the call
before them. -/
def rounds (kind : PipelineCall → Bool) : List PipelineCall → ℕ
  | [] => 0
  | c :: calls =>
    if kind c && !(lastCall calls).any kind then rounds kind calls + 1 else rounds kind calls

/-- One more call of the kind makes no more than `n` rounds. -/
def InRound (kind : PipelineCall → Bool) (n : ℕ) (calls : List PipelineCall) : Prop :=
  rounds kind calls < n ∨ rounds kind calls = n ∧ (lastCall calls).any kind = true

section

variable {kind : PipelineCall → Bool} {c : PipelineCall} {calls : List PipelineCall} {n : ℕ}

theorem lastCall_cons_aside (h : c.isAside = true) : lastCall (c :: calls) = lastCall calls := by
  rw [lastCall, List.find?_cons_of_neg (by simp [h]), lastCall]

theorem lastCall_cons (h : c.isAside = false) : lastCall (c :: calls) = some c := by
  rw [lastCall, List.find?_cons_of_pos (by simp [h])]

theorem rounds_cons_of_not (h : kind c = false) :
    rounds kind (c :: calls) = rounds kind calls := by
  simp [rounds, h]

theorem InRound.le (h : InRound kind n calls) : rounds kind calls ≤ n := by
  rcases h with h | ⟨h, _⟩
  · exact h.le
  · exact h.le

/-- A call of the kind starts a round, or goes on with the one there is. -/
theorem InRound.call (h : InRound kind n calls) (hkind : kind c = true)
    (haside : c.isAside = false) : InRound kind n (c :: calls) := by
  have hlast : (lastCall (c :: calls)).any kind = true := by
    rw [lastCall_cons haside]
    simpa using hkind
  rcases h with hlt | ⟨heq, hrepeat⟩
  · have hle : rounds kind (c :: calls) ≤ n := by
      unfold rounds
      split
      · exact hlt
      · exact hlt.le
    rcases hle.lt_or_eq with hlt' | heq
    · exact Or.inl hlt'
    · exact Or.inr ⟨heq, hlast⟩
  · refine Or.inr ⟨?_, hlast⟩
    rw [rounds, hrepeat]
    simpa using heq

/-- Waiting between two calls does not end a round. -/
theorem InRound.aside (h : InRound kind n calls) (hkind : kind c = false)
    (haside : c.isAside = true) : InRound kind n (c :: calls) := by
  rw [InRound, rounds_cons_of_not hkind, lastCall_cons_aside haside]
  exact h

end

/-- The rounds made up to each phase. -/
def RoundsAt : Phase → List PipelineCall → Prop
  | .registering _, calls | .registered, calls | .reserving _, calls | .reserved _, calls
  | .signing _ _, calls | .signed _ _, calls | .acquiring _ _, calls =>
    rounds PipelineCall.isBroadcast calls = 0 ∧ rounds PipelineCall.isSync calls = 0
  | .sending recoveries _ _ _, calls =>
    InRound PipelineCall.isBroadcast (2 - recoveries) calls
      ∧ rounds PipelineCall.isSync calls ≤ 1 - recoveries
  | .mismatch _ _ _, calls | .consuming _ _ _, calls | .reverting _ _, calls =>
    rounds PipelineCall.isBroadcast calls ≤ 1 ∧ rounds PipelineCall.isSync calls = 0
  | .syncing _ _, calls =>
    rounds PipelineCall.isBroadcast calls ≤ 1 ∧ InRound PipelineCall.isSync 1 calls
  | .synced _, calls | .resigning _ _, calls | .resigned _ _, calls =>
    rounds PipelineCall.isBroadcast calls ≤ 1 ∧ rounds PipelineCall.isSync calls ≤ 1
  | _, calls =>
    rounds PipelineCall.isBroadcast calls ≤ 2 ∧ rounds PipelineCall.isSync calls ≤ 1

/-- The bounds that hold at every phase. -/
theorem rounds_le {p : Phase} {calls : List PipelineCall} (h : RoundsAt p calls) :
    rounds PipelineCall.isBroadcast calls ≤ 2 ∧ rounds PipelineCall.isSync calls ≤ 1 := by
  cases p with
  | registering | registered | reserving | reserved | signing | signed | acquiring =>
      exact ⟨h.1.le.trans (by omega), h.2.le.trans (by omega)⟩
  | sending => exact ⟨h.1.le.trans (by omega), h.2.trans (by omega)⟩
  | mismatch | consuming | reverting => exact ⟨h.1.trans (by omega), h.2.le.trans (by omega)⟩
  | syncing => exact ⟨h.1.trans (by omega), h.2.le⟩
  | synced | resigning | resigned => exact ⟨h.1.trans (by omega), h.2⟩
  | broadcasted | validating | finalizing | confirmed | retiring | timedOut | releasing
  | failing | ended => exact h

/-! ## The outline -/

/-- What has been called and shown at each phase. -/
structure TraceAt (e : ExecutionId) (p : Phase) (calls : List PipelineCall) : Prop where
  shows : Shows p (shown e calls)
  rounds : RoundsAt p calls
  last : p = .ended → ∃ final, Concluded final (shown e calls)
    ∧ lastCall calls = some (.setStatus e final)

/-- Every call of a pipeline is answered by a type with a value. -/
theorem nonempty_reply {c : PipelineCall} (h : ∀ message, c ≠ .unreachable message) :
    Nonempty c.Reply := by
  cases c with
  | registerTransaction => exact ⟨(.ok () : Except RelayHostError Unit)⟩
  | reserve | sync => exact ⟨(.ok ⟨0⟩ : Except LocalError TxNonce)⟩
  | resolve | revert => exact ⟨(.ok () : Except LocalError Unit)⟩
  | sign => exact ⟨(.ok ⟨[], ⟨0⟩⟩ : Except LocalError SignedTransaction)⟩
  | acquireHealthyEndpoint => exact ⟨(.ok none : Except LobbyRpcError (Option ℕ))⟩
  | broadcast => exact ⟨(.error (.internal "") : Except BroadcastError BroadcastOutcome)⟩
  | validate => exact ⟨(.ok .timeout : Except ValidatorError ValidatorOutcome)⟩
  | setStatus | telemetry | sleep => exact ⟨()⟩
  | genRange => exact ⟨(0 : UInt64)⟩
  | unreachable message => exact absurd rfl (h message)

section

variable {e : ExecutionId} {p q : Phase} {calls : List PipelineCall} {c : PipelineCall}
  {status : PipelineStatus}

theorem traceAt_failing (hfailed : status.isFailed = true) (hshown : Underway (shown e calls))
    (hrounds : Lobby.rounds PipelineCall.isBroadcast calls ≤ 2
      ∧ Lobby.rounds PipelineCall.isSync calls ≤ 1) : TraceAt e (.failing status) calls :=
  ⟨⟨hfailed, hshown⟩, hrounds, fun h => nomatch h⟩

theorem traceAt_releasing {nonce : TxNonce} {attempt : ℕ} (hfailed : status.isFailed = true)
    (hshown : Underway (shown e calls))
    (hrounds : Lobby.rounds PipelineCall.isBroadcast calls ≤ 2
      ∧ Lobby.rounds PipelineCall.isSync calls ≤ 1) :
    TraceAt e (.releasing nonce status attempt) calls :=
  ⟨⟨hfailed, hshown⟩, hrounds, fun h => nomatch h⟩

/-- Waiting and telemetry leave everything as it is. -/
theorem TraceAt.aside (h : TraceAt e p calls) (haside : c.isAside = true) :
    TraceAt e p (c :: calls) := by
  have hstatus : c.statusFor e = none := by cases c <;> first | rfl | cases haside
  have hbroadcast : c.isBroadcast = false := by cases c <;> first | rfl | cases haside
  have hsync : c.isSync = false := by cases c <;> first | rfl | cases haside
  refine ⟨?_, ?_, ?_⟩
  · rw [shown_cons hstatus]
    exact h.shows
  · have hrounds := h.rounds
    cases p with
    | sending =>
        exact ⟨hrounds.1.aside hbroadcast haside, by
          rw [rounds_cons_of_not hsync]; exact hrounds.2⟩
    | syncing =>
        exact ⟨by rw [rounds_cons_of_not hbroadcast]; exact hrounds.1,
          hrounds.2.aside hsync haside⟩
    | _ =>
        simp only [RoundsAt, rounds_cons_of_not hbroadcast, rounds_cons_of_not hsync]
        exact hrounds
  · rw [shown_cons hstatus, lastCall_cons_aside haside]
    exact h.last

/-- The phases in which a round may be going on. -/
def Phase.isRound : Phase → Bool
  | .sending _ _ _ _ => true
  | .syncing _ _ => true
  | _ => false

/-- Calls that are neither broadcasts nor syncs count for no round. -/
theorem roundsAt_cons (hbroadcast : c.isBroadcast = false) (hsync : c.isSync = false)
    (hq : q.isRound = false) (h : RoundsAt q calls) : RoundsAt q (c :: calls) := by
  cases q with
  | sending | syncing => cases hq
  | _ =>
      simp only [RoundsAt, rounds_cons_of_not hbroadcast, rounds_cons_of_not hsync]
      exact h

/-- A call that is neither a broadcast nor a sync and records no status. -/
theorem traceAt_quiet (hstatus : c.statusFor e = none) (hbroadcast : c.isBroadcast = false)
    (hsync : c.isSync = false) (hq : q.isRound = false) (hended : q ≠ .ended)
    (hshows : Shows q (shown e calls)) (hrounds : RoundsAt q calls) :
    TraceAt e q (c :: calls) :=
  ⟨by rwa [shown_cons hstatus], roundsAt_cons hbroadcast hsync hq hrounds,
    fun h => absurd h hended⟩

/-- A status on the way. -/
theorem traceAt_show (hq : q.isRound = false) (hended : q ≠ .ended)
    (hshows : Shows q (shown e calls ++ [status])) (hrounds : RoundsAt q calls) :
    TraceAt e q (.setStatus e status :: calls) :=
  ⟨by rwa [shown_setStatus], roundsAt_cons rfl rfl hq hrounds, fun h => absurd h hended⟩

/-- A quiet call after which the run gives up, and keeps the nonce. -/
theorem TraceAt.toFailing (h : TraceAt e p calls) (hp : p ≠ .ended)
    (hfailed : status.isFailed = true) (hstatus : c.statusFor e = none)
    (hbroadcast : c.isBroadcast = false) (hsync : c.isSync = false) :
    TraceAt e (.failing status) (c :: calls) :=
  traceAt_quiet hstatus hbroadcast hsync rfl (by nofun)
    ⟨hfailed, underway_of_shows hp h.shows⟩ (rounds_le h.rounds)

/-- A quiet call after which the run gives up, and releases the nonce. -/
theorem TraceAt.toReleasing {nonce : TxNonce} {attempt : ℕ} (h : TraceAt e p calls)
    (hp : p ≠ .ended) (hfailed : status.isFailed = true) (hstatus : c.statusFor e = none)
    (hbroadcast : c.isBroadcast = false) (hsync : c.isSync = false) :
    TraceAt e (.releasing nonce status attempt) (c :: calls) :=
  traceAt_quiet hstatus hbroadcast hsync rfl (by nofun)
    ⟨hfailed, underway_of_shows hp h.shows⟩ (rounds_le h.rounds)

/-- The final status. -/
theorem TraceAt.conclude (h : TraceAt e p calls)
    (hconcluded : Concluded status (shown e calls ++ [status])) :
    TraceAt e .ended (.setStatus e status :: calls) where
  shows := ⟨status, by rw [shown_setStatus]; exact hconcluded⟩
  rounds := by
    obtain ⟨hbroadcasts, hsyncs⟩ := rounds_le h.rounds
    exact ⟨by rwa [rounds_cons_of_not rfl], by rwa [rounds_cons_of_not rfl]⟩
  last _ := ⟨status, by rw [shown_setStatus]; exact hconcluded, lastCall_cons rfl⟩

end

/-- **Every call of a pipeline keeps the trace.** -/
theorem traceOutline (ctx : PipelineContext) (htotal : ctx.retryConfig.maxTotal.toNat ≠ 0) :
    Outline (Contract.recording fun c _ => Nonempty c.Reply) ctx
      (TraceAt ctx.executionId) where
  stable hw hrely := by
    obtain rfl := hrely
    exact hw
  call := by
    intro p c next calls hcall h
    refine ⟨nonempty_reply fun message hc => ?_, fun r calls' hcalls' => ?_⟩
    · cases hcall <;> cases hc
      exact htotal ‹_›
    have hcalls' : calls' = c :: calls := hcalls'
    subst hcalls'
    cases hcall with
    | genRange window => exact h.aside rfl
    | sleep delay => exact h.aside rfl
    | telemetry call => exact h.aside rfl
    | unreachable _ message hzero => exact absurd hzero htotal
    | register attempt =>
        refine attempted_of (H := fun q => TraceAt ctx.executionId q _) (fun k => ?_)
          (fun _ _ => ?_) fun err _ => ?_
        · exact traceAt_quiet rfl rfl rfl rfl (by nofun) h.shows h.rounds
        · exact traceAt_quiet rfl rfl rfl rfl (by nofun) h.shows h.rounds
        · exact h.toFailing (by nofun) rfl rfl rfl rfl
    | accept =>
        refine traceAt_show rfl (by nofun) ?_ h.rounds
        rw [show shown ctx.executionId calls = [.permitAquired] from h.shows]
        exact rfl
    | reserve attempt =>
        refine attempted_of (H := fun q => TraceAt ctx.executionId q _) (fun k => ?_)
          (fun _ _ => ?_) fun err _ => ?_
        · exact traceAt_quiet rfl rfl rfl rfl (by nofun) h.shows h.rounds
        · exact traceAt_quiet rfl rfl rfl rfl (by nofun) h.shows h.rounds
        · exact h.toFailing (by nofun) rfl rfl rfl rfl
    | showReserved nonce =>
        refine traceAt_show rfl (by nofun) ?_ h.rounds
        rw [show shown ctx.executionId calls = [.permitAquired, .accepted] from h.shows]
        exact rfl
    | sign nonce attempt =>
        refine attempted_of (H := fun q => TraceAt ctx.executionId q _) (fun k => ?_)
          (fun _ _ => ?_) fun err _ => ?_
        · exact traceAt_quiet rfl rfl rfl rfl (by nofun) h.shows h.rounds
        · exact traceAt_quiet rfl rfl rfl rfl (by nofun) h.shows h.rounds
        · exact h.toReleasing (by nofun) rfl rfl rfl rfl
    | showSigned nonce txn =>
        refine traceAt_show rfl (by nofun) ?_ h.rounds
        rw [show shown ctx.executionId calls = [.permitAquired, .accepted, .nonceReserved]
          from h.shows]
        exact Or.inl ⟨rfl, rfl⟩
    | acquire nonce txn =>
        obtain ⟨hbroadcasts, hsyncs⟩ := h.rounds
        match r with
        | .ok (some stickyIndex) =>
            -- the first round has not begun
            refine ⟨?_, ⟨Or.inl ?_, ?_⟩, fun h => nomatch h⟩
            · rw [shown_cons rfl]
              exact h.shows
            · rw [rounds_cons_of_not rfl, hbroadcasts]
              omega
            · rw [rounds_cons_of_not rfl, hsyncs]
        | .ok none =>
            exact h.toReleasing (by nofun) rfl rfl rfl rfl
        | .error err =>
            exact h.toReleasing (by nofun) rfl rfl rfl rfl
    | broadcast recoveries nonce txn attempt stickyIndex =>
        have hround := h.rounds.1.call (c := .broadcast ctx.txn.chainId
          ctx.clientConfig.fromAddress ctx.executionId txn stickyIndex) rfl rfl
        have hsyncs : rounds PipelineCall.isSync (.broadcast ctx.txn.chainId
            ctx.clientConfig.fromAddress ctx.executionId txn stickyIndex :: calls)
            ≤ 1 - recoveries := by
          rw [rounds_cons_of_not rfl]
          exact h.rounds.2
        have hready : Ready recoveries (shown ctx.executionId (.broadcast ctx.txn.chainId
            ctx.clientConfig.fromAddress ctx.executionId txn stickyIndex :: calls)) := by
          rw [shown_cons rfl]
          exact h.shows
        have hrounds := And.intro (hround.le.trans (Nat.sub_le 2 recoveries))
          (hsyncs.trans (Nat.sub_le 1 recoveries))
        refine attempted_of (H := fun q => TraceAt ctx.executionId q _) (fun k => ?_)
          (fun outcome _ => ?_) fun err _ => ?_
        · exact ⟨hready, ⟨hround, hsyncs⟩, fun h => nomatch h⟩
        · exact ⟨⟨recoveries, hready⟩, hrounds, fun h => nomatch h⟩
        · cases err with
          | nonceTooLow a b =>
              refine afterBroadcastError_of (H := fun q => TraceAt ctx.executionId q _)
                (fun _ => ?_) fun hne => ?_
              · exact traceAt_releasing rfl hready.underway hrounds
              · obtain ⟨rfl, hshown⟩ := hready.resolve_right fun h => hne h.1
                exact ⟨Or.inl ⟨rfl, hshown⟩, ⟨hround.le, Nat.le_zero.mp hsyncs⟩,
                  fun h => nomatch h⟩
          | internal _ | databaseError _ | invariant _ =>
              exact traceAt_failing rfl hready.underway hrounds
          | missingProvider _ | rejected _ | unexpected _ | rpcError _ =>
              exact traceAt_releasing rfl hready.underway hrounds
    | showMismatch nonce nonceOnChain attemptedNonce =>
        refine traceAt_show rfl (by nofun) ?_ h.rounds
        obtain ⟨_, hshown⟩ := Or.resolve_right h.shows fun h => nomatch h.1
        rw [hshown]
        exact ⟨_, _, rfl⟩
    | consume nonce nonceOnChain attempt =>
        exact attempted_of (H := fun q => TraceAt ctx.executionId q _)
          (fun k => traceAt_quiet rfl rfl rfl rfl (by nofun) h.shows h.rounds)
          (fun _ _ => traceAt_quiet rfl rfl rfl rfl (by nofun) h.shows h.rounds)
          fun _ _ => traceAt_quiet rfl rfl rfl rfl (by nofun) h.shows h.rounds
    | revert nonceOnChain attempt =>
        -- the sync round has not begun
        have hsyncing : TraceAt ctx.executionId (.syncing nonceOnChain 1)
            (.revert ctx.executionId :: calls) := by
          refine ⟨?_, ⟨?_, Or.inl ?_⟩, fun h => nomatch h⟩
          · rw [shown_cons rfl]
            exact h.shows
          · rw [rounds_cons_of_not rfl]
            exact h.rounds.1
          · rw [rounds_cons_of_not rfl, h.rounds.2]
            omega
        exact attempted_of (H := fun q => TraceAt ctx.executionId q _)
          (fun k => traceAt_quiet rfl rfl rfl rfl (by nofun) h.shows h.rounds)
          (fun _ _ => hsyncing) fun _ _ => hsyncing
    | sync nonceOnChain attempt =>
        have hround := h.rounds.2.call (c := .sync ctx.txn.chainId
          ctx.clientConfig.fromAddress ctx.executionId nonceOnChain) rfl rfl
        have hbroadcasts : rounds PipelineCall.isBroadcast (.sync ctx.txn.chainId
            ctx.clientConfig.fromAddress ctx.executionId nonceOnChain :: calls) ≤ 1 := by
          rw [rounds_cons_of_not rfl]
          exact h.rounds.1
        have hshown := shown_cons (c := .sync ctx.txn.chainId ctx.clientConfig.fromAddress
          ctx.executionId nonceOnChain) (e := ctx.executionId) rfl calls
        refine attempted_of (H := fun q => TraceAt ctx.executionId q _) (fun k => ?_)
          (fun _ _ => ?_) fun err _ => ?_
        · exact ⟨by rw [hshown]; exact h.shows, ⟨hbroadcasts, hround⟩, fun h => nomatch h⟩
        · exact ⟨by rw [hshown]; exact h.shows, ⟨hbroadcasts, hround.le⟩, fun h => nomatch h⟩
        · refine traceAt_failing rfl ?_ ⟨hbroadcasts.trans (by omega), hround.le⟩
          rw [hshown]
          exact underway_of_shows (by nofun) h.shows
    | showSynced nonce =>
        refine traceAt_show rfl (by nofun) ?_ h.rounds
        obtain ⟨a, b, hshown⟩ := h.shows
        rw [hshown]
        exact ⟨a, b, rfl⟩
    | resign nonce attempt =>
        refine attempted_of (H := fun q => TraceAt ctx.executionId q _) (fun k => ?_)
          (fun _ _ => ?_) fun err _ => ?_
        · exact traceAt_quiet rfl rfl rfl rfl (by nofun) h.shows h.rounds
        · exact traceAt_quiet rfl rfl rfl rfl (by nofun) h.shows h.rounds
        · exact h.toReleasing (by nofun) rfl rfl rfl rfl
    | showResigned nonce txn =>
        -- the second round has not begun
        refine ⟨Or.inr ⟨rfl, ?_⟩, ⟨Or.inl ?_, ?_⟩, fun h => nomatch h⟩
        · obtain ⟨a, b, hshown⟩ := h.shows
          rw [shown_setStatus, hshown]
          exact ⟨a, b, rfl⟩
        · rw [rounds_cons_of_not rfl]
          exact h.rounds.1.trans_lt (by omega)
        · rw [rounds_cons_of_not rfl]
          exact h.rounds.2
    | showBroadcasted nonce txHash =>
        refine traceAt_show rfl (by nofun) ?_ h.rounds
        obtain ⟨recoveries, hready⟩ := h.shows
        exact hready.broadcasted _
    | validate nonce txHash stickyIndex =>
        match r with
        | .error (.database err) => exact h.toFailing (by nofun) rfl rfl rfl rfl
        | .error (.internal message) => exact h.toFailing (by nofun) rfl rfl rfl rfl
        | .error (.rpc hash message) => exact h.toReleasing (by nofun) rfl rfl rfl rfl
        | .error (.reverted hash) => exact h.toReleasing (by nofun) rfl rfl rfl rfl
        | .error (.rpcError message) => exact h.toReleasing (by nofun) rfl rfl rfl rfl
        | .ok (.included block confirmations) =>
            exact traceAt_quiet rfl rfl rfl rfl (by nofun) h.shows h.rounds
        | .ok .notIncluded => exact h.toReleasing (by nofun) rfl rfl rfl rfl
        | .ok .timeout => exact traceAt_quiet rfl rfl rfl rfl (by nofun) h.shows h.rounds
    | finalize nonce txHash attempt =>
        exact attempted_of (H := fun q => TraceAt ctx.executionId q _)
          (fun k => traceAt_quiet rfl rfl rfl rfl (by nofun) h.shows h.rounds)
          (fun _ _ => traceAt_quiet rfl rfl rfl rfl (by nofun) h.shows h.rounds)
          fun _ _ => traceAt_quiet rfl rfl rfl rfl (by nofun) h.shows h.rounds
    | showConfirmed nonce txHash =>
        have hcomplete : Complete (shown ctx.executionId calls) := h.shows
        exact h.conclude ⟨rfl, _, rfl, hcomplete.underway, fun _ => hcomplete⟩
    | retire nonce attempt =>
        exact attempted_of (H := fun q => TraceAt ctx.executionId q _)
          (fun k => traceAt_quiet rfl rfl rfl rfl (by nofun) h.shows h.rounds)
          (fun _ _ => traceAt_quiet rfl rfl rfl rfl (by nofun) h.shows h.rounds)
          fun _ _ => traceAt_quiet rfl rfl rfl rfl (by nofun) h.shows h.rounds
    | showTimedOut nonce =>
        have hcomplete : Complete (shown ctx.executionId calls) := h.shows
        exact h.conclude ⟨rfl, _, rfl, hcomplete.underway, fun _ => hcomplete⟩
    | release nonce status attempt =>
        exact attempted_of (H := fun q => TraceAt ctx.executionId q _)
          (fun k => traceAt_quiet rfl rfl rfl rfl (by nofun) h.shows h.rounds)
          (fun _ _ => traceAt_quiet rfl rfl rfl rfl (by nofun) h.shows h.rounds)
          fun _ _ => traceAt_quiet rfl rfl rfl rfl (by nofun) h.shows h.rounds
    | fail status =>
        obtain ⟨hfailed, hshown⟩ := h.shows
        exact h.conclude (concluded_of_failed hfailed hshown)

/-! ## The trace of a submission -/

/-- The outline of a submission: the permit, then the pipeline. -/
theorem wp_submit (ctx : PipelineContext) (htotal : ctx.retryConfig.maxTotal.toNat ≠ 0) :
    wp (Contract.recording fun c _ => Nonempty c.Reply) (submit ctx (.ok ()))
      (fun _ => TraceAt ctx.executionId .ended) [] := by
  refine (traceOutline ctx htotal).wp_submit (wp_call fun calls hcalls => ?_)
  obtain rfl := hcalls
  refine ⟨⟨()⟩, fun r calls' hcalls' => wp_ret fun calls'' hcalls'' => ?_⟩
  obtain rfl : calls'' = [.setStatus ctx.executionId .permitAquired] :=
    hcalls''.symm.trans hcalls'
  exact ⟨by rw [shown_setStatus]; exact rfl, ⟨rfl, rfl⟩, fun h => nomatch h⟩

theorem within_submit (ctx : PipelineContext) (permit : Except BackpressureTimeout Unit) :
    (submit ctx permit).Within (12 * ctx.stageCalls + 18) := by
  cases permit with
  | error err => exact within_ret _
  | ok _ =>
      refine ((within_setStatus _).bind (n := 12 * ctx.stageCalls + 17) fun _ => ?_).mono
        (by omega)
      exact within_runPipeline.bind (n := 0) fun _ => within_ret _

/-- **The trace of a submission.**  With fewer than `u32::MAX` retries, whatever the replies:
a run makes a bounded number of calls and can always go on with a reply to the next one; and
a run that has ended has made at most two rounds of broadcasts and one of syncs, and has
recorded the permit, a part of a course and one final status, with its last call but for
waiting and telemetry.  A final status other than a failure comes after a whole course, and
every status after the permit reports a reply that was given before. -/
theorem submit_trace (ctx : PipelineContext)
    (hmax : ctx.retryConfig.maxAttempts.toNat + 1 < UInt32.size) :
    (∀ calls p, (submit ctx (.ok ())).Leads calls p →
      calls.length ≤ 36 * (ctx.retryConfig.maxAttempts.toNat + 1) + 30
      ∧ ∀ c next, p = .call c next → Nonempty c.Reply)
    ∧ (∀ calls reply, (submit ctx (.ok ())).Leads calls (.ret reply) →
      rounds PipelineCall.isBroadcast calls ≤ 2 ∧ rounds PipelineCall.isSync calls ≤ 1
      ∧ ∃ course progress final, IsCourse course ∧ progress <+: course
        ∧ shown ctx.executionId calls = .permitAquired :: progress ++ [final]
        ∧ final.isTerminal = true ∧ (final.isFailed = false → progress = course)
        ∧ lastCall calls = some (.setStatus ctx.executionId final))
    ∧ ∀ log p, (submit ctx (.ok ())).Reaches .free () log p () →
      Backed ctx.executionId log := by
  have htotal := maxTotal_toNat hmax
  have hwp := wp_submit ctx (by rw [htotal]; omega)
  refine ⟨?_, ?_, fun log p h => backed_of_reaches h⟩
  · intro calls p hleads
    refine ⟨?_, fun c next hp => ?_⟩
    · have hle := ((within_submit ctx (.ok ())).leads hleads).1
      rw [stageCalls, htotal] at hle
      omega
    · subst hp
      exact (hleads.wp hwp _ rfl).1
  · intro calls reply hleads
    have htrace : TraceAt ctx.executionId .ended calls := hleads.wp hwp calls rfl
    obtain ⟨hbroadcasts, hsyncs⟩ := htrace.rounds
    obtain ⟨final, ⟨hterminal, before, hshown, hunderway, hcomplete⟩, hlast⟩ :=
      htrace.last rfl
    refine ⟨hbroadcasts, hsyncs, ?_⟩
    cases hfailed : final.isFailed with
    | true =>
        obtain ⟨course, progress, hcourse, hprefix, rfl⟩ := hunderway
        exact ⟨course, progress, final, hcourse, hprefix, hshown, hterminal,
          fun h => absurd (hfailed.symm.trans h) (by decide), hlast⟩
    | false =>
        obtain ⟨course, hcourse, rfl⟩ := hcomplete hfailed
        exact ⟨course, course, final, hcourse, List.prefix_rfl, hshown, hterminal,
          fun _ => rfl, hlast⟩

/-- The default policy retries twice. -/
theorem submit_trace_default :
    sampleDeployment.retryConfig.maxAttempts = 2
    ∧ ∀ calls p, (submit (sampleDeployment.context ⟨1⟩ ⟨⟨0, sampleAccount⟩, sampleTxn⟩)
        (.ok ())).Leads calls p → calls.length ≤ 138 := by
  refine ⟨rfl, fun calls p hleads => ?_⟩
  have htrace := submit_trace (sampleDeployment.context ⟨1⟩ ⟨⟨0, sampleAccount⟩, sampleTxn⟩)
    (by decide)
  exact (htrace.1 calls p hleads).1

end Lobby
