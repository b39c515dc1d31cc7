/-
# What the statuses report

Every status that a pipeline records says what a reply was that it got before: accepted
after the relay host has registered the transaction, signed after the sign actor has signed,
confirmed after the validator has found the transaction of the recorded hash, a failure after
the error it names (`backed_of_reaches`).
-/
import Lobby.RunLog
import Lobby.PipelinePhases

namespace Lobby

open Interaction Prog PipelineContext Phase

/-- The status reports the reply of the call. -/
inductive Reports : PipelineStatus → (c : PipelineCall) → c.Reply → Prop where
  | accepted (e txn config registered) :
      Reports .accepted (.registerTransaction e txn config) (.ok registered)
  | relayHost (e txn config err) :
      Reports (CortexError.relayHost err).status (.registerTransaction e txn config) (.error err)
  | reserved (chainId fromAddress e nonce) :
      Reports .nonceReserved (.reserve chainId fromAddress e) (.ok nonce)
  | reservation (chainId fromAddress e err) :
      Reports (CortexError.nonceReservation err).status (.reserve chainId fromAddress e)
        (.error err)
  | signed (chainId fromAddress e txn signed) :
      Reports .signed (.sign chainId fromAddress e txn) (.ok signed)
  | sign (chainId fromAddress e txn err) :
      Reports (CortexError.sign err).status (.sign chainId fromAddress e txn) (.error err)
  | reSign (chainId fromAddress e txn err) :
      Reports (CortexError.reSign err).status (.sign chainId fromAddress e txn) (.error err)
  | noEndpoint (chainId timeout) :
      Reports (CortexError.noHealthyRpcProvider (.noEndpointsAvailable chainId)).status
        (.acquireHealthyEndpoint chainId timeout) (.ok none)
  | endpointPool (chainId timeout err) :
      Reports (CortexError.endpointPoolFailed err).status
        (.acquireHealthyEndpoint chainId timeout) (.error err)
  | mismatch (chainId fromAddress e txn stickyIndex nonceOnChain attemptedNonce) :
      Reports (.nonceMismatchDetected nonceOnChain attemptedNonce)
        (.broadcast chainId fromAddress e txn stickyIndex)
        (.error (.nonceTooLow nonceOnChain attemptedNonce))
  | broadcast (chainId fromAddress e txn stickyIndex err) :
      Reports (CortexError.broadcast err).status
        (.broadcast chainId fromAddress e txn stickyIndex) (.error err)
  | broadcasted (chainId fromAddress e txn stickyIndex outcome) :
      Reports (.broadcasted (lowerHex outcome.txnHash.bytes) "Waiting for validation on-chain")
        (.broadcast chainId fromAddress e txn stickyIndex) (.ok outcome)
  | synced (chainId fromAddress e nonceOnChain nonce) :
      Reports .nonceReserved (.sync chainId fromAddress e nonceOnChain) (.ok nonce)
  | sync (chainId fromAddress e nonceOnChain err) :
      Reports (CortexError.nonceSync err).status (.sync chainId fromAddress e nonceOnChain)
        (.error err)
  | validator (chainId e txHash stickyIndex err) :
      Reports (CortexError.validator err).status (.validate chainId e txHash stickyIndex)
        (.error err)
  | confirmed (chainId e txHash stickyIndex block confirmations) :
      Reports (.confirmedOnChain (lowerHex txHash.bytes))
        (.validate chainId e txHash stickyIndex) (.ok (.included block confirmations))
  | notIncluded (chainId e txHash stickyIndex) :
      Reports (.failed "validator" ("tx " ++ lowerHex txHash.bytes ++ " not included on-chain"))
        (.validate chainId e txHash stickyIndex) (.ok .notIncluded)
  | timedOut (chainId e txHash stickyIndex) :
      Reports (.validatorTimedOut "validator timed out, wait for confirmation")
        (.validate chainId e txHash stickyIndex) (.ok .timeout)

/-- The calls of a pipeline with their replies, the latest first. -/
abbrev PipelineLog : Type := List (Entry PipelineCall PipelineCall.Reply Unit)

/-- Some reply of the log is what the status reports. -/
def PipelineLog.Backs (log : PipelineLog) (status : PipelineStatus) : Prop :=
  ∃ entry ∈ log, Reports status entry.call entry.reply

/-- Every status recorded for the execution, but the permit, reports an earlier reply. -/
def Backed (e : ExecutionId) : PipelineLog → Prop
  | [] => True
  | entry :: log =>
      (∀ status, entry.call = .setStatus e status →
        status = .permitAquired ∨ PipelineLog.Backs log status)
      ∧ Backed e log

/-- The status that a phase is about to record, or keeps for its end. -/
def Phase.pending : Phase → Option PipelineStatus
  | .registered => some .accepted
  | .reserved _ => some .nonceReserved
  | .synced _ => some .nonceReserved
  | .signed _ _ => some .signed
  | .resigned _ _ => some .signed
  | .mismatch _ nonceOnChain attemptedNonce =>
      some (.nonceMismatchDetected nonceOnChain attemptedNonce)
  | .broadcasted _ txHash =>
      some (.broadcasted (lowerHex txHash.bytes) "Waiting for validation on-chain")
  | .finalizing _ txHash _ => some (.confirmedOnChain (lowerHex txHash.bytes))
  | .confirmed _ txHash => some (.confirmedOnChain (lowerHex txHash.bytes))
  | .retiring _ _ => some (.validatorTimedOut "validator timed out, wait for confirmation")
  | .timedOut _ => some (.validatorTimedOut "validator timed out, wait for confirmation")
  | .releasing _ status _ => some status
  | .failing status => some status
  | _ => none

/-- What a phase is about to record is backed by a reply. -/
def Phase.Grounded (p : Phase) (log : PipelineLog) : Prop :=
  ∀ status, p.pending = some status → log.Backs status

section

variable {p q : Phase} {log : PipelineLog} {status : PipelineStatus}
  {entry : Entry PipelineCall PipelineCall.Reply Unit}

theorem PipelineLog.Backs.cons (h : log.Backs status) :
    PipelineLog.Backs (entry :: log) status := by
  obtain ⟨earlier, hearlier, hreports⟩ := h
  exact ⟨earlier, List.mem_cons_of_mem entry hearlier, hreports⟩

theorem grounded_of_none (h : p.pending = none) : p.Grounded log := by
  intro status hstatus
  cases h.symm.trans hstatus

/-- The latest reply is the one to be reported. -/
theorem grounded_of_reports (h : p.pending = some status)
    (hreports : Reports status entry.call entry.reply) : p.Grounded (entry :: log) := by
  intro status' hstatus
  obtain rfl := Option.some.inj (h.symm.trans hstatus)
  exact ⟨entry, List.mem_cons_self, hreports⟩

/-- What is to be reported stays the same. -/
theorem Phase.Grounded.stays (h : p.Grounded log) (hpending : q.pending = p.pending) :
    q.Grounded (entry :: log) :=
  fun status hstatus => (h status (hpending.symm.trans hstatus)).cons

/-- After an attempt all of whose errors are retried. -/
theorem grounded_attempted {T F : Type} {maxTotal attempt : ℕ} {stage : ℕ → Phase}
    {onOk : T → Phase} {onError : F → Phase} {r : Except F T}
    (hstage : ∀ k, (stage k).Grounded log)
    (hok : ∀ value, r = .ok value → (onOk value).Grounded log)
    (herror : ∀ err, r = .error err → (onError err).Grounded log) :
    (attempted maxTotal stage attempt onOk onError (retryAll r)).Grounded log := by
  cases r with
  | ok value => exact hok value rfl
  | error err =>
      rw [retryAll, attempted]
      split
      · exact herror err rfl
      · exact hstage _

/-- After the verdict. -/
theorem grounded_afterValidation {nonce : TxNonce} {txHash : TxHash} {chainId : ChainId}
    {e : ExecutionId} {stickyIndex : ℕ} (r : Except ValidatorError ValidatorOutcome) :
    (afterValidation nonce txHash r).Grounded
      (⟨.validate chainId e txHash stickyIndex, r, ()⟩ :: log) := by
  rcases r with err | outcome
  · cases err with
    | _ => exact grounded_of_reports rfl (.validator chainId e txHash stickyIndex _)
  · cases outcome with
    | included block confirmations =>
        exact grounded_of_reports rfl (.confirmed chainId e txHash stickyIndex block confirmations)
    | notIncluded => exact grounded_of_reports rfl (.notIncluded chainId e txHash stickyIndex)
    | timeout => exact grounded_of_reports rfl (.timedOut chainId e txHash stickyIndex)

end

/-- Nothing is known of the replies, and what is recorded before a call was backed. -/
abbrev reporting (e : ExecutionId) :
    Contract PipelineCall PipelineCall.Reply (Unit × PipelineLog) :=
  Contract.free.logged fun _ x => Backed e x.2

/-- **Every call of a pipeline keeps the statuses backed.** -/
theorem outline_backed (ctx : PipelineContext) :
    Outline (reporting ctx.executionId) ctx fun p x =>
      Backed ctx.executionId x.2 ∧ p.Grounded x.2 where
  stable := by
    rintro p x y hx ⟨_, hlog⟩
    rwa [hlog]
  call := by
    rintro p c next ⟨⟨⟩, log⟩ hcall ⟨hbacked, hgrounded⟩
    refine ⟨⟨trivial, hbacked⟩, ?_⟩
    rintro r ⟨⟨⟩, _⟩ ⟨_, rfl⟩
    -- a status is recorded when it is pending
    have hrecorded : ∀ {status}, p.pending = some status →
        Backed ctx.executionId (⟨.setStatus ctx.executionId status, (), ()⟩ :: log) := by
      intro status hstatus
      refine ⟨fun status' heq => Or.inr ?_, hbacked⟩
      cases heq
      exact hgrounded status hstatus
    have hother : (∀ status, c ≠ .setStatus ctx.executionId status) →
        Backed ctx.executionId (⟨c, r, ()⟩ :: log) :=
      fun hc => ⟨fun status heq => absurd heq (hc status), hbacked⟩
    cases hcall with
    | genRange | sleep | telemetry =>
        exact ⟨hother (by rintro _ ⟨⟩), hgrounded.stays rfl⟩
    | unreachable => cases r
    | register attempt =>
        refine ⟨hother (by rintro _ ⟨⟩), grounded_attempted (fun _ => grounded_of_none rfl) ?_ ?_⟩
        · rintro value rfl
          exact grounded_of_reports rfl (.accepted ..)
        · rintro err rfl
          exact grounded_of_reports rfl (.relayHost ..)
    | reserve attempt =>
        refine ⟨hother (by rintro _ ⟨⟩), grounded_attempted (fun _ => grounded_of_none rfl) ?_ ?_⟩
        · rintro nonce rfl
          exact grounded_of_reports rfl (.reserved ..)
        · rintro err rfl
          exact grounded_of_reports rfl (.reservation ..)
    | sign nonce attempt =>
        refine ⟨hother (by rintro _ ⟨⟩), grounded_attempted (fun _ => grounded_of_none rfl) ?_ ?_⟩
        · rintro txn rfl
          exact grounded_of_reports rfl (.signed ..)
        · rintro err rfl
          exact grounded_of_reports rfl (.sign ..)
    | resign nonce attempt =>
        refine ⟨hother (by rintro _ ⟨⟩), grounded_attempted (fun _ => grounded_of_none rfl) ?_ ?_⟩
        · rintro txn rfl
          exact grounded_of_reports rfl (.signed ..)
        · rintro err rfl
          exact grounded_of_reports rfl (.reSign ..)
    | sync nonceOnChain attempt =>
        refine ⟨hother (by rintro _ ⟨⟩), grounded_attempted (fun _ => grounded_of_none rfl) ?_ ?_⟩
        · rintro nonce rfl
          exact grounded_of_reports rfl (.synced ..)
        · rintro err rfl
          exact grounded_of_reports rfl (.sync ..)
    | acquire nonce txn =>
        refine ⟨hother (by rintro _ ⟨⟩), ?_⟩
        rcases r with err | _ | stickyIndex
        · exact grounded_of_reports rfl (.endpointPool ..)
        · exact grounded_of_reports rfl (.noEndpoint ..)
        · exact grounded_of_none rfl
    | broadcast recoveries nonce txn attempt stickyIndex =>
        refine ⟨hother (by rintro _ ⟨⟩), attempted_of (H := fun q => q.Grounded _)
          (fun _ => grounded_of_none rfl) (fun outcome hok => ?_) fun err herr => ?_⟩
        · -- the hash that is shown is the one of the reply
          obtain rfl := broadcastDecision_ok hok
          exact grounded_of_reports rfl (.broadcasted ..)
        · obtain rfl := broadcastDecision_error herr
          cases err with
          | nonceTooLow nonceOnChain attemptedNonce =>
              exact afterBroadcastError_of (H := fun q => q.Grounded _)
                (fun _ => grounded_of_reports rfl (.broadcast ..))
                fun _ => grounded_of_reports rfl (.mismatch ..)
          | _ => exact grounded_of_reports rfl (.broadcast ..)
    | validate nonce txHash stickyIndex =>
        exact ⟨hother (by rintro _ ⟨⟩), grounded_afterValidation r⟩
    | consume | revert =>
        exact ⟨hother (by rintro _ ⟨⟩), grounded_attempted (fun _ => grounded_of_none rfl)
          (fun _ _ => grounded_of_none rfl) fun _ _ => grounded_of_none rfl⟩
    | finalize | retire | release =>
        exact ⟨hother (by rintro _ ⟨⟩), grounded_attempted (fun _ => hgrounded.stays rfl)
          (fun _ _ => hgrounded.stays rfl) fun _ _ => hgrounded.stays rfl⟩
    | accept | showReserved | showSigned | showMismatch | showSynced | showResigned
    | showBroadcasted | showConfirmed | showTimedOut | fail =>
        exact ⟨hrecorded rfl, grounded_of_none rfl⟩

/-- **What the statuses report.**  Whatever the replies, every status that a submission
records after its permit reports a reply it got before. -/
theorem backed_of_reaches {ctx : PipelineContext} {log : PipelineLog}
    {p : PipelineProg (Except BackpressureTimeout Unit)}
    (h : (submit ctx (.ok ())).Reaches .free () log p ()) : Backed ctx.executionId log := by
  have hpermit : wp (reporting ctx.executionId) (ctx.setStatus .permitAquired)
      (fun _ x => Backed ctx.executionId x.2 ∧ (Phase.registering 1).Grounded x.2) ((), []) := by
    rintro ⟨⟨⟩, _⟩ ⟨_, rfl⟩
    refine ⟨⟨trivial, trivial⟩, ?_⟩
    rintro r ⟨⟨⟩, _⟩ ⟨_, rfl⟩
    rintro ⟨⟨⟩, _⟩ ⟨_, rfl⟩
    refine ⟨⟨fun status heq => Or.inl ?_, trivial⟩, grounded_of_none rfl⟩
    cases heq
    rfl
  exact h.always (wp_mono ((outline_backed ctx).wp_submit hpermit) fun _ _ hx => hx.1)

end Lobby
