/-
# One payment for one execution

The network must not accept two different transactions of one execution.  Attempts of one
broadcast round send the same transaction, so a lost reply does no harm.  The recovery
after a nonce mismatch signs another one, and the broadcast engine takes every error that
mentions a nonce or a known transaction for a mismatch, also when an earlier attempt of
the round was accepted.  `accepted_subsingleton` holds for the runs in which the network
answers such an error only while it has accepted none of the round.
-/
import Lobby.PipelineRun
import Lobby.NonceLedger

namespace Lobby

open Interaction Prog Phase

/-- The transactions of an execution that the network has accepted. -/
def World.acceptedOf (w : World) (e : ExecutionId) : Set SignedTransaction :=
  {txn | ∃ x ∈ w.sentOf e, x.accepted = true ∧ x.txn = txn}

/-! ## The condition on the network -/

/-- An answer that starts the recovery: the engine takes it for a nonce mismatch, and all
that was sent before is the same transaction. -/
def startsRecovery (log : List Sent) (x : Sent) : Prop :=
  x.mismatch = true ∧ ∀ y ∈ log, y.txn = x.txn

/-- The recovery starts only while nothing was accepted. -/
def recoversUnaccepted (log : List Sent) (x : Sent) : Prop :=
  startsRecovery log x → x.accepted = false ∧ ∀ y ∈ log, y.accepted = false

instance (log : List Sent) (x : Sent) : Decidable (recoversUnaccepted log x) :=
  inferInstanceAs (Decidable ((x.mismatch = true ∧ ∀ y ∈ log, y.txn = x.txn) →
    x.accepted = false ∧ ∀ y ∈ log, y.accepted = false))

/-- The runs in which every answer of the network meets a condition. -/
def sendConditions (admits : List Sent → Sent → Prop) : RunConditions where
  call e choice c w :=
    match c with
    | .broadcast (.sendRawTransaction chainId stickyIndex txn e' revision) =>
      match choice.answer
          (.broadcast (.sendRawTransaction chainId stickyIndex txn e' revision)) with
      | none => True
      | some reply => admits (w.sentOf e)
          { executionId := e
            revision := revision
            txn := txn
            accepted := choice.accepted
            reply := reply }
    | _ => True
  external _ _ := True

instance (admits : List Sent → Sent → Prop) [∀ log x, Decidable (admits log x)]
    (e : ExecutionId) (choice : Choice) (c : EngineCall) (w : World) :
    Decidable ((sendConditions admits).call e choice c w) := by
  unfold sendConditions
  dsimp only
  split
  · split <;> infer_instance
  · infer_instance

instance (admits : List Sent → Sent → Prop) (event : OutsideEvent) (w : World) :
    Decidable ((sendConditions admits).external event w) := inferInstanceAs (Decidable True)

theorem admits_sendConditions (admits : List Sent → Sent → Prop) (e : ExecutionId) :
    Admits (sendConditions admits) e admits := by
  intro w choice chainId stickyIndex txn revision reply hK hanswer
  simp only [sendConditions, hanswer] at hK
  exact hK

/-! ## The outline -/

/-- What was accepted is the given transaction. -/
def repeatsAccepted (log : List Sent) (txn : SignedTransaction) : Prop :=
  ∀ x ∈ log, x.accepted = true → x.txn = txn

theorem repeatsAccepted_cons {log : List Sent} {x : Sent} {txn : SignedTransaction}
    (hlog : repeatsAccepted log txn) (hx : x.txn = txn) : repeatsAccepted (x :: log) txn :=
  List.forall_mem_cons.mpr ⟨fun _ => hx, hlog⟩

/-- What was sent, along the phases of a pipeline. -/
def paidAlong : Phase → View → Prop
  | .registering _, v | .registered, v | .reserving _, v | .reserved _, v => v.sent = []
  | .signing _ _, v | .signed _ _, v | .acquiring _ _, v => v.sent = []
  | .sending (_ + 1) _ txn _, v => ∀ x ∈ v.sent, x.txn = txn
  | .mismatch _ _ _, v | .consuming _ _ _, v | .reverting _ _, v | .syncing _ _, v
  | .synced _, v | .resigning _ _, v | .resigned _ _, v => ∀ x ∈ v.sent, x.accepted = false
  | .sending 0 _ txn _, v => repeatsAccepted v.sent txn
  | _, _ => True

section

variable {v v' : View} {txn : SignedTransaction}

/-- A broadcast before the recovery. -/
theorem paid_sending_succ {k : ℕ} {nonce : TxNonce} {attempt : ℕ}
    {r : Except BroadcastError BroadcastOutcome}
    (hv : paidAlong (.sending (k + 1) nonce txn attempt) v)
    (h : Broadcasts recoversUnaccepted txn v r v') : ∀ x ∈ v'.sent, x.txn = txn := by
  cases h with
  | unsent hsent =>
      rw [hsent]
      exact hv
  | sent x hsent hstatus htxn =>
      rw [hsent]
      exact List.forall_mem_cons.mpr ⟨htxn, hv⟩

/-- When it ends in the recovery, nothing was accepted. -/
theorem paid_mismatch {k : ℕ} {nonce m n : TxNonce} {attempt : ℕ}
    (hv : paidAlong (.sending (k + 1) nonce txn attempt) v)
    (h : Broadcasts recoversUnaccepted txn v (.error (.nonceTooLow m n)) v') :
    ∀ x ∈ v'.sent, x.accepted = false := by
  cases h with
  | unsent hsent hstatus hnone hok hnonce => exact absurd rfl (hnonce m n)
  | sent x hsent hstatus htxn hadmits hnonce =>
      obtain ⟨hmismatch, _⟩ := hnonce m n rfl
      obtain ⟨hx, hlog⟩ := hadmits ⟨hmismatch, fun y hy => (hv y hy).trans htxn.symm⟩
      rw [hsent]
      exact List.forall_mem_cons.mpr ⟨hx, hlog⟩

/-- A broadcast after the recovery. -/
theorem paid_sending_zero {nonce : TxNonce} {attempt : ℕ}
    {r : Except BroadcastError BroadcastOutcome}
    (hv : paidAlong (.sending 0 nonce txn attempt) v)
    (h : Broadcasts recoversUnaccepted txn v r v') : repeatsAccepted v'.sent txn := by
  cases h with
  | unsent hsent =>
      rw [hsent]
      exact hv
  | sent x hsent hstatus htxn =>
      rw [hsent]
      exact repeatsAccepted_cons hv htxn

end

/-- Every call of the pipeline keeps it. -/
theorem paidAlong_invariant (ctx : PipelineContext) :
    ViewInvariant recoversUnaccepted ctx paidAlong := by
  intro p c next v r v' hcall hv hafter
  cases hcall with
  | genRange | sleep | telemetry | unreachable =>
      cases hafter
      exact hv
  | accept | showReserved | showSigned | showMismatch | showSynced =>
      cases hafter
      exact hv
  | showBroadcasted | showConfirmed | showTimedOut | fail => exact trivial
  | register | reserve | sync =>
      cases hafter
      exact attempted_of (H := fun p => paidAlong p _) (fun _ => hv) (fun _ _ => hv)
        fun _ _ => trivial
  | sign | resign =>
      obtain ⟨rfl, _⟩ := hafter
      exact attempted_of (H := fun p => paidAlong p _) (fun _ => hv) (fun _ _ => hv)
        fun _ _ => trivial
  | consume | revert =>
      cases hafter
      exact attempted_of (H := fun p => paidAlong p _) (fun _ => hv) (fun _ _ => hv)
        fun _ _ => hv
  | showResigned nonce txn =>
      -- nothing was accepted, so the second transaction may be sent
      cases hafter
      intro x hx haccepted
      rw [hv x hx] at haccepted
      cases haccepted
  | acquire nonce txn =>
      cases hafter
      match r with
      | .ok (some _) =>
          intro x hx
          rw [show v.sent = [] from hv] at hx
          cases hx
      | .ok none => exact trivial
      | .error err => exact trivial
  | broadcast recoveries nonce txn attempt stickyIndex =>
      cases recoveries with
      | zero =>
          refine attempted_of (H := fun p => paidAlong p v')
            (fun _ => paid_sending_zero hv hafter) (fun _ _ => trivial) fun err herr => ?_
          cases err <;> exact trivial
      | succ k =>
          refine attempted_of (H := fun p => paidAlong p v')
            (fun _ => paid_sending_succ hv hafter) (fun _ _ => trivial) fun err herr => ?_
          cases err with
          | nonceTooLow m n =>
              rw [PipelineContext.broadcastDecision_error herr] at hafter
              exact paid_mismatch hv hafter
          | _ => exact trivial
  | validate nonce txHash =>
      match r with
      | .ok (.included _ _) => exact trivial
      | .ok .timeout => exact trivial
      | .ok .notIncluded => exact trivial
      | .error err => cases err <;> exact trivial
  | finalize | retire | release =>
      exact attempted_of (H := fun p => paidAlong p v') (fun _ => trivial) (fun _ _ => trivial)
        fun _ _ => trivial

/-! ## Runs -/

/-- At most one transaction of every execution was accepted. -/
def World.PaidOnce (w : World) : Prop := ∀ e, (w.acceptedOf e).Subsingleton

theorem paidOnce_of_perform {e : ExecutionId} {s : Submission} {choice : Choice}
    {c : EngineCall} {w w' : World} {r : c.Reply} (hw : w.PaidOnce)
    (hreq : Requires repeatsAccepted e s c w) (h : w.perform e choice c = some (r, w')) :
    w'.PaidOnce := by
  rcases sent_of_perform h with
    hsame | ⟨chainId, stickyIndex, e₁, z, rfl, _, rfl, _, rfl⟩
  · intro e'
    have hlog : w'.sentOf e' = w.sentOf e' := by rw [World.sentOf, hsame, World.sentOf]
    rw [World.acceptedOf, hlog]
    exact hw e'
  · obtain ⟨_, _, _, hpermits⟩ := hreq
    rintro e' _ ⟨x, hx, hxa, rfl⟩ _ ⟨y, hy, hya, rfl⟩
    by_cases he : z.executionId = e'
    · subst he
      rw [World.sentOf_send w rfl] at hx hy
      -- the new entry agrees with every accepted one before it
      have hlast := repeatsAccepted_cons (x := z) hpermits rfl
      rw [hlast x hx hxa, hlast y hy hya]
    · rw [World.sentOf_send_of_ne w he] at hx hy
      exact hw e' ⟨x, hx, hxa, rfl⟩ ⟨y, hy, hya, rfl⟩

/-- **At-most-once payment.**  In every run in which no answer starts a recovery after the
network has accepted a transaction of the round, the network has accepted at most one
transaction of every execution. -/
theorem accepted_subsingleton {d : Deployment} {w₀ : World}
    {st : Config ExecutionId EngineCall EngineCall.Reply World Unit} (hfresh : w₀.Fresh d)
    (hreach : machine.Reachable (sendConditions recoversUnaccepted) (d.start w₀) st)
    (e : ExecutionId) : (st.world.acceptedOf e).Subsingleton := by
  have hcompatible : Machine.Compatible machine (sendConditions recoversUnaccepted)
      (d.contract (sendConditions recoversUnaccepted) repeatsAccepted) World.PaidOnce :=
    compatible (fun _ hw _ hreq h => paidOnce_of_perform hw hreq h) fun hw _ e => by
      rw [World.acceptedOf, show World.sentOf _ e = _ from
        congrArg View.sent (rely_outside e _ _).view]
      exact hw e
  have hstart : w₀.PaidOnce := by
    intro e' a ha
    obtain ⟨x, hx, _⟩ := ha
    rw [World.sentOf, hfresh.sent] at hx
    cases hx
  refine (safe_of_reachable (V := paidAlong) hcompatible hstart hfresh
    (admits_sendConditions _) paidAlong_invariant ?_ (fun _ => rfl) hreach).1 e
  intro recoveries nonce txn attempt v hv
  cases recoveries with
  | zero => exact hv
  | succ k => exact fun x hx _ => hv x hx

/-! ## Two runs of the sample deployment -/

/-- A request whose reply is lost. -/
def Choice.lost : Choice := .rejecting true (.transportError "operation timed out")

/-- The node has seen the nonce before. -/
def Choice.tooLow : Choice :=
  .rejecting false (.rpcBroadcastError "nonce too low: next nonce 1, tx nonce 0")

/-- A lost reply alone: the retry sends the same transaction again. -/
theorem accepted_subsingleton_retried :
    ∃ st, machine.Reachable (sendConditions recoversUnaccepted)
        (sampleDeployment.start .empty) st
      ∧ (st.world.sentOf (sampleExecution 1)).map Sent.accepted = [true, true]
      ∧ (st.world.acceptedOf (sampleExecution 1)).Subsingleton := by
  have hrun : (machine.runUnder (sendConditions recoversUnaccepted)
      (sampleDeployment.start .empty)
      (List.replicate 22 (.call (sampleExecution 1) .lost))).map
        (fun st => (st.world.sentOf (sampleExecution 1)).map Sent.accepted)
      = some [true, true] := by decide +kernel
  obtain ⟨st, hreach, hsent⟩ := Machine.exists_reachable hrun
  exact ⟨st, hreach, hsent, accepted_subsingleton (World.fresh_empty _) hreach _⟩

/-- The first request is accepted and its reply lost; the node answers the second one
with `nonce too low`, the recovery signs nonce 1, and the network accepts that too. -/
theorem accepted_twice : ¬ ∀ (d : Deployment) (w₀ : World)
    (st : Config ExecutionId EngineCall EngineCall.Reply World Unit), w₀.Fresh d →
    machine.Reachable .free (d.start w₀) st → ∀ e, (st.world.acceptedOf e).Subsingleton := by
  intro hclaim
  have hrun : (machine.runUnder .free (sampleDeployment.start .empty)
      (List.flatten [List.replicate 20 (.call (sampleExecution 1) .lost),
        List.replicate 23 (.call (sampleExecution 1) .tooLow),
        [.call (sampleExecution 1) .lost]])).map
        (fun st => (st.world.sentOf (sampleExecution 1)).map
          fun x => (x.accepted, x.txn.withNonce.value.toNat))
      = some [(true, 1), (false, 0), (true, 0)] := by decide +kernel
  obtain ⟨st, hreach, hsent⟩ := Machine.exists_reachable hrun
  have honce := hclaim _ _ st (World.fresh_empty _) hreach (sampleExecution 1)
  obtain ⟨x, log, hlog, hx, hrest⟩ := List.map_eq_cons_iff.mp hsent
  obtain ⟨y, log', rfl, hy, hrest⟩ := List.map_eq_cons_iff.mp hrest
  obtain ⟨z, _, rfl, hz, _⟩ := List.map_eq_cons_iff.mp hrest
  have heq : x.txn = z.txn := honce ⟨x, by simp [hlog], (Prod.mk.inj hx).1, rfl⟩
    ⟨z, by simp [hlog], (Prod.mk.inj hz).1, rfl⟩
  have hnonce := (Prod.mk.inj hx).2
  rw [heq, (Prod.mk.inj hz).2] at hnonce
  cases hnonce

end Lobby
