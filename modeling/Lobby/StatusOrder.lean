/-
# The order of the statuses

The statuses of a submission in their documented order.  A run never goes backwards as long
as no sync is answered with a nonce.  After such an answer the recovery records
`NonceReserved` and `Signed` once more, behind `NonceMismatchDetected`, so of the runs that
end exactly those without it stay in order (`submit_inOrder_iff`).
-/
import Lobby.StatusReports
import Lobby.StatusTrace
import Lobby.NonceRelease

namespace Lobby

open Interaction Prog PipelineContext Phase

/-! ## The order -/

/-- The place of a status in the order. -/
def PipelineStatus.order : PipelineStatus → ℕ
  | .permitAquired => 0
  | .accepted => 1
  | .nonceReserved => 2
  | .signed => 3
  | .nonceMismatchDetected _ _ => 4
  | .broadcasted _ _ => 5
  | .confirmedOnChain _ => 6
  | .failed _ _ => 6
  | .validatorTimedOut _ => 6

/-- The statuses a run has recorded for an execution, in the order of time. -/
def PipelineLog.shown (e : ExecutionId) (log : PipelineLog) : List PipelineStatus :=
  Lobby.shown e (log.map Entry.call)

/-- No status is followed by an earlier one. -/
def InOrder (l : List PipelineStatus) : Prop := l.Pairwise fun s s' => s.order ≤ s'.order

/-- Each status is followed by later ones only. -/
def Advances (l : List PipelineStatus) : Prop := l.Pairwise fun s s' => s.order < s'.order

instance (l : List PipelineStatus) : Decidable (InOrder l) :=
  inferInstanceAs (Decidable (l.Pairwise fun s s' => s.order ≤ s'.order))

/-- Whether a reply is the nonce of a sync. -/
def PipelineCall.grantsSync : (c : PipelineCall) → c.Reply → Bool
  | .sync _ _ _ _, r => r.isOk
  | _, _ => false

/-- A sync has been answered with a nonce. -/
def Synced (log : PipelineLog) : Prop :=
  ∃ entry ∈ log, entry.call.grantsSync entry.reply = true

instance (log : PipelineLog) : Decidable (Synced log) :=
  inferInstanceAs (Decidable (∃ entry ∈ log, entry.call.grantsSync entry.reply = true))

section

variable {l : List PipelineStatus} {status : PipelineStatus}

theorem Advances.inOrder (h : Advances l) : InOrder l :=
  List.Pairwise.imp (fun hlt => hlt.le) h

theorem Advances.concat (h : Advances l) (hlt : ∀ s ∈ l, s.order < status.order) :
    Advances (l ++ [status]) := by
  refine List.pairwise_append.mpr ⟨h, List.pairwise_singleton _ _, fun s hs s' hs' => ?_⟩
  rw [List.mem_singleton.mp hs']
  exact hlt s hs

/-- A later status does not repair the order. -/
theorem InOrder.of_concat (h : InOrder (l ++ [status])) : InOrder l :=
  (List.pairwise_append.mp h).1

theorem InOrder.le_of_concat (h : InOrder (l ++ [status])) {s : PipelineStatus} (hs : s ∈ l) :
    s.order ≤ status.order :=
  (List.pairwise_append.mp h).2.2 s hs status (List.mem_singleton_self status)

end

/-! ## The order along the phases -/

/-- What is recorded at a phase comes at this place or later, until a sync is answered. -/
def Phase.nextOrder : Phase → ℕ
  | .registering _ | .registered => 1
  | .reserving _ | .reserved _ => 2
  | .signing _ _ | .signed _ _ => 3
  | .acquiring _ _ | .sending _ _ _ _ | .mismatch _ _ _ => 4
  | .broadcasted _ _ => 5
  | .ended => 7
  | _ => 6

/-- The phases of a recovery up to the first status after its sync. -/
def Phase.isMismatch : Phase → Bool
  | .consuming _ _ _ | .reverting _ _ | .syncing _ _ | .synced _ => true
  | _ => false

/-- The phases that are reached through a sync only. -/
def Phase.isSynced : Phase → Bool
  | .synced _ | .resigning _ _ | .resigned _ _ | .sending 0 _ _ _ => true
  | _ => false

/-- The final status of a run that gives up. -/
def Phase.failure : Phase → Option PipelineStatus
  | .releasing _ status _ | .failing status => some status
  | _ => none

/-- A phase that a call recording no status can lead to. -/
structure Phase.LeadsTo (p q : Phase) : Prop where
  next : p.nextOrder ≤ q.nextOrder
  mismatch : q.isMismatch = true → p.isMismatch = true
  synced : q.isSynced = true → p.isSynced = true
  failed : ∀ status, q.failure = some status → status.order = 6 ∨ p.failure = some status

/-- What is known of the order at each phase. -/
structure OrderAt (e : ExecutionId) (p : Phase) (log : PipelineLog) : Prop where
  advances : ¬ Synced log →
    Advances (log.shown e) ∧ ∀ s ∈ log.shown e, s.order < p.nextOrder
  mismatch : p.isMismatch = true → ∃ a b, .nonceMismatchDetected a b ∈ log.shown e
  synced : p.isSynced = true → Synced log
  broken : Synced log → (∃ nonce, p = .synced nonce) ∨ ¬ InOrder (log.shown e)
  failed : ∀ status, p.failure = some status → status.order = 6

section

variable {e : ExecutionId} {p q : Phase} {log : PipelineLog} {c : PipelineCall} {r : c.Reply}

/-- A run can give up at any phase. -/
theorem Phase.nextOrder_le (hp : p ≠ .ended) : p.nextOrder ≤ 6 := by
  cases p with
  | ended => exact absurd rfl hp
  | _ => exact Nat.le_of_ble_eq_true rfl

theorem Phase.leadsTo_failing {status : PipelineStatus} (hp : p ≠ .ended)
    (hstatus : status.order = 6) : p.LeadsTo (.failing status) :=
  ⟨nextOrder_le hp, nofun, nofun, fun _ h => Or.inl (by cases h; exact hstatus)⟩

theorem Phase.leadsTo_releasing {nonce : TxNonce} {status : PipelineStatus} {attempt : ℕ}
    (hp : p ≠ .ended) (hstatus : status.order = 6) :
    p.LeadsTo (.releasing nonce status attempt) :=
  ⟨nextOrder_le hp, nofun, nofun, fun _ h => Or.inl (by cases h; exact hstatus)⟩

theorem PipelineLog.shown_cons (hstatus : c.statusFor e = none) :
    PipelineLog.shown e (⟨c, r, ()⟩ :: log) = log.shown e := by
  rw [PipelineLog.shown, List.map_cons, Lobby.shown_cons hstatus, PipelineLog.shown]

@[simp] theorem PipelineLog.shown_setStatus (status : PipelineStatus) (u : Unit) :
    PipelineLog.shown e (⟨.setStatus e status, u, ()⟩ :: log) = log.shown e ++ [status] := by
  rw [PipelineLog.shown, List.map_cons, Lobby.shown_setStatus, PipelineLog.shown]

theorem synced_cons :
    Synced (⟨c, r, ()⟩ :: log) ↔ c.grantsSync r = true ∨ Synced log := by
  simp only [Synced, List.exists_mem_cons_iff]

theorem synced_cons_of_not (h : c.grantsSync r = false) :
    Synced (⟨c, r, ()⟩ :: log) ↔ Synced log := by
  simp [synced_cons, h]

/-- A call that records no status and grants no nonce by a sync. -/
theorem OrderAt.quiet (h : OrderAt e p log) (hstatus : c.statusFor e = none)
    (hsync : c.grantsSync r = false) (hp : ∀ nonce, p ≠ .synced nonce)
    (hleads : p.LeadsTo q) : OrderAt e q (⟨c, r, ()⟩ :: log) where
  advances hnot := by
    rw [synced_cons_of_not hsync] at hnot
    rw [PipelineLog.shown_cons hstatus]
    obtain ⟨hadvances, hlt⟩ := h.advances hnot
    exact ⟨hadvances, fun s hs => (hlt s hs).trans_le hleads.next⟩
  mismatch hq := by
    rw [PipelineLog.shown_cons hstatus]
    exact h.mismatch (hleads.mismatch hq)
  synced hq := by
    rw [synced_cons_of_not hsync]
    exact h.synced (hleads.synced hq)
  broken hlog := by
    rw [synced_cons_of_not hsync] at hlog
    rw [PipelineLog.shown_cons hstatus]
    rcases h.broken hlog with ⟨nonce, rfl⟩ | hbroken
    · exact absurd rfl (hp nonce)
    · exact Or.inr hbroken
  failed status hq := by
    rcases hleads.failed status hq with hstatus | hp
    · exact hstatus
    · exact h.failed status hp

/-- Waiting and telemetry leave everything as it is. -/
theorem OrderAt.aside (h : OrderAt e p log) (haside : c.isAside = true) :
    OrderAt e p (⟨c, r, ()⟩ :: log) := by
  have hstatus : c.statusFor e = none := by cases c <;> first | rfl | cases haside
  have hsync : c.grantsSync r = false := by cases c <;> first | rfl | cases haside
  have hsame : Synced (⟨c, r, ()⟩ :: log) ↔ Synced log := synced_cons_of_not hsync
  refine ⟨fun hnot => ?_, fun hp => ?_, fun hp => hsame.mpr (h.synced hp), fun hlog => ?_,
    h.failed⟩
  · rw [PipelineLog.shown_cons hstatus]
    exact h.advances (fun hlog => hnot (hsame.mpr hlog))
  · rw [PipelineLog.shown_cons hstatus]
    exact h.mismatch hp
  · rw [PipelineLog.shown_cons hstatus]
    exact h.broken (hsame.mp hlog)

/-- A status in its place. -/
theorem OrderAt.show (h : OrderAt e p log) {status : PipelineStatus} {u : Unit}
    (hplace : p.nextOrder ≤ status.order) (hnext : status.order < q.nextOrder)
    (hp : ∀ nonce, p ≠ .synced nonce)
    (hmismatch : q.isMismatch = true → ∃ a b, status = .nonceMismatchDetected a b)
    (hsynced : q.isSynced = true → p.isSynced = true) (hfailure : q.failure = none) :
    OrderAt e q (⟨.setStatus e status, u, ()⟩ :: log) where
  advances hnot := by
    rw [synced_cons_of_not rfl] at hnot
    rw [PipelineLog.shown_setStatus]
    obtain ⟨hadvances, hlt⟩ := h.advances hnot
    -- every status shown so far comes before this one
    have hbefore : ∀ s ∈ log.shown e, s.order < status.order :=
      fun s hs => (hlt s hs).trans_le hplace
    refine ⟨hadvances.concat hbefore, fun s hs => ?_⟩
    rcases List.mem_append.mp hs with hs | hs
    · exact (hbefore s hs).trans hnext
    · rwa [List.mem_singleton.mp hs]
  mismatch hq := by
    obtain ⟨a, b, rfl⟩ := hmismatch hq
    exact ⟨a, b, by simp⟩
  synced hq := (synced_cons_of_not rfl).mpr (h.synced (hsynced hq))
  broken hlog := by
    rw [synced_cons_of_not rfl] at hlog
    rw [PipelineLog.shown_setStatus]
    -- an order that is broken stays broken
    rcases h.broken hlog with ⟨nonce, rfl⟩ | hbroken
    · exact absurd rfl (hp nonce)
    · exact Or.inr fun horder => hbroken horder.of_concat
  failed status' hq := by
    rw [hfailure] at hq
    cases hq

/-- A status after a sync comes behind the mismatch. -/
theorem OrderAt.showBehind (h : OrderAt e p log) {status : PipelineStatus} {u : Unit}
    (hp : p.isSynced = true) (hbehind : (∃ nonce, p = .synced nonce) → status.order < 4)
    (hmismatch : q.isMismatch = false) (hfailure : q.failure = none) :
    OrderAt e q (⟨.setStatus e status, u, ()⟩ :: log) := by
  have hlog : Synced (⟨.setStatus e status, u, ()⟩ :: log) :=
    (synced_cons_of_not rfl).mpr (h.synced hp)
  refine ⟨fun hnot => absurd hlog hnot, fun hq => ?_, fun _ => hlog, fun _ => Or.inr ?_,
    fun status' hq => ?_⟩
  · rw [hmismatch] at hq
    cases hq
  · rw [PipelineLog.shown_setStatus]
    intro horder
    rcases h.broken (h.synced hp) with ⟨nonce, rfl⟩ | hbroken
    · obtain ⟨a, b, hmem⟩ := h.mismatch rfl
      exact absurd (horder.le_of_concat hmem) (Nat.not_le.mpr (hbehind ⟨nonce, rfl⟩))
    · exact hbroken horder.of_concat
  · rw [hfailure] at hq
    cases hq

/-- A retried call that records no status, and what its stage leads to. -/
theorem OrderAt.attempt {T E : Type} {stage : ℕ → Phase} {maxTotal attempt : ℕ}
    {onOk : T → Phase} {onError : E → Phase} {d : Except (RetryDecision E) T}
    (h : OrderAt e (stage attempt) log) (hstatus : c.statusFor e = none)
    (hsync : c.grantsSync r = false) (hp : ∀ nonce, stage attempt ≠ .synced nonce)
    (hstage : ∀ k, (stage attempt).LeadsTo (stage k))
    (hok : ∀ value, (stage attempt).LeadsTo (onOk value))
    (herror : ∀ err, (stage attempt).LeadsTo (onError err)) :
    OrderAt e (attempted maxTotal stage attempt onOk onError d) (⟨c, r, ()⟩ :: log) :=
  attempted_of (H := fun q => OrderAt e q _)
    (fun k => h.quiet hstatus hsync hp (hstage k))
    (fun value _ => h.quiet hstatus hsync hp (hok value))
    fun err _ => h.quiet hstatus hsync hp (herror err)

/-- A broadcast round that failed leads to a recovery, or gives up. -/
theorem Phase.leadsTo_afterBroadcastError {recoveries attempt : ℕ} {nonce : TxNonce}
    {txn : SignedTransaction} (err : BroadcastError) :
    (Phase.sending recoveries nonce txn attempt).LeadsTo
      (afterBroadcastError recoveries nonce err) := by
  have hp : Phase.sending recoveries nonce txn attempt ≠ .ended := by rintro ⟨⟩
  cases err with
  | nonceTooLow a b =>
      by_cases hzero : recoveries = 0
      · rw [afterBroadcastError, if_pos hzero]
        exact leadsTo_releasing hp rfl
      · rw [afterBroadcastError, if_neg hzero]
        exact ⟨le_rfl, by rintro ⟨⟩, by rintro ⟨⟩, by rintro _ ⟨⟩⟩
  | internal _ | databaseError _ | invariant _ => exact leadsTo_failing hp rfl
  | missingProvider _ | rejected _ | unexpected _ | rpcError _ =>
      exact leadsTo_releasing hp rfl

/-- A verdict leads to the resolution of the nonce, or gives up. -/
theorem Phase.leadsTo_afterValidation {nonce : TxNonce} {txHash : TxHash}
    (r : Except ValidatorError ValidatorOutcome) :
    (Phase.validating nonce txHash).LeadsTo (afterValidation nonce txHash r) := by
  rcases r with err | outcome
  · cases err with
    | database _ | internal _ => exact leadsTo_failing nofun rfl
    | rpc _ _ | reverted _ | rpcError _ => exact leadsTo_releasing nofun rfl
  · cases outcome with
    | included _ _ | timeout => exact ⟨le_rfl, nofun, nofun, nofun⟩
    | notIncluded => exact leadsTo_releasing nofun rfl

/-- A sync that is answered with a nonce. -/
theorem OrderAt.sync (h : OrderAt e p log) (hp : p.isMismatch = true)
    (hstatus : c.statusFor e = none) (hsync : c.grantsSync r = true) (nonce : TxNonce) :
    OrderAt e (.synced nonce) (⟨c, r, ()⟩ :: log) where
  advances hnot := absurd (synced_cons.mpr (Or.inl hsync)) hnot
  mismatch _ := by
    rw [PipelineLog.shown_cons hstatus]
    exact h.mismatch hp
  synced _ := synced_cons.mpr (Or.inl hsync)
  broken _ := Or.inl ⟨nonce, rfl⟩
  failed := nofun

end

/-- **Every call of a pipeline keeps what is known of the order.** -/
theorem orderOutline (ctx : PipelineContext) :
    Outline (Contract.free.logged fun _ x =>
        ¬ Synced x.2 → Advances (PipelineLog.shown ctx.executionId x.2)) ctx
      fun p x => OrderAt ctx.executionId p x.2 where
  stable hw hrely := by
    rw [hrely.2]
    exact hw
  call := by
    rintro p c next ⟨_, log⟩ hcall h
    refine ⟨⟨trivial, fun hnot => (h.advances hnot).1⟩, ?_⟩
    rintro r ⟨_, _⟩ ⟨-, rfl⟩
    show OrderAt ctx.executionId (next r) _
    have h : OrderAt ctx.executionId p log := h
    cases hcall with
    | genRange window => exact h.aside rfl
    | sleep delay => exact h.aside rfl
    | telemetry call => exact h.aside rfl
    | unreachable _ message _ => cases r
    | register attempt =>
        exact h.attempt rfl rfl nofun (fun _ => ⟨le_rfl, nofun, nofun, nofun⟩)
          (fun _ => ⟨le_rfl, nofun, nofun, nofun⟩) fun _ => leadsTo_failing nofun rfl
    | accept => exact h.show le_rfl (show 1 < 2 by decide) nofun nofun nofun rfl
    | reserve attempt =>
        exact h.attempt rfl rfl nofun (fun _ => ⟨le_rfl, nofun, nofun, nofun⟩)
          (fun _ => ⟨le_rfl, nofun, nofun, nofun⟩) fun _ => leadsTo_failing nofun rfl
    | showReserved nonce => exact h.show le_rfl (show 2 < 3 by decide) nofun nofun nofun rfl
    | sign nonce attempt =>
        exact h.attempt rfl rfl nofun (fun _ => ⟨le_rfl, nofun, nofun, nofun⟩)
          (fun _ => ⟨le_rfl, nofun, nofun, nofun⟩) fun _ => leadsTo_releasing nofun rfl
    | showSigned nonce txn =>
        exact h.show le_rfl (show 3 < 4 by decide) nofun nofun nofun rfl
    | acquire nonce txn =>
        match r with
        | .ok (some stickyIndex) => exact h.quiet rfl rfl nofun ⟨le_rfl, nofun, nofun, nofun⟩
        | .ok none => exact h.quiet rfl rfl nofun (leadsTo_releasing nofun rfl)
        | .error err => exact h.quiet rfl rfl nofun (leadsTo_releasing nofun rfl)
    | broadcast recoveries nonce txn attempt stickyIndex =>
        refine h.attempt rfl rfl nofun (fun k => ⟨le_rfl, nofun, ?_, nofun⟩)
          (fun _ => ⟨(show 4 ≤ 5 by decide), nofun, nofun, nofun⟩)
          fun err => leadsTo_afterBroadcastError err
        cases recoveries with
        | zero => exact fun _ => rfl
        | succ recoveries => exact nofun
    | showMismatch nonce nonceOnChain attemptedNonce =>
        exact h.show le_rfl (show 4 < 6 by decide) nofun (fun _ => ⟨_, _, rfl⟩) nofun rfl
    | consume nonce nonceOnChain attempt =>
        exact h.attempt rfl rfl nofun (fun _ => ⟨le_rfl, fun _ => rfl, nofun, nofun⟩)
          (fun _ => ⟨le_rfl, fun _ => rfl, nofun, nofun⟩)
          fun _ => ⟨le_rfl, fun _ => rfl, nofun, nofun⟩
    | revert nonceOnChain attempt =>
        exact h.attempt rfl rfl nofun (fun _ => ⟨le_rfl, fun _ => rfl, nofun, nofun⟩)
          (fun _ => ⟨le_rfl, fun _ => rfl, nofun, nofun⟩)
          fun _ => ⟨le_rfl, fun _ => rfl, nofun, nofun⟩
    | sync nonceOnChain attempt =>
        cases r with
        | ok corrected => exact h.sync rfl rfl rfl corrected
        | error err =>
            exact attempted_of (H := fun q => OrderAt ctx.executionId q _)
              (fun _ => h.quiet rfl rfl nofun ⟨le_rfl, fun _ => rfl, nofun, nofun⟩)
              (fun _ hok => by cases hok)
              fun _ _ => h.quiet rfl rfl nofun (leadsTo_failing nofun rfl)
    | showSynced nonce => exact h.showBehind rfl (fun _ => show 2 < 4 by decide) rfl rfl
    | resign nonce attempt =>
        exact h.attempt rfl rfl nofun (fun _ => ⟨le_rfl, nofun, fun _ => rfl, nofun⟩)
          (fun _ => ⟨le_rfl, nofun, fun _ => rfl, nofun⟩)
          fun _ => leadsTo_releasing nofun rfl
    | showResigned nonce txn => exact h.showBehind rfl (by rintro ⟨_, ⟨⟩⟩) rfl rfl
    | showBroadcasted nonce txHash =>
        exact h.show le_rfl (show 5 < 6 by decide) nofun nofun nofun rfl
    | validate nonce txHash stickyIndex =>
        exact h.quiet rfl rfl nofun (leadsTo_afterValidation r)
    | finalize nonce txHash attempt =>
        exact h.attempt rfl rfl nofun (fun _ => ⟨le_rfl, nofun, nofun, nofun⟩)
          (fun _ => ⟨le_rfl, nofun, nofun, nofun⟩) fun _ => ⟨le_rfl, nofun, nofun, nofun⟩
    | showConfirmed nonce txHash =>
        exact h.show le_rfl (show 6 < 7 by decide) nofun nofun nofun rfl
    | retire nonce attempt =>
        exact h.attempt rfl rfl nofun (fun _ => ⟨le_rfl, nofun, nofun, nofun⟩)
          (fun _ => ⟨le_rfl, nofun, nofun, nofun⟩) fun _ => ⟨le_rfl, nofun, nofun, nofun⟩
    | showTimedOut nonce => exact h.show le_rfl (show 6 < 7 by decide) nofun nofun nofun rfl
    | release nonce status attempt =>
        exact h.attempt rfl rfl nofun (fun _ => ⟨le_rfl, nofun, nofun, fun _ => Or.inr⟩)
          (fun _ => ⟨le_rfl, nofun, nofun, fun _ => Or.inr⟩)
          fun _ => ⟨le_rfl, nofun, nofun, fun _ => Or.inr⟩
    | fail status =>
        have hstatus : status.order = 6 := h.failed status rfl
        exact h.show hstatus.ge (hstatus.trans_lt (show 6 < 7 by decide)) nofun nofun nofun rfl

/-! ## The order of a run -/

theorem wp_submit_order (ctx : PipelineContext) :
    wp (Contract.free.logged fun _ x =>
        ¬ Synced x.2 → Advances (PipelineLog.shown ctx.executionId x.2)) (submit ctx (.ok ()))
      (fun _ x => OrderAt ctx.executionId .ended x.2) ((), []) := by
  refine (orderOutline ctx).wp_submit (wp_call ?_)
  rintro ⟨_, _⟩ ⟨-, rfl⟩
  refine ⟨⟨trivial, fun _ => List.Pairwise.nil⟩, ?_⟩
  rintro r ⟨_, _⟩ ⟨-, rfl⟩
  refine wp_ret ?_
  rintro ⟨_, _⟩ ⟨-, rfl⟩
  have hshown : PipelineLog.shown ctx.executionId
      [⟨.setStatus ctx.executionId .permitAquired, r, ()⟩] = [.permitAquired] :=
    PipelineLog.shown_setStatus .permitAquired r
  refine ⟨fun _ => ?_, nofun, nofun, fun hlog => ?_, nofun⟩
  · simp only [hshown]
    exact ⟨List.pairwise_singleton _ _, by simp [PipelineStatus.order, nextOrder]⟩
  · simp [Synced, PipelineCall.grantsSync] at hlog

/-- **When the statuses stay in order.**  As long as no sync is answered with a nonce, each
status of a run comes later in the order than those before it; and the statuses of a run
that has ended are in order exactly when no sync was answered with a nonce. -/
theorem submit_inOrder_iff (ctx : PipelineContext) :
    (∀ log p u, (submit ctx (.ok ())).Reaches Contract.free () log p u → ¬ Synced log →
      Advances (PipelineLog.shown ctx.executionId log))
    ∧ ∀ log reply u, (submit ctx (.ok ())).Reaches Contract.free () log (.ret reply) u →
      (InOrder (PipelineLog.shown ctx.executionId log) ↔ ¬ Synced log) := by
  have hadvances : ∀ log p u, (submit ctx (.ok ())).Reaches Contract.free () log p u →
      ¬ Synced log → Advances (PipelineLog.shown ctx.executionId log) := by
    intro log p u hreach
    refine hreach.always
      (I := fun x => ¬ Synced x.2 → Advances (PipelineLog.shown ctx.executionId x.2)) ?_
    exact wp_mono (wp_submit_order ctx) fun _ x h hnot => (h.advances hnot).1
  refine ⟨hadvances, fun log reply u hreach => ⟨fun horder hlog => ?_, fun hnot => ?_⟩⟩
  · rcases (hreach.ended (wp_submit_order ctx)).broken hlog with ⟨nonce, hp⟩ | hbroken
    · cases hp
    · exact hbroken horder
  · exact (hadvances log _ u hreach hnot).inOrder

/-- A run without an error is in order to its end. -/
theorem submit_smooth_inOrder :
    ∃ log reply u, (submit samplePipeline (.ok ())).Reaches Contract.free () log (.ret reply) u
      ∧ InOrder (PipelineLog.shown samplePipeline.executionId log) := by
  have hrun : ((submit samplePipeline (.ok ())).follow
      (fun c _ => (smoothReply c).map fun r => (r, ())) 13 ()).map
        (fun run => (run.2.1.result, decide (Synced run.1))) = some (some (.ok ()), false) := by
    decide +kernel
  obtain ⟨log, p, u, hreach, hend⟩ :=
    exists_reaches (E := Contract.free) (fun _ _ _ _ _ => trivial) hrun
  obtain ⟨hresult, hsynced⟩ := Prod.mk.inj hend
  obtain rfl := eq_ret_of_result hresult
  exact ⟨log, _, u, hreach, ((submit_inOrder_iff samplePipeline).2 log _ u hreach).mpr
    (of_decide_eq_false hsynced)⟩

/-- A node that has seen the nonce zero, and a sync that grants the nonce one. -/
def recoveringReply : (c : PipelineCall) → Option c.Reply
  | .broadcast _ _ _ _ _ => some (.error (.nonceTooLow ⟨1⟩ ⟨0⟩))
  | .revert _ => some (.ok ())
  | .sync _ _ _ _ => some (.ok ⟨1⟩)
  | c => smoothReply c

/-- A recovery records `NonceReserved` behind `NonceMismatchDetected`. -/
theorem submit_recovered_not_inOrder :
    ¬ ∀ log p u, (submit samplePipeline (.ok ())).Reaches Contract.free () log p u →
      InOrder (PipelineLog.shown samplePipeline.executionId log) := by
  intro hclaim
  have hrun : ((submit samplePipeline (.ok ())).follow
      (fun c _ => (recoveringReply c).map fun r => (r, ())) 14 ()).map
        (fun run => PipelineLog.shown samplePipeline.executionId run.1) = some
          [.permitAquired, .accepted, .nonceReserved, .signed,
            .nonceMismatchDetected ⟨1⟩ ⟨0⟩, .nonceReserved] := by decide +kernel
  obtain ⟨log, p, u, hreach, hshown⟩ :=
    exists_reaches (E := Contract.free) (fun _ _ _ _ _ => trivial) hrun
  have horder := hclaim log p u hreach
  simp only [hshown] at horder
  exact absurd horder (by decide)

end Lobby
