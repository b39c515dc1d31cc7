/-
# Nonces reported too low

A pipeline over the nonce table: its nonce calls run the handlers of the engine, with any
fault and anything others may do between two statements, and every other reply is
arbitrary.  A release hits the newest reserved row of the execution.  That row holds no nonce
a broadcast reported too low, as long as only one was reported and every sync finds it gone
from the reserved rows (`release_spares_reported`); a second report, or a consume that
failed, lets a release put the nonce back into use.
-/
import Lobby.Terminating
import Lobby.NonceFrame

namespace Lobby

open Interaction Prog PipelineContext Phase

/-! ## The nonce actor -/

namespace NonceTable

/-- A statement of an execution at any time, with anything others do after it. -/
def Statement (e : ExecutionId) (q : NonceQuery) (t : NonceTable) (r : q.Reply)
    (t' : NonceTable) : Prop :=
  ∃ now u, Answers t (t.execute now q) r u ∧ Keeps (fun _ => True) e u t'

/-- A command to the nonce actor: its mailbox is closed, or the handler runs and replies,
unless the reply is lost. -/
inductive Served (e : ExecutionId) {T : Type}
    (handler : Prog NonceQuery NonceQuery.Reply (Except LocalError T)) (t : NonceTable) :
    Except LocalError T → NonceTable → Prop where
  | refused (err) : Served e handler t (.error err) t
  | replied {r t'} (h : handler.Runs (Statement e) t r t') : Served e handler t r t'
  | dropped {r t'} (h : handler.Runs (Statement e) t r t') (err) :
      Served e handler t (.error err) t'

end NonceTable

/-- What a call of a pipeline answers and does to the nonces. -/
def PipelineCall.NonceStep : (c : PipelineCall) → NonceTable → c.Reply → NonceTable → Prop
  | .reserve chainId fromAddress e, t, r, t' =>
    NonceTable.Served e (handleReserve chainId fromAddress e) t r t'
  | .resolve e s, t, r, t' => NonceTable.Served e (handleResolve e s) t r t'
  | .sync chainId fromAddress e nonceOnChain, t, r, t' =>
    NonceTable.Served e (handleSync chainId fromAddress e nonceOnChain) t r t'
  | _, t, _, t' => t' = t

/-- The surroundings of the pipeline of an execution, as far as its nonces are concerned. -/
def nonceContract (e : ExecutionId) : Contract PipelineCall PipelineCall.Reply NonceTable where
  rely := NonceTable.Keeps (fun _ => True) e
  rely_refl := .refl _ e
  rely_trans h h' := h.trans h' fun _ hn => hn
  requires _ _ := True
  step := PipelineCall.NonceStep

abbrev NonceLog : Type := List (Entry PipelineCall PipelineCall.Reply NonceTable)

/-! ## Reports -/

/-- The nonce of a transaction whose broadcast was answered with `NonceTooLow`. -/
def PipelineCall.tooLow : (c : PipelineCall) → c.Reply → Option TxNonce
  | .broadcast _ _ _ txn _, .error (.nonceTooLow _ _) => some txn.withNonce
  | _, _ => none

/-- The nonces reported too low, the latest first. -/
def NonceLog.reported (log : NonceLog) : List TxNonce :=
  log.filterMap fun entry => entry.call.tooLow entry.reply

/-- No reserved row of the execution holds one of the nonces. -/
def NonceTable.Spares (e : ExecutionId) (nonces : List TxNonce) (t : NonceTable) : Prop :=
  ∀ r ∈ t.rows, r.executionId = e → r.state = .reserved →
    ∀ n ∈ nonces, r.nonce ≠ n.value.toNat

instance (e : ExecutionId) (nonces : List TxNonce) (t : NonceTable) :
    Decidable (t.Spares e nonces) :=
  inferInstanceAs (Decidable (∀ r ∈ t.rows, r.executionId = e → r.state = .reserved →
    ∀ n ∈ nonces, r.nonce ≠ n.value.toNat))

/-- A sync is called when the reported nonces are gone from the reserved rows, for a nonce
that was not reported. -/
def PipelineCall.SyncsCleanly (reported : List TxNonce) (t : NonceTable) : PipelineCall → Prop
  | .sync _ _ e nonceOnChain => t.Spares e reported ∧ nonceOnChain ∉ reported
  | _ => True

instance (reported : List TxNonce) (t : NonceTable) :
    (c : PipelineCall) → Decidable (c.SyncsCleanly reported t)
  | .sync _ _ e nonceOnChain =>
    inferInstanceAs (Decidable (t.Spares e reported ∧ nonceOnChain ∉ reported))
  | .registerTransaction _ _ _ | .reserve _ _ _ | .resolve _ _ | .sign _ _ _ _ | .revert _
  | .acquireHealthyEndpoint _ _ | .broadcast _ _ _ _ _ | .validate _ _ _ _ | .setStatus _ _
  | .telemetry _ _ | .genRange _ | .sleep _ | .unreachable _ => isTrue trivial

/-- Every sync of a log was called cleanly. -/
def SyncedCleanly : NonceLog → Prop
  | [] => True
  | entry :: earlier =>
    entry.call.SyncsCleanly (NonceLog.reported earlier) entry.before ∧ SyncedCleanly earlier

instance decidableSyncedCleanly : (log : NonceLog) → Decidable (SyncedCleanly log)
  | [] => isTrue trivial
  | entry :: earlier =>
    have := decidableSyncedCleanly earlier
    inferInstanceAs (Decidable (entry.call.SyncsCleanly (NonceLog.reported earlier) entry.before
      ∧ SyncedCleanly earlier))

/-- One nonce at most is reported, and every sync is called cleanly. -/
def RecoversCleanly (log : NonceLog) : Prop :=
  (NonceLog.reported log).length ≤ 1 ∧ SyncedCleanly log

instance (log : NonceLog) : Decidable (RecoversCleanly log) :=
  inferInstanceAs (Decidable (_ ∧ _))

/-- The row that a release would hit holds no nonce that was reported. -/
def ReleaseSpares (e : ExecutionId) (log : NonceLog) (t : NonceTable) : Prop :=
  ∀ r, t.latestReserved e = some r → ∀ n ∈ NonceLog.reported log, r.nonce ≠ n.value.toNat

/-! ## What the calls do to the reserved rows -/

namespace NonceTable

variable {e : ExecutionId} {nonces : List TxNonce} {t t' : NonceTable} {now : Timestamp}

theorem spares_nil (e : ExecutionId) (t : NonceTable) : t.Spares e [] :=
  fun _ _ _ _ _ hn => absurd hn List.not_mem_nil

theorem Spares.of_subset (h : t.Spares e nonces)
    (hsub : ∀ r ∈ t'.rows, r.executionId = e → r.state = .reserved → r ∈ t.rows) :
    t'.Spares e nonces :=
  fun r hr howner hstate => h r (hsub r hr howner hstate) howner hstate

theorem Spares.keeps {taken : ℕ → Prop} (h : t.Spares e nonces) (hkeeps : Keeps taken e t t') :
    t'.Spares e nonces :=
  h.of_subset fun r hr howner hstate =>
    hkeeps.noNew r hr howner (NonceRow.isActive_iff.mpr (Or.inl hstate))

/-- A row that leaves the reserved state is one less. -/
theorem Spares.resolve {s : NonceState} {m : ℕ} (h : t.Spares e nonces) (hs : s ≠ .reserved)
    (hresolve : t.resolveUpdate now e s = .ok (m, t')) : t'.Spares e nonces := by
  refine h.of_subset fun r hr howner hstate => ?_
  rw [(resolveUpdate_eq_ok.mp hresolve).2, Revisions.mem_update] at hr
  obtain ⟨r₀, hr₀, rfl⟩ := hr
  by_cases hkey : Revisions.key r₀ ∈ (t.latestReserved e).toList.map Revisions.key
  · rw [if_pos hkey] at hstate
    exact absurd hstate hs
  · rwa [if_neg hkey]

/-- A sync adds a row with its own nonce only. -/
theorem Spares.sync {c n : ℕ} {fromAddress : Address} {reply : Option (ℕ × ℕ)}
    (h : t.Spares e nonces) (hn : ∀ m ∈ nonces, n ≠ m.value.toNat)
    (hsync : t.syncReserve now c fromAddress e n = .ok (reply, t')) : t'.Spares e nonces := by
  rcases syncReserve_eq_ok.mp hsync with ⟨_, _, rfl⟩ | ⟨_, _, _, hrows⟩
  · exact h
  · intro r hr howner hstate
    rw [hrows] at hr
    rcases List.mem_append.mp hr with hr | hr
    · exact h r hr howner hstate
    · rw [List.mem_singleton.mp hr]
      exact hn

end NonceTable

/-- The statements of an execution that bring none of the nonces back. -/
def NonceQuery.Harmless (e : ExecutionId) (nonces : List TxNonce) : NonceQuery → Prop
  | .resolve e' s => e' = e ∧ s ≠ .reserved
  | .syncReserve _ _ e' n => e' = e ∧ ∀ m ∈ nonces, n ≠ m.value.toNat
  | .reserveCandidate _ _ _ => False
  | .existing _ | .latest _ => True

section

variable {e : ExecutionId} {nonces : List TxNonce} {t t' : NonceTable}

theorem asks_handleResolve (e : ExecutionId) (s : NonceState) (nonces : List TxNonce) :
    (handleResolve e s).Asks (NonceQuery.Harmless e nonces) := by
  cases s with
  | reserved => trivial
  | finalized | released | consumed =>
      unfold handleResolve
      refine (asks_perform ⟨rfl, nofun⟩).bind fun r => ?_
      cases r with
      | error err => trivial
      | ok rowsAffected =>
          dsimp only
          split
          · trivial
          · refine (asks_perform trivial).bind fun r => ?_
            rcases r with err | _ | latest
            · trivial
            · trivial
            · dsimp only
              split
              · trivial
              · split <;> trivial

theorem asks_handleSync (chainId : ChainId) (fromAddress : Address) (e : ExecutionId)
    {nonceOnChain : TxNonce} (h : nonceOnChain ∉ nonces) :
    (handleSync chainId fromAddress e nonceOnChain).Asks (NonceQuery.Harmless e nonces) := by
  unfold handleSync
  cases chainId.id.toI64 with
  | none => trivial
  | some c =>
      dsimp only
      cases hnonce : nonceOnChain.value.toI64 with
      | none => trivial
      | some n =>
          have hn : ∀ m ∈ nonces, n ≠ m.value.toNat := by
            rintro m hm heq
            have hvalue : nonceOnChain.value = m.value :=
              BitVec.eq_of_toNat_eq ((toI64_eq_some hnonce).trans heq)
            rw [show nonceOnChain = m from congrArg TxNonce.mk hvalue] at h
            exact h hm
          refine (asks_perform ⟨rfl, hn⟩).bind fun r => ?_
          rcases r with err | _ | row
          · trivial
          · refine (asks_perform trivial).bind fun r => ?_
            rcases r with err | _ | row <;> trivial
          · trivial

/-- **What a harmless statement leaves of the reserved rows.** -/
theorem NonceTable.Spares.statement {q : NonceQuery} {r : q.Reply} (h : t.Spares e nonces)
    (hq : q.Harmless e nonces) (hstatement : Statement e q t r t') : t'.Spares e nonces := by
  obtain ⟨now, u, hanswers, hkeeps⟩ := hstatement
  refine Spares.keeps ?_ hkeeps
  rcases hanswers.table with rfl | ⟨rows, hexecute⟩
  · exact h
  · cases q with
    | reserveCandidate => exact hq.elim
    | existing | latest =>
        cases hexecute
        exact h
    | syncReserve chainId fromAddress e' n =>
        obtain ⟨rfl, hn⟩ := hq
        exact h.sync hn hexecute
    | resolve e' s =>
        obtain ⟨rfl, hs⟩ := hq
        exact h.resolve hs hexecute

/-- A command that makes harmless statements only. -/
theorem NonceTable.Spares.served {T : Type} {r : Except LocalError T}
    {handler : Prog NonceQuery NonceQuery.Reply (Except LocalError T)} (h : t.Spares e nonces)
    (hasks : handler.Asks (NonceQuery.Harmless e nonces)) (hserved : Served e handler t r t') :
    t'.Spares e nonces := by
  have hrun : ∀ {r t'}, handler.Runs (Statement e) t r t' → t'.Spares e nonces :=
    fun hrun => hrun.keeps (I := Spares e nonces) hasks
      (fun hq hstatement h => h.statement hq hstatement) h
  cases hserved with
  | refused err => exact h
  | replied hr => exact hrun hr
  | dropped hr err => exact hrun hr

end

/-! ## The reports along the phases -/

/-- The phases from the first report on, up to the second round of broadcasts. -/
def Phase.isRecovery : Phase → Bool
  | .mismatch _ _ _ | .consuming _ _ _ | .reverting _ _ | .syncing _ _ | .synced _
  | .resigning _ _ | .resigned _ _ | .sending 0 _ _ _ => true
  | _ => false

/-- The phases from which a release can follow. -/
def Phase.isSpared : Phase → Bool
  | .synced _ | .resigning _ _ | .resigned _ _ | .sending _ _ _ _ | .broadcasted _ _
  | .validating _ _ | .releasing _ _ _ => true
  | _ => false

/-- What is known at each phase of the nonces reported and of the reserved rows. -/
structure ReportAt (e : ExecutionId) (p : Phase) (log : NonceLog) (t : NonceTable) : Prop where
  first : p.isFirst = true → NonceLog.reported log = []
  recovery : p.isRecovery = true → NonceLog.reported log ≠ []
  spares : p.isSpared = true → t.Spares e (NonceLog.reported log)

section

variable {e : ExecutionId} {p q : Phase} {c : PipelineCall} {r : c.Reply} {log : NonceLog}
  {t t' : NonceTable}

theorem NonceLog.reported_cons (h : c.tooLow r = none) :
    NonceLog.reported (⟨c, r, t⟩ :: log) = NonceLog.reported log :=
  List.filterMap_cons_none h

theorem RecoversCleanly.of_cons {x : Entry PipelineCall PipelineCall.Reply NonceTable}
    (h : RecoversCleanly (x :: log)) : RecoversCleanly log := by
  refine ⟨le_trans ?_ h.1, h.2.2⟩
  unfold NonceLog.reported
  rw [List.filterMap_cons]
  split
  · exact le_rfl
  · exact Nat.le_succ _

/-- A call whose reply reports no nonce. -/
theorem ReportAt.quiet (h : ReportAt e p log t) (hlow : c.tooLow r = none)
    (hfirst : q.isFirst = true → p.isFirst = true)
    (hrecovery : q.isRecovery = true → p.isRecovery = true)
    (hspares : q.isSpared = true → p.isFirst = true
      ∨ p.isSpared = true ∧ ∀ nonces, t.Spares e nonces → t'.Spares e nonces) :
    ReportAt e q (⟨c, r, t⟩ :: log) t' := by
  constructor
  · rw [NonceLog.reported_cons hlow]
    exact fun hq => h.first (hfirst hq)
  · rw [NonceLog.reported_cons hlow]
    exact fun hq => h.recovery (hrecovery hq)
  · rw [NonceLog.reported_cons hlow]
    intro hq
    rcases hspares hq with hp | ⟨hp, hkeeps⟩
    · rw [h.first hp]
      exact NonceTable.spares_nil e t'
    · exact hkeeps _ (h.spares hp)

/-- Waiting and telemetry leave everything as it is. -/
theorem ReportAt.aside (h : ReportAt e p log t) (haside : c.isAside = true) :
    ReportAt e p (⟨c, r, t⟩ :: log) t :=
  h.quiet (by cases c <;> first | rfl | cases haside) id id fun hp => Or.inr ⟨hp, fun _ => id⟩

/-- A sync that is called cleanly. -/
theorem ReportAt.sync {chainId : ChainId} {fromAddress : Address} {nonceOnChain : TxNonce}
    {r : Except LocalError TxNonce} {attempt maxTotal : ℕ} {onError : LocalError → Phase}
    {d : Except (RetryDecision LocalError) TxNonce}
    (h : ReportAt e (.syncing nonceOnChain attempt) log t)
    (hclean : RecoversCleanly (⟨.sync chainId fromAddress e nonceOnChain, r, t⟩ :: log))
    (hserved : NonceTable.Served e (handleSync chainId fromAddress e nonceOnChain) t r t')
    (herror : ∀ err, ∃ status, onError err = .failing status) :
    ReportAt e (attempted maxTotal (.syncing nonceOnChain) attempt .synced onError d)
      (⟨.sync chainId fromAddress e nonceOnChain, r, t⟩ :: log) t' := by
  obtain ⟨hspares, hfresh⟩ := hclean.2.1
  have hsynced := hspares.served (asks_handleSync chainId fromAddress e hfresh) hserved
  refine attempted_of (H := fun q => ReportAt e q _ t') (fun k => ?_) (fun nonce _ => ?_)
    fun err _ => ?_
  · exact h.quiet rfl nofun (fun _ => rfl) nofun
  · exact ⟨nofun, fun _ => h.recovery rfl, fun _ => hsynced⟩
  · obtain ⟨status, hstatus⟩ := herror err
    rw [hstatus]
    exact h.quiet rfl nofun nofun nofun

/-- A nonce that is reported too low starts the recovery; there is no second one. -/
theorem ReportAt.tooLow {chainId : ChainId} {fromAddress : Address} {nonce : TxNonce}
    {txn : SignedTransaction} {stickyIndex recoveries attempt : ℕ} {a b : TxNonce}
    (h : ReportAt e (.sending recoveries nonce txn attempt) log t)
    (hclean : RecoversCleanly (⟨.broadcast chainId fromAddress e txn stickyIndex,
      .error (.nonceTooLow a b), t⟩ :: log)) :
    ReportAt e (afterBroadcastError recoveries nonce (.nonceTooLow a b))
      (⟨.broadcast chainId fromAddress e txn stickyIndex, .error (.nonceTooLow a b), t⟩ :: log)
      t := by
  cases recoveries with
  | zero =>
      have hlength : (NonceLog.reported log).length + 1 ≤ 1 := hclean.1
      exact absurd (List.length_eq_zero_iff.mp (by omega)) (h.recovery rfl)
  | succ recoveries => exact ⟨nofun, fun _ => List.cons_ne_nil _ _, nofun⟩

/-- A broadcast answered by another error is repeated, or ends the round. -/
theorem ReportAt.resend {chainId : ChainId} {fromAddress : Address} {nonce : TxNonce}
    {txn : SignedTransaction} {stickyIndex recoveries attempt maxTotal : ℕ}
    {err : BroadcastError} (h : ReportAt e (.sending recoveries nonce txn attempt) log t)
    (hlow : ∀ a b, err ≠ .nonceTooLow a b) :
    ReportAt e (attempted maxTotal (.sending recoveries nonce txn) attempt
        (fun outcome : BroadcastOutcome => .broadcasted nonce outcome.txnHash)
        (afterBroadcastError recoveries nonce) (broadcastDecision (.error err)))
      (⟨.broadcast chainId fromAddress e txn stickyIndex, .error err, t⟩ :: log) t := by
  have hnone : (PipelineCall.broadcast chainId fromAddress e txn stickyIndex).tooLow
      (.error err) = none := by
    -- an error that is no nonce mismatch is not reported as one
    cases err with
    | nonceTooLow a b => exact absurd rfl (hlow a b)
    | _ => rfl
  refine attempted_of (H := fun q => ReportAt e q _ t) (fun k => ?_) (fun outcome hok => ?_)
    fun err' herr => ?_
  · refine h.quiet hnone (fun hq => ?_) (fun hq => ?_) fun _ => Or.inr ⟨rfl, fun _ => id⟩
    · cases recoveries <;> first | rfl | cases hq
    · cases recoveries <;> first | rfl | cases hq
  · cases broadcastDecision_ok hok
  · obtain rfl : err = err' := Except.error.inj (broadcastDecision_error herr)
    cases err with
    | nonceTooLow a b => exact absurd rfl (hlow a b)
    | internal _ | databaseError _ | invariant _ => exact h.quiet rfl nofun nofun nofun
    | missingProvider _ | rejected _ | unexpected _ | rpcError _ =>
        exact h.quiet rfl nofun nofun fun _ => Or.inr ⟨rfl, fun _ => id⟩

/-- A resolve that leads on, whatever its reply. -/
theorem ReportAt.resolve {s : NonceState} {r : Except LocalError Unit} {maxTotal attempt : ℕ}
    {stage : ℕ → Phase} {d : Except (RetryDecision LocalError) Unit}
    (h : ReportAt e (stage attempt) log t)
    (hserved : NonceTable.Served e (handleResolve e s) t r t')
    (hstage : ∀ k, (stage k).isFirst = false
      ∧ ((stage k).isRecovery = true → (stage attempt).isRecovery = true)
      ∧ ((stage k).isSpared = true → (stage attempt).isSpared = true))
    (hq : q.isFirst = false ∧ (q.isRecovery = true → (stage attempt).isRecovery = true)
      ∧ q.isSpared = false) :
    ReportAt e (attempted maxTotal stage attempt (fun _ => q) (fun _ => q) d)
      (⟨.resolve e s, r, t⟩ :: log) t' := by
  have hkeeps : ∀ nonces, t.Spares e nonces → t'.Spares e nonces :=
    fun nonces hspares => hspares.served (asks_handleResolve e s nonces) hserved
  have hnext : ReportAt e q (⟨.resolve e s, r, t⟩ :: log) t' := by
    refine h.quiet rfl (fun hfirst => ?_) hq.2.1 fun hspared => ?_
    · rw [hq.1] at hfirst
      cases hfirst
    · rw [hq.2.2] at hspared
      cases hspared
  refine attempted_of (H := fun q => ReportAt e q _ t') (fun k => ?_) (fun _ _ => hnext)
    fun _ _ => hnext
  refine h.quiet rfl (fun hfirst => ?_) (hstage k).2.1 fun hspared => ?_
  · rw [(hstage k).1] at hfirst
    cases hfirst
  · exact Or.inr ⟨(hstage k).2.2 hspared, hkeeps⟩

end

/-- What a release must find. -/
def SparesReported (e : ExecutionId) (c : PipelineCall) (x : NonceTable × NonceLog) : Prop :=
  RecoversCleanly x.2 → c = .resolve e .released → x.1.Spares e (NonceLog.reported x.2)

/-- **Every call of a pipeline keeps what is known of the reported nonces.** -/
theorem reportOutline (ctx : PipelineContext) :
    Outline ((nonceContract ctx.executionId).logged (SparesReported ctx.executionId)) ctx
      fun p x => RecoversCleanly x.2 → ReportAt ctx.executionId p x.2 x.1 where
  stable := by
    rintro p ⟨t, log⟩ ⟨t', _⟩ hw ⟨hkeeps, rfl⟩ hclean
    obtain ⟨hfirst, hrecovery, hspares⟩ := hw hclean
    exact ⟨hfirst, hrecovery, fun hp => (hspares hp).keeps hkeeps⟩
  call := by
    rintro p c next ⟨t, log⟩ hcall h
    constructor
    · refine ⟨trivial, fun hclean hc => ?_⟩
      subst hc
      cases hcall
      -- what is about to be released was not reported
      exact (h hclean).spares rfl
    · rintro r ⟨t', _⟩ ⟨hstep, rfl⟩ hclean
      have h : ReportAt ctx.executionId p log t := h hclean.of_cons
      have hsame : ∀ nonces, t.Spares ctx.executionId nonces → t.Spares ctx.executionId nonces :=
        fun _ => id
      cases hcall with
      | genRange window => obtain rfl : t' = t := hstep; exact h.aside rfl
      | sleep delay => obtain rfl : t' = t := hstep; exact h.aside rfl
      | telemetry call => obtain rfl : t' = t := hstep; exact h.aside rfl
      | unreachable _ message _ => cases r
      | register attempt =>
          exact attempted_of (H := fun q => ReportAt _ q _ _)
            (fun _ => h.quiet rfl (fun _ => rfl) nofun nofun)
            (fun _ _ => h.quiet rfl (fun _ => rfl) nofun nofun)
            fun _ _ => h.quiet rfl nofun nofun nofun
      | accept => exact h.quiet rfl (fun _ => rfl) nofun nofun
      | reserve attempt =>
          exact attempted_of (H := fun q => ReportAt _ q _ _)
            (fun _ => h.quiet rfl (fun _ => rfl) nofun nofun)
            (fun _ _ => h.quiet rfl (fun _ => rfl) nofun nofun)
            fun _ _ => h.quiet rfl nofun nofun nofun
      | showReserved nonce => exact h.quiet rfl (fun _ => rfl) nofun nofun
      | sign nonce attempt =>
          exact attempted_of (H := fun q => ReportAt _ q _ _)
            (fun _ => h.quiet rfl (fun _ => rfl) nofun nofun)
            (fun _ _ => h.quiet rfl (fun _ => rfl) nofun nofun)
            fun _ _ => h.quiet rfl nofun nofun fun _ => Or.inl rfl
      | showSigned nonce txn => exact h.quiet rfl (fun _ => rfl) nofun nofun
      | acquire nonce txn =>
          match r with
          | .ok (some stickyIndex) => exact h.quiet rfl (fun _ => rfl) nofun fun _ => Or.inl rfl
          | .ok none => exact h.quiet rfl nofun nofun fun _ => Or.inl rfl
          | .error err => exact h.quiet rfl nofun nofun fun _ => Or.inl rfl
      | broadcast recoveries nonce txn attempt stickyIndex =>
          obtain rfl : t' = t := hstep
          match r with
          | .ok outcome => exact h.quiet rfl nofun nofun fun _ => Or.inr ⟨rfl, hsame⟩
          | .error (.nonceTooLow a b) => exact h.tooLow hclean
          | .error (.missingProvider _) | .error (.internal _) | .error (.databaseError _)
          | .error (.invariant _) | .error (.rejected _) | .error (.unexpected _)
          | .error (.rpcError _) => exact h.resend nofun
      | showMismatch nonce nonceOnChain attemptedNonce =>
          exact h.quiet rfl nofun (fun _ => rfl) nofun
      | consume nonce nonceOnChain attempt =>
          exact h.resolve hstep
            (fun k => ⟨rfl, fun _ => rfl, nofun⟩) ⟨rfl, fun _ => rfl, rfl⟩
      | revert nonceOnChain attempt =>
          exact attempted_of (H := fun q => ReportAt _ q _ _)
            (fun _ => h.quiet rfl nofun (fun _ => rfl) nofun)
            (fun _ _ => h.quiet rfl nofun (fun _ => rfl) nofun)
            fun _ _ => h.quiet rfl nofun (fun _ => rfl) nofun
      | sync nonceOnChain attempt => exact h.sync hclean hstep fun err => ⟨_, rfl⟩
      | showSynced nonce =>
          obtain rfl : t' = t := hstep
          exact h.quiet rfl nofun (fun _ => rfl) fun _ => Or.inr ⟨rfl, hsame⟩
      | resign nonce attempt =>
          obtain rfl : t' = t := hstep
          exact attempted_of (H := fun q => ReportAt _ q _ _)
            (fun _ => h.quiet rfl nofun (fun _ => rfl) fun _ => Or.inr ⟨rfl, hsame⟩)
            (fun _ _ => h.quiet rfl nofun (fun _ => rfl) fun _ => Or.inr ⟨rfl, hsame⟩)
            fun _ _ => h.quiet rfl nofun nofun fun _ => Or.inr ⟨rfl, hsame⟩
      | showResigned nonce txn =>
          obtain rfl : t' = t := hstep
          exact h.quiet rfl nofun (fun _ => rfl) fun _ => Or.inr ⟨rfl, hsame⟩
      | showBroadcasted nonce txHash =>
          obtain rfl : t' = t := hstep
          exact h.quiet rfl nofun nofun fun _ => Or.inr ⟨rfl, hsame⟩
      | validate nonce txHash stickyIndex =>
          obtain rfl : t' = t := hstep
          match r with
          | .error (.database _) | .error (.internal _) | .ok (.included _ _)
          | .ok .timeout => exact h.quiet rfl nofun nofun nofun
          | .error (.rpc _ _) | .error (.reverted _) | .error (.rpcError _)
          | .ok .notIncluded => exact h.quiet rfl nofun nofun fun _ => Or.inr ⟨rfl, hsame⟩
      | finalize nonce txHash attempt =>
          exact h.resolve hstep
            (fun k => ⟨rfl, nofun, nofun⟩) ⟨rfl, nofun, rfl⟩
      | showConfirmed nonce txHash => exact h.quiet rfl nofun nofun nofun
      | retire nonce attempt =>
          exact h.resolve hstep (fun k => ⟨rfl, nofun, nofun⟩)
            ⟨rfl, nofun, rfl⟩
      | showTimedOut nonce => exact h.quiet rfl nofun nofun nofun
      | release nonce status attempt =>
          exact h.resolve hstep
            (fun k => ⟨rfl, nofun, fun _ => rfl⟩) ⟨rfl, nofun, rfl⟩
      | fail status => exact h.quiet rfl nofun nofun nofun

/-! ## Releases -/

/-- **A release spares the nonces reported too low.**  In every run in which one nonce at most
is reported and every sync is called cleanly, the row that a release hits holds no reported
nonce, whatever others have done to the table until then. -/
theorem release_spares_reported (ctx : PipelineContext) {t₀ t : NonceTable} {log : NonceLog}
    {next : Except LocalError Unit → PipelineProg Unit}
    (hreach : (runPipeline ctx).Reaches (nonceContract ctx.executionId) t₀ log
      (.call (.resolve ctx.executionId .released) next) t)
    (hclean : RecoversCleanly log) : ReleaseSpares ctx.executionId log t := by
  have hspares : t.Spares ctx.executionId (NonceLog.reported log) :=
    (hreach.requires ((reportOutline ctx).wp_runPipeline fun _ =>
      ⟨fun _ => rfl, nofun, nofun⟩)).2 hclean rfl
  intro r hlatest
  obtain ⟨hr, howner, hstate⟩ := NonceTable.latestReserved_eq_some hlatest
  exact hspares r hr howner hstate

/-! ## Two runs -/

/-- The nonce engine without faults, at time zero, and given replies of the others. -/
def nonceReply (reply : (c : PipelineCall) → Option c.Reply) :
    (c : PipelineCall) → NonceTable → Option (c.Reply × NonceTable)
  | .reserve chainId fromAddress e, t =>
    some ((handleReserve chainId fromAddress e).eval (NonceTable.answer 0) t)
  | .resolve e s, t => some ((handleResolve e s).eval (NonceTable.answer 0) t)
  | .sync chainId fromAddress e nonceOnChain, t =>
    some ((handleSync chainId fromAddress e nonceOnChain).eval (NonceTable.answer 0) t)
  | c, t => (reply c).map fun r => (r, t)

theorem NonceTable.statement_answer (e : ExecutionId) (q : NonceQuery) (t : NonceTable) :
    Statement e q t (answer 0 q t).1 (answer 0 q t).2 := by
  refine ⟨0, (answer 0 q t).2, ?_, .refl _ e _⟩
  unfold answer
  cases hexecute : t.execute 0 q with
  | ok result => exact .done rfl
  | error err => exact .failed err

theorem nonceStep_of_nonceReply {reply : (c : PipelineCall) → Option c.Reply} :
    ∀ c t r t', nonceReply reply c t = some (r, t') → c.NonceStep t r t' := by
  have hserved : ∀ {T : Type} {e : ExecutionId} {t t' : NonceTable} {r : Except LocalError T}
      {handler : Prog NonceQuery NonceQuery.Reply (Except LocalError T)},
      some (handler.eval (NonceTable.answer 0) t) = some (r, t') →
        NonceTable.Served e handler t r t' := by
    intro T e t t' r handler h
    have hrun := runs_eval (NonceTable.statement_answer e) handler t
    rw [Option.some.inj h] at hrun
    exact .replied hrun
  intro c t r t' h
  cases c with
  | reserve | resolve | sync => exact hserved h
  | _ =>
      obtain ⟨_, _, h⟩ := Option.map_eq_some_iff.mp h
      cases h
      rfl

/-- The execution whose nonce is about to be released. -/
def releasing : PipelineProg Unit → Option ExecutionId
  | .call (.resolve e .released) _ => some e
  | _ => none

theorem releasing_eq_some {p : PipelineProg Unit} {e : ExecutionId} (h : releasing p = some e) :
    ∃ next, p = .call (.resolve e .released) next := by
  unfold releasing at h
  split at h
  · cases h
    exact ⟨_, rfl⟩
  · cases h

/-- A node that finds every nonce too low. -/
def tooLowReply : (c : PipelineCall) → Option c.Reply
  | .sign _ _ _ txn => some (.ok ⟨[2], txn.nonce⟩)
  | .broadcast _ _ _ txn _ =>
    some (.error (.nonceTooLow ⟨txn.withNonce.value + 1⟩ txn.withNonce))
  | .revert _ => some (.ok ())
  | c => smoothReply c

/-- The second nonce that is reported too low is released. -/
theorem release_recycles :
    ¬ ∀ log next t, (runPipeline samplePipeline).Reaches
        (nonceContract samplePipeline.executionId) .empty log
        (.call (.resolve samplePipeline.executionId .released) next) t →
      ReleaseSpares samplePipeline.executionId log t := by
  intro hclaim
  have hrun : ((runPipeline samplePipeline).follow (nonceReply tooLowReply) 16 .empty).map
      (fun run => (releasing run.2.1, (run.2.2.latestReserved ⟨1⟩).map NonceRow.nonce,
        NonceLog.reported run.1)) = some (some ⟨1⟩, some 1, [⟨1⟩, ⟨0⟩]) := by decide +kernel
  obtain ⟨log, p, t, hreach, hend⟩ :=
    exists_reaches (E := nonceContract samplePipeline.executionId) nonceStep_of_nonceReply hrun
  simp only [Prod.mk.injEq] at hend
  obtain ⟨hreleasing, hlatest, hreported⟩ := hend
  obtain ⟨next, rfl⟩ := releasing_eq_some hreleasing
  obtain ⟨r, hr, hnonce⟩ := Option.map_eq_some_iff.mp hlatest
  exact hclaim log next t hreach r hr ⟨1⟩ (by simp [hreported]) hnonce

/-- A node that finds the nonce zero too low, and has lost its provider afterwards. -/
def recoveredReply : (c : PipelineCall) → Option c.Reply
  | .broadcast chainId _ _ txn _ =>
    if txn.withNonce = ⟨0⟩ then some (.error (.nonceTooLow ⟨1⟩ ⟨0⟩))
    else some (.error (.missingProvider chainId))
  | c => tooLowReply c

/-- After a clean recovery the release hits the nonce of the sync. -/
theorem release_spares_recovered :
    ∃ log next t, (runPipeline samplePipeline).Reaches
        (nonceContract samplePipeline.executionId) .empty log
        (.call (.resolve samplePipeline.executionId .released) next) t
      ∧ NonceLog.reported log = [⟨0⟩] ∧ ReleaseSpares samplePipeline.executionId log t := by
  have hrun : ((runPipeline samplePipeline).follow (nonceReply recoveredReply) 16 .empty).map
      (fun run => (releasing run.2.1, NonceLog.reported run.1,
        decide (RecoversCleanly run.1))) = some (some ⟨1⟩, [⟨0⟩], true) := by decide +kernel
  obtain ⟨log, p, t, hreach, hend⟩ :=
    exists_reaches (E := nonceContract samplePipeline.executionId) nonceStep_of_nonceReply hrun
  simp only [Prod.mk.injEq] at hend
  obtain ⟨hreleasing, hreported, hclean⟩ := hend
  obtain ⟨next, rfl⟩ := releasing_eq_some hreleasing
  exact ⟨log, next, t, hreach, hreported,
    release_spares_reported samplePipeline hreach (of_decide_eq_true hclean)⟩

end Lobby
