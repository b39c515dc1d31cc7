/-
# The outline of a pipeline in the system

What holds of the world at every phase of a pipeline.  The part about the nonces is fixed
(`Phase.nonces`): the execution holds the nonce it was granted until it resolves it, and
signs it into what it sends.  The part about the view is a parameter: any family of
assertions on views that the calls keep (`ViewInvariant`) holds along every run
(`wp_pipeline`).
-/
import Lobby.EngineSpecs
import Lobby.PipelinePhases

namespace Lobby

open Revisions Interaction Prog Phase PipelineContext

/-! ## Views along the phases -/

/-- What a call does to the view of its execution. -/
def ViewAfter (admits : List Sent → Sent → Prop) :
    (c : PipelineCall) → View → c.Reply → View → Prop
  | .setStatus _ status, v, _, v' => v' = { v with status := some status }
  | .broadcast _ _ _ txn _, v, r, v' => Broadcasts admits txn v r v'
  | .sign _ _ _ txn, v, r, v' =>
      v' = v ∧ ∀ signed, r = .ok signed → signed.withNonce = txn.nonce
  | _, v, _, v' => v' = v

/-- Assertions on views that every call of the pipeline keeps. -/
def ViewInvariant (admits : List Sent → Sent → Prop) (ctx : PipelineContext)
    (V : Phase → View → Prop) : Prop :=
  ∀ {p c next v r v'}, Calls ctx p c next → V p v → ViewAfter admits c v r v' → V (next r) v'

/-- Every answer of the network is admitted. -/
theorem admits_true (K : RunConditions) (e : ExecutionId) : Admits K e fun _ _ => True := by
  intro w choice chainId stickyIndex txn revision reply _ _
  exact trivial

/-- Nothing is said of the view. -/
theorem viewInvariant_true (admits : List Sent → Sent → Prop) (ctx : PipelineContext) :
    ViewInvariant admits ctx fun _ _ => True := by
  intro p c next v r v' _ _ _
  exact trivial

/-! ## The nonces along the phases -/

/-- How a pipeline ended: with which last status, and what of its nonce. -/
inductive EndedAs (V : Phase → View → Prop) (e : ExecutionId) (w : World) : Prop where
  | confirmed (nonce txHash v) (hV : V (.confirmed nonce txHash) v)
      (hview : w.view e
        = { v with status := some (.confirmedOnChain (lowerHex txHash.bytes)) })
      (hsettled : w.Settled e .finalized nonce.value.toNat)
  | timedOut (nonce v) (hV : V (.timedOut nonce) v)
      (hview : w.view e
        = { v with
            status := some (.validatorTimedOut "validator timed out, wait for confirmation") })
      (hsettled : w.Settled e .consumed nonce.value.toNat)
  | failed (status v) (hV : V (.failing status) v)
      (hview : w.view e = { v with status := some status })

/-- What holds of the nonces of the execution at a phase. -/
def Phase.nonces (V : Phase → View → Prop) (e : ExecutionId) (s : Submission) :
    Phase → World → Prop
  | .registering _, w | .registered, w | .reserving _, w => w.Plain e s
  | .reserved nonce, w | .signing nonce _, w => w.Plain e s ∧ w.Granted e nonce.value.toNat
  | .signed nonce txn, w | .acquiring nonce txn, w | .sending _ nonce txn _, w =>
      (w.Plain e s ∧ w.Granted e nonce.value.toNat) ∧ txn.withNonce = nonce
  | .mismatch _ _ _, w | .consuming _ _ _, w | .reverting _ _, w | .syncing _ _, w =>
      w.Plain e s
  | .synced nonce, w | .resigning nonce _, w => w.Plain e s ∧ w.Granted e nonce.value.toNat
  | .resigned nonce txn, w =>
      (w.Plain e s ∧ w.Granted e nonce.value.toNat) ∧ txn.withNonce = nonce
  | .broadcasted nonce _, w | .validating nonce _, w => w.Granted e nonce.value.toNat
  | .finalizing nonce _ _, w | .confirmed nonce _, w =>
      w.Settled e .finalized nonce.value.toNat
  | .retiring nonce _, w | .timedOut nonce, w => w.Settled e .consumed nonce.value.toNat
  | .releasing _ _ _, _ | .failing _, _ => True
  | .ended, w => EndedAs V e w

/-- The assertion of a phase. -/
def along (V : Phase → View → Prop) (e : ExecutionId) (s : Submission) (p : Phase)
    (w : World) : Prop :=
  V p (w.view e) ∧ p.nonces V e s w

section

variable {V : Phase → View → Prop} {e : ExecutionId} {s : Submission} {w w' : World}

theorem plain_granted_stable (n : ℕ) :
    NonceStable e fun w => w.Plain e s ∧ w.Granted e n :=
  fun _ _ hw hrely =>
    ⟨plain_stable e s _ _ hw.1 hrely, granted_stable e n _ _ hw.2 hrely⟩

theorem plain_signed_stable (n : ℕ) (p : Prop) :
    NonceStable e fun w => (w.Plain e s ∧ w.Granted e n) ∧ p :=
  fun _ _ hw hrely => ⟨plain_granted_stable n _ _ hw.1 hrely, hw.2⟩

theorem settled_finalized_stable (n : ℕ) : NonceStable e fun w => w.Settled e .finalized n :=
  settled_stable (fun h => nomatch h) (fun h => nomatch h)

theorem settled_consumed_stable (n : ℕ) : NonceStable e fun w => w.Settled e .consumed n :=
  settled_stable (fun h => nomatch h) (fun h => nomatch h)

/-- Before its end, what a phase says of the nonces is about the nonces only. -/
theorem nonces_stable (p : Phase) (hp : p ≠ .ended) : NonceStable e (p.nonces V e s) := by
  cases p with
  | registering | registered | reserving => exact plain_stable e s
  | reserved nonce | signing nonce => exact plain_granted_stable nonce.value.toNat
  | signed nonce txn | acquiring nonce txn | sending _ nonce txn =>
      exact plain_signed_stable nonce.value.toNat (txn.withNonce = nonce)
  | mismatch | consuming | reverting | syncing => exact plain_stable e s
  | synced nonce | resigning nonce => exact plain_granted_stable nonce.value.toNat
  | resigned nonce txn => exact plain_signed_stable nonce.value.toNat (txn.withNonce = nonce)
  | broadcasted nonce | validating nonce => exact granted_stable e nonce.value.toNat
  | finalizing nonce | confirmed nonce => exact settled_finalized_stable nonce.value.toNat
  | retiring nonce | timedOut nonce => exact settled_consumed_stable nonce.value.toNat
  | releasing | failing => exact fun _ _ hw _ => hw
  | ended => exact absurd rfl hp

theorem endedAs_stable : Stable e (EndedAs V e) := by
  intro w w' hw hrely
  cases hw with
  | confirmed nonce txHash v hV hview hsettled =>
      exact .confirmed nonce txHash v hV (hrely.view.trans hview)
        (settled_finalized_stable _ _ _ hsettled hrely.toNonceRely)
  | timedOut nonce v hV hview hsettled =>
      exact .timedOut nonce v hV (hrely.view.trans hview)
        (settled_consumed_stable _ _ _ hsettled hrely.toNonceRely)
  | failed status v hV hview => exact .failed status v hV (hrely.view.trans hview)

theorem along_stable (p : Phase) : Stable e (along V e s p) := by
  intro w w' hw hrely
  refine ⟨by rw [hrely.view]; exact hw.1, ?_⟩
  by_cases hp : p = .ended
  · subst hp
    exact endedAs_stable _ _ hw.2 hrely
  · exact nonces_stable p hp _ _ hw.2 hrely.toNonceRely

/-- The phase after an attempt, whose error leads back to the stage or gives it up. -/
theorem nonces_attempted {T E : Type} {maxTotal attempt : ℕ} {stage : ℕ → Phase}
    {onOk : T → Phase} {onError : E → Phase} {r : Except (RetryDecision E) T}
    (hstage : ∀ k, (stage k).nonces V e s w)
    (hok : ∀ value, r = .ok value → (onOk value).nonces V e s w)
    (herror : ∀ err, (onError err).nonces V e s w) :
    (attempted maxTotal stage attempt onOk onError r).nonces V e s w :=
  attempted_of (H := fun p => p.nonces V e s w) hstage hok fun err _ => herror err

/-- A failed round leaves at most the rows of the execution as they were. -/
theorem nonces_afterBroadcastError {recoveries : ℕ} {nonce : TxNonce} (err : BroadcastError)
    (hplain : w.Plain e s) : (afterBroadcastError recoveries nonce err).nonces V e s w := by
  cases err with
  | nonceTooLow nonceOnChain attemptedNonce =>
      exact afterBroadcastError_of (H := fun p => p.nonces V e s w) (fun _ => trivial)
        fun _ => hplain
  | _ => exact trivial

/-- Resolving a nonce settles it. -/
theorem settled_resolve {state : NonceState} {n m : ℕ} {t' : NonceTable}
    (hstate : state ≠ .reserved) (hw : w.Settled e state n)
    (h : w.nonces.resolveUpdate w.now e state = .ok (m, t')) :
    ({ w with nonces := t' } : World).Settled e state n := by
  rcases hw with (hswept | hholds) | hhas
  · exact Or.inl (Or.inl hswept)
  · exact Or.inr (NonceTable.has_resolve hholds h)
  · exact Or.inr (NonceTable.has_resolve_of_has hstate hhas h)

theorem retryAll_eq_ok {T E : Type} {r : Except E T} {value : T}
    (h : retryAll r = .ok value) : r = .ok value := by
  cases r with
  | ok v => cases h; rfl
  | error err => cases h

end

/-! ## The outline -/

section

variable {d : Deployment} {K : RunConditions} {permits : List Sent → SignedTransaction → Prop}
  {admits : List Sent → Sent → Prop} {V : Phase → View → Prop} {e : ExecutionId}
  {s : Submission}

/-- A call that changes neither the view nor the nonces. -/
theorem outline_quiet {p : Phase} {c : PipelineCall} {next : c.Reply → Phase} {w : World}
    (hV : ViewInvariant admits (d.context e s) V) (hcall : Calls (d.context e s) p c next)
    (hview : ∀ v r, ViewAfter admits c v r v)
    (hrule : ∀ {P : World → Prop}, Stable e P → P w →
      wp (d.contract K permits e) (d.handle c) (fun _ => P) w)
    (hnonces : ∀ r w, p.nonces V e s w → (next r).nonces V e s w)
    (hw : along V e s p w) :
    wp (d.contract K permits e) (d.handle c) (fun r w' => along V e s (next r) w') w := by
  refine wp_mono (hrule (along_stable p) hw) fun r w' hw' => ?_
  exact ⟨hV hcall hw'.1 (hview _ r), hnonces r w' hw'.2⟩

/-- A change of the status before the last one. -/
theorem outline_setStatus {p p' : Phase} {status : PipelineStatus} {w : World}
    (hs : d.submission e = some s) (hV : ViewInvariant admits (d.context e s) V)
    (hcall : Calls (d.context e s) p (.setStatus e status) fun _ => p') (hp : p ≠ .ended)
    (hnonces : ∀ v w, V p v → w.view e = { v with status := some status } →
      p.nonces V e s w → p'.nonces V e s w)
    (hw : along V e s p w) :
    wp (d.contract K permits e) (d.handle (.setStatus e status))
      (fun _ w' => along V e s p' w') w := by
  refine wp_mono (wp_setStatus hs (nonces_stable p hp) ⟨rfl, hw.2⟩) fun _ w' hw' => ?_
  refine ⟨?_, hnonces _ w' hw.1 hw'.1 hw'.2⟩
  rw [hw'.1]
  exact hV (r := ()) hcall hw.1 rfl

/-- **The outline holds along every run of the pipeline.** -/
theorem outline_along (hs : d.submission e = some s)
    (hadmits : Admits K e admits) (hV : ViewInvariant admits (d.context e s) V)
    (hpermits : ∀ {recoveries nonce txn attempt v},
      V (.sending recoveries nonce txn attempt) v → permits v.sent txn) :
    Outline ((d.contract K permits e).answered d.handle) (d.context e s) (along V e s) where
  stable hw hrely := along_stable _ _ _ hw hrely
  call := by
    intro p c next w hcall hw
    have hcall' := hcall
    refine answered_call ?_
    cases hcall with
    | genRange | sleep | telemetry | unreachable =>
        refine wp_mono (wp_outside hs (along_stable p) rfl hw) fun r w' hw' => hw'
    | register attempt =>
        exact outline_quiet hV hcall' (fun _ _ => rfl) (fun hP hw => wp_outside hs hP rfl hw)
          (fun r w hw => nonces_attempted (fun _ => hw) (fun _ _ => hw) fun _ => trivial) hw
    | accept =>
        exact outline_setStatus hs hV hcall' (fun h => nomatch h) (fun _ _ _ _ hw => hw) hw
    | reserve attempt =>
        -- a failed attempt leaves the rows plain, so the next one starts as this one did
        refine wp_mono (wp_reserve hs hw) fun r w' hw' => ?_
        refine ⟨hV hcall' hw'.1.1 rfl, nonces_attempted (fun _ => hw'.1.2) ?_ fun _ => trivial⟩
        exact fun nonce hok => ⟨hw'.1.2, hw'.2 nonce (retryAll_eq_ok hok)⟩
    | showReserved nonce =>
        exact outline_setStatus hs hV hcall' (fun h => nomatch h) (fun _ _ _ _ hw => hw) hw
    | sign nonce attempt =>
        refine wp_mono (wp_sign hs (along_stable (.signing nonce attempt)) hw) fun r w' hw' => ?_
        refine ⟨hV hcall' hw'.1.1 ⟨rfl, hw'.2⟩, nonces_attempted (fun _ => hw'.1.2) ?_ ?_⟩
        · exact fun signed hok => ⟨hw'.1.2, hw'.2 signed (retryAll_eq_ok hok)⟩
        · exact fun _ => trivial
    | showSigned nonce txn =>
        exact outline_setStatus hs hV hcall' (fun h => nomatch h) (fun _ _ _ _ hw => hw) hw
    | acquire nonce txn =>
        refine outline_quiet hV hcall' (fun _ _ => rfl)
          (fun hP hw => wp_outside hs hP rfl hw) (fun r w hw => ?_) hw
        match r with
        | .ok (some _) => exact hw
        | .ok none => exact trivial
        | .error err => exact trivial
    | broadcast recoveries nonce txn attempt stickyIndex =>
        have hstable : NonceStable e ((Phase.sending recoveries nonce txn attempt).nonces V e s) :=
          nonces_stable _ fun h => nomatch h
        refine wp_mono (wp_broadcast hs hstable hadmits (fun w hw => ⟨hw.1.1, ?_⟩)
          (hpermits hw.1) ⟨rfl, hw.2⟩) fun r w' hw' => ?_
        · rw [hw.2]
          exact hw.1.2
        · refine ⟨hV hcall' hw.1 hw'.1, nonces_attempted (fun _ => hw'.2) ?_ fun err => ?_⟩
          · exact fun _ _ => hw'.2.1.2
          · exact nonces_afterBroadcastError err hw'.2.1.1
    | showMismatch nonce nonceOnChain attemptedNonce =>
        exact outline_setStatus hs hV hcall' (fun h => nomatch h) (fun _ _ _ _ hw => hw) hw
    | consume nonce nonceOnChain attempt =>
        -- whether the nonce was consumed does not matter: `sync` grants another one
        refine wp_mono (wp_resolve hs (stable_view (V := V _) (plain_stable e s))
          (fun w n t' hw h => ⟨hw.1, NonceTable.plain_resolve rfl hw.2 h⟩) hw)
          fun r w' hw' => ?_
        exact ⟨hV hcall' hw'.1 rfl,
          nonces_attempted (fun _ => hw'.2) (fun _ _ => hw'.2) fun _ => hw'.2⟩
    | revert nonceOnChain attempt =>
        exact outline_quiet hV hcall' (fun _ _ => rfl) (fun hP hw => wp_revert hs hP hw)
          (fun r w hw => nonces_attempted (fun _ => hw) (fun _ _ => hw) fun _ => hw) hw
    | sync nonceOnChain attempt =>
        refine wp_mono (wp_sync hs hw) fun r w' hw' => ?_
        refine ⟨hV hcall' hw'.1.1 rfl, nonces_attempted (fun _ => hw'.1.2) ?_ fun _ => trivial⟩
        exact fun nonce hok => ⟨hw'.1.2, hw'.2 nonce (retryAll_eq_ok hok)⟩
    | showSynced nonce =>
        exact outline_setStatus hs hV hcall' (fun h => nomatch h) (fun _ _ _ _ hw => hw) hw
    | resign nonce attempt =>
        refine wp_mono (wp_sign hs (along_stable (.resigning nonce attempt)) hw)
          fun r w' hw' => ?_
        refine ⟨hV hcall' hw'.1.1 ⟨rfl, hw'.2⟩, nonces_attempted (fun _ => hw'.1.2) ?_ ?_⟩
        · exact fun signed hok => ⟨hw'.1.2, hw'.2 signed (retryAll_eq_ok hok)⟩
        · exact fun _ => trivial
    | showResigned nonce txn =>
        exact outline_setStatus hs hV hcall' (fun h => nomatch h) (fun _ _ _ _ hw => hw) hw
    | showBroadcasted nonce txHash =>
        exact outline_setStatus hs hV hcall' (fun h => nomatch h) (fun _ _ _ _ hw => hw) hw
    | validate nonce txHash stickyIndex =>
        refine outline_quiet hV hcall' (fun _ _ => rfl)
          (fun hP hw => wp_validate hs hP hw) (fun r w hw => ?_) hw
        -- only the verdicts after which the nonce is settled say anything of it
        match r with
        | .ok (.included _ _) => exact Or.inl hw
        | .ok .timeout => exact Or.inl hw
        | .ok .notIncluded => exact trivial
        | .error err => cases err <;> exact trivial
    | finalize nonce txHash attempt =>
        -- a statement whose acknowledgement was lost has settled the nonce as well
        refine wp_mono (wp_resolve hs (along_stable (.finalizing nonce txHash attempt)) ?_ hw)
          fun r w' hw' => ?_
        · exact fun w n t' hw h => ⟨hw.1, settled_resolve (fun h => nomatch h) hw.2 h⟩
        · exact ⟨hV hcall' hw'.1 rfl,
            nonces_attempted (fun _ => hw'.2) (fun _ _ => hw'.2) fun _ => hw'.2⟩
    | showConfirmed nonce txHash =>
        exact outline_setStatus hs hV hcall' (fun h => nomatch h)
          (fun v w hv hview hw => .confirmed nonce txHash v hv hview hw) hw
    | retire nonce attempt =>
        refine wp_mono (wp_resolve hs (along_stable (.retiring nonce attempt)) ?_ hw)
          fun r w' hw' => ?_
        · exact fun w n t' hw h => ⟨hw.1, settled_resolve (fun h => nomatch h) hw.2 h⟩
        · exact ⟨hV hcall' hw'.1 rfl,
            nonces_attempted (fun _ => hw'.2) (fun _ _ => hw'.2) fun _ => hw'.2⟩
    | showTimedOut nonce =>
        exact outline_setStatus hs hV hcall' (fun h => nomatch h)
          (fun v w hv hview hw => .timedOut nonce v hv hview hw) hw
    | release nonce status attempt =>
        refine wp_mono (wp_resolve hs (along_stable (.releasing nonce status attempt))
          (fun w n t' hw _ => hw) hw) fun r w' hw' => ?_
        exact ⟨hV hcall' hw'.1 rfl,
          nonces_attempted (fun _ => trivial) (fun _ _ => trivial) fun _ => trivial⟩
    | fail status =>
        exact outline_setStatus hs hV hcall' (fun h => nomatch h)
          (fun v w hv hview _ => .failed status v hv hview) hw

/-- The pipeline of a submission keeps its contract and ends in the last phase. -/
theorem wp_pipeline {w : World} (hs : d.submission e = some s)
    (hadmits : Admits K e admits) (hV : ViewInvariant admits (d.context e s) V)
    (hpermits : ∀ {recoveries nonce txn attempt v},
      V (.sending recoveries nonce txn attempt) v → permits v.sent txn)
    (hstart : V (.registering 1) (w.view e)) (hplain : w.Plain e s) :
    wp (d.contract K permits e) (d.pipeline e) (fun _ => along V e s .ended) w := by
  rw [Deployment.pipeline, hs]
  exact wp_interp_answered
    ((outline_along hs hadmits hV hpermits).wp_runPipeline ⟨hstart, hplain⟩)

/-- Nothing was sent for a submitted execution, and it has no broadcast row. -/
theorem World.Fresh.view {w : World} (hw : w.Fresh d) (hs : d.submission e = some s) :
    w.view e = { sent := [], requests := [], status := w.statuses e } := by
  refine View.ext ?_ ?_ rfl
  · simp [World.view, World.sentOf, hw.sent]
  · refine List.filter_eq_nil_iff.mpr fun r hr howner => ?_
    have howner : r.executionId = e := by simpa using howner
    have hnone := hw.broadcasts r hr
    rw [howner, hs] at hnone
    cases hnone

theorem World.Fresh.plain {w : World} (hw : w.Fresh d) (hs : d.submission e = some s) :
    w.Plain e s := by
  intro r hr howner _
  have hnone := hw.nonces r hr
  rw [howner, hs] at hnone
  cases hnone

/-- **Every reachable configuration is safe**: the invariant holds and every pipeline is in
its outline. -/
theorem safe_of_reachable {I : World → Prop} {w₀ : World}
    {st : Config ExecutionId EngineCall EngineCall.Reply World Unit}
    (hM : Machine.Compatible machine K (d.contract K permits) I) (hI : I w₀)
    (hfresh : w₀.Fresh d) (hadmits : ∀ e, Admits K e admits)
    (hV : ∀ ctx, ViewInvariant admits ctx V)
    (hpermits : ∀ {recoveries nonce txn attempt v},
      V (.sending recoveries nonce txn attempt) v → permits v.sent txn)
    (hstart : ∀ status, V (.registering 1) { sent := [], requests := [], status := status })
    (hreach : machine.Reachable K (d.start w₀) st) :
    Machine.Safe (d.contract K permits) I
      (fun e _ w => ∀ s, d.submission e = some s → along V e s .ended w) st := by
  refine Machine.reachable_safe hM ⟨hI, fun e => ?_⟩ hreach
  show wp (d.contract K permits e) (d.pipeline e) _ w₀
  cases hs : d.submission e with
  | none =>
      rw [Deployment.pipeline, hs]
      exact wp_ret fun _ _ s' hs' => nomatch hs.symm.trans hs'
  | some s =>
      refine wp_mono (wp_pipeline hs (hadmits e) (hV _) hpermits ?_ (hfresh.plain hs)) ?_
      · rw [hfresh.view hs]
        exact hstart _
      · intro _ w hw s' hs'
        obtain rfl : s = s' := Option.some.inj (hs.symm.trans hs')
        exact hw

end

end Lobby
