/-
# What is left of the nonce when a pipeline has returned

`finalise_nonce` and `consume_nonce` log that all their attempts failed and go on, so the
status is shown whether or not the nonce was resolved.  What the status does say about the
nonce of the transaction that was sent last (`settled_of_ended`): a row of the execution has
it in the state of the status, or every attempt since the validator's verdict has failed, or
the sweeper had taken the nonce back before the attempt that the database answered.

The attempts are counted in the log of the execution's calls (`Machine.Traced`), from the
last verdict on.
-/
import Lobby.PipelineRun
import Lobby.RunLog

namespace Lobby

open Interaction Prog Phase PipelineContext

/-- The transaction an execution handed to the network last. -/
def View.lastSent (v : View) : Option SignedTransaction := v.sent.head?.map Sent.txn

/-- The last transaction carries the nonce. -/
def View.SentWith (v : View) (nonce : TxNonce) : Prop :=
  ∃ txn, v.lastSent = some txn ∧ txn.withNonce = nonce

/-! ## The outline -/

/-- A status that records a failure. -/
def PipelineStatus.IsFailure (status : PipelineStatus) : Prop :=
  ∃ stage reason, status = .failed stage reason

/-- Along the phases: no submitted row of the execution is older than the transaction it is
about to send. -/
def sentAlong : Phase → View → Prop
  | .registering _, v | .registered, v | .reserving _, v | .reserved _, v => v.NoSubmitted
  | .signing _ _, v => v.NoSubmitted
  | .signed nonce txn, v | .acquiring nonce txn, v | .resigned nonce txn, v =>
      v.NoSubmitted ∧ txn.withNonce = nonce
  | .sending _ nonce txn _, v =>
      (v.NoSubmitted ∨ v.lastSent = some txn) ∧ txn.withNonce = nonce
  | .mismatch _ _ _, v | .consuming _ _ _, v | .reverting _ _, v | .syncing _ _, v
  | .synced _, v | .resigning _ _, v => v.NoSubmitted
  | .broadcasted nonce _, v | .validating nonce _, v | .finalizing nonce _ _, v
  | .confirmed nonce _, v | .retiring nonce _, v | .timedOut nonce, v => v.SentWith nonce
  | .releasing _ status _, _ | .failing status, _ => status.IsFailure
  | .ended, _ => True

section

variable {admits : List Sent → Sent → Prop} {v v' : View} {txn : SignedTransaction}

/-- After a broadcast that failed. -/
theorem sent_of_error {r : Except BroadcastError BroadcastOutcome}
    (hv : v.NoSubmitted ∨ v.lastSent = some txn) (h : Broadcasts admits txn v r v') :
    v'.NoSubmitted ∨ v'.lastSent = some txn := by
  cases h with
  | unsent hsent _ hnone =>
      refine hv.imp hnone fun hlast => ?_
      rwa [View.lastSent, hsent]
  | sent x hsent _ htxn =>
      refine Or.inr ?_
      rw [View.lastSent, hsent, List.head?_cons, Option.map_some, htxn]

/-- After one that succeeded. -/
theorem sent_of_ok {outcome : BroadcastOutcome} (hv : v.NoSubmitted ∨ v.lastSent = some txn)
    (h : Broadcasts admits txn v (.ok outcome) v') : v'.lastSent = some txn := by
  cases h with
  | unsent hsent _ _ hok =>
      rw [View.lastSent, hsent]
      exact hv.resolve_left (hok outcome rfl)
  | sent x hsent _ htxn => rw [View.lastSent, hsent, List.head?_cons, Option.map_some, htxn]

/-- A nonce mismatch leaves no submitted row. -/
theorem noSubmitted_of_nonceTooLow {m n : TxNonce}
    (h : Broadcasts admits txn v (.error (.nonceTooLow m n)) v') : v'.NoSubmitted := by
  cases h with
  | unsent _ _ _ _ hnonce => exact absurd rfl (hnonce m n)
  | sent _ _ _ _ _ hnonce => exact (hnonce m n rfl).2

end

theorem isFailure_status (err : CortexError) : err.status.IsFailure := ⟨_, _, rfl⟩

/-- Every call of the pipeline keeps it. -/
theorem sentAlong_invariant (admits : List Sent → Sent → Prop) (ctx : PipelineContext) :
    ViewInvariant admits ctx sentAlong := by
  intro p c next v r v' hcall hv hafter
  cases hcall with
  | genRange | sleep | telemetry | unreachable =>
      cases hafter
      exact hv
  | accept | showReserved | showSigned | showMismatch | showSynced | showBroadcasted =>
      cases hafter
      exact hv
  | showConfirmed | showTimedOut | fail => exact trivial
  | register | reserve | sync =>
      cases hafter
      exact attempted_of (H := fun p => sentAlong p _) (fun _ => hv) (fun _ _ => hv)
        fun _ _ => isFailure_status _
  | sign nonce attempt =>
      obtain ⟨rfl, hnonce⟩ := hafter
      refine attempted_of (H := fun p => sentAlong p _) (fun _ => hv) (fun signed hok => ?_)
        fun _ _ => isFailure_status _
      exact ⟨hv, hnonce signed (retryAll_eq_ok hok)⟩
  | resign nonce attempt =>
      obtain ⟨rfl, hnonce⟩ := hafter
      refine attempted_of (H := fun p => sentAlong p _) (fun _ => hv) (fun signed hok => ?_)
        fun _ _ => isFailure_status _
      exact ⟨hv, hnonce signed (retryAll_eq_ok hok)⟩
  | consume | revert =>
      cases hafter
      exact attempted_of (H := fun p => sentAlong p _) (fun _ => hv) (fun _ _ => hv)
        fun _ _ => hv
  | showResigned nonce txn =>
      cases hafter
      exact ⟨Or.inl hv.1, hv.2⟩
  | acquire nonce txn =>
      cases hafter
      rcases r with err | _ | stickyIndex
      · exact isFailure_status _
      · exact isFailure_status _
      · exact ⟨Or.inl hv.1, hv.2⟩
  | broadcast recoveries nonce txn attempt stickyIndex =>
      refine attempted_of (H := fun p => sentAlong p v')
        (fun _ => ⟨sent_of_error hv.1 hafter, hv.2⟩) (fun outcome hok => ?_) fun err herr => ?_
      · rw [PipelineContext.broadcastDecision_ok hok] at hafter
        exact ⟨txn, sent_of_ok hv.1 hafter, hv.2⟩
      · rw [PipelineContext.broadcastDecision_error herr] at hafter
        cases err with
        | nonceTooLow m n =>
            exact afterBroadcastError_of (H := fun p => sentAlong p v')
              (fun _ => isFailure_status _) fun _ => noSubmitted_of_nonceTooLow hafter
        | _ => exact isFailure_status _
  | validate nonce txHash =>
      -- the verdict does not look at what was sent
      cases hafter
      rcases r with err | result
      · cases err <;> exact isFailure_status _
      · cases result with
        | included | timeout => exact hv
        | notIncluded => exact ⟨_, _, rfl⟩
  | finalize | retire =>
      cases hafter
      exact attempted_of (H := fun p => sentAlong p _) (fun _ => hv) (fun _ _ => hv)
        fun _ _ => hv
  | release =>
      cases hafter
      exact attempted_of (H := fun p => sentAlong p _) (fun _ => hv) (fun _ _ => hv)
        fun _ _ => hv

/-! ## The attempts to resolve a nonce -/

/-- The calls of a pipeline and of the handlers that answer it, the latest first. -/
abbrev EngineLog : Type := List (Entry EngineCall EngineCall.Reply World)

/-- The validator's verdict comes back. -/
def EngineCall.isVerdict : EngineCall → Bool
  | .collect (.validate _ _ _ _) => true
  | _ => false

/-- An attempt to bring the nonce into a state begins. -/
def EngineCall.isAttempt (state : NonceState) : EngineCall → Bool
  | .deliver (.resolve _ state') => decide (state' = state)
  | _ => false

/-- The database answers the `UPDATE` of an attempt. -/
def isAnswered (state : NonceState) : Entry EngineCall EngineCall.Reply World → Bool
  | ⟨.nonce (.resolve _ state'), .ok _, _⟩ => decide (state' = state)
  | _ => false

/-- The calls after the last verdict. -/
def sinceVerdict (log : EngineLog) : EngineLog :=
  log.takeWhile fun entry => !entry.call.isVerdict

/-- So many attempts were made since the verdict, and the database has answered none. -/
structure AllFailed (state : NonceState) (attempts : ℕ) (log : EngineLog) : Prop where
  attempts_eq : (sinceVerdict log).countP (fun entry => entry.call.isAttempt state) = attempts
  unanswered : ∀ entry ∈ sinceVerdict log, isAnswered state entry = false

/-- What so many attempts to bring a nonce of the execution into a state have come to. -/
inductive Tried (e : ExecutionId) (state : NonceState) (n attempts : ℕ) (w : World)
    (log : EngineLog) : Prop where
  /-- a row of the execution has the nonce in the state -/
  | resolved (h : NonceTable.Has e state n w.nonces)
  /-- the sweeper had taken the nonce back before the attempt that was answered -/
  | late (entry) (hentry : entry ∈ sinceVerdict log) (hanswered : isAnswered state entry = true)
      (hswept : (e, n) ∈ entry.before.swept)
  /-- all of them have failed: the newest reserved row still has the nonce, or the sweeper
  has taken it back -/
  | failed (hgranted : w.Granted e n) (hfailed : AllFailed state attempts log)

section

variable {e : ExecutionId} {state : NonceState} {n k : ℕ} {w w' : World} {log : EngineLog}
  {entry : Entry EngineCall EngineCall.Reply World}

theorem sinceVerdict_cons (hentry : entry.call.isVerdict = false) :
    sinceVerdict (entry :: log) = entry :: sinceVerdict log := by
  rw [sinceVerdict, List.takeWhile_cons_of_pos (by simp [hentry])]
  rfl

theorem sinceVerdict_verdict (hentry : entry.call.isVerdict = true) :
    sinceVerdict (entry :: log) = [] := by
  rw [sinceVerdict, List.takeWhile_cons_of_neg (by simp [hentry])]

/-- Right after the verdict there was no attempt. -/
theorem allFailed_verdict (hentry : entry.call.isVerdict = true) :
    AllFailed state 0 (entry :: log) where
  attempts_eq := by rw [sinceVerdict_verdict hentry, List.countP_nil]
  unanswered := by
    rw [sinceVerdict_verdict hentry]
    exact fun _ hmem => absurd hmem List.not_mem_nil

/-- A call that is no verdict and is not answered. -/
theorem AllFailed.cons (h : AllFailed state k log)
    (entry : Entry EngineCall EngineCall.Reply World) (hverdict : entry.call.isVerdict = false)
    (hanswered : isAnswered state entry = false) :
    AllFailed state (if entry.call.isAttempt state then k + 1 else k) (entry :: log) where
  attempts_eq := by
    rw [sinceVerdict_cons hverdict, List.countP_cons, h.attempts_eq]
    split <;> rfl
  unanswered := by
    rw [sinceVerdict_cons hverdict, List.forall_mem_cons]
    exact ⟨hanswered, h.unanswered⟩

/-- Interference keeps it. -/
theorem Tried.rely (h : Tried e state n k w log) (hstate : state ≠ .reserved)
    (hstate' : state ≠ .released) (hrely : NonceRely e w w') : Tried e state n k w' log := by
  cases h with
  | resolved h => exact .resolved (hrely.nonces.has hstate hstate' h)
  | late entry hentry hanswered hswept => exact .late entry hentry hanswered hswept
  | failed hgranted hfailed => exact .failed (granted_stable e n w w' hgranted hrely) hfailed

/-- So does every call that is no verdict, no attempt and no statement that is answered. -/
theorem Tried.cons (h : Tried e state n k w log) (hverdict : entry.call.isVerdict = false)
    (hattempt : entry.call.isAttempt state = false)
    (hanswered : isAnswered state entry = false) : Tried e state n k w (entry :: log) := by
  cases h with
  | resolved h => exact .resolved h
  | late entry' hentry hanswered' hswept =>
      refine .late entry' ?_ hanswered' hswept
      rw [sinceVerdict_cons hverdict]
      exact List.mem_cons_of_mem entry hentry
  | failed hgranted hfailed =>
      refine .failed hgranted ?_
      have hcons := hfailed.cons entry hverdict hanswered
      rwa [if_neg (by simp [hattempt])] at hcons

/-- One more attempt begins. -/
theorem Tried.attempt (h : Tried e state n k w log)
    (hattempt : entry.call.isAttempt state = true) : Tried e state n (k + 1) w (entry :: log) := by
  obtain ⟨c, r, before⟩ := entry
  cases c with
  | deliver command =>
      cases h with
      | resolved h => exact .resolved h
      | late entry' hentry hanswered' hswept =>
          exact .late entry' (List.mem_cons_of_mem _ hentry) hanswered' hswept
      | failed hgranted hfailed =>
          have hcons := hfailed.cons ⟨.deliver command, r, before⟩ rfl rfl
          rw [if_pos hattempt] at hcons
          exact .failed hgranted hcons
  | _ => cases hattempt

/-- The `UPDATE` of an attempt: when it is answered, the nonce is in the state or was taken
back before. -/
theorem Tried.update {t' : NonceTable} {reply : Except SqlxError ℕ}
    (h : Tried e state n k w log) (hstate : state ≠ .reserved)
    (hanswer : Answers w.nonces (w.nonces.resolveUpdate w.now e state) reply t') :
    Tried e state n k { w with nonces := t' } (⟨.nonce (.resolve e state), reply, w⟩ :: log)
      ∧ ∀ rows, reply = .ok rows → ∀ k', Tried e state n k' { w with nonces := t' }
          (⟨.nonce (.resolve e state), reply, w⟩ :: log) := by
  -- an answered update finds the row, unless the sweeper has been there
  cases h with
  | resolved hhas =>
      have hhas' : NonceTable.Has e state n t' := by
        rcases hanswer.table with rfl | ⟨rows, hrows⟩
        · exact hhas
        · exact NonceTable.has_resolve_of_has hstate hhas hrows
      exact ⟨.resolved hhas', fun _ _ _ => .resolved hhas'⟩
  | late entry hentry hanswered hswept =>
      have hentry' : entry ∈ sinceVerdict (⟨.nonce (.resolve e state), reply, w⟩ :: log) :=
        List.mem_cons_of_mem _ hentry
      exact ⟨.late entry hentry' hanswered hswept,
        fun _ _ _ => .late entry hentry' hanswered hswept⟩
  | failed hgranted hfailed =>
      have hfailed' : ∀ err, AllFailed state k
          (⟨.nonce (.resolve e state), .error err, w⟩ :: log) :=
        fun err => hfailed.cons ⟨.nonce (.resolve e state), .error err, w⟩ rfl rfl
      cases hanswer with
      | failed err => exact ⟨.failed hgranted (hfailed' err), by rintro _ ⟨⟩⟩
      | unacknowledged hrows err =>
          refine ⟨?_, by rintro _ ⟨⟩⟩
          rcases hgranted with hswept | hholds
          · exact .failed (Or.inl hswept) (hfailed' err)
          · exact .resolved (NonceTable.has_resolve hholds hrows)
      | @done rows t' hrows =>
          suffices hall : ∀ k', Tried e state n k' { w with nonces := t' }
              (⟨.nonce (.resolve e state), .ok rows, w⟩ :: log) from ⟨hall k, fun _ _ => hall⟩
          intro k'
          rcases hgranted with hswept | hholds
          · exact .late _ List.mem_cons_self (decide_eq_true rfl) hswept
          · exact .resolved (NonceTable.has_resolve hholds hrows)

end

/-! ## One attempt -/

/-- The contract of an execution, with its calls logged. -/
abbrev Deployment.recorded (d : Deployment) (e : ExecutionId) :
    Contract EngineCall EngineCall.Reply (World × EngineLog) :=
  (d.contract .free (fun _ _ => True) e).logged noDemand

section

variable {d : Deployment} {e : ExecutionId} {s : Submission} {α : Type}
  {P : World → EngineLog → Prop} {Q : α → World × EngineLog → Prop} {w : World}
  {log : EngineLog}

theorem wp_recorded_ret {a : α} (hP : ∀ w', Rely e w w' → Q a (w', log)) :
    wp (d.recorded e) (.ret a) Q (w, log) := by
  rintro ⟨w', _⟩ ⟨hrely, rfl⟩
  exact hP w' hrely

theorem wp_recorded_quiet (hs : d.submission e = some s)
    (hP : ∀ {w w' log}, P w log → Rely e w w' → P w' log) {c : EngineCall}
    (hc : c.quiet = true) (hreq : ∀ w', Requires (fun _ _ => True) e s c w')
    {next : c.Reply → EngineProg α}
    (hnext : ∀ r w₁ w₂, P w₂ log → wp (d.recorded e) (next r) Q (w₂, ⟨c, r, w₁⟩ :: log))
    (hw : P w log) : wp (d.recorded e) (.call c next) Q (w, log) := by
  rintro ⟨w₁, _⟩ ⟨hrely, rfl⟩
  refine ⟨⟨⟨s, hs, hreq w₁⟩, trivial⟩, ?_⟩
  rintro r ⟨w₂, _⟩ ⟨⟨choice, _, hperform⟩, rfl⟩
  exact hnext r w₁ w₂ (hP (hP hw hrely) (rely_of_quiet hc hperform))

theorem wp_recorded_nonce (hs : d.submission e = some s)
    (hP : ∀ {w w' log}, P w log → Rely e w w' → P w' log) {q : NonceQuery}
    (hq : q.isFor e s) {next : q.Reply → EngineProg α}
    (hnext : ∀ w₁, P w₁ log → ∀ reply t',
      Answers w₁.nonces (w₁.nonces.execute w₁.now q) reply t' →
      wp (d.recorded e) (next reply) Q ({ w₁ with nonces := t' }, ⟨.nonce q, reply, w₁⟩ :: log))
    (hw : P w log) : wp (d.recorded e) (.call (.nonce q) next) Q (w, log) := by
  rintro ⟨w₁, _⟩ ⟨hrely, rfl⟩
  refine ⟨⟨⟨s, hs, hq⟩, trivial⟩, ?_⟩
  rintro r ⟨w₂, _⟩ ⟨⟨choice, _, hperform⟩, rfl⟩
  cases hperform
  exact hnext w₁ (hP hw hrely) _ _ (choice.fault.answers _ _)

end

/-- What an attempt comes to: one more attempt, and when it reports success the nonce is in
the state or was taken back. -/
def Attempted (e : ExecutionId) (state : NonceState) (n k : ℕ) (r : Except LocalError Unit)
    (x : World × EngineLog) : Prop :=
  Tried e state n (k + 1) x.1 x.2 ∧ ∀ v, r = .ok v → ∀ k', Tried e state n k' x.1 x.2

section

variable {d : Deployment} {e : ExecutionId} {s : Submission} {state : NonceState} {n k : ℕ}
  {w : World} {log : EngineLog} {r : Except LocalError Unit}

theorem Attempted.rely {w' : World} (h : Attempted e state n k r (w, log))
    (hstate : state ≠ .reserved) (hstate' : state ≠ .released) (hrely : Rely e w w') :
    Attempted e state n k r (w', log) :=
  ⟨h.1.rely hstate hstate' hrely.toNonceRely,
    fun v hv k' => (h.2 v hv k').rely hstate hstate' hrely.toNonceRely⟩

theorem Attempted.cons {entry : Entry EngineCall EngineCall.Reply World}
    (h : Attempted e state n k r (w, log)) (hverdict : entry.call.isVerdict = false)
    (hattempt : entry.call.isAttempt state = false)
    (hanswered : isAnswered state entry = false) :
    Attempted e state n k r (w, entry :: log) :=
  ⟨h.1.cons hverdict hattempt hanswered,
    fun v hv k' => (h.2 v hv k').cons hverdict hattempt hanswered⟩

theorem attempted_error (err : LocalError) (h : Tried e state n (k + 1) w log) :
    Attempted e state n k (.error err) (w, log) :=
  ⟨h, by rintro _ ⟨⟩⟩

/-- After the `UPDATE` was answered, whatever is reported. -/
theorem attempted_all (r : Except LocalError Unit) (h : ∀ k', Tried e state n k' w log) :
    Attempted e state n k r (w, log) :=
  ⟨h (k + 1), fun _ _ => h⟩

/-- The handler of the attempt. -/
theorem wp_handleResolve (hs : d.submission e = some s) (hstate : state ≠ .reserved)
    (hstate' : state ≠ .released) (hw : Tried e state n (k + 1) w log) :
    wp (d.recorded e) ((handleResolve e state).interp fun q => (EngineCall.nonce q).ask)
      (Attempted e state n k) (w, log) := by
  have hreturn : ∀ {r w log}, Attempted e state n k r (w, log) →
      wp (d.recorded e) (.ret r) (Attempted e state n k) (w, log) :=
    fun hr => wp_recorded_ret fun _ hrely => hr.rely hstate hstate' hrely
  cases state with
  | reserved => exact absurd rfl hstate
  | released => exact absurd rfl hstate'
  | finalized | consumed =>
      simp only [handleResolve, perform_bind, interp_call]
      refine wp_recorded_nonce (q := .resolve e _)
        (P := fun w log => Tried e _ n (k + 1) w log) hs
        (fun h hrely => h.rely hstate hstate' hrely.toNonceRely) rfl
        (fun w₁ hw₁ reply t' hanswer => ?_) hw
      obtain ⟨htried, hall⟩ := hw₁.update hstate hanswer
      cases reply with
      | error err => exact hreturn (attempted_error _ htried)
      | ok rows =>
          by_cases hrows : rows > 0
          · simp only [hrows, if_true]
            exact hreturn (attempted_all _ (hall rows rfl))
          · -- the latest state is read, which changes nothing
            simp only [hrows, if_false, interp_call, perform_bind]
            refine wp_recorded_nonce (q := .latest e)
              (P := fun w log => ∀ k', Tried e _ n k' w log) hs
              (fun h hrely k' => (h k').rely hstate hstate' hrely.toNonceRely) rfl
              (fun w₂ hw₂ reply t'' hlatest => ?_) (hall rows rfl)
            have ht : t'' = w₂.nonces := by
              rcases hlatest.table with ht | ⟨rows, hrows⟩
              · exact ht
              · cases hrows
                rfl
            subst ht
            have hend : ∀ r, Attempted e _ n k r (w₂, ⟨.nonce (.latest e), reply, w₂⟩ :: _) :=
              fun r => attempted_all r fun k' => (hw₂ k').cons rfl rfl rfl
            rcases reply with err | (_ | latest)
            · exact hreturn (hend _)
            · exact hreturn (hend _)
            · cases latest <;> exact hreturn (hend _)

/-- One attempt: the mailbox, the handler and the reply channel. -/
theorem wp_attempt (hs : d.submission e = some s) (hstate : state ≠ .reserved)
    (hstate' : state ≠ .released) (hw : Tried e state n k w log) :
    wp (d.recorded e) (d.handle (.resolve e state)) (Attempted e state n k) (w, log) := by
  have hreturn : ∀ {r w log}, Attempted e state n k r (w, log) →
      wp (d.recorded e) (.ret r) (Attempted e state n k) (w, log) :=
    fun hr => wp_recorded_ret fun _ hrely => hr.rely hstate hstate' hrely
  simp only [Deployment.handle, Deployment.nonceActor, through, perform_bind]
  refine wp_recorded_quiet (c := .deliver (.resolve e state))
    (P := fun w log => Tried e state n k w log) hs
    (fun h hrely => h.rely hstate hstate' hrely.toNonceRely) rfl (fun _ => trivial)
    (fun delivered w₁ w₂ hw₂ => ?_) hw
  have hbegun : Tried e state n (k + 1) w₂ (⟨.deliver (.resolve e state), delivered, w₁⟩ :: log) :=
    hw₂.attempt (decide_eq_true rfl)
  cases delivered with
  | false => exact hreturn (attempted_error _ hbegun)
  | true =>
      rw [if_pos rfl]
      refine wp_seq (wp_handleResolve hs hstate hstate' hbegun) ?_
      rintro r ⟨w₃, log₃⟩ hr
      refine wp_recorded_quiet (c := .collect (.resolve e state))
        (P := fun w log => Attempted e state n k r (w, log)) hs
        (fun h hrely => h.rely hstate hstate' hrely) rfl (fun _ => trivial)
        (fun collected w₄ w₅ hw₅ => ?_) hr
      have hlogged : Attempted e state n k r
          (w₅, ⟨.collect (.resolve e state), collected, w₄⟩ :: log₃) := hw₅.cons rfl rfl rfl
      cases collected with
      | false => exact hreturn (attempted_error _ hlogged.1)
      | true => exact hreturn hlogged

end

/-! ## The outline of the attempts -/

/-- What the last status of an execution says of the nonce of the transaction it sent last,
after so many attempts to resolve it. -/
structure StatusSettled (maxTotal : ℕ) (e : ExecutionId) (w : World) (log : EngineLog) :
    Prop where
  confirmed : ∀ txHash, w.statuses e = some (.confirmedOnChain txHash) →
    ∃ txn, (w.view e).lastSent = some txn
      ∧ Tried e .finalized txn.withNonce.value.toNat maxTotal w log
  timedOut : ∀ message, w.statuses e = some (.validatorTimedOut message) →
    ∃ txn, (w.view e).lastSent = some txn
      ∧ Tried e .consumed txn.withNonce.value.toNat maxTotal w log

/-- Along the phases: how many attempts were made, and what they came to. -/
def triedAlong (maxTotal : ℕ) (e : ExecutionId) : Phase → World → EngineLog → Prop
  | .finalizing nonce _ attempt, w, log =>
      ∃ k, attempt = k + 1 ∧ Tried e .finalized nonce.value.toNat k w log
  | .confirmed nonce _, w, log => Tried e .finalized nonce.value.toNat maxTotal w log
  | .retiring nonce attempt, w, log =>
      ∃ k, attempt = k + 1 ∧ Tried e .consumed nonce.value.toNat k w log
  | .timedOut nonce, w, log => Tried e .consumed nonce.value.toNat maxTotal w log
  | .ended, w, log => StatusSettled maxTotal e w log
  | _, _, _ => True

section

variable {d : Deployment} {e : ExecutionId} {s : Submission} {maxTotal : ℕ} {p : Phase}
  {w w' : World} {log : EngineLog}

/-- What keeps the view and the attempts keeps it. -/
theorem triedAlong_mono {log' : EngineLog} (hview : w'.view e = w.view e)
    (hkeeps : ∀ {state n k}, state = .finalized ∨ state = .consumed →
      Tried e state n k w log → Tried e state n k w' log')
    (h : triedAlong maxTotal e p w log) : triedAlong maxTotal e p w' log' := by
  cases p with
  | finalizing nonce txHash attempt =>
      obtain ⟨k, hk, htried⟩ := h
      exact ⟨k, hk, hkeeps (Or.inl rfl) htried⟩
  | confirmed => exact hkeeps (Or.inl rfl) h
  | retiring nonce attempt =>
      obtain ⟨k, hk, htried⟩ := h
      exact ⟨k, hk, hkeeps (Or.inr rfl) htried⟩
  | timedOut => exact hkeeps (Or.inr rfl) h
  | ended =>
      have hstatus : w'.statuses e = w.statuses e := congrArg View.status hview
      constructor
      · intro txHash hshown
        obtain ⟨txn, hlast, htried⟩ := h.confirmed txHash (hstatus.symm.trans hshown)
        exact ⟨txn, by rw [hview]; exact hlast, hkeeps (Or.inl rfl) htried⟩
      · intro message hshown
        obtain ⟨txn, hlast, htried⟩ := h.timedOut message (hstatus.symm.trans hshown)
        exact ⟨txn, by rw [hview]; exact hlast, hkeeps (Or.inr rfl) htried⟩
  | _ => exact trivial

theorem triedAlong_rely (h : triedAlong maxTotal e p w log) (hrely : Rely e w w') :
    triedAlong maxTotal e p w' log := by
  refine triedAlong_mono hrely.view ?_ h
  rintro state n k (rfl | rfl) htried
  all_goals exact htried.rely (by decide) (by decide) hrely.toNonceRely

/-- A call that goes to no actor is logged. -/
theorem triedAlong_outside {c : PipelineCall} {r : (EngineCall.outside c).Reply}
    {before : World} (h : triedAlong maxTotal e p w log) :
    triedAlong maxTotal e p w (⟨.outside c, r, before⟩ :: log) :=
  triedAlong_mono rfl (fun _ htried => htried.cons rfl rfl rfl) h

/-- When a command is answered with a success, its reply was collected last. -/
theorem wp_collected {T E : Type} {command : PipelineCall} {shutDown dropped : E}
    {handler : EngineProg (Except E T)} {Q : Except E T → World → Prop}
    (h : wp (d.contract .free (fun _ _ => True) e) (through command shutDown dropped handler)
      Q w) :
    wp (d.recorded e) (through command shutDown dropped handler)
      (fun r x => Q r x.1
        ∧ ∀ v, r = .ok v → ∃ entry rest, x.2 = entry :: rest ∧ entry.call = .collect command)
      (w, log) := by
  simp only [through, perform_bind] at h ⊢
  rintro ⟨w₁, _⟩ ⟨hrely, rfl⟩
  obtain ⟨hreq, hnext⟩ := h w₁ hrely
  refine ⟨⟨hreq, trivial⟩, ?_⟩
  rintro delivered ⟨w₂, _⟩ ⟨hstep, rfl⟩
  have h₂ := hnext delivered w₂ hstep
  -- a command that was not delivered is no success
  cases delivered with
  | false => exact wp_recorded_ret fun w₃ hrely => ⟨h₂ w₃ hrely, by rintro _ ⟨⟩⟩
  | true =>
      simp only [if_true] at h₂ ⊢
      refine wp_seq (wp_logged_of_wp (wp_of_bind h₂)) ?_
      rintro r ⟨w₃, log₃⟩ h₃ ⟨w₄, _⟩ ⟨hrely₃, rfl⟩
      obtain ⟨hreq, hnext⟩ := h₃ w₄ hrely₃
      refine ⟨⟨hreq, trivial⟩, ?_⟩
      rintro collected ⟨w₅, _⟩ ⟨hstep, rfl⟩
      have h₅ := hnext collected w₅ hstep
      cases collected with
      | false => exact wp_recorded_ret fun w₆ hrely => ⟨h₅ w₆ hrely, by rintro _ ⟨⟩⟩
      | true =>
          exact wp_recorded_ret fun w₆ hrely => ⟨h₅ w₆ hrely, fun _ _ => ⟨_, _, rfl, rfl⟩⟩

/-- The status is shown, and the attempts came to what they had come to. -/
theorem wp_showTried {state : NonceState} {n k : ℕ} {status : PipelineStatus}
    (hs : d.submission e = some s) (hstate : state ≠ .reserved) (hstate' : state ≠ .released)
    (h : Tried e state n k w log) :
    wp (d.recorded e) (d.handle (.setStatus e status))
      (fun _ x => x.1.view e = { w.view e with status := some status }
        ∧ Tried e state n k x.1 x.2) (w, log) := by
  have hshow : wp (d.contract .free (fun _ _ => True) e) (d.handle (.setStatus e status))
      (fun _ w' => w'.view e = { w.view e with status := some status } ∧ True) w :=
    wp_setStatus hs (fun _ _ _ _ => trivial) ⟨rfl, trivial⟩
  refine wp_mono (wp_logged (E := d.contract .free (fun _ _ => True) e)
    (P := fun c => c = .outside (.setStatus e status))
    (J := fun x => Tried e state n k x.1 x.2)
    (fun h hrely => h.rely hstate hstate' hrely.toNonceRely) ?_ hshow (asks_perform rfl) h)
    fun _ _ hx => ⟨hx.1.1, hx.2⟩
  rintro _ w₁ r w₂ log₁ rfl ⟨choice, _, hperform⟩ htried
  cases hperform
  refine Tried.cons ?_ rfl rfl rfl
  exact htried.rely hstate hstate' (.of_eq rfl rfl)

/-- After an attempt to resolve the nonce. -/
theorem triedAlong_attempted {state : NonceState} {n k attempt : ℕ} {stage : ℕ → Phase}
    {q : Phase} {r : Except LocalError Unit}
    (hstage : ∀ k, Tried e state n k w log → triedAlong maxTotal e (stage (k + 1)) w log)
    (hend : Tried e state n maxTotal w log → triedAlong maxTotal e q w log)
    (hattempt : attempt = k + 1) (h : Attempted e state n k r (w, log)) :
    triedAlong maxTotal e
      (attempted maxTotal stage attempt (fun _ => q) (fun _ => q) (retryAll r)) w log := by
  obtain ⟨htried, hall⟩ := h
  cases r with
  | ok v => exact hend (hall v rfl maxTotal)
  | error err =>
      rw [retryAll, attempted]
      split
      · next hlast => exact hend (by rwa [← hlast, hattempt])
      · exact hstage attempt (by rwa [hattempt])

/-- Nothing is said of the attempts in the phases of another call. -/
theorem triedAlong_of_retried {T F : Type} {total attempt : ℕ} {stage : ℕ → Phase}
    {onOk : T → Phase} {onError : F → Phase} {r : Except (RetryDecision F) T}
    (hstage : ∀ k, triedAlong maxTotal e (stage k) w log)
    (hok : ∀ value, triedAlong maxTotal e (onOk value) w log)
    (herror : ∀ err, triedAlong maxTotal e (onError err) w log) :
    triedAlong maxTotal e (attempted total stage attempt onOk onError r) w log :=
  attempted_of (H := fun p => triedAlong maxTotal e p w log) hstage (fun value _ => hok value)
    fun err _ => herror err

/-- Right after the verdict no attempt was made. -/
theorem tried_of_verdict {state : NonceState} {n : ℕ}
    {entry : Entry EngineCall EngineCall.Reply World} (h : w.Settled e state n)
    (hentry : entry.call.isVerdict = true) : Tried e state n 0 w (entry :: log) := by
  rcases h with hgranted | hhas
  · exact .failed hgranted (allFailed_verdict hentry)
  · exact .resolved hhas

/-! ### The last status -/

variable {v : View} {txn : SignedTransaction}

theorem statusSettled_confirmed {txHash : TxHash}
    (hview : w.view e = { v with status := some (.confirmedOnChain (lowerHex txHash.bytes)) })
    (hlast : v.lastSent = some txn)
    (htried : Tried e .finalized txn.withNonce.value.toNat maxTotal w log) :
    StatusSettled maxTotal e w log where
  confirmed _ _ := ⟨txn, by rw [hview]; exact hlast, htried⟩
  timedOut message hshown := by
    cases (congrArg View.status hview).symm.trans hshown

theorem statusSettled_timedOut {message : String}
    (hview : w.view e = { v with status := some (.validatorTimedOut message) })
    (hlast : v.lastSent = some txn)
    (htried : Tried e .consumed txn.withNonce.value.toNat maxTotal w log) :
    StatusSettled maxTotal e w log where
  confirmed txHash hshown := by
    cases (congrArg View.status hview).symm.trans hshown
  timedOut _ _ := ⟨txn, by rw [hview]; exact hlast, htried⟩

theorem statusSettled_failed {stage reason : String}
    (hview : w.view e = { v with status := some (.failed stage reason) }) :
    StatusSettled maxTotal e w log where
  confirmed txHash hshown := by
    cases (congrArg View.status hview).symm.trans hshown
  timedOut message hshown := by
    cases (congrArg View.status hview).symm.trans hshown

/-- The numbers of the attempts and the transaction sent last go along with the outline. -/
theorem outline_tried (hs : d.submission e = some s) :
    Outline ((d.recorded e).answered d.handle) (d.context e s) fun p x =>
      along sentAlong e s p x.1 ∧ triedAlong d.retryConfig.maxTotal.toNat e p x.1 x.2 where
  stable := by
    rintro p ⟨w, log⟩ ⟨w', _⟩ ⟨halong, htried⟩ ⟨hrely, rfl⟩
    exact ⟨along_stable p _ _ halong hrely, triedAlong_rely htried hrely⟩
  call := by
    rintro p c next ⟨w, log⟩ hcall ⟨halong, htried⟩
    refine answered_call ?_
    have hworld : wp (d.contract .free (fun _ _ => True) e) (d.handle c)
        (fun r w' => along sentAlong e s (next r) w') w := by
      have houtline : Outline ((d.contract .free (fun _ _ => True) e).answered d.handle)
          (d.context e s) (along sentAlong e s) := by
        refine outline_along hs ?_ (sentAlong_invariant (fun _ _ => True) _) fun _ => trivial
        exact admits_true _ e
      obtain ⟨hreq, hstep⟩ := houtline.call hcall halong
      exact wp_of_answered hreq hstep
    -- nothing is said of the attempts before the verdict and after a failure
    have hearly : (∀ r w log, triedAlong d.retryConfig.maxTotal.toNat e (next r) w log) →
        wp (d.recorded e) (d.handle c) (fun r x => along sentAlong e s (next r) x.1
          ∧ triedAlong d.retryConfig.maxTotal.toNat e (next r) x.1 x.2) (w, log) :=
      fun hnext => wp_mono (wp_logged_of_wp hworld) fun r x hx => ⟨hx, hnext r x.1 x.2⟩
    cases hcall with
    | genRange | sleep | telemetry | unreachable =>
        refine wp_logged (E := d.contract .free (fun _ _ => True) e)
          (P := fun c => ∃ c', c = .outside c' ∧ (EngineCall.outside c').quiet = true)
          (J := fun x => triedAlong _ e _ x.1 x.2) triedAlong_rely ?_ hworld
          (asks_perform ⟨_, rfl, rfl⟩) htried
        rintro _ w₁ r w₂ log₁ ⟨c', rfl, hquiet⟩ ⟨choice, _, hperform⟩ htried
        exact triedAlong_outside (triedAlong_rely htried (rely_of_quiet hquiet hperform))
    | register | reserve | sync | sign | resign | consume | revert | release =>
        exact hearly fun _ _ _ => triedAlong_of_retried (fun _ => trivial) (fun _ => trivial)
          fun _ => trivial
    | accept | showReserved | showSigned | showMismatch | showSynced | showResigned
    | showBroadcasted => exact hearly fun _ _ _ => trivial
    | acquire =>
        refine hearly fun r _ _ => ?_
        rcases r with err | _ | stickyIndex <;> exact trivial
    | broadcast =>
        refine hearly fun _ _ _ => triedAlong_of_retried (fun _ => trivial) (fun _ => trivial)
          fun err => ?_
        cases err with
        | nonceTooLow nonceOnChain attemptedNonce =>
            exact afterBroadcastError_of (H := fun p => triedAlong _ e p _ _)
              (fun _ => trivial) fun _ => trivial
        | _ => exact trivial
    | validate nonce txHash stickyIndex =>
        refine wp_mono (wp_collected hworld) fun r x hx => ⟨hx.1, ?_⟩
        obtain ⟨⟨_, hnonces⟩, hcollected⟩ := hx
        rcases r with err | outcome
        · cases err <;> exact trivial
        · -- a verdict was collected as the last call
          obtain ⟨entry, rest, hlog, hcall⟩ := hcollected outcome rfl
          have hverdict : entry.call.isVerdict = true := by rw [hcall]; rfl
          show triedAlong _ e _ x.1 x.2
          rw [hlog]
          cases outcome with
          | included => exact ⟨0, rfl, tried_of_verdict hnonces hverdict⟩
          | timeout => exact ⟨0, rfl, tried_of_verdict hnonces hverdict⟩
          | notIncluded => exact trivial
    | finalize nonce txHash attempt =>
        obtain ⟨k, hk, htried⟩ := htried
        refine wp_mono (wp_and (wp_logged_of_wp hworld)
          (wp_attempt hs (by decide) (by decide) htried)) ?_
        exact fun r x hx => ⟨hx.1,
          triedAlong_attempted (fun k hk => ⟨k, rfl, hk⟩) (fun h => h) hk hx.2⟩
    | retire nonce attempt =>
        obtain ⟨k, hk, htried⟩ := htried
        refine wp_mono (wp_and (wp_logged_of_wp hworld)
          (wp_attempt hs (by decide) (by decide) htried)) ?_
        exact fun r x hx => ⟨hx.1,
          triedAlong_attempted (fun k hk => ⟨k, rfl, hk⟩) (fun h => h) hk hx.2⟩
    | showConfirmed nonce txHash =>
        obtain ⟨txn, hlast, rfl⟩ := halong.1
        have hfinalized : Tried e .finalized txn.withNonce.value.toNat
            d.retryConfig.maxTotal.toNat w log := htried
        refine wp_mono (wp_and (wp_logged_of_wp hworld)
          (wp_showTried hs (by decide) (by decide) hfinalized)) ?_
        rintro _ x ⟨halong', hview, htried'⟩
        exact ⟨halong', statusSettled_confirmed hview hlast htried'⟩
    | showTimedOut nonce =>
        obtain ⟨txn, hlast, rfl⟩ := halong.1
        have hconsumed : Tried e .consumed txn.withNonce.value.toNat
            d.retryConfig.maxTotal.toNat w log := htried
        refine wp_mono (wp_and (wp_logged_of_wp hworld)
          (wp_showTried hs (by decide) (by decide) hconsumed)) ?_
        rintro _ x ⟨halong', hview, htried'⟩
        exact ⟨halong', statusSettled_timedOut hview hlast htried'⟩
    | fail status =>
        obtain ⟨stage, reason, rfl⟩ := halong.1
        have hshow : wp (d.contract .free (fun _ _ => True) e)
            (d.handle (.setStatus e (.failed stage reason)))
            (fun _ w' => w'.view e = { w.view e with status := some (.failed stage reason) }
              ∧ True) w :=
          wp_setStatus hs (fun _ _ _ _ => trivial) ⟨rfl, trivial⟩
        refine wp_mono (wp_logged_of_wp (wp_and hworld hshow)) ?_
        rintro _ x ⟨halong', hview, _⟩
        exact ⟨halong', statusSettled_failed hview⟩

end

/-! ## Runs -/

/-- **What the last status says about the nonce.**  After a pipeline has returned and
`ConfirmedOnChain` is shown, the nonce of the transaction it sent last is finalized, unless
every attempt since the verdict has failed or the sweeper had taken the nonce back before
the one that was answered; after `ValidatorTimedOut` the same holds with consumed.  A row
that is finalized then stays so, and no other row ever holds its nonce. -/
theorem settled_of_ended {d : Deployment} {w₀ : World} {e : ExecutionId} {log : EngineLog}
    {st : Config ExecutionId EngineCall EngineCall.Reply World Unit} (hfresh : w₀.Fresh d)
    (hrun : machine.Traced .free (d.start w₀) e log st) {s : Submission}
    (hs : d.submission e = some s) (hended : st.thread e = .ret ()) :
    StatusSettled d.retryConfig.maxTotal.toNat e st.world log
    ∧ ∀ r ∈ st.world.nonces.rows, r.executionId = e → r.state = .finalized →
        ∀ st', machine.Reachable .free st st' → r ∈ st'.world.nonces.rows
          ∧ ∀ r' ∈ st'.world.nonces.rows, r'.isActive = true → r'.slot = r.slot → r' = r := by
  have hcompatible : Machine.Compatible machine .free (d.contract .free fun _ _ => True)
      (fun _ => True) := compatible (fun _ _ _ _ _ => trivial) fun _ _ => trivial
  have hstart : ∀ status, sentAlong (.registering 1)
      { sent := [], requests := [], status := status } := fun _ _ hr => nomatch hr
  have hsafe : ∀ {st}, machine.Reachable .free (d.start w₀) st → Machine.Safe _ _ _ st :=
    safe_of_reachable hcompatible trivial hfresh (admits_true _) (sentAlong_invariant _)
      (fun _ => trivial) hstart
  constructor
  · have hreaches := hrun.reaches hcompatible (hsafe .start)
    rw [hended] at hreaches
    have hregistering : along sentAlong e s (.registering 1) w₀ := by
      refine ⟨?_, hfresh.plain hs⟩
      rw [hfresh.view hs]
      exact hstart _
    have hpipeline : wp (d.recorded e) (d.pipeline e) (fun _ x => along sentAlong e s .ended x.1
        ∧ triedAlong d.retryConfig.maxTotal.toNat e .ended x.1 x.2) (w₀, []) := by
      rw [Deployment.pipeline, hs]
      exact wp_interp_answered ((outline_tried hs).wp_runPipeline ⟨hregistering, trivial⟩)
    exact (hreaches.ended hpipeline).2
  · intro r hr howner hstate st' hreach
    obtain ⟨_, hrely⟩ := hreach.interference hcompatible (hsafe hrun.reachable) hended
    have hkept : r ∈ st'.world.nonces.rows := by
      rcases hrely.nonces.kept r hr howner (by rw [hstate]; decide) with hr' | ⟨hreserved, _⟩
      · exact hr'
      · cases hstate.symm.trans hreserved
    refine ⟨hkept, fun r' hr' hactive hslot => ?_⟩
    refine st'.world.nonces.eq_of_slot_eq hr' hkept hactive ?_ hslot
    rw [NonceRow.isActive, hstate]
    rfl

/-! ## Two runs of the sample deployment -/

/-- A call of a node that has mined what it was sent. -/
def Choice.mined (fault : DatabaseFault) : Choice where
  fault := fault
  accepted := true
  answer
    | .validator (.getTransactionReceipt _ _ _) => some (.ok (some ⟨true, some 7⟩))
    | .validator (.getBlockNumber _ _) => some (.ok 7)
    | c => smoothAnswer c

/-- The last status of an execution whose pipeline has returned. -/
def endedStatus (st : Config ExecutionId EngineCall EngineCall.Reply World Unit)
    (e : ExecutionId) : Option PipelineStatus :=
  match st.thread e with
  | .ret _ => st.world.statuses e
  | .call _ _ => none

theorem endedStatus_eq_some {st : Config ExecutionId EngineCall EngineCall.Reply World Unit}
    {e : ExecutionId} {status : PipelineStatus} (h : endedStatus st e = some status) :
    st.thread e = .ret () ∧ st.world.statuses e = some status := by
  unfold endedStatus at h
  split at h
  · next hthread => exact ⟨hthread, h⟩
  · cases h

/-- The status of a confirmed sample transaction. -/
def sampleConfirmed : PipelineStatus := .confirmedOnChain (lowerHex (sampleTxHash 0).bytes)

/-- The first attempt to finalize fails, the second one does not. -/
theorem settled_of_ended_mined :
    ∃ log st, machine.Traced .free (sampleDeployment.start .empty) ⟨1⟩ log st
      ∧ st.thread ⟨1⟩ = .ret () ∧ st.world.statuses ⟨1⟩ = some sampleConfirmed
      ∧ ∃ txn, (st.world.view ⟨1⟩).lastSent = some txn
        ∧ Tried ⟨1⟩ .finalized txn.withNonce.value.toNat 3 st.world log := by
  have hrun : (machine.runUnder .free (sampleDeployment.start .empty)
      (List.flatten [List.replicate 27 (.call ⟨1⟩ (.mined .none)),
        List.replicate 3 (.call ⟨1⟩ (.mined (.failed "pool timed out"))),
        List.replicate 6 (.call ⟨1⟩ (.mined .none))])).map
        (fun st => endedStatus st ⟨1⟩) = some (some sampleConfirmed) := by decide +kernel
  obtain ⟨st, hreach, hended⟩ := Machine.exists_reachable hrun
  obtain ⟨hthread, hstatus⟩ := endedStatus_eq_some hended
  obtain ⟨log, hlog⟩ := hreach.exists_traced ⟨1⟩
  exact ⟨log, st, hlog, hthread, hstatus,
    (settled_of_ended (World.fresh_empty _) hlog rfl hthread).1.confirmed _ hstatus⟩

/-- No statement of the database fails. -/
def faultless : RunConditions where
  call _ choice _ _ := choice.fault = .none
  external event _ := ∀ fault, event = .sweep fault → fault = .none

instance (e : ExecutionId) (choice : Choice) (c : EngineCall) (w : World) :
    Decidable (faultless.call e choice c w) :=
  inferInstanceAs (Decidable (choice.fault = .none))

instance (w : World) : (event : OutsideEvent) → Decidable (faultless.external event w)
  | .tick _ => isTrue fun _ h => nomatch h
  | .sweep fault =>
    decidable_of_iff (fault = .none)
      ⟨fun h _ heq => OutsideEvent.sweep.inj heq ▸ h, fun h => h fault rfl⟩

/-- The first execution is shown as confirmed, no row of it is finalized, and the nonce of its
transaction is reserved for the holder. -/
def Unfinalized (st : Config ExecutionId EngineCall EngineCall.Reply World Unit)
    (holder : ExecutionId) : Prop :=
  st.thread ⟨1⟩ = .ret () ∧ st.world.statuses ⟨1⟩ = some sampleConfirmed
    ∧ (∀ r ∈ st.world.nonces.rows, r.executionId = ⟨1⟩ → r.state ≠ .finalized)
    ∧ ∃ txn, (st.world.view ⟨1⟩).lastSent = some txn
      ∧ ∃ r ∈ st.world.nonces.rows, r.executionId = holder ∧ r.state = .reserved
        ∧ r.nonce = txn.withNonce.value.toNat

/-- What an evaluation shows of the end of a run. -/
def unfinalizedView (st : Config ExecutionId EngineCall EngineCall.Reply World Unit) :
    Option PipelineStatus × List (ExecutionId × NonceState × ℕ) × Option ℕ :=
  (endedStatus st ⟨1⟩, st.world.nonces.rows.map fun r => (r.executionId, r.state, r.nonce),
    (st.world.view ⟨1⟩).lastSent.map fun txn => txn.withNonce.value.toNat)

theorem unfinalized_of_view
    {st : Config ExecutionId EngineCall EngineCall.Reply World Unit} {holder : ExecutionId}
    {rows : List (ExecutionId × NonceState × ℕ)} {n : ℕ}
    (h : unfinalizedView st = (some sampleConfirmed, rows, some n))
    (hrows : ∀ row ∈ rows, row.1 = ⟨1⟩ → row.2.1 ≠ .finalized)
    (hholder : (holder, .reserved, n) ∈ rows) : Unfinalized st holder := by
  obtain ⟨hended, hview⟩ := Prod.mk.inj h
  obtain ⟨rfl, hlast⟩ := Prod.mk.inj hview
  obtain ⟨hthread, hstatus⟩ := endedStatus_eq_some hended
  obtain ⟨txn, htxn, rfl⟩ := Option.map_eq_some_iff.mp hlast
  obtain ⟨r, hr, hreq⟩ := List.mem_map.mp hholder
  obtain ⟨howner, hreq⟩ := Prod.mk.inj hreq
  obtain ⟨hstate, hnonce⟩ := Prod.mk.inj hreq
  refine ⟨hthread, hstatus, fun r' hr' howner' => ?_, txn, htxn, r, hr, howner, hstate, hnonce⟩
  exact hrows _ (List.mem_map_of_mem hr') howner'

/-- Every attempt to finalize fails, and the status is shown over a reserved row.  And without
any failure: the sweeper releases the row before the first attempt, and the second execution
is granted the nonce. -/
theorem confirmed_unfinalized :
    (∃ st, machine.Reachable .free (sampleDeployment.start .empty) st ∧ Unfinalized st ⟨1⟩)
    ∧ ∃ st, machine.Reachable faultless (sampleDeployment.start .empty) st
      ∧ Unfinalized st ⟨2⟩ := by
  constructor
  · have hrun : (machine.runUnder .free (sampleDeployment.start .empty)
        (List.flatten [List.replicate 27 (.call ⟨1⟩ (.mined .none)),
          List.replicate 14 (.call ⟨1⟩ (.mined (.failed "pool timed out")))])).map
          unfinalizedView = some (some sampleConfirmed, [(⟨1⟩, .reserved, 0)], some 0) := by
      decide +kernel
    obtain ⟨st, hreach, hview⟩ := Machine.exists_reachable hrun
    exact ⟨st, hreach, unfinalized_of_view hview (by decide) (by decide)⟩
  · have hrun : (machine.runUnder faultless (sampleDeployment.start .empty)
        (List.flatten [List.replicate 25 (.call ⟨1⟩ (.mined .none)),
          [.external (.tick 126000000), .external (.sweep .none)],
          List.replicate 19 (.call ⟨1⟩ (.mined .none)),
          List.replicate 4 (.call ⟨2⟩ (.mined .none))])).map unfinalizedView
        = some (some sampleConfirmed, [(⟨1⟩, .consumed, 0), (⟨2⟩, .reserved, 0)], some 0) := by
      decide +kernel
    obtain ⟨st, hreach, hview⟩ := Machine.exists_reachable hrun
    exact ⟨st, hreach, unfinalized_of_view hview (by decide) (by decide)⟩

end Lobby
