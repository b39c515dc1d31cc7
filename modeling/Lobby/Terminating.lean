/-
# Terminating errors

The errors documented as terminating should end a run after its cleanup: the release of the
nonce and the failed status.  The pipeline does so for a missing provider and for a nonce
that is still too low after the recovery.  It retries what the relay host refuses and a
transaction the node refuses for insufficient funds, so these end the run only when they
answer the last attempt (`runPipeline_aborts`).
-/
import Lobby.StatusOrder

namespace Lobby

open Interaction Prog PipelineContext Phase

/-! ## The terminating class -/

/-- Whether a reply is a `NonceTooLow`. -/
def PipelineCall.reportsTooLow : (c : PipelineCall) → c.Reply → Bool
  | .broadcast _ _ _ _ _, .error (.nonceTooLow _ _) => true
  | _, _ => false

/-- A broadcast has been answered with `NonceTooLow`, which starts the recovery. -/
def Mismatched (log : PipelineLog) : Prop :=
  ∃ entry ∈ log, entry.call.reportsTooLow entry.reply = true

/-- The replies of the documented class, after a log.  A node words its refusals freely, so
which ones are for insufficient funds is a parameter. -/
inductive Terminating (insufficientFunds : String → Prop) (earlier : PipelineLog) :
    (c : PipelineCall) → c.Reply → Prop where
  | validationFailed {e txn clientConfig} (message) :
      Terminating insufficientFunds earlier (.registerTransaction e txn clientConfig)
        (.error (.validationFailed message))
  | fromAddressMismatch {e txn clientConfig} (expected actual) :
      Terminating insufficientFunds earlier (.registerTransaction e txn clientConfig)
        (.error (.fromAddressMismatch expected actual))
  | missingProvider {chainId fromAddress e txn stickyIndex} (chain) :
      Terminating insufficientFunds earlier
        (.broadcast chainId fromAddress e txn stickyIndex) (.error (.missingProvider chain))
  | insufficientFunds {chainId fromAddress e txn stickyIndex} (reason)
      (h : insufficientFunds reason) :
      Terminating insufficientFunds earlier
        (.broadcast chainId fromAddress e txn stickyIndex) (.error (.rejected reason))
  | nonceTooLow {chainId fromAddress e txn stickyIndex} (nonceOnChain attemptedNonce)
      (h : Mismatched earlier) :
      Terminating insufficientFunds earlier
        (.broadcast chainId fromAddress e txn stickyIndex)
        (.error (.nonceTooLow nonceOnChain attemptedNonce))

/-- The cleanup of a run that gives up. -/
def PipelineCall.isCleanup (e : ExecutionId) : PipelineCall → Bool
  | .resolve e' .released => decide (e' = e)
  | .setStatus e' status => decide (e' = e) && status.isFailed
  | c => c.isAside

section

variable (insufficientFunds : String → Prop)

/-- A terminating error has been received. -/
def Aborted (log : PipelineLog) : Prop :=
  ∃ later entry earlier, log = later ++ entry :: earlier
    ∧ Terminating insufficientFunds earlier entry.call entry.reply

/-- After a terminating error there is only cleanup. -/
def OnlyCleanup (e : ExecutionId) (log : PipelineLog) : Prop :=
  ∀ later entry earlier, log = later ++ entry :: earlier →
    Terminating insufficientFunds earlier entry.call entry.reply →
    ∀ x ∈ later, x.call.isCleanup e = true

/-! ## The last attempt -/

def PipelineCall.isRegistration : PipelineCall → Bool
  | .registerTransaction _ _ _ => true
  | _ => false

/-- How often the latest call of an actor was made in a row, if it is of a kind. -/
def attempts (kind : PipelineCall → Bool) (calls : List PipelineCall) : ℕ :=
  ((calls.filter fun c => !c.isAside).takeWhile kind).length

/-- Whether an error of the class is one that its stage retries. -/
def PipelineCall.retries : (c : PipelineCall) → c.Reply → Bool
  | .registerTransaction _ _ _, .error _ => true
  | .broadcast _ _ _ _ _, .error (.rejected _) => true
  | _, _ => false

/-- The calls of the same stage, for the two stages that have terminating errors. -/
def PipelineCall.ofStage : PipelineCall → PipelineCall → Bool
  | .registerTransaction _ _ _ => isRegistration
  | _ => isBroadcast

/-- A call is the last attempt of its stage. -/
def LastAttempt (ctx : PipelineContext) (c : PipelineCall) (earlier : PipelineLog) : Prop :=
  attempts c.ofStage (earlier.map Entry.call) + 1 = ctx.retryConfig.maxTotal.toNat

/-- Every terminating error that is retried answers the last attempt. -/
def AnswersLast (ctx : PipelineContext) (log : PipelineLog) : Prop :=
  ∀ later entry earlier, log = later ++ entry :: earlier →
    Terminating insufficientFunds earlier entry.call entry.reply →
    entry.call.retries entry.reply = true → LastAttempt ctx entry.call earlier

end

section

variable {insufficientFunds : String → Prop} {kind : PipelineCall → Bool} {c : PipelineCall}
  {calls : List PipelineCall} {log : PipelineLog} {r : c.Reply} {e : ExecutionId}

theorem attempts_cons_aside (h : c.isAside = true) :
    attempts kind (c :: calls) = attempts kind calls := by
  rw [attempts, List.filter_cons_of_neg (by simp [h]), attempts]

theorem attempts_cons (hkind : kind c = true) (haside : c.isAside = false) :
    attempts kind (c :: calls) = attempts kind calls + 1 := by
  rw [attempts, List.filter_cons_of_pos (by simp [haside]), List.takeWhile_cons_of_pos hkind,
    List.length_cons, attempts]

theorem attempts_cons_of_not (hkind : kind c = false) (haside : c.isAside = false) :
    attempts kind (c :: calls) = 0 := by
  rw [attempts, List.filter_cons_of_pos (by simp [haside]),
    List.takeWhile_cons_of_neg (by simp [hkind]), List.length_nil]

theorem mismatched_cons_of_not (h : c.reportsTooLow r = false) :
    Mismatched (⟨c, r, ()⟩ :: log) ↔ Mismatched log := by
  simp [Mismatched, h]

theorem aborted_cons : Aborted insufficientFunds (⟨c, r, ()⟩ :: log) ↔
    Terminating insufficientFunds log c r ∨ Aborted insufficientFunds log := by
  constructor
  · rintro ⟨later, entry, earlier, hlog, hterm⟩
    rcases split_cons hlog with ⟨rfl, rfl, rfl⟩ | ⟨later', rfl, hrest⟩
    · exact Or.inl hterm
    · exact Or.inr ⟨later', entry, earlier, hrest, hterm⟩
  · rintro (hterm | ⟨later, entry, earlier, rfl, hterm⟩)
    · exact ⟨[], _, log, rfl, hterm⟩
    · exact ⟨_ :: later, entry, earlier, rfl, hterm⟩

theorem AnswersLast.of_cons {ctx : PipelineContext}
    {x : Entry PipelineCall PipelineCall.Reply Unit}
    (h : AnswersLast insufficientFunds ctx (x :: log)) : AnswersLast insufficientFunds ctx log := by
  rintro later entry earlier rfl
  exact h (x :: later) entry earlier rfl

/-- What was cleanup so far stays cleanup with one more cleanup call, or with the first
terminating error. -/
theorem OnlyCleanup.cons (h : OnlyCleanup insufficientFunds e log)
    (hcall : Aborted insufficientFunds log → c.isCleanup e = true) :
    OnlyCleanup insufficientFunds e (⟨c, r, ()⟩ :: log) := by
  intro later entry earlier hlog hterm x hx
  rcases split_cons hlog with ⟨rfl, rfl, rfl⟩ | ⟨later', rfl, hrest⟩
  · exact absurd hx List.not_mem_nil
  · rcases List.mem_cons.mp hx with rfl | hx
    · exact hcall ⟨later', entry, earlier, hrest, hterm⟩
    · exact h later' entry earlier hrest hterm x hx

end

/-! ## The errors along the phases -/

/-- The phases before the first `NonceTooLow`. -/
def Phase.isFirst : Phase → Bool
  | .registering _ | .registered | .reserving _ | .reserved _ | .signing _ _ | .signed _ _
  | .acquiring _ _ | .sending (_ + 1) _ _ _ => true
  | _ => false

/-- The phases of a run that gives up. -/
def Phase.isCleanup : Phase → Bool
  | .releasing _ _ _ | .failing _ | .ended => true
  | _ => false

/-- The attempts and the mismatches counted at each phase. -/
structure CountAt (p : Phase) (log : PipelineLog) : Prop where
  registering : ∀ k, p = .registering k →
    attempts PipelineCall.isRegistration (log.map Entry.call) + 1 = k
  sending : ∀ recoveries nonce txn k, p = .sending recoveries nonce txn k →
    attempts PipelineCall.isBroadcast (log.map Entry.call) + 1 = k
  first : p.isFirst = true → ¬ Mismatched log
  failed : ∀ status, p.failure = some status → status.isFailed = true

/-- What is known at each phase of the terminating errors received so far. -/
structure AbortAt (insufficientFunds : String → Prop) (e : ExecutionId) (p : Phase)
    (log : PipelineLog) : Prop where
  counts : CountAt p log
  onlyCleanup : OnlyCleanup insufficientFunds e log
  cleanup : Aborted insufficientFunds log → p.isCleanup = true
  ended : p = .ended → Aborted insufficientFunds log → ∃ stage reason,
    lastCall (log.map Entry.call) = some (.setStatus e (.failed stage reason))

section

variable {insufficientFunds : String → Prop} {e : ExecutionId} {p q : Phase} {c : PipelineCall}
  {log : PipelineLog} {r : c.Reply}

/-- A phase without attempts to count, before any mismatch. -/
theorem CountAt.ofFirst (hq : ∀ k, q ≠ .registering k)
    (hq' : ∀ recoveries nonce txn k, q ≠ .sending recoveries nonce txn k)
    (hmismatched : ¬ Mismatched log) (hfailure : q.failure = none) : CountAt q log where
  registering k h := absurd h (hq k)
  sending _ _ _ k h := absurd h (hq' _ _ _ k)
  first _ := hmismatched
  failed status h := by
    rw [hfailure] at h
    cases h

/-- A later phase. -/
theorem CountAt.ofLater (hq : q.isFirst = false)
    (hq' : ∀ recoveries nonce txn k, q ≠ .sending recoveries nonce txn k)
    (hfailed : ∀ status, q.failure = some status → status.isFailed = true) :
    CountAt q log where
  registering k h := by
    subst h
    cases hq
  sending _ _ _ k h := absurd h (hq' _ _ _ k)
  first h := by
    rw [hq] at h
    cases h
  failed := hfailed

/-- One more call before any terminating error. -/
theorem AbortAt.next (h : AbortAt insufficientFunds e p log) (hp : p.isCleanup = false)
    (hterm : Terminating insufficientFunds log c r → q.isCleanup = true ∧ q ≠ .ended)
    (hcounts : CountAt q (⟨c, r, ()⟩ :: log)) :
    AbortAt insufficientFunds e q (⟨c, r, ()⟩ :: log) where
  counts := hcounts
  onlyCleanup := by
    refine h.onlyCleanup.cons fun haborted => ?_
    rw [h.cleanup haborted] at hp
    cases hp
  cleanup haborted := by
    rcases aborted_cons.mp haborted with hnow | hbefore
    · exact (hterm hnow).1
    · rw [h.cleanup hbefore] at hp
      cases hp
  ended hended haborted := by
    rcases aborted_cons.mp haborted with hnow | hbefore
    · exact absurd hended (hterm hnow).2
    · rw [h.cleanup hbefore] at hp
      cases hp

/-- A call after which the run gives up, and keeps the nonce. -/
theorem AbortAt.fail {status : PipelineStatus} (h : AbortAt insufficientFunds e p log)
    (hp : p.isCleanup = false) (hfailed : status.isFailed = true) :
    AbortAt insufficientFunds e (.failing status) (⟨c, r, ()⟩ :: log) :=
  h.next hp (fun _ => ⟨rfl, nofun⟩)
    (.ofLater rfl nofun fun _ hstatus => by cases hstatus; exact hfailed)

/-- A call after which the run gives up, and releases the nonce. -/
theorem AbortAt.release {nonce : TxNonce} {status : PipelineStatus} {attempt : ℕ}
    (h : AbortAt insufficientFunds e p log) (hp : p.isCleanup = false)
    (hfailed : status.isFailed = true) :
    AbortAt insufficientFunds e (.releasing nonce status attempt) (⟨c, r, ()⟩ :: log) :=
  h.next hp (fun _ => ⟨rfl, nofun⟩)
    (.ofLater rfl nofun fun _ hstatus => by cases hstatus; exact hfailed)

/-- A call before the first mismatch whose reply is no error of the class. -/
theorem AbortAt.first (h : AbortAt insufficientFunds e p log) (hp : p.isFirst = true)
    (hlow : c.reportsTooLow r = false) (hterm : ¬ Terminating insufficientFunds log c r)
    (hq : ∀ k, q ≠ .registering k)
    (hq' : ∀ recoveries nonce txn k, q ≠ .sending recoveries nonce txn k)
    (hfailure : q.failure = none) : AbortAt insufficientFunds e q (⟨c, r, ()⟩ :: log) :=
  h.next (by cases p <;> first | rfl | cases hp) (fun h => absurd h hterm)
    (.ofFirst hq hq' ((mismatched_cons_of_not hlow).not.mpr (h.counts.first hp)) hfailure)

/-- A call after the first mismatch whose reply is no error of the class. -/
theorem AbortAt.later (h : AbortAt insufficientFunds e p log) (hp : p.isCleanup = false)
    (hterm : ¬ Terminating insufficientFunds log c r) (hq : q.isFirst = false)
    (hq' : ∀ recoveries nonce txn k, q ≠ .sending recoveries nonce txn k)
    (hfailure : q.failure = none) : AbortAt insufficientFunds e q (⟨c, r, ()⟩ :: log) :=
  h.next hp (fun h => absurd h hterm) (.ofLater hq hq' fun status hstatus => by
    rw [hfailure] at hstatus
    cases hstatus)

/-- One more call of the cleanup. -/
theorem AbortAt.clean (h : AbortAt insufficientFunds e p log) (hcall : c.isCleanup e = true)
    (hq : q.isCleanup = true)
    (hended : q ≠ .ended) (hcounts : CountAt q (⟨c, r, ()⟩ :: log)) :
    AbortAt insufficientFunds e q (⟨c, r, ()⟩ :: log) where
  counts := hcounts
  onlyCleanup := h.onlyCleanup.cons fun _ => hcall
  cleanup _ := hq
  ended hq' := absurd hq' hended

/-- The failed status ends the run. -/
theorem AbortAt.conclude {status : PipelineStatus} {u : Unit}
    (h : AbortAt insufficientFunds e p log) (hfailed : status.isFailed = true) :
    AbortAt insufficientFunds e .ended (⟨.setStatus e status, u, ()⟩ :: log) where
  counts := .ofLater rfl nofun nofun
  onlyCleanup := h.onlyCleanup.cons fun _ => by simp [PipelineCall.isCleanup, hfailed]
  cleanup _ := rfl
  ended _ _ := by
    cases status with
    | failed stage reason => exact ⟨stage, reason, lastCall_cons rfl⟩
    | _ => cases hfailed

theorem Terminating.not_aside (h : Terminating insufficientFunds log c r) :
    c.isAside = false := by
  cases h <;> rfl

/-- Waiting and telemetry leave everything as it is. -/
theorem AbortAt.aside (h : AbortAt insufficientFunds e p log) (haside : c.isAside = true) :
    AbortAt insufficientFunds e p (⟨c, r, ()⟩ :: log) := by
  have hlow : c.reportsTooLow r = false := by cases c <;> first | rfl | cases haside
  have hclean : c.isCleanup e = true := by cases c <;> first | rfl | cases haside
  have hterm : ¬ Terminating insufficientFunds log c r := fun hterm => by
    rw [hterm.not_aside] at haside
    cases haside
  have haborted : Aborted insufficientFunds (⟨c, r, ()⟩ :: log)
      ↔ Aborted insufficientFunds log :=
    aborted_cons.trans (or_iff_right hterm)
  refine ⟨⟨fun k hp => ?_, fun recoveries nonce txn k hp => ?_, fun hp => ?_,
    h.counts.failed⟩, h.onlyCleanup.cons fun _ => hclean,
    fun hlog => h.cleanup (haborted.mp hlog), fun hp hlog => ?_⟩
  · rw [List.map_cons, attempts_cons_aside haside]
    exact h.counts.registering k hp
  · rw [List.map_cons, attempts_cons_aside haside]
    exact h.counts.sending recoveries nonce txn k hp
  · rw [mismatched_cons_of_not hlow]
    exact h.counts.first hp
  · rw [List.map_cons, lastCall_cons_aside haside]
    exact h.ended hp (haborted.mp hlog)

/-- A failed attempt to register: the stage goes on only when the error is none of the
class. -/
theorem AbortAt.register {ctx : PipelineContext} {err : RelayHostError} {attempt : ℕ}
    {txn : Eip1559Transaction} {clientConfig : ClientConfig}
    (h : AbortAt insufficientFunds e (.registering attempt) log)
    (hlast : AnswersLast insufficientFunds ctx
      (⟨.registerTransaction e txn clientConfig, .error err, ()⟩ :: log)) :
    AbortAt insufficientFunds e
      (attempted ctx.retryConfig.maxTotal.toNat .registering attempt (fun _ : Unit => .registered)
        (fun err => .failing (CortexError.relayHost err).status) (.error (.retry err)))
      (⟨.registerTransaction e txn clientConfig, .error err, ()⟩ :: log) := by
  have hattempt := h.counts.registering attempt rfl
  by_cases hmax : attempt = ctx.retryConfig.maxTotal.toNat
  · rw [attempted, if_pos hmax]
    exact h.fail rfl rfl
  · rw [attempted, if_neg hmax]
    refine h.next rfl (fun hterm => absurd ?_ hmax)
      ⟨fun k hk => ?_, by rintro _ _ _ _ ⟨⟩, fun _ => ?_, by rintro _ ⟨⟩⟩
    · exact hattempt.symm.trans (hlast [] _ log rfl hterm rfl)
    · cases hk
      rw [List.map_cons, attempts_cons rfl rfl, hattempt]
    · rw [mismatched_cons_of_not rfl]
      exact h.counts.first rfl

/-- A failed attempt to broadcast that is retried. -/
theorem AbortAt.resend {ctx : PipelineContext} {err : BroadcastError} {attempt recoveries : ℕ}
    {chainId : ChainId} {fromAddress : Address} {nonce : TxNonce} {txn : SignedTransaction}
    {stickyIndex : ℕ}
    (h : AbortAt insufficientFunds e (.sending recoveries nonce txn attempt) log)
    (hlast : AnswersLast insufficientFunds ctx
      (⟨.broadcast chainId fromAddress e txn stickyIndex, .error err, ()⟩ :: log))
    (hretry : broadcastDecision (.error err) = .error (.retry err)) :
    AbortAt insufficientFunds e
      (attempted ctx.retryConfig.maxTotal.toNat (.sending recoveries nonce txn) attempt
        (fun outcome : BroadcastOutcome => .broadcasted nonce outcome.txnHash)
        (afterBroadcastError recoveries nonce) (.error (.retry err)))
      (⟨.broadcast chainId fromAddress e txn stickyIndex, .error err, ()⟩ :: log) := by
  have hattempt := h.counts.sending recoveries nonce txn attempt rfl
  by_cases hmax : attempt = ctx.retryConfig.maxTotal.toNat
  · rw [attempted, if_pos hmax]
    cases err with
    | nonceTooLow a b => cases hretry
    | internal _ | databaseError _ | invariant _ => exact h.fail rfl rfl
    | missingProvider _ | rejected _ | unexpected _ | rpcError _ => exact h.release rfl rfl
  · rw [attempted, if_neg hmax]
    refine h.next rfl (fun hterm => absurd ?_ hmax)
      ⟨by rintro _ ⟨⟩, fun _ _ _ k hk => ?_, fun hfirst => ?_, by rintro _ ⟨⟩⟩
    · refine hattempt.symm.trans (hlast [] _ log rfl hterm ?_)
      cases hterm with
      | insufficientFunds | missingProvider | nonceTooLow => first | rfl | cases hretry
    · cases hk
      rw [List.map_cons, attempts_cons rfl rfl, hattempt]
    · rw [mismatched_cons_of_not (by cases err <;> first | rfl | cases hretry)]
      exact h.counts.first (by cases recoveries <;> first | rfl | cases hfirst)

end

/-- **Every call of a pipeline keeps what is known of the terminating errors.** -/
theorem abortOutline (ctx : PipelineContext) (insufficientFunds : String → Prop) :
    Outline (Contract.free.logged fun _ x => AnswersLast insufficientFunds ctx x.2 →
        OnlyCleanup insufficientFunds ctx.executionId x.2) ctx
      fun p x => AnswersLast insufficientFunds ctx x.2 →
        AbortAt insufficientFunds ctx.executionId p x.2 where
  stable hw hrely := by
    rw [hrely.2]
    exact hw
  call := by
    rintro p c next ⟨_, log⟩ hcall h
    refine ⟨⟨trivial, fun hlast => (h hlast).onlyCleanup⟩, ?_⟩
    rintro r ⟨_, _⟩ ⟨-, rfl⟩ hlast
    show AbortAt insufficientFunds ctx.executionId (next r) _
    have h : AbortAt insufficientFunds ctx.executionId p log := h hlast.of_cons
    cases hcall with
    | genRange window => exact h.aside rfl
    | sleep delay => exact h.aside rfl
    | telemetry call => exact h.aside rfl
    | unreachable _ message _ => cases r
    | register attempt =>
        cases r with
        | ok _ => exact h.first rfl rfl nofun nofun nofun rfl
        | error err => exact h.register hlast
    | accept => exact h.first rfl rfl nofun nofun nofun rfl
    | reserve attempt =>
        exact attempted_of (H := fun q => AbortAt _ _ q _)
          (fun _ => h.first rfl rfl nofun nofun nofun rfl)
          (fun _ _ => h.first rfl rfl nofun nofun nofun rfl) fun _ _ => h.fail rfl rfl
    | showReserved nonce => exact h.first rfl rfl nofun nofun nofun rfl
    | sign nonce attempt =>
        exact attempted_of (H := fun q => AbortAt _ _ q _)
          (fun _ => h.first rfl rfl nofun nofun nofun rfl)
          (fun _ _ => h.first rfl rfl nofun nofun nofun rfl) fun _ _ => h.release rfl rfl
    | showSigned nonce txn => exact h.first rfl rfl nofun nofun nofun rfl
    | acquire nonce txn =>
        match r with
        | .ok (some stickyIndex) =>
            -- no attempt to broadcast has been made
            refine h.next rfl nofun ⟨nofun, fun _ _ _ k hk => ?_, fun _ => ?_, nofun⟩
            · cases hk
              rw [List.map_cons, attempts_cons_of_not rfl rfl]
            · exact (mismatched_cons_of_not rfl).not.mpr (h.counts.first rfl)
        | .ok none => exact h.release rfl rfl
        | .error err => exact h.release rfl rfl
    | broadcast recoveries nonce txn attempt stickyIndex =>
        match r with
        | .ok outcome => exact h.later rfl nofun rfl nofun rfl
        | .error (.nonceTooLow a b) =>
            -- the second one ends the run, and the first one is not of the class
            cases recoveries with
            | zero => exact h.release rfl rfl
            | succ recoveries =>
                refine h.later rfl (fun hterm => ?_) rfl nofun rfl
                cases hterm with
                | nonceTooLow _ _ hmismatched => exact h.counts.first rfl hmismatched
        | .error (.missingProvider chain) => exact h.release rfl rfl
        | .error (.internal _) | .error (.databaseError _) | .error (.invariant _)
        | .error (.rejected _) | .error (.unexpected _) | .error (.rpcError _) =>
            exact h.resend hlast rfl
    | showMismatch nonce nonceOnChain attemptedNonce => exact h.later rfl nofun rfl nofun rfl
    | consume nonce nonceOnChain attempt =>
        exact attempted_of (H := fun q => AbortAt _ _ q _)
          (fun _ => h.later rfl nofun rfl nofun rfl)
          (fun _ _ => h.later rfl nofun rfl nofun rfl)
          fun _ _ => h.later rfl nofun rfl nofun rfl
    | revert nonceOnChain attempt =>
        exact attempted_of (H := fun q => AbortAt _ _ q _)
          (fun _ => h.later rfl nofun rfl nofun rfl)
          (fun _ _ => h.later rfl nofun rfl nofun rfl)
          fun _ _ => h.later rfl nofun rfl nofun rfl
    | sync nonceOnChain attempt =>
        exact attempted_of (H := fun q => AbortAt _ _ q _)
          (fun _ => h.later rfl nofun rfl nofun rfl)
          (fun _ _ => h.later rfl nofun rfl nofun rfl) fun _ _ => h.fail rfl rfl
    | showSynced nonce => exact h.later rfl nofun rfl nofun rfl
    | resign nonce attempt =>
        exact attempted_of (H := fun q => AbortAt _ _ q _)
          (fun _ => h.later rfl nofun rfl nofun rfl)
          (fun _ _ => h.later rfl nofun rfl nofun rfl) fun _ _ => h.release rfl rfl
    | showResigned nonce txn =>
        refine h.next rfl nofun ⟨nofun, fun _ _ _ k hk => ?_, nofun, nofun⟩
        cases hk
        rw [List.map_cons, attempts_cons_of_not rfl rfl]
    | showBroadcasted nonce txHash => exact h.later rfl nofun rfl nofun rfl
    | validate nonce txHash stickyIndex =>
        match r with
        | .error (.database _) | .error (.internal _) => exact h.fail rfl rfl
        | .error (.rpc _ _) | .error (.reverted _) | .error (.rpcError _) | .ok .notIncluded =>
            exact h.release rfl rfl
        | .ok (.included _ _) | .ok .timeout => exact h.later rfl nofun rfl nofun rfl
    | finalize nonce txHash attempt =>
        exact attempted_of (H := fun q => AbortAt _ _ q _)
          (fun _ => h.later rfl nofun rfl nofun rfl)
          (fun _ _ => h.later rfl nofun rfl nofun rfl)
          fun _ _ => h.later rfl nofun rfl nofun rfl
    | showConfirmed nonce txHash => exact h.later rfl nofun rfl nofun rfl
    | retire nonce attempt =>
        exact attempted_of (H := fun q => AbortAt _ _ q _)
          (fun _ => h.later rfl nofun rfl nofun rfl)
          (fun _ _ => h.later rfl nofun rfl nofun rfl)
          fun _ _ => h.later rfl nofun rfl nofun rfl
    | showTimedOut nonce => exact h.later rfl nofun rfl nofun rfl
    | release nonce status attempt =>
        have hfailed : status.isFailed = true := h.counts.failed status rfl
        have hclean : (PipelineCall.resolve ctx.executionId .released).isCleanup
            ctx.executionId = true := decide_eq_true rfl
        exact attempted_of (H := fun q => AbortAt _ _ q _)
          (fun _ => h.clean hclean rfl nofun
            (.ofLater rfl nofun fun _ hstatus => by cases hstatus; exact hfailed))
          (fun _ _ => h.clean hclean rfl nofun
            (.ofLater rfl nofun fun _ hstatus => by cases hstatus; exact hfailed))
          fun _ _ => h.clean hclean rfl nofun
            (.ofLater rfl nofun fun _ hstatus => by cases hstatus; exact hfailed)
    | fail status => exact h.conclude (h.counts.failed status rfl)

/-! ## Runs that give up -/

theorem wp_runPipeline_aborts (ctx : PipelineContext) (insufficientFunds : String → Prop) :
    wp (Contract.free.logged fun _ x => AnswersLast insufficientFunds ctx x.2 →
        OnlyCleanup insufficientFunds ctx.executionId x.2) (runPipeline ctx)
      (fun _ x => AnswersLast insufficientFunds ctx x.2 →
        AbortAt insufficientFunds ctx.executionId .ended x.2) ((), []) := by
  refine (abortOutline ctx insufficientFunds).wp_runPipeline fun _ => ?_
  have hsplit : ∀ later entry (earlier : PipelineLog), [] ≠ later ++ entry :: earlier := by simp
  refine ⟨⟨fun k hk => ?_, nofun, fun _ => ?_, nofun⟩, fun later entry earlier h => ?_, ?_, nofun⟩
  · cases hk
    rfl
  · simp [Mismatched]
  · exact absurd h (hsplit later entry earlier)
  · rintro ⟨later, entry, earlier, h, -⟩
    exact absurd h (hsplit later entry earlier)

/-- **Terminating errors end a run.**  In a run in which every refusal of the relay host and
every refusal for insufficient funds answers the last attempt, there is only cleanup after
a terminating error; the run is bounded, and at its end the last call records the failure. -/
theorem runPipeline_aborts (ctx : PipelineContext) (insufficientFunds : String → Prop)
    {log : PipelineLog} {p : PipelineProg Unit} {u : Unit}
    (hreach : (runPipeline ctx).Reaches Contract.free () log p u)
    (hlast : AnswersLast insufficientFunds ctx log) :
    OnlyCleanup insufficientFunds ctx.executionId log
    ∧ log.length ≤ 12 * ctx.stageCalls + 17
    ∧ (p = .ret () → Aborted insufficientFunds log → ∃ stage reason,
      lastCall (log.map Entry.call)
        = some (.setStatus ctx.executionId (.failed stage reason))) := by
  have hwp := wp_runPipeline_aborts ctx insufficientFunds
  refine ⟨?_, ?_, fun hp haborted => ?_⟩
  · exact hreach.always (I := fun x => AnswersLast insufficientFunds ctx x.2 →
      OnlyCleanup insufficientFunds ctx.executionId x.2)
      (wp_mono hwp fun _ x h hx => (h hx).onlyCleanup) hlast
  · simpa using (within_runPipeline.leads hreach.leads).1
  · subst hp
    exact (hreach.ended hwp hlast).ended rfl haborted

/-- A relay host that refuses a transaction. -/
def refusingReply : (c : PipelineCall) → Option c.Reply
  | .registerTransaction _ _ _ => some (.error (.validationFailed "gas limit is zero"))
  | c => smoothReply c

/-- The refusal, as a call of a run and its reply. -/
def refusal : Entry PipelineCall PipelineCall.Reply Unit where
  call := .registerTransaction samplePipeline.executionId samplePipeline.txn
    samplePipeline.clientConfig
  reply := .error (.validationFailed "gas limit is zero")
  before := ()

theorem terminating_refusal (earlier : PipelineLog) :
    Terminating (fun _ => False) earlier refusal.call refusal.reply := .validationFailed _

def withoutRetries : PipelineContext :=
  { samplePipeline with retryConfig := { RetryConfig.default with maxAttempts := 0 } }

/-- Without retries the only attempt to register is the last one. -/
theorem runPipeline_aborts_at_once :
    ∃ log p u, (runPipeline withoutRetries).Reaches Contract.free () log p u
      ∧ Aborted (fun _ => False) log
      ∧ OnlyCleanup (fun _ => False) withoutRetries.executionId log := by
  have hrun : ((runPipeline withoutRetries).follow
      (fun c _ => (refusingReply c).map fun r => (r, ())) 1 ()).map (fun run => run.1)
      = some [refusal] := rfl
  obtain ⟨log, p, u, hreach, rfl⟩ :=
    exists_reaches (E := Contract.free) (fun _ _ _ _ _ => trivial) hrun
  refine ⟨[refusal], p, u, hreach, ⟨[], refusal, [], rfl, terminating_refusal []⟩,
    (runPipeline_aborts _ _ hreach fun later entry earlier hlog _ _ => ?_).1⟩
  rcases split_cons hlog with ⟨rfl, rfl, rfl⟩ | ⟨later, rfl, hrest⟩
  · rfl
  · simp at hrest

/-- What the relay host refuses is sent to it again. -/
theorem runPipeline_registers_again :
    ¬ ∀ log p u, (runPipeline samplePipeline).Reaches Contract.free () log p u →
      OnlyCleanup (fun _ => False) samplePipeline.executionId log := by
  intro hclaim
  have hrun : ((runPipeline samplePipeline).follow
      (fun c _ => (refusingReply c).map fun r => (r, ())) 4 ()).map (fun run => run.1)
      = some [refusal, ⟨.sleep (.fromMillis 0), (), ()⟩, ⟨.genRange 50, (0 : UInt64), ()⟩,
        refusal] := rfl
  obtain ⟨log, p, u, hreach, rfl⟩ :=
    exists_reaches (E := Contract.free) (fun _ _ _ _ _ => trivial) hrun
  have hclean := hclaim _ p u hreach [_, _, _] _ [] rfl (terminating_refusal []) _
    (List.mem_cons_self ..)
  exact absurd hclean (by decide)

end Lobby
