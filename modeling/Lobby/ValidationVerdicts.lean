/-
# Validation verdicts

Complete runs of `handle_validation` with the log of their calls.  A poll ends at the first
round whose replies settle it, and `Verdict` says for each way of ending what it answers and
what it leaves in the row.  For an execution without a row the recorded state and the reply
are justified exactly when no RPC request failed and every inclusion that was accepted names
a known block that is deep enough (`verdict_justified_iff`): an error while the receipt is
fetched is recorded as `not_included`, one while the block number is fetched leaves the row
`pending`, and a missing or future block counts as block 0 or depth 0.
-/
import Lobby.RunLog
import Lobby.ValidatorEngine

namespace Lobby

open Revisions Interaction Prog

/-! ## What a log shows -/

namespace ValidatorCall

/-- The error of a statement. -/
@[simp]
def queryError : (c : ValidatorCall) → c.Reply → Option SqlxError
  | .query _, .error err => some err
  | _, _ => none

/-- A reading of the clock. -/
@[simp]
def instantRead : (c : ValidatorCall) → c.Reply → Option Timestamp
  | .instant, now => some now
  | _, _ => none

/-- A receipt. -/
@[simp]
def receiptSeen : (c : ValidatorCall) → c.Reply → Option TransactionReceipt
  | .getTransactionReceipt _ _ _, .ok receipt => receipt
  | _, _ => none

/-- The error of the request for a receipt. -/
@[simp]
def receiptError : (c : ValidatorCall) → c.Reply → Option LobbyRpcError
  | .getTransactionReceipt _ _ _, .error err => some err
  | _, _ => none

/-- The number of the current block. -/
@[simp]
def currentBlock : (c : ValidatorCall) → c.Reply → Option UInt64
  | .getBlockNumber _ _, .ok current => some current
  | _, _ => none

/-- The error of the request for the current block. -/
@[simp]
def blockError : (c : ValidatorCall) → c.Reply → Option LobbyRpcError
  | .getBlockNumber _ _, .error err => some err
  | _, _ => none

/-- Whether a call is a request to the node. -/
@[simp]
def isRequest : ValidatorCall → Bool
  | .getTransactionReceipt _ _ _ | .getBlockNumber _ _ => true
  | .query _ | .instant | .sleep _ | .exhausted => false

/-- What a call of the handler may be answered and do.  Statements run at any time and may
fail; the node answers anything. -/
def Answered : (c : ValidatorCall) → ValidationTable → c.Reply → ValidationTable → Prop
  | .query q, t, reply, t' => ∃ now, Answers t (q.execute now t) reply t'
  | _, t, _, t' => t' = t

end ValidatorCall

open ValidatorCall

abbrev ValidatorLog : Type := List (Entry ValidatorCall ValidatorCall.Reply ValidationTable)

/-- The surroundings of one call of the handler. -/
abbrev validatorContract : Contract ValidatorCall ValidatorCall.Reply ValidationTable :=
  .alone (fun _ _ => True) ValidatorCall.Answered

/-- Every current block that was read, with the receipt it was read for. -/
@[simp]
def ValidatorLog.checks : ValidatorLog → List (TransactionReceipt × UInt64)
  | [] => []
  | entry :: earlier =>
    ((currentBlock entry.call entry.reply).bind fun current =>
      (readings receiptSeen earlier).head?.map fun receipt => (receipt, current)).toList
      ++ checks earlier

namespace ValidatorConfig

variable (config : ValidatorConfig)

/-- The block of a receipt and the confirmations the handler counts for it. -/
def confirmations (check : TransactionReceipt × UInt64) : ℕ :=
  check.2.toNat - (check.1.blockNumber.getD 0).toNat

/-- The handler accepts an inclusion. -/
def accepts (check : TransactionReceipt × UInt64) : Bool :=
  decide (confirmations check ≥ config.requiredConfirmations.toNat)

/-- A receipt with status true and a known block that is as deep as required. -/
def Confirms (block : ℕ) (check : TransactionReceipt × UInt64) : Prop :=
  check.1.status = true ∧ (∃ n, check.1.blockNumber = some n ∧ n.toNat = block)
    ∧ (config.requiredConfirmations.toNat : ℤ) ≤ check.2.toNat - block

end ValidatorConfig

/-! ## Justified verdicts -/

/-- The recorded state and the reply of a run match, and are justified by what the node and
the clock answered. -/
structure Justified (config : ValidatorConfig) (e : ExecutionId) (log : ValidatorLog)
    (reply : Except ValidatorError ValidatorOutcome) (t : ValidationTable) : Prop where
  replied : ∀ block confirmations, reply = .ok (.included block confirmations) →
    (∃ r ∈ t.rows, r.executionId = e ∧ r.state = .included)
      ∧ ∃ check ∈ log.checks, config.Confirms block check
  included : ∀ r ∈ t.rows, r.executionId = e → r.state = .included →
    ∃ block confirmations, reply = .ok (.included block confirmations)
      ∧ ∃ check ∈ log.checks, config.Confirms block check
  notIncluded : ∀ r ∈ t.rows, r.executionId = e → r.state = .notIncluded →
    ∃ receipt ∈ readings receiptSeen log, receipt.status = false
  timedOut : ∀ r ∈ t.rows, r.executionId = e → r.state = .timedOut →
    (∃ start now, (readings instantRead log).getLast? = some start
      ∧ now ∈ readings instantRead log ∧ config.timeout.isExceededBy (now - start) = true)
    ∧ (∀ receipt ∈ readings receiptSeen log, receipt.status = true)
    ∧ ∀ block, ∀ check ∈ log.checks, ¬ config.Confirms block check
  closed : ∀ r ∈ t.rows, r.executionId = e → r.state ≠ .pending

/-- No request failed, and every inclusion that was accepted names a known block that is as
deep as required. -/
structure Trustworthy (config : ValidatorConfig) (log : ValidatorLog) : Prop where
  receipts : readings receiptError log = []
  blocks : readings blockError log = []
  depth : ∀ check ∈ log.checks, config.accepts check = true →
    ∃ n, check.1.blockNumber = some n
      ∧ n.toNat + config.requiredConfirmations.toNat ≤ check.2.toNat

/-! ## How a poll ends -/

/-- What a log shows of the requests: the errors, the receipts with status false, and the
inclusions that were accepted. -/
structure Sees (config : ValidatorConfig) (log : ValidatorLog)
    (receiptErrors blockErrors : List LobbyRpcError) (reverts : List TransactionReceipt)
    (accepted : List (TransactionReceipt × UInt64)) : Prop where
  receiptErrors : readings receiptError log = receiptErrors
  blockErrors : readings blockError log = blockErrors
  reverts : (readings receiptSeen log).filter (fun receipt => !receipt.status) = reverts
  accepted : log.checks.filter config.accepts = accepted

/-- The ways a poll ends, with its reply and the state the row is left in. -/
inductive Verdict (config : ValidatorConfig) (txHash : TxHash) (log : ValidatorLog) :
    Except ValidatorError ValidatorOutcome → ValidationState → Prop where
  | timedOut {start now} (hstart : (readings instantRead log).getLast? = some start)
      (hnow : now ∈ readings instantRead log)
      (hlate : config.timeout.isExceededBy (now - start) = true)
      (hsees : Sees config log [] [] [] []) : Verdict config txHash log (.ok .timeout) .timedOut
  | unanswered {err} (hsees : Sees config log [err] [] [] []) :
      Verdict config txHash log (.error (.rpcError err.debug)) .notIncluded
  | reverted {receipt} (hsees : Sees config log [] [] [receipt] []) :
      Verdict config txHash log (.error (.reverted txHash)) .notIncluded
  | headless {err} (hsees : Sees config log [] [err] [] []) :
      Verdict config txHash log (.error (.rpcError err.debug)) .pending
  | included {check} (hsees : Sees config log [] [] [] [check]) :
      Verdict config txHash log (.ok (.included (check.1.blockNumber.getD 0).toNat
        (ValidatorConfig.confirmations check))) .included

/-- A poll has ended: a statement failed, or the row is left as the verdict says. -/
def Polled (config : ValidatorConfig) (txHash : TxHash)
    (RowIs : ValidationState → ValidationTable → Prop)
    (reply : Except ValidatorError ValidatorOutcome) (x : ValidationTable × ValidatorLog) :
    Prop :=
  (∃ err ∈ readings queryError x.2, reply = .error (.database err))
  ∨ ∃ s, Verdict config txHash x.2 reply s ∧ RowIs s x.1

/-- Recording an outcome moves a row that is pending. -/
def RecordsOutcome (e : ExecutionId) (RowIs : ValidationState → ValidationTable → Prop) :
    Prop :=
  ∀ now t s rows t', RowIs .pending t →
    (ValidationQuery.recordOutcome e s).execute now t = .ok (rows, t') → 0 < rows ∧ RowIs s t'

/-- The outcome a recorded state is answered as. -/
def ValidationState.cached : ValidationState → Option ValidatorOutcome
  | .included => some (.included 0 0)
  | .notIncluded => some .notIncluded
  | .pending => none
  | .timedOut => none

/-- The ways a call of the handler ends. -/
inductive Ended (config : ValidatorConfig) (e : ExecutionId) (txHash : TxHash)
    (RowIs : ValidationState → ValidationTable → Prop) (t : ValidationTable)
    (reply : Except ValidatorError ValidatorOutcome) (x : ValidationTable × ValidatorLog) :
    Prop where
  | failed {err} (herr : err ∈ readings queryError x.2) (hreply : reply = .error (.database err))
  | cached {r outcome} (hnewest : t.newest e = some r) (hcached : r.state.cached = some outcome)
      (hreply : reply = .ok outcome) (htable : x.1 = t)
      (hlog : ∃ found, x.2 = [⟨.query (.latest e), found, t⟩])
  | refused {message} (hopen : ∀ r, t.newest e = some r → r.state.cached = none)
      (hreply : reply = .error (.internal message)) (htable : x.1 = t)
      (hlog : ∃ found, x.2 = [⟨.query (.latest e), found, t⟩])
  | polled {s} (hopen : ∀ r, t.newest e = some r → r.state.cached = none)
      (hverdict : Verdict config txHash x.2 reply s) (hrow : RowIs s x.1)

section

variable {config : ValidatorConfig} {chainId : ChainId} {e : ExecutionId} {txHash : TxHash}
  {stickyIndex rounds : ℕ} {start : Timestamp} {log : ValidatorLog} {t t' : ValidationTable}
  {RowIs : ValidationState → ValidationTable → Prop}
  {reply : Except ValidatorError ValidatorOutcome} {s : ValidationState}
  {receiptErrors blockErrors : List LobbyRpcError} {reverts : List TransactionReceipt}
  {accepted : List (TransactionReceipt × UInt64)}

/-! ## Logs with one more call -/

/-- What one more call shows is added to what was seen. -/
theorem Sees.cons (h : Sees config log receiptErrors blockErrors reverts accepted)
    {entry : Entry ValidatorCall ValidatorCall.Reply ValidationTable}
    {receiptErrors' blockErrors' : List LobbyRpcError} {reverts' : List TransactionReceipt}
    {accepted' : List (TransactionReceipt × UInt64)}
    (h₁ : (receiptError entry.call entry.reply).toList ++ receiptErrors = receiptErrors')
    (h₂ : (blockError entry.call entry.reply).toList ++ blockErrors = blockErrors')
    (h₃ : (receiptSeen entry.call entry.reply).toList.filter (fun receipt => !receipt.status)
      ++ reverts = reverts')
    (h₄ : ((currentBlock entry.call entry.reply).bind fun current =>
        (readings receiptSeen log).head?.map fun receipt => (receipt, current)).toList.filter
          config.accepts ++ accepted = accepted') :
    Sees config (entry :: log) receiptErrors' blockErrors' reverts' accepted' where
  receiptErrors := by rw [readings_cons, h.receiptErrors, h₁]
  blockErrors := by rw [readings_cons, h.blockErrors, h₂]
  reverts := by rw [readings_cons, List.filter_append, h.reverts, h₃]
  accepted := by rw [ValidatorLog.checks, List.filter_append, h.accepted, h₄]

/-- A call that is no request shows nothing of the requests. -/
theorem Sees.aside (h : Sees config log receiptErrors blockErrors reverts accepted)
    {entry : Entry ValidatorCall ValidatorCall.Reply ValidationTable}
    (hentry : entry.call.isRequest = false) :
    Sees config (entry :: log) receiptErrors blockErrors reverts accepted := by
  obtain ⟨c, r, before⟩ := entry
  cases c with
  | getTransactionReceipt | getBlockNumber => cases hentry
  | query q | instant | sleep | exhausted => exact h.cons rfl rfl rfl rfl

theorem Verdict.query (h : Verdict config txHash log reply s) {q : ValidationQuery}
    {r : (ValidatorCall.query q).Reply} :
    Verdict config txHash (⟨.query q, r, t⟩ :: log) reply s := by
  cases h with
  | timedOut hstart hnow hlate hsees =>
      exact .timedOut (by simpa using hstart) (by simpa using hnow) hlate (hsees.aside rfl)
  | unanswered hsees => exact .unanswered (hsees.aside rfl)
  | reverted hsees => exact .reverted (hsees.aside rfl)
  | headless hsees => exact .headless (hsees.aside rfl)
  | included hsees => exact .included (hsees.aside rfl)

/-! ## The poll -/

/-- An outcome is recorded before the reply. -/
theorem wp_recordAndReply (hrecord : RecordsOutcome e RowIs) {outcome : ValidatorOutcome}
    (hrow : RowIs .pending t) (hverdict : Verdict config txHash log reply outcome.state) :
    wp (validatorContract.logged noDemand) (recordAndReply e outcome reply)
      (Polled config txHash RowIs) (t, log) := by
  unfold recordAndReply recordOutcome
  refine wp_alone_call ⟨trivial, trivial⟩ fun rows t₁ hstep => ?_
  obtain ⟨now, hanswers⟩ := hstep
  cases rows with
  | error err => exact wp_alone_ret (Or.inl ⟨err, by simp, rfl⟩)
  | ok rows =>
      cases hanswers with
      | done hdone =>
          obtain ⟨hpos, hrow'⟩ := hrecord now t _ rows t₁ hrow hdone
          show wp _ ((if rows > 0 then _ else _ : ValidatorProg _) >>= _) _ _
          rw [if_pos hpos]
          exact wp_alone_ret (Or.inr ⟨_, hverdict.query, hrow'⟩)

/-- One round of a poll: it settles the verdict, or shows nothing. -/
theorem wp_pollRound (hrecord : RecordsOutcome e RowIs) (hrow : RowIs .pending t)
    (hstart : (readings instantRead log).getLast? = some start)
    (hsees : Sees config log [] [] [] [])
    (hnext : ∀ {log : ValidatorLog}, (readings instantRead log).getLast? = some start →
      Sees config log [] [] [] [] →
      wp (validatorContract.logged noDemand)
        (pollReceipt config chainId e txHash stickyIndex start rounds)
        (Polled config txHash RowIs) (t, log)) :
    wp (validatorContract.logged noDemand)
      (pollReceipt config chainId e txHash stickyIndex start (rounds + 1))
      (Polled config txHash RowIs) (t, log) := by
  unfold pollReceipt
  refine wp_alone_call ⟨trivial, trivial⟩ fun now t₁ hstep => ?_
  obtain rfl : t₁ = t := hstep
  have hstart' : (readings instantRead (⟨.instant, now, t₁⟩ :: log)).getLast? = some start := by
    simp [List.getLast?_cons, hstart]
  have hsees' : Sees config (⟨.instant, now, t₁⟩ :: log) [] [] [] [] := hsees.aside rfl
  by_cases hlate : config.timeout.isExceededBy (now - start) = true
  · show wp _ (if _ then _ else _ : ValidatorProg _) _ _
    rw [if_pos hlate]
    exact wp_recordAndReply hrecord hrow (.timedOut hstart' (by simp) hlate hsees')
  · show wp _ (if _ then _ else _ : ValidatorProg _) _ _
    rw [if_neg hlate]
    refine wp_alone_call ⟨trivial, trivial⟩ fun answer t₂ hstep => ?_
    obtain rfl : t₂ = t₁ := hstep
    rcases answer with err | _ | receipt
    · exact wp_recordAndReply hrecord hrow (.unanswered (hsees'.cons rfl rfl rfl rfl))
    · -- not mined yet
      refine wp_alone_call ⟨trivial, trivial⟩ fun _ t₃ hstep => ?_
      obtain rfl : t₃ = t₂ := hstep
      exact hnext (by simpa using hstart') ((hsees'.cons rfl rfl rfl rfl).aside rfl)
    · by_cases hstatus : (!receipt.status) = true
      · show wp _ (if _ then _ else _ : ValidatorProg _) _ _
        rw [if_pos hstatus]
        have hreceipt : Sees config (⟨.getTransactionReceipt chainId stickyIndex txHash,
            .ok (some receipt), t₂⟩ :: ⟨.instant, now, t₂⟩ :: log) [] [] [receipt] [] :=
          hsees'.cons rfl rfl (by simpa using hstatus) rfl
        exact wp_recordAndReply hrecord hrow (.reverted hreceipt)
      · show wp _ (if _ then _ else _ : ValidatorProg _) _ _
        rw [if_neg hstatus]
        have hreceipt : Sees config (⟨.getTransactionReceipt chainId stickyIndex txHash,
            .ok (some receipt), t₂⟩ :: ⟨.instant, now, t₂⟩ :: log) [] [] [] [] :=
          hsees'.cons rfl rfl (by simpa using hstatus) rfl
        refine wp_alone_call ⟨trivial, trivial⟩ fun head t₃ hstep => ?_
        obtain rfl : t₃ = t₂ := hstep
        cases head with
        | error err =>
            -- the early return: the row stays pending
            exact wp_alone_ret
              (Or.inr ⟨_, .headless (hreceipt.cons rfl rfl rfl rfl), hrow⟩)
        | ok current =>
            have hchecked : ∀ {accepted}, [(receipt, current)].filter config.accepts
                = accepted → Sees config (⟨.getBlockNumber chainId stickyIndex, .ok current,
                  t₃⟩ :: ⟨.getTransactionReceipt chainId stickyIndex txHash,
                  .ok (some receipt), t₃⟩ :: ⟨.instant, now, t₃⟩ :: log) [] [] [] accepted :=
              fun h => hreceipt.cons rfl rfl rfl ((List.append_nil _).trans h)
            show wp _ (if ValidatorConfig.confirmations (receipt, current)
              ≥ config.requiredConfirmations.toNat then _ else _ : ValidatorProg _) _ _
            by_cases hdeep : ValidatorConfig.confirmations (receipt, current)
              ≥ config.requiredConfirmations.toNat
            · rw [if_pos hdeep]
              have haccepts : config.accepts (receipt, current) = true :=
                decide_eq_true hdeep
              exact wp_recordAndReply hrecord hrow
                (.included (hchecked (List.filter_cons_of_pos haccepts)))
            · rw [if_neg hdeep]
              have haccepts : config.accepts (receipt, current) = false :=
                decide_eq_false hdeep
              refine wp_alone_call ⟨trivial, trivial⟩ fun _ t₄ hstep => ?_
              obtain rfl : t₄ = t₃ := hstep
              exact hnext (by simpa using hstart') ((hchecked (by simp [haccepts])).aside rfl)

/-- **How a poll ends**, by induction on the rounds that are left. -/
theorem wp_pollReceipt (hrecord : RecordsOutcome e RowIs) (hrow : RowIs .pending t)
    (hstart : (readings instantRead log).getLast? = some start)
    (hsees : Sees config log [] [] [] []) :
    wp (validatorContract.logged noDemand)
      (pollReceipt config chainId e txHash stickyIndex start rounds)
      (Polled config txHash RowIs) (t, log) := by
  induction rounds generalizing log with
  | zero => exact wp_alone_call ⟨trivial, trivial⟩ fun impossible => nomatch impossible
  | succ rounds ih => exact wp_pollRound hrecord hrow hstart hsees ih

/-- The first statement reads the state of the newest row. -/
theorem checkCachedResult_eq (e : ExecutionId) :
    checkCachedResult e = call (ValidatorCall.query (.latest e)) fun
      | .error err => .ret (.error (.database err))
      | .ok found => .ret (.ok (Option.bind found ValidationState.cached)) := by
  refine congrArg (call _) (funext fun found => ?_)
  rcases found with err | _ | state
  · rfl
  · rfl
  · cases state <;> rfl

/-- **How a call of the handler ends.** -/
theorem wp_handleValidation (hrecord : RecordsOutcome e RowIs)
    (hinsert : (∀ r, t.newest e = some r → r.state.cached = none) → ∀ c now rows t',
      (ValidationQuery.insertRequest c e txHash).execute now t = .ok (rows, t') →
        RowIs .pending t') :
    wp (validatorContract.logged noDemand)
      (handleValidation config rounds chainId e txHash stickyIndex)
      (Ended config e txHash RowIs t) (t, []) := by
  unfold handleValidation
  rw [checkCachedResult_eq]
  refine wp_alone_call ⟨trivial, trivial⟩ fun found t₁ hstep => ?_
  obtain ⟨_, hanswers⟩ := hstep
  cases found with
  | error err => exact wp_alone_ret (.failed (List.mem_singleton_self err) rfl)
  | ok found =>
      cases hanswers with
      | done hdone =>
          obtain ⟨hfound, rfl⟩ := Prod.mk.inj (Except.ok.inj hdone)
          show wp _ ((ret (.ok (found.bind ValidationState.cached)) :
            ValidatorProg (Except ValidatorError (Option ValidatorOutcome))) >>= _) _ _
          cases hcached : found.bind ValidationState.cached with
          | some outcome =>
              obtain ⟨state, rfl, hstate⟩ := Option.bind_eq_some_iff.mp hcached
              obtain ⟨r, hnewest, rfl⟩ := Option.map_eq_some_iff.mp hfound
              exact wp_alone_ret (.cached hnewest hstate rfl rfl ⟨_, rfl⟩)
          | none =>
              have hopen : ∀ r, t.newest e = some r → r.state.cached = none := by
                intro r hnewest
                rw [hnewest] at hfound
                subst hfound
                exact hcached
              unfold recordValidationRequest
              cases chainId.id.toI64 with
              | none => exact wp_alone_ret (.refused hopen rfl rfl ⟨_, rfl⟩)
              | some c =>
                  refine wp_alone_call ⟨trivial, trivial⟩ fun inserted t₂ hstep => ?_
                  obtain ⟨now, hanswers⟩ := hstep
                  cases inserted with
                  | error err => exact wp_alone_ret (.failed (by simp) rfl)
                  | ok inserted =>
                      cases hanswers with
                      | done hdone =>
                          have hrow := hinsert hopen c now _ _ hdone
                          refine wp_alone_call ⟨trivial, trivial⟩ fun start t₃ hstep => ?_
                          obtain rfl : t₃ = t₂ := hstep
                          refine wp_mono (wp_pollReceipt hrecord hrow rfl ⟨rfl, rfl, rfl, rfl⟩)
                            fun reply x hpolled => ?_
                          rcases hpolled with ⟨err, herr, hreply⟩ | ⟨s, hverdict, hrow'⟩
                          · exact .failed herr hreply
                          · exact .polled hopen hverdict hrow'

end

/-! ## The rows of an execution that had none -/

section

variable {config : ValidatorConfig} {chainId : ChainId} {e : ExecutionId} {txHash : TxHash}
  {stickyIndex rounds : ℕ} {log : ValidatorLog} {t t' : ValidationTable} {s : ValidationState}
  {reply : Except ValidatorError ValidatorOutcome} {now : Timestamp}
  {receiptErrors blockErrors : List LobbyRpcError} {reverts : List TransactionReceipt}
  {accepted : List (TransactionReceipt × UInt64)}

/-- The newest row of the execution is in the given state. -/
def NewestIs (e : ExecutionId) (s : ValidationState) (t : ValidationTable) : Prop :=
  ∃ r, t.newest e = some r ∧ r.state = s

/-- Every row of the execution is in the given state, and there is one. -/
def OnlyIs (e : ExecutionId) (s : ValidationState) (t : ValidationTable) : Prop :=
  NewestIs e s t ∧ ∀ r ∈ t.rows, r.executionId = e → r.state = s

theorem recordsOutcome_newest (e : ExecutionId) : RecordsOutcome e (NewestIs e) := by
  rintro now t s n t' ⟨r, hr, hstate⟩ h
  obtain ⟨rfl, _, hnewest⟩ := RequestTable.updateLatest_newest
    (f := ValidationRow.setState now s) (fun _ => rfl) hr (by simp [hstate]) h
  exact ⟨Nat.one_pos, _, hnewest, rfl⟩

theorem recordsOutcome_only (e : ExecutionId) : RecordsOutcome e (OnlyIs e) := by
  rintro now t s n t' ⟨⟨r, hr, hstate⟩, hall⟩ h
  obtain ⟨hpos, hnewest⟩ := recordsOutcome_newest e now t s n t' ⟨r, hr, hstate⟩ h
  refine ⟨hpos, hnewest, fun r' hr' howner => ?_⟩
  obtain ⟨_, hrows, _⟩ := RequestTable.updateLatest_newest
    (f := ValidationRow.setState now s) (fun _ => rfl) hr (by simp [hstate]) h
  obtain ⟨hmem, hrowner, _⟩ := latest_eq_some hr
  rw [hrows, mem_update] at hr'
  obtain ⟨r₀, hr₀, rfl⟩ := hr'
  by_cases hkey : key r₀ ∈ [key r]
  · rw [if_pos hkey]
    rfl
  · -- two pending rows of one execution are one row
    rw [if_neg hkey] at howner
    have hactive : ∀ r ∈ t.rows, r.executionId = e → RequestRow.isActive r = true :=
      fun r hr howner => decide_eq_true (hall r hr howner)
    have heq : r₀ = r := t.eq_of_owner_eq hr₀ hmem (hactive r₀ hr₀ howner)
      (hactive r hmem hrowner) (howner.trans hrowner.symm)
    exact absurd (List.mem_singleton.mpr (congrArg key heq)) hkey

/-- The row that is inserted for an execution that had none. -/
theorem onlyIs_of_insert {c : ℕ} {inserted : Option ℕ}
    (hfresh : ∀ r ∈ t.rows, r.executionId ≠ e)
    (h : (ValidationQuery.insertRequest c e txHash).execute now t = .ok (inserted, t')) :
    OnlyIs e .pending t' := by
  rw [ValidationQuery.execute] at h
  rcases RequestTable.insertUnless_eq_ok.mp h with ⟨⟨r, hr, howner, _⟩, _⟩ | ⟨_, _, hrows⟩
  · exact absurd howner (hfresh r hr)
  · refine ⟨⟨_, RequestTable.newest_of_append hrows rfl rfl, rfl⟩, fun r hr howner => ?_⟩
    rw [hrows, List.mem_append, List.mem_singleton] at hr
    rcases hr with hr | rfl
    · exact absurd howner (hfresh r hr)
    · rfl

/-! ## Justification -/

theorem mem_receiptSeen_of_mem_checks {check : TransactionReceipt × UInt64}
    (h : check ∈ log.checks) : check.1 ∈ readings receiptSeen log := by
  induction log with
  | nil => cases h
  | cons entry log ih =>
      rw [readings_cons]
      refine List.mem_append_right _ ?_
      rcases List.mem_append.mp h with h | h
      · obtain ⟨current, _, hhead⟩ := Option.bind_eq_some_iff.mp (Option.mem_toList.mp h)
        obtain ⟨receipt, hreceipt, rfl⟩ := Option.map_eq_some_iff.mp hhead
        exact List.mem_of_mem_head? hreceipt
      · exact ih h

theorem ValidatorConfig.Confirms.accepts {block : ℕ} {check : TransactionReceipt × UInt64}
    (h : config.Confirms block check) : config.accepts check = true := by
  obtain ⟨_, ⟨n, hn, rfl⟩, hdeep⟩ := h
  refine decide_eq_true ?_
  show check.2.toNat - (check.1.blockNumber.getD 0).toNat ≥ _
  rw [hn, Option.getD_some]
  omega

theorem Sees.status_true (h : Sees config log receiptErrors blockErrors [] accepted) :
    ∀ receipt ∈ readings receiptSeen log, receipt.status = true := by
  intro receipt hreceipt
  have hnot := List.filter_eq_nil_iff.mp h.reverts receipt hreceipt
  simpa using hnot

theorem Sees.not_confirms (h : Sees config log receiptErrors blockErrors reverts []) :
    ∀ block, ∀ check ∈ log.checks, ¬ config.Confirms block check := by
  intro block check hcheck hconfirms
  exact List.filter_eq_nil_iff.mp h.accepted check hcheck hconfirms.accepts

theorem Sees.mem_accepted {check : TransactionReceipt × UInt64}
    (h : Sees config log receiptErrors blockErrors reverts accepted)
    (hcheck : check ∈ log.checks) (haccepts : config.accepts check = true) :
    check ∈ accepted := by
  rw [← h.accepted]
  exact List.mem_filter.mpr ⟨hcheck, haccepts⟩

theorem Sees.accepted_mem {check : TransactionReceipt × UInt64}
    (h : Sees config log receiptErrors blockErrors reverts [check]) :
    check ∈ log.checks ∧ config.accepts check = true := by
  have hmem := List.mem_singleton_self check
  rw [← h.accepted] at hmem
  exact List.mem_filter.mp hmem

theorem Sees.reverted_mem {receipt : TransactionReceipt}
    (h : Sees config log receiptErrors blockErrors [receipt] accepted) :
    receipt ∈ readings receiptSeen log ∧ receipt.status = false := by
  have hmem := List.mem_singleton_self receipt
  rw [← h.reverts, List.mem_filter] at hmem
  exact ⟨hmem.1, by simpa using hmem.2⟩

/-- Without errors and accepted inclusions there is nothing to distrust. -/
theorem Sees.trustworthy (h : Sees config log [] [] reverts []) : Trustworthy config log where
  receipts := h.receiptErrors
  blocks := h.blockErrors
  depth _ hcheck haccepts := nomatch h.mem_accepted hcheck haccepts

/-- A verdict is justified when the replies can be trusted. -/
theorem Verdict.justified (hverdict : Verdict config txHash log reply s)
    (hrow : OnlyIs e s t) (htrust : Trustworthy config log) :
    Justified config e log reply t := by
  obtain ⟨⟨r, hr, hstate⟩, hall⟩ := hrow
  obtain ⟨hmem, howner, _⟩ := latest_eq_some hr
  have hother : ∀ {s'} {P : Prop}, ∀ r ∈ t.rows, r.executionId = e → r.state = s' →
      s ≠ s' → P :=
    fun r hr howner hstate hne => absurd ((hall r hr howner).symm.trans hstate) hne
  cases hverdict with
  | timedOut hstart hnow hlate hsees =>
      exact {
        replied := fun _ _ h => nomatch h
        included := fun r hr howner h => hother r hr howner h nofun
        notIncluded := fun r hr howner h => hother r hr howner h nofun
        timedOut := fun _ _ _ _ =>
          ⟨⟨_, _, hstart, hnow, hlate⟩, hsees.status_true, hsees.not_confirms⟩
        closed := fun r hr howner h => hother r hr howner h nofun }
  | unanswered hsees => exact nomatch hsees.receiptErrors.symm.trans htrust.receipts
  | headless hsees => exact nomatch hsees.blockErrors.symm.trans htrust.blocks
  | @reverted receipt hsees =>
      exact {
        replied := fun _ _ h => nomatch h
        included := fun r hr howner h => hother r hr howner h nofun
        notIncluded := fun _ _ _ _ => ⟨receipt, hsees.reverted_mem⟩
        timedOut := fun r hr howner h => hother r hr howner h nofun
        closed := fun r hr howner h => hother r hr howner h nofun }
  | @included check hsees =>
      have hcheck := hsees.accepted_mem
      obtain ⟨n, hn, hdeep⟩ := htrust.depth check hcheck.1 hcheck.2
      have hblock : n.toNat = (check.1.blockNumber.getD 0).toNat := by rw [hn, Option.getD_some]
      have hconfirms : config.Confirms (check.1.blockNumber.getD 0).toNat check :=
        ⟨hsees.status_true _ (mem_receiptSeen_of_mem_checks hcheck.1), ⟨n, hn, hblock⟩, by omega⟩
      exact {
        replied := fun _ _ h => by
          cases h
          exact ⟨⟨r, hmem, howner, hstate⟩, check, hcheck.1, hconfirms⟩
        included := fun _ _ _ _ => ⟨_, _, rfl, check, hcheck.1, hconfirms⟩
        notIncluded := fun r hr howner h => hother r hr howner h nofun
        timedOut := fun r hr howner h => hother r hr howner h nofun
        closed := fun r hr howner h => hother r hr howner h nofun }

/-- A verdict is justified only when the replies can be trusted. -/
theorem Verdict.trustworthy (hverdict : Verdict config txHash log reply s)
    (hrow : OnlyIs e s t) (hjustified : Justified config e log reply t) :
    Trustworthy config log := by
  obtain ⟨⟨r, hr, hstate⟩, _⟩ := hrow
  obtain ⟨hmem, howner, _⟩ := latest_eq_some hr
  cases hverdict with
  | timedOut _ _ _ hsees => exact hsees.trustworthy
  | reverted hsees => exact hsees.trustworthy
  | unanswered hsees =>
      -- no receipt justifies the recorded state
      obtain ⟨receipt, hreceipt, hfalse⟩ := hjustified.notIncluded r hmem howner hstate
      rw [hsees.status_true receipt hreceipt] at hfalse
      cases hfalse
  | headless hsees => exact absurd hstate (hjustified.closed r hmem howner)
  | @included check hsees =>
      obtain ⟨_, check', hcheck', hconfirms⟩ := hjustified.replied _ _ rfl
      obtain rfl := List.mem_singleton.mp (hsees.mem_accepted hcheck' hconfirms.accepts)
      refine ⟨hsees.receiptErrors, hsees.blockErrors, fun check hcheck haccepts => ?_⟩
      obtain rfl := List.mem_singleton.mp (hsees.mem_accepted hcheck haccepts)
      obtain ⟨_, ⟨n, hn, hblock⟩, hdeep⟩ := hconfirms
      exact ⟨n, hn, by omega⟩

/-- **When a validation verdict is justified.**  For every configuration and every execution
without a row, a run whose statements succeed records and answers what the node and the clock
justify if and only if no request failed and every accepted inclusion names a known block that
is as deep as required. -/
theorem verdict_justified_iff (hfresh : ∀ r ∈ t.rows, r.executionId ≠ e)
    (hrun : (handleValidation config rounds chainId e txHash stickyIndex).Reaches
      validatorContract t log (.ret reply) t') (hsucceed : readings queryError log = []) :
    Justified config e log reply t' ↔ Trustworthy config log := by
  have hnone : t.newest e = none :=
    latest_eq_none_iff.mpr fun r hr howner => absurd howner (hfresh r hr)
  cases hrun.ended (wp_handleValidation (recordsOutcome_only e)
    fun _ _ _ _ _ => onlyIs_of_insert hfresh) with
  | failed herr hreply =>
      have herr : _ ∈ readings queryError log := herr
      rw [hsucceed] at herr
      cases herr
  | cached hnewest _ _ _ _ =>
      rw [hnone] at hnewest
      cases hnewest
  | refused _ hreply htable hlog =>
      -- nothing was asked and nothing recorded
      obtain ⟨found, rfl⟩ : ∃ found, log = [⟨.query (.latest e), found, t⟩] := hlog
      obtain rfl : t' = t := htable
      have hsees : Sees config [⟨.query (.latest e), found, t'⟩] [] [] [] [] :=
        ⟨rfl, rfl, rfl, rfl⟩
      refine iff_of_true ?_ hsees.trustworthy
      have hother : ∀ {P : Prop}, ∀ r ∈ t'.rows, r.executionId = e → P :=
        fun r hr howner => absurd howner (hfresh r hr)
      exact {
        replied := fun _ _ h => by rw [hreply] at h; cases h
        included := fun r hr howner _ => hother r hr howner
        notIncluded := fun r hr howner _ => hother r hr howner
        timedOut := fun r hr howner _ => hother r hr howner
        closed := fun r hr howner _ => hother r hr howner }
  | polled _ hverdict hrow =>
      exact ⟨hverdict.trustworthy hrow, hverdict.justified hrow⟩

end

/-! ## Runs to compute -/

/-- A database without faults at time zero, a clock that stands still, and a node that always
answers the same. -/
def nodeReply (receipt : Except LobbyRpcError (Option TransactionReceipt))
    (current : Except LobbyRpcError UInt64) :
    (c : ValidatorCall) → ValidationTable → Option (c.Reply × ValidationTable)
  | .query q, t => some (DatabaseFault.none.reply t (q.execute 0 t))
  | .instant, t => some (0, t)
  | .getTransactionReceipt _ _ _, t => some (receipt, t)
  | .getBlockNumber _ _, t => some (current, t)
  | .sleep _, t => some ((), t)
  | .exhausted, _ => none

theorem answered_of_nodeReply {receipt : Except LobbyRpcError (Option TransactionReceipt)}
    {current : Except LobbyRpcError UInt64} :
    ∀ c t r t', nodeReply receipt current c t = some (r, t') →
      validatorContract.step c t r t' := by
  intro c t r t' h
  cases c with
  | query q =>
      have hanswers := DatabaseFault.none.answers t (q.execute 0 t)
      rw [Option.some.inj h] at hanswers
      exact ⟨0, hanswers⟩
  | instant | getTransactionReceipt | getBlockNumber | sleep =>
      cases h
      rfl
  | exhausted => cases h

/-- A validation with the default configuration. -/
def sampleValidation : ValidatorProg (Except ValidatorError ValidatorOutcome) :=
  handleValidation .default 3 ⟨1⟩ ⟨1⟩ ⟨List.replicate 32 9, rfl⟩ 0

/-- An inclusion three blocks deep. -/
theorem verdict_justified_included :
    ∃ (log : ValidatorLog) (t' : ValidationTable),
      sampleValidation.Reaches validatorContract .empty log (.ret (.ok (.included 7 3))) t'
      ∧ Justified .default ⟨1⟩ log (.ok (.included 7 3)) t' := by
  have hrun : (sampleValidation.follow (nodeReply (.ok (some ⟨true, some 7⟩)) (.ok 10)) 9
      .empty).map (fun run => (run.2.1.result, readings queryError run.1,
        readings receiptError run.1 ++ readings blockError run.1,
        decide (ValidatorLog.checks run.1 = [(⟨true, some 7⟩, 10)])))
      = some (some (.ok (.included 7 3)), [], [], true) := by decide +kernel
  obtain ⟨log, p, t', hreach, hend⟩ :=
    exists_reaches (E := validatorContract) answered_of_nodeReply hrun
  simp only [Prod.mk.injEq] at hend
  obtain ⟨hresult, hqueries, herrors, hchecks⟩ := hend
  obtain ⟨hreceipts, hblocks⟩ := List.append_eq_nil_iff.mp herrors
  rw [eq_ret_of_result hresult] at hreach
  refine ⟨log, t', hreach,
    (verdict_justified_iff (fun r hr => absurd hr List.not_mem_nil) hreach hqueries).mpr ?_⟩
  refine ⟨hreceipts, hblocks, fun check hcheck _ => ⟨7, ?_⟩⟩
  rw [of_decide_eq_true hchecks] at hcheck
  obtain rfl := List.mem_singleton.mp hcheck
  exact ⟨rfl, by decide⟩

/-- An error while the receipt is fetched is recorded as a transaction that was not
included. -/
theorem verdict_unjustified :
    ¬ ∀ config rounds chainId e txHash stickyIndex (t : ValidationTable) (log : ValidatorLog)
        reply t',
      (∀ r ∈ t.rows, r.executionId ≠ e) →
      (handleValidation config rounds chainId e txHash stickyIndex).Reaches validatorContract t
        log (.ret reply) t' →
      readings queryError log = [] → Justified config e log reply t' := by
  intro hclaim
  have hrun : (sampleValidation.follow (nodeReply (.error (.receiptFetchFailed "timeout"))
      (.ok 10)) 9 .empty).map (fun run => (run.2.1.result.isSome, readings queryError run.1,
        readings receiptSeen run.1, (run.2.2.newest ⟨1⟩).map ValidationRow.state))
      = some (true, [], [], some .notIncluded) := by decide +kernel
  obtain ⟨log, p, t', hreach, hend⟩ :=
    exists_reaches (E := validatorContract) answered_of_nodeReply hrun
  simp only [Prod.mk.injEq] at hend
  obtain ⟨hresult, hqueries, hreceipts, hnewest⟩ := hend
  obtain ⟨reply, hreply⟩ := Option.isSome_iff_exists.mp hresult
  rw [eq_ret_of_result hreply] at hreach
  have hjustified := hclaim _ _ _ _ _ _ _ _ _ _ (fun r hr => absurd hr List.not_mem_nil) hreach
    hqueries
  obtain ⟨r, hr, hstate⟩ := Option.map_eq_some_iff.mp hnewest
  obtain ⟨hr, howner, _⟩ := latest_eq_some hr
  obtain ⟨receipt, hreceipt, _⟩ := hjustified.notIncluded r hr howner hstate
  rw [hreceipts] at hreceipt
  cases hreceipt

end Lobby
