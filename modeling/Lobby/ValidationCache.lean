/-
# Replayed validations

What later calls of `handle_validation` answer for an execution that has been validated.  A
row that is included or not included is the newest of its execution for good, in every table
that statements of the engine can lead to, and every later call answers from it without a
request.  It holds one of four states, while a verdict names a block, its confirmations or a
revert: a verdict is repeated exactly when it is no revert and no inclusion with a block or
confirmations, and a run that ended in an RPC error is replayed exactly when the receipt could
not be fetched (`validation_replays_iff`).
-/
import Lobby.ValidationVerdicts

namespace Lobby

open Revisions Interaction Prog ValidatorCall

/-! ## Tables -/

/-- Statements of the engine at any time, of the allowed ones. -/
abbrev Statements (allowed : ValidationQuery → Prop) : ValidationTable → ValidationTable → Prop :=
  Relation.ReflTransGen fun t t' => ∃ q now rows, allowed q ∧ q.execute now t = .ok (rows, t')

/-- A table that statements lead to. -/
def ValidationTable.Reachable (t : ValidationTable) : Prop :=
  Statements (fun _ => True) .empty t

/-- A row that has not timed out is the newest of its execution. -/
def ValidationTable.Orderly (t : ValidationTable) : Prop :=
  ∀ r ∈ t.rows, r.state ≠ .timedOut →
    ∀ s ∈ t.rows, s.executionId = r.executionId → s.revision ≤ r.revision

/-! ## Verdicts and their replay -/

/-- A final verdict other than a timeout. -/
def IsVerdict : Except ValidatorError ValidatorOutcome → Prop
  | .ok (.included _ _) | .ok .notIncluded | .error (.reverted _) => True
  | .ok .timeout | .error (.rpc _ _) | .error (.database _) | .error (.internal _)
  | .error (.rpcError _) => False

/-- A call for the execution whose statements succeed. -/
def Validates (e : ExecutionId) (t : ValidationTable) (log : ValidatorLog)
    (reply : Except ValidatorError ValidatorOutcome) (t' : ValidationTable) : Prop :=
  ∃ config rounds chainId txHash stickyIndex,
    (handleValidation config rounds chainId e txHash stickyIndex).Reaches validatorContract t log
      (.ret reply) t'
    ∧ readings queryError log = []

/-- No request was made. -/
def ValidatorLog.Silent (log : ValidatorLog) : Prop :=
  ∀ entry ∈ log, entry.call.isRequest = false

/-- Every later call gives the same reply, without a request and without a change. -/
def Replays (e : ExecutionId) (reply : Except ValidatorError ValidatorOutcome)
    (t : ValidationTable) : Prop :=
  ∀ t', Statements (fun _ => True) t t' → ∀ log reply' t'', Validates e t' log reply' t'' →
    reply' = reply ∧ log.Silent ∧ t'' = t'

/-- As long as nothing is recorded for the execution, no later call gives a verdict without a
request. -/
def NotReplayed (e : ExecutionId) (t : ValidationTable) : Prop :=
  ∀ t', Statements (fun q => ∀ s, q ≠ .recordOutcome e s) t t' →
    ∀ log reply t'', Validates e t' log reply t'' → log.Silent → ¬ IsVerdict reply

/-- No receipt had status false, and every accepted inclusion is of block 0, while that is the
current block. -/
structure Cacheable (config : ValidatorConfig) (log : ValidatorLog) : Prop where
  receipts : ∀ receipt ∈ readings receiptSeen log, receipt.status = true
  blocks : ∀ check ∈ log.checks, config.accepts check = true →
    check.1.blockNumber.getD 0 = 0 ∧ check.2 = 0

section

variable {e : ExecutionId} {t t' : ValidationTable} {q : ValidationQuery} {now : Timestamp}
  {rows : q.Rows} {r : ValidationRow}

/-! ## What statements keep -/

/-- A row that is inserted is pending, beside rows of its execution that have timed out. -/
theorem insertRequest_eq_ok {c : ℕ} {txHash : TxHash} {inserted : Option ℕ}
    (h : (ValidationQuery.insertRequest c e txHash).execute now t = .ok (inserted, t')) :
    t' = t ∧ (∃ r ∈ t.rows, r.executionId = e ∧ r.state ≠ .timedOut)
    ∨ ∃ r, t'.rows = t.rows ++ [r] ∧ r.executionId = e ∧ r.state = .pending
        ∧ r.revision = nextRevision t.rows e
        ∧ ∀ s ∈ t.rows, s.executionId = e → s.state = .timedOut := by
  rw [ValidationQuery.execute] at h
  rcases RequestTable.insertUnless_eq_ok.mp h with ⟨⟨r, hr, howner, hheld⟩, _, rfl⟩
    | ⟨hfree, _, hrows⟩
  · refine Or.inl ⟨rfl, r, hr, howner, fun hstate => ?_⟩
    simp [ValidationRow.isHeld, hstate] at hheld
  · refine Or.inr ⟨_, hrows, rfl, rfl, rfl, fun s hs howner => ?_⟩
    have hguard := hfree s hs howner
    have hinactive := RequestTable.inactive_of_append hrows rfl rfl s hs howner
    cases hstate : s.state with
    | timedOut => rfl
    | included | notIncluded => simp [ValidationRow.isHeld, hstate] at hguard
    | pending => simp [RequestRow.isActive, hstate] at hinactive

/-- **A row that has not timed out stays the newest.** -/
theorem orderly_of_execute (ht : t.Orderly) (h : q.execute now t = .ok (rows, t')) :
    t'.Orderly := by
  cases q with
  | latest e =>
      obtain rfl : t = t' := congrArg Prod.snd (Except.ok.inj h)
      exact ht
  | insertRequest c e txHash =>
      rcases insertRequest_eq_ok h with ⟨rfl, _⟩ | ⟨r, hrows, howner, _, hrevision, htimedOut⟩
      · exact ht
      · have howner : owner r = e := howner
        refine RequestTable.NewestWhere.append ht hrows (howner ▸ hrevision) fun s hs hsame => ?_
        exact not_not.mpr (htimedOut s hs (hsame.trans howner))
  | recordOutcome e s =>
      refine RequestTable.NewestWhere.update (f := ValidationRow.setState now s) ht (fun _ => rfl)
        (fun r hr hkey _ => ?_) (RequestTable.updateKeys_eq_ok.mp h).2
      -- an updated row was pending
      rw [of_decide_eq_true (RequestTable.of_key_mem_latest hr hkey).2]
      decide

theorem orderly_of_statements {allowed : ValidationQuery → Prop} (ht : t.Orderly)
    (h : Statements allowed t t') : t'.Orderly := by
  induction h with
  | refl => exact ht
  | tail _ hstep ih =>
      obtain ⟨q, now, rows, _, hexecute⟩ := hstep
      exact orderly_of_execute ih hexecute

theorem ValidationTable.Reachable.orderly (h : t.Reachable) : t.Orderly :=
  orderly_of_statements (fun _ hr => absurd hr List.not_mem_nil) h

/-- A statement that records nothing for the execution, or finds its newest row closed, keeps
that row, unless the row has timed out. -/
theorem newest_of_execute (ht : t.Orderly) (hr : t.newest e = some r)
    (hstate : r.state ≠ .timedOut)
    (hq : r.state = .pending → ∀ s, q ≠ .recordOutcome e s)
    (h : q.execute now t = .ok (rows, t')) : t'.newest e = some r := by
  obtain ⟨hmem, howner, _⟩ := latest_eq_some hr
  cases q with
  | latest e' =>
      obtain rfl : t = t' := congrArg Prod.snd (Except.ok.inj h)
      exact hr
  | insertRequest c e' txHash =>
      by_cases he : e = e'
      · subst he
        rcases insertRequest_eq_ok h with ⟨rfl, _⟩ | ⟨_, _, _, _, _, htimedOut⟩
        · exact hr
        · exact absurd (htimedOut r hmem howner) hstate
      · rw [ValidationQuery.execute] at h
        refine (RequestTable.newest_congr (RequestTable.rowsOf_insertUnless ?_ he h)).trans hr
        exact fun _ => rfl
  | recordOutcome e' s =>
      by_cases he : e = e'
      · subst he
        -- a pending row would be the newest
        have hnone : latest t.rows e (fun r => decide (r.state = .pending)) = none := by
          rw [latest_eq_none_iff]
          intro s' hs' howner'
          refine decide_eq_false fun hpending => ?_
          have hle := ht s' hs' (by rw [hpending]; decide) r hmem (howner.trans howner'.symm)
          have heq : s' = r := t.eq_of_key_eq hs' hmem (Prod.ext (howner'.trans howner.symm)
            (le_antisymm (revision_le_of_latest hr hs' howner' rfl) hle))
          exact hq (heq ▸ hpending) s rfl
        have hrows := (RequestTable.updateKeys_eq_ok.mp h).2
        rw [hnone, Option.toList_none, List.map_nil, update_nil] at hrows
        obtain rfl : t = t' := RequestTable.ext hrows.symm
        exact hr
      · refine (RequestTable.newest_congr (RequestTable.rowsOf_updateKeys
          (f := ValidationRow.setState now s) (fun _ => rfl) (fun k hk => ?_) he h)).trans hr
        obtain ⟨r₁, hr₁, rfl⟩ := List.mem_map.mp hk
        exact (latest_eq_some (Option.mem_toList.mp hr₁)).2.1

theorem newest_of_statements {allowed : ValidationQuery → Prop} (ht : t.Orderly)
    (hr : t.newest e = some r) (hstate : r.state ≠ .timedOut)
    (hallowed : r.state = .pending → ∀ q, allowed q → ∀ s, q ≠ .recordOutcome e s)
    (h : Statements allowed t t') : t'.newest e = some r := by
  induction h with
  | refl => exact hr
  | tail hbefore hstep ih =>
      obtain ⟨q, now, rows, hq, hexecute⟩ := hstep
      exact newest_of_execute (orderly_of_statements ht hbefore) ih hstate
        (fun hpending => hallowed hpending q hq) hexecute

/-! ## Calls of the handler -/

variable {config : ValidatorConfig} {chainId : ChainId} {txHash : TxHash}
  {stickyIndex rounds : ℕ} {log : ValidatorLog}
  {reply : Except ValidatorError ValidatorOutcome} {outcome : ValidatorOutcome}

/-- A run of the handler is a sequence of statements. -/
theorem statements_of_reaches {p p' : ValidatorProg (Except ValidatorError ValidatorOutcome)}
    (h : p.Reaches validatorContract t log p' t') : Statements (fun _ => True) t t' := by
  induction h with
  | start => exact .refl
  | others _ hrely ih =>
      cases hrely
      exact ih
  | @next log c next t₁ r t₂ _ hstep ih =>
      cases c with
      | query q =>
          obtain ⟨now, hanswers⟩ := hstep
          rcases hanswers.table with rfl | ⟨rows, hexecute⟩
          · exact ih
          · exact ih.tail ⟨q, now, rows, trivial, hexecute⟩
      | instant | getTransactionReceipt | getBlockNumber | sleep | exhausted =>
          obtain rfl : t₂ = t₁ := hstep
          exact ih

/-- How a call for an orderly table ends. -/
theorem ended_of_orderly (ht : t.Orderly)
    (hrun : (handleValidation config rounds chainId e txHash stickyIndex).Reaches
      validatorContract t log (.ret reply) t') :
    Ended config e txHash (NewestIs e) t reply (t', log) := by
  refine hrun.ended (wp_handleValidation (recordsOutcome_newest e) ?_)
  intro hopen c now inserted t₁ hinsert
  rcases insertRequest_eq_ok hinsert with ⟨rfl, s, hs, howner, hstate⟩
    | ⟨r, hrows, howner, hpending, hrevision, _⟩
  · -- a row that holds the execution is the newest, and was not cached
    have hnewest : t₁.newest e = some s :=
      latest_eq_some_of_forall t₁.primaryKey hs howner rfl fun s' hs' howner' _ =>
        ht s hs hstate s' hs' (howner'.trans howner.symm)
    have hcached := hopen s hnewest
    refine ⟨s, hnewest, ?_⟩
    cases hs : s.state with
    | pending => rfl
    | timedOut => exact absurd hs hstate
    | included | notIncluded => rw [hs] at hcached; cases hcached
  · exact ⟨r, RequestTable.newest_of_append hrows howner hrevision, hpending⟩

/-! ## Closed rows -/

/-- A call that finds a closed row answers from it. -/
theorem Validates.of_cached (h : Validates e t log reply t') (ht : t.Orderly)
    (hr : t.newest e = some r) (hcached : r.state.cached = some outcome) :
    reply = .ok outcome ∧ log.Silent ∧ t' = t := by
  obtain ⟨config, rounds, chainId, txHash, stickyIndex, hrun, hsucceed⟩ := h
  have hopen : ¬ ∀ r, t.newest e = some r → r.state.cached = none := by
    intro hopen
    have hnone := hopen r hr
    rw [hcached] at hnone
    cases hnone
  cases ended_of_orderly ht hrun with
  | failed herr _ =>
      have herr : _ ∈ readings queryError log := herr
      rw [hsucceed] at herr
      cases herr
  | cached hnewest hcached' hreply htable hlog =>
      obtain rfl := Option.some.inj (hr.symm.trans hnewest)
      obtain rfl := Option.some.inj (hcached.symm.trans hcached')
      obtain ⟨found, rfl⟩ : ∃ found, log = [⟨.query (.latest e), found, t⟩] := hlog
      refine ⟨hreply, fun entry hentry => ?_, htable⟩
      rw [List.mem_singleton.mp hentry]
      rfl
  | refused hopen' => exact absurd hopen' hopen
  | polled hopen' => exact absurd hopen' hopen

/-- There is such a call. -/
theorem exists_validates (hr : t.newest e = some r) (hcached : r.state.cached = some outcome) :
    ∃ log, Validates e t log (.ok outcome) t := by
  have hprog : ∃ next, handleValidation .default 0 ⟨0⟩ e ⟨List.replicate 32 0, rfl⟩ 0
      = call (.query (.latest e)) next ∧ next (.ok (some r.state)) = .ret (.ok outcome) := by
    unfold handleValidation
    rw [checkCachedResult_eq]
    refine ⟨_, rfl, ?_⟩
    show ((ret (.ok ((some r.state).bind ValidationState.cached)) :
      ValidatorProg (Except ValidatorError (Option ValidatorOutcome))) >>= _) = _
    rw [Option.bind_some, hcached]
    rfl
  obtain ⟨next, hprog, hnext⟩ := hprog
  have hexecute : (ValidationQuery.latest e).execute 0 t = .ok (some r.state, t) := by
    rw [ValidationQuery.execute, hr, Option.map_some]
  have hrun : (call (.query (.latest e)) next).Reaches validatorContract t
      [⟨.query (.latest e), .ok (some r.state), t⟩] (next (.ok (some r.state))) t :=
    Reaches.start.next ⟨0, .done hexecute⟩
  rw [hnext, ← hprog] at hrun
  exact ⟨_, _, _, _, _, _, hrun, rfl⟩

/-- What a closed row is replayed as. -/
theorem replays_iff (ht : t.Orderly) (hr : t.newest e = some r)
    (hcached : r.state.cached = some outcome) : Replays e reply t ↔ reply = .ok outcome := by
  constructor
  · intro hreplays
    obtain ⟨log, hvalidates⟩ := exists_validates hr hcached
    exact (hreplays t .refl _ _ _ hvalidates).1.symm
  · rintro rfl t' hstatements log reply' t'' hvalidates
    have hstate : r.state ≠ .timedOut ∧ r.state ≠ .pending := by
      constructor <;> intro h <;> rw [h] at hcached <;> cases hcached
    have hr' := newest_of_statements ht hr hstate.1 (fun h => absurd h hstate.2) hstatements
    exact hvalidates.of_cached (orderly_of_statements ht hstatements) hr' hcached

/-- A closed row is replayed as a verdict. -/
theorem not_notReplayed (ht : t.Orderly) (hr : t.newest e = some r)
    (hcached : r.state.cached = some outcome) : ¬ NotReplayed e t := by
  intro hnot
  obtain ⟨log, hvalidates⟩ := exists_validates hr hcached
  obtain ⟨_, hsilent, _⟩ := hvalidates.of_cached ht hr hcached
  refine hnot t .refl _ _ _ hvalidates hsilent ?_
  cases hstate : r.state with
  | included | notIncluded =>
      rw [hstate] at hcached
      obtain rfl := Option.some.inj hcached
      trivial
  | pending | timedOut =>
      rw [hstate] at hcached
      cases hcached

/-- A verdict that was polled comes from a receipt. -/
theorem Verdict.not_silent {s : ValidationState} (h : Verdict config txHash log reply s)
    (hverdict : IsVerdict reply) : ¬ log.Silent := by
  intro hsilent
  have hnone : readings receiptSeen log = [] := by
    refine List.filterMap_eq_nil_iff.mpr fun entry hentry => ?_
    have hrequest := hsilent entry hentry
    obtain ⟨c, r, _⟩ := entry
    cases c with
    | getTransactionReceipt | getBlockNumber => cases hrequest
    | query | instant | sleep | exhausted => rfl
  cases h with
  | timedOut | unanswered | headless => exact False.elim hverdict
  | reverted hsees =>
      have hreverts := hsees.reverts
      rw [hnone] at hreverts
      cases hreverts
  | @included check hsees =>
      have hreceipt := mem_receiptSeen_of_mem_checks hsees.accepted_mem.1
      rw [hnone] at hreceipt
      cases hreceipt

/-- A pending row is not replayed. -/
theorem notReplayed_of_pending (ht : t.Orderly) (hr : t.newest e = some r)
    (hpending : r.state = .pending) : NotReplayed e t := by
  rintro t' hstatements log reply t'' ⟨config, rounds, chainId, txHash, stickyIndex, hrun,
    hsucceed⟩ hsilent hverdict
  have hr' : t'.newest e = some r := newest_of_statements ht hr
    (by rw [hpending]; decide) (fun _ q hq => hq) hstatements
  cases ended_of_orderly (orderly_of_statements ht hstatements) hrun with
  | failed herr _ =>
      have herr : _ ∈ readings queryError log := herr
      rw [hsucceed] at herr
      cases herr
  | cached hnewest hcached _ _ _ =>
      obtain rfl := Option.some.inj (hr'.symm.trans hnewest)
      rw [hpending] at hcached
      cases hcached
  | refused _ hreply _ _ =>
      rw [hreply] at hverdict
      exact False.elim hverdict
  | polled _ hpolled _ => exact hpolled.not_silent hverdict hsilent

/-- **When a validation is replayed.**  For every reachable table and every run that ends in a
final verdict other than a timeout, every later call gives the same reply, without a request
and without a change, if and only if no receipt had status false and every accepted inclusion
is of block 0 with block 0 current.  A run that ends in an RPC error is not replayed if and
only if the receipt could be fetched. -/
theorem validation_replays_iff (ht : t.Reachable)
    (hrun : (handleValidation config rounds chainId e txHash stickyIndex).Reaches
      validatorContract t log (.ret reply) t') :
    (IsVerdict reply → (Replays e reply t' ↔ Cacheable config log))
    ∧ ∀ message, reply = .error (.rpcError message) →
        (NotReplayed e t' ↔ readings receiptError log = []) := by
  have ht' : t'.Orderly := orderly_of_statements ht.orderly (statements_of_reaches hrun)
  cases ended_of_orderly ht.orderly hrun with
  | failed _ hreply =>
      subst hreply
      exact ⟨False.elim, fun _ h => nomatch h⟩
  | refused _ hreply _ _ =>
      subst hreply
      exact ⟨False.elim, fun _ h => nomatch h⟩
  | cached hnewest hcached hreply htable hlog =>
      subst hreply
      obtain rfl : t' = t := htable
      obtain ⟨found, rfl⟩ : ∃ found, log = [⟨.query (.latest e), found, t'⟩] := hlog
      refine ⟨fun _ => iff_of_true ((replays_iff ht' hnewest hcached).mpr rfl) ?_,
        fun _ h => nomatch h⟩
      exact ⟨fun _ h => absurd h List.not_mem_nil, fun _ h => absurd h List.not_mem_nil⟩
  | polled _ hverdict hrow =>
      obtain ⟨r, hr, hstate⟩ := hrow
      cases hverdict with
      | timedOut => exact ⟨False.elim, fun _ h => nomatch h⟩
      | unanswered hsees =>
          have hcached : r.state.cached = some .notIncluded := by rw [hstate]; rfl
          refine ⟨False.elim, fun _ _ => iff_of_false (not_notReplayed ht' hr hcached) ?_⟩
          rw [show readings receiptError log = _ from hsees.receiptErrors]
          exact List.cons_ne_nil _ _
      | headless hsees =>
          exact ⟨False.elim, fun _ _ =>
            iff_of_true (notReplayed_of_pending ht' hr hstate) hsees.receiptErrors⟩
      | @reverted receipt hsees =>
          have hcached : r.state.cached = some .notIncluded := by rw [hstate]; rfl
          refine ⟨fun _ => iff_of_false ?_ fun hcacheable => ?_, fun _ h => nomatch h⟩
          · rw [replays_iff ht' hr hcached]
            exact nofun
          · obtain ⟨hreceipt, hfalse⟩ := hsees.reverted_mem
            rw [hcacheable.receipts receipt hreceipt] at hfalse
            cases hfalse
      | @included check hsees =>
          have hcached : r.state.cached = some (.included 0 0) := by rw [hstate]; rfl
          refine ⟨fun _ => ?_, fun _ h => nomatch h⟩
          rw [replays_iff ht' hr hcached]
          constructor
          · intro hreply
            obtain ⟨hblock, hconfirmations⟩ :=
              ValidatorOutcome.included.inj (Except.ok.inj hreply)
            refine ⟨hsees.status_true, fun check' hcheck' haccepts => ?_⟩
            obtain rfl := List.mem_singleton.mp (hsees.mem_accepted hcheck' haccepts)
            rw [ValidatorConfig.confirmations, hblock] at hconfirmations
            exact ⟨UInt64.toNat_inj.mp hblock, UInt64.toNat_inj.mp hconfirmations⟩
          · intro hcacheable
            obtain ⟨hcheck, haccepts⟩ := hsees.accepted_mem
            obtain ⟨hblock, hcurrent⟩ := hcacheable.blocks check hcheck haccepts
            rw [ValidatorConfig.confirmations, hblock, hcurrent]
            rfl

end

/-! ## Two validations -/

/-- An inclusion in block 0, while that is the current block. -/
theorem validation_replays_genesis :
    ∃ (log : ValidatorLog) (t' : ValidationTable),
      sampleValidation.Reaches validatorContract .empty log (.ret (.ok (.included 0 0))) t'
      ∧ Replays ⟨1⟩ (.ok (.included 0 0)) t' := by
  have hrun : (sampleValidation.follow (nodeReply (.ok (some ⟨true, some 0⟩)) (.ok 0)) 9
      .empty).map (fun run => (run.2.1.result,
        decide (readings receiptSeen run.1 = [⟨true, some 0⟩]),
        decide (ValidatorLog.checks run.1 = [(⟨true, some 0⟩, 0)])))
      = some (some (.ok (.included 0 0)), true, true) := by decide +kernel
  obtain ⟨log, p, t', hreach, hend⟩ :=
    exists_reaches (E := validatorContract) answered_of_nodeReply hrun
  simp only [Prod.mk.injEq] at hend
  obtain ⟨hresult, hreceipts, hchecks⟩ := hend
  rw [eq_ret_of_result hresult] at hreach
  refine ⟨log, t', hreach, ((validation_replays_iff .refl hreach).1 trivial).mpr ⟨?_, ?_⟩⟩
  · intro receipt hreceipt
    rw [of_decide_eq_true hreceipts] at hreceipt
    obtain rfl := List.mem_singleton.mp hreceipt
    rfl
  · intro check hcheck _
    rw [of_decide_eq_true hchecks] at hcheck
    obtain rfl := List.mem_singleton.mp hcheck
    exact ⟨rfl, rfl⟩

/-- An inclusion in block 7 is replayed without its block. -/
theorem validation_forgets_block :
    ¬ ∀ config rounds chainId e txHash stickyIndex (t : ValidationTable) (log : ValidatorLog)
        reply t',
      t.Reachable →
      (handleValidation config rounds chainId e txHash stickyIndex).Reaches validatorContract t
        log (.ret reply) t' →
      (IsVerdict reply → Replays e reply t')
        ∧ ∀ message, reply = .error (.rpcError message) → NotReplayed e t' := by
  intro hclaim
  have hrun : (sampleValidation.follow (nodeReply (.ok (some ⟨true, some 7⟩)) (.ok 10)) 9
      .empty).map (fun run => (run.2.1.result, (run.2.2.newest ⟨1⟩).map ValidationRow.state))
      = some (some (.ok (.included 7 3)), some .included) := by decide +kernel
  obtain ⟨log, p, t', hreach, hend⟩ :=
    exists_reaches (E := validatorContract) answered_of_nodeReply hrun
  simp only [Prod.mk.injEq] at hend
  obtain ⟨hresult, hnewest⟩ := hend
  rw [eq_ret_of_result hresult] at hreach
  obtain ⟨r, hr, hstate⟩ := Option.map_eq_some_iff.mp hnewest
  have ht' : t'.Reachable := statements_of_reaches hreach
  have hreplays := (hclaim _ _ _ _ _ _ _ _ _ _ .refl hreach).1 trivial
  have hreply := (replays_iff ht'.orderly hr
    (show r.state.cached = some (.included 0 0) by rw [hstate]; rfl)).mp hreplays
  cases hreply

end Lobby
