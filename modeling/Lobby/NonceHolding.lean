/-
# What an execution holds

An execution can own more than one reserved row, but only when the lease of the older one
has run out (`reserved_leases`): `reserve` looks for a row younger than two minutes, `sync`
for one younger than five, and the sweeper comes later than both.  `sync` answers an
execution that holds a nonce with that nonce; `sync_faithful_iff` says exactly when this
is the nonce of the chain.
-/
import Lobby.NonceLifecycle

namespace Lobby

open Revisions Interaction Prog

namespace NonceTable

variable {t t' : NonceTable} {now : Timestamp} {chainId : ChainId} {c n : ℕ}
  {fromAddress : Address} {e : ExecutionId} {op : NonceOp}

/-! ## Reserved rows and their leases -/

/-- Of two reserved rows of one execution the newer one was inserted when the lease of
the older one had run out. -/
def Leased (t : NonceTable) : Prop :=
  ∀ r ∈ t.rows, ∀ s ∈ t.rows, r.executionId = s.executionId → r.state = .reserved →
    s.state = .reserved → r.revision < s.revision → r.updatedAt + minutes 2 ≤ s.updatedAt

theorem leased_empty : empty.Leased := by simp [Leased, empty]

/-- A row in a moved table that is reserved was there before. -/
theorem mem_of_update_reserved {keys : List (ExecutionId × ℕ)} {s : NonceState} {r : NonceRow}
    (hs : s ≠ .reserved) (hr : r ∈ update keys (NonceRow.setState now s) t.rows)
    (hstate : r.state = .reserved) : r ∈ t.rows := by
  obtain ⟨r₀, hr₀, rfl⟩ := mem_update.mp hr
  by_cases hkey : key r₀ ∈ keys
  · rw [if_pos hkey] at hstate
    exact absurd hstate hs
  · rwa [if_neg hkey]

/-- The rows an execution has reserved are old when the guard lets it insert. -/
theorem old_of_not_holds {lease : Timestamp} (hheld : t.holdsNonce now lease e = false)
    {r : NonceRow} (hr : r ∈ t.rows) (howner : r.executionId = e)
    (hstate : r.state = .reserved) : r.updatedAt ≤ now - lease := by
  refine not_lt.mp fun hlt => ?_
  have hholds : t.holdsNonce now lease e = true :=
    holdsNonce_iff.mpr ⟨r, hr, howner, NonceRow.isHeld_iff.mpr (Or.inr ⟨hstate, hlt⟩)⟩
  rw [hheld] at hholds
  cases hholds

/-- **The reserved rows after one operation** were reserved before, or one of them is new
and every other reserved row of its execution is at least two minutes old. -/
theorem reserved_apply {r : NonceRow} (hr : r ∈ (t.apply op).rows)
    (hstate : r.state = .reserved) :
    r ∈ t.rows ∨ r.revision = nextRevision t.rows r.executionId
      ∧ ∀ s ∈ t.rows, s.executionId = r.executionId → s.state = .reserved →
          s.updatedAt + minutes 2 ≤ r.updatedAt := by
  have hminutes : minutes 2 ≤ minutes 5 := by decide
  cases op with
  | reserve now chainId fromAddress e =>
      rcases reserve_cases t now chainId fromAddress e with
        ⟨err, herr⟩ | ⟨c, t', _, ⟨_, hrows, hreply⟩ | ⟨hheld, hrows, hreply⟩⟩
      · rw [apply, herr] at hr
        exact Or.inl hr
      · rw [apply, hreply, hrows] at hr
        exact Or.inl (mem_of_update_reserved (by decide) hr hstate)
      · rw [apply, hreply, hrows] at hr
        rcases List.mem_append.mp hr with hr | hr
        · exact Or.inl (mem_of_update_reserved (by decide) hr hstate)
        · -- the guard of the `INSERT` found no lease of two minutes that still runs
          rw [List.mem_singleton.mp hr]
          refine Or.inr ⟨rfl, fun s hs howner hsstate => ?_⟩
          exact le_sub_iff_add_le.mp (old_of_not_holds hheld hs howner hsstate)
  | resolve now e s =>
      by_cases hs : s = .reserved
      · subst hs
        rw [apply, resolve_reserved] at hr
        exact Or.inl hr
      · rw [apply, rows_resolve t now e hs] at hr
        exact Or.inl (mem_of_update_reserved hs hr hstate)
  | sync now chainId fromAddress e nonceOnChain =>
      rcases sync_cases t now chainId fromAddress e nonceOnChain with
        heq | ⟨c, n, _, _, hheld, _, hrows⟩
      · rw [apply, heq] at hr
        exact Or.inl hr
      · rw [apply, hrows] at hr
        rcases List.mem_append.mp hr with hr | hr
        · exact Or.inl hr
        · -- the guard of `sync` uses a lease of five minutes
          rw [List.mem_singleton.mp hr]
          refine Or.inr ⟨rfl, fun s hs howner hsstate => ?_⟩
          have hold := le_sub_iff_add_le.mp (old_of_not_holds hheld hs howner hsstate)
          exact le_trans (add_le_add_right hminutes _) hold
  | sweep now =>
      rw [apply, rows_sweep] at hr
      exact Or.inl (mem_of_update_reserved (by decide) hr hstate)

theorem leased_apply (h : t.Leased) (op : NonceOp) : (t.apply op).Leased := by
  intro r hr s hs howner hrstate hsstate hrev
  rcases reserved_apply hs hsstate with hs | ⟨hsnew, hold⟩
  · rcases reserved_apply hr hrstate with hr | ⟨hrnew, _⟩
    · exact h r hr s hs howner hrstate hsstate hrev
    · -- a new row is newer than all others
      have hlt := revision_lt_nextRevision hs (show owner s = r.executionId from howner.symm)
      rw [NonceRow.revision_eq, ← hrnew] at hlt
      omega
  · rcases reserved_apply hr hrstate with hr | ⟨hrnew, _⟩
    · exact hold r hr howner hrstate
    · rw [hrnew, hsnew, howner] at hrev
      exact absurd hrev (lt_irrefl _)

theorem leased_applyAll (h : t.Leased) (ops : List NonceOp) : (t.applyAll ops).Leased := by
  induction ops generalizing t with
  | nil => exact h
  | cons op ops ih => exact ih (leased_apply h op)

/-- What a success of `resolve` means. -/
theorem resolve_ok {s : NonceState} (h : t.resolve now e s = (.ok (), t')) :
    (∃ r, t.latestReserved e = some r
        ∧ t'.rows = update [key r] (NonceRow.setState now s) t.rows)
    ∨ t.latestReserved e = none ∧ t.latestState e = some s ∧ t' = t := by
  by_cases hs : s = .reserved
  · subst hs
    rw [resolve_reserved] at h
    cases h
  · have hrows := rows_resolve t now e hs
    rw [h] at hrows
    cases hlatest : t.latestReserved e with
    | some r =>
        rw [hlatest] at hrows
        exact Or.inl ⟨r, rfl, hrows⟩
    | none =>
        rw [hlatest] at hrows
        obtain rfl : t' = t := NonceTable.ext (hrows.trans update_nil)
        refine Or.inr ⟨rfl, ?_, rfl⟩
        -- no row was affected, so the latest state decides
        obtain ⟨m, u, hupdate⟩ := resolveUpdate_total t' now e s
        obtain ⟨rfl, hu⟩ := resolveUpdate_eq_ok.mp hupdate
        rw [hlatest] at hu
        obtain rfl : u = t' := NonceTable.ext (hu.trans update_nil)
        have hreply := congrArg Prod.fst h
        unfold resolve at hreply
        cases s with
        | reserved => exact absurd rfl hs
        | finalized | released | consumed =>
            simp only [handleResolve, perform_bind, eval_call, answer, execute, hupdate,
              hlatest] at hreply
            cases hstate : u.latestState e with
            | none => simp [hstate] at hreply
            | some s' => cases s' <;> first | rfl | simp [hstate] at hreply

/-- **Reserved rows and leases.**  In every run an execution owns a second reserved row
only when the two minutes of the older one had passed before the newer one was inserted.
When `resolve` succeeds, the newest reserved row of the execution has moved to the new
state and no other row has changed, or there was no reserved row, the newest row was in
that state already and nothing has changed. -/
theorem reserved_leases (ops : List NonceOp) :
    (empty.applyAll ops).Leased
    ∧ ∀ now e s t', (empty.applyAll ops).resolve now e s = (.ok (), t') →
      (∃ r, (empty.applyAll ops).latestReserved e = some r
        ∧ t'.rows = update [key r] (NonceRow.setState now s) (empty.applyAll ops).rows)
      ∨ (empty.applyAll ops).latestReserved e = none
        ∧ (empty.applyAll ops).latestState e = some s ∧ t' = empty.applyAll ops :=
  ⟨leased_applyAll leased_empty ops, fun _ _ _ _ h => resolve_ok h⟩

/-- A reserve two minutes after the first one inserts a second reserved row, and a
`resolve` leaves the first one as it is. -/
theorem reserved_twice : ¬ ∀ (ops : List NonceOp) (e : ExecutionId),
    (∀ r ∈ (empty.applyAll ops).rows, ∀ s ∈ (empty.applyAll ops).rows, r.executionId = e →
      s.executionId = e → r.state = .reserved → s.state = .reserved → r = s)
    ∧ ∀ now s t', (empty.applyAll ops).resolve now e s = (.ok (), t') →
        (∀ r ∈ t'.rows, r.executionId = e → r.state ≠ .reserved) ∧ t'.latestState e = some s := by
  intro hclaim
  have hone := (hclaim [.reserve 0 ⟨1⟩ sampleAddress (sampleExecution 1),
    .reserve (minutes 2) ⟨1⟩ sampleAddress (sampleExecution 1)] (sampleExecution 1)).1
  revert hone
  decide +kernel

/-! ## The answer of `sync` -/

/-- A statement fails and changes nothing, or answers with its effect: no acknowledgement
is lost. -/
def answered (now : Timestamp) (q : NonceQuery) (t : NonceTable) (reply : q.Reply)
    (t' : NonceTable) : Prop :=
  (∃ err, reply = .error err ∧ t' = t) ∨ ∃ rows, t.execute now q = .ok (rows, t') ∧ reply = .ok rows

/-- What a caller of `sync` relies on: a success is the nonce of the chain, on the newest
row of the execution, and a failure changes nothing. -/
def SyncFaithful (t : NonceTable) (now : Timestamp) (chainId : ChainId)
    (fromAddress : Address) (e : ExecutionId) (nonceOnChain : TxNonce) : Prop :=
  ∀ reply t', (handleSync chainId fromAddress e nonceOnChain).Runs (answered now) t reply t' →
    (∀ m, reply = .ok m → m = nonceOnChain
      ∧ ∃ r, latest t'.rows e (fun _ => true) = some r ∧ r.isActive = true
        ∧ r.nonce = nonceOnChain.value.toNat)
    ∧ ∀ err, reply = .error err → t' = t

/-- The guard lets `sync` insert, or the execution holds nothing, or its newest row holds
the nonce of the chain already. -/
def SyncSettled (t : NonceTable) (now : Timestamp) (c : ℕ) (fromAddress : Address)
    (e : ExecutionId) (n : ℕ) : Prop :=
  (t.holdsNonce now (minutes 5) e = false ∧ t.nonceLeased now c fromAddress n = false)
  ∨ t.existing e = none
  ∨ ∃ r, latest t.rows e (fun _ => true) = some r ∧ r.isActive = true ∧ r.nonce = n

/-- The number of a nonce that came from the chain. -/
theorem tryFrom_toNat {nonceOnChain : TxNonce} (h : nonceOnChain.value.toI64 = some n) :
    TxNonce.tryFrom (n : ℤ) = .ok nonceOnChain := by
  rw [TxNonce.tryFrom_natCast, ← toI64_eq_some h, BitVec.ofNat_toNat, BitVec.setWidth_eq]

/-- A new row is the newest of its execution. -/
theorem latest_of_append {row : NonceRow} (hrows : t'.rows = t.rows ++ [row])
    (howner : row.executionId = e) (hrev : row.revision = nextRevision t.rows e) :
    latest t'.rows e (fun _ => true) = some row := by
  refine latest_eq_some_of_forall t'.primaryKey (by simp [hrows]) howner rfl
    fun s hs hsowner _ => ?_
  rw [hrows] at hs
  rcases List.mem_append.mp hs with hs | hs
  · rw [NonceRow.revision_eq, NonceRow.revision_eq, hrev]
    exact le_of_lt (revision_lt_nextRevision hs hsowner)
  · rw [List.mem_singleton.mp hs]

/-- If the newest row holds a nonce, it is the newest that does. -/
theorem existing_of_latest {r : NonceRow} (h : latest t.rows e (fun _ => true) = some r)
    (hact : r.isActive = true) : t.existing e = some r := by
  obtain ⟨hr, howner, _⟩ := latest_eq_some h
  exact latest_eq_some_of_forall t.primaryKey hr howner hact fun s hs hsowner _ =>
    revision_le_of_latest h hs hsowner rfl

/-- The fallback of `sync`: the nonce the execution holds. -/
theorem runs_existing {next : (NonceQuery.existing e).Reply →
      Prog NonceQuery NonceQuery.Reply (Except LocalError TxNonce)}
    (hsome : ∀ nonce state, next (.ok (some (nonce, state))) = .ret (TxNonce.tryFrom nonce))
    (hnone : ∃ err, next (.ok none) = .ret (.error err))
    (herror : ∀ err, ∃ err', next (.error err) = .ret (.error err'))
    {reply : Except LocalError TxNonce}
    (h : (call (.existing e) next : Prog NonceQuery NonceQuery.Reply _).Runs (answered now) t
      reply t') :
    t' = t ∧ ∀ m, reply = .ok m → ∃ r, t.existing e = some r ∧ TxNonce.tryFrom r.nonce = .ok m := by
  obtain ⟨r, t₁, hstep, hnext⟩ := runs_call_iff.mp h
  rcases hstep with ⟨err, rfl, rfl⟩ | ⟨rows, hrows, rfl⟩
  · obtain ⟨err', herr'⟩ := herror err
    rw [herr'] at hnext
    obtain ⟨rfl, rfl⟩ := runs_ret_iff.mp hnext
    exact ⟨rfl, fun _ h => nomatch h⟩
  · cases hrows
    cases hexisting : t.existing e with
    | none =>
        obtain ⟨err', herr'⟩ := hnone
        rw [hexisting, Option.map_none, herr'] at hnext
        obtain ⟨rfl, rfl⟩ := runs_ret_iff.mp hnext
        exact ⟨rfl, fun _ h => nomatch h⟩
    | some r =>
        rw [hexisting, Option.map_some, hsome] at hnext
        obtain ⟨rfl, rfl⟩ := runs_ret_iff.mp hnext
        exact ⟨rfl, fun m hm => ⟨r, rfl, hm⟩⟩

/-- **When `sync` is faithful**: exactly when the guard lets it insert, or the execution
holds nothing, or its newest row holds the nonce of the chain. -/
theorem sync_faithful_iff (t : NonceTable) (now : Timestamp) (chainId : ChainId)
    (fromAddress : Address) (e : ExecutionId) {nonceOnChain : TxNonce}
    (hnonce : nonceOnChain.value.toI64 = some n) :
    t.SyncFaithful now chainId fromAddress e nonceOnChain
      ↔ ∀ c, chainId.id.toI64 = some c → t.SyncSettled now c fromAddress e n := by
  have hn := toI64_eq_some hnonce
  cases hchain : chainId.id.toI64 with
  | none =>
      refine iff_of_true (fun reply t' h => ?_) (by rintro c ⟨⟩)
      rw [handleSync, hchain] at h
      obtain ⟨rfl, rfl⟩ := runs_ret_iff.mp h
      exact ⟨by rintro _ ⟨⟩, fun _ _ => rfl⟩
  | some c =>
      have hprogram := handleSync.eq_1 chainId fromAddress e nonceOnChain
      simp only [hchain, hnonce, perform_bind] at hprogram
      constructor
      · intro hfaithful c' hc'
        cases hc'
        by_contra hunsettled
        rw [SyncSettled, not_or, not_or] at hunsettled
        obtain ⟨hguard, hexisting, hnewest⟩ := hunsettled
        obtain ⟨r, hr⟩ := Option.ne_none_iff_exists'.mp hexisting
        -- the guard holds, so the fallback answers
        have hinsert : t.syncReserve now c fromAddress e n = .ok (none, t) := by
          refine syncReserve_eq_ok.mpr (Or.inl ⟨?_, rfl, rfl⟩)
          by_contra hnot
          rw [not_or, Bool.not_eq_true, Bool.not_eq_true] at hnot
          exact hguard hnot
        have hrun : (handleSync chainId fromAddress e nonceOnChain).Runs (answered now) t
            (TxNonce.tryFrom r.nonce) t := by
          rw [hprogram]
          refine .call (r := .ok none) (Or.inr ⟨none, hinsert, rfl⟩) ?_
          refine .call (r := .ok (some (r.nonce, r.state)))
            (Or.inr ⟨some (r.nonce, r.state), ?_, rfl⟩) (.ret _ _)
          rw [execute, hr]
          rfl
        obtain ⟨s, hs, hact, hsn⟩ := ((hfaithful _ _ hrun).1 _ (TxNonce.tryFrom_natCast _)).2
        exact hnewest ⟨s, hs, hact, hsn.trans hn⟩
      · intro hsettled reply t' h
        rw [hprogram] at h
        obtain ⟨r, t₁, hstep, hnext⟩ := runs_call_iff.mp h
        rcases hstep with ⟨err, rfl, rfl⟩ | ⟨rows, hinsert, rfl⟩
        · obtain ⟨rfl, rfl⟩ := runs_ret_iff.mp hnext
          exact ⟨by rintro _ ⟨⟩, fun _ _ => rfl⟩
        · rcases syncReserve_eq_ok.mp hinsert with
            ⟨hguard, rfl, rfl⟩ | ⟨_, _, rfl, hrows⟩
          · obtain ⟨rfl, hok⟩ := runs_existing (fun _ _ => rfl) ⟨_, rfl⟩ (fun _ => ⟨_, rfl⟩) hnext
            refine ⟨fun m hm => ?_, fun _ _ => rfl⟩
            obtain ⟨r, hr, hrm⟩ := hok m hm
            rcases hsettled c rfl with ⟨hheld, hleased⟩ | hnone | ⟨s, hs, hact, hsn⟩
            · simp [hheld, hleased] at hguard
            · rw [hnone] at hr
              cases hr
            · obtain rfl : r = s := Option.some.inj (hr.symm.trans (existing_of_latest hs hact))
              rw [hsn, tryFrom_toNat hnonce] at hrm
              exact ⟨(Except.ok.inj hrm).symm, r, hs, hact, hsn.trans hn.symm⟩
          · obtain ⟨rfl, rfl⟩ := runs_ret_iff.mp hnext
            rw [tryFrom_toNat hnonce]
            refine ⟨fun m hm => ⟨(Except.ok.inj hm).symm, _, latest_of_append hrows rfl rfl, rfl,
              hn.symm⟩, by rintro _ ⟨⟩⟩

/-- The recovery of an execution: the row it was granted is consumed before the sync. -/
theorem sync_faithful_iff_consumed :
    (empty.applyAll [.reserve 0 ⟨1⟩ sampleAddress (sampleExecution 1),
        .resolve 1 (sampleExecution 1) .consumed]).SyncFaithful 2 ⟨1⟩ sampleAddress
      (sampleExecution 1) ⟨5⟩ := by
  refine (sync_faithful_iff _ 2 ⟨1⟩ sampleAddress (sampleExecution 1) (n := 5) rfl).mpr ?_
  intro c hchain
  obtain rfl : 1 = c := Option.some.inj hchain
  exact Or.inl ⟨by decide, by decide⟩

/-- A database that answers every statement is one of those. -/
theorem answered_answer (now : Timestamp) (q : NonceQuery) (t : NonceTable) :
    answered now q t (answer now q t).1 (answer now q t).2 := by
  cases hexecute : t.execute now q with
  | error err => exact Or.inl ⟨err, by simp [answer, hexecute], by simp [answer, hexecute]⟩
  | ok rows => exact Or.inr ⟨rows.1, by simp [answer, hexecute], by simp [answer, hexecute]⟩

/-- The execution still holds nonce 0, and a sync with nonce 5 answers 0. -/
theorem sync_returns_held : ¬ ∀ (ops : List NonceOp) (now : Timestamp) (chainId : ChainId)
    (fromAddress : Address) (e : ExecutionId) (nonceOnChain : TxNonce) (n : ℕ),
    nonceOnChain.value.toI64 = some n →
    (empty.applyAll ops).SyncFaithful now chainId fromAddress e nonceOnChain := by
  intro hclaim
  let ops : List NonceOp := [.reserve 0 ⟨1⟩ sampleAddress (sampleExecution 1)]
  have hfaithful := hclaim ops (seconds 1) ⟨1⟩ sampleAddress (sampleExecution 1) ⟨5⟩ 5 rfl
  have hreply := (hfaithful _ _ (runs_eval (answered_answer (seconds 1)) _ _)).1 ⟨0⟩ rfl
  exact absurd hreply.1 (by decide)

end NonceTable

end Lobby
