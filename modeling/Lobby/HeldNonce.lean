/-
# The nonce that is broadcast is the nonce that is held

As long as no lease of an execution has run out when a nonce statement of it or the sweeper
reads the clock, it never owns two reserved rows and the sweeper takes none.  A transaction
that goes into the mailbox of the broadcast actor then carries the nonce of the one reserved
row, in the first round and after a recovery, whatever the database loses and the node
answers (`broadcast_held`).
-/
import Lobby.PipelineRun

namespace Lobby

open Revisions Interaction Prog

namespace NonceTable

variable {t t' : NonceTable} {now : Timestamp} {c n : ℕ} {fromAddress : Address}
  {e e' : ExecutionId}

/-! ## One reserved row -/

/-- The execution owns at most one reserved row. -/
def OneReserved (e : ExecutionId) (t : NonceTable) : Prop :=
  ∀ r ∈ t.rows, ∀ s ∈ t.rows, r.executionId = e → s.executionId = e → r.state = .reserved →
    s.state = .reserved → r = s

/-- No lease of the execution has run out. -/
def LeasesRun (now : Timestamp) (e : ExecutionId) (t : NonceTable) : Prop :=
  ∀ r ∈ t.rows, r.executionId = e → r.state = .reserved → now - minutes 2 < r.updatedAt

instance (now : Timestamp) (e : ExecutionId) (t : NonceTable) :
    Decidable (LeasesRun now e t) :=
  inferInstanceAs (Decidable (∀ r ∈ t.rows, r.executionId = e → r.state = .reserved →
    now - minutes 2 < r.updatedAt))

/-- The reserved rows of the execution are no new ones. -/
theorem OneReserved.of_subset (h : OneReserved e t)
    (hsub : ∀ r ∈ t'.rows, r.executionId = e → r.state = .reserved → r ∈ t.rows) :
    OneReserved e t' :=
  fun r hr s hs howner hsowner hstate hsstate =>
    h r (hsub r hr howner hstate) s (hsub s hs hsowner hsstate) howner hsowner hstate hsstate

theorem OneReserved.keeps {taken : ℕ → Prop} (h : OneReserved e t) (hkeeps : Keeps taken e t t') :
    OneReserved e t' :=
  h.of_subset fun r hr howner hstate =>
    hkeeps.noNew r hr howner (NonceRow.isActive_iff.mpr (Or.inl hstate))

/-- A row that is added where there is no reserved one. -/
theorem oneReserved_append {row : NonceRow} (hrows : t'.rows = t.rows ++ [row])
    (hnone : ∀ r ∈ t.rows, r.executionId = e → r.state ≠ .reserved) : OneReserved e t' := by
  have hnew : ∀ r ∈ t'.rows, r.executionId = e → r.state = .reserved → r = row := by
    intro r hr howner hstate
    rw [hrows] at hr
    rcases List.mem_append.mp hr with hr | hr
    · exact absurd hstate (hnone r hr howner)
    · exact List.mem_singleton.mp hr
  intro r hr s hs howner hsowner hstate hsstate
  rw [hnew r hr howner hstate, hnew s hs hsowner hsstate]

/-- While leases run, an execution without a held nonce has no reserved row. -/
theorem none_reserved {lease : Timestamp} (hlease : minutes 2 ≤ lease)
    (hleases : LeasesRun now e t) (hheld : t.holdsNonce now lease e = false) :
    ∀ r ∈ t.rows, r.executionId = e → r.state ≠ .reserved := by
  intro r hr howner hstate
  have hfresh : now - lease < r.updatedAt :=
    (sub_le_sub_left hlease now).trans_lt (hleases r hr howner hstate)
  have hholds : t.holdsNonce now lease e = true :=
    holdsNonce_iff.mpr ⟨r, hr, howner, NonceRow.isHeld_iff.mpr (Or.inr ⟨hstate, hfresh⟩)⟩
  rw [hheld] at hholds
  cases hholds

theorem OneReserved.reserve {reply : Option (ℕ × ℕ)} (hone : OneReserved e t)
    (hleases : LeasesRun now e t)
    (h : t.reserveCandidate now c fromAddress e = .ok (reply, t')) : OneReserved e t' := by
  obtain ⟨u, hu, hsteps⟩ := reserveCandidate_steps h
  have hkeeps : Keeps (fun _ => False) e t u := keeps_afterConsume hu
  rcases hsteps with ⟨_, rfl⟩ | ⟨row, hrows, _, _, _, _, hreply⟩
  · exact hone.keeps hkeeps
  · rcases reserveCandidate_eq_ok.mp h with ⟨_, rfl, _⟩ | ⟨hheld, _, _⟩
    · cases hreply
    · refine oneReserved_append hrows fun r hr howner hstate => ?_
      exact none_reserved le_rfl hleases hheld r
        (hkeeps.noNew r hr howner (NonceRow.isActive_iff.mpr (Or.inl hstate))) howner hstate

theorem OneReserved.sync {reply : Option (ℕ × ℕ)} (hone : OneReserved e t)
    (hleases : LeasesRun now e t)
    (h : t.syncReserve now c fromAddress e n = .ok (reply, t')) : OneReserved e t' := by
  rcases syncReserve_eq_ok.mp h with ⟨_, _, rfl⟩ | ⟨hheld, _, _, hrows⟩
  · exact hone
  · exact oneReserved_append hrows (none_reserved (by decide) hleases hheld)

/-- A row that leaves the state is one reserved row less. -/
theorem OneReserved.resolve {s : NonceState} {m : ℕ} (hone : OneReserved e t)
    (h : t.resolveUpdate now e s = .ok (m, t')) : OneReserved e t' := by
  have hrows := (resolveUpdate_eq_ok.mp h).2
  refine hone.of_subset fun r hr howner hstate => ?_
  rw [hrows, mem_update] at hr
  obtain ⟨r₀, hr₀, rfl⟩ := hr
  by_cases hkey : key r₀ ∈ (t.latestReserved e).toList.map key
  · -- a row that moves to its own state does not change
    rw [if_pos hkey] at hstate ⊢
    have hreserved := state_of_latestReserved hr₀ hkey
    have hs : s = r₀.state := by rw [hreserved]; exact hstate
    have heq : r₀.setState now s = r₀ := by
      rw [NonceRow.setState, if_pos hs, hs]
    rwa [heq]
  · rwa [if_neg hkey]

/-- **What a nonce statement of the execution does to its reserved rows.** -/
theorem OneReserved.execute {q : NonceQuery} {s : Submission} {rows : q.Rows}
    (hq : q.isFor e s) (hone : OneReserved e t) (hleases : LeasesRun now e t)
    (h : t.execute now q = .ok (rows, t')) : OneReserved e t' := by
  cases q with
  | reserveCandidate chainId fromAddress e₁ =>
      -- while the lease runs the reserved row answers, so no second one is inserted
      obtain ⟨_, _, rfl⟩ := hq
      exact hone.reserve hleases h
  | existing e₁ =>
      cases h
      exact hone
  | syncReserve chainId fromAddress e₁ m =>
      obtain ⟨_, _, rfl⟩ := hq
      exact hone.sync hleases h
  | resolve e₁ state =>
      obtain rfl : e₁ = e := hq
      exact hone.resolve h
  | latest e₁ =>
      cases h
      exact hone

/-- The sweeper takes nothing from the execution. -/
theorem not_swept {released : List (ℕ × ExecutionId)} (hleases : LeasesRun now e t)
    (h : t.expireStates now = .ok (released, t')) : (n, e) ∉ released := by
  intro hn
  obtain ⟨r, hr, howner, _, hexpired⟩ := mem_released h hn
  obtain ⟨hstate, hold⟩ := NonceRow.isExpired_iff.mp hexpired
  have hlease : now - sweepLease ≤ now - minutes 2 := sub_le_sub_left (by decide) now
  exact absurd (hold.trans_le hlease) (not_lt.mpr (hleases r hr howner hstate).le)

end NonceTable

/-! ## Runs -/

/-- No lease of the execution has run out when one of its nonce statements or the sweeper
reads the clock. -/
def leaseConditions (e₀ : ExecutionId) : RunConditions where
  call e _ c w :=
    match c with
    | .nonce _ => e = e₀ → w.nonces.LeasesRun w.now e₀
    | _ => True
  external event w :=
    match event with
    | .tick _ => True
    | .sweep _ => w.nonces.LeasesRun w.now e₀

instance (e₀ e : ExecutionId) (choice : Choice) (c : EngineCall) (w : World) :
    Decidable ((leaseConditions e₀).call e choice c w) :=
  match c with
  | .nonce _ => inferInstanceAs (Decidable (e = e₀ → w.nonces.LeasesRun w.now e₀))
  | .deliver _ | .collect _ | .sign _ | .broadcast _ | .validator _ | .outside _ =>
    inferInstanceAs (Decidable True)

instance (e₀ : ExecutionId) :
    (event : OutsideEvent) → (w : World) → Decidable ((leaseConditions e₀).external event w)
  | .tick _, _ => inferInstanceAs (Decidable True)
  | .sweep _, w => inferInstanceAs (Decidable (w.nonces.LeasesRun w.now e₀))

/-- The execution owns at most one reserved row, and the sweeper has taken nothing. -/
structure World.HoldsOne (w : World) (e₀ : ExecutionId) : Prop where
  one : w.nonces.OneReserved e₀
  unswept : ∀ n, (e₀, n) ∉ w.swept

theorem holdsOne_of_perform {permits : List Sent → SignedTransaction → Prop}
    {e₀ e : ExecutionId} {s : Submission} {choice : Choice} {c : EngineCall} {w w' : World}
    {r : c.Reply} (hw : w.HoldsOne e₀) (hK : (leaseConditions e₀).call e choice c w)
    (hreq : Requires permits e s c w) (h : w.perform e choice c = some (r, w')) :
    w'.HoldsOne e₀ := by
  obtain ⟨hswept, hnonces⟩ := nonces_of_perform h
  have hunswept : ∀ n, (e₀, n) ∉ w'.swept := by
    rw [hswept]
    exact hw.unswept
  by_cases he : e = e₀
  · subst he
    rcases hnonces with hsame | ⟨q, rows, rfl, hexecute⟩
    · exact ⟨by rw [hsame]; exact hw.one, hunswept⟩
    · exact ⟨hw.one.execute hreq (hK rfl) hexecute, hunswept⟩
  · exact ⟨hw.one.keeps (rely_of_perform he hreq h).nonces, hunswept⟩

theorem holdsOne_outside {e₀ : ExecutionId} {event : OutsideEvent} {w : World}
    (hw : w.HoldsOne e₀) (hK : (leaseConditions e₀).external event w) :
    (w.outside event).HoldsOne e₀ := by
  refine ⟨hw.one.keeps (rely_outside e₀ w event).nonces, fun n => ?_⟩
  cases event with
  | tick elapsed => exact hw.unswept n
  | sweep fault =>
      rcases outside_sweep w fault with heq | ⟨released, t, hexpire, heq⟩
      · rw [heq]
        exact hw.unswept n
      · rw [heq]
        show (e₀, n) ∉ released.map Prod.swap ++ w.swept
        rw [List.mem_append, not_or]
        refine ⟨fun hn => ?_, hw.unswept n⟩
        obtain ⟨⟨m, e⟩, hmem, hswap⟩ := List.mem_map.mp hn
        cases hswap
        exact NonceTable.not_swept hK hexpire hmem

/-- **The nonce that is broadcast is the nonce that is held.**  In every run in which no
lease of the execution runs out, its broadcasts carry the nonce of its reserved row, of
which there is exactly one. -/
theorem broadcast_held {d : Deployment} {w₀ : World}
    {st : Config ExecutionId EngineCall EngineCall.Reply World Unit} {e : ExecutionId}
    (hfresh : w₀.Fresh d) (hreach : machine.Reachable (leaseConditions e) (d.start w₀) st)
    {chainId : ChainId} {fromAddress : Address} {e' : ExecutionId} {txn : SignedTransaction}
    {stickyIndex : ℕ} {next : Bool → EngineProg Unit}
    (hthread : st.thread e
      = .call (.deliver (.broadcast chainId fromAddress e' txn stickyIndex)) next) :
    ∃ r ∈ st.world.nonces.rows, r.executionId = e ∧ r.state = .reserved
      ∧ r.nonce = txn.withNonce.value.toNat
      ∧ ∀ r' ∈ st.world.nonces.rows, r'.executionId = e → r'.state = .reserved → r' = r := by
  have hcompatible : Machine.Compatible machine (leaseConditions e)
      (d.contract (leaseConditions e) fun _ _ => True)
      (fun w => d.submission e ≠ none → w.HoldsOne e) :=
    compatible (fun _ hw hK hreq h he => holdsOne_of_perform (hw he) hK hreq h)
      fun hw hK he => holdsOne_outside (hw he) hK
  have hstart : d.submission e ≠ none → w₀.HoldsOne e := by
    intro he
    refine ⟨fun r hr _ _ howner => ?_, fun n hn => ?_⟩
    · exact absurd (howner ▸ hfresh.nonces r hr) he
    · rw [hfresh.swept] at hn
      cases hn
  have hsafe := safe_of_reachable hcompatible hstart hfresh (admits_true _)
    (viewInvariant_true _) (fun _ => trivial) (fun _ => trivial) hreach
  obtain ⟨s, hs, _, hgranted⟩ := hsafe.requires hthread
  have hone := hsafe.1 (by rw [hs]; exact fun h => nomatch h)
  -- the sweeper has taken nothing, so the newest reserved row has the nonce
  rcases hgranted with hswept | ⟨r, hlatest, hnonce⟩
  · exact absurd hswept (hone.unswept _)
  · obtain ⟨hr, howner, hstate⟩ := NonceTable.latestReserved_eq_some hlatest
    exact ⟨r, hr, howner, hstate, hnonce, fun r' hr' howner' hstate' =>
      hone.one r' hr' r hr howner' howner hstate' hstate⟩

/-! ## A run with a recovery -/

/-- The nonce of a transaction that a pipeline is about to hand to the broadcast actor. -/
def nextBroadcast (st : Config ExecutionId EngineCall EngineCall.Reply World Unit)
    (e : ExecutionId) : Option ℕ :=
  match st.thread e with
  | .call (.deliver (.broadcast _ _ _ txn _)) _ => some txn.withNonce.value.toNat
  | _ => none

theorem nextBroadcast_eq_some {st : Config ExecutionId EngineCall EngineCall.Reply World Unit}
    {e : ExecutionId} {n : ℕ} (h : nextBroadcast st e = some n) :
    ∃ chainId fromAddress e' txn stickyIndex next,
      st.thread e = .call (.deliver (.broadcast chainId fromAddress e' txn stickyIndex)) next
      ∧ txn.withNonce.value.toNat = n := by
  unfold nextBroadcast at h
  split at h
  · rename_i chainId fromAddress e' txn stickyIndex next hthread
    exact ⟨chainId, fromAddress, e', txn, stickyIndex, next, hthread, Option.some.inj h⟩
  · cases h

/-- The node answers that nonce 0 is too low; the pipeline broadcasts nonce 1, and holds it. -/
theorem broadcast_held_recovered :
    ∃ st, machine.Reachable (leaseConditions ⟨1⟩) (sampleDeployment.start .empty) st
      ∧ ∃ r ∈ st.world.nonces.rows, r.executionId = ⟨1⟩ ∧ r.state = .reserved ∧ r.nonce = 1
        ∧ ∀ r' ∈ st.world.nonces.rows, r'.executionId = ⟨1⟩ → r'.state = .reserved → r' = r := by
  have hrun : (machine.runUnder (leaseConditions ⟨1⟩) (sampleDeployment.start .empty)
      (List.replicate 34 (.call ⟨1⟩ (.rejecting false (.rpcBroadcastError "nonce too low"))))).map
        (fun st => nextBroadcast st ⟨1⟩) = some (some 1) := by decide +kernel
  obtain ⟨st, hreach, hnext⟩ := Machine.exists_reachable hrun
  obtain ⟨_, _, _, txn, _, _, hthread, hnonce⟩ := nextBroadcast_eq_some hnext
  obtain ⟨r, hr, howner, hstate, hn, hunique⟩ :=
    broadcast_held (World.fresh_empty _) hreach hthread
  exact ⟨st, hreach, r, hr, howner, hstate, hn.trans hnonce, hunique⟩

end Lobby
