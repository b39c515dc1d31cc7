/-
# Nonces in use and the sweeper

A nonce is in use once a transaction that carries it was handed to the network, until the
rejection of that request is recorded.  The sweeper looks at the lease of a row only:
2 minutes and 5 seconds, while a validation may run for 5 minutes.  `in_use_kept` is about
the runs in which no lease of a nonce in use has run out when the sweeper comes: there a
nonce in use is not released, and no other execution comes to hold it.
-/
import Lobby.PipelineRun

namespace Lobby

open Revisions Interaction Prog

/-! ## Rows that are kept -/

namespace NonceTable

variable {t t' : NonceTable} {now : Timestamp} {e e' : ExecutionId} {n : ℕ}

/-- A row of the execution carries the nonce and is not released. -/
def Kept (e : ExecutionId) (n : ℕ) (t : NonceTable) : Prop :=
  ∃ r ∈ t.rows, r.executionId = e ∧ r.nonce = n ∧ r.state ≠ .released

instance (e : ExecutionId) (s : NonceState) (n : ℕ) (t : NonceTable) :
    Decidable (Has e s n t) :=
  inferInstanceAs (Decidable (∃ r ∈ t.rows, r.executionId = e ∧ r.state = s ∧ r.nonce = n))

theorem Kept.keeps (h : Kept e n t) (hkeeps : Keeps (fun _ => False) e t t') :
    Kept e n t' := by
  obtain ⟨r, hr, howner, hn, hstate⟩ := h
  rcases hkeeps.kept r hr howner hstate with hr' | ⟨_, htaken⟩
  · exact ⟨r, hr', howner, hn, hstate⟩
  · exact htaken.elim

theorem Kept.append {row : NonceRow} (h : Kept e n t) (hrows : t'.rows = t.rows ++ [row]) :
    Kept e n t' := by
  obtain ⟨r, hr, hrest⟩ := h
  refine ⟨r, ?_, hrest⟩
  rw [hrows]
  exact List.mem_append_left _ hr

/-- An update that does not release the rows of the nonce. -/
theorem Kept.update {keys : List (ExecutionId × ℕ)} {s : NonceState} (h : Kept e n t)
    (hrows : t'.rows = update keys (NonceRow.setState now s) t.rows)
    (hkeys : s = .released → ∀ r ∈ t.rows, r.executionId = e → r.nonce = n →
      key r ∉ keys) : Kept e n t' := by
  obtain ⟨r, hr, howner, hn, hstate⟩ := h
  by_cases hkey : key r ∈ keys
  · refine ⟨r.setState now s, ?_, howner, hn, ?_⟩
    · rw [hrows, mem_update]
      exact ⟨r, hr, by rw [if_pos hkey]⟩
    · rw [NonceRow.setState_state]
      rintro rfl
      exact hkeys rfl r hr howner hn hkey
  · refine ⟨r, ?_, howner, hn, hstate⟩
    rw [hrows, mem_update]
    exact ⟨r, hr, by rw [if_neg hkey]⟩

/-- **A statement of the execution itself**, unless it releases the nonce. -/
theorem Kept.execute {q : NonceQuery} {s : Submission} {rows : q.Rows} (h : Kept e n t)
    (hq : q.isFor e s)
    (hrelease : q = .resolve e .released → ∀ r ∈ t.latestReserved e, r.nonce ≠ n)
    (hexecute : t.execute now q = .ok (rows, t')) : Kept e n t' := by
  cases q with
  | reserveCandidate chainId fromAddress e₁ =>
      obtain ⟨u, hu, hsteps⟩ := reserveCandidate_steps hexecute
      have hkept : Kept e n u := h.keeps (keeps_afterConsume hu)
      rcases hsteps with ⟨_, rfl⟩ | ⟨row, hrows, _⟩
      · exact hkept
      · exact hkept.append hrows
  | existing e₁ =>
      cases hexecute
      exact h
  | syncReserve chainId fromAddress e₁ m =>
      rcases syncReserve_eq_ok.mp hexecute with ⟨_, _, rfl⟩ | ⟨_, _, _, hrows⟩
      · exact h
      · exact h.append hrows
  | resolve e₁ state =>
      obtain rfl : e₁ = e := hq
      -- only the newest reserved row of the execution is moved
      refine h.update (resolveUpdate_eq_ok.mp hexecute).2 ?_
      rintro rfl r hr howner hn hkey
      obtain ⟨r', hr', heq⟩ := List.mem_map.mp hkey
      have hlatest := Option.mem_toList.mp hr'
      rw [← t.eq_of_key_eq (latestReserved_eq_some hlatest).1 hr heq] at hn
      exact hrelease rfl r' hlatest hn
  | latest e₁ =>
      cases hexecute
      exact h

/-- A run of the sweeper that finds no expired row of the nonce. -/
theorem Kept.sweep {released : List (ℕ × ExecutionId)} (h : Kept e n t)
    (hfresh : ∀ r ∈ t.rows, r.executionId = e → r.nonce = n →
      r.isExpired now sweepLease ≠ true)
    (hexpire : t.expireStates now = .ok (released, t')) : Kept e n t' := by
  refine h.update (expireStates_eq_ok.mp hexpire).2 fun _ r hr howner hn hkey => ?_
  exact hfresh r hr howner hn (mem_expiredKeys hr hkey)

end NonceTable

/-! ## Nonces in use -/

/-- The rejection of a request is recorded. -/
def View.Rejected (v : View) (revision : ℕ) : Prop :=
  ∃ b ∈ v.requests, b.revision = revision ∧ b.state = .rejected

/-- A transaction with the nonce was handed to the network, and no rejection of it is
recorded. -/
def View.InUse (v : View) (n : ℕ) : Prop :=
  ∃ x ∈ v.sent, x.txn.withNonce.value.toNat = n ∧ ¬ v.Rejected x.revision

instance (v : View) (revision : ℕ) : Decidable (v.Rejected revision) :=
  inferInstanceAs (Decidable (∃ b ∈ v.requests, b.revision = revision ∧ b.state = .rejected))

instance (v : View) (n : ℕ) : Decidable (v.InUse n) :=
  inferInstanceAs (Decidable (∃ x ∈ v.sent, x.txn.withNonce.value.toNat = n
    ∧ ¬ v.Rejected x.revision))

/-- The nonces in use are kept. -/
def World.KeepsInUse (w : World) : Prop :=
  ∀ e n, (w.view e).InUse n → w.nonces.Kept e n

/-- A rejected request stays rejected. -/
theorem rejected_of_execute {q : BroadcastQuery} {e : ExecutionId} {now : Timestamp}
    {t t' : BroadcastTable} {rows : q.Rows} (hq : q.isFor e t)
    (h : q.execute now t = .ok (rows, t')) {b : BroadcastRow} (hb : b ∈ t.rows)
    (hstate : b.state = .rejected) :
    ∃ b' ∈ t'.rows, key b' = key b ∧ b'.state = .rejected := by
  cases q with
  | insertRequest chainId fromAddress e₁ =>
      rcases RequestTable.insertUnless_eq_ok.mp h with ⟨_, _, rfl⟩ | ⟨_, _, hrows⟩
      · exact ⟨b, hb, rfl, hstate⟩
      · exact ⟨b, by rw [hrows]; exact List.mem_append_left _ hb, rfl, hstate⟩
  | latestRequest e₁ =>
      rw [BroadcastQuery.execute] at h
      split at h
      · cases h
        exact ⟨b, hb, rfl, hstate⟩
      · cases h
  | markSubmitted e₁ revision txHash =>
      -- the row that is marked is not a rejected one
      obtain ⟨rfl, hsubmits⟩ := hq
      refine ⟨b, ?_, rfl, hstate⟩
      rw [(RequestTable.updateKeys_eq_ok.mp h).2, mem_update]
      refine ⟨b, hb, ?_⟩
      rw [if_neg]
      intro hkey
      obtain ⟨b', hb', heq⟩ := List.mem_map.mp hkey
      have hrow : key b' = (e₁, revision) := by simpa using (List.mem_filter.mp hb').2
      exact hsubmits b hb (heq.symm.trans hrow) hstate
  | markRejected e₁ revision reason =>
      have hrows := (RequestTable.updateKeys_eq_ok.mp h).2
      by_cases hkey : key b ∈ (t.rows.filter fun r => decide (key r = (e₁, revision))
          && true).map key
      · refine ⟨b.reject now reason, ?_, rfl, rfl⟩
        rw [hrows, mem_update]
        exact ⟨b, hb, by rw [if_pos hkey]⟩
      · refine ⟨b, ?_, rfl, hstate⟩
        rw [hrows, mem_update]
        exact ⟨b, hb, by rw [if_neg hkey]⟩

/-! ## The condition on the steps -/

/-- A transaction is sent only while the execution has its nonce reserved, the pipeline
releases no nonce in use, and the sweeper finds no expired lease of a nonce in use. -/
def useConditions : RunConditions where
  call e _ c w :=
    match c with
    | .broadcast (.sendRawTransaction _ _ txn _ _) =>
        w.nonces.Has e .reserved txn.withNonce.value.toNat
    | .nonce (.resolve e' .released) =>
        ∀ r ∈ (w.nonces.latestReserved e').toList, ¬ (w.view e').InUse r.nonce
    | _ => True
  external event w :=
    match event with
    | .tick _ => True
    | .sweep _ => ∀ r ∈ w.nonces.rows, r.isExpired w.now NonceTable.sweepLease = true →
        ¬ (w.view r.executionId).InUse r.nonce

instance (e : ExecutionId) (choice : Choice) (c : EngineCall) (w : World) :
    Decidable (useConditions.call e choice c w) :=
  match c with
  | .broadcast (.sendRawTransaction _ _ txn _ _) =>
    inferInstanceAs (Decidable (w.nonces.Has e .reserved txn.withNonce.value.toNat))
  | .nonce (.resolve e' .released) =>
    inferInstanceAs (Decidable (∀ r ∈ (w.nonces.latestReserved e').toList,
      ¬ (w.view e').InUse r.nonce))
  | .nonce (.resolve _ .reserved) | .nonce (.resolve _ .finalized)
  | .nonce (.resolve _ .consumed) | .nonce (.reserveCandidate _ _ _) | .nonce (.existing _)
  | .nonce (.syncReserve _ _ _ _) | .nonce (.latest _) | .broadcast (.query _)
  | .broadcast (.getTransactionCount _ _ _) | .deliver _ | .collect _ | .sign _
  | .validator _ | .outside _ => inferInstanceAs (Decidable True)

instance :
    (event : OutsideEvent) → (w : World) → Decidable (useConditions.external event w)
  | .tick _, _ => inferInstanceAs (Decidable True)
  | .sweep _, w => inferInstanceAs (Decidable (∀ r ∈ w.nonces.rows,
      r.isExpired w.now NonceTable.sweepLease = true →
        ¬ (w.view r.executionId).InUse r.nonce))

/-! ## Runs -/

section

variable {e : ExecutionId} {n : ℕ} {w w' : World}

/-- Less is in use when nothing was sent and no rejection was lost. -/
theorem View.InUse.of_rejected {v v' : View} (h : v'.InUse n) (hsent : v'.sent = v.sent)
    (hrejected : ∀ revision, v.Rejected revision → v'.Rejected revision) : v.InUse n := by
  obtain ⟨x, hx, hn, hnot⟩ := h
  rw [hsent] at hx
  exact ⟨x, hx, hn, fun hrev => hnot (hrejected _ hrev)⟩

/-- A broadcast statement of the execution loses no rejection. -/
theorem View.Rejected.query {q : BroadcastQuery} {t : BroadcastTable} {revision : ℕ}
    (h : (w.view e).Rejected revision) (hq : q.isFor e w.broadcasts)
    (ht : t = w.broadcasts ∨ ∃ rows, q.execute w.now w.broadcasts = .ok (rows, t)) :
    (({ w with broadcasts := t } : World).view e).Rejected revision := by
  rcases ht with rfl | ⟨rows, hexecute⟩
  · exact h
  · obtain ⟨b, hb, hrev, hstate⟩ := h
    obtain ⟨hb, howner⟩ := RequestTable.mem_rowsOf.mp hb
    obtain ⟨b', hb', hkey, hstate'⟩ := rejected_of_execute hq hexecute hb hstate
    obtain ⟨howner', hrev'⟩ := Prod.mk.inj hkey
    exact ⟨b', RequestTable.mem_rowsOf.mpr ⟨hb', howner'.trans howner⟩, hrev'.trans hrev,
      hstate'⟩

theorem keepsInUse_of_perform {permits : List Sent → SignedTransaction → Prop}
    {s : Submission} {choice : Choice} {c : EngineCall} {r : c.Reply} (hw : w.KeepsInUse)
    (hK : useConditions.call e choice c w) (hreq : Requires permits e s c w)
    (h : w.perform e choice c = some (r, w')) : w'.KeepsInUse := by
  intro e₀ n huse
  by_cases he : e = e₀
  · subst he
    cases performs_of_perform h with
    | quiet hc hagrees =>
        rw [(rely_of_quiet hc h).view] at huse
        rw [hagrees.nonces]
        exact hw e n huse
    | nonce q t ht =>
        have hkept := hw e n huse
        rcases ht with rfl | ⟨rows, hexecute⟩
        · exact hkept
        · refine hkept.execute hreq ?_ hexecute
          rintro rfl r hlatest rfl
          exact hK r (Option.mem_toList.mpr hlatest) huse
    | query q t ht =>
        -- a statement can only take a nonce out of use
        exact hw e n (huse.of_rejected rfl fun _ hrev => hrev.query hreq ht)
    | send chainId stickyIndex e₁ x hanswer howner =>
        rw [World.view_send w howner] at huse
        obtain ⟨y, hy, hn, hnot⟩ := huse
        rcases List.mem_cons.mp hy with rfl | hy
        · -- the transaction that is handed over: its nonce is reserved
          obtain ⟨r, hr, hrowner, hstate, hrn⟩ := hK
          exact ⟨r, hr, hrowner, hrn.trans hn, by rw [hstate]; decide⟩
        · exact hw e n ⟨y, hy, hn, hnot⟩
    | status => exact hw e n huse
  · rw [(rely_of_perform he hreq h).view] at huse
    have hkept := hw e₀ n huse
    rcases (nonces_of_perform h).2 with hsame | ⟨q, rows, rfl, hexecute⟩
    · rwa [hsame]
    · exact hkept.keeps (keeps_of_execute he hreq _ hexecute)

theorem keepsInUse_outside {event : OutsideEvent} (hw : w.KeepsInUse)
    (hK : useConditions.external event w) : (w.outside event).KeepsInUse := by
  intro e n huse
  rw [(rely_outside e w event).view] at huse
  have hkept := hw e n huse
  cases event with
  | tick elapsed => exact hkept
  | sweep fault =>
      rcases outside_sweep w fault with heq | ⟨released, t, hexpire, heq⟩
      · rwa [heq]
      · rw [heq]
        refine hkept.sweep ?_ hexpire
        rintro r hr rfl rfl hexpired
        exact hK r hr hexpired huse

end

/-- **Nonces in use are not recycled.**  In every run that meets the condition, the sweeper
releases no nonce in use: the row that carries it is there and not released, and no other
row holds the nonce on that chain and account.  Rows their own execution has moved to
`consumed`, after the validator timed out, are exempt from the last part. -/
theorem in_use_kept {d : Deployment} {w₀ : World}
    {st : Config ExecutionId EngineCall EngineCall.Reply World Unit} (hfresh : w₀.Fresh d)
    (hreach : machine.Reachable useConditions (d.start w₀) st) {e : ExecutionId} {n : ℕ}
    (huse : (st.world.view e).InUse n) :
    (∀ fault released t, useConditions.external (.sweep fault) st.world →
      st.world.nonces.expireStates st.world.now = .ok (released, t) → (n, e) ∉ released)
    ∧ ∃ r ∈ st.world.nonces.rows, r.executionId = e ∧ r.nonce = n ∧ r.state ≠ .released
      ∧ (r.state ≠ .consumed → ∀ r' ∈ st.world.nonces.rows, r'.isActive = true →
        r'.slot = r.slot → r' = r) := by
  have hcompatible : Machine.Compatible machine useConditions
      (d.contract useConditions fun _ _ => True) World.KeepsInUse :=
    compatible (fun _ hw hK hreq h => keepsInUse_of_perform hw hK hreq h)
      fun hw hK => keepsInUse_outside hw hK
  have hstart : w₀.KeepsInUse := by
    rintro e' n' ⟨x, hx, _⟩
    change x ∈ w₀.sentOf e' at hx
    rw [World.sentOf, hfresh.sent] at hx
    cases hx
  have hkeeps := (safe_of_reachable hcompatible hstart hfresh (admits_true _)
    (viewInvariant_true _) (fun _ => trivial) (fun _ => trivial) hreach).1
  constructor
  · intro fault released t hK hexpire hn
    obtain ⟨r, hr, rfl, rfl, hexpired⟩ := NonceTable.mem_released hexpire hn
    exact hK r hr hexpired huse
  · obtain ⟨r, hr, howner, hn, hstate⟩ := hkeeps e n huse
    refine ⟨r, hr, howner, hn, hstate, fun hconsumed r' hr' hact hslot => ?_⟩
    have hract : r.isActive = true := by
      unfold NonceRow.isActive
      cases hs : r.state with
      | reserved | finalized => rfl
      | released => exact absurd hs hstate
      | consumed => exact absurd hs hconsumed
    exact st.world.nonces.eq_of_slot_eq hr' hr hact hract hslot

/-! ## A validation that outlives its lease -/

/-- The validator is about to ask for the receipt of the execution. -/
def awaitsReceipt (st : Config ExecutionId EngineCall EngineCall.Reply World Unit)
    (e : ExecutionId) : Bool :=
  match st.thread e with
  | .call (.validator (.getTransactionReceipt _ _ _)) _ => true
  | _ => false

/-- The sweeper comes 100 seconds after the broadcast. -/
theorem in_use_kept_polling :
    ∃ st, machine.Reachable useConditions (sampleDeployment.start .empty) st
      ∧ (st.world.view ⟨1⟩).InUse 0
      ∧ ∃ r ∈ st.world.nonces.rows, r.executionId = ⟨1⟩ ∧ r.nonce = 0 ∧ r.state ≠ .released
        ∧ (r.state ≠ .consumed → ∀ r' ∈ st.world.nonces.rows, r'.isActive = true →
          r'.slot = r.slot → r' = r) := by
  have hrun : (machine.runUnder useConditions (sampleDeployment.start .empty)
      (List.flatten [List.replicate 23 (.call ⟨1⟩ .smooth),
        [.external (.tick 100000000), .external (.sweep .none)]])).map
        (fun st => decide ((st.world.view ⟨1⟩).InUse 0)) = some true := by decide +kernel
  obtain ⟨st, hreach, huse⟩ := Machine.exists_reachable hrun
  have huse := of_decide_eq_true huse
  exact ⟨st, hreach, huse, (in_use_kept (World.fresh_empty _) hreach huse).2⟩

/-- Two minutes after the broadcast the sweeper releases the nonce, and the second execution
is granted it while the validator still polls for the first. -/
theorem swept_in_use :
    (¬ ∀ (d : Deployment) (w₀ : World)
        (st : Config ExecutionId EngineCall EngineCall.Reply World Unit), w₀.Fresh d →
        machine.Reachable .free (d.start w₀) st → ∀ e n, (st.world.view e).InUse n →
        ∀ released t, st.world.nonces.expireStates st.world.now = .ok (released, t) →
          (n, e) ∉ released)
    ∧ ∃ st, machine.Reachable .free (sampleDeployment.start .empty) st
      ∧ awaitsReceipt st ⟨1⟩ = true ∧ (st.world.view ⟨1⟩).InUse 0
      ∧ ∃ r ∈ st.world.nonces.rows, r.executionId = ⟨2⟩ ∧ r.state = .reserved
        ∧ r.nonce = 0 := by
  constructor
  · intro hclaim
    have hrun : (machine.runUnder .free (sampleDeployment.start .empty)
        (List.flatten [List.replicate 23 (.call ⟨1⟩ .smooth),
          [.external (.tick 126000000)]])).map
          (fun st => (decide ((st.world.view ⟨1⟩).InUse 0),
            (st.world.nonces.expireStates st.world.now).toOption.map Prod.fst))
        = some (true, some [(0, ⟨1⟩)]) := by decide +kernel
    obtain ⟨st, hreach, hend⟩ := Machine.exists_reachable hrun
    obtain ⟨huse, hreleased⟩ := Prod.mk.inj hend
    obtain ⟨⟨_, t⟩, hexpire, rfl⟩ := Option.map_eq_some_iff.mp hreleased
    have hok : st.world.nonces.expireStates st.world.now = .ok ([(0, ⟨1⟩)], t) := by
      cases hresult : st.world.nonces.expireStates st.world.now with
      | error err =>
          rw [hresult] at hexpire
          cases hexpire
      | ok answer =>
          rw [hresult] at hexpire
          cases hexpire
          rfl
    exact hclaim _ _ st (World.fresh_empty _) hreach ⟨1⟩ 0 (of_decide_eq_true huse) _ t hok
      List.mem_cons_self
  · have hrun : (machine.runUnder .free (sampleDeployment.start .empty)
        (List.flatten [List.replicate 23 (.call ⟨1⟩ .smooth),
          [.external (.tick 126000000), .external (.sweep .none)],
          List.replicate 4 (.call ⟨2⟩ .smooth)])).map
          (fun st => (awaitsReceipt st ⟨1⟩, decide ((st.world.view ⟨1⟩).InUse 0),
            decide (st.world.nonces.Has ⟨2⟩ .reserved 0)))
        = some (true, true, true) := by decide +kernel
    obtain ⟨st, hreach, hend⟩ := Machine.exists_reachable hrun
    obtain ⟨hawaits, hend⟩ := Prod.mk.inj hend
    obtain ⟨huse, hheld⟩ := Prod.mk.inj hend
    exact ⟨st, hreach, hawaits, of_decide_eq_true huse, of_decide_eq_true hheld⟩

end Lobby
