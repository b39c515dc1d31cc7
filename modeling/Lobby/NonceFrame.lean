/-
# The rows of one execution

What the statements of other executions and the sweeper leave alone of the rows of one
execution, and what its own statements make of them.  The frame is `Keeps`: the rows that
are not released stay, unless the sweeper takes them, and no row comes to hold a nonce.
-/
import Lobby.NonceEngine

namespace Lobby

open Revisions

namespace NonceTable

variable {t t' t'' : NonceTable} {e e' : ExecutionId} {now : Timestamp} {c : ℕ}
  {fromAddress : Address} {taken : ℕ → Prop} {n : ℕ}

/-! ## What others leave alone -/

/-- The rows of an execution as others may change them; `taken` are the nonces the sweeper
took from it. -/
structure Keeps (taken : ℕ → Prop) (e : ExecutionId) (t t' : NonceTable) : Prop where
  kept : ∀ r ∈ t.rows, r.executionId = e → r.state ≠ .released →
    r ∈ t'.rows ∨ r.state = .reserved ∧ taken r.nonce
  noNew : ∀ r ∈ t'.rows, r.executionId = e → r.isActive = true → r ∈ t.rows

theorem Keeps.refl (taken : ℕ → Prop) (e : ExecutionId) (t : NonceTable) :
    Keeps taken e t t :=
  ⟨fun _ hr _ _ => Or.inl hr, fun _ hr _ _ => hr⟩

theorem Keeps.trans {taken' : ℕ → Prop} (h : Keeps taken e t t')
    (h' : Keeps taken' e t' t'') (htaken : ∀ n, taken n → taken' n) :
    Keeps taken' e t t'' := by
  constructor
  · intro r hr howner hstate
    rcases h.kept r hr howner hstate with hr' | ⟨hreserved, hn⟩
    · exact h'.kept r hr' howner hstate
    · exact Or.inr ⟨hreserved, htaken _ hn⟩
  · intro r hr howner hact
    exact h.noNew r (h'.noNew r hr howner hact) howner hact

/-- Rows of the execution that leave the reserved state are the sweeper's; released rows
may be retired. -/
theorem keeps_update {keys : List (ExecutionId × ℕ)} {s : NonceState}
    (hs : s.isActive = false)
    (hrows : t'.rows = update keys (NonceRow.setState now s) t.rows)
    (hkeys : ∀ r ∈ t.rows, key r ∈ keys → r.executionId = e →
      r.state = .released ∨ r.state = .reserved ∧ taken r.nonce) : Keeps taken e t t' := by
  constructor
  · intro r hr howner hstate
    -- a row that is changed was released, or reserved and taken away
    by_cases hkey : key r ∈ keys
    · exact Or.inr ((hkeys r hr hkey howner).resolve_left hstate)
    · refine Or.inl ?_
      rw [hrows, mem_update]
      exact ⟨r, hr, by rw [if_neg hkey]⟩
  · intro r hr howner hact
    rw [hrows, mem_update] at hr
    -- a row that is changed is not active afterwards
    obtain ⟨r₀, hr₀, rfl⟩ := hr
    by_cases hkey : key r₀ ∈ keys
    · rw [if_pos hkey, NonceRow.isActive_setState, hs] at hact
      cases hact
    · rwa [if_neg hkey]

/-- An update of rows of other executions. -/
theorem keeps_update_other {keys : List (ExecutionId × ℕ)} {s : NonceState}
    (hrows : t'.rows = update keys (NonceRow.setState now s) t.rows)
    (hkeys : ∀ k ∈ keys, k.1 ≠ e) : Keeps taken e t t' := by
  have hother : ∀ r : NonceRow, key r ∈ keys → r.executionId ≠ e := fun r hkey =>
    hkeys _ hkey
  constructor
  · intro r hr howner _
    refine Or.inl ?_
    rw [hrows, mem_update]
    exact ⟨r, hr, by rw [if_neg fun hkey => hother r hkey howner]⟩
  · intro r hr howner _
    rw [hrows, mem_update] at hr
    obtain ⟨r₀, hr₀, rfl⟩ := hr
    by_cases hkey : key r₀ ∈ keys
    · rw [if_pos hkey] at howner
      exact absurd howner (hother r₀ hkey)
    · rwa [if_neg hkey]

theorem keeps_append {row : NonceRow} (hrows : t'.rows = t.rows ++ [row])
    (hrow : row.executionId ≠ e) : Keeps taken e t t' := by
  constructor
  · intro r hr _ _
    exact Or.inl (by rw [hrows]; exact List.mem_append_left _ hr)
  · intro r hr howner _
    rw [hrows] at hr
    rcases List.mem_append.mp hr with hr | hr
    · exact hr
    · rw [List.mem_singleton.mp hr] at howner
      exact absurd howner hrow

/-- The CTE `consumed` retires a released row. -/
theorem keeps_afterConsume (hrows : t'.rows = t.afterConsume now c fromAddress) :
    Keeps taken e t t' := by
  refine keeps_update (s := .consumed) rfl hrows fun r hr hkey _ => Or.inl ?_
  obtain ⟨s, hs, hkey⟩ := List.mem_map.mp hkey
  obtain ⟨hs, _, hstate⟩ := targetRelease_eq_some (Option.mem_toList.mp hs)
  rwa [← t.eq_of_key_eq hs hr hkey]

/-- The rows after the `INSERT` of `handle_reserve`. -/
theorem reserveCandidate_steps {reply : Option (ℕ × ℕ)}
    (h : t.reserveCandidate now c fromAddress e' = .ok (reply, t')) :
    ∃ u : NonceTable, u.rows = t.afterConsume now c fromAddress
      ∧ (reply = none ∧ t' = u
        ∨ ∃ row : NonceRow, t'.rows = u.rows ++ [row] ∧ row.executionId = e'
          ∧ row.state = .reserved ∧ row.onPair c fromAddress = true
          ∧ row.revision = nextRevision u.rows e' ∧ reply = some (row.nonce, row.revision)) := by
  obtain ⟨u, _, hu⟩ := commit_afterConsume t now c fromAddress
  refine ⟨u, hu, ?_⟩
  rcases reserveCandidate_eq_ok.mp h with ⟨_, hreply, hrows⟩ | ⟨_, hreply, hrows⟩
  · exact Or.inl ⟨hreply, NonceTable.ext (by rw [hrows, hu])⟩
  · refine Or.inr ⟨_, by rw [hrows, hu], rfl, rfl, ?_, ?_, hreply⟩
    · simp [NonceRow.onPair, reservedRow]
    · rw [hu, nextRevision_afterConsume]
      rfl

theorem keeps_reserve {reply : Option (ℕ × ℕ)} (he : e' ≠ e)
    (h : t.reserveCandidate now c fromAddress e' = .ok (reply, t')) : Keeps taken e t t' := by
  obtain ⟨u, hu, hsteps⟩ := reserveCandidate_steps h
  rcases hsteps with ⟨_, rfl⟩ | ⟨row, hrows, howner, _⟩
  · exact keeps_afterConsume hu
  · exact (keeps_afterConsume hu).trans (keeps_append hrows (howner ▸ he)) fun _ hn => hn

theorem keeps_sync {reply : Option (ℕ × ℕ)} (he : e' ≠ e)
    (h : t.syncReserve now c fromAddress e' n = .ok (reply, t')) : Keeps taken e t t' := by
  rcases syncReserve_eq_ok.mp h with ⟨_, _, rfl⟩ | ⟨_, _, _, hrows⟩
  · exact Keeps.refl taken e t'
  · exact keeps_append hrows he

theorem keeps_resolve {s : NonceState} {m : ℕ} (he : e' ≠ e)
    (h : t.resolveUpdate now e' s = .ok (m, t')) : Keeps taken e t t' := by
  refine keeps_update_other (resolveUpdate_eq_ok.mp h).2 fun k hk => ?_
  obtain ⟨r, hr, rfl⟩ := List.mem_map.mp hk
  have howner := (latestReserved_eq_some (Option.mem_toList.mp hr)).2.1
  show r.executionId ≠ e
  rwa [howner]

/-- The sweeper takes reserved rows and reports them. -/
theorem keeps_sweep {released : List (ℕ × ExecutionId)}
    (h : t.expireStates now = .ok (released, t'))
    (htaken : ∀ n, (n, e) ∈ released → taken n) : Keeps taken e t t' := by
  obtain ⟨hreleased, hrows⟩ := expireStates_eq_ok.mp h
  refine keeps_update (s := .released) rfl hrows fun r hr hkey howner => Or.inr ⟨?_, ?_⟩
  · exact (NonceRow.isExpired_iff.mp (mem_expiredKeys hr hkey)).1
  · refine htaken _ ?_
    rw [hreleased]
    refine List.mem_map.mpr ⟨r, List.mem_filter.mpr ⟨hr, by simpa using hkey⟩, ?_⟩
    rw [howner]

/-- The rows the sweeper took were reserved and expired. -/
theorem mem_released {released : List (ℕ × ExecutionId)}
    (h : t.expireStates now = .ok (released, t')) (hn : (n, e) ∈ released) :
    ∃ r ∈ t.rows, r.executionId = e ∧ r.nonce = n ∧ r.isExpired now sweepLease = true := by
  rw [(expireStates_eq_ok.mp h).1] at hn
  obtain ⟨r, hr, hpair⟩ := List.mem_map.mp hn
  obtain ⟨hr, hkey⟩ := List.mem_filter.mp hr
  cases hpair
  exact ⟨r, hr, rfl, rfl, mem_expiredKeys hr (by simpa using hkey)⟩

/-! ## What an execution holds -/

/-- The rows that hold a nonce for the execution are reserved and on one pair. -/
def Plain (c : ℕ) (fromAddress : Address) (e : ExecutionId) (t : NonceTable) : Prop :=
  ∀ r ∈ t.rows, r.executionId = e → r.isActive = true →
    r.state = .reserved ∧ r.onPair c fromAddress = true

/-- The newest reserved row of the execution carries the nonce. -/
def Holds (e : ExecutionId) (n : ℕ) (t : NonceTable) : Prop :=
  ∃ r, t.latestReserved e = some r ∧ r.nonce = n

/-- A row of the execution carries the nonce in the given state. -/
def Has (e : ExecutionId) (s : NonceState) (n : ℕ) (t : NonceTable) : Prop :=
  ∃ r ∈ t.rows, r.executionId = e ∧ r.state = s ∧ r.nonce = n

theorem Keeps.plain (h : Keeps taken e t t') (hplain : Plain c fromAddress e t) :
    Plain c fromAddress e t' :=
  fun r hr howner hact => hplain r (h.noNew r hr howner hact) howner hact

theorem Keeps.holds (h : Keeps taken e t t') (hholds : Holds e n t) :
    taken n ∨ Holds e n t' := by
  obtain ⟨r, hlatest, rfl⟩ := hholds
  obtain ⟨hr, howner, hstate⟩ := latestReserved_eq_some hlatest
  rcases h.kept r hr howner (by rw [hstate]; decide) with hr' | ⟨_, hn⟩
  · refine Or.inr ⟨r, ?_, rfl⟩
    refine latest_eq_some_of_forall t'.primaryKey hr' howner (by simpa using hstate) ?_
    intro s hs hsowner hsstate
    have hsact : s.isActive = true :=
      NonceRow.isActive_iff.mpr (Or.inl (by simpa using hsstate))
    exact revision_le_of_latest hlatest (h.noNew s hs hsowner hsact) hsowner hsstate
  · exact Or.inl hn

/-- Rows that are settled stay as they are. -/
theorem Keeps.has {s : NonceState} (h : Keeps taken e t t') (hs : s ≠ .reserved)
    (hs' : s ≠ .released) (hhas : Has e s n t) : Has e s n t' := by
  obtain ⟨r, hr, howner, rfl, hn⟩ := hhas
  rcases h.kept r hr howner hs' with hr' | ⟨hreserved, _⟩
  · exact ⟨r, hr', howner, rfl, hn⟩
  · exact absurd hreserved hs

/-! ## What its own statements do -/

/-- The CTE `consumed` and a new row on the pair keep the rows plain. -/
theorem plain_append {row : NonceRow} (hplain : Plain c fromAddress e t)
    (hrows : t'.rows = t.rows ++ [row]) (hstate : row.state = .reserved)
    (hpair : row.onPair c fromAddress = true) : Plain c fromAddress e t' := by
  intro r hr howner hact
  rw [hrows] at hr
  rcases List.mem_append.mp hr with hr | hr
  · exact hplain r hr howner hact
  · rw [List.mem_singleton.mp hr]
    exact ⟨hstate, hpair⟩

/-- A new row is the newest. -/
theorem holds_append {row : NonceRow} (hrows : t'.rows = t.rows ++ [row])
    (howner : row.executionId = e) (hstate : row.state = .reserved)
    (hrev : row.revision = nextRevision t.rows e) : Holds e row.nonce t' := by
  refine ⟨row, ?_, rfl⟩
  refine latest_eq_some_of_forall t'.primaryKey (by simp [hrows]) howner
    (by simpa using hstate) fun s hs hsowner _ => ?_
  rw [hrows] at hs
  rcases List.mem_append.mp hs with hs | hs
  · have hlt := revision_lt_nextRevision hs hsowner
    show s.revision ≤ row.revision
    rw [hrev]
    exact le_of_lt hlt
  · rw [List.mem_singleton.mp hs]

theorem plain_reserve {reply : Option (ℕ × ℕ)} (hplain : Plain c fromAddress e t)
    (h : t.reserveCandidate now c fromAddress e = .ok (reply, t')) :
    Plain c fromAddress e t' ∧ ∀ n rev, reply = some (n, rev) → Holds e n t' := by
  obtain ⟨u, hu, hsteps⟩ := reserveCandidate_steps h
  have hkeeps : Keeps (fun _ => False) e t u := keeps_afterConsume hu
  have hplain' : Plain c fromAddress e u := hkeeps.plain hplain
  rcases hsteps with ⟨rfl, rfl⟩ | ⟨row, hrows, howner, hstate, hpair, hrev, rfl⟩
  · exact ⟨hplain', fun _ _ hreply => nomatch hreply⟩
  · refine ⟨plain_append hplain' hrows hstate hpair, fun n rev hreply => ?_⟩
    cases hreply
    exact holds_append hrows howner hstate hrev

theorem plain_sync {m : ℕ} {reply : Option (ℕ × ℕ)} (hplain : Plain c fromAddress e t)
    (h : t.syncReserve now c fromAddress e m = .ok (reply, t')) :
    Plain c fromAddress e t' ∧ ∀ n rev, reply = some (n, rev) → Holds e n t' := by
  rcases syncReserve_eq_ok.mp h with ⟨_, rfl, rfl⟩ | ⟨_, _, rfl, hrows⟩
  · exact ⟨hplain, fun _ _ hreply => nomatch hreply⟩
  · refine ⟨plain_append hplain hrows rfl (by simp [NonceRow.onPair, reservedRow]), ?_⟩
    intro n rev hreply
    cases hreply
    exact holds_append hrows rfl rfl rfl

/-- Among plain rows the newest that holds a nonce is the newest reserved one. -/
theorem holds_existing {r : NonceRow} (hplain : Plain c fromAddress e t)
    (h : t.existing e = some r) : Holds e r.nonce t := by
  obtain ⟨hr, howner, hact⟩ := existing_eq_some h
  refine ⟨r, ?_, rfl⟩
  refine latest_eq_some_of_forall t.primaryKey hr howner
    (by simpa using (hplain r hr howner hact).1) fun s hs hsowner hsstate => ?_
  exact revision_le_of_latest h hs hsowner
    (NonceRow.isActive_iff.mpr (Or.inl (by simpa using hsstate)))

/-- Resolving to anything but `'finalized'` keeps the rows plain. -/
theorem plain_resolve {s : NonceState} {m : ℕ} (hs : s.isActive = false)
    (hplain : Plain c fromAddress e t) (h : t.resolveUpdate now e s = .ok (m, t')) :
    Plain c fromAddress e t' := by
  intro r hr howner hact
  rw [(resolveUpdate_eq_ok.mp h).2, mem_update] at hr
  obtain ⟨r₀, hr₀, rfl⟩ := hr
  by_cases hkey : key r₀ ∈ (t.latestReserved e).toList.map key
  · rw [if_pos hkey, NonceRow.isActive_setState, hs] at hact
    cases hact
  · rw [if_neg hkey] at howner hact ⊢
    exact hplain r₀ hr₀ howner hact

/-- Resolving settles the nonce the execution holds. -/
theorem has_resolve {s : NonceState} {m : ℕ} (hholds : Holds e n t)
    (h : t.resolveUpdate now e s = .ok (m, t')) : Has e s n t' := by
  obtain ⟨r, hlatest, rfl⟩ := hholds
  obtain ⟨hr, howner, _⟩ := latestReserved_eq_some hlatest
  refine ⟨r.setState now s, ?_, howner, rfl, rfl⟩
  rw [(resolveUpdate_eq_ok.mp h).2, mem_update]
  exact ⟨r, hr, by rw [if_pos (by simp [hlatest])]⟩

/-- Resolving leaves settled rows alone. -/
theorem has_resolve_of_has {s s' : NonceState} {m : ℕ} (hs' : s' ≠ .reserved)
    (hhas : Has e' s' n t) (h : t.resolveUpdate now e s = .ok (m, t')) : Has e' s' n t' := by
  obtain ⟨r, hr, howner, rfl, hn⟩ := hhas
  refine ⟨r, ?_, howner, rfl, hn⟩
  rw [(resolveUpdate_eq_ok.mp h).2, mem_update]
  exact ⟨r, hr, by rw [if_neg fun hkey => hs' (state_of_latestReserved hr hkey)]⟩

end NonceTable

end Lobby
