/-
# The lifecycle of nonce rows

What every operation on the nonce table leaves of the rows: identities and nonces never
change, states only move forward, and new rows continue the numbering of their execution
(`Run.lifecycle`).  The sweeper takes at most a hundred expired rows at a time, one for
each execution, and repeating it leaves none (`sweeper_exact`).
-/
import Lobby.NonceLedger

namespace Lobby

open Revisions

/-! ## Moves of a row -/

/-- The moves between row states. -/
inductive NonceState.Moves : NonceState → NonceState → Prop where
  | finalize : Moves .reserved .finalized
  | release : Moves .reserved .released
  | consume : Moves .reserved .consumed
  | retire : Moves .released .consumed

/-- A row under its identity, with a state the relation allows for. -/
structure NonceRow.Evolves (R : NonceState → NonceState → Prop) (r r' : NonceRow) : Prop where
  executionId : r'.executionId = r.executionId
  revision : r'.revision = r.revision
  chainId : r'.chainId = r.chainId
  fromAddress : r'.fromAddress = r.fromAddress
  nonce : r'.nonce = r.nonce
  state : R r.state r'.state

theorem NonceRow.Evolves.refl (R : NonceState → NonceState → Prop) [Std.Refl R]
    (r : NonceRow) : r.Evolves R r :=
  ⟨rfl, rfl, rfl, rfl, rfl, refl_of R _⟩

theorem NonceRow.Evolves.trans {R : NonceState → NonceState → Prop}
    [IsTrans NonceState R] {r r' r'' : NonceRow}
    (h : r.Evolves R r') (h' : r'.Evolves R r'') : r.Evolves R r'' where
  executionId := h'.executionId.trans h.executionId
  revision := h'.revision.trans h.revision
  chainId := h'.chainId.trans h.chainId
  fromAddress := h'.fromAddress.trans h.fromAddress
  nonce := h'.nonce.trans h.nonce
  state := trans_of R h.state h'.state

theorem NonceRow.Evolves.mono {R R' : NonceState → NonceState → Prop}
    (hR : ∀ {s s'}, R s s' → R' s s') {r r' : NonceRow} (h : r.Evolves R r') :
    r.Evolves R' r' :=
  { h with state := hR h.state }

namespace NonceTable

/-- The rows of the first table are the first rows of the second, evolved. -/
def Evolves (R : NonceState → NonceState → Prop) (t t' : NonceTable) : Prop :=
  ∃ old new, t'.rows = old ++ new ∧ List.Forall₂ (NonceRow.Evolves R) t.rows old

variable {t t' t'' u : NonceTable} {op : NonceOp} {now : Timestamp} {c : ℕ}
  {fromAddress : Address} {e : ExecutionId} {R : NonceState → NonceState → Prop}

theorem Evolves.refl (R : NonceState → NonceState → Prop) [Std.Refl R] (t : NonceTable) :
    t.Evolves R t :=
  ⟨t.rows, [], by simp, List.forall₂_same.mpr fun r _ => .refl R r⟩

theorem Evolves.trans [IsTrans NonceState R] (h : t.Evolves R t') (h' : t'.Evolves R t'') :
    t.Evolves R t'' := by
  obtain ⟨old, new, hrows, hold⟩ := h
  obtain ⟨old', new', hrows', hold'⟩ := h'
  rw [hrows] at hold'
  -- the rows that were there at the start come first
  obtain ⟨old₁, old₂, hsplit, hfirst, _⟩ : ∃ old₁ old₂, old' = old₁ ++ old₂
      ∧ List.Forall₂ (NonceRow.Evolves R) old old₁
      ∧ List.Forall₂ (NonceRow.Evolves R) new old₂ :=
    ⟨old'.take old.length, old'.drop old.length, (List.take_append_drop _ _).symm,
      by simpa using List.forall₂_take old.length hold',
      by simpa using List.forall₂_drop old.length hold'⟩
  refine ⟨old₁, old₂ ++ new', by rw [hrows', hsplit, List.append_assoc], ?_⟩
  have htrans : ∀ l₁ l₂ l₃, List.Forall₂ (NonceRow.Evolves R) l₁ l₂ →
      List.Forall₂ (NonceRow.Evolves R) l₂ l₃ → List.Forall₂ (NonceRow.Evolves R) l₁ l₃ := by
    intro l₁ l₂ l₃ h₁₂ h₂₃
    induction h₁₂ generalizing l₃ with
    | nil =>
        cases h₂₃
        exact .nil
    | cons hr _ ih =>
        cases h₂₃ with
        | cons hr' hrest => exact .cons (hr.trans hr') (ih _ hrest)
  exact htrans _ _ _ hold hfirst

/-- Rows that are moved, and rows that are added. -/
theorem evolves_update_append {keys : List (ExecutionId × ℕ)} {s : NonceState}
    {new : List NonceRow}
    (hrows : t'.rows = update keys (NonceRow.setState now s) t.rows ++ new)
    (hkeys : ∀ r ∈ t.rows, key r ∈ keys → r.state.Moves s) :
    t.Evolves (Relation.ReflGen NonceState.Moves) t' := by
  refine ⟨_, new, hrows, ?_⟩
  rw [update, List.forall₂_map_right_iff, List.forall₂_same]
  intro r hr
  by_cases hkey : key r ∈ keys
  · rw [if_pos hkey]
    exact ⟨rfl, rfl, rfl, rfl, rfl, .single (hkeys r hr hkey)⟩
  · rw [if_neg hkey]
    exact .refl _ r

/-- Rows that are moved. -/
theorem evolves_update {keys : List (ExecutionId × ℕ)} {s : NonceState}
    (hrows : t'.rows = update keys (NonceRow.setState now s) t.rows)
    (hkeys : ∀ r ∈ t.rows, key r ∈ keys → r.state.Moves s) :
    t.Evolves (Relation.ReflGen NonceState.Moves) t' :=
  evolves_update_append (hrows.trans (List.append_nil _).symm) hkeys

/-- Rows that are added. -/
theorem evolves_append {rows : List NonceRow} (hrows : t'.rows = t.rows ++ rows) :
    t.Evolves (Relation.ReflGen NonceState.Moves) t' :=
  ⟨t.rows, rows, hrows, List.forall₂_same.mpr fun r _ => .refl _ r⟩

/-- The row the first CTE of `reserve` consumes was released. -/
theorem released_of_targetRelease {r : NonceRow} (hr : r ∈ t.rows)
    (hkey : key r ∈ (t.targetRelease c fromAddress).toList.map key) : r.state = .released := by
  obtain ⟨s, hs, hkey⟩ := List.mem_map.mp hkey
  obtain ⟨hs, _, hstate⟩ := targetRelease_eq_some (Option.mem_toList.mp hs)
  rwa [← t.eq_of_key_eq hs hr hkey]

/-- **One operation**: the rows evolve by at most one move each, and stay numbered. -/
theorem evolves_apply (t : NonceTable) (op : NonceOp) :
    t.Evolves (Relation.ReflGen NonceState.Moves) (t.apply op)
      ∧ (Numbered t.rows → Numbered (t.apply op).rows) := by
  have hsame : t.apply op = t → t.Evolves (Relation.ReflGen NonceState.Moves) (t.apply op)
      ∧ (Numbered t.rows → Numbered (t.apply op).rows) := by
    intro heq
    rw [heq]
    exact ⟨.refl _ t, id⟩
  cases op with
  | reserve now chainId fromAddress e =>
      rcases reserve_cases t now chainId fromAddress e with
        ⟨err, herr⟩ | ⟨c, t', _, ⟨_, hrows, hreply⟩ | ⟨_, hrows, hreply⟩⟩
      · exact hsame (by rw [apply, herr])
      -- in both cases left the first CTE has retired the lowest released row
      all_goals
        have ht' : t.apply (.reserve now chainId fromAddress e) = t' := by rw [apply, hreply]
        rw [ht']
        have hconsumed : ∀ r ∈ t.rows,
            key r ∈ (t.targetRelease c fromAddress).toList.map key →
            r.state.Moves .consumed := by
          intro r hr hkey
          rw [released_of_targetRelease hr hkey]
          exact .retire
      · refine ⟨evolves_update hrows hconsumed, ?_⟩
        intro hnum
        rw [hrows]
        exact hnum.update (NonceRow.key_setState now .consumed)
      · refine ⟨evolves_update_append hrows hconsumed, fun hnum => ?_⟩
        rw [hrows]
        refine (hnum.update (NonceRow.key_setState now .consumed)).append ?_
        exact (nextRevision_afterConsume t now c fromAddress e).symm
  | resolve now e s =>
      by_cases hs : s = .reserved
      · subst hs
        exact hsame (by rw [apply, resolve_reserved])
      · have hrows := rows_resolve t now e hs
        -- only reserved rows are resolved, and every other state can follow
        refine ⟨evolves_update hrows ?_, ?_⟩
        · intro r hr hkey
          rw [state_of_latestReserved hr hkey]
          cases s with
          | reserved => exact absurd rfl hs
          | finalized => exact .finalize
          | released => exact .release
          | consumed => exact .consume
        · intro hnum
          rw [apply, hrows]
          exact hnum.update (NonceRow.key_setState now s)
  | sync now chainId fromAddress e nonceOnChain =>
      rcases sync_cases t now chainId fromAddress e nonceOnChain with
        heq | ⟨c, n, _, _, _, _, hrows⟩
      · exact hsame heq
      · refine ⟨evolves_append hrows, fun hnum => ?_⟩
        rw [apply, hrows]
        exact hnum.append rfl
  | sweep now =>
      have hrows := rows_sweep t now
      refine ⟨evolves_update hrows ?_, ?_⟩
      · intro r hr hkey
        rw [(NonceRow.isExpired_iff.mp (mem_expiredKeys hr hkey)).1]
        exact .release
      · intro hnum
        rw [apply, hrows]
        exact hnum.update (NonceRow.key_setState now .released)

/-! ## Runs -/

/-- The table after a sequence of operations. -/
def applyAll (t : NonceTable) (ops : List NonceOp) : NonceTable := ops.foldl apply t

theorem evolves_applyAll (t : NonceTable) (ops : List NonceOp) :
    t.Evolves (Relation.ReflTransGen NonceState.Moves) (t.applyAll ops) := by
  induction ops generalizing t with
  | nil => exact .refl _ t
  | cons op ops ih =>
      obtain ⟨old, new, hrows, hold⟩ := (evolves_apply t op).1
      have hstep : t.Evolves (Relation.ReflTransGen NonceState.Moves) (t.apply op) := by
        refine ⟨old, new, hrows, ?_⟩
        exact hold.imp fun r r' hr => hr.mono fun hstate => hstate.to_reflTransGen
      exact hstep.trans (ih (t.apply op))

theorem numbered_applyAll (t : NonceTable) (ops : List NonceOp) (h : Numbered t.rows) :
    Numbered (t.applyAll ops).rows := by
  induction ops generalizing t with
  | nil => exact h
  | cons op ops ih => exact ih (t.apply op) ((evolves_apply t op).2 h)

/-- Finalized and consumed rows stay what they are. -/
theorem absorbing {s s' : NonceState} (h : Relation.ReflTransGen NonceState.Moves s s')
    (hs : s = .finalized ∨ s = .consumed) : s' = s := by
  induction h with
  | refl => rfl
  | tail _ hmove ih =>
      rw [ih] at hmove
      rcases hs with rfl | rfl <;> cases hmove

/-- **The lifecycle of nonce rows**: after any operations, one more moves every row by at
most one step and keeps its identity, any further ones move it along such steps, no row
goes away, what is finalized or consumed stays so, and the revisions of every execution
are `1, …, k` in the order of creation. -/
theorem lifecycle (ops later : List NonceOp) (op : NonceOp) :
    (empty.applyAll ops).Evolves (Relation.ReflGen NonceState.Moves)
        ((empty.applyAll ops).apply op)
      ∧ (empty.applyAll ops).Evolves
          (fun s s' => Relation.ReflTransGen NonceState.Moves s s'
            ∧ (s = .finalized ∨ s = .consumed → s' = s))
          ((empty.applyAll ops).applyAll later)
      ∧ Numbered (empty.applyAll ops).rows := by
  refine ⟨(evolves_apply _ op).1, ?_, numbered_applyAll empty ops numbered_nil⟩
  obtain ⟨old, new, hrows, hold⟩ := evolves_applyAll (empty.applyAll ops) later
  refine ⟨old, new, hrows, hold.imp fun r r' hr => hr.mono fun hstate => ?_⟩
  exact ⟨hstate, absorbing hstate⟩

/-! ## The sweeper -/

/-- What the sub-select of the sweeper finds for an execution. -/
theorem exists_of_mem_expiredKeys {k : ExecutionId × ℕ} (h : k ∈ t.expiredKeys now) :
    ∃ r, latest (t.rows.filter fun r => r.isExpired now sweepLease) k.1 (fun _ => true)
      = some r ∧ key r = k := by
  unfold expiredKeys at h
  obtain ⟨e, _, hkey⟩ := List.mem_filterMap.mp (List.mem_of_mem_take h)
  obtain ⟨r, hr, rfl⟩ := Option.map_eq_some_iff.mp hkey
  obtain rfl : owner r = e := (latest_eq_some hr).2.1
  exact ⟨r, hr, rfl⟩

/-- The rows one call of the sweeper changes. -/
def swept (t : NonceTable) (now : Timestamp) : List NonceRow :=
  t.rows.filter fun r => (t.expiredKeys now).contains (key r)

theorem mem_swept {r : NonceRow} :
    r ∈ t.swept now ↔ r ∈ t.rows ∧ key r ∈ t.expiredKeys now := by
  simp [swept]

/-- What the sweeper reports to have released is what it changes. -/
theorem released_eq_swept {released : List (ℕ × ExecutionId)}
    (h : t.expireStates now = .ok (released, t')) :
    released = (t.swept now).map fun r => (r.nonce, r.executionId) := by
  rw [(expireStates_eq_ok.mp h).1, swept]
  congr 1
  exact List.filter_congr fun r _ => by simp

/-- They are expired, and the newest expired ones of their executions. -/
theorem newest_of_mem_swept {r : NonceRow} (hr : r ∈ t.swept now) :
    r.isExpired now sweepLease = true ∧ ∀ s ∈ t.rows, s.executionId = r.executionId →
      s.isExpired now sweepLease = true → s.revision ≤ r.revision := by
  obtain ⟨hr, hkey⟩ := mem_swept.mp hr
  refine ⟨mem_expiredKeys hr hkey, fun s hs howner hexp => ?_⟩
  obtain ⟨r', hlatest, hkey'⟩ := exists_of_mem_expiredKeys hkey
  have hle := revision_le_of_latest hlatest (List.mem_filter.mpr ⟨hs, hexp⟩) howner rfl
  have hrev : r'.revision = r.revision := congrArg Prod.snd hkey'
  rw [← hrev]
  exact hle

theorem length_swept_le (t : NonceTable) (now : Timestamp) : (t.swept now).length ≤ 100 := by
  have hsub : ((t.swept now).map key).Subperm (t.expiredKeys now) := by
    refine List.subperm_of_subset ?_ fun k hk => ?_
    · exact t.primaryKey.sublist (List.filter_sublist.map key)
    · obtain ⟨r, hr, rfl⟩ := List.mem_map.mp hk
      exact (mem_swept.mp hr).2
  have hle := hsub.length_le
  rw [List.length_map] at hle
  exact le_trans hle (List.length_take_le 100 _)

theorem nodup_executions_swept (t : NonceTable) (now : Timestamp) :
    ((t.swept now).map NonceRow.executionId).Nodup := by
  refine List.Nodup.map_on ?_ (t.primaryKey.of_map.filter _)
  intro r hr s hs heq
  -- each is the newest of the two
  have hle := (newest_of_mem_swept hr).2 s (mem_swept.mp hs).1 heq.symm (newest_of_mem_swept hs).1
  have hge := (newest_of_mem_swept hs).2 r (mem_swept.mp hr).1 heq (newest_of_mem_swept hr).1
  refine t.eq_of_key_eq (mem_swept.mp hr).1 (mem_swept.mp hs).1 ?_
  show (r.executionId, r.revision) = (s.executionId, s.revision)
  rw [heq, Nat.le_antisymm hge hle]

/-- An expired row makes the sweeper take one. -/
theorem exists_mem_swept {r : NonceRow} (hr : r ∈ t.rows)
    (hexp : r.isExpired now sweepLease = true) : ∃ s, s ∈ t.swept now := by
  have hfound : ∀ e, (∃ s ∈ t.rows, s.executionId = e ∧ s.isExpired now sweepLease = true) →
      ∃ s ∈ t.rows, (latest (t.rows.filter fun r => r.isExpired now sweepLease) e
        fun _ => true) = some s := by
    rintro e ⟨s, hs, howner, hexp⟩
    cases hlatest : latest (t.rows.filter fun r => r.isExpired now sweepLease) e
        (fun _ => true) with
    | none =>
        have hnone := latest_eq_none_iff.mp hlatest s (List.mem_filter.mpr ⟨hs, hexp⟩) howner
        cases hnone
    | some s' => exact ⟨s', (List.mem_filter.mp (latest_eq_some hlatest).1).1, rfl⟩
  obtain ⟨s, hs, hlatest⟩ := hfound r.executionId ⟨r, hr, rfl, hexp⟩
  -- the list of keys is not empty, and neither are its first hundred entries
  have hkeys : t.expiredKeys now ≠ [] := by
    rw [expiredKeys, Ne, List.take_eq_nil_iff, not_or]
    refine ⟨by decide, fun hnil => ?_⟩
    have hmem : key s ∈ ([] : List (ExecutionId × ℕ)) := by
      rw [← hnil]
      refine List.mem_filterMap.mpr ⟨r.executionId, ?_, by rw [hlatest]; rfl⟩
      rw [(List.perm_insertionSort _ _).mem_iff, List.mem_dedup]
      exact List.mem_map_of_mem (List.mem_filter.mpr ⟨hr, hexp⟩)
    cases hmem
  obtain ⟨k, hk⟩ := List.exists_mem_of_ne_nil _ hkeys
  obtain ⟨s', hs', rfl⟩ := exists_of_mem_expiredKeys hk
  exact ⟨s', mem_swept.mpr ⟨(List.mem_filter.mp (latest_eq_some hs').1).1, hk⟩⟩

/-- The rows that are reserved. -/
def reservedCount (t : NonceTable) : ℕ := t.rows.countP fun r => decide (r.state = .reserved)

/-- A call that finds an expired row leaves fewer reserved ones. -/
theorem reservedCount_sweep_lt {r : NonceRow} (hr : r ∈ t.rows)
    (hexp : r.isExpired now sweepLease = true) :
    (t.sweep now).reservedCount < t.reservedCount := by
  obtain ⟨s, hs⟩ := exists_mem_swept hr hexp
  obtain ⟨hs, hkey⟩ := mem_swept.mp hs
  have hreleased : ∀ r ∈ t.rows, key r ∈ t.expiredKeys now → decide (r.state = .reserved) = true
      ∧ decide ((NonceRow.setState now .released r).state = .reserved) = false := by
    intro r hr hkey
    simp [(NonceRow.isExpired_iff.mp (mem_expiredKeys hr hkey)).1]
  have hcount := countP_update_add hreleased
  have hpos : 0 < t.rows.countP fun r => decide (key r ∈ t.expiredKeys now) :=
    List.countP_pos_iff.mpr ⟨s, hs, by simpa using hkey⟩
  rw [reservedCount, rows_sweep, reservedCount]
  omega

/-- Calls of the sweeper alone, at the given times. -/
def sweeps : ℕ → (ℕ → Timestamp) → NonceTable → NonceTable
  | 0, _, t => t
  | k + 1, nows, t => sweeps k (fun i => nows (i + 1)) (t.sweep (nows 0))

/-- As many calls as there are reserved rows leave none that is expired. -/
theorem exists_sweeps (t : NonceTable) (nows : ℕ → Timestamp) :
    ∃ k ≤ t.reservedCount, ∀ r ∈ (sweeps k nows t).rows,
      r.isExpired (nows k) sweepLease = false := by
  induction hn : t.reservedCount using Nat.strong_induction_on generalizing t nows with
  | _ n ih =>
      subst hn
      by_cases hdone : ∀ r ∈ t.rows, r.isExpired (nows 0) sweepLease = false
      · exact ⟨0, Nat.zero_le _, hdone⟩
      · push Not at hdone
        obtain ⟨r, hr, hexp⟩ := hdone
        have hlt := reservedCount_sweep_lt hr (by simpa using hexp)
        obtain ⟨k, hk, hswept⟩ := ih _ hlt (t.sweep (nows 0)) (fun i => nows (i + 1)) rfl
        exact ⟨k + 1, by omega, hswept⟩

/-- **The sweeper is exact and makes progress.**  One call changes only reserved rows whose
lease is older than two minutes and five seconds: at most a hundred, and of each execution
at most its newest expired one; it reports these rows.  Repeated calls, whenever they are
made, reach a table without an expired row. -/
theorem sweeper_exact (t : NonceTable) :
    (∀ now, ∃ (changed : List NonceRow) (t' : NonceTable) (released : List (ℕ × ExecutionId)),
      t.expireStates now = .ok (released, t')
      ∧ released = changed.map (fun r => (r.nonce, r.executionId))
      ∧ expireReport released = (changed.length, changed.map NonceRow.executionId)
      ∧ List.Sublist changed t.rows
      ∧ t'.rows = t.rows.map (fun r => if r ∈ changed then r.setState now .released else r)
      ∧ changed.length ≤ 100
      ∧ (changed.map NonceRow.executionId).Nodup
      ∧ ∀ r ∈ changed, (r.state = .reserved ∧ r.updatedAt < now - (minutes 2 + seconds 5))
          ∧ ∀ s ∈ t.rows, s.executionId = r.executionId →
            s.state = .reserved → s.updatedAt < now - (minutes 2 + seconds 5) →
            s.revision ≤ r.revision)
    ∧ ∀ nows : ℕ → Timestamp, ∃ k, ∀ r ∈ (sweeps k nows t).rows,
        ¬ (r.state = .reserved ∧ r.updatedAt < nows k - (minutes 2 + seconds 5)) := by
  constructor
  · intro now
    obtain ⟨released, t', hexpire⟩ := expireStates_total t now
    have hreleased := released_eq_swept hexpire
    have hrows := (expireStates_eq_ok.mp hexpire).2
    refine ⟨t.swept now, t', released, hexpire, hreleased, ?_, List.filter_sublist, ?_,
      length_swept_le t now, nodup_executions_swept t now, fun r hr => ?_⟩
    · rw [hreleased, expireReport, List.length_map, List.map_map]
      rfl
    · rw [hrows, update]
      refine List.map_congr_left fun r hr => ?_
      simp [mem_swept, hr]
    · obtain ⟨hexp, hnewest⟩ := newest_of_mem_swept hr
      refine ⟨NonceRow.isExpired_iff.mp hexp, fun s hs howner hstate hold => ?_⟩
      exact hnewest s hs howner (NonceRow.isExpired_iff.mpr ⟨hstate, hold⟩)
  · intro nows
    obtain ⟨k, _, hdone⟩ := exists_sweeps t nows
    refine ⟨k, fun r hr hexp => ?_⟩
    have htrue : r.isExpired (nows k) sweepLease = true := NonceRow.isExpired_iff.mpr hexp
    rw [hdone r hr] at htrue
    cases htrue

end NonceTable

end Lobby
