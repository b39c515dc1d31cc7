/-
# The table `nonce.nonce_assignments`

The rows, the two unique indexes and the integer ranges of the table, and the SQL
statements the nonce engine and the sweeper run on it.  A table carries the proofs of its
constraints, so a statement that would break one has no successor table: it fails with
the error PostgreSQL reports and leaves the table as it was.

Every part of one statement reads the table as it was before the statement.  A CTE that
modifies rows runs to completion whether or not the outer `INSERT` selects a row.
Statements run one after the other, so `FOR UPDATE SKIP LOCKED` finds no locked row.

The lemmas at the end say, for each statement, what the new rows are.
-/
import Lobby.Types
import Lobby.Revisions

namespace Lobby

open Revisions

/-! ## Rows -/

/-- The states the partial unique index covers: `'reserved'` and `'finalized'`. -/
def NonceState.isActive : NonceState → Bool
  | .reserved => true
  | .finalized => true
  | .released => false
  | .consumed => false

structure NonceRow where
  executionId : ExecutionId
  revision : ℕ
  chainId : ℕ
  fromAddress : Address
  nonce : ℕ
  state : NonceState
  updatedAt : Timestamp
  deriving DecidableEq

namespace NonceRow

instance : Revisioned NonceRow ExecutionId := ⟨NonceRow.executionId, NonceRow.revision⟩

@[simp] theorem owner_eq (r : NonceRow) : owner r = r.executionId := rfl

@[simp] theorem revision_eq (r : NonceRow) : Revisioned.revision r = r.revision := rfl

/-- The row holds its nonce: it is `'reserved'` or `'finalized'`. -/
def isActive (r : NonceRow) : Bool := r.state.isActive

/-- The columns of `uniq_active_nonce`. -/
def slot (r : NonceRow) : ℕ × Address × ℕ := (r.chainId, r.fromAddress, r.nonce)

/-- The row belongs to the given `(chain_id, from_address)`. -/
def onPair (chainId : ℕ) (fromAddress : Address) (r : NonceRow) : Bool :=
  decide (r.chainId = chainId) && decide (r.fromAddress = fromAddress)

/-- The integer columns fit into `BIGINT`. -/
def InRange (r : NonceRow) : Prop :=
  r.revision < i64Bound ∧ r.chainId < i64Bound ∧ r.nonce < i64Bound

instance : DecidablePred InRange := fun _ => inferInstanceAs (Decidable (_ ∧ _ ∧ _))

/-- `SET state = s` with the trigger `touch_updated_at`: the timestamp moves only when
the state does. -/
def setState (now : Timestamp) (s : NonceState) (r : NonceRow) : NonceRow :=
  { r with state := s, updatedAt := if s = r.state then r.updatedAt else now }

/-- `state = 'finalized' OR (state = 'reserved' AND updated_at > now() - lease)`. -/
def isHeld (now lease : Timestamp) (r : NonceRow) : Bool :=
  decide (r.state = .finalized)
    || (decide (r.state = .reserved) && decide (now - lease < r.updatedAt))

/-- `state = 'reserved' AND updated_at < now() - lease`. -/
def isExpired (now lease : Timestamp) (r : NonceRow) : Bool :=
  decide (r.state = .reserved) && decide (r.updatedAt < now - lease)

theorem onPair_iff {chainId : ℕ} {fromAddress : Address} {r : NonceRow} :
    r.onPair chainId fromAddress = true
      ↔ r.chainId = chainId ∧ r.fromAddress = fromAddress := by
  simp [onPair]

theorem isActive_iff {r : NonceRow} :
    r.isActive = true ↔ r.state = .reserved ∨ r.state = .finalized := by
  cases hstate : r.state <;> simp [isActive, NonceState.isActive, hstate]

theorem isHeld_iff {now lease : Timestamp} {r : NonceRow} :
    r.isHeld now lease = true
      ↔ r.state = .finalized ∨ r.state = .reserved ∧ now - lease < r.updatedAt := by
  simp [isHeld]

theorem isExpired_iff {now lease : Timestamp} {r : NonceRow} :
    r.isExpired now lease = true ↔ r.state = .reserved ∧ r.updatedAt < now - lease := by
  simp [isExpired]

section setState

variable (now : Timestamp) (s : NonceState) (r : NonceRow)

@[simp] theorem setState_executionId : (r.setState now s).executionId = r.executionId := rfl
@[simp] theorem setState_revision : (r.setState now s).revision = r.revision := rfl
@[simp] theorem setState_chainId : (r.setState now s).chainId = r.chainId := rfl
@[simp] theorem setState_fromAddress : (r.setState now s).fromAddress = r.fromAddress := rfl
@[simp] theorem setState_nonce : (r.setState now s).nonce = r.nonce := rfl
@[simp] theorem setState_state : (r.setState now s).state = s := rfl
@[simp] theorem key_setState : key (r.setState now s) = key r := rfl
@[simp] theorem slot_setState : (r.setState now s).slot = r.slot := rfl
@[simp] theorem inRange_setState : (r.setState now s).InRange ↔ r.InRange := Iff.rfl
@[simp] theorem isActive_setState : (r.setState now s).isActive = s.isActive := rfl
@[simp] theorem onPair_setState (chainId : ℕ) (fromAddress : Address) :
    (r.setState now s).onPair chainId fromAddress = r.onPair chainId fromAddress := rfl

end setState

end NonceRow

/-! ## The table and its constraints -/

/-- The contents of `nonce.nonce_assignments`, with its constraints. -/
@[ext]
structure NonceTable where
  rows : List NonceRow
  /-- `PRIMARY KEY (execution_id, revision)` -/
  primaryKey : (rows.map key).Nodup
  /-- `uniq_active_nonce` -/
  uniqActiveNonce : ((rows.filter NonceRow.isActive).map NonceRow.slot).Nodup
  /-- the columns are `BIGINT` -/
  inRange : ∀ r ∈ rows, r.InRange

instance : DecidableEq NonceTable := fun t u =>
  decidable_of_iff (t.rows = u.rows) NonceTable.ext_iff.symm

namespace NonceTable

/-- The table after the migration. -/
def empty : NonceTable := ⟨[], by simp, by simp, by simp⟩

/-- The table with the given rows, or the error of the constraint they break. -/
def commit (rows : List NonceRow) : Except SqlxError NonceTable :=
  if hrange : ∀ r ∈ rows, r.InRange then
    if hkeys : (rows.map key).Nodup then
      if huniq : ((rows.filter NonceRow.isActive).map NonceRow.slot).Nodup then
        .ok ⟨rows, hkeys, huniq, hrange⟩
      else .error (.uniqueViolation "uniq_active_nonce")
    else .error (.uniqueViolation "nonce_assignments_pkey")
  else .error .bigintOutOfRange

theorem commit_eq_ok_iff {rows : List NonceRow} {t : NonceTable} :
    commit rows = .ok t ↔ t.rows = rows := by
  constructor
  · intro h
    unfold commit at h
    split at h
    · split at h
      · split at h
        · cases h
          rfl
        · cases h
      · cases h
    · cases h
  · rintro rfl
    rw [commit, dif_pos t.inRange, dif_pos t.primaryKey, dif_pos t.uniqActiveNonce]

theorem commit_of_not_inRange {rows : List NonceRow} {r : NonceRow} (hr : r ∈ rows)
    (hrange : ¬ r.InRange) : commit rows = .error .bigintOutOfRange := by
  rw [commit, dif_neg fun h => hrange (h r hr)]

theorem commit_of_constraints {rows : List NonceRow} (hkeys : (rows.map key).Nodup)
    (huniq : ((rows.filter NonceRow.isActive).map NonceRow.slot).Nodup)
    (hrange : ∀ r ∈ rows, r.InRange) :
    commit rows = .ok ⟨rows, hkeys, huniq, hrange⟩ := by
  rw [commit, dif_pos hrange, dif_pos hkeys, dif_pos huniq]

/-- Two rows that hold the same nonce of a pair are one row. -/
theorem eq_of_slot_eq (t : NonceTable) {r s : NonceRow} (hr : r ∈ t.rows) (hs : s ∈ t.rows)
    (hra : r.isActive = true) (hsa : s.isActive = true) (hslot : r.slot = s.slot) :
    r = s :=
  List.inj_on_of_nodup_map t.uniqActiveNonce (List.mem_filter.mpr ⟨hr, hra⟩)
    (List.mem_filter.mpr ⟨hs, hsa⟩) hslot

theorem eq_of_key_eq (t : NonceTable) {r s : NonceRow} (hr : r ∈ t.rows) (hs : s ∈ t.rows)
    (hkey : key r = key s) : r = s :=
  List.inj_on_of_nodup_map t.primaryKey hr hs hkey

/-! ## The statements of `handle_reserve` -/

/-- The CTE `target_release`: the row whose nonce fills the lowest gap of the pair. -/
def targetRelease (t : NonceTable) (chainId : ℕ) (fromAddress : Address) :
    Option NonceRow :=
  (t.rows.filter fun r => r.onPair chainId fromAddress && decide (r.state = .released)).argmin
    fun r => toLex (r.nonce, OrderDual.toDual r.revision)

/-- The CTE `max_nonce`; `none` stands for its `-1`. -/
def maxNonce (t : NonceTable) (chainId : ℕ) (fromAddress : Address) : Option ℕ :=
  ((t.rows.filter fun r => r.onPair chainId fromAddress && r.isActive).map
    NonceRow.nonce).max?

/-- The nonce of the new row: priority 1 fills a gap, priority 2 is sequential. -/
def candidateNonce (t : NonceTable) (chainId : ℕ) (fromAddress : Address) : ℕ :=
  match t.targetRelease chainId fromAddress with
  | some r => r.nonce
  | none =>
    match t.maxNonce chainId fromAddress with
    | some n => n + 1
    | none => 0

/-- The guard under `NOT EXISTS`: the execution already holds a nonce. -/
def holdsNonce (t : NonceTable) (now lease : Timestamp) (e : ExecutionId) : Bool :=
  t.rows.any fun r => decide (r.executionId = e) && r.isHeld now lease

/-- The rows after the CTE `consumed`. -/
def afterConsume (t : NonceTable) (now : Timestamp) (chainId : ℕ) (fromAddress : Address) :
    List NonceRow :=
  update ((t.targetRelease chainId fromAddress).toList.map key)
    (NonceRow.setState now .consumed) t.rows

/-- A row inserted in state `'reserved'` under the next revision of its execution. -/
def reservedRow (t : NonceTable) (now : Timestamp) (chainId : ℕ) (fromAddress : Address)
    (e : ExecutionId) (nonce : ℕ) : NonceRow :=
  { executionId := e
    revision := nextRevision t.rows e
    chainId := chainId
    fromAddress := fromAddress
    nonce := nonce
    state := .reserved
    updatedAt := now }

/-- The `INSERT` of `handle_reserve`; it returns the nonce and revision of the new row. -/
def reserveCandidate (t : NonceTable) (now : Timestamp) (chainId : ℕ)
    (fromAddress : Address) (e : ExecutionId) :
    Except SqlxError (Option (ℕ × ℕ) × NonceTable) :=
  let consumed := t.afterConsume now chainId fromAddress
  if t.holdsNonce now (minutes 2) e then do
    let t' ← commit consumed
    return (none, t')
  else do
    let row := t.reservedRow now chainId fromAddress e (t.candidateNonce chainId fromAddress)
    let t' ← commit (consumed ++ [row])
    return (some (row.nonce, row.revision), t')

/-- The newest row of the execution that holds a nonce. -/
def existing (t : NonceTable) (e : ExecutionId) : Option NonceRow :=
  latest t.rows e NonceRow.isActive

/-! ## The statements of `handle_sync` and `handle_resolve` -/

/-- The second `NOT EXISTS` of `handle_sync`: a young lease on the very nonce. -/
def nonceLeased (t : NonceTable) (now : Timestamp) (chainId : ℕ) (fromAddress : Address)
    (nonce : ℕ) : Bool :=
  t.rows.any fun r => r.onPair chainId fromAddress && decide (r.nonce = nonce)
    && decide (r.state = .reserved) && decide (now - minutes 5 < r.updatedAt)

/-- The `INSERT` of `handle_sync`. -/
def syncReserve (t : NonceTable) (now : Timestamp) (chainId : ℕ) (fromAddress : Address)
    (e : ExecutionId) (nonce : ℕ) : Except SqlxError (Option (ℕ × ℕ) × NonceTable) :=
  if t.holdsNonce now (minutes 5) e || t.nonceLeased now chainId fromAddress nonce then
    .ok (none, t)
  else do
    let row := t.reservedRow now chainId fromAddress e nonce
    let t' ← commit (t.rows ++ [row])
    return (some (row.nonce, row.revision), t')

/-- The newest reserved row of an execution: the one `handle_resolve` updates. -/
def latestReserved (t : NonceTable) (e : ExecutionId) : Option NonceRow :=
  latest t.rows e fun r => decide (r.state = .reserved)

/-- The `UPDATE` of `handle_resolve`, with the number of rows it affected. -/
def resolveUpdate (t : NonceTable) (now : Timestamp) (e : ExecutionId) (s : NonceState) :
    Except SqlxError (ℕ × NonceTable) := do
  let keys := (t.latestReserved e).toList.map key
  let t' ← commit (update keys (NonceRow.setState now s) t.rows)
  return (keys.length, t')

/-- The state of the newest row of an execution. -/
def latestState (t : NonceTable) (e : ExecutionId) : Option NonceState :=
  (latest t.rows e fun _ => true).map NonceRow.state

/-! ## The statement of the sweeper -/

/-- The lease after which the sweeper takes a nonce back: 2 minutes 5 seconds. -/
def sweepLease : Timestamp := minutes 2 + seconds 5

/-- The sub-select of `expire_states`: for each execution its newest expired row, in the
order of the execution ids, at most a hundred. -/
def expiredKeys (t : NonceTable) (now : Timestamp) : List (ExecutionId × ℕ) :=
  let expired := t.rows.filter fun r => r.isExpired now sweepLease
  let ids := (expired.map NonceRow.executionId).dedup.insertionSort
    fun e e' => e.uuid.toNat ≤ e'.uuid.toNat
  (ids.filterMap fun e => (latest expired e fun _ => true).map key).take 100

/-- `expire_states`; it returns the nonces and executions of the released rows. -/
def expireStates (t : NonceTable) (now : Timestamp) :
    Except SqlxError (List (ℕ × ExecutionId) × NonceTable) := do
  let keys := t.expiredKeys now
  let t' ← commit (update keys (NonceRow.setState now .released) t.rows)
  return ((t.rows.filter fun r => decide (key r ∈ keys)).map
    fun r => (r.nonce, r.executionId), t')

/-- What `expire_states` makes of the returned rows: their number and their executions. -/
def expireReport (released : List (ℕ × ExecutionId)) : ℕ × List ExecutionId :=
  (released.length, released.map Prod.snd)

/-! ## What the sub-selects find -/

variable {t t' : NonceTable} {now : Timestamp} {chainId : ℕ} {fromAddress : Address}
  {e : ExecutionId}

theorem targetRelease_eq_some {r : NonceRow}
    (h : t.targetRelease chainId fromAddress = some r) :
    r ∈ t.rows ∧ r.onPair chainId fromAddress = true ∧ r.state = .released := by
  have hmem := List.mem_filter.mp (List.argmin_mem (Option.mem_def.mpr h))
  simpa using hmem

theorem nonce_le_of_targetRelease {r s : NonceRow}
    (h : t.targetRelease chainId fromAddress = some r) (hs : s ∈ t.rows)
    (hpair : s.onPair chainId fromAddress = true) (hstate : s.state = .released) :
    r.nonce ≤ s.nonce := by
  have hle := List.le_of_mem_argmin (List.mem_filter.mpr ⟨hs, by simp [hpair, hstate]⟩)
    (Option.mem_def.mpr h)
  rw [Prod.Lex.toLex_le_toLex] at hle
  rcases hle with hlt | ⟨heq, _⟩
  · exact le_of_lt hlt
  · exact le_of_eq heq

theorem targetRelease_eq_none_iff :
    t.targetRelease chainId fromAddress = none
      ↔ ∀ r ∈ t.rows, r.onPair chainId fromAddress = true → r.state ≠ .released := by
  rw [targetRelease, List.argmin_eq_none, List.filter_eq_nil_iff]
  simp

theorem maxNonce_eq_none_iff :
    t.maxNonce chainId fromAddress = none
      ↔ ∀ r ∈ t.rows, r.onPair chainId fromAddress = true → r.isActive = false := by
  rw [maxNonce, List.max?_eq_none_iff, List.map_eq_nil_iff, List.filter_eq_nil_iff]
  simp

theorem maxNonce_eq_some_iff {n : ℕ} :
    t.maxNonce chainId fromAddress = some n
      ↔ (∃ r ∈ t.rows, r.onPair chainId fromAddress = true ∧ r.isActive = true
          ∧ r.nonce = n)
        ∧ ∀ r ∈ t.rows, r.onPair chainId fromAddress = true → r.isActive = true →
          r.nonce ≤ n := by
  rw [maxNonce, List.max?_eq_some_iff]
  simp only [List.mem_map, List.mem_filter, Bool.and_eq_true, and_assoc]
  refine and_congr_right fun _ => ⟨fun h r hr hpair hact => ?_, fun h n' => ?_⟩
  · exact h r.nonce ⟨r, hr, hpair, hact, rfl⟩
  · rintro ⟨r, hr, hpair, hact, rfl⟩
    exact h r hr hpair hact

theorem holdsNonce_iff {lease : Timestamp} :
    t.holdsNonce now lease e = true
      ↔ ∃ r ∈ t.rows, r.executionId = e ∧ r.isHeld now lease = true := by
  simp [holdsNonce]

theorem existing_eq_some {r : NonceRow} (h : t.existing e = some r) :
    r ∈ t.rows ∧ r.executionId = e ∧ r.isActive = true :=
  latest_eq_some h

theorem latestReserved_eq_some {r : NonceRow} (h : t.latestReserved e = some r) :
    r ∈ t.rows ∧ r.executionId = e ∧ r.state = .reserved := by
  simpa using latest_eq_some h

theorem mem_expiredKeys {r : NonceRow} (hr : r ∈ t.rows)
    (h : key r ∈ t.expiredKeys now) : r.isExpired now sweepLease = true := by
  unfold expiredKeys at h
  obtain ⟨e, _, hkey⟩ := List.mem_filterMap.mp (List.mem_of_mem_take h)
  obtain ⟨s, hs, hkey⟩ := Option.map_eq_some_iff.mp hkey
  obtain ⟨hs, _, _⟩ := latest_eq_some hs
  obtain ⟨hs, hexp⟩ := List.mem_filter.mp hs
  rwa [← t.eq_of_key_eq hs hr hkey]

/-! ## What the statements do to the rows -/

/-- Changing the state of rows succeeds, unless it makes an inactive row active. -/
theorem commit_update (t : NonceTable) (now : Timestamp) (keys : List (ExecutionId × ℕ))
    (s : NonceState)
    (h : ∀ r ∈ t.rows, key r ∈ keys → s.isActive = true → r.isActive = true) :
    ∃ t', commit (update keys (NonceRow.setState now s) t.rows) = .ok t'
      ∧ t'.rows = update keys (NonceRow.setState now s) t.rows := by
  have hkeys : ((update keys (NonceRow.setState now s) t.rows).map key).Nodup := by
    rw [map_key_update (NonceRow.key_setState now s)]
    exact t.primaryKey
  -- an update activates no row, so no slot is taken twice
  have hsub : List.Sublist
      (((update keys (NonceRow.setState now s) t.rows).filter NonceRow.isActive).map
        NonceRow.slot) ((t.rows.filter NonceRow.isActive).map NonceRow.slot) :=
    map_filter_update_sublist (NonceRow.slot_setState now s) h
  refine ⟨_, commit_of_constraints hkeys (t.uniqActiveNonce.sublist hsub) ?_, rfl⟩
  intro r hr
  obtain ⟨r₀, hr₀, rfl⟩ := mem_update.mp hr
  by_cases hkey : key r₀ ∈ keys
  · rw [if_pos hkey]
    exact t.inRange r₀ hr₀
  · rw [if_neg hkey]
    exact t.inRange r₀ hr₀

theorem commit_afterConsume (t : NonceTable) (now : Timestamp) (chainId : ℕ)
    (fromAddress : Address) :
    ∃ t', commit (t.afterConsume now chainId fromAddress) = .ok t'
      ∧ t'.rows = t.afterConsume now chainId fromAddress := by
  refine commit_update t now _ .consumed fun r _ _ hact => ?_
  cases hact

/-- A committed row can be added when it is in range, new and takes no held nonce. -/
theorem commit_append {row : NonceRow} (hrange : row.InRange)
    (hrev : row.revision = nextRevision t.rows row.executionId)
    (huniq : ∀ r ∈ t.rows, r.isActive = true → r.slot ≠ row.slot) :
    ∃ t', commit (t.rows ++ [row]) = .ok t' ∧ t'.rows = t.rows ++ [row] := by
  refine ⟨_, commit_of_constraints (nodup_key_append t.primaryKey hrev) ?_ ?_, rfl⟩
  · rw [List.filter_append, List.map_append, List.nodup_append]
    refine ⟨t.uniqActiveNonce, ?_, ?_⟩
    · by_cases hact : row.isActive = true <;> simp [hact]
    · rintro slot hslot slot' hslot' rfl
      obtain ⟨r, hr, rfl⟩ := List.mem_map.mp hslot
      obtain ⟨r', hr', hslot'⟩ := List.mem_map.mp hslot'
      obtain ⟨hr, hract⟩ := List.mem_filter.mp hr
      have heq : r' = row := List.mem_singleton.mp (List.mem_of_mem_filter hr')
      exact huniq r hr hract (by rw [← hslot', heq])
  · intro r hr
    rcases List.mem_append.mp hr with hr | hr
    · exact t.inRange r hr
    · rwa [List.mem_singleton.mp hr]

/-- **What `INSERT` of `handle_reserve` does.**  The lowest released row of the pair is
consumed in both cases; a new row appears only when the execution holds no nonce. -/
theorem reserveCandidate_eq_ok {reply : Option (ℕ × ℕ)} :
    t.reserveCandidate now chainId fromAddress e = .ok (reply, t')
      ↔ t.holdsNonce now (minutes 2) e = true ∧ reply = none
          ∧ t'.rows = t.afterConsume now chainId fromAddress
        ∨ t.holdsNonce now (minutes 2) e = false
          ∧ reply = some (t.candidateNonce chainId fromAddress, nextRevision t.rows e)
          ∧ t'.rows = t.afterConsume now chainId fromAddress
            ++ [t.reservedRow now chainId fromAddress e
                  (t.candidateNonce chainId fromAddress)] := by
  unfold reserveCandidate
  -- the released rows are consumed in either case, and only then a row may be added
  cases hheld : t.holdsNonce now (minutes 2) e
  · simp only [Bool.false_eq_true, if_false, false_and, true_and, false_or]
    rw [← commit_eq_ok_iff]
    cases hcommit : commit (t.afterConsume now chainId fromAddress
      ++ [t.reservedRow now chainId fromAddress e (t.candidateNonce chainId fromAddress)])
    · simp [bind, Except.bind]
    · simp [bind, Except.bind, pure, Except.pure, reservedRow, eq_comm]
  · simp only [if_true, true_and, Bool.true_eq_false, false_and, or_false]
    rw [← commit_eq_ok_iff]
    cases hcommit : commit (t.afterConsume now chainId fromAddress)
    · simp [bind, Except.bind]
    · simp [bind, Except.bind, pure, Except.pure, eq_comm]

/-- **What the `INSERT` of `handle_sync` does.** -/
theorem syncReserve_eq_ok {nonce : ℕ} {reply : Option (ℕ × ℕ)} :
    t.syncReserve now chainId fromAddress e nonce = .ok (reply, t')
      ↔ (t.holdsNonce now (minutes 5) e = true
            ∨ t.nonceLeased now chainId fromAddress nonce = true)
          ∧ reply = none ∧ t' = t
        ∨ t.holdsNonce now (minutes 5) e = false
          ∧ t.nonceLeased now chainId fromAddress nonce = false
          ∧ reply = some (nonce, nextRevision t.rows e)
          ∧ t'.rows = t.rows ++ [t.reservedRow now chainId fromAddress e nonce] := by
  rw [syncReserve, ← commit_eq_ok_iff]
  cases hheld : t.holdsNonce now (minutes 5) e <;>
    cases hleased : t.nonceLeased now chainId fromAddress nonce
  · simp only [Bool.or_false, Bool.false_eq_true, if_false, false_and, true_and, false_or,
      or_self]
    cases hcommit : commit (t.rows ++ [t.reservedRow now chainId fromAddress e nonce])
    · simp [bind, Except.bind]
    · simp [bind, Except.bind, pure, Except.pure, reservedRow, eq_comm]
  · simp [eq_comm]
  · simp [eq_comm]
  · simp [eq_comm]

/-- **What the `UPDATE` of `handle_resolve` does**: the newest reserved row of the
execution moves to the new state; nothing else changes. -/
theorem resolveUpdate_eq_ok {s : NonceState} {n : ℕ} :
    t.resolveUpdate now e s = .ok (n, t')
      ↔ n = (t.latestReserved e).toList.length
        ∧ t'.rows = update ((t.latestReserved e).toList.map key)
            (NonceRow.setState now s) t.rows := by
  rw [resolveUpdate, ← commit_eq_ok_iff]
  cases hcommit : commit (update ((t.latestReserved e).toList.map key)
    (NonceRow.setState now s) t.rows)
  · simp [bind, Except.bind]
  · simp [bind, Except.bind, pure, Except.pure, eq_comm]

theorem state_of_latestReserved {r : NonceRow} (hr : r ∈ t.rows)
    (h : key r ∈ (t.latestReserved e).toList.map key) : r.state = .reserved := by
  obtain ⟨s, hs, hkey⟩ := List.mem_map.mp h
  obtain ⟨hs, _, hstate⟩ := latestReserved_eq_some (Option.mem_toList.mp hs)
  rwa [← t.eq_of_key_eq hs hr hkey]

/-- The `UPDATE` of `handle_resolve` breaks no constraint. -/
theorem resolveUpdate_total (t : NonceTable) (now : Timestamp) (e : ExecutionId)
    (s : NonceState) : ∃ n t', t.resolveUpdate now e s = .ok (n, t') := by
  obtain ⟨t', _, hrows⟩ := commit_update t now ((t.latestReserved e).toList.map key) s
    fun r hr hkey _ => NonceRow.isActive_iff.mpr (Or.inl (state_of_latestReserved hr hkey))
  exact ⟨_, t', resolveUpdate_eq_ok.mpr ⟨rfl, hrows⟩⟩

/-- **What the sweeper's `UPDATE` does**: the selected rows move to `'released'`. -/
theorem expireStates_eq_ok {released : List (ℕ × ExecutionId)} :
    t.expireStates now = .ok (released, t')
      ↔ released = (t.rows.filter fun r => decide (key r ∈ t.expiredKeys now)).map
            (fun r => (r.nonce, r.executionId))
        ∧ t'.rows = update (t.expiredKeys now) (NonceRow.setState now .released) t.rows := by
  rw [expireStates, ← commit_eq_ok_iff]
  cases hcommit : commit (update (t.expiredKeys now) (NonceRow.setState now .released)
    t.rows)
  · simp [bind, Except.bind]
  · simp [bind, Except.bind, pure, Except.pure, eq_comm]

/-- The sweeper's `UPDATE` breaks no constraint. -/
theorem expireStates_total (t : NonceTable) (now : Timestamp) :
    ∃ released t', t.expireStates now = .ok (released, t') := by
  obtain ⟨t', _, hrows⟩ := commit_update t now (t.expiredKeys now) .released
    fun r _ _ hact => by cases hact
  exact ⟨_, t', expireStates_eq_ok.mpr ⟨rfl, hrows⟩⟩

/-! ## The nonce of the next row -/

/-- The row the first CTE consumes was released, so it is in no selection of rows that
hold their nonce, before or after. -/
theorem filter_afterConsume {p : NonceRow → Bool}
    (hp : ∀ r, p r = true → r.isActive = true) :
    (t.afterConsume now chainId fromAddress).filter p = t.rows.filter p := by
  refine filter_update fun r hr hkey => ?_
  obtain ⟨s, hs, hkey⟩ := List.mem_map.mp hkey
  obtain ⟨hs, _, hstate⟩ := targetRelease_eq_some (Option.mem_toList.mp hs)
  rw [t.eq_of_key_eq hs hr hkey] at hstate
  constructor
  · rw [← Bool.not_eq_true]
    intro h
    rcases NonceRow.isActive_iff.mp (hp r h) with hact | hact <;> simp [hstate] at hact
  · rw [← Bool.not_eq_true]
    intro h
    have hact := hp _ h
    rw [NonceRow.isActive_setState] at hact
    cases hact

/-- The rows that hold a nonce are the same after the first CTE. -/
theorem mem_afterConsume_iff {r : NonceRow} (hact : r.isActive = true) :
    r ∈ t.afterConsume now chainId fromAddress ↔ r ∈ t.rows := by
  have hfilter : (t.afterConsume now chainId fromAddress).filter NonceRow.isActive
      = t.rows.filter NonceRow.isActive := filter_afterConsume fun _ h => h
  have hmem := congrArg (r ∈ ·) hfilter
  simpa [List.mem_filter, hact] using hmem

/-- The newest row that holds a nonce is the same after the first CTE. -/
theorem existing_afterConsume {t' : NonceTable}
    (hrows : t'.rows = t.afterConsume now chainId fromAddress) (e : ExecutionId) :
    t'.existing e = t.existing e := by
  rw [existing, existing, latest, latest, hrows, filter_afterConsume]
  intro r hr
  rw [Bool.and_eq_true] at hr
  exact hr.2

theorem nextRevision_afterConsume (t : NonceTable) (now : Timestamp) (chainId : ℕ)
    (fromAddress : Address) (e : ExecutionId) :
    nextRevision (t.afterConsume now chainId fromAddress) e = nextRevision t.rows e :=
  nextRevision_update (NonceRow.key_setState now .consumed) e

/-- A row out of range is not inserted. -/
theorem reserveCandidate_of_not_inRange
    (hheld : t.holdsNonce now (minutes 2) e = false)
    (hrange : ¬ (t.reservedRow now chainId fromAddress e
      (t.candidateNonce chainId fromAddress)).InRange) :
    t.reserveCandidate now chainId fromAddress e = .error .bigintOutOfRange := by
  rw [reserveCandidate, hheld]
  simp only [Bool.false_eq_true, if_false]
  rw [commit_of_not_inRange (List.mem_append_right _ List.mem_cons_self) hrange]
  rfl

/-- The `INSERT` of `handle_reserve` adds its row when the row is in range and nobody
holds its nonce. -/
theorem reserveCandidate_insert (now : Timestamp)
    (hheld : t.holdsNonce now (minutes 2) e = false)
    (hrange : (t.reservedRow now chainId fromAddress e
      (t.candidateNonce chainId fromAddress)).InRange)
    (hfree : ∀ r ∈ t.rows, r.isActive = true → r.onPair chainId fromAddress = true →
      r.nonce ≠ t.candidateNonce chainId fromAddress) :
    ∃ t', t.reserveCandidate now chainId fromAddress e
      = .ok (some (t.candidateNonce chainId fromAddress, nextRevision t.rows e), t') := by
  obtain ⟨u, _, hu⟩ := commit_afterConsume t now chainId fromAddress
  obtain ⟨t', _, ht'⟩ := commit_append (t := u) hrange
    (by rw [hu]; exact (nextRevision_afterConsume t now chainId fromAddress e).symm)
    (by
      intro r hr hact hslot
      rw [hu, mem_afterConsume_iff hact] at hr
      simp only [NonceRow.slot, reservedRow, Prod.mk.injEq] at hslot
      exact hfree r hr hact (NonceRow.onPair_iff.mpr ⟨hslot.1, hslot.2.1⟩) hslot.2.2)
  refine ⟨t', reserveCandidate_eq_ok.mpr (Or.inr ⟨hheld, rfl, ?_⟩)⟩
  rw [ht', hu]

end NonceTable

end Lobby
