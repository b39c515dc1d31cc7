/-
# Runs of the nonce ledger

The operations of the nonce engine and the sweeper on one table, their effect on the
rows, and the tables their runs reach.  The main result is about runs that only reserve
for new executions, release, finalize and sweep: the reserved, finalized and released
nonces of every pair are `0, …, k - 1`, each once, and a reserve answers with the least
nonce that nobody holds.
-/
import Lobby.NonceEngine

namespace Lobby

open Revisions

/-! ## Operations and runs -/

/-- An account and an execution of the examples below. -/
def sampleAddress : Address := .ofByte 0x11

def sampleExecution (n : ℕ) : ExecutionId := ⟨BitVec.ofNat 128 n⟩

/-- One command of the nonce engine or one tick of the sweeper, with its clock value. -/
inductive NonceOp : Type where
  | reserve (now : Timestamp) (chainId : ChainId) (fromAddress : Address)
      (executionId : ExecutionId)
  | resolve (now : Timestamp) (executionId : ExecutionId) (state : NonceState)
  | sync (now : Timestamp) (chainId : ChainId) (fromAddress : Address)
      (executionId : ExecutionId) (nonceOnChain : TxNonce)
  | sweep (now : Timestamp)

namespace NonceTable

/-- The table after an operation. -/
def apply (t : NonceTable) : NonceOp → NonceTable
  | .reserve now chainId fromAddress e => (t.reserve now chainId fromAddress e).2
  | .resolve now e s => (t.resolve now e s).2
  | .sync now chainId fromAddress e nonceOnChain =>
      (t.sync now chainId fromAddress e nonceOnChain).2
  | .sweep now => t.sweep now

/-- The tables that runs reach whose operations are all admitted where they happen. -/
inductive Run (admits : NonceTable → NonceOp → Prop) : NonceTable → Prop where
  | start : Run admits empty
  | next {t op} (ht : Run admits t) (hop : admits t op) : Run admits (t.apply op)

variable {t : NonceTable} {op : NonceOp} {now : Timestamp} {chainId : ChainId} {c : ℕ}
  {fromAddress : Address} {e : ExecutionId}

/-- **What `reserve` does**: it fails and changes nothing, or the execution holds a nonce
and the lowest released row is consumed, or moreover a new row is added. -/
theorem reserve_cases (t : NonceTable) (now : Timestamp) (chainId : ChainId)
    (fromAddress : Address) (e : ExecutionId) :
    (∃ err, t.reserve now chainId fromAddress e = (.error err, t))
    ∨ ∃ c t', chainId.id.toI64 = some c
      ∧ (t.holdsNonce now (minutes 2) e = true
          ∧ t'.rows = t.afterConsume now c fromAddress
          ∧ t.reserve now chainId fromAddress e
            = ((match t'.existing e with
                | some r => TxNonce.tryFrom r.nonce
                | none => .error (.ofSqlx .rowNotFound)), t')
        ∨ t.holdsNonce now (minutes 2) e = false
          ∧ t'.rows = t.afterConsume now c fromAddress
            ++ [t.reservedRow now c fromAddress e (t.candidateNonce c fromAddress)]
          ∧ t.reserve now chainId fromAddress e
            = (TxNonce.tryFrom (t.candidateNonce c fromAddress), t')) := by
  cases hchain : chainId.id.toI64 with
  | none => exact Or.inl ⟨_, reserve_of_toI64_none hchain⟩
  | some c =>
      cases hinsert : t.reserveCandidate now c fromAddress e with
      | error err => exact Or.inl ⟨_, reserve_of_error hchain hinsert⟩
      | ok reply =>
          obtain ⟨reply, t'⟩ := reply
          refine Or.inr ⟨c, t', rfl, ?_⟩
          -- the execution holds a row, or one was inserted
          rcases reserveCandidate_eq_ok.mp hinsert with
            ⟨hheld, rfl, hrows⟩ | ⟨hheld, rfl, hrows⟩
          · exact Or.inl ⟨hheld, hrows, reserve_of_held hchain hinsert⟩
          · exact Or.inr ⟨hheld, hrows, reserve_of_insert hchain hinsert⟩

/-- **What `sync` does**: nothing, or it adds a row with the nonce of the chain. -/
theorem sync_cases (t : NonceTable) (now : Timestamp) (chainId : ChainId)
    (fromAddress : Address) (e : ExecutionId) (nonceOnChain : TxNonce) :
    (t.sync now chainId fromAddress e nonceOnChain).2 = t
    ∨ ∃ c n, chainId.id.toI64 = some c ∧ nonceOnChain.value.toI64 = some n
      ∧ t.holdsNonce now (minutes 5) e = false
      ∧ t.nonceLeased now c fromAddress n = false
      ∧ (t.sync now chainId fromAddress e nonceOnChain).2.rows
        = t.rows ++ [t.reservedRow now c fromAddress e n] := by
  cases hchain : chainId.id.toI64 with
  | none => exact Or.inl (sync_of_toI64_none (Or.inl hchain))
  | some c =>
      cases hnonce : nonceOnChain.value.toI64 with
      | none => exact Or.inl (sync_of_toI64_none (Or.inr hnonce))
      | some n =>
          have hsnd := sync_snd t now fromAddress e hchain hnonce
          cases hinsert : t.syncReserve now c fromAddress e n with
          | error err =>
              rw [hinsert] at hsnd
              exact Or.inl hsnd
          | ok reply =>
              obtain ⟨reply, t'⟩ := reply
              rw [hinsert] at hsnd
              rcases syncReserve_eq_ok.mp hinsert with
                ⟨_, _, rfl⟩ | ⟨hheld, hleased, _, hrows⟩
              · exact Or.inl hsnd
              · exact Or.inr ⟨c, n, rfl, rfl, hheld, hleased, by rw [hsnd, hrows]⟩

/-- **What `resolve` does**: the newest reserved row of the execution moves. -/
theorem rows_resolve (t : NonceTable) (now : Timestamp) (e : ExecutionId) {s : NonceState}
    (hs : s ≠ .reserved) :
    (t.resolve now e s).2.rows
      = update ((t.latestReserved e).toList.map key) (NonceRow.setState now s) t.rows := by
  obtain ⟨n, t', hupdate⟩ := resolveUpdate_total t now e s
  rw [resolve_snd hs hupdate]
  exact (resolveUpdate_eq_ok.mp hupdate).2

/-- **What a tick of the sweeper does**: the selected rows are released. -/
theorem rows_sweep (t : NonceTable) (now : Timestamp) :
    (t.sweep now).rows
      = update (t.expiredKeys now) (NonceRow.setState now .released) t.rows := by
  obtain ⟨released, t', hexpire⟩ := expireStates_total t now
  rw [sweep_eq hexpire]
  exact (expireStates_eq_ok.mp hexpire).2

/-! ## The open nonces of a pair -/

/-- The nonces of the pair's rows in state reserved, finalized or released. -/
def openNonces (t : NonceTable) (c : ℕ) (fromAddress : Address) : List ℕ :=
  (t.rows.filter fun r => r.onPair c fromAddress && decide (r.state ≠ .consumed)).map
    NonceRow.nonce

theorem mem_openNonces {n : ℕ} :
    n ∈ t.openNonces c fromAddress
      ↔ ∃ r ∈ t.rows, r.onPair c fromAddress = true ∧ r.state ≠ .consumed
        ∧ r.nonce = n := by
  simp [openNonces, and_assoc]

/-- Moving rows between the open states keeps the open nonces. -/
theorem openNonces_of_update {t' : NonceTable} {keys : List (ExecutionId × ℕ)}
    {s : NonceState} (hrows : t'.rows = update keys (NonceRow.setState now s) t.rows)
    (hs : s ≠ .consumed) (hopen : ∀ r ∈ t.rows, key r ∈ keys → r.state ≠ .consumed) :
    t'.openNonces c fromAddress = t.openNonces c fromAddress := by
  rw [openNonces, openNonces, hrows]
  refine map_filter_update (NonceRow.setState_nonce now s) fun r hr hkey => ?_
  simp [hs, hopen r hr hkey]

/-- Consuming the lowest released row of a pair does not show on another pair. -/
theorem afterConsume_other {c' : ℕ} {fromAddress' : Address}
    (hother : ¬ (c' = c ∧ fromAddress' = fromAddress)) :
    (((t.afterConsume now c fromAddress).filter fun r =>
        r.onPair c' fromAddress' && decide (r.state ≠ .consumed)).map NonceRow.nonce)
      = t.openNonces c' fromAddress' := by
  refine map_filter_update (NonceRow.setState_nonce now .consumed) fun r hr hkey => ?_
  obtain ⟨s, hs, hkey⟩ := List.mem_map.mp hkey
  obtain ⟨hs, hpair, _⟩ := targetRelease_eq_some (Option.mem_toList.mp hs)
  rw [t.eq_of_key_eq hs hr hkey, NonceRow.onPair_iff] at hpair
  have hoff : r.onPair c' fromAddress' = false := by
    rw [← Bool.not_eq_true, NonceRow.onPair_iff]
    rintro ⟨hchain, haddress⟩
    exact hother ⟨hchain.symm.trans hpair.1, haddress.symm.trans hpair.2⟩
  rw [NonceRow.onPair_setState, hoff, Bool.false_and, Bool.false_and]

/-- Consuming the lowest released row takes its nonce out of the open ones. -/
theorem afterConsume_perm {r : NonceRow} (hr : t.targetRelease c fromAddress = some r) :
    (((t.afterConsume now c fromAddress).filter fun r =>
        r.onPair c fromAddress && decide (r.state ≠ .consumed)).map NonceRow.nonce
      ++ [r.nonce]).Perm (t.openNonces c fromAddress) := by
  obtain ⟨hmem, hpair, hstate⟩ := targetRelease_eq_some hr
  obtain ⟨before, after, hrows, hupdate⟩ :=
    update_singleton (f := NonceRow.setState now .consumed) t.primaryKey hmem
  rw [afterConsume, hr, Option.toList_some, List.map_singleton, hupdate, openNonces, hrows]
  simp only [List.filter_append, List.filter_cons, NonceRow.onPair_setState, hpair,
    NonceRow.setState_state, hstate]
  simp only [ne_eq, not_true_eq_false, decide_false, Bool.and_false, Bool.false_eq_true,
    if_false, reduceCtorEq, not_false_eq_true, decide_true, Bool.and_true, if_true,
    List.map_append, List.map_cons]
  rw [List.append_assoc]
  exact List.Perm.append_left _ (List.perm_append_singleton _ _)

/-- Without a released row the first CTE leaves the table alone. -/
theorem afterConsume_of_none (hnone : t.targetRelease c fromAddress = none) :
    t.afterConsume now c fromAddress = t.rows := by
  rw [afterConsume, hnone]
  exact update_nil

/-! ## Allocation without gaps -/

/-- The open nonces of every pair are `0, …, k - 1`, each once. -/
def GapFree (t : NonceTable) : Prop :=
  ∀ c fromAddress, ∃ k, (t.openNonces c fromAddress).Perm (List.range k)

/-- The nonces of a pair that no reserved or finalized row holds. -/
def freeNonces (t : NonceTable) (c : ℕ) (fromAddress : Address) : Set ℕ :=
  {n | ∀ r ∈ t.rows, r.onPair c fromAddress = true → r.isActive = true → r.nonce ≠ n}

theorem gapFree_empty : empty.GapFree := fun _ _ => ⟨0, List.Perm.refl _⟩

/-- An open row that is not released holds its nonce. -/
theorem isActive_of_open {r : NonceRow} (hopen : r.state ≠ .consumed)
    (hreleased : r.state ≠ .released) : r.isActive = true := by
  cases hstate : r.state <;> simp_all [NonceRow.isActive, NonceState.isActive]

theorem open_of_isActive {r : NonceRow} (h : r.isActive = true) :
    r.state ≠ .consumed ∧ r.state ≠ .released := by
  rcases NonceRow.isActive_iff.mp h with hstate | hstate <;> simp [hstate]

/-- In a table without gaps the next nonce is the least free one, and it is one past the
open nonces unless it fills a gap. -/
theorem candidateNonce_isLeast {k : ℕ}
    (hk : (t.openNonces c fromAddress).Perm (List.range k)) :
    IsLeast (t.freeNonces c fromAddress) (t.candidateNonce c fromAddress)
    ∧ (t.targetRelease c fromAddress = none → t.candidateNonce c fromAddress = k) := by
  have hopen : ∀ n, n < k ↔ n ∈ t.openNonces c fromAddress := fun n => by
    rw [hk.mem_iff, List.mem_range]
  have hnodup : (t.openNonces c fromAddress).Nodup := hk.nodup_iff.mpr List.nodup_range
  cases htarget : t.targetRelease c fromAddress with
  | some r =>
      obtain ⟨hr, hpair, hstate⟩ := targetRelease_eq_some htarget
      have hcandidate : t.candidateNonce c fromAddress = r.nonce := by
        rw [candidateNonce, htarget]
      refine ⟨⟨?_, ?_⟩, fun h => by cases h⟩
      · rw [hcandidate]
        intro s hs hspair hact hnonce
        -- two open rows of one nonce are one row, and this one is released
        have heq : s = r := List.inj_on_of_nodup_map hnodup
          (List.mem_filter.mpr ⟨hs, by simp [hspair, (open_of_isActive hact).1]⟩)
          (List.mem_filter.mpr ⟨hr, by simp [hpair, hstate]⟩) hnonce
        rw [heq] at hact
        exact (open_of_isActive hact).2 hstate
      · intro n hn
        rw [hcandidate]
        by_contra hlt
        have hrk := (hopen r.nonce).mpr
          (mem_openNonces.mpr ⟨r, hr, hpair, by simp [hstate], rfl⟩)
        obtain ⟨s, hs, hspair, hsopen, hsnonce⟩ :=
          mem_openNonces.mp ((hopen n).mp (by omega))
        by_cases hreleased : s.state = .released
        · have hle := nonce_le_of_targetRelease htarget hs hspair hreleased
          omega
        · exact hn s hs hspair (isActive_of_open hsopen hreleased) hsnonce
  | none =>
      have hreleased := targetRelease_eq_none_iff.mp htarget
      have hcandidate : t.candidateNonce c fromAddress = k := by
        rw [candidateNonce, htarget]
        cases hmax : t.maxNonce c fromAddress with
        | none =>
            have hinactive := maxNonce_eq_none_iff.mp hmax
            show 0 = k
            by_contra hne
            obtain ⟨s, hs, hspair, hsopen, _⟩ :=
              mem_openNonces.mp ((hopen 0).mp (by omega))
            have hact := isActive_of_open hsopen (hreleased s hs hspair)
            rw [hinactive s hs hspair] at hact
            cases hact
        | some m =>
            obtain ⟨⟨s, hs, hspair, hact, hm⟩, hle⟩ := maxNonce_eq_some_iff.mp hmax
            have hmk := (hopen m).mpr
              (mem_openNonces.mpr ⟨s, hs, hspair, (open_of_isActive hact).1, hm⟩)
            show m + 1 = k
            by_contra hne
            obtain ⟨s', hs', hspair', hsopen', hnonce'⟩ :=
              mem_openNonces.mp ((hopen (m + 1)).mp (by omega))
            have hact' := isActive_of_open hsopen' (hreleased s' hs' hspair')
            have hle' := hle s' hs' hspair' hact'
            omega
      refine ⟨⟨?_, ?_⟩, fun _ => hcandidate⟩
      · rw [hcandidate]
        intro s hs hspair hact hnonce
        have hlt := (hopen k).mpr
          (mem_openNonces.mpr ⟨s, hs, hspair, (open_of_isActive hact).1, hnonce⟩)
        omega
      · intro n hn
        rw [hcandidate]
        by_contra hlt
        obtain ⟨s, hs, hspair, hsopen, hsnonce⟩ :=
          mem_openNonces.mp ((hopen n).mp (by omega))
        exact hn s hs hspair (isActive_of_open hsopen (hreleased s hs hspair)) hsnonce

/-- A new row on one pair does not show on another. -/
theorem openNonces_insert_other {t' : NonceTable} {n c' : ℕ} {fromAddress' : Address}
    (hrows : t'.rows = t.afterConsume now c fromAddress
      ++ [t.reservedRow now c fromAddress e n])
    (hother : ¬ (c' = c ∧ fromAddress' = fromAddress)) :
    t'.openNonces c' fromAddress' = t.openNonces c' fromAddress' := by
  have hoff : (t.reservedRow now c fromAddress e n).onPair c' fromAddress' = false := by
    rw [← Bool.not_eq_true, NonceRow.onPair_iff]
    rintro ⟨hchain, haddress⟩
    exact hother ⟨hchain.symm, haddress.symm⟩
  rw [openNonces, hrows, List.filter_append, List.map_append, afterConsume_other hother]
  simp [hoff]

/-- On its own pair the new row takes the place of the released row it consumes, or
comes on top. -/
theorem openNonces_insert {t' : NonceTable}
    (hrows : t'.rows = t.afterConsume now c fromAddress
      ++ [t.reservedRow now c fromAddress e (t.candidateNonce c fromAddress)]) :
    (t'.openNonces c fromAddress).Perm
      (if t.targetRelease c fromAddress = none then
        t.openNonces c fromAddress ++ [t.candidateNonce c fromAddress]
      else t.openNonces c fromAddress) := by
  have hnew : ([t.reservedRow now c fromAddress e (t.candidateNonce c fromAddress)].filter
      fun r => r.onPair c fromAddress && decide (r.state ≠ .consumed)).map NonceRow.nonce
        = [t.candidateNonce c fromAddress] := by
    simp [reservedRow, NonceRow.onPair]
  rw [openNonces, hrows, List.filter_append, List.map_append, hnew]
  cases htarget : t.targetRelease c fromAddress with
  | some r =>
      have hcandidate : t.candidateNonce c fromAddress = r.nonce := by
        rw [candidateNonce, htarget]
      rw [hcandidate, if_neg (by simp)]
      exact afterConsume_perm htarget
  | none =>
      rw [afterConsume_of_none htarget, if_pos rfl]
      exact List.Perm.refl _

/-- Adding the next nonce keeps the open nonces without gaps. -/
theorem gapFree_insert {t' : NonceTable} (hgap : t.GapFree)
    (hrows : t'.rows = t.afterConsume now c fromAddress
      ++ [t.reservedRow now c fromAddress e (t.candidateNonce c fromAddress)]) :
    t'.GapFree := by
  intro c' fromAddress'
  obtain ⟨k, hk⟩ := hgap c' fromAddress'
  by_cases hsame : c' = c ∧ fromAddress' = fromAddress
  · obtain ⟨rfl, rfl⟩ := hsame
    have hperm := openNonces_insert hrows
    by_cases htarget : t.targetRelease c' fromAddress' = none
    · rw [if_pos htarget, (candidateNonce_isLeast hk).2 htarget] at hperm
      refine ⟨k + 1, hperm.trans ?_⟩
      rw [List.range_succ]
      exact List.Perm.append_right [k] hk
    · rw [if_neg htarget] at hperm
      exact ⟨k, hperm.trans hk⟩
  · rw [openNonces_insert_other hrows hsame]
    exact ⟨k, hk⟩

/-- The operations of a ledger that only allocates: reserves for executions without a
row, releases, finalizations and ticks of the sweeper. -/
def Allocates (t : NonceTable) : NonceOp → Prop
  | .reserve _ _ _ e => ∀ r ∈ t.rows, r.executionId ≠ e
  | .resolve _ _ s => s = .released ∨ s = .finalized
  | .sync _ _ _ _ _ => False
  | .sweep _ => True

instance : Decidable (t.Allocates op) :=
  match op with
  | .reserve _ _ _ e => inferInstanceAs (Decidable (∀ r ∈ t.rows, r.executionId ≠ e))
  | .resolve _ _ s => inferInstanceAs (Decidable (s = .released ∨ s = .finalized))
  | .sync _ _ _ _ _ => inferInstanceAs (Decidable False)
  | .sweep _ => inferInstanceAs (Decidable True)

theorem holdsNonce_of_fresh (now lease : Timestamp)
    (hfresh : ∀ r ∈ t.rows, r.executionId ≠ e) : t.holdsNonce now lease e = false := by
  rw [← Bool.not_eq_true, holdsNonce_iff]
  rintro ⟨r, hr, howner, _⟩
  exact hfresh r hr howner

/-- Every operation of such a ledger keeps it without gaps. -/
theorem gapFree_apply (hgap : t.GapFree) (hop : t.Allocates op) :
    (t.apply op).GapFree := by
  cases op with
  | reserve now chainId fromAddress e =>
      rcases reserve_cases t now chainId fromAddress e with
        ⟨err, hsnd⟩ | ⟨c, t', _, ⟨hheld, _⟩ | ⟨_, hrows, hsnd⟩⟩
      · rw [apply, hsnd]
        exact hgap
      · rw [holdsNonce_of_fresh _ _ hop] at hheld
        cases hheld
      · rw [apply, hsnd]
        exact gapFree_insert hgap hrows
  | resolve now e s =>
      -- neither a release nor a finalization makes a nonce consumed
      have hs : s ≠ .reserved ∧ s ≠ .consumed := by
        rcases hop with rfl | rfl <;> simp
      intro c fromAddress
      rw [apply, openNonces_of_update (rows_resolve t now e hs.1) hs.2]
      · exact hgap c fromAddress
      · intro r hr hkey
        simp [state_of_latestReserved hr hkey]
  | sync now chainId fromAddress e nonceOnChain => exact absurd hop id
  | sweep now =>
      intro c fromAddress
      rw [apply, openNonces_of_update (rows_sweep t now) (by simp)]
      · exact hgap c fromAddress
      · intro r hr hkey
        simp [(NonceRow.isExpired_iff.mp (mem_expiredKeys hr hkey)).1]

theorem Run.gapFree (h : Run Allocates t) : t.GapFree := by
  induction h with
  | start => exact gapFree_empty
  | next _ hop ih => exact gapFree_apply ih hop

/-- A reserve for a new execution answers with the least free nonce and adds the row that
holds it, or the least free nonce does not fit into `BIGINT` and nothing changes. -/
theorem reserve_of_fresh (hgap : t.GapFree) (hfresh : ∀ r ∈ t.rows, r.executionId ≠ e)
    (hchain : chainId.id.toI64 = some c) {n : ℕ}
    (hn : IsLeast (t.freeNonces c fromAddress) n) :
    (t.reserve now chainId fromAddress e).1
        = (if n < i64Bound then .ok ⟨BitVec.ofNat 256 n⟩
          else .error (.ofSqlx .bigintOutOfRange))
      ∧ (n < i64Bound →
        t.reservedRow now c fromAddress e n ∈ (t.reserve now chainId fromAddress e).2.rows)
      ∧ (i64Bound ≤ n → (t.reserve now chainId fromAddress e).2 = t) := by
  obtain ⟨k, hk⟩ := hgap c fromAddress
  obtain rfl := hn.unique (candidateNonce_isLeast hk).1
  have hheld := holdsNonce_of_fresh now (minutes 2) hfresh
  have hrevision : nextRevision t.rows e = 1 := nextRevision_of_forall_ne hfresh
  by_cases hfits : t.candidateNonce c fromAddress < i64Bound
  · obtain ⟨t', hinsert⟩ := reserveCandidate_insert now hheld
      ⟨by rw [reservedRow, hrevision, i64Bound]; norm_num, toI64_lt hchain, hfits⟩
      fun r hr hact hpair => hn.1 r hr hpair hact
    rw [reserve_of_insert hchain hinsert, if_pos hfits, TxNonce.tryFrom_natCast]
    refine ⟨rfl, fun _ => ?_, fun hle => absurd hfits (not_lt.mpr hle)⟩
    rcases reserveCandidate_eq_ok.mp hinsert with ⟨_, hnone, _⟩ | ⟨_, _, hrows⟩
    · cases hnone
    · rw [hrows]
      exact List.mem_append_right _ List.mem_cons_self
  · have hinsert := reserveCandidate_of_not_inRange hheld fun hrange => hfits hrange.2.2
    rw [reserve_of_error hchain hinsert, if_neg hfits]
    exact ⟨rfl, fun hlt => absurd hlt hfits, fun _ => rfl⟩

/-- **Allocation without gaps and duplicates.**  In every table a run of such a ledger
reaches, the reserved, finalized and released nonces of each pair are `0, …, k - 1`, each
once, and a reserve for a new execution returns the least nonce that no reserved or
finalized row of the pair holds, and adds a reserved row of the execution with it. -/
theorem Run.reserve_least (h : Run Allocates t) :
    (∀ c fromAddress, ∃ k, (t.openNonces c fromAddress).Perm (List.range k))
    ∧ ∀ now chainId fromAddress e c, chainId.id.toI64 = some c →
      (∀ r ∈ t.rows, r.executionId ≠ e) →
      ∃ n, IsLeast (t.freeNonces c fromAddress) n
        ∧ (t.reserve now chainId fromAddress e).1
          = (if n < i64Bound then .ok ⟨BitVec.ofNat 256 n⟩
            else .error (.ofSqlx .bigintOutOfRange))
        ∧ (n < i64Bound →
          t.reservedRow now c fromAddress e n ∈ (t.reserve now chainId fromAddress e).2.rows)
        ∧ (i64Bound ≤ n → (t.reserve now chainId fromAddress e).2 = t) := by
  have hgap := h.gapFree
  refine ⟨hgap, fun now chainId fromAddress e c hchain hfresh => ?_⟩
  obtain ⟨k, hk⟩ := hgap c fromAddress
  have hleast := (candidateNonce_isLeast hk).1
  exact ⟨_, hleast, reserve_of_fresh hgap hfresh hchain hleast⟩

/-- Two executions reserve, and the first one releases its nonce. -/
def sampleGap : NonceTable :=
  ((empty.apply (.reserve 0 ⟨1⟩ sampleAddress (sampleExecution 1))).apply
    (.reserve 1 ⟨1⟩ sampleAddress (sampleExecution 2))).apply
    (.resolve 2 (sampleExecution 1) .released)

/-- The reserve of a third one fills the gap. -/
theorem Run.reserve_least_gap :
    (sampleGap.reserve 3 ⟨1⟩ sampleAddress (sampleExecution 3)).1 = .ok ⟨0⟩
      ∧ ∃ r ∈ (sampleGap.reserve 3 ⟨1⟩ sampleAddress (sampleExecution 3)).2.rows,
        r.executionId = sampleExecution 3 ∧ r.state = .reserved ∧ r.nonce = 0 := by
  have hrun : Run Allocates sampleGap :=
    .next (.next (.next .start (by decide)) (by decide)) (by decide)
  obtain ⟨n, hleast, hreply, hrow, _⟩ := (Run.reserve_least hrun).2 3 ⟨1⟩ sampleAddress
    (sampleExecution 3) 1 (by decide) (by decide)
  have hfree : ∀ r ∈ sampleGap.rows, r.onPair 1 sampleAddress = true →
      r.isActive = true → r.nonce ≠ 0 := by decide
  obtain rfl := hleast.unique ⟨hfree, fun _ _ => Nat.zero_le _⟩
  exact ⟨hreply, _, hrow (by decide), rfl, rfl, rfl⟩

end NonceTable

end Lobby
