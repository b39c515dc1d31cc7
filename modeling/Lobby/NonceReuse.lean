/-
# Which nonces a reserve hands out again

Three questions about `handle_reserve` on a table with a history.  A nonce that
`resolve(_, Consumed)` retired can come back, because the next nonce is computed from the
reserved and finalized rows alone; a released row can share its nonce with a row that a
sync inserted, and then blocks its pair; and a repeated reserve consumes the lowest
released row of the pair although it inserts nothing.  For each the section gives the
exact condition under which the reserve does what its callers count on, and a run in
which it does not.
-/
import Lobby.NonceLedger

namespace Lobby

open Revisions

namespace NonceTable

variable {t t' : NonceTable} {op : NonceOp} {now : Timestamp} {chainId : ChainId} {c n : ℕ}
  {fromAddress : Address} {e : ExecutionId}

/-! ## The nonce a reserve picks, in terms of the rows -/

/-- The pair has a released row with this nonce and none with a smaller one. -/
def LowestReleased (t : NonceTable) (c : ℕ) (fromAddress : Address) (n : ℕ) : Prop :=
  (∃ r ∈ t.rows, r.onPair c fromAddress = true ∧ r.state = .released ∧ r.nonce = n)
  ∧ ∀ r ∈ t.rows, r.onPair c fromAddress = true → r.state = .released → n ≤ r.nonce

/-- The nonce is one above the highest reserved or finalized nonce of the pair, or it is
zero and there is none. -/
def OneAboveHighest (t : NonceTable) (c : ℕ) (fromAddress : Address) : ℕ → Prop
  | 0 => ∀ r ∈ t.rows, r.onPair c fromAddress = true → r.isActive = false
  | n + 1 =>
    (∃ r ∈ t.rows, r.onPair c fromAddress = true ∧ r.isActive = true ∧ r.nonce = n)
    ∧ ∀ r ∈ t.rows, r.onPair c fromAddress = true → r.isActive = true → r.nonce ≤ n

/-- The pair has a released row. -/
def HasReleased (t : NonceTable) (c : ℕ) (fromAddress : Address) : Prop :=
  ∃ r ∈ t.rows, r.onPair c fromAddress = true ∧ r.state = .released

theorem targetRelease_eq_none_iff_not_hasReleased :
    t.targetRelease c fromAddress = none ↔ ¬ t.HasReleased c fromAddress := by
  rw [targetRelease_eq_none_iff, HasReleased]
  push Not
  rfl

theorem oneAboveHighest_iff (htarget : t.targetRelease c fromAddress = none) :
    t.candidateNonce c fromAddress = n ↔ t.OneAboveHighest c fromAddress n := by
  rw [candidateNonce, htarget]
  cases hmax : t.maxNonce c fromAddress with
  | none =>
      -- no nonce is held, and the first one is 0
      have hinactive := maxNonce_eq_none_iff.mp hmax
      cases n with
      | zero => exact ⟨fun _ => hinactive, fun _ => rfl⟩
      | succ n =>
          refine ⟨fun h => absurd h (Nat.succ_ne_zero n).symm, ?_⟩
          rintro ⟨⟨r, hr, hpair, hact, _⟩, _⟩
          rw [hinactive r hr hpair] at hact
          cases hact
  | some m =>
      cases n with
      | zero =>
          refine ⟨fun h => absurd h (Nat.succ_ne_zero m), fun h => ?_⟩
          obtain ⟨⟨r, hr, hpair, hact, _⟩, _⟩ := maxNonce_eq_some_iff.mp hmax
          rw [h r hr hpair] at hact
          cases hact
      | succ n =>
          show m + 1 = n + 1 ↔ _
          rw [Nat.succ_inj]
          refine ⟨fun h => ?_, fun h => ?_⟩
          · subst h
            exact maxNonce_eq_some_iff.mp hmax
          · have hmax' := maxNonce_eq_some_iff.mpr h
            rw [hmax] at hmax'
            exact Option.some.inj hmax'

/-- The nonce of the next row: the lowest released one, or without released rows the one
above the highest that is held. -/
theorem candidateNonce_eq_iff :
    t.candidateNonce c fromAddress = n
      ↔ t.LowestReleased c fromAddress n
        ∨ ¬ t.HasReleased c fromAddress ∧ t.OneAboveHighest c fromAddress n := by
  cases htarget : t.targetRelease c fromAddress with
  | some r =>
      obtain ⟨hr, hpair, hstate⟩ := targetRelease_eq_some htarget
      have hreleased : t.HasReleased c fromAddress := ⟨r, hr, hpair, hstate⟩
      have hcandidate : t.candidateNonce c fromAddress = r.nonce := by
        rw [candidateNonce, htarget]
      rw [hcandidate]
      constructor
      · rintro rfl
        exact Or.inl ⟨⟨r, hr, hpair, hstate, rfl⟩,
          fun s hs hspair hsstate => nonce_le_of_targetRelease htarget hs hspair hsstate⟩
      · rintro (⟨⟨s, hs, hspair, hsstate, rfl⟩, hle⟩ | ⟨hnone, _⟩)
        · exact le_antisymm (nonce_le_of_targetRelease htarget hs hspair hsstate)
            (hle r hr hpair hstate)
        · exact absurd hreleased hnone
  | none =>
      have hnone := targetRelease_eq_none_iff_not_hasReleased.mp htarget
      rw [oneAboveHighest_iff htarget]
      constructor
      · intro h
        exact Or.inr ⟨hnone, h⟩
      · rintro (⟨⟨r, hr, hpair, hstate, _⟩, _⟩ | ⟨_, h⟩)
        · exact absurd ⟨r, hr, hpair, hstate⟩ hnone
        · exact h

/-- The number a nonce in a row stands for survives the way through `U256`. -/
theorem toNat_ofNat_of_lt (h : n < i64Bound) : (BitVec.ofNat 256 n).toNat = n := by
  rw [BitVec.toNat_ofNat]
  refine Nat.mod_eq_of_lt (lt_trans h ?_)
  rw [i64Bound]
  norm_num

theorem mem_update_active {keys : List (ExecutionId × ℕ)} {s : NonceState} {r : NonceRow}
    (hr : r ∈ update keys (NonceRow.setState now s) t.rows) (hact : r.isActive = true)
    (hkeys : ∀ r ∈ t.rows, key r ∈ keys → r.isActive = true) :
    ∃ r₀ ∈ t.rows, r₀.isActive = true ∧ r₀.slot = r.slot := by
  obtain ⟨r₀, hr₀, rfl⟩ := mem_update.mp hr
  by_cases hkey : key r₀ ∈ keys
  · rw [if_pos hkey]
    exact ⟨r₀, hr₀, hkeys r₀ hr₀ hkey, rfl⟩
  · rw [if_neg hkey] at hact ⊢
    exact ⟨r₀, hr₀, hact, rfl⟩

end NonceTable

/-! ## Consumed nonces -/

/-- A ledger with the nonces that `resolve(_, Consumed)` retired and that no sync has
issued again since. -/
structure NonceHistory where
  table : NonceTable
  retired : List (ℕ × Address × ℕ)

namespace NonceHistory

open NonceTable

/-- The history before any operation. -/
def empty : NonceHistory := ⟨NonceTable.empty, []⟩

/-- The history after an operation. -/
def apply (h : NonceHistory) (op : NonceOp) : NonceHistory where
  table := h.table.apply op
  retired :=
    match op with
    | .resolve _ e .consumed =>
        (h.table.latestReserved e).toList.map NonceRow.slot ++ h.retired
    | .sync _ _ _ _ _ =>
        h.retired.filter fun slot =>
          decide (slot ∉ ((h.table.apply op).rows.drop h.table.rows.length).map NonceRow.slot)
    | _ => h.retired

/-- The histories of the runs whose operations are all admitted where they happen. -/
inductive Run (admits : NonceHistory → NonceOp → Prop) : NonceHistory → Prop where
  | start : Run admits empty
  | next {h op} (hh : Run admits h) (hop : admits h op) : Run admits (h.apply op)

/-- No retired nonce is where the reserve looks: for an execution that holds no nonce it
is not the lowest released nonce of the pair, nor, when the pair has no released row, one
above its highest reserved or finalized nonce; for an execution that holds one, its newest
such row is a row of the pair or carries another nonce. -/
def ReserveAvoids (h : NonceHistory) (now : Timestamp) (c : ℕ) (fromAddress : Address)
    (e : ExecutionId) : Prop :=
  ∀ n, (c, fromAddress, n) ∈ h.retired →
    (h.table.holdsNonce now (minutes 2) e = false →
      ¬ h.table.LowestReleased c fromAddress n
      ∧ (h.table.HasReleased c fromAddress ∨ ¬ h.table.OneAboveHighest c fromAddress n))
    ∧ (h.table.holdsNonce now (minutes 2) e = true →
      ∀ r, h.table.existing e = some r → r.nonce = n → r.onPair c fromAddress = true)

/-- The operations of the runs in which every reserve avoids the retired nonces. -/
def Admits (h : NonceHistory) : NonceOp → Prop
  | .reserve now chainId fromAddress e =>
      ∀ c, chainId.id.toI64 = some c → h.ReserveAvoids now c fromAddress e
  | _ => True

/-- No row holds a retired nonce. -/
def NoneHeld (h : NonceHistory) : Prop :=
  ∀ slot ∈ h.retired, ∀ r ∈ h.table.rows, r.isActive = true → r.slot ≠ slot

variable {h : NonceHistory} {op : NonceOp} {now : Timestamp} {chainId : ChainId} {c : ℕ}
  {fromAddress : Address} {e : ExecutionId}

/-- For an execution without a nonce, avoiding the retired nonces is picking another. -/
theorem candidate_not_retired_iff (hheld : h.table.holdsNonce now (minutes 2) e = false) :
    (c, fromAddress, h.table.candidateNonce c fromAddress) ∉ h.retired
      ↔ h.ReserveAvoids now c fromAddress e := by
  constructor
  · intro hnot n hn
    refine ⟨fun _ => ?_, fun htrue => absurd (hheld.symm.trans htrue) (by simp)⟩
    have hne : h.table.candidateNonce c fromAddress ≠ n := by
      rintro rfl
      exact hnot hn
    rw [Ne, candidateNonce_eq_iff, not_or, not_and_or, not_not] at hne
    exact hne
  · intro havoid hmem
    obtain ⟨hlowest, hhighest⟩ := (havoid _ hmem).1 hheld
    rcases candidateNonce_eq_iff.mp (rfl : h.table.candidateNonce c fromAddress = _) with
      hcase | ⟨hnone, hcase⟩
    · exact hlowest hcase
    · exact hhighest.elim hnone fun hnot => hnot hcase

/-- For an execution that holds a nonce, avoiding the retired nonces is answering with
another. -/
theorem existing_not_retired_iff (hnone : h.NoneHeld)
    (hheld : h.table.holdsNonce now (minutes 2) e = true) {r : NonceRow}
    (hr : h.table.existing e = some r) :
    (c, fromAddress, r.nonce) ∉ h.retired ↔ h.ReserveAvoids now c fromAddress e := by
  constructor
  · intro hnot n hn
    refine ⟨fun hfalse => absurd (hheld.symm.trans hfalse) (by simp), fun _ s hs hsn => ?_⟩
    rw [hr] at hs
    obtain rfl := Option.some.inj hs
    exact absurd (hsn ▸ hn) hnot
  · intro havoid hmem
    have hpair := NonceRow.onPair_iff.mp ((havoid _ hmem).2 hheld r hr rfl)
    obtain ⟨hrows, _, hact⟩ := existing_eq_some hr
    exact hnone _ hmem r hrows hact (by rw [NonceRow.slot, hpair.1, hpair.2])

/-- Every admitted operation keeps the retired nonces without a holder. -/
theorem noneHeld_apply (hnone : h.NoneHeld) (hop : h.Admits op) :
    (h.apply op).NoneHeld := by
  cases op with
  | reserve now chainId fromAddress e =>
      intro slot hslot r hr hact
      replace hslot : slot ∈ h.retired := hslot
      replace hr : r ∈ (h.table.reserve now chainId fromAddress e).2.rows := hr
      rcases reserve_cases h.table now chainId fromAddress e with
        ⟨err, hsnd⟩ | ⟨c, t', hchain, ⟨_, hrows, hsnd⟩ | ⟨hheld, hrows, hsnd⟩⟩
      · rw [hsnd] at hr
        exact hnone slot hslot r hr hact
      · rw [hsnd, hrows, mem_afterConsume_iff hact] at hr
        exact hnone slot hslot r hr hact
      · rw [hsnd, hrows, List.mem_append, mem_afterConsume_iff hact] at hr
        rcases hr with hr | hr
        · exact hnone slot hslot r hr hact
        · -- the new row: its nonce is not retired, by the condition on the reserve
          rw [List.mem_singleton.mp hr]
          rintro rfl
          exact (candidate_not_retired_iff hheld).mpr (hop c hchain) hslot
  | resolve now e s =>
      by_cases hs : s = .reserved
      · subst hs
        exact hnone
      intro slot hslot r hr hact
      replace hr : r ∈ (h.table.resolve now e s).2.rows := hr
      rw [rows_resolve h.table now e hs] at hr
      obtain ⟨r₀, hr₀, hact₀, hslot₀⟩ := mem_update_active hr hact fun r hr hkey =>
        NonceRow.isActive_iff.mpr (Or.inl (state_of_latestReserved hr hkey))
      have hold : slot ∈ h.retired → r.slot ≠ slot := fun hslot =>
        hslot₀ ▸ hnone slot hslot r₀ hr₀ hact₀
      cases s with
      | consumed =>
          rcases List.mem_append.mp hslot with hnew | hslot
          · -- the row that was just consumed was the only one to hold its nonce
            obtain ⟨r₁, hr₁, rfl⟩ := List.mem_map.mp hnew
            obtain ⟨hmem, _, hstate⟩ := latestReserved_eq_some (Option.mem_toList.mp hr₁)
            intro heq
            obtain ⟨r₂, hr₂, rfl⟩ := mem_update.mp hr
            by_cases hkey : key r₂ ∈ (h.table.latestReserved e).toList.map key
            · rw [if_pos hkey] at hact
              cases hact
            · rw [if_neg hkey] at hact heq
              have hsame := h.table.eq_of_slot_eq hr₂ hmem hact
                (NonceRow.isActive_iff.mpr (Or.inl hstate)) heq
              exact hkey (hsame ▸ List.mem_map_of_mem hr₁)
          · exact hold hslot
      | reserved => exact absurd rfl hs
      | finalized => exact hold hslot
      | released => exact hold hslot
  | sync now chainId fromAddress e nonceOnChain =>
      intro slot hslot r hr hact
      replace hr : r ∈ (h.table.sync now chainId fromAddress e nonceOnChain).2.rows := hr
      -- a nonce that `sync` inserts is no longer counted as retired
      obtain ⟨hslot, hnew⟩ := List.mem_filter.mp hslot
      rw [decide_eq_true_eq] at hnew
      replace hnew : slot ∉ ((h.table.sync now chainId fromAddress e nonceOnChain).2.rows.drop
        h.table.rows.length).map NonceRow.slot := hnew
      rcases sync_cases h.table now chainId fromAddress e nonceOnChain with
        hsame | ⟨c, n, _, _, _, _, hrows⟩
      · rw [hsame] at hr
        exact hnone slot hslot r hr hact
      · rw [hrows] at hr hnew
        rw [List.drop_left, List.map_singleton, List.mem_singleton] at hnew
        rcases List.mem_append.mp hr with hr | hr
        · exact hnone slot hslot r hr hact
        · rw [List.mem_singleton.mp hr]
          exact fun heq => hnew heq.symm
  | sweep now =>
      intro slot hslot r hr hact
      replace hr : r ∈ (h.table.sweep now).rows := hr
      rw [rows_sweep] at hr
      obtain ⟨r₀, hr₀, hact₀, hslot₀⟩ := mem_update_active hr hact fun r hr hkey =>
        NonceRow.isActive_iff.mpr
          (Or.inl (NonceRow.isExpired_iff.mp (mem_expiredKeys hr hkey)).1)
      exact hslot₀ ▸ hnone slot hslot r₀ hr₀ hact₀

theorem Run.noneHeld (hrun : Run Admits h) : h.NoneHeld := by
  induction hrun with
  | start =>
      intro slot hslot
      cases hslot
  | next _ hop ih => exact noneHeld_apply ih hop

/-- **Consumed nonces are not handed out again, exactly when every reserve avoids
them.**  In a run whose earlier reserves all avoided the retired nonces, a reserve that
succeeds returns a nonce that is not retired if and only if it avoids them too. -/
theorem Run.reserve_not_retired_iff (hrun : Run Admits h)
    (hchain : chainId.id.toI64 = some c) {m : TxNonce}
    (hreply : (h.table.reserve now chainId fromAddress e).1 = .ok m) :
    (c, fromAddress, m.value.toNat) ∉ h.retired
      ↔ h.ReserveAvoids now c fromAddress e := by
  rcases reserve_cases h.table now chainId fromAddress e with
    ⟨err, hsnd⟩ | ⟨c', t', hchain', ⟨hheld, hrows, hsnd⟩ | ⟨hheld, hrows, hsnd⟩⟩
  · rw [hsnd] at hreply
    cases hreply
  · rw [hchain] at hchain'
    obtain rfl := Option.some.inj hchain'
    rw [hsnd, existing_afterConsume hrows] at hreply
    cases hexisting : h.table.existing e with
    | none =>
        rw [hexisting] at hreply
        cases hreply
    | some r =>
        rw [hexisting] at hreply
        simp only [TxNonce.tryFrom_natCast, Except.ok.injEq] at hreply
        have hrange := (h.table.inRange r (existing_eq_some hexisting).1).2.2
        rw [← hreply, toNat_ofNat_of_lt hrange]
        exact existing_not_retired_iff hrun.noneHeld hheld hexisting
  · rw [hchain] at hchain'
    obtain rfl := Option.some.inj hchain'
    rw [hsnd, TxNonce.tryFrom_natCast, Except.ok.injEq] at hreply
    have hrow : h.table.reservedRow now c fromAddress e
        (h.table.candidateNonce c fromAddress) ∈ t'.rows := by
      rw [hrows]
      exact List.mem_append_right _ List.mem_cons_self
    have hrange : h.table.candidateNonce c fromAddress < i64Bound := (t'.inRange _ hrow).2.2
    rw [← hreply, toNat_ofNat_of_lt hrange]
    exact candidate_not_retired_iff hheld

/-- A run in which a consumed nonce lies below a nonce that is still held: the third
execution is given the nonce two. -/
theorem Run.reserve_not_retired_below :
    (1, sampleAddress, 2) ∉ (((empty.apply
        (.reserve 0 ⟨1⟩ sampleAddress (sampleExecution 1))).apply
        (.reserve 1 ⟨1⟩ sampleAddress (sampleExecution 2))).apply
        (.resolve 2 (sampleExecution 1) .consumed)).retired
      ↔ (((empty.apply
        (.reserve 0 ⟨1⟩ sampleAddress (sampleExecution 1))).apply
        (.reserve 1 ⟨1⟩ sampleAddress (sampleExecution 2))).apply
        (.resolve 2 (sampleExecution 1) .consumed)).ReserveAvoids 3 1 sampleAddress
          (sampleExecution 3) := by
  have hfirst : empty.Admits (.reserve 0 ⟨1⟩ sampleAddress (sampleExecution 1)) := by
    intro c _ n hn
    cases hn
  have hsecond : (empty.apply (.reserve 0 ⟨1⟩ sampleAddress (sampleExecution 1))).Admits
      (.reserve 1 ⟨1⟩ sampleAddress (sampleExecution 2)) := by
    intro c _ n hn
    cases hn
  have hrun := (Run.next (Run.next Run.start hfirst) hsecond).next
    (show Admits _ (.resolve 2 (sampleExecution 1) .consumed) from trivial)
  have hreply : ((((empty.apply
      (.reserve 0 ⟨1⟩ sampleAddress (sampleExecution 1))).apply
      (.reserve 1 ⟨1⟩ sampleAddress (sampleExecution 2))).apply
      (.resolve 2 (sampleExecution 1) .consumed)).table.reserve 3 ⟨1⟩ sampleAddress
        (sampleExecution 3)).1 = .ok ⟨2⟩ := by
    rfl
  exact hrun.reserve_not_retired_iff (by decide) hreply

/-- The claim that a consumed nonce never comes back fails: the highest nonce of a pair
is consumed and the next reserve of the pair returns it. -/
theorem reserve_returns_consumed :
    ¬ ∀ h, Run (fun _ _ => True) h → ∀ now chainId c fromAddress e m,
      chainId.id.toI64 = some c → (h.table.reserve now chainId fromAddress e).1 = .ok m →
      (c, fromAddress, m.value.toNat) ∉ h.retired := by
  intro hclaim
  refine hclaim ((empty.apply (.reserve 0 ⟨1⟩ sampleAddress (sampleExecution 1))).apply
      (.resolve 1 (sampleExecution 1) .consumed))
    (.next (.next .start trivial) trivial) 2 ⟨1⟩ 1 sampleAddress (sampleExecution 2) ⟨0⟩
    (by decide) (by rfl) (by decide)

end NonceHistory

/-! ## Released rows that block their pair -/

namespace NonceTable

variable {t t' : NonceTable} {op : NonceOp} {now : Timestamp} {chainId : ChainId} {c n : ℕ}
  {fromAddress : Address} {e : ExecutionId}

/-- If the sync adds a row, no released row of the pair carries its nonce. -/
def SyncAvoids (t : NonceTable) : NonceOp → Prop
  | .sync now chainId fromAddress e nonceOnChain =>
      ∀ c n, chainId.id.toI64 = some c → nonceOnChain.value.toI64 = some n →
        t.holdsNonce now (minutes 5) e = false →
        t.nonceLeased now c fromAddress n = false →
        ∀ r ∈ t.rows, r.onPair c fromAddress = true → r.nonce = n → r.state ≠ .released
  | _ => True

/-- No two open rows of a pair carry one nonce. -/
def OpenDistinct (t : NonceTable) : Prop :=
  ∀ c fromAddress, (t.openNonces c fromAddress).Nodup

/-- Open rows of one pair and nonce are one row. -/
theorem OpenDistinct.eq (hdistinct : t.OpenDistinct) {r s : NonceRow} (hr : r ∈ t.rows)
    (hs : s ∈ t.rows) (hropen : r.state ≠ .consumed) (hsopen : s.state ≠ .consumed)
    (hslot : r.slot = s.slot) : r = s := by
  simp only [NonceRow.slot, Prod.mk.injEq] at hslot
  refine List.inj_on_of_nodup_map (hdistinct s.chainId s.fromAddress)
    (List.mem_filter.mpr ⟨hr, ?_⟩) (List.mem_filter.mpr ⟨hs, ?_⟩) hslot.2.2
  · simp [NonceRow.onPair, hslot, hropen]
  · simp [NonceRow.onPair, hsopen]

theorem openDistinct_update {keys : List (ExecutionId × ℕ)} {s : NonceState}
    (hdistinct : t.OpenDistinct)
    (hrows : t'.rows = update keys (NonceRow.setState now s) t.rows)
    (hopen : ∀ r ∈ t.rows, key r ∈ keys → r.state ≠ .consumed) : t'.OpenDistinct := by
  intro c fromAddress
  refine (hdistinct c fromAddress).sublist ?_
  rw [openNonces, openNonces, hrows]
  refine map_filter_update_sublist (NonceRow.setState_nonce now s) fun r hr hkey hnew => ?_
  rw [NonceRow.onPair_setState, Bool.and_eq_true] at hnew
  simp [hnew.1, hopen r hr hkey]

/-- The next nonce of a pair is not open when the pair has no released row. -/
theorem candidateNonce_not_mem (htarget : t.targetRelease c fromAddress = none) :
    t.candidateNonce c fromAddress ∉ t.openNonces c fromAddress := by
  have hreleased := targetRelease_eq_none_iff.mp htarget
  intro hmem
  obtain ⟨r, hr, hpair, hopen, hnonce⟩ := mem_openNonces.mp hmem
  have hact := isActive_of_open hopen (hreleased r hr hpair)
  have hhighest := (oneAboveHighest_iff htarget).mp rfl
  cases hcandidate : t.candidateNonce c fromAddress with
  | zero =>
      rw [hcandidate] at hhighest
      rw [hhighest r hr hpair] at hact
      cases hact
  | succ m =>
      rw [hcandidate] at hhighest hnonce
      have hle := hhighest.2 r hr hpair hact
      omega

theorem openDistinct_insert (hdistinct : t.OpenDistinct)
    (hrows : t'.rows = t.afterConsume now c fromAddress
      ++ [t.reservedRow now c fromAddress e (t.candidateNonce c fromAddress)]) :
    t'.OpenDistinct := by
  intro c' fromAddress'
  by_cases hsame : c' = c ∧ fromAddress' = fromAddress
  · obtain ⟨rfl, rfl⟩ := hsame
    rw [(openNonces_insert hrows).nodup_iff]
    by_cases htarget : t.targetRelease c' fromAddress' = none
    · rw [if_pos htarget, ← List.concat_eq_append]
      exact List.Nodup.concat (candidateNonce_not_mem htarget) (hdistinct c' fromAddress')
    · rw [if_neg htarget]
      exact hdistinct c' fromAddress'
  · rw [openNonces_insert_other hrows hsame]
    exact hdistinct c' fromAddress'

/-- A row that a sync adds shares its nonce with no open row, when it avoids the released
ones: the unique index keeps it off the others. -/
theorem openDistinct_append (hdistinct : t.OpenDistinct)
    (hrows : t'.rows = t.rows ++ [t.reservedRow now c fromAddress e n])
    (havoid : ∀ r ∈ t.rows, r.onPair c fromAddress = true → r.nonce = n →
      r.state ≠ .released) : t'.OpenDistinct := by
  have hnew : t.reservedRow now c fromAddress e n ∈ t'.rows := by
    rw [hrows]
    exact List.mem_append_right _ List.mem_cons_self
  intro c' fromAddress'
  rw [openNonces, hrows, List.filter_append, List.map_append, List.nodup_append]
  refine ⟨hdistinct c' fromAddress', ?_, ?_⟩
  · exact (List.nodup_singleton _).sublist (List.filter_sublist.map _)
  · rintro m hm m' hm' rfl
    obtain ⟨r, hr, hpair, hopen, hnonce⟩ := mem_openNonces.mp hm
    obtain ⟨s, hs, hsnonce⟩ := List.mem_map.mp hm'
    obtain ⟨hs, hspair⟩ := List.mem_filter.mp hs
    obtain rfl := List.mem_singleton.mp hs
    rw [Bool.and_eq_true] at hspair
    obtain ⟨rfl, rfl⟩ := NonceRow.onPair_iff.mp hspair.1
    have hmn : n = m := hsnonce
    have hact := isActive_of_open hopen (havoid r hr hpair (hnonce.trans hmn.symm))
    obtain ⟨hrc, hra⟩ := NonceRow.onPair_iff.mp hpair
    have heq := t'.eq_of_slot_eq (by rw [hrows]; exact List.mem_append_left _ hr) hnew hact
      rfl (by rw [NonceRow.slot, NonceRow.slot, hrc, hra, hnonce, hsnonce])
    have hlt := revision_lt_nextRevision hr (i := e) (by rw [heq]; rfl)
    rw [heq] at hlt
    exact lt_irrefl _ hlt

/-- Every operation keeps the open rows distinct, when its sync avoids the released
rows. -/
theorem openDistinct_apply (hdistinct : t.OpenDistinct) (hop : t.SyncAvoids op) :
    (t.apply op).OpenDistinct := by
  cases op with
  | reserve now chainId fromAddress e =>
      rcases reserve_cases t now chainId fromAddress e with
        ⟨err, hsnd⟩ | ⟨c, t', _, ⟨_, hrows, hsnd⟩ | ⟨_, hrows, hsnd⟩⟩
      · rw [apply, hsnd]
        exact hdistinct
      · rw [apply, hsnd]
        refine openDistinct_update hdistinct hrows fun r hr hkey => ?_
        obtain ⟨s, hs, hkey⟩ := List.mem_map.mp hkey
        obtain ⟨hs, _, hstate⟩ := targetRelease_eq_some (Option.mem_toList.mp hs)
        rw [← t.eq_of_key_eq hs hr hkey, hstate]
        simp
      · rw [apply, hsnd]
        exact openDistinct_insert hdistinct hrows
  | resolve now e s =>
      by_cases hs : s = .reserved
      · subst hs
        exact hdistinct
      · refine openDistinct_update hdistinct (rows_resolve t now e hs) fun r hr hkey => ?_
        rw [state_of_latestReserved hr hkey]
        simp
  | sync now chainId fromAddress e nonceOnChain =>
      rcases sync_cases t now chainId fromAddress e nonceOnChain with
        hsame | ⟨c, n, hchain, hnonce, hheld, hleased, hrows⟩
      · rw [apply, hsame]
        exact hdistinct
      · exact openDistinct_append hdistinct hrows (hop c n hchain hnonce hheld hleased)
  | sweep now =>
      refine openDistinct_update hdistinct (rows_sweep t now) fun r hr hkey => ?_
      rw [(NonceRow.isExpired_iff.mp (mem_expiredKeys hr hkey)).1]
      simp

theorem Run.openDistinct (h : Run SyncAvoids t) : t.OpenDistinct := by
  induction h with
  | start => exact fun _ _ => List.nodup_nil
  | next _ hop ih => exact openDistinct_apply ih hop

/-- The next nonce fits into `BIGINT`: a released row can be reused, or no held nonce of
the pair is the largest one. -/
def HasRoom (t : NonceTable) (c : ℕ) (fromAddress : Address) : Prop :=
  t.HasReleased c fromAddress
  ∨ ∀ r ∈ t.rows, r.onPair c fromAddress = true → r.isActive = true →
    r.nonce + 1 < i64Bound

theorem hasRoom_iff : t.HasRoom c fromAddress ↔ t.candidateNonce c fromAddress < i64Bound := by
  cases htarget : t.targetRelease c fromAddress with
  | some r =>
      obtain ⟨hr, hpair, hstate⟩ := targetRelease_eq_some htarget
      have hcandidate : t.candidateNonce c fromAddress = r.nonce := by
        rw [candidateNonce, htarget]
      rw [hcandidate]
      exact ⟨fun _ => (t.inRange r hr).2.2, fun _ => Or.inl ⟨r, hr, hpair, hstate⟩⟩
  | none =>
      have hnone := targetRelease_eq_none_iff_not_hasReleased.mp htarget
      have hhighest := (oneAboveHighest_iff htarget).mp rfl
      rw [HasRoom, or_iff_right hnone]
      cases hcandidate : t.candidateNonce c fromAddress with
      | zero =>
          rw [hcandidate] at hhighest
          refine ⟨fun _ => by rw [i64Bound]; norm_num, fun _ r hr hpair hact => ?_⟩
          rw [hhighest r hr hpair] at hact
          cases hact
      | succ m =>
          rw [hcandidate] at hhighest
          obtain ⟨⟨r, hr, hpair, hact, rfl⟩, hle⟩ := hhighest
          refine ⟨fun h => h r hr hpair hact, fun h s hs hspair hsact => ?_⟩
          have hs := hle s hs hspair hsact
          omega

/-- **Old rows never block a reserve, in runs whose syncs avoid the released rows.**  No
nonce is released and held at once, and a reserve for a new execution returns a nonce
that nobody holds exactly when the chain id and the next nonce fit into `BIGINT`. -/
theorem Run.reserve_fresh_iff (h : Run SyncAvoids t)
    (hfresh : ∀ r ∈ t.rows, r.executionId ≠ e) :
    (∀ r ∈ t.rows, ∀ s ∈ t.rows, r.state = .released → s.isActive = true →
      r.slot ≠ s.slot)
    ∧ ((∃ c n, chainId.id.toI64 = some c
          ∧ (t.reserve now chainId fromAddress e).1 = .ok ⟨BitVec.ofNat 256 n⟩
          ∧ n ∈ t.freeNonces c fromAddress)
        ↔ ∃ c, chainId.id.toI64 = some c ∧ t.HasRoom c fromAddress) := by
  have hdistinct := h.openDistinct
  have hdisjoint : ∀ r ∈ t.rows, ∀ s ∈ t.rows, r.state = .released → s.isActive = true →
      r.slot ≠ s.slot := by
    intro r hr s hs hstate hact hslot
    have heq := hdistinct.eq hr hs (by simp [hstate]) (open_of_isActive hact).1 hslot
    exact (open_of_isActive hact).2 (heq ▸ hstate)
  have hheld := holdsNonce_of_fresh now (minutes 2) hfresh
  have hrevision : nextRevision t.rows e = 1 := nextRevision_of_forall_ne hfresh
  refine ⟨hdisjoint, ?_, ?_⟩
  · rintro ⟨c, n, hchain, hreply, _⟩
    refine ⟨c, hchain, hasRoom_iff.mpr ?_⟩
    by_contra hroom
    have hinsert := reserveCandidate_of_not_inRange hheld fun hrange => hroom hrange.2.2
    rw [reserve_of_error hchain hinsert] at hreply
    cases hreply
  · rintro ⟨c, hchain, hroom⟩
    rw [hasRoom_iff] at hroom
    have hfree : t.candidateNonce c fromAddress ∈ t.freeNonces c fromAddress := by
      intro r hr hpair hact hnonce
      cases htarget : t.targetRelease c fromAddress with
      | some s =>
          obtain ⟨hs, hspair, hstate⟩ := targetRelease_eq_some htarget
          rw [candidateNonce, htarget] at hnonce
          obtain ⟨hrc, hra⟩ := NonceRow.onPair_iff.mp hpair
          obtain ⟨hsc, hsa⟩ := NonceRow.onPair_iff.mp hspair
          exact hdisjoint s hs r hr hstate hact
            (by rw [NonceRow.slot, NonceRow.slot, hrc, hra, hsc, hsa, hnonce])
      | none =>
          exact candidateNonce_not_mem htarget
            (mem_openNonces.mpr ⟨r, hr, hpair, (open_of_isActive hact).1, hnonce⟩)
    obtain ⟨t', hinsert⟩ := reserveCandidate_insert now hheld
      ⟨by rw [reservedRow, hrevision, i64Bound]; norm_num, toI64_lt hchain, hroom⟩
      fun r hr hact hpair => hfree r hr hpair hact
    refine ⟨c, _, hchain, ?_, hfree⟩
    rw [reserve_of_insert hchain hinsert, TxNonce.tryFrom_natCast]

/-- A run in which a sync reserves a nonce that nobody released. -/
theorem Run.reserve_fresh_iff_synced :
    (∀ r ∈ ((empty.apply (.reserve 0 ⟨1⟩ sampleAddress (sampleExecution 1))).apply
        (.sync 1 ⟨1⟩ sampleAddress (sampleExecution 2) ⟨5⟩)).rows,
      ∀ s ∈ ((empty.apply (.reserve 0 ⟨1⟩ sampleAddress (sampleExecution 1))).apply
        (.sync 1 ⟨1⟩ sampleAddress (sampleExecution 2) ⟨5⟩)).rows,
      r.state = .released → s.isActive = true → r.slot ≠ s.slot)
    ∧ ((∃ c n, (⟨1⟩ : ChainId).id.toI64 = some c
          ∧ (((empty.apply (.reserve 0 ⟨1⟩ sampleAddress (sampleExecution 1))).apply
              (.sync 1 ⟨1⟩ sampleAddress (sampleExecution 2) ⟨5⟩)).reserve 2 ⟨1⟩
                sampleAddress (sampleExecution 3)).1 = .ok ⟨BitVec.ofNat 256 n⟩
          ∧ n ∈ ((empty.apply (.reserve 0 ⟨1⟩ sampleAddress (sampleExecution 1))).apply
              (.sync 1 ⟨1⟩ sampleAddress (sampleExecution 2) ⟨5⟩)).freeNonces c
                sampleAddress)
        ↔ ∃ c, (⟨1⟩ : ChainId).id.toI64 = some c
          ∧ ((empty.apply (.reserve 0 ⟨1⟩ sampleAddress (sampleExecution 1))).apply
              (.sync 1 ⟨1⟩ sampleAddress (sampleExecution 2) ⟨5⟩)).HasRoom c
                sampleAddress) := by
  have hsync : (empty.apply (.reserve 0 ⟨1⟩ sampleAddress (sampleExecution 1))).SyncAvoids
      (.sync 1 ⟨1⟩ sampleAddress (sampleExecution 2) ⟨5⟩) := by
    intro c n _ _ _ _
    show ∀ r ∈ [_], _
    simp [reservedRow]
  exact Run.reserve_fresh_iff ((Run.start.next
    (show SyncAvoids _ (.reserve 0 ⟨1⟩ sampleAddress (sampleExecution 1)) from trivial)).next
    hsync) (by decide)

/-- The claim that old rows never block a reserve fails: a sync reserves a nonce that
another execution released, and the next reserve of the pair breaks the unique index. -/
theorem reserve_blocked_by_released :
    ¬ ∀ t, Run (fun _ _ => True) t → ∀ now chainId fromAddress e c,
      chainId.id.toI64 = some c → (∀ r ∈ t.rows, r.executionId ≠ e) →
      t.reserve now chainId fromAddress e
        ≠ (.error (.ofSqlx (.uniqueViolation "uniq_active_nonce")), t) := by
  intro hclaim
  refine hclaim (((empty.apply (.reserve 0 ⟨1⟩ sampleAddress (sampleExecution 1))).apply
      (.resolve 1 (sampleExecution 1) .released)).apply
      (.sync 2 ⟨1⟩ sampleAddress (sampleExecution 2) ⟨0⟩))
    (.next (.next (.next .start trivial) trivial) trivial) 3 ⟨1⟩ sampleAddress
    (sampleExecution 3) 1 (by decide) (by decide) (by rfl)

/-! ## Repeated reserves -/

/-- Consuming a released row changes the table. -/
theorem afterConsume_ne_rows (hreleased : t.HasReleased c fromAddress) :
    t.afterConsume now c fromAddress ≠ t.rows := by
  cases htarget : t.targetRelease c fromAddress with
  | none => exact absurd hreleased (targetRelease_eq_none_iff_not_hasReleased.mp htarget)
  | some r =>
      obtain ⟨hr, _, hstate⟩ := targetRelease_eq_some htarget
      intro heq
      have hkey : key r ∈ (t.targetRelease c fromAddress).toList.map key := by
        rw [htarget]
        exact List.mem_map_of_mem List.mem_cons_self
      have hmem : r.setState now .consumed ∈ t.afterConsume now c fromAddress :=
        mem_update.mpr ⟨r, hr, by rw [if_pos hkey]⟩
      rw [heq] at hmem
      have hsame := t.eq_of_key_eq hmem hr rfl
      rw [← hsame] at hstate
      cases hstate

/-- **When a repeated reserve is harmless.**  For an execution that holds a finalized row
or a reserved row younger than the lease, a reserve answers with the nonce of that row
and changes nothing exactly when the chain id fits into `BIGINT`, the pair has no
released row, and the newest row that the execution holds carries the same nonce. -/
theorem reserve_retry_iff {r : NonceRow} (hr : r ∈ t.rows)
    (hheld : r.isHeld now (minutes 2) = true) :
    t.reserve now chainId fromAddress r.executionId = (.ok ⟨BitVec.ofNat 256 r.nonce⟩, t)
      ↔ ∃ c, chainId.id.toI64 = some c ∧ ¬ t.HasReleased c fromAddress
        ∧ ∃ s, t.existing r.executionId = some s ∧ s.nonce = r.nonce := by
  have hholds : t.holdsNonce now (minutes 2) r.executionId = true :=
    holdsNonce_iff.mpr ⟨r, hr, rfl, hheld⟩
  rcases reserve_cases t now chainId fromAddress r.executionId with
    ⟨err, hsnd⟩ | ⟨c, t', hchain, ⟨_, hrows, hsnd⟩ | ⟨hnot, _⟩⟩
  · rw [hsnd]
    refine ⟨fun h => absurd (Prod.mk.inj h).1 (by simp), ?_⟩
    rintro ⟨c, hchain, hnone, s, hs, hnonce⟩
    -- the statement only consumes a row, so it does not fail
    obtain ⟨t', _, hrows⟩ := commit_afterConsume t now c fromAddress
    have hinsert := reserveCandidate_eq_ok.mpr (Or.inl ⟨hholds, rfl, hrows⟩)
    rw [reserve_of_held hchain hinsert, existing_afterConsume hrows, hs] at hsnd
    cases hsnd
  · rw [hsnd, existing_afterConsume hrows]
    constructor
    · intro h
      obtain ⟨hreply, htable⟩ := Prod.mk.inj h
      refine ⟨c, hchain, fun hreleased => ?_, ?_⟩
      · exact afterConsume_ne_rows hreleased (by rw [← hrows, htable])
      · cases hexisting : t.existing r.executionId with
        | none =>
            rw [hexisting] at hreply
            cases hreply
        | some s =>
            rw [hexisting] at hreply
            simp only [TxNonce.tryFrom_natCast, Except.ok.injEq, TxNonce.mk.injEq] at hreply
            refine ⟨s, rfl, ?_⟩
            have hs := (t.inRange s (existing_eq_some hexisting).1).2.2
            rw [← toNat_ofNat_of_lt hs, hreply, toNat_ofNat_of_lt (t.inRange r hr).2.2]
    · rintro ⟨c', hchain', hnone, s, hs, hnonce⟩
      rw [hchain] at hchain'
      obtain rfl := Option.some.inj hchain'
      have htable : t' = t := by
        ext1
        rw [hrows, afterConsume_of_none (targetRelease_eq_none_iff_not_hasReleased.mpr hnone)]
      rw [hs, htable]
      simp only [TxNonce.tryFrom_natCast, hnonce]
  · rw [hholds] at hnot
    cases hnot

/-- A reserve repeated on a table without released rows. -/
theorem reserve_retry_iff_reserved :
    (empty.apply (.reserve 0 ⟨1⟩ sampleAddress (sampleExecution 1))).reserve 1 ⟨1⟩
        sampleAddress (sampleExecution 1)
        = (.ok ⟨BitVec.ofNat 256 0⟩,
          empty.apply (.reserve 0 ⟨1⟩ sampleAddress (sampleExecution 1)))
      ↔ ∃ c, (⟨1⟩ : ChainId).id.toI64 = some c
        ∧ ¬ (empty.apply (.reserve 0 ⟨1⟩ sampleAddress (sampleExecution 1))).HasReleased c
          sampleAddress
        ∧ ∃ s, (empty.apply (.reserve 0 ⟨1⟩ sampleAddress (sampleExecution 1))).existing
          (sampleExecution 1) = some s ∧ s.nonce = 0 :=
  reserve_retry_iff (r := reservedRow empty 0 1 sampleAddress (sampleExecution 1) 0)
    (by decide) (by decide)

/-- The claim that a repeated reserve changes nothing fails: it consumes a row that
another execution released. -/
theorem reserve_retry_consumes :
    ¬ ∀ t, Run (fun _ _ => True) t → ∀ now chainId c fromAddress, ∀ r ∈ t.rows,
      chainId.id.toI64 = some c → r.isHeld now (minutes 2) = true →
      t.reserve now chainId fromAddress r.executionId
        = (.ok ⟨BitVec.ofNat 256 r.nonce⟩, t) := by
  intro hclaim
  have hretry := hclaim (((empty.apply
      (.reserve 0 ⟨1⟩ sampleAddress (sampleExecution 1))).apply
      (.reserve 1 ⟨1⟩ sampleAddress (sampleExecution 2))).apply
      (.resolve 2 (sampleExecution 1) .released))
    (.next (.next (.next .start trivial) trivial) trivial) 3 ⟨1⟩ 1 sampleAddress
    (reservedRow (empty.apply (.reserve 0 ⟨1⟩ sampleAddress (sampleExecution 1))) 1 1
      sampleAddress (sampleExecution 2) 1) (by decide) (by decide) (by decide)
  have hrows := congrArg (fun x => x.2.rows.map NonceRow.state) hretry
  revert hrows
  decide

end NonceTable

end Lobby
