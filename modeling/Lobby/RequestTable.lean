/-
# The request tables

`sign.sign_requests`, `broadcast.broadcast_requests` and `validator.validation_requests`
are one kind of table: rows of an execution under growing revisions, a primary key, and a
partial unique index that allows one active row for each execution.  The three differ in
their columns, in which states are active and in the names and bounds of the columns; a
`RequestRow` instance says how.  As in `Lobby.NonceTable` a table carries the proofs of
its constraints, and a statement that breaks one fails and changes nothing.
-/
import Lobby.Types
import Lobby.Revisions

namespace Lobby

open Revisions

/-! ## Statements that fail -/

/-- What can go wrong with a statement. -/
inductive DatabaseFault : Type where
  | none
  | failed (message : String)
  /-- committed, but the acknowledgement was lost -/
  | unacknowledged (message : String)
  deriving DecidableEq

/-- The reply of a statement and the table after it. -/
def DatabaseFault.reply {ρ τ : Type} (fault : DatabaseFault) (t : τ)
    (result : Except SqlxError (ρ × τ)) : Except SqlxError ρ × τ :=
  match fault, result with
  | .none, .ok (rows, t') => (.ok rows, t')
  | .none, .error e => (.error e, t)
  | .failed message, _ => (.error (.other message), t)
  | .unacknowledged message, .ok (_, t') => (.error (.other message), t')
  | .unacknowledged message, .error _ => (.error (.other message), t)

/-- What a statement may answer and leave behind, given its effect. -/
inductive Answers {ρ τ : Type} (t : τ) (result : Except SqlxError (ρ × τ)) :
    Except SqlxError ρ → τ → Prop where
  | failed (err) : Answers t result (.error err) t
  | done {rows t'} (h : result = .ok (rows, t')) : Answers t result (.ok rows) t'
  | unacknowledged {rows t'} (h : result = .ok (rows, t')) (err) :
      Answers t result (.error err) t'

theorem DatabaseFault.answers {ρ τ : Type} (fault : DatabaseFault) (t : τ)
    (result : Except SqlxError (ρ × τ)) :
    Answers t result (fault.reply t result).1 (fault.reply t result).2 := by
  cases fault with
  | none =>
      cases result with
      | error err => exact .failed err
      | ok answer => exact .done rfl
  | failed message => exact .failed _
  | unacknowledged message =>
      cases result with
      | error err => exact .failed _
      | ok answer => exact .unacknowledged rfl _

/-- A statement that cannot succeed answers with an error and changes nothing. -/
theorem Answers.of_error {ρ τ : Type} {t t' : τ} {err : SqlxError}
    {reply : Except SqlxError ρ} (h : Answers t (.error err) reply t') :
    t' = t ∧ ∃ err', reply = .error err' := by
  cases h with
  | failed err' => exact ⟨rfl, err', rfl⟩
  | done h => cases h
  | unacknowledged h err' => cases h

/-- The table is as it was, or as the effect says. -/
theorem Answers.table {ρ τ : Type} {t t' : τ} {result : Except SqlxError (ρ × τ)}
    {reply : Except SqlxError ρ} (h : Answers t result reply t') :
    t' = t ∨ ∃ rows, result = .ok (rows, t') := by
  cases h with
  | failed err => exact Or.inl rfl
  | done h => exact Or.inr ⟨_, h⟩
  | unacknowledged h err => exact Or.inr ⟨_, h⟩

/-! ## The tables -/

/-- What a request table needs to know of its rows. -/
class RequestRow (ρ : Type) extends Revisioned ρ ExecutionId where
  /-- the states the partial unique index covers -/
  isActive : ρ → Bool
  activeIndex : String
  primaryKeyName : String
  /-- the bound of the column `revision` -/
  revisionBound : ℕ
  /-- the error of a revision past the bound -/
  outOfRange : SqlxError

/-- The contents of a request table, with its constraints. -/
@[ext]
structure RequestTable (ρ : Type) [RequestRow ρ] where
  rows : List ρ
  /-- `PRIMARY KEY (execution_id, revision)` -/
  primaryKey : (rows.map key).Nodup
  /-- the partial unique index on `(execution_id)` -/
  uniqActive : ((rows.filter RequestRow.isActive).map owner).Nodup
  inRange : ∀ r ∈ rows, revision r < RequestRow.revisionBound ρ

namespace RequestTable

variable {ρ : Type} [RequestRow ρ]

/-- The table after the migration. -/
def empty : RequestTable ρ := ⟨[], by simp, by simp, by simp⟩

/-- The table with the given rows, or the error of the constraint they break. -/
def commit (rows : List ρ) : Except SqlxError (RequestTable ρ) :=
  if hrange : ∀ r ∈ rows, revision r < RequestRow.revisionBound ρ then
    if hkeys : (rows.map key).Nodup then
      if huniq : ((rows.filter RequestRow.isActive).map owner).Nodup then
        .ok ⟨rows, hkeys, huniq, hrange⟩
      else .error (.uniqueViolation (RequestRow.activeIndex ρ))
    else .error (.uniqueViolation (RequestRow.primaryKeyName ρ))
  else .error (RequestRow.outOfRange ρ)

theorem commit_eq_ok_iff {rows : List ρ} {t : RequestTable ρ} :
    commit rows = .ok t ↔ t.rows = rows := by
  constructor
  · intro h
    unfold commit at h
    split at h
    · split at h
      · split at h
        · cases h
          rfl
        · cases h
      · cases h
    · cases h
  · rintro rfl
    rw [commit, dif_pos t.inRange, dif_pos t.primaryKey, dif_pos t.uniqActive]

/-- Two active rows of one execution are one row. -/
theorem eq_of_owner_eq (t : RequestTable ρ) {r s : ρ} (hr : r ∈ t.rows) (hs : s ∈ t.rows)
    (hra : RequestRow.isActive r = true) (hsa : RequestRow.isActive s = true)
    (howner : owner r = owner s) : r = s :=
  List.inj_on_of_nodup_map t.uniqActive (List.mem_filter.mpr ⟨hr, hra⟩)
    (List.mem_filter.mpr ⟨hs, hsa⟩) howner

/-- At most one row of an execution is active. -/
theorem length_activeOf_le_one (t : RequestTable ρ) (e : ExecutionId) :
    (t.rows.filter fun r => decide (owner r = e) && RequestRow.isActive r).length ≤ 1 := by
  have hsub : (t.rows.filter fun r => decide (owner r = e) && RequestRow.isActive r).Sublist
      (t.rows.filter RequestRow.isActive) :=
    List.monotone_filter_right _ fun r h => (Bool.and_eq_true_iff.mp h).2
  have hnodup := t.uniqActive.sublist (hsub.map owner)
  -- all its owners are one
  have hall : ∀ i ∈ (t.rows.filter fun r => decide (owner r = e)
      && RequestRow.isActive r).map owner, i = e := by
    intro i hi
    obtain ⟨r, hr, rfl⟩ := List.mem_map.mp hi
    simpa using (Bool.and_eq_true_iff.mp (List.mem_filter.mp hr).2).1
  rw [List.eq_replicate_of_mem hall, List.nodup_replicate, List.length_map] at hnodup
  exact hnodup

theorem eq_of_key_eq (t : RequestTable ρ) {r s : ρ} (hr : r ∈ t.rows) (hs : s ∈ t.rows)
    (hkey : key r = key s) : r = s :=
  List.inj_on_of_nodup_map t.primaryKey hr hs hkey

/-! ## The statements -/

/-- `INSERT … SELECT … WHERE NOT EXISTS (SELECT 1 … WHERE execution_id = e AND guard)`,
which returns the revision of the new row. -/
def insertUnless (t : RequestTable ρ) (e : ExecutionId) (guard : ρ → Bool) (row : ℕ → ρ) :
    Except SqlxError (Option ℕ × RequestTable ρ) :=
  if t.rows.any fun r => decide (owner r = e) && guard r then .ok (none, t)
  else do
    let t' ← commit (t.rows ++ [row (nextRevision t.rows e)])
    return (some (nextRevision t.rows e), t')

/-- `UPDATE … SET row = f(row) WHERE key IN keys`, with the number of rows it affected. -/
def updateKeys (t : RequestTable ρ) (keys : List (ExecutionId × ℕ)) (f : ρ → ρ) :
    Except SqlxError (ℕ × RequestTable ρ) := do
  let t' ← commit (update keys f t.rows)
  return (keys.length, t')

/-- `UPDATE … WHERE execution_id = e AND revision = n AND p`. -/
def updateWhere (t : RequestTable ρ) (e : ExecutionId) (n : ℕ) (p : ρ → Bool) (f : ρ → ρ) :
    Except SqlxError (ℕ × RequestTable ρ) :=
  t.updateKeys ((t.rows.filter fun r => decide (key r = (e, n)) && p r).map key) f

/-- `UPDATE …` of the row `SELECT … WHERE execution_id = e AND p ORDER BY revision DESC
LIMIT 1` finds. -/
def updateLatest (t : RequestTable ρ) (e : ExecutionId) (p : ρ → Bool) (f : ρ → ρ) :
    Except SqlxError (ℕ × RequestTable ρ) :=
  t.updateKeys ((latest t.rows e p).toList.map key) f

/-- The newest row of an execution. -/
def newest (t : RequestTable ρ) (e : ExecutionId) : Option ρ := latest t.rows e fun _ => true

/-! ## What the statements do to the rows -/

variable {t t' : RequestTable ρ} {e : ExecutionId} {guard p : ρ → Bool} {row : ℕ → ρ}
  {f : ρ → ρ} {keys : List (ExecutionId × ℕ)}

/-- **What a guarded `INSERT` does.** -/
theorem insertUnless_eq_ok {reply : Option ℕ} :
    t.insertUnless e guard row = .ok (reply, t')
      ↔ (∃ r ∈ t.rows, owner r = e ∧ guard r = true) ∧ reply = none ∧ t' = t
        ∨ (∀ r ∈ t.rows, owner r = e → guard r = false)
          ∧ reply = some (nextRevision t.rows e)
          ∧ t'.rows = t.rows ++ [row (nextRevision t.rows e)] := by
  unfold insertUnless
  by_cases hany : (t.rows.any fun r => decide (owner r = e) && guard r) = true
  · rw [if_pos hany]
    have hex : ∃ r ∈ t.rows, owner r = e ∧ guard r = true := by simpa using hany
    constructor
    · intro h
      cases h
      exact Or.inl ⟨hex, rfl, rfl⟩
    · rintro (⟨_, rfl, rfl⟩ | ⟨hall, _⟩)
      · rfl
      · obtain ⟨r, hr, howner, hguard⟩ := hex
        rw [hall r hr howner] at hguard
        cases hguard
  · rw [if_neg hany]
    have hall : ∀ r ∈ t.rows, owner r = e → guard r = false := by simpa using hany
    rw [← commit_eq_ok_iff]
    constructor
    · intro h
      cases hcommit : commit (t.rows ++ [row (nextRevision t.rows e)]) with
      | error err => simp [hcommit, bind, Except.bind] at h
      | ok u =>
          simp only [hcommit, bind, Except.bind, pure, Except.pure, Except.ok.injEq,
            Prod.mk.injEq] at h
          exact Or.inr ⟨hall, h.1.symm, by rw [h.2]⟩
    · rintro (⟨⟨r, hr, howner, hguard⟩, _⟩ | ⟨_, rfl, hcommit⟩)
      · rw [hall r hr howner] at hguard
        cases hguard
      · rw [hcommit]
        rfl

/-- A second active row for an execution breaks the partial unique index, whatever the guard
lets through. -/
theorem insertUnless_of_active {r : ρ} (hr : r ∈ t.rows) (howner : owner r = e)
    (hact : RequestRow.isActive r = true)
    (hguard : ∀ s ∈ t.rows, owner s = e → guard s = false)
    (hrow : ∀ n, owner (row n) = e ∧ revision (row n) = n ∧ RequestRow.isActive (row n) = true) :
    t.insertUnless e guard row = .error
      (if nextRevision t.rows e < RequestRow.revisionBound ρ
        then .uniqueViolation (RequestRow.activeIndex ρ) else RequestRow.outOfRange ρ) := by
  obtain ⟨hnew, hrev, hnewAct⟩ := hrow (nextRevision t.rows e)
  have hany : ¬ (t.rows.any fun s => decide (owner s = e) && guard s) = true := by
    simpa using hguard
  rw [insertUnless, if_neg hany]
  -- the new row shares its owner with the active one
  have huniq : ¬ (((t.rows ++ [row (nextRevision t.rows e)]).filter
      RequestRow.isActive).map owner).Nodup := by
    rw [List.filter_append, List.map_append, List.nodup_append]
    rintro ⟨_, _, hdisjoint⟩
    refine hdisjoint e (List.mem_map.mpr ⟨r, List.mem_filter.mpr ⟨hr, hact⟩, howner⟩) e ?_ rfl
    simp [hnewAct, hnew]
  have hkeys : ((t.rows ++ [row (nextRevision t.rows e)]).map key).Nodup :=
    nodup_key_append t.primaryKey (by rw [hrev, hnew])
  by_cases hrange : nextRevision t.rows e < RequestRow.revisionBound ρ
  · have hall : ∀ s ∈ t.rows ++ [row (nextRevision t.rows e)],
        revision s < RequestRow.revisionBound ρ := by
      intro s hs
      rcases List.mem_append.mp hs with hs | hs
      · exact t.inRange s hs
      · rw [List.mem_singleton.mp hs, hrev]
        exact hrange
    rw [commit, dif_pos hall, dif_pos hkeys, dif_neg huniq, if_pos hrange]
    rfl
  · have hall : ¬ ∀ s ∈ t.rows ++ [row (nextRevision t.rows e)],
        revision s < RequestRow.revisionBound ρ := by
      intro hall
      refine hrange ?_
      rw [← hrev]
      exact hall _ (List.mem_append_right _ (List.mem_singleton_self _))
    rw [commit, dif_neg hall, if_neg hrange]
    rfl

/-- **What an `UPDATE` does.** -/
theorem updateKeys_eq_ok {n : ℕ} :
    t.updateKeys keys f = .ok (n, t') ↔ n = keys.length ∧ t'.rows = update keys f t.rows := by
  rw [updateKeys, ← commit_eq_ok_iff]
  cases hcommit : commit (update keys f t.rows)
  · simp [bind, Except.bind]
  · simp [bind, Except.bind, pure, Except.pure, eq_comm]

/-! ## The newest row -/

variable {r : ρ} {n : ℕ}

/-- An `INSERT` that goes through adds the newest row of its execution. -/
theorem newest_of_append (h : t'.rows = t.rows ++ [r]) (howner : owner r = e)
    (hrevision : revision r = nextRevision t.rows e) : t'.newest e = some r := by
  refine latest_eq_some_of_forall t'.primaryKey (by rw [h]; simp) howner rfl ?_
  intro s hs hsowner _
  rw [h, List.mem_append, List.mem_singleton] at hs
  rcases hs with hs | rfl
  · have hlt := revision_lt_nextRevision hs hsowner
    rw [← hrevision] at hlt
    exact hlt.le
  · exact le_refl _

/-- An active row is only added beside inactive ones: the partial unique index allows no
second. -/
theorem inactive_of_append (h : t'.rows = t.rows ++ [r]) (hrevision : revision r =
    nextRevision t.rows (owner r)) (hact : RequestRow.isActive r = true) :
    ∀ s ∈ t.rows, owner s = owner r → RequestRow.isActive s = false := by
  intro s hs howner
  rw [← Bool.not_eq_true]
  intro hsact
  have heq : s = r := t'.eq_of_owner_eq (by rw [h]; exact List.mem_append_left _ hs)
    (by rw [h]; simp) hsact hact howner
  exact key_ne_of_nextRevision hs hrevision (congrArg key heq)

/-- Every row with a property is the newest of its execution. -/
def NewestWhere (t : RequestTable ρ) (P : ρ → Prop) : Prop :=
  ∀ r ∈ t.rows, P r → ∀ s ∈ t.rows, owner s = owner r → revision s ≤ revision r

/-- Every active row is the newest of its execution. -/
abbrev ActiveNewest (t : RequestTable ρ) : Prop :=
  t.NewestWhere fun r => RequestRow.isActive r = true

/-- An `INSERT` keeps this, if it adds its row beside rows without the property. -/
theorem NewestWhere.append {P : ρ → Prop} (ht : t.NewestWhere P) (h : t'.rows = t.rows ++ [r])
    (hrevision : revision r = nextRevision t.rows (owner r))
    (hfree : ∀ s ∈ t.rows, owner s = owner r → ¬ P s) : t'.NewestWhere P := by
  intro s hs hPs s' hs' howner
  rw [h, List.mem_append, List.mem_singleton] at hs hs'
  rcases hs with hs | rfl
  · rcases hs' with hs' | rfl
    · exact ht s hs hPs s' hs' howner
    · -- the new row has no such row beside it
      exact absurd hPs (hfree s hs howner.symm)
  · rcases hs' with hs' | rfl
    · have hlt := revision_lt_nextRevision hs' howner
      rw [← hrevision] at hlt
      exact hlt.le
    · exact le_refl _

/-- An `UPDATE` keeps this, if it gives the property to no row. -/
theorem NewestWhere.update {P : ρ → Prop} (ht : t.NewestWhere P) (hf : ∀ r, key (f r) = key r)
    (hP : ∀ r ∈ t.rows, key r ∈ keys → P (f r) → P r)
    (h : t'.rows = update keys f t.rows) : t'.NewestWhere P := by
  intro r hr hPr s hs howner
  rw [h] at hr hs
  obtain ⟨r₀, hr₀, rfl⟩ := mem_update.mp hr
  obtain ⟨s₀, hs₀, rfl⟩ := mem_update.mp hs
  have hkey : key (if key r₀ ∈ keys then f r₀ else r₀) = key r₀ := key_updated hf r₀
  have hkey' : key (if key s₀ ∈ keys then f s₀ else s₀) = key s₀ := key_updated hf s₀
  rw [show owner _ = owner s₀ from congrArg Prod.fst hkey',
    show owner _ = owner r₀ from congrArg Prod.fst hkey] at howner
  rw [show revision _ = revision s₀ from congrArg Prod.snd hkey',
    show revision _ = revision r₀ from congrArg Prod.snd hkey]
  refine ht r₀ hr₀ ?_ s₀ hs₀ howner
  by_cases hmem : key r₀ ∈ keys
  · rw [if_pos hmem] at hPr
    exact hP r₀ hr₀ hmem hPr
  · rw [if_neg hmem] at hPr
    exact hPr

/-- An `UPDATE` of the row that was added last touches no other. -/
theorem updateWhere_append {t'' : RequestTable ρ} (h : t'.rows = t.rows ++ [r])
    (howner : owner r = e) (hrevision : revision r = nextRevision t.rows e)
    (hupdate : t'.updateWhere e (revision r) p f = .ok (n, t'')) :
    n = (if p r = true then 1 else 0)
      ∧ t''.rows = t.rows ++ [if p r = true then f r else r] := by
  have hkey : key r = (e, revision r) := Prod.ext howner rfl
  have hother : ∀ s ∈ t.rows, key s ≠ (e, revision r) := by
    intro s hs heq
    exact key_ne_of_nextRevision hs (howner ▸ hrevision) (heq.trans hkey.symm)
  have hkeys : ((t'.rows.filter fun s => decide (key s = (e, revision r)) && p s).map key)
      = if p r = true then [key r] else [] := by
    rw [h, List.filter_append, List.filter_eq_nil_iff.mpr ?_, List.nil_append]
    · by_cases hp : p r = true <;> simp [hp, hkey]
    · intro s hs
      simp [hother s hs]
  obtain ⟨hn, hrows⟩ := updateKeys_eq_ok.mp hupdate
  rw [hkeys] at hn hrows
  have hkept : ∀ keys : List (ExecutionId × ℕ), (∀ k ∈ keys, k = (e, revision r)) →
      update keys f t.rows = t.rows := by
    intro keys hkeys
    refine (List.map_congr_left fun s hs => ?_).trans (List.map_id _)
    rw [if_neg fun hmem => hother s hs (hkeys _ hmem), id]
  by_cases hp : p r = true
  · rw [if_pos hp] at hn hrows ⊢
    rw [if_pos hp]
    refine ⟨hn, hrows.trans ?_⟩
    rw [h, update, List.map_append]
    refine congrArg₂ (· ++ ·) (hkept [key r] fun k hk => ?_) ?_
    · rw [List.mem_singleton.mp hk, hkey]
    · simp
  · rw [if_neg hp] at hn hrows ⊢
    rw [if_neg hp]
    exact ⟨hn, hrows.trans (update_nil.trans h)⟩

/-- The row an `UPDATE` of the newest matching row finds. -/
theorem of_key_mem_latest (hr : r ∈ t.rows) (hkey : key r ∈ (latest t.rows e p).toList.map key) :
    owner r = e ∧ p r = true := by
  obtain ⟨r₁, hr₁, hkey₁⟩ := List.mem_map.mp hkey
  obtain ⟨hmem, howner, hp⟩ := latest_eq_some (Option.mem_toList.mp hr₁)
  obtain rfl := t.eq_of_key_eq hmem hr hkey₁
  exact ⟨howner, hp⟩

/-- What an `UPDATE` of the newest row does, when that row matches. -/
theorem updateLatest_newest (hf : ∀ r, key (f r) = key r) (hr : t.newest e = some r)
    (hp : p r = true) (h : t.updateLatest e p f = .ok (n, t')) :
    n = 1 ∧ t'.rows = update [key r] f t.rows ∧ t'.newest e = some (f r) := by
  obtain ⟨hmem, howner, _⟩ := latest_eq_some hr
  have hlatest : latest t.rows e p = some r :=
    latest_eq_some_of_forall t.primaryKey hmem howner hp fun s hs hsowner _ =>
      revision_le_of_latest hr hs hsowner rfl
  unfold updateLatest at h
  rw [hlatest] at h
  obtain ⟨hn, hrows⟩ := updateKeys_eq_ok.mp h
  have hrows : t'.rows = update [key r] f t.rows := hrows
  refine ⟨hn, hrows, latest_eq_some_of_forall t'.primaryKey ?_ ?_ rfl fun s hs hsowner _ => ?_⟩
  · rw [hrows]
    exact mem_update.mpr ⟨r, hmem, by simp⟩
  · exact (congrArg Prod.fst (hf r)).trans howner
  · -- no revision changes
    rw [hrows] at hs
    obtain ⟨s₀, hs₀, rfl⟩ := mem_update.mp hs
    have hkey : key (if key s₀ ∈ [key r] then f s₀ else s₀) = key s₀ := key_updated hf s₀
    rw [show revision _ = revision s₀ from congrArg Prod.snd hkey,
      show revision (f r) = revision r from congrArg Prod.snd (hf r)]
    exact revision_le_of_latest hr hs₀ ((congrArg Prod.fst hkey).symm.trans hsowner) rfl

end RequestTable

/-! ## The rows of one execution -/

namespace RequestTable

variable {ρ : Type} [RequestRow ρ]

/-- The rows of one execution, in the order of the table. -/
def rowsOf (t : RequestTable ρ) (e : ExecutionId) : List ρ :=
  t.rows.filter fun r => decide (owner r = e)

variable {t t' : RequestTable ρ} {e e' : ExecutionId}

theorem mem_rowsOf {r : ρ} : r ∈ t.rowsOf e ↔ r ∈ t.rows ∧ owner r = e := by
  simp [rowsOf]

/-- The newest row is found among the rows of the execution. -/
theorem newest_congr (h : t'.rowsOf e = t.rowsOf e) : t'.newest e = t.newest e := by
  unfold rowsOf at h
  unfold newest latest
  simp only [Bool.and_true, h]

/-- An `INSERT` for one execution does not show in the rows of another. -/
theorem rowsOf_insertUnless {guard : ρ → Bool} {row : ℕ → ρ} {reply : Option ℕ}
    (hrow : ∀ n, owner (row n) = e) (he : e' ≠ e)
    (h : t.insertUnless e guard row = .ok (reply, t')) : t'.rowsOf e' = t.rowsOf e' := by
  rcases insertUnless_eq_ok.mp h with ⟨_, _, rfl⟩ | ⟨_, _, hrows⟩
  · rfl
  · rw [rowsOf, rowsOf, hrows, List.filter_append]
    simp [hrow, he.symm]

/-- An `UPDATE` of rows of one execution does not show in the rows of another. -/
theorem rowsOf_updateKeys {keys : List (ExecutionId × ℕ)} {f : ρ → ρ} {n : ℕ}
    (hf : ∀ r, key (f r) = key r) (hkeys : ∀ k ∈ keys, k.1 = e) (he : e' ≠ e)
    (h : t.updateKeys keys f = .ok (n, t')) : t'.rowsOf e' = t.rowsOf e' := by
  rw [rowsOf, rowsOf, (updateKeys_eq_ok.mp h).2]
  refine filter_update fun r _ hkey => ?_
  have howner : owner r = e := hkeys _ hkey
  have howner' : owner (f r) = e := (congrArg Prod.fst (hf r)).trans howner
  simp [howner, howner', he.symm]

theorem rowsOf_updateWhere {n m : ℕ} {p : ρ → Bool} {f : ρ → ρ}
    (hf : ∀ r, key (f r) = key r) (he : e' ≠ e)
    (h : t.updateWhere e n p f = .ok (m, t')) : t'.rowsOf e' = t.rowsOf e' := by
  refine rowsOf_updateKeys hf (fun k hk => ?_) he h
  obtain ⟨r, hr, rfl⟩ := List.mem_map.mp hk
  have hkey : key r = (e, n) := by simpa using (Bool.and_eq_true_iff.mp (List.mem_filter.mp hr).2).1
  exact congrArg Prod.fst hkey

end RequestTable

end Lobby
