/-
# Tables of numbered revisions

A table whose primary key is an owner together with a revision number.  The newest row
of an owner is the one `ORDER BY revision DESC LIMIT 1` finds, the next revision is
`COALESCE(MAX(revision), 0) + 1`, and an `UPDATE … WHERE key IN …` rewrites rows in
place.  The lemmas say what a lookup returns, that a new revision is unused, and what
an update in place does to a projection of the table.
-/
import Mathlib

namespace Revisions

/-- A row that belongs to an owner and carries a revision number. -/
class Revisioned (ρ : Type*) (ι : outParam Type*) where
  owner : ρ → ι
  revision : ρ → ℕ

export Revisioned (owner revision)

variable {ρ ι : Type*} [Revisioned ρ ι] [DecidableEq ι]

/-- The primary key of a row. -/
def key (r : ρ) : ι × ℕ := (owner r, revision r)

/-- `COALESCE((SELECT MAX(revision) … WHERE owner = i), 0) + 1`. -/
def nextRevision (rows : List ρ) (i : ι) : ℕ :=
  ((rows.filter fun r => owner r = i).map revision).foldr max 0 + 1

/-- `SELECT … WHERE owner = i AND p ORDER BY revision DESC LIMIT 1`. -/
def latest (rows : List ρ) (i : ι) (p : ρ → Bool) : Option ρ :=
  (rows.filter fun r => decide (owner r = i) && p r).argmax revision

/-- `UPDATE … SET row = f(row) WHERE key IN keys`. -/
def update (keys : List (ι × ℕ)) (f : ρ → ρ) (rows : List ρ) : List ρ :=
  rows.map fun r => if key r ∈ keys then f r else r

/-! ## Lookups -/

theorem latest_eq_some {rows : List ρ} {i : ι} {p : ρ → Bool} {r : ρ}
    (h : latest rows i p = some r) : r ∈ rows ∧ owner r = i ∧ p r = true := by
  have hmem := List.mem_filter.mp (List.argmax_mem (Option.mem_def.mpr h))
  simpa using hmem

/-- The newest matching row is no older than any other. -/
theorem revision_le_of_latest {rows : List ρ} {i : ι} {p : ρ → Bool} {r s : ρ}
    (h : latest rows i p = some r) (hs : s ∈ rows) (howner : owner s = i)
    (hp : p s = true) : revision s ≤ revision r := by
  refine List.le_of_mem_argmax (List.mem_filter.mpr ⟨hs, ?_⟩) (Option.mem_def.mpr h)
  simp [howner, hp]

theorem latest_eq_none_iff {rows : List ρ} {i : ι} {p : ρ → Bool} :
    latest rows i p = none ↔ ∀ r ∈ rows, owner r = i → p r = false := by
  rw [latest, List.argmax_eq_none, List.filter_eq_nil_iff]
  simp

/-- A matching row that no other matching row outdates is the one a lookup finds. -/
theorem latest_eq_some_of_forall {rows : List ρ} {i : ι} {p : ρ → Bool} {r : ρ}
    (hkeys : (rows.map key).Nodup) (hr : r ∈ rows) (howner : owner r = i)
    (hp : p r = true)
    (hmax : ∀ s ∈ rows, owner s = i → p s = true → revision s ≤ revision r) :
    latest rows i p = some r := by
  cases hlatest : latest rows i p with
  | none =>
      rw [latest_eq_none_iff] at hlatest
      simp [hlatest r hr howner] at hp
  | some s =>
      obtain ⟨hs, hsowner, hsp⟩ := latest_eq_some hlatest
      have hle := revision_le_of_latest hlatest hr howner hp
      have hge := hmax s hs hsowner hsp
      have hkey : key s = key r := by
        rw [key, key, hsowner, howner, Nat.le_antisymm hge hle]
      rw [List.inj_on_of_nodup_map hkeys hs hr hkey]

/-! ## New revisions -/

theorem le_foldr_max {l : List ℕ} {n : ℕ} (h : n ∈ l) : n ≤ l.foldr max 0 := by
  induction l with
  | nil => simp at h
  | cons m l ih =>
      rw [List.foldr_cons]
      rcases List.mem_cons.mp h with rfl | h
      · exact le_max_left _ _
      · exact le_trans (ih h) (le_max_right _ _)

theorem revision_lt_nextRevision {rows : List ρ} {i : ι} {r : ρ} (hr : r ∈ rows)
    (howner : owner r = i) : revision r < nextRevision rows i := by
  have hmem : revision r ∈ (rows.filter fun r => owner r = i).map revision :=
    List.mem_map_of_mem (List.mem_filter.mpr ⟨hr, by simpa using howner⟩)
  exact Nat.lt_succ_of_le (le_foldr_max hmem)

/-- An owner without rows starts at revision one. -/
theorem nextRevision_of_forall_ne {rows : List ρ} {i : ι}
    (h : ∀ r ∈ rows, owner r ≠ i) : nextRevision rows i = 1 := by
  have hnil : (rows.filter fun r => owner r = i) = [] := by
    rw [List.filter_eq_nil_iff]
    simpa using h
  rw [nextRevision, hnil]
  rfl

/-- The next revision gives a row a key of its own. -/
theorem key_ne_of_nextRevision {rows : List ρ} {r s : ρ} (hs : s ∈ rows)
    (hrev : revision r = nextRevision rows (owner r)) : key s ≠ key r := by
  intro hkey
  rw [key, key, Prod.mk.injEq] at hkey
  have hlt := revision_lt_nextRevision hs hkey.1
  omega

/-- Adding a row under the next revision keeps the primary key. -/
theorem nodup_key_append {rows : List ρ} {r : ρ} (hkeys : (rows.map key).Nodup)
    (hrev : revision r = nextRevision rows (owner r)) :
    ((rows ++ [r]).map key).Nodup := by
  rw [List.map_append, List.nodup_append]
  refine ⟨hkeys, by simp, ?_⟩
  rintro k hk k' hk' rfl
  obtain ⟨s, hs, rfl⟩ := List.mem_map.mp hk
  exact key_ne_of_nextRevision hs hrev (by simpa using hk')

/-! ## Gap-free numbering -/

/-- The revisions of an owner, in the order of creation. -/
def revisionsOf (rows : List ρ) (i : ι) : List ℕ :=
  (rows.filter fun r => owner r = i).map revision

/-- The revisions of every owner are `1, 2, …` in the order of creation. -/
def Numbered (rows : List ρ) : Prop :=
  ∀ i, revisionsOf rows i = List.range' 1 (revisionsOf rows i).length

theorem nextRevision_eq (rows : List ρ) (i : ι) :
    nextRevision rows i = (revisionsOf rows i).foldr max 0 + 1 := rfl

theorem revisionsOf_eq_keys (rows : List ρ) (i : ι) :
    revisionsOf rows i = ((rows.map key).filter fun k => k.1 = i).map Prod.snd := by
  rw [revisionsOf, List.filter_map, List.map_map]
  rfl

theorem foldr_max_range' (k : ℕ) : (List.range' 1 k).foldr max 0 = k := by
  apply Nat.le_antisymm
  · have hle : ∀ l : List ℕ, (∀ n ∈ l, n ≤ k) → l.foldr max 0 ≤ k := by
      intro l hl
      induction l with
      | nil => exact Nat.zero_le k
      | cons n l ih =>
          rw [List.foldr_cons]
          exact max_le (hl n List.mem_cons_self) (ih fun m hm => hl m (List.mem_cons_of_mem n hm))
    refine hle _ fun n hn => ?_
    rw [List.mem_range'_1] at hn
    omega
  · cases k with
    | zero => exact Nat.zero_le _
    | succ k =>
        refine le_foldr_max ?_
        rw [List.mem_range'_1]
        omega

/-- Among numbered rows the next revision is one more than the number of rows. -/
theorem Numbered.nextRevision_eq {rows : List ρ} (h : Numbered rows) (i : ι) :
    nextRevision rows i = (revisionsOf rows i).length + 1 := by
  rw [Revisions.nextRevision_eq, h i, foldr_max_range', List.length_range']

theorem numbered_nil : Numbered ([] : List ρ) := fun _ => rfl

/-- A row under the next revision continues the numbering. -/
theorem Numbered.append {rows : List ρ} (h : Numbered rows) {r : ρ}
    (hrev : revision r = nextRevision rows (owner r)) : Numbered (rows ++ [r]) := by
  intro i
  by_cases howner : owner r = i
  · have hnew : revisionsOf (rows ++ [r]) i = revisionsOf rows i ++ [revision r] := by
      simp [revisionsOf, howner]
    rw [hnew, hrev, howner, h.nextRevision_eq, List.length_append, List.length_singleton,
      List.range'_concat, ← h i]
    simp [Nat.add_comm]
  · have hold : revisionsOf (rows ++ [r]) i = revisionsOf rows i := by
      simp [revisionsOf, howner]
    rw [hold]
    exact h i

/-! ## Updates in place -/

variable {keys : List (ι × ℕ)} {f : ρ → ρ} {rows : List ρ}

@[simp] theorem update_nil : update ([] : List (ι × ℕ)) f rows = rows := by
  simp [update]

theorem mem_update {s : ρ} :
    s ∈ update keys f rows ↔ ∃ r ∈ rows, s = if key r ∈ keys then f r else r := by
  simp [update, eq_comm]

theorem key_updated (hf : ∀ r, key (f r) = key r) (r : ρ) :
    key (if key r ∈ keys then f r else r) = key r := by
  by_cases hkey : key r ∈ keys
  · rw [if_pos hkey, hf]
  · rw [if_neg hkey]

/-- A function of the rows that the update does not touch is unchanged. -/
theorem map_update {γ : Type*} {g : ρ → γ} (hg : ∀ r, g (f r) = g r) :
    (update keys f rows).map g = rows.map g := by
  rw [update, List.map_map]
  refine List.map_congr_left fun r _ => ?_
  by_cases hkey : key r ∈ keys <;> simp [hkey, hg]

theorem map_key_update (hf : ∀ r, key (f r) = key r) :
    (update keys f rows).map key = rows.map key :=
  map_update hf

/-- The revisions of an owner do not change when rows keep their keys. -/
theorem revisionsOf_update (hf : ∀ r, key (f r) = key r) (i : ι) :
    revisionsOf (update keys f rows) i = revisionsOf rows i := by
  rw [revisionsOf_eq_keys, revisionsOf_eq_keys, map_key_update hf]

theorem nextRevision_update (hf : ∀ r, key (f r) = key r) (i : ι) :
    nextRevision (update keys f rows) i = nextRevision rows i := by
  rw [nextRevision_eq, nextRevision_eq, revisionsOf_update hf]

theorem Numbered.update (h : Numbered rows) (hf : ∀ r, key (f r) = key r) :
    Numbered (Revisions.update keys f rows) := by
  intro i
  rw [revisionsOf_update hf]
  exact h i

/-- An update that keeps the selected rows selected keeps what is read off them. -/
theorem map_filter_update {γ : Type*} {p : ρ → Bool} {g : ρ → γ}
    (hg : ∀ r, g (f r) = g r)
    (hp : ∀ r ∈ rows, key r ∈ keys → p (f r) = p r) :
    ((update keys f rows).filter p).map g = (rows.filter p).map g := by
  induction rows with
  | nil => rfl
  | cons r rows ih =>
      have ih := ih fun s hs => hp s (List.mem_cons_of_mem r hs)
      rw [update] at ih ⊢
      rw [List.map_cons, List.filter_cons, List.filter_cons]
      by_cases hkey : key r ∈ keys
      · have hpr := hp r List.mem_cons_self hkey
        by_cases hsel : p r = true <;> simp [hkey, hpr, hsel, hg, ih]
      · by_cases hsel : p r = true <;> simp [hkey, hsel, ih]

/-- An update that only takes rows out of a selection leaves a sublist of what was
read off it. -/
theorem map_filter_update_sublist {γ : Type*} {p : ρ → Bool} {g : ρ → γ}
    (hg : ∀ r, g (f r) = g r)
    (hp : ∀ r ∈ rows, key r ∈ keys → p (f r) = true → p r = true) :
    List.Sublist (((update keys f rows).filter p).map g) ((rows.filter p).map g) := by
  induction rows with
  | nil => exact List.Sublist.refl _
  | cons r rows ih =>
      have ih := ih fun s hs => hp s (List.mem_cons_of_mem r hs)
      rw [update] at ih ⊢
      rw [List.map_cons, List.filter_cons, List.filter_cons]
      -- an update may drop a row from the selection, and adds none
      by_cases hkey : key r ∈ keys
      · have hpr := hp r List.mem_cons_self hkey
        rw [if_pos hkey]
        by_cases hnew : p (f r) = true
        · rw [if_pos hnew, if_pos (hpr hnew), List.map_cons, List.map_cons, hg]
          exact ih.cons_cons _
        · rw [if_neg hnew]
          by_cases hold : p r = true
          · rw [if_pos hold, List.map_cons]
            exact ih.cons _
          · rw [if_neg hold]
            exact ih
      · rw [if_neg hkey]
        by_cases hold : p r = true
        · rw [if_pos hold, if_pos hold, List.map_cons, List.map_cons]
          exact ih.cons_cons _
        · rw [if_neg hold, if_neg hold]
          exact ih

/-- An update of rows that are not selected, before or after, does not show in a
selection. -/
theorem filter_update {p : ρ → Bool}
    (hp : ∀ r ∈ rows, key r ∈ keys → p r = false ∧ p (f r) = false) :
    (update keys f rows).filter p = rows.filter p := by
  induction rows with
  | nil => rfl
  | cons r rows ih =>
      have ih := ih fun s hs => hp s (List.mem_cons_of_mem r hs)
      rw [update] at ih ⊢
      rw [List.map_cons, List.filter_cons, List.filter_cons, ih]
      by_cases hkey : key r ∈ keys
      · obtain ⟨hold, hnew⟩ := hp r List.mem_cons_self hkey
        simp [hkey, hold, hnew]
      · simp [hkey]

/-- Rows that are taken out of a selection are missing from its number. -/
theorem countP_update_add {p : ρ → Bool}
    (hp : ∀ r ∈ rows, key r ∈ keys → p r = true ∧ p (f r) = false) :
    (update keys f rows).countP p + rows.countP (fun r => decide (key r ∈ keys))
      = rows.countP p := by
  induction rows with
  | nil => rfl
  | cons r rows ih =>
      have ih := ih fun s hs => hp s (List.mem_cons_of_mem r hs)
      rw [update] at ih ⊢
      rw [List.map_cons, List.countP_cons, List.countP_cons, List.countP_cons]
      by_cases hkey : key r ∈ keys
      · obtain ⟨hold, hnew⟩ := hp r List.mem_cons_self hkey
        simp only [hkey, hold, hnew, if_true, decide_true, Bool.false_eq_true, if_false]
        omega
      · simp only [hkey, if_false, decide_false, Bool.false_eq_true]
        omega

/-- Updating one row under a unique key changes the table at one place. -/
theorem update_singleton (hkeys : (rows.map key).Nodup) {r : ρ} (hr : r ∈ rows) :
    ∃ before after, rows = before ++ r :: after
      ∧ update [key r] f rows = before ++ f r :: after := by
  obtain ⟨before, after, rfl⟩ := List.append_of_mem hr
  have hsplit := hkeys
  rw [List.map_append, List.map_cons, List.nodup_append, List.nodup_cons] at hsplit
  obtain ⟨_, ⟨hafter, _⟩, hdisjoint⟩ := hsplit
  -- no other row has the key
  have hother : ∀ l : List ρ, (∀ s ∈ l, key s ≠ key r) →
      (l.map fun s => if key s ∈ [key r] then f s else s) = l := by
    intro l hl
    refine (List.map_congr_left fun s hs => ?_).trans (List.map_id l)
    rw [if_neg (by simpa using hl s hs), id]
  refine ⟨before, after, rfl, ?_⟩
  rw [update, List.map_append, List.map_cons, if_pos (List.mem_singleton_self _)]
  rw [hother before, hother after]
  · intro s hs hkey
    exact hafter (hkey ▸ List.mem_map_of_mem hs)
  · intro s hs hkey
    exact hdisjoint (key s) (List.mem_map_of_mem hs) (key r) List.mem_cons_self hkey

end Revisions
