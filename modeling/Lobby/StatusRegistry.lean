/-
# The status registry

`StatusRegistry` keeps the statuses in memory and in Redis.  `set` changes the memory at
once and spawns a task that writes to Redis; nothing orders the tasks of one execution.
Redis ends up with the status that was set last exactly when no write of an older status
runs after the last write of that one (`redis_latest_iff`).

A status is stored as JSON and read back by `new`; the model stores the status itself.
The keys are written with `SET … EX 3600`; the model has no clock, so its runs are those in
which no key has expired.
-/
import Lobby.Types

namespace Lobby

/-- One call of `set`, and the Redis write it spawns. -/
structure StatusWrite where
  executionId : ExecutionId
  status : PipelineStatus
  deriving DecidableEq

/-- The registry: the map in memory, the keys in Redis, and the spawned writes that have not
run, the latest first. -/
structure StatusRegistry where
  statusBook : ExecutionId → Option PipelineStatus
  redis : ExecutionId → Option PipelineStatus
  spawned : List StatusWrite

namespace StatusRegistry

/-- `set`: insert into the map and spawn the write. -/
def set (r : StatusRegistry) (x : StatusWrite) : StatusRegistry where
  statusBook := Function.update r.statusBook x.executionId (some x.status)
  redis := r.redis
  spawned := x :: r.spawned

/-- `get` reads the map. -/
def get (r : StatusRegistry) (e : ExecutionId) : Option PipelineStatus := r.statusBook e

/-- A spawned write runs: `set_ex`. -/
def write (r : StatusRegistry) (x : StatusWrite) : StatusRegistry where
  statusBook := r.statusBook
  redis := Function.update r.redis x.executionId (some x.status)
  spawned := r.spawned.erase x

/-- `new` over what is in Redis: every key is loaded into the map. -/
def restart (r : StatusRegistry) : StatusRegistry where
  statusBook := r.redis
  redis := r.redis
  spawned := []

/-- A run of a registry opened with `new` over `r₀`, with the calls of `set` and the writes in
the order they ran, both the latest first. -/
inductive Run (r₀ : StatusRegistry) :
    List StatusWrite → List StatusWrite → StatusRegistry → Prop where
  | start : Run r₀ [] [] r₀.restart
  | set {sets writes r} (h : Run r₀ sets writes r) (x : StatusWrite) :
      Run r₀ (x :: sets) writes (r.set x)
  | write {sets writes r x} (h : Run r₀ sets writes r) (hx : x ∈ r.spawned) :
      Run r₀ sets (x :: writes) (r.write x)

/-- The status an execution was given last. -/
def latestStatus (e : ExecutionId) (l : List StatusWrite) : Option PipelineStatus :=
  (l.find? fun x => decide (x.executionId = e)).map StatusWrite.status

/-- After the last write of its latest status no write of an older status of an execution
runs. -/
def NoStaleWrite (sets writes : List StatusWrite) : Prop :=
  ∀ later x earlier, writes = later ++ x :: earlier →
    some x.status ≠ latestStatus x.executionId sets →
    ∃ y ∈ later, y.executionId = x.executionId
      ∧ some y.status = latestStatus x.executionId sets

/-! ## What the two maps hold -/

variable {r₀ r : StatusRegistry} {sets writes l : List StatusWrite} {x : StatusWrite}
  {e : ExecutionId}

@[simp] theorem latestStatus_cons_self (x : StatusWrite) (l : List StatusWrite) :
    latestStatus x.executionId (x :: l) = some x.status := by
  simp [latestStatus]

theorem latestStatus_cons_of_ne (h : e ≠ x.executionId) (l : List StatusWrite) :
    latestStatus e (x :: l) = latestStatus e l := by
  rw [latestStatus, List.find?_cons_of_neg (by simpa using h.symm), latestStatus]

theorem latestStatus_append (l l' : List StatusWrite) :
    latestStatus e (l ++ l') = (latestStatus e l).or (latestStatus e l') := by
  simp [latestStatus, List.find?_append, Option.map_or]

/-- Writing one more status over `kept`. -/
theorem update_latestStatus (kept : ExecutionId → Option PipelineStatus) (x : StatusWrite)
    (l : List StatusWrite) :
    Function.update (fun e => (latestStatus e l).or (kept e)) x.executionId (some x.status)
      = fun e => (latestStatus e (x :: l)).or (kept e) := by
  funext e
  by_cases he : e = x.executionId
  · subst he
    rw [Function.update_self, latestStatus_cons_self, Option.some_or]
  · rw [Function.update_of_ne he, latestStatus_cons_of_ne he]

/-- The map holds what was set last and Redis what was written last, both over what Redis
held when the registry was opened. -/
theorem Run.latest (h : Run r₀ sets writes r) :
    r.statusBook = (fun e => (latestStatus e sets).or (r₀.redis e))
    ∧ r.redis = fun e => (latestStatus e writes).or (r₀.redis e) := by
  induction h with
  | start => exact ⟨rfl, rfl⟩
  | set _ x ih =>
      refine ⟨?_, ih.2⟩
      rw [← update_latestStatus, ← ih.1]
      rfl
  | @write _ _ _ x _ _ ih =>
      refine ⟨ih.1, ?_⟩
      rw [← update_latestStatus, ← ih.2]
      rfl

/-- Every call of `set` has been written or is still to be. -/
theorem Run.perm (h : Run r₀ sets writes r) : (writes ++ r.spawned).Perm sets := by
  induction h with
  | start => exact List.Perm.refl _
  | set _ x ih => exact List.perm_middle.trans (ih.cons x)
  | write _ hx ih =>
      refine List.Perm.trans ?_ ih
      exact List.perm_middle.symm.trans ((List.perm_cons_erase hx).symm.append_left _)

/-- The newest entry of an execution. -/
theorem latestStatus_eq_some {status : PipelineStatus} (h : latestStatus e l = some status) :
    ∃ later x earlier, l = later ++ x :: earlier ∧ x.executionId = e ∧ x.status = status
      ∧ ∀ y ∈ later, y.executionId ≠ e := by
  obtain ⟨x, hfind, rfl⟩ := Option.map_eq_some_iff.mp h
  obtain ⟨hx, later, earlier, rfl, hlater⟩ := List.find?_eq_some_iff_append.mp hfind
  exact ⟨later, x, earlier, rfl, by simpa using hx, rfl, by simpa using hlater⟩

theorem latestStatus_eq_none :
    latestStatus e l = none ↔ ∀ x ∈ l, x.executionId ≠ e := by
  simp [latestStatus]

/-- **When the writes leave the latest statuses.** -/
theorem latest_eq_iff (hperm : writes.Perm sets) :
    (∀ e, latestStatus e writes = latestStatus e sets) ↔ NoStaleWrite sets writes := by
  constructor
  · rintro heq later x earlier rfl hstale
    cases hlatest : latestStatus x.executionId sets with
    | none =>
        have hx : x ∈ sets := hperm.subset (by simp)
        exact absurd rfl (latestStatus_eq_none.mp hlatest x hx)
    | some status =>
        -- the last write is of the latest status, and it comes after the stale one
        have hwritten := (heq x.executionId).trans hlatest
        rw [latestStatus_append] at hwritten
        cases hlater : latestStatus x.executionId later with
        | none =>
            rw [hlater, latestStatus_cons_self] at hwritten
            exact absurd (hwritten.trans hlatest.symm) hstale
        | some status' =>
            rw [hlater] at hwritten
            obtain ⟨_, y, _, rfl, howner, rfl, _⟩ := latestStatus_eq_some hlater
            exact ⟨y, by simp, howner, hwritten⟩
  · intro hstale e
    cases hwritten : latestStatus e writes with
    | none =>
        refine (latestStatus_eq_none.mpr fun x hx => ?_).symm
        exact latestStatus_eq_none.mp hwritten x (hperm.symm.subset hx)
    | some status =>
        obtain ⟨later, x, earlier, hwrites, rfl, rfl, hlater⟩ := latestStatus_eq_some hwritten
        by_contra hne
        obtain ⟨y, hy, howner, _⟩ := hstale later x earlier hwrites hne
        exact hlater y hy howner

/-- **Redis ends with the latest statuses, and `new` restores them,** exactly when no older
status of an execution is written after the last write of its latest one, as long as no key
has expired. -/
theorem redis_latest_iff (h : Run r₀ sets writes r) (hdone : r.spawned = []) :
    (∀ e, r.redis e = r.get e ∧ r.restart.get e = r.get e) ↔ NoStaleWrite sets writes := by
  have hperm : writes.Perm sets := by simpa [hdone] using h.perm
  rw [← latest_eq_iff hperm]
  refine forall_congr' fun e => ?_
  have hrestart : r.restart.get e = r.redis e := rfl
  rw [hrestart, and_self, get, h.latest.1, h.latest.2]
  constructor
  · intro heq
    -- an execution that was never set was never written
    cases hset : latestStatus e sets with
    | none =>
        refine latestStatus_eq_none.mpr fun x hx => ?_
        exact latestStatus_eq_none.mp hset x (hperm.subset hx)
    | some status =>
        cases hwritten : latestStatus e writes with
        | none =>
            have hnone : latestStatus e sets = none :=
              latestStatus_eq_none.mpr fun x hx =>
                latestStatus_eq_none.mp hwritten x (hperm.symm.subset hx)
            exact absurd (hset.symm.trans hnone) (by simp)
        | some status' => simpa [hset, hwritten] using heq
  · intro heq
    exact congrArg (·.or (r₀.redis e)) heq

/-! ## Two writes of one execution -/

/-- `set(Accepted)`. -/
def acceptedWrite : StatusWrite := ⟨⟨1⟩, .accepted⟩

/-- `set(NonceReserved)`, after it. -/
def reservedWrite : StatusWrite := ⟨⟨1⟩, .nonceReserved⟩

/-- A registry opened over an empty Redis, the two calls, and their writes in the order
`first`, `second`. -/
def afterWrites (first second : StatusWrite) : StatusRegistry :=
  ((((restart ⟨fun _ => none, fun _ => none, []⟩).set acceptedWrite).set reservedWrite).write
    first).write second

theorem run_afterWrites (first second : StatusWrite)
    (hfirst : first ∈ [reservedWrite, acceptedWrite])
    (hsecond : second ∈ [reservedWrite, acceptedWrite].erase first) :
    Run ⟨fun _ => none, fun _ => none, []⟩ [reservedWrite, acceptedWrite] [second, first]
      (afterWrites first second) :=
  .write (.write (.set (.set .start acceptedWrite) reservedWrite) hfirst) hsecond

/-- Written in the order of the calls, Redis keeps the second status. -/
theorem redis_latest_in_order :
    (afterWrites acceptedWrite reservedWrite).restart.get ⟨1⟩ = some .nonceReserved := by
  have hrun := run_afterWrites acceptedWrite reservedWrite
    (by decide) (by decide)
  have hstale : NoStaleWrite [reservedWrite, acceptedWrite] [reservedWrite, acceptedWrite] :=
    (latest_eq_iff (List.Perm.refl _)).mp fun _ => rfl
  exact (((redis_latest_iff hrun (by decide)).mpr hstale) ⟨1⟩).2.trans (by decide)

/-- Written the other way round, a restart brings back the first one. -/
theorem restart_restores_older :
    ∃ r₀ sets writes r, Run r₀ sets writes r ∧ r.spawned = []
      ∧ r.get ⟨1⟩ = some .nonceReserved ∧ r.redis ⟨1⟩ = some .accepted
      ∧ r.restart.get ⟨1⟩ = some .accepted := by
  have hrun := run_afterWrites reservedWrite acceptedWrite
    (by decide) (by decide)
  exact ⟨_, _, _, _, hrun, by decide, by decide, by decide, by decide⟩

end StatusRegistry

end Lobby
