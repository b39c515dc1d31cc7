/-
# Restarting the status registry

The registry down to its Redis keys and values: `set` and `remove` each build a key on their
own and spawn one task, `new` scans the keys `lobby:status:*`, parses the execution out of
each and reads the JSON behind it.  The tasks run in the order of the calls here; what their
reordering does is in `StatusRegistry.lean`.

`set` writes under `lobby:status:`, `remove` deletes under `lobby:state:`.  No deletion ever
meets an entry, and a restart brings back every execution whose last call was a removal
(`restart_restores_iff`).
-/
import Lobby.StatusRegistry
import Lobby.StatusJson

open Text

namespace Lobby

/-! ## UUIDs as text -/

/-- Groups of characters with hyphens between them. -/
def hyphenate : List ℕ → List Char → List Char
  | [], cs => cs
  | [_], cs => cs
  | n :: ns, cs => cs.take n ++ '-' :: hyphenate ns (cs.drop n)

/-- Undo `hyphenate`, when the groups have these lengths. -/
def unhyphenate : List ℕ → List Char → Option (List Char)
  | [], cs => if cs = [] then some [] else none
  | [n], cs => if cs.length = n then some cs else none
  | n :: ns, cs =>
    match cs.drop n with
    | '-' :: rest => (unhyphenate ns rest).map (cs.take n ++ ·)
    | _ => none

/-- The lengths of the five groups. -/
def uuidGroups : List ℕ := [8, 4, 4, 4, 12]

/-- `{}` of an execution id: the hyphenated form in lower case. -/
def ExecutionId.display (e : ExecutionId) : String :=
  String.ofList (hyphenate uuidGroups (fixedDigits 16 32 e.uuid.toNat))

/-- Thirty-two digits as an execution id. -/
def parseSimple (cs : List Char) : Option ExecutionId :=
  if cs.length = 32 then (numeral 16 cs).map fun n => ⟨BitVec.ofNat 128 n⟩ else none

/-- Five groups of digits as an execution id. -/
def parseHyphenated (cs : List Char) : Option ExecutionId :=
  (unhyphenate uuidGroups cs).bind parseSimple

/-- `Uuid::parse_str`, for the four formats that the `uuid` crate documents: simple,
hyphenated, braced, or as a URN, with digits of either case. -/
def parseUuid (cs : List Char) : Option ExecutionId :=
  if cs.length = 32 then parseSimple cs
  else if cs.length = 36 then parseHyphenated cs
  else if cs.length = 38 ∧ cs.head? = some '{' ∧ cs.getLast? = some '}' then
    parseHyphenated (cs.tail.dropLast)
  else if cs.length = 45 then (stripPrefix "urn:uuid:".toList cs).bind parseHyphenated
  else none

theorem unhyphenate_hyphenate (ns : List ℕ) (cs : List Char) (hne : ns ≠ [])
    (hlen : cs.length = ns.sum) : unhyphenate ns (hyphenate ns cs) = some cs := by
  induction ns generalizing cs with
  | nil => exact absurd rfl hne
  | cons n ns ih =>
      cases ns with
      | nil =>
          rw [hyphenate, unhyphenate, if_pos (by simpa using hlen)]
      | cons m ns =>
          rw [List.sum_cons] at hlen
          have htake : (cs.take n).length = n := by rw [List.length_take]; omega
          have hrest := ih (cs.drop n) (by simp) (by rw [List.length_drop]; omega)
          have hdrop : (cs.take n ++ '-' :: hyphenate (m :: ns) (cs.drop n)).drop n
              = '-' :: hyphenate (m :: ns) (cs.drop n) := List.drop_left' htake
          have hfront : (cs.take n ++ '-' :: hyphenate (m :: ns) (cs.drop n)).take n
              = cs.take n := List.take_left' htake
          rw [hyphenate, unhyphenate, hdrop]
          · show (unhyphenate (m :: ns) (hyphenate (m :: ns) (cs.drop n))).map _ = some cs
            rw [hrest, hfront, Option.map_some, List.take_append_drop]
          · simp
          · simp

theorem length_hyphenate (ns : List ℕ) (cs : List Char) (hne : ns ≠ [])
    (hlen : cs.length = ns.sum) : (hyphenate ns cs).length + 1 = cs.length + ns.length := by
  induction ns generalizing cs with
  | nil => exact absurd rfl hne
  | cons n ns ih =>
      cases ns with
      | nil => simp [hyphenate]
      | cons m ns =>
          rw [List.sum_cons] at hlen
          have hrest := ih (cs.drop n) (by simp) (by rw [List.length_drop]; omega)
          rw [hyphenate]
          · simp only [List.length_append, List.length_cons, List.length_take,
              List.length_drop] at hrest ⊢
            omega
          · simp

/-- An execution id is read back from its text. -/
theorem parseUuid_display (e : ExecutionId) : parseUuid e.display.toList = some e := by
  have hdigits := length_fixedDigits 16 32 e.uuid.toNat
  have hlen := length_hyphenate uuidGroups (fixedDigits 16 32 e.uuid.toNat) (by simp [uuidGroups])
    (by rw [hdigits]; rfl)
  have hback := unhyphenate_hyphenate uuidGroups (fixedDigits 16 32 e.uuid.toNat)
    (by simp [uuidGroups]) (by rw [hdigits]; rfl)
  have h36 : (hyphenate uuidGroups (fixedDigits 16 32 e.uuid.toNat)).length = 36 := by
    rw [hdigits] at hlen
    simpa [uuidGroups] using hlen
  have hlt : e.uuid.toNat < 16 ^ 32 := by
    have h := e.uuid.isLt
    norm_num at h ⊢
    exact h
  rw [ExecutionId.display, String.toList_ofList, parseUuid, if_neg (by omega), if_pos h36,
    parseHyphenated, hback, Option.bind_some, parseSimple, if_pos hdigits,
    numeral_fixedDigits (by norm_num) (by norm_num), Nat.mod_eq_of_lt hlt]
  simp

/-! ## The code -/

/-- JSON as the registry uses it: what is written is read back. -/
structure StatusCodec where
  toString : PipelineStatus → String
  fromStr : String → Option PipelineStatus
  fromStr_toString : ∀ status, fromStr (toString status) = some status

/-- The text `serde_json` writes. -/
def statusJson : StatusCodec where
  toString := PipelineStatus.toJson
  fromStr := PipelineStatus.fromJson
  fromStr_toString := fromJson_toJson

/-- The strings Redis holds. -/
abbrev RedisStore := String → Option String

/-- A spawned Redis command. -/
inductive RedisTask : Type where
  | setEx (key value : String)
  | del (key : String)
  deriving DecidableEq

def RedisTask.run : RedisTask → RedisStore → RedisStore
  | .setEx key value, redis => Function.update redis key (some value)
  | .del key, redis => Function.update redis key none

def statusPrefix : String := "lobby:status:"

/-- The key `set` writes. -/
def statusKey (e : ExecutionId) : String := statusPrefix ++ e.display

/-- The key `remove` deletes. -/
def stateKey (e : ExecutionId) : String := "lobby:state:" ++ e.display

/-- A call of the registry. -/
inductive RegistryCall : Type where
  | set (e : ExecutionId) (status : PipelineStatus)
  | remove (e : ExecutionId)
  deriving DecidableEq

/-- The registry, with the spawned tasks in the order of the calls. -/
structure RedisRegistry where
  statusBook : ExecutionId → Option PipelineStatus
  redis : RedisStore
  spawned : List RedisTask

/-- The execution a key of the scan is parsed as. -/
def keyOwner (key : String) : Option ExecutionId :=
  (stripPrefix statusPrefix.toList key.toList).bind parseUuid

/-- One key of the scan: a key that does not parse, is gone or holds no status is skipped. -/
def loadKey (codec : StatusCodec) (redis : RedisStore)
    (statusBook : ExecutionId → Option PipelineStatus) (key : String) :
    ExecutionId → Option PipelineStatus :=
  match keyOwner key with
  | none => statusBook
  | some e =>
    match (redis key).bind codec.fromStr with
    | none => statusBook
    | some status => Function.update statusBook e (some status)

/-- The keys `SCAN` returns under `MATCH lobby:status:*`: all of them, in any order, some
perhaps more than once. -/
def Scanned (redis : RedisStore) (keys : List String) : Prop :=
  ∀ key, key ∈ keys ↔
    (redis key).isSome ∧ (stripPrefix statusPrefix.toList key.toList).isSome

namespace RedisRegistry

/-- `new` over what is in Redis. -/
def new (codec : StatusCodec) (redis : RedisStore) (keys : List String) : RedisRegistry where
  statusBook := keys.foldl (loadKey codec redis) fun _ => none
  redis := redis
  spawned := []

/-- `set`. -/
def set (codec : StatusCodec) (r : RedisRegistry) (e : ExecutionId)
    (status : PipelineStatus) : RedisRegistry where
  statusBook := Function.update r.statusBook e (some status)
  redis := r.redis
  spawned := r.spawned ++ [.setEx (statusKey e) (codec.toString status)]

/-- `remove`. -/
def remove (r : RedisRegistry) (e : ExecutionId) : RedisRegistry where
  statusBook := Function.update r.statusBook e none
  redis := r.redis
  spawned := r.spawned ++ [.del (stateKey e)]

def call (codec : StatusCodec) (r : RedisRegistry) : RegistryCall → RedisRegistry
  | .set e status => r.set codec e status
  | .remove e => r.remove e

/-- A run of a registry opened over `redis₀`, with its calls, the latest first.  The spawned
tasks run one by one, in the order of the calls. -/
inductive Run (codec : StatusCodec) (redis₀ : RedisStore) :
    List RegistryCall → RedisRegistry → Prop where
  | start {keys} (hscan : Scanned redis₀ keys) : Run codec redis₀ [] (new codec redis₀ keys)
  | call {calls r} (h : Run codec redis₀ calls r) (c : RegistryCall) :
      Run codec redis₀ (c :: calls) (r.call codec c)
  | task {calls r t rest} (h : Run codec redis₀ calls r) (hnext : r.spawned = t :: rest) :
      Run codec redis₀ calls ⟨r.statusBook, t.run r.redis, rest⟩

end RedisRegistry

/-! ## What a restart loads -/

/-- The keys that a restart takes for an execution's are the ones `set` writes.  It holds of
an empty Redis, and every registry keeps it (`OwnKeys.run`). -/
def OwnKeys (redis : RedisStore) : Prop :=
  ∀ key e, (redis key).isSome → keyOwner key = some e → key = statusKey e

/-- The status stored for an execution. -/
def stored (codec : StatusCodec) (redis : RedisStore) (e : ExecutionId) :
    Option PipelineStatus :=
  (redis (statusKey e)).bind codec.fromStr

variable {codec : StatusCodec} {redis redis₀ : RedisStore} {keys : List String}
  {calls : List RegistryCall} {r : RedisRegistry} {e : ExecutionId}
  {base : ExecutionId → Option PipelineStatus}

theorem stripPrefix_statusKey (e : ExecutionId) :
    stripPrefix statusPrefix.toList (statusKey e).toList = some e.display.toList := by
  rw [statusKey, String.toList_append, stripPrefix_append]

@[simp] theorem keyOwner_statusKey (e : ExecutionId) : keyOwner (statusKey e) = some e := by
  rw [keyOwner, stripPrefix_statusKey, Option.bind_some, parseUuid_display]

theorem statusKey_injective {e f : ExecutionId} (h : statusKey e = statusKey f) : e = f := by
  have howner := keyOwner_statusKey e
  rw [h, keyOwner_statusKey] at howner
  exact (Option.some.inj howner).symm

/-- **The two keys never meet.**  A key that `remove` deletes is not under the prefix. -/
theorem stripPrefix_stateKey (e : ExecutionId) :
    stripPrefix statusPrefix.toList (stateKey e).toList = none := by
  rw [stateKey, String.toList_append]
  simp [statusPrefix, stripPrefix]

theorem statusKey_ne_stateKey (e f : ExecutionId) : statusKey e ≠ stateKey f := by
  intro h
  have hprefix := stripPrefix_statusKey e
  rw [h, stripPrefix_stateKey] at hprefix
  exact absurd hprefix (by simp)

theorem ownKeys_empty : OwnKeys fun _ => none :=
  fun _ _ hsome => absurd hsome (by simp)

/-- Loading keys over a map: a key overwrites the entry of its execution. -/
theorem foldl_loadKey (hown : OwnKeys redis) (hkeys : ∀ key ∈ keys, (redis key).isSome) :
    keys.foldl (loadKey codec redis) base
      = fun e => if statusKey e ∈ keys then (stored codec redis e).or (base e) else base e := by
  induction keys generalizing base with
  | nil => simp
  | cons key keys ih =>
      rw [List.foldl_cons, ih fun k hk => hkeys k (List.mem_cons_of_mem key hk)]
      have hload : loadKey codec redis base key
          = fun e => if statusKey e = key then (stored codec redis e).or (base e)
            else base e := by
        funext e
        cases howner : keyOwner key with
        | none =>
            have hne : statusKey e ≠ key := by
              rintro rfl
              simp at howner
            rw [if_neg hne, loadKey, howner]
        | some f =>
            have hkey := hown key f (hkeys key List.mem_cons_self) howner
            subst hkey
            rw [loadKey, howner]
            by_cases he : e = f
            · subst he
              rw [if_pos rfl, stored]
              cases (redis (statusKey e)).bind codec.fromStr <;> simp
            · rw [if_neg fun h => he (statusKey_injective h)]
              cases (redis (statusKey f)).bind codec.fromStr <;> simp [he]
      funext e
      rw [hload]
      by_cases hhead : statusKey e = key
      · cases hstored : stored codec redis e <;> simp [hhead, hstored]
      · by_cases htail : statusKey e ∈ keys <;> simp [hhead, htail]

/-- **What `new` loads** is what is stored under the written keys, whatever the order of the
scan. -/
theorem new_statusBook (hown : OwnKeys redis) (hscan : Scanned redis keys) :
    (RedisRegistry.new codec redis keys).statusBook = stored codec redis := by
  rw [RedisRegistry.new, foldl_loadKey hown fun key hkey => ((hscan key).mp hkey).1]
  funext e
  by_cases hmem : statusKey e ∈ keys
  · simp [hmem]
  · have hnone : redis (statusKey e) = none := by
      by_contra hsome
      refine hmem ((hscan _).mpr ⟨Option.isSome_iff_ne_none.mpr hsome, ?_⟩)
      rw [stripPrefix_statusKey]
      rfl
    simp [hmem, stored, hnone]

/-! ## What the tasks leave -/

/-- The task a call spawns. -/
def RegistryCall.task (codec : StatusCodec) : RegistryCall → RedisTask
  | .set e status => .setEx (statusKey e) (codec.toString status)
  | .remove e => .del (stateKey e)

/-- The map in memory after some calls. -/
def bookAfter (base : ExecutionId → Option PipelineStatus) :
    List RegistryCall → ExecutionId → Option PipelineStatus
  | [] => base
  | .set e status :: calls => Function.update (bookAfter base calls) e (some status)
  | .remove e :: calls => Function.update (bookAfter base calls) e none

/-- What a restart finds after the tasks of some calls: the removals are not seen. -/
def restoredAfter (base : ExecutionId → Option PipelineStatus) :
    List RegistryCall → ExecutionId → Option PipelineStatus
  | [] => base
  | .set e status :: calls => Function.update (restoredAfter base calls) e (some status)
  | .remove _ :: calls => restoredAfter base calls

/-- A written status is stored for its execution, and for no other one. -/
theorem stored_setEx (e : ExecutionId) (status : PipelineStatus) :
    stored codec ((RedisTask.setEx (statusKey e) (codec.toString status)).run redis)
      = Function.update (stored codec redis) e (some status) := by
  funext f
  rw [stored, RedisTask.run]
  by_cases hf : f = e
  · subst hf
    rw [Function.update_self, Function.update_self, Option.bind_some, codec.fromStr_toString]
  · rw [Function.update_of_ne fun h => hf (statusKey_injective h), Function.update_of_ne hf,
      stored]

/-- A deletion changes nothing that is stored. -/
theorem stored_del (e : ExecutionId) :
    stored codec ((RedisTask.del (stateKey e)).run redis) = stored codec redis := by
  funext f
  rw [stored, RedisTask.run, Function.update_of_ne (statusKey_ne_stateKey f e), stored]

theorem OwnKeys.task (hown : OwnKeys redis) (c : RegistryCall) :
    OwnKeys ((c.task codec).run redis) := by
  intro key f hsome howner
  cases c with
  | set e status =>
      rw [RegistryCall.task, RedisTask.run] at hsome
      by_cases hkey : key = statusKey e
      · subst hkey
        rw [keyOwner_statusKey] at howner
        cases howner
        rfl
      · rw [Function.update_of_ne hkey] at hsome
        exact hown key f hsome howner
  | remove e =>
      rw [RegistryCall.task, RedisTask.run] at hsome
      by_cases hkey : key = stateKey e
      · subst hkey
        simp at hsome
      · rw [Function.update_of_ne hkey] at hsome
        exact hown key f hsome howner

/-- Redis once the tasks of some calls have run. -/
def redisAfter (codec : StatusCodec) (redis₀ : RedisStore) : List RegistryCall → RedisStore
  | [] => redis₀
  | c :: calls => (c.task codec).run (redisAfter codec redis₀ calls)

theorem OwnKeys.after (hown : OwnKeys redis₀) (calls : List RegistryCall) :
    OwnKeys (redisAfter codec redis₀ calls) := by
  induction calls with
  | nil => exact hown
  | cons c calls ih => exact ih.task c

theorem stored_redisAfter (calls : List RegistryCall) :
    stored codec (redisAfter codec redis₀ calls) = restoredAfter (stored codec redis₀) calls := by
  induction calls with
  | nil => rfl
  | cons c calls ih =>
      cases c with
      | set e status =>
          rw [redisAfter, RegistryCall.task, stored_setEx, ih, restoredAfter]
      | remove e => exact (stored_del e).trans ih

open RedisRegistry in
theorem bookAfter_of_run (h : Run codec redis₀ calls r) (hown : OwnKeys redis₀) :
    r.statusBook = bookAfter (stored codec redis₀) calls := by
  induction h with
  | start hscan => exact new_statusBook hown hscan
  | call _ c ih => cases c <;> exact congrArg (Function.update · _ _) ih
  | task _ _ ih => exact ih

open RedisRegistry in
/-- The tasks that have run and the ones still to run are those of the calls. -/
theorem redisAfter_of_run (h : Run codec redis₀ calls r) :
    r.spawned.foldl (fun redis t => t.run redis) r.redis = redisAfter codec redis₀ calls := by
  induction h with
  | start => rfl
  | call _ c ih =>
      cases c <;>
      · rw [redisAfter, ← ih]
        exact List.foldl_concat _ _ _ _
  | task _ hnext ih => rw [← ih, hnext, List.foldl_cons]

open RedisRegistry in
theorem redis_of_run (h : Run codec redis₀ calls r) (hdone : r.spawned = []) :
    r.redis = redisAfter codec redis₀ calls := by
  rw [← redisAfter_of_run h, hdone, List.foldl_nil]

open RedisRegistry in
/-- A registry keeps the keys of Redis its own. -/
theorem OwnKeys.run (hown : OwnKeys redis₀) (h : Run codec redis₀ calls r)
    (hdone : r.spawned = []) : OwnKeys r.redis := by
  rw [redis_of_run h hdone]
  exact hown.after calls

/-! ## Removed executions -/

/-- Every removed execution that had a status before is given one again later. -/
def NoLostRemoval (base : ExecutionId → Option PipelineStatus)
    (calls : List RegistryCall) : Prop :=
  ∀ later e earlier, calls = later ++ .remove e :: earlier →
    ((base e).isSome ∨ ∃ status, .set e status ∈ earlier) → ∃ status, .set e status ∈ later

theorem restoredAfter_eq_none :
    restoredAfter base calls e = none ↔
      ¬ ((base e).isSome ∨ ∃ status, .set e status ∈ calls) := by
  induction calls with
  | nil => simp [restoredAfter]
  | cons c calls ih =>
      cases c with
      | set f status =>
          by_cases hf : e = f
          · subst hf
            simp only [restoredAfter, Function.update_self]
            simp
          · rw [restoredAfter, Function.update_of_ne hf, ih]
            simp [hf]
      | remove f => simpa [restoredAfter] using ih

/-- An element of `c :: calls` is `c` or one of `calls`. -/
theorem forall_split_cons {α : Type*} {P : List α → List α → Prop} {a c : α} {calls : List α} :
    (∀ later earlier, c :: calls = later ++ a :: earlier → P later earlier)
      ↔ (c = a → P [] calls)
        ∧ ∀ later earlier, calls = later ++ a :: earlier → P (c :: later) earlier := by
  constructor
  · refine fun h => ⟨fun hc => h [] calls (by rw [hc, List.nil_append]), ?_⟩
    intro later earlier hcalls
    exact h (c :: later) earlier (by rw [hcalls, List.cons_append])
  · rintro ⟨hhead, htail⟩ later earlier hcalls
    cases later with
    | nil =>
        cases hcalls
        exact hhead rfl
    | cons c' later =>
        rw [List.cons_append] at hcalls
        obtain ⟨rfl, hrest⟩ := List.cons_eq_cons.mp hcalls
        exact htail later earlier hrest

/-- One execution: the two maps agree on it when no removal of it is its last word. -/
theorem bookAfter_eq_restoredAfter_iff (calls : List RegistryCall) :
    restoredAfter base calls e = bookAfter base calls e ↔
      ∀ later earlier, calls = later ++ .remove e :: earlier →
        ((base e).isSome ∨ ∃ status, .set e status ∈ earlier) →
          ∃ status, .set e status ∈ later := by
  induction calls with
  | nil => simp [restoredAfter, bookAfter]
  | cons c calls ih =>
      rw [forall_split_cons]
      cases c with
      | set f status =>
          by_cases hf : e = f
          · subst hf
            simp only [restoredAfter, bookAfter, Function.update_self, reduceCtorEq,
              false_implies, true_and, true_iff]
            exact fun later _ _ _ => ⟨status, List.mem_cons_self⟩
          · simp only [restoredAfter, bookAfter, Function.update_of_ne hf, ih, reduceCtorEq,
              false_implies, true_and, List.mem_cons, RegistryCall.set.injEq, hf, false_and,
              false_or]
      | remove f =>
          by_cases hf : e = f
          · subst hf
            simp only [restoredAfter, bookAfter, Function.update_self, restoredAfter_eq_none,
              forall_const, List.not_mem_nil, exists_false, imp_false, List.mem_cons,
              reduceCtorEq, false_or]
            refine ⟨fun h => ⟨h, fun later earlier hcalls hbefore => absurd ?_ h⟩, And.left⟩
            refine hbefore.imp_right fun ⟨status, hmem⟩ => ⟨status, ?_⟩
            rw [hcalls]
            exact List.mem_append_right later (List.mem_cons_of_mem _ hmem)
          · simp only [restoredAfter, bookAfter, Function.update_of_ne hf, ih,
              RegistryCall.remove.injEq, Ne.symm hf, false_implies, true_and, List.mem_cons,
              reduceCtorEq, false_or]

open RedisRegistry in
/-- **A restart restores the registry** exactly when every removed execution that had a
status before is given one again later. -/
theorem restart_restores_iff (hown : OwnKeys redis₀) (h : Run codec redis₀ calls r)
    (hdone : r.spawned = []) (hscan : Scanned r.redis keys) :
    (new codec r.redis keys).statusBook = r.statusBook ↔
      NoLostRemoval (stored codec redis₀) calls := by
  rw [new_statusBook (hown.run h hdone) hscan, bookAfter_of_run h hown, redis_of_run h hdone,
    stored_redisAfter, funext_iff]
  constructor
  · exact fun heq later e earlier => (bookAfter_eq_restoredAfter_iff calls).mp (heq e) later earlier
  · exact fun hkept e =>
      (bookAfter_eq_restoredAfter_iff calls).mpr fun later earlier => hkept later e earlier

/-! ## Without removals -/

/-- The calls of `set`, as the registry without its keys sees them. -/
def setWrites (calls : List RegistryCall) : List StatusWrite :=
  calls.filterMap fun
    | .set e status => some ⟨e, status⟩
    | .remove _ => none

/-- The task of a call of `set`. -/
def writeTask (codec : StatusCodec) (x : StatusWrite) : RedisTask :=
  .setEx (statusKey x.executionId) (codec.toString x.status)

/-- **The keys and the JSON are a refinement.**  Without removals every run is a run of
`StatusRegistry` over what is stored, with the same map in memory. -/
theorem run_refines (hown : OwnKeys redis₀) (h : RedisRegistry.Run codec redis₀ calls r)
    (hset : ∀ e, .remove e ∉ calls) :
    ∃ writes s queue,
      StatusRegistry.Run ⟨fun _ => none, stored codec redis₀, []⟩ (setWrites calls) writes s
      ∧ s.statusBook = r.statusBook ∧ s.redis = stored codec r.redis
      ∧ r.spawned = queue.map (writeTask codec) ∧ s.spawned.Perm queue := by
  induction h with
  | start hscan =>
      exact ⟨[], _, [], .start, (new_statusBook hown hscan).symm, rfl, rfl, List.Perm.refl _⟩
  | call _ c ih =>
      obtain ⟨writes, s, queue, hrun, hbook, hredis, hspawned, hperm⟩ :=
        ih fun e he => hset e (List.mem_cons_of_mem c he)
      cases c with
      | set e status =>
          refine ⟨writes, s.set ⟨e, status⟩, queue ++ [⟨e, status⟩], .set hrun _, ?_, hredis,
            ?_, ?_⟩
          · exact congrArg (Function.update · e (some status)) hbook
          · rw [List.map_append, ← hspawned]
            rfl
          · exact (hperm.cons _).trans (List.perm_append_singleton _ _).symm
      | remove e => exact absurd List.mem_cons_self (hset e)
  | task _ hnext ih =>
      obtain ⟨writes, s, queue, hrun, hbook, hredis, hspawned, hperm⟩ := ih hset
      cases queue with
      | nil =>
          rw [hnext] at hspawned
          exact absurd hspawned (by simp)
      | cons x queue =>
          rw [hnext, List.map_cons] at hspawned
          obtain ⟨rfl, rfl⟩ := List.cons_eq_cons.mp hspawned
          refine ⟨x :: writes, s.write x, queue,
            .write hrun (hperm.symm.subset List.mem_cons_self), hbook, ?_, rfl, ?_⟩
          · rw [writeTask, stored_setEx, ← hredis]
            rfl
          · have herase := hperm.erase x
            rwa [List.erase_cons_head] at herase

/-! ## Removing an execution -/

/-- The tasks of any calls can be run to their end. -/
theorem exists_run (codec : StatusCodec) (hscan : Scanned redis₀ keys) (calls : List RegistryCall) :
    ∃ r, RedisRegistry.Run codec redis₀ calls r ∧ r.spawned = [] := by
  induction calls with
  | nil => exact ⟨_, .start hscan, rfl⟩
  | cons c calls ih =>
      obtain ⟨r, hrun, hdone⟩ := ih
      have hnext : (r.call codec c).spawned = c.task codec :: [] := by
        cases c <;>
        · rw [RegistryCall.task, RedisRegistry.call]
          first | rw [RedisRegistry.set, hdone] | rw [RedisRegistry.remove, hdone]
          rfl
      exact ⟨_, .task (.call hrun c) hnext, rfl⟩

theorem scanned_setEx (hscan : Scanned redis keys) (e : ExecutionId) (value : String) :
    Scanned ((RedisTask.setEx (statusKey e) value).run redis) (statusKey e :: keys) := by
  intro key
  rw [List.mem_cons, hscan key, RedisTask.run]
  by_cases hkey : key = statusKey e
  · subst hkey
    simp [stripPrefix_statusKey]
  · simp [hkey]

theorem scanned_del (hscan : Scanned redis keys) (e : ExecutionId) :
    Scanned ((RedisTask.del (stateKey e)).run redis) keys := by
  intro key
  rw [hscan key, RedisTask.run]
  by_cases hkey : key = stateKey e
  · subst hkey
    simp [stripPrefix_stateKey]
  · simp [hkey]

theorem scanned_empty : Scanned (fun _ => none) [] := fun key => by simp

/-- An execution that is removed and set again is restored. -/
theorem restart_restores_setAgain :
    ∃ r keys, (RedisRegistry.new statusJson r.redis keys).statusBook = r.statusBook
      ∧ RedisRegistry.Run statusJson (fun _ => none)
        [.set ⟨1⟩ .signed, .remove ⟨1⟩, .set ⟨1⟩ .accepted] r := by
  obtain ⟨r, hrun, hdone⟩ := exists_run statusJson scanned_empty
    [.set ⟨1⟩ .signed, .remove ⟨1⟩, .set ⟨1⟩ .accepted]
  have hscan : Scanned r.redis [statusKey ⟨1⟩, statusKey ⟨1⟩] := by
    rw [redis_of_run hrun hdone]
    exact scanned_setEx (scanned_del (scanned_setEx scanned_empty _ _) _) _ _
  refine ⟨r, _, (restart_restores_iff ownKeys_empty hrun hdone hscan).mpr ?_, hrun⟩
  -- only the second call is a removal, and the first one is the `set` after it
  intro later e earlier hcalls _
  rcases later with _ | ⟨c, _ | ⟨c', later⟩⟩
  · simp at hcalls
  · simp only [List.cons_append, List.nil_append, List.cons.injEq,
      RegistryCall.remove.injEq] at hcalls
    obtain ⟨rfl, rfl, -⟩ := hcalls
    exact ⟨.signed, List.mem_singleton_self _⟩
  · rcases later with _ | ⟨c'', later⟩ <;> simp at hcalls

/-- An execution that is removed is back after the restart. -/
theorem restart_restores_removed :
    ∃ r keys, RedisRegistry.Run statusJson (fun _ => none) [.remove ⟨1⟩, .set ⟨1⟩ .accepted] r
      ∧ r.spawned = [] ∧ Scanned r.redis keys ∧ r.statusBook ⟨1⟩ = none
      ∧ (RedisRegistry.new statusJson r.redis keys).statusBook ⟨1⟩ = some .accepted := by
  obtain ⟨r, hrun, hdone⟩ := exists_run statusJson scanned_empty
    [.remove ⟨1⟩, .set ⟨1⟩ .accepted]
  have hscan : Scanned r.redis [statusKey ⟨1⟩] := by
    rw [redis_of_run hrun hdone]
    exact scanned_del (scanned_setEx scanned_empty _ _) _
  refine ⟨r, _, hrun, hdone, hscan, ?_, ?_⟩
  · rw [bookAfter_of_run hrun ownKeys_empty]
    rfl
  · rw [new_statusBook (ownKeys_empty.run hrun hdone) hscan, redis_of_run hrun hdone,
      stored_redisAfter]
    rfl

end Lobby
