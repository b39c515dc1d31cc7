/-
# The server

The requests of a server, the actors behind it and the relay host's table run together: a
request that authenticates and normalises becomes the submission of its execution, and the
pipeline and the actors of `Lobby.Shards` run over the tables of `Lobby.System`, the intents of
`Lobby.RelayHost` and the statuses of `Lobby.StatusRegistry`.  Statements may fail or lose their
acknowledgement, and the writes to Redis run late, fail, or expire.

* `sent_as_requested`: what is handed to the network is what an authenticated client has asked
  for, stored and signed with its key.
* `intents_as_requested`: the table of intents holds what was asked for, once.
* `shown_hash_answered`: a hash in a response, before or after a crash, was answered by a node.
-/
import Lobby.Gateway
import Lobby.Integrity
import Lobby.OwnCalls
import Lobby.RelayHostEngine

namespace Lobby

open Interaction Prog

/-! ## The world of a server -/

/-- The system, the intents of the relay host, and the statuses in Redis. -/
structure ServerWorld where
  world : World
  intents : TransactionIntents
  redis : ExecutionId → Option PipelineStatus
  /-- the writes to Redis that have not run -/
  spawned : List StatusWrite

/-- What the model leaves open about one call. -/
structure ServerChoice where
  choice : Choice
  fault : RelayHostQuery → DatabaseFault

inductive ServerEvent : Type where
  | outside (event : OutsideEvent)
  /-- a spawned write runs -/
  | write (x : StatusWrite)
  /-- a spawned write fails -/
  | drop (x : StatusWrite)
  /-- a key in Redis comes to the end of its hour -/
  | expire (e : ExecutionId)
  deriving DecidableEq

namespace ServerWorld

def registry (w : ServerWorld) : StatusRegistry := ⟨w.world.statuses, w.redis, w.spawned⟩

def withRegistry (w : ServerWorld) (r : StatusRegistry) : ServerWorld where
  world := { w.world with statuses := r.statusBook }
  intents := w.intents
  redis := r.redis
  spawned := r.spawned

/-- One call of an execution.  The statements of a registration run as one: those of the same
execution are with one actor, and those of others are on other rows. -/
def perform (w : ServerWorld) (e : ExecutionId) (choice : ServerChoice) :
    (c : EngineCall) → Option (c.Reply × ServerWorld)
  | .outside (.registerTransaction executionId txn clientConfig) =>
    let answer := submitIntent choice.fault w.intents executionId txn clientConfig
    some (answer.1, { w with intents := answer.2 })
  | .outside (.setStatus executionId status) =>
    some ((), w.withRegistry (w.registry.set ⟨executionId, status⟩))
  | c => (w.world.perform e choice.choice c).map fun answer =>
      (answer.1, { w with world := answer.2 })

def external (w : ServerWorld) : ServerEvent → Option ServerWorld
  | .outside event => some { w with world := w.world.outside event }
  | .write x => if x ∈ w.spawned then some (w.withRegistry (w.registry.write x)) else none
  | .drop x => if x ∈ w.spawned then some { w with spawned := w.spawned.erase x } else none
  | .expire e => some { w with redis := Function.update w.redis e none }

end ServerWorld

def serverMachine :
    Machine ExecutionId ServerChoice ServerEvent EngineCall EngineCall.Reply ServerWorld where
  perform e choice c w := w.perform e choice c
  external event w := w.external event

abbrev ServerState : Type :=
  Office.Config ExecutionId Actor PipelineCall PipelineCall.Reply EngineCall EngineCall.Reply
    ServerWorld (Except BackpressureTimeout Unit)

/-- A run of the actors and the pipelines of a server. -/
abbrev Deployment.Serves (d : Deployment) (config : CortexConfig) (hash : ShardKey → UInt64)
    (w₀ : ServerWorld) (movers : List (Option ExecutionId)) (s : ServerState) : Prop :=
  (d.cortex config hash).Runs serverMachine .free (Office.start d.submitted w₀) movers s

/-- The deployment whose submissions are what the requests hand over. -/
def Deployment.serving (d : Deployment) (apiRegistry : ApiRegistry) (ruint : Ruint)
    (requests : ExecutionId → Option PostRequest) : Deployment :=
  { d with
    submission := fun e =>
      match (requests e).bind fun request => request.handOver apiRegistry ruint e with
      | some (.ok s) => some ⟨s.clientConfig, s.txn⟩
      | _ => none }

/-- The submitted executions are new. -/
structure ServerWorld.New (d : Deployment) (w : ServerWorld) : Prop where
  world : w.world.Fresh d
  statuses : ∀ e, d.submission e ≠ none → w.world.statuses e = none
  intents : ∀ row ∈ w.intents.rows, d.submission row.executionId = none
  redis : ∀ e, d.submission e ≠ none → w.redis e = none
  spawned : ∀ x ∈ w.spawned, d.submission x.executionId = none

/-! ## What one call does -/

section performs

variable {w w' : ServerWorld} {e : ExecutionId} {choice : ServerChoice} {c : EngineCall}
  {r : c.Reply}

/-- A call on behalf of an execution: a registration, a status, or a call of the system. -/
inductive ServerWorld.Performs (w : ServerWorld) (e : ExecutionId) :
    (c : EngineCall) → c.Reply → ServerWorld → Prop where
  | register (fault executionId txn clientConfig r t)
      (h : submitIntent fault w.intents executionId txn clientConfig = (r, t)) :
      Performs w e (.outside (.registerTransaction executionId txn clientConfig)) r
        { w with intents := t }
  | status (executionId status) :
      Performs w e (.outside (.setStatus executionId status)) ()
        (w.withRegistry (w.registry.set ⟨executionId, status⟩))
  | system (choice c r world)
      (hregister : ∀ executionId txn clientConfig,
        c ≠ .outside (.registerTransaction executionId txn clientConfig))
      (hstatus : ∀ executionId status, c ≠ .outside (.setStatus executionId status))
      (h : w.world.perform e choice c = some (r, world)) :
      Performs w e c r { w with world := world }

/-- Every call is one of these. -/
theorem ServerWorld.performs_of_perform (h : w.perform e choice c = some (r, w')) :
    w.Performs e c r w' := by
  have hsystem : ∀ {c : EngineCall} {r : c.Reply}, (w.world.perform e choice.choice c).map
        (fun answer => (answer.1, ({ w with world := answer.2 } : ServerWorld))) = some (r, w') →
      ∃ world, w.world.perform e choice.choice c = some (r, world)
        ∧ w' = { w with world := world } := by
    intro c r hmap
    obtain ⟨⟨r', world⟩, hperform, heq⟩ := Option.map_eq_some_iff.mp hmap
    cases heq
    exact ⟨world, hperform, rfl⟩
  cases c with
  | outside c =>
      cases c with
      | registerTransaction executionId txn clientConfig =>
          cases h
          exact .register choice.fault executionId txn clientConfig _ _ rfl
      | setStatus executionId status =>
          cases h
          exact .status executionId status
      | _ =>
          obtain ⟨world, hperform, rfl⟩ := hsystem h
          exact .system choice.choice _ _ world (fun _ _ _ hc => nomatch hc)
            (fun _ _ hc => nomatch hc) hperform
  | nonce q =>
      obtain ⟨world, hperform, rfl⟩ := hsystem (c := .nonce q) h
      exact .system choice.choice _ _ world (fun _ _ _ hc => nomatch hc)
        (fun _ _ hc => nomatch hc) hperform
  | sign q =>
      obtain ⟨world, hperform, rfl⟩ := hsystem (c := .sign q) h
      exact .system choice.choice _ _ world (fun _ _ _ hc => nomatch hc)
        (fun _ _ hc => nomatch hc) hperform
  | _ =>
      obtain ⟨world, hperform, rfl⟩ := hsystem h
      exact .system choice.choice _ _ world (fun _ _ _ hc => nomatch hc)
        (fun _ _ hc => nomatch hc) hperform

/-- The surroundings can answer a call with any reply. -/
theorem exists_answer {c : EngineCall} (r : c.Reply) :
    ∃ choice : Choice, choice.answer c = some r := by
  classical
  exact ⟨⟨.none, false, fun c' => if h : c = c' then some (h ▸ r) else none⟩, by simp⟩

/-- A call of a server is one of the system; a registration that the system sees succeed has
left a row. -/
theorem ServerWorld.Performs.project (h : w.Performs e c r w') :
    ∃ choice : Choice, w.world.perform e choice c = some (r, w'.world)
      ∧ ∀ executionId txn clientConfig,
        c = .outside (.registerTransaction executionId txn clientConfig) →
        choice.answer (.outside (.registerTransaction executionId txn clientConfig))
          = some (.ok ()) → w'.intents.holds executionId = true := by
  cases h with
  | register fault executionId txn clientConfig r t h =>
      obtain ⟨choice, hchoice⟩ := exists_answer
        (c := .outside (.registerTransaction executionId txn clientConfig)) r
      refine ⟨choice, ?_, fun executionId' txn' clientConfig' hc hanswer => ?_⟩
      · simp only [World.perform, hchoice, Option.map_some]
      · cases hc
        rw [hchoice] at hanswer
        cases hanswer
        rcases submitIntent_cases h with ⟨rfl, hholds⟩ | ⟨-, -, hrows⟩
        · exact hholds rfl
        · simp [TransactionIntents.holds, hrows, intentOf]
  | status executionId status =>
      refine ⟨.smooth, rfl, fun _ _ _ hc => ?_⟩
      cases hc
  | system choice c r world hregister hstatus h =>
      exact ⟨choice, h, fun _ _ _ hc => absurd hc (hregister _ _ _)⟩

end performs

/-! ## The table of intents -/

/-- The row of a submission is in the table, and its transaction passes the linter. -/
def ServerWorld.Registered (w : ServerWorld) (e : ExecutionId) (s : Submission) : Prop :=
  transactionLint s.txn = .ok () ∧ intentOf e s.txn s.clientConfig ∈ w.intents.rows

/-- The rows are old, or those of submissions that pass the linter. -/
def ServerWorld.Kept (w : ServerWorld) (d : Deployment) (w₀ : ServerWorld) : Prop :=
  w₀.intents.rows ⊆ w.intents.rows
  ∧ ∀ row ∈ w.intents.rows, row ∈ w₀.intents.rows
    ∨ ∃ s, d.submission row.executionId = some s ∧ transactionLint s.txn = .ok ()
      ∧ row = intentOf row.executionId s.txn s.clientConfig

section intents

variable {d : Deployment} {w₀ w w' : ServerWorld} {e : ExecutionId} {s : Submission}
  {c : EngineCall} {r : c.Reply}

/-- A row of the execution is the row of its submission. -/
theorem ServerWorld.Kept.registered (h : w.Kept d w₀) (hnew : w₀.New d)
    (hs : d.submission e = some s) (hholds : w.intents.holds e = true) : w.Registered e s := by
  obtain ⟨row, hrow, rfl⟩ := List.mem_map.mp (of_decide_eq_true hholds)
  rcases h.2 row hrow with hold | ⟨s', hs', hlint, heq⟩
  · rw [hnew.intents row hold] at hs
    cases hs
  · obtain rfl : s' = s := Option.some.inj (hs'.symm.trans hs)
    exact ⟨hlint, heq ▸ hrow⟩

/-- The table only grows, by rows of submissions. -/
theorem ServerWorld.Kept.performs (h : w.Kept d w₀) (hs : d.submission e = some s)
    (hown : c.Own e s) (hperforms : w.Performs e c r w') :
    w'.Kept d w₀ ∧ w.intents.rows ⊆ w'.intents.rows := by
  cases hperforms with
  | register fault executionId txn clientConfig r t hsubmit =>
      obtain ⟨rfl, rfl, rfl⟩ := hown
      rcases submitIntent_cases hsubmit with ⟨rfl, -⟩ | ⟨-, hlint, hrows⟩
      · exact ⟨h, List.Subset.refl _⟩
      · have hgrows : w.intents.rows ⊆ t.rows := by
          rw [hrows]
          exact List.subset_cons_self _ _
        refine ⟨⟨List.Subset.trans h.1 hgrows, fun row hrow => ?_⟩, hgrows⟩
        dsimp only at hrow
        rw [hrows] at hrow
        rcases List.mem_cons.mp hrow with rfl | hrow
        · exact Or.inr ⟨s, hs, hlint, rfl⟩
        · exact h.2 row hrow
  | status | system => exact ⟨h, List.Subset.refl _⟩

theorem intents_external {event : ServerEvent} (h : w.external event = some w') :
    w'.intents = w.intents := by
  cases event with
  | outside | expire =>
      cases h
      rfl
  | write x | drop x =>
      simp only [ServerWorld.external] at h
      split at h
      · cases h
        rfl
      · cases h

end intents

section runs

variable {d : Deployment} {config : CortexConfig} {hash : ShardKey → UInt64}
  {w₀ : ServerWorld} {movers : List (Option ExecutionId)} {s : ServerState}

/-- The table along a run. -/
theorem Deployment.Serves.kept (h : d.Serves config hash w₀ movers s) :
    s.world.Kept d w₀ := by
  refine Office.Runs.preserved (P := fun w => w.Kept d w₀) h
    ⟨List.Subset.refl _, fun row hrow => Or.inl hrow⟩
    (fun hrun hasks hperform _ hkept => ?_) fun hevent hkept => ?_
  · obtain ⟨sub, hsub, hown⟩ := own_of_asks hrun hasks
    exact (hkept.performs hsub hown (ServerWorld.performs_of_perform hperform)).1
  · rw [ServerWorld.Kept, intents_external hevent]
    exact hkept

/-- What a run of a server does is a run over the system whose registrations succeed only for
what is in the table in the end. -/
theorem Deployment.Serves.project (h : d.Serves config hash w₀ movers s) (hnew : w₀.New d) :
    ∃ K : RunConditions, K.Delivers ∧ K.Registers s.world.Registered
      ∧ (d.cortex config hash).Runs machine K (Office.start d.submitted w₀.world) movers
        (s.over s.world.world) := by
  let K : RunConditions :=
    { call := fun _ choice c _ => ∀ executionId txn clientConfig,
        c = .outside (.registerTransaction executionId txn clientConfig) →
        choice.answer (.outside (.registerTransaction executionId txn clientConfig))
          = some (.ok ()) → s.world.Registered executionId ⟨clientConfig, txn⟩
      external := fun _ _ => True }
  let K' : Machine.Conditions ExecutionId ServerChoice ServerEvent EngineCall ServerWorld :=
    { call := fun e _ c w => w.Kept d w₀ ∧ ∃ sub, d.submission e = some sub ∧ c.Own e sub
      external := fun _ _ => True }
  refine ⟨K, ⟨fun _ _ _ _ => ⟨fun _ _ _ hc => (nomatch hc), fun _ _ _ hc => (nomatch hc)⟩,
    fun e choice executionId txn clientConfig w hcall hanswer =>
      hcall executionId txn clientConfig rfl hanswer, ?_⟩⟩
  have hunder : (d.cortex config hash).Runs serverMachine K' (Office.start d.submitted w₀)
      movers s :=
    h.under (fun hrun e choice x hx => ⟨Deployment.Serves.kept hrun, own_of_asks hrun hx⟩)
      fun _ _ => trivial
  refine Office.Runs.project ServerWorld.world (P := fun w => w.intents.rows ⊆ s.world.intents.rows)
    ?_ ?_ hunder (List.Subset.refl _)
  · intro e choice c w r w' hK hperform hsubset
    obtain ⟨hkept, sub, hsub, hown⟩ := hK
    have hperforms := ServerWorld.performs_of_perform hperform
    obtain ⟨hkept', hgrows⟩ := hkept.performs hsub hown hperforms
    obtain ⟨choice', hworld, hregistered⟩ := hperforms.project
    refine ⟨List.Subset.trans hgrows hsubset, choice', ?_, hworld⟩
    intro executionId txn clientConfig hc hanswer
    have hholds := hregistered executionId txn clientConfig hc hanswer
    subst hc
    obtain ⟨rfl, rfl, rfl⟩ := hown
    obtain ⟨hlint, hrow⟩ := hkept'.registered hnew hsub hholds
    exact ⟨hlint, hsubset hrow⟩
  · intro event w w' _ hevent hsubset
    rw [intents_external hevent] at hsubset
    refine ⟨hsubset, ?_⟩
    cases event with
    | outside event =>
        cases hevent
        exact ⟨event, trivial, rfl⟩
    | expire e =>
        cases hevent
        exact ⟨.tick 0, trivial, by simp [machine, World.outside]⟩
    | write x | drop x =>
        simp only [serverMachine, ServerWorld.external] at hevent
        split at hevent
        · cases hevent
          exact ⟨.tick 0, trivial, by simp [machine, World.outside, ServerWorld.withRegistry,
            ServerWorld.registry, StatusRegistry.write]⟩
        · cases hevent

/-- **What a server has sent and shows**, with what is in the table of intents. -/
theorem Deployment.Serves.honest (h : d.Serves config hash w₀ movers s) (hnew : w₀.New d) :
    s.world.world.Honest d s.world.Registered := by
  obtain ⟨K, hdelivers, hregisters, hruns⟩ := h.project hnew
  obtain ⟨_, _, -, -, hreach⟩ := reachable_of_runs hdelivers hruns
  exact honest_of_reachable hregisters
    (hnew.world.honest s.world.Registered hnew.statuses) hreach

/-! ## What was asked for -/

section requests

variable {apiRegistry : ApiRegistry} {ruint : Ruint}
  {requests : ExecutionId → Option PostRequest}

/-- The request of an execution asks for a transaction in the name of a client that has
authenticated. -/
def Requested (apiRegistry : ApiRegistry) (ruint : Ruint)
    (requests : ExecutionId → Option PostRequest) (e : ExecutionId) (clientConfig : ClientConfig)
    (txn : Eip1559Transaction) : Prop :=
  ∃ request, requests e = some request
    ∧ authMiddleware apiRegistry request.authorization = .ok clientConfig
    ∧ Asks ruint clientConfig request.body txn
    ∧ txn.maxPriorityFeePerGas.toNat < txn.maxFeePerGas.toNat

/-- A submission that passes the linter was requested. -/
theorem requested_of_submission {e : ExecutionId} {sub : Submission}
    (hsub : (d.serving apiRegistry ruint requests).submission e = some sub)
    (hlint : transactionLint sub.txn = .ok ()) :
    Requested apiRegistry ruint requests e sub.clientConfig sub.txn := by
  simp only [Deployment.serving] at hsub
  split at hsub
  · rename_i handed hadmit
    cases hsub
    obtain ⟨request, hrequest, hhanded⟩ := Option.bind_eq_some_iff.mp hadmit
    simp only [PostRequest.handOver] at hhanded
    split at hhanded
    · cases hhanded
    · rename_i clientConfig hauth
      obtain ⟨outcome, hsubmit, hok⟩ := Option.map_eq_some_iff.mp hhanded
      cases outcome with
      | error e => cases hok
      | ok s =>
          cases hok
          obtain ⟨hmethod, hparams, heq⟩ := submitTransaction_eq_ok_iff.mp hsubmit
          have hclient : handed.clientConfig = clientConfig := by rw [heq]
          obtain ⟨hgas, hmax, hfee, hpriority, hchain⟩ :=
            (transactionLint_eq_ok_iff handed.txn).mp hlint
          refine ⟨request, hrequest, by rw [hauth, hclient], ?_, hpriority⟩
          rw [hclient]
          exact ⟨hmethod, hparams, hgas, hmax, hfee, hchain⟩
  · cases hsub

/-- **What is sent was asked for.**  Whatever the order of events and whatever fails, what was
handed to the network for an execution is the transaction that an authenticated client has
asked for with its own address, with some nonce; it passes the linter, its row is in the table
of intents, and it is signed with the key in custody for the address of the client.  Unless a
field exceeds its bounds, the bytes read back as the fields that were asked for. -/
theorem sent_as_requested
    (h : (d.serving apiRegistry ruint requests).Serves config hash w₀ movers s)
    (hnew : w₀.New (d.serving apiRegistry ruint requests)) :
    ∀ x ∈ s.world.world.sent, ∃ clientConfig txn key,
      Requested apiRegistry ruint requests x.executionId clientConfig txn
      ∧ intentOf x.executionId txn clientConfig ∈ s.world.intents.rows
      ∧ d.custodyKeys.resolveKey d.crypto clientConfig.fromAddress = .ok key
      ∧ signEip1559Transaction d.crypto { txn with nonce := x.txn.withNonce } key
        = some (.ok x.txn)
      ∧ (Fits { txn with nonce := x.txn.withNonce } → unsignedOfSigned x.txn.rlp.tail
        = encodeEip1559Unsigned { txn with nonce := x.txn.withNonce }) := by
  intro x hx
  obtain ⟨sub, hsub, ⟨hlint, hrow⟩, hgenuine⟩ := (h.honest hnew).sent x hx
  obtain ⟨key, hkey, hsign⟩ := hgenuine
  exact ⟨sub.clientConfig, sub.txn, key, requested_of_submission hsub hlint, hrow, hkey, hsign,
    fun hfits => Deployment.Genuine.fields ⟨key, hkey, hsign⟩ hfits⟩

/-- **The table of intents** keeps its old rows, and a new row is that of a transaction that an
authenticated client has asked for; an execution has no second one. -/
theorem intents_as_requested
    (h : (d.serving apiRegistry ruint requests).Serves config hash w₀ movers s) :
    w₀.intents.rows ⊆ s.world.intents.rows
    ∧ (∀ row ∈ s.world.intents.rows, row ∉ w₀.intents.rows →
      ∃ clientConfig txn, Requested apiRegistry ruint requests row.executionId clientConfig txn
        ∧ row = intentOf row.executionId txn clientConfig)
    ∧ ∀ row ∈ s.world.intents.rows, ∀ row' ∈ s.world.intents.rows,
      row.executionId = row'.executionId → row = row' := by
  obtain ⟨hold, hrows⟩ := h.kept
  refine ⟨hold, fun row hrow hnotOld => ?_, fun row hrow row' hrow' heq => ?_⟩
  · rcases hrows row hrow with hmem | ⟨sub, hsub, hlint, heq⟩
    · exact absurd hmem hnotOld
    · exact ⟨sub.clientConfig, sub.txn, requested_of_submission hsub hlint, heq⟩
  · exact List.inj_on_of_nodup_map s.world.intents.primaryKey hrow hrow' heq

end requests

/-! ## What is shown -/

/-- The statuses on their way to Redis, and those in it, have no hashes but those that were
answered. -/
structure ServerWorld.Shown (w : ServerWorld) (d : Deployment) : Prop where
  spawned : ∀ x ∈ w.spawned, d.submission x.executionId ≠ none →
    w.world.Shows x.executionId x.status
  redis : ∀ e status, d.submission e ≠ none → w.redis e = some status → w.world.Shows e status

theorem ServerWorld.New.shown (h : w₀.New d) : w₀.Shown d where
  spawned x hx hsub := absurd (h.spawned x hx) hsub
  redis e status hsub hstatus := by
    rw [h.redis e hsub] at hstatus
    cases hstatus

/-- A call adds at most the status that is current then. -/
theorem ServerWorld.Shown.performs {w w' : ServerWorld} {e : ExecutionId} {c : EngineCall}
    {r : c.Reply} (hw : w.Shown d) (h : w.Performs e c r w')
    (hstatuses : ∀ e status, d.submission e ≠ none → w'.world.statuses e = some status →
      w'.world.Shows e status) : w'.Shown d := by
  cases h with
  | register => exact ⟨hw.spawned, hw.redis⟩
  | status executionId status =>
      refine ⟨fun x hx hsub => ?_, hw.redis⟩
      rcases List.mem_cons.mp hx with rfl | hx
      · exact hstatuses executionId status hsub (Function.update_self ..)
      · exact hw.spawned x hx hsub
  | system choice c r world hregister hstatus hperform =>
      have hsent := sent_subset_of_perform hperform
      exact ⟨fun x hx hsub => (hw.spawned x hx hsub).mono hsent,
        fun e status hsub hredis => (hw.redis e status hsub hredis).mono hsent⟩

/-- What happens outside the pipelines adds nothing. -/
theorem ServerWorld.Shown.external {w w' : ServerWorld} {event : ServerEvent} (hw : w.Shown d)
    (h : w.external event = some w') : w'.Shown d := by
  cases event with
  | outside event =>
      cases h
      have hsent : w.world.sent ⊆ (w.world.outside event).sent := by
        rw [sent_outside]
        exact List.Subset.refl _
      exact ⟨fun x hx hsub => (hw.spawned x hx hsub).mono hsent,
        fun e status hsub hredis => (hw.redis e status hsub hredis).mono hsent⟩
  | write x =>
      simp only [ServerWorld.external] at h
      split at h
      · rename_i hx
        cases h
        refine ⟨fun y hy => hw.spawned y (List.mem_of_mem_erase hy),
          fun e status hsub hredis => ?_⟩
        -- the key that is written now holds what was on its way
        simp only [ServerWorld.withRegistry, ServerWorld.registry, StatusRegistry.write] at hredis
        by_cases he : e = x.executionId
        · subst he
          rw [Function.update_self] at hredis
          cases hredis
          exact hw.spawned x hx hsub
        · rw [Function.update_of_ne he] at hredis
          exact hw.redis e status hsub hredis
      · cases h
  | drop x =>
      simp only [ServerWorld.external] at h
      split at h
      · cases h
        exact ⟨fun y hy => hw.spawned y (List.mem_of_mem_erase hy), hw.redis⟩
      · cases h
  | expire e₁ =>
      cases h
      refine ⟨hw.spawned, fun e status hsub hredis => ?_⟩
      dsimp only at hredis
      by_cases he : e = e₁
      · subst he
        rw [Function.update_self] at hredis
        cases hredis
      · rw [Function.update_of_ne he] at hredis
        exact hw.redis e status hsub hredis

theorem Deployment.Serves.shown (h : d.Serves config hash w₀ movers s) (hnew : w₀.New d) :
    s.world.Shown d := by
  refine Office.Runs.preserved (P := fun w => w.Shown d) h hnew.shown
    (fun _ _ hperform hrun' hshown => ?_) fun hevent hshown => hshown.external hevent
  exact hshown.performs (ServerWorld.performs_of_perform hperform)
    (Deployment.Serves.honest hrun' hnew).statuses

/-- What a response with a status says about the registry. -/
theorem getStatus_eq_status {apiRegistry : ApiRegistry} {registry : StatusRegistry}
    {authorization : Option (List UInt8)} {rawId json : String}
    (h : getStatus apiRegistry registry authorization rawId = ⟨200, .status json⟩) :
    ∃ e status, parseUuid rawId.toList = some e ∧ registry.get e = some status
      ∧ readStatusResponse json = some (rawId, status) := by
  unfold getStatus at h
  split at h
  · rename_i err _
    cases err <;> cases h
  · unfold getTransactionStatus at h
    cases hid : parseUuid rawId.toList with
    | none =>
        rw [hid] at h
        cases h
    | some e =>
        rw [hid] at h
        dsimp only at h
        cases hget : registry.get e with
        | none =>
            rw [hget] at h
            cases h
        | some status =>
            rw [hget] at h
            cases h
            exact ⟨e, status, rfl, hget, readStatusResponse_statusResponseJson rawId status⟩

theorem getStatus_of_get {apiRegistry : ApiRegistry} {registry : StatusRegistry}
    {authorization : Option (List UInt8)} {clientConfig : ClientConfig} {rawId : String}
    {e : ExecutionId} {status : PipelineStatus}
    (hauth : authMiddleware apiRegistry authorization = .ok clientConfig)
    (hid : parseUuid rawId.toList = some e) (hget : registry.get e = some status) :
    getStatus apiRegistry registry authorization rawId
      = ⟨200, .status (statusResponseJson rawId status)⟩ := by
  simp only [getStatus, hauth, getTransactionStatus, hid, hget]

/-- **A hash that is shown was answered.**  Whatever has happened, if a response to a request for
the status of an execution shows a transaction hash, be it from the registry of the server or
from the one that a restart would load from Redis, then a node has answered with that hash when
it was handed a transaction of that execution, and that transaction is genuine. -/
theorem shown_hash_answered (h : d.Serves config hash w₀ movers s) (hnew : w₀.New d)
    {apiRegistry : ApiRegistry} {authorization : Option (List UInt8)} {rawId json id text : String}
    {status : PipelineStatus} {e : ExecutionId} {registry : StatusRegistry}
    (hregistry : registry = s.world.registry ∨ registry = s.world.registry.restart)
    (hresponse : getStatus apiRegistry registry authorization rawId = ⟨200, .status json⟩)
    (hread : readStatusResponse json = some (id, status)) (htext : status.shownHash = some text)
    (hid : parseUuid rawId.toList = some e) (hsub : d.submission e ≠ none) :
    id = rawId ∧ ∃ x ∈ s.world.world.sent, x.executionId = e
      ∧ (∃ txHash, x.reply = .ok txHash ∧ lowerHex txHash.bytes = text)
      ∧ ∃ sub, d.submission e = some sub ∧ d.Genuine sub x.txn := by
  obtain ⟨e', status', hid', hget, hread'⟩ := getStatus_eq_status hresponse
  rw [hread'] at hread
  cases hread
  obtain rfl : e' = e := Option.some.inj (hid'.symm.trans hid)
  have hhonest := h.honest hnew
  have hshows : s.world.world.Shows e' status := by
    rcases hregistry with rfl | rfl
    · exact hhonest.statuses e' status hsub hget
    · exact (h.shown hnew).redis e' status hsub hget
  obtain ⟨txHash, ⟨x, hx, howner, hreply⟩, hhex⟩ := hshows text htext
  obtain ⟨sub, hsub', -, hgenuine⟩ := hhonest.sent x hx
  rw [howner] at hsub'
  exact ⟨rfl, x, hx, howner, ⟨txHash, hreply, hhex⟩, sub, hsub', hgenuine⟩

end runs

/-! ## A server to run -/

/-- The transfer of `sampleTxn`, by the client of `sampleKeyVars`. -/
def sampleRequest : PostRequest where
  authorization := some sampleBearer
  body :=
    { jsonrpc := "2.0"
      method := "eth_sendRawTransaction"
      params := [{ chainIdRequest "0x1" with
        fromAddress := sampleAccount, toAddress := some (.ofByte 0x11), gas := some "0x5208"
        maxFeePerGas := some "0x2", maxPriorityFeePerGas := some "0x1", value := some "0x1" }]
      id := "1" }

def samplePosts (e : ExecutionId) : Option PostRequest :=
  if e.uuid = 1 ∨ e.uuid = 2 then some sampleRequest else none

abbrev sampleServer : Deployment := sampleDeployment.serving sampleRegistry ruintUint samplePosts

def ServerWorld.empty : ServerWorld := ⟨.empty, emptyIntents, fun _ => none, []⟩

theorem ServerWorld.new_empty (d : Deployment) : ServerWorld.empty.New d where
  world := World.fresh_empty d
  statuses _ _ := rfl
  intents _ hrow := nomatch hrow
  redis _ _ := rfl
  spawned _ hx := nomatch hx

abbrev CortexServerEvent : Type := Office.Event ExecutionId Actor ServerChoice ServerEvent

def ServerChoice.smooth : ServerChoice := ⟨.smooth, fun _ => .none⟩

/-- The request runs until its transaction is sent and the hash is shown and stored. -/
def sampleServerEvents : List CortexServerEvent :=
  let own : List CortexServerEvent := [.issue ⟨1⟩, .work ⟨1⟩ .smooth, .resume ⟨1⟩]
  let answer := fun (k : Actor) (n : ℕ) => ([.issue ⟨1⟩, .take k]
    ++ List.replicate n (.serve k .smooth) ++ [.reply k] : List CortexServerEvent)
  [.grant ⟨1⟩] ++ own ++ answer (.relayHost, 16) 1 ++ own ++ answer (.nonce, 2) 1 ++ own
    ++ answer (.sign, 16) 2 ++ own ++ own ++ answer (.broadcast, 16) 3 ++ own

def sampleRawId : String := "00000000-0000-0000-0000-000000000001"

def sampleShown : PipelineStatus :=
  .broadcasted (lowerHex (sampleTxHash 0).bytes) "Waiting for validation on-chain"

/-- Who has sent a transaction, who has a row, and what is shown of the first execution. -/
def ServerState.outcome (s : ServerState) :
    List ExecutionId × List ExecutionId × Option PipelineStatus :=
  (s.world.world.sent.map (fun x => x.executionId),
    s.world.intents.rows.map (fun row => row.executionId), s.world.world.statuses ⟨1⟩)

/-- A run in which a transaction of the execution is sent and its hash is shown. -/
theorem exists_sampleRun :
    ∃ movers s, sampleServer.Serves sampleCortexConfig sampleShardHash .empty movers s
      ∧ s.outcome = ([⟨1⟩], [⟨1⟩], some sampleShown) := by
  have hrun : ((sampleServer.cortex sampleCortexConfig sampleShardHash).run serverMachine []
      (Office.start sampleServer.submitted .empty) sampleServerEvents).map
        (fun x => ServerState.outcome x.2) = some ([⟨1⟩], [⟨1⟩], some sampleShown) := by
    decide +kernel
  exact Office.exists_runs (f := ServerState.outcome) hrun

/-- The transaction that was sent is the one of the request. -/
theorem sent_as_requested_sample :
    ∃ movers s, sampleServer.Serves sampleCortexConfig sampleShardHash .empty movers s
      ∧ ∃ x ∈ s.world.world.sent, x.executionId = ⟨1⟩ ∧ ∃ clientConfig txn,
        Requested sampleRegistry ruintUint samplePosts ⟨1⟩ clientConfig txn
        ∧ intentOf ⟨1⟩ txn clientConfig ∈ s.world.intents.rows := by
  obtain ⟨movers, s, hruns, houtcome⟩ := exists_sampleRun
  have hsent : s.world.world.sent.map (fun x => x.executionId) = [⟨1⟩] :=
    congrArg Prod.fst houtcome
  obtain ⟨x, hx, hid⟩ : ∃ x ∈ s.world.world.sent, x.executionId = ⟨1⟩ :=
    List.mem_map.mp (by rw [hsent]; exact List.mem_cons_self)
  obtain ⟨clientConfig, txn, -, hrequested, hrow, -⟩ :=
    sent_as_requested hruns (ServerWorld.new_empty _) x hx
  rw [hid] at hrequested hrow
  exact ⟨movers, s, hruns, x, hx, hid, clientConfig, txn, hrequested, hrow⟩

/-- The one row of the table is that of the request. -/
theorem intents_as_requested_sample :
    ∃ movers s, sampleServer.Serves sampleCortexConfig sampleShardHash .empty movers s
      ∧ ∃ row ∈ s.world.intents.rows, ∃ clientConfig txn,
        Requested sampleRegistry ruintUint samplePosts ⟨1⟩ clientConfig txn
        ∧ row = intentOf ⟨1⟩ txn clientConfig := by
  obtain ⟨movers, s, hruns, houtcome⟩ := exists_sampleRun
  have hrows : s.world.intents.rows.map (fun row => row.executionId) = [⟨1⟩] :=
    congrArg (fun x => x.2.1) houtcome
  obtain ⟨row, hrow, hid⟩ : ∃ row ∈ s.world.intents.rows, row.executionId = ⟨1⟩ :=
    List.mem_map.mp (by rw [hrows]; exact List.mem_cons_self)
  obtain ⟨clientConfig, txn, hrequested, heq⟩ :=
    (intents_as_requested hruns).2.1 row hrow fun hold => nomatch hold
  rw [hid] at hrequested heq
  exact ⟨movers, s, hruns, row, hrow, clientConfig, txn, hrequested, heq⟩

/-- The hash in the response is the one a node has answered. -/
theorem shown_hash_answered_sample :
    ∃ movers s, sampleServer.Serves sampleCortexConfig sampleShardHash .empty movers s
      ∧ ∃ x ∈ s.world.world.sent, ∃ txHash, x.reply = .ok txHash
        ∧ lowerHex txHash.bytes = lowerHex (sampleTxHash 0).bytes := by
  obtain ⟨movers, s, hruns, houtcome⟩ := exists_sampleRun
  have hstatus : s.world.world.statuses ⟨1⟩ = some sampleShown :=
    congrArg (fun x => x.2.2) houtcome
  have hauth : (authMiddleware sampleRegistry (some sampleBearer)).toOption.isSome = true := by
    decide +kernel
  have hid : parseUuid sampleRawId.toList = some ⟨1⟩ := by decide +kernel
  have hsub : (sampleServer.submission ⟨1⟩).isSome = true := by decide +kernel
  cases hresult : authMiddleware sampleRegistry (some sampleBearer) with
  | error e =>
      rw [hresult] at hauth
      cases hauth
  | ok clientConfig =>
      obtain ⟨-, x, hx, -, ⟨txHash, hreply, hhex⟩, -⟩ :=
        shown_hash_answered hruns (ServerWorld.new_empty _) (Or.inl rfl)
          (getStatus_of_get hresult hid hstatus) (readStatusResponse_statusResponseJson _ _) rfl
          hid (Option.isSome_iff_ne_none.mp hsub)
      exact ⟨movers, s, hruns, x, hx, txHash, hreply, hhex⟩

end Lobby
