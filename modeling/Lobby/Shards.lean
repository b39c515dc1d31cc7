/-
# The actors and their shards

`spawn_cortex` starts a pool of actors for every engine.  Each actor has a mailbox of its own
and handles one command after the other; a pool picks the actor of a command by the hash of a
key.  `submit` runs a pipeline when it gets one of `pipeline_concurrency` permits.  The system
of `Lobby.System` has none of this: there every handler runs as soon as its command is sent.

* `shards_refine`: a run of the actors is one of that system, with the same tables, statuses
  and transactions.
* `commands_in_order`: what is sent with one key is handled by one actor, in order, one command
  after the other and each one once.
* `pipelines_end`: no pipeline is stuck, and none runs forever.
* `permits_bound`: how many pipelines run, and when no command waits for room in a mailbox.
-/
import Lobby.PipelineRun
import Lobby.StatusTrace
import Lobby.HandlerCalls
import Lobby.MailboxRefinement
import Lobby.MailboxService
import Lobby.Text

namespace Lobby

open Interaction Prog Text

/-! ## The configuration -/

/-- The pools of `spawn_cortex`. -/
inductive Pool : Type where
  | relayHost
  | nonce
  | sign
  | broadcast
  | validator
  deriving DecidableEq

structure CortexConfig where
  relayHostShards : ℕ
  nonceShards : ℕ
  signShards : ℕ
  broadcastShards : ℕ
  validatorShards : ℕ
  actorBuffer : ℕ
  pipelineConcurrency : ℕ
  pipelineSemaphoreTimeout : Duration
  retry : RetryConfig
  deriving DecidableEq

namespace CortexConfig

def shards (config : CortexConfig) : Pool → ℕ
  | .relayHost => config.relayHostShards
  | .nonce => config.nonceShards
  | .sign => config.signShards
  | .broadcast => config.broadcastShards
  | .validator => config.validatorShards

/-- `ConfigError::Parse`, with the variable that cannot be parsed. -/
structure ConfigError where
  key : String
  deriving DecidableEq

/-- `parse_env` at a 64-bit unsigned number. -/
def parseEnv (env : String → Option String) (key : String) (default : ℕ) :
    Except ConfigError ℕ :=
  match env key with
  | none => .ok default
  | some raw =>
    match parseUnsigned 10 (2 ^ 64) raw.toList with
    | some n => .ok n
    | none => .error ⟨key⟩

/-- `CortexConfig::from_env`. -/
def fromEnv (env : String → Option String) : Except ConfigError CortexConfig := do
  return {
    relayHostShards := ← parseEnv env "RELAYHOST_SHARDS" 17
    nonceShards := ← parseEnv env "NONCE_SHARDS" 17
    signShards := ← parseEnv env "SIGN_SHARDS" 17
    broadcastShards := ← parseEnv env "BROADCAST_SHARDS" 17
    validatorShards := ← parseEnv env "VALIDATOR_SHARDS" 17
    actorBuffer := ← parseEnv env "ACTOR_BUFFER_SIZE" 256
    pipelineConcurrency := ← parseEnv env "PIPELINE_CONCURRENCY" 200
    pipelineSemaphoreTimeout :=
      .fromMillis (.ofNat (← parseEnv env "PIPELINE_SEMAPHORE_TIMEOUT_MS" 5000))
    retry := .default }

/-- `spawn_cortex` does not panic: every pool has an actor (`ShardPool::new`), and every actor a
mailbox (`mpsc::channel`). -/
def Spawns (config : CortexConfig) : Prop :=
  (∀ pool, 0 < config.shards pool) ∧ 0 < config.actorBuffer

end CortexConfig

/-! ## Routing -/

/-- `ByAddress`, `ByExecutionId` and `ByChainId`. -/
inductive ShardKey : Type where
  | byAddress (address : Address)
  | byExecutionId (executionId : ExecutionId)
  | byChainId (chainId : ChainId)
  deriving DecidableEq

/-- `shard_index`, over the hash of `DefaultHasher`. -/
def shardIndex (hash : ShardKey → UInt64) (key : ShardKey) (n : ℕ) : ℕ := (hash key).toNat % n

/-- An actor: its pool and its index in it. -/
abbrev Actor : Type := Pool × ℕ

namespace Deployment

variable (d : Deployment)

/-- The pool and the key by which `run_pipeline` picks the actor of a command.  It takes the
nonce actor of the sender of the execution for all three commands. -/
def shardKey : PipelineCall → Option (Pool × ShardKey)
  | .registerTransaction e _ _ => some (.relayHost, .byExecutionId e)
  | .reserve _ fromAddress _ => some (.nonce, .byAddress fromAddress)
  | .resolve e _ => (d.submission e).map fun s => (.nonce, .byAddress s.clientConfig.fromAddress)
  | .sync _ fromAddress _ _ => some (.nonce, .byAddress fromAddress)
  | .sign _ _ e _ => some (.sign, .byExecutionId e)
  | .revert e => some (.sign, .byExecutionId e)
  | .broadcast _ _ e _ _ => some (.broadcast, .byExecutionId e)
  | .validate chainId e _ _ =>
      some (.validator, if d.telemetry then .byExecutionId e else .byChainId chainId)
  | _ => none

/-- What an actor does with a command; calls to no actor are made by the pipeline itself. -/
def serve : (c : PipelineCall) → EngineProg c.Reply
  | .reserve chainId fromAddress e =>
      (handleReserve chainId fromAddress e).interp fun q => (EngineCall.nonce q).ask
  | .resolve e s => (handleResolve e s).interp fun q => (EngineCall.nonce q).ask
  | .sync chainId fromAddress e nonceOnChain =>
      (handleSync chainId fromAddress e nonceOnChain).interp fun q => (EngineCall.nonce q).ask
  | .sign chainId fromAddress e txn =>
      (handleSign d.crypto d.custodyKeys fromAddress chainId e txn).interp
        fun q => (EngineCall.sign q).ask
  | .revert e => (handleRevert e).interp fun q => (EngineCall.sign q).ask
  | .broadcast chainId fromAddress e txn stickyIndex =>
      (handleBroadcast chainId fromAddress e txn stickyIndex).interp
        fun c => (EngineCall.broadcast c).ask
  | .validate chainId e txHash stickyIndex =>
      (handleValidation d.validatorConfig d.rounds chainId e txHash stickyIndex).interp
        fun c => (EngineCall.validator c).ask
  | .registerTransaction e txn clientConfig =>
      (EngineCall.outside (.registerTransaction e txn clientConfig)).ask
  | .acquireHealthyEndpoint chainId timeout =>
      (EngineCall.outside (.acquireHealthyEndpoint chainId timeout)).ask
  | .setStatus e status => (EngineCall.outside (.setStatus e status)).ask
  | .telemetry e event => (EngineCall.outside (.telemetry e event)).ask
  | .genRange window => (EngineCall.outside (.genRange window)).ask
  | .sleep delay => (EngineCall.outside (.sleep delay)).ask
  | .unreachable message => (EngineCall.outside (.unreachable message)).ask

/-- The actors and the permits of `spawn_cortex`. -/
def cortex (config : CortexConfig) (hash : ShardKey → UInt64) :
    Office Actor PipelineCall PipelineCall.Reply EngineCall EngineCall.Reply where
  route c := (d.shardKey c).map fun x => (x.1, shardIndex hash x.2 (config.shards x.1))
  answer := d.serve
  capacity := config.actorBuffer
  permits := config.pipelineConcurrency

/-- What `submit` runs for an execution once it has a permit. -/
def submitted (e : ExecutionId) : PipelineProg (Except BackpressureTimeout Unit) :=
  match d.submission e with
  | none => .ret (.ok ())
  | some s => submit (d.context e s) (.ok ())

end Deployment

/-! ## Without closed mailboxes and lost replies

The actors live as long as the pipelines, so every command is taken and every reply arrives. -/

/-- A program whose commands are all delivered and whose replies all arrive. -/
def delivered {α : Type} : EngineProg α → EngineProg α
  | .ret a => .ret a
  | .call (.deliver _) next => delivered (next true)
  | .call (.collect _) next => delivered (next true)
  | .call (.nonce q) next => .call (.nonce q) fun r => delivered (next r)
  | .call (.sign q) next => .call (.sign q) fun r => delivered (next r)
  | .call (.broadcast c) next => .call (.broadcast c) fun r => delivered (next r)
  | .call (.validator c) next => .call (.validator c) fun r => delivered (next r)
  | .call (.outside c) next => .call (.outside c) fun r => delivered (next r)

/-- The program up to its next call other than a delivery. -/
def onward {α : Type} : EngineProg α → EngineProg α
  | .ret a => .ret a
  | .call (.deliver _) next => onward (next true)
  | .call (.collect _) next => onward (next true)
  | .call (.nonce q) next => .call (.nonce q) next
  | .call (.sign q) next => .call (.sign q) next
  | .call (.broadcast c) next => .call (.broadcast c) next
  | .call (.validator c) next => .call (.validator c) next
  | .call (.outside c) next => .call (.outside c) next

section delivered

variable {α β : Type}

theorem delivered_bind (p : EngineProg α) (f : α → EngineProg β) :
    delivered (p >>= f) = delivered p >>= fun a => delivered (f a) := by
  induction p with
  | ret a => rfl
  | call c next ih =>
      cases c with
      | deliver | collect => exact ih true
      | nonce | sign | broadcast | validator | outside =>
          exact congrArg (call _) (funext ih)

theorem delivered_interp {C : Type} {R : C → Type} {handle : (c : C) → EngineProg (R c)}
    (p : Prog C R α) :
    delivered (p.interp handle) = p.interp fun c => delivered (handle c) := by
  induction p with
  | ret a => rfl
  | call c next ih =>
      rw [interp_call, interp_call, delivered_bind]
      exact congrArg (delivered (handle c) >>= ·) (funext ih)

theorem delivered_through {T E : Type} (command : PipelineCall) (shutDown dropped : E)
    (handler : EngineProg (Except E T)) :
    delivered (through command shutDown dropped handler) = delivered handler := by
  show delivered (handler >>= fun result =>
    (EngineCall.collect command).ask >>= fun b => if b then .ret result else .ret (.error dropped))
    = delivered handler
  rw [delivered_bind]
  exact bind_ret (delivered handler)

/-- **The answer of an actor is its handler**, when its mailbox is open and the reply arrives. -/
theorem delivered_handle (d : Deployment) (c : PipelineCall) :
    delivered (d.handle c) = d.serve c := by
  cases c with
  | reserve | resolve | sync | sign | revert | broadcast | validate =>
      exact (delivered_through _ _ _ _).trans (delivered_interp _)
  | registerTransaction | acquireHealthyEndpoint | setStatus | telemetry | genRange | sleep
  | unreachable => rfl

theorem onward_eq_ret {p : EngineProg α} {a : α} (h : delivered p = .ret a) :
    onward p = .ret a := by
  induction p with
  | ret b => exact h
  | call c next ih =>
      cases c with
      | deliver | collect => exact ih true h
      | nonce | sign | broadcast | validator | outside => cases h

/-- The next call of the program is the one after the deliveries. -/
theorem onward_eq_call {p : EngineProg α} {c : EngineCall} {next : c.Reply → EngineProg α}
    (h : delivered p = .call c next) :
    ∃ next', onward p = .call c next' ∧ ∀ r, next r = delivered (next' r) := by
  induction p with
  | ret b => cases h
  | call c' next' ih =>
      cases c' with
      | deliver | collect => exact ih true h
      | nonce | sign | broadcast | validator | outside =>
          cases h
          exact ⟨next', rfl, fun r => rfl⟩

theorem delivered_onward (p : EngineProg α) : delivered (onward p) = delivered p := by
  induction p with
  | ret b => rfl
  | call c next ih =>
      cases c with
      | deliver | collect => exact ih true
      | nonce | sign | broadcast | validator | outside => rfl

theorem onward_onward (p : EngineProg α) : onward (onward p) = onward p := by
  induction p with
  | ret b => rfl
  | call c next ih =>
      cases c with
      | deliver | collect => exact ih true
      | nonce | sign | broadcast | validator | outside => rfl

end delivered

/-- The conditions of a run say nothing of deliveries. -/
def RunConditions.Delivers (K : RunConditions) : Prop :=
  ∀ e choice command w, K.call e choice (.deliver command) w ∧ K.call e choice (.collect command) w

section shards

variable {α : Type} {K : RunConditions} {thread : ExecutionId → EngineProg α} {w w' : World}
  {e : ExecutionId}

/-- The machine makes the deliveries of a thread. -/
theorem reachable_onward (hK : K.Delivers) (thread : ExecutionId → EngineProg α) (w : World)
    (e : ExecutionId) :
    machine.Reachable K ⟨thread, w⟩ ⟨Function.update thread e (onward (thread e)), w⟩ := by
  generalize hp : thread e = p
  induction p generalizing thread with
  | ret a =>
      rw [onward, ← hp, Function.update_eq_self]
      exact .start
  | call c next ih =>
      cases c with
      | deliver command =>
          have hcall : machine.Reachable K ⟨thread, w⟩ ⟨Function.update thread e (next true), w⟩ :=
            Office.reachable_call hp (hK e .smooth command w).1 rfl
          have hrest := ih true (Function.update thread e (next true)) (Function.update_self ..)
          rw [Function.update_idem] at hrest
          exact hcall.trans hrest
      | collect command =>
          have hcall : machine.Reachable K ⟨thread, w⟩ ⟨Function.update thread e (next true), w⟩ :=
            Office.reachable_call hp (hK e .smooth command w).2 rfl
          have hrest := ih true (Function.update thread e (next true)) (Function.update_self ..)
          rw [Function.update_idem] at hrest
          exact hcall.trans hrest
      | nonce | sign | broadcast | validator | outside =>
          rw [onward, ← hp, Function.update_eq_self]
          exact .start

/-- The threads that make no deliveries are those that do, with their deliveries made. -/
structure Delivers (thread thread' : ExecutionId → EngineProg α) : Prop where
  delivered : ∀ e, thread e = delivered (thread' e)
  onward : ∀ e, onward (thread' e) = thread' e

variable {thread' : ExecutionId → EngineProg α}

theorem Delivers.update (h : Delivers thread thread') (e : ExecutionId) (p : EngineProg α) :
    Delivers (Function.update thread e (Lobby.delivered p))
      (Function.update thread' e (Lobby.onward p)) where
  delivered j := by
    by_cases hj : j = e
    · subst hj
      rw [Function.update_self, Function.update_self, delivered_onward]
    · rw [Function.update_of_ne hj, Function.update_of_ne hj]
      exact h.delivered j
  onward j := by
    by_cases hj : j = e
    · subst hj
      rw [Function.update_self, onward_onward]
    · rw [Function.update_of_ne hj]
      exact h.onward j

/-- **The machine follows threads that make no deliveries.** -/
theorem reachable_delivers (hK : K.Delivers) {s₀ s : Config ExecutionId EngineCall
      EngineCall.Reply World α} (hreach : machine.Reachable K s₀ s)
    (h₀ : Delivers s₀.thread thread) :
    ∃ thread', Delivers s.thread thread'
      ∧ machine.Reachable K ⟨thread, s₀.world⟩ ⟨thread', s.world⟩ := by
  induction hreach with
  | start => exact ⟨thread, h₀, .start⟩
  | @next s s' event _ hmeets hstep ih =>
      obtain ⟨thread', hdelivers, hreach'⟩ := ih
      cases event with
      | external event =>
          obtain ⟨w', hexternal, rfl⟩ := Machine.step_external_eq_some hstep
          have hmeets' : K.meets
              (⟨thread', s.world⟩ : Config ExecutionId EngineCall EngineCall.Reply World α)
              (.external event) := hmeets
          refine ⟨thread', hdelivers, .next hreach' hmeets' ?_⟩
          simp only [Machine.step, hexternal, Option.map_some]
      | call e choice =>
          obtain ⟨c, next, r, w', hthread, hperform, rfl⟩ := Machine.step_call_eq_some hstep
          have hK' : K.call e choice c s.world := by
            simpa only [Machine.Conditions.meets, hthread] using hmeets
          rw [hdelivers.delivered] at hthread
          obtain ⟨next', hnext', heq⟩ := onward_eq_call hthread
          rw [hdelivers.onward] at hnext'
          -- the call itself, then the deliveries after it
          have hcall := Office.reachable_call hnext' hK' hperform
          have hrest := reachable_onward hK (Function.update thread' e (next' r)) w' e
          rw [Function.update_self, Function.update_idem] at hrest
          refine ⟨_, ?_, (hreach'.trans hcall).trans hrest⟩
          show Delivers (Function.update s.thread e (next r)) _
          rw [heq]
          exact hdelivers.update e (next' r)

end shards

/-! ## A run of the actors -/

/-- All executions at the call of `submit`, in the system without mailboxes. -/
def Deployment.submitting (d : Deployment) (w : World) :
    Config ExecutionId EngineCall EngineCall.Reply World (Except BackpressureTimeout Unit) where
  thread e := (d.submitted e).interp d.handle
  world := w

/-- The first call of `submit` is no delivery. -/
theorem onward_submitted (d : Deployment) (e : ExecutionId) :
    onward ((d.submitted e).interp d.handle) = (d.submitted e).interp d.handle := by
  unfold Deployment.submitted
  cases d.submission e <;> rfl

/-- The configurations of the actors and their pipelines. -/
abbrev CortexState : Type :=
  Office.Config ExecutionId Actor PipelineCall PipelineCall.Reply EngineCall EngineCall.Reply World
    (Except BackpressureTimeout Unit)

/-- The configuration of an empty environment. -/
def sampleCortexConfig : CortexConfig where
  relayHostShards := 17
  nonceShards := 17
  signShards := 17
  broadcastShards := 17
  validatorShards := 17
  actorBuffer := 256
  pipelineConcurrency := 200
  pipelineSemaphoreTimeout := .fromMillis 5000
  retry := .default

example : CortexConfig.fromEnv (fun _ => none) = .ok sampleCortexConfig := by decide

/-- SipHash 1-3 of the keys of the sample deployment. -/
def sampleShardHash : ShardKey → UInt64
  | .byAddress _ => 0xe40759df5d2fbfd4
  | .byExecutionId e => if e.uuid = 1 then 0x74cdb01e44c710c0 else 0x2d84bffc127129d2
  | .byChainId _ => 0x904970aaa1c49899

/-- The actors of the sample deployment. -/
abbrev sampleCortex : Office Actor PipelineCall PipelineCall.Reply EngineCall EngineCall.Reply :=
  sampleDeployment.cortex sampleCortexConfig sampleShardHash

abbrev CortexEvent : Type := Office.Event ExecutionId Actor Choice OutsideEvent

/-- Two pipelines side by side, up to the first statement of the nonce actor: it reserves for
the one while the command of the other is in its mailbox. -/
def sampleEvents : List CortexEvent :=
  let status := fun e : ExecutionId => ([.issue e, .work e .smooth, .resume e] : List CortexEvent)
  let answer := fun k : Actor => ([.take k, .serve k .smooth, .reply k] : List CortexEvent)
  [.grant ⟨1⟩, .grant ⟨2⟩] ++ status ⟨1⟩ ++ status ⟨2⟩
    ++ [.issue ⟨1⟩, .issue ⟨2⟩] ++ answer (.relayHost, 16) ++ answer (.relayHost, 16)
    ++ status ⟨1⟩ ++ status ⟨2⟩
    ++ [.issue ⟨1⟩, .issue ⟨2⟩, .take (.nonce, 2), .serve (.nonce, 2) .smooth]

section run

variable {d : Deployment} {config : CortexConfig} {hash : ShardKey → UInt64}
  {K : RunConditions} {w₀ : World} {movers : List (Option ExecutionId)}
  {s : CortexState}

/-- A run of the actors and one of the system end in the same world, with the same threads up
to deliveries. -/
theorem reachable_of_runs (hK : K.Delivers)
    (h : (d.cortex config hash).Runs machine K (Office.start d.submitted w₀) movers s) :
    ∃ thread thread', (d.cortex config hash).Matches s thread ∧ Delivers thread thread'
      ∧ machine.Reachable K (d.submitting w₀) ⟨thread', s.world⟩ := by
  obtain ⟨thread, hmatches, hreach⟩ := h.simulated
  have hdelivers : Delivers (fun e => (d.submitted e).interp d.serve) (d.submitting w₀).thread := by
    refine ⟨fun e => ?_, fun e => onward_submitted d e⟩
    rw [Deployment.submitting, delivered_interp]
    exact congrArg (fun handle => (d.submitted e).interp handle)
      (funext fun c => (delivered_handle d c).symm)
  obtain ⟨thread', hdelivers', hreach'⟩ := reachable_delivers hK hreach hdelivers
  exact ⟨thread, thread', hmatches, hdelivers', hreach'⟩

/-- **The actors refine the system without mailboxes.**  Whatever the order in which commands
are posted, taken and answered, and whichever pipelines get a permit, the tables, the statuses
and what was sent are those of a run in which every handler runs as soon as its command is
sent.  A pipeline that has ended has ended there, and a statement or request that is next on
behalf of an execution is next there. -/
theorem shards_refine (hK : K.Delivers)
    (h : (d.cortex config hash).Runs machine K (Office.start d.submitted w₀) movers s) :
    ∃ st, machine.Reachable K (d.submitting w₀) st ∧ st.world = s.world
      ∧ (∀ e result, s.task e = .ended result → st.thread e = .ret result)
      ∧ ∀ e x, s.Asks e x → ∃ next, st.thread e = .call x next := by
  obtain ⟨thread, thread', hmatches, hdelivers, hreach⟩ := reachable_of_runs hK h
  refine ⟨_, hreach, rfl, fun e result htask => ?_, fun e x hx => ?_⟩
  · have hthread := hmatches.task e
    rw [htask] at hthread
    have hret := onward_eq_ret ((hdelivers.delivered e).symm.trans hthread)
    rwa [hdelivers.onward] at hret
  · obtain ⟨next, hthread⟩ := hmatches.of_asks hx
    obtain ⟨next', hcall, -⟩ := onward_eq_call ((hdelivers.delivered e).symm.trans hthread)
    rw [hdelivers.onward] at hcall
    exact ⟨next', hcall⟩

/-- One of the two executions has its reservation in the system without mailboxes. -/
theorem shards_refine_sample :
    ∃ st, machine.Reachable .free (sampleDeployment.submitting .empty) st
      ∧ st.world.nonces.rows.map (fun r => r.executionId) = [⟨1⟩] := by
  have hrun : (sampleCortex.run machine [] (Office.start sampleDeployment.submitted .empty)
      sampleEvents).map (fun x => x.2.world.nonces.rows.map fun r => r.executionId)
        = some [⟨1⟩] := by decide +kernel
  obtain ⟨movers, s, hruns, hrows⟩ := Office.exists_runs
    (f := fun s : CortexState => s.world.nonces.rows.map fun r => r.executionId) hrun
  obtain ⟨st, hreach, hworld, -, -⟩ := shards_refine (fun _ _ _ _ => ⟨trivial, trivial⟩) hruns
  exact ⟨st, hreach, hworld ▸ hrows⟩

/-- **One actor for each key, one command after the other.**  The commands that are sent with
one key all go to the same actor of a pool, and the statements and requests of that actor are
those of complete handlers, for its commands in the order in which they were sent, and of the
beginning of one more. -/
theorem commands_in_order
    (h : (d.cortex config hash).Runs machine K (Office.start d.submitted w₀) movers s)
    (pool : Pool) (key : ShardKey) :
    (∀ actor x, x ∈ s.posted actor → d.shardKey x.2 = some (pool, key) →
      actor = (pool, shardIndex hash key (config.shards pool)))
    ∧ ∃ answered current, (d.cortex config hash).Serial s
        (pool, shardIndex hash key (config.shards pool)) answered current := by
  refine ⟨fun actor x hx hkey => ?_, h.serial _⟩
  have hroute := h.routed hx
  dsimp only [Deployment.cortex] at hroute
  rw [hkey] at hroute
  exact (Option.some.inj hroute).symm

/-- The nonce actor of the sender has the commands of both executions. -/
theorem commands_in_order_sample :
    ∃ movers s, sampleCortex.Runs machine .free
        (Office.start sampleDeployment.submitted .empty) movers s
      ∧ (s.posted (.nonce, 2)).map Prod.fst = [⟨1⟩, ⟨2⟩]
      ∧ ∃ answered current, sampleCortex.Serial s (.nonce, 2) answered current := by
  have hrun : (sampleCortex.run machine [] (Office.start sampleDeployment.submitted .empty)
      sampleEvents).map (fun x => (x.2.posted (.nonce, 2)).map Prod.fst)
        = some [⟨1⟩, ⟨2⟩] := by decide +kernel
  obtain ⟨movers, s, hruns, hposted⟩ := Office.exists_runs
    (f := fun s : CortexState => (s.posted (.nonce, 2)).map Prod.fst) hrun
  exact ⟨movers, s, hruns, hposted,
    (commands_in_order hruns .nonce (.byAddress sampleAccount)).2⟩

/-- **The permits bound the pipelines.**  The executions whose pipeline has begun and not ended
are as many as the permits at most; when these are no more than a mailbox has room, a command
is posted as soon as it is sent. -/
theorem permits_bound
    (h : (d.cortex config hash).Runs machine K (Office.start d.submitted w₀) movers s) :
    (∃ holders : List ExecutionId, holders.Nodup
        ∧ holders.length ≤ config.pipelineConcurrency
        ∧ (∀ e, e ∈ holders ↔ (s.task e).holds = true)
        ∧ ∀ actor, ∀ e, e ∈ s.senders actor ∨ s.attended actor = some e → e ∈ holders)
    ∧ (config.pipelineConcurrency ≤ config.actorBuffer → ∀ e c next,
        s.task e = .running (.call c next) →
          ((d.cortex config hash).step machine s (.issue e)).isSome = true) := by
  have hs := h.consistent (Office.consistent_start _ w₀)
  refine ⟨⟨s.holders, hs.nodup, hs.length_le, hs.holders, fun actor e he => ?_⟩,
    fun hle e c next htask => hs.posts_at_once hle htask⟩
  rw [hs.holders]
  rw [hs.posts.queued, hs.posts.served] at he
  rcases he with he | he
  · cases htask : s.task e with
    | queued => rfl
    | _ => rw [Office.Config.place, htask] at he; cases he
  · cases htask : s.task e with
    | served => rfl
    | _ => rw [Office.Config.place, htask] at he; cases he

/-- Two pipelines hold a permit: the one that is being served and the one in the mailbox. -/
theorem permits_bound_sample :
    ∃ movers s, sampleCortex.Runs machine .free
        (Office.start sampleDeployment.submitted .empty) movers s
      ∧ s.attended (.nonce, 2) = some ⟨1⟩ ∧ s.senders (.nonce, 2) = [⟨2⟩]
      ∧ ∃ holders : List ExecutionId, holders.length ≤ 200 ∧ ⟨1⟩ ∈ holders ∧ ⟨2⟩ ∈ holders := by
  have hrun : (sampleCortex.run machine [] (Office.start sampleDeployment.submitted .empty)
      sampleEvents).map (fun x => (x.2.attended (.nonce, 2), x.2.senders (.nonce, 2)))
        = some (some ⟨1⟩, [⟨2⟩]) := by decide +kernel
  obtain ⟨movers, s, hruns, hposts⟩ := Office.exists_runs
    (f := fun s : CortexState => (s.attended (.nonce, 2), s.senders (.nonce, 2))) hrun
  obtain ⟨hattended, hsenders⟩ := Prod.mk.inj hposts
  obtain ⟨⟨holders, -, hle, -, hmem⟩, -⟩ := permits_bound hruns
  exact ⟨movers, s, hruns, hattended, hsenders, holders, hle, hmem _ _ (Or.inr hattended),
    hmem (.nonce, 2) ⟨2⟩ (Or.inl (hsenders ▸ List.mem_cons_self))⟩

end run

/-! ## What an actor calls -/

section calls

/-- A call that is made for a call of a pipeline: about the same execution, and the call itself
if no actor is asked. -/
structure EngineCall.For (c : PipelineCall) (x : EngineCall) : Prop where
  own : ∀ e s, c.Own e s → x.Own e s
  outside : ∀ y, x = .outside y → y = c

/-- No actor makes more calls for a command than this. -/
def Deployment.serveCalls (d : Deployment) : ℕ := 4 * d.rounds + 4

theorem bounded_serve (d : Deployment) (c : PipelineCall) :
    (d.serve c).Bounded (EngineCall.For c) d.serveCalls := by
  have hhandler : ∀ {C : Type} {R : C → Type} {α : Type} {p : Prog C R α} {P : C → Prop} {n : ℕ}
      {handle : (c : C) → EngineProg (R c)}, p.Bounded P n →
      (∀ q, P q → (handle q).Bounded (EngineCall.For c) 1) → n ≤ d.serveCalls →
      (p.interp handle).Bounded (EngineCall.For c) d.serveCalls := by
    intro C R α p P n handle hp hhandle hn
    exact (hp.interp hhandle).mono (by rwa [Nat.mul_one])
  have hsmall : 4 ≤ d.serveCalls := Nat.le_add_left 4 _
  cases c with
  | reserve chainId fromAddress e =>
      exact hhandler (bounded_handleReserve e _ _)
        (fun q hq => bounded_perform ⟨fun _ _ he => hq.trans he, nofun⟩) (by omega)
  | resolve e state =>
      exact hhandler (bounded_handleResolve e _)
        (fun q hq => bounded_perform ⟨fun _ _ he => hq.trans he, nofun⟩) (by omega)
  | sync chainId fromAddress e nonceOnChain =>
      exact hhandler (bounded_handleSync e _ _ _)
        (fun q hq => bounded_perform ⟨fun _ _ he => hq.trans he, nofun⟩) (by omega)
  | sign chainId fromAddress e txn =>
      exact hhandler (bounded_handleSign e _ _ _ _ _)
        (fun q hq => bounded_perform ⟨fun _ _ he => hq.trans he, nofun⟩) (by omega)
  | revert e =>
      exact hhandler (bounded_handleRevert e)
        (fun q hq => bounded_perform ⟨fun _ _ he => hq.trans he, nofun⟩) (by omega)
  | broadcast chainId fromAddress e txn stickyIndex =>
      exact hhandler (bounded_handleBroadcast e _ _ _ _)
        (fun c hc => bounded_perform ⟨fun _ _ he => he ▸ hc, nofun⟩) (by omega)
  | validate chainId e txHash stickyIndex =>
      exact hhandler (bounded_handleValidation e _ _ _ _ _)
        (fun c hc => bounded_perform ⟨fun _ _ he => he ▸ hc, nofun⟩) le_rfl
  | registerTransaction | acquireHealthyEndpoint | setStatus | telemetry | genRange | sleep
  | unreachable =>
      exact (bounded_perform ⟨fun _ _ he => he, fun _ hy => (EngineCall.outside.inj hy).symm⟩).mono
        (by omega)

end calls

/-! ## No pipeline is stuck, none runs forever -/

section progress

/-- Every call has a reply but those that wait for one that never comes. -/
theorem exists_reply {x : EngineCall} (hx : x ≠ .validator .exhausted)
    (houtside : ∀ y, x = .outside y → Nonempty y.Reply) : Nonempty x.Reply := by
  cases x with
  | deliver | collect => exact ⟨true⟩
  | nonce q => exact ⟨.error .rowNotFound⟩
  | sign q => exact ⟨.error .rowNotFound⟩
  | broadcast c =>
      cases c with
      | query q => exact ⟨.error .rowNotFound⟩
      | sendRawTransaction | getTransactionCount => exact ⟨.error (.transportError "")⟩
  | validator c =>
      cases c with
      | query q => exact ⟨.error .rowNotFound⟩
      | instant => exact ⟨(0 : ℤ)⟩
      | getTransactionReceipt | getBlockNumber => exact ⟨.error (.transportError "")⟩
      | sleep => exact ⟨()⟩
      | exhausted => exact absurd rfl hx
  | outside y => exact houtside y rfl

/-- Whatever has a reply can be answered. -/
theorem exists_perform (w : World) (e : ExecutionId) {x : EngineCall} (r : x.Reply) :
    ∃ choice r' w', w.perform e choice x = some (r', w') := by
  classical
  -- the surroundings answer this call with the reply
  refine ⟨⟨.none, false, fun c => if h : c = x then some (h ▸ r) else none⟩, ?_⟩
  cases x with
  | deliver | collect => exact ⟨r, w, by simp [World.perform]⟩
  | nonce | sign => exact ⟨_, _, rfl⟩
  | broadcast c =>
      cases c with
      | query => exact ⟨_, _, rfl⟩
      | sendRawTransaction => exact ⟨r, _, by simp [World.perform]; rfl⟩
      | getTransactionCount => exact ⟨r, w, by simp [World.perform]⟩
  | validator c =>
      cases c with
      | query | instant => exact ⟨_, _, rfl⟩
      | getTransactionReceipt | getBlockNumber | sleep | exhausted =>
          exact ⟨r, w, by simp [World.perform]⟩
  | outside y =>
      cases y with
      | setStatus => exact ⟨_, _, rfl⟩
      | _ => exact ⟨r, w, by simp [World.perform]⟩

variable {d : Deployment} {config : CortexConfig} {hash : ShardKey → UInt64}
  {K : RunConditions} {w₀ : World} {movers : List (Option ExecutionId)}
  {s : CortexState}

theorem within_submitted (hmax : d.retryConfig.maxAttempts.toNat + 1 < UInt32.size)
    (e : ExecutionId) :
    (d.submitted e).Within (36 * (d.retryConfig.maxAttempts.toNat + 1) + 30) := by
  unfold Deployment.submitted
  cases d.submission e with
  | none => exact within_ret _
  | some sub =>
      refine (within_submit (d.context e sub) (.ok ())).mono ?_
      rw [PipelineContext.stageCalls, show (d.context e sub).retryConfig = d.retryConfig from rfl,
        maxTotal_toNat hmax]
      omega

/-- The pipelines do not run into their `unreachable!`. -/
theorem reply_of_submitted (hmax : d.retryConfig.maxAttempts.toNat + 1 < UInt32.size)
    {e : ExecutionId} {calls : List PipelineCall} {c : PipelineCall}
    {next : c.Reply → PipelineProg (Except BackpressureTimeout Unit)}
    (h : (d.submitted e).Leads calls (.call c next)) : Nonempty c.Reply := by
  unfold Deployment.submitted at h
  cases hsub : d.submission e with
  | none =>
      rw [hsub] at h
      cases Office.eq_ret_of_leads h
  | some sub =>
      rw [hsub] at h
      have hwp := wp_submit (d.context e sub) (by
        rw [show (d.context e sub).retryConfig = d.retryConfig from rfl, maxTotal_toNat hmax]
        omega)
      exact (h.wp hwp _ rfl).1

/-- **Every pipeline comes to an end.**  With an actor in every pool, a mailbox for each and
at least one permit, fewer than `u32::MAX` retries and whatever the order of events: an
execution moves a bounded number of times in all; and as long as one has not ended and was not
refused a permit, some pipeline or actor can move, unless a validation has used up its
rounds.  The rounds bound the polls by assumption; the code has its time limit. -/
theorem pipelines_end
    (h : (d.cortex config hash).Runs machine K (Office.start d.submitted w₀) movers s)
    (hspawns : config.Spawns) (hpermits : 0 < config.pipelineConcurrency)
    (hmax : d.retryConfig.maxAttempts.toNat + 1 < UInt32.size) :
    (∀ e, movers.count (some e)
      ≤ (36 * (d.retryConfig.maxAttempts.toNat + 1) + 30) * (4 * d.rounds + 7) + 2)
    ∧ ((∃ e, (s.task e).pending = true) →
      (∃ e, s.Asks e (.validator .exhausted))
      ∨ ∃ event, Office.mover s event ≠ none
        ∧ ((d.cortex config hash).step machine s event).isSome = true) := by
  constructor
  · intro e
    exact h.moves_le (fun c => (bounded_serve d c).within) (within_submitted hmax e)
  · rintro ⟨e, hpending⟩
    by_cases hexhausted : ∃ e, s.Asks e (.validator .exhausted)
    · exact Or.inl hexhausted
    · refine Or.inr ?_
      have hs := h.consistent (Office.consistent_start _ w₀)
      refine hs.progress hspawns.2 hpermits (fun e x hx => ?_) hpending
      obtain ⟨c, ⟨calls, next, hleads⟩, log, rest, hfollows⟩ := h.along.asks hx
      have hasks := (hfollows.asks (bounded_serve d c).asks).1
      obtain ⟨r⟩ : Nonempty x.Reply := by
        refine exists_reply (fun heq => hexhausted ⟨e, heq ▸ hx⟩) fun y hy => ?_
        obtain rfl := hasks.outside y hy
        exact reply_of_submitted hmax hleads
      exact exists_perform s.world e r

/-- Neither of the two pipelines has ended, and one of them can move. -/
theorem pipelines_end_sample :
    ∃ movers s, sampleCortex.Runs machine .free
        (Office.start sampleDeployment.submitted .empty) movers s
      ∧ (s.task ⟨1⟩).pending = true
      ∧ ((∃ e, s.Asks e (.validator .exhausted))
        ∨ ∃ event, Office.mover s event ≠ none
          ∧ (sampleCortex.step machine s event).isSome = true) := by
  have hrun : (sampleCortex.run machine [] (Office.start sampleDeployment.submitted .empty)
      sampleEvents).map (fun x => (x.2.task ⟨1⟩).pending) = some true := by decide +kernel
  obtain ⟨movers, s, hruns, hpending⟩ := Office.exists_runs
    (f := fun s : CortexState => (s.task ⟨1⟩).pending) hrun
  exact ⟨movers, s, hruns, hpending, (pipelines_end hruns
    ⟨fun pool => by cases pool <;> decide, by decide⟩ (by decide) (by decide)).2 ⟨_, hpending⟩⟩

end progress

end Lobby
