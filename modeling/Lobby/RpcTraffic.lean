/-
# Requests to the nodes

`execute_unary` takes a permit of its actor, selects an endpoint of the actor's pool for the
chain, runs an operation on its provider, records how that ended, and gives the permit back.
`acquire_healthy_endpoint` takes a permit only to ask the pool of the validator for its best
endpoint.  Any number of requests run at once: their calls come one at a time, in any order.

* `requests_recorded`: no actor has more than 32 permits out, none is lost, and an operation is
  recorded exactly once, on the endpoint it ran on and in the pool of its own actor; the
  counters of every endpoint are those of the records.
* `pools_run`: to a pool the requests are the clients of `Lobby.EndpointRecovery`, which select
  an endpoint, record on it while they hold the choice, and drop it.
-/
import Lobby.RpcConfig
import Lobby.EndpointAffinity
import Lobby.ValidatorEngine

namespace Lobby

open Interaction Prog

/-- The index of a strategy, for a sticky session. -/
def LoadBalancingStrategy.stickyIndex : LoadBalancingStrategy → Option ℕ
  | .stickySession stickyIndex => some stickyIndex
  | .weightedLeastResponseTime => none

/-- `start.elapsed()` at an instant. -/
def elapsedSince (start now : Instant) : Duration where
  secs := UInt64.ofNat ((now - start) / 1000000000)
  nanos := (now - start) % 1000000000
  nanos_lt := Nat.mod_lt _ (by norm_num)

namespace Rpc

/-! ## The calls of a request -/

/-- The operations on a provider. -/
inductive Method : Type where
  | sendRawTransaction (signedTxn : List UInt8)
  | getTransactionCount (fromAddress : Address)
  | getTransactionReceipt (txHash : TxHash)
  | getBlockNumber

@[reducible]
def Method.Result : Method → Type
  | .sendRawTransaction _ => TxHash
  | .getTransactionCount _ => UInt64
  | .getTransactionReceipt _ => Option TransactionReceipt
  | .getBlockNumber => UInt64

inductive Call : Type where
  /-- `Instant::now()` -/
  | instant
  | getSemaphore (actor : SelectActor) (timeoutSecs : ℕ)
  | getPool (actor : SelectActor) (chainId : ChainId)
  | selectEndpoint (pool : PoolRef) (strategy : LoadBalancingStrategy)
  | bestEndpointIndex (pool : PoolRef)
  | operation (pool : PoolRef) (index : ℕ) (method : Method)
  /-- with the start of the request -/
  | recordSuccess (pool : PoolRef) (index : ℕ) (start : Instant)
  | recordFailure (pool : PoolRef) (index : ℕ)
  | dropPermit (actor : SelectActor)
  /-- the context of the request, with its choice -/
  | dropContext (pool : PoolRef) (index : ℕ)

/-- The replies; an error of an operation is its text. -/
@[reducible]
def Call.Reply : Call → Type
  | .instant => Instant
  | .getSemaphore _ _ => Except LobbyRpcError Unit
  | .getPool _ _ => Option PoolRef
  | .selectEndpoint _ _ | .bestEndpointIndex _ => Option ℕ
  | .operation _ _ method => Except String method.Result
  | .recordSuccess _ _ _ | .recordFailure _ _ | .dropPermit _ | .dropContext _ _ => Unit

abbrev RpcProg (α : Type) : Type := Prog Call Call.Reply α

/-- Make one call. -/
abbrev Call.ask (c : Call) : RpcProg c.Reply := perform c

/-! ## The client -/

def acquireUnaryContext (actor : SelectActor) (chainId : ChainId) (stickyIndex : Option ℕ)
    (timeoutSecs : ℕ) : RpcProg (Except LobbyRpcError (PoolRef × ℕ)) := do
  match ← (Call.getSemaphore actor timeoutSecs).ask with
  | .error e => .ret (.error e)
  | .ok () =>
    match ← (Call.getPool actor chainId).ask with
    | none => do
      (Call.dropPermit actor).ask
      .ret (.error (.noEndpointsAvailable chainId))
    | some pool =>
      let strategy := match stickyIndex with
        | some index => .stickySession index
        | none => .weightedLeastResponseTime
      match ← (Call.selectEndpoint pool strategy).ask with
      | none => do
        (Call.dropPermit actor).ask
        .ret (.error (.allEndpointsUnhealthy chainId))
      | some index => .ret (.ok (pool, index))

def executeUnary (actor : SelectActor) (chainId : ChainId) (stickyIndex : Option ℕ)
    (timeoutSecs : ℕ) (method : Method) : RpcProg (Except LobbyRpcError method.Result) := do
  let start ← Call.instant.ask
  match ← acquireUnaryContext actor chainId stickyIndex timeoutSecs with
  | .error e => .ret (.error e)
  | .ok (pool, index) =>
    match ← (Call.operation pool index method).ask with
    | .ok result => do
      (Call.recordSuccess pool index start).ask
      (Call.dropPermit actor).ask
      (Call.dropContext pool index).ask
      .ret (.ok result)
    | .error e => do
      (Call.recordFailure pool index).ask
      (Call.dropPermit actor).ask
      (Call.dropContext pool index).ask
      .ret (.error (.transportError e))

/-! ## The requests of the actors -/

/-- What a request returns. -/
inductive Answer : Type where
  | txHash (txHash : TxHash)
  | nonce (nonce : TxNonce)
  | receipt (receipt : Option TransactionReceipt)
  | blockNumber (number : UInt64)
  | index (index : Option ℕ)

/-- A request of the API: an operation, and how its result and its error are returned. -/
def unaryRequest (actor : SelectActor) (chainId : ChainId) (strategy : LoadBalancingStrategy)
    (timeoutSecs : ℕ) (method : Method) (answer : method.Result → Answer)
    (err : String → LobbyRpcError) : RpcProg (Except LobbyRpcError Answer) := do
  match ← executeUnary actor chainId strategy.stickyIndex timeoutSecs method with
  | .ok result => .ret (.ok (answer result))
  | .error e => .ret (.error (err e.toString))

def sendRawTransaction (chainId : ChainId) (strategy : LoadBalancingStrategy)
    (signedTxn : List UInt8) (timeoutSecs : ℕ) : RpcProg (Except LobbyRpcError Answer) :=
  unaryRequest .broadcast chainId strategy timeoutSecs (.sendRawTransaction signedTxn) .txHash
    .rpcBroadcastError

def getTransactionCount (chainId : ChainId) (strategy : LoadBalancingStrategy)
    (fromAddress : Address) (timeoutSecs : ℕ) : RpcProg (Except LobbyRpcError Answer) :=
  unaryRequest .broadcast chainId strategy timeoutSecs (.getTransactionCount fromAddress)
    (fun nonce => .nonce ⟨BitVec.ofNat 256 nonce.toNat⟩) .nonceFetchError

def getTransactionReceipt (chainId : ChainId) (strategy : LoadBalancingStrategy)
    (txHash : TxHash) (timeoutSecs : ℕ) : RpcProg (Except LobbyRpcError Answer) :=
  unaryRequest .validator chainId strategy timeoutSecs (.getTransactionReceipt txHash) .receipt
    .receiptFetchFailed

def getBlockNumber (chainId : ChainId) (strategy : LoadBalancingStrategy) (timeoutSecs : ℕ) :
    RpcProg (Except LobbyRpcError Answer) :=
  unaryRequest .validator chainId strategy timeoutSecs .getBlockNumber .blockNumber .blockNotFound

def acquireHealthyEndpoint (chainId : ChainId) (timeoutSecs : ℕ) :
    RpcProg (Except LobbyRpcError Answer) := do
  match ← (Call.getSemaphore .validator timeoutSecs).ask with
  | .error e => .ret (.error e)
  | .ok () =>
    match ← (Call.getPool .validator chainId).ask with
    | none => do
      (Call.dropPermit .validator).ask
      .ret (.error (.noEndpointsAvailable chainId))
    | some pool => do
      let index ← (Call.bestEndpointIndex pool).ask
      (Call.dropPermit .validator).ask
      .ret (.ok (.index index))

inductive Request : Type where
  | sendRawTransaction (chainId : ChainId) (strategy : LoadBalancingStrategy)
      (signedTxn : List UInt8) (timeoutSecs : ℕ)
  | getTransactionCount (chainId : ChainId) (strategy : LoadBalancingStrategy)
      (fromAddress : Address) (timeoutSecs : ℕ)
  | getTransactionReceipt (chainId : ChainId) (strategy : LoadBalancingStrategy)
      (txHash : TxHash) (timeoutSecs : ℕ)
  | getBlockNumber (chainId : ChainId) (strategy : LoadBalancingStrategy) (timeoutSecs : ℕ)
  | acquireHealthyEndpoint (chainId : ChainId) (timeoutSecs : ℕ)

namespace Request

def program : Request → RpcProg (Except LobbyRpcError Answer)
  | .sendRawTransaction chainId strategy signedTxn timeoutSecs =>
    Rpc.sendRawTransaction chainId strategy signedTxn timeoutSecs
  | .getTransactionCount chainId strategy fromAddress timeoutSecs =>
    Rpc.getTransactionCount chainId strategy fromAddress timeoutSecs
  | .getTransactionReceipt chainId strategy txHash timeoutSecs =>
    Rpc.getTransactionReceipt chainId strategy txHash timeoutSecs
  | .getBlockNumber chainId strategy timeoutSecs =>
    Rpc.getBlockNumber chainId strategy timeoutSecs
  | .acquireHealthyEndpoint chainId timeoutSecs => Rpc.acquireHealthyEndpoint chainId timeoutSecs

/-- The actor whose permits and pools a request uses. -/
def actor : Request → SelectActor
  | .sendRawTransaction _ _ _ _ | .getTransactionCount _ _ _ _ => .broadcast
  | .getTransactionReceipt _ _ _ _ | .getBlockNumber _ _ _ | .acquireHealthyEndpoint _ _ =>
    .validator

def chainId : Request → ChainId
  | .sendRawTransaction chainId _ _ _ | .getTransactionCount chainId _ _ _
  | .getTransactionReceipt chainId _ _ _ | .getBlockNumber chainId _ _
  | .acquireHealthyEndpoint chainId _ => chainId

/-- Whether it runs an operation on a provider. -/
def isUnary : Request → Bool
  | .acquireHealthyEndpoint _ _ => false
  | _ => true

end Request

/-! ## The client under its requests -/

/-- `RPC_BROADCAST_CONCURRENCY` and `RPC_VALIDATOR_CONCURRENCY`. -/
def concurrency : SelectActor → ℕ
  | .broadcast => 32
  | .validator => 32

/-- How an operation on an endpoint ended. -/
structure Record (ι : Type*) where
  request : ι
  pool : PoolRef
  index : ℕ
  succeeded : Bool

/-- The client, the permits and contexts that are out, and what happened so far. -/
structure World (ι : Type*) where
  client : RpcClient Float
  clock : Instant
  permits : SelectActor → List ι
  contexts : List (ι × PoolRef × ℕ)
  /-- the operations that were started -/
  operations : List (ι × PoolRef × ℕ)
  records : List (Record ι)

/-- What the model does not determine of a call. -/
structure Choice where
  readings : Readings
  /-- the end of the call -/
  now : Instant
  /-- the wait for a permit has timed out -/
  timedOut : Bool
  /-- the draw of `fastrand::f64()` -/
  draw : Float
  reply : (method : Method) → Except String method.Result

section world

variable {ι : Type*} [DecidableEq ι]

/-- The endpoints behind a reference, by their metrics. -/
def World.pool (w : World ι) (pool : PoolRef) : EndpointPool Float :=
  ⟨(w.client.pools pool).map EndpointEntry.metrics⟩

/-- An outcome on an endpoint. -/
def World.record (w : World ι) (pool : PoolRef) (index : ℕ) (outcome : EndpointMetrics.Outcome)
    (t : Readings) : RpcClient Float :=
  { w.client with
    pools := Function.update w.client.pools pool
      ((w.client.pools pool).modify index fun entry =>
        { entry with metrics := entry.metrics.record outcome t }) }

/-- A call of the request `i`; a wait for a permit ends when there is one, or has timed out. -/
def World.perform (i : ι) (choice : Choice) :
    (c : Call) → World ι → Option (c.Reply × World ι)
  | .instant, w => some (choice.readings.read 0, { w with clock := choice.now })
  | .getSemaphore actor timeoutSecs, w =>
    if choice.timedOut then
      some (.error (.permitAcquisitionTimeout timeoutSecs), { w with clock := choice.now })
    else if (w.permits actor).length < concurrency actor then
      some (.ok (), { w with
        clock := choice.now
        permits := Function.update w.permits actor (i :: w.permits actor) })
    else none
  | .getPool actor chainId, w =>
    some (w.client.getPool actor chainId, { w with clock := choice.now })
  | .selectEndpoint pool strategy, w =>
    let selected := (w.pool pool).selectEndpoint strategy choice.draw choice.readings
    some (selected, { w with
      clock := choice.now
      contexts := selected.toList.map (fun index => (i, pool, index)) ++ w.contexts })
  | .bestEndpointIndex pool, w =>
    some ((w.pool pool).bestEndpointIndex choice.draw choice.readings,
      { w with clock := choice.now })
  | .operation pool index method, w =>
    some (choice.reply method, { w with
      clock := choice.now
      operations := (i, pool, index) :: w.operations })
  | .recordSuccess pool index start, w =>
    some ((), { w with
      client := w.record pool index (.success (elapsedSince start (choice.readings.read 0)))
        (choice.readings.drop 1)
      clock := choice.now
      records := ⟨i, pool, index, true⟩ :: w.records })
  | .recordFailure pool index, w =>
    some ((), { w with
      client := w.record pool index .failure choice.readings
      clock := choice.now
      records := ⟨i, pool, index, false⟩ :: w.records })
  | .dropPermit actor, w =>
    some ((), { w with
      clock := choice.now
      permits := Function.update w.permits actor ((w.permits actor).erase i) })
  | .dropContext pool index, w =>
    some ((), { w with
      clock := choice.now
      contexts := w.contexts.erase (i, pool, index) })

/-- The requests and their client; nothing else happens to it. -/
def machine : Machine ι Choice Empty Call Call.Reply (World ι) where
  perform := World.perform
  external event _ := event.elim

/-- A call starts when the one before it has ended, and a draw lies in `[0, 1)`. -/
def conditions : Machine.Conditions ι Choice Empty Call (World ι) where
  call _ choice _ w := w.clock ≤ choice.readings.read 0
    ∧ (∀ k, choice.readings.read k ≤ choice.now) ∧ 0.0 ≤ choice.draw ∧ choice.draw < 1.0
  external _ _ := True

/-- The client that `build_rpc_client` has made, before any request. -/
def World.start (client : RpcClient Float) (clock : Instant) : World ι :=
  ⟨client, clock, fun _ => [], [], [], []⟩

/-- The requests at their start. -/
def start (requests : ι → Request) (client : RpcClient Float) (clock : Instant) :
    Interaction.Config ι Call Call.Reply (World ι) (Except LobbyRpcError Answer) where
  thread i := (requests i).program
  world := .start client clock

end world

/-! ## What one request has -/

/-- The permits and contexts of one request, and what it has done. -/
structure View where
  permits : SelectActor → ℕ
  contexts : List (PoolRef × ℕ)
  operations : List (PoolRef × ℕ)
  records : List (PoolRef × ℕ × Bool)

namespace View

def idle : View := ⟨fun _ => 0, [], [], []⟩

/-- What a call changes. -/
def after (v : View) : (c : Call) → c.Reply → View
  | .getSemaphore actor _, .ok () =>
    { v with permits := Function.update v.permits actor (v.permits actor + 1) }
  | .selectEndpoint pool _, some index => { v with contexts := (pool, index) :: v.contexts }
  | .operation pool index _, _ => { v with operations := (pool, index) :: v.operations }
  | .recordSuccess pool index _, _ => { v with records := (pool, index, true) :: v.records }
  | .recordFailure pool index, _ => { v with records := (pool, index, false) :: v.records }
  | .dropPermit actor, _ =>
    { v with permits := Function.update v.permits actor (v.permits actor - 1) }
  | .dropContext pool index, _ => { v with contexts := v.contexts.erase (pool, index) }
  | _, _ => v

/-- What a request ensures before a call, given the pool of its actor and chain. -/
def Allows (v : View) (actor : SelectActor) (registered : Option PoolRef) : Call → Prop
  | .getSemaphore actor' _ => actor' = actor ∧ v.permits actor' = 0
  | .recordSuccess pool index _ | .recordFailure pool index =>
    (pool, index) ∈ v.contexts ∧ registered = some pool
  | .dropContext pool index => (pool, index) ∈ v.contexts
  | _ => True

/-- It has given everything back, and its operation is recorded, if it got that far. -/
structure Closed (v : View) (registered : Option PoolRef) (unary ok : Bool) : Prop where
  permits : ∀ actor, v.permits actor = 0
  contexts : v.contexts = []
  recorded : (v.operations = [] ∧ v.records = [] ∧ (unary && ok) = false)
    ∨ ∃ pool index, registered = some pool ∧ v.operations = [(pool, index)]
      ∧ v.records = [(pool, index, ok)] ∧ unary = true

end View

/-- The reply about the pool of an actor and a chain. -/
def Call.Answers (actor : SelectActor) (chainId : ChainId) (registered : Option PoolRef) :
    (c : Call) → c.Reply → Prop
  | .getPool actor' chainId', r => actor' = actor → chainId' = chainId → r = registered
  | _, _ => True

/-- The contract of a request about what it has. -/
def viewContract (actor : SelectActor) (chainId : ChainId) (registered : Option PoolRef) :
    Contract Call Call.Reply View where
  rely v v' := v = v'
  rely_refl _ := rfl
  rely_trans := Eq.trans
  requires c v := v.Allows actor registered c
  step c v r v' := v' = v.after c r ∧ c.Answers actor chainId registered r

section requests

variable {actor : SelectActor} {chainId : ChainId} {registered : Option PoolRef} {α : Type}
  {Q : α → View → Prop} {v : View}

theorem wp_view_ret {a : α} (h : Q a v) :
    wp (viewContract actor chainId registered) (.ret a) Q v :=
  wp_ret fun _ hrely => hrely ▸ h

theorem wp_view_call {c : Call} {next : c.Reply → RpcProg α}
    (hallows : v.Allows actor registered c)
    (hnext : ∀ r, c.Answers actor chainId registered r →
      wp (viewContract actor chainId registered) (next r) Q (v.after c r)) :
    wp (viewContract actor chainId registered) (.call c next) Q v := by
  refine wp_call fun v' hrely => ?_
  obtain rfl : v = v' := hrely
  refine ⟨hallows, fun r v'' hstep => ?_⟩
  rw [hstep.1]
  exact hnext r hstep.2

/-- A request that has no context yet: without one, it has given the permit back. -/
theorem wp_acquireUnaryContext (stickyIndex : Option ℕ) (timeoutSecs : ℕ) :
    wp (viewContract actor chainId registered)
      (acquireUnaryContext actor chainId stickyIndex timeoutSecs)
      (fun result v => match result with
        | .error _ => v = View.idle
        | .ok (pool, index) => registered = some pool
          ∧ v = { View.idle with
            permits := Function.update (fun _ => 0) actor 1, contexts := [(pool, index)] })
      View.idle := by
  unfold acquireUnaryContext
  refine wp_view_call ⟨rfl, rfl⟩ fun permit _ => ?_
  rcases permit with e | ⟨⟩
  · exact wp_view_ret rfl
  · refine wp_view_call trivial fun pool hpool => ?_
    rcases pool with _ | pool
    · refine wp_view_call trivial fun _ _ => wp_view_ret ?_
      simp [View.after, View.idle]
    · refine wp_view_call trivial fun choice _ => ?_
      rcases choice with _ | index
      · refine wp_view_call trivial fun _ _ => wp_view_ret ?_
        simp [View.after, View.idle]
      · exact wp_view_ret ⟨(hpool rfl rfl).symm, rfl⟩

/-- An operation is recorded once, on the endpoint it ran on. -/
theorem wp_executeUnary_closed (stickyIndex : Option ℕ) (timeoutSecs : ℕ) (method : Method) :
    wp (viewContract actor chainId registered)
      (executeUnary actor chainId stickyIndex timeoutSecs method)
      (fun result v => v.Closed registered true result.isOk) View.idle := by
  simp only [executeUnary, perform_bind]
  refine wp_view_call trivial fun begun _ => ?_
  refine wp_seq (wp_acquireUnaryContext stickyIndex timeoutSecs) fun context v hcontext => ?_
  rcases context with e | ⟨pool, index⟩
  · obtain rfl : v = View.idle := hcontext
    exact wp_view_ret ⟨fun _ => rfl, rfl, Or.inl ⟨rfl, rfl, rfl⟩⟩
  · obtain ⟨hpool, rfl⟩ := hcontext
    have hheld : (pool, index) ∈ [(pool, index)] := List.mem_singleton.mpr rfl
    refine wp_view_call trivial fun result _ => ?_
    rcases result with e | result
    all_goals
      refine wp_view_call ⟨hheld, hpool⟩ fun _ _ => wp_view_call trivial fun _ _ =>
        wp_view_call hheld fun _ _ => wp_view_ret ⟨fun actor' => ?_, ?_, ?_⟩
      · simp [View.after, View.idle]
      · simp [View.after, View.idle]
      · exact Or.inr ⟨pool, index, hpool, rfl, rfl, rfl⟩

theorem wp_unaryRequest (strategy : LoadBalancingStrategy) (timeoutSecs : ℕ) (method : Method)
    (answer : method.Result → Answer) (err : String → LobbyRpcError) :
    wp (viewContract actor chainId registered)
      (unaryRequest actor chainId strategy timeoutSecs method answer err)
      (fun result v => v.Closed registered true result.isOk) View.idle := by
  refine wp_seq (wp_executeUnary_closed strategy.stickyIndex timeoutSecs method)
    fun result v hclosed => ?_
  rcases result with e | result <;> exact wp_view_ret hclosed

/-- **Every request closes what it opens.** -/
theorem wp_request (request : Request) (registered : Option PoolRef) :
    wp (viewContract request.actor request.chainId registered) request.program
      (fun result v => v.Closed registered request.isUnary result.isOk) View.idle := by
  cases request with
  | sendRawTransaction | getTransactionCount | getTransactionReceipt | getBlockNumber =>
      exact wp_unaryRequest _ _ _ _ _
  | acquireHealthyEndpoint chainId timeoutSecs =>
      refine wp_view_call ⟨rfl, rfl⟩ fun permit _ => ?_
      rcases permit with e | ⟨⟩
      · exact wp_view_ret ⟨fun _ => rfl, rfl, Or.inl ⟨rfl, rfl, rfl⟩⟩
      · refine wp_view_call trivial fun pool _ => ?_
        rcases pool with _ | pool
        · refine wp_view_call trivial fun _ _ => wp_view_ret ⟨fun actor => ?_, rfl, ?_⟩
          · simp [View.after, View.idle]
          · exact Or.inl ⟨rfl, rfl, rfl⟩
        · refine wp_view_call trivial fun best _ => ?_
          refine wp_view_call trivial fun _ _ => wp_view_ret ⟨fun actor => ?_, rfl, ?_⟩
          · simp [View.after, View.idle]
          · exact Or.inl ⟨rfl, rfl, rfl⟩

end requests

/-! ## The requests together -/

section together

variable {ι : Type*} [DecidableEq ι] {w w' : World ι} {i j : ι} {choice : Choice} {c : Call}
  {r : c.Reply}

/-- What belongs to a request. -/
def own {β : Type*} (i : ι) (x : ι × β) : Option β := if x.1 = i then some x.2 else none

def World.view (i : ι) (w : World ι) : View where
  permits actor := (w.permits actor).count i
  contexts := w.contexts.filterMap (own i)
  operations := w.operations.filterMap (own i)
  records := w.records.filterMap fun r => own i (r.request, r.pool, r.index, r.succeeded)

theorem own_self {β : Type*} (i : ι) (x : β) : own i (i, x) = some x := if_pos rfl

theorem own_of_ne {β : Type*} (h : j ≠ i) (x : β) : own j (i, x) = none := if_neg h.symm

theorem filterMap_own_erase_self {β : Type*} [BEq β] [LawfulBEq β] (l : List (ι × β)) (i : ι)
    (x : β) : (l.erase (i, x)).filterMap (own i) = (l.filterMap (own i)).erase x := by
  induction l with
  | nil => rfl
  | cons y l ih =>
      obtain ⟨j, y⟩ := y
      by_cases hj : j = i
      · subst hj
        rw [List.filterMap_cons_some (own_self j y)]
        by_cases hy : y = x
        · subst hy
          rw [List.erase_cons_head, List.erase_cons_head]
        · rw [List.erase_cons_tail (by simpa using hy), List.erase_cons_tail (by simpa using hy),
            List.filterMap_cons_some (own_self j y), ih]
      · have hnone : own i (j, y) = none := own_of_ne (Ne.symm hj) y
        rw [List.erase_cons_tail (by simp [hj]), List.filterMap_cons_none hnone,
          List.filterMap_cons_none hnone, ih]

theorem filterMap_own_erase_of_ne {β : Type*} [BEq β] [LawfulBEq β] (l : List (ι × β))
    (h : j ≠ i) (x : β) : (l.erase (i, x)).filterMap (own j) = l.filterMap (own j) := by
  induction l with
  | nil => rfl
  | cons y l ih =>
      by_cases hy : y = (i, x)
      · subst hy
        rw [List.erase_cons_head, List.filterMap_cons_none (own_of_ne h x)]
      · rw [List.erase_cons_tail (by simpa using hy), List.filterMap_cons, List.filterMap_cons, ih]

/-- A call changes what its own request has, as `View.after` says, and nothing of the others. -/
theorem view_perform (h : w.perform i choice c = some (r, w')) (j : ι) :
    w'.view j = if j = i then (w.view i).after c r else w.view j := by
  have hself : ∀ {v v' : View}, (j = i → v' = v) → (j ≠ i → v' = w.view j) →
      v' = if j = i then v else w.view j := by
    intro v v' h₁ h₂
    by_cases hj : j = i
    · rw [if_pos hj, h₁ hj]
    · rw [if_neg hj, h₂ hj]
  -- each call touches the permits or the contexts of the request that makes it
  cases c with
  | instant | getPool | bestEndpointIndex =>
      cases h
      exact hself (fun hj => hj ▸ rfl) fun _ => rfl
  | getSemaphore actor timeoutSecs =>
      simp only [World.perform] at h
      split at h
      · cases h
        exact hself (fun hj => hj ▸ rfl) fun _ => rfl
      · split at h
        · cases h
          refine hself (fun hj => ?_) fun hj => ?_
          · subst hj
            simp only [World.view, View.after, View.mk.injEq, and_true]
            -- the semaphore of another actor does not change
            funext actor'
            by_cases hactor : actor' = actor
            · subst hactor
              simp
            · simp [hactor]
          · simp only [World.view, View.mk.injEq, and_true]
            funext actor'
            by_cases hactor : actor' = actor
            · subst hactor
              simp [List.count_cons_of_ne hj.symm]
            · simp [hactor]
        · cases h
  | selectEndpoint pool strategy =>
      cases h
      simp only [World.view]
      cases (w.pool pool).selectEndpoint strategy choice.draw choice.readings with
      | none => exact hself (fun hj => hj ▸ rfl) fun _ => rfl
      | some index =>
          refine hself (fun hj => ?_) fun hj => ?_
          · subst hj
            simp [View.after, own_self]
          · simp [World.view, own_of_ne hj]
  | operation pool index method =>
      cases h
      refine hself (fun hj => ?_) fun hj => ?_
      · subst hj
        simp [World.view, View.after, own_self]
      · simp [World.view, own_of_ne hj]
  | recordSuccess pool index | recordFailure pool index =>
      cases h
      refine hself (fun hj => ?_) fun hj => ?_
      · subst hj
        simp [World.view, View.after, own_self]
      · simp [World.view, own_of_ne hj]
  | dropPermit actor =>
      cases h
      refine hself (fun hj => ?_) fun hj => ?_
      · subst hj
        simp only [World.view, View.after, View.mk.injEq, and_true]
        funext actor'
        by_cases hactor : actor' = actor
        · subst hactor
          simp
        · simp [hactor]
      · simp only [World.view, View.mk.injEq, and_true]
        funext actor'
        by_cases hactor : actor' = actor
        · subst hactor
          simp [List.count_erase_of_ne hj]
        · simp [hactor]
  | dropContext pool index =>
      cases h
      refine hself (fun hj => ?_) fun hj => ?_
      · subst hj
        simp [World.view, View.after, filterMap_own_erase_self]
      · simp [World.view, filterMap_own_erase_of_ne _ hj]

/-! ## The counters -/

/-- The counters of an endpoint are those of its records. -/
def Counts (m : EndpointMetrics Float) (records : List (Record ι)) : Prop :=
  m.requestCount = UInt64.ofNat records.length
    ∧ m.errorCount = UInt64.ofNat (records.countP fun r => !r.succeeded)

def Record.isAt (pool : PoolRef) (index : ℕ) (r : Record ι) : Bool :=
  decide (r.pool = pool ∧ r.index = index)

/-- What holds of the client under the requests. -/
structure World.Sound (client : RpcClient Float) (requests : ι → Request) (w : World ι) :
    Prop where
  registered : ∀ actor chainId, w.client.getPool actor chainId = client.getPool actor chainId
  concurrency : ∀ actor, (w.permits actor).length ≤ concurrency actor
  nodup : ∀ actor, (w.permits actor).Nodup
  owner : ∀ actor, ∀ i ∈ w.permits actor, (requests i).actor = actor
  recorded : ∀ r ∈ w.records,
    client.getPool (requests r.request).actor (requests r.request).chainId = some r.pool
  endpoints : ∀ pool, (w.client.pools pool).map (fun entry => (entry.id, entry.url))
    = (client.pools pool).map fun entry => (entry.id, entry.url)
  counted : ∀ actor chainId pool, client.getPool actor chainId = some pool →
    ∀ index entry, (w.client.pools pool)[index]? = some entry →
      Counts entry.metrics (w.records.filter (Record.isAt pool index))

variable {client : RpcClient Float} {requests : ι → Request}

omit [DecidableEq ι] in
/-- What leaves the client, the permits and the records as they are. -/
theorem World.Sound.of_eq (h : w.Sound client requests) (hclient : w'.client = w.client)
    (hpermits : w'.permits = w.permits) (hrecords : w'.records = w.records) :
    w'.Sound client requests where
  registered := by rw [hclient]; exact h.registered
  concurrency := by rw [hpermits]; exact h.concurrency
  nodup := by rw [hpermits]; exact h.nodup
  owner := by rw [hpermits]; exact h.owner
  recorded := by rw [hrecords]; exact h.recorded
  endpoints := by rw [hclient]; exact h.endpoints
  counted := by rw [hclient, hrecords]; exact h.counted

omit [DecidableEq ι] in
/-- One more record on an endpoint that has counted the others. -/
theorem Counts.record {m : EndpointMetrics Float} {records : List (Record ι)}
    (h : Counts m records) (outcome : EndpointMetrics.Outcome) (t : Readings) {r : Record ι}
    (hr : outcome.errors = if r.succeeded then 0 else 1) :
    Counts (m.record outcome t) (r :: records) := by
  obtain ⟨hrequests, herrors, -⟩ := m.record_counts t outcome
  refine ⟨?_, ?_⟩
  · rw [hrequests, h.1, List.length_cons, UInt64.ofNat_add]
    rfl
  · rw [herrors, h.2, hr, List.countP_cons, UInt64.ofNat_add]
    cases r.succeeded <;> rfl

omit [DecidableEq ι] in
theorem pools_record (w : World ι) (pool pool' : PoolRef) (index index' : ℕ)
    (outcome : EndpointMetrics.Outcome) (t : Readings) :
    ((w.record pool index outcome t).pools pool')[index']?
      = ((w.client.pools pool')[index']?).map fun entry =>
          if pool' = pool ∧ index' = index then
            { entry with metrics := entry.metrics.record outcome t }
          else entry := by
  by_cases hpool : pool' = pool
  · subst hpool
    by_cases hindex : index' = index
    · subst hindex
      simp [World.record]
    · simp [World.record, hindex, Ne.symm hindex]
  · simp [World.record, hpool]

omit [DecidableEq ι] in
/-- A record on an endpoint of the request's own pool. -/
theorem World.Sound.record (h : w.Sound client requests) {pool : PoolRef} {index : ℕ}
    (hpool : client.getPool (requests i).actor (requests i).chainId = some pool)
    (outcome : EndpointMetrics.Outcome) (t : Readings) (succeeded : Bool)
    (hsucceeded : outcome.errors = if succeeded then 0 else 1)
    (hclient : w'.client = w.record pool index outcome t) (hpermits : w'.permits = w.permits)
    (hrecords : w'.records = ⟨i, pool, index, succeeded⟩ :: w.records) :
    w'.Sound client requests where
  registered actor chainId := by
    rw [hclient]
    exact (by cases actor <;> rfl :
      (w.record pool index outcome t).getPool actor chainId = w.client.getPool actor chainId).trans
        (h.registered actor chainId)
  concurrency := by rw [hpermits]; exact h.concurrency
  nodup := by rw [hpermits]; exact h.nodup
  owner := by rw [hpermits]; exact h.owner
  recorded := by
    rw [hrecords]
    intro r hr
    rcases List.mem_cons.mp hr with rfl | hr
    · exact hpool
    · exact h.recorded r hr
  endpoints pool' := by
    rw [hclient, ← h.endpoints pool']
    refine List.ext_getElem? fun index' => ?_
    rw [List.getElem?_map, List.getElem?_map, pools_record, Option.map_map]
    congr 1
    funext entry
    simp only [Function.comp_apply]
    split <;> rfl
  counted actor chainId pool' hget index' entry hentry := by
    rw [hclient, pools_record] at hentry
    obtain ⟨entry', hentry', rfl⟩ := Option.map_eq_some_iff.mp hentry
    have hcounts := h.counted actor chainId pool' hget index' entry' hentry'
    rw [hrecords]
    by_cases hat : pool' = pool ∧ index' = index
    · obtain ⟨rfl, rfl⟩ := hat
      rw [List.filter_cons_of_pos (by simp [Record.isAt]), if_pos ⟨rfl, rfl⟩]
      exact hcounts.record outcome t hsucceeded
    · have hnot : Record.isAt pool' index' ⟨i, pool, index, succeeded⟩ = false := by
        simp only [Record.isAt, decide_eq_false_iff_not]
        exact fun heq => hat ⟨heq.1.symm, heq.2.symm⟩
      rw [List.filter_cons_of_neg (by simp [hnot]), if_neg hat]
      exact hcounts

/-- The contract of a request among the others. -/
def requestContract (client : RpcClient Float) (requests : ι → Request) (i : ι) :
    Contract Call Call.Reply (World ι) :=
  (viewContract (requests i).actor (requests i).chainId
    (client.getPool (requests i).actor (requests i).chainId)).comap (World.view i)

/-- Every call that its request may make keeps it. -/
theorem World.Sound.perform (h : w.Sound client requests)
    (hallows : (w.view i).Allows (requests i).actor
      (client.getPool (requests i).actor (requests i).chainId) c)
    (hperform : w.perform i choice c = some (r, w')) : w'.Sound client requests := by
  cases c with
  | instant | getPool | bestEndpointIndex | selectEndpoint | operation | dropContext =>
      cases hperform
      exact h.of_eq rfl rfl rfl
  | getSemaphore actor timeoutSecs =>
      -- a permit is taken only while one is free, by a request that has none
      obtain ⟨rfl, hnone⟩ := hallows
      simp only [World.perform] at hperform
      split at hperform
      · cases hperform
        exact h.of_eq rfl rfl rfl
      · split at hperform
        · rename_i hfree
          cases hperform
          have hnotMem : i ∉ w.permits (requests i).actor := List.count_eq_zero.mp hnone
          refine ⟨h.registered, fun actor => ?_, fun actor => ?_, fun actor j hj => ?_,
            h.recorded, h.endpoints, h.counted⟩
          · by_cases hactor : actor = (requests i).actor
            · subst hactor
              simpa using hfree
            · simpa [hactor] using h.concurrency actor
          · by_cases hactor : actor = (requests i).actor
            · subst hactor
              simpa using ⟨hnotMem, h.nodup _⟩
            · simpa [hactor] using h.nodup actor
          · by_cases hactor : actor = (requests i).actor
            · subst hactor
              simp only [Function.update_self, List.mem_cons] at hj
              rcases hj with rfl | hj
              · rfl
              · exact h.owner _ j hj
            · simp only [Function.update_of_ne hactor] at hj
              exact h.owner actor j hj
        · cases hperform
  | recordSuccess pool index start =>
      cases hperform
      exact h.record hallows.2 _ _ true rfl rfl rfl rfl
  | recordFailure pool index =>
      cases hperform
      exact h.record hallows.2 _ _ false rfl rfl rfl rfl
  | dropPermit actor =>
      cases hperform
      -- one permit less: the bound, the owners and the absence of doubles stay
      have herase : ∀ actor', List.Sublist
          (Function.update w.permits actor ((w.permits actor).erase i) actor')
          (w.permits actor') := by
        intro actor'
        by_cases hactor : actor' = actor
        · subst hactor
          rw [Function.update_self]
          exact List.erase_sublist
        · rw [Function.update_of_ne hactor]
      exact ⟨h.registered, fun actor' => (herase actor').length_le.trans (h.concurrency actor'),
        fun actor' => (h.nodup actor').sublist (herase actor'),
        fun actor' j hj => h.owner actor' j ((herase actor').subset hj),
        h.recorded, h.endpoints, h.counted⟩

theorem requests_compatible (client : RpcClient Float) (requests : ι → Request) :
    Machine.Compatible machine conditions (requestContract client requests)
      (World.Sound client requests) where
  step := by
    intro i choice c w r w' hw _ hallows hperform
    refine ⟨⟨by rw [view_perform hperform i, if_pos rfl], ?_⟩, hw.perform hallows hperform⟩
    cases c with
    | getPool actor chainId =>
        cases hperform
        rintro rfl rfl
        exact hw.registered _ _
    | _ => exact trivial
  guarantee := by
    intro i j choice c w r w' hne _ _ _ hperform
    show w.view j = w'.view j
    rw [view_perform hperform j, if_neg hne]
  external := by
    intro event
    exact event.elim

/-! ## All requests of all runs -/

variable {parse : UrlParser} {vars : List (String × String)} {clock : Instant}
  {s : Interaction.Config ι Call Call.Reply (World ι) (Except LobbyRpcError Answer)}

omit [DecidableEq ι] in
/-- The endpoints of a client that was just built have no requests yet. -/
theorem start_sound (hclient : client.Serves vars) :
    (World.start client clock : World ι).Sound client requests where
  registered _ _ := rfl
  concurrency _ := Nat.zero_le _
  nodup _ := List.nodup_nil
  owner _ _ hi := by cases hi
  recorded _ hr := by cases hr
  endpoints _ := rfl
  counted actor chainId pool hget index entry hentry := by
    obtain ⟨urls, hurls⟩ := hclient.pools_eq hget
    rw [show (World.start client clock : World ι).client.pools pool = client.pools pool from rfl,
      hurls, List.getElem?_mapIdx] at hentry
    obtain ⟨url, -, rfl⟩ := Option.map_eq_some_iff.mp hentry
    exact ⟨rfl, rfl⟩

theorem requests_safe (hclient : client.Serves vars)
    (h : machine.Reachable conditions (start requests client clock) s) :
    Machine.Safe (requestContract client requests) (World.Sound client requests)
      (fun i result w => (w.view i).Closed
        (client.getPool (requests i).actor (requests i).chainId) (requests i).isUnary
        result.isOk) s := by
  refine Machine.reachable_safe (requests_compatible client requests)
    ⟨start_sound hclient, fun i => ?_⟩ h
  have hidle : (World.start client clock : World ι).view i = View.idle := rfl
  have hwp := wp_request (requests i) (client.getPool (requests i).actor (requests i).chainId)
  rw [← hidle] at hwp
  exact wp_comap hwp

/-- **Permits come back, and every operation is recorded once.**  Whatever the order of the
calls, an actor has at most 32 permits out, all of them with requests that have not ended; a
request that has ended has recorded its operation, if it came to one, on the endpoint of its
actor and chain where it ran; and the counters of an endpoint are those of the records of the
requests of that actor and chain. -/
theorem requests_recorded (hclient : buildRpcClient parse vars = .ok client)
    (h : machine.Reachable conditions (start requests client clock) s) :
    (∀ actor, (s.world.permits actor).length ≤ 32 ∧ (s.world.permits actor).Nodup
      ∧ ∀ i ∈ s.world.permits actor, (requests i).actor = actor
        ∧ ∀ result, s.thread i ≠ .ret result)
    ∧ (∀ i result, s.thread i = .ret result → (s.world.view i).Closed
        (client.getPool (requests i).actor (requests i).chainId) (requests i).isUnary
        result.isOk)
    ∧ ∀ actor chainId endpoints, client.endpoints actor chainId = some endpoints →
      ∃ endpoints', s.world.client.endpoints actor chainId = some endpoints'
        ∧ endpoints'.map (fun entry => (entry.id, entry.url))
          = endpoints.map (fun entry => (entry.id, entry.url))
        ∧ ∀ index entry, endpoints'[index]? = some entry →
          Counts entry.metrics (s.world.records.filter fun r =>
            decide ((requests r.request).actor = actor ∧ (requests r.request).chainId = chainId
              ∧ r.index = index)) := by
  have hserves := serves_of_buildRpcClient hclient
  have hsafe := requests_safe hserves h
  have hsound := hsafe.1
  refine ⟨fun actor => ⟨?_, hsound.nodup actor, fun i hi => ⟨hsound.owner actor i hi, ?_⟩⟩,
    fun i result hthread => hsafe.ended hthread, fun actor chainId endpoints hendpoints => ?_⟩
  · have hle := hsound.concurrency actor
    cases actor <;> exact hle
  · intro result hthread
    have hnone := (hsafe.ended hthread).permits actor
    exact List.count_eq_zero.mp hnone hi
  · obtain ⟨pool, hpool, rfl⟩ := Option.map_eq_some_iff.mp hendpoints
    refine ⟨s.world.client.pools pool, ?_, hsound.endpoints pool, fun index entry hentry => ?_⟩
    · rw [RpcClient.endpoints, hsound.registered, hpool, Option.map_some]
    · -- the pool belongs to this actor and this chain alone
      have hfilter : s.world.records.filter (Record.isAt pool index)
          = s.world.records.filter fun r =>
            decide ((requests r.request).actor = actor ∧ (requests r.request).chainId = chainId
              ∧ r.index = index) := by
        refine List.filter_congr fun r hr => ?_
        have hrecorded := hsound.recorded r hr
        refine decide_eq_decide.mpr ⟨?_, ?_⟩
        · rintro ⟨rfl, rfl⟩
          obtain ⟨hactor, hchain⟩ := hserves.separate _ _ _ _ _ hrecorded hpool
          exact ⟨hactor, hchain, rfl⟩
        · rintro ⟨rfl, rfl, rfl⟩
          exact ⟨Option.some.inj (hrecorded.symm.trans hpool), rfl⟩
      rw [← hfilter]
      exact hsound.counted actor chainId pool hpool index entry hentry

/-! ## No request is stuck -/

/-- A call at the present moment that does not time out. -/
def Choice.atOnce (now : Instant) : Choice where
  readings := .pausing now 0
  now := now
  timedOut := false
  draw := 0.5
  reply _ := .error ""

/-- Only a wait for a permit has to wait. -/
theorem perform_atOnce (w : World ι) (i : ι) (c : Call)
    (hfree : ∀ actor timeoutSecs, c = .getSemaphore actor timeoutSecs →
      (w.permits actor).length < concurrency actor) :
    ∃ r w', w.perform i (.atOnce w.clock) c = some (r, w') := by
  cases c with
  | getSemaphore actor timeoutSecs =>
      have hperform : w.perform i (.atOnce w.clock) (.getSemaphore actor timeoutSecs)
          = if (w.permits actor).length < concurrency actor then
              some (.ok (), { w with
                permits := Function.update w.permits actor (i :: w.permits actor) })
            else none := rfl
      rw [hperform, if_pos (hfree actor timeoutSecs rfl)]
      exact ⟨_, _, rfl⟩
  | _ => exact ⟨_, _, rfl⟩

/-- **As long as a request has not ended, some request can go on**, even if no wait ever times
out.  An operation is one call that returns: `execute_unary` sets no time limit on it. -/
theorem requests_progress (hclient : buildRpcClient parse vars = .ok client)
    (h : machine.Reachable conditions (start requests client clock) s)
    (hi : ∀ result, s.thread i ≠ .ret result) :
    ∃ j choice, choice.timedOut = false ∧ conditions.meets s (.call j choice)
      ∧ (machine.step s (.call j choice)).isSome = true := by
  have hsafe := requests_safe (serves_of_buildRpcClient hclient) h
  have hgo : ∀ (j : ι) (c : Call) (next : c.Reply → RpcProg (Except LobbyRpcError Answer)),
      s.thread j = .call c next →
      (∃ r w', s.world.perform j (.atOnce s.world.clock) c = some (r, w')) →
      ∃ j choice, choice.timedOut = false ∧ conditions.meets s (.call j choice)
        ∧ (machine.step s (.call j choice)).isSome = true := by
    rintro j c next hthread ⟨r, w', hperform⟩
    refine ⟨j, .atOnce s.world.clock, rfl, ?_, ?_⟩
    · simp only [Machine.Conditions.meets, hthread]
      refine ⟨by simp [Choice.atOnce], Readings.read_pausing_le s.world.clock 0, ?_⟩
      show 0.0 ≤ (0.5 : Float) ∧ (0.5 : Float) < 1.0
      decide +kernel
    · have hmachine : machine.perform j (.atOnce s.world.clock) c s.world = some (r, w') :=
        hperform
      simp [Machine.step, hthread, hmachine]
  cases hthread : s.thread i with
  | ret result => exact absurd hthread (hi result)
  | call c next =>
      by_cases hfree : ∀ actor timeoutSecs, c = .getSemaphore actor timeoutSecs →
          (s.world.permits actor).length < concurrency actor
      · exact hgo i c next hthread (perform_atOnce s.world i c hfree)
      · -- all permits of the actor are out, so a request that has one goes on
        push Not at hfree
        obtain ⟨actor, timeoutSecs, rfl, hfull⟩ := hfree
        have hpos : 0 < (s.world.permits actor).length := by
          refine Nat.lt_of_lt_of_le ?_ hfull
          cases actor <;> decide
        obtain ⟨j, hj⟩ := List.exists_mem_of_length_pos hpos
        cases hthread' : s.thread j with
        | ret result =>
            have hnone := (hsafe.ended hthread').permits actor
            exact absurd hj (List.count_eq_zero.mp hnone)
        | call c' next' =>
            refine hgo j c' next' hthread' (perform_atOnce s.world j c' ?_)
            rintro actor' timeoutSecs' rfl
            obtain ⟨hactor, hnone⟩ := hsafe.requires hthread'
            rw [hactor, hsafe.1.owner actor j hj] at hnone
            exact absurd hj (List.count_eq_zero.mp hnone)

/-! ## One pool under all requests -/

/-- The choice of a context on a pool. -/
def choiceOn {ι : Type*} (pool : PoolRef) (x : ι × PoolRef × ℕ) : Option ℕ :=
  if x.2.1 = pool then some x.2.2 else none

/-- The pool behind a reference, seen from its clients. -/
structure World.Shows (w : World ι) (pool : PoolRef) (st : PoolState) : Prop where
  endpoints : st.pool = w.pool pool
  choices : st.choices.Perm (w.contexts.filterMap (choiceOn pool))
  clock : st.clock ≤ w.clock

/-- Requests of clients from one state of a pool to one that the world shows. -/
def World.Follows (w : World ι) (pool : PoolRef) (st : PoolState) : Prop :=
  ∃ calls st', PoolState.Run st calls st' ∧ (∀ call ∈ calls, call.IsRequest) ∧ w.Shows pool st'

variable {pool : PoolRef} {st : PoolState}

omit [DecidableEq ι] in
/-- A call that does not touch the pool. -/
theorem World.Shows.untouched (h : w.Shows pool st) (hpool : w'.pool pool = w.pool pool)
    (hcontexts : w'.contexts.filterMap (choiceOn pool) = w.contexts.filterMap (choiceOn pool))
    (hclock : w.clock ≤ w'.clock) : w'.Follows pool st :=
  ⟨[], st, .refl st, by simp, h.endpoints.trans hpool.symm, hcontexts ▸ h.choices,
    h.clock.trans hclock⟩

omit [DecidableEq ι] in
/-- A call on the pool. -/
theorem World.Shows.called (h : w.Shows pool st) (call : PoolCall) {t : Readings} {now : Instant}
    (hadmits : st.Admits call) (hrequest : call.IsRequest) (hfrom : w.clock ≤ t.read 0)
    (hto : ∀ k, t.read k ≤ now) (hshows : w'.Shows pool (st.perform t now call)) :
    w'.Follows pool st :=
  ⟨[call], _, .step hadmits (h.clock.trans hfrom) hto (.refl _), by simpa using hrequest, hshows⟩

omit [DecidableEq ι] in
theorem pool_record (w : World ι) (pool pool' : PoolRef) (index : ℕ)
    (outcome : EndpointMetrics.Outcome) (t : Readings) :
    (⟨((w.record pool index outcome t).pools pool').map EndpointEntry.metrics⟩
        : EndpointPool Float)
      = if pool' = pool then (w.pool pool').modify index (·.record outcome t)
        else w.pool pool' := by
  have hext : ∀ {l l' : List (EndpointMetrics Float)}, (∀ k, l[k]? = l'[k]?) →
      (⟨l⟩ : EndpointPool Float) = ⟨l'⟩ := fun h => congrArg _ (List.ext_getElem? h)
  by_cases hpool : pool' = pool
  · rw [if_pos hpool, EndpointPool.modify]
    refine hext fun k => ?_
    rw [List.getElem?_map, pools_record, Option.map_map, List.getElem?_modify, World.pool,
      List.getElem?_map]
    cases (w.client.pools pool')[k]? with
    | none => rfl
    | some entry =>
        by_cases hk : k = index
        · simp [hpool, hk]
        · simp [hk, Ne.symm hk]
  · rw [if_neg hpool]
    refine hext fun k => ?_
    rw [List.getElem?_map, pools_record, Option.map_map, List.getElem?_map]
    congr 1
    funext entry
    simp [hpool]

theorem mem_contexts_of_view {index : ℕ} (h : (pool, index) ∈ (w.view i).contexts) :
    (i, pool, index) ∈ w.contexts := by
  obtain ⟨⟨j, x⟩, hx, hown⟩ := List.mem_filterMap.mp h
  by_cases hj : j = i
  · subst hj
    rw [own_self] at hown
    cases hown
    exact hx
  · rw [own_of_ne (Ne.symm hj)] at hown
    cases hown

omit [DecidableEq ι] in
theorem World.Shows.mem_choices (h : w.Shows pool st) {index : ℕ}
    (hmem : (i, pool, index) ∈ w.contexts) : index ∈ st.choices :=
  h.choices.mem_iff.mpr (List.mem_filterMap.mpr ⟨_, hmem, if_pos rfl⟩)

/-- What a dropped context leaves of the choices. -/
theorem choices_erase {index : ℕ} (hmem : (i, pool, index) ∈ w.contexts) (pool' : PoolRef) :
    if pool' = pool then
      ((w.contexts.filterMap (choiceOn pool')).erase index).Perm
        ((w.contexts.erase (i, pool, index)).filterMap (choiceOn pool'))
    else (w.contexts.filterMap (choiceOn pool')).Perm
      ((w.contexts.erase (i, pool, index)).filterMap (choiceOn pool')) := by
  have hperm := (List.perm_cons_erase hmem).filterMap (choiceOn pool')
  by_cases hpool : pool' = pool
  · subst hpool
    rw [if_pos rfl]
    have hchoice : choiceOn pool' (i, pool', index) = some index := if_pos rfl
    rw [List.filterMap_cons_some hchoice] at hperm
    have herase := hperm.erase index
    rwa [List.erase_cons_head] at herase
  · rw [if_neg hpool]
    have hchoice : choiceOn pool' (i, pool, index) = none := if_neg (Ne.symm hpool)
    rwa [List.filterMap_cons_none hchoice] at hperm

omit [DecidableEq ι] in
/-- A recorded outcome. -/
theorem World.Shows.record (h : w.Shows pool st) {pool' : PoolRef} {index : ℕ}
    (hmem : (i, pool', index) ∈ w.contexts) (outcome : EndpointMetrics.Outcome) (t : Readings)
    (hclient : w'.client = w.record pool' index outcome t)
    (hcontexts : w'.contexts = w.contexts) (hfrom : w.clock ≤ t.read 0)
    (hto : ∀ k, t.read k ≤ w'.clock) : w'.Follows pool st := by
  have hpool : w'.pool pool = _ := (congrArg (fun client : RpcClient Float =>
    (⟨(client.pools pool).map EndpointEntry.metrics⟩ : EndpointPool Float)) hclient).trans
      (pool_record w pool' pool index outcome t)
  by_cases heq : pool = pool'
  · subst heq
    rw [if_pos rfl] at hpool
    refine h.called (.record index outcome) (h.mem_choices hmem) trivial hfrom hto
      ⟨?_, hcontexts ▸ h.choices, le_rfl⟩
    rw [hpool, ← h.endpoints]
    rfl
  · rw [if_neg heq] at hpool
    exact h.untouched hpool (by rw [hcontexts]) (hfrom.trans (hto 0))

/-- One call of a request is at most one call of a client of the pool. -/
theorem World.Shows.perform (h : w.Shows pool st) {actor : SelectActor}
    {registered : Option PoolRef} (hallows : (w.view i).Allows actor registered c)
    (hcall : conditions.call i choice c w) (hperform : w.perform i choice c = some (r, w')) :
    w'.Follows pool st := by
  obtain ⟨hfrom, hto, hdraw⟩ := hcall
  have hclock : w.clock ≤ choice.now := hfrom.trans (hto 0)
  cases c with
  | instant | getPool | bestEndpointIndex | operation | dropPermit =>
      cases hperform
      exact h.untouched rfl rfl hclock
  | getSemaphore actor timeoutSecs =>
      simp only [World.perform] at hperform
      split at hperform
      · cases hperform
        exact h.untouched rfl rfl hclock
      · split at hperform
        · cases hperform
          exact h.untouched rfl rfl hclock
        · cases hperform
  | selectEndpoint pool' strategy =>
      cases hperform
      by_cases heq : pool' = pool
      · subst heq
        refine h.called (.select strategy choice.draw) hdraw trivial hfrom hto
          ⟨h.endpoints, ?_, le_rfl⟩
        rw [PoolState.perform, h.endpoints, List.filterMap_append]
        refine List.Perm.append ?_ h.choices
        cases (w.pool pool').selectEndpoint strategy choice.draw choice.readings with
        | none => exact .nil
        | some index => simp [choiceOn]
      · refine h.untouched rfl ?_ hclock
        cases (w.pool pool').selectEndpoint strategy choice.draw choice.readings with
        | none => rfl
        | some index => simp [choiceOn, heq]
  | recordSuccess pool' index start =>
      cases hperform
      exact h.record (mem_contexts_of_view hallows.1) _ (choice.readings.drop 1) rfl rfl
        (hfrom.trans (choice.readings.monotone (Nat.zero_le _))) fun k => hto (1 + k)
  | recordFailure pool' index =>
      cases hperform
      exact h.record (mem_contexts_of_view hallows.1) _ choice.readings rfl rfl hfrom hto
  | dropContext pool' index =>
      cases hperform
      have hmem := mem_contexts_of_view hallows
      have herase := choices_erase hmem pool
      by_cases heq : pool = pool'
      · subst heq
        rw [if_pos rfl] at herase
        exact h.called (.drop index) trivial trivial hfrom hto
          ⟨h.endpoints, (h.choices.erase index).trans herase, le_rfl⟩
      · rw [if_neg heq] at herase
        exact ⟨[], st, .refl st, by simp, h.endpoints, h.choices.trans herase,
          h.clock.trans hclock⟩

theorem build_eq (n : ℕ) :
    EndpointPool.build n = (⟨List.replicate n .new⟩ : EndpointPool Float) := by
  induction n with
  | zero => rfl
  | succ n ih => rw [EndpointPool.build, ih, EndpointPool.addEndpoint, List.replicate_succ']

theorem map_metrics_mapIdx (actor : SelectActor) (chainId : ChainId) (urls : List String) :
    (urls.mapIdx (freshEntry actor chainId)).map EndpointEntry.metrics
      = List.replicate urls.length (.new : EndpointMetrics Float) := by
  refine List.ext_getElem? fun k => ?_
  rw [List.getElem?_map, List.getElem?_mapIdx, List.getElem?_replicate]
  by_cases hk : k < urls.length
  · rw [if_pos hk, List.getElem?_eq_getElem hk]
    rfl
  · rw [if_neg hk, List.getElem?_eq_none (Nat.not_lt.mp hk)]
    rfl

/-- **To a pool the requests are clients that keep the rules.**  Whatever the order of the
calls, the endpoints of a pool are those of a run of clients from the pool that
`build_rpc_client` made, which hold the choices of the contexts that are out. -/
theorem pools_run (hclient : buildRpcClient parse vars = .ok client)
    (h : machine.Reachable conditions (start requests client clock) s) {actor : SelectActor}
    {chainId : ChainId} (hpool : client.getPool actor chainId = some pool) :
    ∃ calls st, PoolState.Run (.built (client.pools pool).length clock) calls st
      ∧ (∀ call ∈ calls, call.IsRequest) ∧ s.world.Shows pool st := by
  have hserves := serves_of_buildRpcClient hclient
  induction h with
  | start =>
      obtain ⟨urls, hurls⟩ := hserves.pools_eq hpool
      refine ⟨[], _, .refl _, by simp, ?_, .nil, le_rfl⟩
      show EndpointPool.build (client.pools pool).length
        = ⟨(client.pools pool).map EndpointEntry.metrics⟩
      rw [hurls, List.length_mapIdx, build_eq, map_metrics_mapIdx]
  | @next s s' event hs hmeets hstep ih =>
      obtain ⟨calls, st, hrun, hrequests, hshows⟩ := ih
      cases event with
      | call i choice =>
          obtain ⟨c, next, r, w', hthread, hperform, rfl⟩ := Machine.step_call_eq_some hstep
          have hcall : conditions.call i choice c s.world := by
            simpa only [Machine.Conditions.meets, hthread] using hmeets
          have hallows := (requests_safe hserves hs).requires hthread
          obtain ⟨calls', st', hrun', hrequests', hshows'⟩ :=
            hshows.perform hallows hcall hperform
          refine ⟨calls ++ calls', st', hrun.trans hrun', fun call hmem => ?_, hshows'⟩
          exact (List.mem_append.mp hmem).elim (hrequests call) (hrequests' call)
      | external event => exact event.elim

end together

/-! ## Two requests -/

/-- A call at the instant zero. -/
def still : Choice where
  readings := .pausing 0 0
  now := 0
  timedOut := false
  draw := 0.5
  reply
    | .sendRawTransaction _ => .error "nonce too low"
    | .getTransactionCount _ => .ok 0
    | .getTransactionReceipt _ => .ok none
    | .getBlockNumber => .ok 7

theorem clock_perform {ι : Type} [DecidableEq ι] {w w' : World ι} {i : ι} {choice : Choice}
    {c : Call} {r : c.Reply} (h : w.perform i choice c = some (r, w')) :
    w'.clock = choice.now := by
  cases c with
  | getSemaphore actor timeoutSecs =>
      simp only [World.perform] at h
      split at h
      · cases h
        rfl
      · split at h <;> cases h
        rfl
  | _ =>
      cases h
      rfl

/-- Calls of some requests, one after the other, the clock standing still. -/
theorem reachable_still {ι : Type} [DecidableEq ι] {movers : List ι}
    {s s' : Interaction.Config ι Call Call.Reply (World ι) (Except LobbyRpcError Answer)}
    (hclock : s.world.clock = 0)
    (h : machine.run s (movers.map fun i => .call i still) = some s') :
    machine.Reachable conditions s s' := by
  induction movers generalizing s with
  | nil =>
      cases h
      exact .start
  | cons i movers ih =>
      obtain ⟨s₁, hstep, hrun⟩ := Option.bind_eq_some_iff.mp h
      have hmeets : conditions.meets s (.call i still) := by
        cases hthread : s.thread i with
        | ret result => simp only [Machine.Conditions.meets, hthread]
        | call c next =>
            simp only [Machine.Conditions.meets, hthread]
            refine ⟨hclock.le, Readings.read_pausing_le 0 0, ?_⟩
            show 0.0 ≤ (0.5 : Float) ∧ (0.5 : Float) < 1.0
            decide +kernel
      have hclock₁ : s₁.world.clock = 0 := by
        obtain ⟨c, next, r, w', -, hperform, rfl⟩ := Machine.step_call_eq_some hstep
        exact clock_perform hperform
      exact (Machine.Reachable.next .start hmeets hstep).trans (ih hclock₁ hrun)

/-- The validator asks for the block number, and the broadcast actor sends a transaction. -/
def sampleRequests : Bool → Request
  | true => .getBlockNumber ⟨1⟩ (.stickySession 1) 5
  | false => .sendRawTransaction ⟨1⟩ (.stickySession 0) [2] 30

def sampleClient : RpcClient Float :=
  (buildRpcClient schemeOf sampleEndpointVars).toOption.getD (.new fun _ => [])

theorem sampleClient_built : buildRpcClient schemeOf sampleEndpointVars = .ok sampleClient := by
  have hbuilt : (buildRpcClient schemeOf sampleEndpointVars : Except _ (RpcClient Float)) = .ok _ :=
    buildRpcClient_eq_ok_iff.mpr
      ⟨sampleEndpointVars_wellFormed, sampleEndpointVars_listing, rfl⟩
  rw [sampleClient, hbuilt]
  rfl

abbrev SampleState : Type :=
  Interaction.Config Bool Call Call.Reply (World Bool) (Except LobbyRpcError Answer)

/-- The transaction has been sent, and the request for the block number has ended. -/
def sampleMovers : List Bool :=
  List.replicate 5 false ++ List.replicate 8 true

/-- Whether the validator's request has ended, the permits of the other actor, and the request
counts of the validator's endpoints. -/
def sampleOutcome (s : SampleState) : Bool × List Bool × Option (List UInt64) :=
  (match s.thread true with
    | .ret result => result.isOk
    | .call _ _ => false,
    s.world.permits .broadcast,
    (s.world.client.endpoints .validator ⟨1⟩).map (·.map fun entry => entry.metrics.requestCount))

theorem exists_sample : ∃ s : SampleState,
    machine.Reachable conditions (start sampleRequests sampleClient 0) s
      ∧ sampleOutcome s = (true, [false], some [0, 1]) := by
  have hrun : (machine.run (start sampleRequests sampleClient 0)
      (sampleMovers.map fun i => .call i still)).map sampleOutcome
        = some (true, [false], some [0, 1]) := by decide +kernel
  obtain ⟨s, hs, hshown⟩ := Option.map_eq_some_iff.mp hrun
  exact ⟨s, reachable_still rfl hs, hshown⟩

/-- The transaction holds a permit; the other request has given its own back and is counted. -/
theorem requests_recorded_sample :
    ∃ s : SampleState, machine.Reachable conditions (start sampleRequests sampleClient 0) s
      ∧ s.world.permits .broadcast = [false] ∧ (∀ result, s.thread false ≠ .ret result)
      ∧ ∃ result, s.thread true = .ret result
        ∧ (s.world.view true).Closed (sampleClient.getPool .validator ⟨1⟩) true result.isOk := by
  obtain ⟨s, hs, hshown⟩ := exists_sample
  obtain ⟨hpermits, hended, -⟩ := requests_recorded sampleClient_built hs
  obtain ⟨hresult, hpermit, -⟩ : _ ∧ _ ∧ _ := by
    simpa only [sampleOutcome, Prod.mk.injEq] using hshown
  refine ⟨s, hs, hpermit, ?_, ?_⟩
  · exact ((hpermits .broadcast).2.2 false (hpermit ▸ List.mem_cons_self)).2
  · cases hthread : s.thread true with
    | ret result => exact ⟨result, rfl, hended true result hthread⟩
    | call c next =>
        rw [hthread] at hresult
        cases hresult

/-- One of the two requests can go on. -/
theorem requests_progress_sample :
    ∃ s : SampleState, machine.Reachable conditions (start sampleRequests sampleClient 0) s
      ∧ ∃ j choice, choice.timedOut = false ∧ conditions.meets s (.call j choice)
        ∧ (machine.step s (.call j choice)).isSome = true := by
  obtain ⟨s, hs, hshown⟩ := exists_sample
  have hpermit : s.world.permits .broadcast = [false] := congrArg (fun x => x.2.1) hshown
  have hsafe := requests_safe (serves_of_buildRpcClient sampleClient_built) hs
  refine ⟨s, hs, requests_progress (i := false) sampleClient_built hs fun result hthread => ?_⟩
  have hnone := (hsafe.ended hthread).permits .broadcast
  exact List.count_eq_zero.mp hnone (hpermit ▸ List.mem_cons_self)

/-- The validator's pool after its request, as its clients see it. -/
theorem pools_run_sample :
    ∃ (s : SampleState) (pool : PoolRef) (calls : List PoolCall) (st : PoolState),
      machine.Reachable conditions (start sampleRequests sampleClient 0) s
      ∧ sampleClient.getPool .validator ⟨1⟩ = some pool
      ∧ PoolState.Run (.built (sampleClient.pools pool).length 0) calls st
      ∧ s.world.Shows pool st := by
  obtain ⟨s, hs, -⟩ := exists_sample
  have hpool : sampleClient.getPool .validator ⟨1⟩ = some 3 := by decide +kernel
  obtain ⟨calls, st, hrun, -, hshows⟩ := pools_run sampleClient_built hs hpool
  exact ⟨s, 3, calls, st, hs, hpool, hrun, hshows⟩

end Rpc

end Lobby
