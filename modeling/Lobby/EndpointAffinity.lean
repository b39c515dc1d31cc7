/-
# The endpoint of a nonce recovery

`handle_broadcast` with its RPC requests spelled out: `execute_unary` selects an endpoint of the
broadcast pool with the sticky index, runs the operation on it, and records how it ended.
Between any two steps other requests select and record on the same pool.

While the sticky endpoint is available whenever it is to be selected, every request is served by
it (`served_sticky`).  The failure of `eth_sendRawTransaction` is recorded before the nonce is
read, and may be the one that makes the endpoint unhealthy: then the nonce is read from another
node (`served_elsewhere`).
-/
import Lobby.BroadcastReplies
import Lobby.EndpointRecovery

namespace Lobby

open Interaction Prog

/-! ## execute_unary -/

/-- The operations of the broadcast actor on a provider. -/
inductive RpcMethod : Type where
  | sendRawTransaction (txn : SignedTransaction)
  | getTransactionCount (fromAddress : Address)
  deriving DecidableEq

@[reducible]
def RpcMethod.Result : RpcMethod → Type
  | .sendRawTransaction _ => TxHash
  | .getTransactionCount _ => TxNonce

/-- What the broadcast engine and its RPC client ask of their surroundings. -/
inductive UnaryCall : Type where
  | query (q : BroadcastQuery)
  | getSemaphore (timeoutSecs : ℕ)
  | getPool (chainId : ChainId)
  | selectEndpoint (strategy : LoadBalancingStrategy)
  | operation (index : ℕ) (method : RpcMethod)
  | recordSuccess (index : ℕ)
  | recordFailure (index : ℕ)

/-- The replies; an error of an operation is its text. -/
@[reducible]
def UnaryCall.Reply : UnaryCall → Type
  | .query q => Except SqlxError q.Rows
  | .getSemaphore _ => Except LobbyRpcError Unit
  | .getPool _ => Bool
  | .selectEndpoint _ => Option ℕ
  | .operation _ method => Except String method.Result
  | .recordSuccess _ | .recordFailure _ => Unit

abbrev UnaryProg (α : Type) : Type := Prog UnaryCall UnaryCall.Reply α

/-- Make one call. -/
abbrev UnaryCall.ask (c : UnaryCall) : UnaryProg c.Reply := perform c

/-- `execute_unary` of the broadcast actor, with `acquire_unary_context`. -/
def executeUnary (chainId : ChainId) (stickyIndex : Option ℕ) (timeoutSecs : ℕ)
    (method : RpcMethod) : UnaryProg (Except LobbyRpcError method.Result) := do
  match ← (UnaryCall.getSemaphore timeoutSecs).ask with
  | .error e => .ret (.error e)
  | .ok () =>
    match ← (UnaryCall.getPool chainId).ask with
    | false => .ret (.error (.noEndpointsAvailable chainId))
    | true =>
      let strategy := match stickyIndex with
        | some index => .stickySession index
        | none => .weightedLeastResponseTime
      match ← (UnaryCall.selectEndpoint strategy).ask with
      | none => .ret (.error (.allEndpointsUnhealthy chainId))
      | some index =>
        match ← (UnaryCall.operation index method).ask with
        | .ok result => do
          (UnaryCall.recordSuccess index).ask
          .ret (.ok result)
        | .error e => do
          (UnaryCall.recordFailure index).ask
          .ret (.error (.transportError e))

/-- `send_raw_transaction` and `get_transaction_count`, with a sticky session. -/
def serve : (c : BroadcastCall) → UnaryProg c.Reply
  | .query q => (UnaryCall.query q).ask
  | .sendRawTransaction chainId stickyIndex txn _ _ => do
    match ← executeUnary chainId (some stickyIndex) 30 (.sendRawTransaction txn) with
    | .ok txnHash => .ret (.ok txnHash)
    | .error e => .ret (.error (.rpcBroadcastError e.toString))
  | .getTransactionCount chainId stickyIndex fromAddress => do
    match ← executeUnary chainId (some stickyIndex) 30 (.getTransactionCount fromAddress) with
    | .ok nonce => .ret (.ok nonce)
    | .error e => .ret (.error (.nonceFetchError e.toString))

/-- `handle_broadcast` with its requests served. -/
def BroadcastCommand.served (command : BroadcastCommand) :
    UnaryProg (Except BroadcastError BroadcastOutcome) :=
  command.handler.interp serve

/-- `best_endpoint_index`, which `acquire_healthy_endpoint` asks of the pool of the validator. -/
def EndpointPool.bestEndpointIndex {F : Type} [F64 F] (pool : EndpointPool F) (u : F)
    (t : Readings) : Option ℕ :=
  pool.selectByWeightedScore u t

/-! ## The pool under its clients -/

/-- A call that acts on the pool, at some time, and ends before another one. -/
def UnaryCall.Performs (s : PoolState) (call : PoolCall) (s' : PoolState) : Prop :=
  ∃ t now, s.clock ≤ t.read 0 ∧ (∀ k, t.read k ≤ now) ∧ s' = s.perform t now call

/-- What a call may be answered, and what it does to the pool. -/
def UnaryCall.Step : (c : UnaryCall) → PoolState → c.Reply → PoolState → Prop
  | .selectEndpoint strategy, s, choice, s' =>
    ∃ u t now, (0.0 ≤ u ∧ u < 1.0) ∧ s.clock ≤ t.read 0 ∧ (∀ k, t.read k ≤ now)
      ∧ choice = s.pool.selectEndpoint strategy u t ∧ s' = s.perform t now (.select strategy u)
  -- the context is dropped after it recorded
  | .recordSuccess index, s, _, s' => ∃ duration s₁,
    UnaryCall.Performs s (.record index (.success duration)) s₁
      ∧ UnaryCall.Performs s₁ (.drop index) s'
  | .recordFailure index, s, _, s' => ∃ s₁,
    UnaryCall.Performs s (.record index .failure) s₁ ∧ UnaryCall.Performs s₁ (.drop index) s'
  | _, s, _, s' => s' = s

/-- The pool among its other clients, which do any number of calls between two of ours. -/
def unaryContract : Contract UnaryCall UnaryCall.Reply PoolState where
  rely s s' := ∃ calls, PoolState.Run s calls s'
  rely_refl s := ⟨[], .refl s⟩
  rely_trans := by
    rintro s s' s'' ⟨calls, h⟩ ⟨calls', h'⟩
    exact ⟨calls ++ calls', h.trans h'⟩
  requires _ _ := True
  step := UnaryCall.Step

abbrev UnaryLog : Type := List (Entry UnaryCall UnaryCall.Reply PoolState)

/-- The endpoint an operation ran on. -/
@[simp]
def UnaryCall.servedBy : (c : UnaryCall) → c.Reply → Option (ℕ × RpcMethod)
  | .operation index method, _ => some (index, method)
  | _, _ => none

/-- Whether a call selects an endpoint. -/
def UnaryCall.isSelection : UnaryCall → Bool
  | .selectEndpoint _ => true
  | _ => false

/-- At each selection of the log the endpoint was available. -/
def UnaryLog.AvailableAt (log : UnaryLog) (index : ℕ) : Prop :=
  ∀ entry ∈ log, entry.call.isSelection = true → entry.before.pool.IsAvailable index

/-- If the endpoint was available at each selection, every operation ran on it. -/
def UnaryLog.Sticky (index : ℕ) (log : UnaryLog) : Prop :=
  log.AvailableAt index → ∀ x ∈ readings UnaryCall.servedBy log, x.1 = index

namespace UnaryLog

variable {log : UnaryLog} {index : ℕ}

theorem AvailableAt.of_cons {entry : Entry UnaryCall UnaryCall.Reply PoolState}
    (h : AvailableAt (entry :: log) index) : log.AvailableAt index :=
  fun entry' hentry => h entry' (List.mem_cons_of_mem entry hentry)

/-- A call that is no operation keeps the log sticky. -/
theorem Sticky.cons {entry : Entry UnaryCall UnaryCall.Reply PoolState} (h : Sticky index log)
    (hother : entry.call.servedBy entry.reply = none) : Sticky index (entry :: log) := by
  intro havailable x hx
  rw [readings_cons, hother] at hx
  exact h havailable.of_cons x hx

/-- So does an operation on the sticky endpoint. -/
theorem Sticky.operation (h : Sticky index log) {method : RpcMethod} (chosen : ℕ)
    (r : Except String method.Result) (s : PoolState)
    (hchosen : log.AvailableAt index → chosen = index) :
    Sticky index (⟨.operation chosen method, r, s⟩ :: log) := by
  intro havailable x hx
  rw [readings_cons] at hx
  rcases List.mem_cons.mp hx with rfl | hx
  · exact hchosen havailable.of_cons
  · exact h havailable.of_cons x hx

end UnaryLog

/-! ## Every request on one endpoint -/

section

variable {command : BroadcastCommand} {stickyIndex : ℕ} {s : PoolState} {log : UnaryLog}

/-- The contract with the demand that the log is sticky before every call. -/
abbrev stickyContract (stickyIndex : ℕ) :
    Contract UnaryCall UnaryCall.Reply (PoolState × UnaryLog) :=
  unaryContract.logged fun _ x => UnaryLog.Sticky stickyIndex x.2

theorem wp_sticky_ret {α : Type} {a : α} {Q : α → PoolState × UnaryLog → Prop}
    (h : ∀ s', Q a (s', log)) : wp (stickyContract stickyIndex) (.ret a) Q (s, log) := by
  refine wp_ret ?_
  rintro ⟨s', _⟩ ⟨_, rfl⟩
  exact h s'

/-- A call on a sticky log. -/
theorem wp_sticky_call {α : Type} {c : UnaryCall} {next : c.Reply → UnaryProg α}
    {Q : α → PoolState × UnaryLog → Prop} (hlog : UnaryLog.Sticky stickyIndex log)
    (h : ∀ s' r s'', c.Step s' r s'' →
      wp (stickyContract stickyIndex) (next r) Q (s'', ⟨c, r, s'⟩ :: log)) :
    wp (stickyContract stickyIndex) (.call c next) Q (s, log) := by
  refine wp_call ?_
  rintro ⟨s', _⟩ ⟨_, rfl⟩
  refine ⟨⟨trivial, hlog⟩, ?_⟩
  rintro r ⟨s'', _⟩ ⟨hstep, rfl⟩
  exact h s' r s'' hstep

/-- A call that is no operation. -/
theorem wp_sticky_other {α : Type} {c : UnaryCall} {next : c.Reply → UnaryProg α}
    {Q : α → PoolState × UnaryLog → Prop} (hlog : UnaryLog.Sticky stickyIndex log)
    (hother : ∀ r, c.servedBy r = none)
    (h : ∀ s' r s'', c.Step s' r s'' → UnaryLog.Sticky stickyIndex (⟨c, r, s'⟩ :: log) →
      wp (stickyContract stickyIndex) (next r) Q (s'', ⟨c, r, s'⟩ :: log)) :
    wp (stickyContract stickyIndex) (.call c next) Q (s, log) :=
  wp_sticky_call hlog fun s' r s'' hstep => h s' r s'' hstep (hlog.cons (hother r))

/-- A request with the sticky index keeps the log sticky. -/
theorem wp_executeUnary (chainId : ChainId) (timeoutSecs : ℕ) (method : RpcMethod)
    (hlog : UnaryLog.Sticky stickyIndex log) :
    wp (stickyContract stickyIndex) (executeUnary chainId (some stickyIndex) timeoutSecs method)
      (fun _ x => UnaryLog.Sticky stickyIndex x.2) (s, log) := by
  unfold executeUnary
  refine wp_sticky_other hlog (fun _ => rfl) fun s₁ permit s₁' _ hlog => ?_
  match permit with
  | .error e => exact wp_sticky_ret fun _ => hlog
  | .ok () =>
      refine wp_sticky_other hlog (fun _ => rfl) fun s₂ registered s₂' _ hlog => ?_
      match registered with
      | false => exact wp_sticky_ret fun _ => hlog
      | true =>
          refine wp_sticky_other hlog (fun _ => rfl) fun s₃ choice s₃' hselect hlog => ?_
          match choice with
          | none => exact wp_sticky_ret fun _ => hlog
          | some index =>
              obtain ⟨u, t, now, -, -, -, hchoice, -⟩ := hselect
              refine wp_sticky_call hlog fun s₄ result s₄' _ => ?_
              -- the sticky endpoint was selected, if it was available
              have hoperation := hlog.operation index result s₄ fun havailable => by
                have hsticky := EndpointPool.selectEndpoint_sticky (u := u) (t := t)
                  (havailable _ List.mem_cons_self rfl)
                exact Option.some.inj (hchoice.trans hsticky)
              match result with
              | .ok value =>
                  refine wp_sticky_other hoperation (fun _ => rfl) fun _ _ _ _ hlog => ?_
                  exact wp_sticky_ret fun _ => hlog
              | .error e =>
                  refine wp_sticky_other hoperation (fun _ => rfl) fun _ _ _ _ hlog => ?_
                  exact wp_sticky_ret fun _ => hlog

/-- Whether a call of the engine is a statement or a request with the sticky index. -/
def BroadcastCall.UsesSticky (stickyIndex : ℕ) : BroadcastCall → Prop
  | .query _ => True
  | .sendRawTransaction _ index _ _ _ => index = stickyIndex
  | .getTransactionCount _ index _ => index = stickyIndex

theorem wp_serve {c : BroadcastCall} (hc : c.UsesSticky stickyIndex)
    (hlog : UnaryLog.Sticky stickyIndex log) :
    wp (stickyContract stickyIndex) (serve c) (fun _ x => UnaryLog.Sticky stickyIndex x.2)
      (s, log) := by
  cases c with
  | query q =>
      refine wp_sticky_other hlog (fun _ => rfl) fun _ _ _ _ hlog => ?_
      exact wp_sticky_ret fun _ => hlog
  | sendRawTransaction chainId index txn executionId revision =>
      obtain rfl : index = stickyIndex := hc
      refine wp_seq (wp_executeUnary chainId 30 _ hlog) fun result x hlog => ?_
      cases result with
      | ok txnHash => exact wp_sticky_ret fun _ => hlog
      | error e => exact wp_sticky_ret fun _ => hlog
  | getTransactionCount chainId index fromAddress =>
      obtain rfl : index = stickyIndex := hc
      refine wp_seq (wp_executeUnary chainId 30 _ hlog) fun result x hlog => ?_
      cases result with
      | ok nonce => exact wp_sticky_ret fun _ => hlog
      | error e => exact wp_sticky_ret fun _ => hlog

/-- `handle_broadcast` sends its requests with one index. -/
theorem asks_handler (command : BroadcastCommand) :
    command.handler.Asks (BroadcastCall.UsesSticky command.stickyIndex) := by
  unfold BroadcastCommand.handler handleBroadcast
  split
  · trivial
  · refine ⟨trivial, fun inserted => ?_⟩
    match inserted with
    | .error e => trivial
    | .ok none =>
        refine ⟨trivial, fun latest => ?_⟩
        match latest with
        | .error e => trivial
        | .ok row => trivial
    | .ok (some revision) =>
        refine ⟨rfl, fun reply => ?_⟩
        match reply with
        | .ok txnHash =>
            refine ⟨trivial, fun marked => ?_⟩
            match marked with
            | .error e => trivial
            | .ok n => trivial
        | .error err =>
            show (recordReply _ _ _ _ _ _ (.error err)).Asks _
            unfold recordReply
            dsimp only
            split
            · refine ⟨rfl, fun count => ?_⟩
              match count with
              | .error e => trivial
              | .ok nonceOnChain =>
                  refine ⟨trivial, fun marked => ?_⟩
                  match marked with
                  | .error e => trivial
                  | .ok n => trivial
            · refine ⟨trivial, fun marked => ?_⟩
              match marked with
              | .error e => trivial
              | .ok n => trivial

/-- What is served keeps the log sticky. -/
theorem wp_interp_serve {α : Type} {p : BroadcastProg α}
    (hp : p.Asks (BroadcastCall.UsesSticky stickyIndex))
    (hlog : UnaryLog.Sticky stickyIndex log) :
    wp (stickyContract stickyIndex) (p.interp serve)
      (fun _ x => UnaryLog.Sticky stickyIndex x.2) (s, log) := by
  induction p generalizing s log with
  | ret a => exact wp_sticky_ret fun _ => hlog
  | call c next ih =>
      refine wp_seq (wp_serve hp.1 hlog) ?_
      rintro r ⟨s', log'⟩ hlog'
      exact ih r (hp.2 r) hlog'

/-- **The endpoint of a nonce recovery.**  In every run of `handle_broadcast` among any other
clients of the pool, every request is served by the sticky endpoint if that was available at
each selection. -/
theorem served_sticky {s' : PoolState}
    {p : UnaryProg (Except BroadcastError BroadcastOutcome)}
    (h : command.served.Reaches unaryContract s log p s')
    (havailable : log.AvailableAt command.stickyIndex) :
    ∀ x ∈ readings UnaryCall.servedBy log, x.1 = command.stickyIndex := by
  have hstart : UnaryLog.Sticky command.stickyIndex [] := by
    intro _ x hx
    exact absurd hx List.not_mem_nil
  exact h.always (I := fun x => UnaryLog.Sticky command.stickyIndex x.2)
    (wp_interp_serve (asks_handler command) hstart) havailable

end

/-! ## The tenth failure -/

/-- A node that takes every nonce for too low, at a clock that stands still. -/
def nonceTooLowReply : (c : UnaryCall) → PoolState → Option (c.Reply × PoolState)
  | .query (.insertRequest _ _ _), s => some (.ok (some 1), s)
  | .query (.latestRequest _), _ => none
  | .query (.markSubmitted _ _ _), s | .query (.markRejected _ _ _), s => some (.ok 1, s)
  | .getSemaphore _, s => some (.ok (), s)
  | .getPool _, s => some (true, s)
  | .selectEndpoint strategy, s =>
    some (s.pool.selectEndpoint strategy 0.5 (.pausing s.clock 0), s.still (.select strategy 0.5))
  | .operation _ (.sendRawTransaction _), s => some (.error "nonce too low", s)
  | .operation _ (.getTransactionCount _), s => some (.ok ⟨3⟩, s)
  | .recordSuccess index, s =>
    some ((), (s.still (.record index (.success (.fromMillis 1)))).still (.drop index))
  | .recordFailure index, s => some ((), (s.still (.record index .failure)).still (.drop index))

theorem performs_still (s : PoolState) (call : PoolCall) :
    UnaryCall.Performs s call (s.still call) :=
  ⟨.pausing s.clock 0, s.clock, by simp, Readings.read_pausing_le s.clock 0, rfl⟩

theorem step_of_nonceTooLowReply : ∀ c s r s', nonceTooLowReply c s = some (r, s') →
    unaryContract.step c s r s' := by
  intro c s r s' h
  cases c with
  | query q =>
      cases q <;> cases h
      all_goals rfl
  | getSemaphore timeoutSecs =>
      cases h
      rfl
  | getPool chainId =>
      cases h
      rfl
  | selectEndpoint strategy =>
      cases h
      exact ⟨0.5, .pausing s.clock 0, s.clock, by decide +kernel, by simp,
        Readings.read_pausing_le s.clock 0, rfl, rfl⟩
  | operation index method =>
      cases method <;> cases h
      all_goals rfl
  | recordSuccess index =>
      cases h
      exact ⟨_, _, performs_still _ _, performs_still _ _⟩
  | recordFailure index =>
      cases h
      exact ⟨_, performs_still _ _, performs_still _ _⟩

/-- What a run shows: the requests, and whether the first endpoint was available at each
selection. -/
def shownRequests (log : UnaryLog) : List (ℕ × RpcMethod) × Bool :=
  (readings UnaryCall.servedBy log, log.all fun entry =>
    !entry.call.isSelection || entry.before.pool.endpoints[0]?.any (·.health.isAvailable))

theorem availableAt_of_shownRequests {log : UnaryLog} {requests : List (ℕ × RpcMethod)}
    (h : shownRequests log = (requests, true)) : log.AvailableAt 0 := by
  intro entry hentry hselection
  have hall := List.all_eq_true.mp (congrArg Prod.snd h) entry hentry
  rw [hselection, Bool.not_true, Bool.false_or, Option.any_eq_true] at hall
  exact hall

/-- The requests of the sample command. -/
def sampleRequests (countedBy : ℕ) : List (ℕ × RpcMethod) :=
  [(countedBy, .getTransactionCount BroadcastLedger.sampleCommand.fromAddress),
    (0, .sendRawTransaction BroadcastLedger.sampleCommand.txn)]

/-- On a fresh pool both requests are served by the sticky endpoint. -/
theorem served_sticky_fresh : ∃ log p s',
    BroadcastLedger.sampleCommand.served.Reaches unaryContract (.built 2 0) log p s'
      ∧ readings UnaryCall.servedBy log = sampleRequests 0
      ∧ ∀ x ∈ readings UnaryCall.servedBy log, x.1 = 0 := by
  have hrun : (BroadcastLedger.sampleCommand.served.follow nonceTooLowReply 16 (.built 2 0)).map
      (fun run => shownRequests run.1) = some (sampleRequests 0, true) := by decide +kernel
  obtain ⟨log, p, s', hreach, hshown⟩ :=
    exists_reaches (E := unaryContract) step_of_nonceTooLowReply hrun
  exact ⟨log, p, s', hreach, congrArg Prod.fst hshown,
    served_sticky hreach (availableAt_of_shownRequests hshown)⟩

/-- Nine requests on the first endpoint, each of which fails. -/
def nineFailures : List PoolCall :=
  (List.replicate 9 [.select (.stickySession 0) 0.5, .record 0 .failure, .drop 0]).flatten

/-- After them the failure of the transaction is the tenth: the nonce is read from the second
endpoint.  The index was that of `best_endpoint_index` in the pool of the validator. -/
theorem served_elsewhere :
    ∃ s, PoolState.Run (.built 2 0) nineFailures s
      ∧ (EndpointPool.build 2).bestEndpointIndex (0.25 : Float) (.pausing 0 0)
        = some BroadcastLedger.sampleCommand.stickyIndex
      ∧ ∃ log p s', BroadcastLedger.sampleCommand.served.Reaches unaryContract s log p s'
        ∧ readings UnaryCall.servedBy log = sampleRequests 1 := by
  have hrun : (BroadcastLedger.sampleCommand.served.follow nonceTooLowReply 16
      (nineFailures.foldl PoolState.still (.built 2 0))).map
      (fun run => readings UnaryCall.servedBy run.1) = some (sampleRequests 1) := by
    decide +kernel
  obtain ⟨log, p, s', hreach, hshown⟩ :=
    exists_reaches (E := unaryContract) step_of_nonceTooLowReply hrun
  exact ⟨_, PoolState.run_still (by decide +kernel), by decide +kernel, log, p, s', hreach, hshown⟩

end Lobby
