/-
# The running system

Any number of pipelines over the engines, the database, the status registry and the
network, together with the sweeper.  Every pipeline call that goes to an actor is answered
by the actor's handler; the statements and requests of all handlers interleave freely.
What the code does not determine is a choice: whether a statement fails, fails after it
was committed, what a node answers, and whether it accepted the transaction it was sent.
Every DB statement acts on the tables at the current time; time passes outside.

`World.sent` and `World.swept` record what was handed to the network and which nonces the
sweeper took back.  They are a history: no definition reads them to decide anything.
-/
import Lobby.Pipeline
import Lobby.NonceEngine
import Lobby.SignEngine
import Lobby.BroadcastEngine
import Lobby.ValidatorEngine

namespace Lobby

open Interaction Prog

/-! ## The calls of the engines -/

/-- What a pipeline and the handlers that answer it ask of their surroundings. -/
inductive EngineCall : Type where
  /-- put a command into the mailbox of its actor -/
  | deliver (command : PipelineCall)
  /-- wait for the reply to it -/
  | collect (command : PipelineCall)
  | nonce (q : NonceQuery)
  | sign (q : SignQuery)
  | broadcast (c : BroadcastCall)
  | validator (c : ValidatorCall)
  /-- a call of the pipeline that goes to no actor of the model -/
  | outside (c : PipelineCall)

/-- The replies. -/
@[reducible]
def EngineCall.Reply : EngineCall → Type
  | .deliver _ => Bool
  | .collect _ => Bool
  | .nonce q => q.Reply
  | .sign q => q.Reply
  | .broadcast c => c.Reply
  | .validator c => c.Reply
  | .outside c => c.Reply

abbrev EngineProg (α : Type) : Type := Prog EngineCall EngineCall.Reply α

/-- Make one call. -/
abbrev EngineCall.ask (c : EngineCall) : EngineProg c.Reply := perform c

/-- A command sent to an actor, with the errors of a closed mailbox and a lost reply. -/
def through {T E : Type} (command : PipelineCall) (shutDown dropped : E)
    (handler : EngineProg (Except E T)) : EngineProg (Except E T) := do
  if ← (EngineCall.deliver command).ask then do
    let result ← handler
    if ← (EngineCall.collect command).ask then .ret result else .ret (.error dropped)
  else .ret (.error shutDown)

/-! ## The deployment -/

/-- What `submit` is called with for one execution. -/
structure Submission where
  clientConfig : ClientConfig
  txn : Eip1559Transaction
  deriving DecidableEq

/-- What is fixed while the system runs. -/
structure Deployment where
  crypto : Crypto
  custodyKeys : JsonPolicyEngine
  validatorConfig : ValidatorConfig
  /-- the polling rounds a validation may run -/
  rounds : ℕ
  retryConfig : RetryConfig
  telemetry : Bool
  submission : ExecutionId → Option Submission

namespace Deployment

variable (d : Deployment)

/-- The context of the pipeline that `submit` spawns. -/
def context (e : ExecutionId) (s : Submission) : PipelineContext where
  executionId := e
  clientConfig := s.clientConfig
  txn := s.txn
  retryConfig := d.retryConfig
  telemetry := d.telemetry

/-- A command to the nonce actor. -/
def nonceActor {T : Type} (command : PipelineCall)
    (handler : Prog NonceQuery NonceQuery.Reply (Except LocalError T)) :
    EngineProg (Except LocalError T) :=
  through command (.internal "nonce actor has shut down")
    (.internal "nonce actor has dropped the reply channel")
    (handler.interp fun q => (EngineCall.nonce q).ask)

/-- A command to the sign actor. -/
def signActor {T : Type} (command : PipelineCall)
    (handler : Prog SignQuery SignQuery.Reply (Except LocalError T)) :
    EngineProg (Except LocalError T) :=
  through command (.internal "sign actor has shut down") .signReplyDropped
    (handler.interp fun q => (EngineCall.sign q).ask)

/-- The answer to a call of a pipeline. -/
def handle : (c : PipelineCall) → EngineProg c.Reply
  | .reserve chainId fromAddress e =>
      nonceActor (.reserve chainId fromAddress e) (handleReserve chainId fromAddress e)
  | .resolve e s => nonceActor (.resolve e s) (handleResolve e s)
  | .sync chainId fromAddress e nonceOnChain =>
      nonceActor (.sync chainId fromAddress e nonceOnChain)
        (handleSync chainId fromAddress e nonceOnChain)
  | .sign chainId fromAddress e txn =>
      signActor (.sign chainId fromAddress e txn)
        (handleSign d.crypto d.custodyKeys fromAddress chainId e txn)
  | .revert e => signActor (.revert e) (handleRevert e)
  | .broadcast chainId fromAddress e txn stickyIndex =>
      through (.broadcast chainId fromAddress e txn stickyIndex)
        (.internal "broadcast actor has shut down")
        (.internal "broadcast actor has dropped its reply channel")
        ((handleBroadcast chainId fromAddress e txn stickyIndex).interp
          fun c => (EngineCall.broadcast c).ask)
  | .validate chainId e txHash stickyIndex =>
      through (.validate chainId e txHash stickyIndex)
        (.internal "validator actor shutdown")
        (.internal "validator actor has droped the reply channel")
        ((handleValidation d.validatorConfig d.rounds chainId e txHash stickyIndex).interp
          fun c => (EngineCall.validator c).ask)
  | .registerTransaction e txn clientConfig =>
      (EngineCall.outside (.registerTransaction e txn clientConfig)).ask
  | .acquireHealthyEndpoint chainId timeout =>
      (EngineCall.outside (.acquireHealthyEndpoint chainId timeout)).ask
  | .setStatus e status => (EngineCall.outside (.setStatus e status)).ask
  | .telemetry e event => (EngineCall.outside (.telemetry e event)).ask
  | .genRange window => (EngineCall.outside (.genRange window)).ask
  | .sleep delay => (EngineCall.outside (.sleep delay)).ask
  | .unreachable message => (EngineCall.outside (.unreachable message)).ask

/-- The pipeline of an execution, if one was submitted. -/
def pipeline (e : ExecutionId) : EngineProg Unit :=
  match d.submission e with
  | none => .ret ()
  | some s => (runPipeline (d.context e s)).interp d.handle

end Deployment

/-! ## The world -/

/-- A transaction handed to the network. -/
structure Sent where
  executionId : ExecutionId
  /-- the revision of the row in `broadcast.broadcast_requests` it was sent for -/
  revision : ℕ
  txn : SignedTransaction
  /-- whether the network has accepted it -/
  accepted : Bool
  reply : Except LobbyRpcError TxHash

/-- The reply is an error the broadcast engine takes for a nonce mismatch. -/
def Sent.mismatch (s : Sent) : Bool :=
  match s.reply with
  | .ok _ => false
  | .error e => isNonceMismatch (rpcErrorText e)

structure World where
  now : Timestamp
  nonces : NonceTable
  signs : SignTable
  broadcasts : BroadcastTable
  validations : ValidationTable
  statuses : ExecutionId → Option PipelineStatus
  /-- what was handed to the network, the latest first -/
  sent : List Sent
  /-- the nonces the sweeper took back -/
  swept : List (ExecutionId × ℕ)

/-- What the model leaves open about one call. -/
structure Choice where
  fault : DatabaseFault
  accepted : Bool
  /-- the answer of the surroundings, for the calls they answer -/
  answer : (c : EngineCall) → Option c.Reply

/-- What happens outside the pipelines. -/
inductive OutsideEvent : Type where
  /-- time passes, in microseconds -/
  | tick (elapsed : ℕ)
  /-- one run of `expire_states` -/
  | sweep (fault : DatabaseFault)
  deriving DecidableEq

namespace World

/-- One call of an execution. -/
def perform (w : World) (e : ExecutionId) (choice : Choice) :
    (c : EngineCall) → Option (c.Reply × World)
  | .nonce q =>
    let answer := choice.fault.reply w.nonces (w.nonces.execute w.now q)
    some (answer.1, { w with nonces := answer.2 })
  | .sign q =>
    let answer := choice.fault.reply w.signs (q.execute w.now w.signs)
    some (answer.1, { w with signs := answer.2 })
  | .broadcast (.query q) =>
    let answer := choice.fault.reply w.broadcasts (q.execute w.now w.broadcasts)
    some (answer.1, { w with broadcasts := answer.2 })
  | .broadcast (.sendRawTransaction chainId stickyIndex txn executionId revision) =>
    (choice.answer (.broadcast (.sendRawTransaction chainId stickyIndex txn executionId
        revision))).map fun reply =>
      let entry : Sent :=
        { executionId := e
          revision := revision
          txn := txn
          accepted := choice.accepted
          reply := reply }
      (reply, { w with sent := entry :: w.sent })
  | .validator (.query q) =>
    let answer := choice.fault.reply w.validations (q.execute w.now w.validations)
    some (answer.1, { w with validations := answer.2 })
  -- the validator reads the clock of the run
  | .validator .instant => some (w.now, w)
  | .outside (.setStatus executionId status) =>
    some ((), { w with statuses := Function.update w.statuses executionId (some status) })
  | c => (choice.answer c).map fun reply => (reply, w)

/-- An event outside the pipelines. -/
def outside (w : World) : OutsideEvent → World
  | .tick elapsed => { w with now := w.now + elapsed }
  | .sweep fault =>
    match fault, w.nonces.expireStates w.now with
    | .failed _, _ => w
    | _, .error _ => w
    | _, .ok (released, t) =>
      { w with nonces := t, swept := released.map Prod.swap ++ w.swept }

end World

/-- The system as threads over a shared world. -/
def machine : Machine ExecutionId Choice OutsideEvent EngineCall EngineCall.Reply World where
  perform e choice c w := w.perform e choice c
  external event w := some (w.outside event)

/-- All pipelines at their start. -/
def Deployment.start (d : Deployment) (w : World) :
    Config ExecutionId EngineCall EngineCall.Reply World Unit where
  thread := d.pipeline
  world := w

/-- No statement has run yet for the executions that were submitted: their ids are new. -/
structure World.Fresh (d : Deployment) (w : World) : Prop where
  nonces : ∀ r ∈ w.nonces.rows, d.submission r.executionId = none
  broadcasts : ∀ r ∈ w.broadcasts.rows, d.submission r.executionId = none
  sent : w.sent = []
  swept : w.swept = []

/-! ## A deployment to run

Two executions of one account, whose private key is 1, with the hashes and signatures of
the transactions they sign: a transfer of one wei with nonce 0 or 1 on chain 1. -/

def sampleAccount : Address where
  bytes := Rlp.toBe 20 0x7E5F4552091A69125d5DfCb7b8C2659029395Bdf
  length_eq := Rlp.length_toBe 20 _

def sampleTxn : Eip1559Transaction where
  chainId := ⟨1⟩
  nonce := ⟨0⟩
  maxPriorityFeePerGas := 1
  maxFeePerGas := 2
  gasLimit := 21000
  toAddress := some (.ofByte 0x11)
  value := 1
  data := []
  accessList := []

/-- Thirty-two bytes from their number. -/
def B256.ofNat (n : ℕ) : B256 := ⟨Rlp.toBe 32 n, Rlp.length_toBe 32 n⟩

def sampleHash (nonce : ℕ) : ℕ :=
  if nonce = 0 then 0x0401fb5ffc5696b65aaa71f0bd320b65b92b2f6ea19bfabbca241f0c36f5eb7b
  else 0x74a3e7a89da621ec3b9660cae1809dee180708cd08c43aa352ccb87817cac019

def sampleTxHash (nonce : ℕ) : TxHash :=
  if nonce = 0 then .ofNat 0x62cd9307bec9f446957325e777fee4c82e343ba5f1e5c0432c45a65058af6b52
  else .ofNat 0x5724dee8104e82d981742cf28e1bd92b44b6827c4046987d11ded97daee52469

/-- Keccak-256 of the two signing payloads. -/
def sampleKeccak (bytes : List UInt8) : B256 :=
  if bytes = Rlp.toBe 33 0x02df018001028252089411111111111111111111111111111111111111110180c0
  then .ofNat (sampleHash 0)
  else if bytes =
    Rlp.toBe 33 0x02df010101028252089411111111111111111111111111111111111111110180c0
  then .ofNat (sampleHash 1)
  else .ofNat 0

/-- The signatures of the two hashes under the key 1. -/
def sampleSignature (key : Scalar) (hash : B256) : Except String (Signature × UInt8) :=
  if key.val = 1 ∧ hash = .ofNat (sampleHash 0) then
    .ok ({
      r := ⟨0x89a6f9c728f2b7835601ece02e3586c8bea6c60bcfb6b1163de8cfcb2405107e, by decide⟩
      s := ⟨0x51b46d39fafd50a96def3aef8b349f941ec795e18ad00f107033a852c98a68da, by decide⟩
    }, 0)
  else if key.val = 1 ∧ hash = .ofNat (sampleHash 1) then
    .ok ({
      r := ⟨0x18c58f968e3b688efc0f4ef12599ff3cc97d49fb53c74a03e5a3fa7aeeccb9d3, by decide⟩
      s := ⟨0x7d643c5739d11f6117a657be714818939d953996244772350d33763db794e10e, by decide⟩
    }, 1)
  else .error "signature error"

def sampleDeployment : Deployment where
  crypto := ⟨sampleKeccak, sampleSignature⟩
  custodyKeys := ⟨[(sampleAccount,
    "0x0000000000000000000000000000000000000000000000000000000000000001")]⟩
  validatorConfig := .default
  rounds := 200
  retryConfig := .default
  telemetry := false
  submission e := if e.uuid = 1 ∨ e.uuid = 2 then some ⟨⟨0, sampleAccount⟩, sampleTxn⟩ else none

/-- Nothing has happened yet. -/
def World.empty : World where
  now := 0
  nonces := .empty
  signs := .empty
  broadcasts := .empty
  validations := .empty
  statuses _ := none
  sent := []
  swept := []

theorem World.fresh_empty (d : Deployment) : World.empty.Fresh d where
  nonces _ hr := nomatch hr
  broadcasts _ hr := nomatch hr
  sent := rfl
  swept := rfl

/-- Answers without an error, of a node that has seen one transaction and mined none. -/
def smoothAnswer : (c : EngineCall) → Option c.Reply
  | .deliver _ => some true
  | .collect _ => some true
  | .broadcast (.sendRawTransaction _ _ txn _ _) =>
      some (.ok (sampleTxHash txn.withNonce.value.toNat))
  | .broadcast (.getTransactionCount _ _ _) => some (.ok ⟨1⟩)
  | .validator (.getTransactionReceipt _ _ _) => some (.ok none)
  | .validator (.sleep _) => some ()
  | .outside (.registerTransaction _ _ _) => some (.ok ())
  | .outside (.acquireHealthyEndpoint _ _) => some (.ok (some 0))
  | .outside (.genRange _) => some (0 : UInt64)
  | .outside (.sleep _) => some ()
  | _ => none

/-- A call that goes well. -/
def Choice.smooth : Choice := ⟨.none, true, smoothAnswer⟩

/-- A call that goes well, where the node answers a given error. -/
def Choice.rejecting (accepted : Bool) (err : LobbyRpcError) : Choice where
  fault := .none
  accepted := accepted
  answer
    | .broadcast (.sendRawTransaction _ _ _ _ _) => some (.error err)
    | c => smoothAnswer c

end Lobby
