/-
# Admission

From a JSON-RPC request of an authenticated client to a row of
`relay_host.transaction_intents`: `submit_transaction` normalises the first parameter object
and compares its `from`, the pipeline registers the transaction with the relay host, and the
relay host lints it.  A permit is free and the database executes its statements.

`Policy` is what the documentation asks for.  The version of the protocol is never looked at,
and a priority fee equal to the maximal fee is turned away, so the two agree outside of these
cases only (`admits_by_policy_iff`).
-/
import Lobby.RelayHost
import Lobby.Normalize

namespace Lobby

/-! ## The handler -/

structure JsonRpcRequest where
  jsonrpc : String
  method : String
  params : List Eip1193SendTransactionParams
  /-- any JSON value, sent back as it is -/
  id : String
  deriving DecidableEq

/-- The errors of `submit_transaction`.  The first one is never returned. -/
inductive HandlerError : Type where
  | invalidJsonRpcVersion
  | unsupportedMethod (method : String)
  | corruptedParams
  | normalizationFailed (error : NormalizationError)
  | fromAddressMismatch (expected actual : Address)
  deriving DecidableEq

/-- What `submit_transaction` hands to `CortexHandler::submit`. -/
structure PipelineSubmission where
  executionId : ExecutionId
  txn : Eip1559Transaction
  clientConfig : ClientConfig
  deriving DecidableEq

/-- `submit_transaction` up to the hand-off; `none` is the panic of the normalisation. -/
def submitTransaction (ruint : Ruint) (executionId : ExecutionId) (clientConfig : ClientConfig)
    (request : JsonRpcRequest) : Option (Except HandlerError PipelineSubmission) :=
  if request.method ≠ "eth_sendRawTransaction" then
    some (.error (.unsupportedMethod request.method))
  else
    match request.params.head? with
    | none => some (.error .corruptedParams)
    | some params =>
      match normalizeEip1193Transaction ruint params with
      | none => none
      | some (.error e) => some (.error (.normalizationFailed e))
      | some (.ok (txn, fromAddress)) =>
        if fromAddress ≠ clientConfig.fromAddress then
          some (.error (.fromAddressMismatch clientConfig.fromAddress fromAddress))
        else some (.ok ⟨executionId, txn, clientConfig⟩)

/-- The first stage of the pipeline: `register_transaction`, repeated while it fails. -/
def TransactionIntents.register (t : TransactionIntents) (s : PipelineSubmission) :
    ℕ → TransactionIntents
  | 0 => t
  | attempts + 1 =>
    match handleSubmitTransaction t s.executionId s.txn s.clientConfig with
    | .ok t' => t'
    | .error _ => t.register s attempts

/-- The table after a request, with `maxAttempts` retries in the first stage. -/
def admission (ruint : Ruint) (maxAttempts : ℕ) (t : TransactionIntents)
    (executionId : ExecutionId) (clientConfig : ClientConfig) (request : JsonRpcRequest) :
    TransactionIntents :=
  match submitTransaction ruint executionId clientConfig request with
  | some (.ok s) => t.register s (maxAttempts + 1)
  | _ => t

/-! ## The policy -/

/-- The request asks for `txn` in the name of the client, and everything about it is in
order but the protocol version and the priority fee, which are left open. -/
def Asks (ruint : Ruint) (clientConfig : ClientConfig) (request : JsonRpcRequest)
    (txn : Eip1559Transaction) : Prop :=
  request.method = "eth_sendRawTransaction"
  ∧ (∃ params, request.params.head? = some params
    ∧ normalizeEip1193Transaction ruint params = some (.ok (txn, clientConfig.fromAddress)))
  ∧ 0 < txn.gasLimit.toNat ∧ txn.gasLimit.toNat ≤ maxGasLimit ∧ 0 < txn.maxFeePerGas.toNat
  ∧ txn.chainId.id.toNat ∈ supportedChains

/-- The documented policy. -/
def Policy (ruint : Ruint) (clientConfig : ClientConfig) (request : JsonRpcRequest) : Prop :=
  request.jsonrpc = "2.0" ∧ ∃ txn, Asks ruint clientConfig request txn
    ∧ txn.maxPriorityFeePerGas.toNat ≤ txn.maxFeePerGas.toNat

/-- The request reaches the table exactly under the policy; and once it has passed the
handler and the linter, no conversion fails and its row breaks no constraint. -/
def AdmitsByPolicy (ruint : Ruint) (maxAttempts : ℕ) (t : TransactionIntents)
    (executionId : ExecutionId) (clientConfig : ClientConfig) (request : JsonRpcRequest) :
    Prop :=
  (executionId ∈ (admission ruint maxAttempts t executionId clientConfig request).rows.map
      TransactionIntent.executionId ↔ Policy ruint clientConfig request)
  ∧ ∀ s, submitTransaction ruint executionId clientConfig request = some (.ok s) →
    transactionLint s.txn = .ok () →
    ∃ row, toIntent s.executionId s.txn s.clientConfig = .ok row ∧ row.violation = none

/-! ## What reaches the table -/

section

variable {ruint : Ruint} {maxAttempts : ℕ} {t : TransactionIntents}
  {executionId : ExecutionId} {clientConfig : ClientConfig} {request : JsonRpcRequest}
  {s : PipelineSubmission} {txn : Eip1559Transaction}

/-- What is handed over: the normalised first parameter object, under the client's address. -/
theorem submitTransaction_eq_ok_iff :
    submitTransaction ruint executionId clientConfig request = some (.ok s) ↔
      request.method = "eth_sendRawTransaction"
      ∧ (∃ params, request.params.head? = some params
        ∧ normalizeEip1193Transaction ruint params
          = some (.ok (s.txn, clientConfig.fromAddress)))
      ∧ s = ⟨executionId, s.txn, clientConfig⟩ := by
  rw [submitTransaction]
  by_cases hmethod : request.method = "eth_sendRawTransaction"
  · rw [if_neg (not_not.mpr hmethod)]
    cases hparams : request.params.head? with
    | none => simp
    | some params =>
        dsimp only
        cases hnorm : normalizeEip1193Transaction ruint params with
        | none => simp [hnorm]
        | some outcome =>
            cases outcome with
            | error e => simp [hnorm]
            | ok result =>
                obtain ⟨txn, fromAddress⟩ := result
                dsimp only
                -- the sender is compared last, with the account of the API key
                by_cases hfrom : fromAddress = clientConfig.fromAddress
                · subst hfrom
                  rw [if_neg (not_not.mpr rfl)]
                  constructor
                  · rintro ⟨⟩
                    exact ⟨hmethod, ⟨params, rfl, hnorm⟩, rfl⟩
                  · rintro ⟨-, ⟨params', hparams', hnorm'⟩, hs⟩
                    cases hparams'
                    rw [hnorm] at hnorm'
                    cases hnorm'
                    rw [hs]
                · rw [if_pos hfrom]
                  simp [hnorm, hfrom]
  · rw [if_pos hmethod]
    simp [hmethod]

/-- The retries change nothing: a refused transaction is refused again. -/
theorem register_rows (hfresh : s.executionId ∉ t.rows.map TransactionIntent.executionId)
    (maxAttempts : ℕ) :
    (transactionLint s.txn = .ok () ∧ (t.register s (maxAttempts + 1)).rows
      = intentOf s.executionId s.txn s.clientConfig :: t.rows)
    ∨ (transactionLint s.txn ≠ .ok () ∧ t.register s (maxAttempts + 1) = t) := by
  rcases handleSubmitTransaction_of_fresh s.txn s.clientConfig hfresh
    with ⟨hlint, t', hok, hrows⟩ | ⟨hlint, e, herror⟩
  · refine Or.inl ⟨hlint, ?_⟩
    rw [TransactionIntents.register, hok]
    exact hrows
  · refine Or.inr ⟨hlint, ?_⟩
    induction maxAttempts with
    | zero =>
        rw [TransactionIntents.register, herror]
        rfl
    | succ maxAttempts ih =>
        rw [TransactionIntents.register, herror]
        exact ih

/-- **What reaches the table**: every request that asks for a transaction with a smaller
priority fee, whatever its protocol version. -/
theorem mem_admission_iff (hfresh : executionId ∉ t.rows.map TransactionIntent.executionId) :
    executionId ∈ (admission ruint maxAttempts t executionId clientConfig request).rows.map
        TransactionIntent.executionId ↔
      ∃ txn, Asks ruint clientConfig request txn
        ∧ txn.maxPriorityFeePerGas.toNat < txn.maxFeePerGas.toNat := by
  have hasks : (∃ txn, Asks ruint clientConfig request txn
        ∧ txn.maxPriorityFeePerGas.toNat < txn.maxFeePerGas.toNat) ↔
      ∃ s, submitTransaction ruint executionId clientConfig request = some (.ok s)
        ∧ transactionLint s.txn = .ok () := by
    constructor
    · rintro ⟨txn, ⟨hmethod, hparams, hgas, hmax, hfee, hchain⟩, hpriority⟩
      exact ⟨⟨executionId, txn, clientConfig⟩,
        submitTransaction_eq_ok_iff.mpr ⟨hmethod, hparams, rfl⟩,
        (transactionLint_eq_ok_iff txn).mpr ⟨hgas, hmax, hfee, hpriority, hchain⟩⟩
    · rintro ⟨s, hsubmit, hlint⟩
      obtain ⟨hmethod, hparams, -⟩ := submitTransaction_eq_ok_iff.mp hsubmit
      obtain ⟨hgas, hmax, hfee, hpriority, hchain⟩ := (transactionLint_eq_ok_iff s.txn).mp hlint
      exact ⟨s.txn, ⟨hmethod, hparams, hgas, hmax, hfee, hchain⟩, hpriority⟩
  rw [hasks, admission]
  cases hsubmit : submitTransaction ruint executionId clientConfig request with
  | none => simp [hfresh]
  | some outcome =>
      cases outcome with
      | error e => simp [hfresh]
      | ok s =>
          have hid : s.executionId = executionId := by
            rw [(submitTransaction_eq_ok_iff.mp hsubmit).2.2]
          dsimp only
          rcases register_rows (hid ▸ hfresh) maxAttempts with ⟨hlint, hrows⟩ | ⟨hlint, hsame⟩
          · rw [hrows]
            simp [intentOf, hid, hlint]
          · rw [hsame]
            simp [hfresh, hlint]

/-- A request asks for one transaction. -/
theorem Asks.unique {txn' : Eip1559Transaction} (h : Asks ruint clientConfig request txn)
    (h' : Asks ruint clientConfig request txn') : txn = txn' := by
  obtain ⟨-, ⟨params, hhead, hnorm⟩, -⟩ := h
  obtain ⟨-, ⟨params', hhead', hnorm'⟩, -⟩ := h'
  rw [hhead] at hhead'
  cases hhead'
  rw [hnorm] at hnorm'
  cases hnorm'
  rfl

end

/-- **Admission and the policy.**  The two agree on a request if and only if, when everything
else about it is in order, its priority fee exceeds the maximal fee, or is below it under
protocol version 2.0, or equals it under another version. -/
theorem admits_by_policy_iff (ruint : Ruint) (maxAttempts : ℕ) (t : TransactionIntents)
    (executionId : ExecutionId) (clientConfig : ClientConfig) (request : JsonRpcRequest)
    (hfresh : executionId ∉ t.rows.map TransactionIntent.executionId) :
    AdmitsByPolicy ruint maxAttempts t executionId clientConfig request ↔
      ∀ txn, Asks ruint clientConfig request txn →
        txn.maxFeePerGas.toNat < txn.maxPriorityFeePerGas.toNat
        ∨ (txn.maxPriorityFeePerGas.toNat < txn.maxFeePerGas.toNat ∧ request.jsonrpc = "2.0")
        ∨ (txn.maxPriorityFeePerGas.toNat = txn.maxFeePerGas.toNat
          ∧ request.jsonrpc ≠ "2.0") := by
  have hstored : ∀ s, submitTransaction ruint executionId clientConfig request = some (.ok s) →
      transactionLint s.txn = .ok () →
      ∃ row, toIntent s.executionId s.txn s.clientConfig = .ok row ∧ row.violation = none :=
    fun s _ hlint => ⟨_, toIntent_of_lint hlint⟩
  rw [AdmitsByPolicy, mem_admission_iff hfresh, Policy, and_iff_left hstored]
  constructor
  · intro hagree txn hasks
    -- equal fees are refused by the lint, and the version is not looked at
    rcases lt_trichotomy txn.maxPriorityFeePerGas.toNat txn.maxFeePerGas.toNat with h | h | h
    · exact Or.inr (Or.inl ⟨h, (hagree.mp ⟨txn, hasks, h⟩).1⟩)
    · refine Or.inr (Or.inr ⟨h, fun hversion => ?_⟩)
      obtain ⟨txn', hasks', hlt⟩ := hagree.mpr ⟨hversion, txn, hasks, h.le⟩
      rw [hasks'.unique hasks] at hlt
      omega
    · exact Or.inl h
  · intro hcond
    constructor
    · rintro ⟨txn, hasks, hlt⟩
      rcases hcond txn hasks with h | ⟨-, hversion⟩ | ⟨h, -⟩
      · omega
      · exact ⟨hversion, txn, hasks, hlt.le⟩
      · omega
    · rintro ⟨hversion, txn, hasks, hle⟩
      rcases hcond txn hasks with h | ⟨h, -⟩ | ⟨-, hother⟩
      · omega
      · exact ⟨txn, hasks, h⟩
      · exact absurd hversion hother

/-! ## Requests on both sides -/

/-- An empty table. -/
def emptyIntents : TransactionIntents where
  rows := []
  primaryKey := List.nodup_nil
  checks := fun _ h => absurd h List.not_mem_nil

def sampleClient : ClientConfig := ⟨7, .ofByte 0x11⟩

/-- A transfer on chain 1 with a maximal fee of 2. -/
def feeRequest (jsonrpc priorityFee : String) : JsonRpcRequest where
  jsonrpc := jsonrpc
  method := "eth_sendRawTransaction"
  params := [{ chainIdRequest "0x1" with
    gas := some "0x5208", maxFeePerGas := some "0x2", maxPriorityFeePerGas := some priorityFee }]
  id := "1"

/-- The transaction it asks for. -/
def feeTransaction (priorityFee : U256) : Eip1559Transaction where
  chainId := ⟨1⟩
  nonce := ⟨0⟩
  maxPriorityFeePerGas := priorityFee
  maxFeePerGas := 2
  gasLimit := 21000
  toAddress := none
  value := 0
  data := []
  accessList := []

theorem asks_feeRequest (jsonrpc : String) :
    Asks ruintUint sampleClient (feeRequest jsonrpc "0x1") (feeTransaction 1)
    ∧ Asks ruintUint sampleClient (feeRequest jsonrpc "0x2") (feeTransaction 2) := by
  refine ⟨⟨rfl, ⟨_, rfl, by rfl⟩, by decide, by decide, by decide, by decide⟩,
    ⟨rfl, ⟨_, rfl, by rfl⟩, by decide, by decide, by decide, by decide⟩⟩

/-- A request in order is admitted by the policy. -/
theorem admits_by_policy_small :
    AdmitsByPolicy ruintUint 3 emptyIntents ⟨1⟩ sampleClient (feeRequest "2.0" "0x1") := by
  refine (admits_by_policy_iff ruintUint 3 emptyIntents ⟨1⟩ sampleClient
    (feeRequest "2.0" "0x1") (by simp [emptyIntents])).mpr ?_
  rintro txn ⟨-, ⟨params, hhead, hnorm⟩, -⟩
  obtain ⟨-, ⟨params', hhead', hnorm'⟩, -⟩ := (asks_feeRequest "2.0").1
  rw [hhead] at hhead'
  cases hhead'
  rw [hnorm] at hnorm'
  cases hnorm'
  exact Or.inr (Or.inl ⟨by decide, rfl⟩)

/-- Protocol version 1.0 is admitted, and a priority fee equal to the maximal fee is not. -/
theorem admits_against_policy :
    ¬ AdmitsByPolicy ruintUint 3 emptyIntents ⟨1⟩ sampleClient (feeRequest "1.0" "0x1")
    ∧ ¬ AdmitsByPolicy ruintUint 3 emptyIntents ⟨1⟩ sampleClient (feeRequest "2.0" "0x2") := by
  have hfresh : (⟨1⟩ : ExecutionId) ∉
      emptyIntents.rows.map TransactionIntent.executionId := by simp [emptyIntents]
  constructor
  · rintro ⟨hagree, -⟩
    have hpolicy := hagree.mp ((mem_admission_iff hfresh).mpr
      ⟨_, (asks_feeRequest "1.0").1, by decide⟩)
    exact absurd hpolicy.1 (by decide)
  · rintro ⟨hagree, -⟩
    obtain ⟨txn, hasks, hlt⟩ := (mem_admission_iff hfresh).mp
      (hagree.mpr ⟨rfl, _, (asks_feeRequest "2.0").2, by decide⟩)
    obtain ⟨-, ⟨params, hhead, hnorm⟩, -⟩ := hasks
    obtain ⟨-, ⟨params', hhead', hnorm'⟩, -⟩ := (asks_feeRequest "2.0").2
    rw [hhead] at hhead'
    cases hhead'
    rw [hnorm] at hnorm'
    cases hnorm'
    exact absurd hlt (by decide)

end Lobby
