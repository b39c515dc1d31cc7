/-
# The relay host

`transaction_lint`, the table `relay_host.transaction_intents` and
`handle_submit_transaction`, over a database that executes its statements.  A statement
that breaks a constraint fails and changes nothing.

The linter leaves nothing for the database to refuse: a transaction that passes it is
converted and stored (`toIntent_of_lint`).
-/
import Lobby.Types
import Lobby.Text

open Text

namespace Lobby

/-! ## Linting -/

/-- `MAX_GAS_LIMIT`. -/
def maxGasLimit : ℕ := 30000000

/-- `SUPPORTED_CHAINS`. -/
def supportedChains : List ℕ := [1, 5, 560048, 137, 42161]

/-- `U256::try_into::<u64>`. -/
def U256.toU64 (v : U256) : Option ℕ := if v.toNat < 2 ^ 64 then some v.toNat else none

/-- `transaction_lint`. -/
def transactionLint (txn : Eip1559Transaction) : Except RelayHostError Unit :=
  if txn.gasLimit = 0 then .error (.validationFailed "gas limit cannot be zero")
  else if txn.gasLimit > BitVec.ofNat 256 maxGasLimit then
    .error (.validationFailed
      ("lint error: fee exeeds max gas limit: " ++ maxGasLimit.repr))
  else if txn.maxFeePerGas = 0 then
    .error (.validationFailed "lint error: max_fee_per_gas cannot be zero")
  else if txn.maxPriorityFeePerGas ≥ txn.maxFeePerGas then
    .error (.validationFailed
      "lint error: max_priority_fee_per_gas cannot exceed max_fee_per_gas")
  else
    match txn.chainId.id.toU64 with
    | none => .error (.validationFailed "lint error: invalid chain_id format")
    | some id =>
      if id ∈ supportedChains then .ok ()
      else .error (.validationFailed "lint error: unsupported chain_id")

/-- What the linter lets through. -/
theorem transactionLint_eq_ok_iff (txn : Eip1559Transaction) :
    transactionLint txn = .ok () ↔
      0 < txn.gasLimit.toNat ∧ txn.gasLimit.toNat ≤ maxGasLimit ∧ 0 < txn.maxFeePerGas.toNat
      ∧ txn.maxPriorityFeePerGas.toNat < txn.maxFeePerGas.toNat
      ∧ txn.chainId.id.toNat ∈ supportedChains := by
  have hzero : ∀ v : U256, v = 0 ↔ v.toNat = 0 := fun v => by
    rw [← BitVec.toNat_inj]
    rfl
  have hmax : (BitVec.ofNat 256 maxGasLimit).toNat = maxGasLimit := by decide
  have hsmall : ∀ n ∈ supportedChains, n < 2 ^ 64 := by decide
  rw [transactionLint]
  simp only [hzero, gt_iff_lt, ge_iff_le, BitVec.lt_def, BitVec.le_def, hmax]
  -- the checks in the order of the source
  by_cases hgas : txn.gasLimit.toNat = 0
  · rw [if_pos hgas]
    simp [hgas]
  by_cases hlimit : maxGasLimit < txn.gasLimit.toNat
  · rw [if_neg hgas, if_pos hlimit]
    simp [not_le.mpr hlimit]
  by_cases hfee : txn.maxFeePerGas.toNat = 0
  · rw [if_neg hgas, if_neg hlimit, if_pos hfee]
    simp [hfee]
  by_cases hprio : txn.maxFeePerGas.toNat ≤ txn.maxPriorityFeePerGas.toNat
  · rw [if_neg hgas, if_neg hlimit, if_neg hfee, if_pos hprio]
    simp [not_lt.mpr hprio]
  rw [if_neg hgas, if_neg hlimit, if_neg hfee, if_neg hprio, U256.toU64]
  by_cases hbits : txn.chainId.id.toNat < 2 ^ 64
  · rw [if_pos hbits]
    dsimp only
    by_cases hchain : txn.chainId.id.toNat ∈ supportedChains
    · rw [if_pos hchain]
      exact ⟨fun _ => ⟨by omega, by omega, by omega, by omega, hchain⟩, fun _ => rfl⟩
    · rw [if_neg hchain]
      simp [hchain]
  · rw [if_neg hbits]
    -- an id of more than 64 bits is of no supported chain
    have hchain : txn.chainId.id.toNat ∉ supportedChains := fun h => hbits (hsmall _ h)
    simp [hchain]

/-! ## The table -/

/-- A row of `relay_host.transaction_intents`; the numbers are decimals. -/
structure TransactionIntent where
  executionId : ExecutionId
  clientId : BitVec 128
  chainId : ℕ
  fromAddress : Address
  toAddress : Option Address
  value : ℕ
  data : List UInt8
  gasLimit : ℕ
  maxFeePerGas : ℕ
  maxPriorityFeePerGas : ℕ
  accessList : List (Address × List U256)
  deriving DecidableEq

/-- The bound of `NUMERIC(78, 0)`. -/
def numericBound : ℕ := 10 ^ 78

/-- The check constraint that a row breaks, or the column that does not hold its value. -/
def TransactionIntent.violation (row : TransactionIntent) : Option SqlxError :=
  if i64Bound ≤ row.chainId then some .bigintOutOfRange
  else if numericBound ≤ row.value ∨ numericBound ≤ row.gasLimit
      ∨ numericBound ≤ row.maxFeePerGas ∨ numericBound ≤ row.maxPriorityFeePerGas then
    some (.other "error returned from database: numeric field overflow")
  else if row.gasLimit = 0 then
    some (.other ("error returned from database: new row for relation "
      ++ "\"transaction_intents\" violates check constraint \"chk_gas_limit_positive\""))
  else if row.maxFeePerGas = 0 then
    some (.other ("error returned from database: new row for relation "
      ++ "\"transaction_intents\" violates check constraint \"chk_max_fee_positive\""))
  else none

/-- The contents of the table, with its constraints. -/
structure TransactionIntents where
  rows : List TransactionIntent
  primaryKey : (rows.map TransactionIntent.executionId).Nodup
  checks : ∀ row ∈ rows, row.violation = none

namespace TransactionIntents

/-- `SELECT EXISTS(... WHERE execution_id = $1)`. -/
def holds (t : TransactionIntents) (e : ExecutionId) : Bool :=
  decide (e ∈ t.rows.map TransactionIntent.executionId)

/-- `INSERT INTO relay_host.transaction_intents`. -/
def insert (t : TransactionIntents) (row : TransactionIntent) :
    Except SqlxError TransactionIntents :=
  match hrow : row.violation with
  | some e => .error e
  | none =>
    if hkey : row.executionId ∈ t.rows.map TransactionIntent.executionId then
      .error (.uniqueViolation "transaction_intents_pkey")
    else .ok
      { rows := row :: t.rows
        primaryKey := by
          rw [List.map_cons]
          exact List.nodup_cons.mpr ⟨hkey, t.primaryKey⟩
        checks := by
          intro row' hmem
          rcases List.mem_cons.mp hmem with rfl | hmem
          · exact hrow
          · exact t.checks row' hmem }

/-- A row that breaks nothing is stored. -/
theorem insert_eq_ok {t : TransactionIntents} {row : TransactionIntent}
    (hrow : row.violation = none)
    (hkey : row.executionId ∉ t.rows.map TransactionIntent.executionId) :
    ∃ t', t.insert row = .ok t' ∧ t'.rows = row :: t.rows := by
  unfold insert
  split
  · next e he =>
      rw [hrow] at he
      exact absurd he (by simp)
  · rw [dif_neg hkey]
    exact ⟨_, rfl, rfl⟩

end TransactionIntents

/-! ## The engine -/

/-- `sqlx::Error::Encode`, as the engine reports it. -/
def encodeError : RelayHostError :=
  .databaseError (.other "error occurred while encoding a value: invalid digit found in string")

/-- `to_string().parse::<BigDecimal>()`. -/
def decimal (v : U256) : Except RelayHostError ℕ :=
  match numeral 10 (Nat.toDigits 10 v.toNat) with
  | some n => .ok n
  | none => .error encodeError

/-- The conversions in front of the `INSERT`.  The access list is stored as JSON; the model
stores the list. -/
def toIntent (executionId : ExecutionId) (txn : Eip1559Transaction)
    (clientConfig : ClientConfig) : Except RelayHostError TransactionIntent := do
  let valueBd ← decimal txn.value
  let gasLimitBd ← decimal txn.gasLimit
  let maxFeeBd ← decimal txn.maxFeePerGas
  let maxPriorityFeeBd ← decimal txn.maxPriorityFeePerGas
  let chainIdI64 ← match txn.chainId.id.toI64 with
    | some n => .ok n
    | none => .error (.validationFailed "invalid chain_id format")
  .ok
    { executionId := executionId
      clientId := clientConfig.clientId
      chainId := chainIdI64
      fromAddress := clientConfig.fromAddress
      toAddress := txn.toAddress
      value := valueBd
      data := txn.data
      gasLimit := gasLimitBd
      maxFeePerGas := maxFeeBd
      maxPriorityFeePerGas := maxPriorityFeeBd
      accessList := txn.accessList }

/-- `handle_submit_transaction`: an execution that is stored already is left alone. -/
def handleSubmitTransaction (t : TransactionIntents) (executionId : ExecutionId)
    (txn : Eip1559Transaction) (clientConfig : ClientConfig) :
    Except RelayHostError TransactionIntents :=
  if t.holds executionId then .ok t
  else do
    transactionLint txn
    let row ← toIntent executionId txn clientConfig
    (t.insert row).mapError RelayHostError.databaseError

/-! ## Nothing is left to refuse -/

/-- The row of a transaction. -/
def intentOf (executionId : ExecutionId) (txn : Eip1559Transaction)
    (clientConfig : ClientConfig) : TransactionIntent where
  executionId := executionId
  clientId := clientConfig.clientId
  chainId := txn.chainId.id.toNat
  fromAddress := clientConfig.fromAddress
  toAddress := txn.toAddress
  value := txn.value.toNat
  data := txn.data
  gasLimit := txn.gasLimit.toNat
  maxFeePerGas := txn.maxFeePerGas.toNat
  maxPriorityFeePerGas := txn.maxPriorityFeePerGas.toNat
  accessList := txn.accessList

/-- A 256-bit number has a decimal form, and it is read back. -/
theorem decimal_eq_ok (v : U256) : decimal v = .ok v.toNat := by
  rw [decimal, numeral_toDigits (by norm_num) (by norm_num)]

/-- A 256-bit number has at most 78 decimal digits. -/
theorem toNat_lt_numericBound (v : U256) : v.toNat < numericBound :=
  lt_trans v.isLt (by norm_num [numericBound])

variable {executionId : ExecutionId} {txn : Eip1559Transaction} {clientConfig : ClientConfig}
  {t : TransactionIntents}

/-- **Behind the linter** the conversions succeed and the row breaks no constraint. -/
theorem toIntent_of_lint (h : transactionLint txn = .ok ()) :
    toIntent executionId txn clientConfig = .ok (intentOf executionId txn clientConfig)
    ∧ (intentOf executionId txn clientConfig).violation = none := by
  obtain ⟨hgas, -, hfee, -, hchain⟩ := (transactionLint_eq_ok_iff txn).mp h
  have hsmall : ∀ n ∈ supportedChains, n < i64Bound := by decide
  have hid := hsmall _ hchain
  constructor
  · rw [toIntent, decimal_eq_ok, decimal_eq_ok, decimal_eq_ok, decimal_eq_ok, U256.toI64,
      if_pos hid]
    rfl
  · have hvalue := toNat_lt_numericBound txn.value
    have hgasLimit := toNat_lt_numericBound txn.gasLimit
    have hmaxFee := toNat_lt_numericBound txn.maxFeePerGas
    have hpriority := toNat_lt_numericBound txn.maxPriorityFeePerGas
    rw [TransactionIntent.violation, intentOf]
    dsimp only
    rw [if_neg (by omega), if_neg (by omega), if_neg (by omega), if_neg (by omega)]

/-- A new execution is stored exactly when its transaction passes the linter. -/
theorem handleSubmitTransaction_of_fresh (txn : Eip1559Transaction) (clientConfig : ClientConfig)
    (hfresh : executionId ∉ t.rows.map TransactionIntent.executionId) :
    (transactionLint txn = .ok () ∧
      ∃ t', handleSubmitTransaction t executionId txn clientConfig = .ok t'
        ∧ t'.rows = intentOf executionId txn clientConfig :: t.rows)
    ∨ (transactionLint txn ≠ .ok () ∧
      ∃ e, handleSubmitTransaction t executionId txn clientConfig = .error e) := by
  have hholds : t.holds executionId = false := by
    rw [TransactionIntents.holds, decide_eq_false hfresh]
  rw [handleSubmitTransaction, hholds, if_neg (by simp)]
  cases hlint : transactionLint txn with
  | error e => exact Or.inr ⟨by simp, e, rfl⟩
  | ok =>
      -- what passed the lint has its columns and keeps the checks of the table
      have hrow : toIntent executionId txn clientConfig
          = .ok (intentOf executionId txn clientConfig) := (toIntent_of_lint hlint).1
      have hviolation : (intentOf executionId txn clientConfig).violation = none :=
        (toIntent_of_lint hlint).2
      obtain ⟨t', hinsert, hrows⟩ := TransactionIntents.insert_eq_ok hviolation hfresh
      refine Or.inl ⟨rfl, t', ?_, hrows⟩
      show (toIntent executionId txn clientConfig >>= fun row =>
        (t.insert row).mapError RelayHostError.databaseError) = .ok t'
      rw [hrow]
      show (t.insert (intentOf executionId txn clientConfig)).mapError _ = Except.ok t'
      rw [hinsert]
      rfl

end Lobby
