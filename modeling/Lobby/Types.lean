/-
# The primitive types

The values that travel between the pipeline and its actors: identifiers, transactions,
row states, statuses and errors, with the texts the errors are displayed as.
Fixed-size byte arrays carry their length; `U256` is 256 bits wide; the integer columns
of the database never hold a negative value and are natural numbers here.
-/
import Mathlib

namespace Lobby

/-! ## Numbers, bytes and clocks -/

/-- The 256-bit unsigned integers of the EVM. -/
abbrev U256 := BitVec 256

/-- The bound of PostgreSQL's `BIGINT` and of Rust's `i64` on nonnegative values. -/
def i64Bound : ℕ := 2 ^ 63

/-- `U256::try_into::<i64>`. -/
def U256.toI64 (v : U256) : Option ℕ :=
  if v.toNat < i64Bound then some v.toNat else none

theorem toI64_lt {v : U256} {n : ℕ} (h : v.toI64 = some n) : n < i64Bound := by
  rw [U256.toI64] at h
  split at h
  · cases h
    assumption
  · cases h

theorem toI64_eq_some {v : U256} {n : ℕ} (h : v.toI64 = some n) : v.toNat = n := by
  rw [U256.toI64] at h
  split at h
  · exact Option.some.inj h
  · cases h

/-- Database and process clocks, in microseconds. -/
abbrev Timestamp := ℤ

/-- A number of seconds on such a clock. -/
def seconds (n : ℤ) : Timestamp := n * 1000000

/-- A number of minutes on such a clock. -/
def minutes (n : ℤ) : Timestamp := seconds (n * 60)

/-- One hexadecimal digit, lower case. -/
def hexDigit (n : ℕ) : Char := Nat.digitChar n

/-- A byte string in lower-case hexadecimal behind `0x`. -/
def lowerHex (bytes : List UInt8) : String :=
  "0x" ++ String.ofList
    (bytes.flatMap fun b => [hexDigit (b.toNat / 16), hexDigit (b.toNat % 16)])

/-! ## Identifiers -/

/-- An account address: 20 bytes. -/
structure Address where
  bytes : List UInt8
  length_eq : bytes.length = 20
  deriving DecidableEq

/-- Twenty times the same byte. -/
def Address.ofByte (b : UInt8) : Address := ⟨List.replicate 20 b, List.length_replicate⟩

/-- Thirty-two bytes. -/
structure B256 where
  bytes : List UInt8
  length_eq : bytes.length = 32
  deriving DecidableEq

abbrev TxHash := B256

/-- The idempotency key of one submission, a UUID. -/
structure ExecutionId where
  uuid : BitVec 128
  deriving DecidableEq

structure ChainId where
  id : U256
  deriving DecidableEq

structure TxNonce where
  value : U256
  deriving DecidableEq

/-! ## Transactions -/

structure Eip1559Transaction where
  chainId : ChainId
  nonce : TxNonce
  maxPriorityFeePerGas : U256
  maxFeePerGas : U256
  gasLimit : U256
  /-- The field `to`; `none` creates a contract. -/
  toAddress : Option Address
  value : U256
  data : List UInt8
  accessList : List (Address × List U256)
  deriving DecidableEq

/-- The address an authenticated client is bound to. -/
structure ClientConfig where
  clientId : BitVec 128
  fromAddress : Address
  deriving DecidableEq

/-- The bytes handed to a node, and the nonce that was signed into them. -/
structure SignedTransaction where
  rlp : List UInt8
  withNonce : TxNonce
  deriving DecidableEq

structure BroadcastOutcome where
  txnHash : TxHash
  deriving DecidableEq

/-! ## Row states -/

inductive NonceState : Type where
  | reserved
  | finalized
  | released
  | consumed
  deriving DecidableEq, Repr

inductive SignState : Type where
  | reserved
  | signed
  | failed
  deriving DecidableEq, Repr

inductive BroadcastState : Type where
  | received
  | submitted
  | rejected
  deriving DecidableEq, Repr

inductive ValidationState : Type where
  | pending
  | included
  | notIncluded
  | timedOut
  deriving DecidableEq, Repr

/-! ## Statuses and outcomes -/

/-- The lifecycle states the status registry shows to a client. -/
inductive PipelineStatus : Type where
  | permitAquired
  | accepted
  | nonceReserved
  | signed
  | broadcasted (txHash messege : String)
  | confirmedOnChain (txHash : String)
  | failed (stage reason : String)
  | nonceMismatchDetected (nonceOnChain attemptedNonce : TxNonce)
  | validatorTimedOut (message : String)
  deriving DecidableEq

inductive ValidatorOutcome : Type where
  | included (blockNumber confirmations : ℕ)
  | notIncluded
  | timeout
  deriving DecidableEq

/-! ## Errors -/

/-- What a database call can fail with. -/
inductive SqlxError : Type where
  | rowNotFound
  | uniqueViolation (constraint : String)
  | bigintOutOfRange
  | other (message : String)
  deriving DecidableEq

/-- The displayed form of a database error. -/
def SqlxError.toString : SqlxError → String
  | .rowNotFound => "no rows returned by a query that expected to return at least one row"
  | .uniqueViolation c =>
      "error returned from database: duplicate key value violates unique constraint \""
        ++ c ++ "\""
  | .bigintOutOfRange => "error returned from database: bigint out of range"
  | .other message => message

inductive RelayHostError : Type where
  | validationFailed (message : String)
  | databaseError (error : SqlxError)
  | internal (message : String)
  | fromAddressMismatch (expected actual : String)
  deriving DecidableEq

def RelayHostError.toString : RelayHostError → String
  | .validationFailed m => "Validation Failed " ++ m
  | .databaseError e => "Database Error: " ++ e.toString
  | .internal m => "Internal: " ++ m
  | .fromAddressMismatch e a =>
      "From Address Mismatch: expected " ++ e ++ ", got " ++ a

/-- Errors of the stages that do not talk to a node. -/
inductive LocalError : Type where
  | databaseError (message : String)
  | internal (message : String)
  | invariant (message : String)
  | rejected (message : String)
  deriving DecidableEq

def LocalError.toString : LocalError → String
  | .databaseError m => "Db error: " ++ m
  | .internal m => "Internal error: " ++ m
  | .invariant m => "Internal error: " ++ m
  | .rejected m => "Rejected: " ++ m

/-- A database error as the local error of a handler. -/
def LocalError.ofSqlx (e : SqlxError) : LocalError := .databaseError e.toString

inductive BroadcastError : Type where
  | internal (message : String)
  | databaseError (message : String)
  | invariant (message : String)
  | missingProvider (chainId : ChainId)
  | rejected (reason : String)
  | unexpected (message : String)
  | nonceTooLow (nonceOnChain attemptedNonce : TxNonce)
  | rpcError (message : String)
  deriving DecidableEq

def BroadcastError.toString : BroadcastError → String
  | .internal m => "Internal: " ++ m
  | .databaseError m => "DB error: " ++ m
  | .invariant m => "Invariant error: " ++ m
  | .missingProvider c => "Provider error: ChainId(" ++ c.id.toNat.repr ++ ")"
  | .rejected r => "Tx request rejected by provider: " ++ r
  | .unexpected m => "Unexpected error: " ++ m
  | .nonceTooLow _ _ => "nonce too low -> fetching correct nonce from rpc node"
  | .rpcError m => "Rpc Failiure: " ++ m

inductive ValidatorError : Type where
  | rpc (txHash : TxHash) (message : String)
  | reverted (txHash : TxHash)
  | database (error : SqlxError)
  | internal (message : String)
  | rpcError (message : String)
  deriving DecidableEq

def ValidatorError.toString : ValidatorError → String
  | .rpc h m => "rpc error while polling for tx " ++ lowerHex h.bytes ++ ": " ++ m
  | .reverted h => "transaction " ++ lowerHex h.bytes ++ " reverted on-chain (status=0)"
  | .database e => "database error: " ++ e.toString
  | .internal m => "internal error: " ++ m
  | .rpcError m => "Rpc Failiure: " ++ m

/-- Errors of the RPC client. -/
inductive LobbyRpcError : Type where
  | permitAcquisitionTimeout (timeoutSecs : ℕ)
  | semaphoreClosed
  | noEndpointsAvailable (chainId : ChainId)
  | allEndpointsUnhealthy (chainId : ChainId)
  | transportError (message : String)
  | providerConstructionError (message : String)
  | invalidUrl (message : String)
  | rpcBroadcastError (message : String)
  | nonceFetchError (message : String)
  | receiptFetchFailed (message : String)
  | blockNotFound (message : String)
  | endpointPoolCorrupted (message : String)
  deriving DecidableEq

/-- `{}` of an RPC client error. -/
def LobbyRpcError.toString : LobbyRpcError → String
  | .permitAcquisitionTimeout t => "Failed to acquire RPC permit within " ++ t.repr ++ "s"
  | .semaphoreClosed => "Semaphore closed"
  | .noEndpointsAvailable c => "No RPC endpoints available for chain " ++ c.id.toNat.repr
  | .allEndpointsUnhealthy c => "All RPC endpoints unhealthy for chain " ++ c.id.toNat.repr
  | .transportError m => "Transport error: " ++ m
  | .providerConstructionError m => "Provider construction failed: " ++ m
  | .invalidUrl m => "Invalid URL: " ++ m
  | .rpcBroadcastError m => "Rpc broadcast failed error: " ++ m
  | .nonceFetchError m => "Nonce fetch failed : " ++ m
  | .receiptFetchFailed m => "Transaction receipt fetching failed for tx_hash: " ++ m
  | .blockNotFound m => "Block not found for transaction: " ++ m
  | .endpointPoolCorrupted m => "Endpoint pool corrupted: " ++ m

/-- One character inside a quoted `{:?}` string.  Printable characters past ASCII are
kept; the escapes of the others hold hexadecimal digits only. -/
def debugChar (c : Char) : List Char :=
  if c = '\x00' then ['\\', '0']
  else if c = '\t' then ['\\', 't']
  else if c = '\r' then ['\\', 'r']
  else if c = '\n' then ['\\', 'n']
  else if c = '"' then ['\\', '"']
  else if c = '\\' then ['\\', '\\']
  else if c.toNat < 0x20 ∨ c.toNat = 0x7f then
    ['\\', 'u', '\x7b'] ++ Nat.toDigits 16 c.toNat ++ ['\x7d']
  else [c]

/-- `{:?}` of a string. -/
def debugString (s : String) : String :=
  "\"" ++ String.ofList (s.toList.flatMap debugChar) ++ "\""

/-- `{:?}` of an RPC client error. -/
def LobbyRpcError.debug : LobbyRpcError → String
  | .permitAcquisitionTimeout t =>
      "PermitAcquisitionTimeout \x7b timeout: " ++ t.repr ++ "s \x7d"
  | .semaphoreClosed => "SemaphoreClosed"
  | .noEndpointsAvailable c =>
      "NoEndpointsAvailable \x7b chain_id: ChainId(" ++ c.id.toNat.repr ++ ") \x7d"
  | .allEndpointsUnhealthy c =>
      "AllEndpointsUnhealthy \x7b chain_id: ChainId(" ++ c.id.toNat.repr ++ ") \x7d"
  | .transportError m => "TransportError(" ++ debugString m ++ ")"
  | .providerConstructionError m => "ProviderConstructionError(" ++ debugString m ++ ")"
  | .invalidUrl m => "InvalidUrl(" ++ debugString m ++ ")"
  | .rpcBroadcastError m => "RpcBroadcastError(" ++ debugString m ++ ")"
  | .nonceFetchError m => "NonceFetchError(" ++ debugString m ++ ")"
  | .receiptFetchFailed m => "ReceiptFetchFailed(" ++ debugString m ++ ")"
  | .blockNotFound m => "BlockNotFound(" ++ debugString m ++ ")"
  | .endpointPoolCorrupted m => "EndpointPoolCorrupted(" ++ debugString m ++ ")"

/-- `TxNonce::try_from(i64)`. -/
def TxNonce.tryFrom (value : ℤ) : Except LocalError TxNonce :=
  if value < 0 then .error (.rejected s!"Invalid Nonce: {value}")
  else .ok ⟨BitVec.ofNat 256 value.toNat⟩

@[simp] theorem TxNonce.tryFrom_natCast (n : ℕ) :
    TxNonce.tryFrom (n : ℤ) = .ok ⟨BitVec.ofNat 256 n⟩ := by
  have h : ¬ (n : ℤ) < 0 := by omega
  rw [TxNonce.tryFrom, if_neg h, Int.toNat_natCast]

end Lobby
