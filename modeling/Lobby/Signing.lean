/-
# Keys and signatures

The custody file of test keys and `sign_eip1559_transaction`.  Keccak-256 and the ECDSA
primitive are parameters; what the code does around them is modelled: the signing hash,
the range check of the key, the canonicalisation to a low `s`, and the envelope.
-/
import Lobby.Eip1559

open Rlp

namespace Lobby

/-! ## The curve -/

/-- The order of secp256k1. -/
def curveOrder : ℕ :=
  0xFFFFFFFFFFFFFFFFFFFFFFFFFFFFFFFEBAAEDCE6AF48A03BBFD25E8CD0364141

/-- A nonzero scalar: a private key, or one half of a signature. -/
abbrev Scalar := {n : ℕ // 0 < n ∧ n < curveOrder}

/-- The thirty-two big-endian bytes of a scalar. -/
def Scalar.toBytes (n : Scalar) : B256 := ⟨toBe 32 n.val, length_toBe 32 n.val⟩

/-- `SigningKey::from_bytes`, as `k256` documents it: the big-endian number, which has to be
a scalar other than zero. -/
def signingKeyFromBytes (key : B256) : Except String Scalar :=
  if h : 0 < beNat key.bytes ∧ beNat key.bytes < curveOrder then .ok ⟨beNat key.bytes, h⟩
  else .error "signature error"

structure Signature where
  r : Scalar
  s : Scalar
  deriving DecidableEq

/-- `signature.s().is_high()`. -/
def Signature.isHigh (signature : Signature) : Bool :=
  decide (curveOrder / 2 < signature.s.val)

/-- `normalize_s`: the other square root. -/
def Signature.normalizeS (signature : Signature) : Signature :=
  { signature with
    s := ⟨curveOrder - signature.s.val, by
      have h := signature.s.property
      omega⟩ }

/-- The primitives that are not part of the repository. -/
structure Crypto where
  keccak256 : List UInt8 → B256
  /-- `sign_prehash_recoverable`, with the byte of the recovery id -/
  signPrehashRecoverable : Scalar → B256 → Except String (Signature × UInt8)

/-! ## Signing -/

/-- `sign_eip1559_transaction`; `none` is a panic of the RLP builder. -/
def signEip1559Transaction (crypto : Crypto) (tx : Eip1559Transaction) (pvtKey : B256) :
    Option (Except LocalError SignedTransaction) :=
  let signingNonce := tx.nonce
  match encodeEip1559Unsigned tx with
  | none => none
  | some unsignedRlp =>
    let signingHash := crypto.keccak256 (0x02 :: unsignedRlp)
    match signingKeyFromBytes pvtKey with
    | .error e => some (.error (.internal ("Invalid private key: " ++ e)))
    | .ok signingKey =>
      match crypto.signPrehashRecoverable signingKey signingHash with
      | .error e => some (.error (.invariant ("Signing failed: " ++ e)))
      | .ok (signature, recoveryId) =>
        -- the recovery id of the signature before is kept
        let signature := if signature.isHigh then signature.normalizeS else signature
        match encodeEip1559Signed tx recoveryId signature.r.toBytes signature.s.toBytes with
        | none => none
        | some signedRlp =>
          some (.ok { rlp := 0x02 :: signedRlp, withNonce := signingNonce })

/-- The signed transaction carries the nonce it was signed with. -/
theorem withNonce_of_sign {crypto : Crypto} {tx : Eip1559Transaction} {pvtKey : B256}
    {signed : SignedTransaction}
    (h : signEip1559Transaction crypto tx pvtKey = some (.ok signed)) :
    signed.withNonce = tx.nonce := by
  rw [signEip1559Transaction, encodeEip1559Unsigned_eq] at h
  dsimp only at h
  split at h
  · cases h
  · split at h
    · cases h
    · rw [encodeEip1559Signed_eq] at h
      cases h
      rfl

/-- The builder never panics on a transaction. -/
theorem signEip1559Transaction_ne_none (crypto : Crypto) (tx : Eip1559Transaction)
    (pvtKey : B256) : signEip1559Transaction crypto tx pvtKey ≠ none := by
  rw [signEip1559Transaction, encodeEip1559Unsigned_eq]
  dsimp only
  split
  · simp
  · split
    · simp
    · rw [encodeEip1559Signed_eq]
      simp

/-! ## Custody -/

/-- The value of a hexadecimal digit. -/
def hexValue (b : UInt8) : Option UInt8 :=
  if 0x30 ≤ b ∧ b ≤ 0x39 then some (b - 0x30)
  else if 0x41 ≤ b ∧ b ≤ 0x46 then some (b - 0x41 + 10)
  else if 0x61 ≤ b ∧ b ≤ 0x66 then some (b - 0x61 + 10)
  else none

/-- `{:?}` of the character with the code of a byte. -/
def debugByteChar (b : UInt8) : String :=
  let c := Char.ofNat b.toNat
  if c = '\'' then "'\\''"
  else if c = '"' then "'\"'"
  else if (0x80 ≤ b ∧ b ≤ 0xa0) ∨ b = 0xad then
    "'\\u\x7b" ++ String.ofList (Nat.toDigits 16 b.toNat) ++ "\x7d'"
  else "'" ++ String.ofList (debugChar c) ++ "'"

/-- `FromHexError::InvalidHexCharacter`, displayed. -/
def invalidHexCharacter (b : UInt8) (index : ℕ) : String :=
  "Invalid character " ++ debugByteChar b ++ " at position " ++ index.repr

/-- The pairs of digits from an index on. -/
def hexPairs : ℕ → List UInt8 → Except String (List UInt8)
  | _, [] => .ok []
  | _, [_] => .ok []
  | index, a :: b :: rest =>
    match hexValue a with
    | none => .error (invalidHexCharacter a index)
    | some high =>
      match hexValue b with
      | none => .error (invalidHexCharacter b (index + 1))
      | some low => (hexPairs (index + 2) rest).map (((high <<< 4) ||| low) :: ·)

/-- `hex::decode`, as the crate documents it: an even number of digits of either case, or the
error that names the first other character and its place. -/
def hexDecode (bytes : List UInt8) : Except String (List UInt8) :=
  if bytes.length % 2 ≠ 0 then .error "Odd number of digits" else hexPairs 0 bytes

/-- `{:?}` of a vector of bytes. -/
def debugBytes (bytes : List UInt8) : String :=
  "[" ++ ", ".intercalate (bytes.map fun b => b.toNat.repr) ++ "]"

/-- `{}` of an address, which `alloy` documents as the EIP-55 checksum form: a letter is upper
case where the Keccak hash of the lower-case digits has a nibble of 8 or more. -/
def Address.display (crypto : Crypto) (address : Address) : String :=
  let digits := address.bytes.flatMap fun b =>
    [hexDigit (b.toNat / 16), hexDigit (b.toNat % 16)]
  let hash := crypto.keccak256 (digits.map fun c => UInt8.ofNat c.toNat)
  let nibbles := hash.bytes.flatMap fun b => [b.toNat / 16, b.toNat % 16]
  "0x" ++ String.ofList
    ((digits.zip nibbles).map fun d => if 8 ≤ d.2 then d.1.toUpper else d.1)

/-- `JsonPolicyEngine`: the private keys, as the strings of the custody file. -/
structure JsonPolicyEngine where
  keys : List (Address × String)

/-- `resolve_key`. -/
def JsonPolicyEngine.resolveKey (engine : JsonPolicyEngine) (crypto : Crypto)
    (fromAddress : Address) : Except LocalError B256 :=
  match engine.keys.lookup fromAddress with
  | none =>
    .error (.internal ("Policy violation: no Key detected for: "
      ++ fromAddress.display crypto))
  | some pvtString =>
    match pvtString.toUTF8.data.toList with
    | 0x30 :: 0x78 :: pvtStr =>
      match hexDecode pvtStr with
      | .error e => .error (.invariant e)
      | .ok bytes =>
        if h : bytes.length = 32 then .ok ⟨bytes, h⟩
        else .error (.invariant ("Invalid pvt key length: " ++ debugBytes bytes))
    | _ => .error (.internal "Unable to parse Pvt Keys")

end Lobby
