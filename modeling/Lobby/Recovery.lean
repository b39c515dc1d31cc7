/-
# Recovering the signer from a signed transaction

`sign_eip1559_transaction` lowers a high `s` and keeps the parity that belonged to the
signature before.  What a node recovers is read from the emitted bytes: the parity and the
two words behind the nine fields.

The recovered key is the signer's exactly when the primitive returned a low `s` and a
recovery id of zero or one (`sign_recovers_iff`).  It holds of every recovery of keys with two
facts of ECDSA, which the curve secp256k1 has.
-/
import Lobby.Eip1559Wire
import Lobby.Secp256k1
import Lobby.System

open Rlp

namespace Lobby

/-! ## Recovery -/

/-- Recovery of keys, with the two facts of ECDSA used here. -/
structure EcdsaRecovery (Key : Type*) where
  recover : B256 → Scalar → Scalar → UInt8 → Option Key
  /-- negating `s` flips the parity bit -/
  recover_neg : ∀ (z : B256) (signature : Signature) (v : UInt8),
    recover z signature.r signature.normalizeS.s (v ^^^ 1)
      = recover z signature.r signature.s v
  /-- the other parity belongs to another key -/
  recover_flip : ∀ z r s v key, recover z r s v = some key →
    recover z r s (v ^^^ 1) ≠ some key

/-- Every curve has both. -/
def EcdsaRecovery.ofCurve {E : Type*} [AddCommGroup E] (C : Ecdsa.Curve E curveOrder) :
    EcdsaRecovery E where
  recover z r s v := C.recover (beNat z.bytes) r.val s.val v
  recover_neg z signature v :=
    C.recover_neg (beNat z.bytes) signature.r.val signature.s.property.2.le v
  recover_flip z r s v _ h :=
    C.recover_flip (beNat z.bytes) r.property.1 r.property.2 s.property.1 s.property.2 v h

/-- The recovery of keys on secp256k1. -/
noncomputable def secp256k1 : EcdsaRecovery Secp256k1.Group := .ofCurve Secp256k1.ecdsa

/-- The key that belongs to a private key. -/
noncomputable def publicKey (signingKey : Scalar) : Secp256k1.Group :=
  signingKey.val • Secp256k1.ecdsa.generator

/-- The parity of an emitted signature, as any byte. -/
def readYParity : Item → Option UInt8
  | .str [] => some 0
  | .str [b] => if b = 0 then none else some b
  | _ => none

/-- A half of an emitted signature. -/
def readScalar (item : Item) : Option Scalar :=
  (readWord item).bind fun word => (signingKeyFromBytes word).toOption

/-- The signature of an emitted transaction: the items behind the nine fields. -/
def readSignature : List UInt8 → Option (UInt8 × Scalar × Scalar)
  | [] => none
  | _ :: payload =>
    match Rlp.decode payload with
    | some (.list items) =>
      match items.drop 9 with
      | [yParity, r, s] => do
        let yParity ← readYParity yParity
        let r ← readScalar r
        let s ← readScalar s
        some (yParity, r, s)
      | _ => none
    | _ => none

/-- `keccak256(0x02 || rlp(unsigned))`. -/
def signingHash (crypto : Crypto) (tx : Eip1559Transaction) : B256 :=
  crypto.keccak256 (0x02 :: (Item.list (txItems tx)).encode)

/-- The emitted bytes carry a parity of zero or one and a low `s`, and recover to `key`. -/
def RecoversTo {Key : Type*} (ec : EcdsaRecovery Key) (hash : B256) (key : Key)
    (rlp : List UInt8) : Prop :=
  ∃ yParity r s, readSignature rlp = some (yParity, r, s) ∧ (yParity = 0 ∨ yParity = 1)
    ∧ s.val ≤ curveOrder / 2 ∧ ec.recover hash r s yParity = some key

/-- The signed payload has a length that fits the length of length, as every byte string in
memory does. -/
def Fits (tx : Eip1559Transaction) : Prop :=
  ∀ yParity r s, (signedPayload tx yParity r s).length < 2 ^ 64

/-! ## Reading a signature back -/

theorem flip_flip (v : UInt8) : v ^^^ 1 ^^^ 1 = v := by
  rw [UInt8.xor_assoc, UInt8.xor_self, UInt8.xor_zero]

theorem beNat_toBytes (n : Scalar) : beNat n.toBytes.bytes = n.val := by
  have h := n.property.2
  rw [Scalar.toBytes, beNat_toBe, Nat.mod_eq_of_lt]
  exact h.trans (by norm_num [curveOrder])

theorem readYParity_item (yParity : UInt8) :
    readYParity (.str (if yParity = 0 then [] else [yParity])) = some yParity := by
  by_cases h : yParity = 0
  · rw [if_pos h, h]
    rfl
  · rw [if_neg h, readYParity, if_neg h]

theorem scalar_mk_eq {value : ℕ} (h : 0 < value ∧ value < curveOrder) (n : Scalar)
    (heq : value = n.val) : (⟨value, h⟩ : Scalar) = n := by
  subst heq
  rfl

theorem signingKeyFromBytes_toBytes (n : Scalar) : signingKeyFromBytes n.toBytes = .ok n := by
  have hrange : 0 < beNat n.toBytes.bytes ∧ beNat n.toBytes.bytes < curveOrder := by
    rw [beNat_toBytes]
    exact n.property
  rw [signingKeyFromBytes, dif_pos hrange, scalar_mk_eq _ n (beNat_toBytes n)]

theorem readScalar_item (n : Scalar) :
    readScalar (.str (stripLeadingZeros n.toBytes.bytes)) = some n := by
  have hpos : beNat n.toBytes.bytes ≠ 0 := by
    rw [beNat_toBytes]
    exact n.property.1.ne'
  rw [readScalar, readWord_stripLeadingZeros _ hpos, Option.bind_some,
    signingKeyFromBytes_toBytes, Except.toOption]

/-- The signature is read back from the bytes the encoder emits. -/
theorem readSignature_encode {tx : Eip1559Transaction} (hfits : Fits tx) (yParity : UInt8)
    (r s : Scalar) :
    readSignature (0x02 ::
        (Item.list (txItems tx ++ signatureItems yParity r.toBytes s.toBytes)).encode)
      = some (yParity, r, s) := by
  have hdecode := decode_encode_list (txItems tx ++ signatureItems yParity r.toBytes s.toBytes)
    (hfits yParity r.toBytes s.toBytes)
  have hdrop : (txItems tx ++ signatureItems yParity r.toBytes s.toBytes).drop 9
      = signatureItems yParity r.toBytes s.toBytes := List.drop_left' (length_txItems tx)
  rw [readSignature, hdecode]
  dsimp only
  rw [hdrop, signatureItems]
  dsimp only
  rw [readYParity_item, readScalar_item, readScalar_item]
  rfl

/-! ## What is emitted -/

section

variable {crypto : Crypto} {tx : Eip1559Transaction} {pvtKey : B256} {signingKey : Scalar}
  {signature : Signature} {recoveryId : UInt8}

/-- The emitted signature: `s` lowered, the recovery id as it was returned. -/
theorem sign_eq_ok (hkey : signingKeyFromBytes pvtKey = .ok signingKey)
    (hsign : crypto.signPrehashRecoverable signingKey (signingHash crypto tx)
      = .ok (signature, recoveryId)) :
    signEip1559Transaction crypto tx pvtKey = some (.ok
      { rlp := 0x02 :: (Item.list (txItems tx ++ signatureItems recoveryId
          (if signature.isHigh then signature.normalizeS else signature).r.toBytes
          (if signature.isHigh then signature.normalizeS else signature).s.toBytes)).encode
        withNonce := tx.nonce }) := by
  rw [signingHash] at hsign
  rw [signEip1559Transaction, encodeEip1559Unsigned_eq]
  dsimp only
  rw [hkey]
  dsimp only
  rw [hsign]
  dsimp only
  rw [encodeEip1559Signed_eq]

/-- A transaction is signed only with a signature of the primitive. -/
theorem exists_signature_of_sign {signed : SignedTransaction}
    (hkey : signingKeyFromBytes pvtKey = .ok signingKey)
    (h : signEip1559Transaction crypto tx pvtKey = some (.ok signed)) :
    ∃ pair, crypto.signPrehashRecoverable signingKey (signingHash crypto tx) = .ok pair := by
  rw [signingHash]
  rw [signEip1559Transaction, encodeEip1559Unsigned_eq] at h
  dsimp only at h
  rw [hkey] at h
  dsimp only at h
  cases hsign : crypto.signPrehashRecoverable signingKey
      (crypto.keccak256 (0x02 :: (Item.list (txItems tx)).encode)) with
  | error e =>
      rw [hsign] at h
      cases h
  | ok pair => exact ⟨pair, rfl⟩

variable {Key : Type*} {ec : EcdsaRecovery Key} {key : Key}

/-- One signature of the primitive that recovers to `key`: what is emitted for it does so
too exactly when `s` was low and the recovery id is a parity. -/
theorem recoversTo_iff (hfits : Fits tx)
    (hrec : ec.recover (signingHash crypto tx) signature.r signature.s recoveryId = some key)
    (hkey : signingKeyFromBytes pvtKey = .ok signingKey)
    (hsign : crypto.signPrehashRecoverable signingKey (signingHash crypto tx)
      = .ok (signature, recoveryId)) :
    (∃ signed, signEip1559Transaction crypto tx pvtKey = some (.ok signed)
      ∧ RecoversTo ec (signingHash crypto tx) key signed.rlp) ↔
    signature.isHigh = false ∧ (recoveryId = 0 ∨ recoveryId = 1) := by
  rw [sign_eq_ok hkey hsign]
  constructor
  · rintro ⟨signed, heq, yParity, r, s, hread, hparity, -, hrecover⟩
    cases heq
    rw [readSignature_encode hfits] at hread
    cases hread
    refine ⟨?_, hparity⟩
    by_contra hhigh
    rw [Bool.not_eq_false] at hhigh
    rw [hhigh, if_pos rfl] at hrecover
    -- the recovery id of the lowered signature is the flipped one
    have hneg := ec.recover_neg (signingHash crypto tx) signature (recoveryId ^^^ 1)
    rw [flip_flip] at hneg
    exact ec.recover_flip _ _ _ _ _ hrec (hneg.symm.trans hrecover)
  · rintro ⟨hlow, hparity⟩
    have hle : signature.s.val ≤ curveOrder / 2 := by
      rw [Signature.isHigh, decide_eq_false_iff_not] at hlow
      exact not_lt.mp hlow
    rw [hlow]
    exact ⟨_, rfl, recoveryId, signature.r, signature.s, readSignature_encode hfits _ _ _,
      hparity, hle, hrec⟩

end

/-- **Recovery of the signer.**  The primitive returns signatures that recover to the key.
The function returns an error or emits bytes that recover to it, with a low `s` and a parity
of zero or one, if and only if what the primitive returned had them already. -/
theorem sign_recovers_iff {Key : Type*} (ec : EcdsaRecovery Key) (publicKey : Scalar → Key)
    (crypto : Crypto) (tx : Eip1559Transaction) (pvtKey : B256) (hfits : Fits tx)
    (hprimitive : ∀ signingKey signature recoveryId,
      signingKeyFromBytes pvtKey = .ok signingKey →
      crypto.signPrehashRecoverable signingKey (signingHash crypto tx)
        = .ok (signature, recoveryId) →
      ec.recover (signingHash crypto tx) signature.r signature.s recoveryId
        = some (publicKey signingKey)) :
    (∃ outcome, signEip1559Transaction crypto tx pvtKey = some outcome ∧
      ∀ signed signingKey, outcome = .ok signed →
        signingKeyFromBytes pvtKey = .ok signingKey →
        RecoversTo ec (signingHash crypto tx) (publicKey signingKey) signed.rlp) ↔
    ∀ signingKey signature recoveryId, signingKeyFromBytes pvtKey = .ok signingKey →
      crypto.signPrehashRecoverable signingKey (signingHash crypto tx)
        = .ok (signature, recoveryId) →
      signature.isHigh = false ∧ (recoveryId = 0 ∨ recoveryId = 1) := by
  constructor
  · rintro ⟨outcome, hout, hrecovers⟩ signingKey signature recoveryId hkey hsign
    have hok := sign_eq_ok hkey hsign
    rw [hout, Option.some_inj] at hok
    subst hok
    exact (recoversTo_iff hfits (hprimitive _ _ _ hkey hsign) hkey hsign).mp
      ⟨_, hout, hrecovers _ signingKey rfl hkey⟩
  · intro hlow
    obtain ⟨outcome, hout⟩ := Option.ne_none_iff_exists'.mp
      (signEip1559Transaction_ne_none crypto tx pvtKey)
    refine ⟨outcome, hout, ?_⟩
    rintro signed signingKey rfl hkey
    obtain ⟨⟨signature, recoveryId⟩, hsign⟩ := exists_signature_of_sign hkey hout
    obtain ⟨signed', hout', hrec⟩ :=
      (recoversTo_iff hfits (hprimitive _ _ _ hkey hsign) hkey hsign).mpr
        (hlow signingKey signature recoveryId hkey hsign)
    rw [hout, Option.some_inj] at hout'
    cases hout'
    exact hrec

/-! ## A high and a low signature -/

theorem length_header_le (short long n : ℕ) : (header short long n).length ≤ 9 := by
  have h := length_lengthBytes_le n
  rw [header]
  split
  · simp
  · rw [List.length_cons]
    omega

theorem length_encodeValue_le (bytes : List UInt8) :
    (encodeValue bytes).length ≤ bytes.length + 9 := by
  have hlong := length_header_le 0x80 0xb7 bytes.length
  match bytes with
  | [] => simp [encodeValue, header]
  | [b] =>
      show (if b < 0x80 then [b] else header 0x80 0xb7 1 ++ [b]).length ≤ _
      split
      · simp
      · rw [List.length_append]
        have h := length_header_le 0x80 0xb7 1
        simp only [List.length_singleton]
        omega
  | a :: b :: bytes =>
      show (header 0x80 0xb7 (a :: b :: bytes).length ++ a :: b :: bytes).length ≤ _
      rw [List.length_append]
      omega

theorem length_stripLeadingZeros_le (word : B256) :
    (stripLeadingZeros word.bytes).length ≤ 32 := by
  have h := length_trim_le word.bytes
  have hlen := word.length_eq
  unfold stripLeadingZeros
  split
  · rw [List.length_drop]
    omega
  · omega

/-- The three items of the signature are short. -/
theorem fits_of_unsignedPayload {tx : Eip1559Transaction}
    (h : (unsignedPayload tx).length + 92 < 2 ^ 64) : Fits tx := by
  intro yParity r s
  have happend : ∀ xs ys : List Item, encodeAll (xs ++ ys) = encodeAll xs ++ encodeAll ys := by
    intro xs ys
    induction xs with
    | nil => simp [encodeAll]
    | cons x xs ih => simp [encodeAll, ih]
  have hy := length_encodeValue_le (if yParity = 0 then [] else [yParity])
  have hy1 : (if yParity = 0 then [] else [yParity]).length ≤ 1 := by split <;> simp
  have hr := length_encodeValue_le (stripLeadingZeros r.bytes)
  have hr32 := length_stripLeadingZeros_le r
  have hs := length_encodeValue_le (stripLeadingZeros s.bytes)
  have hs32 := length_stripLeadingZeros_le s
  rw [signedPayload, happend, List.length_append, ← unsignedPayload, signatureItems]
  simp only [encodeAll, Item.encode, List.length_append, List.length_nil]
  omega

/-- The key 1. -/
def scalarOne : Scalar := ⟨1, by decide +kernel⟩

theorem lowSignature_r_range :
    0 < 0x89a6f9c728f2b7835601ece02e3586c8bea6c60bcfb6b1163de8cfcb2405107e
      ∧ 0x89a6f9c728f2b7835601ece02e3586c8bea6c60bcfb6b1163de8cfcb2405107e < curveOrder := by
  decide

theorem lowSignature_s_range :
    0 < 0x51b46d39fafd50a96def3aef8b349f941ec795e18ad00f107033a852c98a68da
      ∧ 0x51b46d39fafd50a96def3aef8b349f941ec795e18ad00f107033a852c98a68da < curveOrder := by
  decide

/-- The signature of `sampleTxn` under the key 1, with a low `s`. -/
def lowSignature : Signature where
  r := ⟨0x89a6f9c728f2b7835601ece02e3586c8bea6c60bcfb6b1163de8cfcb2405107e, lowSignature_r_range⟩
  s := ⟨0x51b46d39fafd50a96def3aef8b349f941ec795e18ad00f107033a852c98a68da, lowSignature_s_range⟩

/-- The number whose multiple of the generator has the `r` of the signature. -/
def sampleEphemeral : ℕ :=
  0x2427740452800c84441945d7cbf9eb5b59b02fdd7a212c6a1b7148a602b805d

/-- The point of the signature. -/
def sampleOrdinate : ℕ :=
  0xf61b9d667d4854152460890cd9a1d6b15d49e03cb7e20e5d9ea8023ea0f05396

theorem fits_sampleTxn : Fits sampleTxn := fits_of_unsignedPayload (by decide +kernel)

theorem signingHash_sampleTxn :
    signingHash sampleDeployment.crypto sampleTxn = .ofNat (sampleHash 0) := by
  decide +kernel

/-- On secp256k1 the signature recovers to the key 1. -/
theorem recover_lowSignature :
    secp256k1.recover (.ofNat (sampleHash 0)) lowSignature.r lowSignature.s 0
      = some (publicKey scalarOne) := by
  have hmultiple : (Secp256k1.Coordinates.multiple Secp256k1.generatorX Secp256k1.generatorY 256
      sampleEphemeral).map (fun c => (decide (c.z % Secp256k1.fieldOrder ≠ 0),
        c.isAffine lowSignature.r.val sampleOrdinate)) = some (true, true) := by
    decide +kernel
  obtain ⟨c, hc, hpoint⟩ := Option.map_eq_some_iff.mp hmultiple
  obtain ⟨hz, haffine⟩ := Prod.mk.inj hpoint
  have hlift := Secp256k1.lift_eq_of_multiple (r := lowSignature.r.val) (v := 0)
    (by decide +kernel) hc (of_decide_eq_true hz) haffine (by decide +kernel) (by decide)
    (by decide +kernel) (by decide +kernel)
  exact Secp256k1.ecdsa.recover_of_signed (d := 1) (by decide +kernel) (by decide +kernel) hlift
    (by decide +kernel)

/-- The transfer of `sampleTxn` is signed with a low `s`, and the signer is recovered. -/
theorem sign_recovers_low :
    ∃ outcome, signEip1559Transaction sampleDeployment.crypto sampleTxn scalarOne.toBytes
        = some outcome ∧
      ∀ signed signingKey, outcome = .ok signed →
        signingKeyFromBytes scalarOne.toBytes = .ok signingKey →
        RecoversTo secp256k1 (signingHash sampleDeployment.crypto sampleTxn)
          (publicKey signingKey) signed.rlp := by
  have hprimitive : sampleDeployment.crypto.signPrehashRecoverable scalarOne
      (.ofNat (sampleHash 0)) = .ok (lowSignature, 0) := by decide +kernel
  have hreturned : ∀ signingKey signature recoveryId,
      signingKeyFromBytes scalarOne.toBytes = .ok signingKey →
      sampleDeployment.crypto.signPrehashRecoverable signingKey
        (signingHash sampleDeployment.crypto sampleTxn) = .ok (signature, recoveryId) →
      signingKey = scalarOne ∧ signature = lowSignature ∧ recoveryId = 0 := by
    intro signingKey signature recoveryId hkey hsign
    obtain rfl := Except.ok.inj ((signingKeyFromBytes_toBytes scalarOne).symm.trans hkey)
    rw [signingHash_sampleTxn, hprimitive] at hsign
    obtain ⟨rfl, rfl⟩ := Prod.mk.inj (Except.ok.inj hsign)
    exact ⟨rfl, rfl, rfl⟩
  refine (sign_recovers_iff secp256k1 publicKey sampleDeployment.crypto sampleTxn
    scalarOne.toBytes fits_sampleTxn ?_).mpr ?_
  · -- the signature recovers to the generator, the public key of one
    intro signingKey signature recoveryId hkey hsign
    obtain ⟨rfl, rfl, rfl⟩ := hreturned _ _ _ hkey hsign
    rw [signingHash_sampleTxn]
    exact recover_lowSignature
  · intro signingKey signature recoveryId hkey hsign
    obtain ⟨rfl, rfl, rfl⟩ := hreturned _ _ _ hkey hsign
    exact ⟨by decide +kernel, Or.inl rfl⟩

/-- The primitive with the other form of that signature, a high `s` and the other parity. -/
def highCrypto : Crypto where
  keccak256 := sampleKeccak
  signPrehashRecoverable _ _ := .ok (lowSignature.normalizeS, 1)

/-- The high form recovers to the key 1 as well.  What is emitted for it is the low `s` with
the parity of the high one, and another key is recovered. -/
theorem sign_high_not_recovered :
    lowSignature.normalizeS.isHigh = true
    ∧ secp256k1.recover (signingHash highCrypto sampleTxn) lowSignature.normalizeS.r
        lowSignature.normalizeS.s 1 = some (publicKey scalarOne)
    ∧ highCrypto.signPrehashRecoverable scalarOne (signingHash highCrypto sampleTxn)
        = .ok (lowSignature.normalizeS, 1)
    ∧ ∃ signed, signEip1559Transaction highCrypto sampleTxn scalarOne.toBytes
        = some (.ok signed)
      ∧ ¬ RecoversTo secp256k1 (signingHash highCrypto sampleTxn) (publicKey scalarOne)
        signed.rlp := by
  have hkey := signingKeyFromBytes_toBytes scalarOne
  have hhigh : lowSignature.normalizeS.isHigh = true := by decide +kernel
  have hrecover : secp256k1.recover (signingHash highCrypto sampleTxn) lowSignature.normalizeS.r
      lowSignature.normalizeS.s 1 = some (publicKey scalarOne) := by
    rw [show signingHash highCrypto sampleTxn = .ofNat (sampleHash 0) from
      signingHash_sampleTxn]
    exact (secp256k1.recover_neg _ lowSignature 0).trans recover_lowSignature
  have hsign : highCrypto.signPrehashRecoverable scalarOne (signingHash highCrypto sampleTxn)
      = .ok (lowSignature.normalizeS, 1) := rfl
  refine ⟨hhigh, hrecover, hsign, _, sign_eq_ok hkey hsign, fun hrec => ?_⟩
  have hlow := (recoversTo_iff fits_sampleTxn hrecover hkey hsign).mp
    ⟨_, sign_eq_ok hkey hsign, hrec⟩
  rw [hhigh] at hlow
  exact absurd hlow.1 (by decide)

end Lobby
