/-
# The wire format of signed transactions

A strict reader of EIP-2718 envelopes of type `0x02`: canonical RLP, integers without
leading zeros, an empty or 20-byte destination, and access lists whose storage keys
are exactly 32 bytes.  It is the format the nodes accept, stated on its own and
compared here with the bytes the encoder of `Eip1559.lean` emits.

The encoder writes storage keys by the integer rule, so the reader gets the
transaction back exactly when no key starts with a zero byte
(`decodeEip1559Signed_encode_iff`).  The unsigned encoding is unambiguous without
any such condition (`encodeEip1559Unsigned_injective`).
-/
import Lobby.Eip1559

open Rlp

namespace Lobby

/-! ## The strict reader -/

/-- An integer of at most 256 bits without leading zeros. -/
def readU256 : Item → Option U256
  | .str bytes =>
    if bytes.head? = some 0 ∨ 32 < bytes.length then none
    else some (BitVec.ofNat 256 (beNat bytes))
  | .list _ => none

/-- A 20-byte address. -/
def readAddress : Item → Option Address
  | .str bytes => if h : bytes.length = 20 then some ⟨bytes, h⟩ else none
  | .list _ => none

/-- The destination: empty or an address. -/
def readTo : Item → Option (Option Address)
  | .str [] => some none
  | item => (readAddress item).map some

def readBytes : Item → Option (List UInt8)
  | .str bytes => some bytes
  | .list _ => none

/-- A storage key: exactly 32 bytes. -/
def readStorageKey : Item → Option U256
  | .str bytes =>
    if bytes.length = 32 then some (BitVec.ofNat 256 (beNat bytes)) else none
  | .list _ => none

def readEntry : Item → Option (Address × List U256)
  | .list [address, .list keys] => do
    let address ← readAddress address
    let keys ← keys.mapM readStorageKey
    some (address, keys)
  | _ => none

def readAccessList : Item → Option (List (Address × List U256))
  | .list entries => entries.mapM readEntry
  | .str _ => none

/-- The parity of the signature point: zero or one. -/
def readParity : Item → Option UInt8
  | .str [] => some 0
  | .str [1] => some 1
  | _ => none

theorem length_toBe_word (n : ℕ) : (toBe 32 n).length = 32 := length_toBe 32 n

/-- A signature word: a nonzero integer without leading zeros, widened to 32 bytes. -/
def readWord : Item → Option B256
  | .str bytes =>
    if bytes.head? = some 0 ∨ bytes = [] ∨ 32 < bytes.length then none
    else some ⟨toBe 32 (beNat bytes), length_toBe_word _⟩
  | .list _ => none

/-- The nine transaction fields. -/
def readTx (chainId nonce priority fee gas destination value data accessList : Item) :
    Option Eip1559Transaction := do
  let chainId ← readU256 chainId
  let nonce ← readU256 nonce
  let priority ← readU256 priority
  let fee ← readU256 fee
  let gas ← readU256 gas
  let destination ← readTo destination
  let value ← readU256 value
  let data ← readBytes data
  let accessList ← readAccessList accessList
  some ⟨⟨chainId⟩, ⟨nonce⟩, priority, fee, gas, destination, value, data, accessList⟩

/-- Read a signed transaction: the type byte, then one list of twelve items. -/
def decodeEip1559Signed :
    List UInt8 → Option (Eip1559Transaction × UInt8 × B256 × B256)
  | [] => none
  | envelopeType :: payload =>
    if envelopeType = 0x02 then
      match Rlp.decode payload with
      | some (.list [c, n, p, f, g, d, v, x, a, y, r, s]) => do
        let tx ← readTx c n p f g d v x a
        let yParity ← readParity y
        let r ← readWord r
        let s ← readWord s
        some (tx, yParity, r, s)
      | _ => none
    else none

/-! ## Reading the fields back -/

@[simp] theorem readU256_u256Item (value : U256) : readU256 (u256Item value) = some value := by
  have hhead := head?_trim_ne_zero (toBe 32 value.toNat)
  have hlen := length_trim_le (toBe 32 value.toNat)
  rw [length_toBe] at hlen
  rw [u256Item, readU256, if_neg (by simp [hhead, hlen]), beNat_trim, beNat_u256]
  simp

@[simp] theorem readAddress_addressItem (address : Address) :
    readAddress (addressItem address) = some address := by
  rw [addressItem, readAddress, dif_pos address.length_eq]

@[simp] theorem readTo_toItem (destination : Option Address) :
    readTo (toItem destination) = some destination := by
  cases destination with
  | none => rfl
  | some address =>
      have hne : address.bytes ≠ [] := by
        intro hnil
        have hlen := address.length_eq
        rw [hnil] at hlen
        simp at hlen
      have h := readAddress_addressItem address
      obtain ⟨b, bs, hbs⟩ := List.exists_cons_of_ne_nil hne
      rw [addressItem, hbs] at h
      rw [toItem, addressItem, hbs, readTo, h]
      · rfl
      · simp

/-- A storage key is read back exactly when its first byte is not zero. -/
theorem readStorageKey_u256Item (key : U256) :
    readStorageKey (u256Item key)
      = if 2 ^ 248 ≤ key.toNat then some key else none := by
  have hiff := length_trim_lt_iff (toBe 32 key.toNat) (by rw [← List.length_pos_iff]; simp)
  have hle := length_trim_le (toBe 32 key.toNat)
  rw [length_toBe, beNat_u256] at hiff
  rw [length_toBe] at hle
  have hpow : (256 : ℕ) ^ (32 - 1) = 2 ^ 248 := by norm_num
  rw [hpow] at hiff
  rw [u256Item, readStorageKey, beNat_trim, beNat_u256]
  -- the trimmed key has 32 bytes exactly when its first byte is not zero
  by_cases hkey : 2 ^ 248 ≤ key.toNat
  · have hlen : (trim (toBe 32 key.toNat)).length = 32 := by
      by_contra hne
      exact absurd (hiff.mp (by omega)) (by omega)
    rw [if_pos hlen, if_pos hkey]
    simp
  · have hlen : (trim (toBe 32 key.toNat)).length ≠ 32 := by
      have := hiff.mpr (by omega)
      omega
    rw [if_neg hlen, if_neg hkey]

/-- Reading a list of encoded values back, when each of them is read back. -/
theorem mapM_map_eq_some {α β : Type*} (read : β → Option α) (write : α → β) (xs : List α)
    (h : ∀ x ∈ xs, read (write x) = some x) : (xs.map write).mapM read = some xs := by
  induction xs with
  | nil => rfl
  | cons x xs ih =>
      have hx := h x List.mem_cons_self
      have hxs := ih (fun y hy => h y (List.mem_cons_of_mem x hy))
      simp [hx, hxs]

/-- A reader of a list succeeds on every element of the list. -/
theorem isSome_of_mapM_eq_some {α β : Type*} (read : β → Option α) (ys : List β)
    {xs : List α} (h : ys.mapM read = some xs) : ∀ y ∈ ys, (read y).isSome := by
  induction ys generalizing xs with
  | nil => simp
  | cons y ys ih =>
      intro z hz
      rw [List.mapM_cons] at h
      cases hy : read y with
      | none => simp [hy] at h
      | some x =>
          cases hys : ys.mapM read with
          | none => simp [hy, hys] at h
          | some xs' =>
              rcases List.mem_cons.mp hz with rfl | hz
              · simp [hy]
              · exact ih hys z hz

/-- The storage keys that the strict reader accepts: those of full width. -/
def FullWidthKeys (accessList : List (Address × List U256)) : Prop :=
  ∀ entry ∈ accessList, ∀ key ∈ entry.2, 2 ^ 248 ≤ key.toNat

theorem readEntry_entryItem (entry : Address × List U256)
    (h : ∀ key ∈ entry.2, 2 ^ 248 ≤ key.toNat) :
    readEntry (entryItem entry) = some entry := by
  have hkeys : (entry.2.map u256Item).mapM readStorageKey = some entry.2 := by
    apply mapM_map_eq_some
    intro key hkey
    rw [readStorageKey_u256Item, if_pos (h key hkey)]
  simp [entryItem, readEntry, hkeys]

theorem readAccessList_accessListItem {accessList : List (Address × List U256)}
    (h : FullWidthKeys accessList) :
    readAccessList (accessListItem accessList) = some accessList :=
  mapM_map_eq_some readEntry entryItem accessList
    (fun entry hentry => readEntry_entryItem entry (h entry hentry))

/-- An access list that is read at all has keys of full width only. -/
theorem fullWidthKeys_of_readAccessList {accessList : List (Address × List U256)}
    {result : List (Address × List U256)}
    (h : readAccessList (accessListItem accessList) = some result) :
    FullWidthKeys accessList := by
  intro entry hentry key hkey
  have hsome := isSome_of_mapM_eq_some readEntry (accessList.map entryItem) h
    (entryItem entry) (List.mem_map_of_mem hentry)
  rw [entryItem, readEntry, readAddress_addressItem] at hsome
  cases hkeys : (entry.2.map u256Item).mapM readStorageKey with
  | none => simp [hkeys] at hsome
  | some keys =>
      -- a key that is read was written with its full width
      have hread := isSome_of_mapM_eq_some readStorageKey _ hkeys (u256Item key)
        (List.mem_map_of_mem hkey)
      rw [readStorageKey_u256Item] at hread
      by_contra hlt
      rw [if_neg hlt] at hread
      simp at hread

theorem readParity_item {yParity : UInt8} (h : yParity = 0 ∨ yParity = 1) :
    readParity (.str (if yParity = 0 then [] else [yParity])) = some yParity := by
  rcases h with rfl | rfl <;> rfl

/-- A nonzero signature word is read back from its trimmed form. -/
theorem readWord_stripLeadingZeros (word : B256) (h : beNat word.bytes ≠ 0) :
    readWord (.str (stripLeadingZeros word.bytes)) = some word := by
  have hne : trim word.bytes ≠ [] := fun hnil => h ((trim_eq_nil_iff _).mp hnil)
  have hhead := head?_trim_ne_zero word.bytes
  have hlen := length_trim_le word.bytes
  rw [word.length_eq] at hlen
  have hword : toBe 32 (beNat word.bytes) = word.bytes := by
    apply beNat_injective_of_length
    · rw [length_toBe, word.length_eq]
    · rw [beNat_toBe, Nat.mod_eq_of_lt]
      have hlt := beNat_lt word.bytes
      rwa [word.length_eq] at hlt
  rw [stripLeadingZeros, if_neg hne, readWord, if_neg (by simp [hhead, hne, hlen])]
  cases word
  simpa using hword

/-! ## The round trip -/

/-- The payload of the signed encoding: the bytes of its twelve items. -/
def signedPayload (tx : Eip1559Transaction) (yParity : UInt8) (r s : B256) : List UInt8 :=
  encodeAll (txItems tx ++ signatureItems yParity r s)

/-- What the strict reader makes of an emitted transaction. -/
theorem decodeEip1559Signed_encode (tx : Eip1559Transaction) (yParity : UInt8) (r s : B256)
    (hy : yParity = 0 ∨ yParity = 1) (hr : beNat r.bytes ≠ 0) (hs : beNat s.bytes ≠ 0)
    (hlen : (signedPayload tx yParity r s).length < 2 ^ 64) :
    ((encodeEip1559Signed tx yParity r s).bind fun bytes =>
        decodeEip1559Signed (0x02 :: bytes))
      = (readAccessList (accessListItem tx.accessList)).map fun accessList =>
          ({ tx with accessList := accessList }, yParity, r, s) := by
  have hdecode := decode_encode_list (txItems tx ++ signatureItems yParity r s) hlen
  rw [encodeEip1559Signed_eq, Option.bind_some, decodeEip1559Signed, if_pos rfl, hdecode]
  simp only [txItems, signatureItems, List.cons_append, List.nil_append, readTx,
    readU256_u256Item, readTo_toItem, readBytes, readParity_item hy,
    readWord_stripLeadingZeros r hr, readWord_stripLeadingZeros s hs]
  cases readAccessList (accessListItem tx.accessList) <;> rfl

/-- **Wire-format round trip.**  The strict reader gives back the transaction and its
signature if and only if every storage key has full width. -/
theorem decodeEip1559Signed_encode_iff (tx : Eip1559Transaction) (yParity : UInt8)
    (r s : B256) (hy : yParity = 0 ∨ yParity = 1) (hr : beNat r.bytes ≠ 0)
    (hs : beNat s.bytes ≠ 0) (hlen : (signedPayload tx yParity r s).length < 2 ^ 64) :
    ((encodeEip1559Signed tx yParity r s).bind fun bytes =>
        decodeEip1559Signed (0x02 :: bytes)) = some (tx, yParity, r, s)
      ↔ FullWidthKeys tx.accessList := by
  rw [decodeEip1559Signed_encode tx yParity r s hy hr hs hlen]
  constructor
  · intro h
    cases hread : readAccessList (accessListItem tx.accessList) with
    | none => rw [hread] at h; simp at h
    | some accessList => exact fullWidthKeys_of_readAccessList hread
  · intro h
    rw [readAccessList_accessListItem h]
    rfl

/-- A transaction with one storage key. -/
def oneKeyTransaction (key : U256) : Eip1559Transaction where
  chainId := ⟨1⟩
  nonce := ⟨7⟩
  maxPriorityFeePerGas := 1
  maxFeePerGas := 2
  gasLimit := 21000
  toAddress := some (.ofByte 0x11)
  value := 0
  data := [0xca, 0xfe]
  accessList := [(.ofByte 0x22, [key])]

/-- The word with value one. -/
def oneWord : B256 := ⟨List.replicate 31 0 ++ [1], rfl⟩

theorem decodeEip1559Signed_encode_iff_fullKey :
    ((encodeEip1559Signed (oneKeyTransaction (BitVec.ofNat 256 (2 ^ 248))) 1 oneWord
        oneWord).bind fun bytes => decodeEip1559Signed (0x02 :: bytes))
      = some (oneKeyTransaction (BitVec.ofNat 256 (2 ^ 248)), 1, oneWord, oneWord)
      ↔ FullWidthKeys (oneKeyTransaction (BitVec.ofNat 256 (2 ^ 248))).accessList :=
  decodeEip1559Signed_encode_iff _ 1 oneWord oneWord (Or.inr rfl) (by decide) (by decide)
    (by decide +kernel)

/-- The storage key `1` is emitted as a single byte, and the reader refuses it. -/
theorem decodeEip1559Signed_shortKey :
    ¬ ∀ (tx : Eip1559Transaction) (yParity : UInt8) (r s : B256),
      yParity = 0 ∨ yParity = 1 → beNat r.bytes ≠ 0 → beNat s.bytes ≠ 0 →
      (signedPayload tx yParity r s).length < 2 ^ 64 →
      ((encodeEip1559Signed tx yParity r s).bind fun bytes =>
        decodeEip1559Signed (0x02 :: bytes)) = some (tx, yParity, r, s) := by
  intro h
  have hshort := h (oneKeyTransaction 1) 1 oneWord oneWord (Or.inr rfl) (by decide)
    (by decide) (by decide +kernel)
  rw [show ((encodeEip1559Signed (oneKeyTransaction 1) 1 oneWord oneWord).bind fun bytes =>
    decodeEip1559Signed (0x02 :: bytes)) = none by decide +kernel] at hshort
  simp at hshort

/-! ## The signing preimage -/

/-- The payload of the unsigned encoding: the bytes of its nine items. -/
def unsignedPayload (tx : Eip1559Transaction) : List UInt8 := encodeAll (txItems tx)

/-- **Unambiguous signing preimage.**  Transactions whose encodings agree, with
payloads below `2 ^ 64` bytes, agree in every field. -/
theorem encodeEip1559Unsigned_injective (t₁ t₂ : Eip1559Transaction)
    (h₁ : (unsignedPayload t₁).length < 2 ^ 64) (h₂ : (unsignedPayload t₂).length < 2 ^ 64)
    (h : encodeEip1559Unsigned t₁ = encodeEip1559Unsigned t₂) : t₁ = t₂ := by
  rw [encodeEip1559Unsigned_eq, encodeEip1559Unsigned_eq, Option.some_inj] at h
  exact txItems_injective (encode_list_injective h₁ h₂ h)

theorem encodeEip1559Unsigned_injective_oneKey :
    oneKeyTransaction 1 = oneKeyTransaction (BitVec.ofNat 256 (2 ^ 256 + 1)) :=
  encodeEip1559Unsigned_injective _ _ (by decide +kernel) (by decide +kernel)
    (by decide +kernel)

/-! ## From the signed payload back to the preimage -/

/-- The bytes that were hashed, read off a signed payload: its first nine items. -/
def unsignedOfSigned (bytes : List UInt8) : Option (List UInt8) :=
  match Rlp.decode bytes with
  | some (.list items) => some (Item.list (items.take 9)).encode
  | _ => none

theorem length_txItems (tx : Eip1559Transaction) : (txItems tx).length = 9 := rfl

theorem take_txItems_append (tx : Eip1559Transaction) (items : List Item) :
    (txItems tx ++ items).take 9 = txItems tx := List.take_left' (length_txItems tx)

/-- The preimage is recomputed from a signed payload below `2 ^ 64` bytes. -/
theorem unsignedOfSigned_encode (tx : Eip1559Transaction) (yParity : UInt8) (r s : B256)
    (hlen : (signedPayload tx yParity r s).length < 2 ^ 64) :
    (encodeEip1559Signed tx yParity r s).bind unsignedOfSigned = encodeEip1559Unsigned tx := by
  have hdecode := decode_encode_list (txItems tx ++ signatureItems yParity r s) hlen
  rw [encodeEip1559Signed_eq, Option.bind_some, unsignedOfSigned, hdecode,
    encodeEip1559Unsigned_eq]
  dsimp only
  rw [take_txItems_append]

/-- **The two encoders and their trees.**  Neither encoder panics; they return the encodings
of a list of nine and of a list of twelve items; the first nine items are the same bytes;
and the bytes that were hashed can be recomputed from the signed payload. -/
theorem encoders_eq_trees (tx : Eip1559Transaction) (yParity : UInt8) (r s : B256) :
    encodeEip1559Unsigned tx = some (Item.list (txItems tx)).encode
    ∧ encodeEip1559Signed tx yParity r s
      = some (Item.list (txItems tx ++ signatureItems yParity r s)).encode
    ∧ (txItems tx).length = 9 ∧ (txItems tx ++ signatureItems yParity r s).length = 12
    ∧ ((txItems tx ++ signatureItems yParity r s).take 9).map Item.encode
      = (txItems tx).map Item.encode
    ∧ ((signedPayload tx yParity r s).length < 2 ^ 64 →
      (encodeEip1559Signed tx yParity r s).bind unsignedOfSigned
        = encodeEip1559Unsigned tx) := by
  refine ⟨encodeEip1559Unsigned_eq tx, encodeEip1559Signed_eq tx yParity r s,
    length_txItems tx, rfl, ?_, unsignedOfSigned_encode tx yParity r s⟩
  rw [take_txItems_append]

theorem encoders_eq_trees_oneKey :
    (encodeEip1559Signed (oneKeyTransaction 1) 1 oneWord oneWord).bind unsignedOfSigned
      = encodeEip1559Unsigned (oneKeyTransaction 1) :=
  (encoders_eq_trees (oneKeyTransaction 1) 1 oneWord oneWord).2.2.2.2.2 (by decide +kernel)

end Lobby
