/-
# Encoding EIP-1559 transactions

The two encoders of a transaction, written against the streaming builder as the
source writes them: the nine fields that are hashed for signing, and the twelve of
the signed transaction.  Integers are appended as their shortest big-endian form,
storage keys of the access list included.

`encodeEip1559Unsigned_eq` and `encodeEip1559Signed_eq` replace the builder by the
recursive encoding of an item tree, and `txItems_injective` reads the fields back
from the tree.
-/
import Lobby.Types
import Lobby.RlpStream

open Rlp

namespace Lobby

/-! ## The encoders -/

/-- `eth_rlp_append_u256`: zero is the empty string; any other value is encoded on its
own, without leading zeros, and appended raw as one item. -/
def ethRlpAppendU256 (value : U256) (s : RlpStream) : Option RlpStream :=
  if value = 0 then s.appendEmptyData
  else s.appendRaw (encodeValue (trim (toBe 32 value.toNat))) 1

def U256.ethRlpAppend (value : U256) (s : RlpStream) : Option RlpStream :=
  ethRlpAppendU256 value s

def ChainId.ethRlpAppend (chainId : ChainId) (s : RlpStream) : Option RlpStream :=
  ethRlpAppendU256 chainId.id s

def TxNonce.ethRlpAppend (nonce : TxNonce) (s : RlpStream) : Option RlpStream :=
  ethRlpAppendU256 nonce.value s

def Address.ethRlpAppend (address : Address) (s : RlpStream) : Option RlpStream :=
  s.appendRaw (encodeValue address.bytes) 1

/-- The destination: an address, or the empty string for a contract creation. -/
def appendTo (destination : Option Address) (s : RlpStream) : Option RlpStream :=
  match destination with
  | some address => address.ethRlpAppend s
  | none => s.appendEmptyData

/-- One entry of the access list: a list of the address and of its storage keys. -/
def appendAccessListEntry (entry : Address × List U256) (s : RlpStream) :
    Option RlpStream := do
  let s ← s.beginList 2
  let s ← entry.1.ethRlpAppend s
  let s ← s.beginList entry.2.length
  entry.2.foldlM (fun s key => U256.ethRlpAppend key s) s

/-- The loop over the access list, the same in both encoders. -/
def appendAccessList (accessList : List (Address × List U256)) (s : RlpStream) :
    Option RlpStream := do
  let s ← s.beginList accessList.length
  accessList.foldlM (fun s entry => appendAccessListEntry entry s) s

/-- The `rlp` crate's encoding of a `u8`. -/
def appendU8 (value : UInt8) (s : RlpStream) : Option RlpStream :=
  s.append (if value = 0 then [] else [value])

/-- `strip_leading_zeros`: an all-zero string keeps its last byte. -/
def stripLeadingZeros (bytes : List UInt8) : List UInt8 :=
  if trim bytes = [] then bytes.drop (bytes.length - 1) else trim bytes

/-- `encode_eip1559_unsigned`; `none` is a panic of the builder. -/
def encodeEip1559Unsigned (tx : Eip1559Transaction) : Option (List UInt8) := do
  let s ← RlpStream.newList 9
  let s ← tx.chainId.ethRlpAppend s
  let s ← tx.nonce.ethRlpAppend s
  let s ← U256.ethRlpAppend tx.maxPriorityFeePerGas s
  let s ← U256.ethRlpAppend tx.maxFeePerGas s
  let s ← U256.ethRlpAppend tx.gasLimit s
  let s ← appendTo tx.toAddress s
  let s ← U256.ethRlpAppend tx.value s
  let s ← s.append tx.data
  let s ← appendAccessList tx.accessList s
  s.out

/-- `encode_eip1559_signed`; `none` is a panic of the builder. -/
def encodeEip1559Signed (tx : Eip1559Transaction) (yParity : UInt8) (r s : B256) :
    Option (List UInt8) := do
  let srlp ← RlpStream.newList 12
  let srlp ← tx.chainId.ethRlpAppend srlp
  let srlp ← tx.nonce.ethRlpAppend srlp
  let srlp ← U256.ethRlpAppend tx.maxPriorityFeePerGas srlp
  let srlp ← U256.ethRlpAppend tx.maxFeePerGas srlp
  let srlp ← U256.ethRlpAppend tx.gasLimit srlp
  let srlp ← appendTo tx.toAddress srlp
  let srlp ← U256.ethRlpAppend tx.value srlp
  let srlp ← srlp.append tx.data
  let srlp ← appendAccessList tx.accessList srlp
  -- the signature behind the nine fields of the payload
  let srlp ← appendU8 yParity srlp
  let srlp ← srlp.append (stripLeadingZeros r.bytes)
  let srlp ← srlp.append (stripLeadingZeros s.bytes)
  srlp.out

/-! ## The item trees -/

/-- An integer as an item: its shortest big-endian form. -/
def u256Item (value : U256) : Item := .str (trim (toBe 32 value.toNat))

def addressItem (address : Address) : Item := .str address.bytes

def toItem : Option Address → Item
  | some address => addressItem address
  | none => .str []

def entryItem (entry : Address × List U256) : Item :=
  .list [addressItem entry.1, .list (entry.2.map u256Item)]

def accessListItem (accessList : List (Address × List U256)) : Item :=
  .list (accessList.map entryItem)

/-- The nine items of the unsigned transaction. -/
def txItems (tx : Eip1559Transaction) : List Item :=
  [u256Item tx.chainId.id, u256Item tx.nonce.value, u256Item tx.maxPriorityFeePerGas,
    u256Item tx.maxFeePerGas, u256Item tx.gasLimit, toItem tx.toAddress, u256Item tx.value,
    .str tx.data, accessListItem tx.accessList]

/-- The three items of the signature. -/
def signatureItems (yParity : UInt8) (r s : B256) : List Item :=
  [.str (if yParity = 0 then [] else [yParity]), .str (stripLeadingZeros r.bytes),
    .str (stripLeadingZeros s.bytes)]

/-! ## The builder computes the tree encoding -/

theorem beNat_u256 (value : U256) : beNat (toBe 32 value.toNat) = value.toNat := by
  rw [beNat_toBe, Nat.mod_eq_of_lt]
  have h := value.isLt
  norm_num at h ⊢
  exact h

theorem emits_ethRlpAppendU256 (value : U256) :
    Emits (ethRlpAppendU256 value) (u256Item value) := by
  intro s
  unfold ethRlpAppendU256
  split
  · next hzero =>
      have hnil : trim (toBe 32 value.toNat) = [] := by
        rw [trim_eq_nil_iff, beNat_u256, hzero]
        rfl
      rw [u256Item, hnil]
      rfl
  · rw [u256Item, Item.encode]

theorem emits_address (address : Address) :
    Emits address.ethRlpAppend (addressItem address) :=
  fun _ => by rw [addressItem, Item.encode]; rfl

theorem emits_appendTo (destination : Option Address) :
    Emits (appendTo destination) (toItem destination) := by
  cases destination with
  | none => exact emits_appendEmptyData
  | some address => exact emits_address address

/-- A fixed run of builder calls is a list of as many items. -/
theorem emits_calls (ops : List ((RlpStream → Option RlpStream) × Item))
    (hops : ∀ op ∈ ops, Emits op.1 op.2) :
    Emits (fun s => (s.beginList ops.length).bind fun s => ops.foldlM (fun s op => op.1 s) s)
      (.list (ops.map (·.2))) :=
  emits_list (fun op s => op.1 s) (·.2) ops hops

theorem emits_storageKeys (keys : List U256) :
    Emits (fun s => (s.beginList keys.length).bind fun s =>
        keys.foldlM (fun s key => U256.ethRlpAppend key s) s)
      (.list (keys.map u256Item)) :=
  emits_list (fun key s => U256.ethRlpAppend key s) u256Item keys
    (fun key _ => emits_ethRlpAppendU256 key)

theorem emits_appendAccessListEntry (entry : Address × List U256) :
    Emits (appendAccessListEntry entry) (entryItem entry) := by
  have h := emits_calls
    [(entry.1.ethRlpAppend, addressItem entry.1),
      (fun s => (s.beginList entry.2.length).bind fun s =>
        entry.2.foldlM (fun s key => U256.ethRlpAppend key s) s,
        .list (entry.2.map u256Item))]
    (by
      intro op hop
      simp only [List.mem_cons, List.not_mem_nil, or_false] at hop
      rcases hop with rfl | rfl
      · exact emits_address entry.1
      · exact emits_storageKeys entry.2)
  intro s
  have hs := h s
  simp only [List.length_cons, List.length_nil, List.foldlM_cons, List.foldlM_nil,
    List.map_cons, List.map_nil] at hs
  rw [entryItem, ← hs]
  simp [appendAccessListEntry]

theorem emits_appendAccessList (accessList : List (Address × List U256)) :
    Emits (appendAccessList accessList) (accessListItem accessList) :=
  emits_list (fun entry s => appendAccessListEntry entry s) entryItem accessList
    (fun entry _ => emits_appendAccessListEntry entry)

/-- The builder calls for the nine transaction fields. -/
def txCalls (tx : Eip1559Transaction) : List ((RlpStream → Option RlpStream) × Item) :=
  [(tx.chainId.ethRlpAppend, u256Item tx.chainId.id),
    (tx.nonce.ethRlpAppend, u256Item tx.nonce.value),
    (U256.ethRlpAppend tx.maxPriorityFeePerGas, u256Item tx.maxPriorityFeePerGas),
    (U256.ethRlpAppend tx.maxFeePerGas, u256Item tx.maxFeePerGas),
    (U256.ethRlpAppend tx.gasLimit, u256Item tx.gasLimit),
    (appendTo tx.toAddress, toItem tx.toAddress),
    (U256.ethRlpAppend tx.value, u256Item tx.value),
    (fun s => s.append tx.data, .str tx.data),
    (appendAccessList tx.accessList, accessListItem tx.accessList)]

theorem emits_txCalls (tx : Eip1559Transaction) : ∀ op ∈ txCalls tx, Emits op.1 op.2 := by
  intro op hop
  simp only [txCalls, List.mem_cons, List.not_mem_nil, or_false] at hop
  rcases hop with rfl | rfl | rfl | rfl | rfl | rfl | rfl | rfl | rfl
  · exact emits_ethRlpAppendU256 tx.chainId.id
  · exact emits_ethRlpAppendU256 tx.nonce.value
  · exact emits_ethRlpAppendU256 tx.maxPriorityFeePerGas
  · exact emits_ethRlpAppendU256 tx.maxFeePerGas
  · exact emits_ethRlpAppendU256 tx.gasLimit
  · exact emits_appendTo tx.toAddress
  · exact emits_ethRlpAppendU256 tx.value
  · exact emits_append tx.data
  · exact emits_appendAccessList tx.accessList

/-- **The unsigned encoder** never panics and encodes the list of nine items. -/
theorem encodeEip1559Unsigned_eq (tx : Eip1559Transaction) :
    encodeEip1559Unsigned tx = some (Item.list (txItems tx)).encode := by
  have h := out_of_emits (emits_calls (txCalls tx) (emits_txCalls tx))
  rw [show txItems tx = (txCalls tx).map (·.2) from rfl, ← h]
  simp [encodeEip1559Unsigned, txCalls, RlpStream.newList, Option.bind_assoc]

/-- The builder calls for the signature. -/
def signatureCalls (yParity : UInt8) (r s : B256) :
    List ((RlpStream → Option RlpStream) × Item) :=
  [(appendU8 yParity, Item.str (if yParity = 0 then [] else [yParity])),
    (fun srlp => srlp.append (stripLeadingZeros r.bytes),
      Item.str (stripLeadingZeros r.bytes)),
    (fun srlp => srlp.append (stripLeadingZeros s.bytes),
      Item.str (stripLeadingZeros s.bytes))]

theorem emits_signatureCalls (yParity : UInt8) (r s : B256) :
    ∀ op ∈ signatureCalls yParity r s, Emits op.1 op.2 := by
  intro op hop
  simp only [signatureCalls, List.mem_cons, List.not_mem_nil, or_false] at hop
  rcases hop with rfl | rfl | rfl
  · exact emits_append (if yParity = 0 then [] else [yParity])
  · exact emits_append (stripLeadingZeros r.bytes)
  · exact emits_append (stripLeadingZeros s.bytes)

/-- **The signed encoder** never panics and encodes the list of twelve items. -/
theorem encodeEip1559Signed_eq (tx : Eip1559Transaction) (yParity : UInt8) (r s : B256) :
    encodeEip1559Signed tx yParity r s
      = some (Item.list (txItems tx ++ signatureItems yParity r s)).encode := by
  have hcalls : ∀ op ∈ txCalls tx ++ signatureCalls yParity r s, Emits op.1 op.2 := by
    intro op hop
    rcases List.mem_append.mp hop with hop | hop
    · exact emits_txCalls tx op hop
    · exact emits_signatureCalls yParity r s op hop
  have h := out_of_emits (emits_calls _ hcalls)
  have hitems : txItems tx ++ signatureItems yParity r s
      = (txCalls tx ++ signatureCalls yParity r s).map (·.2) := rfl
  rw [hitems, ← h]
  simp [encodeEip1559Signed, txCalls, signatureCalls, RlpStream.newList, Option.bind_assoc]

/-! ## The tree determines the transaction -/

theorem u256Item_injective {v w : U256} (h : u256Item v = u256Item w) : v = w := by
  have hbytes : trim (toBe 32 v.toNat) = trim (toBe 32 w.toNat) := by
    simpa [u256Item] using h
  have hnat := congrArg beNat hbytes
  rw [beNat_trim, beNat_trim, beNat_u256, beNat_u256] at hnat
  exact BitVec.eq_of_toNat_eq hnat

theorem addressItem_injective {a b : Address} (h : addressItem a = addressItem b) :
    a = b := by
  have hbytes : a.bytes = b.bytes := by simpa [addressItem] using h
  cases a
  cases b
  simpa using hbytes

/-- `None` and `Some` destinations never share an item. -/
theorem toItem_injective {x y : Option Address} (h : toItem x = toItem y) : x = y := by
  have hne : ∀ a : Address, Item.str [] ≠ addressItem a := by
    intro a hitem
    have hbytes : a.bytes = [] := by simpa [addressItem] using hitem.symm
    have hlen := a.length_eq
    rw [hbytes] at hlen
    simp at hlen
  cases x with
  | none =>
      cases y with
      | none => rfl
      | some b => exact absurd h (hne b)
  | some a =>
      cases y with
      | none => exact absurd h.symm (hne a)
      | some b => rw [addressItem_injective h]

theorem entryItem_injective {e f : Address × List U256} (h : entryItem e = entryItem f) :
    e = f := by
  have hparts : addressItem e.1 = addressItem f.1
      ∧ e.2.map u256Item = f.2.map u256Item := by
    simpa [entryItem] using h
  have hkeys : e.2 = f.2 :=
    List.map_injective_iff.mpr (fun _ _ => u256Item_injective) hparts.2
  exact Prod.ext (addressItem_injective hparts.1) hkeys

theorem accessListItem_injective {xs ys : List (Address × List U256)}
    (h : accessListItem xs = accessListItem ys) : xs = ys := by
  have hmap : xs.map entryItem = ys.map entryItem := by simpa [accessListItem] using h
  exact List.map_injective_iff.mpr (fun _ _ => entryItem_injective) hmap

/-- **The nine items determine every field of the transaction.** -/
theorem txItems_injective {t₁ t₂ : Eip1559Transaction} (h : txItems t₁ = txItems t₂) :
    t₁ = t₂ := by
  simp only [txItems, List.cons.injEq, and_true] at h
  obtain ⟨hchain, hnonce, hprio, hfee, hgas, hto, hvalue, hdata, hal⟩ := h
  obtain ⟨⟨c₁⟩, ⟨n₁⟩, p₁, f₁, g₁, to₁, v₁, d₁, al₁⟩ := t₁
  obtain ⟨⟨c₂⟩, ⟨n₂⟩, p₂, f₂, g₂, to₂, v₂, d₂, al₂⟩ := t₂
  rw [Eip1559Transaction.mk.injEq]
  refine ⟨congrArg ChainId.mk (u256Item_injective hchain),
    congrArg TxNonce.mk (u256Item_injective hnonce), u256Item_injective hprio,
    u256Item_injective hfee, u256Item_injective hgas, toItem_injective hto,
    u256Item_injective hvalue, ?_, accessListItem_injective hal⟩
  simpa using hdata

end Lobby
