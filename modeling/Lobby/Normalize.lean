/-
# Normalising client transactions

`normalize_eip1193_transaction` and its three parsers.  The chain id is parsed as a `u64`,
cast to `i64` and unwrapped into a `ChainId`; the other numbers are read by the `U256` parser
of the `ruint` crate, of which only what it does with plain digits is assumed; the data is
read by `hex::decode`.

`HexDenotes` says what a hexadecimal numeral is, apart from the parsers, and `Denotes` what a
request asks for.  `normalize_exact_iff` compares the two: the function panics on a chain id
of `2 ^ 63` and more, and it takes some spellings that are no numerals.
-/
import Lobby.Signing
import Lobby.Text

open Text

namespace Lobby

/-! ## The request -/

structure AccessListItem where
  address : Address
  storageKeys : List String
  deriving DecidableEq

/-- The parameters of `eth_sendTransaction`; the numbers are strings. -/
structure Eip1193SendTransactionParams where
  fromAddress : Address
  toAddress : Option Address
  gas : Option String
  maxFeePerGas : Option String
  maxPriorityFeePerGas : Option String
  value : Option String
  data : Option String
  chainId : String
  accessList : Option (List AccessListItem)
  deriving DecidableEq

inductive NormalizationError : Type where
  | invalidField (field : String)
  deriving DecidableEq

def NormalizationError.toString : NormalizationError → String
  | .invalidField field => "Invalid field: " ++ field

/-! ## The parsers -/

/-- `U256::from_str_radix` with radix 16.  A nonempty string of digits is read as the number
it denotes, when that has at most 256 bits. -/
structure Ruint where
  fromStrRadix : List Char → Option U256
  reads_digits : ∀ digits value, digits ≠ [] → numeral 16 digits = some value →
    fromStrRadix digits = if value < 2 ^ 256 then some (BitVec.ofNat 256 value) else none

/-- The text behind an optional `0x`. -/
def hexDigitsOf (s : String) : List Char := (stripPrefix ['0', 'x'] s.toList).getD s.toList

def parseHexU64 (s : String) : Option ℕ := parseUnsigned 16 (2 ^ 64) (hexDigitsOf s)

def parseHexU256 (ruint : Ruint) (s : String) : Option U256 :=
  ruint.fromStrRadix (hexDigitsOf s)

/-- The bytes of the text behind an optional `0x`. -/
def hexBytesOf (s : String) : List UInt8 := (String.ofList (hexDigitsOf s)).toUTF8.data.toList

def parseHexBytes (s : String) : Except String (List UInt8) := hexDecode (hexBytesOf s)

/-- `as i64` on a `u64`. -/
def asI64 (n : ℕ) : ℤ := if n < 2 ^ 63 then n else (n : ℤ) - 2 ^ 64

/-- `ChainId::try_from`. -/
def ChainId.tryFrom (value : ℤ) : Except LocalError ChainId :=
  if value < 0 then .error (.rejected s!"Invalid chain id: {value}")
  else .ok ⟨BitVec.ofNat 256 value.toNat⟩

/-! ## Normalising -/

/-- `map_err` to the name of the field. -/
def orInvalid {α : Type} (field : String) : Option α → Except NormalizationError α
  | none => .error (.invalidField field)
  | some a => .ok a

/-- An optional number, zero when it is absent. -/
def parseOptionU256 (ruint : Ruint) : Option String → Option U256
  | none => some 0
  | some s => parseHexU256 ruint s

/-- Optional bytes, empty when they are absent. -/
def parseOptionBytes : Option String → Option (List UInt8)
  | none => some []
  | some s => (parseHexBytes s).toOption

def parseAccessListItem (ruint : Ruint) (item : AccessListItem) :
    Option (Address × List U256) :=
  (item.storageKeys.mapM (parseHexU256 ruint)).map (item.address, ·)

/-- `normalize_eip1193_transaction`; `none` is the panic of `unwrap`. -/
def normalizeEip1193Transaction (ruint : Ruint) (params : Eip1193SendTransactionParams) :
    Option (Except NormalizationError (Eip1559Transaction × Address)) :=
  match parseHexU64 params.chainId with
  | none => some (.error (.invalidField "chain_id"))
  | some chainIdU64 =>
    match ChainId.tryFrom (asI64 chainIdU64) with
    | .error _ => none
    | .ok chainId => some do
      let gasLimit ← orInvalid "gas" (parseOptionU256 ruint params.gas)
      let maxFeePerGas ←
        orInvalid "max_fee_per_gas" (parseOptionU256 ruint params.maxFeePerGas)
      let maxPriorityFeePerGas ←
        orInvalid "max_priority_fee_per_gas" (parseOptionU256 ruint params.maxPriorityFeePerGas)
      let value ← orInvalid "value" (parseOptionU256 ruint params.value)
      let data ← orInvalid "data" (parseOptionBytes params.data)
      let accessList ← orInvalid "access_list"
        ((params.accessList.getD []).mapM (parseAccessListItem ruint))
      .ok (⟨chainId, ⟨0⟩, maxPriorityFeePerGas, maxFeePerGas, gasLimit, params.toAddress,
        value, data, accessList⟩, params.fromAddress)

/-! ## What a request asks for -/

/-- A hexadecimal numeral below a bound: an optional `0x` and at least one digit. -/
def HexDenotes (bound : ℕ) (s : String) (value : ℕ) : Prop :=
  hexDigitsOf s ≠ [] ∧ numeral 16 (hexDigitsOf s) = some value ∧ value < bound

/-- The values of the two digits of a byte. -/
def nibbles (b : UInt8) : List (Option UInt8) := [some (b >>> 4), some (b &&& 15)]

/-- Hexadecimal bytes: an optional `0x` and two digits for each byte. -/
def HexBytes (s : String) (bytes : List UInt8) : Prop :=
  (hexBytesOf s).map hexValue = bytes.flatMap nibbles

/-- An optional number, zero when it is absent. -/
def OptionDenotes (s : Option String) (value : U256) : Prop :=
  match s with
  | none => value = 0
  | some s => HexDenotes (2 ^ 256) s value.toNat

/-- Optional bytes, empty when they are absent. -/
def OptionBytes (s : Option String) (bytes : List UInt8) : Prop :=
  match s with
  | none => bytes = []
  | some s => HexBytes s bytes

/-- The transaction that the strings of a request denote. -/
structure Denotes (params : Eip1193SendTransactionParams) (tx : Eip1559Transaction) :
    Prop where
  chainId : HexDenotes (2 ^ 63) params.chainId tx.chainId.id.toNat
  nonce : tx.nonce = ⟨0⟩
  toAddress : tx.toAddress = params.toAddress
  gasLimit : OptionDenotes params.gas tx.gasLimit
  maxFeePerGas : OptionDenotes params.maxFeePerGas tx.maxFeePerGas
  maxPriorityFeePerGas : OptionDenotes params.maxPriorityFeePerGas tx.maxPriorityFeePerGas
  value : OptionDenotes params.value tx.value
  data : OptionBytes params.data tx.data
  accessList : List.Forall₂ (fun item entry => entry.1 = item.address ∧
    List.Forall₂ (fun key word => HexDenotes (2 ^ 256) key (word : U256).toNat)
      item.storageKeys entry.2) (params.accessList.getD []) tx.accessList

/-- The strings that stand for 256-bit numbers. -/
def u256Strings (params : Eip1193SendTransactionParams) : List String :=
  params.gas.toList ++ params.maxFeePerGas.toList ++ params.maxPriorityFeePerGas.toList
    ++ params.value.toList ++ (params.accessList.getD []).flatMap AccessListItem.storageKeys

/-- Every present field is a hexadecimal value in range; the chain id must fit an `i64`. -/
def FieldsInRange (params : Eip1193SendTransactionParams) : Prop :=
  (∃ value, HexDenotes (2 ^ 63) params.chainId value)
  ∧ (∀ s ∈ u256Strings params, ∃ value, HexDenotes (2 ^ 256) s value)
  ∧ ∀ s ∈ params.data, ∃ bytes, HexBytes s bytes

/-- The function returns; it returns an error if and only if some present field is not a
value in range; otherwise it returns what the request asks for. -/
def NormalizesExactly (ruint : Ruint) (params : Eip1193SendTransactionParams) : Prop :=
  (∃ outcome, normalizeEip1193Transaction ruint params = some outcome)
  ∧ ((∃ field, normalizeEip1193Transaction ruint params = some (.error (.invalidField field)))
    ↔ ¬ FieldsInRange params)
  ∧ (FieldsInRange params → ∃ tx,
    normalizeEip1193Transaction ruint params = some (.ok (tx, params.fromAddress))
      ∧ Denotes params tx)

/-! ## The byte parser is exact -/

theorem hexValue_lt {b v : UInt8} (h : hexValue b = some v) : v < 16 := by
  have hall : ∀ n : Fin 256, (hexValue (UInt8.ofNat n.val)).all (· < 16) = true := by
    decide +kernel
  have hb := hall ⟨b.toNat, b.toNat_lt⟩
  rw [UInt8.ofNat_toNat, h] at hb
  simpa using hb

theorem nibbles_join {high low : UInt8} (hh : high < 16) (hl : low < 16) :
    ((high <<< 4) ||| low) >>> 4 = high ∧ ((high <<< 4) ||| low) &&& 15 = low := by
  have hall : ∀ i j : Fin 16,
      ((UInt8.ofNat i.val <<< 4) ||| UInt8.ofNat j.val) >>> 4 = UInt8.ofNat i.val
      ∧ ((UInt8.ofNat i.val <<< 4) ||| UInt8.ofNat j.val) &&& 15 = UInt8.ofNat j.val := by
    decide +kernel
  have h := hall ⟨high.toNat, hh⟩ ⟨low.toNat, hl⟩
  simpa only [UInt8.ofNat_toNat] using h

theorem nibbles_split (b : UInt8) : ((b >>> 4) <<< 4) ||| (b &&& 15) = b := by
  have hall : ∀ n : Fin 256, ((UInt8.ofNat n.val >>> 4) <<< 4) ||| (UInt8.ofNat n.val &&& 15)
      = UInt8.ofNat n.val := by decide +kernel
  have h := hall ⟨b.toNat, b.toNat_lt⟩
  simpa only [UInt8.ofNat_toNat] using h

/-- Decoding pairs of digits, whatever their index. -/
theorem hexPairs_eq_ok_iff (index : ℕ) (digits bytes : List UInt8)
    (heven : digits.length % 2 = 0) :
    hexPairs index digits = .ok bytes ↔ digits.map hexValue = bytes.flatMap nibbles := by
  induction index, digits using hexPairs.induct generalizing bytes with
  | case1 =>
      rw [hexPairs]
      cases bytes <;> simp [nibbles]
  | case2 => simp at heven
  | case3 index a b rest hhigh =>
      rw [hexPairs, hhigh]
      cases bytes <;> simp [hhigh, nibbles]
  | case4 index a b rest high hhigh hlow =>
      rw [hexPairs, hhigh]
      dsimp only
      rw [hlow]
      cases bytes <;> simp [hlow, nibbles]
  | case5 index a b rest high hhigh low hlow ih =>
      have hrest : rest.length % 2 = 0 := by
        simp only [List.length_cons] at heven
        omega
      -- two digits are one byte, and the byte gives them back
      obtain ⟨hjoin, hjoin'⟩ := nibbles_join (hexValue_lt hhigh) (hexValue_lt hlow)
      rw [hexPairs, hhigh]
      dsimp only
      rw [hlow]
      dsimp only
      cases bytes with
      | nil => cases hexPairs (index + 2) rest <;> simp [Except.map]
      | cons byte bytes =>
          have ihrest := ih bytes hrest
          have hhead : (some high = some (byte >>> 4) ∧ some low = some (byte &&& 15)) ↔
              (high <<< 4) ||| low = byte := by
            constructor
            · rintro ⟨h₁, h₂⟩
              rw [Option.some.inj h₁, Option.some.inj h₂, nibbles_split]
            · rintro rfl
              rw [hjoin, hjoin']
              exact ⟨rfl, rfl⟩
          rw [List.map_cons, List.map_cons, List.flatMap_cons, nibbles, hhigh, hlow,
            List.cons_append, List.cons_append, List.nil_append, List.cons.injEq,
            List.cons.injEq, ← and_assoc, hhead, ← ihrest]
          cases hexPairs (index + 2) rest <;> simp [Except.map]

/-- **The byte parser** accepts exactly pairs of digits, and reads their bytes. -/
theorem parseHexBytes_eq_ok_iff (s : String) (bytes : List UInt8) :
    parseHexBytes s = .ok bytes ↔ HexBytes s bytes := by
  have hlen : ∀ bs : List UInt8, (bs.flatMap nibbles).length = 2 * bs.length := by
    intro bs
    induction bs with
    | nil => rfl
    | cons b bs ih =>
        rw [List.flatMap_cons, List.length_append, ih, nibbles, List.length_cons]
        simp only [List.length_cons, List.length_nil]
        omega
  rw [parseHexBytes, hexDecode, HexBytes]
  by_cases heven : (hexBytesOf s).length % 2 = 0
  · rw [if_neg (by omega)]
    exact hexPairs_eq_ok_iff 0 _ bytes heven
  · rw [if_pos heven]
    refine ⟨fun h => (by cases h), fun h => absurd ?_ heven⟩
    have hcount := congrArg List.length h
    rw [List.length_map, hlen] at hcount
    omega

/-! ## The parsers read numerals -/

section

variable {ruint : Ruint} {params : Eip1193SendTransactionParams} {s : String} {value : ℕ}

/-- A sign is no digit. -/
theorem numeral_plus (digits : List Char) : numeral 16 ('+' :: digits) = none := rfl

theorem parseHexU64_of_denotes (h : HexDenotes (2 ^ 64) s value) :
    parseHexU64 s = some value := by
  obtain ⟨hne, hvalue, hlt⟩ := h
  rw [parseHexU64]
  generalize hexDigitsOf s = digits at hne hvalue
  have hplus : ∀ rest, digits ≠ '+' :: rest := by
    rintro rest rfl
    rw [numeral_plus] at hvalue
    exact absurd hvalue (by simp)
  rw [parseUnsigned]
  · rw [if_neg hne, hvalue, Option.filter_some, if_pos (by simpa using hlt)]
  · exact fun rest h => hplus rest h

theorem parseHexU256_of_denotes (h : HexDenotes (2 ^ 256) s value) :
    parseHexU256 ruint s = some (BitVec.ofNat 256 value) := by
  rw [parseHexU256, ruint.reads_digits _ value h.1 h.2.1, if_pos h.2.2]

theorem HexDenotes.mono {bound bound' : ℕ} (hle : bound ≤ bound')
    (h : HexDenotes bound s value) : HexDenotes bound' s value :=
  ⟨h.1, h.2.1, lt_of_lt_of_le h.2.2 hle⟩

/-- A string the `u64` parser takes although it is no numeral. -/
def LenientU64 (s : String) : Prop :=
  (parseHexU64 s).isSome ∧ ¬ ∃ value, HexDenotes (2 ^ 64) s value

/-- A string the `U256` parser takes although it is no numeral. -/
def LenientU256 (ruint : Ruint) (s : String) : Prop :=
  (parseHexU256 ruint s).isSome ∧ ¬ ∃ value, HexDenotes (2 ^ 256) s value

/-- Some present field is taken although it is no numeral. -/
def Lenient (ruint : Ruint) (params : Eip1193SendTransactionParams) : Prop :=
  LenientU64 params.chainId ∨ ∃ s ∈ u256Strings params, LenientU256 ruint s

/-- Some present field is refused by its parser. -/
def Refused (ruint : Ruint) (params : Eip1193SendTransactionParams) : Prop :=
  parseHexU64 params.chainId = none ∨ (∃ s ∈ u256Strings params, parseHexU256 ruint s = none)
    ∨ ∃ s ∈ params.data, ∃ e, parseHexBytes s = .error e

/-- A number that is taken and is not lenient is the one the string denotes. -/
theorem denotes_of_parseHexU256 {word : U256} (h : parseHexU256 ruint s = some word)
    (hstrict : ∃ value, HexDenotes (2 ^ 256) s value) : HexDenotes (2 ^ 256) s word.toNat := by
  obtain ⟨value, hvalue⟩ := hstrict
  rw [parseHexU256_of_denotes hvalue] at h
  cases h
  rw [BitVec.toNat_ofNat, Nat.mod_eq_of_lt hvalue.2.2]
  exact hvalue

/-! ## The outcomes of the function -/

theorem tryFrom_asI64 {n : ℕ} (hn : n < 2 ^ 64) :
    ChainId.tryFrom (asI64 n) = if n < 2 ^ 63 then .ok ⟨BitVec.ofNat 256 n⟩
      else .error (.rejected s!"Invalid chain id: {asI64 n}") := by
  by_cases hlow : n < 2 ^ 63
  · rw [if_pos hlow, ChainId.tryFrom, asI64, if_pos hlow, if_neg (by omega),
      Int.toNat_natCast]
  · have hneg : asI64 n < 0 := by
      rw [asI64, if_neg hlow]
      omega
    rw [if_neg hlow, ChainId.tryFrom, if_pos hneg]

theorem parseHexU64_lt {n : ℕ} (h : parseHexU64 s = some n) : n < 2 ^ 64 := parseUnsigned_lt h

/-- **The panic**: a chain id that an `i64` does not hold. -/
theorem normalize_eq_none_iff : normalizeEip1193Transaction ruint params = none ↔
    ∃ n, parseHexU64 params.chainId = some n ∧ 2 ^ 63 ≤ n := by
  rw [normalizeEip1193Transaction]
  cases hchain : parseHexU64 params.chainId with
  | none => simp
  | some n =>
      dsimp only
      rw [tryFrom_asI64 (parseHexU64_lt hchain)]
      by_cases hlow : n < 2 ^ 63
      · rw [if_pos hlow]
        simp only [reduceCtorEq, Option.some.injEq, exists_eq_left', false_iff]
        omega
      · rw [if_neg hlow]
        simp only [Option.some.injEq, exists_eq_left', true_iff]
        omega

/-- What the parsers make of a request with a small chain id. -/
def parsedFields (ruint : Ruint) (params : Eip1193SendTransactionParams) (chainIdU64 : ℕ) :
    Option Eip1559Transaction := do
  let gasLimit ← parseOptionU256 ruint params.gas
  let maxFeePerGas ← parseOptionU256 ruint params.maxFeePerGas
  let maxPriorityFeePerGas ← parseOptionU256 ruint params.maxPriorityFeePerGas
  let value ← parseOptionU256 ruint params.value
  let data ← parseOptionBytes params.data
  let accessList ← (params.accessList.getD []).mapM (parseAccessListItem ruint)
  some ⟨⟨BitVec.ofNat 256 chainIdU64⟩, ⟨0⟩, maxPriorityFeePerGas, maxFeePerGas, gasLimit,
    params.toAddress, value, data, accessList⟩

/-- With a small chain id the function returns what the parsers read, or names a field. -/
theorem normalize_of_chainId {n : ℕ} (hchain : parseHexU64 params.chainId = some n)
    (hlow : n < 2 ^ 63) :
    (∃ tx, parsedFields ruint params n = some tx ∧
      normalizeEip1193Transaction ruint params = some (.ok (tx, params.fromAddress)))
    ∨ (parsedFields ruint params n = none ∧ ∃ field,
      normalizeEip1193Transaction ruint params = some (.error (.invalidField field))) := by
  rw [normalizeEip1193Transaction, hchain]
  dsimp only
  rw [tryFrom_asI64 (parseHexU64_lt hchain), if_pos hlow]
  dsimp only
  rw [parsedFields]
  cases parseOptionU256 ruint params.gas with
  | none => exact Or.inr ⟨rfl, _, rfl⟩
  | some gasLimit =>
  cases parseOptionU256 ruint params.maxFeePerGas with
  | none => exact Or.inr ⟨rfl, _, rfl⟩
  | some maxFeePerGas =>
  cases parseOptionU256 ruint params.maxPriorityFeePerGas with
  | none => exact Or.inr ⟨rfl, _, rfl⟩
  | some maxPriorityFeePerGas =>
  cases parseOptionU256 ruint params.value with
  | none => exact Or.inr ⟨rfl, _, rfl⟩
  | some value =>
  cases parseOptionBytes params.data with
  | none => exact Or.inr ⟨rfl, _, rfl⟩
  | some data =>
  cases (params.accessList.getD []).mapM (parseAccessListItem ruint) with
  | none => exact Or.inr ⟨rfl, _, rfl⟩
  | some accessList => exact Or.inl ⟨_, rfl, rfl⟩

/-! ## Fields one by one -/

theorem mapM_eq_some_iff {α β : Type*} (f : α → Option β) (xs : List α) (ys : List β) :
    xs.mapM f = some ys ↔ List.Forall₂ (fun x y => f x = some y) xs ys := by
  induction xs generalizing ys with
  | nil => cases ys <;> simp
  | cons x xs ih =>
      simp only [List.mapM_cons, Option.bind_eq_bind, Option.pure_def,
        Option.bind_eq_some_iff, Option.some.injEq]
      constructor
      · rintro ⟨y, hy, ys, hys, rfl⟩
        exact .cons hy ((ih ys).mp hys)
      · rintro (_ | ⟨hy, hys⟩)
        exact ⟨_, hy, _, (ih _).mpr hys, rfl⟩

/-- What every reading says of its element. -/
theorem forall₂_of_mapM {α β : Type*} {f : α → Option β} {R : α → β → Prop} {xs : List α}
    {ys : List β} (h : ∀ x y, x ∈ xs → f x = some y → R x y) (hys : xs.mapM f = some ys) :
    List.Forall₂ R xs ys := by
  rw [mapM_eq_some_iff] at hys
  induction hys with
  | nil => exact .nil
  | cons hy _ ih =>
      exact .cons (h _ _ List.mem_cons_self hy) (ih fun x y hx => h x y (List.mem_cons_of_mem _ hx))

theorem mapM_ne_none {α β : Type*} (f : α → Option β) (xs : List α)
    (h : ∀ x ∈ xs, f x ≠ none) : ∃ ys, xs.mapM f = some ys := by
  induction xs with
  | nil => exact ⟨[], rfl⟩
  | cons x xs ih =>
      obtain ⟨y, hy⟩ := Option.ne_none_iff_exists'.mp (h x List.mem_cons_self)
      obtain ⟨ys, hys⟩ := ih fun z hz => h z (List.mem_cons_of_mem x hz)
      exact ⟨y :: ys, by simp [hy, hys]⟩

theorem parsedFields_eq_some_iff {n : ℕ} {tx : Eip1559Transaction} :
    parsedFields ruint params n = some tx ↔
      tx.chainId = ⟨BitVec.ofNat 256 n⟩ ∧ tx.nonce = ⟨0⟩ ∧ tx.toAddress = params.toAddress
      ∧ parseOptionU256 ruint params.gas = some tx.gasLimit
      ∧ parseOptionU256 ruint params.maxFeePerGas = some tx.maxFeePerGas
      ∧ parseOptionU256 ruint params.maxPriorityFeePerGas = some tx.maxPriorityFeePerGas
      ∧ parseOptionU256 ruint params.value = some tx.value
      ∧ parseOptionBytes params.data = some tx.data
      ∧ (params.accessList.getD []).mapM (parseAccessListItem ruint) = some tx.accessList := by
  simp only [parsedFields, Option.bind_eq_bind, Option.bind_eq_some_iff, Option.some.injEq]
  constructor
  · rintro ⟨gas, hgas, fee, hfee, priority, hpriority, value, hvalue, data, hdata, al, hal, rfl⟩
    exact ⟨rfl, rfl, rfl, hgas, hfee, hpriority, hvalue, hdata, hal⟩
  · rintro ⟨hchain, hnonce, hto, hgas, hfee, hpriority, hvalue, hdata, hal⟩
    refine ⟨_, hgas, _, hfee, _, hpriority, _, hvalue, _, hdata, _, hal, ?_⟩
    rw [← hchain, ← hnonce, ← hto]

/-- An optional number whose string is a numeral is the number it denotes. -/
theorem optionDenotes {o : Option String} {word : U256}
    (h : parseOptionU256 ruint o = some word)
    (hstrict : ∀ s ∈ o, ∃ value, HexDenotes (2 ^ 256) s value) : OptionDenotes o word := by
  cases o with
  | none => exact (Option.some.inj h).symm
  | some s => exact denotes_of_parseHexU256 h (hstrict s rfl)

theorem optionBytes {o : Option String} {bytes : List UInt8}
    (h : parseOptionBytes o = some bytes) : OptionBytes o bytes := by
  cases o with
  | none => exact (Option.some.inj h).symm
  | some s =>
      rw [parseOptionBytes] at h
      cases hparse : parseHexBytes s with
      | error e =>
          rw [hparse] at h
          exact absurd h (by simp [Except.toOption])
      | ok out =>
          rw [hparse, Except.toOption, Option.some_inj] at h
          subst h
          exact (parseHexBytes_eq_ok_iff s out).mp hparse

theorem mem_u256Strings : s ∈ u256Strings params ↔
    s ∈ params.gas ∨ s ∈ params.maxFeePerGas ∨ s ∈ params.maxPriorityFeePerGas
      ∨ s ∈ params.value ∨ ∃ item ∈ params.accessList.getD [], s ∈ item.storageKeys := by
  simp only [u256Strings, List.mem_append, Option.mem_toList, Option.mem_def,
    List.mem_flatMap, or_assoc]

/-- What the parsers read is what the request asks for, when every string is a numeral. -/
theorem denotes_of_parsedFields {n : ℕ} {tx : Eip1559Transaction}
    (hparsed : parsedFields ruint params n = some tx)
    (hchain : HexDenotes (2 ^ 63) params.chainId n)
    (hstrict : ∀ s ∈ u256Strings params, ∃ value, HexDenotes (2 ^ 256) s value) :
    Denotes params tx := by
  obtain ⟨hid, hnonce, hto, hgas, hfee, hpriority, hvalue, hdata, hal⟩ :=
    parsedFields_eq_some_iff.mp hparsed
  refine ⟨?_, hnonce, hto, optionDenotes hgas fun s hs => hstrict s (mem_u256Strings.mpr (.inl hs)),
    optionDenotes hfee fun s hs => hstrict s (mem_u256Strings.mpr (.inr (.inl hs))),
    optionDenotes hpriority fun s hs => hstrict s (mem_u256Strings.mpr (.inr (.inr (.inl hs)))),
    optionDenotes hvalue fun s hs => hstrict s (mem_u256Strings.mpr (.inr (.inr (.inr (.inl hs))))),
    optionBytes hdata, ?_⟩
  · have hlt : n < 2 ^ 256 := lt_trans hchain.2.2 (by norm_num)
    rw [hid, BitVec.toNat_ofNat, Nat.mod_eq_of_lt hlt]
    exact hchain
  · have hkeys : ∀ item ∈ params.accessList.getD [], ∀ key ∈ item.storageKeys,
        ∃ value, HexDenotes (2 ^ 256) key value := fun item hitem key hkey =>
      hstrict key (mem_u256Strings.mpr (.inr (.inr (.inr (.inr ⟨item, hitem, hkey⟩)))))
    refine forall₂_of_mapM (fun item entry hitem hentry => ?_) hal
    obtain ⟨words, hwords, rfl⟩ := Option.map_eq_some_iff.mp hentry
    exact ⟨rfl, forall₂_of_mapM (fun key word hkey hword =>
      denotes_of_parseHexU256 hword (hkeys item hitem key hkey)) hwords⟩

/-- A request none of whose fields is refused is parsed. -/
theorem parsedFields_of_not_refused (hrefused : ¬ Refused ruint params) :
    ∃ n, parseHexU64 params.chainId = some n ∧
      ∃ tx, parsedFields ruint params n = some tx := by
  simp only [Refused, not_or, not_exists, not_and] at hrefused
  obtain ⟨hchain, hnumbers, hdata⟩ := hrefused
  obtain ⟨n, hn⟩ := Option.ne_none_iff_exists'.mp hchain
  have hoption : ∀ o : Option String, (∀ s ∈ o, s ∈ u256Strings params) →
      ∃ word, parseOptionU256 ruint o = some word := by
    intro o ho
    cases o with
    | none => exact ⟨0, rfl⟩
    | some s => exact Option.ne_none_iff_exists'.mp (hnumbers s (ho s rfl))
  obtain ⟨gas, hgas⟩ := hoption params.gas fun s hs => mem_u256Strings.mpr (.inl hs)
  obtain ⟨fee, hfee⟩ := hoption params.maxFeePerGas fun s hs =>
    mem_u256Strings.mpr (.inr (.inl hs))
  obtain ⟨priority, hpriority⟩ := hoption params.maxPriorityFeePerGas fun s hs =>
    mem_u256Strings.mpr (.inr (.inr (.inl hs)))
  obtain ⟨value, hvalue⟩ := hoption params.value fun s hs =>
    mem_u256Strings.mpr (.inr (.inr (.inr (.inl hs))))
  obtain ⟨data, hbytes⟩ : ∃ data, parseOptionBytes params.data = some data := by
    cases hd : params.data with
    | none => exact ⟨[], rfl⟩
    | some s =>
        have hs := hdata s (by rw [hd]; rfl)
        rw [parseOptionBytes]
        cases hparse : parseHexBytes s with
        | error e => exact absurd hparse (hs e)
        | ok out => exact ⟨out, rfl⟩
  obtain ⟨accessList, hal⟩ := mapM_ne_none (parseAccessListItem ruint)
    (params.accessList.getD []) (by
      intro item hitem
      obtain ⟨words, hwords⟩ := mapM_ne_none (parseHexU256 ruint) item.storageKeys
        fun key hkey => hnumbers key
          (mem_u256Strings.mpr (.inr (.inr (.inr (.inr ⟨item, hitem, hkey⟩)))))
      rw [parseAccessListItem, hwords]
      simp)
  refine ⟨n, hn, ⟨⟨BitVec.ofNat 256 n⟩, ⟨0⟩, priority, fee, gas, params.toAddress, value, data,
    accessList⟩, parsedFields_eq_some_iff.mpr ?_⟩
  exact ⟨rfl, rfl, rfl, hgas, hfee, hpriority, hvalue, hbytes, hal⟩

theorem ne_none_of_mapM {α β : Type*} {f : α → Option β} {xs : List α} {ys : List β}
    (h : xs.mapM f = some ys) : ∀ x ∈ xs, f x ≠ none := by
  rw [mapM_eq_some_iff] at h
  induction h with
  | nil => simp
  | cons hx _ ih =>
      intro z hz
      rcases List.mem_cons.mp hz with rfl | hz
      · rw [hx]
        simp
      · exact ih z hz

/-- A request with a refused field is not parsed. -/
theorem parsedFields_eq_none_of_refused {n : ℕ} (hn : parseHexU64 params.chainId = some n)
    (h : Refused ruint params) : parsedFields ruint params n = none := by
  by_contra hsome
  obtain ⟨tx, hparsed⟩ := Option.ne_none_iff_exists'.mp hsome
  obtain ⟨-, -, -, hgas, hfee, hpriority, hvalue, hdata, hal⟩ :=
    parsedFields_eq_some_iff.mp hparsed
  have hoption : ∀ {o : Option String} {word : U256}, parseOptionU256 ruint o = some word →
      ∀ s ∈ o, parseHexU256 ruint s ≠ none := by
    rintro _ word hword s rfl
    exact Option.ne_none_iff_exists'.mpr ⟨word, hword⟩
  rcases h with hnone | ⟨s, hs, hnone⟩ | ⟨s, hs, e, herror⟩
  · rw [hn] at hnone
    exact absurd hnone (by simp)
  · rcases mem_u256Strings.mp hs with hs | hs | hs | hs | ⟨item, hitem, hkey⟩
    · exact hoption hgas s hs hnone
    · exact hoption hfee s hs hnone
    · exact hoption hpriority s hs hnone
    · exact hoption hvalue s hs hnone
    · obtain ⟨entry, hentry⟩ := Option.ne_none_iff_exists'.mp (ne_none_of_mapM hal item hitem)
      obtain ⟨words, hwords, -⟩ := Option.map_eq_some_iff.mp hentry
      exact ne_none_of_mapM hwords s hkey hnone
  · rw [Option.mem_def.mp hs, parseOptionBytes, herror] at hdata
    exact absurd hdata (by simp [Except.toOption])

/-! ## Exactness -/

theorem not_refused_of_fieldsInRange (h : FieldsInRange params) : ¬ Refused ruint params := by
  obtain ⟨⟨chain, hchain⟩, hnumbers, hdata⟩ := h
  rintro (hnone | ⟨s, hs, hnone⟩ | ⟨s, hs, e, herror⟩)
  · rw [parseHexU64_of_denotes (hchain.mono (by norm_num))] at hnone
    exact absurd hnone (by simp)
  · obtain ⟨value, hvalue⟩ := hnumbers s hs
    rw [parseHexU256_of_denotes hvalue] at hnone
    exact absurd hnone (by simp)
  · obtain ⟨bytes, hbytes⟩ := hdata s hs
    rw [(parseHexBytes_eq_ok_iff s bytes).mpr hbytes] at herror
    exact absurd herror (by simp)

theorem not_lenient_of_fieldsInRange (h : FieldsInRange params) : ¬ Lenient ruint params := by
  obtain ⟨⟨chain, hchain⟩, hnumbers, -⟩ := h
  rintro (⟨-, hnone⟩ | ⟨s, hs, -, hnone⟩)
  · exact hnone ⟨chain, hchain.mono (by norm_num)⟩
  · exact hnone (hnumbers s hs)

/-- Fields that are taken, and are no lenient spellings, are values in range. -/
theorem fieldsInRange_of_not_lenient {n : ℕ} (hn : parseHexU64 params.chainId = some n)
    (hlow : n < 2 ^ 63) (hrefused : ¬ Refused ruint params) (hlenient : ¬ Lenient ruint params) :
    FieldsInRange params := by
  rw [Refused, not_or, not_or] at hrefused
  rw [Lenient, not_or] at hlenient
  obtain ⟨-, hnumbers, hdata⟩ := hrefused
  obtain ⟨hchain, hstrict⟩ := hlenient
  refine ⟨?_, fun s hs => ?_, fun s hs => ?_⟩
  · obtain ⟨chain, hdenotes⟩ : ∃ value, HexDenotes (2 ^ 64) params.chainId value := by
      by_contra hnone
      exact hchain ⟨by simp [hn], hnone⟩
    have heq := (parseHexU64_of_denotes hdenotes).symm.trans hn
    cases heq
    exact ⟨n, hdenotes.1, hdenotes.2.1, hlow⟩
  · by_contra hnone
    refine hstrict ⟨s, hs, Option.isSome_iff_ne_none.mpr fun hparse => ?_, hnone⟩
    exact hnumbers ⟨s, hs, hparse⟩
  · cases hparse : parseHexBytes s with
    | error e => exact absurd ⟨s, hs, e, hparse⟩ hdata
    | ok bytes => exact ⟨bytes, (parseHexBytes_eq_ok_iff s bytes).mp hparse⟩

/-- A request in range is normalised to what it asks for. -/
theorem normalize_of_fieldsInRange (h : FieldsInRange params) :
    ∃ tx, normalizeEip1193Transaction ruint params = some (.ok (tx, params.fromAddress))
      ∧ Denotes params tx := by
  have hrefused : ¬ Refused ruint params := not_refused_of_fieldsInRange h
  obtain ⟨n, hn, tx, hparsed⟩ := parsedFields_of_not_refused hrefused
  obtain ⟨⟨chain, hchain⟩, hnumbers, -⟩ := h
  have heq := (parseHexU64_of_denotes (hchain.mono (by norm_num))).symm.trans hn
  cases heq
  rcases normalize_of_chainId hn hchain.2.2 with ⟨tx', hparsed', hok⟩ | ⟨hnone, -⟩
  · rw [hparsed] at hparsed'
    cases hparsed'
    exact ⟨tx, hok, denotes_of_parsedFields hparsed hchain hnumbers⟩
  · rw [hparsed] at hnone
    exact absurd hnone (by simp)

end

/-- **When normalisation is total and exact.**  The chain id, when it is taken, fits an `i64`;
and some present field is refused, or none is taken that is no numeral. -/
theorem normalize_exact_iff (ruint : Ruint) (params : Eip1193SendTransactionParams) :
    NormalizesExactly ruint params ↔
      (∀ n, parseHexU64 params.chainId = some n → n < 2 ^ 63)
      ∧ (Refused ruint params ∨ ¬ Lenient ruint params) := by
  constructor
  · rintro ⟨⟨outcome, hout⟩, herror, -⟩
    have hlow : ∀ n, parseHexU64 params.chainId = some n → n < 2 ^ 63 := by
      intro n hn
      by_contra hhigh
      rw [normalize_eq_none_iff.mpr ⟨n, hn, not_lt.mp hhigh⟩] at hout
      exact absurd hout (by simp)
    refine ⟨hlow, ?_⟩
    by_cases hrefused : Refused ruint params
    · exact Or.inl hrefused
    · -- nothing is refused, so there is no error, and every field is in range
      refine Or.inr (not_lenient_of_fieldsInRange ?_)
      by_contra hrange
      obtain ⟨field, hfield⟩ := herror.mpr hrange
      obtain ⟨n, hn, tx, hparsed⟩ := parsedFields_of_not_refused hrefused
      rcases normalize_of_chainId hn (hlow n hn) with ⟨tx', -, hok⟩ | ⟨hnone, -⟩
      · rw [hfield] at hok
        exact absurd hok (by simp)
      · rw [hparsed] at hnone
        exact absurd hnone (by simp)
  · rintro ⟨hlow, hcond⟩
    refine ⟨?_, ?_, normalize_of_fieldsInRange⟩
    · refine Option.ne_none_iff_exists'.mp fun hnone => ?_
      obtain ⟨n, hn, hhigh⟩ := normalize_eq_none_iff.mp hnone
      exact absurd (hlow n hn) (not_lt.mpr hhigh)
    · constructor
      · rintro ⟨field, hfield⟩ hrange
        obtain ⟨tx, hok, -⟩ := normalize_of_fieldsInRange hrange
        rw [hfield] at hok
        exact absurd hok (by simp)
      · intro hrange
        cases hchain : parseHexU64 params.chainId with
        | none =>
            refine ⟨"chain_id", ?_⟩
            rw [normalizeEip1193Transaction, hchain]
        | some n =>
            rcases normalize_of_chainId hchain (hlow n hchain) with ⟨tx, hparsed, -⟩ | ⟨-, herror⟩
            · -- every field was taken, so a field out of range would be a lenient one
              have hrefused : ¬ Refused ruint params := fun hrefused => by
                rw [parsedFields_eq_none_of_refused hchain hrefused] at hparsed
                exact absurd hparsed (by simp)
              exact absurd (fieldsInRange_of_not_lenient hchain (hlow n hchain) hrefused
                (hcond.resolve_left hrefused)) hrange
            · exact herror

/-! ## A chain id that an `i64` does not hold -/

/-- The documented reading: letters of both cases, underscores ignored. -/
def ruintUint : Ruint where
  fromStrRadix cs := (numeral 16 (cs.filter (· ≠ '_'))).bind fun value =>
    if value < 2 ^ 256 then some (BitVec.ofNat 256 value) else none
  reads_digits digits value _ hvalue := by
    have hplain : digits.filter (· ≠ '_') = digits := by
      rw [List.filter_eq_self]
      intro c hc
      have hdigit := digit?_ne_none_of_mem hvalue c hc
      rw [decide_eq_true_eq]
      rintro rfl
      exact hdigit rfl
    rw [hplain, hvalue, Option.bind_some]

/-- A request with only a chain id. -/
def chainIdRequest (chainId : String) : Eip1193SendTransactionParams where
  fromAddress := .ofByte 0x11
  toAddress := none
  gas := none
  maxFeePerGas := none
  maxPriorityFeePerGas := none
  value := none
  data := none
  chainId := chainId
  accessList := none

/-- `2 ^ 63` fits a `u64` and wraps to a negative `i64`, which is unwrapped. -/
theorem normalize_panics :
    normalizeEip1193Transaction ruintUint (chainIdRequest "0x8000000000000000") = none
    ∧ ¬ NormalizesExactly ruintUint (chainIdRequest "0x8000000000000000") := by
  have hnone : normalizeEip1193Transaction ruintUint (chainIdRequest "0x8000000000000000")
      = none := normalize_eq_none_iff.mpr ⟨2 ^ 63, by decide +kernel, le_refl _⟩
  refine ⟨hnone, ?_⟩
  rintro ⟨⟨outcome, hout⟩, -, -⟩
  rw [hnone] at hout
  exact absurd hout (by simp)

end Lobby
