/-
# What a client learns about a malformed key

The errors of `resolve_key` and of the signature travel unchanged through `handle_sign`,
`CortexError::Sign` and `record_faliure` into the status that `GET /status` serves.  Two
custody files are compared that hold keys of the same classes for the same addresses, over
all runs of a pipeline against any environment that signs with them.

The error of a key that is no hexadecimal string names its first bad character, and the one
of a key of the wrong length its bytes.  The served reasons are the same exactly when these
agree (`served_same_iff`); both texts can be read back (`invalidHexCharacter_injective`,
`debugBytes_injective`).
-/
import Lobby.SignEngine
import Lobby.PipelinePhases
import Lobby.StatusRestart

namespace Lobby

open Interaction Prog Text PipelineContext Phase

/-! ## From the key to the client -/

/-- A database that executes the statements of one signature. -/
def signsOnce : (q : SignQuery) → Unit → q.Reply × Unit
  | .insertRequest _ _ _, s => (.ok (some 1), s)
  | .markSigned _ _ _, s => (.ok 1, s)
  | .markFailed _ _, s => (.ok 1, s)
  | .revertSigned _, s => (.ok 1, s)
  | .latest _, s => (.ok none, s)

/-- The reply of `handle_sign`. -/
def signReply (crypto : Crypto) (custodyKeys : JsonPolicyEngine) (fromAddress : Address)
    (chainId : ChainId) (executionId : ExecutionId) (txn : Eip1559Transaction) :
    Except LocalError SignedTransaction :=
  ((handleSign crypto custodyKeys fromAddress chainId executionId txn).eval signsOnce ()).1

/-- Errors of `get_transaction_status`. -/
inductive StatusError : Type where
  | idParsingError (rawId : String)
  | recordNotFound (rawId : String)
  deriving DecidableEq

/-- `get_transaction_status`: the execution id as it was sent, and the status. -/
def getTransactionStatus (registry : StatusRegistry) (rawId : String) :
    Except StatusError (String × PipelineStatus) :=
  match parseUuid rawId.toList with
  | none => .error (.idParsingError rawId)
  | some executionId =>
    match registry.get executionId with
    | none => .error (.recordNotFound rawId)
    | some status => .ok (rawId, status)

/-- What the calls of a pipeline are answered and do to its entry of the registry, when it
signs with a custody file.  The other actors may answer anything, and other pipelines record
their own statuses at any time. -/
def SignsWith (crypto : Crypto) (custodyKeys : JsonPolicyEngine) (e : ExecutionId) :
    (c : PipelineCall) → StatusRegistry → c.Reply → StatusRegistry → Prop
  | .setStatus executionId status, registry, _, registry' =>
      registry'.get e = (registry.set ⟨executionId, status⟩).get e
  | .sign chainId fromAddress executionId txn, registry, reply, registry' =>
      reply = signReply crypto custodyKeys fromAddress chainId executionId txn
        ∧ registry'.get e = registry.get e
  | _, registry, _, registry' => registry'.get e = registry.get e

/-- A client is served a status at the end of an execution. -/
def Serves (crypto : Crypto) (custodyKeys : JsonPolicyEngine) (ctx : PipelineContext)
    (status : PipelineStatus) : Prop :=
  ∃ registry registry', (submit ctx (.ok ())).Runs
      (SignsWith crypto custodyKeys ctx.executionId) registry (.ok ()) registry'
    ∧ getTransactionStatus registry' ctx.executionId.display
      = .ok (ctx.executionId.display, status)

/-- The stages that resolve and use the key. -/
def signingStages : List String := ["sign", "sign_post_nonce_sync"]

/-- Whenever signing fails with both files in the same stage, the same reason is served. -/
def ServedSame (crypto : Crypto) (custodyKeys custodyKeys' : JsonPolicyEngine) : Prop :=
  ∀ ctx stage reason reason', stage ∈ signingStages →
    Serves crypto custodyKeys ctx (.failed stage reason) →
    Serves crypto custodyKeys' ctx (.failed stage reason') → reason = reason'

/-! ## Classes of keys -/

/-- What can be wrong with the string of a key. -/
inductive KeyClass : Type where
  | missingPrefix
  | invalidHex
  | wrongLength
  | outOfRange
  | usable
  deriving DecidableEq

/-- The bytes of a key behind `0x`. -/
def keyDigits (pvtString : String) : Option (List UInt8) :=
  match pvtString.toUTF8.data.toList with
  | 0x30 :: 0x78 :: digits => some digits
  | _ => none

def keyClass (pvtString : String) : KeyClass :=
  match keyDigits pvtString with
  | none => .missingPrefix
  | some digits =>
    match hexDecode digits with
    | .error _ => .invalidHex
    | .ok bytes =>
      if h : bytes.length = 32 then
        match signingKeyFromBytes ⟨bytes, h⟩ with
        | .error _ => .outOfRange
        | .ok _ => .usable
      else .wrongLength

/-- The two files hold keys of the same classes for the same addresses. -/
def SameClasses (custodyKeys custodyKeys' : JsonPolicyEngine) : Prop :=
  ∀ fromAddress, (custodyKeys.keys.lookup fromAddress).map keyClass
    = (custodyKeys'.keys.lookup fromAddress).map keyClass

/-- The first character that is no digit, and its position. -/
def firstInvalid : ℕ → List UInt8 → Option (UInt8 × ℕ)
  | _, [] => none
  | index, b :: rest =>
    match hexValue b with
    | none => some (b, index)
    | some _ => firstInvalid (index + 1) rest

/-- Two malformed keys that cannot be told apart by their errors: both have an odd number of
digits, or the same first bad character at the same position, or the same bytes. -/
def SameDefect (pvtString pvtString' : String) : Prop :=
  match keyDigits pvtString, keyDigits pvtString' with
  | some digits, some digits' =>
    if keyClass pvtString = .invalidHex then
      digits.length % 2 = digits'.length % 2
        ∧ (digits.length % 2 = 0 → firstInvalid 0 digits = firstInvalid 0 digits')
    else if keyClass pvtString = .wrongLength then hexDecode digits = hexDecode digits'
    else True
  | _, _ => True

/-! ## The texts can be read back -/

theorem repr_digits (n : ℕ) : ∀ c ∈ n.repr.toList, c.isDigit := by
  intro c hc
  rw [Nat.toList_repr] at hc
  exact Nat.isDigit_of_mem_toDigits (by norm_num) (by norm_num) hc

theorem repr_injective {m n : ℕ} (h : m.repr = n.repr) : m = n := by
  have hlist := congrArg String.toList h
  rw [Nat.toList_repr, Nat.toList_repr] at hlist
  exact toDigits_injective (by norm_num) (by norm_num) hlist

/-- A text between two fixed ones, and the number at the end. -/
theorem labelled_injective {front mid back text text' : String} {m n : ℕ}
    (hmid : mid.toList = back.toList ++ [' '])
    (h : front ++ text ++ mid ++ m.repr = front ++ text' ++ mid ++ n.repr) :
    text = text' ∧ m = n := by
  have hlist := congrArg String.toList h
  simp only [String.toList_append, hmid, List.append_assoc, List.singleton_append] at hlist
  have hbody := List.append_cancel_left hlist
  rw [← List.append_assoc, ← List.append_assoc] at hbody
  obtain ⟨hfront, hnum⟩ :=
    digits_suffix_inj (repr_digits m) (repr_digits n) (by decide) hbody
  exact ⟨String.toList_injective (List.append_cancel_right hfront),
    repr_injective (String.toList_injective hnum)⟩

def readByteChar (cs : List Char) : Option ℕ :=
  match cs with
  | ['\'', c, '\''] => some c.toNat
  | ['\'', '\\', c, '\''] =>
    [('0', 0), ('t', 9), ('n', 10), ('r', 13), ('\'', 39), ('"', 34), ('\\', 92)].lookup c
  | '\'' :: '\\' :: 'u' :: _ :: digits => numeral 16 (digits.dropLast.dropLast)
  | _ => none

theorem readByteChar_debugByteChar (b : UInt8) :
    readByteChar (debugByteChar b).toList = some b.toNat := by
  have hall : ∀ n : Fin 256,
      readByteChar (debugByteChar (UInt8.ofNat n.val)).toList = some n.val := by
    decide +kernel
  have h := hall ⟨b.toNat, b.toNat_lt⟩
  rwa [UInt8.ofNat_toNat] at h

theorem debugByteChar_injective {b b' : UInt8} (h : debugByteChar b = debugByteChar b') :
    b = b' := by
  have hread := readByteChar_debugByteChar b
  rw [h, readByteChar_debugByteChar] at hread
  exact (UInt8.toNat_inj.mp (Option.some.inj hread)).symm

/-- **The error names the character and its position.** -/
theorem invalidHexCharacter_injective {b b' : UInt8} {index index' : ℕ}
    (h : invalidHexCharacter b index = invalidHexCharacter b' index') :
    b = b' ∧ index = index' := by
  have hmid : " at position ".toList = " at position".toList ++ [' '] := by decide
  obtain ⟨hchar, hindex⟩ := labelled_injective hmid h
  exact ⟨debugByteChar_injective hchar, hindex⟩

/-- The numerals of a list of bytes, separated, with a closing bracket. -/
def byteList : List UInt8 → List Char
  | [] => [']']
  | [b] => b.toNat.repr.toList ++ [']']
  | b :: bs => b.toNat.repr.toList ++ ',' :: ' ' :: byteList bs

theorem debugBytes_toList (bytes : List UInt8) :
    (debugBytes bytes).toList = '[' :: byteList bytes := by
  have hbody : ∀ bs : List UInt8,
      (", ".intercalate (bs.map fun b => b.toNat.repr)).toList ++ [']'] = byteList bs := by
    intro bs
    induction bs with
    | nil => rfl
    | cons b bs ih =>
        cases bs with
        | nil => rw [List.map_singleton, String.intercalate_singleton, byteList]
        | cons b' bs =>
            rw [List.map_cons] at ih
            rw [List.map_cons, List.map_cons, String.intercalate_cons_cons, byteList,
              String.toList_append, List.append_assoc, ih]
            · simp
            · simp
  rw [debugBytes, String.toList_append, String.toList_append, List.append_assoc,
    ← hbody bytes]
  rfl

/-- The first numeral ends in front of a character that is no digit; the rest is the list
without its first byte. -/
theorem byteList_cons (b : UInt8) (bs : List UInt8) :
    ∃ c cs, byteList (b :: bs) = b.toNat.repr.toList ++ c :: cs ∧ c.isDigit = false
      ∧ (c :: cs = [']'] ∧ bs = [] ∨ c :: cs = ',' :: ' ' :: byteList bs ∧ bs ≠ []) := by
  cases bs with
  | nil => exact ⟨']', [], rfl, rfl, Or.inl ⟨rfl, rfl⟩⟩
  | cons b' bs =>
      exact ⟨',', _, byteList.eq_3 b (b' :: bs) (by simp), rfl, Or.inr ⟨rfl, by simp⟩⟩

theorem byteList_cons_ne_nil (b : UInt8) (bs : List UInt8) : byteList (b :: bs) ≠ [']'] := by
  intro h
  obtain ⟨c, cs, hcons, -, -⟩ := byteList_cons b bs
  have hne : b.toNat.repr.toList ≠ [] := by
    rw [Nat.toList_repr]
    exact Nat.toDigits_ne_nil
  obtain ⟨d, ds, hds⟩ := List.exists_cons_of_ne_nil hne
  have hd : d.isDigit := repr_digits b.toNat d (by rw [hds]; exact List.mem_cons_self)
  rw [hcons, hds, List.cons_append, List.cons.injEq] at h
  rw [h.1] at hd
  exact absurd hd (by decide)

theorem byteList_injective {bs bs' : List UInt8} (h : byteList bs = byteList bs') :
    bs = bs' := by
  induction bs generalizing bs' with
  | nil =>
      cases bs' with
      | nil => rfl
      | cons b' bs' => exact absurd h.symm (byteList_cons_ne_nil b' bs')
  | cons b bs ih =>
      cases bs' with
      | nil => exact absurd h (byteList_cons_ne_nil b bs)
      | cons b' bs' =>
          obtain ⟨c, cs, hcons, hc, hrest⟩ := byteList_cons b bs
          obtain ⟨c', cs', hcons', hc', hrest'⟩ := byteList_cons b' bs'
          rw [hcons, hcons'] at h
          obtain ⟨hnumeral, htail⟩ :=
            digits_prefix_inj (repr_digits _) (repr_digits _) hc hc' h
          have hb : b = b' :=
            UInt8.toNat_inj.mp (repr_injective (String.toList_injective hnumeral))
          rcases hrest with ⟨hrest, rfl⟩ | ⟨hrest, -⟩ <;>
            rcases hrest' with ⟨hrest', rfl⟩ | ⟨hrest', -⟩
          · rw [hb]
          · rw [hrest, hrest'] at htail
            exact absurd (List.cons_eq_cons.mp htail).1 (by decide)
          · rw [hrest, hrest'] at htail
            exact absurd (List.cons_eq_cons.mp htail).1 (by decide)
          · rw [hrest, hrest', List.cons.injEq, List.cons.injEq] at htail
            rw [hb, ih htail.2.2]

/-- **The error names the bytes.** -/
theorem debugBytes_injective {bytes bytes' : List UInt8}
    (h : debugBytes bytes = debugBytes bytes') : bytes = bytes' := by
  have hlist := congrArg String.toList h
  rw [debugBytes_toList, debugBytes_toList, List.cons.injEq] at hlist
  exact byteList_injective hlist.2

/-! ## The errors of a malformed key -/

/-- An even number of digits is refused for the first bad character. -/
theorem hexPairs_eq_error {index : ℕ} {digits : List UInt8} {e : String}
    (heven : digits.length % 2 = 0) :
    hexPairs index digits = .error e ↔
      ∃ b i, firstInvalid index digits = some (b, i) ∧ e = invalidHexCharacter b i := by
  induction index, digits using hexPairs.induct with
  | case1 index => simp [hexPairs, firstInvalid]
  | case2 index b => simp at heven
  | case3 index a b rest ha => simp [hexPairs, firstInvalid, ha, eq_comm]
  | case4 index a b rest high ha hb => simp [hexPairs, firstInvalid, ha, hb, eq_comm]
  | case5 index a b rest high ha low hb ih =>
      have hrest : rest.length % 2 = 0 := by
        rw [List.length_cons, List.length_cons] at heven
        omega
      have hmap : ∀ (x : Except String (List UInt8)) (f : List UInt8 → List UInt8),
          x.map f = .error e ↔ x = .error e := by
        intro x f
        cases x <;> simp [Except.map]
      rw [hexPairs, ha, firstInvalid, ha, firstInvalid, hb]
      dsimp only
      rw [hmap, ih hrest]

theorem oddLength_ne_invalidHexCharacter (b : UInt8) (index : ℕ) :
    "Odd number of digits" ≠ invalidHexCharacter b index := by
  intro h
  have hlist := congrArg String.toList h
  unfold invalidHexCharacter at hlist
  simp only [String.toList_append, List.append_assoc] at hlist
  have hhead := congrArg List.head? hlist
  simp at hhead

/-- Two strings are refused for the same reason when both have an odd number of digits, or
the same first bad character at the same position. -/
theorem hexDecode_error_eq {digits digits' : List UInt8} {e e' : String}
    (he : hexDecode digits = .error e) (he' : hexDecode digits' = .error e') :
    e = e' ↔ digits.length % 2 = digits'.length % 2
      ∧ (digits.length % 2 = 0 → firstInvalid 0 digits = firstInvalid 0 digits') := by
  have hparity : ∀ (ds : List UInt8) (t : String), hexDecode ds = .error t →
      ds.length % 2 = 1 ∧ t = "Odd number of digits"
        ∨ ds.length % 2 = 0 ∧ ∃ b i, firstInvalid 0 ds = some (b, i)
          ∧ t = invalidHexCharacter b i := by
    intro ds t ht
    rw [hexDecode] at ht
    split at ht
    · exact Or.inl ⟨by omega, (Except.error.inj ht).symm⟩
    · exact Or.inr ⟨by omega, (hexPairs_eq_error (by omega)).mp ht⟩
  rcases hparity digits e he with ⟨hodd, rfl⟩ | ⟨heven, b, i, hb, rfl⟩ <;>
    rcases hparity digits' e' he' with ⟨hodd', rfl⟩ | ⟨heven', b', i', hb', rfl⟩
  · simp [hodd, hodd']
  · simp [hodd, heven', oddLength_ne_invalidHexCharacter]
  · simp [heven, hodd', (oddLength_ne_invalidHexCharacter b i).symm]
  · rw [heven, heven', hb, hb', Option.some.injEq, Prod.mk.injEq]
    constructor
    · intro htext
      exact ⟨rfl, fun _ => invalidHexCharacter_injective htext⟩
    · rintro ⟨-, hsame⟩
      rw [(hsame rfl).1, (hsame rfl).2]

/-- What `resolve_key` makes of the string of a key. -/
def parsedKey (pvtString : String) : Except LocalError B256 :=
  match keyDigits pvtString with
  | none => .error (.internal "Unable to parse Pvt Keys")
  | some digits =>
    match hexDecode digits with
    | .error e => .error (.invariant e)
    | .ok bytes =>
      if h : bytes.length = 32 then .ok ⟨bytes, h⟩
      else .error (.invariant ("Invalid pvt key length: " ++ debugBytes bytes))

section

variable {crypto : Crypto} {custodyKeys : JsonPolicyEngine} {fromAddress : Address}
  {pvtString : String} {digits bytes : List UInt8}

theorem parsedKey_of_invalidHex {e : String} (hdigits : keyDigits pvtString = some digits)
    (he : hexDecode digits = .error e) : parsedKey pvtString = .error (.invariant e) := by
  simp only [parsedKey, hdigits, he]

theorem parsedKey_of_wrongLength (hdigits : keyDigits pvtString = some digits)
    (hbytes : hexDecode digits = .ok bytes) (hlen : bytes.length ≠ 32) :
    parsedKey pvtString
      = .error (.invariant ("Invalid pvt key length: " ++ debugBytes bytes)) := by
  simp only [parsedKey, hdigits, hbytes, hlen, dite_false]

theorem keyDigits_cases (pvtString : String) :
    (∃ digits, pvtString.toUTF8.data.toList = 0x30 :: 0x78 :: digits
      ∧ keyDigits pvtString = some digits)
    ∨ (∀ digits, pvtString.toUTF8.data.toList ≠ 0x30 :: 0x78 :: digits)
      ∧ keyDigits pvtString = none := by
  rw [keyDigits]
  split
  · exact Or.inl ⟨_, ‹_›, rfl⟩
  · rename_i hbytes
    exact Or.inr ⟨hbytes, rfl⟩

theorem resolveKey_of_lookup (crypto : Crypto)
    (h : custodyKeys.keys.lookup fromAddress = some pvtString) :
    custodyKeys.resolveKey crypto fromAddress = parsedKey pvtString := by
  rw [JsonPolicyEngine.resolveKey, h, parsedKey]
  rcases keyDigits_cases pvtString with ⟨digits, hbytes, hdigits⟩ | ⟨hbytes, hdigits⟩
  · rw [hdigits]
    dsimp only
    generalize pvtString.toUTF8.data.toList = text at hbytes ⊢
    subst hbytes
    rfl
  · rw [hdigits]
    dsimp only
    split
    · exact absurd ‹_› (hbytes _)
    · rfl

/-- Two keys that are no hexadecimal strings have one defect when their errors are one. -/
theorem sameDefect_invalidHex {pvtString' e e' : String} {digits' : List UInt8}
    (hclass : keyClass pvtString = .invalidHex)
    (hdigits : keyDigits pvtString = some digits) (he : hexDecode digits = .error e)
    (hdigits' : keyDigits pvtString' = some digits') (he' : hexDecode digits' = .error e') :
    SameDefect pvtString pvtString' ↔ e = e' := by
  rw [SameDefect, hdigits, hdigits']
  dsimp only
  rw [if_pos hclass, hexDecode_error_eq he he']

/-- Two keys of the wrong length have one defect when their bytes are the same. -/
theorem sameDefect_wrongLength {pvtString' : String} {digits' bytes' : List UInt8}
    (hclass : keyClass pvtString = .wrongLength)
    (hdigits : keyDigits pvtString = some digits) (hbytes : hexDecode digits = .ok bytes)
    (hdigits' : keyDigits pvtString' = some digits')
    (hbytes' : hexDecode digits' = .ok bytes') :
    SameDefect pvtString pvtString' ↔ bytes = bytes' := by
  have hother : keyClass pvtString ≠ .invalidHex := by
    rw [hclass]
    decide
  rw [SameDefect, hdigits, hdigits']
  dsimp only
  rw [if_neg hother, if_pos hclass, hbytes, hbytes', Except.ok.injEq]

/-- What the class of a key says about it. -/
theorem keyClass_spec (pvtString : String) :
    match keyClass pvtString with
    | .missingPrefix => keyDigits pvtString = none
    | .invalidHex => ∃ digits e, keyDigits pvtString = some digits
        ∧ hexDecode digits = .error e
    | .wrongLength => ∃ digits bytes, keyDigits pvtString = some digits
        ∧ hexDecode digits = .ok bytes ∧ bytes.length ≠ 32
    | .outOfRange => ∃ key, parsedKey pvtString = .ok key
        ∧ signingKeyFromBytes key = .error "signature error"
    | .usable => ∃ key signingKey, parsedKey pvtString = .ok key
        ∧ signingKeyFromBytes key = .ok signingKey := by
  cases hdigits : keyDigits pvtString with
  | none => simp only [keyClass, hdigits]
  | some digits =>
      cases hbytes : hexDecode digits with
      | error e =>
          simp only [keyClass, hdigits, hbytes]
          exact ⟨digits, e, rfl, hbytes⟩
      | ok bytes =>
          by_cases hlen : bytes.length = 32
          · have hkey : parsedKey pvtString = .ok ⟨bytes, hlen⟩ := by
              simp only [parsedKey, hdigits, hbytes, hlen, dite_true]
            cases hsigning : signingKeyFromBytes ⟨bytes, hlen⟩ with
            | error e =>
                simp only [keyClass, hdigits, hbytes, hlen, dite_true, hsigning]
                refine ⟨_, hkey, ?_⟩
                rw [hsigning]
                rw [signingKeyFromBytes] at hsigning
                split at hsigning
                · cases hsigning
                · rw [← Except.error.inj hsigning]
            | ok signingKey =>
                simp only [keyClass, hdigits, hbytes, hlen, dite_true, hsigning]
                exact ⟨_, signingKey, hkey, hsigning⟩
          · simp only [keyClass, hdigits, hbytes, hlen, dite_false]
            exact ⟨digits, bytes, rfl, hbytes, hlen⟩

variable {chainId : ChainId} {executionId : ExecutionId} {txn : Eip1559Transaction}
  {key : B256} {signingKey : Scalar} {err : LocalError}

theorem signReply_of_unresolved
    (h : custodyKeys.resolveKey crypto fromAddress = .error err) :
    signReply crypto custodyKeys fromAddress chainId executionId txn = .error err := by
  rw [signReply, handleSign, h]
  rfl

/-- With a key, signing fails for the chain id or for the signature. -/
theorem signReply_error (h : custodyKeys.resolveKey crypto fromAddress = .ok key)
    (herr : signReply crypto custodyKeys fromAddress chainId executionId txn = .error err) :
    if chainId.id.toI64 = none then err = .invariant "Chain_id does not fit in i64"
    else signEip1559Transaction crypto txn key = some (.error err) := by
  rw [signReply, handleSign, h] at herr
  cases hchain : chainId.id.toI64 with
  | none =>
      rw [hchain] at herr
      exact (Except.error.inj herr).symm
  | some chainIdI64 =>
      rw [hchain] at herr
      rw [if_neg (by simp)]
      cases hsign : signEip1559Transaction crypto txn key with
      | none => exact absurd hsign (signEip1559Transaction_ne_none crypto txn key)
      | some result =>
          simp only [perform_bind, eval_call, signsOnce, hsign] at herr
          cases result with
          | error e =>
              rw [← Except.error.inj herr]
          | ok signedTx => cases herr

/-- Signing fails for the key or for the primitive. -/
theorem signEip1559Transaction_error
    (h : signEip1559Transaction crypto txn key = some (.error err)) :
    match signingKeyFromBytes key with
    | .error e => err = .internal ("Invalid private key: " ++ e)
    | .ok signingKey => ∃ hash e, crypto.signPrehashRecoverable signingKey hash = .error e
        ∧ err = .invariant ("Signing failed: " ++ e) := by
  rw [signEip1559Transaction, encodeEip1559Unsigned_eq] at h
  cases hkey : signingKeyFromBytes key with
  | error e =>
      simp only [hkey] at h
      cases h
      rfl
  | ok signingKey =>
      simp only [hkey] at h
      split at h
      · rename_i e hsign
        cases h
        exact ⟨_, e, hsign, rfl⟩
      · rw [encodeEip1559Signed_eq] at h
        cases h

/-- The error of the primitive says nothing about the key. -/
def Crypto.OpaqueErrors (crypto : Crypto) : Prop :=
  ∀ signingKey hash e, crypto.signPrehashRecoverable signingKey hash = .error e →
    e = "signature error"

/-- With a key, the error depends on whether the key is in range only. -/
theorem signReply_error_text (hopacity : crypto.OpaqueErrors)
    (h : custodyKeys.resolveKey crypto fromAddress = .ok key)
    (herr : signReply crypto custodyKeys fromAddress chainId executionId txn = .error err) :
    err = if chainId.id.toI64 = none then .invariant "Chain_id does not fit in i64"
      else match signingKeyFromBytes key with
        | .error e => .internal ("Invalid private key: " ++ e)
        | .ok _ => .invariant ("Signing failed: " ++ "signature error") := by
  have hreply := signReply_error h herr
  split at hreply
  · rename_i hchain
    rw [if_pos hchain]
    exact hreply
  · rename_i hchain
    rw [if_neg hchain]
    have hsign := signEip1559Transaction_error hreply
    split at hsign
    · rw [hsign]
    · obtain ⟨hash, e, he, rfl⟩ := hsign
      rw [hopacity _ _ _ he]

/-- Two keys of one class, with the same defect, fail with the same error. -/
theorem signReply_error_eq {custodyKeys' : JsonPolicyEngine} {pvtString' : String}
    {executionId' : ExecutionId} {txn' : Eip1559Transaction} {err' : LocalError}
    (hopacity : crypto.OpaqueErrors) (hclass : keyClass pvtString = keyClass pvtString')
    (hdefect : SameDefect pvtString pvtString')
    (hs : custodyKeys.keys.lookup fromAddress = some pvtString)
    (hs' : custodyKeys'.keys.lookup fromAddress = some pvtString')
    (herr : signReply crypto custodyKeys fromAddress chainId executionId txn = .error err)
    (herr' : signReply crypto custodyKeys' fromAddress chainId executionId' txn'
      = .error err') : err = err' := by
  have hresolve := resolveKey_of_lookup crypto hs
  have hresolve' := resolveKey_of_lookup crypto hs'
  have hspec := keyClass_spec pvtString
  have hspec' := keyClass_spec pvtString'
  -- a malformed key is refused before anything else is looked at
  have hrefused : ∀ {e e' : LocalError}, parsedKey pvtString = .error e →
      parsedKey pvtString' = .error e' → e = e' → err = err' := by
    intro e e' he he' heq
    rw [signReply_of_unresolved (hresolve.trans he)] at herr
    rw [signReply_of_unresolved (hresolve'.trans he')] at herr'
    rw [← Except.error.inj herr, ← Except.error.inj herr', heq]
  rw [← hclass] at hspec'
  cases hc : keyClass pvtString with
  | missingPrefix =>
      rw [hc] at hspec hspec'
      dsimp only at hspec hspec'
      exact hrefused (by rw [parsedKey, hspec]) (by rw [parsedKey, hspec']) rfl
  | invalidHex =>
      rw [hc] at hspec hspec'
      obtain ⟨digits, e, hdigits, he⟩ := hspec
      obtain ⟨digits', e', hdigits', he'⟩ := hspec'
      rw [sameDefect_invalidHex hc hdigits he hdigits' he'] at hdefect
      exact hrefused (parsedKey_of_invalidHex hdigits he) (parsedKey_of_invalidHex hdigits' he')
        (by rw [hdefect])
  | wrongLength =>
      rw [hc] at hspec hspec'
      obtain ⟨digits, bytes, hdigits, hbytes, hlen⟩ := hspec
      obtain ⟨digits', bytes', hdigits', hbytes', hlen'⟩ := hspec'
      rw [sameDefect_wrongLength hc hdigits hbytes hdigits' hbytes'] at hdefect
      exact hrefused (parsedKey_of_wrongLength hdigits hbytes hlen)
        (parsedKey_of_wrongLength hdigits' hbytes' hlen') (by rw [hdefect])
  | outOfRange =>
      rw [hc] at hspec hspec'
      obtain ⟨key, hkey, hrange⟩ := hspec
      obtain ⟨key', hkey', hrange'⟩ := hspec'
      rw [signReply_error_text hopacity (hresolve.trans hkey) herr,
        signReply_error_text hopacity (hresolve'.trans hkey') herr', hrange, hrange']
  | usable =>
      rw [hc] at hspec hspec'
      obtain ⟨key, signingKey, hkey, hrange⟩ := hspec
      obtain ⟨key', signingKey', hkey', hrange'⟩ := hspec'
      rw [signReply_error_text hopacity (hresolve.trans hkey) herr,
        signReply_error_text hopacity (hresolve'.trans hkey') herr', hrange, hrange']

end

/-! ## Along a run -/

/-- The contract of a pipeline that signs with a custody file. -/
def signingContract (crypto : Crypto) (custodyKeys : JsonPolicyEngine) (e : ExecutionId) :
    Contract PipelineCall PipelineCall.Reply StatusRegistry where
  rely registry registry' := registry'.get e = registry.get e
  rely_refl _ := rfl
  rely_trans h h' := h'.trans h
  requires _ _ := True
  step := SignsWith crypto custodyKeys e

section

variable {crypto : Crypto} {custodyKeys : JsonPolicyEngine} {ctx : PipelineContext}
  {status : PipelineStatus} {err : LocalError}

/-- Signing some transaction of the execution fails. -/
def FailsWith (crypto : Crypto) (custodyKeys : JsonPolicyEngine) (ctx : PipelineContext)
    (err : LocalError) : Prop :=
  ∃ txn, signReply crypto custodyKeys ctx.clientConfig.fromAddress ctx.txn.chainId
    ctx.executionId txn = .error err

/-- A failure of a signing stage carries an error of signing. -/
def Explained (crypto : Crypto) (custodyKeys : JsonPolicyEngine) (ctx : PipelineContext)
    (status : PipelineStatus) : Prop :=
  ∀ stage reason, status = .failed stage reason → stage ∈ signingStages →
    ∃ err, FailsWith crypto custodyKeys ctx err
      ∧ (status = (CortexError.sign err).status ∨ status = (CortexError.reSign err).status)

theorem explained_of_stage {stage reason : String} (h : stage ∉ signingStages) :
    Explained crypto custodyKeys ctx (.failed stage reason) := by
  intro stage' reason' hstatus hstage
  cases hstatus
  exact absurd hstage h

theorem explained_of_ne {err : CortexError} (hsign : ∀ e, err ≠ .sign e)
    (hreSign : ∀ e, err ≠ .reSign e) : Explained crypto custodyKeys ctx err.status := by
  cases err with
  | sign e => exact absurd rfl (hsign e)
  | reSign e => exact absurd rfl (hreSign e)
  | endpointPoolFailed e =>
      exact explained_of_stage (show "rpc_semaphore_permit" ∉ signingStages by decide)
  | noHealthyRpcProvider e =>
      exact explained_of_stage (show "acquire_healthy_endpoint" ∉ signingStages by decide)
  | relayHost e => exact explained_of_stage (show "relay_host" ∉ signingStages by decide)
  | nonceReservation e =>
      exact explained_of_stage (show "nonce_reserve" ∉ signingStages by decide)
  | nonceSync e => exact explained_of_stage (show "nonce_sync" ∉ signingStages by decide)
  | broadcast e => exact explained_of_stage (show "broadcast" ∉ signingStages by decide)
  | validator e => exact explained_of_stage (show "validator" ∉ signingStages by decide)

/-- What is going to be recorded, and what has been recorded at the end. -/
def ExplainedAt (crypto : Crypto) (custodyKeys : JsonPolicyEngine) (ctx : PipelineContext) :
    Phase → StatusRegistry → Prop
  | .releasing _ status _, _ => Explained crypto custodyKeys ctx status
  | .failing status, _ => Explained crypto custodyKeys ctx status
  | .ended, registry => ∀ status, registry.get ctx.executionId = some status →
      Explained crypto custodyKeys ctx status
  | _, _ => True

theorem explainedAt_congr {p : Phase} {registry registry' : StatusRegistry}
    (h : ExplainedAt crypto custodyKeys ctx p registry)
    (hget : registry'.get ctx.executionId = registry.get ctx.executionId) :
    ExplainedAt crypto custodyKeys ctx p registry' := by
  cases p with
  | ended =>
      intro status hstatus
      exact h status (hget ▸ hstatus)
  | _ => exact h

/-- The last status of a run is the one that was going to be recorded. -/
theorem explainedAt_ended {registry registry' : StatusRegistry}
    (h : Explained crypto custodyKeys ctx status)
    (hget : registry'.get ctx.executionId
      = (registry.set ⟨ctx.executionId, status⟩).get ctx.executionId) :
    ExplainedAt crypto custodyKeys ctx .ended registry' := by
  intro status' hstatus
  have hlast : (registry.set ⟨ctx.executionId, status⟩).get ctx.executionId = some status :=
    Function.update_self _ _ _
  rw [hget, hlast] at hstatus
  rwa [← Option.some.inj hstatus]

theorem retryAll_eq_error {T E : Type} {r : Except E T} {e : E}
    (h : retryAll r = .error (.failImmediately e) ∨ retryAll r = .error (.retry e)) :
    r = .error e := by
  cases r with
  | ok value => rcases h with h | h <;> cases h
  | error e' =>
      rcases h with h | h
      · cases h
      · cases h
        rfl

/-- **Every call of a pipeline keeps the explanation.** -/
theorem explainedOutline (crypto : Crypto) (custodyKeys : JsonPolicyEngine)
    (ctx : PipelineContext) :
    Outline (signingContract crypto custodyKeys ctx.executionId) ctx
      (ExplainedAt crypto custodyKeys ctx) where
  stable h hrely := explainedAt_congr h hrely
  call := by
    intro p c next registry hcall h
    refine ⟨trivial, fun reply registry' hstep => ?_⟩
    cases hcall with
    | genRange | sleep | telemetry | unreachable => exact explainedAt_congr h hstep
    | register attempt =>
        exact attempted_of (H := fun q => ExplainedAt crypto custodyKeys ctx q registry')
          (fun _ => trivial) (fun _ _ => trivial) fun _ _ => explained_of_ne (by nofun) (by nofun)
    | reserve attempt =>
        exact attempted_of (H := fun q => ExplainedAt crypto custodyKeys ctx q registry')
          (fun _ => trivial) (fun _ _ => trivial) fun _ _ => explained_of_ne (by nofun) (by nofun)
    | sign nonce attempt =>
        refine attempted_of (H := fun q => ExplainedAt crypto custodyKeys ctx q registry')
          (fun _ => trivial) (fun _ _ => trivial) fun err herr => ?_
        have hreply := retryAll_eq_error herr
        exact fun _ _ _ _ => ⟨err, ⟨_, hstep.1.symm.trans hreply⟩, Or.inl rfl⟩
    | resign nonce attempt =>
        refine attempted_of (H := fun q => ExplainedAt crypto custodyKeys ctx q registry')
          (fun _ => trivial) (fun _ _ => trivial) fun err herr => ?_
        have hreply := retryAll_eq_error herr
        exact fun _ _ _ _ => ⟨err, ⟨_, hstep.1.symm.trans hreply⟩, Or.inr rfl⟩
    | acquire nonce txn =>
        match reply with
        | .ok (some _) => exact trivial
        | .ok none => exact explained_of_ne (by nofun) (by nofun)
        | .error err => exact explained_of_ne (by nofun) (by nofun)
    | broadcast recoveries nonce txn attempt stickyIndex =>
        refine attempted_of (H := fun q => ExplainedAt crypto custodyKeys ctx q registry')
          (fun _ => trivial) (fun _ _ => trivial) fun err _ => ?_
        have hbroadcast : Explained crypto custodyKeys ctx (CortexError.broadcast err).status :=
          explained_of_ne (by nofun) (by nofun)
        cases err with
        | nonceTooLow nonceOnChain attemptedNonce =>
            exact afterBroadcastError_of
              (H := fun q => ExplainedAt crypto custodyKeys ctx q registry')
              (fun _ => hbroadcast) fun _ => trivial
        | _ => exact hbroadcast
    | sync nonceOnChain attempt =>
        exact attempted_of (H := fun q => ExplainedAt crypto custodyKeys ctx q registry')
          (fun _ => trivial) (fun _ _ => trivial) fun _ _ => explained_of_ne (by nofun) (by nofun)
    | validate nonce txHash stickyIndex =>
        match reply with
        | .ok (.included _ _) => exact trivial
        | .ok .timeout => exact trivial
        | .ok .notIncluded => exact explained_of_stage (by decide)
        | .error err => cases err <;> exact explained_of_ne (by nofun) (by nofun)
    | consume | revert | finalize | retire =>
        exact attempted_of (H := fun q => ExplainedAt crypto custodyKeys ctx q registry')
          (fun _ => trivial) (fun _ _ => trivial) fun _ _ => trivial
    | release nonce status attempt =>
        exact attempted_of (H := fun q => ExplainedAt crypto custodyKeys ctx q registry')
          (fun _ => h) (fun _ _ => h) fun _ _ => h
    | showConfirmed | showTimedOut =>
        refine explainedAt_ended ?_ hstep
        intro stage reason hstatus
        cases hstatus
    | fail status => exact explainedAt_ended h hstep
    | accept | showReserved | showSigned | showMismatch | showSynced | showResigned
    | showBroadcasted => exact trivial

/-- **A served failure of a signing stage carries an error of signing.** -/
theorem explained_of_serves (h : Serves crypto custodyKeys ctx status) :
    Explained crypto custodyKeys ctx status := by
  obtain ⟨registry, registry', hrun, hserved⟩ := h
  have hpermit : wp (signingContract crypto custodyKeys ctx.executionId)
      (ctx.setStatus .permitAquired)
      (fun _ => ExplainedAt crypto custodyKeys ctx (.registering 1)) registry :=
    wp_call fun _ _ => ⟨trivial, fun _ _ _ => wp_ret fun _ _ => trivial⟩
  have hended := hrun.post ((explainedOutline crypto custodyKeys ctx).wp_submit hpermit)
  rw [getTransactionStatus, parseUuid_display] at hserved
  cases hget : registry'.get ctx.executionId with
  | none => simp [hget] at hserved
  | some status' =>
      simp only [hget, Except.ok.injEq, Prod.mk.injEq, true_and] at hserved
      exact hserved ▸ hended status' hget

/-- A submission that is signed once, without retries. -/
def signOnceContext (fromAddress : Address) : PipelineContext where
  executionId := ⟨1⟩
  clientConfig := ⟨1, fromAddress⟩
  txn :=
    { chainId := ⟨1⟩
      nonce := ⟨0⟩
      maxPriorityFeePerGas := 0
      maxFeePerGas := 0
      gasLimit := 21000
      toAddress := none
      value := 0
      data := []
      accessList := [] }
  retryConfig := ⟨0, .fromMillis 0, .fromMillis 0⟩
  telemetry := false

/-- A registry that shows a status. -/
def showing (status : PipelineStatus) : StatusRegistry where
  statusBook := fun _ => some status
  redis := fun _ => none
  spawned := []

/-- A key that is not resolved fails the execution, and its error is served. -/
theorem serves_of_unresolved {fromAddress : Address}
    (h : custodyKeys.resolveKey crypto fromAddress = .error err) :
    Serves crypto custodyKeys (signOnceContext fromAddress) (CortexError.sign err).status := by
  refine ⟨showing .permitAquired, showing (CortexError.sign err).status, ?_, ?_⟩
  · refine runs_call_iff.mpr ⟨(), showing .permitAquired, rfl, ?_⟩
    refine runs_call_iff.mpr ⟨(.ok () : Except RelayHostError Unit), _, rfl, ?_⟩
    refine runs_call_iff.mpr ⟨(), showing .accepted, rfl, ?_⟩
    refine runs_call_iff.mpr ⟨(.ok ⟨0⟩ : Except LocalError TxNonce), _, rfl, ?_⟩
    refine runs_call_iff.mpr ⟨(), showing .nonceReserved, rfl, ?_⟩
    -- the only attempt to sign fails
    refine runs_call_iff.mpr ⟨(.error err : Except LocalError SignedTransaction), _,
      ⟨(signReply_of_unresolved h).symm, rfl⟩, ?_⟩
    refine runs_call_iff.mpr ⟨(.ok () : Except LocalError Unit), _, rfl, ?_⟩
    refine runs_call_iff.mpr ⟨(), showing (CortexError.sign err).status, rfl, ?_⟩
    exact runs_ret_iff.mpr ⟨rfl, rfl⟩
  · rw [getTransactionStatus, parseUuid_display]
    rfl

end

/-! ## Two custody files -/

section

variable {crypto : Crypto} {custodyKeys custodyKeys' : JsonPolicyEngine}

/-- Keys that are refused for the same reason are served the same text, and conversely. -/
theorem eq_of_servedSame (fromAddress : Address) {e e' : String}
    (h : ServedSame crypto custodyKeys custodyKeys')
    (he : custodyKeys.resolveKey crypto fromAddress = .error (.invariant e))
    (he' : custodyKeys'.resolveKey crypto fromAddress = .error (.invariant e')) : e = e' := by
  have hreason := h _ _ _ _ List.mem_cons_self (serves_of_unresolved he)
    (serves_of_unresolved he')
  have htext := (String.append_right_inj _).mp hreason
  exact (String.append_right_inj _).mp htext

/-- Two files with the same addresses fail with the same error. -/
theorem failsWith_eq {ctx : PipelineContext} {err err' : LocalError}
    (hopacity : crypto.OpaqueErrors) (hclasses : SameClasses custodyKeys custodyKeys')
    (hdefects : ∀ fromAddress pvtString pvtString',
      custodyKeys.keys.lookup fromAddress = some pvtString →
      custodyKeys'.keys.lookup fromAddress = some pvtString' → SameDefect pvtString pvtString')
    (h : FailsWith crypto custodyKeys ctx err) (h' : FailsWith crypto custodyKeys' ctx err') :
    err = err' := by
  obtain ⟨txn, htxn⟩ := h
  obtain ⟨txn', htxn'⟩ := h'
  have hclass := hclasses ctx.clientConfig.fromAddress
  cases hs : custodyKeys.keys.lookup ctx.clientConfig.fromAddress with
  | none =>
      rw [hs, Option.map_none, eq_comm, Option.map_eq_none_iff] at hclass
      have habsent : ∀ {keys : JsonPolicyEngine},
          keys.keys.lookup ctx.clientConfig.fromAddress = none →
          keys.resolveKey crypto ctx.clientConfig.fromAddress
            = .error (.internal ("Policy violation: no Key detected for: "
              ++ ctx.clientConfig.fromAddress.display crypto)) := by
        intro keys hnone
        rw [JsonPolicyEngine.resolveKey, hnone]
      rw [signReply_of_unresolved (habsent hs)] at htxn
      rw [signReply_of_unresolved (habsent hclass)] at htxn'
      rw [← Except.error.inj htxn, ← Except.error.inj htxn']
  | some pvtString =>
      rw [hs, Option.map_some, eq_comm, Option.map_eq_some_iff] at hclass
      obtain ⟨pvtString', hs', hclass⟩ := hclass
      exact signReply_error_eq hopacity hclass.symm (hdefects _ _ _ hs hs') hs hs' htxn htxn'

/-- **The served reasons hide the keys.**  Two custody files with the same addresses and the
same classes of keys are served the same reasons, in every run that fails while signing,
exactly when no two keys of one address have different defects. -/
theorem served_same_iff (hopacity : crypto.OpaqueErrors)
    (hclasses : SameClasses custodyKeys custodyKeys') :
    ServedSame crypto custodyKeys custodyKeys' ↔
      ∀ fromAddress pvtString pvtString',
        custodyKeys.keys.lookup fromAddress = some pvtString →
        custodyKeys'.keys.lookup fromAddress = some pvtString' →
        SameDefect pvtString pvtString' := by
  constructor
  · intro h fromAddress pvtString pvtString' hs hs'
    have hclass : keyClass pvtString = keyClass pvtString' := by
      have hlookup := hclasses fromAddress
      rw [hs, hs'] at hlookup
      exact Option.some.inj hlookup
    have hresolve := resolveKey_of_lookup crypto hs
    have hresolve' := resolveKey_of_lookup crypto hs'
    have hspec := keyClass_spec pvtString
    have hspec' := keyClass_spec pvtString'
    rw [← hclass] at hspec'
    cases hc : keyClass pvtString with
    | invalidHex =>
        rw [hc] at hspec hspec'
        obtain ⟨digits, e, hdigits, he⟩ := hspec
        obtain ⟨digits', e', hdigits', he'⟩ := hspec'
        rw [sameDefect_invalidHex hc hdigits he hdigits' he']
        exact eq_of_servedSame _ h (hresolve.trans (parsedKey_of_invalidHex hdigits he))
          (hresolve'.trans (parsedKey_of_invalidHex hdigits' he'))
    | wrongLength =>
        rw [hc] at hspec hspec'
        obtain ⟨digits, bytes, hdigits, hbytes, hlen⟩ := hspec
        obtain ⟨digits', bytes', hdigits', hbytes', hlen'⟩ := hspec'
        have htext := eq_of_servedSame _ h
          (hresolve.trans (parsedKey_of_wrongLength hdigits hbytes hlen))
          (hresolve'.trans (parsedKey_of_wrongLength hdigits' hbytes' hlen'))
        rw [sameDefect_wrongLength hc hdigits hbytes hdigits' hbytes']
        exact debugBytes_injective ((String.append_right_inj _).mp htext)
    | missingPrefix | outOfRange | usable =>
        rw [SameDefect]
        split
        · simp [hc]
        · trivial
  · intro hdefects ctx stage reason reason' hstage hserves hserves'
    obtain ⟨err, hfails, hstatus⟩ := explained_of_serves hserves stage reason rfl hstage
    obtain ⟨err', hfails', hstatus'⟩ := explained_of_serves hserves' stage reason' rfl hstage
    obtain rfl := failsWith_eq hopacity hclasses hdefects hfails hfails'
    -- the stage tells the two signing errors apart
    rcases hstatus with hstatus | hstatus <;> rcases hstatus' with hstatus' | hstatus' <;>
      simp only [CortexError.status, PipelineStatus.failed.injEq] at hstatus hstatus'
    · rw [hstatus.2, hstatus'.2]
    · exact absurd (hstatus.1.symm.trans hstatus'.1)
        (show "sign" ≠ "sign_post_nonce_sync" by decide)
    · exact absurd (hstatus.1.symm.trans hstatus'.1)
        (show "sign_post_nonce_sync" ≠ "sign" by decide)
    · rw [hstatus.2, hstatus'.2]

end

/-- A custody file with one key. -/
def oneKeyFile (pvtString : String) : JsonPolicyEngine := ⟨[(.ofByte 1, pvtString)]⟩

theorem oneKeyFile_lookup (pvtString : String) (fromAddress : Address) :
    (oneKeyFile pvtString).keys.lookup fromAddress
      = if fromAddress = .ofByte 1 then some pvtString else none := by
  rw [oneKeyFile, List.lookup_cons]
  split_ifs with h
  · rw [beq_iff_eq.mpr h]
  · rw [beq_eq_false_iff_ne.mpr h]
    rfl

theorem sameClasses_oneKeyFile {pvtString pvtString' : String}
    (h : keyClass pvtString = keyClass pvtString') :
    SameClasses (oneKeyFile pvtString) (oneKeyFile pvtString') := by
  intro fromAddress
  rw [oneKeyFile_lookup, oneKeyFile_lookup]
  split
  · rw [Option.map_some, Option.map_some, h]
  · rfl

/-- Primitives that never fail. -/
def steadyCrypto : Crypto where
  keccak256 := fun _ => ⟨List.replicate 32 0, List.length_replicate⟩
  signPrehashRecoverable := fun signingKey _ => .ok (⟨signingKey, signingKey⟩, 0)

theorem steadyCrypto_opaqueErrors : steadyCrypto.OpaqueErrors := by
  intro signingKey hash e h
  cases h

/-- The rest of a key behind its first bad character is not served. -/
theorem served_same_badCharacter :
    ServedSame steadyCrypto (oneKeyFile "0xz0") (oneKeyFile "0xz123") := by
  refine (served_same_iff steadyCrypto_opaqueErrors
    (sameClasses_oneKeyFile (by decide +kernel))).mpr ?_
  intro fromAddress pvtString pvtString' hs hs'
  rw [oneKeyFile_lookup] at hs hs'
  split at hs
  · rw [if_pos ‹_›] at hs'
    cases hs
    cases hs'
    have hdigits : keyDigits "0xz0" = some [0x7a, 0x30] := by decide +kernel
    have hdigits' : keyDigits "0xz123" = some [0x7a, 0x31, 0x32, 0x33] := by decide +kernel
    rw [SameDefect, hdigits, hdigits']
    decide +kernel
  · cases hs

/-- Two keys of one byte are served in full. -/
theorem served_wrongLength :
    SameClasses (oneKeyFile "0x01") (oneKeyFile "0x02")
      ∧ ¬ ServedSame steadyCrypto (oneKeyFile "0x01") (oneKeyFile "0x02") := by
  refine ⟨sameClasses_oneKeyFile (by decide +kernel), fun h => ?_⟩
  have htext : "Invalid pvt key length: [1]" = "Invalid pvt key length: [2]" :=
    eq_of_servedSame (.ofByte 1) h (by decide +kernel) (by decide +kernel)
  exact absurd htext (by decide)

end Lobby
