/-
# The mock chain of the benchmark

`ChainState` of the mock JSON-RPC servers: one counter for each address, which
`update_nonce` compares with the nonce of a submitted transaction and advances, and
`get_pending_nonce` reads.  The counter is the next expected nonce by its documentation.
An accepted nonce advances it by one only, also when it was ahead of the counter, and
`get_pending_nonce` answers one more than it.
-/
import Lobby.Types

namespace Lobby

inductive NonceUpdateOutcome : Type where
  | nonceAdvanced (current : UInt64)
  | nonceTooLow
  deriving DecidableEq

/-- The receipts differ in their hash only, so that the map is the set of its keys. -/
structure ChainState where
  nonceCollection : Address → Option UInt64
  receiptCollection : Set TxHash

namespace ChainState

/-! ## The operations -/

def new (addresses : List Address) : ChainState where
  nonceCollection address := if address ∈ addresses then some 0 else none
  receiptCollection := ∅

def updateReceipt (s : ChainState) (txHash : TxHash) : ChainState :=
  { s with receiptCollection := insert txHash s.receiptCollection }

/-- The value behind `entry(address).or_insert_with(|| AtomicU64::new(0))`. -/
def entry (s : ChainState) (address : Address) : UInt64 :=
  (s.nonceCollection address).getD 0

def store (s : ChainState) (address : Address) (nonce : UInt64) : ChainState :=
  { s with nonceCollection := Function.update s.nonceCollection address (some nonce) }

@[simp]
theorem entry_store (s : ChainState) (address a : Address) (nonce : UInt64) :
    (s.store address nonce).entry a = if a = address then nonce else s.entry a := by
  by_cases h : a = address
  · subst h
    simp [entry, store]
  · simp [entry, store, h]

/-- The addition is on `u64` and wraps around in a release build. -/
def getPendingNonce (s : ChainState) (address : Address) : UInt64 × ChainState :=
  (s.entry address + 1, s.store address (s.entry address))

theorem entry_getPendingNonce (s : ChainState) (a b : Address) :
    (s.getPendingNonce a).2.entry b = s.entry b := by
  rw [getPendingNonce, entry_store]
  split
  · next h => rw [h]
  · rfl

/-- The loop of `update_nonce` on the value `atomicNonce`, which the lock of the entry keeps
from changing: `compare_exchange_weak` fails spuriously as often as `spurious` says, and the
loop goes on with the value it then read.  The addition wraps around in a release build. -/
def casLoop (atomicNonce nonceRlp : UInt64) : ℕ → UInt64 → NonceUpdateOutcome × UInt64
  | spurious, currentNonce =>
    if nonceRlp < currentNonce then (.nonceTooLow, atomicNonce)
    else
      let nextExpected := currentNonce + 1
      match spurious with
      | 0 => (.nonceAdvanced currentNonce, nextExpected)
      | spurious + 1 => casLoop atomicNonce nonceRlp spurious atomicNonce

def updateNonce (s : ChainState) (address : Address) (nonceRlp : UInt64) (spurious : ℕ) :
    NonceUpdateOutcome × ChainState :=
  let result := casLoop (s.entry address) nonceRlp spurious (s.entry address)
  (result.1, s.store address result.2)

/-- Spurious failures do not show in the result. -/
theorem casLoop_eq (atomicNonce nonceRlp : UInt64) (spurious : ℕ) :
    casLoop atomicNonce nonceRlp spurious atomicNonce
      = if nonceRlp < atomicNonce then (.nonceTooLow, atomicNonce)
        else (.nonceAdvanced atomicNonce, atomicNonce + 1) := by
  induction spurious with
  | zero => rw [casLoop]
  | succ spurious ih =>
      rw [casLoop]
      by_cases h : nonceRlp < atomicNonce
      · rw [if_pos h, if_pos h]
      · rw [if_neg h]
        exact ih

theorem updateNonce_low {s : ChainState} {a : Address} {n : UInt64} (h : n < s.entry a)
    (spurious : ℕ) : s.updateNonce a n spurious = (.nonceTooLow, s.store a (s.entry a)) := by
  rw [updateNonce, casLoop_eq, if_pos h]

theorem updateNonce_accepted {s : ChainState} {a : Address} {n : UInt64} (h : s.entry a ≤ n)
    (spurious : ℕ) : s.updateNonce a n spurious
      = (.nonceAdvanced (s.entry a), s.store a (s.entry a + 1)) := by
  rw [updateNonce, casLoop_eq, if_neg (UInt64.not_lt.mpr h)]

/-- Whether `update_nonce` accepts the nonce. -/
def Accepts (s : ChainState) (a : Address) (n : UInt64) : Prop :=
  ∃ spurious current, (s.updateNonce a n spurious).1 = .nonceAdvanced current

theorem accepts_iff {s : ChainState} {a : Address} {n : UInt64} :
    s.Accepts a n ↔ s.entry a ≤ n := by
  constructor
  · rintro ⟨spurious, current, h⟩
    by_contra hlt
    rw [updateNonce_low (UInt64.not_le.mp hlt)] at h
    cases h
  · intro h
    exact ⟨0, s.entry a, congrArg Prod.fst (updateNonce_accepted h 0)⟩

end ChainState

/-! ## The handler of eth_sendRawTransaction -/

/-- What the handler reads off a decoded envelope, with what `recover_signer` finds. -/
structure TxEnvelope where
  nonce : UInt64
  hash : TxHash
  signer : Option Address

inductive RpcResponse : Type where
  | success (result : TxHash)
  | error (code : Int) (message : String)
  deriving DecidableEq

def RpcResponse.invalidParams (message : String) : RpcResponse := .error (-32602) message

/-- `handle_send_raw_transaction` on parameters that `serde_json` read as byte strings, or
could not read; `decode` is `TxEnvelope::decode_2718`. -/
def handleSendRawTransaction (decode : List UInt8 → Option TxEnvelope) (s : ChainState)
    (params : Option (List (List UInt8))) (spurious : ℕ) : RpcResponse × ChainState :=
  match params with
  | none | some [] => (.invalidParams "Invalid sendRawTransaction params.", s)
  | some (rawBytes :: _) =>
    match decode rawBytes with
    | none =>
      (.invalidParams "Invalid RLP encoding for eth_sendRawTransaction params", s)
    | some envelope =>
      match envelope.signer with
      | none => (.invalidParams "Failed to recover signature", s)
      | some fromAddress =>
        match s.updateNonce fromAddress envelope.nonce spurious with
        | (.nonceAdvanced _, s') => (.success envelope.hash, s'.updateReceipt envelope.hash)
        | (.nonceTooLow, s') => (.error (-32000) "nonce too low", s')

/-- The answer to a transaction that can be read is its hash exactly when its nonce is not
below the counter of its signer. -/
theorem handleSendRawTransaction_eq (decode : List UInt8 → Option TxEnvelope)
    (s : ChainState) (rawBytes : List UInt8) (rest : List (List UInt8)) (spurious : ℕ)
    {envelope : TxEnvelope} {fromAddress : Address} (henvelope : decode rawBytes = some envelope)
    (hsigner : envelope.signer = some fromAddress) :
    handleSendRawTransaction decode s (some (rawBytes :: rest)) spurious
      = if envelope.nonce < s.entry fromAddress then
          (.error (-32000) "nonce too low", s.store fromAddress (s.entry fromAddress))
        else (.success envelope.hash, (s.store fromAddress (s.entry fromAddress + 1)).updateReceipt
          envelope.hash) := by
  simp only [handleSendRawTransaction, henvelope, hsigner]
  by_cases h : envelope.nonce < s.entry fromAddress
  · rw [if_pos h, ChainState.updateNonce_low h]
  · rw [if_neg h, ChainState.updateNonce_accepted (UInt64.not_lt.mp h)]

/-! ## Runs of a mock chain -/

/-- The requests that read or advance a counter. -/
inductive ChainCall : Type where
  | updateNonce (address : Address) (nonceRlp : UInt64) (spurious : ℕ)
  | getPendingNonce (address : Address)

namespace ChainState

def step (s : ChainState) : ChainCall → ChainState
  | .updateNonce address nonceRlp spurious => (s.updateNonce address nonceRlp spurious).2
  | .getPendingNonce address => (s.getPendingNonce address).2

def run (s : ChainState) (calls : List ChainCall) : ChainState := calls.foldl step s

@[simp]
theorem run_nil (s : ChainState) : s.run [] = s := rfl

@[simp]
theorem run_cons (s : ChainState) (c : ChainCall) (calls : List ChainCall) :
    s.run (c :: calls) = (s.step c).run calls := rfl

@[simp]
theorem run_append (s : ChainState) (calls calls' : List ChainCall) :
    s.run (calls ++ calls') = (s.run calls).run calls' := List.foldl_append

/-- The nonce is not ahead of the counter, and there is room for the one after it. -/
def Fits (s : ChainState) : ChainCall → Prop
  | .updateNonce address nonceRlp _ =>
    nonceRlp ≤ s.entry address ∧ nonceRlp.toNat + 1 < UInt64.size
  | .getPendingNonce _ => True

/-- Every call of the run fits the state it finds. -/
def AllFit : ChainState → List ChainCall → Prop
  | _, [] => True
  | s, c :: calls => s.Fits c ∧ (s.step c).AllFit calls

theorem allFit_append {s : ChainState} {calls calls' : List ChainCall} :
    s.AllFit (calls ++ calls') ↔ s.AllFit calls ∧ (s.run calls).AllFit calls' := by
  induction calls generalizing s with
  | nil => simp [AllFit]
  | cons c calls ih => simp [AllFit, ih, and_assoc]

/-- **What a call does to a counter**: nothing, or an accepted nonce advances it by one. -/
theorem entry_step (s : ChainState) (c : ChainCall) (a : Address) :
    (s.step c).entry a = s.entry a
      ∨ ∃ n spurious, c = .updateNonce a n spurious ∧ s.entry a ≤ n
        ∧ (s.step c).entry a = s.entry a + 1 := by
  cases c with
  | getPendingNonce b =>
      left
      exact entry_getPendingNonce s b a
  | updateNonce b n spurious =>
      rw [step]
      by_cases hb : a = b
      · subst hb
        -- a nonce from the expected one on is accepted, and moves it by one only
        by_cases h : s.entry a ≤ n
        · right
          refine ⟨n, spurious, rfl, h, ?_⟩
          rw [updateNonce_accepted h, entry_store, if_pos rfl]
        · left
          rw [updateNonce_low (UInt64.not_le.mp h), entry_store, if_pos rfl]
      · left
        rw [updateNonce, entry_store, if_neg hb]

theorem toNat_add_one {n : UInt64} (h : n.toNat + 1 < UInt64.size) :
    (n + 1).toNat = n.toNat + 1 := by
  rw [UInt64.toNat_add]
  exact Nat.mod_eq_of_lt h

/-- A call that fits does not lower a counter. -/
theorem Fits.entry_le {s : ChainState} {c : ChainCall} (h : s.Fits c) (a : Address) :
    s.entry a ≤ (s.step c).entry a := by
  rcases entry_step s c a with heq | ⟨n, spurious, hc, hle, heq⟩
  · rw [heq]
    exact UInt64.le_refl _
  · subst hc
    obtain ⟨hle', hroom⟩ := h
    have hn : s.entry a = n := UInt64.le_antisymm hle hle'
    rw [heq, UInt64.le_iff_toNat_le, toNat_add_one (hn ▸ hroom)]
    omega

theorem AllFit.entry_le {s : ChainState} {calls : List ChainCall} (h : s.AllFit calls)
    (a : Address) : s.entry a ≤ (s.run calls).entry a := by
  induction calls generalizing s with
  | nil => exact UInt64.le_refl _
  | cons c calls ih => exact UInt64.le_trans (h.1.entry_le a) (ih h.2)

/-- The counter is behind no nonce that was accepted and fitted. -/
theorem Fits.lt_entry {s : ChainState} {a : Address} {n : UInt64} {spurious : ℕ}
    {current : UInt64} (h : s.Fits (.updateNonce a n spurious))
    (haccepted : (s.updateNonce a n spurious).1 = .nonceAdvanced current) :
    n < (s.step (.updateNonce a n spurious)).entry a := by
  obtain ⟨hle, hroom⟩ := h
  have hge : s.entry a ≤ n := accepts_iff.mp ⟨spurious, current, haccepted⟩
  have hn : s.entry a = n := UInt64.le_antisymm hge hle
  rw [step, updateNonce_accepted hge, entry_store, if_pos rfl, hn, UInt64.lt_iff_toNat_lt,
    toNat_add_one hroom]
  omega

/-- A call that fits still does when it comes again. -/
theorem Fits.again {s : ChainState} {c : ChainCall} (h : s.Fits c) : (s.step c).Fits c := by
  cases c with
  | getPendingNonce b => trivial
  | updateNonce a n spurious => exact ⟨UInt64.le_trans h.1 (h.entry_le a), h.2⟩

/-! ## Each nonce at most once -/

/-- After a nonce was accepted, no nonce up to it is accepted again. -/
def AcceptsOnce (s : ChainState) (calls : List ChainCall) : Prop :=
  ∀ before between after a n m spurious spurious' current,
    calls = before ++ .updateNonce a n spurious
      :: (between ++ .updateNonce a m spurious' :: after) →
    ((s.run before).updateNonce a n spurious).1 = .nonceAdvanced current → m ≤ n →
    ((s.run (before ++ .updateNonce a n spurious :: between)).updateNonce a m spurious').1
      = .nonceTooLow

/-- The run lemma: the counter stays above a nonce that was accepted and fitted. -/
theorem AllFit.acceptsOnce {s : ChainState} {calls : List ChainCall} (h : s.AllFit calls) :
    s.AcceptsOnce calls := by
  intro before between after a n m spurious spurious' current hcalls haccepted hm
  subst hcalls
  obtain ⟨_, hfits, hrest⟩ := allFit_append.mp h
  have hlt := hfits.lt_entry haccepted
  have hle := (allFit_append.mp hrest).1.entry_le a
  rw [run_append, run_cons]
  refine congrArg Prod.fst (updateNonce_low ?_ spurious')
  exact UInt64.lt_of_le_of_lt hm (UInt64.lt_of_lt_of_le hlt hle)

/-- A call that does not fit is accepted, and so is the same call after it. -/
theorem not_acceptsOnce {s : ChainState} {calls : List ChainCall} {c : ChainCall}
    (h : ¬ (s.run calls).Fits c) : ¬ s.AcceptsOnce (calls ++ [c, c]) := by
  intro honce
  cases c with
  | getPendingNonce b => exact h trivial
  | updateNonce a n spurious =>
      have hsize : UInt64.size = 2 ^ 64 := rfl
      have hmax := ((s.run calls).entry a).toNat_lt_size
      rw [Fits, not_and_or, UInt64.not_le, UInt64.lt_iff_toNat_lt] at h
      have hge : (s.run calls).entry a ≤ n := by
        rw [UInt64.le_iff_toNat_le]
        omega
      -- at the largest nonce the counter wraps around to zero
      have hnext : (s.run calls).entry a + 1 ≤ n := by
        rw [UInt64.le_iff_toNat_le, UInt64.toNat_add, UInt64.toNat_one]
        omega
      have hlow := honce calls [] [] a n n spurious spurious _ rfl
        (congrArg Prod.fst (updateNonce_accepted hge spurious)) (UInt64.le_refl n)
      rw [run_append, run_cons, run_nil, step, updateNonce_accepted hge,
        updateNonce_accepted (by rw [entry_store, if_pos rfl]; exact hnext)] at hlow
      cases hlow

/-- **When each nonce is accepted at most once**: the calls of a run all fit the state they
find exactly when the run accepts no nonce again, and would not either if it stopped at one
of its calls and that call was repeated. -/
theorem allFit_iff_acceptsOnce (s : ChainState) (calls : List ChainCall) :
    s.AllFit calls ↔ s.AcceptsOnce calls
      ∧ ∀ before c, before ++ [c] <+: calls → s.AcceptsOnce (before ++ [c, c]) := by
  constructor
  · intro h
    refine ⟨h.acceptsOnce, ?_⟩
    rintro before c ⟨after, rfl⟩
    obtain ⟨hbefore, hc⟩ := allFit_append.mp (allFit_append.mp h).1
    have hrepeat : s.AllFit (before ++ [c, c]) :=
      allFit_append.mpr ⟨hbefore, hc.1, hc.1.again, trivial⟩
    exact hrepeat.acceptsOnce
  · rintro ⟨-, hrepeated⟩
    induction calls using List.reverseRecOn with
    | nil => trivial
    | append_singleton calls c ih =>
        refine allFit_append.mpr ⟨ih fun before d h => ?_, ?_, trivial⟩
        · exact hrepeated before d (h.trans (List.prefix_append _ _))
        · -- a call that does not fit is accepted twice in a row
          by_contra hfits
          exact not_acceptsOnce hfits (hrepeated calls c (List.prefix_refl _))

/-- A nonce ahead of the counter is accepted twice. -/
theorem new_not_acceptsOnce :
    let a : Address := ⟨List.replicate 20 0, rfl⟩
    ¬ (new [a]).AcceptsOnce [.updateNonce a 5 0, .updateNonce a 5 0] := by
  intro a
  have hfits : ¬ ((new [a]).run []).Fits (.updateNonce a 5 0) := by
    intro hfits
    exact absurd hfits.1 (by decide)
  exact not_acceptsOnce hfits

/-! ## The pending nonce -/

/-- The counter is the next nonce that is accepted, as its documentation says. -/
theorem isLeast_entry (s : ChainState) (a : Address) :
    IsLeast {n | s.Accepts a n} (s.entry a) := by
  constructor
  · exact accepts_iff.mpr (UInt64.le_refl _)
  · intro n hn
    exact accepts_iff.mp hn

/-- **The pending nonce is never the next one**: `get_pending_nonce` answers one more than the
least nonce that `update_nonce` accepts. -/
theorem getPendingNonce_not_least (addresses : List Address) (calls : List ChainCall)
    (a : Address) :
    let s := (new addresses).run calls
    ¬ IsLeast {n | (s.getPendingNonce a).2.Accepts a n} (s.getPendingNonce a).1 := by
  intro s hleast
  have hcounter := isLeast_entry (s.getPendingNonce a).2 a
  have heq : (s.getPendingNonce a).1 = (s.getPendingNonce a).2.entry a :=
    UInt64.le_antisymm (hleast.2 hcounter.1) (hcounter.2 hleast.1)
  rw [entry_getPendingNonce] at heq
  exact absurd heq (by simp [getPendingNonce])

/-- The first pending nonce is 1, and the first nonce that is accepted is 0. -/
theorem new_getPendingNonce :
    let a : Address := ⟨List.replicate 20 0, rfl⟩
    ((new [a]).getPendingNonce a).1 = 1 ∧ ((new [a]).getPendingNonce a).2.Accepts a 0
      ∧ ¬ IsLeast {n | ((new [a]).getPendingNonce a).2.Accepts a n}
        ((new [a]).getPendingNonce a).1 := by
  intro a
  have haccepts : ((new [a]).getPendingNonce a).2.Accepts a 0 :=
    accepts_iff.mpr (by decide)
  refine ⟨by decide, haccepts, fun hleast => ?_⟩
  have hle : ((new [a]).getPendingNonce a).1 ≤ 0 := hleast.2 haccepts
  exact absurd hle (by decide)

end ChainState

end Lobby
