/-
# Pipeline statuses as JSON

The text a status is stored as: `serde_json` over the derived form, one object with the tag
`status` in front and string fields behind it (a nonce is a hexadecimal quantity).

`fromJson_toJson` is the round trip: the object is read back (`readObject_objectText`), and its
fields give the status variant by variant.
-/
import Lobby.Types
import Lobby.FlatObject

open Text

namespace Lobby

/-- A 256-bit integer as a hexadecimal quantity. -/
def U256.hexText (value : U256) : String :=
  String.ofList ('0' :: 'x' :: Nat.toDigits 16 value.toNat)

/-- Read a hexadecimal quantity. -/
def U256.ofHexText (text : String) : Option U256 := do
  let digits ← stripPrefix ['0', 'x'] text.toList
  let value ← numeral 16 digits
  if value < 2 ^ 256 then some (BitVec.ofNat 256 value) else none

/-- The derived form of a status: the tag and the fields of the variant, in this order. -/
def PipelineStatus.fields : PipelineStatus → List (String × String)
  | .permitAquired => [("status", "permit_aquired")]
  | .accepted => [("status", "accepted")]
  | .nonceReserved => [("status", "nonce_reserved")]
  | .signed => [("status", "signed")]
  | .broadcasted txHash messege =>
    [("status", "broadcasted"), ("tx_hash", txHash), ("messege", messege)]
  | .confirmedOnChain txHash => [("status", "confirmed_on_chain"), ("tx_hash", txHash)]
  | .failed stage reason => [("status", "failed"), ("stage", stage), ("reason", reason)]
  | .nonceMismatchDetected nonceOnChain attemptedNonce =>
    [("status", "nonce_mismatch_detected"), ("nonce_on_chain", nonceOnChain.value.hexText),
      ("attempted_nonce", attemptedNonce.value.hexText)]
  | .validatorTimedOut message =>
    [("status", "validator_timed_out"), ("message", message)]

/-- Read the derived form: the tag chooses the variant, the fields are found by name. -/
def PipelineStatus.ofFields (fields : List (String × String)) : Option PipelineStatus := do
  let tag ← fields.lookup "status"
  if tag = "permit_aquired" then some .permitAquired
  else if tag = "accepted" then some .accepted
  else if tag = "nonce_reserved" then some .nonceReserved
  else if tag = "signed" then some .signed
  else if tag = "broadcasted" then do
    let txHash ← fields.lookup "tx_hash"
    let messege ← fields.lookup "messege"
    some (.broadcasted txHash messege)
  else if tag = "confirmed_on_chain" then do
    let txHash ← fields.lookup "tx_hash"
    some (.confirmedOnChain txHash)
  else if tag = "failed" then do
    let stage ← fields.lookup "stage"
    let reason ← fields.lookup "reason"
    some (.failed stage reason)
  else if tag = "nonce_mismatch_detected" then do
    let nonceOnChain ← (fields.lookup "nonce_on_chain").bind U256.ofHexText
    let attemptedNonce ← (fields.lookup "attempted_nonce").bind U256.ofHexText
    some (.nonceMismatchDetected ⟨nonceOnChain⟩ ⟨attemptedNonce⟩)
  else if tag = "validator_timed_out" then do
    let message ← fields.lookup "message"
    some (.validatorTimedOut message)
  else none

/-- `serde_json::to_string`. -/
def PipelineStatus.toJson (status : PipelineStatus) : String :=
  String.ofList (objectText quoted (status.fields.map fun f => (f.1.toList, f.2.toList)))

/-- `serde_json::from_str`. -/
def PipelineStatus.fromJson (json : String) : Option PipelineStatus :=
  (readObject quoted json.toList).bind fun members =>
    PipelineStatus.ofFields (members.map fun m => (String.ofList m.1, String.ofList m.2))

@[simp] theorem ofHexText_hexText (value : U256) :
    U256.ofHexText value.hexText = some value := by
  have hstrip : stripPrefix ['0', 'x'] value.hexText.toList
      = some (Nat.toDigits 16 value.toNat) := by
    rw [U256.hexText, String.toList_ofList]
    exact stripPrefix_append ['0', 'x'] _
  rw [U256.ofHexText, hstrip, Option.bind_eq_bind, Option.bind_some,
    numeral_toDigits (by norm_num) (by norm_num), Option.bind_eq_bind, Option.bind_some,
    if_pos value.isLt, BitVec.ofNat_toNat, BitVec.setWidth_eq]

/-- The derived form is read back, variant by variant. -/
theorem ofFields_fields (status : PipelineStatus) :
    PipelineStatus.ofFields status.fields = some status := by
  cases status <;> simp [PipelineStatus.fields, PipelineStatus.ofFields, List.lookup]

/-- **A status survives being stored.** -/
theorem fromJson_toJson (status : PipelineStatus) :
    PipelineStatus.fromJson status.toJson = some status := by
  have hobject : readObject quoted status.toJson.toList
      = some (status.fields.map fun f => (f.1.toList, f.2.toList)) := by
    rw [PipelineStatus.toJson, String.toList_ofList]
    cases status <;> exact readObject_objectText _ _
  rw [PipelineStatus.fromJson, hobject, Option.bind_some, List.map_map]
  have hback : ((fun m : Member (List Char) => (String.ofList m.1, String.ofList m.2)) ∘
      fun f : String × String => (f.1.toList, f.2.toList)) = id := by
    funext f
    simp
  rw [hback, List.map_id, ofFields_fields]

end Lobby
