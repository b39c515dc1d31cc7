/-
# The HTTP surface

`auth_middleware`, the handlers of `POST /v1/transactions` and `GET /status/{execution_id}`,
and the responses their errors become.

A request authenticates by the first of three parts of its bearer alone; the client id and the
address behind it are not compared with anything (`authMiddleware_eq_ok_iff`).  With the keys of
an environment, a request authenticates exactly as the last variable with its token
(`bearer_authenticates`).  The response to an accepted request names the id under which its
status is found (`getStatus_of_accepted`), and the body of a status response is read back as
the status (`readStatusResponse_statusResponseJson`).
-/
import Lobby.Admission
import Lobby.ApiKeys
import Lobby.StatusJson
import Lobby.Pipeline
import Lobby.KeyLeak

open Text Assignments

namespace Lobby

/-! ## Authentication -/

inductive AuthError : Type where
  | missingAuthHeader
  | invalidAuthFormat
  | invalidApiKey
  deriving DecidableEq

/-- A byte that `HeaderValue::to_str` takes. -/
def visibleByte (b : UInt8) : Bool := b == 9 || (32 ≤ b && b < 127)

/-- `HeaderValue::to_str`. -/
def headerText (value : List UInt8) : Option (List Char) :=
  if value.all visibleByte then some (value.map fun b => Char.ofNat b.toNat) else none

/-- `auth_middleware`, with the value of the header `authorization`. -/
def authMiddleware (apiRegistry : ApiRegistry) (authorization : Option (List UInt8)) :
    Except AuthError ClientConfig :=
  match authorization.bind headerText with
  | none => .error .missingAuthHeader
  | some authHeader =>
    match stripPrefix "Bearer ".toList authHeader with
    | none => .error .invalidAuthFormat
    | some apiKey =>
      match apiKey.splitOn ':' with
      | [apiToken, _, _] =>
        match apiRegistry.lookup (String.ofList apiToken) with
        | none => .error .invalidApiKey
        | some clientConfig => .ok clientConfig
      | _ => .error .invalidAuthFormat

/-! ## Responses -/

structure JsonRpcError where
  code : ℤ
  message : String
  /-- the fields `expected` and `actual` -/
  data : Option (String × String)
  deriving DecidableEq

/-- What a response carries. -/
inductive ResponseBody : Type where
  | text (message : String)
  /-- `JsonRpcErrorResponse`, whose id is null -/
  | error (error : JsonRpcError)
  /-- `JsonRpcSuccessResponse` -/
  | accepted (executionId status id : String)
  /-- `JsonStatusResponse`, as JSON -/
  | status (json : String)
  deriving DecidableEq

structure HttpResponse where
  status : ℕ
  body : ResponseBody
  deriving DecidableEq

def AuthError.intoResponse : AuthError → HttpResponse
  | .invalidApiKey => ⟨401, .text "unauthorized client api-key"⟩
  | .invalidAuthFormat => ⟨401, .text ("invalid authorization format (expected "
      ++ "'Bearer lobby_live_<random_string>:<api_token>:<from_address>')")⟩
  | .missingAuthHeader => ⟨401, .text "missing autherization header"⟩

/-- `HandlerError`: the errors before the hand-off, those behind it, and those of the status
handler. -/
inductive RequestError : Type where
  | submission (error : HandlerError)
  | backpressure (error : BackpressureTimeout)
  | cortexError (error : CortexError)
  | status (error : StatusError)

/-- The error object of a response. -/
def RequestError.rpcError : RequestError → ℕ × JsonRpcError
  | .submission .invalidJsonRpcVersion =>
      (400, ⟨-32600, "Invalid JSON-RPC version (must be 2.0)", none⟩)
  | .submission (.unsupportedMethod method) =>
      (400, ⟨-32601, "Unsupported method: " ++ method, none⟩)
  | .submission .corruptedParams => (400, ⟨-32602, "Missing transaction parameters", none⟩)
  | .submission (.normalizationFailed e) =>
      (400, ⟨-32602, "Invalid params: " ++ e.toString, none⟩)
  | .submission (.fromAddressMismatch expected actual) =>
      (403, ⟨-32000, "From address does not match authenticated account",
        some (lowerHex expected.bytes, lowerHex actual.bytes)⟩)
  | .cortexError (.relayHost err) =>
      (400, ⟨-32602, "Transaction validation failed: " ++ err.toString, none⟩)
  | .backpressure _ | .cortexError _ => (500, ⟨-32603, "Internal pipeline error", none⟩)
  | .status (.idParsingError rawId) => (400, ⟨-32602, rawId ++ " is not a valid UUID", none⟩)
  | .status (.recordNotFound rawId) =>
      (404, ⟨-32001, "no pipeline record found for the give execution id: " ++ rawId, none⟩)

def RequestError.intoResponse (e : RequestError) : HttpResponse :=
  ⟨e.rpcError.1, .error e.rpcError.2⟩

/-! ## The handlers -/

/-- A `POST /v1/transactions`. -/
structure PostRequest where
  authorization : Option (List UInt8)
  body : JsonRpcRequest
  deriving DecidableEq

/-- What a request hands over under its execution id, or its response; `none` is a panic. -/
def PostRequest.handOver (apiRegistry : ApiRegistry) (ruint : Ruint) (executionId : ExecutionId)
    (request : PostRequest) : Option (Except HttpResponse PipelineSubmission) :=
  match authMiddleware apiRegistry request.authorization with
  | .error e => some (.error e.intoResponse)
  | .ok clientConfig =>
    (submitTransaction ruint executionId clientConfig request.body).map fun outcome =>
      outcome.mapError fun e => (RequestError.submission e).intoResponse

/-- The response to a request that was handed over, given what `submit` returned. -/
def postResponse (request : PostRequest) (executionId : ExecutionId) :
    Except BackpressureTimeout Unit → HttpResponse
  | .ok () => ⟨200, .accepted executionId.display "accepted" request.body.id⟩
  | .error e => (RequestError.backpressure e).intoResponse

/-- The serialised form of `JsonStatusResponse`, with the fields of the status flattened. -/
def statusResponseJson (rawId : String) (status : PipelineStatus) : String :=
  String.ofList (objectText quoted ((("execution_id", rawId) :: status.fields).map
    fun f => (f.1.toList, f.2.toList)))

/-- Read a `JsonStatusResponse`. -/
def readStatusResponse (json : String) : Option (String × PipelineStatus) := do
  let members ← readObject quoted json.toList
  let fields := members.map fun m => (String.ofList m.1, String.ofList m.2)
  let executionId ← fields.lookup "execution_id"
  let status ← PipelineStatus.ofFields fields
  some (executionId, status)

/-- `GET /status/{execution_id}`. -/
def getStatus (apiRegistry : ApiRegistry) (registry : StatusRegistry)
    (authorization : Option (List UInt8)) (rawId : String) : HttpResponse :=
  match authMiddleware apiRegistry authorization with
  | .error e => e.intoResponse
  | .ok _ =>
    match getTransactionStatus registry rawId with
    | .error e => (RequestError.status e).intoResponse
    | .ok (executionId, status) => ⟨200, .status (statusResponseJson executionId status)⟩

/-! ## Who authenticates -/

section auth

variable {apiRegistry : ApiRegistry} {authorization : Option (List UInt8)}
  {clientConfig : ClientConfig}

/-- The separator is in none of the parts. -/
theorem notMem_of_mem_splitOn {sep : Char} {cs part : List Char} (h : part ∈ cs.splitOn sep) :
    sep ∉ part := by
  induction cs generalizing part with
  | nil =>
      rw [List.splitOn_nil, List.mem_singleton] at h
      rw [h]
      exact List.not_mem_nil
  | cons c cs ih =>
      rw [List.splitOn_cons_eq_if_modifyHead] at h
      split at h
      · rcases List.mem_cons.mp h with rfl | h
        · exact List.not_mem_nil
        · exact ih h
      · rename_i hc
        -- the first part grows by a character that is not the separator
        cases hparts : cs.splitOn sep with
        | nil => exact absurd hparts (List.splitOn_ne_nil sep cs)
        | cons head parts =>
            rw [hparts, List.modifyHead_cons] at h
            rcases List.mem_cons.mp h with rfl | h
            · have hhead : sep ∉ head := ih (by rw [hparts]; exact List.mem_cons_self)
              rw [List.mem_cons, not_or]
              exact ⟨fun heq => hc (by rw [heq]; exact beq_self_eq_true c), hhead⟩
            · exact ih (by rw [hparts]; exact List.mem_cons_of_mem head h)

/-- Three parts between two colons. -/
theorem splitOn_eq_three_iff {cs a b c : List Char} :
    cs.splitOn ':' = [a, b, c]
      ↔ cs = a ++ ':' :: (b ++ ':' :: c) ∧ ':' ∉ a ∧ ':' ∉ b ∧ ':' ∉ c := by
  constructor
  · intro h
    have hcs : [':'].intercalate (cs.splitOn ':') = cs := List.intercalate_splitOn ':'
    rw [h] at hcs
    have hparts : ∀ part ∈ cs.splitOn ':', ':' ∉ part := fun _ => notMem_of_mem_splitOn
    rw [h] at hparts
    refine ⟨?_, hparts a (by simp), hparts b (by simp), hparts c (by simp)⟩
    rw [← hcs]
    simp [List.intercalate, List.intersperse]
  · rintro ⟨rfl, ha, hb, hc⟩
    rw [List.splitOn_append_cons_self_of_not_mem ha,
      List.splitOn_append_cons_self_of_not_mem hb, List.splitOn_eq_singleton hc]

/-- The text of a header that authenticates with a token. -/
def BearerOf (token : String) (header : List Char) : Prop :=
  ∃ middle last : List Char,
    header = "Bearer ".toList ++ (token.toList ++ ':' :: (middle ++ ':' :: last))
    ∧ ':' ∉ token.toList ∧ ':' ∉ middle ∧ ':' ∉ last

/-- **Only the token counts.** -/
theorem authMiddleware_eq_ok_iff :
    authMiddleware apiRegistry authorization = .ok clientConfig
      ↔ ∃ value header token, authorization = some value ∧ headerText value = some header
        ∧ BearerOf token header ∧ apiRegistry.lookup token = some clientConfig := by
  unfold authMiddleware
  constructor
  · intro h
    split at h
    · cases h
    · rename_i header hheader
      obtain ⟨value, rfl, htext⟩ := Option.bind_eq_some_iff.mp hheader
      split at h
      · cases h
      · rename_i apiKey hprefix
        split at h
        · rename_i apiToken middle last hsplit
          split at h
          · cases h
          · rename_i client hlookup
            cases h
            obtain ⟨hkey, htoken, hmiddle, hlast⟩ := splitOn_eq_three_iff.mp hsplit
            refine ⟨value, header, String.ofList apiToken, rfl, htext,
              ⟨middle, last, ?_, ?_, hmiddle, hlast⟩, hlookup⟩
            · rw [stripPrefix_eq_some hprefix, hkey,
                show (String.ofList apiToken).toList = apiToken from String.toList_ofList]
            · rwa [String.toList_ofList]
        · cases h
  · rintro ⟨value, header, token, rfl, htext, ⟨middle, last, rfl, htoken, hmiddle, hlast⟩, hlookup⟩
    rw [Option.bind_some, htext]
    dsimp only
    rw [stripPrefix_append]
    dsimp only
    rw [splitOn_eq_three_iff.mpr ⟨rfl, htoken, hmiddle, hlast⟩]
    dsimp only
    rw [String.ofList_toList, hlookup]

end auth

/-! ## The keys of an environment -/

section keys

variable {vars : List (String × String)} {apiRegistry : ApiRegistry}

/-- The variables with the prefix are well formed if they are loaded. -/
theorem parsed_of_loadVars {apiKeys : ApiRegistry} (h : loadVars vars apiKeys = .ok apiRegistry) :
    ∀ v ∈ vars, (stripPrefix "LOBBY_API_KEY_".toList v.1.toList).isSome →
      ∃ x, parseApiKey v.1 v.2 = .ok x := by
  induction vars generalizing apiKeys with
  | nil => exact fun _ hv => nomatch hv
  | cons v vars ih =>
      obtain ⟨key, value⟩ := v
      rw [loadVars] at h
      intro w hw hprefix
      split at h
      · rename_i hnone
        rcases List.mem_cons.mp hw with rfl | hw
        · rw [hnone] at hprefix
          cases hprefix
        · exact ih h w hw hprefix
      · split at h
        · cases h
        · rename_i x hx
          rcases List.mem_cons.mp hw with rfl | hw
          · exact ⟨x, hx⟩
          · exact ih h w hw hprefix

theorem parsed_of_loaded (h : loadApiKeyFromEnv vars = .ok apiRegistry) :
    ∀ v ∈ vars, (stripPrefix "LOBBY_API_KEY_".toList v.1.toList).isSome →
      ∃ x, parseApiKey v.1 v.2 = .ok x := by
  unfold loadApiKeyFromEnv at h
  split at h
  · cases h
  · rename_i apiKeys hload
    exact parsed_of_loadVars hload

/-- What was loaded: the assignments of the variables, in their order. -/
theorem loaded_eq (h : loadApiKeyFromEnv vars = .ok apiRegistry) :
    apiRegistry = assignAll ∅ (loadedKeys vars) := by
  unfold loadApiKeyFromEnv at h
  split at h
  · cases h
  · rename_i apiKeys hload
    split at h
    · cases h
    · cases h
      rw [loadVars_eq (parsed_of_loadVars hload)] at hload
      exact (Except.ok.inj hload).symm

/-- The bytes of a text of visible characters. -/
def headerBytes (text : List Char) : List UInt8 := text.map fun c => UInt8.ofNat c.toNat

/-- A character that a header may carry. -/
def visibleChar (c : Char) : Bool := c == '\t' || (' ' ≤ c && c ≤ '~')

theorem toNat_of_visibleChar {c : Char} (h : visibleChar c = true) :
    c.toNat = 9 ∨ 32 ≤ c.toNat ∧ c.toNat < 127 := by
  rcases Bool.or_eq_true_iff.mp h with h | h
  · rw [beq_iff_eq] at h
    subst h
    exact Or.inl rfl
  · obtain ⟨hlow, hhigh⟩ := Bool.and_eq_true_iff.mp h
    have hlow : ' ' ≤ c := of_decide_eq_true hlow
    have hhigh : c ≤ '~' := of_decide_eq_true hhigh
    exact Or.inr ⟨hlow, Nat.lt_succ_of_le hhigh⟩

theorem headerText_headerBytes {text : List Char} (h : ∀ c ∈ text, visibleChar c = true) :
    headerText (headerBytes text) = some text := by
  have hbyte : ∀ c ∈ text, (UInt8.ofNat c.toNat).toNat = c.toNat := by
    intro c hc
    have hc := toNat_of_visibleChar (h c hc)
    rw [UInt8.toNat_ofNat']
    exact Nat.mod_eq_of_lt (by omega)
  have hall : (headerBytes text).all visibleByte = true := by
    rw [headerBytes, List.all_map, List.all_eq_true]
    intro c hc
    have hnat := hbyte c hc
    rcases toNat_of_visibleChar (h c hc) with hc | hc
    · simp [visibleByte, hc]
    · simp [visibleByte, UInt8.le_iff_toNat_le, UInt8.lt_iff_toNat_lt, hnat, hc]
  rw [headerText, if_pos hall, headerBytes, List.map_map]
  refine congrArg some ((List.map_congr_left fun c hc => ?_).trans (List.map_id text))
  rw [Function.comp, hbyte c hc, Char.ofNat_toNat]
  rfl

/-- **Who authenticates in an environment**: who names a token of it, as the client of the last
variable with the token; so whoever sends the value of a variable, when its characters are
visible, authenticates, and as the client of that variable unless another one has the same
token. -/
theorem bearer_authenticates (h : loadApiKeyFromEnv vars = .ok apiRegistry) :
    (∀ authorization clientConfig, authMiddleware apiRegistry authorization = .ok clientConfig
      ↔ ∃ value header token, authorization = some value ∧ headerText value = some header
        ∧ BearerOf token header ∧ (loadedKeys vars).reverse.lookup token = some clientConfig)
    ∧ ∀ v ∈ vars, (stripPrefix "LOBBY_API_KEY_".toList v.1.toList).isSome →
      (∀ c ∈ v.2.toList, visibleChar c = true) →
      ∃ x clientConfig, parseApiKey v.1 v.2 = .ok x
        ∧ authMiddleware apiRegistry (some (headerBytes ("Bearer ".toList ++ v.2.toList)))
          = .ok clientConfig
        ∧ ((∀ y ∈ loadedKeys vars, y.1 = x.1 → y.2 = x.2) → clientConfig = x.2) := by
  have hlookup : ∀ token, apiRegistry.lookup token = (loadedKeys vars).reverse.lookup token := by
    intro token
    rw [loaded_eq h, lookup_assignAll_eq, AList.lookup_empty, Option.or_none]
  constructor
  · intro authorization clientConfig
    rw [authMiddleware_eq_ok_iff]
    simp only [hlookup]
  · intro v hv hprefix hvisible
    obtain ⟨x, hx⟩ := parsed_of_loaded h v hv hprefix
    have hmem : x ∈ loadedKeys vars := by
      refine List.mem_filterMap.mpr ⟨v, hv, ?_⟩
      obtain ⟨suffix, hsuffix⟩ := Option.isSome_iff_exists.mp hprefix
      rw [hsuffix, hx]
      rfl
    -- the value has three parts, and the first is the token
    have hbearer : BearerOf x.1 ("Bearer ".toList ++ v.2.toList) := by
      rw [parseApiKey] at hx
      split at hx
      · rename_i apiToken clientId fromAddress hsplit
        obtain ⟨hvalue, htoken, hclient, hfrom⟩ := splitOn_eq_three_iff.mp hsplit
        have hfirst : x.1 = String.ofList apiToken := by
          split at hx
          · cases hx
          · split at hx
            · cases hx
            · cases hx
              rfl
        have htext : x.1.toList = apiToken := by rw [hfirst]; exact String.toList_ofList
        exact ⟨clientId, fromAddress, by rw [htext, hvalue], by rwa [htext], hclient, hfrom⟩
      · cases hx
    have hsome : ((loadedKeys vars).reverse.lookup x.1).isSome :=
      List.lookup_isSome_iff.mpr ⟨x, List.mem_reverse.mpr hmem, beq_self_eq_true x.1⟩
    obtain ⟨clientConfig, hclient⟩ := Option.isSome_iff_exists.mp hsome
    refine ⟨x, clientConfig, hx, ?_, fun hone => ?_⟩
    · refine authMiddleware_eq_ok_iff.mpr ⟨_, _, x.1, rfl, headerText_headerBytes ?_, hbearer, ?_⟩
      · intro c hc
        rcases List.mem_append.mp hc with hc | hc
        · exact List.all_eq_true.mp (by decide : "Bearer ".toList.all visibleChar = true) c hc
        · exact hvisible c hc
      · rw [hlookup, hclient]
    · rw [← hlookup, loaded_eq h] at hclient
      rcases mem_of_lookup_assignAll hclient with hmem' | hempty
      · exact hone _ hmem' rfl
      · cases hempty

end keys

/-- The value of a key, with the address of the private key 1. -/
def sampleApiKey : String :=
  "lobby_live_1:00000000000000000000000000000007:0x7e5f4552091a69125d5dfcb7b8c2659029395bdf"

def sampleKeyVars : List (String × String) := [("LOBBY_API_KEY_1", sampleApiKey)]

def sampleRegistry : ApiRegistry := (loadApiKeyFromEnv sampleKeyVars).toOption.getD ∅

/-- The header of the client of the key. -/
def sampleBearer : List UInt8 := headerBytes ("Bearer ".toList ++ sampleApiKey.toList)

theorem sampleRegistry_loaded : loadApiKeyFromEnv sampleKeyVars = .ok sampleRegistry := by
  have hload : (loadApiKeyFromEnv sampleKeyVars).toOption.isSome = true := by decide +kernel
  rw [sampleRegistry]
  cases hresult : loadApiKeyFromEnv sampleKeyVars with
  | error e =>
      rw [hresult] at hload
      cases hload
  | ok apiRegistry => rfl

/-- The client of the variable authenticates with its value. -/
theorem bearer_authenticates_sample :
    ∃ clientConfig, authMiddleware sampleRegistry (some sampleBearer) = .ok clientConfig := by
  have hvisible : sampleApiKey.toList.all visibleChar = true := by decide +kernel
  obtain ⟨-, clientConfig, -, hauth, -⟩ := (bearer_authenticates sampleRegistry_loaded).2
    ("LOBBY_API_KEY_1", sampleApiKey) List.mem_cons_self (by decide +kernel)
    (List.all_eq_true.mp hvisible)
  exact ⟨clientConfig, hauth⟩

/-! ## Reading a status back -/

/-- The status in a response is read back. -/
theorem readStatusResponse_statusResponseJson (rawId : String) (status : PipelineStatus) :
    readStatusResponse (statusResponseJson rawId status) = some (rawId, status) := by
  have hobject : readObject quoted (statusResponseJson rawId status).toList
      = some ((("execution_id", rawId) :: status.fields).map
        fun f => (f.1.toList, f.2.toList)) := by
    rw [statusResponseJson, String.toList_ofList]
    exact readObject_objectText _ _
  have hback : ((fun m : Member (List Char) => (String.ofList m.1, String.ofList m.2)) ∘
      fun f : String × String => (f.1.toList, f.2.toList)) = id := by
    funext f
    simp
  rw [readStatusResponse, hobject]
  simp only [Option.bind_eq_bind, Option.bind_some, List.map_map, hback, List.map_id]
  cases status <;> simp [PipelineStatus.fields, PipelineStatus.ofFields, List.lookup]

/-- **An accepted request can be followed.**  The id in the response of an accepted request is
one under which every client that authenticates finds the status of the execution. -/
theorem getStatus_of_accepted {request : PostRequest} {executionId : ExecutionId}
    {outcome : Except BackpressureTimeout Unit} {rawId message id : String}
    (h : (postResponse request executionId outcome).body = .accepted rawId message id)
    {apiRegistry : ApiRegistry} {registry : StatusRegistry} {authorization : Option (List UInt8)}
    {clientConfig : ClientConfig}
    (hauth : authMiddleware apiRegistry authorization = .ok clientConfig) :
    outcome = .ok () ∧ id = request.body.id
    ∧ (registry.get executionId = none →
      (getStatus apiRegistry registry authorization rawId).status = 404)
    ∧ ∀ status, registry.get executionId = some status →
      getStatus apiRegistry registry authorization rawId
        = ⟨200, .status (statusResponseJson rawId status)⟩ := by
  cases outcome with
  | error err =>
      rw [postResponse, RequestError.intoResponse] at h
      cases h
  | ok _ =>
      rw [postResponse, ResponseBody.accepted.injEq] at h
      obtain ⟨rfl, -, rfl⟩ := h
      have hid := parseUuid_display executionId
      refine ⟨rfl, rfl, fun hnone => ?_, fun status hsome => ?_⟩
      · simp only [getStatus, hauth, getTransactionStatus, hid, hnone]
        rfl
      · simp only [getStatus, hauth, getTransactionStatus, hid, hsome]

end Lobby
