/-
# The endpoints of the RPC client

`build_rpc_client` scans the environment for the variables `RPC_ENDPOINT_<chain>`, each with
urls separated by commas, and makes two pools of every list: one for the broadcast actor and
one for the validator.

It succeeds exactly when every such variable names a chain and lists http urls only, and one
of them lists a url at all; then the two pools of a chain have the urls of the last variable
that names it, in order, and no two chains or actors share a pool (`buildRpcClient_iff`).  So a
sticky index means the same node to both actors.
-/
import Lobby.StatsCache
import Lobby.Text

namespace Lobby

open Text

/-! ## One variable -/

/-- `ChainId::from_str`: an `i64` that is not negative. -/
def chainIdFromStr (s : List Char) : Option ChainId :=
  (parseSigned 10 (2 ^ 63) s).bind fun value =>
    if value < 0 then none else some ⟨BitVec.ofNat 256 value.toNat⟩

/-- The urls of a value: split at the commas, without the white space around them. -/
def urlsOf (value : String) : List String :=
  ((value.toList.splitOn ',').map trimText).filterMap fun url =>
    if url = [] then none else some (String.ofList url)

/-- `Url::parse`: the scheme of a url, or the text of the error. -/
abbrev UrlParser : Type := String → Except String String

/-- `create_unary_provider`; its provider is known by the url. -/
def createUnaryProvider (parse : UrlParser) (url : String) : Except LobbyRpcError Unit :=
  match parse url with
  | .error e => .error (.invalidUrl ("Failed to parse URL: " ++ e))
  | .ok scheme =>
    if scheme ≠ "http" ∧ scheme ≠ "https" then
      .error (.invalidUrl ("Unary provider requires http:// or https:// scheme, got: " ++ scheme))
    else .ok ()

def SelectActor.name : SelectActor → String
  | .broadcast => "broadcast"
  | .validator => "validator"

/-- An endpoint without any requests yet. -/
def freshEntry {F : Type} [F64 F] (actor : SelectActor) (chainId : ChainId) (index : ℕ)
    (url : String) : EndpointEntry F where
  id := actor.name ++ "-" ++ chainId.id.toNat.repr ++ "-" ++ index.repr
  url := url
  metrics := .new

/-- The loop over the urls of a variable, with the pools of the broadcast actor and of the
validator. -/
def addEndpoints {F : Type} [F64 F] (parse : UrlParser) (chainId : ChainId) :
    ℕ → List String → List (EndpointEntry F) × List (EndpointEntry F) →
      Except LobbyRpcError (List (EndpointEntry F) × List (EndpointEntry F))
  | _, [], pools => .ok pools
  | index, url :: urls, (broadcastPool, validatorPool) => do
    createUnaryProvider parse url
    createUnaryProvider parse url
    addEndpoints parse chainId (index + 1) urls
      (broadcastPool ++ [freshEntry .broadcast chainId index url],
        validatorPool ++ [freshEntry .validator chainId index url])

/-! ## The client -/

/-- The client while it is built. -/
structure ClientBuilder (F : Type) where
  client : RpcClient F
  /-- the reference of the next pool -/
  nextPool : PoolRef
  foundEndpoints : Bool

section build

variable {F : Type} [F64 F]

def ClientBuilder.start : ClientBuilder F := ⟨.new fun _ => [], 0, false⟩

/-- The client with two more pools, registered for a chain. -/
def ClientBuilder.register (b : ClientBuilder F) (chainId : ChainId)
    (pools : List (EndpointEntry F) × List (EndpointEntry F)) : ClientBuilder F where
  client := { b.client with
    pools := Function.update (Function.update b.client.pools b.nextPool pools.1)
      (b.nextPool + 1) pools.2 }.registerChain chainId b.nextPool (b.nextPool + 1)
  nextPool := b.nextPool + 2
  foundEndpoints := true

/-- One round of the loop over the variables. -/
def ClientBuilder.readVar (parse : UrlParser) (b : ClientBuilder F) (var : String × String) :
    Except LobbyRpcError (ClientBuilder F) :=
  match stripPrefix "RPC_ENDPOINT_".toList var.1.toList with
  | none => .ok b
  | some chainIdStr =>
    match chainIdFromStr chainIdStr with
    | none =>
      .error (.providerConstructionError
        ("Invalid chain ID in environment variable: " ++ var.1))
    | some chainId =>
      if urlsOf var.2 = [] then .ok b
      else (addEndpoints parse chainId 0 (urlsOf var.2) ([], [])).map (b.register chainId)

/-- `build_rpc_client`, over the variables in the order in which they are listed. -/
def buildRpcClient (parse : UrlParser) (vars : List (String × String)) :
    Except LobbyRpcError (RpcClient F) :=
  match vars.foldlM (ClientBuilder.readVar parse) .start with
  | .error e => .error e
  | .ok b =>
    if b.foundEndpoints then .ok b.client
    else .error (.providerConstructionError "No RPC_ENDPOINT_* environment variables found")

end build

/-! ## What the environment says -/

/-- The chain and the urls that a variable lists. -/
def listing (var : String × String) : Option (ChainId × List String) :=
  (stripPrefix "RPC_ENDPOINT_".toList var.1.toList).bind fun chainIdStr =>
    (chainIdFromStr chainIdStr).bind fun chainId =>
      if urlsOf var.2 = [] then none else some (chainId, urlsOf var.2)

/-- A url with one of the two schemes. -/
def HttpUrl (parse : UrlParser) (url : String) : Prop :=
  parse url = .ok "http" ∨ parse url = .ok "https"

/-- A variable for endpoints names a chain and lists http urls. -/
def WellFormedVar (parse : UrlParser) (var : String × String) : Prop :=
  ∀ chainIdStr, stripPrefix "RPC_ENDPOINT_".toList var.1.toList = some chainIdStr →
    (chainIdFromStr chainIdStr).isSome ∧ ∀ url ∈ urlsOf var.2, HttpUrl parse url

instance (parse : UrlParser) (url : String) : Decidable (HttpUrl parse url) :=
  match hparse : parse url with
  | .ok scheme =>
    decidable_of_iff (scheme = "http" ∨ scheme = "https") (by simp [HttpUrl, hparse])
  | .error _ => isFalse (by simp [HttpUrl, hparse])

instance (parse : UrlParser) (var : String × String) : Decidable (WellFormedVar parse var) :=
  match hkey : stripPrefix "RPC_ENDPOINT_".toList var.1.toList with
  | none => isTrue fun _ hsome => (by rw [hkey] at hsome; cases hsome)
  | some chainIdStr =>
    decidable_of_iff
      ((chainIdFromStr chainIdStr).isSome ∧ ∀ url ∈ urlsOf var.2, HttpUrl parse url)
      ⟨fun h s hs => by rw [hkey] at hs; cases hs; exact h, fun h => h chainIdStr hkey⟩

/-- The endpoints of a chain for an actor. -/
def RpcClient.endpoints {F : Type} (c : RpcClient F) (actor : SelectActor) (chainId : ChainId) :
    Option (List (EndpointEntry F)) :=
  (c.getPool actor chainId).map c.pools

/-- The pools of the client are those that the variables list. -/
structure RpcClient.Serves {F : Type} [F64 F] (c : RpcClient F) (vars : List (String × String)) :
    Prop where
  endpoints : ∀ actor chainId, c.endpoints actor chainId
    = ((vars.filterMap listing).reverse.lookup chainId).map
        fun urls => urls.mapIdx (freshEntry actor chainId)
  separate : ∀ actor actor' chainId chainId' pool, c.getPool actor chainId = some pool →
    c.getPool actor' chainId' = some pool → actor = actor' ∧ chainId = chainId'

/-- A pool that is registered has the urls of some list, and no requests yet. -/
theorem RpcClient.Serves.pools_eq {F : Type} [F64 F] {c : RpcClient F}
    {vars : List (String × String)} (h : c.Serves vars) {actor : SelectActor} {chainId : ChainId}
    {pool : PoolRef} (hpool : c.getPool actor chainId = some pool) :
    ∃ urls : List String, c.pools pool = urls.mapIdx (freshEntry actor chainId) := by
  have hpools := h.endpoints actor chainId
  rw [RpcClient.endpoints, hpool, Option.map_some] at hpools
  obtain ⟨urls, -, hurls⟩ := Option.map_eq_some_iff.mp hpools.symm
  exact ⟨urls, hurls.symm⟩

/-! ## The loop over the urls -/

section

variable {F : Type} [F64 F] {parse : UrlParser} {chainId : ChainId} {url : String}
  {b b' : ClientBuilder F} {vars : List (String × String)} {var : String × String}

theorem createUnaryProvider_eq_ok_iff {u : Unit} :
    createUnaryProvider parse url = .ok u ↔ HttpUrl parse url := by
  rw [createUnaryProvider, HttpUrl]
  cases hparse : parse url with
  | error e => simp
  | ok scheme =>
      dsimp only
      by_cases hscheme : scheme ≠ "http" ∧ scheme ≠ "https"
      · simp [hscheme]
      · rw [if_neg hscheme]
        simp only [Except.ok.injEq, true_iff]
        tauto

/-- Every url becomes an endpoint of both pools, in its place. -/
theorem addEndpoints_eq_ok_iff (index : ℕ) (urls : List String)
    (pools pools' : List (EndpointEntry F) × List (EndpointEntry F)) :
    addEndpoints parse chainId index urls pools = .ok pools' ↔
      (∀ url ∈ urls, HttpUrl parse url)
      ∧ pools' = (pools.1 ++ urls.mapIdx (fun i => freshEntry .broadcast chainId (index + i)),
          pools.2 ++ urls.mapIdx (fun i => freshEntry .validator chainId (index + i))) := by
  induction urls generalizing index pools with
  | nil =>
      simp only [addEndpoints, Except.ok.injEq, List.mapIdx_nil, List.append_nil]
      exact ⟨fun h => ⟨by simp, h.symm⟩, fun h => h.2.symm⟩
  | cons url urls ih =>
      obtain ⟨broadcastPool, validatorPool⟩ := pools
      rw [addEndpoints]
      cases hprovider : createUnaryProvider parse url with
      | error e =>
          have hurl : ¬ HttpUrl parse url := fun hurl => by
            rw [createUnaryProvider_eq_ok_iff (u := ()).mpr hurl] at hprovider
            cases hprovider
          refine ⟨fun h => ?_, fun h => absurd (h.1 url List.mem_cons_self) hurl⟩
          cases h
      | ok u =>
          have hurl := createUnaryProvider_eq_ok_iff.mp hprovider
          -- the url goes to both pools, under the same index
          refine (ih (index + 1) _).trans ?_
          rw [List.forall_mem_cons]
          simp only [hurl, true_and, List.mapIdx_cons, List.append_assoc, List.cons_append,
            List.nil_append, Nat.add_zero, Nat.add_assoc, Nat.add_comm 1]

/-! ## The loop over the variables -/

/-- The client with the pools of one more list of urls. -/
def ClientBuilder.add (b : ClientBuilder F) (listed : ChainId × List String) : ClientBuilder F :=
  b.register listed.1 (listed.2.mapIdx (freshEntry .broadcast listed.1),
    listed.2.mapIdx (freshEntry .validator listed.1))

theorem readVar_eq_ok_iff : b.readVar parse var = .ok b' ↔
    WellFormedVar parse var ∧ b' = (listing var).toList.foldl ClientBuilder.add b := by
  rw [ClientBuilder.readVar, listing, WellFormedVar]
  cases hkey : stripPrefix "RPC_ENDPOINT_".toList var.1.toList with
  | none =>
      exact ⟨fun h => ⟨fun _ hsome => (by cases hsome), (Except.ok.inj h).symm⟩,
        fun h => congrArg Except.ok h.2.symm⟩
  | some chainIdStr =>
      dsimp only
      cases hchain : chainIdFromStr chainIdStr with
      | none =>
          refine ⟨fun h => (by cases h), fun h => ?_⟩
          obtain ⟨hsome, -⟩ := h.1 chainIdStr rfl
          rw [hchain] at hsome
          cases hsome
      | some chainId =>
          simp only [Option.some.injEq, forall_eq', hchain, Option.isSome_some, true_and,
            Option.bind_some]
          -- a chain without urls is passed over
          by_cases hurls : urlsOf var.2 = []
          · rw [if_pos hurls, if_pos hurls, hurls]
            exact ⟨fun h => ⟨by simp, (Except.ok.inj h).symm⟩, fun h => h.2 ▸ rfl⟩
          · rw [if_neg hurls, if_neg hurls]
            simp only [Option.toList_some, List.foldl_cons, List.foldl_nil, ClientBuilder.add]
            constructor
            · intro h
              cases hpools : addEndpoints parse chainId 0 (urlsOf var.2)
                  (([], []) : List (EndpointEntry F) × List (EndpointEntry F)) with
              | error e =>
                  rw [hpools] at h
                  cases h
              | ok pools =>
                  rw [hpools] at h
                  obtain ⟨hhttp, rfl⟩ := (addEndpoints_eq_ok_iff 0 _ _ _).mp hpools
                  refine ⟨hhttp, ?_⟩
                  simpa using (Except.ok.inj h).symm
            · rintro ⟨hhttp, rfl⟩
              rw [(addEndpoints_eq_ok_iff 0 _ _ _).mpr ⟨hhttp, rfl⟩]
              simp [Except.map]

theorem readVars_eq_ok_iff : vars.foldlM (ClientBuilder.readVar parse) b = .ok b' ↔
    (∀ var ∈ vars, WellFormedVar parse var)
      ∧ b' = (vars.filterMap listing).foldl ClientBuilder.add b := by
  induction vars generalizing b with
  | nil => simp [pure, Except.pure, eq_comm]
  | cons var vars ih =>
      rw [List.foldlM_cons, List.forall_mem_cons, List.filterMap_cons]
      cases hread : b.readVar parse var with
      | error e =>
          have hvar : ¬ WellFormedVar parse var := fun hvar => by
            rw [readVar_eq_ok_iff.mpr ⟨hvar, rfl⟩] at hread
            cases hread
          refine ⟨fun h => ?_, fun h => absurd h.1.1 hvar⟩
          cases h
      | ok b₁ =>
          obtain ⟨hvar, rfl⟩ := readVar_eq_ok_iff.mp hread
          refine ih.trans ?_
          simp only [hvar, true_and]
          cases listing var <;> rfl

/-! ## The pools -/

/-- What holds of the client after some lists of urls. -/
structure ClientBuilder.Built (b : ClientBuilder F) (listed : List (ChainId × List String)) :
    Prop where
  endpoints : ∀ actor chainId, b.client.endpoints actor chainId
    = (listed.reverse.lookup chainId).map fun urls => urls.mapIdx (freshEntry actor chainId)
  separate : ∀ actor actor' chainId chainId' pool, b.client.getPool actor chainId = some pool →
    b.client.getPool actor' chainId' = some pool → actor = actor' ∧ chainId = chainId'
  allocated : ∀ actor chainId pool, b.client.getPool actor chainId = some pool →
    pool < b.nextPool
  found : b.foundEndpoints = !listed.isEmpty

/-- The reference of the pool of an actor among the two new ones. -/
def newPool (nextPool : PoolRef) : SelectActor → PoolRef
  | .broadcast => nextPool
  | .validator => nextPool + 1

omit [F64 F] in
theorem getPool_register (b : ClientBuilder F) (chainId chainId' : ChainId)
    (pools : List (EndpointEntry F) × List (EndpointEntry F)) (actor : SelectActor) :
    (b.register chainId pools).client.getPool actor chainId'
      = if chainId' = chainId then some (newPool b.nextPool actor)
        else b.client.getPool actor chainId' := by
  cases actor <;>
    simp [ClientBuilder.register, RpcClient.registerChain, RpcClient.getPool, newPool,
      Function.update_apply]

theorem ClientBuilder.Built.add {listed : List (ChainId × List String)} (h : b.Built listed)
    (x : ChainId × List String) : (b.add x).Built (listed ++ [x]) := by
  obtain ⟨chainId, urls⟩ := x
  have hpool : ∀ actor chainId', (b.add (chainId, urls)).client.getPool actor chainId'
      = if chainId' = chainId then some (newPool b.nextPool actor)
        else b.client.getPool actor chainId' :=
    fun actor chainId' => getPool_register b chainId chainId' _ actor
  refine ⟨fun actor chainId' => ?_, fun actor actor' chainId₁ chainId₂ pool h₁ h₂ => ?_,
    fun actor chainId' pool hget => ?_, ?_⟩
  · rw [RpcClient.endpoints, hpool, List.reverse_append, List.reverse_singleton,
      List.singleton_append, List.lookup_cons]
    by_cases hchain : chainId' = chainId
    · subst hchain
      simp only [if_pos, beq_self_eq_true, Option.map_some]
      cases actor <;> simp [newPool, ClientBuilder.add, ClientBuilder.register,
        RpcClient.registerChain]
    · have hbeq : (chainId' == chainId) = false := beq_eq_false_iff_ne.mpr hchain
      rw [if_neg hchain, hbeq]
      -- the pools of the other chains are older than the new ones
      refine Eq.trans ?_ (h.endpoints actor chainId')
      rw [RpcClient.endpoints]
      cases hget : b.client.getPool actor chainId' with
      | none => rfl
      | some pool =>
          have hlt := h.allocated actor chainId' pool hget
          simp only [Option.map_some, ClientBuilder.add, ClientBuilder.register,
            RpcClient.registerChain]
          rw [Function.update_of_ne (Nat.ne_of_lt (Nat.lt_succ_of_lt hlt)),
            Function.update_of_ne (Nat.ne_of_lt hlt)]
  · rw [hpool] at h₁ h₂
    have hnew : ∀ actor, b.nextPool ≤ newPool b.nextPool actor := by
      intro actor
      cases actor <;> simp [newPool]
    by_cases hchain₁ : chainId₁ = chainId <;> by_cases hchain₂ : chainId₂ = chainId
    · rw [if_pos hchain₁] at h₁
      rw [if_pos hchain₂, ← h₁, Option.some.injEq] at h₂
      refine ⟨?_, hchain₁.trans hchain₂.symm⟩
      cases actor <;> cases actor' <;> simp_all [newPool]
    · rw [if_pos hchain₁] at h₁
      rw [if_neg hchain₂] at h₂
      have hlt := h.allocated _ _ _ h₂
      cases h₁
      exact absurd hlt (Nat.not_lt.mpr (hnew actor))
    · rw [if_neg hchain₁] at h₁
      rw [if_pos hchain₂] at h₂
      have hlt := h.allocated _ _ _ h₁
      cases h₂
      exact absurd hlt (Nat.not_lt.mpr (hnew actor'))
    · rw [if_neg hchain₁] at h₁
      rw [if_neg hchain₂] at h₂
      exact h.separate _ _ _ _ _ h₁ h₂
  · show pool < b.nextPool + 2
    rw [hpool] at hget
    by_cases hchain : chainId' = chainId
    · rw [if_pos hchain] at hget
      cases hget
      cases actor <;> simp [newPool]
    · rw [if_neg hchain] at hget
      exact Nat.lt_add_right 2 (h.allocated _ _ _ hget)
  · simp [ClientBuilder.add, ClientBuilder.register]

theorem built_foldl (listed : List (ChainId × List String)) :
    (listed.foldl ClientBuilder.add (ClientBuilder.start : ClientBuilder F)).Built listed := by
  induction listed using List.reverseRecOn with
  | nil =>
      have hnone : ∀ (actor : SelectActor) (chainId : ChainId),
          (ClientBuilder.start : ClientBuilder F).client.getPool actor chainId = none := by
        intro actor chainId
        cases actor <;> rfl
      refine ⟨fun actor chainId => ?_, fun actor _ chainId _ _ h => ?_,
        fun actor chainId _ h => ?_, rfl⟩
      · rw [List.foldl_nil, RpcClient.endpoints, hnone]
        rfl
      · rw [List.foldl_nil, hnone] at h
        cases h
      · rw [List.foldl_nil, hnone] at h
        cases h
  | append_singleton listed x ih =>
      rw [List.foldl_append]
      exact ih.add x

theorem buildRpcClient_eq_ok_iff {client : RpcClient F} :
    buildRpcClient parse vars = .ok client ↔
      (∀ var ∈ vars, WellFormedVar parse var) ∧ (∃ var ∈ vars, (listing var).isSome)
      ∧ client = ((vars.filterMap listing).foldl ClientBuilder.add .start).client := by
  have hfound : (!(vars.filterMap listing).isEmpty) = true
      ↔ ∃ var ∈ vars, (listing var).isSome := by
    simp [List.isEmpty_eq_false_iff, Option.isSome_iff_ne_none]
  rw [buildRpcClient]
  cases hread : vars.foldlM (ClientBuilder.readVar parse)
      (ClientBuilder.start : ClientBuilder F) with
  | error e =>
      refine ⟨fun h => (by cases h), fun h => ?_⟩
      rw [readVars_eq_ok_iff.mpr ⟨h.1, rfl⟩] at hread
      cases hread
  | ok b =>
      obtain ⟨hwell, rfl⟩ := readVars_eq_ok_iff.mp hread
      dsimp only
      rw [(built_foldl _).found, ← hfound]
      by_cases hsome : (!(vars.filterMap listing).isEmpty) = true
      · simp only [if_pos hsome, Except.ok.injEq]
        exact ⟨fun h => ⟨hwell, hsome, h.symm⟩, fun h => h.2.2.symm⟩
      · rw [if_neg hsome]
        exact ⟨fun h => (by cases h), fun h => absurd h.2.1 hsome⟩

theorem serves_of_buildRpcClient {client : RpcClient F}
    (h : buildRpcClient parse vars = .ok client) : client.Serves vars := by
  obtain ⟨-, -, rfl⟩ := buildRpcClient_eq_ok_iff.mp h
  exact ⟨(built_foldl _).endpoints, (built_foldl _).separate⟩

/-- **The client has the endpoints that the environment lists, and no others.** -/
theorem buildRpcClient_iff (parse : UrlParser) (vars : List (String × String)) :
    ((∃ client : RpcClient F, buildRpcClient parse vars = .ok client) ↔
      (∀ var ∈ vars, WellFormedVar parse var) ∧ ∃ var ∈ vars, (listing var).isSome)
    ∧ ∀ client : RpcClient F, buildRpcClient parse vars = .ok client → client.Serves vars := by
  refine ⟨⟨?_, ?_⟩, fun client => serves_of_buildRpcClient⟩
  · rintro ⟨client, hclient⟩
    obtain ⟨hwell, hsome, -⟩ := buildRpcClient_eq_ok_iff.mp hclient
    exact ⟨hwell, hsome⟩
  · rintro ⟨hwell, hsome⟩
    exact ⟨_, buildRpcClient_eq_ok_iff.mpr ⟨hwell, hsome, rfl⟩⟩

end

/-! ## A small environment -/

/-- A parser that reads the scheme in front of `://`. -/
def schemeOf (url : String) : Except String String :=
  let scheme := url.toList.takeWhile (· ≠ ':')
  if (stripPrefix (scheme ++ "://".toList) url.toList).isSome then .ok (String.ofList scheme)
  else .error "relative URL without a base"

def sampleEndpointVars : List (String × String) :=
  [("RPC_ENDPOINT_01", "http://old"), ("PATH", "/bin"),
    ("RPC_ENDPOINT_1", " http://localhost:8545 ,https://node.example,")]

theorem sampleEndpointVars_wellFormed :
    ∀ var ∈ sampleEndpointVars, WellFormedVar schemeOf var := by
  decide +kernel

theorem sampleEndpointVars_listing : ∃ var ∈ sampleEndpointVars, (listing var).isSome :=
  ⟨sampleEndpointVars.head!, by decide +kernel⟩

/-- The later list of a chain is the one that counts. -/
theorem buildRpcClient_sample :
    ∃ client : RpcClient Float, buildRpcClient schemeOf sampleEndpointVars = .ok client
      ∧ (client.endpoints .validator ⟨1⟩).map (·.map fun entry => (entry.id, entry.url))
        = some [("validator-1-0", "http://localhost:8545"),
            ("validator-1-1", "https://node.example")] := by
  obtain ⟨hok, hserves⟩ := buildRpcClient_iff (F := Float) schemeOf sampleEndpointVars
  obtain ⟨client, hclient⟩ :=
    hok.mpr ⟨sampleEndpointVars_wellFormed, sampleEndpointVars_listing⟩
  refine ⟨client, hclient, ?_⟩
  rw [(hserves client hclient).endpoints]
  decide +kernel

end Lobby
