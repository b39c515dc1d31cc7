/-
# API keys

`generate_api_keys` writes one line `export LOBBY_API_KEY_<N>="<token>:<client>:<address>"`
for each account of `test_keys.json`, and `load_api_key_from_env` reads every variable with
that prefix back.  The number `N` is what follows `account` in the name of the account, and
zero when that is no number; the shell keeps the last line of each variable.

Every account is loaded exactly when no two of them share a variable
(`generated_keys_load_iff`).  The names `account_1`, `account_2` of the README share
`LOBBY_API_KEY_0`.
-/
import Lobby.StatusRestart
import Lobby.Rlp
import Lobby.Assignments

namespace Lobby

open Text Assignments Rlp

/-! ## The generator -/

/-- `serde_json::Value`. -/
inductive Value : Type where
  | null
  | bool (b : Bool)
  | number (text : String)
  | string (text : String)
  | array (items : List Value)
  | object (fields : List (String × Value))

namespace Value

def get (v : Value) (key : String) : Option Value :=
  match v with
  | object fields => fields.lookup key
  | _ => none

def asStr (v : Value) : Option String :=
  match v with
  | string text => some text
  | _ => none

end Value

/-- The UUIDs that `Uuid::new_v4` draws for the account of each name. -/
structure FreshUuids where
  clientId : String → BitVec 128
  token : String → BitVec 128

/-- The number in the name of an account, a `usize`. -/
def accountNum (accountName : String) : ℕ :=
  ((stripPrefix "account".toList accountName.toList).bind (parseUnsigned 10 (2 ^ 64))).getD 0

/-- `lobby_live_` and nine digits of a UUID. -/
def apiToken (uuid : BitVec 128) : String :=
  "lobby_live_" ++ String.ofList ((fixedDigits 16 32 uuid.toNat).take 9)

/-- The line of one account. -/
def envVarLine (accountNum : ℕ) (apiToken clientId fromAddress : String) : String :=
  "export LOBBY_API_KEY_" ++ accountNum.repr ++ "=\"" ++ apiToken ++ ":" ++ clientId ++ ":"
    ++ fromAddress ++ "\""

/-- The field `address` of an account, when it is a string. -/
def addressText (accountData : Value) : Option String :=
  (accountData.get "address").bind Value.asStr

/-- The loop over the accounts. -/
def envLines (uuids : FreshUuids) : List (String × Value) → Except String (List String)
  | [] => .ok []
  | (accountName, accountData) :: accounts =>
    match addressText accountData with
    | none => .error "missing 'address' field in account entry"
    | some fromAddress =>
      (envLines uuids accounts).map
        (envVarLine (accountNum accountName) (apiToken (uuids.token accountName))
          (ExecutionId.mk (uuids.clientId accountName)).display fromAddress :: ·)

/-- `main`: the lines it appends to `.env`. -/
def generateApiKeys (uuids : FreshUuids) (parsed : Value) : Except String (List String) :=
  match parsed with
  | .object object => envLines uuids object
  | _ => .error "test_keys.json must contain a top-level JSON object"

/-! ## The environment -/

/-- The variables of a process. -/
abbrev Environment := AList fun _ : String => String

/-- `env::vars()`, in some order. -/
def Environment.vars (env : Environment) : List (String × String) :=
  env.entries.map fun x => (x.1, x.2)

/-- A character that has no meaning of its own between double quotes. -/
def plainChar (c : Char) : Bool :=
  c.isAlphanum || c == '_' || c == '-' || c == ':'

/-- What the shell assigns on the line `export NAME="VALUE"`. -/
def readExport (line : String) : Option (String × String) :=
  (stripPrefix "export ".toList line.toList).bind fun rest =>
    let name := rest.takeWhile (· ≠ '=')
    (stripPrefix "=\"".toList (rest.dropWhile (· ≠ '='))).bind fun quoted =>
      let value := quoted.dropLast
      if quoted.getLast? = some '"' ∧ value.all plainChar then
        some (String.ofList name, String.ofList value)
      else none

/-- Run the lines in order. -/
def exportLines : Environment → List String → Option Environment
  | env, [] => some env
  | env, line :: lines =>
    (readExport line).bind fun x => exportLines (env.insert x.1 x.2) lines

/-! ## The loader -/

inductive EnvApiKeyError : Type where
  | invalidClientId (key : String)
  | invalidFromAddress (key : String)
  | invalidApiKey (key : String)
  | apiKeyUnavailable
  deriving DecidableEq

abbrev ApiRegistry := AList fun _ : String => ClientConfig

/-- Forty hexadecimal digits as an address. -/
def addressOfDigits (digits : List Char) : Option Address :=
  if digits.length = 40 then
    (numeral 16 digits).map fun n => ⟨toBe 20 n, length_toBe 20 n⟩
  else none

/-- `Address::from_str`, as `alloy` documents it: forty hex digits of either case, with or
without `0x`; no checksum is asked for. -/
def addressFromStr (s : List Char) : Option Address :=
  addressOfDigits ((stripPrefix "0x".toList s).getD s)

/-- The token and the client of one variable. -/
def parseApiKey (key value : String) : Except EnvApiKeyError (String × ClientConfig) :=
  match value.toList.splitOn ':' with
  | [apiToken, clientId, fromAddress] =>
    match parseUuid clientId with
    | none => .error (.invalidClientId key)
    | some clientId =>
      match addressFromStr fromAddress with
      | none => .error (.invalidFromAddress key)
      | some fromAddress => .ok (String.ofList apiToken, ⟨clientId.uuid, fromAddress⟩)
  | _ => .error (.invalidApiKey key)

/-- The loop over the variables. -/
def loadVars : List (String × String) → ApiRegistry → Except EnvApiKeyError ApiRegistry
  | [], apiKeys => .ok apiKeys
  | (key, value) :: vars, apiKeys =>
    match stripPrefix "LOBBY_API_KEY_".toList key.toList with
    | none => loadVars vars apiKeys
    | some _ =>
      match parseApiKey key value with
      | .error err => .error err
      | .ok x => loadVars vars (apiKeys.insert x.1 x.2)

/-- `load_api_key_from_env`, over the variables in the order in which they are listed. -/
def loadApiKeyFromEnv (vars : List (String × String)) : Except EnvApiKeyError ApiRegistry :=
  match loadVars vars ∅ with
  | .error err => .error err
  | .ok apiKeys => if apiKeys.entries.isEmpty then .error .apiKeyUnavailable else .ok apiKeys

/-! ## What is claimed of them -/

/-- The address of an account. -/
def accountAddress (accountData : Value) : Option Address :=
  (addressText accountData).bind fun text => addressFromStr text.toList

/-- Distinct names, valid addresses and distinct tokens. -/
structure ValidAccounts (uuids : FreshUuids) (accounts : List (String × Value)) : Prop where
  names : (accounts.map Prod.fst).Nodup
  addresses : ∀ x ∈ accounts, (accountAddress x.2).isSome
  tokens : ∀ x ∈ accounts, ∀ y ∈ accounts,
    apiToken (uuids.token x.1) = apiToken (uuids.token y.1) → x.1 = y.1

/-- No API key is set yet. -/
def NoApiKeys (env : Environment) : Prop :=
  ∀ key ∈ env, stripPrefix "LOBBY_API_KEY_".toList key.toList = none

/-- The lines are generated and exported, and whatever order the variables are listed in,
every account is loaded and nothing else. -/
def LoadsAll (uuids : FreshUuids) (accounts : List (String × Value)) (env : Environment) :
    Prop :=
  ∃ lines env', generateApiKeys uuids (.object accounts) = .ok lines
    ∧ exportLines env lines = some env'
    ∧ ∀ vars, vars.Perm env'.vars → ∃ registry, loadApiKeyFromEnv vars = .ok registry
      ∧ registry.entries.length = accounts.length
      ∧ ∀ token config, registry.lookup token = some config ↔
        ∃ x ∈ accounts, token = apiToken (uuids.token x.1)
          ∧ config.clientId = uuids.clientId x.1
          ∧ accountAddress x.2 = some config.fromAddress

/-- `account` and a decimal number below `2 ^ 64`, with an optional plus sign. -/
def Numbered (accountName : String) (n : ℕ) : Prop :=
  ∃ plus digits : List Char, (plus = [] ∨ plus = ['+']) ∧ digits ≠ []
    ∧ accountName.toList = "account".toList ++ plus ++ digits
    ∧ numeral 10 digits = some n ∧ n < 2 ^ 64

/-- Two names with the same number, or both without a number or with the number zero. -/
def SharesVariable (accountName accountName' : String) : Prop :=
  (∃ n, Numbered accountName n ∧ Numbered accountName' n)
    ∨ (∀ n, Numbered accountName n → n = 0) ∧ (∀ n, Numbered accountName' n → n = 0)

/-! ## The texts -/

theorem isAlphanum_of_digit {c : Char} (h : digit? 16 c ≠ none) : c.isAlphanum = true := by
  have hrange : '0' ≤ c ∧ c ≤ '9' ∨ 'a' ≤ c ∧ c ≤ 'z' ∨ 'A' ≤ c ∧ c ≤ 'Z' := by
    by_contra hnone
    rw [not_or, not_or] at hnone
    apply h
    unfold digit?
    dsimp only
    rw [if_neg hnone.1, if_neg hnone.2.1, if_neg hnone.2.2, if_neg (lt_irrefl 16)]
  simp only [Char.isAlphanum, Char.isAlpha, Char.isUpper, Char.isLower, Char.isDigit,
    Bool.or_eq_true, Bool.and_eq_true, decide_eq_true_eq]
  simp only [Char.le_def] at hrange
  rcases hrange with h | h | h
  · exact Or.inr h
  · exact Or.inl (Or.inr h)
  · exact Or.inl (Or.inl h)

theorem mem_hyphenate {ns : List ℕ} {cs : List Char} {c : Char} (h : c ∈ hyphenate ns cs) :
    c = '-' ∨ c ∈ cs := by
  induction ns generalizing cs with
  | nil => exact Or.inr h
  | cons n ns ih =>
      cases ns with
      | nil => exact Or.inr h
      | cons m ns =>
          rw [hyphenate] at h
          · rcases List.mem_append.mp h with hc | hc
            · exact Or.inr (List.mem_of_mem_take hc)
            · rcases List.mem_cons.mp hc with hc | hc
              · exact Or.inl hc
              · exact (ih hc).imp_right List.mem_of_mem_drop
          · simp

theorem fixedDigits_alphanum {k n : ℕ} {c : Char} (hc : c ∈ fixedDigits 16 k n) :
    c.isAlphanum = true := by
  exact isAlphanum_of_digit
    (digit?_ne_none_of_mem (numeral_fixedDigits (by norm_num) (by norm_num) k n) c hc)

/-- Characters that may stand in one part of a value. -/
def partChar (c : Char) : Bool := c.isAlphanum || c == '_' || c == '-'

theorem part_of_alphanum {c : Char} (h : c.isAlphanum = true) : partChar c = true := by
  rw [partChar, h]
  rfl

theorem apiToken_part (uuid : BitVec 128) : ∀ c ∈ (apiToken uuid).toList, partChar c = true := by
  intro c hc
  rw [apiToken, String.toList_append, List.mem_append] at hc
  rcases hc with hc | hc
  · have hall : ("lobby_live_".toList).all partChar = true := by decide +kernel
    exact List.all_eq_true.mp hall c hc
  · rw [String.toList_ofList] at hc
    have hmem : c ∈ fixedDigits 16 32 uuid.toNat := List.mem_of_mem_take hc
    exact part_of_alphanum (fixedDigits_alphanum hmem)

theorem display_part (e : ExecutionId) : ∀ c ∈ e.display.toList, partChar c = true := by
  intro c hc
  rw [ExecutionId.display, String.toList_ofList] at hc
  rcases mem_hyphenate hc with rfl | hc
  · rfl
  · exact part_of_alphanum (fixedDigits_alphanum hc)

theorem address_part {s : List Char} {address : Address} (h : addressFromStr s = some address) :
    ∀ c ∈ s, partChar c = true := by
  have hdigits : ∀ digits : List Char, addressOfDigits digits = some address →
      ∀ c ∈ digits, partChar c = true := by
    intro digits hsome c hc
    rw [addressOfDigits] at hsome
    split at hsome
    · obtain ⟨n, hn, -⟩ := Option.map_eq_some_iff.mp hsome
      exact part_of_alphanum (isAlphanum_of_digit (digit?_ne_none_of_mem hn c hc))
    · cases hsome
  intro c hc
  cases hprefix : stripPrefix "0x".toList s with
  | none =>
      rw [addressFromStr, hprefix] at h
      exact hdigits s h c hc
  | some digits =>
      rw [addressFromStr, hprefix] at h
      rw [stripPrefix_eq_some hprefix] at hc
      rcases List.mem_append.mp hc with hc | hc
      · have hall : ("0x".toList).all partChar = true := by decide +kernel
        exact List.all_eq_true.mp hall c hc
      · exact hdigits digits h c hc

theorem ne_colon_of_part {c : Char} (h : partChar c = true) : (c == ':') = false := by
  rw [beq_eq_false_iff_ne]
  rintro rfl
  exact absurd h (by decide)

theorem plainChar_of_part {c : Char} (h : partChar c = true) : plainChar c = true := by
  rw [plainChar, Bool.or_eq_true]
  exact Or.inl h

/-- The name of a variable. -/
def varName (accountNum : ℕ) : String := "LOBBY_API_KEY_" ++ accountNum.repr

/-- The value of a variable. -/
def keyValue (apiToken clientId fromAddress : String) : String :=
  apiToken ++ ":" ++ clientId ++ ":" ++ fromAddress

section

variable {token clientId fromAddress : String}

theorem keyValue_toList (token clientId fromAddress : String) :
    (keyValue token clientId fromAddress).toList
      = token.toList ++ ':' :: (clientId.toList ++ ':' :: fromAddress.toList) := by
  have hcolon : ":".toList = [':'] := rfl
  simp only [keyValue, String.toList_append, hcolon, List.append_assoc, List.cons_append,
    List.nil_append]

theorem envVarLine_toList (n : ℕ) (token clientId fromAddress : String) :
    (envVarLine n token clientId fromAddress).toList
      = "export ".toList ++ ((varName n).toList ++ ("=\"".toList
        ++ ((keyValue token clientId fromAddress).toList ++ ['"']))) := by
  have hexport : "export LOBBY_API_KEY_".toList
      = "export ".toList ++ "LOBBY_API_KEY_".toList := by decide +kernel
  -- the literals stay closed while the texts are taken apart
  have hparts : ∀ front start name number equals colon quote : String,
      front.toList = start.toList ++ name.toList →
      (front ++ number ++ equals ++ token ++ colon ++ clientId ++ colon ++ fromAddress
        ++ quote).toList
        = start.toList ++ ((name ++ number).toList ++ (equals.toList
          ++ ((token ++ colon ++ clientId ++ colon ++ fromAddress).toList
            ++ quote.toList))) := by
    intro front start name number equals colon quote hfront
    simp only [String.toList_append, hfront, List.append_assoc]
  exact hparts _ _ _ _ _ _ _ hexport

theorem varName_ne_equals (n : ℕ) : ∀ c ∈ (varName n).toList, decide (c ≠ '=') = true := by
  intro c hc
  rw [varName, String.toList_append, List.mem_append] at hc
  rcases hc with hc | hc
  · have hall : ("LOBBY_API_KEY_".toList).all (fun c => decide (c ≠ '=')) = true := by
      decide +kernel
    exact List.all_eq_true.mp hall c hc
  · have hdigit : c.isDigit := by
      rw [Nat.toList_repr] at hc
      exact Nat.isDigit_of_mem_toDigits (by norm_num) (by norm_num) hc
    rw [decide_eq_true_eq]
    rintro rfl
    exact absurd hdigit (by decide)

/-- The shell assigns the value to the variable of a line. -/
theorem readExport_envVarLine (n : ℕ)
    (hvalue : ∀ c ∈ (keyValue token clientId fromAddress).toList, plainChar c = true) :
    readExport (envVarLine n token clientId fromAddress)
      = some (varName n, keyValue token clientId fromAddress) := by
  have hfront : ∀ rest : List Char,
      (("=\"".toList ++ rest).takeWhile (fun c => decide (c ≠ '='))) = [] := fun _ => rfl
  have hback : ∀ rest : List Char,
      (("=\"".toList ++ rest).dropWhile (fun c => decide (c ≠ '='))) = "=\"".toList ++ rest :=
    fun _ => rfl
  rw [readExport, envVarLine_toList, stripPrefix_append, Option.bind_some,
    List.takeWhile_append_of_pos (varName_ne_equals n),
    List.dropWhile_append_of_pos (varName_ne_equals n), hfront, hback, stripPrefix_append,
    Option.bind_some, List.dropLast_concat, List.append_nil]
  have hplain : (keyValue token clientId fromAddress).toList.all plainChar = true :=
    List.all_eq_true.mpr hvalue
  dsimp only
  rw [if_pos ⟨List.getLast?_concat, hplain⟩, String.ofList_toList, String.ofList_toList]

/-- The three parts of a value are read back. -/
theorem parseApiKey_keyValue {address : Address} (key : String) (uuid client : BitVec 128)
    (h : addressFromStr fromAddress.toList = some address) :
    parseApiKey key (keyValue (apiToken uuid) (ExecutionId.mk client).display fromAddress)
      = .ok (apiToken uuid, ⟨client, address⟩) := by
  have hsplit : (keyValue (apiToken uuid) (ExecutionId.mk client).display
      fromAddress).toList.splitOn ':'
      = [(apiToken uuid).toList, (ExecutionId.mk client).display.toList,
        fromAddress.toList] := by
    rw [keyValue_toList, List.splitOn_eq_splitOnP,
      List.splitOnP_append_cons_of_forall_mem
        (fun c hc => ne_colon_of_part (apiToken_part uuid c hc)) ':' rfl,
      List.splitOnP_append_cons_of_forall_mem
        (fun c hc => ne_colon_of_part (display_part _ c hc)) ':' rfl,
      List.splitOnP_eq_singleton fun c hc => ne_colon_of_part (address_part h c hc)]
  rw [parseApiKey, hsplit]
  dsimp only
  rw [parseUuid_display, h]
  dsimp only
  rw [String.ofList_toList]

theorem keyValue_plain {address : Address} (uuid client : BitVec 128)
    (h : addressFromStr fromAddress.toList = some address) :
    ∀ c ∈ (keyValue (apiToken uuid) (ExecutionId.mk client).display fromAddress).toList,
      plainChar c = true := by
  intro c hc
  rw [keyValue_toList, List.mem_append, List.mem_cons, List.mem_append, List.mem_cons] at hc
  rcases hc with hc | rfl | hc | rfl | hc
  · exact plainChar_of_part (apiToken_part uuid c hc)
  · rfl
  · exact plainChar_of_part (display_part _ c hc)
  · rfl
  · exact plainChar_of_part (address_part h c hc)

end

/-! ## Numbers of accounts -/

theorem numbered_iff {accountName : String} {n : ℕ} :
    Numbered accountName n ↔ (stripPrefix "account".toList accountName.toList).bind
      (parseUnsigned 10 (2 ^ 64)) = some n := by
  rw [Option.bind_eq_some_iff]
  constructor
  · rintro ⟨plus, digits, hplus, hne, hname, hnumeral, hlt⟩
    rw [List.append_assoc] at hname
    refine ⟨plus ++ digits, by rw [hname, stripPrefix_append], ?_⟩
    exact parseUnsigned_eq_some.mpr ⟨plus, digits, hplus, hne, rfl, hnumeral, hlt⟩
  · rintro ⟨rest, hrest, hparse⟩
    obtain ⟨plus, digits, hplus, hne, rfl, hnumeral, hlt⟩ := parseUnsigned_eq_some.mp hparse
    refine ⟨plus, digits, hplus, hne, ?_, hnumeral, hlt⟩
    rw [List.append_assoc]
    exact stripPrefix_eq_some hrest

/-- Two accounts have the same number exactly when they share a variable. -/
theorem accountNum_eq_iff {accountName accountName' : String} :
    accountNum accountName = accountNum accountName'
      ↔ SharesVariable accountName accountName' := by
  rw [SharesVariable]
  simp only [numbered_iff, accountNum]
  generalize (stripPrefix "account".toList accountName.toList).bind
    (parseUnsigned 10 (2 ^ 64)) = x
  generalize (stripPrefix "account".toList accountName'.toList).bind
    (parseUnsigned 10 (2 ^ 64)) = y
  cases x with
  | none => cases y <;> simp [eq_comm]
  | some n =>
      cases y with
      | none => simp
      | some m =>
          simp only [Option.getD_some, Option.some.injEq, exists_eq_left', forall_eq']
          omega

theorem varName_injective {n m : ℕ} (h : varName n = varName m) : n = m := by
  have hrepr := (String.append_right_inj _).mp h
  have hlist := congrArg String.toList hrepr
  rw [Nat.toList_repr, Nat.toList_repr] at hlist
  exact toDigits_injective (by norm_num) (by norm_num) hlist

/-- The first part of a value is the token. -/
theorem token_of_keyValue {t t' c c' a a' : String} (ht : ∀ x ∈ t.toList, partChar x = true)
    (ht' : ∀ x ∈ t'.toList, partChar x = true) (h : keyValue t c a = keyValue t' c' a') :
    t = t' := by
  have hsplit := congrArg (fun s => (s.toList.splitOn ':').head?) h
  simp only [keyValue_toList, List.splitOn_eq_splitOnP] at hsplit
  rw [List.splitOnP_append_cons_of_forall_mem (fun x hx => ne_colon_of_part (ht x hx)) ':' rfl,
    List.splitOnP_append_cons_of_forall_mem (fun x hx => ne_colon_of_part (ht' x hx)) ':' rfl]
    at hsplit
  exact String.toList_injective (Option.some.inj hsplit)

/-! ## From the accounts to the environment -/

section

variable {uuids : FreshUuids} {accounts : List (String × Value)} {env env' : Environment}

/-- The variable and the value of an account. -/
def assignment (uuids : FreshUuids) (x : String × Value) : String × String :=
  (varName (accountNum x.1), keyValue (apiToken (uuids.token x.1))
    (ExecutionId.mk (uuids.clientId x.1)).display ((addressText x.2).getD ""))

/-- The client of an account. -/
theorem parse_assignment (uuids : FreshUuids) {x : String × Value}
    (h : (accountAddress x.2).isSome) (key : String) :
    ∃ address, accountAddress x.2 = some address
      ∧ parseApiKey key (assignment uuids x).2
        = .ok (apiToken (uuids.token x.1), ⟨uuids.clientId x.1, address⟩) := by
  obtain ⟨address, haddress⟩ := Option.isSome_iff_exists.mp h
  obtain ⟨text, htext, hparse⟩ := Option.bind_eq_some_iff.mp haddress
  refine ⟨address, haddress, ?_⟩
  rw [assignment, htext]
  exact parseApiKey_keyValue key _ _ hparse

/-- The lines of the accounts, and what they do when they are exported. -/
theorem exported_envLines (uuids : FreshUuids)
    (h : ∀ x ∈ accounts, (accountAddress x.2).isSome) :
    ∃ lines, envLines uuids accounts = .ok lines
      ∧ ∀ env, exportLines env lines
        = some (assignAll env (accounts.map (assignment uuids))) := by
  induction accounts with
  | nil => exact ⟨[], rfl, fun env => rfl⟩
  | cons x accounts ih =>
      obtain ⟨lines, hlines, hexport⟩ := ih fun y hy => h y (List.mem_cons_of_mem x hy)
      obtain ⟨address, haddress⟩ := Option.isSome_iff_exists.mp (h x List.mem_cons_self)
      obtain ⟨text, htext, hparse⟩ := Option.bind_eq_some_iff.mp haddress
      refine ⟨_, by rw [envLines, htext, hlines]; rfl, fun env => ?_⟩
      rw [exportLines, readExport_envVarLine _ (keyValue_plain _ _ hparse), Option.bind_some,
        hexport, List.map_cons, assignment, htext]
      rfl

theorem mem_vars {key value : String} :
    (key, value) ∈ env.vars ↔ env.lookup key = some value := by
  rw [Environment.vars, List.mem_map]
  constructor
  · rintro ⟨x, hx, hpair⟩
    cases hpair
    exact AList.mem_lookup_iff.mpr hx
  · intro h
    exact ⟨⟨key, value⟩, AList.mem_lookup_iff.mp h, rfl⟩

/-- A variable with the prefix was exported for an account. -/
theorem account_of_apiKey {key value : String} (hfresh : NoApiKeys env)
    (hkey : (stripPrefix "LOBBY_API_KEY_".toList key.toList).isSome)
    (h : (assignAll env (accounts.map (assignment uuids))).lookup key = some value) :
    ∃ x ∈ accounts, assignment uuids x = (key, value) := by
  rcases mem_of_lookup_assignAll h with hmem | hold
  · exact List.mem_map.mp hmem
  · have hnone := hfresh key (AList.lookup_isSome.mp (by rw [hold]; rfl))
    rw [hnone] at hkey
    cases hkey

/-! ## From the environment to the registry -/

/-- The tokens and clients of the variables with the prefix, when they are well formed. -/
def loadedKeys (vars : List (String × String)) : List (String × ClientConfig) :=
  vars.filterMap fun v => (stripPrefix "LOBBY_API_KEY_".toList v.1.toList).bind fun _ =>
    (parseApiKey v.1 v.2).toOption

theorem loadVars_eq {vars : List (String × String)} {apiKeys : ApiRegistry}
    (h : ∀ v ∈ vars, (stripPrefix "LOBBY_API_KEY_".toList v.1.toList).isSome →
      ∃ x, parseApiKey v.1 v.2 = .ok x) :
    loadVars vars apiKeys = .ok (assignAll apiKeys (loadedKeys vars)) := by
  induction vars generalizing apiKeys with
  | nil => rfl
  | cons v vars ih =>
      have hrest : ∀ apiKeys, loadVars vars apiKeys
          = .ok (assignAll apiKeys (loadedKeys vars)) :=
        fun _ => ih fun w hw => h w (List.mem_cons_of_mem v hw)
      cases hkey : stripPrefix "LOBBY_API_KEY_".toList v.1.toList with
      | none =>
          have hskip : loadedKeys (v :: vars) = loadedKeys vars := by
            rw [loadedKeys, List.filterMap_cons_none (by rw [hkey]; rfl)]
            rfl
          rw [loadVars, hkey, hskip]
          exact hrest apiKeys
      | some suffix =>
          obtain ⟨x, hx⟩ := h v List.mem_cons_self (by rw [hkey]; rfl)
          have hfirst : loadedKeys (v :: vars) = x :: loadedKeys vars := by
            rw [loadedKeys, List.filterMap_cons_some (by rw [hkey, hx]; rfl)]
            rfl
          rw [loadVars, hkey, hfirst]
          dsimp only
          rw [hx]
          exact hrest _

theorem stripPrefix_varName (n : ℕ) :
    (stripPrefix "LOBBY_API_KEY_".toList (varName n).toList).isSome := by
  rw [varName, String.toList_append, stripPrefix_append]
  rfl

/-- What is loaded are the accounts whose lines were not replaced. -/
theorem mem_loadedKeys (hvalid : ∀ x ∈ accounts, (accountAddress x.2).isSome)
    (hfresh : NoApiKeys env) {vars : List (String × String)}
    (hvars : vars.Perm (Environment.vars (assignAll env (accounts.map (assignment uuids)))))
    {token : String} {config : ClientConfig} :
    (token, config) ∈ loadedKeys vars ↔
      ∃ x ∈ accounts, (assignAll env (accounts.map (assignment uuids))).lookup
          (assignment uuids x).1 = some (assignment uuids x).2
        ∧ token = apiToken (uuids.token x.1) ∧ config.clientId = uuids.clientId x.1
        ∧ accountAddress x.2 = some config.fromAddress := by
  rw [loadedKeys, List.mem_filterMap]
  constructor
  · rintro ⟨⟨key, value⟩, hv, hparse⟩
    obtain ⟨suffix, hsuffix, hparse⟩ := Option.bind_eq_some_iff.mp hparse
    have hlookup := mem_vars.mp (hvars.mem_iff.mp hv)
    obtain ⟨x, hx, hassign⟩ := account_of_apiKey hfresh (by rw [hsuffix]; rfl) hlookup
    obtain ⟨address, haddress, hok⟩ := parse_assignment uuids (hvalid x hx) key
    rw [hassign] at hok
    rw [hok, Except.toOption, Option.some.injEq, Prod.mk.injEq] at hparse
    obtain ⟨rfl, rfl⟩ := hparse
    exact ⟨x, hx, by rw [hassign]; exact hlookup, rfl, rfl, haddress⟩
  · rintro ⟨x, hx, hlookup, rfl, hclient, haddress⟩
    refine ⟨assignment uuids x, hvars.mem_iff.mpr (mem_vars.mpr hlookup), ?_⟩
    obtain ⟨suffix, hsuffix⟩ := Option.isSome_iff_exists.mp (stripPrefix_varName (accountNum x.1))
    obtain ⟨address, haddress', hok⟩ :=
      parse_assignment uuids (hvalid x hx) (assignment uuids x).1
    have hkey : stripPrefix "LOBBY_API_KEY_".toList (assignment uuids x).1.toList
        = some suffix := hsuffix
    rw [hkey, Option.bind_some, hok, Except.toOption]
    rw [haddress, Option.some.injEq] at haddress'
    rw [← haddress', ← hclient]

/-- Accounts are determined by their names. -/
theorem ValidAccounts.eq_of_name (h : ValidAccounts uuids accounts) {x y : String × Value}
    (hx : x ∈ accounts) (hy : y ∈ accounts) (hname : x.1 = y.1) : x = y :=
  List.inj_on_of_nodup_map h.names hx hy hname

/-- The registry holds what was loaded. -/
theorem lookup_loadedKeys (h : ValidAccounts uuids accounts) (hfresh : NoApiKeys env)
    {vars : List (String × String)}
    (hvars : vars.Perm (Environment.vars (assignAll env (accounts.map (assignment uuids)))))
    {token : String} {config : ClientConfig} :
    (assignAll (∅ : ApiRegistry) (loadedKeys vars)).lookup token = some config
      ↔ (token, config) ∈ loadedKeys vars := by
  constructor
  · intro hlookup
    rcases mem_of_lookup_assignAll hlookup with hmem | hempty
    · exact hmem
    · rw [AList.lookup_empty] at hempty
      cases hempty
  · intro hmem
    refine lookup_assignAll hmem fun config' hmem' => ?_
    obtain ⟨x, hx, -, htoken, hclient, haddress⟩ :=
      (mem_loadedKeys h.addresses hfresh hvars).mp hmem
    obtain ⟨y, hy, -, htoken', hclient', haddress'⟩ :=
      (mem_loadedKeys h.addresses hfresh hvars).mp hmem'
    obtain rfl := h.eq_of_name hx hy (h.tokens x hx y hy (htoken.symm.trans htoken'))
    have hfrom := Option.some.inj (haddress.symm.trans haddress')
    cases config
    cases config'
    simp_all

/-- The registry after the lines were exported, in whatever order the variables are listed. -/
theorem loadApiKeyFromEnv_exported (h : ValidAccounts uuids accounts) (hfresh : NoApiKeys env)
    {vars : List (String × String)}
    (hvars : vars.Perm (Environment.vars (assignAll env (accounts.map (assignment uuids))))) :
    loadApiKeyFromEnv vars
      = if (assignAll (∅ : ApiRegistry) (loadedKeys vars)).entries.isEmpty
        then .error .apiKeyUnavailable
        else .ok (assignAll ∅ (loadedKeys vars)) := by
  rw [loadApiKeyFromEnv, loadVars_eq]
  rintro ⟨key, value⟩ hv hkey
  obtain ⟨x, hx, hassign⟩ :=
    account_of_apiKey hfresh hkey (mem_vars.mp (hvars.mem_iff.mp hv))
  obtain ⟨address, -, hok⟩ := parse_assignment uuids (h.addresses x hx) key
  rw [hassign] at hok
  exact ⟨_, hok⟩

/-- No line is replaced when the numbers differ. -/
theorem lookup_assignment (h : ValidAccounts uuids accounts)
    (hdistinct : ∀ x ∈ accounts, ∀ y ∈ accounts, SharesVariable x.1 y.1 → x.1 = y.1)
    {x : String × Value} (hx : x ∈ accounts) :
    (assignAll env (accounts.map (assignment uuids))).lookup (assignment uuids x).1
      = some (assignment uuids x).2 := by
  refine lookup_assignAll (List.mem_map_of_mem hx) fun value hvalue => ?_
  obtain ⟨y, hy, hassign⟩ := List.mem_map.mp hvalue
  have hvar : (assignment uuids y).1 = (assignment uuids x).1 := by rw [hassign]
  have hshares := accountNum_eq_iff.mp (varName_injective hvar)
  obtain rfl := h.eq_of_name hy hx (hdistinct y hy x hx hshares)
  rw [hassign]

/-- An account that is loaded still has its variable. -/
theorem lookup_of_loaded (h : ValidAccounts uuids accounts) (hfresh : NoApiKeys env)
    {vars : List (String × String)}
    (hvars : vars.Perm (Environment.vars (assignAll env (accounts.map (assignment uuids)))))
    {x : String × Value} (hx : x ∈ accounts) {config : ClientConfig}
    (hloaded : (apiToken (uuids.token x.1), config) ∈ loadedKeys vars) :
    (assignAll env (accounts.map (assignment uuids))).lookup (assignment uuids x).1
      = some (assignment uuids x).2 := by
  obtain ⟨y, hy, hlookup, htoken, -, -⟩ := (mem_loadedKeys h.addresses hfresh hvars).mp hloaded
  obtain rfl := h.eq_of_name hx hy (h.tokens x hx y hy htoken)
  exact hlookup

/-- Where every account is loaded, there is one and no two share a variable. -/
theorem distinct_of_loadsAll (h : ValidAccounts uuids accounts) (hfresh : NoApiKeys env)
    (hload : LoadsAll uuids accounts env) :
    accounts ≠ [] ∧ ∀ x ∈ accounts, ∀ y ∈ accounts, SharesVariable x.1 y.1 → x.1 = y.1 := by
  obtain ⟨lines, hlines, hexport⟩ := exported_envLines uuids h.addresses
  obtain ⟨lines', env', hlines', hexport', hload⟩ := hload
  obtain rfl := Except.ok.inj (hlines.symm.trans hlines')
  obtain rfl := Option.some.inj ((hexport env).symm.trans hexport')
  obtain ⟨registry, hregistry, hlength, hentries⟩ := hload _ (List.Perm.refl _)
  rw [loadApiKeyFromEnv_exported h hfresh (List.Perm.refl _)] at hregistry
  split at hregistry
  · cases hregistry
  rename_i hne
  obtain rfl := Except.ok.inj hregistry
  constructor
  · rintro rfl
    rw [List.length_nil, List.length_eq_zero_iff] at hlength
    exact hne (by rw [hlength]; rfl)
  · intro x hx y hy hshares
    have hkept : ∀ z ∈ accounts, (assignAll env (accounts.map (assignment uuids))).lookup
        (assignment uuids z).1 = some (assignment uuids z).2 := by
      intro z hz
      obtain ⟨address, haddress⟩ := Option.isSome_iff_exists.mp (h.addresses z hz)
      have hlookup := (hentries (apiToken (uuids.token z.1)) ⟨uuids.clientId z.1, address⟩).mpr
        ⟨z, hz, rfl, rfl, haddress⟩
      exact lookup_of_loaded h hfresh (List.Perm.refl _) hz
        ((lookup_loadedKeys h hfresh (List.Perm.refl _)).mp hlookup)
    -- one variable has one value, and with it one token
    have hvar : (assignment uuids x).1 = (assignment uuids y).1 :=
      congrArg varName (accountNum_eq_iff.mpr hshares)
    have hvalue := hkept x hx
    rw [hvar, hkept y hy] at hvalue
    have htoken := token_of_keyValue (apiToken_part _) (apiToken_part _)
      (Option.some.inj hvalue)
    exact h.tokens x hx y hy htoken.symm

section

variable {vars : List (String × String)}

/-- Where no two accounts share a variable, the registry holds their keys and no others. -/
theorem lookup_loadedKeys_iff (h : ValidAccounts uuids accounts) (hfresh : NoApiKeys env)
    (hdistinct : ∀ x ∈ accounts, ∀ y ∈ accounts, SharesVariable x.1 y.1 → x.1 = y.1)
    (hvars : vars.Perm (Environment.vars (assignAll env (accounts.map (assignment uuids)))))
    {token : String} {config : ClientConfig} :
    (assignAll (∅ : ApiRegistry) (loadedKeys vars)).lookup token = some config ↔
      ∃ x ∈ accounts, token = apiToken (uuids.token x.1)
        ∧ config.clientId = uuids.clientId x.1
        ∧ accountAddress x.2 = some config.fromAddress := by
  rw [lookup_loadedKeys h hfresh hvars, mem_loadedKeys h.addresses hfresh hvars]
  constructor
  · rintro ⟨x, hx, -, hconfig⟩
    exact ⟨x, hx, hconfig⟩
  · rintro ⟨x, hx, hconfig⟩
    exact ⟨x, hx, lookup_assignment h hdistinct hx, hconfig⟩

/-- One for each account: the tokens of the registry are those of the accounts. -/
theorem length_loadedKeys (h : ValidAccounts uuids accounts) (hfresh : NoApiKeys env)
    (hdistinct : ∀ x ∈ accounts, ∀ y ∈ accounts, SharesVariable x.1 y.1 → x.1 = y.1)
    (hvars : vars.Perm (Environment.vars (assignAll env (accounts.map (assignment uuids))))) :
    (assignAll (∅ : ApiRegistry) (loadedKeys vars)).entries.length = accounts.length := by
  have hkeys : (assignAll (∅ : ApiRegistry) (loadedKeys vars)).keys.Perm
      (accounts.map fun x => apiToken (uuids.token x.1)) := by
    refine (List.perm_ext_iff_of_nodup (AList.keys_nodup _) ?_).mpr fun token => ?_
    · refine List.Nodup.map_on (fun x hx y hy htoken => ?_) (List.Nodup.of_map _ h.names)
      exact h.eq_of_name hx hy (h.tokens x hx y hy htoken)
    · rw [← AList.mem_keys, ← AList.lookup_isSome, Option.isSome_iff_exists, List.mem_map]
      constructor
      · rintro ⟨config, hconfig⟩
        obtain ⟨x, hx, htoken, -⟩ := (lookup_loadedKeys_iff h hfresh hdistinct hvars).mp hconfig
        exact ⟨x, hx, htoken.symm⟩
      · rintro ⟨x, hx, rfl⟩
        obtain ⟨address, haddress⟩ := Option.isSome_iff_exists.mp (h.addresses x hx)
        exact ⟨⟨uuids.clientId x.1, address⟩,
          (lookup_loadedKeys_iff h hfresh hdistinct hvars).mpr ⟨x, hx, rfl, rfl, haddress⟩⟩
  have hlen := hkeys.length_eq
  rwa [AList.keys, List.keys, List.length_map, List.length_map] at hlen

end

/-- Where no two accounts share a variable, every account is loaded. -/
theorem loadsAll_of_distinct (h : ValidAccounts uuids accounts) (hfresh : NoApiKeys env)
    (hne : accounts ≠ [])
    (hdistinct : ∀ x ∈ accounts, ∀ y ∈ accounts, SharesVariable x.1 y.1 → x.1 = y.1) :
    LoadsAll uuids accounts env := by
  obtain ⟨lines, hlines, hexport⟩ := exported_envLines uuids h.addresses
  refine ⟨lines, _, hlines, hexport env, fun vars hvars => ?_⟩
  have hlength := length_loadedKeys h hfresh hdistinct hvars
  refine ⟨_, ?_, hlength, fun _ _ => lookup_loadedKeys_iff h hfresh hdistinct hvars⟩
  rw [loadApiKeyFromEnv_exported h hfresh hvars, if_neg]
  rw [List.isEmpty_iff, ← List.length_eq_zero_iff, hlength, List.length_eq_zero_iff]
  exact hne

/-- **Generation and loading agree.**  The generated keys are all loaded, one for each
account, exactly when there is an account and no two share a variable. -/
theorem generated_keys_load_iff (h : ValidAccounts uuids accounts) (hfresh : NoApiKeys env) :
    LoadsAll uuids accounts env ↔
      accounts ≠ [] ∧ ∀ x ∈ accounts, ∀ y ∈ accounts, SharesVariable x.1 y.1 → x.1 = y.1 :=
  ⟨distinct_of_loadsAll h hfresh, fun hd => loadsAll_of_distinct h hfresh hd.1 hd.2⟩

end

/-! ## Two files -/

/-- An account as the custody file holds it. -/
def custodyAccount (address : String) : Value :=
  .object [("pvt_key", .string "0x01"), ("pub_key", .string "0x02"),
    ("address", .string address)]

/-- A different pair of UUIDs for each of two names. -/
def twoUuids (accountName : String) : FreshUuids where
  clientId := fun name => if name = accountName then 1 else 2
  token := fun name => if name = accountName then 0 else BitVec.ofNat 128 (2 ^ 127)

/-- Two accounts of these names. -/
def twoAccounts (accountName accountName' : String) : List (String × Value) :=
  [(accountName, custodyAccount "0x0101010101010101010101010101010101010101"),
    (accountName', custodyAccount "0x0202020202020202020202020202020202020202")]

theorem twoAccounts_valid {accountName accountName' : String} (hne : accountName' ≠ accountName) :
    ValidAccounts (twoUuids accountName) (twoAccounts accountName accountName') where
  names := by simp [twoAccounts, hne.symm]
  addresses := by
    intro x hx
    rw [twoAccounts, List.mem_cons, List.mem_singleton] at hx
    rcases hx with rfl | rfl
    · show (accountAddress (custodyAccount _)).isSome
      decide +kernel
    · show (accountAddress (custodyAccount _)).isSome
      decide +kernel
  tokens := by
    have htokens : apiToken 0 ≠ apiToken (BitVec.ofNat 128 (2 ^ 127)) := by decide +kernel
    intro x hx y hy htoken
    rw [twoAccounts, List.mem_cons, List.mem_singleton] at hx hy
    rcases hx with rfl | rfl <;> rcases hy with rfl | rfl
    · rfl
    · simp only [twoUuids, if_true, if_neg hne] at htoken
      exact absurd htoken htokens
    · simp only [twoUuids, if_true, if_neg hne] at htoken
      exact absurd htoken.symm htokens
    · rfl

theorem noApiKeys_empty : NoApiKeys ∅ := by
  intro key hkey
  exact absurd hkey (AList.notMem_empty key)

/-- Accounts that are numbered without an underscore are all loaded. -/
theorem generated_keys_load_numbered :
    LoadsAll (twoUuids "account1") (twoAccounts "account1" "account2") ∅ := by
  refine (generated_keys_load_iff (twoAccounts_valid (by decide)) noApiKeys_empty).mpr
    ⟨by simp [twoAccounts], fun x hx y hy hshares => ?_⟩
  have hnum := accountNum_eq_iff.mpr hshares
  rw [twoAccounts, List.mem_cons, List.mem_singleton] at hx hy
  rcases hx with rfl | rfl <;> rcases hy with rfl | rfl
  · rfl
  · exact absurd hnum (by decide +kernel)
  · exact absurd hnum (by decide +kernel)
  · rfl

/-- The names of the README all read as the number zero. -/
theorem generated_keys_overwritten :
    ValidAccounts (twoUuids "account_1") (twoAccounts "account_1" "account_2")
      ∧ NoApiKeys ∅
      ∧ ¬ LoadsAll (twoUuids "account_1") (twoAccounts "account_1" "account_2") ∅ := by
  refine ⟨twoAccounts_valid (by decide), noApiKeys_empty, fun hload => ?_⟩
  have hdistinct := (distinct_of_loadsAll (twoAccounts_valid (by decide)) noApiKeys_empty
    hload).2
  have hname := hdistinct _ List.mem_cons_self _ (List.mem_cons_of_mem _ List.mem_cons_self)
    (accountNum_eq_iff.mp (by decide +kernel))
  exact absurd hname (by decide)

end Lobby
