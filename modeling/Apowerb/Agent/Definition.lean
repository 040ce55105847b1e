/-
# The stored definition of an agent

`agents` keeps one row for each agent; `core/agent_main.py` reads it (`get_agent`) and rewrites it
(`update_agent`).  A row is what `register_agent`, `update_agent` and the resynchronisation can have
stored, and a column that holds JSON is the value read back from it; a list or a dict that is
stored as NULL when it is empty reads back as empty.

* The secrets of a row (the API key, the parameters and the environment of its MCP servers) are
  tokens of the cipher; `getAgent` opens them, and what does not open there is an error only for an
  MCP server.
* `storeAgent` is `update_agent` up to the propagation of the key.

All rows belong to one owner, whose identifier is not kept.  What the database refuses (a name that
is taken, a missing project) is no update; the archive of the revisions and the module files are
left out.
-/
import Apowerb.Lib.Except
import Apowerb.Value

namespace Apowerb.Agent.Definition

/-! ## 1. The cipher and the model names -/

/-- `MASKED_API_KEY`. -/
def maskedApiKey : String := "__unchanged__"

/-- The symmetric cipher of `helpers/encryptor.py`.  A token is a URL-safe base64 text. -/
structure Cipher where
  encrypt : String → String
  decrypt : String → Option String
  decrypt_encrypt : ∀ value, decrypt (encrypt value) = some value
  encrypt_ne : ∀ value, encrypt value ≠ value
  encrypt_ne_empty : ∀ value, encrypt value ≠ ""
  encrypt_ne_masked : ∀ value, encrypt value ≠ maskedApiKey
  strip_encrypt : ∀ value, Text.strip (encrypt value) = encrypt value

/-- `DEFAULT_LLM_MODEL_ID`. -/
def defaultLlmModelId : String := "thaink2/default"

/-- `is_default_llm_model`. -/
def isDefaultLlmModel (agentModel : String) : Bool := Text.strip agentModel == defaultLlmModelId

/-- `_SECRET_PARAM_KEYS`. -/
def secretParamKeys : List String :=
  ["model_api_key", "model_api_base", "model_api_version", "api_version"]

/-- `strip_default_llm_params`. -/
def stripDefaultLlmParams (agentModel : String) (params : Dict) : Dict :=
  if isDefaultLlmModel agentModel then params.filter (·.1 ∉ secretParamKeys) else params

/-- `unmask_model_api_key`. -/
def unmaskModelApiKey (incoming stored : Dict) : Dict :=
  if incoming.get "model_api_key" ≠ .str maskedApiKey then incoming
  else incoming.put "model_api_key" ((stored.get "model_api_key").orElse (.str ""))

/-- `encrypt_value_in_dict(params, ["model_api_key"])`, which changes the dict in place. -/
def encryptModelApiKey (C : Cipher) (params : Dict) : Except Raised Dict :=
  match params.get "model_api_key" with
  | .null => .ok params
  | .str key => .ok (params.put "model_api_key" (.str (C.encrypt key)))
  | _ => .error (.other "AttributeError")

/-- `decrypt_value_in_dict(params, ["model_api_key"])` as `get_agent` calls it: no parameters where
it raises. -/
def decryptModelApiKey (C : Cipher) (params : Dict) : Dict :=
  match params.get "model_api_key" with
  | .null => params
  | .str token =>
    match C.decrypt token with
    | some key => params.put "model_api_key" (.str key)
    | none => []
  | _ => []

/-! ## 2. A row -/

/-- `McpServerConfig`: its settings, and the two dicts that hold secrets. -/
structure McpServer where
  settings : Dict
  params : List (String × String)
  env : List (String × String)
deriving DecidableEq

/-- `encrypt_value_in_dict` at every key. -/
def encryptValues (C : Cipher) (secrets : List (String × String)) : List (String × String) :=
  secrets.map fun e => (e.1, C.encrypt e.2)

/-- `decrypt_value_in_dict` at every key. -/
def decryptValues (C : Cipher) (secrets : List (String × String)) :
    Except Raised (List (String × String)) :=
  secrets.mapM fun e =>
    match C.decrypt e.2 with
    | some value => .ok (e.1, value)
    | none => .error (.other "InvalidToken")

/-- `_encrypt_mcp_servers`. -/
def encryptMcpServers (C : Cipher) (servers : List McpServer) : List McpServer :=
  servers.map fun srv =>
    { srv with params := encryptValues C srv.params, env := encryptValues C srv.env }

/-- The MCP servers as `get_agent` reads them. -/
def decryptMcpServers (C : Cipher) (servers : List McpServer) : Except Raised (List McpServer) :=
  servers.mapM fun srv => do
    let params ← decryptValues C srv.params
    let env ← decryptValues C srv.env
    return { srv with params := params, env := env }

/-- A row of `agents`, the owner and the date of the last update left out. -/
structure Row where
  agentName : String
  agentModel : String
  agentModelParams : Dict
  agentDescription : String
  agentInstruction : String
  agentTools : List String
  agentType : String
  subAgents : List String
  outputKey : Option String
  outputSchemaName : Option String
  skipWhenUpstream : Option String
  inputSchema : Option Dict
  outputSchema : Option Dict
  codeExecutor : Option String
  createdAt : String
  status : String
  organizationId : String
  projectId : String
  tags : List String
  guardrailsConfig : Dict
  memoryEnabled : Bool
  caseBankEnabled : Bool
  artifactsEnabled : Bool
  superagentTemplateId : Option String
  superagentTemplateVersionHash : Option String
  loopMaxIterations : Option Int
  loopExitInstruction : Option String
  mcpServers : List McpServer
  agentSkills : List String
  hubOriginId : Option String
deriving DecidableEq

/-- The agents of the owner. -/
abbrev Store := Int → Option Row

/-- The row as `get_agent` returns it, with its secrets open. -/
def Row.opened (C : Cipher) (row : Row) (servers : List McpServer) : Row :=
  { row with
    agentModelParams := decryptModelApiKey C row.agentModelParams
    mcpServers := servers }

/-- `get_agent(…, reveal_secrets=True)`. -/
def getAgent (C : Cipher) (σ : Store) (agentId : Int) : Except Raised (Option Row) :=
  match σ agentId with
  | none => .ok none
  | some row => do
    let servers ← decryptMcpServers C row.mcpServers
    return some (row.opened C servers)

/-! ## 3. An update -/

/-- `AgentCreateSchema` as its validators leave it, with the organization that the router adds, and
`model_fields_set`. -/
structure AgentCreateSchema where
  agentName : String
  agentModel : String
  agentModelParams : Option Dict
  agentDescription : String
  agentInstruction : String
  agentTools : Option (List String)
  inputSchema : Option Dict
  outputSchema : Option Dict
  outputKey : Option String
  outputSchemaName : Option String
  skipWhenUpstream : Option String
  subAgents : Option (List String)
  agentType : String
  projectId : String
  codeExecutor : Option String
  tags : Option (List String)
  guardrailsConfig : Option Dict
  memoryEnabled : Bool
  caseBankEnabled : Option Bool
  artifactsEnabled : Bool
  superagentTemplateId : Option String
  loopMaxIterations : Option Int
  loopExitInstruction : Option String
  mcpServers : Option (List McpServer)
  agentSkills : Option (List String)
  propagateApiKey : Bool
  organizationId : String
  modelFieldsSet : List String

/-- The fields of `_PRESERVE_WHEN_OMITTED`: where the client does not name one, the stored value
stands. -/
def AgentCreateSchema.keepOmitted (agent : AgentCreateSchema) (existing : Option Row) :
    AgentCreateSchema :=
  let keep (field : String) (sent : Option String) (stored : Row → Option String) :=
    if field ∈ agent.modelFieldsSet then sent else (existing.bind stored).or sent
  { agent with
    outputKey := keep "output_key" agent.outputKey Row.outputKey
    outputSchemaName := keep "output_schema_name" agent.outputSchemaName Row.outputSchemaName
    skipWhenUpstream := keep "skip_when_upstream" agent.skipWhenUpstream Row.skipWhenUpstream
    superagentTemplateId :=
      keep "superagent_template_id" agent.superagentTemplateId Row.superagentTemplateId
    loopExitInstruction :=
      keep "loop_exit_instruction" agent.loopExitInstruction Row.loopExitInstruction
    codeExecutor := keep "code_executor" agent.codeExecutor Row.codeExecutor }

/-- The row after the `UPDATE`; the columns that it does not name stay. -/
def AgentCreateSchema.row (C : Cipher) (agent : AgentCreateSchema) (params : Dict)
    (previous : Row) : Row :=
  { previous with
    agentName := agent.agentName
    agentModel := agent.agentModel
    agentModelParams := params
    agentDescription := agent.agentDescription
    agentInstruction := agent.agentInstruction
    agentTools := agent.agentTools.getD []
    subAgents := agent.subAgents.getD []
    outputKey := agent.outputKey
    outputSchemaName := agent.outputSchemaName
    skipWhenUpstream := agent.skipWhenUpstream
    agentType := agent.agentType
    codeExecutor := agent.codeExecutor
    inputSchema := agent.inputSchema
    outputSchema := agent.outputSchema
    organizationId := agent.organizationId
    projectId := agent.projectId
    guardrailsConfig := agent.guardrailsConfig.getD []
    memoryEnabled := agent.memoryEnabled
    caseBankEnabled := agent.caseBankEnabled.getD previous.caseBankEnabled
    artifactsEnabled := agent.artifactsEnabled
    superagentTemplateId := agent.superagentTemplateId
    loopMaxIterations := agent.loopMaxIterations.filter (· ≠ 0)
    loopExitInstruction := agent.loopExitInstruction
    mcpServers := encryptMcpServers C (agent.mcpServers.getD [])
    agentSkills := agent.agentSkills.getD []
    tags := agent.tags.getD [] }

/-- The parameters of an update, before they are encrypted. -/
def AgentCreateSchema.paramsToStore (agent : AgentCreateSchema) (existing : Option Row) : Dict :=
  stripDefaultLlmParams agent.agentModel
    (unmaskModelApiKey (agent.agentModelParams.getD [])
      ((existing.map Row.agentModelParams).getD []))

/-- `update_agent` up to the propagation: the agents after it, and `model_params_to_store`, in which
the key is encrypted by then. -/
def storeAgent (C : Cipher) (σ : Store) (agentId : Int) (agent : AgentCreateSchema) :
    Except Raised (Store × Dict) := do
  let existing ← getAgent C σ agentId
  let encrypted ← encryptModelApiKey C (agent.paramsToStore existing)
  match σ agentId with
  | none => .error (.other "HTTPException")
  | some previous =>
    .ok (Function.update σ agentId
      (some ((agent.keepOmitted existing).row C encrypted previous)), encrypted)

/-! ## 4. What each function returns -/

variable {C : Cipher} {σ σ' : Store} {agentId : Int} {row : Row} {params : Dict}

theorem isDefaultLlmModel_strip (agentModel : String) :
    isDefaultLlmModel (Text.strip agentModel) = isDefaultLlmModel agentModel := by
  unfold isDefaultLlmModel
  rw [Text.strip_strip]

theorem stripDefaultLlmParams_of_not_default {agentModel : String}
    (h : isDefaultLlmModel agentModel = false) (params : Dict) :
    stripDefaultLlmParams agentModel params = params := by
  simp [stripDefaultLlmParams, h]

/-- The key that is stored after the encryption opens to the key before. -/
theorem get_encryptModelApiKey {encrypted : Dict} {key : String}
    (hkey : params.get "model_api_key" = .str key)
    (h : encryptModelApiKey C params = .ok encrypted) :
    encrypted.get "model_api_key" = .str (C.encrypt key) := by
  simp only [encryptModelApiKey, hkey, Except.ok.injEq] at h
  rw [← h, Dict.get, Dict.lookup_put, if_pos rfl, Option.getD_some]

/-- All secrets of the MCP servers of the row are tokens of the cipher. -/
def Row.Opens (C : Cipher) (row : Row) : Prop :=
  ∀ srv ∈ row.mcpServers, ∀ e ∈ srv.params ++ srv.env, (C.decrypt e.2).isSome

theorem decryptValues_returns {secrets : List (String × String)} :
    (∃ values, decryptValues C secrets = .ok values) ↔
      ∀ e ∈ secrets, (C.decrypt e.2).isSome := by
  unfold decryptValues
  rw [Except.mapM_returns_iff]
  refine forall₂_congr fun e _ => ?_
  cases h : C.decrypt e.2 <;> simp

theorem decryptMcpServers_returns {servers : List McpServer} :
    (∃ opened, decryptMcpServers C servers = .ok opened) ↔
      ∀ srv ∈ servers, ∀ e ∈ srv.params ++ srv.env, (C.decrypt e.2).isSome := by
  unfold decryptMcpServers
  rw [Except.mapM_returns_iff]
  refine forall₂_congr fun srv _ => ?_
  rw [List.forall_mem_append, ← decryptValues_returns, ← decryptValues_returns]
  constructor
  · rintro ⟨opened, h⟩
    obtain ⟨params, hparams, h⟩ := Except.bind_eq_ok_iff.mp h
    obtain ⟨env, henv, -⟩ := Except.bind_eq_ok_iff.mp h
    exact ⟨⟨params, hparams⟩, env, henv⟩
  · rintro ⟨⟨params, hparams⟩, env, henv⟩
    exact ⟨_, Except.bind_eq_ok_iff.mpr
      ⟨params, hparams, Except.bind_eq_ok_iff.mpr ⟨env, henv, rfl⟩⟩⟩

/-- What `get_agent` returns: nothing, or the row with its secrets open. -/
theorem getAgent_eq_ok_iff {found : Option Row} :
    getAgent C σ agentId = .ok found ↔
      (σ agentId = none ∧ found = none) ∨
        ∃ row servers, σ agentId = some row ∧ decryptMcpServers C row.mcpServers = .ok servers ∧
          found = some (row.opened C servers) := by
  unfold getAgent
  cases hrow : σ agentId with
  | none => simp [eq_comm]
  | some row =>
    simp only
    rw [Except.bind_eq_ok_iff]
    constructor
    · rintro ⟨servers, hservers, h⟩
      cases h
      exact .inr ⟨row, servers, rfl, hservers, rfl⟩
    · rintro (⟨h, -⟩ | ⟨other, servers, hother, hservers, rfl⟩)
      · cases h
      · cases hother
        exact ⟨servers, hservers, rfl⟩

theorem getAgent_returns :
    (∃ found, getAgent C σ agentId = .ok found) ↔ ∀ row, σ agentId = some row → row.Opens C := by
  simp only [getAgent_eq_ok_iff, Row.Opens, ← decryptMcpServers_returns]
  cases hrow : σ agentId with
  | none => simp
  | some row => simp

/-- A row that was just written opens. -/
theorem opens_row (agent : AgentCreateSchema) (params : Dict) (previous : Row) :
    (agent.row C params previous).Opens C := by
  simp only [AgentCreateSchema.row, encryptMcpServers, encryptValues, Row.Opens, List.forall_mem_map,
    ← List.map_append]
  intro srv _ e _
  simp [C.decrypt_encrypt]

/-- **What `update_agent` writes**: the row of the agent, if there is one, and nothing else. -/
theorem storeAgent_eq_ok_iff {agent : AgentCreateSchema} :
    storeAgent C σ agentId agent = .ok (σ', params) ↔
      ∃ existing previous, getAgent C σ agentId = .ok existing ∧ σ agentId = some previous ∧
        encryptModelApiKey C (agent.paramsToStore existing) = .ok params ∧
        σ' = Function.update σ agentId
          (some ((agent.keepOmitted existing).row C params previous)) := by
  unfold storeAgent
  rw [Except.bind_eq_ok_iff]
  refine exists_congr fun existing => ?_
  constructor
  · rintro ⟨hexisting, h⟩
    obtain ⟨encrypted, hencrypted, h⟩ := Except.bind_eq_ok_iff.mp h
    split at h
    · cases h
    · rename_i previous hprevious
      cases h
      exact ⟨previous, hexisting, hprevious, hencrypted, rfl⟩
  · rintro ⟨previous, hexisting, hprevious, hencrypted, rfl⟩
    refine ⟨hexisting, Except.bind_eq_ok_iff.mpr ⟨params, hencrypted, ?_⟩⟩
    rw [hprevious]

end Apowerb.Agent.Definition
