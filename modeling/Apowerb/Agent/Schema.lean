/-
# The schema of an agent, and how it is read

`AgentCreateSchema.model_validate` (`schema/agent_schema.py`): each field of a dict is read by its
type, after what the validators do to it (a text of JSON is decoded, the model and the credentials
are stripped).  A dict that a validated value is dumped to is read as that value again.

What pydantic accepts for a `bool` and an `int` beyond these types is an argument.
-/
import Apowerb.Agent.Propagate
import Apowerb.Json

namespace Apowerb.Agent.Schema

open Definition Propagate

/-! ## 1. How a field is read -/

variable {α β : Type}

/-- What pydantic raises, and FastAPI turns into a 422. -/
def validationError : Raised := .other "ValidationError"

/-- What pydantic reads a flag and an integer from, beyond a `bool` and an `int`. -/
structure Lenient where
  flag : Value → Option Bool
  int : Value → Option Int
  flag_bool : ∀ b, flag (.bool b) = some b
  int_int : ∀ n, int (.int n) = some n
  int_text : ∀ n m : Int, int (.str (toString n)) = some m → m = n

/-- `str`. -/
def text : Value → Except Raised String
  | .str s => .ok s
  | _ => .error validationError

/-- `dict`. -/
def dict : Value → Except Raised Dict
  | .dict d => .ok d
  | _ => .error validationError

/-- `list[…]`. -/
def listOf (read : Value → Except Raised α) : Value → Except Raised (List α)
  | .list items => items.mapM read
  | _ => .error validationError

/-- An entry of a `dict[str, str]`. -/
def textEntry (e : String × Value) : Except Raised (String × String) := do
  return (e.1, ← text e.2)

/-- `dict[str, str]`. -/
def textDict : Value → Except Raised (List (String × String))
  | .dict d => d.mapM textEntry
  | _ => .error validationError

/-- `… | None`. -/
def nullable (read : Value → Except Raised α) (v : Value) : Except Raised (Option α) :=
  if v = .null then .ok none else some <$> read v

/-- `bool`. -/
def Lenient.readFlag (P : Lenient) (v : Value) : Except Raised Bool :=
  match P.flag v with
  | some b => .ok b
  | none => .error validationError

/-- `int`. -/
def Lenient.readInt (P : Lenient) (v : Value) : Except Raised Int :=
  match P.int v with
  | some n => .ok n
  | none => .error validationError

/-- `_decode_json_text`. -/
def decodeJsonText : Value → Value
  | .str s => (Json.loads s.toList).getD (.str s)
  | v => v

/-- `_decode_json_columns`, and a `dict | None`. -/
def jsonDict (v : Value) : Except Raised (Option Dict) := nullable dict (decodeJsonText v)

/-- `agent_model`, with `_strip_agent_model`. -/
def modelName (v : Value) : Except Raised String := Text.strip <$> text v

/-- `agent_model_params`, with `_strip_credentials`. -/
def modelParams (v : Value) : Except Raised (Option Dict) := (·.map stripCredentials) <$> jsonDict v

/-! ## 2. The servers -/

/-- The types of the settings of `McpServerConfig`. -/
inductive Setting
  | text
  | optionalText
  | texts
  | textDict
deriving DecidableEq

/-- What is left out of a server. -/
def Setting.default : Setting → String → Value
  | .text, field => .str (if field = "transport" then "http" else "")
  | .optionalText, _ => .null
  | .texts, _ => .list []
  | .textDict, _ => .dict []

/-- The value has the type. -/
def Setting.accepts : Setting → Value → Bool
  | .text, v => v.isText
  | .optionalText, v => v.isText || v = .null
  | .texts, .list items => items.all Value.isText
  | .textDict, .dict entries => entries.all fun e => e.2.isText
  | _, _ => false

/-- The fields of `McpServerConfig` that hold no secret. -/
def mcpSettings : List (String × Setting) :=
  [("name", .text), ("transport", .text), ("url", .text), ("headers", .textDict),
    ("command", .text), ("args", .texts), ("mcp_type", .optionalText), ("toolset", .optionalText),
    ("db_type", .optionalText), ("db_database", .optionalText)]

/-- The settings that a server is given. -/
def settingsOf (d : Dict) : Dict :=
  mcpSettings.map fun s => (s.1, d.getOr s.1 (s.2.default s.1))

/-- Each has its type. -/
def settingsAccepted (settings : Dict) : Bool :=
  mcpSettings.all fun s => s.2.accepts (settings.get s.1)

/-- `McpServerConfig`. -/
def mcpServerConfig (v : Value) : Except Raised McpServer := do
  let d ← dict v
  refuse (settingsAccepted (settingsOf d) = false) validationError
  let params ← textDict (d.getOr "params" (.dict []))
  let env ← textDict (d.getOr "env" (.dict []))
  return ⟨settingsOf d, params, env⟩

/-- A `dict[str, str]` as a value. -/
def textDictValue (entries : List (String × String)) : Value :=
  .dict (entries.map fun e => (e.1, .str e.2))

/-- `srv.model_dump()`. -/
def dump (srv : McpServer) : Value :=
  .dict (srv.settings ++ [("params", textDictValue srv.params), ("env", textDictValue srv.env)])

/-! ## 3. The schema -/

/-- `AgentCreateSchema.model_fields`. -/
def modelFields : List String :=
  ["agent_name", "agent_model", "agent_model_params", "agent_description", "agent_instruction",
    "agent_tools", "input_schema", "output_schema", "output_key", "output_schema_name",
    "skip_when_upstream", "sub_agents", "agent_type", "project_id", "code_executor", "tags",
    "guardrails_config", "memory_enabled", "case_bank_enabled", "artifacts_enabled",
    "superagent_template_id", "loop_max_iterations", "loop_exit_instruction", "mcp_servers",
    "agent_skills", "hub_origin_id", "propagate_api_key"]

/-- One field of the schema: what it is where it is left out, and how it is read. -/
def field (d : Dict) (name : String) (default : Except Raised α)
    (read : Value → Except Raised α) : Except Raised α :=
  match d.lookup name with
  | none => default
  | some v => read v

/-- A field that must be there. -/
def required (d : Dict) (name : String) (read : Value → Except Raised α) : Except Raised α :=
  field d name (.error validationError) read

/-- A field that is null where it is left out. -/
def optional (d : Dict) (name : String) (read : Value → Except Raised α) :
    Except Raised (Option α) :=
  field d name (.ok none) (nullable read)

/-- `AgentCreateSchema.model_validate`.  The column of the project takes no null, so a null there is
refused at the latest by the database. -/
def modelValidate (P : Lenient) (d : Dict) : Except Raised AgentCreateSchema := do
  let agentName ← required d "agent_name" text
  let agentModel ← required d "agent_model" modelName
  let agentModelParams ← field d "agent_model_params" (.ok none) modelParams
  let agentDescription ← required d "agent_description" text
  let agentInstruction ← required d "agent_instruction" text
  let agentTools ← field d "agent_tools" (.ok (some [])) (nullable (listOf text))
  let inputSchema ← field d "input_schema" (.ok none) jsonDict
  let outputSchema ← field d "output_schema" (.ok none) jsonDict
  let outputKey ← optional d "output_key" text
  let outputSchemaName ← optional d "output_schema_name" text
  let skipWhenUpstream ← optional d "skip_when_upstream" text
  let subAgents ← optional d "sub_agents" (listOf text)
  let agentType ← required d "agent_type" text
  let projectId ← field d "project_id" (.ok "thaink2") text
  let codeExecutor ← optional d "code_executor" text
  let tags ← optional d "tags" (listOf text)
  let guardrailsConfig ← field d "guardrails_config" (.ok none) jsonDict
  let memoryEnabled ← field d "memory_enabled" (.ok false) P.readFlag
  let caseBankEnabled ← optional d "case_bank_enabled" P.readFlag
  let artifactsEnabled ← field d "artifacts_enabled" (.ok false) P.readFlag
  let superagentTemplateId ← optional d "superagent_template_id" text
  let loopMaxIterations ← optional d "loop_max_iterations" P.readInt
  let loopExitInstruction ← optional d "loop_exit_instruction" text
  let mcpServers ← optional d "mcp_servers" (listOf mcpServerConfig)
  let agentSkills ← optional d "agent_skills" (listOf text)
  let _ ← optional d "hub_origin_id" text
  let propagateApiKey ← field d "propagate_api_key" (.ok false) P.readFlag
  return {
    agentName, agentModel, agentModelParams, agentDescription, agentInstruction, agentTools,
    inputSchema, outputSchema, outputKey, outputSchemaName, skipWhenUpstream, subAgents, agentType,
    projectId, codeExecutor, tags, guardrailsConfig, memoryEnabled, caseBankEnabled,
    artifactsEnabled, superagentTemplateId, loopMaxIterations, loopExitInstruction, mcpServers,
    agentSkills, propagateApiKey
    organizationId := ""
    modelFieldsSet := modelFields.filter fun name => (d.lookup name).isSome }

/-- What a dict is read as, field by field. -/
structure Validated (P : Lenient) (d : Dict) (agent : AgentCreateSchema) : Prop where
  agentName : required d "agent_name" text = .ok agent.agentName
  agentModel : required d "agent_model" modelName = .ok agent.agentModel
  agentModelParams :
    field d "agent_model_params" (.ok none) modelParams = .ok agent.agentModelParams
  agentDescription : required d "agent_description" text = .ok agent.agentDescription
  agentInstruction : required d "agent_instruction" text = .ok agent.agentInstruction
  agentTools :
    field d "agent_tools" (.ok (some [])) (nullable (listOf text)) = .ok agent.agentTools
  inputSchema : field d "input_schema" (.ok none) jsonDict = .ok agent.inputSchema
  outputSchema : field d "output_schema" (.ok none) jsonDict = .ok agent.outputSchema
  outputKey : optional d "output_key" text = .ok agent.outputKey
  outputSchemaName : optional d "output_schema_name" text = .ok agent.outputSchemaName
  skipWhenUpstream : optional d "skip_when_upstream" text = .ok agent.skipWhenUpstream
  subAgents : optional d "sub_agents" (listOf text) = .ok agent.subAgents
  agentType : required d "agent_type" text = .ok agent.agentType
  projectId : field d "project_id" (.ok "thaink2") text = .ok agent.projectId
  codeExecutor : optional d "code_executor" text = .ok agent.codeExecutor
  tags : optional d "tags" (listOf text) = .ok agent.tags
  guardrailsConfig : field d "guardrails_config" (.ok none) jsonDict = .ok agent.guardrailsConfig
  memoryEnabled : field d "memory_enabled" (.ok false) P.readFlag = .ok agent.memoryEnabled
  caseBankEnabled : optional d "case_bank_enabled" P.readFlag = .ok agent.caseBankEnabled
  artifactsEnabled : field d "artifacts_enabled" (.ok false) P.readFlag = .ok agent.artifactsEnabled
  superagentTemplateId :
    optional d "superagent_template_id" text = .ok agent.superagentTemplateId
  loopMaxIterations : optional d "loop_max_iterations" P.readInt = .ok agent.loopMaxIterations
  loopExitInstruction : optional d "loop_exit_instruction" text = .ok agent.loopExitInstruction
  mcpServers : optional d "mcp_servers" (listOf mcpServerConfig) = .ok agent.mcpServers
  agentSkills : optional d "agent_skills" (listOf text) = .ok agent.agentSkills
  propagateApiKey :
    field d "propagate_api_key" (.ok false) P.readFlag = .ok agent.propagateApiKey
  modelFieldsSet :
    agent.modelFieldsSet = modelFields.filter fun name => (d.lookup name).isSome

theorem modelValidate_eq_ok {P : Lenient} {d : Dict} {agent : AgentCreateSchema}
    (h : modelValidate P d = .ok agent) : Validated P d agent := by
  unfold modelValidate at h
  obtain ⟨_, h1, h⟩ := Except.bind_eq_ok_iff.mp h
  obtain ⟨_, h2, h⟩ := Except.bind_eq_ok_iff.mp h
  obtain ⟨_, h3, h⟩ := Except.bind_eq_ok_iff.mp h
  obtain ⟨_, h4, h⟩ := Except.bind_eq_ok_iff.mp h
  obtain ⟨_, h5, h⟩ := Except.bind_eq_ok_iff.mp h
  obtain ⟨_, h6, h⟩ := Except.bind_eq_ok_iff.mp h
  obtain ⟨_, h7, h⟩ := Except.bind_eq_ok_iff.mp h
  obtain ⟨_, h8, h⟩ := Except.bind_eq_ok_iff.mp h
  obtain ⟨_, h9, h⟩ := Except.bind_eq_ok_iff.mp h
  obtain ⟨_, h10, h⟩ := Except.bind_eq_ok_iff.mp h
  obtain ⟨_, h11, h⟩ := Except.bind_eq_ok_iff.mp h
  obtain ⟨_, h12, h⟩ := Except.bind_eq_ok_iff.mp h
  obtain ⟨_, h13, h⟩ := Except.bind_eq_ok_iff.mp h
  obtain ⟨_, h14, h⟩ := Except.bind_eq_ok_iff.mp h
  obtain ⟨_, h15, h⟩ := Except.bind_eq_ok_iff.mp h
  obtain ⟨_, h16, h⟩ := Except.bind_eq_ok_iff.mp h
  obtain ⟨_, h17, h⟩ := Except.bind_eq_ok_iff.mp h
  obtain ⟨_, h18, h⟩ := Except.bind_eq_ok_iff.mp h
  obtain ⟨_, h19, h⟩ := Except.bind_eq_ok_iff.mp h
  obtain ⟨_, h20, h⟩ := Except.bind_eq_ok_iff.mp h
  obtain ⟨_, h21, h⟩ := Except.bind_eq_ok_iff.mp h
  obtain ⟨_, h22, h⟩ := Except.bind_eq_ok_iff.mp h
  obtain ⟨_, h23, h⟩ := Except.bind_eq_ok_iff.mp h
  obtain ⟨_, h24, h⟩ := Except.bind_eq_ok_iff.mp h
  obtain ⟨_, h25, h⟩ := Except.bind_eq_ok_iff.mp h
  obtain ⟨_, -, h⟩ := Except.bind_eq_ok_iff.mp h
  obtain ⟨_, h27, h⟩ := Except.bind_eq_ok_iff.mp h
  cases h
  exact ⟨h1, h2, h3, h4, h5, h6, h7, h8, h9, h10, h11, h12, h13, h14, h15, h16, h17, h18, h19,
    h20, h21, h22, h23, h24, h25, h27, rfl⟩

/-! ## 4. What was read is read again -/

/-- A pass over what a list was shown as. -/
theorem listOf_map {read : Value → Except Raised α} {shown : α → Value} {l : List α}
    (h : ∀ a ∈ l, read (shown a) = .ok a) : listOf read (.list (l.map shown)) = .ok l := by
  change (l.map shown).mapM read = .ok l
  rw [List.mapM_map]
  exact (Except.mapM_eq_ok h).trans (congrArg Except.ok (List.map_id l))

theorem textDict_textDictValue (entries : List (String × String)) :
    textDict (textDictValue entries) = .ok entries := by
  have hread : ∀ e ∈ entries, textEntry (e.1, .str e.2) = .ok e := fun _ _ => rfl
  change (entries.map fun e => (e.1, Value.str e.2)).mapM textEntry = Except.ok entries
  rw [List.mapM_map]
  exact (Except.mapM_eq_ok hread).trans (congrArg Except.ok (List.map_id entries))

/-- The value of a key in a list of keys with their values. -/
theorem lookup_map_key {γ : Type} {key : γ → String} {f : γ → Value} {l : List γ}
    (hl : (l.map key).Nodup) {a : γ} (ha : a ∈ l) :
    (l.map fun c => (key c, f c)).lookup (key a) = some (f a) := by
  induction l with
  | nil => cases ha
  | cons b rest ih =>
    rw [List.map_cons, List.nodup_cons] at hl
    rw [List.map_cons]
    rcases List.mem_cons.mp ha with rfl | ha
    · exact List.lookup_cons_self
    · have hne : key a ≠ key b := fun h => hl.1 (h ▸ List.mem_map_of_mem ha)
      rw [List.lookup_cons, beq_eq_false_iff_ne.mpr hne]
      exact ih hl.2 ha

theorem mcpSettings_nodup : (mcpSettings.map Prod.fst).Nodup := by decide

/-- The settings of a server, with other keys after them, are those settings. -/
theorem settingsOf_append (d rest : Dict) : settingsOf (settingsOf d ++ rest) = settingsOf d := by
  unfold settingsOf
  refine List.map_congr_left fun s hs => ?_
  unfold Dict.getOr
  rw [List.lookup_append, lookup_map_key mcpSettings_nodup hs]
  rfl

theorem lookup_settingsOf {d : Dict} {key : String} (h : key ∉ mcpSettings.map Prod.fst) :
    (settingsOf d).lookup key = none := by
  rw [List.lookup_eq_none_iff]
  intro e he
  obtain ⟨s, hs, rfl⟩ := List.mem_map.mp he
  refine bne_iff_ne.mpr ?_
  rintro rfl
  exact h (List.mem_map_of_mem hs)

/-- **A server that was read is read again from its dump.** -/
theorem mcpServerConfig_dump {v : Value} {srv : McpServer} (h : mcpServerConfig v = .ok srv) :
    mcpServerConfig (dump srv) = .ok srv := by
  unfold mcpServerConfig at h
  obtain ⟨d, -, h⟩ := Except.bind_eq_ok_iff.mp h
  obtain ⟨_, haccepted, h⟩ := Except.bind_eq_ok_iff.mp h
  obtain ⟨params, -, h⟩ := Except.bind_eq_ok_iff.mp h
  obtain ⟨env, -, h⟩ := Except.bind_eq_ok_iff.mp h
  cases h
  have hparams : Dict.getOr (settingsOf d ++ [("params", textDictValue params),
      ("env", textDictValue env)]) "params" (.dict []) = textDictValue params := by
    unfold Dict.getOr
    rw [List.lookup_append, lookup_settingsOf (by decide)]
    rfl
  have henv : Dict.getOr (settingsOf d ++ [("params", textDictValue params),
      ("env", textDictValue env)]) "env" (.dict []) = textDictValue env := by
    unfold Dict.getOr
    rw [List.lookup_append, lookup_settingsOf (by decide)]
    rfl
  unfold mcpServerConfig
  refine Except.bind_eq_ok_iff.mpr ⟨_, rfl, Except.bind_eq_ok_iff.mpr ⟨(), ?_, ?_⟩⟩
  · rw [settingsOf_append]
    exact haccepted
  · refine Except.bind_eq_ok_iff.mpr ⟨params, ?_, Except.bind_eq_ok_iff.mpr ⟨env, ?_, ?_⟩⟩
    · rw [hparams, textDict_textDictValue]
    · rw [henv, textDict_textDictValue]
    · rw [settingsOf_append]
      rfl

/-- The schema as its validators leave it. -/
structure Valid (agent : AgentCreateSchema) : Prop where
  model : Text.strip agent.agentModel = agent.agentModel
  params : ∀ params, agent.agentModelParams = some params → stripCredentials params = params
  servers : ∀ srv ∈ agent.mcpServers.getD [], mcpServerConfig (dump srv) = .ok srv

/-! ## 5. The credentials -/

variable {params plain stored : Dict} {key : String} {v : Value}

theorem stripCredential_stripCredential (key : String) (v : Value) :
    stripCredential key (stripCredential key v) = stripCredential key v := by
  cases v with
  | str s =>
    simp only [stripCredential]
    split
    · rw [Text.strip_strip]
    · rfl
  | _ => rfl

theorem stripCredentials_stripCredentials (params : Dict) :
    stripCredentials (stripCredentials params) = stripCredentials params := by
  unfold stripCredentials
  rw [List.map_map]
  exact List.map_congr_left fun e _ =>
    Prod.ext rfl (stripCredential_stripCredential e.1 e.2)

theorem stripCredentials_put (params : Dict) (key : String) (v : Value) :
    stripCredentials (params.put key v) = (stripCredentials params).put key (stripCredential key v) := by
  induction params with
  | nil => rfl
  | cons entry rest ih =>
    obtain ⟨k, w⟩ := entry
    by_cases hk : k = key
    · simp [Dict.put, stripCredentials, hk]
    · simp only [Dict.put, if_neg hk, stripCredentials, List.map_cons]
      exact congrArg _ ih

theorem stripCredentials_filter (params : Dict) (keep : String → Bool) :
    stripCredentials (params.filter fun e => keep e.1) =
      (stripCredentials params).filter fun e => keep e.1 := by
  unfold stripCredentials
  rw [List.filter_map]
  rfl

/-- A value of parameters that are stripped is stripped. -/
theorem stripCredential_of_lookup (hstrip : stripCredentials params = params)
    (h : params.lookup key = some v) : stripCredential key v = v := by
  have hmap : (stripCredentials params).lookup key = some (stripCredential key v) := by
    unfold stripCredentials
    rw [Dict.lookup_map, h, Option.map_some]
  rw [hstrip, h, Option.some.injEq] at hmap
  exact hmap.symm

theorem stripCredentials_stripDefaultLlmParams (agentModel : String)
    (hstrip : stripCredentials params = params) :
    stripCredentials (stripDefaultLlmParams agentModel params) =
      stripDefaultLlmParams agentModel params := by
  unfold stripDefaultLlmParams
  split
  · rw [stripCredentials_filter params fun key => decide (key ∉ secretParamKeys), hstrip]
  · exact hstrip

theorem stripDefaultLlmParams_self (agentModel : String) (params : Dict) :
    stripDefaultLlmParams agentModel (stripDefaultLlmParams agentModel params) =
      stripDefaultLlmParams agentModel params := by
  unfold stripDefaultLlmParams
  split
  · rw [List.filter_filter]
    simp only [Bool.and_self]
  · rfl

theorem stripCredentials_unmaskModelApiKey (hplain : stripCredentials plain = plain)
    (hstored : stripCredentials stored = stored) :
    stripCredentials (unmaskModelApiKey plain stored) = unmaskModelApiKey plain stored := by
  unfold unmaskModelApiKey
  split
  · exact hplain
  · rw [stripCredentials_put, hplain]
    congr 1
    unfold Value.orElse
    split
    · rename_i htruthy
      refine stripCredential_of_lookup hstored (Dict.lookup_of_get rfl fun hnull => ?_)
      rw [hnull] at htruthy
      cases htruthy
    · decide

/-- What is encrypted: nothing, or the key. -/
theorem encryptModelApiKey_eq_ok {C : Cipher} (h : encryptModelApiKey C plain = .ok stored) :
    (plain.get "model_api_key" = .null ∧ stored = plain) ∨
      ∃ s, plain.get "model_api_key" = .str s ∧
        stored = plain.put "model_api_key" (.str (C.encrypt s)) := by
  unfold encryptModelApiKey at h
  split at h
  · rename_i hnull
    cases h
    exact .inl ⟨hnull, rfl⟩
  · rename_i s hkey
    cases h
    exact .inr ⟨s, hkey, rfl⟩
  · cases h

/-- **What was encrypted opens to what it was.** -/
theorem decryptModelApiKey_of_encrypt {C : Cipher} (h : encryptModelApiKey C plain = .ok stored) :
    decryptModelApiKey C stored = plain := by
  rcases encryptModelApiKey_eq_ok h with ⟨hnull, rfl⟩ | ⟨s, hkey, rfl⟩
  · simp only [decryptModelApiKey, hnull]
  · have hget : (plain.put "model_api_key" (.str (C.encrypt s))).get "model_api_key" =
        .str (C.encrypt s) := by
      rw [Dict.get, Dict.lookup_put, if_pos rfl, Option.getD_some]
    simp only [decryptModelApiKey, hget, C.decrypt_encrypt]
    rw [Dict.put_put, Dict.put_self (Dict.lookup_of_get hkey (by simp))]

/-- `mask_model_api_key`. -/
def maskModelApiKey (params : Dict) : Dict :=
  if (params.get "model_api_key").truthy then params.put "model_api_key" (.str maskedApiKey)
  else params

/-- **What was masked is unmasked to what it was**, through the validators. -/
theorem unmaskModelApiKey_mask (hstrip : stripCredentials plain = plain) :
    unmaskModelApiKey (stripCredentials (maskModelApiKey plain)) plain = plain := by
  unfold maskModelApiKey
  split
  · rename_i htruthy
    have hmask : stripCredential "model_api_key" (.str maskedApiKey) = .str maskedApiKey := by decide
    rw [stripCredentials_put, hstrip, hmask]
    unfold unmaskModelApiKey
    rw [Dict.get, Dict.lookup_put, if_pos rfl, Option.getD_some, if_neg (not_not.mpr rfl),
      Dict.put_put, Value.orElse, if_pos htruthy]
    refine Dict.put_self (Dict.lookup_of_get rfl fun hnull => ?_)
    rw [hnull] at htruthy
    cases htruthy
  · rename_i hfalsy
    rw [hstrip]
    unfold unmaskModelApiKey
    refine if_pos fun hmask => hfalsy ?_
    rw [hmask]
    decide

/-- What the validators leave. -/
theorem valid_of_validated {P : Lenient} {d : Dict} {agent : AgentCreateSchema}
    (h : Validated P d agent) : Valid agent where
  model := by
    have hmodel := h.agentModel
    unfold required field at hmodel
    split at hmodel
    · cases hmodel
    · obtain ⟨s, -, hs⟩ := Except.map_eq_ok_iff.mp hmodel
      rw [← hs, Text.strip_strip]
  params := by
    intro params hparams
    have hread := h.agentModelParams
    unfold field at hread
    split at hread
    · rw [hparams] at hread
      cases hread
    · obtain ⟨sent, -, hsent⟩ := Except.map_eq_ok_iff.mp hread
      rw [hparams] at hsent
      obtain ⟨raw, -, rfl⟩ := Option.map_eq_some_iff.mp hsent
      exact stripCredentials_stripCredentials raw
  servers := by
    intro srv hsrv
    obtain ⟨servers, hservers⟩ : ∃ servers, agent.mcpServers = some servers := by
      cases hnone : agent.mcpServers with
      | none =>
        rw [hnone] at hsrv
        cases hsrv
      | some servers => exact ⟨servers, rfl⟩
    rw [hservers, Option.getD_some] at hsrv
    have hread := h.mcpServers
    rw [hservers] at hread
    unfold optional field nullable at hread
    split at hread
    · cases hread
    · split at hread
      · cases hread
      · obtain ⟨_, hlist, heq⟩ := Except.map_eq_ok_iff.mp hread
        cases heq
        unfold listOf at hlist
        split at hlist
        · obtain ⟨v, -, hv⟩ := Except.exists_of_mem_mapM hlist hsrv
          exact mcpServerConfig_dump hv
        · cases hlist

end Apowerb.Agent.Schema
