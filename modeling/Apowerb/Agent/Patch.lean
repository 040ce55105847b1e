/-
# A partial update

`PATCH /api/agents/{id}` (`routers/agents.py`: `patch_agent`) reads the stored agent with its API
key masked, puts the changes over it, validates the whole as the body of a PUT, and hands it to
`update_agent`.

* `patch_changes_only`: what is not named stays as it is stored, and what is named is what was sent,
  as the schema reads it.
* `default_model_drops_key`: the model may take the parameters of the agent along.

What is compared is what `get_agent` gives to its callers in the server, with its secrets open.  A
STORED row is one that `register_agent` or `update_agent` wrote for a schema as its validators leave
it.  The patch goes round through a text, a mask and a token for some columns, and every one of
them comes back, since a stored row is a fixed point of the validators (`Sound`).

The exception is deliberate: an agent with the shared model keeps no key and no endpoint of its own.

The two columns of schemas are handed out as texts, and `_decode_json_text` reads them back; here
they are the values that are read.
-/
import Apowerb.Agent.Register
import Apowerb.Agent.Schema

namespace Apowerb.Agent.Patch

open Definition Propagate Register Schema

variable {α : Type}

/-! ## 1. The patch -/

/-- A text that may be null. -/
def optionalText : Option String → Value
  | some s => .str s
  | none => .null

/-- A dict that may be null. -/
def optionalDict : Option Dict → Value
  | some d => .dict d
  | none => .null

def texts (names : List String) : Value := .list (names.map .str)

/-- The fields of the schema in what `get_agent` returns, for an opened row.  What is stored as NULL
where it is empty comes as null, and the bound of a loop as the text of its column. -/
def asDict (row : Row) : Dict :=
  [("agent_name", .str row.agentName),
    ("agent_model", .str row.agentModel),
    ("agent_model_params", .dict (maskModelApiKey row.agentModelParams)),
    ("agent_description", .str row.agentDescription),
    ("agent_instruction", .str row.agentInstruction),
    ("agent_tools", texts row.agentTools),
    ("agent_type", .str row.agentType),
    ("sub_agents", texts row.subAgents),
    ("output_key", optionalText row.outputKey),
    ("output_schema_name", optionalText row.outputSchemaName),
    ("skip_when_upstream", optionalText row.skipWhenUpstream),
    ("input_schema", optionalDict row.inputSchema),
    ("output_schema", optionalDict row.outputSchema),
    ("code_executor", optionalText row.codeExecutor),
    ("project_id", .str row.projectId),
    ("tags", texts row.tags),
    ("guardrails_config",
      if row.guardrailsConfig = [] then .null else .dict row.guardrailsConfig),
    ("memory_enabled", .bool row.memoryEnabled),
    ("case_bank_enabled", .bool row.caseBankEnabled),
    ("artifacts_enabled", .bool row.artifactsEnabled),
    ("superagent_template_id", optionalText row.superagentTemplateId),
    ("loop_max_iterations", optionalText (row.loopMaxIterations.map toString)),
    ("loop_exit_instruction", optionalText row.loopExitInstruction),
    ("mcp_servers",
      if row.mcpServers = [] then .null else .list (row.mcpServers.map dump)),
    ("agent_skills", texts row.agentSkills),
    ("hub_origin_id", optionalText row.hubOriginId)]

/-- `{**current, **changes}`. -/
def merge (current changes : Dict) : Dict := changes.foldr (fun e d => d.put e.1 e.2) current

/-- The schema with what the router adds. -/
def withOwner (agent : AgentCreateSchema) (organizationId : String) : AgentCreateSchema :=
  { agent with
    organizationId := organizationId
    modelFieldsSet := agent.modelFieldsSet ++ ["owner_id", "organization_id"] }

/-- `patch_agent`, and the `update_agent` of the router behind it, which adds the organization of the
caller.  `validateAgentModel` is whether the model passes `validate_agent_model`. -/
def patchAgent (P : Lenient) (C : Cipher)
    (validateAgentModel : String → Option Dict → String → Bool) (limit : Nat) (σ : Store)
    (agentId organizationId : String) (changes : Dict) : Except Raised Propagated := do
  refuse (∃ e ∈ changes, e.1 ∉ modelFields) (.other "HTTPException")
  match agentNumber? agentId with
  | none => .error (.other "ValueError")
  | some cleanId =>
    match ← getAgent C σ cleanId with
    | none => .error (.other "HTTPException")
    | some current =>
      let agent ← modelValidate P (merge (asDict current) changes)
      refuse (validateAgentModel agent.agentModel agent.agentModelParams agent.agentType = false)
        (.other "HTTPException")
      updateAgent C limit σ cleanId (withOwner agent organizationId)

/-! ## 2. What a patch is to do -/

/-- One column: as it was where the changes do not name the field, and as what was sent is read
where they do. -/
def Column (changes : Dict) (name : String) (read : Value → Except Raised α) (old new : α) : Prop :=
  match changes.lookup name with
  | none => new = old
  | some v => read v = .ok new

/-- A list or a dict that is null is empty. -/
def orEmpty {γ : Type} (read : Value → Except Raised (Option (List γ))) (v : Value) :
    Except Raised (List γ) := (·.getD []) <$> read v

/-- The agent before and after a patch, each with its secrets open.

A loop without a bound is one whose bound is zero; a null for the case bank leaves it as it is; a
masked API key stands for the stored one; an agent with the shared model has no secret parameters.
Not said is what becomes of a hub agent that the changes name. -/
structure Patched (P : Lenient) (changes : Dict) (organizationId : String) (old new : Row) :
    Prop where
  agentName : Column changes "agent_name" text old.agentName new.agentName
  agentModel : Column changes "agent_model" modelName old.agentModel new.agentModel
  paramsSent : ∀ v, changes.lookup "agent_model_params" = some v → ∃ sent,
    modelParams v = .ok sent ∧ new.agentModelParams =
      stripDefaultLlmParams new.agentModel
        (unmaskModelApiKey (sent.getD []) old.agentModelParams)
  paramsKept : changes.lookup "agent_model_params" = none → new.agentModelParams =
    if changes.lookup "agent_model" = none then old.agentModelParams
    else stripDefaultLlmParams new.agentModel old.agentModelParams
  agentDescription :
    Column changes "agent_description" text old.agentDescription new.agentDescription
  agentInstruction :
    Column changes "agent_instruction" text old.agentInstruction new.agentInstruction
  agentTools :
    Column changes "agent_tools" (orEmpty (nullable (listOf text))) old.agentTools new.agentTools
  agentType : Column changes "agent_type" text old.agentType new.agentType
  subAgents :
    Column changes "sub_agents" (orEmpty (nullable (listOf text))) old.subAgents new.subAgents
  outputKey : Column changes "output_key" (nullable text) old.outputKey new.outputKey
  outputSchemaName :
    Column changes "output_schema_name" (nullable text) old.outputSchemaName new.outputSchemaName
  skipWhenUpstream :
    Column changes "skip_when_upstream" (nullable text) old.skipWhenUpstream new.skipWhenUpstream
  inputSchema : Column changes "input_schema" jsonDict old.inputSchema new.inputSchema
  outputSchema : Column changes "output_schema" jsonDict old.outputSchema new.outputSchema
  codeExecutor : Column changes "code_executor" (nullable text) old.codeExecutor new.codeExecutor
  projectId : Column changes "project_id" text old.projectId new.projectId
  tags : Column changes "tags" (orEmpty (nullable (listOf text))) old.tags new.tags
  guardrailsConfig : Column changes "guardrails_config" (orEmpty jsonDict) old.guardrailsConfig
    new.guardrailsConfig
  memoryEnabled : Column changes "memory_enabled" P.readFlag old.memoryEnabled new.memoryEnabled
  caseBankEnabled : Column changes "case_bank_enabled"
    (fun v => (·.getD old.caseBankEnabled) <$> nullable P.readFlag v) old.caseBankEnabled
      new.caseBankEnabled
  artifactsEnabled :
    Column changes "artifacts_enabled" P.readFlag old.artifactsEnabled new.artifactsEnabled
  superagentTemplateId : Column changes "superagent_template_id" (nullable text)
    old.superagentTemplateId new.superagentTemplateId
  loopMaxIterations : Column changes "loop_max_iterations"
    (fun v => (·.filter (· ≠ 0)) <$> nullable P.readInt v) old.loopMaxIterations
      new.loopMaxIterations
  loopExitInstruction : Column changes "loop_exit_instruction" (nullable text)
    old.loopExitInstruction new.loopExitInstruction
  mcpServers : Column changes "mcp_servers" (orEmpty (nullable (listOf mcpServerConfig)))
    old.mcpServers new.mcpServers
  agentSkills :
    Column changes "agent_skills" (orEmpty (nullable (listOf text))) old.agentSkills new.agentSkills
  hubOriginId : changes.lookup "hub_origin_id" = none → new.hubOriginId = old.hubOriginId
  organizationId : new.organizationId = organizationId
  others : new.createdAt = old.createdAt ∧ new.status = old.status ∧
    new.superagentTemplateVersionHash = old.superagentTemplateVersionHash

/-! ## 3. The rows that can be stored -/

variable {C : Cipher} {P : Lenient} {templateHash : String → Option String} {row : Row}

/-- The rows that `register_agent` and `update_agent` can have stored. -/
inductive Stored (C : Cipher) (templateHash : String → Option String) : Row → Prop
  | registered {agent : AgentCreateSchema} {createdAt : String} {hubOriginId : Option String}
      {params : Dict} (hvalid : Valid agent)
      (hparams : encryptModelApiKey C (registerParams agent) = .ok params) :
      Stored C templateHash (newRow C templateHash createdAt hubOriginId agent params)
  | updated {previous : Row} {servers : List McpServer} {agent : AgentCreateSchema} {params : Dict}
      (hprevious : Stored C templateHash previous) (hvalid : Valid agent)
      (hservers : decryptMcpServers C previous.mcpServers = .ok servers)
      (hparams : encryptModelApiKey C (agent.paramsToStore (some (previous.opened C servers))) =
        .ok params) :
      Stored C templateHash
        ((agent.keepOmitted (some (previous.opened C servers))).row C params previous)

/-- What every stored row has: its columns come back as they are from the validators. -/
structure Sound (C : Cipher) (row : Row) : Prop where
  model : Text.strip row.agentModel = row.agentModel
  params : ∃ plain, encryptModelApiKey C plain = .ok row.agentModelParams ∧
    stripCredentials plain = plain ∧ stripDefaultLlmParams row.agentModel plain = plain
  servers : ∃ servers, row.mcpServers = encryptMcpServers C servers ∧
    ∀ srv ∈ servers, mcpServerConfig (dump srv) = .ok srv
  loop : row.loopMaxIterations ≠ some 0

theorem decryptMcpServers_encrypt (servers : List McpServer) :
    decryptMcpServers C (encryptMcpServers C servers) = .ok servers := by
  have hvalues (secrets : List (String × String)) :
      decryptValues C (encryptValues C secrets) = .ok secrets := by
    unfold decryptValues encryptValues
    rw [List.mapM_map]
    refine (Except.mapM_eq_ok fun e _ => ?_).trans (congrArg Except.ok (List.map_id secrets))
    simp [C.decrypt_encrypt]
  unfold decryptMcpServers encryptMcpServers
  rw [List.mapM_map]
  refine (Except.mapM_eq_ok fun srv _ => ?_).trans (congrArg Except.ok (List.map_id servers))
  refine Except.bind_eq_ok_iff.mpr ⟨srv.params, hvalues _, ?_⟩
  exact Except.bind_eq_ok_iff.mpr ⟨srv.env, hvalues _, rfl⟩

/-- What `get_agent` gives for a stored row is what was encrypted. -/
theorem Sound.opened (h : Sound C row) : ∃ old servers,
    decryptMcpServers C row.mcpServers = .ok servers ∧ old = row.opened C servers ∧
      stripCredentials old.agentModelParams = old.agentModelParams ∧
      stripDefaultLlmParams row.agentModel old.agentModelParams = old.agentModelParams ∧
      ∀ srv ∈ old.mcpServers, mcpServerConfig (dump srv) = .ok srv := by
  obtain ⟨plain, hplain, hstrip, hdefault⟩ := h.params
  obtain ⟨servers, hservers, hread⟩ := h.servers
  refine ⟨_, servers, by rw [hservers, decryptMcpServers_encrypt], rfl, ?_, ?_, hread⟩
  · simpa only [Row.opened, decryptModelApiKey_of_encrypt hplain] using hstrip
  · simpa only [Row.opened, decryptModelApiKey_of_encrypt hplain] using hdefault

theorem filter_ne_zero (loop : Option Int) : loop.filter (· ≠ 0) ≠ some 0 := by
  intro h
  have hzero := Option.filter_eq_some_iff.mp h
  simp at hzero

/-- **Every stored row is sound.** -/
theorem Stored.sound (h : Stored C templateHash row) : Sound C row := by
  induction h with
  | registered hvalid hparams =>
    rename_i agent createdAt hubOriginId params
    refine ⟨hvalid.model, ⟨_, hparams, ?_, stripDefaultLlmParams_self _ _⟩,
      ⟨_, rfl, hvalid.servers⟩, filter_ne_zero _⟩
    unfold registerParams
    refine stripCredentials_stripDefaultLlmParams _ ?_
    cases hsent : agent.agentModelParams with
    | none => rfl
    | some sent => exact hvalid.params sent hsent
  | updated hprevious hvalid hservers hparams ih =>
    rename_i previous servers agent params
    refine ⟨hvalid.model, ⟨_, hparams, ?_, stripDefaultLlmParams_self _ _⟩,
      ⟨_, rfl, hvalid.servers⟩, filter_ne_zero _⟩
    obtain ⟨plain, hplain, hstrip, -⟩ := ih.params
    unfold AgentCreateSchema.paramsToStore
    refine stripCredentials_stripDefaultLlmParams _ (stripCredentials_unmaskModelApiKey ?_ ?_)
    · cases hsent : agent.agentModelParams with
      | none => rfl
      | some sent => exact hvalid.params sent hsent
    · simpa only [Option.map_some, Option.getD_some, Row.opened,
        decryptModelApiKey_of_encrypt hplain] using hstrip

/-! ## 4. A column -/

variable {β : Type} {current changes : Dict} {name : String} {cur : Value} {old new : β}
  {read : Value → Except Raised α} {default : Except Raised α}

theorem lookup_merge (current changes : Dict) (key : String) :
    (merge current changes).lookup key = (changes.lookup key).or (current.lookup key) := by
  induction changes with
  | nil => rfl
  | cons e rest ih =>
    obtain ⟨k, v⟩ := e
    change ((merge current rest).put k v).lookup key = _
    rw [Dict.lookup_put, List.lookup_cons]
    by_cases h : key = k
    · simp [h]
    · rw [if_neg h, ih, beq_eq_false_iff_ne.mpr h]

/-- **The frame of one column.**  What the merged dict is read as is what was sent, or what the
stored value is read as. -/
theorem Column.of_field {g : α → β} {a : α} (hcur : current.lookup name = some cur)
    (hold : ∀ x, read cur = .ok x → g x = old)
    (h : field (merge current changes) name default read = .ok a) :
    Column changes name (fun v => g <$> read v) old (g a) := by
  unfold field at h
  rw [lookup_merge, hcur] at h
  unfold Column
  cases hsent : changes.lookup name with
  | none =>
    rw [hsent] at h
    exact hold a h
  | some v =>
    rw [hsent] at h
    exact Except.map_eq_ok_iff.mpr ⟨a, h, rfl⟩

/-- A column that is stored as it is read. -/
theorem Column.of_field_self {read : Value → Except Raised β} {default : Except Raised β}
    (hcur : current.lookup name = some cur) (hold : ∀ x, read cur = .ok x → x = old)
    (h : field (merge current changes) name default read = .ok new) :
    Column changes name read old new := by
  have hid : (fun v => id <$> read v) = read := funext fun v => id_map (read v)
  have hmapped := Column.of_field (g := id) hcur hold h
  rwa [hid] at hmapped

/-! What each kind of column is read as. -/

theorem text_str {s x : String} (h : text (.str s) = .ok x) : x = s := by
  cases h
  rfl

theorem nullable_null {read : Value → Except Raised β} {x : Option β}
    (h : nullable read .null = .ok x) : x = none := by
  rw [nullable, if_pos rfl] at h
  cases h
  rfl

theorem nullable_of_ne {read : Value → Except Raised β} {v : Value} {x : Option β}
    (h : nullable read v = .ok x) (hv : v ≠ .null) : ∃ b, read v = .ok b ∧ x = some b := by
  rw [nullable, if_neg hv] at h
  obtain ⟨b, hb, rfl⟩ := Except.map_eq_ok_iff.mp h
  exact ⟨b, hb, rfl⟩

theorem nullable_text {o x : Option String} (h : nullable text (optionalText o) = .ok x) :
    x = o := by
  cases o with
  | none => exact nullable_null h
  | some s =>
    obtain ⟨b, hb, rfl⟩ := nullable_of_ne h nofun
    rw [text_str hb]

theorem nullable_texts {names : List String} {x : Option (List String)}
    (h : nullable (listOf text) (texts names) = .ok x) : x.getD [] = names := by
  obtain ⟨b, hb, rfl⟩ := nullable_of_ne h nofun
  have hread : listOf text (.list (names.map .str)) = .ok names := listOf_map fun _ _ => rfl
  unfold texts at hb
  cases hread.symm.trans hb
  rfl

theorem jsonDict_optionalDict {o x : Option Dict} (h : jsonDict (optionalDict o) = .ok x) :
    x = o := by
  cases o with
  | none => exact nullable_null h
  | some d =>
    obtain ⟨b, hb, rfl⟩ := nullable_of_ne h nofun
    cases hb
    rfl

theorem jsonDict_emptyNull {d : Dict} {x : Option Dict}
    (h : jsonDict (if d = [] then .null else .dict d) = .ok x) : x.getD [] = d := by
  split at h
  · rename_i hempty
    rw [nullable_null h, hempty]
    rfl
  · obtain ⟨b, hb, rfl⟩ := nullable_of_ne h nofun
    cases hb
    rfl

theorem readFlag_bool {b x : Bool} (h : P.readFlag (.bool b) = .ok x) : x = b := by
  rw [Lenient.readFlag, P.flag_bool] at h
  cases h
  rfl

theorem nullable_flag {b : Bool} {x : Option Bool} (h : nullable P.readFlag (.bool b) = .ok x) :
    x.getD b = b := by
  obtain ⟨c, hc, rfl⟩ := nullable_of_ne h nofun
  exact readFlag_bool hc

/-- The bound of a loop comes back from the text of its column. -/
theorem nullable_bound {loop x : Option Int}
    (h : nullable P.readInt (optionalText (loop.map toString)) = .ok x) : x = loop := by
  cases loop with
  | none => exact nullable_null h
  | some n =>
    obtain ⟨m, hm, rfl⟩ := nullable_of_ne h nofun
    unfold Lenient.readInt at hm
    split at hm
    · rename_i k hk
      cases hm
      rw [P.int_text n _ hk]
    · cases hm

theorem nullable_servers {servers : List McpServer} {x : Option (List McpServer)}
    (hread : ∀ srv ∈ servers, mcpServerConfig (dump srv) = .ok srv)
    (h : nullable (listOf mcpServerConfig)
      (if servers = [] then .null else .list (servers.map dump)) = .ok x) :
    x.getD [] = servers := by
  split at h
  · rename_i hempty
    rw [nullable_null h, hempty]
    rfl
  · obtain ⟨b, hb, rfl⟩ := nullable_of_ne h nofun
    cases (listOf_map hread).symm.trans hb
    rfl

theorem modelName_str {s x : String} (hs : Text.strip s = s) (h : modelName (.str s) = .ok x) :
    x = s := by
  obtain ⟨_, hs', rfl⟩ := Except.map_eq_ok_iff.mp h
  rw [text_str hs', hs]

theorem modelParams_dict {d : Dict} {x : Option Dict} (h : modelParams (.dict d) = .ok x) :
    x = some (stripCredentials d) := by
  obtain ⟨o, ho, rfl⟩ := Except.map_eq_ok_iff.mp h
  obtain ⟨b, hb, rfl⟩ := nullable_of_ne ho nofun
  cases hb
  rfl

theorem filter_of_ne_zero {loop : Option Int} (h : loop ≠ some 0) : loop.filter (· ≠ 0) = loop := by
  cases loop with
  | none => rfl
  | some n =>
    refine Option.filter_some_pos (decide_eq_true ?_)
    rintro rfl
    exact h rfl

/-! ## 5. The row that is written -/

variable {agent : AgentCreateSchema} {params : Dict} {servers sent : List McpServer}
  {organizationId : String}

/-- `_PRESERVE_WHEN_OMITTED`. -/
def preserveWhenOmitted : List String :=
  ["output_key", "output_schema_name", "skip_when_upstream", "superagent_template_id",
    "loop_exit_instruction", "code_executor"]

/-- A schema that names all of these is stored as it is. -/
theorem keepOmitted_of_named (existing : Option Row)
    (h : ∀ name ∈ preserveWhenOmitted, name ∈ agent.modelFieldsSet) :
    agent.keepOmitted existing = agent := by
  simp only [preserveWhenOmitted, List.forall_mem_cons] at h
  obtain ⟨h1, h2, h3, h4, h5, h6, -⟩ := h
  simp only [AgentCreateSchema.keepOmitted, if_pos h1, if_pos h2, if_pos h3, if_pos h4, if_pos h5,
    if_pos h6]

theorem preserveWhenOmitted_fields : ∀ name ∈ preserveWhenOmitted, name ∈ modelFields := by decide

/-- The stored agent names them all. -/
theorem preserveWhenOmitted_asDict (row : Row) :
    ∀ name ∈ preserveWhenOmitted, ((asDict row).lookup name).isSome := by
  simp only [preserveWhenOmitted, List.forall_mem_cons]
  exact ⟨rfl, rfl, rfl, rfl, rfl, rfl, nofun⟩

theorem withOwner_named (h : Validated P (merge (asDict row) changes) agent) :
    ∀ name ∈ preserveWhenOmitted, name ∈ (withOwner agent organizationId).modelFieldsSet := by
  intro name hname
  simp only [withOwner, h.modelFieldsSet]
  refine List.mem_append_left _ (List.mem_filter.mpr ⟨preserveWhenOmitted_fields name hname, ?_⟩)
  rw [lookup_merge, Option.isSome_or, preserveWhenOmitted_asDict row name hname, Bool.or_true]

section Params

variable {row : Row} (h : Validated P (merge (asDict row) changes) agent)
include h

theorem params_sent {v : Value} (hsent : changes.lookup "agent_model_params" = some v) :
    modelParams v = .ok agent.agentModelParams := by
  have hread := h.agentModelParams
  unfold field at hread
  rw [lookup_merge, hsent] at hread
  exact hread

/-- The parameters that are not named come back through the mask. -/
theorem params_kept (hkept : changes.lookup "agent_model_params" = none)
    (hstrip : stripCredentials row.agentModelParams = row.agentModelParams) :
    unmaskModelApiKey (agent.agentModelParams.getD []) row.agentModelParams =
      row.agentModelParams := by
  have hread := h.agentModelParams
  unfold field at hread
  rw [lookup_merge, hkept] at hread
  rw [modelParams_dict hread, Option.getD_some, unmaskModelApiKey_mask hstrip]

end Params

/-- **What is written**: the agent after it, opened, differs from the agent before it where the
changes say so. -/
theorem patched_of_validated (hsound : Sound C row)
    (hservers : decryptMcpServers C row.mcpServers = .ok servers)
    (h : Validated P (merge (asDict (row.opened C servers)) changes) agent)
    (hparams : encryptModelApiKey C ((withOwner agent organizationId).paramsToStore
      (some (row.opened C servers))) = .ok params) :
    Patched P changes organizationId (row.opened C servers)
      (((withOwner agent organizationId).row C params row).opened C (agent.mcpServers.getD [])) := by
  obtain ⟨_, servers', hservers', rfl, hstrip, hdefault, hread⟩ := hsound.opened
  cases hservers.symm.trans hservers'
  have hplain : decryptModelApiKey C params = stripDefaultLlmParams agent.agentModel
      (unmaskModelApiKey (agent.agentModelParams.getD [])
        (row.opened C servers).agentModelParams) :=
    decryptModelApiKey_of_encrypt hparams
  have hmodel : Column changes "agent_model" modelName row.agentModel agent.agentModel :=
    Column.of_field_self rfl (fun _ => modelName_str hsound.model) h.agentModel
  exact {
    agentName := Column.of_field_self rfl (fun _ => text_str) h.agentName
    agentModel := hmodel
    paramsSent := fun v hsent => ⟨_, params_sent h hsent, hplain⟩
    paramsKept := by
      intro hkept
      refine hplain.trans ?_
      rw [params_kept h hkept hstrip]
      split
      · rename_i hunnamed
        unfold Column at hmodel
        rw [hunnamed] at hmodel
        rw [hmodel]
        exact hdefault
      · rfl
    agentDescription := Column.of_field_self rfl (fun _ => text_str) h.agentDescription
    agentInstruction := Column.of_field_self rfl (fun _ => text_str) h.agentInstruction
    agentTools := Column.of_field rfl (fun _ => nullable_texts) h.agentTools
    agentType := Column.of_field_self rfl (fun _ => text_str) h.agentType
    subAgents := Column.of_field rfl (fun _ => nullable_texts) h.subAgents
    outputKey := Column.of_field_self rfl (fun _ => nullable_text) h.outputKey
    outputSchemaName := Column.of_field_self rfl (fun _ => nullable_text) h.outputSchemaName
    skipWhenUpstream := Column.of_field_self rfl (fun _ => nullable_text) h.skipWhenUpstream
    inputSchema := Column.of_field_self rfl (fun _ => jsonDict_optionalDict) h.inputSchema
    outputSchema := Column.of_field_self rfl (fun _ => jsonDict_optionalDict) h.outputSchema
    codeExecutor := Column.of_field_self rfl (fun _ => nullable_text) h.codeExecutor
    projectId := Column.of_field_self rfl (fun _ => text_str) h.projectId
    tags := Column.of_field rfl (fun _ => nullable_texts) h.tags
    guardrailsConfig := Column.of_field rfl (fun _ => jsonDict_emptyNull) h.guardrailsConfig
    memoryEnabled := Column.of_field_self rfl (fun _ => readFlag_bool) h.memoryEnabled
    caseBankEnabled := Column.of_field rfl (fun _ => nullable_flag) h.caseBankEnabled
    artifactsEnabled := Column.of_field_self rfl (fun _ => readFlag_bool) h.artifactsEnabled
    superagentTemplateId := Column.of_field_self rfl (fun _ => nullable_text) h.superagentTemplateId
    loopMaxIterations := Column.of_field rfl
      (fun _ hx => (congrArg _ (nullable_bound hx)).trans (filter_of_ne_zero hsound.loop))
      h.loopMaxIterations
    loopExitInstruction := Column.of_field_self rfl (fun _ => nullable_text) h.loopExitInstruction
    mcpServers := Column.of_field rfl (fun _ => nullable_servers hread) h.mcpServers
    agentSkills := Column.of_field rfl (fun _ => nullable_texts) h.agentSkills
    hubOriginId := fun _ => rfl
    organizationId := rfl
    others := ⟨rfl, rfl, rfl⟩ }

/-! ## 6. The patch as a whole -/

/-- The row of the agent after an update, with its sub-agents served or not. -/
theorem updateAgent_frame {limit : Nat} {σ : Store} {n : Int} {result : Propagated}
    (h : updateAgent C limit σ n agent = .ok result) :
    ∃ existing previous params, getAgent C σ n = .ok existing ∧ σ n = some previous ∧
      encryptModelApiKey C (agent.paramsToStore existing) = .ok params ∧
      result.1 n = some ((agent.keepOmitted existing).row C params previous) ∧
      (agent.propagateApiKey = false → ∀ b ≠ n, result.1 b = σ b) := by
  obtain ⟨⟨σ₁, params⟩, hstored, h⟩ := Except.bind_eq_ok_iff.mp h
  obtain ⟨existing, previous, hexisting, hprevious, hparams, rfl⟩ := storeAgent_eq_ok_iff.mp hstored
  refine ⟨existing, previous, params, hexisting, hprevious, hparams, ?_⟩
  have hown : Function.update σ n (some ((agent.keepOmitted existing).row C params previous)) n =
      some ((agent.keepOmitted existing).row C params previous) := Function.update_self ..
  split at h
  · rename_i hpropagates
    refine ⟨?_, fun hnot => absurd hpropagates (by simp [hnot])⟩
    dsimp only at h
    split at h
    · have hleaves := propagateApiKey_leaves limit h
      rw [hleaves.frame n hleaves.ends.not_below_self, hown]
    · cases h
      exact hown
  · cases h
    exact ⟨hown, fun _ b hb => Function.update_of_ne hb _ _⟩

/-- The propagation is asked for by the changes only. -/
theorem propagateApiKey_of_unnamed {row : Row}
    (h : Validated P (merge (asDict row) changes) agent)
    (hunnamed : changes.lookup "propagate_api_key" = none) : agent.propagateApiKey = false := by
  have hread := h.propagateApiKey
  unfold field at hread
  rw [lookup_merge, hunnamed] at hread
  exact (Except.ok.inj hread).symm

/-- **A patch changes only what it names.**  For agents whose rows are all stored ones, and changes
that are accepted: the agent is there before and after, the changes say what differs, and the other
agents keep their rows unless the changes ask to propagate the key. -/
theorem patch_changes_only {validateAgentModel : String → Option Dict → String → Bool}
    {limit : Nat} {σ : Store} {agentId : String} {result : Propagated}
    (hstored : ∀ n row, σ n = some row → Stored C templateHash row)
    (h : patchAgent P C validateAgentModel limit σ agentId organizationId changes = .ok result) :
    ∃ n old new, agentNumber? agentId = some n ∧ getAgent C σ n = .ok (some old) ∧
      getAgent C result.1 n = .ok (some new) ∧ Patched P changes organizationId old new ∧
      (changes.lookup "propagate_api_key" = none → ∀ b ≠ n, result.1 b = σ b) := by
  obtain ⟨-, -, h⟩ := Except.bind_eq_ok_iff.mp h
  split at h
  · cases h
  · rename_i n hnumber
    obtain ⟨found, hfound, h⟩ := Except.bind_eq_ok_iff.mp h
    cases found with
    | none => cases h
    | some old =>
      obtain ⟨agent, hagent, hchecked⟩ := Except.bind_eq_ok_iff.mp h
      obtain ⟨-, -, hupdate⟩ := Except.bind_eq_ok_iff.mp hchecked
      obtain ⟨-, hnone⟩ | ⟨row, servers, hrow, hservers, heq⟩ := getAgent_eq_ok_iff.mp hfound
      · cases hnone
      · obtain rfl := Option.some.inj heq
        have hvalidated := modelValidate_eq_ok hagent
        obtain ⟨existing, previous, params, hexisting, hprevious, hparams, hown, hothers⟩ :=
          updateAgent_frame hupdate
        cases hrow.symm.trans hprevious
        cases hexisting.symm.trans hfound
        rw [keepOmitted_of_named _ (withOwner_named hvalidated)] at hown
        refine ⟨n, _, _, hnumber, hfound, ?_,
          patched_of_validated (hstored n row hrow).sound hservers hvalidated hparams, ?_⟩
        · exact getAgent_eq_ok_iff.mpr (.inr ⟨_, _, hown, decryptMcpServers_encrypt _, rfl⟩)
        · intro hunnamed
          have hquiet := propagateApiKey_of_unnamed hvalidated hunnamed
          exact hothers hquiet

/-- What a request does to the agents, if it asks for no propagation. -/
inductive Write (P : Lenient) (C : Cipher) : Store → Store → Prop
  | put {limit : Nat} {body : Dict} {agent : AgentCreateSchema} {organizationId : String}
      {σ σ' : Store} {n : Int} {names : List String} (hagent : modelValidate P body = .ok agent)
      (hquiet : agent.propagateApiKey = false)
      (h : updateAgent C limit σ n (withOwner agent organizationId) = .ok (σ', names)) : Write P C σ σ'
  | patch {validateAgentModel : String → Option Dict → String → Bool} {limit : Nat}
      {agentId organizationId : String} {changes : Dict} {σ σ' : Store} {names : List String}
      (hquiet : changes.lookup "propagate_api_key" = none)
      (h : patchAgent P C validateAgentModel limit σ agentId organizationId changes =
        .ok (σ', names)) : Write P C σ σ'

/-- One request leaves stored rows. -/
theorem Write.stored {σ σ' : Store} (h : Write P C σ σ')
    (hstored : ∀ n row, σ n = some row → Stored C templateHash row) :
    ∀ n row, σ' n = some row → Stored C templateHash row := by
  have hput {limit : Nat} {body : Dict} {agent : AgentCreateSchema} {organizationId : String}
      {n : Int} {names : List String} (hagent : modelValidate P body = .ok agent)
      (hquiet : agent.propagateApiKey = false)
      (h : updateAgent C limit σ n (withOwner agent organizationId) = .ok (σ', names)) :
      ∀ b row, σ' b = some row → Stored C templateHash row := by
    obtain ⟨existing, previous, params, hexisting, hprevious, hparams, hown, hothers⟩ :=
      updateAgent_frame h
    intro b row hb
    by_cases hbn : b = n
    · subst hbn
      obtain ⟨hnone, -⟩ | ⟨_, servers, hrow, hservers, rfl⟩ := getAgent_eq_ok_iff.mp hexisting
      · cases hnone.symm.trans hprevious
      · cases hrow.symm.trans hprevious
        cases hb.symm.trans hown
        have hvalid := valid_of_validated (modelValidate_eq_ok hagent)
        exact .updated (hstored b _ hprevious) ⟨hvalid.model, hvalid.params, hvalid.servers⟩
          hservers hparams
    · exact hstored b row ((hothers hquiet b hbn).symm.trans hb)
  cases h with
  | put hagent hquiet h => exact hput hagent hquiet h
  | patch hquiet h =>
    obtain ⟨-, -, h⟩ := Except.bind_eq_ok_iff.mp h
    split at h
    · cases h
    · obtain ⟨found, hfound, h⟩ := Except.bind_eq_ok_iff.mp h
      cases found with
      | none => cases h
      | some old =>
        obtain ⟨agent, hagent, hchecked⟩ := Except.bind_eq_ok_iff.mp h
        obtain ⟨-, -, hupdate⟩ := Except.bind_eq_ok_iff.mp hchecked
        obtain ⟨-, hnone⟩ | ⟨_, _, -, -, heq⟩ := getAgent_eq_ok_iff.mp hfound
        · cases hnone
        · cases heq
          exact hput hagent (propagateApiKey_of_unnamed (modelValidate_eq_ok hagent) hquiet) hupdate

/-- A `bool` and an `int` are read from nothing else. -/
def strict : Lenient where
  flag
    | .bool b => some b
    | _ => none
  int
    | .int n => some n
    | _ => none
  flag_bool := fun _ => rfl
  int_int := fun _ => rfl
  int_text := nofun

/-- An agent with a key and an endpoint of its own, and a case bank. -/
def deskSchema : AgentCreateSchema :=
  { subAgentSchema (agentRow "desk") "openai/small" (.str "sk") (.str "https://llm.example.org") with
    caseBankEnabled := some true }

/-- The row that it is registered as. -/
def deskRow : Row :=
  newRow marked (fun _ => none) "2026-09-01 10:00:00" none deskSchema
    [("model_api_key", .str (mark "sk")), ("model_api_base", .str "https://llm.example.org")]

def desk : Store
  | 1 => some deskRow
  | _ => none

theorem desk_stored (n : Int) (row : Row) (h : desk n = some row) :
    Stored marked (fun _ => none) row := by
  unfold desk at h
  split at h
  · cases h
    refine .registered ⟨by decide, ?_, nofun⟩ rfl
    rintro params ⟨⟩
    decide
  · cases h

/-- A patch of that agent. -/
def patchDesk (changes : Dict) : Except Raised Propagated :=
  patchAgent strict marked (fun _ _ _ => true) 0 desk "agent1" "example.org" changes

/-- A new name, and nothing else. -/
theorem patch_changes_only_rename : ∃ result n old new,
    patchDesk [("agent_name", .str "help")] = .ok result ∧ agentNumber? "agent1" = some n ∧
      getAgent marked desk n = .ok (some old) ∧ getAgent marked result.1 n = .ok (some new) ∧
      Patched strict [("agent_name", .str "help")] "example.org" old new := by
  obtain ⟨result, h⟩ : ∃ result, patchDesk [("agent_name", .str "help")] = .ok result := ⟨_, rfl⟩
  obtain ⟨n, old, new, hn, hold, hnew, hpatched, -⟩ := patch_changes_only desk_stored h
  exact ⟨result, n, old, new, h, hn, hold, hnew, hpatched⟩

/-- **A patch that names only the model takes the key along**, where the model is the shared one.
And not every value is stored as it was sent: a model comes without the blanks around it, a zero
bounds no loop, and a null leaves the case bank on. -/
theorem default_model_drops_key :
    (∀ n row, desk n = some row → Stored marked (fun _ => none) row) ∧
    (∃ result old new, patchDesk [("agent_model", .str "thaink2/default")] = .ok result ∧
      getAgent marked desk 1 = .ok (some old) ∧ getAgent marked result.1 1 = .ok (some new) ∧
      old.agentModelParams.get "model_api_key" = .str "sk" ∧ new.agentModelParams = []) ∧
    ∃ result new, patchDesk [("agent_model", .str " openai/large "), ("case_bank_enabled", .null),
        ("loop_max_iterations", .int 0)] = .ok result ∧
      getAgent marked result.1 1 = .ok (some new) ∧ new.agentModel = "openai/large" ∧
      new.caseBankEnabled = true ∧ new.loopMaxIterations = none :=
  ⟨desk_stored, ⟨_, _, _, rfl, rfl, rfl, by decide, by decide⟩,
    _, _, rfl, rfl, by decide, by decide, by decide⟩

end Apowerb.Agent.Patch
