/-
# Propagating an API key

An update that asks for it hands its model and its API key down to the sub-agents
(`core/agent_main.py`: `propagate_api_key`), to theirs, and so on, through a whole update of each.

* `propagation_exact_iff`: this does what it says exactly where there is nobody to hand the key to.
* `propagateApiKey_never_returns`: it goes round a cycle for ever.
* `child_gets_token`: a parent with a child, and an agent that names itself.

The reason for the first is one line: `encrypt_value_in_dict` encrypts the key inside the dict from
which `update_agent` then takes the key to propagate.  A sub-agent so gets the token of the parent
for its key, and its own update encrypts that once more.

Python's recursion limit is the argument `limit`; a result is one under some limit.
-/
import Apowerb.Agent.Definition

namespace Apowerb.Agent.Propagate

open Definition

/-! ## 1. The recursion -/

/-- `int(name.replace("agent", ""))`. -/
def agentNumber? (name : String) : Option Int :=
  Text.int? (String.ofList (Text.without "agent".toList 0 name.toList))

/-- `_CREDENTIAL_KEYS`. -/
def credentialKeys : List String := ["model_api_key", "model_api_base", "model_api_version"]

/-- One entry of `_strip_credentials`. -/
def stripCredential (key : String) : Value → Value
  | .str s => .str (if key ∈ credentialKeys then Text.strip s else s)
  | v => v

/-- `_strip_credentials`. -/
def stripCredentials (params : Dict) : Dict := params.map fun e => (e.1, stripCredential e.1 e.2)

/-- The schema that is built from the stored sub-agent.  It does not ask for a propagation. -/
def subAgentSchema (sub : Row) (model : String) (key base : Value) : AgentCreateSchema where
  agentName := sub.agentName
  agentModel := Text.strip model
  agentModelParams :=
    let updated := Dict.put sub.agentModelParams "model_api_key" key
    some (stripCredentials (if base.truthy then updated.put "model_api_base" base else updated))
  agentDescription := sub.agentDescription
  agentInstruction := sub.agentInstruction
  agentTools := some sub.agentTools
  inputSchema := sub.inputSchema
  outputSchema := sub.outputSchema
  outputKey := none
  outputSchemaName := none
  skipWhenUpstream := none
  subAgents := if sub.subAgents = [] then none else some sub.subAgents
  agentType := sub.agentType
  projectId := sub.projectId
  codeExecutor := sub.codeExecutor
  tags := if sub.tags = [] then none else some sub.tags
  guardrailsConfig := if sub.guardrailsConfig = [] then none else some sub.guardrailsConfig
  memoryEnabled := sub.memoryEnabled
  caseBankEnabled := none
  artifactsEnabled := sub.artifactsEnabled
  superagentTemplateId := sub.superagentTemplateId
  loopMaxIterations := sub.loopMaxIterations
  loopExitInstruction := sub.loopExitInstruction
  mcpServers := if sub.mcpServers = [] then none else some sub.mcpServers
  agentSkills := if sub.agentSkills = [] then none else some sub.agentSkills
  propagateApiKey := false
  organizationId := sub.organizationId
  modelFieldsSet := ["agent_name", "agent_model", "agent_model_params", "agent_description",
    "agent_instruction", "agent_tools", "agent_type", "sub_agents", "code_executor",
    "input_schema", "output_schema", "memory_enabled", "artifacts_enabled", "guardrails_config",
    "superagent_template_id", "loop_max_iterations", "loop_exit_instruction", "mcp_servers",
    "agent_skills", "tags", "owner_id", "organization_id", "project_id"]

/-- The agents, and the names of those that got the key. -/
abbrev Propagated := Store × List String

/-- The loop body of `propagate_api_key`: one sub-agent, and what is below it. -/
def propagateTo (C : Cipher) (model : String) (key base : Value)
    (descend : Store → Int → Except Raised Propagated) (state : Propagated) (name : String) :
    Except Raised Propagated :=
  match agentNumber? name with
  | none => .error (.other "ValueError")
  | some numericId => do
    match ← getAgent C state.1 numericId with
    | none => .ok state
    | some sub => do
      let stored ← storeAgent C state.1 numericId (subAgentSchema sub model key base)
      if sub.subAgents = [] then .ok (stored.1, state.2 ++ [name])
      else do
        let below ← descend stored.1 numericId
        .ok (below.1, state.2 ++ name :: below.2)

/-- `model or agent.get("agent_model", "")`. -/
def effectiveModel (model : String) (agent : Row) : String :=
  if model = "" then agent.agentModel else model

/-- `propagate_api_key`. -/
def propagateApiKey (C : Cipher) (key base : Value) :
    Nat → String → Store → Int → Except Raised Propagated
  | 0, _, _, _ => .error (.other "RecursionError")
  | limit + 1, model, σ, agentId => do
    match ← getAgent C σ agentId with
    | none => .ok (σ, [])
    | some agent =>
      let model := effectiveModel model agent
      agent.subAgents.foldlM
        (propagateTo C model key base (propagateApiKey C key base limit model)) (σ, [])

/-- `update_agent`: the agents after it, and the names of those that got the key. -/
def updateAgent (C : Cipher) (limit : Nat) (σ : Store) (agentId : Int)
    (agent : AgentCreateSchema) : Except Raised Propagated := do
  let stored ← storeAgent C σ agentId agent
  if agent.propagateApiKey then
    -- The dict that has been stored: its key is a token by now.
    let apiKey := stored.2.get "model_api_key"
    if apiKey.truthy || isDefaultLlmModel agent.agentModel then
      propagateApiKey C (apiKey.orElse (.str "")) (stored.2.get "model_api_base") limit
        agent.agentModel stored.1 agentId
    else .ok (stored.1, [])
  else .ok (stored.1, [])

/-! ## 2. What a propagation is to do -/

/-- The agent `b` is named among the sub-agents of `a`. -/
def Below (σ : Store) (a b : Int) : Prop :=
  ∃ row name, σ a = some row ∧ name ∈ row.subAgents ∧ agentNumber? name = some b ∧ (σ b).isSome

/-- The agents from `a` on downwards. -/
def Reaches (σ : Store) : Int → Int → Prop := Relation.ReflTransGen (Below σ)

/-- The agents `σ'`, after an update of `a` that asks for the propagation of `model` and `key`: the
agents from `a` on downwards have both, those below keep all else, and the others keep everything. -/
structure Exact (C : Cipher) (σ σ' : Store) (a : Int) (model key : String) : Prop where
  reached : ∀ b, Reaches σ' a b → ∃ row token, σ' b = some row ∧ row.agentModel = model ∧
    row.agentModelParams.get "model_api_key" = .str token ∧ C.decrypt token = some key
  fields : ∀ b, b ≠ a → Reaches σ' a b → ∃ row row', σ b = some row ∧ σ' b = some row' ∧
    row' = { row with agentModel := row'.agentModel, agentModelParams := row'.agentModelParams }
  others : ∀ b, ¬ Reaches σ' a b → σ' b = σ b

/-- The update asks to propagate the key, with a model of its own; a masked key is the stored one. -/
structure Asks (C : Cipher) (row : Row) (agent : AgentCreateSchema) (key : String) : Prop where
  propagates : agent.propagateApiKey = true
  model : isDefaultLlmModel agent.agentModel = false
  keyed : (unmaskModelApiKey (agent.agentModelParams.getD [])
    (decryptModelApiKey C row.agentModelParams)).get "model_api_key" = .str key
  nonempty : key ≠ ""

/-! ## 3. One update on the way down -/

variable {C : Cipher} {σ σ' σ'' : Store} {a n : Int} {key model token name : String} {base : Value}
  {row row' sub : Row}

/-- The stored key is this token. -/
def Holds (token : String) (row : Row) : Prop :=
  row.agentModelParams.get "model_api_key" = .str token

/-- A row that a propagation left alone, or gave the token to; its sub-agents are the same. -/
def Changed (token : String) (row row' : Row) : Prop :=
  row'.subAgents = row.subAgents ∧ (row' = row ∨ Holds token row')

/-- Every row was left alone or got the token. -/
def Written (token : String) (σ σ' : Store) : Prop := ∀ b, Option.Rel (Changed token) (σ b) (σ' b)

theorem Changed.refl (token : String) (row : Row) : Changed token row row := ⟨rfl, .inl rfl⟩

theorem Changed.trans {row'' : Row} (h : Changed token row row') (h' : Changed token row' row'') :
    Changed token row row'' := by
  refine ⟨h'.1.trans h.1, ?_⟩
  rcases h'.2 with rfl | hholds
  · exact h.2
  · exact .inr hholds

theorem Written.refl (token : String) (σ : Store) : Written token σ σ := by
  intro b
  cases σ b with
  | none => exact .none
  | some row => exact .some (Changed.refl token row)

theorem Written.found (h : Written token σ σ') {b : Int} (hb : σ b = some row) :
    ∃ row', σ' b = some row' ∧ Changed token row row' := by
  have hrel := h b
  rw [hb] at hrel
  generalize hnew : σ' b = new at hrel
  cases hrel with
  | some hchanged => exact ⟨_, rfl, hchanged⟩

theorem Written.absent (h : Written token σ σ') {b : Int} (hb : σ b = none) : σ' b = none := by
  have hrel := h b
  rw [hb] at hrel
  generalize hnew : σ' b = new at hrel
  cases hrel
  rfl

theorem Written.trans (h : Written token σ σ') (h' : Written token σ' σ'') :
    Written token σ σ'' := by
  intro b
  cases hb : σ b with
  | none =>
    rw [h'.absent (h.absent hb)]
    exact .none
  | some row =>
    obtain ⟨row', hb', hchanged⟩ := h.found hb
    obtain ⟨row'', hb'', hchanged'⟩ := h'.found hb'
    rw [hb'']
    exact .some (hchanged.trans hchanged')

theorem Written.update (hn : σ n = some row) (hchanged : Changed token row row') :
    Written token σ (Function.update σ n (some row')) := by
  intro b
  by_cases hb : b = n
  · subst hb
    rw [hn, Function.update_self]
    exact .some hchanged
  · rw [Function.update_of_ne hb]
    exact Written.refl token σ b

/-- A row that got the token keeps it. -/
theorem Written.holds (h : Written token σ σ') (hn : σ n = some row) (hholds : Holds token row) :
    ∃ row', σ' n = some row' ∧ Holds token row' := by
  obtain ⟨row', hn', -, rfl | hnew⟩ := h.found hn
  · exact ⟨row', hn', hholds⟩
  · exact ⟨row', hn', hnew⟩

theorem Written.below (h : Written token σ σ') {b : Int} (hbelow : Below σ a b) : Below σ' a b := by
  obtain ⟨row, name, ha, hname, hnumber, hb⟩ := hbelow
  obtain ⟨row', ha', hsame, -⟩ := h.found ha
  obtain ⟨r, hr⟩ := Option.isSome_iff_exists.mp hb
  obtain ⟨r', hr', -⟩ := h.found hr
  exact ⟨row', name, ha', hsame ▸ hname, hnumber, hr' ▸ rfl⟩

theorem stripCredentials_get {params : Dict} {key : String} {v : Value}
    (h : params.lookup key = some v) :
    (stripCredentials params).get key = stripCredential key v := by
  unfold stripCredentials Dict.get
  rw [Dict.lookup_map, h, Option.map_some, Option.getD_some]

/-- The key that the rebuilt schema carries. -/
theorem subAgentSchema_key (sub : Row) (model : String) (base : Value)
    (hstrip : Text.strip key = key) :
    ((subAgentSchema sub model (.str key) base).agentModelParams.getD []).get "model_api_key" =
      .str key := by
  have hlookup (params : Dict) :
      (if base.truthy then (params.put "model_api_key" (.str key)).put "model_api_base" base
        else params.put "model_api_key" (.str key)).lookup "model_api_key" = some (.str key) := by
    split
    · rw [Dict.lookup_put, if_neg (by decide), Dict.lookup_put, if_pos rfl]
    · rw [Dict.lookup_put, if_pos rfl]
  simp only [subAgentSchema, Option.getD_some]
  rw [stripCredentials_get (hlookup _)]
  simp [stripCredential, credentialKeys, hstrip]

theorem subAgentSchema_paramsToStore (sub : Row) (base : Value) (existing : Option Row)
    (hmodel : isDefaultLlmModel model = false) (hstrip : Text.strip key = key)
    (hmask : key ≠ maskedApiKey) :
    ((subAgentSchema sub model (.str key) base).paramsToStore existing).get "model_api_key" =
      .str key := by
  have hkey := subAgentSchema_key sub model base hstrip
  have hstripped : isDefaultLlmModel (subAgentSchema sub model (.str key) base).agentModel = false :=
    (isDefaultLlmModel_strip model).trans hmodel
  unfold AgentCreateSchema.paramsToStore unmaskModelApiKey
  rw [stripDefaultLlmParams_of_not_default hstripped, if_pos (by simpa [hkey] using hmask), hkey]

/-- What is found is the row, with its secrets open. -/
theorem getAgent_some (h : getAgent C σ n = .ok (some sub)) :
    ∃ row, σ n = some row ∧ sub.subAgents = row.subAgents ∧ sub.agentModel = row.agentModel := by
  obtain ⟨-, hnone⟩ | ⟨row, servers, hrow, -, hsome⟩ := getAgent_eq_ok_iff.mp h
  · cases hnone
  · cases hsome
    exact ⟨row, hrow, rfl, rfl⟩

/-- **The update of a sub-agent** gives it the model, and encrypts the key that it is given. -/
theorem storeAgent_sub {params : Dict} (hmodel : isDefaultLlmModel model = false)
    (hstrip : Text.strip key = key) (hmask : key ≠ maskedApiKey)
    (hsub : getAgent C σ n = .ok (some sub))
    (hs : storeAgent C σ n (subAgentSchema sub model (.str key) base) = .ok (σ', params)) :
    ∃ row row', σ n = some row ∧ σ' = Function.update σ n (some row') ∧
      sub.subAgents = row.subAgents ∧ row'.agentModel = Text.strip model ∧ Changed (C.encrypt key) row row' ∧
      Holds (C.encrypt key) row' := by
  obtain ⟨existing, row, hexisting, hrow, hparams, rfl⟩ := storeAgent_eq_ok_iff.mp hs
  have hsame : sub.subAgents = row.subAgents := by
    obtain ⟨other, hother, hsame, -⟩ := getAgent_some hsub
    cases hother.symm.trans hrow
    exact hsame
  have hholds : Holds (C.encrypt key) (((subAgentSchema sub model (.str key) base).keepOmitted
      existing).row C params row) :=
    get_encryptModelApiKey
      (subAgentSchema_paramsToStore sub base existing hmodel hstrip hmask) hparams
  refine ⟨row, _, hrow, rfl, hsame, rfl, ⟨?_, .inr hholds⟩, hholds⟩
  simp only [AgentCreateSchema.row, AgentCreateSchema.keepOmitted, subAgentSchema]
  split
  · rename_i hnil
    rw [← hsame, hnil, Option.getD_none]
  · rw [Option.getD_some, hsame]

/-! ## 4. The whole way down -/

/-- A sub-agent that has got the model hands the same one on. -/
theorem effectiveModel_of_strip (h : row.agentModel = Text.strip model) :
    effectiveModel model row = model := by
  unfold effectiveModel
  split
  · rename_i hempty
    rw [h, hempty]
    decide
  · rfl

/-- One turn of the loop: nothing, or a sub-agent that is read, stored, and descended from where it has
sub-agents. -/
theorem propagateTo_stored {key base : Value} {descend : Store → Int → Except Raised Propagated}
    {state state' : Propagated}
    (h : propagateTo C model key base descend state name = .ok state') :
    ∃ n, agentNumber? name = some n ∧
      ((state.1 n = none ∧ state' = state) ∨
        ∃ sub stored, getAgent C state.1 n = .ok (some sub) ∧
          storeAgent C state.1 n (subAgentSchema sub model key base) = .ok stored ∧
          ((sub.subAgents = [] ∧ state'.1 = stored.1) ∨
            ∃ below, descend stored.1 n = .ok below ∧ state'.1 = below.1)) := by
  unfold propagateTo at h
  split at h
  · cases h
  · rename_i n hnumber
    refine ⟨n, hnumber, ?_⟩
    obtain ⟨found, hfound, h⟩ := Except.bind_eq_ok_iff.mp h
    cases found with
    | none =>
      cases h
      obtain ⟨hnone, -⟩ | ⟨_, _, _, _, hsome⟩ := getAgent_eq_ok_iff.mp hfound
      · exact .inl ⟨hnone, rfl⟩
      · cases hsome
    | some sub =>
      obtain ⟨stored, hstored, h⟩ := Except.bind_eq_ok_iff.mp h
      refine .inr ⟨sub, stored, hfound, hstored, ?_⟩
      split at h
      · rename_i hnil
        cases h
        exact .inl ⟨hnil, rfl⟩
      · obtain ⟨below, hbelow, h⟩ := Except.bind_eq_ok_iff.mp h
        cases h
        exact .inr ⟨below, hbelow, rfl⟩

/-- **What one turn of the loop does**: nothing where the name is of no agent; else an update of the
sub-agent, and what is below it. -/
theorem propagateTo_cases {descend : Store → Int → Except Raised Propagated}
    {state state' : Propagated} (hmodel : isDefaultLlmModel model = false)
    (hstrip : Text.strip key = key) (hmask : key ≠ maskedApiKey)
    (h : propagateTo C model (.str key) base descend state name = .ok state') :
    ∃ n, agentNumber? name = some n ∧
      ((state.1 n = none ∧ state' = state) ∨
        ∃ row row', state.1 n = some row ∧ Changed (C.encrypt key) row row' ∧
          Holds (C.encrypt key) row' ∧ effectiveModel model row' = model ∧
          ((row.subAgents = [] ∧ state'.1 = Function.update state.1 n (some row')) ∨
            ∃ below, descend (Function.update state.1 n (some row')) n = .ok below ∧
              state'.1 = below.1)) := by
  obtain ⟨n, hnumber, hcases⟩ := propagateTo_stored h
  refine ⟨n, hnumber, hcases.imp_right ?_⟩
  rintro ⟨sub, ⟨σ₁, params⟩, hfound, hstored, hend⟩
  obtain ⟨row, row', hrow, rfl, hsame, hnew, hchanged, hholds⟩ :=
    storeAgent_sub hmodel hstrip hmask hfound hstored
  rw [hsame] at hend
  exact ⟨row, row', hrow, hchanged, hholds, effectiveModel_of_strip hnew, hend⟩

/-- The name is a number, and an agent with that number has got the token. -/
def Served (token : String) (σ σ' : Store) (name : String) : Prop :=
  ∃ n, agentNumber? name = some n ∧
    ∀ row, σ n = some row → ∃ row', σ' n = some row' ∧ Holds token row'

/-- A turn of the loop hands the token on, where the recursion writes nothing else. -/
theorem propagateTo_written {descend : Store → Int → Except Raised Propagated}
    {state state' : Propagated} (hmodel : isDefaultLlmModel model = false)
    (hstrip : Text.strip key = key) (hmask : key ≠ maskedApiKey)
    (hdescend : ∀ σ n below, (∀ row, σ n = some row → effectiveModel model row = model) →
      descend σ n = .ok below → Written (C.encrypt key) σ below.1)
    (h : propagateTo C model (.str key) base descend state name = .ok state') :
    Written (C.encrypt key) state.1 state'.1 ∧ Served (C.encrypt key) state.1 state'.1 name := by
  obtain ⟨n, hnumber, ⟨hnone, rfl⟩ | ⟨row, row', hrow, hchanged, hholds, heffective, hrest⟩⟩ :=
    propagateTo_cases hmodel hstrip hmask h
  · refine ⟨Written.refl _ _, n, hnumber, fun row hrow => ?_⟩
    rw [hnone] at hrow
    cases hrow
  · have hfirst : Written (C.encrypt key) state.1 (Function.update state.1 n (some row')) :=
      Written.update hrow hchanged
    have hafter : Written (C.encrypt key) (Function.update state.1 n (some row')) state'.1 := by
      obtain ⟨-, hstate⟩ | ⟨below, hbelow, hstate⟩ := hrest
      · rw [hstate]
        exact Written.refl _ _
      · rw [hstate]
        refine hdescend _ n below (fun other hother => ?_) hbelow
        rw [Function.update_self] at hother
        cases hother
        exact heffective
    refine ⟨hfirst.trans hafter, n, hnumber, fun _ _ => ?_⟩
    exact hafter.holds (Function.update_self ..) hholds

/-- The loop, turn by turn. -/
theorem loop_passes {descend : Store → Int → Except Raised Propagated} {names : List String}
    {s s' : Propagated} (hmodel : isDefaultLlmModel model = false)
    (hstrip : Text.strip key = key) (hmask : key ≠ maskedApiKey)
    (hdescend : ∀ σ n below, (∀ row, σ n = some row → effectiveModel model row = model) →
      descend σ n = .ok below → Written (C.encrypt key) σ below.1)
    (h : names.foldlM (propagateTo C model (.str key) base descend) s = .ok s') :
    Written (C.encrypt key) s.1 s'.1 ∧ ∀ name ∈ names, ∃ s₁ s₂ : Propagated,
      Written (C.encrypt key) s.1 s₁.1 ∧
        propagateTo C model (.str key) base descend s₁ name = .ok s₂ ∧
          Written (C.encrypt key) s₂.1 s'.1 :=
  Except.foldlM_passes (R := fun s s' : Propagated => Written (C.encrypt key) s.1 s'.1)
    (fun s => Written.refl _ s.1) (fun _ _ _ h₁ h₂ => h₁.trans h₂)
    (fun _ _ _ hs => (propagateTo_written hmodel hstrip hmask hdescend hs).1) h

/-- One level of the recursion: the loop over the sub-agents of the row. -/
theorem propagateApiKey_cases {v : Value} {limit : Nat} {result : Propagated}
    (h : propagateApiKey C v base (limit + 1) model σ a = .ok result) :
    (σ a = none ∧ result = (σ, [])) ∨
      ∃ row, σ a = some row ∧ row.subAgents.foldlM
        (propagateTo C (effectiveModel model row) v base
          (propagateApiKey C v base limit (effectiveModel model row))) (σ, []) = .ok result := by
  unfold propagateApiKey at h
  obtain ⟨found, hfound, h⟩ := Except.bind_eq_ok_iff.mp h
  cases found with
  | none =>
    cases h
    obtain ⟨hnone, -⟩ | ⟨_, _, _, _, hsome⟩ := getAgent_eq_ok_iff.mp hfound
    · exact .inl ⟨hnone, rfl⟩
    · cases hsome
  | some agent =>
    obtain ⟨row, hrow, hsame, hmodel⟩ := getAgent_some hfound
    have heffective : effectiveModel model agent = effectiveModel model row := by
      simp only [effectiveModel, hmodel]
    simp only [heffective, hsame] at h
    exact .inr ⟨row, hrow, h⟩

/-- A propagation that returned gave the token to some agents, and left the others alone. -/
theorem propagateApiKey_written (hstrip : Text.strip key = key) (hmask : key ≠ maskedApiKey)
    (limit : Nat) : ∀ {model : String} {σ : Store} {a : Int} {result : Propagated},
      (∀ row, σ a = some row → isDefaultLlmModel (effectiveModel model row) = false) →
      propagateApiKey C (.str key) base limit model σ a = .ok result →
      Written (C.encrypt key) σ result.1 := by
  induction limit with
  | zero =>
    intro model σ a result _ h
    cases h
  | succ limit ih =>
    intro model σ a result hdefault h
    obtain ⟨-, rfl⟩ | ⟨row, hrow, hloop⟩ := propagateApiKey_cases h
    · exact Written.refl _ _
    · have hmodel := hdefault row hrow
      refine (loop_passes hmodel hstrip hmask (fun σ₁ n below heffective hbelow => ?_) hloop).1
      refine ih (fun r hr => ?_) hbelow
      rw [heffective r hr]
      exact hmodel

/-- The recursion, as the loop calls it. -/
theorem descend_written (hmodel : isDefaultLlmModel model = false) (hstrip : Text.strip key = key)
    (hmask : key ≠ maskedApiKey) (limit : Nat) (σ : Store) (n : Int) (below : Propagated)
    (heffective : ∀ row, σ n = some row → effectiveModel model row = model)
    (h : propagateApiKey C (.str key) base limit model σ n = .ok below) :
    Written (C.encrypt key) σ below.1 := by
  refine propagateApiKey_written hstrip hmask limit (fun row hrow => ?_) h
  rw [heffective row hrow]
  exact hmodel

/-- **Every direct sub-agent gets the token**: the encrypted key that the propagation is given. -/
theorem propagateApiKey_served (hstrip : Text.strip key = key) (hmask : key ≠ maskedApiKey)
    {limit : Nat} {result : Propagated} (hrow : σ a = some row)
    (hmodel : isDefaultLlmModel (effectiveModel model row) = false)
    (h : propagateApiKey C (.str key) base limit model σ a = .ok result) :
    ∀ name ∈ row.subAgents, Served (C.encrypt key) σ result.1 name := by
  cases limit with
  | zero => cases h
  | succ limit =>
    obtain ⟨hnone, -⟩ | ⟨other, hother, hloop⟩ := propagateApiKey_cases h
    · rw [hnone] at hrow
      cases hrow
    · cases hrow.symm.trans hother
      intro name hname
      obtain ⟨s₁, s₂, hbefore, hs, hafter⟩ :=
        (loop_passes hmodel hstrip hmask (descend_written hmodel hstrip hmask limit) hloop).2
          name hname
      obtain ⟨n, hnumber, hserved⟩ := (propagateTo_written hmodel hstrip hmask
        (descend_written hmodel hstrip hmask limit) hs).2
      refine ⟨n, hnumber, fun r hr => ?_⟩
      obtain ⟨r₁, hr₁, -⟩ := hbefore.found hr
      obtain ⟨r₂, hr₂, hholds⟩ := hserved r₁ hr₁
      exact hafter.holds hr₂ hholds

/-- **On an endless way down the propagation never returns**: on a cycle, and from an agent that
names itself. -/
theorem propagateApiKey_never_returns (hstrip : Text.strip key = key) (hmask : key ≠ maskedApiKey)
    (limit : Nat) : ∀ {model : String} {σ : Store} (path : Nat → Int) {result : Propagated},
      (∀ i, Below σ (path i) (path (i + 1))) →
      (∀ row, σ (path 0) = some row → isDefaultLlmModel (effectiveModel model row) = false) →
      propagateApiKey C (.str key) base limit model σ (path 0) ≠ .ok result := by
  induction limit with
  | zero =>
    intro model σ path result _ _ h
    cases h
  | succ limit ih =>
    intro model σ path result hpath hdefault h
    obtain ⟨first, name, hfirst, hname, hnumber, -⟩ := hpath 0
    obtain ⟨hnone, -⟩ | ⟨row, hrow, hloop⟩ := propagateApiKey_cases h
    · rw [hnone] at hfirst
      cases hfirst
    · cases hfirst.symm.trans hrow
      have hmodel := hdefault first hrow
      obtain ⟨s₁, s₂, hbefore, hs, -⟩ :=
        (loop_passes hmodel hstrip hmask (descend_written hmodel hstrip hmask limit) hloop).2
          name hname
      obtain ⟨n, hn, hturn⟩ := propagateTo_cases hmodel hstrip hmask hs
      cases hnumber.symm.trans hn
      -- The second agent of the way is there, and names the third one.
      obtain ⟨second, name', hsecond, hname', -, -⟩ := hpath 1
      obtain ⟨r₁, hr₁, hsame, -⟩ := hbefore.found hsecond
      obtain ⟨hnone, -⟩ | ⟨r, r', hr, hchanged, -, heffective, hrest⟩ := hturn
      · rw [hnone] at hr₁
        cases hr₁
      · cases hr.symm.trans hr₁
        obtain ⟨hnil, -⟩ | ⟨below, hbelow, -⟩ := hrest
        · rw [← hsame, hnil] at hname'
          cases hname'
        · have hwritten := hbefore.trans (Written.update hr hchanged)
          refine ih (fun i => path (i + 1)) (fun i => hwritten.below (hpath (i + 1)))
            (fun other hother => ?_) hbelow
          rw [Function.update_self] at hother
          cases hother
          rw [heffective]
          exact hmodel

/-! ## 5. The update that asks for it -/

variable {agent : AgentCreateSchema}

theorem opens_of_updateAgent {limit : Nat} {result : Propagated} (hrow : σ a = some row)
    (h : updateAgent C limit σ a agent = .ok result) : row.Opens C := by
  obtain ⟨⟨σ₁, params⟩, hstored, -⟩ := Except.bind_eq_ok_iff.mp h
  obtain ⟨existing, -, hexisting, -⟩ := storeAgent_eq_ok_iff.mp hstored
  exact getAgent_returns.mp ⟨existing, hexisting⟩ row hrow

/-- **What is propagated is the token.**  After the agent's own row is written, the update is a
propagation of its encrypted key. -/
theorem updateAgent_eq (hrow : σ a = some row) (hopens : row.Opens C)
    (hasks : Asks C row agent key) :
    ∃ new base, (new.subAgents = agent.subAgents.getD [] ∧ new.agentModel = agent.agentModel ∧
        Holds (C.encrypt key) new ∧ new.Opens C) ∧
      ∀ limit, updateAgent C limit σ a agent =
        propagateApiKey C (.str (C.encrypt key)) base limit agent.agentModel
          (Function.update σ a (some new)) a := by
  obtain ⟨existing, hexisting⟩ := getAgent_returns.mpr
    fun other (hother : σ a = some other) => Option.some.inj (hrow.symm.trans hother) ▸ hopens
  have hkey : (agent.paramsToStore existing).get "model_api_key" = .str key := by
    obtain ⟨hnone, -⟩ | ⟨other, servers, hother, -, rfl⟩ := getAgent_eq_ok_iff.mp hexisting
    · rw [hnone] at hrow
      cases hrow
    · cases hrow.symm.trans hother
      unfold AgentCreateSchema.paramsToStore
      rw [stripDefaultLlmParams_of_not_default hasks.model]
      exact hasks.keyed
  obtain ⟨params, hparams⟩ :
      ∃ params, encryptModelApiKey C (agent.paramsToStore existing) = .ok params := by
    simp only [encryptModelApiKey, hkey, Except.ok.injEq, exists_eq']
  have htoken := get_encryptModelApiKey hkey hparams
  refine ⟨(agent.keepOmitted existing).row C params row, params.get "model_api_base",
    ⟨rfl, rfl, htoken, opens_row _ _ _⟩, fun limit => ?_⟩
  unfold updateAgent
  rw [storeAgent_eq_ok_iff.mpr ⟨existing, row, hexisting, hrow, hparams, rfl⟩]
  simp [bind, Except.bind, hasks.propagates, htoken, Value.truthy, Value.orElse,
    C.encrypt_ne_empty]

/-- The model of the update is the one that is handed down. -/
theorem effectiveModel_own (h : row.agentModel = model) : effectiveModel model row = model := by
  unfold effectiveModel
  split
  · rw [h]
  · rfl

/-- Where the update does what was asked, it has nobody to hand the key to. -/
theorem childless_of_exact {limit : Nat} {result : Propagated} (hrow : σ a = some row)
    (hasks : Asks C row agent key) (h : updateAgent C limit σ a agent = .ok result)
    (hexact : Exact C σ result.1 a agent.agentModel key) :
    ∀ name ∈ agent.subAgents.getD [], ∃ n, agentNumber? name = some n ∧ σ n = none := by
  obtain ⟨new, base, ⟨hsame, hmodel, -, -⟩, heq⟩ :=
    updateAgent_eq hrow (opens_of_updateAgent hrow h) hasks
  rw [heq limit] at h
  have hstrip := C.strip_encrypt key
  have hmask := C.encrypt_ne_masked key
  have hown : Function.update σ a (some new) a = some new := Function.update_self ..
  have hdefault : isDefaultLlmModel (effectiveModel agent.agentModel new) = false := by
    rw [effectiveModel_own hmodel]
    exact hasks.model
  intro name hname
  rw [← hsame] at hname
  obtain ⟨n, hnumber, hserved⟩ := propagateApiKey_served hstrip hmask hown hdefault h name hname
  refine ⟨n, hnumber, ?_⟩
  by_contra hexists
  obtain ⟨r, hr⟩ : ∃ r, Function.update σ a (some new) n = some r := by
    by_cases hn : n = a
    · exact ⟨new, hn ▸ hown⟩
    · rw [Function.update_of_ne hn]
      exact Option.ne_none_iff_exists'.mp hexists
  have hwritten : Written (C.encrypt (C.encrypt key)) (Function.update σ a (some new)) result.1 := by
    refine propagateApiKey_written hstrip hmask limit (fun other hother => ?_) h
    cases hown.symm.trans hother
    exact hdefault
  have hbelow : Below result.1 a n :=
    hwritten.below ⟨new, name, hown, hname, hnumber, hr ▸ rfl⟩
  -- The stored key opens to the token of the parent, which is not its key.
  obtain ⟨r', hr', hholds⟩ := hserved r hr
  obtain ⟨other, token, hother, -, htoken, hopened⟩ := hexact.reached n (.single hbelow)
  cases hr'.symm.trans hother
  cases hholds.symm.trans htoken
  rw [C.decrypt_encrypt, Option.some.injEq] at hopened
  exact C.encrypt_ne key hopened

/-- From an agent whose sub-agents do not exist, only that agent is reached. -/
theorem eq_of_reaches {b : Int} (hrow : σ a = some row)
    (hnone : ∀ name ∈ row.subAgents, ∃ n, agentNumber? name = some n ∧ σ n = none)
    (h : Reaches σ a b) : b = a := by
  obtain rfl | ⟨c, ⟨other, name, hother, hname, hnumber, hc⟩, -⟩ := h.cases_head
  · rfl
  · cases hrow.symm.trans hother
    obtain ⟨n, hn, habsent⟩ := hnone name hname
    cases hnumber.symm.trans hn
    rw [habsent] at hc
    cases hc

/-- Where there is nobody to hand the key to, the update does what was asked. -/
theorem exact_of_childless (hrow : σ a = some row) (hasks : Asks C row agent key)
    (hopens : row.Opens C)
    (hnone : ∀ name ∈ agent.subAgents.getD [], ∃ n, agentNumber? name = some n ∧ σ n = none) :
    ∃ limit result, updateAgent C limit σ a agent = .ok result ∧
      Exact C σ result.1 a agent.agentModel key := by
  obtain ⟨new, base, ⟨hsame, hmodel, hholds, hnew⟩, heq⟩ := updateAgent_eq hrow hopens hasks
  have hown : Function.update σ a (some new) a = some new := Function.update_self ..
  have hnone' : ∀ name ∈ new.subAgents, ∃ n, agentNumber? name = some n ∧
      Function.update σ a (some new) n = none := by
    intro name hname
    obtain ⟨n, hnumber, hn⟩ := hnone name (hsame ▸ hname)
    refine ⟨n, hnumber, ?_⟩
    rw [Function.update_of_ne, hn]
    rintro rfl
    rw [hn] at hrow
    cases hrow
  refine ⟨1, (Function.update σ a (some new), []), ?_, ?_, ?_, ?_⟩
  · rw [heq 1]
    obtain ⟨found, hfound⟩ := getAgent_returns.mpr
      fun other (hother : Function.update σ a (some new) a = some other) =>
        Option.some.inj (hown.symm.trans hother) ▸ hnew
    obtain ⟨habsent, -⟩ | ⟨other, servers, hother, -, rfl⟩ := getAgent_eq_ok_iff.mp hfound
    · rw [hown] at habsent
      cases habsent
    · cases hown.symm.trans hother
      refine Except.bind_eq_ok_iff.mpr ⟨_, hfound, Except.foldlM_eq_self fun name hname => ?_⟩
      obtain ⟨n, hnumber, hn⟩ := hnone' name hname
      simp only [propagateTo, hnumber]
      exact Except.bind_eq_ok_iff.mpr ⟨none, getAgent_eq_ok_iff.mpr (.inl ⟨hn, rfl⟩), rfl⟩
  · intro b hb
    obtain rfl := eq_of_reaches hown hnone' hb
    exact ⟨new, _, hown, hmodel, hholds, C.decrypt_encrypt key⟩
  · intro b hne hb
    exact absurd (eq_of_reaches hown hnone' hb) hne
  · intro b hb
    refine Function.update_of_ne ?_ _ _
    rintro rfl
    exact hb .refl

/-- An agent that names itself is updated for ever. -/
theorem updateAgent_never_returns {limit : Nat} {result : Propagated} (hrow : σ a = some row)
    (hasks : Asks C row agent key) (hname : name ∈ agent.subAgents.getD [])
    (hnumber : agentNumber? name = some a) : updateAgent C limit σ a agent ≠ .ok result := by
  intro h
  obtain ⟨new, base, ⟨hsame, hmodel, -, -⟩, heq⟩ :=
    updateAgent_eq hrow (opens_of_updateAgent hrow h) hasks
  have hown : Function.update σ a (some new) a = some new := Function.update_self ..
  have hself : Below (Function.update σ a (some new)) a a :=
    ⟨new, name, hown, hsame ▸ hname, hnumber, by rw [hown, Option.isSome_some]⟩
  rw [heq limit] at h
  refine propagateApiKey_never_returns (C.strip_encrypt key) (C.encrypt_ne_masked key) limit
    (fun _ => a) (fun _ => hself) (fun other hother => ?_) h
  cases hown.symm.trans hother
  rw [effectiveModel_own hmodel]
  exact hasks.model

/-- **The propagation is exact only where there is nothing to propagate to.** -/
theorem propagation_exact_iff (hrow : σ a = some row) (hasks : Asks C row agent key) :
    (∃ limit result, updateAgent C limit σ a agent = .ok result ∧
        Exact C σ result.1 a agent.agentModel key) ↔
      row.Opens C ∧ ∀ name ∈ agent.subAgents.getD [], ∃ n, agentNumber? name = some n ∧ σ n = none := by
  constructor
  · rintro ⟨limit, result, h, hexact⟩
    exact ⟨opens_of_updateAgent hrow h, childless_of_exact hrow hasks h hexact⟩
  · rintro ⟨hopens, hnone⟩
    exact exact_of_childless hrow hasks hopens hnone

/-! ## 6. What a propagation leaves alone -/

/-- The rows have the same sub-agents. -/
def SameSubAgents (σ σ' : Store) : Prop := ∀ b, (σ' b).map Row.subAgents = (σ b).map Row.subAgents

theorem SameSubAgents.trans (h : SameSubAgents σ σ') (h' : SameSubAgents σ' σ'') :
    SameSubAgents σ σ'' :=
  fun b => (h' b).trans (h b)

theorem SameSubAgents.update (hn : σ n = some row) (hsame : row'.subAgents = row.subAgents) :
    SameSubAgents σ (Function.update σ n (some row')) := by
  intro b
  by_cases hb : b = n
  · subst hb
    rw [Function.update_self, hn, Option.map_some, Option.map_some, hsame]
  · rw [Function.update_of_ne hb]

theorem SameSubAgents.found (h : SameSubAgents σ σ') {b : Int} (hb : σ' b = some row') :
    ∃ row, σ b = some row ∧ row.subAgents = row'.subAgents := by
  have hsame := h b
  rw [hb, Option.map_some] at hsame
  obtain ⟨row, hrow, heq⟩ := Option.map_eq_some_iff.mp hsame.symm
  exact ⟨row, hrow, heq⟩

theorem SameSubAgents.symm (h : SameSubAgents σ σ') : SameSubAgents σ' σ := fun b => (h b).symm

theorem SameSubAgents.below (h : SameSubAgents σ σ') {b c : Int} (hbelow : Below σ b c) :
    Below σ' b c := by
  obtain ⟨row, name, hb, hname, hnumber, hc⟩ := hbelow
  obtain ⟨rowc, hrowc⟩ := Option.isSome_iff_exists.mp hc
  obtain ⟨row', hb', hsame⟩ := h.symm.found hb
  obtain ⟨rowc', hc', -⟩ := h.symm.found hrowc
  exact ⟨row', name, hb', hsame ▸ hname, hnumber, hc' ▸ rfl⟩

theorem SameSubAgents.below_iff (h : SameSubAgents σ σ') : Below σ' = Below σ := by
  funext b c
  exact propext ⟨h.symm.below, h.below⟩

/-- Every way down from the agent ends. -/
def WayEnds (σ : Store) (a : Int) : Prop := Acc (fun b c => Below σ c b) a

/-- Then the agent is not below itself. -/
theorem WayEnds.not_below_self (h : WayEnds σ a) : ¬ Relation.TransGen (Below σ) a a := by
  induction h with
  | intro a _ ih =>
    intro hself
    obtain ⟨c, hc, hrest⟩ := Relation.TransGen.head'_iff.mp hself
    exact ih c hc (Relation.TransGen.tail' hrest hc)

theorem wayEnds_of_childless (h : ∀ row, σ a = some row → row.subAgents = []) : WayEnds σ a := by
  refine Acc.intro a fun b hb => ?_
  obtain ⟨row, name, hrow, hname, -, -⟩ := hb
  rw [h row hrow] at hname
  cases hname

/-- What a propagation from `a` leaves: the sub-agents of every row, and each row that is not below
`a`; the ways down from `a` end. -/
structure Leaves (σ σ' : Store) (a : Int) : Prop where
  same : SameSubAgents σ σ'
  ends : WayEnds σ a
  frame : ∀ b, ¬ Relation.TransGen (Below σ) a b → σ' b = σ b

/-- What one turn of the loop does, whatever the key and the model. -/
theorem propagateTo_turn {key base : Value} {descend : Store → Int → Except Raised Propagated}
    {state state' : Propagated}
    (h : propagateTo C model key base descend state name = .ok state') :
    ∃ n, agentNumber? name = some n ∧
      ((state.1 n = none ∧ state' = state) ∨
        ∃ row row', state.1 n = some row ∧ row'.subAgents = row.subAgents ∧
          ((row.subAgents = [] ∧ state'.1 = Function.update state.1 n (some row')) ∨
            ∃ below, descend (Function.update state.1 n (some row')) n = .ok below ∧
              state'.1 = below.1)) := by
  obtain ⟨n, hnumber, hcases⟩ := propagateTo_stored h
  refine ⟨n, hnumber, hcases.imp_right ?_⟩
  rintro ⟨sub, ⟨σ₁, params⟩, hfound, hstored, hend⟩
  obtain ⟨existing, row, -, hrow, -, rfl⟩ := storeAgent_eq_ok_iff.mp hstored
  obtain ⟨other, hother, hsame, -⟩ := getAgent_some hfound
  cases hother.symm.trans hrow
  rw [hsame] at hend
  refine ⟨row, ((subAgentSchema sub model key base).keepOmitted existing).row C params row, hrow, ?_,
    hend⟩
  simp only [AgentCreateSchema.row, AgentCreateSchema.keepOmitted, subAgentSchema]
  split
  · rename_i hnil
    rw [← hsame, hnil, Option.getD_none]
  · rw [Option.getD_some, hsame]

/-- One turn for a sub-agent of `a`. -/
theorem turn_leaves {key base : Value} {descend : Store → Int → Except Raised Propagated}
    {state state' : Propagated} (hrow : σ a = some row) (hname : name ∈ row.subAgents)
    (hdescend : ∀ σ n below, descend σ n = .ok below → Leaves σ below.1 n)
    (hsame : SameSubAgents σ state.1)
    (h : propagateTo C model key base descend state name = .ok state') :
    SameSubAgents state.1 state'.1 ∧
      (∀ b, ¬ Relation.TransGen (Below σ) a b → state'.1 b = state.1 b) ∧
        ∀ n, agentNumber? name = some n → (σ n).isSome → WayEnds σ n := by
  obtain ⟨n, hnumber, ⟨hnone, rfl⟩ | ⟨sub, sub', hsub, hsubs, hrest⟩⟩ := propagateTo_turn h
  · refine ⟨fun _ => rfl, fun _ _ => rfl, fun m hm hsome => ?_⟩
    cases hnumber.symm.trans hm
    obtain ⟨r, hr⟩ := Option.isSome_iff_exists.mp hsome
    obtain ⟨r', hr', -⟩ := hsame.symm.found hr
    rw [hnone] at hr'
    cases hr'
  · obtain ⟨r, hr, hrsubs⟩ := hsame.found hsub
    have hbelow : Below σ a n := ⟨row, name, hrow, hname, hnumber, hr ▸ rfl⟩
    have hupdate : SameSubAgents state.1 (Function.update state.1 n (some sub')) :=
      SameSubAgents.update hsub hsubs
    have hframe : ∀ b, ¬ Relation.TransGen (Below σ) a b →
        Function.update state.1 n (some sub') b = state.1 b := by
      intro b hb
      refine Function.update_of_ne ?_ _ _
      rintro rfl
      exact hb (.single hbelow)
    rcases hrest with ⟨hnil, hstate⟩ | ⟨below, hdown, hstate⟩
    · rw [hstate]
      refine ⟨hupdate, hframe, fun m hm _ => ?_⟩
      cases hnumber.symm.trans hm
      refine wayEnds_of_childless fun other hother => ?_
      cases hother.symm.trans hr
      rw [hrsubs, hnil]
    · rw [hstate]
      have hleaves := hdescend _ _ _ hdown
      have hiff := (hsame.trans hupdate).below_iff
      refine ⟨hupdate.trans hleaves.same, fun b hb => ?_, fun m hm _ => ?_⟩
      · rw [hleaves.frame b, hframe b hb]
        rw [hiff]
        exact fun hnb => hb (.head hbelow hnb)
      · cases hnumber.symm.trans hm
        have hends := hleaves.ends
        unfold WayEnds at hends ⊢
        rwa [hiff] at hends

/-- The loop over sub-agents of `a`. -/
theorem loop_leaves {key base : Value} {descend : Store → Int → Except Raised Propagated}
    (hrow : σ a = some row) (hdescend : ∀ σ n below, descend σ n = .ok below → Leaves σ below.1 n)
    {names : List String} : ∀ {state state' : Propagated},
      (∀ name ∈ names, name ∈ row.subAgents) → SameSubAgents σ state.1 →
      names.foldlM (propagateTo C model key base descend) state = .ok state' →
      SameSubAgents state.1 state'.1 ∧
        (∀ b, ¬ Relation.TransGen (Below σ) a b → state'.1 b = state.1 b) ∧
          ∀ name ∈ names, ∀ n, agentNumber? name = some n → (σ n).isSome → WayEnds σ n := by
  induction names with
  | nil =>
    intro state state' _ _ h
    cases h
    exact ⟨fun _ => rfl, fun _ _ => rfl, fun name hname => absurd hname List.not_mem_nil⟩
  | cons name rest ih =>
    intro state state' hnames hsame h
    rw [List.foldlM_cons] at h
    obtain ⟨mid, hfirst, hrest⟩ := Except.bind_eq_ok_iff.mp h
    obtain ⟨hsame₁, hframe₁, hends₁⟩ :=
      turn_leaves hrow (hnames name List.mem_cons_self) hdescend hsame hfirst
    obtain ⟨hsame₂, hframe₂, hends₂⟩ :=
      ih (fun n hn => hnames n (List.mem_cons_of_mem name hn)) (hsame.trans hsame₁) hrest
    refine ⟨hsame₁.trans hsame₂, fun b hb => ?_, List.forall_mem_cons.mpr ⟨hends₁, hends₂⟩⟩
    rw [hframe₂ b hb, hframe₁ b hb]

/-- **A propagation that returned left alone what is not below its agent**, which is not below
itself. -/
theorem propagateApiKey_leaves {key base : Value} (limit : Nat) :
    ∀ {model : String} {σ : Store} {a : Int} {result : Propagated},
      propagateApiKey C key base limit model σ a = .ok result → Leaves σ result.1 a := by
  induction limit with
  | zero =>
    intro model σ a result h
    cases h
  | succ limit ih =>
    intro model σ a result h
    obtain ⟨hnone, rfl⟩ | ⟨row, hrow, hloop⟩ := propagateApiKey_cases h
    · refine ⟨fun _ => rfl, wayEnds_of_childless fun row hrow => ?_, fun _ _ => rfl⟩
      rw [hnone] at hrow
      cases hrow
    · obtain ⟨hsame, hframe, hends⟩ := loop_leaves hrow (fun _ _ _ hbelow => ih hbelow)
        (fun _ hname => hname) (fun _ => rfl) hloop
      refine ⟨hsame, Acc.intro a fun b hb => ?_, hframe⟩
      obtain ⟨other, name, hother, hname, hnumber, hsome⟩ := hb
      cases hother.symm.trans hrow
      exact hends name hname b hnumber hsome

/-! ## 7. Cases -/

/-- A cipher: the text between two marks. -/
def mark (value : String) : String := String.ofList ('g' :: (value.toList ++ ['=']))

def unmark (token : String) : Option String :=
  match token.toList with
  | 'g' :: cs => if cs.getLast? = some '=' then some (String.ofList cs.dropLast) else none
  | _ => none

theorem unmark_mark (value : String) : unmark (mark value) = some value := by
  simp [mark, unmark]

theorem mark_length (value : String) : (mark value).length = value.length + 2 := by
  simp [mark, ← String.length_toList]

theorem mark_ne (value : String) : mark value ≠ value := by
  intro h
  have hlength := mark_length value
  rw [h] at hlength
  omega

theorem mark_ne_empty (value : String) : mark value ≠ "" := by
  intro h
  have hlength := mark_length value
  rw [h, String.length_empty] at hlength
  omega

theorem mark_ne_masked (value : String) : mark value ≠ maskedApiKey := by
  intro h
  have hhead := congrArg (fun s : String => s.toList.head?) h
  simp only [mark, String.toList_ofList, List.head?_cons] at hhead
  cases hhead

theorem strip_mark (value : String) : Text.strip (mark value) = mark value := by
  unfold mark Text.strip Text.stripChars
  rw [String.toList_ofList, List.dropWhile_cons_of_neg (by decide), ← List.cons_append,
    List.rdropWhile_concat_neg _ _ _ (by decide)]

def marked : Cipher :=
  ⟨mark, unmark, unmark_mark, mark_ne, mark_ne_empty, mark_ne_masked, strip_mark⟩

/-- An agent with a key of its own. -/
def agentRow (agentName : String) : Row where
  agentName := agentName
  agentModel := "openai/small"
  agentModelParams := [("model_api_key", .str "gold=")]
  agentDescription := ""
  agentInstruction := ""
  agentTools := []
  agentType := "base"
  subAgents := []
  outputKey := none
  outputSchemaName := none
  skipWhenUpstream := none
  inputSchema := none
  outputSchema := none
  codeExecutor := none
  createdAt := "2026-09-01 10:00:00"
  status := "active"
  organizationId := "example.org"
  projectId := "thaink2"
  tags := []
  guardrailsConfig := []
  memoryEnabled := false
  caseBankEnabled := false
  artifactsEnabled := false
  superagentTemplateId := none
  superagentTemplateVersionHash := none
  loopMaxIterations := none
  loopExitInstruction := none
  mcpServers := []
  agentSkills := []
  hubOriginId := none

/-- The request to give a new model and the key `sk` to this agent and those it names. -/
def handDown (subAgents : List String) : AgentCreateSchema :=
  { subAgentSchema (agentRow "parent") "openai/large" (.str "sk") .null with
    subAgents := some subAgents, propagateApiKey := true }

theorem handDown_asks (subAgents : List String) :
    Asks marked (agentRow "parent") (handDown subAgents) "sk" where
  propagates := rfl
  model := by
    change isDefaultLlmModel (Text.strip "openai/large") = false
    decide
  keyed := rfl
  nonempty := by decide

/-- A parent, and one other agent. -/
def family : Store
  | 1 => some (agentRow "parent")
  | 2 => some (agentRow "child")
  | _ => none

theorem propagation_exact_iff_missing : ∃ limit result,
    updateAgent marked limit family 1 (handDown ["agent3"]) = .ok result ∧
      Exact marked family result.1 1 "openai/large" "sk" := by
  refine (propagation_exact_iff rfl (handDown_asks ["agent3"])).mpr ⟨?_, ?_⟩
  · rintro srv ⟨⟩
  · intro name hname
    obtain rfl := List.mem_singleton.mp hname
    exact ⟨3, by decide, rfl⟩

/-- **The key that arrives is not the key that was sent**, and a cycle has no end. -/
theorem child_gets_token :
    (¬ ∀ C σ a row agent key, σ a = some row → Asks C row agent key →
      ∃ limit result, updateAgent C limit σ a agent = .ok result ∧
        Exact C σ result.1 a agent.agentModel key) ∧
      ∀ limit result, updateAgent marked limit family 1 (handDown ["agent1"]) ≠ .ok result := by
  constructor
  · intro hall
    obtain ⟨limit, result, h, hexact⟩ :=
      hall marked family 1 (agentRow "parent") (handDown ["agent2"]) "sk" rfl (handDown_asks _)
    obtain ⟨n, hnumber, hn⟩ := childless_of_exact rfl (handDown_asks ["agent2"]) h hexact "agent2"
      List.mem_cons_self
    obtain rfl : 2 = n := Option.some.inj (.trans (by decide) hnumber)
    cases hn
  · intro limit result
    have hname : "agent1" ∈ (handDown ["agent1"]).subAgents.getD [] := List.mem_cons_self
    exact updateAgent_never_returns rfl (handDown_asks ["agent1"]) hname (by decide)

end Apowerb.Agent.Propagate
