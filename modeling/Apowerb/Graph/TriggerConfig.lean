/-
# The configuration of a trigger

`validate_trigger_config` (`core/workflow_graph.py`), for the eight kinds of trigger.  Besides the
configuration it reads what `Context` holds: the clock, which only the date of a schedule is
compared with, and the two questions it asks the database once the owner is known.
-/
import Apowerb.Schedule.NextRun

namespace Apowerb.Graph

open Text

/-! ## 1. What a validation reads besides the graph -/

/-- The surroundings of one call of `validate_graph`. -/
structure Context where
  python : Schedule.Python
  /-- `datetime.now(timezone.utc)`. -/
  now : Int
  workflowId : Option String
  ownerId : Option String
  /-- `tool_name_taken(name, owner_id=…, exclude_workflow_id=…)`. -/
  toolNameTaken : String → String → Option String → Bool
  /-- `get_workflow(id, owner_id=…) is not None`. -/
  hasWorkflow : String → String → Bool

/-! ## 2. Parts of the checks -/

/-- `TRIGGER_KINDS`. -/
def triggerKinds : List String :=
  ["manual", "webhook", "schedule", "email", "agent_tool", "form", "file", "workflow_done"]

/-- `_EMAIL_PROVIDERS`. -/
def emailProviders : List String := ["outlook", "gmail"]

/-- `_FILE_PROVIDERS`. -/
def fileProviders : List String := ["onedrive", "google_drive"]

/-- `_FORM_FIELD_TYPES`. -/
def formFieldTypes : List String := ["text", "textarea", "number", "boolean", "select", "date"]

/-- `_FORM_ACCESS`. -/
def formAccess : List String := ["authenticated", "public"]

/-- `_TOOL_ARG_TYPES`. -/
def toolArgTypes : List String := ["string", "number", "boolean", "array", "object"]

/-- `_WORKFLOW_DONE_ON`. -/
def workflowDoneOn : List String := ["success", "error", "any"]

/-- `_TOOL_NAME_RE`. -/
def isToolName : String → Bool :=
  wholeLine fun cs =>
    match cs with
    | c :: rest =>
      c.isLower && rest.all (fun d => d.isLower || d.isDigit || d = '_') &&
        2 ≤ rest.length && rest.length ≤ 40
    | [] => false

/-- `[a-z0-9-]` without regard to case, which adds four characters that fold to an ASCII
letter. -/
def isDomainChar (c : Char) : Bool :=
  c.isAlphanum || c = '-' || [0x130, 0x131, 0x17f, 0x212a].contains c.toNat

/-- `(?:[a-z0-9-]+\.)+[a-z0-9-]+`: two labels or more. -/
def isDomain (cs : List Char) : Bool :=
  let labels := cs.splitOn '.'
  2 ≤ labels.length && labels.all fun label => label ≠ [] && label.all isDomainChar

/-- `_EMAIL_FROM_FILTER.fullmatch`: an address, or a domain with or without its sign. -/
def isFromFilter (s : String) : Bool :=
  match splitFirst '@' s.toList with
  | (name, some domain) => name.all (fun c => !isSpace c) && isDomain domain
  | (domain, none) => isDomain domain

/-- `_require_trigger_str`. -/
def requireTriggerStr (cfg : Dict) (field code : String) : Except Raised String :=
  match cfg.get field with
  | .str s =>
    if strip s = "" then .error (.coded s!"champ requis manquant : {field}" code [("field", field)])
    else .ok s
  | _ => .error (.coded s!"champ requis manquant : {field}" code [("field", field)])

/-- What a list of declared fields must satisfy: the keys that each must fill, the types it may
have, and the three errors. -/
structure FieldRules where
  required : List String
  missing : Raised
  duplicate : Value → Raised
  types : List String
  unknownType : Value → Value → Raised

/-- The loop over declared fields, `names` being those already seen. -/
def checkFields (rules : FieldRules) (names : List Value) : List Value → Except Raised Unit
  | [] => .ok ()
  | .dict field :: rest => do
    refuse (rules.required.any fun key => !(Dict.get field key).truthy) rules.missing
    let name ← (Dict.get field "name").hash
    refuse (names.any (·.equal name)) (rules.duplicate name)
    refuse (¬ (Dict.get field "type").oneOf rules.types) (rules.unknownType (Dict.get field "type") name)
    checkFields rules (name :: names) rest
  | _ :: _ => .error rules.missing

/-! ## 3. One kind each -/

/-- `validate_trigger_config`, kind `webhook`. -/
def validateWebhook (nodeId : String) (cfg : Dict) : Except Raised Unit :=
  match cfg.getOr "hmac" (.bool false) with
  | .bool _ => .ok ()
  | _ => .error (.coded (nodeId ++ " : hmac doit être un booléen") "invalid_field"
      [("field", "hmac")])

/-- A field that is a text or `null`. -/
def textOrNull (nodeId field : String) (cfg : Dict) : Except Raised Unit :=
  match cfg.get field with
  | .null => .ok ()
  | .str _ => .ok ()
  | _ => .error (.coded s!"{nodeId} : {field} doit être une chaîne ou null" "invalid_field"
      [("field", field)])

/-- `validate_trigger_config`, kind `email`. -/
def validateEmail (nodeId : String) (cfg : Dict) : Except Raised Unit := do
  let provider := cfg.get "provider"
  refuse (¬ provider.oneOf emailProviders)
    (.coded (nodeId ++ " : provider email inconnu " ++ provider.repr ++ " (attendu : " ++
      joined emailProviders ++ ")") "unknown_email_provider" [])
  textOrNull nodeId "from_filter" cfg
  textOrNull nodeId "subject_filter" cfg
  let fromFilter := strip (((cfg.get "from_filter").orElse (.str "")).str?.getD "")
  refuse (fromFilter ≠ "" ∧ ¬ isFromFilter fromFilter)
    (.coded (nodeId ++ " : from_filter doit être une adresse (x@y.fr) ou un " ++
      "domaine (@y.fr ou y.fr)") "invalid_field" [("field", "from_filter")])

/-- The fields of an agent's tool. -/
def toolFieldRules (nodeId : String) : FieldRules where
  required := ["name"]
  missing := .coded (nodeId ++ " : champ input_schema sans nom") "invalid_input_schema" []
  duplicate name := .coded (nodeId ++ " : champ dupliqué dans input_schema : " ++ name.text)
    "duplicate_tool_field" []
  types := toolArgTypes
  unknownType type name := .coded (nodeId ++ " : type de champ inconnu " ++ type.repr ++
    " pour " ++ name.text) "invalid_input_schema_type" []

/-- `validate_trigger_config`, kind `agent_tool`. -/
def validateAgentTool (ctx : Context) (nodeId : String) (cfg : Dict) : Except Raised Unit := do
  let name ← match cfg.get "tool_name" with
    | .str s =>
      if isToolName s then .ok s
      else .error (invalidName (.str s))
    | v => .error (invalidName v)
  let _ ← requireTriggerStr cfg "description" "tool_description_required"
  match cfg.get "input_schema" with
  | .list schema =>
    checkFields (toolFieldRules nodeId) [] schema
    match ctx.ownerId with
    | some owner =>
      refuse (ctx.toolNameTaken name owner ctx.workflowId)
        (.coded (nodeId ++ " : tool_name " ++ Value.reprText name ++ " déjà pris par un " ++
          "autre workflow") "tool_name_taken" [("tool_name", name)])
    | none => .ok ()
  | _ =>
    .error (.coded (nodeId ++ " : input_schema doit être une liste") "invalid_input_schema" [])
where
  invalidName (name : Value) : Raised :=
    .coded (nodeId ++ " : tool_name invalide " ++ name.repr ++
      " (attendu : ^[a-z][a-z0-9_]\x7b2,40\x7d$)") "invalid_tool_name" []

/-- The fields of a form. -/
def formFieldRules (nodeId : String) : FieldRules where
  required := ["name", "label"]
  missing := .coded (nodeId ++ " : champ de formulaire invalide") "invalid_form_field" []
  duplicate name := .coded (nodeId ++ " : champ de formulaire dupliqué : " ++ name.text)
    "duplicate_form_field" []
  types := formFieldTypes
  unknownType type _ := .coded (nodeId ++ " : type de champ de formulaire inconnu " ++ type.repr)
    "invalid_form_field" []

/-- `validate_trigger_config`, kind `form`. -/
def validateForm (nodeId : String) (cfg : Dict) : Except Raised Unit := do
  let _ ← requireTriggerStr cfg "title" "form_title_required"
  textOrNull nodeId "description" cfg
  match cfg.get "fields" with
  | .list (field :: fields) => checkFields (formFieldRules nodeId) [] (field :: fields)
  | _ =>
    .error (.coded (nodeId ++ " : au moins un champ de formulaire est requis")
      "form_fields_required" [])
  refuse (¬ (cfg.get "access").oneOf formAccess)
    (.coded (nodeId ++ " : access inconnu " ++ (cfg.get "access").repr ++ " (attendu : " ++
      joined formAccess ++ ")") "invalid_form_access" [])

/-- `validate_trigger_config`, kind `file`. -/
def validateFolder (nodeId : String) (cfg : Dict) : Except Raised Unit := do
  let provider := cfg.get "provider"
  refuse (¬ provider.oneOf fileProviders)
    (.coded (nodeId ++ " : provider fichier inconnu " ++ provider.repr ++ " (attendu : " ++
      joined fileProviders ++ ")") "unknown_file_provider" [])
  let _ ← requireTriggerStr cfg "folder_id" "folder_id_required"
  let _ ← requireTriggerStr cfg "folder_label" "folder_label_required"
  refuse (¬ (cfg.getOr "interval_min" (.int 15)).isIntIn 5 1440)
    (.coded (nodeId ++ " : interval_min doit être un entier entre 5 et 1440")
      "invalid_file_interval" [])

/-- `validate_trigger_config`, kind `workflow_done`. -/
def validateWorkflowDone (ctx : Context) (nodeId : String) (cfg : Dict) :
    Except Raised Unit := do
  let source ← requireTriggerStr cfg "workflow_id" "workflow_done_workflow_id_required"
  refuse (¬ (cfg.get "on").oneOf workflowDoneOn)
    (.coded (nodeId ++ " : on inconnu " ++ (cfg.get "on").repr ++ " (attendu : " ++
      joined workflowDoneOn ++ ")") "invalid_workflow_done_on" [])
  refuse (ctx.workflowId = some source)
    (.coded (nodeId ++ " : un workflow ne peut pas s'écouter lui-même")
      "workflow_done_self_listen" [])
  match ctx.ownerId with
  | some owner =>
    refuse (¬ ctx.hasWorkflow source owner)
      (.coded (nodeId ++ " : workflow source introuvable " ++ Value.reprText source)
        "workflow_done_unknown_source" [("workflow_id", source)])
  | none => .ok ()

/-! ## 4. All kinds -/

/-- `validate_trigger_config`. -/
def validateTriggerConfig (ctx : Context) (nodeId : String) (cfg : Dict) : Except Raised Unit :=
  let kind := cfg.getOr "kind" (.str "manual")
  match kind with
  | .str "manual" => .ok ()
  | .str "webhook" => validateWebhook nodeId cfg
  | .str "schedule" => Schedule.validateSchedule ctx.python ctx.now nodeId cfg
  | .str "email" => validateEmail nodeId cfg
  | .str "agent_tool" => validateAgentTool ctx nodeId cfg
  | .str "form" => validateForm nodeId cfg
  | .str "file" => validateFolder nodeId cfg
  | .str "workflow_done" => validateWorkflowDone ctx nodeId cfg
  | _ =>
    .error (.coded (nodeId ++ " : kind de trigger inconnu " ++ kind.repr ++ " (attendu : " ++
      joined triggerKinds ++ ")") "unknown_trigger_kind"
      [("node", nodeId), ("kind", kind.text)])

end Apowerb.Graph
