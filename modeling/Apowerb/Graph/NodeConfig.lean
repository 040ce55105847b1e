/-
# The configuration of a node

`validate_node` (`core/workflow_graph.py`) and its helpers: what each type of node requires of its
own configuration, without its edges.

A `loop` and a `try` hold a graph of their own.  How that graph is read and validated is the
parameter `readBody`, so that nothing here is recursive; the recursion is closed with
`validate_graph`.
-/
import Apowerb.Graph.Routes
import Apowerb.Graph.Template
import Apowerb.Graph.TriggerConfig

namespace Apowerb.Graph

open Text

/-! ## 1. Bounds and names -/

/-- `CONVERT_TARGETS`. -/
def convertTargets : List String := ["text", "json", "number", "boolean", "list", "csv", "date"]

/-- `EXTRACT_FIELD_TYPES`. -/
def extractFieldTypes : List String := ["string", "number", "boolean", "list", "object"]

/-- `_OUTPUT_TYPES`. -/
def outputTypes : List String := ["any", "text", "json"]

/-- `_ON_QUESTION`. -/
def onQuestionModes : List String := ["continue", "fail"]

/-- `_CLASSIFIER_ENGINES`. -/
def classifierEngines : List String := ["agent", "jev"]

/-- `_DECISION_MODES`. -/
def decisionModes : List String := ["choices", "text", "both"]

/-- `_HTTP_METHODS`. -/
def httpMethods : List String := ["GET", "POST", "PUT", "PATCH", "DELETE"]

/-- `_FORBIDDEN_HTTP_HEADERS`. -/
def forbiddenHttpHeaders : List String :=
  ["authorization", "proxy-authorization", "cookie", "x-api-key"]

/-- `_NOTIF_CHANNELS`, sorted. -/
def notificationChannels : List String := ["app", "email", "teams"]

/-- `FILE_FORMATS`. -/
def fileFormats : List String := ["csv", "xlsx", "json", "markdown", "text", "docx", "pdf"]

/-- `FILE_SAVE_PROVIDERS`. -/
def fileSaveProviders : List String := ["onedrive"]

/-- `_FILE_SAVE_CONFLICTS`. -/
def fileSaveConflicts : List String := ["rename", "replace", "fail"]

/-- `_FIELD_NAME`. -/
def isFieldName : String → Bool := wholeLine isName

/-- `_SQL_IDENT`. -/
def isSqlIdent : String → Bool := wholeLine fun cs => isName cs && cs.length ≤ 63

/-- `_TOOL_CONFIG_REF`. -/
def isToolConfigRef : String → Bool :=
  wholeLine fun cs =>
    let number := cs.drop "tool_config".length
    "tool_config".toList.isPrefixOf cs && number ≠ [] && number.all fun c => (digitValue c).isSome

/-! ## 2. The helpers of `validate_node` -/

/-- `_validate_approval`. -/
def validateApproval (n : Node) : Except Raised Unit := do
  refuse (n.config.get "question").isBlank
    (.coded (n.id ++ " : question manquante") "approval_question_missing" [("node", n.id)])
  let mode := decisionMode n
  refuse (¬ mode.oneOf decisionModes)
    (.coded (n.id ++ " : mode de réponse inconnu " ++ mode.repr ++ " (choices, text ou both)")
      "approval_mode_unknown" [("node", n.id), ("mode", mode.text)])
  refuse (¬ (n.config.getOr "expires_after_hours" (.int 168)).isIntIn 1 720)
    (.coded (n.id ++ " : expires_after_hours doit être un entier de 1 à 720")
      "approval_expiry_invalid" [("node", n.id), ("max", "720")])
  if mode = .str "text" then
    return
  let routes := (← decisionChoices n).mapM fun choice =>
    match choice with
    | .dict c => (Dict.get c "route").str?.filter (strip · ≠ "")
    | _ => none
  match routes with
  | some (first :: rest) =>
    let routes := first :: rest
    refuse (textRoute ∈ routes)
      (.coded (n.id ++ " : la route 'text' est réservée à la réponse libre")
        "approval_choice_reserved" [("node", n.id), ("route", textRoute)])
    match duplicates routes with
    | [] => return
    | dupe :: dupes =>
      throw (.coded (n.id ++ " : choix en double : " ++ joined (dupe :: dupes))
        "approval_choice_duplicate" [("node", n.id), ("route", dupe)])
  | _ =>
    throw (.coded (n.id ++ " : il faut au moins un choix, chacun avec sa route")
      "approval_choices_missing" [("node", n.id)])

/-- The promised output of an agent or a tool. -/
def validateOutputType (n : Node) : Except Raised Unit :=
  refuse (¬ (n.config.getOr "output_type" (.str "any")).oneOf outputTypes)
    (.coded (n.id ++ " : type de sortie inconnu " ++ (n.config.get "output_type").repr ++
      " (attendu : " ++ joined outputTypes ++ ")") "output_type_unknown"
      [("node", n.id), ("value", (n.config.get "output_type").text)])

/-- What an agent does when it ends on a question. -/
def validateOnQuestion (n : Node) : Except Raised Unit :=
  refuse (¬ (n.config.getOr "on_question" (.str "continue")).oneOf onQuestionModes)
    (.coded (n.id ++ " : on_question inconnu " ++ (n.config.get "on_question").repr ++
      " (attendu : " ++ joined onQuestionModes ++ ")") "on_question_unknown"
      [("node", n.id), ("value", (n.config.get "on_question").text)])

/-- A key that must be filled. -/
def requireKey (n : Node) (key missing : String) : Except Raised Unit :=
  refuse (¬ (n.config.get key).truthy) (.plain (n.id ++ " : " ++ missing))

/-- `0 < value <= 1`, for a number. -/
def isConfidence : Value → Bool
  | .int i => i = 1
  | .float m k => 0 < m && m ≤ 10 ^ k
  | _ => false

/-- `_validate_classifier`. -/
def validateClassifier (n : Node) : Except Raised Unit := do
  let engine := n.config.getOr "engine" (.str "agent")
  refuse (¬ engine.oneOf classifierEngines)
    (.plain (n.id ++ " : engine inconnu " ++ engine.repr ++ " (attendu : " ++
      joined classifierEngines ++ ")"))
  if engine ≠ .str "jev" then
    return
  for r in ← ((n.config.get "routes").orElse (.list [])).iter do
    let route ← r.attrGet "route"
    refuse (route = .str uncertainRoute)
      (.plain (n.id ++ " : la route 'uncertain' est réservée (cas incertain de Jev)"))
    let desc ← r.attrGet "description"
    refuse desc.isBlank
      (.plain (n.id ++ " : route " ++ route.repr ++ " sans description " ++
        "(Jev classe d'après les descriptions)"))
  refuse (¬ isConfidence (n.config.getOr "min_confidence" (.float 7 1)))
    (.plain (n.id ++ " : min_confidence doit être un nombre dans ]0, 1]"))

/-- `_validate_error_handling`. -/
def validateErrorHandling (n : Node) : Except Raised Unit := do
  let raw := n.config.get "on_error"
  refuse (n.type = .tool ∧ raw ≠ .null ∧ ¬ raw.oneOf ["fail", "continue", "route"])
    (.coded (n.id ++ " : on_error inconnu " ++ raw.repr ++ " (attendu : fail, continue, route)")
      "on_error_unknown" [("node", n.id), ("value", raw.text)])
  if onError n = .route ∧ n.type = .classifier then
    let routes ← ((n.config.get "routes").orElse (.list [])).iter
    let reserved ← routes.anyM fun r => return (← r.attrGet "route") = .str errorRoute
    refuse reserved
      (.coded (n.id ++ " : la route 'error' est réservée à la sortie d'erreur")
        "on_error_route_conflict" [("node", n.id)])
  let timeout := n.config.get "timeout_s"
  refuse (n.type = .subworkflow ∧ timeout ≠ .null ∧ ¬ timeout.isIntIn 1 3600)
    (.coded (n.id ++ " : timeout_s doit être un entier de 1 à 3600 secondes")
      "node_timeout_invalid" [("node", n.id), ("min", "1"), ("max", "3600")])

/-- `_validate_db_write`. -/
def validateDbWrite (n : Node) : Except Raised Unit := do
  refuse (¬ ((n.config.get "connection").str?.any isToolConfigRef))
    (.plain (n.id ++ " : connection doit désigner une connexion base enregistrée " ++
      "(tool_config<id>), jamais une URL ou des identifiants"))
  let table := n.config.get "table"
  let parts := (table.str?.map fun s => s.toList.splitOn '.').getD []
  refuse (¬ (1 ≤ parts.length ∧ parts.length ≤ 2 ∧ parts.all fun p => isSqlIdent (.ofList p)))
    (.plain (n.id ++ " : table invalide " ++ table.repr ++ " (nom ou schema.nom, lettres, " ++
      "chiffres et _)"))
  match n.config.get "values" with
  | .dict values =>
    refuse (¬ (1 ≤ values.length ∧ values.length ≤ 50)) tooMany
    for (col, _) in values do
      refuse (¬ isSqlIdent col)
        (.plain (n.id ++ " : nom de colonne invalide " ++ Value.reprText col))
  | _ => throw tooMany
where
  tooMany : Raised :=
    .plain (n.id ++ " : values doit associer de 1 à 50 colonnes à leur valeur")

/-- A name of a sheet: `_SHEET_FORBIDDEN`, and the bound of Excel. -/
def isSheetName : Value → Bool
  | .str s => s.toList.length ≤ 31 && s.toList.all fun c => !"[]:*?/\\".toList.contains c
  | _ => false

/-- `_validate_file`. -/
def validateFile (n : Node) : Except Raised Unit := do
  let fmt := n.config.get "format"
  refuse (¬ fmt.oneOf fileFormats)
    (.coded (n.id ++ " : format de fichier inconnu " ++ fmt.repr ++ " (attendu : " ++
      joined fileFormats ++ ")") "file_format_unknown" [("node", n.id), ("value", fmt.text)])
  let content := n.config.get "content"
  refuse (content = .null ∨ (content.isText ∧ content.isBlank))
    (.coded (n.id ++ " : contenu du fichier manquant (ex. \x7b\x7bagent1\x7d\x7d)")
      "file_content_missing" [("node", n.id)])
  let name := n.config.get "filename"
  refuse (name ≠ .null ∧ ¬ name.str?.any fun s => s.toList.length ≤ 120)
    (.coded (n.id ++ " : nom de fichier invalide (texte de 120 caractères au plus)")
      "file_filename_invalid" [("node", n.id), ("max", "120")])
  let sheet := n.config.get "sheet_name"
  refuse (sheet ≠ .null ∧ sheet ≠ .str "" ∧ ¬ isSheetName sheet)
    (.coded (n.id ++ " : nom de feuille invalide (31 caractères au plus, sans [ ] : * ? / \\)")
      "file_sheet_invalid" [("node", n.id)])

/-- The folder names of a path: between slashes, those that are not blank. -/
def folderParts (folder : List Char) : List (List Char) :=
  let isSlash (c : Char) : Bool := c = '/'
  (((stripChars folder).dropWhile isSlash).rdropWhile isSlash).splitOn '/' |>.filter
    fun p => stripChars p ≠ []

/-- `_check_folder`. -/
def checkFolder (nodeId : String) (folder : Value) : Except Raised String :=
  match folder with
  | .null => .ok ""
  | v =>
    let text := v.text
    let parts := (folderParts text.toList).map fun p => String.ofList (stripChars p)
    if text.toList.length > 200 ∨ '\\' ∈ text.toList ∨ "." ∈ parts ∨ ".." ∈ parts ∨
        text.toList.any (·.toNat < 32) then
      .error (.coded (nodeId ++ " : dossier de destination invalide " ++
        Value.reprText (.ofList (text.toList.take 80)) ++ " (chemin relatif, sans .. ni \\)")
        "file_save_folder_invalid" [("node", nodeId)])
    else .ok ("/".intercalate parts)

/-- `_TEMPLATE.sub("x", template)`. -/
def withoutRefs (template : String) : String :=
  String.join ((pieces template).map fun p =>
    match p with
    | .literal text => text
    | .ref _ _ => "x")

/-- `_validate_file_save`. -/
def validateFileSave (n : Node) : Except Raised Unit := do
  let provider := n.config.get "provider"
  refuse (¬ provider.oneOf fileSaveProviders)
    (.coded (n.id ++ " : stockage inconnu " ++ provider.repr ++ " (attendu : " ++
      joined fileSaveProviders ++ ")") "file_save_provider_unknown"
      [("node", n.id), ("value", provider.text)])
  refuse (n.config.get "file").isBlank
    (.coded (n.id ++ " : fichier à déposer manquant (ex. \x7b\x7bfile1\x7d\x7d)")
      "file_save_file_missing" [("node", n.id)])
  let conflict := (n.config.get "conflict").orElse (.str "rename")
  refuse (¬ conflict.oneOf fileSaveConflicts)
    (.coded (n.id ++ " : conflict inconnu " ++ conflict.repr ++ " (attendu : " ++
      joined fileSaveConflicts ++ ")") "file_save_conflict_unknown"
      [("node", n.id), ("value", conflict.text)])
  let folder := (n.config.get "folder").orElse (.str "")
  -- The part written out may not climb; what is rendered is checked again at run time.
  let checked := if textRefPaths folder.text = [] then folder else .str (withoutRefs folder.text)
  let _ ← checkFolder n.id checked

/-- `_validate_extract_fields`: the loop over the fields, `names` being those already seen. -/
def checkExtractFields (n : Node) (names : List String) : List Value → Except Raised Unit
  | [] => .ok ()
  | .dict field :: rest =>
    match Dict.get field "name" with
    | .str name => do
      refuse (¬ isFieldName name) (badName (.str name))
      refuse (name ∈ names) (.plain (n.id ++ " : champ dupliqué : " ++ name))
      refuse (¬ (Dict.get field "type").oneOf extractFieldTypes)
        (.plain (n.id ++ " : type de champ inconnu " ++ (Dict.get field "type").repr ++
          " pour " ++ name ++ " (attendu : " ++ joined extractFieldTypes ++ ")"))
      checkExtractFields n (name :: names) rest
    | name => .error (badName name)
  | _ :: _ => .error (badName .null)
where
  badName (name : Value) : Raised := .plain (n.id ++ " : nom de champ invalide : " ++ name.repr)

/-- `_validate_extract_fields`. -/
def validateExtractFields (n : Node) : Except Raised Unit :=
  match n.config.get "fields" with
  | .list fields => do
    refuse (¬ (1 ≤ fields.length ∧ fields.length ≤ 30)) count
    checkExtractFields n [] fields
  | _ => .error count
where
  count : Raised := .plain (n.id ++ " : fields doit compter de 1 à 30 champs")

/-- The fields of a `set`: at least one, with distinct keys that are not blank. -/
def validateSet (n : Node) : Except Raised Unit := do
  let fields := (n.config.get "fields").orElse (.list [])
  refuse (¬ fields.truthy) (.plain (n.id ++ " : aucun champ à définir"))
  let keys := (← fields.iter).mapM fun f =>
    match f with
    | .dict f => (Dict.get f "key").str?.filter (strip · ≠ "")
    | _ => none
  match keys with
  | none => throw (.plain (n.id ++ " : clé de champ vide"))
  | some keys =>
    refuse (duplicates keys ≠ [])
      (.plain (n.id ++ " : clé de champ dupliquée : " ++ joined (duplicates keys)))

/-- The rules and the match mode of a `condition`. -/
def validateCondition (n : Node) : Except Raised Unit := do
  requireKey n "rules" "aucune règle de condition"
  let mode := n.config.getOr "match" (.str "all")
  refuse (¬ mode.oneOf ["all", "any"])
    (.plain (n.id ++ " : match inconnu " ++ mode.repr ++ " (all ou any)"))

/-- The query and the number of passages of a `rag`. -/
def validateRag (n : Node) : Except Raised Unit := do
  requireKey n "query" "query manquant"
  refuse (¬ (n.config.getOr "top_k" (.int 5)).isIntIn 1 20)
    (.plain (n.id ++ " : top_k doit être un entier de 1 à 20"))

/-- The request of an `http`. -/
def validateHttp (n : Node) : Except Raised Unit := do
  let method := n.config.get "method"
  refuse (¬ method.oneOf httpMethods)
    (.plain (n.id ++ " : méthode HTTP inconnue " ++ method.repr ++ " (attendu : " ++
      joined httpMethods ++ ")"))
  requireKey n "url" "url manquante"
  for h in ← ((n.config.get "headers").orElse (.list [])).iter do
    let key := lowerAscii (strip (← h.attrGetOr "key" (.str "")).text)
    refuse (key ∈ forbiddenHttpHeaders)
      (.plain (n.id ++ " : l'en-tête " ++ (← h.attrGet "key").repr ++
        " ne peut pas être écrit en clair dans le graphe (secret potentiel) ; " ++
        "l'authentification HTTP passera par auth.integration_id"))
    refuse (key = "host")
      (.plain (n.id ++ " : l'en-tête Host est fixé par le moteur d'après l'URL ; retirez-le"))
  refuse (¬ (n.config.getOr "timeout_s" (.int 15)).isIntIn 1 30)
    (.plain (n.id ++ " : timeout_s doit être un entier de 1 à 30"))
  refuse (n.config.get "auth" ≠ .null)
    (.plain (n.id ++ " : authentification HTTP pas encore disponible"))

/-- `value not in (None, "", [])`: attachments were asked for. -/
def attachmentsAsked (value : Value) : Bool :=
  value ≠ .null && value ≠ .str "" && value ≠ .list []

/-- The channel, recipients and attachments of a `notification`. -/
def validateNotification (n : Node) : Except Raised Unit := do
  let channel ← (n.config.get "channel").hash
  refuse (¬ channel.oneOf notificationChannels)
    (.plain (n.id ++ " : canal de notification inconnu " ++ channel.repr ++ " (attendu : " ++
      joined notificationChannels ++ ")"))
  let recipients := (n.config.get "to").orElse (.list [])
  let attachments := n.config.get "attachments"
  refuse (attachmentsAsked attachments ∧ channel ≠ .str "email")
    (.coded (n.id ++ " : seules les notifications email ont des pièces jointes")
      "notification_attachments_email_only" [("node", n.id)])
  refuse (attachmentsAsked attachments ∧ ¬ (attachments.isText ∨ attachments.isList))
    (.coded (n.id ++ " : attachments doit être un gabarit (ex. \x7b\x7bfile1\x7d\x7d) " ++
      "ou une liste de gabarits") "notification_attachment_bad_ref" [("node", n.id)])
  match channel with
  | .str "email" =>
    match recipients with
    | .list items => refuse (¬ (1 ≤ items.length ∧ items.length ≤ 10)) emailRecipients
    | _ => throw emailRecipients
    requireKey n "subject" "subject manquant"
  | .str "app" =>
    refuse recipients.truthy
      (.plain (n.id ++ " : to doit être vide pour une notification app " ++
        "(le destinataire est le propriétaire du workflow)"))
  | _ =>
    refuse recipients.truthy
      (.plain (n.id ++ " : to doit être vide pour une notification teams " ++
        "(le destinataire est le webhook Teams du propriétaire)"))
    requireKey n "subject" "subject manquant"
where
  emailRecipients : Raised :=
    .plain (n.id ++ " : de 1 à 10 destinataires (to) requis pour l'email")

/-- The target of a `subworkflow`. -/
def validateSubworkflow (ctx : Context) (n : Node) : Except Raised Unit :=
  match n.config.get "workflow_id" with
  | .str target => do
    refuse (strip target = "") (.plain (n.id ++ " : workflow_id manquant"))
    refuse (ctx.workflowId = some target)
      (.coded (n.id ++ " : un workflow ne peut pas s'appeler lui-même") "subworkflow_cycle"
        [("node", n.id), ("workflow", target)])
  | _ => .error (.plain (n.id ++ " : workflow_id manquant"))

/-! ## 3. The body of a loop or a try -/

/-- `_refuse_nested_decision`. -/
def refuseNestedDecision (node : Node) (body : WorkflowGraph) : Except Raised Unit :=
  match body.nodes.find? (·.type = .approval) with
  | some decision =>
    .error (.coded (node.id ++ " : décision humaine " ++ decision.id ++ " impossible ici " ++
      "(corps de loop/try ou sous-workflow)") "approval_nested"
      [("node", node.id), ("decision", decision.id)])
  | none => .ok ()

/-- The error of a body, as its owner reports it. -/
def bodyError (node : Node) (e : Raised) : Raised :=
  match e with
  | .graphError g => .plain (node.id ++ " (corps) : " ++ g.message)
  | e => if e.isValueError then .plain (node.id ++ " (corps) : graphe mal formé") else e

section Body

variable (readBody : Dict → Except Raised WorkflowGraph)

/-- `_body_graph`, with the key `body` that both callers give it. -/
def bodyGraph (node : Node) : Except Raised WorkflowGraph :=
  match node.config.get "body" with
  | .dict entries => do
    let body ← (readBody entries).mapError (bodyError node)
    refuseNestedDecision node body
    refuse (body.nodes.countP (·.type = .trigger) ≠ 1)
      (.plain (node.id ++ " (corps) : il faut exactement un déclencheur"))
    return body
  | _ => .error (.plain (node.id ++ " : body manquant (le sous-graphe à exécuter)"))

/-- `_loop_body`. -/
def loopBody (node : Node) : Except Raised WorkflowGraph := do
  let mode := node.config.get "mode"
  refuse (¬ mode.oneOf ["foreach", "until"])
    (.plain (node.id ++ " : mode de boucle inconnu " ++ mode.repr ++ " (foreach ou until)"))
  refuse (¬ (node.config.get "max_iterations").isIntIn 1 100)
    (.plain (node.id ++ " : max_iterations doit être un entier de 1 à 100"))
  refuse (mode = .str "foreach" ∧ ¬ (node.config.get "items").truthy)
    (.plain (node.id ++ " : items manquant (la liste à parcourir)"))
  refuse (mode = .str "until" ∧ ¬ (node.config.get "until").isDict)
    (.plain (node.id ++ " : condition until manquante"))
  bodyGraph readBody node

/-- `_bounded_int`, from zero and with zero for a missing key. -/
def boundedInt (node : Node) (key : String) (hi : Nat) : Except Raised Unit :=
  refuse (¬ (node.config.getOr key (.int 0)).isIntIn 0 hi)
    (.plain s!"{node.id} : {key} doit être un entier de 0 à {hi}")

/-- `_try_config`. -/
def tryConfig (node : Node) : Except Raised WorkflowGraph := do
  boundedInt node "retries" 3
  boundedInt node "retry_delay_ms" 5000
  let body ← bodyGraph readBody node
  refuse (body.nodes.any fun n => n.type = .tryBody ∨ n.type = .loop)
    (.plain (node.id ++ " (corps) : un try ne peut pas contenir de try ni de loop imbriqué"))
  return body

/-! ## 4. Every type -/

/-- `validate_node`: for each type, the checks it meets, in the order of the code. -/
def validateNode (ctx : Context) (n : Node) : Except Raised Unit := do
  match n.type with
  | .approval => validateApproval n
  | .agent =>
    validateOutputType n
    validateOnQuestion n
    requireKey n "agent_id" "agent_id manquant"
    validateErrorHandling n
  | .tool =>
    validateOutputType n
    requireKey n "tool" "outil manquant"
    validateErrorHandling n
  | .classifier =>
    validateClassifier n
    if ¬ isJev n then
      requireKey n "agent_id" "agent_id manquant"
    validateErrorHandling n
    refuse ((Value.distinct (← declaredRoutes n)).length < 2)
      (.plain (n.id ++ " : un classifieur demande au moins deux routes"))
  | .extract =>
    requireKey n "agent_id" "agent_id manquant"
    validateErrorHandling n
    validateExtractFields n
  | .rag =>
    requireKey n "agent_id" "agent_id manquant"
    validateErrorHandling n
    validateRag n
  | .document =>
    refuse (n.config.get "files").isBlank
      (.plain (n.id ++ " : files manquant (ex. \x7b\x7btrigger.attachments\x7d\x7d)"))
    validateErrorHandling n
  | .dbWrite =>
    validateDbWrite n
    validateErrorHandling n
  | .file => validateFile n
  | .fileSave => validateFileSave n
  | .router => requireKey n "rules" "aucune règle de routage"
  | .loop =>
    let _ ← loopBody readBody n
  | .tryBody =>
    let _ ← tryConfig readBody n
  | .subworkflow =>
    validateErrorHandling n
    validateSubworkflow ctx n
  | .convert =>
    refuse (¬ (n.config.get "to").oneOf convertTargets)
      (.plain (n.id ++ " : conversion inconnue " ++ (n.config.get "to").repr ++ " (attendu : " ++
        joined convertTargets ++ ")"))
  | .trigger => validateTriggerConfig ctx n.id n.config
  | .set => validateSet n
  | .condition => validateCondition n
  | .http =>
    validateErrorHandling n
    validateHttp n
  | .notification =>
    validateErrorHandling n
    validateNotification n
  | .merge => return
  | .output => return

end Body

end Apowerb.Graph
