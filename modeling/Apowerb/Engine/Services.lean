/-
# The bodies of the nodes that transform, read and send

`_Compiler._body` (`core/workflow_graph.py`) for `convert`, `set`, `extract`, `rag`, `http`,
`notification`, `document`, `db_write`, `file` and `file_save`: each renders its templates, checks
what it rendered, and hands it to a service.
-/
import Apowerb.Engine.Body

namespace Apowerb.Engine

open Graph

/-! ## 1. Values -/

/-- `value not in (None, "")`. -/
def isFilled (v : Value) : Bool := v ≠ .null && v ≠ .str ""

/-- The template under a key where it is filled, the input of the node otherwise. -/
def renderedOr (n : Node) (key : String) (input : Value) : Work Value :=
  if isFilled (n.config.get key) then render [] n.id (n.config.get key) else return input

/-- An `output`. -/
def outputBody (n : Node) (input : Value) : Work Value := renderedOr n "value" input

/-- `convert_failed`, for the errors of a conversion. -/
def convertError (n : Node) (target : Value) (e : Raised) : Raised :=
  if e.isValueError ∨ e = .other "TypeError" then
    .coded (n.id ++ " : conversion en " ++ target.text ++ " impossible (" ++ e.text ++ ")")
      "convert_failed" [("node", n.id), ("to", target.text)]
  else e

/-- A `convert`. -/
def convertBody (host : Host) (n : Node) (input : Value) : Work Value := do
  let value ← renderedOr n "input" input
  let target ← lift (field n "to")
  lift ((host.convertValue value target).mapError (convertError n target))

/-- One field of a `set`. -/
def setField (n : Node) (f : Value) : Work (String × Value) := do
  let key ← lift (f.item "key")
  let value ← render [] n.id (← lift (f.attrGet "value"))
  return (key.text, value)

/-- A `set`. -/
def setBody (n : Node) : Work Value := do
  let fields ← lift (field n "fields" >>= Value.iter)
  return .dict (← Prog.each (setField n) fields)

/-! ## 2. Extraction, and search -/

/-- A line of `_extract_prompt`. -/
def extractLine (f : Value) : Except Raised String := do
  let name ← f.item "name"
  let type ← f.item "type"
  let required ← f.attrGet "required"
  let desc ← f.attrGet "description"
  return "- " ++ name.text ++ " (" ++ type.text ++ ", " ++
    (if required.truthy then "required" else "optional") ++ ")" ++
    (if desc.truthy then ": " ++ desc.text else "")

/-- `_extract_prompt`. -/
def extractPrompt (fields : List Value) (text : String) : Except Raised String := do
  let lines ← fields.mapM extractLine
  return "\n".intercalate
    (["Reply with ONLY a JSON object with exactly these fields, nothing else.", ""] ++ lines ++
      ["", "<<< INPUT >>>", text, "<<< END INPUT >>>"])

/-- `_matches_extract_type`. -/
def matchesExtractType (value type : Value) : Bool :=
  match type, value with
  | .str "string", .str _ => true
  | .str "number", .int _ => true
  | .str "number", .float .. => true
  | .str "boolean", .bool _ => true
  | .str "list", .list _ => true
  | .str "object", .dict _ => true
  | _, _ => false

/-- `extract_failed`: what is wrong, and with which field. -/
def extractFailed (n : Node) (message : String) (name : Value) (problem : String) : Stop :=
  .failed (.of (.user (n.id ++ " : " ++ message) (some "extract_failed")
    [("node", .str n.id), ("field", name), ("problem", .str problem)]))

/-- `_extract_result`: the fields of an answer, one by one. -/
def extractFields (n : Node) (parsed : Dict) : List Value → Except Stop Dict
  | [] => .ok []
  | f :: rest => do
    let name ← (f.item "name").mapError Stop.raise
    let type ← (f.item "type").mapError Stop.raise
    let required ← (f.attrGet "required").mapError Stop.raise
    let value := Dict.get parsed name.text
    if value = .null then
      if required.truthy then
        throw (extractFailed n ("champ requis manquant : " ++ name.text) name "missing")
    else if ¬ matchesExtractType value type then
      throw (extractFailed n (name.text ++ " n'est pas du type " ++ type.text) name "type")
    return (name.text, value) :: (← extractFields n parsed rest)

/-- `_extract_result`. -/
def extractResult (host : Host) (n : Node) (fields : List Value) (answer : Value) :
    Except Stop Value :=
  match host.parseJson answer with
  | .dict parsed => return .dict (← extractFields n parsed fields)
  | _ => throw (extractFailed n "réponse d'extraction inexploitable (pas un objet JSON)" .null
      "not_json")

/-- An `extract`. -/
def extractBody (host : Host) (n : Node) (input : Value) : Work Value := do
  let value ← renderedOr n "input" input
  let text ← lift value.asText
  let fields ← lift (field n "fields" >>= Value.iter)
  let prompt ← lift (extractPrompt fields text)
  let answer ← perform (.agent (← lift (field n "agent_id")) prompt)
  .ofExcept (extractResult host n fields answer)

/-- The errors of a search name the node that asked for it. -/
def ragError (n : Node) (f : Failure) : Stop :=
  match f.fault with
  | .user message code params =>
    if code = some "rag_no_knowledge" ∨ code = some "rag_failed" then
      .failed (.of (.user message code (params.put "node" (.str n.id))))
    else .failed f
  | _ => .failed f

/-- A `rag`. -/
def ragBody (host : Host) (n : Node) : Work Value := do
  let query ← lift (← render [] n.id (← lift (field n "query"))).asText
  lift (refuse (host.services.rag = false)
    (.coded (n.id ++ " : recherche RAG indisponible") "rag_failed" [("node", n.id)]))
  let agentId ← lift (field n "agent_id")
  .act (.ask (.rag agentId query (n.config.getOr "top_k" (.int 5))))
    fun reply : Except Failure Value => .ofExcept (reply.mapError (ragError n))

/-! ## 3. Requests and notifications -/

/-- A template of a header, rendered. -/
def renderedHeader (host : Host) (n : Node) (h : Value) : Work (String × String) := do
  let key ← render [] n.id (← lift (h.attrGetOr "key" (.str "")))
  let value ← render [] n.id (← lift (h.attrGetOr "value" (.str "")))
  let key ← lift key.asText
  let value ← lift value.asText
  let sent := host.lower (Text.strip key)
  lift (refuse (sent ∈ forbiddenHttpHeaders ∨ sent = "host")
    (.coded (n.id ++ " : en-tête " ++ Value.reprText sent ++ " interdit") "http_header_forbidden"
      [("node", n.id), ("header", sent)]))
  return (key, value)

/-- The body of a request: a structure is sent as JSON, anything else as text. -/
def httpContent (n : Node) : Work Value :=
  match n.config.get "body" with
  | .null => return .null
  | template => do
    match ← render [] n.id template with
    | .null => return .null
    | .dict d => return .dict d
    | .list items => return .list items
    | v => return .str (← lift v.asText)

/-- `http_error_status`, the response hung on it. -/
def statusError (n : Node) (response status : Value) : Failure where
  fault := .user (n.id ++ " : réponse HTTP " ++ status.text) (some "http_error_status")
    [("node", .str n.id), ("status", .str status.text)]
  partialResult := some response
  reported := false
  innerNode := none

/-- `status >= 400`. -/
def isErrorStatus : Value → Bool
  | .int i => 400 ≤ i
  | _ => false

/-- An `http`. -/
def httpBody (host : Host) (n : Node) : Work Value := do
  let method ← lift (field n "method")
  let url ← lift (← render [] n.id (← lift (field n "url"))).asText
  let items ← lift ((n.config.get "headers").orElse (.list [])).iter
  let headers ← Prog.each (renderedHeader host n) items
  let content ← httpContent n
  let response ← perform (.http method url headers content
    (n.config.getOr "timeout_s" (.int 15)))
  let status ← lift (response.item "status")
  if isErrorStatus status ∧ n.config.get "accept_error_status" = .bool false then
    .raise (.failed (statusError n response status))
  else return response

/-- `value if isinstance(value, list) else [value]`, without its empty items. -/
def fileItems : Value → List Value
  | .list items => items.filter isFilled
  | v => [v].filter isFilled

/-- The reference that an item stands for: itself, or its `ref`. -/
def refOf (item : Value) : Option String :=
  let ref := match item with
    | .dict d => Dict.get d "ref"
    | v => v
  (ref.str?.map Text.strip).filter (· ≠ "")

/-- `_file_refs` for a notification. -/
def fileRefs (n : Node) (value : Value) : Except Raised (List String) := do
  let items := fileItems value
  refuse (items.length > 5)
    (.coded s!"{n.id} : {items.length} fichiers, max 5" "notification_too_many_attachments"
      [("node", n.id), ("max", "5")])
  match items.mapM refOf with
  | some refs => return refs
  | none => throw (.coded (n.id ++ " : élément qui n'est pas un fichier (attendu : une ref " ++
      "ou la sortie d'un nœud Fichier)") "notification_attachment_bad_ref" [("node", n.id)])

/-- The attachments of a notification. -/
def attachmentRefs (n : Node) : Work (List String) :=
  let template := n.config.get "attachments"
  if attachmentsAsked template then do
    let refs ← lift (fileRefs n (← render [] n.id template))
    lift (refuse (refs = [])
      (.coded (n.id ++ " : pièces jointes demandées mais aucun fichier reçu")
        "notification_attachment_missing" [("node", n.id)]))
    return refs
  else return []

/-- A `notification`. -/
def notificationBody (host : Host) (n : Node) : Work Value := do
  let channel ← lift (field n "channel")
  let templates ← lift ((n.config.get "to").orElse (.list [])).iter
  let recipients ← Prog.each (render [] n.id) templates
  let recipients ← lift (recipients.mapM Value.asText)
  let subject ← lift (← render [] n.id (n.config.getOr "subject" (.str ""))).asText
  let message ← lift (← render [] n.id (n.config.getOr "body" (.str ""))).asText
  lift (refuse (host.services.notify = false)
    (.coded (n.id ++ " : notifications indisponibles dans ce contexte d'exécution")
      "notification_unavailable" [("node", n.id)]))
  let refs ← attachmentRefs n
  let sent ← perform (.notify channel recipients subject message refs)
  return .dict [("channel", channel), ("sent", sent)]

/-! ## 4. Documents, tables, files -/

/-- `_document_refs`. -/
def documentRefs (n : Node) (files : Value) : Except Raised (List String) := do
  let items := fileItems files
  refuse (items = [])
    (.coded (n.id ++ " : aucune pièce jointe à lire") "document_no_file" [("node", n.id)])
  refuse (items.length > 10)
    (.coded s!"{n.id} : {items.length} pièces jointes, max 10" "document_too_many"
      [("node", n.id), ("max", "10")])
  items.mapM fun item =>
    match refOf item with
    | some ref => .ok ref
    | none => .error (.coded (n.id ++ " : élément sans référence de pièce jointe (" ++
        Value.reprText (.ofList (item.text.toList.take 80)) ++ ")") "document_bad_ref"
        [("node", n.id)])

/-- One document, as the node gives it on. -/
def readDocument (ref : String) : Work Dict := do
  let doc ← perform (.document ref)
  let name ← lift (doc.attrGet "name")
  let text ← lift (doc.attrGet "text")
  let pages ← lift (doc.attrGet "page_count")
  return [("name", name), ("ref", .str ref), ("text", text.orElse (.str "")),
    ("page_count", pages)]

/-- `_read_documents`. -/
def readDocuments (host : Host) (n : Node) : Work Value := do
  lift (requireService host.services.document n "document")
  let refs ← lift (documentRefs n (← render [] n.id (← lift (field n "files"))))
  let documents ← Prog.each readDocument refs
  let text ← lift (joinTexts "\n\n" (documents.map (Dict.get · "text")))
  return .dict [("documents", .list (documents.map .dict)), ("text", .str text),
    ("count", .int documents.length)]

/-- `_db_value`. -/
def dbValue : Value → Value
  | .list items => .str (Value.list items).json
  | .dict entries => .str (Value.dict entries).json
  | .object shown => .str (Value.object shown).json
  | v => v

/-- One column of a row. -/
def dbColumn (n : Node) (column : String × Value) : Work (String × Value) := do
  return (column.1, dbValue (← render [] n.id column.2))

/-- `dict.items`. -/
def entriesOf : Value → Except Raised Dict
  | .dict entries => .ok entries
  | _ => .error (.other "AttributeError")

/-- `_db_write`. -/
def dbWrite (host : Host) (n : Node) : Work Value := do
  lift (requireService host.services.dbWrite n "db_write")
  let columns ← lift (field n "values" >>= entriesOf)
  let row ← Prog.each (dbColumn n) columns
  let connection ← lift (field n "connection")
  let table ← lift (field n "table")
  let result ← perform (.dbWrite connection table row)
  let inserted ← lift (result.attrGetOr "inserted" (.int 0))
  return .dict [("table", table), ("inserted", inserted)]

/-- `workflow_files.FORMATS`, the types of the contents. -/
def contentType : Value → Except Raised String
  | .str "csv" => .ok "text/csv"
  | .str "xlsx" => .ok "application/vnd.openxmlformats-officedocument.spreadsheetml.sheet"
  | .str "json" => .ok "application/json"
  | .str "markdown" => .ok "text/markdown"
  | .str "text" => .ok "text/plain"
  | .str "docx" => .ok "application/vnd.openxmlformats-officedocument.wordprocessingml.document"
  | .str "pdf" => .ok "application/pdf"
  | _ => .error (.other "KeyError")

/-- `MAX_FILE_BYTES`. -/
def maxFileBytes : Nat := 5 * 1024 * 1024

/-- `_make_file`. -/
def makeFile (host : Host) (n : Node) : Work Value := do
  lift (requireService host.services.saveFile n "save_file")
  let format ← lift (field n "format")
  let value ← render [] n.id (← lift (field n "content"))
  let rendered ← render [] n.id (n.config.get "filename")
  let name := host.fileName n rendered format
  let sheet := (n.config.get "sheet_name").orElse .null
  let (data, rows) ← lift (host.buildFile n.id format value sheet)
  lift (refuse (data = [])
    (.coded (n.id ++ " : contenu vide, aucun fichier produit") "file_empty" [("node", n.id)]))
  lift (refuse (data.length > maxFileBytes)
    (.coded s!"{n.id} : fichier de {data.length} octets, max {maxFileBytes}" "file_too_large"
      [("node", n.id), ("max", toString maxFileBytes)]))
  let type ← lift (contentType format)
  let stored ← perform (.saveFile name type data)
  let storedName ← lift (stored.attrGetOr "name" (.str name))
  let ref ← lift (stored.item "ref")
  let size ← lift (stored.attrGetOr "size" (.int data.length))
  return .dict [("name", storedName), ("ref", ref), ("size", size), ("content_type", .str type),
    ("format", format), ("rows", rows)]

/-- `_save_to_drive`. -/
def saveToDrive (host : Host) (n : Node) : Work Value := do
  lift (requireService host.services.saveToDrive n "save_to_drive")
  let value ← render [] n.id (← lift (field n "file"))
  match refOf value with
  | none => raise (.coded (n.id ++ " : ce n'est pas un fichier " ++
      "(attendu : la sortie d'un nœud Fichier, ex. \x7b\x7bfile1\x7d\x7d)") "file_save_bad_file"
      [("node", n.id)])
  | some ref =>
    let rendered ← render [] n.id ((n.config.get "folder").orElse (.str ""))
    let folder ← lift (checkFolder n.id rendered)
    let provider ← lift (field n "provider")
    let result ← perform
      (.saveToDrive provider ref folder ((n.config.get "conflict").orElse (.str "rename")))
    let name ← lift (result.attrGet "name")
    let path ← lift (result.attrGet "path")
    let url ← lift (result.attrGet "web_url")
    return .dict [("provider", provider), ("name", name), ("path", path), ("web_url", url)]

end Apowerb.Engine
