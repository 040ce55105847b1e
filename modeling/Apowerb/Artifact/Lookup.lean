/-
# The readers of the artifact keys

What `_filenames_under`, `file_lookup` and `library` make of the same keys:

* the listings of the service drop the last two parts of what follows the prefix of a scope;
* `file_lookup` takes what follows the first `/{segment}/{filename}/` of a key, wherever it stands,
  and wants a version and a leaf there;
* `library` counts three parts from the left and two from the right.

The language and the source of an entry of the library, which the extension and the kind decide,
are left out.
-/
import Apowerb.Artifact.Service
import Apowerb.Lib.Newest
import Mathlib.Data.Prod.Lex

namespace Apowerb.Artifact

/-! ## 1. The listings of the service -/

/-- The parts but the last two. -/
def butTwo (parts : List (List Char)) : List (List Char) := parts.take (parts.length - 2)

/-- `_filenames_under`. -/
def filenamesUnder (b : Bucket) (start : List Char) : List String :=
  (b.listFiles start).filterMap fun key =>
    let parts := (key.drop start.length).splitOn '/'
    if parts.length < 3 then none else some (String.ofList (path (butTwo parts)))

/-- `_list_artifact_keys`; an empty `session_id` is none. -/
def listArtifactKeys (b : Bucket) (app user : String) (session : Option String) : List String :=
  let ofSession :=
    if session.getD "" = "" then []
    else filenamesUnder b
      (path [artifactsRoot, app.toList, (session.getD "").toList, Segment.output.text, []])
  let ofUser := filenamesUnder b
    (path [artifactsRoot, app.toList, "user".toList, user.toList, Segment.output.text, []])
  Text.sorted (ofSession ++ ofUser)

/-- `_list_input_artifact_filenames`. -/
def listInputArtifactFilenames (b : Bucket) (app session : String) : List String :=
  Text.sorted (filenamesUnder b
    (path [artifactsRoot, app.toList, session.toList, Segment.input.text, []]))

/-- `_delete_artifact`. -/
def deleteArtifact (b : Bucket) (app user : String) (session : Option String)
    (filename : String) : Except Raised Bucket := do
  let start ← keyPrefix app user filename session .output
  let versions ← listVersions b app user session filename .output
  return versions.foldl (fun b version =>
    (b.listFiles (path [start, Nat.toDigits 10 version, []])).foldl Bucket.delete b) b

/-! ## 2. `file_lookup` -/

/-- An object that counts as a version of the file. -/
structure Candidate where
  segment : Segment
  version : Nat
  object : Object
deriving DecidableEq, Repr

/-- A tail of `{version}/{leaf}`, where the leaf is the file and no sibling of it. -/
def candidateAt (filename : String) (segment : Segment) (o : Object) (tail : List Char) :
    Except Raised (Option Candidate) :=
  match tail.splitOn '/' with
  | [version, leaf] =>
    if Text.isDigits version then
      if leaf ≠ (filename.toList.splitOn '/').getLastD [] ∧ leaf ≠ filename.toList then .ok none
      else (versionOf version).map fun n => n.map (⟨segment, ·, o⟩)
    else .ok none
  | _ => .ok none

/-- `/{segment}/{filename}/`. -/
def marker (segment : Segment) (filename : String) : List Char :=
  path [[], segment.text, filename.toList, []]

/-- The turn of an object in `_latest_by_segment`: the first segment whose marker the key has. -/
def candidate (filename : String) (o : Object) : Except Raised (Option Candidate) :=
  match Text.afterFirst (marker .input filename) o.key with
  | some tail => candidateAt filename .input o tail
  | none =>
    match Text.afterFirst (marker .output filename) o.key with
    | some tail => candidateAt filename .output o tail
    | none => .ok none

/-- The newest wins; the version breaks a tie. -/
def Candidate.rank (c : Candidate) : Int ×ₗ Nat := toLex (c.object.lastModified, c.version)

/-- `_latest_by_segment`. -/
def latestBySegment (objects : List Object) (filename : String) :
    Except Raised (List Candidate) := do
  let found ← objects.mapM (candidate filename)
  return Newest.all (·.segment) Candidate.rank found.reduceOption

/-- `_pick`: an input wins. -/
def pick (latest : List Candidate) : Option Candidate :=
  match latest.find? (·.segment = .input) with
  | some c => some c
  | none => latest.find? (·.segment = .output)

/-- `uploads/{agent}/{filename}`. -/
def legacyKey (agent filename : String) : List Char :=
  path ["uploads".toList, agent.toList, filename.toList]

/-- `resolve_file_key`. -/
def resolveFileKey (b : Bucket) (agent filename : String) : Except Raised (Option (List Char)) := do
  let objects := b.listObjects (path [artifactsRoot, agent.toList, []])
  match pick (← latestBySegment objects filename) with
  | some c => return some c.object.key
  | none =>
    let legacy := legacyKey agent filename
    return if (b.listFiles legacy).contains legacy then some legacy else none

/-- `read_file_bytes`. -/
def readFileBytes (b : Bucket) (agent filename : String) :
    Except Raised (Option (List UInt8)) := do
  match ← resolveFileKey b agent filename with
  | none => return none
  | some key =>
    match b.get? key with
    | some o => return some o.body
    | none => throw (.other "ClientError")

/-! ## 3. `library` -/

inductive Kind
  | artifact (segment : Segment)
  | legacy
deriving DecidableEq, Repr

/-- `_entry`. -/
structure Entry where
  agentFolder : String
  sessionId : String
  kind : Kind
  filename : String
  version : Nat
  updatedAt : Int
  size : Nat
deriving DecidableEq, Repr

def segmentOf (part : List Char) : Option Segment :=
  if part = Segment.input.text then some .input
  else if part = Segment.output.text then some .output
  else none

/-- The turn of an object in `_artifact_entries`. -/
def artifactEntry (owned : List String) (o : Object) : Except Raised (Option Entry) :=
  match (o.key.drop (path [artifactsRoot, []]).length).splitOn '/' with
  | agent :: session :: segment :: rest =>
    if rest.length < 3 then .ok none
    else
      match segmentOf segment with
      | none => .ok none
      | some kind =>
        let filename := path (butTwo rest)
        if String.ofList agent ∉ owned ∨ filename = [] then .ok none
        else (versionOf (rest.getD (rest.length - 2) [])).map fun n => n.map fun version =>
          ⟨String.ofList agent, String.ofList session, .artifact kind, String.ofList filename,
            version, o.lastModified, o.body.length⟩
  | _ => .ok none

/-- What the library shows once. -/
def Entry.identity (e : Entry) : String × String × Kind × String :=
  (e.agentFolder, e.sessionId, e.kind, e.filename)

/-- `_artifact_entries`. -/
def artifactEntries (b : Bucket) (owned : List String) : Except Raised (List Entry) := do
  let found ← (b.listObjects (path [artifactsRoot, []])).mapM (artifactEntry owned)
  return Newest.all Entry.identity Entry.version found.reduceOption

/-- The turn of an object in `_legacy_entries`. -/
def legacyEntry (owned : List String) (taken : List (String × String)) (o : Object) :
    Option Entry :=
  match (o.key.drop (path ["uploads".toList, []]).length).splitOn '/' with
  | [agent, name] =>
    if String.ofList agent ∉ owned ∨ name = [] ∨
        (String.ofList agent, String.ofList name) ∈ taken then none
    else some ⟨String.ofList agent, "_shared", .legacy, String.ofList name, 0, o.lastModified,
      o.body.length⟩
  | _ => none

/-- `build_library`, of the folders and their names: the newest first. -/
def buildLibrary (b : Bucket) (agents : List (String × String)) :
    Except Raised (List (Entry × String)) := do
  if agents = [] then return []
  let owned := agents.map (·.1)
  let entries ← artifactEntries b owned
  let taken := entries.map fun e => (e.agentFolder, e.filename)
  let legacy := (b.listObjects (path ["uploads".toList, []])).filterMap (legacyEntry owned taken)
  let named := (entries ++ legacy).map fun e => (e, (agents.lookup e.agentFolder).getD "")
  return named.insertionSort fun x y => y.1.updatedAt ≤ x.1.updatedAt

end Apowerb.Artifact
