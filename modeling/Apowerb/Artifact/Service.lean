/-
# The artifact service

`S3ArtifactService` over a bucket, which is a map from keys to dated objects.  The versions of an
artifact are the objects under

    artifacts/{app}/{session}/{segment}/{filename}/{version}/{filename}
    artifacts/{app}/user/{user}/{segment}/{filename}/{version}/{filename}     (user:…)

and nothing else records them: the next version of a save is one more than the greatest that a
listing of the keys shows.

* `next_key_free`: there is no object at the key that a listing has just led to.

The metadata of an object, which no reader here reads, is left out.
-/
import Apowerb.Lib.Except
import Apowerb.Lib.Path
import Apowerb.Raised
import Apowerb.Text
import Mathlib.Data.List.ReduceOption

namespace Apowerb.Artifact

/-! ## 1. The bucket -/

structure Object where
  key : List Char
  body : List UInt8
  contentType : String
  lastModified : Int
deriving DecidableEq, Repr

/-- One object for each key. -/
structure Bucket where
  objects : List Object
  distinct : (objects.map (·.key)).Nodup

theorem distinct_filter (b : Bucket) (p : Object → Bool) :
    ((b.objects.filter p).map (·.key)).Nodup :=
  b.distinct.sublist (List.filter_sublist.map _)

theorem distinct_upload (b : Bucket) (o : Object) :
    ((b.objects.filter (·.key ≠ o.key) ++ [o]).map (·.key)).Nodup := by
  rw [List.map_append, List.map_singleton]
  refine List.nodup_append.mpr ⟨distinct_filter b _, List.nodup_singleton _, ?_⟩
  rintro a ha b hb rfl
  obtain ⟨other, hother, hkey⟩ := List.mem_map.mp ha
  have hne := (List.mem_filter.mp hother).2
  rw [List.mem_singleton.mp hb] at hkey
  simp [hkey] at hne

def Bucket.empty : Bucket := ⟨[], List.nodup_nil⟩

/-- `upload_bytes_to_s3`. -/
def Bucket.upload (b : Bucket) (o : Object) : Bucket :=
  ⟨b.objects.filter (·.key ≠ o.key) ++ [o], distinct_upload b o⟩

/-- `delete_file_from_s3`: the deletion of a key that is not there deletes nothing. -/
def Bucket.delete (b : Bucket) (key : List Char) : Bucket :=
  ⟨b.objects.filter (·.key ≠ key), distinct_filter b _⟩

/-- `get_object_with_metadata`; `none` is the error that `_not_found` recognizes. -/
def Bucket.get? (b : Bucket) (key : List Char) : Option Object :=
  b.objects.find? (·.key = key)

/-- `list_objects_in_s3`. -/
def Bucket.listObjects (b : Bucket) (start : List Char) : List Object :=
  b.objects.filter fun o => start.isPrefixOf o.key

/-- `list_files_in_s3`. -/
def Bucket.listFiles (b : Bucket) (start : List Char) : List (List Char) :=
  (b.listObjects start).map (·.key)

theorem Bucket.get?_eq_some_iff {b : Bucket} {key : List Char} {o : Object} :
    b.get? key = some o ↔ o ∈ b.objects ∧ o.key = key := by
  unfold Bucket.get?
  constructor
  · intro h
    exact ⟨List.mem_of_find?_eq_some h, by simpa using List.find?_some h⟩
  · rintro ⟨hmem, hkey⟩
    cases hfound : b.objects.find? (·.key = key) with
    | none => exact absurd hkey (by simpa using List.find?_eq_none.mp hfound o hmem)
    | some found =>
      have hkey' : found.key = key := by simpa using List.find?_some hfound
      have hsame := List.inj_on_of_nodup_map b.distinct (List.mem_of_find?_eq_some hfound) hmem
        (hkey'.trans hkey.symm)
      rw [hsame]

theorem Bucket.mem_listFiles {b : Bucket} {start key : List Char} :
    key ∈ b.listFiles start ↔ start.isPrefixOf key = true ∧ ∃ o ∈ b.objects, o.key = key := by
  simp only [Bucket.listFiles, Bucket.listObjects, List.mem_map, List.mem_filter]
  constructor
  · rintro ⟨o, ⟨hmem, hstart⟩, rfl⟩
    exact ⟨hstart, o, hmem, rfl⟩
  · rintro ⟨hstart, o, hmem, rfl⟩
    exact ⟨o, ⟨hmem, hstart⟩, rfl⟩

theorem Bucket.mem_upload {b : Bucket} {o other : Object} :
    other ∈ (b.upload o).objects ↔ (other ∈ b.objects ∧ other.key ≠ o.key) ∨ other = o := by
  simp [Bucket.upload]

/-! ## 2. Keys -/

/-- `_OUTPUT_SEGMENT` and `_INPUT_SEGMENT`. -/
inductive Segment
  | output
  | input
deriving DecidableEq, Repr

def Segment.text : Segment → List Char
  | .output => "output".toList
  | .input => "input".toList

/-- `_ARTIFACTS_ROOT`. -/
def artifactsRoot : List Char := "artifacts".toList

/-- `/` between the parts. -/
def path (parts : List (List Char)) : List Char := Path.join '/' parts

/-- `_has_user_namespace`. -/
def hasUserNamespace (filename : String) : Bool := "user:".toList.isPrefixOf filename.toList

/-- `_key_prefix`. -/
def keyPrefix (app user filename : String) (session : Option String) (segment : Segment) :
    Except Raised (List Char) :=
  if hasUserNamespace filename then
    .ok (path [artifactsRoot, app.toList, "user".toList, user.toList, segment.text,
      filename.toList])
  else
    match session with
    | none => .error (.other "InputValidationError")
    | some session =>
      .ok (path [artifactsRoot, app.toList, session.toList, segment.text, filename.toList])

/-- `_key`, from its prefix. -/
def keyAt (start : List Char) (version : Nat) (filename : String) : List Char :=
  path [start, Nat.toDigits 10 version, filename.toList]

/-! ## 3. Versions -/

/-- `int(text)` where `text.isdigit()`; a digit that `int` does not read raises. -/
def versionOf (text : List Char) : Except Raised (Option Nat) :=
  if Text.isDigits text then
    match Text.digits? text with
    | some n => .ok (some n)
    | none => .error (.other "ValueError")
  else .ok none

/-- `sorted(set)`. -/
def sortedSet (ns : List Nat) : List Nat := ns.dedup.insertionSort (· ≤ ·)

/-- `_list_versions`, from its prefix (with the slash). -/
def versionsUnder (b : Bucket) (start : List Char) : Except Raised (List Nat) := do
  let heads := (b.listFiles start).map fun key => (key.drop start.length).takeWhile (· ≠ '/')
  let versions ← heads.mapM versionOf
  return sortedSet versions.reduceOption

/-- `_list_versions`. -/
def listVersions (b : Bucket) (app user : String) (session : Option String) (filename : String)
    (segment : Segment) : Except Raised (List Nat) := do
  let start ← keyPrefix app user filename session segment
  versionsUnder b (start ++ ['/'])

/-- `0 if not versions else max(versions) + 1`. -/
def nextVersion (versions : List Nat) : Nat :=
  match versions.max? with
  | none => 0
  | some v => v + 1

theorem digit_ne_slash {n : Nat} {c : Char} (h : c ∈ Nat.toDigits 10 n) : c ≠ '/' := by
  rintro rfl
  exact absurd (Nat.isDigit_of_mem_toDigits (by decide) (by decide) h) (by decide)

theorem versionOf_toDigits (n : Nat) : versionOf (Nat.toDigits 10 n) = .ok (some n) := by
  unfold versionOf
  rw [if_pos (Text.isDigits_toDigits n), Text.digits?_toDigits]

theorem keyAt_eq (start : List Char) (version : Nat) (filename : String) :
    keyAt start version filename =
      start ++ '/' :: (Nat.toDigits 10 version ++ '/' :: filename.toList) := by
  unfold keyAt path
  rw [Path.join_cons _ (by simp), Path.join_cons _ (by simp), Path.join_singleton]

/-- The version of a key, read back from it. -/
theorem head_keyAt (start : List Char) (version : Nat) (filename : String) :
    ((keyAt start version filename).drop (start ++ ['/']).length).takeWhile (· ≠ '/') =
      Nat.toDigits 10 version := by
  have hdrop : (keyAt start version filename).drop (start ++ ['/']).length =
      Nat.toDigits 10 version ++ '/' :: filename.toList := by
    rw [keyAt_eq, List.append_cons start '/' (_ ++ _), List.drop_left]
  rw [hdrop, List.takeWhile_append_of_pos fun c hc => by simpa using digit_ne_slash hc]
  simp

theorem startsWith_keyAt (start : List Char) (version : Nat) (filename : String) :
    (start ++ ['/']).isPrefixOf (keyAt start version filename) = true :=
  Path.startsWith_iff.mpr ⟨_, keyAt_eq start version filename⟩

theorem mem_sortedSet {n : Nat} {ns : List Nat} : n ∈ sortedSet ns ↔ n ∈ ns := by
  simp [sortedSet]

/-- The listed versions are the numbers that head the keys. -/
theorem mem_versionsUnder {b : Bucket} {start : List Char} {versions : List Nat} {n : Nat}
    (h : versionsUnder b start = .ok versions) :
    n ∈ versions ↔ ∃ key ∈ b.listFiles start,
      versionOf ((key.drop start.length).takeWhile (· ≠ '/')) = .ok (some n) := by
  unfold versionsUnder at h
  obtain ⟨found, hfound, h⟩ := Except.bind_eq_ok_iff.mp h
  cases h
  rw [mem_sortedSet, List.reduceOption_mem_iff]
  constructor
  · intro hn
    obtain ⟨head, hhead, hread⟩ := Except.exists_of_mem_mapM hfound hn
    obtain ⟨key, hkey, rfl⟩ := List.mem_map.mp hhead
    exact ⟨key, hkey, hread⟩
  · rintro ⟨key, hkey, hread⟩
    obtain ⟨version, hmem, hversion⟩ := Except.mem_of_mapM hfound (List.mem_map_of_mem hkey)
    cases hread.symm.trans hversion
    exact hmem

theorem lt_nextVersion {versions : List Nat} {n : Nat} (h : n ∈ versions) :
    n < nextVersion versions := by
  unfold nextVersion
  cases hmax : versions.max? with
  | none => exact absurd h (by rw [List.max?_eq_none_iff.mp hmax]; exact List.not_mem_nil)
  | some v => exact Nat.lt_succ_of_le ((List.max?_eq_some_iff.mp hmax).2 n h)

/-! ## 4. Saving and loading -/

/-- `types.Part`: what is saved as an artifact. -/
inductive Part
  | inlineData (data : List UInt8) (mimeType : Option String)
  | text (content : String)
  | fileData
  | empty
deriving DecidableEq, Repr

/-- `x or default` of an optional text. -/
def orDefault (value : Option String) (default : String) : String :=
  if value.getD "" = "" then default else value.getD ""

/-- The bytes and the type that `_save_artifact` stores. -/
def Part.stored : Part → Except Raised (List UInt8 × String)
  | .inlineData data mimeType => .ok (data, orDefault mimeType "application/octet-stream")
  | .text content =>
    if content = "" then .error (.other "InputValidationError")
    else .ok (content.toList.flatMap String.utf8EncodeChar, "text/plain")
  | .fileData => .error (.other "NotImplementedError")
  | .empty => .error (.other "InputValidationError")

/-- A call of `_save_artifact` or of `_save_input_artifact`. -/
inductive Request
  | output (app user : String) (session : Option String) (filename : String) (artifact : Part)
  | input (app session filename : String) (data : List UInt8) (contentType : Option String)
deriving DecidableEq, Repr

def Request.filename : Request → String
  | .output _ _ _ filename _ => filename
  | .input _ _ filename _ _ => filename

/-- The prefix of its keys. -/
def Request.start : Request → Except Raised (List Char)
  | .output app user session filename _ => keyPrefix app user filename session .output
  | .input app session filename _ _ => keyPrefix app "" filename (some session) .input

/-- The bytes and the type that it stores. -/
def Request.stored : Request → Except Raised (List UInt8 × String)
  | .output _ _ _ _ artifact => artifact.stored
  | .input _ _ _ data contentType => .ok (data, orDefault contentType "application/octet-stream")

/-- The listing of a save: the version that it will write. -/
def Request.next (r : Request) (b : Bucket) : Except Raised Nat := do
  let start ← r.start
  return nextVersion (← versionsUnder b (start ++ ['/']))

/-- The object that a save uploads. -/
def Request.object (r : Request) (version : Nat) (clock : Int) : Except Raised Object := do
  let (data, contentType) ← r.stored
  return ⟨keyAt (← r.start) version r.filename, data, contentType, clock⟩

/-- **There is no object at the key that a listing has just led to.** -/
theorem next_key_free {r : Request} {b : Bucket} {version : Nat} {start : List Char}
    (hstart : r.start = .ok start) (h : r.next b = .ok version) :
    b.get? (keyAt start version r.filename) = none := by
  unfold Request.next at h
  obtain ⟨start', hstart', h⟩ := Except.bind_eq_ok_iff.mp h
  cases hstart.symm.trans hstart'
  obtain ⟨versions, hversions, h⟩ := Except.bind_eq_ok_iff.mp h
  cases h
  by_contra hthere
  obtain ⟨o, ho⟩ := Option.ne_none_iff_exists'.mp hthere
  obtain ⟨hmem, hkey⟩ := Bucket.get?_eq_some_iff.mp ho
  have hlisted := Bucket.mem_listFiles.mpr ⟨startsWith_keyAt start _ _, o, hmem, hkey⟩
  have hversion : nextVersion versions ∈ versions :=
    (mem_versionsUnder hversions).mpr ⟨_, hlisted, by rw [head_keyAt, versionOf_toDigits]⟩
  exact absurd (lt_nextVersion hversion) (Nat.lt_irrefl _)

/-- The object at a key, as a `Part` or as a dictionary; one without bytes is not returned. -/
def loadKey (b : Bucket) (key : List Char) : Option (List UInt8 × String) :=
  match b.get? key with
  | none => none
  | some o => if o.body = [] then none else some (o.body, o.contentType)

/-- `_load_artifact` and `_load_input_artifact`, of the artifact of a prefix. -/
def loadUnder (b : Bucket) (start : List Char) (filename : String) (version : Option Nat) :
    Except Raised (Option (List UInt8 × String)) :=
  match version with
  | some version => .ok (loadKey b (keyAt start version filename))
  | none => do
    match (← versionsUnder b (start ++ ['/'])).max? with
    | none => return none
    | some version => return loadKey b (keyAt start version filename)

/-- `_load_artifact`. -/
def loadArtifact (b : Bucket) (app user : String) (session : Option String) (filename : String)
    (version : Option Nat) : Except Raised (Option (List UInt8 × String)) := do
  loadUnder b (← keyPrefix app user filename session .output) filename version

/-- `_load_input_artifact`. -/
def loadInputArtifact (b : Bucket) (app session filename : String) (version : Option Nat) :
    Except Raised (Option (List UInt8 × String)) := do
  loadUnder b (← keyPrefix app "" filename (some session) .input) filename version

end Apowerb.Artifact
