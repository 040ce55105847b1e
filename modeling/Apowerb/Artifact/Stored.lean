/-
# What was stored is what is read

Runs of saves and deletions over a bucket of older uploads: any agents, sessions, users, filenames
and contents, one call after the other.

* `readers_agree`: as long as each save is of a plain name, has some bytes, and is dated after all
  that is stored, every reader sees exactly the versions that were saved and not deleted.
* `reader_disagrees`: a filename with a slash is listed with its version and a part of itself.

A deletion may be of any name: whatever it asks for, it deletes the versions of that name alone.

GHOST STATE: the versions saved and not deleted since, in the order of their saves.
-/
import Apowerb.Artifact.Readers
import Apowerb.Lib.Runs

namespace Apowerb.Artifact.Stored

open Runs

/-! ## 1. The machine -/

structure State where
  bucket : Bucket
  saved : List Saved

inductive Op
  | save (request : Request) (clock : Int)
  | delete (app user : String) (session : Option String) (filename : String)

/-- `_save_artifact` and `_save_input_artifact`: the version, and what is uploaded. -/
def uploaded (b : Bucket) (request : Request) (clock : Int) : Except Raised (Nat × Object) := do
  let version ← request.next b
  return (version, ← request.object version clock)

/-- One call; a call that raises changes nothing.  The clock of the bucket does not go back. -/
def step (s : State) : Op → Option State
  | .save request clock =>
    if s.bucket.objects.all (·.lastModified ≤ clock) then
      match uploaded s.bucket request clock with
      | .ok (version, o) => some
        { bucket := s.bucket.upload o
          saved := s.saved ++ [⟨request.name, version, (o.body, o.contentType), clock⟩] }
      | .error _ => some s
    else none
  | .delete app user session filename =>
    match deleteArtifact s.bucket app user session filename with
    | .ok b => some
      { bucket := b
        saved := s.saved.filter (·.name ≠ outputName app user session filename) }
    | .error _ => some s

def start (b : Bucket) : State := ⟨b, []⟩

/-! ## 2. What is to hold, and when -/

/-- Every reader sees what was stored. -/
structure Agree (s : State) : Prop where
  /-- The versions of a name are numbered from 0 without a gap. -/
  numbered : ∀ n, (versionsOf s.saved n).map (·.version) =
    List.range (versionsOf s.saved n).length
  versions : ∀ segment app user session filename, Plain (plainName segment app session filename) →
    listVersions s.bucket app user (some session) filename segment =
      .ok (List.range (versionsOf s.saved (plainName segment app session filename)).length)
  loadOutput : ∀ x ∈ s.saved, ∀ app user session filename,
    x.name = outputName app user session filename →
      loadArtifact s.bucket app user session filename (some x.version) = .ok (some x.content)
  loadInput : ∀ x ∈ s.saved, ∀ app session filename, x.name = inputName app session filename →
    loadInputArtifact s.bucket app session filename (some x.version) = .ok (some x.content)
  lastOutput : ∀ app user session filename, Plain (plainName .output app session filename) →
    loadArtifact s.bucket app user (some session) filename none =
      .ok ((lastOf s.saved (plainName .output app session filename)).map (·.content))
  lastInput : ∀ app session filename, Plain (plainName .input app session filename) →
    loadInputArtifact s.bucket app session filename none =
      .ok ((lastOf s.saved (plainName .input app session filename)).map (·.content))
  outputs : ∀ app user session, Folder app → Folder session →
    (listArtifactKeys s.bucket app user (some session)).Nodup ∧
      ∀ filename, filename ∈ listArtifactKeys s.bucket app user (some session) ↔
        ∃ x ∈ s.saved, x.name = outputName app user (some session) filename
  inputs : ∀ app session, Folder app → Folder session →
    (listInputArtifactFilenames s.bucket app session).Nodup ∧
      ∀ filename, filename ∈ listInputArtifactFilenames s.bucket app session ↔
        ∃ x ∈ s.saved, x.name = inputName app session filename
  /-- Each name once, with its last version, and nothing else that is no older upload. -/
  library : ∀ agents : List (String × String), agents ≠ [] →
    ∃ items, buildLibrary s.bucket agents = .ok items ∧
      (∀ x ∈ s.saved, x.name.app ∈ agents.map (·.1) → ∃ y, lastOf s.saved x.name = some y ∧
        (items.map (·.1)).filter (fun e => e.identity = x.entry.identity) = [y.entry]) ∧
      ∀ item ∈ items, item.1.kind ≠ .legacy → ∃ x ∈ s.saved, x.name.app ∈ agents.map (·.1) ∧
        item.1 = x.entry
  read : ∀ agent filename, Folder agent → FileName filename → ∀ x,
    (newestOf s.saved agent filename .input).or (newestOf s.saved agent filename .output) = some x →
      readFileBytes s.bucket agent filename = .ok (some x.content.1)

/-- The steps of a calm run: a save is of a plain name, has some bytes, and is dated after all that
is stored. -/
def Calm (s : State) : Op → Prop
  | .save request clock => Plain request.name ∧
      (∀ content, request.stored = .ok content → content.1 ≠ []) ∧
      ∀ o ∈ s.bucket.objects, o.lastModified < clock
  | .delete .. => True

/-! ## 3. What the invariant says of the readers -/

variable {old : List Object} {saved : List Saved} {b b' : Bucket} {s s' : State} {op : Op}

theorem keyPrefix_of_outputName {app user filename : String} {session : Option String}
    (h : Plain (outputName app user session filename)) :
    keyPrefix app user filename session .output =
      .ok (path (outputName app user session filename).parts) := by
  have hfilename : FileName filename := h.filename
  obtain ⟨id, hscope, hid⟩ := h.session
  have hsession : session = some id := by
    simp only [outputName, hfilename.2.2] at hscope
    cases session with
    | some given => exact congrArg some (Scope.session.inj hscope)
    | none => exact absurd (Scope.session.inj hscope).symm hid.1
  subst hsession
  rw [keyPrefix_plain hfilename]
  simp [outputName, plainName, hfilename.2.2]

theorem sorted_nodup (names : List String) : (Text.sorted names).Nodup :=
  (List.perm_insertionSort _ _).nodup_iff.mpr (List.nodup_dedup names)

/-- **What a layout says of the claim.** -/
theorem agree_of_layout (h : Layout old s.saved s.bucket) : Agree s where
  numbered := h.numbered
  versions segment app user session filename hn := h.listVersions_eq hn user
  loadOutput x hx app user session filename hname := by
    have hplain := h.plain x hx
    rw [hname] at hplain
    unfold loadArtifact
    rw [keyPrefix_of_outputName hplain]
    exact congrArg Except.ok (h.loadKey_eq hx hname)
  loadInput x hx app session filename hname := by
    have hplain := h.plain x hx
    rw [hname] at hplain
    have hfilename : FileName filename := hplain.filename
    unfold loadInputArtifact
    rw [keyPrefix_plain hfilename]
    exact congrArg Except.ok (h.loadKey_eq hx hname)
  lastOutput app user session filename hn := by
    have hfilename : FileName filename := hn.filename
    unfold loadArtifact
    rw [keyPrefix_plain hfilename]
    exact h.loadUnder_last hn
  lastInput app session filename hn := by
    have hfilename : FileName filename := hn.filename
    unfold loadInputArtifact
    rw [keyPrefix_plain hfilename]
    exact h.loadUnder_last hn
  outputs app user session happ hsession :=
    ⟨sorted_nodup _, h.mem_listArtifactKeys_iff happ hsession user⟩
  inputs app session happ hsession :=
    ⟨sorted_nodup _, h.mem_listInputArtifactFilenames_iff happ hsession⟩
  library agents hagents := h.buildLibrary_eq hagents
  read agent filename hagent hfilename x hx := h.readFileBytes_eq hagent hfilename hx

/-! ## 4. Every call keeps the layout -/

/-- What a request is saved under. -/
theorem start_of_plain {r : Request} {start : List Char} (hplain : Plain r.name)
    (h : r.start = .ok start) : start = path r.name.parts ∧ r.filename = r.name.filename := by
  cases r with
  | output app user session filename part =>
    cases (keyPrefix_of_outputName hplain).symm.trans h
    exact ⟨rfl, rfl⟩
  | input app session filename data contentType =>
    have hfilename : FileName filename := hplain.filename
    cases (keyPrefix_plain hfilename "").symm.trans h
    exact ⟨rfl, rfl⟩

theorem versionsOf_append (saved : List Saved) (x : Saved) (n : Name) :
    versionsOf (saved ++ [x]) n = versionsOf saved n ++ if x.name = n then [x] else [] := by
  unfold versionsOf
  rw [List.filter_append]
  by_cases hx : x.name = n
  · simp [hx]
  · simp [hx]

/-- A version that is the next of its name, and the latest of all. -/
theorem layout_append (h : Layout old saved b) {x : Saved} (hplain : Plain x.name)
    (hversion : x.version = (versionsOf saved x.name).length) (hbody : x.content.1 ≠ [])
    (hdates : ∀ y ∈ saved, y.date < x.date) (hobjects : b'.objects = b.objects ++ [x.object]) :
    Layout old (saved ++ [x]) b' where
  objects := by rw [hobjects, h.objects, List.map_append, List.append_assoc, List.map_singleton]
  old := h.old
  plain y hy := by
    rcases List.mem_append.mp hy with hold | hnew
    · exact h.plain y hold
    · rwa [List.mem_singleton.mp hnew]
  numbered n := by
    rw [versionsOf_append]
    split
    · rename_i hname
      subst hname
      rw [List.map_append, h.numbered, List.map_singleton, hversion, List.length_append,
        List.length_singleton, List.range_succ]
    · rw [List.append_nil]
      exact h.numbered n
  bodies y hy := by
    rcases List.mem_append.mp hy with hold | hnew
    · exact h.bodies y hold
    · rwa [List.mem_singleton.mp hnew]
  dates := by
    rw [List.pairwise_append]
    refine ⟨h.dates, List.pairwise_singleton _ _, fun y hy z hz => ?_⟩
    rw [List.mem_singleton.mp hz]
    exact hdates y hy

theorem upload_objects {o : Object} (hfree : b.get? o.key = none) :
    (b.upload o).objects = b.objects ++ [o] := by
  have hkeep : b.objects.filter (·.key ≠ o.key) = b.objects := by
    rw [List.filter_eq_self]
    intro other hother
    have hne : other.key ≠ o.key := fun hkey => by
      cases hfree.symm.trans (Bucket.get?_eq_some_iff.mpr ⟨hother, hkey⟩)
    simpa using hne
  show b.objects.filter (·.key ≠ o.key) ++ [o] = _
  rw [hkeep]

theorem layout_save (h : Layout old saved b) {request : Request} {clock : Int} {version : Nat}
    {o : Object} (hplain : Plain request.name)
    (hbody : ∀ content, request.stored = .ok content → content.1 ≠ [])
    (hdates : ∀ o ∈ b.objects, o.lastModified < clock)
    (hsaved : uploaded b request clock = .ok (version, o)) :
    Layout old (saved ++ [⟨request.name, version, (o.body, o.contentType), clock⟩])
      (b.upload o) := by
  unfold uploaded at hsaved
  obtain ⟨version', hnext, hsaved⟩ := Except.bind_eq_ok_iff.mp hsaved
  obtain ⟨o', ho, hsaved⟩ := Except.bind_eq_ok_iff.mp hsaved
  cases hsaved
  obtain ⟨⟨data, contentType⟩, hstored, ho⟩ := Except.bind_eq_ok_iff.mp ho
  obtain ⟨start, hstart, ho⟩ := Except.bind_eq_ok_iff.mp ho
  cases ho
  have hfree := next_key_free hstart hnext
  obtain ⟨rfl, hfilename⟩ := start_of_plain hplain hstart
  obtain ⟨start', hstart', hnext⟩ := Except.bind_eq_ok_iff.mp hnext
  cases hstart.symm.trans hstart'
  obtain ⟨versions, hversions, hnext⟩ := Except.bind_eq_ok_iff.mp hnext
  cases hnext
  cases (h.versionsUnder_eq hplain).symm.trans hversions
  refine layout_append h hplain (nextVersion_range _) (hbody _ hstored) ?_ ?_
  · intro y hy
    apply hdates y.object
    rw [h.objects]
    exact List.mem_append_right _ (List.mem_map_of_mem hy)
  · rw [upload_objects hfree]
    simp only [Saved.object, Saved.key_eq, hfilename]

theorem foldl_delete (keys : List (List Char)) (b : Bucket) :
    (keys.foldl Bucket.delete b).objects = b.objects.filter (·.key ∉ keys) := by
  induction keys generalizing b with
  | nil => simp
  | cons key rest ih =>
    rw [List.foldl_cons, ih]
    simp only [Bucket.delete, List.filter_filter]
    apply List.filter_congr
    intro o _
    simp [Bool.and_comm]

/-- What a deletion leaves. -/
theorem deleted_objects (start : List Char) (versions : List Nat) (b : Bucket) :
    (versions.foldl (fun b version =>
      (b.listFiles (path [start, Nat.toDigits 10 version, []])).foldl Bucket.delete b) b).objects =
        b.objects.filter fun o => ∀ version ∈ versions,
          (path [start, Nat.toDigits 10 version, []]).isPrefixOf o.key = false := by
  induction versions generalizing b with
  | nil => simp
  | cons version rest ih =>
    rw [List.foldl_cons, ih, foldl_delete, List.filter_filter]
    apply List.filter_congr
    intro o ho
    have hlisted : o.key ∈ b.listFiles (path [start, Nat.toDigits 10 version, []]) ↔
        (path [start, Nat.toDigits 10 version, []]).isPrefixOf o.key = true := by
      rw [Bucket.mem_listFiles]
      exact ⟨fun h => h.1, fun h => ⟨h, o, ho, rfl⟩⟩
    rw [Bool.eq_iff_iff]
    simp only [Bool.and_eq_true, decide_eq_true_eq, List.forall_mem_cons, hlisted,
      Bool.not_eq_true, and_comm]

theorem path_version (start : List Char) (version : Nat) :
    path [start, Nat.toDigits 10 version, []] =
      start ++ '/' :: (Nat.toDigits 10 version ++ ['/']) := by
  unfold path
  rw [Path.join_cons _ (List.cons_ne_nil _ _), Path.join_cons _ (List.cons_ne_nil _ _),
    Path.join_singleton]

/-- Under the versions that a listing of a name shows there is nothing but that name. -/
theorem kept_iff (h : Layout old saved b) {x : Saved} (hx : x ∈ saved) {n : Name}
    {versions : List Nat} (hversions : versionsUnder b (path n.parts ++ ['/']) = .ok versions) :
    (∀ version ∈ versions,
      (path [path n.parts, Nat.toDigits 10 version, []]).isPrefixOf x.key = false) ↔
        x.name ≠ n := by
  constructor
  · rintro hkept rfl
    -- Its own version is listed, and what is under it is deleted.
    have hmem : x.object ∈ b.objects := by
      rw [h.objects]
      exact List.mem_append_right _ (List.mem_map_of_mem hx)
    have hlisted := Bucket.mem_listFiles.mpr
      ⟨startsWith_keyAt (path x.name.parts) x.version x.name.filename, x.object, hmem, x.key_eq⟩
    have hversion : x.version ∈ versions :=
      (mem_versionsUnder hversions).mpr ⟨_, hlisted, by rw [head_keyAt, versionOf_toDigits]⟩
    have hfalse := hkept x.version hversion
    rw [path_version, x.key_eq, keyAt_eq, ← Bool.not_eq_true] at hfalse
    apply hfalse
    rw [List.isPrefixOf_iff_prefix]
    exact ⟨x.name.filename.toList, by simp⟩
  · intro hne version _
    rw [Bool.eq_false_iff]
    intro hstarts
    rw [path_version, List.isPrefixOf_iff_prefix] at hstarts
    obtain ⟨rest, hrest⟩ := hstarts
    have hkey : x.key = path n.parts ++ '/' :: (Nat.toDigits 10 version ++ '/' :: rest) := by
      rw [← hrest]
      simp
    exact hne ((h.plain x hx).eq_of_key hkey).1

theorem versionsOf_without (saved : List Saved) (n m : Name) :
    versionsOf (saved.filter (·.name ≠ n)) m = if m = n then [] else versionsOf saved m := by
  unfold versionsOf
  rw [List.filter_filter]
  split
  · rename_i hm
    rw [List.filter_eq_nil_iff]
    intro x _
    simp [hm]
  · rename_i hm
    apply List.filter_congr
    intro x _
    by_cases hx : x.name = m
    · simp [hx, hm]
    · simp [hx]

/-- The other versions, where those of a name are gone. -/
theorem layout_without (h : Layout old saved b) {n : Name}
    (hobjects : b'.objects = old ++ (saved.filter (·.name ≠ n)).map Saved.object) :
    Layout old (saved.filter (·.name ≠ n)) b' where
  objects := hobjects
  old := h.old
  plain x hx := h.plain x (List.mem_of_mem_filter hx)
  numbered m := by
    rw [versionsOf_without]
    split
    · rfl
    · exact h.numbered m
  bodies x hx := h.bodies x (List.mem_of_mem_filter hx)
  dates := h.dates.filter _

/-- **A deletion deletes the versions of its name, and no other.** -/
theorem layout_delete (h : Layout old saved b) {app user filename : String}
    {session : Option String} (hdeleted : deleteArtifact b app user session filename = .ok b') :
    Layout old (saved.filter (·.name ≠ outputName app user session filename)) b' := by
  unfold deleteArtifact at hdeleted
  obtain ⟨start, hstart, hdeleted⟩ := Except.bind_eq_ok_iff.mp hdeleted
  obtain ⟨versions, hversions, hdeleted⟩ := Except.bind_eq_ok_iff.mp hdeleted
  cases hdeleted
  unfold listVersions at hversions
  rw [hstart] at hversions
  obtain rfl : start = path (outputName app user session filename).parts := keyPrefix_eq_ok hstart
  apply layout_without h
  rw [deleted_objects, h.objects, List.filter_append, List.filter_map]
  congr 1
  · rw [List.filter_eq_self]
    intro o ho
    rw [decide_eq_true_eq]
    intro version _
    obtain ⟨tail, htail⟩ := exists_parts_root (outputName app user session filename)
      ('/' :: (Nat.toDigits 10 version ++ ['/']))
    rw [path_version, htail]
    exact not_startsWith_upload (h.old o ho) tail
  · congr 1
    apply List.filter_congr
    intro x hx
    rw [Bool.eq_iff_iff]
    simp only [Function.comp, decide_eq_true_eq]
    exact kept_iff h hx hversions

theorem layout_step (h : Layout old s.saved s.bucket) (hok : Calm s op)
    (hs : Stored.step s op = some s') : Layout old s'.saved s'.bucket := by
  cases op with
  | save request clock =>
    simp only [Stored.step] at hs
    split at hs
    · split at hs
      · rename_i version o hsaved
        cases hs
        exact layout_save h hok.1 hok.2.1 hok.2.2 hsaved
      · cases hs
        exact h
    · cases hs
  | delete app user session filename =>
    simp only [Stored.step] at hs
    split at hs
    · rename_i b' hdeleted
      cases hs
      exact layout_delete h hdeleted
    · cases hs
      exact h

theorem start_layout (h : ∀ o ∈ b.objects, IsUpload o) : Layout b.objects [] b where
  objects := (List.append_nil _).symm
  old := h
  plain x hx := by cases hx
  numbered n := rfl
  bodies x hx := by cases hx
  dates := List.Pairwise.nil

/-! ## 5. The result -/

/-- **The readers see what was stored**, where each save is of a plain name, with some bytes, and
dated after the others. -/
theorem readers_agree (h : ∀ o ∈ b.objects, IsUpload o) (hrun : Reach step Calm (start b) s) :
    Agree s := by
  have hlayout : Layout b.objects s.saved s.bucket :=
    hrun.invariant (I := fun s => Layout b.objects s.saved s.bucket) (start_layout h)
      fun _ _ _ hl hok hs => layout_step hl hok hs
  exact agree_of_layout hlayout

instance (n : Name) : Decidable (Plain n) :=
  match h : n.scope with
  | .session id =>
    decidable_of_iff (Folder n.app ∧ Folder id ∧ FileName n.filename)
      ⟨fun hok => ⟨hok.1, ⟨id, h, hok.2.1⟩, hok.2.2⟩, fun hn => by
        obtain ⟨id', hscope, hid⟩ := hn.session
        cases h.symm.trans hscope
        exact ⟨hn.app, hid, hn.filename⟩⟩
  | .user _ => .isFalse fun hn => by
      obtain ⟨id', hscope, -⟩ := hn.session
      cases h.symm.trans hscope

instance (r : Request) : Decidable (∀ content, r.stored = .ok content → content.1 ≠ []) :=
  match h : r.stored with
  | .ok content =>
    decidable_of_iff (content.1 ≠ [])
      ⟨fun hne c hc => by cases hc; exact hne, fun hall => hall content rfl⟩
  | .error _ => .isTrue fun c hc => by cases hc

instance (s : State) : (op : Op) → Decidable (Calm s op)
  | .save request clock => inferInstanceAs (Decidable (Plain request.name ∧
      (∀ content, request.stored = .ok content → content.1 ≠ []) ∧
      ∀ o ∈ s.bucket.objects, o.lastModified < clock))
  | .delete .. => .isTrue trivial

/-- An output of a session. -/
def report (filename : String) (data : List UInt8) : Request :=
  .output "agent1" "user" (some "session") filename (.inlineData data none)

/-- Two versions of a report and an upload of the same name; and another report, which is
deleted. -/
def stored : List Op :=
  [.save (report "report.txt" [1]) 1, .save (report "report.txt" [2]) 2,
    .save (.input "agent1" "_shared" "report.txt" [3] none) 3, .save (report "5" [4]) 4,
    .delete "agent1" "user" (some "session") "5"]

theorem readers_agree_stored : ∃ s, Reach step Calm (start .empty) s ∧
    s.saved.map (fun x => (x.name.segment, x.version, x.content.1)) =
      [(.output, 0, [1]), (.output, 1, [2]), (.input, 0, [3])] ∧ Agree s := by
  have hplay : (replay step Calm (start .empty) stored).map
      (fun s => s.saved.map fun x => (x.name.segment, x.version, x.content.1)) =
        some [(.output, 0, [1]), (.output, 1, [2]), (.input, 0, [3])] := by decide +kernel
  obtain ⟨s, hs, hout⟩ := Option.map_eq_some_iff.mp hplay
  have hrun := Reach.of_replay stored hs
  exact ⟨s, hrun, hout, readers_agree (fun o ho => by cases ho) hrun⟩

/-- **A reader can disagree**: a report in a folder is listed under another name. -/
theorem reader_disagrees : ¬ ∀ b s, (∀ o ∈ b.objects, IsUpload o) →
    Reach step anyStep (start b) s → Agree s := by
  intro hall
  have hplay : (replay step anyStep (start .empty) [.save (report "a/b" [1]) 1]).map
      (fun s => (listArtifactKeys s.bucket "agent1" "user" (some "session"),
        s.saved.map (·.name))) =
      some (["a/b/0"], [outputName "agent1" "user" (some "session") "a/b"]) := by decide +kernel
  obtain ⟨s, hs, hout⟩ := Option.map_eq_some_iff.mp hplay
  obtain ⟨hlisted, hsaved⟩ := Prod.mk.inj hout
  have hagree := hall .empty s (fun o ho => by cases ho) (Reach.of_replay _ hs)
  have hmem := (hagree.outputs "agent1" "user" "session" (by decide) (by decide)).2 "a/b/0"
  rw [hlisted] at hmem
  obtain ⟨x, hx, hname⟩ := hmem.mp (List.mem_singleton_self _)
  have hother : x.name ∈ s.saved.map (·.name) := List.mem_map_of_mem hx
  rw [hsaved, List.mem_singleton, hname] at hother
  exact absurd hother (by decide)

end Apowerb.Artifact.Stored
