/-
# What the readers return

A LAYOUT is a bucket that holds, beside older uploads, exactly the objects of the versions that were
saved and not deleted, all of plain names.  On a layout each reader returns what the versions say:

* `Layout.listVersions_eq`, `Layout.loadKey_eq`, `Layout.loadUnder_last`: the service on one name;
* `Layout.mem_listArtifactKeys_iff`, `Layout.mem_listInputArtifactFilenames_iff`: its listings;
* `Layout.readFileBytes_eq`: the newest input of a filename, or else the newest output;
* `Layout.buildLibrary_eq`: the library.
-/
import Apowerb.Artifact.Names

namespace Apowerb.Artifact

/-- A file of the old convention, `uploads/{agent}/{filename}`. -/
def IsUpload (o : Object) : Prop := "uploads/".toList.isPrefixOf o.key = true

/-- The versions of a name, in the order of their saves. -/
def versionsOf (saved : List Saved) (n : Name) : List Saved := saved.filter (·.name = n)

/-- A bucket of older uploads and of the versions saved. -/
structure Layout (old : List Object) (saved : List Saved) (b : Bucket) : Prop where
  objects : b.objects = old ++ saved.map Saved.object
  old : ∀ o ∈ old, IsUpload o
  plain : ∀ x ∈ saved, Plain x.name
  /-- The versions of each name are numbered from 0 without a gap. -/
  numbered : ∀ n, (versionsOf saved n).map (·.version) = List.range (versionsOf saved n).length
  bodies : ∀ x ∈ saved, x.content.1 ≠ []
  dates : saved.Pairwise (·.date < ·.date)

variable {old : List Object} {saved : List Saved} {b : Bucket} {x : Saved} {n : Name}

/-! ## 1. Listings -/

theorem exists_path_root (rest : List (List Char)) :
    ∃ tail, path (artifactsRoot :: rest) = artifactsRoot ++ tail := by
  cases rest with
  | nil =>
    refine ⟨[], ?_⟩
    rw [List.append_nil, path, Path.join_singleton]
  | cons next rest =>
    refine ⟨'/' :: Path.join '/' (next :: rest), ?_⟩
    rw [path, Path.join_cons artifactsRoot (List.cons_ne_nil _ _)]

/-- A listing under the root of the artifacts shows no older upload. -/
theorem not_startsWith_upload {o : Object} (h : IsUpload o) (tail : List Char) :
    (artifactsRoot ++ tail).isPrefixOf o.key = false := by
  obtain ⟨rest, hkey⟩ := List.isPrefixOf_iff_prefix.mp h
  rw [Bool.eq_false_iff]
  intro hstart
  obtain ⟨rest', hkey'⟩ := List.isPrefixOf_iff_prefix.mp hstart
  have hhead := congrArg List.head? (hkey.trans hkey'.symm)
  have hu : "uploads/".toList.head? = some 'u' := by decide
  have ha : artifactsRoot.head? = some 'a' := by decide
  rw [List.append_assoc, List.head?_append, List.head?_append, hu, ha, Option.some_or,
    Option.some_or] at hhead
  exact absurd (Option.some.inj hhead) (by decide)

/-- What a listing under the root of the artifacts shows. -/
theorem Layout.listObjects_eq (h : Layout old saved b) {start : List Char}
    (hstart : ∃ tail, start = artifactsRoot ++ tail) :
    b.listObjects start = (saved.filter fun x => start.isPrefixOf x.key).map Saved.object := by
  obtain ⟨tail, rfl⟩ := hstart
  unfold Bucket.listObjects
  rw [h.objects, List.filter_append]
  have hold : old.filter (fun o => (artifactsRoot ++ tail).isPrefixOf o.key) = [] := by
    rw [List.filter_eq_nil_iff]
    intro o ho
    simp [not_startsWith_upload (h.old o ho) tail]
  rw [hold, List.nil_append, List.filter_map]
  rfl

theorem Layout.listFiles_eq (h : Layout old saved b) {start : List Char}
    (hstart : ∃ tail, start = artifactsRoot ++ tail) :
    b.listFiles start = (saved.filter fun x => start.isPrefixOf x.key).map Saved.key := by
  unfold Bucket.listFiles
  rw [h.listObjects_eq hstart, List.map_map]
  rfl

theorem exists_parts_root (n : Name) (tail : List Char) :
    ∃ tail', path n.parts ++ tail = artifactsRoot ++ tail' := by
  have hroot : ∃ rest, n.parts = artifactsRoot :: rest := by
    unfold Name.parts
    split <;> exact ⟨_, rfl⟩
  obtain ⟨rest, hrest⟩ := hroot
  obtain ⟨start, hstart⟩ := exists_path_root rest
  exact ⟨start ++ tail, by rw [hrest, hstart, List.append_assoc]⟩

/-- The keys under the prefix of a plain name. -/
theorem Layout.listFiles_name (h : Layout old saved b) (hn : Plain n) :
    b.listFiles (path n.parts ++ ['/']) = (versionsOf saved n).map Saved.key := by
  rw [h.listFiles_eq (exists_parts_root n _)]
  congr 1
  apply List.filter_congr
  intro x hx
  have hiff := (h.plain x hx).startsWith_name hn
  by_cases hname : x.name = n
  · simp [hiff.mpr hname, hname]
  · simp [Bool.eq_false_iff.mpr fun hs => hname (hiff.mp hs), hname]

/-! ## 2. The service on one name -/

theorem sortedSet_range (k : Nat) : sortedSet (List.range k) = List.range k := by
  unfold sortedSet
  rw [List.nodup_range.dedup]
  exact List.Pairwise.insertionSort_eq (List.pairwise_le_range)

theorem Layout.versionsUnder_eq (h : Layout old saved b) (hn : Plain n) :
    versionsUnder b (path n.parts ++ ['/']) = .ok (List.range (versionsOf saved n).length) := by
  unfold versionsUnder
  rw [h.listFiles_name hn, List.map_map]
  have hheads : ((versionsOf saved n).map ((fun key =>
      (key.drop (path n.parts ++ ['/']).length).takeWhile (· ≠ '/')) ∘ Saved.key)).mapM versionOf =
        .ok (((versionsOf saved n).map (·.version)).map some) := by
    rw [List.mapM_map, List.map_map]
    refine Except.mapM_eq_ok fun x hx => ?_
    have hname : x.name = n := by simpa using (List.mem_filter.mp hx).2
    simp only [Function.comp, Saved.key_eq x, hname, head_keyAt, versionOf_toDigits]
  simp only [hheads]
  rw [h.numbered n]
  have hsome (l : List Nat) : (l.map some).reduceOption = l := by
    rw [List.reduceOption, List.filterMap_map, Function.id_comp, List.filterMap_some]
  show Except.ok (sortedSet ((List.range _).map some).reduceOption) = _
  rw [hsome, sortedSet_range]

/-- The prefix of a plain name. -/
theorem keyPrefix_plain {segment : Segment} {app session filename : String}
    (h : FileName filename) (user : String) :
    keyPrefix app user filename (some session) segment =
      .ok (path (plainName segment app session filename).parts) := by
  unfold keyPrefix
  rw [if_neg (by rw [h.2.2]; decide)]
  rfl

theorem Layout.listVersions_eq (h : Layout old saved b) {segment : Segment}
    {app session filename : String} (hn : Plain (plainName segment app session filename))
    (user : String) :
    listVersions b app user (some session) filename segment =
      .ok (List.range (versionsOf saved (plainName segment app session filename)).length) := by
  have hfilename : FileName filename := hn.filename
  unfold listVersions
  rw [keyPrefix_plain hfilename]
  exact h.versionsUnder_eq hn

theorem mem_versionsOf : x ∈ versionsOf saved n ↔ x ∈ saved ∧ x.name = n := by
  simp [versionsOf]

theorem Layout.loadKey_eq (h : Layout old saved b) (hx : x ∈ saved) (hname : x.name = n) :
    loadKey b (keyAt (path n.parts) x.version n.filename) = some x.content := by
  subst hname
  have hmem : x.object ∈ b.objects := by
    rw [h.objects]
    exact List.mem_append_right _ (List.mem_map_of_mem hx)
  have hget := Bucket.get?_eq_some_iff.mpr ⟨hmem, x.key_eq⟩
  unfold loadKey
  rw [hget]
  exact if_neg (h.bodies x hx)

/-- The version that a save of the name would return next is the number of those there are. -/
theorem nextVersion_range (k : Nat) : nextVersion (List.range k) = k := by
  unfold nextVersion
  cases k with
  | zero => rfl
  | succ k =>
    have hmax : (List.range (k + 1)).max? = some k := by
      rw [List.max?_eq_some_iff]
      exact ⟨List.mem_range.mpr (Nat.lt_succ_self k),
        fun v hv => Nat.le_of_lt_succ (List.mem_range.mp hv)⟩
    rw [hmax]

/-- The last version of a name. -/
def lastOf (saved : List Saved) (n : Name) : Option Saved := (versionsOf saved n).getLast?

theorem Layout.max?_eq (h : Layout old saved b) (n : Name) :
    (List.range (versionsOf saved n).length).max? = (lastOf saved n).map (·.version) := by
  have hlast : (lastOf saved n).map (·.version) =
      (List.range (versionsOf saved n).length).getLast? := by
    rw [← h.numbered n, List.getLast?_map]
    rfl
  rw [hlast]
  generalize (versionsOf saved n).length = k
  cases k with
  | zero => rfl
  | succ k =>
    rw [List.range_succ, List.getLast?_concat, List.max?_eq_some_iff]
    refine ⟨List.mem_append_right _ (List.mem_singleton_self k), fun v hv => ?_⟩
    rw [← List.range_succ] at hv
    exact Nat.le_of_lt_succ (List.mem_range.mp hv)

/-- **Without a version, the last one is loaded.** -/
theorem Layout.loadUnder_last (h : Layout old saved b) (hn : Plain n) :
    loadUnder b (path n.parts) n.filename none = .ok ((lastOf saved n).map (·.content)) := by
  unfold loadUnder
  refine Except.bind_eq_ok_iff.mpr ⟨_, h.versionsUnder_eq hn, ?_⟩
  rw [h.max?_eq n]
  cases hlast : lastOf saved n with
  | none => rfl
  | some x =>
    obtain ⟨hx, hname⟩ := mem_versionsOf.mp (List.mem_of_getLast? hlast)
    simp only [Option.map_some]
    rw [h.loadKey_eq hx hname]
    rfl

/-! ## 3. The listings of the service -/

theorem path_concat_nil (first : List (List Char)) (hne : first ≠ []) :
    path (first ++ [[]]) = path first ++ ['/'] :=
  Path.join_concat_nil hne

/-- The filenames under the prefix of a session. -/
theorem Layout.filenamesUnder_session (h : Layout old saved b) {app session : String}
    {segment : Segment} (happ : '/' ∉ app.toList) (hsession : '/' ∉ session.toList) :
    filenamesUnder b (path [artifactsRoot, app.toList, session.toList, segment.text, []]) =
      (saved.filter fun x => x.name = plainName segment app session x.name.filename).map
        (·.name.filename) := by
  have hstart : path [artifactsRoot, app.toList, session.toList, segment.text, []] =
      path [artifactsRoot, app.toList, session.toList, segment.text] ++ ['/'] :=
    path_concat_nil [artifactsRoot, app.toList, session.toList, segment.text]
      (List.cons_ne_nil _ _)
  obtain ⟨tail, htail⟩ :=
    exists_path_root [app.toList, session.toList, segment.text, []]
  unfold filenamesUnder
  rw [h.listFiles_eq ⟨tail, htail⟩, hstart]
  have hfilter : (saved.filter fun x => (path [artifactsRoot, app.toList, session.toList,
      segment.text] ++ ['/']).isPrefixOf x.key) =
        saved.filter fun x => x.name = plainName segment app session x.name.filename := by
    apply List.filter_congr
    intro x hx
    have hiff := (h.plain x hx).startsWith_session segment happ hsession
    by_cases hname : x.name = plainName segment app session x.name.filename
    · simp only [hiff.mpr hname, decide_eq_true hname]
    · simp only [Bool.eq_false_iff.mpr fun hs => hname (hiff.mp hs), decide_eq_false hname]
  rw [hfilter, List.filterMap_map, ← List.filterMap_eq_map]
  apply List.filterMap_congr
  intro x hx
  obtain ⟨hmem, hname⟩ := List.mem_filter.mp hx
  have hplain := h.plain x hmem
  have hname : x.name = plainName segment app session x.name.filename := by simpa using hname
  have hparts : x.parts = [artifactsRoot, app.toList, session.toList, segment.text] ++
      [x.name.filename.toList, Nat.toDigits 10 x.version, x.name.filename.toList] := by
    unfold Saved.parts
    rw [hname]
    rfl
  have hplain' : ∀ part ∈ [x.name.filename.toList, Nat.toDigits 10 x.version,
      x.name.filename.toList], '/' ∉ part := by
    intro part hpart
    exact hplain.slash_not_mem part (hparts ▸ List.mem_append_right _ hpart)
  have hdrop : x.key.drop (path [artifactsRoot, app.toList, session.toList, segment.text] ++
      ['/']).length = path [x.name.filename.toList, Nat.toDigits 10 x.version,
        x.name.filename.toList] := by
    unfold Saved.key
    rw [hparts]
    exact Path.drop_join_append (List.cons_ne_nil _ _) (List.cons_ne_nil _ _)
  have hsplit : (path [x.name.filename.toList, Nat.toDigits 10 x.version,
      x.name.filename.toList]).splitOn '/' =
        [x.name.filename.toList, Nat.toDigits 10 x.version, x.name.filename.toList] := by
    unfold path
    rw [Path.split_join (List.cons_ne_nil _ _), Path.flatMap_split_plain hplain']
  simp only [Function.comp, hdrop, hsplit]
  simp [butTwo, path]

/-- Nothing of a plain name is listed under the prefix of a user. -/
theorem Layout.filenamesUnder_user (h : Layout old saved b) (app user : String) :
    filenamesUnder b (path [artifactsRoot, app.toList, "user".toList, user.toList,
      Segment.output.text, []]) = [] := by
  have hstart : path [artifactsRoot, app.toList, "user".toList, user.toList,
      Segment.output.text, []] =
        path [artifactsRoot, app.toList, "user".toList, user.toList, Segment.output.text] ++ ['/'] :=
    path_concat_nil [artifactsRoot, app.toList, "user".toList, user.toList, Segment.output.text]
      (List.cons_ne_nil _ _)
  obtain ⟨tail, htail⟩ :=
    exists_path_root [app.toList, "user".toList, user.toList, Segment.output.text, []]
  unfold filenamesUnder
  rw [h.listFiles_eq ⟨tail, htail⟩, hstart, List.filterMap_map, List.filterMap_eq_nil_iff]
  intro x hx
  obtain ⟨hmem, hlisted⟩ := List.mem_filter.mp hx
  obtain ⟨rest, hkey⟩ := Path.startsWith_iff.mp hlisted
  -- The key has seven parts, of which the prefix takes five at least.
  have hplain := h.plain x hmem
  obtain ⟨id, -, -, hparts⟩ := hplain.exists_session
  have hsplit := hplain.split_key
  rw [Path.split_of_startsWith hkey, hparts] at hsplit
  obtain ⟨a, as, ha⟩ := exists_cons_splitOn app.toList
  obtain ⟨u, us, hu⟩ := exists_cons_splitOn user.toList
  have hroot := Path.split_plain slash_not_mem_root
  have huser : "user".toList.splitOn '/' = ["user".toList] := Path.split_plain (by decide)
  have hsegment := Path.split_plain (slash_not_mem_segment .output)
  have hlength := congrArg List.length hsplit
  simp only [path, Path.split_join (List.cons_ne_nil _ _), List.flatMap_cons, List.flatMap_nil,
    hroot, ha, huser, hu, hsegment, List.length_append, List.length_cons, List.length_nil]
    at hlength
  have hdrop : x.key.drop (path [artifactsRoot, app.toList, "user".toList, user.toList,
      Segment.output.text] ++ ['/']).length = rest := by
    rw [hkey, List.append_cons _ '/' rest, List.drop_left]
  simp only [Function.comp, hdrop]
  exact if_pos (by omega)

/-- **The outputs of a session are listed**, and nothing else. -/
theorem Layout.mem_listArtifactKeys_iff (h : Layout old saved b) {app session : String}
    (happ : Folder app) (hsession : Folder session) (user filename : String) :
    filename ∈ listArtifactKeys b app user (some session) ↔
      ∃ x ∈ saved, x.name = outputName app user (some session) filename := by
  have hne : session ≠ "" := hsession.1
  simp only [listArtifactKeys, h.filenamesUnder_user, List.append_nil, if_neg hne, Text.sorted,
    List.mem_insertionSort, List.mem_dedup, Option.getD_some,
    h.filenamesUnder_session happ.2.1 hsession.2.1, List.mem_map, List.mem_filter,
    decide_eq_true_eq]
  constructor
  · rintro ⟨x, ⟨hmem, hname⟩, rfl⟩
    refine ⟨x, hmem, hname.trans ?_⟩
    simp [plainName, outputName, (h.plain x hmem).filename.2.2]
  · rintro ⟨x, hmem, hname⟩
    have hfilename : x.name.filename = filename := by rw [hname]; rfl
    have hplain := (h.plain x hmem).filename.2.2
    rw [hfilename] at hplain
    refine ⟨x, ⟨hmem, ?_⟩, hfilename⟩
    rw [hfilename, hname]
    simp [plainName, outputName, hplain]

/-- **The inputs of a session are listed**, and nothing else. -/
theorem Layout.mem_listInputArtifactFilenames_iff (h : Layout old saved b) {app session : String}
    (happ : Folder app) (hsession : Folder session) (filename : String) :
    filename ∈ listInputArtifactFilenames b app session ↔
      ∃ x ∈ saved, x.name = inputName app session filename := by
  simp only [listInputArtifactFilenames, Text.sorted, List.mem_insertionSort, List.mem_dedup,
    h.filenamesUnder_session happ.2.1 hsession.2.1, List.mem_map, List.mem_filter,
    decide_eq_true_eq]
  constructor
  · rintro ⟨x, ⟨hmem, hname⟩, rfl⟩
    exact ⟨x, hmem, hname⟩
  · rintro ⟨x, hmem, hname⟩
    have hfilename : x.name.filename = filename := by rw [hname]; rfl
    exact ⟨x, ⟨hmem, by rw [hfilename, hname]; rfl⟩, hfilename⟩

/-! ## 4. `file_lookup` -/

theorem marker_eq (segment : Segment) (filename : String) :
    marker segment filename =
      '/' :: (segment.text ++ '/' :: (filename.toList ++ ['/'])) := by
  unfold marker path
  rw [Path.join_cons _ (List.cons_ne_nil _ _), Path.join_cons _ (List.cons_ne_nil _ _),
    Path.join_cons _ (List.cons_ne_nil _ _), Path.join_singleton, List.nil_append]

/-- Where the marker of a filename occurs in a plain key: before a version of that name, or around
the version of another one. -/
theorem Plain.of_marker (h : Plain x.name) {segment : Segment} {filename : String}
    (hfilename : FileName filename) {before tail : List Char}
    (hkey : x.key = before ++ marker segment filename ++ tail) :
    (x.name.segment = segment ∧ x.name.filename = filename ∧
        tail.splitOn '/' = [Nat.toDigits 10 x.version, filename.toList]) ∨
      (x.name.filename.toList = segment.text ∧ filename.toList = Nat.toDigits 10 x.version ∧
        (tail.splitOn '/').length = 1) := by
  obtain ⟨id, -, hid, hparts⟩ := h.exists_session
  have hsplit := h.split_key
  have hcut : x.key.splitOn '/' = before.splitOn '/' ++
      segment.text :: filename.toList :: tail.splitOn '/' := by
    rw [hkey, marker_eq, List.append_assoc, List.cons_append, List.append_assoc, List.cons_append,
      List.append_assoc, List.singleton_append, List.splitOn_append_cons_self,
      List.splitOn_append_cons_self, List.splitOn_append_cons_self,
      Path.split_plain (slash_not_mem_segment segment), Path.split_plain hfilename.2.1]
    rfl
  rw [hcut, hparts] at hsplit
  have hfolder : ∀ {s : String}, Folder s → segment.text ≠ s.toList := by
    intro s hs heq
    cases segment with
    | output => exact hs.2.2.2 (String.toList_inj.mp heq.symm)
    | input => exact hs.2.2.1 (String.toList_inj.mp heq.symm)
  obtain ⟨t, ts, ht⟩ := exists_cons_splitOn tail
  rw [ht] at hsplit ⊢
  -- The segment of the marker is the second part of the key, the third, the fourth or the fifth.
  match before.splitOn '/', List.splitOn_ne_nil '/' before, hsplit with
  | [_], _, hsplit =>
    simp only [List.cons_append, List.nil_append, List.cons.injEq] at hsplit
    exact absurd hsplit.2.1 (hfolder h.app)
  | [_, _], _, hsplit =>
    simp only [List.cons_append, List.nil_append, List.cons.injEq] at hsplit
    exact absurd hsplit.2.2.1 (hfolder hid)
  | [_, _, _], _, hsplit =>
    simp only [List.cons_append, List.nil_append, List.cons.injEq] at hsplit
    obtain ⟨-, -, -, hsegment, hname, hversion, hleaf⟩ := hsplit
    refine .inl ⟨(Segment.text_injective hsegment).symm, (String.toList_inj.mp hname).symm, ?_⟩
    rw [hversion, hleaf, hname]
  | [_, _, _, _], _, hsplit =>
    simp only [List.cons_append, List.nil_append, List.cons.injEq] at hsplit
    obtain ⟨-, -, -, -, hname, hversion, -, hnone⟩ := hsplit
    refine .inr ⟨hname.symm, hversion, ?_⟩
    rw [hnone]
    rfl
  | _ :: _ :: _ :: _ :: _ :: _, _, hsplit =>
    have hlength := congrArg List.length hsplit
    simp only [List.length_append, List.length_cons, List.length_nil] at hlength
    omega

theorem getLastD_split_plain {filename : String} (h : FileName filename) :
    (filename.toList.splitOn '/').getLastD [] = filename.toList := by
  rw [Path.split_plain h.2.1]
  rfl

theorem candidateAt_of_parts {filename : String} (h : FileName filename) (segment : Segment)
    (o : Object) {version : Nat} {tail : List Char}
    (htail : tail.splitOn '/' = [Nat.toDigits 10 version, filename.toList]) :
    candidateAt filename segment o tail = .ok (some ⟨segment, version, o⟩) := by
  unfold candidateAt
  rw [htail]
  simp only [Text.isDigits_toDigits, if_true, getLastD_split_plain h, ne_eq, not_true, and_self,
    if_false, versionOf_toDigits]
  rfl

theorem candidateAt_of_length {filename : String} (segment : Segment) (o : Object)
    {tail : List Char} (htail : (tail.splitOn '/').length = 1) :
    candidateAt filename segment o tail = .ok none := by
  obtain ⟨part, hpart⟩ := List.length_eq_one_iff.mp htail
  unfold candidateAt
  rw [hpart]

/-- The candidate that a version is for its own filename. -/
def Saved.candidate (x : Saved) : Candidate := ⟨x.name.segment, x.version, x.object⟩

/-- A segment is no number. -/
theorem digits_ne_segment (version : Nat) (segment : Segment) :
    Nat.toDigits 10 version ≠ segment.text := by
  intro h
  have ht : 't' ∈ Nat.toDigits 10 version := by
    rw [h]
    cases segment <;> decide
  exact absurd (Nat.isDigit_of_mem_toDigits (by decide) (by decide) ht) (by decide)

/-- In its own key, the marker of a filename stands before the version. -/
theorem Plain.of_marker_own (h : Plain x.name) {segment : Segment} {tail : List Char}
    (hfound : Text.afterFirst (marker segment x.name.filename) x.key = some tail) :
    x.name.segment = segment ∧
      tail.splitOn '/' = [Nat.toDigits 10 x.version, x.name.filename.toList] := by
  obtain ⟨before, hkey⟩ := Text.of_afterFirst hfound
  rcases h.of_marker h.filename hkey with ⟨hsegment, -, htail⟩ | ⟨hname, hversion, -⟩
  · exact ⟨hsegment, htail⟩
  · exact absurd (hversion.symm.trans hname) (digits_ne_segment _ _)

/-- A version has the marker of its own name. -/
theorem Plain.marker_own (h : Plain x.name) :
    (Text.afterFirst (marker x.name.segment x.name.filename) x.key).isSome = true := by
  obtain ⟨id, -, -, hparts⟩ := h.exists_session
  have hkey : x.key = path [artifactsRoot, x.name.app.toList, id.toList] ++
      marker x.name.segment x.name.filename ++
        path [Nat.toDigits 10 x.version, x.name.filename.toList] := by
    have hcut : x.parts = [artifactsRoot, x.name.app.toList, id.toList] ++
        [x.name.segment.text, x.name.filename.toList, Nat.toDigits 10 x.version,
          x.name.filename.toList] := hparts
    unfold Saved.key path
    rw [hcut, Path.join_append (List.cons_ne_nil _ _) (List.cons_ne_nil _ _), marker_eq,
      Path.join_cons x.name.segment.text (List.cons_ne_nil _ _),
      Path.join_cons x.name.filename.toList (List.cons_ne_nil _ _)]
    simp only [List.append_assoc, List.cons_append, List.nil_append]
  rw [hkey]
  exact Text.afterFirst_isSome _ _ _

/-- **A version is a candidate for its own filename, and for no other.** -/
theorem Plain.candidate_eq (h : Plain x.name) {filename : String} (hfilename : FileName filename) :
    candidate filename x.object =
      .ok (if x.name.filename = filename then some x.candidate else none) := by
  have hother : ∀ {segment : Segment} {tail : List Char},
      Text.afterFirst (marker segment filename) x.key = some tail → x.name.filename ≠ filename →
        candidateAt filename segment x.object tail = .ok none := by
    intro segment tail hfound hne
    obtain ⟨before, hkey⟩ := Text.of_afterFirst hfound
    rcases h.of_marker hfilename hkey with ⟨-, hname, -⟩ | ⟨-, -, hlength⟩
    · exact absurd hname hne
    · exact candidateAt_of_length segment x.object hlength
  have hkey : x.object.key = x.key := rfl
  unfold candidate
  rw [hkey]
  by_cases hname : x.name.filename = filename
  · subst hname
    rw [if_pos rfl]
    have hown := h.marker_own
    cases hinput : Text.afterFirst (marker .input x.name.filename) x.key with
    | some tail =>
      obtain ⟨hsegment, htail⟩ := h.of_marker_own hinput
      rw [← hsegment]
      exact candidateAt_of_parts h.filename _ x.object htail
    | none =>
      cases hsegment : x.name.segment with
      | input =>
        rw [hsegment, hinput] at hown
        cases hown
      | output =>
        rw [hsegment] at hown
        obtain ⟨tail, houtput⟩ := Option.isSome_iff_exists.mp hown
        simp only [houtput]
        rw [candidateAt_of_parts h.filename .output x.object (h.of_marker_own houtput).2,
          Saved.candidate, hsegment]
  · rw [if_neg hname]
    cases hinput : Text.afterFirst (marker .input filename) x.key with
    | some tail => exact hother hinput hname
    | none =>
      cases houtput : Text.afterFirst (marker .output filename) x.key with
      | some tail => exact hother houtput hname
      | none => rfl

theorem Plain.startsWith_app (h : Plain x.name) {agent : String} (hagent : '/' ∉ agent.toList) :
    (path [artifactsRoot, agent.toList] ++ ['/']).isPrefixOf x.key = true ↔ x.name.app = agent := by
  have hplain : ∀ part ∈ [artifactsRoot, agent.toList], '/' ∉ part := by
    simp only [List.forall_mem_cons, List.not_mem_nil, false_implies, implies_true, and_true]
    exact ⟨slash_not_mem_root, hagent⟩
  rw [h.startsWith_iff (List.cons_ne_nil _ _) hplain]
  obtain ⟨id, -, -, hparts⟩ := h.exists_session
  rw [hparts]
  constructor
  · rintro ⟨rest, -, hcut⟩
    simp only [List.cons_append, List.nil_append, List.cons.injEq] at hcut
    exact String.toList_inj.mp hcut.2.1
  · rintro rfl
    exact ⟨_, List.cons_ne_nil _ _, rfl⟩

/-- The objects of an agent. -/
theorem Layout.listObjects_app (h : Layout old saved b) {agent : String}
    (hagent : '/' ∉ agent.toList) :
    b.listObjects (path [artifactsRoot, agent.toList, []]) =
      (saved.filter (·.name.app = agent)).map Saved.object := by
  have hstart : path [artifactsRoot, agent.toList, []] =
      path [artifactsRoot, agent.toList] ++ ['/'] :=
    path_concat_nil [artifactsRoot, agent.toList] (List.cons_ne_nil _ _)
  obtain ⟨tail, htail⟩ := exists_path_root [agent.toList, []]
  rw [h.listObjects_eq ⟨tail, htail⟩, hstart]
  congr 1
  apply List.filter_congr
  intro x hx
  have hiff := (h.plain x hx).startsWith_app hagent
  by_cases hname : x.name.app = agent
  · simp only [hiff.mpr hname, decide_eq_true hname]
  · simp only [Bool.eq_false_iff.mpr fun hs => hname (hiff.mp hs), decide_eq_false hname]

/-- What is left of a pass that takes some. -/
theorem reduceOption_map_ite {α β : Type} (p : α → Prop) [DecidablePred p] (f : α → β)
    (l : List α) :
    (l.map fun x => if p x then some (f x) else none).reduceOption = (l.filter p).map f := by
  induction l with
  | nil => rfl
  | cons x rest ih =>
    by_cases hx : p x
    · rw [List.map_cons, if_pos hx, List.reduceOption_cons_of_some, ih,
        List.filter_cons_of_pos (by simpa using hx), List.map_cons]
    · rw [List.map_cons, if_neg hx, List.reduceOption_cons_of_none, ih,
        List.filter_cons_of_neg (by simpa using hx)]

/-- The versions of a file of an agent, of any session, in the order of their saves. -/
def filesOf (saved : List Saved) (agent filename : String) : List Saved :=
  (saved.filter (·.name.app = agent)).filter (·.name.filename = filename)

/-- The last of them in a segment. -/
def newestOf (saved : List Saved) (agent filename : String) (segment : Segment) : Option Saved :=
  ((filesOf saved agent filename).filter (·.name.segment = segment)).getLast?

theorem Layout.latestBySegment_eq (h : Layout old saved b) {agent filename : String}
    (hagent : Folder agent) (hfilename : FileName filename) :
    latestBySegment (b.listObjects (path [artifactsRoot, agent.toList, []])) filename =
      .ok (Newest.all (·.segment) Candidate.rank
        ((filesOf saved agent filename).map Saved.candidate)) := by
  unfold latestBySegment
  have hfound : ((saved.filter (·.name.app = agent)).map Saved.object).mapM
      (candidate filename) = .ok ((saved.filter (·.name.app = agent)).map fun x =>
        if x.name.filename = filename then some x.candidate else none) := by
    rw [List.mapM_map]
    refine Except.mapM_eq_ok fun x hx => ?_
    exact (h.plain x (List.mem_of_mem_filter hx)).candidate_eq hfilename
  rw [h.listObjects_app hagent.2.1, hfound]
  show Except.ok (Newest.all _ _ (List.reduceOption _)) = _
  rw [reduceOption_map_ite]
  rfl

/-- The last of a list that grows is the greatest. -/
theorem eq_or_date_lt_of_getLast? {l : List Saved} (h : l.Pairwise (·.date < ·.date)) {y : Saved}
    (hlast : l.getLast? = some x) (hy : y ∈ l) : y = x ∨ y.date < x.date := by
  obtain ⟨init, rfl⟩ := List.getLast?_eq_some_iff.mp hlast
  rcases List.mem_append.mp hy with hinit | hx
  · exact .inr ((List.pairwise_append.mp h).2.2 y hinit x (List.mem_singleton_self x))
  · exact .inl (List.mem_singleton.mp hx)

theorem Layout.dates_filesOf (h : Layout old saved b) (agent filename : String) :
    (filesOf saved agent filename).Pairwise (·.date < ·.date) :=
  (h.dates.filter _).filter _

/-- The latest candidate of a segment is the last version saved in it. -/
theorem find?_latest {files : List Saved} (h : files.Pairwise (·.date < ·.date))
    (segment : Segment) :
    (Newest.all (·.segment) Candidate.rank (files.map Saved.candidate)).find?
        (·.segment = segment) =
      ((files.filter (·.name.segment = segment)).getLast?).map Saved.candidate := by
  cases hlast : (files.filter (·.name.segment = segment)).getLast? with
  | none =>
    rw [Option.map_none, List.find?_eq_none]
    intro c hc hsegment
    obtain ⟨y, hy, rfl⟩ := List.mem_map.mp (Newest.mem_of_mem_all hc)
    rw [List.getLast?_eq_none_iff, List.filter_eq_nil_iff] at hlast
    exact hlast y hy hsegment
  | some x =>
    obtain ⟨hx, hsegment⟩ := List.mem_filter.mp (List.mem_of_getLast? hlast)
    have hsegment : x.name.segment = segment := by simpa using hsegment
    obtain ⟨z, hz, hzsegment, -⟩ : ∃ z ∈ Newest.all (·.segment) Candidate.rank
        (files.map Saved.candidate), z.segment = x.candidate.segment ∧
          x.candidate.rank ≤ z.rank := Newest.exists_mem_all (List.mem_map_of_mem hx)
    cases hfound : (Newest.all (·.segment) Candidate.rank (files.map Saved.candidate)).find?
        (·.segment = segment) with
    | none =>
      refine absurd ?_ (List.find?_eq_none.mp hfound z hz)
      simpa using hzsegment.trans hsegment
    | some c =>
      have hc := List.mem_of_find?_eq_some hfound
      have hcsegment : c.segment = segment := by simpa using List.find?_some hfound
      obtain ⟨y, hy, rfl⟩ := List.mem_map.mp (Newest.mem_of_mem_all hc)
      have hrank : x.candidate.rank ≤ y.candidate.rank :=
        Newest.le_of_mem_all hc (List.mem_map_of_mem hx) (hsegment.trans hcsegment.symm)
      have hdate : x.date ≤ y.date := Prod.Lex.monotone_fst _ _ hrank
      have hylast : y ∈ files.filter (·.name.segment = segment) :=
        List.mem_filter.mpr ⟨hy, decide_eq_true hcsegment⟩
      rcases eq_or_date_lt_of_getLast? (h.filter _) hlast hylast with rfl | hlt
      · rfl
      · omega

/-- **The newest input of a filename is read**, or else the newest output. -/
theorem Layout.readFileBytes_eq (h : Layout old saved b) {agent filename : String}
    (hagent : Folder agent) (hfilename : FileName filename)
    (hx : (newestOf saved agent filename .input).or (newestOf saved agent filename .output) =
      some x) : readFileBytes b agent filename = .ok (some x.content.1) := by
  have hmem : x ∈ saved := by
    have hsource : ∀ {segment}, newestOf saved agent filename segment = some x → x ∈ saved :=
      fun hlast => List.mem_of_mem_filter (List.mem_of_mem_filter
        (List.mem_of_mem_filter (List.mem_of_getLast? hlast)))
    rcases Option.or_eq_some_iff.mp hx with hinput | ⟨-, houtput⟩
    · exact hsource hinput
    · exact hsource houtput
  have hpick : pick (Newest.all (·.segment) Candidate.rank
      ((filesOf saved agent filename).map Saved.candidate)) = some x.candidate := by
    unfold pick
    rw [find?_latest (h.dates_filesOf agent filename), find?_latest (h.dates_filesOf agent filename)]
    unfold newestOf at hx
    cases hinput : ((filesOf saved agent filename).filter (·.name.segment = .input)).getLast? with
    | some y =>
      rw [hinput] at hx
      cases hx
      rfl
    | none =>
      rw [hinput, Option.none_or] at hx
      simp only [Option.map_none, hx, Option.map_some]
  have hresolve : resolveFileKey b agent filename = .ok (some x.key) := by
    unfold resolveFileKey
    refine Except.bind_eq_ok_iff.mpr ⟨_, h.latestBySegment_eq hagent hfilename, ?_⟩
    rw [hpick]
    rfl
  have hget : b.get? x.key = some x.object := by
    rw [Bucket.get?_eq_some_iff, h.objects]
    exact ⟨List.mem_append_right _ (List.mem_map_of_mem hmem), rfl⟩
  unfold readFileBytes
  refine Except.bind_eq_ok_iff.mpr ⟨_, hresolve, ?_⟩
  dsimp only
  rw [hget]
  rfl

/-! ## 5. `library` -/

/-- The entry of a version. -/
def Saved.entry (x : Saved) : Entry :=
  ⟨x.name.app, x.name.scope.id, .artifact x.name.segment, x.name.filename, x.version, x.date,
    x.content.1.length⟩

theorem segmentOf_text (segment : Segment) : segmentOf segment.text = some segment := by
  cases segment <;> rfl

theorem path_root_nil : path [artifactsRoot, []] = path [artifactsRoot] ++ ['/'] :=
  path_concat_nil [artifactsRoot] (List.cons_ne_nil _ _)

/-- **A version of an agent that is owned is an entry.** -/
theorem Plain.artifactEntry_eq (h : Plain x.name) (owned : List String) :
    artifactEntry owned x.object = .ok (if x.name.app ∈ owned then some x.entry else none) := by
  obtain ⟨id, hname, -, hparts⟩ := h.exists_session
  have hplain : ∀ part ∈ [x.name.app.toList, id.toList, x.name.segment.text,
      x.name.filename.toList, Nat.toDigits 10 x.version, x.name.filename.toList],
        '/' ∉ part := by
    intro part hpart
    exact h.slash_not_mem part (hparts ▸ List.mem_cons_of_mem _ hpart)
  have hcut : (x.key.drop (path [artifactsRoot, []]).length).splitOn '/' =
      [x.name.app.toList, id.toList, x.name.segment.text, x.name.filename.toList,
        Nat.toDigits 10 x.version, x.name.filename.toList] := by
    have hkey : x.key = path ([artifactsRoot] ++ [x.name.app.toList, id.toList,
        x.name.segment.text, x.name.filename.toList, Nat.toDigits 10 x.version,
          x.name.filename.toList]) := by
      unfold Saved.key
      rw [hparts]
      rfl
    rw [hkey, path_root_nil, path, path,
      Path.drop_join_append (List.cons_ne_nil _ _) (List.cons_ne_nil _ _),
      Path.split_join (List.cons_ne_nil _ _), Path.flatMap_split_plain hplain]
  have hid : id = x.name.scope.id := by
    rw [hname]
    rfl
  have hne : x.name.filename.toList ≠ [] := fun hnil =>
    h.filename.1 (String.toList_inj.mp (hnil.trans String.toList_empty.symm))
  unfold artifactEntry
  rw [show x.object.key = x.key from rfl, hcut]
  by_cases howned : x.name.app ∈ owned
  · simp [segmentOf_text, butTwo, path, howned, hne, versionOf_toDigits, Saved.entry, hid]
    rfl
  · simp [segmentOf_text, howned]

/-- All artifacts are under the root. -/
theorem Layout.listObjects_root (h : Layout old saved b) :
    b.listObjects (path [artifactsRoot, []]) = saved.map Saved.object := by
  obtain ⟨tail, htail⟩ := exists_path_root [[]]
  rw [h.listObjects_eq ⟨tail, htail⟩]
  congr 1
  rw [List.filter_eq_self]
  intro x hx
  rw [path_root_nil, (h.plain x hx).startsWith_iff (List.cons_ne_nil _ _)
    (by simpa using slash_not_mem_root)]
  obtain ⟨id, -, -, hparts⟩ := (h.plain x hx).exists_session
  rw [hparts]
  exact ⟨_, List.cons_ne_nil _ _, rfl⟩

theorem Layout.artifactEntries_eq (h : Layout old saved b) (owned : List String) :
    artifactEntries b owned = .ok (Newest.all Entry.identity Entry.version
      ((saved.filter (·.name.app ∈ owned)).map Saved.entry)) := by
  unfold artifactEntries
  have hfound : (saved.map Saved.object).mapM (artifactEntry owned) =
      .ok (saved.map fun x => if x.name.app ∈ owned then some x.entry else none) := by
    rw [List.mapM_map]
    exact Except.mapM_eq_ok fun x hx => (h.plain x hx).artifactEntry_eq owned
  rw [h.listObjects_root, hfound]
  show Except.ok (Newest.all _ _ (List.reduceOption _)) = _
  rw [reduceOption_map_ite]

/-- A plain name is known by the identity of its entries. -/
theorem Plain.name_eq {y : Saved} (hx : Plain x.name) (hy : Plain y.name)
    (h : x.entry.identity = y.entry.identity) : x.name = y.name := by
  obtain ⟨id, hxname, -⟩ := hx.exists_session
  obtain ⟨id', hyname, -⟩ := hy.exists_session
  simp only [Entry.identity, Saved.entry, Prod.mk.injEq, Kind.artifact.injEq] at h
  obtain ⟨happ, hid, hsegment, hfilename⟩ := h
  have hid' : id = id' := by
    have hx' : x.name.scope.id = id := by rw [hxname]; rfl
    have hy' : y.name.scope.id = id' := by rw [hyname]; rfl
    rw [← hx', ← hy', hid]
  calc
    x.name = plainName x.name.segment x.name.app id x.name.filename := hxname
    _ = plainName y.name.segment y.name.app id' y.name.filename := by
      rw [happ, hid', hsegment, hfilename]
    _ = y.name := hyname.symm

/-- The last version of a name is its greatest. -/
theorem Layout.version_le_last (h : Layout old saved b) {y : Saved}
    (hlast : lastOf saved n = some y) (hx : x ∈ versionsOf saved n) : x.version ≤ y.version := by
  have hmax := h.max?_eq n
  rw [hlast, Option.map_some, List.max?_eq_some_iff] at hmax
  apply hmax.2
  rw [← h.numbered n]
  exact List.mem_map_of_mem hx

theorem Layout.eq_of_version (h : Layout old saved b) {y : Saved} (hx : x ∈ versionsOf saved n)
    (hy : y ∈ versionsOf saved n) (hversion : x.version = y.version) : x = y := by
  have hnodup : ((versionsOf saved n).map (·.version)).Nodup := by
    rw [h.numbered n]
    exact List.nodup_range
  exact List.inj_on_of_nodup_map hnodup hx hy hversion

/-- What is kept of a name is its last version. -/
theorem Layout.last_of_kept (h : Layout old saved b) {owned : List String}
    (hz : x.entry ∈ Newest.all Entry.identity Entry.version
      ((saved.filter (·.name.app ∈ owned)).map Saved.entry)) (hx : x ∈ saved)
    (howned : x.name.app ∈ owned) : lastOf saved x.name = some x := by
  have hown : x ∈ versionsOf saved x.name := mem_versionsOf.mpr ⟨hx, rfl⟩
  obtain ⟨y, hlast⟩ : ∃ y, lastOf saved x.name = some y :=
    ⟨_, List.getLast?_eq_some_getLast (List.ne_nil_of_mem hown)⟩
  have hy := List.mem_of_getLast? hlast
  obtain ⟨hysaved, hyname⟩ := mem_versionsOf.mp hy
  have hyentry : y.entry ∈ (saved.filter (·.name.app ∈ owned)).map Saved.entry :=
    List.mem_map_of_mem (List.mem_filter.mpr ⟨hysaved, by simpa [hyname] using howned⟩)
  have hle : y.entry.version ≤ x.entry.version := Newest.le_of_mem_all hz hyentry (by
    simp [Entry.identity, Saved.entry, hyname])
  have hsame := h.eq_of_version hown hy (Nat.le_antisymm (h.version_le_last hlast hown) hle)
  rw [hlast, hsame]

/-- An older upload is no entry of an artifact. -/
theorem legacy_of_legacyEntry {owned : List String} {taken : List (String × String)} {o : Object}
    {e : Entry} (h : legacyEntry owned taken o = some e) : e.kind = .legacy := by
  unfold legacyEntry at h
  split at h
  · split at h
    · cases h
    · cases h
      rfl
  · cases h

/-- **The library shows each name of an agent once, with its last version**, and beside them only
older uploads. -/
theorem Layout.buildLibrary_eq (h : Layout old saved b) {agents : List (String × String)}
    (hagents : agents ≠ []) : ∃ items, buildLibrary b agents = .ok items ∧
      (∀ x ∈ saved, x.name.app ∈ agents.map (·.1) → ∃ y, lastOf saved x.name = some y ∧
        (items.map (·.1)).filter (fun e => e.identity = x.entry.identity) = [y.entry]) ∧
      ∀ item ∈ items, item.1.kind ≠ .legacy → ∃ x ∈ saved, x.name.app ∈ agents.map (·.1) ∧
        item.1 = x.entry := by
  set owned := agents.map (·.1) with howned
  set entries := Newest.all Entry.identity Entry.version
    ((saved.filter (·.name.app ∈ owned)).map Saved.entry) with hentries
  set legacy := (b.listObjects (path ["uploads".toList, []])).filterMap
    (legacyEntry owned (entries.map fun e => (e.agentFolder, e.filename))) with hlegacy
  set items := ((entries ++ legacy).map fun e =>
    (e, (agents.lookup e.agentFolder).getD "")).insertionSort
      fun x y => y.1.updatedAt ≤ x.1.updatedAt with hitems
  have hresult : buildLibrary b agents = .ok items := by
    unfold buildLibrary
    rw [if_neg hagents]
    simp only [← howned, h.artifactEntries_eq owned]
    rfl
  have hperm : (items.map (·.1)).Perm (entries ++ legacy) := by
    have hsort := (List.perm_insertionSort (fun x y : Entry × String =>
      y.1.updatedAt ≤ x.1.updatedAt) ((entries ++ legacy).map fun e =>
        (e, (agents.lookup e.agentFolder).getD ""))).map (·.1)
    rw [List.map_map] at hsort
    have hid : ((fun x : Entry × String => x.1) ∘ fun e : Entry =>
        (e, (agents.lookup e.agentFolder).getD "")) = id := rfl
    rwa [hid, List.map_id] at hsort
  have hkind : ∀ e ∈ legacy, e.kind = .legacy := by
    intro e he
    obtain ⟨o, -, ho⟩ := List.mem_filterMap.mp he
    exact legacy_of_legacyEntry ho
  refine ⟨items, hresult, ?_, ?_⟩
  · intro x hx happ
    have hxentry : x.entry ∈ (saved.filter (·.name.app ∈ owned)).map Saved.entry :=
      List.mem_map_of_mem (List.mem_filter.mpr ⟨hx, by simpa using happ⟩)
    obtain ⟨z, hz, hzidentity, -⟩ : ∃ z ∈ entries, z.identity = x.entry.identity ∧
        x.entry.version ≤ z.version := Newest.exists_mem_all hxentry
    obtain ⟨y, hy, rfl⟩ := List.mem_map.mp (Newest.mem_of_mem_all hz)
    obtain ⟨hysaved, hyowned⟩ := List.mem_filter.mp hy
    have hname := (h.plain y hysaved).name_eq (h.plain x hx) hzidentity
    refine ⟨y, ?_, ?_⟩
    · rw [← hname]
      exact h.last_of_kept hz hysaved (by simpa using hyowned)
    · have hnone : legacy.filter (fun e => e.identity = x.entry.identity) = [] := by
        rw [List.filter_eq_nil_iff]
        intro e he hsame
        have hidentity : e.identity = x.entry.identity := by simpa using hsame
        have := congrArg (·.2.2.1) hidentity
        rw [show e.identity.2.2.1 = e.kind from rfl, hkind e he] at this
        cases this
      have hfilter := hperm.filter (fun e => decide (e.identity = x.entry.identity))
      rw [List.filter_append, hnone, List.append_nil, ← hzidentity, Newest.filter_all hz] at hfilter
      rw [← hzidentity]
      exact List.perm_singleton.mp hfilter
  · intro item hitem hnot
    have hmem := hperm.mem_iff.mp (List.mem_map_of_mem hitem)
    rcases List.mem_append.mp hmem with hentry | hold
    · obtain ⟨x, hx, hsame⟩ := List.mem_map.mp (Newest.mem_of_mem_all hentry)
      obtain ⟨hxsaved, hxowned⟩ := List.mem_filter.mp hx
      exact ⟨x, hxsaved, by simpa using hxowned, hsame.symm⟩
    · exact absurd (hkind _ hold) hnot

end Apowerb.Artifact
