/-
# Names, and the keys of plain ones

A name is what the readers of an artifact agree on: its segment, its agent, the session or user it
belongs to, and its filename.  A key is the parts of the name, the version and the filename again,
with slashes between them; and since a part may contain slashes, different names may have keys that
are cut alike.

A name is PLAIN where its agent and session are folders (not empty, without a slash, and not called
`input` or `output`) and its filename is not empty, has no slash and no `user:` before it.  The key
of a plain name has exactly seven parts, and that is what every reader is told by.

* `eq_of_key`: only the name and version of a plain key are found in it, whatever was asked for.
-/
import Apowerb.Artifact.Lookup

namespace Apowerb.Artifact

/-! ## 1. Names -/

/-- Whom an artifact belongs to. -/
inductive Scope
  | session (id : String)
  | user (id : String)
deriving DecidableEq, Repr

def Scope.id : Scope → String
  | .session id | .user id => id

structure Name where
  segment : Segment
  app : String
  scope : Scope
  filename : String
deriving DecidableEq, Repr

/-- The parts of its prefix. -/
def Name.parts (n : Name) : List (List Char) :=
  match n.scope with
  | .session id => [artifactsRoot, n.app.toList, id.toList, n.segment.text, n.filename.toList]
  | .user id =>
    [artifactsRoot, n.app.toList, "user".toList, id.toList, n.segment.text, n.filename.toList]

/-- The name of an output. -/
def outputName (app user : String) (session : Option String) (filename : String) : Name :=
  ⟨.output, app, if hasUserNamespace filename then .user user else .session (session.getD ""),
    filename⟩

/-- The name of an input, which belongs to its session. -/
def inputName (app session filename : String) : Name := ⟨.input, app, .session session, filename⟩

def Request.name : Request → Name
  | .output app user session filename _ => outputName app user session filename
  | .input app session filename _ _ => inputName app session filename

/-- A version that was saved. -/
structure Saved where
  name : Name
  version : Nat
  content : List UInt8 × String
  date : Int
deriving DecidableEq, Repr

def Saved.parts (x : Saved) : List (List Char) :=
  x.name.parts ++ [Nat.toDigits 10 x.version, x.name.filename.toList]

def Saved.key (x : Saved) : List Char := path x.parts

def Saved.object (x : Saved) : Object := ⟨x.key, x.content.1, x.content.2, x.date⟩

/-! ## 2. Plain names -/

/-- An agent or a session that is one part of a key, and no segment. -/
def Folder (s : String) : Prop := s ≠ "" ∧ '/' ∉ s.toList ∧ s ≠ "input" ∧ s ≠ "output"

/-- A filename that is one part of a key. -/
def FileName (f : String) : Prop := f ≠ "" ∧ '/' ∉ f.toList ∧ hasUserNamespace f = false

instance (s : String) : Decidable (Folder s) := by unfold Folder; infer_instance
instance (f : String) : Decidable (FileName f) := by unfold FileName; infer_instance

/-- The name of an artifact of a session, in plain parts. -/
def plainName (segment : Segment) (app session filename : String) : Name :=
  ⟨segment, app, .session session, filename⟩

structure Plain (n : Name) : Prop where
  app : Folder n.app
  session : ∃ id, n.scope = .session id ∧ Folder id
  filename : FileName n.filename

theorem Segment.text_injective : Function.Injective Segment.text := by
  rintro (_ | _) (_ | _) h <;> first | rfl | exact absurd h (by decide)

theorem slash_not_mem_root : '/' ∉ artifactsRoot := by decide

theorem slash_not_mem_segment (s : Segment) : '/' ∉ s.text := by cases s <;> decide

theorem slash_not_mem_digits (n : Nat) : '/' ∉ Nat.toDigits 10 n :=
  fun h => digit_ne_slash h rfl

theorem toDigits_injective {m n : Nat} (h : Nat.toDigits 10 m = Nat.toDigits 10 n) : m = n := by
  have hm := Text.digits?_toDigits m
  rw [h, Text.digits?_toDigits n] at hm
  exact (Option.some.inj hm).symm

/-- A plain name, and the parts of its keys. -/
theorem Plain.exists_session {x : Saved} (h : Plain x.name) : ∃ id,
    x.name = plainName x.name.segment x.name.app id x.name.filename ∧ Folder id ∧
      x.parts = [artifactsRoot, x.name.app.toList, id.toList, x.name.segment.text,
        x.name.filename.toList, Nat.toDigits 10 x.version, x.name.filename.toList] := by
  obtain ⟨id, hscope, hid⟩ := h.session
  refine ⟨id, ?_, hid, ?_⟩
  · unfold plainName
    rw [← hscope]
  · unfold Saved.parts Name.parts
    rw [hscope]
    rfl

theorem Plain.slash_not_mem {x : Saved} (h : Plain x.name) : ∀ part ∈ x.parts, '/' ∉ part := by
  obtain ⟨id, -, hid, hparts⟩ := h.exists_session
  rw [hparts]
  simp only [List.forall_mem_cons, List.not_mem_nil, false_implies, implies_true, and_true]
  exact ⟨slash_not_mem_root, h.app.2.1, hid.2.1, slash_not_mem_segment _, h.filename.2.1,
    slash_not_mem_digits _, h.filename.2.1⟩

theorem Plain.split_key {x : Saved} (h : Plain x.name) : x.key.splitOn '/' = x.parts := by
  unfold Saved.key path
  rw [Path.split_join (by simp [Saved.parts]), Path.flatMap_split_plain h.slash_not_mem]

theorem Name.parts_ne_nil (n : Name) : n.parts ≠ [] := by
  unfold Name.parts
  split <;> exact List.cons_ne_nil _ _

theorem keyAt_parts (n : Name) (version : Nat) (filename : String) :
    keyAt (path n.parts) version filename =
      path (n.parts ++ [Nat.toDigits 10 version, filename.toList]) :=
  Path.join_join_cons n.parts_ne_nil (by simp)

theorem keyPrefix_eq_ok {app user filename : String} {session : Option String} {segment : Segment}
    {start : List Char} (h : keyPrefix app user filename session segment = .ok start) :
    start = path (Name.parts ⟨segment, app,
      if hasUserNamespace filename then .user user else .session (session.getD ""), filename⟩) := by
  unfold keyPrefix at h
  split at h
  · rename_i huser
    cases h
    simp [Name.parts, huser]
  · rename_i hplain
    split at h
    · cases h
    · cases h
      simp [Name.parts, hplain]

/-! ## 3. What is found in a plain key -/

theorem exists_cons_splitOn (cs : List Char) : ∃ c rest, cs.splitOn '/' = c :: rest :=
  List.exists_cons_of_ne_nil (List.splitOn_ne_nil '/' cs)

/-- A text with a cut of one part. -/
theorem toList_eq {s : String} {c : List Char} {rest : List (List Char)}
    (h : s.toList.splitOn '/' = c :: rest) (hrest : rest = []) : s.toList = c := by
  rw [hrest] at h
  exact Path.eq_of_split_singleton h

/-- **Only its own name and version are found in a plain key.** -/
theorem Plain.eq_of_key {x : Saved} (h : Plain x.name) {n : Name} {v : Nat} {rest : List Char}
    (hkey : x.key = path n.parts ++ '/' :: (Nat.toDigits 10 v ++ '/' :: rest)) :
    x.name = n ∧ x.version = v := by
  obtain ⟨id, hname, hid, hparts⟩ := h.exists_session
  have hsplit := h.split_key
  rw [hkey, List.splitOn_append_cons_self, List.splitOn_append_cons_self,
    Path.split_plain (slash_not_mem_digits v), hparts] at hsplit
  obtain ⟨seg, app, scope, filename⟩ := n
  obtain ⟨a, as, ha⟩ := exists_cons_splitOn app.toList
  obtain ⟨f, fs, hf⟩ := exists_cons_splitOn filename.toList
  obtain ⟨r, rs, hr⟩ := exists_cons_splitOn rest
  obtain ⟨i, is, hi⟩ := exists_cons_splitOn scope.id.toList
  have hroot := Path.split_plain slash_not_mem_root
  have hseg := Path.split_plain (slash_not_mem_segment seg)
  cases scope with
  | user user =>
    -- A key of a user has a part more.
    have huser : "user".toList.splitOn '/' = ["user".toList] := Path.split_plain (by decide)
    have hlength := congrArg List.length hsplit
    simp only [path, Name.parts, Path.split_join (List.cons_ne_nil _ _), List.flatMap_cons,
      List.flatMap_nil, hroot, ha, huser, hseg, hf, hr, List.length_append, List.length_cons,
      List.length_nil, Scope.id] at hlength hi
    rw [hi] at hlength
    simp only [List.length_cons] at hlength
    omega
  | session session =>
    simp only [path, Name.parts, Path.split_join (List.cons_ne_nil _ _), List.flatMap_cons,
      List.flatMap_nil, hroot, ha, hseg, hf, hr, Scope.id] at hsplit hi
    rw [hi] at hsplit
    have hlength := congrArg List.length hsplit
    simp only [List.length_append, List.length_cons, List.length_nil] at hlength
    have has : as = [] := List.length_eq_zero_iff.mp (by omega)
    have hfs : fs = [] := List.length_eq_zero_iff.mp (by omega)
    have his : is = [] := List.length_eq_zero_iff.mp (by omega)
    subst has hfs his
    simp only [List.cons_append, List.nil_append, List.cons.injEq] at hsplit
    obtain ⟨-, happ, hsession, hsegment, hfilename, hversion, -⟩ := hsplit
    refine ⟨?_, (toDigits_injective hversion).symm⟩
    rw [hname]
    unfold plainName
    rw [Segment.text_injective hsegment, String.toList_inj.mp ((toList_eq ha rfl).trans happ),
      String.toList_inj.mp ((toList_eq hi rfl).trans hsession),
      String.toList_inj.mp ((toList_eq hf rfl).trans hfilename)]

theorem Saved.key_eq (x : Saved) :
    x.key = keyAt (path x.name.parts) x.version x.name.filename :=
  (keyAt_parts x.name x.version x.name.filename).symm

/-! ## 4. Which prefixes a plain key has -/

variable {x : Saved}

theorem Plain.startsWith_iff (h : Plain x.name) {first : List (List Char)} (hne : first ≠ [])
    (hplain : ∀ part ∈ first, '/' ∉ part) :
    (path first ++ ['/']).isPrefixOf x.key = true ↔ ∃ rest, rest ≠ [] ∧ x.parts = first ++ rest :=
  Path.startsWith_join_iff hne hplain h.slash_not_mem (by simp [Saved.parts])

theorem Plain.slash_not_mem_parts {n : Name} (h : Plain n) : ∀ part ∈ n.parts, '/' ∉ part := by
  intro part hpart
  exact Plain.slash_not_mem (x := ⟨n, 0, ([], ""), 0⟩) h part (List.mem_append_left _ hpart)

/-- The prefix of a name is that of its own versions. -/
theorem Plain.startsWith_name (h : Plain x.name) {n : Name} (hn : Plain n) :
    (path n.parts ++ ['/']).isPrefixOf x.key = true ↔ x.name = n := by
  rw [h.startsWith_iff n.parts_ne_nil hn.slash_not_mem_parts]
  constructor
  · rintro ⟨rest, -, hparts⟩
    obtain ⟨id, hname, -, hown⟩ := h.exists_session
    obtain ⟨id', hscope, -⟩ := hn.session
    obtain ⟨seg, app, scope, filename⟩ := n
    subst hscope
    rw [hown] at hparts
    simp only [Name.parts, List.cons_append, List.nil_append, List.cons.injEq] at hparts
    obtain ⟨-, happ, hsession, hsegment, hfilename, -⟩ := hparts
    rw [hname]
    unfold plainName
    rw [Segment.text_injective hsegment, String.toList_inj.mp happ, String.toList_inj.mp hsession,
      String.toList_inj.mp hfilename]
  · rintro rfl
    exact ⟨_, by simp, rfl⟩

/-- The prefix of a session is that of its own artifacts of the segment. -/
theorem Plain.startsWith_session (h : Plain x.name) {app session : String} (segment : Segment)
    (happ : '/' ∉ app.toList) (hsession : '/' ∉ session.toList) :
    (path [artifactsRoot, app.toList, session.toList, segment.text] ++ ['/']).isPrefixOf x.key
        = true ↔
      x.name = plainName segment app session x.name.filename := by
  have hplain : ∀ part ∈ [artifactsRoot, app.toList, session.toList, segment.text],
      '/' ∉ part := by
    simp only [List.forall_mem_cons, List.not_mem_nil, false_implies, implies_true, and_true]
    exact ⟨slash_not_mem_root, happ, hsession, slash_not_mem_segment segment⟩
  rw [h.startsWith_iff (List.cons_ne_nil _ _) hplain]
  obtain ⟨id, hname, -, hown⟩ := h.exists_session
  rw [hown]
  constructor
  · rintro ⟨rest, -, hparts⟩
    simp only [List.cons_append, List.nil_append, List.cons.injEq] at hparts
    obtain ⟨-, happ, hsession, hsegment, -⟩ := hparts
    rw [Segment.text_injective hsegment, String.toList_inj.mp happ,
      String.toList_inj.mp hsession] at hname
    exact hname
  · intro hsame
    rw [hsame] at hname ⊢
    simp only [plainName, Name.mk.injEq, Scope.session.injEq, true_and, and_true] at hname
    subst hname
    exact ⟨_, List.cons_ne_nil _ _, rfl⟩

end Apowerb.Artifact
