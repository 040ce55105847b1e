/-
# The materialisation of the sources

`_Materializer` (`bi/spec/engine.py`) starts a task for each source, on demand, and a task awaits
those of the sources it reads from: its parent, then the sources it joins.  A state says where each
task stands (`Task`), and a step is anything one of them can do next (`step`), in any order.

* **No deadlock.**  The sources on the stack of the cycle search are refused before a task is
  started, and the others were finished one after another (`Cycles.rank_lt`), so that the waits lead
  down (`Inv.wait_lt`): they form no cycle, a task that has not ended can go on or waits for one
  that can, and no run goes on for ever.
* **Sound keys.**  A cached frame is found by the hash of a definition and of the hashes of those it
  depends on, cut off at names seen above.  The names cut off are expanded above, so that what the
  hash covers is closed under the references (`covers_of_signature`).

A definition is of any type: of it the references are read (`view`), and all of it is hashed.  The
hash is taken to be injective, and longer than an identifier, as a digest of 64 characters is.
-/
import Apowerb.Bi.Cycles
import Apowerb.Lib.Runs
import Mathlib.Algebra.Order.BigOperators.Group.Finset
import Mathlib.Logic.Equiv.List

namespace Apowerb.Bi.Materialize

open Spec Cycles Relation

/-! ## 1. Tasks -/

/-- Where the task of a source stands. -/
inductive Task
  /-- it runs, with these references still to be read -/
  | runs (todo : List String)
  /-- it awaits the task of another source -/
  | waits (on : String) (todo : List String)
  /-- it has returned a frame, or raised -/
  | ended (frame : Bool)
deriving DecidableEq

/-- `_tasks`. -/
abbrev State := String → Option Task

def start : State := fun _ => none

def State.set (s : State) (name : String) (t : Task) : State :=
  fun n => if n = name then some t else s n

/-- What can happen next. -/
inductive Op
  /-- `materialize_all` asks for a source -/
  | asks (name : String)
  /-- a task asks for the next source it reads from -/
  | reads (name : String)
  /-- the task that another awaits has ended -/
  | resumes (name : String)
  /-- a task returns its frame -/
  | returns (name : String)
  /-- a step of a task raises -/
  | raises (name : String)

variable (sources : List SourceSpec)

/-- `get_source` refuses the name. -/
def refused (name : String) : Bool :=
  !known sources name || name ∈ findCycleMembers sources

/-- The references of a source, in the order in which `_build` reads them. -/
def references (name : String) : List String :=
  ((byName sources name).map sourceDependencies).getD []

/-- `get_source`, for a name that is not refused: its task, started if it is not there. -/
def getSource (s : State) (name : String) : State :=
  if s name = none then s.set name (.runs (references sources name)) else s

def step (s : State) : Op → Option State
  | .asks name =>
    if refused sources name = false ∧ s name = none then some (getSource sources s name) else none
  | .reads name =>
    match s name with
    | some (.runs (d :: todo)) =>
      if refused sources d then some (s.set name (.ended false))
      else some ((getSource sources s d).set name (.waits d todo))
    | _ => none
  | .resumes name =>
    match s name with
    | some (.waits d todo) =>
      match s d with
      | some (.ended true) => some (s.set name (.runs todo))
      | some (.ended false) => some (s.set name (.ended false))
      | _ => none
    | _ => none
  | .returns name =>
    match s name with
    -- with nothing left to read, or from the cache at once
    | some (.runs todo) =>
      if todo = [] ∨ todo = references sources name then some (s.set name (.ended true)) else none
    | _ => none
  | .raises name =>
    match s name with
    | some (.runs _) => some (s.set name (.ended false))
    | _ => none

abbrev Reached (s : State) : Prop := Runs.Reach (step sources) Runs.anyStep start s

/-- The task of `a` awaits that of `b`. -/
def Waits (s : State) (a b : String) : Prop := ∃ todo, s a = some (.waits b todo)

variable {sources}

/-! ## 2. What a step does -/

@[simp] theorem set_self (s : State) (name : String) (t : Task) : s.set name t name = some t :=
  if_pos rfl

theorem set_ne (s : State) {name n : String} (t : Task) (h : n ≠ name) : s.set name t n = s n :=
  if_neg h

/-- What has not been started is started, nothing else. -/
theorem getSource_cases (sources : List SourceSpec) (s : State) (name n : String) :
    getSource sources s name n = s n ∨
      n = name ∧ s name = none ∧
        getSource sources s name n = some (.runs (references sources name)) := by
  by_cases h : s name = none
  · rw [getSource, if_pos h]
    by_cases hn : n = name
    · subst hn
      exact .inr ⟨rfl, h, set_self s n _⟩
    · exact .inl (set_ne s _ hn)
  · rw [getSource, if_neg h]
    exact .inl rfl

theorem getSource_isSome (s : State) (name : String) : (getSource sources s name name).isSome := by
  rcases getSource_cases sources s name name with h | ⟨-, -, h⟩
  · rw [h]
    by_cases hn : s name = none
    · rw [getSource, if_pos hn, set_self] at h
      rw [← h]
      rfl
    · exact Option.isSome_iff_ne_none.mpr hn
  · rw [h]
    rfl

/-- A step, by cases. -/
theorem step_cases {s s' : State} {op : Op} (h : step sources s op = some s') :
    (∃ name, refused sources name = false ∧ s name = none ∧ s' = getSource sources s name) ∨
    (∃ name d todo, s name = some (.runs (d :: todo)) ∧ refused sources d = false ∧
      s' = (getSource sources s d).set name (.waits d todo)) ∨
    (∃ name d todo, s name = some (.waits d todo) ∧ s' = s.set name (.runs todo)) ∨
    ∃ name t frame, s name = some t ∧ (∀ b, t ≠ .ended b) ∧ s' = s.set name (.ended frame) := by
  cases op with
  | asks name =>
    obtain ⟨⟨hr, hn⟩, hs⟩ := Option.ite_none_right_eq_some.mp h
    exact .inl ⟨name, hr, hn, (Option.some.inj hs).symm⟩
  | reads name =>
    simp only [step] at h
    split at h
    · rename_i d todo ht
      split at h
      · rename_i hr
        exact .inr (.inr (.inr ⟨name, _, false, ht, nofun, (Option.some.inj h).symm⟩))
      · rename_i hr
        exact .inr (.inl ⟨name, d, todo, ht, by simpa using hr, (Option.some.inj h).symm⟩)
    · cases h
  | resumes name =>
    simp only [step] at h
    split at h
    · rename_i d todo ht
      split at h
      · exact .inr (.inr (.inl ⟨name, d, todo, ht, (Option.some.inj h).symm⟩))
      · exact .inr (.inr (.inr ⟨name, _, false, ht, nofun, (Option.some.inj h).symm⟩))
      · cases h
    · cases h
  | returns name =>
    simp only [step] at h
    split at h
    · rename_i todo ht
      obtain ⟨-, hs⟩ := Option.ite_none_right_eq_some.mp h
      exact .inr (.inr (.inr ⟨name, _, true, ht, nofun, (Option.some.inj hs).symm⟩))
    · cases h
  | raises name =>
    simp only [step] at h
    split at h
    · rename_i todo ht
      exact .inr (.inr (.inr ⟨name, _, false, ht, nofun, (Option.some.inj h).symm⟩))
    · cases h

/-! ## 3. The waits form no cycle -/

/-- What holds in every state. -/
structure Inv (sources : List SourceSpec) (s : State) : Prop where
  /-- a source that is refused has no task -/
  allowed : ∀ name t, s name = some t → refused sources name = false
  runs : ∀ name todo, s name = some (.runs todo) → ∀ d ∈ todo, d ∈ references sources name
  waits : ∀ name d todo, s name = some (.waits d todo) →
    (d ∈ references sources name ∧ refused sources d = false ∧ (s d).isSome) ∧
      ∀ e ∈ todo, e ∈ references sources name

theorem inv_start : Inv sources start := ⟨nofun, nofun, nofun⟩

theorem refused_eq_false_iff {name : String} : refused sources name = false ↔
    known sources name ∧ name ∉ findCycleMembers sources := by
  simp [refused]

/-- Starting a task. -/
theorem Inv.getSource {s : State} (h : Inv sources s) {name : String}
    (hr : refused sources name = false) : Inv sources (getSource sources s name) where
  allowed n t ht := by
    rcases getSource_cases sources s name n with hs | ⟨rfl, -, -⟩
    · exact h.allowed n t (hs ▸ ht)
    · exact hr
  runs n todo ht := by
    rcases getSource_cases sources s name n with hs | ⟨rfl, -, hs⟩
    · exact h.runs n todo (hs ▸ ht)
    · rw [hs] at ht
      cases ht
      exact fun _ hd => hd
  waits n d todo ht := by
    rcases getSource_cases sources s name n with hs | ⟨rfl, -, hs⟩
    · obtain ⟨⟨hd, hrd, hsome⟩, htodo⟩ := h.waits n d todo (hs ▸ ht)
      refine ⟨⟨hd, hrd, ?_⟩, htodo⟩
      rcases getSource_cases sources s name d with hs' | ⟨rfl, -, hs'⟩
      · rw [hs']
        exact hsome
      · rw [hs']
        rfl
    · rw [hs] at ht
      cases ht

/-- A task that is there goes on. -/
theorem Inv.set {s : State} (h : Inv sources s) {name : String} {t t' : Task}
    (ht : s name = some t)
    (hruns : ∀ todo, t' = .runs todo → ∀ d ∈ todo, d ∈ references sources name)
    (hwaits : ∀ d todo, t' = .waits d todo →
      (d ∈ references sources name ∧ refused sources d = false ∧ (s d).isSome) ∧
        ∀ e ∈ todo, e ∈ references sources name) : Inv sources (s.set name t') where
  allowed n u hu := by
    by_cases hn : n = name
    · exact hn ▸ h.allowed name t ht
    · exact h.allowed n u (set_ne s t' hn ▸ hu)
  runs n todo hu := by
    by_cases hn : n = name
    · subst hn
      exact hruns todo (Option.some.inj ((set_self s n t').symm.trans hu))
    · exact h.runs n todo (set_ne s t' hn ▸ hu)
  waits n d todo hu := by
    have hkeep : (s d).isSome → (s.set name t' d).isSome := by
      by_cases hd : d = name
      · subst hd
        exact fun _ => by rw [set_self]; rfl
      · rw [set_ne s t' hd]
        exact id
    by_cases hn : n = name
    · subst hn
      obtain ⟨⟨hd, hr, hsome⟩, htodo⟩ :=
        hwaits d todo (Option.some.inj ((set_self s n t').symm.trans hu))
      exact ⟨⟨hd, hr, hkeep hsome⟩, htodo⟩
    · obtain ⟨⟨hd, hr, hsome⟩, htodo⟩ := h.waits n d todo (set_ne s t' hn ▸ hu)
      exact ⟨⟨hd, hr, hkeep hsome⟩, htodo⟩

/-- The invariant is kept. -/
theorem Inv.step {s s' : State} {op : Op} (h : Inv sources s)
    (hs : Materialize.step sources s op = some s') : Inv sources s' := by
  rcases step_cases hs with ⟨name, hr, -, rfl⟩ | ⟨name, d, todo, ht, hr, rfl⟩ |
    ⟨name, d, todo, ht, rfl⟩ | ⟨name, t, frame, ht, -, rfl⟩
  · exact h.getSource hr
  · have htodo := h.runs name _ ht
    have ht' : Materialize.getSource sources s d name = some (.runs (d :: todo)) := by
      rcases getSource_cases sources s d name with hs | ⟨rfl, hn, -⟩
      · rw [hs, ht]
      · rw [hn] at ht
        cases ht
    refine (h.getSource hr).set ht' nofun fun e todo' he => ?_
    cases he
    refine ⟨⟨htodo d List.mem_cons_self, hr, getSource_isSome s d⟩, fun e he => ?_⟩
    exact htodo e (List.mem_cons_of_mem d he)
  · refine h.set ht (fun todo' he => ?_) nofun
    cases he
    exact (h.waits name d todo ht).2
  · exact h.set ht nofun nofun

theorem inv_of_reached {s : State} (h : Reached sources s) : Inv sources s :=
  h.invariant inv_start fun _ _ _ hi _ hs => hi.step hs

/-- A task waits for one that was finished before it in the search for cycles. -/
theorem Inv.wait_lt {s : State} (h : Inv sources s) {a b : String} (hw : Waits s a b) :
    rank (searched sources).done b < rank (searched sources).done a := by
  obtain ⟨todo, hw⟩ := hw
  obtain ⟨⟨hd, hr, -⟩, -⟩ := h.waits a b todo hw
  obtain ⟨-, ha⟩ := refused_eq_false_iff.mp (h.allowed a _ hw)
  obtain ⟨hb, -⟩ := refused_eq_false_iff.mp hr
  rw [references] at hd
  cases hs : byName sources a with
  | none => simp [hs] at hd
  | some spec =>
    rw [hs] at hd
    exact rank_lt ⟨spec, hs, hd, hb⟩ ha

/-- **The waits form no cycle.** -/
theorem waits_acyclic {s : State} (h : Reached sources s) (name : String) :
    ¬ TransGen (Waits s) name name := by
  have hlt : ∀ a b, TransGen (Waits s) a b →
      rank (searched sources).done b < rank (searched sources).done a := by
    intro a b hab
    induction hab with
    | single hw => exact (inv_of_reached h).wait_lt hw
    | tail _ hw ih => exact ((inv_of_reached h).wait_lt hw).trans ih
  exact fun hc => lt_irrefl _ (hlt name name hc)

/-! ## 4. Every source ends -/

/-- Nothing can happen any more, unless a task raises. -/
def Stuck (sources : List SourceSpec) (s : State) : Prop :=
  ∀ op, (∀ name, op ≠ .raises name) → step sources s op = none

/-- **Where nothing can happen, every source has ended.** -/
theorem ended_of_stuck {s : State} (h : Reached sources s) (hstuck : Stuck sources s)
    {name : String} (hr : refused sources name = false) : ∃ frame, s name = some (.ended frame) := by
  -- by induction on the place of the source in the order of the search
  induction hk : rank (searched sources).done name using Nat.strong_induction_on generalizing name
  next k ih =>
  cases ht : s name with
  | none =>
    have hno := hstuck (.asks name) nofun
    simp [step, hr, ht] at hno
  | some t =>
    cases t with
    | ended frame => exact ⟨frame, rfl⟩
    | runs todo =>
      cases todo with
      | nil =>
        have hno := hstuck (.returns name) nofun
        simp [step, ht] at hno
      | cons d todo =>
        have hno := hstuck (.reads name) nofun
        cases hrd : refused sources d <;> simp [step, ht, hrd] at hno
    | waits d todo =>
      obtain ⟨⟨-, hrd, -⟩, -⟩ := (inv_of_reached h).waits name d todo ht
      have hlt := (inv_of_reached h).wait_lt ⟨todo, ht⟩
      obtain ⟨frame, hd⟩ := ih _ (hk ▸ hlt) hrd rfl
      have hno := hstuck (.resumes name) nofun
      cases frame <;> simp [step, ht, hd] at hno

/-- What a task has left to do at most. -/
def weight (sources : List SourceSpec) (name : String) : Option Task → Nat
  | none => 2 * (references sources name).length + 3
  | some (.runs todo) => 2 * todo.length + 2
  | some (.waits _ todo) => 2 * todo.length + 3
  | some (.ended _) => 0

/-- What all tasks have left to do at most. -/
def work (sources : List SourceSpec) (s : State) : Nat :=
  ∑ name ∈ (sources.map (·.name)).toFinset, weight sources name (s name)

/-- Less work where one task has less, and none more. -/
theorem work_lt {s s' : State} {name : String} (hk : known sources name)
    (hle : ∀ n, weight sources n (s' n) ≤ weight sources n (s n))
    (hlt : weight sources name (s' name) < weight sources name (s name)) :
    work sources s' < work sources s := by
  have hmem : name ∈ (sources.map (·.name)).toFinset := List.mem_toFinset.mpr (mem_names hk)
  exact Finset.sum_lt_sum (fun n _ => hle n) ⟨name, hmem, hlt⟩

theorem weight_getSource_le (s : State) (name n : String) :
    weight sources n (getSource sources s name n) ≤ weight sources n (s n) := by
  rcases getSource_cases sources s name n with hs | ⟨rfl, hn, hs⟩
  · rw [hs]
  · rw [hs, hn]
    simp [weight]

/-- One task goes on. -/
theorem work_set_lt {s s' : State} {name : String} {t : Task} (hk : known sources name)
    (hle : ∀ n, weight sources n (s' n) ≤ weight sources n (s n))
    (hlt : weight sources name (some t) < weight sources name (s name)) :
    work sources (s'.set name t) < work sources s := by
  refine work_lt hk (fun n => ?_) (set_self s' name t ▸ hlt)
  by_cases hn : n = name
  · subst hn
    rw [set_self]
    exact hlt.le
  · rw [set_ne s' t hn]
    exact hle n

/-- Every step leaves less to do. -/
theorem work_step_lt {s s' : State} {op : Op} (h : Inv sources s)
    (hs : step sources s op = some s') : work sources s' < work sources s := by
  rcases step_cases hs with ⟨name, hr, hn, rfl⟩ | ⟨name, d, todo, ht, -, rfl⟩ |
    ⟨name, d, todo, ht, rfl⟩ | ⟨name, t, frame, ht, hne, rfl⟩
  · obtain ⟨hk, -⟩ := refused_eq_false_iff.mp hr
    refine work_lt hk (weight_getSource_le s name) ?_
    rw [getSource, if_pos hn, set_self, hn]
    simp [weight]
  · obtain ⟨hk, -⟩ := refused_eq_false_iff.mp (h.allowed name _ ht)
    refine work_set_lt hk (weight_getSource_le s d) ?_
    rw [ht]
    simp only [weight, List.length_cons]
    omega
  · obtain ⟨hk, -⟩ := refused_eq_false_iff.mp (h.allowed name _ ht)
    refine work_set_lt hk (fun _ => le_rfl) ?_
    rw [ht]
    simp [weight]
  · obtain ⟨hk, -⟩ := refused_eq_false_iff.mp (h.allowed name _ ht)
    refine work_set_lt hk (fun _ => le_rfl) ?_
    rw [ht]
    cases t with
    | ended b => exact absurd rfl (hne b)
    | runs todo => simp [weight]
    | waits d todo => simp [weight]

/-- **No run goes on for ever.** -/
theorem acc_of_inv {s : State} (h : Inv sources s) :
    Acc (fun s₂ s₁ => ∃ op, step sources s₁ op = some s₂) s := by
  induction hn : work sources s using Nat.strong_induction_on generalizing s
  next n ih =>
  refine ⟨s, fun s' hs' => ?_⟩
  obtain ⟨op, hs⟩ := hs'
  exact ih _ (hn ▸ work_step_lt h hs) (h.step hs) rfl

/-! ## 5. Signatures -/

section Signatures

variable {S : Type} (view : S → SourceSpec) (digest : S → List String → String)

/-- `by_name[name]`: of two definitions with one name, the later. -/
def specOf (defs : List S) (name : String) : Option S :=
  defs.reverse.find? fun d => (view d).name = name

/-- `source_signature`; none where the name is not there, or the recursion does not end. -/
def signatureFrom (defs : List S) : Nat → String → List String → Option String
  | 0, _, _ => none
  | fuel + 1, name, seen =>
    (specOf view defs name).bind fun spec =>
      ((sourceDependencies (view spec)).mapM fun d =>
        if (specOf view defs d).isSome ∧ d ∉ seen then signatureFrom defs fuel d (name :: seen)
        else some d).map (digest spec)

/-- The signature of a source.  On the way down the names seen grow, but for a source that reads
from itself. -/
def sourceSignature (defs : List S) (name : String) : Option String :=
  signatureFrom view digest defs (2 * defs.length + 2) name []

/-- The key of a cached frame. -/
structure CacheKey where
  owner : String
  dashboard : String
  signature : Option String
  lang : Option String
deriving DecidableEq

def cacheKey (lower : String → String) (owner dashboard : String) (lang : Option String)
    (defs : List S) (name : String) : CacheKey :=
  ⟨lower owner, dashboard, sourceSignature view digest defs name, lang⟩

/-- A source reads from another, or from a name that is not there. -/
def Refers (defs : List S) (a b : String) : Prop :=
  ∃ spec, specOf view defs a = some spec ∧ b ∈ sourceDependencies (view spec)

/-- Two states of a dashboard say the same of the names of a set, and refer from them to no others
but those seen above. -/
def Covers (defs defs' : List S) (seen : List String) (names : Set String) : Prop :=
  ∀ a ∈ names, specOf view defs a = specOf view defs' a ∧
    ∀ b, Refers view defs a b → b ∈ names ∨ b ∈ seen ∨
      specOf view defs b = none ∧ specOf view defs' b = none

variable {view digest}

/-- A pass that found every answer. -/
theorem map_of_mapM {α β : Type} {f : α → Option β} : ∀ {as : List α} {bs : List β},
    as.mapM f = some bs → as.map f = bs.map some
  | [], _, h => by
    cases h
    rfl
  | a :: as, bs, h => by
    rw [List.mapM_cons] at h
    obtain ⟨b, hb, h⟩ := Option.bind_eq_some_iff.mp h
    obtain ⟨rest, hrest, h⟩ := Option.bind_eq_some_iff.mp h
    cases h
    rw [List.map_cons, hb, map_of_mapM hrest, List.map_cons]

theorem exists_of_map_eq {α β : Type} {f : α → Option β} {as : List α} {bs : List β}
    (h : as.map f = bs.map some) : ∀ a ∈ as, ∃ b, f a = some b := by
  intro a ha
  have hmem : f a ∈ bs.map some := h ▸ List.mem_map_of_mem ha
  obtain ⟨b, -, hb⟩ := List.mem_map.mp hmem
  exact ⟨b, hb.symm⟩

theorem isSome_mapM {α β : Type} {f : α → Option β} : ∀ {as : List α},
    (∀ a ∈ as, (f a).isSome) → (as.mapM f).isSome
  | [], _ => rfl
  | a :: as, h => by
    obtain ⟨b, hb⟩ := Option.isSome_iff_exists.mp (h a List.mem_cons_self)
    obtain ⟨bs, hbs⟩ := Option.isSome_iff_exists.mp
      (isSome_mapM fun a' ha' => h a' (List.mem_cons_of_mem a ha'))
    rw [List.mapM_cons, hb, hbs]
    rfl

/-- A signature is the hash of a definition. -/
theorem signatureFrom_cases {defs : List S} {fuel : Nat} {name h : String} {seen : List String}
    (hs : signatureFrom view digest defs (fuel + 1) name seen = some h) :
    ∃ spec texts, specOf view defs name = some spec ∧ digest spec texts = h ∧
      (sourceDependencies (view spec)).map (fun d =>
        if (specOf view defs d).isSome ∧ d ∉ seen then
          signatureFrom view digest defs fuel d (name :: seen)
        else some d) = texts.map some := by
  obtain ⟨spec, hspec, hs⟩ := Option.bind_eq_some_iff.mp hs
  obtain ⟨texts, htexts, rfl⟩ := Option.map_eq_some_iff.mp hs
  exact ⟨spec, texts, hspec, rfl, map_of_mapM htexts⟩

theorem signatureFrom_eq_digest {defs : List S} {fuel : Nat} {name h : String} {seen : List String}
    (hs : signatureFrom view digest defs fuel name seen = some h) :
    ∃ spec texts, digest spec texts = h := by
  cases fuel with
  | zero => cases hs
  | succ fuel =>
    obtain ⟨spec, texts, -, h, -⟩ := signatureFrom_cases hs
    exact ⟨spec, texts, h⟩

/-- **What two equal signatures cover.** -/
theorem covers_of_signature {defs defs' : List S} (hinj : Function.Injective2 digest)
    (hlong : ∀ spec texts, 63 < (digest spec texts).length)
    (hident : ∀ spec, ∀ d ∈ sourceDependencies (view spec), d.length ≤ 63) :
    ∀ (fuel fuel' : Nat) {name h : String} {seen : List String},
      signatureFrom view digest defs fuel name seen = some h →
      signatureFrom view digest defs' fuel' name seen = some h →
        ∃ names : Set String, name ∈ names ∧ Covers view defs defs' seen names
  | 0, _, _, _, _, hs, _ => nomatch hs
  | _ + 1, 0, _, _, _, _, hs' => nomatch hs'
  | fuel + 1, fuel' + 1, name, h, seen, hs, hs' => by
    obtain ⟨spec, texts, hspec, rfl, htexts⟩ := signatureFrom_cases hs
    obtain ⟨spec', texts', hspec', hdigest, htexts'⟩ := signatureFrom_cases hs'
    obtain ⟨rfl, rfl⟩ := hinj hdigest
    rw [← htexts'] at htexts
    -- all that is covered below, where `name` has been seen too
    refine ⟨{a | a = name ∨ ∃ names, Covers view defs defs' (name :: seen) names ∧ a ∈ names},
      .inl rfl, ?_⟩
    rintro a (rfl | ⟨names, hcov, ha⟩)
    · refine ⟨hspec.trans hspec'.symm, ?_⟩
      rintro b ⟨spec, hspec₁, hb⟩
      obtain rfl := Option.some.inj (hspec.symm.trans hspec₁)
      by_cases hseen : b ∈ seen
      · exact .inr (.inl hseen)
      have heq := List.map_inj_left.mp htexts b hb
      have hne : ∀ {fuel : Nat} {defs : List S},
          signatureFrom view digest defs fuel b (a :: seen) ≠ some b := by
        intro fuel defs hsig
        obtain ⟨spec, texts, hd⟩ := signatureFrom_eq_digest hsig
        have hlt := hlong spec texts
        have hle := hident _ b hb
        rw [hd] at hlt
        omega
      by_cases hk : (specOf view defs b).isSome <;> by_cases hk' : (specOf view defs' b).isSome
      · rw [if_pos ⟨hk, hseen⟩, if_pos ⟨hk', hseen⟩] at heq
        obtain ⟨h, hh⟩ := exists_of_map_eq htexts' b hb
        rw [if_pos ⟨hk', hseen⟩] at hh
        obtain ⟨names, hbn, hcov⟩ :=
          covers_of_signature hinj hlong hident fuel fuel' (heq.trans hh) hh
        exact .inl (.inr ⟨names, hcov, hbn⟩)
      · rw [if_pos ⟨hk, hseen⟩, if_neg fun h => hk' h.1] at heq
        exact absurd heq hne
      · rw [if_neg fun h => hk h.1, if_pos ⟨hk', hseen⟩] at heq
        exact absurd heq.symm hne
      · rw [Option.not_isSome_iff_eq_none] at hk hk'
        exact .inr (.inr ⟨hk, hk'⟩)
    · obtain ⟨heq, hrefs⟩ := hcov a ha
      refine ⟨heq, fun b hb => ?_⟩
      rcases hrefs b hb with hb | hb | hb
      · exact .inl (.inr ⟨names, hcov, hb⟩)
      · rcases List.mem_cons.mp hb with rfl | hb
        · exact .inl (.inl rfl)
        · exact .inr (.inl hb)
      · exact .inr (.inr hb)

/-- **One signature, one definition of all that is read.** -/
theorem same_definitions {defs defs' : List S} (hinj : Function.Injective2 digest)
    (hlong : ∀ spec texts, 63 < (digest spec texts).length)
    (hident : ∀ spec, ∀ d ∈ sourceDependencies (view spec), d.length ≤ 63) {name h : String}
    (hs : sourceSignature view digest defs name = some h)
    (hs' : sourceSignature view digest defs' name = some h) {d : String}
    (hd : ReflTransGen (Refers view defs) name d) : specOf view defs d = specOf view defs' d := by
  obtain ⟨names, hname, hcov⟩ := covers_of_signature hinj hlong hident _ _ hs hs'
  have hclosed : d ∈ names ∨ specOf view defs d = none ∧ specOf view defs' d = none := by
    induction hd with
    | refl => exact .inl hname
    | @tail b c _ hbc ih =>
      rcases ih with hb | ⟨hb, -⟩
      · rcases (hcov b hb).2 c hbc with hc | hc | hc
        · exact .inl hc
        · exact absurd hc List.not_mem_nil
        · exact .inr hc
      · obtain ⟨spec, hspec, -⟩ := hbc
        rw [hb] at hspec
        cases hspec
  rcases hclosed with hd | ⟨hn, hn'⟩
  · exact (hcov d hd).1
  · rw [hn, hn']

/-- The names of the definitions that have not been seen. -/
def unseen (view : S → SourceSpec) (defs : List S) (seen : List String) : Finset String :=
  (defs.map fun d => (view d).name).toFinset \ seen.toFinset

theorem mem_unseen {defs : List S} {name : String} {seen : List String}
    (h : (specOf view defs name).isSome) (hn : name ∉ seen) : name ∈ unseen view defs seen := by
  obtain ⟨spec, hspec⟩ := Option.isSome_iff_exists.mp h
  have hmem := List.mem_reverse.mp (List.mem_of_find?_eq_some hspec)
  have hname := List.find?_some hspec
  refine Finset.mem_sdiff.mpr ⟨?_, fun hs => hn (List.mem_toFinset.mp hs)⟩
  exact List.mem_toFinset.mpr (List.mem_map.mpr ⟨spec, hmem, by simpa using hname⟩)

theorem unseen_cons (defs : List S) (name : String) (seen : List String) :
    unseen view defs (name :: seen) = (unseen view defs seen).erase name := by
  rw [unseen, List.toFinset_cons, Finset.sdiff_insert]
  rfl

/-- How far down the recursion goes at most. -/
def depth (view : S → SourceSpec) (defs : List S) (name : String) (seen : List String) : Nat :=
  2 * (unseen view defs seen).card + if name ∈ seen then 1 else 0

/-- The recursion ends. -/
theorem signatureFrom_isSome {defs : List S} : ∀ (fuel : Nat) {name : String} {seen : List String},
    depth view defs name seen ≤ fuel → (name ∉ seen → 0 < fuel) →
      (specOf view defs name).isSome → (signatureFrom view digest defs fuel name seen).isSome
  | 0, name, seen, hle, hpos, _ => by
    by_cases hn : name ∈ seen
    · rw [depth, if_pos hn] at hle
      omega
    · exact absurd (hpos hn) (Nat.lt_irrefl 0)
  | fuel + 1, name, seen, hle, _, hk => by
    obtain ⟨spec, hspec⟩ := Option.isSome_iff_exists.mp hk
    rw [signatureFrom, hspec, Option.bind_some, Option.isSome_map]
    refine isSome_mapM fun d _ => ?_
    by_cases hd : (specOf view defs d).isSome ∧ d ∉ seen
    · rw [if_pos hd]
      -- there is one name less to see, or `name` was seen and `d` is another
      have hdu := mem_unseen hd.1 hd.2
      have hdpos := Finset.card_pos.mpr ⟨d, hdu⟩
      have hstep : depth view defs d (name :: seen) ≤ fuel ∧ 0 < fuel := by
        rw [depth] at hle ⊢
        rw [unseen_cons]
        by_cases hn : name ∈ seen
        · have hne : d ≠ name := fun h => hd.2 (h ▸ hn)
          have hnot : name ∉ unseen view defs seen := fun h =>
            (Finset.mem_sdiff.mp h).2 (List.mem_toFinset.mpr hn)
          rw [if_pos hn] at hle
          rw [Finset.erase_eq_of_notMem hnot, if_neg (by simp [hne, hd.2])]
          omega
        · have hcard := Finset.card_erase_of_mem (mem_unseen hk hn)
          rw [if_neg hn] at hle
          rw [hcard]
          by_cases hdn : d = name
          · rw [if_pos (by simp [hdn])]
            omega
          · rw [if_neg (by simp [hdn, hd.2])]
            have hpair := Finset.card_pos.mpr
              ⟨d, Finset.mem_erase.mpr ⟨hdn, hdu⟩⟩
            omega
      exact signatureFrom_isSome fuel hstep.1 (fun _ => hstep.2) hd.1
    · rw [if_neg hd]
      rfl

/-- **Every source has a signature.** -/
theorem sourceSignature_isSome {defs : List S} {name : String}
    (hk : (specOf view defs name).isSome) :
    (sourceSignature view digest defs name).isSome := by
  refine signatureFrom_isSome _ ?_ (fun _ => by omega) hk
  have hle : (unseen view defs []).card ≤ defs.length := by
    refine (Finset.card_le_card Finset.sdiff_subset).trans ?_
    exact (List.toFinset_card_le _).trans (List.length_map ..).le
  rw [depth, if_neg List.not_mem_nil]
  omega

end Signatures

/-! ## 6. The whole -/

/-- Of the tasks, in any order: the waits form no cycle, where nothing can happen every source has
ended or is refused as one of a cycle, and no run goes on for ever. -/
def EverySourceEnds (sources : List SourceSpec) : Prop :=
  (∀ s, Reached sources s → ∀ name, ¬ TransGen (Waits s) name name) ∧
  (∀ s, Reached sources s → Stuck sources s → ∀ name, known sources name →
    name ∈ findCycleMembers sources ∨ ∃ frame, s name = some (.ended frame)) ∧
  Acc (fun s₂ s₁ => ∃ op, step sources s₁ op = some s₂) start

theorem everySourceEnds (sources : List SourceSpec) : EverySourceEnds sources := by
  refine ⟨fun _ h => waits_acyclic h, fun s h hstuck name hk => ?_, acc_of_inv inv_start⟩
  by_cases hm : name ∈ findCycleMembers sources
  · exact .inl hm
  · exact .inr (ended_of_stuck h hstuck (refused_eq_false_iff.mpr ⟨hk, hm⟩))

/-- **Materialisation never deadlocks, and caching is sound.** -/
theorem materialisation_safe {S : Type} (view : S → SourceSpec)
    (digest : S → List String → String) (hinj : Function.Injective2 digest)
    (hlong : ∀ spec texts, 63 < (digest spec texts).length)
    (hident : ∀ spec, ∀ d ∈ sourceDependencies (view spec), d.length ≤ 63) :
    (∀ defs : List S, EverySourceEnds (defs.map view)) ∧
    (∀ (defs : List S) name, (specOf view defs name).isSome →
      (sourceSignature view digest defs name).isSome) ∧
    ∀ (lower : String → String) (owner owner' dashboard dashboard' : String)
      (lang lang' : Option String) (defs defs' : List S) (name : String),
      (specOf view defs name).isSome →
      cacheKey view digest lower owner dashboard lang defs name =
        cacheKey view digest lower owner' dashboard' lang' defs' name →
      ∀ d, ReflTransGen (Refers view defs) name d → specOf view defs d = specOf view defs' d := by
  refine ⟨fun defs => everySourceEnds _, fun defs name => sourceSignature_isSome, ?_⟩
  intro lower owner owner' dashboard dashboard' lang lang' defs defs' name hk hkey d hd
  have hsome : (sourceSignature view digest defs name).isSome := sourceSignature_isSome hk
  obtain ⟨h, hs⟩ := Option.isSome_iff_exists.mp hsome
  have hsig := congrArg CacheKey.signature hkey
  exact same_definitions hinj hlong hident hs (hsig.symm.trans hs) hd

/-- A file of sales and a stock that joins it. -/
def twoViews : Fin 2 → SourceSpec
  | 0 => joining "ventes" []
  | 1 => joining "stock" ["ventes"]

/-- A hash that counts. -/
def countingDigest (spec : Fin 2) (texts : List String) : String :=
  String.ofList (List.replicate
    (64 + Encodable.encode (spec, texts.map fun t => t.toList.map Char.toNat)) 'f')

theorem countingDigest_injective : Function.Injective2 countingDigest := by
  intro spec spec' texts texts' h
  have hlen := congrArg String.length h
  rw [countingDigest, countingDigest, String.length_ofList, String.length_ofList,
    List.length_replicate, List.length_replicate] at hlen
  have henc := Encodable.encode_injective (Nat.add_left_cancel hlen)
  obtain ⟨hspec, htexts⟩ := Prod.mk.inj henc
  refine ⟨hspec, ?_⟩
  refine List.map_injective_iff.mpr (fun t t' ht => ?_) htexts
  exact String.toList_injective (List.map_injective_iff.mpr (fun _ _ => Char.toNat_inj.mp) ht)

theorem sourceSignature_two {defs : List (Fin 2)} (digest : Fin 2 → List String → String)
    (hstock : specOf twoViews defs "stock" = some 1)
    (hventes : specOf twoViews defs "ventes" = some 0)
    (hlen : defs.length = 2) :
    sourceSignature twoViews digest defs "stock" = some (digest 1 [digest 0 []]) := by
  have hdeps : sourceDependencies (twoViews 1) = ["ventes"] := by decide
  have hnone : sourceDependencies (twoViews 0) = [] := by decide
  simp [sourceSignature, hlen, signatureFrom, hstock, hventes, hdeps, hnone]

theorem twoKeys (digest : Fin 2 → List String → String) :
    cacheKey twoViews digest id "a" "d" none [0, 1] "stock" =
      cacheKey twoViews digest id "a" "d" none [1, 0] "stock" := by
  rw [cacheKey, cacheKey, sourceSignature_two digest (by decide) (by decide) rfl,
    sourceSignature_two digest (by decide) (by decide) rfl]

theorem long_countingDigest (spec : Fin 2) (texts : List String) :
    63 < (countingDigest spec texts).length := by
  rw [countingDigest, String.length_ofList, List.length_replicate]
  omega

theorem short_twoViews : ∀ spec, ∀ d ∈ sourceDependencies (twoViews spec), d.length ≤ 63 := by
  decide

theorem refers_two : ReflTransGen (Refers twoViews [0, 1]) "stock" "ventes" :=
  .single ⟨1, rfl, by decide⟩

/-- With the same key the stock reads the same sales, in whatever order the sources come. -/
theorem materialisation_safe_two :
    specOf twoViews [0, 1] "ventes" = specOf twoViews [1, 0] "ventes" :=
  (materialisation_safe twoViews countingDigest countingDigest_injective long_countingDigest
    short_twoViews).2.2 id "a" "a" "d" "d" none none [0, 1] [1, 0] "stock" rfl
    (twoKeys countingDigest) "ventes" refers_two

end Apowerb.Bi.Materialize
