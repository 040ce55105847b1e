/-
# Keeping the cached runner of an agent fresh

`core/agent_runtime_sync.py`: before a process hands out the runner of an agent, it reads the
fingerprint of the agent and of its sub-agents, level by level, and rebuilds the runner when the
fingerprint is not the one recorded for the cached one.

The fingerprint is read in a thread, in two statements for each level, while other processes commit
edits; what follows the read runs without a pause, up to the runner that is handed out.  A request
whose read fails gets the cached runner, or builds one, and records nothing.

* `no_stale_runner`: as long as the revision ids of an agent grow with its edits, and nothing is edited
  while a runner without a recorded fingerprint is cached, every runner handed out after a read was
  built from definitions at least as recent as those read.

The agent server is a parameter through what is assumed of it: `get_runner_async` returns the cached
runner if there is one, else builds it from the database and caches it, without a pause; a build may
raise, and does for an agent that is gone.  The agents are those that the agent may have below it.

GHOST STATE: the number of edits of each agent, at which a row was read, a revision was read, and a
runner was built; and the runners handed out after a read.
-/
import Apowerb.Lib.Runs
import Apowerb.Text

namespace Apowerb.Agent.Fresh

open Runs

/-! ## 1. The fingerprint -/

/-- The columns of an agent that the fingerprint reads. -/
structure Row where
  updatedAt : Int
  /-- `_parse_string_list(row.sub_agents)`. -/
  subAgents : List String
deriving DecidableEq, Repr

/-- `(?:agent)?(\d+)`, the whole name. -/
def subAgentId (name : String) : Option Nat :=
  Text.digits? ((Text.afterWord "agent" name.toList).getD name.toList)

/-- An entry of a fingerprint: `(agent_id, updated_at, revision_id)`. -/
structure Entry where
  agentId : Nat
  updatedAt : Int
  revision : Option Nat
  /-- GHOST: the edits of the agent, when its row and when its revision was read. -/
  version : Nat
  upTo : Nat
deriving DecidableEq, Repr

/-- What is compared. -/
def Entry.stamp (e : Entry) : Nat × Int × Option Nat := (e.agentId, e.updatedAt, e.revision)

/-- A row that was read, before its revision. -/
structure Pending where
  agentId : Nat
  row : Row
  version : Nat
deriving DecidableEq, Repr

/-- A read of the fingerprint, between two statements. -/
structure Read where
  level : List Nat
  seen : List Nat
  fingerprint : List Entry
  rows : Option (List Pending)
deriving DecidableEq, Repr

/-- The beginning of `agent_fingerprint`. -/
def Read.start (agent : Nat) : Read := ⟨[agent], [], [], none⟩

/-- A request for the runner. -/
inductive Request
  | reading (r : Read)
  /-- The read has ended; `none` where the agent is gone. -/
  | ready (current : Option (List Entry))
  /-- The read raised. -/
  | unreadable
  | answered
deriving DecidableEq, Repr

/-! ## 2. The machine -/

/-- A runner.  GHOST: the edits of each agent, when it was built. -/
structure Runner where
  built : Nat → Nat

/-- A runner handed out after a read, and what was read. -/
structure Served where
  current : Option (List Entry)
  runner : Runner

structure State where
  rows : Nat → Option Row
  /-- The last revision archived for each agent. -/
  revisions : Nat → Option Nat
  version : Nat → Nat
  /-- `runner_dict[app_name]`. -/
  cached : Option Runner
  /-- `built_from[app_name]`. -/
  builtFrom : Option (List Entry)
  requests : List Request
  served : List Served

inductive Op
  | ask
  /-- The two statements of a level. -/
  | readRows (i : Nat)
  | readRevisions (i : Nat)
  /-- The read raises. -/
  | fail (i : Nat)
  /-- What follows a read; a build may raise. -/
  | proceed (i : Nat) (builds : Bool)
  /-- What follows a read that raised. -/
  | fallback (i : Nat) (builds : Bool)
  /-- An edit is committed: the row, and the revision archived with it. -/
  | edit (agent : Nat) (row : Row) (revision : Nat)
  | delete (agent : Nat)
  /-- `drop_cached_agent`, for a local invalidation. -/
  | drop
deriving DecidableEq, Repr

def State.setRequest (s : State) (i : Nat) (q : Request) : State :=
  { s with requests := s.requests.set i q }

/-- The rows of a level. -/
def stepReadRows (agent : Nat) (s : State) (i : Nat) : Request → Option State
  | .reading ⟨level, seen, fingerprint, none⟩ =>
    let rows : List Pending :=
      level.filterMap fun a => (s.rows a).map fun row => ⟨a, row, s.version a⟩
    if agent ∈ level ∧ rows.all (·.agentId ≠ agent) then some (s.setRequest i (.ready none))
    else some (s.setRequest i (.reading ⟨level, seen ++ level, fingerprint, some rows⟩))
  | _ => none

/-- The revisions of a level, and the next level. -/
def stepReadRevisions (s : State) (i : Nat) : Request → Option State
  | .reading ⟨_, seen, fingerprint, some rows⟩ =>
    let entries : List Entry := rows.map fun p =>
      ⟨p.agentId, p.row.updatedAt, s.revisions p.agentId, p.version, s.version p.agentId⟩
    let fingerprint := fingerprint ++ entries
    let level := ((rows.flatMap fun p => p.row.subAgents.filterMap subAgentId).filter
      (· ∉ seen)).dedup
    if level = [] then
      some (s.setRequest i (.ready (some (fingerprint.insertionSort (·.agentId ≤ ·.agentId)))))
    else some (s.setRequest i (.reading ⟨level, seen, fingerprint, none⟩))
  | _ => none

/-- `get_runner_async`: the state, with the runner in the cache where there is one. -/
def State.getRunner (agent : Nat) (builds : Bool) (s : State) : State :=
  if s.cached.isNone ∧ builds ∧ (s.rows agent).isSome then { s with cached := some ⟨s.version⟩ }
  else s

/-- What follows a read. -/
def stepProceed (agent : Nat) (s : State) (i : Nat) (builds : Bool) : Request → Option State
  | .ready none =>
    let gone : State := { s with cached := none, builtFrom := none }
    some (gone.setRequest i .answered)
  | .ready (some current) =>
    let changed := s.builtFrom.any fun before => before.map Entry.stamp ≠ current.map Entry.stamp
    let kept : State := if changed then { s with cached := none } else s
    let fetched := kept.getRunner agent builds
    match fetched.cached with
    | none => some (fetched.setRequest i .answered)
    | some runner =>
      let handed : State := { fetched with
        builtFrom := some current, served := fetched.served ++ [⟨some current, runner⟩] }
      some (handed.setRequest i .answered)
  | _ => none

/-- What follows a read that raised. -/
def stepFallback (agent : Nat) (s : State) (i : Nat) (builds : Bool) : Request → Option State
  | .unreadable => some ((s.getRunner agent builds).setRequest i .answered)
  | _ => none

/-- The greatest revision. -/
def latest (before : Option Nat) (revision : Nat) : Nat := max (before.getD revision) revision

/-- An edit of the table. -/
def State.edit (s : State) (a : Nat) (row : Row) (revision : Nat) : State :=
  { s with
    rows := fun b => if b = a then some row else s.rows b
    revisions := fun b => if b = a then some (latest (s.revisions a) revision) else s.revisions b
    version := fun b => if b = a then s.version a + 1 else s.version b }

/-- One statement, or what runs without a pause; `none` where it cannot happen. -/
def step (agent : Nat) (s : State) : Op → Option State
  | .ask => some { s with requests := s.requests ++ [.reading (.start agent)] }
  | .readRows i => (s.requests[i]?).bind (stepReadRows agent s i)
  | .readRevisions i => (s.requests[i]?).bind (stepReadRevisions s i)
  | .fail i =>
    (s.requests[i]?).bind fun
      | .reading _ => some (s.setRequest i .unreadable)
      | _ => none
  | .proceed i builds => (s.requests[i]?).bind (stepProceed agent s i builds)
  | .fallback i builds => (s.requests[i]?).bind (stepFallback agent s i builds)
  | .edit a row revision => if (s.rows a).isSome then some (s.edit a row revision) else none
  | .delete a => some { s with rows := fun b => if b = a then none else s.rows b }
  | .drop => some { s with cached := none }

/-- A process that has just started. -/
def start (rows : Nat → Option Row) (revisions : Nat → Option Nat) : State :=
  ⟨rows, revisions, fun _ => 0, none, none, [], []⟩

/-! ## 3. What is to hold, and when -/

variable {agent : Nat} {s s' : State} {op : Op} {i : Nat} {builds : Bool} {q : Request}

/-- The agent was there when its runner was handed out, and the runner was built from definitions at
least as recent as those read for it. -/
def NoneStale (agent : Nat) (s : State) : Prop :=
  ∀ h ∈ s.served, ∃ f, h.current = some f ∧ (∃ e ∈ f, e.agentId = agent) ∧
    ∀ e ∈ f, e.version ≤ h.runner.built e.agentId

/-- The steps of a calm run: the revisions of an agent grow with its edits, and nothing is edited
while a runner is cached for which no fingerprint is recorded. -/
def Calm (s : State) : Op → Prop
  | .edit a _ revision =>
    (∀ r ∈ s.revisions a, r < revision) ∧ (s.cached.isSome = true → s.builtFrom.isSome = true)
  | _ => True

instance (s : State) : (op : Op) → Decidable (Calm s op)
  | .edit _ _ _ => inferInstanceAs (Decidable ((∀ r ∈ _, _) ∧ (_ → _)))
  | .ask | .readRows _ | .readRevisions _ | .fail _ | .proceed .. | .fallback .. | .delete _ | .drop =>
    inferInstanceAs (Decidable True)

/-! ## 4. The entries that are held -/

/-- The entries that a request holds. -/
def Request.entries : Request → List Entry
  | .reading r => r.fingerprint
  | .ready (some current) => current
  | _ => []

/-- The rows that a request holds. -/
def Request.pending : Request → List Pending
  | .reading ⟨_, _, _, some rows⟩ => rows
  | _ => []

/-- The request has found the agent, or still has to look for it. -/
def Request.Finds (agent : Nat) : Request → Prop
  | .reading ⟨level, _, fingerprint, none⟩ =>
    agent ∈ level ∨ ∃ e ∈ fingerprint, e.agentId = agent
  | .reading ⟨_, _, fingerprint, some rows⟩ =>
    (∃ p ∈ rows, p.agentId = agent) ∨ ∃ e ∈ fingerprint, e.agentId = agent
  | .ready (some current) => ∃ e ∈ current, e.agentId = agent
  | _ => True

/-- An entry in the recorded fingerprint, or in that of a request. -/
def State.Holds (s : State) (e : Entry) : Prop :=
  (∃ f ∈ s.builtFrom, e ∈ f) ∨ ∃ q ∈ s.requests, e ∈ q.entries

/-- What is known of an entry: it has seen some of the edits of its agent, and all of them where its
revision is the last one. -/
structure Known (s : State) (e : Entry) : Prop where
  version : e.version ≤ e.upTo
  upTo : e.upTo ≤ s.version e.agentId
  last : e.revision = s.revisions e.agentId → e.upTo = s.version e.agentId
  revision : ∀ r ∈ e.revision, ∃ last ∈ s.revisions e.agentId, r ≤ last

/-- An entry whose revision has just been read. -/
structure Current (s : State) (e : Entry) : Prop where
  version : e.version ≤ e.upTo
  upTo : e.upTo = s.version e.agentId
  revision : e.revision = s.revisions e.agentId

theorem Current.known {e : Entry} (h : Current s e) : Known s e where
  version := h.version
  upTo := Nat.le_of_eq h.upTo
  last _ := h.upTo
  revision r hr := ⟨r, h.revision ▸ hr, Nat.le_refl r⟩

/-- The entries held know their agents, two of one revision have seen the same edits, and the cached
runner is at least as recent as what is recorded, or as recent as the database. -/
structure Inv (agent : Nat) (s : State) : Prop where
  known : ∀ e, s.Holds e → Known s e
  same : ∀ e e', s.Holds e → s.Holds e' → e.agentId = e'.agentId → e.revision = e'.revision →
    e.upTo = e'.upTo
  pending : ∀ q ∈ s.requests, ∀ p ∈ q.pending, p.version ≤ s.version p.agentId
  finds : ∀ q ∈ s.requests, q.Finds agent
  recorded : ∀ f ∈ s.builtFrom, ∀ runner ∈ s.cached, ∀ e ∈ f, e.upTo ≤ runner.built e.agentId
  unrecorded : s.builtFrom = none → ∀ runner ∈ s.cached, ∀ a, runner.built a = s.version a
  served : NoneStale agent s

/-- The requests move on: what they hold was held before or has just been read. -/
theorem Inv.setRequests (h : Inv agent s) {requests : List Request}
    (hentries : ∀ q ∈ requests, ∀ e ∈ q.entries, s.Holds e ∨ Current s e)
    (hpending : ∀ q ∈ requests, ∀ p ∈ q.pending, p.version ≤ s.version p.agentId)
    (hfinds : ∀ q ∈ requests, q.Finds agent) : Inv agent { s with requests := requests } := by
  have hheld : ∀ e, State.Holds { s with requests := requests } e → s.Holds e ∨ Current s e := by
    rintro e (hrecorded | ⟨q, hq, he⟩)
    · exact .inl (.inl hrecorded)
    · exact hentries q hq e he
  have hknown : ∀ e, s.Holds e ∨ Current s e → Known s e := by
    rintro e (hold | hnew)
    · exact h.known e hold
    · exact hnew.known
  refine ⟨?_, ?_, hpending, hfinds, h.recorded, h.unrecorded, h.served⟩
  · intro e he
    obtain ⟨hversion, hupTo, hlast, hrevision⟩ := hknown e (hheld e he)
    exact ⟨hversion, hupTo, hlast, hrevision⟩
  · intro e e' he he' hagent hrevision
    rcases hheld e he with hold | hnew
    · rcases hheld e' he' with hold' | hnew'
      · exact h.same e e' hold hold' hagent hrevision
      · -- The older one has the last revision too.
        have hlast := (h.known e hold).last (by rw [hrevision, hnew'.revision, hagent])
        rw [hlast, hnew'.upTo, hagent]
    · have hlast := (hknown e' (hheld e' he')).last (by rw [← hrevision, hnew.revision, hagent])
      rw [hlast, hnew.upTo, hagent]

/-- One request moves on. -/
theorem Inv.setRequest (h : Inv agent s) {i : Nat}
    (hentries : ∀ e ∈ q.entries, s.Holds e ∨ Current s e)
    (hpending : ∀ p ∈ q.pending, p.version ≤ s.version p.agentId) (hfinds : q.Finds agent) :
    Inv agent (s.setRequest i q) := by
  refine h.setRequests (fun old hold => ?_) (fun old hold => ?_) (fun old hold => ?_)
  · rcases List.mem_or_eq_of_mem_set hold with hmem | rfl
    · exact fun e he => .inl (.inr ⟨old, hmem, he⟩)
    · exact hentries
  · rcases List.mem_or_eq_of_mem_set hold with hmem | rfl
    · exact h.pending old hmem
    · exact hpending
  · rcases List.mem_or_eq_of_mem_set hold with hmem | rfl
    · exact h.finds old hmem
    · exact hfinds

/-- A request that holds nothing any more. -/
theorem Inv.setDone (h : Inv agent s) {i : Nat} (hentries : q.entries = [])
    (hpending : q.pending = []) (hfinds : q.Finds agent) : Inv agent (s.setRequest i q) := by
  refine h.setRequest (fun e he => ?_) (fun p hp => ?_) hfinds
  · rw [hentries] at he
    cases he
  · rw [hpending] at hp
    cases hp

/-- The cache, its record and what was served change; what is recorded was held before. -/
theorem Inv.setCache (h : Inv agent s) {cached : Option Runner} {builtFrom : Option (List Entry)}
    {served : List Served} (hheld : ∀ f ∈ builtFrom, ∀ e ∈ f, s.Holds e)
    (hrecorded : ∀ f ∈ builtFrom, ∀ runner ∈ cached, ∀ e ∈ f, e.upTo ≤ runner.built e.agentId)
    (hunrecorded : builtFrom = none → ∀ runner ∈ cached, ∀ a, runner.built a = s.version a)
    (hserved : NoneStale agent { s with served := served }) :
    Inv agent { s with cached := cached, builtFrom := builtFrom, served := served } := by
  have hold : ∀ e, State.Holds { s with
      cached := cached, builtFrom := builtFrom, served := served } e → s.Holds e := by
    rintro e (⟨f, hf, he⟩ | hrequest)
    · exact hheld f hf e he
    · exact .inr hrequest
  refine ⟨?_, ?_, h.pending, h.finds, hrecorded, hunrecorded, hserved⟩
  · intro e he
    obtain ⟨hversion, hupTo, hlast, hrevision⟩ := h.known e (hold e he)
    exact ⟨hversion, hupTo, hlast, hrevision⟩
  · intro e e' he he'
    exact h.same e e' (hold e he) (hold e' he')

/-! ## 5. What each step keeps -/

theorem Inv.readRows (h : Inv agent s) (hi : s.requests[i]? = some q)
    (hs : stepReadRows agent s i q = some s') : Inv agent s' := by
  unfold stepReadRows at hs
  split at hs
  · rename_i level seen fingerprint
    have hrequest := List.mem_of_getElem? hi
    dsimp only at hs
    split at hs
    · cases hs
      exact h.setDone rfl rfl trivial
    · rename_i hthere
      cases hs
      refine h.setRequest (fun e he => .inl (.inr ⟨_, hrequest, he⟩)) ?_ ?_
      · intro p hp
        obtain ⟨a, -, hp⟩ := List.mem_filterMap.mp hp
        obtain ⟨row, -, rfl⟩ := Option.map_eq_some_iff.mp hp
        exact Nat.le_refl _
      · rcases h.finds _ hrequest with hlevel | hfound
        · have hrow := not_and.mp hthere hlevel
          rw [List.all_eq_true] at hrow
          push Not at hrow
          obtain ⟨p, hp, hagent⟩ := hrow
          exact .inl ⟨p, hp, by simpa using hagent⟩
        · exact .inr hfound
  · cases hs

theorem Inv.readRevisions (h : Inv agent s) (hi : s.requests[i]? = some q)
    (hs : stepReadRevisions s i q = some s') : Inv agent s' := by
  unfold stepReadRevisions at hs
  split at hs
  · rename_i level seen fingerprint rows
    have hrequest := List.mem_of_getElem? hi
    -- The entries held before, and those of this level.
    let after : List Entry := fingerprint ++ rows.map fun p =>
      ⟨p.agentId, p.row.updatedAt, s.revisions p.agentId, p.version, s.version p.agentId⟩
    have hentries : ∀ e ∈ after, s.Holds e ∨ Current s e := by
      intro e he
      rcases List.mem_append.mp he with hold | hnew
      · exact .inl (.inr ⟨_, hrequest, hold⟩)
      · obtain ⟨p, hp, rfl⟩ := List.mem_map.mp hnew
        exact .inr ⟨h.pending _ hrequest p hp, rfl, rfl⟩
    have hfinds : ∃ e ∈ after, e.agentId = agent := by
      rcases h.finds _ hrequest with ⟨p, hp, hagent⟩ | ⟨e, he, hagent⟩
      · exact ⟨_, List.mem_append_right _ (List.mem_map_of_mem hp), hagent⟩
      · exact ⟨e, List.mem_append_left _ he, hagent⟩
    dsimp only at hs
    split at hs
    · cases hs
      refine h.setRequest (fun e he => hentries e ?_) (fun p hp => ?_) ?_
      · exact (List.mem_insertionSort _).mp he
      · cases hp
      · obtain ⟨e, he, hagent⟩ := hfinds
        exact ⟨e, (List.mem_insertionSort _).mpr he, hagent⟩
    · cases hs
      refine h.setRequest (fun e he => hentries e he) (fun p hp => ?_) (.inr hfinds)
      cases hp
  · cases hs

theorem getRunner_cases (agent : Nat) (builds : Bool) (s : State) :
    s.getRunner agent builds = s ∨
      s.cached = none ∧ s.getRunner agent builds = { s with cached := some ⟨s.version⟩ } := by
  unfold State.getRunner
  split
  · rename_i hbuild
    exact .inr ⟨Option.isNone_iff_eq_none.mp hbuild.1, rfl⟩
  · exact .inl rfl

/-- A runner that is built now is as recent as all that is held. -/
theorem Inv.getRunner (h : Inv agent s) : Inv agent (s.getRunner agent builds) := by
  rcases getRunner_cases agent builds s with hsame | ⟨-, hbuilt⟩
  · rw [hsame]
    exact h
  · rw [hbuilt]
    refine h.setCache (fun f hf e he => .inl ⟨f, hf, he⟩) ?_ ?_ h.served
    · intro f hf runner hrunner e he
      cases hrunner
      exact (h.known e (.inl ⟨f, hf, he⟩)).upTo
    · intro _ runner hrunner a
      cases hrunner
      rfl

theorem Inv.fallback (h : Inv agent s) (hs : stepFallback agent s i builds q = some s') : Inv agent s' := by
  unfold stepFallback at hs
  split at hs
  · cases hs
    exact h.getRunner.setDone rfl rfl trivial
  · cases hs

/-- The runner in the cache is as recent as what is recorded under the same stamps. -/
theorem Inv.covers (h : Inv agent s) {current : List Entry} {runner : Runner}
    (hcurrent : ∀ e ∈ current, s.Holds e) (hrunner : s.cached = some runner)
    (hsame : ∀ before ∈ s.builtFrom, before.map Entry.stamp = current.map Entry.stamp) :
    ∀ e ∈ current, e.upTo ≤ runner.built e.agentId := by
  intro e he
  cases hbuilt : s.builtFrom with
  | none =>
    rw [h.unrecorded hbuilt runner hrunner e.agentId]
    exact (h.known e (hcurrent e he)).upTo
  | some before =>
    have hstamp : e.stamp ∈ before.map Entry.stamp := by
      rw [hsame before hbuilt]
      exact List.mem_map_of_mem he
    obtain ⟨e', he', hstamp⟩ := List.mem_map.mp hstamp
    simp only [Entry.stamp, Prod.mk.injEq] at hstamp
    obtain ⟨hagent, -, hrevision⟩ := hstamp
    have hupTo := h.same e' e (.inl ⟨before, hbuilt, he'⟩) (hcurrent e he) hagent hrevision
    rw [← hupTo, ← hagent]
    exact h.recorded before hbuilt runner hrunner e' he'

/-- The runner that `get_runner_async` returns, where the cached one is of the same fingerprint. -/
theorem Inv.covers_getRunner (h : Inv agent s) {current : List Entry} {runner : Runner}
    (hcurrent : ∀ e ∈ current, s.Holds e)
    (hsame : s.cached = none ∨
      ∀ before ∈ s.builtFrom, before.map Entry.stamp = current.map Entry.stamp)
    (hrunner : (s.getRunner agent builds).cached = some runner) :
    ∀ e ∈ current, e.upTo ≤ runner.built e.agentId := by
  rcases getRunner_cases agent builds s with hkept | ⟨-, hbuilt⟩
  · rw [hkept] at hrunner
    rcases hsame with hnone | hsame
    · rw [hnone] at hrunner
      cases hrunner
    · exact h.covers hcurrent hrunner hsame
  · rw [hbuilt] at hrunner
    cases hrunner
    exact fun e he => (h.known e (hcurrent e he)).upTo

/-- What follows the comparison with the recorded fingerprint. -/
theorem Inv.handOut (h : Inv agent s) {current : List Entry} {runner : Runner}
    (hcurrent : ∀ e ∈ current, s.Holds e)
    (hfinds : ∃ e ∈ current, e.agentId = agent)
    (hcover : ∀ e ∈ current, e.upTo ≤ runner.built e.agentId) :
    Inv agent { s with
      cached := some runner
      builtFrom := some current
      served := s.served ++ [⟨some current, runner⟩] } := by
  refine h.setCache ?_ ?_ (fun hnone => by cases hnone) ?_
  · intro f hf e he
    cases hf
    exact hcurrent e he
  · intro f hf r hr e he
    cases hf
    cases hr
    exact hcover e he
  · intro handed hhanded
    rcases List.mem_append.mp hhanded with hold | hnew
    · exact h.served handed hold
    · rw [List.mem_singleton.mp hnew]
      exact ⟨current, rfl, hfinds, fun e he =>
        Nat.le_trans (h.known e (hcurrent e he)).version (hcover e he)⟩

theorem Inv.proceed (h : Inv agent s) (hi : s.requests[i]? = some q)
    (hs : stepProceed agent s i builds q = some s') : Inv agent s' := by
  unfold stepProceed at hs
  split at hs
  · cases hs
    have hgone : Inv agent { s with cached := none, builtFrom := none } :=
      h.setCache (fun f hf => by cases hf) (fun f hf => by cases hf)
        (fun _ runner hrunner => by cases hrunner) h.served
    exact hgone.setDone rfl rfl trivial
  · rename_i current
    have hcurrent : ∀ e ∈ current, s.Holds e :=
      fun e he => .inr ⟨_, List.mem_of_getElem? hi, he⟩
    dsimp only at hs
    -- The cached runner is dropped, or its fingerprint is the one read.
    generalize hkept : (if (s.builtFrom.any fun before =>
      before.map Entry.stamp ≠ current.map Entry.stamp) = true then { s with cached := none }
      else s : State) = kept at hs
    have hinv : Inv agent kept ∧ (∀ e ∈ current, kept.Holds e) ∧ (kept.cached = none ∨
        ∀ before ∈ kept.builtFrom, before.map Entry.stamp = current.map Entry.stamp) := by
      subst hkept
      split
      · exact ⟨h.setCache (fun f hf e he => .inl ⟨f, hf, he⟩)
          (fun f hf runner hrunner => by cases hrunner)
          (fun _ runner hrunner => by cases hrunner) h.served, hcurrent, .inl rfl⟩
      · rename_i hsame
        refine ⟨h, hcurrent, .inr fun before hbefore => ?_⟩
        rw [Option.mem_def.mp hbefore] at hsame
        simpa using hsame
    obtain ⟨hkeptInv, hkeptHolds, hkeptSame⟩ := hinv
    have hfetched : Inv agent (kept.getRunner agent builds) := hkeptInv.getRunner
    split at hs
    · cases hs
      exact hfetched.setDone rfl rfl trivial
    · rename_i runner hrunner
      cases hs
      have hcover := hkeptInv.covers_getRunner hkeptHolds hkeptSame hrunner
      have hholds : ∀ e ∈ current, (kept.getRunner agent builds).Holds e := by
        rcases getRunner_cases agent builds kept with hsame | ⟨-, hbuilt⟩
        · rw [hsame]
          exact hkeptHolds
        · rw [hbuilt]
          exact hkeptHolds
      have hhanded := hfetched.handOut hholds (h.finds _ (List.mem_of_getElem? hi)) hcover
      rw [← hrunner] at hhanded
      exact hhanded.setDone rfl rfl trivial
  · cases hs

/-- An edit whose revision is new keeps what is known of the entries. -/
theorem Known.edit {e : Entry} (h : Known s e) {a revision : Nat} {row : Row}
    (hnew : ∀ r ∈ s.revisions a, r < revision) : Known (s.edit a row revision) e := by
  have hlatest : latest (s.revisions a) revision = revision := by
    unfold latest
    cases hr : s.revisions a with
    | none => simp
    | some r => simpa using Nat.le_of_lt (hnew r hr)
  refine ⟨h.version, ?_, ?_, ?_⟩
  · show e.upTo ≤ if e.agentId = a then s.version a + 1 else s.version e.agentId
    split
    · rename_i ha
      exact Nat.le_succ_of_le (ha ▸ h.upTo)
    · exact h.upTo
  · show e.revision = (if e.agentId = a then _ else s.revisions e.agentId) →
      e.upTo = if e.agentId = a then s.version a + 1 else s.version e.agentId
    split
    · rename_i ha
      -- No entry has a revision that is only archived now.
      intro hrevision
      rw [hlatest] at hrevision
      obtain ⟨last, hlast, hle⟩ := h.revision revision hrevision
      exact absurd (hnew last (ha ▸ hlast)) (Nat.not_lt.mpr hle)
    · exact h.last
  · show ∀ r ∈ e.revision, ∃ last ∈ (if e.agentId = a then some (latest (s.revisions a) revision)
      else s.revisions e.agentId), r ≤ last
    split
    · rename_i ha
      intro r hr
      obtain ⟨last, hlast, hle⟩ := h.revision r hr
      refine ⟨_, rfl, ?_⟩
      rw [hlatest]
      exact Nat.le_of_lt (Nat.lt_of_le_of_lt hle (hnew last (ha ▸ hlast)))
    · exact h.revision

theorem Inv.edit (h : Inv agent s) {a revision : Nat} {row : Row}
    (hnew : ∀ r ∈ s.revisions a, r < revision)
    (hrecord : s.cached.isSome = true → s.builtFrom.isSome = true) : Inv agent (s.edit a row revision) := by
  refine ⟨fun e he => (h.known e he).edit hnew, h.same, ?_, h.finds, h.recorded, ?_, h.served⟩
  · intro q hq p hp
    show p.version ≤ if p.agentId = a then s.version a + 1 else s.version p.agentId
    split
    · rename_i ha
      exact Nat.le_succ_of_le (ha ▸ h.pending q hq p hp)
    · exact h.pending q hq p hp
  · intro hnone runner hrunner
    have hsome := hrecord (Option.isSome_of_mem hrunner)
    rw [show s.builtFrom = none from hnone] at hsome
    cases hsome

/-- **One calm step keeps the invariant.** -/
theorem Inv.step (h : Inv agent s) (hok : Calm s op) (hs : Fresh.step agent s op = some s') : Inv agent s' := by
  cases op with
  | ask =>
    cases hs
    refine h.setRequests (fun q hq => ?_) (fun q hq => ?_) (fun q hq => ?_)
    · rcases List.mem_append.mp hq with hold | hnew
      · exact fun e he => .inl (.inr ⟨q, hold, he⟩)
      · rw [List.mem_singleton.mp hnew]
        intro e he
        cases he
    · rcases List.mem_append.mp hq with hold | hnew
      · exact h.pending q hold
      · rw [List.mem_singleton.mp hnew]
        intro p hp
        cases hp
    · rcases List.mem_append.mp hq with hold | hnew
      · exact h.finds q hold
      · rw [List.mem_singleton.mp hnew]
        exact .inl (List.mem_singleton_self agent)
  | readRows i =>
    obtain ⟨q, hi, hs⟩ := Option.bind_eq_some_iff.mp hs
    exact h.readRows hi hs
  | readRevisions i =>
    obtain ⟨q, hi, hs⟩ := Option.bind_eq_some_iff.mp hs
    exact h.readRevisions hi hs
  | fail i =>
    obtain ⟨q, hi, hs⟩ := Option.bind_eq_some_iff.mp hs
    split at hs
    · cases hs
      exact h.setDone rfl rfl trivial
    · cases hs
  | proceed i builds =>
    obtain ⟨q, hi, hs⟩ := Option.bind_eq_some_iff.mp hs
    exact h.proceed hi hs
  | fallback i builds =>
    obtain ⟨q, hi, hs⟩ := Option.bind_eq_some_iff.mp hs
    exact h.fallback hs
  | edit a row revision =>
    simp only [Fresh.step] at hs
    split at hs
    · cases hs
      exact h.edit hok.1 hok.2
    · cases hs
  | delete a =>
    cases hs
    refine ⟨fun e he => ?_, h.same, h.pending, h.finds, h.recorded, h.unrecorded, h.served⟩
    obtain ⟨hversion, hupTo, hlast, hrevision⟩ := h.known e he
    exact ⟨hversion, hupTo, hlast, hrevision⟩
  | drop =>
    cases hs
    exact h.setCache (fun f hf e he => .inl ⟨f, hf, he⟩)
      (fun f hf runner hrunner => by cases hrunner)
      (fun _ runner hrunner => by cases hrunner) h.served

theorem start_inv (rows : Nat → Option Row) (revisions : Nat → Option Nat) :
    Inv agent (start rows revisions) := by
  have hnone : ∀ e, ¬ (start rows revisions).Holds e := by
    rintro e (⟨f, hf, -⟩ | ⟨q, hq, -⟩)
    · cases hf
    · cases hq
  refine ⟨fun e he => absurd he (hnone e), fun e e' he => absurd he (hnone e), ?_, ?_, ?_, ?_, ?_⟩
  · intro q hq
    cases hq
  · intro q hq
    cases hq
  · intro f hf
    cases hf
  · intro _ runner hrunner
    cases hrunner
  · intro h hh
    cases hh

/-! ## 6. No runner is stale -/

/-- **No stale runner is handed out** in a calm run. -/
theorem no_stale_runner {rows : Nat → Option Row} {revisions : Nat → Option Nat}
    (hrun : Reach (step agent) Calm (start rows revisions) s) : NoneStale agent s := by
  have hinv : Inv agent s :=
    hrun.invariant (start_inv rows revisions) fun _ _ _ h hok hs => h.step hok hs
  exact hinv.served

/-- Agent 1 with agent 2 below it. -/
def pair : Nat → Option Row
  | 1 => some ⟨10, ["agent2"]⟩
  | 2 => some ⟨10, []⟩
  | _ => none

/-- The statements of a read with two levels. -/
def readPair (i : Nat) : List Op := [.readRows i, .readRevisions i, .readRows i, .readRevisions i]

/-- Agent 2 is edited inside the first read and after it. -/
def editedTwice : List Op :=
  [.ask, .readRows 0, .readRevisions 0, .readRows 0, .edit 2 ⟨20, []⟩ 1, .readRevisions 0,
    .proceed 0 true, .edit 2 ⟨20, []⟩ 2, .ask] ++ readPair 1 ++ [.proceed 1 true]

theorem no_stale_runner_editedTwice :
    ∃ s, Reach (step 1) Calm (start pair fun _ => none) s ∧
      s.served.map (·.runner.built 2) = [1, 2] ∧ NoneStale 1 s := by
  have hplay : (replay (step 1) Calm (start pair fun _ => none) editedTwice).map
      (fun s => s.served.map (·.runner.built 2)) = some [1, 2] := by decide
  obtain ⟨s, hs, hout⟩ := Option.map_eq_some_iff.mp hplay
  have hrun := Reach.of_replay editedTwice hs
  exact ⟨s, hrun, hout, no_stale_runner hrun⟩

/-- Agent 1 alone. -/
def alone : Nat → Option Row
  | 1 => some ⟨10, []⟩
  | _ => none

/-- A runner is built after a failed read, the agent is edited, and a request reads it. -/
def unrecorded : List Op :=
  [.ask, .fail 0, .fallback 0 true, .edit 1 ⟨20, []⟩ 1, .ask, .readRows 1, .readRevisions 1,
    .proceed 1 true]

/-- Two edits in one second, which are committed in the other order of their revisions. -/
def crossed : List Op :=
  [.edit 1 ⟨20, []⟩ 6, .ask, .readRows 0, .readRevisions 0, .proceed 0 true, .edit 1 ⟨20, []⟩ 5,
    .ask, .readRows 1, .readRevisions 1, .proceed 1 true]

/-- The steps of a run in which no read fails. -/
def Readable (_ : State) : Op → Prop
  | .fail _ => False
  | _ => True

instance (s : State) : (op : Op) → Decidable (Readable s op)
  | .fail _ => inferInstanceAs (Decidable False)
  | .ask | .readRows _ | .readRevisions _ | .edit .. | .proceed .. | .fallback .. | .delete _ | .drop =>
    inferInstanceAs (Decidable True)

/-- What was read and what was served, of agent 1. -/
def State.seen (s : State) : List (Option (List Entry) × Nat) :=
  s.served.map fun h => (h.current, h.runner.built 1)

theorem not_noneStale {e : Entry} {n : Nat} (h : s.seen.getLast? = some (some [e], n))
    (hagent : e.agentId = 1) (hlt : n < e.version) : ¬ NoneStale 1 s := by
  intro hfresh
  obtain ⟨served, hserved, heq⟩ := List.mem_map.mp (List.mem_of_getLast? h)
  obtain ⟨f, hf, -, hcover⟩ := hfresh served hserved
  rw [Prod.mk.injEq] at heq
  obtain ⟨hcurrent, hbuilt⟩ := heq
  obtain rfl : f = [e] := Option.some.inj (hf.symm.trans hcurrent)
  have hle := hcover e (List.mem_singleton_self e)
  rw [hagent, hbuilt] at hle
  exact absurd hlt (Nat.not_lt.mpr hle)

/-- **A stale runner can be handed out**: after a failed read, and where no read fails. -/
theorem stale_runner_served :
    (¬ ∀ agent rows revisions s, Reach (step agent) anyStep (start rows revisions) s →
      NoneStale agent s) ∧
    ¬ ∀ agent rows revisions s, Reach (step agent) Readable (start rows revisions) s →
      NoneStale agent s := by
  constructor
  · intro hall
    have hplay : (replay (step 1) anyStep (start alone fun _ => none) unrecorded).map
        (·.seen.getLast?) = some (some (some [⟨1, 20, some 1, 1, 1⟩], 0)) := by decide
    obtain ⟨s, hs, hout⟩ := Option.map_eq_some_iff.mp hplay
    exact not_noneStale hout rfl (by decide) (hall _ _ _ s (Reach.of_replay _ hs))
  · intro hall
    have hplay : (replay (step 1) Readable (start alone fun _ => none) crossed).map
        (·.seen.getLast?) = some (some (some [⟨1, 20, some 6, 2, 2⟩], 1)) := by decide
    obtain ⟨s, hs, hout⟩ := Option.map_eq_some_iff.mp hplay
    exact not_noneStale hout rfl (by decide) (hall _ _ _ s (Reach.of_replay _ hs))

end Apowerb.Agent.Fresh
