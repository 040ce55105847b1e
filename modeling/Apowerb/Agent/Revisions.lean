/-
# The revisions of an agent

Any number of `update_agent`, `resync_agent_to_template` and `restore_agent_revision` calls on one
agent.  The transaction of each reads the row without a lock, inserts what it read into
`agent_revisions` (`_archive_revision`), and updates the row.  The insertion is seen by no other
transaction before the commit; the update holds the row until then, so the two are one operation.

* `no_definition_lost`: as long as each transaction archived the row that it replaces, every
  definition that was ever the committed one is the current row or archived, and a restoration
  brings its archived row back.
* `definition_lost`: two transactions that read the same row archive it twice, and what the first of
  them wrote is nowhere.

What an update or a resynchronisation has read before its transaction only decides what it writes,
which is anything here.

GHOST STATE: the definitions that have been committed.
-/
import Apowerb.Agent.Propagate
import Apowerb.Lib.Runs

namespace Apowerb.Agent.Revisions

open Definition Runs

/-! ## 1. The machine -/

/-- A row of `agent_revisions`. -/
structure Revision where
  revisionId : Nat
  reason : String
  payload : Row

/-- The `UPDATE` of a call. -/
inductive Write
  | update (agent : AgentCreateSchema) (params : Dict)
  | resync (instruction : String) (tools tags : List String) (hash : String)
  /-- The columns of a revision. -/
  | restore (archived : Row)

/-- `reason`. -/
def Write.reason : Write → String
  | .update .. => "update"
  | .resync .. => "resync"
  | .restore _ => "restore"

/-- The archived row, without the `_NON_RESTORABLE_COLUMNS`. -/
def restoredRow (archived current : Row) : Row :=
  { archived with
    createdAt := current.createdAt
    organizationId := current.organizationId
    projectId := current.projectId }

/-- The row after the `UPDATE`; a column that it does not name is that of the row it finds. -/
def Write.apply (C : Cipher) (current : Row) : Write → Row
  | .update agent params => agent.row C params current
  | .resync instruction tools tags hash =>
    { current with
      agentInstruction := instruction
      agentTools := tools
      tags := tags
      superagentTemplateVersionHash := some hash }
  | .restore archived => restoredRow archived current

/-- Where a call stands. -/
inductive Call
  /-- It has read the row. -/
  | read (write : Write) (previous : Row)
  /-- It has inserted the revision, which only its own transaction sees. -/
  | archived (write : Write) (revision : Revision)
  | committed
  | failed (cls : String)

structure State where
  row : Row
  /-- The revisions that are committed. -/
  revisions : List Revision
  /-- The sequence of the revision table, which no rollback takes back. -/
  nextRevisionId : Nat
  calls : List Call
  definitions : List Row

inductive Op
  | update (agent : AgentCreateSchema) (params : Dict)
  | resync (instruction : String) (tools tags : List String) (hash : String)
  | restore (revisionId : Nat)
  /-- `_archive_revision`. -/
  | archive (i : Nat)
  /-- The `UPDATE` and the commit. -/
  | commit (i : Nat)
  /-- A statement raises, and the transaction is rolled back. -/
  | abort (i : Nat) (cls : String)

variable (C : Cipher)

def State.setCall (s : State) (i : Nat) (call : Call) : State :=
  { s with calls := s.calls.set i call }

def State.addCall (s : State) (call : Call) : State := { s with calls := s.calls ++ [call] }

/-- The call that a restoration becomes once it has read the revision and the row. -/
def restoreCall (s : State) (revisionId : Nat) : Call :=
  match s.revisions.find? (·.revisionId = revisionId) with
  | none => .failed "HTTPException"
  | some revision => .read (.restore revision.payload) s.row

/-- The insertion draws the identifier of the revision. -/
def stepArchive (s : State) (i : Nat) : Option State :=
  match s.calls[i]? with
  | some (.read write previous) =>
    let drawn : State := { s with nextRevisionId := s.nextRevisionId + 1 }
    some (drawn.setCall i (.archived write ⟨s.nextRevisionId, write.reason, previous⟩))
  | _ => none

def stepCommit (s : State) (i : Nat) : Option State :=
  match s.calls[i]? with
  | some (.archived write revision) =>
    let written : State :=
      { s with
        row := write.apply C s.row
        revisions := s.revisions ++ [revision]
        definitions := s.definitions ++ [write.apply C s.row] }
    some (written.setCall i .committed)
  | _ => none

def stepAbort (s : State) (i : Nat) (cls : String) : Option State :=
  match s.calls[i]? with
  | some (.read ..) | some (.archived ..) => some (s.setCall i (.failed cls))
  | _ => none

/-- One statement; `none` where the call is not at that point. -/
def step (s : State) : Op → Option State
  | .update agent params => some (s.addCall (.read (.update agent params) s.row))
  | .resync instruction tools tags hash =>
    some (s.addCall (.read (.resync instruction tools tags hash) s.row))
  | .restore revisionId => some (s.addCall (restoreCall s revisionId))
  | .archive i => stepArchive s i
  | .commit i => stepCommit C s i
  | .abort i cls => stepAbort s i cls

/-- An agent that has just been registered. -/
def start (row : Row) : State := ⟨row, [], 0, [], [row]⟩

/-! ## 2. What is to hold, and when -/

/-- Every definition is current or archived, and a restoration brings back what it was asked for. -/
structure Kept (s : State) : Prop where
  archived : ∀ d ∈ s.definitions, d = s.row ∨ ∃ r ∈ s.revisions, r.payload = d
  restored : ∀ i archived revision s', s.calls[i]? = some (.archived (.restore archived) revision) →
    step C s (.commit i) = some s' →
      (∃ r ∈ s.revisions, r.payload = archived) ∧
        s'.row = { archived with
          createdAt := s.row.createdAt
          organizationId := s.row.organizationId
          projectId := s.row.projectId }

/-- The steps of a calm run: a transaction that commits has archived the row that it replaces. -/
def Calm (s : State) : Op → Prop
  | .commit i => ∀ write revision, s.calls[i]? = some (.archived write revision) →
    revision.payload = s.row
  | _ => True

/-- A transaction restores what was in the table when it read it. -/
def CallOk (revisions : List Revision) : Call → Prop
  | .read (.restore archived) _ | .archived (.restore archived) _ =>
    ∃ r ∈ revisions, r.payload = archived
  | _ => True

structure Inv (s : State) : Prop where
  archived : ∀ d ∈ s.definitions, d = s.row ∨ ∃ r ∈ s.revisions, r.payload = d
  calls : ∀ call ∈ s.calls, CallOk s.revisions call

variable {C} {s s' : State} {op : Op} {i : Nat}

/-- **What the invariant says of the claim.** -/
theorem Inv.kept (h : Inv s) : Kept C s where
  archived := h.archived
  restored i archived revision s' hi hs := by
    refine ⟨h.calls _ (List.mem_of_getElem? hi), ?_⟩
    simp only [step, stepCommit, hi, Option.some.injEq] at hs
    rw [← hs]
    rfl

/-! ## 3. Every statement keeps it -/

theorem CallOk.later {revisions : List Revision} {r : Revision} {call : Call}
    (h : CallOk revisions call) : CallOk (revisions ++ [r]) call := by
  have hlater : ∀ {archived : Row}, (∃ r ∈ revisions, r.payload = archived) →
      ∃ r' ∈ revisions ++ [r], r'.payload = archived := by
    rintro archived ⟨r', hmem, hpayload⟩
    exact ⟨r', List.mem_append_left _ hmem, hpayload⟩
  match call with
  | .read (.restore archived) _ => exact hlater h
  | .archived (.restore archived) _ => exact hlater h
  | .read (.update ..) _ | .read (.resync ..) _ | .archived (.update ..) _
  | .archived (.resync ..) _ | .committed | .failed _ => trivial

/-- A call moves. -/
theorem Inv.setCall (h : Inv s) {call : Call} (hcall : CallOk s.revisions call) :
    Inv (s.setCall i call) where
  archived := h.archived
  calls c hc := by
    rcases List.mem_or_eq_of_mem_set hc with hold | rfl
    · exact h.calls c hold
    · exact hcall

/-- A call begins. -/
theorem Inv.addCall (h : Inv s) {call : Call} (hcall : CallOk s.revisions call) :
    Inv (s.addCall call) where
  archived := h.archived
  calls c hc := by
    rcases List.mem_append.mp hc with hold | hnew
    · exact h.calls c hold
    · rwa [List.mem_singleton.mp hnew]

theorem callOk_restoreCall (s : State) (revisionId : Nat) :
    CallOk s.revisions (restoreCall s revisionId) := by
  unfold restoreCall
  split
  · trivial
  · rename_i revision hfound
    exact ⟨revision, List.mem_of_find?_eq_some hfound, rfl⟩

theorem Inv.archive (h : Inv s) (hs : stepArchive s i = some s') : Inv s' := by
  unfold stepArchive at hs
  split at hs
  · rename_i write previous hi
    cases hs
    have hdrawn : Inv { s with nextRevisionId := s.nextRevisionId + 1 } := ⟨h.archived, h.calls⟩
    have hread := h.calls _ (List.mem_of_getElem? hi)
    refine hdrawn.setCall ?_
    cases write with
    | restore archived => exact hread
    | update agent params => trivial
    | resync instruction tools tags hash => trivial
  · cases hs

theorem Inv.commit (h : Inv s) (hok : Calm s (.commit i)) (hs : stepCommit C s i = some s') :
    Inv s' := by
  unfold stepCommit at hs
  split at hs
  · rename_i write revision hi
    cases hs
    have hpayload := hok write revision hi
    have hwritten : Inv { s with
        row := write.apply C s.row
        revisions := s.revisions ++ [revision]
        definitions := s.definitions ++ [write.apply C s.row] } := by
      refine ⟨fun d hd => ?_, fun call hcall => (h.calls call hcall).later⟩
      rcases List.mem_append.mp hd with hold | hnew
      · rcases h.archived d hold with rfl | ⟨r, hr, hrd⟩
        · -- The row that is replaced has just been archived.
          exact .inr ⟨revision, List.mem_append_right _ (List.mem_singleton_self _), hpayload⟩
        · exact .inr ⟨r, List.mem_append_left _ hr, hrd⟩
      · exact .inl (List.mem_singleton.mp hnew)
    exact hwritten.setCall trivial
  · cases hs

theorem Inv.step (h : Inv s) (hok : Calm s op) (hs : Revisions.step C s op = some s') : Inv s' := by
  cases op with
  | update agent params =>
    cases hs
    exact h.addCall trivial
  | resync instruction tools tags hash =>
    cases hs
    exact h.addCall trivial
  | restore revisionId =>
    cases hs
    exact h.addCall (callOk_restoreCall s revisionId)
  | archive i => exact h.archive hs
  | commit i => exact h.commit hok hs
  | abort i cls =>
    simp only [Revisions.step, stepAbort] at hs
    split at hs
    · cases hs
      exact h.setCall trivial
    · cases hs
      exact h.setCall trivial
    · cases hs

theorem start_inv (row : Row) : Inv (start row) where
  archived d hd := .inl (List.mem_singleton.mp hd)
  calls call hcall := by cases hcall

/-! ## 4. The result -/

/-- **No definition is lost**, where each transaction has archived the row that it replaces. -/
theorem no_definition_lost {row : Row} (hrun : Reach (step C) Calm (start row) s) : Kept C s :=
  (hrun.invariant (start_inv row) fun _ _ _ h hok hs => h.step hok hs).kept

instance (s : State) : (op : Op) → Decidable (Calm s op)
  | .commit i =>
    match h : s.calls[i]? with
    | some (.archived write revision) =>
      decidable_of_iff (revision.payload = s.row)
        ⟨fun hrow w r hr => by cases h.symm.trans hr; exact hrow, fun hall => hall write revision h⟩
    | some (.read ..) | some .committed | some (.failed _) | none =>
      .isTrue fun w r hr => by cases h.symm.trans hr
  | .update .. | .resync .. | .restore _ | .archive _ | .abort .. => .isTrue trivial

/-- A resynchronisation with this instruction. -/
def instruct (instruction : String) : Op := .resync instruction [] [] "hash"

/-- Two resynchronisations, and the restoration of what the first one replaced. -/
def restored : List Op :=
  [instruct "first", .archive 0, .commit 0, instruct "second", .archive 1, .commit 1, .restore 0,
    .archive 2, .commit 2]

theorem no_definition_lost_restored : ∃ s,
    Reach (step Propagate.marked) Calm (start (Propagate.agentRow "agent")) s ∧
      s.definitions.map (·.agentInstruction) = ["", "first", "second", ""] ∧
      Kept Propagate.marked s := by
  have hplay : (replay (step Propagate.marked) Calm (start (Propagate.agentRow "agent"))
      restored).map (fun s => s.definitions.map (·.agentInstruction)) =
        some ["", "first", "second", ""] := by decide +kernel
  obtain ⟨s, hs, hout⟩ := Option.map_eq_some_iff.mp hplay
  have hrun := Reach.of_replay restored hs
  exact ⟨s, hrun, hout, no_definition_lost hrun⟩

/-- Two resynchronisations that read the same row. -/
def crossed : List Op :=
  [instruct "first", instruct "second", .archive 0, .commit 0, .archive 1, .commit 1]

/-- **A definition can be lost**: what the first of two transactions wrote, where the second one had
read the row before. -/
theorem definition_lost :
    ¬ ∀ C row s, Reach (step C) anyStep (start row) s → Kept C s := by
  intro hall
  have hplay : (replay (step Propagate.marked) anyStep (start (Propagate.agentRow "agent"))
      crossed).map (fun s => (s.definitions.map (·.agentInstruction), s.row.agentInstruction,
        s.revisions.map (·.payload.agentInstruction))) =
      some (["", "first", "second"], "second", ["", ""]) := by decide +kernel
  obtain ⟨s, hs, hout⟩ := Option.map_eq_some_iff.mp hplay
  simp only [Prod.mk.injEq] at hout
  obtain ⟨hdefinitions, hrow, hrevisions⟩ := hout
  have hkept := hall Propagate.marked _ s (Reach.of_replay crossed hs)
  obtain ⟨d, hd, hfirst⟩ : ∃ d ∈ s.definitions, d.agentInstruction = "first" := by
    rw [← List.mem_map, hdefinitions]
    decide
  rcases hkept.archived d hd with rfl | ⟨r, hr, rfl⟩
  · exact absurd (hrow.symm.trans hfirst) (by decide)
  · have hmem : "first" ∈ s.revisions.map (·.payload.agentInstruction) :=
      hfirst ▸ List.mem_map_of_mem hr
    rw [hrevisions] at hmem
    exact absurd hmem (by decide)

end Apowerb.Agent.Revisions
