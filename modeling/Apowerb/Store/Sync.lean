/-
# Writes of a workflow, and the synchronisation that follows each

Any number of `update_workflow` and `restore_revision` calls on one workflow.  A call reads the
row, commits its write if the version is still the one it read, and then, in a transaction of its
own, synchronises the trigger with the graph and the status it retained.  Each of the three is one
operation, so an interleaving is a list of operations.

The version orders the commits; nothing orders the synchronisations.  A call that commits first and
synchronises last leaves the trigger of a state that is no longer the workflow's
(`late_sync_keeps_old_trigger`).  `trigger_converges`: where the synchronisations come in the order
of the versions, the trigger is that of the workflow once all calls have returned.

GHOST STATE: the version whose call wrote the trigger last.
-/
import Apowerb.Lib.Replace
import Apowerb.Lib.Runs
import Apowerb.Store.Workflow

namespace Apowerb.Store

open Graph Runs Schedule Trigger

/-! ## 1. The machine -/

/-- Where a call stands. -/
inductive Call
  /-- It has read the row, and knows what it will write and why. -/
  | read (row : Workflow) (changes : Changes) (reason : String)
  /-- Its write is committed; the synchronisation is still to come. -/
  | committed (state : Workflow)
  /-- It returned, or raised. -/
  | returned (error : Option StoreError)
deriving DecidableEq, Repr

structure State where
  workflow : Workflow
  revisions : List Revision
  trigger : Row
  calls : List Call
  syncedVersion : Nat

inductive Op
  /-- `update_workflow` up to its write, in the surroundings `ctx`. -/
  | update (ctx : Context) (u : Update)
  /-- `restore_revision` up to its write. -/
  | restore (revisionId : Nat)
  /-- `_write_if_unchanged`, with the archive of the state it replaces. -/
  | commit (i : Nat)
  /-- `_sync_trigger`. -/
  | sync (i : Nat) (secrets : Secrets) (now : Int)

def State.setCall (s : State) (i : Nat) (call : Call) : State :=
  { s with calls := s.calls.set i call }

def State.addCall (s : State) (call : Call) : State := { s with calls := s.calls ++ [call] }

/-- The call that an update becomes once it has read the row. -/
def updateCall (depth : Nat) (ctx : Context) (w : Workflow) (u : Update) : Call :=
  match prepareUpdate depth ctx w u with
  | .error e => .returned (some e)
  | .ok c => if c.any then .read w c (updateReason w.status c) else .returned none

/-- The call that a restoration becomes once it has read the row and the revision. -/
def restoreCall (s : State) (revisionId : Nat) : Call :=
  match s.revisions.find? (·.id = revisionId) with
  | none => .returned (some (.workflowNotFound s!"révision {revisionId}"))
  | some revision => .read s.workflow (restoreChanges revision) "restore"

/-- Write if the version is still the one read; the replaced state is archived. -/
def stepCommit (s : State) (i : Nat) : Option State :=
  match s.calls[i]? with
  | some (.read row c reason) =>
    if s.workflow.version = row.version then
      let written : State :=
        { s with
          workflow := s.workflow.apply c
          revisions := s.revisions ++ [⟨s.revisions.length, row, reason⟩] }
      some (written.setCall i (.committed (row.apply c)))
    else some (s.setCall i (.returned (some (.versionConflict s.workflow.version))))
  | _ => none

variable (py : Python) (depth : Nat) (integrations : List String) (ownerId : String)

/-- Write the trigger from what the call retained. -/
def stepSync (s : State) (i : Nat) (secrets : Secrets) (now : Int) : Option State :=
  match s.calls[i]? with
  | some (.committed state) =>
    match syncTrigger py secrets integrations ownerId (triggerSpec state.graph) state.status now
        (some s.trigger) with
    | .ok row =>
      let written : State := { s with trigger := row, syncedVersion := state.version }
      some (written.setCall i (.returned none))
    | .error e => some (s.setCall i (.returned (some (.raised e))))
  | _ => none

/-- One operation; `none` where the call is not at that point. -/
def step (s : State) : Op → Option State
  | .update ctx u => some (s.addCall (updateCall depth { ctx with python := py } s.workflow u))
  | .restore revisionId => some (s.addCall (restoreCall s revisionId))
  | .commit i => stepCommit s i
  | .sync i secrets now => stepSync py integrations ownerId s i secrets now

/-! ## 2. What is to hold -/

/-- The trigger is the one a synchronisation makes of the workflow. -/
structure Follows (integrations : List String) (s : State) : Prop where
  kind : s.trigger.kind = kindOf (triggerSpec s.workflow.graph)
  config : s.trigger.config = triggerSpec s.workflow.graph
  active : s.trigger.active =
    (computeActive integrations (triggerSpec s.workflow.graph) s.workflow.status).1

/-- No call on the workflow is under way. -/
structure Start (s : State) : Prop where
  calls : s.calls = []
  publishable : Publishable py s.workflow.graph s.workflow.status
  follows : Follows integrations s
  synced : s.syncedVersion = s.workflow.version

/-- Every call has returned. -/
def State.settled (s : State) : Bool :=
  s.calls.all fun call =>
    match call with
    | .returned _ => true
    | _ => false

/-- A synchronisation comes before those of later versions. -/
def SyncInOrder (s : State) : Option Call → Prop
  | some (.committed state) => s.syncedVersion ≤ state.version
  | _ => True

/-- The synchronisations come in the order of the versions. -/
def InVersionOrder (s : State) : Op → Prop
  | .sync i _ _ => SyncInOrder s s.calls[i]?
  | _ => True

instance (s : State) : (call : Option Call) → Decidable (SyncInOrder s call)
  | some (.committed state) => inferInstanceAs (Decidable (s.syncedVersion ≤ state.version))
  | none | some (.read ..) | some (.returned _) => .isTrue trivial

instance (s : State) : (op : Op) → Decidable (InVersionOrder s op)
  | .sync i _ _ => inferInstanceAs (Decidable (SyncInOrder s s.calls[i]?))
  | .update .. | .restore _ | .commit _ => .isTrue trivial

/-! ## 3. The invariant -/

/-- What is known of a call: the version it read or wrote tells the state of the workflow, and
what it writes is publishable. -/
def CallOk (w : Workflow) : Call → Prop
  | .read row c _ =>
    row.version ≤ w.version ∧ (row.version = w.version → row = w) ∧
      Publishable py (row.apply c).graph (row.apply c).status
  | .committed state =>
    state.version ≤ w.version ∧ (state.version = w.version → state = w) ∧
      Publishable py state.graph state.status
  | .returned _ => True

/-- The call that committed the present version has still to synchronise. -/
def Pending (s : State) : Prop :=
  ∃ state, Call.committed state ∈ s.calls ∧ state.version = s.workflow.version

structure Inv (s : State) : Prop where
  publishable : Publishable py s.workflow.graph s.workflow.status
  calls : ∀ call ∈ s.calls, CallOk py s.workflow call
  synced : s.syncedVersion ≤ s.workflow.version
  follows : s.syncedVersion = s.workflow.version → Follows integrations s
  pending : s.syncedVersion = s.workflow.version ∨ Pending s

variable {py depth integrations ownerId} {s s' : State}

theorem Start.inv (h : Start py integrations s) : Inv py integrations s where
  publishable := h.publishable
  calls call hcall := by
    rw [h.calls] at hcall
    cases hcall
  synced := h.synced.le
  follows _ := h.follows
  pending := .inl h.synced

/-- A later version leaves what is known of the calls. -/
theorem CallOk.later {w w' : Workflow} {call : Call} (h : CallOk py w call)
    (hlt : w.version < w'.version) : CallOk py w' call := by
  cases call with
  | read row c reason =>
    obtain ⟨hle, _, hpub⟩ := h
    exact ⟨by omega, fun heq => by omega, hpub⟩
  | committed state =>
    obtain ⟨hle, _, hpub⟩ := h
    exact ⟨by omega, fun heq => by omega, hpub⟩
  | returned error => trivial

/-- Replacing a call by another of which the same is known. -/
theorem callOk_set {w : Workflow} {calls : List Call} {i : Nat} {call : Call}
    (h : ∀ c ∈ calls, CallOk py w c) (hcall : CallOk py w call) :
    ∀ c ∈ calls.set i call, CallOk py w c := by
  intro c hc
  rcases List.mem_or_eq_of_mem_set hc with hold | rfl
  · exact h c hold
  · exact hcall

/-- A call that is new, or that only ends, changes nothing that was known. -/
theorem Inv.addCall (hinv : Inv py integrations s) {call : Call}
    (hcall : CallOk py s.workflow call) : Inv py integrations (s.addCall call) where
  publishable := hinv.publishable
  calls c hc := by
    rcases List.mem_append.mp hc with hold | hnew
    · exact hinv.calls c hold
    · rw [List.mem_singleton.mp hnew]
      exact hcall
  synced := hinv.synced
  follows heq := ⟨(hinv.follows heq).kind, (hinv.follows heq).config, (hinv.follows heq).active⟩
  pending := hinv.pending.imp_right fun ⟨state, hmem, hver⟩ =>
    ⟨state, List.mem_append_left _ hmem, hver⟩

theorem updateCall_ok {ctx : Context} {u : Update} {w : Workflow} (hpy : ctx.python = py)
    (hpub : Publishable py w.graph w.status) : CallOk py w (updateCall depth ctx w u) := by
  subst hpy
  unfold updateCall
  split
  · trivial
  · rename_i c hc
    split
    · exact ⟨le_rfl, fun _ => rfl, prepareUpdate_publishable hc hpub⟩
    · trivial

/-- A restoration leaves a draft. -/
theorem restoreCall_ok (s : State) (revisionId : Nat) :
    CallOk py s.workflow (restoreCall s revisionId) := by
  unfold restoreCall
  split
  · trivial
  · refine ⟨le_rfl, fun _ => rfl, ?_⟩
    intro hpublished
    exact absurd hpublished (by simp [Workflow.apply, restoreChanges])

/-- **A commit keeps the invariant**: the new version waits for the synchronisation of its call. -/
theorem Inv.commit (hinv : Inv py integrations s) {i : Nat} (hs : stepCommit s i = some s') :
    Inv py integrations s' := by
  unfold stepCommit at hs
  split at hs
  · rename_i row c reason hi
    obtain ⟨_, hsame, hpub⟩ : CallOk py s.workflow (.read row c reason) :=
      hinv.calls _ (List.mem_of_getElem? hi)
    split at hs
    · rename_i hversion
      cases hs
      have hrow : row = s.workflow := hsame hversion.symm
      subst hrow
      have hnext : s.workflow.version < (s.workflow.apply c).version := Nat.lt_succ_self _
      have hlen : i < s.calls.length := (List.getElem?_eq_some_iff.mp hi).1
      refine ⟨hpub, ?_, ?_, ?_, .inr ⟨s.workflow.apply c, ?_, rfl⟩⟩
      · exact callOk_set (fun call hcall => (hinv.calls call hcall).later hnext)
          ⟨le_rfl, fun _ => rfl, hpub⟩
      · exact hinv.synced.trans hnext.le
      · intro heq
        have : s.syncedVersion = (s.workflow.apply c).version := heq
        exact absurd hinv.synced (by omega)
      · exact List.mem_set hlen _
    · cases hs
      refine ⟨hinv.publishable, callOk_set hinv.calls trivial, hinv.synced, ?_, ?_⟩
      · intro heq
        exact ⟨(hinv.follows heq).kind, (hinv.follows heq).config, (hinv.follows heq).active⟩
      · refine hinv.pending.imp_right fun ⟨state, hmem, hver⟩ => ⟨state, ?_, hver⟩
        exact Replace.mem_set_of_ne hi hmem (by simp)
  · cases hs

/-- **A synchronisation in the order of the versions keeps the invariant.** -/
theorem Inv.sync (hinv : Inv py integrations s) {i : Nat} {secrets : Secrets} {now : Int}
    (hok : SyncInOrder s s.calls[i]?)
    (hs : stepSync py integrations ownerId s i secrets now = some s') :
    Inv py integrations s' := by
  unfold stepSync at hs
  split at hs
  · rename_i state hi
    obtain ⟨hle, hsame, hpub⟩ : CallOk py s.workflow (.committed state) :=
      hinv.calls _ (List.mem_of_getElem? hi)
    obtain ⟨row, hrow⟩ := syncTrigger_of_accepted hpub secrets integrations ownerId now
      (some s.trigger)
    rw [hrow] at hs
    cases hs
    obtain ⟨hkind, hconfig, hactive, _⟩ := syncTrigger_ok hrow
    refine ⟨hinv.publishable, callOk_set hinv.calls trivial, hle, ?_, ?_⟩
    · intro heq
      have hstate : state = s.workflow := hsame heq
      subst hstate
      exact ⟨hkind, hconfig, hactive⟩
    · by_cases heq : state.version = s.workflow.version
      · exact .inl heq
      · refine .inr ?_
        rw [hi] at hok
        have hstale : s.syncedVersion ≠ s.workflow.version := by
          have : s.syncedVersion ≤ state.version := hok
          omega
        obtain ⟨other, hmem, hver⟩ := hinv.pending.resolve_left hstale
        refine ⟨other, Replace.mem_set_of_ne hi hmem ?_, hver⟩
        intro hother
        cases hother
        exact heq hver
  · cases hs

/-- **One step keeps the invariant.** -/
theorem Inv.step {op : Op} (hinv : Inv py integrations s) (hok : InVersionOrder s op)
    (hs : step py depth integrations ownerId s op = some s') : Inv py integrations s' := by
  cases op with
  | update ctx u =>
    cases hs
    exact hinv.addCall (updateCall_ok rfl hinv.publishable)
  | restore revisionId =>
    cases hs
    exact hinv.addCall (restoreCall_ok s revisionId)
  | commit i => exact hinv.commit hs
  | sync i secrets now => exact hinv.sync hok hs

/-! ## 4. The trigger converges -/

/-- **Where the synchronisations come in the order of the versions, the trigger is that of the
workflow once every call has returned.** -/
theorem trigger_converges {s₀ : State} (hstart : Start py integrations s₀)
    (hrun : Reach (step py depth integrations ownerId) InVersionOrder s₀ s)
    (hsettled : s.settled = true) : Follows integrations s := by
  have hinv : Inv py integrations s :=
    hrun.invariant hstart.inv fun _ _ _ hinv hok hs => hinv.step hok hs
  refine hinv.follows (hinv.pending.resolve_right ?_)
  rintro ⟨state, hmem, _⟩
  have := List.all_eq_true.mp hsettled _ hmem
  cases this

/-! ## 5. A publication and a withdrawal -/

/-- A webhook that hands its payload over. -/
def hook : WorkflowGraph where
  nodes := [⟨"start", .trigger, [("kind", .str "webhook")]⟩, ⟨"end", .output, []⟩]
  edges := [⟨"start", "end", none⟩]

/-- Its workflow, as a draft whose trigger is in place. -/
def draftHook : State where
  workflow := ⟨"hook", none, hook, "draft", 1⟩
  revisions := []
  trigger := {
    ownerId := "ana"
    kind := .str "webhook"
    config := triggerSpec hook
    active := false
    nextRunAt := none
    lastStatus := none
    lastRunId := none
    lastFiredAt := none
    tokenHash := some "hash"
    tokenEncrypted := some "encrypted"
    hmacEnabled := false
    hmacSecretEncrypted := none }
  calls := []
  syncedVersion := 1

theorem draftHook_start (py : Python) : Start py [] draftHook where
  calls := rfl
  publishable := fun h => absurd h (by decide)
  follows := ⟨by decide, by decide, by decide⟩
  synced := rfl

/-- An update of the status alone. -/
def setStatus (expectedVersion : Nat) (status : String) : Update :=
  ⟨expectedVersion, none, none, none, some status⟩

def sampleSecrets : Secrets := ⟨"token", "secret", id, id⟩

/-- One call publishes and another withdraws; each synchronises right after its commit. -/
def inOrder : List Op :=
  [.update newYearPublication (setStatus 1 "published"), .commit 0, .sync 0 sampleSecrets 0,
    .update newYearPublication (setStatus 2 "draft"), .commit 1, .sync 1 sampleSecrets 0]

/-- The same calls; the publication synchronises last. -/
def outOfOrder : List Op :=
  [.update newYearPublication (setStatus 1 "published"), .commit 0,
    .update newYearPublication (setStatus 2 "draft"), .commit 1,
    .sync 1 sampleSecrets 0, .sync 0 sampleSecrets 0]

/-- Whether the calls are over, whether the trigger is armed, and whether it is to be. -/
def outcome (s : State) : Bool × Bool × Bool :=
  (s.settled, s.trigger.active,
    (computeActive [] (triggerSpec s.workflow.graph) s.workflow.status).1)

/-- In the order of the versions the trigger of the draft is disarmed. -/
theorem trigger_converges_inOrder :
    ∃ s, Reach (step newYearPublication.python 1 [] "ana") InVersionOrder draftHook s ∧
      s.trigger.active = false ∧ Follows [] s := by
  have hplay : (replay (step newYearPublication.python 1 [] "ana") InVersionOrder draftHook
      inOrder).map outcome = some (true, false, false) := by decide
  obtain ⟨s, hs, hout⟩ := Option.map_eq_some_iff.mp hplay
  have hrun := Reach.of_replay inOrder hs
  have hsettled : s.settled = true := congrArg Prod.fst hout
  exact ⟨s, hrun, congrArg (·.2.1) hout,
    trigger_converges (draftHook_start _) hrun hsettled⟩

/-- **The last synchronisation is not that of the last version.**  The withdrawn workflow keeps
an armed trigger. -/
theorem late_sync_keeps_old_trigger :
    ¬ ∀ (py : Python) (depth : Nat) (integrations : List String) (ownerId : String)
      (s₀ s : State), Start py integrations s₀ →
      Reach (step py depth integrations ownerId) anyStep s₀ s → s.settled = true →
      Follows integrations s := by
  intro hall
  have hplay : (replay (step newYearPublication.python 1 [] "ana") anyStep draftHook
      outOfOrder).map outcome = some (true, true, false) := by decide
  obtain ⟨s, hs, hout⟩ := Option.map_eq_some_iff.mp hplay
  have hfollows := hall _ 1 [] "ana" draftHook s (draftHook_start _)
    (Reach.of_replay outOfOrder hs) (congrArg Prod.fst hout)
  have harmed : s.trigger.active = true := congrArg (·.2.1) hout
  have hdraft : (computeActive [] (triggerSpec s.workflow.graph) s.workflow.status).1 = false :=
    congrArg (·.2.2) hout
  have := hfollows.active
  rw [harmed, hdraft] at this
  cases this

end Apowerb.Store
