/-
# Slots: what happens to `next_run_at`

One schedule row, and everything that writes its `next_run_at`: the ticks of any number of
replicas (`flow_scheduler.tick_once`, `fire_schedule_trigger`), the completions of the runs they
launched (`_on_done`), and the synchronisations that follow an edit of the workflow
(`sync_trigger_for_workflow`).  Each write is one transaction, so a state is the row and the list
of the ticks in progress, and an interleaving is a list of operations.

A SLOT is an instant that the row held when a tick read it as due.  A tick either SKIPS its slot
(the previous run is still going) or FIRES it (its compare-and-set won).

Only the reservation of a tick is a compare-and-set.  The write that skips a slot and the write of
a completion put into the row what was computed from the configuration and the clock of their
TICK, whatever the row holds by then.

* `completion_moves_back`: a completion that comes after a later slot was skipped puts that slot
  back; `slots_served_once` says when no slot comes back.
* `completion_restores_old_schedule`: a completion that comes after an edit arms the row by the
  schedule it had before; `schedule_follows_config` says when the row follows its configuration.

GHOST STATE: the slots served so far (fired or skipped), and among them those fired.
-/
import Apowerb.Lib.Runs
import Apowerb.Run.Row
import Apowerb.Schedule.Progress
import Apowerb.Trigger.Row

namespace Apowerb.Trigger

open Runs Schedule

/-! ## 1. A tick -/

/-- What `run_main.get_run` says of the last run: it failed, there is no such run, or its
status. -/
inductive Lookup
  | failed
  | absent
  | found (status : Run.Status)
deriving DecidableEq, Repr

/-- `_RUNNING_STALE_AFTER`. -/
def runningStaleAfter : Int := 6 * microsPerHour

/-- `_running_is_orphaned`: the run that the row says is running is over, or too old. -/
def runningIsOrphaned (row : Row) (now : Int) (lookup : Lookup) : Bool :=
  if row.lastRunId.getD "" = "" then true
  else
    match lookup with
    | .absent | .found .success | .found .error | .found .cancelled => true
    | .failed | .found .running | .found .awaiting =>
      match row.lastFiredAt with
      | none => false
      | some started => runningStaleAfter < now - started

/-- `_last_run_still_open`. -/
def lastRunStillOpen (row : Row) (lookup : Lookup) : Bool :=
  if row.lastRunId.getD "" = "" then false
  else
    match lookup with
    | .failed | .found .awaiting | .found .running => true
    | .absent | .found .success | .found .error | .found .cancelled => false

/-- The two cases in which `fire_schedule_trigger` consumes the slot without running. -/
def skips (row : Row) (now : Int) (lookup : Lookup) : Bool :=
  (row.lastStatus == some "running" && !runningIsOrphaned row now lookup) ||
    (row.lastStatus == some "awaiting" && lastRunStillOpen row lookup)

/-- `due_schedule_triggers` on this row. -/
def isDue (row : Row) (now : Int) : Bool :=
  row.kind == .str "schedule" && row.active &&
    match row.nextRunAt with
    | some slot => slot ≤ now
    | none => false

/-- What came of `launch_triggered_run`. -/
inductive Launch
  | started (runId : String)
  | notActive
  | failed
deriving DecidableEq, Repr

/-- Where a tick stands.  From its read on it works on the row it READ and the `now` of its
pass. -/
inductive Tick
  /-- The row was read as due. -/
  | read (row : Row) (now : Int)
  /-- Its compare-and-set won, and wrote this next run. -/
  | reserved (row : Row) (now : Int) (written : Option Int)
  /-- `last_status` is set to `running`; the launch is under way. -/
  | launching (row : Row) (now : Int) (written : Option Int)
  /-- The run exists. -/
  | started (row : Row) (now : Int) (written : Option Int) (runId : String)
  /-- The run is recorded in the row, and its completion will call `_on_done`. -/
  | running (row : Row) (now : Int) (written : Option Int)
  /-- Nothing is left to do. -/
  | closed
deriving DecidableEq, Repr

/-! ## 2. The machine -/

structure State where
  row : Row
  ticks : List Tick
  served : List Int
  fired : List Int

inductive Op
  /-- A pass at `now` reads the row, if it is due. -/
  | tick (now : Int)
  /-- `fire_schedule_trigger` up to its reservation. -/
  | fire (p : Nat) (lookup : Lookup)
  | markRunning (p : Nat)
  | launch (p : Nat) (outcome : Launch)
  | record (p : Nat)
  /-- `_on_done`, with the status the run ended with. -/
  | done (p : Nat) (final : String)
  /-- `sync_trigger_for_workflow`, after an edit. -/
  | sync (secrets : Secrets) (integrations : List String) (ownerId : String) (spec : Dict)
      (status : String) (now : Int)

def State.setTick (s : State) (p : Nat) (tick : Tick) : State :=
  { s with ticks := s.ticks.set p tick }

/-- `_update_trigger_row` and its siblings: write the row. -/
def State.withRow (s : State) (row : Row) : State := { s with row := row }

/-- Write `next_run_at`. -/
def State.arm (s : State) (next : Option Int) : State :=
  s.withRow { s.row with nextRunAt := next }

/-- The slot of a tick that read `row` is served, and fired if `byRun`. -/
def State.serve (s : State) (row : Row) (byRun : Bool) : State :=
  { s with
    served := row.nextRunAt.toList ++ s.served
    fired := if byRun then row.nextRunAt.toList ++ s.fired else s.fired }

variable (py : Python)

/-- Skip, or reserve by compare-and-set.  A configuration that no longer computes ends the
tick. -/
def stepFire (s : State) (p : Nat) (lookup : Lookup) : Option State :=
  match s.ticks[p]? with
  | some (.read row now) =>
    match computeNextRun py row.config now with
    | .error _ => some (s.setTick p .closed)
    | .ok next =>
      if skips row now lookup then some (((s.arm next).serve row false).setTick p .closed)
      else if s.row.nextRunAt = row.nextRunAt then
        some (((s.arm next).serve row true).setTick p (.reserved row now next))
      else some (s.setTick p .closed)
  | _ => none

/-- The outcome of a launch.  A workflow that is no longer published disarms the row. -/
def stepLaunch (s : State) (p : Nat) (outcome : Launch) : Option State :=
  match s.ticks[p]? with
  | some (.launching row now written) =>
    match outcome with
    | .started runId => some (s.setTick p (.started row now written runId))
    | .notActive =>
      some ((s.withRow { s.row with active := false, lastStatus := none, nextRunAt := none }).setTick
        p .closed)
    | .failed => some ((s.withRow { s.row with lastStatus := some "error" }).setTick p .closed)
  | _ => none

/-- `_on_done`: the status, and the next run computed from the configuration and the `now` of the
tick. -/
def stepDone (s : State) (p : Nat) (final : String) : Option State :=
  match s.ticks[p]? with
  | some (.running row now _) =>
    match computeNextRun py row.config now with
    | .error _ => some (s.setTick p .closed)
    | .ok next =>
      some ((s.withRow { s.row with lastStatus := some final, nextRunAt := next }).setTick p .closed)
  | _ => none

/-- One transaction; `none` where the tick is not at that point. -/
def step (s : State) : Op → Option State
  | .tick now =>
    if isDue s.row now then some { s with ticks := s.ticks ++ [.read s.row now] } else none
  | .fire p lookup => stepFire py s p lookup
  | .markRunning p =>
    match s.ticks[p]? with
    | some (.reserved row now written) =>
      some ((s.withRow { s.row with lastStatus := some "running" }).setTick p
        (.launching row now written))
    | _ => none
  | .launch p outcome => stepLaunch s p outcome
  | .record p =>
    match s.ticks[p]? with
    | some (.started row now written runId) =>
      some ((s.withRow { s.row with lastRunId := some runId, lastFiredAt := some now }).setTick p
        (.running row now written))
    | _ => none
  | .done p final => stepDone py s p final
  | .sync secrets integrations ownerId spec status now =>
    match syncTrigger py secrets integrations ownerId spec status now (some s.row) with
    | .ok row => some (s.withRow row)
    | .error _ => none

/-- A row, before any tick. -/
def start (row : Row) : State := ⟨row, [], [], []⟩

/-- Every tick is over. -/
def State.settled (s : State) : Bool := s.ticks.all (· == .closed)

/-! ## 3. What is to hold -/

/-- A slot that was served does not come back, and none is fired twice. -/
structure ServedOnce (s : State) : Prop where
  neverBack : ∀ slot, s.row.nextRunAt = some slot → slot ∉ s.served
  firedOnce : s.fired.Nodup

/-- The row follows its configuration: an armed schedule is armed for a next run of that
configuration, and a disarmed trigger for nothing. -/
structure Synced (row : Row) : Prop where
  armed : row.active = true → row.kind = .str "schedule" → ∀ next, row.nextRunAt = some next →
    ∃ after, computeNextRun py row.config after = .ok (some next)
  disarmed : row.active = false → row.nextRunAt = none

/-- No edit: the configuration and the status of the workflow stay as they are. -/
def NoEdit : Op → Prop
  | .sync .. => False
  | _ => True

/-- A tick that skips finds in the row the slot it read. -/
def SkipInPlace (s : State) (lookup : Lookup) : Option Tick → Prop
  | some (.read row now) => skips row now lookup = true → s.row.nextRunAt = row.nextRunAt
  | _ => True

/-- A run that completes finds in the row what its reservation wrote. -/
def DoneInPlace (s : State) : Option Tick → Prop
  | some (.running _ _ written) => s.row.nextRunAt = written
  | _ => True

/-- A tick that skips its slot, and a run that completes, find in the row what their own tick
read, or wrote, there. -/
def InPlace (s : State) : Op → Prop
  | .fire p lookup => SkipInPlace s lookup s.ticks[p]?
  | .done p _ => DoneInPlace s s.ticks[p]?
  | _ => True

/-- A tick does not fall in a stretch that the clock repeats before the next match. -/
def ClockMovesOn (s : State) : Op → Prop
  | .fire p _ =>
    match s.ticks[p]? with
    | some (.read row now) => ¬ RepeatsNextMatch py row.config now
    | _ => True
  | _ => True

/-- A tick that skips or reserves finds the configuration and the active flag it read. -/
def FireSameConfig (s : State) (lookup : Lookup) : Option Tick → Prop
  | some (.read row now) =>
    skips row now lookup = true ∨ s.row.nextRunAt = row.nextRunAt →
      s.row.config = row.config ∧ s.row.active = row.active
  | _ => True

/-- So does a run that completes. -/
def DoneSameConfig (s : State) : Option Tick → Prop
  | some (.running row _ _) => s.row.config = row.config ∧ s.row.active = row.active
  | _ => True

/-- A tick that skips or reserves, and a run that completes, find the row with the configuration
and the active flag that their tick read. -/
def SameConfig (s : State) : Op → Prop
  | .fire p lookup => FireSameConfig s lookup s.ticks[p]?
  | .done p _ => DoneSameConfig s s.ticks[p]?
  | _ => True

instance : (op : Op) → Decidable (NoEdit op)
  | .sync .. => .isFalse not_false
  | .tick _ | .fire .. | .markRunning _ | .launch .. | .record _ | .done .. => .isTrue trivial

instance (s : State) (lookup : Lookup) : (t : Option Tick) → Decidable (SkipInPlace s lookup t)
  | some (.read row now) => inferInstanceAs
      (Decidable (skips row now lookup = true → s.row.nextRunAt = row.nextRunAt))
  | none | some (.reserved ..) | some (.launching ..) | some (.started ..)
  | some (.running ..) | some .closed => .isTrue trivial

instance (s : State) : (t : Option Tick) → Decidable (DoneInPlace s t)
  | some (.running _ _ written) => inferInstanceAs (Decidable (s.row.nextRunAt = written))
  | none | some (.read ..) | some (.reserved ..) | some (.launching ..) | some (.started ..)
  | some .closed => .isTrue trivial

instance (s : State) : (op : Op) → Decidable (InPlace s op)
  | .fire p lookup => inferInstanceAs (Decidable (SkipInPlace s lookup s.ticks[p]?))
  | .done p _ => inferInstanceAs (Decidable (DoneInPlace s s.ticks[p]?))
  | .tick _ | .markRunning _ | .launch .. | .record _ | .sync .. => .isTrue trivial

instance (s : State) (lookup : Lookup) : (t : Option Tick) → Decidable (FireSameConfig s lookup t)
  | some (.read row now) => inferInstanceAs
      (Decidable (skips row now lookup = true ∨ s.row.nextRunAt = row.nextRunAt →
        s.row.config = row.config ∧ s.row.active = row.active))
  | none | some (.reserved ..) | some (.launching ..) | some (.started ..)
  | some (.running ..) | some .closed => .isTrue trivial

instance (s : State) : (t : Option Tick) → Decidable (DoneSameConfig s t)
  | some (.running row _ _) => inferInstanceAs
      (Decidable (s.row.config = row.config ∧ s.row.active = row.active))
  | none | some (.read ..) | some (.reserved ..) | some (.launching ..) | some (.started ..)
  | some .closed => .isTrue trivial

instance (s : State) : (op : Op) → Decidable (SameConfig s op)
  | .fire p lookup => inferInstanceAs (Decidable (FireSameConfig s lookup s.ticks[p]?))
  | .done p _ => inferInstanceAs (Decidable (DoneSameConfig s s.ticks[p]?))
  | .tick _ | .markRunning _ | .launch .. | .record _ | .sync .. => .isTrue trivial

/-! ## 4. Ticks in progress -/

/-- What is known of a tick: the slot it read was due, and what it wrote is the next run of its
configuration at its moment. -/
def TickOk : Tick → Prop
  | .read row now => row.active = true ∧ ∃ slot, row.nextRunAt = some slot ∧ slot ≤ now
  | .reserved row now written | .launching row now written | .started row now written _
  | .running row now written =>
    row.active = true ∧ computeNextRun py row.config now = .ok written
  | .closed => True

variable {py} {s s' : State} {p : Nat}

theorem tickOk_set {tick : Tick} (h : ∀ t ∈ s.ticks, TickOk py t) (htick : TickOk py tick) :
    ∀ t ∈ (s.setTick p tick).ticks, TickOk py t := by
  intro t ht
  rcases List.mem_or_eq_of_mem_set ht with hold | rfl
  · exact h t hold
  · exact htick

theorem tickOk_get {tick : Tick} (h : ∀ t ∈ s.ticks, TickOk py t)
    (hp : s.ticks[p]? = some tick) : TickOk py tick :=
  h tick (List.mem_of_getElem? hp)

/-- A row that is due is armed, for a slot that has come. -/
theorem isDue_ok {row : Row} {now : Int} (h : isDue row now = true) : TickOk py (.read row now) := by
  unfold isDue at h
  simp only [Bool.and_eq_true] at h
  obtain ⟨⟨_, hactive⟩, hslot⟩ := h
  refine ⟨hactive, ?_⟩
  cases hnext : row.nextRunAt with
  | none =>
    rw [hnext] at hslot
    cases hslot
  | some slot =>
    rw [hnext] at hslot
    exact ⟨slot, rfl, of_decide_eq_true hslot⟩

/-- **One step keeps what is known of the ticks**, whatever the order of the operations. -/
theorem step_tickOk {op : Op} (h : ∀ t ∈ s.ticks, TickOk py t) (hs : step py s op = some s') :
    ∀ t ∈ s'.ticks, TickOk py t := by
  cases op with
  | tick now =>
    unfold step at hs
    dsimp only at hs
    split at hs
    · rename_i hdue
      cases hs
      intro t ht
      rcases List.mem_append.mp ht with hold | hnew
      · exact h t hold
      · rw [List.mem_singleton.mp hnew]
        exact isDue_ok hdue
    · cases hs
  | fire p lookup =>
    unfold step stepFire at hs
    dsimp only at hs
    split at hs
    · rename_i row now hp
      obtain ⟨hactive, _⟩ := tickOk_get h hp
      split at hs
      · cases hs
        exact tickOk_set h trivial
      · rename_i next hnext
        split at hs
        · cases hs
          exact tickOk_set (s := (s.arm next).serve row false) h trivial
        · split at hs
          · cases hs
            exact tickOk_set (s := (s.arm next).serve row true) h ⟨hactive, hnext⟩
          · cases hs
            exact tickOk_set h trivial
    · cases hs
  | markRunning p =>
    unfold step at hs
    dsimp only at hs
    split at hs
    · rename_i row now written hp
      cases hs
      exact tickOk_set (s := s.withRow _) h (tickOk_get h hp :)
    · cases hs
  | launch p outcome =>
    unfold step stepLaunch at hs
    dsimp only at hs
    split at hs
    · rename_i row now written hp
      split at hs
      · cases hs
        exact tickOk_set h (tickOk_get h hp :)
      · cases hs
        exact tickOk_set (s := s.withRow _) h trivial
      · cases hs
        exact tickOk_set (s := s.withRow _) h trivial
    · cases hs
  | record p =>
    unfold step at hs
    dsimp only at hs
    split at hs
    · rename_i row now written runId hp
      cases hs
      exact tickOk_set (s := s.withRow _) h (tickOk_get h hp :)
    · cases hs
  | done p final =>
    unfold step stepDone at hs
    dsimp only at hs
    split at hs
    · split at hs
      · cases hs
        exact tickOk_set h trivial
      · cases hs
        exact tickOk_set (s := s.withRow _) h trivial
    · cases hs
  | sync secrets integrations ownerId spec status now =>
    unfold step at hs
    dsimp only at hs
    split at hs
    · cases hs
      exact h
    · cases hs

/-! ## 5. What a step can do to the row

Both laws below follow from this one case analysis. -/

/-- The columns a law is about, left as they are. -/
structure Untouched (row row' : Row) : Prop where
  kind : row'.kind = row.kind
  config : row'.config = row.config

/-- The effect of one operation on the row and on the slots served. -/
inductive Effect (py : Python) (s s' : State) : Op → Prop
  /-- Nothing that fires the workflow changes. -/
  | tame {op : Op} : Untouched s.row s'.row → s'.row.active = s.row.active →
      s'.row.nextRunAt = s.row.nextRunAt → s'.served = s.served → s'.fired = s.fired →
      Effect py s s' op
  /-- The row is disarmed. -/
  | disarmed {op : Op} : Untouched s.row s'.row → s'.row.active = false →
      s'.row.nextRunAt = none → s'.served = s.served → s'.fired = s.fired → Effect py s s' op
  /-- A tick skips its slot. -/
  | skipped {p : Nat} {lookup : Lookup} {row : Row} {now : Int} {next : Option Int} :
      s.ticks[p]? = some (.read row now) → computeNextRun py row.config now = .ok next →
      skips row now lookup = true → Untouched s.row s'.row → s'.row.active = s.row.active →
      s'.row.nextRunAt = next → s'.served = row.nextRunAt.toList ++ s.served →
      s'.fired = s.fired → Effect py s s' (.fire p lookup)
  /-- A tick reserves its slot. -/
  | reserved {p : Nat} {lookup : Lookup} {row : Row} {now : Int} {next : Option Int} :
      s.ticks[p]? = some (.read row now) → computeNextRun py row.config now = .ok next →
      s.row.nextRunAt = row.nextRunAt → Untouched s.row s'.row → s'.row.active = s.row.active →
      s'.row.nextRunAt = next → s'.served = row.nextRunAt.toList ++ s.served →
      s'.fired = row.nextRunAt.toList ++ s.fired → Effect py s s' (.fire p lookup)
  /-- A run completes. -/
  | completed {p : Nat} {final : String} {row : Row} {now : Int} {written next : Option Int} :
      s.ticks[p]? = some (.running row now written) →
      computeNextRun py row.config now = .ok next → Untouched s.row s'.row →
      s'.row.active = s.row.active → s'.row.nextRunAt = next → s'.served = s.served →
      s'.fired = s.fired → Effect py s s' (.done p final)
  /-- The workflow was edited. -/
  | synced {secrets : Secrets} {integrations : List String} {ownerId : String} {spec : Dict}
      {status : String} {now : Int} :
      syncTrigger py secrets integrations ownerId spec status now (some s.row) = .ok s'.row →
      Effect py s s' (.sync secrets integrations ownerId spec status now)

/-- **Every operation has one of these effects.** -/
theorem step_effect {op : Op} (hs : step py s op = some s') : Effect py s s' op := by
  cases op with
  | tick now =>
    unfold step at hs
    dsimp only at hs
    split at hs
    · cases hs
      exact .tame ⟨rfl, rfl⟩ rfl rfl rfl rfl
    · cases hs
  | fire p lookup =>
    unfold step stepFire at hs
    dsimp only at hs
    split at hs
    · rename_i row now hp
      split at hs
      · cases hs
        exact .tame ⟨rfl, rfl⟩ rfl rfl rfl rfl
      · rename_i next hnext
        split at hs
        · rename_i hskip
          cases hs
          exact .skipped hp hnext hskip ⟨rfl, rfl⟩ rfl rfl rfl rfl
        · split at hs
          · rename_i hsame
            cases hs
            exact .reserved hp hnext hsame ⟨rfl, rfl⟩ rfl rfl rfl rfl
          · cases hs
            exact .tame ⟨rfl, rfl⟩ rfl rfl rfl rfl
    · cases hs
  | markRunning p =>
    unfold step at hs
    dsimp only at hs
    split at hs
    · cases hs
      exact .tame ⟨rfl, rfl⟩ rfl rfl rfl rfl
    · cases hs
  | launch p outcome =>
    unfold step stepLaunch at hs
    dsimp only at hs
    split at hs
    · split at hs
      · cases hs
        exact .tame ⟨rfl, rfl⟩ rfl rfl rfl rfl
      · cases hs
        exact .disarmed ⟨rfl, rfl⟩ rfl rfl rfl rfl
      · cases hs
        exact .tame ⟨rfl, rfl⟩ rfl rfl rfl rfl
    · cases hs
  | record p =>
    unfold step at hs
    dsimp only at hs
    split at hs
    · cases hs
      exact .tame ⟨rfl, rfl⟩ rfl rfl rfl rfl
    · cases hs
  | done p final =>
    unfold step stepDone at hs
    dsimp only at hs
    split at hs
    · rename_i row now written hp
      split at hs
      · cases hs
        exact .tame ⟨rfl, rfl⟩ rfl rfl rfl rfl
      · rename_i next hnext
        cases hs
        exact .completed hp hnext ⟨rfl, rfl⟩ rfl rfl rfl rfl
    · cases hs
  | sync secrets integrations ownerId spec status now =>
    unfold step at hs
    dsimp only at hs
    split at hs
    · rename_i row hsync
      cases hs
      exact .synced hsync
    · cases hs

/-! ## 6. A slot is served once -/

/-- Every slot served is behind the one the row holds. -/
structure SlotInv (py : Python) (s : State) : Prop where
  ticks : ∀ t ∈ s.ticks, TickOk py t
  ahead : ∀ slot, s.row.nextRunAt = some slot → ∀ y ∈ s.served, y < slot
  firedServed : ∀ y ∈ s.fired, y ∈ s.served
  firedOnce : s.fired.Nodup

/-- Serving the slot that the row holds, and moving past the moment of the tick. -/
theorem ahead_of_serve {row : Row} {now : Int} {next : Option Int}
    (h : SlotInv py s) (hp : s.ticks[p]? = some (.read row now))
    (hnext : computeNextRun py row.config now = .ok next)
    (hmoves : ¬ RepeatsNextMatch py row.config now) (hsame : s.row.nextRunAt = row.nextRunAt) :
    ∀ slot, next = some slot → ∀ y ∈ row.nextRunAt.toList ++ s.served, y < slot := by
  rintro slot rfl y hy
  obtain ⟨_, due, hdue, hle⟩ := tickOk_get h.ticks hp
  have hlater : now < slot := (computeNextRun_later_iff py row.config now).mpr hmoves slot hnext
  rw [hdue] at hy hsame
  rcases List.mem_append.mp hy with hy | hy
  · have : y = due := by simpa using hy
    omega
  · have := h.ahead due hsame y hy
    omega

/-- The slot the row holds was not served before. -/
theorem not_served {row : Row} (h : SlotInv py s) (hsame : s.row.nextRunAt = row.nextRunAt) :
    ∀ y ∈ row.nextRunAt.toList, y ∉ s.served := by
  intro y hy hserved
  have hslot : s.row.nextRunAt = some y := by
    rw [hsame]
    simpa using hy
  exact absurd (h.ahead y hslot y hserved) (lt_irrefl y)

theorem SlotInv.step {op : Op} (h : SlotInv py s) (hedit : NoEdit op) (hplace : InPlace s op)
    (hclock : ClockMovesOn py s op) (hs : step py s op = some s') : SlotInv py s' := by
  have hticks := step_tickOk h.ticks hs
  cases step_effect hs with
  | tame _ _ hnext hserved hfired =>
    refine ⟨hticks, ?_, ?_, ?_⟩
    · rw [hnext, hserved]
      exact h.ahead
    · rw [hfired, hserved]
      exact h.firedServed
    · rw [hfired]
      exact h.firedOnce
  | disarmed _ _ hnext hserved hfired =>
    refine ⟨hticks, ?_, ?_, ?_⟩
    · intro slot hslot
      rw [hnext] at hslot
      cases hslot
    · rw [hfired, hserved]
      exact h.firedServed
    · rw [hfired]
      exact h.firedOnce
  | skipped hp hcompute hskip _ _ hnext hserved hfired =>
    simp only [InPlace, SkipInPlace, hp] at hplace
    simp only [ClockMovesOn, hp] at hclock
    refine ⟨hticks, ?_, ?_, ?_⟩
    · rw [hnext, hserved]
      exact ahead_of_serve h hp hcompute hclock (hplace hskip)
    · rw [hfired, hserved]
      exact fun y hy => List.mem_append_right _ (h.firedServed y hy)
    · rw [hfired]
      exact h.firedOnce
  | reserved hp hcompute hsame _ _ hnext hserved hfired =>
    simp only [ClockMovesOn, hp] at hclock
    refine ⟨hticks, ?_, ?_, ?_⟩
    · rw [hnext, hserved]
      exact ahead_of_serve h hp hcompute hclock hsame
    · rw [hfired, hserved]
      intro y hy
      rcases List.mem_append.mp hy with hy | hy
      · exact List.mem_append_left _ hy
      · exact List.mem_append_right _ (h.firedServed y hy)
    · rw [hfired]
      refine List.Nodup.append (by cases Row.nextRunAt _ <;> simp) h.firedOnce ?_
      intro y hy hold
      exact not_served h hsame y hy (h.firedServed y hold)
  | completed hp hcompute _ _ hnext hserved hfired =>
    -- In place, the completion writes what its reservation wrote.
    simp only [InPlace, DoneInPlace, hp] at hplace
    obtain ⟨_, hwritten⟩ := tickOk_get h.ticks hp
    have hkept : s'.row.nextRunAt = s.row.nextRunAt := by
      rw [hnext, hplace]
      exact Except.ok.inj (hcompute.symm.trans hwritten)
    refine ⟨hticks, ?_, ?_, ?_⟩
    · rw [hkept, hserved]
      exact h.ahead
    · rw [hfired, hserved]
      exact h.firedServed
    · rw [hfired]
      exact h.firedOnce
  | synced => exact hedit.elim

/-- **A slot is served at most once**, in every run without an edit in which every tick that skips
and every completion finds in the row what its own tick read or wrote there, and no tick falls in
a repeated stretch of the clock. -/
theorem slots_served_once (py : Python) (row : Row) {s : State}
    (h : Reach (step py) (fun s op => NoEdit op ∧ InPlace s op ∧ ClockMovesOn py s op)
      (start row) s) : ServedOnce s := by
  have hinv : SlotInv py s := h.invariant
    ⟨fun t ht => (nomatch ht), fun _ _ y hy => (nomatch hy), fun y hy => (nomatch hy),
      List.nodup_nil⟩
    fun _ _ _ hinv hok hs => hinv.step hok.1 hok.2.1 hok.2.2 hs
  exact ⟨fun slot hslot hserved => lt_irrefl slot (hinv.ahead slot hslot slot hserved),
    hinv.firedOnce⟩

/-! ## 7. The row follows its configuration -/

/-- The row is one that its configuration explains. -/
structure ConfigInv (py : Python) (s : State) : Prop where
  ticks : ∀ t ∈ s.ticks, TickOk py t
  kind : s.row.kind = kindOf s.row.config
  synced : Synced py s.row

/-- A synchronisation arms the row by its new configuration. -/
theorem synced_of_sync {secrets : Secrets} {integrations : List String} {ownerId : String}
    {spec : Dict} {status : String} {now : Int} {existing : Option Row} {row : Row}
    (h : syncTrigger py secrets integrations ownerId spec status now existing = .ok row) :
    row.kind = kindOf row.config ∧ Synced py row := by
  obtain ⟨hkind, hconfig, _, harmed⟩ := syncTrigger_ok h
  refine ⟨by rw [hkind, hconfig], ⟨?_, ?_⟩⟩
  · intro hactive hschedule next hnext
    unfold armedFor at harmed
    rw [if_pos ⟨hactive, hkind ▸ hschedule⟩, hnext] at harmed
    exact ⟨now, by rw [hconfig]; exact harmed⟩
  · intro hactive
    unfold armedFor at harmed
    rw [hactive, if_neg (by simp), if_neg (by simp)] at harmed
    exact (Except.ok.inj harmed).symm

/-- A next run of the configuration that the row has keeps the row explained. -/
theorem Synced.arm {row : Row} {now : Int} {next : Option Int} (hactive : row.active = true)
    (hnext : row.nextRunAt = next) (hcompute : computeNextRun py row.config now = .ok next) :
    Synced py row where
  armed := by
    rintro _ _ slot hslot
    rw [hnext] at hslot
    exact ⟨now, hslot ▸ hcompute⟩
  disarmed h := by
    rw [hactive] at h
    cases h

/-- What a write that leaves kind, configuration, flag and next run leaves of the law. -/
theorem Synced.of_eq {row row' : Row} (h : Synced py row) (hrow : Untouched row row')
    (hactive : row'.active = row.active) (hnext : row'.nextRunAt = row.nextRunAt) :
    Synced py row' where
  armed := by
    rw [hactive, hrow.kind, hnext, hrow.config]
    exact h.armed
  disarmed := by
    rw [hactive, hnext]
    exact h.disarmed

theorem ConfigInv.step {op : Op} (h : ConfigInv py s) (hok : SameConfig s op)
    (hs : step py s op = some s') : ConfigInv py s' := by
  have hticks := step_tickOk h.ticks hs
  have hkind : Untouched s.row s'.row → s'.row.kind = kindOf s'.row.config := by
    intro hrow
    rw [hrow.kind, hrow.config]
    exact h.kind
  cases step_effect hs with
  | tame hrow hactive hnext => exact ⟨hticks, hkind hrow, h.synced.of_eq hrow hactive hnext⟩
  | disarmed hrow hactive hnext =>
    refine ⟨hticks, hkind hrow, ⟨?_, fun _ => hnext⟩⟩
    intro htrue
    rw [hactive] at htrue
    cases htrue
  | skipped hp hcompute hskip hrow hactive hnext =>
    simp only [SameConfig, FireSameConfig, hp] at hok
    obtain ⟨hconfig, hflag⟩ := hok (Or.inl hskip)
    obtain ⟨hread, _⟩ := tickOk_get h.ticks hp
    rw [← hconfig, ← hrow.config] at hcompute
    exact ⟨hticks, hkind hrow, .arm (by rw [hactive, hflag, hread]) hnext hcompute⟩
  | reserved hp hcompute hsame hrow hactive hnext =>
    simp only [SameConfig, FireSameConfig, hp] at hok
    obtain ⟨hconfig, hflag⟩ := hok (Or.inr hsame)
    obtain ⟨hread, _⟩ := tickOk_get h.ticks hp
    rw [← hconfig, ← hrow.config] at hcompute
    exact ⟨hticks, hkind hrow, .arm (by rw [hactive, hflag, hread]) hnext hcompute⟩
  | completed hp hcompute hrow hactive hnext =>
    simp only [SameConfig, DoneSameConfig, hp] at hok
    obtain ⟨hread, _⟩ := tickOk_get h.ticks hp
    rw [← hok.1, ← hrow.config] at hcompute
    exact ⟨hticks, hkind hrow, .arm (by rw [hactive, hok.2, hread]) hnext hcompute⟩
  | synced hsync =>
    obtain ⟨hrow, hsynced⟩ := synced_of_sync hsync
    exact ⟨hticks, hrow, hsynced⟩

/-- **The row follows its configuration**, from its first synchronisation on, in every run in
which each tick that skips or reserves, and each completion, finds the configuration and the
active flag that its own tick read. -/
theorem schedule_follows_config {py : Python} {secrets : Secrets} {integrations : List String}
    {ownerId : String} {spec : Dict} {status : String} {now : Int} {row : Row}
    (hrow : syncTrigger py secrets integrations ownerId spec status now none = .ok row) {s : State}
    (h : Reach (step py) SameConfig (start row) s) : Synced py s.row := by
  obtain ⟨hkind, hsynced⟩ := synced_of_sync hrow
  have hinv : ConfigInv py s := h.invariant ⟨fun t ht => (nomatch ht), hkind, hsynced⟩
    fun _ _ _ hinv hok hs => hinv.step hok hs
  exact hinv.synced

/-! ## 8. Runs on a schedule of every hour -/

/-- Secrets for runs on concrete data. -/
def sampleSecrets : Secrets := ⟨"token", "secret", id, id⟩

/-- The row of a published workflow of every hour, first synchronised at moment 0. -/
def hourlyRow : Row where
  ownerId := "ana"
  kind := .str "schedule"
  config := everyHour
  active := true
  nextRunAt := some microsPerHour
  lastStatus := none
  lastRunId := none
  lastFiredAt := none
  tokenHash := none
  tokenEncrypted := none
  hmacEnabled := false
  hmacSecretEncrypted := none

theorem hourlyRow_synced : syncTrigger samplePythonUtc sampleSecrets [] "ana" everyHour
    "published" 0 none = .ok hourlyRow := by decide

/-- The operations of tick `p` at `now`, up to its run in progress. -/
def launchRun (p : Nat) (now : Int) (lookup : Lookup) (runId : String) : List Op :=
  [.tick now, .fire p lookup, .markRunning p, .launch p (.started runId), .record p]

theorem clockMovesOn_utc (s : State) (op : Op) : ClockMovesOn samplePythonUtc s op := by
  cases op with
  | fire p lookup =>
    unfold ClockMovesOn
    dsimp only
    split
    · exact not_repeats_of_constant samplePythonUtc_constant
    · trivial
  | _ => trivial

/-- Two slots, the first run over before the second comes. -/
theorem slots_served_once_twice : ∃ s : State, ServedOnce s ∧
    s.fired = [2 * microsPerHour, microsPerHour] := by
  have hrun : (replay (step samplePythonUtc) (fun s op => NoEdit op ∧ InPlace s op)
      (start hourlyRow) (launchRun 0 microsPerHour .absent "first" ++ [.done 0 "success"] ++
        launchRun 1 (2 * microsPerHour) .absent "second")).map State.fired =
      some [2 * microsPerHour, microsPerHour] := by decide
  obtain ⟨s, hs, hfired⟩ := Option.map_eq_some_iff.mp hrun
  have hreach := (Reach.of_replay _ hs).mono
    fun s op hok => (⟨hok.1, hok.2, clockMovesOn_utc s op⟩ :
      NoEdit op ∧ InPlace s op ∧ ClockMovesOn samplePythonUtc s op)
  exact ⟨s, slots_served_once samplePythonUtc hourlyRow hreach, hfired⟩

/-- **A completion puts a slot back.**  The run of the first slot is recorded as over when the
second slot comes, so that slot is fired; then the first run's completion is handled, writes the
second slot again, and it is fired a second time. -/
theorem completion_moves_back :
    ¬ ∀ (py : Python) (secrets : Secrets) (spec : Dict) (now : Int) (row : Row) (s : State),
      syncTrigger py secrets [] "ana" spec "published" now none = .ok row →
      Reach (step py) (fun _ op => NoEdit op) (start row) s → ServedOnce s := by
  intro hall
  have hrun : (replay (step samplePythonUtc) (fun _ op => NoEdit op) (start hourlyRow)
      (launchRun 0 microsPerHour .absent "first" ++
        launchRun 1 (2 * microsPerHour) (.found .success) "second" ++
        [.done 0 "success"] ++
        launchRun 2 (2 * microsPerHour + 30000000) (.found .running) "third")).map State.fired =
      some [2 * microsPerHour, 2 * microsPerHour, microsPerHour] := by decide
  obtain ⟨s, hs, hfired⟩ := Option.map_eq_some_iff.mp hrun
  have honce := (hall _ _ _ _ _ s hourlyRow_synced (Reach.of_replay _ hs)).firedOnce
  rw [hfired] at honce
  exact absurd honce (by decide)

/-- A schedule of every hour, at half past. -/
def atHalfPast : Dict :=
  [("kind", .str "schedule"), ("cron", .str "30 * * * *"), ("timezone", .str "UTC")]

/-- An edit to half past, after the first slot. -/
def editToHalfPast : Op :=
  .sync sampleSecrets [] "ana" atHalfPast "published" (microsPerHour + microsPerMinute)

/-- The first run ends before the edit: the row follows its configuration. -/
theorem schedule_follows_config_edited : ∃ s : State, Synced samplePythonUtc s.row ∧
    s.row.nextRunAt = some (microsPerHour + 30 * microsPerMinute) := by
  have hrun : (replay (step samplePythonUtc) SameConfig (start hourlyRow)
      (launchRun 0 microsPerHour .absent "first" ++ [.done 0 "success", editToHalfPast])).map
        (·.row.nextRunAt) = some (some (microsPerHour + 30 * microsPerMinute)) := by decide
  obtain ⟨s, hs, hnext⟩ := Option.map_eq_some_iff.mp hrun
  exact ⟨s, schedule_follows_config hourlyRow_synced (Reach.of_replay _ hs), hnext⟩

/-- **A completion restores the old schedule.**  The workflow is moved to half past while its
first run is in progress; the completion arms the row on the hour again. -/
theorem completion_restores_old_schedule :
    ¬ ∀ (py : Python) (secrets : Secrets) (spec : Dict) (now : Int) (row : Row) (s : State),
      syncTrigger py secrets [] "ana" spec "published" now none = .ok row →
      Reach (step py) anyStep (start row) s → s.settled = true → Synced py s.row := by
  intro hall
  have hrun : (replay (step samplePythonUtc) anyStep (start hourlyRow)
      (launchRun 0 microsPerHour .absent "first" ++ [editToHalfPast, .done 0 "success"])).map
        (fun s => (s.settled, s.row)) =
      some (true, { hourlyRow with
        config := atHalfPast
        nextRunAt := some (2 * microsPerHour)
        lastStatus := some "success"
        lastRunId := some "first"
        lastFiredAt := some microsPerHour }) := by decide
  obtain ⟨s, hs, hend⟩ := Option.map_eq_some_iff.mp hrun
  obtain ⟨hsettled, hrow⟩ := Prod.mk.inj hend
  have hsynced := hall _ _ _ _ _ s hourlyRow_synced (Reach.of_replay _ hs) hsettled
  rw [hrow] at hsynced
  obtain ⟨after, hafter⟩ := hsynced.armed rfl rfl _ rfl
  -- The row holds two o'clock; its configuration only matches half past.
  have hfields : (cronOf atHalfPast).toOption.map (·.minute.values) = some [30] := by decide
  obtain ⟨fields, hparse, hminute⟩ := Option.map_eq_some_iff.mp hfields
  have hcron : cronOf atHalfPast = .ok fields := by
    cases hc : cronOf atHalfPast with
    | error e =>
      rw [hc] at hparse
      cases hparse
    | ok f =>
      rw [hc] at hparse
      exact congrArg Except.ok (Option.some.inj hparse)
  obtain ⟨w, hmatch, hw⟩ := computeNextRun_matches
    (show samplePythonUtc.zone (timezoneName atHalfPast) = .ok (.fixed 0) from rfl) (by decide)
    hcron hafter
  have hon := hmatch.minute
  rw [show w = 2 * microsPerHour by rw [← hw, Zone.toUtc_fixed]; omega] at hon
  simp only [CronField.has, hminute] at hon
  exact absurd hon (by decide)

end Apowerb.Trigger
