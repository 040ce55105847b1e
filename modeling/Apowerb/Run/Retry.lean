/-
# Resuming a failed run, again and again

A run that fails on a node keeps a snapshot of what was done (`failure_state`).  `prepare_retry`
takes it by a guarded UPDATE, writes the row of a new run and copies the snapshot there; a retry
that does not come to an end gives it back (`_give_back_retry`).  The chain of a failed run is the
run, its retries, the retries of these, and so on.

Each run of the chain is the machine of `Run.Pause`: it pauses, is answered, stops, expires, is
reconciled, ends.  Around it: the saving of a failure (`save_failure`), the purge of the snapshots
that have expired, and any number of calls of `prepare_retry`.

* `snapshot_kept`: at most one run of the chain holds a snapshot, and a chain that is over without
  a success holds one, on a run in error; where no run that holds one is closed by an abandonment
  or by the stop of an unanswered resumption, no process acts on a run that is no longer its own,
  and no retry dies between taking the snapshot and writing its copy.
* `abandoned_retry_loses_snapshot`: a retry that pauses and is abandoned keeps the snapshot in a
  cancelled run.
-/
import Apowerb.Lib.Replace
import Apowerb.Run.Pause

namespace Apowerb.Run.Retries

open Runs

variable {γ κ : Type}

/-! ## 1. The snapshot of a failure -/

/-- What a failed run saves (`_save_failure`).  `rest` is what only the engine reads: payload,
outputs, routes, artifacts, handled errors, bound. -/
structure Failure (γ κ : Type) where
  failedNode : Option String
  graph : γ
  rest : κ

/-- `_seal` and `_unseal`.  A sealed text is never empty. -/
structure FailureVault (γ κ : Type) where
  sealText : Nat → Failure γ κ → String
  unsealText : String → Option (Failure γ κ)
  sealText_ne : ∀ nonce failure, sealText nonce failure ≠ ""

/-- `RETRY_STATE_TTL`, in days. -/
def retryStateDays : Nat := 7

def retryStateTtl : Int := retryStateDays * 24 * microsPerHour

/-- Did the run finish too long ago for its snapshot to be kept? -/
def isPastTtl (clk : Clock) (row : Row) : Bool :=
  match row.finishedAt with
  | none => false
  | some finished => finished ≤ clk.localNow - retryStateTtl

/-- `_purge_failure_states` on this row. -/
def purgeFailureState (clk : Clock) (row : Row) : Row :=
  if row.failureState ≠ none ∧ isPastTtl clk row then { row with failureState := none } else row

/-- `save_failure`, after its purge.  The update is guarded by the run's id only. -/
def saveFailure (W : FailureVault γ κ) (nonce : Nat) (failure : Failure γ κ) (row : Row) : Row :=
  { row with
    failureState := some (W.sealText nonce failure)
    failureNode := failure.failedNode }

/-- Why a retry is refused. -/
inductive Refusal
  | unknownRun (runId : String)
  | notFailed (status : Status)
  | alreadyStarted (runId : Option String)
  | expired (days : Nat)
  | unavailable
  | stateUnreadable
deriving DecidableEq, Repr

/-- `_retry_refusal`: why a failed run has no snapshot left.  `children` are the runs that cite
it. -/
def retryRefusal (children : List Row) (clk : Clock) (row : Row) : Refusal :=
  match (children.filter (·.isRetry)).maxOn? fun child => child.createdAt.getD 0 with
  | some child => .alreadyStarted (some child.runId)
  | none =>
    if truthy row.failureNode ∧ isPastTtl clk row then .expired retryStateDays
    else if truthy row.failureNode then .alreadyStarted none
    else .unavailable

/-- The read of `prepare_retry`.  A snapshot that no longer opens is removed. -/
def readFailure (W : FailureVault γ κ) (owner : String) (children : List Row) (clk : Clock)
    (row : Row) : Row × Except Refusal (Failure γ κ) :=
  if row.ownerId ≠ owner then (row, .error (.unknownRun row.runId))
  else if row.status ≠ .error then (row, .error (.notFailed row.status))
  else if ! truthy row.failureState then (row, .error (retryRefusal children clk row))
  else
    match W.unsealText (row.failureState.getD "") with
    | some failure => (row, .ok failure)
    | none => ({ row with failureState := none, failureNode := none }, .error .stateUnreadable)

/-! ## 2. The machine -/

/-- A run of the chain. -/
structure Member (κ : Type) where
  run : Run.State κ
  /-- `replay_of`: the run it retries. -/
  replayOf : Option Nat

def Member.row (m : Member κ) : Row := m.run.row

def Member.withRow (m : Member κ) (row : Row) : Member κ := { m with run := m.run.withRow row }

/-- The run, with the snapshot that `m` carries. -/
def Member.receive (original m : Member κ) : Member κ :=
  original.withRow { original.row with
    failureState := m.row.failureState
    failureNode := m.row.failureNode }

/-- Does the run hold the snapshot of a failure? -/
def Member.holds (m : Member κ) : Bool := m.row.failureState.isSome

/-- What the purge does to a run. -/
def purged (clk : Clock) (m : Member κ) : Member κ := m.withRow (purgeFailureState clk m.row)

/-- Where a call of `prepare_retry` stands. -/
inductive Stage (γ κ : Type)
  /-- It holds the snapshot it read; the workflow and its graph are being checked. -/
  | read (failure : Failure γ κ)
  /-- Its UPDATE went through. -/
  | taken (failure : Failure γ κ)
  /-- The row of the retry is written. -/
  | opened (failure : Failure γ κ) (child : Nat)
  | refused (why : Refusal)
  /-- It returned, or died. -/
  | over

structure Call (γ κ : Type) where
  /-- The run to retry. -/
  source : Nat
  stage : Stage γ κ

/-- The call took the snapshot and has not copied it yet. -/
def Call.inHand (c : Call γ κ) : Bool :=
  match c.stage with
  | .taken _ | .opened _ _ => true
  | _ => false

structure State (γ κ : Type) where
  members : List (Member κ)
  calls : List (Call γ κ)
  /-- Ghost: a snapshot of the chain was purged. -/
  expired : Bool

inductive Op (γ κ : Type)
  /-- A transaction on one run (`Run.Pause`). -/
  | act (i : Nat) (op : Run.Op κ)
  /-- A process of the run fails on a node and saves the snapshot. -/
  | saveFailure (i p nonce : Nat) (failure : Failure γ κ)
  /-- `_purge_failure_states`, by any reader. -/
  | purge (clk : Clock)
  /-- The read of `prepare_retry`. -/
  | prepare (i : Nat) (owner : String) (clk : Clock)
  /-- Its UPDATE, once its checks passed. -/
  | take (j : Nat) (clk : Clock)
  /-- Its `start_run`. -/
  | startRun (j : Nat) (runId : String) (createdAt : Int)
  /-- Its `save_failure`, which may fail; the retry then starts. -/
  | copy (j nonce : Nat) (graph : γ) (saved : Bool)
  /-- The process of the call dies, or a check refuses. -/
  | die (j : Nat)

/-- `_give_back_retry`: the snapshot of a retry goes back to the run it retries, if that run is in
error and holds none. -/
def giveBack (members : List (Member κ)) (i : Nat) : List (Member κ) :=
  match members[i]? with
  | none => members
  | some m =>
    match m.replayOf with
    | none => members
    | some a =>
      if truthy m.row.failureState ∧ m.row.isRetry then
        match members[a]? with
        | none => members
        | some original =>
          if original.row.status = .error ∧ original.row.failureState = none then
            members.set a (original.receive m)
          else members
      else members

/-- `finish_run` gives back when it cancels, whatever the status of the run; `_reconcile_if_orphaned`
when it settles a retry. -/
def givesBack (row : Row) : Run.Op κ → Bool
  | .finish _ status _ _ => status = .cancelled
  | .reconcile clk =>
    row.isRetry ∧ row.status = .running ∧ (reconcileIfOrphaned clk row).status = .error
  | _ => false

def stepAct (V : Vault κ) (s : State γ κ) (i : Nat) (op : Run.Op κ) : Option (State γ κ) :=
  match s.members[i]? with
  | none => none
  | some m =>
    match Run.step V m.run op with
    | none => none
    | some run =>
      let members := if givesBack m.row op then giveBack s.members i else s.members
      some { s with members := members.set i { m with run := run } }

/-- A process saves a failure while it executes nodes, those of a resumption before its decision
too. -/
def Party.executes : Party κ → Bool
  | .won _ | .executing => true
  | _ => false

/-- The rows of the runs that cite run `i`. -/
def State.children (s : State γ κ) (i : Nat) : List Row :=
  (s.members.filter fun m => m.replayOf = some i).map Member.row

def State.setCall (s : State γ κ) (j : Nat) (c : Call γ κ) (stage : Stage γ κ) : State γ κ :=
  { s with calls := s.calls.set j { c with stage := stage } }

def State.setRow (s : State γ κ) (i : Nat) (m : Member κ) (row : Row) : State γ κ :=
  { s with members := s.members.set i (m.withRow row) }

/-- The row of a retry: no process runs it before its call of `prepare_retry` returns. -/
def opened (runId owner : String) (createdAt : Int) : Run.State κ :=
  { (Run.start (startRow runId owner createdAt true) : Run.State κ) with
    parties := fun _ => .idle }

/-- The call, where it stands at this point, and the run it retries. -/
def State.call? (s : State γ κ) (j : Nat) : Option (Call γ κ × Member κ) :=
  match s.calls[j]? with
  | none => none
  | some c => (s.members[c.source]?).map fun m => (c, m)

def stepTake (s : State γ κ) (j : Nat) (clk : Clock) : Option (State γ κ) :=
  match s.call? j with
  | some (c, m) =>
    match c.stage with
    | .read failure =>
      if m.row.failureState ≠ none then
        some ((s.setRow c.source m { m.row with failureState := none }).setCall j c
          (.taken failure))
      else
        some (s.setCall j c (.refused (retryRefusal (s.children c.source) clk m.row)))
    | _ => none
  | none => none

def stepStartRun (s : State γ κ) (j : Nat) (runId : String) (createdAt : Int) :
    Option (State γ κ) :=
  match s.call? j with
  | some (c, m) =>
    match c.stage with
    | .taken failure =>
      some (State.setCall { s with
          members := s.members ++ [⟨opened runId m.row.ownerId createdAt, some c.source⟩] }
        j c (.opened failure s.members.length))
    | _ => none
  | none => none

/-- The copy has the graph of the last save; whether or not it is written, the retry starts. -/
def stepCopy (W : FailureVault γ κ) (s : State γ κ) (j nonce : Nat) (graph : γ) (saved : Bool) :
    Option (State γ κ) :=
  match s.calls[j]? with
  | some c =>
    match c.stage with
    | .opened failure child =>
      match s.members[child]? with
      | some m =>
        let row := if saved then saveFailure W nonce { failure with graph := graph } m.row else m.row
        some (State.setCall { s with
            members := s.members.set child
              { m with run := (m.run.withRow row).move 0 .executing } } j c .over)
      | none => none
    | _ => none
  | none => none

/-- One transaction; `none` where it cannot happen. -/
def step (V : Vault κ) (W : FailureVault γ κ) (s : State γ κ) : Op γ κ → Option (State γ κ)
  | .act i op => stepAct V s i op
  | .saveFailure i p nonce failure =>
    match s.members[i]? with
    | some m =>
      if Party.executes (m.run.parties p) then
        some (s.setRow i m (saveFailure W nonce failure m.row))
      else none
    | none => none
  | .purge clk =>
    some { s with
      members := s.members.map (purged clk)
      expired := s.expired || s.members.any fun m => m.holds && isPastTtl clk m.row }
  | .prepare i owner clk =>
    match s.members[i]? with
    | some m =>
      match readFailure W owner (s.children i) clk m.row with
      | (row, .ok failure) =>
        some { s.setRow i m row with calls := s.calls ++ [⟨i, .read failure⟩] }
      | (row, .error why) =>
        some { s.setRow i m row with calls := s.calls ++ [⟨i, .refused why⟩] }
    | none => none
  | .take j clk => stepTake s j clk
  | .startRun j runId createdAt => stepStartRun s j runId createdAt
  | .copy j nonce graph saved => stepCopy W s j nonce graph saved
  | .die j =>
    match s.calls[j]? with
    | some c => some (s.setCall j c .over)
    | none => none

/-- A run that failed, with its snapshot. -/
structure FailedRun (κ : Type) where
  run : Run.State κ
  failed : run.row.status = .error
  saved : truthy run.row.failureState = true

def start (root : FailedRun κ) : State γ κ := ⟨[⟨root.run, none⟩], [], false⟩

/-! ## 3. What is to hold -/

/-- Every run is over, and no call of `prepare_retry` is on its way with the snapshot. -/
def State.isOver (s : State γ κ) : Prop :=
  (∀ m ∈ s.members, m.row.status.isFinal) ∧ ∀ c ∈ s.calls, c.inHand = false

/-- The snapshot is neither lost nor duplicated. -/
structure Kept (s : State γ κ) : Prop where
  atMostOne : s.members.countP Member.holds ≤ 1
  /-- A chain that is over without a success can be retried, from one run. -/
  retryable : s.isOver → (∀ m ∈ s.members, m.row.status ≠ .success) → s.expired = false →
    s.members.countP (fun m => m.row.status = .error && m.holds) = 1

/-- What a transaction on one run is to find: a process that ends the run, or pauses it, finds it
open; who abandons it, or stops a resumption before its answer, finds no snapshot of a failure. -/
def Finds (run : Run.State κ) : Run.Op κ → Prop
  | .finish _ status _ _ =>
    run.row.status = .running ∨ (run.row.status = .awaiting ∧ status ≠ .cancelled)
  | .pause .. => run.row.status.isFinal = false
  | .abandon user clk =>
    run.row.failureState = none ∨ run.row.ownerId ≠ user ∨
      (expireDue clk (releaseDeadResumptions clk run.row)).status ≠ .awaiting
  | .stop p _ =>
    run.row.failureState = none ∨ ∀ c, run.parties p = .won c →
      ¬ (run.row.status = .running ∧ run.row.pausedState ≠ none ∧
        run.row.resumedAt = some c.resumedAt)
  | _ => True

/-- The condition. -/
def KeepsCopy (W : FailureVault γ κ) (s : State γ κ) : Op γ κ → Prop
  | .act i op => ∀ m ∈ s.members[i]?, Finds m.run op
  | .saveFailure i _ _ _ => ∀ m ∈ s.members[i]?, m.row.failureState ≠ none
  | .prepare i _ _ => ∀ m ∈ s.members[i]?, ∀ text ∈ m.row.failureState, W.unsealText text ≠ none
  | .copy j _ _ saved => saved ∧ ∀ c ∈ s.calls[j]?, ∀ failure child,
      c.stage = .opened failure child → ∀ m ∈ s.members[child]?, m.row.status.isFinal = false
  | .die j => ∀ c ∈ s.calls[j]?, c.inHand = false
  | .purge _ | .take .. | .startRun .. => True

/-! ## 4. What one transaction can do to the snapshot of its run -/

/-- May a run in this status hold the snapshot of a failure? -/
def Status.keeps : Status → Bool
  | .running | .awaiting | .error => true
  | .success | .cancelled => false

/-- A transaction that leaves the snapshot where it is. -/
structure Calm (row row' : Row) : Prop where
  snapshot : row'.failureState = row.failureState
  retry : row'.isRetry = row.isRetry
  owner : row'.ownerId = row.ownerId
  final : row.status.isFinal = true → row'.status = row.status
  keeps : row.failureState ≠ none → Status.keeps row.status = true →
    Status.keeps row'.status = true

theorem Calm.refl (row : Row) : Calm row row := ⟨rfl, rfl, rfl, fun _ => rfl, fun _ h => h⟩

theorem Calm.trans {row row' row'' : Row} (h : Calm row row') (h' : Calm row' row'') :
    Calm row row'' where
  snapshot := h'.snapshot.trans h.snapshot
  retry := h'.retry.trans h.retry
  owner := h'.owner.trans h.owner
  final hfinal := by
    have hsame := h.final hfinal
    rw [h'.final (by rw [hsame]; exact hfinal), hsame]
  keeps hholds hkeeps := h'.keeps (by rw [h.snapshot]; exact hholds) (h.keeps hholds hkeeps)

/-- A run that was open, and is in a status that may hold a snapshot. -/
theorem Calm.ofOpen {row row' : Row} (hsnapshot : row'.failureState = row.failureState)
    (hretry : row'.isRetry = row.isRetry) (howner : row'.ownerId = row.ownerId)
    (hopen : row.status.isFinal = false) (hkeeps : Status.keeps row'.status = true) :
    Calm row row' :=
  ⟨hsnapshot, hretry, howner, fun hfinal => absurd hfinal (by simp [hopen]), fun _ _ => hkeeps⟩

theorem expireDue_calm (clk : Clock) (row : Row) : Calm row (expireDue clk row) := by
  unfold expireDue
  split
  · rename_i hawait _
    split
    · exact .ofOpen rfl rfl rfl (by rw [hawait]; rfl) rfl
    · exact .refl row
  · exact .refl row

theorem releaseDeadResumptions_calm (clk : Clock) (row : Row) :
    Calm row (releaseDeadResumptions clk row) := by
  unfold releaseDeadResumptions
  split
  · rename_i hrunning _ _
    split
    · exact .ofOpen rfl rfl rfl (by rw [hrunning]; rfl) rfl
    · exact .refl row
  · exact .refl row

theorem releasePausedRun_calm (row : Row) : Calm row (releasePausedRun row) := by
  unfold releasePausedRun
  split
  · rename_i h
    exact .ofOpen rfl rfl rfl (by rw [h.1]; rfl) rfl
  · exact .refl row

theorem readDecision_calm (V : Vault κ) (user : String) (clk : Clock) (row : Row) :
    Calm row (readDecision V user clk row).1 := by
  unfold readDecision
  split
  · exact .refl row
  · rename_i data hdata
    obtain ⟨rfl, hawait, -⟩ := awaitingRow_ok hdata
    split
    · exact .refl _
    · exact .ofOpen rfl rfl rfl (by rw [hawait]; rfl) rfl

theorem markDecided_calm (resumedAt : Int) (row : Row) : Calm row (markDecided resumedAt row).1 := by
  unfold markDecided
  split
  · exact ⟨rfl, rfl, rfl, fun _ => rfl, fun _ h => h⟩
  · exact .refl row

/-- A run that holds no snapshot may be closed. -/
theorem stopUnansweredResume_calm {resumedAt : Int} {row : Row} (clk : Clock)
    (h : row.failureState = none ∨
      ¬ (row.status = .running ∧ row.pausedState ≠ none ∧ row.resumedAt = some resumedAt)) :
    Calm row (stopUnansweredResume resumedAt clk row) := by
  unfold stopUnansweredResume
  split
  · rename_i hguard
    rcases h with hnone | hmiss
    · refine ⟨rfl, rfl, rfl, fun hfinal => ?_, fun hholds => absurd hnone hholds⟩
      rw [hguard.1] at hfinal
      cases hfinal
    · exact absurd hguard hmiss
  · exact .refl row

theorem abandonPausedRun_calm {user : String} {row : Row} (lower : String → String) (clk : Clock)
    (h : row.failureState = none ∨ row.ownerId ≠ user ∨ row.status ≠ .awaiting) :
    Calm row (abandonPausedRun lower user clk row).1 := by
  unfold abandonPausedRun
  split
  · exact .refl row
  · rename_i data hdata
    obtain ⟨rfl, hawait, -⟩ := awaitingRow_ok hdata
    split
    · exact .refl _
    · rename_i howner
      rw [not_not] at howner
      rcases h with hnone | hother | hmoved
      · refine ⟨rfl, rfl, rfl, fun hfinal => ?_, fun hholds => absurd hnone hholds⟩
        rw [hawait] at hfinal
        cases hfinal
      · exact absurd howner hother
      · exact absurd hawait hmoved

/-- What a transaction does to the snapshot of its run. -/
inductive Effect (row : Row) (op : Run.Op κ) (row' : Row) : Prop
  | calm : givesBack row op = false → Calm row row' → Effect row op row'
  /-- The run succeeded: the snapshot has served. -/
  | succeeded : givesBack row op = false → row.status = .running → row'.status = .success →
      row'.failureState = none → row'.isRetry = row.isRetry → Effect row op row'
  /-- The run was cancelled or is lost: the snapshot was given back. -/
  | returned : givesBack row op = true → row.status = .running → row'.status.isFinal = true →
      row'.status ≠ .success → row'.failureState = none → row'.isRetry = row.isRetry →
      Effect row op row'

/-- The reconciliation does nothing, lets the run await again, or settles it. -/
theorem reconcileIfOrphaned_cases (clk : Clock) (row : Row) :
    reconcileIfOrphaned clk row = row ∨ row.status = .running ∧
      (reconcileIfOrphaned clk row = { row with status := .awaiting, resumedAt := none } ∨
        reconcileIfOrphaned clk row =
          { row with
            status := .error
            errorMessage := some settledMessage
            finishedAt := some clk.localNow
            failureState := if row.isRetry then none else row.failureState
            failureNode := if row.isRetry then none else row.failureNode }) := by
  unfold reconcileIfOrphaned
  split
  · exact .inl rfl
  · rename_i hrunning
    rw [not_not] at hrunning
    split
    · exact .inl rfl
    · split
      · exact .inl rfl
      · split
        · exact .inr ⟨hrunning, .inl rfl⟩
        · exact .inr ⟨hrunning, .inr rfl⟩

theorem reconcile_effect (clk : Clock) (row : Row) :
    Effect row (.reconcile clk : Run.Op κ) (reconcileIfOrphaned clk row) := by
  rcases reconcileIfOrphaned_cases clk row with hsame | ⟨hrunning, hawaits | hsettled⟩
  · refine .calm ?_ (by rw [hsame]; exact .refl row)
    by_cases hrunning : row.status = .running
    · simp [givesBack, hsame, hrunning]
    · simp [givesBack, hrunning]
  · refine .calm (by simp [givesBack, hawaits]) ?_
    rw [hawaits]
    exact .ofOpen rfl rfl rfl (by rw [hrunning]; rfl) rfl
  · cases hretry : row.isRetry with
    | true =>
      have hback : givesBack row (.reconcile clk : Run.Op κ) = true := by
        simp [givesBack, hretry, hrunning, hsettled]
      refine .returned hback hrunning ?_ ?_ ?_ ?_ <;> rw [hsettled]
      · rfl
      · exact Status.noConfusion
      · exact if_pos hretry
    | false =>
      refine .calm (by simp [givesBack, hretry]) ?_
      rw [hsettled]
      refine .ofOpen ?_ rfl rfl (by rw [hrunning]; rfl) rfl
      simp [hretry]

theorem finish_effect {status : Status} {row : Row} (p : Nat) (message : Option String)
    (clk : Clock) (hfinal : status.isFinal = true)
    (hfinds : row.status = .running ∨ (row.status = .awaiting ∧ status ≠ .cancelled)) :
    Effect row (.finish p status message clk : Run.Op κ) (finishRun status message clk row) := by
  rcases hfinds with hrunning | ⟨hawait, hne⟩
  · have hwrites : row.status ≠ .awaiting := by
      rw [hrunning]
      exact Status.noConfusion
    unfold finishRun
    rw [if_pos hwrites]
    cases status with
    | success => exact .succeeded rfl hrunning rfl rfl rfl
    | cancelled => exact .returned rfl hrunning rfl Status.noConfusion rfl rfl
    | error => exact .calm rfl (.ofOpen rfl rfl rfl (by rw [hrunning]; rfl) rfl)
    | running => cases hfinal
    | awaiting => cases hfinal
  · unfold finishRun
    rw [if_neg (not_not.mpr hawait)]
    exact .calm (by simp [givesBack, hne]) (.refl row)

/-- **What a transaction on a run does to its snapshot.** -/
theorem step_effect {V : Vault κ} {run run' : Run.State κ} {op : Run.Op κ} (hfinds : Finds run op)
    (hs : Run.step V run op = some run') : Effect run.row op run'.row := by
  cases op with
  | expire clk =>
    cases hs
    exact .calm rfl (expireDue_calm clk run.row)
  | releaseDead clk =>
    cases hs
    exact .calm rfl (releaseDeadResumptions_calm clk run.row)
  | reconcile clk =>
    cases hs
    exact reconcile_effect clk run.row
  | enter p request clk resumedAt =>
    simp only [Run.step] at hs
    split at hs
    · cases hs
      exact .calm rfl ((releaseDeadResumptions_calm clk run.row).trans (expireDue_calm clk _))
    · cases hs
  | read p clk =>
    simp only [Run.step, stepRead] at hs
    split at hs
    · rename_i request _ _
      have hcalm := readDecision_calm V request.user clk run.row
      split at hs
      · rename_i row _ _ hread
        rw [hread] at hcalm
        cases hs
        exact .calm rfl hcalm
      · rename_i row _ hread
        rw [hread] at hcalm
        cases hs
        exact .calm rfl hcalm
    · cases hs
  | claim p clk =>
    simp only [Run.step, stepClaim] at hs
    split at hs
    · split at hs
      · rename_i row _ htake
        obtain ⟨hawait, rfl⟩ := takeDecision_ok htake
        cases hs
        exact .calm rfl (.ofOpen rfl rfl rfl (by rw [hawait]; rfl) rfl)
      · cases hs
        exact .calm rfl (.refl _)
    · cases hs
  | markDecided p =>
    simp only [Run.step, stepMarkDecided] at hs
    split at hs
    · rename_i c _
      have hcalm := markDecided_calm c.resumedAt run.row
      split at hs
      · rename_i row hmark
        rw [hmark] at hcalm
        cases hs
        exact .calm rfl hcalm
      · cases hs
        exact .calm rfl (.refl _)
    · cases hs
  | release p =>
    simp only [Run.step] at hs
    split at hs
    · cases hs
      exact .calm rfl (releasePausedRun_calm run.row)
    · cases hs
  | stop p clk =>
    simp only [Run.step] at hs
    split at hs
    · rename_i c hparty
      cases hs
      exact .calm rfl (stopUnansweredResume_calm clk (hfinds.imp_right fun h => h c hparty))
    · cases hs
  | pause p nonce snapshot now =>
    have hpaused : Calm run.row (pauseRun V nonce snapshot now run.row) :=
      .ofOpen rfl rfl rfl hfinds rfl
    simp only [Run.step, stepPause] at hs
    split at hs
    · cases hs
      exact .calm rfl hpaused
    · cases hs
      exact .calm rfl hpaused
    · cases hs
  | finish p status message clk =>
    simp only [Run.step] at hs
    split at hs
    · split at hs
      · rename_i hfinal
        cases hs
        exact finish_effect p message clk hfinal hfinds
      · cases hs
    · cases hs
  | abandon user clk =>
    cases hs
    have hkept := (releaseDeadResumptions_calm clk run.row).trans (expireDue_calm clk _)
    refine .calm rfl (hkept.trans (abandonPausedRun_calm V.lower clk ?_))
    rw [hkept.snapshot, hkept.owner]
    exact hfinds

/-! ## 5. The invariant -/

/-- The status of run `a`. -/
def statusAt (members : List (Member κ)) (a : Nat) : Option Status :=
  (members[a]?).map (·.row.status)

/-- The call took the snapshot, or may still take it. -/
def Call.underWay (c : Call γ κ) : Bool :=
  match c.stage with
  | .read _ | .taken _ | .opened _ _ => true
  | .refused _ | .over => false

/-- What is known of each run: one that holds a snapshot may be retried, or go on; a retry cites a
run in error. -/
structure Sound (members : List (Member κ)) (m : Member κ) : Prop where
  keeps : m.holds = true → Status.keeps m.row.status = true
  text : m.row.failureState ≠ some ""
  root : m.replayOf = none → m.row.status = .error
  retry : ∀ a ∈ m.replayOf, m.row.isRetry = true ∧ statusAt members a = some .error

/-- The runs that hold the snapshot, and the calls that carry it. -/
def State.held (s : State γ κ) : Nat :=
  s.members.countP Member.holds + s.calls.countP Call.inHand

structure Inv (s : State γ κ) : Prop where
  sound : ∀ m ∈ s.members, Sound s.members m
  sources : ∀ c ∈ s.calls, c.underWay = true → statusAt s.members c.source = some .error
  atMostOne : s.held ≤ 1
  conserved : s.expired = false → (∀ m ∈ s.members, m.row.status ≠ .success) → s.held = 1

section

variable {members : List (Member κ)} {m m' : Member κ} {i : Nat}

/-- A run that moves: it keeps its place in the chain, and its end once it has one. -/
structure Moves (m m' : Member κ) : Prop where
  replayOf : m'.replayOf = m.replayOf
  retry : m'.row.isRetry = m.row.isRetry
  final : m.row.status.isFinal = true → m'.row.status = m.row.status
  keeps : m'.holds = true → Status.keeps m'.row.status = true
  text : m'.row.failureState ≠ some ""

theorem statusAt_set (hi : members[i]? = some m) (h : Moves m m') {a : Nat}
    (ha : statusAt members a = some .error) : statusAt (members.set i m') a = some .error := by
  unfold statusAt at ha ⊢
  rw [List.getElem?_set]
  split
  · rename_i heq
    subst heq
    rw [hi] at ha
    obtain ⟨hlt, -⟩ := List.getElem?_eq_some_iff.mp hi
    have herror : m.row.status = .error := Option.some.inj ha
    rw [if_pos hlt, Option.map_some, h.final (by rw [herror]; rfl), herror]
  · exact ha

theorem Sound.set (hsound : ∀ m ∈ members, Sound members m) (hi : members[i]? = some m)
    (h : Moves m m') : ∀ x ∈ members.set i m', Sound (members.set i m') x := by
  intro x hx
  rcases List.mem_or_eq_of_mem_set hx with hold | rfl
  · have hx := hsound x hold
    exact ⟨hx.keeps, hx.text, hx.root, fun a ha =>
      ⟨(hx.retry a ha).1, statusAt_set hi h (hx.retry a ha).2⟩⟩
  · have hm := hsound m (List.mem_of_getElem? hi)
    refine ⟨h.keeps, h.text, fun hroot => ?_, fun a ha => ?_⟩
    · rw [h.replayOf] at hroot
      have herror := hm.root hroot
      rw [h.final (by rw [herror]; rfl), herror]
    · rw [h.replayOf] at ha
      exact ⟨h.retry.trans (hm.retry a ha).1, statusAt_set hi h (hm.retry a ha).2⟩

/-- A run that succeeded stays so. -/
theorem no_success_before (hi : members[i]? = some m) (h : Moves m m')
    (hnone : ∀ x ∈ members.set i m', x.row.status ≠ .success) :
    ∀ x ∈ members, x.row.status ≠ .success := by
  intro x hx hsuccess
  by_cases heq : x = m
  · subst heq
    obtain ⟨hlt, -⟩ := List.getElem?_eq_some_iff.mp hi
    refine hnone m' (List.mem_set hlt m') ?_
    rw [h.final (by rw [hsuccess]; rfl), hsuccess]
  · exact hnone x (Replace.mem_set_of_ne hi hx heq) hsuccess

variable {s : State γ κ}

/-- The runs and the calls after a transaction that moves the snapshot about. -/
theorem Inv.conserve (h : Inv s) {calls : List (Call γ κ)}
    (hsound : ∀ x ∈ members, Sound members x)
    (hstatus : ∀ a, statusAt s.members a = some .error → statusAt members a = some .error)
    (hsuccess : (∀ x ∈ members, x.row.status ≠ .success) →
      ∀ x ∈ s.members, x.row.status ≠ .success)
    (hsources : ∀ c ∈ calls, c.underWay = true → statusAt s.members c.source = some .error)
    (hheld : members.countP Member.holds + calls.countP Call.inHand = s.held) :
    Inv { s with members := members, calls := calls } where
  sound := hsound
  sources c hc hway := hstatus _ (hsources c hc hway)
  atMostOne := hheld.trans_le h.atMostOne
  conserved hexpired hnone := hheld.trans (h.conserved hexpired (hsuccess hnone))

/-- One run moves, and perhaps one call with it. -/
theorem Inv.set (h : Inv s) (hi : s.members[i]? = some m) (hm : Moves m m')
    {calls : List (Call γ κ)}
    (hsources : ∀ c ∈ calls, c.underWay = true → statusAt s.members c.source = some .error)
    (hheld : (s.members.set i m').countP Member.holds + calls.countP Call.inHand = s.held) :
    Inv { s with members := s.members.set i m', calls := calls } :=
  h.conserve (Sound.set h.sound hi hm) (fun _ => statusAt_set hi hm) (no_success_before hi hm)
    hsources hheld

/-- A call that moves stays with the run it is to retry. -/
theorem Inv.sources_set (h : Inv s) {j : Nat} {c : Call γ κ} {stage : Stage γ κ}
    (hj : s.calls[j]? = some c) (hway : c.underWay = true) :
    ∀ d ∈ s.calls.set j { c with stage := stage }, d.underWay = true →
      statusAt s.members d.source = some .error := by
  intro d hd hdway
  rcases List.mem_or_eq_of_mem_set hd with hold | rfl
  · exact h.sources d hold hdway
  · exact h.sources c (List.mem_of_getElem? hj) hway

/-- A calm transaction. -/
theorem Moves.ofCalm (hm : Sound members m) {run : Run.State κ} (hcalm : Calm m.row run.row) :
    Moves m { m with run := run } where
  replayOf := rfl
  retry := hcalm.retry
  final := hcalm.final
  keeps hholds := by
    have hheld : m.row.failureState ≠ none := by
      rw [← hcalm.snapshot]
      exact Option.isSome_iff_ne_none.mp hholds
    exact hcalm.keeps hheld (hm.keeps (Option.isSome_iff_ne_none.mpr hheld))
  text := by
    change run.row.failureState ≠ some ""
    rw [hcalm.snapshot]
    exact hm.text

/-- A run that lets go of its snapshot while it runs. -/
theorem Moves.ofRelease {run : Run.State κ} (hopen : m.row.status = .running)
    (hnone : run.row.failureState = none) (hretry : run.row.isRetry = m.row.isRetry) :
    Moves m { m with run := run } where
  replayOf := rfl
  retry := hretry
  final hfinal := by
    rw [hopen] at hfinal
    cases hfinal
  keeps hholds := by
    change run.row.failureState.isSome = true at hholds
    rw [hnone] at hholds
    cases hholds
  text := by
    change run.row.failureState ≠ some ""
    rw [hnone]
    exact Option.some_ne_none _ |>.symm

theorem holds_eq_false {row : Row} (h : row.failureState = none) (hrow : m.row = row) :
    m.holds = false := by
  rw [Member.holds, hrow, h]
  rfl

theorem truthy_of_holds (hm : Sound members m) (hholds : m.holds = true) :
    truthy m.row.failureState = true := by
  obtain ⟨text, htext⟩ := Option.isSome_iff_exists.mp hholds
  have hne : text ≠ "" := by
    rintro rfl
    exact hm.text htext
  simp [truthy, htext, hne]

/-- Two runs do not hold a snapshot at once. -/
theorem Inv.holder_unique (h : Inv s) (hi : s.members[i]? = some m) (hholds : m.holds = true)
    {o : Member κ} (ho : o ∈ s.members) (hne : o ≠ m) : o.holds = false := by
  by_contra hcon
  rw [Bool.not_eq_false] at hcon
  obtain ⟨empty, hempty⟩ : ∃ empty : Member κ, empty.holds = false :=
    ⟨m.withRow { m.row with failureState := none }, holds_eq_false rfl rfl⟩
  have hcount := Replace.countP_set hi empty Member.holds
  have hstays : o ∈ s.members.set i empty := Replace.mem_set_of_ne hi ho hne
  have hpos := List.countP_pos_iff.mpr ⟨o, hstays, hcon⟩
  have hone := h.atMostOne
  unfold State.held at hone
  simp only [hholds, hempty, if_true, Bool.false_eq_true, if_false] at hcount
  omega

/-- **A snapshot that is given back**: the run that is retried holds it, and the retry no more. -/
theorem Inv.giveBack (h : Inv s) (hi : s.members[i]? = some m) {run : Run.State κ}
    (hopen : m.row.status = .running) (hnone : run.row.failureState = none)
    (hretry : run.row.isRetry = m.row.isRetry) :
    Inv { s with members := (giveBack s.members i).set i { m with run := run } } := by
  have hm := h.sound m (List.mem_of_getElem? hi)
  have hmove : Moves m { m with run := run } := .ofRelease hopen hnone hretry
  have hafter : Member.holds { m with run := run } = false := holds_eq_false hnone rfl
  cases hholds : m.holds with
  | false =>
    -- It holds nothing: nothing is given back.
    have hstate : m.row.failureState = none := by
      rw [← Option.not_isSome_iff_eq_none]
      exact Bool.eq_false_iff.mp hholds
    have hsame : Retries.giveBack s.members i = s.members := by
      simp only [Retries.giveBack, hi, hstate]
      split
      · rfl
      · rw [if_neg]
        simp [truthy]
    rw [hsame]
    refine h.set hi hmove h.sources ?_
    have hcount := Replace.countP_set hi { m with run := run } Member.holds
    simp only [hholds, hafter, Bool.false_eq_true, if_false, Nat.add_zero] at hcount
    rw [hcount]
    rfl
  | true =>
    obtain hsource | ⟨a, hsource⟩ := Option.eq_none_or_eq_some m.replayOf
    · have herror := hm.root hsource
      rw [hopen] at herror
      cases herror
    · obtain ⟨hflag, herror⟩ := hm.retry a hsource
      obtain ⟨o, ho, hstatus⟩ := Option.map_eq_some_iff.mp herror
      have hne : o ≠ m := by
        rintro rfl
        rw [hopen] at hstatus
        cases hstatus
      have hplace : a ≠ i := by
        rintro rfl
        exact hne (Option.some.inj (ho.symm.trans hi))
      have hfree := h.holder_unique hi hholds (List.mem_of_getElem? ho) hne
      have hempty : o.row.failureState = none :=
        Option.not_isSome_iff_eq_none.mp (Bool.eq_false_iff.mp hfree)
      have hback : Retries.giveBack s.members i = s.members.set a (o.receive m) := by
        simp only [Retries.giveBack, hi, hsource, ho]
        rw [if_pos ⟨truthy_of_holds hm hholds, hflag⟩, if_pos ⟨hstatus, hempty⟩]
      have hgets : Moves o (o.receive m) := by
        refine ⟨rfl, rfl, fun _ => rfl, fun _ => ?_, hm.text⟩
        change Status.keeps o.row.status = true
        rw [hstatus]
        rfl
      have hi' : (s.members.set a (o.receive m))[i]? = some m := by
        rw [List.getElem?_set_ne hplace, hi]
      rw [hback]
      refine h.conserve (Sound.set (Sound.set h.sound ho hgets) hi' hmove)
        (fun _ hb => statusAt_set hi' hmove (statusAt_set ho hgets hb))
        (fun hnone => no_success_before ho hgets (no_success_before hi' hmove hnone)) h.sources ?_
      -- One run more, one run less.
      have hgiven := Replace.countP_set ho (o.receive m) Member.holds
      have hlet := Replace.countP_set hi' { m with run := run } Member.holds
      have hnow : (o.receive m).holds = true := hholds
      simp only [hfree, hnow, if_true, Bool.false_eq_true, if_false, Nat.add_zero] at hgiven
      simp only [hholds, hafter, if_true, Bool.false_eq_true, if_false, Nat.add_zero] at hlet
      unfold State.held
      omega

/-- A run that keeps, or loses, or gets a snapshot, with a call that gets it, or loses it. -/
theorem held_set {calls : List (Call γ κ)} (hi : s.members[i]? = some m)
    (h : (if m'.holds then 1 else 0) + calls.countP Call.inHand =
      (if m.holds then 1 else 0) + s.calls.countP Call.inHand) :
    (s.members.set i m').countP Member.holds + calls.countP Call.inHand = s.held := by
  have hcount := Replace.countP_set hi m' Member.holds
  unfold State.held
  omega

/-- A success ends the obligations of the chain. -/
theorem Inv.succeed (h : Inv s) (hi : s.members[i]? = some m) {run : Run.State κ}
    (hopen : m.row.status = .running) (hsuccess : run.row.status = .success)
    (hnone : run.row.failureState = none) (hretry : run.row.isRetry = m.row.isRetry) :
    Inv { s with members := s.members.set i { m with run := run } } where
  sound := Sound.set h.sound hi (.ofRelease hopen hnone hretry)
  sources c hc hway := statusAt_set hi (.ofRelease hopen hnone hretry) (h.sources c hc hway)
  atMostOne := by
    have hcount := Replace.countP_set hi { m with run := run } Member.holds
    have hafter : Member.holds { m with run := run } = false := holds_eq_false hnone rfl
    simp only [hafter, Bool.false_eq_true, if_false, Nat.add_zero] at hcount
    have hone := h.atMostOne
    unfold State.held at hone ⊢
    change (s.members.set i { m with run := run }).countP Member.holds +
      s.calls.countP Call.inHand ≤ 1
    omega
  conserved _ hnever := by
    obtain ⟨hlt, -⟩ := List.getElem?_eq_some_iff.mp hi
    exact absurd hsuccess (hnever _ (List.mem_set hlt _))

theorem Inv.act {V : Vault κ} {op : Run.Op κ} {s' : State γ κ} (h : Inv s)
    (hok : ∀ m ∈ s.members[i]?, Finds m.run op) (hs : stepAct V s i op = some s') : Inv s' := by
  unfold stepAct at hs
  split at hs
  · cases hs
  · rename_i m hi
    split at hs
    · cases hs
    · rename_i run hrun
      cases hs
      rcases step_effect (hok m hi) hrun with ⟨hback, hcalm⟩ | ⟨hback, hopen, hsuccess, hnone, hretry⟩ |
        ⟨hback, hopen, -, -, hnone, hretry⟩
      · simp only [show givesBack m.row op = false from hback, Bool.false_eq_true, if_false]
        refine h.set hi (.ofCalm (h.sound m (List.mem_of_getElem? hi)) hcalm) h.sources ?_
        have hsame : Member.holds { m with run := run } = m.holds :=
          congrArg Option.isSome hcalm.snapshot
        exact held_set hi (by rw [hsame])
      · simp only [show givesBack m.row op = false from hback, Bool.false_eq_true, if_false]
        exact h.succeed hi hopen hsuccess hnone hretry
      · simp only [show givesBack m.row op = true from hback, if_true]
        exact h.giveBack hi hopen hnone hretry

theorem purged_cases (clk : Clock) (m : Member κ) :
    purged clk m = m ∧ (m.holds && isPastTtl clk m.row) = false ∨
      (purged clk m).row = { m.row with failureState := none } ∧
        (m.holds && isPastTtl clk m.row) = true := by
  have hholds : m.holds = true ↔ m.row.failureState ≠ none := Option.isSome_iff_ne_none
  unfold purged purgeFailureState
  split
  · rename_i hold
    exact .inr ⟨rfl, by simp [hholds, hold.1, hold.2]⟩
  · rename_i hnew
    rw [← hholds, ← Bool.and_eq_true, Bool.not_eq_true] at hnew
    exact .inl ⟨rfl, hnew⟩

theorem purged_moves (hm : Sound members m) (clk : Clock) : Moves m (purged clk m) := by
  rcases purged_cases clk m with ⟨hsame, -⟩ | ⟨hrow, -⟩
  · rw [hsame]
    exact ⟨rfl, rfl, fun _ => rfl, hm.keeps, hm.text⟩
  · have hempty : (purged clk m).holds = false := holds_eq_false rfl hrow
    refine ⟨rfl, by rw [hrow], fun _ => by rw [hrow], fun hholds => ?_, ?_⟩
    · rw [hempty] at hholds
      cases hholds
    · rw [hrow]
      exact (Option.some_ne_none _).symm

/-- **The purge takes nothing, or the snapshot has expired.** -/
theorem Inv.purge (h : Inv s) (clk : Clock) :
    Inv { s with
      members := s.members.map (purged clk)
      expired := s.expired || s.members.any fun m => m.holds && isPastTtl clk m.row } := by
  cases hany : s.members.any fun m => m.holds && isPastTtl clk m.row with
  | false =>
    have hsame : s.members.map (purged clk) = s.members := by
      refine (List.map_congr_left fun m hm => ?_).trans (List.map_id _)
      rcases purged_cases clk m with ⟨hsame, -⟩ | ⟨-, htaken⟩
      · exact hsame
      · exact absurd htaken (List.any_eq_false.mp hany m hm)
    rw [hsame, Bool.or_false]
    exact h
  | true =>
    have hstatus : ∀ a, statusAt s.members a = some .error →
        statusAt (s.members.map (purged clk)) a = some .error := by
      intro a ha
      obtain ⟨m, hi, herror⟩ := Option.map_eq_some_iff.mp ha
      have hm := purged_moves (h.sound m (List.mem_of_getElem? hi)) clk
      rw [statusAt, List.getElem?_map, hi, Option.map_some, Option.map_some,
        hm.final (by rw [herror]; rfl), herror]
    refine ⟨fun x hx => ?_, fun c hc hway => hstatus _ (h.sources c hc hway), ?_, ?_⟩
    · obtain ⟨m, hmem, rfl⟩ := List.mem_map.mp hx
      have hsound := h.sound m hmem
      have hm := purged_moves hsound clk
      refine ⟨hm.keeps, hm.text, fun hroot => ?_, fun a ha => ?_⟩
      · have herror := hsound.root (hm.replayOf ▸ hroot)
        rw [hm.final (by rw [herror]; rfl), herror]
      · have hsource := hsound.retry a (hm.replayOf ▸ ha)
        exact ⟨hm.retry.trans hsource.1, hstatus a hsource.2⟩
    · have hfewer : (s.members.map (purged clk)).countP Member.holds ≤
          s.members.countP Member.holds := by
        rw [List.countP_map]
        refine List.countP_mono_left fun m _ hholds => ?_
        rcases purged_cases clk m with ⟨hsame, -⟩ | ⟨hrow, -⟩
        · rwa [Function.comp_apply, hsame] at hholds
        · rw [Function.comp_apply, holds_eq_false rfl hrow] at hholds
          cases hholds
      have hone := h.atMostOne
      unfold State.held at hone ⊢
      exact (Nat.add_le_add_right hfewer _).trans hone
    · intro hexpired
      rw [Bool.or_true] at hexpired
      cases hexpired

/-- A snapshot that is read stays where it is. -/
theorem readFailure_row {W : FailureVault γ κ} {row : Row} (owner : String) (children : List Row)
    (clk : Clock) (hopens : ∀ text ∈ row.failureState, W.unsealText text ≠ none) :
    (readFailure W owner children clk row).1 = row ∧
      ((readFailure W owner children clk row).2.isOk = true → row.status = .error) := by
  unfold readFailure
  split
  · exact ⟨rfl, fun h => (nomatch h)⟩
  · split
    · exact ⟨rfl, fun h => (nomatch h)⟩
    · rename_i herror
      rw [not_not] at herror
      split
      · exact ⟨rfl, fun h => (nomatch h)⟩
      · rename_i hstate
        split
        · exact ⟨rfl, fun _ => herror⟩
        · rename_i hclosed
          obtain hnone | ⟨text, htext⟩ := Option.eq_none_or_eq_some row.failureState
          · simp [hnone, truthy] at hstate
          · rw [htext] at hclosed
            exact absurd hclosed (hopens text htext)

theorem call?_eq_some {j : Nat} {c : Call γ κ} (h : s.call? j = some (c, m)) :
    s.calls[j]? = some c ∧ s.members[c.source]? = some m := by
  unfold State.call? at h
  split at h
  · cases h
  · rename_i d hj
    obtain ⟨o, hi, hpair⟩ := Option.map_eq_some_iff.mp h
    cases hpair
    exact ⟨hj, hi⟩

/-- **The taking**: the run held the snapshot, the call carries it. -/
theorem Inv.take {j : Nat} {clk : Clock} {s' : State γ κ} (h : Inv s)
    (hs : stepTake s j clk = some s') : Inv s' := by
  unfold stepTake at hs
  split at hs
  · rename_i c m hcall
    obtain ⟨hj, hi⟩ := call?_eq_some hcall
    split at hs
    · rename_i failure hstage
      have hway : c.underWay = true := by
        simp [Call.underWay, hstage]
      have hbefore : c.inHand = false := by
        simp [Call.inHand, hstage]
      split at hs
      · rename_i hheld
        cases hs
        have hm := h.sound m (List.mem_of_getElem? hi)
        have hempty : Member.holds (m.withRow { m.row with failureState := none }) = false :=
          holds_eq_false rfl rfl
        have hmove : Moves m (m.withRow { m.row with failureState := none }) := by
          refine ⟨rfl, rfl, fun _ => rfl, fun hholds => ?_, (Option.some_ne_none _).symm⟩
          rw [hempty] at hholds
          cases hholds
        refine h.set hi hmove (h.sources_set hj hway) (held_set hi ?_)
        have hcount := Replace.countP_set hj { c with stage := .taken failure } Call.inHand
        have hafter : Call.inHand { c with stage := .taken failure } = true := rfl
        have hholds : m.holds = true := Option.isSome_iff_ne_none.mpr hheld
        simp only [hbefore, hafter, hholds, hempty, if_true, Bool.false_eq_true,
          if_false] at hcount ⊢
        change 0 + (s.calls.set j { c with stage := .taken failure }).countP Call.inHand = _
        omega
      · cases hs
        refine h.conserve h.sound (fun _ ha => ha) id (h.sources_set hj hway) ?_
        have hcount := Replace.countP_set hj
          { c with stage := .refused (retryRefusal (s.children c.source) clk m.row) } Call.inHand
        simp only [hbefore, Bool.false_eq_true, if_false, Nat.add_zero] at hcount
        exact congrArg (s.members.countP Member.holds + ·) hcount
    · cases hs
  · cases hs

/-- **The row of the retry**: it holds nothing yet, and cites a run in error. -/
theorem Inv.startRun {j : Nat} {runId : String} {createdAt : Int} {s' : State γ κ} (h : Inv s)
    (hs : stepStartRun s j runId createdAt = some s') : Inv s' := by
  unfold stepStartRun at hs
  split at hs
  · rename_i c m hcall
    obtain ⟨hj, hi⟩ := call?_eq_some hcall
    split at hs
    · rename_i failure hstage
      cases hs
      have hway : c.underWay = true := by
        simp [Call.underWay, hstage]
      have hsource := h.sources c (List.mem_of_getElem? hj) hway
      have hstatus : ∀ a, statusAt s.members a = some .error →
          statusAt (s.members ++ [⟨opened runId m.row.ownerId createdAt, some c.source⟩]) a =
            some .error := by
        intro a ha
        obtain ⟨o, ho, herror⟩ := Option.map_eq_some_iff.mp ha
        obtain ⟨hlt, -⟩ := List.getElem?_eq_some_iff.mp ho
        rw [statusAt, List.getElem?_append_left hlt, ho, Option.map_some, herror]
      refine h.conserve ?_ hstatus ?_ (h.sources_set hj hway) ?_
      · intro x hx
        rcases List.mem_append.mp hx with hold | hnew
        · have hx := h.sound x hold
          exact ⟨hx.keeps, hx.text, hx.root, fun a ha =>
            ⟨(hx.retry a ha).1, hstatus a (hx.retry a ha).2⟩⟩
        · rw [List.mem_singleton.mp hnew]
          refine ⟨fun hholds => (nomatch hholds), (Option.some_ne_none _).symm,
            fun hroot => (nomatch hroot), fun a ha => ⟨rfl, ?_⟩⟩
          rw [← Option.some.inj ha]
          exact hstatus _ hsource
      · exact fun hnone x hx => hnone x (List.mem_append_left _ hx)
      · have hcount := Replace.countP_set hj
          { c with stage := .opened failure s.members.length } Call.inHand
        have hbefore : c.inHand = true := by
          simp [Call.inHand, hstage]
        have hafter : Call.inHand { c with stage := .opened failure s.members.length } = true :=
          rfl
        rw [hbefore, hafter] at hcount
        rw [List.countP_append]
        unfold State.held
        change s.members.countP Member.holds + 0 + (s.calls.set j _).countP Call.inHand = _
        omega
    · cases hs
  · cases hs

/-- **The copy**: the call carried the snapshot, the retry holds it. -/
theorem Inv.copy {W : FailureVault γ κ} {j nonce : Nat} {graph : γ} {saved : Bool}
    {s' : State γ κ} (h : Inv s) (hok : KeepsCopy W s (.copy j nonce graph saved))
    (hs : stepCopy W s j nonce graph saved = some s') : Inv s' := by
  obtain ⟨rfl, hopen⟩ := hok
  unfold stepCopy at hs
  split at hs
  · rename_i c hj
    split at hs
    · rename_i failure child hstage
      split at hs
      · rename_i m hi
        have hway : c.underWay = true := by
          simp [Call.underWay, hstage]
        have hstatus := hopen c hj failure child hstage m hi
        simp only [if_true, Option.some.injEq] at hs
        subst hs
        have hmove : Moves m { m with run := (m.run.withRow (saveFailure W nonce
            { failure with graph := graph } m.row)).move 0 .executing } := by
          refine ⟨rfl, rfl, fun _ => rfl, fun _ => ?_, ?_⟩
          · change Status.keeps m.row.status = true
            cases hcase : m.row.status <;> first | rfl | (rw [hcase] at hstatus; cases hstatus)
          · exact fun htext => W.sealText_ne _ _ (Option.some.inj htext)
        refine h.set hi hmove (h.sources_set hj hway) (held_set hi ?_)
        have hcount := Replace.countP_set hj { c with stage := .over } Call.inHand
        have hbefore : c.inHand = true := by
          simp [Call.inHand, hstage]
        have hafter : Call.inHand ({ c with stage := .over } : Call γ κ) = false := rfl
        -- The call carries the snapshot, so no run holds it.
        have hfree : m.holds = false := by
          by_contra hcon
          rw [Bool.not_eq_false] at hcon
          have hrun := List.countP_pos_iff.mpr ⟨m, List.mem_of_getElem? hi, hcon⟩
          have hcarried := List.countP_pos_iff.mpr ⟨c, List.mem_of_getElem? hj, hbefore⟩
          have hone := h.atMostOne
          unfold State.held at hone
          omega
        have hnow : Member.holds { m with run := (m.run.withRow (saveFailure W nonce
            { failure with graph := graph } m.row)).move 0 .executing } = true := rfl
        simp only [hbefore, hafter, hfree, hnow, if_true, Bool.false_eq_true, if_false]
          at hcount ⊢
        change 1 + (s.calls.set j { c with stage := .over }).countP Call.inHand = _
        omega
      · cases hs
    · cases hs
  · cases hs

/-- A failure that is saved again: the run that held a snapshot holds another. -/
theorem Inv.saveFailure {W : FailureVault γ κ} (h : Inv s) (hi : s.members[i]? = some m)
    (hheld : m.row.failureState ≠ none) (nonce : Nat) (failure : Failure γ κ) :
    Inv (s.setRow i m (Retries.saveFailure W nonce failure m.row)) := by
  have hholds : m.holds = true := Option.isSome_iff_ne_none.mpr hheld
  have hmove : Moves m (m.withRow (Retries.saveFailure W nonce failure m.row)) := by
    refine ⟨rfl, rfl, fun _ => rfl, fun _ => ?_, ?_⟩
    · exact (h.sound m (List.mem_of_getElem? hi)).keeps hholds
    · exact fun htext => W.sealText_ne _ _ (Option.some.inj htext)
  refine h.set hi hmove h.sources (held_set hi ?_)
  rw [hholds]
  rfl

/-- A call that starts: it reads a run in error, or it is refused. -/
theorem Inv.prepare {W : FailureVault γ κ} {owner : String} {clk : Clock} {s' : State γ κ}
    {V : Vault κ} (h : Inv s) (hok : KeepsCopy W s (.prepare i owner clk))
    (hs : step V W s (.prepare i owner clk) = some s') : Inv s' := by
  -- No run moves, and the call does not carry the snapshot.
  have hkept : ∀ {m : Member κ} {row : Row} {stage : Stage γ κ}, s.members[i]? = some m →
      row = m.row → Call.inHand (⟨i, stage⟩ : Call γ κ) = false →
      (Call.underWay (⟨i, stage⟩ : Call γ κ) = true → m.row.status = .error) →
      Inv { s.setRow i m row with calls := s.calls ++ [⟨i, stage⟩] } := by
    rintro m row stage hi rfl hhand hway
    have hsame : s.members.set i (m.withRow m.row) = s.members := by
      obtain ⟨hlt, hm⟩ := List.getElem?_eq_some_iff.mp hi
      change s.members.set i m = s.members
      rw [← hm, List.set_getElem_self]
    unfold State.setRow
    rw [hsame]
    refine h.conserve h.sound (fun _ ha => ha) id ?_ ?_
    · intro c hc hcway
      rcases List.mem_append.mp hc with hold | hnew
      · exact h.sources c hold hcway
      · rw [List.mem_singleton.mp hnew] at hcway ⊢
        rw [statusAt, hi, Option.map_some, hway hcway]
    · rw [List.countP_append, List.countP_singleton, hhand]
      rfl
  simp only [step] at hs
  split at hs
  · rename_i m hi
    have hread := readFailure_row owner (s.children i) clk (hok m hi)
    split at hs
    · rename_i row failure hcase
      rw [hcase] at hread
      cases hs
      exact hkept hi hread.1 rfl fun _ => hread.2 rfl
    · rename_i row why hcase
      rw [hcase] at hread
      cases hs
      exact hkept hi hread.1 rfl fun hway => (nomatch hway)
  · cases hs

/-- **Every transaction that meets the condition keeps the invariant.** -/
theorem Inv.step {V : Vault κ} {W : FailureVault γ κ} {op : Op γ κ} {s' : State γ κ} (h : Inv s)
    (hok : KeepsCopy W s op) (hs : Retries.step V W s op = some s') : Inv s' := by
  cases op with
  | act i op => exact h.act hok hs
  | saveFailure i p nonce failure =>
    simp only [Retries.step] at hs
    split at hs
    · rename_i m hi
      split at hs
      · cases hs
        exact h.saveFailure hi (hok m hi) nonce failure
      · cases hs
    · cases hs
  | purge clk =>
    cases hs
    exact h.purge clk
  | prepare i owner clk => exact h.prepare hok hs
  | take j clk => exact h.take hs
  | startRun j runId createdAt => exact h.startRun hs
  | copy j nonce graph saved => exact h.copy hok hs
  | die j =>
    simp only [Retries.step] at hs
    split at hs
    · rename_i c hj
      cases hs
      have hbefore := hok c hj
      refine h.conserve h.sound (fun _ ha => ha) id ?_ ?_
      · intro d hd hdway
        rcases List.mem_or_eq_of_mem_set hd with hold | rfl
        · exact h.sources d hold hdway
        · cases hdway
      · have hcount := Replace.countP_set hj { c with stage := .over } Call.inHand
        have hafter : Call.inHand ({ c with stage := .over } : Call γ κ) = false := rfl
        simp only [hbefore, hafter, Bool.false_eq_true, if_false, Nat.add_zero] at hcount
        exact congrArg (s.members.countP Member.holds + ·) hcount
    · cases hs

/-- What the invariant says of a chain that is over. -/
theorem Inv.kept (h : Inv s) : Kept s where
  atMostOne := (Nat.le_add_right _ _).trans h.atMostOne
  retryable hover hnever hexpired := by
    have hcarried : s.calls.countP Call.inHand = 0 :=
      List.countP_eq_zero.mpr fun c hc => Bool.eq_false_iff.mp (hover.2 c hc)
    have hone := h.conserved hexpired hnever
    unfold State.held at hone
    rw [hcarried, Nat.add_zero] at hone
    rw [← hone]
    refine List.countP_congr fun m hm => ?_
    rw [Bool.and_eq_true, decide_eq_true_eq]
    refine ⟨fun hboth => hboth.2, fun hholds => ⟨?_, hholds⟩⟩
    -- A run that is over and may hold a snapshot is in error.
    have hkeeps := (h.sound m hm).keeps hholds
    have hfinal := hover.1 m hm
    cases hstatus : m.row.status with
    | error => rfl
    | success | cancelled => rw [hstatus] at hkeeps; cases hkeeps
    | running | awaiting => rw [hstatus] at hfinal; cases hfinal

end

/-- **The snapshot of a failure is neither lost nor duplicated**, in every run of the chain whose
transactions all meet the condition. -/
theorem snapshot_kept {V : Vault κ} {W : FailureVault γ κ} {root : FailedRun κ} {s : State γ κ}
    (hrun : Reach (step V W) (KeepsCopy W) (start root) s) : Kept s := by
  have hholds : Member.holds ⟨root.run, none⟩ = true := by
    rw [Member.holds, Option.isSome_iff_ne_none]
    intro hnone
    have hsaved := root.saved
    change root.run.row.failureState = none at hnone
    rw [hnone] at hsaved
    cases hsaved
  have hstart : Inv (start root : State γ κ) := by
    refine ⟨?_, fun c hc => (nomatch hc), ?_, fun _ _ => ?_⟩
    · intro m hm
      rw [List.mem_singleton.mp hm]
      refine ⟨fun _ => ?_, fun htext => ?_, fun _ => root.failed, fun a ha => (nomatch ha)⟩
      · change Status.keeps root.run.row.status = true
        rw [root.failed]
        rfl
      · have hsaved := root.saved
        change root.run.row.failureState = some "" at htext
        rw [htext] at hsaved
        cases hsaved
    · simp [State.held, start, hholds]
    · simp [State.held, start, hholds]
  exact (hrun.invariant hstart fun _ _ _ h hok hs => h.step hok hs).kept

/-! ## 6. A chain of three runs, and a retry that is abandoned -/

instance (run : Run.State κ) : (op : Run.Op κ) → Decidable (Finds run op)
  | .finish _ status _ _ => inferInstanceAs (Decidable
      (run.row.status = .running ∨ (run.row.status = .awaiting ∧ status ≠ .cancelled)))
  | .pause .. => inferInstanceAs (Decidable (run.row.status.isFinal = false))
  | .abandon user clk => inferInstanceAs (Decidable
      (run.row.failureState = none ∨ run.row.ownerId ≠ user ∨
        (expireDue clk (releaseDeadResumptions clk run.row)).status ≠ .awaiting))
  | .stop p _ =>
    match hparty : run.parties p with
    | .won c => decidable_of_iff (run.row.failureState = none ∨
        ¬ (run.row.status = .running ∧ run.row.pausedState ≠ none ∧
          run.row.resumedAt = some c.resumedAt)) (by simp [Finds, hparty])
    | .idle | .entered .. | .read _ | .executing | .closed =>
      .isTrue (.inr fun c hc => by rw [hparty] at hc; cases hc)
  | .expire _ | .releaseDead _ | .reconcile _ | .enter .. | .read .. | .claim .. | .markDecided _
  | .release _ => .isTrue trivial

/-- The run whose row the copy of this call is to write. -/
def Call.child? (c : Call γ κ) : Option Nat :=
  match c.stage with
  | .opened _ child => some child
  | _ => none

instance (W : FailureVault γ κ) (s : State γ κ) : (op : Op γ κ) → Decidable (KeepsCopy W s op)
  | .act i op => inferInstanceAs (Decidable (∀ m ∈ s.members[i]?, Finds m.run op))
  | .saveFailure i _ _ _ =>
    inferInstanceAs (Decidable (∀ m ∈ s.members[i]?, m.row.failureState ≠ none))
  | .prepare i _ _ => inferInstanceAs (Decidable
      (∀ m ∈ s.members[i]?, ∀ text ∈ m.row.failureState, W.unsealText text ≠ none))
  | .copy j _ _ saved => decidable_of_iff (saved ∧ ∀ c ∈ s.calls[j]?, ∀ child ∈ c.child?,
      ∀ m ∈ s.members[child]?, m.row.status.isFinal = false) (by
        refine and_congr_right fun _ => forall₂_congr fun c _ => ⟨fun h failure child hc => ?_,
          fun h child hc => ?_⟩
        · exact h child (by simp [Call.child?, hc])
        · unfold Call.child? at hc
          split at hc
          · rename_i failure child' hstage
            cases hc
            exact h failure _ hstage
          · cases hc)
  | .die j => inferInstanceAs (Decidable (∀ c ∈ s.calls[j]?, c.inHand = false))
  | .purge _ | .take .. | .startRun .. => .isTrue trivial

def payFailure : Failure Unit Unit := ⟨some "pay", (), ()⟩

def failureVault : FailureVault Unit Unit where
  sealText _ _ := "sealed"
  unsealText _ := some payFailure
  sealText_ne _ _ := by decide

def pauseVault : Vault Unit where
  lower := id
  sealText _ _ := "paused"
  unsealText _ := none

/-- Ana's run failed at `pay`. -/
def failedRun : FailedRun Unit where
  run :=
    { (Run.start { startRow "run" "ana" 0 false with
        status := .error
        finishedAt := some 10
        failureState := some "sealed"
        failureNode := some "pay" } : Run.State Unit) with
      parties := fun _ => .idle }
  failed := rfl
  saved := by decide

/-- A call of `prepare_retry` that goes through. -/
def retried (source j : Nat) (runId : String) (now : Int) : List (Op Unit Unit) :=
  [.prepare source "ana" ⟨now, now⟩, .take j ⟨now, now⟩, .startRun j runId now, .copy j 0 () true]

/-- The run, the retry that fails again, and a retry of that one that is stopped. -/
def failsThenStops : List (Op Unit Unit) :=
  retried 0 0 "retry" 20 ++
  [.saveFailure 1 0 0 payFailure, .act 1 (.finish 0 .error (some "again") ⟨30, 30⟩)] ++
  retried 1 1 "second" 40 ++ [.act 2 (.finish 0 .cancelled none ⟨50, 50⟩)]

/-- The status of each run, and whether it holds a snapshot. -/
def told (s : State Unit Unit) : List (Status × Bool) :=
  s.members.map fun m => (m.row.status, m.holds)

/-- The retry that was stopped gave the snapshot back. -/
theorem snapshot_kept_failsThenStops :
    ∃ s, Reach (step pauseVault failureVault) (KeepsCopy failureVault) (start failedRun) s ∧
      told s = [(.error, false), (.error, true), (.cancelled, false)] ∧ Kept s := by
  have hplay : (replay (step pauseVault failureVault) (KeepsCopy failureVault) (start failedRun)
      failsThenStops).map told =
        some [(.error, false), (.error, true), (.cancelled, false)] := by decide
  obtain ⟨s, hs, htold⟩ := Option.map_eq_some_iff.mp hplay
  have hrun := Reach.of_replay failsThenStops hs
  exact ⟨s, hrun, htold, snapshot_kept hrun⟩

/-- The retry pauses, and Ana abandons it. -/
def retryAbandoned : List (Op Unit Unit) :=
  retried 0 0 "retry" 20 ++
  [.act 1 (.pause 0 0 ⟨"review", ⟨"Relire ?", none, [], none, none⟩, (), none⟩ 30),
    .act 1 (.abandon "ana" ⟨40, 40⟩)]

/-- **A retry that is abandoned while it awaits a decision loses the snapshot**: the run it retries
gets nothing back, and the cancelled retry cannot be retried. -/
theorem abandoned_retry_loses_snapshot :
    ¬ ∀ (V : Vault Unit) (W : FailureVault Unit Unit) (root : FailedRun Unit) (s : State Unit Unit),
      Reach (step V W) anyStep (start root) s → Kept s := by
  intro hall
  have hplay : (replay (step pauseVault failureVault) anyStep (start failedRun)
      retryAbandoned).map (fun s => (told s, s.calls.countP Call.inHand, s.expired,
        s.members.countP (fun m => m.row.status = .error && m.holds))) =
          some ([(.error, false), (.cancelled, true)], 0, false, 0) := by decide
  obtain ⟨s, hs, hout⟩ := Option.map_eq_some_iff.mp hplay
  have htold : told s = [(.error, false), (.cancelled, true)] := congrArg Prod.fst hout
  have hcarried : s.calls.countP Call.inHand = 0 := congrArg (·.2.1) hout
  have hexpired : s.expired = false := congrArg (·.2.2.1) hout
  have hnone : s.members.countP (fun m => m.row.status = .error && m.holds) = 0 :=
    congrArg (·.2.2.2) hout
  have hstatus : ∀ m ∈ s.members, m.row.status = .error ∨ m.row.status = .cancelled := by
    intro m hm
    have hmem : (m.row.status, m.holds) ∈ told s := List.mem_map_of_mem hm
    rw [htold] at hmem
    simp only [List.mem_cons, Prod.mk.injEq, List.not_mem_nil, or_false] at hmem
    exact hmem.imp And.left And.left
  have hover : s.isOver := by
    refine ⟨fun m hm => ?_, fun c hc => Bool.eq_false_iff.mpr (List.countP_eq_zero.mp hcarried c hc)⟩
    rcases hstatus m hm with herror | hcancelled
    · rw [herror]
      rfl
    · rw [hcancelled]
      rfl
  have hnever : ∀ m ∈ s.members, m.row.status ≠ .success := by
    intro m hm hsuccess
    rcases hstatus m hm with h | h <;> rw [hsuccess] at h <;> cases h
  have hone := (hall pauseVault failureVault failedRun s
    (Reach.of_replay retryAbandoned hs)).retryable hover hnever hexpired
  rw [hnone] at hone
  cases hone

end Apowerb.Run.Retries
