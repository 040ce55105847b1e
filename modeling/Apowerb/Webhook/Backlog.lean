/-
# The backlog queue

`scheduler/backlog_worker.py`: any number of processes share the table of webhook logs, and the
worker of each calls `process_once` again and again.  A call resets the rows that have been in
progress for longer than the stale delay, claims the oldest ready row with a guarded update, hands it
to the processor, and marks the outcome.

The claim is exclusive and the marks are not guarded.  What keeps a row to one worker is that it is
in progress while that worker has it, and the reclaim judges that by elapsed time alone.

* `queue_runs_once`: as long as no reclaim resets a row that a live worker has, no row is run by two
  live workers, and no row leaves `success` or `error`.

A row is known by its place in the table, which is the order of its identifier.  Times and delays are
whole microseconds, where the code computes the delays with floats.  A mark reads its row and writes
it in one short transaction, taken as one statement.

GHOST STATE: the rows that were handed to the processor, and those for which it returned.
-/
import Apowerb.Lib.Replace
import Apowerb.Lib.Runs
import Apowerb.Text

namespace Apowerb.Webhook.Backlog

open Runs

/-! ## 1. Delays -/

def second : Int := 1000000

/-- `_BACKOFF_BASE_SECONDS`. -/
def backoffBaseSeconds : List Int := [5, 30, 120, 600]

/-- `_STALE_IN_PROGRESS_SECONDS`. -/
def staleInProgress : Int := 600 * second

/-- `_MAX_ATTEMPTS`. -/
def maxAttempts : Nat := 8

/-- What the processor raised: the name of its type and its text. -/
structure Exc where
  typeName : String
  text : String
deriving DecidableEq, Repr

/-- The message of a failure. -/
def Exc.message (exc : Exc) : String := exc.typeName ++ ": " ++ exc.text

/-- `_is_rate_limit_error`. -/
def isRateLimitError (exc : Exc) : Bool :=
  exc.typeName ∈ ["RateLimitError", "ResourceExhausted"] ||
    Text.contains "RateLimitError" exc.text || Text.contains "RESOURCE_EXHAUSTED" exc.text ||
    (Text.contains "429" exc.text && Text.contains "Too Many Requests" exc.text)

/-- `\d+(?:\.\d+)?` followed by `s`, with what is left. -/
def matchSeconds (cs : List Char) : Option (Int × List Char) := do
  let isDigit c := (Text.digitValue c).isSome
  let whole ← Text.digits? (cs.takeWhile isDigit)
  let rest := cs.dropWhile isDigit
  let (fraction, rest) : List Char × List Char :=
    match rest with
    | '.' :: more => if (more.takeWhile isDigit).isEmpty then ([], rest)
        else (more.takeWhile isDigit, more.dropWhile isDigit)
    | _ => ([], rest)
  let micros ← Text.digits? (fraction.take 6 ++ List.replicate (6 - fraction.length) '0')
  let rest ← Text.afterWord "s" rest
  return (whole * second + micros, rest)

/-- `"retryDelay"\s*:\s*"(\d+(?:\.\d+)?)s"`. -/
def matchRetryDelay (cs : List Char) : Option Int := do
  let cs ← Text.afterWord "\"retryDelay\"" cs
  let cs ← Text.afterWord ":" (cs.dropWhile Text.isSpace)
  let cs ← Text.afterWord "\"" (cs.dropWhile Text.isSpace)
  let (delay, cs) ← matchSeconds cs
  let _ ← Text.afterWord "\"" cs
  return delay

/-- `retry in (\d+(?:\.\d+)?)s`. -/
def matchRetryIn (cs : List Char) : Option Int := do
  let cs ← Text.afterWord "retry in " cs
  return (← matchSeconds cs).1

/-- `_parse_retry_delay_from_error`. -/
def parseRetryDelayFromError (exc : Exc) : Option Int :=
  (exc.text.toList.tails.findSome? matchRetryDelay).or
    (exc.text.toList.tails.findSome? matchRetryIn)

/-- `_backoff_for_attempt`. -/
def backoffForAttempt (attempt : Nat) : Int :=
  backoffBaseSeconds.getD (min (attempt - 1) (backoffBaseSeconds.length - 1)) 0 * second

/-- The delay after a rate limit, and the pause of the whole process with it. -/
def rateLimitDelay (exc : Exc) : Int :=
  let asked := (parseRetryDelayFromError exc).getD 0
  let delay := if asked ≤ 0 then 60 * second else asked
  delay + min (5 * second) (max (second / 2) (delay / 20))

/-! ## 2. Rows and workers -/

/-- The statuses of a webhook log. -/
inductive Status
  | pending | inProgress | retrying | success | error | skipped
deriving DecidableEq, Repr

/-- What the queue reads and writes of a webhook log. -/
structure Row where
  status : Status
  attempts : Nat
  startedAt : Option Int
  nextAttemptAt : Option Int
  agentResponse : Option String
  durationMs : Option Int
  completedAt : Option Int
  forceReprocess : Bool
  errorMessage : Option String
deriving DecidableEq, Repr

/-- A row as a notification inserts it. -/
def Row.new : Row := ⟨.pending, 0, none, none, none, none, none, false, none⟩

/-- A row that has reached its end. -/
def Status.Final (status : Status) : Prop := status = .success ∨ status = .error

/-- The statuses that a claim accepts. -/
def Row.claimable (row : Row) : Bool := row.status = .pending || row.status = .retrying

/-- The picking rule. -/
def Row.ready (now : Int) (row : Row) : Bool :=
  row.claimable && row.nextAttemptAt.all (· ≤ now)

/-- In progress for longer than the stale delay. -/
def Row.stale (now : Int) (row : Row) : Bool :=
  row.status = .inProgress && row.startedAt.any (· < now - staleInProgress)

/-- `_reclaim_stale_in_progress`, on one row. -/
def Row.reclaim (now : Int) (row : Row) : Row :=
  if row.stale now then { row with status := .pending } else row

/-- The values of a claim. -/
def Row.claim (now : Int) (row : Row) : Row :=
  { row with
    status := .inProgress
    attempts := row.attempts + 1
    startedAt := some now
    nextAttemptAt := none }

/-- `_mark_success`, `_mark_retrying` and `_mark_error`, with their arguments. -/
inductive Mark
  | success (agentResponse : Option String) (durationMs : Int)
  | retrying (errorMessage : String) (nextAttemptAt : Int)
  | error (errorMessage : String)
deriving DecidableEq, Repr

/-- The message as it is stored. -/
def stored (message : String) : String := String.ofList (message.toList.take 4000)

/-- What a mark writes, whatever the row holds. -/
def Mark.write (now : Int) (row : Row) : Mark → Row
  | .success response duration =>
    { row with
      status := .success, agentResponse := response, durationMs := some duration
      completedAt := some now, forceReprocess := false, errorMessage := none }
  | .retrying message next =>
    { row with
      status := .retrying, errorMessage := some (stored message), nextAttemptAt := some next }
  | .error message =>
    { row with
      status := .error, errorMessage := some (stored message), completedAt := some now
      forceReprocess := false }

/-- Where a worker stands. -/
inductive Phase
  /-- Between two calls of `process_once`. -/
  | idle
  /-- It has read the clock for its reclaim. -/
  | reclaiming (now : Int)
  /-- The reclaim is committed; the pause is still to be looked at. -/
  | reclaimed
  /-- It has read the clock for its claim. -/
  | selecting (now : Int)
  /-- It has selected a candidate. -/
  | selected (now : Int) (id : Nat)
  /-- The processor has the row; `attempts` is what the claim returned. -/
  | running (id attempts : Nat) (started : Int)
  /-- The outcome is known and not yet committed. -/
  | marking (id attempts : Nat) (mark : Mark)
  /-- Its process is gone. -/
  | dead
deriving DecidableEq, Repr

structure Worker where
  phase : Phase
  /-- `_RATE_LIMIT_COOLDOWN_UNTIL`, one for each process. -/
  cooldownUntil : Option Int
deriving DecidableEq, Repr

structure State where
  now : Int
  rows : List Row
  workers : List Worker
  handed : List Nat
  returned : List Nat

/-- What the processor makes of a row. -/
inductive Outcome
  | returned (agentResponse : Option String)
  | raised (exc : Exc)
deriving DecidableEq, Repr

inductive Op
  | tick (elapsed : Nat)
  /-- A notification inserts a row. -/
  | enqueue
  /-- A process starts. -/
  | boot
  /-- The next statement of a worker, which nothing else decides. -/
  | move (w : Nat)
  | finish (w : Nat) (outcome : Outcome)
  /-- The transaction of a mark fails. -/
  | markRaised (w : Nat) (exc : Exc)
  /-- A process is killed. -/
  | crash (w : Nat)
deriving DecidableEq, Repr

/-! ## 3. One statement -/

def State.setWorker (s : State) (w : Nat) (worker : Worker) : State :=
  { s with workers := s.workers.set w worker }

def State.setPhase (s : State) (w : Nat) (worker : Worker) (phase : Phase) : State :=
  s.setWorker w { worker with phase := phase }

def State.setRow (s : State) (id : Nat) (row : Row) : State := { s with rows := s.rows.set id row }

/-- The guarded update of `_claim_one`: it finds the row claimable, or another worker was first. -/
def stepClaim (s : State) (w : Nat) (worker : Worker) (now : Int) (id : Nat) : Option State :=
  match s.rows[id]? with
  | some row =>
    if row.claimable then
      let claimed : State := { s with handed := s.handed ++ [id] }
      some ((claimed.setRow id (row.claim now)).setPhase w worker
        (.running id (row.attempts + 1) s.now))
    else some (s.setPhase w worker .idle)
  | none => some (s.setPhase w worker .idle)

/-- The next statement of `process_once`. -/
def stepMove (s : State) (w : Nat) (worker : Worker) : Option State :=
  match worker.phase with
  | .idle => some (s.setPhase w worker (.reclaiming s.now))
  | .reclaiming now =>
    let reset : State := { s with rows := s.rows.map (Row.reclaim now) }
    some (reset.setPhase w worker .reclaimed)
  | .reclaimed =>
    if worker.cooldownUntil.any (s.now < ·) then some (s.setPhase w worker .idle)
    else some (s.setPhase w worker (.selecting s.now))
  | .selecting now =>
    match s.rows.findIdx? (·.ready now) with
    | some id => some (s.setPhase w worker (.selected now id))
    | none => some (s.setPhase w worker .idle)
  | .selected now id => stepClaim s w worker now id
  | .marking id _ mark =>
    match s.rows[id]? with
    | some row => some ((s.setRow id (mark.write s.now row)).setPhase w worker .idle)
    | none => some (s.setPhase w worker .idle)
  | .running .. | .dead => none

/-- The `except` branch of `process_once`: the mark to make, and the pause of the process. -/
def failed (now : Int) (worker : Worker) (id attempts : Nat) (exc : Exc) : Worker :=
  if attempts ≥ maxAttempts then { worker with phase := .marking id attempts (.error exc.message) }
  else if isRateLimitError exc then
    ⟨.marking id attempts (.retrying exc.message (now + rateLimitDelay exc)),
      some (now + rateLimitDelay exc)⟩
  else
    { worker with
      phase := .marking id attempts (.retrying exc.message (now + backoffForAttempt attempts)) }

/-- The processor returns or raises. -/
def stepFinish (s : State) (w : Nat) (worker : Worker) (outcome : Outcome) : Option State :=
  match worker.phase, outcome with
  | .running id attempts started, .returned response =>
    some ({ s with returned := s.returned ++ [id] }.setPhase w worker
      (.marking id attempts (.success response ((s.now - started) / 1000))))
  | .running id attempts _, .raised exc =>
    some (s.setWorker w (failed s.now worker id attempts exc))
  | _, _ => none

/-- `_mark_success` is inside the `try`, so that its failure is a failure of the run; that of
another mark ends the call, and the row stays in progress. -/
def stepMarkRaised (s : State) (w : Nat) (worker : Worker) (exc : Exc) : Option State :=
  match worker.phase with
  | .marking id attempts (.success ..) => some (s.setWorker w (failed s.now worker id attempts exc))
  | .marking _ _ (.retrying ..) | .marking _ _ (.error _) => some (s.setPhase w worker .idle)
  | _ => none

/-- One statement; `none` where the worker is not at that point. -/
def step (s : State) : Op → Option State
  | .tick elapsed => some { s with now := s.now + elapsed }
  | .enqueue => some { s with rows := s.rows ++ [Row.new] }
  | .boot => some { s with workers := s.workers ++ [⟨.idle, none⟩] }
  | .move w => s.workers[w]? >>= stepMove s w
  | .finish w outcome => s.workers[w]? >>= (stepFinish s w · outcome)
  | .markRaised w exc => s.workers[w]? >>= (stepMarkRaised s w · exc)
  | .crash w => s.workers[w]?.map (s.setPhase w · .dead)

/-- An empty queue without workers. -/
def start (now : Int) : State := ⟨now, [], [], [], []⟩

/-! ## 4. What a statement does -/

/-- The row that a live worker has, and the attempt it is. -/
def Phase.held : Phase → Option (Nat × Nat)
  | .running id attempts _ | .marking id attempts _ => some (id, attempts)
  | .idle | .reclaiming _ | .reclaimed | .selecting _ | .selected .. | .dead => none

def Worker.row (worker : Worker) : Option Nat := worker.phase.held.map (·.1)

/-- The rows that live workers have. -/
def State.liveRows (s : State) : List Nat := s.workers.filterMap Worker.row

/-- A mark that puts a row back is made before the last attempt, and a success is marked where the
processor returned. -/
def Phase.sound (returned : List Nat) : Phase → Prop
  | .marking _ attempts (.retrying ..) => attempts < maxAttempts
  | .marking id _ (.success ..) => id ∈ returned
  | _ => True

/-- A mark that is not that of a success. -/
def Phase.failing : Phase → Bool
  | .marking _ _ (.retrying ..) | .marking _ _ (.error _) => true
  | _ => false

/-- What a statement does to the rows and to what the workers have. -/
inductive Effect (s : State) : Op → State → Prop
  /-- Time passes. -/
  | elapsed (d : Nat) : Effect s (.tick d) { s with now := s.now + d }
  | arrived : Effect s .enqueue { s with rows := s.rows ++ [Row.new] }
  | booted : Effect s .boot { s with workers := s.workers ++ [⟨.idle, none⟩] }
  /-- A worker that has no row, before and after. -/
  | moved {op : Op} {w : Nat} {old new : Worker} (hw : s.workers[w]? = some old)
      (hold : old.phase.held = none) (hnew : new.phase.held = none) :
      Effect s op (s.setWorker w new)
  /-- A worker learns the outcome of its row. -/
  | learnt {op : Op} {w : Nat} {old new : Worker} {returned : List Nat}
      (hw : s.workers[w]? = some old) (hsame : new.phase.held = old.phase.held)
      (hsound : new.phase.sound returned) (hsub : s.returned ⊆ returned) :
      Effect s op ({ s with returned := returned }.setWorker w new)
  /-- A worker loses its row without a mark. -/
  | lost {op : Op} {w : Nat} {old new : Worker} (hw : s.workers[w]? = some old)
      (hop : op = .crash w ∨ ∃ exc, op = .markRaised w exc ∧ old.phase.failing = true)
      (hnew : new.phase.held = none) : Effect s op (s.setWorker w new)
  /-- A mark finds no row. -/
  | absent {w : Nat} {old new : Worker} {id attempts : Nat} {mark : Mark}
      (hw : s.workers[w]? = some old) (hold : old.phase = .marking id attempts mark)
      (hid : s.rows[id]? = none) : Effect s (.move w) (s.setWorker w new)
  | reclaimed {w : Nat} {old new : Worker} {now : Int} (hw : s.workers[w]? = some old)
      (hphase : old.phase = .reclaiming now) (hnew : new.phase.held = none) :
      Effect s (.move w) ({ s with rows := s.rows.map (Row.reclaim now) }.setWorker w new)
  | claimed {w : Nat} {old new : Worker} {id : Nat} {row : Row} {now : Int}
      (hw : s.workers[w]? = some old) (hold : old.phase.held = none)
      (hid : s.rows[id]? = some row) (hclaimable : row.claimable = true)
      (hnew : new.phase.held = some (id, row.attempts + 1)) (hsound : new.phase.sound s.returned) :
      Effect s (.move w)
        (({ s with handed := s.handed ++ [id] }.setRow id (row.claim now)).setWorker w new)
  | marked {w : Nat} {old new : Worker} {id attempts : Nat} {mark : Mark} {row : Row}
      (hw : s.workers[w]? = some old) (hold : old.phase = .marking id attempts mark)
      (hid : s.rows[id]? = some row) (hnew : new.phase.held = none) :
      Effect s (.move w) ((s.setRow id (mark.write s.now row)).setWorker w new)

variable {s s' : State} {op : Op} {w : Nat} {worker : Worker}

theorem failed_held (now : Int) (worker : Worker) (id attempts : Nat) (exc : Exc) :
    (failed now worker id attempts exc).phase.held = some (id, attempts) := by
  unfold failed
  split
  · rfl
  · split
    · rfl
    · rfl

theorem failed_sound (now : Int) (worker : Worker) (id attempts : Nat) (exc : Exc)
    (returned : List Nat) :
    (failed now worker id attempts exc).phase.sound returned := by
  unfold failed
  split
  · trivial
  · rename_i hlt
    split
    · exact Nat.lt_of_not_le hlt
    · exact Nat.lt_of_not_le hlt

theorem stepMove_effect (hw : s.workers[w]? = some worker) (h : stepMove s w worker = some s') :
    Effect s (.move w) s' := by
  unfold stepMove at h
  split at h
  · rename_i hphase
    cases h
    exact .moved hw (by rw [hphase]; rfl) rfl
  · rename_i now hphase
    cases h
    exact .reclaimed hw hphase rfl
  · rename_i hphase
    split at h
    · cases h
      exact .moved hw (by rw [hphase]; rfl) rfl
    · cases h
      exact .moved hw (by rw [hphase]; rfl) rfl
  · rename_i now hphase
    split at h
    · cases h
      exact .moved hw (by rw [hphase]; rfl) rfl
    · cases h
      exact .moved hw (by rw [hphase]; rfl) rfl
  · rename_i now id hphase
    have hold : worker.phase.held = none := by rw [hphase]; rfl
    unfold stepClaim at h
    split at h
    · rename_i row hid
      split at h
      · rename_i hclaimable
        cases h
        exact .claimed hw hold hid hclaimable rfl trivial
      · cases h
        exact .moved hw hold rfl
    · cases h
      exact .moved hw hold rfl
  · rename_i id attempts mark hphase
    split at h
    · rename_i row hid
      cases h
      exact .marked hw hphase hid rfl
    · rename_i hid
      cases h
      exact .absent hw hphase hid
  · cases h
  · cases h

/-- **Every statement has one of the effects.** -/
theorem step_effect (hstep : step s op = some s') : Effect s op s' := by
  cases op with
  | tick elapsed =>
    cases hstep
    exact .elapsed elapsed
  | enqueue =>
    cases hstep
    exact .arrived
  | boot =>
    cases hstep
    exact .booted
  | move w =>
    obtain ⟨worker, hw, h⟩ := Option.bind_eq_some_iff.mp hstep
    exact stepMove_effect hw h
  | finish w outcome =>
    obtain ⟨worker, hw, h⟩ := Option.bind_eq_some_iff.mp hstep
    unfold stepFinish at h
    split at h
    · rename_i id attempts started response hphase
      cases h
      refine .learnt hw (by rw [hphase]; rfl) ?_ (List.subset_append_left _ _)
      exact List.mem_append_right _ (List.mem_singleton_self _)
    · rename_i id attempts started exc hphase
      cases h
      refine .learnt hw ?_ (failed_sound _ _ _ _ _ _) (List.Subset.refl _)
      rw [failed_held, hphase]
      rfl
    · cases h
  | markRaised w exc =>
    obtain ⟨worker, hw, h⟩ := Option.bind_eq_some_iff.mp hstep
    unfold stepMarkRaised at h
    split at h
    · rename_i id attempts _ _ hphase
      cases h
      refine .learnt hw ?_ (failed_sound _ _ _ _ _ _) (List.Subset.refl _)
      rw [failed_held, hphase]
      rfl
    · rename_i hphase
      cases h
      exact .lost hw (.inr ⟨exc, rfl, by rw [hphase]; rfl⟩) rfl
    · rename_i hphase
      cases h
      exact .lost hw (.inr ⟨exc, rfl, by rw [hphase]; rfl⟩) rfl
    · cases h
  | crash w =>
    obtain ⟨worker, hw, rfl⟩ := Option.map_eq_some_iff.mp hstep
    exact .lost hw (.inl rfl) rfl

/-! ## 5. No row is run twice at a time -/

/-- A reclaim resets no row that a live worker has. -/
def State.spares (s : State) (now : Int) : Bool :=
  s.liveRows.all fun id => !(s.rows[id]?).any (Row.stale now)

/-- The reclaims spare the rows of live workers: no run outlasts the stale delay before its outcome
is marked. -/
def sparesLive (s : State) : Op → Bool
  | .move w =>
    match s.workers[w]? with
    | some ⟨.reclaiming now, _⟩ => s.spares now
    | _ => true
  | _ => true

/-- The reclaim of the step, if it is one, spares the rows of live workers. -/
def SparesLive (s : State) (op : Op) : Prop := sparesLive s op = true

instance (s : State) (op : Op) : Decidable (SparesLive s op) :=
  inferInstanceAs (Decidable (_ = true))

/-- What a live worker has is in progress, at the attempt the worker knows, and its own. -/
structure Inv (s : State) : Prop where
  held : ∀ worker ∈ s.workers, ∀ id attempts, worker.phase.held = some (id, attempts) →
    ∃ row, s.rows[id]? = some row ∧ row.status = .inProgress ∧ row.attempts = attempts
  alone : s.liveRows.Nodup
  sound : ∀ worker ∈ s.workers, worker.phase.sound s.returned

theorem mem_liveRows {id : Nat} :
    id ∈ s.liveRows ↔ ∃ worker ∈ s.workers, ∃ attempts, worker.phase.held = some (id, attempts) := by
  simp only [State.liveRows, Worker.row, List.mem_filterMap, Option.map_eq_some_iff, Prod.exists,
    exists_and_right, exists_eq_right]

/-- The row of a live worker is not ready to be claimed. -/
theorem Inv.not_claimable (h : Inv s) {id : Nat} {row : Row} (hid : s.rows[id]? = some row)
    (hlive : id ∈ s.liveRows) : row.status = .inProgress := by
  obtain ⟨worker, hworker, attempts, hheld⟩ := mem_liveRows.mp hlive
  obtain ⟨row', hid', hstatus, -⟩ := h.held worker hworker id attempts hheld
  rw [hid] at hid'
  cases hid'
  exact hstatus

theorem row_eq_none {worker : Worker} (h : worker.phase.held = none) : worker.row = none := by
  simp [Worker.row, h]

theorem sound_of_held {phase : Phase} {returned : List Nat} (h : phase.held = none) :
    phase.sound returned := by
  cases phase with
  | marking id attempts mark => cases h
  | _ => trivial

theorem Phase.sound.mono {phase : Phase} {returned returned' : List Nat}
    (h : phase.sound returned) (hsub : returned ⊆ returned') : phase.sound returned' := by
  cases phase with
  | marking id attempts mark =>
    cases mark with
    | success response duration => exact hsub h
    | retrying message next => exact h
    | error message => trivial
  | _ => trivial

theorem row_congr {worker worker' : Worker} (h : worker'.phase.held = worker.phase.held) :
    worker'.row = worker.row := by
  simp [Worker.row, h]

/-- A worker that lets go of its row, or keeps it, or never had one. -/
theorem Inv.setWorker (h : Inv s) {old new : Worker} (hw : s.workers[w]? = some old)
    (hnew : new.phase.held = none ∨ new.phase.held = old.phase.held)
    (hsound : new.phase.sound s.returned) : Inv (s.setWorker w new) where
  held worker hworker id attempts hheld := by
    rcases List.mem_or_eq_of_mem_set hworker with hmem | rfl
    · exact h.held worker hmem id attempts hheld
    · rcases hnew with hnone | hsame
      · rw [hnone] at hheld
        cases hheld
      · exact h.held old (List.mem_of_getElem? hw) id attempts (hsame ▸ hheld)
  alone := by
    rcases hnew with hnone | hsame
    · exact h.alone.sublist (Replace.filterMap_set_sublist hw (row_eq_none hnone))
    · rw [State.liveRows, State.setWorker, Replace.filterMap_set_same hw (row_congr hsame)]
      exact h.alone
  sound worker hworker := by
    rcases List.mem_or_eq_of_mem_set hworker with hmem | rfl
    · exact h.sound worker hmem
    · exact hsound

/-- The rows change, and those of the live workers stay as they are. -/
theorem Inv.withRows (h : Inv s) {rows : List Row} (handed : List Nat)
    (hkeep : ∀ id ∈ s.liveRows, rows[id]? = s.rows[id]?) :
    Inv { s with rows := rows, handed := handed } where
  held worker hworker id attempts hheld := by
    obtain ⟨row, hid, hrow⟩ := h.held worker hworker id attempts hheld
    exact ⟨row, (hkeep id (mem_liveRows.mpr ⟨worker, hworker, attempts, hheld⟩)).trans hid, hrow⟩
  alone := h.alone
  sound := h.sound

theorem Inv.claimed (h : Inv s) {old new : Worker} {id : Nat} {row : Row} {now : Int}
    (hw : s.workers[w]? = some old) (hold : old.phase.held = none) (hid : s.rows[id]? = some row)
    (hclaimable : row.claimable = true) (hnew : new.phase.held = some (id, row.attempts + 1))
    (hsound : new.phase.sound s.returned) :
    Inv (({ s with handed := s.handed ++ [id] }.setRow id (row.claim now)).setWorker w new) := by
  -- A row that can be claimed is no live worker's.
  have hfree : id ∉ s.liveRows := by
    intro hlive
    rw [Row.claimable, h.not_claimable hid hlive] at hclaimable
    cases hclaimable
  have hlt : id < s.rows.length := (List.getElem?_eq_some_iff.mp hid).1
  refine ⟨?_, ?_, ?_⟩
  · intro worker hworker id' attempts hheld
    rcases List.mem_or_eq_of_mem_set hworker with hmem | rfl
    · obtain ⟨row', hid', hrow'⟩ := h.held worker hmem id' attempts hheld
      have hne : id ≠ id' := by
        rintro rfl
        exact hfree (mem_liveRows.mpr ⟨worker, hmem, attempts, hheld⟩)
      exact ⟨row', (List.getElem?_set_ne hne).trans hid', hrow'⟩
    · rw [hnew] at hheld
      cases hheld
      exact ⟨row.claim now, List.getElem?_set_self hlt, rfl, rfl⟩
  · have hrow : new.row = some id := by simp [Worker.row, hnew]
    have hperm := Replace.filterMap_set_perm hw (row_eq_none hold) hrow
    exact hperm.nodup_iff.mpr (List.nodup_cons.mpr ⟨hfree, h.alone⟩)
  · intro worker hworker
    rcases List.mem_or_eq_of_mem_set hworker with hmem | rfl
    · exact h.sound worker hmem
    · exact hsound

/-- The row of a worker is no other worker's. -/
theorem Inv.others (h : Inv s) {old new : Worker} {id attempts : Nat}
    (hw : s.workers[w]? = some old) (hold : old.phase.held = some (id, attempts))
    (hnew : new.phase.held = none) : id ∉ (s.setWorker w new).liveRows := by
  have hback : (s.setWorker w new).workers[w]? = some new :=
    List.getElem?_set_self (List.getElem?_eq_some_iff.mp hw).1
  have hrow : old.row = some id := by simp [Worker.row, hold]
  have hperm := Replace.filterMap_set_perm hback (row_eq_none hnew) hrow
  have hsame : ((s.workers.set w new).set w old) = s.workers := by
    obtain ⟨hlt, rfl⟩ := List.getElem?_eq_some_iff.mp hw
    rw [List.set_set]
    exact List.set_getElem_self hlt
  have hnodup := h.alone
  rw [State.liveRows, ← hsame] at hnodup
  exact (List.nodup_cons.mp (hperm.nodup_iff.mp hnodup)).1

/-- **One statement keeps the invariant**, if it spares the rows of the live workers. -/
theorem Inv.step (h : Inv s) (hok : SparesLive s op) (hs : Effect s op s') : Inv s' := by
  cases hs with
  | elapsed d => exact ⟨h.held, h.alone, h.sound⟩
  | arrived =>
    refine h.withRows s.handed fun id hlive => ?_
    obtain ⟨worker, hworker, attempts, hheld⟩ := mem_liveRows.mp hlive
    obtain ⟨row, hid, -⟩ := h.held worker hworker id attempts hheld
    exact List.getElem?_append_left (List.getElem?_eq_some_iff.mp hid).1
  | booted =>
    refine ⟨?_, ?_, ?_⟩
    · intro worker hworker id attempts hheld
      rcases List.mem_append.mp hworker with hmem | hlast
      · exact h.held worker hmem id attempts hheld
      · rw [List.mem_singleton.mp hlast] at hheld
        cases hheld
    · have hidle : [(⟨.idle, none⟩ : Worker)].filterMap Worker.row = [] := rfl
      simpa only [State.liveRows, List.filterMap_append, hidle, List.append_nil] using h.alone
    · intro worker hworker
      rcases List.mem_append.mp hworker with hmem | hlast
      · exact h.sound worker hmem
      · rw [List.mem_singleton.mp hlast]
        trivial
  | moved hw hold hnew => exact h.setWorker hw (.inl hnew) (sound_of_held hnew)
  | learnt hw hsame hsound hsub =>
    rename_i w old new returned
    have hmore : Inv { s with returned := returned } :=
      ⟨h.held, h.alone, fun worker hworker => (h.sound worker hworker).mono hsub⟩
    exact hmore.setWorker hw (.inr hsame) hsound
  | lost hw _ hnew => exact h.setWorker hw (.inl hnew) (sound_of_held hnew)
  | absent hw hold hid =>
    obtain ⟨row, hfound, -⟩ := h.held _ (List.mem_of_getElem? hw) _ _ (by rw [hold]; rfl)
    rw [hid] at hfound
    cases hfound
  | reclaimed hw hphase hnew =>
    rename_i w old new now
    have hspares : s.spares now = true := by
      obtain ⟨phase, cooldown⟩ := old
      subst hphase
      simpa only [SparesLive, sparesLive, hw] using hok
    have hrows : Inv { s with rows := s.rows.map (Row.reclaim now) } :=
      h.withRows s.handed fun id hlive => by
        rw [List.getElem?_map]
        cases hid : s.rows[id]? with
        | none => rfl
        | some row =>
          have hfresh := List.all_eq_true.mp hspares id hlive
          simp only [hid, Option.any_some, Bool.not_eq_true'] at hfresh
          simp [Row.reclaim, hfresh]
    exact hrows.setWorker hw (.inl hnew) (sound_of_held hnew)
  | claimed hw hold hid hclaimable hnew hsound =>
    exact h.claimed hw hold hid hclaimable hnew hsound
  | marked hw hold hid hnew =>
    rename_i w old new id attempts mark row
    have hheld : old.phase.held = some (id, attempts) := by rw [hold]; rfl
    have hgone := h.others hw hheld hnew
    have hset := h.setWorker hw (.inl hnew) (sound_of_held hnew)
    refine hset.withRows s.handed fun id' hlive => List.getElem?_set_ne ?_
    rintro rfl
    exact hgone hlive

/-- A row that has reached its end keeps its status. -/
theorem Inv.final (h : Inv s) (hs : Effect s op s') {id : Nat} {row : Row}
    (hid : s.rows[id]? = some row) (hfinal : row.status.Final) :
    ∃ row', s'.rows[id]? = some row' ∧ row'.status = row.status := by
  have hother : ∀ {id' : Nat} {row' : Row}, s.rows[id']? = some row' → ¬ row'.status.Final →
      ∀ new : Row, (s.rows.set id' new)[id]? = some row := by
    intro id' row' hid' hopen new
    have hne : id' ≠ id := by
      rintro rfl
      rw [hid] at hid'
      cases hid'
      exact hopen hfinal
    exact (List.getElem?_set_ne hne).trans hid
  cases hs with
  | arrived => exact ⟨row, (List.getElem?_append_left (List.getElem?_eq_some_iff.mp hid).1).trans
      hid, rfl⟩
  | reclaimed hw hphase hnew =>
    rename_i w old new now
    have hkept : Row.reclaim now row = row := by
      rcases hfinal with hstatus | hstatus
      · simp [Row.reclaim, Row.stale, hstatus]
      · simp [Row.reclaim, Row.stale, hstatus]
    refine ⟨row, ?_, rfl⟩
    change (s.rows.map (Row.reclaim now))[id]? = some row
    rw [List.getElem?_map, hid, Option.map_some, hkept]
  | claimed hw hold hid' hclaimable hnew hsound =>
    refine ⟨row, hother hid' ?_ _, rfl⟩
    rintro (hstatus | hstatus)
    · simp [Row.claimable, hstatus] at hclaimable
    · simp [Row.claimable, hstatus] at hclaimable
  | marked hw hold hid' hnew =>
    refine ⟨row, hother hid' ?_ _, rfl⟩
    obtain ⟨found, hfound, hstatus, -⟩ :=
      h.held _ (List.mem_of_getElem? hw) _ _ (by rw [hold]; rfl)
    rw [hid'] at hfound
    cases hfound
    rw [hstatus]
    rintro (hcase | hcase)
    · cases hcase
    · cases hcase
  | _ => exact ⟨row, hid, rfl⟩

/-- The row that a live worker is running. -/
def Worker.runs (worker : Worker) : Option Nat :=
  match worker.phase with
  | .running id _ _ => some id
  | _ => none

/-- The queue runs each row once: in the state `s`, and from it to the state `s'`. -/
structure RunsOnce (s s' : State) : Prop where
  /-- No row is being run by two live workers. -/
  alone : (s.workers.filterMap Worker.runs).Nodup
  /-- No row leaves `success` or `error`. -/
  final : ∀ (id : Nat) row, s.rows[id]? = some row → row.status.Final →
    ∃ row', s'.rows[id]? = some row' ∧ row'.status = row.status

theorem runs_sublist (workers : List Worker) :
    (workers.filterMap Worker.runs).Sublist (workers.filterMap Worker.row) := by
  induction workers with
  | nil => exact List.Sublist.refl _
  | cons worker rest ih =>
    obtain ⟨phase, cooldown⟩ := worker
    cases phase with
    | running id attempts started => exact ih.cons_cons id
    | marking id attempts mark => exact ih.cons id
    | _ => exact ih

theorem start_inv (now : Int) : Inv (start now) where
  held worker hworker := by cases hworker
  alone := List.nodup_nil
  sound worker hworker := by cases hworker

theorem Inv.reach (h : Inv s) (hrun : Reach Backlog.step SparesLive s s') : Inv s' :=
  hrun.invariant h fun _ _ _ hinv hok hs => hinv.step hok (step_effect hs)

/-- **The queue runs each row once**, as long as no reclaim resets a row that a live worker has. -/
theorem queue_runs_once {now : Int} (hrun : Reach step SparesLive (start now) s)
    (hlater : Reach step SparesLive s s') : RunsOnce s s' := by
  have hinv : Inv s := (start_inv now).reach hrun
  refine ⟨hinv.alone.sublist (runs_sublist s.workers), ?_⟩
  intro id row hid hfinal
  induction hlater with
  | refl => exact ⟨row, hid, rfl⟩
  | tail hreach hok hs ih =>
    obtain ⟨row', hid', hstatus⟩ := ih
    obtain ⟨row'', hid'', hstatus'⟩ :=
      (hinv.reach hreach).final (step_effect hs) hid' (hstatus ▸ hfinal)
    exact ⟨row'', hid'', hstatus'.trans hstatus⟩

/-- The statements that take a worker from one call to the claim of a row. -/
def take (w : Nat) : List Op := [.move w, .move w, .move w, .move w, .move w]

/-- A rate limit of the provider. -/
def limited : Exc := ⟨"RateLimitError", "429: retry in 20s"⟩

/-- A row that fails once, waits for what the provider asked and 5 % more, and succeeds. -/
def retried : List Op :=
  [.enqueue, .boot] ++ take 0 ++ [.finish 0 (.raised limited), .move 0, .tick 21000000] ++
    take 0 ++ [.finish 0 (.returned (some "ok")), .move 0]

/-- The rule applies to it: the row is at its end after two attempts, and nothing changes it. -/
theorem queue_runs_once_retried :
    ∃ s, Reach step SparesLive (start 0) s ∧
      s.rows.map (fun row => (row.status, row.attempts)) = [(.success, 2)] ∧ RunsOnce s s := by
  have hplay : (replay step SparesLive (start 0) retried).map
      (fun s => s.rows.map fun row => (row.status, row.attempts)) = some [(.success, 2)] := by
    decide
  obtain ⟨s, hs, hout⟩ := Option.map_eq_some_iff.mp hplay
  have hrun := Reach.of_replay retried hs
  exact ⟨s, hrun, hout, queue_runs_once hrun .refl⟩

/-- A run of a little more than ten minutes: a second worker resets its row and runs it too. -/
def slowRun : List Op := [.enqueue, .boot, .boot] ++ take 0 ++ [.tick 600000001] ++ take 1

/-- The second worker succeeds. -/
def secondSucceeds : List Op := [.finish 1 (.returned none), .move 1]

/-- The first one fails after that. -/
def firstFails : List Op := [.finish 0 (.raised ⟨"Timeout", ""⟩), .move 0]

/-- **A slow run is run twice**, and its late outcome replaces that of the other worker. -/
theorem slow_run_repeats :
    (¬ ∀ now s s', Reach step anyStep (start now) s → Reach step anyStep s s' →
      (s.workers.filterMap Worker.runs).Nodup) ∧
    ¬ ∀ now s s', Reach step anyStep (start now) s → Reach step anyStep s s' → RunsOnce s s' := by
  constructor
  · intro hall
    have hplay : (replay step anyStep (start 0) slowRun).map
        (·.workers.filterMap Worker.runs) = some [0, 0] := by decide
    obtain ⟨s, hs, hout⟩ := Option.map_eq_some_iff.mp hplay
    have hnodup := hall 0 s s (Reach.of_replay slowRun hs) .refl
    rw [hout] at hnodup
    exact absurd hnodup (by decide)
  · intro hall
    have hplay : (replay step anyStep (start 0) (slowRun ++ secondSucceeds)).bind (fun s =>
        (replay step anyStep s firstFails).map fun s' => (s.rows.map (·.status),
          s'.rows.map (·.status))) = some ([.success], [.retrying]) := by decide
    obtain ⟨s, hs, hlater⟩ := Option.bind_eq_some_iff.mp hplay
    obtain ⟨s', hs', hout⟩ := Option.map_eq_some_iff.mp hlater
    have hbefore : s.rows.map (·.status) = [.success] := congrArg Prod.fst hout
    have hafter : s'.rows.map (·.status) = [.retrying] := congrArg Prod.snd hout
    have honce := hall 0 s s' (Reach.of_replay _ hs) (Reach.of_replay firstFails hs')
    obtain ⟨row, hrow, hstatus⟩ : ∃ row, s.rows[0]? = some row ∧ row.status = .success := by
      have := congrArg (·[0]?) hbefore
      simpa using this
    obtain ⟨row', hrow', hsame⟩ := honce.final 0 row hrow (.inl hstatus)
    have hlate := congrArg (·[0]?) hafter
    simp [hrow', hsame, hstatus] at hlate

end Apowerb.Webhook.Backlog
