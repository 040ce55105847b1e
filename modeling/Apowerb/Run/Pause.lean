/-
# A run that pauses, is answered, and pauses again

The life of one run as a machine whose operations are the database transactions of
`core/run_main.py`, in any order and by any number of parties.  A PARTY is whoever may act on the
run: the process that started it (party 0), and one party for each answer.  An answer goes
through three transactions of `claim_paused_run` (`enter`, `read`, `claim`); if its guarded
UPDATE goes through, the same party then resumes the run from the snapshot it READ
(`_decision_resume_stream`), calls `mark_decided` when the engine takes the answer, and may pause
the run again or finish it.  A party may stop at any point and never act again.

The guard of the UPDATE is `status = 'awaiting'`.  A run can leave that status and come back to
it for another decision between an answer's `read` and its `claim`, and the guard does not see
it.  So:

* `stale_answer_wins` is an interleaving of two answers in which the second wins the SECOND
  decision with the snapshot of the FIRST, and the nodes between the two pauses run twice;
* `pause_answered_once` says that nothing else goes wrong: in every run in which no pause is
  recorded between the read and the claim of an answer that finds the row awaiting, and no two
  takings share a `resumed_at`, every answer wins the pause it read and every pause is taken at
  most once.

GHOST STATE (never read by a transaction): the pauses recorded so far, newest first, so that a
pause is known by its number; the stamps of the takings; and what each taking won.
-/
import Apowerb.Lib.Runs
import Apowerb.Run.Row

namespace Apowerb.Run

open Runs

variable {κ : Type}

/-! ## 1. The machine -/

/-- An answer as it was posted. -/
structure Request where
  user : String
  choice : Option String
  text : Option String
deriving DecidableEq, Repr

/-- What an answer holds once it has read the row. -/
structure Claim (κ : Type) where
  request : Request
  resumedAt : Int
  /-- The row, as read. -/
  data : Row
  /-- Its snapshot, unsealed. -/
  state : Snapshot κ
  /-- Ghost: the number of the pause that was read. -/
  serial : Nat

/-- Where a party stands. -/
inductive Party (κ : Type)
  /-- It has not come yet. -/
  | idle
  /-- An answer whose housekeeping is done; `resumed_at` is drawn. -/
  | entered (request : Request) (resumedAt : Int)
  /-- An answer that read the row. -/
  | read (c : Claim κ)
  /-- An answer whose UPDATE went through: it resumes the run, its decision not yet taken. -/
  | won (c : Claim κ)
  /-- It executes the nodes of the run. -/
  | executing
  /-- Refused, released, paused or finished. -/
  | closed

/-- What a pause wrote to the row. -/
structure Pause where
  pausedState : String
  decision : Decision
deriving DecidableEq, Repr

/-- A won claim: the row the answer read, the row its UPDATE found, and their pauses. -/
structure Win where
  data : Row
  found : Row
  readSerial : Nat
  foundSerial : Nat
deriving DecidableEq, Repr

/-- A taken decision: the pause whose snapshot the resumption runs from, and the latest pause. -/
structure Taken where
  resumedFrom : Nat
  latest : Nat
deriving DecidableEq, Repr

/-- The state of the run and of its parties. -/
structure State (κ : Type) where
  row : Row
  parties : Nat → Party κ
  pauses : List Pause
  stamps : List Int
  wins : List Win
  taken : List Taken

/-- The transactions. -/
inductive Op (κ : Type)
  /-- `_expire_due`, by any reader of the row. -/
  | expire (clk : Clock)
  /-- `_release_dead_resumptions`, by any reader of the row. -/
  | releaseDead (clk : Clock)
  /-- `_reconcile_if_orphaned`, by any reader of the row. -/
  | reconcile (clk : Clock)
  /-- First transaction of `claim_paused_run`: the housekeeping, then `resumed_at = _now()`. -/
  | enter (p : Nat) (request : Request) (clk : Clock) (resumedAt : Int)
  /-- Second transaction: read the row. -/
  | read (p : Nat) (clk : Clock)
  /-- Third transaction: the guarded UPDATE. -/
  | claim (p : Nat) (clk : Clock)
  /-- The engine takes the answer (`_decision_taken`). -/
  | markDecided (p : Nat)
  /-- A resumption that ends before its decision. -/
  | release (p : Nat)
  /-- A resumption its owner stops before its decision. -/
  | stop (p : Nat) (clk : Clock)
  /-- A running party reaches a decision (`pause_run`). -/
  | pause (p : Nat) (nonce : Nat) (snapshot : Snapshot κ) (now : Int)
  /-- A running party records its end (`finish_run`). -/
  | finish (p : Nat) (status : Status) (message : Option String) (clk : Clock)
  /-- The owner abandons the run. -/
  | abandon (user : String) (clk : Clock)

/-- The state with one party moved. -/
def State.move (s : State κ) (p : Nat) (next : Party κ) : State κ :=
  { s with parties := fun q => if q = p then next else s.parties q }

/-- The state with another row. -/
def State.withRow (s : State κ) (row : Row) : State κ := { s with row := row }

/-- The number of the latest pause; 0 before the first. -/
def State.serial (s : State κ) : Nat := s.pauses.length

/-- Second transaction of an answer. -/
def stepRead (V : Vault κ) (s : State κ) (p : Nat) (clk : Clock) : Option (State κ) :=
  match s.parties p with
  | .entered request resumedAt =>
    match readDecision V request.user clk s.row with
    | (row, .ok (data, state)) =>
      some ((s.withRow row).move p (.read ⟨request, resumedAt, data, state, s.serial⟩))
    | (row, .error _) => some ((s.withRow row).move p .closed)
  | _ => none

/-- Third transaction of an answer. -/
def stepClaim (s : State κ) (p : Nat) (clk : Clock) : Option (State κ) :=
  match s.parties p with
  | .read c =>
    match takeDecision c.state c.request.user c.request.choice c.request.text c.resumedAt clk
        s.row with
    | .ok (row, _) =>
      some { (s.withRow row).move p (.won c) with
        stamps := c.resumedAt :: s.stamps
        wins := ⟨c.data, s.row, c.serial, s.serial⟩ :: s.wins }
    | .error _ => some (s.move p .closed)
  | _ => none

/-- The engine takes the answer; a party whose row is no longer its own fails its node and leaves
the row to the other resumption. -/
def stepMarkDecided (s : State κ) (p : Nat) : Option (State κ) :=
  match s.parties p with
  | .won c =>
    match markDecided c.resumedAt s.row with
    | (row, true) =>
      some { (s.withRow row).move p .executing with
        taken := ⟨c.serial, s.serial⟩ :: s.taken }
    | (_, false) => some (s.move p .closed)
  | _ => none

/-- A pause.  A resumption may reach another decision before its own: the row is written all the
same. -/
def stepPause (V : Vault κ) (s : State κ) (p : Nat) (nonce : Nat) (snapshot : Snapshot κ)
    (now : Int) : Option (State κ) :=
  let paused : State κ :=
    { (s.withRow (pauseRun V nonce snapshot now s.row)).move p .closed with
      pauses := ⟨sealPause V nonce snapshot now, pauseDecision snapshot now⟩ :: s.pauses }
  match s.parties p with
  | .won _ => some paused
  | .executing => some paused
  | _ => none

/-- One transaction; `none` where the party is not at that point. -/
def step (V : Vault κ) (s : State κ) : Op κ → Option (State κ)
  | .expire clk => some (s.withRow (expireDue clk s.row))
  | .releaseDead clk => some (s.withRow (releaseDeadResumptions clk s.row))
  | .reconcile clk => some (s.withRow (reconcileIfOrphaned clk s.row))
  | .enter p request clk resumedAt =>
    match s.parties p with
    | .idle =>
      some ((s.withRow (expireDue clk (releaseDeadResumptions clk s.row))).move p
        (.entered request resumedAt))
    | _ => none
  | .read p clk => stepRead V s p clk
  | .claim p clk => stepClaim s p clk
  | .markDecided p => stepMarkDecided s p
  | .release p =>
    match s.parties p with
    | .won _ => some ((s.withRow (releasePausedRun s.row)).move p .closed)
    | _ => none
  | .stop p clk =>
    match s.parties p with
    | .won c => some ((s.withRow (stopUnansweredResume c.resumedAt clk s.row)).move p .closed)
    | _ => none
  | .pause p nonce snapshot now => stepPause V s p nonce snapshot now
  | .finish p status message clk =>
    match s.parties p with
    | .executing =>
      if status.isFinal then
        some ((s.withRow (finishRun status message clk s.row)).move p .closed)
      else none
    | _ => none
  | .abandon user clk =>
    some (s.withRow (abandonPausedRun V.lower user clk
      (expireDue clk (releaseDeadResumptions clk s.row))).1)

/-- `start_run`: the row of a run that starts. -/
def startRow (runId ownerId : String) (createdAt : Int) (isRetry : Bool) : Row where
  runId := runId
  ownerId := ownerId
  status := .running
  assignee := none
  errorMessage := none
  pausedState := none
  decision := none
  createdAt := some createdAt
  resumedAt := none
  expiresAt := none
  finishedAt := none
  remindAt := none
  notifiedAt := none
  remindedAt := none
  endNotice := none
  failureState := none
  failureNode := none
  isRetry := isRetry

/-- A run that has just started: party 0 executes it. -/
def start (row : Row) : State κ where
  row := row
  parties := fun p => if p = 0 then .executing else .idle
  pauses := []
  stamps := []
  wins := []
  taken := []

/-! ## 2. What is to hold -/

/-- Each pause is answered at most once, and with its own snapshot. -/
structure Safe (s : State κ) : Prop where
  /-- A claim that went through found the pause its answer had read and checked. -/
  samePause : ∀ w ∈ s.wins, w.found.pausedState = w.data.pausedState ∧
    w.found.decision = w.data.decision ∧ w.foundSerial = w.readSerial
  /-- A resumption that executes nodes runs from the snapshot of the latest pause. -/
  fromLatest : ∀ t ∈ s.taken, t.resumedFrom = t.latest
  /-- No two resumptions execute the nodes that follow one pause. -/
  once : (s.taken.map (·.resumedFrom)).Nodup

/-- An answer that is about to take the row read its latest pause, and its stamp is fresh. -/
def Current (s : State κ) : Party κ → Prop
  | .read c => s.row.status = .awaiting → c.serial = s.serial ∧ c.resumedAt ∉ s.stamps
  | _ => True

/-- The condition: at each guarded UPDATE that finds the row awaiting, no pause was recorded
since the answer read the row, and no earlier taking has its `resumed_at`. -/
def AnswersCurrentPause (s : State κ) : Op κ → Prop
  | .claim p _ => Current s (s.parties p)
  | _ => True

instance (s : State κ) : (q : Party κ) → Decidable (Current s q)
  | .read c => inferInstanceAs
      (Decidable (s.row.status = .awaiting → c.serial = s.serial ∧ c.resumedAt ∉ s.stamps))
  | .idle | .entered .. | .won _ | .executing | .closed => .isTrue trivial

instance (s : State κ) : (op : Op κ) → Decidable (AnswersCurrentPause s op)
  | .claim p _ => inferInstanceAs (Decidable (Current s (s.parties p)))
  | .expire _ | .releaseDead _ | .reconcile _ | .enter .. | .read .. | .markDecided _
  | .release _ | .stop .. | .pause .. | .finish .. | .abandon .. => .isTrue trivial

/-! ## 3. What the other transactions can do to the row

Apart from a taking, a pause and a taken decision, a transaction does one of three things to the
four columns the argument is about: nothing, an end, or a return to `awaiting` that keeps the
snapshot it found. -/

/-- A write that neither takes the decision, nor pauses, nor clears the snapshot of a running
row. -/
inductive Quiet (row row' : Row) : Prop
  | same : row'.status = row.status → row'.pausedState = row.pausedState →
      row'.decision = row.decision → row'.resumedAt = row.resumedAt → Quiet row row'
  | ended : row'.status.isFinal = true →
      (row'.pausedState = none ∨
        row'.pausedState = row.pausedState ∧ row'.decision = row.decision) → Quiet row row'
  | released : row.pausedState ≠ none → row'.pausedState = row.pausedState →
      row'.decision = row.decision → row'.resumedAt = none → Quiet row row'

theorem Quiet.refl (row : Row) : Quiet row row := .same rfl rfl rfl rfl

theorem expireDue_quiet (clk : Clock) (row : Row) : Quiet row (expireDue clk row) := by
  unfold expireDue
  split
  · split
    · exact .ended rfl (Or.inl rfl)
    · exact .refl row
  · exact .refl row

theorem releaseDeadResumptions_quiet (clk : Clock) (row : Row) :
    Quiet row (releaseDeadResumptions clk row) := by
  unfold releaseDeadResumptions
  split
  · rename_i hp _
    split
    · exact .released (by rw [hp]; exact Option.some_ne_none _) rfl rfl rfl
    · exact .refl row
  · exact .refl row

theorem ne_none_of_truthy {text : Option String} (h : truthy text = true) : text ≠ none := by
  rintro rfl
  exact absurd h (by decide)

theorem reconcileIfOrphaned_quiet (clk : Clock) (row : Row) :
    Quiet row (reconcileIfOrphaned clk row) := by
  unfold reconcileIfOrphaned
  split
  · exact .refl row
  · split
    · exact .refl row
    · split
      · exact .refl row
      · split
        · rename_i hp
          exact .released (ne_none_of_truthy hp) rfl rfl rfl
        · exact .ended rfl (Or.inr ⟨rfl, rfl⟩)

theorem releasePausedRun_quiet (row : Row) : Quiet row (releasePausedRun row) := by
  unfold releasePausedRun
  split
  · rename_i h
    exact .released h.2 rfl rfl rfl
  · exact .refl row

theorem stopUnansweredResume_quiet (resumedAt : Int) (clk : Clock) (row : Row) :
    Quiet row (stopUnansweredResume resumedAt clk row) := by
  unfold stopUnansweredResume
  split
  · exact .ended rfl (Or.inl rfl)
  · exact .refl row

theorem finishRun_quiet {status : Status} (h : status.isFinal = true) (message : Option String)
    (clk : Clock) (row : Row) : Quiet row (finishRun status message clk row) := by
  unfold finishRun
  split
  · exact .ended h (Or.inl rfl)
  · exact .refl row

theorem abandonPausedRun_quiet (lower : String → String) (user : String) (clk : Clock)
    (row : Row) : Quiet row (abandonPausedRun lower user clk row).1 := by
  unfold abandonPausedRun
  split
  · exact .refl row
  · split
    · exact .refl row
    · split
      · exact .ended rfl (Or.inl rfl)
      · exact .refl row

/-! ## 4. The three transactions that matter -/

/-- What `_awaiting_row` lets through is the row itself, and it awaits with a snapshot. -/
theorem awaitingRow_ok {lower : String → String} {row data : Row} {user : String}
    (h : awaitingRow lower row user = .ok data) :
    data = row ∧ row.status = .awaiting ∧ row.pausedState ≠ none := by
  unfold awaitingRow at h
  split at h
  · cases h
  · split at h
    · cases h
    · cases h
    · split at h
      · cases h
      · rename_i hawait
        cases h
        simp only [ne_eq, Bool.or_eq_true, decide_eq_true_eq, not_or, not_not,
          Bool.not_eq_true, Bool.not_eq_false'] at hawait
        exact ⟨rfl, hawait.1, ne_none_of_truthy hawait.2⟩

/-- A read either holds the row as it is, or closes the run and holds nothing. -/
theorem readDecision_cases (V : Vault κ) (user : String) (clk : Clock) (row : Row) :
    (∃ state, readDecision V user clk row = (row, .ok (row, state)) ∧
      row.status = .awaiting ∧ row.pausedState ≠ none) ∨
    (∃ row' e, readDecision V user clk row = (row', .error e) ∧ Quiet row row') := by
  unfold readDecision
  split
  · exact Or.inr ⟨row, _, rfl, .refl row⟩
  · rename_i data hdata
    obtain ⟨rfl, hawait, hp⟩ := awaitingRow_ok hdata
    split
    · exact Or.inl ⟨_, rfl, hawait, hp⟩
    · exact Or.inr ⟨_, _, rfl, .ended rfl (Or.inl rfl)⟩

/-- A guarded UPDATE goes through on an awaiting row only, and moves two columns. -/
theorem takeDecision_ok {state : Snapshot κ} {user : String} {choice text : Option String}
    {resumedAt : Int} {clk : Clock} {row row' : Row} {answer : Answer}
    (h : takeDecision state user choice text resumedAt clk row = .ok (row', answer)) :
    row.status = .awaiting ∧
      row' = { row with status := .running, resumedAt := some resumedAt } := by
  unfold takeDecision at h
  cases hcheck : checkDecisionAnswer state.prompt choice text with
  | error e =>
    rw [hcheck] at h
    cases h
  | ok pair =>
    rw [hcheck] at h
    change (if row.status = .awaiting then _ else _) = _ at h
    split at h
    · rename_i hawait
      cases h
      exact ⟨hawait, rfl⟩
    · cases h

/-- A decision is taken on a running row that still carries the stamp of the taking. -/
theorem markDecided_true {resumedAt : Int} {row row' : Row}
    (h : markDecided resumedAt row = (row', true)) :
    row.status = .running ∧ row.resumedAt = some resumedAt ∧
      row' = { row with pausedState := none, decision := none, assignee := none } := by
  unfold markDecided at h
  split at h
  · rename_i hown
    cases h
    exact ⟨hown.1, hown.2, rfl⟩
  · cases h

/-! ## 5. The invariant -/

/-- What a party holds of the row it read. -/
def Party.claim? : Party κ → Option (Claim κ)
  | .read c | .won c => some c
  | _ => none

/-- The row awaits with the latest pause in it; what an answer read of the latest pause is that
pause; and the stamp in a running row designates one party, whose decision is still to take. -/
structure Inv (s : State κ) : Prop where
  awaits : s.row.status = .awaiting → s.row.pausedState ≠ none
  latest : ∀ text, s.row.pausedState = some text →
    ∃ pause older, s.pauses = pause :: older ∧ pause.pausedState = text ∧
      s.row.decision = some pause.decision
  untaken : s.row.pausedState ≠ none → s.serial ∉ s.taken.map (·.resumedFrom)
  bounded : ∀ n ∈ s.taken.map (·.resumedFrom), n ≤ s.serial
  held : ∀ p c, (s.parties p).claim? = some c → c.serial ≤ s.serial ∧
    (c.serial = s.serial → ∃ pause older, s.pauses = pause :: older ∧
      c.data.pausedState = some pause.pausedState ∧ c.data.decision = some pause.decision)
  holder : ∀ p c, s.parties p = .won c → s.row.status = .running →
    s.row.resumedAt = some c.resumedAt →
    c.serial = s.serial ∧ s.serial ∉ s.taken.map (·.resumedFrom)
  stamped : ∀ p c, s.parties p = .won c → c.resumedAt ∈ s.stamps
  distinct : ∀ p q c d, s.parties p = .won c → s.parties q = .won d →
    c.resumedAt = d.resumedAt → p = q
  safe : Safe s

theorem start_inv (runId ownerId : String) (createdAt : Int) (isRetry : Bool) :
    Inv (start (κ := κ) (startRow runId ownerId createdAt isRetry)) where
  awaits h := by cases h
  latest _ h := by cases h
  untaken h := absurd rfl h
  bounded _ h := by cases h
  held p c h := by
    simp only [start] at h
    split at h <;> cases h
  holder p c h := by
    simp only [start] at h
    split at h <;> cases h
  stamped p c h := by
    simp only [start] at h
    split at h <;> cases h
  distinct p q c d h := by
    simp only [start] at h
    split at h <;> cases h
  safe := ⟨fun _ h => (nomatch h), fun _ h => (nomatch h), List.nodup_nil⟩

section
variable {s : State κ}

@[simp] theorem State.move_row (p : Nat) (next : Party κ) : (s.move p next).row = s.row := rfl

@[simp] theorem State.move_serial (p : Nat) (next : Party κ) :
    (s.move p next).serial = s.serial := rfl

theorem State.move_self (p : Nat) (next : Party κ) : (s.move p next).parties p = next :=
  if_pos rfl

theorem State.move_other {p q : Nat} (h : q ≠ p) (next : Party κ) :
    (s.move p next).parties q = s.parties q :=
  if_neg h

/-- A party moved to a point where it holds nothing is not one that holds something. -/
theorem State.of_move_claim {p q : Nat} {next : Party κ} {c : Claim κ} (hn : next.claim? = none)
    (h : ((s.move p next).parties q).claim? = some c) : (s.parties q).claim? = some c := by
  by_cases hq : q = p
  · subst hq
    rw [State.move_self, hn] at h
    cases h
  · rwa [State.move_other hq] at h

theorem State.of_move_won {p q : Nat} {next : Party κ} {c : Claim κ}
    (hn : ∀ d, next ≠ .won d) (h : (s.move p next).parties q = .won c) :
    s.parties q = .won c := by
  by_cases hq : q = p
  · subst hq
    rw [State.move_self] at h
    exact absurd h (hn c)
  · rwa [State.move_other hq] at h

/-- A quiet write keeps the invariant. -/
theorem Inv.quiet {row : Row} (h : Inv s) (hq : Quiet s.row row) : Inv (s.withRow row) := by
  cases hq with
  | same hst hp hd hr =>
    exact { h with
      awaits := fun ha => by
        rw [show (s.withRow row).row.pausedState = s.row.pausedState from hp]
        exact h.awaits (hst ▸ ha)
      latest := fun text ht => by
        obtain ⟨pause, older, h₁, h₂, h₃⟩ := h.latest text (hp ▸ ht)
        exact ⟨pause, older, h₁, h₂, hd.trans h₃⟩
      untaken := fun hn => h.untaken (hp ▸ hn)
      holder := fun p c hw hrun hres => h.holder p c hw (hst ▸ hrun) (hr ▸ hres)
      safe := ⟨h.safe.samePause, h.safe.fromLatest, h.safe.once⟩ }
  | ended hfin hp =>
    have hnot : row.status ≠ .awaiting ∧ row.status ≠ .running := by
      constructor <;> intro he <;> rw [he] at hfin <;> cases hfin
    exact { h with
      awaits := fun ha => absurd ha hnot.1
      latest := fun text ht => by
        rcases hp with hp | ⟨hp, hd⟩
        · exact absurd (hp.symm.trans ht) (Option.some_ne_none text).symm
        · obtain ⟨pause, older, h₁, h₂, h₃⟩ := h.latest text (hp ▸ ht)
          exact ⟨pause, older, h₁, h₂, hd.trans h₃⟩
      untaken := fun hn => by
        rcases hp with hp | ⟨hp, _⟩
        · exact absurd hp hn
        · exact h.untaken (hp ▸ hn)
      holder := fun p c _ hrun _ => absurd hrun hnot.2
      safe := ⟨h.safe.samePause, h.safe.fromLatest, h.safe.once⟩ }
  | released hsome hp hd hr =>
    exact { h with
      awaits := fun _ => by
        rw [show (s.withRow row).row.pausedState = s.row.pausedState from hp]
        exact hsome
      latest := fun text ht => by
        obtain ⟨pause, older, h₁, h₂, h₃⟩ := h.latest text (hp ▸ ht)
        exact ⟨pause, older, h₁, h₂, hd.trans h₃⟩
      untaken := fun _ => h.untaken hsome
      holder := fun p c _ _ hres =>
        absurd (hr.symm.trans hres) (Option.some_ne_none c.resumedAt).symm
      safe := ⟨h.safe.samePause, h.safe.fromLatest, h.safe.once⟩ }

/-- So does a party that leaves, or that enters. -/
theorem Inv.move {p : Nat} {next : Party κ} (h : Inv s) (hn : next.claim? = none) :
    Inv (s.move p next) := by
  have hwon : ∀ d, next ≠ .won d := by
    rintro d rfl
    cases hn
  exact { h with
    held := fun q c hc => h.held q c (State.of_move_claim hn hc)
    holder := fun q c hc => h.holder q c (State.of_move_won hwon hc)
    stamped := fun q c hc => h.stamped q c (State.of_move_won hwon hc)
    distinct := fun q r c d hc hd =>
      h.distinct q r c d (State.of_move_won hwon hc) (State.of_move_won hwon hd)
    safe := ⟨h.safe.samePause, h.safe.fromLatest, h.safe.once⟩ }

/-! ## 6. One step lemma for each of the four transactions -/

/-- Reading an awaiting row: the answer now holds its latest pause. -/
theorem Inv.hold {p : Nat} {c : Claim κ} (h : Inv s) (hdata : c.data = s.row)
    (hserial : c.serial = s.serial) (hsome : s.row.pausedState ≠ none) :
    Inv (s.move p (.read c)) := by
  have hwon : ∀ d, Party.read c ≠ .won d := fun d hd => by cases hd
  refine { h with
    held := ?_
    holder := fun q d hc => h.holder q d (State.of_move_won hwon hc)
    stamped := fun q d hc => h.stamped q d (State.of_move_won hwon hc)
    distinct := fun q r d e hc hd =>
      h.distinct q r d e (State.of_move_won hwon hc) (State.of_move_won hwon hd)
    safe := ⟨h.safe.samePause, h.safe.fromLatest, h.safe.once⟩ }
  intro q d hd
  by_cases hq : q = p
  · subst hq
    rw [State.move_self] at hd
    cases hd
    refine ⟨le_of_eq hserial, fun _ => ?_⟩
    obtain ⟨text, htext⟩ := Option.ne_none_iff_exists'.mp hsome
    obtain ⟨pause, older, h₁, h₂, h₃⟩ := h.latest text htext
    exact ⟨pause, older, h₁, by rw [hdata, htext, h₂], by rw [hdata, h₃]⟩
  · rw [State.move_other hq] at hd
    exact h.held q d hd

/-- The state after an answer's UPDATE went through. -/
def State.take (s : State κ) (p : Nat) (c : Claim κ) : State κ :=
  { (s.withRow { s.row with status := .running, resumedAt := some c.resumedAt }).move p
      (.won c) with
    stamps := c.resumedAt :: s.stamps
    wins := ⟨c.data, s.row, c.serial, s.serial⟩ :: s.wins }

/-- The parties of a taking: the one that won, and the others as they were. -/
theorem State.take_won {p q : Nat} {c d : Claim κ} (h : (s.take p c).parties q = .won d) :
    (q = p ∧ d = c) ∨ (q ≠ p ∧ s.parties q = .won d) := by
  by_cases hq : q = p
  · subst hq
    have hself : (s.take q c).parties q = .won c := State.move_self q _
    rw [hself] at h
    exact Or.inl ⟨rfl, (Party.won.inj h).symm⟩
  · have hother : (s.take p c).parties q = s.parties q := State.move_other hq _
    exact Or.inr ⟨hq, hother ▸ h⟩

/-- **The taking.**  An answer that read the latest pause, and whose stamp is fresh, wins that
pause; the stamp it writes designates it alone. -/
theorem Inv.take {p : Nat} {c : Claim κ} (h : Inv s) (hread : s.parties p = .read c)
    (hawait : s.row.status = .awaiting) (hserial : c.serial = s.serial)
    (hfresh : c.resumedAt ∉ s.stamps) : Inv (s.take p c) := by
  have hclaim : (s.parties p).claim? = some c := by rw [hread]; rfl
  have hsome : s.row.pausedState ≠ none := h.awaits hawait
  obtain ⟨pause, older, hpauses, hp, hd⟩ := (h.held p c hclaim).2 hserial
  exact {
    awaits := fun ha => by cases ha
    latest := h.latest
    untaken := h.untaken
    bounded := h.bounded
    held := fun q d hq => by
      by_cases heq : q = p
      · subst heq
        have hself : (s.take q c).parties q = .won c := State.move_self q _
        rw [hself] at hq
        cases hq
        exact h.held q c hclaim
      · have hother : (s.take p c).parties q = s.parties q := State.move_other heq _
        rw [hother] at hq
        exact h.held q d hq
    holder := fun q d hq _ hres => by
      have hstamp : c.resumedAt = d.resumedAt := Option.some.inj hres
      rcases State.take_won hq with ⟨_, rfl⟩ | ⟨_, hother⟩
      · exact ⟨hserial, h.untaken hsome⟩
      · exact absurd (hstamp ▸ h.stamped q d hother) hfresh
    stamped := fun q d hq => by
      rcases State.take_won hq with ⟨_, rfl⟩ | ⟨_, hother⟩
      · exact List.mem_cons_self
      · exact List.mem_cons_of_mem _ (h.stamped q d hother)
    distinct := fun q r d e hq hr heq => by
      rcases State.take_won hq with ⟨hqp, rfl⟩ | ⟨_, hq'⟩
      · rcases State.take_won hr with ⟨hrp, _⟩ | ⟨_, hr'⟩
        · exact hqp.trans hrp.symm
        · exact absurd (heq ▸ h.stamped r e hr') hfresh
      · rcases State.take_won hr with ⟨_, rfl⟩ | ⟨_, hr'⟩
        · exact absurd (heq ▸ h.stamped q d hq') hfresh
        · exact h.distinct q r d e hq' hr' heq
    safe := by
      refine ⟨?_, h.safe.fromLatest, h.safe.once⟩
      intro w hw
      rcases List.mem_cons.mp hw with rfl | hw
      · obtain ⟨text, htext⟩ := Option.ne_none_iff_exists'.mp hsome
        obtain ⟨pause', older', hpauses', hp', hd'⟩ := h.latest text htext
        have hsame : pause' = pause := by
          rw [hpauses] at hpauses'
          exact (List.cons.inj hpauses').1.symm
        subst hsame
        exact ⟨by rw [htext, hp, hp'], hd'.trans hd.symm, hserial.symm⟩
      · exact h.safe.samePause w hw }

/-- The state after a decision is taken by the party whose stamp the row carries. -/
def State.decide (s : State κ) (p : Nat) (c : Claim κ) : State κ :=
  { (s.withRow { s.row with pausedState := none, decision := none, assignee := none }).move p
      .executing with
    taken := ⟨c.serial, s.serial⟩ :: s.taken }

theorem State.decide_won {p q : Nat} {c d : Claim κ} (h : (s.decide p c).parties q = .won d) :
    q ≠ p ∧ s.parties q = .won d := by
  by_cases hq : q = p
  · subst hq
    have hself : (s.decide q c).parties q = .executing := State.move_self q _
    rw [hself] at h
    cases h
  · exact ⟨hq, State.of_move_won (fun d hd => by cases hd) h⟩

/-- **The taken decision.**  It is the latest pause's, and no one took it before. -/
theorem Inv.decide {p : Nat} {c : Claim κ} (h : Inv s) (hwon : s.parties p = .won c)
    (hrun : s.row.status = .running) (hres : s.row.resumedAt = some c.resumedAt) :
    Inv (s.decide p c) := by
  obtain ⟨hserial, huntaken⟩ := h.holder p c hwon hrun hres
  exact {
    awaits := fun ha => by
      rw [show (s.decide p c).row.status = s.row.status from rfl, hrun] at ha
      cases ha
    latest := fun text ht => by cases ht
    untaken := fun hn => absurd rfl hn
    bounded := fun n hn => by
      rcases List.mem_cons.mp hn with rfl | hn
      · exact le_of_eq hserial
      · exact h.bounded n hn
    held := fun q d hq => h.held q d (State.of_move_claim (rfl : (Party.executing : Party κ).claim? = none) hq)
    holder := fun q d hq _ hres' => by
      obtain ⟨hne, hq'⟩ := State.decide_won hq
      have hstamp : c.resumedAt = d.resumedAt := Option.some.inj (hres.symm.trans hres')
      exact absurd (h.distinct q p d c hq' hwon hstamp.symm) hne
    stamped := fun q d hq => h.stamped q d (State.decide_won hq).2
    distinct := fun q r d e hq hr heq =>
      h.distinct q r d e (State.decide_won hq).2 (State.decide_won hr).2 heq
    safe := by
      refine ⟨h.safe.samePause, ?_, ?_⟩
      · intro t ht
        rcases List.mem_cons.mp ht with rfl | ht
        · exact hserial
        · exact h.safe.fromLatest t ht
      · exact List.nodup_cons.mpr ⟨hserial ▸ huntaken, h.safe.once⟩ }

/-- The state after a pause. -/
def State.pause (s : State κ) (p : Nat) (row : Row) (new : Pause) : State κ :=
  { (s.withRow row).move p .closed with pauses := new :: s.pauses }

/-- **The pause.**  It is a new one: nothing read before is of it, and no stamp holds its row. -/
theorem Inv.pause {p : Nat} {row : Row} {new : Pause} (h : Inv s)
    (hstatus : row.status = .awaiting) (hp : row.pausedState = some new.pausedState)
    (hd : row.decision = some new.decision) : Inv (s.pause p row new) := by
  have hserial : (s.pause p row new).serial = s.serial + 1 := rfl
  have hnotTaken : s.serial + 1 ∉ s.taken.map (·.resumedFrom) := fun hmem =>
    absurd (h.bounded _ hmem) (by omega)
  have hwon : ∀ q c, (s.pause p row new).parties q = .won c → s.parties q = .won c :=
    fun q c hq => State.of_move_won (fun d hd => by cases hd) hq
  exact {
    awaits := fun _ => by
      rw [show (s.pause p row new).row.pausedState = _ from hp]
      exact Option.some_ne_none _
    latest := fun text ht => ⟨new, s.pauses, rfl, Option.some.inj (hp.symm.trans ht), hd⟩
    untaken := fun _ => hnotTaken
    bounded := fun n hn => le_trans (h.bounded n hn) (Nat.le_succ _)
    held := fun q c hq => by
      have hle := (h.held q c (State.of_move_claim (rfl : (Party.closed : Party κ).claim? = none) hq)).1
      exact ⟨by omega, fun heq => by omega⟩
    holder := fun q c _ hrun _ => by
      rw [show (s.pause p row new).row.status = _ from hstatus] at hrun
      cases hrun
    stamped := fun q c hq => h.stamped q c (hwon q c hq)
    distinct := fun q r c d hq hr heq => h.distinct q r c d (hwon q c hq) (hwon r d hr) heq
    safe := ⟨h.safe.samePause, h.safe.fromLatest, h.safe.once⟩ }

/-! ## 7. Every run -/

theorem Inv.stepRead {V : Vault κ} {s' : State κ} {p : Nat} {clk : Clock} (h : Inv s)
    (hs : stepRead V s p clk = some s') : Inv s' := by
  unfold Run.stepRead at hs
  split at hs
  · rename_i request resumedAt _
    rcases readDecision_cases V request.user clk s.row with
      ⟨state, heq, _, hsome⟩ | ⟨row', e, heq, hquiet⟩
    · rw [heq] at hs
      cases hs
      exact h.hold rfl rfl hsome
    · rw [heq] at hs
      cases hs
      exact (h.quiet hquiet).move rfl
  · cases hs

theorem Inv.stepClaim {s' : State κ} {p : Nat} {clk : Clock} (h : Inv s)
    (hok : Current s (s.parties p)) (hs : stepClaim s p clk = some s') : Inv s' := by
  unfold Run.stepClaim at hs
  split at hs
  · rename_i c hread
    split at hs
    · rename_i row answer htake
      obtain ⟨hawait, rfl⟩ := takeDecision_ok htake
      rw [hread] at hok
      obtain ⟨hserial, hfresh⟩ := hok hawait
      cases hs
      exact h.take hread hawait hserial hfresh
    · cases hs
      exact h.move rfl
  · cases hs

theorem Inv.stepMarkDecided {s' : State κ} {p : Nat} (h : Inv s)
    (hs : stepMarkDecided s p = some s') : Inv s' := by
  unfold Run.stepMarkDecided at hs
  split at hs
  · rename_i c hwon
    split at hs
    · rename_i row hmark
      obtain ⟨hrun, hres, rfl⟩ := markDecided_true hmark
      cases hs
      exact h.decide hwon hrun hres
    · cases hs
      exact h.move rfl
  · cases hs

theorem Inv.stepPause {V : Vault κ} {s' : State κ} {p nonce : Nat} {snapshot : Snapshot κ}
    {now : Int} (h : Inv s) (hs : stepPause V s p nonce snapshot now = some s') : Inv s' := by
  unfold Run.stepPause at hs
  split at hs
  · cases hs
    exact h.pause rfl rfl rfl
  · cases hs
    exact h.pause rfl rfl rfl
  · cases hs

/-- Every transaction that meets the condition keeps the invariant. -/
theorem Inv.step {V : Vault κ} {s' : State κ} {op : Op κ} (h : Inv s)
    (hok : AnswersCurrentPause s op) (hs : step V s op = some s') : Inv s' := by
  cases op with
  | expire clk =>
    cases hs
    exact h.quiet (expireDue_quiet clk _)
  | releaseDead clk =>
    cases hs
    exact h.quiet (releaseDeadResumptions_quiet clk _)
  | reconcile clk =>
    cases hs
    exact h.quiet (reconcileIfOrphaned_quiet clk _)
  | enter p request clk resumedAt =>
    unfold Run.step at hs
    dsimp only at hs
    split at hs
    · cases hs
      have hreleased := h.quiet (releaseDeadResumptions_quiet clk _)
      exact Inv.move (hreleased.quiet (expireDue_quiet clk _)) rfl
    · cases hs
  | read p clk => exact h.stepRead hs
  | claim p clk => exact h.stepClaim hok hs
  | markDecided p => exact h.stepMarkDecided hs
  | release p =>
    unfold Run.step at hs
    dsimp only at hs
    split at hs
    · cases hs
      exact (h.quiet (releasePausedRun_quiet _)).move rfl
    · cases hs
  | stop p clk =>
    unfold Run.step at hs
    dsimp only at hs
    split at hs
    · cases hs
      exact (h.quiet (stopUnansweredResume_quiet _ clk _)).move rfl
    · cases hs
  | pause p nonce snapshot now => exact h.stepPause hs
  | finish p status message clk =>
    unfold Run.step at hs
    dsimp only at hs
    split at hs
    · split at hs
      · rename_i hfinal
        cases hs
        exact (h.quiet (finishRun_quiet hfinal message clk _)).move rfl
      · cases hs
    · cases hs
  | abandon user clk =>
    cases hs
    have hreleased := h.quiet (releaseDeadResumptions_quiet clk _)
    have hexpired := hreleased.quiet (expireDue_quiet clk _)
    exact hexpired.quiet (abandonPausedRun_quiet V.lower user clk _)

end

/-- **Each pause is answered at most once, with its own snapshot**, in every run in which no
pause is recorded between an answer's read and its guarded UPDATE, and no two takings share a
stamp. -/
theorem pause_answered_once (V : Vault κ) (runId ownerId : String) (createdAt : Int)
    (isRetry : Bool) {s : State κ}
    (h : Reach (step V) AnswersCurrentPause (start (startRow runId ownerId createdAt isRetry)) s) :
    Safe s :=
  (h.invariant (start_inv runId ownerId createdAt isRetry)
    fun _ _ _ hinv hok hs => hinv.step hok hs).safe

/-! ## 8. Two pauses, two answers -/

/-- A vault for runs on concrete data: it seals to a text that names the node and the moment of
the pause, and reads it back from the pauses it knows. -/
def sampleVault : Vault Unit where
  lower := id
  sealText _ snapshot := if snapshot.nodeId = "review" then "sealed-review" else "sealed-pay"
  unsealText text :=
    if text = "sealed-review" then some (sampleSnapshot "review") else some (sampleSnapshot "pay")
where
  /-- Two approvals that offer one choice. -/
  sampleSnapshot (nodeId : String) : Snapshot Unit :=
    ⟨nodeId, ⟨"ok?", some "choices", [⟨some "yes", "Yes"⟩], none, some 1⟩, (), none⟩

/-- The run of `ana`, just started. -/
def sampleStart : State Unit := start (startRow "run" "ana" 0 false)

/-- A run that pauses twice, each pause answered before the next. -/
def samplePausedTwice : List (Op Unit) :=
  let ask := sampleVault.sampleSnapshot
  let yes : Request := ⟨"ana", some "yes", none⟩
  [.pause 0 0 (ask "review") 10, .enter 1 yes ⟨20, 20⟩ 20, .read 1 ⟨21, 21⟩,
    .claim 1 ⟨22, 22⟩, .markDecided 1, .pause 1 1 (ask "pay") 30, .enter 2 yes ⟨40, 40⟩ 40,
    .read 2 ⟨41, 41⟩, .claim 2 ⟨42, 42⟩, .markDecided 2]

/-- The rule applies to a run that is answered twice. -/
theorem pause_answered_once_twice :
    ∃ s, replay (step sampleVault) AnswersCurrentPause sampleStart samplePausedTwice = some s ∧
      s.taken = [⟨2, 2⟩, ⟨1, 1⟩] ∧ Safe s := by
  have hrun : (replay (step sampleVault) AnswersCurrentPause sampleStart samplePausedTwice).map
      State.taken = some [⟨2, 2⟩, ⟨1, 1⟩] := by decide
  obtain ⟨s, hs, htaken⟩ := Option.map_eq_some_iff.mp hrun
  exact ⟨s, hs, htaken,
    pause_answered_once sampleVault "run" "ana" 0 false (Reach.of_replay _ hs)⟩

/-- Two answers read the first pause; one of them is taken and the run pauses again; the other
then finds the row awaiting. -/
def sampleStaleAnswer : List (Op Unit) :=
  let ask := sampleVault.sampleSnapshot
  let yes : Request := ⟨"ana", some "yes", none⟩
  [.pause 0 0 (ask "review") 10, .enter 1 yes ⟨20, 20⟩ 20, .read 1 ⟨21, 21⟩,
    .enter 2 yes ⟨22, 22⟩ 22, .read 2 ⟨23, 23⟩, .claim 1 ⟨24, 24⟩, .markDecided 1,
    .pause 1 1 (ask "pay") 30, .claim 2 ⟨31, 31⟩, .markDecided 2]

/-- **A stale answer wins the next pause.**  The second answer, read and checked against the
first decision, wins the second one, and the run goes on from the first snapshot again. -/
theorem stale_answer_wins :
    ¬ ∀ (V : Vault Unit) (s : State Unit), Reach (step V) anyStep sampleStart s → Safe s := by
  intro hall
  have hrun : (replay (step sampleVault) anyStep sampleStart sampleStaleAnswer).map State.taken =
      some [⟨1, 2⟩, ⟨1, 1⟩] := by decide
  obtain ⟨s, hs, htaken⟩ := Option.map_eq_some_iff.mp hrun
  have hsafe := hall sampleVault s (Reach.of_replay _ hs)
  have honce := hsafe.once
  rw [htaken] at honce
  exact absurd honce (by decide)

end Apowerb.Run
