/-
# Notices of a decision

A run that awaits a decision has it announced, and later recalled, by any number of passes of
`decision_notices.tick`.  A pass reads the row of the run (`_rows`), reserves the notice by an
UPDATE that is guarded by the status and by the mark of the notice (`_reserve`), and sends what it
READ (`_ask`).  In between, the run may be answered, go on, and pause again: `pause_run` clears
both marks.  The guard does not name the pause, so a pass that read one pause can reserve the
notice of the next.

* `notices_right`: where no pause is recorded between the reading and a reservation that goes
  through, every message is that of the pause it was reserved for, no pause is announced or
  recalled twice, and a pause that is marked as announced has a message of its own.
* `stale_notice_marks_next_pause` is a pass that read the first question, and marks the second
  pause with it.

A pass that is cancelled while it sends gives its reservation back, so that a message may leave
twice; that is a shutdown, and not one of the operations here.

GHOST STATE: the number of the pause that a notice was read in, and reserved for.
-/
import Apowerb.Lib.Replace
import Apowerb.Run.Pause

namespace Apowerb.Run.Notices

open Runs

variable {κ : Type}

/-! ## 1. What a notice says -/

/-- What a message takes from outside of the run: the name of the workflow, the address of the
application, and how a deadline is shown. -/
structure Surroundings where
  workflowName : String
  appUrl : String
  deadline : Int → String

/-- The arguments of `_send`: the lines of the mail, and those of the Teams card. -/
structure Message where
  recipient : String
  subject : String
  lines : List String
  link : String
  card : List String
deriving DecidableEq, Repr

/-- `row.get("assignee") or row["owner_id"]`. -/
def recipient (assignee : Option String) (ownerId : String) : String :=
  match assignee with
  | some "" | none => ownerId
  | some name => name

/-- `_ask`, from the columns that it reads of the row. -/
def ask (env : Surroundings) (runId ownerId : String) (assignee : Option String)
    (decision : Option Decision) (reminder : Bool) : Message :=
  let closing := (decision.map fun d =>
    "Sans réponse le " ++ env.deadline d.expiresAt ++ ", le run s'arrêtera.").toList
  { recipient := recipient assignee ownerId
    subject := (if reminder then "Rappel : décision" else "Décision") ++ " attendue — " ++
      env.workflowName
    lines := ["Le workflow « " ++ env.workflowName ++ " » attend ta décision :",
      (decision.map (·.prompt.question)).getD ""] ++ closing
    link := env.appUrl ++ "/workflows?decision=" ++ runId
    card := ["Le workflow « " ++ env.workflowName ++ " » attend ta décision.",
      "Ouvre la page Workflows pour lire la question et répondre."] ++ closing }

/-- The assignee that a pause writes. -/
def assigneeOf (lower : String → String) (decision : Decision) : Option String :=
  decision.prompt.assignee.map fun a => lower (Text.strip a)

/-- `_remind_moment`: recomputed for a pause from before the column. -/
def remindAt (row : Row) : Option Int :=
  match row.remindAt, row.expiresAt with
  | some moment, _ => some moment
  | none, none => none
  | none, some expires =>
    let paused := (row.decision.map (·.pausedAt)).getD
      (expires - defaultDecisionHours * microsPerHour)
    some (remindMoment paused expires)

/-! ## 2. The machine -/

/-- Where a notice stands. -/
inductive Stage
  | read
  /-- Reserved for this pause; the message is on its way. -/
  | reserved (serial : Nat)
  | sent (serial : Nat)
  /-- Another pass was faster, or the run no longer awaits. -/
  | dropped
deriving DecidableEq, Repr

/-- A notice of a pass: the row it read, in which pause, and what became of it. -/
structure Notice where
  reminder : Bool
  row : Row
  serial : Nat
  stage : Stage
deriving DecidableEq, Repr

structure State (κ : Type) where
  run : Run.State κ
  notices : List Notice

inductive Op (κ : Type)
  /-- A transaction on the run: an answer, a resumption, a pause, an end, housekeeping. -/
  | run (op : Run.Op κ)
  /-- A pass at `now` reads the row, if the notice is due. -/
  | look (reminder : Bool) (now : Int)
  /-- The guarded UPDATE, with the `now` of the pass. -/
  | reserve (i : Nat) (stamp : Int)
  /-- The message leaves. -/
  | send (i : Nat)

/-- The mark of a notice on the row. -/
def mark (reminder : Bool) (row : Row) : Option Int :=
  if reminder then row.remindedAt else row.notifiedAt

/-- `_rows`, and the moment of a reminder. -/
def isDue (reminder : Bool) (now : Int) (row : Row) : Bool :=
  row.status = .awaiting ∧ mark reminder row = none ∧
    (reminder → row.notifiedAt ≠ none ∧ ∃ moment ∈ remindAt row, moment ≤ now)

/-- `_reserve`: the row with the mark. -/
def reserved (reminder : Bool) (stamp : Int) (row : Row) : Row :=
  if reminder then { row with remindedAt := some stamp } else { row with notifiedAt := some stamp }

def State.setStage (s : State κ) (i : Nat) (n : Notice) (stage : Stage) : State κ :=
  { s with notices := s.notices.set i { n with stage := stage } }

/-- Mark the row if it awaits and is not marked. -/
def stepReserve (s : State κ) (i : Nat) (stamp : Int) : Option (State κ) :=
  match s.notices[i]? with
  | some n =>
    if n.stage = .read then
      if s.run.row.status = .awaiting ∧ mark n.reminder s.run.row = none then
        let marked : State κ :=
          { s with run := s.run.withRow (reserved n.reminder stamp s.run.row) }
        some (marked.setStage i n (.reserved s.run.serial))
      else some (s.setStage i n .dropped)
    else none
  | none => none

def stepSend (s : State κ) (i : Nat) : Option (State κ) :=
  match s.notices[i]? with
  | some n =>
    match n.stage with
    | .reserved serial => some (s.setStage i n (.sent serial))
    | _ => none
  | none => none

/-- One transaction, or one message; `none` where it cannot happen. -/
def step (V : Vault κ) (s : State κ) : Op κ → Option (State κ)
  | .run op => (Run.step V s.run op).map fun run => { s with run := run }
  | .look reminder now =>
    if isDue reminder now s.run.row then
      some { s with notices := s.notices ++ [⟨reminder, s.run.row, s.run.serial, .read⟩] }
    else none
  | .reserve i stamp => stepReserve s i stamp
  | .send i => stepSend s i

/-- A run that has just started, and no pass yet. -/
def start (row : Row) : State κ := ⟨Run.start row, []⟩

/-! ## 3. What is to hold -/

/-- The pause a notice is reserved for. -/
def Stage.serial? : Stage → Option Nat
  | .reserved serial | .sent serial => some serial
  | .read | .dropped => none

/-- The message of a notice, from the row it read. -/
def Notice.message (n : Notice) (env : Surroundings) : Message :=
  ask env n.row.runId n.row.ownerId n.row.assignee n.row.decision n.reminder

/-- The message that is due to a pause. -/
def pauseMessage (env : Surroundings) (lower : String → String) (runId ownerId : String)
    (pause : Pause) (reminder : Bool) : Message :=
  ask env runId ownerId (assigneeOf lower pause.decision) (some pause.decision) reminder

/-- A pause by its number, from 1. -/
def pauseAt (s : Run.State κ) (serial : Nat) : Option Pause :=
  if serial = 0 then none else s.pauses.reverse[serial - 1]?

/-- The pauses that a kind of notice was reserved for. -/
def State.reservedFor (s : State κ) (reminder : Bool) : List Nat :=
  s.notices.filterMap fun n => if n.reminder = reminder then n.stage.serial? else none

/-- The right message to the right person, once. -/
structure Right (V : Vault κ) (s : State κ) : Prop where
  /-- A message is that of the pause it was reserved for. -/
  own : ∀ n ∈ s.notices, ∀ serial, n.stage.serial? = some serial →
    ∃ pause, pauseAt s.run serial = some pause ∧ ∀ env,
      n.message env = pauseMessage env V.lower s.run.row.runId s.run.row.ownerId pause n.reminder
  /-- A pause is announced once, and recalled once. -/
  once : ∀ reminder, (s.reservedFor reminder).Nodup
  /-- A pause that is marked has its own message. -/
  told : ∀ reminder, mark reminder s.run.row ≠ none → s.run.serial ∈ s.reservedFor reminder

/-- A reservation that is to go through finds the pause that its notice was read in. -/
def Fresh (s : Run.State κ) (n : Notice) : Prop :=
  s.row.status = .awaiting ∧ mark n.reminder s.row = none → n.serial = s.serial

/-- The condition: no pause was recorded between the reading and a reservation that goes
through. -/
def ReservesReadPause (s : State κ) : Op κ → Prop
  | .reserve i _ => ∀ n ∈ s.notices[i]?, Fresh s.run n
  | _ => True

/-! ## 4. What the transactions on the run leave of the row

Apart from a pause, a transaction on the run leaves the marks; it either leaves what the pause
wrote as well, or clears it and does not leave the run awaiting. -/

/-- The columns that only a pause and a reservation write, and that nothing writes. -/
def marks (row : Row) : String × String × Option Int × Option Int :=
  (row.runId, row.ownerId, row.notifiedAt, row.remindedAt)

/-- What a pause writes of itself. -/
def content (row : Row) : Option String × Option Decision × Option String :=
  (row.pausedState, row.decision, row.assignee)

/-- A transaction that is not a pause. -/
structure Frame (row row' : Row) : Prop where
  marks : marks row' = marks row
  kept : row'.pausedState ≠ none → content row' = content row
  awaits : row'.status = .awaiting →
    row.status = .awaiting ∧ row'.pausedState = row.pausedState ∨ row'.pausedState ≠ none

theorem Frame.refl (row : Row) : Frame row row := ⟨rfl, fun _ => rfl, fun h => .inl ⟨h, rfl⟩⟩

theorem Frame.trans {row₁ row₂ row₃ : Row} (h₁ : Frame row₁ row₂) (h₂ : Frame row₂ row₃) :
    Frame row₁ row₃ where
  marks := h₂.marks.trans h₁.marks
  kept hne := by
    have hsame := h₂.kept hne
    have hp : row₃.pausedState = row₂.pausedState := congrArg Prod.fst hsame
    exact hsame.trans (h₁.kept (hp ▸ hne))
  awaits hst := by
    rcases h₂.awaits hst with ⟨hst₂, hp⟩ | hne
    · rw [hp]
      exact h₁.awaits hst₂
    · exact .inr hne

/-- A transaction that closes the run. -/
theorem Frame.closed {row row' : Row} (hmarks : Notices.marks row' = Notices.marks row)
    (hp : row'.pausedState = none) (hst : row'.status ≠ .awaiting) : Frame row row' :=
  ⟨hmarks, fun h => absurd hp h, fun h => absurd h hst⟩

/-- A transaction that only changes the status. -/
theorem Frame.same {row row' : Row} (hmarks : Notices.marks row' = Notices.marks row)
    (hcontent : content row' = content row)
    (hst : row'.status = .awaiting → row.pausedState ≠ none) : Frame row row' := by
  have hp : row'.pausedState = row.pausedState := congrArg Prod.fst hcontent
  exact ⟨hmarks, fun _ => hcontent, fun h => .inr (hp ▸ hst h)⟩

theorem expireDue_frame (clk : Clock) (row : Row) : Frame row (expireDue clk row) := by
  unfold expireDue
  split
  · split
    · exact .closed rfl rfl (by simp)
    · exact .refl row
  · exact .refl row

theorem releaseDeadResumptions_frame (clk : Clock) (row : Row) :
    Frame row (releaseDeadResumptions clk row) := by
  unfold releaseDeadResumptions
  split
  · rename_i hp _
    split
    · exact .same rfl rfl fun _ => by simp [hp]
    · exact .refl row
  · exact .refl row

theorem reconcileIfOrphaned_frame (clk : Clock) (row : Row) :
    Frame row (reconcileIfOrphaned clk row) := by
  unfold reconcileIfOrphaned
  split
  · exact .refl row
  · split
    · exact .refl row
    · split
      · exact .refl row
      · split
        · rename_i hp
          exact .same rfl rfl fun _ => ne_none_of_truthy hp
        · exact .same rfl rfl fun h => by cases h

theorem readDecision_frame (V : Vault κ) (user : String) (clk : Clock) (row : Row) :
    Frame row (readDecision V user clk row).1 := by
  unfold readDecision
  split
  · exact .refl row
  · split
    · exact .refl row
    · exact .closed rfl rfl (by simp)

theorem markDecided_frame (resumedAt : Int) (row : Row) :
    Frame row (markDecided resumedAt row).1 := by
  unfold markDecided
  split
  · rename_i h
    exact .closed rfl rfl (by simp [h.1])
  · exact .refl row

theorem releasePausedRun_frame (row : Row) : Frame row (releasePausedRun row) := by
  unfold releasePausedRun
  split
  · rename_i h
    exact .same rfl rfl fun _ => h.2
  · exact .refl row

theorem stopUnansweredResume_frame (resumedAt : Int) (clk : Clock) (row : Row) :
    Frame row (stopUnansweredResume resumedAt clk row) := by
  unfold stopUnansweredResume
  split
  · exact .closed rfl rfl (by simp)
  · exact .refl row

theorem finishRun_frame {status : Status} (h : status.isFinal = true) (message : Option String)
    (clk : Clock) (row : Row) : Frame row (finishRun status message clk row) := by
  unfold finishRun
  split
  · refine .closed rfl rfl ?_
    rintro rfl
    cases h
  · exact .refl row

theorem abandonPausedRun_frame (lower : String → String) (user : String) (clk : Clock)
    (row : Row) : Frame row (abandonPausedRun lower user clk row).1 := by
  unfold abandonPausedRun
  split
  · exact .refl row
  · split
    · exact .refl row
    · split
      · exact .closed rfl rfl (by simp)
      · exact .refl row

theorem claim_frame {s s' : Run.State κ} {p : Nat} {clk : Clock} (h : stepClaim s p clk = some s') :
    Frame s.row s'.row ∧ s'.pauses = s.pauses := by
  unfold stepClaim at h
  split at h
  · split at h
    · rename_i row _ htake
      obtain ⟨_, rfl⟩ := takeDecision_ok htake
      cases h
      exact ⟨.same rfl rfl (fun hst => by cases hst), rfl⟩
    · cases h
      exact ⟨.refl _, rfl⟩
  · cases h

/-- A pause of the run. -/
def Paused (V : Vault κ) (s s' : Run.State κ) : Prop :=
  ∃ nonce snapshot now, s'.row = pauseRun V nonce snapshot now s.row ∧
    s'.pauses = ⟨sealPause V nonce snapshot now, pauseDecision snapshot now⟩ :: s.pauses

/-- A transaction of the run that is not a pause. -/
def Kept (s s' : Run.State κ) : Prop := Frame s.row s'.row ∧ s'.pauses = s.pauses

/-- **A transaction on the run is a pause, or keeps to the frame.** -/
theorem run_cases {V : Vault κ} {s s' : Run.State κ} {op : Run.Op κ}
    (hs : Run.step V s op = some s') : Paused V s s' ∨ Kept s s' := by
  cases op with
  | expire clk =>
    cases hs
    exact .inr ⟨expireDue_frame clk s.row, rfl⟩
  | releaseDead clk =>
    cases hs
    exact .inr ⟨releaseDeadResumptions_frame clk s.row, rfl⟩
  | reconcile clk =>
    cases hs
    exact .inr ⟨reconcileIfOrphaned_frame clk s.row, rfl⟩
  | enter p request clk resumedAt =>
    simp only [Run.step] at hs
    split at hs
    · cases hs
      exact .inr ⟨(releaseDeadResumptions_frame clk s.row).trans (expireDue_frame clk _), rfl⟩
    · cases hs
  | read p clk =>
    simp only [Run.step, stepRead] at hs
    split at hs
    · rename_i request _ _
      have hframe := readDecision_frame V request.user clk s.row
      split at hs
      · rename_i row _ _ hread
        rw [hread] at hframe
        cases hs
        exact .inr ⟨hframe, rfl⟩
      · rename_i row _ hread
        rw [hread] at hframe
        cases hs
        exact .inr ⟨hframe, rfl⟩
    · cases hs
  | claim p clk => exact .inr (claim_frame hs)
  | markDecided p =>
    simp only [Run.step, stepMarkDecided] at hs
    split at hs
    · rename_i c _
      have hframe := markDecided_frame c.resumedAt s.row
      split at hs
      · rename_i row hmark
        rw [hmark] at hframe
        cases hs
        exact .inr ⟨hframe, rfl⟩
      · cases hs
        exact .inr ⟨.refl _, rfl⟩
    · cases hs
  | release p =>
    simp only [Run.step] at hs
    split at hs
    · cases hs
      exact .inr ⟨releasePausedRun_frame s.row, rfl⟩
    · cases hs
  | stop p clk =>
    simp only [Run.step] at hs
    split at hs
    · cases hs
      exact .inr ⟨stopUnansweredResume_frame _ clk s.row, rfl⟩
    · cases hs
  | pause p nonce snapshot now =>
    simp only [Run.step, stepPause] at hs
    split at hs
    · cases hs
      exact .inl ⟨nonce, snapshot, now, rfl, rfl⟩
    · cases hs
      exact .inl ⟨nonce, snapshot, now, rfl, rfl⟩
    · cases hs
  | finish p status message clk =>
    simp only [Run.step] at hs
    split at hs
    · split at hs
      · rename_i hfinal
        cases hs
        exact .inr ⟨finishRun_frame hfinal message clk s.row, rfl⟩
      · cases hs
    · cases hs
  | abandon user clk =>
    cases hs
    exact .inr ⟨(releaseDeadResumptions_frame clk s.row).trans
      ((expireDue_frame clk _).trans (abandonPausedRun_frame V.lower user clk _)), rfl⟩

/-! ## 5. The invariant -/

/-- The row carries this pause: its decision and its assignee. -/
def Carries (V : Vault κ) (row : Row) (pause : Pause) : Prop :=
  row.decision = some pause.decision ∧ row.assignee = assigneeOf V.lower pause.decision

/-- A notice read the pause of its number, and is reserved for that one; a mark on the row is that
of a notice of the latest pause. -/
structure Inv (V : Vault κ) (s : State κ) : Prop where
  awaits : s.run.row.status = .awaiting → s.run.row.pausedState ≠ none
  latest : s.run.row.pausedState ≠ none →
    ∃ pause older, s.run.pauses = pause :: older ∧ Carries V s.run.row pause
  read : ∀ n ∈ s.notices, n.serial ≤ s.run.serial ∧
    n.row.runId = s.run.row.runId ∧ n.row.ownerId = s.run.row.ownerId ∧
    ∃ pause, pauseAt s.run n.serial = some pause ∧ Carries V n.row pause
  reserved : ∀ n ∈ s.notices, ∀ serial, n.stage.serial? = some serial → serial = n.serial
  once : ∀ reminder, (s.reservedFor reminder).Nodup
  marked : ∀ reminder, mark reminder s.run.row ≠ none ↔ s.run.serial ∈ s.reservedFor reminder

section

variable {V : Vault κ} {s s' : State κ}

theorem mem_reservedFor {reminder : Bool} {serial : Nat} :
    serial ∈ s.reservedFor reminder ↔
      ∃ n ∈ s.notices, n.reminder = reminder ∧ n.stage.serial? = some serial := by
  unfold State.reservedFor
  simp only [List.mem_filterMap, Option.ite_none_right_eq_some]

theorem pauseAt_latest {run : Run.State κ} {pause : Pause} {older : List Pause}
    (h : run.pauses = pause :: older) : pauseAt run run.serial = some pause := by
  unfold pauseAt Run.State.serial
  rw [h]
  simp

/-- Pauses that are recorded later leave the earlier numbers. -/
theorem pauseAt_cons {run run' : Run.State κ} {pause : Pause} {serial : Nat}
    (h : run'.pauses = pause :: run.pauses) (hle : serial ≤ run.serial) :
    pauseAt run' serial = pauseAt run serial := by
  unfold pauseAt
  split
  · rfl
  · rename_i hpos
    unfold Run.State.serial at hle
    rw [h, List.reverse_cons, List.getElem?_append_left]
    rw [List.length_reverse]
    omega

theorem Inv.right (h : Inv V s) : Right V s where
  own n hn serial hserial := by
    obtain ⟨_, hrun, howner, pause, hpause, hdecision, hassignee⟩ := h.read n hn
    rw [h.reserved n hn serial hserial]
    refine ⟨pause, hpause, fun env => ?_⟩
    unfold Notice.message pauseMessage
    rw [hrun, howner, hdecision, hassignee]
  once := h.once
  told reminder hmark := (h.marked reminder).mp hmark

/-- The pauses reserved so far are among those recorded. -/
theorem Inv.reserved_le (h : Inv V s) {reminder : Bool} {serial : Nat}
    (hmem : serial ∈ s.reservedFor reminder) : serial ≤ s.run.serial := by
  obtain ⟨n, hn, _, hserial⟩ := mem_reservedFor.mp hmem
  rw [h.reserved n hn serial hserial]
  exact (h.read n hn).1

theorem Inv.keep (h : Inv V s) {run : Run.State κ} (hkept : Kept s.run run) :
    Inv V { s with run := run } := by
  obtain ⟨hframe, hpauses⟩ := hkept
  have hmarks := hframe.marks
  simp only [marks, Prod.mk.injEq] at hmarks
  obtain ⟨hrun, howner, hnotified, hreminded⟩ := hmarks
  have hserial : run.serial = s.run.serial := congrArg List.length hpauses
  have hpauseAt : ∀ serial, pauseAt run serial = pauseAt s.run serial := by
    intro serial
    unfold pauseAt
    rw [hpauses]
  refine ⟨?_, ?_, ?_, h.reserved, h.once, ?_⟩
  · intro hst
    rcases hframe.awaits hst with ⟨hst, hp⟩ | hne
    · change run.row.pausedState ≠ none
      rw [hp]
      exact h.awaits hst
    · exact hne
  · intro hne
    have hcontent := hframe.kept hne
    simp only [content, Prod.mk.injEq] at hcontent
    obtain ⟨hp, hdecision, hassignee⟩ := hcontent
    obtain ⟨pause, older, hlatest, hcarries⟩ := h.latest (hp ▸ hne)
    exact ⟨pause, older, hpauses.trans hlatest, hdecision.trans hcarries.1,
      hassignee.trans hcarries.2⟩
  · intro n hn
    obtain ⟨hle, hr, ho, pause, hpause, hcarries⟩ := h.read n hn
    exact ⟨hserial ▸ hle, hr.trans hrun.symm, ho.trans howner.symm, pause,
      (hpauseAt _).trans hpause, hcarries⟩
  · intro reminder
    have hmark : mark reminder run.row = mark reminder s.run.row := by
      unfold mark
      rw [hnotified, hreminded]
    change mark reminder run.row ≠ none ↔ run.serial ∈ s.reservedFor reminder
    rw [hmark, hserial]
    exact h.marked reminder

/-- **A pause**: it clears the marks, and no notice was reserved for it. -/
theorem Inv.pause (h : Inv V s) {run : Run.State κ} (hpaused : Paused V s.run run) :
    Inv V { s with run := run } := by
  obtain ⟨nonce, snapshot, now, hrow, hpauses⟩ := hpaused
  have hserial : run.serial = s.run.serial + 1 := congrArg List.length hpauses
  refine ⟨?_, ?_, ?_, h.reserved, h.once, ?_⟩
  · intro _
    change run.row.pausedState ≠ none
    rw [hrow]
    exact Option.some_ne_none _
  · intro _
    refine ⟨_, _, hpauses, ?_⟩
    change Carries V run.row _
    rw [hrow]
    exact ⟨rfl, rfl⟩
  · intro n hn
    obtain ⟨hle, hr, ho, pause, hpause, hcarries⟩ := h.read n hn
    refine ⟨?_, ?_, ?_, pause, (pauseAt_cons hpauses hle).trans hpause, hcarries⟩
    · change n.serial ≤ run.serial
      omega
    · change n.row.runId = run.row.runId
      rw [hrow]
      exact hr
    · change n.row.ownerId = run.row.ownerId
      rw [hrow]
      exact ho
  · intro reminder
    have hmark : mark reminder run.row = none := by
      rw [hrow]
      cases reminder <;> rfl
    have hfresh : run.serial ∉ s.reservedFor reminder := by
      intro hmem
      have := h.reserved_le hmem
      omega
    exact ⟨fun hne => absurd hmark hne, fun hmem => absurd hmem hfresh⟩

/-- **A reading** finds the latest pause. -/
theorem Inv.look (h : Inv V s) {reminder : Bool} {now : Int}
    (hdue : isDue reminder now s.run.row = true) :
    Inv V { s with notices := s.notices ++ [⟨reminder, s.run.row, s.run.serial, .read⟩] } := by
  have hawaits : s.run.row.status = .awaiting := by
    unfold isDue at hdue
    rw [decide_eq_true_eq] at hdue
    exact hdue.1
  obtain ⟨pause, older, hlatest, hcarries⟩ := h.latest (h.awaits hawaits)
  have hsame : ∀ kind, State.reservedFor
      { s with notices := s.notices ++ [⟨reminder, s.run.row, s.run.serial, .read⟩] } kind =
        s.reservedFor kind := by
    intro kind
    simp [State.reservedFor, Stage.serial?]
  refine ⟨h.awaits, h.latest, ?_, ?_, ?_, ?_⟩
  · intro n hn
    rcases List.mem_append.mp hn with hold | hnew
    · exact h.read n hold
    · rw [List.mem_singleton.mp hnew]
      exact ⟨le_rfl, rfl, rfl, pause, pauseAt_latest hlatest, hcarries⟩
  · intro n hn serial hserial
    rcases List.mem_append.mp hn with hold | hnew
    · exact h.reserved n hold serial hserial
    · rw [List.mem_singleton.mp hnew] at hserial
      cases hserial
  · intro kind
    rw [hsame]
    exact h.once kind
  · intro kind
    rw [hsame]
    exact h.marked kind

/-- A notice that moves on, and is reserved for what it was. -/
theorem Inv.setStage (h : Inv V s) {i : Nat} {n : Notice} {stage : Stage}
    (hi : s.notices[i]? = some n) (hstage : stage.serial? = n.stage.serial?) :
    Inv V (s.setStage i n stage) := by
  have hn := List.mem_of_getElem? hi
  have hsame : ∀ kind, (s.setStage i n stage).reservedFor kind = s.reservedFor kind := by
    intro kind
    refine Replace.filterMap_set_same hi ?_
    simp only [hstage]
  refine ⟨h.awaits, h.latest, ?_, ?_, ?_, ?_⟩
  · intro m hm
    rcases List.mem_or_eq_of_mem_set hm with hold | rfl
    · exact h.read m hold
    · exact h.read n hn
  · intro m hm serial hserial
    rcases List.mem_or_eq_of_mem_set hm with hold | rfl
    · exact h.reserved m hold serial hserial
    · exact h.reserved n hn serial (hstage ▸ hserial)
  · intro kind
    rw [hsame]
    exact h.once kind
  · intro kind
    rw [hsame]
    exact h.marked kind

/-- **A reservation** that finds the pause its notice was read in. -/
theorem Inv.reserve (h : Inv V s) {i : Nat} {n : Notice} {stamp : Int}
    (hi : s.notices[i]? = some n) (hread : n.stage = .read)
    (hfree : mark n.reminder s.run.row = none) (hfresh : n.serial = s.run.serial) :
    Inv V (State.setStage
      { s with run := s.run.withRow (Notices.reserved n.reminder stamp s.run.row) } i n
      (.reserved s.run.serial)) := by
  have hn := List.mem_of_getElem? hi
  have hold : n.stage.serial? = none := by
    rw [hread]
    rfl
  have hnew : s.run.serial ∉ s.reservedFor n.reminder := by
    rw [← h.marked]
    exact fun hne => hne hfree
  have hother : ∀ kind, n.reminder ≠ kind →
      (s.notices.set i { n with stage := .reserved s.run.serial }).filterMap
        (fun m => if m.reminder = kind then m.stage.serial? else none) = s.reservedFor kind := by
    intro kind hkind
    refine Replace.filterMap_set_same hi ?_
    simp [hkind]
  have hgain : ((s.notices.set i { n with stage := .reserved s.run.serial }).filterMap
      (fun m => if m.reminder = n.reminder then m.stage.serial? else none)).Perm
        (s.run.serial :: s.reservedFor n.reminder) := by
    refine Replace.filterMap_set_perm hi ?_ ?_
    · simp [hold]
    · simp [Stage.serial?]
  have hcontent : ∀ row : Row, (Notices.reserved n.reminder stamp row).status = row.status ∧
      content (Notices.reserved n.reminder stamp row) = content row ∧
      (Notices.reserved n.reminder stamp row).runId = row.runId ∧
      (Notices.reserved n.reminder stamp row).ownerId = row.ownerId := by
    intro row
    unfold Notices.reserved
    split <;> exact ⟨rfl, rfl, rfl, rfl⟩
  obtain ⟨hst, hcols, hrun, howner⟩ := hcontent s.run.row
  simp only [content, Prod.mk.injEq] at hcols
  obtain ⟨hp, hdecision, hassignee⟩ := hcols
  refine ⟨?_, ?_, ?_, ?_, ?_, ?_⟩
  · intro hawaits
    exact hp.symm ▸ h.awaits (hst ▸ hawaits)
  · intro hne
    obtain ⟨pause, older, hlatest, hcarries⟩ := h.latest (hp ▸ hne)
    exact ⟨pause, older, hlatest, hdecision.trans hcarries.1, hassignee.trans hcarries.2⟩
  · intro m hm
    have hm' : m.serial ≤ s.run.serial ∧ m.row.runId = s.run.row.runId ∧
        m.row.ownerId = s.run.row.ownerId ∧
        ∃ pause, pauseAt s.run m.serial = some pause ∧ Carries V m.row pause := by
      rcases List.mem_or_eq_of_mem_set hm with hold | rfl
      · exact h.read m hold
      · exact h.read n hn
    obtain ⟨hle, hr, ho, hpause⟩ := hm'
    exact ⟨hle, hr.trans hrun.symm, ho.trans howner.symm, hpause⟩
  · intro m hm serial hserial
    rcases List.mem_or_eq_of_mem_set hm with hold | rfl
    · exact h.reserved m hold serial hserial
    · cases hserial
      exact hfresh.symm
  · intro kind
    by_cases hkind : n.reminder = kind
    · subst hkind
      exact hgain.nodup_iff.mpr (List.nodup_cons.mpr ⟨hnew, h.once _⟩)
    · have honce := h.once kind
      rw [← hother kind hkind] at honce
      exact honce
  · intro kind
    change mark kind (Notices.reserved n.reminder stamp s.run.row) ≠ none ↔
      s.run.serial ∈ (s.notices.set i { n with stage := .reserved s.run.serial }).filterMap
        fun m => if m.reminder = kind then m.stage.serial? else none
    by_cases hkind : n.reminder = kind
    · subst hkind
      have hmark : mark n.reminder (Notices.reserved n.reminder stamp s.run.row) ≠ none := by
        unfold mark Notices.reserved
        cases n.reminder <;> simp
      exact ⟨fun _ => hgain.mem_iff.mpr List.mem_cons_self, fun _ => hmark⟩
    · have hmark : mark kind (Notices.reserved n.reminder stamp s.run.row) =
          mark kind s.run.row := by
        unfold mark Notices.reserved
        revert hkind
        cases n.reminder <;> cases kind <;> simp
      rw [hmark, hother kind hkind]
      exact h.marked kind

/-- **Every step that meets the condition keeps the invariant.** -/
theorem Inv.step {op : Op κ} (h : Inv V s) (hok : ReservesReadPause s op)
    (hs : Notices.step V s op = some s') : Inv V s' := by
  cases op with
  | run op =>
    obtain ⟨run, hrun, rfl⟩ := Option.map_eq_some_iff.mp hs
    rcases run_cases hrun with hpaused | hkept
    · exact h.pause hpaused
    · exact h.keep hkept
  | look reminder now =>
    simp only [Notices.step] at hs
    split at hs
    · rename_i hdue
      cases hs
      exact h.look hdue
    · cases hs
  | reserve i stamp =>
    simp only [Notices.step, stepReserve] at hs
    split at hs
    · rename_i n hi
      split at hs
      · rename_i hread
        split at hs
        · rename_i hfree
          cases hs
          exact h.reserve hi hread hfree.2 (hok n hi hfree)
        · cases hs
          refine h.setStage hi ?_
          rw [hread]
          rfl
      · cases hs
    · cases hs
  | send i =>
    simp only [Notices.step, stepSend] at hs
    split at hs
    · rename_i n hi
      split at hs
      · rename_i serial hstage
        cases hs
        refine h.setStage hi ?_
        rw [hstage]
        rfl
      · cases hs
    · cases hs

end

/-- **The right message to the right person, once.**  In every run in which no pause is recorded
between the reading of a notice and a reservation of it that goes through, whatever the passes,
the answers, the resumptions and the new pauses. -/
theorem notices_right {V : Vault κ} {runId ownerId : String} {createdAt : Int} {isRetry : Bool}
    {s : State κ} (hrun : Reach (step V) ReservesReadPause
      (start (startRow runId ownerId createdAt isRetry)) s) : Right V s := by
  have hstart : Inv V (start (κ := κ) (startRow runId ownerId createdAt isRetry)) := by
    refine ⟨?_, ?_, ?_, ?_, ?_, ?_⟩
    · intro h
      cases h
    · intro h
      exact absurd rfl h
    · intro n hn
      cases hn
    · intro n hn
      cases hn
    · intro kind
      exact List.nodup_nil
    · intro kind
      cases kind <;> simp [mark, State.reservedFor, start, Run.start, startRow]
  exact (hrun.invariant hstart fun _ _ _ h hok hs => h.step hok hs).right

/-! ## 6. Two pauses, two people -/

instance (s : State κ) : (op : Op κ) → Decidable (ReservesReadPause s op)
  | .reserve i _ => inferInstanceAs (Decidable (∀ n ∈ s.notices[i]?,
      s.run.row.status = .awaiting ∧ mark n.reminder s.run.row = none → n.serial = s.run.serial))
  | .run _ | .look .. | .send _ => .isTrue trivial

/-- A node that asks someone a question. -/
def question (nodeId asks assignee : String) : Snapshot Unit :=
  ⟨nodeId, ⟨asks, some "choices", [⟨some "yes", "Yes"⟩], some assignee, some 1⟩, (), none⟩

def review : Snapshot Unit := question "review" "Relire ?" "bob"

def pay : Snapshot Unit := question "pay" "Payer ?" "eve"

/-- A vault that seals to the name of the node. -/
def nodeVault : Vault Unit where
  lower := id
  sealText _ snapshot := snapshot.nodeId
  unsealText text := if text = "review" then some review else some pay

/-- Bob answers the first pause, and the run goes on to the second. -/
def bobAnswers : List (Op Unit) :=
  [.run (.enter 1 ⟨"bob", some "yes", none⟩ ⟨20, 20⟩ 20), .run (.read 1 ⟨21, 21⟩),
    .run (.claim 1 ⟨22, 22⟩), .run (.markDecided 1), .run (.pause 1 1 pay 30)]

/-- Each pause is announced before it is answered. -/
def announcedInTime : List (Op Unit) :=
  [.run (.pause 0 0 review 10), .look false 11, .reserve 0 11, .send 0] ++ bobAnswers ++
    [.look false 31, .reserve 1 31, .send 1]

/-- A pass reads the first pause, and reserves its notice once the run has paused again. -/
def announcedLate : List (Op Unit) :=
  [.run (.pause 0 0 review 10), .look false 11] ++ bobAnswers ++ [.reserve 0 31, .send 0]

def startOfAna : State Unit := start (startRow "run" "ana" 0 false)

def office : Surroundings := ⟨"Achats", "https://app", fun _ => "demain"⟩

/-- To whom the notices went, and for which pauses. -/
def told (s : State Unit) : List (Option Nat × String) :=
  s.notices.map fun n => (n.stage.serial?, (n.message office).recipient)

/-- Both pauses are announced, each to its assignee. -/
theorem notices_right_inTime :
    ∃ s, Reach (step nodeVault) ReservesReadPause startOfAna s ∧
      told s = [(some 1, "bob"), (some 2, "eve")] ∧ Right nodeVault s := by
  have hplay : (replay (step nodeVault) ReservesReadPause startOfAna announcedInTime).map told =
      some [(some 1, "bob"), (some 2, "eve")] := by decide
  obtain ⟨s, hs, htold⟩ := Option.map_eq_some_iff.mp hplay
  have hrun := Reach.of_replay announcedInTime hs
  exact ⟨s, hrun, htold, notices_right hrun⟩

/-- Whom the second pause is for. -/
def secondRecipient (s : State Unit) : Option String :=
  (pauseAt s.run 2).map fun pause =>
    (pauseMessage office nodeVault.lower s.run.row.runId s.run.row.ownerId pause false).recipient

/-- **A late reservation announces the next pause with the old question.**  Bob, who has answered,
is asked again; Eve, whose pause it is, is not asked, and her pause is marked as announced. -/
theorem stale_notice_marks_next_pause :
    ¬ ∀ (V : Vault Unit) (s : State Unit), Reach (step V) anyStep startOfAna s → Right V s := by
  intro hall
  have hplay : (replay (step nodeVault) anyStep startOfAna announcedLate).map
      (fun s => (told s, s.notices.map (·.reminder), secondRecipient s)) =
        some ([(some 2, "bob")], [false], some "eve") := by decide
  obtain ⟨s, hs, hout⟩ := Option.map_eq_some_iff.mp hplay
  have hright := hall nodeVault s (Reach.of_replay announcedLate hs)
  have htold : told s = [(some 2, "bob")] := congrArg Prod.fst hout
  have hkind : s.notices.map (·.reminder) = [false] := congrArg (·.2.1) hout
  have hsecond : secondRecipient s = some "eve" := congrArg (·.2.2) hout
  obtain ⟨n, hnotices⟩ : ∃ n, s.notices = [n] := by
    refine List.length_eq_one_iff.mp ?_
    have := congrArg List.length hkind
    simpa using this
  simp only [told, hnotices, List.map_cons, List.map_nil, List.cons.injEq, Prod.mk.injEq,
    and_true] at htold hkind
  obtain ⟨pause, hpause, hmessage⟩ := hright.own n (by simp [hnotices]) 2 htold.1
  unfold secondRecipient at hsecond
  rw [hpause] at hsecond
  have hsame := congrArg Message.recipient (hmessage office)
  rw [htold.2, hkind] at hsame
  rw [Option.map_some, ← hsame] at hsecond
  exact absurd hsecond (by decide)

end Apowerb.Run.Notices
