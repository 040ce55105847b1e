/-
# Alerts of failed runs

Any number of calls of `alert_run_failed`, for failed runs of one workflow whose alerts are
enabled.  A call claims its run (`_claim`), then takes the slot of the workflow or is grouped
(`_take_slot`), and whoever took the slot sends an alert that says how many failures were grouped
since the last one.  The row of the workflow holds the moment of the last alert and the figure of
the failures grouped since.

A failure that is grouped adds one to the figure.  Taking the slot puts the figure back to zero, if
the MOMENT is still the one that was read; what it announces is the figure that was read.  So a
failure that is grouped in between is in neither.  A call that loses the slot three times is
grouped without being counted, and an alert that does not leave takes the figure it was to announce
with it.

* `failures_accounted`: where none of the three happens, every run is alerted or grouped, and the
  runs grouped are as many as the figure stored, the figures announced, and the figures on their
  way.
* `grouped_between_read_and_slot` is a failure that is dropped.
-/
import Apowerb.Lib.Replace
import Apowerb.Lib.Runs
import Apowerb.Run.Row
import Mathlib.Algebra.GroupWithZero.Nat

namespace Apowerb.Run.Alerts

open Runs

/-! ## 1. The row of a workflow, and the calls -/

/-- `ALERT_COOLDOWN`. -/
def alertCooldown : Int := microsPerHour

/-- The row of the workflow.  `last_sent_at` is a text: empty (`none`), it is before any other. -/
structure Slot where
  lastSentAt : Option Int
  grouped : Nat
deriving DecidableEq, Repr

/-- `last_sent_at <= cutoff`. -/
def Slot.isFree (slot : Slot) (now : Int) : Bool :=
  match slot.lastSentAt with
  | none => true
  | some sent => sent ≤ now - alertCooldown

/-- The values of `failure_alert`. -/
inductive Outcome
  | claimed
  | sent
  | grouped
  | failed
deriving DecidableEq, Repr

/-- Where a call stands. -/
inductive Stage
  /-- It is to read the row of the workflow, for the first time, the second or the third. -/
  | take (attempt : Nat)
  /-- It read the row. -/
  | read (attempt : Nat) (seen : Option Slot)
  /-- It took the slot; the mail is on its way. -/
  | sending (grouped : Nat)
  /-- The mail left or failed; the Teams card is on its way. -/
  | mailed (grouped : Nat) (outcome : Outcome)
  /-- It is to record the outcome (`_settle`). -/
  | settling (outcome : Outcome)
  | settled (outcome : Outcome)
  /-- It was cancelled, and gave the slot back. -/
  | released
deriving DecidableEq, Repr

/-- A call of `alert_run_failed` that claimed its run. -/
structure Call where
  run : Nat
  now : Int
  stage : Stage
  /-- The figure that an alert of this run announced, once one left. -/
  announced : Option Nat
deriving DecidableEq, Repr

/-- How a sending ends. -/
inductive Sending
  | went
  | failed
  | cancelled
deriving DecidableEq, Repr

/-! ## 2. The machine -/

structure State where
  slot : Option Slot
  /-- `failure_alert` of each run. -/
  marks : Nat → Option Outcome
  calls : List Call

inductive Op
  /-- `_claim`, at the end of a failed run. -/
  | claim (run : Nat) (now : Int)
  /-- `_take_slot` reads the row. -/
  | read (i : Nat)
  /-- `_take_slot` writes the row. -/
  | write (i : Nat)
  | mail (i : Nat) (ending : Sending)
  | teams (i : Nat) (ending : Sending)
  | settle (i : Nat)

def State.setCall (s : State) (i : Nat) (c : Call) (stage : Stage) : State :=
  { s with calls := s.calls.set i { c with stage := stage } }

/-- The call whose alert left. -/
def State.announce (s : State) (i : Nat) (c : Call) (grouped : Nat) (stage : Stage) : State :=
  { s with calls := s.calls.set i { c with stage := stage, announced := some grouped } }

def State.mark (s : State) (run : Nat) (outcome : Option Outcome) : State :=
  { s with marks := fun r => if r = run then outcome else s.marks r }

def State.withSlot (s : State) (slot : Slot) : State := { s with slot := some slot }

/-- After an attempt that lost: another one, three in all.  The last one is grouped. -/
def afterLoss (attempt : Nat) : Stage :=
  if attempt < 2 then .take (attempt + 1) else .settling .grouped

/-- The write of `_take_slot`: insert the row, or take the slot if the moment is the one read, or
add one to the figure. -/
def stepWrite (s : State) (i : Nat) : Option State :=
  match s.calls[i]? with
  | some c =>
    match c.stage with
    | .read attempt none =>
      match s.slot with
      | none => some ((s.withSlot ⟨some c.now, 0⟩).setCall i c (.sending 0))
      | some _ => some (s.setCall i c (afterLoss attempt))
    | .read attempt (some seen) =>
      if seen.isFree c.now then
        if s.slot.map (·.lastSentAt) = some seen.lastSentAt then
          some ((s.withSlot ⟨some c.now, 0⟩).setCall i c (.sending seen.grouped))
        else some (s.setCall i c (afterLoss attempt))
      else
        match s.slot with
        | some slot =>
          some ((s.withSlot { slot with grouped := slot.grouped + 1 }).setCall i c
            (.settling .grouped))
        | none => some (s.setCall i c (.settling .grouped))
    | _ => none
  | none => none

/-- `_release`: the slot is free again, with the figure that was taken, if no other call took it. -/
def releaseSlot (s : State) (now : Int) (grouped : Nat) : State :=
  if s.slot.map (·.lastSentAt) = some (some now) then s.withSlot ⟨none, grouped⟩ else s

/-- The mail. -/
def stepMail (s : State) (i : Nat) (ending : Sending) : Option State :=
  match s.calls[i]? with
  | some c =>
    match c.stage, ending with
    | .sending grouped, .went => some (s.announce i c grouped (.mailed grouped .sent))
    | .sending grouped, .failed => some (s.setCall i c (.mailed grouped .failed))
    | .sending grouped, .cancelled =>
      some (((releaseSlot s c.now grouped).mark c.run none).setCall i c .released)
    | _, _ => none
  | none => none

/-- The Teams card.  A cancelled card still settles the mail. -/
def stepTeams (s : State) (i : Nat) (ending : Sending) : Option State :=
  match s.calls[i]? with
  | some c =>
    match c.stage, ending with
    | .mailed grouped outcome, .went => some (s.announce i c grouped (.settling outcome))
    | .mailed _ outcome, .failed | .mailed _ outcome, .cancelled =>
      some (s.setCall i c (.settling outcome))
    | _, _ => none
  | none => none

variable (endNotice : Nat → Bool)

/-- One transaction, or one sending; `none` where the call is not at that point.  A run whose end
is announced as that of a decision (`end_notice`) is not claimed. -/
def step (s : State) : Op → Option State
  | .claim run now =>
    if s.marks run = none ∧ ¬ endNotice run then
      some { s.mark run (some .claimed) with calls := s.calls ++ [⟨run, now, .take 0, none⟩] }
    else some s
  | .read i =>
    match s.calls[i]? with
    | some c =>
      match c.stage with
      | .take attempt => some (s.setCall i c (.read attempt s.slot))
      | _ => none
    | none => none
  | .write i => stepWrite s i
  | .mail i ending => stepMail s i ending
  | .teams i ending => stepTeams s i ending
  | .settle i =>
    match s.calls[i]? with
    | some c =>
      match c.stage with
      | .settling outcome => some ((s.mark c.run (some outcome)).setCall i c (.settled outcome))
      | _ => none
    | none => none

/-- No failure was reported yet; the workflow may have a row from earlier alerts. -/
def start (slot : Option Slot) : State := ⟨slot, fun _ => none, []⟩

/-! ## 3. What is to hold -/

/-- The run was grouped. -/
def Call.isGrouped (c : Call) : Bool :=
  c.stage = .settling .grouped ∨ c.stage = .settled .grouped

/-- The figure that an alert on its way is to announce. -/
def Call.inHand (c : Call) : Nat :=
  match c.announced, c.stage with
  | none, .sending grouped | none, .mailed grouped _ => grouped
  | _, _ => 0

/-- The call is over. -/
def Call.isOver (c : Call) : Bool :=
  match c.stage with
  | .settled _ | .released => true
  | _ => false

def State.stored (s : State) : Nat := (s.slot.map (·.grouped)).getD 0

/-- Every failure that was reported is accounted for, once. -/
structure Accounted (slot : Option Slot) (s : State) : Prop where
  /-- A run that was reported has one call. -/
  reported : ∀ run, s.marks run ≠ none ↔ run ∈ s.calls.map (·.run)
  once : (s.calls.map (·.run)).Nodup
  /-- A call that is over alerted its run, or grouped it, and not both. -/
  fate : ∀ c ∈ s.calls, c.isOver → (c.announced.isSome ↔ ¬ c.isGrouped)
  /-- The runs grouped, with those there were before, are the figure stored, the figures announced
  and the figures on their way. -/
  figure : (start slot).stored + s.calls.countP Call.isGrouped =
    s.stored + (s.calls.map fun c => c.announced.getD 0).sum + (s.calls.map Call.inHand).sum

/-- A write that takes the slot finds the figure that was read, and the third attempt does not
lose. -/
def Keeps (s : State) (c : Call) : Prop :=
  match c.stage with
  | .read attempt none => s.slot = none ∨ attempt < 2
  | .read attempt (some seen) =>
    seen.isFree c.now →
      if s.slot.map (·.lastSentAt) = some seen.lastSentAt then s.slot = some seen else attempt < 2
  | _ => True

/-- The alert leaves by one way or the other. -/
def Leaves (c : Call) (ending : Sending) : Prop := c.announced.isSome ∨ ending = .went

/-- The condition. -/
def Counts (s : State) : Op → Prop
  | .write i => ∀ c ∈ s.calls[i]?, Keeps s c
  | .mail _ ending => ending ≠ .cancelled
  | .teams i ending => ∀ c ∈ s.calls[i]?, Leaves c ending
  | .claim .. | .read _ | .settle _ => True

/-! ## 4. The invariant -/

/-- What is known of a call by its stage. -/
def CallOk (c : Call) : Prop :=
  match c.stage with
  | .take _ | .read _ _ | .sending _ => c.announced = none
  | .mailed grouped outcome =>
    outcome ≠ .grouped ∧ (c.announced = none ∨ c.announced = some grouped)
  | .settling outcome | .settled outcome => c.announced.isSome ↔ outcome ≠ .grouped
  | .released => False

/-- A call that read a row of the workflow. -/
def Call.hasRead (c : Call) : Prop := ∃ attempt seen, c.stage = .read attempt (some seen)

/-- What a call holds of the figure. -/
def Call.figure (c : Call) : Nat := c.announced.getD 0 + c.inHand

structure Inv (slot : Option Slot) (s : State) : Prop where
  reported : ∀ run, s.marks run ≠ none ↔ run ∈ s.calls.map (·.run)
  once : (s.calls.map (·.run)).Nodup
  calls : ∀ c ∈ s.calls, CallOk c
  there : ∀ c ∈ s.calls, c.hasRead → s.slot ≠ none
  figure : (start slot).stored + s.calls.countP Call.isGrouped =
    s.stored + (s.calls.map Call.figure).sum

theorem Inv.accounted {slot : Option Slot} {s : State} (h : Inv slot s) : Accounted slot s where
  reported := h.reported
  once := h.once
  fate c hc hover := by
    have hok := h.calls c hc
    unfold CallOk at hok
    unfold Call.isOver at hover
    cases hstage : c.stage with
    | settled outcome =>
      rw [hstage] at hok
      have hok : c.announced.isSome ↔ outcome ≠ .grouped := hok
      rw [hok]
      simp [Call.isGrouped, hstage]
    | released =>
      rw [hstage] at hok
      exact hok.elim
    | _ => simp [hstage] at hover
  figure := by
    rw [h.figure, Nat.add_assoc, ← List.sum_map_add]
    rfl

section

variable {slot : Option Slot} {s s' : State} {endNotice : Nat → Bool} {i : Nat} {c : Call}

/-- A call that moves, with what it takes from the figure stored or adds to it. -/
theorem Inv.move (h : Inv slot s) (hi : s.calls[i]? = some c) (c' : Call) (hrun : c'.run = c.run)
    (hok : CallOk c') (hcalls : s'.calls = s.calls.set i c')
    (hmarks : ∀ run, s'.marks run ≠ none ↔ s.marks run ≠ none)
    (hslot : s.slot ≠ none → s'.slot ≠ none) (hread : c'.hasRead → s.slot ≠ none)
    (hfigure : (if c'.isGrouped then 1 else 0) + s.stored + c.figure =
      (if c.isGrouped then 1 else 0) + s'.stored + c'.figure) : Inv slot s' where
  reported run := by
    rw [hmarks, h.reported, hcalls, Replace.map_set_same hi hrun]
  once := by
    rw [hcalls, Replace.map_set_same hi hrun]
    exact h.once
  calls d hd := by
    rw [hcalls] at hd
    rcases List.mem_or_eq_of_mem_set hd with hold | rfl
    · exact h.calls d hold
    · exact hok
  there d hd hdread := by
    rw [hcalls] at hd
    rcases List.mem_or_eq_of_mem_set hd with hold | rfl
    · exact hslot (h.there d hold hdread)
    · exact hslot (hread hdread)
  figure := by
    have hcount := Replace.countP_set hi c' Call.isGrouped
    have hsum := Replace.sum_map_set hi c' Call.figure
    have hbefore := h.figure
    rw [hcalls]
    omega

/-- The same, for a call that only changes its stage, the row of the workflow perhaps with it. -/
theorem Inv.setCall (h : Inv slot s) (hi : s.calls[i]? = some c) {row : Option Slot}
    {stage : Stage} (hok : CallOk { c with stage := stage })
    (hslot : s.slot ≠ none → row ≠ none)
    (hread : Call.hasRead { c with stage := stage } → s.slot ≠ none)
    (hfigure : (if Call.isGrouped { c with stage := stage } then 1 else 0) + s.stored + c.figure =
      (if c.isGrouped then 1 else 0) + ({ s with slot := row } : State).stored +
        Call.figure { c with stage := stage }) :
    Inv slot (State.setCall { s with slot := row } i c stage) :=
  h.move hi { c with stage := stage } rfl hok rfl (fun _ => Iff.rfl) hslot hread hfigure

/-- A run that is claimed. -/
theorem Inv.claim (h : Inv slot s) {run : Nat} (hfree : s.marks run = none) (now : Int) :
    Inv slot { s.mark run (some .claimed) with
      calls := s.calls ++ [⟨run, now, .take 0, none⟩] } where
  reported r := by
    change (if r = run then some Outcome.claimed else s.marks r) ≠ none ↔
      r ∈ (s.calls ++ [(⟨run, now, .take 0, none⟩ : Call)]).map (·.run)
    rw [List.map_append, List.mem_append, ← h.reported r]
    by_cases hr : r = run
    · simp [hr]
    · simp [hr]
  once := by
    have hnew : run ∉ s.calls.map (·.run) := by
      rw [← h.reported]
      exact fun hne => hne hfree
    rw [List.map_append, List.map_singleton]
    exact List.nodup_append'.mpr
      ⟨h.once, List.nodup_singleton _, List.disjoint_singleton.mpr hnew⟩
  calls d hd := by
    rcases List.mem_append.mp hd with hold | hnew
    · exact h.calls d hold
    · rw [List.mem_singleton.mp hnew]
      rfl
  there d hd hread := by
    rcases List.mem_append.mp hd with hold | hnew
    · exact h.there d hold hread
    · rw [List.mem_singleton.mp hnew] at hread
      obtain ⟨_, _, hstage⟩ := hread
      cases hstage
  figure := by
    rw [List.countP_append, List.map_append, List.sum_append]
    exact h.figure

/-- **The write of the slot**: what is taken from the figure stored is in the hand of the call, and
a failure that is grouped is added to it. -/
theorem Inv.write (h : Inv slot s) (hok : Counts s (.write i)) (hs : stepWrite s i = some s') :
    Inv slot s' := by
  unfold stepWrite at hs
  split at hs
  · rename_i c hi
    have hcall := h.calls c (List.mem_of_getElem? hi)
    have hkeeps := hok c hi
    unfold CallOk at hcall
    unfold Keeps at hkeeps
    split at hs
    · -- The row was not there.
      rename_i attempt hstage
      rw [hstage] at hcall hkeeps
      have hannounced : c.announced = none := hcall
      split at hs
      · cases hs
        refine h.setCall hi hannounced (by simp) (by simp [Call.hasRead]) ?_
        rename_i hslot
        simp [Call.isGrouped, Call.figure, Call.inHand, State.stored, hstage, hannounced, hslot]
      · rename_i slot' hslot
        cases hs
        have hmore : attempt < 2 := hkeeps.resolve_left (by simp [hslot])
        rw [afterLoss, if_pos hmore]
        refine h.setCall hi hannounced id (by simp [Call.hasRead]) ?_
        simp [Call.isGrouped, Call.figure, Call.inHand, State.stored, hstage, hannounced]
    · rename_i attempt seen hstage
      rw [hstage] at hcall hkeeps
      have hannounced : c.announced = none := hcall
      split at hs
      · rename_i hfree
        have hkeeps := hkeeps hfree
        split at hs
        · rename_i hwon
          rw [if_pos hwon] at hkeeps
          cases hs
          refine h.setCall hi hannounced (by simp) (by simp [Call.hasRead]) ?_
          simp [Call.isGrouped, Call.figure, Call.inHand, State.stored, hstage, hannounced, hkeeps]
        · rename_i hlost
          rw [if_neg hlost] at hkeeps
          cases hs
          rw [afterLoss, if_pos hkeeps]
          refine h.setCall hi hannounced id (by simp [Call.hasRead]) ?_
          simp [Call.isGrouped, Call.figure, Call.inHand, State.stored, hstage, hannounced]
      · split at hs
        · rename_i slot' hslot
          cases hs
          refine h.setCall hi ?_ (by simp) (by simp [Call.hasRead]) ?_
          · simp [CallOk, hannounced]
          · simp [Call.isGrouped, Call.figure, Call.inHand, State.stored, hstage, hannounced, hslot]
            omega
        · rename_i hslot
          exact absurd hslot (h.there c (List.mem_of_getElem? hi) ⟨attempt, seen, hstage⟩)
    · cases hs
  · cases hs

/-- **The mail**: the figure in hand is announced, or stays in hand for the card. -/
theorem Inv.mail (h : Inv slot s) {ending : Sending} (hok : ending ≠ .cancelled)
    (hs : stepMail s i ending = some s') : Inv slot s' := by
  unfold stepMail at hs
  split at hs
  · rename_i c hi
    have hcall := h.calls c (List.mem_of_getElem? hi)
    unfold CallOk at hcall
    split at hs
    · rename_i grouped hstage
      rw [hstage] at hcall
      have hannounced : c.announced = none := hcall
      cases hs
      refine h.move hi { c with stage := .mailed grouped .sent, announced := some grouped } rfl ?_
        rfl (fun _ => Iff.rfl) id (by simp [Call.hasRead]) ?_
      · simp [CallOk]
      · simp [Call.isGrouped, Call.figure, Call.inHand, State.stored, State.announce, hstage,
          hannounced]
    · rename_i grouped hstage
      rw [hstage] at hcall
      have hannounced : c.announced = none := hcall
      cases hs
      refine h.setCall hi ?_ id (by simp [Call.hasRead]) ?_
      · simp [CallOk, hannounced]
      · simp [Call.isGrouped, Call.figure, Call.inHand, State.stored, hstage, hannounced]
    · exact absurd rfl hok
    · cases hs
  · cases hs

/-- **The card**: the figure is announced now, unless the mail announced it. -/
theorem Inv.teams (h : Inv slot s) {ending : Sending} (hok : Counts s (.teams i ending))
    (hs : stepTeams s i ending = some s') : Inv slot s' := by
  unfold stepTeams at hs
  split at hs
  · rename_i c hi
    have hcall := h.calls c (List.mem_of_getElem? hi)
    have hleaves := hok c hi
    unfold CallOk at hcall
    -- A card that does not leave follows a mail that did.
    have hkept : ∀ {grouped : Nat} {outcome : Outcome}, c.stage = .mailed grouped outcome →
        c.announced.isSome → Inv slot (s.setCall i c (.settling outcome)) := by
      intro grouped outcome hstage hsome
      rw [hstage] at hcall
      obtain ⟨hne, hannounced⟩ := hcall
      rcases hannounced with hnone | hannounced
      · rw [hnone] at hsome
        cases hsome
      · refine h.setCall hi ?_ id (by simp [Call.hasRead]) ?_
        · simp [CallOk, hannounced, hne]
        · simp [Call.isGrouped, Call.figure, Call.inHand, State.stored, hstage, hannounced, hne]
    split at hs
    · rename_i grouped outcome hstage
      rw [hstage] at hcall
      obtain ⟨hne, hannounced⟩ := hcall
      cases hs
      refine h.move hi { c with stage := .settling outcome, announced := some grouped } rfl ?_
        rfl (fun _ => Iff.rfl) id (by simp [Call.hasRead]) ?_
      · simp [CallOk, hne]
      · rcases hannounced with hnone | hsome
        · simp [Call.isGrouped, Call.figure, Call.inHand, State.stored, State.announce, hstage,
            hnone, hne]
        · simp [Call.isGrouped, Call.figure, Call.inHand, State.stored, State.announce, hstage,
            hsome, hne]
    · rename_i grouped outcome hstage
      cases hs
      exact hkept hstage (hleaves.resolve_right (by simp))
    · rename_i grouped outcome hstage
      cases hs
      exact hkept hstage (hleaves.resolve_right (by simp))
    · cases hs
  · cases hs

/-- **Every step that meets the condition keeps the invariant.** -/
theorem Inv.step {op : Op} (h : Inv slot s) (hok : Counts s op)
    (hs : Alerts.step endNotice s op = some s') : Inv slot s' := by
  cases op with
  | claim run now =>
    simp only [Alerts.step] at hs
    split at hs
    · rename_i hfree
      cases hs
      exact h.claim hfree.1 now
    · cases hs
      exact h
  | read i =>
    simp only [Alerts.step] at hs
    split at hs
    · rename_i c hi
      have hcall := h.calls c (List.mem_of_getElem? hi)
      unfold CallOk at hcall
      split at hs
      · rename_i attempt hstage
        rw [hstage] at hcall
        have hannounced : c.announced = none := hcall
        cases hs
        refine h.setCall hi hannounced id ?_ ?_
        · rintro ⟨_, seen, hread⟩
          have hseen : s.slot = some seen := by
            simp only [Stage.read.injEq] at hread
            exact hread.2
          simp [hseen]
        · simp [Call.isGrouped, Call.figure, Call.inHand, State.stored, hstage, hannounced]
      · cases hs
    · cases hs
  | write i => exact h.write hok hs
  | mail i ending => exact h.mail hok hs
  | teams i ending => exact h.teams hok hs
  | settle i =>
    simp only [Alerts.step] at hs
    split at hs
    · rename_i c hi
      have hmem := List.mem_of_getElem? hi
      have hcall := h.calls c hmem
      unfold CallOk at hcall
      split at hs
      · rename_i outcome hstage
        rw [hstage] at hcall
        have hcall : c.announced.isSome ↔ outcome ≠ .grouped := hcall
        cases hs
        refine h.move hi { c with stage := .settled outcome } rfl hcall rfl ?_ id
          (by simp [Call.hasRead]) ?_
        · -- The run of a call has its mark since it was claimed.
          intro run
          change (if run = c.run then some outcome else s.marks run) ≠ none ↔ s.marks run ≠ none
          by_cases hrun : run = c.run
          · have hclaimed := (h.reported c.run).mpr (List.mem_map_of_mem hmem)
            simp [hrun, hclaimed]
          · simp [hrun]
        · simp [Call.isGrouped, Call.figure, Call.inHand, State.stored, State.setCall, State.mark,
            hstage]
      · cases hs
    · cases hs

end

/-- **Every failure is accounted for, once**, in every run in which a write that takes the slot
finds the figure that was read, no call loses the slot three times, and every alert leaves by mail
or by Teams. -/
theorem failures_accounted {endNotice : Nat → Bool} {slot : Option Slot} {s : State}
    (hrun : Reach (step endNotice) Counts (start slot) s) : Accounted slot s := by
  have hstart : Inv slot (start slot) :=
    ⟨fun _ => by simp [start], List.nodup_nil, fun _ hc => (nomatch hc),
      fun _ hc => (nomatch hc), rfl⟩
  exact (hrun.invariant hstart fun _ _ _ h hok hs => h.step hok hs).accounted

/-! ## 5. Three failures, and a failure that is dropped -/

instance (s : State) (c : Call) : Decidable (Keeps s c) := by
  unfold Keeps
  split <;> infer_instance

instance (c : Call) (ending : Sending) : Decidable (Leaves c ending) :=
  inferInstanceAs (Decidable (_ ∨ _))

instance (s : State) : (op : Op) → Decidable (Counts s op)
  | .write i => inferInstanceAs (Decidable (∀ c ∈ s.calls[i]?, Keeps s c))
  | .mail _ ending => inferInstanceAs (Decidable (ending ≠ .cancelled))
  | .teams i ending => inferInstanceAs (Decidable (∀ c ∈ s.calls[i]?, Leaves c ending))
  | .claim .. | .read _ | .settle _ => inferInstanceAs (Decidable True)

/-- A failure whose alert leaves. -/
def alerted (i run : Nat) (now : Int) : List Op :=
  [.claim run now, .read i, .write i, .mail i .went, .teams i .failed, .settle i]

/-- A failure that is grouped. -/
def groupedOps (i run : Nat) (now : Int) : List Op :=
  [.claim run now, .read i, .write i, .settle i]

def minutes (n : Int) : Int := n * 60000000

/-- What the alerts announced, call by call, with the outcome of each run. -/
def told (s : State) : List (Option Nat × Option Outcome) :=
  s.calls.map fun c => (c.announced, s.marks c.run)

/-- The second failure falls within the hour, and the alert of the third announces it. -/
theorem failures_accounted_threeRuns :
    ∃ s, Reach (step fun _ => false) Counts (start none) s ∧
      told s = [(some 0, some .sent), (none, some .grouped), (some 1, some .sent)] ∧
        Accounted none s := by
  have hplay : (replay (step fun _ => false) Counts (start none)
      (alerted 0 1 0 ++ groupedOps 1 2 (minutes 10) ++ alerted 2 3 (minutes 60))).map told =
        some [(some 0, some .sent), (none, some .grouped), (some 1, some .sent)] := by decide
  obtain ⟨s, hs, htold⟩ := Option.map_eq_some_iff.mp hplay
  have hrun := Reach.of_replay _ hs
  exact ⟨s, hrun, htold, failures_accounted hrun⟩

/-- The second failure is grouped between the read of the third and its write. -/
def groupedBetween : List Op :=
  alerted 0 1 0 ++ [.claim 3 (minutes 60), .read 1] ++ groupedOps 2 2 (minutes 59) ++
    [.write 1, .mail 1 .went, .teams 1 .went, .settle 1]

/-- **A failure grouped between the read of the slot and its write is dropped**: it is grouped, the
alert that follows announces none, and the figure stored is zero again. -/
theorem grouped_between_read_and_slot :
    ¬ ∀ (endNotice : Nat → Bool) (slot : Option Slot) (s : State),
      Reach (step endNotice) anyStep (start slot) s → Accounted slot s := by
  intro hall
  have hplay : (replay (step fun _ => false) anyStep (start none) groupedBetween).map
      (fun s => (s.calls.countP Call.isGrouped,
        s.stored + (s.calls.map fun c => c.announced.getD 0).sum +
          (s.calls.map Call.inHand).sum)) = some (1, 0) := by decide
  obtain ⟨s, hs, hout⟩ := Option.map_eq_some_iff.mp hplay
  have hfigure := (hall (fun _ => false) none s (Reach.of_replay groupedBetween hs)).figure
  have hgrouped : s.calls.countP Call.isGrouped = 1 := congrArg Prod.fst hout
  have hrest : s.stored + (s.calls.map fun c => c.announced.getD 0).sum +
      (s.calls.map Call.inHand).sum = 0 := congrArg Prod.snd hout
  rw [hgrouped, hrest] at hfigure
  cases hfigure

end Apowerb.Run.Alerts
