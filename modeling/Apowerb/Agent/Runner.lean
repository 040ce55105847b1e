/-
# Retiring a runner

`core/agent_runtime_sync.py`: a runner that is replaced in the cache is retired, and closed once its
runs are over.  A run counts from its first event; between the hand-out of the runner and that moment
nothing counts it, and a runner that is retired while idle is closed by a timer, after a grace.

* `no_run_loses_runner`: as long as the last run of a retired runner does not end while a run handed
  out within the grace has still to start, the runner is closed at most once, with no run in progress
  or still to start, and it is closed at the latest by its timer or by the end of its last run.
* `runner_closed_under_handout`: without that condition it can be closed before a run's first event.

One event loop; what runs between two awaits is one step.  A run is known by its hand-out.  Times are
whole microseconds, and the timer fires no earlier than its time.

GHOST STATE: the hand-outs with their phase, and how often the close was started.
-/
import Mathlib.Data.List.Basic
import Apowerb.Lib.Runs

namespace Apowerb.Agent.Runner

open Runs

/-! ## 1. The machine -/

/-- `_RUNNER_CLOSE_GRACE`. -/
def runnerCloseGrace : Int := 30000000

/-- Where the run of a hand-out stands. -/
inductive Phase
  | waiting | running | finished
deriving DecidableEq, Repr

/-- A hand-out of the runner, and its run. -/
structure Handout where
  since : Int
  phase : Phase
deriving DecidableEq, Repr

structure State where
  now : Int
  /-- `_ACTIVE`, `_RETIRED` and `_CLOSED`. -/
  active : Nat
  retired : Bool
  closed : Bool
  /-- When the grace timer is due. -/
  timer : Option Int
  handouts : List Handout
  closes : Nat
deriving DecidableEq, Repr

inductive Op
  | pass (delay : Nat)
  /-- The runner is handed out of the cache, where it is not retired. -/
  | handOut
  /-- The first event of a run, within the grace. -/
  | start (i : Nat)
  /-- The run ends, raises or is cancelled. -/
  | finish (i : Nat)
  /-- `_retire_runner`. -/
  | retire
  /-- `_close_if_idle`, by the timer. -/
  | fire
deriving DecidableEq, Repr

/-- `_claim_close`, and the close. -/
def State.closeOnce (s : State) : State :=
  if s.closed then s else { s with closed := true, closes := s.closes + 1 }

/-- The run of this hand-out moves on. -/
def State.setPhase (s : State) (i : Nat) (h : Handout) (phase : Phase) : State :=
  { s with handouts := s.handouts.set i { h with phase := phase } }

def stepStart (s : State) (i : Nat) (h : Handout) : Option State :=
  if h.phase = .waiting ∧ s.now - h.since < runnerCloseGrace then
    some { s.setPhase i h .running with active := s.active + 1 }
  else none

/-- The `finally` of a run. -/
def stepFinish (s : State) (i : Nat) (h : Handout) : Option State :=
  if h.phase = .running then
    let remaining := s.active - 1
    let ended : State := { s.setPhase i h .finished with active := remaining }
    if remaining = 0 ∧ s.retired then some ended.closeOnce else some ended
  else none

/-- What runs between two awaits; `none` where it cannot happen. -/
def step (s : State) : Op → Option State
  | .pass delay => some { s with now := s.now + delay }
  | .handOut =>
    if s.retired then none else some { s with handouts := s.handouts ++ [⟨s.now, .waiting⟩] }
  | .start i => (s.handouts[i]?).bind (stepStart s i)
  | .finish i => (s.handouts[i]?).bind (stepFinish s i)
  | .retire =>
    if s.retired then some s
    else if 0 < s.active then some { s with retired := true }
    else some { s with retired := true, timer := some (s.now + runnerCloseGrace) }
  | .fire =>
    match s.timer with
    | none => none
    | some due =>
      if due ≤ s.now then
        let fired : State := { s with timer := none }
        if 0 < s.active then some fired else some fired.closeOnce
      else none

/-- A runner that has just been built. -/
def start (now : Int) : State := ⟨now, 0, false, false, none, [], 0⟩

/-! ## 2. What is to hold, and when -/

variable {s s' : State} {op : Op} {i : Nat} {h : Handout}

/-- A run was handed out less than the grace ago and has still to start. -/
def State.Young (s : State) (h : Handout) : Prop :=
  h.phase = .waiting ∧ s.now - h.since < runnerCloseGrace

instance (s : State) (h : Handout) : Decidable (s.Young h) := inferInstanceAs (Decidable (_ ∧ _))

/-- The runner is closed at most once, with no run in progress or still to start; and where it is
retired and not closed, a run in progress or the timer will close it. -/
structure Safe (s : State) : Prop where
  once : s.closes ≤ 1
  running : s.closed = true → ∀ h ∈ s.handouts, h.phase ≠ .running
  young : s.closed = true → ∀ h ∈ s.handouts, ¬ s.Young h
  closing : s.retired = true → s.closed = false →
    (∃ h ∈ s.handouts, h.phase = .running) ∨
      ∃ due, s.timer = some due ∧ due ≤ s.now + runnerCloseGrace
  timer : ∀ due ∈ s.timer, due ≤ s.now → (∀ h ∈ s.handouts, h.phase ≠ .running) →
    ∃ s', step s .fire = some s' ∧ s'.closed = true

/-- The steps of a calm run: the last run of a retired runner ends when no run handed out within the
grace has still to start. -/
def Calm (s : State) : Op → Prop
  | .finish _ => s.retired = true → s.active = 1 → ∀ h ∈ s.handouts, ¬ s.Young h
  | _ => True

instance (s : State) : (op : Op) → Decidable (Calm s op)
  | .finish _ => inferInstanceAs (Decidable (_ → _ → ∀ h ∈ s.handouts, _))
  | .pass _ | .handOut | .start _ | .retire | .fire => inferInstanceAs (Decidable True)

/-! ## 3. The invariant -/

/-- The counter counts the runs in progress; a closed runner has none, and none that can start; the
timer was set after every hand-out. -/
structure Inv (s : State) : Prop where
  active : s.active = s.handouts.countP (·.phase = .running)
  closes : s.closes = if s.closed then 1 else 0
  closed : s.closed = true → s.retired = true ∧ s.active = 0 ∧ ∀ h ∈ s.handouts, ¬ s.Young h
  fresh : s.retired = false → s.timer = none
  closing : s.retired = true → s.closed = false → 0 < s.active ∨
    ∃ due, s.timer = some due ∧ due ≤ s.now + runnerCloseGrace
  past : ∀ h ∈ s.handouts, h.since ≤ s.now
  timer : ∀ due ∈ s.timer, ∀ h ∈ s.handouts, h.since + runnerCloseGrace ≤ due

theorem Inv.active_eq_zero (hinv : Inv s) :
    s.active = 0 ↔ ∀ h ∈ s.handouts, h.phase ≠ .running := by
  rw [hinv.active, List.countP_eq_zero]
  simp

/-- **What the invariant says of the claim.** -/
theorem Inv.safe (hinv : Inv s) : Safe s where
  once := by
    rw [hinv.closes]
    split <;> decide
  running hclosed := hinv.active_eq_zero.mp (hinv.closed hclosed).2.1
  young hclosed := (hinv.closed hclosed).2.2
  closing hretired hopen := by
    rcases hinv.closing hretired hopen with hactive | htimer
    · rw [hinv.active] at hactive
      obtain ⟨h, hmem, hrunning⟩ := List.countP_pos_iff.mp hactive
      exact .inl ⟨h, hmem, by simpa using hrunning⟩
    · exact .inr htimer
  timer due hdue hle hidle := by
    have hactive : s.active = 0 := hinv.active_eq_zero.mpr hidle
    refine ⟨State.closeOnce { s with timer := none }, ?_, ?_⟩
    · simp [step, Option.mem_def.mp hdue, hle, hactive]
    · unfold State.closeOnce
      split
      · assumption
      · rfl

/-! ## 4. What each step keeps -/

/-- The runs in progress, after one of them moved on. -/
theorem countP_setPhase (hi : s.handouts[i]? = some h) (phase : Phase) :
    (s.setPhase i h phase).handouts.countP (·.phase = .running) =
      s.handouts.countP (·.phase = .running) - (if h.phase = .running then 1 else 0) +
        if phase = .running then 1 else 0 := by
  obtain ⟨hlt, hget⟩ := List.getElem?_eq_some_iff.mp hi
  unfold State.setPhase
  rw [List.countP_set hlt, hget]
  simp

/-- A hand-out after one moved on is as old as one before, and waits only if that one did. -/
theorem mem_setPhase (hi : s.handouts[i]? = some h) {phase : Phase} (hphase : phase ≠ .waiting)
    {h' : Handout} (hmem : h' ∈ (s.setPhase i h phase).handouts) :
    ∃ old ∈ s.handouts, h'.since = old.since ∧ (h'.phase = .waiting → h' = old) := by
  rcases List.mem_or_eq_of_mem_set hmem with hold | rfl
  · exact ⟨h', hold, rfl, fun _ => rfl⟩
  · exact ⟨h, List.mem_of_getElem? hi, rfl, fun hwaiting => absurd hwaiting hphase⟩

/-- A retired runner is closed while idle, when no run can start any more. -/
theorem inv_closeOnce (hcount : s.active = s.handouts.countP (·.phase = .running))
    (hcloses : s.closes = if s.closed then 1 else 0)
    (hpast : ∀ h ∈ s.handouts, h.since ≤ s.now)
    (htimer : ∀ due ∈ s.timer, ∀ h ∈ s.handouts, h.since + runnerCloseGrace ≤ due)
    (hretired : s.retired = true) (hactive : s.active = 0)
    (hyoung : ∀ h ∈ s.handouts, ¬ s.Young h) : Inv s.closeOnce := by
  have hnever : ∀ {P : Prop}, s.retired = false → P := fun hfresh => by
    rw [hretired] at hfresh
    cases hfresh
  unfold State.closeOnce
  split
  · rename_i hclosed
    refine ⟨hcount, hcloses, fun _ => ⟨hretired, hactive, hyoung⟩, hnever, ?_, hpast, htimer⟩
    intro _ hopen
    rw [hclosed] at hopen
    cases hopen
  · rename_i hopen
    refine ⟨hcount, ?_, fun _ => ⟨hretired, hactive, hyoung⟩, hnever, ?_, hpast, htimer⟩
    · simp [hcloses, hopen]
    · intro _ hopen
      cases hopen

theorem Inv.pass (hinv : Inv s) (delay : Nat) : Inv { s with now := s.now + delay } := by
  refine ⟨hinv.active, hinv.closes, fun hclosed => ?_, hinv.fresh, fun hretired hopen => ?_, ?_,
    hinv.timer⟩
  · obtain ⟨hretired, hactive, hyoung⟩ := hinv.closed hclosed
    refine ⟨hretired, hactive, ?_⟩
    rintro h hmem ⟨hwaiting, hlt⟩
    refine hyoung h hmem ⟨hwaiting, ?_⟩
    simp only at hlt
    omega
  · rcases hinv.closing hretired hopen with hactive | ⟨due, hdue, hle⟩
    · exact Or.inl hactive
    · refine Or.inr ⟨due, hdue, ?_⟩
      simp only
      omega
  · intro h hmem
    have hpast := hinv.past h hmem
    simp only
    omega

theorem Inv.handOut (hinv : Inv s) (hfresh : s.retired = false) :
    Inv { s with handouts := s.handouts ++ [⟨s.now, .waiting⟩] } := by
  have hopen : ∀ {P : Prop}, s.retired = true → P := fun hretired => by
    rw [hfresh] at hretired
    cases hretired
  refine ⟨?_, hinv.closes, fun hclosed => hopen (hinv.closed hclosed).1, hinv.fresh,
    fun hretired => hopen hretired, fun h hmem => ?_, fun due hdue => ?_⟩
  · simp [hinv.active]
  · rcases List.mem_append.mp hmem with hold | hnew
    · exact hinv.past h hold
    · exact Int.le_of_eq (congrArg Handout.since (List.mem_singleton.mp hnew))
  · rw [Option.mem_def, hinv.fresh hfresh] at hdue
    cases hdue

/-- What the move of one hand-out keeps of the others' times. -/
theorem Inv.times (hinv : Inv s) (hi : s.handouts[i]? = some h) {phase : Phase}
    (hphase : phase ≠ .waiting) :
    (∀ h' ∈ (s.setPhase i h phase).handouts, h'.since ≤ s.now) ∧
      ∀ due ∈ s.timer, ∀ h' ∈ (s.setPhase i h phase).handouts,
        h'.since + runnerCloseGrace ≤ due := by
  constructor
  · intro h' hmem
    obtain ⟨old, hold, hsince, -⟩ := mem_setPhase hi hphase hmem
    rw [hsince]
    exact hinv.past old hold
  · intro due hdue h' hmem
    obtain ⟨old, hold, hsince, -⟩ := mem_setPhase hi hphase hmem
    rw [hsince]
    exact hinv.timer due hdue old hold

theorem Inv.start (hinv : Inv s) (hi : s.handouts[i]? = some h) (hs : stepStart s i h = some s') :
    Inv s' := by
  unfold stepStart at hs
  split at hs
  · rename_i hyoung
    cases hs
    obtain ⟨hpast, htimer⟩ := hinv.times hi (show Phase.running ≠ .waiting by decide)
    refine ⟨?_, hinv.closes, fun hclosed => ?_, hinv.fresh, fun _ _ => .inl (Nat.succ_pos _),
      hpast, htimer⟩
    · have hcount := countP_setPhase hi .running
      rw [hyoung.1, ← hinv.active] at hcount
      simpa using hcount.symm
    · -- No run can start on a closed runner.
      exact absurd hyoung ((hinv.closed hclosed).2.2 h (List.mem_of_getElem? hi))
  · cases hs

theorem Inv.finish (hinv : Inv s) (hi : s.handouts[i]? = some h)
    (hcalm : s.retired = true → s.active = 1 → ∀ h ∈ s.handouts, ¬ s.Young h)
    (hs : stepFinish s i h = some s') : Inv s' := by
  unfold stepFinish at hs
  split at hs
  · rename_i hrunning
    have hpos : 0 < s.active := by
      rw [hinv.active]
      exact List.countP_pos_iff.mpr ⟨h, List.mem_of_getElem? hi, by simpa using hrunning⟩
    have hopen : s.closed = false := by
      by_contra hclosed
      rw [Bool.not_eq_false] at hclosed
      have hidle := (hinv.closed hclosed).2.1
      omega
    -- What the end of the run keeps, whether the runner is closed then or not.
    have hcount : s.active - 1 =
        (s.setPhase i h .finished).handouts.countP (·.phase = .running) := by
      have hset := countP_setPhase hi .finished
      rw [hrunning, ← hinv.active] at hset
      simpa using hset.symm
    obtain ⟨hpast, htimer⟩ := hinv.times hi (show Phase.finished ≠ .waiting by decide)
    dsimp only at hs
    split at hs
    · rename_i hlast
      cases hs
      refine inv_closeOnce hcount hinv.closes hpast htimer hlast.2 hlast.1 ?_
      intro h' hmem hyoung
      obtain ⟨old, hold, -, hsame⟩ := mem_setPhase hi (by decide) hmem
      obtain rfl := hsame hyoung.1
      exact hcalm hlast.2 (by omega) h' hold hyoung
    · rename_i hmore
      cases hs
      refine ⟨hcount, hinv.closes, fun hclosed => ?_, hinv.fresh, fun hretired _ => .inl ?_,
        hpast, htimer⟩
      · rw [show s.closed = true from hclosed] at hopen
        cases hopen
      · -- Other runs are in progress.
        exact Nat.pos_of_ne_zero fun hzero => hmore ⟨hzero, hretired⟩
  · cases hs

theorem Inv.retire (hinv : Inv s) (hs : Runner.step s .retire = some s') : Inv s' := by
  simp only [Runner.step] at hs
  split at hs
  · cases hs
    exact hinv
  · rename_i hfresh
    have hopen : ∀ {P : Prop}, s.closed = true → P := fun hclosed =>
      absurd (hinv.closed hclosed).1 hfresh
    have hnow : ∀ {P : Prop}, true = false → P := fun h => by cases h
    split at hs
    · rename_i hactive
      cases hs
      exact ⟨hinv.active, hinv.closes, hopen, hnow, fun _ _ => Or.inl hactive, hinv.past,
        hinv.timer⟩
    · cases hs
      refine ⟨hinv.active, hinv.closes, hopen, hnow,
        fun _ _ => Or.inr ⟨_, rfl, Int.le_refl _⟩, hinv.past, ?_⟩
      intro due hdue h hmem
      obtain rfl := Option.some.inj hdue
      have hpast := hinv.past h hmem
      omega

theorem Inv.fire (hinv : Inv s) (hs : Runner.step s .fire = some s') : Inv s' := by
  simp only [Runner.step] at hs
  split at hs
  · cases hs
  · rename_i due hdue
    have htimer : ∀ due ∈ (none : Option Int), ∀ h ∈ s.handouts,
        h.since + runnerCloseGrace ≤ due := fun due hdue => by cases hdue
    have hretired : s.retired = true := by
      by_contra hfresh
      rw [hinv.fresh (Bool.eq_false_iff.mpr hfresh)] at hdue
      cases hdue
    split at hs
    · rename_i hle
      split at hs
      · rename_i hactive
        cases hs
        exact ⟨hinv.active, hinv.closes, hinv.closed, fun _ => rfl, fun _ _ => Or.inl hactive,
          hinv.past, htimer⟩
      · rename_i hidle
        cases hs
        refine inv_closeOnce (s := { s with timer := none }) hinv.active hinv.closes hinv.past
          htimer hretired (Nat.eq_zero_of_not_pos hidle) ?_
        -- A hand-out is older than the grace when the timer fires.
        rintro h hmem ⟨-, hlt⟩
        have hgrace := hinv.timer due hdue h hmem
        simp only at hlt
        omega
    · cases hs

theorem Inv.step (hinv : Inv s) (hok : Calm s op) (hs : Runner.step s op = some s') : Inv s' := by
  cases op with
  | pass delay =>
    cases hs
    exact hinv.pass delay
  | handOut =>
    simp only [Runner.step] at hs
    split at hs
    · cases hs
    · rename_i hfresh
      cases hs
      exact hinv.handOut (Bool.eq_false_iff.mpr hfresh)
  | start i =>
    obtain ⟨h, hi, hs⟩ := Option.bind_eq_some_iff.mp hs
    exact hinv.start hi hs
  | finish i =>
    obtain ⟨h, hi, hs⟩ := Option.bind_eq_some_iff.mp hs
    exact hinv.finish hi hok hs
  | retire => exact hinv.retire hs
  | fire => exact hinv.fire hs

theorem start_inv (now : Int) : Inv (start now) := by
  constructor <;> simp [Runner.start]

/-! ## 5. The result -/

/-- **No run loses its runner**, where the last run of a retired runner ends when no run that was
handed out within the grace has still to start. -/
theorem no_run_loses_runner {now : Int} (hrun : Reach step Calm (start now) s) : Safe s :=
  (hrun.invariant (start_inv now) fun _ _ _ hinv hok hs => hinv.step hok hs).safe

/-- Two runs of a runner that is retired between their starts. -/
def overlapping : List Op :=
  [.handOut, .handOut, .start 0, .retire, .start 1, .finish 0, .finish 1]

theorem no_run_loses_runner_overlapping :
    ∃ s, Reach step Calm (start 0) s ∧ (s.closed = true ∧ s.closes = 1) ∧ Safe s := by
  have hplay : (replay step Calm (start 0) overlapping).map (fun s => (s.closed, s.closes)) =
      some (true, 1) := by decide
  obtain ⟨s, hs, hout⟩ := Option.map_eq_some_iff.mp hplay
  have hrun := Reach.of_replay overlapping hs
  exact ⟨s, hrun, Prod.mk.inj hout, no_run_loses_runner hrun⟩

/-- The second run has still to start when the first one ends. -/
def overtaken : List Op := [.handOut, .handOut, .start 0, .retire, .finish 0]

/-- **A run can lose its runner** before its first event. -/
theorem runner_closed_under_handout : ¬ ∀ now s, Reach step anyStep (start now) s → Safe s := by
  intro hall
  have hplay : (replay step anyStep (start 0) overtaken).map
      (fun s => (s.closed, s.now, s.handouts[1]?)) = some (true, 0, some ⟨0, .waiting⟩) := by
    decide
  obtain ⟨s, hs, hout⟩ := Option.map_eq_some_iff.mp hplay
  simp only [Prod.mk.injEq] at hout
  obtain ⟨hclosed, hnow, hi⟩ := hout
  have hsafe := hall 0 s (Reach.of_replay overtaken hs)
  refine hsafe.young hclosed ⟨0, .waiting⟩ (List.mem_of_getElem? hi) ⟨rfl, ?_⟩
  rw [hnow]
  decide

end Apowerb.Agent.Runner
