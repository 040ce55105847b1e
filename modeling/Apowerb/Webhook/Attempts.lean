/-
# The attempts of the backlog queue

The claim of a row counts its attempts (`Webhook/Backlog`), and the count is compared with
`_MAX_ATTEMPTS` in one place only: where an exception of the processor is caught.  A row whose process
dies comes back through the reclaim, which compares nothing.

* `queue_gives_up`: as long as no reclaim resets a row that a live worker has, and no process dies in
  the last attempt of a row, every row is handed out at most `_MAX_ATTEMPTS` times; one that used
  them all without success ends in `error`.
-/
import Apowerb.Webhook.Backlog

namespace Apowerb.Webhook.Backlog

open Runs

/-! ## 1. What is to hold, and when -/

variable {s s' : State} {op : Op} {w : Nat}

/-- The worker is in the last attempt of a row. -/
def Phase.atLast (phase : Phase) : Bool := phase.held.any (maxAttempts ≤ ·.2)

/-- The step does not end the last attempt of a row without a mark: its process is not killed, and
the mark of its failure goes through. -/
def keepsLast (s : State) : Op → Bool
  | .crash w => !(s.workers[w]?).any (·.phase.atLast)
  | .markRaised w _ => !(s.workers[w]?).any fun worker =>
      worker.phase.atLast && worker.phase.failing
  | _ => true

/-- Both conditions. -/
def SparesLast (s : State) (op : Op) : Prop := SparesLive s op ∧ keepsLast s op = true

instance (s : State) (op : Op) : Decidable (SparesLast s op) :=
  inferInstanceAs (Decidable (_ ∧ _))

/-- The queue gives up. -/
structure GivesUp (s : State) : Prop where
  /-- No row is handed out more than `_MAX_ATTEMPTS` times. -/
  bounded : ∀ id : Nat, s.handed.count id ≤ maxAttempts
  /-- A row that used them all without success ends in `error`. -/
  ends : ∀ (id : Nat) row, s.rows[id]? = some row → s.handed.count id = maxAttempts →
    id ∉ s.liveRows → id ∉ s.returned → row.status = .error

/-! ## 2. The invariant -/

/-- The attempts count what was handed out; a row without attempts left is at its end or at hand. -/
structure Counted (s : State) : Prop where
  known : ∀ id ∈ s.handed, id < s.rows.length
  counted : ∀ (id : Nat) row, s.rows[id]? = some row → s.handed.count id = row.attempts
  success : ∀ (id : Nat) row, s.rows[id]? = some row → row.status = .success → id ∈ s.returned
  bounded : ∀ (id : Nat) row, s.rows[id]? = some row → row.attempts < maxAttempts ∨
    row.attempts = maxAttempts ∧ (row.status.Final ∨ id ∈ s.liveRows)

theorem Counted.givesUp (h : Counted s) : GivesUp s where
  bounded id := by
    cases hid : s.rows[id]? with
    | none =>
      have hfresh : id ∉ s.handed := fun hmem =>
        absurd (h.known id hmem) (Nat.not_lt.mpr (List.getElem?_eq_none_iff.mp hid))
      rw [List.count_eq_zero_of_not_mem hfresh]
      exact Nat.zero_le _
    | some row =>
      have hcount := h.counted id row hid
      rcases h.bounded id row hid with hlt | ⟨heq, -⟩
      · omega
      · omega
  ends id row hid hcount hlive hreturned := by
    have hattempts := h.counted id row hid
    rcases h.bounded id row hid with hlt | ⟨-, (hsuccess | herror) | hmem⟩
    · omega
    · exact absurd (h.success id row hid hsuccess) hreturned
    · exact herror
    · exact absurd hmem hlive

/-- The rows of the other workers stay at hand. -/
theorem mem_liveRows_setWorker {old new : Worker} {id : Nat} (hw : s.workers[w]? = some old)
    (hlive : id ∈ s.liveRows)
    (hother : (∀ attempts, old.phase.held ≠ some (id, attempts)) ∨
      new.phase.held = old.phase.held) : id ∈ (s.setWorker w new).liveRows := by
  obtain ⟨worker, hworker, attempts, hheld⟩ := mem_liveRows.mp hlive
  rcases eq_or_ne worker old with rfl | hne
  · rcases hother with hother | hsame
    · exact absurd hheld (hother attempts)
    · have hlt := (List.getElem?_eq_some_iff.mp hw).1
      exact mem_liveRows.mpr ⟨new, List.mem_set hlt new, attempts, hsame.trans hheld⟩
  · exact mem_liveRows.mpr
      ⟨worker, Replace.mem_set_of_ne hw hworker hne, attempts, hheld⟩

/-- The rows stay, and so do the live workers of the rows without attempts left. -/
theorem Counted.sameRows (h : Counted s) (hrows : s'.rows = s.rows) (hhanded : s'.handed = s.handed)
    (hreturned : s.returned ⊆ s'.returned)
    (hlive : ∀ id ∈ s.liveRows, ∀ row, s.rows[id]? = some row → row.attempts = maxAttempts →
      id ∈ s'.liveRows) : Counted s' where
  known := by
    rw [hrows, hhanded]
    exact h.known
  counted := by
    rw [hrows, hhanded]
    exact h.counted
  success id row hid hstatus := hreturned (h.success id row (hrows ▸ hid) hstatus)
  bounded id row hid := by
    rw [hrows] at hid
    rcases h.bounded id row hid with hlt | ⟨heq, hfinal | hmem⟩
    · exact .inl hlt
    · exact .inr ⟨heq, .inl hfinal⟩
    · exact .inr ⟨heq, .inr (hlive id hmem row hid heq)⟩

/-- The row of a claim, or of a mark, takes its new values; the others stay as they are. -/
theorem Counted.setRow (h : Counted s) {id : Nat} {row new : Row} (hid : s.rows[id]? = some row)
    (hrows : s'.rows = s.rows.set id new) (hreturned : s'.returned = s.returned)
    (hknown : ∀ x ∈ s'.handed, x = id ∨ x ∈ s.handed)
    (hcount : ∀ x, s'.handed.count x = s.handed.count x + if x = id then new.attempts - row.attempts
      else 0)
    (hattempts : row.attempts ≤ new.attempts)
    (hsuccess : new.status = .success → id ∈ s.returned)
    (hbounded : new.attempts < maxAttempts ∨
      new.attempts = maxAttempts ∧ (new.status.Final ∨ id ∈ s'.liveRows))
    (hlive : ∀ x ∈ s.liveRows, x ≠ id → x ∈ s'.liveRows) : Counted s' := by
  have hlt : id < s.rows.length := (List.getElem?_eq_some_iff.mp hid).1
  have hcases : ∀ x r, s'.rows[x]? = some r →
      x = id ∧ r = new ∨ x ≠ id ∧ s.rows[x]? = some r := by
    intro x r hx
    rw [hrows] at hx
    rcases eq_or_ne x id with rfl | hne
    · rw [List.getElem?_set_self hlt] at hx
      exact .inl ⟨rfl, (Option.some.inj hx).symm⟩
    · exact .inr ⟨hne, (List.getElem?_set_ne hne.symm).symm.trans hx⟩
  refine ⟨?_, ?_, ?_, ?_⟩
  · intro x hx
    rw [hrows, List.length_set]
    rcases hknown x hx with rfl | hmem
    · exact hlt
    · exact h.known x hmem
  · intro x r hx
    rw [hcount]
    rcases hcases x r hx with ⟨rfl, rfl⟩ | ⟨hne, hx⟩
    · rw [if_pos rfl, h.counted x row hid]
      omega
    · rw [if_neg hne, h.counted x r hx, Nat.add_zero]
  · intro x r hx hstatus
    rw [hreturned]
    rcases hcases x r hx with ⟨rfl, rfl⟩ | ⟨hne, hx⟩
    · exact hsuccess hstatus
    · exact h.success x r hx hstatus
  · intro x r hx
    rcases hcases x r hx with ⟨rfl, rfl⟩ | ⟨hne, hx⟩
    · exact hbounded
    · rcases h.bounded x r hx with hless | ⟨heq, hfinal | hmem⟩
      · exact .inl hless
      · exact .inr ⟨heq, .inl hfinal⟩
      · exact .inr ⟨heq, .inr (hlive x hmem hne)⟩

theorem Counted.claimed (h : Counted s) (hinv : Inv s) {old new : Worker} {id : Nat} {row : Row}
    {now : Int} (hw : s.workers[w]? = some old) (hold : old.phase.held = none)
    (hid : s.rows[id]? = some row) (hclaimable : row.claimable = true)
    (hnew : new.phase.held = some (id, row.attempts + 1)) :
    Counted (({ s with handed := s.handed ++ [id] }.setRow id (row.claim now)).setWorker w new) := by
  have hopen : ¬ (row.status.Final ∨ id ∈ s.liveRows) := by
    rintro ((hstatus | hstatus) | hlive)
    · simp [Row.claimable, hstatus] at hclaimable
    · simp [Row.claimable, hstatus] at hclaimable
    · simp [Row.claimable, hinv.not_claimable hid hlive] at hclaimable
  have hless : row.attempts < maxAttempts := by
    rcases h.bounded id row hid with hless | ⟨-, hclosed⟩
    · exact hless
    · exact absurd hclosed hopen
  have hmine : id ∈ (s.setWorker w new).liveRows := by
    have hlt := (List.getElem?_eq_some_iff.mp hw).1
    exact mem_liveRows.mpr ⟨new, List.mem_set hlt new, _, hnew⟩
  refine h.setRow hid rfl rfl ?_ ?_ ?_ ?_ ?_ ?_
  · intro x hx
    rcases List.mem_append.mp hx with hmem | hlast
    · exact .inr hmem
    · exact .inl (List.mem_singleton.mp hlast)
  · intro x
    change (s.handed ++ [id]).count x = _
    rw [List.count_append, List.count_singleton]
    rcases eq_or_ne x id with rfl | hne
    · simp [Row.claim]
    · simp [hne, hne.symm]
  · exact Nat.le_succ _
  · intro hstatus
    cases hstatus
  · have hnext : (row.claim now).attempts = row.attempts + 1 := rfl
    rcases Nat.lt_or_ge (row.attempts + 1) maxAttempts with hlt | hge
    · exact .inl hlt
    · exact .inr ⟨by omega, .inr hmine⟩
  · intro x hlive _
    exact mem_liveRows_setWorker hw hlive (.inl fun attempts hheld => by simp [hold] at hheld)

theorem Counted.marked (h : Counted s) (hinv : Inv s) {old new : Worker} {id attempts : Nat}
    {mark : Mark} {row : Row} (hw : s.workers[w]? = some old)
    (hold : old.phase = .marking id attempts mark) (hid : s.rows[id]? = some row) :
    Counted ((s.setRow id (mark.write s.now row)).setWorker w new) := by
  have hmem := List.mem_of_getElem? hw
  obtain ⟨found, hfound, -, hattempts⟩ := hinv.held old hmem id attempts (by rw [hold]; rfl)
  rw [hid] at hfound
  cases hfound
  have hsame : (mark.write s.now row).attempts = row.attempts := by cases mark <;> rfl
  have hsound := hinv.sound old hmem
  rw [hold] at hsound
  refine h.setRow hid rfl rfl (fun x hx => .inr hx) ?_ hsame.ge ?_ ?_ ?_
  · intro x
    change s.handed.count x = _
    rw [hsame, Nat.sub_self, ite_self, Nat.add_zero]
  · intro hstatus
    cases mark with
    | success response duration => exact hsound
    | retrying message next => cases hstatus
    | error message => cases hstatus
  · rw [hsame]
    cases mark with
    | retrying message next => exact .inl (hattempts ▸ hsound)
    | success response duration =>
      rcases h.bounded id row hid with hless | ⟨heq, -⟩
      · exact .inl hless
      · exact .inr ⟨heq, .inl (.inl rfl)⟩
    | error message =>
      rcases h.bounded id row hid with hless | ⟨heq, -⟩
      · exact .inl hless
      · exact .inr ⟨heq, .inl (.inr rfl)⟩
  · intro x hlive hne
    refine mem_liveRows_setWorker hw hlive (.inl fun attempts' hheld => hne ?_)
    rw [hold] at hheld
    cases hheld
    rfl

theorem Counted.reclaimed (h : Counted s) (now : Int) :
    Counted { s with rows := s.rows.map (Row.reclaim now) } := by
  have hcases : ∀ (id : Nat) row', (s.rows.map (Row.reclaim now))[id]? = some row' →
      ∃ row, s.rows[id]? = some row ∧ row' = row.reclaim now := by
    intro id row' hid
    rw [List.getElem?_map] at hid
    obtain ⟨row, hrow, rfl⟩ := Option.map_eq_some_iff.mp hid
    exact ⟨row, hrow, rfl⟩
  have hattempts : ∀ row : Row, (row.reclaim now).attempts = row.attempts := by
    intro row
    unfold Row.reclaim
    split
    · rfl
    · rfl
  have hstatus : ∀ row : Row, row.stale now = false → row.reclaim now = row := by
    intro row hfresh
    simp [Row.reclaim, hfresh]
  have hfinal : ∀ row : Row, row.status.Final → row.stale now = false := by
    rintro row (hcase | hcase)
    · simp [Row.stale, hcase]
    · simp [Row.stale, hcase]
  refine ⟨?_, ?_, ?_, ?_⟩
  · simpa using h.known
  · intro id row' hid
    obtain ⟨row, hrow, rfl⟩ := hcases id row' hid
    rw [hattempts]
    exact h.counted id row hrow
  · intro id row' hid hsuccess
    obtain ⟨row, hrow, rfl⟩ := hcases id row' hid
    refine h.success id row hrow ?_
    unfold Row.reclaim at hsuccess
    split at hsuccess
    · cases hsuccess
    · exact hsuccess
  · intro id row' hid
    obtain ⟨row, hrow, rfl⟩ := hcases id row' hid
    rw [hattempts]
    rcases h.bounded id row hrow with hless | ⟨heq, hend | hlive⟩
    · exact .inl hless
    · exact .inr ⟨heq, .inl ((hstatus row (hfinal row hend)).symm ▸ hend)⟩
    · exact .inr ⟨heq, .inr hlive⟩

/-! ## 3. Every statement keeps it -/

/-- **One statement keeps the count**, if no last attempt ends without a mark. -/
theorem Counted.step (h : Counted s) (hinv : Inv s) (hok : keepsLast s op = true)
    (hs : Effect s op s') : Counted s' := by
  cases hs with
  | elapsed d => exact h.sameRows rfl rfl (List.Subset.refl _) fun _ hlive _ _ _ => hlive
  | arrived =>
    have hnew : ∀ (id : Nat) row, (s.rows ++ [Row.new])[id]? = some row →
        s.rows[id]? = some row ∨ id = s.rows.length ∧ row = Row.new := by
      intro id row hid
      rcases Nat.lt_or_ge id s.rows.length with hlt | hge
      · exact .inl ((List.getElem?_append_left hlt).symm.trans hid)
      · rw [List.getElem?_append_right hge, List.getElem?_singleton] at hid
        split at hid
        · cases hid
          exact .inr ⟨by omega, rfl⟩
        · cases hid
    refine ⟨?_, ?_, ?_, ?_⟩
    · intro id hid
      have := h.known id hid
      simp only [List.length_append]
      omega
    · intro id row hid
      rcases hnew id row hid with hold | ⟨rfl, rfl⟩
      · exact h.counted id row hold
      · exact List.count_eq_zero_of_not_mem fun hmem => lt_irrefl _ (h.known _ hmem)
    · intro id row hid hstatus
      rcases hnew id row hid with hold | ⟨rfl, rfl⟩
      · exact h.success id row hold hstatus
      · cases hstatus
    · intro id row hid
      rcases hnew id row hid with hold | ⟨rfl, rfl⟩
      · exact h.bounded id row hold
      · exact .inl (by decide)
  | booted =>
    refine h.sameRows rfl rfl (List.Subset.refl _) fun id hlive _ _ _ => ?_
    obtain ⟨worker, hworker, hheld⟩ := mem_liveRows.mp hlive
    exact mem_liveRows.mpr ⟨worker, List.mem_append_left _ hworker, hheld⟩
  | moved hw hold hnew =>
    exact h.sameRows rfl rfl (List.Subset.refl _) fun id hlive _ _ _ =>
      mem_liveRows_setWorker hw hlive (.inr (hnew.trans hold.symm))
  | learnt hw hsame hsound hsub =>
    exact h.sameRows rfl rfl hsub fun id hlive _ _ _ =>
      mem_liveRows_setWorker hw hlive (.inr hsame)
  | lost hw hop hnew =>
    rename_i w old new
    -- The attempt that is lost is not the last one of its row.
    have hearly : old.phase.atLast = false := by
      rcases hop with rfl | ⟨exc, rfl, hfailing⟩
      · simpa [keepsLast, hw] using hok
      · simpa [keepsLast, hw, hfailing] using hok
    refine h.sameRows rfl rfl (List.Subset.refl _) fun id hlive row hid hattempts =>
      mem_liveRows_setWorker hw hlive (.inl fun attempts hheld => ?_)
    obtain ⟨found, hfound, -, rfl⟩ := hinv.held old (List.mem_of_getElem? hw) id attempts hheld
    rw [hid] at hfound
    cases hfound
    simp [Phase.atLast, hheld, hattempts] at hearly
  | absent hw hold hid =>
    obtain ⟨row, hfound, -⟩ := hinv.held _ (List.mem_of_getElem? hw) _ _ (by rw [hold]; rfl)
    rw [hid] at hfound
    cases hfound
  | reclaimed hw hphase hnew =>
    rename_i w old new now
    refine (h.reclaimed now).sameRows rfl rfl (List.Subset.refl _) fun id hlive _ _ _ => ?_
    have hnone : old.phase.held = none := by rw [hphase]; rfl
    exact mem_liveRows_setWorker (s := { s with rows := s.rows.map (Row.reclaim now) }) hw hlive
      (.inr (hnew.trans hnone.symm))
  | claimed hw hold hid hclaimable hnew hsound =>
    exact h.claimed hinv hw hold hid hclaimable hnew
  | marked hw hold hid hnew => exact h.marked hinv hw hold hid

/-! ## 4. The queue gives up -/

theorem start_counted (now : Int) : Counted (start now) where
  known id hid := by cases hid
  counted id row hid := by cases hid
  success id row hid := by cases hid
  bounded id row hid := by cases hid

/-- **The queue gives up**, as long as no reclaim resets a row that a live worker has and no process
dies in the last attempt of a row. -/
theorem queue_gives_up {now : Int} (hrun : Reach step SparesLast (start now) s) : GivesUp s := by
  have hboth : Inv s ∧ Counted s := by
    refine hrun.invariant (I := fun s => Inv s ∧ Counted s) ⟨start_inv now, start_counted now⟩ ?_
    intro _ _ _ hinv hok hs
    exact ⟨hinv.1.step hok.1 (step_effect hs), hinv.2.step hinv.1 hok.2 (step_effect hs)⟩
  exact hboth.2.givesUp

/-- One attempt: the row is taken, fails, and waits for as long as the longest delay. -/
def attempt : List Op :=
  take 0 ++ [.finish 0 (.raised ⟨"Timeout", ""⟩), .move 0, .tick 600000000]

/-- The rule applies to a row that fails eight times: it is at its end, and a ninth call finds
nothing to claim. -/
theorem queue_gives_up_eight :
    ∃ s, Reach step SparesLast (start 0) s ∧ s.handed.count 0 = 8 ∧
      s.rows.map (·.status) = [.error] ∧ GivesUp s := by
  have hplay : (replay step SparesLast (start 0)
      ([.enqueue, .boot] ++ (List.replicate 8 attempt).flatten ++ take 0)).map
      (fun s => (s.handed.count 0, s.rows.map (·.status))) = some (8, [.error]) := by decide
  obtain ⟨s, hs, hout⟩ := Option.map_eq_some_iff.mp hplay
  have hrun := Reach.of_replay _ hs
  exact ⟨s, hrun, congrArg Prod.fst hout, congrArg Prod.snd hout, queue_gives_up hrun⟩

/-- The process `w` takes the row and is killed; another starts, and the stale delay passes. -/
def killed (w : Nat) : List Op := take w ++ [.crash w, .boot, .tick 600000001]

/-- **A row that kills its process is handed out again and again**: the ninth time here. -/
theorem fatal_row_never_ends :
    ¬ ∀ now s, Reach step anyStep (start now) s → GivesUp s := by
  intro hall
  have hplay : (replay step anyStep (start 0)
      ([.enqueue, .boot] ++ (List.range 9).flatMap killed)).map (·.handed.count 0) = some 9 := by
    decide
  obtain ⟨s, hs, hout⟩ := Option.map_eq_some_iff.mp hplay
  have hbounded := (hall 0 s (Reach.of_replay _ hs)).bounded 0
  rw [hout] at hbounded
  exact absurd hbounded (by decide)

end Apowerb.Webhook.Backlog
