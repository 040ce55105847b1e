/-
# A published date, when it is due

A schedule with a date is accepted at publication only if the date is still to come
(`_check_at_not_past`), and its row is armed for that date.  When the tick fires it,
`launch_triggered_run` gives the stored graph to `run_graph`, which validates it again: the date
is now past, and the same check refuses the graph.  So a published date never runs its workflow
(`published_date_never_runs`).
-/
import Apowerb.Graph.Validate
import Apowerb.Schedule.Progress
import Apowerb.Trigger.Row

namespace Apowerb.Trigger

open Graph Schedule

/-! ## 1. The two validations -/

/-- What the validation at the head of `run_graph` reads, at the moment `t`: the clock has moved,
and no owner is given. -/
def atRun (ctx : Context) (t : Int) : Context := { ctx with now := t, ownerId := none }

/-- The date of a schedule, as an instant. -/
def scheduledMoment (py : Python) (spec : Dict) : Except Raised Int := do
  let z ← py.zone (timezoneName spec)
  py.instant (spec.get "at") z

/-! ## 2. The trigger of a graph -/

theorem kindOf_manualUnless (config : Dict) :
    kindOf (manualUnless config) = config.getOr "kind" (.str "manual") := by
  simp [kindOf, manualUnless, Dict.getOr]

theorem lookup_filter_ne {config : Dict} {key dropped : String} (h : key ≠ dropped) :
    (config.filter (·.1 ≠ dropped)).lookup key = config.lookup key := by
  induction config with
  | nil => rfl
  | cons e rest ih =>
    obtain ⟨k, v⟩ := e
    by_cases hk : k = dropped
    · have hne : (key == k) = false := beq_false_of_ne fun heq => h (heq.trans hk)
      have hdrop : ((k, v) :: rest).filter (·.1 ≠ dropped) = rest.filter (·.1 ≠ dropped) := by
        simp [hk]
      rw [hdrop, ih, List.lookup_cons, hne]
    · simp only [List.filter_cons, ne_eq, hk, not_false_eq_true, decide_true, if_true,
        List.lookup_cons]
      rw [ih]

/-- The default kind changes no other key. -/
theorem get_manualUnless {config : Dict} {key : String} (h : key ≠ "kind") :
    (manualUnless config).get key = config.get key := by
  unfold manualUnless Dict.get
  rw [List.lookup_cons, beq_false_of_ne h]
  simp only
  rw [lookup_filter_ne h]

/-- A graph with a trigger other than manual has a trigger node, and its configuration. -/
theorem triggerSpec_node {graph : WorkflowGraph} (h : kindOf (triggerSpec graph) ≠ .str "manual") :
    ∃ n ∈ graph.nodes, n.type = .trigger ∧ triggerSpec graph = manualUnless n.config := by
  unfold triggerSpec at h ⊢
  split
  · rename_i n hfound
    exact ⟨n, List.mem_of_find?_eq_some hfound, by simpa using List.find?_some hfound, rfl⟩
  · rename_i hnone
    rw [hnone] at h
    exact absurd rfl h

/-! ## 3. The check of a date -/

/-- A trigger node is validated by its configuration alone. -/
theorem validateNode_trigger {readBody : Dict → Except Raised WorkflowGraph} {ctx : Context}
    {n : Node} (h : n.type = .trigger) :
    validateNode readBody ctx n = validateTriggerConfig ctx n.id n.config := by
  unfold validateNode
  rw [h]

theorem checkTimezone_eq_ok_iff {py : Python} {name : Value} {z : Zone} :
    checkTimezone py name = .ok z ↔ py.zone name = .ok z := by
  unfold checkTimezone
  split <;> simp_all

theorem checkAtNotPast_eq_ok_iff {py : Python} {now : Int} {moment : Value} {z : Zone}
    {u : Unit} :
    checkAtNotPast py now moment z = .ok u ↔ ∃ utc, py.instant moment z = .ok utc ∧ now < utc := by
  unfold checkAtNotPast
  split
  · rename_i h
    simp [h]
  · rename_i e _ h
    simp [h]
  · rename_i utc h
    split <;> simp_all

/-- **A date is accepted exactly when it can be read and is still to come.** -/
theorem validateSchedule_date_iff {py : Python} {now : Int} {nodeId : String} {cfg : Dict}
    (hat : (cfg.get "at").truthy = true) :
    validateSchedule py now nodeId cfg = .ok () ↔
      (cfg.get "cron").truthy = false ∧ ∃ moment, scheduledMoment py cfg = .ok moment ∧ now < moment := by
  unfold validateSchedule scheduledMoment
  dsimp only
  rw [hat]
  cases hcron : (cfg.get "cron").truthy with
  | true =>
    constructor
    · intro h
      cases h
    · rintro ⟨h, _⟩
      cases h
  | false =>
    rw [if_neg Bool.false_ne_true]
    simp only [Except.bind_eq_ok_iff, checkTimezone_eq_ok_iff, checkAtNotPast_eq_ok_iff,
      Bool.false_eq_true, if_false, true_and]
    constructor
    · rintro ⟨z, hz, utc, hutc, hlt⟩
      exact ⟨utc, ⟨z, hz, hutc⟩, hlt⟩
    · rintro ⟨utc, ⟨z, hz, hutc⟩, hlt⟩
      exact ⟨z, hz, utc, hutc, hlt⟩

/-! ## 4. A published date never runs -/

/-- The date of a specification is that of the configuration it was read from. -/
theorem scheduledMoment_manualUnless (py : Python) (config : Dict) :
    scheduledMoment py (manualUnless config) = scheduledMoment py config := by
  unfold scheduledMoment timezoneName
  rw [get_manualUnless (by decide), get_manualUnless (by decide)]

/-- A trigger node that is a schedule with a date is accepted only before it. -/
theorem validateNode_date {readBody : Dict → Except Raised WorkflowGraph} {ctx : Context}
    {n : Node} (htype : n.type = .trigger)
    (hkind : n.config.getOr "kind" (.str "manual") = .str "schedule")
    (hat : (n.config.get "at").truthy = true) (h : validateNode readBody ctx n = .ok ()) :
    ∃ moment, scheduledMoment ctx.python n.config = .ok moment ∧ ctx.now < moment := by
  rw [validateNode_trigger htype] at h
  unfold validateTriggerConfig at h
  rw [hkind] at h
  exact ((validateSchedule_date_iff hat).mp h).2

/-- The row of a date that is to come is armed for it. -/
theorem computeNextRun_date {py : Python} {spec : Dict} {now moment : Int}
    (hat : (spec.get "at").truthy = true) (hmoment : scheduledMoment py spec = .ok moment)
    (hlt : now < moment) : computeNextRun py spec now = .ok (some moment) := by
  obtain ⟨z, hz, hutc⟩ := Except.bind_eq_ok_iff.mp hmoment
  rw [computeNextRun_at hz hat, hutc]
  change Except.ok (if now < moment then some moment else none) = _
  rw [if_pos hlt]

/-- **A published date never runs its workflow.**  For every graph accepted at publication whose
trigger is a schedule with a date, the row is armed for that date, and from that date on the
validation at the head of `run_graph` refuses the graph. -/
theorem published_date_never_runs {depth : Nat} {ctx : Context} {graph : WorkflowGraph}
    (haccept : validateGraph depth ctx graph = .ok ())
    (hkind : kindOf (triggerSpec graph) = .str "schedule")
    (hat : ((triggerSpec graph).get "at").truthy = true) :
    ∃ moment, ctx.now < moment ∧
      computeNextRun ctx.python (triggerSpec graph) ctx.now = .ok (some moment) ∧
      ∀ t, moment ≤ t → ∀ depth', validateGraph depth' (atRun ctx t) graph ≠ .ok () := by
  have hauto : kindOf (triggerSpec graph) ≠ .str "manual" := by
    rw [hkind]
    decide
  obtain ⟨n, hn, htype, hspec⟩ := triggerSpec_node hauto
  rw [hspec] at hkind hat ⊢
  rw [kindOf_manualUnless] at hkind
  rw [get_manualUnless (by decide)] at hat
  obtain ⟨moment, hmoment, hlt⟩ :=
    validateNode_date htype hkind hat ((validateWith_ok haccept).nodes n hn)
  refine ⟨moment, hlt, ?_, ?_⟩
  · refine computeNextRun_date ?_ ?_ hlt
    · rwa [get_manualUnless (by decide)]
    · rwa [scheduledMoment_manualUnless]
  · intro t hdue depth' hagain
    obtain ⟨moment', hmoment', hlater⟩ :=
      validateNode_date htype hkind hat ((validateWith_ok hagain).nodes n hn)
    have hsame : moment' = moment := by
      have := hmoment'.symm.trans hmoment
      exact Except.ok.inj this
    exact absurd hdue (not_le.mpr (hsame ▸ hlater))

/-- A workflow that is to run once, on 1 January 2030. -/
def newYear : WorkflowGraph where
  nodes := [
    ⟨"start", .trigger,
      [("kind", .str "schedule"), ("at", .str "2030-01-01T00:00:00+00:00"),
        ("timezone", .str "UTC")]⟩,
    ⟨"end", .output, []⟩]
  edges := [⟨"start", "end", none⟩]

/-- Its publication, two hours before its date. -/
def newYearPublication : Context where
  python :=
    { zoneInfo := fun s => if s = "UTC" then some (.fixed 0) else none
      fromIsoFormat := fun s =>
        if s = "2030-01-01T00:00:00+00:00" then some (wallOf ⟨2030, 1, 1⟩ 0 0, some 0) else none }
  now := wallOf ⟨2029, 12, 31⟩ 22 0
  workflowId := some "wf1"
  ownerId := some "ana"
  toolNameTaken _ _ _ := false
  hasWorkflow _ _ := true

/-- The rule applies to it. -/
theorem published_date_never_runs_newYear :
    ∃ moment, newYearPublication.now < moment ∧
      computeNextRun newYearPublication.python (triggerSpec newYear) newYearPublication.now =
        .ok (some moment) ∧
      ∀ t, moment ≤ t → ∀ depth',
        validateGraph depth' (atRun newYearPublication t) newYear ≠ .ok () :=
  published_date_never_runs
    (show validateGraph 1 newYearPublication newYear = .ok () by decide) (by decide) (by decide)

/-- **A one-shot schedule that is accepted, and refused when it is due.** -/
theorem date_refused_when_due :
    ¬ ∀ (depth : Nat) (ctx : Context) (graph : WorkflowGraph) (moment t : Int),
      validateGraph depth ctx graph = .ok () →
      kindOf (triggerSpec graph) = .str "schedule" →
      ((triggerSpec graph).get "at").truthy = true →
      scheduledMoment ctx.python (triggerSpec graph) = .ok moment → ctx.now < moment →
      moment ≤ t → validateGraph depth (atRun ctx t) graph = .ok () := by
  intro hall
  have hruns := hall 1 newYearPublication newYear (wallOf ⟨2030, 1, 1⟩ 0 0)
    (wallOf ⟨2030, 1, 1⟩ 0 0) (by decide) (by decide) (by decide) (by decide) (by decide)
    (by decide)
  exact absurd hruns (by decide)

end Apowerb.Trigger
