/-
# The transitions of the KPI

ONE subscription: its settings changes, its checks and its end, each run to the end before the next
begins, so that a row is written as it was read.  A check alerts the KPI that is bad and was not
remembered as bad.

What is remembered stands for the past of a KPI, and `alerted_iff` says for how much of it: the
checks since the subscription, or since the alerts were switched on again, as far back as the
dashboard has had the KPI without a break.  A KPI that leaves the dashboard is forgotten, so one
that was bad when it left is alerted again when it comes back bad (`not_lastKnown`).

GHOST STATE: the checks since the subscription or the last such switch.
-/
import Apowerb.Digest.Ticks

namespace Apowerb.Digest.Transitions

open Runs

/-! ## 1. The machine -/

structure State where
  row : Option Row
  /-- The last check comes first. -/
  past : List Check

inductive Op
  /-- `upsert`. -/
  | change (now : Int) (plan : Plan) (alertsEnabled : Bool)
  /-- `process_subscription`: the dashboard may be gone. -/
  | check (found : Option Computed) (now : Int) (sendDigest : Bool)
  | delete

variable (env : Env) (dashboardId ownerEmail : String)

/-- `upsert`; nothing changes where `next_run` raises. -/
def changed (s : State) (now : Int) (plan : Plan) (alertsEnabled : Bool) : State :=
  let c : Change := ⟨dashboardId, ownerEmail, now,
    { plan with weekday := normalWeekday plan.frequency plan.weekday }, alertsEnabled,
    s.row.map (0, ·)⟩
  match nextRun env.zoneInfo c.plan now, s.row with
  | none, _ => s
  | some digestAt, none => ⟨some (c.newRow digestAt), []⟩
  | some digestAt, some row =>
    ⟨some (c.apply digestAt row row), if c.rearms row then [] else s.past⟩

/-- The check of a row, where its alerts are on. -/
def checkFor (row : Row) (found : Computed) : Option Check :=
  checkOf row (extract found.dashboard found.response) (kpiIds found.dashboard)

/-- `process_subscription`. -/
def checked (s : State) (found : Option Computed) (now : Int) (sendDigest : Bool) : State :=
  match s.row, found with
  | some row, some c =>
    ⟨some (processed row row (extract c.dashboard c.response) (kpiIds c.dashboard) now sendDigest),
      (checkFor row c).toList ++ s.past⟩
  | _, _ => s

def step (s : State) : Op → Option State
  | .change now plan alertsEnabled =>
    some (changed env dashboardId ownerEmail s now plan alertsEnabled)
  | .check found now sendDigest => some (checked s found now sendDigest)
  | .delete => some ⟨none, []⟩

/-- Nothing is subscribed to. -/
def start : State := ⟨none, []⟩

/-- The KPI that a check of the row alerts. -/
def alerted (row : Row) (found : Computed) : List String :=
  (newlyBad (checkFor row found)).map (·.id)

/-! ## 2. The status of a KPI -/

/-- The status of a KPI among the lines of a check; `none` where it is not known. -/
def statusOf (kpis : List KpiLine) (kpi : String) : Option Status :=
  kpis.findSome? fun k => if k.id = kpi then k.status else none

/-- Its status in a computed dashboard. -/
def statusIn (found : Computed) (kpi : String) : Option Status :=
  statusOf (extract found.dashboard found.response) kpi

/-- Its last known status. -/
def lastKnown (past : List Check) (kpi : String) : Option Status :=
  past.findSome? fun c => statusOf c.kpis kpi

/-- Its last known status since the dashboard has had it without a break. -/
def lastSeen (past : List Check) (kpi : String) : Option Status :=
  lastKnown (past.takeWhile fun c => kpi ∈ c.ids) kpi

theorem lastSeen_cons (c : Check) (past : List Check) (kpi : String) :
    lastSeen (c :: past) kpi =
      if kpi ∈ c.ids then (statusOf c.kpis kpi).or (lastSeen past kpi) else none := by
  unfold lastSeen
  rw [List.takeWhile_cons]
  by_cases hmem : kpi ∈ c.ids
  · simp only [hmem, decide_true, if_true, lastKnown, List.findSome?_cons]
    cases statusOf c.kpis kpi <;> rfl
  · simp [hmem, lastKnown]

/-- Two lines of one KPI tell the same status. -/
def Coherent (kpis : List KpiLine) : Prop :=
  ∀ k ∈ kpis, ∀ k' ∈ kpis, k.id = k'.id → k.status = k'.status

/-- A KPI line is of a visual of the type `"kpi"`, and tells the status of its result. -/
theorem kpiLine_eq_some {response : String → Option Result} {comp : Component} {k : KpiLine}
    (h : kpiLine response comp = some k) :
    k.id = comp.id ∧ (comp.isVisual && comp.visual.any (·.type == "kpi")) = true ∧
      ∃ formatted, response comp.id = some ⟨false, some (formatted, k.status)⟩ := by
  unfold kpiLine at h
  split at h
  · rename_i visual formatted status hvisual hcomp hresult
    split at h
    · rename_i hkpi hmeasure
      cases h
      exact ⟨rfl, by simp [hvisual, hcomp, hkpi], formatted, hresult⟩
    · cases h
  · cases h

theorem extract_coherent (dashboard : Dashboard) (response : String → Option Result) :
    Coherent (extract dashboard response) := by
  intro k hk k' hk' hid
  obtain ⟨comp, -, hcomp⟩ := List.mem_filterMap.mp hk
  obtain ⟨comp', -, hcomp'⟩ := List.mem_filterMap.mp hk'
  obtain ⟨hk, -, formatted, hresult⟩ := kpiLine_eq_some hcomp
  obtain ⟨hk', -, formatted', hresult'⟩ := kpiLine_eq_some hcomp'
  rw [← hk, hid, hk', hresult'] at hresult
  simp only [Option.some.injEq, Result.mk.injEq, Prod.mk.injEq, true_and] at hresult
  exact hresult.2.symm

/-- The lines are of KPI of the dashboard. -/
theorem extract_ids {dashboard : Dashboard} {response : String → Option Result} {k : KpiLine}
    (h : k ∈ extract dashboard response) : k.id ∈ kpiIds dashboard := by
  obtain ⟨comp, hmem, hcomp⟩ := List.mem_filterMap.mp h
  obtain ⟨hid, hkpi, -⟩ := kpiLine_eq_some hcomp
  rw [hid]
  exact List.mem_map_of_mem (List.mem_filter.mpr ⟨hmem, hkpi⟩)

theorem statusOf_eq_some_iff {kpis : List KpiLine} (h : Coherent kpis) {kpi : String}
    {status : Status} :
    statusOf kpis kpi = some status ↔ ∃ k ∈ kpis, k.id = kpi ∧ k.status = some status := by
  constructor
  · intro hstatus
    obtain ⟨k, hk, hfound⟩ := List.exists_of_findSome?_eq_some hstatus
    split at hfound
    · rename_i hid
      exact ⟨k, hk, hid, hfound⟩
    · cases hfound
  · rintro ⟨k, hk, hid, hstatus⟩
    cases hfound : statusOf kpis kpi with
    | none =>
      have hnone := List.findSome?_eq_none_iff.mp hfound k hk
      rw [if_pos hid, hstatus] at hnone
      cases hnone
    | some other =>
      obtain ⟨k', hk', hother⟩ := List.exists_of_findSome?_eq_some hfound
      split at hother
      · rename_i hid'
        rw [← hother, h k' hk' k hk (hid'.trans hid.symm), hstatus]
      · cases hother

theorem mem_current_iff {kpis : List KpiLine} (h : Coherent kpis) {kpi : String} :
    kpi ∈ current kpis ↔ statusOf kpis kpi = some .bad := by
  rw [statusOf_eq_some_iff h]
  simp only [current, List.mem_map, List.mem_filter, decide_eq_true_eq]
  constructor
  · rintro ⟨k, ⟨hk, hbad⟩, hid⟩
    exact ⟨k, hk, hid, hbad⟩
  · rintro ⟨k, hk, hid, hbad⟩
    exact ⟨k, ⟨hk, hbad⟩, hid⟩

theorem mem_known_iff {kpis : List KpiLine} (h : Coherent kpis) {kpi : String} :
    kpi ∈ known kpis ↔ ∃ status, statusOf kpis kpi = some status := by
  simp only [statusOf_eq_some_iff h, known, List.mem_map, List.mem_filter,
    Option.isSome_iff_exists]
  constructor
  · rintro ⟨k, ⟨hk, status, hstatus⟩, hid⟩
    exact ⟨status, k, hk, hid, hstatus⟩
  · rintro ⟨status, k, hk, hid, hstatus⟩
    exact ⟨k, ⟨hk, status, hstatus⟩, hid⟩

/-! ## 3. What is remembered -/

/-- A row remembers the KPI whose last known status, since the dashboard has had them, is bad. -/
def Remembers (s : State) : Prop :=
  ∀ row ∈ s.row, ∀ kpi, kpi ∈ row.previous ↔ lastSeen s.past kpi = some .bad

/-- What is written on the row as it was read. -/
theorem written_self {α : Type} [DecidableEq α] (read wanted : α) :
    written read wanted read = wanted :=
  written_eq fun _ => rfl

/-- A check writes what it makes of what was remembered. -/
theorem previous_processed {row : Row} (hon : row.alertsEnabled = true) (kpis : List KpiLine)
    (ids : List String) (now : Int) (sendDigest : Bool) :
    (processed row row kpis ids now sendDigest).previous = remembered row kpis ids := by
  simp only [processed, Row.previous, hon, if_true, written_self, Option.getD_some]

variable {env dashboardId ownerEmail} {s : State}

theorem Remembers.changed (h : Remembers s) (now : Int) (plan : Plan) (alertsEnabled : Bool) :
    Remembers (changed env dashboardId ownerEmail s now plan alertsEnabled) := by
  unfold Transitions.changed
  dsimp only
  split
  · exact h
  · rintro row ⟨⟩ kpi
    simp [Change.newRow, Row.previous, lastSeen, lastKnown]
  · rename_i digestAt row _ hrow
    rintro _ ⟨⟩ kpi
    split
    · rename_i hrearms
      simp [Row.previous, Change.apply, hrearms, written_self, lastSeen, lastKnown]
    · rename_i hrearms
      rw [← h row hrow kpi]
      simp [Row.previous, Change.apply, hrearms]

theorem Remembers.checked (h : Remembers s) (found : Option Computed) (now : Int)
    (sendDigest : Bool) : Remembers (checked s found now sendDigest) := by
  unfold Transitions.checked
  split
  · rename_i row c hrow
    rintro _ ⟨⟩ kpi
    have hprevious := h row hrow kpi
    cases hon : row.alertsEnabled with
    | false => simpa [checkFor, checkOf, hon, processed, Row.previous] using hprevious
    | true =>
      have hcoherent := extract_coherent c.dashboard c.response
      rw [previous_processed hon, mem_remembered, mem_current_iff hcoherent,
        mem_known_iff hcoherent, hprevious]
      simp only [checkFor, checkOf, hon, if_true, Option.toList_some, List.singleton_append,
        lastSeen_cons]
      by_cases hids : kpi ∈ kpiIds c.dashboard
      · cases statusOf (extract c.dashboard c.response) kpi with
        | none => simp [hids]
        | some status => simp [hids]
      · -- A KPI that is not of the dashboard has no line.
        have hnone : statusOf (extract c.dashboard c.response) kpi ≠ some .bad := by
          intro hbad
          obtain ⟨k, hk, rfl, -⟩ := (statusOf_eq_some_iff hcoherent).mp hbad
          exact hids (extract_ids hk)
        simp [hids, hnone]
  · exact h

theorem remembers_of_reach
    (h : Reach (step env dashboardId ownerEmail) anyStep start s) : Remembers s := by
  refine h.invariant (fun row hrow => by cases hrow) fun s op s' hs _ hstep => ?_
  cases op with
  | change now plan alertsEnabled =>
    cases hstep
    exact hs.changed now plan alertsEnabled
  | check found now sendDigest =>
    cases hstep
    exact hs.checked found now sendDigest
  | delete =>
    cases hstep
    exact fun row hrow => by cases hrow

/-! ## 4. The result -/

/-- **A check alerts the KPI that turn bad.**  In every run, it alerts a KPI exactly when it finds
it bad and the last status known of it was not bad, or none was, in the checks since the
subscription or since the alerts were switched on again, as far back as the dashboard has had it. -/
theorem alerted_iff (h : Reach (step env dashboardId ownerEmail) anyStep start s) {row : Row}
    (hrow : s.row = some row) (hon : row.alertsEnabled = true) (found : Computed) (kpi : String) :
    kpi ∈ alerted row found ↔
      statusIn found kpi = some .bad ∧ lastSeen s.past kpi ≠ some .bad := by
  have hcoherent := extract_coherent found.dashboard found.response
  have hprevious := remembers_of_reach h row hrow kpi
  have hmem : kpi ∈ alerted row found ↔
      kpi ∈ current (extract found.dashboard found.response) ∧ kpi ∉ row.previous := by
    simp only [alerted, checkFor, checkOf, hon, if_true, newlyBad, Option.map_some,
      Option.getD_some, List.mem_map, List.mem_filter, decide_eq_true_eq]
    constructor
    · rintro ⟨k, ⟨-, hnew⟩, rfl⟩
      exact hnew
    · rintro ⟨hcurrent, hnot⟩
      obtain ⟨k, hk, rfl⟩ := List.mem_map.mp hcurrent
      exact ⟨k, ⟨(List.mem_filter.mp hk).1, hcurrent, hnot⟩, rfl⟩
  rw [hmem, mem_current_iff hcoherent, hprevious]
  rfl


/-- The dashboard without its KPI. -/
def emptied : Computed := { bad with dashboard := ⟨"d", "Ventes", []⟩ }

/-- The KPI is bad, and leaves the dashboard. -/
def leaves : List Op :=
  [.change 0 (daily 8) true, .check (some bad) (hours 6) false,
    .check (some emptied) (hours 12) false]

theorem reach_leaves : ∃ s row, Reach (step utc "d" "o@x") anyStep start s ∧ s.row = some row ∧
    row.alertsEnabled = true ∧ alerted row bad = ["k"] ∧ lastKnown s.past "k" = some .bad := by
  have hplay : (replay (step utc "d" "o@x") anyStep start leaves).map
      (fun s => (s.row.map fun row => (row.alertsEnabled, alerted row bad),
        lastKnown s.past "k")) = some (some (true, ["k"]), some .bad) := by decide +kernel
  obtain ⟨s, hs, hout⟩ := Option.map_eq_some_iff.mp hplay
  obtain ⟨hout, hlast⟩ := Prod.mk.inj hout
  obtain ⟨row, hrow, hout⟩ := Option.map_eq_some_iff.mp hout
  obtain ⟨hon, halerted⟩ := Prod.mk.inj hout
  exact ⟨s, row, Reach.of_replay leaves hs, hrow, hon, halerted, hlast⟩

/-- When it comes back bad, it is alerted again. -/
theorem alerted_iff_leaves : ∃ (s : State) (row : Row), s.row = some row ∧
    ("k" ∈ alerted row bad ↔
      statusIn bad "k" = some .bad ∧ lastSeen s.past "k" ≠ some .bad) := by
  obtain ⟨s, row, hreach, hrow, hon, -, -⟩ := reach_leaves
  exact ⟨s, row, hrow, alerted_iff hreach hrow hon bad "k"⟩

/-- **The past goes no further back than the KPI has been on the dashboard**: this one is alerted
again although its last known status is bad. -/
theorem not_lastKnown : ¬ ∀ s row, Reach (step utc "d" "o@x") anyStep start s →
    s.row = some row → row.alertsEnabled = true → ∀ found kpi,
      (kpi ∈ alerted row found ↔
        statusIn found kpi = some .bad ∧ lastKnown s.past kpi ≠ some .bad) := by
  intro hall
  obtain ⟨s, row, hreach, hrow, hon, halerted, hlast⟩ := reach_leaves
  have hmem : "k" ∈ alerted row bad := by
    rw [halerted]
    exact List.mem_singleton_self _
  exact ((hall s row hreach hrow hon bad "k").mp hmem).2 hlast

end Apowerb.Digest.Transitions
