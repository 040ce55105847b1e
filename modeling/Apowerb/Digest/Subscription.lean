/-
# A digest subscription

The row of `bi_dashboard_digests`, what a settings change writes on it (`DigestStore.upsert`) and
what a check of its dashboard finds and writes (`process_subscription`).

Both write through the ORM, which sends the columns whose value is not the one it READ.  So a
column that should be changed to what it was when it was read is left as it is now (`written`).

`bad_components` is a JSON list of component ids, and is held here as that list.  The texts of the
visuals and the pages of the mails are left out.
-/
import Apowerb.Digest.Plan
import Mathlib.Data.List.Dedup
import Mathlib.Data.List.Sort

namespace Apowerb.Digest

/-! ## 1. The row, and a settings change -/

/-- A row of `bi_dashboard_digests`. -/
structure Row where
  dashboardId : String
  ownerEmail : String
  plan : Plan
  alertsEnabled : Bool
  nextDigestAt : Int
  nextAlertCheckAt : Int
  lastSentAt : Option Int
  badComponents : Option (List String)
deriving DecidableEq, Repr

/-- `ALERT_CHECK_INTERVAL`: six hours. -/
def alertCheckInterval : Int := 6 * 60 * Schedule.microsPerMinute

/-- What a column holds after a commit: the ORM sends a value other than the one it read. -/
def written {α : Type} [DecidableEq α] (read wanted current : α) : α :=
  if wanted = read then current else wanted

/-- A column that is not sent still holds what was read. -/
def Unsent {α : Type} (read wanted current : α) : Prop := wanted = read → current = read

theorem written_eq {α : Type} [DecidableEq α] {read wanted current : α}
    (h : Unsent read wanted current) : written read wanted current = wanted := by
  unfold written
  split
  · rename_i heq
    exact (h heq).trans heq.symm
  · rfl

/-- `(weekday or 0) if frequency == "weekly" else None`. -/
def normalWeekday (frequency : String) (weekday : Option Int) : Option Int :=
  if frequency = "weekly" then some (weekday.getD 0) else none

/-- A call of `upsert` that has read the row, if there is one. -/
structure Change where
  dashboardId : String
  ownerEmail : String
  now : Int
  plan : Plan
  alertsEnabled : Bool
  found : Option (Nat × Row)

/-- The alerts are turned on again. -/
def Change.rearms (c : Change) (read : Row) : Bool := c.alertsEnabled && !read.alertsEnabled

/-- The row that `upsert` adds. -/
def Change.newRow (c : Change) (digestAt : Int) : Row where
  dashboardId := c.dashboardId
  ownerEmail := c.ownerEmail
  plan := c.plan
  alertsEnabled := c.alertsEnabled
  nextDigestAt := digestAt
  nextAlertCheckAt := c.now + alertCheckInterval
  lastSentAt := none
  badComponents := none

/-- What the commit of `upsert` makes of the row as it is now. -/
def Change.apply (c : Change) (digestAt : Int) (read current : Row) : Row :=
  { current with
    plan :=
      { frequency := written read.plan.frequency c.plan.frequency current.plan.frequency
        weekday := written read.plan.weekday c.plan.weekday current.plan.weekday
        hour := written read.plan.hour c.plan.hour current.plan.hour
        timezone := written read.plan.timezone c.plan.timezone current.plan.timezone }
    alertsEnabled := written read.alertsEnabled c.alertsEnabled current.alertsEnabled
    nextDigestAt := written read.nextDigestAt digestAt current.nextDigestAt
    nextAlertCheckAt :=
      if c.rearms read then
        written read.nextAlertCheckAt (c.now + alertCheckInterval) current.nextAlertCheckAt
      else current.nextAlertCheckAt
    badComponents :=
      if c.rearms read then written read.badComponents none current.badComponents
      else current.badComponents }

/-- Every column of the schedule that the change does not send still holds what it read. -/
def Change.Fresh (c : Change) (digestAt : Int) (read current : Row) : Prop :=
  Unsent read.plan.frequency c.plan.frequency current.plan.frequency ∧
    Unsent read.plan.weekday c.plan.weekday current.plan.weekday ∧
    Unsent read.plan.hour c.plan.hour current.plan.hour ∧
    Unsent read.plan.timezone c.plan.timezone current.plan.timezone ∧
    Unsent read.nextDigestAt digestAt current.nextDigestAt

/-- Then the row has the plan and the slot that were asked for. -/
theorem Change.apply_eq {c : Change} {digestAt : Int} {read current : Row}
    (h : c.Fresh digestAt read current) :
    (c.apply digestAt read current).plan = c.plan ∧
      (c.apply digestAt read current).nextDigestAt = digestAt := by
  obtain ⟨hfrequency, hweekday, hhour, htimezone, hdigest⟩ := h
  refine ⟨?_, written_eq hdigest⟩
  simp only [Change.apply, written_eq hfrequency, written_eq hweekday, written_eq hhour,
    written_eq htimezone]

/-! ## 2. What a check finds -/

inductive Status | good | warn | bad
deriving DecidableEq, Repr

/-- What `extract` and `_kpi_ids` read of a visual. -/
structure Visual where
  type : String
  title : Option String
  /-- `visual.kpi.measure`, if there is a `kpi`. -/
  measure : Option String

structure Component where
  id : String
  /-- `component_type == VISUAL`. -/
  isVisual : Bool
  visual : Option Visual

structure Dashboard where
  id : String
  title : String
  components : List Component

/-- The result of a component: `value` is the text and the status of a KPI. -/
structure Result where
  error : Bool
  value : Option (String × Option Status)

structure KpiLine where
  id : String
  label : String
  formatted : String
  status : Option Status
deriving DecidableEq, Repr

/-- `visual.title or visual.kpi.measure`. -/
def labelOf (title : Option String) (measure : String) : String :=
  match title with
  | some text => if text = "" then measure else text
  | none => measure

/-- The KPI line of a component, if it has one. -/
def kpiLine (response : String → Option Result) (comp : Component) : Option KpiLine :=
  match comp.isVisual, comp.visual, response comp.id with
  | true, some visual, some ⟨false, some (formatted, status)⟩ =>
    match visual.type, visual.measure with
    | "kpi", some measure => some ⟨comp.id, labelOf visual.title measure, formatted, status⟩
    | _, _ => none
  | _, _, _ => none

/-- The KPI lines of `extract`. -/
def extract (dashboard : Dashboard) (response : String → Option Result) : List KpiLine :=
  dashboard.components.filterMap (kpiLine response)

/-- `_kpi_ids`. -/
def kpiIds (dashboard : Dashboard) : List String :=
  (dashboard.components.filter fun comp =>
    comp.isVisual && comp.visual.any (·.type == "kpi")).map (·.id)

/-! ## 3. What it remembers -/

/-- A check of the alerts: the KPI lines, the KPI of the dashboard, and those newly bad. -/
structure Check where
  kpis : List KpiLine
  ids : List String
  newlyBad : List KpiLine
deriving DecidableEq, Repr

/-- The KPI whose status is known. -/
def known (kpis : List KpiLine) : List String :=
  (kpis.filter fun k => k.status.isSome).map (·.id)

/-- The KPI that are bad. -/
def current (kpis : List KpiLine) : List String :=
  (kpis.filter fun k => k.status = some .bad).map (·.id)

/-- What `_loads` reads back from `bad_components`. -/
def Row.previous (row : Row) : List String := row.badComponents.getD []

/-- The check that a row asks for: none where its alerts are off. -/
def checkOf (row : Row) (kpis : List KpiLine) (ids : List String) : Option Check :=
  if row.alertsEnabled then
    some ⟨kpis, ids, kpis.filter fun k => k.id ∈ current kpis ∧ k.id ∉ row.previous⟩
  else none

/-- `json.dumps(sorted(current | keep))`: an unknown status keeps what was remembered. -/
def remembered (row : Row) (kpis : List KpiLine) (ids : List String) : List String :=
  let keep := row.previous.filter fun id => id ∈ ids ∧ id ∉ known kpis
  (current kpis ++ keep).dedup.insertionSort (· ≤ ·)

theorem mem_remembered {row : Row} {kpis : List KpiLine} {ids : List String} {id : String} :
    id ∈ remembered row kpis ids ↔
      id ∈ current kpis ∨ id ∈ row.previous ∧ id ∈ ids ∧ id ∉ known kpis := by
  simp [remembered, List.mem_insertionSort]

/-- A notification of the application. -/
structure Notification where
  userId : Int
  title : String
  message : String
  type : String
  link : String
  kind : String
  kpis : List String
deriving DecidableEq, Repr

/-- The notification of an alert. -/
def alertNotification (dashboard : Dashboard) (userId : Int) (newlyBad : List KpiLine) :
    Notification where
  userId := userId
  title := "Indicateur critique : " ++ dashboard.title
  message := String.intercalate ", " (newlyBad.map (·.label)) ++ " est passé en statut critique."
  type := "warning"
  link := "/bi/" ++ dashboard.id
  kind := "kpi_alert"
  kpis := newlyBad.map (·.id)

/-- `" · ".join(...) or "Résumé disponible."`. -/
def digestMessage (kpis : List KpiLine) : String :=
  let text := String.intercalate " · " (kpis.map fun k => k.label ++ " " ++ k.formatted)
  if text = "" then "Résumé disponible." else text

/-- The notification of a digest. -/
def digestNotification (dashboard : Dashboard) (userId : Int) (kpis : List KpiLine) :
    Notification where
  userId := userId
  title := "Résumé : " ++ dashboard.title
  message := digestMessage kpis
  type := "info"
  link := "/bi/" ++ dashboard.id
  kind := "dashboard_digest"
  kpis := []

/-- The KPI that a check, if there was one, newly found bad. -/
def newlyBad (check : Option Check) : List KpiLine := (check.map (·.newlyBad)).getD []

/-- `pending`: the notifications of a check. -/
def pending (dashboard : Dashboard) (userId : Option Int) (kpis : List KpiLine)
    (check : Option Check) (sendDigest : Bool) : List Notification :=
  match userId with
  | none => []
  | some user =>
    (if newlyBad check ≠ [] then [alertNotification dashboard user (newlyBad check)] else []) ++
      (if sendDigest then [digestNotification dashboard user kpis] else [])

theorem pending_nodup (dashboard : Dashboard) (userId : Option Int) (kpis : List KpiLine)
    (check : Option Check) (sendDigest : Bool) :
    (pending dashboard userId kpis check sendDigest).Nodup := by
  unfold pending
  split
  · exact List.nodup_nil
  · split <;> split <;> simp [alertNotification, digestNotification]

/-- What the commit of a check makes of the row as it is now. -/
def processed (read current : Row) (kpis : List KpiLine) (ids : List String) (now : Int)
    (sendDigest : Bool) : Row :=
  { current with
    badComponents :=
      if read.alertsEnabled then
        written read.badComponents (some (remembered read kpis ids)) current.badComponents
      else current.badComponents
    lastSentAt :=
      if sendDigest then written read.lastSentAt (some now) current.lastSentAt
      else current.lastSentAt }

end Apowerb.Digest
