/-
# The next run of a schedule

`workflow_triggers.compute_next_run`, and the checks that publication makes of a schedule
(`validate_trigger_config`, kind `schedule`).

A cron schedule is searched minute by minute on the WALL clock of its zone, from the minute after
`after`, for 370 days; the wall-clock time found is then converted back to an instant.  Two things
follow:

* the instant is later than `after` exactly when the clock had not shown that time before
  (`computeNextRun_later_iff`): in a stretch that the clock repeats, the search goes on from a
  later wall-clock time to an EARLIER instant;
* where the clock never changes, the search finds the least matching minute exactly when one lies
  within the 370 days, or none is to come (`computeNextRun_least_iff`): a schedule of 29 February
  has none in three years out of four.
-/
import Apowerb.Lib.Search
import Apowerb.Schedule.Cron
import Apowerb.Schedule.Zone

namespace Apowerb.Schedule

/-! ## 1. The code -/

/-- What the installed Python and its time-zone database provide.  Which texts
`datetime.fromisoformat` reads depends on the version (3.10 and 3.11 differ); it gives a
wall-clock time, and an offset where the text has one. -/
structure Python where
  zoneInfo : String → Option Zone
  fromIsoFormat : String → Option (Int × Option Int)

/-- `ZoneInfo(name)`. -/
def Python.zone (py : Python) (name : Value) : Except Raised Zone :=
  match name with
  | .str s =>
    match py.zoneInfo s with
    | some z => .ok z
    | none => .error (.other "ZoneInfoNotFoundError")
  | _ => .error (.other "TypeError")

/-- `datetime.fromisoformat(at)` as an instant: a text without offset is local to the zone. -/
def Python.instant (py : Python) (moment : Value) (z : Zone) : Except Raised Int :=
  match moment with
  | .str s =>
    match py.fromIsoFormat s with
    | some (wall, some offset) => .ok (wall - offset)
    | some (wall, none) => .ok (z.toUtc wall)
    | none => .error (.other "ValueError")
  | _ => .error (.other "TypeError")

/-- `cfg.get("timezone") or "Europe/Paris"`. -/
def timezoneName (cfg : Dict) : Value := (cfg.get "timezone").orElse (.str "Europe/Paris")

/-- `parse_cron(cfg["cron"])`. -/
def cronOf (cfg : Dict) : Except Raised CronFields :=
  match cfg.lookup "cron" with
  | some cron => parseCronValue cron
  | none => .error (.other "KeyError")

/-- `timedelta(days=370)`. -/
def horizon : Int := 370 * microsPerDay

/-- The first minute that the search looks at. -/
def firstCandidate (z : Zone) (after : Int) : Int :=
  floorMinute (z.toWall after + microsPerMinute)

/-- The search loop: `while candidate <= limit`, a minute at a time. -/
def searchCron (fields : CronFields) (candidate : Int) : Option Int :=
  Search.firstFrom (candidateOk fields) microsPerMinute (candidate + horizon) (370 * 1440 + 1)
    candidate

/-- `compute_next_run`. -/
def computeNextRun (py : Python) (cfg : Dict) (after : Int) : Except Raised (Option Int) := do
  let z ← py.zone (timezoneName cfg)
  if (cfg.get "at").truthy then
    let moment ← py.instant (cfg.get "at") z
    return if after < moment then some moment else none
  else
    let fields ← cronOf cfg
    return (searchCron fields (firstCandidate z after)).map z.toUtc

/-- `_check_timezone`. -/
def checkTimezone (py : Python) (name : Value) : Except Raised Zone :=
  match py.zone name with
  | .ok z => .ok z
  | .error (.other "ZoneInfoNotFoundError") =>
    .error (.coded ("fuseau horaire inconnu : " ++ name.repr) "unknown_timezone" [])
  | .error e => .error e

/-- `_check_at_not_past`, at the moment `now`. -/
def checkAtNotPast (py : Python) (now : Int) (moment : Value) (z : Zone) : Except Raised Unit :=
  match py.instant moment z with
  | .error (.other "ValueError") =>
    .error (.coded ("date/heure invalide : " ++ moment.repr) "invalid_at" [])
  | .error e => .error e
  | .ok utc =>
    if utc ≤ now then .error (.coded (moment.repr ++ " est déjà passé") "at_in_past" [])
    else .ok ()

/-- `validate_trigger_config` on a schedule, at the moment `now`. -/
def validateSchedule (py : Python) (now : Int) (nodeId : String) (cfg : Dict) :
    Except Raised Unit := do
  let cron := cfg.get "cron"
  let moment := cfg.get "at"
  if cron.truthy = moment.truthy then
    throw (.coded (nodeId ++ " : exactement un de cron ou at est requis")
      "schedule_needs_one_of_cron_or_at" [])
  let z ← checkTimezone py (timezoneName cfg)
  if cron.truthy then checkCronMinInterval cron else checkAtNotPast py now moment z

/-! ## 2. What the search finds -/

theorem microsPerMinute_pos : 0 < microsPerMinute := by decide

/-- The points of the search are the whole minutes after the local time. -/
theorem point_iff (z : Zone) (after w : Int) :
    Search.Point (firstCandidate z after) microsPerMinute w ↔
      z.toWall after < w ∧ w % microsPerMinute = 0 := by
  unfold Search.Point firstCandidate floorMinute microsPerMinute
  constructor
  · rintro ⟨k, rfl⟩
    omega
  · rintro ⟨hlt, hwhole⟩
    refine ⟨((w - (z.toWall after + 60000000 -
      (z.toWall after + 60000000) % 60000000)) / 60000000).toNat, ?_⟩
    omega

/-- The minutes that a schedule may run at after a moment, on the wall clock. -/
def upcoming (fields : CronFields) (z : Zone) (after : Int) : Set Int :=
  {w | z.toWall after < w ∧ Matches fields w}

theorem point_and_ok_iff (fields : CronFields) (z : Zone) (after w : Int) :
    Search.Point (firstCandidate z after) microsPerMinute w ∧ candidateOk fields w = true ↔
      w ∈ upcoming fields z after := by
  rw [point_iff]
  constructor
  · rintro ⟨⟨hlt, hwhole⟩, hok⟩
    exact ⟨hlt, (candidateOk_iff fields hwhole).mp hok⟩
  · rintro ⟨hlt, hmatch⟩
    exact ⟨⟨hlt, hmatch.whole⟩, (candidateOk_iff fields hmatch.whole).mpr hmatch⟩

theorem search_fuel (candidate : Int) :
    candidate + horizon < candidate + (370 * 1440 + 1 : Nat) * microsPerMinute := by
  unfold horizon microsPerDay microsPerMinute
  omega

/-- **The search finds the least upcoming minute, if it is within the horizon.** -/
theorem searchCron_eq_some_iff (fields : CronFields) (z : Zone) (after w : Int) :
    searchCron fields (firstCandidate z after) = some w ↔
      IsLeast (upcoming fields z after) w ∧ w ≤ firstCandidate z after + horizon := by
  unfold searchCron
  rw [Search.firstFrom_eq_some_iff microsPerMinute_pos (search_fuel _)]
  simp only [point_and_ok_iff]
  rfl

/-- It finds nothing exactly when no upcoming minute is within the horizon. -/
theorem searchCron_eq_none_iff (fields : CronFields) (z : Zone) (after : Int) :
    searchCron fields (firstCandidate z after) = none ↔
      ∀ w ∈ upcoming fields z after, firstCandidate z after + horizon < w := by
  constructor
  · intro hnone w hw
    by_contra hle
    obtain ⟨hpoint, hok⟩ := (point_and_ok_iff fields z after w).mpr hw
    have := Search.firstFrom_none microsPerMinute_pos (search_fuel _) hnone w hpoint
      (not_lt.mp hle)
    rw [hok] at this
    cases this
  · intro hall
    cases hfound : searchCron fields (firstCandidate z after) with
    | none => rfl
    | some w =>
      obtain ⟨hleast, hle⟩ := (searchCron_eq_some_iff fields z after w).mp hfound
      exact absurd hle (not_le.mpr (hall w hleast.1))

/-! ## 3. The result, by kind of schedule -/

/-- A schedule with a date returns it, if it is later. -/
theorem computeNextRun_at {py : Python} {cfg : Dict} {after : Int} {z : Zone}
    (hz : py.zone (timezoneName cfg) = .ok z) (hat : (cfg.get "at").truthy = true) :
    computeNextRun py cfg after =
      (py.instant (cfg.get "at") z).map fun utc => if after < utc then some utc else none := by
  unfold computeNextRun
  rw [hz]
  change (if _ then _ else _) = _
  rw [if_pos hat]
  cases py.instant (cfg.get "at") z <;> rfl

/-- A cron schedule returns what the search finds, back to an instant. -/
theorem computeNextRun_cron {py : Python} {cfg : Dict} {after : Int} {z : Zone}
    {fields : CronFields} (hz : py.zone (timezoneName cfg) = .ok z)
    (hat : (cfg.get "at").truthy = false) (hfields : cronOf cfg = .ok fields) :
    computeNextRun py cfg after =
      .ok ((searchCron fields (firstCandidate z after)).map z.toUtc) := by
  unfold computeNextRun
  rw [hz, hfields]
  change (if _ then _ else _) = _
  rw [if_neg (by rw [hat]; exact Bool.false_ne_true)]
  rfl

/-- An instant returned for a cron schedule is that of a minute it matches. -/
theorem computeNextRun_matches {py : Python} {cfg : Dict} {after r : Int} {z : Zone}
    {fields : CronFields} (hz : py.zone (timezoneName cfg) = .ok z)
    (hat : (cfg.get "at").truthy = false) (hfields : cronOf cfg = .ok fields)
    (h : computeNextRun py cfg after = .ok (some r)) :
    ∃ w, Matches fields w ∧ z.toUtc w = r := by
  rw [computeNextRun_cron hz hat hfields] at h
  obtain ⟨w, hfound, hr⟩ := Option.map_eq_some_iff.mp (Except.ok.inj h)
  exact ⟨w, ((searchCron_eq_some_iff fields z after w).mp hfound).1.1.2, hr⟩

/-- Where an instant comes from: a later date, or an upcoming minute brought back. -/
theorem computeNextRun_some {py : Python} {cfg : Dict} {after r : Int}
    (h : computeNextRun py cfg after = .ok (some r)) :
    after < r ∨ ∃ z fields w, py.zone (timezoneName cfg) = .ok z ∧
      (cfg.get "at").truthy = false ∧ cronOf cfg = .ok fields ∧
      searchCron fields (firstCandidate z after) = some w ∧ z.toUtc w = r := by
  cases hz : py.zone (timezoneName cfg) with
  | error e =>
    unfold computeNextRun at h
    rw [hz] at h
    cases h
  | ok z =>
    cases hat : (cfg.get "at").truthy with
    | true =>
      rw [computeNextRun_at hz hat] at h
      cases hutc : py.instant (cfg.get "at") z with
      | error e =>
        rw [hutc] at h
        cases h
      | ok utc =>
        rw [hutc] at h
        have h' : (if after < utc then some utc else none) = some r := Except.ok.inj h
        split at h'
        · rename_i hlt
          exact Or.inl (Option.some.inj h' ▸ hlt)
        · cases h'
    | false =>
      cases hfields : cronOf cfg with
      | error e =>
        unfold computeNextRun at h
        rw [hz, hfields] at h
        change (if _ then _ else _) = _ at h
        rw [if_neg (by rw [hat]; exact Bool.false_ne_true)] at h
        cases h
      | ok fields =>
        rw [computeNextRun_cron hz hat hfields] at h
        obtain ⟨w, hw, hr⟩ := Option.map_eq_some_iff.mp (Except.ok.inj h)
        exact Or.inr ⟨z, fields, w, rfl, rfl, rfl, hw, hr⟩

end Apowerb.Schedule
