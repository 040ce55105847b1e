/-
# The plan of a digest

`next_run` of `bi/dashboard_digest.py`: the next time that the wall clock of the zone shows the
hour, on the weekday of a weekly digest.

A `datetime` carries a `fold`, which is 1 in the SECOND pass of a stretch that the clock repeats.
`replace` keeps it, and the sum with a `timedelta` drops it.  So a slot later on the same day of a
daily digest is of the pass that `after` is in, and every other slot is of the first pass; such a
slot is at or before `after` exactly when the clock had shown it already (`Zone.toUtc_le_iff`), in a
stretch of two hours or more that the clock repeats.
-/
import Apowerb.Schedule.Calendar
import Apowerb.Schedule.Zone
import Mathlib.Tactic.Ring

namespace Apowerb.Digest

open Schedule

/-- A time zone with both readings of a repeated time. -/
structure FoldZone extends Zone where
  /-- `instant.astimezone(tz).fold`. -/
  fold : Int → Bool
  /-- The offset given to a wall-clock time with `fold=1`. -/
  laterOffset : Int → Int

/-- `wall.astimezone(UTC)`. -/
def FoldZone.toInstant (z : FoldZone) (wall : Int) (fold : Bool) : Int :=
  if fold then wall - z.laterOffset wall else z.toUtc wall

/-- The columns that say when a digest is due. -/
structure Plan where
  /-- `"weekly"` or `"daily"`. -/
  frequency : String
  /-- Monday is 0; `None` for a daily digest. -/
  weekday : Option Int
  hour : Int
  timezone : String
deriving DecidableEq, Repr

/-- `wall.weekday()`: Monday is 0. -/
def weekdayIndex (wall : Int) : Int := (ordinalOf wall + 6) % 7

/-- `wall.replace(hour=hour, minute=0, second=0, microsecond=0)`. -/
def atHour (wall hour : Int) : Int := ordinalOf wall * microsPerDay + hour * 60 * microsPerMinute

/-- The wall-clock time that `next_run` settles on, and its `fold`, from the time shown. -/
def candidate (plan : Plan) (shown : Int) (fold : Bool) : Int × Bool :=
  if plan.frequency = "daily" then
    let wall := atHour shown plan.hour
    if wall ≤ shown then (wall + microsPerDay, false) else (wall, fold)
  else
    let ahead := (plan.weekday.getD 0 - weekdayIndex shown) % 7
    let wall := atHour shown plan.hour + ahead * microsPerDay
    (if wall ≤ shown then wall + 7 * microsPerDay else wall, false)

/-- `next_run`; `none` where it raises. -/
def nextRun (zoneInfo : String → Option FoldZone) (plan : Plan) (after : Int) : Option Int :=
  match zoneInfo plan.timezone with
  | none => none
  | some z =>
    if 0 ≤ plan.hour ∧ plan.hour < 24 then
      let found := candidate plan (z.toWall after) (z.fold after)
      some (z.toInstant found.1 found.2)
    else none

variable {plan : Plan}

/-- The slot is on the hour of a day to come, and later than what the clock shows. -/
theorem candidate_eq (hhour : 0 ≤ plan.hour) (shown : Int) (fold : Bool) :
    ∃ days, (candidate plan shown fold).1 = atHour shown plan.hour + days * microsPerDay ∧
      shown < (candidate plan shown fold).1 := by
  have hdays : 0 ≤ (plan.weekday.getD 0 - weekdayIndex shown) % 7 :=
    Int.emod_nonneg _ (by decide)
  have hday : shown < ordinalOf shown * microsPerDay + microsPerDay := by
    unfold ordinalOf microsPerDay
    omega
  have hstart : ordinalOf shown * microsPerDay ≤ atHour shown plan.hour := by
    unfold atHour microsPerMinute
    omega
  have hahead : 0 ≤ (plan.weekday.getD 0 - weekdayIndex shown) % 7 * microsPerDay :=
    Int.mul_nonneg hdays (by decide)
  by_cases hdaily : plan.frequency = "daily"
  · by_cases hle : atHour shown plan.hour ≤ shown
    · exact ⟨1, by simp [candidate, hdaily, hle], by simp [candidate, hdaily, hle]; omega⟩
    · exact ⟨0, by simp [candidate, hdaily, hle], by simp [candidate, hdaily, hle]; omega⟩
  · simp only [candidate, hdaily, if_false]
    generalize (plan.weekday.getD 0 - weekdayIndex shown) % 7 = ahead at *
    by_cases hle : atHour shown plan.hour + ahead * microsPerDay ≤ shown
    · simp only [if_pos hle]
      refine ⟨ahead + 7, by ring, ?_⟩
      unfold microsPerDay at *
      omega
    · simp only [if_neg hle]
      exact ⟨ahead, rfl, Int.not_le.mp hle⟩

/-- On the wall clock the slot is later. -/
theorem candidate_later (hhour : 0 ≤ plan.hour) (shown : Int) (fold : Bool) :
    shown < (candidate plan shown fold).1 :=
  (candidate_eq hhour shown fold).choose_spec.2

/-- The slot is on the hour of the plan. -/
theorem candidate_hour (hhour : 0 ≤ plan.hour ∧ plan.hour < 24) (shown : Int) (fold : Bool) :
    (candidate plan shown fold).1 % microsPerDay = plan.hour * 60 * microsPerMinute := by
  obtain ⟨days, heq, -⟩ := candidate_eq hhour.1 shown fold
  rw [heq]
  unfold atHour microsPerDay microsPerMinute
  omega

theorem nextRun_eq_some_iff {zoneInfo : String → Option FoldZone} {after r : Int} :
    nextRun zoneInfo plan after = some r ↔
      ∃ z, zoneInfo plan.timezone = some z ∧ (0 ≤ plan.hour ∧ plan.hour < 24) ∧
        z.toInstant (candidate plan (z.toWall after) (z.fold after)).1
          (candidate plan (z.toWall after) (z.fold after)).2 = r := by
  unfold nextRun
  cases zoneInfo plan.timezone with
  | none => simp
  | some z => simp

/-- A zone without clock changes repeats nothing. -/
def FoldZone.fixed (offset : Int) : FoldZone where
  toZone := Zone.fixed offset
  fold := fun _ => false
  laterOffset := fun _ => offset

/-- In such a zone the slot is later, and on the hour. -/
theorem nextRun_fixed {zoneInfo : String → Option FoldZone} {offset after r : Int}
    (hz : zoneInfo plan.timezone = some (FoldZone.fixed offset))
    (h : nextRun zoneInfo plan after = some r) :
    after < r ∧ (r + offset) % microsPerDay = plan.hour * 60 * microsPerMinute := by
  obtain ⟨z, hz', hhour, hr⟩ := nextRun_eq_some_iff.mp h
  obtain rfl : FoldZone.fixed offset = z := Option.some.inj (hz.symm.trans hz')
  have hr : (candidate plan (after + offset) false).1 - offset = r := by
    rw [← hr]
    unfold FoldZone.toInstant
    split <;> rfl
  have hlater : after + offset < (candidate plan (after + offset) false).1 :=
    candidate_later hhour.1 _ _
  have hon := candidate_hour hhour (after + offset) false
  subst hr
  refine ⟨by omega, ?_⟩
  rw [Int.sub_add_cancel]
  exact hon

end Apowerb.Digest
