/-
# Does a schedule move on, and is any occurrence missed?

Two properties of `compute_next_run`, each with the exact condition under which the code has it.

1. **Later.**  The returned instant is later than `after`, unless the next matching time on the
   wall clock is one the clock has shown already: then it comes back to its first reading, which
   is past.  In Europe/Paris, on the night the clocks go back, `*/5 * * * *` is re-armed an hour
   earlier.
2. **Least.**  Where the clock never changes, the returned instant is the least matching minute
   after `after`, and no instant is returned only when none is to come, unless the next one lies
   beyond the search.  `0 0 29 2 *`, on 1 March of a year before a common year, has no next run.
-/
import Apowerb.Lib.Except
import Apowerb.Schedule.NextRun

namespace Apowerb.Schedule

/-! ## 1. Later -/

/-- The next matching time within the search is one that the clock showed by `after`. -/
def RepeatsNextMatch (py : Python) (cfg : Dict) (after : Int) : Prop :=
  ∃ z fields w, py.zone (timezoneName cfg) = .ok z ∧ (cfg.get "at").truthy = false ∧
    cronOf cfg = .ok fields ∧ IsLeast (upcoming fields z after) w ∧
    w ≤ firstCandidate z after + horizon ∧ ∃ u ≤ after, z.toWall u = w

/-- **When the next run is later.**  For every configuration, zone and moment, what is returned is
later than the moment exactly when the clock does not repeat the next matching time. -/
theorem computeNextRun_later_iff (py : Python) (cfg : Dict) (after : Int) :
    (∀ r, computeNextRun py cfg after = .ok (some r) → after < r) ↔
      ¬ RepeatsNextMatch py cfg after := by
  constructor
  · rintro hlater ⟨z, fields, w, hz, hat, hfields, hleast, hle, hshown⟩
    have hfound := (searchCron_eq_some_iff fields z after w).mpr ⟨hleast, hle⟩
    have hres : computeNextRun py cfg after = .ok (some (z.toUtc w)) := by
      rw [computeNextRun_cron hz hat hfields, hfound]
      rfl
    have hpast : z.toUtc w ≤ after := (z.toUtc_le_iff hleast.1.1).mpr hshown
    exact absurd (hlater _ hres) (not_lt.mpr hpast)
  · intro hfresh r hr
    rcases computeNextRun_some hr with hlt | ⟨z, fields, w, hz, hat, hfields, hfound, rfl⟩
    · exact hlt
    · obtain ⟨hleast, hle⟩ := (searchCron_eq_some_iff fields z after w).mp hfound
      by_contra hpast
      have hshown := (z.toUtc_le_iff hleast.1.1).mp (not_lt.mp hpast)
      exact hfresh ⟨z, fields, w, hz, hat, hfields, hleast, hle, hshown⟩

/-- A Python whose database has one zone, and that reads no date. -/
def samplePython (name : String) (z : Zone) : Python where
  zoneInfo s := if s = name then some z else none
  fromIsoFormat _ := none

def microsPerHour : Int := 60 * microsPerMinute

/-- Europe/Paris around 25 October 2026, 01:00 UTC, when its clocks go back by an hour. -/
def parisAutumn : Zone :=
  .change (wallOf ⟨2026, 10, 25⟩ 1 0) (2 * microsPerHour) microsPerHour

/-- A schedule of every five minutes. -/
def everyFiveMinutes : Dict := [("kind", .str "schedule"), ("cron", .str "*/5 * * * *")]

/-- **A schedule re-armed into the past.**  At 01:30 UTC the clock shows 02:30 for the second
time; the next run is 02:35, which is 00:35 UTC. -/
theorem computeNextRun_not_later :
    ¬ ∀ (py : Python) (now after : Int) (cfg : Dict) (r : Int),
      validateSchedule py now "trigger" cfg = .ok () →
      computeNextRun py cfg after = .ok (some r) → after < r := by
  intro hall
  have hlt := hall (samplePython "Europe/Paris" parisAutumn) 0 (wallOf ⟨2026, 10, 25⟩ 1 30)
    everyFiveMinutes (wallOf ⟨2026, 10, 25⟩ 0 35) (by decide) (by decide)
  exact absurd hlt (by decide)

/-! ## 2. Least -/

variable {py : Python} {cfg : Dict} {now after : Int} {nodeId : String} {z : Zone}

/-- What a next run is to be: the least matching minute to come, and none only if none comes. -/
def IsNextRun (fields : CronFields) (z : Zone) (after : Int) : Option Int → Prop
  | some r => IsLeast {u | after < u ∧ Matches fields (z.toWall u)} r
  | none => ∀ u, after < u → ¬ Matches fields (z.toWall u)

/-- A clock that never changes adds the same offset both ways. -/
theorem toUtc_of_constant {offset : Int} (hconst : ∀ u, z.offset u = offset) (w : Int) :
    z.toUtc w = w - offset := by
  have h := z.resolves w ⟨w - offset, by rw [hconst]; omega⟩
  rw [hconst] at h
  unfold Zone.toUtc
  omega

theorem toWall_of_constant {offset : Int} (hconst : ∀ u, z.offset u = offset) (u : Int) :
    z.toWall u = u + offset := by
  unfold Zone.toWall
  rw [hconst]

/-- It never repeats a time. -/
theorem not_repeats_of_constant
    (hconst : ∀ z, py.zone (timezoneName cfg) = .ok z → ∃ offset, ∀ u, z.offset u = offset) :
    ¬ RepeatsNextMatch py cfg after := by
  rintro ⟨z, fields, w, hz, _, _, hleast, _, u, hu, hshown⟩
  obtain ⟨offset, hoffset⟩ := hconst z hz
  have hlt : z.toWall after < w := hleast.1.1
  rw [toWall_of_constant hoffset] at hlt hshown
  omega

/-- There, the least upcoming wall-clock minute is the least instant. -/
theorem isNextRun_of_isLeast {offset : Int} (hconst : ∀ u, z.offset u = offset)
    {fields : CronFields} {w : Int} (hw : IsLeast (upcoming fields z after) w) :
    IsNextRun fields z after (some (z.toUtc w)) := by
  obtain ⟨⟨hlt, hmatch⟩, hleast⟩ := hw
  have hback := toUtc_of_constant hconst w
  rw [toWall_of_constant hconst] at hlt
  refine ⟨⟨by omega, ?_⟩, ?_⟩
  · rw [toWall_of_constant hconst, hback]
    rwa [sub_add_cancel]
  · rintro u ⟨hu, hmu⟩
    have hup : z.toWall u ∈ upcoming fields z after := by
      refine ⟨?_, hmu⟩
      rw [toWall_of_constant hconst, toWall_of_constant hconst]
      omega
    have hle := hleast hup
    rw [toWall_of_constant hconst] at hle
    omega

/-- What publication accepts as a cron schedule parses. -/
theorem cronOf_of_accepted (haccept : validateSchedule py now nodeId cfg = .ok ())
    (hat : (cfg.get "at").truthy = false) : ∃ fields, cronOf cfg = .ok fields := by
  unfold validateSchedule at haccept
  dsimp only at haccept
  split at haccept
  · cases haccept
  · rename_i hone
    rw [hat] at hone
    have hcron : (cfg.get "cron").truthy = true := Bool.eq_true_of_not_eq_false hone
    obtain ⟨_, _, hcheck⟩ := Except.bind_eq_ok_iff.mp haccept
    rw [if_pos hcron] at hcheck
    obtain ⟨fields, hparse, _⟩ := Except.bind_eq_ok_iff.mp hcheck
    refine ⟨fields, ?_⟩
    unfold cronOf
    cases hlook : cfg.lookup "cron" with
    | none =>
      unfold Dict.get at hcron
      rw [hlook] at hcron
      cases hcron
    | some cron =>
      unfold Dict.get at hparse
      rw [hlook] at hparse
      exact hparse

/-- **When the next run is the least.**  For every accepted cron schedule in a zone without clock
changes, the code returns what a next run is to be exactly when a matching minute lies within the
370 days of the search, or none is to come at all. -/
theorem computeNextRun_least_iff (haccept : validateSchedule py now nodeId cfg = .ok ())
    (hat : (cfg.get "at").truthy = false) (hz : py.zone (timezoneName cfg) = .ok z)
    {offset : Int} (hconst : ∀ u, z.offset u = offset) :
    ∃ fields, cronOf cfg = .ok fields ∧
      ((∃ result, computeNextRun py cfg after = .ok result ∧ IsNextRun fields z after result) ↔
        ((∃ w ∈ upcoming fields z after, w ≤ firstCandidate z after + horizon) ∨
          ∀ u, after < u → ¬ Matches fields (z.toWall u))) := by
  obtain ⟨fields, hfields⟩ := cronOf_of_accepted haccept hat
  refine ⟨fields, hfields, ?_⟩
  rw [computeNextRun_cron hz hat hfields]
  cases hfound : searchCron fields (firstCandidate z after) with
  | some w =>
    obtain ⟨hleast, hle⟩ := (searchCron_eq_some_iff fields z after w).mp hfound
    constructor
    · intro _
      exact Or.inl ⟨w, hleast.1, hle⟩
    · intro _
      exact ⟨_, rfl, isNextRun_of_isLeast hconst hleast⟩
  | none =>
    have hbeyond := (searchCron_eq_none_iff fields z after).mp hfound
    constructor
    · rintro ⟨result, hresult, hnext⟩
      cases hresult
      exact Or.inr hnext
    · rintro (⟨w, hw, hle⟩ | hnever)
      · exact absurd hle (not_le.mpr (hbeyond w hw))
      · exact ⟨none, rfl, hnever⟩

/-! ## 3. Twenty-nine February -/

/-- A zone that is always at UTC. -/
def samplePythonUtc : Python := samplePython "UTC" (.fixed 0)

theorem samplePythonUtc_constant (z : Zone) (hz : samplePythonUtc.zone (timezoneName cfg) = .ok z) :
    ∃ offset, ∀ u, z.offset u = offset := by
  refine ⟨0, ?_⟩
  unfold Python.zone samplePythonUtc samplePython at hz
  dsimp only at hz
  split at hz
  · split at hz
    · rename_i hname
      split at hname
      · cases hname
        cases hz
        exact fun _ => rfl
      · cases hname
    · cases hz
  · cases hz

/-- A schedule of every hour. -/
def everyHour : Dict :=
  [("kind", .str "schedule"), ("cron", .str "0 * * * *"), ("timezone", .str "UTC")]

/-- An hourly schedule always has its least next run: the rule applies to it. -/
theorem computeNextRun_least_iff_hourly :
    ∃ fields, cronOf everyHour = .ok fields ∧
      ((∃ result, computeNextRun samplePythonUtc everyHour 0 = .ok result ∧
          IsNextRun fields (.fixed 0) 0 result) ↔
        ((∃ w ∈ upcoming fields (.fixed 0) 0, w ≤ firstCandidate (.fixed 0) 0 + horizon) ∨
          ∀ u, 0 < u → ¬ Matches fields ((Zone.fixed 0).toWall u))) :=
  computeNextRun_least_iff (show validateSchedule samplePythonUtc 0 "trigger" everyHour = .ok ()
    by decide) (by decide) rfl fun _ => rfl

/-- A schedule of 29 February, at midnight. -/
def leapDay : Dict :=
  [("kind", .str "schedule"), ("cron", .str "0 0 29 2 *"), ("timezone", .str "UTC")]

/-- Its fields. -/
theorem leapDay_fields : (cronOf leapDay).toOption.map (fun fields =>
      (fields.minute.values, fields.hour.values, fields.day.values, fields.month.values,
        fields.weekday.values)) =
    some ([0], [0], [29], [2], [0, 1, 2, 3, 4, 5, 6]) := by decide

/-- From 1 March 2026, the first 29 February is more than 371 days away. -/
theorem no_leapDay_soon {ordinal : Int} (hlow : 739676 ≤ ordinal) (hhigh : ordinal < 740048) :
    ¬ ((ord2ymd ordinal).month = 2 ∧ (ord2ymd ordinal).day = 29) := by
  rintro ⟨hmonth, hday⟩
  have hleap := isLeap_of_leapDay hmonth hday
  have hback := ymd2ord_ord2ymd ordinal
  unfold ymd2ord at hback
  rw [hmonth, hday] at hback
  unfold isLeap at hleap
  simp only [Bool.and_eq_true, Bool.or_eq_true, beq_iff_eq, bne_iff_ne] at hleap
  simp only [daysBeforeMonth] at hback
  norm_num at hback
  have hfirst : 2026 ≤ (ord2ymd ordinal).year := by omega
  have hlast : (ord2ymd ordinal).year ≤ 2027 := by omega
  omega

/-- **A schedule that is left without a next run.**  On 1 March 2026, `0 0 29 2 *` has none; it
matches 29 February 2028. -/
theorem computeNextRun_misses_leapDay :
    ¬ ∀ (py : Python) (now after : Int) (cfg : Dict) (z : Zone) (offset : Int),
      validateSchedule py now "trigger" cfg = .ok () → (cfg.get "at").truthy = false →
      py.zone (timezoneName cfg) = .ok z → (∀ u, z.offset u = offset) →
      ∃ fields result, cronOf cfg = .ok fields ∧ computeNextRun py cfg after = .ok result ∧
        IsNextRun fields z after result := by
  intro hall
  obtain ⟨fields, result, hfields, hresult, hnext⟩ := hall samplePythonUtc 0
    (wallOf ⟨2026, 3, 1⟩ 0 0) leapDay (.fixed 0) 0 (by decide) (by decide) rfl fun _ => rfl
  have hvalues := leapDay_fields
  rw [hfields] at hvalues
  simp only [Except.toOption, Option.map_some, Option.some.injEq, Prod.mk.injEq] at hvalues
  obtain ⟨hminute, hhour, hday, hmonth, hweekday⟩ := hvalues
  have hdate (w : Int) (hm : Matches fields w) :
      (dateOf w).month = 2 ∧ (dateOf w).day = 29 := by
    have hmonthIn := hm.month
    have hdayIn := hm.day
    simp only [DayMatches, CronField.restricted, CronField.has, hday, hmonth, hweekday]
      at hmonthIn hdayIn
    simp only [List.length_cons, List.length_nil, List.any_cons, List.any_nil, Bool.or_false,
      decide_eq_true_eq] at hmonthIn hdayIn
    norm_num at hmonthIn hdayIn
    exact ⟨hmonthIn.symm, hdayIn.1.symm⟩
  cases result with
  | some r =>
    -- A result would be a 29 February within the search.
    rw [computeNextRun_cron rfl (by decide) hfields] at hresult
    obtain ⟨w, hfound, rfl⟩ := Option.map_eq_some_iff.mp (Except.ok.inj hresult)
    obtain ⟨hleast, hle⟩ := (searchCron_eq_some_iff fields _ _ w).mp hfound
    have hlow : wallOf ⟨2026, 3, 1⟩ 0 0 < w := hleast.1.1
    have hhigh : w ≤ wallOf ⟨2026, 3, 1⟩ 0 1 + horizon := hle
    refine no_leapDay_soon ?_ ?_ (hdate w hleast.1.2)
    · have : wallOf ⟨2026, 3, 1⟩ 0 0 = 739676 * microsPerDay := by decide
      unfold ordinalOf
      unfold microsPerDay at *
      omega
    · have : wallOf ⟨2026, 3, 1⟩ 0 1 + horizon < 740048 * microsPerDay := by decide
      unfold ordinalOf
      unfold microsPerDay at *
      omega
  | none =>
    refine hnext (wallOf ⟨2028, 2, 29⟩ 0 0) (by decide) ⟨by decide, ?_, ?_, ?_, ?_⟩
    · simp only [CronField.has, hminute]
      decide
    · simp only [CronField.has, hhour]
      decide
    · simp only [CronField.has, hmonth]
      decide
    · simp only [DayMatches, CronField.restricted, CronField.has, hday, hweekday]
      decide

end Apowerb.Schedule
