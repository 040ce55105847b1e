/-
# Cron expressions

`workflow_graph.parse_cron` and the interval check that publication makes, then what it means for a
wall-clock minute to match an expression, stated on its own (`Matches`) and as the scheduler
computes it (`candidateOk`).  `candidateOk_iff` connects the two; it rests on what parsing
guarantees of each field, carried here by `CronFields`: a field has no duplicate, and stays in its
bounds.
-/
import Apowerb.Schedule.Calendar
import Apowerb.Value
import Mathlib.Order.Interval.Finset.Nat

namespace Apowerb.Schedule

/-! ## 1. Parsing -/

/-- The values of one field: the code's `set[int]`. -/
structure CronField (lo hi : Nat) where
  values : List Nat
  nodup : values.Nodup
  bounded : ∀ v ∈ values, lo ≤ v ∧ v ≤ hi

/-- The five fields of an expression. -/
structure CronFields where
  minute : CronField 0 59
  hour : CronField 0 23
  day : CronField 1 31
  month : CronField 1 12
  weekday : CronField 0 6

/-- `ValueError` with the part it is about. -/
def badPart (problem : String) (part : List Char) : Raised :=
  .plain (problem ++ " : " ++ Value.reprText (String.ofList part))

/-- One part of a field: `*`, `A` or `A-B`, with an optional step, as start, end and step. -/
def parseCronPart (lo hi : Nat) (part : List Char) : Except Raised (Nat × Nat × Nat) := do
  let (rng, stepText) := Text.splitFirst '/' part
  let step ← match stepText with
    | none => pure 1
    | some s =>
      match Text.digits? s with
      | some (n + 1) => pure (n + 1)
      | _ => throw (badPart "pas invalide" part)
  let (first, last) ←
    if rng = ['*'] then pure (lo, hi)
    else
      match Text.splitFirst '-' rng with
      | (a, some b) =>
        match Text.digits? a, Text.digits? b with
        | some a, some b => pure (a, b)
        | _, _ => throw (badPart "plage invalide" part)
      | (_, none) =>
        match Text.digits? rng with
        | some a => pure (a, a)
        | none => throw (badPart "champ invalide" part)
  if lo ≤ first ∧ first ≤ hi ∧ lo ≤ last ∧ last ≤ hi ∧ first ≤ last then
    pure (first, last, step)
  else
    throw (badPart s!"hors bornes [{lo}-{hi}]" part)

/-- `range(start, end + 1, step)`. -/
def steps (first last step : Nat) : List Nat :=
  (List.range (last + 1)).filter fun v => first ≤ v && (v - first) % step == 0

/-- `_parse_cron_field`, as the set of the bounds' values that some part selects. -/
def parseCronField (lo hi : Nat) (partGroup : List Char) : Except Raised (CronField lo hi) := do
  let parts ← (partGroup.splitOn ',').mapM (parseCronPart lo hi)
  let chosen (v : Nat) : Bool := parts.any fun (first, last, step) => v ∈ steps first last step
  return {
    values := (List.range (hi + 1)).filter fun v => lo ≤ v && chosen v
    nodup := List.nodup_range.filter _
    bounded := fun v hv => by
      simp only [List.mem_filter, List.mem_range, Bool.and_eq_true, decide_eq_true_eq] at hv
      omega }

/-- The field `name` of an expression, with the error that names it. -/
def cronField (name : String) (lo hi : Nat) (part : List Char) :
    Except Raised (CronField lo hi) :=
  match parseCronField lo hi part with
  | .ok field => .ok field
  | .error e =>
    .error (.coded s!"cron invalide (champ {name}) : {e.text}" "invalid_cron" [("field", name)])

/-- Sunday as 7 is brought back to 0. -/
def CronField.sundayAsZero (field : CronField 0 7) : CronField 0 6 where
  values := (List.range 7).filter fun v => v ∈ field.values || (v == 0 && 7 ∈ field.values)
  nodup := List.nodup_range.filter _
  bounded := fun v hv => by
    simp only [List.mem_filter, List.mem_range] at hv
    omega

/-- `parse_cron`. -/
def parseCron (cron : String) : Except Raised CronFields :=
  match Text.words cron.toList with
  | [minute, hour, day, month, weekday] => do
    let minute ← cronField "minute" 0 59 minute
    let hour ← cronField "hour" 0 23 hour
    let day ← cronField "day" 1 31 day
    let month ← cronField "month" 1 12 month
    let weekday ← cronField "weekday" 0 7 weekday
    return ⟨minute, hour, day, month, weekday.sundayAsZero⟩
  | parts =>
    .error (.coded (s!"cron invalide (5 champs attendus, {parts.length} reçus) : " ++
      Value.reprText cron) "invalid_cron" [])

/-- `parse_cron` of a configuration value: `(cron or "").split()`. -/
def parseCronValue (cron : Value) : Except Raised CronFields :=
  match cron.orElse (.str "") with
  | .str s => parseCron s
  | _ => .error (.other "AttributeError")

/-- `_MIN_CRON_INTERVAL_MINUTES`. -/
def minCronIntervalMinutes : Nat := 5

/-- `_check_cron_min_interval`: only the minute and hour fields count. -/
def checkCronMinInterval (cron : Value) : Except Raised Unit := do
  let fields ← parseCronValue cron
  -- `values` lists the set in increasing order already.
  let minutes := fields.minute.values
  match minutes.head?, minutes.getLast? with
  | some first, some last =>
    let gaps := (minutes.zip minutes.tail).map fun (a, b) => b - a
    let gaps := if fields.hour.values.length > 1 then gaps ++ [60 - last + first] else gaps
    if gaps.any (· < minCronIntervalMinutes) then
      throw (.coded s!"cron trop fréquent : intervalle minimal {minCronIntervalMinutes} minutes"
        "cron_too_frequent" [])
  | _, _ => throw (.coded "cron invalide : aucune minute ne correspond" "invalid_cron" [])

/-! ## 2. Matching -/

/-- `value in fields[...]`, for a value read from a wall-clock time. -/
def CronField.has {lo hi : Nat} (field : CronField lo hi) (v : Int) : Bool :=
  field.values.any fun n => (n : Int) = v

/-- The field leaves out a value: `len(field) < number of values`. -/
def CronField.restricted {lo hi : Nat} (field : CronField lo hi) : Bool :=
  field.values.length < hi + 1 - lo

/-- `day_ok` of `compute_next_run`. -/
def dayOk (fields : CronFields) (candidate : Int) : Bool :=
  let dayIn := fields.day.has (dateOf candidate).day
  let weekdayIn := fields.weekday.has (weekdayOf candidate)
  if fields.day.restricted && fields.weekday.restricted then dayIn || weekdayIn
  else if fields.day.restricted then dayIn
  else if fields.weekday.restricted then weekdayIn
  else true

/-- The candidate test of `compute_next_run`. -/
def candidateOk (fields : CronFields) (candidate : Int) : Bool :=
  dayOk fields candidate && fields.minute.has (minuteOf candidate) &&
    fields.hour.has (hourOf candidate) && fields.month.has (dateOf candidate).month

/-- The day rule of cron: the day of the month and the day of the week must both be listed,
unless both fields are restricted, where one suffices. -/
def DayMatches (fields : CronFields) (wall : Int) : Prop :=
  if fields.day.restricted ∧ fields.weekday.restricted then
    fields.day.has (dateOf wall).day ∨ fields.weekday.has (weekdayOf wall)
  else fields.day.has (dateOf wall).day ∧ fields.weekday.has (weekdayOf wall)

/-- A wall-clock time is a minute that the expression lists. -/
structure Matches (fields : CronFields) (wall : Int) : Prop where
  whole : wall % microsPerMinute = 0
  minute : fields.minute.has (minuteOf wall)
  hour : fields.hour.has (hourOf wall)
  month : fields.month.has (dateOf wall).month
  day : DayMatches fields wall

/-! ## 3. The scheduler's test is the rule -/

/-- A field that leaves nothing out has every value of its bounds. -/
theorem CronField.has_of_unrestricted {lo hi : Nat} (field : CronField lo hi)
    (h : field.restricted = false) {v : Int} (hlo : lo ≤ v) (hhi : v ≤ hi) :
    field.has v = true := by
  have hlength : hi + 1 - lo ≤ field.values.length := by
    simpa [CronField.restricted] using h
  have hsub : field.values.toFinset ⊆ Finset.Icc lo hi := by
    intro n hn
    exact Finset.mem_Icc.mpr (field.bounded n (List.mem_toFinset.mp hn))
  have hall : field.values.toFinset = Finset.Icc lo hi := by
    refine Finset.eq_of_subset_of_card_le hsub ?_
    rw [Nat.card_Icc, List.toFinset_card_of_nodup field.nodup]
    exact hlength
  obtain ⟨n, rfl⟩ := Int.eq_ofNat_of_zero_le (le_trans (Int.natCast_nonneg lo) hlo)
  have hmem : n ∈ field.values := by
    rw [← List.mem_toFinset, hall, Finset.mem_Icc]
    omega
  exact List.any_eq_true.mpr ⟨n, hmem, by simp⟩

theorem weekdayOf_bounds (wall : Int) : 0 ≤ weekdayOf wall ∧ weekdayOf wall ≤ 6 := by
  unfold weekdayOf
  omega

/-- The day test of the code is the day rule: an unrestricted field has every day. -/
theorem dayOk_iff (fields : CronFields) (wall : Int) :
    dayOk fields wall = true ↔ DayMatches fields wall := by
  have hday (h : fields.day.restricted = false) : fields.day.has (dateOf wall).day = true :=
    fields.day.has_of_unrestricted h (ord2ymd_bounds _).2.1 (ord2ymd_bounds _).2.2
  have hweekday (h : fields.weekday.restricted = false) :
      fields.weekday.has (weekdayOf wall) = true :=
    fields.weekday.has_of_unrestricted h (weekdayOf_bounds wall).1 (weekdayOf_bounds wall).2
  unfold dayOk DayMatches
  cases hd : fields.day.restricted <;> cases hw : fields.weekday.restricted
  · simp [hday hd, hweekday hw]
  · simp [hday hd]
  · simp [hweekday hw]
  · simp

/-- **The candidate test of the search is cron matching**, on whole minutes. -/
theorem candidateOk_iff (fields : CronFields) {wall : Int} (hwhole : wall % microsPerMinute = 0) :
    candidateOk fields wall = true ↔ Matches fields wall := by
  unfold candidateOk
  simp only [Bool.and_eq_true, dayOk_iff]
  constructor
  · rintro ⟨⟨⟨hday, hminute⟩, hhour⟩, hmonth⟩
    exact ⟨hwhole, hminute, hhour, hmonth, hday⟩
  · intro h
    exact ⟨⟨⟨h.day, h.minute⟩, h.hour⟩, h.month⟩

end Apowerb.Schedule
