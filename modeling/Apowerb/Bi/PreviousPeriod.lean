/-
# The previous period

`_previous_period_value` (`bi/spec/visuals.py`): a number is compared with itself over the rows of a
window as long as the current one and ending where it begins.  The window is computed from the
bounds of the first period filter of the dashboard, which are a day, a microsecond or nothing away
from the days they stand for (`_resolve_range`, `_resolve_relative`).

**The window is that of as many days** for a number of days or weeks.  A range of days is compared
with a day more, the year or the month to date with a day less, and a visual that ignores the period
filter is compared all the same.

* `like_iff`: when the rows compared are those of as many days under the same other filters.
-/
import Apowerb.Bi.DateRange
import Apowerb.Schedule.Calendar

namespace Apowerb.Bi.Filters

variable {F : Type}

/-! ## 1. Relative periods -/

/-- A `MatSource` with the names of its declared REAL number fields. -/
structure DatedSource (F : Type) extends MatSource F where
  realNumbers : List String

/-- The preset of a relative period, once its text is read. -/
inductive Preset
  | all
  | days (n : Nat)
  | weeks (n : Nat)
  | months (n : Nat)
  | years (n : Nat)
  | ytd
  | mtd
deriving DecidableEq, Repr

/-- An active filter with the last real date of a relative period. -/
structure Active (F : Type) where
  filter : ActiveFilter F
  last : Option Int

def Cell.isMissing : Cell F → Bool
  | .missing _ => true
  | .value _ => false

/-- `real_last_date`. -/
def realLastDate (P : Pandas F) (m : DatedSource F) (column : String) : Option Int :=
  if (m.df.dtype column).isNone then none
  else
    let date (row : Row F) := dateOf P m.df column (row column)
    let real := m.realNumbers.filter fun c => (m.df.dtype c).isSome
    let valued := m.df.rows.filter fun row => real.any fun c => !(row c).isMissing
    ((valued.filterMap date).max?).or (m.df.rows.filterMap date).max?

/-- The ordinal of 1 January 1970. -/
def epochOrdinal : Int := 719163

def calendarDay (t : Int) : Schedule.Date := Schedule.ord2ymd (dayOf t + epochOrdinal)

/-- The number of a day from that of the epoch. -/
def dayNumber (date : Schedule.Date) : Int := Schedule.ymd2ord date - epochOrdinal

/-- `t - DateOffset(months=n)`: the same day of an earlier month, or the last one it has. -/
def monthsBefore (t : Int) (n : Nat) : Int :=
  let date := calendarDay t
  let months := date.year * 12 + (date.month - 1) - n
  let month := months % 12 + 1
  let year := months / 12
  let length := Schedule.daysInCommonMonth month +
    if month = 2 ∧ Schedule.isLeap year then 1 else 0
  midnight (dayNumber ⟨year, month, min date.day length⟩) + (t - midnight (dayOf t))

/-- The lower bound of a relative period. -/
def lowerBound (last : Int) : Preset → Except Raised (Option Int)
  | .all => .ok none
  | .days n => do .ok (some (← shift last (-(n * nanosPerDay))))
  | .weeks n => do .ok (some (← shift last (-(7 * n * nanosPerDay))))
  | .months n => do .ok (some (← shift (monthsBefore last n) 0))
  | .years n => do .ok (some (← shift (monthsBefore last (12 * n)) 0))
  | .ytd => do
    let start := midnight (dayNumber ⟨(calendarDay last).year, 1, 1⟩)
    .ok (some (← shift start (-nanosPerMicro)))
  | .mtd => do
    let start := midnight (dayNumber ⟨(calendarDay last).year, (calendarDay last).month, 1⟩)
    .ok (some (← shift start (-nanosPerMicro)))

/-- `_resolve_relative`.  Only the lower bound cuts: in what follows a relative period is a range
without an end. -/
def resolveRelative (P : Pandas F) (spec : FilterSpec F) (preset : Preset)
    (having : List (DatedSource F)) : Except Raised (Active F) :=
  let sources := having.map (·.name)
  match (having.filterMap fun m => realLastDate P m spec.field).max? with
  | none => .ok ⟨⟨spec, .nothing, none, none, sources⟩, none⟩
  | some last => do .ok ⟨⟨spec, .nothing, ← lowerBound last preset, none, sources⟩, some last⟩

/-! ## 2. The comparison -/

/-- The end of a period filter: its upper bound, or the last real date. -/
def Active.upper (flt : Active F) : Option Int := flt.filter.hiIncl.or flt.last

/-- A period filter of a source that has both ends. -/
def Active.comparable (m : MatSource F) (flt : Active F) : Bool :=
  flt.filter.isPeriod && flt.filter.loExcl.isSome && flt.upper.isSome && m.name ∈ flt.filter.sources

/-- `upper - lo`, as a `Timedelta`. -/
def timedelta (upper lo : Int) : Except Raised Int :=
  if int64Min < upper - lo ∧ upper - lo ≤ int64Max then .ok (upper - lo)
  else .error (.other "OutOfBoundsTimedelta")

/-- The window of a comparison: the instants after the first one, up to the second one. -/
def previousWindow (lo upper : Int) : Except Raised (Int × Int) := do
  let length ← timedelta upper lo
  .ok (← shift lo (-length), lo)

/-- The rows that `_previous_period_value` compares with, none where it compares with nothing. -/
def previousPeriod (P : Pandas F) (m : MatSource F) (active : List (Active F))
    (ignore : List String) : Except Raised (List (Row F)) :=
  match active.find? (·.comparable m) with
  | none => .ok []
  | some flt => do
    let (lo, hi) ← previousWindow (flt.filter.loExcl.getD 0) (flt.upper.getD 0)
    let base ← applyFilters P m (active.map (·.filter)) ignore true
    let field := flt.filter.spec.field
    .ok (base.df.rows.filter fun row =>
      (dateOf P base.df field (row field)).any fun t => lo < t && t ≤ hi)

/-! ## 3. A like period -/

/-- How far the bounds of a period filter are from its days. -/
inductive Kind
  | range
  | span
  | toDate
deriving DecidableEq, Repr

/-- The days of a period filter. -/
structure Days where
  kind : Kind
  first : Int
  last : Int
deriving DecidableEq, Repr

def Days.length (c : Days) : Int := c.last - c.first + 1

/-- The days of as many before the first. -/
def Days.previous (c : Days) (day : Int) : Bool := c.first - c.length ≤ day ∧ day < c.first

/-- The number of days of a preset in days or weeks. -/
def Preset.inDays : Preset → Option Nat
  | .days n => some n
  | .weeks n => some (7 * n)
  | _ => none

/-- The first day of the year or of the month to a date. -/
def Preset.start (last : Int) : Preset → Option Int
  | .ytd => some (dayNumber ⟨(calendarDay (midnight last)).year, 1, 1⟩)
  | .mtd =>
    some (dayNumber ⟨(calendarDay (midnight last)).year, (calendarDay (midnight last)).month, 1⟩)
  | _ => none

/-- The days that a period filter was resolved from, where its last real date is a day. -/
inductive Covers (P : Pandas F) (flt : Active F) : Days → Prop
  | range {spec : FilterSpec F} {raw : Raw F} {sources : List String} {first last : Int}
      (hresolve : resolveRange P spec raw sources = .ok flt.filter) (hlast : flt.last = none)
      (hstart : Names P raw.ends.1 (some first)) (hstop : Names P raw.ends.2 (some last))
      (hfirst : (stamp? first).isSome) (hstamp : (stamp? last).isSome) :
      Covers P flt ⟨.range, first, last⟩
  | span {spec : FilterSpec F} {preset : Preset} {having : List (DatedSource F)} {last : Int}
      {n : Nat} (hdays : preset.inDays = some n)
      (hresolve : resolveRelative P spec preset having = .ok flt)
      (hlast : flt.last = some (midnight last)) : Covers P flt ⟨.span, last - n + 1, last⟩
  | toDate {spec : FilterSpec F} {preset : Preset} {having : List (DatedSource F)}
      {first last : Int} (hstart : preset.start last = some first)
      (hresolve : resolveRelative P spec preset having = .ok flt)
      (hlast : flt.last = some (midnight last)) : Covers P flt ⟨.toDate, first, last⟩

/-- A column of days: a row is dated by a midnight or by none, whatever rows are read with it. -/
structure DatedByDay (P : Pandas F) (m : MatSource F) (field : String) : Prop where
  same : ∀ mask, ∀ row ∈ m.df.rows, mask row = true →
    dateOf P (m.df.where mask) field (row field) = dateOf P m.df field (row field)
  day : ∀ row ∈ m.df.rows, ∀ t, dateOf P m.df field (row field) = some t → t = midnight (dayOf t)

/-- Whether the day of a row is one of those given. -/
def onDay (P : Pandas F) (m : MatSource F) (field : String) (days : Int → Bool) (row : Row F) :
    Bool :=
  (dateOf P m.df field (row field)).any fun t => days (dayOf t)

/-- The filter that a visual is to be compared through: the first period filter it does not
ignore. -/
def compared (m : MatSource F) (active : List (Active F)) (ignore : List String) :
    Option (Active F) :=
  active.find? fun flt => flt.comparable m && flt.filter.spec.id ∉ ignore

/-- The rows to compare with: those of the days before, under the same other filters. -/
def previousRows (P : Pandas F) (m : MatSource F) (active : List (Active F)) (ignore : List String)
    (days : Active F → Days) : Except Raised (List (Row F)) :=
  match compared m active ignore with
  | none => do
    let _ ← applyFilters P m (active.map (·.filter)) ignore false
    .ok []
  | some flt => do
    let base ← applyFilters P m (active.map (·.filter)) (flt.filter.spec.id :: ignore) false
    .ok (base.df.rows.filter (onDay P m flt.filter.spec.field (days flt).previous))

/-- A visual is compared with a like period, wherever its frame can be computed. -/
def Like (P : Pandas F) (m : MatSource F) (active : List (Active F)) (ignore : List String)
    (days : Active F → Days) : Prop :=
  ∀ rows, previousRows P m active ignore days = .ok rows →
    previousPeriod P m active ignore = .ok rows

/-! ## 4. The masks of the filters -/

def Cuts (m : MatSource F) (skip : List String) (skipPeriods : Bool) (flt : ActiveFilter F) :
    Bool :=
  m.name ∈ flt.sources && flt.spec.id ∉ skip && flt.restricts && !(flt.isPeriod && skipPeriods)

/-- The mask of all filters that cut. -/
def maskOf (P : Pandas F) (m : MatSource F) (skip : List String) (skipPeriods : Bool) :
    List (ActiveFilter F) → Except Raised (Row F → Bool)
  | [] => .ok fun _ => true
  | flt :: rest =>
    if Cuts m skip skipPeriods flt then do
      let keep ← part P m.df flt
      let others ← maskOf P m skip skipPeriods rest
      .ok fun row => keep row && others row
    else maskOf P m skip skipPeriods rest

theorem where_where (df : Frame F) (p q : Row F → Bool) :
    (df.where p).where q = df.where fun row => p row && q row := by
  simp only [Frame.where, List.filter_filter, Frame.mk.injEq, true_and]
  exact List.filter_congr fun row _ => Bool.and_comm _ _

theorem where_true (df : Frame F) : (df.where fun _ => true) = df := by
  simp only [Frame.where, List.filter_true]

theorem foldlM_applyOne (P : Pandas F) (m : MatSource F) (skip : List String) (skipPeriods : Bool)
    (active : List (ActiveFilter F)) (acc : Filtered F) :
    (·.df) <$> active.foldlM (applyOne P m skip skipPeriods) acc =
      acc.df.where <$> maskOf P m skip skipPeriods active := by
  induction active generalizing acc with
  | nil => exact congrArg Except.ok (where_true acc.df).symm
  | cons flt rest ih =>
    rw [List.foldlM_cons, maskOf]
    by_cases hcut : Cuts m skip skipPeriods flt = true
    · rw [if_pos hcut]
      simp only [Cuts, Bool.and_eq_true, decide_eq_true_eq, Bool.not_eq_true'] at hcut
      obtain ⟨⟨⟨hin, hskip⟩, hrestricts⟩, hperiod⟩ := hcut
      rw [applyOne, if_neg (not_not_intro hin), if_neg hskip,
        if_neg (by simp [hrestricts, hperiod])]
      cases part P m.df flt with
      | error e => rfl
      | ok keep =>
        change (·.df) <$> rest.foldlM (applyOne P m skip skipPeriods) _ = _
        rw [ih]
        change (acc.df.where keep).where <$> maskOf P m skip skipPeriods rest =
          acc.df.where <$> (do
            let others ← maskOf P m skip skipPeriods rest
            Except.ok fun row => keep row && others row)
        cases maskOf P m skip skipPeriods rest with
        | error e => rfl
        | ok others => exact congrArg Except.ok (where_where acc.df keep others)
    · rw [if_neg hcut]
      have hsame : ∃ acc', applyOne P m skip skipPeriods acc flt = .ok acc' ∧ acc'.df = acc.df := by
        unfold applyOne
        split
        · exact ⟨_, rfl, rfl⟩
        · split
          · exact ⟨_, rfl, rfl⟩
          · split
            · exact ⟨_, rfl, rfl⟩
            · next hin hskip hnot =>
              refine absurd ?_ hcut
              simp only [Cuts, Bool.and_eq_true, decide_eq_true_eq]
              simp only [Bool.or_eq_true, not_or, Bool.not_eq_true', Bool.not_eq_false] at hnot
              refine ⟨⟨⟨not_not.mp hin, hskip⟩, hnot.1⟩, ?_⟩
              rw [Bool.not_eq_true']
              exact Bool.eq_false_of_not_eq_true hnot.2
      obtain ⟨acc', hacc, hdf⟩ := hsame
      rw [hacc]
      change (·.df) <$> rest.foldlM (applyOne P m skip skipPeriods) acc' = _
      rw [ih, hdf]

/-- A frame is cut by one mask. -/
theorem applyFilters_df (P : Pandas F) (m : MatSource F) (active : List (ActiveFilter F))
    (skip : List String) (skipPeriods : Bool) :
    (·.df) <$> applyFilters P m active skip skipPeriods =
      m.df.where <$> maskOf P m skip skipPeriods active :=
  foldlM_applyOne P m skip skipPeriods active ⟨m.df, [], []⟩

theorem applyFilters_eq_ok {P : Pandas F} {m : MatSource F} {active : List (ActiveFilter F)}
    {skip : List String} {skipPeriods : Bool} {df : Frame F} :
    (∃ out, applyFilters P m active skip skipPeriods = .ok out ∧ out.df = df) ↔
      ∃ mask, maskOf P m skip skipPeriods active = .ok mask ∧ m.df.where mask = df := by
  rw [← Except.map_eq_ok_iff, ← Except.map_eq_ok_iff, applyFilters_df]

/-- The period filters that cut, which raise nothing. -/
def periodsKeep (P : Pandas F) (m : MatSource F) (skip : List String)
    (active : List (ActiveFilter F)) (row : Row F) : Bool :=
  active.all fun flt => !(flt.isPeriod && Cuts m skip false flt) ||
    within flt.loExcl flt.hiIncl (dateOf P m.df flt.spec.field (row flt.spec.field))

/-- The mask of all filters is that of the values and that of the periods. -/
theorem maskOf_false (P : Pandas F) (m : MatSource F) (skip : List String)
    (active : List (ActiveFilter F)) :
    maskOf P m skip false active =
      (fun mask row => mask row && periodsKeep P m skip active row) <$>
        maskOf P m skip true active := by
  induction active with
  | nil => rfl
  | cons flt rest ih =>
    have hall (row : Row F) : periodsKeep P m skip (flt :: rest) row =
        ((!(flt.isPeriod && Cuts m skip false flt) ||
          within flt.loExcl flt.hiIncl (dateOf P m.df flt.spec.field (row flt.spec.field))) &&
            periodsKeep P m skip rest row) := List.all_cons
    simp only [maskOf, ih, hall]
    cases hperiod : flt.isPeriod with
    | true =>
      rw [if_neg (show ¬ Cuts m skip true flt = true by simp [Cuts, hperiod])]
      by_cases hcut : Cuts m skip false flt = true
      · rw [if_pos hcut, part]
        simp only [hperiod, if_true, hcut, Bool.and_self, Bool.not_true, Bool.false_or]
        cases maskOf P m skip true rest with
        | error e => rfl
        | ok mask =>
          refine congrArg Except.ok (funext fun row => ?_)
          exact Bool.and_left_comm _ _ _
      · rw [if_neg hcut]
        simp only [Bool.eq_false_of_not_eq_true hcut, Bool.and_false, Bool.not_false, Bool.true_or,
          Bool.true_and]
    | false =>
      have hcuts : Cuts m skip true flt = Cuts m skip false flt := by simp [Cuts, hperiod]
      simp only [hcuts, Bool.false_and, Bool.not_false, Bool.true_or, Bool.true_and]
      by_cases hcut : Cuts m skip false flt = true
      · rw [if_pos hcut, if_pos hcut]
        cases part P m.df flt with
        | error e => rfl
        | ok keep =>
          cases maskOf P m skip true rest with
          | error e => rfl
          | ok mask => exact congrArg Except.ok (funext fun row => (Bool.and_assoc _ _ _).symm)
      · rw [if_neg hcut, if_neg hcut]

/-- To skip a period filter besides changes nothing where all of them are. -/
theorem maskOf_cons (P : Pandas F) (m : MatSource F) {skip : List String}
    {active : List (ActiveFilter F)} {id : String}
    (h : ∀ flt ∈ active, flt.spec.id = id → flt.isPeriod = true) :
    maskOf P m (id :: skip) true active = maskOf P m skip true active := by
  induction active with
  | nil => rfl
  | cons flt rest ih =>
    have hcuts : Cuts m (id :: skip) true flt = Cuts m skip true flt := by
      by_cases hid : flt.spec.id = id
      · simp [Cuts, h flt List.mem_cons_self hid]
      · simp [Cuts, hid]
    rw [maskOf, maskOf, hcuts, ih fun flt hflt => h flt (List.mem_cons_of_mem _ hflt)]

/-! ## 5. The window in days -/

/-- How long before the midnight of the first day the lower bound is. -/
def Kind.before : Kind → Int
  | .range | .span => nanosPerDay
  | .toDate => nanosPerMicro

/-- How long after the midnight of the last day the end is. -/
def Kind.after : Kind → Int
  | .range => nanosPerDay - nanosPerMicro
  | .span | .toDate => 0

/-- How many days more than the current ones the window has. -/
def Kind.excess : Kind → Int
  | .range => 1
  | .span => 0
  | .toDate => -1

theorem lowerBound_span {preset : Preset} {n : Nat} {last lo : Int} (hdays : preset.inDays = some n)
    (h : lowerBound (midnight last) preset = .ok (some lo)) : lo = midnight (last - n) := by
  cases preset with
  | days k =>
    cases hdays
    obtain ⟨t, ht, hlo⟩ := Except.bind_eq_ok_iff.mp h
    cases hlo
    rw [← (shift_eq_ok_iff.mp ht).2, midnight, midnight, Int.sub_mul, ← Int.sub_eq_add_neg]
  | weeks k =>
    cases hdays
    obtain ⟨t, ht, hlo⟩ := Except.bind_eq_ok_iff.mp h
    cases hlo
    rw [← (shift_eq_ok_iff.mp ht).2, midnight, midnight, Int.sub_mul, ← Int.sub_eq_add_neg,
      Int.natCast_mul]
    rfl
  | _ => cases hdays

theorem lowerBound_toDate {preset : Preset} {first last lo : Int}
    (hstart : preset.start last = some first)
    (h : lowerBound (midnight last) preset = .ok (some lo)) :
    lo = midnight first - nanosPerMicro := by
  cases preset with
  | ytd =>
    cases hstart
    obtain ⟨t, ht, hlo⟩ := Except.bind_eq_ok_iff.mp h
    cases hlo
    rw [← (shift_eq_ok_iff.mp ht).2, ← Int.sub_eq_add_neg]
  | mtd =>
    cases hstart
    obtain ⟨t, ht, hlo⟩ := Except.bind_eq_ok_iff.mp h
    cases hlo
    rw [← (shift_eq_ok_iff.mp ht).2, ← Int.sub_eq_add_neg]
  | _ => cases hstart

/-- A relative period with a lower bound has a last date, and was resolved from it. -/
theorem resolveRelative_eq_ok {P : Pandas F} {spec : FilterSpec F} {preset : Preset}
    {having : List (DatedSource F)} {flt : Active F} {last : Int}
    (h : resolveRelative P spec preset having = .ok flt) (hlast : flt.last = some last) :
    lowerBound last preset = .ok flt.filter.loExcl ∧ flt.filter.hiIncl = none := by
  unfold resolveRelative at h
  dsimp only at h
  split at h
  · cases h
    cases hlast
  · obtain ⟨lo, hlo, hflt⟩ := Except.bind_eq_ok_iff.mp h
    cases hflt
    cases hlast
    exact ⟨hlo, rfl⟩

/-- The bounds of a period filter, from its days. -/
theorem Covers.bounds {P : Pandas F} {flt : Active F} {c : Days} (h : Covers P flt c)
    {lo upper : Int} (hlo : flt.filter.loExcl = some lo) (hupper : flt.upper = some upper) :
    lo = midnight c.first - c.kind.before ∧ upper = midnight c.last + c.kind.after := by
  cases h with
  | @range spec raw sources first last hresolve hlast hstart hstop hfirst hstamp =>
    obtain ⟨-, hflt⟩ := (resolveRange_eq_ok hstart hstop).mp hresolve
    obtain ⟨t, ht⟩ := Option.isSome_iff_exists.mp hfirst
    obtain ⟨u, hu⟩ := Option.isSome_iff_exists.mp hstamp
    rw [Active.upper, hlast, hflt] at hupper
    rw [hflt] at hlo
    simp only [Option.bind_some, ht, Option.map_some, Option.some_inj] at hlo
    simp only [Option.bind_some, hu, Option.map_some, Option.some_or, Option.some_inj] at hupper
    rw [(stamp?_eq_some.mp ht).2] at hlo
    rw [(stamp?_eq_some.mp hu).2] at hupper
    exact ⟨hlo.symm, hupper.symm.trans (by simp only [Kind.after]; omega)⟩
  | @span spec preset having last n hdays hresolve hlast =>
    obtain ⟨hlower, hnone⟩ := resolveRelative_eq_ok hresolve hlast
    rw [hlo] at hlower
    rw [Active.upper, hnone, hlast, Option.none_or, Option.some_inj] at hupper
    refine ⟨(lowerBound_span hdays hlower).trans ?_, hupper.symm.trans (Int.add_zero _).symm⟩
    simp only [midnight, Kind.before, nanosPerDay]
    omega
  | @toDate spec preset having first last hstart hresolve hlast =>
    obtain ⟨hlower, hnone⟩ := resolveRelative_eq_ok hresolve hlast
    rw [hlo] at hlower
    rw [Active.upper, hnone, hlast, Option.none_or, Option.some_inj] at hupper
    exact ⟨lowerBound_toDate hstart hlower, hupper.symm.trans (Int.add_zero _).symm⟩

/-- The days of the window. -/
def Days.window (c : Days) (day : Int) : Bool :=
  c.first - c.length - c.kind.excess ≤ day ∧ day < c.first

/-- The window computed from the bounds has the days of the filter, and those that its bounds add
or lose. -/
theorem window_iff (c : Days) (day : Int) :
    let lo := midnight c.first - c.kind.before
    let upper := midnight c.last + c.kind.after
    (decide (lo - (upper - lo) < midnight day) && decide (midnight day ≤ lo)) = c.window day := by
  intro lo upper
  obtain ⟨kind, first, last⟩ := c
  rw [Days.window, ← Bool.decide_and, decide_eq_decide]
  simp only [lo, upper, Days.length, midnight]
  cases kind <;> simp only [Kind.before, Kind.after, Kind.excess, nanosPerDay, nanosPerMicro] <;>
    omega

/-- The length of the period is a `Timedelta`, and the window of as long before it begins at a time
stamp. -/
def Active.reaches (flt : Active F) : Bool :=
  match flt.filter.loExcl, flt.upper with
  | some lo, some upper =>
    int64Min < upper - lo ∧ upper - lo ≤ int64Max ∧ inTimestamp (lo - (upper - lo)) = true
  | _, _ => false

theorem previousWindow_eq_ok {lo upper : Int} {w : Int × Int} :
    previousWindow lo upper = .ok w ↔
      (int64Min < upper - lo ∧ upper - lo ≤ int64Max ∧ inTimestamp (lo - (upper - lo)) = true) ∧
        w = (lo - (upper - lo), lo) := by
  unfold previousWindow timedelta
  simp only [Except.bind_eq_ok_iff]
  constructor
  · rintro ⟨length, hlength, start, hstart, hw⟩
    split at hlength
    · next hfits =>
      cases hlength
      obtain ⟨hin, rfl⟩ := shift_eq_ok_iff.mp hstart
      rw [← Int.sub_eq_add_neg] at hin hw
      exact ⟨⟨hfits.1, hfits.2, hin⟩, (Except.ok.inj hw).symm⟩
    · cases hlength
  · rintro ⟨⟨hfits, hfits', hin⟩, rfl⟩
    refine ⟨upper - lo, if_pos ⟨hfits, hfits'⟩, lo - (upper - lo), ?_, rfl⟩
    exact shift_eq_ok_iff.mpr ⟨by rwa [← Int.sub_eq_add_neg], (Int.sub_eq_add_neg).symm⟩

/-- What is compared through a filter, in days. -/
theorem previousPeriod_eq_ok {P : Pandas F} {m : MatSource F} {active : List (Active F)}
    {ignore : List String} {flt : Active F} {c : Days} {mask : Row F → Bool} {rows : List (Row F)}
    (hfind : active.find? (·.comparable m) = some flt) (hcovers : Covers P flt c)
    (hdated : DatedByDay P m flt.filter.spec.field)
    (hmask : maskOf P m ignore true (active.map (·.filter)) = .ok mask) :
    previousPeriod P m active ignore = .ok rows ↔
      flt.reaches = true ∧
        rows = (m.df.rows.filter mask).filter (onDay P m flt.filter.spec.field c.window) := by
  have hcomparable := List.find?_some hfind
  simp only [Active.comparable, Bool.and_eq_true] at hcomparable
  obtain ⟨lo, hlo⟩ := Option.isSome_iff_exists.mp hcomparable.1.1.2
  obtain ⟨upper, hupper⟩ := Option.isSome_iff_exists.mp hcomparable.1.2
  obtain ⟨out, hout, hdf⟩ := applyFilters_eq_ok.mpr ⟨mask, hmask, rfl⟩
  -- a row of the frame is in the window of instants where its day is in that of days
  have hrows : (out.df.rows.filter fun row =>
      (dateOf P out.df flt.filter.spec.field (row flt.filter.spec.field)).any fun t =>
        lo - (upper - lo) < t && t ≤ lo) =
      (m.df.rows.filter mask).filter (onDay P m flt.filter.spec.field c.window) := by
    rw [hdf]
    refine List.filter_congr fun row hrow => ?_
    obtain ⟨hmem, hkept⟩ := List.mem_filter.mp hrow
    rw [hdated.same mask row hmem hkept, onDay]
    cases hdate : dateOf P m.df flt.filter.spec.field (row flt.filter.spec.field) with
    | none => rfl
    | some t =>
      obtain ⟨rfl, rfl⟩ := hcovers.bounds hlo hupper
      rw [Option.any_some, Option.any_some, ← window_iff, ← hdated.day row hmem t hdate]
  unfold previousPeriod
  rw [hfind]
  simp only [hlo, hupper, Option.getD_some, Except.bind_eq_ok_iff, previousWindow_eq_ok, hout]
  rw [Active.reaches]
  simp only [hlo, hupper, decide_eq_true_eq]
  constructor
  · rintro ⟨w, ⟨hreaches, rfl⟩, out', hout', hok⟩
    cases hout'
    exact ⟨hreaches, (Except.ok.inj hok).symm.trans hrows⟩
  · rintro ⟨hreaches, rfl⟩
    exact ⟨_, ⟨hreaches, rfl⟩, out, rfl, congrArg Except.ok hrows⟩

/-! ## 6. Where the period is like -/

/-- The other period filters of a visual that is compared through a filter. -/
def others (P : Pandas F) (m : MatSource F) (active : List (Active F)) (ignore : List String)
    (flt : Active F) (row : Row F) : Bool :=
  periodsKeep P m (flt.filter.spec.id :: ignore) (active.map (·.filter)) row

/-- A row of the days compared: not of the day that the window of a range adds, nor of the first day
that the window of a date loses, unless another period filter cuts it; and of the days between
only if no other period filter cuts it. -/
structure FairDay (P : Pandas F) (m : MatSource F) (field : String) (c : Days) (kept : Bool)
    (row : Row F) : Prop where
  added : c.kind = .range → 0 ≤ c.length →
    onDay P m field (· = c.first - c.length - 1) row = false
  lost : c.kind = .toDate → 1 ≤ c.length →
    onDay P m field (· = c.first - c.length) row = true → kept = false
  shared : onDay P m field (fun day => c.window day && c.previous day) row = true → kept = true

/-- A row that the code compares with where it is to be compared with.  Where the filter shown is
ignored, its window is to have the rows of the filter that is not, or none. -/
def FairRow (P : Pandas F) (m : MatSource F) (active : List (Active F)) (ignore : List String)
    (days : Active F → Days) (shown : Active F) (row : Row F) : Prop :=
  let inWindow := onDay P m shown.filter.spec.field (days shown).window row
  if shown.filter.spec.id ∉ ignore then
    FairDay P m shown.filter.spec.field (days shown) (others P m active ignore shown row) row
  else
    match compared m active ignore with
    | none => inWindow = false
    | some flt => inWindow = (onDay P m flt.filter.spec.field (days flt).previous row &&
        others P m active ignore flt row)

/-- The day that the window of a range adds, and the one that the window of a date loses. -/
theorem window_eq_previous_iff (c : Days) (kept : Bool) (day : Int) :
    (c.previous day && kept) = c.window day ↔
      (c.kind = .range → 0 ≤ c.length → day ≠ c.first - c.length - 1) ∧
      (c.kind = .toDate → 1 ≤ c.length → day = c.first - c.length → kept = false) ∧
      ((c.window day && c.previous day) = true → kept = true) := by
  have hsame (h : c.kind.excess = 0) : c.window day = c.previous day := by
    rw [Days.window, Days.previous, h, Int.sub_zero]
  cases hkind : c.kind with
  | span =>
    rw [hsame (by rw [hkind]; rfl)]
    cases c.previous day <;> cases kept <;> simp
  | range =>
    -- the days before are in the window
    have hsub : c.previous day = true → c.window day = true := by
      simp only [Days.window, Days.previous, hkind, Kind.excess, decide_eq_true_eq]
      omega
    have hadded : c.window day = true ∧ c.previous day = false ↔
        0 ≤ c.length ∧ day = c.first - c.length - 1 := by
      simp only [Days.window, Days.previous, hkind, Kind.excess, decide_eq_true_eq,
        decide_eq_false_iff_not]
      omega
    simp only [forall_const, reduceCtorEq, false_implies, true_and]
    rw [← not_and, ← hadded]
    cases hprevious : c.previous day <;> cases hwindow : c.window day <;> cases kept <;>
      simp_all
  | toDate =>
    have hsub : c.window day = true → c.previous day = true := by
      simp only [Days.window, Days.previous, hkind, Kind.excess, decide_eq_true_eq]
      omega
    have hlost : c.previous day = true ∧ c.window day = false ↔
        1 ≤ c.length ∧ day = c.first - c.length := by
      simp only [Days.window, Days.previous, hkind, Kind.excess, decide_eq_true_eq,
        decide_eq_false_iff_not]
      omega
    simp only [forall_const, reduceCtorEq, false_implies, true_and]
    rw [← and_imp, ← hlost]
    cases hprevious : c.previous day <;> cases hwindow : c.window day <;> cases kept <;>
      simp_all

theorem fairDay_iff {P : Pandas F} {m : MatSource F} {field : String} {c : Days} {kept : Bool}
    {row : Row F} :
    (onDay P m field c.previous row && kept) = onDay P m field c.window row ↔
      FairDay P m field c kept row := by
  unfold onDay
  constructor
  · intro h
    cases hdate : dateOf P m.df field (row field) with
    | none => exact ⟨fun _ _ => by simp [onDay, hdate], by simp [onDay, hdate],
        by simp [onDay, hdate]⟩
    | some t =>
      rw [hdate] at h
      obtain ⟨hadded, hlost, hshared⟩ := (window_eq_previous_iff c kept (dayOf t)).mp h
      refine ⟨fun hkind hlength => ?_, fun hkind hlength hday => ?_, fun hday => ?_⟩
      · simpa [onDay, hdate] using hadded hkind hlength
      · exact hlost hkind hlength (by simpa [onDay, hdate] using hday)
      · exact hshared (by simpa [onDay, hdate] using hday)
  · intro h
    cases hdate : dateOf P m.df field (row field) with
    | none => rfl
    | some t =>
      refine (window_eq_previous_iff c kept (dayOf t)).mpr ⟨fun hkind hlength => ?_,
        fun hkind hlength hday => ?_, fun hday => ?_⟩
      · simpa [onDay, hdate] using h.added hkind hlength
      · exact h.lost hkind hlength (by simpa [onDay, hdate] using hday)
      · exact h.shared (by simpa [onDay, hdate] using hday)

/-- Whether a row is one to compare with. -/
def target (P : Pandas F) (m : MatSource F) (active : List (Active F)) (ignore : List String)
    (days : Active F → Days) (row : Row F) : Bool :=
  match compared m active ignore with
  | none => false
  | some flt => onDay P m flt.filter.spec.field (days flt).previous row &&
      others P m active ignore flt row

variable {P : Pandas F} {m : MatSource F} {active : List (Active F)} {ignore : List String}
  {days : Active F → Days}

/-- The filter compared through is a period filter of its own. -/
theorem isPeriod_of_compared (hids : (active.map (·.filter.spec.id)).Nodup) {flt : Active F}
    (hcompared : compared m active ignore = some flt) :
    ∀ other ∈ active.map (·.filter), other.spec.id = flt.filter.spec.id →
      other.isPeriod = true := by
  intro other hother hid
  obtain ⟨flt', hflt', rfl⟩ := List.mem_map.mp hother
  have heq : flt' = flt :=
    List.inj_on_of_nodup_map hids hflt' (List.mem_of_find?_eq_some hcompared) hid
  have hcomparable := List.find?_some hcompared
  simp only [Active.comparable, Bool.and_eq_true] at hcomparable
  rw [heq]
  exact hcomparable.1.1.1.1

theorem previousRows_eq_ok (hids : (active.map (·.filter.spec.id)).Nodup)
    {rows : List (Row F)} :
    previousRows P m active ignore days = .ok rows ↔
      ∃ mask, maskOf P m ignore true (active.map (·.filter)) = .ok mask ∧
        rows = (m.df.rows.filter mask).filter (target P m active ignore days) := by
  unfold previousRows target
  cases hcompared : compared m active ignore with
  | none =>
    simp only [Except.bind_eq_ok_iff, List.filter_false]
    constructor
    · rintro ⟨out, hout, hrows⟩
      obtain ⟨mask, hmask, -⟩ := applyFilters_eq_ok.mp ⟨out, hout, rfl⟩
      rw [maskOf_false] at hmask
      obtain ⟨mask', hmask', -⟩ := Except.map_eq_ok_iff.mp hmask
      exact ⟨mask', hmask', (Except.ok.inj hrows).symm⟩
    · rintro ⟨mask, hmask, rfl⟩
      obtain ⟨out, hout, -⟩ := applyFilters_eq_ok.mpr
        ⟨_, (maskOf_false P m ignore _).trans (congrArg _ hmask), rfl⟩
      exact ⟨out, hout, rfl⟩
  | some flt =>
    have hmasks := (maskOf_false P m (flt.filter.spec.id :: ignore) (active.map (·.filter))).trans
      (congrArg _ (maskOf_cons P m (isPeriod_of_compared hids hcompared)))
    have hsplit (mask : Row F → Bool) (p : Row F → Bool) :
        (m.df.rows.filter fun row => mask row && others P m active ignore flt row).filter p =
          (m.df.rows.filter mask).filter fun row => p row && others P m active ignore flt row := by
      rw [List.filter_filter, List.filter_filter]
      refine List.filter_congr fun row _ => ?_
      cases mask row <;> cases p row <;> simp
    simp only [Except.bind_eq_ok_iff]
    constructor
    · rintro ⟨out, hout, hrows⟩
      obtain ⟨mask, hmask, hdf⟩ := applyFilters_eq_ok.mp ⟨out, hout, rfl⟩
      rw [hmasks] at hmask
      obtain ⟨mask', hmask', rfl⟩ := Except.map_eq_ok_iff.mp hmask
      refine ⟨mask', hmask', (Except.ok.inj hrows).symm.trans ?_⟩
      rw [← hdf]
      exact hsplit mask' _
    · rintro ⟨mask, hmask, rfl⟩
      obtain ⟨out, hout, hdf⟩ := applyFilters_eq_ok.mpr
        ⟨_, hmasks.trans (congrArg _ hmask), rfl⟩
      refine ⟨out, hout, congrArg Except.ok ?_⟩
      rw [hdf]
      exact hsplit mask _

/-- A filter that is shown and not ignored is the one to compare through. -/
theorem compared_eq {shown : Active F} (hshown : active.find? (·.comparable m) = some shown)
    (hnot : shown.filter.spec.id ∉ ignore) : compared m active ignore = some shown := by
  obtain ⟨hp, before, after, rfl, hbefore⟩ := List.find?_eq_some_iff_append.mp hshown
  refine List.find?_eq_some_iff_append.mpr ⟨by simpa [hnot] using hp, before, after, rfl, ?_⟩
  intro flt hflt
  have hfalse : flt.comparable m = false := by simpa using hbefore flt hflt
  rw [hfalse]
  rfl

theorem fairRow_iff {shown : Active F} (hshown : active.find? (·.comparable m) = some shown)
    {row : Row F} :
    target P m active ignore days row =
        onDay P m shown.filter.spec.field (days shown).window row ↔
      FairRow P m active ignore days shown row := by
  unfold FairRow target
  dsimp only
  by_cases hnot : shown.filter.spec.id ∉ ignore
  · rw [if_pos hnot, compared_eq hshown hnot]
    exact fairDay_iff
  · rw [if_neg hnot]
    cases compared m active ignore with
    | none => exact eq_comm
    | some flt => exact eq_comm

/-- **A visual is compared with a like period** exactly where the filter that the code compares
through reaches back far enough, and no row that the other filters keep is of a day that its window
adds, loses or shares with another period filter that cuts it. -/
theorem like_iff (P : Pandas F) (m : MatSource F) (active : List (Active F)) (ignore : List String)
    (days : Active F → Days) (hids : (active.map (·.filter.spec.id)).Nodup)
    (hcovers : ∀ shown, active.find? (·.comparable m) = some shown →
      Covers P shown (days shown) ∧ DatedByDay P m shown.filter.spec.field) :
    Like P m active ignore days ↔
      ∀ base, applyFilters P m (active.map (·.filter)) ignore true = .ok base →
        ∀ shown, active.find? (·.comparable m) = some shown → shown.reaches = true ∧
          ∀ row ∈ base.df.rows, FairRow P m active ignore days shown row := by
  constructor
  · intro hlike base hbase shown hshown
    obtain ⟨mask, hmask, hdf⟩ := applyFilters_eq_ok.mp ⟨base, hbase, rfl⟩
    obtain ⟨hcover, hdated⟩ := hcovers shown hshown
    have hok := hlike _ ((previousRows_eq_ok hids).mpr ⟨mask, hmask, rfl⟩)
    obtain ⟨hreaches, hrows⟩ := (previousPeriod_eq_ok hshown hcover hdated hmask).mp hok
    rw [← hdf]
    exact ⟨hreaches, fun row hrow =>
      (fairRow_iff hshown).mp (filter_eq_filter_iff.mp hrows row hrow)⟩
  · intro hfair rows hrows
    obtain ⟨mask, hmask, rfl⟩ := (previousRows_eq_ok hids).mp hrows
    cases hshown : active.find? (·.comparable m) with
    | none =>
      have hnone : compared m active ignore = none := by
        refine List.find?_eq_none.mpr fun flt hflt => ?_
        have hfalse := List.find?_eq_none.mp hshown flt hflt
        simp_all
      have htarget : target P m active ignore days = fun _ => false := by
        funext row
        rw [target, hnone]
      rw [htarget, List.filter_false, previousPeriod, hshown]
    | some shown =>
      obtain ⟨hcover, hdated⟩ := hcovers shown hshown
      obtain ⟨base, hbase, hdf⟩ := applyFilters_eq_ok.mpr ⟨mask, hmask, rfl⟩
      obtain ⟨hreaches, hfairRow⟩ := hfair base hbase shown hshown
      rw [hdf] at hfairRow
      exact (previousPeriod_eq_ok hshown hcover hdated hmask).mpr ⟨hreaches,
        filter_eq_filter_iff.mpr fun row hrow => (fairRow_iff hshown).mpr (hfairRow row hrow)⟩

/-- In a column of time stamps, a cell is a date on its own. -/
theorem DatedByDay.of_datetime {P : Pandas F} {m : MatSource F} {field : String}
    (htype : m.df.dtype field = some .datetime)
    (hday : ∀ row ∈ m.df.rows, ∀ t, row field = .value (.instant t) → t = midnight (dayOf t)) :
    DatedByDay P m field where
  same mask row _ _ := by
    have htype' : (m.df.where mask).dtype field = some .datetime := htype
    unfold dateOf
    simp only [htype, htype']
    cases row field with
    | missing shown => rfl
    | value v => cases v <;> rfl
  day row hrow t ht := by
    unfold dateOf at ht
    split at ht
    · next hcell =>
      cases ht
      exact hday row hrow _ hcell
    · cases ht
    · next hdtype _ => exact absurd htype (hdtype)

/-! ## 7. Three days of sales -/

/-- Orders of 3, 4 and 5 March 2024. -/
def daily : MatSource Int where
  name := "orders"
  df := Frame.single "placed" .datetime
    [.value (.instant 1709424000000000000), .value (.instant 1709510400000000000),
      .value (.instant 1709596800000000000)] (by decide)

/-- The filter on 5 March. -/
def fifth : Active Int where
  filter := ⟨placedOn, .span (some (.text "2024-03-05")) (some (.text "2024-03-05")),
    some 1709510400000000000, some 1709683199999999000, ["orders"]⟩
  last := none

def fifthDays : Active Int → Days := fun _ => ⟨.range, 19787, 19787⟩

theorem resolveRange_fifth :
    resolveRange wholePandas placedOn oneDay ["orders"] = .ok fifth.filter := by
  refine (resolveRange_eq_ok names_oneDay names_oneDay).mpr ⟨⟨?_, ?_⟩, ?_⟩
  · intro t ht
    rw [Option.bind_some, stamp?_oneDay] at ht
    cases ht
    decide
  · intro t ht
    rw [Option.bind_some, stamp?_oneDay] at ht
    cases ht
    decide
  · rw [Option.bind_some, stamp?_oneDay]
    rfl

theorem covers_fifth : Covers wholePandas fifth (fifthDays fifth) :=
  .range resolveRange_fifth rfl names_oneDay names_oneDay (by decide) (by decide)

theorem datedByDay_daily : DatedByDay wholePandas daily "placed" := by
  refine .of_datetime (by decide) fun row hrow t ht => ?_
  simp only [daily, Frame.single, List.map_cons, List.map_nil, List.mem_cons, List.not_mem_nil,
    or_false] at hrow
  rcases hrow with rfl | rfl | rfl <;> cases ht <;> decide

/-- The sales of 5 March are compared with those of 3 and 4 March. -/
theorem not_like_fifth : Covers wholePandas fifth (fifthDays fifth) ∧
    DatedByDay wholePandas daily "placed" ∧
    ¬ Like wholePandas daily [fifth] [] fifthDays := by
  refine ⟨covers_fifth, datedByDay_daily, fun hlike => ?_⟩
  have hone : List.length <$> previousRows wholePandas daily [fifth] [] fifthDays = .ok 1 := by
    decide +kernel
  have htwo : List.length <$> previousPeriod wholePandas daily [fifth] [] = .ok 2 := by
    decide +kernel
  obtain ⟨rows, hrows, hlength⟩ := Except.map_eq_ok_iff.mp hone
  obtain ⟨rows', hrows', hlength'⟩ := Except.map_eq_ok_iff.mp htwo
  cases (hlike rows hrows).symm.trans hrows'
  rw [hlength] at hlength'
  exact absurd hlength' (by decide)

theorem like_iff_fifth : Like wholePandas daily [fifth] [] fifthDays ↔
    ∀ base, applyFilters wholePandas daily [fifth.filter] [] true = .ok base →
      ∀ shown, [fifth].find? (·.comparable daily) = some shown → shown.reaches = true ∧
        ∀ row ∈ base.df.rows, FairRow wholePandas daily [fifth] [] fifthDays shown row := by
  refine like_iff wholePandas daily [fifth] [] fifthDays (by decide) fun shown hshown => ?_
  obtain rfl := List.mem_singleton.mp (List.mem_of_find?_eq_some hshown)
  exact ⟨covers_fifth, datedByDay_daily⟩

end Apowerb.Bi.Filters
