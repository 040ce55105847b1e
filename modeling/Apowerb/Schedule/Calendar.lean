/-
# Wall-clock time

A naive `datetime` is a count of microseconds: its ordinal (1 January of year 1 is day 1) times a
day, plus the time of that day.  The fields are read back the way `datetime` itself reads them;
`ord2ymd` is its conversion of an ordinal to a date.  Years are not bounded to 1..9999.
-/
import Mathlib.Tactic.IntervalCases

namespace Apowerb.Schedule

/-! ## 1. Units -/

def microsPerMinute : Int := 60000000
def microsPerDay : Int := 86400000000

/-! ## 2. Dates -/

/-- A date of the proleptic Gregorian calendar. -/
structure Date where
  year : Int
  month : Int
  day : Int
deriving DecidableEq, Repr

/-- `calendar.isleap`. -/
def isLeap (year : Int) : Bool := year % 4 == 0 && (year % 100 != 0 || year % 400 == 0)

/-- The days of a common year before a month. -/
def daysBeforeMonth : Int → Int
  | 1 => 0 | 2 => 31 | 3 => 59 | 4 => 90 | 5 => 120 | 6 => 151
  | 7 => 181 | 8 => 212 | 9 => 243 | 10 => 273 | 11 => 304 | 12 => 334
  | _ => 365

/-- The days of a month of a common year. -/
def daysInCommonMonth (month : Int) : Int := daysBeforeMonth (month + 1) - daysBeforeMonth month

/-- The month and the day of the month of the `n`-th day of a year, 0 for 1 January: an estimate
of the month that is at most one too large, then the month before it if so. -/
def monthDay (leap : Bool) (n : Int) : Int × Int :=
  let month := (n + 50) / 32
  let preceding := daysBeforeMonth month + if month > 2 ∧ leap then 1 else 0
  if preceding > n then
    let month := month - 1
    let preceding := preceding - (daysInCommonMonth month + if month = 2 ∧ leap then 1 else 0)
    (month, n - preceding + 1)
  else (month, n - preceding + 1)

/-- `datetime._ord2ymd`: cycles of 400, 100, 4 and 1 years, then the day within the year. -/
def ord2ymd (ordinal : Int) : Date :=
  let n := ordinal - 1
  let n400 := n / 146097
  let n := n % 146097
  let n100 := n / 36524
  let n := n % 36524
  let n4 := n / 1461
  let n := n % 1461
  let n1 := n / 365
  let n := n % 365
  let year := n400 * 400 + 1 + n100 * 100 + n4 * 4 + n1
  if n1 = 4 ∨ n100 = 4 then ⟨year - 1, 12, 31⟩
  else
    let leap := n1 == 3 && (n4 != 24 || n100 == 3)
    ⟨year, (monthDay leap n).1, (monthDay leap n).2⟩

/-- `datetime._ymd2ord`. -/
def ymd2ord (date : Date) : Int :=
  let y := date.year - 1
  y * 365 + y / 4 - y / 100 + y / 400 + daysBeforeMonth date.month +
    (if date.month > 2 ∧ isLeap date.year then 1 else 0) + date.day

/-! ## 3. The fields of a wall-clock time -/

/-- `wall.toordinal()`. -/
def ordinalOf (wall : Int) : Int := wall / microsPerDay

/-- `wall.date()`. -/
def dateOf (wall : Int) : Date := ord2ymd (ordinalOf wall)

/-- The minute of the day. -/
def minuteOfDay (wall : Int) : Int := wall % microsPerDay / microsPerMinute

/-- `wall.hour`. -/
def hourOf (wall : Int) : Int := minuteOfDay wall / 60

/-- `wall.minute`. -/
def minuteOf (wall : Int) : Int := minuteOfDay wall % 60

/-- `wall.isoweekday() % 7`: Sunday is 0. -/
def weekdayOf (wall : Int) : Int := ordinalOf wall % 7

/-- `wall.replace(second=0, microsecond=0)`. -/
def floorMinute (wall : Int) : Int := wall - wall % microsPerMinute

/-- A naive `datetime` from its date and its time. -/
def wallOf (date : Date) (hour minute : Int) : Int :=
  ymd2ord date * microsPerDay + (hour * 60 + minute) * microsPerMinute

/-! ## 4. The conversion stays in range, and comes back -/

/-- One month at a time: the fields are in range, and the days before them are the day's. -/
theorem monthDay_spec (leap : Bool) (n : Int) (h₀ : 0 ≤ n) (h : n ≤ 364) :
    (1 ≤ (monthDay leap n).1 ∧ (monthDay leap n).1 ≤ 12) ∧
    (1 ≤ (monthDay leap n).2 ∧ (monthDay leap n).2 ≤ 31) ∧
    daysBeforeMonth (monthDay leap n).1 +
      (if (monthDay leap n).1 > 2 ∧ leap then 1 else 0) + (monthDay leap n).2 = n + 1 := by
  unfold monthDay
  have hlow : 1 ≤ (n + 50) / 32 := by omega
  have hhigh : (n + 50) / 32 ≤ 12 := by omega
  generalize hm : (n + 50) / 32 = month at *
  interval_cases month <;> cases leap <;> simp [daysBeforeMonth, daysInCommonMonth] <;>
    split <;> simp <;> omega

theorem ord2ymd_bounds (ordinal : Int) :
    (1 ≤ (ord2ymd ordinal).month ∧ (ord2ymd ordinal).month ≤ 12) ∧
      (1 ≤ (ord2ymd ordinal).day ∧ (ord2ymd ordinal).day ≤ 31) := by
  unfold ord2ymd
  dsimp only
  split
  · norm_num
  · obtain ⟨hmonth, hday, _⟩ := monthDay_spec
      ((ordinal - 1) % 146097 % 36524 % 1461 / 365 == 3 &&
        ((ordinal - 1) % 146097 % 36524 / 1461 != 24 || (ordinal - 1) % 146097 / 36524 == 3))
      ((ordinal - 1) % 146097 % 36524 % 1461 % 365) (by omega) (by omega)
    exact ⟨hmonth, hday⟩

/-- The days before a year, from its number of cycles. -/
theorem daysBeforeYear_cycles (n400 n1 : Int) {n100 n4 : Int} (h100 : 0 ≤ n100 ∧ n100 ≤ 3)
    (h4 : 0 ≤ n4 ∧ n4 ≤ 24) (h1 : 0 ≤ n1 ∧ n1 ≤ 3) :
    let y := n400 * 400 + n100 * 100 + n4 * 4 + n1
    y * 365 + y / 4 - y / 100 + y / 400 =
      n400 * 146097 + n100 * 36524 + n4 * 1461 + n1 * 365 := by
  omega

/-- A year is a leap year where its position in the cycles says so. -/
theorem isLeap_cycles (n400 n1 : Int) {n100 n4 : Int} (h100 : 0 ≤ n100 ∧ n100 ≤ 3)
    (h4 : 0 ≤ n4 ∧ n4 ≤ 24) (h1 : 0 ≤ n1 ∧ n1 ≤ 3) :
    isLeap (n400 * 400 + 1 + n100 * 100 + n4 * 4 + n1) =
      (n1 == 3 && (n4 != 24 || n100 == 3)) := by
  unfold isLeap
  rw [Bool.eq_iff_iff]
  simp only [Bool.and_eq_true, Bool.or_eq_true, beq_iff_eq, bne_iff_ne]
  omega

/-- **The date of an ordinal has that ordinal.** -/
theorem ymd2ord_ord2ymd (ordinal : Int) : ymd2ord (ord2ymd ordinal) = ordinal := by
  unfold ord2ymd
  dsimp only
  generalize hn400 : (ordinal - 1) / 146097 = n400
  generalize hr400 : (ordinal - 1) % 146097 = r400
  generalize hn100 : r400 / 36524 = n100
  generalize hr100 : r400 % 36524 = r100
  generalize hn4 : r100 / 1461 = n4
  generalize hr4 : r100 % 1461 = r4
  generalize hn1 : r4 / 365 = n1
  generalize hr1 : r4 % 365 = r1
  split
  · rename_i hlast
    -- 31 December of the last year of a cycle of 4 or of 400 years: the year is written by the
    -- cycles of its own position, the last of each.
    obtain ⟨m100, m4, h100, h4, hyear, hord, hleap⟩ : ∃ m100 m4 : Int,
        (0 ≤ m100 ∧ m100 ≤ 3) ∧ (0 ≤ m4 ∧ m4 ≤ 24) ∧
        n400 * 400 + 1 + n100 * 100 + n4 * 4 + n1 - 1 =
          n400 * 400 + 1 + m100 * 100 + m4 * 4 + 3 ∧
        ordinal = n400 * 146097 + m100 * 36524 + m4 * 1461 + 3 * 365 + 366 ∧
        (m4 ≠ 24 ∨ m100 = 3) := by
      rcases hlast with hlast | hlast
      · exact ⟨n100, n4, by omega, by omega, by omega, by omega, by omega⟩
      · exact ⟨3, 24, by omega, by omega, by omega, by omega, by omega⟩
    have hdays := daysBeforeYear_cycles n400 3 h100 h4 (by omega)
    have hisLeap := isLeap_cycles n400 3 h100 h4 (by omega)
    have htrue : ((3 : Int) == 3 && (m4 != 24 || m100 == 3)) = true := by
      simpa using hleap
    unfold ymd2ord
    dsimp only at hdays ⊢
    rw [hyear, hisLeap, htrue]
    have hcycles : n400 * 400 + 1 + m100 * 100 + m4 * 4 + 3 - 1 =
        n400 * 400 + m100 * 100 + m4 * 4 + 3 := by omega
    rw [hcycles, hdays, hord]
    simp only [daysBeforeMonth]
    norm_num
    omega
  · rename_i hlast
    have h100 : 0 ≤ n100 ∧ n100 ≤ 3 := by omega
    have h4 : 0 ≤ n4 ∧ n4 ≤ 24 := by omega
    have h1 : 0 ≤ n1 ∧ n1 ≤ 3 := by omega
    have hdays := daysBeforeYear_cycles n400 n1 h100 h4 h1
    obtain ⟨_, _, hmonth⟩ := monthDay_spec (n1 == 3 && (n4 != 24 || n100 == 3))
      r1 (by omega) (by omega)
    unfold ymd2ord
    dsimp only at hdays ⊢
    rw [isLeap_cycles n400 n1 h100 h4 h1]
    have hyear : n400 * 400 + 1 + n100 * 100 + n4 * 4 + n1 - 1 =
        n400 * 400 + n100 * 100 + n4 * 4 + n1 := by omega
    rw [hyear, hdays]
    omega

/-- The day after the 28th of February is the 29th in leap years only. -/
theorem monthDay_leapDay {leap : Bool} {n : Int} (h₀ : 0 ≤ n) (h : n ≤ 364)
    (hmonth : (monthDay leap n).1 = 2) (hday : (monthDay leap n).2 = 29) : leap = true := by
  cases leap with
  | true => rfl
  | false =>
    obtain ⟨_, _, hspec⟩ := monthDay_spec false n h₀ h
    rw [hmonth, hday] at hspec
    have hn : n = 59 := by
      simp only [daysBeforeMonth] at hspec
      norm_num at hspec
      omega
    subst hn
    exact absurd hmonth (by decide)

/-- **29 February is a day of leap years.** -/
theorem isLeap_of_leapDay {ordinal : Int} (hmonth : (ord2ymd ordinal).month = 2)
    (hday : (ord2ymd ordinal).day = 29) : isLeap (ord2ymd ordinal).year = true := by
  unfold ord2ymd at hmonth hday ⊢
  dsimp only at hmonth hday ⊢
  split
  · rename_i hlast
    rw [if_pos hlast] at hmonth
    exact absurd hmonth (by norm_num)
  · rename_i hlast
    rw [if_neg hlast] at hmonth hday
    have hleap := monthDay_leapDay (by omega) (by omega) hmonth hday
    rw [← hleap]
    exact isLeap_cycles _ _ (by omega) (by omega) (by omega)

example : ord2ymd 738000 = ⟨2021, 7, 29⟩ ∧ ymd2ord ⟨2021, 7, 29⟩ = 738000 := by decide
example : dateOf (wallOf ⟨2028, 2, 29⟩ 0 0) = ⟨2028, 2, 29⟩ := by decide

end Apowerb.Schedule
