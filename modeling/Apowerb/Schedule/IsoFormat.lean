/-
# Dates and times as ISO 8601 writes them

`date.fromisoformat` and `datetime.fromisoformat` in the formats they are documented to read, and
`isoformat`.  A date is its ordinal and a naive `datetime` its wall clock, as in the calendar.

* A date is `YYYY-MM-DD`, `YYYYMMDD`, `YYYY-Www`, `YYYYWww`, `YYYY-Www-D` or `YYYYWwwD`.
* Any one character stands between a date and a time, so a week followed by digits can be read in
  two ways; the look-ahead of `fromisoformat` decides, and it is followed here.
* A time is `HH`, `HH:MM` or `HH:MM:SS`, with its colons or without, and a fraction after the
  seconds; the digits after the sixth are dropped.
* An offset is `Z`, or a sign and what a time looks like, less than a day.

What is written is read back (`dateFromIso?_dateText`, `datetime?_datetimeText`), and what is read
can be written (`datetime?_inReach`).
-/
import Apowerb.Schedule.Calendar
import Mathlib.Data.List.TakeWhile
import Mathlib.Tactic.Ring

namespace Apowerb.Schedule.Iso

/-! ## 1. Digits -/

/-- `n` digits, after the number `acc`. -/
def number? : Nat → Nat → List Char → Option (Nat × List Char)
  | 0, acc, cs => some (acc, cs)
  | n + 1, acc, c :: cs =>
    if c.isDigit then number? n (10 * acc + (c.toNat - '0'.toNat)) cs else none
  | _ + 1, _, [] => none

/-- The last `n` digits of a number. -/
def padded : Nat → Nat → List Char
  | 0, _ => []
  | n + 1, k => Nat.digitChar (k / 10 ^ n % 10) :: padded n k

/-! ## 2. Dates -/

def daysInMonth (year month : Int) : Int :=
  daysInCommonMonth month + if month = 2 ∧ isLeap year then 1 else 0

/-- The ordinal of 31 December 9999. -/
def maxOrdinal : Int := 3652059

/-- `date(year, month, day)`. -/
def ordinal? (d : Date) : Option Int :=
  if (1 ≤ d.year ∧ d.year ≤ 9999) ∧ (1 ≤ d.month ∧ d.month ≤ 12) ∧
      (1 ≤ d.day ∧ d.day ≤ daysInMonth d.year d.month) then some (ymd2ord d)
  else none

/-- The Monday of the first week of a year, that of its first Thursday. -/
def isoWeek1Monday (year : Int) : Int :=
  let first := ymd2ord ⟨year, 1, 1⟩
  let weekday := (first + 6) % 7
  if weekday > 3 then first - weekday + 7 else first - weekday

/-- A year starting on a Thursday has 53 weeks, and a leap year starting on a Wednesday. -/
def hasWeek53 (year : Int) : Bool :=
  let weekday := ymd2ord ⟨year, 1, 1⟩ % 7
  weekday == 4 || weekday == 3 && isLeap year

/-- `date.fromisocalendar(year, week, day)`. -/
def weekOrdinal? (year week day : Int) : Option Int :=
  let ordinal := isoWeek1Monday year + (week - 1) * 7 + (day - 1)
  if (1 ≤ year ∧ year ≤ 9999) ∧ (1 ≤ week ∧ (week ≤ 52 ∨ week = 53 ∧ hasWeek53 year)) ∧
      (1 ≤ day ∧ day ≤ 7) ∧ (1 ≤ ordinal ∧ ordinal ≤ maxOrdinal) then some ordinal
  else none

/-- The Monday of a week. -/
def monday? (year week : Nat) (rest : List Char) : Option (Int × List Char) :=
  (weekOrdinal? year week 1).map (·, rest)

/-- A digit for the day of the week. -/
def weekday? (year week : Nat) (cs : List Char) : Option (Int × List Char) :=
  (number? 1 0 cs).bind fun (day, rest) => (weekOrdinal? year week day).map (·, rest)

/-- After `YYYY-Www`: a hyphen and two digits are the separator and the hour. -/
def afterWeekDashed? (year week : Nat) : List Char → Option (Int × List Char)
  | '-' :: d :: rest =>
    if rest.head?.any Char.isDigit then monday? year week ('-' :: d :: rest)
    else weekday? year week (d :: rest)
  | cs => monday? year week cs

/-- After `YYYYWww`: the digits of an hour and its minutes come in pairs, so an odd number of
them, other than one, begins with the separator. -/
def afterWeek? (year week : Nat) (cs : List Char) : Option (Int × List Char) :=
  let run := (cs.takeWhile Char.isDigit).length
  if run = 0 ∨ 2 ≤ run ∧ run % 2 = 1 then monday? year week cs else weekday? year week cs

/-- The day of the month. -/
def day? (year month : Nat) (cs : List Char) : Option (Int × List Char) :=
  (number? 2 0 cs).bind fun (day, rest) => (ordinal? ⟨year, month, day⟩).map (·, rest)

/-- After the year and a hyphen. -/
def afterYearDashed? (year : Nat) : List Char → Option (Int × List Char)
  | 'W' :: cs => (number? 2 0 cs).bind fun (week, rest) => afterWeekDashed? year week rest
  | cs =>
    (number? 2 0 cs).bind fun
      | (month, '-' :: rest) => day? year month rest
      | _ => none

/-- After the year. -/
def afterYear? (year : Nat) : List Char → Option (Int × List Char)
  | '-' :: cs => afterYearDashed? year cs
  | 'W' :: cs => (number? 2 0 cs).bind fun (week, rest) => afterWeek? year week rest
  | cs => (number? 2 0 cs).bind fun (month, rest) => day? year month rest

/-- The ordinal of the date that a text begins with, and what follows it. -/
def date? (cs : List Char) : Option (Int × List Char) :=
  (number? 4 0 cs).bind fun (year, rest) => afterYear? year rest

/-- `date.fromisoformat`. -/
def dateFromIso? (cs : List Char) : Option Int :=
  match date? cs with
  | some (ordinal, []) => some ordinal
  | _ => none

/-! ## 3. Times -/

/-- The fields of a time. -/
structure Clock where
  hour : Nat
  minute : Nat
  second : Nat
  micro : Nat
deriving DecidableEq, Repr

def Clock.micros (c : Clock) : Int :=
  ((c.hour * 60 + c.minute) * 60 + c.second) * 1000000 + c.micro

/-- Microseconds: six digits, made up with zeros or cut. -/
def fraction? : List Char → Option Nat
  | [] => some 0
  | mark :: ds =>
    if (mark = '.' ∨ mark = ',') ∧ ds ≠ [] ∧ ds.all Char.isDigit then
      (number? 6 0 (ds ++ List.replicate 6 '0')).map Prod.fst
    else none

def seconds? (hour minute : Nat) (cs : List Char) : Option Clock :=
  (number? 2 0 cs).bind fun (second, rest) =>
    (fraction? rest).map fun micro => ⟨hour, minute, second, micro⟩

/-- What follows the hour, with colons: each field may be the last. -/
def minutesColon? (hour : Nat) (cs : List Char) : Option Clock :=
  (number? 2 0 cs).bind fun
    | (minute, []) => some ⟨hour, minute, 0, 0⟩
    | (minute, ':' :: rest) => seconds? hour minute rest
    | _ => none

/-- What follows the hour, without colons. -/
def minutes? (hour : Nat) (cs : List Char) : Option Clock :=
  (number? 2 0 cs).bind fun
    | (minute, []) => some ⟨hour, minute, 0, 0⟩
    | (minute, rest) => seconds? hour minute rest

/-- The fields that a time or an offset is written with. -/
def clock? (cs : List Char) : Option Clock :=
  (number? 2 0 cs).bind fun
    | (hour, []) => some ⟨hour, 0, 0, 0⟩
    | (hour, ':' :: rest) => minutesColon? hour rest
    | (hour, rest) => minutes? hour rest

/-- The time of a day. -/
def timeOfDay? (cs : List Char) : Option Int :=
  (clock? cs).bind fun c =>
    if c.hour < 24 ∧ c.minute < 60 ∧ c.second < 60 then some c.micros else none

/-- The offset from UTC, and `none` inside where there is none. -/
def offset? : List Char → Option (Option Int)
  | [] => some none
  | ['Z'] => some (some 0)
  | sign :: cs =>
    if sign = '+' ∨ sign = '-' then
      (clock? cs).bind fun c =>
        if c.micros < microsPerDay then
          some (some (if sign = '-' then -c.micros else c.micros))
        else none
    else none

/-- What an offset begins with. -/
def isZone (c : Char) : Bool := c == '+' || c == '-' || c == 'Z'

/-- `datetime.fromisoformat`: the wall clock, and the offset where one is written. -/
def datetime? (cs : List Char) : Option (Int × Option Int) :=
  (date? cs).bind fun
    | (ordinal, []) => some (ordinal * microsPerDay, none)
    | (ordinal, _ :: time) =>
      (timeOfDay? (time.takeWhile fun c => !isZone c)).bind fun clock =>
        (offset? (time.dropWhile fun c => !isZone c)).map fun offset =>
          (ordinal * microsPerDay + clock, offset)

/-! ## 4. Writing -/

/-- `date.isoformat`. -/
def dateText (ordinal : Int) : List Char :=
  let d := ord2ymd ordinal
  padded 4 d.year.toNat ++ '-' :: padded 2 d.month.toNat ++ '-' :: padded 2 d.day.toNat

/-- `time.isoformat`: the microseconds only where there are any. -/
def timeText (micros : Nat) : List Char :=
  let seconds := micros / 1000000
  padded 2 (seconds / 3600) ++ ':' :: padded 2 (seconds / 60 % 60) ++ ':' ::
    padded 2 (seconds % 60) ++
    if micros % 1000000 = 0 then [] else '.' :: padded 6 (micros % 1000000)

/-- `datetime.isoformat` of a naive `datetime`. -/
def datetimeText (wall : Int) : List Char :=
  dateText (ordinalOf wall) ++ 'T' :: timeText (wall % microsPerDay).toNat

/-! ## 5. Dates are well formed -/

theorem monthDay_le (leap : Bool) (n : Int) (h₀ : 0 ≤ n) (h : n ≤ 364) :
    (monthDay leap n).2 ≤ daysInCommonMonth (monthDay leap n).1 +
      if (monthDay leap n).1 = 2 ∧ leap then 1 else 0 := by
  unfold monthDay
  have hlow : 1 ≤ (n + 50) / 32 := by omega
  have hhigh : (n + 50) / 32 ≤ 12 := by omega
  generalize hm : (n + 50) / 32 = month at *
  interval_cases month <;> cases leap <;> simp [daysBeforeMonth, daysInCommonMonth] <;>
    split <;> simp <;> omega

theorem ord2ymd_day_le (ordinal : Int) :
    (ord2ymd ordinal).day ≤ daysInMonth (ord2ymd ordinal).year (ord2ymd ordinal).month := by
  unfold ord2ymd
  dsimp only
  split
  · exact (by decide : (31 : Int) ≤ 31 + 0)
  · rename_i hlast
    unfold daysInMonth
    dsimp only
    rw [isLeap_cycles _ _ (by omega) (by omega) (by omega)]
    exact monthDay_le _ _ (by omega) (by omega)

theorem ord2ymd_year {ordinal : Int} (h : 1 ≤ ordinal ∧ ordinal ≤ maxOrdinal) :
    1 ≤ (ord2ymd ordinal).year ∧ (ord2ymd ordinal).year ≤ 9999 := by
  unfold maxOrdinal at h
  unfold ord2ymd
  dsimp only
  split
  · dsimp only
    omega
  · dsimp only
    omega

/-- `date.fromordinal(n)` and back. -/
theorem ordinal?_ord2ymd {ordinal : Int} (h : 1 ≤ ordinal ∧ ordinal ≤ maxOrdinal) :
    ordinal? (ord2ymd ordinal) = some ordinal := by
  obtain ⟨hmonth, hday⟩ := ord2ymd_bounds ordinal
  unfold ordinal?
  rw [if_pos ⟨ord2ymd_year h, hmonth, hday.1, ord2ymd_day_le ordinal⟩, ymd2ord_ord2ymd]

/-- A day of the year is one of its 365 or 366. -/
theorem dayOfYear_bounds {leap : Bool} {month day : Int} (hmonth : 1 ≤ month ∧ month ≤ 12)
    (hday : 1 ≤ day ∧ day ≤ daysInCommonMonth month + if month = 2 ∧ leap then 1 else 0) :
    1 ≤ daysBeforeMonth month + (if month > 2 ∧ leap then 1 else 0) + day ∧
      daysBeforeMonth month + (if month > 2 ∧ leap then 1 else 0) + day ≤
        365 + if leap then 1 else 0 := by
  obtain ⟨hlow, hhigh⟩ := hmonth
  interval_cases month <;> cases leap <;>
    simp [daysBeforeMonth, daysInCommonMonth] at hday ⊢ <;> omega

theorem ymd2ord_bounds {d : Date} (hyear : 1 ≤ d.year ∧ d.year ≤ 9999)
    (hmonth : 1 ≤ d.month ∧ d.month ≤ 12)
    (hday : 1 ≤ d.day ∧ d.day ≤ daysInMonth d.year d.month) :
    1 ≤ ymd2ord d ∧ ymd2ord d ≤ maxOrdinal := by
  obtain ⟨hfirst, hlast⟩ := dayOfYear_bounds hmonth hday
  unfold ymd2ord maxOrdinal
  dsimp only
  -- The last year is not a leap year, and any other has a year after it.
  have hleap : (365 + if isLeap d.year = true then 1 else 0 : Int) ≤ 366 ∧
      (d.year = 9999 → (365 + if isLeap d.year = true then 1 else 0 : Int) = 365) := by
    constructor
    · split <;> omega
    · intro hend
      rw [hend]
      rfl
  omega

theorem ordinal?_bounds {d : Date} {ordinal : Int} (h : ordinal? d = some ordinal) :
    1 ≤ ordinal ∧ ordinal ≤ maxOrdinal := by
  unfold ordinal? at h
  split at h
  · rename_i hfields
    cases h
    exact ymd2ord_bounds hfields.1 hfields.2.1 hfields.2.2
  · cases h

/-! ## 6. What is written is read back -/

theorem digitChar_isDigit : ∀ d < 10, (Nat.digitChar d).isDigit = true ∧
    (Nat.digitChar d).toNat - '0'.toNat = d := by
  decide

theorem number?_padded (n acc k : Nat) (rest : List Char) :
    number? n acc (padded n k ++ rest) = some (acc * 10 ^ n + k % 10 ^ n, rest) := by
  induction n generalizing acc with
  | zero => simp [number?, padded, Nat.mod_one]
  | succ n ih =>
    obtain ⟨hdigit, hvalue⟩ := digitChar_isDigit (k / 10 ^ n % 10) (Nat.mod_lt _ (by decide))
    rw [padded, List.cons_append, number?, if_pos hdigit, hvalue, ih]
    have hsplit : k % 10 ^ (n + 1) = k % 10 ^ n + 10 ^ n * (k / 10 ^ n % 10) := by
      rw [Nat.pow_succ, Nat.mod_mul]
    rw [hsplit, Nat.pow_succ]
    congr 2
    ring

/-- The case of a number that the digits hold. -/
theorem number?_padded_lt {n k : Nat} (h : k < 10 ^ n) (rest : List Char) :
    number? n 0 (padded n k ++ rest) = some (k, rest) := by
  rw [number?_padded, Nat.mod_eq_of_lt h, Nat.zero_mul, Nat.zero_add]

/-- A month begins with a digit, so that it is no week. -/
theorem afterYearDashed?_month (year month : Nat) (hmonth : month < 100) (rest : List Char) :
    afterYearDashed? year (padded 2 month ++ '-' :: rest) = day? year month rest := by
  have hread := number?_padded_lt (n := 2) hmonth ('-' :: rest)
  have hW : Nat.digitChar (month / 10 ^ 1 % 10) ≠ 'W' := by
    have hall : ∀ d < 10, Nat.digitChar d ≠ 'W' := by decide
    exact hall _ (Nat.mod_lt _ (by decide))
  rw [padded, List.cons_append] at hread ⊢
  generalize Nat.digitChar (month / 10 ^ 1 % 10) = first at hread hW ⊢
  unfold afterYearDashed?
  split
  · rename_i heq
    cases heq
    exact absurd rfl hW
  · rw [hread]
    rfl

theorem date?_dateText {ordinal : Int} (h : 1 ≤ ordinal ∧ ordinal ≤ maxOrdinal)
    (rest : List Char) : date? (dateText ordinal ++ rest) = some (ordinal, rest) := by
  obtain ⟨hyear, hyear'⟩ := ord2ymd_year h
  obtain ⟨⟨hmonth, hmonth'⟩, hday, hday'⟩ := ord2ymd_bounds ordinal
  have hcast : ordinal? ⟨(ord2ymd ordinal).year.toNat, (ord2ymd ordinal).month.toNat,
      (ord2ymd ordinal).day.toNat⟩ = some ordinal := by
    rw [Int.toNat_of_nonneg (by omega), Int.toNat_of_nonneg (by omega),
      Int.toNat_of_nonneg (by omega)]
    exact ordinal?_ord2ymd h
  unfold date? dateText
  dsimp only
  simp only [List.append_assoc, List.cons_append]
  rw [number?_padded_lt (by omega), Option.bind_some]
  change afterYearDashed? _ _ = _
  rw [afterYearDashed?_month _ _ (by omega)]
  unfold day?
  rw [number?_padded_lt (by omega), Option.bind_some]
  dsimp only
  rw [hcast]
  rfl

/-- **`date.fromisoformat(d.isoformat())`.** -/
theorem dateFromIso?_dateText {ordinal : Int} (h : 1 ≤ ordinal ∧ ordinal ≤ maxOrdinal) :
    dateFromIso? (dateText ordinal) = some ordinal := by
  have hread := date?_dateText h []
  rw [List.append_nil] at hread
  unfold dateFromIso?
  rw [hread]

theorem fraction?_written (micro : Nat) (h : micro < 1000000) :
    fraction? (if micro = 0 then [] else '.' :: padded 6 micro) = some micro := by
  split
  · rename_i hzero
    rw [hzero]
    rfl
  · have hdigits : (padded 6 micro).all Char.isDigit = true := by
      simp only [padded, List.all_cons, List.all_nil, Bool.and_true, Bool.and_eq_true]
      refine ⟨?_, ?_, ?_, ?_, ?_, ?_⟩ <;>
        exact (digitChar_isDigit _ (Nat.mod_lt _ (by decide))).1
    unfold fraction?
    dsimp only
    rw [if_pos ⟨Or.inl rfl, by simp [padded], hdigits⟩, number?_padded_lt (by omega)]
    rfl

theorem clock?_timeText (micros : Nat) :
    clock? (timeText micros) = some ⟨micros / 1000000 / 3600 % 100, micros / 1000000 / 60 % 60,
      micros / 1000000 % 60, micros % 1000000⟩ := by
  unfold clock? timeText
  dsimp only
  simp only [List.append_assoc, List.cons_append]
  rw [number?_padded, Option.bind_some]
  change minutesColon? _ _ = _
  unfold minutesColon?
  rw [number?_padded_lt (by omega), Option.bind_some]
  change seconds? _ _ _ = _
  unfold seconds?
  rw [number?_padded_lt (by omega), Option.bind_some]
  dsimp only
  rw [fraction?_written _ (by omega)]
  simp

theorem forall_padded {P : Char → Prop} (hdigit : ∀ d < 10, P (Nat.digitChar d)) (n k : Nat) :
    ∀ c ∈ padded n k, P c := by
  induction n with
  | zero => simp [padded]
  | succ n ih =>
    intro c hc
    rcases List.mem_cons.mp hc with rfl | hc
    · exact hdigit _ (Nat.mod_lt _ (by decide))
    · exact ih c hc

/-- A time is written with digits, colons and a point. -/
theorem forall_timeText {P : Char → Prop} (hdigit : ∀ d < 10, P (Nat.digitChar d)) (hcolon : P ':')
    (hpoint : P '.') (micros : Nat) : ∀ c ∈ timeText micros, P c := by
  intro c hc
  unfold timeText at hc
  dsimp only at hc
  simp only [List.append_assoc, List.cons_append, List.mem_append, List.mem_cons] at hc
  rcases hc with hc | rfl | hc | rfl | hc | hc
  · exact forall_padded hdigit _ _ c hc
  · exact hcolon
  · exact forall_padded hdigit _ _ c hc
  · exact hcolon
  · exact forall_padded hdigit _ _ c hc
  · split at hc
    · cases hc
    · rcases List.mem_cons.mp hc with rfl | hc
      · exact hpoint
      · exact forall_padded hdigit _ _ c hc

/-- A time with nothing after it. -/
theorem timeOfDay?_timeText {micros : Nat} (h : (micros : Int) < microsPerDay) :
    timeOfDay? (timeText micros) = some (micros : Int) := by
  unfold microsPerDay at h
  unfold timeOfDay?
  rw [clock?_timeText, Option.bind_some, if_pos (by dsimp only; omega)]
  unfold Clock.micros
  dsimp only
  congr 1
  omega

/-- The wall clocks of years 1 to 9999. -/
def InReach (wall : Int) : Prop := 1 ≤ ordinalOf wall ∧ ordinalOf wall ≤ maxOrdinal

instance (wall : Int) : Decidable (InReach wall) := by
  unfold InReach
  infer_instance

/-- **`datetime.fromisoformat(w.isoformat())`.** -/
theorem datetime?_datetimeText {wall : Int} (h : InReach wall) :
    datetime? (datetimeText wall) = some (wall, none) := by
  have hmod := Int.emod_nonneg wall (b := microsPerDay) (by decide)
  have hlt := Int.emod_lt_of_pos wall (b := microsPerDay) (by decide)
  have hplain : ∀ c ∈ timeText (wall % microsPerDay).toNat, (!isZone c) = true := by
    intro c hc
    exact forall_timeText (P := fun c => (!isZone c) = true) (by decide) rfl rfl _ c hc
  unfold datetime? datetimeText
  rw [date?_dateText h, Option.bind_some]
  dsimp only
  rw [List.takeWhile_eq_self_iff.mpr hplain, List.dropWhile_eq_nil_iff.mpr hplain,
    timeOfDay?_timeText (by omega), Option.bind_some]
  have hwall : ordinalOf wall * microsPerDay + ((wall % microsPerDay).toNat : Int) = wall := by
    rw [Int.toNat_of_nonneg hmod]
    exact Int.ediv_mul_add_emod wall microsPerDay
  rw [hwall]
  rfl

/-! ## 7. What is read is in reach -/

theorem of_number? {n acc v : Nat} {cs rest : List Char}
    (h : number? n acc cs = some (v, rest)) :
    ∃ ds, cs = ds ++ rest ∧ ds.length = n ∧ (∀ c ∈ ds, c.isDigit = true) ∧
      ∀ rest', number? n acc (ds ++ rest') = some (v, rest') := by
  induction n generalizing acc cs with
  | zero =>
    cases h
    exact ⟨[], rfl, rfl, by simp, fun _ => rfl⟩
  | succ n ih =>
    cases cs with
    | nil => cases h
    | cons c cs =>
      rw [number?, Option.ite_none_right_eq_some] at h
      obtain ⟨ds, rfl, hlength, hdigits, hread⟩ := ih h.2
      refine ⟨c :: ds, rfl, by rw [List.length_cons, hlength], ?_, ?_⟩
      · simpa using ⟨h.1, hdigits⟩
      · intro rest'
        rw [List.cons_append, number?, if_pos h.1, hread]

theorem weekOrdinal?_bounds {year week day ordinal : Int}
    (h : weekOrdinal? year week day = some ordinal) : 1 ≤ ordinal ∧ ordinal ≤ maxOrdinal := by
  unfold weekOrdinal? at h
  dsimp only at h
  rw [Option.ite_none_right_eq_some] at h
  obtain ⟨hfields, h⟩ := h
  cases h
  exact hfields.2.2.2

theorem monday?_bounds {year week : Nat} {cs rest : List Char} {ordinal : Int}
    (h : monday? year week cs = some (ordinal, rest)) : 1 ≤ ordinal ∧ ordinal ≤ maxOrdinal := by
  obtain ⟨v, hv, hpair⟩ := Option.map_eq_some_iff.mp h
  cases hpair
  exact weekOrdinal?_bounds hv

theorem weekday?_bounds {year week : Nat} {cs rest : List Char} {ordinal : Int}
    (h : weekday? year week cs = some (ordinal, rest)) : 1 ≤ ordinal ∧ ordinal ≤ maxOrdinal := by
  obtain ⟨⟨k, mid⟩, -, hmid⟩ := Option.bind_eq_some_iff.mp h
  obtain ⟨v, hv, hpair⟩ := Option.map_eq_some_iff.mp hmid
  cases hpair
  exact weekOrdinal?_bounds hv

theorem day?_bounds {year month : Nat} {cs rest : List Char} {ordinal : Int}
    (h : day? year month cs = some (ordinal, rest)) : 1 ≤ ordinal ∧ ordinal ≤ maxOrdinal := by
  obtain ⟨⟨k, mid⟩, -, hmid⟩ := Option.bind_eq_some_iff.mp h
  obtain ⟨v, hv, hpair⟩ := Option.map_eq_some_iff.mp hmid
  cases hpair
  exact ordinal?_bounds hv

theorem afterWeekDashed?_bounds {year week : Nat} {cs rest : List Char} {ordinal : Int}
    (h : afterWeekDashed? year week cs = some (ordinal, rest)) :
    1 ≤ ordinal ∧ ordinal ≤ maxOrdinal := by
  unfold afterWeekDashed? at h
  split at h
  · split at h
    · exact monday?_bounds h
    · exact weekday?_bounds h
  · exact monday?_bounds h

theorem afterYear?_bounds {year : Nat} {cs rest : List Char} {ordinal : Int}
    (h : afterYear? year cs = some (ordinal, rest)) : 1 ≤ ordinal ∧ ordinal ≤ maxOrdinal := by
  unfold afterYear? at h
  split at h
  · unfold afterYearDashed? at h
    split at h
    · obtain ⟨_, -, hweek⟩ := Option.bind_eq_some_iff.mp h
      exact afterWeekDashed?_bounds hweek
    · obtain ⟨_, -, hmonth⟩ := Option.bind_eq_some_iff.mp h
      split at hmonth
      · exact day?_bounds hmonth
      · cases hmonth
  · obtain ⟨_, -, hweek⟩ := Option.bind_eq_some_iff.mp h
    unfold afterWeek? at hweek
    dsimp only at hweek
    split at hweek
    · exact monday?_bounds hweek
    · exact weekday?_bounds hweek
  · obtain ⟨_, -, hmonth⟩ := Option.bind_eq_some_iff.mp h
    exact day?_bounds hmonth

theorem date?_bounds {cs rest : List Char} {ordinal : Int}
    (h : date? cs = some (ordinal, rest)) : 1 ≤ ordinal ∧ ordinal ≤ maxOrdinal := by
  obtain ⟨_, -, hyear⟩ := Option.bind_eq_some_iff.mp h
  exact afterYear?_bounds hyear

theorem of_dateFromIso? {cs : List Char} {ordinal : Int} (h : dateFromIso? cs = some ordinal) :
    date? cs = some (ordinal, []) := by
  unfold dateFromIso? at h
  split at h
  · rename_i heq
    cases h
    exact heq
  · cases h

theorem six_digits_lt {n acc v : Nat} {cs rest : List Char}
    (h : number? n acc cs = some (v, rest)) : v < (acc + 1) * 10 ^ n := by
  induction n generalizing acc cs with
  | zero =>
    cases h
    omega
  | succ n ih =>
    cases cs with
    | nil => cases h
    | cons c cs =>
      rw [number?, Option.ite_none_right_eq_some] at h
      have hdigit : c.toNat - '0'.toNat ≤ 9 := by
        have hc := h.1
        unfold Char.isDigit at hc
        simp only [Bool.and_eq_true, decide_eq_true_eq] at hc
        have hle : c.toNat ≤ '9'.toNat := hc.2
        have hzero : '0'.toNat = 48 := rfl
        have hnine : '9'.toNat = 57 := rfl
        omega
      have hv := ih h.2
      calc v < (10 * acc + (c.toNat - '0'.toNat) + 1) * 10 ^ n := hv
        _ ≤ (10 * (acc + 1)) * 10 ^ n := Nat.mul_le_mul_right _ (by omega)
        _ = (acc + 1) * 10 ^ (n + 1) := by
          rw [Nat.pow_succ]
          ring

theorem fraction?_lt {cs : List Char} {micro : Nat} (h : fraction? cs = some micro) :
    micro < 1000000 := by
  unfold fraction? at h
  split at h
  · cases h
    decide
  · rw [Option.ite_none_right_eq_some] at h
    obtain ⟨⟨v, rest⟩, hv, rfl⟩ := Option.map_eq_some_iff.mp h.2
    simpa using six_digits_lt hv

theorem clock?_micro_lt {cs : List Char} {c : Clock} (h : clock? cs = some c) :
    c.micro < 1000000 := by
  have hseconds : ∀ {hour minute : Nat} {cs : List Char},
      seconds? hour minute cs = some c → c.micro < 1000000 := by
    intro hour minute cs h
    obtain ⟨_, -, hrest⟩ := Option.bind_eq_some_iff.mp h
    obtain ⟨micro, hmicro, rfl⟩ := Option.map_eq_some_iff.mp hrest
    exact fraction?_lt hmicro
  obtain ⟨_, -, hhour⟩ := Option.bind_eq_some_iff.mp h
  split at hhour
  · cases hhour
    exact Nat.zero_lt_succ _
  · obtain ⟨_, -, hminute⟩ := Option.bind_eq_some_iff.mp hhour
    split at hminute
    · cases hminute
      exact Nat.zero_lt_succ _
    · exact hseconds hminute
    · cases hminute
  · obtain ⟨_, -, hminute⟩ := Option.bind_eq_some_iff.mp hhour
    split at hminute
    · cases hminute
      exact Nat.zero_lt_succ _
    · exact hseconds hminute

theorem timeOfDay?_bounds {cs : List Char} {t : Int} (h : timeOfDay? cs = some t) :
    0 ≤ t ∧ t < microsPerDay := by
  obtain ⟨c, hc, hfields⟩ := Option.bind_eq_some_iff.mp h
  rw [Option.ite_none_right_eq_some] at hfields
  obtain ⟨⟨hhour, hminute, hsecond⟩, ht⟩ := hfields
  cases ht
  have hmicro := clock?_micro_lt hc
  unfold Clock.micros microsPerDay
  omega

/-- **A `datetime` that is read can be written.** -/
theorem datetime?_inReach {cs : List Char} {wall : Int} {offset : Option Int}
    (h : datetime? cs = some (wall, offset)) : InReach wall := by
  have hday : (0 : Int) < microsPerDay := by decide
  have hordinal : ∀ {o t : Int}, 0 ≤ t → t < microsPerDay →
      ordinalOf (o * microsPerDay + t) = o := by
    intro o t ht ht'
    unfold ordinalOf
    rw [Int.add_comm, Int.add_mul_ediv_right _ _ (by omega), Int.ediv_eq_zero_of_lt ht ht',
      Int.zero_add]
  obtain ⟨⟨ordinal, rest⟩, hdate, hrest⟩ := Option.bind_eq_some_iff.mp h
  have hbounds := date?_bounds hdate
  split at hrest
  · rename_i heq
    cases heq
    cases hrest
    have hfirst := hordinal (o := ordinal) (le_refl 0) hday
    rw [Int.add_zero] at hfirst
    unfold InReach
    rwa [hfirst]
  · rename_i heq
    cases heq
    obtain ⟨t, ht, hzone⟩ := Option.bind_eq_some_iff.mp hrest
    obtain ⟨_, -, hpair⟩ := Option.map_eq_some_iff.mp hzone
    cases hpair
    obtain ⟨hlow, hhigh⟩ := timeOfDay?_bounds ht
    unfold InReach
    rwa [hordinal hlow hhigh]

/-- A date begins with four digits. -/
theorem of_date? {cs rest : List Char} {ordinal : Int} (h : date? cs = some (ordinal, rest)) :
    ∃ ds rest', cs = ds ++ rest' ∧ ds.length = 4 ∧ ∀ c ∈ ds, c.isDigit = true := by
  obtain ⟨⟨year, mid⟩, hyear, -⟩ := Option.bind_eq_some_iff.mp h
  obtain ⟨ds, rfl, hlength, hdigits, -⟩ := of_number? hyear
  exact ⟨ds, mid, rfl, hlength, hdigits⟩

/-- A date alone is no `datetime` with an offset. -/
theorem dateFromIso?_of_offset {cs : List Char} {wall offset : Int}
    (h : datetime? cs = some (wall, some offset)) : dateFromIso? cs = none := by
  obtain ⟨⟨ordinal, rest⟩, hdate, hrest⟩ := Option.bind_eq_some_iff.mp h
  unfold dateFromIso?
  rw [hdate]
  split at hrest
  · cases hrest
  · rename_i heq
    cases heq
    rfl

example : datetime? "2024-W03-1T10:30:15.25+02".toList =
    some (wallOf ⟨2024, 1, 15⟩ 10 30 + 15250000, some 7200000000) := by decide
example : dateFromIso? "2024-02-30".toList = none := by decide

end Apowerb.Schedule.Iso
