/-
# How often an accepted expression matches

`_check_cron_min_interval` looks at two of the five fields: the gaps between the listed minutes of
one hour, and, when several hours are listed, the gap from the last listed minute of an hour to the
first of the next.  The rule it stands for is about the wall clock: no two matching minutes are
closer than five minutes.

The bridge between the two is a count of minutes.  A whole wall-clock time is `60 h + m`, with `h`
counted over all days (`wall_eq`), so that hours, days, months and years all end the same way: by
`h` growing.  Within one `h` the listed minutes are spread out (`Spread`); from one `h` to a later
one the wrap-around gap bounds the distance when it was checked, and when it was not, a single hour
of the day is listed and the two times are on different days.
-/
import Apowerb.Lib.Except
import Apowerb.Schedule.Cron

namespace Apowerb.Schedule

/-! ## 1. Points spread out on a line -/

/-- Each point is at least `gap` after the ones before it. -/
def Spread (gap : Nat) (points : List Nat) : Prop :=
  points.Pairwise fun a b => a + gap ≤ b

/-- Gaps between neighbours are enough: they add up. -/
theorem spread_of_neighbours {gap : Nat} {points : List Nat}
    (h : ∀ p ∈ points.zip points.tail, p.1 + gap ≤ p.2) : Spread gap points := by
  induction points with
  | nil => exact List.Pairwise.nil
  | cons a rest ih =>
    cases rest with
    | nil => exact List.pairwise_singleton _ a
    | cons b rest =>
      have hab : a + gap ≤ b := h (a, b) (by simp)
      have hrest : Spread gap (b :: rest) := ih fun p hp => h p (by
        simp only [List.tail_cons, List.zip_cons_cons, List.mem_cons]
        exact Or.inr hp)
      refine List.pairwise_cons.mpr ⟨fun c hc => ?_, hrest⟩
      rcases List.mem_cons.mp hc with rfl | hc
      · exact hab
      · have hbc : b + gap ≤ c := (List.pairwise_cons.mp hrest).1 c hc
        omega

/-- Two points of a spread list are equal or `gap` apart. -/
theorem Spread.apart {gap : Nat} {points : List Nat} (h : Spread gap points) {a b : Nat}
    (ha : a ∈ points) (hb : b ∈ points) (hlt : a < b) : a + gap ≤ b := by
  induction h with
  | nil => simp at ha
  | @cons c rest hc _ ih =>
    rcases List.mem_cons.mp ha with rfl | ha'
    · rcases List.mem_cons.mp hb with rfl | hb'
      · omega
      · exact hc b hb'
    · rcases List.mem_cons.mp hb with rfl | hb'
      · have := hc a ha'
        omega
      · exact ih ha' hb'

/-- In a list in increasing order, the head is the least and the last the greatest. -/
theorem bounds_of_sorted {points : List Nat} (h : points.Pairwise (· < ·)) {first last v : Nat}
    (hfirst : points.head? = some first) (hlast : points.getLast? = some last)
    (hv : v ∈ points) : first ≤ v ∧ v ≤ last := by
  constructor
  · cases points with
    | nil => simp at hv
    | cons a rest =>
      obtain rfl : a = first := by simpa using hfirst
      rcases List.mem_cons.mp hv with rfl | hv
      · exact le_refl _
      · exact le_of_lt ((List.pairwise_cons.mp h).1 v hv)
  · obtain ⟨before, rfl⟩ := List.getLast?_eq_some_iff.mp hlast
    rcases List.mem_append.mp hv with hv | hv
    · exact le_of_lt ((List.pairwise_append.mp h).2.2 v hv last (by simp))
    · exact le_of_eq (List.mem_singleton.mp hv)

/-! ## 2. What the check guarantees -/

/-- The values of a parsed field are listed in increasing order: `sorted(fields["minute"])`. -/
theorem sorted_of_parseCronField {lo hi : Nat} {part : List Char} {field : CronField lo hi}
    (h : parseCronField lo hi part = .ok field) : field.values.Pairwise (· < ·) := by
  unfold parseCronField at h
  simp only [bind, Except.bind] at h
  split at h
  · cases h
  · obtain rfl := Except.ok.inj h
    exact List.pairwise_lt_range.filter _

theorem cronField_ok {name : String} {lo hi : Nat} {part : List Char} {field : CronField lo hi}
    (h : cronField name lo hi part = .ok field) : parseCronField lo hi part = .ok field := by
  unfold cronField at h
  split at h
  · rename_i hparsed
    rw [hparsed, ← Except.ok.inj h]
  · cases h

theorem sorted_of_parseCron {cron : String} {fields : CronFields}
    (h : parseCron cron = .ok fields) : fields.minute.values.Pairwise (· < ·) := by
  unfold parseCron at h
  split at h
  · obtain ⟨minute, hminute, h⟩ := Except.bind_eq_ok_iff.mp h
    obtain ⟨hour, -, h⟩ := Except.bind_eq_ok_iff.mp h
    obtain ⟨day, -, h⟩ := Except.bind_eq_ok_iff.mp h
    obtain ⟨month, -, h⟩ := Except.bind_eq_ok_iff.mp h
    obtain ⟨weekday, -, h⟩ := Except.bind_eq_ok_iff.mp h
    obtain rfl := Except.ok.inj h
    exact sorted_of_parseCronField (cronField_ok hminute)
  · cases h

theorem sorted_of_parseCronValue {cron : Value} {fields : CronFields}
    (h : parseCronValue cron = .ok fields) : fields.minute.values.Pairwise (· < ·) := by
  unfold parseCronValue at h
  split at h
  · exact sorted_of_parseCron h
  · cases h

/-- What acceptance says of the two fields: the listed minutes are spread out, and either one hour
at most is listed or the gap across an hour's end is wide enough too. -/
structure FewEnough (fields : CronFields) : Prop where
  spread : Spread minCronIntervalMinutes fields.minute.values
  across : fields.hour.values.length ≤ 1 ∨ ∀ a ∈ fields.minute.values,
    ∀ b ∈ fields.minute.values, a + minCronIntervalMinutes ≤ b + 60

/-- An accepted expression has no narrow gap among those the check lists. -/
theorem gaps_of_accepted {cron : Value} {fields : CronFields}
    (hfields : parseCronValue cron = .ok fields) (haccepted : checkCronMinInterval cron = .ok ()) :
    ∃ first last, fields.minute.values.head? = some first ∧
      fields.minute.values.getLast? = some last ∧
      (∀ p ∈ fields.minute.values.zip fields.minute.values.tail,
        minCronIntervalMinutes ≤ p.2 - p.1) ∧
      (1 < fields.hour.values.length → minCronIntervalMinutes ≤ 60 - last + first) := by
  unfold checkCronMinInterval at haccepted
  simp only [hfields, bind, Except.bind] at haccepted
  split at haccepted
  case h_2 => cases haccepted
  case h_1 first last hfirst hlast =>
    refine ⟨first, last, hfirst, hlast, ?_⟩
    by_cases hmany : 1 < fields.hour.values.length
    · simp only [gt_iff_lt, if_pos hmany] at haccepted
      split at haccepted
      · cases haccepted
      · rename_i hgaps
        simp only [List.any_eq_true, decide_eq_true_eq, not_exists, not_and, Nat.not_lt] at hgaps
        refine ⟨fun p hp => hgaps _ ?_, fun _ => hgaps _ ?_⟩
        · exact List.mem_append_left _ (List.mem_map.mpr ⟨p, hp, rfl⟩)
        · exact List.mem_append_right _ (List.mem_singleton.mpr rfl)
    · simp only [gt_iff_lt, if_neg hmany] at haccepted
      split at haccepted
      · cases haccepted
      · rename_i hgaps
        simp only [List.any_eq_true, decide_eq_true_eq, not_exists, not_and, Nat.not_lt] at hgaps
        exact ⟨fun p hp => hgaps _ (List.mem_map.mpr ⟨p, hp, rfl⟩), fun h => absurd h hmany⟩

theorem fewEnough_of_accepted {cron : Value} {fields : CronFields}
    (hfields : parseCronValue cron = .ok fields) (haccepted : checkCronMinInterval cron = .ok ()) :
    FewEnough fields := by
  have hsorted := sorted_of_parseCronValue hfields
  obtain ⟨first, last, hfirst, hlast, hgaps, hwrap⟩ := gaps_of_accepted hfields haccepted
  constructor
  · refine spread_of_neighbours fun p hp => ?_
    have hgap := hgaps p hp
    unfold minCronIntervalMinutes at hgap ⊢
    omega
  · rcases Nat.lt_or_ge 1 fields.hour.values.length with hmany | hone
    · right
      intro a ha b hb
      have hgap := hwrap hmany
      have := bounds_of_sorted hsorted hfirst hlast ha
      have := bounds_of_sorted hsorted hfirst hlast hb
      have := fields.minute.bounded last (List.mem_of_getLast? hlast)
      unfold minCronIntervalMinutes at hgap ⊢
      omega
    · exact Or.inl hone

/-! ## 3. The wall clock in minutes -/

/-- The hours of the wall clock, counted over all days. -/
def hourCount (wall : Int) : Int := ordinalOf wall * 24 + hourOf wall

/-- A whole minute is its count of hours and its minute in the hour. -/
theorem wall_eq {wall : Int} (hwhole : wall % microsPerMinute = 0) :
    wall = (60 * hourCount wall + minuteOf wall) * microsPerMinute := by
  unfold hourCount hourOf minuteOf minuteOfDay ordinalOf microsPerDay microsPerMinute at *
  omega

theorem CronField.mem_of_has {lo hi : Nat} {field : CronField lo hi} {v : Int}
    (h : field.has v = true) : ∃ n ∈ field.values, (n : Int) = v := by
  obtain ⟨n, hn, hv⟩ := List.any_eq_true.mp h
  exact ⟨n, hn, by simpa using hv⟩

/-- A field of one value at most has one answer. -/
theorem CronField.eq_of_has {lo hi : Nat} {field : CronField lo hi}
    (hone : field.values.length ≤ 1) {v v' : Int} (h : field.has v = true)
    (h' : field.has v' = true) : v = v' := by
  obtain ⟨n, hn, rfl⟩ := CronField.mem_of_has h
  obtain ⟨n', hn', rfl⟩ := CronField.mem_of_has h'
  match hvalues : field.values with
  | [] => simp [hvalues] at hn
  | [m] =>
    rw [hvalues, List.mem_singleton] at hn hn'
    rw [hn, hn']
  | _ :: _ :: _ => simp [hvalues] at hone

/-- The later of two matching minutes comes at least the minimal interval after the earlier. -/
theorem apart_of_fewEnough {fields : CronFields} (hfew : FewEnough fields) {wall wall' : Int}
    (h : Matches fields wall) (h' : Matches fields wall') (hlt : wall < wall') :
    wall + minCronIntervalMinutes * microsPerMinute ≤ wall' := by
  obtain ⟨m, hm, hmv⟩ := CronField.mem_of_has h.minute
  obtain ⟨m', hm', hmv'⟩ := CronField.mem_of_has h'.minute
  have hw := wall_eq h.whole
  have hw' := wall_eq h'.whole
  have hbound := (fields.minute.bounded m hm).2
  have hbound' := (fields.minute.bounded m' hm').2
  rw [← hmv] at hw
  rw [← hmv'] at hw'
  -- Which of the two times has the greater count of hours decides which gap is in play.
  rcases lt_trichotomy (hourCount wall) (hourCount wall') with hhours | hhours | hhours
  · rcases hfew.across with hone | hwrap
    · have hhour := CronField.eq_of_has hone h.hour h'.hour
      unfold hourCount at *
      unfold minCronIntervalMinutes microsPerMinute at *
      omega
    · have := hwrap m hm m' hm'
      unfold minCronIntervalMinutes microsPerMinute at *
      omega
  · have hmlt : m < m' := by
      unfold microsPerMinute at *
      omega
    have := hfew.spread.apart hm hm' hmlt
    unfold minCronIntervalMinutes microsPerMinute at *
    omega
  · unfold microsPerMinute at *
    omega

/-! ## 4. The check is sound -/

/-- **An expression that passes the interval check never matches twice within five minutes**: any
two distinct minutes that the scheduler's test accepts are at least that far apart on the wall
clock. -/
theorem checkCronMinInterval_apart {cron : Value} {fields : CronFields}
    (haccepted : checkCronMinInterval cron = .ok ()) (hfields : parseCronValue cron = .ok fields)
    {wall wall' : Int} (hwhole : wall % microsPerMinute = 0)
    (hwhole' : wall' % microsPerMinute = 0) (hmatch : candidateOk fields wall = true)
    (hmatch' : candidateOk fields wall' = true) (hne : wall ≠ wall') :
    5 * microsPerMinute ≤ |wall - wall'| := by
  have hfew := fewEnough_of_accepted hfields haccepted
  have h := (candidateOk_iff fields hwhole).mp hmatch
  have h' := (candidateOk_iff fields hwhole').mp hmatch'
  rcases lt_or_gt_of_ne hne with hlt | hlt
  · have hapart : wall + 5 * microsPerMinute ≤ wall' := apart_of_fewEnough hfew h h' hlt
    rw [abs_of_neg (by omega)]
    omega
  · have hapart : wall' + 5 * microsPerMinute ≤ wall := apart_of_fewEnough hfew h' h hlt
    rw [abs_of_pos (by omega)]
    omega

/-- At the end of a year: the last listed minute of 31 December and the first of 1 January. -/
theorem checkCronMinInterval_apart_newYear :
    ∃ fields, parseCronValue (.str "0,55 0,23 * * *") = .ok fields ∧
      5 * microsPerMinute ≤ |wallOf ⟨2025, 12, 31⟩ 23 55 - wallOf ⟨2026, 1, 1⟩ 0 0| := by
  have haccepted : checkCronMinInterval (.str "0,55 0,23 * * *") = .ok () := by decide +kernel
  have hparsed : ∃ fields, parseCronValue (.str "0,55 0,23 * * *") = .ok fields ∧
      candidateOk fields (wallOf ⟨2025, 12, 31⟩ 23 55) = true ∧
      candidateOk fields (wallOf ⟨2026, 1, 1⟩ 0 0) = true :=
    ⟨_, rfl, by decide +kernel, by decide +kernel⟩
  obtain ⟨fields, hfields, hlast, hfirst⟩ := hparsed
  exact ⟨fields, hfields, checkCronMinInterval_apart haccepted hfields (by decide +kernel)
    (by decide +kernel) hlast hfirst (by decide +kernel)⟩

end Apowerb.Schedule
