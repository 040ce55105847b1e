/-
# A range of days

`_resolve_range` turns two days into an exclusive lower and an inclusive upper instant, and
`apply_filters` compares the instants of the rows with them.

**What is cut off is not the days.**  The lower bound is a day before the first day, and not the
instant before it, so that the day before is kept but for its midnight; the upper bound is a
microsecond before the last day ends, while a row is counted in nanoseconds.  A day that no time
stamp can hold is dropped from the range, and a bound that no time stamp can hold raises.

* `range_keeps_days_iff`: the frames and the ranges on which the rows kept are those of the days.
-/
import Apowerb.Bi.Filters

namespace Apowerb.Bi.Filters

variable {F : Type}

/-! ## 1. Days -/

/-- The calendar day of an instant, counted from that of the epoch. -/
def dayOf (t : Int) : Int := t / nanosPerDay

def midnight (day : Int) : Int := day * nanosPerDay

/-- The midnight of a day, where a time stamp can hold it. -/
def stamp? (day : Int) : Option Int :=
  if inTimestamp (midnight day) then some (midnight day) else none

/-- An end of a range that names a day, or none. -/
def Names (P : Pandas F) (stop : Option (Scalar F)) : Option Int → Prop
  | none => stop.all Scalar.isAll = true
  | some day => ∃ v, stop = some v ∧ v.isAll = false ∧ P.toDatetime v = stamp? day

/-- The day of a row is in the range.  A row without a date is in no range of days; where neither
end is there, there is none to be in. -/
def inDays (start stop : Option Int) : Option Int → Bool
  | none => start.isNone && stop.isNone
  | some t => start.all (· ≤ dayOf t) && stop.all (dayOf t ≤ ·)

/-! ## 2. Where the range is right -/

/-- An instant and the first day: it is not of the day before, other than at midnight; and if the
day was dropped, it is of none before it. -/
def FairLo (t : Int) : Option Int → Prop
  | none => True
  | some first =>
    if (stamp? first).isSome then dayOf t = first - 1 → t = midnight (dayOf t)
    else first ≤ dayOf t

/-- An instant and the last day: it is not of the last nanoseconds of that day; and if the day was
dropped, it is of none after it. -/
def FairHi (t : Int) : Option Int → Prop
  | none => True
  | some last =>
    if (stamp? last).isSome then dayOf t = last → t + nanosPerMicro ≤ midnight (last + 1)
    else dayOf t ≤ last

/-- A row on which the bounds and the days agree.  A row without a date is kept only where both
ends are dropped. -/
def FairAt (start stop : Option Int) : Option Int → Prop
  | none => start.bind stamp? = none → stop.bind stamp? = none → start = none ∧ stop = none
  | some t => FairLo t start ∧ FairHi t stop

/-- The bounds of the range are time stamps. -/
def Bounded (start stop : Option Int) : Prop :=
  (∀ t, start.bind stamp? = some t → inTimestamp (t - nanosPerDay) = true) ∧
  ∀ t, stop.bind stamp? = some t → inTimestamp (t + nanosPerDay) = true

theorem toTs_of_names {P : Pandas F} {v : Option (Scalar F)} {day : Option Int}
    (h : Names P v day) : toTs P v = day.bind stamp? := by
  cases day with
  | none =>
    cases v with
    | none => rfl
    | some w =>
      have hall : w.isAll = true := h
      simp [toTs, hall]
  | some d =>
    obtain ⟨w, rfl, hall, hdate⟩ := h
    simp [toTs, hall, hdate]

theorem stamp?_eq_some {day t : Int} :
    stamp? day = some t ↔ inTimestamp (midnight day) = true ∧ t = midnight day := by
  unfold stamp?
  split
  · simp [*, eq_comm]
  · simp [*]

/-! ## 3. The bounds and the days -/

/-- The lower bound at an instant, against the first day. -/
def loKeeps (t : Int) (start : Option Int) : Bool :=
  ((start.bind stamp?).map (· - nanosPerDay)).all (· < t)

/-- The upper bound at an instant, against the last day. -/
def hiKeeps (t : Int) (stop : Option Int) : Bool :=
  ((stop.bind stamp?).map (· + nanosPerDay - nanosPerMicro)).all (t ≤ ·)

theorem loKeeps_some (t first : Int) : loKeeps t (some first) =
    if (stamp? first).isSome then decide (midnight first - nanosPerDay < t) else true := by
  unfold loKeeps stamp?
  by_cases h : inTimestamp (midnight first) <;> simp [h]

theorem hiKeeps_some (t last : Int) : hiKeeps t (some last) =
    if (stamp? last).isSome then decide (t ≤ midnight last + nanosPerDay - nanosPerMicro)
    else true := by
  unfold hiKeeps stamp?
  by_cases h : inTimestamp (midnight last) <;> simp [h]

/-- The lower bound keeps more than the days, and no more than that where it is fair. -/
theorem loKeeps_iff (t : Int) (start : Option Int) :
    loKeeps t start = start.all (· ≤ dayOf t) ↔ FairLo t start := by
  cases start with
  | none => simp [loKeeps, FairLo]
  | some first =>
    rw [loKeeps_some]
    simp only [FairLo, Option.all_some]
    split
    · rw [decide_eq_decide]
      simp only [dayOf, midnight, nanosPerDay]
      omega
    · simp

/-- The upper bound keeps less than the day where it is a time stamp, and all where it is not. -/
theorem hiKeeps_iff (t : Int) (stop : Option Int) :
    hiKeeps t stop = stop.all (dayOf t ≤ ·) ↔ FairHi t stop := by
  cases stop with
  | none => simp [hiKeeps, FairHi]
  | some last =>
    rw [hiKeeps_some]
    simp only [FairHi, Option.all_some]
    split
    · rw [decide_eq_decide]
      simp only [dayOf, midnight, nanosPerDay, nanosPerMicro]
      omega
    · simp

/-- An instant that only the lower bound keeps is before the first day, where the upper bound
keeps all. -/
theorem hiKeeps_of_early {t first : Int} {stop : Option Int} (hearly : dayOf t < first)
    (horder : ∀ last, stop = some last → first ≤ last) : hiKeeps t stop = true := by
  cases stop with
  | none => rfl
  | some last =>
    have hle := horder last rfl
    rw [hiKeeps_some]
    split
    · rw [decide_eq_true_eq]
      simp only [dayOf, midnight, nanosPerDay, nanosPerMicro] at *
      omega
    · rfl

/-- An instant on which the upper bound is wrong is of the last day or later, which the first day
is not after. -/
theorem start_of_unfair {t last : Int} {start : Option Int} (hunfair : ¬ FairHi t (some last))
    (horder : ∀ first, start = some first → first ≤ last) :
    start.all (· ≤ dayOf t) = true := by
  have hlate : last ≤ dayOf t := by
    simp only [FairHi] at hunfair
    split at hunfair
    · exact Int.le_of_eq (Classical.not_imp.mp hunfair).1.symm
    · omega
  cases start with
  | none => rfl
  | some first =>
    have hle := horder first rfl
    simp only [Option.all_some, decide_eq_true_eq]
    omega

/-- The two bounds keep what is in the days exactly where both are fair: where one is wrong, the
other agrees with the days, since the range is in order. -/
theorem keeps_iff {t : Int} {start stop : Option Int}
    (horder : ∀ first last, start = some first → stop = some last → first ≤ last) :
    (loKeeps t start && hiKeeps t stop) =
        (start.all (· ≤ dayOf t) && stop.all (dayOf t ≤ ·)) ↔
      FairLo t start ∧ FairHi t stop := by
  constructor
  · intro heq
    have hlo : FairLo t start := by
      by_contra hunfair
      cases start with
      | none => exact hunfair trivial
      | some first =>
        have hearly : dayOf t < first := by
          by_contra hge
          apply hunfair
          rw [← loKeeps_iff, loKeeps_some]
          simp only [Option.all_some]
          have hfirst : first ≤ dayOf t := Int.not_lt.mp hge
          split
          · rw [decide_eq_decide]
            simp only [dayOf, midnight, nanosPerDay] at *
            omega
          · simpa using hge
        have hkept : loKeeps t (some first) = true := by
          by_contra hnot
          apply hunfair
          rw [← loKeeps_iff]
          simp only [Bool.not_eq_true] at hnot
          simpa [hnot] using hearly
        rw [hkept, hiKeeps_of_early hearly fun last hlast => horder first last rfl hlast] at heq
        simp only [Option.all_some, Bool.true_and] at heq
        have hin := (Bool.and_eq_true_iff.mp heq.symm).1
        simp only [decide_eq_true_eq] at hin
        omega
    refine ⟨hlo, ?_⟩
    by_contra hunfair
    cases stop with
    | none => exact hunfair trivial
    | some last =>
      have hstart := start_of_unfair hunfair fun first hfirst => horder first last hfirst rfl
      rw [(loKeeps_iff t start).mpr hlo, hstart, Bool.true_and, Bool.true_and] at heq
      exact hunfair ((hiKeeps_iff t _).mp heq)
  · rintro ⟨hlo, hhi⟩
    rw [(loKeeps_iff t start).mpr hlo, (hiKeeps_iff t stop).mpr hhi]

/-- At a row, what the resolved bounds keep is what is in the days exactly where it is fair. -/
theorem within_iff {start stop date : Option Int}
    (horder : ∀ first last, start = some first → stop = some last → first ≤ last) :
    within ((start.bind stamp?).map (· - nanosPerDay))
        ((stop.bind stamp?).map (· + nanosPerDay - nanosPerMicro)) date =
      inDays start stop date ↔ FairAt start stop date := by
  cases date with
  | some t => exact keeps_iff horder
  | none =>
    cases hlo : start.bind stamp? <;> cases hhi : stop.bind stamp? <;>
      cases start <;> cases stop <;> simp_all [within, inDays, FairAt]

/-! ## 4. The rows kept -/

theorem mapM_lower {lo r : Option Int} :
    (lo.mapM fun t => shift t (-nanosPerDay)) = .ok r ↔
      (∀ t, lo = some t → inTimestamp (t - nanosPerDay) = true) ∧ lo.map (· - nanosPerDay) = r := by
  cases lo with
  | none => exact ⟨fun h => ⟨nofun, Except.ok.inj h⟩, fun h => congrArg Except.ok h.2⟩
  | some t =>
    simp only [Option.mapM_some, Except.map_eq_ok_iff, shift_eq_ok_iff, ← Int.sub_eq_add_neg,
      Option.some.injEq, forall_eq', Option.map_some]
    exact ⟨fun ⟨_, ⟨hin, ht⟩, hr⟩ => ⟨hin, ht ▸ hr⟩, fun ⟨hin, hr⟩ => ⟨_, ⟨hin, rfl⟩, hr⟩⟩

/-- A microsecond before the next midnight is a time stamp where both midnights are. -/
theorem mapM_upper {hi r : Option Int} (hin : ∀ t, hi = some t → inTimestamp t = true) :
    (hi.mapM fun t => do shift (← shift t nanosPerDay) (-nanosPerMicro)) = .ok r ↔
      (∀ t, hi = some t → inTimestamp (t + nanosPerDay) = true) ∧
        hi.map (· + nanosPerDay - nanosPerMicro) = r := by
  cases hi with
  | none => exact ⟨fun h => ⟨nofun, Except.ok.inj h⟩, fun h => congrArg Except.ok h.2⟩
  | some t =>
    have ht := hin t rfl
    simp only [Option.mapM_some, Except.map_eq_ok_iff, Except.bind_eq_ok_iff, shift_eq_ok_iff,
      ← Int.sub_eq_add_neg, Option.some.injEq, forall_eq', Option.map_some]
    constructor
    · rintro ⟨_, ⟨_, ⟨hnext, rfl⟩, _, rfl⟩, hr⟩
      exact ⟨hnext, hr⟩
    · rintro ⟨hnext, hr⟩
      refine ⟨_, ⟨_, ⟨hnext, rfl⟩, ?_, rfl⟩, hr⟩
      unfold inTimestamp at *
      rw [decide_eq_true_eq] at *
      unfold nanosPerDay nanosPerMicro at *
      omega

/-- What a range of days is resolved to. -/
theorem resolveRange_eq_ok {P : Pandas F} {spec : FilterSpec F} {raw : Raw F}
    {sources : List String} {start stop : Option Int} {flt : ActiveFilter F}
    (hstart : Names P raw.ends.1 start) (hstop : Names P raw.ends.2 stop) :
    resolveRange P spec raw sources = .ok flt ↔
      Bounded start stop ∧ flt =
        ⟨spec, if start.bind stamp? = none ∧ stop.bind stamp? = none then .nothing
            else .span raw.ends.1 raw.ends.2,
          (start.bind stamp?).map (· - nanosPerDay),
          (stop.bind stamp?).map (· + nanosPerDay - nanosPerMicro), sources⟩ := by
  have hin : ∀ t, stop.bind stamp? = some t → inTimestamp t = true := by
    intro t ht
    obtain ⟨day, _, hday⟩ := Option.bind_eq_some_iff.mp ht
    obtain ⟨hmid, rfl⟩ := stamp?_eq_some.mp hday
    exact hmid
  unfold resolveRange
  simp only [toTs_of_names hstart, toTs_of_names hstop, Except.bind_eq_ok_iff, mapM_lower,
    mapM_upper hin]
  constructor
  · rintro ⟨_, ⟨hlo, rfl⟩, _, ⟨hhi, rfl⟩, hflt⟩
    exact ⟨⟨hlo, hhi⟩, (Except.ok.inj hflt).symm⟩
  · rintro ⟨⟨hlo, hhi⟩, rfl⟩
    exact ⟨_, ⟨hlo, rfl⟩, _, ⟨hhi, rfl⟩, rfl⟩

/-- The mask of a range, whether it restricts or not. -/
theorem cut_range {P : Pandas F} {m : MatSource F} {flt : ActiveFilter F}
    (htype : flt.spec.type = .dateRange) (hin : m.name ∈ flt.sources) :
    cut P m flt = .ok fun row =>
      within flt.loExcl flt.hiIncl (dateOf P m.df flt.spec.field (row flt.spec.field)) := by
  have hperiod : flt.isPeriod = true := by simp [ActiveFilter.isPeriod, htype]
  unfold cut
  split
  · simp [part, hperiod]
  · next hnot =>
    have hnone : flt.loExcl = none ∧ flt.hiIncl = none := by
      simpa [hin, ActiveFilter.restricts, hperiod] using hnot
    simp [hnone, within]

/-- **The rows of a range of days are those of its days** exactly where its bounds are time stamps
and every row is fair: none is of the eve of the first day but at midnight, none of the last
nanoseconds of the last day, and no day that is too far off was dropped unseen. -/
theorem range_keeps_days_iff (P : Pandas F) (mats : List (MatSource F)) (m : MatSource F)
    (spec : FilterSpec F) (raw : Raw F) (start stop : Option Int) (hm : m ∈ mats)
    (htype : spec.type = .dateRange) (happlies : spec.appliesIn m = true)
    (hstart : Names P raw.ends.1 start) (hstop : Names P raw.ends.2 stop)
    (horder : ∀ first last, start = some first → stop = some last → first ≤ last) :
    Selects P mats m spec raw
        (fun row => inDays start stop (dateOf P m.df spec.field (row spec.field))) ↔
      Bounded start stop ∧
        ∀ row ∈ m.df.rows, FairAt start stop (dateOf P m.df spec.field (row spec.field)) := by
  have hsources : m.name ∈ (mats.filter spec.appliesIn).map (·.name) :=
    List.mem_map.mpr ⟨m, List.mem_filter.mpr ⟨hm, happlies⟩, rfl⟩
  rw [selects_iff]
  simp only [resolve, htype, List.lookup_cons_self, Option.getD_some,
    resolveRange_eq_ok hstart hstop]
  constructor
  · rintro ⟨flt, mask, ⟨hbounded, rfl⟩, hmask, hkeep⟩
    rw [cut_range htype hsources] at hmask
    cases hmask
    exact ⟨hbounded, fun row hrow => (within_iff horder).mp (hkeep row hrow)⟩
  · rintro ⟨hbounded, hfair⟩
    exact ⟨_, _, ⟨hbounded, rfl⟩, cut_range htype hsources,
      fun row hrow => (within_iff horder).mpr (hfair row hrow)⟩

/-! ## 5. A day of sales -/

/-- Orders of noon on 4 and on 5 March 2024. -/
def orders : MatSource Int where
  name := "orders"
  df := Frame.single "placed" .datetime
    [.value (.instant 1709553600000000000), .value (.instant 1709640000000000000)] (by decide)

def placedOn : FilterSpec Int := ⟨"days", "placed", .dateRange, .null, none⟩

/-- 5 March 2024, from and to. -/
def oneDay : Raw Int := .range (some (.text "2024-03-05")) (some (.text "2024-03-05"))

theorem stamp?_oneDay : stamp? 19787 = some 1709596800000000000 := by decide

theorem names_oneDay : Names wholePandas (some (.text "2024-03-05")) (some 19787) :=
  ⟨_, rfl, by decide, stamp?_oneDay.symm⟩

/-- The range of 5 March keeps the order of noon on the day before. -/
theorem range_keeps_eve : ¬ Selects wholePandas [orders] orders placedOn oneDay
    (fun row => inDays (some 19787) (some 19787)
      (dateOf wholePandas orders.df "placed" (row "placed"))) := by
  rintro ⟨active, out, hactive, hout, hrows⟩
  have hcount : (resolveFilters wholePandas [placedOn] [("days", oneDay)] [orders] >>= fun active =>
      applyFilters wholePandas orders active [] false >>= fun out =>
        .ok out.df.rows.length) = .ok 2 := by
    decide +kernel
  obtain ⟨_, hactive', hcount⟩ := Except.bind_eq_ok_iff.mp hcount
  obtain ⟨_, hout', hcount⟩ := Except.bind_eq_ok_iff.mp hcount
  cases hactive.symm.trans hactive'
  cases hout.symm.trans hout'
  have htwo := Except.ok.inj hcount
  rw [hrows] at htwo
  exact absurd htwo (by decide +kernel)

/-- Orders of midnight on 4 and of noon on 5 March 2024. -/
def fairOrders : MatSource Int where
  name := "orders"
  df := Frame.single "placed" .datetime
    [.value (.instant 1709510400000000000), .value (.instant 1709640000000000000)] (by decide)

/-- An order of midnight on the day before is left out, and that of the day is kept. -/
theorem range_keeps_fair : Selects wholePandas [fairOrders] fairOrders placedOn oneDay
    (fun row => inDays (some 19787) (some 19787)
      (dateOf wholePandas fairOrders.df "placed" (row "placed"))) := by
  refine (range_keeps_days_iff wholePandas [fairOrders] fairOrders placedOn oneDay (some 19787)
    (some 19787) (List.mem_singleton.mpr rfl) rfl (by decide) names_oneDay names_oneDay ?_).mpr
    ⟨⟨?_, ?_⟩, ?_⟩
  · intro first last hfirst hlast
    cases hfirst
    cases hlast
    exact Int.le_refl _
  · intro t ht
    rw [Option.bind_some, stamp?_oneDay] at ht
    cases ht
    decide
  · intro t ht
    rw [Option.bind_some, stamp?_oneDay] at ht
    cases ht
    decide
  · intro row hrow
    simp only [fairOrders, Frame.single, List.map_cons, List.map_nil, List.mem_cons,
      List.not_mem_nil, or_false] at hrow
    rcases hrow with rfl | rfl
    · exact ⟨fun _ => by decide, fun h => absurd h (by decide)⟩
    · exact ⟨fun h => absurd h (by decide), fun _ => by decide⟩

end Apowerb.Bi.Filters
