/-
# The tracking of forecasts

`bi/forecast_tracking.py`: `compute_tracking` compares what was observed since with what the earlier
forecasts, kept as snapshots, had foreseen for the same dates: how often the observed value lies in
the band of each level of confidence, how large the errors are, and which points lie outside a band.

* `computeTracking_iff`: it returns, and what it returns is sound, exactly when no point can be
  compared, or some compared point has a band and the level of each band is a number.

The widest and the narrowest level are taken from a list that is empty where no compared point has
both bounds; the rest holds of every input.

A number is exact, where the code has a `float`; nan and the infinities are left out, and so is a
bound that is neither a number nor null.  The dates are of any ordered type: of ISO texts the order
is that of the days.  Levels that are the same number keep their first order.
-/
import Mathlib.Data.List.MinMax
import Mathlib.Data.Rat.Floor
import Mathlib.Data.String.Basic
import Apowerb.Lib.Except
import Apowerb.Raised
import Apowerb.Text

namespace Apowerb.Bi.Tracking

/-! ## 1. The data -/

/-- A point of a history, of a forecast or of a scenario: `none` for a value that is not a number,
and the other numbers under their keys, `none` for a null. -/
structure Point (D : Type) where
  date : Option D
  value : Option ℚ
  bounds : List (String × Option ℚ)

/-- `point.get(key)`. -/
def Point.bound {D : Type} (point : Point D) (key : String) : Option ℚ :=
  (point.bounds.lookup key).join

structure Scenario (D : Type) where
  name : Option String
  forecast : List (Point D)

/-- A series: of a response, with its history, or of a snapshot. -/
structure Series (D G : Type) where
  group : G
  level : G
  history : List (Point D)
  forecast : List (Point D)
  scenarios : List (Scenario D)

structure Snapshot (D G : Type) where
  configHash : String
  historyEnd : D
  series : List (Series D G)

/-- An event, the groups it is about as texts, none for all. -/
structure Event (D : Type) where
  name : Option String
  groups : List String
  ranges : List (Option D × Option D)

section

variable {D G : Type} [LinearOrder D] [DecidableEq G]

/-- `_series_key`. -/
def Series.key (s : Series D G) : G × G := (s.group, s.level)

/-! ## 2. What is compared -/

/-- The most recent snapshot whose history ends before a date. -/
def latestBefore (relevant : List (Snapshot D G)) (date : D) : Option (Snapshot D G) :=
  (relevant.filter fun snap => snap.historyEnd < date).argmax Snapshot.historyEnd

/-- `_forecast_point`. -/
def Snapshot.forecastPoint (snap : Snapshot D G) (key : G × G) (date : D) : Option (Point D) :=
  ((snap.series.filter fun s => s.key = key).flatMap Series.forecast).find? fun point =>
    point.date = some date

/-- A point observed and the one foreseen for it, with its value. -/
structure Comparison (D G : Type) where
  key : G × G
  date : D
  actual : ℚ
  point : Point D
  value : ℚ

/-- The points of a history that have a date and a number. -/
def Series.observed (s : Series D G) : List (D × ℚ) :=
  s.history.filterMap fun point =>
    point.date.bind fun date => point.value.map fun value => (date, value)

/-- A point of a history against the snapshots. -/
def compare (pick : D → Option (Snapshot D G)) (key : G × G) (observed : D × ℚ) :
    Option (Comparison D G) :=
  (pick observed.1).bind fun snap =>
    (snap.forecastPoint key observed.1).bind fun point =>
      point.value.map fun value => ⟨key, observed.1, observed.2, point, value⟩

/-- `comparisons`, in the order of the series and their histories. -/
def comparisons (series : List (Series D G)) (pick : D → Option (Snapshot D G)) :
    List (Comparison D G) :=
  series.flatMap fun s => s.observed.filterMap (compare pick s.key)

/-! ## 3. The levels and their bands -/

/-- The levels whose band a point has: a lower key, and an upper bound. -/
def Point.levels (point : Point D) : List String :=
  point.bounds.filterMap fun entry =>
    ((Text.afterWord "lower_" entry.1.toList).map String.ofList).filter fun level =>
      (point.bound ("upper_" ++ level)).isSome

/-- `float(level)`, which may be refused. -/
def levelValue (float? : String → Option ℚ) (level : String) : Except Raised (ℚ × String) :=
  match float? level with
  | some x => .ok (x, level)
  | none => .error (.other "ValueError")

/-- `_confidence_levels`: from the narrowest to the widest. -/
def confidenceLevels (float? : String → Option ℚ) (compared : List (Comparison D G)) :
    Except Raised (List String) :=
  (fun keyed => (keyed.insertionSort fun a b => a.1 ≤ b.1).map (·.2)) <$>
    (compared.flatMap fun c => c.point.levels).dedup.mapM (levelValue float?)

/-- The bounds of a level, where the point has both. -/
def Point.band (point : Point D) (level : String) : Option (ℚ × ℚ) :=
  (point.bound ("lower_" ++ level)).bind fun lower =>
    (point.bound ("upper_" ++ level)).map fun upper => (lower, upper)

/-- `round(x)` on integers: to the even one of two that are as near. -/
def roundEven (x : ℚ) : ℤ :=
  let whole := ⌊x⌋
  if x - whole < 1 / 2 then whole
  else if 1 / 2 < x - whole then whole + 1
  else if whole % 2 = 0 then whole else whole + 1

/-- `round(x, digits)`. -/
def roundTo (digits : Nat) (x : ℚ) : ℚ := roundEven (x * 10 ^ digits) / 10 ^ digits

/-- The part of the points with a band of a level whose value it holds. -/
def levelCoverage (compared : List (Comparison D G)) (level : String) : Option (String × ℚ) :=
  let scoreable := compared.filterMap fun c => (c.point.band level).map fun band => (c.actual, band)
  let hits := scoreable.countP fun x => x.2.1 ≤ x.1 && x.1 ≤ x.2.2
  if scoreable = [] then none
  else some (level, roundTo 4 ((hits : ℚ) / scoreable.length))

/-- `coverage`. -/
def coverage (compared : List (Comparison D G)) (levels : List String) : List (String × ℚ) :=
  levels.filterMap (levelCoverage compared)

end

section

variable {D G : Type} [LinearOrder D] [DecidableEq G]

/-! ## 4. The errors -/

/-- The mean of numbers, zero of none. -/
def mean (xs : List ℚ) : ℚ := xs.sum / xs.length

/-- The mean change from one date of a history to the next. -/
def naiveError (history : List (D × ℚ)) : ℚ :=
  let values := (history.insertionSort fun a b => a.1 ≤ b.1).map (·.2)
  mean ((values.zip values.tail).map fun pair => |pair.2 - pair.1|)

/-- `history_by_key.get(key, [])`: the last series of the key. -/
def historyOf (series : List (Series D G)) (key : G × G) : List (D × ℚ) :=
  ((series.filter fun s => s.key = key).getLast?.map Series.observed).getD []

/-- `mase`. -/
def mase (series : List (Series D G)) (compared : List (Comparison D G)) : Option ℚ :=
  let perSeries := (compared.map Comparison.key).dedup.filterMap fun key =>
    let errors := (compared.filter fun c => c.key = key).map fun c => |c.actual - c.value|
    let naive := naiveError (historyOf series key)
    if 0 < naive then some (mean errors / naive) else none
  if perSeries = [] then none else some (roundTo 4 (mean perSeries))

/-! ## 5. The breaches -/

/-- A point outside a band. -/
structure Breach (D G : Type) where
  key : G × G
  date : D
  actual : ℚ
  value : ℚ
  lower : ℚ
  upper : ℚ
  level : String
deriving DecidableEq

/-- `direction`: above the band, or below. -/
def Breach.above (breach : Breach D G) : Bool := breach.upper < breach.actual

/-- A point outside the band of a level. -/
def Comparison.outside (c : Comparison D G) (level : String) : Option (Breach D G) :=
  (c.point.band level).bind fun band =>
    if band.1 ≤ c.actual ∧ c.actual ≤ band.2 then none
    else some ⟨c.key, c.date, c.actual, c.value, band.1, band.2, level⟩

/-- A point outside the widest band, else outside the narrowest. -/
def Comparison.breach (c : Comparison D G) (widest narrowest : String) : Option (Breach D G) :=
  (c.outside widest).or (if widest ≠ narrowest then c.outside narrowest else none)

inductive Kind
  | event
  | commonShock
  | levelShift
  | spike
deriving DecidableEq, Repr

structure Explanation where
  kind : Kind
  magnitude : ℚ
  consecutive : Nat
  event : Option String
deriving DecidableEq

/-- The length of the run of breaches in one direction that ends with each of them. -/
def runs : Option Bool → Nat → List (Breach D G × Nat) → List (Nat × Nat)
  | _, _, [] => []
  | last, run, (breach, i) :: rest =>
    let run := if last = some breach.above then run + 1 else 1
    (i, run) :: runs (some breach.above) run rest

/-- `consecutive_by_id`: among the breaches of the same series, by date. -/
def consecutive (breaches : List (Breach D G)) (key : G × G) (i : Nat) : Nat :=
  let ordered := (breaches.zipIdx.filter fun x => x.1.key = key).insertionSort fun a b =>
    a.1.date ≤ b.1.date
  ((runs none 0 ordered).lookup i).getD 0

/-- `_event_covers`. -/
def Event.covers (str : G → String) (event : Event D) (group : G) (date : D) : Bool :=
  (event.groups.isEmpty || event.groups.contains (str group)) &&
    event.ranges.any fun range =>
      match range with
      | (some first, some last) => first ≤ date && date ≤ last
      | _ => false

/-- `_matching_event_name`. -/
def matchingEventName (str : G → String) (events : List (Event D)) (group : G) (date : D) :
    Option String :=
  ((events.find? fun event => event.covers str group date).map Event.name).join

/-- `_annotate_explanations`, for one breach of the list. -/
def explanation (str : G → String) (events : List (Event D)) (breaches : List (Breach D G))
    (breach : Breach D G) (i : Nat) : Explanation :=
  let half := if breach.above then breach.upper - breach.value else breach.value - breach.lower
  let overshoot :=
    if breach.above then breach.actual - breach.upper else breach.lower - breach.actual
  let run := consecutive breaches breach.key i
  let others := ((breaches.filter fun b =>
    b.date = breach.date ∧ b.above = breach.above ∧ b.key ≠ breach.key).map Breach.key).dedup
  let name := matchingEventName str events breach.key.1 breach.date
  let kind :=
    if name.isSome then .event
    else if 2 ≤ others.length then .commonShock
    else if 2 ≤ run then .levelShift
    else .spike
  ⟨kind, if 0 < half then roundTo 2 (overshoot / half) else 0, run, name⟩

/-! ## 6. The scenarios -/

/-- `_scenario_forecast_point`. -/
def Snapshot.scenarioPoint (snap : Snapshot D G) (key : G × G) (name : Option String) (date : D) :
    Option (Point D) :=
  ((snap.series.filter fun s => s.key = key).flatMap fun s =>
    (s.scenarios.filter fun scenario => scenario.name = name).flatMap Scenario.forecast).find?
      fun point => point.date = some date

structure Adjustment where
  name : Option String
  points : Nat
  maeBase : ℚ
  maeScenario : ℚ
deriving DecidableEq

/-- What the scenarios of the snapshot of a comparison foresaw: under the name of each, what was
observed, the forecast and the scenario. -/
def scenarioValues (pick : D → Option (Snapshot D G)) (c : Comparison D G) :
    List (Option String × ℚ × ℚ × ℚ) :=
  match pick c.date with
  | none => []
  | some snap =>
    ((snap.series.filter fun s => s.key = c.key).flatMap Series.scenarios).filterMap fun scenario =>
      ((snap.scenarioPoint c.key scenario.name c.date).bind Point.value).map fun value =>
        (scenario.name, c.actual, c.value, value)

/-- `_compute_adjustments`. -/
def adjustments (pick : D → Option (Snapshot D G)) (compared : List (Comparison D G)) :
    List Adjustment :=
  let values := compared.flatMap (scenarioValues pick)
  (values.map (·.1)).reverse.dedup.reverse.map fun name =>
    let triples := (values.filter fun v => v.1 = name).map (·.2)
    ⟨name, triples.length, roundTo 2 (mean (triples.map fun t => |t.1 - t.2.1|)),
      roundTo 2 (mean (triples.map fun t => |t.1 - t.2.2|))⟩

/-! ## 7. The tracking -/

/-- The field `tracking` of the response. -/
structure Report (D G : Type) where
  points : Nat
  since : Option D
  coverage : List (String × ℚ)
  mase : Option ℚ
  breaches : List (Breach D G × Explanation)
  latestBreach : Bool
  adjustments : List Adjustment

/-- `empty`. -/
def Report.empty : Report D G := ⟨0, none, [], none, [], false, []⟩

/-- `_MAX_BREACHES`. -/
def maxBreaches : Nat := 20

/-- What is made of the comparisons, with the levels of their bands. -/
def track (str : G → String) (events : List (Event D)) (series : List (Series D G))
    (pick : D → Option (Snapshot D G)) (compared : List (Comparison D G)) (levels : List String)
    (widest narrowest : String) : Report D G :=
  let breaches := compared.filterMap fun c => c.breach widest narrowest
  let explained := breaches.zipIdx.map fun x =>
    (x.1, explanation str events breaches x.1 x.2)
  let latest := (compared.map Comparison.date).max?
  { points := compared.length
    since := (compared.map Comparison.date).min?
    coverage := coverage compared levels
    mase := mase series compared
    breaches := (explained.insertionSort fun a b => b.1.date ≤ a.1.date).take maxBreaches
    latestBreach := breaches.any fun b => some b.date = latest
    adjustments := adjustments pick compared }

/-- The snapshots of a configuration. -/
def relevantTo (configHash : String) (snapshots : List (Snapshot D G)) : List (Snapshot D G) :=
  snapshots.filter fun s => s.configHash = configHash

/-- The points that are compared. -/
def comparedTo (series : List (Series D G)) (snapshots : List (Snapshot D G))
    (configHash : String) : List (Comparison D G) :=
  comparisons series (latestBefore (relevantTo configHash snapshots))

/-- `compute_tracking`. -/
def computeTracking (float? : String → Option ℚ) (str : G → String) (series : List (Series D G))
    (snapshots : List (Snapshot D G)) (configHash : String) (events : List (Event D)) :
    Except Raised (Report D G) :=
  if relevantTo configHash snapshots = [] then .ok .empty
  else if comparedTo series snapshots configHash = [] then .ok .empty
  else (confidenceLevels float? (comparedTo series snapshots configHash)).bind fun levels =>
    match levels.getLast?, levels.head? with
    | some widest, some narrowest =>
      .ok (track str events series (latestBefore (relevantTo configHash snapshots))
        (comparedTo series snapshots configHash) levels widest narrowest)
    | _, _ => .error (.other "IndexError")

end

section

variable {D G : Type} [LinearOrder D] [DecidableEq G]

/-! ## 8. The snapshot of a date -/

/-- The snapshot that is taken ends before the date, and none that does ends later. -/
structure Latest (relevant : List (Snapshot D G)) (date : D) (snap : Snapshot D G) : Prop where
  mem : snap ∈ relevant
  before : snap.historyEnd < date
  greatest : ∀ other ∈ relevant, other.historyEnd < date → other.historyEnd ≤ snap.historyEnd

omit [DecidableEq G] in
theorem latest_of_latestBefore {relevant : List (Snapshot D G)} {date : D} {snap : Snapshot D G}
    (h : latestBefore relevant date = some snap) : Latest relevant date snap := by
  have hmem := List.argmax_mem (Option.mem_def.mpr h)
  rw [List.mem_filter, decide_eq_true_eq] at hmem
  refine ⟨hmem.1, hmem.2, fun other hother hbefore => ?_⟩
  exact List.le_of_mem_argmax (List.mem_filter.mpr ⟨hother, by simpa using hbefore⟩)
    (Option.mem_def.mpr h)

omit [DecidableEq G] in
theorem latestBefore_eq_none {relevant : List (Snapshot D G)} {date : D} :
    latestBefore relevant date = none ↔ ∀ snap ∈ relevant, ¬ snap.historyEnd < date := by
  rw [latestBefore, List.argmax_eq_none, List.filter_eq_nil_iff]
  simp only [decide_eq_true_eq]

omit [DecidableEq G] in
/-- **Of snapshots that end on different dates the order does not matter.** -/
theorem latestBefore_perm {relevant relevant' : List (Snapshot D G)}
    (hperm : relevant'.Perm relevant) (hends : (relevant.map Snapshot.historyEnd).Nodup) :
    latestBefore relevant' = latestBefore relevant := by
  funext date
  cases h : latestBefore relevant date with
  | none =>
    rw [latestBefore_eq_none] at h ⊢
    exact fun snap hsnap => h snap (hperm.mem_iff.mp hsnap)
  | some snap =>
    have hlatest := latest_of_latestBefore h
    cases h' : latestBefore relevant' date with
    | none =>
      rw [latestBefore_eq_none] at h'
      exact absurd hlatest.before (h' snap (hperm.mem_iff.mpr hlatest.mem))
    | some other =>
      have hother := latest_of_latestBefore h'
      have hle := hlatest.greatest other (hperm.mem_iff.mp hother.mem) hother.before
      have hge := hother.greatest snap (hperm.mem_iff.mpr hlatest.mem) hlatest.before
      exact congrArg some (List.inj_on_of_nodup_map hends (hperm.mem_iff.mp hother.mem)
        hlatest.mem (le_antisymm hle hge))

/-- What a comparison is of: a point of a history, and the one that the latest snapshot foresaw. -/
theorem mem_comparisons {series : List (Series D G)} {relevant : List (Snapshot D G)}
    {c : Comparison D G} (h : c ∈ comparisons series (latestBefore relevant)) :
    ∃ snap, Latest relevant c.date snap ∧ snap.forecastPoint c.key c.date = some c.point ∧
      c.point.value = some c.value := by
  obtain ⟨s, -, hs⟩ := List.mem_flatMap.mp h
  obtain ⟨observed, -, hcompare⟩ := List.mem_filterMap.mp hs
  obtain ⟨snap, hsnap, hcompare⟩ := Option.bind_eq_some_iff.mp hcompare
  obtain ⟨point, hpoint, hcompare⟩ := Option.bind_eq_some_iff.mp hcompare
  obtain ⟨value, hvalue, rfl⟩ := Option.map_eq_some_iff.mp hcompare
  exact ⟨snap, latest_of_latestBefore hsnap, hpoint, hvalue⟩

/-! ## 9. The coverage -/

theorem roundEven_bounds {n : ℤ} {x : ℚ} (hx : 0 ≤ x) (hn : x ≤ n) :
    0 ≤ roundEven x ∧ roundEven x ≤ n := by
  have hwhole : 0 ≤ ⌊x⌋ := Int.floor_nonneg.mpr hx
  have hle : (⌊x⌋ : ℚ) ≤ x := Int.floor_le x
  have hfloor : ⌊x⌋ ≤ n := by exact_mod_cast hle.trans hn
  -- Rounded up, it is not the bound itself.
  have hup : ¬ x - ⌊x⌋ < 1 / 2 → ⌊x⌋ + 1 ≤ n := by
    intro hhalf
    have hlt : (⌊x⌋ : ℚ) < n := by linarith
    have hint : ⌊x⌋ < n := by exact_mod_cast hlt
    omega
  unfold roundEven
  dsimp only
  split
  · exact ⟨hwhole, hfloor⟩
  · rename_i hhalf
    have hnext := hup hhalf
    split
    · omega
    · split <;> omega

theorem roundTo_bounds {digits : Nat} {x : ℚ} (hx : 0 ≤ x) (hone : x ≤ 1) :
    0 ≤ roundTo digits x ∧ roundTo digits x ≤ 1 := by
  have hpow : (0 : ℚ) < 10 ^ digits := by positivity
  have hscaled : x * 10 ^ digits ≤ ((10 ^ digits : ℤ) : ℚ) := by
    push_cast
    nlinarith
  obtain ⟨hlow, hhigh⟩ := roundEven_bounds (mul_nonneg hx hpow.le) hscaled
  have hlow' : (0 : ℚ) ≤ roundEven (x * 10 ^ digits) := by exact_mod_cast hlow
  have hhigh' : (roundEven (x * 10 ^ digits) : ℚ) ≤ 10 ^ digits := by exact_mod_cast hhigh
  unfold roundTo
  exact ⟨div_nonneg hlow' hpow.le, (div_le_one hpow).mpr hhigh'⟩

omit [LinearOrder D] [DecidableEq G] in
/-- Every coverage is a part of one. -/
theorem coverage_bounds {compared : List (Comparison D G)} {levels : List String}
    {entry : String × ℚ} (h : entry ∈ coverage compared levels) :
    0 ≤ entry.2 ∧ entry.2 ≤ 1 := by
  obtain ⟨level, -, hentry⟩ := List.mem_filterMap.mp h
  unfold levelCoverage at hentry
  dsimp only at hentry
  split at hentry
  · cases hentry
  · rename_i hsome
    cases hentry
    have hpos := List.length_pos_iff.mpr hsome
    refine roundTo_bounds (by positivity) ?_
    rw [div_le_one (by exact_mod_cast hpos)]
    exact_mod_cast List.countP_le_length

/-! ## 10. The breaches -/

/-- A breach of a comparison: the point lies outside the band of the level. -/
structure Comparison.Breaks (c : Comparison D G) (breach : Breach D G) : Prop where
  date : breach.date = c.date
  actual : breach.actual = c.actual
  band : c.point.band breach.level = some (breach.lower, breach.upper)
  outside : breach.actual < breach.lower ∨ breach.upper < breach.actual

omit [LinearOrder D] [DecidableEq G] in
theorem breaks_of_outside {c : Comparison D G} {level : String} {breach : Breach D G}
    (h : c.outside level = some breach) : c.Breaks breach := by
  obtain ⟨⟨lower, upper⟩, hband, h⟩ := Option.bind_eq_some_iff.mp h
  dsimp only at h
  split at h
  · cases h
  · rename_i hout
    cases h
    refine ⟨rfl, rfl, hband, ?_⟩
    by_contra hin
    rw [not_or, not_lt, not_lt] at hin
    exact hout hin

omit [LinearOrder D] [DecidableEq G] in
theorem breaks_of_breach {c : Comparison D G} {widest narrowest : String} {breach : Breach D G}
    (h : c.breach widest narrowest = some breach) : c.Breaks breach := by
  rcases Option.or_eq_some_iff.mp h with hwidest | ⟨-, hnarrowest⟩
  · exact breaks_of_outside hwidest
  · split at hnarrowest
    · exact breaks_of_outside hnarrowest
    · cases hnarrowest

end

section

variable {D G : Type} [LinearOrder D] [DecidableEq G]

/-! ## 11. What the tracking promises -/

/-- What a report says of what was compared. -/
structure Sound (float? : String → Option ℚ) (compared : List (Comparison D G))
    (report : Report D G) : Prop where
  points : report.points = compared.length
  coverage : ∀ entry ∈ report.coverage, 0 ≤ entry.2 ∧ entry.2 ≤ 1
  breaches : ∀ breach ∈ report.breaches, ∃ c ∈ compared, c.Breaks breach.1
  latest : report.latestBreach = true ↔
    ∃ c ∈ compared, (∀ other ∈ compared, other.date ≤ c.date) ∧
      ∃ levels widest narrowest, confidenceLevels float? compared = .ok levels ∧
        levels.getLast? = some widest ∧ levels.head? = some narrowest ∧
          (c.breach widest narrowest).isSome

omit [DecidableEq G] in
theorem sound_empty (float? : String → Option ℚ) :
    Sound float? ([] : List (Comparison D G)) Report.empty where
  points := rfl
  coverage := by simp [Report.empty]
  breaches := by simp [Report.empty]
  latest := by simp [Report.empty]

theorem sound_track {float? : String → Option ℚ} (str : G → String) (events : List (Event D))
    (series : List (Series D G)) (pick : D → Option (Snapshot D G))
    {compared : List (Comparison D G)} {levels : List String} {widest narrowest : String}
    (hlevels : confidenceLevels float? compared = .ok levels)
    (hwidest : levels.getLast? = some widest) (hnarrowest : levels.head? = some narrowest) :
    Sound float? compared (track str events series pick compared levels widest narrowest) where
  points := rfl
  coverage := fun _ h => coverage_bounds h
  breaches := by
    intro breach hbreach
    have hexplained := (List.perm_insertionSort _ _).mem_iff.mp (List.mem_of_mem_take hbreach)
    obtain ⟨x, hx, rfl⟩ := List.mem_map.mp hexplained
    obtain ⟨c, hc, hof⟩ := List.mem_filterMap.mp (List.fst_mem_of_mem_zipIdx hx)
    exact ⟨c, hc, breaks_of_breach hof⟩
  latest := by
    have hdate : ∀ c ∈ compared, (some c.date = (compared.map Comparison.date).max? ↔
        ∀ other ∈ compared, other.date ≤ c.date) := by
      intro c hc
      rw [eq_comm, List.max?_eq_some_iff]
      simp only [List.mem_map, forall_exists_index, and_imp, forall_apply_eq_imp_iff₂]
      exact and_iff_right ⟨c, hc, rfl⟩
    change (List.any _ _ = true) ↔ _
    rw [List.any_eq_true]
    constructor
    · rintro ⟨breach, hbreach, hlatest⟩
      obtain ⟨c, hc, hof⟩ := List.mem_filterMap.mp hbreach
      rw [decide_eq_true_eq, (breaks_of_breach hof).date, hdate c hc] at hlatest
      exact ⟨c, hc, hlatest, levels, widest, narrowest, hlevels, hwidest, hnarrowest,
        Option.isSome_of_eq_some hof⟩
    · rintro ⟨c, hc, hlatest, levels', widest', narrowest', hlevels', hwidest', hnarrowest', hof⟩
      rw [hlevels] at hlevels'
      cases hlevels'
      rw [hwidest] at hwidest'
      cases hwidest'
      rw [hnarrowest] at hnarrowest'
      cases hnarrowest'
      obtain ⟨breach, hof⟩ := Option.isSome_iff_exists.mp hof
      refine ⟨breach, List.mem_filterMap.mpr ⟨c, hc, hof⟩, ?_⟩
      rw [decide_eq_true_eq, (breaks_of_breach hof).date, hdate c hc]
      exact hlatest

omit [LinearOrder D] [DecidableEq G] in
/-- The levels are read where the text of each is a number. -/
theorem confidenceLevels_ok_iff {float? : String → Option ℚ} {compared : List (Comparison D G)} :
    (∃ levels, confidenceLevels float? compared = .ok levels) ↔
      ∀ c ∈ compared, ∀ level ∈ c.point.levels, (float? level).isSome := by
  have hvalue : ∀ level, (∃ x, levelValue float? level = .ok x) ↔ (float? level).isSome := by
    intro level
    rw [levelValue]
    cases float? level <;> simp
  have hreturns : (∃ levels, confidenceLevels float? compared = .ok levels) ↔
      ∃ keyed, (compared.flatMap fun c => c.point.levels).dedup.mapM (levelValue float?) =
        .ok keyed := by
    constructor
    · rintro ⟨levels, h⟩
      obtain ⟨keyed, hkeyed, -⟩ := Except.map_eq_ok_iff.mp h
      exact ⟨keyed, hkeyed⟩
    · rintro ⟨keyed, hkeyed⟩
      exact ⟨_, Except.map_eq_ok_iff.mpr ⟨keyed, hkeyed, rfl⟩⟩
  rw [hreturns, Except.mapM_returns_iff]
  simp only [List.mem_dedup, List.mem_flatMap, hvalue]
  constructor
  · intro h c hc level hlevel
    exact h level ⟨c, hc, hlevel⟩
  · rintro h level ⟨c, hc, hlevel⟩
    exact h c hc level hlevel

omit [LinearOrder D] [DecidableEq G] in
/-- There is a level exactly where some point has a band. -/
theorem confidenceLevels_ne_nil_iff {float? : String → Option ℚ}
    {compared : List (Comparison D G)} {levels : List String}
    (h : confidenceLevels float? compared = .ok levels) :
    levels ≠ [] ↔ ∃ c ∈ compared, c.point.levels ≠ [] := by
  obtain ⟨keyed, hkeyed, rfl⟩ := Except.map_eq_ok_iff.mp h
  have hiff : keyed ≠ [] ↔ (compared.flatMap fun c => c.point.levels).dedup ≠ [] := by
    rw [(Except.eq_map_of_mapM hkeyed).2, ne_eq, List.map_eq_nil_iff]
  rw [← List.length_pos_iff, List.length_map, List.length_insertionSort, List.length_pos_iff, hiff]
  simp only [ne_eq, List.dedup_eq_nil, List.flatMap_eq_nil_iff, not_forall, exists_prop]

end

section

variable {D G : Type} [LinearOrder D] [DecidableEq G]

theorem comparedTo_nil {series : List (Series D G)} {snapshots : List (Snapshot D G)}
    {configHash : String} (h : relevantTo configHash snapshots = []) :
    comparedTo series snapshots configHash = [] := by
  rw [List.eq_nil_iff_forall_not_mem]
  intro c hc
  obtain ⟨snap, hlatest, -⟩ := mem_comparisons hc
  rw [h] at hlatest
  exact absurd hlatest.mem List.not_mem_nil

section

variable (float? : String → Option ℚ) (str : G → String) (series : List (Series D G))
  (snapshots : List (Snapshot D G)) (configHash : String) (events : List (Event D))

/-- Nothing to compare. -/
theorem computeTracking_nil (h : comparedTo series snapshots configHash = []) :
    computeTracking float? str series snapshots configHash events = .ok .empty := by
  rw [computeTracking, if_pos h, ite_self]

/-- Something to compare: the levels decide. -/
theorem computeTracking_cons (h : comparedTo series snapshots configHash ≠ []) :
    computeTracking float? str series snapshots configHash events =
      (confidenceLevels float? (comparedTo series snapshots configHash)).bind fun levels =>
        match levels.getLast?, levels.head? with
        | some widest, some narrowest =>
          .ok (track str events series (latestBefore (relevantTo configHash snapshots))
            (comparedTo series snapshots configHash) levels widest narrowest)
        | _, _ => .error (.other "IndexError") := by
  have hrelevant : relevantTo configHash snapshots ≠ [] := fun hnil => h (comparedTo_nil hnil)
  rw [computeTracking, if_neg hrelevant, if_neg h]

/-- **The order of snapshots that end on different dates does not matter.** -/
theorem computeTracking_perm {snapshots' : List (Snapshot D G)}
    (hperm : snapshots'.Perm snapshots)
    (hends : ((relevantTo configHash snapshots).map Snapshot.historyEnd).Nodup) :
    computeTracking float? str series snapshots' configHash events =
      computeTracking float? str series snapshots configHash events := by
  have hrelevant : (relevantTo configHash snapshots').Perm (relevantTo configHash snapshots) :=
    hperm.filter _
  have hpick := latestBefore_perm hrelevant hends
  have hcompared : comparedTo series snapshots' configHash =
      comparedTo series snapshots configHash := by
    rw [comparedTo, hpick]
    rfl
  by_cases hnil : comparedTo series snapshots configHash = []
  · rw [computeTracking_nil _ _ _ _ _ _ hnil,
      computeTracking_nil _ _ _ _ _ _ (hcompared.trans hnil)]
  · rw [computeTracking_cons _ _ _ _ _ _ hnil,
      computeTracking_cons _ _ _ _ _ _ (by rwa [hcompared]), hcompared, hpick]

/-- **When the tracking is total and sound.** -/
theorem computeTracking_iff :
    ((∃ report, computeTracking float? str series snapshots configHash events = .ok report ∧
        Sound float? (comparedTo series snapshots configHash) report) ∧
      (∀ c ∈ comparedTo series snapshots configHash, ∃ snap,
        Latest (relevantTo configHash snapshots) c.date snap ∧
          snap.forecastPoint c.key c.date = some c.point) ∧
      ∀ snapshots', snapshots'.Perm snapshots →
        ((relevantTo configHash snapshots).map Snapshot.historyEnd).Nodup →
          computeTracking float? str series snapshots' configHash events =
            computeTracking float? str series snapshots configHash events) ↔
    comparedTo series snapshots configHash = [] ∨
      (∃ c ∈ comparedTo series snapshots configHash, c.point.levels ≠ []) ∧
        ∀ c ∈ comparedTo series snapshots configHash, ∀ level ∈ c.point.levels,
          (float? level).isSome := by
  have hlatest : ∀ c ∈ comparedTo series snapshots configHash, ∃ snap,
      Latest (relevantTo configHash snapshots) c.date snap ∧
        snap.forecastPoint c.key c.date = some c.point := by
    intro c hc
    obtain ⟨snap, hsnap, hpoint, -⟩ := mem_comparisons hc
    exact ⟨snap, hsnap, hpoint⟩
  have horder := fun (snapshots' : List (Snapshot D G)) (hperm : snapshots'.Perm snapshots) hends =>
    computeTracking_perm float? str series snapshots configHash events hperm hends
  rw [and_iff_left ⟨hlatest, horder⟩]
  by_cases hnil : comparedTo series snapshots configHash = []
  · refine iff_of_true ⟨.empty, computeTracking_nil _ _ _ _ _ _ hnil, ?_⟩ (.inl hnil)
    rw [hnil]
    exact sound_empty float?
  · rw [or_iff_right hnil, computeTracking_cons _ _ _ _ _ _ hnil]
    constructor
    · rintro ⟨report, hreport, -⟩
      obtain ⟨levels, hlevels, hreport⟩ := Except.bind_eq_ok_iff.mp hreport
      refine ⟨(confidenceLevels_ne_nil_iff hlevels).mp ?_, confidenceLevels_ok_iff.mp ⟨_, hlevels⟩⟩
      rintro rfl
      cases hreport
    · rintro ⟨hband, hnumbers⟩
      obtain ⟨levels, hlevels⟩ := confidenceLevels_ok_iff.mpr hnumbers
      have hne := (confidenceLevels_ne_nil_iff hlevels).mpr hband
      have hwidest := List.getLast?_eq_some_getLast hne
      have hnarrowest := List.head?_eq_some_head hne
      refine ⟨_, ?_, sound_track str events series
        (latestBefore (relevantTo configHash snapshots)) hlevels hwidest hnarrowest⟩
      refine Except.bind_eq_ok_iff.mpr ⟨levels, hlevels, ?_⟩
      rw [hwidest, hnarrowest]

end

end

/-- A forecast whose points have no bounds. -/
def bandless : Series String String :=
  ⟨"A", "", [⟨some "2024-02-01", some 12, []⟩], [⟨some "2024-02-01", some 10, []⟩], []⟩

/-- Compared with what it foresaw itself a month before, it is refused. -/
theorem not_computeTracking_bandless : ¬ ∀ (float? : String → Option ℚ)
    (series : List (Series String String)) (snapshots : List (Snapshot String String))
    (configHash : String) (events : List (Event String)),
      ∃ report, computeTracking float? id series snapshots configHash events = .ok report := by
  intro h
  obtain ⟨report, hreport⟩ := h (fun _ => none) [bandless] [⟨"h", "2024-01-01", [bandless]⟩] "h" []
  have herror : computeTracking (fun _ => none) id [bandless] [⟨"h", "2024-01-01", [bandless]⟩] "h"
      [] = .error (.other "IndexError") := by
    rfl
  rw [herror] at hreport
  cases hreport

end Apowerb.Bi.Tracking
