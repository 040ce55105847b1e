/-
# The naive forecast, directly

`naive_forecast_series` (`bi/spec/transforms.py`) in exact numbers, of which any may be missing.
The code takes its means from prefix sums in which a missing value counts zero; here they are the
means of the values of a window that are present (`windowMean_eq`).

* **The forecast is the method, and looks only back** (`series_direct`): it is the mean of the window
  before a period, or last season's value times the clamped ratio of the two means.
* **There is no ratio where a window reaches beyond the first period**, although the mean of what it
  holds exists (`forecast_ne_ofMeans`).
-/
import Apowerb.Bi.Exact

namespace Apowerb.Bi.NaiveForecast

open Series Series.Exact

variable {K : Type}

/-! ## 1. Means of what is present -/

/-- The number there is. -/
def number : Exact K → Option K
  | .nan => none
  | .of x => some x

/-- A number that may be missing. -/
def exact : Option K → Exact K
  | none => .nan
  | some x => .of x

/-- The values of a window that are present. -/
def window (values : List (Exact K)) (start stop : ℕ) : List K :=
  ((values.take stop).drop start).filterMap number

@[simp] theorem present_nan (xs : List (Exact K)) :
    (Exact.nan :: xs).filterMap number = xs.filterMap number := rfl

@[simp] theorem present_of (x : K) (xs : List (Exact K)) :
    (Exact.of x :: xs).filterMap number = x :: xs.filterMap number := rfl

/-- The values before `stop` are those before `start` and those of the window. -/
theorem window_append {values : List (Exact K)} {start stop : ℕ} (h : start ≤ stop) :
    (values.take stop).filterMap number =
      (values.take start).filterMap number ++ window values start stop := by
  rw [window, ← List.filterMap_append]
  congr 1
  conv_lhs => rw [← List.take_append_drop start (values.take stop)]
  rw [List.take_take, min_eq_left h]

variable [Field K] [LinearOrder K] [FloorRing K]

/-- The mean, where there is a value. -/
def mean (xs : List K) : Option K := if xs = [] then none else some (xs.sum / xs.length)

theorem length_filter_known (xs : List (Exact K)) :
    (xs.filter fun x => !Floats.isNaN x).length = (xs.filterMap number).length := by
  induction xs with
  | nil => rfl
  | cons x xs ih =>
    cases x with
    | nan => exact ih
    | of y => exact congrArg (· + 1) ih

/-- A sum in which a missing value counts zero. -/
theorem sum_known (xs : List (Exact K)) :
    sum (xs.map fun x => if Floats.isNaN x then zero else x) =
      .of (xs.filterMap number).sum := by
  obtain ⟨ys, hys, hsum⟩ : ∃ ys : List K,
      (xs.map fun x => if Floats.isNaN x then zero else x) = ys.map .of ∧
        ys.sum = (xs.filterMap number).sum := by
    induction xs with
    | nil => exact ⟨[], rfl, rfl⟩
    | cons x xs ih =>
      obtain ⟨ys, hys, hsum⟩ := ih
      cases x with
      | nan =>
        refine ⟨0 :: ys, ?_, ?_⟩
        · rw [List.map_cons, hys, isNaN_nan, if_pos rfl, zero_eq, List.map_cons]
        · rw [List.sum_cons, zero_add, hsum, present_nan]
      | of y =>
        refine ⟨y :: ys, ?_, ?_⟩
        · rw [List.map_cons, hys, isNaN_of, if_neg Bool.false_ne_true, List.map_cons]
        · rw [List.sum_cons, hsum, present_of, List.sum_cons]
  rw [hys, sum_map_of, hsum]

theorem value_prefixSums {values : List (Exact K)} {k : ℕ} (h : k ≤ values.length) :
    value (prefixSums (values.map fun x => if Floats.isNaN x then zero else x)) k =
      .of ((values.take k).filterMap number).sum := by
  rw [← sum_known, List.map_take]
  cases k with
  | zero => rfl
  | succ k =>
    rw [prefixSums, value, List.getD_cons_succ]
    exact value_cumsum (by rwa [List.length_map])

/-- **The prefix sums give the mean of what is present.** -/
theorem windowMean_eq {values : List (Exact K)} {start stop : ℕ} (h : start ≤ stop)
    (hstop : stop ≤ values.length) :
    windowMean values start stop = exact (mean (window values start stop)) := by
  have hcount : ((values.take stop).filter fun x => !Floats.isNaN x).length -
      ((values.take start).filter fun x => !Floats.isNaN x).length =
        (window values start stop).length := by
    rw [length_filter_known, length_filter_known, window_append h, List.length_append,
      Nat.add_sub_cancel_left]
  have htotal : value (prefixSums (values.map fun x => if Floats.isNaN x then zero else x)) stop -
      value (prefixSums (values.map fun x => if Floats.isNaN x then zero else x)) start =
        .of (window values start stop).sum := by
    rw [value_prefixSums hstop, value_prefixSums (h.trans hstop), window_append h, List.sum_append,
      of_sub, add_sub_cancel_left]
  unfold windowMean
  dsimp only
  rw [hcount, htotal, mean]
  by_cases hnil : window values start stop = []
  · rw [if_pos hnil, hnil, if_neg (by simp)]
    rfl
  · rw [if_neg hnil, if_pos (List.length_pos_iff.mpr hnil), natCast_eq, of_div]
    rfl

/-! ## 2. The method -/

/-- The parameters of a naive forecast. -/
structure Method (K : Type) where
  window : ℕ
  seasonLength : ℕ
  lower : K
  upper : K

/-- The mean of the window before a period. -/
def Method.meanBefore (m : Method K) (values : List (Exact K)) (t : ℕ) : Option K :=
  mean (NaiveForecast.window values (t - m.window) t)

/-- A ratio, none by zero. -/
def ratio (x y : K) : Option K := if y = 0 then none else some (x / y)

/-- The ratio of the mean of the window before `t` to that of the same window a season before. -/
def Method.ratioOfMeans (m : Method K) (values : List (Exact K)) (t : ℕ) : Option K :=
  (m.meanBefore values t).bind fun x =>
    (m.meanBefore values (t - m.seasonLength)).bind (ratio x)

def Method.clamp (m : Method K) (x : K) : K := min (max x m.lower) m.upper

/-- Last season's value. -/
def Method.lastSeason (m : Method K) (values : List (Exact K)) (t : ℕ) : Option K :=
  if m.seasonLength ≤ t then number (value values (t - m.seasonLength)) else none

/-- The forecast at `t` with the ratio that counts there, one where there is none. -/
def Method.forecast (m : Method K) (values : List (Exact K)) (counted : Option K) (t : ℕ) :
    Option K :=
  match m.lastSeason values t with
  | some x => some (x * m.clamp (counted.getD 1))
  | none => m.meanBefore values t

/-- The ratio of windows that lie wholly in the series. -/
def Method.wholeRatio (m : Method K) (values : List (Exact K)) (t : ℕ) : Option K :=
  if m.seasonLength + m.window ≤ t then m.ratioOfMeans values t else none

/-! ## 3. The code is the method -/

/-- The forecast with the bounds of the method. -/
def Method.series (m : Method K) (values : List (Exact K)) : List (Exact K) :=
  naiveForecastSeries values m.window m.seasonLength (.of m.lower, .of m.upper)

theorem meanBefore_eq (m : Method K) {values : List (Exact K)} {t : ℕ} (ht : t ≤ values.length) :
    windowMean values (t - m.window) t = exact (m.meanBefore values t) :=
  windowMean_eq (Nat.sub_le _ _) ht

/-- The ratio that the code counts. -/
theorem counted_eq (m : Method K) (values : List (Exact K)) (t : ℕ) :
    let x := exact (m.meanBefore values t)
    let y := exact (m.meanBefore values (t - m.seasonLength))
    (if m.window ≤ t ∧ m.seasonLength + m.window ≤ t ∧ Floats.isFinite x ∧ Floats.isFinite y ∧
        ¬ Floats.isZero y then x / y else one) = .of ((m.wholeRatio values t).getD 1) := by
  intro x y
  by_cases ht : m.seasonLength + m.window ≤ t
  · rw [Method.wholeRatio, if_pos ht, Method.ratioOfMeans]
    have hwindow : m.window ≤ t := (Nat.le_add_left _ _).trans ht
    cases hx : m.meanBefore values t with
    | none =>
      rw [if_neg (by simp [x, hx, exact]), one_eq]
      rfl
    | some a =>
      cases hy : m.meanBefore values (t - m.seasonLength) with
      | none =>
        rw [if_neg (by simp [y, hy, exact]), one_eq]
        rfl
      | some b =>
        by_cases hb : b = 0
        · rw [if_neg (by simp [y, hy, exact, hb]), one_eq]
          simp [ratio, hb]
        · rw [if_pos (by simp [x, y, hx, hy, exact, hb, hwindow, ht])]
          simp [x, y, hx, hy, exact, ratio, hb]
  · rw [if_neg (fun h => ht h.2.1), Method.wholeRatio, if_neg ht, one_eq]
    rfl

/-- **The naive forecast is the method**, with the ratio of windows that lie wholly in the series. -/
theorem series_eq (m : Method K) (values : List (Exact K)) :
    m.series values = (List.range values.length).map fun t =>
      exact (m.forecast values (m.wholeRatio values t) t) := by
  refine List.map_congr_left fun t ht => ?_
  have hlt : t < values.length := List.mem_range.mp ht
  dsimp only
  rw [meanBefore_eq m hlt.le, meanBefore_eq m ((Nat.sub_le _ _).trans hlt.le), counted_eq,
    larger_of, smaller_of, Method.forecast, Method.lastSeason]
  by_cases hseason : m.seasonLength ≤ t
  · rw [if_pos hseason, if_pos hseason]
    cases hv : value values (t - m.seasonLength) with
    | nan =>
      rw [if_neg (by simp)]
      rfl
    | of x =>
      rw [if_pos (by simp [hseason])]
      rfl
  · rw [if_neg (fun h => hseason h.1), if_neg hseason]

/-! ## 4. It looks only back -/

omit [Field K] [LinearOrder K] [FloorRing K] in
theorem window_congr {values values' : List (Exact K)} {t start stop : ℕ}
    (h : values.take t = values'.take t) (hstop : stop ≤ t) :
    window values start stop = window values' start stop := by
  rw [window, window, ← min_eq_left hstop, ← List.take_take, h, List.take_take]

omit [LinearOrder K] [FloorRing K] in
theorem meanBefore_congr (m : Method K) {values values' : List (Exact K)} {t s : ℕ}
    (h : values.take t = values'.take t) (hs : s ≤ t) :
    m.meanBefore values s = m.meanBefore values' s := by
  rw [Method.meanBefore, Method.meanBefore, window_congr h hs]

omit [Field K] [LinearOrder K] [FloorRing K] in
theorem getElem?_congr {values values' : List (Exact K)} {t s : ℕ}
    (h : values.take t = values'.take t) (hs : s < t) : values[s]? = values'[s]? := by
  rw [← List.getElem?_take_of_lt hs, h, List.getElem?_take_of_lt hs]

theorem lastSeason_congr (m : Method K) (hseason : 1 ≤ m.seasonLength)
    {values values' : List (Exact K)} {t : ℕ} (h : values.take t = values'.take t) :
    m.lastSeason values t = m.lastSeason values' t := by
  rw [Method.lastSeason, Method.lastSeason]
  by_cases ht : m.seasonLength ≤ t
  · rw [if_pos ht, if_pos ht, value, value, List.getD_eq_getElem?_getD,
      List.getD_eq_getElem?_getD, getElem?_congr h (show t - m.seasonLength < t by omega)]
  · rw [if_neg ht, if_neg ht]

theorem forecast_congr (m : Method K) (hseason : 1 ≤ m.seasonLength)
    {values values' : List (Exact K)} {t : ℕ} (h : values.take t = values'.take t) :
    m.forecast values (m.wholeRatio values t) t = m.forecast values' (m.wholeRatio values' t) t := by
  rw [Method.forecast, Method.forecast, Method.wholeRatio, Method.wholeRatio, Method.ratioOfMeans,
    Method.ratioOfMeans, lastSeason_congr m hseason h, meanBefore_congr m h le_rfl,
    meanBefore_congr m h (Nat.sub_le t m.seasonLength)]

/-- **The forecast is the method and looks only back**: at every period it is the mean of the window
before it, or last season's value times the clamped ratio of the means of two windows that lie
wholly in the series; and no value at or after the period changes it. -/
theorem series_direct (m : Method K) (hseason : 1 ≤ m.seasonLength) (values : List (Exact K)) :
    m.series values = (List.range values.length).map (fun t =>
        exact (m.forecast values (m.wholeRatio values t) t)) ∧
      ∀ values' t, values.take t = values'.take t → t < values.length → t < values'.length →
        (m.series values)[t]? = (m.series values')[t]? := by
  refine ⟨series_eq m values, fun values' t h ht ht' => ?_⟩
  rw [series_eq, series_eq, List.getElem?_map, List.getElem?_map, List.getElem?_range ht,
    List.getElem?_range ht', Option.map_some, Option.map_some, forecast_congr m hseason h]

/-- A window of two, a season of two and the usual bounds. -/
def short : Method ℚ := ⟨2, 2, 0.8, 1.25⟩

theorem series_direct_short :
    let values : List (Exact ℚ) := [.of 1, .nan, .of 10, .of 20]
    short.series values = (List.range 4).map (fun t =>
        exact (short.forecast values (short.wholeRatio values t) t)) ∧
      ∀ values' t, values.take t = values'.take t → t < 4 → t < values'.length →
        (short.series values)[t]? = (short.series values')[t]? :=
  series_direct short (by decide) [.of 1, .nan, .of 10, .of 20]

/-- The window before period 1 has one value, the mean of which is 1, and that before period 3 the
mean 6: the ratio is 6, and last season's value counts as it is. -/
theorem forecast_ne_ofMeans :
    ¬ ∀ (m : Method ℚ) (values : List (Exact ℚ)), 1 ≤ m.window → 2 ≤ m.seasonLength →
      m.series values = (List.range values.length).map fun t =>
        exact (m.forecast values (m.ratioOfMeans values t) t) := by
  intro h
  have hshort := h short [.of 1, .of 2, .of 10, .of 20] (by decide) (by decide)
  revert hshort
  decide +kernel

end Apowerb.Bi.NaiveForecast
