/-
# The replenishment plan and its threshold

`plan_replenishment` (`bi/spec/transforms.py`) in exact numbers, with a forecast of which entries may
be missing.  Its loop orders for one period after another: for each the stock is projected, and where
it would be under the threshold the order is the threshold, and what is to be covered after it, less
that stock, in whole lots.

* **What always holds.**  The stock is not negative and not under that without orders, an order is a
  whole number of lots, it is received `lead_time` periods later, and none after the horizon
  (`stock_ge_without`, `ordered_whole`, `received_arrival`).
* **What does not.**  The projection ends each period at zero at least, and forgets the demand that
  was lost in it (`unmet`).  The order is computed from the projection, and the stock it leaves is
  that demand short of what was meant (`level_arrival`).  The threshold is reached in every period
  that an order can reach where each order makes up for it, and only there
  (`reachesThreshold_iff`).
-/
import Apowerb.Bi.Exact
import Mathlib.Algebra.BigOperators.Intervals
import Mathlib.Tactic.Positivity

namespace Apowerb.Bi.Replenish

open Series Series.Exact Finset

variable {K : Type} [Field K] [LinearOrder K]

/-! ## 1. Projected stock -/

/-- The stock at the end of a period, with a demand and what is received. -/
def level (stock0 : K) (demand received : ℕ → K) : ℕ → K
  | 0 => max 0 (stock0 + received 0 - demand 0)
  | k + 1 => max 0 (level stock0 demand received k + received (k + 1) - demand (k + 1))

/-- The stock at the beginning of a period. -/
def opening (stock0 : K) (demand received : ℕ → K) : ℕ → K
  | 0 => stock0
  | k + 1 => level stock0 demand received k

theorem level_eq (stock0 : K) (demand received : ℕ → K) (k : ℕ) :
    level stock0 demand received k =
      max 0 (opening stock0 demand received k + received k - demand k) := by
  cases k <;> rfl

theorem level_nonneg (stock0 : K) (demand received : ℕ → K) (k : ℕ) :
    0 ≤ level stock0 demand received k := by
  rw [level_eq]
  exact le_max_left _ _

/-- The stock depends on what is received until then. -/
theorem level_congr {stock0 : K} {demand received received' : ℕ → K} {k : ℕ}
    (h : ∀ i ≤ k, received i = received' i) :
    level stock0 demand received k = level stock0 demand received' k := by
  induction k with
  | zero => rw [level, level, h 0 le_rfl]
  | succ k ih => rw [level, level, ih fun i hi => h i (hi.trans k.le_succ), h (k + 1) le_rfl]

theorem opening_congr {stock0 : K} {demand received received' : ℕ → K} {k : ℕ}
    (h : ∀ i < k, received i = received' i) :
    opening stock0 demand received k = opening stock0 demand received' k := by
  cases k with
  | zero => rfl
  | succ k => exact level_congr fun i hi => h i (Nat.lt_succ_of_le hi)

/-- From the second period on. -/
theorem level_shift (stock0 : K) (demand received : ℕ → K) (k : ℕ) :
    level stock0 demand received (k + 1) =
      level (max 0 (stock0 + received 0 - demand 0)) (fun i => demand (i + 1))
        (fun i => received (i + 1)) k := by
  induction k with
  | zero => rfl
  | succ k ih => rw [level, ih, level]

variable [IsStrictOrderedRing K] in
/-- **The stock is at least what it would be without orders.** -/
theorem stock_ge_without {stock0 : K} {demand received : ℕ → K} (h : ∀ i, 0 ≤ received i) (k : ℕ) :
    max 0 (stock0 - ∑ i ∈ range (k + 1), demand i) ≤ level stock0 demand received k := by
  refine max_le (level_nonneg _ _ _ _) ?_
  induction k with
  | zero =>
    have hr := h 0
    have hle := le_max_right 0 (stock0 + received 0 - demand 0)
    rw [level, sum_range_one]
    linarith
  | succ k ih =>
    have hr := h (k + 1)
    have hle := le_max_right 0
      (level stock0 demand received k + received (k + 1) - demand (k + 1))
    rw [level, sum_range_succ]
    linarith

/-! ## 2. Orders -/

variable [FloorRing K]

/-- What the plan is made from. -/
structure Plan (K : Type) where
  stock0 : K
  demand : ℕ → K
  horizon : ℕ
  seuil : K
  leadTime : ℕ
  targetCover : ℕ
  lot : ℕ

/-- The demand to be covered from a period on; after the horizon the last period is repeated. -/
def Plan.covered (p : Plan K) (start : ℕ) : K :=
  ∑ j ∈ range p.targetCover, p.demand (min (start + j) (p.horizon - 1))

/-- The order for a period, where some was received already. -/
def Plan.orderFor (p : Plan K) (received : ℕ → K) (arrival : ℕ) : K :=
  let atArrival := level p.stock0 p.demand received arrival
  if atArrival < p.seuil then
    inLots (p.seuil + p.covered (arrival + 1) - atArrival) 1e-9 p.lot
  else 0

/-- What is received by the orders of the periods before `k`. -/
def Plan.received (p : Plan K) : ℕ → ℕ → K
  | 0 => fun _ => 0
  | k + 1 =>
    if k + p.leadTime < p.horizon then
      Function.update (p.received k) (k + p.leadTime) (p.orderFor (p.received k) (k + p.leadTime))
    else p.received k

/-- What is ordered in a period before `k`. -/
def Plan.ordered (p : Plan K) (k j : ℕ) : K :=
  if j < k ∧ j + p.leadTime < p.horizon then p.received k (j + p.leadTime) else 0

/-- The demand of a period that the projection loses. -/
def Plan.unmet (p : Plan K) (received : ℕ → K) (k : ℕ) : K :=
  max 0 (p.demand k - opening p.stock0 p.demand received k)

/-- Nothing is received before the lead time, or by orders not placed yet. -/
theorem Plan.received_eq_zero (p : Plan K) {k j : ℕ} (h : j < p.leadTime ∨ k + p.leadTime ≤ j) :
    p.received k j = 0 := by
  induction k with
  | zero => rfl
  | succ k ih =>
    rw [Plan.received]
    split
    · rw [Function.update_of_ne (by omega)]
      exact ih (by omega)
    · exact ih (by omega)

/-- Later orders are received later. -/
theorem Plan.received_of_lt (p : Plan K) {k k' j : ℕ} (hk : k ≤ k') (hj : j < k + p.leadTime) :
    p.received k' j = p.received k j := by
  induction k' with
  | zero =>
    obtain rfl : k = 0 := by omega
    rfl
  | succ k' ih =>
    by_cases h : k = k' + 1
    · rw [h]
    · rw [Plan.received]
      split
      · rw [Function.update_of_ne (by omega)]
        exact ih (by omega)
      · exact ih (by omega)

/-- **Each order is received `leadTime` periods later**: what a period receives is the order that
was decided for it. -/
theorem Plan.received_arrival (p : Plan K) {k n : ℕ} (hk : k + p.leadTime < p.horizon)
    (hn : k < n) :
    p.received n (k + p.leadTime) = p.orderFor (p.received k) (k + p.leadTime) := by
  rw [p.received_of_lt (Nat.succ_le_of_lt hn) (by omega), Plan.received, if_pos hk,
    Function.update_self]

variable [IsStrictOrderedRing K]

theorem Plan.orderFor_whole (p : Plan K) (received : ℕ → K) (k : ℕ) :
    ∃ m : ℕ, p.orderFor received k = m * p.lot := by
  rw [Plan.orderFor]
  split
  · exact inLots_whole (by norm_num) (by norm_num) p.lot
  · exact ⟨0, by rw [Nat.cast_zero, zero_mul]⟩

theorem Plan.received_whole (p : Plan K) (n j : ℕ) :
    ∃ m : ℕ, p.received n j = m * p.lot := by
  induction n with
  | zero => exact ⟨0, by rw [Plan.received, Nat.cast_zero, zero_mul]⟩
  | succ n ih =>
    rw [Plan.received]
    split
    · by_cases hj : j = n + p.leadTime
      · rw [hj, Function.update_self]
        exact p.orderFor_whole _ _
      · rw [Function.update_of_ne hj]
        exact ih
    · exact ih

theorem Plan.received_nonneg (p : Plan K) (n j : ℕ) : 0 ≤ p.received n j := by
  obtain ⟨m, hm⟩ := p.received_whole n j
  rw [hm]
  positivity

/-! ## 3. The threshold -/

/-- **What an order leaves**: the stock projected for its period and the order, less the demand that
the projection lost. -/
theorem Plan.level_arrival (p : Plan K) {k : ℕ} (hk : k + p.leadTime < p.horizon) :
    level p.stock0 p.demand (p.received p.horizon) (k + p.leadTime) =
      max 0 (level p.stock0 p.demand (p.received k) (k + p.leadTime) +
        p.orderFor (p.received k) (k + p.leadTime) - p.unmet (p.received k) (k + p.leadTime)) := by
  have hopening : opening p.stock0 p.demand (p.received p.horizon) (k + p.leadTime) =
      opening p.stock0 p.demand (p.received k) (k + p.leadTime) :=
    opening_congr fun i hi => p.received_of_lt (by omega) hi
  have hnone : p.received k (k + p.leadTime) = 0 := p.received_eq_zero (.inr le_rfl)
  rw [level_eq, hopening, p.received_arrival hk (by omega), level_eq, hnone, Plan.unmet]
  congr 1
  generalize opening p.stock0 p.demand (p.received k) (k + p.leadTime) = a
  generalize p.demand (k + p.leadTime) = d
  rcases le_total d a with h | h
  · rw [max_eq_right (show 0 ≤ a + 0 - d by linarith), max_eq_left (show d - a ≤ 0 by linarith)]
    ring
  · rw [max_eq_left (show a + 0 - d ≤ 0 by linarith), max_eq_right (show 0 ≤ d - a by linarith)]
    ring

/-- The projection loses demand where no stock is left. -/
theorem Plan.level_le_sub_unmet (p : Plan K) {k j : ℕ} (h : p.received k j = 0) :
    level p.stock0 p.demand (p.received k) j ≤
      max 0 (level p.stock0 p.demand (p.received k) j - p.unmet (p.received k) j) := by
  rw [level_eq, h, Plan.unmet]
  generalize opening p.stock0 p.demand (p.received k) j = a
  generalize p.demand j = d
  rcases le_total d a with h | h
  · rw [max_eq_left (show d - a ≤ 0 by linarith), sub_zero]
    exact le_max_right _ _
  · rw [max_eq_left (show a + 0 - d ≤ 0 by linarith)]
    exact le_max_left _ _

/-- The order of a period, if one is placed, makes up for the demand that the projection loses in
the period in which it is received. -/
def Plan.MakesUp (p : Plan K) (k : ℕ) : Prop :=
  let arrival := k + p.leadTime
  let atArrival := level p.stock0 p.demand (p.received k) arrival
  atArrival < p.seuil →
    p.seuil + p.unmet (p.received k) arrival ≤ atArrival + p.orderFor (p.received k) arrival

theorem Plan.seuil_le_iff (p : Plan K) {k : ℕ} (hk : k + p.leadTime < p.horizon) :
    p.seuil ≤ level p.stock0 p.demand (p.received p.horizon) (k + p.leadTime) ↔ p.MakesUp k := by
  rw [p.level_arrival hk, Plan.MakesUp]
  have hpos := level_nonneg p.stock0 p.demand (p.received k) (k + p.leadTime)
  by_cases h : level p.stock0 p.demand (p.received k) (k + p.leadTime) < p.seuil
  · rw [le_max_iff]
    constructor
    · rintro (hs | hs) -
      · linarith
      · linarith
    · intro hs
      exact .inr (by linarith [hs h])
  · refine iff_of_true ?_ fun hs => absurd hs h
    rw [Plan.orderFor, if_neg h, add_zero]
    exact (not_lt.mp h).trans (p.level_le_sub_unmet (p.received_eq_zero (.inr le_rfl)))

/-! ## 4. The code in exact numbers -/

/-- What is left of a forecast: nothing where it is missing or negative. -/
def amount : Exact K → K
  | .nan => 0
  | .of x => max x 0

omit [IsStrictOrderedRing K] in
theorem floored_eq (forecast : List (Exact K)) :
    floored forecast = series forecast.length fun i => amount (value forecast i) := by
  apply List.ext_getElem?
  intro i
  by_cases hi : i < forecast.length
  · rw [getElem?_series _ hi, floored, List.getElem?_map, List.getElem?_eq_getElem hi, value,
      List.getD_eq_getElem?_getD, List.getElem?_eq_getElem hi, Option.map_some, Option.getD_some]
    cases forecast[i] with
    | nan => simp [amount]
    | of x => simp [amount]
  · rw [List.getElem?_eq_none (by simpa [floored] using hi),
      List.getElem?_eq_none (by simpa using hi)]

omit [IsStrictOrderedRing K] in
theorem project_series (n : ℕ) (stock0 : K) (demand received : ℕ → K) :
    project (.of stock0) (series n demand) (series n received) =
      series n (level stock0 demand received) := by
  induction n generalizing stock0 demand received with
  | zero => rfl
  | succ n ih =>
    rw [series_succ, series_succ, series_succ, project]
    simp only [zero_eq, of_add, of_sub, larger_of]
    rw [ih]
    congr 1
    exact series_congr fun i _ => (level_shift _ _ _ i).symm

omit [IsStrictOrderedRing K] in
theorem Plan.cover_series (p : Plan K) {start : ℕ} (h : 0 < p.horizon) :
    cover (series p.horizon p.demand) p.targetCover start = .of (p.covered start) := by
  have hlast : (series p.horizon p.demand).getLastD zero = .of (p.demand (p.horizon - 1)) := by
    rw [List.getLastD_eq_getLast?, List.getLast?_eq_getElem?, length_series,
      getElem?_series _ (by omega)]
    rfl
  have hcell (j : ℕ) : (series p.horizon p.demand).getD (start + j)
      ((series p.horizon p.demand).getLastD zero) =
        .of (p.demand (min (start + j) (p.horizon - 1))) := by
    rw [hlast, List.getD_eq_getElem?_getD]
    by_cases hj : start + j < p.horizon
    · rw [getElem?_series _ hj, min_eq_left (by omega)]
      rfl
    · rw [List.getElem?_eq_none (by simpa using hj), min_eq_right (by omega)]
      rfl
  rw [cover, List.map_congr_left fun j _ => hcell j, Plan.covered, ← sum_series]
  rfl

omit [IsStrictOrderedRing K] in
theorem Plan.ordered_succ (p : Plan K) {k : ℕ} (hk : k + p.leadTime < p.horizon) :
    p.ordered (k + 1) =
      Function.update (p.ordered k) k (p.orderFor (p.received k) (k + p.leadTime)) := by
  funext j
  by_cases hj : j = k
  · subst hj
    rw [Function.update_self, Plan.ordered, if_pos ⟨j.lt_succ_self, hk⟩,
      p.received_arrival hk j.lt_succ_self]
  · rw [Function.update_of_ne hj, Plan.ordered, Plan.ordered]
    by_cases hjk : j < k ∧ j + p.leadTime < p.horizon
    · rw [if_pos hjk, if_pos ⟨by omega, hjk.2⟩, p.received_of_lt k.le_succ (by omega)]
    · rw [if_neg hjk, if_neg (by omega)]

omit [IsStrictOrderedRing K] in
theorem Plan.ordered_stay (p : Plan K) {k : ℕ} (hk : p.horizon ≤ k + p.leadTime) :
    p.ordered (k + 1) = p.ordered k := by
  funext j
  rw [Plan.ordered, Plan.ordered]
  by_cases hj : j + p.leadTime < p.horizon
  · rw [if_pos ⟨by omega, hj⟩, if_pos ⟨by omega, hj⟩, p.received_of_lt k.le_succ (by omega)]
  · rw [if_neg fun h => hj h.2, if_neg fun h => hj h.2]

omit [IsStrictOrderedRing K] in
/-- One step of the loop. -/
theorem Plan.placeOrder_series (p : Plan K) {k : ℕ} :
    placeOrder (.of p.stock0) (series p.horizon p.demand) (.of p.seuil) p.leadTime p.targetCover
      p.lot ⟨series p.horizon (p.received k), series p.horizon (p.ordered k)⟩ k =
        ⟨series p.horizon (p.received (k + 1)), series p.horizon (p.ordered (k + 1))⟩ := by
  have hnone : p.received k (k + p.leadTime) = 0 := p.received_eq_zero (.inr le_rfl)
  unfold placeOrder
  dsimp only
  rw [length_series]
  by_cases hk : p.horizon ≤ k + p.leadTime
  · rw [if_pos hk, p.ordered_stay hk, Plan.received, if_neg (not_lt.mpr hk)]
  · have hlt : k + p.leadTime < p.horizon := not_le.mp hk
    rw [if_neg hk, project_series, value_series _ hlt, lt_of, p.ordered_succ hlt, Plan.received,
      if_pos hlt, ← series_set, ← series_set, p.cover_series (by omega), value_series _ hlt, hnone]
    by_cases h : level p.stock0 p.demand (p.received k) (k + p.leadTime) < p.seuil
    · have hround := rounded_of (p.seuil + p.covered (k + p.leadTime + 1) -
        level p.stock0 p.demand (p.received k) (k + p.leadTime)) 1e-9 p.lot
      have horder : p.orderFor (p.received k) (k + p.leadTime) =
          inLots (p.seuil + p.covered (k + p.leadTime + 1) -
            level p.stock0 p.demand (p.received k) (k + p.leadTime)) 1e-9 p.lot := if_pos h
      have heps : (1e-9 : Exact K) = .of 1e-9 := rfl
      rw [decide_eq_true h, if_pos rfl, horder, heps, of_add, of_sub, hround, of_add, zero_add]
    · have horder : p.orderFor (p.received k) (k + p.leadTime) = 0 := if_neg h
      have hstay : p.ordered k k = 0 := if_neg fun h => absurd h.1 (lt_irrefl k)
      rw [decide_eq_false h, if_neg Bool.false_ne_true, horder, series_set, series_set,
        Function.update_eq_self_iff.mpr hnone.symm, Function.update_eq_self_iff.mpr hstay.symm]

omit [IsStrictOrderedRing K] in
/-- The loop. -/
theorem Plan.placedBefore_series (p : Plan K) (k : ℕ) :
    placedBefore (.of p.stock0) (series p.horizon p.demand) (.of p.seuil) p.leadTime p.targetCover
      p.lot k = ⟨series p.horizon (p.received k), series p.horizon (p.ordered k)⟩ := by
  induction k with
  | zero =>
    have hnone : p.ordered 0 = fun _ => 0 := by
      funext j
      exact if_neg fun h => absurd h.1 (Nat.not_lt_zero j)
    rw [placedBefore, List.range_zero, List.foldl_nil, map_series_zero, hnone, Plan.received]
  | succ k ih =>
    rw [placedBefore, List.range_succ, List.foldl_append, ← placedBefore, ih, List.foldl_cons,
      List.foldl_nil, p.placeOrder_series]

/-- What `plan_replenishment` is given. -/
def planOf (stock0 seuil : K) (forecast : List (Exact K)) (leadTime targetCover lot : ℕ) : Plan K where
  stock0 := stock0
  demand i := amount (value forecast i)
  horizon := forecast.length
  seuil := seuil
  leadTime := leadTime
  targetCover := targetCover
  lot := lot

/-- The stock that `plan_replenishment` computes without orders. -/
def Plan.without (p : Plan K) (k : ℕ) : K := max 0 (p.stock0 - ∑ i ∈ range (k + 1), p.demand i)

omit [IsStrictOrderedRing K] in
/-- **What `plan_replenishment` returns.** -/
theorem planReplenishment_getElem? (stock0 seuil : K) (forecast : List (Exact K))
    (leadTime targetCover lot : ℕ) {k : ℕ} (hk : k < forecast.length) :
    let p := planOf stock0 seuil forecast leadTime targetCover lot
    ∃ risque, (planReplenishment (.of stock0) forecast (.of seuil) leadTime targetCover lot)[k]? =
      some ⟨.of (level stock0 p.demand (p.received p.horizon) k), .of (p.without k),
        .of (p.received p.horizon k), .of (p.ordered p.horizon k), risque⟩ := by
  intro p
  have hplaced := p.placedBefore_series p.horizon
  have hwithout : larger (zero : Exact K)
      (.of stock0 - value (cumsum (series p.horizon p.demand)) k) = .of (p.without k) := by
    have hk' : k < p.horizon := hk
    rw [value_cumsum (by rwa [length_series]), take_series _ (by omega), sum_series, of_sub, zero_eq,
      larger_of]
    rfl
  unfold planReplenishment
  dsimp only
  rw [floored_eq, length_series, List.getElem?_map, List.getElem?_range hk, Option.map_some]
  have hk' : k < p.horizon := hk
  have hstock : value (project (.of stock0) (series p.horizon p.demand)
      (placedBefore (.of p.stock0) (series p.horizon p.demand) (.of p.seuil) p.leadTime
        p.targetCover p.lot p.horizon).reception) k =
      .of (level stock0 p.demand (p.received p.horizon) k) := by
    rw [hplaced, project_series, value_series _ hk']
  have hreception : value (placedBefore (.of p.stock0) (series p.horizon p.demand) (.of p.seuil)
      p.leadTime p.targetCover p.lot p.horizon).reception k = .of (p.received p.horizon k) := by
    rw [hplaced, value_series _ hk']
  have horders : value (placedBefore (.of p.stock0) (series p.horizon p.demand) (.of p.seuil)
      p.leadTime p.targetCover p.lot p.horizon).orders k = .of (p.ordered p.horizon k) := by
    rw [hplaced, value_series _ hk']
  exact ⟨_, congrArg some ((Planned.mk.injEq ..).mpr
    ⟨hstock, hwithout, hreception, horders, rfl⟩)⟩

/-! ## 5. The plan reaches its threshold -/

/-- The claim, of the plan that `plan_replenishment` returns. -/
def ReachesThreshold (stock0 seuil : K) (forecast : List (Exact K))
    (leadTime targetCover lot : ℕ) : Prop :=
  ∃ stock without reception order : ℕ → K,
    (∀ k < forecast.length, ∃ risque,
      (planReplenishment (.of stock0) forecast (.of seuil) leadTime targetCover lot)[k]? =
        some ⟨.of (stock k), .of (without k), .of (reception k), .of (order k), risque⟩) ∧
    ∀ k < forecast.length,
      (0 ≤ stock k ∧ without k ≤ stock k) ∧ (∃ lots : ℕ, order k = lots * lot) ∧
        (k < leadTime → reception k = 0) ∧
        (k + leadTime < forecast.length → reception (k + leadTime) = order k) ∧
        (forecast.length ≤ k + leadTime → order k = 0) ∧
        (leadTime ≤ k → seuil ≤ stock k)

/-- All but the threshold. -/
theorem Plan.ordered_whole (p : Plan K) (n k : ℕ) : ∃ lots : ℕ, p.ordered n k = lots * p.lot := by
  rw [Plan.ordered]
  split
  · exact p.received_whole _ _
  · exact ⟨0, by rw [Nat.cast_zero, zero_mul]⟩

/-- **The plan reaches its threshold exactly where each order makes up for the demand that the
projection loses in the period of its arrival.** -/
theorem reachesThreshold_iff (stock0 seuil : K) (forecast : List (Exact K))
    (leadTime targetCover lot : ℕ) :
    ReachesThreshold stock0 seuil forecast leadTime targetCover lot ↔
      ∀ k, k + leadTime < forecast.length →
        (planOf stock0 seuil forecast leadTime targetCover lot).MakesUp k := by
  have hplan := fun k (hk : k < forecast.length) =>
    planReplenishment_getElem? stock0 seuil forecast leadTime targetCover lot hk
  generalize hp : planOf stock0 seuil forecast leadTime targetCover lot = p at hplan ⊢
  have hh : p.horizon = forecast.length := by rw [← hp]; rfl
  have hl : p.leadTime = leadTime := by rw [← hp]; rfl
  have hs : p.seuil = seuil := by rw [← hp]; rfl
  have h0 : p.stock0 = stock0 := by rw [← hp]; rfl
  have hlot : p.lot = lot := by rw [← hp]; rfl
  constructor
  · rintro ⟨stock, without, reception, order, hcells, hprops⟩ k hk
    rw [← hl, ← hh] at hk
    rw [← p.seuil_le_iff hk]
    have hlt : k + p.leadTime < forecast.length := hh ▸ hk
    obtain ⟨-, -, -, -, -, hseuil⟩ := hprops _ hlt
    obtain ⟨risque, hcell⟩ := hcells _ hlt
    obtain ⟨risque', hcell'⟩ := hplan _ hlt
    have heq := Option.some.inj (hcell.symm.trans hcell')
    have hstock : stock (k + p.leadTime) =
        level stock0 p.demand (p.received p.horizon) (k + p.leadTime) :=
      Exact.of.inj (congrArg Planned.stockProjete heq)
    rw [hs, h0, ← hstock]
    exact hseuil (by omega)
  · intro h
    refine ⟨_, _, _, _, hplan, fun k hk => ⟨⟨level_nonneg _ _ _ _, ?_⟩, ?_, ?_, ?_, ?_, ?_⟩⟩
    · rw [← h0]
      exact stock_ge_without (fun i => p.received_nonneg _ i) k
    · rw [← hlot]
      exact p.ordered_whole _ k
    · intro hlt
      exact p.received_eq_zero (.inl (hl ▸ hlt))
    · intro hlt
      rw [Plan.ordered, if_pos ⟨by omega, by omega⟩, hl]
    · intro hle
      rw [Plan.ordered, if_neg (by omega)]
    · intro hle
      obtain ⟨j, rfl⟩ := Nat.exists_eq_add_of_le' hle
      rw [← hl] at hk ⊢
      rw [← hs, ← h0]
      exact (p.seuil_le_iff (by omega)).mpr (h j (hl ▸ hk))

/-- A steady demand: every order makes up for its period. -/
theorem reachesThreshold_steady : ReachesThreshold (10 : ℚ) 10 [.of 5, .of 5, .of 5] 1 1 1 := by
  refine (reachesThreshold_iff 10 10 [.of 5, .of 5, .of 5] 1 1 1).mpr fun k hk => ?_
  have hk : k + 1 < 3 := hk
  have hcases : k = 0 ∨ k = 1 := by omega
  rcases hcases with rfl | rfl <;> unfold Plan.MakesUp <;> decide +kernel

/-! ## 6. A demand that no order makes up for -/

/-- Five hundred are asked for in the second period. -/
def peak : List (Exact ℚ) := [.of 10, .of 500, .of 10]

/-- Ten in stock and a threshold of ten: the order for the second period is twenty, the threshold
and the period after. -/
theorem not_reachesThreshold_peak : ¬ ReachesThreshold 10 10 peak 1 1 1 := by
  rintro ⟨stock, without, reception, order, hcells, hprops⟩
  obtain ⟨risque, hcell⟩ := hcells 1 (by decide)
  obtain ⟨-, -, -, -, -, hseuil⟩ := hprops 1 (by decide)
  have hplan : (planReplenishment (Exact.of 10) peak (Exact.of 10) 1 1 1)[1]?.map
      Planned.stockProjete = some (Exact.of 0) := by decide +kernel
  rw [hcell, Option.map_some, Option.some_inj, Exact.of.injEq] at hplan
  have hle := hseuil le_rfl
  rw [hplan] at hle
  exact absurd hle (by norm_num)

end Apowerb.Bi.Replenish
