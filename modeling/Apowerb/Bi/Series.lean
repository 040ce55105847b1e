/-
# The series of a plan

The computations of `bi/spec/transforms.py` on ordered series of numbers: the naive forecast, the
simulated inventory, the replenishment plan and the projected cash.  They are written over the
operations of floating-point numbers, whatever these do.
-/
import Mathlib.Data.List.Basic

namespace Apowerb.Bi.Series

/-- The operations of `float` and of numpy's `float64`. -/
class Floats (F : Type) extends Add F, Sub F, Mul F, Div F, NatCast F, OfScientific F where
  nan : F
  isNaN : F → Bool
  isFinite : F → Bool
  /-- `<`, false of nan -/
  lt : F → F → Bool
  isZero : F → Bool
  /-- `math.ceil` -/
  ceil : F → Int
  /-- `round` -/
  round : F → Int
  /-- `np.nan_to_num` -/
  nanToNum : F → F
  ofInt : Int → F

open Floats

variable {F : Type} [Floats F]

/-- A value of an array, nan beyond it. -/
def value (xs : List F) (i : Nat) : F := xs.getD i nan

def zero : F := ((0 : Nat) : F)

def one : F := ((1 : Nat) : F)

/-- `max(a, b)`. -/
def larger (a b : F) : F := if lt a b then b else a

/-- `min(a, b)`. -/
def smaller (a b : F) : F := if lt b a then b else a

/-- The sum of an array, from the left. -/
def sum (xs : List F) : F := xs.foldl (· + ·) zero

/-- `np.cumsum`. -/
def cumsum (xs : List F) : List F := (List.range xs.length).map fun i => sum (xs.take (i + 1))

/-- `np.nanmean`, nan for no value. -/
def nanmean (xs : List F) : F :=
  let known := xs.filter fun x => !isNaN x
  if known = [] then nan else sum known / (known.length : F)

/-- `math.ceil(need / lot - eps) * lot if need > eps else 0`. -/
def rounded (need eps : F) (lot : Nat) : F :=
  if lt eps need then ofInt (ceil (need / (lot : F) - eps) * lot) else zero

/-! ## 1. The naive forecast -/

/-- `np.concatenate([[0.0], np.cumsum(xs)])`. -/
def prefixSums (xs : List F) : List F := zero :: cumsum xs

/-- `_window_means`, for one window. -/
def windowMean (values : List F) (start stop : Nat) : F :=
  let sums := prefixSums (values.map fun x => if isNaN x then zero else x)
  let counts (k : Nat) := ((values.take k).filter fun x => !isNaN x).length
  let count := counts stop - counts start
  if 0 < count then (value sums stop - value sums start) / (count : F) else nan

/-- `naive_forecast_series`. -/
def naiveForecastSeries (values : List F) (window seasonLength : Nat) (trendBounds : F × F) :
    List F :=
  (List.range values.length).map fun i =>
    let prevMean := windowMean values (i - window) i
    let lastYear := if seasonLength ≤ i then value values (i - seasonLength) else nan
    let lyMean := windowMean values (i - seasonLength - window) (i - seasonLength)
    let usable := window ≤ i ∧ seasonLength + window ≤ i ∧ isFinite prevMean ∧ isFinite lyMean ∧
      ¬ isZero lyMean
    let trend := smaller (larger (if usable then prevMean / lyMean else one) trendBounds.1)
      trendBounds.2
    if seasonLength ≤ i ∧ isFinite lastYear then lastYear * trend else prevMean

/-! ## 2. The simulated inventory -/

/-- What `simulate_inventory` reads of its step. -/
structure Stocking (F : Type) where
  safetyFactor : F
  orderFactor : F
  leadTime : Nat
  lotSizes : List (String × Int)
  defaultLot : Nat
  partialRate : F
  initialCover : F
  seed : Int

/-- `_group_lot`. -/
def groupLot (step : Stocking F) (key : String) (lotKey : Option String) : Nat :=
  ((lotKey.toList ++ [key]).findSome? fun k =>
    (step.lotSizes.lookup k).bind fun lot => if 1 ≤ lot then some lot.toNat else none).getD
      step.defaultLot

/-- `INVENTORY_COLUMNS`, of one period. -/
structure Period (F : Type) where
  stockDebut : F
  appro : F
  ventesServies : F
  demandeNonServie : F
  stockFin : F
  stockSecurite : F
  commande : F

/-- What `simulate_inventory` knows before a period: the orders of the periods so far, and the stock
at the end of the last one that was simulated. -/
structure Stocked (F : Type) where
  orders : List F
  stockPrev : Option F

/-- The body of the loop of `simulate_inventory`. -/
def simulatePeriod (step : Stocking F) (lot : Nat) (half : List Bool) (demand fc : List F)
    (t : Nat) (s : Stocked F) : Option (Period F) × Stocked F :=
  let d := value demand t
  if isFinite d then
    let f := if isFinite (value fc t) then value fc t else d
    let safety := step.safetyFactor * f
    let start := s.stockPrev.getD (step.initialCover * f)
    let received :=
      if t < step.leadTime then zero
      else s.orders.getD (t - step.leadTime) zero * (if half.getD t false then 0.5 else one)
    let served := smaller d (start + received)
    let stop := start + received - served
    let next := if isFinite (value fc (t + 1)) then value fc (t + 1) else f
    let order := rounded (step.orderFactor * next + safety - stop) 1e-12 lot
    (some ⟨start, received, served, d - served, stop, safety, order⟩,
      ⟨s.orders ++ [order], some stop⟩)
  -- `continue`: no order is placed, and none received
  else (none, ⟨s.orders ++ [zero], s.stockPrev⟩)

/-- The loop of `simulate_inventory` up to a period. -/
def stockedBefore (step : Stocking F) (lot : Nat) (half : List Bool) (demand fc : List F) :
    Nat → Stocked F
  | 0 => ⟨[], none⟩
  | t + 1 => (simulatePeriod step lot half demand fc t
      (stockedBefore step lot half demand fc t)).2

/-- `rng.random(n) < step.partial_rate`, where `draws` are the first numbers of the generator. -/
def halfDelivery (draws : Int → String → Nat → List F) (step : Stocking F) (key : String)
    (n : Nat) : List Bool := (draws step.seed key n).map fun x => lt x step.partialRate

/-- `np.where(np.isfinite(forecast), forecast, demand)`. -/
def forecastOr (forecast demand : List F) : List F :=
  List.zipWith (fun f d => if isFinite f then f else d) forecast demand

/-- `simulate_inventory`. -/
def simulateInventory (draws : Int → String → Nat → List F) (demand forecast : List F)
    (step : Stocking F) (key : String) (lotKey : Option String) : List (Option (Period F)) :=
  let half := halfDelivery draws step key demand.length
  let fc := forecastOr forecast demand
  let lot := groupLot step key lotKey
  (List.range demand.length).map fun t =>
    (simulatePeriod step lot half demand fc t (stockedBefore step lot half demand fc t)).1

/-! ## 3. The replenishment plan -/

/-- What `plan_replenishment` computes, of one period. -/
structure Planned (F : Type) where
  stockProjete : F
  stockSansCommande : F
  reception : F
  commande : F
  risque : F

/-- `project`: the stocks from a period on, after that before it. -/
def project : F → List F → List F → List F
  | prev, f :: fc, r :: reception =>
    let stock := larger zero (prev + r - f)
    stock :: project stock fc reception
  | _, _, _ => []

/-- `cover`. -/
def cover (fc : List F) (targetCover start : Nat) : F :=
  sum ((List.range targetCover).map fun j => fc.getD (start + j) (fc.getLastD zero))

/-- What was ordered so far, by the period in which it is received and that in which it is
ordered. -/
structure Placed (F : Type) where
  reception : List F
  orders : List F

/-- The body of the loop of `plan_replenishment`. -/
def placeOrder (stock0 : F) (fc : List F) (seuil : F) (leadTime targetCover lot : Nat)
    (placed : Placed F) (k : Nat) : Placed F :=
  let arrival := k + leadTime
  -- the loop ends at the first order that would arrive after the horizon
  if fc.length ≤ arrival then placed
  else
    let atArrival := value (project stock0 fc placed.reception) arrival
    if lt atArrival seuil then
      let need := seuil + cover fc targetCover (arrival + 1) - atArrival
      let qty := rounded need 1e-9 lot
      ⟨placed.reception.set arrival (value placed.reception arrival + qty), placed.orders.set k qty⟩
    else placed

/-- The loop of `plan_replenishment` up to a period. -/
def placedBefore (stock0 : F) (fc : List F) (seuil : F) (leadTime targetCover lot k : Nat) :
    Placed F :=
  (List.range k).foldl (placeOrder stock0 fc seuil leadTime targetCover lot)
    ⟨fc.map fun _ => zero, fc.map fun _ => zero⟩

/-- Demand that is known, and not negative. -/
def floored (xs : List F) : List F := xs.map fun x => if isFinite x then larger x zero else zero

/-- `plan_replenishment`. -/
def planReplenishment (stock0 : F) (forecast : List F) (seuil : F)
    (leadTime targetCover lot : Nat) : List (Planned F) :=
  let fc := floored forecast
  let placed := placedBefore stock0 fc seuil leadTime targetCover lot fc.length
  let stock := project stock0 fc placed.reception
  (List.range fc.length).map fun k =>
    ⟨value stock k, larger zero (stock0 - value (cumsum fc) k), value placed.reception k,
      value placed.orders k,
      if lt (value stock k) seuil then ((2 : Nat) : F)
      else if lt zero (value placed.orders k) then one else zero⟩

/-! ## 4. The projected cash -/

/-- What `project_cash` computes, of one period; of each scenario the balance, and whether it is
under the threshold. -/
structure Projected (F : Type) where
  encaissements : F
  decaissements : F
  fluxNet : F
  central : F × F
  pessimiste : F × F
  optimiste : F × F

/-- `balance < threshold - 1e-9`, as a number. -/
def isUnder (balance threshold : F) : F :=
  if lt balance (threshold - 1e-9) then one else zero

/-- `project_cash`. -/
def projectCash (balance0 : F) (inflow outflow : List F) (inflowShock outflowShock threshold : F) :
    List (Projected F) :=
  let enc := floored inflow
  let dec := floored outflow
  let balance (fi fo : F) (k : Nat) :=
    balance0 + value (cumsum (List.zipWith (fun i o => i * fi - o * fo) enc dec)) k
  let scenario (fi fo : F) (k : Nat) := (balance fi fo k, isUnder (balance fi fo k) threshold)
  (List.range enc.length).map fun k =>
    ⟨value enc k, value dec k, value enc k - value dec k, scenario one one k,
      scenario (one - inflowShock) (one + outflowShock) k,
      scenario (one + inflowShock) (one - outflowShock) k⟩

end Apowerb.Bi.Series
