/-
# The plans of the groups of a frame

The steps of `bi/spec/transforms.py` that go through a frame group by group: the rows are sorted by
the columns of the group and the date, and what is computed for a group is written at its rows.

A group is known by its values.  Its text, in which they are joined, names its lots and its draws,
and groups the rows appended for future periods once more.  The columns `_key` and `_last`, in which
the replenishment plan keeps this text and the last real row, are taken to be no columns of the
frame.
-/
import Apowerb.Bi.Transforms
import Apowerb.Lib.Groups

namespace Apowerb.Bi.Transforms

open Spec (Provenance)
open Series Lib

variable {V F : Type} [DecidableEq V] [Floats F] (t : Tables V F)

/-! ## 1. Groups -/

/-- The order of `sort_values`. -/
def rowBefore (columns : List String) (a b : Row V) : Bool :=
  keysBefore t.before (columns.map a) (columns.map b)

def sortedRows (columns : List String) (rows : List (Row V)) : List (Row V) :=
  rows.insertionSort fun a b => rowBefore t columns a b = true

/-- `"|".join(str(p) for p in parts)`. -/
def keyText (key : List V) : String := "|".intercalate (key.map t.label)

/-! ## 2. The replenishment plan of a group -/

/-- `ReplenishmentPlanStep`. -/
structure ReplenishmentPlan (F : Type) where
  date : String
  by_ : List String
  stock : String
  demand : String
  forecast : String
  safetyColumn : Option String
  leadTimeColumn : Option String
  safetyWeeks : F
  leadTime : Nat
  targetCover : Nat
  horizon : Nat
  keepHistory : Nat
  lotSizes : List (String × Int)
  defaultLot : Nat

/-- `PLAN_COLUMNS`. -/
def planColumns : List String :=
  ["stock_projete", "stock_sans_commande", "reception", "commande", "seuil_plan", "delai_plan",
    "risque", "semaine_plan"]

/-- The cells of a row in these columns. -/
def planCells (stockProjete stockSansCommande reception commande seuil delai risque semaine : F) :
    List (String × V) :=
  planColumns.zip ([stockProjete, stockSansCommande, reception, commande, seuil, delai, risque,
    semaine].map t.number)

/-- `_last_finite` of one cell. -/
def lastFinite (v : V) : Option F :=
  if Floats.isNaN (t.numeric v) then none else some (t.numeric v)

/-- `settings`: the threshold and the lead time, from the last real row and the forecast. -/
def settings (step : ReplenishmentPlan F) (last : Row V) (fc : List F) : F × Nat :=
  let seuil := (step.safetyColumn.bind fun c => lastFinite t (last c)).getD
    (step.safetyWeeks * if fc.isEmpty then zero else nanmean fc)
  let lead := (step.leadTimeColumn.bind fun c => lastFinite t (last c)).elim step.leadTime
    fun delai => (min 12 (max 1 (Floats.round delai))).toNat
  (seuil, lead)

/-- `lots.get(key, step.default_lot)`. -/
def lotOf (step : ReplenishmentPlan F) (text : String) : Nat :=
  ((step.lotSizes.lookup text).filter (1 ≤ ·)).elim step.defaultLot Int.toNat

/-- `fill`: the cells of the future periods. -/
def fill (step : ReplenishmentPlan F) (text : String) (last : Row V) (fc : List F) :
    List (List (String × V)) :=
  let (seuil, lead) := settings t step last fc
  let plan := planReplenishment (t.numeric (last step.stock)) fc seuil lead step.targetCover
    (lotOf step text)
  plan.zipIdx.map fun (p, k) => planCells t p.stockProjete p.stockSansCommande p.reception
    p.commande seuil (lead : F) p.risque ((k + 1 : Nat) : F)

/-- What the step finds in the rows of a group, by their places. -/
structure Outline (V F : Type) where
  history : List Nat
  last : Nat
  lastRow : Row V
  future : List Nat
  mean : F

/-- The mean of the last of the numbers that are known. -/
def recentMean (n : Nat) (xs : List F) : F :=
  let known := xs.filter fun x => !Floats.isNaN x
  let recent := known.drop (known.length - n)
  if recent.isEmpty then zero else sum recent / (recent.length : F)

/-- The rows that are kept of a group and the mean that stands for its forecast, none for a group
without a stock. -/
def outline (step : ReplenishmentPlan F) (rows : List (Row V)) : Option (Outline V F) :=
  let row (i : Nat) : Row V := rows.getD i fun _ => t.missing
  let has (c : String) (i : Nat) : Bool := !Floats.isNaN (t.numeric (row i c))
  let real := (List.range rows.length).filter (has step.stock)
  real.getLast?.map fun last =>
    let after := (List.range rows.length).filter (last < ·)
    { history := real.drop (real.length - if step.keepHistory = 0 then 1 else step.keepHistory)
      last := last
      lastRow := row last
      future := (after.filter (has step.forecast)).take step.horizon
      mean := recentMean 4 ((rows.take (last + 1)).map fun r => t.numeric (r step.demand)) }

/-- The forecast of a group: that of its future rows, or the mean for each period. -/
def Outline.forecast (step : ReplenishmentPlan F) (rows : List (Row V)) (o : Outline V F) : List F :=
  if o.future.isEmpty then List.replicate step.horizon o.mean
  else o.future.map fun i => t.numeric ((rows.getD i fun _ => t.missing) step.forecast)

/-- The cells of the rows of a group, nothing for a row that is left out. -/
def keptCells (step : ReplenishmentPlan F) (text : String) (rows : List (Row V)) :
    List (Option (List (String × V))) :=
  match outline t step rows with
  | none => rows.map fun _ => none
  | some o =>
    let fc := o.forecast t step rows
    let (seuil, lead) := settings t step o.lastRow fc
    let plan := fill t step text o.lastRow fc
    (List.range rows.length).map fun i =>
      if i ∈ o.history then
        let stock := t.numeric ((rows.getD i fun _ => t.missing) step.stock)
        some (planCells t stock Floats.nan Floats.nan Floats.nan seuil (lead : F) Floats.nan
          (if i = o.last then zero else Floats.nan))
      else if i ∈ o.future then plan[o.future.idxOf i]?
      else none

/-- `pd.Timedelta(weeks=1)`. -/
def nanosPerWeek : Int := 604800000000000

/-- The times between dates that follow one another. -/
def stepsOf (known : List Int) : List Int := List.zipWith (fun a b => b - a) known known.tail

/-- `_future_dates`, of dates that are known and sorted. -/
def datesAfter (known : List Int) (n : Nat) : Except String (List Int) :=
  let median := if stepsOf known = [] then nanosPerWeek else t.median (stepsOf known)
  let step := if median ≤ 0 then nanosPerWeek else median
  match known.getLast? with
  | none => .error "IndexError"
  | some last => .ok ((List.range n).map fun i => last + step * (i + 1 : Nat))

/-- `_future_dates`. -/
def futureDates (dates : List V) (n : Nat) : Except String (List Int) :=
  datesAfter t ((dates.filterMap (t.nanos dates)).insertionSort (· ≤ ·)) n

/-- A row appended for a future period, with the last real row of its group. -/
structure Appended (V F : Type) where
  group : List V
  text : String
  lastRow : Row V
  row : Row V
  mean : F

/-- The rows appended for a group without a forecast. -/
def appendedRows (step : ReplenishmentPlan F) (group : List V) (rows : List (Row V)) :
    Except String (List (Appended V F)) :=
  match outline t step rows with
  | none => .ok []
  | some o =>
    if o.future.isEmpty then do
      let dates ← futureDates t ((rows.take (o.last + 1)).map (· step.date)) step.horizon
      .ok (dates.map fun ts =>
        let cells := (step.date, t.instant ts) :: step.by_.map (fun b => (b, o.lastRow b)) ++
          [(step.forecast, t.number o.mean)]
        ⟨group, keyText t group, o.lastRow, setAll (fun _ => t.missing) cells, o.mean⟩)
    else .ok []

/-! ## 3. The step -/

/-- A row with columns of forecasts, empty where the frame has none, and with its date read. -/
def readRow (date : String) (forecasts : List String) (df : Frame V) (r : Row V) : Row V :=
  let r := setAll r ((forecasts.filter (· ∉ df.columns)).map (·, t.missing))
  let stamp := t.nanos (df.rows.map (· date)) (r date)
  setAll r [(date, stamp.elim t.missing t.instant)]

def prepareRow (step : ReplenishmentPlan F) : Frame V → Row V → Row V :=
  readRow t step.date [step.forecast]

/-- The columns that the plan is sorted by. -/
def ReplenishmentPlan.sortColumns (step : ReplenishmentPlan F) : List String :=
  step.by_ ++ [step.date]

def ReplenishmentPlan.key (step : ReplenishmentPlan F) (r : Row V) : List V := step.by_.map r

/-- The frame sorted, as `_sorted_groups` returns it. -/
def planFrame (step : ReplenishmentPlan F) (df : Frame V) : List (Row V) :=
  sortedRows t step.sortColumns (df.rows.map (prepareRow t step df))

/-- The rows of a group. -/
def groupRows (step : ReplenishmentPlan F) (rows : List (Row V)) (group : List V) : List (Row V) :=
  rows.filter fun r => step.key r = group

/-- The cells of the rows appended with one text. -/
def appendedCells (step : ReplenishmentPlan F) (appended : List (Appended V F)) (text : String) :
    List (List (String × V)) :=
  let part := appended.filter (·.text = text)
  match part.head? with
  | none => []
  | some a => fill t step text a.lastRow (part.map (·.mean))

/-- The rows of the plan that were rows of the frame, each with its group. -/
def keptRows (step : ReplenishmentPlan F) (rows : List (Row V)) : List (List V × Row V) :=
  (scatter step.key (fun g => keptCells t step (keyText t g) (groupRows step rows g)) rows).filterMap
    fun (r, cells) => cells.map fun cells => (step.key r, setAll r cells)

/-- The rows of the plan that were appended, each with its group. -/
def extraRows (step : ReplenishmentPlan F) (appended : List (Appended V F)) :
    List (List V × Row V) :=
  (scatter Appended.text (appendedCells t step appended) appended).map
    fun (a, cells) => (a.group, setAll a.row cells)

/-- The rows of the plan with their groups, and whether a group had no forecast. -/
def planRows (step : ReplenishmentPlan F) (df : Frame V) :
    Except String (List (List V × Row V) × Bool) := do
  let rows := planFrame t step df
  let groups := (rows.map step.key).dedup
  let appended ← groups.mapM fun g => appendedRows t step g (groupRows step rows g)
  let kept := keptRows t step rows
  let extra := extraRows t step appended.flatten
  if appended.flatten.isEmpty then .ok (kept, false)
  else .ok ((kept ++ extra).insertionSort fun a b => rowBefore t step.sortColumns a.2 b.2 = true,
    true)

/-- `_replenishment_plan_step`. -/
def replenishmentPlanStep (s : TransformState V) (step : ReplenishmentPlan F) (what : String) :
    Except String (TransformState V) := do
  need s.df (step.date :: step.stock :: step.demand :: step.by_ ++
    step.safetyColumn.toList ++ step.leadTimeColumn.toList) what
  let (rows, fallback) ← planRows t step s.df
  let marked := mark (mark s.prov ["stock_projete", "stock_sans_commande", "risque"] .forecast)
    ["reception", "commande"] .simulated
  let seuil := if step.safetyColumn.isSome then Provenance.real else .simulated
  let delai := if step.leadTimeColumn.isSome then Provenance.real else .simulated
  let marked := mark (mark (mark marked ["seuil_plan"] seuil) ["delai_plan"] delai)
    ["semaine_plan"] .real
  let prov := if fallback then mark marked [step.forecast] .forecast else marked
  return withFrame ⟨addColumns s.df.columns (step.forecast :: planColumns), rows.map (·.2)⟩ prov

/-! ## 4. The naive forecast and the simulated inventory -/

/-- `NaiveForecastStep`. -/
structure NaiveForecast (F : Type) where
  date : String
  value : String
  by_ : List String
  output : String
  window : Nat
  seasonLength : Nat
  trendBounds : F × F

/-- The rows of each group in order, with what is made of the group. -/
def eachGroup {β : Type} (by_ : List String) (make : List V → List (Row V) → List β)
    (rows : List (Row V)) : List (Row V × β) :=
  scatter by_.map (fun g => make g (rows.filter fun r => by_.map r = g)) rows

/-- `_naive_forecast_step`. -/
def naiveForecastStep (s : TransformState V) (step : NaiveForecast F) (what : String) :
    Except String (TransformState V) := do
  need s.df (step.date :: step.value :: step.by_) what
  let forecast (_ : List V) (rows : List (Row V)) : List V :=
    (naiveForecastSeries (rows.map fun r => t.numeric (r step.value)) step.window step.seasonLength
      step.trendBounds).map t.number
  let out := sortedRows t (step.by_ ++ [step.date]) s.df.rows
  return withFrame ⟨addColumns s.df.columns [step.output],
    (eachGroup step.by_ forecast out).map fun (r, v) => setAll r [(step.output, v)]⟩
    (mark s.prov [step.output] .forecast)

/-- `InventorySimStep`. -/
structure InventorySim (F : Type) where
  date : String
  by_ : List String
  demand : String
  forecast : String
  lotColumn : Option String
  stocking : Stocking F

/-- `INVENTORY_COLUMNS`. -/
def inventoryColumns : List String :=
  ["stock_debut", "appro", "ventes_servies", "demande_non_servie", "stock_fin", "stock_securite",
    "commande"]

/-- The cells of a period in these columns, empty where it was not simulated. -/
def inventoryCells (period : Option (Period F)) : List (String × V) :=
  inventoryColumns.zip ((match period with
    | none => List.replicate 7 Floats.nan
    | some p => [p.stockDebut, p.appro, p.ventesServies, p.demandeNonServie, p.stockFin,
        p.stockSecurite, p.commande]).map t.number)

/-- `_inventory_sim_step`. -/
def inventorySimStep (s : TransformState V) (step : InventorySim F) (what : String) :
    Except String (TransformState V) := do
  need s.df (step.date :: step.demand :: step.forecast :: step.by_ ++ step.lotColumn.toList) what
  let simulate (g : List V) (rows : List (Row V)) : List (Option (Period F)) :=
    let lotKey := step.lotColumn.bind fun c => rows.head?.map fun r => t.label (r c)
    simulateInventory t.draws (rows.map fun r => t.numeric (r step.demand))
      (rows.map fun r => t.numeric (r step.forecast)) step.stocking (keyText t g) lotKey
  let out := sortedRows t (step.by_ ++ [step.date]) s.df.rows
  return withFrame ⟨addColumns s.df.columns inventoryColumns,
    (eachGroup step.by_ simulate out).map fun (r, p) => setAll r (inventoryCells t p)⟩
    (mark s.prov inventoryColumns .simulated)

/-! ## 5. The projected cash -/

/-- `CashForecastStep`. -/
structure CashForecast (F : Type) where
  date : String
  by_ : List String
  balance : Option String
  inflow : String
  outflow : String
  forecastInflow : String
  forecastOutflow : String
  inflowShock : F
  outflowShock : F
  minCash : F
  minCashColumn : Option String
  openingBalance : F
  horizon : Nat
  keepHistory : Nat
  fallbackWindow : Nat

/-- `CASH_COLUMNS`. -/
def cashColumns : List String :=
  ["solde_projete_central", "solde_projete_pessimiste", "solde_projete_optimiste",
    "encaissements_projetes", "decaissements_projetes", "flux_net_projete", "seuil_tresorerie",
    "sous_seuil_central", "sous_seuil_pessimiste", "sous_seuil_optimiste", "semaine_plan"]

/-- These columns in the order in which the parts bring them. -/
def cashPartColumns : List String :=
  ["solde_projete_central", "solde_projete_pessimiste", "solde_projete_optimiste",
    "seuil_tresorerie", "semaine_plan", "sous_seuil_central", "sous_seuil_pessimiste",
    "sous_seuil_optimiste", "encaissements_projetes", "decaissements_projetes",
    "flux_net_projete"]

/-- `_cash_future_dates`: calendar months for monthly data. -/
def cashFutureDates (dates : List V) (n : Nat) : Except String (List Int) :=
  let known := ((dates.filterMap (t.nanos dates)).insertionSort (· ≤ ·)).dedup
  let days (k : Int) : Int := k * 86400000000000
  match known.getLast? with
  | none => datesAfter t known n
  | some last =>
    if stepsOf known ≠ [] ∧ days 27 ≤ t.median (stepsOf known) ∧
        t.median (stepsOf known) ≤ days 32 then
      .ok ((List.range n).map fun i =>
        if t.isMonthEnd last then t.monthEnd last (i + 1) else t.addMonths last (i + 1))
    else datesAfter t known n

/-- The numbers of a column. -/
def numbers (rows : List (Row V)) (c : String) : List F := rows.map fun r => t.numeric (r c)

/-- The balances of the real rows: those of the column, or what the flows make of the first one. -/
def realBalances (step : CashForecast F) (real : List (Row V)) : List F :=
  match step.balance with
  | some c => numbers t real c
  | none =>
    let flows := List.zipWith (fun i o => Floats.nanToNum i - Floats.nanToNum o)
      (numbers t real step.inflow) (numbers t real step.outflow)
    (cumsum flows).map fun x => step.openingBalance + x

/-- Whether a row carries a real value. -/
def CashForecast.isReal (step : CashForecast F) (r : Row V) : Bool :=
  match step.balance with
  | some c => Floats.isFinite (t.numeric (r c))
  | none => Floats.isFinite (t.numeric (r step.inflow)) ||
      Floats.isFinite (t.numeric (r step.outflow))

/-- The rows kept of a group, with their balances; `isLast` on the last real one. -/
def cashHistory (balances : List F) (threshold : F) (keep : List (Row V)) : List (Row V) :=
  let last := balances.getLastD Floats.nan
  let kept := balances.drop (balances.length - keep.length)
  (keep.zip kept).zipIdx.map fun ((r, balance), j) =>
    let isLast : Bool := j + 1 = keep.length
    let under := if isLast then isUnder last threshold else Floats.nan
    setAll r ([("solde_projete_central", balance), ("solde_projete_pessimiste", balance),
      ("solde_projete_optimiste", balance), ("seuil_tresorerie", threshold),
      ("semaine_plan", if isLast then zero else Floats.nan), ("sous_seuil_central", under),
      ("sous_seuil_pessimiste", under), ("sous_seuil_optimiste", under)].map
        fun (c, x) => (c, t.number x))

/-- The first number of a column that is known. -/
def firstKnown (rows : List (Row V)) (c : String) : F :=
  ((numbers t rows c).find? fun x => !Floats.isNaN x).getD Floats.nan

/-- The future periods of a group: one for each date, with its forecasts. -/
def cashFuture (step : CashForecast F) (after : List (Row V)) : List (V × F × F) :=
  let dates := (after.map (· step.date)).dedup
  let periods := dates.map fun d =>
    let rows := after.filter fun r => r step.date = d
    (d, firstKnown t rows step.forecastInflow, firstKnown t rows step.forecastOutflow)
  (periods.filter fun p => !Floats.isNaN p.2.1 || !Floats.isNaN p.2.2).take step.horizon

/-- `arr[missing] = recent.mean()`. -/
def filled (xs : List F) (window : Nat) (real : List F) : List F :=
  xs.map fun x => if Floats.isFinite x then x else recentMean window real

/-- The future rows of a group. -/
def cashRows (step : CashForecast F) (balances : List F) (threshold : F) (last : Row V)
    (dates : List V) (inflow outflow : List F) : List (Row V) :=
  let plan := projectCash (balances.getLastD Floats.nan) inflow outflow step.inflowShock
    step.outflowShock threshold
  ((dates.zip (inflow.zip outflow)).zip plan).zipIdx.map fun (((d, i, o), p), k) =>
    setAll (fun _ => t.missing) ((step.date, d) :: step.by_.map (fun b => (b, last b)) ++
      [(step.forecastInflow, i), (step.forecastOutflow, o),
        ("encaissements_projetes", p.encaissements), ("decaissements_projetes", p.decaissements),
        ("flux_net_projete", p.fluxNet), ("solde_projete_central", p.central.1),
        ("sous_seuil_central", p.central.2), ("solde_projete_pessimiste", p.pessimiste.1),
        ("sous_seuil_pessimiste", p.pessimiste.2), ("solde_projete_optimiste", p.optimiste.1),
        ("sous_seuil_optimiste", p.optimiste.2), ("seuil_tresorerie", threshold),
        ("semaine_plan", ((k + 1 : Nat) : F))].map fun (c, x) => (c, t.number x))

/-- The rows of a group with its future, none for a group without real values. -/
def cashGroup (step : CashForecast F) (rows : List (Row V)) : Except String (List (Row V)) :=
  let dated := rows.filter fun r => r step.date ≠ t.missing
  let places := (List.range dated.length).filter fun i =>
    (dated[i]?).any (CashForecast.isReal t step)
  match places.getLast? with
  | none => .ok []
  | some place => do
    let real := dated.filter (CashForecast.isReal t step)
    let balances := realBalances t step real
    let threshold := (step.minCashColumn.bind fun c =>
      ((numbers t real c).filter fun x => !Floats.isNaN x).getLast?).getD step.minCash
    let keep := real.drop
      (real.length - if step.keepHistory = 0 then 1 else step.keepHistory)
    let future := cashFuture t step (dated.drop (place + 1))
    let forecast ←
      if future.isEmpty then do
        let dates ← cashFutureDates t (real.map (· step.date)) step.horizon
        .ok (dates.map fun d => (t.instant d, Floats.nan, Floats.nan))
      else .ok future
    let fill (xs : List F) (c : String) := filled xs step.fallbackWindow (numbers t real c)
    .ok (cashHistory t balances threshold keep ++
      cashRows t step balances threshold (dated.getD place fun _ => t.missing)
        (forecast.map (·.1)) (fill (forecast.map (·.2.1)) step.inflow)
        (fill (forecast.map (·.2.2)) step.outflow))

/-- `_cash_forecast_step`. -/
def cashForecastStep (s : TransformState V) (step : CashForecast F) (what : String) :
    Except String (TransformState V) := do
  need s.df (step.date :: step.inflow :: step.outflow :: step.by_ ++ step.balance.toList ++
    step.minCashColumn.toList) what
  let forecasts := [step.forecastInflow, step.forecastOutflow]
  let columns := step.by_ ++ [step.date]
  let rows := sortedRows t columns (s.df.rows.map (readRow t step.date forecasts s.df))
  let groups := (rows.map step.by_.map).dedup
  let parts ← groups.mapM fun g => cashGroup t step (rows.filter fun r => step.by_.map r = g)
  let out := addColumns s.df.columns forecasts
  let df : Frame V :=
    if parts.flatten.isEmpty then ⟨addColumns out cashColumns, []⟩
    else ⟨addColumns out cashPartColumns, sortedRows t columns parts.flatten⟩
  let marked := mark s.prov (["solde_projete_central", "encaissements_projetes",
    "decaissements_projetes", "flux_net_projete", "sous_seuil_central"] ++ forecasts) .forecast
  let marked := mark marked ["solde_projete_pessimiste", "solde_projete_optimiste",
    "sous_seuil_pessimiste", "sous_seuil_optimiste"] .simulated
  let seuil := if step.minCashColumn.isSome then Provenance.real else .simulated
  return withFrame df (mark (mark marked ["seuil_tresorerie"] seuil) ["semaine_plan"] .real)

/-! ## 6. All the steps -/

section Steps

variable (env : Env V F)

/-- `_forecast_step`.  Where the service gives no period the column is there, and empty. -/
def forecastStep (s : TransformState V) (date value : String) (by_ : List String)
    (output what : String) : Except String (TransformState V) := do
  need s.df (date :: value :: by_) what
  let periods := (env.engine s.df date value by_).getD []
  let base := s.df.rows.map fun r => setAll r [(output, env.missing)]
  let future := periods.map fun (g, d, x) =>
    setAll (fun _ => env.missing) ((date, d) :: by_.zip g ++ [(output, x)])
  return withFrame ⟨addColumns s.df.columns [output], base ++ future⟩
    (mark s.prov [output] .forecast)

/-- A transform with all its parameters. -/
inductive Step (F : Type)
  | filter («where» : String)
  | derive (column expr : String) (provenance : Option Provenance)
  | aggregate (groupBy : List String) (aggregates : List (String × String))
  | join (source : String) (on : List String) (how : How) (columns : Option (List String))
  | sql (query : String)
  | naiveForecast (step : NaiveForecast F)
  | forecast (date value : String) (by_ : List String) (output : String)
  | inventorySim (step : InventorySim F)
  | replenishmentPlan (step : ReplenishmentPlan F)
  | cashForecast (step : CashForecast F)

/-- What it names of the columns and the sources. -/
def Step.names : Step F → Spec.TransformStep
  | .filter condition => .filter condition
  | .derive column expr provenance => .derive column expr provenance
  | .aggregate groupBy aggregates => .aggregate groupBy aggregates
  | .join source on how columns => .join source on (how = .inner) columns
  | .sql query => .sql query
  | .naiveForecast p => .naiveForecast p.date p.value p.by_ p.output
  | .forecast date value by_ output => .forecast date value by_ output
  | .inventorySim p => .inventorySim p.date p.by_ p.demand p.forecast p.lotColumn
  | .replenishmentPlan p => .replenishmentPlan p.date p.by_ p.stock p.demand p.forecast
      p.safetyColumn p.leadTimeColumn
  | .cashForecast p => .cashForecast p.date p.by_ p.balance p.inflow p.outflow p.forecastInflow
      p.forecastOutflow p.minCashColumn

/-- The turn of `apply_transforms` on its `i`-th step; `get` is `ctx.get_source`. -/
def applyStep (get : String → Except String (TransformState V)) (s : TransformState V)
    (step : Step F × Nat) : Except String (TransformState V) :=
  let what := "transform " ++ toString step.2 ++ " (" ++ step.1.names.op ++ ")"
  match step.1 with
  | .filter condition => filterStep env s condition
  | .derive column expr provenance => deriveStep env s column expr provenance
  | .aggregate groupBy aggregates => aggregateStep env s groupBy aggregates what
  | .join source on how columns => do
    let other ← get source
    joinStep env s other source on how columns what
  | .sql query => sqlStep env s query
  | .naiveForecast p => naiveForecastStep env.toTables s p what
  | .forecast date value by_ output => forecastStep env s date value by_ output what
  | .inventorySim p => inventorySimStep env.toTables s p what
  | .replenishmentPlan p => replenishmentPlanStep env.toTables s p what
  | .cashForecast p => cashForecastStep env.toTables s p what

/-- `apply_transforms`. -/
def applyTransforms (get : String → Except String (TransformState V)) (s : TransformState V)
    (steps : List (Step F)) : Except String (TransformState V) :=
  (steps.zipIdx 1).foldlM (applyStep env get) s

end Steps

end Apowerb.Bi.Transforms
