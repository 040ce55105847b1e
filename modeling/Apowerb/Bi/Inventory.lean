/-
# The simulated inventory and its orders

`simulate_inventory` (`bi/spec/transforms.py`) in exact numbers: period by period, over a demand and
a forecast of which entries may be missing, with any outcome of the draw of the partial deliveries.
A period without a demand is skipped.

* **What a period says of itself is conserved**: its stock, what it served and what it did not
  (`Conserves.balance`), and its first stock is the last of the period simulated before it
  (`Conserves.previous`).
* **What is ordered may be lost.**  The order of a period is looked for `lead_time` periods later and
  nowhere else (`appro_eq`).  Where that period is skipped nobody looks, and the order is not
  received by the next period either.  So every order is received exactly where no order is due in a
  period that is skipped before one that is not (`conserved_iff`).
-/
import Apowerb.Bi.Exact
import Mathlib.Algebra.Order.BigOperators.Group.Finset

namespace Apowerb.Bi.Inventory

open Series Series.Exact Finset

variable {K : Type}

/-! ## 1. Exact parameters and periods -/

/-- Parameters given in exact numbers. -/
def exactStep (step : Stocking K) : Stocking (Exact K) where
  safetyFactor := .of step.safetyFactor
  orderFactor := .of step.orderFactor
  leadTime := step.leadTime
  lotSizes := step.lotSizes
  defaultLot := step.defaultLot
  partialRate := .of step.partialRate
  initialCover := .of step.initialCover
  seed := step.seed

def exactPeriod (p : Period K) : Period (Exact K) :=
  ⟨.of p.stockDebut, .of p.appro, .of p.ventesServies, .of p.demandeNonServie, .of p.stockFin,
    .of p.stockSecurite, .of p.commande⟩

variable [Field K] [LinearOrder K]

/-- The number there is, or nothing. -/
def amount : Exact K → K
  | .nan => 0
  | .of x => x

def periodAmounts (p : Period (Exact K)) : Period K :=
  ⟨amount p.stockDebut, amount p.appro, amount p.ventesServies, amount p.demandeNonServie,
    amount p.stockFin, amount p.stockSecurite, amount p.commande⟩

/-- How much of a delivery arrives. -/
def share (half : List Bool) (t : ℕ) : K := if half.getD t false then 0.5 else 1

/-! ## 2. What a simulation promises

`run` gives the simulated periods, and nothing for a period that is skipped. -/

/-- What is ordered in a period. -/
def ordered (run : ℕ → Option (Period K)) (t : ℕ) : K := ((run t).map (·.commande)).getD 0

/-- The stock at the end of the last period simulated before `t`. -/
def lastStop (run : ℕ → Option (Period K)) : ℕ → Option K
  | 0 => none
  | t + 1 => ((run t).map (·.stockFin)).or (lastStop run t)

/-- The order of `t'` is due in `t`: `lead` periods later, or in the next period simulated. -/
def Due (lead : ℕ) (run : ℕ → Option (Period K)) (t t' : ℕ) : Prop :=
  t' + lead ≤ t ∧ ∀ g < t, t' + lead ≤ g → (run g).isNone

instance (lead : ℕ) (run : ℕ → Option (Period K)) (t : ℕ) : DecidablePred (Due lead run t) :=
  fun _ => inferInstanceAs (Decidable (_ ∧ _))

/-- A period conserves the stock: its own balance, that to the period before, and every order that
is due. -/
structure Conserves (lead : ℕ) (half : List Bool) (demand : List (Exact K))
    (run : ℕ → Option (Period K)) (t : ℕ) (p : Period K) : Prop where
  balance : p.stockFin = p.stockDebut + p.appro - p.ventesServies
  nonneg : 0 ≤ p.stockFin
  asked : demand[t]? = some (.of (p.ventesServies + p.demandeNonServie))
  previous : ∀ stop ∈ lastStop run t, p.stockDebut = stop
  received : p.appro = (∑ t' ∈ (range t).filter (Due lead run t), ordered run t') * share half t

section Due

variable {lead : ℕ} {run : ℕ → Option (Period K)}

omit [Field K] [LinearOrder K] in
theorem due_self (hlead : 1 ≤ lead) {t : ℕ} (ht : lead ≤ t) :
    t - lead ∈ (range t).filter (Due lead run t) := by
  rw [mem_filter, mem_range]
  refine ⟨by omega, by omega, fun g hg hle => ?_⟩
  omega

omit [Field K] [LinearOrder K] in
/-- Another order due in `t` was looked for in a period that is skipped. -/
theorem Due.skipped {t t' : ℕ} (h : Due lead run t t') (hne : t' ≠ t - lead) :
    t' + lead < t ∧ run (t' + lead) = none := by
  have hlt : t' + lead < t := by
    have hle := h.1
    omega
  exact ⟨hlt, Option.isNone_iff_eq_none.mp (h.2 _ hlt le_rfl)⟩

omit [Field K] [LinearOrder K] in
/-- The order of a skipped period is due in the next one. -/
theorem exists_due {g t : ℕ} (hg : lead ≤ g) (hgt : g < t) (hskip : run g = none)
    (hrun : (run t).isSome) : ∃ t₀, g < t₀ ∧ (run t₀).isSome ∧ Due lead run t₀ (g - lead) := by
  have hex : ∃ t₀, g < t₀ ∧ (run t₀).isSome := ⟨t, hgt, hrun⟩
  obtain ⟨hlt, hsome⟩ := Nat.find_spec hex
  refine ⟨Nat.find hex, hlt, hsome, by omega, fun g' hg' hle => ?_⟩
  rcases Nat.eq_or_lt_of_le (show g ≤ g' by omega) with rfl | hlt'
  · rw [hskip]
    rfl
  · have hmin := Nat.find_min hex hg'
    rw [← Option.not_isSome_iff_eq_none.trans Option.isNone_iff_eq_none.symm]
    exact fun hsome' => hmin ⟨hlt', hsome'⟩

/-- **Every order is received where each is received `lead` periods later**, exactly where none is
looked for in a period that is skipped. -/
theorem sum_due_eq_iff [IsStrictOrderedRing K] (hlead : 1 ≤ lead) (hpos : ∀ t, 0 ≤ ordered run t) :
    (∀ t, (run t).isSome → ∑ t' ∈ (range t).filter (Due lead run t), ordered run t' =
        if t < lead then 0 else ordered run (t - lead)) ↔
      ∀ g t, lead ≤ g → g < t → run g = none → (run t).isSome → ordered run (g - lead) = 0 := by
  constructor
  · intro hall g t hg hgt hskip hrun
    obtain ⟨t₀, hlt, hsome, hdue⟩ := exists_due hg hgt hskip hrun
    have hsum := hall t₀ hsome
    rw [if_neg (by omega)] at hsum
    -- both the order of `g` and that of `t₀` are due, and no order is negative
    have hpair : ordered run (g - lead) + ordered run (t₀ - lead) ≤
        ∑ t' ∈ (range t₀).filter (Due lead run t₀), ordered run t' := by
      rw [← Finset.sum_pair (show g - lead ≠ t₀ - lead by omega)]
      refine Finset.sum_le_sum_of_subset_of_nonneg (fun t' ht' => ?_) fun t' _ _ => hpos t'
      rcases mem_insert.mp ht' with rfl | ht'
      · exact mem_filter.mpr ⟨mem_range.mpr (by omega), hdue⟩
      · rw [mem_singleton.mp ht']
        exact due_self hlead (by omega)
    exact le_antisymm (by linarith) (hpos _)
  · intro hnone t hrun
    by_cases ht : t < lead
    · rw [if_pos ht]
      refine Finset.sum_eq_zero fun t' ht' => ?_
      have hle := (mem_filter.mp ht').2.1
      omega
    · rw [if_neg ht]
      refine Finset.sum_eq_single_of_mem _ (due_self hlead (not_lt.mp ht)) fun t' ht' hne => ?_
      obtain ⟨hlt, hskip⟩ := (mem_filter.mp ht').2.skipped hne
      simpa using hnone (t' + lead) t (by omega) hlt hskip hrun

end Due

/-! ## 3. The loop -/

variable [FloorRing K]

/-- A period with a demand `d`, where the orders so far and the stock before it are given, and the
forecasts of this period and the next. -/
def periodOf (step : Stocking K) (lot : ℕ) (half : List Bool) (d f next : K) (t : ℕ)
    (orders : ℕ → K) (prev : Option K) : Period K :=
  let start := prev.getD (step.initialCover * f)
  let received :=
    if t < step.leadTime then 0 else orders (t - step.leadTime) * share half t
  let served := min d (start + received)
  let stop := start + received - served
  let safety := step.safetyFactor * f
  ⟨start, received, served, d - served, stop, safety,
    inLots (step.orderFactor * next + safety - stop) 1e-12 lot⟩

/-- A period of the code, in the numbers known before it. -/
theorem simulatePeriod_eq (step : Stocking K) (lot : ℕ) (half : List Bool)
    (demand fc : List (Exact K)) (t : ℕ) (orders : ℕ → K) (prev : Option K)
    (hlead : 1 ≤ step.leadTime) :
    let stocked : Stocked (Exact K) := ⟨series t orders, prev.map .of⟩
    let after := simulatePeriod (exactStep step) lot half demand fc t stocked
    (value demand t = .nan ∧ after = (none, ⟨series t orders ++ [.of 0], prev.map .of⟩)) ∨
    ∃ d f next, value demand t = .of d ∧
      let p := periodOf step lot half d f next t orders prev
      after = (some (exactPeriod p), ⟨series t orders ++ [.of p.commande], some (.of p.stockFin)⟩) := by
  intro stocked after
  cases hd : value demand t with
  | nan =>
    left
    refine ⟨rfl, ?_⟩
    simp [after, simulatePeriod, hd, stocked]
  | of d =>
    right
    obtain ⟨f, hf⟩ : ∃ f,
        (if Floats.isFinite (value fc t) then value fc t else .of d) = Exact.of f := by
      cases value fc t with
      | nan => exact ⟨d, rfl⟩
      | of x => exact ⟨x, rfl⟩
    obtain ⟨next, hnext⟩ : ∃ next,
        (if Floats.isFinite (value fc (t + 1)) then value fc (t + 1) else .of f) = Exact.of next := by
      cases value fc (t + 1) with
      | nan => exact ⟨f, rfl⟩
      | of x => exact ⟨x, rfl⟩
    have hshare : (if half.getD t false then 0.5 else one) = Exact.of (share half t : K) := by
      rw [share]
      cases half.getD t false
      · exact one_eq
      · rfl
    have hreceived : (if t < (exactStep step).leadTime then zero
        else (series t orders).getD (t - (exactStep step).leadTime) zero *
          (if half.getD t false then 0.5 else one)) =
        Exact.of (if t < step.leadTime then 0 else orders (t - step.leadTime) * share half t) := by
      by_cases ht : t < step.leadTime
      · rw [if_pos ht, if_pos (show t < (exactStep step).leadTime from ht), zero_eq]
      · have hlt : t - (exactStep step).leadTime < t := Nat.sub_lt (hlead.trans (not_lt.mp ht)) hlead
        rw [if_neg ht, if_neg (show ¬ t < (exactStep step).leadTime from ht), hshare,
          List.getD_eq_getElem?_getD, getElem?_series _ hlt, Option.getD_some, of_mul]
        rfl
    have hstart : (prev.map Exact.of).getD (.of (step.initialCover * f)) =
        Exact.of (prev.getD (step.initialCover * f)) := by
      cases prev <;> simp
    refine ⟨d, f, next, rfl, ?_⟩
    simp only [after, simulatePeriod, hd, isFinite_of, if_true, hf, hnext, stocked, hreceived]
    simp only [exactStep, hstart, of_add, of_sub, of_mul, smaller_of]
    have heps : (1e-12 : Exact K) = .of 1e-12 := rfl
    rw [heps, rounded_of]
    rfl


/-! ## 4. The orders received -/

section Run

variable (step : Stocking K) (lot : ℕ) (half : List Bool) (demand fc : List (Exact K))

/-- What the loop simulates. -/
def simulated (t : ℕ) : Option (Period K) :=
  (simulatePeriod (exactStep step) lot half demand fc t
    (stockedBefore (exactStep step) lot half demand fc t)).1.map periodAmounts

/-- The loop before a period: the orders so far, and the last stock. -/
def AtPeriod (t : ℕ) : Prop :=
  stockedBefore (exactStep step) lot half demand fc t =
    ⟨series t (ordered (simulated step lot half demand fc)),
      (lastStop (simulated step lot half demand fc) t).map .of⟩

variable {step lot half demand fc}

/-- The loop from what it knows before a period. -/
theorem AtPeriod.next (hlead : 1 ≤ step.leadTime) {t : ℕ} (h : AtPeriod step lot half demand fc t) :
    let run := simulated step lot half demand fc
    let after := stockedBefore (exactStep step) lot half demand fc (t + 1)
    (value demand t = .nan ∧ run t = none ∧
      after = ⟨series t (ordered run) ++ [.of 0], (lastStop run t).map .of⟩) ∨
    ∃ d f next, value demand t = .of d ∧
      let p := periodOf step lot half d f next t (ordered run) (lastStop run t)
      run t = some p ∧
        after = ⟨series t (ordered run) ++ [.of p.commande], some (.of p.stockFin)⟩ := by
  intro run after
  have hrun : run t = (simulatePeriod (exactStep step) lot half demand fc t
      ⟨series t (ordered run), (lastStop run t).map .of⟩).1.map periodAmounts := by
    rw [← show stockedBefore (exactStep step) lot half demand fc t = _ from h]
    rfl
  have hafter : after = (simulatePeriod (exactStep step) lot half demand fc t
      ⟨series t (ordered run), (lastStop run t).map .of⟩).2 := by
    rw [← show stockedBefore (exactStep step) lot half demand fc t = _ from h]
    rfl
  rw [hafter]
  rcases simulatePeriod_eq step lot half demand fc t (ordered run) (lastStop run t) hlead with
    ⟨hd, heq⟩ | ⟨d, f, next, hd, heq⟩
  · rw [heq] at hrun ⊢
    exact .inl ⟨hd, hrun, rfl⟩
  · rw [heq] at hrun ⊢
    exact .inr ⟨d, f, next, hd, hrun, rfl⟩

theorem atPeriod (hlead : 1 ≤ step.leadTime) (t : ℕ) : AtPeriod step lot half demand fc t := by
  induction t with
  | zero => rfl
  | succ t ih =>
    rw [AtPeriod, lastStop]
    rcases ih.next hlead with ⟨-, hnone, hafter⟩ | ⟨d, f, next, -, hsome, hafter⟩
    · rw [hafter, hnone, ← series_snoc, ordered, hnone]
      rfl
    · rw [hafter, hsome, ← series_snoc, ordered, hsome]
      rfl

variable (step lot half demand fc) in
/-- A period is skipped where nothing is asked, and computed from the orders and the stock before it
where something is. -/
theorem simulated_cases (hlead : 1 ≤ step.leadTime) (t : ℕ) :
    let run := simulated step lot half demand fc
    (value demand t = .nan ∧ run t = none) ∨
    ∃ d f next, value demand t = .of d ∧
      run t = some (periodOf step lot half d f next t (ordered run) (lastStop run t)) := by
  rcases (atPeriod hlead t).next hlead with ⟨hd, hnone, -⟩ | ⟨d, f, next, hd, hsome, -⟩
  · exact .inl ⟨hd, hnone⟩
  · exact .inr ⟨d, f, next, hd, hsome⟩

theorem simulated_eq_none_iff (hlead : 1 ≤ step.leadTime) (t : ℕ) :
    simulated step lot half demand fc t = none ↔ value demand t = .nan := by
  rcases simulated_cases step lot half demand fc hlead t with
    ⟨hd, hnone⟩ | ⟨d, f, next, hd, hsome⟩
  · simp [hd, hnone]
  · simp [hd, hsome]

variable [IsStrictOrderedRing K]

theorem ordered_nonneg (hlead : 1 ≤ step.leadTime) (t : ℕ) :
    0 ≤ ordered (simulated step lot half demand fc) t := by
  rcases simulated_cases step lot half demand fc hlead t with
    ⟨-, hnone⟩ | ⟨d, f, next, -, hsome⟩
  · rw [ordered, hnone]
    exact le_rfl
  · rw [ordered, hsome]
    obtain ⟨m, hm⟩ : ∃ m : ℕ, inLots (step.orderFactor * next + step.safetyFactor * f -
        (periodOf step lot half d f next t (ordered (simulated step lot half demand fc))
          (lastStop (simulated step lot half demand fc) t)).stockFin) 1e-12 lot = m * lot :=
      inLots_whole (by norm_num) (by norm_num) lot
    refine (mul_nonneg m.cast_nonneg lot.cast_nonneg).trans_eq (hm.symm.trans ?_)
    rfl

omit [FloorRing K] in
theorem share_pos (half : List Bool) (t : ℕ) : 0 < (share half t : K) := by
  rw [share]
  split <;> norm_num

omit [IsStrictOrderedRing K] in
/-- What the code receives: the order placed `leadTime` periods before, and no other. -/
theorem appro_eq (hlead : 1 ≤ step.leadTime) {t : ℕ} {p : Period K}
    (hp : simulated step lot half demand fc t = some p) :
    p.appro = if t < step.leadTime then 0
      else ordered (simulated step lot half demand fc) (t - step.leadTime) * share half t := by
  rcases simulated_cases step lot half demand fc hlead t with
    ⟨-, hnone⟩ | ⟨d, f, next, -, hsome⟩
  · rw [hnone] at hp
    cases hp
  · rw [hsome] at hp
    cases hp
    rfl

/-- All but the orders received holds in every period. -/
theorem conserves_iff (hlead : 1 ≤ step.leadTime) {t : ℕ} {p : Period K}
    (hp : simulated step lot half demand fc t = some p) :
    let run := simulated step lot half demand fc
    Conserves step.leadTime half demand run t p ↔
      p.appro = (∑ t' ∈ (range t).filter (Due step.leadTime run t), ordered run t') *
        share half t := by
  intro run
  refine ⟨Conserves.received, fun hreceived => ?_⟩
  rcases simulated_cases step lot half demand fc hlead t with
    ⟨-, hnone⟩ | ⟨d, f, next, hd, hsome⟩
  · rw [hnone] at hp
    cases hp
  · rw [hsome] at hp
    cases hp
    refine ⟨rfl, sub_nonneg.mpr (min_le_right _ _), ?_, fun stop hstop => ?_, hreceived⟩
    · rw [getElem?_of_value hd]
      exact congrArg (fun x => some (Exact.of x)) (add_sub_cancel _ _).symm
    · rw [periodOf, Option.mem_def.mp hstop]
      rfl

omit [IsStrictOrderedRing K] in
/-- A period is simulated where something is asked. -/
theorem isSome_simulated (hlead : 1 ≤ step.leadTime) (t : ℕ) :
    (simulated step lot half demand fc t).isSome ↔ value demand t ≠ .nan := by
  rw [← Option.ne_none_iff_isSome, Ne, simulated_eq_none_iff hlead]

omit [IsStrictOrderedRing K] in
/-- The orders of the loop before a period. -/
theorem orders_getD (hlead : 1 ≤ step.leadTime) {t t' : ℕ} (h : t' < t) :
    (stockedBefore (exactStep step) lot half demand fc t).orders.getD t' zero =
      .of (ordered (simulated step lot half demand fc) t') := by
  rw [show stockedBefore (exactStep step) lot half demand fc t = _ from atPeriod hlead t,
    List.getD_eq_getElem?_getD, getElem?_series _ h]
  rfl

/-- The stock is conserved where no order is looked for in a period that is skipped. -/
theorem simulated_conserves_iff (hlead : 1 ≤ step.leadTime) :
    let run := simulated step lot half demand fc
    (∀ t p, run t = some p → Conserves step.leadTime half demand run t p) ↔
      ∀ g t, step.leadTime ≤ g → g < t → run g = none → (run t).isSome →
        ordered run (g - step.leadTime) = 0 := by
  intro run
  rw [← sum_due_eq_iff hlead (ordered_nonneg hlead)]
  have hshare (t : ℕ) (x : K) : (if t < step.leadTime then 0
      else ordered run (t - step.leadTime) * share half t) = x * share half t ↔
      x = if t < step.leadTime then 0 else ordered run (t - step.leadTime) := by
    by_cases ht : t < step.leadTime
    · rw [if_pos ht, if_pos ht, eq_comm, mul_eq_zero, or_iff_left (share_pos half t).ne']
    · rw [if_neg ht, if_neg ht, mul_left_inj' (share_pos half t).ne', eq_comm]
  constructor
  · intro hall t hrun
    obtain ⟨p, hp⟩ := Option.isSome_iff_exists.mp hrun
    have hreceived := (hall t p hp).received
    rw [appro_eq hlead hp] at hreceived
    exact (hshare t _).mp hreceived
  · intro hall t p hp
    refine (conserves_iff hlead hp).mpr ?_
    rw [appro_eq hlead hp]
    exact (hshare t _).mpr (hall t (Option.isSome_iff_exists.mpr ⟨p, hp⟩))

end Run

/-! ## 5. The simulation of a group -/

/-- The simulated periods of a group. -/
def periods (draws : Int → String → ℕ → List (Exact K)) (demand forecast : List (Exact K))
    (step : Stocking K) (key : String) (lotKey : Option String) (t : ℕ) : Option (Period K) :=
  ((simulateInventory draws demand forecast (exactStep step) key lotKey).getD t none).map
    periodAmounts

theorem periods_eq (draws : Int → String → ℕ → List (Exact K)) (demand forecast : List (Exact K))
    (step : Stocking K) (key : String) (lotKey : Option String) (hlead : 1 ≤ step.leadTime) :
    periods draws demand forecast step key lotKey =
      simulated step (groupLot (exactStep step) key lotKey)
        (halfDelivery draws (exactStep step) key demand.length) demand
        (forecastOr forecast demand) := by
  funext t
  by_cases ht : t < demand.length
  · rw [periods, simulateInventory, List.getD_eq_getElem?_getD, List.getElem?_map,
      List.getElem?_range ht]
    rfl
  · have hnone : (simulateInventory draws demand forecast (exactStep step) key lotKey)[t]? =
        none := by
      rw [List.getElem?_eq_none]
      simpa [simulateInventory] using ht
    rw [periods, List.getD_eq_getElem?_getD, hnone, (simulated_eq_none_iff hlead t).mpr]
    · rfl
    · rw [value, List.getD_eq_getElem?_getD, List.getElem?_eq_none (not_lt.mp ht)]
      rfl

variable [IsStrictOrderedRing K]

/-- **The simulated stock is conserved** exactly where the loop knows of no order for a period it
skips while another follows. -/
theorem conserved_iff (draws : Int → String → ℕ → List (Exact K))
    (demand forecast : List (Exact K)) (step : Stocking K) (key : String) (lotKey : Option String)
    (hlead : 1 ≤ step.leadTime) :
    let lot := groupLot (exactStep step) key lotKey
    let half := halfDelivery draws (exactStep step) key demand.length
    let run := periods draws demand forecast step key lotKey
    (∀ t p, run t = some p → Conserves step.leadTime half demand run t p) ↔
      ∀ g t, step.leadTime ≤ g → g < t → value demand g = .nan → value demand t ≠ .nan →
        (stockedBefore (exactStep step) lot half demand (forecastOr forecast demand) g).orders.getD
          (g - step.leadTime) zero = zero := by
  intro lot half run
  have hrun : run = simulated step lot half demand (forecastOr forecast demand) :=
    periods_eq draws demand forecast step key lotKey hlead
  rw [hrun]
  refine (simulated_conserves_iff hlead).trans ?_
  refine forall_congr' fun g => forall_congr' fun t => forall_congr' fun hg =>
    forall_congr' fun _ => imp_congr (simulated_eq_none_iff hlead g)
      (imp_congr (isSome_simulated hlead t) ?_)
  rw [orders_getD hlead (show g - step.leadTime < g by omega), zero_eq, Exact.of.injEq]

/-- The defaults of a simulation, with whole deliveries. -/
def usual : Stocking ℚ := ⟨0.5, 1.4, 1, [], 100, 0, 1, 42⟩

def noDraw : Int → String → ℕ → List (Exact ℚ) := fun _ _ n => List.replicate n (.of 1)

theorem conserved_usual :
    let demand : List (Exact ℚ) := [.of 10, .of 10, .of 10]
    let half := halfDelivery noDraw (exactStep usual) "a" 3
    let run := periods noDraw demand demand usual "a" none
    (∀ t p, run t = some p → Conserves 1 half demand run t p) ↔
      ∀ g t, 1 ≤ g → g < t → value demand g = .nan → value demand t ≠ .nan →
        (stockedBefore (exactStep usual) (groupLot (exactStep usual) "a" none) half demand
          (forecastOr demand demand) g).orders.getD (g - 1) zero = zero :=
  conserved_iff noDraw [.of 10, .of 10, .of 10] [.of 10, .of 10, .of 10] usual "a" none (by decide)

/-- A hundred ordered in the first period, and the second one missing: the third receives nothing. -/
theorem not_conserved_gap :
    let demand : List (Exact ℚ) := [.of 10, .nan, .of 10]
    let half := halfDelivery noDraw (exactStep usual) "a" 3
    let run := periods noDraw demand [.nan, .nan, .nan] usual "a" none
    ¬ ∀ t p, run t = some p → Conserves 1 half demand run t p := by
  intro demand half run hall
  obtain ⟨p, hp⟩ : ∃ p, run 2 = some p := Option.isSome_iff_exists.mp (by decide +kernel)
  have hreceived := (hall 2 p hp).received
  have happro : p.appro = 0 := by
    have h : (run 2).map (·.appro) = some 0 := by decide +kernel
    rw [hp] at h
    exact Option.some.inj h
  have hdue : (∑ t' ∈ (range 2).filter (Due 1 run 2), ordered run t') * share half 2 = 100 := by
    decide +kernel
  rw [happro, hdue] at hreceived
  exact absurd hreceived (by decide)

end Apowerb.Bi.Inventory
