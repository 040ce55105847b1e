/-
# Exact numbers

The numbers of a plan without rounding: those of an ordered field, and nan for what is missing.  The
computations of `Bi.Series` are read at them where a statement is about exact arithmetic.
-/
import Apowerb.Bi.Series
import Mathlib.Algebra.BigOperators.Group.Finset.Basic
import Mathlib.Data.Rat.Floor

namespace Apowerb.Bi.Series

open Floats

inductive Exact (K : Type)
  | nan
  | of (x : K)
deriving DecidableEq, Repr

namespace Exact

variable {K : Type}

/-- An operation on numbers, nan where one of them is missing. -/
def lift (f : K → K → K) : Exact K → Exact K → Exact K
  | of x, of y => of (f x y)
  | _, _ => nan

def known : Exact K → Bool
  | nan => false
  | of _ => true

/-- The first numbers of a sequence: a series without missing entries. -/
def series (n : ℕ) (f : ℕ → K) : List (Exact K) := (List.range n).map fun i => of (f i)

@[simp] theorem length_series (n : ℕ) (f : ℕ → K) : (series n f).length = n := by
  rw [series, List.length_map, List.length_range]

theorem getElem?_series {n i : ℕ} (f : ℕ → K) (h : i < n) :
    (series n f)[i]? = some (of (f i)) := by
  rw [series, List.getElem?_map, List.getElem?_range h]
  rfl

theorem series_congr {n : ℕ} {f g : ℕ → K} (h : ∀ i < n, f i = g i) : series n f = series n g :=
  List.map_congr_left fun i hi => by rw [h i (List.mem_range.mp hi)]

theorem series_succ (n : ℕ) (f : ℕ → K) :
    series (n + 1) f = of (f 0) :: series n fun i => f (i + 1) := by
  rw [series, List.range_succ_eq_map, List.map_cons, List.map_map]
  rfl

theorem series_snoc (n : ℕ) (f : ℕ → K) : series n f ++ [of (f n)] = series (n + 1) f := by
  rw [series, series, List.range_succ, List.map_append, List.map_singleton]

theorem series_set {n i : ℕ} (f : ℕ → K) (x : K) :
    (series n f).set i (of x) = series n (Function.update f i x) := by
  apply List.ext_getElem?
  intro j
  by_cases hj : j < n
  · rw [List.getElem?_set, getElem?_series (Function.update f i x) hj, getElem?_series f hj,
      length_series]
    by_cases hij : i = j
    · subst hij
      rw [if_pos rfl, if_pos hj, Function.update_self]
    · rw [if_neg hij, Function.update_of_ne (Ne.symm hij)]
  · rw [List.getElem?_eq_none (by simpa using hj), List.getElem?_eq_none (by simpa using hj)]

theorem take_series {n k : ℕ} (f : ℕ → K) (h : k ≤ n) : (series n f).take k = series k f := by
  rw [series, ← List.map_take, List.take_range, min_eq_left h, series]

variable [Field K] [LinearOrder K] [FloorRing K]

/-- `round`: to the nearest whole number, to the even one of two. -/
def roundEven (x : K) : Int :=
  if x - ⌊x⌋ < 1 / 2 then ⌊x⌋
  else if 1 / 2 < x - ⌊x⌋ then ⌊x⌋ + 1
  else if ⌊x⌋ % 2 = 0 then ⌊x⌋ else ⌊x⌋ + 1

instance : Floats (Exact K) where
  add := lift (· + ·)
  sub := lift (· - ·)
  mul := lift (· * ·)
  div := lift (· / ·)
  natCast n := of n
  ofScientific m s e := of (OfScientific.ofScientific m s e)
  nan := nan
  isNaN x := !known x
  isFinite := known
  lt
    | of x, of y => x < y
    | _, _ => false
  isZero
    | of x => x = 0
    | nan => false
  ceil
    | of x => ⌈x⌉
    | nan => 0
  round
    | of x => roundEven x
    | nan => 0
  nanToNum
    | of x => of x
    | nan => of 0
  ofInt n := of n

@[simp] theorem of_add (x y : K) : of x + of y = of (x + y) := rfl
@[simp] theorem of_sub (x y : K) : of x - of y = of (x - y) := rfl
@[simp] theorem of_mul (x y : K) : of x * of y = of (x * y) := rfl
@[simp] theorem of_div (x y : K) : of x / of y = of (x / y) := rfl
@[simp] theorem natCast_eq (n : Nat) : (n : Exact K) = of (n : K) := rfl
@[simp] theorem ofInt_eq (n : Int) : (ofInt n : Exact K) = of (n : K) := rfl
@[simp] theorem isFinite_of (x : K) : isFinite (of x) = true := rfl
@[simp] theorem isFinite_nan : isFinite (nan : Exact K) = false := rfl
@[simp] theorem isNaN_of (x : K) : isNaN (of x) = false := rfl
@[simp] theorem isNaN_nan : isNaN (nan : Exact K) = true := rfl
@[simp] theorem floats_nan : (Floats.nan : Exact K) = nan := rfl
@[simp] theorem lt_of (x y : K) : lt (of x) (of y) = decide (x < y) := rfl
@[simp] theorem isZero_of (x : K) : isZero (of x) = decide (x = 0) := rfl
@[simp] theorem ceil_of (x : K) : ceil (of x) = ⌈x⌉ := rfl

@[simp] theorem zero_eq : (zero : Exact K) = of 0 := by
  rw [zero, natCast_eq, Nat.cast_zero]

@[simp] theorem one_eq : (one : Exact K) = of 1 := by
  rw [one, natCast_eq, Nat.cast_one]

@[simp] theorem larger_of (x y : K) : larger (of x) (of y) = of (max x y) := by
  rw [larger, lt_of]
  by_cases h : x < y
  · rw [decide_eq_true h, if_pos rfl, max_eq_right h.le]
  · rw [decide_eq_false h, if_neg Bool.false_ne_true, max_eq_left (not_lt.mp h)]

@[simp] theorem smaller_of (x y : K) : smaller (of x) (of y) = of (min x y) := by
  rw [smaller, lt_of]
  by_cases h : y < x
  · rw [decide_eq_true h, if_pos rfl, min_eq_right h.le]
  · rw [decide_eq_false h, if_neg Bool.false_ne_true, min_eq_left (not_lt.mp h)]

@[simp] theorem sum_map_of (xs : List K) : sum (xs.map of) = of xs.sum := by
  have hfold : ∀ (xs : List K) (a : K), (xs.map of).foldl (· + ·) (of a) = of (a + xs.sum) := by
    intro xs
    induction xs with
    | nil => intro a; simp
    | cons x xs ih => intro a; simp [ih, add_assoc]
  rw [sum, zero_eq, hfold, zero_add]

theorem getElem?_of_value {xs : List (Exact K)} {i : ℕ} {x : K} (h : value xs i = of x) :
    xs[i]? = some (of x) := by
  rw [value, List.getD_eq_getElem?_getD] at h
  cases hi : xs[i]? with
  | none =>
    rw [hi] at h
    cases h
  | some y =>
    rw [hi] at h
    exact congrArg some h

theorem value_cumsum {F : Type} [Floats F] {xs : List F} {i : Nat} (h : i < xs.length) :
    value (cumsum xs) i = sum (xs.take (i + 1)) := by
  rw [value, cumsum, List.getD_eq_getElem?_getD, List.getElem?_map,
    List.getElem?_eq_getElem (by rwa [List.length_range])]
  simp

theorem value_series {n i : ℕ} (f : ℕ → K) (h : i < n) : value (series n f) i = of (f i) := by
  rw [value, List.getD_eq_getElem?_getD, getElem?_series f h]
  rfl

theorem map_series_zero (n : ℕ) (f : ℕ → K) :
    ((series n f).map fun _ => (zero : Exact K)) = series n fun _ => 0 := by
  rw [series, List.map_map, series]
  exact List.map_congr_left fun _ _ => zero_eq

omit [LinearOrder K] [FloorRing K] in
theorem sum_map_range (n : ℕ) (f : ℕ → K) :
    ((List.range n).map f).sum = ∑ i ∈ Finset.range n, f i := by
  induction n with
  | zero => rfl
  | succ n ih => rw [List.range_succ, List.map_append, List.sum_append, ih,
      Finset.sum_range_succ, List.map_singleton, List.sum_singleton]

theorem sum_series (n : ℕ) (f : ℕ → K) :
    sum (series n f) = of (∑ i ∈ Finset.range n, f i) := by
  have hmap : series n f = ((List.range n).map f).map of := by
    rw [series, List.map_map]
    rfl
  rw [hmap, sum_map_of, sum_map_range]

/-! ## Lots -/

/-- A need in whole lots, none where it is within `eps`. -/
def inLots (need eps : K) (lot : ℕ) : K := if eps < need then ⌈need / lot - eps⌉ * lot else 0

theorem rounded_of (need eps : K) (lot : ℕ) :
    rounded (of need) (of eps) lot = of (inLots need eps lot) := by
  rw [rounded, inLots, lt_of]
  by_cases h : eps < need
  · rw [decide_eq_true h, if_pos rfl, if_pos h]
    simp only [natCast_eq, of_div, of_sub, ceil_of, ofInt_eq]
    rw [Int.cast_mul, Int.cast_natCast]
  · rw [decide_eq_false h, if_neg Bool.false_ne_true, if_neg h, zero_eq]

variable [IsStrictOrderedRing K] in
/-- A need in lots is a whole number of them. -/
theorem inLots_whole {need eps : K} (heps : 0 < eps) (heps' : eps < 1) (lot : ℕ) :
    ∃ m : ℕ, inLots need eps lot = m * lot := by
  by_cases h : eps < need
  · have hdiv : 0 ≤ need / lot := div_nonneg (heps.trans h).le (Nat.cast_nonneg lot)
    have hceil : 0 ≤ ⌈need / lot - eps⌉ := by
      refine Int.le_ceil_iff.mpr ?_
      push_cast
      linarith
    refine ⟨⌈need / lot - eps⌉.toNat, ?_⟩
    rw [inLots, if_pos h, ← Int.cast_natCast (R := K) ⌈need / lot - eps⌉.toNat,
      Int.toNat_of_nonneg hceil]
  · refine ⟨0, ?_⟩
    rw [inLots, if_neg h, Nat.cast_zero, zero_mul]

end Exact

end Apowerb.Bi.Series
