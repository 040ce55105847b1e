/-
# Check digits

Two sums from which the check digit of an identifier is made, and why each catches an error in one
place, at every length.

* `total`: a term for each place.  Two texts that differ in one place have equal totals modulo `m`
  exactly when the two terms of that place are equal modulo `m` (`total_modEq_iff`).
* `numeral`: the text read as a number, each element in a group of places of its own.  Where the
  base and `m` have no factor in common, the same holds of the values of the two elements, provided
  that they take as many places (`numeral_modEq_iff`).
-/
import Mathlib.Data.Nat.ModEq

namespace CheckDigits

variable {α : Type*}

/-! ## 1. A term for each place -/

/-- The sum of the terms, for places that are counted from `i`. -/
def total (term : Nat → α → Nat) : Nat → List α → Nat
  | _, [] => 0
  | i, a :: as => term i a + total term (i + 1) as

theorem total_append (term : Nat → α → Nat) (i : Nat) (as bs : List α) :
    total term i (as ++ bs) = total term i as + total term (i + as.length) bs := by
  induction as generalizing i with
  | nil => simp [total]
  | cons a as ih =>
    have hplace : i + 1 + as.length = i + (a :: as).length := by
      rw [List.length_cons]
      omega
    simp only [List.cons_append, total]
    rw [ih, hplace, Nat.add_assoc]

theorem total_modEq_iff {m : Nat} (term : Nat → α → Nat) (i : Nat) (as bs : List α) (a b : α) :
    total term i (as ++ a :: bs) ≡ total term i (as ++ b :: bs) [MOD m] ↔
      term (i + as.length) a ≡ term (i + as.length) b [MOD m] := by
  rw [total_append, total_append]
  constructor
  · intro h
    exact Nat.ModEq.add_right_cancel' _ (Nat.ModEq.add_left_cancel' _ h)
  · intro h
    exact (h.add_right _).add_left _

/-! ## 2. A number -/

/-- The number that is written with `width a` places, in the base, for the value of each `a`. -/
def numeral (base : Nat) (width value : α → Nat) (as : List α) : Nat :=
  as.foldl (fun n a => n * base ^ width a + value a) 0

variable {base m : Nat} {width value : α → Nat}

/-- What follows a number does not tell apart what is told apart modulo `m`, nor the reverse. -/
theorem foldl_modEq_iff (hbase : Nat.gcd m base = 1) (as : List α) (n n' : Nat) :
    as.foldl (fun n a => n * base ^ width a + value a) n ≡
        as.foldl (fun n a => n * base ^ width a + value a) n' [MOD m] ↔ n ≡ n' [MOD m] := by
  induction as generalizing n n' with
  | nil => rfl
  | cons a as ih =>
    rw [List.foldl_cons, List.foldl_cons, ih]
    constructor
    · intro h
      have hpow : Nat.gcd m (base ^ width a) = 1 := Nat.Coprime.pow_right _ hbase
      exact Nat.ModEq.cancel_right_of_coprime hpow (Nat.ModEq.add_right_cancel' _ h)
    · intro h
      exact (h.mul_right _).add_right _

theorem numeral_modEq_iff (hbase : Nat.gcd m base = 1) {a b : α} (hwidth : width a = width b)
    (as bs : List α) :
    numeral base width value (as ++ a :: bs) ≡ numeral base width value (as ++ b :: bs) [MOD m] ↔
      value a ≡ value b [MOD m] := by
  unfold numeral
  rw [List.foldl_append, List.foldl_append, List.foldl_cons, List.foldl_cons,
    foldl_modEq_iff hbase, hwidth]
  constructor
  · exact Nat.ModEq.add_left_cancel' _
  · exact fun h => h.add_left _

end CheckDigits
