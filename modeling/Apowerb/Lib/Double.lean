/-
# Doubles

The numbers of IEEE 754's binary64, as far as conversions and comparisons go.  All the finite ones
are whole multiples of the smallest, `2 ^ -1074`, so a finite double is a count of those units and
two of them compare as integers do.  What is not a double is rounded to the nearest, ties to the
even mantissa: first to a whole number of the last place that 53 bits leave it, then to infinity
where that is too large.  The sign of a zero is not kept.

The one fact that programs trip over is which integers become infinite
(`overflow_le_rounded_iff`): from half a unit of the last place below `2 ^ 1024` on.
-/
import Mathlib.Data.Nat.Log
import Mathlib.Tactic.NormNum
import Mathlib.Tactic.Ring

/-- A binary64 number; a finite one is `units * 2 ^ -1074`. -/
inductive Double
  | nan
  | infinity (negative : Bool)
  | finite (units : Int)
deriving DecidableEq, Repr

namespace Double

/-! ## 1. Rounding -/

/-- The units that make one. -/
def one : Nat := 2 ^ 1074

/-- The first magnitude, in units, that no finite double reaches. -/
def overflow : Nat := 2 ^ 2098

/-- `n / d` to the nearest integer, ties to even. -/
def halfEven (n d : Nat) : Nat :=
  let k := n / d
  let rest := 2 * (n % d)
  if rest < d ∨ rest = d ∧ k % 2 = 0 then k else k + 1

/-- `n / d` to 53 significant bits. -/
def rounded (n d : Nat) : Nat :=
  let grain := 2 ^ ((n / d).log2 - 52)
  halfEven n (d * grain) * grain

/-- The double nearest to `n / d`, or to its opposite. -/
def ofFraction (negative : Bool) (n d : Nat) : Double :=
  let units := rounded (n * one) d
  if overflow ≤ units then .infinity negative
  else .finite (if negative then -units else units)

/-- The double nearest to an integer. -/
def ofInt (i : Int) : Double := ofFraction (i < 0) i.natAbs 1

/-- The double nearest to `mantissa / 10 ^ scale`. -/
def ofDecimal (mantissa : Int) (scale : Nat) : Double :=
  ofFraction (mantissa < 0) mantissa.natAbs (10 ^ scale)

/-! ## 2. Comparisons -/

/-- `a < b`: nothing compares with `nan`. -/
def lt : Double → Double → Bool
  | .finite a, .finite b => a < b
  | .infinity negative, .finite _ => negative
  | .finite _, .infinity negative => !negative
  | .infinity a, .infinity b => a && !b
  | _, _ => false

/-- `a ≤ b`. -/
def le : Double → Double → Bool
  | .finite a, .finite b => a ≤ b
  | .infinity negative, .finite _ => negative
  | .finite _, .infinity negative => !negative
  | .infinity a, .infinity b => a || !b
  | _, _ => false

/-! ## 3. Which integers are too large -/

theorem halfEven_bounds (n d : Nat) : n / d ≤ halfEven n d ∧ halfEven n d ≤ n / d + 1 := by
  unfold halfEven
  dsimp only
  split <;> omega

/-- The last step of a mantissa: its largest value is odd, so a tie goes up. -/
theorem carry_le_halfEven_iff {n d : Nat} (h : n < 2 ^ 53 * d) :
    2 ^ 53 ≤ halfEven n d ↔ (2 ^ 54 - 1) * d ≤ 2 * n := by
  have hd : 0 < d := by
    rcases Nat.eq_zero_or_pos d with rfl | hd
    · omega
    · exact hd
  have hsplit := Nat.div_add_mod n d
  have hrest := Nat.mod_lt n hd
  have hk : n / d < 2 ^ 53 := (Nat.div_lt_iff_lt_mul hd).mpr h
  constructor
  · intro hcarry
    have hlast : n / d = 2 ^ 53 - 1 := by
      have hbound := (halfEven_bounds n d).2
      omega
    unfold halfEven at hcarry
    rw [hlast] at hcarry hsplit
    dsimp only at hcarry
    split at hcarry <;> omega
  · intro hn
    have hlast : n / d = 2 ^ 53 - 1 := by
      have hge : 2 ^ 53 - 1 ≤ n / d := (Nat.le_div_iff_mul_le hd).mpr (by omega)
      omega
    unfold halfEven
    rw [hlast] at hsplit ⊢
    dsimp only
    split <;> omega

/-- 53 bits hold what the grain leaves of a number. -/
theorem div_grain_lt (n : Nat) : n / 2 ^ (n.log2 - 52) < 2 ^ 53 := by
  rw [Nat.div_lt_iff_lt_mul (Nat.two_pow_pos _), ← Nat.pow_add]
  exact Nat.lt_of_lt_of_le Nat.lt_log2_self (Nat.pow_le_pow_right (by decide) (by omega))

theorem rounded_one (n : Nat) :
    rounded n 1 = halfEven n (2 ^ (n.log2 - 52)) * 2 ^ (n.log2 - 52) := by
  unfold rounded
  dsimp only
  rw [Nat.div_one, Nat.one_mul]

theorem rounded_le {n e : Nat} (h : n < 2 ^ e) (he : 53 ≤ e) : rounded n 1 ≤ 2 ^ e := by
  have hlog : n.log2 < e := by
    rcases Nat.eq_zero_or_pos n with rfl | hn
    · rw [Nat.log2_zero]
      omega
    · exact (Nat.log2_lt (by omega)).mpr h
  have hhalf := (halfEven_bounds n (2 ^ (n.log2 - 52))).2
  have hfew := div_grain_lt n
  rw [rounded_one]
  calc halfEven n (2 ^ (n.log2 - 52)) * 2 ^ (n.log2 - 52)
      ≤ 2 ^ 53 * 2 ^ (n.log2 - 52) := Nat.mul_le_mul_right _ (by omega)
    _ = 2 ^ (53 + (n.log2 - 52)) := (Nat.pow_add ..).symm
    _ ≤ 2 ^ e := Nat.pow_le_pow_right (by decide) (by omega)

theorem le_rounded {n e : Nat} (h : 2 ^ e ≤ n) (he : 52 ≤ e) : 2 ^ e ≤ rounded n 1 := by
  have hn : n ≠ 0 := by
    have hpos := Nat.two_pow_pos e
    omega
  have hlog : e ≤ n.log2 := (Nat.le_log2 hn).mpr h
  have hhalf := (halfEven_bounds n (2 ^ (n.log2 - 52))).1
  have hmany : 2 ^ 52 ≤ n / 2 ^ (n.log2 - 52) := by
    rw [Nat.le_div_iff_mul_le (Nat.two_pow_pos _), ← Nat.pow_add]
    have hself := Nat.log2_self_le hn
    rwa [show 52 + (n.log2 - 52) = n.log2 by omega]
  rw [rounded_one]
  calc 2 ^ e ≤ 2 ^ (52 + (n.log2 - 52)) := Nat.pow_le_pow_right (by decide) (by omega)
    _ = 2 ^ 52 * 2 ^ (n.log2 - 52) := Nat.pow_add ..
    _ ≤ halfEven n (2 ^ (n.log2 - 52)) * 2 ^ (n.log2 - 52) := Nat.mul_le_mul_right _ (by omega)

/-- Below `2 ^ (e + 53)`, a number is rounded up to it from half of its last place on. -/
theorem carry_le_rounded_iff {n e : Nat} (hlow : 2 ^ (e + 52) ≤ n) (hhigh : n < 2 ^ (e + 53)) :
    2 ^ (e + 53) ≤ rounded n 1 ↔ (2 ^ 54 - 1) * 2 ^ e ≤ 2 * n := by
  have hn : n ≠ 0 := by
    have hpos := Nat.two_pow_pos (e + 52)
    omega
  have hlog : n.log2 = e + 52 := by
    have hle : e + 52 ≤ n.log2 := (Nat.le_log2 hn).mpr hlow
    have hlt : n.log2 < e + 53 := (Nat.log2_lt hn).mpr hhigh
    omega
  have hpow : 2 ^ (e + 53) = 2 ^ 53 * 2 ^ e := by rw [Nat.pow_add, Nat.mul_comm]
  rw [hpow] at hhigh ⊢
  rw [rounded_one, hlog, Nat.add_sub_cancel, Nat.mul_le_mul_right_iff (Nat.two_pow_pos e)]
  exact carry_le_halfEven_iff hhigh

/-- The integers that round to `2 ^ (e + 54)` at least, counted in units of `2 ^ -k`. -/
theorem le_rounded_units_iff (n e k : Nat) :
    2 ^ (e + 54 + k) ≤ rounded (n * 2 ^ k) 1 ↔ 2 ^ (e + 54) - 2 ^ e ≤ n := by
  have hk : 0 < 2 ^ k := Nat.two_pow_pos k
  have he : 0 < 2 ^ e := Nat.two_pow_pos e
  have hlast : 2 ^ (e + 54) = 2 ^ 54 * 2 ^ e := by rw [Nat.pow_add, Nat.mul_comm]
  have hhalf : 2 ^ (e + 53) = 2 ^ 53 * 2 ^ e := by rw [Nat.pow_add, Nat.mul_comm]
  rcases Nat.lt_or_ge n (2 ^ (e + 53)) with hsmall | hlow
  · -- A bit less: rounding stays a power of two below.
    have hlt : n * 2 ^ k < 2 ^ (e + 53 + k) := by
      rw [Nat.pow_add]
      exact Nat.mul_lt_mul_of_pos_right hsmall hk
    have hle := rounded_le hlt (by omega)
    have hnext : 2 ^ (e + 54 + k) = 2 * 2 ^ (e + 53 + k) := by
      rw [show e + 54 + k = e + 53 + k + 1 by omega, Nat.pow_succ, Nat.mul_comm]
    have hpos := Nat.two_pow_pos (e + 53 + k)
    omega
  · rcases Nat.lt_or_ge n (2 ^ (e + 54)) with hhigh | hlarge
    · have hexp : e + 54 + k = e + k + 1 + 53 := by omega
      have hlow' : 2 ^ (e + k + 1 + 52) ≤ n * 2 ^ k := by
        rw [show e + k + 1 + 52 = e + 53 + k by omega, Nat.pow_add 2 (e + 53)]
        exact Nat.mul_le_mul_right _ hlow
      have hhigh' : n * 2 ^ k < 2 ^ (e + k + 1 + 53) := by
        rw [← hexp, Nat.pow_add 2 (e + 54)]
        exact Nat.mul_lt_mul_of_pos_right hhigh hk
      have hgrain : (2 ^ 54 - 1) * 2 ^ (e + k + 1) = (2 ^ 54 - 1) * 2 ^ e * 2 * 2 ^ k := by
        rw [Nat.pow_succ, Nat.pow_add]
        ring
      rw [hexp, carry_le_rounded_iff hlow' hhigh', hgrain, ← Nat.mul_assoc,
        Nat.mul_le_mul_right_iff hk]
      omega
    · have hlarge' : 2 ^ (e + 54 + k) ≤ n * 2 ^ k := by
        rw [Nat.pow_add 2 (e + 54)]
        exact Nat.mul_le_mul_right _ hlarge
      have hle := le_rounded hlarge' (by omega)
      omega

/-- **The integers that no finite double is nearest to.** -/
theorem overflow_le_rounded_iff (n : Nat) :
    overflow ≤ rounded (n * one) 1 ↔ 2 ^ 1024 - 2 ^ 970 ≤ n := by
  have hexp : (2098 : Nat) = 970 + 54 + 1074 := rfl
  have htop : (1024 : Nat) = 970 + 54 := rfl
  unfold overflow one
  rw [hexp, htop]
  exact le_rounded_units_iff n 970 1074


/-! ## 4. Differences -/

/-- The double nearest to a number of units. -/
def ofUnits (units : Int) : Double :=
  let magnitude := rounded units.natAbs 1
  if overflow ≤ magnitude then .infinity (units < 0)
  else .finite (if units < 0 then -magnitude else magnitude)

/-- `a - b`. -/
def sub : Double → Double → Double
  | .finite a, .finite b => ofUnits (a - b)
  | .infinity a, .finite _ => .infinity a
  | .finite _, .infinity b => .infinity (!b)
  | .infinity a, .infinity b => if a = b then .nan else .infinity a
  | .nan, _ | _, .nan => .nan

theorem halfEven_mono {n m : Nat} (h : n ≤ m) (d : Nat) : halfEven n d ≤ halfEven m d := by
  have hquotient : n / d ≤ m / d := Nat.div_le_div_right h
  rcases Nat.lt_or_eq_of_le hquotient with hlt | heq
  · exact (halfEven_bounds n d).2.trans (Nat.le_trans hlt (halfEven_bounds m d).1)
  · have hrest : n % d ≤ m % d := by
      have hn := Nat.div_add_mod n d
      have hm := Nat.div_add_mod m d
      rw [heq] at hn
      omega
    unfold halfEven
    dsimp only
    rw [heq]
    split <;> split <;> omega

/-- What 53 bits hold is not rounded. -/
theorem rounded_of_lt {n : Nat} (h : n < 2 ^ 53) : rounded n 1 = n := by
  have hlog : n.log2 - 52 = 0 := by
    rcases Nat.eq_zero_or_pos n with rfl | hn
    · rfl
    · have hlt := (Nat.log2_lt (Nat.ne_of_gt hn)).mpr h
      omega
  rw [rounded_one, hlog]
  simp [halfEven, Nat.mod_one]

theorem rounded_mono {n m : Nat} (h : n ≤ m) : rounded n 1 ≤ rounded m 1 := by
  rcases Nat.lt_or_ge m (2 ^ 53) with hsmall | hlarge
  · rwa [rounded_of_lt hsmall, rounded_of_lt (Nat.lt_of_le_of_lt h hsmall)]
  · have hm : m ≠ 0 := by
      have hpos := Nat.two_pow_pos 53
      omega
    rcases Nat.lt_or_ge n (2 ^ m.log2) with hbelow | hsame
    · have hexp : 53 ≤ m.log2 := (Nat.le_log2 hm).mpr hlarge
      exact (rounded_le hbelow hexp).trans
        (le_rounded (Nat.log2_self_le hm) (Nat.le_trans (by decide) hexp))
    · -- Both are of one size: they are rounded to the same place.
      have hn : n ≠ 0 := by
        have hpos := Nat.two_pow_pos m.log2
        omega
      have hlog : n.log2 = m.log2 := by
        have hge := (Nat.le_log2 hn).mpr hsame
        have hlt := (Nat.log2_lt hn).mpr (Nat.lt_of_le_of_lt h Nat.lt_log2_self)
        omega
      rw [rounded_one, rounded_one, hlog]
      exact Nat.mul_le_mul_right _ (halfEven_mono h _)

/-- A smaller difference is below what a larger one is below. -/
theorem lt_ofUnits_mono {a b c : Int} (h : a ≤ b) (hlt : lt (ofUnits b) (.finite c) = true) :
    lt (ofUnits a) (.finite c) = true := by
  unfold ofUnits at hlt ⊢
  dsimp only at hlt ⊢
  rcases Int.lt_or_le b 0 with hb | hb
  · have ha : a < 0 := by omega
    have hmono := rounded_mono (n := b.natAbs) (m := a.natAbs) (by omega)
    simp only [ha, hb, if_true, decide_true] at hlt ⊢
    split
    · rfl
    · rw [if_neg (by omega)] at hlt
      simp only [lt, decide_eq_true_eq] at hlt ⊢
      omega
  · rw [if_neg (Int.not_lt.mpr hb)] at hlt
    split at hlt
    · simp [lt, Int.not_lt.mpr hb] at hlt
    · rename_i hfinite
      simp only [lt, decide_eq_true_eq] at hlt
      rcases Int.lt_or_le a 0 with ha | ha
      · simp only [ha, if_true, decide_true]
        split
        · rfl
        · simp only [lt, decide_eq_true_eq]
          omega
      · have hmono := rounded_mono (n := a.natAbs) (m := b.natAbs) (by omega)
        rw [if_neg (by omega), if_neg (Int.not_lt.mpr ha)]
        simp only [lt, decide_eq_true_eq]
        omega

end Double
