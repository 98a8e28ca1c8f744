import Mathlib.Algebra.Order.Field.Power
import Mathlib.Algebra.Order.Floor.Ring
import Mathlib.Data.Int.Log
import Mathlib.Tactic.Linarith
import Mathlib.Tactic.Positivity
import Mathlib.Tactic.Ring

/-! Rounding in an ordered field: to integers, and to numbers with a significand of so many bits and
any exponent, which is what a floating-point operation does that neither overflows nor underflows. -/

namespace LogSocket.Lib

variable {K : Type} [Field K] [LinearOrder K] [FloorRing K]

/-- The nearest integer, and of two the even one. -/
def roundEven (q : K) : ℤ :=
  if Int.fract q < 1 / 2 then ⌊q⌋
  else if 1 / 2 < Int.fract q then ⌊q⌋ + 1
  else if ⌊q⌋ % 2 = 0 then ⌊q⌋ else ⌊q⌋ + 1

/-- The nearest integer, and of two the one away from zero. -/
def roundAway (q : K) : ℤ := if 0 ≤ q then ⌊q + 1 / 2⌋ else -⌊-q + 1 / 2⌋

/-- What the last of `p` bits of a significand is worth. -/
def ulp (p : ℕ) (q : K) : K := 2 ^ (Int.log 2 |q| + 1 - p)

/-- The nearest number with a significand of `p` bits. -/
def nearest (p : ℕ) (q : K) : K := roundEven (q / ulp p q) * ulp p q

section

variable [IsStrictOrderedRing K] {p : ℕ} {q : K} {n : ℤ}

theorem abs_roundEven_sub_le (q : K) : |(roundEven q : K) - q| ≤ 1 / 2 := by
  have hFloor := Int.floor_add_fract q
  have hNonneg := Int.fract_nonneg q
  have hLt := Int.fract_lt_one q
  rw [abs_le, roundEven]
  split_ifs <;> push_cast <;> constructor <;> linarith

theorem abs_roundAway_sub_le (q : K) : |(roundAway q : K) - q| ≤ 1 / 2 := by
  rw [abs_le, roundAway]
  split_ifs
  · have hLow := Int.floor_le (q + 1 / 2)
    have hHigh := Int.lt_floor_add_one (q + 1 / 2)
    constructor <;> linarith
  · have hLow := Int.floor_le (-q + 1 / 2)
    have hHigh := Int.lt_floor_add_one (-q + 1 / 2)
    push_cast
    constructor <;> linarith

@[simp] theorem roundAway_intCast (n : ℤ) : roundAway (n : K) = n := by
  have h := abs_le.mp (abs_roundAway_sub_le (n : K))
  have hLow : ((n : ℤ) : K) < ((roundAway (n : K) + 1 : ℤ) : K) := by push_cast; linarith
  have hHigh : ((roundAway (n : K) : ℤ) : K) < ((n + 1 : ℤ) : K) := by push_cast; linarith
  rw [Int.cast_lt] at hLow hHigh
  omega

theorem ulp_pos : 0 < ulp p q := by
  unfold ulp
  positivity

/-- The integer that a number is rounded to is, in units of the last bit, off by at most a half. -/
theorem abs_nearest_sub_le (p : ℕ) (q : K) : |nearest p q - q| ≤ ulp p q / 2 := by
  have hPos := ulp_pos (p := p) (q := q)
  have hRound := abs_roundEven_sub_le (q / ulp p q)
  have hEq : nearest p q - q = ((roundEven (q / ulp p q) : K) - q / ulp p q) * ulp p q := by
    rw [nearest, sub_mul, div_mul_cancel₀ _ hPos.ne']
  rw [hEq, abs_mul, abs_of_pos hPos]
  calc _ ≤ 1 / 2 * ulp p q := mul_le_mul_of_nonneg_right hRound hPos.le
    _ = ulp p q / 2 := by ring

/-- The last bit of a number between two powers of two. -/
theorem ulp_eq (hLow : 2 ^ n ≤ |q|) (hHigh : |q| < 2 ^ (n + 1)) : ulp p q = 2 ^ (n + 1 - p) := by
  have hPos : 0 < |q| := lt_of_lt_of_le (by positivity) hLow
  have hGe := (Int.zpow_le_iff_le_log (b := 2) one_lt_two hPos).mp (by exact_mod_cast hLow)
  have hLt := (Int.lt_zpow_iff_log_lt (b := 2) one_lt_two hPos).mp (by exact_mod_cast hHigh)
  rw [ulp, show Int.log 2 |q| = n by omega]

/-- Rounding a number below a power of two. -/
theorem abs_nearest_sub_le_of_lt (h : |q| < 2 ^ n) : |nearest p q - q| ≤ 2 ^ (n - p) / 2 := by
  obtain rfl | hne := eq_or_ne q 0
  · have hZero : roundEven (0 : K) = 0 := by simp [roundEven]
    rw [nearest, zero_div, hZero, Int.cast_zero, zero_mul, sub_zero, abs_zero]
    positivity
  · have hPos := abs_pos.mpr hne
    have hLog := (Int.lt_zpow_iff_log_lt (b := 2) one_lt_two hPos).mp (by exact_mod_cast h)
    refine (abs_nearest_sub_le p q).trans ?_
    have hUlp : ulp p q ≤ 2 ^ (n - p) := zpow_le_zpow_right₀ one_le_two (by omega)
    linarith

/-- Between two powers of two the numbers of `p` bits are the multiples of one of them. -/
theorem nearest_eq (hLow : 2 ^ n ≤ |q|) (hHigh : |q| < 2 ^ (n + 1)) :
    ∃ m : ℤ, nearest p q = m * 2 ^ (n + 1 - p) ∧ |(m : K) - q / 2 ^ (n + 1 - p)| ≤ 1 / 2 := by
  refine ⟨roundEven (q / ulp p q), by rw [nearest, ulp_eq hLow hHigh], ?_⟩
  rw [← ulp_eq (p := p) hLow hHigh]
  exact abs_roundEven_sub_le _

end

end LogSocket.Lib
