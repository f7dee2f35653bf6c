import BlockShading.Rounding
import Mathlib.Algebra.Order.Field.Power
import Mathlib.Data.Rat.Floor
import Mathlib.Tactic.GCongr
import Mathlib.Tactic.Linarith
import Mathlib.Tactic.NormNum
import Mathlib.Tactic.Ring

/-!
# The error of rounding

Rounding to a number of binary digits moves a value by at most a half of its last digit, which is a
fixed part of the value. Main statement: what is rounded to `digits` binary digits is off by at most
the value divided by `2 ^ digits`.
-/

namespace BlockShading.Rounding

variable {q : ℚ}

theorem powerOfTwo_eq_zpow (e : Int) : powerOfTwo e = (2 : ℚ) ^ e := by
  cases e with
  | ofNat n => simp [powerOfTwo, Nat.shiftLeft_eq]
  | negSucc n => simp [powerOfTwo, Nat.shiftLeft_eq, Rat.mkRat_eq_div, zpow_negSucc]

theorem abs_nearestEven_sub_le (q : ℚ) : |(nearestEven q : ℚ) - q| ≤ 1 / 2 := by
  have hle : (q.floor : ℚ) ≤ q := Int.floor_le q
  have hlt : q < q.floor + 1 := Int.lt_floor_add_one q
  have hhalf : mkRat 1 2 = (1 : ℚ) / 2 := by norm_num
  unfold nearestEven
  simp only [hhalf]
  rw [abs_le]
  split_ifs <;> push_cast <;> constructor <;> linarith

/-- The place of the leading digit of a rational does not exceed it. -/
theorem zpow_exponent_le (hq : 0 < q) : (2 : ℚ) ^ exponent q ≤ q := by
  have hnum : q.num.natAbs ≠ 0 := by simpa using hq.ne'
  have hhigh : (2 : ℚ) ^ q.num.natAbs.log2 ≤ q.num.natAbs := by
    exact_mod_cast Nat.log2_self_le hnum
  have hlow : (q.den : ℚ) ≤ 2 ^ (q.den.log2 + 1) := by
    exact_mod_cast Nat.lt_log2_self.le
  have hden : (0 : ℚ) < q.den := by exact_mod_cast q.den_pos
  have hvalue : (q.num.natAbs : ℚ) / q.den = q := by
    have habs : (q.num.natAbs : ℚ) = q.num := by
      simpa only [Int.cast_natCast] using
        congrArg (Int.cast : ℤ → ℚ) (Int.natAbs_of_nonneg (Rat.num_nonneg.mpr hq.le))
    rw [habs, Rat.num_div_den]
  unfold exponent
  simp only [powerOfTwo_eq_zpow]
  split_ifs with hguess
  · exact hguess
  · calc (2 : ℚ) ^ ((q.num.natAbs.log2 : ℤ) - (q.den.log2 : ℤ) - 1)
        = 2 ^ q.num.natAbs.log2 / 2 ^ (q.den.log2 + 1) := by
          rw [sub_sub, zpow_sub₀ two_ne_zero]
          norm_cast
      _ ≤ q.num.natAbs / q.den := by gcongr
      _ = q := hvalue

/-- Rounding is off by at most a fixed part of the value. -/
theorem abs_toDigits_sub_le (digits : Nat) (hq : 0 ≤ q) :
    |toDigits digits q - q| ≤ q / 2 ^ digits := by
  unfold toDigits
  split_ifs with hzero
  · have : q = 0 := le_antisymm hzero hq
    simp [this]
  · have hpos : 0 < q := lt_of_not_ge hzero
    set unit : ℚ := powerOfTwo (exponent q + 1 - (digits : Int)) with hunit
    have hunit' : unit = 2 * (2 ^ exponent q / 2 ^ digits) := by
      rw [hunit, powerOfTwo_eq_zpow, zpow_sub₀ two_ne_zero, zpow_add₀ two_ne_zero, zpow_one,
        zpow_natCast]
      ring
    have hunit0 : 0 < unit := by
      rw [hunit']
      positivity
    have hscaled : (nearestEven (q / unit) : ℚ) * unit - q =
        (nearestEven (q / unit) - q / unit) * unit := by
      rw [sub_mul, div_mul_cancel₀ q hunit0.ne']
    calc |(nearestEven (q / unit) : ℚ) * unit - q|
        = |(nearestEven (q / unit) : ℚ) - q / unit| * unit := by
          rw [hscaled, abs_mul, abs_of_pos hunit0]
      _ ≤ 1 / 2 * unit := by
          gcongr
          exact abs_nearestEven_sub_le _
      _ = 2 ^ exponent q / 2 ^ digits := by
          rw [hunit']
          ring
      _ ≤ q / 2 ^ digits := by
          gcongr
          exact zpow_exponent_le hpos

theorem toDigits_nonneg (digits : Nat) (hq : 0 ≤ q) : 0 ≤ toDigits digits q := by
  have hclose := abs_le.mp (abs_toDigits_sub_le digits hq)
  have hpart : q / 2 ^ digits ≤ q := div_le_self hq (one_le_pow₀ one_le_two)
  linarith [hclose.1]

end BlockShading.Rounding
