import Mathlib.Algebra.Order.Round
import Mathlib.Data.Int.Log
import Mathlib.Data.Rat.Floor

/-!
# Rounding to float64

A rational that is not negative is rounded to a multiple of the spacing that the floats have at
its magnitude, to the even one when it lies halfway. What comes out beyond the largest float
stands for infinity.
-/

namespace QuicSql.Lib.Float64

def nearestEven (x : ℚ) : ℤ := if 2 * Int.fract x = 1 ∧ ⌊x⌋ % 2 = 0 then ⌊x⌋ else round x

/-- The spacing around `q`; the subnormal floats have the least. -/
def ulp (q : ℚ) : ℚ := 2 ^ (max (Int.log 2 q) (-1022) - 52)

def rounded (q : ℚ) : ℚ := nearestEven (q / ulp q) * ulp q

theorem nearestEven_nonneg {x : ℚ} (h : 0 ≤ x) : 0 ≤ nearestEven x := by
  unfold nearestEven
  split
  · exact Int.floor_nonneg.mpr h
  · rw [round_eq]
    exact Int.floor_nonneg.mpr (by linarith)

theorem nearestEven_eq {x : ℚ} {n : ℤ} (hLow : n - 1 / 2 < x) (hHigh : x < n + 1 / 2) : nearestEven x = n := by
  have hRound : round x = n := by
    rw [round_eq, Int.floor_eq_iff]
    constructor <;> linarith
  unfold nearestEven
  split
  · -- halfway between two integers is not within a half of a third
    rename_i hTie
    have hHalf : x = ⌊x⌋ + 1 / 2 := by linarith [Int.floor_add_fract x, hTie.1]
    have hAbove : (n : ℚ) < ⌊x⌋ + 1 := by linarith
    have hBelow : (⌊x⌋ : ℚ) < n := by linarith
    have hAbove' : n < ⌊x⌋ + 1 := by exact_mod_cast hAbove
    have hBelow' : ⌊x⌋ < n := by exact_mod_cast hBelow
    omega
  · exact hRound

theorem ulp_pos (q : ℚ) : 0 < ulp q := zpow_pos (by norm_num) _

theorem ulp_eq {q : ℚ} {e : ℤ} (he : -1022 ≤ e) (hLow : 2 ^ e ≤ q) (hHigh : q < 2 ^ (e + 1)) : ulp q = 2 ^ (e - 52) := by
  have hPos : 0 < q := (zpow_pos (by norm_num) e).trans_le hLow
  have hFrom : e ≤ Int.log 2 q := (Int.zpow_le_iff_le_log (by norm_num) hPos).mp (by exact_mod_cast hLow)
  have hTo : Int.log 2 q < e + 1 := (Int.lt_zpow_iff_log_lt (by norm_num) hPos).mp (by exact_mod_cast hHigh)
  have hLog : Int.log 2 q = e := by omega
  rw [ulp, hLog, max_eq_left he]

theorem rounded_nonneg {q : ℚ} (h : 0 ≤ q) : 0 ≤ rounded q := by
  have hScaled : (0 : ℚ) ≤ nearestEven (q / ulp q) := by
    exact_mod_cast nearestEven_nonneg (div_nonneg h (ulp_pos q).le)
  exact mul_nonneg hScaled (ulp_pos q).le

/-- The multiple of the spacing within half of it. -/
theorem rounded_eq {q : ℚ} {e n : ℤ} (hUlp : ulp q = 2 ^ e) (hLow : (n - 1 / 2) * 2 ^ e < q)
    (hHigh : q < (n + 1 / 2) * 2 ^ e) : rounded q = n * 2 ^ e := by
  have hPos : (0 : ℚ) < 2 ^ e := zpow_pos (by norm_num) e
  rw [rounded, hUlp, nearestEven_eq ((lt_div_iff₀ hPos).mpr hLow) ((div_lt_iff₀ hPos).mpr hHigh)]

end QuicSql.Lib.Float64
