import Mathlib.Data.Int.Log
import Mathlib.Data.Rat.Floor
import Mathlib.Tactic.Linarith
import Mathlib.Tactic.Ring

/-! Rounding to binary floating-point numbers: the numbers that a format can hold, and the nearest of
them to a rational, ties to the even significand. The exponents are not bounded above, so that what a
result overflows to is left to the arithmetic that uses it. -/

/-- The nearest integer, and the even one of two that are. -/
def roundHalfEven (q : ℚ) : ℤ :=
  if q - ⌊q⌋ < 1 / 2 then ⌊q⌋
  else if 1 / 2 < q - ⌊q⌋ then ⌊q⌋ + 1
  else if ⌊q⌋ % 2 = 0 then ⌊q⌋
  else ⌊q⌋ + 1

theorem abs_roundHalfEven_sub_le_half (q : ℚ) : |(roundHalfEven q : ℚ) - q| ≤ 1 / 2 := by
  have hlow := Int.floor_le q
  have hhigh := Int.lt_floor_add_one q
  unfold roundHalfEven
  split_ifs <;> rw [abs_le] <;> push_cast <;> constructor <;> linarith

/-- No integer is nearer. -/
theorem abs_roundHalfEven_sub_le (q : ℚ) (n : ℤ) : |(roundHalfEven q : ℚ) - q| ≤ |n - q| := by
  have hhalf := abs_roundHalfEven_sub_le_half q
  by_cases heq : n = roundHalfEven q
  · rw [heq]
  -- another integer is at least one away from the nearest
  have hone : (1 : ℚ) ≤ |(n : ℚ) - roundHalfEven q| := by
    have hint : 1 ≤ |n - roundHalfEven q| := Int.one_le_abs (sub_ne_zero.mpr heq)
    exact_mod_cast hint
  have htriangle := abs_sub_le (n : ℚ) q (roundHalfEven q)
  rw [abs_sub_comm q] at htriangle
  linarith

/-- How many bits a significand has, and the least exponent. -/
structure FloatFormat where
  precision : ℕ
  minExponent : ℤ
  precision_pos : 0 < precision

namespace FloatFormat

variable (F : FloatFormat)

/-- The numbers that can be held. -/
def Holds (q : ℚ) : Prop := ∃ m e : ℤ, |m| ≤ 2 ^ F.precision ∧ F.minExponent ≤ e ∧ q = m * 2 ^ e

/-- A number that can be held, and none that can be is nearer. -/
structure IsNearest (q x : ℚ) : Prop where
  holds : F.Holds x
  nearest : ∀ z, F.Holds z → |x - q| ≤ |z - q|

/-- The exponent of the last bit of a significand for `q`. -/
def exponent (q : ℚ) : ℤ := max (Int.log 2 |q| - F.precision + 1) F.minExponent

/-- The nearest number that can be held. -/
def round (q : ℚ) : ℚ :=
  if q = 0 then 0 else roundHalfEven (q / 2 ^ F.exponent q) * 2 ^ F.exponent q

variable {F} {q x z : ℚ}

theorem two_zpow_pos (e : ℤ) : (0 : ℚ) < 2 ^ e := zpow_pos (by norm_num) e

theorem holds_zero : F.Holds 0 := ⟨0, F.minExponent, by simp, le_rfl, by simp⟩

/-- Whole numbers up to the largest significand. -/
theorem holds_intCast (hmin : F.minExponent ≤ 0) {n : ℤ} (h : |n| ≤ 2 ^ F.precision) : F.Holds n :=
  ⟨n, 0, h, hmin, by simp⟩

theorem round_of_ne_zero (h : q ≠ 0) :
    F.round q = roundHalfEven (q / 2 ^ F.exponent q) * 2 ^ F.exponent q := if_neg h

theorem exponent_of_lt {e : ℤ} (hmin : F.minExponent ≤ e) (h : e < F.exponent q) :
    F.exponent q = Int.log 2 |q| - F.precision + 1 := by
  unfold exponent at *
  omega

/-- A multiple of the last bit is no nearer. -/
theorem abs_round_sub_le_multiple (h : q ≠ 0) (n : ℤ) :
    |F.round q - q| ≤ |n * 2 ^ F.exponent q - q| := by
  have hpos := two_zpow_pos (F.exponent q)
  have hscale : ∀ m : ℚ, |m * 2 ^ F.exponent q - q| =
      |m - q / 2 ^ F.exponent q| * 2 ^ F.exponent q := by
    intro m
    rw [← abs_of_pos hpos, ← abs_mul, abs_of_pos hpos, sub_mul, div_mul_cancel₀ _ hpos.ne']
  rw [round_of_ne_zero h, hscale, hscale]
  exact mul_le_mul_of_nonneg_right (abs_roundHalfEven_sub_le _ n) hpos.le

/-- A number with a smaller exponent than that of `q` is less than the binade of `q`. -/
theorem abs_le_of_exponent_lt {m e : ℤ} (hm : |m| ≤ 2 ^ F.precision) (h : e < F.exponent q) :
    |(m : ℚ) * 2 ^ e| ≤ ((2 ^ (F.precision - 1) : ℕ) : ℤ) * 2 ^ F.exponent q := by
  have hm' : |(m : ℚ)| ≤ 2 ^ F.precision := by exact_mod_cast hm
  have hbits : F.precision = F.precision - 1 + 1 := (Nat.succ_pred F.precision_pos.ne').symm
  calc |(m : ℚ) * 2 ^ e| = |(m : ℚ)| * 2 ^ e := by rw [abs_mul, abs_of_pos (two_zpow_pos e)]
    _ ≤ 2 ^ F.precision * 2 ^ (F.exponent q - 1) :=
      mul_le_mul hm' (zpow_le_zpow_right₀ (by norm_num) (by omega)) (two_zpow_pos e).le (by positivity)
    _ = ((2 ^ (F.precision - 1) : ℕ) : ℤ) * 2 ^ F.exponent q := by
      rw [zpow_sub₀ (by norm_num), hbits, pow_succ]
      push_cast
      ring

theorem binade_le (h : q ≠ 0) (hexponent : F.exponent q = Int.log 2 |q| - F.precision + 1) :
    (((2 ^ (F.precision - 1) : ℕ) : ℤ) : ℚ) * 2 ^ F.exponent q ≤ |q| := by
  have hlog : (2 : ℚ) ^ Int.log 2 |q| ≤ |q| := Int.zpow_log_le_self (by decide) (abs_pos.mpr h)
  have hbits := F.precision_pos
  refine le_of_eq_of_le ?_ hlog
  push_cast
  rw [hexponent, ← zpow_natCast, ← zpow_add₀ (by norm_num)]
  congr 1
  push_cast [Nat.cast_sub (show 1 ≤ F.precision from hbits)]
  ring

/-- The lower end of the binade on the side of `q`. -/
theorem exists_binade_end {n : ℤ} {e : ℤ} (h : (n : ℚ) * 2 ^ e ≤ |q|) :
    ∃ m : ℤ, |(m : ℚ) * 2 ^ e - q| = |q| - n * 2 ^ e := by
  rcases le_or_gt 0 q with hpos | hneg
  · rw [abs_of_nonneg hpos] at h ⊢
    exact ⟨n, by rw [abs_of_nonpos (by linarith), neg_sub]⟩
  · rw [abs_of_neg hneg] at h ⊢
    refine ⟨-n, ?_⟩
    rw [Int.cast_neg, neg_mul, abs_of_nonneg (by linarith)]
    ring

/-- No number that can be held is nearer. -/
theorem abs_round_sub_le (hz : F.Holds z) : |F.round q - q| ≤ |z - q| := by
  by_cases hq : q = 0
  · rw [hq, round, if_pos rfl, sub_zero, abs_zero]
    exact abs_nonneg _
  obtain ⟨m, e, hm, hmin, rfl⟩ := hz
  rcases le_or_gt (F.exponent q) e with hle | hlt
  · have hmultiple : (m : ℚ) * 2 ^ e =
        ((m * 2 ^ (e - F.exponent q).toNat : ℤ) : ℚ) * 2 ^ F.exponent q := by
      have hexp : ((e - F.exponent q).toNat : ℤ) = e - F.exponent q := Int.toNat_of_nonneg (by omega)
      push_cast
      rw [← zpow_natCast, hexp, mul_assoc, ← zpow_add₀ (by norm_num), sub_add_cancel]
    rw [hmultiple]
    exact abs_round_sub_le_multiple hq _
  · have hsmall := abs_le_of_exponent_lt hm hlt
    have hbinade := binade_le hq (exponent_of_lt hmin hlt)
    have htriangle := abs_sub_abs_le_abs_sub q ((m : ℚ) * 2 ^ e)
    rw [abs_sub_comm q] at htriangle
    -- the lower end of the binade of `q` is a multiple of the last bit, and between the two
    obtain ⟨n, hn⟩ := exists_binade_end hbinade
    have hnear := abs_round_sub_le_multiple (F := F) hq n
    linarith

theorem holds_round : F.Holds (F.round q) := by
  by_cases hq : q = 0
  · rw [hq, round, if_pos rfl]
    exact holds_zero
  refine ⟨_, _, ?_, le_max_right _ _, round_of_ne_zero hq⟩
  have hpos := two_zpow_pos (F.exponent q)
  have hbinade : |q| < 2 ^ F.precision * 2 ^ F.exponent q := by
    refine (Int.lt_zpow_succ_log_self (b := 2) (by decide) |q|).trans_le ?_
    rw [← zpow_natCast, ← zpow_add₀ (by norm_num)]
    refine zpow_le_zpow_right₀ (by norm_num) ?_
    unfold exponent
    omega
  have hscaled : |q / 2 ^ F.exponent q| < 2 ^ F.precision := by
    rw [abs_div, abs_of_pos hpos, div_lt_iff₀ hpos]
    exact hbinade
  have hhalf := abs_roundHalfEven_sub_le_half (q / 2 ^ F.exponent q)
  have habs := abs_sub_abs_le_abs_sub (roundHalfEven (q / 2 ^ F.exponent q) : ℚ) (q / 2 ^ F.exponent q)
  have hlt : |(roundHalfEven (q / 2 ^ F.exponent q) : ℚ)| < 2 ^ F.precision + 1 := by linarith
  have hlt' : |roundHalfEven (q / 2 ^ F.exponent q)| < 2 ^ F.precision + 1 := by exact_mod_cast hlt
  exact Int.lt_add_one_iff.mp hlt'

/-- **Rounding gives the nearest number that can be held.** -/
theorem isNearest_round : F.IsNearest q (F.round q) := ⟨holds_round, fun _ => abs_round_sub_le⟩

/-- A number that can be held is not rounded. -/
theorem IsNearest.eq_self (h : F.IsNearest q x) (hq : F.Holds q) : x = q := by
  have hnear := h.nearest q hq
  rw [sub_self, abs_zero] at hnear
  exact sub_eq_zero.mp (abs_nonpos_iff.mp hnear)

/-- Double precision. -/
def binary64 : FloatFormat := ⟨53, -1074, by decide⟩

end FloatFormat
