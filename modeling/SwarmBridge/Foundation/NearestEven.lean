import Mathlib.Data.Int.Log
import Mathlib.Data.Rat.Floor
import Mathlib.Algebra.Ring.Parity
import Mathlib.Tactic.Linarith
import Mathlib.Tactic.NormNum

namespace SwarmBridge
namespace Foundation

/-!
# Rounding to the nearest number of a format

The result of a floating-point operation is the exact result, rounded to the nearest
number of the format; of two that are equally near, the even one is taken.  Exact
results are rationals here.  Around a positive number the format is a grid of some
spacing, and rounding is the rounding of a quotient to an integer.
-/

/-! ## Rounding to an integer -/

section Integer

variable {K : Type*} [Field K] [LinearOrder K] [IsStrictOrderedRing K] [FloorRing K]

/-- The nearest integer, the even one of two. -/
def nearestInt (x : K) : ℤ :=
  if Int.fract x < 1 / 2 ∨ Int.fract x = 1 / 2 ∧ Even ⌊x⌋ then ⌊x⌋ else ⌊x⌋ + 1

/-- Rounding ends at or below an integer exactly for the numbers below the middle of the
step to the next one, and for the middle itself if the integer is even. -/
theorem nearestInt_le_iff {x : K} {n : ℤ} :
    nearestInt x ≤ n ↔ x < n + 1 / 2 ∨ x = n + 1 / 2 ∧ Even n := by
  have whole := Int.floor_add_fract x
  have fract_nonneg := Int.fract_nonneg x
  have fract_lt := Int.fract_lt_one x
  rcases lt_trichotomy ⌊x⌋ n with below | same | above
  · -- the next integer is not beyond `n` either
    have next : ((⌊x⌋ + 1 : ℤ) : K) ≤ n := Int.cast_le.mpr below
    push_cast at next
    have low : nearestInt x ≤ n := by
      unfold nearestInt
      split_ifs <;> omega
    exact iff_of_true low (.inl (by linarith))
  · subst same
    have middle : (x < ⌊x⌋ + 1 / 2 ∨ x = ⌊x⌋ + 1 / 2 ∧ Even ⌊x⌋) ↔
        (Int.fract x < 1 / 2 ∨ Int.fract x = 1 / 2 ∧ Even ⌊x⌋) := by
      rw [← sub_lt_iff_lt_add', ← sub_eq_iff_eq_add', Int.self_sub_floor]
    rw [middle, nearestInt]
    split_ifs with down
    · exact iff_of_true le_rfl down
    · exact iff_of_false (by omega) down
  · have next : ((n + 1 : ℤ) : K) ≤ ⌊x⌋ := Int.cast_le.mpr above
    push_cast at next
    have high : ¬ nearestInt x ≤ n := by
      unfold nearestInt
      split_ifs <;> omega
    refine iff_of_false high ?_
    rintro (less | ⟨same, -⟩) <;> linarith

theorem abs_nearestInt_sub_le (x : K) : |(nearestInt x : K) - x| ≤ 1 / 2 := by
  have whole := Int.floor_add_fract x
  rw [abs_le]
  unfold nearestInt
  split_ifs with down
  · have low : Int.fract x ≤ 1 / 2 := down.elim le_of_lt fun tie => tie.1.le
    constructor <;> linarith [Int.fract_nonneg x]
  · have high : 1 / 2 ≤ Int.fract x := not_lt.mp fun less => down (.inl less)
    push_cast
    constructor <;> linarith [Int.fract_lt_one x]

/-- No integer is nearer. -/
theorem abs_nearestInt_sub_le_abs (x : K) (n : ℤ) : |(nearestInt x : K) - x| ≤ |(n : K) - x| := by
  by_cases same : nearestInt x = n
  · rw [same]
  · have apart : (1 : K) ≤ |(nearestInt x : K) - n| := by
      exact_mod_cast Int.one_le_abs (sub_ne_zero.mpr same)
    have detour := abs_sub_le (nearestInt x : K) x n
    rw [abs_sub_comm x (n : K)] at detour
    linarith [abs_nearestInt_sub_le x]

theorem le_nearestInt {x : K} {n : ℤ} (le : (n : K) ≤ x) : n ≤ nearestInt x := by
  refine Int.le_of_sub_one_lt (not_le.mp fun below => ?_)
  have low := nearestInt_le_iff.mp below
  push_cast at low
  rcases low with less | ⟨same, -⟩ <;> linarith

theorem nearestInt_le {x : K} {n : ℤ} (le : x ≤ n) : nearestInt x ≤ n :=
  nearestInt_le_iff.mpr (.inl (by linarith))

end Integer

/-! ## Rounding to a floating-point format -/

/-- A binary format: its numbers are the `m * 2 ^ e` with `|m| < 2 ^ precision` and
`minExponent ≤ e`.  It has no largest number; overflow is the business of its user. -/
structure FloatFormat where
  precision : ℕ
  minExponent : ℤ

namespace FloatFormat

variable (format : FloatFormat)

/-- The exponent of the last place of a positive number. -/
def exponent (x : ℚ) : ℤ := max (Int.log 2 |x| + 1 - format.precision) format.minExponent

/-- The distance between two neighbours of the format around a number. -/
def spacing (x : ℚ) : ℚ := 2 ^ format.exponent x

/-- The nearest number of the format, the even one of two. -/
def nearest (x : ℚ) : ℚ := nearestInt (x / format.spacing x) * format.spacing x

/-- The number is nearer to the format below the bound than to the format from the
bound on: it lies before the middle of the step from the last multiple of the spacing
below the bound, or in the middle if this multiple is even. -/
def RoundsBelow (x bound : ℚ) : Prop :=
  let last := ⌈bound / format.spacing x⌉ - 1
  x < (last + 1 / 2) * format.spacing x ∨ x = (last + 1 / 2) * format.spacing x ∧ Even last

variable {format} {x : ℚ}

theorem spacing_pos (x : ℚ) : 0 < format.spacing x := zpow_pos two_pos _

/-- The exponent of the last place, from the power of two below the number. -/
theorem exponent_eq {k : ℤ} (le : (2 : ℚ) ^ k ≤ x) (lt : x < (2 : ℚ) ^ (k + 1)) :
    format.exponent x = max (k + 1 - format.precision) format.minExponent := by
  have positive : 0 < x := (zpow_pos two_pos k).trans_le le
  have least := (Int.zpow_le_iff_le_log (b := 2) (by decide) positive).mp (by exact_mod_cast le)
  have below := (Int.lt_zpow_iff_log_lt (b := 2) (by decide) positive).mp (by exact_mod_cast lt)
  have log : Int.log 2 x = k := by omega
  rw [exponent, abs_of_pos positive, log]

theorem exponent_le {k : ℤ} (positive : 0 < x) (lt : x < (2 : ℚ) ^ k) :
    format.exponent x ≤ max (k - format.precision) format.minExponent := by
  have log := (Int.lt_zpow_iff_log_lt (b := 2) (by decide) positive).mp (by exact_mod_cast lt)
  rw [exponent, abs_of_pos positive]
  omega

/-- Distances to multiples of the spacing, measured in spacings. -/
theorem abs_mul_spacing_sub (x : ℚ) (n : ℤ) :
    |n * format.spacing x - x| = |(n : ℚ) - x / format.spacing x| * format.spacing x := by
  have positive := format.spacing_pos x
  rw [← abs_of_pos positive, ← abs_mul, abs_of_pos positive, sub_mul,
    div_mul_cancel₀ x positive.ne']

theorem abs_nearest_sub_le (x : ℚ) : |format.nearest x - x| ≤ format.spacing x / 2 := by
  calc |format.nearest x - x|
      = |(nearestInt (x / format.spacing x) : ℚ) - x / format.spacing x| * format.spacing x :=
        abs_mul_spacing_sub x _
    _ ≤ 1 / 2 * format.spacing x :=
        mul_le_mul_of_nonneg_right (abs_nearestInt_sub_le _) (spacing_pos x).le
    _ = format.spacing x / 2 := one_div_mul_eq_div _ _

/-- No multiple of the spacing is nearer. -/
theorem abs_nearest_sub_le_abs (x : ℚ) (n : ℤ) :
    |format.nearest x - x| ≤ |n * format.spacing x - x| := by
  rw [nearest, abs_mul_spacing_sub, abs_mul_spacing_sub]
  exact mul_le_mul_of_nonneg_right (abs_nearestInt_sub_le_abs _ n) (spacing_pos x).le

theorem le_nearest {n : ℤ} (le : n * format.spacing x ≤ x) :
    n * format.spacing x ≤ format.nearest x := by
  have positive := format.spacing_pos x
  refine mul_le_mul_of_nonneg_right (Int.cast_le.mpr (le_nearestInt ?_)) positive.le
  exact (le_div_iff₀ positive).mpr le

theorem nearest_le {n : ℤ} (le : x ≤ n * format.spacing x) :
    format.nearest x ≤ n * format.spacing x := by
  have positive := format.spacing_pos x
  refine mul_le_mul_of_nonneg_right (Int.cast_le.mpr (nearestInt_le ?_)) positive.le
  exact (div_le_iff₀ positive).mpr le

/-- What the comparison of a rounded result with a bound says about the exact one. -/
theorem nearest_lt_iff {bound : ℚ} :
    format.nearest x < bound ↔ format.RoundsBelow x bound := by
  have positive := format.spacing_pos x
  rw [nearest, ← lt_div_iff₀ positive, ← Int.lt_ceil, ← Int.le_sub_one_iff, nearestInt_le_iff,
    div_lt_iff₀ positive, div_eq_iff positive.ne']
  exact Iff.rfl

/-! ### Powers of two are in the format -/

theorem exists_zpow_eq {k : ℤ} (le : format.exponent x ≤ k) :
    ∃ n : ℤ, (2 : ℚ) ^ k = n * format.spacing x := by
  refine ⟨2 ^ (k - format.exponent x).toNat, ?_⟩
  rw [spacing, Int.cast_pow, Int.cast_ofNat, ← zpow_natCast, ← zpow_add₀ two_ne_zero,
    Int.toNat_of_nonneg (by omega), sub_add_cancel]

theorem zpow_le_nearest {k : ℤ} (le : (2 : ℚ) ^ k ≤ x) (normal : format.minExponent ≤ k)
    (digits : 0 < format.precision) : (2 : ℚ) ^ k ≤ format.nearest x := by
  have positive : 0 < x := (zpow_pos two_pos k).trans_le le
  have log : k ≤ Int.log 2 x :=
    (Int.zpow_le_iff_le_log (by decide) positive).mp (by exact_mod_cast le)
  have whole : format.exponent x ≤ Int.log 2 x := by
    rw [exponent, abs_of_pos positive]
    omega
  rcases exists_zpow_eq whole with ⟨n, multiple⟩
  have below : (2 : ℚ) ^ Int.log 2 x ≤ x := by
    exact_mod_cast Int.zpow_log_le_self (b := 2) (by decide) positive
  calc (2 : ℚ) ^ k ≤ 2 ^ Int.log 2 x := zpow_le_zpow_right₀ one_le_two log
    _ ≤ format.nearest x := by
      rw [multiple] at below ⊢
      exact le_nearest below

theorem nearest_le_zpow {k : ℤ} (positive : 0 < x) (lt : x < (2 : ℚ) ^ k)
    (normal : format.minExponent ≤ k) (digits : 0 < format.precision) :
    format.nearest x ≤ (2 : ℚ) ^ k := by
  have whole : format.exponent x ≤ k := (exponent_le positive lt).trans (by omega)
  rcases exists_zpow_eq whole with ⟨n, multiple⟩
  rw [multiple] at lt ⊢
  exact nearest_le lt.le

/-- Where the spacing is at most one, an integer stays on its side. -/
theorem intCast_le_nearest {n : ℤ} (le : n ≤ x) (fine : format.exponent x ≤ 0) :
    n ≤ format.nearest x := by
  rcases exists_zpow_eq fine with ⟨m, one⟩
  rw [zpow_zero] at one
  have multiple : (n : ℚ) = ((n * m : ℤ) : ℚ) * format.spacing x := by
    rw [Int.cast_mul, mul_assoc, ← one, mul_one]
  rw [multiple] at le ⊢
  exact le_nearest le

/-- Where the spacing is at least one, rounded results are integers. -/
theorem exists_nearest_eq (coarse : 0 ≤ format.exponent x) : ∃ n : ℤ, format.nearest x = n := by
  refine ⟨nearestInt (x / format.spacing x) * 2 ^ (format.exponent x).toNat, ?_⟩
  rw [nearest, spacing, Int.cast_mul, Int.cast_pow, Int.cast_ofNat, ← zpow_natCast,
    Int.toNat_of_nonneg coarse]

/-- Cutting off the fraction of a rounded result leaves it within one of the exact one
exactly when a multiple of the spacing is within one of it. -/
theorem abs_floor_nearest_sub_le_one_iff :
    |(⌊format.nearest x⌋ : ℚ) - x| ≤ 1 ↔ ∃ n : ℤ, |n * format.spacing x - x| ≤ 1 := by
  by_cases coarse : 0 ≤ format.exponent x
  · rcases exists_nearest_eq coarse with ⟨whole, same⟩
    rw [same, Int.floor_intCast, ← same]
    constructor
    · exact fun within => ⟨nearestInt (x / format.spacing x), within⟩
    · rintro ⟨n, within⟩
      exact (abs_nearest_sub_le_abs x n).trans within
  · have small : format.spacing x ≤ 1 :=
      zpow_le_one_of_nonpos₀ one_le_two (not_le.mp coarse).le
    have near : |format.nearest x - x| ≤ format.spacing x / 2 := abs_nearest_sub_le x
    refine iff_of_true ?_ ⟨nearestInt (x / format.spacing x), near.trans (by linarith)⟩
    have low : ⌊x⌋ ≤ ⌊format.nearest x⌋ :=
      Int.le_floor.mpr (intCast_le_nearest (Int.floor_le x) (not_le.mp coarse).le)
    have kept : (⌊x⌋ : ℚ) ≤ ⌊format.nearest x⌋ := Int.cast_le.mpr low
    have cut := Int.floor_le (format.nearest x)
    have above := abs_le.mp near
    rw [abs_le]
    constructor <;> linarith [Int.lt_floor_add_one x]

end FloatFormat

/-- The numbers of `double`. -/
def binary64 : FloatFormat := ⟨53, -1074⟩

end Foundation
end SwarmBridge
