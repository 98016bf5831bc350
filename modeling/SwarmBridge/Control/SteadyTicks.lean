import SwarmBridge.Foundation.NearestEven
import SwarmBridge.Control.Request

namespace SwarmBridge

open Foundation

/-!
# The end of a fault on the steady clock

`start_node_fault` multiplies the duration by the number of nanoseconds in a second,
converts the product to the 64-bit ticks of `steady_clock`, and adds them to the
reading of the clock.  The product is rounded; the conversion and the sum are undefined
when they leave the range.  A duration is only ever checked to be positive.
-/

/-- An integer as an `int64_t`; without a value when it overflows. -/
def toInt64 (value : ℤ) : Option ℤ :=
  if -2 ^ 63 ≤ value ∧ value < 2 ^ 63 then some value else none

namespace Double

/-- The `double` for an exact result. -/
def ofExact (exact : ℚ) : Double :=
  let rounded := binary64.nearest exact
  if 2 ^ 1024 ≤ |rounded| then .infinite (decide (exact < 0)) else .finite rounded

/-- The product of two `double`s. -/
def mul : Double -> Double -> Double
  | .finite left, .finite right => ofExact (left * right)
  | .infinite left, .infinite right => .infinite (left != right)
  | .infinite negative, .finite value =>
      if value = 0 then .nan else .infinite (negative != decide (value < 0))
  | .finite value, .infinite negative =>
      if value = 0 then .nan else .infinite (negative != decide (value < 0))
  | .nan, _ => .nan
  | _, .nan => .nan

/-- The conversion of a `double` to `int64_t`, which cuts off the fraction. -/
def truncate : Double -> Option ℤ
  | .finite value => toInt64 (if 0 ≤ value then ⌊value⌋ else ⌈value⌉)
  | _ => none

end Double

/-- The ticks of the steady clock in a second. -/
def ticksPerSec : ℚ := 10 ^ 9

/-- `duration_cast<steady_clock::duration>` of `duration<double>(duration_sec)`. -/
def durationTicks (durationSec : Double) : Option ℤ :=
  (durationSec.mul (.finite ticksPerSec)).truncate

/-- The time that `start_node_fault` stores in `node_fault_until`. -/
def faultUntil (now : ℤ) (durationSec : Double) : Option ℤ :=
  (durationTicks durationSec).bind fun ticks => toInt64 (now + ticks)

/-- Around `ticks` nanoseconds the clock can be set: they fit into the range of the
ticks, their end on the clock does, and a `double` is within one of them. -/
structure Settable (now : ℤ) (ticks : ℚ) : Prop where
  fits : ticks < 2 ^ 63 - 512
  ends : binary64.RoundsBelow ticks (2 ^ 63 - now)
  near : ∃ n : ℤ, |n * binary64.spacing ticks - ticks| ≤ 1

/-! ## Ticks below the range -/

section Ticks

variable {ticks : ℚ}

/-- A positive product is rounded into the range exactly when it lies before the middle
of the last step. -/
theorem nearest_lt_int64_iff (positive : 0 < ticks) :
    binary64.nearest ticks < 2 ^ 63 ↔ ticks < 2 ^ 63 - 512 := by
  by_cases low : ticks < 2 ^ (62 : ℤ)
  · have rounded : binary64.nearest ticks ≤ 2 ^ (62 : ℤ) :=
      FloatFormat.nearest_le_zpow positive low (by decide) (by decide)
    norm_num at low rounded
    exact iff_of_true (by linarith) (by linarith)
  · by_cases high : ticks < 2 ^ (63 : ℤ)
    · -- the spacing of the last binade is 1024
      have spacing : binary64.spacing ticks = 1024 := by
        rw [FloatFormat.spacing, FloatFormat.exponent_eq (not_lt.mp low) high]
        norm_num [binary64]
      have last : ⌈(2 ^ 63 : ℚ) / 1024⌉ - 1 = 2 ^ 53 - 1 := by
        norm_num
      have odd : ¬ Even ((2 : ℤ) ^ 53 - 1) := by decide
      have middle : (((2 ^ 53 - 1 : ℤ) : ℚ) + 1 / 2) * 1024 = 2 ^ 63 - 512 := by
        norm_num
      rw [FloatFormat.nearest_lt_iff, FloatFormat.RoundsBelow, spacing, last, middle]
      exact or_iff_left fun tie => odd tie.2
    · have rounded : (2 : ℚ) ^ (63 : ℤ) ≤ binary64.nearest ticks :=
        FloatFormat.zpow_le_nearest (not_lt.mp high) (by decide) (by decide)
      norm_num at high rounded
      exact iff_of_false (by linarith) (by linarith)

theorem nearest_nonneg (positive : 0 < ticks) : 0 ≤ binary64.nearest ticks := by
  have zero : ((0 : ℤ) : ℚ) * binary64.spacing ticks ≤ ticks := by
    rw [Int.cast_zero, zero_mul]
    exact positive.le
  have low := FloatFormat.le_nearest zero
  rwa [Int.cast_zero, zero_mul] at low

/-- The conversion of a positive duration. -/
theorem durationTicks_finite {sec : ℚ} (positive : 0 < sec) :
    durationTicks (.finite sec) =
      if sec * ticksPerSec < 2 ^ 63 - 512 then some ⌊binary64.nearest (sec * ticksPerSec)⌋
      else none := by
  have exact : 0 < sec * ticksPerSec := mul_pos positive (by norm_num [ticksPerSec])
  have nonneg := nearest_nonneg exact
  have range := nearest_lt_int64_iff exact
  have wide : (2 : ℚ) ^ 63 ≤ 2 ^ 1024 := pow_le_pow_right₀ one_le_two (by decide)
  rw [durationTicks, Double.mul, Double.ofExact, abs_of_nonneg nonneg]
  by_cases fits : sec * ticksPerSec < 2 ^ 63 - 512
  · have finite := range.mpr fits
    have cut : ⌊binary64.nearest (sec * ticksPerSec)⌋ < 2 ^ 63 :=
      Int.floor_lt.mpr (by exact_mod_cast finite)
    have least : (0 : ℤ) ≤ ⌊binary64.nearest (sec * ticksPerSec)⌋ := Int.floor_nonneg.mpr nonneg
    rw [if_pos fits, if_neg (not_le.mpr (finite.trans_le wide)), Double.truncate, if_pos nonneg,
      toInt64, if_pos ⟨by linarith, cut⟩]
  · have beyond : ¬ ⌊binary64.nearest (sec * ticksPerSec)⌋ < 2 ^ 63 := by
      rw [Int.floor_lt]
      exact_mod_cast mt range.mp fits
    rw [if_neg fits]
    split_ifs
    · rfl
    · rw [Double.truncate, if_pos nonneg, toInt64, if_neg fun both => beyond both.2]

/-- The end of a positive duration, when it has one. -/
theorem faultUntil_eq_some_iff {now deadline : ℤ} (representable : -2 ^ 63 ≤ now) {sec : ℚ}
    (positive : 0 < sec) :
    faultUntil now (.finite sec) = some deadline ↔
      sec * ticksPerSec < 2 ^ 63 - 512 ∧
        binary64.RoundsBelow (sec * ticksPerSec) (2 ^ 63 - now) ∧
        deadline = now + ⌊binary64.nearest (sec * ticksPerSec)⌋ := by
  have exact : 0 < sec * ticksPerSec := mul_pos positive (by norm_num [ticksPerSec])
  have least : (0 : ℤ) ≤ ⌊binary64.nearest (sec * ticksPerSec)⌋ :=
    Int.floor_nonneg.mpr (nearest_nonneg exact)
  have sum : now + ⌊binary64.nearest (sec * ticksPerSec)⌋ < 2 ^ 63 ↔
      binary64.RoundsBelow (sec * ticksPerSec) (2 ^ 63 - now) := by
    rw [← FloatFormat.nearest_lt_iff, ← lt_sub_iff_add_lt', Int.floor_lt]
    push_cast
    exact Iff.rfl
  rw [faultUntil, durationTicks_finite positive]
  split_ifs with fits
  · rw [Option.bind_some, toInt64, ← sum]
    split_ifs with range
    · rw [Option.some.injEq]
      exact ⟨fun same => ⟨fits, range.2, same.symm⟩, fun parts => parts.2.2.symm⟩
    · refine iff_of_false (fun same => by cases same) fun parts => range ⟨by linarith, parts.2.1⟩
  · exact iff_of_false (fun same => by cases same) fun parts => fits parts.1

/-- The clock can be set for durations of up to 208 days, unless it is about to overflow
itself. -/
theorem settable_of_short {now : ℤ} (positive : 0 < ticks) (short : ticks < 2 ^ (54 : ℤ))
    (early : now + ticks + 1 < 2 ^ 63) : Settable now ticks := by
  have place : binary64.exponent ticks ≤ 1 :=
    (FloatFormat.exponent_le positive short).trans (by decide)
  have spacing : binary64.spacing ticks ≤ 2 ^ (1 : ℤ) := zpow_le_zpow_right₀ one_le_two place
  have near : |binary64.nearest ticks - ticks| ≤ 1 := by
    have rounded : |binary64.nearest ticks - ticks| ≤ binary64.spacing ticks / 2 :=
      FloatFormat.abs_nearest_sub_le ticks
    rw [zpow_one] at spacing
    linarith
  refine ⟨?_, FloatFormat.nearest_lt_iff.mp ?_, ⟨_, near⟩⟩
  · norm_num at short ⊢
    linarith
  · linarith [(abs_le.mp near).2]

/-- A duration has an end on the clock, within one tick of the exact one, exactly
when the clock can be set for it. -/
theorem faultUntil_near_iff {now : ℤ} (representable : -2 ^ 63 ≤ now) {sec : ℚ}
    (positive : 0 < sec) :
    (∃ deadline, faultUntil now (.finite sec) = some deadline ∧
      |(deadline : ℚ) - (now + sec * ticksPerSec)| ≤ 1) ↔ Settable now (sec * ticksPerSec) := by
  have near : |((now + ⌊binary64.nearest (sec * ticksPerSec)⌋ : ℤ) : ℚ) -
      (now + sec * ticksPerSec)| ≤ 1 ↔
        ∃ n : ℤ, |n * binary64.spacing (sec * ticksPerSec) - sec * ticksPerSec| ≤ 1 := by
    rw [← FloatFormat.abs_floor_nearest_sub_le_one_iff, Int.cast_add, add_sub_add_left_eq_sub]
  simp only [faultUntil_eq_some_iff representable positive]
  constructor
  · rintro ⟨deadline, ⟨fits, ends, rfl⟩, within⟩
    exact ⟨fits, ends, near.mp within⟩
  · intro settable
    exact ⟨_, ⟨settable.fits, settable.ends, rfl⟩, near.mpr settable.near⟩

end Ticks

end SwarmBridge
