import SwarmBridge.BridgeNode.Frequency

namespace SwarmBridge

open Foundation

/-!
# What the frequency limiter lets through

While the clock does not go back, `max_freq` bounds what is let through, up to any
time and in any window of time, and a stream that keeps its distance passes whole.
When the clock goes back before the beginning of a period, everything passes until
it reaches that beginning again, so the bound then rests on the calls themselves.
-/

/-- The frequency cap.  From the start on, a topic lets through what its rate allows;
in any window, at most what one period holds and one message more. -/
theorem frequency_cap (maxFreq : ℕ -> ℤ) (starts : ℕ -> ℚ) (topic : ℕ) (calls : List SubCall)
    (clock : (starts topic :: readings topic calls).Pairwise (· ≤ ·)) :
    let passed := readings topic
      (subCallbacks maxFreq (fun topic => FreqPeriod.initial (starts topic)) calls)
    (∀ last, starts topic ≤ last -> (countUpTo last passed : ℚ) ≤
      freqCap (maxFreq topic) * (last - starts topic)) ∧
    (∀ first last, first ≤ last -> (countIn first last passed : ℚ) ≤
      freqCap (maxFreq topic) * (last - first) + freqCap (maxFreq topic) + 1) := by
  have nonneg := freqCap_nonneg (maxFreq topic)
  have sorted : ((FreqPeriod.initial (starts topic)).subTLast :: readings topic calls).Pairwise
      (· ≤ ·) := clock
  rw [readings_subCallbacks, letThrough_eq_admitted (maxFreq topic) sorted]
  refine ⟨fun last reached => ?_, fun first last le => ?_⟩
  · rw [← countIn_eq_countUpTo (starts topic - 1)]
    · exact Period.admitted_le nonneg sorted reached _
    · intro time member
      have after : starts topic ≤ time :=
        List.rel_of_pairwise_cons clock ((Period.admitted_sublist _ _).subset member)
      linarith
  · have window := Period.window_le nonneg zero_le_one
      (FreqPeriod.initial (starts topic)).period (List.pairwise_cons.mp clock).2 le
    rwa [mul_one] at window

/-- A burst at a limit of 2, across the end of a period. -/
theorem frequency_cap_burst :
    let passed := readings 0 (subCallbacks (fun _ => 2) (fun _ => FreqPeriod.initial 0)
      ([0, 1 / 2, 1, 1, 3, 13 / 4, 7 / 2, 7 / 2].map (SubCall.mk 0)))
    passed = [1 / 2, 1, 3, 7 / 2] ∧ (countUpTo (7 / 2) passed : ℚ) ≤ freqCap 2 * (7 / 2 - 0) := by
  refine ⟨by decide +kernel, ?_⟩
  exact (frequency_cap (fun _ => 2) (fun _ => 0) 0 _ (by decide +kernel)).1 (7 / 2) (by norm_num)

/-- A stream whose messages keep the distance that `max_freq` asks for passes whole. -/
theorem frequency_transparent (maxFreq : ℕ -> ℤ) (starts : ℕ -> ℚ) (topic : ℕ)
    (calls : List SubCall) (positive : 1 ≤ maxFreq topic)
    (spaced : (starts topic :: readings topic calls).IsChain
      fun earlier later => earlier + 1 / (maxFreq topic : ℚ) ≤ later) :
    readings topic (subCallbacks maxFreq (fun topic => FreqPeriod.initial (starts topic)) calls) =
      readings topic calls := by
  have cap : freqCap (maxFreq topic) = (maxFreq topic : ℚ) := freqCap_of_nonneg (by omega)
  have rate : 0 < (maxFreq topic : ℚ) := Int.cast_pos.mpr (by omega)
  have sorted : ((FreqPeriod.initial (starts topic)).subTLast :: readings topic calls).Pairwise
      (· ≤ ·) := by
    refine List.isChain_iff_pairwise.mp (spaced.imp fun earlier later apart => ?_)
    have gap : 0 < 1 / (maxFreq topic : ℚ) := one_div_pos.mpr rate
    linarith
  rw [readings_subCallbacks, letThrough_eq_admitted (maxFreq topic) sorted, cap]
  refine Period.admitted_of_spaced rate ?_ spaced
  simp [FreqPeriod.period, FreqPeriod.initial]

/-- A stream at its limit, over two periods. -/
theorem frequency_transparent_steady :
    readings 0 (subCallbacks (fun _ => 2) (fun _ => FreqPeriod.initial 0)
      ([1 / 2, 1, 3 / 2, 2, 5 / 2, 3].map (SubCall.mk 0))) = [1 / 2, 1, 3 / 2, 2, 5 / 2, 3] := by
  have spaced : ((0 : ℚ) :: readings 0 ([1 / 2, 1, 3 / 2, 2, 5 / 2, 3].map (SubCall.mk 0))).IsChain
      fun earlier later => earlier + 1 / ((2 : ℤ) : ℚ) ≤ later := by
    decide +kernel
  exact frequency_transparent (fun _ => 2) (fun _ => 0) 0 _ (by decide) spaced

/-! ## After the clock has gone back -/

end SwarmBridge
