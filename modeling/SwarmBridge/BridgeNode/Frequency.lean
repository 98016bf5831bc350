import SwarmBridge.Foundation.PeriodCounter
import Mathlib.Data.Rat.Cast.Order
import Mathlib.Algebra.Order.Field.Rat
import Mathlib.Logic.Function.Basic

namespace SwarmBridge

open Foundation

/-!
# The frequency limiter of the send topics

`sub_cb` asks `send_freq_control` before it serializes a message, and drops the
message when the average over the current period would exceed `max_freq`.  Clock
readings are exact rationals, and `send_num` is an exact count: while the clock does
not go back, it never exceeds `max_freq`.

The clock is that of ROS, which may be simulated and reset.  A reading before the
beginning of the period makes the average negative, so that it exceeds no limit,
and does not end the period either.
-/

/-- One entry of `sub_t_last` together with its entry of `send_num`. -/
structure FreqPeriod where
  subTLast : ℚ
  sendNum : ℕ
deriving DecidableEq, Repr

namespace FreqPeriod

/-- The entries that `main` makes for a send topic. -/
def initial (now : ℚ) : FreqPeriod := ⟨now, 0⟩

/-- The period, as the limiter that counts within a period sees it. -/
def period (entry : FreqPeriod) : Period ℚ := ⟨entry.subTLast, entry.sendNum⟩

end FreqPeriod

/-- The comparison of `send_freq_control`.  A division by zero gives infinity, which
exceeds every limit. -/
def exceedsMaxFreq (maxFreq : ℤ) (sendNum : ℕ) (elapsed : ℚ) : Bool :=
  if elapsed = 0 then true else decide ((maxFreq : ℚ) < ((sendNum : ℚ) + 1) / elapsed)

/-- `send_freq_control` for one topic: whether to discard the message, and the entries
of the topic afterwards. -/
def sendFreqControl (maxFreq : ℤ) (tNow : ℚ) (entry : FreqPeriod) : Bool × FreqPeriod :=
  let discardFlag := exceedsMaxFreq maxFreq entry.sendNum (tNow - entry.subTLast)
  let counted := if discardFlag then entry else { entry with sendNum := entry.sendNum + 1 }
  (discardFlag, if 1 < tNow - entry.subTLast then ⟨tNow, 0⟩ else counted)

/-- A call of `sub_cb`: the index of its topic and the reading of `ros::Time::now`. -/
structure SubCall where
  topic : ℕ
  tNow : ℚ
deriving DecidableEq, Repr

/-- The calls of `sub_cb` that go on to `dispatch_send_message`. -/
def subCallbacks (maxFreq : ℕ -> ℤ) : (ℕ -> FreqPeriod) -> List SubCall -> List SubCall
  | _, [] => []
  | entries, call :: rest =>
      let result := sendFreqControl (maxFreq call.topic) call.tNow (entries call.topic)
      let later := subCallbacks maxFreq (Function.update entries call.topic result.2) rest
      if result.1 then later else call :: later

/-! ## One topic at a time -/

/-- The readings in the calls for one topic. -/
def readings (topic : ℕ) (calls : List SubCall) : List ℚ :=
  calls.filterMap fun call => if call.topic = topic then some call.tNow else none

/-- The readings at which the limiter of one topic lets its message through. -/
def letThrough (maxFreq : ℤ) : FreqPeriod -> List ℚ -> List ℚ
  | _, [] => []
  | entry, tNow :: rest =>
      let result := sendFreqControl maxFreq tNow entry
      if result.1 then letThrough maxFreq result.2 rest
      else tNow :: letThrough maxFreq result.2 rest

theorem readings_cons (topic : ℕ) (call : SubCall) (calls : List SubCall) :
    readings topic (call :: calls) =
      if call.topic = topic then call.tNow :: readings topic calls else readings topic calls := by
  unfold readings
  rw [List.filterMap_cons]
  split_ifs <;> rfl

/-- The topics do not interfere. -/
theorem readings_subCallbacks (maxFreq : ℕ -> ℤ) (topic : ℕ) (entries : ℕ -> FreqPeriod)
    (calls : List SubCall) : readings topic (subCallbacks maxFreq entries calls) =
      letThrough (maxFreq topic) (entries topic) (readings topic calls) := by
  induction calls generalizing entries with
  | nil => rfl
  | cons call rest ih =>
      rw [subCallbacks, readings_cons]
      by_cases own : call.topic = topic
      · subst own
        rw [if_pos rfl, letThrough]
        split_ifs
        · rw [ih, Function.update_self]
        · rw [readings_cons, if_pos rfl, ih, Function.update_self]
      · rw [if_neg own]
        split_ifs
        · rw [ih, Function.update_of_ne (Ne.symm own)]
        · rw [readings_cons, if_neg own, ih, Function.update_of_ne (Ne.symm own)]

/-! ## While the clock does not go back -/

/-- The rate that `max_freq` allows; a negative one allows nothing either. -/
def freqCap (maxFreq : ℤ) : ℚ := max 0 (maxFreq : ℚ)

theorem freqCap_nonneg (maxFreq : ℤ) : 0 ≤ freqCap maxFreq := le_max_left _ _

theorem freqCap_of_nonneg {maxFreq : ℤ} (nonneg : 0 ≤ maxFreq) : freqCap maxFreq = maxFreq :=
  max_eq_right (Int.cast_nonneg nonneg)

/-- The quotient is within the limit when the count is within the rate. -/
theorem exceedsMaxFreq_eq_false_iff {maxFreq : ℤ} {sendNum : ℕ} {elapsed : ℚ}
    (nonneg : 0 ≤ elapsed) : exceedsMaxFreq maxFreq sendNum elapsed = false ↔
      (sendNum : ℚ) + 1 ≤ freqCap maxFreq * elapsed := by
  have counted : 0 < (sendNum : ℚ) + 1 := by positivity
  unfold exceedsMaxFreq
  by_cases zero : elapsed = 0
  · subst zero
    simp [counted]
  · have positive : 0 < elapsed := lt_of_le_of_ne nonneg (Ne.symm zero)
    rw [if_neg zero, decide_eq_false_iff_not, not_lt, div_le_iff₀ positive, freqCap]
    by_cases sign : 0 ≤ maxFreq
    · rw [max_eq_right (Int.cast_nonneg sign)]
    · have negative : (maxFreq : ℚ) < 0 := Int.cast_lt_zero.mpr (not_le.mp sign)
      have product : (maxFreq : ℚ) * elapsed < 0 := mul_neg_of_neg_of_pos negative positive
      rw [max_eq_left negative.le, zero_mul]
      constructor
      · intro within
        linarith
      · intro within
        linarith

/-- While the clock does not go back, `send_freq_control` is a limiter that counts
within a period of one second. -/
theorem sendFreqControl_ahead (maxFreq : ℤ) {tNow : ℚ} {entry : FreqPeriod}
    (ahead : entry.subTLast ≤ tNow) :
    ((sendFreqControl maxFreq tNow entry).1 = false ↔
      entry.period.Admits (freqCap maxFreq) tNow) ∧
    (sendFreqControl maxFreq tNow entry).2.period =
      entry.period.next (freqCap maxFreq) 1 tNow := by
  have decides : exceedsMaxFreq maxFreq entry.sendNum (tNow - entry.subTLast) = false ↔
      entry.period.Admits (freqCap maxFreq) tNow :=
    exceedsMaxFreq_eq_false_iff (sub_nonneg.mpr ahead)
  refine ⟨decides, ?_⟩
  unfold sendFreqControl
  by_cases ended : 1 < tNow - entry.subTLast
  · rw [Period.next_of_ended ended]
    simp only [if_pos ended, FreqPeriod.period]
  · rw [Period.next_of_within ended, Period.gain]
    simp only [if_neg ended]
    by_cases admits : entry.period.Admits (freqCap maxFreq) tNow
    · rw [if_pos admits, decides.mpr admits]
      rfl
    · rw [if_neg admits, Bool.eq_true_of_not_eq_false (fun passes => admits (decides.mp passes))]
      rfl

/-- A call begins no period later than at its own reading. -/
theorem sendFreqControl_subTLast (maxFreq : ℤ) {tNow : ℚ} {entry : FreqPeriod}
    (ahead : entry.subTLast ≤ tNow) : (sendFreqControl maxFreq tNow entry).2.subTLast ≤ tNow := by
  unfold sendFreqControl
  dsimp only
  split_ifs
  · exact le_rfl
  · exact ahead
  · exact ahead

/-- The calls after the first one do not come before the period that it leaves. -/
theorem sorted_after (maxFreq : ℤ) {entry : FreqPeriod} {tNow : ℚ} {rest : List ℚ}
    (sorted : (entry.subTLast :: tNow :: rest).Pairwise (· ≤ ·)) :
    ((sendFreqControl maxFreq tNow entry).2.subTLast :: rest).Pairwise (· ≤ ·) := by
  have ahead : entry.subTLast ≤ tNow := List.rel_of_pairwise_cons sorted List.mem_cons_self
  have tail := (List.pairwise_cons.mp sorted).2
  refine List.pairwise_cons.mpr ⟨fun time member => ?_, (List.pairwise_cons.mp tail).2⟩
  exact (sendFreqControl_subTLast maxFreq ahead).trans (List.rel_of_pairwise_cons tail member)

theorem letThrough_eq_admitted (maxFreq : ℤ) {entry : FreqPeriod} {times : List ℚ}
    (sorted : (entry.subTLast :: times).Pairwise (· ≤ ·)) :
    letThrough maxFreq entry times =
      Period.admitted (freqCap maxFreq) 1 entry.period times := by
  induction times generalizing entry with
  | nil => rfl
  | cons tNow rest ih =>
      have ahead : entry.subTLast ≤ tNow := List.rel_of_pairwise_cons sorted List.mem_cons_self
      rcases sendFreqControl_ahead maxFreq ahead with ⟨decides, moves⟩
      rw [letThrough, Period.admitted, ← moves, ← ih (sorted_after maxFreq sorted)]
      by_cases admits : entry.period.Admits (freqCap maxFreq) tNow
      · simp only [decides.mpr admits, if_pos admits, Bool.false_eq_true, if_false]
      · have discards := Bool.eq_true_of_not_eq_false fun passes => admits (decides.mp passes)
        simp only [discards, if_neg admits, if_true]

/-- While the clock does not go back, `send_num` never exceeds `max_freq`. -/
theorem sendNum_le (maxFreq : ℤ) {entry : FreqPeriod} {times : List ℚ}
    (sorted : (entry.subTLast :: times).Pairwise (· ≤ ·))
    (within : (entry.sendNum : ℚ) ≤ freqCap maxFreq) :
    ((times.foldl (fun entry tNow => (sendFreqControl maxFreq tNow entry).2) entry).sendNum : ℚ) ≤
      freqCap maxFreq := by
  induction times generalizing entry with
  | nil => exact within
  | cons tNow rest ih =>
      have ahead : entry.subTLast ≤ tNow := List.rel_of_pairwise_cons sorted List.mem_cons_self
      refine ih (sorted_after maxFreq sorted) ?_
      have moves : (sendFreqControl maxFreq tNow entry).2.sendNum =
          (entry.period.next (freqCap maxFreq) 1 tNow).count :=
        congrArg Period.count (sendFreqControl_ahead maxFreq ahead).2
      show ((sendFreqControl maxFreq tNow entry).2.sendNum : ℚ) ≤ freqCap maxFreq
      rw [moves]
      by_cases ended : 1 < tNow - entry.subTLast
      · rw [Period.next_of_ended ended, Nat.cast_zero]
        exact freqCap_nonneg maxFreq
      · rw [Period.next_of_within ended, Nat.cast_add]
        refine Period.gain_within le_rfl ?_ within
        calc freqCap maxFreq * (tNow - entry.subTLast) ≤ freqCap maxFreq * 1 :=
              mul_le_mul_of_nonneg_left (not_lt.mp ended) (freqCap_nonneg maxFreq)
          _ = freqCap maxFreq := mul_one _

/-! ## When the clock has gone back -/

end SwarmBridge
