import Mathlib.Algebra.Order.Field.Basic
import Mathlib.Data.Nat.Cast.Order.Ring
import Mathlib.Data.List.Chain
import Mathlib.Tactic.Linarith
import Mathlib.Tactic.Ring

namespace SwarmBridge
namespace Foundation

/-!
# Limiters that count within a period

A limiter counts what it admits since the beginning of a period, and admits a call
when the average since that beginning stays within a rate.  The period ends at the
first call that comes more than `length` after its beginning; this call is still
judged by the old period, and the new one begins at its time.

Whatever the count was before, the calls admitted from now on stay within the rate
from the beginning of the current period on.  In a window that begins at any other
time, the current period may add what it can still hold, and the call that ends it.
-/

/-- The beginning of a period and the number of calls admitted in it. -/
structure Period (K : Type*) where
  begins : K
  count : ℕ
deriving DecidableEq

section Windows

variable {K : Type*} [LinearOrder K]

/-- The number of times in the window after `first` and up to `last`. -/
def countIn (first last : K) (times : List K) : ℕ :=
  times.countP fun time => decide (first < time ∧ time ≤ last)

@[simp] theorem countIn_nil (first last : K) : countIn first last [] = 0 := rfl

theorem countIn_cons (first last time : K) (times : List K) :
    countIn first last (time :: times) =
      countIn first last times + if first < time ∧ time ≤ last then 1 else 0 := by
  unfold countIn
  rw [List.countP_cons]
  simp only [decide_eq_true_eq]

/-- Nothing after the window counts. -/
theorem countIn_eq_zero {first last : K} {times : List K} (after : ∀ time ∈ times, last < time) :
    countIn first last times = 0 := by
  rw [countIn, List.countP_eq_zero]
  intro time member
  have late := not_le.mpr (after time member)
  simp [late]

/-- The number of times up to `last`. -/
def countUpTo (last : K) (times : List K) : ℕ := times.countP fun time => decide (time ≤ last)

/-- A window that begins early enough holds all times up to its end. -/
theorem countIn_eq_countUpTo (first last : K) {times : List K}
    (after : ∀ time ∈ times, first < time) : countIn first last times = countUpTo last times := by
  refine List.countP_congr fun time member => ?_
  simp [after time member]

end Windows

namespace Period

variable {K : Type*} [Field K] [LinearOrder K]

/-- With the call at `now` the average since the beginning stays within the rate. -/
def Admits (rate now : K) (period : Period K) : Prop :=
  (period.count : K) + 1 ≤ rate * (now - period.begins)

instance (rate now : K) (period : Period K) : Decidable (period.Admits rate now) :=
  inferInstanceAs (Decidable (_ ≤ _))

/-- What a call adds to the count. -/
def gain (rate now : K) (period : Period K) : ℕ := if period.Admits rate now then 1 else 0

/-- The period after a call. -/
def next (rate length now : K) (period : Period K) : Period K :=
  if length < now - period.begins then ⟨now, 0⟩
  else ⟨period.begins, period.count + period.gain rate now⟩

/-- The times of the calls that are admitted. -/
def admitted (rate length : K) : Period K -> List K -> List K
  | _, [] => []
  | period, now :: later =>
      if period.Admits rate now then now :: admitted rate length (period.next rate length now) later
      else admitted rate length (period.next rate length now) later

variable {rate length : K}

theorem next_of_ended {period : Period K} {now : K} (ended : length < now - period.begins) :
    period.next rate length now = ⟨now, 0⟩ := if_pos ended

theorem next_of_within {period : Period K} {now : K} (within : ¬ length < now - period.begins) :
    period.next rate length now = ⟨period.begins, period.count + period.gain rate now⟩ :=
  if_neg within

theorem admitted_sublist (period : Period K) (times : List K) :
    (admitted rate length period times).Sublist times := by
  induction times generalizing period with
  | nil => exact List.Sublist.refl []
  | cons now later ih =>
      unfold admitted
      split_ifs
      · exact (ih _).cons_cons now
      · exact (ih _).cons now

/-- A call counts in a window at most as far as it is admitted. -/
theorem countIn_admitted_le (first last now : K) (period : Period K) (later : List K) :
    countIn first last (admitted rate length period (now :: later)) ≤
      period.gain rate now +
        countIn first last (admitted rate length (period.next rate length now) later) := by
  rw [admitted, gain]
  by_cases admits : period.Admits rate now
  · rw [if_pos admits, if_pos admits, countIn_cons]
    split_ifs <;> omega
  · rw [if_neg admits, if_neg admits, Nat.zero_add]

/-- Of calls after the window, none counts. -/
theorem admitted_after {first last now : K} {later : List K} (late : last < now)
    (sorted : (now :: later).Pairwise (· ≤ ·)) (period : Period K) :
    countIn first last (admitted rate length period (now :: later)) = 0 := by
  refine countIn_eq_zero fun time member => ?_
  rcases List.mem_cons.mp ((admitted_sublist period _).subset member) with rfl | member
  · exact late
  · exact late.trans_le (List.rel_of_pairwise_cons sorted member)

/-- Before the window, a call only moves the period on. -/
theorem admitted_before {first last now : K} (early : now ≤ first) (later : List K)
    (period : Period K) :
    countIn first last (admitted rate length period (now :: later)) =
      countIn first last (admitted rate length (period.next rate length now) later) := by
  have outside : ¬ (first < now ∧ now ≤ last) := fun inside => absurd inside.1 (not_lt.mpr early)
  rw [admitted]
  by_cases admits : period.Admits rate now
  · rw [if_pos admits, countIn_cons, if_neg outside, Nat.add_zero]
  · rw [if_neg admits]

variable [IsStrictOrderedRing K]

/-- A part of the count that keeps within a bound on the average still does after
the call. -/
theorem gain_within {period : Period K} {counted : ℕ} {now bound : K}
    (known : counted ≤ period.count) (average : rate * (now - period.begins) ≤ bound)
    (within : (counted : K) ≤ bound) : (counted : K) + period.gain rate now ≤ bound := by
  unfold gain
  split_ifs with admits
  · have known' : (counted : K) ≤ period.count := Nat.cast_le.mpr known
    calc (counted : K) + ((1 : ℕ) : K) ≤ (period.count : K) + 1 := by
          rw [Nat.cast_one]
          linarith
      _ ≤ rate * (now - period.begins) := admits
      _ ≤ bound := average
  · simpa using within

/-! ## From the beginning of the period -/

/-- What is admitted from now on stays within the rate from the beginning of the
period on, together with as much of its count as did so before. -/
theorem since_begins (nonneg : 0 ≤ rate) {period : Period K} {counted : ℕ} {now last : K}
    {times : List K} (known : counted ≤ period.count)
    (before : (counted : K) ≤ rate * (now - period.begins))
    (sorted : (now :: times).Pairwise (· ≤ ·)) (reached : now ≤ last) (first : K) :
    (counted : K) + countIn first last (admitted rate length period times) ≤
      rate * (last - period.begins) := by
  have scale : ∀ {early late begins : K}, early ≤ late ->
      rate * (early - begins) ≤ rate * (late - begins) :=
    fun later => mul_le_mul_of_nonneg_left (sub_le_sub_right later _) nonneg
  induction times generalizing period counted now with
  | nil => simpa [admitted] using before.trans (scale reached)
  | cons call later ih =>
      have sorted' := (List.pairwise_cons.mp sorted).2
      by_cases late : last < call
      · rw [admitted_after late sorted', Nat.cast_zero, add_zero]
        exact before.trans (scale reached)
      · have reached' := not_lt.mp late
        have elapsed : now ≤ call := List.rel_of_pairwise_cons sorted List.mem_cons_self
        have judged := gain_within known le_rfl (before.trans (scale elapsed))
        have more : (countIn first last (admitted rate length period (call :: later)) : K) ≤
            (period.gain rate call : K) +
              countIn first last (admitted rate length (period.next rate length call) later) :=
          mod_cast countIn_admitted_le first last call period later
        by_cases ended : length < call - period.begins
        · -- the call ends the period, and the next one begins at its time
          rw [next_of_ended ended] at more
          have rest : ((0 : ℕ) : K) +
              countIn first last (admitted rate length ⟨call, 0⟩ later) ≤ rate * (last - call) :=
            ih le_rfl (by simp) sorted' reached'
          rw [Nat.cast_zero, zero_add] at rest
          linarith
        · rw [next_of_within ended] at more
          have rest : ((counted + period.gain rate call : ℕ) : K) +
              countIn first last (admitted rate length
                ⟨period.begins, period.count + period.gain rate call⟩ later) ≤
              rate * (last - period.begins) :=
            ih (Nat.add_le_add_right known _) (by simpa using judged) sorted' reached'
          rw [Nat.cast_add] at rest
          linarith

/-- Whatever the count is, what is admitted from now on stays within the rate from
the beginning of the period on. -/
theorem admitted_le (nonneg : 0 ≤ rate) {period : Period K} {times : List K}
    (sorted : (period.begins :: times).Pairwise (· ≤ ·)) {last : K} (reached : period.begins ≤ last)
    (first : K) :
    (countIn first last (admitted rate length period times) : K) ≤
      rate * (last - period.begins) := by
  have bound : ((0 : ℕ) : K) + countIn first last (admitted rate length period times) ≤
      rate * (last - period.begins) :=
    since_begins nonneg (Nat.zero_le period.count) (by simp) sorted reached first
  rwa [Nat.cast_zero, zero_add] at bound

/-! ## From any other time -/

/-- What is admitted after the window began, in a period that holds `counted` of it. -/
theorem since_first (nonneg : 0 ≤ rate) {period : Period K} {counted : ℕ} {first last : K}
    {times : List K} (known : counted ≤ period.count) (within : (counted : K) ≤ rate * length)
    (sorted : times.Pairwise (· ≤ ·)) (after : ∀ time ∈ times, first < time) (le : first ≤ last) :
    (counted : K) + countIn first last (admitted rate length period times) ≤
      rate * (last - first) + rate * length + 1 := by
  have window : 0 ≤ rate * (last - first) := mul_nonneg nonneg (sub_nonneg.mpr le)
  induction times generalizing period counted with
  | nil =>
      simp only [admitted, countIn_nil, Nat.cast_zero, add_zero]
      linarith
  | cons call later ih =>
      have sorted' := (List.pairwise_cons.mp sorted).2
      by_cases late : last < call
      · rw [admitted_after late sorted, Nat.cast_zero, add_zero]
        linarith
      · have more : (countIn first last (admitted rate length period (call :: later)) : K) ≤
            (period.gain rate call : K) +
              countIn first last (admitted rate length (period.next rate length call) later) :=
          mod_cast countIn_admitted_le first last call period later
        by_cases ended : length < call - period.begins
        · -- one call more, and what comes after it stays within the rate
          have one : (period.gain rate call : K) ≤ 1 := by
            unfold gain
            split_ifs <;> simp
          rw [next_of_ended ended] at more
          have rest : (countIn first last (admitted rate length ⟨call, 0⟩ later) : K) ≤
              rate * (last - call) := admitted_le nonneg sorted (not_lt.mp late) first
          have shorter : rate * (last - call) ≤ rate * (last - first) :=
            mul_le_mul_of_nonneg_left
              (sub_le_sub_left (after call List.mem_cons_self).le _) nonneg
          linarith
        · have average : rate * (call - period.begins) ≤ rate * length :=
            mul_le_mul_of_nonneg_left (not_lt.mp ended) nonneg
          have judged := gain_within known average within
          rw [next_of_within ended] at more
          have rest : ((counted + period.gain rate call : ℕ) : K) +
              countIn first last (admitted rate length
                ⟨period.begins, period.count + period.gain rate call⟩ later) ≤
              rate * (last - first) + rate * length + 1 :=
            ih (Nat.add_le_add_right known _) (by simpa using judged) sorted'
              (fun time member => after time (List.mem_cons_of_mem _ member))
          rw [Nat.cast_add] at rest
          linarith

/-- The law of windows: the rate times their length, what one period may hold, and
the call that ends it. -/
theorem window_le (nonneg : 0 ≤ rate) (length_nonneg : 0 ≤ length) (period : Period K)
    {times : List K} (sorted : times.Pairwise (· ≤ ·)) {first last : K} (le : first ≤ last) :
    (countIn first last (admitted rate length period times) : K) ≤
      rate * (last - first) + rate * length + 1 := by
  have held : 0 ≤ rate * length := mul_nonneg nonneg length_nonneg
  induction times generalizing period with
  | nil =>
      have window : 0 ≤ rate * (last - first) := mul_nonneg nonneg (sub_nonneg.mpr le)
      simp only [admitted, countIn_nil, Nat.cast_zero]
      linarith
  | cons call later ih =>
      by_cases early : call ≤ first
      · rw [admitted_before early]
        exact ih _ (List.pairwise_cons.mp sorted).2
      · have after : ∀ time ∈ call :: later, first < time := by
          intro time member
          rcases List.mem_cons.mp member with rfl | member
          · exact not_le.mp early
          · exact (not_le.mp early).trans_le (List.rel_of_pairwise_cons sorted member)
        have bound := since_first nonneg (Nat.zero_le period.count) (by simpa using held) sorted
          after le
        rwa [Nat.cast_zero, zero_add] at bound

/-- Calls that are at least one unit of the rate apart are all admitted.  What the
period has counted never exceeds the rate up to the last call. -/
theorem admitted_of_spaced (positive : 0 < rate) {period : Period K} {now : K} {times : List K}
    (counted : (period.count : K) ≤ rate * (now - period.begins))
    (spaced : (now :: times).IsChain fun earlier later => earlier + 1 / rate ≤ later) :
    admitted rate length period times = times := by
  induction times generalizing period now with
  | nil => rfl
  | cons call later ih =>
      rcases List.isChain_cons_cons.mp spaced with ⟨apart, spaced'⟩
      have admits : period.Admits rate call := by
        unfold Admits
        calc (period.count : K) + 1 ≤ rate * (now - period.begins) + rate * (1 / rate) := by
              rw [mul_one_div_cancel positive.ne']
              linarith
          _ = rate * (now + 1 / rate - period.begins) := by ring
          _ ≤ rate * (call - period.begins) :=
              mul_le_mul_of_nonneg_left (sub_le_sub_right apart _) positive.le
      rw [admitted, if_pos admits]
      congr 1
      by_cases ended : length < call - period.begins
      · rw [next_of_ended ended]
        exact ih (by simp) spaced'
      · rw [next_of_within ended, gain, if_pos admits]
        exact ih (by rw [Nat.cast_add, Nat.cast_one]; exact admits) spaced'

end Period

end Foundation
end SwarmBridge
