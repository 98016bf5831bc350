import SwarmBridge.Foundation.TokenBucket
import Mathlib.Data.List.Infix
import Mathlib.Tactic.FieldSimp

namespace SwarmBridge
namespace Foundation

/-!
# When a token bucket can pay

Two questions about a bucket that is refilled at some points in time.  When does it
hold the tokens for one given cost?  There is a time from which on it does, and
refills before that time do not move it.  And which sequences of costs can it pay at
once?  Those that keep to a burst and a rate in every window of consecutive ones.
-/

variable {K : Type*} [Field K] [LinearOrder K]

namespace Bucket

/-! ## One cost -/

/-- The time from which on the tokens suffice for a cost. -/
def due (rate cost : K) (bucket : Bucket K) : K :=
  bucket.refilled + (cost - bucket.available) / rate

variable {rate capacity cost now : K} {bucket : Bucket K}

/-- A refill up to at least the cost suffices for it exactly from the due time on. -/
theorem le_refill_iff [IsStrictOrderedRing K] (positive : 0 < rate) (within : cost ≤ capacity) :
    cost ≤ (bucket.refill rate capacity now).available ↔ bucket.due rate cost ≤ now := by
  have uncut : cost ≤ (bucket.refill rate capacity now).available ↔
      cost ≤ bucket.available + (now - bucket.refilled) * rate :=
    ⟨fun enough => enough.trans (refill_available_le rate capacity now bucket),
      fun enough => le_min within enough⟩
  rw [uncut, due, ← le_sub_iff_add_le', div_le_iff₀ positive, sub_le_iff_le_add']

/-- A refill that does not suffice cuts nothing off, and does not move the due time. -/
theorem due_refill (positive : 0 < rate) (within : cost ≤ capacity)
    (short : (bucket.refill rate capacity now).available < cost) :
    (bucket.refill rate capacity now).due rate cost = bucket.due rate cost := by
  have uncut : (bucket.refill rate capacity now).available =
      bucket.available + (now - bucket.refilled) * rate := by
    rcases min_choice capacity (bucket.available + (now - bucket.refilled) * rate) with
      full | partly
    · exact absurd (within.trans full.ge) (not_le.mpr short)
    · exact partly
  have time : (bucket.refill rate capacity now).refilled = now := rfl
  rw [due, due, uncut, time]
  field_simp
  ring

/-! ## A sequence of costs -/

/-- The bucket can pay the first costs of the sequence, as far as its tokens go. -/
def Affords (rate : K) (arrivals : List (K × K)) (bucket : Bucket K) : Prop :=
  ∀ front, front <+: arrivals -> ∀ last ∈ front.getLast?,
    (front.map Prod.snd).sum ≤ bucket.available + rate * (last.1 - bucket.refilled)

end Bucket

/-- In every window of consecutive arrivals, the amounts keep to a burst and a rate. -/
def Conforming (rate burst : K) (arrivals : List (K × K)) : Prop :=
  ∀ window, window <:+: arrivals -> ∀ first ∈ window.head?, ∀ last ∈ window.getLast?,
    (window.map Prod.snd).sum ≤ burst + rate * (last.1 - first.1)

variable {rate burst : K} {bucket : Bucket K} {arrival : K × K} {later arrivals : List (K × K)}

theorem Conforming.tail (conforming : Conforming rate burst (arrival :: later)) :
    Conforming rate burst later :=
  fun window infix_ => conforming window (infix_.trans (List.suffix_cons arrival later).isInfix)

/-- No single amount exceeds the burst. -/
theorem Conforming.le_burst (conforming : Conforming rate burst arrivals)
    (member : arrival ∈ arrivals) : arrival.2 ≤ burst := by
  have alone := conforming [arrival] ((List.singleton_infix_iff _ _).mpr member) arrival rfl
    arrival rfl
  simpa using alone

namespace Bucket

/-- A full bucket affords arrivals that conform to its capacity. -/
theorem affords_full [IsStrictOrderedRing K] (nonneg : 0 ≤ rate) {start : K}
    (conforming : Conforming rate burst arrivals)
    (after : ∀ arrival ∈ arrivals, start ≤ arrival.1) :
    Affords rate arrivals ⟨burst, start⟩ := by
  intro front isPrefix last isLast
  cases front with
  | nil => cases isLast
  | cons first rest =>
      have window := conforming (first :: rest) isPrefix.isInfix first rfl last isLast
      have begun := after first (isPrefix.subset List.mem_cons_self)
      have grown : rate * (last.1 - first.1) ≤ rate * (last.1 - start) :=
        mul_le_mul_of_nonneg_left (sub_le_sub_left begun _) nonneg
      exact window.trans (add_le_add_right grown burst)

/-- An affordable first cost can be paid at once. -/
theorem Affords.pays (affords : Affords rate (arrival :: later) bucket)
    (conforming : Conforming rate burst (arrival :: later)) :
    arrival.2 ≤ (bucket.refill rate burst arrival.1).available := by
  have first := affords [arrival] ⟨later, rfl⟩ arrival rfl
  refine le_min (conforming.le_burst List.mem_cons_self) ?_
  simp only [List.map_cons, List.map_nil, List.sum_cons, List.sum_nil, add_zero] at first
  rwa [mul_comm rate] at first

/-- What is left then affords the later ones. -/
theorem Affords.next [IsStrictOrderedRing K] (affords : Affords rate (arrival :: later) bucket)
    (conforming : Conforming rate burst (arrival :: later)) :
    Affords rate later ((bucket.refill rate burst arrival.1).spend arrival.2) := by
  intro front isPrefix last isLast
  have longer : arrival :: front <+: arrival :: later := List.cons_prefix_cons.mpr ⟨rfl, isPrefix⟩
  have isLast' : last ∈ (arrival :: front).getLast? := by
    cases front with
    | nil => cases isLast
    | cons first rest => exact isLast
  have since := affords (arrival :: front) longer last isLast'
  have window := conforming (arrival :: front) longer.isInfix arrival rfl last isLast'
  rw [List.map_cons, List.sum_cons] at since window
  have filled : arrival.2 + (front.map Prod.snd).sum - rate * (last.1 - arrival.1) ≤
      (bucket.refill rate burst arrival.1).available := by
    refine le_min ?_ ?_
    · linarith
    · linarith
  have time : ((bucket.refill rate burst arrival.1).spend arrival.2).refilled = arrival.1 := rfl
  rw [spend_available, time]
  linarith

end Bucket

end Foundation
end SwarmBridge
