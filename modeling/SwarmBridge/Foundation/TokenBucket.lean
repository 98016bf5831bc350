import Mathlib.Algebra.Order.Field.Basic
import Mathlib.Algebra.BigOperators.Group.List.Basic
import Mathlib.Tactic.Linarith
import Mathlib.Tactic.Ring

namespace SwarmBridge
namespace Foundation

/-!
# Token buckets with a lazy refill

A bucket holds an amount of tokens and the time of its last refill.  A refill
adds `rate` tokens for each unit of time since the last one and cuts the result
to a capacity that may differ from refill to refill.  Nothing is refilled
between the two readings of the clock, so the amount is exact only at refills.

What is spent in a window of time is then bounded by the rate times its length,
plus what the bucket may hold when the window begins.
-/

/-- Tokens left after the last spending, and when they were last refilled. -/
structure Bucket (K : Type*) where
  available : K
  refilled : K
deriving DecidableEq

namespace Bucket

variable {K : Type*} [Field K]

/-- Take `cost` tokens out. -/
def spend (cost : K) (bucket : Bucket K) : Bucket K :=
  { bucket with available := bucket.available - cost }

@[simp] theorem spend_refilled (cost : K) (bucket : Bucket K) :
    (bucket.spend cost).refilled = bucket.refilled := rfl

@[simp] theorem spend_available (cost : K) (bucket : Bucket K) :
    (bucket.spend cost).available = bucket.available - cost := rfl

variable [LinearOrder K]

/-- Add the tokens of the elapsed time and cut to `capacity`. -/
def refill (rate capacity now : K) (bucket : Bucket K) : Bucket K where
  available := min capacity (bucket.available + (now - bucket.refilled) * rate)
  refilled := now

theorem refill_available_le (rate capacity now : K) (bucket : Bucket K) :
    (bucket.refill rate capacity now).available ≤
      bucket.available + (now - bucket.refilled) * rate :=
  min_le_right _ _

theorem refill_le_capacity (rate capacity now : K) (bucket : Bucket K) :
    (bucket.refill rate capacity now).available ≤ capacity :=
  min_le_left _ _

end Bucket

/-! ## Amounts in a window of time -/

section Totals

variable {K : Type*} [Field K] [LinearOrder K]

/-- The sum of the amounts whose time lies in the closed window. -/
def totalIn (first last : K) (history : List (K × K)) : K :=
  ((history.filter fun entry => decide (first ≤ entry.1 ∧ entry.1 ≤ last)).map Prod.snd).sum

@[simp] theorem totalIn_nil (first last : K) : totalIn first last [] = 0 := rfl

theorem totalIn_concat (first last : K) (history : List (K × K)) (time amount : K) :
    totalIn first last (history ++ [(time, amount)]) =
      totalIn first last history + if first ≤ time ∧ time ≤ last then amount else 0 := by
  unfold totalIn
  rw [List.filter_append, List.map_append, List.sum_append]
  split
  case isTrue inside => simp [inside]
  case isFalse outside => simp [outside]

/-- Nothing that happened before the window counts. -/
theorem totalIn_eq_zero {first : K} {history : List (K × K)}
    (before : ∀ entry ∈ history, entry.1 < first) (last : K) : totalIn first last history = 0 := by
  have none : history.filter (fun entry => decide (first ≤ entry.1 ∧ entry.1 ≤ last)) = [] := by
    apply List.filter_eq_nil_iff.mpr
    intro entry member
    have early := not_le.mpr (before entry member)
    simp [early]
  rw [totalIn, none]
  rfl

end Totals

namespace Bucket

variable {K : Type*} [Field K] [LinearOrder K] [IsStrictOrderedRing K]

/-! ## The bound from one point in time -/

/-- From the time `first` on, at most `bound` tokens are spent beyond the rate, and
what is left in the bucket has not been spent either. -/
structure Bounded (rate first bound : K) (bucket : Bucket K) (spent : List (K × K)) : Prop where
  since : first ≤ bucket.refilled
  saved : ∀ last, bucket.refilled ≤ last ->
    totalIn first last spent + bucket.available ≤ bound + rate * (bucket.refilled - first)
  window : ∀ last, first ≤ last -> totalIn first last spent ≤ bound + rate * (last - first)

namespace Bounded

variable {rate first bound : K} {bucket : Bucket K} {spent : List (K × K)}

/-- Counting begins at a time that nothing has been spent at or after. -/
theorem begin (nonneg : 0 ≤ rate) (bound_nonneg : 0 ≤ bound) (since : first ≤ bucket.refilled)
    (before : ∀ entry ∈ spent, entry.1 < first) (available : bucket.available ≤ bound) :
    Bounded rate first bound bucket spent where
  since := since
  saved := by
    intro last _
    have grown := mul_nonneg nonneg (sub_nonneg.mpr since)
    rw [totalIn_eq_zero before]
    linarith
  window := by
    intro last later
    have grown := mul_nonneg nonneg (sub_nonneg.mpr later)
    rw [totalIn_eq_zero before]
    linarith

theorem refill (bounded : Bounded rate first bound bucket spent) {now : K}
    (later : bucket.refilled ≤ now) (capacity : K) :
    Bounded rate first bound (bucket.refill rate capacity now) spent where
  since := bounded.since.trans later
  saved := by
    intro last after
    have before := bounded.saved last (later.trans after)
    have grown := refill_available_le rate capacity now bucket
    calc totalIn first last spent + (bucket.refill rate capacity now).available
        ≤ (totalIn first last spent + bucket.available) + (now - bucket.refilled) * rate := by
          linarith
      _ ≤ bound + rate * (bucket.refilled - first) + (now - bucket.refilled) * rate := by
          linarith
      _ = bound + rate * (now - first) := by ring
  window := bounded.window

theorem spend (bounded : Bounded rate first bound bucket spent) (nonneg : 0 ≤ rate) {cost : K}
    (enough : cost ≤ bucket.available) :
    Bounded rate first bound (bucket.spend cost) (spent ++ [(bucket.refilled, cost)]) where
  since := bounded.since
  saved := by
    intro last after
    have before := bounded.saved last after
    have inside : first ≤ bucket.refilled ∧ bucket.refilled ≤ last := ⟨bounded.since, after⟩
    rw [totalIn_concat, if_pos inside, spend_available, spend_refilled]
    linarith
  window := by
    intro last later
    rw [totalIn_concat]
    split
    case isTrue inside =>
      have before := bounded.saved last inside.2
      have grown : rate * (bucket.refilled - first) ≤ rate * (last - first) :=
        mul_le_mul_of_nonneg_left (sub_le_sub_right inside.2 first) nonneg
      linarith
    case isFalse =>
      rw [add_zero]
      exact bounded.window last later

end Bounded

/-! ## The law of a bucket -/

/-- A bucket that started full with `burst` tokens at the time `start` and is never
refilled above `limit`. -/
structure Metered (rate limit burst start : K) (bucket : Bucket K) (spent : List (K × K)) :
    Prop where
  nonneg : 0 ≤ bucket.available
  past : ∀ entry ∈ spent, entry.1 ≤ bucket.refilled
  fromStart : Bounded rate start burst bucket spent
  fromAny : ∀ first, first ≤ bucket.refilled -> Bounded rate first limit bucket spent

namespace Metered

variable {rate limit burst start : K} {bucket : Bucket K} {spent : List (K × K)}

theorem initial (nonneg : 0 ≤ rate) (burst_nonneg : 0 ≤ burst) (within : burst ≤ limit)
    (start : K) : Metered rate limit burst start ⟨burst, start⟩ [] where
  nonneg := burst_nonneg
  past := fun _ member => by cases member
  fromStart := .begin nonneg burst_nonneg le_rfl (fun _ member => by cases member) le_rfl
  fromAny := fun _ since =>
    .begin nonneg (burst_nonneg.trans within) since (fun _ member => by cases member) within

theorem refill (metered : Metered rate limit burst start bucket spent) (nonneg : 0 ≤ rate)
    {capacity now : K} (capacity_nonneg : 0 ≤ capacity) (within : capacity ≤ limit)
    (later : bucket.refilled ≤ now) :
    Metered rate limit burst start (bucket.refill rate capacity now) spent where
  nonneg := by
    apply le_min capacity_nonneg
    exact add_nonneg metered.nonneg (mul_nonneg (sub_nonneg.mpr later) nonneg)
  past := fun entry member => (metered.past entry member).trans later
  fromStart := metered.fromStart.refill later capacity
  fromAny := by
    intro first since
    by_cases known : first ≤ bucket.refilled
    · exact (metered.fromAny first known).refill later capacity
    · apply Bounded.begin nonneg (capacity_nonneg.trans within) since
      · exact fun entry member => (metered.past entry member).trans_lt (not_le.mp known)
      · exact (refill_le_capacity rate capacity now bucket).trans within

theorem spend (metered : Metered rate limit burst start bucket spent) (nonneg : 0 ≤ rate)
    {cost : K} (enough : cost ≤ bucket.available) :
    Metered rate limit burst start (bucket.spend cost)
      (spent ++ [(bucket.refilled, cost)]) where
  nonneg := sub_nonneg.mpr enough
  past := by
    intro entry member
    rcases List.mem_append.mp member with member | member
    · exact metered.past entry member
    · rw [List.mem_singleton.mp member, spend_refilled]
  fromStart := metered.fromStart.spend nonneg enough
  fromAny := fun first since => (metered.fromAny first since).spend nonneg enough

/-- What is spent in any window. -/
theorem window (metered : Metered rate limit burst start bucket spent) (nonneg : 0 ≤ rate)
    (limit_nonneg : 0 ≤ limit) {first last : K} (ordered : first ≤ last) :
    totalIn first last spent ≤ limit + rate * (last - first) := by
  by_cases known : first ≤ bucket.refilled
  · exact (metered.fromAny first known).window last ordered
  · have before : ∀ entry ∈ spent, entry.1 < first := fun entry member =>
      (metered.past entry member).trans_lt (not_le.mp known)
    rw [totalIn_eq_zero before]
    exact add_nonneg limit_nonneg (mul_nonneg nonneg (sub_nonneg.mpr ordered))

end Metered

end Bucket

/-! ## A stage that holds one item

Items enter the stage one at a time, and each of them leaves it later or is lost.
What leaves in a window has entered in the same window, except for one item. -/

section Stage

variable {K : Type*} [Field K] [LinearOrder K]

/-- The stage holds an item of size `held`, zero when it is empty. -/
structure OneAtATime (longest now held : K) (entered left : List (K × K)) : Prop where
  nonneg : 0 ≤ held
  short : held ≤ longest
  past : (∀ entry ∈ entered, entry.1 ≤ now) ∧ ∀ entry ∈ left, entry.1 ≤ now
  law : ∀ first last, totalIn first last left + (if now ≤ last then held else 0) ≤
    totalIn first last entered + longest

namespace OneAtATime

variable {longest now held : K} {entered left : List (K × K)}

theorem initial (nonneg : 0 ≤ longest) (now : K) : OneAtATime longest now 0 [] [] where
  nonneg := le_rfl
  short := nonneg
  past := ⟨fun _ member => (by cases member), fun _ member => by cases member⟩
  law := by
    intro first last
    simpa using nonneg

variable [IsStrictOrderedRing K]

theorem later (stage : OneAtATime longest now held entered left) {time : K} (le : now ≤ time) :
    OneAtATime longest time held entered left where
  nonneg := stage.nonneg
  short := stage.short
  past := ⟨fun entry member => (stage.past.1 entry member).trans le,
    fun entry member => (stage.past.2 entry member).trans le⟩
  law := by
    intro first last
    have before := stage.law first last
    by_cases inside : time ≤ last
    · rw [if_pos (le.trans inside)] at before
      rwa [if_pos inside]
    · rw [if_neg inside]
      have least : 0 ≤ if now ≤ last then held else 0 := by
        split
        · exact stage.nonneg
        · exact le_rfl
      linarith

/-- The item is lost. -/
theorem lose (stage : OneAtATime longest now held entered left) :
    OneAtATime longest now 0 entered left where
  nonneg := le_rfl
  short := stage.nonneg.trans stage.short
  past := stage.past
  law := by
    intro first last
    have before := stage.law first last
    have least : 0 ≤ if now ≤ last then held else 0 := by
      split
      · exact stage.nonneg
      · exact le_rfl
    simp only [ite_self, add_zero]
    linarith

/-- An item enters the empty stage. -/
theorem enter (stage : OneAtATime longest now 0 entered left) {size : K} (nonneg : 0 ≤ size)
    (short : size ≤ longest) :
    OneAtATime longest now size (entered ++ [(now, size)]) left where
  nonneg := nonneg
  short := short
  past := by
    refine ⟨fun entry member => ?_, stage.past.2⟩
    rcases List.mem_append.mp member with member | member
    · exact stage.past.1 entry member
    · rw [List.mem_singleton.mp member]
  law := by
    intro first last
    have before := stage.law first last
    simp only [ite_self, add_zero] at before
    rw [totalIn_concat]
    by_cases reached : now ≤ last
    · by_cases inside : first ≤ now
      · rw [if_pos reached, if_pos ⟨inside, reached⟩]
        linarith
      · have early : ∀ {history : List (K × K)}, (∀ entry ∈ history, entry.1 ≤ now) ->
            totalIn first last history = 0 := fun past =>
          totalIn_eq_zero (fun entry member => (past entry member).trans_lt (not_le.mp inside)) last
        rw [early stage.past.1, early stage.past.2, if_pos reached,
          if_neg (fun both => inside both.1)]
        linarith
    · rw [if_neg reached, if_neg (fun both => reached both.2)]
      linarith

/-- The item leaves. -/
theorem leave (stage : OneAtATime longest now held entered left) :
    OneAtATime longest now 0 entered (left ++ [(now, held)]) where
  nonneg := le_rfl
  short := stage.nonneg.trans stage.short
  past := by
    refine ⟨stage.past.1, fun entry member => ?_⟩
    rcases List.mem_append.mp member with member | member
    · exact stage.past.2 entry member
    · rw [List.mem_singleton.mp member]
  law := by
    intro first last
    have before := stage.law first last
    simp only [ite_self, add_zero]
    rw [totalIn_concat]
    by_cases reached : now ≤ last
    · rw [if_pos reached] at before
      split
      · exact before
      · have := stage.nonneg
        linarith
    · rw [if_neg (fun both => reached both.2)]
      rw [if_neg reached] at before
      exact before

/-- What leaves in a window. -/
theorem window (stage : OneAtATime longest now held entered left) (first last : K) :
    totalIn first last left ≤ totalIn first last entered + longest := by
  have law := stage.lose.law first last
  simpa only [ite_self, add_zero] using law

end OneAtATime

end Stage

end Foundation
end SwarmBridge
