import Mathlib.Algebra.Order.Field.Basic
import Mathlib.Algebra.BigOperators.Group.List.Basic
import Mathlib.Algebra.Order.BigOperators.Group.List
import Mathlib.Tactic.Linarith

namespace SwarmBridge
namespace Foundation

/-!
# Items with pauses between them

A loop that pauses before every item except the first one makes one pause less than
it has items.  When the pauses are so short that as many of them as there are items
fill a given time, the loop takes the share `(n - 1) / n` of this time.  Loops that run
one after the other fit into the time together only when hardly any of them pauses.
-/

variable {α K : Type*}

/-- What a paced loop does. -/
inductive Paced (α K : Type*)
  | pause (length : K)
  | item (value : α)
deriving DecidableEq, Repr

namespace Paced

def pause? : Paced α K -> Option K
  | .pause length => some length
  | .item _ => none

def item? : Paced α K -> Option α
  | .pause _ => none
  | .item value => some value

end Paced

/-- Handle one item after the other, with a pause before each of them; the flag says
that there is none before the next one. -/
def paced (length : K) : Bool -> List α -> List (Paced α K)
  | _, [] => []
  | isFirst, value :: rest =>
      (if isFirst then [] else [.pause length]) ++ .item value :: paced length false rest

theorem items_paced (length : K) (isFirst : Bool) (items : List α) :
    (paced length isFirst items).filterMap Paced.item? = items := by
  induction items generalizing isFirst with
  | nil => rfl
  | cons value rest ih =>
      cases isFirst with
      | false => exact congrArg (List.cons value) (ih false)
      | true => exact congrArg (List.cons value) (ih false)

theorem pauses_paced_later (length : K) (items : List α) :
    (paced length false items).filterMap Paced.pause? = List.replicate items.length length := by
  induction items with
  | nil => rfl
  | cons value rest ih => exact congrArg (List.cons length) ih

/-- One pause less than items. -/
theorem pauses_paced (length : K) (items : List α) :
    (paced length true items).filterMap Paced.pause? =
      List.replicate (items.length - 1) length := by
  cases items with
  | nil => rfl
  | cons value rest => exact pauses_paced_later length rest

/-! ## Shares of a common time -/

section Share

variable [Field K]

/-- The part of a time that a loop takes which divides it by its number of items. -/
def share (K : Type*) [Field K] (count : ℕ) : K := ((count - 1 : ℕ) : K) / (count : K)

theorem share_of_le_one {count : ℕ} (few : count ≤ 1) : share K count = 0 := by
  rw [share, Nat.sub_eq_zero_of_le few, Nat.cast_zero, zero_div]

/-- Loops with at most one item take no part of the time. -/
theorem sum_share_eq (counts : List ℕ) :
    (counts.map (share K)).sum = ((counts.filter (1 < ·)).map (share K)).sum := by
  induction counts with
  | nil => rfl
  | cons count rest ih =>
      rw [List.map_cons, List.sum_cons, ih, List.filter_cons]
      split_ifs with several
      · rw [List.map_cons, List.sum_cons]
      · rw [share_of_le_one (by simpa using several), zero_add]

variable [LinearOrder K] [IsStrictOrderedRing K]

theorem share_eq {count : ℕ} (several : 1 < count) : share K count = 1 - 1 / (count : K) := by
  have nonzero : (count : K) ≠ 0 := Nat.cast_ne_zero.mpr (by omega)
  rw [share, Nat.cast_sub several.le, Nat.cast_one, sub_div, div_self nonzero]

theorem share_nonneg (count : ℕ) : 0 ≤ share K count :=
  div_nonneg (Nat.cast_nonneg _) (Nat.cast_nonneg _)

theorem share_lt_one {count : ℕ} (several : 1 < count) : share K count < 1 := by
  have positive : (0 : K) < count := Nat.cast_pos.mpr (by omega)
  rw [share_eq several]
  linarith [div_pos one_pos positive]

theorem half_le_share {count : ℕ} (several : 1 < count) : 1 / 2 ≤ share K count := by
  have two : (2 : K) ≤ count := by exact_mod_cast several
  have half := one_div_le_one_div_of_le two_pos two
  rw [share_eq several]
  linarith

/-- Two loops that pause fit in together only with two items each. -/
theorem share_add_le_one_iff {first second : ℕ} (severalFirst : 1 < first)
    (severalSecond : 1 < second) :
    share K first + share K second ≤ 1 ↔ first = 2 ∧ second = 2 := by
  constructor
  · intro fits
    have third : ∀ {count : ℕ}, 2 < count -> 2 / 3 ≤ share K count := by
      intro count more
      have three : (3 : K) ≤ count := by exact_mod_cast more
      have part := one_div_le_one_div_of_le three_pos three
      rw [share_eq (by omega)]
      linarith
    have lowFirst : 1 / 2 ≤ share K first := half_le_share severalFirst
    have lowSecond : 1 / 2 ≤ share K second := half_le_share severalSecond
    constructor
    · by_contra different
      have large : (2 : K) / 3 ≤ share K first := third (by omega)
      linarith
    · by_contra different
      have large : (2 : K) / 3 ≤ share K second := third (by omega)
      linarith
  · rintro ⟨rfl, rfl⟩
    rw [share_eq severalFirst]
    norm_num

/-- The shares fit into the time together exactly when at most one loop pauses, or two
loops with two items each. -/
theorem sum_share_le_one_iff (counts : List ℕ) :
    (counts.map (share K)).sum ≤ 1 ↔
      (counts.filter (1 < ·)).length ≤ 1 ∨ counts.filter (1 < ·) = [2, 2] := by
  rw [sum_share_eq]
  have several : ∀ count ∈ counts.filter (1 < ·), 1 < count := fun count member => by
    simpa using List.of_mem_filter member
  generalize counts.filter (1 < ·) = paused at several
  match paused with
  | [] => simp
  | [count] =>
      have below : share K count ≤ 1 := (share_lt_one (several count (by simp))).le
      simpa using below
  | [first, second] =>
      have pair : share K first + share K second ≤ 1 ↔ first = 2 ∧ second = 2 :=
        share_add_le_one_iff (several first (by simp)) (several second (by simp))
      simpa using pair
  | first :: second :: third :: rest =>
      refine iff_of_false (not_le.mpr ?_) (by simp)
      have one : 1 / 2 ≤ share K first := half_le_share (several first (by simp))
      have two : 1 / 2 ≤ share K second := half_le_share (several second (by simp))
      have three : 1 / 2 ≤ share K third := half_le_share (several third (by simp))
      have others : 0 ≤ (rest.map (share K)).sum := by
        refine List.sum_nonneg fun part member => ?_
        rcases List.mem_map.mp member with ⟨count, -, rfl⟩
        exact share_nonneg count
      simp only [List.map_cons, List.sum_cons]
      linarith

end Share

end Foundation
end SwarmBridge
