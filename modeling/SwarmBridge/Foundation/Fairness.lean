import SwarmBridge.Foundation.Machine
import Mathlib.Order.Nat
import Mathlib.Order.RelClasses

namespace SwarmBridge
namespace Foundation

/-!
# Fair infinite runs

A finite run shows what a machine never does.  What it does in the end is a law of
its infinite runs, and it needs a scheduler that does not pass over an action for
ever while the action is enabled.  Fairness is a property of a run here, never
part of the step function, so that a safety law holds with or without it.

A progress law speaks about the positions of one run: from a position where `P`
holds the run comes to a position where `Q` holds.
-/

namespace Machine

variable {State Action : Type*}

/-- An infinite run from `origin` by steps that all meet `allow`. -/
structure Trace (M : Machine State Action) (allow : State -> Action -> Prop) (origin : State) where
  state : ℕ -> State
  action : ℕ -> Action
  begins : state 0 = origin
  allowed : ∀ n, allow (state n) (action n)
  steps : ∀ n, M.step (state n) (action n) = some (state (n + 1))

variable {M : Machine State Action} {allow : State -> Action -> Prop} {origin next : State}
  {action : Action}

namespace Trace

theorem path (trace : M.Trace allow origin) (n : ℕ) : M.Path allow origin (trace.state n) := by
  induction n with
  | zero =>
      rw [trace.begins]
      exact .refl
  | succ n ih => exact ih.tail (trace.allowed n) (trace.steps n)

/-- The action is taken, or found disabled, again and again. -/
def Fair (trace : M.Trace allow origin) (action : Action) : Prop :=
  ∀ n, ∃ m, n ≤ m ∧ (trace.action m = action ∨ M.step (trace.state m) action = none)

/-- An action that is enabled again and again is taken again and again. -/
def StrongFair (trace : M.Trace allow origin) (action : Action) : Prop :=
  (∀ n, ∃ m, n ≤ m ∧ M.step (trace.state m) action ≠ none) ->
    ∀ n, ∃ m, n ≤ m ∧ trace.action m = action

/-! ## Progress -/

section Progress

variable {trace : M.Trace allow origin} {P Q : ℕ -> Prop} {start : ℕ}

/-- What every step keeps until `Q` holds is kept, or `Q` is reached. -/
theorem stays_or_leaves (keep : ∀ n, P n -> P (n + 1) ∨ Q n) (begins : P start) {later : ℕ}
    (after : start ≤ later) : P later ∨ ∃ m, start ≤ m ∧ Q m := by
  induction later, after using Nat.le_induction with
  | base => exact .inl begins
  | succ n after ih =>
      rcases ih with stays | leaves
      · rcases keep n stays with kept | goal
        · exact .inl kept
        · exact .inr ⟨n, after, goal⟩
      · exact .inr leaves

/-- A fair action that stays enabled is taken, with the rank no higher by then. -/
theorem taken_or_leaves (fair : trace.Fair action) (rank : ℕ -> ℕ)
    (enabled : ∀ n, P n -> M.step (trace.state n) action ≠ none)
    (keep : ∀ n, P n -> (P (n + 1) ∧ rank (n + 1) ≤ rank n) ∨ Q n) (begins : P start) :
    (∃ m, start ≤ m ∧ (P m ∧ rank m ≤ rank start) ∧ trace.action m = action) ∨
      ∃ m, start ≤ m ∧ Q m := by
  have kept : ∀ n, P n ∧ rank n ≤ rank start -> (P (n + 1) ∧ rank (n + 1) ≤ rank start) ∨ Q n := by
    intro n now
    apply (keep n now.1).imp_left
    exact fun after => ⟨after.1, after.2.trans now.2⟩
  rcases fair start with ⟨m, after, turn⟩
  rcases stays_or_leaves kept ⟨begins, le_rfl⟩ after with stays | leaves
  · rcases turn with taken | disabled
    · exact .inl ⟨m, after, stays, taken⟩
    · exact absurd disabled (enabled m stays.1)
  · exact .inr leaves

/-- The rule of fair progress: an action that stays enabled brings a rank down, and
no other step brings the rank up. -/
theorem leads_to_of_rank (fair : trace.Fair action) (rank : ℕ -> ℕ)
    (enabled : ∀ n, P n -> M.step (trace.state n) action ≠ none)
    (keep : ∀ n, P n -> (P (n + 1) ∧ rank (n + 1) ≤ rank n) ∨ Q n)
    (helps : ∀ n, P n -> trace.action n = action ->
      (P (n + 1) ∧ rank (n + 1) < rank n) ∨ Q n)
    (begins : P start) : ∃ m, start ≤ m ∧ Q m := by
  -- the rank bounds how often the action can still be taken before `Q` holds
  induction bound : rank start using Nat.strong_induction_on generalizing start with
  | _ bound ih =>
      rcases taken_or_leaves fair rank enabled keep begins with ⟨m, after, now, taken⟩ | leaves
      · rcases helps m now.1 taken with lower | goal
        · rcases ih (rank (m + 1)) (by omega) lower.1 rfl with ⟨k, later, goal⟩
          exact ⟨k, by omega, goal⟩
        · exact ⟨m, after, goal⟩
      · exact leaves

/-- An action that stays enabled and brings `Q` about at once. -/
theorem leads_to (fair : trace.Fair action)
    (enabled : ∀ n, P n -> M.step (trace.state n) action ≠ none)
    (keep : ∀ n, P n -> P (n + 1) ∨ Q n)
    (helps : ∀ n, P n -> trace.action n = action -> Q n) (begins : P start) :
    ∃ m, start ≤ m ∧ Q m := by
  apply leads_to_of_rank fair (fun _ => 0) enabled _ _ begins
  · exact fun n now => (keep n now).imp_left fun kept => ⟨kept, le_rfl⟩
  · exact fun n now taken => .inr (helps n now taken)

/-- A strongly fair action that is enabled again and again as long as `P` holds is taken while it
holds, if nothing else ends it. -/
theorem StrongFair.taken (strong : trace.StrongFair action)
    (again : ∀ n, start ≤ n -> ∃ m, n ≤ m ∧ (P m -> M.step (trace.state m) action ≠ none))
    (keep : ∀ n, start ≤ n -> P n -> trace.action n ≠ action -> P (n + 1)) (begins : P start) :
    ∃ m, start ≤ m ∧ P m ∧ trace.action m = action := by
  by_contra never
  have stays : ∀ m, start ≤ m -> P m := by
    intro m after
    induction m, after using Nat.le_induction with
    | base => exact begins
    | succ m after ih => exact keep m after ih fun taken => never ⟨m, after, ih, taken⟩
  have enabled : ∀ n, ∃ m, n ≤ m ∧ M.step (trace.state m) action ≠ none := by
    intro n
    rcases again (max n start) (le_max_right n start) with ⟨m, after, enabled⟩
    exact ⟨m, (le_max_left n start).trans after,
      enabled (stays m ((le_max_right n start).trans after))⟩
  rcases strong enabled start with ⟨m, after, taken⟩
  exact never ⟨m, after, stays m after, taken⟩

/-- Progress by stages, each with an action of its own: every position is followed by
one of a lower rank, or by one where `Q` holds. -/
theorem leads_to_of_descent {α : Type*} [Preorder α] [WellFoundedLT α] (rank : ℕ -> α)
    (drops : ∀ n, P n -> ∃ m, n ≤ m ∧ ((P m ∧ rank m < rank n) ∨ Q m)) (begins : P start) :
    ∃ m, start ≤ m ∧ Q m := by
  induction bound : rank start using WellFoundedLT.induction generalizing start with
  | _ bound ih =>
      rcases drops start begins with ⟨m, after, lower | goal⟩
      · rcases ih (rank m) (bound ▸ lower.2) lower.1 rfl with ⟨k, later, goal⟩
        exact ⟨k, after.trans later, goal⟩
      · exact ⟨m, after, goal⟩

end Progress

/-! ## A run with a finite beginning -/

/-- One step, and then a run from its result. -/
def cons (allowed : allow origin action) (stepped : M.step origin action = some next)
    (trace : M.Trace allow next) : M.Trace allow origin where
  state
    | 0 => origin
    | n + 1 => trace.state n
  action
    | 0 => action
    | n + 1 => trace.action n
  begins := rfl
  allowed
    | 0 => allowed
    | n + 1 => trace.allowed n
  steps
    | 0 => stepped.trans (congrArg some trace.begins.symm)
    | n + 1 => trace.steps n

theorem Fair.cons {trace : M.Trace allow next} {fairly : Action} (fair : trace.Fair fairly)
    (allowed : allow origin action) (stepped : M.step origin action = some next) :
    (trace.cons allowed stepped).Fair fairly := by
  intro n
  rcases fair n with ⟨m, after, turn⟩
  exact ⟨m + 1, by omega, turn⟩

end Trace

/-- A path extends a run from its end to a run from its origin, which is fair to the
same actions and ends in the same states. -/
theorem Path.extend {state : State} (path : M.Path allow origin state)
    (trace : M.Trace allow state) : ∃ extended : M.Trace allow origin,
      (∀ action, trace.Fair action -> extended.Fair action) ∧
        ∃ shift, ∀ n, extended.state (n + shift) = trace.state n := by
  induction path with
  | refl => exact ⟨trace, fun _ fair => fair, 0, fun _ => rfl⟩
  | tail _ allowed stepped ih =>
      rcases ih (trace.cons allowed stepped) with ⟨extended, fair, shift, same⟩
      refine ⟨extended, fun action fairly => fair action (fairly.cons allowed stepped),
        shift + 1, fun n => ?_⟩
      rw [show n + (shift + 1) = n + 1 + shift by omega, same]
      rfl

end Machine

end Foundation
end SwarmBridge
