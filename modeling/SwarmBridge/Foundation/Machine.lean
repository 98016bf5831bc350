import Mathlib.Logic.Relation

namespace SwarmBridge
namespace Foundation

/-!
# Guarded machines and their runs

A machine is a set of initial states together with an executable partial step
function: `step s a = some t` when action `a` is enabled in `s`.  The same
function is replayed on concrete schedules and reasoned about on arbitrary
ones, so a guard used in a proof cannot drift from the guard that is run.

A run is restricted by a condition on its steps, a property of the state
*before* a step and of the action taken there.  Unrestricted reachability is the
restriction by the condition that always holds.  Every invariant below is proved
once per step and lifted by the induction rules of this file.
-/

/-- Initial states and a guarded, executable step. -/
structure Machine (State Action : Type*) where
  init : State -> Prop
  step : State -> Action -> Option State

namespace Machine

variable {State Action : Type*} (M : Machine State Action)

/-- States reached from `origin` by steps that all meet the condition `allow`. -/
inductive Path (allow : State -> Action -> Prop) (origin : State) : State -> Prop
  | refl : Path allow origin origin
  | tail {before after : State} {action : Action} :
      Path allow origin before -> allow before action ->
      M.step before action = some after -> Path allow origin after

/-- States reached from an initial state by steps that all meet `allow`. -/
def Reaches (allow : State -> Action -> Prop) (state : State) : Prop :=
  ∃ origin, M.init origin ∧ M.Path allow origin state

/-- Reachability without a restriction on the steps. -/
abbrev Reachable (state : State) : Prop :=
  M.Reaches (fun _ _ => True) state

variable {M} {allow weaker : State -> Action -> Prop}

theorem Path.mono {origin state : State} (path : M.Path allow origin state)
    (imp : ∀ s a, allow s a -> weaker s a) : M.Path weaker origin state := by
  induction path with
  | refl => exact .refl
  | tail _ allowed stepped ih => exact .tail ih (imp _ _ allowed) stepped

/-- A property of the origin that every allowed step keeps holds along the path. -/
theorem Path.invariant {origin state : State} (path : M.Path allow origin state)
    {P : State -> Prop} (start : P origin)
    (keep : ∀ s a t, P s -> allow s a -> M.step s a = some t -> P t) : P state := by
  induction path with
  | refl => exact start
  | tail _ allowed stepped ih => exact keep _ _ _ ih allowed stepped

theorem Path.trans {origin middle state : State} (first : M.Path allow origin middle)
    (second : M.Path allow middle state) : M.Path allow origin state := by
  induction second with
  | refl => exact first
  | tail _ allowed stepped ih => exact .tail ih allowed stepped

theorem Reaches.mono {state : State} (run : M.Reaches allow state)
    (imp : ∀ s a, allow s a -> weaker s a) : M.Reaches weaker state := by
  rcases run with ⟨origin, initial, path⟩
  exact ⟨origin, initial, path.mono imp⟩

theorem Reaches.reachable {state : State} (run : M.Reaches allow state) : M.Reachable state :=
  run.mono (fun _ _ _ => trivial)

theorem Reaches.next {before after : State} {action : Action} (run : M.Reaches allow before)
    (allowed : allow before action) (stepped : M.step before action = some after) :
    M.Reaches allow after := by
  rcases run with ⟨origin, initial, path⟩
  exact ⟨origin, initial, path.tail allowed stepped⟩

/-- The invariant rule.  The step obligation may use that the state before the
step is itself reached, so earlier invariants are available to later ones. -/
theorem Reaches.invariant {state : State} (run : M.Reaches allow state) {P : State -> Prop}
    (start : ∀ s, M.init s -> P s)
    (keep : ∀ s a t, M.Reaches allow s -> P s -> allow s a -> M.step s a = some t ->
      P t) : P state := by
  rcases run with ⟨origin, initial, path⟩
  have both : M.Reaches allow state ∧ P state := by
    refine path.invariant (P := fun s => M.Reaches allow s ∧ P s)
      ⟨⟨origin, initial, .refl⟩, start _ initial⟩ ?_
    rintro s a t ⟨reached, holds⟩ allowed stepped
    exact ⟨reached.next allowed stepped, keep s a t reached holds allowed stepped⟩
  exact both.2

/-! ## Restricting a run further

A condition on steps that an invariant guarantees may be added to the condition
of a run for free.  This is how a mechanism of the program (here: one side of a
handshake) discharges the condition under which another property is proved. -/

theorem Reaches.strengthen {state : State} (run : M.Reaches allow state)
    (guaranteed : ∀ s a t, M.Reaches weaker s -> allow s a -> M.step s a = some t ->
      weaker s a) : M.Reaches weaker state := by
  rcases run with ⟨origin, initial, path⟩
  induction path with
  | refl => exact ⟨origin, initial, .refl⟩
  | tail _ allowed stepped ih => exact ih.next (guaranteed _ _ _ ih allowed stepped) stepped

/-! ## Concrete schedules -/

variable (M allow) [∀ state action, Decidable (allow state action)]

/-- Execute a schedule; `none` when an action is disabled or not allowed. -/
def exec : State -> List Action -> Option State
  | state, [] => some state
  | state, action :: rest =>
      if allow state action then
        match M.step state action with
        | some next => exec next rest
        | none => none
      else none

variable {M allow}

theorem path_of_exec {origin state : State} {schedule : List Action}
    (executed : M.exec allow origin schedule = some state) : M.Path allow origin state := by
  suffices general : ∀ middle, M.Path allow origin middle ->
      M.exec allow middle schedule = some state -> M.Path allow origin state from
    general origin .refl executed
  clear executed
  induction schedule with
  | nil =>
      intro middle path executed
      simp only [exec, Option.some.injEq] at executed
      exact executed ▸ path
  | cons action rest ih =>
      intro middle path executed
      simp only [exec] at executed
      split at executed
      case isTrue allowed =>
        split at executed
        case h_1 next stepped => exact ih next (path.tail allowed stepped) executed
        case h_2 => cases executed
      case isFalse => cases executed

theorem reaches_of_exec {origin state : State} {schedule : List Action} (initial : M.init origin)
    (executed : M.exec allow origin schedule = some state) : M.Reaches allow state :=
  ⟨origin, initial, path_of_exec executed⟩

/-- What a successful schedule ends in, read through a computable observation. -/
theorem exists_reaches_of_exec {origin : State} {schedule : List Action} {β : Type*}
    (observe : State -> β) {value : β} (initial : M.init origin)
    (executed : (M.exec allow origin schedule).map observe = some value) :
    ∃ state, M.Reaches allow state ∧ observe state = value := by
  cases result : M.exec allow origin schedule with
  | none => simp [result] at executed
  | some state =>
      simp only [result, Option.map_some, Option.some.injEq] at executed
      exact ⟨state, reaches_of_exec initial result, executed⟩

end Machine

end Foundation
end SwarmBridge
