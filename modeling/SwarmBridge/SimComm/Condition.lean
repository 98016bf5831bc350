import SwarmBridge.SimComm.Runs
import Mathlib.Data.Finset.Insert
import Mathlib.Data.Finset.Erase

namespace SwarmBridge

open Foundation

/-!
# The node with its condition variable

In `bridgeNode` a thread whose wait predicate fails is a thread that the schedule
does not run.  Here the threads that sleep on `node_fault_condition` are part of
the state: a thread whose predicate fails goes to sleep, `notify_one` wakes one
sleeper of the schedule's choice, `notify_all` wakes all of them, and a sleeper may
also wake up by itself, at a time-out or for no reason.  A thread that wakes up
evaluates its predicate again.  Every run is one of `bridgeNode` with pauses.
-/

/-- The node and the threads that sleep on `node_fault_condition`. -/
structure ConditionState where
  node : NodeState
  waiting : Finset Thread

namespace Pc

variable {thread : Thread}

/-- The thread is at one of the waits on `node_fault_condition`. -/
def atWait : {thread : Thread} -> Pc thread -> Bool
  | _, .check _ => true
  | _, .waitFault => true
  | _, .waitDeadline => true
  | _, _ => false

/-- The thread is about to call `notify_one`. -/
def atNotifyOne : {thread : Thread} -> Pc thread -> Bool
  | _, .notifyOne _ => true
  | _, _ => false

/-- The next step of the thread calls `notify_all`: after the mutex is released, or
for the monitor when it clears `node_fault_recovering`. -/
def atNotifyAll : {thread : Thread} -> Pc thread -> Bool
  | _, .notifyAll _ => true
  | _, .stopNotify => true
  | _, .flushing .loop (.replay _ []) => true
  | _, _ => false

end Pc

/-- The wait predicate of the thread fails. -/
def NodeState.mustWait (s : NodeState) (thread : Thread) : Bool :=
  match s.pc thread with
  | .check _ => s.nodeFaultRecovering
  | .waitFault => s.nodeFaultThreadRunning && !s.nodeFaultActive
  | .waitDeadline => s.nodeFaultThreadRunning && decide (s.now < s.nodeFaultUntil)
  | _ => false

/-- The choices of a schedule. -/
inductive ConditionAction
  /-- A step of the node that neither waits nor calls `notify_one`. -/
  | node (action : Action)
  /-- A thread finds its wait predicate false and goes to sleep. -/
  | wait (thread : Thread)
  /-- A thread calls `notify_one`, which wakes this thread, or nobody. -/
  | notifyOne (starter : Thread) (woken : Option Thread)
  /-- A sleeping thread wakes up by itself. -/
  | wake (thread : Thread)
deriving DecidableEq

namespace ConditionState

variable (cfg : BridgeConfig) (c : ConditionState)

/-- The action is a step of an awake thread that does not call `notify_one`, or a
step that no thread of the node takes. -/
def runnable : Action -> Bool
  | .run thread => decide (thread ∉ c.waiting) && !(c.node.pc thread).atNotifyOne
  | _ => true

/-- The action calls `notify_all`. -/
def notifiesAll : Action -> Bool
  | .run thread => (c.node.pc thread).atNotifyAll
  | _ => false

/-- A step of the node; `notify_all` empties the set of sleepers. -/
def nodeAction (action : Action) : Option ConditionState :=
  if c.runnable action then
    (nodeStep cfg c.node action).map fun node =>
      ⟨node, if c.notifiesAll action then ∅ else c.waiting⟩
  else none

/-- `notify_one` wakes a sleeper if there is one. -/
def notifyOne (starter : Thread) (woken : Option Thread) : Option ConditionState :=
  if (c.node.pc starter).atNotifyOne then
    match woken with
    | none =>
        if c.waiting = ∅ then
          (nodeStep cfg c.node (.run starter)).map fun node => ⟨node, ∅⟩
        else none
    | some thread =>
        if thread ∈ c.waiting then
          (nodeStep cfg c.node (.run starter)).map fun node => ⟨node, c.waiting.erase thread⟩
        else none
  else none

end ConditionState

/-- One step of the node with its condition variable. -/
def conditionStep (cfg : BridgeConfig) (c : ConditionState) :
    ConditionAction -> Option ConditionState
  | .node action => c.nodeAction cfg action
  | .wait thread =>
      if thread ∉ c.waiting ∧ c.node.mustWait thread = true then
        some { c with waiting := insert thread c.waiting }
      else none
  | .notifyOne starter woken => c.notifyOne cfg starter woken
  | .wake thread =>
      if thread ∈ c.waiting then some { c with waiting := c.waiting.erase thread } else none

/-- The node with its condition variable. -/
def conditionNode (cfg : BridgeConfig) : Machine ConditionState ConditionAction where
  init := fun c => (bridgeNode cfg).init c.node ∧ c.waiting = ∅
  step := conditionStep cfg

/-- The outcomes of a step: the node moves, a thread goes to sleep, or one wakes up. -/
inductive ConditionStep (cfg : BridgeConfig) (c : ConditionState) :
    ConditionAction -> ConditionState -> Prop
  | moved {action : Action} {t : NodeState} (runnable : c.runnable action = true)
      (quiet : c.notifiesAll action = false) (step : nodeStep cfg c.node action = some t) :
      ConditionStep cfg c (.node action) ⟨t, c.waiting⟩
  | notifiedAll {thread : Thread} {t : NodeState}
      (at_notify : (c.node.pc thread).atNotifyAll = true)
      (step : nodeStep cfg c.node (.run thread) = some t) :
      ConditionStep cfg c (.node (.run thread)) ⟨t, ∅⟩
  | notifiedNobody {starter : Thread} {t : NodeState} (nobody : c.waiting = ∅)
      (at_notify : (c.node.pc starter).atNotifyOne = true)
      (step : nodeStep cfg c.node (.run starter) = some t) :
      ConditionStep cfg c (.notifyOne starter none) ⟨t, ∅⟩
  | notifiedOne {starter woken : Thread} {t : NodeState} (asleep : woken ∈ c.waiting)
      (at_notify : (c.node.pc starter).atNotifyOne = true)
      (step : nodeStep cfg c.node (.run starter) = some t) :
      ConditionStep cfg c (.notifyOne starter (some woken)) ⟨t, c.waiting.erase woken⟩
  | slept {thread : Thread} (awake : thread ∉ c.waiting) (must : c.node.mustWait thread = true) :
      ConditionStep cfg c (.wait thread) ⟨c.node, insert thread c.waiting⟩
  | woke {thread : Thread} (asleep : thread ∈ c.waiting) :
      ConditionStep cfg c (.wake thread) ⟨c.node, c.waiting.erase thread⟩

theorem conditionStep_cases {cfg : BridgeConfig} {c d : ConditionState} {action : ConditionAction}
    (stepped : conditionStep cfg c action = some d) : ConditionStep cfg c action d := by
  cases action with
  | node action =>
      simp only [conditionStep, ConditionState.nodeAction] at stepped
      split_ifs at stepped with runnable notifies
      · rcases Option.map_eq_some_iff.mp stepped with ⟨t, moved, rfl⟩
        cases action with
        | run thread => exact .notifiedAll notifies moved
        | _ => cases notifies
      · rcases Option.map_eq_some_iff.mp stepped with ⟨t, moved, rfl⟩
        exact .moved runnable (Bool.eq_false_iff.mpr notifies) moved
  | wait thread =>
      simp only [conditionStep] at stepped
      split_ifs at stepped with guard
      cases stepped
      exact .slept guard.1 guard.2
  | notifyOne starter woken =>
      simp only [conditionStep, ConditionState.notifyOne] at stepped
      by_cases at_notify : (c.node.pc starter).atNotifyOne = true
      · rw [if_pos at_notify] at stepped
        cases woken with
        | none =>
            dsimp only at stepped
            split_ifs at stepped with nobody
            rcases Option.map_eq_some_iff.mp stepped with ⟨t, moved, rfl⟩
            exact .notifiedNobody nobody at_notify moved
        | some thread =>
            dsimp only at stepped
            split_ifs at stepped with asleep
            rcases Option.map_eq_some_iff.mp stepped with ⟨t, moved, rfl⟩
            exact .notifiedOne asleep at_notify moved
      · rw [if_neg at_notify] at stepped
        cases stepped
  | wake thread =>
      simp only [conditionStep] at stepped
      split_ifs at stepped with asleep
      cases stepped
      exact .woke asleep

/-- A step moves the node, or only its set of sleepers. -/
theorem ConditionStep.node {cfg : BridgeConfig} {c d : ConditionState} {action : ConditionAction}
    (step : ConditionStep cfg c action d) :
    d.node = c.node ∨ ∃ moves, nodeStep cfg c.node moves = some d.node := by
  cases step with
  | moved _ _ step => exact .inr ⟨_, step⟩
  | notifiedAll _ step => exact .inr ⟨_, step⟩
  | notifiedNobody _ _ step => exact .inr ⟨_, step⟩
  | notifiedOne _ _ step => exact .inr ⟨_, step⟩
  | slept => exact .inl rfl
  | woke => exact .inl rfl

/-- Every run of the node with its condition variable is one of the node. -/
theorem conditionNode_refines {cfg : BridgeConfig} {c : ConditionState}
    (run : (conditionNode cfg).Reachable c) : (bridgeNode cfg).Reachable c.node := by
  refine run.invariant (P := fun c => (bridgeNode cfg).Reachable c.node) ?_ ?_
  · exact fun c started => ⟨c.node, started.1, .refl⟩
  · intro c action d _ reached _ stepped
    rcases (conditionStep_cases stepped).node with same | ⟨moves, moved⟩
    · rwa [same]
    · exact reached.next trivial moved

end SwarmBridge
