import SwarmBridge.SimComm.Runs

namespace SwarmBridge

open Foundation

/-!
# The node with the condition variables of its queues, and its shutdown

In `bridgeNode` a worker without a message is one that the schedule does not run, and
`main` ends with `stop_node_fault_control`.  Here the sleeping workers are part of the
state.  A worker sleeps without a limit on an empty queue, and with one when it is short
of tokens; `enqueue_send_message` releases the mutex of the queue before it calls
`notify_one`, so other threads run between the two.  After `stop_node_fault_control`
`main` goes through the send topics: for a limited one it clears the flag of the worker
under the mutex of its queue, calls `notify_one`, and joins the worker; then it closes the
socket of the topic.  A thread that is still in a replay may send on a closed socket: it
gets an exception that nobody catches, and the process ends.

Nobody but the worker sleeps on the condition variable of its queue, so a `notify_one`
wakes the worker or nobody.
-/

/-- How a worker sleeps. -/
inductive SendSleep
  /-- `wait`, on an empty queue. -/
  | forMessage
  /-- `wait_for`, without the tokens for the front message. -/
  | forTokens
deriving DecidableEq, Repr

/-- Where `main` is. -/
inductive MainPc
  /-- In `ros::spin` or `stop_node_fault_control`. -/
  | spinning
  /-- About to call `stop_send` for the topic. -/
  | stopSend (topic : ℕ)
  /-- The flag of the worker is cleared, the worker is still to be joined and the socket to
  be closed. -/
  | join (topic : ℕ)
  /-- Past the loop over the send topics. -/
  | closed
deriving DecidableEq, Repr

/-- The node, `send_thread_flags`, the sleeping workers, the threads that have still to
call `notify_one` for a topic, the workers that returned from `send_func`, `main`, and
whether an exception has ended the process. -/
structure SendState where
  node : NodeState
  flags : ℕ -> Bool
  asleep : ℕ -> Option SendSleep
  owes : Thread -> Option ℕ
  returned : ℕ -> Bool
  main : MainPc
  ended : Bool

/-- The choices of a schedule. -/
inductive SendAction
  /-- A step of the node. -/
  | node (action : Action)
  /-- A worker finds its queue empty and goes to sleep. -/
  | wait (topic : ℕ)
  /-- The limit of `wait_for` is over. -/
  | timeout (topic : ℕ)
  /-- A sleeping worker wakes up for no reason. -/
  | spurious (topic : ℕ)
  /-- A thread calls `notify_one`. -/
  | notify (thread : Thread)
  /-- A worker finds its flag cleared and returns. -/
  | leave (topic : ℕ)
  /-- `main` takes its next step in the loop over the send topics. -/
  | main
  /-- A thread sends on a closed socket. -/
  | throws (thread : Thread)
deriving DecidableEq, Repr

/-- The queue to which the next step of a thread appends. -/
def NodeState.enqueues (cfg : BridgeConfig) (s : NodeState) (thread : Thread) : Option ℕ :=
  match s.pc thread with
  | .cleared (.dispatchSend topic _) => some topic
  | .flushing _ (.replay _ ((.send topic, _) :: _)) =>
      if cfg.limited (.send topic) then some topic else none
  | _ => none

/-- The send topic to whose socket the next step of a thread writes. -/
def Pc.writes (cfg : BridgeConfig) {thread : Thread} : Pc thread -> Option ℕ
  | .cleared job =>
      match job.final, job.channel with
      | true, .send topic => some topic
      | _, _ => none
  | .flushing _ (.replay _ ((.send topic, _) :: _)) =>
      if cfg.limited (.send topic) then none else some topic
  | _ => none

/-- The thread that takes the step, if one does. -/
def Action.thread? : Action -> Option Thread
  | .run thread => some thread
  | .arrive channel _ => some channel.reader
  | .request _ => some .control
  | .stop => some .ros
  | .advance _ => none

def SendAction.thread? : SendAction -> Option Thread
  | .node action => action.thread?
  | .wait topic => some (.worker topic)
  | .timeout topic => some (.worker topic)
  | .spurious topic => some (.worker topic)
  | .notify thread => some thread
  | .leave topic => some (.worker topic)
  | .main => some .ros
  | .throws thread => some thread

namespace SendState

variable (cfg : BridgeConfig) (c : SendState)

/-- The worker is in the inner loop of `send_func`, and neither sleeps nor has returned nor
has to call `notify_one`. -/
def looping (topic : ℕ) : Bool :=
  decide (c.node.pc (.worker topic) = .idle) && decide (c.asleep topic = none) &&
    !c.returned topic && decide (c.owes (.worker topic) = none)

/-- The worker that looks at its queue, if the step is one of a worker. -/
def iterates : Action -> Option ℕ
  | .run (.worker topic) => if c.node.pc (.worker topic) = .idle then some topic else none
  | _ => none

/-- `main` has closed the socket of the topic. -/
def hasClosed (topic : ℕ) : Bool :=
  match c.main with
  | .spinning => false
  | .stopSend next => decide (topic < next)
  | .join next => decide (topic < next)
  | .closed => true

/-- The next step of the thread is to send on a closed socket. -/
def writesClosed (thread : Thread) : Bool :=
  ((c.node.pc thread).writes cfg).any c.hasClosed

/-- The thread of the step does not have to call `notify_one` first and does not send on a
closed socket, and a worker that looks at its queue is awake and finds its flag set. -/
def runnable (action : Action) : Bool :=
  (action.thread?.all fun thread => decide (c.owes thread = none) && !c.writesClosed cfg thread) &&
    (c.iterates action).all fun topic => c.looping topic && c.flags topic

/-- The sleepers after a step of the node: a worker that looked at its queue and is still in
its loop is short of tokens. -/
def asleepAfter (action : Action) (t : NodeState) : ℕ -> Option SendSleep :=
  match c.iterates action with
  | some topic =>
      if t.pc (.worker topic) = .idle then Function.update c.asleep topic (some .forTokens)
      else c.asleep
  | none => c.asleep

/-- The calls of `notify_one` to come after a step of the node. -/
def owesAfter (action : Action) : Thread -> Option ℕ :=
  match action with
  | .run thread => Function.update c.owes thread (c.node.enqueues cfg thread)
  | _ => c.owes

/-- The next step of `main` in its loop over the send topics. -/
def mainStep : Option SendState :=
  match c.main with
  | .spinning =>
      -- `stop_node_fault_control` has joined the monitor
      if c.node.pc .ros = .stopped ∧ c.node.pc .monitor = .stopped then
        some { c with main := .stopSend 0 }
      else none
  | .stopSend topic =>
      if cfg.sendTopics.length ≤ topic then some { c with main := .closed }
      else if cfg.limited (.send topic) then
        some { c with
          flags := Function.update c.flags topic false
          owes := Function.update c.owes .ros (some topic)
          main := .join topic }
      else
        -- `stop_send_bitrate_control` returns at once, and the socket is closed
        some { c with main := .stopSend (topic + 1) }
  | .join topic =>
      if c.returned topic = true then some { c with main := .stopSend (topic + 1) } else none
  | .closed => none

/-- One step of the process. -/
def liveStep : SendAction -> Option SendState
  | .node action =>
      if c.runnable cfg action then
        (nodeStep cfg c.node action).map fun t =>
          { c with node := t, asleep := c.asleepAfter action t, owes := c.owesAfter cfg action }
      else none
  | .wait topic =>
      if c.looping topic = true ∧ c.flags topic = true ∧
          (c.node.sendQueues topic).messages = [] then
        some { c with asleep := Function.update c.asleep topic (some .forMessage) }
      else none
  | .timeout topic =>
      if c.asleep topic = some .forTokens then
        some { c with asleep := Function.update c.asleep topic none }
      else none
  | .spurious topic =>
      if c.asleep topic = none then none
      else some { c with asleep := Function.update c.asleep topic none }
  | .notify thread =>
      match c.owes thread with
      | none => none
      | some topic =>
          some { c with
            asleep := Function.update c.asleep topic none
            owes := Function.update c.owes thread none }
  | .leave topic =>
      if c.looping topic = true ∧ c.flags topic = false then
        some { c with returned := Function.update c.returned topic true }
      else none
  | .main => if c.owes .ros = none then c.mainStep cfg else none
  | .throws thread =>
      if c.owes thread = none ∧ c.writesClosed cfg thread = true then some { c with ended := true }
      else none

end SendState

/-- One step of the node with the condition variables of its queues.  There is none after the
end of the process. -/
def sendStep (cfg : BridgeConfig) (c : SendState) (action : SendAction) : Option SendState :=
  if c.ended then none else c.liveStep cfg action

/-- The state when the workers are started. -/
def SendState.initial (cfg : BridgeConfig) (now : ℚ) : SendState where
  node := NodeState.initial cfg now
  flags := fun _ => true
  asleep := fun _ => none
  owes := fun _ => none
  returned := fun _ => false
  main := .spinning
  ended := false

/-- The node with the condition variables of its queues. -/
def sendNode (cfg : BridgeConfig) : Machine SendState SendAction where
  init := fun c => ∃ now, c = SendState.initial cfg now
  step := sendStep cfg

/-! ## What a step can do -/

/-- The outcomes of a step. -/
inductive SendStep (cfg : BridgeConfig) (c : SendState) : SendAction -> SendState -> Prop
  | moved {action : Action} {t : NodeState}
      (unpaid : ∀ thread, action.thread? = some thread -> c.owes thread = none)
      (awake : ∀ topic, c.iterates action = some topic ->
        c.looping topic = true ∧ c.flags topic = true)
      (step : nodeStep cfg c.node action = some t)
      (open_ : ∀ thread, action.thread? = some thread -> c.writesClosed cfg thread = false) :
      SendStep cfg c (.node action)
        { c with node := t, asleep := c.asleepAfter action t, owes := c.owesAfter cfg action }
  | slept {topic : ℕ} (loop : c.looping topic = true) (flag : c.flags topic = true)
      (empty : (c.node.sendQueues topic).messages = []) :
      SendStep cfg c (.wait topic)
        { c with asleep := Function.update c.asleep topic (some .forMessage) }
  | timedOut {topic : ℕ} (sleeps : c.asleep topic = some .forTokens) :
      SendStep cfg c (.timeout topic) { c with asleep := Function.update c.asleep topic none }
  | woke {topic : ℕ} (sleeps : c.asleep topic ≠ none) :
      SendStep cfg c (.spurious topic) { c with asleep := Function.update c.asleep topic none }
  | notified {thread : Thread} {topic : ℕ} (owed : c.owes thread = some topic) :
      SendStep cfg c (.notify thread)
        { c with
          asleep := Function.update c.asleep topic none
          owes := Function.update c.owes thread none }
  | left {topic : ℕ} (loop : c.looping topic = true) (flag : c.flags topic = false) :
      SendStep cfg c (.leave topic) { c with returned := Function.update c.returned topic true }
  | faultStopped (spinning : c.main = .spinning) (unpaid : c.owes .ros = none)
      (ros : c.node.pc .ros = .stopped) (monitor : c.node.pc .monitor = .stopped) :
      SendStep cfg c .main { c with main := .stopSend 0 }
  | closed {topic : ℕ} (at_main : c.main = .stopSend topic) (unpaid : c.owes .ros = none)
      (past : cfg.sendTopics.length ≤ topic) : SendStep cfg c .main { c with main := .closed }
  | flagCleared {topic : ℕ} (at_main : c.main = .stopSend topic) (unpaid : c.owes .ros = none)
      (inside : topic < cfg.sendTopics.length) (limited : cfg.limited (.send topic) = true) :
      SendStep cfg c .main
        { c with
          flags := Function.update c.flags topic false
          owes := Function.update c.owes .ros (some topic)
          main := .join topic }
  | skipped {topic : ℕ} (at_main : c.main = .stopSend topic) (unpaid : c.owes .ros = none)
      (inside : topic < cfg.sendTopics.length) (unlimited : cfg.limited (.send topic) = false) :
      SendStep cfg c .main { c with main := .stopSend (topic + 1) }
  | joined {topic : ℕ} (at_main : c.main = .join topic) (unpaid : c.owes .ros = none)
      (returned : c.returned topic = true) :
      SendStep cfg c .main { c with main := .stopSend (topic + 1) }
  | threw {thread : Thread} (unpaid : c.owes thread = none)
      (writes : c.writesClosed cfg thread = true) :
      SendStep cfg c (.throws thread) { c with ended := true }

theorem SendState.mainStep_cases {cfg : BridgeConfig} {c d : SendState}
    (unpaid : c.owes .ros = none) (stepped : c.mainStep cfg = some d) :
    SendStep cfg c .main d := by
  simp only [mainStep] at stepped
  cases at_main : c.main with
  | spinning =>
      rw [at_main] at stepped
      dsimp only at stepped
      split_ifs at stepped with stops
      cases stepped
      exact .faultStopped at_main unpaid stops.1 stops.2
  | stopSend topic =>
      rw [at_main] at stepped
      dsimp only at stepped
      split_ifs at stepped with past limited
      · cases stepped
        exact .closed at_main unpaid past
      · cases stepped
        exact .flagCleared at_main unpaid (not_le.mp past) limited
      · cases stepped
        exact .skipped at_main unpaid (not_le.mp past) (Bool.eq_false_iff.mpr limited)
  | join topic =>
      rw [at_main] at stepped
      dsimp only at stepped
      split_ifs at stepped with returned
      cases stepped
      exact .joined at_main unpaid returned
  | closed =>
      rw [at_main] at stepped
      cases stepped

/-- A process that takes a step has not ended. -/
theorem alive_of_step {cfg : BridgeConfig} {c d : SendState} {action : SendAction}
    (stepped : sendStep cfg c action = some d) : c.ended = false := by
  unfold sendStep at stepped
  split_ifs at stepped with ended
  exact Bool.eq_false_iff.mpr ended

theorem sendStep_of_alive {cfg : BridgeConfig} {c : SendState} (alive : c.ended = false)
    (action : SendAction) : sendStep cfg c action = c.liveStep cfg action := by
  rw [sendStep, alive, if_neg Bool.false_ne_true]

/-- Inversion of a step. -/
theorem sendStep_cases {cfg : BridgeConfig} {c d : SendState} {action : SendAction}
    (stepped : sendStep cfg c action = some d) : SendStep cfg c action d := by
  unfold sendStep at stepped
  split_ifs at stepped
  cases action with
  | node action =>
      simp only [SendState.liveStep] at stepped
      split_ifs at stepped with runnable
      rcases Option.map_eq_some_iff.mp stepped with ⟨t, moved, rfl⟩
      simp only [SendState.runnable, Bool.and_eq_true, Option.all_eq_true, decide_eq_true_eq,
        Bool.not_eq_true'] at runnable
      exact .moved (fun thread steps => (runnable.1 thread steps).1) runnable.2 moved
        fun thread steps => (runnable.1 thread steps).2
  | wait topic =>
      simp only [SendState.liveStep] at stepped
      split_ifs at stepped with guard
      cases stepped
      exact .slept guard.1 guard.2.1 guard.2.2
  | timeout topic =>
      simp only [SendState.liveStep] at stepped
      split_ifs at stepped with sleeps
      cases stepped
      exact .timedOut sleeps
  | spurious topic =>
      simp only [SendState.liveStep] at stepped
      split_ifs at stepped with awake
      cases stepped
      exact .woke awake
  | notify thread =>
      simp only [SendState.liveStep] at stepped
      cases owed : c.owes thread with
      | none =>
          rw [owed] at stepped
          cases stepped
      | some topic =>
          rw [owed] at stepped
          cases stepped
          exact .notified owed
  | leave topic =>
      simp only [SendState.liveStep] at stepped
      split_ifs at stepped with guard
      cases stepped
      exact .left guard.1 guard.2
  | main =>
      simp only [SendState.liveStep] at stepped
      split_ifs at stepped with unpaid
      exact SendState.mainStep_cases unpaid stepped
  | throws thread =>
      simp only [SendState.liveStep] at stepped
      split_ifs at stepped with guard
      cases stepped
      exact .threw guard.1 guard.2

/-- A step moves the node, or it leaves the node alone. -/
theorem SendStep.node {cfg : BridgeConfig} {c d : SendState} {action : SendAction}
    (step : SendStep cfg c action d) :
    d.node = c.node ∨ ∃ moves, nodeStep cfg c.node moves = some d.node := by
  cases step with
  | moved _ _ step => exact .inr ⟨_, step⟩
  | _ => exact .inl rfl

/-- Every run of the node with these condition variables is one of the node. -/
theorem sendNode_refines {cfg : BridgeConfig} {c : SendState}
    (run : (sendNode cfg).Reachable c) : (bridgeNode cfg).Reachable c.node := by
  refine run.invariant (P := fun c => (bridgeNode cfg).Reachable c.node) ?_ ?_
  · rintro c ⟨now, rfl⟩
    exact ⟨_, ⟨now, rfl⟩, .refl⟩
  · intro c action d _ reached _ stepped
    rcases (sendStep_cases stepped).node with same | ⟨moves, moved⟩
    · rwa [same]
    · exact reached.next trivial moved

end SwarmBridge
