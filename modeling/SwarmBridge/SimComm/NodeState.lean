import SwarmBridge.SimComm.BitrateQueue
import Mathlib.Logic.Function.Basic
import Mathlib.Tactic.Simps.Basic

namespace SwarmBridge

open Foundation

/-!
# The state of one bridge node

The threads of the node are the ROS thread (which is also the main thread), one
receive thread for each receive topic, one worker for each limited send topic,
the fault monitor, the thread of the control server, and the detached thread of
the startup schedule.  A program counter records where a thread is between two
atomic steps, with the local variables that survive there.  Program counters
are indexed by the thread, so that, for instance, only the monitor can be in the
monitor's waits and a receive thread can only hold messages of its own topic.
-/

inductive Thread
  | ros
  | recv (topic : ℕ)
  | worker (topic : ℕ)
  | monitor
  | control
  | startup
deriving DecidableEq, Repr

/-- The thread that calls the dispatch function of a channel. -/
def Channel.reader : Channel -> Thread
  | .send _ => .ros
  | .recv topic => .recv topic

/-- The call with a message in hand that a thread is in.  Each of the four runs
`flush_expired_fault_if_needed` and then its own fault check. -/
inductive Job : Thread -> Type
  /-- `dispatch_send_message`, up to its own check. -/
  | dispatchSend (topic : ℕ) (message : Message) : Job .ros
  /-- `consume_send_message_if_fault_active`, called by
  `dispatch_send_message_after_fault` on a topic without a bitrate. -/
  | beforeZmq (topic : ℕ) (message : Message) : Job .ros
  /-- `consume_send_message_if_fault_active`, called by `send_func`. -/
  | pump {topic : ℕ} (message : Message) : Job (.worker topic)
  /-- `dispatch_received_message`. -/
  | received {topic : ℕ} (message : Message) : Job (.recv topic)
deriving DecidableEq, Repr

namespace Job

variable {thread : Thread}

def channel : {thread : Thread} -> Job thread -> Channel
  | _, .dispatchSend topic _ => .send topic
  | _, .beforeZmq topic _ => .send topic
  | .worker topic, .pump _ => .send topic
  | .recv topic, .received _ => .recv topic

def message : {thread : Thread} -> Job thread -> Message
  | _, .dispatchSend _ message => message
  | _, .beforeZmq _ message => message
  | _, .pump message => message
  | _, .received message => message

/-- The call made for a message that arrives on a channel. -/
def ofArrival : (channel : Channel) -> Message -> Job channel.reader
  | .send topic, message => .dispatchSend topic message
  | .recv _, message => .received message

/-- The job ends in a check after which the message leaves the node.  Only
`dispatch_send_message` itself has a check that is followed by another one. -/
def final : {thread : Thread} -> Job thread -> Bool
  | _, .dispatchSend _ _ => false
  | _, .beforeZmq _ _ => true
  | _, .pump _ => true
  | _, .received _ => true

@[simp] theorem channel_ofArrival (channel : Channel) (message : Message) :
    (ofArrival channel message).channel = channel := by
  cases channel <;> rfl

@[simp] theorem message_ofArrival (channel : Channel) (message : Message) :
    (ofArrival channel message).message = message := by
  cases channel <;> rfl

end Job

/-- The locals of a running `flush_fault_buffers`: before its swap, or with the
batch split into the messages already replayed and those still to replay. -/
inductive FlushPhase
  | swap
  | replay (done rest : List (Channel × Message))
deriving DecidableEq, Repr

/-- Where a flush returns to: the check of the call that found the window
expired, or the loop of the monitor. -/
inductive Resume : Thread -> Type
  | job {thread : Thread} (job : Job thread) : Resume thread
  | loop : Resume .monitor
deriving DecidableEq, Repr

/-- The threads that start faults hold no messages. -/
theorem Job.not_starter {thread : Thread} (starter : thread = .control ∨ thread = .startup)
    (job : Job thread) : False := by
  rcases starter with same | same <;> cases job <;> cases same

/-- The threads that start faults never flush. -/
theorem Resume.not_starter {thread : Thread} (starter : thread = .control ∨ thread = .startup)
    (resume : Resume thread) : False := by
  cases resume with
  | job job => exact job.not_starter starter
  | loop => rcases starter with same | same <;> cases same

/-- Program counters. -/
inductive Pc : Thread -> Type
  /-- Between two calls; for the monitor, before its first step. -/
  | idle {thread : Thread} : Pc thread
  /-- About to run the first section of `flush_expired_fault_if_needed`. -/
  | entry {thread : Thread} (job : Job thread) : Pc thread
  /-- About to wait for the end of a recovery and check for a fault. -/
  | check {thread : Thread} (job : Job thread) : Pc thread
  /-- Past the check, about to enqueue, write or publish. -/
  | cleared {thread : Thread} (job : Job thread) : Pc thread
  /-- Between setting `node_fault_recovering` and clearing it. -/
  | flushing {thread : Thread} (resume : Resume thread) (phase : FlushPhase) : Pc thread
  /-- `node_fault_recovering` is cleared, `notify_all` is still to be called. -/
  | notifyAll {thread : Thread} (job : Job thread) : Pc thread
  /-- A worker that `start_send_bitrate_threads` has not started yet. -/
  | unstarted {topic : ℕ} : Pc (.worker topic)
  /-- The untimed wait of `node_fault_monitor_func`. -/
  | waitFault : Pc .monitor
  /-- The timed wait of `node_fault_monitor_func`. -/
  | waitDeadline : Pc .monitor
  /-- `handle_control_request` has found the node not busy. -/
  | granted (durationSec : ℚ) : Pc .control
  /-- The thread of `schedule_node_fault`, asleep until `wake`. -/
  | sleeping (wake durationSec : ℚ) : Pc .startup
  /-- `start_node_fault` has released the mutex, `notify_one` is still to be called. -/
  | notifyOne {thread : Thread} (starter : thread = .control ∨ thread = .startup) : Pc thread
  /-- `stop_node_fault_control` has released the mutex. -/
  | stopNotify : Pc .ros
  | stopped {thread : Thread} : Pc thread
deriving DecidableEq, Repr

namespace Pc

variable {thread : Thread}

/-- The call a thread is in, while it still owns the message. -/
def job? : {thread : Thread} -> Pc thread -> Option (Job thread)
  | _, .entry job => some job
  | _, .check job => some job
  | _, .cleared job => some job
  | _, .flushing (.job job) _ => some job
  | _, .notifyAll job => some job
  | _, _ => none

/-- The messages of a channel in the hand of a thread: none or one. -/
def holding (channel : Channel) (pc : Pc thread) : List Message :=
  match pc.job? with
  | some job => if job.channel = channel then [job.message] else []
  | none => []

/-- The thread neither owns a message nor flushes, and is not about to. -/
def quiet : {thread : Thread} -> Pc thread -> Bool
  | _, .idle => true
  | _, .waitFault => true
  | _, .waitDeadline => true
  | _, .notifyOne _ => true
  | _, .stopNotify => true
  | _, .stopped => true
  | _, _ => false

/-- The phase of the flush section a thread is in. -/
def phase? : {thread : Thread} -> Pc thread -> Option FlushPhase
  | _, .flushing _ phase => some phase
  | _, _ => none

theorem job?_of_quiet {pc : Pc thread} (quiet : pc.quiet = true) : pc.job? = none := by
  cases pc <;> first | rfl | cases quiet

theorem phase?_of_quiet {pc : Pc thread} (quiet : pc.quiet = true) : pc.phase? = none := by
  cases pc <;> first | rfl | cases quiet

end Pc

/-- What an outside observer of one node sees happen, and the steps of a message
inside it that the laws speak about. -/
inductive Event
  /-- A dispatch function is called with the message. -/
  | arrived (channel : Channel) (message : Message)
  /-- `apply_fault_policy_to_buffer` is called with the message. -/
  | taken (channel : Channel) (message : Message)
  /-- The last check before the write or the publication let the message pass. -/
  | passed (channel : Channel) (message : Message)
  /-- The message is written to the socket or handed to the publish callback. -/
  | delivered (channel : Channel) (message : Message)
  /-- `flush_fault_buffers` replays the message. -/
  | replayed (channel : Channel) (message : Message)
  /-- `send_func` takes the message out of the bitrate queue. -/
  | dequeued (topic : ℕ) (message : Message)
  /-- `enqueue_send_message` drops the message from the bitrate queue. -/
  | evicted (topic : ℕ) (message : Message)
  /-- `send_func` starts. -/
  | workerStarted (topic : ℕ)
deriving DecidableEq, Repr

namespace Event

/-- The channel that an event is about; the start of a worker is about none. -/
def channel? : Event -> Option Channel
  | .arrived channel _ => some channel
  | .taken channel _ => some channel
  | .passed channel _ => some channel
  | .delivered channel _ => some channel
  | .replayed channel _ => some channel
  | .dequeued topic _ => some (.send topic)
  | .evicted topic _ => some (.send topic)
  | .workerStarted _ => none

end Event

/-- An event with the clock reading, the number of windows started so far, and
the end of the latest window at the moment it happens. -/
structure Entry where
  time : ℚ
  window : ℕ
  deadline : ℚ
  event : Event
deriving DecidableEq

namespace Entry

/-- The event happens inside a fault window: after the step of
`start_node_fault` that set it and before `node_fault_until`. -/
def inWindow (entry : Entry) : Bool :=
  decide (0 < entry.window) && decide (entry.time < entry.deadline)

end Entry

/-- The shared variables of `sim_comm.cpp`, the program counters, and three
history variables (`arrivals`, `windows`, `log`) that no step inspects. -/
structure NodeState where
  now : ℚ
  nodeFaultThreadRunning : Bool
  nodeFaultActive : Bool
  nodeFaultRecovering : Bool
  nodeFaultDurationSec : ℚ
  nodeFaultUntil : ℚ
  faultBuffers : Channel -> List Message
  sendQueues : ℕ -> SendQueue
  buckets : ℕ -> Bucket ℚ
  pc : (thread : Thread) -> Pc thread
  arrivals : ℕ
  windows : ℕ
  log : List Entry

namespace NodeState

variable (s : NodeState)

/-- Append an event to the log. -/
@[simps]
def record (event : Event) : NodeState :=
  { s with log := s.log ++ [⟨s.now, s.windows, s.nodeFaultUntil, event⟩] }

/-- Append several events of one atomic step to the log. -/
@[simps]
def recordAll (events : List Event) : NodeState :=
  { s with log := s.log ++ events.map fun event => ⟨s.now, s.windows, s.nodeFaultUntil, event⟩ }

/-- Move one thread to another program counter. -/
@[simps]
def move (thread : Thread) (pc : Pc thread) : NodeState :=
  { s with pc := Function.update s.pc thread pc }

/-- Now inside a fault window, by the clock alone. -/
def inWindow : Bool := decide (0 < s.windows) && decide (s.now < s.nodeFaultUntil)

end NodeState

/-- The state after `initialize_send_bitrate_control` and
`initialize_node_fault_control`, with the startup schedule of `main` in place.
A start that is due at once (`node_fault_start_after <= 0`) is a sleeping thread
whose wake-up time has come, and `main` waits for it. -/
def NodeState.initial (cfg : BridgeConfig) (now : ℚ) : NodeState where
  now := now
  nodeFaultThreadRunning := true
  nodeFaultActive := false
  nodeFaultRecovering := false
  nodeFaultDurationSec := 0
  nodeFaultUntil := 0
  faultBuffers := fun _ => []
  sendQueues := fun _ => SendQueue.empty
  buckets := fun _ => ⟨0, 0⟩
  pc := fun
    | .worker _ => .unstarted
    | .startup =>
        match cfg.nodeFault with
        | some (startAfter, duration) =>
            if 0 < duration then .sleeping (now + startAfter) duration else .idle
        | none => .idle
    | .ros => .idle
    | .recv _ => .idle
    | .monitor => .idle
    | .control => .idle
  arrivals := 0
  windows := 0
  log := []

end SwarmBridge
