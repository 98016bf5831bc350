import SwarmBridge.SimComm.NodeState
import SwarmBridge.Foundation.Machine

namespace SwarmBridge

open Foundation

/-!
# The atomic steps of one bridge node

A step is one critical section of `node_fault_mutex` or of a queue mutex, one
socket write or publication, or a tick of the steady clock.  A clock reading
inside a section belongs to the section: the mutex is held, so nothing but the
clock can change before the reading, and the clock may also advance just before
the section.  Sleeps and condition variables only delay a thread, so a sleeping
thread is one that the schedule does not run, and a predicate wait is a section
that is enabled when its predicate holds.
-/

namespace NodeState

variable (cfg : BridgeConfig) (s : NodeState)

/-! ## Sections of the fault control -/

/-- `is_node_fault_active_locked`. -/
def isNodeFaultActiveLocked : Bool :=
  s.nodeFaultActive && decide (s.now < s.nodeFaultUntil)

/-- The condition under which a section ends the window and starts a flush. -/
def faultExpired : Bool :=
  s.nodeFaultActive && decide (s.nodeFaultUntil ≤ s.now)

/-- `is_node_fault_busy`. -/
def isNodeFaultBusy : Bool :=
  s.nodeFaultActive || s.nodeFaultRecovering

/-- End the window and enter the flush section. -/
def beginRecovery (thread : Thread) (resume : Resume thread) : NodeState :=
  { s with nodeFaultActive := false, nodeFaultRecovering := true }.move thread
    (.flushing resume .swap)

/-- The first section of `flush_expired_fault_if_needed`. -/
def flushExpiredFaultIfNeeded {thread : Thread} (job : Job thread) : NodeState :=
  if s.faultExpired then s.beginRecovery thread (.job job) else s.move thread (.check job)

/-- The contents of all fault buffers in the order of the two loops of
`flush_fault_buffers`: send topics by index, then receive topics by index. -/
def flushOrder : List (Channel × Message) :=
  cfg.channels.flatMap fun channel => (s.faultBuffers channel).map (Prod.mk channel)

/-- The section of `flush_fault_buffers`: swap the buffers out. -/
def swapBuffers (thread : Thread) (resume : Resume thread) : NodeState :=
  { s with faultBuffers := fun _ => [] }.move thread
    (.flushing resume (.replay [] (s.flushOrder cfg)))

/-- `enqueue_send_message`. -/
def enqueue (topic : ℕ) (message : Message) : NodeState :=
  let result := enqueueSendMessage cfg.undefinedSize (cfg.topic (.send topic)).maxBitrate message
    (s.sendQueues topic)
  { s with sendQueues := Function.update s.sendQueues topic result.2 }.recordAll
    (result.1.map (Event.evicted topic))

/-- `send_serialized_message` and `publish_received_message_after_fault`: hand
the message to the socket or to the publish callback. -/
def deliver (channel : Channel) (message : Message) : NodeState :=
  s.record (.delivered channel message)

/-- One replayed message: `dispatch_send_message_after_fault` without its fault
check for a send topic, publication for a receive topic. -/
def replayMessage (channel : Channel) (message : Message) : NodeState :=
  let s := s.record (.replayed channel message)
  match channel with
  | .send topic =>
      if cfg.limited (.send topic) then s.enqueue cfg topic message
      else s.deliver (.send topic) message
  | .recv topic => s.deliver (.recv topic) message

/-- The next turn of the loop of `node_fault_monitor_func`, up to its wait. -/
def monitorLoop : Pc .monitor :=
  if s.nodeFaultThreadRunning then
    if s.nodeFaultActive then .waitDeadline else .waitFault
  else .stopped

/-- The end of a flush section: clear `node_fault_recovering`.  The monitor calls
`notify_all` under the mutex, the other threads call it afterwards. -/
def endRecovery : {thread : Thread} -> Resume thread -> NodeState
  | thread, .job job => { s with nodeFaultRecovering := false }.move thread (.notifyAll job)
  | .monitor, .loop =>
      { s with nodeFaultRecovering := false }.move .monitor s.monitorLoop

/-- The section of a flush that comes next. -/
def flushSection (thread : Thread) (resume : Resume thread) : FlushPhase -> NodeState
  | .swap => s.swapBuffers cfg thread resume
  | .replay done ((channel, message) :: rest) =>
      (s.replayMessage cfg channel message).move thread
        (.flushing resume (.replay (done ++ [(channel, message)]) rest))
  | .replay _ [] => s.endRecovery resume

/-- The fault branch of a check: the fault policy takes the message. -/
def take {thread : Thread} (job : Job thread) : NodeState :=
  let buffer := applyFaultPolicyToBuffer (cfg.policy job.channel) job.message
    (s.faultBuffers job.channel)
  ({ s with faultBuffers := Function.update s.faultBuffers job.channel buffer }.record
    (.taken job.channel job.message)).move thread .idle

/-- The other branch of a check.  `dispatch_send_message` goes on to the bitrate
queue of a limited topic, and to the second check of an unlimited one. -/
def pass : {thread : Thread} -> Job thread -> NodeState
  | .ros, .dispatchSend topic message =>
      if cfg.limited (.send topic) then s.move .ros (.cleared (.dispatchSend topic message))
      else s.move .ros (.entry (.beforeZmq topic message))
  | thread, job => (s.record (.passed job.channel job.message)).move thread (.cleared job)

/-- The check section shared by `dispatch_send_message`,
`consume_send_message_if_fault_active` and `dispatch_received_message`. -/
def checkFault {thread : Thread} (job : Job thread) : Option NodeState :=
  if s.nodeFaultRecovering then none
  else if s.isNodeFaultActiveLocked then some (s.take cfg job)
  else some (s.pass cfg job)

/-- What a thread does with a message that passed its check. -/
def afterCheck : {thread : Thread} -> Job thread -> NodeState
  | .ros, .dispatchSend topic message => (s.enqueue cfg topic message).move .ros .idle
  | thread, job => (s.deliver job.channel job.message).move thread .idle

/-! ## The worker of a limited topic -/

/-- The start of `send_func`. -/
def startWorker (topic : ℕ) : NodeState :=
  let bucket := initialBucket (cfg.topic (.send topic)).maxBitrate s.now
  ({ s with buckets := Function.update s.buckets topic bucket }.record
    (.workerStarted topic)).move (.worker topic) .idle

/-- One iteration of the inner loop of `send_func` on a queue with a front
message: refill, then dequeue the front or keep waiting. -/
def sendFuncIteration (topic : ℕ) (front : Message) (rest : List Message) : NodeState :=
  let bucket := refillTokens (cfg.topic (.send topic)).maxBitrate s.now front.dataLen
    (s.buckets topic)
  let queue : SendQueue := ⟨rest, sizeSub (s.sendQueues topic).bytes front.dataLen⟩
  if (front.dataLen : ℚ) ≤ bucket.available then
    ({ s with
        buckets := Function.update s.buckets topic (bucket.spend front.dataLen)
        sendQueues := Function.update s.sendQueues topic queue }.record
      (.dequeued topic front)).move (.worker topic) (.entry (.pump front))
  else { s with buckets := Function.update s.buckets topic bucket }

/-! ## Starting and stopping -/

/-- The section of `start_node_fault`. -/
def openWindow (durationSec : ℚ) : NodeState :=
  { s with
    nodeFaultActive := true
    nodeFaultDurationSec := durationSec
    nodeFaultUntil := s.now + cfg.durationCast durationSec
    faultBuffers := fun _ => []
    windows := s.windows + 1 }

/-- `start_node_fault`, called by the control server or the startup thread. -/
def startNodeFault (durationSec : ℚ) {thread : Thread}
    (starter : thread = .control ∨ thread = .startup) : NodeState :=
  if durationSec ≤ 0 then s.move thread .idle
  else if s.nodeFaultThreadRunning then
    (s.openWindow cfg durationSec).move thread (.notifyOne starter)
  else s.move thread .idle

/-- The busy check of `handle_control_request`, for a request that has passed
the checks on its command, target, token and duration. -/
def handleControlRequest (durationSec : ℚ) : NodeState :=
  if 0 < durationSec then
    if s.isNodeFaultBusy then s else s.move .control (.granted durationSec)
  else s

/-- The section of `stop_node_fault_control`, after `stop_control_server`. -/
def stopNodeFaultControl : NodeState :=
  ({ s with
      nodeFaultThreadRunning := false
      nodeFaultActive := false
      nodeFaultRecovering := false
      nodeFaultDurationSec := 0 }.move .ros .stopNotify).move .control .stopped

/-- A dispatch function is called with a new message. -/
def arrive (channel : Channel) (payload : SimCommMessage) : NodeState :=
  let message : Message := ⟨s.arrivals, payload⟩
  ({ s with arrivals := s.arrivals + 1 }.record (.arrived channel message)).move channel.reader
    (.entry (Job.ofArrival channel message))

/-- `main` has returned from `schedule_node_fault`, which calls `start_node_fault`
itself when the start is due at once.  The control server, the workers and the
dispatch of messages come after it. -/
def scheduled : Bool :=
  match cfg.nodeFault with
  | some (startAfter, _) => decide (0 < startAfter) || decide (s.pc .startup = .idle)
  | none => true

/-- The next step of a thread at a given program counter, when there is one. -/
def section? : {thread : Thread} -> Pc thread -> Option NodeState
  | _, .entry job => some (s.flushExpiredFaultIfNeeded job)
  | _, .check job => s.checkFault cfg job
  | _, .cleared job => some (s.afterCheck cfg job)
  | thread, .flushing resume phase => some (s.flushSection cfg thread resume phase)
  | thread, .notifyAll job => some (s.move thread (.check job))
  | .worker topic, .unstarted =>
      if s.scheduled cfg && cfg.hasChannel (.send topic) && cfg.limited (.send topic) then
        some (s.startWorker cfg topic)
      else none
  | .worker topic, .idle =>
      match (s.sendQueues topic).messages with
      | front :: rest => some (s.sendFuncIteration cfg topic front rest)
      | [] => none
  | .monitor, .idle => some (s.move .monitor s.monitorLoop)
  | .monitor, .waitFault =>
      if s.nodeFaultThreadRunning && !s.nodeFaultActive then none
      else some (s.move .monitor s.monitorLoop)
  | .monitor, .waitDeadline =>
      if !s.nodeFaultThreadRunning then some (s.move .monitor .stopped)
      else if s.nodeFaultUntil ≤ s.now then
        if s.faultExpired then some (s.beginRecovery .monitor .loop)
        else some (s.move .monitor s.monitorLoop)
      else none
  | .control, .granted durationSec => some (s.startNodeFault cfg durationSec (.inl rfl))
  | .startup, .sleeping wake durationSec =>
      if wake ≤ s.now then some (s.startNodeFault cfg durationSec (.inr rfl)) else none
  | thread, .notifyOne _ => some (s.move thread .idle)
  | _, .stopNotify => some (s.move .ros .stopped)
  | _, _ => none

end NodeState

/-- The choices of a schedule: which thread runs next, and what the outside
world does. -/
inductive Action
  /-- The steady clock shows `time`. -/
  | advance (time : ℚ)
  /-- A ROS callback or a socket hands a payload to the dispatch function. -/
  | arrive (channel : Channel) (payload : SimCommMessage)
  /-- The control server handles a valid request for this many seconds. -/
  | request (durationSec : ℚ)
  /-- A thread takes its next step. -/
  | run (thread : Thread)
  /-- `main` leaves `ros::spin` and stops the fault control. -/
  | stop
deriving DecidableEq, Repr

/-- One step of the node; `none` when the action is not enabled. -/
def nodeStep (cfg : BridgeConfig) (s : NodeState) : Action -> Option NodeState
  | .advance time => if s.now ≤ time then some { s with now := time } else none
  | .arrive channel payload =>
      if s.scheduled cfg && cfg.hasChannel channel && decide (s.pc channel.reader = .idle) then
        some (s.arrive channel payload)
      else none
  | .request durationSec =>
      if s.scheduled cfg && decide (s.pc .control = .idle) then
        some (s.handleControlRequest durationSec)
      else none
  | .run thread => s.section? cfg (s.pc thread)
  | .stop =>
      if s.scheduled cfg = true ∧ s.pc .ros = .idle ∧ s.pc .control = .idle ∧
          s.nodeFaultThreadRunning = true then
        some s.stopNodeFaultControl
      else none

/-- One bridge node with all its threads. -/
def bridgeNode (cfg : BridgeConfig) : Machine NodeState Action where
  init := fun s => ∃ now, s = NodeState.initial cfg now
  step := nodeStep cfg

/-! ## Which steps start a fault -/

/-- The action is the section of `start_node_fault`, about to open a window. -/
def startsFault (s : NodeState) : Action -> Bool
  | .run .control =>
      match s.pc .control with
      | .granted durationSec => decide (0 < durationSec) && s.nodeFaultThreadRunning
      | _ => false
  | .run .startup =>
      match s.pc .startup with
      | .sleeping wake durationSec =>
          decide (wake ≤ s.now) && decide (0 < durationSec) && s.nodeFaultThreadRunning
      | _ => false
  | _ => false

/-- The action is a section that is about to find the window expired, to set
`node_fault_recovering` and to start a flush. -/
def beginsRecovery (s : NodeState) : Action -> Bool
  | .run thread =>
      s.faultExpired &&
        match s.pc thread with
        | .entry _ => true
        | .waitDeadline => true
        | _ => false
  | _ => false

end SwarmBridge
