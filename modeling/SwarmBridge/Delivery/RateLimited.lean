import SwarmBridge.Foundation.DetourLine
import SwarmBridge.Recovery.Cached
import SwarmBridge.SimComm.Routing

namespace SwarmBridge

open Foundation

/-!
# The order of delivery on a rate-limited send topic

The messages of a rate-limited topic stand in one line: written, in the hand of
the worker, in the bitrate queue, in the hand of the ROS thread.  A fault takes
messages out of this line at two places, the check of the ROS thread and that of
the worker, and puts them back at its end.  The line stays ordered when each of
these transfers is: when the worker's message enters the fault buffer behind
earlier ones and passes its check before everything cached, and when a replayed
message joins the queue behind earlier ones.  The checks of the program establish
none of the three.
-/

namespace NodeState

/-- The message of the topic that a flush is about to replay. -/
def flushReplays (topic : ℕ) (s : NodeState) : Action -> List Message
  | .run thread =>
      match s.phases thread with
      | some (.replay _ ((channel, message) :: _)) =>
          if channel = .send topic then [message] else []
      | _ => []
  | _ => []

end NodeState

/-- The transfers of a rate-limited topic that keep its messages in order: the fault
policy takes a message from the worker only behind earlier ones, the worker's check
lets it pass only before everything cached, and a flush puts a message back only
behind what waits in the queue and in the worker's hand. -/
structure TransfersInOrder (topic : ℕ) (s : NodeState) (action : Action) : Prop where
  takes : s.isNodeFaultActiveLocked = true -> ∀ message ∈ s.workerChecks topic action,
    ∀ cached ∈ s.faultBuffers (.send topic), cached.Earlier message
  passes : s.isNodeFaultActiveLocked = false -> ∀ message ∈ s.workerChecks topic action,
    ∀ cached ∈ s.faultBuffers (.send topic), message.Earlier cached
  replays : ∀ message ∈ s.flushReplays topic action,
    ∀ waiting ∈ (s.view (.send topic)).holding (.worker topic) ++ (s.view (.send topic)).queue,
      waiting.Earlier message

instance (topic : ℕ) (s : NodeState) (action : Action) :
    Decidable (TransfersInOrder topic s action) :=
  decidable_of_iff
    ((s.isNodeFaultActiveLocked = true -> ∀ message ∈ s.workerChecks topic action,
        ∀ cached ∈ s.faultBuffers (.send topic), cached.Earlier message) ∧
      (s.isNodeFaultActiveLocked = false -> ∀ message ∈ s.workerChecks topic action,
        ∀ cached ∈ s.faultBuffers (.send topic), message.Earlier cached) ∧
      ∀ message ∈ s.flushReplays topic action, ∀ waiting ∈
        (s.view (.send topic)).holding (.worker topic) ++ (s.view (.send topic)).queue,
          waiting.Earlier message)
    ⟨fun ⟨takes, passes, replays⟩ => ⟨takes, passes, replays⟩,
      fun order => ⟨order.takes, order.passes, order.replays⟩⟩

/-- The worker's check lets a message pass only before everything in a batch that is
still being replayed. -/
def PassesBeforeBatch (topic : ℕ) (s : NodeState) (action : Action) : Prop :=
  s.nodeFaultRecovering = false -> s.isNodeFaultActiveLocked = false -> ∀ message ∈ s.workerChecks topic action,
    ∀ thread, ∀ batched ∈ (s.view (.send topic)).pending thread, message.Earlier batched

namespace ChannelView

/-- The line of a rate-limited topic. -/
def line (topic : ℕ) (view : ChannelView) : Line Message Thread where
  arrived := view.arrived
  delivered := view.delivered
  hand := view.holding (.worker topic)
  queue := view.queue
  incoming := view.holding .ros
  cached := view.buffer
  batch := view.pending
  past := view.pastCheck (.worker topic)

end ChannelView

namespace NodeState

variable {cfg : BridgeConfig} {topic : ℕ} {s t : NodeState} {action : Action}

/-- The messages of a rate-limited topic are in order of arrival. -/
structure LineOrder (topic : ℕ) (s : NodeState) : Prop where
  ordered : ((s.view (.send topic)).line topic).Ordered Message.Earlier
  fresh : ∀ message ∈ (s.view (.send topic)).arrived, message.arrival < s.arrivals

namespace LineOrder

theorem initial (now : ℚ) : (NodeState.initial cfg now).LineOrder topic := by
  have free : ∀ thread, ((NodeState.initial cfg now).view (.send topic)).holding thread = [] :=
    fun thread => holding_of_free (initial_job? now thread)
  have settled : ∀ thread, ((NodeState.initial cfg now).view (.send topic)).pending thread = [] :=
    fun thread => pending_of_phases (initial_phases now thread)
  have empty : ((NodeState.initial cfg now).view (.send topic)).line topic =
      ⟨[], [], [], [], [], [], fun _ => [], false⟩ := by
    simp only [ChannelView.line, free, funext settled]
    rfl
  refine ⟨?_, fun message member => by cases member⟩
  rw [empty]
  constructor <;> simp

/-- Steps that bring in no message. -/
theorem of_line (order : s.LineOrder topic) (step : NodeStep cfg s action t)
    {line : Line Message Thread} (ordered : line.Ordered Message.Earlier)
    (arrived : line.arrived = (s.view (.send topic)).arrived)
    (after : (t.view (.send topic)).line topic = line) : t.LineOrder topic := by
  refine ⟨after ▸ ordered, fun message member => ?_⟩
  have known : message ∈ (s.view (.send topic)).arrived := by
    rw [← arrived, ← after]
    exact member
  exact lt_of_lt_of_le (order.fresh message known) (arrivals_le step)

/-- The policy takes a message from the ROS thread. -/
theorem took_new (order : s.LineOrder topic) (step : NodeStep cfg s action t) {message : Message}
    (hand : (s.view (.send topic)).holding .ros = [message])
    (view : t.view (.send topic) =
      { s.view (.send topic) with
        log := (s.view (.send topic)).log ++ [s.stamp (.taken (.send topic) message)]
        buffer := applyFaultPolicyToBuffer (cfg.policy (.send topic)) message
          (s.view (.send topic)).buffer
        holding := Function.update (s.view (.send topic)).holding .ros [] }) :
    t.LineOrder topic := by
  apply order.of_line step (order.ordered.divertIncoming hand
    (applyFaultPolicyToBuffer_sublist (cfg.policy (.send topic)) message _)) rfl
  rw [view]
  simp [ChannelView.line, stamp, Event.arrived?, Event.delivered?]

theorem step (order : s.LineOrder topic) (routed : s.Routed cfg)
    (valid : cfg.hasChannel (.send topic) = true) (limited : cfg.limited (.send topic) = true)
    (inOrder : TransfersInOrder topic s action) (beforeBatch : PassesBeforeBatch topic s action)
    (step : NodeStep cfg s action t) : t.LineOrder topic := by
  cases step.onChannel valid with
  | same view => exact order.of_line step order.ordered rfl (by rw [view])
  | @arrived payload _ at_idle arrivals view =>
      have free : (s.view (.send topic)).holding .ros = [] :=
        holding_of_free (by rw [show s.pc .ros = .idle from at_idle]; rfl)
      have newest : ∀ old ∈ (s.view (.send topic)).arrived,
          old.Earlier ⟨s.arrivals, payload⟩ := order.fresh
      have ordered := order.ordered.arrive free newest
      constructor
      · rw [view]
        simpa [ChannelView.line, stamp, Event.arrived?, Event.delivered?, Channel.reader]
          using ordered
      · rw [view, arrivals]
        intro message member
        simp only [ChannelView.arrived_append, List.mem_append, List.filterMap_cons, stamp,
          Event.arrived?, List.filterMap_nil, List.mem_singleton] at member
        rcases member with member | rfl
        · exact Nat.lt_succ_of_lt (order.fresh message member)
        · exact Nat.lt_succ_self s.arrivals
  | @took thread job _ about at_check settled active inside view =>
      have hand := holding_of_job (s := s) (by rw [at_check]; rfl) about
      cases job with
      | dispatchSend other message =>
          cases about
          exact order.took_new step hand view
      | beforeZmq other message =>
          cases about
          exact order.took_new step hand view
      | @pump other message =>
          cases about
          have unpassed : (s.view (.send topic)).pastCheck (.worker topic) = false := by
            simp [NodeState.view, at_check, Pc.pastCheck]
          have checks := workerChecks_of_check at_check
          have behind := inOrder.takes (isNodeFaultActiveLocked_eq_true_iff.mpr ⟨active, inside⟩)
            message checks
          apply order.of_line step (order.ordered.divertHand hand unpassed behind
            (applyFaultPolicyToBuffer_sublist (cfg.policy (.send topic)) message _)) rfl
          rw [view]
          simp [ChannelView.line, stamp, Event.arrived?, Event.delivered?, Job.message]
      | received message => cases about
  | @passed thread job _ about at_check settled outside final view =>
      cases job with
      | dispatchSend other message => cases final
      | beforeZmq other message =>
          cases about
          rw [routed.direct topic message (by rw [at_check]; rfl)] at limited
          cases limited
      | @pump other message =>
          cases about
          have call : (s.pc (.worker topic)).job? = some (.pump message) := by rw [at_check]; rfl
          have hand : (s.view (.send topic)).holding (.worker topic) = [message] :=
            holding_of_job call rfl
          have checks := workerChecks_of_check at_check
          have closed := isNodeFaultActiveLocked_eq_false outside
          have before : ∀ held ∈ (s.view (.send topic)).holding (.worker topic),
              (∀ waits ∈ (s.view (.send topic)).buffer, held.Earlier waits) ∧
                ∀ flusher, ∀ waits ∈ (s.view (.send topic)).pending flusher,
                  held.Earlier waits := by
            intro held member
            rw [hand] at member
            rw [List.mem_singleton.mp member]
            exact ⟨inOrder.passes closed message checks, beforeBatch settled closed message checks⟩
          apply order.of_line step (order.ordered.pass before) rfl
          rw [view]
          simp [ChannelView.line, stamp, Event.arrived?, Event.delivered?]
      | received message => cases about
  | @enqueued other message evicted kept _ about at_cleared queue view =>
      cases about
      have call : (s.pc .ros).job? = some (.dispatchSend topic message) := by
        rw [at_cleared]; rfl
      have hand : (s.view (.send topic)).holding .ros = [message] := holding_of_job call rfl
      apply order.of_line step (order.ordered.enqueue hand queue) rfl
      rw [view]
      simp [ChannelView.line, stamp, Event.arrived?, Event.delivered?]
  | @delivered thread job _ about at_cleared final view =>
      cases job with
      | dispatchSend other message => cases final
      | beforeZmq other message =>
          cases about
          rw [routed.direct topic message (by rw [at_cleared]; rfl)] at limited
          cases limited
      | @pump other message =>
          cases about
          have call : (s.pc (.worker topic)).job? = some (.pump message) := by
            rw [at_cleared]; rfl
          have hand : (s.view (.send topic)).holding (.worker topic) = [message] :=
            holding_of_job call rfl
          have passed : (s.view (.send topic)).pastCheck (.worker topic) = true := by
            simp [NodeState.view, at_cleared, Pc.pastCheck, final, Job.channel]
          apply order.of_line step (order.ordered.deliver hand passed) rfl
          rw [view]
          simp [ChannelView.line, stamp, Event.arrived?, Event.delivered?, Job.message]
      | received message => cases about
  | @dequeued other front rest _ about at_loop queue view =>
      cases about
      have free : (s.view (.send topic)).holding (.worker topic) = [] :=
        holding_of_free (by rw [at_loop]; rfl)
      have unpassed : (s.view (.send topic)).pastCheck (.worker topic) = false := by
        simp [NodeState.view, at_loop, Pc.pastCheck]
      apply order.of_line step (order.ordered.dequeue free unpassed queue) rfl
      rw [view]
      simp [ChannelView.line, stamp, Event.arrived?, Event.delivered?]
  | @swapped thread _ holds view =>
      apply order.of_line step (order.ordered.swap thread) rfl
      rw [view]
      simp [ChannelView.line]
  | @replayedDirect thread done rest message _ holds unlimited view =>
      rw [limited] at unlimited
      cases unlimited
  | @replayedQueued thread done rest other message evicted kept _ about holds _ queue view =>
      cases about
      have replays : message ∈ s.flushReplays topic (.run thread) := by
        simp [flushReplays, holds]
      apply order.of_line step (order.ordered.requeue (pending_of_replay holds) queue
        (inOrder.replays message replays)) rfl
      rw [view]
      simp [ChannelView.line, stamp, Event.arrived?, Event.delivered?]
  | opened starts view =>
      apply order.of_line step order.ordered.clear rfl
      rw [view]
      simp [ChannelView.line]

theorem of_reaches (valid : cfg.hasChannel (.send topic) = true)
    (limited : cfg.limited (.send topic) = true)
    (run : (bridgeNode cfg).Reaches
      (fun s a => TransfersInOrder topic s a ∧ PassesBeforeBatch topic s a) s)
    (running : s.nodeFaultThreadRunning = true) : s.LineOrder topic :=
  invariant_of_running run running initial
    fun _ _ _ reached _ order allowed _ step =>
      order.step (Routed.of_reaches reached) valid limited allowed.1 allowed.2 step

end LineOrder

end NodeState

/-- While recoveries are exclusive no check passes during a replay, so the condition
about batches holds by itself. -/
theorem reaches_passesBeforeBatch {cfg : BridgeConfig} {topic : ℕ} {s : NodeState}
    (run : (bridgeNode cfg).Reaches
      (fun s a => ExpiresOutsideRecovery s a ∧ TransfersInOrder topic s a) s)
    (running : s.nodeFaultThreadRunning = true) :
    (bridgeNode cfg).Reaches
      (fun s a => TransfersInOrder topic s a ∧ PassesBeforeBatch topic s a) s := by
  apply NodeState.strengthen_of_running run running
  intro s action reached before allowed
  have recovery := NodeState.SoleRecovery.of_reaches reached before fun _ _ both => both.1
  refine ⟨allowed.2, fun settled _ message _ thread batched member => ?_⟩
  rw [NodeState.pending_of_phases (recovery.phases_eq_none settled thread)] at member
  cases member

/-- What is written on a rate-limited topic is a subsequence of what arrived, in
every run whose transfers between the line and the fault buffer are in order. -/
theorem rate_limited_in_order (cfg : BridgeConfig) (topic : ℕ)
    (valid : topic < cfg.sendTopics.length)
    (limited : 0 < (cfg.topic (.send topic)).maxBitrate) (s : NodeState)
    (run : (bridgeNode cfg).Reaches
      (fun s a => TransfersInOrder topic s a ∧ PassesBeforeBatch topic s a) s)
    (running : s.nodeFaultThreadRunning = true) :
    (s.view (.send topic)).delivered.Sublist (s.view (.send topic)).arrived ∧
      (s.view (.send topic)).arrived.Pairwise Message.Earlier := by
  have order : s.LineOrder topic := NodeState.LineOrder.of_reaches (decide_eq_true valid)
    (decide_eq_true limited) run running
  exact ⟨order.ordered.delivered_sublist, order.ordered.arrivals⟩

/-! ## The worker diverts an old message behind a new one -/

/-- One send topic with a bitrate of 8000 bit/s and policy buffer. -/
def backlogConfig : BridgeConfig where
  sendTopics := [⟨8000, .buffer⟩]
  recvTopics := []
  nodeFault := none
  durationCast := id
  undefinedSize := fun _ => 0

/-- A message waits in the queue when a window opens.  The next one is cached by the
ROS thread, and only then does the worker dequeue the first one and divert it. -/
def backlogSchedule : List Action :=
  [.run (.worker 0), .arrive (.send 0) ⟨1, [0]⟩, .run .ros, .run .ros, .run .ros,
    .request 1, .run .control, .run .control,
    .arrive (.send 0) ⟨1, [1]⟩, .run .ros, .run .ros,
    .run (.worker 0), .run (.worker 0), .run (.worker 0),
    .advance 1, .run .monitor, .run .monitor, .run .monitor, .run .monitor, .run .monitor,
    .run .monitor,
    .run (.worker 0), .run (.worker 0), .run (.worker 0), .run (.worker 0),
    .run (.worker 0), .run (.worker 0), .run (.worker 0), .run (.worker 0)]

/-- Without the condition a message can be written before one that arrived earlier,
in a run with a single window. -/
theorem rate_limited_out_of_order :
    ¬ ∀ (cfg : BridgeConfig), ∀ topic < cfg.sendTopics.length,
      0 < (cfg.topic (.send topic)).maxBitrate -> cfg.policy (.send topic) = .buffer ->
      ∀ s : NodeState, (bridgeNode cfg).Reaches StartsWhenIdle s ->
        s.nodeFaultThreadRunning = true ->
        (s.view (.send topic)).delivered.Sublist (s.view (.send topic)).arrived := by
  intro claim
  have executed : ((bridgeNode backlogConfig).exec StartsWhenIdle
      (NodeState.initial backlogConfig 0) backlogSchedule).map
      (fun s => (s.nodeFaultThreadRunning,
        (s.view (.send 0)).delivered.map Message.arrival,
        (s.view (.send 0)).arrived.map Message.arrival)) = some (true, [1, 0], [0, 1]) := by
    decide +kernel
  rcases NodeState.exists_of_schedule executed with ⟨s, reached, observed⟩
  simp only [Prod.mk.injEq] at observed
  have ordered := (claim backlogConfig 0 (by decide) (by decide +kernel) rfl s reached
    observed.1).map Message.arrival
  rw [observed.2.1, observed.2.2] at ordered
  revert ordered
  decide

/-- The same two messages, with the worker ahead of the window. -/
def promptSchedule : List Action :=
  [.run (.worker 0), .arrive (.send 0) ⟨1, [0]⟩, .run .ros, .run .ros, .run .ros,
    .run (.worker 0), .run (.worker 0), .run (.worker 0), .run (.worker 0),
    .request 1, .run .control, .run .control,
    .arrive (.send 0) ⟨1, [1]⟩, .run .ros, .run .ros,
    .advance 1, .run .monitor, .run .monitor, .run .monitor, .run .monitor, .run .monitor,
    .run (.worker 0), .run (.worker 0), .run (.worker 0), .run (.worker 0)]

/-- When the worker has nothing left to divert, both messages are written in order. -/
theorem rate_limited_in_order_prompt :
    ∃ s : NodeState, (s.view (.send 0)).delivered.map Message.arrival = [0, 1] ∧
      (s.view (.send 0)).delivered.Sublist (s.view (.send 0)).arrived := by
  have executed : ((bridgeNode backlogConfig).exec
      (fun s a => ExpiresOutsideRecovery s a ∧ TransfersInOrder 0 s a)
      (NodeState.initial backlogConfig 0) promptSchedule).map
      (fun s => (s.nodeFaultThreadRunning, (s.view (.send 0)).delivered.map Message.arrival)) =
      some (true, [0, 1]) := by
    decide +kernel
  rcases NodeState.exists_of_schedule executed with ⟨s, reached, observed⟩
  simp only [Prod.mk.injEq] at observed
  exact ⟨s, observed.2, (rate_limited_in_order backlogConfig 0 (by decide) (by decide +kernel) s
    (reaches_passesBeforeBatch reached observed.1) observed.1).1⟩

end SwarmBridge
