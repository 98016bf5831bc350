import SwarmBridge.Delivery.DirectChannel

namespace SwarmBridge

open Foundation

/-!
# The order of publication on a receive topic

`dispatch_received_message` reads the clock twice, once to see whether the window
has expired and once in its own check, and releases the mutex in between.  When
the clock passes `node_fault_until` between the two readings, the check lets the
message pass although the fault buffer has not been flushed.  The messages of the
topic are published in the order of their arrival as long as this finds an empty
buffer, and any other occurrence lets the message overtake an earlier one.
-/

namespace NodeState

variable {cfg : BridgeConfig} {topic : ℕ} {s t : NodeState} {action : Action}

/-- What is published on a receive topic is published in the order of arrival, and
before everything that is still cached or being replayed. -/
structure PublishedInOrder (topic : ℕ) (s : NodeState) : Prop where
  sublist : (s.view (.recv topic)).delivered.Sublist (s.view (.recv topic)).arrived
  distinct : (s.view (.recv topic)).arrived.Nodup
  before : ∀ published ∈ (s.view (.recv topic)).delivered, ∀ cached : Message,
    (cached ∈ s.faultBuffers (.recv topic) ∨
      ∃ thread, cached ∈ (s.view (.recv topic)).pending thread) ->
    published.arrival < cached.arrival

/-- Publishing after a check that found the window expired but the buffer filled
overtakes a cached message. -/
theorem overtakes (direct : DirectLaw (cfg.policy (.recv topic)) (.recv topic) s.arrivals
      (s.view (.recv topic))) (stepped : nodeStep cfg s action = some t)
    (undrained : ¬ PassesDrained (.recv topic) s action) :
    ∃ u, nodeStep cfg t action = some u ∧ ¬ u.PublishedInOrder topic := by
  simp only [PassesDrained, Classical.not_imp] at undrained
  rcases undrained with ⟨passes, -, filled⟩
  rcases List.exists_cons_of_ne_nil filled with ⟨cached, rest, buffer⟩
  cases action with
  | run thread =>
      simp only [passesFor] at passes
      split at passes
      case h_1 job at_check =>
        simp only [Bool.and_eq_true, decide_eq_true_eq, Bool.not_eq_true'] at passes
        rcases passes with ⟨⟨⟨final, about⟩, settled⟩, inactive⟩
        cases job with
        | received message =>
            cases about
            simp only [nodeStep, at_check, section?, checkFault, settled, inactive,
              Bool.false_eq_true, if_false, pass, Option.some.injEq] at stepped
            have passed : (t.pc (.recv topic)) = .cleared (.received message) := by
              rw [← stepped, move_pc, Function.update_self]
            refine ⟨(t.deliver (.recv topic) message).move (.recv topic) .idle,
              by rw [nodeStep, passed]; rfl, fun order => ?_⟩
            have call : (s.pc (.recv topic)).job? = some (.received message) := by
              rw [at_check]; rfl
            have held : (s.view (.recv topic)).holding (.recv topic) = [message] :=
              holding_of_job call rfl
            have before : cached.arrival < message.arrival :=
              direct.buffer_before_hand (by rw [view, buffer]; exact List.mem_cons_self)
                (by rw [held]; exact List.mem_singleton_self message)
            refine lt_asymm before (order.before message ?_ cached (.inl ?_))
            · rw [NodeState.deliver, NodeState.view_move]
              simp [NodeState.view, ChannelView.delivered, Event.channel?, Event.delivered?]
            · rw [← stepped]
              simp [NodeState.deliver, buffer]
        | _ => cases about
      case h_2 => cases passes
  | _ => cases passes

end NodeState

/-- Publication is in order in every state of every run in which no message passes
the check of `dispatch_received_message` while the expired window is still marked
active and messages of the topic are cached.  After a first step that violates
this condition the receive thread can publish out of order at once. -/
theorem published_in_order (cfg : BridgeConfig) (only : cfg.ControlOnly) (topic : ℕ)
    (valid : topic < cfg.recvTopics.length) (s : NodeState)
    (run : (bridgeNode cfg).Reaches (PassesDrained (.recv topic)) s)
    (running : s.nodeFaultThreadRunning = true) :
    s.PublishedInOrder topic ∧ ∀ action t, nodeStep cfg s action = some t ->
      ¬ PassesDrained (.recv topic) s action ->
      ∃ u, nodeStep cfg t action = some u ∧ ¬ u.PublishedInOrder topic := by
  have direct : DirectLaw (cfg.policy (.recv topic)) (.recv topic) s.arrivals
      (s.view (.recv topic)) := by
    have exists_topic : cfg.hasChannel (.recv topic) = true := decide_eq_true valid
    have unlimited : cfg.limited (.recv topic) = false := rfl
    have idle_run : (bridgeNode cfg).Reaches
        (fun s a => StartsWhenIdle s a ∧ PassesDrained (.recv topic) s a) s :=
      run.strengthen fun _ action _ reached drained _ =>
        ⟨(ControlHandshake.of_reachable only reached.reachable).startsWhenIdle action, drained⟩
    exact NodeState.directLaw_of_reaches exists_topic unlimited idle_run running
      (fun _ _ both => both.1) (fun _ _ both => both.2)
  refine ⟨⟨direct.delivered_sublist, direct.distinct, ?_⟩, ?_⟩
  · exact fun published left cached waits => direct.delivered_before left waits
  · exact fun action t stepped undrained => NodeState.overtakes direct stepped undrained

/-! ## The clock passes the deadline between the two readings -/

/-- One receive topic with policy buffer. -/
def receiveConfig : BridgeConfig where
  sendTopics := []
  recvTopics := [⟨0, .buffer⟩]
  nodeFault := none
  durationCast := id
  undefinedSize := fun _ => 0

/-- The first message is cached.  The second one passes the entry section before
the deadline and the check after it, and is published before the monitor replays
the first one. -/
def overtakingSchedule : List Action :=
  [.request 1, .run .control, .run .control,
    .arrive (.recv 0) ⟨1, [0]⟩, .run (.recv 0), .run (.recv 0),
    .arrive (.recv 0) ⟨1, [1]⟩, .run (.recv 0), .advance 1, .run (.recv 0), .run (.recv 0),
    .run .monitor, .run .monitor, .run .monitor, .run .monitor]

/-- Without the condition a message can be published before one that arrived earlier. -/
theorem published_out_of_order :
    ¬ ∀ (cfg : BridgeConfig), cfg.ControlOnly -> ∀ topic < cfg.recvTopics.length,
      ∀ s : NodeState, (bridgeNode cfg).Reachable s -> s.nodeFaultThreadRunning = true ->
        (s.view (.recv topic)).delivered.Sublist (s.view (.recv topic)).arrived := by
  intro claim
  have executed : ((bridgeNode receiveConfig).exec (fun _ _ => True)
      (NodeState.initial receiveConfig 0) overtakingSchedule).map
      (fun s => (s.nodeFaultThreadRunning,
        (s.view (.recv 0)).delivered.map Message.arrival,
        (s.view (.recv 0)).arrived.map Message.arrival)) = some (true, [1, 0], [0, 1]) := by
    decide +kernel
  rcases NodeState.exists_of_schedule executed with ⟨s, reached, observed⟩
  simp only [Prod.mk.injEq] at observed
  have ordered := (claim receiveConfig rfl 0 (by decide) s reached observed.1).map Message.arrival
  rw [observed.2.1, observed.2.2] at ordered
  revert ordered
  decide

/-- The first half of that schedule, after which the second message arrives too late
for the entry section not to find the window expired. -/
def drainedSchedule : List Action :=
  [.request 1, .run .control, .run .control,
    .arrive (.recv 0) ⟨1, [0]⟩, .run (.recv 0), .run (.recv 0), .advance 1,
    .arrive (.recv 0) ⟨1, [1]⟩, .run (.recv 0), .run (.recv 0), .run (.recv 0),
    .run (.recv 0), .run (.recv 0), .run (.recv 0), .run (.recv 0)]

/-- When the receive thread itself finds the window expired, it replays the cached
message and publishes its own message after it. -/
theorem published_in_order_after_replay :
    ∃ s : NodeState, (s.view (.recv 0)).delivered.map Message.arrival = [0, 1] ∧
      s.PublishedInOrder 0 := by
  have executed : ((bridgeNode receiveConfig).exec (PassesDrained (.recv 0))
      (NodeState.initial receiveConfig 0) drainedSchedule).map
      (fun s => (s.nodeFaultThreadRunning, (s.view (.recv 0)).delivered.map Message.arrival)) =
      some (true, [0, 1]) := by
    decide +kernel
  rcases NodeState.exists_of_schedule executed with ⟨s, reached, observed⟩
  simp only [Prod.mk.injEq] at observed
  exact ⟨s, observed.2,
    (published_in_order receiveConfig rfl 0 (by decide) s reached observed.1).1⟩

end SwarmBridge
