import SwarmBridge.Delivery.DirectChannel

namespace SwarmBridge

open Foundation

/-!
# Delivery on a send topic without a bitrate

`dispatch_send_message` checks for a fault twice: once itself, and once more in
`consume_send_message_if_fault_active` just before the socket write.  Each check
is preceded by its own `flush_expired_fault_if_needed`.  A message that passes the
first check of an expired window without having flushed it is caught by the entry
section of the second one, so the second check never lets a message pass while an
earlier one is cached.  The receive path lacks the second check.
-/

namespace Pc

/-- Before the entry section of the second check of a message of the topic. -/
def atSecondEntry (topic : ℕ) : Pc .ros -> Bool
  | .entry (.beforeZmq other _) => decide (other = topic)
  | _ => false

/-- Between that section and the second check itself. -/
def pastSecondEntry (topic : ℕ) : Pc .ros -> Bool
  | .check (.beforeZmq other _) => decide (other = topic)
  | .notifyAll (.beforeZmq other _) => decide (other = topic)
  | .flushing (.job (.beforeZmq other _)) _ => decide (other = topic)
  | _ => false

end Pc

namespace NodeState

variable {cfg : BridgeConfig} {topic : ℕ} {channel : Channel} {s t : NodeState} {action : Action}

/-- What a message between the two checks may leave behind in the fault buffer. -/
structure SecondGate (topic : ℕ) (s : NodeState) : Prop where
  entry : (s.pc .ros).atSecondEntry topic = true -> s.nodeFaultActive = true ->
    s.faultBuffers (.send topic) = [] ∨ s.nodeFaultUntil ≤ s.now
  past : (s.pc .ros).pastSecondEntry topic = true -> s.nodeFaultActive = true ->
    s.faultBuffers (.send topic) = []

/-- A window that is open after a step was open before, and has not been shortened,
or all buffers are empty. -/
theorem window_frame (step : FaultStep cfg s action t) (active : t.nodeFaultActive = true) :
    (s.nodeFaultActive = true ∧ t.nodeFaultUntil = s.nodeFaultUntil ∧ s.now ≤ t.now) ∨
      t.faultBuffers = fun _ => [] := by
  cases starts : startsFault s action with
  | true => exact .inr (step.opened_of_starts starts).2.2
  | false =>
      have deadline := (step.window_kept starts).1
      rcases step.active_cases starts with same | ⟨closed, -⟩
      · exact .inl ⟨same ▸ active, deadline, step.clock_le⟩
      · rw [closed] at active
        cases active

/-- Only the reader of a direct channel fills its fault buffer. -/
theorem buffer_frame (valid : cfg.hasChannel channel = true)
    (direct : DirectLaw (cfg.policy channel) channel.reader s.arrivals (s.view channel))
    (step : NodeStep cfg s action t) (other : action ≠ .run channel.reader) :
    t.faultBuffers channel = s.faultBuffers channel ∨ t.faultBuffers channel = [] := by
  have same : ∀ {buffer : List Message}, (t.view channel).buffer = buffer ->
      t.faultBuffers channel = buffer := id
  cases step.onChannel valid with
  | took about at_check =>
      have reader := DirectLaw.reader_of_job direct (by rw [at_check]; rfl) about
      exact absurd (reader ▸ rfl) other
  | same view => exact .inl (same (by rw [view]; rfl))
  | arrived _ _ view => exact .inl (same (by rw [view]; rfl))
  | passed _ _ _ _ _ view => exact .inl (same (by rw [view]; rfl))
  | enqueued _ _ _ view => exact .inl (same (by rw [view]; rfl))
  | delivered _ _ _ view => exact .inl (same (by rw [view]; rfl))
  | dequeued _ _ _ view => exact .inl (same (by rw [view]; rfl))
  | swapped _ view => exact .inr (same (by rw [view]))
  | replayedDirect _ _ view => exact .inl (same (by rw [view]; rfl))
  | replayedQueued _ _ _ _ view => exact .inl (same (by rw [view]; rfl))
  | opened _ view => exact .inr (same (by rw [view]))

namespace SecondGate

theorem initial (now : ℚ) : (NodeState.initial cfg now).SecondGate topic where
  entry := fun at_entry => by cases at_entry
  past := fun at_past => by cases at_past

/-- Steps of the other threads. -/
theorem frame (gate : s.SecondGate topic) (same : t.pc .ros = s.pc .ros)
    (step : FaultStep cfg s action t)
    (buffer : t.faultBuffers (.send topic) = s.faultBuffers (.send topic) ∨
      t.faultBuffers (.send topic) = []) : t.SecondGate topic := by
  refine ⟨fun at_entry active => ?_, fun at_past active => ?_⟩
  · rcases buffer with buffer | buffer
    · rcases window_frame step active with ⟨before, deadline, clock⟩ | empty
      · rw [buffer, deadline]
        exact (gate.entry (same ▸ at_entry) before).imp id fun late => late.trans clock
      · exact .inl (by rw [empty])
    · exact .inl buffer
  · rcases buffer with buffer | buffer
    · rcases window_frame step active with ⟨before, -, -⟩ | empty
      · rw [buffer]
        exact gate.past (same ▸ at_past) before
      · rw [empty]
    · exact buffer

theorem moved {pc : Pc .ros}
    (entry : pc.atSecondEntry topic = true -> s.nodeFaultActive = true ->
      s.faultBuffers (.send topic) = [] ∨ s.nodeFaultUntil ≤ s.now)
    (past : pc.pastSecondEntry topic = true -> s.nodeFaultActive = true ->
      s.faultBuffers (.send topic) = []) : (s.move .ros pc).SecondGate topic where
  entry := by rwa [move_pc, Function.update_self]
  past := by rwa [move_pc, Function.update_self]

/-- A thread that is not between the two checks. -/
theorem outside {pc : Pc .ros} (entry : pc.atSecondEntry topic = false)
    (past : pc.pastSecondEntry topic = false) : (s.move .ros pc).SecondGate topic :=
  moved (fun at_entry => by rw [entry] at at_entry; cases at_entry)
    (fun at_past => by rw [past] at at_past; cases at_past)

/-- Steps of the ROS thread itself. -/
theorem run_ros (gate : s.SecondGate topic) (step : NodeStep cfg s (.run .ros) t) :
    t.SecondGate topic := by
  cases step with
  | expire at_entry active expired =>
      refine moved (fun at_entry => ?_) (fun _ active => ?_)
      · cases at_entry
      · cases active
  | @unexpired _ job at_entry fresh =>
      refine moved (fun at_entry => by cases at_entry) (fun at_past active => ?_)
      cases job with
      | dispatchSend => cases at_past
      | beforeZmq other message =>
          refine (gate.entry ?_ active).resolve_right (not_le.mpr (fresh active))
          rw [at_entry]
          exact at_past
  | take => exact outside rfl rfl
  | toQueue => exact outside rfl rfl
  | toZmq at_check settled outside unlimited =>
      exact moved (fun _ active => .inr (outside active)) (fun at_past => by cases at_past)
  | pass => exact outside rfl rfl
  | enqueue => exact outside rfl rfl
  | deliver => exact outside rfl rfl
  | swap => exact moved (fun at_entry => by cases at_entry) (fun _ _ => rfl)
  | @replayQueued _ resume _ _ _ _ at_replay =>
      refine moved (fun at_entry => by cases at_entry) (fun at_past active => gate.past ?_ active)
      rw [at_replay]
      cases resume with
      | job job => cases job <;> exact at_past
  | @replayDirect _ resume _ _ _ _ at_replay =>
      refine moved (fun at_entry => by cases at_entry) (fun at_past active => gate.past ?_ active)
      rw [at_replay]
      cases resume with
      | job job => cases job <;> exact at_past
  | @endRecovery _ job _ at_end =>
      refine moved (fun at_entry => by cases at_entry) (fun at_past active => gate.past ?_ active)
      rw [at_end]
      cases job <;> exact at_past
  | @notified _ job at_notify =>
      refine moved (fun at_entry => by cases at_entry) (fun at_past active => gate.past ?_ active)
      rw [at_notify]
      cases job <;> exact at_past
  | openWindow starter =>
      rcases starter.thread_eq with same | same <;> cases same
  | @quiet _ pc free outside quiet =>
      refine SecondGate.outside ?_ ?_ <;> cases pc <;> first | rfl | cases quiet

theorem step (gate : s.SecondGate topic) (valid : cfg.hasChannel (.send topic) = true)
    (direct : DirectLaw (cfg.policy (.send topic)) .ros s.arrivals (s.view (.send topic)))
    (step : NodeStep cfg s action t) (notStop : action ≠ .stop) : t.SecondGate topic := by
  by_cases own : action = .run .ros
  · subst own
    exact gate.run_ros step
  · have buffer := buffer_frame valid direct step own
    rcases step.ros_pc notStop with same | ⟨other, message, arrived⟩ | own'
    · exact gate.frame same (step.fault notStop) buffer
    · refine ⟨fun at_entry => ?_, fun at_past => ?_⟩
      · rw [arrived] at at_entry
        cases at_entry
      · rw [arrived] at at_past
        cases at_past
    · exact absurd own' own

/-- The second check lets a message pass only when nothing is cached. -/
theorem passesDrained (gate : s.SecondGate topic)
    (direct : DirectLaw (cfg.policy (.send topic)) .ros s.arrivals (s.view (.send topic)))
    (action : Action) : PassesDrained (.send topic) s action := by
  intro passes active
  cases action with
  | run thread =>
      simp only [passesFor] at passes
      split at passes
      case h_1 job at_check =>
        simp only [Bool.and_eq_true, decide_eq_true_eq] at passes
        rcases passes with ⟨⟨⟨final, about⟩, -⟩, -⟩
        have reader : thread = (Channel.send topic).reader :=
          DirectLaw.reader_of_job direct (by rw [at_check]; rfl) about
        replace reader : thread = .ros := reader
        subst reader
        refine gate.past ?_ active
        rw [at_check]
        cases job with
        | dispatchSend => cases final
        | beforeZmq other message => exact decide_eq_true (Channel.send.inj about)
      case h_2 => cases passes
  | _ => cases passes

end SecondGate

/-- Nothing is under way on the topic: no window, no recovery, and no call of the
ROS thread that still owns a message. -/
structure IdleOn (s : NodeState) : Prop where
  inactive : s.nodeFaultActive = false
  settled : s.nodeFaultRecovering = false
  free : (s.pc .ros).job? = none

/-- In a run whose faults come from the control server the second check meets the
condition of the direct law by itself. -/
theorem sendLaw_of_reachable (only : cfg.ControlOnly) (valid : cfg.hasChannel (.send topic) = true)
    (unlimited : cfg.limited (.send topic) = false) (run : (bridgeNode cfg).Reachable s)
    (running : s.nodeFaultThreadRunning = true) :
    s.SecondGate topic ∧
      DirectLaw (cfg.policy (.send topic)) .ros s.arrivals (s.view (.send topic)) := by
  refine invariant_of_running run running
    (P := fun s => s.SecondGate topic ∧
      DirectLaw (cfg.policy (.send topic)) .ros s.arrivals (s.view (.send topic))) ?_ ?_
  · exact fun now => ⟨SecondGate.initial now, directLaw_initial (.send topic) now _⟩
  · rintro s a t reached before ⟨gate, direct⟩ - notStop step
    have idle := (ControlHandshake.of_reachable only reached).startsWhenIdle
    have orderly : s.Orderly cfg := Orderly.of_reaches (reaches_startsWhenIdle only reached) before
      fun _ _ starts => starts
    exact ⟨gate.step valid direct step notStop,
      directLaw_step valid unlimited orderly (Routed.of_reaches reached) direct (idle a)
        (gate.passesDrained direct a) step⟩

end NodeState

/-- The delivery law of a send topic without a bitrate.  What is written is at all
times a subsequence of what arrived, in the order of arrival and without repetition.
On an idle topic it is what arrived less what the policy gave up: nothing for
buffer, what it took for drop, and all but the last message of each window for
latest. -/
theorem unlimited_send_delivery (cfg : BridgeConfig) (only : cfg.ControlOnly) (topic : ℕ)
    (valid : topic < cfg.sendTopics.length)
    (unlimited : (cfg.topic (.send topic)).maxBitrate ≤ 0) (s : NodeState)
    (run : (bridgeNode cfg).Reachable s) (running : s.nodeFaultThreadRunning = true) :
    (s.view (.send topic)).delivered.Sublist (s.view (.send topic)).arrived ∧
      (s.view (.send topic)).delivered.Nodup ∧
      (s.IdleOn -> (s.view (.send topic)).delivered = (s.view (.send topic)).arrived.filter
        fun message => !(s.view (.send topic)).lost (cfg.policy (.send topic)) message) ∧
      (s.IdleOn -> cfg.policy (.send topic) = .buffer ->
        (s.view (.send topic)).delivered = (s.view (.send topic)).arrived) := by
  have exists_topic : cfg.hasChannel (.send topic) = true := decide_eq_true valid
  have direct_topic : cfg.limited (.send topic) = false := decide_eq_false (not_lt.mpr unlimited)
  rcases NodeState.sendLaw_of_reachable only exists_topic direct_topic run running with ⟨-, direct⟩
  have idle_law : s.IdleOn -> (s.view (.send topic)).delivered =
      (s.view (.send topic)).arrived.filter
        fun message => !(s.view (.send topic)).lost (cfg.policy (.send topic)) message := by
    intro idle
    have orderly : s.Orderly cfg := NodeState.Orderly.of_reaches
      (reaches_startsWhenIdle only run) running fun _ _ starts => starts
    have settled : ∀ thread, (s.view (.send topic)).pending thread = [] := fun thread =>
      NodeState.pending_of_phases (orderly.exclusive.phases_eq_none idle.settled thread)
    have empty : (s.view (.send topic)).buffer = [] :=
      orderly.empty idle.inactive idle.settled (.send topic)
    have free : (s.view (.send topic)).holding .ros = [] := by
      simp [NodeState.view, Pc.holding, idle.free]
    have law := direct.law_of_settled settled
    rwa [empty, free, List.append_nil, List.append_nil] at law
  refine ⟨direct.delivered_sublist, direct.distinct.sublist direct.delivered_sublist, idle_law, ?_⟩
  intro idle policy
  rw [idle_law idle, policy]
  exact List.filter_eq_self.mpr fun message _ => by rw [ChannelView.lost_buffer]; rfl

/-- One send topic without a bitrate and with policy latest. -/
def latestConfig : BridgeConfig where
  sendTopics := [⟨0, .latest⟩]
  recvTopics := []
  nodeFault := none
  durationCast := id
  undefinedSize := fun _ => 0

/-- Two messages are cached one after the other, and the monitor replays what is left. -/
def latestSchedule : List Action :=
  [.request 1, .run .control, .run .control,
    .arrive (.send 0) ⟨1, [0]⟩, .run .ros, .run .ros,
    .arrive (.send 0) ⟨1, [1]⟩, .run .ros, .run .ros,
    .advance 1, .run .monitor, .run .monitor, .run .monitor, .run .monitor, .run .monitor]

/-- At the end of that run the topic is idle, and only the later message is written. -/
theorem unlimited_send_delivery_latest :
    ∃ s : NodeState, s.IdleOn ∧ (s.view (.send 0)).delivered.map Message.arrival = [1] ∧
      (s.view (.send 0)).delivered = (s.view (.send 0)).arrived.filter
        fun message => !(s.view (.send 0)).lost .latest message := by
  have executed : ((bridgeNode latestConfig).exec (fun _ _ => True)
      (NodeState.initial latestConfig 0) latestSchedule).map
      (fun s => (s.nodeFaultThreadRunning, s.nodeFaultActive, s.nodeFaultRecovering,
        (s.pc .ros).job?, (s.view (.send 0)).delivered.map Message.arrival)) =
      some (true, false, false, none, [1]) := by
    decide +kernel
  rcases NodeState.exists_of_schedule executed with ⟨s, reached, observed⟩
  simp only [Prod.mk.injEq] at observed
  have idle : s.IdleOn := ⟨observed.2.1, observed.2.2.1, observed.2.2.2.1⟩
  exact ⟨s, idle, observed.2.2.2.2, (unlimited_send_delivery latestConfig rfl 0 (by decide)
    (by decide +kernel) s reached observed.1).2.2.1 idle⟩

end SwarmBridge
