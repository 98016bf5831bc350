import SwarmBridge.SimComm.Runs
import SwarmBridge.SimComm.ChannelSteps

namespace SwarmBridge

open Foundation

/-!
# The way of a message through the node

Which threads can own a message of a channel follows from the types of the calls.
Which of the two calls of the ROS thread owns it depends on the bitrate of the
topic, and this is an invariant of the runs.
-/

/-- A message of a channel is owned by the thread that dispatches it or, on a send
topic, by the worker of the topic. -/
theorem Job.thread_of_channel {thread : Thread} {job : Job thread} {channel : Channel}
    (about : job.channel = channel) :
    thread = channel.reader ∨ ∃ topic, channel = .send topic ∧ thread = .worker topic := by
  subst about
  cases job with
  | dispatchSend topic message => exact .inl rfl
  | beforeZmq topic message => exact .inl rfl
  | @pump topic message => exact .inr ⟨topic, rfl, rfl⟩
  | @received topic message => exact .inl rfl

namespace Pc

/-- The message of a worker that is about to run the check section. -/
def checkedByWorker (topic : ℕ) : {thread : Thread} -> Pc thread -> List Message
  | .worker other, .check (.pump message) => if other = topic then [message] else []
  | _, _ => []

end Pc

namespace NodeState

/-- The message that the worker of the topic is about to have checked. -/
def workerChecks (topic : ℕ) (s : NodeState) : Action -> List Message
  | .run thread => (s.pc thread).checkedByWorker topic
  | _ => []

variable {cfg : BridgeConfig} {channel : Channel} {s t : NodeState} {action : Action}

theorem pending_of_phases {thread : Thread} (outside : s.phases thread = none) :
    (s.view channel).pending thread = [] := by
  simp only [phases] at outside
  simp [view, Pc.pending, outside]

theorem pending_of_swap {thread : Thread} (holds : s.phases thread = some .swap) :
    (s.view channel).pending thread = [] := by
  simp only [phases] at holds
  simp [view, Pc.pending, holds, FlushPhase.pending]

theorem pending_of_replay {thread : Thread} {done rest : List (Channel × Message)}
    {message : Message} (holds : s.phases thread = some (.replay done ((channel, message) :: rest))) :
    (s.view channel).pending thread = message ::
      (FlushPhase.replay (done ++ [(channel, message)]) rest).pending channel := by
  simp only [phases] at holds
  simp only [view, Pc.pending, holds]
  exact FlushPhase.pending_replay_same done rest channel message

/-- What is left of a batch after one replay was in the batch before. -/
theorem mem_pending_of_rest {thread flusher : Thread} {done rest : List (Channel × Message)}
    {replayed message : Message}
    (holds : s.phases thread = some (.replay done ((channel, replayed) :: rest)))
    (member : message ∈ Function.update (s.view channel).pending thread
      ((FlushPhase.replay (done ++ [(channel, replayed)]) rest).pending channel) flusher) :
    message ∈ (s.view channel).pending flusher := by
  by_cases same : flusher = thread
  · subst same
    rw [Function.update_self] at member
    rw [pending_of_replay holds]
    exact List.mem_cons_of_mem _ member
  · rwa [Function.update_of_ne same] at member

theorem workerChecks_of_check {topic : ℕ} {message : Message}
    (at_check : s.pc (.worker topic) = .check (.pump message)) :
    message ∈ s.workerChecks topic (.run (.worker topic)) := by
  simp [workerChecks, at_check, Pc.checkedByWorker]

theorem holding_of_job {thread : Thread} {job : Job thread}
    (call : (s.pc thread).job? = some job) (about : job.channel = channel) :
    (s.view channel).holding thread = [job.message] :=
  Pc.holding_job call about

theorem holding_of_free {thread : Thread} (free : (s.pc thread).job? = none) :
    (s.view channel).holding thread = [] := by
  simp [view, Pc.holding, free]

/-- The ROS thread takes a message with a bitrate to the queue and one without to
its second check. -/
structure Routed (cfg : BridgeConfig) (s : NodeState) : Prop where
  queued : ∀ topic message, s.pc .ros = .cleared (.dispatchSend topic message) ->
    cfg.limited (.send topic) = true
  direct : ∀ topic message, (s.pc .ros).job? = some (.beforeZmq topic message) ->
    cfg.limited (.send topic) = false

namespace Routed

theorem initial (now : ℚ) : (NodeState.initial cfg now).Routed cfg where
  queued := fun _ _ at_cleared => by cases at_cleared
  direct := fun _ _ call => by cases call

/-- A step of the ROS thread that does not leave a check. -/
theorem moved {u : NodeState} {pc : Pc .ros} (routed : s.Routed cfg)
    (queued : ∀ topic message, pc = .cleared (.dispatchSend topic message) ->
      cfg.limited (.send topic) = true)
    (job : ∀ topic message, pc.job? = some (.beforeZmq topic message) ->
      (s.pc .ros).job? = some (.beforeZmq topic message)) : (u.move .ros pc).Routed cfg where
  queued := by rwa [move_pc, Function.update_self]
  direct := by
    rw [move_pc, Function.update_self]
    exact fun topic message call => routed.direct topic message (job topic message call)

theorem run_ros (routed : s.Routed cfg) (step : NodeStep cfg s (.run .ros) t) : t.Routed cfg := by
  cases step with
  | expire at_entry =>
      refine routed.moved (fun _ _ same => by cases same) fun _ _ call => ?_
      rwa [at_entry]
  | unexpired at_entry =>
      refine routed.moved (fun _ _ same => by cases same) fun _ _ call => ?_
      rwa [at_entry]
  | take => exact routed.moved (fun _ _ same => by cases same) fun _ _ call => by cases call
  | toQueue at_check settled outside limited =>
      refine routed.moved (fun _ _ same => ?_) fun _ _ call => by cases call
      cases same
      exact limited
  | toZmq at_check settled outside unlimited =>
      refine ⟨?_, ?_⟩ <;> rw [move_pc, Function.update_self]
      · exact fun _ _ same => by cases same
      · intro topic message call
        cases call
        exact unlimited
  | pass at_check settled outside final =>
      refine routed.moved (fun _ _ same => ?_) fun _ _ call => ?_
      · cases same
        cases final
      · rwa [at_check]
  | enqueue => exact routed.moved (fun _ _ same => by cases same) fun _ _ call => by cases call
  | deliver => exact routed.moved (fun _ _ same => by cases same) fun _ _ call => by cases call
  | @swap _ resume at_swap =>
      refine routed.moved (fun _ _ same => by cases same) fun _ _ call => ?_
      rw [at_swap]
      cases resume with
      | job job => exact call
  | @replayQueued _ resume _ _ _ _ at_replay =>
      refine routed.moved (fun _ _ same => by cases same) fun _ _ call => ?_
      rw [at_replay]
      cases resume with
      | job job => exact call
  | @replayDirect _ resume _ _ _ _ at_replay =>
      refine routed.moved (fun _ _ same => by cases same) fun _ _ call => ?_
      rw [at_replay]
      cases resume with
      | job job => exact call
  | endRecovery at_end =>
      refine routed.moved (fun _ _ same => by cases same) fun _ _ call => ?_
      rwa [at_end]
  | notified at_notify =>
      refine routed.moved (fun _ _ same => by cases same) fun _ _ call => ?_
      rwa [at_notify]
  | openWindow starter =>
      rcases starter.thread_eq with same | same <;> cases same
  | @quiet _ pc free outside quiet =>
      refine routed.moved (fun _ _ same => ?_) fun _ _ call => ?_
      · rw [same] at quiet
        cases quiet
      · have none_left : pc.job? = none := by
          cases pc <;> first | rfl | cases quiet
        rw [none_left] at call
        cases call

theorem step (routed : s.Routed cfg) (step : NodeStep cfg s action t) : t.Routed cfg := by
  by_cases isStop : action = .stop
  · subst isStop
    cases step
    have leaves : s.stopNodeFaultControl.pc .ros = .stopNotify := by
      rw [stopNodeFaultControl, move_pc, Function.update_of_ne (by simp), move_pc,
        Function.update_self]
    constructor <;> rw [leaves]
    · exact fun _ _ same => by cases same
    · exact fun _ _ call => by cases call
  rcases step.ros_pc isStop with same | ⟨_, _, arrived⟩ | rfl
  · exact ⟨fun topic message at_cleared => routed.queued topic message (same ▸ at_cleared),
      fun topic message call => routed.direct topic message (same ▸ call)⟩
  · refine ⟨fun _ _ at_cleared => ?_, fun _ _ call => ?_⟩
    · rw [arrived] at at_cleared
      cases at_cleared
    · rw [arrived] at call
      cases call
  · exact routed.run_ros step

theorem of_reaches {allow : NodeState -> Action -> Prop}
    (run : (bridgeNode cfg).Reaches allow s) : s.Routed cfg := by
  apply run.invariant (P := fun s => s.Routed cfg)
  · rintro s ⟨now, rfl⟩
    exact initial now
  · exact fun s a t _ routed _ stepped => routed.step (nodeStep_cases stepped)

end Routed

/-- A thread that is handed no message or request stays where it has no step. -/
theorem stuck_step {thread : Thread} {pc : Pc thread}
    (stuck : ∀ s : NodeState, s.section? cfg pc = none)
    (unread : ∀ channel, cfg.hasChannel channel = true -> thread ≠ channel.reader)
    (notRos : thread ≠ .ros) (notControl : thread ≠ .control) (at_pc : s.pc thread = pc)
    (stepped : nodeStep cfg s action = some t) : t.pc thread = pc := by
  have step : NodeStep cfg s action t := nodeStep_cases stepped
  cases action with
  | advance time => cases step; exact at_pc
  | arrive channel payload =>
      cases step with
      | arrive valid idle => rwa [arrive_pc_of_ne (unread channel valid)]
  | request durationSec =>
      cases step with
      | refused => exact at_pc
      | granted => rwa [move_pc, Function.update_of_ne notControl]
  | run mover =>
      by_cases own : mover = thread
      · subst own
        rw [nodeStep, at_pc, stuck] at stepped
        cases stepped
      · rwa [step.pc_frame (Ne.symm own)]
  | stop =>
      cases step
      rwa [stopNodeFaultControl, move_pc, Function.update_of_ne notControl, move_pc,
        Function.update_of_ne notRos]

/-- Once `main` has returned from `schedule_node_fault` it does not call it again. -/
theorem scheduled_step (scheduled : s.scheduled cfg = true)
    (stepped : nodeStep cfg s action = some t) : t.scheduled cfg = true := by
  simp only [NodeState.scheduled] at scheduled ⊢
  cases plan : cfg.nodeFault with
  | none => rfl
  | some plan =>
      rw [plan] at scheduled
      simp only [Bool.or_eq_true, decide_eq_true_eq] at scheduled ⊢
      apply scheduled.imp_right
      intro idle
      apply stuck_step _ _ Thread.noConfusion Thread.noConfusion idle stepped
      · exact fun _ => rfl
      · intro channel _
        cases channel <;> exact Thread.noConfusion

/-- The worker of a topic without a bitrate is never started. -/
theorem unstarted_of_reaches {allow : NodeState -> Action -> Prop} {topic : ℕ}
    (unlimited : cfg.limited (.send topic) = false) (run : (bridgeNode cfg).Reaches allow s) :
    s.pc (.worker topic) = .unstarted := by
  apply run.invariant (P := fun s => s.pc (.worker topic) = .unstarted)
  · rintro s ⟨now, rfl⟩
    rfl
  · intro s a t _ at_start _ stepped
    apply stuck_step _ _ Thread.noConfusion Thread.noConfusion at_start stepped
    · simp [section?, unlimited]
    · intro channel _
      cases channel <;> exact Thread.noConfusion

/-- The receive thread of a topic that does not exist never gets a message. -/
theorem idle_of_reaches {allow : NodeState -> Action -> Prop} {topic : ℕ}
    (absent : cfg.hasChannel (.recv topic) = false) (run : (bridgeNode cfg).Reaches allow s) :
    s.pc (.recv topic) = .idle := by
  apply run.invariant (P := fun s => s.pc (.recv topic) = .idle)
  · rintro s ⟨now, rfl⟩
    rfl
  · intro s a t _ at_idle _ stepped
    apply stuck_step _ _ Thread.noConfusion Thread.noConfusion at_idle stepped
    · exact fun _ => rfl
    · rintro channel valid same
      cases channel with
      | send topic => cases same
      | recv topic =>
          cases same
          rw [absent] at valid
          cases valid

theorem arrivals_le (step : NodeStep cfg s action t) : s.arrivals ≤ t.arrivals := by
  cases step with
  | arrive => exact Nat.le_succ _
  | _ => exact Nat.le_refl _

end NodeState

end SwarmBridge
