import SwarmBridge.SimComm.FaultSteps

namespace SwarmBridge

open Foundation

/-!
# Runs of the node before the fault control is stopped

`stop_node_fault_control` clears `node_fault_thread_running` for good, so a run
has not reached it exactly as long as that flag is set.  The invariant rule here
is the one of `Machine`, restricted to that part of a run: its step obligation
never sees the stop.
-/

namespace NodeStep

variable {cfg : BridgeConfig} {s t : NodeState} {action : Action}

theorem running_eq (step : NodeStep cfg s action t) (notStop : action ≠ .stop) :
    t.nodeFaultThreadRunning = s.nodeFaultThreadRunning := by
  cases step with
  | stop => exact absurd rfl notStop
  | _ => rfl

theorem notStop_of_running (step : NodeStep cfg s action t)
    (running : t.nodeFaultThreadRunning = true) : action ≠ .stop := by
  rintro rfl
  cases step
  cases running

end NodeStep

namespace NodeState

variable {cfg : BridgeConfig} {allow : NodeState -> Action -> Prop} {s : NodeState}

/-- The invariant rule for the part of a run before the stop. -/
theorem invariant_of_running (run : (bridgeNode cfg).Reaches allow s)
    (running : s.nodeFaultThreadRunning = true) {P : NodeState -> Prop}
    (start : ∀ now, P (NodeState.initial cfg now))
    (keep : ∀ s a t, (bridgeNode cfg).Reaches allow s -> s.nodeFaultThreadRunning = true ->
      P s -> allow s a -> a ≠ .stop -> NodeStep cfg s a t -> P t) : P s := by
  refine run.invariant (P := fun s => s.nodeFaultThreadRunning = true -> P s) ?_ ?_ running
  · rintro s ⟨now, rfl⟩ -
    exact start now
  · intro s a t reached holds allowed stepped after
    have step : NodeStep cfg s a t := nodeStep_cases stepped
    have notStop := step.notStop_of_running after
    have before : s.nodeFaultThreadRunning = true := (step.running_eq notStop) ▸ after
    exact keep s a t reached before (holds before) allowed notStop step

/-- A condition that holds of every step before the stop may be added to a run
that has not reached the stop. -/
theorem strengthen_of_running {weaker : NodeState -> Action -> Prop}
    (run : (bridgeNode cfg).Reaches allow s) (running : s.nodeFaultThreadRunning = true)
    (guaranteed : ∀ s a, (bridgeNode cfg).Reaches allow s -> s.nodeFaultThreadRunning = true ->
      allow s a -> weaker s a) : (bridgeNode cfg).Reaches weaker s := by
  refine run.invariant (P := fun s => s.nodeFaultThreadRunning = true ->
    (bridgeNode cfg).Reaches weaker s) ?_ ?_ running
  · intro s initial _
    exact ⟨s, initial, .refl⟩
  · intro s a t reached extended allowed stepped after
    have step : NodeStep cfg s a t := nodeStep_cases stepped
    have before : s.nodeFaultThreadRunning = true :=
      (step.running_eq (step.notStop_of_running after)) ▸ after
    exact (extended before).next (guaranteed s a reached before allowed) stepped

/-- A concrete schedule from the initial state, read through an observation. -/
theorem exists_of_schedule [∀ s a, Decidable (allow s a)] {now : ℚ} {schedule : List Action}
    {β : Type*} {observe : NodeState -> β} {value : β}
    (executed : ((bridgeNode cfg).exec allow (NodeState.initial cfg now) schedule).map observe =
      some value) : ∃ s, (bridgeNode cfg).Reaches allow s ∧ observe s = value :=
  Machine.exists_reaches_of_exec observe ⟨now, rfl⟩ executed

@[simp] theorem initial_phases (now : ℚ) (thread : Thread) :
    (NodeState.initial cfg now).phases thread = none := by
  cases thread with
  | startup =>
      simp only [phases, initial]
      split
      · split <;> rfl
      · rfl
  | _ => rfl

@[simp] theorem initial_job? (now : ℚ) (thread : Thread) :
    ((NodeState.initial cfg now).pc thread).job? = none := by
  cases thread with
  | startup =>
      simp only [initial]
      split
      · split <;> rfl
      · rfl
  | _ => rfl

end NodeState

/-! ## What a step does to the window -/

namespace FaultStep

variable {cfg : BridgeConfig} {s t : NodeState} {action : Action}

theorem clock_le (step : FaultStep cfg s action t) : s.now ≤ t.now := by
  cases step with
  | still _ _ _ _ _ _ _ clock => exact clock
  | took _ _ _ _ _ _ _ _ _ _ clock => exact clock.ge
  | opened _ _ _ _ _ _ clock => exact clock.ge
  | began _ _ _ _ _ _ _ _ _ _ _ _ clock => exact clock.ge
  | swapped _ _ _ _ _ _ _ _ _ clock => exact clock.ge
  | replayed _ _ _ _ _ _ _ _ _ clock => exact clock.ge
  | ended _ _ _ _ _ _ _ _ _ clock => exact clock.ge

/-- A step that starts a fault opens the next window, with empty buffers. -/
theorem opened_of_starts (step : FaultStep cfg s action t) (starts : startsFault s action = true) :
    t.nodeFaultActive = true ∧ t.windows = s.windows + 1 ∧ t.faultBuffers = fun _ => [] := by
  cases step with
  | opened _ _ _ active buffers windows => exact ⟨active, windows, buffers⟩
  | still starts' => rw [starts] at starts'; cases starts'
  | took starts' => rw [starts] at starts'; cases starts'
  | began starts' => rw [starts] at starts'; cases starts'
  | swapped starts' => rw [starts] at starts'; cases starts'
  | replayed starts' => rw [starts] at starts'; cases starts'
  | ended starts' => rw [starts] at starts'; cases starts'

/-- A step that starts no fault leaves the latest window as it is. -/
theorem window_kept (step : FaultStep cfg s action t) (starts : startsFault s action = false) :
    t.nodeFaultUntil = s.nodeFaultUntil ∧ t.windows = s.windows := by
  cases step with
  | opened starts' => rw [starts] at starts'; cases starts'
  | still _ _ _ _ deadline _ windows => exact ⟨deadline, windows⟩
  | took _ _ _ _ _ _ _ deadline _ windows => exact ⟨deadline, windows⟩
  | began _ _ _ _ _ _ _ _ _ deadline _ windows => exact ⟨deadline, windows⟩
  | swapped _ _ _ _ _ _ deadline _ windows => exact ⟨deadline, windows⟩
  | replayed _ _ _ _ _ _ deadline _ windows => exact ⟨deadline, windows⟩
  | ended _ _ _ _ _ _ deadline _ windows => exact ⟨deadline, windows⟩

/-- A step that starts no fault clears the flag only once the window has expired. -/
theorem active_cases (step : FaultStep cfg s action t) (starts : startsFault s action = false) :
    t.nodeFaultActive = s.nodeFaultActive ∨
      (t.nodeFaultActive = false ∧ s.nodeFaultUntil ≤ s.now) := by
  cases step with
  | opened starts' => rw [starts] at starts'; cases starts'
  | still _ _ _ same => exact .inl same
  | took _ _ open_ _ _ _ active => exact .inl (active.trans open_.symm)
  | began _ _ _ _ _ expired _ _ closed => exact .inr ⟨closed, expired⟩
  | swapped _ _ _ _ _ same => exact .inl same
  | replayed _ _ _ _ _ same => exact .inl same
  | ended _ _ _ _ _ same => exact .inl same

end FaultStep

/-! ## A window by the clock and by the flag -/

namespace NodeState

variable {cfg : BridgeConfig} {s t : NodeState} {action : Action}

/-- While the clock is inside the latest window, the window is open. -/
def OpenInWindow (s : NodeState) : Prop := s.inWindow = true -> s.nodeFaultActive = true

theorem inWindow_eq_true_iff : s.inWindow = true ↔ 0 < s.windows ∧ s.now < s.nodeFaultUntil := by
  simp [inWindow]

/-- Only a start leads into a window. -/
theorem inWindow_of_step (step : FaultStep cfg s action t) (starts : startsFault s action = false)
    (inside : t.inWindow = true) : s.inWindow = true := by
  rcases step.window_kept starts with ⟨deadline, windows⟩
  rw [inWindow_eq_true_iff, deadline, windows] at inside
  exact inWindow_eq_true_iff.mpr ⟨inside.1, step.clock_le.trans_lt inside.2⟩

theorem openInWindow_step (opens : s.OpenInWindow) (step : FaultStep cfg s action t) :
    t.OpenInWindow := by
  intro inside
  cases starts : startsFault s action with
  | true => exact (step.opened_of_starts starts).1
  | false =>
      have before := inWindow_of_step step starts inside
      rcases step.active_cases starts with same | ⟨-, expired⟩
      · rw [same]
        exact opens before
      · exact absurd (inWindow_eq_true_iff.mp before).2 (not_lt.mpr expired)

theorem openInWindow_of_reaches {allow : NodeState -> Action -> Prop}
    (run : (bridgeNode cfg).Reaches allow s) (running : s.nodeFaultThreadRunning = true) :
    s.OpenInWindow :=
  invariant_of_running run running (fun _ inside => by cases inside)
    fun _ _ _ _ _ opens _ notStop step => openInWindow_step opens (step.fault notStop)

end NodeState

/-! ## Runs whose faults are started only by the control server -/

/-- A start finds the node not busy, as `is_node_fault_busy` reports it. -/
def StartsWhenIdle (s : NodeState) (action : Action) : Prop :=
  startsFault s action = true -> s.isNodeFaultBusy = false

instance (s : NodeState) (action : Action) : Decidable (StartsWhenIdle s action) :=
  inferInstanceAs (Decidable (_ -> _))

/-- Without a startup schedule only the control server starts faults. -/
def BridgeConfig.ControlOnly (cfg : BridgeConfig) : Prop := cfg.nodeFault = none

theorem NodeState.arrive_pc_of_ne {s : NodeState} {channel : Channel} {payload : SimCommMessage}
    {other : Thread} (different : other ≠ channel.reader) :
    (s.arrive channel payload).pc other = s.pc other :=
  Function.update_of_ne different _ _

theorem NodeState.arrive_pc_reader {s : NodeState} {channel : Channel}
    {payload : SimCommMessage} :
    (s.arrive channel payload).pc channel.reader =
      .entry (Job.ofArrival channel ⟨s.arrivals, payload⟩) :=
  Function.update_self _ _ _

/-- What a step does to the two threads that start faults. -/
inductive StarterStep (s : NodeState) (action : Action) (t : NodeState) : Prop
  | same (control : t.pc .control = s.pc .control) (startup : t.pc .startup = s.pc .startup)
      (starts : startsFault s action = false)
  | granted (idle : s.isNodeFaultBusy = false) (after : t.isNodeFaultBusy = false)
      (startup : t.pc .startup = s.pc .startup)
  | left (control : (t.pc .control).quiet = true) (startup : t.pc .startup = s.pc .startup)
  | startup (control : t.pc .control = s.pc .control) (quiet : (t.pc .startup).quiet = true)
      (runs : action = .run .startup)

namespace NodeStep

variable {cfg : BridgeConfig} {s t : NodeState} {action : Action}

/-- A step of a thread moves no other thread. -/
theorem pc_frame {thread other : Thread} (step : NodeStep cfg s (.run thread) t)
    (different : other ≠ thread) : t.pc other = s.pc other := by
  cases step with
  | awaitTokens => rfl
  | _ => exact Function.update_of_ne different _ _

/-- A thread in the middle of a call only moves in its own steps. -/
theorem pc_busy {thread : Thread} (step : NodeStep cfg s action t) (busy : s.pc thread ≠ .idle)
    (other : action ≠ .run thread) : t.pc thread = s.pc thread := by
  cases action with
  | advance time => cases step; rfl
  | arrive channel payload =>
      cases step with
      | arrive valid idle =>
          refine NodeState.arrive_pc_of_ne fun same => busy ?_
          rw [same, idle]
  | request durationSec =>
      cases step with
      | refused => rfl
      | granted idle =>
          rw [NodeState.move_pc, Function.update_of_ne]
          rintro rfl
          exact busy idle
  | run runner => exact step.pc_frame fun same => other (same ▸ rfl)
  | stop =>
      cases step with
      | stop ros control =>
          rw [NodeState.stopNodeFaultControl, NodeState.move_pc, Function.update_of_ne,
            NodeState.move_pc, Function.update_of_ne]
          · rintro rfl
            exact busy ros
          · rintro rfl
            exact busy control

/-- The ROS thread moves in its own steps and when a message arrives. -/
theorem ros_pc (step : NodeStep cfg s action t) (notStop : action ≠ .stop) :
    t.pc .ros = s.pc .ros ∨
      (∃ topic message, t.pc .ros = .entry (.dispatchSend topic message)) ∨ action = .run .ros := by
  cases action with
  | advance time => cases step; exact .inl rfl
  | arrive channel payload =>
      cases step
      cases channel with
      | send topic => exact .inr (.inl ⟨topic, _, NodeState.arrive_pc_reader⟩)
      | recv topic => exact .inl (NodeState.arrive_pc_of_ne Thread.noConfusion)
  | request durationSec =>
      cases step with
      | refused => exact .inl rfl
      | granted =>
          rw [NodeState.move_pc, Function.update_of_ne (by decide)]
          exact .inl rfl
  | run thread =>
      by_cases same : thread = .ros
      · exact .inr (.inr (same ▸ rfl))
      · exact .inl (step.pc_frame (Ne.symm same))
  | stop => exact absurd rfl notStop

/-- The threads that start faults only make quiet moves in their own steps. -/
theorem quiet_after {thread : Thread} (starter : thread = .control ∨ thread = .startup)
    (step : NodeStep cfg s (.run thread) t) : (t.pc thread).quiet = true := by
  have noJob : Job thread -> False := Job.not_starter starter
  have noResume : Resume thread -> False := Resume.not_starter starter
  have notWorker : ∀ topic, thread ≠ .worker topic := by
    rintro topic rfl
    rcases starter with same | same <;> cases same
  cases step with
  | @expire _ job => exact (noJob job).elim
  | @unexpired _ job => exact (noJob job).elim
  | @take _ job => exact (noJob job).elim
  | @toQueue topic message => exact (noJob (.dispatchSend topic message)).elim
  | @toZmq topic message => exact (noJob (.dispatchSend topic message)).elim
  | @pass _ job => exact (noJob job).elim
  | @enqueue topic message => exact (noJob (.dispatchSend topic message)).elim
  | @deliver _ job => exact (noJob job).elim
  | @swap _ resume => exact (noResume resume).elim
  | @replayQueued _ resume => exact (noResume resume).elim
  | @replayDirect _ resume => exact (noResume resume).elim
  | @endRecovery _ job => exact (noJob job).elim
  | endLoop => exact (noResume .loop).elim
  | @notified _ job => exact (noJob job).elim
  | startWorker => exact absurd rfl (notWorker _)
  | awaitTokens => exact absurd rfl (notWorker _)
  | dequeue => exact absurd rfl (notWorker _)
  | monitorExpire => exact (noResume .loop).elim
  | openWindow => rw [NodeState.move_pc, Function.update_self]; rfl
  | quiet _ _ quiet => rwa [NodeState.move_pc, Function.update_self]

theorem starter (step : NodeStep cfg s action t) : StarterStep s action t := by
  cases action with
  | advance time => cases step; exact .same rfl rfl rfl
  | arrive channel payload =>
      cases step
      refine .same (NodeState.arrive_pc_of_ne ?_) (NodeState.arrive_pc_of_ne ?_) rfl <;>
        cases channel <;> exact Thread.noConfusion
  | request durationSec =>
      cases step with
      | refused => exact .same rfl rfl rfl
      | granted idle positive inactive settled =>
          have calm : s.isNodeFaultBusy = false := by
            simp [NodeState.isNodeFaultBusy, inactive, settled]
          refine .granted calm calm ?_
          rw [NodeState.move_pc, Function.update_of_ne (by decide)]
  | run thread =>
      by_cases control : thread = .control
      · subst control
        exact .left (step.quiet_after (.inl rfl)) (step.pc_frame (by decide))
      · by_cases startup : thread = .startup
        · subst startup
          exact .startup (step.pc_frame (by decide)) (step.quiet_after (.inr rfl)) rfl
        · refine .same (step.pc_frame (Ne.symm control)) (step.pc_frame (Ne.symm startup)) ?_
          cases thread with
          | control => exact absurd rfl control
          | startup => exact absurd rfl startup
          | _ => rfl
  | stop =>
      cases step
      refine .left ?_ ?_
      · rw [NodeState.stopNodeFaultControl, NodeState.move_pc, Function.update_self]; rfl
      · rw [NodeState.stopNodeFaultControl, NodeState.move_pc, Function.update_of_ne (by decide),
          NodeState.move_pc, Function.update_of_ne (by decide)]

end NodeStep

/-- An idle node stays idle until a fault is started. -/
theorem NodeStep.idle {cfg : BridgeConfig} {s t : NodeState} {action : Action}
    (step : NodeStep cfg s action t) (starts : startsFault s action = false)
    (idle : s.isNodeFaultBusy = false) : t.isNodeFaultBusy = false := by
  by_cases isStop : action = .stop
  · subst isStop
    cases step
    rfl
  · simp only [NodeState.isNodeFaultBusy, Bool.or_eq_false_iff] at idle ⊢
    cases step.fault isStop with
    | still _ _ recovering active => exact ⟨active ▸ idle.1, recovering ▸ idle.2⟩
    | took _ _ open_ => rw [idle.1] at open_; cases open_
    | opened starts' => rw [starts] at starts'; cases starts'
    | began _ _ _ _ open_ => rw [idle.1] at open_; cases open_
    | swapped _ _ _ _ recovering active => exact ⟨active ▸ idle.1, recovering ▸ idle.2⟩
    | replayed _ _ _ _ recovering active => exact ⟨active ▸ idle.1, recovering ▸ idle.2⟩
    | ended _ _ _ _ recovering active => exact ⟨active ▸ idle.1, recovering⟩

/-- The handshake of `handle_control_request`: between its busy check and its
start the node stays idle, because nobody else starts a fault. -/
structure ControlHandshake (s : NodeState) : Prop where
  startup : (s.pc .startup).quiet = true
  granted : ∀ durationSec, s.pc .control = .granted durationSec -> s.isNodeFaultBusy = false

namespace ControlHandshake

variable {cfg : BridgeConfig} {s t : NodeState} {action : Action}

theorem initial (only : cfg.ControlOnly) (now : ℚ) :
    ControlHandshake (NodeState.initial cfg now) where
  startup := by
    simp only [NodeState.initial, show cfg.nodeFault = none from only]
    rfl
  granted := fun _ at_start => by cases at_start

theorem not_sleeping (handshake : ControlHandshake s) (wake durationSec : ℚ) :
    s.pc .startup ≠ .sleeping wake durationSec := by
  intro at_sleep
  have quiet := handshake.startup
  rw [at_sleep] at quiet
  cases quiet

/-- Under the handshake every start finds the node idle. -/
theorem startsWhenIdle (handshake : ControlHandshake s) (action : Action) :
    StartsWhenIdle s action := by
  intro starts
  cases action with
  | run thread =>
      cases thread with
      | control =>
          simp only [startsFault] at starts
          split at starts
          case h_1 durationSec at_start => exact handshake.granted durationSec at_start
          case h_2 => cases starts
      | startup =>
          simp only [startsFault] at starts
          split at starts
          case h_1 wake durationSec at_sleep =>
            exact absurd at_sleep (handshake.not_sleeping wake durationSec)
          case h_2 => cases starts
      | _ => cases starts
  | _ => cases starts

theorem step (handshake : ControlHandshake s) (step : NodeStep cfg s action t) :
    ControlHandshake t := by
  cases step.starter with
  | same control startup starts =>
      exact ⟨startup ▸ handshake.startup, fun durationSec at_start =>
        step.idle starts (handshake.granted durationSec (control ▸ at_start))⟩
  | granted idle after startup => exact ⟨startup ▸ handshake.startup, fun _ _ => after⟩
  | left control startup =>
      refine ⟨startup ▸ handshake.startup, fun durationSec at_start => ?_⟩
      rw [at_start] at control
      cases control
  | startup control quiet runs =>
      refine ⟨quiet, fun durationSec at_start => ?_⟩
      refine step.idle ?_ (handshake.granted durationSec (control ▸ at_start))
      subst runs
      simp only [startsFault]
      split
      case h_1 wake durationSec at_sleep =>
        exact absurd at_sleep (handshake.not_sleeping wake durationSec)
      case h_2 => rfl

theorem of_reachable (only : cfg.ControlOnly) (run : (bridgeNode cfg).Reachable s) :
    ControlHandshake s := by
  refine run.invariant ?_ ?_
  · rintro s ⟨now, rfl⟩
    exact initial only now
  · intro s a t _ handshake _ stepped
    exact handshake.step (nodeStep_cases stepped)

end ControlHandshake

/-- A node whose faults come from the control server only starts them when it is
idle: the busy check and the start are two steps, and nothing comes between. -/
theorem reaches_startsWhenIdle {cfg : BridgeConfig} {s : NodeState} (only : cfg.ControlOnly)
    (run : (bridgeNode cfg).Reachable s) : (bridgeNode cfg).Reaches StartsWhenIdle s :=
  run.strengthen fun _ action _ reached _ _ =>
    (ControlHandshake.of_reachable only reached.reachable).startsWhenIdle action

end SwarmBridge
