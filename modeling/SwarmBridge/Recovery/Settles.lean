import SwarmBridge.Recovery.Retention
import SwarmBridge.Recovery.Shutdown

namespace SwarmBridge

open Foundation

/-!
# After its last window a node comes to rest

A window that nobody renews expires, and the monitor finds it expired unless another thread
does so first.  The flush that follows replays what is cached and comes to its end.  From
then on no thread of the node is held up by the fault control.
-/

/-! ## Before the shutdown -/

namespace NodeState

variable {cfg : BridgeConfig} {s t : NodeState} {action : Action}

/-- Before the stop the ROS thread has not left `ros::spin`. -/
theorem ros_spins (run : (bridgeNode cfg).Reachable s)
    (running : s.nodeFaultThreadRunning = true) :
    s.pc .ros ≠ .stopNotify ∧ s.pc .ros ≠ .stopped := by
  apply run.invariant (P := fun s => s.nodeFaultThreadRunning = true ->
    s.pc .ros ≠ .stopNotify ∧ s.pc .ros ≠ .stopped) _ _ running
  · rintro s ⟨now, rfl⟩ -
    simp [initial]
  · intro s action t _ spins _ (stepped : nodeStep cfg s action = some t) after
    have step : NodeStep cfg s action t := nodeStep_cases stepped
    have notStop := step.notStop_of_running after
    rcases spins ((step.running_eq notStop) ▸ after) with ⟨notNotify, notStopped⟩
    rcases step.ros_pc notStop with same | ⟨topic, message, at_entry⟩ | rfl
    · rw [same]
      exact ⟨notNotify, notStopped⟩
    · rw [at_entry]
      simp
    · cases step with
      | quiet free outside =>
          cases at_pc : s.pc .ros with
          | idle => simp [nodeStep, at_pc, section?] at stepped
          | stopNotify => exact absurd at_pc notNotify
          | stopped => exact absurd at_pc notStopped
          | notifyOne starter => rcases starter with impossible | impossible <;> cases impossible
          | flushing resume phase => rw [at_pc] at outside; cases outside
          | entry job | check job | cleared job | notifyAll job => rw [at_pc] at free; cases free
      | _ => simp [beginRecovery, take, swapBuffers]

/-- A node that is not busy stays so as long as no fault is started. -/
theorem calm_kept (calm : s.isNodeFaultBusy = false) (starts : startsFault s action = false)
    (step : FaultStep cfg s action t) : t.isNodeFaultBusy = false := by
  rcases Bool.or_eq_false_iff.mp calm with ⟨inactive, settled⟩
  apply Bool.or_eq_false_iff.mpr
  cases step with
  | still _ _ recovering active => exact ⟨active.trans inactive, recovering.trans settled⟩
  | took _ _ open_ => rw [inactive] at open_; cases open_
  | opened starts' => rw [starts] at starts'; cases starts'
  | began _ _ _ _ open_ => rw [inactive] at open_; cases open_
  | swapped _ _ _ _ recovering active =>
      exact ⟨active.trans inactive, recovering.trans settled⟩
  | replayed _ _ _ _ recovering active =>
      exact ⟨active.trans inactive, recovering.trans settled⟩
  | ended _ _ _ _ recovering active => exact ⟨active.trans inactive, recovering⟩

/-- The sections of a flush go on until the last one clears `node_fault_recovering`. -/
theorem flush_step {thread : Thread} {resume : Resume thread} {phase : FlushPhase}
    (at_flush : s.pc thread = .flushing resume phase) :
    ∃ t, nodeStep cfg s (.run thread) = some t ∧ (t.nodeFaultRecovering = false ∨
      (∃ next, t.pc thread = .flushing resume next) ∧ (t.pc thread).work < (s.pc thread).work) := by
  refine ⟨s.flushSection cfg thread resume phase, by simp [nodeStep, at_flush, section?], ?_⟩
  rw [at_flush]
  cases phase with
  | swap =>
      rw [flushSection, swapBuffers, move_pc, Function.update_self]
      exact .inr ⟨⟨_, rfl⟩, by simp [Pc.work, Prod.Lex.toLex_lt_toLex]⟩
  | replay done rest =>
      cases rest with
      | nil =>
          refine .inl ?_
          cases resume with
          | job job => rfl
          | loop => rfl
      | cons head rest =>
          rw [flushSection, move_pc, Function.update_self]
          exact .inr ⟨⟨_, rfl⟩, by simp [Pc.work, Prod.Lex.toLex_lt_toLex]⟩

end NodeState

/-- Before the stop `main` has not come to its loop over the send topics, and no worker was
told to return. -/
theorem SendState.in_service {cfg : BridgeConfig} {c : SendState}
    (run : (sendNode cfg).Reachable c) (running : c.node.nodeFaultThreadRunning = true) :
    c.main = .spinning ∧ (∀ topic, c.flags topic = true) ∧ ∀ topic, c.returned topic = false := by
  apply run.invariant (P := fun c => c.node.nodeFaultThreadRunning = true -> c.main = .spinning ∧
    (∀ topic, c.flags topic = true) ∧ ∀ topic, c.returned topic = false) _ _ running
  · rintro c ⟨now, rfl⟩ -
    exact ⟨rfl, fun _ => rfl, fun _ => rfl⟩
  · intro c action d reached service _ stepped after
    have step : SendStep cfg c action d := sendStep_cases stepped
    cases step with
    | moved _ _ moves =>
        have step := nodeStep_cases moves
        exact service ((step.running_eq (step.notStop_of_running after)) ▸ after)
    | left _ flag =>
        rw [(service after).2.1] at flag
        cases flag
    | faultStopped _ _ ros =>
        exact absurd ros (NodeState.ros_spins (sendNode_refines reached) after).2
    | closed at_main => rw [(service after).1] at at_main; cases at_main
    | flagCleared at_main => rw [(service after).1] at at_main; cases at_main
    | skipped at_main => rw [(service after).1] at at_main; cases at_main
    | joined at_main => rw [(service after).1] at at_main; cases at_main
    | _ => exact service after

/-- Before the stop no socket is closed, and no process ends. -/
theorem SendState.alive_in_service {cfg : BridgeConfig} {c : SendState}
    (run : (sendNode cfg).Reachable c) (running : c.node.nodeFaultThreadRunning = true) :
    c.ended = false := by
  apply run.invariant (P := fun c => c.node.nodeFaultThreadRunning = true -> c.ended = false)
    _ _ running
  · rintro c ⟨now, rfl⟩ -
    rfl
  · intro c action d reached _ _ stepped after
    have alive : c.ended = false := alive_of_step stepped
    cases sendStep_cases stepped with
    | threw _ writes => exact absurd (in_service reached after).1 (spun_of_writes writes)
    | _ => exact alive

/-! ## The last window -/

/-- An infinite run before the shutdown.  No thread is passed over for ever, and the clock passes
every time. -/
structure EndlessRun {cfg : BridgeConfig} {origin : SendState}
    (trace : (sendNode cfg).Trace (fun _ _ => True) origin) : Prop extends FairSend trace where
  running : ∀ n, (trace.state n).node.nodeFaultThreadRunning = true
  clock : ∀ time, ∃ n, time ≤ (trace.state n).node.now

/-- Such a run of a node whose faults come from the control server. -/
structure ServingRun {cfg : BridgeConfig} {origin : SendState}
    (trace : (sendNode cfg).Trace (fun _ _ => True) origin) : Prop extends EndlessRun trace where
  only : cfg.ControlOnly

/-- And one in which there is a last window. -/
structure SettlingRun {cfg : BridgeConfig} {origin : SendState}
    (trace : (sendNode cfg).Trace (fun _ _ => True) origin) : Prop extends ServingRun trace where
  last : ∃ last, ∀ n, last ≤ n -> (trace.state n).node.windows = (trace.state last).node.windows

namespace EndlessRun

open NodeState

variable {cfg : BridgeConfig} {origin : SendState} {n : ℕ} {thread : Thread}
  {trace : (sendNode cfg).Trace (fun _ _ => True) origin}

theorem main (run : EndlessRun trace) (n : ℕ) :
    (trace.state (n + 1)).main = (trace.state n).main := by
  have service : ∀ n, (trace.state n).main = .spinning :=
    fun n => (SendState.in_service (run.reaches n) (run.running n)).1
  rw [service, service]

/-- A step of the node, or none. -/
theorem fault (run : EndlessRun trace) (n : ℕ) :
    (trace.state (n + 1)).node = (trace.state n).node ∨ ∃ action,
      FaultStep cfg (trace.state n).node action (trace.state (n + 1)).node := by
  rcases (FairSend.step trace n).node with same | ⟨action, stepped⟩
  · exact .inl same
  · have step := nodeStep_cases stepped
    exact .inr ⟨action, step.fault (step.notStop_of_running (run.running (n + 1)))⟩

theorem clock_mono (run : EndlessRun trace) : Monotone fun n => (trace.state n).node.now := by
  apply monotone_nat_of_le_succ
  intro n
  rcases run.fault n with same | ⟨action, step⟩
  · rw [same]
  · exact step.clock_le

/-- The own steps of a thread that stays where it is in the meantime. -/
theorem steps_from (run : EndlessRun trace) {pc : Pc thread} (busy : pc ≠ .idle)
    (enabled : ∀ m, n ≤ m -> (trace.state m).node.pc thread = pc ->
      nodeStep cfg (trace.state m).node (.run thread) ≠ none)
    (at_pc : (trace.state n).node.pc thread = pc) :
    ∃ m, n ≤ m ∧ (trace.state m).node.pc thread = pc ∧ trace.action m = .node (.run thread) := by
  apply run.takes_step (Pc.ownSteps_of_busy busy) _ enabled (fun _ m _ => run.main m) at_pc
  exact fun c at_pc => SendState.iterates_of_busy (at_pc ▸ busy)

end EndlessRun

namespace ServingRun

open NodeState

variable {cfg : BridgeConfig} {origin : SendState} {n m last : ℕ}
  {trace : (sendNode cfg).Trace (fun _ _ => True) origin}

theorem idle (run : ServingRun trace) (n : ℕ) :
    (bridgeNode cfg).Reaches StartsWhenIdle (trace.state n).node :=
  reaches_startsWhenIdle run.only (sendNode_refines (run.reaches n))

theorem orderly (run : ServingRun trace) (n : ℕ) : (trace.state n).node.Orderly cfg :=
  Orderly.of_reaches (run.idle n) (run.running n) fun _ _ idle => idle

/-- No window is opened from the position on. -/
def Unopened (trace : (sendNode cfg).Trace (fun _ _ => True) origin) (last : ℕ) : Prop :=
  ∀ n, last ≤ n -> (trace.state n).node.windows = (trace.state last).node.windows

/-- After the last window no step starts a fault. -/
theorem unstarted (run : ServingRun trace) (unopened : Unopened trace last) (after : last ≤ n) :
    (trace.state (n + 1)).node = (trace.state n).node ∨ ∃ action,
      FaultStep cfg (trace.state n).node action (trace.state (n + 1)).node ∧
        startsFault (trace.state n).node action = false := by
  rcases run.fault n with same | ⟨action, step⟩
  · exact .inl same
  · refine .inr ⟨action, step, Bool.eq_false_iff.mpr ?_⟩
    intro starts
    have opened := (step.opened_of_starts starts).2.1
    have same := (unopened (n + 1) (by omega)).trans (unopened n after).symm
    omega

/-- The last window ends. -/
theorem window_ends (run : ServingRun trace) (unopened : Unopened trace last) :
    ∃ m, last ≤ m ∧ (trace.state m).node.nodeFaultActive = false := by
  by_contra never
  have active : ∀ m, last ≤ m -> (trace.state m).node.nodeFaultActive = true := by
    intro m after
    by_contra inactive
    exact never ⟨m, after, Bool.eq_false_iff.mpr inactive⟩
  have deadline : ∀ m, last ≤ m ->
      (trace.state m).node.nodeFaultUntil = (trace.state last).node.nodeFaultUntil := by
    intro m after
    induction m, after using Nat.le_induction with
    | base => rfl
    | succ m after ih =>
        rcases run.unstarted unopened after with same | ⟨action, step, starts⟩
        · rw [same]
          exact ih
        · exact (step.window_kept starts).1.trans ih
  rcases run.clock (trace.state last).node.nodeFaultUntil with ⟨late, passed⟩
  -- the monitor cannot come closer for ever to finding the window expired
  have impossible : ∃ m, max last late ≤ m ∧ False := by
    refine Machine.Trace.leads_to_of_descent (P := fun m => max last late ≤ m)
      (fun m => monitorRank ((trace.state m).node.pc .monitor)) ?_ le_rfl
    intro m after
    have finds : ∀ k, m ≤ k -> ∃ t, nodeStep cfg (trace.state k).node (.run .monitor) = some t ∧
        (t.phases .monitor = some .swap ∨
          monitorRank (t.pc .monitor) < monitorRank ((trace.state k).node.pc .monitor)) := by
      intro k later
      have open_ := active k (by omega)
      apply monitor_step cfg (run.running k) _ open_ _
        ((run.orderly k).cached.not_swapping open_ .monitor)
      · exact awake_of_reaches (sendNode_refines (run.reaches k)) (run.running k)
      · rw [deadline k (by omega)]
        exact passed.trans (run.clock_mono (by omega))
    have steps : ∃ k, m ≤ k ∧
        (trace.state k).node.pc .monitor = (trace.state m).node.pc .monitor ∧
        trace.action k = .node (.run .monitor) := by
      apply run.takes_step _ (fun _ _ => rfl) _ (fun _ k _ => run.main k) rfl
      · intro s t action step at_pc other
        refine (step.pc_unread ?_ (by decide) other).trans at_pc
        intro channel
        cases channel <;> exact Thread.noConfusion
      · intro k later _
        rcases finds k later with ⟨t, stepped, -⟩
        rw [stepped]
        exact Option.some_ne_none t
    rcases steps with ⟨k, later, at_pc, own⟩
    rcases finds k later with ⟨t, stepped, swaps | lower⟩
    · rw [← FairSend.own_step own stepped] at swaps
      exact absurd swaps ((run.orderly (k + 1)).cached.not_swapping (active (k + 1) (by omega)) _)
    · rw [← FairSend.own_step own stepped, at_pc] at lower
      exact ⟨k + 1, by omega, .inl ⟨by omega, lower⟩⟩
  rcases impossible with ⟨m, -, impossible⟩
  exact impossible

theorem stays_inactive (run : ServingRun trace) (unopened : Unopened trace last)
    (begins : last ≤ n) (inactive : (trace.state n).node.nodeFaultActive = false) (after : n ≤ m) :
    (trace.state m).node.nodeFaultActive = false := by
  induction m, after using Nat.le_induction with
  | base => exact inactive
  | succ m after ih =>
      rcases run.unstarted unopened (begins.trans after) with same | ⟨action, step, starts⟩
      · rw [same]
        exact ih
      · rcases step.active_cases starts with kept | ⟨closed, -⟩
        · exact kept.trans ih
        · exact closed

/-- The recovery from the last window ends. -/
theorem recovery_ends (run : ServingRun trace) (n : ℕ) :
    ∃ m, n ≤ m ∧ (trace.state m).node.nodeFaultRecovering = false := by
  by_contra never
  have recovering : ∀ m, n ≤ m -> (trace.state m).node.nodeFaultRecovering = true := by
    intro m after
    by_contra settled
    exact never ⟨m, after, Bool.eq_false_iff.mpr settled⟩
  rcases (run.orderly n).exclusive.flagged.mp (recovering n le_rfl) with ⟨thread, flushing⟩
  have at_flush : ∃ (resume : Resume thread) (phase : FlushPhase),
      (trace.state n).node.pc thread = .flushing resume phase := by
    cases at_pc : (trace.state n).node.pc thread with
    | flushing resume phase => exact ⟨resume, phase, rfl⟩
    | _ => simp [phases, at_pc, Pc.phase?] at flushing
  rcases at_flush with ⟨resume, phase, at_flush⟩
  have impossible : ∃ m, n ≤ m ∧ False := by
    refine Machine.Trace.leads_to_of_descent
      (P := fun m => n ≤ m ∧ ∃ phase, (trace.state m).node.pc thread = .flushing resume phase)
      (fun m => ((trace.state m).node.pc thread).work) ?_ ⟨le_rfl, phase, at_flush⟩
    rintro m ⟨after, phase, at_flush⟩
    have steps : ∃ k, m ≤ k ∧ (trace.state k).node.pc thread = .flushing resume phase ∧
        trace.action k = .node (.run thread) := by
      apply run.steps_from (by simp) _ at_flush
      intro k _ at_pc
      rcases @flush_step cfg _ _ _ _ at_pc with ⟨t, stepped, -⟩
      rw [stepped]
      exact Option.some_ne_none t
    rcases steps with ⟨k, later, at_pc, own⟩
    rcases @flush_step cfg _ _ _ _ at_pc with ⟨t, stepped, settled | ⟨goes_on, lower⟩⟩
    · rw [← FairSend.own_step own stepped, recovering (k + 1) (by omega)] at settled
      cases settled
    · rw [← FairSend.own_step own stepped] at goes_on lower
      rw [at_pc, ← at_flush] at lower
      exact ⟨k + 1, by omega, .inl ⟨⟨by omega, goes_on⟩, lower⟩⟩
  rcases impossible with ⟨m, -, impossible⟩
  exact impossible

/-- From some position after its last window on the node is not busy. -/
theorem settles (run : ServingRun trace) (unopened : Unopened trace last) :
    ∃ rest, last ≤ rest ∧ ∀ n, rest ≤ n -> (trace.state n).node.isNodeFaultBusy = false := by
  rcases run.window_ends unopened with ⟨closed, after, inactive⟩
  rcases run.recovery_ends closed with ⟨rest, later, settled⟩
  refine ⟨rest, after.trans later, fun n onward => ?_⟩
  induction n, onward using Nat.le_induction with
  | base =>
      exact Bool.or_eq_false_iff.mpr
        ⟨run.stays_inactive unopened after inactive later, settled⟩
  | succ n onward ih =>
      rcases run.unstarted unopened (n := n) (by omega) with same | ⟨action, step, starts⟩
      · rw [same]
        exact ih
      · exact calm_kept ih starts step

end ServingRun

/-- A run that comes to rest before the shutdown can be continued without end. -/
theorem EndlessRun.exists_of_path {cfg : BridgeConfig} {origin c : SendState}
    (reached : (sendNode cfg).Reachable origin)
    (path : (sendNode cfg).Path (fun _ _ => True) origin c) (resting : c.Resting cfg)
    (running : c.node.nodeFaultThreadRunning = true) :
    ∃ trace : (sendNode cfg).Trace (fun _ _ => True) origin, EndlessRun trace ∧
      ∃ rest, ∀ n, rest ≤ n -> (trace.state n).node.windows = c.node.windows := by
  rcases FairSend.exists_of_path reached path resting with ⟨trace, fair, clock, rest, still⟩
  have later : ∀ n, rest ≤ n -> (trace.state n).node.nodeFaultThreadRunning = true ∧
      (trace.state n).node.windows = c.node.windows := by
    intro n after
    rcases still n after with ⟨time, same⟩
    rw [same]
    exact ⟨running, rfl⟩
  -- a node that has been stopped is not started again
  have before : Antitone fun n => (trace.state n).node.nodeFaultThreadRunning = true := by
    apply antitone_nat_of_succ_le
    intro m running
    rcases (FairSend.step trace m).node with same | ⟨action, stepped⟩
    · rwa [same] at running
    · have step := nodeStep_cases stepped
      exact (step.running_eq (step.notStop_of_running running)).symm.trans running
  refine ⟨trace, ⟨fair, fun n => ?_, clock⟩, rest, fun n after => (later n after).2⟩
  exact before (le_max_left n rest) (later _ (le_max_right n rest)).1

/-- It then settles, when its faults come from the control server. -/
theorem SettlingRun.exists_of_path {cfg : BridgeConfig} {origin c : SendState}
    (only : cfg.ControlOnly) (reached : (sendNode cfg).Reachable origin)
    (path : (sendNode cfg).Path (fun _ _ => True) origin c) (resting : c.Resting cfg)
    (running : c.node.nodeFaultThreadRunning = true) :
    ∃ trace : (sendNode cfg).Trace (fun _ _ => True) origin, SettlingRun trace := by
  rcases EndlessRun.exists_of_path reached path resting running with ⟨trace, run, rest, unopened⟩
  refine ⟨trace, ⟨run, only⟩, rest, fun n after => ?_⟩
  rw [unopened n after, unopened rest le_rfl]

end SwarmBridge
