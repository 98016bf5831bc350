import SwarmBridge.Control.SteadyTicks
import SwarmBridge.Control.Gate

namespace SwarmBridge

open Foundation

/-!
# How long an accepted fault lasts

A request is accepted for every positive duration, and the answer confirms it.  The
fault lasts as long when the steady clock can be set for it: then no other section
ends the window before the deadline, and the deadline is the one that was asked for.
The steps of the node read the clock in seconds; here it shows whole ticks.
-/

/-- A configuration of a node on the steady clock: where the conversion of a duration is
defined, it gives these ticks. -/
structure SteadyConfig extends BridgeConfig where
  cast : ∀ sec ticks, durationTicks (.finite sec) = some ticks ->
    durationCast sec = ticks / ticksPerSec

/-- The time, in seconds, at which the clock shows these ticks. -/
def tickTime (ticks : ℤ) : ℚ := ticks / ticksPerSec

/-- `handle_control_request` accepts the request: it finds the node idle, and after any
steps of the other threads it starts the fault. -/
structure Accepts (cfg : BridgeConfig) (server : ControlServer) (requestText : Text)
    (duration : Double) (before started : NodeState) : Prop where
  valid : server.checkRequest requestText = .ok duration
  reached : ∃ s granted, (bridgeNode cfg).Reachable s ∧ s.isNodeFaultBusy = false ∧
    nodeStep cfg s (.request (server.seconds duration)) = some granted ∧
    (bridgeNode cfg).Path (fun _ action => action ≠ .run .control) granted before
  starts : nodeStep cfg before (.run .control) = some started

/-- The step neither starts a fault nor stops the fault control. -/
def KeepsFault (s : NodeState) (action : Action) : Prop :=
  action ≠ .stop ∧ startsFault s action = false

/-- The fault started at this reading of the clock lasts as long as requested: nothing
overflows, the deadline is within a tick of the requested one, and the fault is active
up to a tick before that, whatever else happens. -/
structure LastsAsRequested (cfg : BridgeConfig) (now : ℤ) (duration : Double)
    (started : NodeState) : Prop where
  set : ∃ deadline, faultUntil now duration = some deadline
  near : ∃ sec, duration = .finite sec ∧
    |started.nodeFaultUntil - (tickTime now + sec)| ≤ 1 / ticksPerSec
  active : ∀ sec, duration = .finite sec ->
    ∀ s, (bridgeNode cfg).Path KeepsFault started s ->
      s.now < tickTime now + sec - 1 / ticksPerSec -> s.isNodeFaultActiveLocked = true

/-! ## From the request to the start -/

namespace NodeState

variable {cfg : BridgeConfig} {s t : NodeState}

/-- The control server is stopped before the fault control. -/
theorem running_of_serving (run : (bridgeNode cfg).Reachable s)
    (serving : s.pc .control ≠ .stopped) : s.nodeFaultThreadRunning = true := by
  refine (run.invariant (P := fun s => s.pc .control = .stopped ∨ s.nodeFaultThreadRunning = true)
    ?_ ?_).resolve_left serving
  · rintro s ⟨now, rfl⟩
    exact .inr rfl
  · intro s action t _ holds _ stepped
    have step := nodeStep_cases stepped
    by_cases stops : action = .stop
    · subst stops
      cases step
      exact .inl (by rw [stopNodeFaultControl, move_pc, Function.update_self])
    · refine holds.imp (fun stopped => ?_) (fun running => (step.running_eq stops).trans running)
      have other : action ≠ .run .control := by
        rintro rfl
        simp only [bridgeNode, nodeStep, stopped, section?] at stepped
        cases stepped
      exact (step.pc_busy (fun idle => by rw [stopped] at idle; cases idle) other).trans stopped

/-- Until the deadline, nothing but another start or the stop touches the fault. -/
theorem active_before_deadline (run : (bridgeNode cfg).Reachable s)
    (running : s.nodeFaultThreadRunning = true) (opened : 0 < s.windows)
    (path : (bridgeNode cfg).Path KeepsFault s t) (early : t.now < s.nodeFaultUntil) :
    t.isNodeFaultActiveLocked = true := by
  have kept := path.invariant
    (P := fun t => (bridgeNode cfg).Reachable t ∧ t.nodeFaultThreadRunning = true ∧
      t.nodeFaultUntil = s.nodeFaultUntil ∧ t.windows = s.windows)
    ⟨run, running, rfl, rfl⟩ ?_
  · rcases kept with ⟨reached, running, deadline, windows⟩
    have inside : t.inWindow = true :=
      inWindow_eq_true_iff.mpr ⟨windows ▸ opened, deadline ▸ early⟩
    exact isNodeFaultActiveLocked_eq_true_iff.mpr
      ⟨openInWindow_of_reaches reached running inside, deadline ▸ early⟩
  · rintro s action t ⟨reached, running, deadline, windows⟩ ⟨notStop, starts⟩ stepped
    have step := nodeStep_cases stepped
    have window := (step.fault notStop).window_kept starts
    exact ⟨reached.next trivial stepped, (step.running_eq notStop).trans running,
      window.1.trans deadline, window.2.trans windows⟩

end NodeState

namespace Accepts

variable {cfg : BridgeConfig} {server : ControlServer} {requestText : Text} {duration : Double}
  {before started : NodeState}

theorem positive (accepts : Accepts cfg server requestText duration before started) :
    0 < server.seconds duration :=
  server.seconds_pos_of_checked accepts.valid

theorem ready (accepts : Accepts cfg server requestText duration before started) :
    (bridgeNode cfg).Reachable before ∧
      before.pc .control = .granted (server.seconds duration) ∧
      before.nodeFaultThreadRunning = true := by
  rcases accepts.reached with ⟨s, granted, reached, idle, grants, others⟩
  rcases nodeStep_grant accepts.positive idle grants with ⟨waits, rfl⟩
  have running : s.nodeFaultThreadRunning = true :=
    NodeState.running_of_serving reached (by simp [waits])
  have stepped : (bridgeNode cfg).step s (.request (server.seconds duration)) =
    some (s.move .control (.granted (server.seconds duration))) := grants
  rcases reached.next trivial stepped with ⟨origin, initial, path⟩
  refine ⟨⟨origin, initial, path.trans (others.mono fun _ _ _ => trivial)⟩, ?_⟩
  exact granted_path others (fun _ _ other => other)
    (by rw [NodeState.move_pc, Function.update_self]) running

/-- An accepted request has opened a window for its duration. -/
theorem started_eq (accepts : Accepts cfg server requestText duration before started) :
    started = (before.openWindow cfg (server.seconds duration)).move .control
      (.notifyOne (.inl rfl)) := by
  rcases accepts.ready with ⟨-, at_start, running⟩
  have starts := accepts.starts
  rw [nodeStep_start accepts.positive at_start running, Option.some.injEq] at starts
  exact starts.symm

/-- The fault is active until its deadline. -/
theorem active (accepts : Accepts cfg server requestText duration before started)
    {s : NodeState} (path : (bridgeNode cfg).Path KeepsFault started s)
    (early : s.now < started.nodeFaultUntil) : s.isNodeFaultActiveLocked = true := by
  rcases accepts.ready with ⟨reached, -, running⟩
  have stepped : (bridgeNode cfg).step before (.run .control) = some started := accepts.starts
  refine NodeState.active_before_deadline (reached.next trivial stepped) ?_ ?_ path early
  · rw [accepts.started_eq]
    exact running
  · rw [accepts.started_eq]
    exact Nat.succ_pos before.windows

end Accepts

/-- Every request that the gate answers with success is accepted in this sense. -/
theorem Handled.accepts {cfg : BridgeConfig} {server : ControlServer} {requestText response : Text}
    {s t : NodeState} (handled : Handled cfg server requestText s response t)
    (reached : (bridgeNode cfg).Reachable s) (ok : SaysOk response) :
    ∃ duration before, response = server.granted duration ∧
      Accepts cfg server requestText duration before t := by
  cases handled with
  | refused failed =>
      rcases server.refusal_of_checkRequest failed with ⟨reason, rfl⟩
      exact absurd ok (server.not_saysOk_refusal reason)
  | busy => exact absurd ok (server.not_saysOk_refusal _)
  | started valid idle grants others starts =>
      exact ⟨_, _, rfl, valid, ⟨s, _, reached, idle, grants,
        others.mono fun _ _ undisturbed => undisturbed.1⟩, starts⟩

/-- A node that has just been set up accepts every valid request. -/
theorem Accepts.at_once (cfg : BridgeConfig) (only : cfg.ControlOnly) {server : ControlServer}
    {requestText : Text} {duration : Double}
    (valid : server.checkRequest requestText = .ok duration) (now : ℚ) :
    ∃ before started, Accepts cfg server requestText duration before started ∧
      before.now = now := by
  have positive := server.seconds_pos_of_checked valid
  have serving : (NodeState.initial cfg now).scheduled cfg = true := by
    have schedule : cfg.nodeFault = none := only
    rw [NodeState.scheduled, schedule]
  have grants : nodeStep cfg (NodeState.initial cfg now) (.request (server.seconds duration)) =
      some ((NodeState.initial cfg now).move .control (.granted (server.seconds duration))) :=
    nodeStep_request positive serving rfl rfl
  have at_start : ((NodeState.initial cfg now).move .control
      (.granted (server.seconds duration))).pc .control = .granted (server.seconds duration) := by
    rw [NodeState.move_pc, Function.update_self]
  exact ⟨_, _, ⟨valid, ⟨_, _, ⟨_, ⟨now, rfl⟩, .refl⟩, rfl, grants, .refl⟩,
    nodeStep_start positive at_start rfl⟩, rfl⟩

/-! ## The deadline -/

theorem ticksPerSec_pos : 0 < ticksPerSec := by norm_num [ticksPerSec]

/-- Distances in seconds and in ticks. -/
theorem abs_tickTime_sub_le_iff (deadline now : ℤ) (sec : ℚ) :
    |tickTime deadline - (tickTime now + sec)| ≤ 1 / ticksPerSec ↔
      |(deadline : ℚ) - (now + sec * ticksPerSec)| ≤ 1 := by
  have scaled : tickTime deadline - (tickTime now + sec) =
      (deadline - (now + sec * ticksPerSec)) / ticksPerSec := by
    have nonzero := ticksPerSec_pos.ne'
    rw [tickTime, tickTime]
    field_simp
  rw [scaled, abs_div, abs_of_pos ticksPerSec_pos, div_le_div_iff_of_pos_right ticksPerSec_pos]

/-- Where the end of a fault is defined, the node stores it. -/
theorem Accepts.nodeFaultUntil_eq {cfg : SteadyConfig} {server : ControlServer}
    {requestText : Text} {sec : ℚ} {before started : NodeState}
    (accepts : Accepts cfg.toBridgeConfig server requestText (.finite sec) before started)
    {now deadline : ℤ} (clock : before.now = tickTime now)
    (set : faultUntil now (.finite sec) = some deadline) :
    started.nodeFaultUntil = tickTime deadline := by
  rcases Option.bind_eq_some_iff.mp set with ⟨ticks, cast, sum⟩
  have ends : deadline = now + ticks := by
    unfold toInt64 at sum
    split_ifs at sum
    exact (Option.some.inj sum).symm
  have stored : started.nodeFaultUntil = before.now + cfg.durationCast sec := by
    rw [accepts.started_eq]
    rfl
  rw [stored, clock, cfg.cast sec ticks cast, tickTime, tickTime, ends, Int.cast_add, add_div]

/-- An accepted fault lasts as long as requested exactly when the clock can be set for
its duration. -/
theorem accepted_fault_lasts_iff (cfg : SteadyConfig) (server : ControlServer)
    (requestText : Text) (duration : Double) (before started : NodeState)
    (accepts : Accepts cfg.toBridgeConfig server requestText duration before started) (now : ℤ)
    (representable : -2 ^ 63 ≤ now ∧ now < 2 ^ 63) (clock : before.now = tickTime now) :
    LastsAsRequested cfg.toBridgeConfig now duration started ↔
      ∃ sec, duration = .finite sec ∧ Settable now (sec * ticksPerSec) := by
  constructor
  · rintro ⟨⟨deadline, set⟩, ⟨sec, rfl, near⟩, -⟩
    have positive : 0 < sec := accepts.positive
    rw [accepts.nodeFaultUntil_eq clock set, abs_tickTime_sub_le_iff] at near
    exact ⟨sec, rfl, (faultUntil_near_iff representable.1 positive).mp ⟨deadline, set, near⟩⟩
  · rintro ⟨sec, rfl, settable⟩
    have positive : 0 < sec := accepts.positive
    rcases (faultUntil_near_iff representable.1 positive).mpr settable with ⟨deadline, set, near⟩
    rw [← abs_tickTime_sub_le_iff, ← accepts.nodeFaultUntil_eq clock set] at near
    refine ⟨⟨deadline, set⟩, ⟨sec, rfl, near⟩, fun sec' same s path early => ?_⟩
    cases same
    refine accepts.active path (early.trans_le ?_)
    linarith [(abs_le.mp near).1]

/-! ## A long fault and a short one -/

/-- The conversion of a duration, in seconds; zero stands for what is undefined. -/
def steadySeconds (sec : ℚ) : ℚ :=
  (durationTicks (.finite sec)).elim 0 fun ticks => ticks / ticksPerSec

theorem steadySeconds_eq (sec : ℚ) (ticks : ℤ) (cast : durationTicks (.finite sec) = some ticks) :
    steadySeconds sec = ticks / ticksPerSec := by
  rw [steadySeconds, cast, Option.elim_some]

/-- A node without topics on the steady clock. -/
def bareConfig : SteadyConfig where
  sendTopics := []
  recvTopics := []
  nodeFault := none
  durationCast := steadySeconds
  undefinedSize := fun _ => 0
  cast := steadySeconds_eq

/-- A server that checks no token, with the two texts that the requests below hold. -/
def openServer : ControlServer where
  nodeId := []
  token := []
  stod := fun text =>
    if text = literal "1e10" then some (.finite (10 ^ 10), 4)
    else if text = literal "2" then some (.finite 2, 1) else none
  printed := fun _ => []
  overflowSec := ⟨1, one_pos⟩

/-- A fault of `1e10` seconds is accepted, and its end is beyond the clock. -/
theorem accepted_fault_overflows :
    ¬ ∀ (cfg : SteadyConfig) (server : ControlServer) (requestText : Text) (duration : Double)
      (before started : NodeState),
      Accepts cfg.toBridgeConfig server requestText duration before started -> ∀ now : ℤ,
        -2 ^ 63 ≤ now ∧ now < 2 ^ 63 -> before.now = tickTime now ->
          LastsAsRequested cfg.toBridgeConfig now duration started := by
  intro claim
  have valid : openServer.checkRequest (literal "command=start_node_fault;duration_sec=1e10") =
      .ok (.finite (10 ^ 10)) := by decide +kernel
  rcases Accepts.at_once bareConfig.toBridgeConfig rfl valid (tickTime 0)
    with ⟨before, started, accepts, clock⟩
  rcases (claim _ _ _ _ _ _ accepts 0 (by norm_num) clock).set with ⟨deadline, set⟩
  have fits := ((faultUntil_eq_some_iff (by norm_num) (by norm_num)).mp set).1
  norm_num [ticksPerSec] at fits

/-- A fault of two seconds lasts two seconds. -/
theorem accepted_fault_lasts_short :
    ∃ before started : NodeState, Accepts bareConfig.toBridgeConfig openServer
        (literal "command=start_node_fault;duration_sec=2") (.finite 2) before started ∧
      LastsAsRequested bareConfig.toBridgeConfig 0 (.finite 2) started := by
  have valid : openServer.checkRequest (literal "command=start_node_fault;duration_sec=2") =
      .ok (.finite 2) := by decide +kernel
  rcases Accepts.at_once bareConfig.toBridgeConfig rfl valid (tickTime 0)
    with ⟨before, started, accepts, clock⟩
  have settable : Settable 0 (2 * ticksPerSec) := by
    refine settable_of_short ?_ ?_ ?_ <;> norm_num [ticksPerSec]
  exact ⟨before, started, accepts, (accepted_fault_lasts_iff bareConfig openServer _ _ before
    started accepts 0 (by norm_num) clock).mpr ⟨2, rfl, settable⟩⟩

end SwarmBridge
