import SwarmBridge.Recovery.Settles

namespace SwarmBridge

open Foundation

/-!
# The startup fault

`schedule_node_fault` leaves one start for later: a detached thread sleeps until the start is
due and calls `start_node_fault` once, whatever the control server and the other threads do.
That it does so is a law of fair runs, and that it does so once is a law of all runs.
-/

/-- The startup thread starts its fault in the step. -/
def StartsUp {cfg : BridgeConfig} {origin : SendState}
    (trace : (sendNode cfg).Trace (fun _ _ => True) origin) (n : ℕ) : Prop :=
  trace.action n = .node (.run .startup) ∧
    startsFault (trace.state n).node (.run .startup) = true

namespace StartsUp

open NodeState

variable {cfg : BridgeConfig} {origin : SendState} {n m : ℕ} {wake durationSec : ℚ}
  {trace : (sendNode cfg).Trace (fun _ _ => True) origin}

/-- The startup thread is before its start. -/
theorem sleeping (starts : startsFault (trace.state n).node (.run .startup) = true) :
    ∃ wake durationSec, (trace.state n).node.pc .startup = .sleeping wake durationSec := by
  simp only [startsFault] at starts
  split at starts
  case h_1 wake durationSec at_sleep => exact ⟨wake, durationSec, at_sleep⟩
  case h_2 => cases starts

theorem quiet_step (trace : (sendNode cfg).Trace (fun _ _ => True) origin)
    (quiet : ((trace.state n).node.pc .startup).quiet = true) :
    ((trace.state (n + 1)).node.pc .startup).quiet = true := by
  rcases (FairSend.step trace n).node with same | ⟨action, stepped⟩
  · rwa [same]
  · cases (nodeStep_cases stepped).starter with
    | same _ startup => rwa [startup]
    | granted _ _ startup => rwa [startup]
    | left _ startup => rwa [startup]
    | startup _ quiet => exact quiet

/-- After a start the startup thread does not sleep again. -/
theorem quiet_after (starts : StartsUp trace n) (later : n < m) :
    ((trace.state m).node.pc .startup).quiet = true := by
  induction m, later using Nat.le_induction with
  | base =>
      have step := FairSend.step trace n
      rw [starts.1] at step
      generalize trace.state (n + 1) = after at step
      cases step with
      | moved _ _ stepped => exact (nodeStep_cases stepped).quiet_after (.inr rfl)
  | succ m _ ih => exact quiet_step trace ih

/-- No run starts the startup fault twice. -/
theorem unique (first : StartsUp trace n) (second : StartsUp trace m) : n = m := by
  have apart : ∀ {i j : ℕ}, StartsUp trace i -> StartsUp trace j -> ¬ i < j := by
    intro i j earlier later before
    have quiet := earlier.quiet_after before
    rcases sleeping later.2 with ⟨wake, durationSec, at_sleep⟩
    rw [at_sleep] at quiet
    cases quiet
  exact Nat.le_antisymm (not_lt.mp (apart second first)) (not_lt.mp (apart first second))

end StartsUp

namespace EndlessRun

open NodeState

variable {cfg : BridgeConfig} {origin : SendState} {n : ℕ} {wake durationSec : ℚ}
  {trace : (sendNode cfg).Trace (fun _ _ => True) origin}

/-- What the sleeping thread does when it wakes up. -/
theorem starts_up (run : EndlessRun trace) (positive : 0 < durationSec)
    (at_sleep : (trace.state n).node.pc .startup = .sleeping wake durationSec)
    (own : trace.action n = .node (.run .startup)) :
    StartsUp trace n ∧ wake ≤ (trace.state n).node.now ∧
      (trace.state (n + 1)).node =
        ((trace.state n).node.openWindow cfg durationSec).move .startup (.notifyOne (.inr rfl)) := by
  have step := FairSend.step trace n
  rw [own] at step
  generalize trace.state (n + 1) = after at step
  cases step with
  | moved _ _ stepped =>
      simp only [nodeStep, section?, at_sleep] at stepped
      split_ifs at stepped with due
      have running := run.running n
      refine ⟨⟨own, ?_⟩, due, ?_⟩
      · simp [startsFault, at_sleep, due, positive, running]
      · simp only [startNodeFault, if_neg (not_le.mpr positive), running, if_true,
          Option.some.injEq] at stepped
        exact stepped.symm

/-- The sleeping thread wakes up. -/
theorem wakes_up (run : EndlessRun trace)
    (at_sleep : (trace.state n).node.pc .startup = .sleeping wake durationSec) :
    ∃ m, n ≤ m ∧ (trace.state m).node.pc .startup = .sleeping wake durationSec ∧
      trace.action m = .node (.run .startup) := by
  rcases run.clock wake with ⟨late, due⟩
  have stays : ∀ m, (trace.state m).node.pc .startup = .sleeping wake durationSec ->
      trace.action m ≠ .node (.run .startup) ->
      (trace.state (m + 1)).node.pc .startup = .sleeping wake durationSec := by
    intro m at_sleep other
    have step := FairSend.step trace m
    generalize trace.action m = action at step other
    generalize trace.state (m + 1) = after at step
    cases step with
    | moved _ _ stepped =>
        refine ((nodeStep_cases stepped).pc_busy ?_ fun own => other (congrArg _ own)).trans at_sleep
        simp [at_sleep]
    | _ => exact at_sleep
  have keeps : ∀ m, (trace.state m).node.pc .startup = .sleeping wake durationSec ->
      (trace.state (m + 1)).node.pc .startup = .sleeping wake durationSec ∨
        ((trace.state m).node.pc .startup = .sleeping wake durationSec ∧
          trace.action m = .node (.run .startup)) := by
    intro m at_sleep
    by_cases own : trace.action m = .node (.run .startup)
    · exact .inr ⟨at_sleep, own⟩
    · exact .inl (stays m at_sleep own)
  rcases Machine.Trace.stays_or_leaves keeps at_sleep (le_max_left n late) with still | taken
  · have enabled : ∀ m, max n late ≤ m ->
        (trace.state m).node.pc .startup = .sleeping wake durationSec ->
        nodeStep cfg (trace.state m).node (.run .startup) ≠ none := by
      intro m after at_sleep
      have passed : wake ≤ (trace.state m).node.now :=
        due.trans (run.clock_mono ((le_max_right n late).trans after))
      simp [nodeStep, section?, at_sleep, passed]
    rcases run.steps_from (by simp) enabled still with ⟨m, after, at_sleep, own⟩
    exact ⟨m, (le_max_left n late).trans after, at_sleep, own⟩
  · exact taken

end EndlessRun

/-- The startup fault.  In every fair run before the shutdown, from the start of the node on,
the fault that the configuration schedules is started exactly once, not before it is due, and
the start sets the deadline of its window to the start plus the converted duration. -/
theorem startup_fault_starts_once {cfg : BridgeConfig} {now startAfter durationSec : ℚ}
    {trace : (sendNode cfg).Trace (fun _ _ => True) (SendState.initial cfg now)}
    (run : EndlessRun trace) (given : cfg.nodeFault = some (startAfter, durationSec))
    (positive : 0 < durationSec) :
    ∃ n, StartsUp trace n ∧ (∀ m, StartsUp trace m -> m = n) ∧
      now + startAfter ≤ (trace.state n).node.now ∧
      (trace.state (n + 1)).node.nodeFaultActive = true ∧
      (trace.state (n + 1)).node.windows = (trace.state n).node.windows + 1 ∧
      (trace.state (n + 1)).node.nodeFaultUntil =
        (trace.state n).node.now + cfg.durationCast durationSec := by
  have at_sleep : (trace.state 0).node.pc .startup = .sleeping (now + startAfter) durationSec := by
    rw [trace.begins]
    simp [SendState.initial, NodeState.initial, given, positive]
  rcases run.wakes_up at_sleep with ⟨n, -, at_sleep, own⟩
  rcases run.starts_up positive at_sleep own with ⟨starts, due, opened⟩
  refine ⟨n, starts, fun m again => again.unique starts, due, ?_⟩
  rw [opened]
  exact ⟨rfl, rfl, rfl⟩

/-- A fault of two seconds, one second after the start. -/
def scheduledConfig : BridgeConfig := { slowConfig with nodeFault := some (1, 2) }

/-- The fault comes and goes. -/
def startupSchedule : List SendAction :=
  [.node (.run (.worker 0)), .wait 0, .node (.run .monitor), .node (.advance 1),
    .node (.run .startup), .node (.run .startup), .node (.advance 3), .node (.run .monitor),
    .node (.run .monitor), .node (.run .monitor), .node (.run .monitor)]

/-- It starts once in a fair run. -/
theorem startup_fault_starts_once_scheduled :
    ∃ trace : (sendNode scheduledConfig).Trace (fun _ _ => True)
        (SendState.initial scheduledConfig 0),
      ∃ n, StartsUp trace n ∧ (∀ m, StartsUp trace m -> m = n) ∧ 1 ≤ (trace.state n).node.now := by
  have executed : ((sendNode scheduledConfig).exec (fun _ _ => True)
      (SendState.initial scheduledConfig 0) startupSchedule).map (fun d =>
      (d.node.nodeFaultThreadRunning, decide d.Idles)) = some (true, true) := by
    decide +kernel
  rcases Option.map_eq_some_iff.mp executed with ⟨d, steps, observed⟩
  simp only [Prod.mk.injEq, decide_eq_true_eq] at observed
  have reached : (sendNode scheduledConfig).Reachable (SendState.initial scheduledConfig 0) :=
    ⟨_, ⟨0, rfl⟩, .refl⟩
  have path : (sendNode scheduledConfig).Path (fun _ _ => True)
      (SendState.initial scheduledConfig 0) d := Machine.path_of_exec steps
  have resting : d.Resting scheduledConfig :=
    lone_resting (reached.imp fun _ => .imp_right fun before => before.trans path) slow_single
      slow_absent observed.2
  rcases EndlessRun.exists_of_path reached path resting observed.1 with ⟨trace, run, -⟩
  rcases startup_fault_starts_once run rfl two_pos with ⟨n, starts, unique, due, -⟩
  exact ⟨trace, n, starts, unique, (zero_add (1 : ℚ)).ge.trans due⟩

end SwarmBridge
