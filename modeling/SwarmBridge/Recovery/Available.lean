import SwarmBridge.Control.Gate
import SwarmBridge.Recovery.Settles

namespace SwarmBridge

open Foundation

/-!
# The node can be asked again

A busy node turns requests away, so it matters that it is not busy for ever.  Each window
ends, and so does each recovery, whatever comes in between.  A request that finds the node
idle opens its window, and as long as requests arrive windows are opened: a request is
refused for another window only.
-/

namespace ServingRun

open NodeState

variable {cfg : BridgeConfig} {origin : SendState} {n m : ℕ} {durationSec : ℚ}
  {trace : (sendNode cfg).Trace (fun _ _ => True) origin}

/-- Only the control thread starts a fault. -/
theorem starter (run : ServingRun trace) {action : Action}
    (starts : startsFault (trace.state n).node action = true) : action = .run .control := by
  have handshake := ControlHandshake.of_reachable run.only (sendNode_refines (run.reaches n))
  cases action with
  | run thread =>
      cases thread with
      | control => rfl
      | startup =>
          simp only [startsFault] at starts
          split at starts
          case h_1 wake duration at_sleep =>
            exact absurd at_sleep (handshake.not_sleeping wake duration)
          case h_2 => cases starts
      | _ => cases starts
  | _ => cases starts

/-- A step of another thread, or none of the node, leaves a granted request as it is, and
opens no window. -/
theorem granted_kept (run : ServingRun trace) (other : trace.action n ≠ .node (.run .control))
    (granted : (trace.state n).node.pc .control = .granted durationSec) :
    (trace.state (n + 1)).node.pc .control = .granted durationSec ∧
      (trace.state (n + 1)).node.windows = (trace.state n).node.windows := by
  have step := FairSend.step trace n
  have running := run.running (n + 1)
  generalize trace.action n = taken at step other
  generalize trace.state (n + 1) = after at step running
  cases step with
  | @moved action _ _ _ stepped =>
      have step := nodeStep_cases stepped
      have foreign : action ≠ .run .control := fun own => other (congrArg _ own)
      have starts : startsFault (trace.state n).node action = false :=
        Bool.eq_false_iff.mpr fun starts => foreign (run.starter starts)
      have kept := (step.fault (step.notStop_of_running running)).window_kept starts
      exact ⟨(step.granted_stays foreign granted (run.running n)).1, kept.2⟩
  | _ => exact ⟨granted, rfl⟩

/-- A granted request opens the next window. -/
theorem granted_opens (run : ServingRun trace) (positive : 0 < durationSec)
    (granted : (trace.state n).node.pc .control = .granted durationSec) :
    ∃ m, n < m ∧ (trace.state m).node.windows = (trace.state n).node.windows + 1 ∧
      (trace.state m).node.nodeFaultUntil =
        (trace.state m).node.now + cfg.durationCast durationSec := by
  have starts : ∀ m, (trace.state m).node.pc .control = .granted durationSec ->
      nodeStep cfg (trace.state m).node (.run .control) =
        some (((trace.state m).node.openWindow cfg durationSec).move .control
          (.notifyOne (.inl rfl))) :=
    fun m at_start => nodeStep_start positive at_start (run.running m)
  have taken : ∃ m, n ≤ m ∧ trace.action m = .node (.run .control) := by
    rcases run.steps_from (by simp) (fun m _ at_start => by simp [starts m at_start]) granted with
      ⟨m, after, -, own⟩
    exact ⟨m, after, own⟩
  -- nobody else opens a window before the first step of the control thread
  have held : ∀ m, n ≤ m -> m ≤ Nat.find taken ->
      (trace.state m).node.pc .control = .granted durationSec ∧
        (trace.state m).node.windows = (trace.state n).node.windows := by
    intro m after
    induction m, after using Nat.le_induction with
    | base => exact fun _ => ⟨granted, rfl⟩
    | succ m after ih =>
        intro before
        have now := ih (by omega)
        have other : trace.action m ≠ .node (.run .control) := fun own =>
          Nat.find_min taken before ⟨after, own⟩
        have kept := run.granted_kept other now.1
        exact ⟨kept.1, kept.2.trans now.2⟩
  have first := Nat.find_spec taken
  have now := held _ first.1 le_rfl
  refine ⟨Nat.find taken + 1, by omega, ?_⟩
  rw [FairSend.own_step first.2 (starts _ now.1), ← now.2]
  exact ⟨rfl, rfl⟩

/-- A request that finds the node idle opens the next window. -/
theorem request_opens (run : ServingRun trace) (positive : 0 < durationSec)
    (asked : trace.action n = .node (.request durationSec))
    (calm : (trace.state n).node.isNodeFaultBusy = false) :
    ∃ m, n < m ∧ (trace.state m).node.windows = (trace.state n).node.windows + 1 ∧
      (trace.state m).node.nodeFaultUntil =
        (trace.state m).node.now + cfg.durationCast durationSec := by
  have granted : (trace.state (n + 1)).node =
      (trace.state n).node.move .control (.granted durationSec) := by
    have step := FairSend.step trace n
    rw [asked] at step
    generalize trace.state (n + 1) = after at step
    cases step with
    | moved _ _ stepped => exact (nodeStep_grant positive calm stepped).2
  have at_start : (trace.state (n + 1)).node.pc .control = .granted durationSec := by
    rw [granted, move_pc, Function.update_self]
  rcases run.granted_opens positive at_start with ⟨m, after, windows, deadline⟩
  refine ⟨m, by omega, ?_, deadline⟩
  rw [windows, granted]
  rfl

/-- A window that has been opened is not forgotten. -/
theorem windows_mono (run : ServingRun trace) : Monotone fun n => (trace.state n).node.windows := by
  apply monotone_nat_of_le_succ
  intro n
  rcases run.fault n with same | ⟨action, step⟩
  · rw [same]
  · cases starts : startsFault (trace.state n).node action with
    | false => exact (step.window_kept starts).2.ge
    | true =>
        rw [(step.opened_of_starts starts).2.1]
        exact Nat.le_succ _

/-- Either another window is opened, or the run has seen its last one. -/
theorem opens_or_unopened (run : ServingRun trace) (n : ℕ) :
    (∃ m, n ≤ m ∧ (trace.state n).node.windows < (trace.state m).node.windows) ∨
      Unopened trace n := by
  by_cases opened : ∃ m, n ≤ m ∧ (trace.state n).node.windows < (trace.state m).node.windows
  · exact .inl opened
  · refine .inr fun m after => le_antisymm ?_ (run.windows_mono after)
    exact not_lt.mp fun more => opened ⟨m, after, more⟩

/-- The node is found idle again and again. -/
theorem idle_again (run : ServingRun trace) (n : ℕ) :
    ∃ m, n ≤ m ∧ (trace.state m).node.isNodeFaultBusy = false := by
  rcases run.opens_or_unopened n with ⟨m, after, more⟩ | unopened
  · by_contra never
    -- a window is opened only when the node is idle
    have busy : ∀ k, n ≤ k -> (trace.state k).node.isNodeFaultBusy = true := by
      intro k later
      by_contra calm
      exact never ⟨k, later, Bool.eq_false_iff.mpr calm⟩
    have same : ∀ k, n ≤ k -> (trace.state k).node.windows = (trace.state n).node.windows := by
      intro k later
      induction k, later using Nat.le_induction with
      | base => rfl
      | succ k later ih =>
          rcases run.fault k with same | ⟨action, step⟩
          · rw [same, ih]
          · have handshake := ControlHandshake.of_reachable run.only (sendNode_refines (run.reaches k))
            have starts : startsFault (trace.state k).node action = false := by
              by_contra starts
              have calm := handshake.startsWhenIdle action (Bool.not_eq_false _ ▸ starts)
              rw [busy k later] at calm
              cases calm
            rw [(step.window_kept starts).2, ih]
    have none := same m after
    omega
  · rcases run.settles unopened with ⟨rest, after, rested⟩
    exact ⟨rest, after, rested rest le_rfl⟩

end ServingRun

/-- The node stays available.  In every fair run before the shutdown whose faults come from the
control server, the node is found idle again and again; a request that finds it idle opens the
next window and sets its deadline to the start plus the converted duration; and windows are
opened as long as requests arrive. -/
theorem node_stays_available {cfg : BridgeConfig} {origin : SendState}
    {trace : (sendNode cfg).Trace (fun _ _ => True) origin} (run : ServingRun trace) (n : ℕ) :
    (∃ m, n ≤ m ∧ (trace.state m).node.isNodeFaultBusy = false) ∧
    (∀ durationSec, 0 < durationSec -> trace.action n = .node (.request durationSec) ->
      (trace.state n).node.isNodeFaultBusy = false ->
      ∃ m, n < m ∧ (trace.state m).node.windows = (trace.state n).node.windows + 1 ∧
        (trace.state m).node.nodeFaultUntil =
          (trace.state m).node.now + cfg.durationCast durationSec) ∧
    ((∃ m, n ≤ m ∧ (trace.state n).node.windows < (trace.state m).node.windows) ∨
      ∃ rest, ∀ m, rest ≤ m -> ∀ durationSec, 0 < durationSec ->
        trace.action m ≠ .node (.request durationSec)) := by
  refine ⟨run.idle_again n, fun _ positive asked calm => run.request_opens positive asked calm, ?_⟩
  rcases run.opens_or_unopened n with opened | unopened
  · exact .inl opened
  · rcases run.settles unopened with ⟨rest, after, rested⟩
    refine .inr ⟨rest, fun m later durationSec positive asked => ?_⟩
    rcases run.request_opens positive asked (rested m later) with ⟨k, onward, windows, -⟩
    have last := unopened m (by omega)
    have none := unopened k (by omega)
    omega

/-- A window of one second opens. -/
def openingSchedule : List SendAction :=
  [.node (.run (.worker 0)), .wait 0, .node (.run .monitor), .node (.request 1),
    .node (.run .control), .node (.run .control)]

/-- The monitor finds it expired, and nothing is cached. -/
def expiringSchedule : List SendAction :=
  [.node (.advance 1), .node (.run .monitor), .node (.run .monitor), .node (.run .monitor),
    .node (.run .monitor)]

/-- A node inside a window is idle later. -/
theorem node_stays_available_again :
    ∃ (origin : SendState) (trace : (sendNode slowConfig).Trace (fun _ _ => True) origin),
      origin.node.isNodeFaultBusy = true ∧ ∃ m, (trace.state m).node.isNodeFaultBusy = false := by
  have executed : (((sendNode slowConfig).exec (fun _ _ => True)
      (SendState.initial slowConfig 0) openingSchedule).bind fun c =>
      ((sendNode slowConfig).exec (fun _ _ => True) c expiringSchedule).map fun d =>
      (c.node.isNodeFaultBusy, d.node.nodeFaultThreadRunning, decide d.Idles)) =
      some (true, true, true) := by
    decide +kernel
  rcases Option.bind_eq_some_iff.mp executed with ⟨c, first, executed⟩
  rcases Option.map_eq_some_iff.mp executed with ⟨d, second, observed⟩
  simp only [Prod.mk.injEq, decide_eq_true_eq] at observed
  rcases observed with ⟨busy, running, idles⟩
  have reached : (sendNode slowConfig).Reachable c := Machine.reaches_of_exec ⟨0, rfl⟩ first
  have path : (sendNode slowConfig).Path (fun _ _ => True) c d := Machine.path_of_exec second
  have resting : d.Resting slowConfig :=
    lone_resting (reached.imp fun _ => .imp_right fun before => before.trans path) slow_single
      slow_absent idles
  have only : slowConfig.ControlOnly := by simp [BridgeConfig.ControlOnly, slowConfig]
  rcases SettlingRun.exists_of_path only reached path resting running with ⟨trace, run⟩
  rcases (node_stays_available run.toServingRun 0).1 with ⟨m, -, idle⟩
  exact ⟨c, trace, busy, m, idle⟩

end SwarmBridge
