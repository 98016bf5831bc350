import SwarmBridge.Swarm.EndToEnd
import SwarmBridge.Foundation.Component
import SwarmBridge.Delivery.EndlessWindows

namespace SwarmBridge

open Foundation

/-!
# The swarm in service

In an infinite run of the swarm a bridge is the node with the condition variables of its
queues, so that its workers do not step while they sleep.  Each run of this finer swarm is one
of the swarm, and what a bridge does in it is an infinite run of the node alone.
-/

/-- The step of the node, if it is one. -/
def SendAction.node? : SendAction -> Option Action
  | .node action => some action
  | _ => none

theorem sendStep_node? {cfg : BridgeConfig} {c d : SendState} {action : SendAction}
    (stepped : sendStep cfg c action = some d) :
    (action.node? = none -> d.node = c.node) ∧
      ∀ moves, action.node? = some moves -> nodeStep cfg c.node moves = some d.node := by
  have step : SendStep cfg c action d := sendStep_cases stepped
  cases step with
  | moved _ _ moves =>
      refine ⟨nofun, ?_⟩
      rintro _ ⟨⟩
      exact moves
  | _ => exact ⟨fun _ => rfl, nofun⟩

namespace Swarm

variable {Bridge Link : Type} (W : Swarm Bridge Link)

/-- The nodes of the bridges, with the condition variables of their queues. -/
def sendNodes : Network.FinerMachines W.network SendState SendAction where
  machine := fun bridge => sendNode (W.config bridge)
  view := SendState.node
  seen := SendAction.node?
  lift := .node
  seen_lift := fun _ => rfl
  init := by
    rintro bridge c ⟨now, rfl⟩
    exact ⟨now, rfl⟩
  unseen := fun _ _ _ _ stepped => (sendStep_node? stepped).1
  step := fun _ _ _ _ _ stepped => (sendStep_node? stepped).2 _

/-- The swarm of these nodes. -/
abbrev service : Network Bridge SendState SendAction Link (List Frame) := W.sendNodes.network

/-- A state of it. -/
abbrev ServiceState (_ : Swarm Bridge Link) := NetworkState Bridge SendState Link (List Frame)

/-- The bridges without the condition variables. -/
abbrev bridges (s : W.ServiceState) : W.State := W.sendNodes.forget s

/-- The actions that a bridge takes by itself. -/
def OwnSend (bridge : Bridge) (action : SendAction) : Prop :=
  ∀ moves ∈ action.node?, W.Own bridge moves

/-- The steps in which the connection loses nothing. -/
def Lossless (link : Link) (s : W.ServiceState) (action : NetworkAction Bridge SendAction Link) :
    Prop :=
  W.service.Steps W.OwnSend (fun _ _ _ => True) s action ∧ Network.Keeps link action

section Decidable

variable [DecidableEq Bridge] [Fintype Link]

instance (bridge : Bridge) : DecidablePred (W.OwnSend bridge) :=
  fun action => inferInstanceAs (Decidable (∀ moves ∈ action.node?, W.Own bridge moves))

instance [DecidableEq Link] (link : Link) (s : W.ServiceState) : DecidablePred (W.Lossless link s) :=
  fun _ => inferInstanceAs (Decidable (_ ∧ _))

end Decidable

section Runs

variable {W} [DecidableEq Bridge] [DecidableEq Link] {link : Link} {s : W.ServiceState}

/-- A run without losses on the connection is one of the swarm. -/
theorem service_refines (run : W.service.system.Reaches (W.Lossless link) s) :
    W.network.system.Reaches (fun s a => W.network.Steps W.Own (fun _ _ _ => True) s a ∧
      Network.Keeps link a) (W.bridges s) := by
  refine W.sendNodes.refines ?_ run
  rintro s action seen ⟨steps, keeps⟩ sees
  cases action with
  | act bridge action =>
      rcases Option.map_eq_some_iff.mp sees with ⟨moves, moved, rfl⟩
      exact ⟨⟨steps.1 moves moved, trivial⟩, trivial⟩
  | receive link =>
      cases sees
      exact ⟨fun _ _ _ _ => trivial, trivial⟩
  | lose link index =>
      cases sees
      exact ⟨trivial, keeps⟩

theorem node_reachable (run : W.service.system.Reaches (W.Lossless link) s) (bridge : Bridge) :
    (sendNode (W.config bridge)).Reachable (s.nodes bridge) :=
  Network.reaches_node (run.mono fun _ _ both => both.1) bridge

end Runs

/-! ## A bridge in an infinite run -/

variable {W} [DecidableEq Bridge] [DecidableEq Link] {link : Link} {origin : W.ServiceState}

/-- In the infinite run the bridge is in service: its faults come from its control server, it is
not stopped, its clock passes every time, and its threads are not passed over for ever. -/
structure Serves (trace : W.service.system.Trace (W.Lossless link) origin) (bridge : Bridge) :
    Prop where
  only : (W.config bridge).ControlOnly
  running : ∀ n, ((trace.state n).nodes bridge).node.nodeFaultThreadRunning = true
  clock : ∀ time, ∃ n, time ≤ ((trace.state n).nodes bridge).node.now
  fair : ∀ action : SendAction, action.prompt = true -> trace.Fair (.act bridge action)
  strong : ∀ thread, trace.StrongFair (.act bridge (.node (.run thread)))

/-- An infinite run from a state that is reached stays in such states. -/
theorem reaches_at (trace : W.service.system.Trace (W.Lossless link) origin)
    (reached : W.service.system.Reaches (W.Lossless link) origin) (n : ℕ) :
    W.service.system.Reaches (W.Lossless link) (trace.state n) := by
  rcases reached with ⟨first, initial, path⟩
  exact ⟨first, initial, path.trans (trace.path n)⟩

/-- A step of the swarm is a step of the node of a bridge, or leaves the node as it is. -/
theorem node_moves (trace : W.service.system.Trace (W.Lossless link) origin) (bridge : Bridge)
    (n : ℕ) :
    ((trace.state (n + 1)).nodes bridge).node = ((trace.state n).nodes bridge).node ∨
      ∃ action, W.service.does bridge (trace.state n) (trace.action n) = some (.node action) ∧
        nodeStep (W.config bridge) ((trace.state n).nodes bridge).node action =
          some ((trace.state (n + 1)).nodes bridge).node := by
  have does := (Network.stepped (trace.steps n)).does (trace.allowed n).1 bridge
  cases act : W.service.does bridge (trace.state n) (trace.action n) with
  | none => exact .inl (congrArg SendState.node (does.1 act))
  | some action =>
      have stepped := sendStep_node? (does.2 action act).2
      cases moves : action.node? with
      | none => exact .inl (stepped.1 moves)
      | some moved =>
          have same : action = .node moved := by
            cases action with
            | node action => cases moves; rfl
            | _ => cases moves
          exact .inr ⟨moved, by rw [same], stepped.2 moved moves⟩

namespace Serves

variable {trace : W.service.system.Trace (W.Lossless link) origin} {bridge : Bridge}

theorem clock_mono (serves : Serves trace bridge) :
    Monotone fun n => ((trace.state n).nodes bridge).node.now := by
  apply monotone_nat_of_le_succ
  intro n
  rcases node_moves trace bridge n with same | ⟨action, -, stepped⟩
  · rw [same]
  · have step := nodeStep_cases stepped
    exact (step.fault (step.notStop_of_running (serves.running (n + 1)))).clock_le

/-- The bridge steps again and again. -/
theorem endless (serves : Serves trace bridge) :
    ∀ n, ∃ m, n ≤ m ∧ W.service.does bridge (trace.state m) (trace.action m) ≠ none := by
  apply Network.does_endlessly fun _ _ both => both.1
  intro n
  rcases serves.clock (((trace.state n).nodes bridge).node.now + 1) with ⟨m, later⟩
  have after : n ≤ m := by
    by_contra before
    have earlier := serves.clock_mono (Nat.le_of_not_le before)
    linarith
  refine ⟨m, after, fun same => ?_⟩
  rw [same] at later
  linarith

/-- The node of the bridge alone. -/
def alone (serves : Serves trace bridge) :
    Machine.Component trace (sendNode (W.config bridge)) fun _ _ => True :=
  Network.component trace (fun _ _ both => both.1) bridge serves.endless

/-- What it does is a run of a node in service. -/
theorem eager (serves : Serves trace bridge)
    (reached : W.service.system.Reaches (W.Lossless link) origin) :
    EagerRun serves.alone.run where
  reached := node_reachable reached bridge
  fair := fun action prompt => Network.component_fair (serves.fair action prompt)
  running := fun k => serves.running _
  clock := by
    intro time
    rcases serves.clock time with ⟨n, passed⟩
    rcases serves.alone.exists_run_state n with ⟨k, -, same⟩
    exact ⟨k, same ▸ passed⟩
  only := serves.only
  strong := fun thread => Network.component_strongFair (serves.strong thread)

end Serves

end Swarm

end SwarmBridge
