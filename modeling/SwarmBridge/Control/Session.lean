import SwarmBridge.Control.Gate
import SwarmBridge.SimComm.Routing
import SwarmBridge.Foundation.Fairness

namespace SwarmBridge

open Foundation

/-!
# The control server and its clients

`control_thread_main` polls a REP socket while `control_thread_running` is set.  The test of
the flag and the receive are two steps, so one more request may be received after the flag
is cleared.  The thread hands the first part of a request to `handle_control_request`, and
sends the answer before it looks for another request.  Other threads of the node run in
between.  `stop_control_server` clears the flag and joins the thread, and only then
comes `stop_node_fault_control`.
-/

/-- A request as it comes from the socket, in parts. -/
abbrev Request := List Text

/-- Where the control thread is in its loop. -/
inductive ServerPhase
  /-- About to test the flag. -/
  | polling
  /-- The flag was set. -/
  | listening
  /-- A request has been received. -/
  | handling (request : Request)
  /-- `is_node_fault_busy` was false, and `start_node_fault` has not returned. -/
  | starting (request : Request) (duration : Double)
  /-- The answer is to be sent. -/
  | replying (request : Request) (response : Text)
  | exited
deriving DecidableEq

/-- The request that was received and not answered yet. -/
def ServerPhase.inHand : ServerPhase -> List Request
  | .polling => []
  | .listening => []
  | .handling request => [request]
  | .starting request _ => [request]
  | .replying request _ => [request]
  | .exited => []

/-- The checks before `is_node_fault_busy`.  Reading the text of a message without parts
throws, and the loop answers `invalid_request`. -/
def ControlServer.examine (server : ControlServer) : Request -> Except Text Double
  | [] => .error (server.refusal "invalid_request")
  | text :: _ => server.checkRequest text

/-- The node, `control_thread_running`, the control thread, the requests on the socket, and
two histories: what was asked, and what was answered. -/
structure SessionState where
  node : NodeState
  running : Bool
  phase : ServerPhase
  inbox : List Request
  asked : List Request
  exchanges : List (Request × Text)

/-- The choices of a schedule. -/
inductive SessionAction
  /-- A step of the node that is none of the control thread. -/
  | node (action : Action)
  /-- A request arrives at the socket. -/
  | ask (request : Request)
  /-- The control thread tests the flag. -/
  | poll
  /-- It receives a request, or finds none. -/
  | receive
  /-- It checks the request and asks whether the node is busy. -/
  | handle
  /-- It takes its next step in `start_node_fault`. -/
  | start
  /-- It sends the answer. -/
  | reply
  /-- `stop_control_server` clears the flag. -/
  | stopServer
deriving DecidableEq

namespace SessionState

variable (cfg : BridgeConfig) (server : ControlServer) (c : SessionState)

/-- The step is one of another thread.  `main` stops the fault control after it has joined
the control thread, and no callback runs once it has left `ros::spin`. -/
def foreign : Action -> Bool
  | .request _ => false
  | .run thread => thread != .control
  | .stop => decide (c.phase = .exited)
  | .arrive (.send _) _ => c.running
  | _ => true

/-- `handle_control_request`, up to the section of `is_node_fault_busy`. -/
def handle (request : Request) : Option SessionState :=
  match server.examine request with
  | .error response => some { c with phase := .replying request response }
  | .ok duration =>
      (nodeStep cfg c.node (.request (server.seconds duration))).map fun t =>
        { c with
          node := t
          phase :=
            if c.node.isNodeFaultBusy then .replying request (server.refusal "node_fault_busy")
            else .starting request duration }

/-- The next step of the control thread in `start_node_fault`. -/
def start (request : Request) (duration : Double) : Option SessionState :=
  (nodeStep cfg c.node (.run .control)).map fun t =>
    { c with
      node := t
      phase :=
        if t.pc .control = .idle then .replying request (server.granted duration)
        else .starting request duration }

end SessionState

/-- One step of the node with its control server and the clients of the server. -/
def sessionStep (cfg : BridgeConfig) (server : ControlServer) (c : SessionState) :
    SessionAction -> Option SessionState
  | .node action =>
      if c.foreign action then (nodeStep cfg c.node action).map fun t => { c with node := t }
      else none
  | .ask request => some { c with asked := c.asked ++ [request], inbox := c.inbox ++ [request] }
  | .poll =>
      match c.phase with
      | .polling =>
          if c.node.scheduled cfg then
            some { c with phase := if c.running then .listening else .exited }
          else none
      | _ => none
  | .receive =>
      match c.phase with
      | .listening =>
          match c.inbox with
          | [] => some { c with phase := .polling }
          | request :: rest => some { c with phase := .handling request, inbox := rest }
      | _ => none
  | .handle =>
      match c.phase with
      | .handling request => c.handle cfg server request
      | _ => none
  | .start =>
      match c.phase with
      | .starting request duration => c.start cfg server request duration
      | _ => none
  | .reply =>
      match c.phase with
      | .replying request response =>
          some { c with phase := .polling, exchanges := c.exchanges ++ [(request, response)] }
      | _ => none
  | .stopServer =>
      if c.running = true ∧ c.node.scheduled cfg = true ∧ c.node.pc .ros = .idle then
        some { c with running := false }
      else none

/-- The state at the start of `main`.  What is asked before `start_control_server` waits. -/
def SessionState.initial (cfg : BridgeConfig) (now : ℚ) : SessionState where
  node := NodeState.initial cfg now
  running := true
  phase := .polling
  inbox := []
  asked := []
  exchanges := []

/-- A node with its control server. -/
def controlSession (cfg : BridgeConfig) (server : ControlServer) :
    Machine SessionState SessionAction where
  init := fun c => ∃ now, c = SessionState.initial cfg now
  step := sessionStep cfg server

/-! ## What a step can do -/

/-- The outcomes of a step. -/
inductive SessionStep (cfg : BridgeConfig) (server : ControlServer) (c : SessionState) :
    SessionAction -> SessionState -> Prop
  | moved {action : Action} {t : NodeState} (foreign : c.foreign action = true)
      (step : nodeStep cfg c.node action = some t) :
      SessionStep cfg server c (.node action) { c with node := t }
  | asked {request : Request} :
      SessionStep cfg server c (.ask request)
        { c with asked := c.asked ++ [request], inbox := c.inbox ++ [request] }
  | polled (polls : c.phase = .polling) (running : c.running = true) :
      SessionStep cfg server c .poll { c with phase := .listening }
  | exited (polls : c.phase = .polling) (stopped : c.running = false) :
      SessionStep cfg server c .poll { c with phase := .exited }
  | unasked (listens : c.phase = .listening) (empty : c.inbox = []) :
      SessionStep cfg server c .receive { c with phase := .polling }
  | received {request : Request} {rest : List Request} (listens : c.phase = .listening)
      (waiting : c.inbox = request :: rest) :
      SessionStep cfg server c .receive { c with phase := .handling request, inbox := rest }
  | refused {request : Request} {response : Text} (handles : c.phase = .handling request)
      (failed : server.examine request = .error response) :
      SessionStep cfg server c .handle { c with phase := .replying request response }
  | busy {request : Request} {duration : Double} (handles : c.phase = .handling request)
      (valid : server.examine request = .ok duration) (busy : c.node.isNodeFaultBusy = true) :
      SessionStep cfg server c .handle
        { c with phase := .replying request (server.refusal "node_fault_busy") }
  | granted {request : Request} {duration : Double} (handles : c.phase = .handling request)
      (valid : server.examine request = .ok duration) (calm : c.node.isNodeFaultBusy = false)
      (idle : c.node.pc .control = .idle)
      (step : nodeStep cfg c.node (.request (server.seconds duration)) =
        some (c.node.move .control (.granted (server.seconds duration)))) :
      SessionStep cfg server c .handle
        { c with
          node := c.node.move .control (.granted (server.seconds duration))
          phase := .starting request duration }
  | started {request : Request} {duration : Double} {t : NodeState}
      (starts : c.phase = .starting request duration)
      (step : nodeStep cfg c.node (.run .control) = some t) (ongoing : t.pc .control ≠ .idle) :
      SessionStep cfg server c .start { c with node := t }
  | finished {request : Request} {duration : Double} {t : NodeState}
      (starts : c.phase = .starting request duration)
      (step : nodeStep cfg c.node (.run .control) = some t) (idle : t.pc .control = .idle) :
      SessionStep cfg server c .start
        { c with node := t, phase := .replying request (server.granted duration) }
  | replied {request : Request} {response : Text} (replies : c.phase = .replying request response) :
      SessionStep cfg server c .reply
        { c with phase := .polling, exchanges := c.exchanges ++ [(request, response)] }
  | stopped (running : c.running = true) (ros : c.node.pc .ros = .idle) :
      SessionStep cfg server c .stopServer { c with running := false }

namespace SessionState

variable {cfg : BridgeConfig} {server : ControlServer} {c d : SessionState} {request : Request}
  {duration : Double}

/-- A valid request has a positive duration. -/
theorem seconds_pos_of_examined (valid : server.examine request = .ok duration) :
    0 < server.seconds duration := by
  cases request with
  | nil => cases valid
  | cons text parts => exact server.seconds_pos_of_checked valid

theorem handle_cases (handles : c.phase = .handling request)
    (stepped : c.handle cfg server request = some d) : SessionStep cfg server c .handle d := by
  unfold handle at stepped
  cases examined : server.examine request with
  | error response =>
      rw [examined] at stepped
      cases stepped
      exact .refused handles examined
  | ok duration =>
      rw [examined] at stepped
      rcases Option.map_eq_some_iff.mp stepped with ⟨t, asks, rfl⟩
      have positive := seconds_pos_of_examined examined
      by_cases busy : c.node.isNodeFaultBusy = true
      · have same : t = c.node := by
          simp only [nodeStep] at asks
          split_ifs at asks
          rw [← Option.some.inj asks, NodeState.handleControlRequest, if_pos positive, if_pos busy]
        rw [if_pos busy, same]
        exact .busy handles examined busy
      · have calm := Bool.eq_false_iff.mpr busy
        rcases nodeStep_grant positive calm asks with ⟨idle, rfl⟩
        rw [if_neg busy]
        exact .granted handles examined calm idle asks

end SessionState

/-- Inversion of a step. -/
theorem sessionStep_cases {cfg : BridgeConfig} {server : ControlServer} {c d : SessionState}
    {action : SessionAction} (stepped : sessionStep cfg server c action = some d) :
    SessionStep cfg server c action d := by
  cases action with
  | node action =>
      simp only [sessionStep] at stepped
      split_ifs at stepped with foreign
      rcases Option.map_eq_some_iff.mp stepped with ⟨t, moved, rfl⟩
      exact .moved foreign moved
  | ask request =>
      cases stepped
      exact .asked
  | poll =>
      simp only [sessionStep] at stepped
      split at stepped
      case h_1 polls =>
        split_ifs at stepped with _ running
        · cases stepped
          exact .polled polls running
        · cases stepped
          exact .exited polls (Bool.eq_false_iff.mpr running)
      case h_2 => cases stepped
  | receive =>
      simp only [sessionStep] at stepped
      split at stepped
      case h_1 listens =>
        split at stepped
        case h_1 empty =>
          cases stepped
          exact .unasked listens empty
        case h_2 request rest waiting =>
          cases stepped
          exact .received listens waiting
      case h_2 => cases stepped
  | handle =>
      simp only [sessionStep] at stepped
      split at stepped
      case h_1 request handles => exact SessionState.handle_cases handles stepped
      case h_2 => cases stepped
  | start =>
      simp only [sessionStep] at stepped
      split at stepped
      case h_1 request duration starts =>
        rcases Option.map_eq_some_iff.mp stepped with ⟨t, moved, rfl⟩
        by_cases idle : t.pc .control = .idle
        · rw [if_pos idle]
          exact .finished starts moved idle
        · rw [if_neg idle, ← starts]
          exact .started starts moved idle
      case h_2 => cases stepped
  | reply =>
      simp only [sessionStep] at stepped
      split at stepped
      case h_1 request response replies =>
        cases stepped
        exact .replied replies
      case h_2 => cases stepped
  | stopServer =>
      simp only [sessionStep] at stepped
      split_ifs at stepped with guard
      cases stepped
      exact .stopped guard.1 guard.2.2

/-- A step is one of the node, or it leaves the node alone. -/
theorem SessionStep.node {cfg : BridgeConfig} {server : ControlServer} {c d : SessionState}
    {action : SessionAction} (step : SessionStep cfg server c action d) :
    d.node = c.node ∨ ∃ moves, nodeStep cfg c.node moves = some d.node := by
  cases step with
  | moved _ step => exact .inr ⟨_, step⟩
  | granted _ _ _ _ step => exact .inr ⟨_, step⟩
  | started _ step => exact .inr ⟨_, step⟩
  | finished _ step => exact .inr ⟨_, step⟩
  | _ => exact .inl rfl

/-- Every run of the node with its control server is one of the node. -/
theorem controlSession_refines {cfg : BridgeConfig} {server : ControlServer} {c : SessionState}
    (run : (controlSession cfg server).Reachable c) : (bridgeNode cfg).Reachable c.node := by
  refine run.invariant (P := fun c => (bridgeNode cfg).Reachable c.node) ?_ ?_
  · rintro c ⟨now, rfl⟩
    exact ⟨_, ⟨now, rfl⟩, .refl⟩
  · intro c action d _ reached _ stepped
    rcases (sessionStep_cases stepped).node with same | ⟨moves, moved⟩
    · rwa [same]
    · exact reached.next trivial moved

end SwarmBridge
