import SwarmBridge.Control.Request
import SwarmBridge.SimComm.Runs

namespace SwarmBridge

open Foundation

/-!
# The gate in front of the fault control

`handle_control_request` checks the text of a request, asks whether the node is
busy, and starts the fault.  The text is checked in the control thread alone; the
other two are sections of the node, and other threads run between them.  A
request is granted exactly when every check passes, only a granted request
changes the fault state, and whoever does not know the token learns nothing.
-/

/-- What a request can change: the flags, the deadline, the duration, the buffers. -/
structure FaultState where
  active : Bool
  recovering : Bool
  durationSec : ℚ
  deadline : ℚ
  buffers : Channel -> List Message

def NodeState.faultState (s : NodeState) : FaultState where
  active := s.nodeFaultActive
  recovering := s.nodeFaultRecovering
  durationSec := s.nodeFaultDurationSec
  deadline := s.nodeFaultUntil
  buffers := s.faultBuffers

/-- The number of seconds for which a valid request starts a fault. -/
def ControlServer.seconds (server : ControlServer) : Double -> ℚ
  | .finite value => value
  | _ => server.overflowSec

/-- A step of another thread than the control server that starts no fault. -/
def Undisturbed (s : NodeState) (action : Action) : Prop :=
  action ≠ .run .control ∧ startsFault s action = false

/-- `handle_control_request`, called in the first state, gives this answer and
leaves the second state.  The state of the call is the one of the busy check:
what came before only looked at the text. -/
inductive Handled (cfg : BridgeConfig) (server : ControlServer) (requestText : Text) :
    NodeState -> Text -> NodeState -> Prop
  | refused {s : NodeState} {response : Text}
      (failed : server.checkRequest requestText = .error response) :
      Handled cfg server requestText s response s
  | busy {s : NodeState} {duration : Double}
      (valid : server.checkRequest requestText = .ok duration)
      (busy : s.isNodeFaultBusy = true) :
      Handled cfg server requestText s (server.refusal "node_fault_busy") s
  | started {s granted before t : NodeState} {duration : Double}
      (valid : server.checkRequest requestText = .ok duration)
      (idle : s.isNodeFaultBusy = false)
      (grants : nodeStep cfg s (.request (server.seconds duration)) = some granted)
      (others : (bridgeNode cfg).Path Undisturbed granted before)
      (starts : nodeStep cfg before (.run .control) = some t) :
      Handled cfg server requestText s (server.granted duration) t

/-- The answer reports success. -/
def SaysOk (response : Text) : Prop := literal "ok=true" <+: response

/-- The request is for this node, by someone who may ask, for a positive duration. -/
structure Admitted (server : ControlServer) (requestText : Text) : Prop where
  command : lastField requestText (literal "command") = some (literal "start_node_fault")
  target : ∀ target, lastField requestText (literal "target") = some target ->
    target = [] ∨ target = server.nodeId ∨ server.nodeId = []
  token : server.token = [] ∨ lastField requestText (literal "token") = some server.token
  duration : ∃ text duration, lastField requestText (literal "duration_sec") = some text ∧
    server.stod text = some (duration, text.length) ∧ duration.positive = true

namespace ControlServer

variable {server : ControlServer} {requestText : Text}

theorem saysOk_granted (server : ControlServer) (duration : Double) :
    SaysOk (server.granted duration) := by
  refine ⟨literal ";node_id=" ++ server.nodeId ++ literal ";" ++ literal "message" ++ literal "=" ++
    literal "node_fault_started" ++ literal ";duration_sec=" ++ server.printed duration, ?_⟩
  have start : literal "ok=true" = literal "ok=" ++ literal "true" := by decide
  rw [start]
  simp only [granted, buildResponse, if_true, List.append_assoc]

theorem not_saysOk_refusal (server : ControlServer) (reason : String) :
    ¬ SaysOk (server.refusal reason) := by
  rintro ⟨rest, same⟩
  have start : literal "ok=" ++ literal "false" = literal "ok=fals" ++ literal "e" := by decide
  have whole := congrArg (List.take 7) same
  rw [List.take_left' (by decide), refusal, buildResponse, if_neg Bool.false_ne_true,
    start] at whole
  simp only [List.append_assoc] at whole
  rw [List.take_left' (by decide)] at whole
  revert whole
  decide

theorem seconds_pos {duration : Double} (positive : duration.positive = true) :
    0 < server.seconds duration := by
  cases duration with
  | nan => cases positive
  | infinite negative => exact server.overflowSec.property
  | finite value => exact of_decide_eq_true positive

theorem parsePositiveDuration_eq_some_iff {fields : Fields} {duration : Double} :
    server.parsePositiveDuration fields = some duration ↔
      ∃ text, fields (literal "duration_sec") = some text ∧
        server.stod text = some (duration, text.length) ∧ duration.positive = true := by
  unfold parsePositiveDuration
  cases fields (literal "duration_sec") with
  | none => simp
  | some text =>
      cases parsed : server.stod text with
      | none => simp [parsed]
      | some result =>
          rcases result with ⟨value, consumed⟩
          simp only [parsed, Option.some.injEq, exists_eq_left', Prod.mk.injEq]
          split_ifs with passed
          · simp only [Option.some.injEq]
            constructor
            · rintro rfl
              exact ⟨⟨rfl, passed.1⟩, passed.2⟩
            · exact fun same => same.1.1
          · simp only [false_iff]
            rintro ⟨⟨rfl, rfl⟩, positive⟩
            exact passed ⟨rfl, positive⟩

theorem targetMismatch_eq_false_iff {fields : Fields} :
    server.targetMismatch fields = false ↔
      ∀ target, fields (literal "target") = some target ->
        target = [] ∨ target = server.nodeId ∨ server.nodeId = [] := by
  unfold targetMismatch
  cases fields (literal "target") with
  | none => simp
  | some target => simp; tauto

theorem unauthorized_eq_false_iff {fields : Fields} :
    server.unauthorized fields = false ↔
      server.token = [] ∨ fields (literal "token") = some server.token := by
  unfold unauthorized
  simp only [Bool.and_eq_false_iff, bne_eq_false_iff_eq]

/-- The checks on the text pass exactly for the admitted requests. -/
theorem admitted_iff : Admitted server requestText ↔
    ∃ duration, server.checkRequest requestText = .ok duration := by
  have last : ∀ key : String, literal key ≠ [] ->
      parseKeyValueRequest requestText (literal key) = lastField requestText (literal key) :=
    fun key nonempty => parse_eq_lastField requestText nonempty
  have command := last "command" (by decide)
  have target := last "target" (by decide)
  have token := last "token" (by decide)
  have duration := last "duration_sec" (by decide)
  unfold checkRequest
  dsimp only
  constructor
  · intro admitted
    rcases admitted.duration with ⟨text, seconds, found, parsed, positive⟩
    have known : server.parsePositiveDuration (parseKeyValueRequest requestText) = some seconds :=
      parsePositiveDuration_eq_some_iff.mpr ⟨text, duration ▸ found, parsed, positive⟩
    have here := targetMismatch_eq_false_iff.mpr (target.symm ▸ admitted.target)
    have allowed := unauthorized_eq_false_iff.mpr (token.symm ▸ admitted.token)
    refine ⟨seconds, ?_⟩
    rw [if_neg (not_not.mpr (command.trans admitted.command)), here, allowed,
      if_neg Bool.false_ne_true, if_neg Bool.false_ne_true, known]
  · rintro ⟨seconds, passed⟩
    split_ifs at passed with wrong elsewhere unknown
    cases known : server.parsePositiveDuration (parseKeyValueRequest requestText) with
    | none => rw [known] at passed; cases passed
    | some found =>
        refine ⟨command ▸ not_not.mp wrong, ?_, ?_, ?_⟩
        · exact target ▸ targetMismatch_eq_false_iff.mp (Bool.eq_false_iff.mpr elsewhere)
        · exact token ▸ unauthorized_eq_false_iff.mp (Bool.eq_false_iff.mpr unknown)
        · rcases parsePositiveDuration_eq_some_iff.mp known with ⟨text, field, rest⟩
          exact ⟨text, found, duration ▸ field, rest⟩

/-- A request that is not admitted has one answer in every state. -/
theorem refused_of_not_admitted (refused : ¬ Admitted server requestText) :
    ∃ response, server.checkRequest requestText = .error response := by
  cases checked : server.checkRequest requestText with
  | error response => exact ⟨response, rfl⟩
  | ok duration => exact absurd (admitted_iff.mpr ⟨duration, checked⟩) refused

theorem seconds_pos_of_checked (server : ControlServer) {duration : Double}
    (checked : server.checkRequest requestText = .ok duration) : 0 < server.seconds duration := by
  unfold checkRequest at checked
  dsimp only at checked
  split_ifs at checked
  cases known : server.parsePositiveDuration (parseKeyValueRequest requestText) with
  | none => rw [known] at checked; cases checked
  | some found =>
      rw [known] at checked
      cases checked
      rcases parsePositiveDuration_eq_some_iff.mp known with ⟨_, _, _, positive⟩
      exact seconds_pos positive

/-- The text checks answer with a refusal. -/
theorem refusal_of_checkRequest (server : ControlServer) {response : Text}
    (failed : server.checkRequest requestText = .error response) :
    ∃ reason, server.refusal reason = response := by
  unfold checkRequest at failed
  dsimp only at failed
  split_ifs at failed
  · exact ⟨_, Except.error.inj failed⟩
  · exact ⟨_, Except.error.inj failed⟩
  · exact ⟨_, Except.error.inj failed⟩
  · cases known : server.parsePositiveDuration (parseKeyValueRequest requestText) with
    | none => rw [known] at failed; exact ⟨_, Except.error.inj failed⟩
    | some found => rw [known] at failed; cases failed

end ControlServer

/-- Between its busy check and its start the control thread stays where it is, and
the fault control is not stopped. -/
theorem NodeStep.granted_stays {cfg : BridgeConfig} {s t : NodeState} {action : Action}
    {durationSec : ℚ} (step : NodeStep cfg s action t) (other : action ≠ .run .control)
    (at_start : s.pc .control = .granted durationSec) (running : s.nodeFaultThreadRunning = true) :
    t.pc .control = .granted durationSec ∧ t.nodeFaultThreadRunning = true := by
  have notStop : action ≠ .stop := by
    rintro rfl
    cases step with
    | stop _ idle => rw [at_start] at idle; cases idle
  have busy : s.pc .control ≠ .idle := fun idle => by rw [at_start] at idle; cases idle
  exact ⟨(step.pc_busy busy other).trans at_start, (step.running_eq notStop).trans running⟩

/-- The step of a valid request on an idle node. -/
theorem NodeState.handleControlRequest_idle {s : NodeState} {durationSec : ℚ}
    (positive : 0 < durationSec) (idle : s.isNodeFaultBusy = false) :
    s.handleControlRequest durationSec = s.move .control (.granted durationSec) := by
  rw [NodeState.handleControlRequest, if_pos positive, if_neg (Bool.eq_false_iff.mp idle)]

/-- The section of `start_node_fault` in the control thread. -/
theorem nodeStep_start {cfg : BridgeConfig} {s : NodeState} {durationSec : ℚ}
    (positive : 0 < durationSec) (at_start : s.pc .control = .granted durationSec)
    (running : s.nodeFaultThreadRunning = true) :
    nodeStep cfg s (.run .control) =
      some ((s.openWindow cfg durationSec).move .control (.notifyOne (.inl rfl))) := by
  simp only [nodeStep, NodeState.section?, at_start, NodeState.startNodeFault,
    if_neg (not_le.mpr positive), running, if_true]

/-- A request that finds the node idle is granted. -/
theorem nodeStep_request {cfg : BridgeConfig} {s : NodeState} {durationSec : ℚ}
    (positive : 0 < durationSec) (serving : s.scheduled cfg = true)
    (waits : s.pc .control = .idle) (idle : s.isNodeFaultBusy = false) :
    nodeStep cfg s (.request durationSec) = some (s.move .control (.granted durationSec)) := by
  unfold nodeStep
  dsimp only
  rw [serving, waits, NodeState.handleControlRequest_idle positive idle]
  rfl

/-- The control thread of a granted request goes on to the start. -/
theorem nodeStep_grant {cfg : BridgeConfig} {s granted : NodeState} {durationSec : ℚ}
    (positive : 0 < durationSec) (idle : s.isNodeFaultBusy = false)
    (grants : nodeStep cfg s (.request durationSec) = some granted) :
    s.pc .control = .idle ∧ granted = s.move .control (.granted durationSec) := by
  unfold nodeStep at grants
  dsimp only at grants
  split_ifs at grants with enabled
  rw [NodeState.handleControlRequest_idle positive idle, Option.some.injEq] at grants
  exact ⟨of_decide_eq_true ((Bool.and_eq_true _ _).mp enabled).2, grants.symm⟩

/-- However long the other threads run in between, the control thread is still about to
start the fault. -/
theorem granted_path {cfg : BridgeConfig} {allow : NodeState -> Action -> Prop}
    {granted before : NodeState} {durationSec : ℚ}
    (others : (bridgeNode cfg).Path allow granted before)
    (apart : ∀ s action, allow s action -> action ≠ .run .control)
    (at_start : granted.pc .control = .granted durationSec)
    (running : granted.nodeFaultThreadRunning = true) :
    before.pc .control = .granted durationSec ∧ before.nodeFaultThreadRunning = true :=
  others.invariant
    (P := fun s => s.pc .control = .granted durationSec ∧ s.nodeFaultThreadRunning = true)
    ⟨at_start, running⟩ fun s action _ held allowed stepped =>
      (nodeStep_cases stepped).granted_stays (apart s action allowed) held.1 held.2

namespace Handled

variable {cfg : BridgeConfig} {server : ControlServer} {requestText response : Text}
  {s t : NodeState}

/-- A granted request has started a fault when its answer is sent. -/
theorem active_of_started {granted before : NodeState} {durationSec : ℚ}
    (positive : 0 < durationSec) (running : s.nodeFaultThreadRunning = true)
    (idle : s.isNodeFaultBusy = false)
    (grants : nodeStep cfg s (.request durationSec) = some granted)
    (others : (bridgeNode cfg).Path Undisturbed granted before)
    (starts : nodeStep cfg before (.run .control) = some t) : t.nodeFaultActive = true := by
  have after := (nodeStep_grant positive idle grants).2
  have ready := granted_path others (fun _ _ undisturbed => undisturbed.1)
    (by rw [after, NodeState.move_pc, Function.update_self]) (by rw [after]; exact running)
  rw [nodeStep_start positive ready.1 ready.2, Option.some.injEq] at starts
  rw [← starts]
  rfl

/-- Every request is answered. -/
theorem exists_answer (cfg : BridgeConfig) (server : ControlServer) (requestText : Text)
    (running : s.nodeFaultThreadRunning = true) (serving : s.scheduled cfg = true)
    (waits : s.pc .control = .idle) :
    ∃ response t, Handled cfg server requestText s response t := by
  cases checked : server.checkRequest requestText with
  | error response => exact ⟨response, s, .refused checked⟩
  | ok duration =>
      by_cases busy : s.isNodeFaultBusy = true
      · exact ⟨_, s, .busy checked busy⟩
      · have idle := Bool.eq_false_iff.mpr busy
        have positive := server.seconds_pos_of_checked checked
        have grants := nodeStep_request positive serving waits idle
        have ready : (s.move .control (.granted (server.seconds duration))).pc .control =
            .granted (server.seconds duration) := by
          rw [NodeState.move_pc, Function.update_self]
        exact ⟨_, _, .started checked idle grants .refl (nodeStep_start positive ready running)⟩

/-- The answer says that the request was granted exactly when the request is
admitted and the node was idle. -/
theorem saysOk_iff (handled : Handled cfg server requestText s response t) :
    SaysOk response ↔ Admitted server requestText ∧ s.isNodeFaultBusy = false := by
  cases handled with
  | refused failed =>
      rcases server.refusal_of_checkRequest failed with ⟨reason, refusal⟩
      refine iff_of_false (refusal ▸ server.not_saysOk_refusal reason) fun both => ?_
      rcases ControlServer.admitted_iff.mp both.1 with ⟨duration, passed⟩
      rw [failed] at passed
      cases passed
  | busy valid busy =>
      refine iff_of_false (server.not_saysOk_refusal _) fun both => ?_
      rw [busy] at both
      cases both.2
  | started valid idle =>
      exact iff_of_true (server.saysOk_granted _)
        ⟨ControlServer.admitted_iff.mpr ⟨_, valid⟩, idle⟩

/-- The fault state changes exactly when the answer says so. -/
theorem changes_iff (handled : Handled cfg server requestText s response t)
    (running : s.nodeFaultThreadRunning = true) :
    t.faultState ≠ s.faultState ↔ SaysOk response := by
  cases handled with
  | refused failed =>
      rcases server.refusal_of_checkRequest failed with ⟨reason, refusal⟩
      exact iff_of_false (fun change => change rfl) (refusal ▸ server.not_saysOk_refusal reason)
  | busy => exact iff_of_false (fun change => change rfl) (server.not_saysOk_refusal _)
  | started valid idle grants others starts =>
      refine iff_of_true (fun same => ?_) (server.saysOk_granted _)
      have active := active_of_started (server.seconds_pos_of_checked valid) running idle grants
        others starts
      have kept : t.nodeFaultActive = s.nodeFaultActive := congrArg FaultState.active same
      simp only [NodeState.isNodeFaultBusy, Bool.or_eq_false_iff] at idle
      rw [active, idle.1] at kept
      cases kept

/-- A request without the token of the node changes nothing, and its answer does
not depend on the state. -/
theorem of_unauthorized (handled : Handled cfg server requestText s response t)
    {answer : Text} (failed : server.checkRequest requestText = .error answer) :
    response = answer ∧ t = s := by
  cases handled with
  | refused failed' =>
      rw [failed] at failed'
      cases failed'
      exact ⟨rfl, rfl⟩
  | busy valid => rw [failed] at valid; cases valid
  | started valid => rw [failed] at valid; cases valid

end Handled

/-- The gate.  Every request gets an answer; it reports success exactly when the
request is admitted and the node is idle, and exactly then the fault state
changes.  Without the node's token, the answer is the same in all states. -/
theorem control_gate (cfg : BridgeConfig) (server : ControlServer) (requestText : Text) :
    (∀ s : NodeState, s.nodeFaultThreadRunning = true -> s.scheduled cfg = true ->
      s.pc .control = .idle ->
      (∃ response t, Handled cfg server requestText s response t) ∧
      ∀ response t, Handled cfg server requestText s response t ->
        (SaysOk response ↔ Admitted server requestText ∧ s.isNodeFaultBusy = false) ∧
        (t.faultState ≠ s.faultState ↔ SaysOk response)) ∧
    (server.token ≠ [] -> lastField requestText (literal "token") ≠ some server.token ->
      ∃ answer, ∀ s response t, Handled cfg server requestText s response t ->
        response = answer ∧ t.faultState = s.faultState) := by
  refine ⟨fun s running serving waits => ⟨?_, fun response t handled => ?_⟩, ?_⟩
  · exact Handled.exists_answer cfg server requestText running serving waits
  · exact ⟨handled.saysOk_iff, handled.changes_iff running⟩
  · intro protected_ unknown
    have refused : ¬ Admitted server requestText := fun admitted =>
      admitted.token.elim protected_ unknown
    rcases ControlServer.refused_of_not_admitted refused with ⟨answer, failed⟩
    refine ⟨answer, fun s response t handled => ?_⟩
    have same := handled.of_unauthorized failed
    exact ⟨same.1, congrArg NodeState.faultState same.2⟩

/-- A node with a token, asked by a client that knows it. -/
theorem control_gate_granted :
    ∃ (cfg : BridgeConfig) (server : ControlServer) (s : NodeState) (response : Text)
      (t : NodeState),
      Handled cfg server (literal "command=start_node_fault;duration_sec=2;token=lab") s response
        t ∧ SaysOk response ∧ t.faultState ≠ s.faultState := by
  let cfg : BridgeConfig := ⟨[], [], none, id, fun _ => 0⟩
  let server : ControlServer :=
    ⟨[], literal "lab", fun text => if text = literal "2" then some (.finite 2, 1) else none,
      fun _ => literal "2", ⟨1, by decide⟩⟩
  let s := NodeState.initial cfg 0
  rcases (control_gate cfg server
    (literal "command=start_node_fault;duration_sec=2;token=lab")).1 s rfl rfl rfl
      with ⟨⟨response, t, handled⟩, gate⟩
  have laws := gate response t handled
  have ok : SaysOk response := by
    refine laws.1.mpr ⟨⟨by decide +kernel, ?_, .inr (by decide +kernel), ?_⟩, rfl⟩
    · intro target found
      have absent : lastField (literal "command=start_node_fault;duration_sec=2;token=lab")
          (literal "target") = none := by decide +kernel
      rw [absent] at found
      cases found
    · exact ⟨literal "2", .finite 2, by decide +kernel, rfl, by decide⟩
  exact ⟨cfg, server, s, response, t, handled, ok, laws.2.mpr ok⟩

end SwarmBridge
