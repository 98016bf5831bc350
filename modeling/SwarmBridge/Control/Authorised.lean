import SwarmBridge.Control.Session

namespace SwarmBridge

open Foundation

/-!
# Every window was asked for, and every request is answered in turn

The control server is a protocol in lockstep: a request is answered before the next one is
received, so the answers come in the order of the requests, one for each, and
success is only reported to a request that passes every check.  When only the control server
starts faults, the windows of the node are the answers that report success.
-/

instance decidableSaysOk (response : Text) : Decidable (SaysOk response) :=
  inferInstanceAs (Decidable (_ <+: _))

/-- What the control server may answer to a request, whatever the node does meanwhile. -/
inductive Answer (server : ControlServer) (request : Request) : Text -> Prop
  | refused {response : Text} (failed : server.examine request = .error response) :
      Answer server request response
  | busy {duration : Double} (valid : server.examine request = .ok duration) :
      Answer server request (server.refusal "node_fault_busy")
  | started {duration : Double} (valid : server.examine request = .ok duration) :
      Answer server request (server.granted duration)

/-- The request has a text that passes every check. -/
def AdmittedRequest (server : ControlServer) (request : Request) : Prop :=
  ∃ text ∈ request.head?, Admitted server text

namespace ControlServer

variable {server : ControlServer} {request : Request} {response : Text}

theorem admittedRequest_iff : AdmittedRequest server request ↔
    ∃ duration, server.examine request = .ok duration := by
  cases request with
  | nil =>
      constructor
      · rintro ⟨text, member, -⟩
        cases member
      · rintro ⟨duration, valid⟩
        cases valid
  | cons text parts =>
      constructor
      · rintro ⟨first, member, admitted⟩
        cases member
        exact admitted_iff.mp admitted
      · intro valid
        exact ⟨text, rfl, admitted_iff.mpr valid⟩

theorem not_saysOk_of_examined (failed : server.examine request = .error response) :
    ¬ SaysOk response := by
  cases request with
  | nil =>
      cases failed
      exact server.not_saysOk_refusal _
  | cons text parts =>
      rcases server.refusal_of_checkRequest failed with ⟨reason, rfl⟩
      exact server.not_saysOk_refusal reason

/-- Success is only reported to a request that passes every check. -/
theorem admitted_of_saysOk (answer : Answer server request response) (ok : SaysOk response) :
    AdmittedRequest server request := by
  cases answer with
  | refused failed => exact absurd ok (not_saysOk_of_examined failed)
  | busy => exact absurd ok (server.not_saysOk_refusal _)
  | started valid => exact admittedRequest_iff.mpr ⟨_, valid⟩

end ControlServer

namespace NodeStep

variable {cfg : BridgeConfig} {s t : NodeState} {action : Action}

/-- The control thread moves in its own steps, at a request and at the stop. -/
theorem control_kept (step : NodeStep cfg s action t) (other : action ≠ .run .control)
    (unasked : ∀ durationSec, action ≠ .request durationSec) (notStop : action ≠ .stop) :
    t.pc .control = s.pc .control := by
  cases action with
  | advance time =>
      cases step
      rfl
  | arrive channel payload =>
      cases step
      exact NodeState.arrive_pc_of_ne (by cases channel <;> exact Thread.noConfusion)
  | request durationSec => exact absurd rfl (unasked durationSec)
  | run thread => exact step.pc_frame fun same => other (same ▸ rfl)
  | stop => exact absurd rfl notStop

end NodeStep

namespace SessionState

/-- The window of a request that has not been answered yet. -/
def opening (c : SessionState) : ℕ :=
  match c.phase with
  | .starting _ _ => if (c.node.pc .control).quiet then 1 else 0
  | .replying _ response => if SaysOk response then 1 else 0
  | _ => 0

/-- The answers so far that report success. -/
def successes (c : SessionState) : ℕ :=
  c.exchanges.countP fun exchange => decide (SaysOk exchange.2)

end SessionState

/-- What holds of a session in every run. -/
structure Lockstep (cfg : BridgeConfig) (server : ControlServer) (c : SessionState) : Prop where
  ledger : c.asked = c.exchanges.map Prod.fst ++ (c.phase.inHand ++ c.inbox)
  answers : ∀ exchange ∈ c.exchanges, Answer server exchange.1 exchange.2
  replies : ∀ request response, c.phase = .replying request response ->
    Answer server request response
  starts : ∀ request duration, c.phase = .starting request duration ->
    server.examine request = .ok duration ∧
      (c.node.pc .control = .granted (server.seconds duration) ∨
        c.node.pc .control = .notifyOne (.inl rfl))
  idle : (∀ request duration, c.phase ≠ .starting request duration) -> c.phase ≠ .exited ->
    c.node.pc .control = .idle
  running : c.phase ≠ .exited -> c.node.nodeFaultThreadRunning = true
  windows : cfg.ControlOnly -> c.node.windows = c.successes + c.opening

namespace Lockstep

variable {cfg : BridgeConfig} {server : ControlServer} {c d : SessionState}
  {action : SessionAction} {moves : Action}

theorem initial (now : ℚ) : Lockstep cfg server (SessionState.initial cfg now) where
  ledger := rfl
  answers := fun _ member => by cases member
  replies := fun _ _ replies => by cases replies
  starts := fun _ _ starts => by cases starts
  idle := fun _ _ => rfl
  running := fun _ => rfl
  windows := fun _ => rfl

/-- Without a startup schedule no other thread opens a window. -/
theorem windows_of_foreign {t : NodeState} (handshake : ControlHandshake c.node)
    (foreign : c.foreign moves = true) (stepped : nodeStep cfg c.node moves = some t) :
    t.windows = c.node.windows := by
  have step : NodeStep cfg c.node moves t := nodeStep_cases stepped
  by_cases isStop : moves = .stop
  · subst isStop
    cases step
    rfl
  · refine ((step.fault isStop).window_kept ?_).2
    cases moves with
    | run thread =>
        cases thread with
        | control => simp [SessionState.foreign] at foreign
        | startup =>
            simp only [startsFault]
            split
            case h_1 wake durationSec at_sleep =>
              exact absurd at_sleep (handshake.not_sleeping wake durationSec)
            case h_2 => rfl
        | _ => rfl
    | _ => rfl

theorem moved {t : NodeState} (lockstep : Lockstep cfg server c)
    (handshake : cfg.ControlOnly -> ControlHandshake c.node) (foreign : c.foreign moves = true) (stepped : nodeStep cfg c.node moves = some t) :
    Lockstep cfg server { c with node := t } := by
  have step : NodeStep cfg c.node moves t := nodeStep_cases stepped
  have notStop : c.phase ≠ .exited -> moves ≠ .stop := by
    rintro serving rfl
    exact serving (of_decide_eq_true foreign)
  have control : c.phase ≠ .exited -> t.pc .control = c.node.pc .control := by
    intro serving
    apply step.control_kept
    · rintro rfl
      simp [SessionState.foreign] at foreign
    · rintro durationSec rfl
      cases foreign
    · exact notStop serving
  refine ⟨lockstep.ledger, lockstep.answers, lockstep.replies, ?_, ?_, ?_, ?_⟩
  · intro request duration starts
    rcases lockstep.starts request duration starts with ⟨valid, at_pc⟩
    have serving : c.phase ≠ .exited := by rw [show c.phase = _ from starts]; simp
    exact ⟨valid, by rwa [control serving]⟩
  · intro others serving
    exact (control serving).trans (lockstep.idle others serving)
  · intro serving
    exact (step.running_eq (notStop serving)).trans (lockstep.running serving)
  · intro only
    have windows := windows_of_foreign (handshake only) foreign stepped
    have opening : SessionState.opening { c with node := t } = c.opening := by
      unfold SessionState.opening
      cases phase : c.phase with
      | starting request duration =>
          dsimp only
          rw [control (by rw [phase]; simp)]
      | _ => rfl
    exact windows.trans (opening ▸ lockstep.windows only)

/-- The control thread goes from one phase to another one outside `start_node_fault`. -/
theorem turns (lockstep : Lockstep cfg server c) (node : d.node = c.node)
    (before : (∀ request duration, c.phase ≠ .starting request duration) ∧ c.phase ≠ .exited)
    (after : ∀ request duration, d.phase ≠ .starting request duration)
    (ledger : d.asked = d.exchanges.map Prod.fst ++ (d.phase.inHand ++ d.inbox))
    (answers : ∀ exchange ∈ d.exchanges, Answer server exchange.1 exchange.2)
    (replies : ∀ request response, d.phase = .replying request response ->
      Answer server request response)
    (windows : d.successes + d.opening = c.successes + c.opening) : Lockstep cfg server d where
  ledger := ledger
  answers := answers
  replies := replies
  starts := fun request duration starts => absurd starts (after request duration)
  idle := fun _ _ => node ▸ lockstep.idle before.1 before.2
  running := fun _ => node ▸ lockstep.running before.2
  windows := fun only => node ▸ (lockstep.windows only).trans windows.symm

theorem granted (lockstep : Lockstep cfg server c) {request : Request} {duration : Double}
    (handles : c.phase = .handling request) (valid : server.examine request = .ok duration) :
    Lockstep cfg server { c with
      node := c.node.move .control (.granted (server.seconds duration))
      phase := .starting request duration } where
  ledger := by
    rw [lockstep.ledger, handles]
    rfl
  answers := lockstep.answers
  replies := fun _ _ replies => by cases replies
  starts := by
    intro asked seconds starts
    cases starts
    refine ⟨valid, .inl ?_⟩
    rw [NodeState.move_pc, Function.update_self]
  idle := fun others _ => absurd rfl (others request duration)
  running := fun _ => lockstep.running (by rw [handles]; simp)
  windows := by
    intro only
    have windows := lockstep.windows only
    simp only [SessionState.opening, handles] at windows
    simpa [SessionState.opening, SessionState.successes, Pc.quiet] using windows

/-- The section of `start_node_fault` opens the window of the request. -/
theorem opened (lockstep : Lockstep cfg server c) {request : Request} {duration : Double}
    {t : NodeState} (starts : c.phase = .starting request duration)
    (stepped : nodeStep cfg c.node (.run .control) = some t) :
    (t.pc .control = .notifyOne (.inl rfl) ∧ t.windows = c.node.windows + 1 ∧
      c.node.pc .control = .granted (server.seconds duration)) ∨
    (t.pc .control = .idle ∧ t.windows = c.node.windows ∧
      c.node.pc .control = .notifyOne (.inl rfl)) := by
  have running := lockstep.running (by rw [starts]; simp)
  rcases lockstep.starts request duration starts with ⟨valid, at_start | at_notify⟩
  · have positive := SessionState.seconds_pos_of_examined valid
    rw [nodeStep_start positive at_start running, Option.some.injEq] at stepped
    subst stepped
    refine .inl ⟨?_, rfl, at_start⟩
    rw [NodeState.move_pc, Function.update_self]
  · simp only [nodeStep, at_notify, NodeState.section?, Option.some.injEq] at stepped
    subst stepped
    refine .inr ⟨?_, rfl, at_notify⟩
    rw [NodeState.move_pc, Function.update_self]

theorem running_of_start (lockstep : Lockstep cfg server c) {request : Request} {duration : Double}
    {t : NodeState} (starts : c.phase = .starting request duration)
    (stepped : nodeStep cfg c.node (.run .control) = some t) :
    t.nodeFaultThreadRunning = true := by
  have running := lockstep.running (by rw [starts]; simp)
  exact ((nodeStep_cases stepped).running_eq (by simp)).trans running

theorem started (lockstep : Lockstep cfg server c) {request : Request} {duration : Double}
    {t : NodeState} (starts : c.phase = .starting request duration)
    (stepped : nodeStep cfg c.node (.run .control) = some t) (ongoing : t.pc .control ≠ .idle) :
    Lockstep cfg server { c with node := t } := by
  rcases lockstep.opened starts stepped with ⟨at_notify, windows, at_start⟩ | ⟨idle, -⟩
  · refine ⟨lockstep.ledger, lockstep.answers, lockstep.replies, ?_, ?_, ?_, ?_⟩
    · intro asked seconds same
      exact ⟨(lockstep.starts asked seconds same).1, .inr at_notify⟩
    · exact fun others _ => absurd starts (others request duration)
    · exact fun _ => lockstep.running_of_start starts stepped
    · intro only
      have before := lockstep.windows only
      simp only [SessionState.opening, starts, at_start] at before
      simp only [SessionState.opening, starts, at_notify, windows, before]
      rfl
  · exact absurd idle ongoing

theorem finished (lockstep : Lockstep cfg server c) {request : Request} {duration : Double}
    {t : NodeState} (starts : c.phase = .starting request duration)
    (stepped : nodeStep cfg c.node (.run .control) = some t) (idle : t.pc .control = .idle) :
    Lockstep cfg server { c with node := t, phase := .replying request (server.granted duration) } := by
  rcases lockstep.opened starts stepped with ⟨at_notify, -⟩ | ⟨-, windows, at_notify⟩
  · rw [idle] at at_notify
    cases at_notify
  · refine ⟨?_, lockstep.answers, ?_, ?_, fun _ _ => idle, ?_, ?_⟩
    · rw [lockstep.ledger, starts]
      rfl
    · intro asked response same
      cases same
      exact .started (lockstep.starts request duration starts).1
    · exact fun _ _ impossible => by cases impossible
    · exact fun _ => lockstep.running_of_start starts stepped
    · intro only
      have before := lockstep.windows only
      simp only [SessionState.opening, starts, at_notify] at before
      simp only [SessionState.opening, windows, before, if_pos (server.saysOk_granted duration)]
      rfl

theorem step (lockstep : Lockstep cfg server c)
    (handshake : cfg.ControlOnly -> ControlHandshake c.node)
    (step : SessionStep cfg server c action d) : Lockstep cfg server d := by
  cases step with
  | moved foreign stepped => exact lockstep.moved handshake foreign stepped
  | @asked request =>
      refine ⟨?_, lockstep.answers, lockstep.replies, lockstep.starts, lockstep.idle,
        lockstep.running, lockstep.windows⟩
      rw [lockstep.ledger, List.append_assoc, List.append_assoc]
  | polled polls =>
      refine lockstep.turns rfl (by simp [polls]) (by simp) ?_ lockstep.answers (by simp) ?_
      · rw [lockstep.ledger, polls]
        rfl
      · simp [SessionState.successes, SessionState.opening, polls]
  | unasked listens =>
      refine lockstep.turns rfl (by simp [listens]) (by simp) ?_ lockstep.answers (by simp) ?_
      · rw [lockstep.ledger, listens]
        rfl
      · simp [SessionState.successes, SessionState.opening, listens]
  | received listens waiting =>
      refine lockstep.turns rfl (by simp [listens]) (by simp) ?_ lockstep.answers (by simp) ?_
      · rw [lockstep.ledger, listens, waiting]
        rfl
      · simp [SessionState.successes, SessionState.opening, listens]
  | @refused request response handles failed =>
      refine lockstep.turns rfl (by simp [handles]) (by simp) ?_ lockstep.answers ?_ ?_
      · rw [lockstep.ledger, handles]
        rfl
      · rintro asked answered same
        cases same
        exact .refused failed
      · simp [SessionState.successes, SessionState.opening, handles,
          ControlServer.not_saysOk_of_examined failed]
  | @busy request duration handles valid =>
      refine lockstep.turns rfl (by simp [handles]) (by simp) ?_ lockstep.answers ?_ ?_
      · rw [lockstep.ledger, handles]
        rfl
      · rintro asked answered same
        cases same
        exact .busy valid
      · simp [SessionState.successes, SessionState.opening, handles, server.not_saysOk_refusal]
  | granted handles valid => exact lockstep.granted handles valid
  | started starts stepped ongoing => exact lockstep.started starts stepped ongoing
  | finished starts stepped idle => exact lockstep.finished starts stepped idle
  | @replied request response replies =>
      refine lockstep.turns rfl (by simp [replies]) (by simp) ?_ ?_ (by simp) ?_
      · rw [lockstep.ledger, replies]
        simp [ServerPhase.inHand]
      · intro exchange member
        rcases List.mem_append.mp member with before | last
        · exact lockstep.answers exchange before
        · rw [List.mem_singleton.mp last]
          exact lockstep.replies request response replies
      · simp [SessionState.successes, SessionState.opening, replies, List.countP_append,
          List.countP_singleton]
  | stopped =>
      exact ⟨lockstep.ledger, lockstep.answers, lockstep.replies, lockstep.starts, lockstep.idle,
        lockstep.running, lockstep.windows⟩
  | exited polls =>
      refine ⟨?_, lockstep.answers, by simp, by simp, by simp, by simp, ?_⟩
      · rw [lockstep.ledger, polls]
        rfl
      · intro only
        have windows := lockstep.windows only
        simp only [SessionState.opening, polls] at windows
        exact windows

theorem of_reachable (run : (controlSession cfg server).Reachable c) :
    Lockstep cfg server c := by
  apply run.invariant (P := Lockstep cfg server)
  · rintro c ⟨now, rfl⟩
    exact initial now
  · intro c action d reached lockstep _ stepped
    apply lockstep.step _ (sessionStep_cases stepped)
    exact fun only => ControlHandshake.of_reachable only (controlSession_refines reached)

end Lockstep

/-! ## A node nobody asked -/

/-- No fault is active, none is being recovered from, and no message was ever taken. -/
def NodeState.Untouched (s : NodeState) : Prop :=
  s.isNodeFaultBusy = false ∧ ∀ channel window, (s.view channel).takenIn window = []

namespace NodeState

variable {cfg : BridgeConfig} {s t : NodeState} {action : Action}

/-- A node without windows stays untouched. -/
theorem untouched_of_fault (untouched : s.windows = 0 -> s.Untouched)
    (step : FaultStep cfg s action t) (unopened : t.windows = 0) : t.Untouched := by
  have calm : s.windows = 0 -> s.nodeFaultActive = false ∧ s.nodeFaultRecovering = false :=
    fun none => Bool.or_eq_false_iff.mp (untouched none).1
  have same : t.windows = s.windows -> t.nodeFaultActive = s.nodeFaultActive ->
      (t.nodeFaultRecovering = s.nodeFaultRecovering ∨ t.nodeFaultRecovering = false) ->
      t.TakesAs s -> t.Untouched := by
    intro windows active recovering taken
    have before := windows.symm.trans unopened
    have settled : t.nodeFaultRecovering = false :=
      recovering.elim (fun kept => kept.trans (calm before).2) id
    refine ⟨Bool.or_eq_false_iff.mpr ⟨active.trans (calm before).1, settled⟩, ?_⟩
    exact fun channel window => (taken channel window).trans ((untouched before).2 channel window)
  cases step with
  | still _ _ recovering active _ _ windows _ taken =>
      exact same windows active (.inl recovering) taken
  | took _ _ open_ _ _ _ _ _ _ windows =>
      rw [(calm (windows.symm.trans unopened)).1] at open_
      cases open_
  | opened _ _ _ _ _ windows =>
      rw [unopened] at windows
      cases windows
  | began _ _ _ _ open_ _ _ _ _ _ _ windows =>
      rw [(calm (windows.symm.trans unopened)).1] at open_
      cases open_
  | swapped _ _ _ _ recovering active _ _ windows _ taken =>
      exact same windows active (.inl recovering) taken
  | replayed _ _ _ _ recovering active _ _ windows _ taken =>
      exact same windows active (.inl recovering) taken
  | ended _ _ _ _ recovering active _ _ windows _ taken =>
      exact same windows active (.inr recovering) taken

/-- A node that has opened no window is untouched. -/
theorem untouched_of_unopened (run : (bridgeNode cfg).Reachable s) :
    s.windows = 0 -> s.Untouched := by
  apply run.invariant (P := fun s => s.windows = 0 -> s.Untouched)
  · rintro s ⟨now, rfl⟩ -
    exact ⟨rfl, fun _ _ => rfl⟩
  · intro s action t _ untouched _ stepped
    have step : NodeStep cfg s action t := nodeStep_cases stepped
    by_cases isStop : action = .stop
    · subst isStop
      cases step
      exact fun unopened => ⟨rfl, (untouched unopened).2⟩
    · exact untouched_of_fault untouched (step.fault isStop)

end NodeState

/-! ## What a session has done -/

/-- The request passes every check of `handle_control_request` on its text. -/
def ControlServer.admits (server : ControlServer) (request : Request) : Bool :=
  (server.examine request).isOk

theorem ControlServer.admits_iff {server : ControlServer} {request : Request} :
    server.admits request = true ↔ AdmittedRequest server request := by
  rw [admittedRequest_iff, admits]
  cases server.examine request <;> simp [Except.isOk, Except.toBool]

namespace Lockstep

variable {cfg : BridgeConfig} {server : ControlServer} {c : SessionState}

/-- The window that has no answer yet belongs to the request in hand. -/
theorem opening_le (lockstep : Lockstep cfg server c) :
    c.opening ≤ c.phase.inHand.countP server.admits := by
  unfold SessionState.opening
  cases phase : c.phase with
  | starting request duration =>
      have admits : server.admits request = true := ControlServer.admits_iff.mpr
        (ControlServer.admittedRequest_iff.mpr ⟨_, (lockstep.starts request duration phase).1⟩)
      simp only [ServerPhase.inHand, List.countP_singleton, if_pos admits]
      split_ifs <;> omega
  | replying request response =>
      simp only [ServerPhase.inHand, List.countP_singleton]
      split_ifs with ok refused refused
      · exact le_rfl
      · have answer := lockstep.replies request response phase
        exact absurd (ControlServer.admits_iff.mpr (ControlServer.admitted_of_saysOk answer ok))
          refused
      · exact Nat.zero_le 1
      · exact le_rfl
  | _ => exact Nat.zero_le _

/-- The requests that were told of a success pass every check. -/
theorem successes_le (lockstep : Lockstep cfg server c) :
    c.successes ≤ (c.exchanges.map Prod.fst).countP server.admits := by
  rw [List.countP_map]
  apply List.countP_mono_left
  intro exchange member ok
  have answer := lockstep.answers exchange member
  exact ControlServer.admits_iff.mpr
    (ControlServer.admitted_of_saysOk answer (of_decide_eq_true ok))

/-- There are no more windows than requests that were received and pass every check. -/
theorem windows_le (lockstep : Lockstep cfg server c) (only : cfg.ControlOnly) :
    c.node.windows ≤ c.asked.countP server.admits := by
  have successes := lockstep.successes_le
  have opening := lockstep.opening_le
  rw [lockstep.ledger, List.countP_append, List.countP_append, lockstep.windows only]
  omega

end Lockstep

/-- The control server as a protocol.  In every run, whatever the clients ask and however the
threads of the node interleave, the answers go to the requests in their order, one for each,
and success is only reported to requests that pass every check.  When only the control server
starts faults, the windows of the node are the answers that report success, and one more at most
for the request in hand; there are no more windows than requests that pass the checks; and as
long as there is none, the node is not busy and no message was ever taken. -/
theorem every_window_was_asked_for (cfg : BridgeConfig) (server : ControlServer)
    (c : SessionState) (run : (controlSession cfg server).Reachable c) :
    c.asked = c.exchanges.map Prod.fst ++ (c.phase.inHand ++ c.inbox) ∧
    (∀ exchange ∈ c.exchanges, Answer server exchange.1 exchange.2 ∧
      (SaysOk exchange.2 -> AdmittedRequest server exchange.1)) ∧
    (cfg.ControlOnly ->
      c.successes ≤ c.node.windows ∧ c.node.windows ≤ c.successes + c.phase.inHand.length ∧
      c.node.windows ≤ c.asked.countP server.admits ∧
      ((∀ request ∈ c.asked, ¬ AdmittedRequest server request) -> c.node.Untouched)) := by
  have lockstep : Lockstep cfg server c := Lockstep.of_reachable run
  refine ⟨lockstep.ledger, ?_, fun only => ⟨?_, ?_, lockstep.windows_le only, ?_⟩⟩
  · intro exchange member
    have answer := lockstep.answers exchange member
    exact ⟨answer, ControlServer.admitted_of_saysOk answer⟩
  · rw [lockstep.windows only]
    exact Nat.le_add_right _ _
  · rw [lockstep.windows only]
    have held : c.opening ≤ c.phase.inHand.length :=
      lockstep.opening_le.trans (List.countP_le_length)
    omega
  · intro refused
    apply NodeState.untouched_of_unopened (controlSession_refines run)
    have none : c.asked.countP server.admits = 0 := by
      rw [List.countP_eq_zero]
      exact fun request member admits => refused request member
        (ControlServer.admits_iff.mp admits)
    exact Nat.le_zero.mp (none ▸ lockstep.windows_le only)

/-- A node without topics. -/
def labConfig : BridgeConfig := ⟨[], [], none, id, fun _ => 0⟩

/-- A server with a token, which reads one number. -/
def labServer : ControlServer where
  nodeId := []
  token := literal "lab"
  stod := fun text => if text = literal "2" then some (.finite 2, 1) else none
  printed := fun _ => literal "2"
  overflowSec := ⟨1, by decide⟩

/-- A stranger asks first, and then someone who knows the token. -/
def labSchedule : List SessionAction :=
  [.ask [literal "command=start_node_fault;duration_sec=2"],
    .ask [literal "command=start_node_fault;duration_sec=2;token=lab"],
    .poll, .receive, .handle, .reply, .poll, .receive, .handle, .start, .start, .reply]

/-- The stranger is refused, and one window is opened. -/
theorem every_window_was_asked_for_lab :
    ∃ c, (controlSession labConfig labServer).Reachable c ∧ c.successes = 1 ∧
      c.exchanges.length = 2 ∧ c.node.windows = 1 := by
  have executed : ((controlSession labConfig labServer).exec (fun _ _ => True)
      (SessionState.initial labConfig 0) labSchedule).map (fun c =>
        (c.successes, c.exchanges.length, c.phase.inHand.length)) = some (1, 2, 0) := by
    decide +kernel
  have started : (controlSession labConfig labServer).init (SessionState.initial labConfig 0) :=
    ⟨0, rfl⟩
  rcases Machine.exists_reaches_of_exec _ started executed with ⟨c, reached, observed⟩
  rcases Prod.mk.inj observed with ⟨successes, rest⟩
  rcases Prod.mk.inj rest with ⟨answered, inHand⟩
  have bounds := (every_window_was_asked_for labConfig labServer c reached).2.2 rfl
  refine ⟨c, reached, successes, answered, le_antisymm ?_ ?_⟩
  · exact bounds.2.1.trans (by omega)
  · exact successes ▸ bounds.1

end SwarmBridge
