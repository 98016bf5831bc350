import SwarmBridge.Control.Authorised

namespace SwarmBridge

open Foundation

/-!
# Requests are answered, and the control thread ends

While the control thread is not passed over for ever, every request that arrives is answered
in its turn, unless the server is stopped first.  A request that was received is answered
even then, and when the flag is cleared the control thread ends, so that the `join` of
`stop_control_server` returns.
-/

/-- How far the control thread has come with a request, the fourth and the fifth stage in
`start_node_fault`. -/
def SessionState.stage (c : SessionState) : ℕ :=
  match c.phase with
  | .polling => 0
  | .listening => 1
  | .handling _ => 2
  | .starting _ _ => if (c.node.pc .control).quiet then 4 else 3
  | .replying _ _ => 5
  | .exited => 0

/-- The stages of all requests so far. -/
def SessionState.progress (c : SessionState) : ℕ :=
  6 * c.exchanges.length + c.stage

/-- The stages before the next test of the flag. -/
def SessionState.distance (c : SessionState) : ℕ :=
  if c.phase = .polling then 0 else 6 - c.stage

/-- The requests that were received, answered or not. -/
def SessionState.received (c : SessionState) : ℕ :=
  c.exchanges.length + c.phase.inHand.length

/-- The steps of the control thread. -/
def SessionAction.own : SessionAction -> Bool
  | .poll | .receive | .handle | .start | .reply => true
  | .node _ | .ask _ | .stopServer => false

/-- The step of the control thread that is next. -/
def SessionState.turn (c : SessionState) : SessionAction :=
  match c.phase with
  | .listening => .receive
  | .handling _ => .handle
  | .starting _ _ => .start
  | .replying _ _ => .reply
  | _ => .poll

/-- The control thread is where it was. -/
structure SessionState.Waits (c d : SessionState) : Prop where
  phase : d.phase = c.phase
  exchanges : d.exchanges = c.exchanges
  control : c.phase ≠ .exited -> d.node.pc .control = c.node.pc .control

namespace SessionState

variable {cfg : BridgeConfig} {server : ControlServer} {c d : SessionState}
  {action : SessionAction}

theorem turn_own (c : SessionState) : c.turn.own = true := by
  unfold turn
  cases c.phase <;> rfl

theorem Waits.trans {e : SessionState} (waits : c.Waits d) (later : d.Waits e) : c.Waits e where
  phase := later.phase.trans waits.phase
  exchanges := later.exchanges.trans waits.exchanges
  control := by
    intro serves
    exact (later.control (waits.phase ▸ serves)).trans (waits.control serves)

theorem Waits.turn (waits : c.Waits d) : d.turn = c.turn := by
  unfold SessionState.turn
  rw [waits.phase]

theorem Waits.stage (waits : c.Waits d) (serves : c.phase ≠ .exited) : d.stage = c.stage := by
  unfold SessionState.stage
  rw [waits.phase, waits.control serves]

theorem Waits.progress (waits : c.Waits d) (serves : c.phase ≠ .exited) :
    d.progress = c.progress := by
  unfold SessionState.progress
  rw [waits.exchanges, waits.stage serves]

theorem Waits.distance (waits : c.Waits d) (serves : c.phase ≠ .exited) :
    d.distance = c.distance := by
  unfold SessionState.distance
  rw [waits.phase, waits.stage serves]

/-- A step of the node that is none of the control thread leaves it where it is. -/
theorem waits_of_foreign {moves : Action} {t : NodeState} (foreign : c.foreign moves = true)
    (stepped : nodeStep cfg c.node moves = some t) : c.Waits { c with node := t } where
  phase := rfl
  exchanges := rfl
  control := by
    intro serves
    apply (nodeStep_cases stepped).control_kept
    · rintro rfl
      simp [SessionState.foreign] at foreign
    · rintro durationSec rfl
      cases foreign
    · rintro rfl
      exact serves (of_decide_eq_true foreign)

/-- What a step of the control thread brings: the end, or the next stage, or nothing when
there is no request.  With the flag cleared it comes nearer to the test of the flag. -/
structure Advances (c d : SessionState) : Prop where
  further : d.phase = .exited ∨ c.progress < d.progress ∨ c.phase = .listening ∧ c.inbox = []
  nearer : c.running = false -> d.phase = .exited ∨ d.distance < c.distance

/-- The control thread stays where it is in the steps of others, and advances in its own. -/
theorem moves (lockstep : Lockstep cfg server c) (step : SessionStep cfg server c action d) :
    c.Waits d ∧ action.own = false ∨ action = c.turn ∧ c.Advances d := by
  cases step with
  | moved foreign stepped => exact .inl ⟨waits_of_foreign foreign stepped, rfl⟩
  | asked => exact .inl ⟨⟨rfl, rfl, fun _ => rfl⟩, rfl⟩
  | stopped => exact .inl ⟨⟨rfl, rfl, fun _ => rfl⟩, rfl⟩
  | polled polls running =>
      refine .inr ⟨by rw [turn, polls], .inr (.inl ?_), ?_⟩
      · simp [progress, stage, polls]
      · simp [running]
  | exited polls => exact .inr ⟨by rw [turn, polls], .inl rfl, fun _ => .inl rfl⟩
  | unasked listens empty =>
      refine .inr ⟨by rw [turn, listens], .inr (.inr ⟨listens, empty⟩), fun _ => .inr ?_⟩
      simp [distance, stage, listens]
  | received listens =>
      refine .inr ⟨by rw [turn, listens], .inr (.inl ?_), fun _ => .inr ?_⟩
      · simp [progress, stage, listens]
      · simp [distance, stage, listens]
  | refused handles | busy handles =>
      refine .inr ⟨by rw [turn, handles], .inr (.inl ?_), fun _ => .inr ?_⟩
      · simp [progress, stage, handles]
      · simp [distance, stage, handles]
  | granted handles =>
      refine .inr ⟨by rw [turn, handles], .inr (.inl ?_), fun _ => .inr ?_⟩
      · simp [progress, stage, handles, Pc.quiet]
      · simp [distance, stage, handles, Pc.quiet]
  | started starts stepped ongoing =>
      rcases lockstep.opened starts stepped with ⟨at_notify, -, at_start⟩ | ⟨idle, -⟩
      · refine .inr ⟨by rw [turn, starts], .inr (.inl ?_), fun _ => .inr ?_⟩
        · simp [progress, stage, starts, at_notify, at_start, Pc.quiet]
        · simp [distance, stage, starts, at_notify, at_start, Pc.quiet]
      · exact absurd idle ongoing
  | finished starts =>
      refine .inr ⟨by rw [turn, starts], .inr (.inl ?_), fun _ => .inr ?_⟩
      · simp only [progress, stage, starts]
        split_ifs <;> omega
      · simp only [distance, stage, starts, reduceCtorEq, if_false]
        split_ifs <;> omega
  | replied replies =>
      refine .inr ⟨by rw [turn, replies], .inr (.inl ?_), fun _ => .inr ?_⟩
      · simp only [progress, stage, replies, List.length_append, List.length_singleton]
        omega
      · simp [distance, stage, replies]

/-- The next step of the control thread is enabled. -/
theorem turn_enabled (lockstep : Lockstep cfg server c) (serves : c.phase ≠ .exited)
    (scheduled : c.node.scheduled cfg = true) : sessionStep cfg server c c.turn ≠ none := by
  cases phase : c.phase with
  | polling => simp [turn, phase, sessionStep, scheduled]
  | listening =>
      cases waiting : c.inbox with
      | nil => simp [turn, phase, sessionStep, waiting]
      | cons request rest => simp [turn, phase, sessionStep, waiting]
  | handling request =>
      have idle : c.node.pc .control = .idle := lockstep.idle (by simp [phase]) serves
      simp only [turn, phase, sessionStep, handle]
      cases server.examine request with
      | error response => simp
      | ok duration => simp [nodeStep, scheduled, idle]
  | starting request duration =>
      rcases lockstep.starts request duration phase with ⟨valid, at_start | at_notify⟩
      · simp [turn, phase, sessionStep, start, nodeStep, NodeState.section?, at_start]
      · simp [turn, phase, sessionStep, start, nodeStep, NodeState.section?, at_notify]
  | replying request response => simp [turn, phase, sessionStep]
  | exited => exact absurd phase serves

/-- There are six stages to an answer. -/
theorem progress_lt (c : SessionState) : c.progress < 6 * (c.exchanges.length + 1) := by
  unfold progress stage
  cases c.phase with
  | starting request duration =>
      dsimp only
      split_ifs <;> omega
  | _ =>
      dsimp only
      omega

end SessionState

namespace SessionStep

variable {cfg : BridgeConfig} {server : ControlServer} {c d : SessionState}
  {action : SessionAction}

theorem asked_grows (step : SessionStep cfg server c action d) : c.asked <+: d.asked := by
  cases step with
  | asked => exact List.prefix_append _ _
  | _ => exact List.prefix_rfl

theorem scheduled (step : SessionStep cfg server c action d)
    (scheduled : c.node.scheduled cfg = true) : d.node.scheduled cfg = true := by
  rcases step.node with same | ⟨moves, stepped⟩
  · rwa [same]
  · exact NodeState.scheduled_step scheduled stepped

/-- The flag is only ever cleared. -/
theorem stopped_kept (step : SessionStep cfg server c action d) (stopped : c.running = false) :
    d.running = false := by
  cases step with
  | stopped => rfl
  | _ => exact stopped

/-- A request that was received stays received. -/
theorem received_le (step : SessionStep cfg server c action d) : c.received ≤ d.received := by
  cases step with
  | stopped | moved | asked | started => exact le_rfl
  | polled phase | exited phase | unasked phase | received phase | refused phase | busy phase
  | granted phase | finished phase | replied phase =>
      simp [SessionState.received, phase, ServerPhase.inHand]

end SessionStep

/-- An infinite run in which the control thread is not passed over for ever while it can
step. -/
structure FairSession {cfg : BridgeConfig} {server : ControlServer} {origin : SessionState}
    (trace : (controlSession cfg server).Trace (fun _ _ => True) origin) : Prop where
  reached : (controlSession cfg server).Reachable origin
  fair : ∀ action : SessionAction, action.own = true -> trace.Fair action

namespace FairSession

variable {cfg : BridgeConfig} {server : ControlServer} {origin : SessionState} {n m k : ℕ}
  {trace : (controlSession cfg server).Trace (fun _ _ => True) origin}

theorem reaches (fair : FairSession trace) (n : ℕ) :
    (controlSession cfg server).Reachable (trace.state n) := by
  rcases fair.reached with ⟨first, initial, path⟩
  exact ⟨first, initial, path.trans (trace.path n)⟩

theorem lockstep (fair : FairSession trace) (n : ℕ) : Lockstep cfg server (trace.state n) :=
  .of_reachable (fair.reaches n)

theorem step (trace : (controlSession cfg server).Trace (fun _ _ => True) origin) (n : ℕ) :
    SessionStep cfg server (trace.state n) (trace.action n) (trace.state (n + 1)) :=
  sessionStep_cases (trace.steps n)

/-! ## What lasts -/

theorem asked_mono (after : n ≤ m) : (trace.state n).asked <+: (trace.state m).asked := by
  induction m, after using Nat.le_induction with
  | base => exact List.prefix_rfl
  | succ m _ ih => exact ih.trans (step trace m).asked_grows

theorem scheduled_mono (scheduled : (trace.state n).node.scheduled cfg = true) (after : n ≤ m) :
    (trace.state m).node.scheduled cfg = true := by
  induction m, after using Nat.le_induction with
  | base => exact scheduled
  | succ m _ ih => exact (step trace m).scheduled ih

theorem received_mono (after : n ≤ m) : (trace.state n).received ≤ (trace.state m).received := by
  induction m, after using Nat.le_induction with
  | base => exact le_rfl
  | succ m _ ih => exact ih.trans (step trace m).received_le

theorem stopped_mono (stopped : (trace.state n).running = false) (after : n ≤ m) :
    (trace.state m).running = false := by
  induction m, after using Nat.le_induction with
  | base => exact stopped
  | succ m _ ih => exact (step trace m).stopped_kept ih

/-! ## Progress -/

/-- The control thread takes its next step. -/
theorem takes_turn (fair : FairSession trace) (serves : (trace.state n).phase ≠ .exited)
    (scheduled : (trace.state n).node.scheduled cfg = true) :
    ∃ m, n ≤ m ∧ (trace.state n).Waits (trace.state m) ∧
      (trace.state m).Advances (trace.state (m + 1)) := by
  have turns : ∃ m, n ≤ m ∧ (trace.state n).Waits (trace.state m) ∧
      trace.action m = (trace.state n).turn := by
    refine Machine.Trace.leads_to (P := fun m => (trace.state n).Waits (trace.state m) ∧ n ≤ m)
      (fair.fair _ (SessionState.turn_own (trace.state n))) ?_ ?_ ?_ ?_
    · rintro m ⟨waits, after⟩
      rw [← waits.turn]
      apply SessionState.turn_enabled (fair.lockstep m) _ (scheduled_mono scheduled after)
      rwa [waits.phase]
    · rintro m ⟨waits, after⟩
      rcases SessionState.moves (fair.lockstep m) (step trace m) with ⟨stays, -⟩ | ⟨own, -⟩
      · exact .inl ⟨waits.trans stays, Nat.le_succ_of_le after⟩
      · exact .inr ⟨waits, own.trans waits.turn⟩
    · exact fun m ⟨waits, _⟩ taken => ⟨waits, taken⟩
    · exact ⟨⟨rfl, rfl, fun _ => rfl⟩, le_rfl⟩
  rcases turns with ⟨m, after, waits, taken⟩
  rcases SessionState.moves (fair.lockstep m) (step trace m) with ⟨-, other⟩ | ⟨-, advances⟩
  · rw [taken, SessionState.turn_own] at other
    cases other
  · exact ⟨m, after, waits, advances⟩

/-- As long as a request waits for its turn, the control thread finds one to receive. -/
theorem unanswered (fair : FairSession trace) (arrived : k < (trace.state m).asked.length)
    (unanswered : (trace.state m).exchanges.length ≤ k) :
    ¬ ((trace.state m).phase = .listening ∧ (trace.state m).inbox = []) := by
  rintro ⟨listens, empty⟩
  have ledger := congrArg List.length (fair.lockstep m).ledger
  rw [listens, empty] at ledger
  simp only [ServerPhase.inHand, List.append_nil, List.length_map] at ledger
  omega

/-- The request with a given number gets its turn, or the control thread ends. -/
theorem comes_to (fair : FairSession trace)
    (scheduled : (trace.state n).node.scheduled cfg = true)
    (arrived : k < (trace.state n).asked.length) :
    ∃ m, n ≤ m ∧ ((trace.state m).phase = .exited ∨ k < (trace.state m).exchanges.length) := by
  refine Machine.Trace.leads_to_of_descent (P := fun m => n ≤ m)
    (fun m => 6 * (k + 1) - (trace.state m).progress) ?_ le_rfl
  intro m after
  by_cases exits : (trace.state m).phase = .exited
  · exact ⟨m, le_rfl, .inr (.inl exits)⟩
  by_cases answered : k < (trace.state m).exchanges.length
  · exact ⟨m, le_rfl, .inr (.inr answered)⟩
  rcases fair.takes_turn exits (scheduled_mono scheduled after) with
    ⟨later, onward, waits, advances⟩
  have grows : (trace.state n).asked <+: (trace.state later).asked :=
    asked_mono (after.trans onward)
  have grown := grows.length_le
  have unanswered := fair.unanswered (m := later) (k := k) (by omega)
    (by rw [waits.exchanges]; omega)
  have below := (trace.state m).progress_lt
  have same := waits.progress exits
  rcases advances.further with ends | more | idle
  · exact ⟨later + 1, by omega, .inr (.inl ends)⟩
  · exact ⟨later + 1, by omega, .inl ⟨by omega, by omega⟩⟩
  · exact absurd idle unanswered

/-- After the flag is cleared, the control thread ends. -/
theorem ends (fair : FairSession trace) (scheduled : (trace.state n).node.scheduled cfg = true)
    (stopped : (trace.state n).running = false) :
    ∃ m, n ≤ m ∧ (trace.state m).phase = .exited := by
  refine Machine.Trace.leads_to_of_descent (P := fun m => n ≤ m)
    (fun m => (trace.state m).distance) ?_ le_rfl
  intro m after
  by_cases exits : (trace.state m).phase = .exited
  · exact ⟨m, le_rfl, .inr exits⟩
  rcases fair.takes_turn exits (scheduled_mono scheduled after) with
    ⟨later, onward, waits, advances⟩
  rcases advances.nearer (stopped_mono stopped (after.trans onward)) with ends | nearer
  · exact ⟨later + 1, by omega, .inr ends⟩
  · rw [waits.distance exits] at nearer
    exact ⟨later + 1, by omega, .inl ⟨by omega, nearer⟩⟩

/-- The answer with a number is to the request with the number. -/
theorem exchange_of_asked (fair : FairSession trace) {request : Request}
    (asked : (trace.state n).asked[k]? = some request) (after : n ≤ m)
    (answered : k < (trace.state m).exchanges.length) :
    ∃ response, (trace.state m).exchanges[k]? = some (request, response) ∧
      Answer server request response := by
  have lockstep := fair.lockstep m
  have still : (trace.state m).asked[k]? = some request := by
    have grows : (trace.state n).asked <+: (trace.state m).asked := asked_mono after
    rcases grows with ⟨later, same⟩
    rw [← same, List.getElem?_append_left (List.getElem?_eq_some_iff.mp asked).1, asked]
  rw [lockstep.ledger, List.getElem?_append_left (by simpa using answered), List.getElem?_map,
    Option.map_eq_some_iff] at still
  rcases still with ⟨⟨first, response⟩, found, rfl⟩
  exact ⟨response, found, lockstep.answers _ (List.mem_of_getElem? found)⟩

end FairSession

/-- The progress of the control server.  In every fair run, a request that has arrived is
answered in its turn, whatever the other threads and the other clients do, unless the control
thread ends before it receives the request; and once `stop_control_server` has cleared the flag,
the control thread ends. -/
theorem requests_are_answered {cfg : BridgeConfig} {server : ControlServer}
    {origin : SessionState} {trace : (controlSession cfg server).Trace (fun _ _ => True) origin}
    (fair : FairSession trace) (n : ℕ)
    (scheduled : (trace.state n).node.scheduled cfg = true) :
    (∀ k request, (trace.state n).asked[k]? = some request -> ∃ m, n ≤ m ∧
      ((∃ response, (trace.state m).exchanges[k]? = some (request, response) ∧
        Answer server request response) ∨
      (trace.state n).received ≤ k ∧ (trace.state m).phase = .exited)) ∧
    ((trace.state n).running = false -> ∃ m, n ≤ m ∧ (trace.state m).phase = .exited) := by
  refine ⟨fun k request asked => ?_, fair.ends scheduled⟩
  have arrived : k < (trace.state n).asked.length := (List.getElem?_eq_some_iff.mp asked).1
  rcases fair.comes_to scheduled arrived with ⟨m, after, goal⟩
  by_cases answered : k < (trace.state m).exchanges.length
  · exact ⟨m, after, .inl (fair.exchange_of_asked asked after answered)⟩
  · have exits : (trace.state m).phase = .exited := goal.resolve_right answered
    -- a request that was received is answered before the control thread ends
    have received : (trace.state n).received ≤ (trace.state m).received :=
      FairSession.received_mono after
    rw [SessionState.received, SessionState.received, exits] at received
    refine ⟨m, after, .inr ⟨?_, exits⟩⟩
    rw [SessionState.received]
    simp only [ServerPhase.inHand, List.length_nil] at received ⊢
    omega

/-- A session whose control thread has ended, with the clock at rest. -/
def restingSession (cfg : BridgeConfig) (server : ControlServer) (c : SessionState) :
    (controlSession cfg server).Trace (fun _ _ => True) c where
  state _ := c
  action _ := .node (.advance c.node.now)
  begins := rfl
  allowed _ := trivial
  steps _ := by simp [controlSession, sessionStep, SessionState.foreign, nodeStep]

/-- A run in which the control thread ends can be continued to a fair one. -/
theorem FairSession.exists_of_path {cfg : BridgeConfig} {server : ControlServer}
    {origin c : SessionState} (reached : (controlSession cfg server).Reachable origin)
    (path : (controlSession cfg server).Path (fun _ _ => True) origin c)
    (ended : c.phase = .exited) :
    ∃ trace : (controlSession cfg server).Trace (fun _ _ => True) origin, FairSession trace := by
  rcases path.extend (restingSession cfg server c) with ⟨trace, fair, -⟩
  refine ⟨trace, reached, fun action own => ?_⟩
  apply fair
  refine fun n => ⟨n, le_rfl, .inr ?_⟩
  show sessionStep cfg server c action = none
  cases action with
  | node action | ask request | stopServer => cases own
  | _ => simp [sessionStep, ended]

/-- The second request has been received, and the server is stopped before the answer. -/
theorem requests_are_answered_lab :
    ∃ (origin : SessionState)
      (trace : (controlSession labConfig labServer).Trace (fun _ _ => True) origin),
      origin.running = false ∧ origin.exchanges.length = 1 ∧
        (∃ m response, (trace.state m).exchanges[1]? =
          some ([literal "command=start_node_fault;duration_sec=2;token=lab"], response)) ∧
        ∃ m, (trace.state m).phase = .exited := by
  have executed : (((controlSession labConfig labServer).exec (fun _ _ => True)
      (SessionState.initial labConfig 0) (labSchedule.take 8 ++ [.stopServer])).bind fun c =>
      ((controlSession labConfig labServer).exec (fun _ _ => True) c
        (labSchedule.drop 8 ++ [.poll])).map fun d =>
      [decide (c.running = false), decide (c.exchanges.length = 1), decide (c.received = 2),
        decide (c.asked[1]? = some [literal "command=start_node_fault;duration_sec=2;token=lab"]),
        decide (d.phase = .exited)]) = some (List.replicate 5 true) := by
    decide +kernel
  rcases Option.bind_eq_some_iff.mp executed with ⟨c, first, executed⟩
  rcases Option.map_eq_some_iff.mp executed with ⟨d, second, observed⟩
  simp only [List.replicate, List.cons.injEq, decide_eq_true_eq] at observed
  rcases observed with ⟨stopped, answered, received, asked, ended, -⟩
  have reached : (controlSession labConfig labServer).Reachable c :=
    Machine.reaches_of_exec ⟨0, rfl⟩ first
  have path : (controlSession labConfig labServer).Path (fun _ _ => True) c d :=
    Machine.path_of_exec second
  rcases FairSession.exists_of_path reached path ended with ⟨trace, fair⟩
  have begins : trace.state 0 = c := trace.begins
  have progress := requests_are_answered fair 0 rfl
  refine ⟨c, trace, stopped, answered, ?_, ?_⟩
  · rcases progress.1 1 _ (begins ▸ asked) with ⟨m, -, ⟨response, found, -⟩ | ⟨unreceived, -⟩⟩
    · exact ⟨m, response, found⟩
    · rw [begins, received] at unreceived
      omega
  · rcases progress.2 (by rwa [begins]) with ⟨m, -, exits⟩
    exact ⟨m, exits⟩

end SwarmBridge
