import SwarmBridge.Swarm.Service
import Mathlib.Order.Filter.AtTopBot.Basic
import Mathlib.Order.Filter.Finite

namespace SwarmBridge

open Foundation

/-!
# Windows without end do not keep a payload from end to end

A bridge gives out what it was handed, its connection brings what it was given, and the bridge
at the other end gives it out again.  Each of the three goes on for ever while windows are opened
at both ends, so a payload that was dispatched is published in the end.
-/

namespace Swarm

variable {Bridge Link : Type} {W : Swarm Bridge Link} [DecidableEq Bridge] [DecidableEq Link]
  {link : Link} {origin : W.ServiceState} {bridge : Bridge} {channel : Channel} {n m : ℕ}
  {trace : W.service.system.Trace (W.Lossless link) origin}

/-! ## At a bridge -/

/-- What a bridge has given out stays given out. -/
theorem delivered_stays (trace : W.service.system.Trace (W.Lossless link) origin)
    (valid : (W.config bridge).hasChannel channel = true) (after : n ≤ m) :
    ((((trace.state n).nodes bridge).node.view channel).delivered) <+:
      (((trace.state m).nodes bridge).node.view channel).delivered := by
  induction m, after using Nat.le_induction with
  | base => exact List.prefix_rfl
  | succ m _ ih =>
      rcases node_moves trace bridge m with same | ⟨action, -, stepped⟩
      · rwa [same]
      · exact ih.trans (NodeState.delivered_grows valid stepped)

/-- A bridge in service gives out, in the end, all that it has been handed for a topic with policy
buffer and without a bitrate. -/
theorem Serves.gives_out (serves : Serves trace bridge)
    (reached : W.service.system.Reaches (W.Lossless link) origin)
    (valid : (W.config bridge).hasChannel channel = true)
    (unlimited : (W.config bridge).limited channel = false)
    (policy : (W.config bridge).policy channel = .buffer) (n : ℕ) :
    ∃ m, n ≤ m ∧ ((((trace.state n).nodes bridge).node.view channel).arrived.map
      Message.payload).Subperm
        ((((trace.state m).nodes bridge).node.view channel).delivered.map Message.payload) := by
  have each : ∀ message ∈ {message | message ∈
        (((trace.state n).nodes bridge).node.view channel).arrived},
      ∀ᶠ m in Filter.atTop,
        message ∈ (((trace.state m).nodes bridge).node.view channel).delivered := by
    intro message arrived
    have leads : ∃ m, n ≤ m ∧
        message ∈ (((trace.state m).nodes bridge).node.view channel).delivered :=
      serves.alone.leads_to (P := fun c => message ∈ (c.node.view channel).arrived)
        (Q := fun c => message ∈ (c.node.view channel).delivered)
        (fun k => (serves.eager reached).gets_out valid unlimited policy) arrived
    rcases leads with ⟨m, -, delivered⟩
    exact Filter.eventually_atTop.mpr
      ⟨m, fun k after => (delivered_stays trace valid after).subset delivered⟩
  have all := (Filter.eventually_all_finite (List.finite_toSet _)).mpr each
  rcases (all.and (Filter.eventually_ge_atTop n)).exists with ⟨m, delivered, after⟩
  have known := NodeState.arrivals_of_reaches valid
    (sendNode_refines (node_reachable (reaches_at trace reached n) bridge))
  have distinct : (((trace.state n).nodes bridge).node.view channel).arrived.Nodup :=
    known.increasing.imp fun earlier same => absurd (same ▸ earlier) (lt_irrefl _)
  rcases List.subperm_of_subset distinct delivered with ⟨part, reordered, sublist⟩
  exact ⟨m, after, part.map Message.payload, reordered.map _, sublist.map _⟩

/-! ## On the connection -/

/-- What is on its way was sent. -/
theorem sent_of_wires {s : W.ServiceState} {frames : List Frame}
    (reached : W.service.system.Reaches (W.Lossless link) s) (waits : frames ∈ s.wires link) :
    ∃ payload : SimCommMessage, payload.Serialized ∧ frames = sendSerializedMessage payload := by
  have run := service_refines reached
  have given : frames ∈ W.network.given (W.bridges s) link := by
    rw [← Network.passed_eq_given run link fun _ _ both => both.2]
    exact List.mem_append_right _ waits
  rcases List.mem_map.mp given with ⟨message, member, rfl⟩
  exact ⟨message.payload,
    serialized_of_sent (run.mono fun _ _ both => both.1) link message member, rfl⟩

/-- An idle receive thread takes the next packet. -/
theorem receive_enabled {s : W.ServiceState}
    (reached : W.service.system.Reaches (W.Lossless link) s)
    (only : (W.config (W.target link).1).ControlOnly)
    (memory : ∀ payload : SimCommMessage, payload.Serialized ->
      (W.wire (W.target link).1).resizes payload.dataLen = true)
    (running : (s.nodes (W.target link).1).node.nodeFaultThreadRunning = true)
    (idle : (s.nodes (W.target link).1).node.pc (.recv (W.target link).2) = .idle)
    (waits : s.wires link ≠ []) : W.service.system.step s (.receive link) ≠ none := by
  rcases List.exists_cons_of_ne_nil waits with ⟨frames, rest, front⟩
  rcases sent_of_wires reached (front ▸ List.mem_cons_self) with ⟨payload, serialized, rfl⟩
  have takes : W.service.receives link (sendSerializedMessage payload) =
      some (.node (.arrive (.recv (W.target link).2) payload)) := by
    change ((W.decode link _).map _).map _ = _
    rw [decode_sent serialized (memory payload serialized)]
    rfl
  have schedule : (W.config (W.target link).1).nodeFault = none := only
  have scheduled : (s.nodes (W.target link).1).node.scheduled (W.config (W.target link).1) = true := by
    rw [NodeState.scheduled, schedule]
  have before := node_reachable reached (W.target link).1
  have alive := SendState.alive_in_service before running
  have paid := SendState.paid_of_idle before idle
  have open_ : (s.nodes (W.target link).1).writesClosed (W.config (W.target link).1)
      (.recv (W.target link).2) = false := by
    rw [SendState.writesClosed, idle]
    rfl
  have runnable : (s.nodes (W.target link).1).runnable (W.config (W.target link).1)
      (.arrive (.recv (W.target link).2) payload) = true := by
    simp [SendState.runnable, Action.thread?, Channel.reader, SendState.iterates, paid, open_]
  have arrives : sendStep (W.config (W.target link).1) (s.nodes (W.target link).1)
      (.node (.arrive (.recv (W.target link).2) payload)) ≠ none := by
    simp [sendStep_of_alive alive, SendState.liveStep, runnable, nodeStep, scheduled,
      W.hasTarget link, Channel.reader, idle]
  exact fun disabled => arrives ((Network.receive_eq_none front takes).mp disabled)

/-- The receive thread of the connection stays idle until it takes a packet: nothing else is handed
to it. -/
theorem receiver_stays (serves : Serves trace (W.target link).1)
    (idle : ((trace.state n).nodes (W.target link).1).node.pc (.recv (W.target link).2) = .idle)
    (other : trace.action n ≠ .receive link) :
    ((trace.state (n + 1)).nodes (W.target link).1).node.pc (.recv (W.target link).2) = .idle := by
  rcases node_moves trace (W.target link).1 n with same | ⟨action, does, stepped⟩
  · rw [same]
    exact idle
  have notStop : action ≠ .stop :=
    (nodeStep_cases stepped).notStop_of_running (serves.running (n + 1))
  have waits : ((trace.state n).nodes (W.target link).1).node.pc
      (Channel.recv (W.target link).2).reader = .idle := idle
  rcases NodeState.reader_idle_step stepped notStop waits with
    idle | ⟨channel, payload, rfl, reads, -⟩
  · exact idle
  have about : channel = .recv (W.target link).2 := by
    cases channel <;> cases reads
    rfl
  subst about
  exfalso
  have steps := (trace.allowed n).1
  cases act : trace.action n with
  | act bridge taken =>
      rw [act] at does steps
      simp only [Network.does] at does
      split_ifs at does with here
      cases does
      subst here
      exact steps.1 _ rfl link rfl
  | receive carrier =>
      rw [act] at does other
      simp only [Network.does] at does
      split_ifs at does with here
      rcases Option.bind_eq_some_iff.mp does with ⟨frames, -, takes⟩
      rcases Option.map_eq_some_iff.mp takes with ⟨moves, takes, same⟩
      rcases Option.map_eq_some_iff.mp takes with ⟨message, -, rfl⟩
      have topic : (W.target carrier).2 = (W.target link).2 :=
        Channel.recv.inj (Action.arrive.inj (SendAction.node.inj same)).1
      exact other (congrArg _ (W.single (Prod.ext here topic)))
  | lose lossy index =>
      rw [act] at does
      cases does

/-- What is on its way on a connection without losses stays so until a packet is taken. -/
theorem wires_stay (trace : W.service.system.Trace (W.Lossless link) origin)
    (never : ∀ m, n ≤ m -> trace.action m ≠ .receive link) (waits : (trace.state n).wires link ≠ [])
    (after : n ≤ m) : (trace.state m).wires link ≠ [] := by
  induction m, after using Nat.le_induction with
  | base => exact waits
  | succ m after ih =>
      have grows := (Network.stepped (trace.steps m)).wires (never m after) (trace.allowed m).2
      exact fun empty => ih (List.prefix_nil.mp (empty ▸ grows))

/-- The run is one in which the connection is served: both bridges are in service, and a packet
that can be taken is not left on its way for ever. -/
structure Connects (trace : W.service.system.Trace (W.Lossless link) origin) : Prop where
  reached : W.service.system.Reaches (W.Lossless link) origin
  source : Serves trace (W.source link).1
  target : Serves trace (W.target link).1
  receives : trace.Fair (.receive link)
  memory : ∀ payload : SimCommMessage, payload.Serialized ->
    (W.wire (W.target link).1).resizes payload.dataLen = true

namespace Connects

/-- The next packet is taken. -/
theorem takes (connects : Connects trace) (waits : (trace.state n).wires link ≠ []) :
    ∃ m, n ≤ m ∧ trace.action m = .receive link := by
  by_contra none
  have never : ∀ m, n ≤ m -> trace.action m ≠ .receive link :=
    fun m after taken => none ⟨m, after, taken⟩
  have comes : ∃ m, n ≤ m ∧
      ((trace.state m).nodes (W.target link).1).node.pc (.recv (W.target link).2) = .idle :=
    connects.target.alone.leads_to (P := fun _ => True)
      (Q := fun c => c.node.pc (.recv (W.target link).2) = .idle)
      (fun k _ => (connects.target.eager connects.reached).reader_comes k (.recv _)) trivial
  rcases comes with ⟨first, after, idle⟩
  have stays : ∀ m, first ≤ m ->
      ((trace.state m).nodes (W.target link).1).node.pc (.recv (W.target link).2) = .idle := by
    intro m later
    induction m, later using Nat.le_induction with
    | base => exact idle
    | succ m later ih =>
        exact receiver_stays connects.target ih (never m (after.trans later))
  rcases connects.receives first with ⟨m, later, taken | disabled⟩
  · exact never m (after.trans later) taken
  · exact receive_enabled (reaches_at trace connects.reached m) connects.target.only connects.memory
      (connects.target.running m) (stays m later) (wires_stay trace never waits (after.trans later)) disabled

/-- What has been given to the connection is taken. -/
theorem takes_all (connects : Connects trace) (n : ℕ) :
    ∃ m, n ≤ m ∧ W.service.given (trace.state n) link <+: (trace.state m).taken link := by
  have passed : ∀ m, (trace.state m).taken link ++ (trace.state m).wires link =
      W.service.given (trace.state m) link := fun m =>
    Network.passed_eq_given (reaches_at trace connects.reached m) link fun _ _ both => both.2
  have grows : ∀ m, n ≤ m ->
      W.service.given (trace.state n) link <+: W.service.given (trace.state m) link :=
    fun m after => (delivered_stays trace (W.hasSource link) after).map _
  have kept : ∀ m k, m ≤ k -> (trace.state m).taken link <+: (trace.state k).taken link := by
    intro m k after
    induction k, after using Nat.le_induction with
    | base => exact List.prefix_rfl
    | succ k after ih => exact ih.trans ((Network.stepped (trace.steps k)).taken link).1
  have enough : ∃ m, n ≤ m ∧ (n ≤ m ∧
      (W.service.given (trace.state n) link).length ≤ ((trace.state m).taken link).length) := by
    refine Machine.Trace.leads_to_of_descent (P := fun m => n ≤ m) (fun m =>
      (W.service.given (trace.state n) link).length - ((trace.state m).taken link).length) ?_ le_rfl
    intro m after
    by_cases enough : (W.service.given (trace.state n) link).length ≤
        ((trace.state m).taken link).length
    · exact ⟨m, le_rfl, .inr ⟨after, enough⟩⟩
    · have waits : (trace.state m).wires link ≠ [] := by
        intro empty
        have whole := (grows m after).length_le
        rw [← passed m, empty, List.append_nil] at whole
        exact enough whole
      rcases connects.takes waits with ⟨k, later, taken⟩
      have more := ((Network.stepped (trace.steps k)).taken link).2 taken
      have before := (kept m k later).length_le
      exact ⟨k + 1, by omega, .inl ⟨by omega, by omega⟩⟩
  rcases enough with ⟨m, -, after, enough⟩
  refine ⟨m, after, List.prefix_of_prefix_length_le (grows m after) ?_ enough⟩
  rw [← passed m]
  exact List.prefix_append _ _

/-- What has been sent is received, in the order of sending. -/
theorem brings (connects : Connects trace) (n : ℕ) :
    ∃ m, n ≤ m ∧ W.sent link (W.bridges (trace.state n)) <+:
      W.received link (W.bridges (trace.state m)) := by
  rcases connects.takes_all n with ⟨m, after, taken⟩
  have runs : ∀ m, W.network.system.Reaches (W.network.Steps W.Own fun _ _ _ => True)
      (W.bridges (trace.state m)) := fun m =>
    (service_refines (reaches_at trace connects.reached m)).mono fun _ _ both => both.1
  refine ⟨m, after, ?_⟩
  rw [← written_decoded (runs n) link connects.memory, received_eq_decoded (runs m) link]
  exact taken.filterMap _

end Connects

/-! ## Two bridges that come to rest -/

section Pair

variable {Link : Type} [DecidableEq Link] {W : Swarm Bool Link} {link : Link}
  {origin s : W.ServiceState}

/-- How often the clock of a bridge has gone on after the first steps, when the two take turns. -/
def ticks (k : ℕ) (bridge : Bool) : ℕ := if bridge then k / 2 else (k + 1) / 2

/-- The bridge whose clock goes on next. -/
def ticking (k : ℕ) : Bool := decide (k % 2 = 1)

theorem ticks_succ (k : ℕ) :
    ticks (k + 1) = Function.update (ticks k) (ticking k) (ticks k (ticking k) + 1) := by
  funext bridge
  rcases Nat.mod_two_eq_zero_or_one k with even | odd
  · have turn : ticking k = false := by simp [ticking, even]
    rw [turn]
    cases bridge <;> simp [ticks] <;> omega
  · have turn : ticking k = true := by simp [ticking, odd]
    rw [turn]
    cases bridge <;> simp [ticks] <;> omega

/-- Two bridges at rest, after so many ticks of their clocks. -/
def ticked (alive : ∀ bridge, (s.nodes bridge).ended = false) (count : Bool -> ℕ) :
    W.ServiceState where
  nodes := fun bridge =>
    (restingSend (W.config bridge) (s.nodes bridge) (alive bridge)).state (count bridge)
  wires := s.wires
  taken := s.taken

theorem ticked_step (alive : ∀ bridge, (s.nodes bridge).ended = false) (count : Bool -> ℕ)
    (bridge : Bool) :
    W.service.system.step (ticked alive count) (.act bridge
      ((restingSend (W.config bridge) (s.nodes bridge) (alive bridge)).action (count bridge))) =
        some (ticked alive (Function.update count bridge (count bridge + 1))) := by
  have stepped := (restingSend (W.config bridge) (s.nodes bridge) (alive bridge)).steps (count bridge)
  refine (Network.act_step stepped).trans (congrArg some ?_)
  have nodes : Function.update (ticked alive count).nodes bridge
      ((restingSend (W.config bridge) (s.nodes bridge) (alive bridge)).state (count bridge + 1)) =
        (ticked alive (Function.update count bridge (count bridge + 1))).nodes := by
    funext other
    by_cases same : other = bridge
    · subst same
      simp [ticked]
    · simp [ticked, same]
  have silent : ∀ link, W.service.written link
      ((restingSend (W.config bridge) (s.nodes bridge) (alive bridge)).state (count bridge + 1)) =
        W.service.written link ((ticked alive count).nodes bridge) := fun _ => rfl
  rw [Network.moved_of_written silent, nodes]
  rfl

/-- They stay at rest. -/
def restingPair (link : Link) (alive : ∀ bridge, (s.nodes bridge).ended = false) :
    W.service.system.Trace (W.Lossless link) s where
  state := fun k => ticked alive (ticks k)
  action := fun k => .act (ticking k)
    ((restingSend (W.config (ticking k)) (s.nodes (ticking k)) (alive _)).action (ticks k (ticking k)))
  begins := by
    have nodes : (ticked alive (ticks 0)).nodes = s.nodes := by
      funext bridge
      cases bridge <;> simp [ticked, ticks, restingSend]
    exact congrArg (fun nodes => NetworkState.mk nodes s.wires s.taken) nodes
  allowed := by
    intro k
    refine ⟨⟨?_, trivial⟩, trivial⟩
    rintro moves ⟨⟩
    trivial
  steps := fun k => by
    rw [ticks_succ]
    exact ticked_step alive (ticks k) (ticking k)

/-- Nothing is prompted at two resting bridges. -/
theorem ticked_disabled (resting : ∀ bridge, (s.nodes bridge).Resting (W.config bridge))
    (count : Bool -> ℕ) (bridge : Bool) {action : SendAction} (prompt : action.prompt = true) :
    W.service.system.step (ticked (fun other => (resting other).alive) count)
      (.act bridge action) = none :=
  Network.act_eq_none.mpr ((resting bridge).still _ action prompt)

/-- A run of the swarm in which two bridges come to rest can be continued to an infinite one. -/
theorem Connects.exists_of_path (reached : W.service.system.Reaches (W.Lossless link) origin)
    (path : W.service.system.Path (W.Lossless link) origin s)
    (resting : ∀ bridge, (s.nodes bridge).Resting (W.config bridge))
    (running : ∀ bridge, (s.nodes bridge).node.nodeFaultThreadRunning = true)
    (empty : s.wires link = []) (only : ∀ bridge, (W.config bridge).ControlOnly)
    (memory : ∀ payload : SimCommMessage, payload.Serialized ->
      (W.wire (W.target link).1).resizes payload.dataLen = true) :
    ∃ trace : W.service.system.Trace (W.Lossless link) origin, Connects trace := by
  have alive : ∀ bridge, (s.nodes bridge).ended = false := fun bridge => (resting bridge).alive
  rcases path.extend (restingPair link alive) with ⟨trace, fair, shift, same⟩
  have later : ∀ n, shift ≤ n -> trace.state n = ticked alive (ticks (n - shift)) := by
    intro n after
    have state := same (n - shift)
    rwa [Nat.sub_add_cancel after] at state
  have disabled : ∀ n, shift ≤ n -> ∀ (bridge : Bool) (action : SendAction),
      action.prompt = true -> W.service.system.step (trace.state n) (.act bridge action) = none := by
    intro n after bridge action prompt
    rw [later n after]
    exact ticked_disabled resting _ bridge prompt
  have serves : ∀ bridge, Serves trace bridge := by
    intro bridge
    refine ⟨only bridge, fun n => ?_, fun time => ?_, fun action prompt n => ?_, ?_⟩
    · have before : Antitone fun n =>
          ((trace.state n).nodes bridge).node.nodeFaultThreadRunning = true := by
        apply antitone_nat_of_succ_le
        intro m running
        rcases node_moves trace bridge m with same | ⟨action, -, stepped⟩
        · rwa [same] at running
        · have step := nodeStep_cases stepped
          exact (step.running_eq (step.notStop_of_running running)).symm.trans running
      apply before (le_max_left n shift)
      rw [later _ (le_max_right n shift)]
      exact running bridge
    · rcases exists_nat_ge (time - (s.nodes bridge).node.now) with ⟨k, large⟩
      refine ⟨2 * k + shift, ?_⟩
      have enough : k ≤ ticks (2 * k) bridge := by
        simp only [ticks]
        split <;> omega
      have grown : (k : ℚ) ≤ ticks (2 * k) bridge := by exact_mod_cast enough
      rw [same]
      exact sub_le_iff_le_add'.mp (large.trans grown)
    · exact ⟨max n shift, le_max_left n shift,
        .inr (disabled _ (le_max_right n shift) bridge action prompt)⟩
    · intro thread enabled
      rcases enabled shift with ⟨m, after, enabled⟩
      exact absurd (disabled m after bridge (.node (.run thread)) rfl) enabled
  refine ⟨trace, reached, serves _, serves _, fun n => ?_, memory⟩
  refine ⟨max n shift, le_max_left n shift, .inr ?_⟩
  apply Network.receive_of_empty
  rw [later _ (le_max_right n shift)]
  exact empty

end Pair

end Swarm

open Swarm

/-- Windows without end do not keep a payload.  In every infinite run of the swarm in which both
ends of a connection are in service, with faults from their control servers only, and the
connection loses nothing, whatever windows the control servers open, each payload that was dispatched at its beginning is published at its end,
as often as it was dispatched: on a connection between topics with policy buffer and without a
bitrate. -/
theorem swarm_delivers_everything {Bridge Link : Type} [DecidableEq Bridge] [DecidableEq Link]
    (W : Swarm Bridge Link) (link : Link) (origin : W.ServiceState)
    (trace : W.service.system.Trace (W.Lossless link) origin) (connects : Connects trace)
    (unlimited : (W.config (W.source link).1).limited (.send (W.source link).2) = false)
    (bufferedSource : (W.config (W.source link).1).policy (.send (W.source link).2) = .buffer)
    (bufferedTarget : (W.config (W.target link).1).policy (.recv (W.target link).2) = .buffer)
    (n : ℕ) : ∃ m, n ≤ m ∧ (W.dispatched link (W.bridges (trace.state n))).Subperm
      (W.published link (W.bridges (trace.state m))) := by
  rcases connects.source.gives_out connects.reached (W.hasSource link) unlimited bufferedSource n with
    ⟨first, after, sends⟩
  rcases connects.brings first with ⟨second, later, brings⟩
  rcases connects.target.gives_out connects.reached (W.hasTarget link) rfl bufferedTarget second with
    ⟨third, onward, publishes⟩
  exact ⟨third, by omega, sends.trans (brings.sublist.subperm.trans publishes)⟩

/-- Two bridges with a limited topic, and with one that the first sends to the second. -/
def relayConfig : BridgeConfig where
  sendTopics := [⟨80, .buffer⟩, ⟨0, .buffer⟩]
  recvTopics := [⟨0, .buffer⟩]
  nodeFault := none
  durationCast := id
  undefinedSize := fun _ => 0

def relaySwarm : Swarm Bool Unit where
  config := fun _ => relayConfig
  wire := fun _ => plainEnvironment
  source := fun _ => (false, 1)
  target := fun _ => (true, 0)
  hasSource := fun _ => rfl
  hasTarget := fun _ => rfl
  single := fun _ _ _ => rfl

def relayStart : relaySwarm.ServiceState where
  nodes := fun _ => SendState.initial relayConfig 0
  wires := fun _ => []
  taken := fun _ => []

/-- A message arrives in a window of the receiver. -/
def relayedSchedule : List (NetworkAction Bool SendAction Unit) :=
  [.act true (.node (.run (.worker 0))), .act true (.wait 0), .act true (.node (.run .monitor)),
    .act false (.node (.run (.worker 0))), .act false (.wait 0), .act false (.node (.run .monitor)),
    .act true (.node (.request 1)), .act true (.node (.run .control)),
    .act true (.node (.run .control)), .act false (.node (.arrive (.send 1) ⟨1, [7]⟩)),
    .act false (.node (.run .ros)), .act false (.node (.run .ros)), .act false (.node (.run .ros)),
    .act false (.node (.run .ros)), .act false (.node (.run .ros)), .receive (),
    .act true (.node (.run (.recv 0))), .act true (.node (.run (.recv 0)))]

/-- The monitor of the receiver replays it. -/
def republishedSchedule : List (NetworkAction Bool SendAction Unit) :=
  [.act true (.node (.advance 1)), .act true (.node (.run .monitor)),
    .act true (.node (.run .monitor)), .act true (.node (.run .monitor)),
    .act true (.node (.run .monitor)), .act true (.node (.run .monitor))]

/-- What can be checked of the two bridges at their rest. -/
def RelayEnd (s : relaySwarm.ServiceState) : Prop :=
  (∀ bridge, (s.nodes bridge).Idles ∧ (s.nodes bridge).node.pc (.recv 0) = .idle ∧
    (s.nodes bridge).node.nodeFaultThreadRunning = true) ∧ s.wires () = []

instance : DecidablePred RelayEnd := fun _ => inferInstanceAs (Decidable (_ ∧ _))

theorem relay_resting {s : relaySwarm.ServiceState} {bridge : Bool}
    (run : (sendNode relayConfig).Reachable (s.nodes bridge)) (ends : RelayEnd s) :
    (s.nodes bridge).Resting relayConfig := by
  apply idles_resting run
  · intro topic other
    match topic with
    | 0 => exact absurd rfl other
    | 1 => rfl
    | topic + 2 => rfl
  · intro topic
    cases topic with
    | zero => exact (ends.1 bridge).2.1
    | succ topic => exact NodeState.idle_of_reaches rfl (sendNode_refines run)
  · exact (ends.1 bridge).1

/-- A payload that a window of the receiver has cached is published in the end. -/
theorem swarm_delivers_everything_cached :
    ∃ (origin : relaySwarm.ServiceState)
      (trace : relaySwarm.service.system.Trace (relaySwarm.Lossless ()) origin),
      relaySwarm.dispatched () (relaySwarm.bridges origin) = [⟨1, [7]⟩] ∧
      relaySwarm.published () (relaySwarm.bridges origin) = [] ∧
      ∃ m, ([⟨1, [7]⟩] : List SimCommMessage).Subperm
        (relaySwarm.published () (relaySwarm.bridges (trace.state m))) := by
  have executed : ((relaySwarm.service.system.exec (relaySwarm.Lossless ()) relayStart
      relayedSchedule).bind fun c =>
      (relaySwarm.service.system.exec (relaySwarm.Lossless ()) c republishedSchedule).map fun d =>
      [decide (relaySwarm.dispatched () (relaySwarm.bridges c) = [⟨1, [7]⟩]),
        decide (relaySwarm.published () (relaySwarm.bridges c) = []), decide (RelayEnd d)]) =
      some [true, true, true] := by
    decide +kernel
  rcases Option.bind_eq_some_iff.mp executed with ⟨c, first, executed⟩
  rcases Option.map_eq_some_iff.mp executed with ⟨d, second, observed⟩
  simp only [List.cons.injEq, decide_eq_true_eq] at observed
  rcases observed with ⟨dispatched, published, ends, -⟩
  have initial : relaySwarm.service.system.init relayStart :=
    ⟨fun _ => ⟨0, rfl⟩, fun _ => ⟨rfl, rfl⟩⟩
  have reached : relaySwarm.service.system.Reaches (relaySwarm.Lossless ()) c :=
    Machine.reaches_of_exec initial first
  have path : relaySwarm.service.system.Path (relaySwarm.Lossless ()) c d :=
    Machine.path_of_exec second
  have last : relaySwarm.service.system.Reaches (relaySwarm.Lossless ()) d :=
    reached.imp fun _ => .imp_right fun before => before.trans path
  have only : relayConfig.ControlOnly := by simp [BridgeConfig.ControlOnly, relayConfig]
  rcases Connects.exists_of_path reached path
    (fun bridge => relay_resting (node_reachable last bridge) ends)
    (fun bridge => (ends.1 bridge).2.2) ends.2 (fun _ => only) (fun _ _ => rfl) with
    ⟨trace, connects⟩
  rcases swarm_delivers_everything relaySwarm () c trace connects (by decide +kernel) rfl rfl 0 with
    ⟨m, -, delivers⟩
  rw [trace.begins, dispatched] at delivers
  exact ⟨c, trace, dispatched, published, m, delivers⟩

end SwarmBridge
