import SwarmBridge.Swarm.Fleet
import SwarmBridge.Delivery.AtMostOnce
import SwarmBridge.Delivery.RateLimited
import SwarmBridge.Delivery.UnlimitedSend

namespace SwarmBridge

open Foundation

/-!
# From a topic of one bridge to a topic of another

The laws of a single node, put together along a connection of the swarm.  Whatever
faults the two bridges simulate, and whatever the connection loses, nothing is published
that was not dispatched at the source, and nothing more often.  While both nodes keep to
the conditions of their own order, what is published is in the order of dispatch; and
when nothing is on its way any more, policy buffer on both sides has lost nothing.
-/

namespace Swarm

variable {Bridge Link : Type} [DecidableEq Bridge] [DecidableEq Link] {W : Swarm Bridge Link}
  {allow : Bridge -> NodeState -> Action -> Prop} {s : W.State}

/-! ## What one node does -/

/-- A channel that holds every message at most once gives out no payload more often than it
came in. -/
theorem payloads_subperm {channel : Channel} {s : NodeState} (held : s.SinglyHeld channel) :
    ((s.view channel).delivered.map Message.payload).Subperm
      ((s.view channel).arrived.map Message.payload) := by
  rcases List.subperm_of_subset held.delivered_nodup held.delivered_arrived with
    ⟨part, reordered, sublist⟩
  exact ⟨part.map Message.payload, reordered.map _, sublist.map _⟩

theorem sent_subperm_dispatched (run : W.network.system.Reaches (W.network.Steps W.Own allow) s)
    (link : Link) : (W.sent link s).Subperm (W.dispatched link s) := by
  exact payloads_subperm (NodeState.SinglyHeld.of_reaches (W.hasSource link)
    (Network.reaches_node run (W.source link).1))

theorem published_subperm_received (run : W.network.system.Reaches (W.network.Steps W.Own allow) s)
    (link : Link) : (W.published link s).Subperm (W.received link s) := by
  exact payloads_subperm (NodeState.SinglyHeld.of_reaches (W.hasTarget link)
    (Network.reaches_node run (W.target link).1))

/-! ## What the connection does -/

omit [DecidableEq Bridge] [DecidableEq Link] in
theorem decode_written (link : Link) {message : Message} {payload : SimCommMessage}
    (serialized : message.payload.Serialized)
    (decoded : W.decode link (sendSerializedMessage message.payload) = some payload) :
    payload = message.payload := by
  unfold decode at decoded
  split at decoded
  case h_1 => cases decoded
  case h_2 dispatched =>
    cases decoded
    exact decoded_of_serialized serialized dispatched

omit [DecidableEq Bridge] [DecidableEq Link] in
/-- With enough memory the frames of a payload are decoded to this payload. -/
theorem decode_sent {link : Link} {payload : SimCommMessage} (serialized : payload.Serialized)
    (memory : (W.wire (W.target link).1).resizes payload.dataLen = true) :
    W.decode link (sendSerializedMessage payload) = some payload := by
  have fits : payload.dataLen < 2 ^ 64 := lt_trans serialized.2 (by decide)
  simp only [decode, sendSerializedMessage]
  rw [recvFunc_two (WireEnvironment.readSize_appendSize _ _ fits) memory, serialized.1,
    List.take_length, WireEnvironment.memcpy_length, ← serialized.1]

/-- What was written has been dispatched at the source, so it is serialized. -/
theorem serialized_of_sent (run : W.network.system.Reaches (W.network.Steps W.Own allow) s)
    (link : Link) :
    ∀ message ∈ (W.sends link (s.nodes (W.source link).1)).delivered, message.payload.Serialized := by
  intro message member
  have held := NodeState.SinglyHeld.of_reaches (W.hasSource link)
    (Network.reaches_node run (W.source link).1)
  exact serialized_of_reaches run link message (held.delivered_arrived member)

/-- What the target is called with was written at the source, in this order. -/
theorem received_sublist_sent (run : W.network.system.Reaches (W.network.Steps W.Own allow) s)
    (link : Link) : (W.received link s).Sublist (W.sent link s) := by
  have packets : (s.taken link).Sublist (W.network.given s link) :=
    (List.sublist_append_left _ _).trans (Network.passed_sublist run link)
  have decoded : ((W.network.given s link).filterMap (W.decode link)).Sublist (W.sent link s) := by
    change ((W.written link _).filterMap (W.decode link)).Sublist _
    rw [written, List.filterMap_map]
    apply filterMap_sublist_map
    intro message member payload decodes
    exact decode_written link (serialized_of_sent run link message member) decodes
  rw [received_eq_decoded run link]
  exact (packets.filterMap _).trans decoded

/-! ## The order along a connection -/

/-- The two nodes of a connection keep to the conditions of their own order: the worker
of a limited send topic moves its messages in order, and the receive thread does not
overtake cached messages after the end of a window. -/
def InOrder (W : Swarm Bridge Link) (link : Link) (bridge : Bridge) (s : NodeState)
    (action : Action) : Prop :=
  (bridge = (W.source link).1 -> (W.config bridge).limited (.send (W.source link).2) = true ->
    TransfersInOrder (W.source link).2 s action ∧ PassesBeforeBatch (W.source link).2 s action) ∧
  (bridge = (W.target link).1 -> PassesDrained (.recv (W.target link).2) s action)

/-- The faults of both nodes come from their control servers. -/
def ControlOnly (W : Swarm Bridge Link) (link : Link) : Prop :=
  (W.config (W.source link).1).ControlOnly ∧ (W.config (W.target link).1).ControlOnly

/-- Neither node has been told to stop its fault control. -/
def Running (W : Swarm Bridge Link) (link : Link) (s : W.State) : Prop :=
  (s.nodes (W.source link).1).nodeFaultThreadRunning = true ∧
    (s.nodes (W.target link).1).nodeFaultThreadRunning = true

theorem reaches_source {link : Link}
    (run : W.network.system.Reaches (W.network.Steps W.Own (W.InOrder link)) s) :
    (bridgeNode (W.config (W.source link).1)).Reaches
      (W.InOrder link (W.source link).1) (s.nodes (W.source link).1) :=
  Network.reaches_node run _

/-- At the target faults are started on an idle node, and the law of a channel without a
bitrate queue holds. -/
theorem directLaw_of_target {link : Link} (only : W.ControlOnly link)
    (run : W.network.system.Reaches (W.network.Steps W.Own (W.InOrder link)) s)
    (running : W.Running link s) :
    DirectLaw ((W.config (W.target link).1).policy (.recv (W.target link).2)) (.recv (W.target link).2)
      (s.nodes (W.target link).1).arrivals (W.gets link (s.nodes (W.target link).1)) := by
  have alone : (bridgeNode (W.config (W.target link).1)).Reaches
      (W.InOrder link (W.target link).1) (s.nodes (W.target link).1) := Network.reaches_node run _
  have idle : (bridgeNode (W.config (W.target link).1)).Reaches (fun s a =>
      StartsWhenIdle s a ∧ PassesDrained (.recv (W.target link).2) s a) (s.nodes (W.target link).1) :=
    alone.strengthen fun _ action _ reached allowed _ =>
      ⟨(ControlHandshake.of_reachable only.2 reached.reachable).startsWhenIdle action, allowed.2 rfl⟩
  exact NodeState.directLaw_of_reaches (W.hasTarget link) rfl idle running.2 (fun _ _ both => both.1)
    fun _ _ both => both.2

theorem sent_sublist_dispatched {link : Link} (only : W.ControlOnly link)
    (run : W.network.system.Reaches (W.network.Steps W.Own (W.InOrder link)) s)
    (running : W.Running link s) : (W.sent link s).Sublist (W.dispatched link s) := by
  apply List.Sublist.map
  have alone := reaches_source run
  cases limited : (W.config (W.source link).1).limited (.send (W.source link).2) with
  | true =>
      have order := NodeState.LineOrder.of_reaches (W.hasSource link) limited
        (alone.mono fun _ _ allowed => allowed.1 rfl limited) running.1
      exact order.ordered.delivered_sublist
  | false =>
      exact (NodeState.sendLaw_of_reachable only.1 (W.hasSource link) limited alone.reachable
        running.1).2.delivered_sublist

/-! ## When everything has come through -/

/-- A node at rest on a channel: no window, no recovery, and the dispatching thread holds
no message. -/
structure AtRest (channel : Channel) (s : NodeState) : Prop where
  inactive : s.nodeFaultActive = false
  settled : s.nodeFaultRecovering = false
  free : (s.pc channel.reader).job? = none

instance (channel : Channel) (s : NodeState) : Decidable (AtRest channel s) :=
  decidable_of_iff (s.nodeFaultActive = false ∧ s.nodeFaultRecovering = false ∧
    (s.pc channel.reader).job? = none)
    ⟨fun rest => ⟨rest.1, rest.2.1, rest.2.2⟩, fun rest => ⟨rest.inactive, rest.settled, rest.free⟩⟩

omit [DecidableEq Bridge] [DecidableEq Link] in
/-- With policy buffer a channel without a bitrate queue that is at rest has given out all
that came in. -/
theorem delivered_of_rest {cfg : BridgeConfig} {channel : Channel} {s : NodeState}
    (direct : DirectLaw (cfg.policy channel) channel.reader s.arrivals (s.view channel))
    (orderly : s.Orderly cfg) (rest : AtRest channel s) (buffered : cfg.policy channel = .buffer) :
    (s.view channel).delivered = (s.view channel).arrived := by
  have settled : ∀ thread, (s.view channel).pending thread = [] := fun thread =>
    NodeState.pending_of_phases (orderly.exclusive.phases_eq_none rest.settled thread)
  have empty : (s.view channel).buffer = [] := orderly.empty rest.inactive rest.settled channel
  have free : (s.view channel).holding channel.reader = [] := NodeState.holding_of_free rest.free
  have law := direct.law_of_settled settled
  rw [empty, free, List.append_nil, List.append_nil, buffered] at law
  rw [law]
  exact List.filter_eq_self.mpr fun message _ => by rw [ChannelView.lost_buffer]; rfl

/-- With enough memory the frames that were written are decoded to the payloads that were sent. -/
theorem written_decoded (run : W.network.system.Reaches (W.network.Steps W.Own allow) s)
    (link : Link) (memory : ∀ payload : SimCommMessage, payload.Serialized ->
      (W.wire (W.target link).1).resizes payload.dataLen = true) :
    (W.network.given s link).filterMap (W.decode link) = W.sent link s := by
  change (W.written link _).filterMap (W.decode link) = _
  rw [written, List.filterMap_map, sent, ← List.filterMap_eq_map]
  apply List.filterMap_congr
  intro message member
  have serialized := serialized_of_sent run link message member
  exact decode_sent serialized (memory _ serialized)

/-- A connection that lost nothing and has nothing on its way has brought everything. -/
theorem received_eq_sent {link : Link} {condition : W.State -> NetworkAction Bridge Action Link -> Prop}
    (run : W.network.system.Reaches condition s)
    (steps : ∀ s a, condition s a -> W.network.Steps W.Own allow s a)
    (keeps : ∀ s a, condition s a -> Network.Keeps link a)
    (memory : ∀ payload : SimCommMessage, payload.Serialized ->
      (W.wire (W.target link).1).resizes payload.dataLen = true)
    (empty : s.wires link = []) : W.received link s = W.sent link s := by
  have own := run.mono steps
  have packets : s.taken link = W.network.given s link := by
    have passed := Network.passed_eq_given run link keeps
    rwa [Network.passed, empty, List.append_nil] at passed
  rw [received_eq_decoded own link, packets, written_decoded own link memory]

end Swarm

open Swarm

/-! ## Two bridges -/

/-- A bridge that sends one topic to another bridge, with policy buffer on both sides. -/
def pairSwarm : Swarm Bool Unit where
  config := fun receiver =>
    if receiver then ⟨[], [⟨0, .buffer⟩], none, id, fun _ => 0⟩
    else ⟨[⟨0, .buffer⟩], [], none, id, fun _ => 0⟩
  wire := fun _ => plainEnvironment
  source := fun _ => (false, 0)
  target := fun _ => (true, 0)
  hasSource := fun _ => rfl
  hasTarget := fun _ => rfl
  single := fun _ _ _ => rfl

def pairStart : pairSwarm.State where
  nodes := fun bridge => NodeState.initial (pairSwarm.config bridge) 0
  wires := fun _ => []
  taken := fun _ => []

/-- The first message arrives during a window of the receiver and is cached, the second
one arrives after the replay. -/
def pairSchedule : List (NetworkAction Bool Action Unit) :=
  [.act true (.request 1), .act true (.run .control), .act true (.run .control),
    .act false (.arrive (.send 0) ⟨1, [7]⟩), .act false (.run .ros), .act false (.run .ros),
    .act false (.run .ros), .act false (.run .ros), .act false (.run .ros),
    .receive (), .act true (.run (.recv 0)), .act true (.run (.recv 0)),
    .act true (.advance 1), .act true (.run .monitor), .act true (.run .monitor),
    .act true (.run .monitor), .act true (.run .monitor), .act true (.run .monitor),
    .act false (.arrive (.send 0) ⟨2, [8, 9]⟩), .act false (.run .ros), .act false (.run .ros),
    .act false (.run .ros), .act false (.run .ros), .act false (.run .ros),
    .receive (), .act true (.run (.recv 0)), .act true (.run (.recv 0)), .act true (.run (.recv 0))]

/-- The conditions that the schedule keeps. -/
def PairSteps (s : pairSwarm.State) (action : NetworkAction Bool Action Unit) : Prop :=
  pairSwarm.network.Steps pairSwarm.Own
    (fun receiver s action => receiver = true -> PassesDrained (.recv 0) s action) s action ∧
  Network.Keeps () action

instance (s : pairSwarm.State) : DecidablePred (PairSteps s) :=
  fun _ => inferInstanceAs (Decidable (_ ∧ _))

/-- What the run of the two bridges ends in. -/
def PairEnd (s : pairSwarm.State) : Prop :=
  ((s.nodes false).nodeFaultThreadRunning = true ∧ (s.nodes true).nodeFaultThreadRunning = true) ∧
    s.wires () = [] ∧ AtRest (.send 0) (s.nodes false) ∧ AtRest (.recv 0) (s.nodes true) ∧
    (pairSwarm.published () s).map SimCommMessage.data = [[7], [8, 9]]

instance : DecidablePred PairEnd :=
  fun _ => inferInstanceAs (Decidable (_ ∧ _))

theorem exists_pairRun : ∃ s, pairSwarm.network.system.Reaches
    (fun s a => pairSwarm.network.Steps pairSwarm.Own (pairSwarm.InOrder ()) s a ∧
      Network.Keeps () a) s ∧ PairEnd s := by
  have executed : (pairSwarm.network.system.exec PairSteps pairStart pairSchedule).map
      (fun s => decide (PairEnd s)) = some true := by
    decide +kernel
  have initial : pairSwarm.network.system.init pairStart :=
    ⟨fun _ => ⟨0, rfl⟩, fun _ => ⟨rfl, rfl⟩⟩
  rcases Machine.exists_reaches_of_exec _ initial executed with ⟨s, reached, ends⟩
  refine ⟨s, ?_, of_decide_eq_true ends⟩
  have unlimited : (pairSwarm.config false).limited (.send 0) = false := by decide +kernel
  apply reached.mono
  intro s action steps
  refine ⟨?_, steps.2⟩
  have inOrder : ∀ bridge s action, (bridge = true -> PassesDrained (.recv 0) s action) ->
      pairSwarm.InOrder () bridge s action := by
    intro bridge s action drained
    refine ⟨?_, drained⟩
    rintro rfl limited
    exact absurd (unlimited.symm.trans limited) Bool.false_ne_true
  cases action with
  | act bridge action => exact ⟨steps.1.1, inOrder _ _ _ steps.1.2⟩
  | receive link => exact fun packet front action takes => inOrder _ _ _ (steps.1 packet front action takes)
  | lose => trivial

/-- Integrity from end to end.  In every run of a swarm, with any faults at any bridges
and any losses on the way, the payloads published at the end of a connection were
dispatched at its beginning, byte for byte, and none is published more often than it was
dispatched. -/
theorem swarm_invents_nothing {Bridge Link : Type} [DecidableEq Bridge] [DecidableEq Link]
    (W : Swarm Bridge Link) (link : Link) (s : W.State)
    (run : W.network.system.Reaches (W.network.Steps W.Own fun _ _ _ => True) s) :
    (W.published link s).Subperm (W.dispatched link s) :=
  (published_subperm_received run link).trans
    ((received_sublist_sent run link).subperm.trans (sent_subperm_dispatched run link))

/-- Between the two bridges both payloads are published once. -/
theorem swarm_invents_nothing_pair : ∃ s : pairSwarm.State,
    (pairSwarm.published () s).map SimCommMessage.data = [[7], [8, 9]] ∧
      (pairSwarm.published () s).Subperm (pairSwarm.dispatched () s) := by
  rcases exists_pairRun with ⟨s, run, -, -, -, -, published⟩
  refine ⟨s, published, swarm_invents_nothing pairSwarm () s (run.mono ?_)⟩
  intro s action steps
  cases action with
  | act => exact ⟨steps.1.1, trivial⟩
  | receive => exact fun _ _ _ _ => trivial
  | lose => trivial

/-- Order from end to end.  While only the control servers of the two nodes start faults
and each step keeps to the conditions of the order of both topics, what is published at the
end of a connection is, until one of the nodes begins to stop, a subsequence of what was
dispatched at its beginning, whatever is lost on the way. -/
theorem swarm_keeps_order {Bridge Link : Type} [DecidableEq Bridge] [DecidableEq Link]
    (W : Swarm Bridge Link) (link : Link) (only : W.ControlOnly link) (s : W.State)
    (run : W.network.system.Reaches (W.network.Steps W.Own (W.InOrder link)) s)
    (running : W.Running link s) : (W.published link s).Sublist (W.dispatched link s) := by
  have published : (W.published link s).Sublist (W.received link s) :=
    (directLaw_of_target only run running).delivered_sublist.map _
  exact published.trans ((received_sublist_sent run link).trans
    (sent_sublist_dispatched only run running))

/-- The payload that was cached is published before the later one. -/
theorem swarm_keeps_order_pair : ∃ s : pairSwarm.State,
    (pairSwarm.published () s).map SimCommMessage.data = [[7], [8, 9]] ∧
      (pairSwarm.published () s).Sublist (pairSwarm.dispatched () s) := by
  rcases exists_pairRun with ⟨s, run, running, -, -, -, published⟩
  exact ⟨s, published, swarm_keeps_order pairSwarm () ⟨rfl, rfl⟩ s
    (run.mono fun _ _ both => both.1) running⟩

/-- Nothing is lost from end to end.  A connection without losses joins topics with policy
buffer, the first without a bitrate, and the receiver has the memory for each payload.  While
only the control servers of the two nodes start faults and each step keeps to the conditions
of the order of both topics, whenever the topics are at rest and nothing is on its way,
before one of the nodes begins to stop, everything that was dispatched has been published,
in the order of dispatch. -/
theorem swarm_loses_nothing {Bridge Link : Type} [DecidableEq Bridge] [DecidableEq Link]
    (W : Swarm Bridge Link) (link : Link) (only : W.ControlOnly link)
    (unlimited : (W.config (W.source link).1).limited (.send (W.source link).2) = false)
    (bufferedSource : (W.config (W.source link).1).policy (.send (W.source link).2) = .buffer)
    (bufferedTarget : (W.config (W.target link).1).policy (.recv (W.target link).2) = .buffer)
    (memory : ∀ payload : SimCommMessage, payload.Serialized ->
      (W.wire (W.target link).1).resizes payload.dataLen = true) (s : W.State)
    (run : W.network.system.Reaches
      (fun s a => W.network.Steps W.Own (W.InOrder link) s a ∧ Network.Keeps link a) s)
    (running : W.Running link s) (empty : s.wires link = [])
    (restSource : AtRest (.send (W.source link).2) (s.nodes (W.source link).1))
    (restTarget : AtRest (.recv (W.target link).2) (s.nodes (W.target link).1)) :
    W.published link s = W.dispatched link s := by
  have steps := run.mono fun _ _ both => both.1
  have source := reaches_source steps
  have target : (bridgeNode (W.config (W.target link).1)).Reachable (s.nodes (W.target link).1) :=
    (Network.reaches_node steps (W.target link).1).reachable
  have sends : W.sent link s = W.dispatched link s := by
    have direct := (NodeState.sendLaw_of_reachable only.1 (W.hasSource link) unlimited
      source.reachable running.1).2
    have orderly := NodeState.Orderly.of_reaches (reaches_startsWhenIdle only.1 source.reachable)
      running.1 fun _ _ starts => starts
    exact congrArg _ (delivered_of_rest direct orderly restSource bufferedSource)
  have publishes : W.published link s = W.received link s := by
    have direct := directLaw_of_target only steps running
    have orderly := NodeState.Orderly.of_reaches (reaches_startsWhenIdle only.2 target) running.2
      fun _ _ starts => starts
    exact congrArg _ (delivered_of_rest direct orderly restTarget bufferedTarget)
  calc
    W.published link s = W.received link s := publishes
    _ = W.sent link s := received_eq_sent run (fun _ _ both => both.1) (fun _ _ both => both.2)
      memory empty
    _ = W.dispatched link s := sends

/-- At the end of that run everything has been published. -/
theorem swarm_loses_nothing_pair : ∃ s : pairSwarm.State,
    (pairSwarm.published () s).map SimCommMessage.data = [[7], [8, 9]] ∧
      pairSwarm.published () s = pairSwarm.dispatched () s := by
  rcases exists_pairRun with ⟨s, run, running, empty, restSource, restTarget, published⟩
  exact ⟨s, published, swarm_loses_nothing pairSwarm () ⟨rfl, rfl⟩ (by decide +kernel) rfl rfl
    (fun _ _ => rfl) s run running empty restSource restTarget⟩

end SwarmBridge
