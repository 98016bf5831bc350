import SwarmBridge.Foundation.Network
import SwarmBridge.SimComm.Arrivals
import SwarmBridge.Wire.Decoding
import Mathlib.Data.Fintype.Basic

namespace SwarmBridge

open Foundation

/-!
# A swarm of bridges

Every bridge of the swarm is a node of its own.  A send topic writes to a PUB socket, and
each receive topic has a SUB socket that is connected to one such socket, at the same or
at another bridge; a PUB socket may have any number of subscribers.  A connection keeps
the order, and may lose messages: while it is down, before it is made, and when the
subscriber is slow.

What is on its way are the frames that `send_serialized_message` writes.  The receive
thread decodes them as `recv_func` does and calls `dispatch_received_message`.
-/

/-- A payload as `sub_cb` makes it: `serializationLength` is a 32-bit number, and the
buffer is resized to it. -/
def SimCommMessage.Serialized (payload : SimCommMessage) : Prop :=
  payload.dataLen = payload.data.length ∧ payload.dataLen < 2 ^ 32

/-- The frames of a payload are decoded to this payload or not at all. -/
theorem decoded_of_serialized {env : WireEnvironment} {payload message : SimCommMessage}
    {reads : List ℕ} (serialized : payload.Serialized)
    (dispatched : recvFunc env (sendSerializedMessage payload) = .dispatched message reads) :
    message = payload := by
  rcases of_dispatched dispatched with
    ⟨header, body, rest, dataLen, frames, readable, -, rfl, -⟩
  rcases serialized with ⟨whole, small⟩
  have fits : payload.dataLen < 2 ^ 64 := lt_trans small (by decide)
  have isBody : payload.data.take payload.dataLen = payload.data := by
    rw [whole, List.take_length]
  rw [sendSerializedMessage, isBody] at frames
  cases frames
  rw [env.readSize_appendSize _ fits, Option.some_inj] at readable
  rw [← readable, whole, env.memcpy_length, ← whole]

/-! ## What a step adds to the history of a channel -/

namespace NodeState

variable {cfg : BridgeConfig} {channel : Channel} {s t : NodeState} {action : Action}

/-- What has left the node only grows. -/
theorem delivered_grows (valid : cfg.hasChannel channel = true)
    (stepped : nodeStep cfg s action = some t) :
    (s.view channel).delivered <+: (t.view channel).delivered :=
  (log_grows ((nodeStep_cases stepped).onChannel valid)).filterMap _

/-- Only a call of the dispatch function adds to the arrivals of its channel. -/
theorem arrived_of_other (valid : cfg.hasChannel channel = true)
    (stepped : nodeStep cfg s action = some t) (other : ∀ payload, action ≠ .arrive channel payload) :
    (t.view channel).arrived = (s.view channel).arrived := by
  have step : ChannelStep cfg channel s action t := (nodeStep_cases stepped).onChannel valid
  cases step with
  | @arrived payload => exact absurd rfl (other payload)
  | same view => rw [view]
  | swapped _ view => rw [view]; rfl
  | opened _ view => rw [view]; rfl
  | took _ _ _ _ _ view => simp [view, stamp, Event.arrived?]
  | passed _ _ _ _ _ view => simp [view, stamp, Event.arrived?]
  | enqueued _ _ _ view => simp [view, stamp, Event.arrived?]
  | delivered _ _ _ view => simp [view, stamp, Event.arrived?]
  | dequeued _ _ _ view => simp [view, stamp, Event.arrived?]
  | replayedDirect _ _ view => simp [view, stamp, Event.arrived?]
  | replayedQueued _ _ _ _ view => simp [view, stamp, Event.arrived?]

theorem arrived_of_arrive {payload : SimCommMessage}
    (stepped : nodeStep cfg s (.arrive channel payload) = some t) :
    (t.view channel).arrived = (s.view channel).arrived ++ [⟨s.arrivals, payload⟩] := by
  have step : NodeStep cfg s (.arrive channel payload) t := nodeStep_cases stepped
  cases step with
  | arrive =>
      rw [NodeState.arrive, NodeState.view_move]
      simp [NodeState.view, ChannelView.arrived, Event.channel?, Event.arrived?]

end NodeState

/-! ## The swarm -/

/-- Bridges and the connections between them.  A connection goes from a send topic, given
by its bridge and its index, to a receive topic; a receive topic has at most one. -/
structure Swarm (Bridge Link : Type) where
  config : Bridge -> BridgeConfig
  wire : Bridge -> WireEnvironment
  source : Link -> Bridge × ℕ
  target : Link -> Bridge × ℕ
  hasSource : ∀ link, (config (source link).1).hasChannel (.send (source link).2) = true
  hasTarget : ∀ link, (config (target link).1).hasChannel (.recv (target link).2) = true
  single : Function.Injective target

namespace Swarm

variable {Bridge Link : Type} (W : Swarm Bridge Link)

/-- The PUB side of a connection. -/
def sends (link : Link) (s : NodeState) : ChannelView := s.view (.send (W.source link).2)

/-- The SUB side of a connection. -/
def gets (link : Link) (s : NodeState) : ChannelView := s.view (.recv (W.target link).2)

/-- What the receive thread hands to `dispatch_received_message`, if anything. -/
def decode (link : Link) (frames : List Frame) : Option SimCommMessage :=
  match recvFunc (W.wire (W.target link).1) frames with
  | .rejected => none
  | .dispatched message _ => some message

/-- What has been written to the PUB socket of a connection. -/
def written (link : Link) (s : NodeState) : List (List Frame) :=
  (W.sends link s).delivered.map fun message => sendSerializedMessage message.payload

theorem written_grows (link : Link) {s t : NodeState} {action : Action}
    (stepped : nodeStep (W.config (W.source link).1) s action = some t) :
    W.written link s <+: W.written link t := by
  unfold written sends
  exact List.IsPrefix.map _ (NodeState.delivered_grows (W.hasSource link) stepped)

/-- The swarm as a network. -/
def network : Network Bridge NodeState Action Link (List Frame) where
  machine := fun bridge => bridgeNode (W.config bridge)
  source := fun link => (W.source link).1
  target := fun link => (W.target link).1
  written := W.written
  receives := fun link frames => (W.decode link frames).map (.arrive (.recv (W.target link).2))
  silent := by
    rintro link s ⟨now, rfl⟩
    rfl
  grows := fun link _ _ _ stepped => W.written_grows link stepped

/-- The actions that a bridge takes by itself: what arrives from ROS is serialized by
`sub_cb`, and on a receive topic with a connection nothing arrives but what the
connection delivers. -/
def Own (bridge : Bridge) : Action -> Prop
  | .arrive (.send _) payload => payload.Serialized
  | .arrive (.recv topic) _ => ∀ link, W.target link ≠ (bridge, topic)
  | _ => True

instance [DecidableEq Bridge] [Fintype Link] (bridge : Bridge) : DecidablePred (W.Own bridge)
  | .arrive (.send _) payload => inferInstanceAs (Decidable (payload.dataLen = _ ∧ _))
  | .arrive (.recv topic) _ => inferInstanceAs (Decidable (∀ link, W.target link ≠ (bridge, topic)))
  | .advance _ => .isTrue trivial
  | .request _ => .isTrue trivial
  | .run _ => .isTrue trivial
  | .stop => .isTrue trivial

/-- A state of the swarm. -/
abbrev State (_ : Swarm Bridge Link) := NetworkState Bridge NodeState Link (List Frame)

/-- The payloads with which `dispatch_send_message` was called at the source. -/
def dispatched (link : Link) (s : W.State) : List SimCommMessage :=
  (W.sends link (s.nodes (W.source link).1)).arrived.map Message.payload

/-- The payloads that were written to the PUB socket. -/
def sent (link : Link) (s : W.State) : List SimCommMessage :=
  (W.sends link (s.nodes (W.source link).1)).delivered.map Message.payload

/-- The payloads with which `dispatch_received_message` was called at the target. -/
def received (link : Link) (s : W.State) : List SimCommMessage :=
  (W.gets link (s.nodes (W.target link).1)).arrived.map Message.payload

/-- The payloads that were published at the target. -/
def published (link : Link) (s : W.State) : List SimCommMessage :=
  (W.gets link (s.nodes (W.target link).1)).delivered.map Message.payload

section Runs

variable {W} [DecidableEq Bridge] [DecidableEq Link] {allow : Bridge -> NodeState -> Action -> Prop}
  {s : W.State}

/-- In the swarm a bridge is called with serialized payloads only. -/
theorem serialized_of_reaches (run : W.network.system.Reaches (W.network.Steps W.Own allow) s)
    (link : Link) :
    ∀ message ∈ (W.sends link (s.nodes (W.source link).1)).arrived, message.payload.Serialized := by
  have serializing : W.network.system.Reaches (W.network.Steps W.Own fun _ _ action =>
      ∀ topic payload, action = .arrive (.send topic) payload -> payload.Serialized) s := by
    apply run.mono
    intro s action allowed
    cases action with
    | act bridge action =>
        refine ⟨allowed.1, ?_⟩
        rintro topic payload rfl
        exact allowed.1
    | receive link =>
        intro frames _ action takes topic payload same
        rcases Option.map_eq_some_iff.mp takes with ⟨message, -, rfl⟩
        cases same
    | lose => trivial
  apply (Network.reaches_node serializing (W.source link).1).invariant
    (P := fun s => ∀ message ∈ (W.sends link s).arrived, message.payload.Serialized)
  · rintro s ⟨now, rfl⟩ message member
    cases member
  · intro s action t _ before serialized stepped message member
    by_cases calls : ∃ payload, action = .arrive (.send (W.source link).2) payload
    · rcases calls with ⟨payload, rfl⟩
      have arrived : (W.sends link t).arrived = (W.sends link s).arrived ++ [⟨s.arrivals, payload⟩] :=
        NodeState.arrived_of_arrive stepped
      rw [arrived] at member
      rcases List.mem_append.mp member with old | new
      · exact before message old
      · rw [List.mem_singleton.mp new]
        exact serialized _ payload rfl
    · have arrived : (W.sends link t).arrived = (W.sends link s).arrived :=
        NodeState.arrived_of_other (W.hasSource link) stepped fun payload same => calls ⟨payload, same⟩
      exact before message (arrived ▸ member)

omit [DecidableEq Link] in
/-- A step that calls the receive topic of another connection, or of none, adds nothing to
what the target of this one was called with. -/
theorem received_moved_of_other (s : W.State) {bridge : Bridge} {action : Action} {after : NodeState}
    (reached : nodeStep (W.config bridge) (s.nodes bridge) action = some after) (link : Link)
    (other : ∀ payload, bridge = (W.target link).1 ->
      action ≠ .arrive (.recv (W.target link).2) payload) :
    W.received link (W.network.moved s bridge after) = W.received link s := by
  by_cases here : (W.target link).1 = bridge
  · subst here
    have arrived : (W.gets link after).arrived = (W.gets link (s.nodes (W.target link).1)).arrived :=
      NodeState.arrived_of_other (W.hasTarget link) reached fun payload => other payload rfl
    rw [received, Network.moved_nodes_self, arrived]
    rfl
  · rw [received, Network.moved_nodes_of_ne s after here]
    rfl

/-- The target is called with what the packets decode to, in the order of their arrival. -/
theorem received_eq_decoded (run : W.network.system.Reaches (W.network.Steps W.Own allow) s)
    (link : Link) : W.received link s = (s.taken link).filterMap (W.decode link) := by
  apply run.invariant (P := fun s => W.received link s = (s.taken link).filterMap (W.decode link))
  · intro s initial
    rcases initial.1 (W.target link).1 with ⟨now, start⟩
    rw [(initial.2 link).2, received, start]
    rfl
  · intro s action t _ before allowed moves
    cases Network.stepped moves with
    | @acted bridge action after reached =>
        rw [received_moved_of_other s reached link fun payload atTarget arrives => ?_]
        · exact before
        · subst atTarget arrives
          exact allowed.1 link rfl
    | @received origin frames rest action after front takes reached =>
        rcases Option.map_eq_some_iff.mp takes with ⟨message, decoded, rfl⟩
        by_cases here : link = origin
        · subst here
          have arrived : (W.gets link after).arrived = (W.gets link (s.nodes (W.target link).1)).arrived ++
              [⟨(s.nodes (W.target link).1).arrivals, message⟩] :=
            NodeState.arrived_of_arrive reached
          have last : [frames].filterMap (W.decode link) = [message] := by
            rw [List.filterMap_cons_some decoded, List.filterMap_nil]
          have history : (Network.popped s link frames rest).taken link = s.taken link ++ [frames] :=
            Function.update_self _ _ _
          have there : (W.network.moved (Network.popped s link frames rest) (W.network.target link)
              after).nodes (W.target link).1 = after := Network.moved_nodes_self _ _ _
          rw [received, there, arrived, List.map_append]
          change W.received link s ++ [message] =
            ((Network.popped s link frames rest).taken link).filterMap (W.decode link)
          rw [history, List.filterMap_append, last, before]
        · have history : (Network.popped s origin frames rest).taken link = s.taken link :=
            Function.update_of_ne here _ _
          have calls : nodeStep (W.config (W.target origin).1)
              ((Network.popped s origin frames rest).nodes (W.target origin).1)
              (.arrive (.recv (W.target origin).2) message) = some after := reached
          have unchanged := received_moved_of_other (Network.popped s origin frames rest) calls link
            fun payload atTarget arrives => here (W.single (Prod.ext atTarget.symm
              (Channel.recv.inj (Action.arrive.inj arrives).1).symm))
          change _ = ((Network.popped s origin frames rest).taken link).filterMap (W.decode link)
          rw [history, ← before]
          exact unchanged
    | lost => exact before

end Runs

end Swarm

end SwarmBridge
