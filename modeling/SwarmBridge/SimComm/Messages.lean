import Mathlib.Data.Rat.Defs
import Mathlib.Algebra.Order.Ring.Rat
import Mathlib.Data.List.Nodup

namespace SwarmBridge

/-!
# Messages, topics and the fault policies of the communication control

The data that `sim_comm.cpp` moves around.  Payloads are the serialized ROS
messages, and a topic carries the two settings the communication control reads:
its `max_bitrate` and its `fault_policy`.

A message in the model also carries its arrival number, the position at which
`dispatch_send_message` or `dispatch_received_message` was called with it among
all such calls of the node.  The program has no such field.  No definition that
models the program inspects it; the laws of the other modules are stated with it.
-/

/-- `SimCommFaultPolicy`: what a topic does with a message during a fault. -/
inductive SimCommFaultPolicy
  | drop
  | buffer
  | latest
deriving DecidableEq, Repr

/-- `SimCommMessage`: a serialized payload and its length in bytes. -/
structure SimCommMessage where
  dataLen : ℕ
  data : List UInt8
deriving DecidableEq, Repr

/-- A payload with its arrival number. -/
structure Message where
  arrival : ℕ
  payload : SimCommMessage
deriving DecidableEq, Repr

namespace Message

def dataLen (message : Message) : ℕ := message.payload.dataLen

/-- The first message arrived before the second one. -/
abbrev Earlier (first second : Message) : Prop := first.arrival < second.arrival

instance : Std.Irrefl Earlier := ⟨fun message => lt_irrefl message.arrival⟩

instance : Std.Antisymm Earlier :=
  ⟨fun _ _ before after => absurd (lt_trans before after) (lt_irrefl _)⟩

end Message

/-- The fields of `TopicInfo` that the communication control reads.  A bitrate
of zero or less means that the topic is not limited. -/
structure TopicInfo where
  maxBitrate : ℚ
  faultPolicy : SimCommFaultPolicy
deriving DecidableEq, Repr

instance : Inhabited TopicInfo := ⟨⟨0, .drop⟩⟩

/-- The two directions of the bridge, each with the index into `sendTopics` or
`recvTopics`.  The parallel vectors of `sim_comm.cpp` (`send_fault_buffers` and
`recv_fault_buffers`, and the two policy vectors) become maps on channels. -/
inductive Channel
  | send (topic : ℕ)
  | recv (topic : ℕ)
deriving DecidableEq, Repr

/-- `apply_fault_policy_to_buffer`: drop leaves the buffer alone, latest empties
it first, and the other policies append. -/
def applyFaultPolicyToBuffer (policy : SimCommFaultPolicy) (message : Message)
    (buffer : List Message) : List Message :=
  if policy = .drop then buffer
  else
    let buffer := if policy = .latest then [] else buffer
    buffer ++ [message]

@[simp] theorem applyFaultPolicyToBuffer_drop (message : Message) (buffer : List Message) :
    applyFaultPolicyToBuffer .drop message buffer = buffer := rfl

@[simp] theorem applyFaultPolicyToBuffer_buffer (message : Message) (buffer : List Message) :
    applyFaultPolicyToBuffer .buffer message buffer = buffer ++ [message] := rfl

@[simp] theorem applyFaultPolicyToBuffer_latest (message : Message) (buffer : List Message) :
    applyFaultPolicyToBuffer .latest message buffer = [message] := rfl

theorem applyFaultPolicyToBuffer_sublist (policy : SimCommFaultPolicy) (message : Message)
    (buffer : List Message) :
    (applyFaultPolicyToBuffer policy message buffer).Sublist (buffer ++ [message]) := by
  cases policy with
  | drop => exact List.sublist_append_left buffer [message]
  | buffer => exact List.Sublist.refl _
  | latest => exact List.sublist_append_right buffer [message]

/-- The purpose of a policy: what is to remain of the messages it takes during one
window. -/
def SimCommFaultPolicy.keep (policy : SimCommFaultPolicy) (taken : List Message) :
    List Message :=
  match policy with
  | .drop => []
  | .buffer => taken
  | .latest => taken.getLast?.toList

namespace SimCommFaultPolicy

@[simp] theorem keep_nil (policy : SimCommFaultPolicy) : policy.keep [] = [] := by
  cases policy <;> rfl

/-- Taking one message after the other, `apply_fault_policy_to_buffer` keeps what
the policy is to keep. -/
theorem keep_concat (policy : SimCommFaultPolicy) (taken : List Message) (message : Message) :
    policy.keep (taken ++ [message]) =
      applyFaultPolicyToBuffer policy message (policy.keep taken) := by
  cases policy with
  | drop => rfl
  | buffer => rfl
  | latest => simp [keep]

end SimCommFaultPolicy

/-- What the node reads from its configuration.  `nodeFault` is the startup
schedule, `node_fault_start_after` and `node_fault_duration`.  `durationCast`
stands for the conversion of a number of seconds to `steady_clock::duration`,
read back in seconds, and `undefinedSize` for the size that a topic of the given
bitrate works with when a cast to `size_t` has no value; nothing is assumed about
either. -/
structure BridgeConfig where
  sendTopics : List TopicInfo
  recvTopics : List TopicInfo
  nodeFault : Option (ℚ × ℚ)
  durationCast : ℚ -> ℚ
  undefinedSize : ℚ -> ℕ

namespace BridgeConfig

variable (cfg : BridgeConfig)

def topic : Channel -> TopicInfo
  | .send topic => cfg.sendTopics.getD topic default
  | .recv topic => cfg.recvTopics.getD topic default

/-- The index of the channel is a valid index into its vector. -/
def hasChannel : Channel -> Bool
  | .send topic => decide (topic < cfg.sendTopics.length)
  | .recv topic => decide (topic < cfg.recvTopics.length)

/-- `send_fault_policies` and `recv_fault_policies`. -/
def policy (channel : Channel) : SimCommFaultPolicy := (cfg.topic channel).faultPolicy

/-- A send topic with a positive bitrate goes through its bitrate queue. -/
def limited : Channel -> Bool
  | .send topic => decide (0 < (cfg.topic (.send topic)).maxBitrate)
  | .recv _ => false

/-- Every channel, in the order in which a flush visits the fault buffers. -/
def channels : List Channel :=
  (List.range cfg.sendTopics.length).map .send ++ (List.range cfg.recvTopics.length).map .recv

theorem mem_channels (channel : Channel) : channel ∈ cfg.channels ↔ cfg.hasChannel channel = true := by
  cases channel <;> simp [channels, hasChannel]

theorem channels_nodup : cfg.channels.Nodup := by
  refine List.Nodup.append ?_ ?_ ?_
  · exact List.nodup_range.map (fun _ _ same => Channel.send.inj same)
  · exact List.nodup_range.map (fun _ _ same => Channel.recv.inj same)
  · intro channel inSend inRecv
    rcases List.mem_map.mp inSend with ⟨sendTopic, -, rfl⟩
    rcases List.mem_map.mp inRecv with ⟨recvTopic, -, impossible⟩
    cases impossible

end BridgeConfig

end SwarmBridge
