import SwarmBridge.Config.Params
import SwarmBridge.Foundation.Checked
import SwarmBridge.SimComm.Messages

namespace SwarmBridge

open Foundation

/-!
# The startup of the node

`main` reads the configuration topic by topic, binds and connects the sockets, looks the
message types up, converts the fault policies and starts the control server.  The
process ends at the first thing that does not fit; otherwise the bridge runs with what
was read.
-/

/-! ## Fields of a topic -/

/-- `TopicInfo`, with all of its fields. -/
structure TopicParams where
  name : Text
  type : Text
  maxFreq : ℤ
  maxBitrate : Double
  faultPolicy : Text
  ip : Text
  port : ℤ
deriving DecidableEq, Repr

/-- `get_optional_bitrate_param`. -/
def getOptionalBitrateParam (stod : Text -> Option (Double × ℕ))
    (topicXml : List (Text × XmlRpcValue)) (fieldName : String) (defaultValue : Double) :
    Except StartupFailure Double :=
  match member? topicXml fieldName with
  | none => .ok defaultValue
  | some (.int value) => .ok (.finite value)
  | some (.double value) => .ok value
  | some (.string text) => parseBitrateText stod text (literal fieldName)
  | some _ => .error (.fatal 1 (literal "[bridge_node] Optional bitrate config \"" ++
      literal fieldName ++ literal "\" must be a number or a string with k/m suffix!"))

/-- `get_optional_string_param`. -/
def getOptionalStringParam (topicXml : List (Text × XmlRpcValue)) (fieldName : String)
    (defaultValue : Text) : Except StartupFailure Text :=
  match member? topicXml fieldName with
  | none => .ok defaultValue
  | some (.string text) => .ok text
  | some _ => .error (.fatal 1 (literal "[bridge_node] Optional config \"" ++
      literal fieldName ++ literal "\" must be a string!"))

/-- `parse_fault_policy`. -/
def parseFaultPolicy (policyName topicName : Text) : Except StartupFailure SimCommFaultPolicy :=
  if policyName = literal "drop" then .ok .drop
  else if policyName = literal "buffer" then .ok .buffer
  else if policyName = literal "latest" then .ok .latest
  else .error (.fatal 1 (literal "[bridge_node] Invalid fault_policy \"" ++ policyName ++
      literal "\" on topic \"" ++ topicName ++ literal "\". Use drop, buffer, or latest."))

/-- The comparison `max_bitrate < 0.0`. -/
def Double.negative : Double -> Bool
  | .nan => false
  | .infinite negative => negative
  | .finite value => decide (value < 0)

/-! ## Message types -/

/-- The message classes that the bridge is compiled with. -/
inductive MsgClass
  | imu
  | twist
  | string
deriving DecidableEq, Repr

/-- `MSG_TYPE1`, `MSG_TYPE2` and `MSG_TYPE3`. -/
def MsgClass.typeName : MsgClass -> Text
  | .imu => literal "sensor_msgs/Imu"
  | .twist => literal "geometry_msgs/Twist"
  | .string => literal "std_msgs/String"

/-- The chain of comparisons that `topic_subscriber`, `topic_publisher` and
`deserialize_publish` share. -/
def byMsgType {α : Type} (msgType : Text) (act : MsgClass -> Except StartupFailure α) :
    Except StartupFailure α :=
  if msgType = MsgClass.imu.typeName then act .imu
  else if msgType = MsgClass.twist.typeName then act .twist
  else if msgType = MsgClass.string.typeName then act .string
  else .error (.fatal 1 (literal "Invalid ROS msg_type \"" ++ msgType ++
      literal "\" in configuration!"))

/-- `SUB_MAX`. -/
def subMax : ℕ := 50

/-- The table `sub_callbacks`: its entry `i` is `sub_cb<T, i>`. -/
def subCallbackTable : List ℕ := List.range 50

namespace StartupEnvironment

variable (env : StartupEnvironment)

/-- `nh_sub`: the subscriber calls `sub_cb` with this class and this index. -/
def nhSub (topicName : Text) (msgClass : MsgClass) (i : ℕ) : Except StartupFailure (MsgClass × ℕ) :=
  match subCallbackTable[i]? with
  | none => .error .undefined
  | some callback => if env.validName topicName then .ok (msgClass, callback) else .error .thrown

/-- `topic_subscriber`. -/
def topicSubscriber (topicName msgType : Text) (i : ℕ) : Except StartupFailure (MsgClass × ℕ) :=
  byMsgType msgType fun msgClass => env.nhSub topicName msgClass i

/-- `topic_publisher`. -/
def topicPublisher (topicName msgType : Text) : Except StartupFailure MsgClass :=
  byMsgType msgType fun msgClass => if env.validName topicName then .ok msgClass else .error .thrown

end StartupEnvironment

/-- `deserialize_publish`: the class that a received payload is deserialized as. -/
def deserializePublish (msgType : Text) : Except StartupFailure MsgClass :=
  byMsgType msgType .ok

/-! ## The lists of topics -/

/-- `XmlRpcValue::getType() == TypeStruct`, by `ROS_ASSERT`. -/
def assertStruct : XmlRpcValue -> Except StartupFailure (List (Text × XmlRpcValue))
  | .struct members => .ok members
  | _ => .error .asserted

/-- A list of topics; one that is missing counts as empty. -/
def topicList : Option XmlRpcValue -> Except StartupFailure (List XmlRpcValue)
  | none => .ok []
  | some (.array items) => .ok items
  | some _ => .error .asserted

/-- `ip_map`, read through `operator[]`, which makes up an empty entry for a host that
is not there. -/
abbrev IpMap := Text -> Text

namespace StartupEnvironment

variable (env : StartupEnvironment)

/-- The loop over `ip_xml`. -/
def readHosts (ipMap : IpMap) : List (Text × XmlRpcValue) -> Except StartupFailure IpMap
  | [] => .ok ipMap
  | (hostName, value) :: rest => do
      let hostIp ← env.asString (some value)
      readHosts (Function.update ipMap hostName hostIp) rest

/-- One turn of the loop over `send_topics_xml`. -/
def readSendTopic (ipMap : IpMap) (srcPorts : List ℤ) (item : XmlRpcValue) :
    Except StartupFailure TopicParams := do
  let topicXml ← assertStruct item
  let topicName ← env.asString (member? topicXml "topic_name")
  let msgType ← env.asString (member? topicXml "msg_type")
  let maxFreq ← env.asInt (member? topicXml "max_freq")
  let maxBitrate ← getOptionalBitrateParam env.stod topicXml "max_bitrate" (.finite 0)
  let faultPolicy ← getOptionalStringParam topicXml "fault_policy" (literal "drop")
  ensure (maxBitrate.negative = false) (.fatal 3
    (literal "[bridge_node] max_bitrate of send topic \"" ++ topicName ++
      literal "\" must be greater than or equal to 0!"))
  let srcHost ← env.asString (member? topicXml "srcIP")
  let srcPort ← env.asInt (member? topicXml "srcPort")
  ensure (srcPort ∉ srcPorts) (.fatal 3
    (literal "[bridge_node] Send topics with the same srcPort " ++ literal (toString srcPort) ++
      literal " in configuration!"))
  -- `topic.name.at(0)`
  ensure (topicName ≠ []) .thrown
  pure ⟨topicName, msgType, maxFreq, maxBitrate, faultPolicy, ipMap srcHost, srcPort⟩

/-- One turn of the loop over `recv_topics_xml`. -/
def readRecvTopic (ipMap : IpMap) (item : XmlRpcValue) : Except StartupFailure TopicParams := do
  let topicXml ← assertStruct item
  let topicName ← env.asString (member? topicXml "topic_name")
  let msgType ← env.asString (member? topicXml "msg_type")
  let faultPolicy ← getOptionalStringParam topicXml "fault_policy" (literal "drop")
  let srcHost ← env.asString (member? topicXml "srcIP")
  let srcPort ← env.asInt (member? topicXml "srcPort")
  ensure (topicName ≠ []) .thrown
  pure ⟨topicName, msgType, 0, .finite 0, faultPolicy, ipMap srcHost, srcPort⟩

end StartupEnvironment

/-! ## Sockets and threads -/

/-- The URL of an endpoint. -/
def endpoint (ip : Text) (port : ℤ) : Text :=
  literal "tcp://" ++ ip ++ literal ":" ++ literal (toString port)

def TopicParams.url (topic : TopicParams) : Text := endpoint topic.ip topic.port

/-- `ControlServerConfig`. -/
structure ControlServerConfig where
  enabled : Bool
  nodeId : Text
  bindIp : Text
  bindPort : ℤ
  token : Text
deriving DecidableEq, Repr

/-- The parameters of the node, those of a plain type as `getParam` and `param` convert
them: without a value when they are missing or of another type. -/
structure NodeParams where
  ip : Option XmlRpcValue
  sendTopics : Option XmlRpcValue
  recvTopics : Option XmlRpcValue
  nodeFaultDuration : Option Double
  nodeFaultStartAfter : Option Double
  controlEnabled : Option Bool
  controlNodeId : Option Text
  controlBindIp : Option Text
  controlBindPort : Option ℤ
  controlToken : Option Text

/-- What the bridge runs with: the vectors `sendTopics` and `recvTopics`, the subscribers
and publishers, the fault policies, the scheduled fault (its delay and its duration), and
the settings of the control server. -/
structure BridgeSetup where
  sendTopics : List TopicParams
  recvTopics : List TopicParams
  topicSubs : List (MsgClass × ℕ)
  topicPubs : List MsgClass
  sendFaultPolicies : List SimCommFaultPolicy
  recvFaultPolicies : List SimCommFaultPolicy
  nodeFault : Option (Double × Double)
  control : ControlServerConfig
deriving DecidableEq, Repr

namespace StartupEnvironment

variable (env : StartupEnvironment)

/-- The loop that binds the send sockets, after those already bound. -/
def bindAll (bound : List Text) : List Text -> Except StartupFailure Unit
  | [] => .ok ()
  | url :: rest => do
      ensure (env.binds bound url = true) .thrown
      bindAll (bound ++ [url]) rest

/-- The loop that makes the subscribers, from the send topic `i` on. -/
def subscribeAll (i : ℕ) : List TopicParams -> Except StartupFailure (List (MsgClass × ℕ))
  | [] => .ok []
  | topic :: rest => do
      let subscriber ← env.topicSubscriber topic.name topic.type i
      let subscribers ← subscribeAll (i + 1) rest
      pure (subscriber :: subscribers)

/-- `start_control_server`, and `return 4` when it fails. -/
def startControlServer (bound : List Text) (config : ControlServerConfig) :
    Except StartupFailure Unit :=
  if config.enabled = false then .ok ()
  else if config.bindPort ≤ 0 ∨ 65535 < config.bindPort then
    .error (.fatal 4 (literal "[control_server] Invalid control_bind_port: " ++
      literal (toString config.bindPort)))
  else
    let url := endpoint config.bindIp config.bindPort
    if env.binds bound url then .ok ()
    else .error (.fatal 4 (literal "[control_server] Control server stopped on " ++ url ++
      literal ": " ++ env.bindError url))

/-- The settings of the control server, an empty `node_id` replaced by the name of the node. -/
def controlConfig (params : NodeParams) : ControlServerConfig where
  enabled := params.controlEnabled.getD false
  nodeId := if params.controlNodeId.getD [] = [] then env.nodeName else params.controlNodeId.getD []
  bindIp := params.controlBindIp.getD (literal "*")
  bindPort := params.controlBindPort.getD 3999
  token := params.controlToken.getD []

end StartupEnvironment

/-- The startup schedule of `main`. -/
def scheduledFault (params : NodeParams) : Option (Double × Double) :=
  match params.nodeFaultDuration with
  | none => none
  | some duration =>
      if duration.positive then some (params.nodeFaultStartAfter.getD (.finite 0), duration) else none

/-- The members of `ip_xml`. -/
def hostList : Option XmlRpcValue -> Except StartupFailure (List (Text × XmlRpcValue))
  | none => .error (.fatal 1 (literal "[bridge node] No IP found in the configuration!"))
  | some (.struct hosts) => .ok hosts
  | some _ => .error .undefined

/-- `main` up to `ros::spin`. -/
def startup (env : StartupEnvironment) (params : NodeParams) : Except StartupFailure BridgeSetup := do
  ensure (params.ip.isSome = true)
    (.fatal 1 (literal "[bridge node] No IP found in the configuration!"))
  let sendTopicsXml ← topicList params.sendTopics
  let recvTopicsXml ← topicList params.recvTopics
  ensure (sendTopicsXml.length ≤ subMax) (.fatal 2
    (literal "[bridge_node] The number of send topics in configuration exceeds the limit 50!"))
  let hosts ← hostList params.ip
  let ipMap ← env.readHosts (fun _ => []) hosts
  let sendTopics ← readFresh (env.readSendTopic ipMap) TopicParams.port [] sendTopicsXml
  let recvTopics ← recvTopicsXml.mapM (env.readRecvTopic ipMap)
  env.bindAll [] (sendTopics.map TopicParams.url)
  ensure (∀ topic ∈ recvTopics, env.connects topic.url = true) .thrown
  let topicSubs ← env.subscribeAll 0 sendTopics
  let topicPubs ← recvTopics.mapM fun topic => env.topicPublisher topic.name topic.type
  let sendFaultPolicies ← sendTopics.mapM fun topic => parseFaultPolicy topic.faultPolicy topic.name
  let recvFaultPolicies ← recvTopics.mapM fun topic => parseFaultPolicy topic.faultPolicy topic.name
  let control := env.controlConfig params
  env.startControlServer (sendTopics.map TopicParams.url) control
  pure ⟨sendTopics, recvTopics, topicSubs, topicPubs, sendFaultPolicies, recvFaultPolicies,
    scheduledFault params, control⟩

/-! ## The node that runs -/

/-- A bitrate as the comparisons with it see it: one that is no number limits nothing,
and an infinite one is not represented. -/
def Double.rate? : Double -> Option ℚ
  | .nan => some 0
  | .infinite _ => none
  | .finite value => some value

/-- A number of seconds, if it is one. -/
def Double.seconds? : Double -> Option ℚ
  | .finite value => some value
  | _ => none

/-- The topics with their policies, as the communication control sees them. -/
def topicInfos (topics : List TopicParams) (policies : List SimCommFaultPolicy) :
    Option (List TopicInfo) :=
  (topics.zip policies).mapM fun topic => topic.1.maxBitrate.rate?.map fun rate => ⟨rate, topic.2⟩

/-- The startup schedule in seconds. -/
def faultSeconds : Option (Double × Double) -> Option (Option (ℚ × ℚ))
  | none => some none
  | some (startAfter, duration) =>
      match startAfter.seconds?, duration.seconds? with
      | some startAfter, some duration => some (some (startAfter, duration))
      | _, _ => none

/-- The node of a setup whose numbers are finite. -/
def BridgeSetup.bridge? (setup : BridgeSetup) (durationCast : ℚ -> ℚ)
    (undefinedSize : ℚ -> ℕ) : Option BridgeConfig :=
  match topicInfos setup.sendTopics setup.sendFaultPolicies,
      topicInfos setup.recvTopics setup.recvFaultPolicies, faultSeconds setup.nodeFault with
  | some sendTopics, some recvTopics, some nodeFault =>
      some ⟨sendTopics, recvTopics, nodeFault, durationCast, undefinedSize⟩
  | _, _, _ => none

end SwarmBridge
