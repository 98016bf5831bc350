import SwarmBridge.Config.Startup

namespace SwarmBridge

open Foundation

/-!
# The configurations that a node accepts

`Configured` says what a configuration is, topic by topic and field by field, and without
the order in which `main` checks it.  The node starts exactly on these, with the values
that the configuration gives, and what it then runs is the node that the laws of the
other modules are about.
-/

/-! ## What a configuration is -/

/-- The field is a text, or the one that stands for an absent field. -/
def StartupEnvironment.HasText (env : StartupEnvironment) (field : Option XmlRpcValue)
    (text : Text) : Prop :=
  field = some (.string text) ∨ field = none ∧ env.absentString = some text

/-- The field is an `int`, or the one that stands for an absent field. -/
def StartupEnvironment.HasInt (env : StartupEnvironment) (field : Option XmlRpcValue)
    (value : ℤ) : Prop :=
  field = some (.int value) ∨ field = none ∧ env.absentInt = some value

/-- An optional text. -/
inductive OptionalText (defaultValue : Text) : Option XmlRpcValue -> Text -> Prop
  | absent : OptionalText defaultValue none defaultValue
  | given (text : Text) : OptionalText defaultValue (some (.string text)) text

/-- An optional bitrate: a number, or a text with a number and a unit. -/
inductive OptionalBitrate (stod : Text -> Option (Double × ℕ)) (defaultValue : Double) :
    Option XmlRpcValue -> Double -> Prop
  | absent : OptionalBitrate stod defaultValue none defaultValue
  | int (value : ℤ) : OptionalBitrate stod defaultValue (some (.int value)) (.finite value)
  | double (value : Double) : OptionalBitrate stod defaultValue (some (.double value)) value
  | text {text : Text} {rate : Double} (written : BitrateText stod text rate) :
      OptionalBitrate stod defaultValue (some (.string text)) rate

/-- The address that the last entry for a host gives. -/
def hostAddress (hosts : List (Text × XmlRpcValue)) (hostName : Text) : Option Text :=
  hosts.reverse.findSome? fun host =>
    match host.2 with
    | .string address => if host.1 = hostName then some address else none
    | _ => none

/-- An entry of `send_topics` with the topic it describes. -/
inductive SendEntry (env : StartupEnvironment) (ipMap : IpMap) : XmlRpcValue -> TopicParams -> Prop
  | mk {members : List (Text × XmlRpcValue)} {topic : TopicParams} {srcHost : Text}
      (name : env.HasText (member? members "topic_name") topic.name) (named : topic.name ≠ [])
      (type : env.HasText (member? members "msg_type") topic.type)
      (maxFreq : env.HasInt (member? members "max_freq") topic.maxFreq)
      (maxBitrate : OptionalBitrate env.stod (.finite 0) (member? members "max_bitrate")
        topic.maxBitrate)
      (notNegative : topic.maxBitrate.negative = false)
      (faultPolicy : OptionalText (literal "drop") (member? members "fault_policy")
        topic.faultPolicy)
      (srcIP : env.HasText (member? members "srcIP") srcHost) (ip : topic.ip = ipMap srcHost)
      (srcPort : env.HasInt (member? members "srcPort") topic.port) :
      SendEntry env ipMap (.struct members) topic

/-- An entry of `recv_topics` with the topic it describes. -/
inductive RecvEntry (env : StartupEnvironment) (ipMap : IpMap) : XmlRpcValue -> TopicParams -> Prop
  | mk {members : List (Text × XmlRpcValue)} {topic : TopicParams} {srcHost : Text}
      (name : env.HasText (member? members "topic_name") topic.name) (named : topic.name ≠ [])
      (type : env.HasText (member? members "msg_type") topic.type)
      (maxFreq : topic.maxFreq = 0) (maxBitrate : topic.maxBitrate = .finite 0)
      (faultPolicy : OptionalText (literal "drop") (member? members "fault_policy")
        topic.faultPolicy)
      (srcIP : env.HasText (member? members "srcIP") srcHost) (ip : topic.ip = ipMap srcHost)
      (srcPort : env.HasInt (member? members "srcPort") topic.port) :
      RecvEntry env ipMap (.struct members) topic

/-- The items of a list of topics, which may be missing. -/
inductive TopicItems : Option XmlRpcValue -> List XmlRpcValue -> Prop
  | absent : TopicItems none []
  | given (items : List XmlRpcValue) : TopicItems (some (.array items)) items

/-- The name of a policy in a configuration. -/
def SimCommFaultPolicy.policyName : SimCommFaultPolicy -> Text
  | .drop => literal "drop"
  | .buffer => literal "buffer"
  | .latest => literal "latest"

/-- The control server is switched off, or it has a port and its endpoint is free. -/
def StartupEnvironment.CanServe (env : StartupEnvironment) (bound : List Text)
    (config : ControlServerConfig) : Prop :=
  config.enabled = true -> (0 < config.bindPort ∧ config.bindPort ≤ 65535) ∧
    env.binds bound (endpoint config.bindIp config.bindPort) = true

/-- The parameters are a configuration, and this is what it says. -/
structure Configured (env : StartupEnvironment) (params : NodeParams) (setup : BridgeSetup) :
    Prop where
  topics : ∃ hosts sendItems recvItems, params.ip = some (.struct hosts) ∧
    (∀ host ∈ hosts, ∃ address, host.2 = .string address) ∧
    TopicItems params.sendTopics sendItems ∧ TopicItems params.recvTopics recvItems ∧
    List.Forall₂ (SendEntry env fun host => (hostAddress hosts host).getD []) sendItems
      setup.sendTopics ∧
    List.Forall₂ (RecvEntry env fun host => (hostAddress hosts host).getD []) recvItems
      setup.recvTopics
  few : setup.sendTopics.length ≤ subMax
  ports : (setup.sendTopics.map TopicParams.port).Nodup
  binds : ∀ before topic after, setup.sendTopics = before ++ topic :: after ->
    env.binds (before.map TopicParams.url) topic.url = true
  connects : ∀ topic ∈ setup.recvTopics, env.connects topic.url = true
  subscribers : List.Forall₂
    (fun topic subscriber => topic.type = subscriber.1.typeName ∧ env.validName topic.name = true)
    setup.sendTopics setup.topicSubs
  callbacks : setup.topicSubs.map Prod.snd = List.range setup.sendTopics.length
  publishers : List.Forall₂
    (fun topic msgClass => topic.type = msgClass.typeName ∧ env.validName topic.name = true)
    setup.recvTopics setup.topicPubs
  sendPolicies : List.Forall₂ (fun topic policy => topic.faultPolicy = policy.policyName)
    setup.sendTopics setup.sendFaultPolicies
  recvPolicies : List.Forall₂ (fun topic policy => topic.faultPolicy = policy.policyName)
    setup.recvTopics setup.recvFaultPolicies
  nodeFault : setup.nodeFault = scheduledFault params
  control : setup.control = env.controlConfig params
  serves : env.CanServe (setup.sendTopics.map TopicParams.url) setup.control

/-! ## Accepting exactly the configurations -/

section Acceptance

variable {env : StartupEnvironment} {ipMap : IpMap} {topic : TopicParams} {item : XmlRpcValue}

theorem byMsgType_eq_ok_iff {α : Type} {msgType : Text} {act : MsgClass -> Except StartupFailure α}
    {result : α} : byMsgType msgType act = .ok result ↔
      ∃ msgClass : MsgClass, msgType = msgClass.typeName ∧ act msgClass = .ok result := by
  have imu_ne_twist : MsgClass.imu.typeName ≠ MsgClass.twist.typeName := by decide
  have imu_ne_string : MsgClass.imu.typeName ≠ MsgClass.string.typeName := by decide
  have twist_ne_string : MsgClass.twist.typeName ≠ MsgClass.string.typeName := by decide
  constructor
  · unfold byMsgType
    split_ifs with imu twist string
    · exact fun accepted => ⟨.imu, imu, accepted⟩
    · exact fun accepted => ⟨.twist, twist, accepted⟩
    · exact fun accepted => ⟨.string, string, accepted⟩
    · intro accepted
      cases accepted
  · rintro ⟨msgClass, rfl, accepted⟩
    unfold byMsgType
    cases msgClass with
    | imu => rwa [if_pos rfl]
    | twist => rwa [if_neg imu_ne_twist.symm, if_pos rfl]
    | string => rwa [if_neg imu_ne_string.symm, if_neg twist_ne_string.symm, if_pos rfl]

end Acceptance

/-- The topics that the communication control sees have the rates and the policies of
those that were read. -/
theorem topicInfos_eq_some {topics : List TopicParams} {policies : List SimCommFaultPolicy}
    {infos : List TopicInfo} (read : topicInfos topics policies = some infos)
    (names : List.Forall₂ (fun topic policy => topic.faultPolicy = policy.policyName) topics
      policies) :
    List.Forall₂ (fun topic info => topic.maxBitrate.rate? = some info.maxBitrate ∧
      topic.faultPolicy = info.faultPolicy.policyName) topics infos := by
  unfold topicInfos at read
  induction names generalizing infos with
  | nil =>
      cases read
      exact .nil
  | @cons topic policy topics policies name names ih =>
      rw [List.zip_cons_cons, List.mapM_cons] at read
      simp only [Option.bind_eq_bind, Option.bind_eq_some_iff, Option.map_eq_some_iff,
        Option.pure_def, Option.some_inj] at read
      rcases read with ⟨info, ⟨rate, finite, rfl⟩, others, after, rfl⟩
      exact .cons ⟨finite, name⟩ (ih after)

/-- The rate that the communication control sees limits a topic if the one that was read
is positive. -/
theorem positive_of_rate {rate : Double} {maxBitrate : ℚ} (read : rate.rate? = some maxBitrate) :
    decide (0 < maxBitrate) = rate.positive := by
  cases rate with
  | nan =>
      cases read
      rfl
  | infinite negative => cases read
  | finite value =>
      cases read
      rfl

/-- The channels of the node are the topics that were read; a topic goes through a
bitrate queue if its bitrate is positive, and has the policy it names. -/
theorem bridge_of_configured {env : StartupEnvironment} {params : NodeParams} {setup : BridgeSetup}
    {durationCast : ℚ -> ℚ} {undefinedSize : ℚ -> ℕ} {cfg : BridgeConfig}
    (configured : Configured env params setup)
    (bridge : setup.bridge? durationCast undefinedSize = some cfg) :
    (∀ i, cfg.hasChannel (.send i) = true ↔ i < setup.sendTopics.length) ∧
    (∀ i, cfg.hasChannel (.recv i) = true ↔ i < setup.recvTopics.length) ∧
    (∀ i topic, setup.sendTopics[i]? = some topic ->
      cfg.limited (.send i) = topic.maxBitrate.positive ∧
      topic.faultPolicy = (cfg.policy (.send i)).policyName) ∧
    ∀ i topic, setup.recvTopics[i]? = some topic ->
      topic.faultPolicy = (cfg.policy (.recv i)).policyName := by
  unfold BridgeSetup.bridge? at bridge
  split at bridge
  case h_2 => cases bridge
  case h_1 sendInfos recvInfos nodeFault sends recvs fault =>
    cases bridge
    have sendTopics := topicInfos_eq_some sends configured.sendPolicies
    have recvTopics := topicInfos_eq_some recvs configured.recvPolicies
    refine ⟨?_, ?_, ?_, ?_⟩
    · intro i
      rw [BridgeConfig.hasChannel, decide_eq_true_iff, sendTopics.length_eq]
    · intro i
      rw [BridgeConfig.hasChannel, decide_eq_true_iff, recvTopics.length_eq]
    · intro i topic here
      rcases exists_getElem?_of_forall₂ sendTopics here with ⟨info, there, rate, name⟩
      rw [BridgeConfig.policy, BridgeConfig.limited, BridgeConfig.topic, List.getD_eq_getElem?_getD,
        there]
      exact ⟨positive_of_rate rate, name⟩
    · intro i topic here
      rcases exists_getElem?_of_forall₂ recvTopics here with ⟨info, there, -, name⟩
      rw [BridgeConfig.policy, BridgeConfig.topic, List.getD_eq_getElem?_getD, there]
      exact name

/-- A message received on a topic is deserialized as the class that its publisher was
advertised with. -/
theorem deserialized_as_advertised {env : StartupEnvironment} {params : NodeParams}
    {setup : BridgeSetup} (configured : Configured env params setup) {i : ℕ} {topic : TopicParams}
    (here : setup.recvTopics[i]? = some topic) :
    ∃ msgClass, setup.topicPubs[i]? = some msgClass ∧ deserializePublish topic.type = .ok msgClass := by
  rcases exists_getElem?_of_forall₂ configured.publishers here with ⟨msgClass, there, type, -⟩
  exact ⟨msgClass, there, byMsgType_eq_ok_iff.mpr ⟨msgClass, type, rfl⟩⟩

end SwarmBridge
