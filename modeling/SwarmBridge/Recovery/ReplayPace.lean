import SwarmBridge.Foundation.Paced
import SwarmBridge.SimComm.Runs

namespace SwarmBridge

open Foundation

/-!
# The pace of a replay

`flush_fault_buffers` replays one topic after the other, and sleeps between two
messages of the same topic.  The steps of the node leave the sleeps out; this module
puts them back between the messages of the batch.  The interval of a receive topic
is chosen so that the topic alone is done within half of the fault, and the topics add up.
-/

/-- `DEFAULT_REPLAY_INTERVAL_SEC`. -/
def defaultReplayIntervalSec : ℚ := 1 / 100

/-- `FAULT_REPLAY_RATE_MULTIPLIER`. -/
def faultReplayRateMultiplier : ℚ := 2

/-- `get_fault_replay_interval`, of a topic with this `max_freq`. -/
def getFaultReplayInterval (maxFreq : ℤ) (isSendTopic : Bool) : ℚ :=
  if isSendTopic = true ∧ 0 < maxFreq then 1 / ((maxFreq : ℚ) * faultReplayRateMultiplier)
  else defaultReplayIntervalSec

/-- `get_recv_fault_replay_interval`. -/
def getRecvFaultReplayInterval (messageCount : ℕ) (faultDurationSec : ℚ) : ℚ :=
  if 1 < messageCount ∧ 0 < faultDurationSec then
    faultDurationSec / ((messageCount : ℚ) * faultReplayRateMultiplier)
  else defaultReplayIntervalSec

namespace NodeState

variable (cfg : BridgeConfig) (s : NodeState)

/-- One turn of either loop of `flush_fault_buffers`: the messages of one channel,
and the sleeps between them. -/
def replayTopic (channel : Channel) (interval : ℚ) : List (Paced (Channel × Message) ℚ) :=
  paced interval true ((s.faultBuffers channel).map (Prod.mk channel))

/-- The send loop of `flush_fault_buffers`; `maxFreq` gives the `max_freq` of the topics. -/
def sendLoop (maxFreq : ℕ -> ℤ) : List (Paced (Channel × Message) ℚ) :=
  (List.range cfg.sendTopics.length).flatMap fun topic =>
    s.replayTopic (.send topic) (getFaultReplayInterval (maxFreq topic) true)

/-- The receive loop of `flush_fault_buffers`. -/
def receiveLoop : List (Paced (Channel × Message) ℚ) :=
  (List.range cfg.recvTopics.length).flatMap fun topic =>
    s.replayTopic (.recv topic) (getRecvFaultReplayInterval (s.faultBuffers (.recv topic)).length
      s.nodeFaultDurationSec)

/-- `flush_fault_buffers` from its swap on. -/
def flushFaultBuffers (maxFreq : ℕ -> ℤ) : List (Paced (Channel × Message) ℚ) :=
  s.sendLoop cfg maxFreq ++ s.receiveLoop cfg

/-- How many messages each receive topic has cached. -/
def receiveCounts : List ℕ :=
  (List.range cfg.recvTopics.length).map fun topic => (s.faultBuffers (.recv topic)).length

variable {cfg s}

theorem items_replayTopic (channel : Channel) (interval : ℚ) :
    (s.replayTopic channel interval).filterMap Paced.item? =
      (s.faultBuffers channel).map (Prod.mk channel) :=
  items_paced interval true _

/-- The messages between the sleeps are the batch of the swap, in its order. -/
theorem items_flushFaultBuffers (maxFreq : ℕ -> ℤ) :
    (s.flushFaultBuffers cfg maxFreq).filterMap Paced.item? = s.flushOrder cfg := by
  simp only [flushFaultBuffers, sendLoop, receiveLoop, List.filterMap_append,
    List.filterMap_flatMap, items_replayTopic, flushOrder, BridgeConfig.channels,
    List.flatMap_append, List.flatMap_map]

/-- The swap of a flushing thread hands these messages to its replay, which then goes
through them one by one. -/
theorem replay_of_swap {t : NodeState} {thread : Thread} (maxFreq : ℕ -> ℤ)
    (holds : s.phases thread = some .swap) (stepped : nodeStep cfg s (.run thread) = some t) :
    t.phases thread = some (.replay [] ((s.flushFaultBuffers cfg maxFreq).filterMap Paced.item?)) := by
  rcases exists_of_swap cfg holds with ⟨resume, -, swap⟩
  rw [swap, Option.some_inj] at stepped
  rw [← stepped, swapBuffers, phases_move, Function.update_self, items_flushFaultBuffers]
  rfl

/-- The sleeps of one receive topic take its share of half the fault. -/
theorem pauses_receiveTopic (positive : 0 < s.nodeFaultDurationSec) (topic : ℕ) :
    ((s.replayTopic (.recv topic) (getRecvFaultReplayInterval
      (s.faultBuffers (.recv topic)).length s.nodeFaultDurationSec)).filterMap Paced.pause?).sum =
      share ℚ (s.faultBuffers (.recv topic)).length * (s.nodeFaultDurationSec / 2) := by
  rw [replayTopic, pauses_paced, List.length_map, List.sum_replicate, nsmul_eq_mul]
  generalize (s.faultBuffers (.recv topic)).length = count
  by_cases several : 1 < count
  · rw [getRecvFaultReplayInterval, if_pos ⟨several, positive⟩, share, faultReplayRateMultiplier,
      div_mul_div_comm, mul_div_assoc]
  · rw [share_of_le_one (not_lt.mp several), Nat.sub_eq_zero_of_le (not_lt.mp several),
      Nat.cast_zero, zero_mul, zero_mul]

/-- A receive topic on its own is replayed in less than half of the fault. -/
theorem pauses_receiveTopic_lt (positive : 0 < s.nodeFaultDurationSec) (topic : ℕ) :
    ((s.replayTopic (.recv topic) (getRecvFaultReplayInterval
      (s.faultBuffers (.recv topic)).length s.nodeFaultDurationSec)).filterMap Paced.pause?).sum <
      s.nodeFaultDurationSec / 2 := by
  rw [pauses_receiveTopic positive]
  refine mul_lt_of_lt_one_left (half_pos positive) ?_
  by_cases several : 1 < (s.faultBuffers (.recv topic)).length
  · exact share_lt_one several
  · rw [share_of_le_one (not_lt.mp several)]
    exact one_pos

/-- The sleeps of the receive loop are the shares of all its topics. -/
theorem pauses_receiveLoop (positive : 0 < s.nodeFaultDurationSec) :
    ((s.receiveLoop cfg).filterMap Paced.pause?).sum =
      ((s.receiveCounts cfg).map (share ℚ)).sum * (s.nodeFaultDurationSec / 2) := by
  rw [receiveLoop, receiveCounts]
  induction List.range cfg.recvTopics.length with
  | nil => simp
  | cons topic rest ih =>
      rw [List.flatMap_cons, List.filterMap_append, List.sum_append, ih,
        pauses_receiveTopic positive, List.map_cons, List.map_cons, List.sum_cons, add_mul]

end NodeState

/-- The receive side is drained within half of the fault exactly when at most one of
its topics has more than one message cached, or just two of them have, with two messages
each. -/
theorem receive_drain_iff (cfg : BridgeConfig) (s : NodeState)
    (positive : 0 < s.nodeFaultDurationSec) :
    ((s.receiveLoop cfg).filterMap Paced.pause?).sum ≤ s.nodeFaultDurationSec / 2 ↔
      ((s.receiveCounts cfg).filter (1 < ·)).length ≤ 1 ∨
        (s.receiveCounts cfg).filter (1 < ·) = [2, 2] := by
  rw [NodeState.pauses_receiveLoop positive, ← sum_share_le_one_iff (K := ℚ)]
  exact mul_le_iff_le_one_left (half_pos positive)

/-! ## Three receive topics -/

/-- Three receive topics with policy buffer. -/
def drainConfig : BridgeConfig where
  sendTopics := []
  recvTopics := [⟨0, .buffer⟩, ⟨0, .buffer⟩, ⟨0, .buffer⟩]
  nodeFault := none
  durationCast := id
  undefinedSize := fun _ => 0

/-- A fault of 12 s in which one message arrives on each of these topics in turn; the
monitor is then about to replay them. -/
def drainSchedule (topics : List ℕ) : List Action :=
  [.request 12, .run .control] ++
    topics.flatMap (fun topic =>
      [.arrive (.recv topic) ⟨1, [0]⟩, .run (.recv topic), .run (.recv topic)]) ++
    [.run .monitor, .advance 12, .run .monitor]

/-- Two messages on each of three topics take 9 s of sleep, where the half of the fault
is 6 s. -/
theorem receive_drain_late :
    ¬ ∀ (cfg : BridgeConfig) (s : NodeState), (bridgeNode cfg).Reachable s ->
      s.phases .monitor = some .swap -> 0 < s.nodeFaultDurationSec ->
        ((s.receiveLoop cfg).filterMap Paced.pause?).sum ≤ s.nodeFaultDurationSec / 2 := by
  intro claim
  have executed : ((bridgeNode drainConfig).exec (fun _ _ => True)
      (NodeState.initial drainConfig 0) (drainSchedule [0, 0, 1, 1, 2, 2])).map
      (fun s => (s.phases .monitor, s.nodeFaultDurationSec,
        ((s.receiveLoop drainConfig).filterMap Paced.pause?).sum)) =
      some (some .swap, 12, 9) := by
    decide +kernel
  rcases NodeState.exists_of_schedule executed with ⟨s, reached, observed⟩
  simp only [Prod.mk.injEq] at observed
  have positive : 0 < s.nodeFaultDurationSec := by
    rw [observed.2.1]
    decide
  have drained := claim drainConfig s reached observed.1 positive
  rw [observed.2.1, observed.2.2] at drained
  revert drained
  decide +kernel

/-- Three messages on one topic and one on another are replayed in time. -/
theorem receive_drain_single :
    ∃ s : NodeState, s.receiveCounts drainConfig = [3, 1, 0] ∧
      ((s.receiveLoop drainConfig).filterMap Paced.pause?).sum ≤ s.nodeFaultDurationSec / 2 := by
  have executed : ((bridgeNode drainConfig).exec (fun _ _ => True)
      (NodeState.initial drainConfig 0) (drainSchedule [0, 0, 1, 0])).map
      (fun s => (s.nodeFaultDurationSec, s.receiveCounts drainConfig)) =
      some (12, [3, 1, 0]) := by
    decide +kernel
  rcases NodeState.exists_of_schedule executed with ⟨s, reached, observed⟩
  simp only [Prod.mk.injEq] at observed
  have positive : 0 < s.nodeFaultDurationSec := by
    rw [observed.1]
    decide
  refine ⟨s, observed.2, (receive_drain_iff drainConfig s positive).mpr (.inl ?_)⟩
  rw [observed.2]
  decide

end SwarmBridge
