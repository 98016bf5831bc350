import SwarmBridge.SimComm.Arrivals
import SwarmBridge.SimComm.Worker

namespace SwarmBridge

open Foundation

/-!
# The bandwidth of a rate-limited topic

`send_func` spends tokens when it dequeues a message and holds one message at a
time until it is written or diverted into the fault buffer.  The dequeued bytes
follow the law of the token bucket, and the written ones lag behind them by at
most one message.  Faults, replays and evictions do not enter: they change what
waits in the queue, and the law holds for whatever waits there.
-/

namespace NodeState

variable {cfg : BridgeConfig} {topic longest : ℕ} {s t : NodeState} {action : Action}

/-- `max(base_bucket_capacity, longest)`: the bucket never holds more than this when
no message is longer than `longest`. -/
def bucketLimit (maxBitrate : ℚ) (longest : ℕ) : ℚ := max (baseBucketCapacity maxBitrate) longest

theorem baseBucketCapacity_nonneg (maxBitrate : ℚ) : 0 ≤ baseBucketCapacity maxBitrate :=
  zero_le_one.trans (le_max_left _ _)

theorem bucketLimit_nonneg (maxBitrate : ℚ) (longest : ℕ) : 0 ≤ bucketLimit maxBitrate longest :=
  (baseBucketCapacity_nonneg maxBitrate).trans (le_max_left _ _)

theorem bytesPerSecond_nonneg {maxBitrate : ℚ} (limited : 0 < maxBitrate) :
    0 ≤ bytesPerSecond maxBitrate :=
  div_nonneg limited.le (by norm_num)

/-- The bytes in the hand of a worker. -/
def heldBytes (hand : List Message) : ℚ := (hand.map fun message => (message.dataLen : ℚ)).sum

@[simp] theorem heldBytes_nil : heldBytes [] = 0 := rfl

@[simp] theorem heldBytes_singleton (message : Message) :
    heldBytes [message] = message.dataLen := by
  simp [heldBytes]

/-- The worker of the topic keeps to its bitrate: it has not started yet, or its
bucket is metered and it holds one message at a time. -/
inductive Paced (cfg : BridgeConfig) (topic longest : ℕ) (s : NodeState) : Prop
  | waiting (free : (s.worker topic).started = false) (starts : (s.worker topic).starts = [])
      (dequeues : (s.worker topic).dequeues = []) (writes : (s.worker topic).writes = [])
      (nonneg : 0 ≤ (s.worker topic).bucket.available)
  | running (start : ℚ) (begun : (s.worker topic).started = true)
      (starts : (s.worker topic).starts = [start])
      (past : (s.worker topic).bucket.refilled ≤ s.now)
      (metered : Bucket.Metered (bytesPerSecond (cfg.topic (.send topic)).maxBitrate)
        (bucketLimit (cfg.topic (.send topic)).maxBitrate longest)
        (baseBucketCapacity (cfg.topic (.send topic)).maxBitrate) start
        (s.worker topic).bucket (s.worker topic).dequeues)
      (stage : OneAtATime (longest : ℚ) s.now (heldBytes (s.worker topic).hand)
        (s.worker topic).dequeues (s.worker topic).writes)

namespace Paced

theorem initial (now : ℚ) : (NodeState.initial cfg now).Paced cfg topic longest :=
  .waiting rfl rfl rfl rfl le_rfl

/-- A refill of the bucket for the front message keeps it metered. -/
theorem refill {maxBitrate start now : ℚ} {bucket : Bucket ℚ} {spent : List (ℚ × ℚ)}
    (limited : 0 < maxBitrate) {front : Message} (short : front.dataLen ≤ longest)
    (metered : Bucket.Metered (bytesPerSecond maxBitrate) (bucketLimit maxBitrate longest)
      (baseBucketCapacity maxBitrate) start bucket spent) (later : bucket.refilled ≤ now) :
    Bucket.Metered (bytesPerSecond maxBitrate) (bucketLimit maxBitrate longest)
      (baseBucketCapacity maxBitrate) start (refillTokens maxBitrate now front.dataLen bucket)
      spent := by
  apply metered.refill (bytesPerSecond_nonneg limited)
  · exact (baseBucketCapacity_nonneg maxBitrate).trans (le_max_left _ _)
  · exact max_le_max le_rfl (Nat.cast_le.mpr short)
  · exact later

theorem step (paced : s.Paced cfg topic longest)
    (limited : 0 < (cfg.topic (.send topic)).maxBitrate)
    (short : ∀ message ∈ s.queue (.send topic), message.dataLen ≤ longest)
    (step : WorkerStep cfg topic s t) : t.Paced cfg topic longest := by
  have rate := bytesPerSecond_nonneg limited
  cases paced with
  | waiting free starts dequeues writes nonneg =>
      cases step with
      | same clock worker =>
          exact .waiting (worker ▸ free) (worker ▸ starts) (worker ▸ dequeues) (worker ▸ writes)
            (worker ▸ nonneg)
      | started clock _ worker =>
          have base := baseBucketCapacity_nonneg (cfg.topic (.send topic)).maxBitrate
          refine .running s.now ?_ ?_ ?_ ?_ ?_ <;> rw [worker]
          · simp only [starts, List.nil_append]
          · rw [clock]
            exact le_rfl
          · simp only [dequeues]
            exact Bucket.Metered.initial rate base (le_max_left _ _) s.now
          · simp only [dequeues, writes]
            exact OneAtATime.initial (Nat.cast_nonneg longest) t.now
      | refilled _ begun => rw [free] at begun; cases begun
      | dequeued _ begun => rw [free] at begun; cases begun
      | diverted _ begun => rw [free] at begun; cases begun
      | wrote _ begun => rw [free] at begun; cases begun
  | running start begun starts past metered stage =>
      cases step with
      | same clock worker =>
          refine .running start ?_ ?_ ?_ ?_ ?_ <;> rw [worker]
          · exact begun
          · exact starts
          · exact past.trans clock
          · exact metered
          · exact stage.later clock
      | started _ free => rw [free] at begun; cases begun
      | refilled clock _ _ queued worker =>
          refine .running start ?_ ?_ ?_ ?_ ?_ <;> rw [worker]
          · exact begun
          · exact starts
          · rw [clock]
            exact le_rfl
          · exact refill limited (short _ queued) metered past
          · rw [clock]
            exact stage
      | @dequeued clock _ free front bucket queued refilled enough worker =>
          have full := refill limited (short front queued) metered past
          rw [← refilled] at full
          have time : bucket.refilled = s.now := by rw [refilled]; rfl
          refine .running start ?_ ?_ ?_ ?_ ?_ <;> rw [worker]
          · exact begun
          · exact starts
          · rw [clock, Bucket.spend_refilled, time]
          · have spent := full.spend rate enough
            rwa [time] at spent
          · rw [free, heldBytes_nil] at stage
            rw [clock, heldBytes_singleton]
            exact stage.enter (Nat.cast_nonneg _) (Nat.cast_le.mpr (short front queued))
      | diverted clock _ worker =>
          refine .running start ?_ ?_ ?_ ?_ ?_ <;> rw [worker]
          · exact begun
          · exact starts
          · exact clock ▸ past
          · exact metered
          · rw [clock]
            exact stage.lose
      | wrote clock _ message hand worker =>
          refine .running start ?_ ?_ ?_ ?_ ?_ <;> rw [worker]
          · exact begun
          · exact starts
          · exact clock ▸ past
          · exact metered
          · rw [hand, heldBytes_singleton] at stage
            rw [clock]
            exact stage.leave

end Paced

/-- What has arrived stays arrived. -/
theorem arrived_subset {channel : Channel} (step : ChannelStep cfg channel s action t) :
    (s.view channel).arrived ⊆ (t.view channel).arrived := by
  cases step with
  | same view => rw [view]; exact List.Subset.refl _
  | arrived _ _ view => rw [view, ChannelView.arrived_append]; exact List.subset_append_left _ _
  | took _ _ _ _ _ view => rw [view, ChannelView.arrived_append]; exact List.subset_append_left _ _
  | passed _ _ _ _ _ view => rw [view, ChannelView.arrived_append]; exact List.subset_append_left _ _
  | enqueued _ _ _ view => rw [view, ChannelView.arrived_append]; exact List.subset_append_left _ _
  | delivered _ _ _ view => rw [view, ChannelView.arrived_append]; exact List.subset_append_left _ _
  | dequeued _ _ _ view => rw [view, ChannelView.arrived_append]; exact List.subset_append_left _ _
  | swapped _ view => rw [view]; exact List.Subset.refl _
  | replayedDirect _ _ view =>
      rw [view, ChannelView.arrived_append]; exact List.subset_append_left _ _
  | replayedQueued _ _ _ _ view =>
      rw [view, ChannelView.arrived_append]; exact List.subset_append_left _ _
  | opened _ view => rw [view]; exact List.Subset.refl _

theorem Paced.of_reaches {allow : NodeState -> Action -> Prop}
    (valid : cfg.hasChannel (.send topic) = true)
    (limited : 0 < (cfg.topic (.send topic)).maxBitrate)
    (run : (bridgeNode cfg).Reaches allow s)
    (short : ∀ message ∈ (s.view (.send topic)).arrived, message.dataLen ≤ longest) :
    s.Paced cfg topic longest := by
  refine run.invariant (P := fun s => (∀ message ∈ (s.view (.send topic)).arrived,
    message.dataLen ≤ longest) -> s.Paced cfg topic longest) ?_ ?_ short
  · rintro s ⟨now, rfl⟩ -
    exact Paced.initial now
  · intro s action t reached paced _ stepped short
    have step := nodeStep_cases stepped
    have before : ∀ message ∈ (s.view (.send topic)).arrived, message.dataLen ≤ longest :=
      fun message member => short message (arrived_subset (step.onChannel valid) member)
    apply (paced before).step limited
    · intro message queued
      exact before message ((arrivals_of_reaches valid reached).behind message (.queued queued))
    · exact step.worker (decide_eq_true limited) (Routed.of_reaches reached)

end NodeState

/-- The bandwidth law.  In every reachable state the tokens are not negative, what
`send_func` has dequeued since it started keeps to the bitrate plus the initial
tokens, and what is written in any window keeps to the bitrate plus a bucket and
one message. -/
theorem bandwidth_law (cfg : BridgeConfig) (topic : ℕ) (valid : topic < cfg.sendTopics.length)
    (limited : 0 < (cfg.topic (.send topic)).maxBitrate) (longest : ℕ) (s : NodeState)
    (run : (bridgeNode cfg).Reachable s)
    (short : ∀ message ∈ (s.view (.send topic)).arrived, message.dataLen ≤ longest) :
    0 ≤ (s.buckets topic).available ∧
      (∀ start ∈ (s.worker topic).starts, ∀ last, start ≤ last ->
        totalIn start last (s.worker topic).dequeues ≤
          baseBucketCapacity (cfg.topic (.send topic)).maxBitrate +
            bytesPerSecond (cfg.topic (.send topic)).maxBitrate * (last - start)) ∧
      ∀ first last, first ≤ last -> totalIn first last (s.worker topic).writes ≤
        bytesPerSecond (cfg.topic (.send topic)).maxBitrate * (last - first) +
          max (baseBucketCapacity (cfg.topic (.send topic)).maxBitrate) longest + longest := by
  have rate := NodeState.bytesPerSecond_nonneg limited
  have limit := NodeState.bucketLimit_nonneg (cfg.topic (.send topic)).maxBitrate longest
  cases NodeState.Paced.of_reaches (decide_eq_true valid) limited run short with
  | waiting free starts dequeues writes nonneg =>
      refine ⟨nonneg, fun start member => ?_, fun first last ordered => ?_⟩
      · rw [starts] at member
        cases member
      · have grown := mul_nonneg rate (sub_nonneg.mpr ordered)
        rw [writes, totalIn_nil]
        exact add_nonneg (add_nonneg grown limit) (Nat.cast_nonneg longest)
  | running start begun starts past metered stage =>
      refine ⟨metered.nonneg, fun begin member last later => ?_, fun first last ordered => ?_⟩
      · rw [starts, List.mem_singleton] at member
        rw [member] at later ⊢
        exact metered.fromStart.window last later
      · calc totalIn first last (s.worker topic).writes
            ≤ totalIn first last (s.worker topic).dequeues + longest := stage.window first last
          _ ≤ (max (baseBucketCapacity (cfg.topic (.send topic)).maxBitrate) longest +
                bytesPerSecond (cfg.topic (.send topic)).maxBitrate * (last - first)) + longest :=
              add_le_add_left (metered.window rate limit ordered) _
          _ = bytesPerSecond (cfg.topic (.send topic)).maxBitrate * (last - first) +
                max (baseBucketCapacity (cfg.topic (.send topic)).maxBitrate) longest +
                  longest := by ring

/-- One send topic with a bitrate of 8000 bit/s, that is 1000 byte/s and a bucket of 200
bytes. -/
def meteredConfig : BridgeConfig where
  sendTopics := [⟨8000, .buffer⟩]
  recvTopics := []
  nodeFault := none
  durationCast := id
  undefinedSize := fun _ => 0

/-- A message ten times as long as the bucket arrives; after two seconds it may pass. -/
def oversizedSchedule : List Action :=
  [.run (.worker 0), .arrive (.send 0) ⟨2000, []⟩, .run .ros, .run .ros, .run .ros,
    .run (.worker 0), .advance 2,
    .run (.worker 0), .run (.worker 0), .run (.worker 0), .run (.worker 0)]

/-- The oversized message is written two seconds after the start, when its bytes fit
the law. -/
theorem bandwidth_law_oversized :
    ∃ s : NodeState, (s.worker 0).dequeues = [(2, 2000)] ∧ (s.worker 0).writes = [(2, 2000)] ∧
      totalIn 0 2 (s.worker 0).dequeues ≤ 200 + 1000 * (2 - 0) := by
  have executed : ((bridgeNode meteredConfig).exec (fun _ _ => True)
      (NodeState.initial meteredConfig 0) oversizedSchedule).map
      (fun s => ((s.view (.send 0)).arrived.map Message.dataLen, (s.worker 0).starts,
        (s.worker 0).dequeues, (s.worker 0).writes)) =
      some ([2000], [0], [(2, 2000)], [(2, 2000)]) := by
    decide +kernel
  rcases NodeState.exists_of_schedule executed with ⟨s, reached, observed⟩
  simp only [Prod.mk.injEq] at observed
  have short : ∀ message ∈ (s.view (.send 0)).arrived, message.dataLen ≤ 2000 := by
    intro message member
    have size := List.mem_map_of_mem (f := Message.dataLen) member
    rw [observed.1] at size
    exact (List.mem_singleton.mp size).le
  have law := (bandwidth_law meteredConfig 0 (by decide) (by decide +kernel) 2000 s reached
    short).2.1 0 (by rw [observed.2.1]; exact List.mem_singleton_self _) 2 (by norm_num)
  have burst : baseBucketCapacity (meteredConfig.topic (.send 0)).maxBitrate = 200 := by
    decide +kernel
  have rate : bytesPerSecond (meteredConfig.topic (.send 0)).maxBitrate = 1000 := by
    decide +kernel
  rw [burst, rate] at law
  exact ⟨s, observed.2.2.1, observed.2.2.2, law⟩

end SwarmBridge
