import SwarmBridge.SimComm.QueueRuns
import SwarmBridge.Delivery.Bandwidth

namespace SwarmBridge

open Foundation

/-!
# What the bitrate queue drops

In every run of a bitrate queue the byte counter is the sum of the waiting lengths,
the queue is short in messages and in bytes, its messages leave it in the order in
which they were enqueued, and a new message drives out the oldest ones, no more of
them than it has to.  The queues of a node only have such runs.
-/

/-- The laws of the bitrate queue, for a limit and messages within half the range of
`size_t`. -/
theorem bitrate_queue_laws (undefinedSize : ℚ -> ℕ) (maxBitrate : ℚ) (cap : ℕ)
    (window : queueWindowBytes maxBitrate = some cap) (moderate : cap < shortLen)
    (s : QueueState) (run : (bitrateQueue undefinedSize maxBitrate).Reaches EnqueuesShort s) :
    s.queue.bytes = totalLen s.queue.messages ∧
    s.queue.messages.length ≤ maxBitrateQueueMessages ∧
    s.queue.bytes ≤ max cap (longestLen s.queue.messages) ∧
    s.removed ++ s.queue.messages = s.enqueued ∧
    (∀ front rest, s.queue.messages = front :: rest -> front.dataLen ≤ s.queue.bytes) ∧
    ∀ message : Message, message.dataLen < shortLen ->
      (∀ pair ∈ evictionSubtractions (max cap message.dataLen) message.dataLen
        s.queue.messages s.queue.bytes, pair.2 ≤ pair.1) ∧
      ∃ kept, kept <:+ s.queue.messages ∧
        Roomy (max cap message.dataLen) message.dataLen kept ∧
        (∀ other, other <:+ s.queue.messages ->
          Roomy (max cap message.dataLen) message.dataLen other ->
          other.length ≤ kept.length) ∧
        (enqueueSendMessage undefinedSize maxBitrate message s.queue).2.messages =
          kept ++ [message] := by
  have size : queueWindowSize undefinedSize maxBitrate = cap := by
    rw [queueWindowSize, window, Option.getD_some]
  have limit : ∀ dataLen, maxQueueBytes undefinedSize maxBitrate dataLen = max cap dataLen := by
    intro dataLen
    rw [maxQueueBytes, size]
  have short_window : queueWindowSize undefinedSize maxBitrate < shortLen := size ▸ moderate
  have sound := QueueSound.of_reaches short_window run
  refine ⟨sound.counted, sound.few, size ▸ sound.bounded, sound.ordered, ?_,
    fun message short => ⟨?_, ?_⟩⟩
  · intro front rest waiting
    rw [sound.counted]
    exact dataLen_le_totalLen (by rw [waiting]; exact List.mem_cons_self)
  · rw [sound.counted]
    exact evictionSubtractions_le s.queue.messages (sound.small short_window short)
  · rw [← limit]
    refine ⟨keptMessages undefinedSize maxBitrate message s.queue.messages, longestSuffix_suffix _,
      longestSuffix_holds (.inl rfl) _, fun other suffix roomy => ?_, ?_⟩
    · exact (longestSuffix_longest suffix roomy).length_le
    · rw [sound.enqueue_eq short_window short]

/-- A queue with room for 200 bytes: the second message drives out the first, and
the third, which is too long for any queue, the second. -/
theorem bitrate_queue_laws_oversized :
    ∃ s : QueueState, s.removed = [⟨0, ⟨150, []⟩⟩, ⟨1, ⟨100, []⟩⟩] ∧
      s.queue.messages = [⟨2, ⟨500, []⟩⟩] ∧ s.queue.bytes ≤ max 200 500 ∧
      s.removed ++ s.queue.messages = s.enqueued := by
  have executed : ((bitrateQueue (fun _ => 0) 8000).exec EnqueuesShort ⟨SendQueue.empty, [], []⟩
      [.enqueue ⟨0, ⟨150, []⟩⟩, .enqueue ⟨1, ⟨100, []⟩⟩, .enqueue ⟨2, ⟨500, []⟩⟩]).map
      (fun s => (s.removed, s.queue.messages)) =
      some ([⟨0, ⟨150, []⟩⟩, ⟨1, ⟨100, []⟩⟩], [⟨2, ⟨500, []⟩⟩]) := by
    decide +kernel
  rcases Machine.exists_reaches_of_exec _ rfl executed with ⟨s, reached, observed⟩
  simp only [Prod.mk.injEq] at observed
  have cap : queueWindowBytes 8000 = some 200 := by decide +kernel
  have laws := bitrate_queue_laws _ 8000 200 cap (by decide) s reached
  have bytes := laws.2.2.1
  rw [observed.2] at bytes
  exact ⟨s, observed.1, observed.2, bytes, laws.2.2.2.1⟩

/-! ## The queues of a node -/

namespace NodeState

variable {cfg : BridgeConfig} {topic : ℕ} {s t : NodeState} {action : Action}

/-- A step of the node leaves the queue of a topic alone, enqueues, or dequeues. -/
theorem sendQueue_step (topic : ℕ) (step : NodeStep cfg s action t) :
    t.sendQueues topic = s.sendQueues topic ∨
    (∃ message, t.sendQueues topic =
      (enqueueSendMessage cfg.undefinedSize (cfg.topic (.send topic)).maxBitrate message
        (s.sendQueues topic)).2) ∨
    ∃ front rest, (s.sendQueues topic).messages = front :: rest ∧
      t.sendQueues topic = ⟨rest, sizeSub (s.sendQueues topic).bytes front.dataLen⟩ := by
  have enqueued : ∀ (changed : ℕ) (message : Message), t.sendQueues =
      Function.update s.sendQueues changed (enqueueSendMessage cfg.undefinedSize
        (cfg.topic (.send changed)).maxBitrate message (s.sendQueues changed)).2 ->
      t.sendQueues topic = s.sendQueues topic ∨ ∃ message, t.sendQueues topic =
        (enqueueSendMessage cfg.undefinedSize (cfg.topic (.send topic)).maxBitrate message
          (s.sendQueues topic)).2 := by
    intro changed message queues
    rw [queues]
    by_cases same : topic = changed
    · subst same
      exact .inr ⟨message, Function.update_self _ _ _⟩
    · exact .inl (Function.update_of_ne same _ _)
  cases step with
  | @enqueue changed message => exact (enqueued changed message rfl).imp_right .inl
  | @replayQueued _ _ _ _ changed message => exact (enqueued changed message rfl).imp_right .inl
  | @dequeue changed front rest bucket bytes _ waiting _ subtracted =>
      by_cases same : topic = changed
      · subst same
        exact .inr (.inr ⟨front, rest, waiting, by simp [subtracted]⟩)
      · exact .inl (by simp [Function.update_of_ne same])
  | _ => exact .inl rfl

/-- The queue of a topic has the runs of one bitrate queue. -/
theorem sendQueue_run (valid : cfg.hasChannel (.send topic) = true)
    {allow : NodeState -> Action -> Prop} (run : (bridgeNode cfg).Reaches allow s)
    (short : ∀ message ∈ (s.view (.send topic)).arrived, message.dataLen < shortLen) :
    ∃ enqueued removed, (bitrateQueue cfg.undefinedSize (cfg.topic (.send topic)).maxBitrate).Reaches
      EnqueuesShort ⟨s.sendQueues topic, enqueued, removed⟩ := by
  refine run.invariant (P := fun s =>
    (∀ message ∈ (s.view (.send topic)).arrived, message.dataLen < shortLen) ->
    ∃ enqueued removed, (bitrateQueue cfg.undefinedSize (cfg.topic (.send topic)).maxBitrate).Reaches
      EnqueuesShort ⟨s.sendQueues topic, enqueued, removed⟩) ?_ ?_ short
  · rintro s ⟨now, rfl⟩ -
    exact ⟨[], [], _, rfl, .refl⟩
  · intro s action t reached before allowed stepped short
    have step := nodeStep_cases stepped
    rcases before fun message member =>
      short message (arrived_subset (step.onChannel valid) member)
        with ⟨enqueued, removed, queueRun⟩
    rcases sendQueue_step topic step with same | ⟨message, queue⟩ | ⟨front, rest, waiting, queue⟩
    · exact ⟨enqueued, removed, same ▸ queueRun⟩
    · -- the new message waits now, so it has arrived and is short
      rcases enqueueSendMessage_kept cfg.undefinedSize (cfg.topic (.send topic)).maxBitrate message
        (s.sendQueues topic) with ⟨kept, _, appended⟩
      have waits : message ∈ t.queue (.send topic) := by
        rw [NodeState.queue, queue, appended]
        exact List.mem_append_right _ (List.mem_singleton_self message)
      have arrived := (arrivals_of_reaches valid (reached.next allowed stepped)).behind message
        (.queued waits)
      have operation : queueStep cfg.undefinedSize (cfg.topic (.send topic)).maxBitrate
          ⟨s.sendQueues topic, enqueued, removed⟩ (.enqueue message) =
            some ⟨t.sendQueues topic, enqueued ++ [message],
              removed ++ (enqueueSendMessage cfg.undefinedSize (cfg.topic (.send topic)).maxBitrate
                message (s.sendQueues topic)).1⟩ := by
        rw [queueStep, queue]
      have allowed' : EnqueuesShort ⟨s.sendQueues topic, enqueued, removed⟩ (.enqueue message) :=
        short message arrived
      exact ⟨_, _, queueRun.next allowed' operation⟩
    · have operation : queueStep cfg.undefinedSize (cfg.topic (.send topic)).maxBitrate
          ⟨s.sendQueues topic, enqueued, removed⟩ .dequeue =
            some ⟨t.sendQueues topic, enqueued, removed ++ [front]⟩ := by
        simp only [queueStep, waiting, queue]
      have allowed' : EnqueuesShort ⟨s.sendQueues topic, enqueued, removed⟩ .dequeue := trivial
      exact ⟨_, _, queueRun.next allowed' operation⟩

end NodeState

end SwarmBridge
