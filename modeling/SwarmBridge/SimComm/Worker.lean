import SwarmBridge.SimComm.Routing

namespace SwarmBridge

open Foundation

/-!
# The worker of a rate-limited topic

What the token bucket of a topic depends on: the bucket, the times at which its
worker was started, the amounts it dequeued and wrote, and the message in its
hand.  `NodeStep.worker` says once what a step can do to them.
-/

namespace Event

/-- The message that the worker of the topic dequeues. -/
def dequeuedFrom? (topic : ℕ) : Event -> Option Message
  | .dequeued other message => if other = topic then some message else none
  | _ => none

/-- The message written to the socket of the topic. -/
def writtenTo? (topic : ℕ) : Event -> Option Message
  | .delivered channel message => if channel = .send topic then some message else none
  | _ => none

def startsWorker (topic : ℕ) (event : Event) : Bool := decide (event = .workerStarted topic)

/-- The event is no dequeueing, no write and no start of the topic's worker. -/
def unmetered (topic : ℕ) (event : Event) : Bool :=
  (event.dequeuedFrom? topic).isNone && (event.writtenTo? topic).isNone &&
    !event.startsWorker topic

end Event

/-- A worker that `start_send_bitrate_threads` has started. -/
def Pc.started : {thread : Thread} -> Pc thread -> Bool
  | _, .unstarted => false
  | _, _ => true

/-- The state of the node as far as the token bucket of one topic depends on it.
Amounts are bytes of payload with the time at which they were moved. -/
@[ext]
structure WorkerView where
  bucket : Bucket ℚ
  starts : List ℚ
  dequeues : List (ℚ × ℚ)
  writes : List (ℚ × ℚ)
  hand : List Message
  started : Bool

namespace NodeState

variable {cfg : BridgeConfig} {topic : ℕ} {s t : NodeState} {action : Action}

/-- The sizes of the messages that the log reports in one kind of event. -/
def amounts (kind : Event -> Option Message) (log : List Entry) : List (ℚ × ℚ) :=
  log.filterMap fun entry => (kind entry.event).map fun message =>
    (entry.time, (message.dataLen : ℚ))

/-- The times at which the worker of the topic was started. -/
def startTimes (topic : ℕ) (log : List Entry) : List ℚ :=
  (log.filter fun entry => entry.event.startsWorker topic).map Entry.time

theorem amounts_append (kind : Event -> Option Message) (log entries : List Entry) :
    amounts kind (log ++ entries) = amounts kind log ++ amounts kind entries :=
  List.filterMap_append

theorem amounts_eq_nil {kind : Event -> Option Message} {entries : List Entry}
    (other : ∀ entry ∈ entries, kind entry.event = none) : amounts kind entries = [] :=
  List.filterMap_eq_nil_iff.mpr fun entry member => by rw [other entry member]; rfl

theorem startTimes_append (topic : ℕ) (log entries : List Entry) :
    startTimes topic (log ++ entries) = startTimes topic log ++ startTimes topic entries := by
  simp only [startTimes, List.filter_append, List.map_append]

theorem startTimes_eq_nil {topic : ℕ} {entries : List Entry}
    (other : ∀ entry ∈ entries, entry.event.startsWorker topic = false) :
    startTimes topic entries = [] := by
  apply List.map_eq_nil_iff.mpr
  apply List.filter_eq_nil_iff.mpr
  intro entry member
  simp [other entry member]

def worker (topic : ℕ) (s : NodeState) : WorkerView where
  bucket := s.buckets topic
  starts := startTimes topic s.log
  dequeues := amounts (Event.dequeuedFrom? topic) s.log
  writes := amounts (Event.writtenTo? topic) s.log
  hand := (s.pc (.worker topic)).holding (.send topic)
  started := (s.pc (.worker topic)).started

/-! ## The view of the worker after a move or an event -/

theorem worker_move_other {thread : Thread} (pc : Pc thread) (other : .worker topic ≠ thread) :
    (s.move thread pc).worker topic = s.worker topic := by
  simp only [worker, move_pc, Function.update_of_ne other]
  rfl

theorem worker_move_own (s : NodeState) (pc : Pc (.worker topic)) :
    (s.move (.worker topic) pc).worker topic =
      { s.worker topic with hand := pc.holding (.send topic), started := pc.started } := by
  simp only [worker, move_pc, Function.update_self]
  rfl

theorem worker_move {thread : Thread} {pc : Pc thread}
    (holding : pc.holding (.send topic) = (s.pc thread).holding (.send topic))
    (started : pc.started = (s.pc thread).started) :
    (s.move thread pc).worker topic = s.worker topic := by
  by_cases own : .worker topic = thread
  · subst own
    rw [worker_move_own, holding, started]
    rfl
  · exact worker_move_other pc own

/-- Events that are of no concern to the bucket of the topic. -/
theorem worker_unmetered {entries : List Entry} (log : t.log = s.log ++ entries)
    (unmetered : ∀ entry ∈ entries, entry.event.unmetered topic = true)
    (buckets : t.buckets = s.buckets) (pc : t.pc = s.pc) : t.worker topic = s.worker topic := by
  have parts : ∀ entry ∈ entries, entry.event.dequeuedFrom? topic = none ∧
      entry.event.writtenTo? topic = none ∧ entry.event.startsWorker topic = false := by
    intro entry member
    have all := unmetered entry member
    simp only [Event.unmetered, Bool.and_eq_true, Option.isNone_iff_eq_none,
      Bool.not_eq_true'] at all
    exact ⟨all.1.1, all.1.2, all.2⟩
  simp only [worker, buckets, pc, log, amounts_append, startTimes_append]
  rw [amounts_eq_nil fun entry member => (parts entry member).1,
    amounts_eq_nil fun entry member => (parts entry member).2.1,
    startTimes_eq_nil fun entry member => (parts entry member).2.2]
  simp only [List.append_nil]

theorem worker_record {event : Event} (unmetered : event.unmetered topic = true) :
    (s.record event).worker topic = s.worker topic :=
  worker_unmetered rfl (by simpa using unmetered) rfl rfl

theorem worker_taken (buffers : Channel -> List Message) (channel : Channel) (message : Message) :
    ({ s with faultBuffers := buffers }.record (.taken channel message)).worker topic =
      s.worker topic :=
  worker_unmetered (s := s) rfl (by simp [Event.unmetered, Event.dequeuedFrom?, Event.writtenTo?,
    Event.startsWorker]) rfl rfl

theorem worker_enqueue (other : ℕ) (message : Message) :
    (s.enqueue cfg other message).worker topic = s.worker topic := by
  refine worker_unmetered rfl (fun entry member => ?_) rfl rfl
  simp only [List.map_map, List.mem_map] at member
  rcases member with ⟨dropped, -, rfl⟩
  rfl

theorem worker_dequeued (s : NodeState) (topic : ℕ) (message : Message) :
    (s.record (.dequeued topic message)).worker topic =
      { s.worker topic with
        dequeues := (s.worker topic).dequeues ++ [(s.now, (message.dataLen : ℚ))] } := by
  simp [worker, amounts, startTimes, Event.dequeuedFrom?, Event.writtenTo?, Event.startsWorker]

theorem worker_written (s : NodeState) (topic : ℕ) (message : Message) :
    (s.record (.delivered (.send topic) message)).worker topic =
      { s.worker topic with
        writes := (s.worker topic).writes ++ [(s.now, (message.dataLen : ℚ))] } := by
  simp [worker, amounts, startTimes, Event.dequeuedFrom?, Event.writtenTo?, Event.startsWorker]

theorem worker_started (s : NodeState) (topic : ℕ) :
    (s.record (.workerStarted topic)).worker topic =
      { s.worker topic with starts := (s.worker topic).starts ++ [s.now] } := by
  simp [worker, amounts, startTimes, Event.dequeuedFrom?, Event.writtenTo?, Event.startsWorker]

end NodeState

/-! ## The steps of the node as the worker sees them -/

/-- The outcomes of a step for the bucket of one topic. -/
inductive WorkerStep (cfg : BridgeConfig) (topic : ℕ) (s t : NodeState) : Prop
  | same (clock : s.now ≤ t.now) (worker : t.worker topic = s.worker topic)
  /-- `send_func` starts. -/
  | started (clock : t.now = s.now) (free : (s.worker topic).started = false)
      (worker : t.worker topic =
        { s.worker topic with
          bucket := initialBucket (cfg.topic (.send topic)).maxBitrate s.now
          starts := (s.worker topic).starts ++ [s.now]
          hand := []
          started := true })
  /-- The front message has to wait. -/
  | refilled (clock : t.now = s.now) (begun : (s.worker topic).started = true) (front : Message)
      (queued : front ∈ s.queue (.send topic))
      (worker : t.worker topic =
        { s.worker topic with
          bucket := refillTokens (cfg.topic (.send topic)).maxBitrate s.now front.dataLen
            (s.worker topic).bucket })
  /-- The front message is dequeued. -/
  | dequeued (clock : t.now = s.now) (begun : (s.worker topic).started = true)
      (free : (s.worker topic).hand = []) (front : Message) {bucket : Bucket ℚ}
      (queued : front ∈ s.queue (.send topic))
      (refilled : bucket = refillTokens (cfg.topic (.send topic)).maxBitrate s.now front.dataLen
        (s.worker topic).bucket)
      (enough : (front.dataLen : ℚ) ≤ bucket.available)
      (worker : t.worker topic =
        { s.worker topic with
          bucket := bucket.spend front.dataLen
          dequeues := (s.worker topic).dequeues ++ [(s.now, (front.dataLen : ℚ))]
          hand := [front] })
  /-- The fault policy takes the message in the worker's hand. -/
  | diverted (clock : t.now = s.now) (begun : (s.worker topic).started = true)
      (worker : t.worker topic = { s.worker topic with hand := [] })
  /-- The worker writes the message in its hand. -/
  | wrote (clock : t.now = s.now) (begun : (s.worker topic).started = true) (message : Message)
      (hand : (s.worker topic).hand = [message])
      (worker : t.worker topic =
        { s.worker topic with
          writes := (s.worker topic).writes ++ [(s.now, (message.dataLen : ℚ))]
          hand := [] })

namespace NodeStep

variable {cfg : BridgeConfig} {topic : ℕ} {s t : NodeState} {action : Action}

open NodeState

theorem worker (step : NodeStep cfg s action t) (limited : cfg.limited (.send topic) = true)
    (routed : s.Routed cfg) : WorkerStep cfg topic s t := by
  cases step with
  | advance later => exact .same later rfl
  | @arrive channel payload valid idle =>
      refine .same le_rfl ?_
      rw [NodeState.arrive, worker_move_other _ (by cases channel <;> exact Thread.noConfusion),
        worker_record rfl]
      rfl
  | refused => exact .same le_rfl rfl
  | granted => exact .same le_rfl (worker_move_other _ Thread.noConfusion)
  | expire at_entry =>
      refine .same le_rfl (worker_move ?_ ?_) <;> simp only [at_entry] <;> rfl
  | unexpired at_entry =>
      refine .same le_rfl (worker_move ?_ ?_) <;> rw [at_entry] <;> rfl
  | @take thread job at_check =>
      by_cases own : .worker topic = thread
      · subst own
        refine .diverted rfl (by rw [worker, at_check]; rfl) ?_
        rw [NodeState.take, worker_move_own, worker_taken]
        simp [worker, at_check, Pc.started, Pc.holding, Pc.job?]
      · exact .same le_rfl ((worker_move_other _ own).trans (worker_taken _ _ _))
  | toQueue => exact .same le_rfl (worker_move_other _ Thread.noConfusion)
  | toZmq => exact .same le_rfl (worker_move_other _ Thread.noConfusion)
  | pass at_check =>
      refine .same le_rfl ((worker_move ?_ ?_).trans (worker_record rfl)) <;>
        simp only [record_pc, at_check] <;> rfl
  | enqueue =>
      refine .same le_rfl ?_
      rw [worker_move_other _ Thread.noConfusion, worker_enqueue]
  | @deliver thread job at_cleared final =>
      by_cases about : job.channel = .send topic
      · cases job with
        | dispatchSend other message => cases final
        | beforeZmq other message =>
            cases about
            rw [routed.direct topic message (by rw [at_cleared]; rfl)] at limited
            cases limited
        | @pump other message =>
            cases about
            refine .wrote rfl (by rw [worker, at_cleared]; rfl) message ?_ ?_
            · simp [worker, at_cleared, Pc.holding, Pc.job?, Job.channel, Job.message]
            · rw [worker_move_own, NodeState.deliver]
              simp only [Job.channel, Job.message, worker_written]
              simp [worker, at_cleared, Pc.started, Pc.holding, Pc.job?]
        | received message => cases about
      · have logged : (s.deliver job.channel job.message).worker topic = s.worker topic :=
          worker_record (by simp [Event.unmetered, Event.dequeuedFrom?, Event.writtenTo?,
            Event.startsWorker, about])
        refine .same le_rfl ((worker_move ?_ ?_).trans logged)
        · simp [NodeState.deliver, at_cleared, Pc.holding, Pc.job?, about]
        · simp only [NodeState.deliver, record_pc, at_cleared]
          rfl
  | swap at_swap =>
      refine .same le_rfl (worker_move ?_ ?_) <;> simp only [at_swap]
      · exact Pc.holding_flushing _ _ _ _
      · rfl
  | @replayQueued thread resume done rest other message at_replay =>
      have before : ((s.record (.replayed (.send other) message)).enqueue cfg other message).pc
          thread = .flushing resume (.replay done ((.send other, message) :: rest)) := at_replay
      refine .same le_rfl ?_
      rw [worker_move (by rw [before]; exact Pc.holding_flushing _ _ _ _) (by rw [before]; rfl),
        worker_enqueue, worker_record rfl]
  | @replayDirect thread resume done rest channel message at_replay unlimited =>
      have before : ((s.record (.replayed channel message)).deliver channel message).pc
          thread = .flushing resume (.replay done ((channel, message) :: rest)) := at_replay
      have different : channel ≠ .send topic := by
        rintro rfl
        rw [limited] at unlimited
        cases unlimited
      have logged : (s.record (.replayed channel message) |>.deliver channel message).worker topic =
          (s.record (.replayed channel message)).worker topic :=
        worker_record (by simp [Event.unmetered, Event.dequeuedFrom?, Event.writtenTo?,
          Event.startsWorker, different])
      refine .same le_rfl ?_
      rw [worker_move (by rw [before]; exact Pc.holding_flushing _ _ _ _) (by rw [before]; rfl),
        logged, worker_record rfl]
  | endRecovery at_end =>
      refine .same le_rfl (worker_move ?_ ?_) <;> simp only [at_end] <;> rfl
  | endLoop => exact .same le_rfl (worker_move_other _ Thread.noConfusion)
  | notified at_notify =>
      refine .same le_rfl (worker_move ?_ ?_) <;> rw [at_notify] <;> rfl
  | @startWorker other at_start =>
      by_cases own : other = topic
      · subst own
        refine .started rfl (by rw [worker, at_start]; rfl) ?_
        rw [NodeState.startWorker, worker_move_own, worker_started]
        simp [worker, Pc.started, Pc.holding, Pc.job?]
      · have different : Thread.worker topic ≠ .worker other := fun same =>
          own (Thread.worker.inj same).symm
        refine .same le_rfl ?_
        rw [NodeState.startWorker, worker_move_other _ different,
          worker_record (by simp [Event.unmetered, Event.dequeuedFrom?, Event.writtenTo?,
            Event.startsWorker, own])]
        simp [worker, Function.update_of_ne (Ne.symm own)]
  | @awaitTokens other front rest bucket at_loop waiting refilled short =>
      by_cases own : other = topic
      · subst own
        refine .refilled rfl (by rw [worker, at_loop]; rfl) front ?_ ?_
        · rw [queue, waiting]
          exact List.mem_cons_self
        · simp [worker, refilled]
      · refine .same le_rfl ?_
        simp [worker, Function.update_of_ne (Ne.symm own)]
  | @dequeue other front rest bucket bytes at_loop waiting refilled counted enough =>
      by_cases own : other = topic
      · subst own
        refine .dequeued rfl (by rw [worker, at_loop]; rfl) ?_ front ?_ refilled enough ?_
        · rw [worker, at_loop]
          rfl
        · rw [queue, waiting]
          exact List.mem_cons_self
        · rw [worker_move_own, worker_dequeued]
          simp [worker, at_loop, Pc.started, Pc.holding, Pc.job?, Job.channel, Job.message]
      · have different : Thread.worker topic ≠ .worker other := fun same =>
          own (Thread.worker.inj same).symm
        refine .same le_rfl ?_
        rw [worker_move_other _ different,
          worker_record (by simp [Event.unmetered, Event.dequeuedFrom?, Event.writtenTo?,
            Event.startsWorker, own])]
        simp [worker, Function.update_of_ne (Ne.symm own)]
  | monitorExpire => exact .same le_rfl (worker_move_other _ Thread.noConfusion)
  | openWindow starter =>
      refine .same le_rfl (worker_move_other _ ?_)
      rcases starter.thread_eq with same | same <;> rw [same] <;> exact Thread.noConfusion
  | quiet _ _ _ notWorker => exact .same le_rfl (worker_move_other _ (Ne.symm (notWorker topic)))
  | stop =>
      refine .same le_rfl ?_
      rw [stopNodeFaultControl, worker_move_other _ Thread.noConfusion,
        worker_move_other _ Thread.noConfusion]
      rfl

end NodeStep

end SwarmBridge
