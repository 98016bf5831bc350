import SwarmBridge.Delivery.AtMostOnce

namespace SwarmBridge

open Foundation

/-!
# A batch that fits into the bitrate queue

A new message drives out the oldest ones first, so a replay can only drop what waited in
the queue before it, as long as its batch has room in an empty queue, together with the one
message that the ROS thread may still put there.  A larger batch loses its first messages.
-/

/-- So many messages fit into an empty queue of the topic. -/
structure Fits (cfg : BridgeConfig) (topic : ℕ) (messages : List Message) : Prop where
  count : messages.length ≤ maxBitrateQueueMessages
  bytes : ∃ window, queueWindowBytes (cfg.topic (.send topic)).maxBitrate = some window ∧
    totalLen messages ≤ window

namespace Fits

variable {cfg : BridgeConfig} {topic : ℕ} {messages fewer : List Message}

theorem perm (fits : Fits cfg topic messages) (same : fewer.Perm messages) :
    Fits cfg topic fewer where
  count := same.length_eq.trans_le fits.count
  bytes := fits.bytes.imp fun _ window =>
    ⟨window.1, (same.map Message.dataLen).sum_eq.trans_le window.2⟩

theorem sublist (fits : Fits cfg topic messages) (part : fewer.Sublist messages) :
    Fits cfg topic fewer where
  count := part.length_le.trans fits.count
  bytes := fits.bytes.imp fun _ window =>
    ⟨window.1, ((part.map Message.dataLen).sum_le_sum fun _ _ => Nat.zero_le _).trans window.2⟩

theorem le_windowSize (fits : Fits cfg topic messages) :
    totalLen messages ≤ queueWindowSize cfg.undefinedSize (cfg.topic (.send topic)).maxBitrate := by
  rcases fits.bytes with ⟨window, defined, bytes⟩
  rwa [queueWindowSize, defined, Option.getD_some]

end Fits

/-- The thread stays in its flush section, and recoveries do not overlap. -/
def FlushesOn (thread : Thread) (s : NodeState) (action : Action) : Prop :=
  ExpiresOutsideRecovery s action ∧ (s.phases thread).isSome = true

instance (thread : Thread) (s : NodeState) (action : Action) :
    Decidable (FlushesOn thread s action) :=
  inferInstanceAs (Decidable (_ ∧ _))

namespace NodeState

variable {cfg : BridgeConfig} {topic : ℕ} {thread : Thread} {s t : NodeState} {action : Action}
  {backlog before dropped older later : List Message}

/-! ## The older messages go first -/

/-- Of the `backlog` of the queue the first messages have been dropped or taken out, the
`older` ones are left.  Behind them wait the `later` ones, which fit into the queue with
what the flush and the ROS thread have still to put there. -/
structure Spares (cfg : BridgeConfig) (topic : ℕ) (thread : Thread)
    (backlog before dropped older later : List Message) (s : NodeState) : Prop where
  evicted : (s.view (.send topic)).evicted = before ++ dropped
  queue : (s.view (.send topic)).queue = older ++ later
  backlog : (dropped ++ older).Sublist backlog
  fits : Fits cfg topic (later ++ (s.view (.send topic)).pending thread ++ s.incoming topic)

/-- Only messages of the backlog have been dropped since. -/
def SparesLater (cfg : BridgeConfig) (topic : ℕ) (thread : Thread)
    (backlog before : List Message) (s : NodeState) : Prop :=
  ∃ dropped older later, s.Spares cfg topic thread backlog before dropped older later

namespace Spares

/-- Nothing is dropped by a step that leaves the queue and the batch alone. -/
theorem stays (spares : s.Spares cfg topic thread backlog before dropped older later)
    (recovering : s.nodeFaultRecovering = true) (notStop : action ≠ .stop)
    (step : NodeStep cfg s action t)
    (evicted : (t.view (.send topic)).evicted = (s.view (.send topic)).evicted)
    (queue : (t.view (.send topic)).queue = (s.view (.send topic)).queue)
    (pending : (t.view (.send topic)).pending thread = (s.view (.send topic)).pending thread) :
    t.SparesLater cfg topic thread backlog before := by
  refine ⟨dropped, older, later, evicted.trans spares.evicted, queue.trans spares.queue,
    spares.backlog, ?_⟩
  rw [pending]
  exact spares.fits.sublist ((incoming_sublist topic recovering notStop step).append_left _)

/-- A message on the way to the queue drives out older messages only. -/
theorem drives_out (spares : s.Spares cfg topic thread backlog before dropped older later)
    (counted : (s.sendQueues topic).Counted) {message : Message}
    (member : message ∈ (s.view (.send topic)).pending thread ++ s.incoming topic) :
    (enqueueSendMessage cfg.undefinedSize (cfg.topic (.send topic)).maxBitrate message
      (s.sendQueues topic)).1 <+: older := by
  have count := spares.fits.count
  have bytes := spares.fits.le_windowSize
  have some_left := List.length_pos_of_mem member
  have part := dataLen_le_totalLen member
  rw [List.append_assoc, List.length_append] at count
  rw [List.append_assoc, totalLen_append] at bytes
  exact enqueueSendMessage_spares counted spares.queue (by omega) (by omega)

/-- A message that enters the queue joins the later ones. -/
theorem enters (spares : s.Spares cfg topic thread backlog before dropped older later)
    {message : Message} {evicted kept : List Message} (oldest : evicted <+: older)
    (split : (s.view (.send topic)).queue = evicted ++ kept)
    (drops : (t.view (.send topic)).evicted = (s.view (.send topic)).evicted ++ evicted)
    (queue : (t.view (.send topic)).queue = kept ++ [message])
    (fits : Fits cfg topic
      (later ++ [message] ++ (t.view (.send topic)).pending thread ++ t.incoming topic)) :
    t.SparesLater cfg topic thread backlog before := by
  rcases oldest with ⟨left, rfl⟩
  have behind : kept = left ++ later := by
    have both := split.symm.trans spares.queue
    rwa [List.append_assoc, List.append_cancel_left_eq] at both
  refine ⟨dropped ++ evicted, left, later ++ [message], ?_, ?_, ?_, fits⟩
  · rw [drops, spares.evicted, List.append_assoc]
  · rw [queue, behind, List.append_assoc]
  · rw [List.append_assoc]
    exact spares.backlog

/-- The worker takes the front message out. -/
theorem takes_front (spares : s.Spares cfg topic thread backlog before dropped older later)
    (recovering : s.nodeFaultRecovering = true) (notStop : action ≠ .stop)
    (step : NodeStep cfg s action t) {front : Message}
    (evicted : (t.view (.send topic)).evicted = (s.view (.send topic)).evicted)
    (queue : (s.view (.send topic)).queue = front :: (t.view (.send topic)).queue)
    (pending : (t.view (.send topic)).pending thread = (s.view (.send topic)).pending thread) :
    t.SparesLater cfg topic thread backlog before := by
  have incoming : (t.incoming topic).Sublist (s.incoming topic) :=
    incoming_sublist topic recovering notStop step
  have split := queue.symm.trans spares.queue
  cases older with
  | nil =>
      -- the worker has come to the later messages
      rw [List.nil_append] at split
      subst split
      refine ⟨dropped, [], _, evicted.trans spares.evicted, rfl, spares.backlog, ?_⟩
      rw [pending]
      exact (spares.fits.sublist (List.sublist_cons_self front _)).sublist (incoming.append_left _)
  | cons first left =>
      rw [List.cons_append, List.cons.injEq] at split
      refine ⟨dropped, left, later, evicted.trans spares.evicted, split.2, ?_, ?_⟩
      · exact ((List.sublist_cons_self first left).append_left dropped).trans spares.backlog
      · rw [pending]
        exact spares.fits.sublist (incoming.append_left _)

end Spares

theorem sparesLater_step (valid : cfg.hasChannel (.send topic) = true)
    (limited : cfg.limited (.send topic) = true) (counted : (s.sendQueues topic).Counted)
    (replaying : s.Replaying thread) (spared : s.SparesLater cfg topic thread backlog before)
    (notStop : action ≠ .stop) (step : NodeStep cfg s action t) :
    t.SparesLater cfg topic thread backlog before := by
  rcases spared with ⟨dropped, older, later, spares⟩
  have stays := spares.stays replaying.recovering notStop step
  cases step.onChannel valid with
  | same view => apply stays <;> rw [view]
  | arrived at_idle arrivals view => apply stays <;> simp [view, stamp, Event.evicted?]
  | took about at_check settled => exact (replaying.unsettled settled).elim
  | passed about at_check settled => exact (replaying.unsettled settled).elim
  | @enqueued other message evicted kept _ about at_cleared queue view evicts =>
      cases about
      have arrives : s.incoming topic = [message] := by
        simp [incoming, at_cleared, Pc.enqueues]
      have oldest : evicted <+: older := by
        rw [evicts]
        apply spares.drives_out counted
        rw [arrives]
        exact List.mem_append_right _ (List.mem_singleton_self message)
      have emptied : (t.view (.send topic)).holding .ros = [] := by simp [view]
      have left : t.incoming topic = [] :=
        List.sublist_nil.mp (emptied ▸ Pc.enqueues_sublist topic (t.pc .ros))
      have pending : (t.view (.send topic)).pending thread =
          (s.view (.send topic)).pending thread := by rw [view]
      refine spares.enters oldest queue ?_ (by rw [view]) ?_
      · simp [view, stamp, Event.evicted?, List.filterMap_map]
      · rw [left, pending, List.append_nil, List.append_assoc]
        have fits := spares.fits
        rw [arrives, List.append_assoc] at fits
        exact fits.perm (List.perm_append_comm.append_left later)
  | delivered about at_cleared final view => apply stays <;> simp [view, stamp, Event.evicted?]
  | @dequeued _ front rest _ about at_loop queue view =>
      apply spares.takes_front replaying.recovering notStop step
      · simp [view, stamp, Event.evicted?]
      · simp [view, queue]
        rfl
      · simp [view]
  | swapped holds => exact (replaying.not_swapping holds).elim
  | replayedDirect holds unlimited =>
      rw [limited] at unlimited
      cases unlimited
  | @replayedQueued flusher done rest other message evicted kept _ about holds _ queue view evicts =>
      cases about
      have own := replaying.sole holds
      subst own
      have oldest : evicted <+: older := by
        rw [evicts]
        apply spares.drives_out counted
        rw [pending_of_replay holds]
        exact List.mem_cons_self
      refine spares.enters oldest queue ?_ (by rw [view]) ?_
      · simp [view, stamp, Event.evicted?, List.filterMap_map]
      · have fits := spares.fits
        rw [pending_of_replay holds, List.append_cons later message] at fits
        simp only [view, Function.update_self]
        exact fits.sublist
          ((incoming_sublist topic replaying.recovering notStop step).append_left _)
  | opened starts view => apply stays <;> simp [view]

/-! ## From the swap to the end of the replay -/

/-- The step that leaves a replay, if it does, is the last one of the flush. -/
theorem phase_step (replaying : s.Replaying thread)
    (present : (t.phases thread).isSome = true) (step : FaultStep cfg s action t) :
    ∃ done rest, t.phases thread = some (.replay done rest) := by
  have phase := replaying.phase
  cases step with
  | still _ phases => rwa [phases]
  | took _ _ _ _ phases => rwa [phases]
  | opened _ phases => rwa [phases]
  | @began _ other _ _ free _ _ phases =>
      have different : thread ≠ other := by
        rintro rfl
        rcases phase with ⟨done, rest, holds⟩
        rw [holds] at free
        cases free
      rwa [phases, Function.update_of_ne different]
  | swapped _ _ holds => exact (replaying.not_swapping holds).elim
  | replayed _ _ holds phases =>
      have own := replaying.sole holds
      subst own
      rw [phases, Function.update_self]
      exact ⟨_, _, rfl⟩
  | ended _ _ holds phases =>
      have own := replaying.sole holds
      subst own
      rw [phases, Function.update_self] at present
      cases present

/-- No check takes a message during a replay. -/
theorem takesAs_step (replaying : s.Replaying thread)
    (step : FaultStep cfg s action t) : t.TakesAs s := by
  cases step with
  | still _ _ _ _ _ _ _ _ taken => exact taken
  | took _ settled => exact (replaying.unsettled settled).elim
  | opened _ _ _ _ _ _ _ taken => exact taken
  | began _ _ _ _ _ _ _ _ _ _ _ _ _ taken => exact taken
  | swapped _ _ _ _ _ _ _ _ _ _ taken => exact taken
  | replayed _ _ _ _ _ _ _ _ _ _ taken => exact taken
  | ended _ _ _ _ _ _ _ _ _ _ taken => exact taken

/-- What holds from the swap in `origin` on, as long as the thread stays in its flush and
recoveries do not overlap. -/
structure Flushing (cfg : BridgeConfig) (topic : ℕ) (thread : Thread) (s origin : NodeState) :
    Prop where
  reached : (bridgeNode cfg).Reaches ExpiresOutsideRecovery s
  phase : (s.phases thread).isSome = true -> ∃ done rest, s.phases thread = some (.replay done rest)
  untaken : s.TakesAs origin
  spared : Fits cfg topic (origin.faultBuffers (.send topic) ++ origin.incoming topic) ->
    s.SparesLater cfg topic thread (origin.queue (.send topic)) (origin.view (.send topic)).evicted

theorem Flushing.step {origin : NodeState}
    (valid : cfg.hasChannel (.send topic) = true) (limited : cfg.limited (.send topic) = true)
    (flushing : s.Flushing cfg topic thread origin) (running : s.nodeFaultThreadRunning = true)
    (allowed : FlushesOn thread s action) (notStop : action ≠ .stop)
    (stepped : nodeStep cfg s action = some t) : t.Flushing cfg topic thread origin := by
  have step : NodeStep cfg s action t := nodeStep_cases stepped
  have recovery := SoleRecovery.of_reaches flushing.reached running fun _ _ outside => outside
  have replaying : s.Replaying thread := ⟨recovery, flushing.phase allowed.2⟩
  constructor
  · exact flushing.reached.next allowed.1 stepped
  · exact fun present => phase_step replaying present (step.fault notStop)
  · intro channel window
    rw [takesAs_step replaying (step.fault notStop) channel window]
    exact flushing.untaken channel window
  · exact fun fits => sparesLater_step valid limited (counted_of_reaches flushing.reached topic)
      replaying (flushing.spared fits) notStop step

end NodeState

/-- The lists that a finished replay may leave the messages of a batch in. -/
def ChannelView.places (worker flusher : Thread) (view : ChannelView) : List (List Message) :=
  [view.pending flusher, view.delivered, view.holding worker, view.queue]

end SwarmBridge
