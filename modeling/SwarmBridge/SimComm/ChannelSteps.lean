import SwarmBridge.SimComm.FaultSteps

namespace SwarmBridge

open Foundation

/-!
# Steps as one channel sees them

`ChannelStep` classifies a step by what it does to the view of one channel.  A
step of another channel, of the fault flags or of the token buckets leaves the
view as it is.  The delivery laws are proved by cases on this list.
-/

/-- The effect of a step on the view of one channel, with the guards of the step
that the delivery laws use. -/
inductive ChannelStep (cfg : BridgeConfig) (channel : Channel) (s : NodeState) :
    Action -> NodeState -> Prop
  | same {action : Action} {t : NodeState} (view : t.view channel = s.view channel) :
      ChannelStep cfg channel s action t
  | arrived {payload : SimCommMessage} {t : NodeState} (idle : s.pc channel.reader = .idle)
      (arrivals : t.arrivals = s.arrivals + 1)
      (view : t.view channel =
        { s.view channel with
          log := (s.view channel).log ++ [s.stamp (.arrived channel ⟨s.arrivals, payload⟩)]
          holding := Function.update (s.view channel).holding channel.reader
            [⟨s.arrivals, payload⟩] }) :
      ChannelStep cfg channel s (.arrive channel payload) t
  | took {thread : Thread} {job : Job thread} {t : NodeState} (about : job.channel = channel)
      (at_check : s.pc thread = .check job) (settled : s.nodeFaultRecovering = false)
      (active : s.nodeFaultActive = true) (inside : s.now < s.nodeFaultUntil)
      (view : t.view channel =
        { s.view channel with
          log := (s.view channel).log ++ [s.stamp (.taken channel job.message)]
          buffer := applyFaultPolicyToBuffer (cfg.policy channel) job.message
            (s.view channel).buffer
          holding := Function.update (s.view channel).holding thread [] }) :
      ChannelStep cfg channel s (.run thread) t
  | passed {thread : Thread} {job : Job thread} {t : NodeState} (about : job.channel = channel)
      (at_check : s.pc thread = .check job) (settled : s.nodeFaultRecovering = false)
      (outside : s.nodeFaultActive = true -> s.nodeFaultUntil ≤ s.now) (final : job.final = true)
      (view : t.view channel =
        { s.view channel with
          log := (s.view channel).log ++ [s.stamp (.passed channel job.message)]
          pastCheck := Function.update (s.view channel).pastCheck thread true }) :
      ChannelStep cfg channel s (.run thread) t
  | enqueued {topic : ℕ} {message : Message} {evicted kept : List Message} {t : NodeState}
      (about : channel = .send topic) (at_cleared : s.pc .ros = .cleared (.dispatchSend topic message))
      (queue : (s.view channel).queue = evicted ++ kept)
      (view : t.view channel =
        { s.view channel with
          log := (s.view channel).log ++ evicted.map fun dropped => s.stamp (.evicted topic dropped)
          queue := kept ++ [message]
          holding := Function.update (s.view channel).holding .ros [] })
      (evicts : evicted = (enqueueSendMessage cfg.undefinedSize (cfg.topic channel).maxBitrate message
        (s.sendQueues topic)).1) :
      ChannelStep cfg channel s (.run .ros) t
  | delivered {thread : Thread} {job : Job thread} {t : NodeState} (about : job.channel = channel)
      (at_cleared : s.pc thread = .cleared job) (final : job.final = true)
      (view : t.view channel =
        { s.view channel with
          log := (s.view channel).log ++ [s.stamp (.delivered channel job.message)]
          holding := Function.update (s.view channel).holding thread []
          pastCheck := Function.update (s.view channel).pastCheck thread false }) :
      ChannelStep cfg channel s (.run thread) t
  | dequeued {topic : ℕ} {front : Message} {rest : List Message} {t : NodeState}
      (about : channel = .send topic) (at_loop : s.pc (.worker topic) = .idle)
      (queue : (s.view channel).queue = front :: rest)
      (view : t.view channel =
        { s.view channel with
          log := (s.view channel).log ++ [s.stamp (.dequeued topic front)]
          queue := rest
          holding := Function.update (s.view channel).holding (.worker topic) [front] }) :
      ChannelStep cfg channel s (.run (.worker topic)) t
  | swapped {thread : Thread} {t : NodeState} (holds : s.phases thread = some .swap)
      (view : t.view channel =
        { s.view channel with
          buffer := []
          pending := Function.update (s.view channel).pending thread (s.view channel).buffer }) :
      ChannelStep cfg channel s (.run thread) t
  | replayedDirect {thread : Thread} {done rest : List (Channel × Message)} {message : Message}
      {t : NodeState} (holds : s.phases thread = some (.replay done ((channel, message) :: rest)))
      (unlimited : cfg.limited channel = false)
      (view : t.view channel =
        { s.view channel with
          log := (s.view channel).log ++
            [s.stamp (.replayed channel message), s.stamp (.delivered channel message)]
          pending := Function.update (s.view channel).pending thread
            ((FlushPhase.replay (done ++ [(channel, message)]) rest).pending channel) }) :
      ChannelStep cfg channel s (.run thread) t
  | replayedQueued {thread : Thread} {done rest : List (Channel × Message)} {topic : ℕ}
      {message : Message} {evicted kept : List Message} {t : NodeState}
      (about : channel = .send topic)
      (holds : s.phases thread = some (.replay done ((channel, message) :: rest)))
      (limited : cfg.limited channel = true)
      (queue : (s.view channel).queue = evicted ++ kept)
      (view : t.view channel =
        { s.view channel with
          log := (s.view channel).log ++ s.stamp (.replayed channel message) ::
            evicted.map fun dropped => s.stamp (.evicted topic dropped)
          queue := kept ++ [message]
          pending := Function.update (s.view channel).pending thread
            ((FlushPhase.replay (done ++ [(channel, message)]) rest).pending channel) })
      (evicts : evicted = (enqueueSendMessage cfg.undefinedSize (cfg.topic channel).maxBitrate message
        (s.sendQueues topic)).1) :
      ChannelStep cfg channel s (.run thread) t
  | opened {action : Action} {t : NodeState} (starts : startsFault s action = true)
      (view : t.view channel = { s.view channel with buffer := [] }) :
      ChannelStep cfg channel s action t

namespace NodeState

variable {cfg : BridgeConfig} {channel : Channel} {s : NodeState} {thread : Thread}

/-- A quiet thread that stays quiet. -/
theorem view_move_quiet {pc : Pc thread} (free : (s.pc thread).job? = none)
    (outside : (s.pc thread).phase? = none) (quiet : pc.quiet = true) :
    (s.move thread pc).view channel = s.view channel := by
  refine view_move_same ?_ ?_ ?_
  · rw [Pc.quiet_holding quiet, Pc.holding, free]
  · rw [Pc.quiet_pending quiet, Pc.pending, outside]
  · rw [Pc.quiet_pastCheck quiet]
    cases at_pc : s.pc thread <;> first | rfl | simp [at_pc, Pc.job?] at free

/-- The swap moves the fault buffer of every channel into the batch of the thread. -/
theorem view_swapBuffers (valid : cfg.hasChannel channel = true) {resume : Resume thread}
    (at_swap : s.pc thread = .flushing resume .swap) :
    (s.swapBuffers cfg thread resume).view channel =
      { s.view channel with
        buffer := []
        pending := Function.update (s.view channel).pending thread (s.view channel).buffer } := by
  have batch : (Pc.flushing resume (.replay [] (s.flushOrder cfg))).pending channel =
      s.faultBuffers channel := pending_flushOrder valid
  rw [swapBuffers, view_move_pending (by rw [at_swap]; exact Pc.holding_flushing _ _ _ _)
    (by rw [at_swap]; rfl), batch]
  rfl

end NodeState

namespace NodeStep

variable {cfg : BridgeConfig} {channel : Channel} {s t : NodeState} {action : Action}

open NodeState

theorem onChannel (step : NodeStep cfg s action t) (valid : cfg.hasChannel channel = true) :
    ChannelStep cfg channel s action t := by
  cases step with
  | advance later => exact .same rfl
  | @arrive target payload valid' idle =>
      by_cases same : target = channel
      · subst same
        refine .arrived idle rfl ?_
        have hand : ∀ message : Message,
            (Pc.entry (Job.ofArrival target message)).holding target = [message] := by
          simp [Pc.holding, Pc.job?]
        rw [NodeState.arrive, view_move_holding (by simp [idle, Pc.pending, Pc.phase?])
          (by simp [idle, Pc.pastCheck]), view_record_same rfl, hand]
        rfl
      · refine .same ?_
        rw [NodeState.arrive, view_move_same (by simp [idle, Pc.holding, Pc.job?, same])
          (by simp [idle, Pc.pending, Pc.phase?]) (by simp [idle, Pc.pastCheck]),
          view_record_other (by simpa [Event.channel?] using same)]
        rfl
  | refused => exact .same rfl
  | granted idle =>
      exact .same (view_move_same (by rw [idle]; rfl) (by rw [idle]; rfl) (by rw [idle]; rfl))
  | expire at_entry =>
      refine .same (view_move_same ?_ ?_ ?_) <;> simp only [at_entry] <;> rfl
  | unexpired at_entry fresh =>
      exact .same (view_move_same (by rw [at_entry]; rfl) (by rw [at_entry]; rfl)
        (by rw [at_entry]; rfl))
  | @take thread job at_check settled active inside =>
      by_cases same : job.channel = channel
      · subst same
        refine .took rfl at_check settled active inside ?_
        rw [NodeState.take, view_move_holding (by simp [at_check, Pc.pending, Pc.phase?])
          (by simp [at_check, Pc.pastCheck]), view_record_same rfl]
        simp only [view, Function.update_self]
        rfl
      · refine .same ?_
        rw [NodeState.take, view_move_same (by simp [at_check, Pc.holding, Pc.job?, same])
          (by simp [at_check, Pc.pending, Pc.phase?]) (by simp [at_check, Pc.pastCheck]),
          view_record_other (by simpa [Event.channel?] using same)]
        simp [view, Function.update_of_ne (Ne.symm same), queue]
  | toQueue at_check =>
      exact .same (view_move_same (by rw [at_check]; rfl) (by rw [at_check]; rfl)
        (by rw [at_check]; rfl))
  | toZmq at_check =>
      exact .same (view_move_same (by rw [at_check]; rfl) (by rw [at_check]; rfl)
        (by rw [at_check]; rfl))
  | @pass thread job at_check settled outside final =>
      by_cases same : job.channel = channel
      · subst same
        refine .passed rfl at_check settled outside final ?_
        rw [view_move_pastCheck (by simp [at_check, Pc.holding, Pc.job?])
          (by simp [at_check, Pc.pending, Pc.phase?]), view_record_same rfl]
        simp [Pc.pastCheck, final]
      · refine .same ?_
        rw [view_move_same (by simp [at_check, Pc.holding, Pc.job?, same])
          (by simp [at_check, Pc.pending, Pc.phase?]) (by simp [at_check, Pc.pastCheck, same]),
          view_record_other (by simpa [Event.channel?] using same)]
  | @enqueue topic message at_cleared =>
      by_cases same : Channel.send topic = channel
      · subst same
        rcases view_enqueue_same cfg s topic message with ⟨evicted, kept, split, view, evicts⟩
        refine .enqueued rfl at_cleared split ?_ evicts
        rw [view_move_holding (by simp [NodeState.enqueue, at_cleared, Pc.pending, Pc.phase?])
          (by simp [NodeState.enqueue, at_cleared, Pc.pastCheck, Job.final]), view]
        simp [Pc.holding, Pc.job?]
      · refine .same ?_
        rw [view_move_same (by simp [NodeState.enqueue, at_cleared, Pc.holding, Pc.job?, Job.channel, same])
          (by simp [NodeState.enqueue, at_cleared, Pc.pending, Pc.phase?])
          (by simp [NodeState.enqueue, at_cleared, Pc.pastCheck, Job.final]),
          view_enqueue_other message same]
  | @deliver thread job at_cleared final =>
      by_cases same : job.channel = channel
      · subst same
        refine .delivered rfl at_cleared final ?_
        rw [view_move, update_pending_same (by simp [NodeState.deliver, at_cleared, Pc.pending, Pc.phase?]),
          NodeState.deliver, view_record_same rfl]
        simp [Pc.holding, Pc.job?, Pc.pastCheck]
      · refine .same ?_
        rw [view_move_same (by simp [NodeState.deliver, at_cleared, Pc.holding, Pc.job?, same])
          (by simp [NodeState.deliver, at_cleared, Pc.pending, Pc.phase?])
          (by simp [NodeState.deliver, at_cleared, Pc.pastCheck, same]),
          NodeState.deliver, view_record_other (by simpa [Event.channel?] using same)]
  | swap at_swap =>
      exact .swapped (by rw [phases, at_swap]; rfl) (view_swapBuffers valid at_swap)
  | @replayQueued thread resume done rest topic message at_replay limited =>
      have holds : s.phases thread = some (.replay done ((.send topic, message) :: rest)) := by
        rw [phases, at_replay]; rfl
      have before : ((s.record (.replayed (.send topic) message)).enqueue cfg topic message).pc
          thread = .flushing resume (.replay done ((.send topic, message) :: rest)) := at_replay
      by_cases same : Channel.send topic = channel
      · subst same
        rcases view_enqueue_same cfg
          (s.record (.replayed (.send topic) message)) topic message
            with ⟨evicted, kept, split, view, evicts⟩
        rw [view_record_same rfl] at split view
        refine .replayedQueued rfl holds limited split ?_ evicts
        rw [view_move_pending (by rw [before]; exact Pc.holding_flushing _ _ _ _)
          (by rw [before]; rfl), view]
        simp only [List.append_assoc]
        rfl
      · refine .same ?_
        rw [view_move_same (by rw [before]; exact Pc.holding_flushing _ _ _ _)
          (by rw [before]; exact FlushPhase.pending_replay_other done rest message same)
          (by rw [before]; rfl), view_enqueue_other message same,
          view_record_other (by simpa [Event.channel?] using same)]
  | @replayDirect thread resume done rest target message at_replay unlimited =>
      have holds : s.phases thread = some (.replay done ((target, message) :: rest)) := by
        rw [phases, at_replay]; rfl
      have before : ((s.record (.replayed target message)).deliver target message).pc
          thread = .flushing resume (.replay done ((target, message) :: rest)) := at_replay
      by_cases same : target = channel
      · subst same
        refine .replayedDirect holds unlimited ?_
        rw [view_move_pending (by rw [before]; exact Pc.holding_flushing _ _ _ _)
          (by rw [before]; rfl), NodeState.deliver, view_record_same rfl, view_record_same rfl]
        simp only [List.append_assoc]
        rfl
      · refine .same ?_
        rw [view_move_same (by rw [before]; exact Pc.holding_flushing _ _ _ _)
          (by rw [before]; exact FlushPhase.pending_replay_other done rest message same)
          (by rw [before]; rfl), NodeState.deliver,
          view_record_other (by simpa [Event.channel?] using same),
          view_record_other (by simpa [Event.channel?] using same)]
  | endRecovery at_end =>
      refine .same (view_move_same ?_ ?_ ?_) <;> simp only [at_end] <;> rfl
  | endLoop at_end quiet =>
      refine .same (view_move_same ?_ ?_ ?_) <;> simp only [at_end]
      · exact Pc.quiet_holding quiet channel
      · exact Pc.quiet_pending quiet channel
      · exact Pc.quiet_pastCheck quiet channel
  | notified at_notify =>
      exact .same (view_move_same (by rw [at_notify]; rfl) (by rw [at_notify]; rfl)
        (by rw [at_notify]; rfl))
  | startWorker at_start =>
      refine .same ?_
      rw [NodeState.startWorker, view_move_same (by simp [at_start, Pc.holding, Pc.job?])
        (by simp [at_start, Pc.pending, Pc.phase?]) (by simp [at_start, Pc.pastCheck]),
        view_record_other (by simp [Event.channel?])]
      rfl
  | awaitTokens => exact .same rfl
  | @dequeue topic front rest bucket bytes at_loop queue refilled counted enough =>
      by_cases same : Channel.send topic = channel
      · subst same
        refine .dequeued rfl at_loop queue ?_
        rw [view_move_holding (by simp [at_loop, Pc.pending, Pc.phase?])
          (by simp [at_loop, Pc.pastCheck]), view_record_same rfl]
        simp only [view, NodeState.queue, Function.update_self]
        have hand : (Pc.entry (.pump front : Job (.worker topic))).holding (.send topic) = [front] := by
          simp [Pc.holding, Pc.job?, Job.channel, Job.message]
        rw [hand]
        rfl
      · refine .same ?_
        rw [view_move_same (by simp [at_loop, Pc.holding, Pc.job?, Job.channel, same])
          (by simp [at_loop, Pc.pending, Pc.phase?]) (by simp [at_loop, Pc.pastCheck]),
          view_record_other (by simpa [Event.channel?] using same)]
        cases channel with
        | recv other => rfl
        | send other =>
            have different : other ≠ topic := fun equal => same (equal ▸ rfl)
            simp [view, NodeState.queue, Function.update_of_ne different]
  | monitorExpire at_wait =>
      refine .same (view_move_same ?_ ?_ ?_) <;> simp only [at_wait] <;> rfl
  | openWindow starter positive starts =>
      refine .opened starts ?_
      rw [view_move_same]
      · rfl
      all_goals
        cases starter with
        | control at_start => simp [NodeState.openWindow, at_start, Pc.holding, Pc.pending, Pc.job?, Pc.phase?, Pc.pastCheck]
        | startup at_start due => simp [NodeState.openWindow, at_start, Pc.holding, Pc.pending, Pc.job?, Pc.phase?, Pc.pastCheck]
  | quiet free outside quiet => exact .same (view_move_quiet free outside quiet)
  | stop ros control =>
      refine .same ?_
      rw [stopNodeFaultControl, view_move_same, view_move_same]
      · rfl
      all_goals simp [ros, control, Pc.holding, Pc.pending, Pc.job?, Pc.phase?, Pc.pastCheck]

end NodeStep

/-- The history of a channel only grows. -/
theorem NodeState.log_grows {cfg : BridgeConfig} {channel : Channel} {s t : NodeState}
    {action : Action} (step : ChannelStep cfg channel s action t) :
    (s.view channel).log <+: (t.view channel).log := by
  cases step with
  | same view => exact view ▸ List.prefix_rfl
  | swapped _ view => exact view ▸ List.prefix_rfl
  | opened _ view => exact view ▸ List.prefix_rfl
  | arrived _ _ view => exact view ▸ List.prefix_append _ _
  | took _ _ _ _ _ view => exact view ▸ List.prefix_append _ _
  | passed _ _ _ _ _ view => exact view ▸ List.prefix_append _ _
  | enqueued _ _ _ view => exact view ▸ List.prefix_append _ _
  | delivered _ _ _ view => exact view ▸ List.prefix_append _ _
  | dequeued _ _ _ view => exact view ▸ List.prefix_append _ _
  | replayedDirect _ _ view => exact view ▸ List.prefix_append _ _
  | replayedQueued _ _ _ _ view => exact view ▸ List.prefix_append _ _

end SwarmBridge
