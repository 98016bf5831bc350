import SwarmBridge.SimComm.Sections

namespace SwarmBridge

open Foundation

/-!
# One channel of the node

A message of a channel is in the hand of a thread, in the fault buffer, in the
bitrate queue or in a batch that is being replayed, and everything that happens
to it is in the log.  `NodeState.view` projects the state of the node to these
places of one channel.
-/

namespace FlushPhase

/-- The messages of a channel that a flush has still to replay. -/
def pending (channel : Channel) : FlushPhase -> List Message
  | .swap => []
  | .replay _ rest => rest.filterMap fun entry => if entry.1 = channel then some entry.2 else none

theorem pending_replay_same (done rest : List (Channel × Message)) (channel : Channel)
    (message : Message) :
    (replay done ((channel, message) :: rest)).pending channel =
      message :: (replay (done ++ [(channel, message)]) rest).pending channel := by
  simp [pending]

theorem pending_replay_other (done rest : List (Channel × Message)) {channel other : Channel}
    (message : Message) (different : other ≠ channel) :
    (replay (done ++ [(other, message)]) rest).pending channel =
      (replay done ((other, message) :: rest)).pending channel := by
  simp [pending, different]

end FlushPhase

namespace Pc

variable {thread : Thread}

/-- The messages of a channel that the thread's flush has still to replay. -/
def pending (channel : Channel) (pc : Pc thread) : List Message :=
  match pc.phase? with
  | some phase => phase.pending channel
  | none => []

/-- The thread holds a message of the channel that has passed its last check. -/
def pastCheck (channel : Channel) : {thread : Thread} -> Pc thread -> Bool
  | _, .cleared job => job.final && decide (job.channel = channel)
  | _, _ => false

theorem holding_job {pc : Pc thread} {job : Job thread} (call : pc.job? = some job)
    {channel : Channel} (about : job.channel = channel) :
    pc.holding channel = [job.message] := by
  simp [holding, call, about]

theorem holding_flushing (resume : Resume thread) (phase next : FlushPhase) (channel : Channel) :
    (Pc.flushing resume next).holding channel = (Pc.flushing resume phase).holding channel := by
  cases resume <;> rfl

theorem quiet_holding {pc : Pc thread} (quiet : pc.quiet = true) (channel : Channel) :
    pc.holding channel = [] := by
  rw [holding, job?_of_quiet quiet]

theorem quiet_pending {pc : Pc thread} (quiet : pc.quiet = true) (channel : Channel) :
    pc.pending channel = [] := by
  rw [pending, phase?_of_quiet quiet]

theorem quiet_pastCheck {pc : Pc thread} (quiet : pc.quiet = true) (channel : Channel) :
    pc.pastCheck channel = false := by
  cases pc <;> first | rfl | cases quiet

end Pc

/-- A message of one channel is in one of these places; the log tells its past. -/
@[ext]
structure ChannelView where
  /-- The part of the log about the channel. -/
  log : List Entry
  /-- The fault buffer. -/
  buffer : List Message
  /-- The bitrate queue; a receive channel has none. -/
  queue : List Message
  /-- The messages in the hands of the threads. -/
  holding : Thread -> List Message
  /-- The messages in the batches of the flushing threads. -/
  pending : Thread -> List Message
  /-- The threads that hold a message past its last check. -/
  pastCheck : Thread -> Bool

namespace Event

def arrived? : Event -> Option Message
  | .arrived _ message => some message
  | _ => none

def taken? : Event -> Option Message
  | .taken _ message => some message
  | _ => none

def delivered? : Event -> Option Message
  | .delivered _ message => some message
  | _ => none

end Event

namespace ChannelView

variable (view : ChannelView)

/-- The messages with which the dispatch function was called, in that order. -/
def arrived : List Message := view.log.filterMap fun entry => entry.event.arrived?

/-- The messages that left the node, in the order in which they did. -/
def delivered : List Message := view.log.filterMap fun entry => entry.event.delivered?

/-- The messages that the fault policy took in one window. -/
def takenIn (window : ℕ) : List Message :=
  (view.log.filter fun entry => decide (entry.window = window)).filterMap fun entry =>
    entry.event.taken?

section Projections

variable {entries : List Entry} {buffer queue : List Message}
  {holding pending : Thread -> List Message} {pastCheck : Thread -> Bool} {window : ℕ}

@[simp] theorem arrived_append :
    arrived ⟨view.log ++ entries, buffer, queue, holding, pending, pastCheck⟩ =
      view.arrived ++ entries.filterMap fun entry => entry.event.arrived? :=
  List.filterMap_append

@[simp] theorem delivered_append :
    delivered ⟨view.log ++ entries, buffer, queue, holding, pending, pastCheck⟩ =
      view.delivered ++ entries.filterMap fun entry => entry.event.delivered? :=
  List.filterMap_append

@[simp] theorem takenIn_append :
    takenIn ⟨view.log ++ entries, buffer, queue, holding, pending, pastCheck⟩ window =
      view.takenIn window ++ (entries.filter fun entry => decide (entry.window = window)).filterMap
        fun entry => entry.event.taken? := by
  simp only [takenIn, List.filter_append, List.filterMap_append]

theorem takenIn_append_untaken (untaken : ∀ entry ∈ entries, entry.event.taken? = none) :
    takenIn ⟨view.log ++ entries, buffer, queue, holding, pending, pastCheck⟩ window =
      view.takenIn window := by
  rw [takenIn_append, List.append_right_eq_self, List.filterMap_eq_nil_iff]
  exact fun entry member => untaken entry (List.mem_filter.mp member).1

@[simp] theorem arrived_log :
    arrived ⟨view.log, buffer, queue, holding, pending, pastCheck⟩ = view.arrived := rfl

@[simp] theorem delivered_log :
    delivered ⟨view.log, buffer, queue, holding, pending, pastCheck⟩ = view.delivered := rfl

end Projections

end ChannelView

namespace NodeState

variable {cfg : BridgeConfig} {s : NodeState} {channel : Channel}

/-- The stamp of an event that happens now. -/
def stamp (s : NodeState) (event : Event) : Entry := ⟨s.now, s.windows, s.nodeFaultUntil, event⟩

/-- The waiting messages of a channel in its bitrate queue. -/
def queue (channel : Channel) (s : NodeState) : List Message :=
  match channel with
  | .send topic => (s.sendQueues topic).messages
  | .recv _ => []

/-- The state of the node as seen by one channel. -/
def view (channel : Channel) (s : NodeState) : ChannelView where
  log := s.log.filter fun entry => decide (entry.event.channel? = some channel)
  buffer := s.faultBuffers channel
  queue := s.queue channel
  holding := fun thread => (s.pc thread).holding channel
  pending := fun thread => (s.pc thread).pending channel
  pastCheck := fun thread => (s.pc thread).pastCheck channel

/-! ## The view after a thread has moved -/

theorem view_move (s : NodeState) (thread : Thread) (pc : Pc thread) :
    (s.move thread pc).view channel =
      { s.view channel with
        holding := Function.update (s.view channel).holding thread (pc.holding channel)
        pending := Function.update (s.view channel).pending thread (pc.pending channel)
        pastCheck := Function.update (s.view channel).pastCheck thread (pc.pastCheck channel) } := by
  refine ChannelView.ext rfl rfl rfl ?_ ?_ ?_
  · funext other
    exact Function.apply_update (fun _ pc => pc.holding channel) s.pc thread pc other
  · funext other
    exact Function.apply_update (fun _ pc => pc.pending channel) s.pc thread pc other
  · funext other
    exact Function.apply_update (fun _ pc => pc.pastCheck channel) s.pc thread pc other

theorem update_holding_same {thread : Thread} {messages : List Message}
    (same : messages = (s.pc thread).holding channel) :
    Function.update (s.view channel).holding thread messages = (s.view channel).holding := by
  rw [same]
  exact Function.update_eq_self thread (s.view channel).holding

theorem update_pending_same {thread : Thread} {messages : List Message}
    (same : messages = (s.pc thread).pending channel) :
    Function.update (s.view channel).pending thread messages = (s.view channel).pending := by
  rw [same]
  exact Function.update_eq_self thread (s.view channel).pending

theorem update_pastCheck_same {thread : Thread} {past : Bool}
    (same : past = (s.pc thread).pastCheck channel) :
    Function.update (s.view channel).pastCheck thread past = (s.view channel).pastCheck := by
  rw [same]
  exact Function.update_eq_self thread (s.view channel).pastCheck

theorem view_move_holding {thread : Thread} {pc : Pc thread}
    (pending : pc.pending channel = (s.pc thread).pending channel)
    (pastCheck : pc.pastCheck channel = (s.pc thread).pastCheck channel) :
    (s.move thread pc).view channel =
      { s.view channel with
        holding := Function.update (s.view channel).holding thread (pc.holding channel) } := by
  rw [view_move, update_pending_same pending, update_pastCheck_same pastCheck]

theorem view_move_pending {thread : Thread} {pc : Pc thread}
    (holding : pc.holding channel = (s.pc thread).holding channel)
    (pastCheck : pc.pastCheck channel = (s.pc thread).pastCheck channel) :
    (s.move thread pc).view channel =
      { s.view channel with
        pending := Function.update (s.view channel).pending thread (pc.pending channel) } := by
  rw [view_move, update_holding_same holding, update_pastCheck_same pastCheck]

theorem view_move_pastCheck {thread : Thread} {pc : Pc thread}
    (holding : pc.holding channel = (s.pc thread).holding channel)
    (pending : pc.pending channel = (s.pc thread).pending channel) :
    (s.move thread pc).view channel =
      { s.view channel with
        pastCheck := Function.update (s.view channel).pastCheck thread (pc.pastCheck channel) } := by
  rw [view_move, update_holding_same holding, update_pending_same pending]

theorem view_move_same {thread : Thread} {pc : Pc thread}
    (holding : pc.holding channel = (s.pc thread).holding channel)
    (pending : pc.pending channel = (s.pc thread).pending channel)
    (pastCheck : pc.pastCheck channel = (s.pc thread).pastCheck channel) :
    (s.move thread pc).view channel = s.view channel := by
  rw [view_move_holding pending pastCheck, update_holding_same holding]

/-! ## What the log says after an event -/

theorem takenIn_of_untaken {t : NodeState} {entries : List Entry} (log : t.log = s.log ++ entries)
    (untaken : ∀ entry ∈ entries, entry.event.taken? = none) (channel : Channel) (window : ℕ) :
    (t.view channel).takenIn window = (s.view channel).takenIn window := by
  simp only [ChannelView.takenIn, view, log, List.filter_append, List.filterMap_append,
    List.append_right_eq_self, List.filterMap_eq_nil_iff, List.mem_filter]
  exact fun entry member => untaken entry member.1.1

theorem takenIn_record {event : Event} (untaken : event.taken? = none) (channel : Channel)
    (window : ℕ) :
    ((s.record event).view channel).takenIn window = (s.view channel).takenIn window :=
  takenIn_of_untaken rfl (by simpa using untaken) channel window

theorem takenIn_enqueue (topic : ℕ) (message : Message) (channel : Channel) (window : ℕ) :
    ((s.enqueue cfg topic message).view channel).takenIn window =
      (s.view channel).takenIn window := by
  refine takenIn_of_untaken rfl (fun entry member => ?_) channel window
  simp only [List.map_map, List.mem_map] at member
  rcases member with ⟨dropped, -, rfl⟩
  rfl

/-- A message that the policy takes now is the last one taken in this window. -/
theorem takenIn_of_taken {t : NodeState} {message : Message}
    (log : t.log = s.log ++ [s.stamp (.taken channel message)]) (other : Channel) (window : ℕ) :
    (t.view other).takenIn window = (s.view other).takenIn window ++
      if channel = other ∧ s.windows = window then [message] else [] := by
  simp only [ChannelView.takenIn, view, log, List.filter_append, List.filterMap_append]
  congr 1
  by_cases same : channel = other
  · by_cases now : s.windows = window
    · simp [same, now, Event.channel?, stamp, Event.taken?]
    · simp [same, now, Event.channel?, stamp]
  · simp [same, Event.channel?, stamp]

/-! ## The view after an event or an enqueueing -/

theorem view_record_same {event : Event} (about : event.channel? = some channel) :
    (s.record event).view channel =
      { s.view channel with log := (s.view channel).log ++ [s.stamp event] } := by
  refine ChannelView.ext ?_ rfl rfl rfl rfl rfl
  simp [view, stamp, about]

theorem view_record_other {event : Event} (about : event.channel? ≠ some channel) :
    (s.record event).view channel = s.view channel := by
  refine ChannelView.ext ?_ rfl rfl rfl rfl rfl
  simp [view, about]

/-- Enqueueing drops a prefix of the queue and appends the message. -/
theorem view_enqueue_same (cfg : BridgeConfig) (s : NodeState) (topic : ℕ) (message : Message) :
    ∃ evicted kept, (s.view (.send topic)).queue = evicted ++ kept ∧
      (s.enqueue cfg topic message).view (.send topic) =
        { s.view (.send topic) with
          queue := kept ++ [message]
          log := (s.view (.send topic)).log ++
            evicted.map fun dropped => s.stamp (.evicted topic dropped) } ∧
      evicted = (enqueueSendMessage cfg.undefinedSize (cfg.topic (.send topic)).maxBitrate message
        (s.sendQueues topic)).1 := by
  rcases enqueueSendMessage_kept cfg.undefinedSize (cfg.topic (.send topic)).maxBitrate message
    (s.sendQueues topic) with ⟨kept, split, messages⟩
  refine ⟨_, kept, split, ChannelView.ext ?_ rfl ?_ rfl rfl rfl, rfl⟩
  · simp only [view, enqueue, recordAll_log, List.filter_append, List.map_map]
    refine congrArg _ (List.filter_eq_self.mpr fun entry member => ?_)
    rcases List.mem_map.mp member with ⟨dropped, -, rfl⟩
    exact decide_eq_true rfl
  · simp only [view, queue, enqueue, recordAll_sendQueues, Function.update_self, messages]

theorem view_enqueue_other {topic : ℕ} (message : Message)
    (other : Channel.send topic ≠ channel) :
    (s.enqueue cfg topic message).view channel = s.view channel := by
  refine ChannelView.ext ?_ rfl ?_ rfl rfl rfl
  · simp only [view, enqueue, recordAll_log, List.filter_append, List.append_right_eq_self,
      List.filter_eq_nil_iff, List.map_map, List.mem_map]
    rintro entry ⟨dropped, -, rfl⟩
    simpa [Event.channel?] using other
  · cases channel with
    | recv topic => rfl
    | send topic' =>
        have different : topic' ≠ topic := fun same => other (same ▸ rfl)
        simp [view, queue, enqueue, Function.update_of_ne different]

/-- The batch of a swap holds exactly the fault buffer of each channel. -/
theorem pending_flushOrder (valid : cfg.hasChannel channel = true) :
    (FlushPhase.replay [] (s.flushOrder cfg)).pending channel = s.faultBuffers channel := by
  have collect : ∀ channels : List Channel, channels.Nodup ->
      (channels.flatMap fun channel => (s.faultBuffers channel).map (Prod.mk channel)).filterMap
        (fun entry => if entry.1 = channel then some entry.2 else none) =
        if channel ∈ channels then s.faultBuffers channel else [] := by
    intro channels distinct
    induction channels with
    | nil => rfl
    | cons head rest ih =>
        have distinct := List.nodup_cons.mp distinct
        simp only [List.flatMap_cons, List.filterMap_append, List.filterMap_map, ih distinct.2]
        by_cases same : head = channel
        · subst same
          simp [distinct.1]
        · simp [same, Ne.symm same]
  have member := (cfg.mem_channels channel).mpr valid
  exact (collect cfg.channels cfg.channels_nodup).trans (if_pos member)

end NodeState

end SwarmBridge
