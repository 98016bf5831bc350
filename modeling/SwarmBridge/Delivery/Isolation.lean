import SwarmBridge.Delivery.Separate
import SwarmBridge.Recovery.Exclusive

namespace SwarmBridge

open Foundation

/-!
# What leaves the node inside a fault window

A message leaves the node either after its last check, which is some steps before
the write, or in a replay, which knows no check.  A replay runs while no window is
open.  A check lets nothing pass inside a window, so what is written there has
passed before the window, and there is one such message at most for each channel,
in the hand of the one thread that writes the channel's messages.

On a rate-limited topic that message may come from a batch.  A replay only puts the
messages of its batch back into the bitrate queue, and from there they take the
way of every other message.
-/

namespace ChannelView

/-- The messages that left the node inside one window. -/
def deliveredIn (view : ChannelView) (window : ℕ) : List Message :=
  (view.log.filter fun entry => entry.inWindow && decide (entry.window = window)).filterMap
    fun entry => entry.event.delivered?

section Projections

variable (view : ChannelView) {entries : List Entry} {buffer queue : List Message}
  {holding pending : Thread -> List Message} {pastCheck : Thread -> Bool} {window : ℕ}

theorem deliveredIn_append :
    deliveredIn ⟨view.log ++ entries, buffer, queue, holding, pending, pastCheck⟩ window =
      view.deliveredIn window ++ (entries.filter fun entry =>
        entry.inWindow && decide (entry.window = window)).filterMap
          fun entry => entry.event.delivered? := by
  simp only [deliveredIn, List.filter_append, List.filterMap_append]

end Projections

/-- Node isolation in its strongest form, for one channel: inside a window at most one
message leaves the node, it passed its last check before the window, and it never
was in a replay batch. -/
structure Isolated (channel : Channel) (view : ChannelView) : Prop where
  single : ∀ window, (view.deliveredIn window).length ≤ 1
  passed : ∀ window, ∀ message ∈ view.deliveredIn window,
    ∃ entry ∈ view.log, entry.event = .passed channel message ∧ entry.window < window
  unbatched : ∀ message, view.Batched message -> ∀ window, message ∉ view.deliveredIn window

end ChannelView

/-- The thread that writes or publishes the messages that pass the checks of a channel. -/
def Channel.finisher (cfg : BridgeConfig) : Channel -> Thread
  | .send topic => if cfg.limited (.send topic) then .worker topic else .ros
  | .recv topic => .recv topic

namespace NodeState

variable {cfg : BridgeConfig} {channel : Channel} {s t : NodeState} {action : Action}

/-! ## How a step meets the windows -/

/-- The start of a fault empties the buffer of a channel and does nothing else to it. -/
theorem view_of_starts (step : ChannelStep cfg channel s action t)
    (starts : startsFault s action = true) :
    ∃ buffer, t.view channel = { s.view channel with buffer := buffer } := by
  have busy : ∀ {thread : Thread}, ((s.pc thread).job?.isSome = true ∨
      (s.pc thread).phase?.isSome = true) -> startsFault s (.run thread) = true -> False := by
    intro thread isBusy isStart
    rw [startsFault_eq_false_of_busy isBusy] at isStart
    cases isStart
  cases step with
  | same view => exact ⟨_, view⟩
  | opened _ view => exact ⟨_, view⟩
  | arrived => cases starts
  | took _ at_check => exact (busy (.inl (by rw [at_check]; rfl)) starts).elim
  | passed _ at_check => exact (busy (.inl (by rw [at_check]; rfl)) starts).elim
  | enqueued => cases starts
  | delivered _ at_cleared => exact (busy (.inl (by rw [at_cleared]; rfl)) starts).elim
  | dequeued => cases starts
  | swapped holds =>
      simp only [phases] at holds
      exact (busy (.inr (by rw [holds]; rfl)) starts).elim
  | replayedDirect holds =>
      simp only [phases] at holds
      exact (busy (.inr (by rw [holds]; rfl)) starts).elim
  | replayedQueued _ holds =>
      simp only [phases] at holds
      exact (busy (.inr (by rw [holds]; rfl)) starts).elim

/-- A step opens a window, or it leaves the windows alone and does not lead into one. -/
theorem window_step (step : FaultStep cfg s action t) :
    (t.windows = s.windows ∧ (t.inWindow = true -> s.inWindow = true)) ∨
      (t.windows = s.windows + 1 ∧ startsFault s action = true) := by
  cases starts : startsFault s action with
  | true => exact .inr ⟨(step.opened_of_starts starts).2.1, rfl⟩
  | false => exact .inl ⟨(step.window_kept starts).2, inWindow_of_step step starts⟩

/-! ## One thread finishes the messages of a channel -/

theorem finisher_of_pastCheck {allow : NodeState -> Action -> Prop}
    (run : (bridgeNode cfg).Reaches allow s) {thread : Thread}
    (past : (s.view channel).pastCheck thread = true) : thread = channel.finisher cfg := by
  cases at_pc : s.pc thread with
  | cleared job =>
      simp only [view, at_pc, Pc.pastCheck, Bool.and_eq_true, decide_eq_true_eq] at past
      rcases past with ⟨final, rfl⟩
      cases job with
      | dispatchSend topic message => cases final
      | beforeZmq topic message =>
          have unlimited := (Routed.of_reaches run).direct topic message (by rw [at_pc]; rfl)
          simp [Job.channel, Channel.finisher, unlimited]
      | @pump topic message =>
          have limited : cfg.limited (.send topic) = true := by
            by_contra unlimited
            rw [unstarted_of_reaches (Bool.not_eq_true _ ▸ unlimited) run] at at_pc
            cases at_pc
          simp [Job.channel, Channel.finisher, limited]
      | received message => rfl
  | _ => simp [view, at_pc, Pc.pastCheck] at past

/-! ## The invariant -/

@[simp] theorem stamp_inWindow (s : NodeState) (event : Event) :
    (s.stamp event).inWindow = s.inWindow := rfl

@[simp] theorem stamp_window (s : NodeState) (event : Event) :
    (s.stamp event).window = s.windows := rfl

@[simp] theorem stamp_event (s : NodeState) (event : Event) : (s.stamp event).event = event := rfl

/-- What the log says about windows, and what the thread past its check may add to it. -/
structure Insulated (channel : Channel) (s : NodeState) : Prop where
  bounded : ∀ entry ∈ (s.view channel).log, entry.window ≤ s.windows
  single : ∀ window, ((s.view channel).deliveredIn window).length ≤ 1
  open_ : s.inWindow = true -> ∀ thread, (s.view channel).pastCheck thread = true ->
    (s.view channel).deliveredIn s.windows = []
  cleared : ∀ thread, (s.view channel).pastCheck thread = true ->
    ∀ message ∈ (s.view channel).holding thread, ∃ entry ∈ (s.view channel).log,
      entry.event = .passed channel message ∧ (s.inWindow = true -> entry.window < s.windows)
  passed : ∀ window, ∀ message ∈ (s.view channel).deliveredIn window,
    ∃ entry ∈ (s.view channel).log, entry.event = .passed channel message ∧ entry.window < window
  replays : ∀ entry ∈ (s.view channel).log, entry.event.replayed?.isSome = true ->
    entry.inWindow = false

namespace Insulated

theorem initial (channel : Channel) (now : ℚ) :
    (NodeState.initial cfg now).Insulated channel where
  bounded := fun _ member => by cases member
  single := fun _ => Nat.zero_le 1
  open_ := fun inside => by cases inside
  cleared := by
    intro thread past
    have free : ((NodeState.initial cfg now).pc thread).job? = none := initial_job? now thread
    cases at_pc : (NodeState.initial cfg now).pc thread with
    | cleared job => rw [at_pc] at free; cases free
    | _ => simp [view, at_pc, Pc.pastCheck] at past
  passed := fun _ _ member => by cases member
  replays := fun _ member => by cases member

/-- A new window begins with nothing delivered in it. -/
theorem opened (insulated : s.Insulated channel) {buffer : List Message}
    (windows : t.windows = s.windows + 1)
    (view : t.view channel = { s.view channel with buffer := buffer }) :
    t.Insulated channel := by
  constructor
  · rw [view, windows]
    exact fun entry member => (insulated.bounded entry member).trans (Nat.le_succ _)
  · rw [view]
    exact insulated.single
  · intro _ _ _
    rw [view, windows]
    apply List.filterMap_eq_nil_iff.mpr
    intro entry member
    rcases List.mem_filter.mp member with ⟨logged, here⟩
    have late := insulated.bounded entry logged
    simp only [Bool.and_eq_true, decide_eq_true_eq] at here
    omega
  · rw [view, windows]
    intro thread past message holds
    rcases insulated.cleared thread past message holds with ⟨entry, logged, isPassed, -⟩
    exact ⟨entry, logged, isPassed, fun _ => Nat.lt_succ_of_le (insulated.bounded entry logged)⟩
  · rw [view]
    exact insulated.passed
  · rw [view]
    exact insulated.replays

/-- A step that delivers nothing inside the window and lets nothing pass. -/
theorem quiet (insulated : s.Insulated channel) (windows : t.windows = s.windows)
    (inside : t.inWindow = true -> s.inWindow = true) (entries : List Entry)
    (log : (t.view channel).log = (s.view channel).log ++ entries)
    (bounded : ∀ entry ∈ entries, entry.window ≤ s.windows)
    (outside : ∀ entry ∈ entries, entry.inWindow = true ->
      entry.event.delivered? = none ∧ entry.event.replayed? = none)
    (past : ∀ thread, (t.view channel).pastCheck thread = true ->
      (s.view channel).pastCheck thread = true ∧
        (t.view channel).holding thread = (s.view channel).holding thread) :
    t.Insulated channel := by
  have delivered : ∀ window, (t.view channel).deliveredIn window =
      (s.view channel).deliveredIn window := by
    intro window
    simp only [ChannelView.deliveredIn, log, List.filter_append, List.filterMap_append,
      List.append_right_eq_self]
    apply List.filterMap_eq_nil_iff.mpr
    intro entry member
    rcases List.mem_filter.mp member with ⟨added, here⟩
    exact (outside entry added (Bool.and_eq_true _ _ ▸ here).1).1
  have logged : ∀ entry ∈ (s.view channel).log, entry ∈ (t.view channel).log := fun entry member =>
    log ▸ List.mem_append_left _ member
  constructor
  · rw [log, windows]
    intro entry member
    exact (List.mem_append.mp member).elim (insulated.bounded entry) (bounded entry)
  · intro window
    rw [delivered]
    exact insulated.single window
  · intro isInside thread isPast
    rw [delivered, windows]
    exact insulated.open_ (inside isInside) thread (past thread isPast).1
  · intro thread isPast message holds
    rw [(past thread isPast).2] at holds
    rcases insulated.cleared thread (past thread isPast).1 message holds with
      ⟨entry, member, isPassed, before⟩
    exact ⟨entry, logged entry member, isPassed, fun isInside => windows ▸ before (inside isInside)⟩
  · intro window message member
    rw [delivered] at member
    rcases insulated.passed window message member with ⟨entry, member, both⟩
    exact ⟨entry, logged entry member, both⟩
  · intro entry member replay
    rw [log] at member
    rcases List.mem_append.mp member with member | member
    · exact insulated.replays entry member replay
    · by_contra isInside
      rw [(outside entry member (Bool.not_eq_false _ ▸ isInside)).2] at replay
      cases replay

/-- A message passes its last check outside of a window. -/
theorem pass (insulated : s.Insulated channel) (windows : t.windows = s.windows)
    (inside : t.inWindow = true -> s.inWindow = true) (shut : s.inWindow = false)
    {thread : Thread} {message : Message} (hand : (s.view channel).holding thread = [message])
    (view : t.view channel =
      { s.view channel with
        log := (s.view channel).log ++ [s.stamp (.passed channel message)]
        pastCheck := Function.update (s.view channel).pastCheck thread true }) :
    t.Insulated channel := by
  have closed : t.inWindow ≠ true := fun isInside => by
    rw [inside isInside] at shut
    cases shut
  have delivered : ∀ window, (t.view channel).deliveredIn window =
      (s.view channel).deliveredIn window := by
    intro window
    rw [view, ChannelView.deliveredIn_append]
    simp [shut]
  have logged : ∀ entry ∈ (s.view channel).log, entry ∈ (t.view channel).log := fun entry member =>
    by rw [view]; exact List.mem_append_left _ member
  constructor
  · rw [view, windows]
    intro entry member
    rcases List.mem_append.mp member with member | member
    · exact insulated.bounded entry member
    · rw [List.mem_singleton.mp member]
      exact le_rfl
  · intro window
    rw [delivered]
    exact insulated.single window
  · exact fun isInside => absurd isInside closed
  · intro other isPast held holds
    by_cases same : other = thread
    · subst same
      have isHeld : held = message := by
        rw [view, hand] at holds
        exact List.mem_singleton.mp holds
      refine ⟨s.stamp (.passed channel message), ?_, isHeld ▸ rfl, fun isInside =>
        absurd isInside closed⟩
      rw [view]
      exact List.mem_append_right _ (List.mem_singleton_self _)
    · rw [view] at isPast holds
      simp only [Function.update_of_ne same] at isPast
      rcases insulated.cleared other isPast held holds with ⟨entry, member, isPassed, -⟩
      exact ⟨entry, logged entry member, isPassed, fun isInside => absurd isInside closed⟩
  · intro window held member
    rw [delivered] at member
    rcases insulated.passed window held member with ⟨entry, member, both⟩
    exact ⟨entry, logged entry member, both⟩
  · intro entry member replay
    rw [view] at member
    rcases List.mem_append.mp member with member | member
    · exact insulated.replays entry member replay
    · rw [List.mem_singleton.mp member] at replay
      cases replay

/-- The thread past the check delivers its message. -/
theorem deliver (insulated : s.Insulated channel) (windows : t.windows = s.windows)
    {thread : Thread} {message : Message}
    (past : (s.view channel).pastCheck thread = true)
    (sole : ∀ other, (s.view channel).pastCheck other = true -> other = thread)
    (hand : (s.view channel).holding thread = [message])
    (view : t.view channel =
      { s.view channel with
        log := (s.view channel).log ++ [s.stamp (.delivered channel message)]
        holding := Function.update (s.view channel).holding thread []
        pastCheck := Function.update (s.view channel).pastCheck thread false }) :
    t.Insulated channel := by
  have logged : ∀ entry ∈ (s.view channel).log, entry ∈ (t.view channel).log := fun entry member =>
    by rw [view]; exact List.mem_append_left _ member
  have nobody : ∀ other, (t.view channel).pastCheck other ≠ true := by
    intro other isPast
    rw [view] at isPast
    by_cases same : other = thread
    · subst same
      simp at isPast
    · simp only [Function.update_of_ne same] at isPast
      exact same (sole other isPast)
  -- the delivered message counts only inside the window, and there nothing came before
  have delivered : ∀ window, (t.view channel).deliveredIn window =
      (s.view channel).deliveredIn window ∨ s.inWindow = true ∧ window = s.windows ∧
        (t.view channel).deliveredIn window = [message] := by
    intro window
    by_cases counts : s.inWindow = true ∧ window = s.windows
    · rcases counts with ⟨isInside, rfl⟩
      refine .inr ⟨isInside, rfl, ?_⟩
      rw [view, ChannelView.deliveredIn_append, insulated.open_ isInside thread past]
      simp [isInside, Event.delivered?]
    · refine .inl ?_
      have uncounted : [s.stamp (.delivered channel message)].filter (fun entry =>
          entry.inWindow && decide (entry.window = window)) = [] := by
        apply List.filter_eq_nil_iff.mpr
        intro entry member counted
        rw [List.mem_singleton.mp member] at counted
        simp only [stamp_inWindow, stamp_window, Bool.and_eq_true] at counted
        exact counts ⟨counted.1, (of_decide_eq_true counted.2).symm⟩
      rw [view, ChannelView.deliveredIn_append, uncounted]
      exact List.append_nil _
  constructor
  · rw [view, windows]
    intro entry member
    rcases List.mem_append.mp member with member | member
    · exact insulated.bounded entry member
    · rw [List.mem_singleton.mp member]
      exact le_rfl
  · intro window
    rcases delivered window with same | ⟨-, -, one⟩
    · rw [same]
      exact insulated.single window
    · rw [one]
      exact le_rfl
  · exact fun _ other isPast => absurd isPast (nobody other)
  · exact fun other isPast => absurd isPast (nobody other)
  · intro window held member
    rcases delivered window with same | ⟨isInside, rfl, one⟩
    · rw [same] at member
      rcases insulated.passed window held member with ⟨entry, member, both⟩
      exact ⟨entry, logged entry member, both⟩
    · rw [one] at member
      rw [List.mem_singleton.mp member]
      rcases insulated.cleared thread past message (by rw [hand]; exact List.mem_singleton_self _)
        with ⟨entry, member, isPassed, before⟩
      exact ⟨entry, logged entry member, isPassed, before isInside⟩
  · intro entry member replay
    rw [view] at member
    rcases List.mem_append.mp member with member | member
    · exact insulated.replays entry member replay
    · rw [List.mem_singleton.mp member] at replay
      cases replay

/-- A thread that is not past the check may change what it holds. -/
theorem past_update {thread : Thread} {messages : List Message}
    (free : (s.view channel).pastCheck thread = false) (other : Thread)
    (isPast : (s.view channel).pastCheck other = true) :
    (s.view channel).pastCheck other = true ∧
      Function.update (s.view channel).holding thread messages other =
        (s.view channel).holding other := by
  have different : other ≠ thread := by
    rintro rfl
    rw [free] at isPast
    cases isPast
  exact ⟨isPast, Function.update_of_ne different _ _⟩

theorem step (insulated : s.Insulated channel) (valid : cfg.hasChannel channel = true)
    (exclusive : s.Exclusive) (opens : s.OpenInWindow)
    (sole : ∀ thread, (s.view channel).pastCheck thread = true -> thread = channel.finisher cfg)
    (notStop : action ≠ .stop) (step : NodeStep cfg s action t) : t.Insulated channel := by
  rcases window_step (step.fault notStop) with ⟨windows, inside⟩ | ⟨windows, starts⟩
  · -- inside a window no check passes and no flush runs
    have shut_of_outside : (s.nodeFaultActive = true -> s.nodeFaultUntil ≤ s.now) ->
        s.inWindow = false := by
      intro outside
      by_contra isInside
      have isInside : s.inWindow = true := Bool.not_eq_false _ ▸ isInside
      have late := outside (opens isInside)
      exact absurd (inWindow_eq_true_iff.mp isInside).2 (not_lt.mpr late)
    have shut_of_phase : ∀ {thread : Thread} {phase : FlushPhase},
        s.phases thread = some phase -> s.inWindow = false := by
      intro thread phase holds
      by_contra isInside
      have active := opens (Bool.not_eq_false _ ▸ isInside)
      rw [exclusive.closed_of_phase holds] at active
      cases active
    cases step.onChannel valid with
    | same view =>
        apply insulated.quiet windows inside []
        · rw [view, List.append_nil]
        · simp
        · simp
        · rw [view]
          exact fun _ isPast => ⟨isPast, rfl⟩
    | arrived at_idle arrivals view =>
        apply insulated.quiet windows inside [s.stamp (.arrived channel _)]
        · rw [view]
        · simp
        · simp [Event.delivered?, Event.replayed?]
        · rw [view]
          exact past_update (by simp [NodeState.view, at_idle, Pc.pastCheck])
    | took about at_check settled active isOpen view =>
        apply insulated.quiet windows inside [s.stamp (.taken channel _)]
        · rw [view]
        · simp
        · simp [Event.delivered?, Event.replayed?]
        · rw [view]
          exact past_update (by simp [NodeState.view, at_check, Pc.pastCheck])
    | passed about at_check settled outside final view =>
        apply insulated.pass windows inside (shut_of_outside outside) _ view
        exact holding_of_job (by rw [at_check]; rfl) about
    | enqueued about at_cleared queue view =>
        apply insulated.quiet windows inside (List.map _ _)
        · rw [view]
        · simp
        · simp [Event.delivered?, Event.replayed?]
        · rw [view]
          exact past_update (by simp [NodeState.view, at_cleared, Pc.pastCheck, Job.final])
    | @delivered thread job _ about at_cleared final view =>
        have past : (s.view channel).pastCheck thread = true := by
          simp [NodeState.view, at_cleared, Pc.pastCheck, final, about]
        apply insulated.deliver windows past _ _ view
        · exact fun other isPast => (sole other isPast).trans (sole _ past).symm
        · exact holding_of_job (by rw [at_cleared]; rfl) about
    | dequeued about at_loop queue view =>
        apply insulated.quiet windows inside [s.stamp (.dequeued _ _)]
        · rw [view]
        · simp
        · simp [Event.delivered?, Event.replayed?]
        · rw [view]
          exact past_update (by simp [NodeState.view, at_loop, Pc.pastCheck])
    | swapped holds view =>
        apply insulated.quiet windows inside []
        · rw [view, List.append_nil]
        · simp
        · simp
        · rw [view]
          exact fun _ isPast => ⟨isPast, rfl⟩
    | replayedDirect holds unlimited view =>
        apply insulated.quiet windows inside
          [s.stamp (.replayed channel _), s.stamp (.delivered channel _)]
        · rw [view]
        · simp
        · simp [shut_of_phase holds]
        · rw [view]
          exact fun _ isPast => ⟨isPast, rfl⟩
    | replayedQueued about holds limited queue view =>
        apply insulated.quiet windows inside (s.stamp (.replayed channel _) :: List.map _ _)
        · rw [view]
        · simp
        · simp [shut_of_phase holds]
        · rw [view]
          exact fun _ isPast => ⟨isPast, rfl⟩
    | opened starts view =>
        apply insulated.quiet windows inside []
        · rw [view, List.append_nil]
        · simp
        · simp
        · rw [view]
          exact fun _ isPast => ⟨isPast, rfl⟩
  · rcases view_of_starts (step.onChannel valid) starts with ⟨buffer, view⟩
    exact insulated.opened windows view

theorem of_reaches (valid : cfg.hasChannel channel = true)
    (run : (bridgeNode cfg).Reaches StartsWhenIdle s)
    (running : s.nodeFaultThreadRunning = true) : s.Insulated channel :=
  invariant_of_running run running (initial channel)
    fun _ _ _ reached before insulated _ notStop step =>
      insulated.step valid
        (Exclusive.of_reaches reached before fun _ _ idle => idle.outsideRecovery)
        (openInWindow_of_reaches reached before) (fun _ past => finisher_of_pastCheck reached past)
        notStop step

end Insulated

end NodeState

/-- Node isolation.  Inside a window at most one message of a channel leaves the node,
it passed its last check before the window, and no flush replays a message.  On a
channel without a bitrate that message never was in a replay batch. -/
theorem node_isolation (cfg : BridgeConfig) (only : cfg.ControlOnly) (channel : Channel)
    (valid : cfg.hasChannel channel = true) (s : NodeState)
    (run : (bridgeNode cfg).Reachable s) (running : s.nodeFaultThreadRunning = true) :
    (∀ window, ((s.view channel).deliveredIn window).length ≤ 1) ∧
      (∀ window, ∀ message ∈ (s.view channel).deliveredIn window,
        ∃ entry ∈ (s.view channel).log,
          entry.event = .passed channel message ∧ entry.window < window) ∧
      (∀ entry ∈ (s.view channel).log, entry.event.replayed?.isSome = true ->
        entry.inWindow = false) ∧
      (cfg.limited channel = false -> ∀ message, (s.view channel).Batched message ->
        ∀ window, message ∉ (s.view channel).deliveredIn window) := by
  have insulated : s.Insulated channel :=
    NodeState.Insulated.of_reaches valid (reaches_startsWhenIdle only run) running
  refine ⟨insulated.single, insulated.passed, insulated.replays, ?_⟩
  intro unlimited message batched window member
  have separate := NodeState.separate_of_reaches valid unlimited run
  rcases insulated.passed window message member with ⟨entry, logged, isPassed, -⟩
  have passed : message ∈ (s.view channel).passed :=
    (s.view channel).mem_passed.mpr ⟨entry, logged, by rw [isPassed]; rfl⟩
  exact separate.passed message passed (separate.stored message (.inr batched))

/-! ## A message of a batch is written inside the next window -/

/-- One send topic with a bitrate of 8000 bit/s and policy buffer. -/
def requeueConfig : BridgeConfig where
  sendTopics := [⟨8000, .buffer⟩]
  recvTopics := []
  nodeFault := none
  durationCast := id
  undefinedSize := fun _ => 0

/-- A message is cached in the first window and replayed into the bitrate queue.  The
worker has it checked after the recovery, and the second window opens between that
check and the write. -/
def requeueSchedule : List Action :=
  [.run (.worker 0), .request 1, .run .control, .run .control,
    .arrive (.send 0) ⟨1, [0]⟩, .run .ros, .run .ros,
    .advance 1, .run .monitor, .run .monitor, .run .monitor, .run .monitor, .run .monitor,
    .run (.worker 0), .run (.worker 0), .run (.worker 0),
    .request 1, .run .control, .run .control, .run (.worker 0)]

/-- On a rate-limited topic a message of a replay batch can be the one that is written
inside a later window. -/
theorem batch_written_in_window :
    ¬ ∀ (cfg : BridgeConfig), cfg.ControlOnly -> ∀ channel : Channel,
      cfg.hasChannel channel = true -> ∀ s : NodeState, (bridgeNode cfg).Reachable s ->
        s.nodeFaultThreadRunning = true -> (s.view channel).Isolated channel := by
  intro claim
  have executed : ((bridgeNode requeueConfig).exec (fun _ _ => True)
      (NodeState.initial requeueConfig 0) requeueSchedule).map
      (fun s => (s.nodeFaultThreadRunning, (s.view (.send 0)).replayed,
        (s.view (.send 0)).deliveredIn 2)) =
      some (true, [⟨0, ⟨1, [0]⟩⟩], [⟨0, ⟨1, [0]⟩⟩]) := by
    decide +kernel
  rcases NodeState.exists_of_schedule executed with ⟨s, reached, observed⟩
  simp only [Prod.mk.injEq] at observed
  have isolated := claim requeueConfig rfl (.send 0) rfl s reached observed.1
  apply isolated.unbatched ⟨0, ⟨1, [0]⟩⟩ (.inl ?_) 2
  · rw [observed.2.2]
    exact List.mem_singleton_self _
  · rw [observed.2.1]
    exact List.mem_singleton_self _

/-- The amended law in the same run, where a message is written inside the second
window. -/
theorem node_isolation_requeue :
    ∃ s : NodeState, (s.view (.send 0)).deliveredIn 2 = [⟨0, ⟨1, [0]⟩⟩] ∧
      ∃ entry ∈ (s.view (.send 0)).log,
        entry.event = .passed (.send 0) ⟨0, ⟨1, [0]⟩⟩ ∧ entry.window < 2 := by
  have executed : ((bridgeNode requeueConfig).exec (fun _ _ => True)
      (NodeState.initial requeueConfig 0) requeueSchedule).map
      (fun s => (s.nodeFaultThreadRunning, (s.view (.send 0)).deliveredIn 2)) =
      some (true, [⟨0, ⟨1, [0]⟩⟩]) := by
    decide +kernel
  rcases NodeState.exists_of_schedule executed with ⟨s, reached, observed⟩
  simp only [Prod.mk.injEq] at observed
  have law := node_isolation requeueConfig rfl (.send 0) rfl s reached observed.1
  refine ⟨s, observed.2, law.2.1 2 _ ?_⟩
  rw [observed.2]
  exact List.mem_singleton_self _

end SwarmBridge
