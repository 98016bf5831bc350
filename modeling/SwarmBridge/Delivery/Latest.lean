import SwarmBridge.Recovery.Cached
import SwarmBridge.SimComm.Arrivals

namespace SwarmBridge

open Foundation

/-!
# What policy latest keeps

The policy overwrites the buffer in the order in which threads reach the check.
The thread that dispatches the messages of a channel reaches it in order of
arrival.  On a rate-limited topic the worker reaches it too, with a message from
the bitrate queue, and that message may be older than the one in the buffer.
-/

/-- The message of a channel that its worker is about to have checked; a receive
channel has no worker. -/
def NodeState.diverts (s : NodeState) (action : Action) : Channel -> List Message
  | .send topic => s.workerChecks topic action
  | .recv _ => []

/-- The fault policy takes a message from the worker only when no later message
waits in the fault buffer. -/
def TakesNewest (channel : Channel) (s : NodeState) (action : Action) : Prop :=
  s.isNodeFaultActiveLocked = true -> ∀ message ∈ s.diverts action channel,
    ∀ cached ∈ s.faultBuffers channel, cached.Earlier message

instance (channel : Channel) (s : NodeState) (action : Action) :
    Decidable (TakesNewest channel s action) :=
  inferInstanceAs (Decidable (_ -> _))

namespace NodeState

variable {cfg : BridgeConfig} {channel : Channel} {s t : NodeState} {action : Action}

/-! ## One step discards earlier messages -/

theorem check_of_diverts {message : Message} (member : message ∈ s.diverts action channel) :
    ∃ topic, channel = .send topic ∧ action = .run (.worker topic) ∧
      s.pc (.worker topic) = .check (.pump message) := by
  cases channel with
  | recv topic => cases member
  | send topic =>
      cases action with
      | run thread =>
          simp only [diverts, workerChecks, Pc.checkedByWorker] at member
          split at member
          case h_1 other held at_check =>
            split at member
            case isTrue same =>
              subst same
              rw [List.mem_singleton.mp member]
              exact ⟨_, rfl, rfl, at_check⟩
            case isFalse => cases member
          case h_2 => cases member
      | _ => cases member

/-- A message taken from the dispatching thread is later than all cached ones, and
one taken from the worker is when the condition says so. -/
theorem earlier_of_taken (known : Arrivals channel.reader s.arrivals (s.view channel))
    {thread : Thread} {job : Job thread} (about : job.channel = channel)
    (at_check : s.pc thread = .check job)
    (newest : ∀ cached ∈ s.faultBuffers channel, ∀ message ∈ s.diverts (.run thread) channel,
      cached.Earlier message) :
    ∀ cached ∈ s.faultBuffers channel, cached.Earlier job.message := by
  intro cached member
  have call : (s.pc thread).job? = some job := by rw [at_check]; rfl
  rcases Job.thread_of_channel about with own | ⟨topic, isSend, own⟩
  · subst own
    apply known.newest job.message _ cached (.cached member)
    rw [holding_of_job call about]
    exact List.mem_singleton_self _
  · subst own
    subst isSend
    cases job with
    | pump message => exact newest cached member message (workerChecks_of_check at_check)

/-- The step in which the policy takes a message is the check of the call that owns it. -/
theorem check_of_taken {kept : Message} (step : ChannelStep cfg channel s action t)
    (taken : t.log = s.log ++ [s.stamp (.taken channel kept)]) :
    ∃ (thread : Thread) (job : Job thread), action = .run thread ∧
      s.pc thread = .check job ∧ job.channel = channel ∧ job.message = kept ∧
      s.isNodeFaultActiveLocked = true := by
  have logs : (t.view channel).log = (s.view channel).log ++ [s.stamp (.taken channel kept)] := by
    simp [view, taken, stamp, Event.channel?]
  cases step with
  | @took thread job _ about at_check settled active inside view =>
      have same : job.message = kept := by simpa [view, stamp] using logs
      exact ⟨thread, job, rfl, at_check, about, same,
        isNodeFaultActiveLocked_eq_true_iff.mpr ⟨active, inside⟩⟩
  | same view => simp [view] at logs
  | arrived _ _ view => simp [view, stamp] at logs
  | passed _ _ _ _ _ view => simp [view, stamp] at logs
  | enqueued _ _ _ view => simp [view, stamp, List.map_eq_cons_iff] at logs
  | delivered _ _ _ view => simp [view, stamp] at logs
  | dequeued _ _ _ view => simp [view, stamp] at logs
  | swapped _ view => simp [view] at logs
  | replayedDirect _ _ view => simp [view, stamp] at logs
  | replayedQueued _ _ _ _ view => simp [view, stamp] at logs
  | opened _ view => simp [view] at logs

/-- The next step discards earlier messages only, exactly when it meets the condition. -/
theorem supersedes_iff (valid : cfg.hasChannel channel = true)
    (known : Arrivals channel.reader s.arrivals (s.view channel))
    (stepped : nodeStep cfg s action = some t) :
    (∀ discarded kept, Supersedes channel s t discarded kept -> discarded.Earlier kept) ↔
      TakesNewest channel s action := by
  constructor
  · intro law active message member cached inBuffer
    rcases check_of_diverts member with ⟨topic, rfl, rfl, at_check⟩
    have settled : ¬ s.nodeFaultRecovering = true := by
      intro recovering
      simp [nodeStep, section?, at_check, checkFault, recovering] at stepped
    have after : s.take cfg (Job.pump message : Job (.worker topic)) = t := by
      simpa [nodeStep, section?, at_check, checkFault, settled, active] using stepped
    exact law cached message ⟨inBuffer, after ▸ rfl⟩
  · rintro newest discarded kept ⟨cached, taken⟩
    rcases check_of_taken ((nodeStep_cases stepped).onChannel valid) taken with
      ⟨thread, job, rfl, at_check, about, rfl, active⟩
    apply earlier_of_taken known about at_check _ discarded cached
    exact fun held inBuffer message member => newest active message member held inBuffer

/-! ## The messages taken in a window -/

/-- In every window the policy takes the messages in order of arrival. -/
def TakenInOrder (channel : Channel) (s : NodeState) : Prop :=
  ∀ window, ((s.view channel).takenIn window).Pairwise Message.Earlier

/-- Everything taken in the window so far is earlier than the next message, when the
latest of them, which is the cached one, is. -/
theorem earlier_of_latest {taken : List Message} {next : Message}
    (ordered : taken.Pairwise Message.Earlier)
    (latest : ∀ cached ∈ taken.getLast?.toList, cached.Earlier next) :
    ∀ message ∈ taken, message.Earlier next := by
  intro message member
  rcases ordered_last ordered member with ⟨last, isLast, same | before⟩
  · exact same ▸ latest last isLast
  · exact before.trans (latest last isLast)

/-- The cached message of a window is the last one taken. -/
theorem cached_latest (latest : cfg.policy channel = .latest) (cached : s.Cached cfg)
    (held : s.HoldsWindow) :
    s.faultBuffers channel = ((s.view channel).takenIn s.windows).getLast?.toList := by
  rw [cached.kept held channel, latest]
  rfl

theorem takenInOrder_step (valid : cfg.hasChannel channel = true)
    (latest : cfg.policy channel = .latest) (cached : s.Cached cfg)
    (known : Arrivals channel.reader s.arrivals (s.view channel))
    (ordered : s.TakenInOrder channel) (newest : TakesNewest channel s action)
    (notStop : action ≠ .stop) (step : NodeStep cfg s action t) : t.TakenInOrder channel := by
  intro window
  cases step.fault notStop with
  | @took _ target message _ open_ _ _ _ _ _ _ _ _ log =>
      rw [takenIn_of_taken log]
      split
      case isTrue here =>
        rcases here with ⟨rfl, rfl⟩
        rcases check_of_taken (step.onChannel valid) log with
          ⟨thread, job, rfl, at_check, about, rfl, active⟩
        apply ordered_concat (ordered s.windows)
        apply earlier_of_latest (ordered s.windows)
        rw [← cached_latest latest cached (.inl open_)]
        apply earlier_of_taken known about at_check
        exact fun held inBuffer message member => newest active message member held inBuffer
      case isFalse =>
        rw [List.append_nil]
        exact ordered window
  | still _ _ _ _ _ _ _ _ taken => rw [taken channel window]; exact ordered window
  | opened _ _ _ _ _ _ _ taken => rw [taken channel window]; exact ordered window
  | began _ _ _ _ _ _ _ _ _ _ _ _ _ taken => rw [taken channel window]; exact ordered window
  | swapped _ _ _ _ _ _ _ _ _ _ taken => rw [taken channel window]; exact ordered window
  | replayed _ _ _ _ _ _ _ _ _ _ taken => rw [taken channel window]; exact ordered window
  | ended _ _ _ _ _ _ _ _ _ _ taken => rw [taken channel window]; exact ordered window

theorem takenInOrder_of_reaches (valid : cfg.hasChannel channel = true)
    (latest : cfg.policy channel = .latest)
    (run : (bridgeNode cfg).Reaches
      (fun s a => StartsAfterSwap s a ∧ TakesNewest channel s a) s)
    (running : s.nodeFaultThreadRunning = true) : s.TakenInOrder channel :=
  invariant_of_running run running (fun _ _ => List.Pairwise.nil)
    fun _ _ _ reached before ordered allowed notStop step =>
      takenInOrder_step valid latest (Cached.of_reaches reached before fun _ _ both => both.1)
        (arrivals_of_reaches valid reached) ordered allowed.2 notStop step

end NodeState

/-- Faults that are started on an idle node are started after the swap. -/
theorem reaches_afterSwap {cfg : BridgeConfig} {other : NodeState -> Action -> Prop}
    {s : NodeState} (run : (bridgeNode cfg).Reaches (fun s a => StartsWhenIdle s a ∧ other s a) s)
    (running : s.nodeFaultThreadRunning = true) :
    (bridgeNode cfg).Reaches (fun s a => StartsAfterSwap s a ∧ other s a) s := by
  apply NodeState.strengthen_of_running run running
  intro s action reached before allowed
  exact ⟨(clean_of_reaches reached before (fun _ _ both => both.1) allowed).afterSwap, allowed.2⟩

/-- Policy latest keeps the latest arrival in every run whose windows do not overlap
and in which the policy takes from the worker only when no later message is
cached, and the first step that violates this discards a later message. -/
theorem latest_keeps_newest (cfg : BridgeConfig) (channel : Channel)
    (valid : cfg.hasChannel channel = true) (latest : cfg.policy channel = .latest)
    (s : NodeState)
    (run : (bridgeNode cfg).Reaches
      (fun s a => StartsAfterSwap s a ∧ TakesNewest channel s a) s)
    (running : s.nodeFaultThreadRunning = true) :
    (∀ action t, nodeStep cfg s action = some t ->
      ((∀ discarded kept, Supersedes channel s t discarded kept -> discarded.Earlier kept) ↔
        TakesNewest channel s action)) ∧
    ∀ thread, s.phases thread = some .swap ->
      s.faultBuffers channel = ((s.view channel).takenIn s.windows).getLast?.toList ∧
        ∀ kept ∈ s.faultBuffers channel, ∀ taken ∈ (s.view channel).takenIn s.windows,
          taken = kept ∨ taken.Earlier kept := by
  have cached : s.Cached cfg := NodeState.Cached.of_reaches run running fun _ _ both => both.1
  have ordered := NodeState.takenInOrder_of_reaches valid latest run running s.windows
  constructor
  · exact fun action t stepped =>
      NodeState.supersedes_iff valid (NodeState.arrivals_of_reaches valid run) stepped
  · intro thread swaps
    have buffer : s.faultBuffers channel = _ :=
      NodeState.cached_latest latest cached (.inr ⟨thread, swaps⟩)
    refine ⟨buffer, fun kept member taken taken_member => ?_⟩
    rcases ordered_last ordered taken_member with ⟨last, isLast, order⟩
    have same : kept = last := by
      rw [buffer, Option.mem_toList] at member
      rw [Option.mem_toList] at isLast
      exact Option.some.inj (member.symm.trans isLast)
    exact same ▸ order

/-- On a channel without a bitrate the condition holds of every step: its topic has
no worker that could divert a message. -/
theorem takesNewest_of_unlimited {cfg : BridgeConfig} {channel : Channel} {s : NodeState}
    {allow : NodeState -> Action -> Prop} (unlimited : cfg.limited channel = false)
    (run : (bridgeNode cfg).Reaches allow s) (action : Action) : TakesNewest channel s action := by
  intro _ message member
  rcases NodeState.check_of_diverts member with ⟨topic, rfl, rfl, at_check⟩
  rw [NodeState.unstarted_of_reaches unlimited run] at at_check
  cases at_check

/-! ## The worker replaces a new message by an old one -/

/-- One send topic with a bitrate of 8000 bit/s and policy latest. -/
def staleConfig : BridgeConfig where
  sendTopics := [⟨8000, .latest⟩]
  recvTopics := []
  nodeFault := none
  durationCast := id
  undefinedSize := fun _ => 0

/-- A message waits in the queue when a window opens.  The next one is cached by the
ROS thread, and the worker dequeues the first one and is about to have it checked. -/
def staleSchedule : List Action :=
  [.run (.worker 0), .arrive (.send 0) ⟨1, [0]⟩, .run .ros, .run .ros, .run .ros,
    .request 1, .run .control, .run .control,
    .arrive (.send 0) ⟨1, [1]⟩, .run .ros, .run .ros,
    .run (.worker 0), .run (.worker 0)]

/-- Without the condition the policy discards a message in favour of one that arrived
earlier, inside a single window. -/
theorem latest_keeps_stale :
    ¬ ∀ (cfg : BridgeConfig) (channel : Channel), cfg.hasChannel channel = true ->
      cfg.policy channel = .latest -> ∀ s : NodeState,
      (bridgeNode cfg).Reaches StartsWhenIdle s -> s.nodeFaultThreadRunning = true ->
        ∀ action t, nodeStep cfg s action = some t -> ∀ discarded kept,
          Supersedes channel s t discarded kept -> discarded.Earlier kept := by
  intro claim
  have executed : ((bridgeNode staleConfig).exec StartsWhenIdle
      (NodeState.initial staleConfig 0) staleSchedule).map
      (fun s => (s.nodeFaultThreadRunning,
        (nodeStep staleConfig s (.run (.worker 0))).isSome,
        decide (TakesNewest (.send 0) s (.run (.worker 0))))) = some (true, true, false) := by
    decide +kernel
  rcases NodeState.exists_of_schedule executed with ⟨s, reached, observed⟩
  simp only [Prod.mk.injEq] at observed
  rcases Option.isSome_iff_exists.mp observed.2.1 with ⟨t, stepped⟩
  have law := claim staleConfig (.send 0) rfl rfl s reached observed.1 _ t stepped
  exact of_decide_eq_false observed.2.2
    ((NodeState.supersedes_iff rfl (NodeState.arrivals_of_reaches rfl reached) stepped).mp law)

/-- The same topic, with a worker that has nothing left to divert. -/
def freshSchedule : List Action :=
  [.run (.worker 0), .request 1, .run .control, .run .control,
    .arrive (.send 0) ⟨1, [0]⟩, .run .ros, .run .ros,
    .arrive (.send 0) ⟨1, [1]⟩, .run .ros, .run .ros,
    .advance 1, .run .monitor, .run .monitor]

/-- At the recovery the second of two messages is replayed. -/
theorem latest_keeps_newest_fresh :
    ∃ s : NodeState, (s.faultBuffers (.send 0)).map Message.arrival = [1] ∧
      s.phases .monitor = some .swap ∧
      s.faultBuffers (.send 0) = ((s.view (.send 0)).takenIn s.windows).getLast?.toList := by
  have executed : ((bridgeNode staleConfig).exec
      (fun s a => StartsWhenIdle s a ∧ TakesNewest (.send 0) s a)
      (NodeState.initial staleConfig 0) freshSchedule).map
      (fun s => (s.nodeFaultThreadRunning, (s.faultBuffers (.send 0)).map Message.arrival,
        s.phases .monitor)) = some (true, [1], some .swap) := by
    decide +kernel
  rcases NodeState.exists_of_schedule executed with ⟨s, reached, observed⟩
  simp only [Prod.mk.injEq] at observed
  have law := latest_keeps_newest staleConfig (.send 0) rfl rfl s
    (reaches_afterSwap reached observed.1) observed.1
  exact ⟨s, observed.2.1, observed.2.2, (law.2 .monitor observed.2.2).1⟩

end SwarmBridge
