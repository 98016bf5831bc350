import SwarmBridge.SimComm.StepCases
import SwarmBridge.SimComm.ChannelView
import SwarmBridge.Foundation.SoleHolder

namespace SwarmBridge

open Foundation

/-!
# Steps as the fault control sees them

The flags, the deadline, the fault buffers and the flush sections of the threads
form the fault control of the node.  `FaultStep` classifies a step by what it
does to them.  The laws about recoveries need only this classification and never
look at which call a thread is in.
-/

namespace NodeState

/-- The phase of the flush section of every thread, if it is in one. -/
def phases (s : NodeState) : Thread -> Option FlushPhase := fun thread => (s.pc thread).phase?

theorem phases_move (s : NodeState) (thread : Thread) (pc : Pc thread) :
    (s.move thread pc).phases = Function.update s.phases thread pc.phase? := by
  funext other
  exact Function.apply_update (fun _ pc => pc.phase?) s.pc thread pc other

theorem phases_move_same {s : NodeState} {thread : Thread} {pc : Pc thread}
    (same : pc.phase? = (s.pc thread).phase?) : (s.move thread pc).phases = s.phases := by
  rw [phases_move, same]
  exact Function.update_eq_self thread s.phases

/-- The next step of a thread before its swap is the swap. -/
theorem exists_of_swap (cfg : BridgeConfig) {s : NodeState} {thread : Thread}
    (holds : s.phases thread = some .swap) :
    ∃ resume, s.pc thread = .flushing resume .swap ∧
      nodeStep cfg s (.run thread) = some (s.swapBuffers cfg thread resume) := by
  simp only [phases] at holds
  cases at_pc : s.pc thread with
  | flushing resume phase =>
      rw [at_pc] at holds
      cases holds
      exact ⟨resume, rfl, by rw [nodeStep, at_pc]; rfl⟩
  | _ =>
      rw [at_pc] at holds
      cases holds

/-- The same messages have been taken by the fault policies in every window. -/
def TakesAs (t s : NodeState) : Prop :=
  ∀ channel window, (t.view channel).takenIn window = (s.view channel).takenIn window

end NodeState

/-- What a step other than the stop does to the fault control. -/
inductive FaultStep (cfg : BridgeConfig) (s : NodeState) (action : Action) (t : NodeState) : Prop
  /-- Nothing changes, except that the clock may advance. -/
  | still (starts : startsFault s action = false) (phases : t.phases = s.phases)
      (recovering : t.nodeFaultRecovering = s.nodeFaultRecovering)
      (active : t.nodeFaultActive = s.nodeFaultActive) (deadline : t.nodeFaultUntil = s.nodeFaultUntil)
      (buffers : t.faultBuffers = s.faultBuffers) (windows : t.windows = s.windows)
      (clock : s.now ≤ t.now) (taken : t.TakesAs s)
  /-- The fault policy of a channel takes a message inside the window. -/
  | took (starts : startsFault s action = false) {channel : Channel} {message : Message}
      (settled : s.nodeFaultRecovering = false)
      (open_ : s.nodeFaultActive = true) (inside : s.now < s.nodeFaultUntil)
      (phases : t.phases = s.phases) (recovering : t.nodeFaultRecovering = false)
      (active : t.nodeFaultActive = true) (deadline : t.nodeFaultUntil = s.nodeFaultUntil)
      (buffers : t.faultBuffers = Function.update s.faultBuffers channel
        (applyFaultPolicyToBuffer (cfg.policy channel) message (s.faultBuffers channel)))
      (windows : t.windows = s.windows) (clock : t.now = s.now)
      (taken : t.log = s.log ++ [s.stamp (.taken channel message)])
  /-- `start_node_fault` opens a window. -/
  | opened (starts : startsFault s action = true) (phases : t.phases = s.phases)
      (recovering : t.nodeFaultRecovering = s.nodeFaultRecovering)
      (active : t.nodeFaultActive = true) (buffers : t.faultBuffers = fun _ => [])
      (windows : t.windows = s.windows + 1) (clock : t.now = s.now) (taken : t.TakesAs s)
  /-- A thread finds the window expired and enters the flush section. -/
  | began (starts : startsFault s action = false) {thread : Thread}
      (runs : action = .run thread) (begins : beginsRecovery s action = true)
      (free : s.phases thread = none) (open_ : s.nodeFaultActive = true)
      (expired : s.nodeFaultUntil ≤ s.now)
      (phases : t.phases = Function.update s.phases thread (some .swap))
      (recovering : t.nodeFaultRecovering = true) (active : t.nodeFaultActive = false)
      (deadline : t.nodeFaultUntil = s.nodeFaultUntil)
      (buffers : t.faultBuffers = s.faultBuffers) (windows : t.windows = s.windows)
      (clock : t.now = s.now) (taken : t.TakesAs s)
  /-- A flushing thread swaps the buffers out. -/
  | swapped (starts : startsFault s action = false) {thread : Thread}
      (runs : action = .run thread)
      (holds : s.phases thread = some .swap)
      (phases : t.phases = Function.update s.phases thread (some (.replay [] (s.flushOrder cfg))))
      (recovering : t.nodeFaultRecovering = s.nodeFaultRecovering)
      (active : t.nodeFaultActive = s.nodeFaultActive) (deadline : t.nodeFaultUntil = s.nodeFaultUntil)
      (buffers : t.faultBuffers = fun _ => []) (windows : t.windows = s.windows)
      (clock : t.now = s.now) (taken : t.TakesAs s)
  /-- A flushing thread replays one message. -/
  | replayed (starts : startsFault s action = false) {thread : Thread}
      (runs : action = .run thread)
      {done rest : List (Channel × Message)} {head : Channel × Message}
      (holds : s.phases thread = some (.replay done (head :: rest)))
      (phases : t.phases = Function.update s.phases thread (some (.replay (done ++ [head]) rest)))
      (recovering : t.nodeFaultRecovering = s.nodeFaultRecovering)
      (active : t.nodeFaultActive = s.nodeFaultActive) (deadline : t.nodeFaultUntil = s.nodeFaultUntil)
      (buffers : t.faultBuffers = s.faultBuffers) (windows : t.windows = s.windows)
      (clock : t.now = s.now) (taken : t.TakesAs s)
  /-- A thread leaves the flush section. -/
  | ended (starts : startsFault s action = false) {thread : Thread}
      (runs : action = .run thread)
      {done : List (Channel × Message)} (holds : s.phases thread = some (.replay done []))
      (phases : t.phases = Function.update s.phases thread none)
      (recovering : t.nodeFaultRecovering = false)
      (active : t.nodeFaultActive = s.nodeFaultActive) (deadline : t.nodeFaultUntil = s.nodeFaultUntil)
      (buffers : t.faultBuffers = s.faultBuffers) (windows : t.windows = s.windows)
      (clock : t.now = s.now) (taken : t.TakesAs s)

/-- A thread that owns a message or flushes does not start a fault. -/
theorem startsFault_eq_false_of_busy {s : NodeState} {thread : Thread}
    (busy : (s.pc thread).job?.isSome = true ∨ (s.pc thread).phase?.isSome = true) :
    startsFault s (.run thread) = false := by
  cases thread with
  | control =>
      simp only [startsFault]
      split
      case h_1 durationSec at_start => simp [at_start, Pc.job?, Pc.phase?] at busy
      case h_2 => rfl
  | startup =>
      simp only [startsFault]
      split
      case h_1 wake durationSec at_start => simp [at_start, Pc.job?, Pc.phase?] at busy
      case h_2 => rfl
  | ros => rfl
  | recv topic => rfl
  | worker topic => rfl
  | monitor => rfl

namespace NodeStep

variable {cfg : BridgeConfig} {s t : NodeState} {action : Action}

theorem fault (step : NodeStep cfg s action t) (notStop : action ≠ .stop) :
    FaultStep cfg s action t := by
  cases step with
  | advance later => exact .still rfl rfl rfl rfl rfl rfl rfl later fun _ _ => rfl
  | arrive valid idle =>
      refine .still rfl ?_ rfl rfl rfl rfl rfl le_rfl ?_
      · exact NodeState.phases_move_same (s := NodeState.record _ _) (by simp [idle, Pc.phase?])
      · exact NodeState.takenIn_of_untaken rfl (by simp [Event.taken?])
  | refused => exact .still rfl rfl rfl rfl rfl rfl rfl le_rfl fun _ _ => rfl
  | granted idle positive inactive settled =>
      exact .still rfl (NodeState.phases_move_same (by rw [idle]; rfl)) rfl rfl rfl rfl rfl le_rfl fun _ _ => rfl
  | expire at_entry active expired =>
      refine .began (startsFault_eq_false_of_busy ?_) rfl ?_ ?_ active expired
        (NodeState.phases_move _ _ _) rfl rfl rfl rfl rfl rfl fun _ _ => rfl
      · rw [at_entry]; exact .inl rfl
      · simp [beginsRecovery, NodeState.faultExpired, at_entry, active, expired]
      · rw [NodeState.phases, at_entry]; rfl
  | unexpired at_entry fresh =>
      refine .still (startsFault_eq_false_of_busy ?_) (NodeState.phases_move_same ?_)
        rfl rfl rfl rfl rfl le_rfl fun _ _ => rfl
      · rw [at_entry]; exact .inl rfl
      · rw [at_entry]; rfl
  | take at_check settled active inside =>
      refine .took (startsFault_eq_false_of_busy ?_) settled active inside
        (NodeState.phases_move_same (s := NodeState.record _ _) ?_) settled active rfl rfl rfl rfl rfl
      · rw [at_check]; exact .inl rfl
      · simp [at_check, Pc.phase?]
  | toQueue at_check settled outside limited =>
      exact .still rfl (NodeState.phases_move_same (by rw [at_check]; rfl)) rfl rfl rfl rfl rfl le_rfl fun _ _ => rfl
  | toZmq at_check settled outside unlimited =>
      exact .still rfl (NodeState.phases_move_same (by rw [at_check]; rfl)) rfl rfl rfl rfl rfl le_rfl fun _ _ => rfl
  | pass at_check settled outside final =>
      refine .still (startsFault_eq_false_of_busy ?_)
        (NodeState.phases_move_same (s := NodeState.record _ _) ?_) rfl rfl rfl rfl rfl le_rfl
        (NodeState.takenIn_record (s := s) rfl)
      · rw [at_check]; exact .inl rfl
      · simp [at_check, Pc.phase?]
  | enqueue at_cleared =>
      refine .still rfl (NodeState.phases_move_same (s := NodeState.enqueue _ _ _ _) ?_)
        rfl rfl rfl rfl rfl le_rfl (NodeState.takenIn_enqueue (s := s) _ _)
      simp [NodeState.enqueue, at_cleared, Pc.phase?]
  | deliver at_cleared final =>
      refine .still (startsFault_eq_false_of_busy ?_)
        (NodeState.phases_move_same (s := NodeState.deliver _ _ _) ?_) rfl rfl rfl rfl rfl le_rfl
        (NodeState.takenIn_record (s := s) rfl)
      · rw [at_cleared]; exact .inl rfl
      · simp [NodeState.deliver, at_cleared, Pc.phase?]
  | swap at_swap =>
      refine .swapped (startsFault_eq_false_of_busy ?_) rfl ?_ (NodeState.phases_move _ _ _)
        rfl rfl rfl rfl rfl rfl fun _ _ => rfl
      · rw [at_swap]; exact .inr rfl
      · rw [NodeState.phases, at_swap]; rfl
  | replayQueued at_replay limited =>
      refine .replayed (startsFault_eq_false_of_busy ?_) rfl ?_ (NodeState.phases_move _ _ _)
        rfl rfl rfl rfl rfl rfl
        fun _ _ => (NodeState.takenIn_enqueue _ _ _ _).trans (NodeState.takenIn_record (s := s) rfl _ _)
      · rw [at_replay]; exact .inr rfl
      · rw [NodeState.phases, at_replay]; rfl
  | replayDirect at_replay unlimited =>
      refine .replayed (startsFault_eq_false_of_busy ?_) rfl ?_ (NodeState.phases_move _ _ _)
        rfl rfl rfl rfl rfl rfl
        fun _ _ => (NodeState.takenIn_record (s := s.record _) rfl _ _).trans
          (NodeState.takenIn_record (s := s) rfl _ _)
      · rw [at_replay]; exact .inr rfl
      · rw [NodeState.phases, at_replay]; rfl
  | @endRecovery thread job done at_end =>
      have holds : s.phases thread = some (.replay done []) := by
        rw [NodeState.phases, at_end]; rfl
      refine .ended (startsFault_eq_false_of_busy ?_) rfl holds (NodeState.phases_move _ _ _)
        rfl rfl rfl rfl rfl rfl fun _ _ => rfl
      rw [at_end]; exact .inr rfl
  | @endLoop done pc at_end quiet =>
      have holds : s.phases .monitor = some (.replay done []) := by
        rw [NodeState.phases, at_end]; rfl
      have outside : pc.phase? = none := Pc.phase?_of_quiet quiet
      refine .ended rfl rfl holds ?_ rfl rfl rfl rfl rfl rfl fun _ _ => rfl
      rw [← outside]
      exact NodeState.phases_move _ _ _
  | notified at_notify =>
      refine .still (startsFault_eq_false_of_busy ?_) (NodeState.phases_move_same ?_)
        rfl rfl rfl rfl rfl le_rfl fun _ _ => rfl
      · rw [at_notify]; exact .inl rfl
      · rw [at_notify]; rfl
  | startWorker at_start limited =>
      refine .still rfl (NodeState.phases_move_same (s := NodeState.record _ _) ?_)
        rfl rfl rfl rfl rfl le_rfl (NodeState.takenIn_record (s := s) rfl)
      simp [at_start, Pc.phase?]
  | awaitTokens at_loop queue refilled short => exact .still rfl rfl rfl rfl rfl rfl rfl le_rfl fun _ _ => rfl
  | dequeue at_loop queue refilled counted enough =>
      refine .still rfl (NodeState.phases_move_same (s := NodeState.record _ _) ?_)
        rfl rfl rfl rfl rfl le_rfl (NodeState.takenIn_record (s := s) rfl)
      simp [at_loop, Pc.phase?]
  | monitorExpire at_wait active expired =>
      refine .began rfl rfl ?_ ?_ active expired (NodeState.phases_move _ _ _)
        rfl rfl rfl rfl rfl rfl fun _ _ => rfl
      · simp [beginsRecovery, NodeState.faultExpired, at_wait, active, expired]
      · rw [NodeState.phases, at_wait]; rfl
  | openWindow starter positive starts =>
      refine .opened starts (NodeState.phases_move_same ?_) rfl rfl rfl rfl rfl fun _ _ => rfl
      cases starter with
      | control at_start => simp [NodeState.openWindow, at_start, Pc.phase?]
      | startup at_start due => simp [NodeState.openWindow, at_start, Pc.phase?]
  | @quiet thread pc free outside quiet notWorker starts =>
      have after : pc.phase? = none := Pc.phase?_of_quiet quiet
      exact .still starts (NodeState.phases_move_same (by rw [outside, after]))
        rfl rfl rfl rfl rfl le_rfl fun _ _ => rfl
  | stop ros control => exact absurd rfl notStop

end NodeStep

end SwarmBridge
