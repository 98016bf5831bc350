import SwarmBridge.Recovery.Cached
import SwarmBridge.SimComm.Routing
import SwarmBridge.Foundation.Fairness
import Mathlib.Algebra.Order.Archimedean.Basic

namespace SwarmBridge

open Foundation

/-!
# Cached messages are replayed

`start_node_fault` clears every fault buffer, so that nothing of an earlier window
leaks into the new one.  When each start finds no window open and no flush before
its swap, there is nothing to clear, and a cached message stays where it is until a
flush takes it into its batch; only the policy that keeps the latest message may
replace it before.  That the flush comes in the end is a law of fair runs: the
clock reaches the end of the window, the monitor gets through its loop unless
another thread is faster, and the thread that has ended the window swaps the
buffers.  The startup schedule does not look for an open window, and its start
erases what the window has cached.
-/

namespace NodeState

/-- In the step from `s` to `t` a flush takes the message into its batch. -/
def EntersBatch (channel : Channel) (s t : NodeState) (message : Message) : Prop :=
  ∃ thread, s.phases thread = some .swap ∧ message ∈ (t.view channel).pending thread

/-- In the step from `s` to `t` the message leaves the fault buffer in one of the two
ways that the policies provide for. -/
def Leaves (cfg : BridgeConfig) (channel : Channel) (s t : NodeState) (message : Message) : Prop :=
  EntersBatch channel s t message ∨
    cfg.policy channel = .latest ∧ ∃ kept, Supersedes channel s t message kept

variable {cfg : BridgeConfig} {channel : Channel} {s t : NodeState} {action : Action}
  {thread : Thread} {message : Message}

/-! ## One step of a cached message -/

theorem entersBatch_of_swapped (valid : cfg.hasChannel channel = true)
    (holds : s.phases thread = some .swap)
    (after : t.phases thread = some (.replay [] (s.flushOrder cfg)))
    (member : message ∈ s.faultBuffers channel) : EntersBatch channel s t message := by
  refine ⟨thread, holds, ?_⟩
  simp only [phases] at after
  simp only [view, Pc.pending, after, pending_flushOrder valid]
  exact member

/-- A cached message stays in its buffer or leaves it in one of the two ways. -/
theorem stays_cached (valid : cfg.hasChannel channel = true) (cached : s.Cached cfg)
    (clean : StartsClean s action) (step : FaultStep cfg s action t)
    (member : message ∈ s.faultBuffers channel) :
    message ∈ t.faultBuffers channel ∨ Leaves cfg channel s t message := by
  cases step with
  | still _ _ _ _ _ buffers => exact .inl (buffers ▸ member)
  | @took _ target taken _ _ _ _ _ _ _ buffers _ _ log =>
      rw [buffers]
      by_cases same : channel = target
      · subst same
        rw [Function.update_self]
        cases policy : cfg.policy channel with
        | drop => exact .inl member
        | buffer => exact .inl (List.mem_append_left _ member)
        | latest => exact .inr (.inr ⟨policy, taken, member, log⟩)
      · rw [Function.update_of_ne same]
        exact .inl member
  | opened starts =>
      rw [cached.empty (not_holdsWindow_iff.mpr (clean starts)) channel] at member
      cases member
  | began _ _ _ _ _ _ _ _ _ _ buffers => exact .inl (buffers ▸ member)
  | swapped _ _ holds phases =>
      refine .inr (.inl (entersBatch_of_swapped valid holds ?_ member))
      rw [phases, Function.update_self]
  | replayed _ _ _ _ _ _ _ buffers => exact .inl (buffers ▸ member)
  | ended _ _ _ _ _ _ _ buffers => exact .inl (buffers ▸ member)

/-- A thread before its swap is moved by itself only. -/
theorem swap_frame (step : FaultStep cfg s action t) (other : action ≠ .run thread)
    (holds : s.phases thread = some .swap) : t.phases thread = some .swap := by
  have moved : ∀ {mover : Thread} {phase : Option FlushPhase}, action = .run mover ->
      t.phases = Function.update s.phases mover phase -> t.phases thread = some .swap := by
    intro mover phase runs phases
    have different : thread ≠ mover := fun same => other (same ▸ runs)
    rw [phases, Function.update_of_ne different]
    exact holds
  cases step with
  | still _ phases => exact phases ▸ holds
  | took _ _ _ _ phases => exact phases ▸ holds
  | opened _ phases => exact phases ▸ holds
  | began _ runs _ _ _ _ phases => exact moved runs phases
  | swapped _ runs _ phases => exact moved runs phases
  | replayed _ runs _ phases => exact moved runs phases
  | ended _ runs _ phases => exact moved runs phases

/-- The next step of a thread before its swap takes the buffers. -/
theorem swap_step (cfg : BridgeConfig) (holds : s.phases thread = some .swap) :
    ∃ t, nodeStep cfg s (.run thread) = some t ∧
      t.phases thread = some (.replay [] (s.flushOrder cfg)) := by
  rcases exists_of_swap cfg holds with ⟨resume, -, stepped⟩
  refine ⟨_, stepped, ?_⟩
  rw [swapBuffers, phases_move, Function.update_self]
  rfl

/-- An open window stays open with its deadline, or a thread ends it. -/
theorem stays_active (clean : StartsClean s action) (step : FaultStep cfg s action t)
    (active : s.nodeFaultActive = true) :
    (t.nodeFaultActive = true ∧ t.nodeFaultUntil = s.nodeFaultUntil) ∨
      ∃ thread, t.phases thread = some .swap := by
  cases step with
  | still _ _ _ same deadline => exact .inl ⟨same ▸ active, deadline⟩
  | took _ _ _ _ _ _ after deadline => exact .inl ⟨after, deadline⟩
  | opened starts =>
      rw [(clean starts).1] at active
      cases active
  | @began _ thread _ _ _ _ _ phases =>
      refine .inr ⟨thread, ?_⟩
      rw [phases, Function.update_self]
  | swapped _ _ _ _ _ same deadline => exact .inl ⟨same ▸ active, deadline⟩
  | replayed _ _ _ _ _ same deadline => exact .inl ⟨same ▸ active, deadline⟩
  | ended _ _ _ _ _ same deadline => exact .inl ⟨same ▸ active, deadline⟩

/-! ## The monitor finds an expired window -/

/-- How many steps of the monitor come before the one that finds the window expired. -/
def monitorRank : Pc .monitor -> ℕ
  | .waitFault => 1
  | .idle => 2
  | .flushing _ (.replay _ rest) => rest.length + 3
  | _ => 0

theorem monitor_frame (step : NodeStep cfg s action t) (notStop : action ≠ .stop)
    (other : action ≠ .run .monitor) : t.pc .monitor = s.pc .monitor := by
  cases action with
  | advance time => cases step; rfl
  | arrive channel payload =>
      cases step
      exact arrive_pc_of_ne (by cases channel <;> exact Thread.noConfusion)
  | request durationSec =>
      cases step with
      | refused => rfl
      | granted => rw [move_pc, Function.update_of_ne (by decide)]
  | run thread => exact step.pc_frame fun same => other (same ▸ rfl)
  | stop => exact absurd rfl notStop

/-- The monitor does not end before the stop. -/
theorem awake_step (step : NodeStep cfg s action t) (notStop : action ≠ .stop)
    (running : s.nodeFaultThreadRunning = true) (awake : s.pc .monitor ≠ .stopped) :
    t.pc .monitor ≠ .stopped := by
  by_cases own : action = .run .monitor
  · subst own
    cases step with
    | endLoop _ _ awake =>
        rw [move_pc, Function.update_self]
        exact awake running
    | quiet _ _ _ _ _ awake =>
        rw [move_pc, Function.update_self]
        exact awake running rfl
    | _ => simp [beginRecovery, take, swapBuffers]
  · rw [monitor_frame step notStop own]
    exact awake

theorem awake_of_reaches {allow : NodeState -> Action -> Prop}
    (run : (bridgeNode cfg).Reaches allow s) (running : s.nodeFaultThreadRunning = true) :
    s.pc .monitor ≠ .stopped :=
  invariant_of_running run running (fun _ => by simp [initial])
    fun _ _ _ _ before awake _ notStop step => awake_step step notStop before awake

/-- With the window expired, the next step of the monitor ends it or is one of the
few that come before that. -/
theorem monitor_step (cfg : BridgeConfig) (running : s.nodeFaultThreadRunning = true)
    (awake : s.pc .monitor ≠ .stopped) (active : s.nodeFaultActive = true)
    (expired : s.nodeFaultUntil ≤ s.now) (outside : s.phases .monitor ≠ some .swap) :
    ∃ t, nodeStep cfg s (.run .monitor) = some t ∧
      (t.phases .monitor = some .swap ∨
        monitorRank (t.pc .monitor) < monitorRank (s.pc .monitor)) := by
  have loop : s.monitorLoop = .waitDeadline := by
    simp [monitorLoop, running, active]
  simp only [nodeStep, phases] at outside ⊢
  cases at_pc : s.pc .monitor with
  | idle =>
      refine ⟨_, rfl, .inr ?_⟩
      rw [loop, move_pc, Function.update_self]
      decide
  | waitFault =>
      refine ⟨s.move .monitor .waitDeadline, ?_, .inr ?_⟩
      · simp [section?, running, active, loop]
      · rw [move_pc, Function.update_self]
        decide
  | waitDeadline =>
      refine ⟨s.beginRecovery .monitor .loop, ?_, .inl ?_⟩
      · simp [section?, running, expired, faultExpired, active]
      · simp [beginRecovery, Pc.phase?]
  | flushing resume phase =>
      cases phase with
      | swap =>
          rw [at_pc] at outside
          exact absurd rfl outside
      | replay done rest =>
          refine ⟨_, rfl, .inr ?_⟩
          cases rest with
          | nil =>
              cases resume with
              | job job => cases job
              | loop =>
                  rw [flushSection, endRecovery, move_pc, Function.update_self, loop]
                  simp [monitorRank]
          | cons head rest =>
              rw [flushSection, move_pc, Function.update_self]
              simp [monitorRank]
  | notifyOne starter => rcases starter with impossible | impossible <;> cases impossible
  | stopped => exact absurd at_pc awake
  | entry job => cases job
  | check job => cases job
  | cleared job => cases job
  | notifyAll job => cases job

end NodeState

/-! ## Fair runs of the node -/

/-- An infinite run from a reached state, before the stop, whose starts are clean,
whose scheduler is fair to every thread, and whose clock does not stand still. -/
structure FairRun {cfg : BridgeConfig} {origin : NodeState}
    (trace : (bridgeNode cfg).Trace StartsClean origin) : Prop where
  reached : (bridgeNode cfg).Reaches StartsClean origin
  running : ∀ n, (trace.state n).nodeFaultThreadRunning = true
  fair : ∀ thread, trace.Fair (.run thread)
  clock : ∀ time, ∃ n, time ≤ (trace.state n).now

namespace FairRun

open NodeState

variable {cfg : BridgeConfig} {channel : Channel} {message : Message} {origin : NodeState}
  {trace : (bridgeNode cfg).Trace StartsClean origin} {thread : Thread} {n : ℕ}

theorem reaches (run : FairRun trace) (n : ℕ) :
    (bridgeNode cfg).Reaches StartsClean (trace.state n) := by
  rcases run.reached with ⟨first, initial, path⟩
  exact ⟨first, initial, path.trans (trace.path n)⟩

theorem cached (run : FairRun trace) (n : ℕ) : (trace.state n).Cached cfg :=
  Cached.of_reaches (run.reaches n) (run.running n) fun _ _ clean => clean.afterSwap

theorem step (trace : (bridgeNode cfg).Trace StartsClean origin) (n : ℕ) :
    NodeStep cfg (trace.state n) (trace.action n) (trace.state (n + 1)) :=
  nodeStep_cases (trace.steps n)

theorem notStop (run : FairRun trace) (n : ℕ) : trace.action n ≠ .stop :=
  (step trace n).notStop_of_running (run.running (n + 1))

theorem fault (run : FairRun trace) (n : ℕ) :
    FaultStep cfg (trace.state n) (trace.action n) (trace.state (n + 1)) :=
  (step trace n).fault (run.notStop n)

theorem clock_mono (run : FairRun trace) : Monotone fun n => (trace.state n).now :=
  monotone_nat_of_le_succ fun n => (run.fault n).clock_le

/-- The message is in the fault buffer at position `n`, and leaves it at once. -/
def LeavesAt (trace : (bridgeNode cfg).Trace StartsClean origin) (channel : Channel)
    (message : Message) (n : ℕ) : Prop :=
  Leaves cfg channel (trace.state n) (trace.state (n + 1)) message

/-- When a thread is about to swap the buffers, a cached message will leave. -/
theorem leaves_of_swap (run : FairRun trace) (valid : cfg.hasChannel channel = true)
    (member : message ∈ (trace.state n).faultBuffers channel)
    (holds : (trace.state n).phases thread = some .swap) :
    ∃ m, n ≤ m ∧ LeavesAt trace channel message m := by
  have taken : ∀ n, (message ∈ (trace.state n).faultBuffers channel ∧
      (trace.state n).phases thread = some .swap) -> trace.action n = .run thread ->
      LeavesAt trace channel message n := by
    rintro n ⟨member, holds⟩ runs
    rcases swap_step cfg holds with ⟨t, stepped, after⟩
    have same : t = trace.state (n + 1) := by
      have steps := trace.steps n
      rw [runs] at steps
      exact Option.some.inj (stepped.symm.trans steps)
    exact .inl (entersBatch_of_swapped valid holds (same ▸ after) member)
  apply Machine.Trace.leads_to (run.fair thread) _ _ taken ⟨member, holds⟩
  · rintro n ⟨-, holds⟩ disabled
    rcases swap_step cfg holds with ⟨t, stepped, -⟩
    cases stepped.symm.trans disabled
  · rintro n ⟨member, holds⟩
    by_cases runs : trace.action n = .run thread
    · exact .inr (taken n ⟨member, holds⟩ runs)
    · rcases stays_cached valid (run.cached n) (trace.allowed n) (run.fault n) member with
        stays | leaves
      · exact .inl ⟨stays, swap_frame (run.fault n) runs holds⟩
      · exact .inr leaves

/-- In an open window a cached message stays there with it, or it will leave. -/
theorem stays_or_leaves_of_active (run : FairRun trace) (valid : cfg.hasChannel channel = true)
    (member : message ∈ (trace.state n).faultBuffers channel)
    (active : (trace.state n).nodeFaultActive = true) :
    (message ∈ (trace.state (n + 1)).faultBuffers channel ∧
      (trace.state (n + 1)).nodeFaultActive = true ∧
      (trace.state (n + 1)).nodeFaultUntil = (trace.state n).nodeFaultUntil) ∨
    ∃ m, n ≤ m ∧ LeavesAt trace channel message m := by
  rcases stays_cached valid (run.cached n) (trace.allowed n) (run.fault n) member with
    stays | leaves
  · rcases stays_active (trace.allowed n) (run.fault n) active with still | ⟨thread, holds⟩
    · exact .inl ⟨stays, still⟩
    · rcases run.leaves_of_swap valid stays holds with ⟨m, after, leaves⟩
      exact .inr ⟨m, by omega, leaves⟩
  · exact .inr ⟨n, le_rfl, leaves⟩

/-- The message is cached, and the window is open past its deadline. -/
structure Overdue (trace : (bridgeNode cfg).Trace StartsClean origin) (channel : Channel)
    (message : Message) (n : ℕ) : Prop where
  member : message ∈ (trace.state n).faultBuffers channel
  active : (trace.state n).nodeFaultActive = true
  expired : (trace.state n).nodeFaultUntil ≤ (trace.state n).now

theorem monitor (run : FairRun trace) (overdue : Overdue trace channel message n) :
    ∃ t, nodeStep cfg (trace.state n) (.run .monitor) = some t ∧
      (t.phases .monitor = some .swap ∨
        monitorRank (t.pc .monitor) < monitorRank ((trace.state n).pc .monitor)) :=
  monitor_step cfg (run.running n) (awake_of_reaches (run.reaches n) (run.running n))
    overdue.active overdue.expired ((run.cached n).not_swapping overdue.active .monitor)

/-- The monitor comes closer to finding the window expired in its own steps, and no
other step takes it away from there. -/
theorem overdue_step (run : FairRun trace) (valid : cfg.hasChannel channel = true)
    (overdue : Overdue trace channel message n) :
    (Overdue trace channel message (n + 1) ∧
      (trace.action n = .run .monitor -> monitorRank ((trace.state (n + 1)).pc .monitor) <
        monitorRank ((trace.state n).pc .monitor)) ∧
      (trace.action n ≠ .run .monitor ->
        (trace.state (n + 1)).pc .monitor = (trace.state n).pc .monitor)) ∨
    ∃ m, n ≤ m ∧ LeavesAt trace channel message m := by
  rcases run.stays_or_leaves_of_active valid overdue.member overdue.active with
    ⟨member, active, deadline⟩ | leaves
  · refine .inl ⟨⟨member, active, ?_⟩, fun runs => ?_, fun other => ?_⟩
    · rw [deadline]
      exact overdue.expired.trans (run.clock_mono (Nat.le_succ n))
    · rcases run.monitor overdue with ⟨t, stepped, outcome⟩
      have same : t = trace.state (n + 1) := by
        have steps := trace.steps n
        rw [runs] at steps
        exact Option.some.inj (stepped.symm.trans steps)
      subst same
      exact outcome.resolve_left ((run.cached (n + 1)).not_swapping active .monitor)
    · exact monitor_frame (step trace n) (run.notStop n) other
  · exact .inr leaves

/-- A message that is cached when the window has expired will leave. -/
theorem leaves_of_overdue (run : FairRun trace) (valid : cfg.hasChannel channel = true)
    (overdue : Overdue trace channel message n) :
    ∃ m, n ≤ m ∧ LeavesAt trace channel message m := by
  have leads : ∃ m, n ≤ m ∧ ∃ k, m ≤ k ∧ LeavesAt trace channel message k := by
    apply Machine.Trace.leads_to_of_rank (run.fair .monitor)
      (fun n => monitorRank ((trace.state n).pc .monitor)) _ _ _ overdue
    · intro n overdue disabled
      rcases run.monitor overdue with ⟨t, stepped, -⟩
      cases stepped.symm.trans disabled
    · intro n overdue
      apply (run.overdue_step valid overdue).imp_left
      rintro ⟨after, own, other⟩
      by_cases runs : trace.action n = .run .monitor
      · exact ⟨after, (own runs).le⟩
      · exact ⟨after, by rw [other runs]⟩
    · intro n overdue runs
      exact (run.overdue_step valid overdue).imp_left fun next => ⟨next.1, next.2.1 runs⟩
  rcases leads with ⟨m, first, k, second, leaves⟩
  exact ⟨k, first.trans second, leaves⟩

/-- A message that is cached in an open window will leave. -/
theorem leaves_of_active (run : FairRun trace) (valid : cfg.hasChannel channel = true)
    (member : message ∈ (trace.state n).faultBuffers channel)
    (active : (trace.state n).nodeFaultActive = true) :
    ∃ m, n ≤ m ∧ LeavesAt trace channel message m := by
  rcases run.clock (trace.state n).nodeFaultUntil with ⟨late, reached⟩
  have keep : ∀ m, (message ∈ (trace.state m).faultBuffers channel ∧
      (trace.state m).nodeFaultActive = true ∧
      (trace.state m).nodeFaultUntil = (trace.state n).nodeFaultUntil) ->
      (message ∈ (trace.state (m + 1)).faultBuffers channel ∧
        (trace.state (m + 1)).nodeFaultActive = true ∧
        (trace.state (m + 1)).nodeFaultUntil = (trace.state n).nodeFaultUntil) ∨
      ∃ k, m ≤ k ∧ LeavesAt trace channel message k := by
    rintro m ⟨member, active, deadline⟩
    rw [← deadline]
    exact run.stays_or_leaves_of_active valid member active
  -- the clock does not fall back behind the deadline before position `n`
  rcases Machine.Trace.stays_or_leaves keep ⟨member, active, rfl⟩ (le_max_left n late) with
    ⟨member, active, deadline⟩ | ⟨m, first, k, second, leaves⟩
  · have expired : (trace.state n).nodeFaultUntil ≤ (trace.state (max n late)).now :=
      reached.trans (run.clock_mono (le_max_right n late))
    rcases run.leaves_of_overdue valid ⟨member, active, deadline ▸ expired⟩ with
      ⟨m, after, leaves⟩
    exact ⟨m, (le_max_left n late).trans after, leaves⟩
  · exact ⟨k, first.trans second, leaves⟩

theorem leaves (run : FairRun trace) (valid : cfg.hasChannel channel = true)
    (member : message ∈ (trace.state n).faultBuffers channel) :
    ∃ m, n ≤ m ∧ LeavesAt trace channel message m := by
  by_cases held : (trace.state n).HoldsWindow
  · rcases held with active | ⟨thread, holds⟩
    · exact run.leaves_of_active valid member active
    · exact run.leaves_of_swap valid member holds
  · rw [(run.cached n).empty held channel] at member
    cases member

end FairRun

theorem running_of_startsFault {s : NodeState} {action : Action}
    (starts : startsFault s action = true) : s.nodeFaultThreadRunning = true := by
  cases action with
  | run thread =>
      cases thread with
      | control =>
          simp only [startsFault] at starts
          split at starts
          case h_1 => exact ((Bool.and_eq_true _ _).mp starts).2
          case h_2 => cases starts
      | startup =>
          simp only [startsFault] at starts
          split at starts
          case h_1 => exact ((Bool.and_eq_true _ _).mp starts).2
          case h_2 => cases starts
      | _ => cases starts
  | _ => cases starts

/-- As long as every start is clean, a start has nothing to clear exactly when it is
clean or the policies have kept nothing in the window it interrupts, and every
cached message is taken into a batch or replaced by its policy. -/
theorem start_discards_nothing (cfg : BridgeConfig) :
    (∀ s, (bridgeNode cfg).Reaches StartsClean s -> ∀ action, startsFault s action = true ->
      ((∀ channel, s.faultBuffers channel = []) ↔
        StartsClean s action ∨
          ∀ channel, (cfg.policy channel).keep ((s.view channel).takenIn s.windows) = [])) ∧
    ∀ origin (trace : (bridgeNode cfg).Trace StartsClean origin), FairRun trace ->
      ∀ n channel message, cfg.hasChannel channel = true ->
        message ∈ (trace.state n).faultBuffers channel ->
          ∃ m, n ≤ m ∧
            NodeState.Leaves cfg channel (trace.state m) (trace.state (m + 1)) message := by
  constructor
  · intro s run action starts
    have cached : s.Cached cfg := NodeState.Cached.of_reaches run (running_of_startsFault starts)
      fun _ _ clean => clean.afterSwap
    by_cases held : s.HoldsWindow
    · have unclean : ¬ StartsClean s action :=
        fun clean => NodeState.not_holdsWindow_iff.mpr (clean starts) held
      simp only [unclean, false_or, cached.kept held]
    · have clean : StartsClean s action := fun _ => NodeState.not_holdsWindow_iff.mp held
      exact iff_of_true (cached.empty held) (.inl clean)
  · exact fun origin trace run n channel message valid member => run.leaves valid member

/-! ## The startup schedule interrupts a window -/

/-- One send topic without a bitrate and with policy buffer, and a startup schedule. -/
def interruptedConfig : BridgeConfig where
  sendTopics := [⟨0, .buffer⟩]
  recvTopics := []
  nodeFault := some (5, 1)
  durationCast := id
  undefinedSize := fun _ => 0

/-- A remote request opens a window of ten seconds, a message is cached, and after
five seconds the startup schedule is due. -/
def interruptedSchedule : List Action :=
  [.request 10, .run .control, .run .control,
    .arrive (.send 0) ⟨1, [0]⟩, .run .ros, .run .ros, .advance 5]

/-- Without the condition a start erases a cached message. -/
theorem start_discards_cached :
    ¬ ∀ (cfg : BridgeConfig) (s : NodeState), (bridgeNode cfg).Reachable s ->
      ∀ action t, nodeStep cfg s action = some t -> startsFault s action = true ->
        ∀ channel, s.faultBuffers channel = [] := by
  intro claim
  have executed : ((bridgeNode interruptedConfig).exec (fun _ _ => True)
      (NodeState.initial interruptedConfig 0) interruptedSchedule).map
      (fun s => ((nodeStep interruptedConfig s (.run .startup)).isSome,
        startsFault s (.run .startup),
        (s.faultBuffers (.send 0)).length)) = some (true, true, 1) := by
    decide +kernel
  rcases NodeState.exists_of_schedule executed with ⟨s, reached, observed⟩
  simp only [Prod.mk.injEq] at observed
  rcases Option.isSome_iff_exists.mp observed.1 with ⟨t, stepped⟩
  have empty := claim interruptedConfig s reached _ t stepped observed.2.1 (.send 0)
  simp [empty] at observed

/-! ## A node that has come to rest -/

/-- No thread has a step, whatever the clock shows. -/
def NodeState.Resting (cfg : BridgeConfig) (s : NodeState) : Prop :=
  ∀ time thread, nodeStep cfg { s with now := time } (.run thread) = none

/-- A node at rest, with the clock going on by itself. -/
def restingTrace (cfg : BridgeConfig) (s : NodeState) :
    (bridgeNode cfg).Trace StartsClean s where
  state n := { s with now := s.now + n }
  action n := .advance (s.now + n + 1)
  begins := by simp
  allowed n starts := by cases starts
  steps n := by simp [bridgeNode, nodeStep, add_assoc]

namespace FairRun

variable {cfg : BridgeConfig} {origin s : NodeState}

/-- What has not been stopped later has not been stopped before. -/
theorem running_of_le (trace : (bridgeNode cfg).Trace StartsClean origin) {n m : ℕ}
    (le : n ≤ m) (running : (trace.state m).nodeFaultThreadRunning = true) :
    (trace.state n).nodeFaultThreadRunning = true := by
  induction m, le using Nat.le_induction with
  | base => exact running
  | succ m le ih =>
      have last := step trace m
      exact ih ((last.running_eq (last.notStop_of_running running)) ▸ running)

theorem of_resting (reached : (bridgeNode cfg).Reaches StartsClean s)
    (running : s.nodeFaultThreadRunning = true) (resting : s.Resting cfg) :
    FairRun (restingTrace cfg s) where
  reached := reached
  running _ := running
  fair thread n := ⟨n, le_rfl, .inr (resting _ thread)⟩
  clock time := by
    rcases exists_nat_ge (time - s.now) with ⟨n, large⟩
    exact ⟨n, by simpa [restingTrace] using sub_le_iff_le_add'.mp large⟩

/-- A run that comes to rest can be continued to a fair one. -/
theorem exists_of_path (reached : (bridgeNode cfg).Reaches StartsClean origin)
    (path : (bridgeNode cfg).Path StartsClean origin s)
    (running : s.nodeFaultThreadRunning = true) (resting : s.Resting cfg) :
    ∃ trace : (bridgeNode cfg).Trace StartsClean origin, FairRun trace := by
  have rest : FairRun (restingTrace cfg s) :=
    of_resting (reached.imp fun _ => .imp_right fun first => first.trans path) running resting
  rcases path.extend (restingTrace cfg s) with ⟨trace, fair, shift, same⟩
  refine ⟨trace, reached, fun n => ?_, fun thread => fair _ (rest.fair thread), fun time => ?_⟩
  · apply running_of_le trace (Nat.le_add_right n shift)
    rw [same]
    exact running
  · rcases rest.clock time with ⟨n, late⟩
    exact ⟨n + shift, by rwa [same]⟩

end FairRun

/-- A node without bitrates and receive topics rests when its other threads do. -/
theorem NodeState.resting_of_idle {cfg : BridgeConfig} {s : NodeState}
    {allow : NodeState -> Action -> Prop} (run : (bridgeNode cfg).Reaches allow s)
    (unlimited : ∀ topic, cfg.limited (.send topic) = false)
    (absent : ∀ topic, cfg.hasChannel (.recv topic) = false)
    (running : s.nodeFaultThreadRunning = true) (inactive : s.nodeFaultActive = false)
    (ros : s.pc .ros = .idle) (monitor : s.pc .monitor = .waitFault)
    (control : s.pc .control = .idle) (startup : s.pc .startup = .idle) : s.Resting cfg := by
  intro time thread
  cases thread with
  | ros => simp [nodeStep, ros, section?]
  | recv topic => simp [nodeStep, idle_of_reaches (absent topic) run, section?]
  | worker topic =>
      simp [nodeStep, unstarted_of_reaches (unlimited topic) run, section?, unlimited topic]
  | monitor => simp [nodeStep, monitor, section?, running, inactive]
  | control => simp [nodeStep, control, section?]
  | startup => simp [nodeStep, startup, section?]

/-- The topic of `interruptedConfig` without a startup schedule. -/
def retainedConfig : BridgeConfig where
  sendTopics := [⟨0, .buffer⟩]
  recvTopics := []
  nodeFault := none
  durationCast := id
  undefinedSize := fun _ => 0

/-- A message is cached in a window of one second. -/
def retainedSchedule : List Action :=
  [.request 1, .run .control, .run .control, .run .monitor,
    .arrive (.send 0) ⟨1, [0]⟩, .run .ros, .run .ros]

/-- The monitor ends the window and replays the message. -/
def recoverySchedule : List Action :=
  [.advance 1, .run .monitor, .run .monitor, .run .monitor, .run .monitor]

/-- A cached message is taken into a batch in a fair run. -/
theorem start_discards_nothing_retained :
    ∃ (s : NodeState) (message : Message) (trace : (bridgeNode retainedConfig).Trace StartsClean s),
      message ∈ s.faultBuffers (.send 0) ∧
        ∃ n, NodeState.EntersBatch (.send 0) (trace.state n) (trace.state (n + 1)) message := by
  have executed : (((bridgeNode retainedConfig).exec StartsWhenIdle
      (NodeState.initial retainedConfig 0) retainedSchedule).bind fun s =>
      ((bridgeNode retainedConfig).exec (fun s a => startsFault s a = false) s
        recoverySchedule).map fun u =>
      ((s.faultBuffers (.send 0)).length,
        [s.nodeFaultThreadRunning, u.nodeFaultThreadRunning, !u.nodeFaultActive,
          decide (u.pc .ros = .idle), decide (u.pc .monitor = .waitFault),
          decide (u.pc .control = .idle), decide (u.pc .startup = .idle)])) =
      some (1, [true, true, true, true, true, true, true]) := by
    decide +kernel
  rcases Option.bind_eq_some_iff.mp executed with ⟨s, first, executed⟩
  rcases Option.map_eq_some_iff.mp executed with ⟨u, second, observed⟩
  simp only [Prod.mk.injEq, List.cons.injEq, decide_eq_true_eq, Bool.not_eq_true'] at observed
  rcases observed with ⟨cached, running, running', inactive, ros, monitor, control, startup, -⟩
  have reached : (bridgeNode retainedConfig).Reaches StartsClean s :=
    reaches_clean (Machine.reaches_of_exec ⟨0, rfl⟩ first) running
  have path : (bridgeNode retainedConfig).Path StartsClean s u :=
    (Machine.path_of_exec second).mono fun _ _ quiet starts => by
      rw [quiet] at starts
      cases starts
  have last : (bridgeNode retainedConfig).Reaches StartsClean u :=
    reached.imp fun _ => .imp_right fun before => before.trans path
  have resting : u.Resting retainedConfig := by
    apply NodeState.resting_of_idle last _ _ running' inactive ros monitor control startup
    · intro topic
      cases topic <;> rfl
    · exact fun _ => rfl
  rcases FairRun.exists_of_path reached path running' resting with ⟨trace, run⟩
  rcases List.exists_mem_of_length_pos (cached ▸ Nat.one_pos) with ⟨message, member⟩
  have begins : message ∈ (trace.state 0).faultBuffers (.send 0) := by
    rw [trace.begins]
    exact member
  rcases (start_discards_nothing retainedConfig).2 s trace run 0 (.send 0) message rfl begins with
    ⟨n, -, enters | ⟨policy, -⟩⟩
  · exact ⟨s, message, trace, member, n, enters⟩
  · cases policy

end SwarmBridge
