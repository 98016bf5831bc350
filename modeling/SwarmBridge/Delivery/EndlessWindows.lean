import SwarmBridge.Recovery.Available
import SwarmBridge.Delivery.GetsOut

namespace SwarmBridge

open Foundation

/-!
# A message gets out between windows

Windows may be opened without end.  A thread that has a message of a topic without a bitrate
then waits for the end of one recovery after the other, so it needs a scheduler that lets it go
on if it can go on again and again.  It takes the message through its checks, or a window takes
it, and each window ends in a recovery that replays what is cached.  No such message can be
cached twice: a message of a limited topic can, because it is checked again when its worker
takes it out of its queue.
-/

/-- What is left of a call: the checks to come, and the sections before the next one. -/
def Pc.ahead : {thread : Thread} -> Pc thread -> ℕ ×ₗ ℕ
  | _, .entry job => toLex (2 * job.later + 5, 0)
  | _, .flushing (.job job) .swap => toLex (2 * job.later + 4, 0)
  | _, .flushing (.job job) (.replay _ rest) => toLex (2 * job.later + 3, rest.length)
  | _, .notifyAll job => toLex (2 * job.later + 2, 0)
  | _, .check job => toLex (2 * job.later + 1, 0)
  | _, _ => toLex (0, 0)

namespace NodeState

variable {cfg : BridgeConfig} {channel : Channel} {s t : NodeState} {action : Action}
  {message : Message} {thread : Thread}

/-- A thread in a call comes to its end, or has less of it ahead. -/
theorem call_step (step : NodeStep cfg s (.run thread) t) {job : Job thread}
    (call : (s.pc thread).job? = some job) : t.pc thread = .idle ∨
      (∃ job, (t.pc thread).job? = some job) ∧ (t.pc thread).ahead < (s.pc thread).ahead := by
  cases step with
  | expire at_entry =>
      rw [beginRecovery, move_pc, Function.update_self, at_entry]
      exact .inr ⟨⟨_, rfl⟩, by simp [Pc.ahead, Prod.Lex.toLex_lt_toLex]⟩
  | unexpired at_entry =>
      rw [move_pc, Function.update_self, at_entry]
      exact .inr ⟨⟨_, rfl⟩, by simp [Pc.ahead, Prod.Lex.toLex_lt_toLex]⟩
  | take =>
      rw [NodeState.take, move_pc, Function.update_self]
      exact .inl rfl
  | toQueue at_check =>
      rw [move_pc, Function.update_self, at_check]
      exact .inr ⟨⟨_, rfl⟩, by simp [Pc.ahead, Prod.Lex.toLex_lt_toLex]⟩
  | toZmq at_check =>
      rw [move_pc, Function.update_self, at_check]
      exact .inr ⟨⟨_, rfl⟩, by simp [Pc.ahead, Job.later, Prod.Lex.toLex_lt_toLex]⟩
  | pass at_check =>
      rw [move_pc, Function.update_self, at_check]
      exact .inr ⟨⟨_, rfl⟩, by simp [Pc.ahead, Prod.Lex.toLex_lt_toLex]⟩
  | enqueue | deliver =>
      rw [move_pc, Function.update_self]
      exact .inl rfl
  | @swap _ resume at_swap =>
      cases resume with
      | loop => rw [at_swap] at call; cases call
      | job resumed =>
          rw [swapBuffers, move_pc, Function.update_self, at_swap]
          exact .inr ⟨⟨_, rfl⟩, by simp [Pc.ahead, Prod.Lex.toLex_lt_toLex]⟩
  | @replayQueued _ resume _ _ _ _ at_replay | @replayDirect _ resume _ _ _ _ at_replay =>
      cases resume with
      | loop => rw [at_replay] at call; cases call
      | job resumed =>
          rw [move_pc, Function.update_self, at_replay]
          exact .inr ⟨⟨_, rfl⟩, by simp [Pc.ahead, Prod.Lex.toLex_lt_toLex]⟩
  | endRecovery at_end =>
      rw [move_pc, Function.update_self, at_end]
      exact .inr ⟨⟨_, rfl⟩, by simp [Pc.ahead, Prod.Lex.toLex_lt_toLex]⟩
  | notified at_notify =>
      rw [move_pc, Function.update_self, at_notify]
      exact .inr ⟨⟨_, rfl⟩, by simp [Pc.ahead, Prod.Lex.toLex_lt_toLex]⟩
  | endLoop at_end => rw [at_end] at call; cases call
  | startWorker at_start => rw [at_start] at call; cases call
  | awaitTokens at_loop => rw [at_loop] at call; cases call
  | dequeue at_loop => rw [at_loop] at call; cases call
  | monitorExpire at_wait => rw [at_wait] at call; cases call
  | openWindow starter =>
      cases starter with
      | control at_start => rw [at_start] at call; cases call
      | startup at_start => rw [at_start] at call; cases call
  | quiet free => rw [free] at call; cases call

/-- Outside a recovery a thread in a call can go on. -/
theorem enabled_of_call {job : Job thread} (call : (s.pc thread).job? = some job)
    (settled : s.nodeFaultRecovering = false) : nodeStep cfg s (.run thread) ≠ none := by
  cases at_pc : s.pc thread with
  | check job =>
      by_cases locked : s.isNodeFaultActiveLocked = true
      · simp [nodeStep, at_pc, section?, checkFault, settled, locked]
      · simp [nodeStep, at_pc, section?, checkFault, settled, locked]
  | entry job | cleared job | notifyAll job => simp [nodeStep, at_pc, section?]
  | flushing resume phase => simp [nodeStep, at_pc, section?]
  | _ => rw [at_pc] at call; cases call

/-- The thread that dispatches the messages of a channel has no step between two calls. -/
theorem reader_waits (idle : s.pc channel.reader = .idle) :
    nodeStep cfg s (.run channel.reader) = none := by
  cases channel with
  | send topic =>
      have idle : s.pc .ros = .idle := idle
      simp [nodeStep, Channel.reader, section?, idle]
  | recv topic =>
      have idle : s.pc (.recv topic) = .idle := idle
      simp [nodeStep, Channel.reader, section?, idle]

/-- It begins a call when a message is handed to it. -/
theorem reader_idle_step (stepped : nodeStep cfg s action = some t) (notStop : action ≠ .stop)
    (idle : s.pc channel.reader = .idle) : t.pc channel.reader = .idle ∨
      ∃ target payload, action = .arrive target payload ∧ target.reader = channel.reader ∧
        ∃ job, (t.pc channel.reader).job? = some job := by
  have step : NodeStep cfg s action t := nodeStep_cases stepped
  cases action with
  | advance time =>
      cases step
      exact .inl idle
  | arrive target payload =>
      cases step
      by_cases same : target.reader = channel.reader
      · refine .inr ⟨target, payload, rfl, same, ?_⟩
        rw [← same, arrive_pc_reader]
        exact ⟨_, rfl⟩
      · exact .inl ((arrive_pc_of_ne (Ne.symm same)).trans idle)
  | request durationSec =>
      cases step with
      | refused => exact .inl idle
      | granted =>
          rw [move_pc, Function.update_of_ne (by cases channel <;> exact Thread.noConfusion)]
          exact .inl idle
  | run thread =>
      by_cases own : channel.reader = thread
      · rw [← own, reader_waits idle] at stepped
        cases stepped
      · rw [step.pc_frame own]
        exact .inl idle
  | stop => exact absurd rfl notStop

/-- Before the stop the thread is between two calls, or in one. -/
theorem reader_calls (run : (bridgeNode cfg).Reachable s)
    (running : s.nodeFaultThreadRunning = true) (channel : Channel) :
    s.pc channel.reader = .idle ∨ ∃ job, (s.pc channel.reader).job? = some job := by
  apply run.invariant (P := fun s => s.nodeFaultThreadRunning = true ->
    s.pc channel.reader = .idle ∨ ∃ job, (s.pc channel.reader).job? = some job) _ _ running
  · rintro s ⟨now, rfl⟩ -
    cases channel <;> exact .inl rfl
  · intro s action t _ calls _ (stepped : nodeStep cfg s action = some t) after
    have step : NodeStep cfg s action t := nodeStep_cases stepped
    have notStop := step.notStop_of_running after
    rcases calls ((step.running_eq notStop) ▸ after) with idle | ⟨job, call⟩
    · rcases reader_idle_step stepped notStop idle with idle | ⟨-, -, -, -, calls⟩
      · exact .inl idle
      · exact .inr calls
    · by_cases own : action = .run channel.reader
      · subst own
        exact (call_step step call).imp_right And.left
      · have busy : s.pc channel.reader ≠ .idle := by
          intro idle
          rw [idle] at call
          cases call
        rw [step.pc_busy busy own]
        exact .inr ⟨job, call⟩

/-! ## The hand of the dispatching thread -/

/-- Only the dispatching thread has messages of a topic without a bitrate in hand. -/
theorem holder_of_unlimited (run : (bridgeNode cfg).Reachable s)
    (unlimited : cfg.limited channel = false)
    (member : message ∈ (s.view channel).holding thread) : thread = channel.reader := by
  rcases call_of_holding member with ⟨job, call⟩
  have about : job.channel = channel := by
    by_contra other
    simp [view, Pc.holding, call, other] at member
  cases job with
  | dispatchSend topic message => rw [← about]; rfl
  | beforeZmq topic message => rw [← about]; rfl
  | received message => rw [← about]; rfl
  | @pump topic message =>
      rw [← about] at unlimited
      rw [unstarted_of_reaches unlimited run] at call
      cases call

/-- What the dispatching thread has let go of does not come back to it. -/
theorem hand_kept (known : Arrivals channel.reader s.arrivals (s.view channel))
    (step : ChannelStep cfg channel s action t) (arrived : message ∈ (s.view channel).arrived)
    (released : message ∉ (s.view channel).holding channel.reader) :
    message ∉ (t.view channel).holding channel.reader := by
  have emptied : ∀ mover, message ∉
      Function.update (s.view channel).holding mover [] channel.reader := by
    intro mover member
    by_cases same : channel.reader = mover
    · rw [same, Function.update_self] at member
      cases member
    · exact released (by rwa [Function.update_of_ne same] at member)
  cases step with
  | same view | opened _ view | swapped _ view | passed _ _ _ _ _ view | replayedDirect _ _ view
  | replayedQueued _ _ _ _ view =>
      rw [view]
      exact released
  | arrived _ _ view =>
      rw [view]
      dsimp only
      rw [Function.update_self, List.mem_singleton]
      rintro rfl
      exact absurd (known.fresh _ arrived) (lt_irrefl _)
  | took _ _ _ _ _ view | enqueued _ _ _ view | delivered _ _ _ view =>
      rw [view]
      exact emptied _
  | dequeued _ _ _ view =>
      rw [view]
      dsimp only
      rw [Function.update_of_ne (by cases channel <;> exact Thread.noConfusion)]
      exact released

end NodeState

/-- A serving run in which a thread that can go on again and again does. -/
structure EagerRun {cfg : BridgeConfig} {origin : SendState}
    (trace : (sendNode cfg).Trace (fun _ _ => True) origin) : Prop extends ServingRun trace where
  strong : ∀ thread, trace.StrongFair (.node (.run thread))

namespace EagerRun

open NodeState

variable {cfg : BridgeConfig} {channel : Channel} {origin : SendState} {n m : ℕ}
  {message : Message} {trace : (sendNode cfg).Trace (fun _ _ => True) origin}

theorem reader_cases (run : EagerRun trace) (n : ℕ) (channel : Channel) :
    (trace.state n).node.pc channel.reader = .idle ∨
      ∃ job, ((trace.state n).node.pc channel.reader).job? = some job :=
  reader_calls (sendNode_refines (run.reaches n)) (run.running n) channel

/-- The dispatching thread comes to the end of its call, however many recoveries it has to wait
for. -/
theorem reader_comes (run : EagerRun trace) (n : ℕ) (channel : Channel) :
    ∃ m, n ≤ m ∧ (trace.state m).node.pc channel.reader = .idle := by
  rcases run.reader_cases n channel with idle | calls
  · exact ⟨n, le_rfl, idle⟩
  refine Machine.Trace.leads_to_of_descent
    (P := fun m => ∃ job, ((trace.state m).node.pc channel.reader).job? = some job)
    (fun m => ((trace.state m).node.pc channel.reader).ahead) ?_ calls
  rintro m ⟨job, call⟩
  have busy : (trace.state m).node.pc channel.reader ≠ .idle := by
    intro idle
    rw [idle] at call
    cases call
  have steps : ∃ k, m ≤ k ∧ (trace.state k).node.pc channel.reader =
      (trace.state m).node.pc channel.reader ∧ trace.action k = .node (.run channel.reader) := by
    apply run.takes_step_again (Pc.ownSteps_of_busy busy) (run.strong channel.reader) _ _
      (fun _ k _ => run.main k) rfl
    · exact fun c at_pc => SendState.iterates_of_busy (at_pc ▸ busy)
    · intro k _
      rcases run.recovery_ends k with ⟨j, later, settled⟩
      exact ⟨j, later, fun at_pc => enabled_of_call (at_pc ▸ call) settled⟩
  rcases steps with ⟨k, after, at_pc, own⟩
  have step := nodeStep_cases (FairSend.node_step own)
  rcases call_step step (at_pc ▸ call) with idle | ⟨calls, lower⟩
  · exact ⟨k + 1, by omega, .inr idle⟩
  · exact ⟨k + 1, by omega, .inl ⟨calls, at_pc ▸ lower⟩⟩

/-- A message of a topic without a bitrate gets out of the hand of the dispatching thread. -/
theorem hand_empties (run : EagerRun trace) (valid : cfg.hasChannel channel = true)
    (unlimited : cfg.limited channel = false)
    (arrived : message ∈ ((trace.state n).node.view channel).arrived) :
    ∃ first, n ≤ first ∧ ∀ m, first ≤ m -> ∀ thread,
      message ∉ ((trace.state m).node.view channel).holding thread := by
  rcases run.reader_comes n channel with ⟨first, after, idle⟩
  have released : ∀ m, first ≤ m ->
      message ∉ ((trace.state m).node.view channel).holding channel.reader := by
    intro m later
    induction m, later using Nat.le_induction with
    | base =>
        rw [holding_of_free (by rw [idle]; rfl)]
        exact List.not_mem_nil
    | succ m later ih =>
        rcases FairSend.channel_step trace valid m with same | ⟨action, step⟩
        · rwa [same]
        · exact hand_kept (arrivals_of_reaches valid (sendNode_refines (run.reaches m))) step
            (((FairSend.log_mono trace valid (after.trans later)).filterMap _).subset arrived) ih
  refine ⟨first, after, fun m later thread held => released m later ?_⟩
  rwa [holder_of_unlimited (sendNode_refines (run.reaches m)) unlimited held] at held

/-- A message of a topic without a bitrate comes to its last place, even if windows are opened
without end. -/
theorem comes_out (run : EagerRun trace) (valid : cfg.hasChannel channel = true)
    (unlimited : cfg.limited channel = false)
    (arrived : message ∈ ((trace.state n).node.view channel).arrived) :
    ∃ m, n ≤ m ∧ ∃ place : Place, place.settled = true ∧
      message ∈ (trace.state m).node.contents cfg channel place := by
  rcases run.hand_empties valid unlimited arrived with ⟨first, after, released⟩
  rcases run.idle_again first with ⟨m, later, calm⟩
  refine ⟨m, after.trans later, ?_⟩
  have known : message ∈ ((trace.state m).node.view channel).arrived :=
    ((FairSend.log_mono trace valid (after.trans later)).filterMap _).subset arrived
  have conserved : (trace.state m).node.Conserved cfg channel :=
    Conserved.of_reaches valid (run.idle m) (run.running m)
  rcases conserved.exists_place known with ⟨place, here⟩
  -- an idle node has empty fault buffers and no batches
  rcases Bool.or_eq_false_iff.mp calm with ⟨inactive, settled⟩
  cases place with
  | hand thread => exact absurd here (released m later thread)
  | queue =>
      have empty := (queue_of_unlimited valid unlimited (run.idle m)).1
      simp [contents, ChannelView.contents, empty] at here
  | buffer =>
      have empty := (run.orderly m).empty inactive settled channel
      simp [contents, ChannelView.contents, view, empty] at here
  | batch thread =>
      have none : ((trace.state m).node.view channel).pending thread = [] :=
        pending_of_phases ((run.orderly m).exclusive.phases_eq_none settled thread)
      simp [contents, ChannelView.contents, none] at here
  | delivered | dropped | superseded | evicted => exact ⟨_, rfl, here⟩

/-- With policy buffer it is written or published. -/
theorem gets_out (run : EagerRun trace) (valid : cfg.hasChannel channel = true)
    (unlimited : cfg.limited channel = false) (policy : cfg.policy channel = .buffer)
    (arrived : message ∈ ((trace.state n).node.view channel).arrived) :
    ∃ m, n ≤ m ∧ message ∈ ((trace.state m).node.view channel).delivered := by
  rcases run.comes_out valid unlimited arrived with ⟨m, after, place, settled, here⟩
  exact ⟨m, after, delivered_of_settled valid unlimited policy (run.idle m) settled here⟩

end EagerRun

end SwarmBridge
