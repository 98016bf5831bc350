import SwarmBridge.Delivery.FairSend
import Mathlib.Data.Prod.Lex

namespace SwarmBridge

open Foundation

/-!
# The threads come to their end

After `stop_node_fault_control` no window opens any more and no recovery begins, so every
thread that is still in a call comes to the end of it, as long as the process goes on: no
thread sends on a socket that `main` has closed.  A worker that sleeps when its flag is
cleared is woken, one that is in the middle of a message finishes it, and each returns.
-/

/-! ## The node after the stop -/

namespace NodeState

variable {cfg : BridgeConfig} {s t : NodeState} {action : Action} {topic : ℕ}

/-- The state that `stop_node_fault_control` leaves behind for good. -/
structure Halted (s : NodeState) : Prop where
  running : s.nodeFaultThreadRunning = false
  inactive : s.nodeFaultActive = false
  settled : s.nodeFaultRecovering = false
  ros : s.pc .ros = .stopNotify ∨ s.pc .ros = .stopped

namespace Halted

theorem starts_eq_false (halted : s.Halted) (action : Action) : startsFault s action = false := by
  cases action with
  | run thread =>
      cases thread with
      | control =>
          simp only [startsFault, halted.running, Bool.and_false]
          split <;> rfl
      | startup =>
          simp only [startsFault, halted.running, Bool.and_false]
          split <;> rfl
      | _ => rfl
  | _ => rfl

/-- The fault control is stopped only once. -/
theorem notStop (halted : s.Halted) (stepped : nodeStep cfg s action = some t) :
    action ≠ .stop := by
  rintro rfl
  simp [nodeStep, halted.running] at stepped

theorem step (halted : s.Halted) (stepped : nodeStep cfg s action = some t) : t.Halted := by
  have step : NodeStep cfg s action t := nodeStep_cases stepped
  have busy : s.pc .ros ≠ .idle := by
    rcases halted.ros with at_ros | at_ros <;> simp [at_ros]
  have notStop := halted.notStop stepped
  have starts := halted.starts_eq_false action
  have ros : t.pc .ros = .stopNotify ∨ t.pc .ros = .stopped := by
    by_cases own : action = .run .ros
    · subst own
      rcases halted.ros with at_ros | at_ros
      · simp only [nodeStep, at_ros, section?, Option.some.injEq] at stepped
        subst stepped
        exact .inr (by rw [move_pc, Function.update_self])
      · simp [nodeStep, at_ros, section?] at stepped
    · rw [step.pc_busy busy own]
      exact halted.ros
  have running := (step.running_eq notStop).trans halted.running
  cases step.fault notStop with
  | still _ _ recovering active =>
      exact ⟨running, active.trans halted.inactive, recovering.trans halted.settled, ros⟩
  | took _ _ open_ => rw [halted.inactive] at open_; cases open_
  | opened starts' => rw [starts] at starts'; cases starts'
  | began _ _ _ _ open_ => rw [halted.inactive] at open_; cases open_
  | swapped _ _ _ _ recovering active =>
      exact ⟨running, active.trans halted.inactive, recovering.trans halted.settled, ros⟩
  | replayed _ _ _ _ recovering active =>
      exact ⟨running, active.trans halted.inactive, recovering.trans halted.settled, ros⟩
  | ended _ _ _ _ recovering active =>
      exact ⟨running, active.trans halted.inactive, recovering, ros⟩

/-- The stop is the only step that clears `node_fault_thread_running`. -/
theorem of_reachable (run : (bridgeNode cfg).Reachable s)
    (stopped : s.nodeFaultThreadRunning = false) : s.Halted := by
  apply run.invariant (P := fun s => s.nodeFaultThreadRunning = false -> s.Halted) _ _ stopped
  · rintro s ⟨now, rfl⟩ impossible
    cases impossible
  · intro s action t _ halted _ stepped after
    have step : NodeStep cfg s action t := nodeStep_cases stepped
    by_cases isStop : action = .stop
    · subst isStop
      cases step
      refine ⟨rfl, rfl, rfl, .inl ?_⟩
      rw [stopNodeFaultControl, move_pc, Function.update_of_ne (by decide), move_pc,
        Function.update_self]
    · exact (halted ((step.running_eq isStop).symm.trans after)).step stepped

end Halted

/-- `main` had returned from `schedule_node_fault` before it came to the stop. -/
theorem scheduled_of_halted (run : (bridgeNode cfg).Reachable s)
    (stopped : s.nodeFaultThreadRunning = false) : s.scheduled cfg = true := by
  apply run.invariant (P := fun s => s.nodeFaultThreadRunning = false -> s.scheduled cfg = true)
    _ _ stopped
  · rintro s ⟨now, rfl⟩ impossible
    cases impossible
  · intro s action t _ scheduled _ (stepped : nodeStep cfg s action = some t) after
    have step : NodeStep cfg s action t := nodeStep_cases stepped
    by_cases isStop : action = .stop
    · have guard := stepped
      subst isStop
      simp only [nodeStep] at guard
      split_ifs at guard with ready
      exact scheduled_step ready.1 stepped
    · exact scheduled_step (scheduled ((step.running_eq isStop).symm.trans after)) stepped

end NodeState

/-! ## What a thread still has to do -/

/-- `dispatch_send_message` may go on to a second check. -/
def Job.later : {thread : Thread} -> Job thread -> ℕ
  | _, .dispatchSend _ _ => 4
  | _, _ => 0

/-- The work before a thread is between two calls, or the monitor ends: first what is left
of a flush, then the steps of the call. -/
def Pc.work : {thread : Thread} -> Pc thread -> ℕ ×ₗ ℕ
  | _, .flushing _ .swap => toLex (2, 0)
  | _, .flushing _ (.replay _ rest) => toLex (1, rest.length)
  | _, .notifyAll job => toLex (0, job.later + 3)
  | _, .entry job => toLex (0, job.later + 3)
  | _, .check job => toLex (0, job.later + 2)
  | _, .cleared _ => toLex (0, 1)
  | _, .unstarted => toLex (0, 1)
  | .monitor, .idle => toLex (0, 1)
  | _, .waitFault => toLex (0, 1)
  | _, .waitDeadline => toLex (0, 1)
  | _, _ => toLex (0, 0)

/-- The next step of the thread is enabled, and leaves less work. -/
def NodeState.Advances (cfg : BridgeConfig) (s : NodeState) (thread : Thread) : Prop :=
  ∃ t, nodeStep cfg s (.run thread) = some t ∧ (t.pc thread).work < (s.pc thread).work

namespace NodeState

variable {cfg : BridgeConfig} {s t : NodeState} {action : Action} {topic : ℕ}

/-- A flush goes on. -/
theorem advances_flush {thread : Thread} {resume : Resume thread} {phase : FlushPhase}
    (at_flush : s.pc thread = .flushing resume phase)
    (after : ∀ done, phase = .replay done [] ->
      ((s.endRecovery resume).pc thread).work < toLex (1, 0)) : s.Advances cfg thread := by
  refine ⟨s.flushSection cfg thread resume phase, by simp [nodeStep, at_flush, section?], ?_⟩
  rw [at_flush]
  cases phase with
  | swap =>
      rw [flushSection, swapBuffers, move_pc, Function.update_self]
      simp [Pc.work, Prod.Lex.toLex_lt_toLex]
  | replay done rest =>
      cases rest with
      | nil => exact after done rfl
      | cons head rest =>
          rw [flushSection, move_pc, Function.update_self]
          simp [Pc.work, Prod.Lex.toLex_lt_toLex]

/-- On a node without a fault a thread that has begun a call goes on with it. -/
theorem advances_job {thread : Thread} {job : Job thread} (calm : s.isNodeFaultBusy = false)
    (call : (s.pc thread).job? = some job) (outside : s.phases thread = none) :
    s.Advances cfg thread := by
  rcases Bool.or_eq_false_iff.mp calm with ⟨inactive, settled⟩
  cases at_pc : s.pc thread with
  | entry job =>
      have fresh : s.faultExpired = false := by simp [faultExpired, inactive]
      refine ⟨s.move thread (.check job), ?_, ?_⟩
      · simp [nodeStep, at_pc, section?, flushExpiredFaultIfNeeded, fresh]
      · rw [move_pc, Function.update_self, at_pc]
        simp [Pc.work, Prod.Lex.toLex_lt_toLex]
  | check job =>
      refine ⟨s.pass cfg job, ?_, ?_⟩
      · simp [nodeStep, at_pc, section?, checkFault, settled, isNodeFaultActiveLocked, inactive]
      · rw [at_pc]
        cases job with
        | dispatchSend topic message =>
            rw [pass]
            split_ifs
            · rw [move_pc, Function.update_self]
              simp [Pc.work, Job.later, Prod.Lex.toLex_lt_toLex]
            · rw [move_pc, Function.update_self]
              simp [Pc.work, Job.later, Prod.Lex.toLex_lt_toLex]
        | _ =>
            simp only [pass]
            rw [move_pc, Function.update_self]
            simp [Pc.work, Job.later, Prod.Lex.toLex_lt_toLex]
  | cleared job =>
      refine ⟨s.afterCheck cfg job, by simp [nodeStep, at_pc, section?], ?_⟩
      rw [at_pc]
      cases job with
      | _ =>
          simp only [afterCheck]
          rw [move_pc, Function.update_self]
          simp [Pc.work, Prod.Lex.toLex_lt_toLex]
  | notifyAll job =>
      refine ⟨s.move thread (.check job), by rw [nodeStep, at_pc, section?], ?_⟩
      rw [move_pc, Function.update_self, at_pc]
      simp [Pc.work, Prod.Lex.toLex_lt_toLex]
  | flushing resume phase => simp [phases, at_pc, Pc.phase?] at outside
  | _ => simp [at_pc, Pc.job?] at call

/-- On a node without a fault nothing holds up a worker before it is back in its loop. -/
theorem worker_advances (calm : s.isNodeFaultBusy = false) (scheduled : s.scheduled cfg = true)
    (valid : cfg.hasChannel (.send topic) = true) (limited : cfg.limited (.send topic) = true)
    (away : s.pc (.worker topic) ≠ .idle) (running : s.pc (.worker topic) ≠ .stopped) :
    s.Advances cfg (.worker topic) := by
  cases at_pc : s.pc (.worker topic) with
  | flushing resume phase =>
      apply advances_flush at_pc
      intro done _
      cases resume with
      | job job =>
          rw [endRecovery, move_pc, Function.update_self]
          simp [Pc.work, Prod.Lex.toLex_lt_toLex]
  | unstarted =>
      refine ⟨s.startWorker cfg topic, ?_, ?_⟩
      · simp [nodeStep, at_pc, section?, scheduled, valid, limited]
      · rw [startWorker, move_pc, Function.update_self, at_pc]
        simp [Pc.work, Prod.Lex.toLex_lt_toLex]
  | entry job | check job | cleared job | notifyAll job =>
      have call : (s.pc (.worker topic)).job? = some job := by rw [at_pc]; rfl
      exact advances_job calm call (by rw [phases, at_pc]; rfl)
  | idle => exact absurd at_pc away
  | stopped => exact absurd at_pc running
  | notifyOne starter => rcases starter with impossible | impossible <;> cases impossible

/-- The monitor ends. -/
theorem monitor_advances (halted : s.Halted) (running : s.pc .monitor ≠ .stopped) :
    s.Advances cfg .monitor := by
  have loop : s.monitorLoop = .stopped := by simp [monitorLoop, halted.running]
  cases at_pc : s.pc .monitor with
  | idle =>
      refine ⟨s.move .monitor .stopped, ?_, ?_⟩
      · simp [nodeStep, at_pc, section?, loop]
      · rw [move_pc, Function.update_self, at_pc]
        simp [Pc.work, Prod.Lex.toLex_lt_toLex]
  | waitFault =>
      refine ⟨s.move .monitor .stopped, ?_, ?_⟩
      · simp [nodeStep, at_pc, section?, loop, halted.running]
      · rw [move_pc, Function.update_self, at_pc]
        simp [Pc.work, Prod.Lex.toLex_lt_toLex]
  | waitDeadline =>
      refine ⟨s.move .monitor .stopped, ?_, ?_⟩
      · simp [nodeStep, at_pc, section?, halted.running]
      · rw [move_pc, Function.update_self, at_pc]
        simp [Pc.work, Prod.Lex.toLex_lt_toLex]
  | flushing resume phase =>
      apply advances_flush at_pc
      intro done _
      cases resume with
      | job job => cases job
      | loop =>
          rw [endRecovery, move_pc, Function.update_self]
          simp [monitorLoop, halted.running, Pc.work, Prod.Lex.toLex_lt_toLex]
  | stopped => exact absurd at_pc running
  | notifyOne starter => rcases starter with impossible | impossible <;> cases impossible
  | entry job => cases job
  | check job => cases job
  | cleared job => cases job
  | notifyAll job => cases job

/-- No worker ends by the stop of the fault control. -/
theorem worker_ne_stopped (run : (bridgeNode cfg).Reachable s) (topic : ℕ) :
    s.pc (.worker topic) ≠ .stopped := by
  apply run.invariant (P := fun s => s.pc (.worker topic) ≠ .stopped)
  · rintro s ⟨now, rfl⟩
    simp [initial]
  · intro s action t _ before _ stepped
    have step : NodeStep cfg s action t := nodeStep_cases stepped
    by_cases own : action = .run (.worker topic)
    · subst own
      cases step with
      | quiet _ _ _ notWorker => exact absurd rfl (notWorker topic)
      | awaitTokens => exact before
      | _ => simp [beginRecovery, take, swapBuffers, startWorker]
    · rw [step.pc_worker own]
      exact before

end NodeState

/-! ## A thread that can step does -/

/-- A thread at this program counter moves by its own steps only. -/
def Pc.OwnSteps (cfg : BridgeConfig) {thread : Thread} (pc : Pc thread) : Prop :=
  ∀ s t action, NodeStep cfg s action t -> s.pc thread = pc -> action ≠ .run thread ->
    t.pc thread = pc

theorem Pc.ownSteps_of_busy {cfg : BridgeConfig} {thread : Thread} {pc : Pc thread}
    (busy : pc ≠ .idle) : pc.OwnSteps cfg :=
  fun _ _ _ step at_pc other => (step.pc_busy (at_pc ▸ busy) other).trans at_pc

/-- Only a worker in its loop looks at a queue. -/
theorem SendState.iterates_of_busy {c : SendState} {thread : Thread}
    (busy : c.node.pc thread ≠ .idle) : c.iterates (.run thread) = none := by
  cases thread with
  | worker topic => exact if_neg busy
  | _ => rfl

/-- A thread that has ended stays so. -/
theorem NodeState.stopped_step {cfg : BridgeConfig} {s t : NodeState} {action : Action}
    {thread : Thread} (stopped : s.pc thread = .stopped)
    (stepped : nodeStep cfg s action = some t) : t.pc thread = .stopped := by
  have busy : s.pc thread ≠ .idle := by
    simp [stopped]
  refine ((nodeStep_cases stepped).pc_busy busy ?_).trans stopped
  rintro rfl
  rw [nodeStep, stopped] at stepped
  cases thread <;> cases stepped

/-! ## The closed sockets -/

namespace SendStep

variable {cfg : BridgeConfig} {c d : SendState} {action : SendAction} {topic : ℕ} {thread : Thread}

theorem closed_kept (step : SendStep cfg c action d) (closed : c.hasClosed topic = true) :
    d.hasClosed topic = true := by
  cases step with
  | faultStopped spinning =>
      rw [SendState.hasClosed, spinning] at closed
      cases closed
  | closed => rfl
  | flagCleared at_main =>
      rw [SendState.hasClosed, at_main] at closed
      exact closed
  | skipped at_main | joined at_main =>
      rw [SendState.hasClosed, at_main] at closed
      exact decide_eq_true ((of_decide_eq_true closed).trans (Nat.lt_succ_self _))
  | _ => exact closed

/-- The own step of a thread does not send on a closed socket. -/
theorem open_of_run (step : SendStep cfg c (.node (.run thread)) d) :
    c.writesClosed cfg thread = false := by
  cases step with
  | moved _ _ _ open_ => exact open_ thread rfl

theorem ended_of_throws (step : SendStep cfg c (.throws thread) d) : d.ended = true := by
  cases step
  rfl

end SendStep

namespace SendState

variable {cfg : BridgeConfig} {c : SendState} {topic : ℕ} {thread : Thread}

theorem writesClosed_iff : c.writesClosed cfg thread = true ↔
    ∃ topic, (c.node.pc thread).writes cfg = some topic ∧ c.hasClosed topic = true := by
  unfold writesClosed
  cases (c.node.pc thread).writes cfg with
  | none => simp
  | some topic => simp

theorem spun_of_closed (closed : c.hasClosed topic = true) : c.main ≠ .spinning := by
  intro spinning
  rw [hasClosed, spinning] at closed
  cases closed

theorem spun_of_writes (writes : c.writesClosed cfg thread = true) : c.main ≠ .spinning := by
  rcases writesClosed_iff.mp writes with ⟨topic, -, closed⟩
  exact spun_of_closed closed

/-- `main` does not come to the send topics before the monitor has ended. -/
theorem ends_of_spun (run : (sendNode cfg).Reachable c) (spun : c.main ≠ .spinning) :
    c.node.pc .ros = .stopped ∧ c.node.pc .monitor = .stopped := by
  apply run.invariant (P := fun c => c.main ≠ .spinning ->
    c.node.pc .ros = .stopped ∧ c.node.pc .monitor = .stopped) _ _ spun
  · rintro c ⟨now, rfl⟩ spun
    exact absurd rfl spun
  · intro c action d _ ends _ stepped spun
    cases sendStep_cases stepped with
    | moved _ _ moves =>
        exact ⟨NodeState.stopped_step (ends spun).1 moves, NodeState.stopped_step (ends spun).2 moves⟩
    | faultStopped _ _ ros monitor => exact ⟨ros, monitor⟩
    | closed at_main | flagCleared at_main | skipped at_main | joined at_main =>
        exact ends (by rw [at_main]; exact MainPc.noConfusion)
    | _ => exact ends spun

end SendState

namespace FairSend

variable {cfg : BridgeConfig} {origin : SendState} {topic n m : ℕ} {thread : Thread}
  {trace : (sendNode cfg).Trace (fun _ _ => True) origin}

theorem closed_stays (closed : (trace.state n).hasClosed topic = true) (after : n ≤ m) :
    (trace.state m).hasClosed topic = true := by
  induction m, after using Nat.le_induction with
  | base => exact closed
  | succ m after ih => exact (step trace m).closed_kept ih

theorem halted (fair : FairSend trace) (stopped : (trace.state n).node.nodeFaultThreadRunning = false)
    (after : n ≤ m) : (trace.state m).node.Halted := by
  induction m, after using Nat.le_induction with
  | base => exact .of_reachable (sendNode_refines (fair.reaches n)) stopped
  | succ m after ih =>
      rcases (step trace m).node with same | ⟨action, stepped⟩
      · rw [same]
        exact ih
      · exact ih.step stepped

/-- A step of the node is one of its own. -/
theorem node_step {action : Action} (own : trace.action n = .node action) :
    nodeStep cfg (trace.state n).node action = some (trace.state (n + 1)).node := by
  have step := step trace n
  rw [own] at step
  generalize trace.state (n + 1) = after at step
  cases step with
  | moved _ _ moves => exact moves

/-- The own step of a thread is the next section of the node. -/
theorem own_step {t : NodeState} (own : trace.action n = .node (.run thread))
    (stepped : nodeStep cfg (trace.state n).node (.run thread) = some t) :
    (trace.state (n + 1)).node = t :=
  Option.some.inj ((node_step own).symm.trans stepped)

variable {pc : Pc thread}

theorem stays_put (alone : pc.OwnSteps cfg) (at_pc : (trace.state m).node.pc thread = pc)
    (other : trace.action m ≠ .node (.run thread)) :
    (trace.state (m + 1)).node.pc thread = pc := by
  have step := step trace m
  generalize trace.action m = action at step other
  generalize trace.state (m + 1) = after at step
  cases step with
  | moved _ _ stepped =>
      exact alone _ _ _ (nodeStep_cases stepped) at_pc fun own => other (congrArg _ own)
  | _ => exact at_pc

/-- A thread makes the call that it owes, if it does not step before. -/
theorem pays_or_steps (fair : FairSend trace) (alone : pc.OwnSteps cfg)
    (at_pc : (trace.state n).node.pc thread = pc) :
    ∃ m, n ≤ m ∧ (trace.state m).node.pc thread = pc ∧
      ((trace.state m).owes thread = none ∨ trace.action m = .node (.run thread)) := by
  cases owed : (trace.state n).owes thread with
  | none => exact ⟨n, le_rfl, at_pc, .inl owed⟩
  | some topic =>
      have waits : ∀ m, (trace.state m).owes thread = some topic ->
          trace.action m ≠ .node (.run thread) := by
        intro m owed own
        have step := step trace m
        rw [own] at step
        rw [step.paid_of_run] at owed
        cases owed
      have pays : ∀ m, (trace.state m).node.pc thread = pc ∧
          (trace.state m).owes thread = some topic -> trace.action m = .notify thread ->
          (trace.state (m + 1)).node.pc thread = pc ∧
            (trace.state (m + 1)).owes thread = none := by
        rintro m ⟨at_pc, owed⟩ calls
        refine ⟨stays_put alone at_pc (waits m owed), ?_⟩
        have step := step trace m
        rw [calls] at step
        exact step.paid_of_notify
      have comes : ∃ m, n ≤ m ∧ ((trace.state (m + 1)).node.pc thread = pc ∧
          (trace.state (m + 1)).owes thread = none) := by
        refine Machine.Trace.leads_to (P := fun m => (trace.state m).node.pc thread = pc ∧
          (trace.state m).owes thread = some topic) (fair.fair (.notify thread) rfl) ?_ ?_ pays
          ⟨at_pc, owed⟩
        · rintro m ⟨-, owed⟩
          simp [sendNode, sendStep_of_alive (alive trace m), SendState.liveStep, owed]
        · intro m now
          by_cases calls : trace.action m = .notify thread
          · exact .inr (pays m now calls)
          · exact .inl ⟨stays_put alone now.1 (waits m now.2),
              (step trace m).owes_kept now.2 calls⟩
      rcases comes with ⟨m, after, at_pc, paid⟩
      exact ⟨m + 1, by omega, at_pc, .inl paid⟩

/-- A thread that owes no call owes none before its next step. -/
theorem stays_paid (alone : pc.OwnSteps cfg)
    (main : thread = .ros -> (trace.state (m + 1)).main = (trace.state m).main)
    (now : (trace.state m).node.pc thread = pc ∧ (trace.state m).owes thread = none)
    (other : trace.action m ≠ .node (.run thread)) :
    (trace.state (m + 1)).node.pc thread = pc ∧ (trace.state (m + 1)).owes thread = none := by
  refine ⟨stays_put alone now.1 other, ?_⟩
  rcases (step trace m).paid_kept now.2 other with paid | ⟨ros, moved⟩
  · exact paid
  · exact absurd (main ros) moved

/-- No thread comes to send on a closed socket: it would do so in a fair run, and the process
would end. -/
theorem open_ (fair : FairSend trace) (n : ℕ) (thread : Thread) :
    (trace.state n).writesClosed cfg thread = false := by
  by_contra writes
  rw [Bool.not_eq_false] at writes
  have busy : (trace.state n).node.pc thread ≠ .idle := by
    intro idle
    rw [SendState.writesClosed, idle] at writes
    cases writes
  have alone : ((trace.state n).node.pc thread).OwnSteps cfg := Pc.ownSteps_of_busy busy
  have stays : ∀ m, n ≤ m -> (trace.state m).node.pc thread = (trace.state n).node.pc thread ->
      (trace.state m).writesClosed cfg thread = true := by
    intro m after at_pc
    rcases SendState.writesClosed_iff.mp writes with ⟨topic, next, closed⟩
    exact SendState.writesClosed_iff.mpr
      ⟨topic, by rw [at_pc]; exact next, closed_stays closed after⟩
  have notRos : thread ≠ .ros := by
    rintro rfl
    have stopped := (SendState.ends_of_spun (fair.reaches n) (SendState.spun_of_writes writes)).1
    rw [SendState.writesClosed, stopped] at writes
    cases writes
  rcases fair.pays_or_steps alone rfl with ⟨k, after, at_pc, paid | taken⟩
  · have throws : ∃ m, k ≤ m ∧ trace.action m = .throws thread := by
      refine Machine.Trace.leads_to (P := fun m => n ≤ m ∧
        (trace.state m).node.pc thread = (trace.state n).node.pc thread ∧
        (trace.state m).owes thread = none) (fair.fair (.throws thread) rfl) ?_ ?_
        (fun _ _ own => own) ⟨after, at_pc, paid⟩
      · rintro m ⟨after, at_pc, paid⟩
        simp [sendNode, sendStep_of_alive (alive trace m), SendState.liveStep, paid,
          stays m after at_pc]
      · rintro m ⟨after, now⟩
        have waits : trace.action m ≠ .node (.run thread) := by
          intro own
          have step := step trace m
          rw [own] at step
          exact Bool.noConfusion ((stays m after now.1).symm.trans step.open_of_run)
        exact .inl ⟨by omega, stays_paid alone (fun ros => absurd ros notRos) now waits⟩
    rcases throws with ⟨m, -, throws⟩
    have step := step trace m
    rw [throws] at step
    exact Bool.noConfusion ((alive trace (m + 1)).symm.trans step.ended_of_throws)
  · have step := step trace k
    rw [taken] at step
    exact Bool.noConfusion ((stays k after at_pc).symm.trans step.open_of_run)

/-- A thread that owes no call, and whose step the node allows, can take it. -/
theorem enabled_of_paid {c : SendState} (alive : c.ended = false)
    (open_ : c.writesClosed cfg thread = false) (awake : c.iterates (.run thread) = none)
    (paid : c.owes thread = none) (enabled : nodeStep cfg c.node (.run thread) ≠ none) :
    (sendNode cfg).step c (.node (.run thread)) ≠ none := by
  rcases Option.ne_none_iff_exists'.mp enabled with ⟨t, stepped⟩
  have runnable : c.runnable cfg (.run thread) = true := by
    simp [SendState.runnable, Action.thread?, paid, open_, awake]
  simp [sendNode, sendStep_of_alive alive, SendState.liveStep, runnable, stepped]

/-- A thread that stays where it is until it steps, and can step there, does, once it has
made the call it owes. -/
theorem takes_step (fair : FairSend trace) (alone : pc.OwnSteps cfg)
    (awake : ∀ c : SendState, c.node.pc thread = pc -> c.iterates (.run thread) = none)
    (enabled : ∀ m, n ≤ m -> (trace.state m).node.pc thread = pc ->
      nodeStep cfg (trace.state m).node (.run thread) ≠ none)
    (main : thread = .ros -> ∀ m, n ≤ m -> (trace.state (m + 1)).main = (trace.state m).main)
    (at_pc : (trace.state n).node.pc thread = pc) :
    ∃ m, n ≤ m ∧ (trace.state m).node.pc thread = pc ∧ trace.action m = .node (.run thread) := by
  rcases fair.pays_or_steps alone at_pc with ⟨k, after, at_pc, paid | taken⟩
  · have takes : ∃ m, k ≤ m ∧ ((trace.state m).node.pc thread = pc ∧
        trace.action m = .node (.run thread)) := by
      refine Machine.Trace.leads_to (P := fun m => n ≤ m ∧ (trace.state m).node.pc thread = pc ∧
        (trace.state m).owes thread = none) (fair.fair (.node (.run thread)) rfl) ?_ ?_ ?_
        ⟨after, at_pc, paid⟩
      · rintro m ⟨after, at_pc, paid⟩
        exact enabled_of_paid (alive trace m) (fair.open_ m thread) (awake _ at_pc) paid
          (enabled m after at_pc)
      · rintro m ⟨after, now⟩
        by_cases own : trace.action m = .node (.run thread)
        · exact .inr ⟨now.1, own⟩
        · exact .inl ⟨by omega, stays_paid alone (fun ros => main ros m after) now own⟩
      · exact fun m now own => ⟨now.2.1, own⟩
    rcases takes with ⟨m, later, goal⟩
    exact ⟨m, after.trans later, goal⟩
  · exact ⟨k, after, at_pc, taken⟩

/-- With strong fairness it is enough that the node allows the step again and again. -/
theorem takes_step_again (fair : FairSend trace) (alone : pc.OwnSteps cfg)
    (strong : trace.StrongFair (.node (.run thread)))
    (awake : ∀ c : SendState, c.node.pc thread = pc -> c.iterates (.run thread) = none)
    (again : ∀ m, n ≤ m -> ∃ k, m ≤ k ∧ ((trace.state k).node.pc thread = pc ->
      nodeStep cfg (trace.state k).node (.run thread) ≠ none))
    (main : thread = .ros -> ∀ m, n ≤ m -> (trace.state (m + 1)).main = (trace.state m).main)
    (at_pc : (trace.state n).node.pc thread = pc) :
    ∃ m, n ≤ m ∧ (trace.state m).node.pc thread = pc ∧ trace.action m = .node (.run thread) := by
  rcases fair.pays_or_steps alone at_pc with ⟨k, after, at_pc, paid | taken⟩
  · have takes : ∃ m, k ≤ m ∧ ((trace.state m).node.pc thread = pc ∧
        (trace.state m).owes thread = none) ∧ trace.action m = .node (.run thread) := by
      refine strong.taken ?_ ?_ ⟨at_pc, paid⟩
      · intro m later
        rcases again m (by omega) with ⟨j, onward, enabled⟩
        exact ⟨j, onward, fun now => enabled_of_paid (alive trace j) (fair.open_ j thread)
          (awake _ now.1) now.2 (enabled now.1)⟩
      · exact fun m later now other => stays_paid alone (fun ros => main ros m (after.trans later)) now other
    rcases takes with ⟨m, later, now, own⟩
    exact ⟨m, after.trans later, now.1, own⟩
  · exact ⟨k, after, at_pc, taken⟩

/-- A thread whose every step leaves less work comes to its last program counter. -/
theorem finishes (fair : FairSend trace) {rest : Pc thread} (notRos : thread ≠ .ros)
    (unread : ∀ channel : Channel, channel.reader ≠ thread) (asked : thread ≠ .control)
    (awake : ∀ c : SendState, c.node.pc thread ≠ rest -> c.iterates (.run thread) = none)
    (advances : ∀ m, n ≤ m -> (trace.state m).node.pc thread ≠ rest ->
      (trace.state m).node.Advances cfg thread) :
    ∃ m, n ≤ m ∧ (trace.state m).node.pc thread = rest := by
  by_cases now : (trace.state n).node.pc thread = rest
  · exact ⟨n, le_rfl, now⟩
  · refine Machine.Trace.leads_to_of_descent
      (P := fun m => n ≤ m ∧ (trace.state m).node.pc thread ≠ rest)
      (fun m => ((trace.state m).node.pc thread).work) ?_ ⟨le_rfl, now⟩
    rintro m ⟨after, away⟩
    have steps : ∃ k, m ≤ k ∧ (trace.state k).node.pc thread = (trace.state m).node.pc thread ∧
        trace.action k = .node (.run thread) := by
      apply fair.takes_step _ _ _ _ rfl
      · exact fun _ _ _ step at_pc other => (step.pc_unread unread asked other).trans at_pc
      · exact fun c at_pc => awake c (at_pc ▸ away)
      · intro k later at_pc
        rcases advances k (by omega) (at_pc ▸ away) with ⟨t, stepped, -⟩
        rw [stepped]
        exact Option.some_ne_none t
      · exact fun ros => absurd ros notRos
    rcases steps with ⟨k, later, at_pc, own⟩
    rcases advances k (by omega) (at_pc ▸ away) with ⟨t, stepped, lower⟩
    have next : (trace.state (k + 1)).node = t := own_step own stepped
    rw [← next, at_pc] at lower
    refine ⟨k + 1, by omega, ?_⟩
    by_cases done : (trace.state (k + 1)).node.pc thread = rest
    · exact .inr done
    · exact .inl ⟨⟨by omega, done⟩, lower⟩

/-- The monitor ends. -/
theorem monitor_stops (fair : FairSend trace)
    (stopped : (trace.state n).node.nodeFaultThreadRunning = false) :
    ∃ m, n ≤ m ∧ (trace.state m).node.pc .monitor = .stopped := by
  apply fair.finishes (by decide) _ (by decide) (fun _ _ => rfl)
  · intro m after running
    exact NodeState.monitor_advances (fair.halted stopped after) running
  · intro channel
    cases channel <;> exact Thread.noConfusion

/-- A worker that is in the middle of a message, or has still to start, comes to its loop. -/
theorem worker_loops (fair : FairSend trace)
    (stopped : (trace.state n).node.nodeFaultThreadRunning = false)
    (valid : cfg.hasChannel (.send topic) = true) (limited : cfg.limited (.send topic) = true) :
    ∃ m, n ≤ m ∧ (trace.state m).node.pc (.worker topic) = .idle := by
  apply fair.finishes Thread.noConfusion _ Thread.noConfusion
  · intro c away
    exact if_neg away
  · intro m after away
    have reached := sendNode_refines (fair.reaches m)
    have halted := fair.halted stopped after
    have calm : (trace.state m).node.isNodeFaultBusy = false :=
      Bool.or_eq_false_iff.mpr ⟨halted.inactive, halted.settled⟩
    exact NodeState.worker_advances calm
      (NodeState.scheduled_of_halted reached halted.running) valid limited away
      (NodeState.worker_ne_stopped reached topic)
  · intro channel
    cases channel <;> exact Thread.noConfusion

theorem flag_cleared (flag : (trace.state n).flags topic = false) (after : n ≤ m) :
    (trace.state m).flags topic = false := by
  induction m, after using Nat.le_induction with
  | base => exact flag
  | succ m after ih => exact (step trace m).flag_kept ih

/-- A worker whose flag is cleared returns: it finishes its message, is woken if it sleeps,
and does not go to sleep again. -/
theorem worker_returns (fair : FairSend trace)
    (stopped : (trace.state n).node.nodeFaultThreadRunning = false)
    (valid : cfg.hasChannel (.send topic) = true) (limited : cfg.limited (.send topic) = true)
    (flag : (trace.state n).flags topic = false) :
    ∃ m, n ≤ m ∧ (trace.state m).returned topic = true := by
  rcases fair.worker_loops stopped valid limited with ⟨k, after, loop⟩
  have cleared := flag_cleared flag after
  have loops : ∀ m, k ≤ m -> (trace.state m).node.pc (.worker topic) = .idle := by
    intro m later
    induction m, later using Nat.le_induction with
    | base => exact loop
    | succ m later ih => exact (step trace m).idle_kept ih (flag_cleared cleared later)
  have woken : ∃ m, k ≤ m ∧ (trace.state m).asleep topic = none := by
    by_cases awake : (trace.state k).asleep topic = none
    · exact ⟨k, le_rfl, awake⟩
    · rcases fair.pays ((fair.attended k).flag topic awake cleared) with ⟨m, later, owed, calls⟩
      have step := step trace m
      rw [calls] at step
      exact ⟨m + 1, by omega, step.awake_of_notify owed⟩
  rcases woken with ⟨j, later, awake⟩
  by_cases returned : (trace.state j).returned topic = true
  · exact ⟨j, by omega, returned⟩
  have leaves : ∃ m, j ≤ m ∧ (trace.state (m + 1)).returned topic = true := by
    refine Machine.Trace.leads_to (P := fun m => j ≤ m ∧ (trace.state m).asleep topic = none ∧
      (trace.state m).returned topic = false) (fair.fair (.leave topic) rfl) ?_ ?_ ?_
      ⟨le_rfl, awake, Bool.eq_false_iff.mpr returned⟩
    · rintro m ⟨after, awake, present⟩
      have idle := loops m (by omega)
      have loop : (trace.state m).looping topic = true :=
        SendState.looping_iff.mpr ⟨idle, awake, present, (fair.attended m).paid topic idle⟩
      have flag := flag_cleared cleared (m := m) (by omega)
      simp [sendNode, sendStep_of_alive (alive trace m), SendState.liveStep, loop, flag]
    · rintro m ⟨after, awake, present⟩
      by_cases back : (trace.state (m + 1)).returned topic = true
      · exact .inr back
      · refine .inl ⟨by omega, ?_, Bool.eq_false_iff.mpr back⟩
        exact (step trace m).awake_kept awake (flag_cleared cleared (by omega))
    · rintro m _ own
      have step := step trace m
      rw [own] at step
      exact step.returned_of_leave
  rcases leaves with ⟨m, after, returned⟩
  exact ⟨m + 1, by omega, returned⟩

end FairSend

end SwarmBridge
