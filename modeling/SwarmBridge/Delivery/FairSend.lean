import SwarmBridge.Delivery.WorkerWakeups
import SwarmBridge.SimComm.Routing
import SwarmBridge.Foundation.Fairness
import Mathlib.Algebra.Order.Archimedean.Basic
import Mathlib.Tactic.MkIffOfInductiveProp

namespace SwarmBridge

open Foundation

/-!
# Fair runs of the node with the condition variables of its queues

A fair run passes over no thread for ever that can step.  Its sleeping workers are woken,
because the calls of `notify_one` that are owed are made and the limit of `wait_for` is
over at some time.  It is infinite, so the process does not end in it: no thread comes to
send on a closed socket.
-/

/-- The steps that a fair run takes when they stay enabled: those of the threads, and the
end of the limit of `wait_for`. -/
def SendAction.prompt : SendAction -> Bool
  | .node (.run _) => true
  | .notify _ => true
  | .timeout _ => true
  | .leave _ => true
  | .main => true
  | .throws _ => true
  | _ => false

/-- An infinite run in which no thread is passed over for ever while it can step, and every
`wait_for` times out. -/
structure FairSend {cfg : BridgeConfig} {origin : SendState}
    (trace : (sendNode cfg).Trace (fun _ _ => True) origin) : Prop where
  reached : (sendNode cfg).Reachable origin
  fair : ∀ action : SendAction, action.prompt = true -> trace.Fair action

namespace FairSend

variable {cfg : BridgeConfig} {origin : SendState} {topic : ℕ} {thread : Thread} {n : ℕ}
  {trace : (sendNode cfg).Trace (fun _ _ => True) origin}

theorem reaches (fair : FairSend trace) (n : ℕ) : (sendNode cfg).Reachable (trace.state n) := by
  rcases fair.reached with ⟨first, initial, path⟩
  exact ⟨first, initial, path.trans (trace.path n)⟩

theorem attended (fair : FairSend trace) (n : ℕ) : Attended (trace.state n) :=
  .of_reachable (fair.reaches n)

theorem step (trace : (sendNode cfg).Trace (fun _ _ => True) origin) (n : ℕ) :
    SendStep cfg (trace.state n) (trace.action n) (trace.state (n + 1)) :=
  sendStep_cases (trace.steps n)

/-- The process does not end in an infinite run. -/
theorem alive (trace : (sendNode cfg).Trace (fun _ _ => True) origin) (n : ℕ) :
    (trace.state n).ended = false :=
  alive_of_step (trace.steps n)

/-- A call that is owed is made. -/
theorem pays (fair : FairSend trace) (owed : (trace.state n).owes thread = some topic) :
    ∃ m, n ≤ m ∧ (trace.state m).owes thread = some topic ∧ trace.action m = .notify thread := by
  refine Machine.Trace.leads_to (P := fun m => (trace.state m).owes thread = some topic)
    (fair.fair (.notify thread) rfl) ?_ ?_ ?_ owed
  · intro m owes
    simp [sendNode, sendStep_of_alive (alive trace m), SendState.liveStep, owes]
  · intro m owes
    by_cases own : trace.action m = .notify thread
    · exact .inr ⟨owes, own⟩
    · exact .inl ((step trace m).owes_kept owes own)
  · exact fun m owes own => ⟨owes, own⟩

end FairSend

/-! ## A node that has come to rest -/

/-- The process has not ended, and no thread has a step, whatever the clock shows. -/
structure SendState.Resting (cfg : BridgeConfig) (c : SendState) : Prop where
  alive : c.ended = false
  still : ∀ time (action : SendAction), action.prompt = true ->
    sendStep cfg { c with node := { c.node with now := time } } action = none

/-- A node at rest, with the clock going on by itself. -/
def restingSend (cfg : BridgeConfig) (c : SendState) (alive : c.ended = false) :
    (sendNode cfg).Trace (fun _ _ => True) c where
  state n := { c with node := { c.node with now := c.node.now + n } }
  action n := .node (.advance (c.node.now + n + 1))
  begins := by simp
  allowed _ := trivial
  steps n := by
    simp [sendNode, sendStep, SendState.liveStep, alive, SendState.runnable, SendState.iterates,
      Action.thread?, nodeStep, SendState.asleepAfter, SendState.owesAfter, add_assoc]

/-- A run that comes to rest can be continued to a fair one, in which the clock passes
every time, and in the end nothing else changes. -/
theorem FairSend.exists_of_path {cfg : BridgeConfig} {origin c : SendState}
    (reached : (sendNode cfg).Reachable origin)
    (path : (sendNode cfg).Path (fun _ _ => True) origin c) (resting : c.Resting cfg) :
    ∃ trace : (sendNode cfg).Trace (fun _ _ => True) origin,
      FairSend trace ∧ (∀ time, ∃ n, time ≤ (trace.state n).node.now) ∧
        ∃ rest, ∀ n, rest ≤ n -> ∃ time,
          trace.state n = { c with node := { c.node with now := time } } := by
  rcases path.extend (restingSend cfg c resting.alive) with ⟨trace, fair, shift, same⟩
  refine ⟨trace, ⟨reached, ?_⟩, ?_, shift, ?_⟩
  · intro action prompt
    apply fair
    exact fun n => ⟨n, le_rfl, .inr (resting.still _ action prompt)⟩
  · intro time
    rcases exists_nat_ge (time - c.node.now) with ⟨n, large⟩
    refine ⟨n + shift, ?_⟩
    rw [same]
    exact sub_le_iff_le_add'.mp large
  · intro n after
    have still := same (n - shift)
    rw [Nat.sub_add_cancel after] at still
    exact ⟨c.node.now + (n - shift : ℕ), still⟩

/-- A thread whose program counter never lets it append owes no call. -/
theorem SendState.paid_of_reachable {cfg : BridgeConfig} {c : SendState} {thread : Thread}
    (run : (sendNode cfg).Reachable c) (notRos : thread ≠ .ros)
    (silent : ∀ s, (bridgeNode cfg).Reachable s -> s.enqueues cfg thread = none) :
    c.owes thread = none := by
  apply run.invariant (P := fun c => c.owes thread = none)
  · rintro c ⟨now, rfl⟩
    rfl
  · intro c action d reached paid _ stepped
    have step : SendStep cfg c action d := sendStep_cases stepped
    by_cases own : action = .node (.run thread)
    · subst own
      cases step with
      | moved =>
          exact (SendState.owesAfter_run thread).trans (silent c.node (sendNode_refines reached))
    · exact (step.paid_kept paid own).resolve_right fun moved => notRos moved.1

/-- A receive thread between two calls owes none. -/
theorem SendState.paid_of_idle {cfg : BridgeConfig} {c : SendState} {topic : ℕ}
    (run : (sendNode cfg).Reachable c) (idle : c.node.pc (.recv topic) = .idle) :
    c.owes (.recv topic) = none := by
  apply run.invariant (P := fun c => c.node.pc (.recv topic) = .idle -> c.owes (.recv topic) = none)
    _ _ idle
  · rintro c ⟨now, rfl⟩ -
    rfl
  · intro c action d _ paid _ stepped after
    have step : SendStep cfg c action d := sendStep_cases stepped
    by_cases own : action = .node (.run (.recv topic))
    · subst own
      cases step with
      | moved _ _ moves =>
          refine (SendState.owesAfter_run (.recv topic)).trans ?_
          cases enqueues : c.node.enqueues cfg (.recv topic) with
          | none => rfl
          | some other =>
              exact absurd after (NodeState.busy_of_enqueues Thread.noConfusion enqueues moves)
    · have before : c.node.pc (.recv topic) = .idle := by
        by_contra busy
        cases step with
        | moved _ _ moves =>
            have kept := (nodeStep_cases moves).pc_busy busy fun same => own (congrArg _ same)
            exact busy (kept ▸ after)
        | _ => exact busy after
      exact (step.paid_kept (paid before) own).resolve_right fun moved => by cases moved.1

/-- What can be checked of a node with one limited send topic: its threads are between two calls
or have come to their end, and its worker sleeps on an empty queue or has returned. -/
@[mk_iff] structure SendState.Idles (c : SendState) : Prop where
  alive : c.ended = false
  ros : c.node.pc .ros = .idle ∨ c.node.pc .ros = .stopped
  control : c.node.pc .control = .idle ∨ c.node.pc .control = .stopped
  startup : c.node.pc .startup = .idle
  monitor : c.node.pc .monitor = .stopped ∨ (c.node.pc .monitor = .waitFault ∧
    c.node.nodeFaultThreadRunning = true ∧ c.node.nodeFaultActive = false)
  loop : c.node.pc (.worker 0) = .idle
  away : c.looping 0 = false
  limit : c.asleep 0 ≠ some .forTokens
  paid : c.owes .ros = none ∧ c.owes .control = none ∧ c.owes .startup = none ∧
    c.owes .monitor = none
  main : c.main = .closed ∨ (c.main = .spinning ∧ c.node.pc .ros = .idle)

instance (c : SendState) : Decidable c.Idles := decidable_of_iff' _ c.idles_iff

/-- No thread of such a node has a step when its receive threads are between two calls. -/
theorem idles_resting {cfg : BridgeConfig} {c : SendState} (run : (sendNode cfg).Reachable c)
    (single : ∀ topic, topic ≠ 0 -> cfg.limited (.send topic) = false)
    (receivers : ∀ topic, c.node.pc (.recv topic) = .idle) (idles : c.Idles) :
    c.Resting cfg := by
  have attended := Attended.of_reachable run
  have unstarted : ∀ topic, topic ≠ 0 -> ∀ s, (bridgeNode cfg).Reachable s ->
      s.pc (.worker topic) = .unstarted :=
    fun topic other s reached => NodeState.unstarted_of_reaches (single topic other) reached
  have others : ∀ topic, topic ≠ 0 -> c.node.pc (.worker topic) ≠ .idle := by
    intro topic other idle
    rw [unstarted topic other c.node (sendNode_refines run)] at idle
    cases idle
  have settled : ∀ thread, c.owes thread = none := by
    intro thread
    cases thread with
    | ros => exact idles.paid.1
    | control => exact idles.paid.2.1
    | startup => exact idles.paid.2.2.1
    | monitor => exact idles.paid.2.2.2
    | recv topic => exact SendState.paid_of_idle run (receivers topic)
    | worker topic =>
        by_cases first : topic = 0
        · subst first
          exact attended.paid 0 idles.loop
        · apply SendState.paid_of_reachable run Thread.noConfusion
          intro s reached
          simp [NodeState.enqueues, unstarted topic first s reached]
  have silent : ∀ thread, (c.node.pc thread).writes cfg = none := by
    intro thread
    cases thread with
    | ros => rcases idles.ros with at_ros | at_ros <;> rw [at_ros] <;> rfl
    | control => rcases idles.control with at_control | at_control <;> rw [at_control] <;> rfl
    | startup => rw [idles.startup]; rfl
    | monitor => rcases idles.monitor with at_monitor | ⟨at_monitor, -, -⟩ <;> rw [at_monitor] <;> rfl
    | recv topic => rw [receivers topic]; rfl
    | worker topic =>
        by_cases first : topic = 0
        · rw [first, idles.loop]
          rfl
        · rw [unstarted topic first c.node (sendNode_refines run)]
          rfl
  refine ⟨idles.alive, fun time action prompt => ?_⟩
  have alive : SendState.ended { c with node := { c.node with now := time } } = false := idles.alive
  rw [sendStep_of_alive alive]
  cases action with
  | node action =>
      cases action with
      | run thread =>
          cases thread with
          | ros => rcases idles.ros with at_ros | at_ros <;>
              simp [SendState.liveStep, nodeStep, NodeState.section?, at_ros]
          | control => rcases idles.control with at_control | at_control <;>
              simp [SendState.liveStep, nodeStep, NodeState.section?, at_control]
          | startup => simp [SendState.liveStep, nodeStep, NodeState.section?, idles.startup]
          | monitor =>
              rcases idles.monitor with at_monitor | ⟨at_monitor, running, inactive⟩
              · simp [SendState.liveStep, nodeStep, NodeState.section?, at_monitor]
              · simp [SendState.liveStep, nodeStep, NodeState.section?, at_monitor, running, inactive]
          | recv topic =>
              simp [SendState.liveStep, nodeStep, NodeState.section?, receivers topic]
          | worker topic =>
              by_cases first : topic = 0
              · subst first
                have blocked : SendState.looping { c with node := { c.node with now := time } } 0 =
                    false := idles.away
                simp [SendState.liveStep, SendState.runnable, SendState.iterates, idles.loop, blocked]
              · simp [SendState.liveStep, nodeStep, NodeState.section?, single topic first,
                  unstarted topic first c.node (sendNode_refines run)]
      | _ => cases prompt
  | notify thread => simp [SendState.liveStep, settled thread]
  | timeout topic =>
      have short : c.asleep topic ≠ some .forTokens := by
        by_cases first : topic = 0
        · rw [first]
          exact idles.limit
        · intro sleeps
          apply others topic first
          apply attended.loop topic
          rw [sleeps]
          exact Option.some_ne_none _
      simp [SendState.liveStep, short]
  | leave topic =>
      have blocked : SendState.looping { c with node := { c.node with now := time } } topic =
          false := by
        by_cases first : topic = 0
        · rw [first]
          exact idles.away
        · simp [SendState.looping, others topic first]
      simp [SendState.liveStep, blocked]
  | main =>
      rcases idles.main with closed | ⟨spinning, at_ros⟩
      · simp [SendState.liveStep, SendState.mainStep, closed]
      · simp [SendState.liveStep, SendState.mainStep, spinning, at_ros]
  | throws thread => simp [SendState.liveStep, SendState.writesClosed, silent thread]
  | wait topic => cases prompt
  | spurious topic => cases prompt

/-- No thread of such a node has a step when it has no receive topic. -/
theorem lone_resting {cfg : BridgeConfig} {c : SendState} (run : (sendNode cfg).Reachable c)
    (single : ∀ topic, topic ≠ 0 -> cfg.limited (.send topic) = false)
    (absent : ∀ topic, cfg.hasChannel (.recv topic) = false) (idles : c.Idles) :
    c.Resting cfg :=
  idles_resting run single
    (fun topic => NodeState.idle_of_reaches (absent topic) (sendNode_refines run)) idles

theorem slow_single (topic : ℕ) (other : topic ≠ 0) : slowConfig.limited (.send topic) = false := by
  cases topic with
  | zero => exact absurd rfl other
  | succ topic => rfl

theorem slow_absent (topic : ℕ) : slowConfig.hasChannel (.recv topic) = false := rfl

end SwarmBridge
