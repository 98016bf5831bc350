import SwarmBridge.Recovery.Shutdown

namespace SwarmBridge

open Foundation

/-!
# The loop of `main` over the send topics

After the stop of the fault control `main` joins the monitor and calls `stop_send` for one
send topic after the other: it clears the flag of the worker, joins it, and closes the
socket.  A fair run comes to the end of the loop.  A thread that is still in a flush may
come to a socket that is closed already, and end the process before that.
-/

/-! ## Where `main` is -/

namespace MainPc

/-- A bound on the steps that `main` has still to take. -/
def left (count : ℕ) : MainPc -> ℕ
  | .spinning => 2 * count + 2
  | .stopSend topic => 2 * (count - topic) + 1
  | .join topic => 2 * (count - topic)
  | .closed => 0

end MainPc

theorem SendStep.returned_kept {cfg : BridgeConfig} {c d : SendState} {action : SendAction}
    {topic : ℕ} (step : SendStep cfg c action d) (returned : c.returned topic = true) :
    d.returned topic = true := by
  cases step with
  | @left other =>
      show Function.update c.returned other true topic = true
      by_cases same : topic = other
      · rw [same, Function.update_self]
      · rwa [Function.update_of_ne same]
  | _ => exact returned

/-- The flags of the workers are cleared and the sockets closed in the order of the topics,
and the socket of a limited topic is closed after its worker has returned. -/
structure Stopping (cfg : BridgeConfig) (c : SendState) : Prop where
  joins : ∀ topic, c.main = .join topic ->
    topic < cfg.sendTopics.length ∧ cfg.limited (.send topic) = true ∧ c.flags topic = false
  returned : ∀ topic, c.hasClosed topic = true -> topic < cfg.sendTopics.length ->
    cfg.limited (.send topic) = true -> c.returned topic = true
  cleared : ∀ topic, c.flags topic = false -> c.hasClosed topic = true ∨ c.main = .join topic

namespace Stopping

variable {cfg : BridgeConfig} {c d : SendState} {action : SendAction}

theorem initial (now : ℚ) : Stopping cfg (SendState.initial cfg now) where
  joins := fun _ joins => by cases joins
  returned := fun _ closed => by cases closed
  cleared := fun _ cleared => by cases cleared

theorem joins_step (stopping : Stopping cfg c) (step : SendStep cfg c action d) {topic : ℕ}
    (joins : d.main = .join topic) :
    topic < cfg.sendTopics.length ∧ cfg.limited (.send topic) = true ∧ d.flags topic = false := by
  cases step with
  | flagCleared _ _ inside limited =>
      cases joins
      exact ⟨inside, limited, Function.update_self topic false c.flags⟩
  | faultStopped | closed | skipped | joined => cases joins
  | _ => exact stopping.joins topic joins

/-- A socket that is newly closed is the one of an unlimited topic, or its worker has returned. -/
theorem returned_step (stopping : Stopping cfg c) (step : SendStep cfg c action d) {topic : ℕ}
    (closed : d.hasClosed topic = true) (inside : topic < cfg.sendTopics.length)
    (limited : cfg.limited (.send topic) = true) : d.returned topic = true := by
  by_cases before : c.hasClosed topic = true
  · exact step.returned_kept (stopping.returned topic before inside limited)
  · have newly : ∀ {next : ℕ}, c.hasClosed topic = decide (topic < next) ->
        decide (topic < next + 1) = true -> topic = next := by
      intro next until_next closed
      rw [until_next, decide_eq_true_iff] at before
      rw [decide_eq_true_iff] at closed
      omega
    cases step with
    | closed at_main _ past =>
        rw [SendState.hasClosed, at_main, decide_eq_true_iff] at before
        exact absurd (inside.trans_le past) before
    | faultStopped =>
        exact absurd (of_decide_eq_true (p := topic < 0) closed) (Nat.not_lt_zero topic)
    | flagCleared at_main =>
        rw [SendState.hasClosed, at_main] at before
        exact absurd closed before
    | skipped at_main _ _ unlimited =>
        cases newly (by rw [SendState.hasClosed, at_main]) closed
        rw [unlimited] at limited
        cases limited
    | joined at_main _ returned =>
        cases newly (by rw [SendState.hasClosed, at_main]) closed
        exact returned
    | _ => exact absurd closed before

/-- The flag of a topic is cleared by the step that takes `main` to its worker. -/
theorem cleared_step (stopping : Stopping cfg c) (step : SendStep cfg c action d) {topic : ℕ}
    (cleared : d.flags topic = false) : d.hasClosed topic = true ∨ d.main = .join topic := by
  by_cases before : c.flags topic = false
  · rcases stopping.cleared topic before with closed | joins
    · exact .inl (step.closed_kept closed)
    · cases step with
      | joined at_main =>
          cases joins.symm.trans at_main
          exact .inl (decide_eq_true (Nat.lt_succ_self topic))
      | faultStopped at_main | closed at_main | flagCleared at_main | skipped at_main =>
          cases joins.symm.trans at_main
      | _ => exact .inr joins
  · cases step with
    | @flagCleared other =>
        by_cases same : topic = other
        · rw [same]
          exact .inr rfl
        · exact absurd ((Function.update_of_ne same false c.flags).symm.trans cleared) before
    | _ => exact absurd cleared before

theorem step (stopping : Stopping cfg c) (step : SendStep cfg c action d) : Stopping cfg d where
  joins := fun _ => stopping.joins_step step
  returned := fun _ => stopping.returned_step step
  cleared := fun _ => stopping.cleared_step step

theorem of_reachable (run : (sendNode cfg).Reachable c) : Stopping cfg c := by
  apply run.invariant (P := Stopping cfg)
  · rintro c ⟨now, rfl⟩
    exact initial now
  · exact fun _ _ _ _ stopping _ stepped => stopping.step (sendStep_cases stepped)

/-- When `main` has come to a topic, the earlier ones are done with. -/
theorem in_order (stopping : Stopping cfg c) {topic earlier : ℕ} (before : earlier < topic)
    (comes : c.flags topic = false ∨ c.hasClosed topic = true) : c.hasClosed earlier = true := by
  have reached : c.hasClosed topic = true ∨ c.main = .join topic := by
    rcases comes with cleared | closed
    · exact stopping.cleared topic cleared
    · exact .inl closed
  rcases reached with closed | joins
  · unfold SendState.hasClosed at closed ⊢
    cases at_main : c.main with
    | spinning =>
        rw [at_main] at closed
        cases closed
    | stopSend next | join next =>
        rw [at_main] at closed
        exact decide_eq_true (before.trans (of_decide_eq_true closed))
    | closed => rfl
  · rw [SendState.hasClosed, joins]
    exact decide_eq_true before

theorem spun (stopping : Stopping cfg c) {topic : ℕ}
    (comes : c.flags topic = false ∨ c.hasClosed topic = true) : c.main ≠ .spinning := by
  rcases comes with cleared | closed
  · rcases stopping.cleared topic cleared with closed | joins
    · exact SendState.spun_of_closed closed
    · rw [joins]
      exact MainPc.noConfusion
  · exact SendState.spun_of_closed closed

/-- `main` stays where it is, or has fewer steps left. -/
theorem left_le (stopping : Stopping cfg c) (step : SendStep cfg c action d) :
    d.main = c.main ∨
      d.main.left cfg.sendTopics.length < c.main.left cfg.sendTopics.length := by
  cases step with
  | faultStopped spinning =>
      rw [spinning]
      exact .inr (by simp [MainPc.left])
  | closed at_main =>
      rw [at_main]
      exact .inr (by simp [MainPc.left])
  | flagCleared at_main =>
      rw [at_main]
      exact .inr (by simp [MainPc.left])
  | skipped at_main _ inside =>
      rw [at_main]
      refine .inr ?_
      simp only [MainPc.left]
      omega
  | joined at_main =>
      have inside := (stopping.joins _ at_main).1
      rw [at_main]
      refine .inr ?_
      simp only [MainPc.left]
      omega
  | _ => exact .inl rfl

end Stopping

/-- A step of `main` takes it on. -/
theorem SendStep.main_moves {cfg : BridgeConfig} {c d : SendState}
    (step : SendStep cfg c .main d) : d.main ≠ c.main := by
  cases step with
  | faultStopped spinning => simp [spinning]
  | closed at_main => simp [at_main]
  | flagCleared at_main => simp [at_main]
  | skipped at_main => simp [at_main]
  | joined at_main => simp [at_main]

namespace FairSend

variable {cfg : BridgeConfig} {origin : SendState} {topic n m : ℕ} {thread : Thread}
  {trace : (sendNode cfg).Trace (fun _ _ => True) origin}

theorem stays_stopped (stopped : (trace.state n).node.pc thread = .stopped) (after : n ≤ m) :
    (trace.state m).node.pc thread = .stopped := by
  induction m, after using Nat.le_induction with
  | base => exact stopped
  | succ m after ih =>
      rcases (step trace m).node with same | ⟨action, stepped⟩
      · rw [same]
        exact ih
      · exact NodeState.stopped_step ih stepped

/-- The ROS thread comes to the end of `stop_node_fault_control`. -/
theorem ros_stops (fair : FairSend trace)
    (stopped : (trace.state n).node.nodeFaultThreadRunning = false)
    (main : ∀ m, n ≤ m -> (trace.state (m + 1)).main = (trace.state m).main) :
    ∃ m, n ≤ m ∧ (trace.state m).node.pc .ros = .stopped := by
  rcases (fair.halted stopped le_rfl).ros with at_ros | at_ros
  · have steps : ∃ m, n ≤ m ∧ (trace.state m).node.pc .ros = .stopNotify ∧
        trace.action m = .node (.run .ros) := by
      apply fair.takes_step (Pc.ownSteps_of_busy (by simp)) (fun _ _ => rfl) _ (fun _ => main) at_ros
      intro m _ at_pc
      simp [nodeStep, at_pc, NodeState.section?]
    rcases steps with ⟨m, after, at_pc, own⟩
    refine ⟨m + 1, by omega, ?_⟩
    rw [own_step (t := (trace.state m).node.move .ros .stopped) own]
    · rw [NodeState.move_pc, Function.update_self]
    · simp [nodeStep, at_pc, NodeState.section?]
  · exact ⟨n, le_rfl, at_ros⟩

/-- While `main` stays where it is after the stop, it comes to owe nothing. -/
theorem main_pays (fair : FairSend trace)
    (stopped : (trace.state n).node.nodeFaultThreadRunning = false)
    (main : ∀ m, n ≤ m -> (trace.state (m + 1)).main = (trace.state m).main) :
    ∃ k, n ≤ k ∧ ∀ m, k ≤ m -> (trace.state m).owes .ros = none := by
  have pays : ∃ k, n ≤ k ∧ (trace.state k).owes .ros = none := by
    cases owed : (trace.state n).owes .ros with
    | none => exact ⟨n, le_rfl, owed⟩
    | some topic =>
        rcases fair.pays owed with ⟨m, after, -, calls⟩
        have step := step trace m
        rw [calls] at step
        exact ⟨m + 1, by omega, step.paid_of_notify⟩
  rcases pays with ⟨k, after, paid⟩
  refine ⟨k, after, fun m later => ?_⟩
  induction m, later using Nat.le_induction with
  | base => exact paid
  | succ m later ih =>
      by_cases own : trace.action m = .node (.run .ros)
      · -- the ROS thread does not append any more
        have silent : (trace.state m).node.enqueues cfg .ros = none := by
          rcases (fair.halted stopped (after.trans later)).ros with at_ros | at_ros <;>
            simp [NodeState.enqueues, at_ros]
        have step := step trace m
        rw [own] at step
        exact step.owes_of_run.trans silent
      · rcases (step trace m).paid_kept ih own with paid | ⟨-, moved⟩
        · exact paid
        · exact absurd (main m (after.trans later)) moved

/-- `main` goes on from each position of its loop. -/
theorem main_moves (fair : FairSend trace)
    (stopped : (trace.state n).node.nodeFaultThreadRunning = false)
    (open_ : (trace.state n).main ≠ .closed) :
    ∃ m, n ≤ m ∧ (trace.state m).main ≠ (trace.state n).main := by
  by_contra never
  push Not at never
  have main : ∀ m, n ≤ m -> (trace.state (m + 1)).main = (trace.state m).main :=
    fun m after => (never (m + 1) (by omega)).trans (never m after).symm
  have ready : ∃ k, n ≤ k ∧ ∀ m, k ≤ m -> (trace.state m).mainStep cfg ≠ none := by
    cases at_main : (trace.state n).main with
    | spinning =>
        rcases fair.ros_stops stopped main with ⟨first, after_first, ros⟩
        rcases fair.monitor_stops stopped with ⟨second, after_second, monitor⟩
        refine ⟨max first second, by omega, fun m after => ?_⟩
        have ros := stays_stopped ros (m := m) (by omega)
        have monitor := stays_stopped monitor (m := m) (by omega)
        simp [SendState.mainStep, never m (by omega), at_main, ros, monitor]
    | stopSend topic =>
        refine ⟨n, le_rfl, fun m after => ?_⟩
        simp only [SendState.mainStep, never m after, at_main]
        split_ifs <;> simp
    | join topic =>
        rcases (Stopping.of_reachable (fair.reaches n)).joins topic at_main with
          ⟨inside, limited, flag⟩
        rcases fair.worker_returns stopped (decide_eq_true inside) limited flag with
          ⟨k, after, returned⟩
        refine ⟨k, after, fun m later => ?_⟩
        have returned : (trace.state m).returned topic = true := by
          induction m, later using Nat.le_induction with
          | base => exact returned
          | succ m later ih => exact (step trace m).returned_kept ih
        simp [SendState.mainStep, never m (by omega), at_main, returned]
    | closed => exact absurd at_main open_
  rcases ready with ⟨first, after_first, ready⟩
  rcases fair.main_pays stopped main with ⟨second, after_second, paid⟩
  rcases fair.fair .main rfl (max first second) with ⟨m, after, taken | disabled⟩
  · have step := step trace m
    rw [taken] at step
    exact step.main_moves (main m (by omega))
  · refine ready m (by omega) ?_
    have paid := paid m (by omega)
    simpa [sendNode, sendStep_of_alive (alive trace m), SendState.liveStep, paid] using disabled

theorem left_lt (fair : FairSend trace) (after : n ≤ m) :
    (trace.state m).main = (trace.state n).main ∨
      (trace.state m).main.left cfg.sendTopics.length <
        (trace.state n).main.left cfg.sendTopics.length := by
  induction m, after using Nat.le_induction with
  | base => exact .inl rfl
  | succ m after ih =>
      have stopping := Stopping.of_reachable (fair.reaches m)
      rcases stopping.left_le (step trace m) with same | lower
      · rw [same]
        exact ih
      · rcases ih with same | earlier
        · exact .inr (same ▸ lower)
        · exact .inr (lower.trans earlier)

/-- `main` comes past its loop, and stays there. -/
theorem main_closes (fair : FairSend trace)
    (stopped : (trace.state n).node.nodeFaultThreadRunning = false) :
    ∃ m, n ≤ m ∧ ∀ k, m ≤ k -> (trace.state k).main = .closed := by
  have closes : ∃ m, n ≤ m ∧ (trace.state m).main = .closed := by
    by_cases closed : (trace.state n).main = .closed
    · exact ⟨n, le_rfl, closed⟩
    refine Machine.Trace.leads_to_of_descent
      (P := fun m => n ≤ m ∧ (trace.state m).main ≠ .closed)
      (fun m => (trace.state m).main.left cfg.sendTopics.length) ?_ ⟨le_rfl, closed⟩
    rintro m ⟨after, open_⟩
    rcases fair.main_moves (fair.halted stopped after).running open_ with ⟨k, later, moved⟩
    refine ⟨k, later, ?_⟩
    by_cases done : (trace.state k).main = .closed
    · exact .inr done
    · exact .inl ⟨⟨by omega, done⟩, (fair.left_lt later).resolve_left moved⟩
  rcases closes with ⟨m, after, closed⟩
  refine ⟨m, after, fun k later => ?_⟩
  rcases fair.left_lt later with same | lower
  · exact same.trans closed
  · rw [closed] at lower
    cases lower

end FairSend

/-! ## The end of the process -/

namespace NodeState

variable {cfg : BridgeConfig} {s t : NodeState} {action : Action}

/-- After the stop no thread begins a flush. -/
theorem Halted.unflushed_step (halted : s.Halted) (outside : ∀ thread, s.phases thread = none)
    (stepped : nodeStep cfg s action = some t) (thread : Thread) : t.phases thread = none := by
  have step : NodeStep cfg s action t := nodeStep_cases stepped
  cases step.fault (halted.notStop stepped) with
  | still _ phases | took _ _ _ _ phases | opened _ phases => rw [phases, outside]
  | began _ _ _ _ open_ =>
      rw [halted.inactive] at open_
      cases open_
  | swapped _ _ holds | replayed _ _ holds | ended _ _ holds =>
      rw [outside] at holds
      cases holds

end NodeState

/-- A topic with a bitrate is a topic. -/
theorem BridgeConfig.lt_of_limited {cfg : BridgeConfig} {topic : ℕ}
    (limited : cfg.limited (.send topic) = true) : topic < cfg.sendTopics.length := by
  by_contra beyond
  rw [BridgeConfig.limited, BridgeConfig.topic, List.getD_eq_getElem?_getD,
    List.getElem?_eq_none (not_lt.mp beyond)] at limited
  exact lt_irrefl 0 (of_decide_eq_true limited)

namespace SendState

variable {cfg : BridgeConfig} {c d : SendState} {thread : Thread}

/-- Outside of a flush no thread sends on a closed socket: the ROS thread has ended, and the
worker of the topic has returned. -/
theorem open_of_unflushed (run : (sendNode cfg).Reachable c)
    (outside : c.node.phases thread = none) : c.writesClosed cfg thread = false := by
  by_contra writes
  rw [Bool.not_eq_false] at writes
  rcases writesClosed_iff.mp writes with ⟨topic, next, closed⟩
  cases at_pc : c.node.pc thread with
  | cleared job =>
      rw [at_pc] at next
      cases job with
      | dispatchSend => cases next
      | received => cases next
      | beforeZmq =>
          rw [(ends_of_spun run (spun_of_closed closed)).1] at at_pc
          cases at_pc
      | @pump worker =>
          cases next
          by_cases limited : cfg.limited (.send topic) = true
          · have returned := (Stopping.of_reachable run).returned topic closed
              (BridgeConfig.lt_of_limited limited) limited
            rw [((Attended.of_reachable run).returned topic returned).1] at at_pc
            cases at_pc
          · rw [NodeState.unstarted_of_reaches (Bool.eq_false_iff.mpr limited)
              (sendNode_refines run)] at at_pc
            cases at_pc
  | flushing resume phase =>
      rw [NodeState.phases, at_pc] at outside
      cases outside
  | _ =>
      rw [at_pc] at next
      cases next

/-- After the stop the process ends only if a thread was in a flush then. -/
theorem flushes_of_ended (run : (sendNode cfg).Reachable c) (alive : c.ended = false)
    (stopped : c.node.nodeFaultThreadRunning = false)
    (path : (sendNode cfg).Path (fun _ _ => True) c d) (ended : d.ended = true) :
    ∃ thread, (c.node.phases thread).isSome = true := by
  by_contra calm
  have outside : ∀ thread, c.node.phases thread = none := by
    intro thread
    by_contra flushes
    exact calm ⟨thread, Option.isSome_iff_ne_none.mpr flushes⟩
  have stays : (sendNode cfg).Reachable d ∧ d.ended = false ∧ d.node.Halted ∧
      ∀ thread, d.node.phases thread = none := by
    refine path.invariant (P := fun d => (sendNode cfg).Reachable d ∧ d.ended = false ∧
      d.node.Halted ∧ ∀ thread, d.node.phases thread = none)
      ⟨run, alive, .of_reachable (sendNode_refines run) stopped, outside⟩ ?_
    rintro u action v ⟨reached, alive, halted, outside⟩ _ stepped
    have step : SendStep cfg u action v := sendStep_cases stepped
    have still : v.ended = false := by
      cases step with
      | threw _ writes =>
          rw [open_of_unflushed reached (outside _)] at writes
          cases writes
      | _ => exact alive
    refine ⟨reached.next trivial stepped, still, ?_⟩
    rcases step.node with same | ⟨moves, moved⟩
    · rw [same]
      exact ⟨halted, outside⟩
    · exact ⟨halted.step moved, halted.unflushed_step outside moved⟩
  rw [stays.2.1] at ended
  cases ended

end SendState

/-- A topic without a bitrate, and a topic to receive. -/
def directPairConfig : BridgeConfig where
  sendTopics := [⟨0, .buffer⟩]
  recvTopics := [⟨0, .buffer⟩]
  nodeFault := none
  durationCast := id
  undefinedSize := fun _ => 0

-- the receive thread has still to replay the cached message when `main` closes the socket
example : ((sendNode directPairConfig).exec (fun _ _ => True)
    (SendState.initial directPairConfig 0)
    ([.request 1, .run .control, .run .control, .arrive (.send 0) ⟨1, [0]⟩, .run .ros, .run .ros,
      .advance 1, .arrive (.recv 0) ⟨1, [1]⟩, .run (.recv 0), .run (.recv 0), .stop, .run .ros,
      .run .monitor].map SendAction.node ++ [.main, .main, .throws (.recv 0)])).map
    SendState.ended = some true := by
  decide +kernel

/-- After the stop of the fault control every fair run that goes on comes to a position from
which on the monitor has ended, `main` is past its loop over the send topics, and the worker of
every limited topic has returned with no message in its hand.  `main` comes to a topic after the
monitor has ended, after the sockets of the earlier topics were closed and after their workers
returned.  The run does not go on if a thread sends on a closed socket, which ends the process:
only a thread that was in a flush at the stop does. -/
theorem shutdown_joins_workers {cfg : BridgeConfig} {origin : SendState}
    {trace : (sendNode cfg).Trace (fun _ _ => True) origin} (fair : FairSend trace) {n : ℕ}
    (stopped : (trace.state n).node.nodeFaultThreadRunning = false) :
    (∃ m, n ≤ m ∧ ∀ k, m ≤ k -> (trace.state k).main = .closed ∧
      (trace.state k).node.pc .monitor = .stopped ∧
      ∀ topic, cfg.hasChannel (.send topic) = true -> cfg.limited (.send topic) = true ->
        (trace.state k).returned topic = true ∧
          (trace.state k).node.pc (.worker topic) = .idle) ∧
    (∀ k topic, (trace.state k).flags topic = false ∨ (trace.state k).hasClosed topic = true ->
      (trace.state k).node.pc .monitor = .stopped ∧
      ∀ earlier, earlier < topic -> (trace.state k).hasClosed earlier = true ∧
        (cfg.limited (.send earlier) = true -> (trace.state k).returned earlier = true)) ∧
    ∀ d, (sendNode cfg).Path (fun _ _ => True) (trace.state n) d -> d.ended = true ->
      ∃ thread, ((trace.state n).node.phases thread).isSome = true := by
  refine ⟨?_, fun k topic comes => ?_, fun d path ended => ?_⟩
  · rcases fair.main_closes stopped with ⟨m, after, closes⟩
    refine ⟨m, after, fun k later => ?_⟩
    have closed := closes k later
    have spun : (trace.state k).main ≠ .spinning := by
      rw [closed]
      exact MainPc.noConfusion
    refine ⟨closed, (SendState.ends_of_spun (fair.reaches k) spun).2, fun topic valid limited => ?_⟩
    have returned := (Stopping.of_reachable (fair.reaches k)).returned topic
      (by rw [SendState.hasClosed, closed]) (of_decide_eq_true valid) limited
    exact ⟨returned, ((fair.attended k).returned topic returned).1⟩
  · have stopping := Stopping.of_reachable (fair.reaches k)
    refine ⟨(SendState.ends_of_spun (fair.reaches k) (stopping.spun comes)).2,
      fun earlier before => ?_⟩
    have closed := stopping.in_order before comes
    exact ⟨closed, fun limited =>
      stopping.returned earlier closed (BridgeConfig.lt_of_limited limited) limited⟩
  · exact SendState.flushes_of_ended (fair.reaches n) (FairSend.alive trace n) stopped path ended

/-- The fault control is stopped while the worker sleeps on its empty queue. -/
def stopSchedule : List SendAction :=
  [.node (.run .monitor), .node (.run (.worker 0)), .wait 0, .node .stop]

/-- The threads end, and `main` wakes the worker and joins it. -/
def joinSchedule : List SendAction :=
  [.node (.run .ros), .node (.run .monitor), .main, .main, .notify .ros, .leave 0, .main, .main]

/-- A worker that sleeps without a limit is joined in a fair run. -/
theorem shutdown_joins_workers_asleep :
    ∃ (origin : SendState) (trace : (sendNode slowConfig).Trace (fun _ _ => True) origin),
      (trace.state 0).asleep 0 = some .forMessage ∧
        ∃ m, (trace.state m).main = .closed ∧ (trace.state m).returned 0 = true := by
  have executed : (((sendNode slowConfig).exec (fun _ _ => True)
      (SendState.initial slowConfig 0) stopSchedule).bind fun c =>
      ((sendNode slowConfig).exec (fun _ _ => True) c joinSchedule).map fun d =>
      (c.asleep 0, !c.node.nodeFaultThreadRunning, decide d.Idles)) =
      some (some .forMessage, true, true) := by
    decide +kernel
  rcases Option.bind_eq_some_iff.mp executed with ⟨c, first, executed⟩
  rcases Option.map_eq_some_iff.mp executed with ⟨d, second, observed⟩
  simp only [Prod.mk.injEq, decide_eq_true_eq, Bool.not_eq_true'] at observed
  rcases observed with ⟨sleeps, stopped, idles⟩
  have reached : (sendNode slowConfig).Reachable c := Machine.reaches_of_exec ⟨0, rfl⟩ first
  have path : (sendNode slowConfig).Path (fun _ _ => True) c d := Machine.path_of_exec second
  have resting : d.Resting slowConfig :=
    lone_resting (reached.imp fun _ => .imp_right fun before => before.trans path) slow_single
      slow_absent idles
  rcases FairSend.exists_of_path reached path resting with ⟨trace, fair, -⟩
  have begins : trace.state 0 = c := trace.begins
  rcases shutdown_joins_workers fair (n := 0) (by rwa [begins]) with ⟨⟨m, -, closes⟩, -, -⟩
  rcases closes m le_rfl with ⟨closed, -, returned⟩
  refine ⟨c, trace, by rwa [begins], m, closed, (returned 0 rfl ?_).1⟩
  decide +kernel

end SwarmBridge
