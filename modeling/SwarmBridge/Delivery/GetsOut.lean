import SwarmBridge.Recovery.Settles
import SwarmBridge.Delivery.Served
import SwarmBridge.Delivery.Conservation

namespace SwarmBridge

open Foundation

/-!
# No message waits for ever

Every message that has arrived is in one place.  Once the node has come to rest after its
last window, the fault buffers and the batches are empty, so a message that is still inside
is in the hand of a thread or in a bitrate queue.  A thread goes on with the message that it
has in hand, and the worker of a limited topic serves its queue from the front, so a message
comes closer to the front until it is out, or it is evicted.
-/

/-- The message has left the node, or it is given up. -/
def Place.settled : Place -> Bool
  | .delivered | .dropped | .superseded | .evicted => true
  | .hand _ | .buffer | .batch _ | .queue => false

namespace NodeState

variable {cfg : BridgeConfig} {channel : Channel} {s t : NodeState} {action : Action}
  {message : Message} {thread : Thread}

/-! ## One step of a message in the hand of a thread or in the queue -/

theorem call_of_holding (member : message ∈ (s.view channel).holding thread) :
    ∃ job, (s.pc thread).job? = some job := by
  cases call : (s.pc thread).job? with
  | some job => exact ⟨job, rfl⟩
  | none =>
      rw [holding_of_free call] at member
      cases member

/-- Emptying the hand of another thread leaves the message where it is. -/
theorem mem_update_of_ne {holding : Thread -> List Message} {other : Thread}
    {messages : List Message} (member : message ∈ holding thread) (different : thread ≠ other) :
    message ∈ Function.update holding other messages thread := by
  rwa [Function.update_of_ne different]

/-- A thread keeps the message, or it hands it on. -/
theorem hand_step (step : ChannelStep cfg channel s action t) (calm : s.isNodeFaultBusy = false)
    (member : message ∈ (s.view channel).holding thread) :
    message ∈ (t.view channel).holding thread ∨ message ∈ (t.view channel).delivered ∨
      thread = .ros ∧ message ∈ (t.view channel).queue := by
  have inHand : ∀ {mover : Thread} {job : Job mover}, (s.pc mover).job? = some job ->
      job.channel = channel -> thread = mover -> message = job.message := by
    rintro mover job call about rfl
    simp only [view, Pc.holding, call, if_pos about, List.mem_singleton] at member
    exact member
  cases step with
  | same view | opened _ view | swapped _ view | passed _ _ _ _ _ view | replayedDirect _ _ view
  | replayedQueued _ _ _ _ view =>
      rw [view]
      exact .inl member
  | arrived idle _ view =>
      rw [view]
      refine .inl (mem_update_of_ne member ?_)
      rintro rfl
      rw [holding_of_free (by rw [idle]; rfl)] at member
      cases member
  | took _ _ _ active =>
      rw [(Bool.or_eq_false_iff.mp calm).1] at active
      cases active
  | @enqueued topic queued _ _ _ about at_cleared _ view =>
      rw [view]
      by_cases same : thread = .ros
      · refine .inr (.inr ⟨same, ?_⟩)
        have call : (s.pc .ros).job? = some (.dispatchSend topic queued) := by rw [at_cleared]; rfl
        rw [inHand call about.symm same]
        exact List.mem_append_right _ (List.mem_singleton_self _)
      · exact .inl (mem_update_of_ne member same)
  | @delivered mover job _ about at_cleared _ view =>
      rw [view]
      by_cases same : thread = mover
      · refine .inr (.inl ?_)
        rw [inHand (by rw [at_cleared]; rfl) about same, ChannelView.delivered_append]
        exact List.mem_append_right _ (List.mem_singleton_self _)
      · exact .inl (mem_update_of_ne member same)
  | @dequeued topic _ _ _ _ at_loop _ view =>
      rw [view]
      refine .inl (mem_update_of_ne member ?_)
      rintro rfl
      rw [holding_of_free (by rw [at_loop]; rfl)] at member
      cases member

/-- A message in the queue stays there, no further from the front and closer to it when the
front changes, or it is evicted, or the worker takes it. -/
theorem queue_step (step : ChannelStep cfg channel s action t) (calm : s.isNodeFaultBusy = false)
    (outside : ∀ thread, s.phases thread = none)
    (once : (s.view channel).queue.count message ≤ 1)
    (member : message ∈ (s.view channel).queue) :
    (message ∈ (t.view channel).queue ∧
      ((t.view channel).queue.idxOf message < (s.view channel).queue.idxOf message ∨
        (t.view channel).queue.idxOf message = (s.view channel).queue.idxOf message ∧
          (t.view channel).queue.head? = (s.view channel).queue.head?)) ∨
    message ∈ (t.view channel).evicted ∨
      ∃ topic, channel = .send topic ∧ message ∈ (t.view channel).holding (.worker topic) := by
  cases step with
  | same view | arrived _ _ view | passed _ _ _ _ _ view | opened _ view | delivered _ _ _ view =>
      rw [view]
      exact .inl ⟨member, .inr ⟨rfl, rfl⟩⟩
  | took _ _ _ active =>
      rw [(Bool.or_eq_false_iff.mp calm).1] at active
      cases active
  | swapped holds => rw [outside] at holds; cases holds
  | replayedDirect holds => rw [outside] at holds; cases holds
  | replayedQueued _ holds => rw [outside] at holds; cases holds
  | @enqueued topic queued evicted kept _ _ _ queue view =>
      rw [view]
      rw [queue] at member once ⊢
      by_cases stays : message ∈ kept
      · refine .inl ⟨List.mem_append_left _ stays, ?_⟩
        dsimp only
        have apart : message ∉ evicted := by
          intro dropped
          have first := List.count_pos_iff.mpr dropped
          have second := List.count_pos_iff.mpr stays
          rw [List.count_append] at once
          omega
        rw [List.idxOf_append_of_mem stays, List.idxOf_append_of_notMem apart]
        cases evicted with
        | nil =>
            rcases List.exists_cons_of_ne_nil (List.ne_nil_of_mem stays) with ⟨front, rest, rfl⟩
            exact .inr ⟨by simp, rfl⟩
        | cons first evicted => exact .inl (by simp)
      · have dropped : message ∈ evicted := (List.mem_append.mp member).resolve_right stays
        refine .inr (.inl ?_)
        rw [ChannelView.evicted_append]
        apply List.mem_append_right
        exact List.mem_filterMap.mpr ⟨_, List.mem_map.mpr ⟨message, dropped, rfl⟩, rfl⟩
  | @dequeued topic front rest _ about _ queue view =>
      rw [view]
      rw [queue] at member ⊢
      by_cases same : message = front
      · refine .inr (.inr ⟨topic, about, ?_⟩)
        rw [same]
        show front ∈ Function.update (s.view channel).holding (.worker topic) [front] (.worker topic)
        rw [Function.update_self]
        exact List.mem_singleton_self _
      · have behind : message ∈ rest := (List.mem_cons.mp member).resolve_left same
        refine .inl ⟨behind, .inl ?_⟩
        dsimp only
        rw [List.idxOf_cons_ne _ (Ne.symm same)]
        exact Nat.lt_succ_self _

/-- Only a limited topic has a queue, and evicts from it. -/
theorem queue_of_unlimited {allow : NodeState -> Action -> Prop}
    (valid : cfg.hasChannel channel = true) (unlimited : cfg.limited channel = false)
    (run : (bridgeNode cfg).Reaches allow s) :
    (s.view channel).queue = [] ∧ (s.view channel).evicted = [] := by
  apply run.invariant (P := fun s => (s.view channel).queue = [] ∧ (s.view channel).evicted = [])
  · rintro s ⟨now, rfl⟩
    cases channel <;> exact ⟨rfl, rfl⟩
  · rintro s action t reached ⟨queue, evicted⟩ _ stepped
    have step : ChannelStep cfg channel s action t := (nodeStep_cases stepped).onChannel valid
    cases step with
    | enqueued about at_cleared =>
        rw [about, (Routed.of_reaches reached).queued _ _ at_cleared] at unlimited
        cases unlimited
    | replayedQueued _ _ limited =>
        rw [limited] at unlimited
        cases unlimited
    | dequeued _ _ present =>
        rw [queue] at present
        cases present
    | same view | opened _ view | swapped _ view | arrived _ _ view | took _ _ _ _ _ view
    | passed _ _ _ _ _ view | delivered _ _ _ view | replayedDirect _ _ view =>
        rw [view]
        exact ⟨queue, by simpa [stamp, Event.evicted?] using evicted⟩

/-- With policy buffer and without a bitrate the last place of a message is outside the node. -/
theorem delivered_of_settled {allow : NodeState -> Action -> Prop} {place : Place}
    (valid : cfg.hasChannel channel = true) (unlimited : cfg.limited channel = false)
    (policy : cfg.policy channel = .buffer) (run : (bridgeNode cfg).Reaches allow s)
    (settled : place.settled = true) (here : message ∈ s.contents cfg channel place) :
    message ∈ (s.view channel).delivered := by
  cases place with
  | delivered => exact here
  | dropped | superseded => simp [contents, ChannelView.contents, policy] at here
  | evicted =>
      have none := (queue_of_unlimited valid unlimited run).2
      simp [contents, ChannelView.contents, none] at here
  | hand thread | buffer | batch thread | queue => cases settled

end NodeState

namespace NodeState.Conserved

variable {cfg : BridgeConfig} {channel : Channel} {s : NodeState} {message : Message}

/-- No message is in two places. -/
theorem sole (conserved : s.Conserved cfg channel) {first second : Place}
    (inFirst : message ∈ s.contents cfg channel first)
    (inSecond : message ∈ s.contents cfg channel second) : first = second := by
  have inFirst := Multiset.count_pos.mpr inFirst
  have inSecond := Multiset.count_pos.mpr inSecond
  by_cases arrived : message ∈ (s.view channel).arrived
  · rcases conserved.once message arrived with ⟨place, counts⟩
    rw [counts] at inFirst inSecond
    split_ifs at inFirst inSecond with here there
    · exact here.trans there.symm
    all_goals omega
  · rw [conserved.known message arrived first] at inFirst
    omega

/-- A message that has arrived is somewhere. -/
theorem exists_place (conserved : s.Conserved cfg channel)
    (arrived : message ∈ (s.view channel).arrived) :
    ∃ place, message ∈ s.contents cfg channel place := by
  rcases conserved.once message arrived with ⟨place, counts⟩
  refine ⟨place, ?_⟩
  rw [← Multiset.count_pos, counts, if_pos rfl]
  exact Nat.one_pos

/-- No message is twice in the queue. -/
theorem queue_once (conserved : s.Conserved cfg channel) (message : Message) :
    (s.view channel).queue.count message ≤ 1 := by
  have counted : (s.contents cfg channel .queue).count message ≤ 1 := by
    by_cases arrived : message ∈ (s.view channel).arrived
    · rcases conserved.once message arrived with ⟨place, counts⟩
      rw [counts]
      split_ifs <;> omega
    · rw [conserved.known message arrived]
      omega
  rwa [contents, ChannelView.contents, Multiset.coe_count] at counted

end NodeState.Conserved

namespace FairSend

variable {cfg : BridgeConfig} {channel : Channel} {origin : SendState} {n m : ℕ}

/-- What a channel sees of a step. -/
theorem channel_step (trace : (sendNode cfg).Trace (fun _ _ => True) origin)
    (valid : cfg.hasChannel channel = true) (n : ℕ) :
    (trace.state (n + 1)).node = (trace.state n).node ∨ ∃ action,
      ChannelStep cfg channel (trace.state n).node action (trace.state (n + 1)).node := by
  rcases (FairSend.step trace n).node with same | ⟨action, stepped⟩
  · exact .inl same
  · exact .inr ⟨action, (nodeStep_cases stepped).onChannel valid⟩

theorem log_mono (trace : (sendNode cfg).Trace (fun _ _ => True) origin)
    (valid : cfg.hasChannel channel = true) (after : n ≤ m) :
    ((trace.state n).node.view channel).log <+: ((trace.state m).node.view channel).log := by
  induction m, after using Nat.le_induction with
  | base => exact List.prefix_rfl
  | succ m _ ih =>
      rcases channel_step trace valid m with same | ⟨action, step⟩
      · rw [same]
        exact ih
      · exact ih.trans (NodeState.log_grows step)

end FairSend

namespace SettlingRun

open NodeState

variable {cfg : BridgeConfig} {channel : Channel} {origin : SendState} {n m rest topic : ℕ}
  {message : Message} {thread : Thread} {trace : (sendNode cfg).Trace (fun _ _ => True) origin}

/-- From the position on the node is not busy. -/
def Rested (trace : (sendNode cfg).Trace (fun _ _ => True) origin) (rest : ℕ) : Prop :=
  ∀ n, rest ≤ n -> (trace.state n).node.isNodeFaultBusy = false

theorem outside (run : SettlingRun trace) (rested : Rested trace rest) (after : rest ≤ n)
    (thread : Thread) : (trace.state n).node.phases thread = none :=
  (run.orderly n).exclusive.phases_eq_none (Bool.or_eq_false_iff.mp (rested n after)).2 thread

theorem conserved (run : SettlingRun trace) (valid : cfg.hasChannel channel = true) (n : ℕ) :
    (trace.state n).node.Conserved cfg channel :=
  Conserved.of_reaches valid (run.idle n) (run.running n)

/-! ## A message in the hand of a thread -/

/-- A thread comes to the end of the call in which it holds a message. -/
theorem hand_leaves (run : SettlingRun trace) (rested : Rested trace rest) (begins : rest ≤ n)
    (valid : cfg.hasChannel channel = true)
    (member : message ∈ ((trace.state n).node.view channel).holding thread) :
    ∃ m, n ≤ m ∧ (message ∈ ((trace.state m).node.view channel).delivered ∨
      thread = .ros ∧ message ∈ ((trace.state m).node.view channel).queue) := by
  refine Machine.Trace.leads_to_of_descent
    (P := fun m => n ≤ m ∧ message ∈ ((trace.state m).node.view channel).holding thread)
    (fun m => ((trace.state m).node.pc thread).work) ?_ ⟨le_rfl, member⟩
  rintro m ⟨after, member⟩
  rcases call_of_holding member with ⟨job, call⟩
  have busy : (trace.state m).node.pc thread ≠ .idle := by
    intro idle
    rw [idle] at call
    cases call
  have advances : ∀ k, m ≤ k ->
      (trace.state k).node.pc thread = (trace.state m).node.pc thread ->
      (trace.state k).node.Advances cfg thread := by
    intro k later at_pc
    exact advances_job (rested k (by omega)) (at_pc ▸ call) (run.outside rested (by omega) thread)
  have steps : ∃ k, m ≤ k ∧ (trace.state k).node.pc thread = (trace.state m).node.pc thread ∧
      trace.action k = .node (.run thread) := by
    apply run.steps_from busy _ rfl
    intro k later at_pc
    rcases advances k later at_pc with ⟨t, stepped, -⟩
    rw [stepped]
    exact Option.some_ne_none t
  rcases steps with ⟨k, later, at_pc, own⟩
  rcases advances k later at_pc with ⟨t, stepped, lower⟩
  have held : message ∈ ((trace.state k).node.view channel).holding thread := by
    simpa only [view, at_pc] using member
  have step : ChannelStep cfg channel (trace.state k).node (.run thread) t :=
    (nodeStep_cases stepped).onChannel valid
  have next : (trace.state (k + 1)).node = t := FairSend.own_step own stepped
  rw [← next] at step lower
  rcases hand_step step (rested k (by omega)) held with stays | goes
  · exact ⟨k + 1, by omega, .inl ⟨⟨by omega, stays⟩, at_pc ▸ lower⟩⟩
  · exact ⟨k + 1, by omega, .inr goes⟩

/-! ## A message in the queue -/

/-- The message was evicted, or the worker has taken it. -/
def Taken (trace : (sendNode cfg).Trace (fun _ _ => True) origin) (topic : ℕ)
    (message : Message) (n : ℕ) : Prop :=
  message ∈ ((trace.state n).node.view (.send topic)).evicted ∨
    message ∈ ((trace.state n).node.view (.send topic)).holding (.worker topic)

/-- Between two positions a message in the queue is taken out, or it comes closer to the
front, or the front stays. -/
theorem queue_between (run : SettlingRun trace) (rested : Rested trace rest) (begins : rest ≤ n)
    (valid : cfg.hasChannel (.send topic) = true)
    (member : message ∈ ((trace.state n).node.view (.send topic)).queue) (after : n ≤ m) :
    (∃ k, n ≤ k ∧ Taken trace topic message k) ∨
      message ∈ ((trace.state m).node.view (.send topic)).queue ∧
        (((trace.state m).node.view (.send topic)).queue.idxOf message <
            ((trace.state n).node.view (.send topic)).queue.idxOf message ∨
          ((trace.state m).node.view (.send topic)).queue.idxOf message =
              ((trace.state n).node.view (.send topic)).queue.idxOf message ∧
            ((trace.state m).node.view (.send topic)).queue.head? =
              ((trace.state n).node.view (.send topic)).queue.head?) := by
  induction m, after using Nat.le_induction with
  | base => exact .inr ⟨member, .inr ⟨rfl, rfl⟩⟩
  | succ m after ih =>
      rcases ih with taken | ⟨member, place⟩
      · exact .inl taken
      · rcases FairSend.channel_step trace valid m with same | ⟨action, step⟩
        · rw [same]
          exact .inr ⟨member, place⟩
        · rcases queue_step step (rested m (by omega)) (run.outside rested (by omega))
            ((run.conserved valid m).queue_once message) member with
            ⟨stays, closer | ⟨same, front⟩⟩ | evicted | ⟨worker, channel, held⟩
          · exact .inr ⟨stays, .inl (by omega)⟩
          · rw [same, front]
            exact .inr ⟨stays, place⟩
          · exact .inl ⟨m + 1, by omega, .inl evicted⟩
          · cases channel
            exact .inl ⟨m + 1, by omega, .inr held⟩

/-- The worker of a limited topic comes back to its loop. -/
theorem worker_comes (run : SettlingRun trace) (rested : Rested trace rest) (begins : rest ≤ n)
    (valid : cfg.hasChannel (.send topic) = true) (limited : cfg.limited (.send topic) = true) :
    ∃ m, n ≤ m ∧ (trace.state m).node.pc (.worker topic) = .idle := by
  apply run.finishes Thread.noConfusion _ Thread.noConfusion
  · intro c away
    exact if_neg away
  · intro m after away
    apply worker_advances (rested m (by omega)) _ valid limited away
      (worker_ne_stopped (sendNode_refines (run.reaches m)) topic)
    have schedule : cfg.nodeFault = none := run.only
    rw [scheduled, schedule]
  · intro channel
    cases channel <;> exact Thread.noConfusion

/-- A message in the queue comes to the front, unless it is evicted. -/
theorem queue_leaves (run : SettlingRun trace) (rested : Rested trace rest) (begins : rest ≤ n)
    (valid : cfg.hasChannel (.send topic) = true) (limited : cfg.limited (.send topic) = true)
    (member : message ∈ ((trace.state n).node.view (.send topic)).queue) :
    ∃ m, n ≤ m ∧ Taken trace topic message m := by
  refine Machine.Trace.leads_to_of_descent
    (P := fun m => n ≤ m ∧ message ∈ ((trace.state m).node.view (.send topic)).queue)
    (fun m => ((trace.state m).node.view (.send topic)).queue.idxOf message) ?_ ⟨le_rfl, member⟩
  rintro m ⟨after, member⟩
  have between := fun k => run.queue_between (m := k) rested (begins.trans after) valid member
  rcases run.worker_comes rested (begins.trans after) valid limited with ⟨k, later, loop⟩
  rcases between k later with ⟨j, onward, taken⟩ | ⟨stays, closer | ⟨-, front_k⟩⟩
  · exact ⟨j, onward, .inr taken⟩
  · exact ⟨k, later, .inl ⟨⟨by omega, stays⟩, closer⟩⟩
  rcases List.exists_cons_of_ne_nil (List.ne_nil_of_mem stays) with ⟨front, behind, queue⟩
  have waits : ((trace.state k).node.sendQueues topic).messages.head? = some front :=
    congrArg List.head? queue
  have service := SendState.in_service (run.reaches k) (run.running k)
  have waiting : (trace.state k).FrontWaits cfg topic front _ :=
    ⟨loop, service.2.2 topic, waits, rfl⟩
  rcases run.front_leaves run.clock limited waiting with ⟨l, served, gone⟩
  rcases between l (later.trans served) with ⟨j, onward, taken⟩ | ⟨stays, closer | ⟨-, front_l⟩⟩
  · exact ⟨j, onward, .inr taken⟩
  · exact ⟨l, by omega, .inl ⟨⟨by omega, stays⟩, closer⟩⟩
  -- the front message is still in the queue, so nobody has taken it
  have still : ((trace.state l).node.view (.send topic)).queue.head? = some front :=
    front_l.trans (front_k.symm.trans waits)
  rcases gone with held | moved | returned
  · have inHand : front ∈ (trace.state l).node.contents cfg (.send topic) (.hand (.worker topic)) := by
      simp [contents, ChannelView.contents, view, held, Pc.holding, Pc.job?, Job.channel,
        Job.message]
    have inQueue : front ∈ (trace.state l).node.contents cfg (.send topic) .queue :=
      List.mem_of_mem_head? still
    cases (run.conserved valid l).sole inHand inQueue
  · exact absurd still moved
  · have service := SendState.in_service (run.reaches l) (run.running l)
    rw [service.2.2 topic] at returned
    cases returned

/-- A message in the queue is written or evicted. -/
theorem queue_gets_out (run : SettlingRun trace) (rested : Rested trace rest) (begins : rest ≤ n)
    (valid : cfg.hasChannel channel = true)
    (member : message ∈ ((trace.state n).node.view channel).queue) :
    ∃ m, n ≤ m ∧ (message ∈ ((trace.state m).node.view channel).delivered ∨
      message ∈ ((trace.state m).node.view channel).evicted) := by
  have limited : cfg.limited channel = true := by
    by_contra unlimited
    rw [(queue_of_unlimited valid (Bool.eq_false_iff.mpr unlimited) (run.idle n)).1] at member
    cases member
  cases channel with
  | recv topic => cases member
  | send topic =>
      rcases run.queue_leaves rested begins valid limited member with ⟨m, after, evicted | held⟩
      · exact ⟨m, after, .inr evicted⟩
      · rcases run.hand_leaves rested (begins.trans after) valid held with
          ⟨k, later, written | ⟨impossible, -⟩⟩
        · exact ⟨k, after.trans later, .inl written⟩
        · cases impossible

/-- A message that is in the hand of a thread of a resting node is written or published, or
evicted from its queue. -/
theorem hand_gets_out (run : SettlingRun trace) (rested : Rested trace rest) (begins : rest ≤ n)
    (valid : cfg.hasChannel channel = true)
    (member : message ∈ ((trace.state n).node.view channel).holding thread) :
    ∃ m, n ≤ m ∧ (message ∈ ((trace.state m).node.view channel).delivered ∨
      message ∈ ((trace.state m).node.view channel).evicted) := by
  rcases run.hand_leaves rested begins valid member with ⟨m, after, written | ⟨-, queued⟩⟩
  · exact ⟨m, after, .inl written⟩
  · rcases run.queue_gets_out rested (begins.trans after) valid queued with ⟨k, later, out⟩
    exact ⟨k, after.trans later, out⟩

/-- A message that has arrived comes to its last place. -/
theorem comes_out (run : SettlingRun trace) (valid : cfg.hasChannel channel = true)
    (arrived : message ∈ ((trace.state n).node.view channel).arrived) :
    ∃ m, n ≤ m ∧ ∃ place : Place, place.settled = true ∧
      message ∈ (trace.state m).node.contents cfg channel place := by
  rcases run.last with ⟨last, unopened⟩
  rcases run.settles unopened with ⟨rest, -, rested⟩
  have after : n ≤ max n rest := le_max_left n rest
  have begins : rest ≤ max n rest := le_max_right n rest
  generalize max n rest = m at after begins
  have out : (∃ k, m ≤ k ∧ (message ∈ ((trace.state k).node.view channel).delivered ∨
      message ∈ ((trace.state k).node.view channel).evicted)) ->
      ∃ k, n ≤ k ∧ ∃ place : Place, place.settled = true ∧
        message ∈ (trace.state k).node.contents cfg channel place := by
    rintro ⟨k, later, written | evicted⟩
    · exact ⟨k, after.trans later, .delivered, rfl, written⟩
    · exact ⟨k, after.trans later, .evicted, rfl, evicted⟩
  have known : message ∈ ((trace.state m).node.view channel).arrived :=
    ((FairSend.log_mono trace valid after).filterMap _).subset arrived
  rcases (run.conserved valid m).exists_place known with ⟨place, here⟩
  cases place with
  | hand thread => exact out (run.hand_gets_out rested begins valid here)
  | queue => exact out (run.queue_gets_out rested begins valid here)
  | buffer =>
      have calm := Bool.or_eq_false_iff.mp (rested m begins)
      have empty := (run.orderly m).empty calm.1 calm.2 channel
      simp [contents, ChannelView.contents, view, empty] at here
  | batch thread =>
      have none : ((trace.state m).node.view channel).pending thread = [] :=
        pending_of_phases (run.outside rested begins thread)
      simp [contents, ChannelView.contents, none] at here
  | delivered | dropped | superseded | evicted => exact ⟨m, after, _, rfl, here⟩

end SettlingRun

open NodeState

/-- The progress side of conservation.  In every fair run before the shutdown that has a last
window, each message that was passed to a dispatch function comes to its last place: it is
written or published, or its policy gave it up, or its bitrate queue evicted it.  On a topic
with policy buffer and without a bitrate it is written or published. -/
theorem no_message_waits_for_ever {cfg : BridgeConfig} {origin : SendState}
    {trace : (sendNode cfg).Trace (fun _ _ => True) origin} (run : SettlingRun trace)
    (channel : Channel) (valid : cfg.hasChannel channel = true) (n : ℕ) (message : Message)
    (arrived : message ∈ ((trace.state n).node.view channel).arrived) :
    (∃ m, n ≤ m ∧ ∃ place : Place, place.settled = true ∧
      message ∈ (trace.state m).node.contents cfg channel place) ∧
    (cfg.policy channel = .buffer -> cfg.limited channel = false ->
      ∃ m, n ≤ m ∧ message ∈ ((trace.state m).node.view channel).delivered) := by
  rcases run.comes_out valid arrived with ⟨m, after, place, settled, here⟩
  refine ⟨⟨m, after, place, settled, here⟩, fun policy unlimited => ⟨m, after, ?_⟩⟩
  exact delivered_of_settled valid unlimited policy (run.idle m) settled here

/-- A window of one second opens, and five bytes arrive. -/
def cachingSchedule : List SendAction :=
  [.node (.run (.worker 0)), .wait 0, .node (.run .monitor), .node (.request 1),
    .node (.run .control), .node (.run .control), .node (.arrive (.send 0) ⟨5, [0]⟩),
    .node (.run .ros), .node (.run .ros)]

/-- The monitor replays them into the queue and wakes the worker, which has the tokens. -/
def replayingSchedule : List SendAction :=
  [.node (.advance 1), .node (.run .monitor), .node (.run .monitor), .node (.run .monitor),
    .node (.run .monitor), .notify .monitor, .node (.run .monitor), .node (.run (.worker 0)),
    .node (.run (.worker 0)), .node (.run (.worker 0)), .node (.run (.worker 0)), .wait 0]

/-- A message that a window of a limited topic has cached comes to its last place. -/
theorem no_message_waits_for_ever_cached :
    ∃ (origin : SendState) (trace : (sendNode slowConfig).Trace (fun _ _ => True) origin)
      (message : Message), message ∈ origin.node.faultBuffers (.send 0) ∧
        ∃ m, ∃ place : Place, place.settled = true ∧
          message ∈ (trace.state m).node.contents slowConfig (.send 0) place := by
  have executed : (((sendNode slowConfig).exec (fun _ _ => True)
      (SendState.initial slowConfig 0) cachingSchedule).bind fun c =>
      ((sendNode slowConfig).exec (fun _ _ => True) c replayingSchedule).map fun d =>
      [decide (⟨0, ⟨5, [0]⟩⟩ ∈ c.node.faultBuffers (.send 0)),
        decide (⟨0, ⟨5, [0]⟩⟩ ∈ (c.node.view (.send 0)).arrived),
        d.node.nodeFaultThreadRunning, decide d.Idles]) = some [true, true, true, true] := by
    decide +kernel
  rcases Option.bind_eq_some_iff.mp executed with ⟨c, first, executed⟩
  rcases Option.map_eq_some_iff.mp executed with ⟨d, second, observed⟩
  simp only [List.cons.injEq, decide_eq_true_eq] at observed
  rcases observed with ⟨cached, arrived, running, idles, -⟩
  have reached : (sendNode slowConfig).Reachable c := Machine.reaches_of_exec ⟨0, rfl⟩ first
  have path : (sendNode slowConfig).Path (fun _ _ => True) c d := Machine.path_of_exec second
  have resting : d.Resting slowConfig :=
    lone_resting (reached.imp fun _ => .imp_right fun before => before.trans path) slow_single
      slow_absent idles
  have only : slowConfig.ControlOnly := by simp [BridgeConfig.ControlOnly, slowConfig]
  rcases SettlingRun.exists_of_path only reached path resting running with ⟨trace, run⟩
  have begins : trace.state 0 = c := trace.begins
  rcases (no_message_waits_for_ever run (.send 0) (by decide) 0 _ (by rwa [begins])).1 with
    ⟨m, -, out⟩
  exact ⟨c, trace, _, cached, m, out⟩

end SwarmBridge
