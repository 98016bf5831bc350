import SwarmBridge.SimComm.SendCondition

namespace SwarmBridge

open Foundation

/-!
# No worker sleeps through a message

A worker goes to sleep on an empty queue under the mutex of the queue, and whoever appends
a message releases that mutex before it calls `notify_one`.  Between the two the worker
may sleep on a queue that holds a message, but the call is then still to come: the thread
that appended owes it, and does nothing else before it.  The same holds of `main`, which
clears the flag of a worker before it calls `notify_one`.
-/

/-! ## What a step of the node does to a worker and to its queue -/

namespace NodeStep

variable {cfg : BridgeConfig} {s t : NodeState} {action : Action}

/-- A thread to which nothing is handed from outside only moves in its own steps. -/
theorem pc_unread {thread : Thread} (step : NodeStep cfg s action t)
    (unread : ∀ channel : Channel, channel.reader ≠ thread) (asked : thread ≠ .control)
    (other : action ≠ .run thread) : t.pc thread = s.pc thread := by
  cases action with
  | advance time =>
      cases step
      rfl
  | arrive channel payload =>
      cases step
      exact NodeState.arrive_pc_of_ne (Ne.symm (unread channel))
  | request durationSec =>
      cases step with
      | refused => rfl
      | granted => exact Function.update_of_ne asked _ _
  | run runner => exact step.pc_frame fun same => other (same ▸ rfl)
  | stop =>
      have notRos : thread ≠ .ros := Ne.symm (unread (.send 0))
      cases step
      rw [NodeState.stopNodeFaultControl, NodeState.move_pc, Function.update_of_ne asked,
        NodeState.move_pc, Function.update_of_ne notRos]

theorem pc_worker {topic : ℕ} (step : NodeStep cfg s action t)
    (other : action ≠ .run (.worker topic)) : t.pc (.worker topic) = s.pc (.worker topic) :=
  step.pc_unread (fun channel => by cases channel <;> exact Thread.noConfusion)
    Thread.noConfusion other

/-- The queue of a topic changes when a thread appends to it, and when the worker of the
topic takes the front message out. -/
theorem queue_cases (topic : ℕ) (step : NodeStep cfg s action t) :
    t.sendQueues topic = s.sendQueues topic ∨
      (∃ thread message, action = .run thread ∧ s.enqueues cfg thread = some topic ∧
        t.sendQueues topic = (enqueueSendMessage cfg.undefinedSize
          (cfg.topic (.send topic)).maxBitrate message (s.sendQueues topic)).2) ∨
      (action = .run (.worker topic) ∧ s.pc (.worker topic) = .idle) := by
  cases step with
  | @enqueue other message at_cleared =>
      by_cases same : topic = other
      · subst same
        refine .inr (.inl ⟨.ros, message, rfl, ?_, ?_⟩)
        · simp only [NodeState.enqueues, at_cleared]
        · exact Function.update_self _ _ _
      · exact .inl (Function.update_of_ne same _ _)
  | @replayQueued thread resume done rest other message at_replay limited =>
      by_cases same : topic = other
      · subst same
        refine .inr (.inl ⟨thread, message, rfl, ?_, ?_⟩)
        · simp only [NodeState.enqueues, at_replay, if_pos limited]
        · exact Function.update_self _ _ _
      · exact .inl (Function.update_of_ne same _ _)
  | @dequeue other front rest bucket bytes at_loop =>
      by_cases same : topic = other
      · subst same
        exact .inr (.inr ⟨rfl, at_loop⟩)
      · exact .inl (Function.update_of_ne same _ _)
  | _ => exact .inl rfl

end NodeStep

/-- A thread other than the ROS thread only appends in the middle of a recovery. -/
theorem NodeState.busy_of_enqueues {cfg : BridgeConfig} {s t : NodeState} {thread : Thread}
    {topic : ℕ} (notRos : thread ≠ .ros) (enqueues : s.enqueues cfg thread = some topic)
    (step : nodeStep cfg s (.run thread) = some t) : t.pc thread ≠ .idle := by
  simp only [NodeState.enqueues] at enqueues
  cases at_pc : s.pc thread with
  | flushing resume phase =>
      rw [at_pc] at enqueues
      cases phase with
      | swap => cases enqueues
      | replay done rest =>
          cases rest with
          | nil => cases enqueues
          | cons head rest =>
              rcases head with ⟨channel, message⟩
              simp only [nodeStep, section?, at_pc, flushSection, Option.some.injEq] at step
              rw [← step, move_pc, Function.update_self]
              simp
  | cleared job =>
      rw [at_pc] at enqueues
      cases job with
      | dispatchSend => exact absurd rfl notRos
      | _ => cases enqueues
  | _ =>
      rw [at_pc] at enqueues
      cases enqueues

namespace SendState

variable {cfg : BridgeConfig} {c : SendState} {topic : ℕ} {action : Action} {t : NodeState}

theorem looping_iff : c.looping topic = true ↔ c.node.pc (.worker topic) = .idle ∧
    c.asleep topic = none ∧ c.returned topic = false ∧ c.owes (.worker topic) = none := by
  simp [looping, and_assoc]

theorem iterates_eq_some : c.iterates action = some topic ↔
    action = .run (.worker topic) ∧ c.node.pc (.worker topic) = .idle := by
  constructor
  · intro iterates
    simp only [SendState.iterates] at iterates
    split at iterates
    · split_ifs at iterates with idle
      cases iterates
      exact ⟨rfl, idle⟩
    · cases iterates
  · rintro ⟨rfl, idle⟩
    exact if_pos idle

theorem asleepAfter_cases (c : SendState) (action : Action) (t : NodeState) :
    c.asleepAfter action t = c.asleep ∨
      ∃ topic, c.iterates action = some topic ∧ t.pc (.worker topic) = .idle ∧
        c.asleepAfter action t = Function.update c.asleep topic (some .forTokens) := by
  cases iterates : c.iterates action with
  | none => exact .inl (by simp only [asleepAfter, iterates])
  | some topic =>
      by_cases idle : t.pc (.worker topic) = .idle
      · exact .inr ⟨topic, rfl, idle, by simp only [asleepAfter, iterates, if_pos idle]⟩
      · exact .inl (by simp only [asleepAfter, iterates, if_neg idle])

/-- Waking a worker puts no other one to sleep. -/
theorem update_none (awake : c.asleep topic = none) (other : ℕ) :
    Function.update c.asleep other none topic = none := by
  by_cases same : topic = other
  · rw [same, Function.update_self]
  · rwa [Function.update_of_ne same]

theorem owesAfter_run (thread : Thread) :
    c.owesAfter cfg (.run thread) thread = c.node.enqueues cfg thread :=
  Function.update_self _ _ _

theorem owesAfter_of_ne {thread : Thread} (other : action ≠ .run thread) :
    c.owesAfter cfg action thread = c.owes thread := by
  cases action with
  | run runner => exact Function.update_of_ne (fun same => other (congrArg Action.run same.symm)) _ _
  | _ => rfl

end SendState

/-! ## Whoever sleeps is attended to -/

/-- A sleeping worker has nothing to do, or somebody owes it a `notify_one`. -/
structure Attended (c : SendState) : Prop where
  loop : ∀ topic, c.asleep topic ≠ none -> c.node.pc (.worker topic) = .idle
  message : ∀ topic, c.asleep topic = some .forMessage ->
    (c.node.sendQueues topic).messages ≠ [] -> ∃ thread, c.owes thread = some topic
  flag : ∀ topic, c.asleep topic ≠ none -> c.flags topic = false -> c.owes .ros = some topic
  paid : ∀ topic, c.node.pc (.worker topic) = .idle -> c.owes (.worker topic) = none
  returned : ∀ topic, c.returned topic = true ->
    c.node.pc (.worker topic) = .idle ∧ c.asleep topic = none

namespace Attended

variable {cfg : BridgeConfig} {c d : SendState} {action : Action} {t : NodeState}

theorem initial (now : ℚ) : Attended (SendState.initial cfg now) where
  loop := fun _ sleeps => absurd rfl sleeps
  message := fun _ sleeps => by cases sleeps
  flag := fun _ sleeps => absurd rfl sleeps
  paid := fun _ _ => rfl
  returned := fun _ returned => by cases returned

/-- The worker whose queue the step looks at, or every worker, sleeps as before. -/
theorem asleep_moved
    (awake : ∀ topic, c.iterates action = some topic -> c.looping topic = true ∧ c.flags topic = true)
    {topic : ℕ} (sleeps : c.asleepAfter action t topic ≠ none) :
    (c.asleepAfter action t topic = c.asleep topic ∧ c.iterates action ≠ some topic) ∨
      (c.iterates action = some topic ∧ t.pc (.worker topic) = .idle ∧ c.flags topic = true ∧
        c.asleepAfter action t topic = some .forTokens) := by
  by_cases iterates : c.iterates action = some topic
  · have loop := SendState.looping_iff.mp (awake topic iterates).1
    rcases c.asleepAfter_cases action t with same | ⟨other, own, idle, updated⟩
    · rw [same] at sleeps
      exact absurd loop.2.1 sleeps
    · cases iterates.symm.trans own
      refine .inr ⟨iterates, idle, (awake topic iterates).2, ?_⟩
      rw [updated, Function.update_self]
  · refine .inl ⟨?_, iterates⟩
    rcases c.asleepAfter_cases action t with same | ⟨other, own, idle, updated⟩
    · rw [same]
    · rw [updated, Function.update_of_ne]
      rintro rfl
      exact iterates own

theorem moved (attended : Attended c)
    (unpaid : ∀ thread, action.thread? = some thread -> c.owes thread = none)
    (awake : ∀ topic, c.iterates action = some topic ->
      c.looping topic = true ∧ c.flags topic = true)
    (stepped : nodeStep cfg c.node action = some t) :
    Attended { c with
      node := t, asleep := c.asleepAfter action t, owes := c.owesAfter cfg action } := by
  have step : NodeStep cfg c.node action t := nodeStep_cases stepped
  -- a worker in its loop only moves in an iteration
  have still : ∀ topic, c.node.pc (.worker topic) = .idle -> c.iterates action ≠ some topic ->
      t.pc (.worker topic) = .idle := by
    intro topic idle others
    refine (step.pc_worker fun own => others ?_).trans idle
    exact SendState.iterates_eq_some.mpr ⟨own, idle⟩
  -- who owes a call does nothing before it
  have owed : ∀ {thread : Thread} {topic : ℕ}, c.owes thread = some topic ->
      c.owesAfter cfg action thread = some topic := by
    intro thread topic owes
    rw [SendState.owesAfter_of_ne, owes]
    rintro rfl
    rw [unpaid thread rfl] at owes
    cases owes
  refine ⟨?_, ?_, ?_, ?_, ?_⟩
  · intro topic sleeps
    rcases asleep_moved awake sleeps with ⟨same, others⟩ | ⟨-, idle, -⟩
    · exact still topic (attended.loop topic (same ▸ sleeps)) others
    · exact idle
  · intro topic (sleeps : c.asleepAfter action t topic = some .forMessage)
      (queued : (t.sendQueues topic).messages ≠ [])
    rcases asleep_moved awake (by rw [sleeps]; exact Option.some_ne_none _) with
      ⟨same, others⟩ | ⟨-, -, -, short⟩
    · have before : c.asleep topic = some .forMessage := same.symm.trans sleeps
      rcases step.queue_cases topic with kept | ⟨thread, message, own, enqueues, -⟩ | ⟨own, idle⟩
      · rcases attended.message topic before (by rwa [kept] at queued) with ⟨thread, owes⟩
        exact ⟨thread, owed owes⟩
      · subst own
        exact ⟨thread, (SendState.owesAfter_run thread).trans enqueues⟩
      · exact absurd (SendState.iterates_eq_some.mpr ⟨own, idle⟩) others
    · rw [sleeps] at short
      cases short
  · intro topic sleeps cleared
    rcases asleep_moved awake sleeps with ⟨same, -⟩ | ⟨-, -, set, -⟩
    · exact owed (attended.flag topic (same ▸ sleeps) cleared)
    · rw [cleared] at set
      cases set
  · intro topic (idle : t.pc (.worker topic) = .idle)
    show c.owesAfter cfg action (.worker topic) = none
    by_cases own : action = .run (.worker topic)
    · subst own
      rw [SendState.owesAfter_run]
      cases enqueues : c.node.enqueues cfg (.worker topic) with
      | none => rfl
      | some other => exact absurd idle (NodeState.busy_of_enqueues Thread.noConfusion enqueues stepped)
    · rw [SendState.owesAfter_of_ne own]
      exact attended.paid topic ((step.pc_worker own).symm.trans idle)
  · intro topic returned
    rcases attended.returned topic returned with ⟨idle, asleep⟩
    have others : c.iterates action ≠ some topic := by
      intro iterates
      have present := (SendState.looping_iff.mp (awake topic iterates).1).2.2.1
      rw [returned] at present
      cases present
    refine ⟨still topic idle others, ?_⟩
    by_contra (sleeps : c.asleepAfter action t topic ≠ none)
    rcases asleep_moved awake sleeps with ⟨same, -⟩ | ⟨own, -⟩
    · exact sleeps (same.trans asleep)
    · exact others own

/-- The worker of a topic wakes up, and at most the calls for that topic are made. -/
theorem wakes (attended : Attended c) (topic : ℕ) {owes : Thread -> Option ℕ}
    (kept : ∀ thread other, other ≠ topic -> c.owes thread = some other ->
      owes thread = some other)
    (fewer : ∀ thread, c.owes thread = none -> owes thread = none) :
    Attended { c with asleep := Function.update c.asleep topic none, owes := owes } := by
  have elsewhere : ∀ {other : ℕ}, Function.update c.asleep topic none other ≠ none ->
      other ≠ topic ∧ Function.update c.asleep topic none other = c.asleep other := by
    intro other sleeps
    have different : other ≠ topic := by
      rintro rfl
      exact sleeps (Function.update_self _ _ _)
    exact ⟨different, Function.update_of_ne different _ _⟩
  refine ⟨?_, ?_, ?_, ?_, ?_⟩
  · intro other sleeps
    rcases elsewhere sleeps with ⟨-, same⟩
    exact attended.loop other (same ▸ sleeps)
  · intro other (sleeps : Function.update c.asleep topic none other = some .forMessage) queued
    rcases elsewhere (by rw [sleeps]; exact Option.some_ne_none _) with ⟨different, same⟩
    rcases attended.message other (same.symm.trans sleeps) queued with ⟨thread, owed⟩
    exact ⟨thread, kept thread other different owed⟩
  · intro other sleeps cleared
    rcases elsewhere sleeps with ⟨different, same⟩
    exact kept .ros other different (attended.flag other (same ▸ sleeps) cleared)
  · exact fun other idle => fewer _ (attended.paid other idle)
  · intro other returned
    refine ⟨(attended.returned other returned).1, ?_⟩
    by_contra sleeps
    exact sleeps ((elsewhere sleeps).2.trans (attended.returned other returned).2)

/-- A worker goes to sleep on its empty queue. -/
theorem sleeps (attended : Attended c) {topic : ℕ} (loop : c.looping topic = true)
    (flag : c.flags topic = true) (empty : (c.node.sendQueues topic).messages = []) :
    Attended { c with asleep := Function.update c.asleep topic (some .forMessage) } := by
  rcases SendState.looping_iff.mp loop with ⟨idle, -, present, -⟩
  have elsewhere : ∀ {other : ℕ}, other ≠ topic ->
      Function.update c.asleep topic (some .forMessage) other = c.asleep other :=
    fun different => Function.update_of_ne different _ _
  refine ⟨?_, ?_, ?_, attended.paid, ?_⟩
  · intro other sleeps
    by_cases same : other = topic
    · rwa [same]
    · exact attended.loop other (elsewhere same ▸ sleeps)
  · intro other sleeps queued
    by_cases same : other = topic
    · subst same
      exact absurd empty queued
    · exact attended.message other ((elsewhere same).symm.trans sleeps) queued
  · intro other sleeps cleared
    by_cases same : other = topic
    · subst same
      exact Bool.noConfusion (flag.symm.trans cleared)
    · exact attended.flag other (elsewhere same ▸ sleeps) cleared
  · intro other returned
    have different : other ≠ topic := by
      rintro rfl
      exact Bool.noConfusion (present.symm.trans returned)
    rcases attended.returned other returned with ⟨at_loop, awake⟩
    exact ⟨at_loop, (elsewhere different).trans awake⟩

theorem leaves (attended : Attended c) {topic : ℕ} (loop : c.looping topic = true) :
    Attended { c with returned := Function.update c.returned topic true } := by
  rcases SendState.looping_iff.mp loop with ⟨idle, awake, -, -⟩
  refine ⟨attended.loop, attended.message, attended.flag, attended.paid, ?_⟩
  intro other (returned : Function.update c.returned topic true other = true)
  by_cases same : other = topic
  · subst same
    exact ⟨idle, awake⟩
  · rw [Function.update_of_ne same] at returned
    exact attended.returned other returned

/-- `main` clears the flag of a worker, and owes the call that wakes it. -/
theorem flagCleared (attended : Attended c) {topic : ℕ} {main : MainPc}
    (unpaid : c.owes .ros = none) :
    Attended { c with
      flags := Function.update c.flags topic false
      owes := Function.update c.owes .ros (some topic)
      main := main } := by
  refine ⟨attended.loop, ?_, ?_, ?_, attended.returned⟩
  · intro other sleeps queued
    rcases attended.message other sleeps queued with ⟨thread, owed⟩
    have another : thread ≠ .ros := by
      rintro rfl
      rw [unpaid] at owed
      cases owed
    exact ⟨thread, (Function.update_of_ne another _ _).trans owed⟩
  · intro other sleeps (cleared : Function.update c.flags topic false other = false)
    by_cases same : other = topic
    · rw [same]
      exact Function.update_self Thread.ros (some topic) c.owes
    · rw [Function.update_of_ne same] at cleared
      have owed := attended.flag other sleeps cleared
      rw [unpaid] at owed
      cases owed
  · intro other idle
    have another : Thread.worker other ≠ .ros := Thread.noConfusion
    exact (Function.update_of_ne another (some topic) c.owes).trans (attended.paid other idle)

theorem step {action : SendAction} (attended : Attended c) (step : SendStep cfg c action d) :
    Attended d := by
  cases step with
  | moved unpaid awake stepped => exact attended.moved unpaid awake stepped
  | slept loop flag empty => exact attended.sleeps loop flag empty
  | timedOut => exact attended.wakes _ (fun _ _ _ owed => owed) (fun _ paid => paid)
  | woke => exact attended.wakes _ (fun _ _ _ owed => owed) (fun _ paid => paid)
  | @notified thread topic owed =>
      refine attended.wakes topic ?_ ?_
      · intro other about different owes
        have another : other ≠ thread := by
          rintro rfl
          exact different (Option.some.inj (owes.symm.trans owed))
        exact (Function.update_of_ne another _ _).trans owes
      · intro other paid
        by_cases same : other = thread
        · rw [same, Function.update_self]
        · rwa [Function.update_of_ne same]
  | left loop => exact attended.leaves loop
  | flagCleared _ unpaid => exact attended.flagCleared unpaid
  | faultStopped | closed | skipped | joined | threw =>
      exact ⟨attended.loop, attended.message, attended.flag, attended.paid, attended.returned⟩

theorem of_reachable (run : (sendNode cfg).Reachable c) : Attended c := by
  apply run.invariant (P := Attended)
  · rintro c ⟨now, rfl⟩
    exact initial now
  · exact fun _ _ _ _ attended _ stepped => attended.step (sendStep_cases stepped)

end Attended

/-! ## What a step leaves as it is -/

namespace SendStep

variable {cfg : BridgeConfig} {c d : SendState} {action : SendAction} {topic : ℕ}
  {thread : Thread}

/-- A call that is owed stays owed until the thread makes it. -/
theorem owes_kept (step : SendStep cfg c action d) (owed : c.owes thread = some topic)
    (other : action ≠ .notify thread) : d.owes thread = some topic := by
  have unpaid_ne : ∀ {payer : Thread}, c.owes payer = none -> thread ≠ payer := by
    rintro payer paid rfl
    rw [paid] at owed
    cases owed
  cases step with
  | @moved action t unpaid =>
      refine (SendState.owesAfter_of_ne ?_).trans owed
      rintro rfl
      exact unpaid_ne (unpaid thread rfl) rfl
  | @notified payer =>
      have different : thread ≠ payer := fun same => other (congrArg _ same.symm)
      exact (Function.update_of_ne different none c.owes).trans owed
  | @flagCleared stopping _ unpaid =>
      exact (Function.update_of_ne (unpaid_ne unpaid) (some stopping) c.owes).trans owed
  | _ => exact owed

/-- A thread that owes a call makes it before it does anything else. -/
theorem calls_first (attended : Attended c) (step : SendStep cfg c action d)
    (owed : c.owes thread = some topic) (own : action.thread? = some thread) :
    action = .notify thread := by
  have paid_ne : c.owes thread ≠ none := by
    rw [owed]
    exact Option.some_ne_none topic
  have awake : ∀ {sleeper : ℕ}, c.asleep sleeper ≠ none -> c.owes (.worker sleeper) = none :=
    fun sleeps => attended.paid _ (attended.loop _ sleeps)
  cases step with
  | moved unpaid => exact absurd (unpaid thread own) paid_ne
  | slept loop =>
      cases own
      exact absurd (SendState.looping_iff.mp loop).2.2.2 paid_ne
  | @timedOut sleeper sleeps =>
      cases own
      refine absurd (awake ?_) paid_ne
      rw [sleeps]
      exact Option.some_ne_none _
  | woke sleeps =>
      cases own
      exact absurd (awake sleeps) paid_ne
  | notified =>
      cases own
      rfl
  | left loop =>
      cases own
      exact absurd (SendState.looping_iff.mp loop).2.2.2 paid_ne
  | faultStopped _ unpaid | closed _ unpaid | flagCleared _ unpaid | skipped _ unpaid
  | joined _ unpaid | threw unpaid =>
      cases own
      exact absurd unpaid paid_ne

/-- A thread comes to owe a call in its own steps, and the ROS thread also when `main` clears
a flag. -/
theorem paid_kept (step : SendStep cfg c action d) (paid : c.owes thread = none)
    (other : action ≠ .node (.run thread)) :
    d.owes thread = none ∨ (thread = .ros ∧ d.main ≠ c.main) := by
  cases step with
  | @moved action t unpaid =>
      exact .inl ((SendState.owesAfter_of_ne fun own => other (congrArg _ own)).trans paid)
  | @notified payer =>
      by_cases same : thread = payer
      · rw [same]
        exact .inl (Function.update_self payer none c.owes)
      · exact .inl ((Function.update_of_ne same none c.owes).trans paid)
  | @flagCleared stopping at_main =>
      by_cases same : thread = .ros
      · refine .inr ⟨same, ?_⟩
        rw [at_main]
        simp
      · exact .inl ((Function.update_of_ne same (some stopping) c.owes).trans paid)
  | _ => exact .inl paid

/-- A cleared flag stays cleared. -/
theorem flag_kept (step : SendStep cfg c action d) (cleared : c.flags topic = false) :
    d.flags topic = false := by
  cases step with
  | @flagCleared other =>
      show Function.update c.flags other false topic = false
      by_cases same : topic = other
      · rw [same, Function.update_self]
      · rwa [Function.update_of_ne same]
  | _ => exact cleared

/-- A sleeping worker sleeps on, or wakes up. -/
theorem asleep_kept {how : SendSleep} (step : SendStep cfg c action d)
    (sleeps : c.asleep topic = some how) :
    d.asleep topic = some how ∨ d.asleep topic = none := by
  have awake_ne : ∀ {other : ℕ}, c.looping other = true -> topic ≠ other := by
    rintro other loop rfl
    rw [(SendState.looping_iff.mp loop).2.1] at sleeps
    cases sleeps
  have wakes : ∀ other, Function.update c.asleep other none topic = some how ∨
      Function.update c.asleep other none topic = none := by
    intro other
    by_cases same : topic = other
    · exact .inr (by rw [same, Function.update_self])
    · exact .inl (by rw [Function.update_of_ne same, sleeps])
  cases step with
  | @moved action t _ awake =>
      rcases c.asleepAfter_cases action t with same | ⟨other, iterates, -, updated⟩
      · exact .inl ((congrFun same topic).trans sleeps)
      · refine .inl ?_
        show c.asleepAfter action t topic = some how
        rw [updated, Function.update_of_ne (awake_ne (awake other iterates).1), sleeps]
  | @slept other loop =>
      exact .inl ((Function.update_of_ne (awake_ne loop) (some .forMessage) c.asleep).trans sleeps)
  | timedOut => exact wakes _
  | woke => exact wakes _
  | notified => exact wakes _
  | _ => exact .inl sleeps

/-- A worker in its loop leaves it only when it finds its flag set. -/
theorem idle_kept (step : SendStep cfg c action d) (idle : c.node.pc (.worker topic) = .idle)
    (cleared : c.flags topic = false) : d.node.pc (.worker topic) = .idle := by
  cases step with
  | @moved action t _ awake stepped =>
      refine ((nodeStep_cases stepped).pc_worker fun own => ?_).trans idle
      have set := (awake topic (SendState.iterates_eq_some.mpr ⟨own, idle⟩)).2
      rw [cleared] at set
      cases set
  | _ => exact idle

/-- With its flag cleared a worker does not go to sleep any more. -/
theorem awake_kept (step : SendStep cfg c action d) (awake : c.asleep topic = none)
    (cleared : c.flags topic = false) : d.asleep topic = none := by
  have set_ne : ∀ {other : ℕ}, c.flags other = true -> topic ≠ other := by
    rintro other set rfl
    rw [cleared] at set
    cases set
  cases step with
  | @moved action t _ sets =>
      rcases c.asleepAfter_cases action t with same | ⟨other, iterates, -, updated⟩
      · exact (congrFun same topic).trans awake
      · refine (congrFun updated topic).trans ?_
        rwa [Function.update_of_ne (set_ne (sets other iterates).2)]
  | @slept other _ flag =>
      exact (Function.update_of_ne (set_ne flag) (some .forMessage) c.asleep).trans awake
  | timedOut | woke | notified => exact SendState.update_none awake _
  | _ => exact awake

theorem returned_of_leave (step : SendStep cfg c (.leave topic) d) :
    d.returned topic = true := by
  cases step
  exact Function.update_self topic true c.returned

/-- The call wakes the worker. -/
theorem awake_of_notify (step : SendStep cfg c (.notify thread) d)
    (owed : c.owes thread = some topic) : d.asleep topic = none := by
  cases step with
  | notified owes =>
      cases owed.symm.trans owes
      exact Function.update_self topic none c.asleep

theorem paid_of_run (step : SendStep cfg c (.node (.run thread)) d) : c.owes thread = none := by
  cases step with
  | moved unpaid => exact unpaid thread rfl

theorem owes_of_run (step : SendStep cfg c (.node (.run thread)) d) :
    d.owes thread = c.node.enqueues cfg thread := by
  cases step
  exact SendState.owesAfter_run thread

theorem paid_of_notify (step : SendStep cfg c (.notify thread) d) : d.owes thread = none := by
  cases step
  exact Function.update_self thread none c.owes

theorem awake_of_timeout (step : SendStep cfg c (.timeout topic) d) : d.asleep topic = none := by
  cases step
  exact Function.update_self topic none c.asleep

end SendStep

/-- A worker that sleeps without a limit has an empty queue and a set flag, or a thread has
still to call `notify_one` for its topic.  A worker that sleeps with a limit has a set
flag, or `main` has still to call it.  A thread that owes the call takes no step before it:
every step that is possible is the call, which wakes the worker, or a step of another thread,
after which the call is still owed. -/
theorem no_worker_oversleeps {cfg : BridgeConfig} {c : SendState}
    (run : (sendNode cfg).Reachable c) (topic : ℕ) :
    (c.asleep topic = some .forMessage ->
      ((c.node.sendQueues topic).messages = [] ∧ c.flags topic = true) ∨
        ∃ thread, c.owes thread = some topic) ∧
    (c.asleep topic = some .forTokens -> c.flags topic = true ∨ c.owes .ros = some topic) ∧
    (∀ thread, c.owes thread = some topic -> ∀ action d, sendStep cfg c action = some d ->
      (action = .notify thread ∧ d.asleep topic = none) ∨
        (action.thread? ≠ some thread ∧ d.owes thread = some topic)) := by
  have attended := Attended.of_reachable run
  refine ⟨?_, ?_, ?_⟩
  · intro sleeps
    have asleep : c.asleep topic ≠ none := by
      rw [sleeps]
      exact Option.some_ne_none _
    by_cases empty : (c.node.sendQueues topic).messages = []
    · cases flag : c.flags topic with
      | true => exact .inl ⟨empty, rfl⟩
      | false => exact .inr ⟨.ros, attended.flag topic asleep flag⟩
    · exact .inr (attended.message topic sleeps empty)
  · intro sleeps
    have asleep : c.asleep topic ≠ none := by
      rw [sleeps]
      exact Option.some_ne_none _
    cases flag : c.flags topic with
    | true => exact .inl rfl
    | false => exact .inr (attended.flag topic asleep flag)
  · intro thread owed action d stepped
    have step := sendStep_cases stepped
    by_cases own : action = .notify thread
    · subst own
      exact .inl ⟨rfl, step.awake_of_notify owed⟩
    · exact .inr ⟨fun same => own (step.calls_first attended owed same), step.owes_kept owed own⟩

/-- One topic with ten bytes a second. -/
def slowConfig : BridgeConfig where
  sendTopics := [⟨80, .buffer⟩]
  recvTopics := []
  nodeFault := none
  durationCast := id
  undefinedSize := fun _ => 0

/-- The worker sleeps on its empty queue when five bytes arrive for its two tokens. -/
def shortSchedule : List SendAction :=
  [.node (.run .monitor), .node (.run (.worker 0)), .wait 0,
    .node (.arrive (.send 0) ⟨5, [0]⟩), .node (.run .ros), .node (.run .ros), .node (.run .ros)]

/-- A worker sleeps on a queue that holds a message, and the call that wakes it is owed. -/
theorem no_worker_oversleeps_short :
    ∃ c, (sendNode slowConfig).Reachable c ∧ c.asleep 0 = some .forMessage ∧
      ((c.node.sendQueues 0).messages = [] ∧ c.flags 0 = true ∨
        ∃ thread, c.owes thread = some 0) := by
  have executed : ((sendNode slowConfig).exec (fun _ _ => True)
      (SendState.initial slowConfig 0) shortSchedule).map (fun c => c.asleep 0) =
      some (some .forMessage) := by
    decide +kernel
  have started : (sendNode slowConfig).init (SendState.initial slowConfig 0) := ⟨0, rfl⟩
  rcases Machine.exists_reaches_of_exec _ started executed with ⟨c, reached, sleeps⟩
  exact ⟨c, reached, sleeps, (no_worker_oversleeps reached 0).1 sleeps⟩

end SwarmBridge
