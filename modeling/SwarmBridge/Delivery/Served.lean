import SwarmBridge.Delivery.FairSend
import SwarmBridge.Delivery.TokenWait

namespace SwarmBridge

open Foundation

/-!
# The front message of a limited topic is served

Between two looks at its queue a worker sleeps, for a message or for tokens.  It is woken
for a message, and its sleep for tokens has a limit, so it looks at a queue that is not
empty again and again.  As long as the front message stays there, the tokens it finds grow
with the clock, and no look is made for nothing for ever.
-/

namespace SendState

/-- The worker of the topic is in its inner loop, asleep or not, with a message to send. -/
structure AtQueue (c : SendState) (topic : ℕ) : Prop where
  loop : c.node.pc (.worker topic) = .idle
  present : c.returned topic = false
  queued : (c.node.sendQueues topic).messages ≠ []

/-- With this step the worker of the topic looks at the front message, or returns. -/
def Looks (c : SendState) (action : SendAction) (topic : ℕ) : Prop :=
  (action = .node (.run (.worker topic)) ∧ c.node.pc (.worker topic) = .idle) ∨
    action = .leave topic

variable {cfg : BridgeConfig} {c d : SendState} {action : SendAction} {topic : ℕ}

theorem AtQueue.kept (at_queue : c.AtQueue topic) (step : SendStep cfg c action d) :
    d.AtQueue topic ∨ c.Looks action topic := by
  cases step with
  | @moved action t _ _ stepped =>
      have step : NodeStep cfg c.node action t := nodeStep_cases stepped
      by_cases own : action = .run (.worker topic)
      · exact .inr (.inl ⟨congrArg _ own, at_queue.loop⟩)
      · refine .inl ⟨(step.pc_worker own).trans at_queue.loop, at_queue.present, ?_⟩
        rcases step.queue_cases topic with same | ⟨_, message, _, _, appended⟩ | ⟨runs, _⟩
        · rw [same]
          exact at_queue.queued
        · rcases enqueueSendMessage_kept cfg.undefinedSize (cfg.topic (.send topic)).maxBitrate
            message (c.node.sendQueues topic) with ⟨kept, -, messages⟩
          rw [appended, messages]
          exact List.concat_ne_nil message kept
        · exact absurd runs own
  | @left other =>
      by_cases same : topic = other
      · exact .inr (.inr (congrArg _ same.symm))
      · exact .inl ⟨at_queue.loop, (Function.update_of_ne same true c.returned).trans
          at_queue.present, at_queue.queued⟩
  | _ => exact .inl ⟨at_queue.loop, at_queue.present, at_queue.queued⟩

/-- A worker that is awake does not go to sleep before it has looked. -/
theorem AtQueue.awake_kept (at_queue : c.AtQueue topic) (awake : c.asleep topic = none)
    (step : SendStep cfg c action d) : d.asleep topic = none ∨ c.Looks action topic := by
  cases step with
  | @moved action t =>
      rcases c.asleepAfter_cases action t with same | ⟨other, iterates, -, updated⟩
      · exact .inl ((congrFun same topic).trans awake)
      · by_cases own : topic = other
        · subst own
          exact .inr (.inl ⟨congrArg _ (iterates_eq_some.mp iterates).1, at_queue.loop⟩)
        · refine .inl ((congrFun updated topic).trans ?_)
          rwa [Function.update_of_ne own]
  | @slept other _ _ empty =>
      by_cases own : topic = other
      · subst own
        exact absurd empty at_queue.queued
      · exact .inl ((Function.update_of_ne own (some .forMessage) c.asleep).trans awake)
  | timedOut | woke | notified => exact .inl (update_none awake _)
  | _ => exact .inl awake

/-- A worker that is awake and finds its flag set can look at the front message. -/
theorem AtQueue.enabled (at_queue : c.AtQueue topic) (attended : Attended c)
    (alive : c.ended = false) (awake : c.asleep topic = none) (flag : c.flags topic = true) :
    sendStep cfg c (.node (.run (.worker topic))) ≠ none := by
  have paid := attended.paid topic at_queue.loop
  have loop : c.looping topic = true :=
    looping_iff.mpr ⟨at_queue.loop, awake, at_queue.present, paid⟩
  rcases List.exists_cons_of_ne_nil at_queue.queued with ⟨front, rest, messages⟩
  have open_ : c.writesClosed cfg (.worker topic) = false := by
    rw [writesClosed, at_queue.loop]
    rfl
  simp [sendStep_of_alive alive, liveStep, runnable, iterates, Action.thread?, at_queue.loop, loop,
    flag, paid, open_, nodeStep, NodeState.section?, messages]

/-- A worker that is awake and finds its flag cleared can return. -/
theorem AtQueue.leaves (at_queue : c.AtQueue topic) (attended : Attended c)
    (alive : c.ended = false) (awake : c.asleep topic = none) (flag : c.flags topic = false) :
    sendStep cfg c (.leave topic) ≠ none := by
  have loop : c.looping topic = true :=
    looping_iff.mpr ⟨at_queue.loop, awake, at_queue.present, attended.paid topic at_queue.loop⟩
  simp [sendStep_of_alive alive, liveStep, loop, flag]

end SendState

/-! ## The worker looks again and again -/

namespace FairSend

variable {cfg : BridgeConfig} {origin : SendState} {topic : ℕ} {n : ℕ}
  {trace : (sendNode cfg).Trace (fun _ _ => True) origin}

/-- The worker looks at the front message of its queue with the step from position `n`, or
returns. -/
def LooksAt (trace : (sendNode cfg).Trace (fun _ _ => True) origin) (topic n : ℕ) : Prop :=
  (trace.state n).Looks (trace.action n) topic

/-- A prompt step that stays enabled as long as `R` holds brings `S` about, unless the worker
looks first. -/
theorem looks_or (fair : FairSend trace) {R S : SendState -> Prop} (action : SendAction)
    (prompt : action.prompt = true)
    (enabled : ∀ m, (trace.state m).AtQueue topic -> R (trace.state m) ->
      sendStep cfg (trace.state m) action ≠ none)
    (keep : ∀ m, (trace.state m).AtQueue topic -> R (trace.state m) ->
      R (trace.state (m + 1)) ∨ S (trace.state (m + 1)) ∨ LooksAt trace topic m)
    (helps : ∀ m, (trace.state m).AtQueue topic -> R (trace.state m) -> trace.action m = action ->
      S (trace.state (m + 1)) ∨ LooksAt trace topic m)
    (at_queue : (trace.state n).AtQueue topic) (now : R (trace.state n)) :
    ∃ m, n ≤ m ∧ (LooksAt trace topic m ∨
      (trace.state (m + 1)).AtQueue topic ∧ S (trace.state (m + 1))) := by
  refine Machine.Trace.leads_to (P := fun m => (trace.state m).AtQueue topic ∧ R (trace.state m))
    (fair.fair action prompt) ?_ ?_ ?_ ⟨at_queue, now⟩
  · exact fun m now => enabled m now.1 now.2
  · rintro m ⟨at_queue, now⟩
    rcases at_queue.kept (step trace m) with stays | looks
    · rcases keep m at_queue now with same | goal | looks
      · exact .inl ⟨stays, same⟩
      · exact .inr (.inr ⟨stays, goal⟩)
      · exact .inr (.inl looks)
    · exact .inr (.inl looks)
  · rintro m ⟨at_queue, now⟩ taken
    rcases helps m at_queue now taken with goal | looks
    · exact (at_queue.kept (step trace m)).symm.imp_right fun stays => ⟨stays, goal⟩
    · exact .inl looks

theorem looks_of_cleared (fair : FairSend trace) (at_queue : (trace.state n).AtQueue topic)
    (awake : (trace.state n).asleep topic = none) (flag : (trace.state n).flags topic = false) :
    ∃ m, n ≤ m ∧ LooksAt trace topic m := by
  have comes : ∃ m, n ≤ m ∧ (LooksAt trace topic m ∨
      (trace.state (m + 1)).AtQueue topic ∧ False) := by
    apply fair.looks_or (R := fun c => c.asleep topic = none ∧ c.flags topic = false)
      (S := fun _ => False) (.leave topic) rfl _ _ _ at_queue ⟨awake, flag⟩
    · exact fun m at_queue now => at_queue.leaves (fair.attended m) (alive trace m) now.1 now.2
    · rintro m at_queue ⟨awake, flag⟩
      rcases at_queue.awake_kept awake (step trace m) with awake | looks
      · exact .inl ⟨awake, (step trace m).flag_kept flag⟩
      · exact .inr (.inr looks)
    · exact fun m _ _ leaves => .inr (.inr leaves)
  rcases comes with ⟨m, after, looks | ⟨-, impossible⟩⟩
  · exact ⟨m, after, looks⟩
  · exact impossible.elim

theorem looks_of_awake (fair : FairSend trace) (at_queue : (trace.state n).AtQueue topic)
    (awake : (trace.state n).asleep topic = none) : ∃ m, n ≤ m ∧ LooksAt trace topic m := by
  by_cases flag : (trace.state n).flags topic = true
  · -- the worker looks, or its flag is cleared first
    have comes : ∃ m, n ≤ m ∧ (LooksAt trace topic m ∨ (trace.state (m + 1)).AtQueue topic ∧
        (trace.state (m + 1)).asleep topic = none ∧
        (trace.state (m + 1)).flags topic = false) := by
      apply fair.looks_or (R := fun c => c.asleep topic = none ∧ c.flags topic = true)
        (S := fun c => c.asleep topic = none ∧ c.flags topic = false)
        (.node (.run (.worker topic))) rfl _ _ _ at_queue ⟨awake, flag⟩
      · exact fun m at_queue now => at_queue.enabled (fair.attended m) (alive trace m) now.1 now.2
      · rintro m at_queue ⟨awake, _⟩
        rcases at_queue.awake_kept awake (step trace m) with awake | looks
        · by_cases after : (trace.state (m + 1)).flags topic = true
          · exact .inl ⟨awake, after⟩
          · exact .inr (.inl ⟨awake, Bool.eq_false_iff.mpr after⟩)
        · exact .inr (.inr looks)
      · exact fun m at_queue _ runs => .inr (.inl ⟨runs, at_queue.loop⟩)
    rcases comes with ⟨m, after, looks | ⟨stays, awake, cleared⟩⟩
    · exact ⟨m, after, looks⟩
    · rcases fair.looks_of_cleared stays awake cleared with ⟨k, later, looks⟩
      exact ⟨k, by omega, looks⟩
  · exact fair.looks_of_cleared at_queue awake (Bool.eq_false_iff.mpr flag)

/-- A sleeping worker wakes up before it looks. -/
theorem wakes_of_asleep (fair : FairSend trace) {how : SendSleep}
    (at_queue : (trace.state n).AtQueue topic) (sleeps : (trace.state n).asleep topic = some how) :
    ∃ m, n ≤ m ∧ (LooksAt trace topic m ∨
      (trace.state (m + 1)).AtQueue topic ∧ (trace.state (m + 1)).asleep topic = none) := by
  cases how with
  | forTokens =>
      apply fair.looks_or (R := fun c => c.asleep topic = some .forTokens)
        (S := fun c => c.asleep topic = none) (.timeout topic) rfl _ _ _ at_queue sleeps
      · intro m _ sleeps
        simp [sendStep_of_alive (alive trace m), SendState.liveStep, sleeps]
      · exact fun m _ sleeps => ((step trace m).asleep_kept sleeps).imp_right .inl
      · intro m _ _ expires
        have step := step trace m
        rw [expires] at step
        exact .inl step.awake_of_timeout
  | forMessage =>
      rcases (fair.attended n).message topic sleeps at_queue.queued with ⟨thread, owed⟩
      have called : ∀ m, (trace.state m).owes thread = some topic ->
          trace.action m = .notify thread -> (trace.state (m + 1)).asleep topic = none := by
        intro m owed calls
        have step := step trace m
        rw [calls] at step
        exact step.awake_of_notify owed
      apply fair.looks_or
        (R := fun c => c.asleep topic = some .forMessage ∧ c.owes thread = some topic)
        (S := fun c => c.asleep topic = none) (.notify thread) rfl _ _ _ at_queue
        ⟨sleeps, owed⟩
      · rintro m _ ⟨_, owed⟩
        simp [sendStep_of_alive (alive trace m), SendState.liveStep, owed]
      · rintro m _ ⟨sleeps, owed⟩
        by_cases calls : trace.action m = .notify thread
        · exact .inr (.inl (called m owed calls))
        · exact ((step trace m).asleep_kept sleeps).imp
            (fun same => ⟨same, (step trace m).owes_kept owed calls⟩) .inl
      · exact fun m _ now calls => .inl (called m now.2 calls)

/-- A worker with a message in its queue looks at it, or returns. -/
theorem looks (fair : FairSend trace) (at_queue : (trace.state n).AtQueue topic) :
    ∃ m, n ≤ m ∧ LooksAt trace topic m := by
  cases sleeps : (trace.state n).asleep topic with
  | none => exact fair.looks_of_awake at_queue sleeps
  | some how =>
      rcases fair.wakes_of_asleep at_queue sleeps with ⟨m, after, looks | ⟨stays, awake⟩⟩
      · exact ⟨m, after, looks⟩
      · rcases fair.looks_of_awake stays awake with ⟨k, later, looks⟩
        exact ⟨k, by omega, looks⟩

end FairSend

/-! ## The tokens of the front message -/

/-- Only the worker refills and spends its tokens. -/
theorem NodeStep.bucket_kept {cfg : BridgeConfig} {s t : NodeState} {action : Action} {topic : ℕ}
    (step : NodeStep cfg s action t) (other : action ≠ .run (.worker topic)) :
    t.buckets topic = s.buckets topic := by
  have different : ∀ {worker : ℕ}, Action.run (.worker worker) ≠ .run (.worker topic) ->
      topic ≠ worker := by
    rintro worker others rfl
    exact others rfl
  cases step with
  | startWorker => exact Function.update_of_ne (different other) _ _
  | awaitTokens => exact Function.update_of_ne (different other) _ _
  | dequeue => exact Function.update_of_ne (different other) _ _
  | _ => rfl

theorem NodeStep.clock_le {cfg : BridgeConfig} {s t : NodeState} {action : Action}
    (step : NodeStep cfg s action t) : s.now ≤ t.now := by
  cases step with
  | advance later => exact later
  | _ => exact le_rfl

namespace SendState

/-- The front message of the topic waits for its tokens, which are due at this time. -/
structure FrontWaits (cfg : BridgeConfig) (topic : ℕ) (front : Message) (due : ℚ)
    (c : SendState) : Prop where
  loop : c.node.pc (.worker topic) = .idle
  present : c.returned topic = false
  waits : (c.node.sendQueues topic).messages.head? = some front
  due_eq : tokensDue (cfg.topic (.send topic)).maxBitrate front (c.node.buckets topic) = due

/-- The worker has the message in its hand, or it is not at the front of the queue any more,
or the worker was stopped. -/
def FrontGone (topic : ℕ) (front : Message) (c : SendState) : Prop :=
  c.node.pc (.worker topic) = .entry (.pump front) ∨
    (c.node.sendQueues topic).messages.head? ≠ some front ∨ c.returned topic = true

variable {cfg : BridgeConfig} {c d : SendState} {action : SendAction} {topic : ℕ}
  {front : Message} {due : ℚ}

theorem FrontWaits.at_queue (waiting : c.FrontWaits cfg topic front due) : c.AtQueue topic where
  loop := waiting.loop
  present := waiting.present
  queued := by
    intro empty
    have front := waiting.waits
    rw [empty] at front
    cases front

/-- A look takes the message if its tokens are due, and does not move the due time if not. -/
theorem FrontWaits.iteration (waiting : c.FrontWaits cfg topic front due)
    (limited : cfg.limited (.send topic) = true) {t : NodeState}
    (stepped : nodeStep cfg c.node (.run (.worker topic)) = some t) :
    (due ≤ c.node.now ∧ t.pc (.worker topic) = .entry (.pump front)) ∨
      (c.node.now < due ∧ t.pc (.worker topic) = .idle ∧
        t.sendQueues topic = c.node.sendQueues topic ∧
        tokensDue (cfg.topic (.send topic)).maxBitrate front (t.buckets topic) = due) := by
  have positive : 0 < (cfg.topic (.send topic)).maxBitrate := of_decide_eq_true limited
  have within := front_le_capacity (cfg.topic (.send topic)).maxBitrate front
  have pays : (front.dataLen : ℚ) ≤ (refillTokens (cfg.topic (.send topic)).maxBitrate c.node.now
      front.dataLen (c.node.buckets topic)).available ↔ due ≤ c.node.now := by
    rw [← waiting.due_eq]
    exact Bucket.le_refill_iff (bytesPerSecond_pos positive) within
  rcases List.head?_eq_some_iff.mp waiting.waits with ⟨rest, messages⟩
  simp only [nodeStep, waiting.loop, NodeState.section?, messages, Option.some.injEq] at stepped
  subst stepped
  by_cases ready : due ≤ c.node.now
  · refine .inl ⟨ready, ?_⟩
    rw [NodeState.sendFuncIteration, if_pos (pays.mpr ready), NodeState.move_pc,
      Function.update_self]
  · have short := not_le.mp fun enough => ready (pays.mp enough)
    have stays : tokensDue (cfg.topic (.send topic)).maxBitrate front
        (refillTokens (cfg.topic (.send topic)).maxBitrate c.node.now front.dataLen
          (c.node.buckets topic)) = due :=
      (Bucket.due_refill (bytesPerSecond_pos positive) within short).trans waiting.due_eq
    rw [NodeState.sendFuncIteration, if_neg (not_le.mpr short)]
    refine .inr ⟨not_le.mp ready, waiting.loop, rfl, ?_⟩
    dsimp only
    rwa [Function.update_self]

/-- The front message goes on waiting for the same time, or it is gone. -/
theorem FrontWaits.kept (waiting : c.FrontWaits cfg topic front due)
    (limited : cfg.limited (.send topic) = true) (step : SendStep cfg c action d) :
    d.FrontWaits cfg topic front due ∨ d.FrontGone topic front := by
  cases step with
  | @moved action t _ _ stepped =>
      have step : NodeStep cfg c.node action t := nodeStep_cases stepped
      by_cases own : action = .run (.worker topic)
      · subst own
        rcases waiting.iteration limited stepped with ⟨-, took⟩ | ⟨-, loop, queue, due_eq⟩
        · exact .inr (.inl took)
        · exact .inl ⟨loop, waiting.present, queue ▸ waiting.waits, due_eq⟩
      · by_cases waits : (t.sendQueues topic).messages.head? = some front
        · refine .inl ⟨(step.pc_worker own).trans waiting.loop, waiting.present, waits, ?_⟩
          rw [step.bucket_kept own]
          exact waiting.due_eq
        · exact .inr (.inr (.inl waits))
  | @left other =>
      by_cases same : topic = other
      · exact .inr (.inr (.inr (same ▸ Function.update_self topic true c.returned)))
      · exact .inl ⟨waiting.loop, (Function.update_of_ne same true c.returned).trans
          waiting.present, waiting.waits, waiting.due_eq⟩
  | _ => exact .inl ⟨waiting.loop, waiting.present, waiting.waits, waiting.due_eq⟩

/-- A look from the due time on takes the message. -/
theorem FrontWaits.gone_of_looks (waiting : c.FrontWaits cfg topic front due)
    (limited : cfg.limited (.send topic) = true) (ready : due ≤ c.node.now)
    (looks : c.Looks action topic) (step : SendStep cfg c action d) : d.FrontGone topic front := by
  rcases looks with ⟨rfl, -⟩ | rfl
  · cases step with
    | moved _ _ stepped =>
        rcases waiting.iteration limited stepped with ⟨-, took⟩ | ⟨early, -⟩
        · exact .inl took
        · exact absurd ready (not_le.mpr early)
  · cases step with
    | left => exact .inr (.inr (Function.update_self topic true c.returned))

end SendState

/-- The clock of the node never goes back. -/
theorem SendStep.clock_le {cfg : BridgeConfig} {c d : SendState} {action : SendAction}
    (step : SendStep cfg c action d) : c.node.now ≤ d.node.now := by
  cases step with
  | moved _ _ stepped => exact (nodeStep_cases stepped).clock_le
  | _ => exact le_rfl

/-- The front message of a limited topic waits for its tokens, and then for the next look. -/
theorem FairSend.front_leaves {cfg : BridgeConfig} {origin : SendState} {topic : ℕ}
    {front : Message} {due : ℚ} {trace : (sendNode cfg).Trace (fun _ _ => True) origin}
    (fair : FairSend trace) (clock : ∀ time, ∃ n, time ≤ (trace.state n).node.now)
    (limited : cfg.limited (.send topic) = true) {n : ℕ}
    (waiting : (trace.state n).FrontWaits cfg topic front due) :
    ∃ m, n ≤ m ∧ (trace.state m).FrontGone topic front := by
  have keep : ∀ m, (trace.state m).FrontWaits cfg topic front due ->
      (trace.state (m + 1)).FrontWaits cfg topic front due ∨
        (trace.state (m + 1)).FrontGone topic front :=
    fun m waiting => waiting.kept limited (FairSend.step trace m)
  have mono : Monotone fun m => (trace.state m).node.now :=
    monotone_nat_of_le_succ fun m => (FairSend.step trace m).clock_le
  rcases clock due with ⟨late, ready⟩
  rcases Machine.Trace.stays_or_leaves keep waiting (le_max_left n late) with still | ⟨m, after, gone⟩
  · rcases fair.looks still.at_queue with ⟨m, after, looks⟩
    rcases Machine.Trace.stays_or_leaves keep still after with still | ⟨k, later, gone⟩
    · refine ⟨m + 1, by omega, still.gone_of_looks limited ?_ looks (FairSend.step trace m)⟩
      exact ready.trans (mono (by omega))
    · exact ⟨k + 1, by omega, gone⟩
  · exact ⟨m + 1, by omega, gone⟩

/-- In a fair run in which the clock passes every time, the message that is at the front of
a limited topic while the worker is in its inner loop, asleep or not and with no message in
hand, is taken by the worker, evicted or left behind by a worker that was stopped, however
short of tokens the worker is and whatever else is appended meanwhile. -/
theorem front_message_is_served {cfg : BridgeConfig} {origin : SendState} {topic : ℕ}
    {front : Message} {trace : (sendNode cfg).Trace (fun _ _ => True) origin}
    (fair : FairSend trace) (clock : ∀ time, ∃ n, time ≤ (trace.state n).node.now)
    (limited : cfg.limited (.send topic) = true) {n : ℕ}
    (loop : (trace.state n).node.pc (.worker topic) = .idle)
    (present : (trace.state n).returned topic = false)
    (waits : ((trace.state n).node.sendQueues topic).messages.head? = some front) :
    ∃ m, n ≤ m ∧ (trace.state m).FrontGone topic front := by
  have waiting : (trace.state n).FrontWaits cfg topic front _ := ⟨loop, present, waits, rfl⟩
  exact fair.front_leaves clock limited waiting

/-- It is woken, waits for its tokens, sends, and sleeps again. -/
def servingSchedule : List SendAction :=
  [.notify .ros, .node (.run (.worker 0)), .node (.advance 1), .timeout 0,
    .node (.run (.worker 0)), .node (.run (.worker 0)), .node (.run (.worker 0)),
    .node (.run (.worker 0)), .wait 0]

/-- A message that is short of tokens is served in a fair run. -/
theorem front_message_is_served_slow :
    ∃ (origin : SendState) (trace : (sendNode slowConfig).Trace (fun _ _ => True) origin)
      (front : Message), ((trace.state 0).node.sendQueues 0).messages.head? = some front ∧
        ∃ m, (trace.state m).FrontGone 0 front := by
  have executed : (((sendNode slowConfig).exec (fun _ _ => True)
      (SendState.initial slowConfig 0) shortSchedule).bind fun c =>
      ((sendNode slowConfig).exec (fun _ _ => True) c servingSchedule).map fun d =>
      ((c.node.sendQueues 0).messages.head?,
        [decide (c.node.pc (.worker 0) = .idle), !c.returned 0, decide d.Idles])) =
      some (some ⟨0, ⟨5, [0]⟩⟩, [true, true, true]) := by
    decide +kernel
  rcases Option.bind_eq_some_iff.mp executed with ⟨c, first, executed⟩
  rcases Option.map_eq_some_iff.mp executed with ⟨d, second, observed⟩
  simp only [Prod.mk.injEq, List.cons.injEq, decide_eq_true_eq, Bool.not_eq_true'] at observed
  rcases observed with ⟨waits, loop, present, idles, -⟩
  have reached : (sendNode slowConfig).Reachable c :=
    Machine.reaches_of_exec ⟨0, rfl⟩ first
  have path : (sendNode slowConfig).Path (fun _ _ => True) c d := Machine.path_of_exec second
  have resting : d.Resting slowConfig :=
    lone_resting (reached.imp fun _ => .imp_right fun before => before.trans path) slow_single
      slow_absent idles
  rcases FairSend.exists_of_path reached path resting with ⟨trace, fair, clock, -⟩
  have begins : trace.state 0 = c := trace.begins
  have limited : slowConfig.limited (.send 0) = true := by decide +kernel
  have waits_first : ((trace.state 0).node.sendQueues 0).messages.head? = some ⟨0, ⟨5, [0]⟩⟩ := by
    rwa [begins]
  rcases front_message_is_served fair clock limited (n := 0) (by rwa [begins]) (by rwa [begins])
    waits_first with ⟨m, -, gone⟩
  exact ⟨c, trace, _, waits_first, m, gone⟩

end SwarmBridge
