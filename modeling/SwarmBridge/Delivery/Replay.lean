import SwarmBridge.Recovery.Exclusive
import SwarmBridge.SimComm.Routing

namespace SwarmBridge

open Foundation

/-!
# A replay into the bitrate queue

On a rate-limited topic a flush puts its batch back into the bounded queue of the
topic, and the worker that empties the queue is stopped at its check as long as the
recovery lasts.  The batch therefore has to fit into the queue.  What does not fit
is dropped from the front, oldest first, as for every other message: the queue is
to hold a short backlog only.
-/

namespace Event

def evicted? : Event -> Option Message
  | .evicted _ message => some message
  | _ => none

end Event

namespace ChannelView

/-- The messages that `enqueue_send_message` dropped from the bitrate queue. -/
def evicted (view : ChannelView) : List Message :=
  view.log.filterMap fun entry => entry.event.evicted?

@[simp] theorem evicted_append (view : ChannelView) {entries : List Entry}
    {buffer queue : List Message} {holding pending : Thread -> List Message}
    {pastCheck : Thread -> Bool} :
    evicted ⟨view.log ++ entries, buffer, queue, holding, pending, pastCheck⟩ =
      view.evicted ++ entries.filterMap fun entry => entry.event.evicted? :=
  List.filterMap_append

@[simp] theorem evicted_log (view : ChannelView) {buffer queue : List Message}
    {holding pending : Thread -> List Message} {pastCheck : Thread -> Bool} :
    evicted ⟨view.log, buffer, queue, holding, pending, pastCheck⟩ = view.evicted := rfl

end ChannelView

namespace Pc

/-- The message that the ROS thread is about to put into the queue of the topic. -/
def enqueues (topic : ℕ) : Pc .ros -> List Message
  | .cleared (.dispatchSend other message) => if other = topic then [message] else []
  | _ => []

theorem quiet_enqueues {pc : Pc .ros} (quiet : pc.quiet = true) (topic : ℕ) :
    pc.enqueues topic = [] := by
  cases pc <;> first | rfl | cases quiet

theorem enqueues_sublist (topic : ℕ) (pc : Pc .ros) :
    (pc.enqueues topic).Sublist (pc.holding (.send topic)) := by
  cases pc with
  | cleared job =>
      cases job with
      | dispatchSend other message =>
          simp [enqueues, holding, job?, Job.channel, Job.message]
      | beforeZmq other message => exact List.nil_sublist _
  | _ => exact List.nil_sublist _

end Pc

namespace NodeState

variable {cfg : BridgeConfig} {topic : ℕ} {s t : NodeState} {action : Action}

/-- The message that the ROS thread is about to put into the queue of the topic. -/
def incoming (topic : ℕ) (s : NodeState) : List Message := (s.pc .ros).enqueues topic

/-! ## The byte counters -/

theorem counted_step (counted : ∀ topic, (s.sendQueues topic).Counted)
    (step : NodeStep cfg s action t) : ∀ topic, (t.sendQueues topic).Counted := by
  have update : ∀ {queue : SendQueue} {changed : ℕ}, queue.Counted -> ∀ topic,
      (Function.update s.sendQueues changed queue topic).Counted := by
    intro queue changed kept topic
    by_cases same : topic = changed
    · subst same
      rwa [Function.update_self]
    · rw [Function.update_of_ne same]
      exact counted topic
  cases step with
  | enqueue => exact update (enqueueSendMessage_counted _ _ _ (counted _))
  | replayQueued => exact update (enqueueSendMessage_counted _ _ _ (counted _))
  | @dequeue topic front rest bucket bytes at_loop queue refilled subtracted =>
      refine update ?_
      have before : SendQueue.Counted ⟨front :: rest, (s.sendQueues topic).bytes⟩ :=
        queue ▸ counted topic
      rw [subtracted]
      exact SendQueue.counted_tail before
  | _ => exact counted

theorem counted_of_reaches {allow : NodeState -> Action -> Prop}
    (run : (bridgeNode cfg).Reaches allow s) : ∀ topic, (s.sendQueues topic).Counted := by
  apply run.invariant (P := fun s => ∀ topic, (s.sendQueues topic).Counted)
  · rintro s ⟨now, rfl⟩ topic
    exact SendQueue.counted_empty
  · exact fun s a t _ counted _ stepped => counted_step counted (nodeStep_cases stepped)

/-! ## During a recovery -/

/-- No message comes nearer to the queue than it was when the recovery began. -/
theorem incoming_step (topic : ℕ) (recovering : s.nodeFaultRecovering = true) (notStop : action ≠ .stop)
    (step : NodeStep cfg s action t) :
    t.incoming topic = s.incoming topic ∨ t.incoming topic = [] := by
  rcases step.ros_pc notStop with same | ⟨_, _, arrived⟩ | rfl
  · exact .inl (by rw [incoming, same]; rfl)
  · exact .inr (by rw [incoming, arrived]; rfl)
  · refine .inr ?_
    have contradiction : s.nodeFaultRecovering = false -> False := fun settled => by
      rw [recovering] at settled
      cases settled
    cases step with
    | toQueue _ settled => exact (contradiction settled).elim
    | toZmq _ settled => exact (contradiction settled).elim
    | pass _ settled => exact (contradiction settled).elim
    | take _ settled => exact (contradiction settled).elim
    | openWindow starter => rcases starter.thread_eq with same | same <;> cases same
    | quiet _ _ quiet =>
        rw [incoming, move_pc, Function.update_self]
        exact Pc.quiet_enqueues quiet topic
    | expire => rw [incoming, beginRecovery, move_pc, Function.update_self]; rfl
    | swap => rw [incoming, swapBuffers, move_pc, Function.update_self]; rfl
    | _ => rw [incoming, move_pc, Function.update_self]; rfl

theorem incoming_sublist (topic : ℕ) (recovering : s.nodeFaultRecovering = true)
    (notStop : action ≠ .stop) (step : NodeStep cfg s action t) :
    (t.incoming topic).Sublist (s.incoming topic) := by
  rcases incoming_step topic recovering notStop step with same | empty
  · rw [same]
  · rw [empty]
    exact List.nil_sublist _

/-- The thread replays a batch, alone. -/
structure Replaying (thread : Thread) (s : NodeState) : Prop where
  recovery : s.SoleRecovery
  phase : ∃ done rest, s.phases thread = some (.replay done rest)

namespace Replaying

variable {thread : Thread}

theorem recovering (replaying : s.Replaying thread) : s.nodeFaultRecovering = true := by
  rcases replaying.phase with ⟨done, rest, holds⟩
  exact replaying.recovery.flagged.mpr ⟨thread, by rw [holds]; rfl⟩

theorem unsettled (replaying : s.Replaying thread) (settled : s.nodeFaultRecovering = false) :
    False := by
  rw [replaying.recovering] at settled
  cases settled

theorem sole (replaying : s.Replaying thread) {other : Thread} {phase : FlushPhase}
    (holds : s.phases other = some phase) : other = thread := by
  rcases replaying.phase with ⟨done, rest, replays⟩
  exact replaying.recovery.sole other thread (by rw [holds]; rfl) (by rw [replays]; rfl)

theorem not_swapping (replaying : s.Replaying thread) {other : Thread}
    (holds : s.phases other = some .swap) : False := by
  rcases replaying.phase with ⟨done, rest, replays⟩
  rw [replaying.sole holds, replays] at holds
  cases holds

end Replaying

/-! ## Where the messages of the batch are -/

/-- A message of the batch is still to be replayed, in the queue or in the hand of the
worker, or one of the later events of the channel tells where it went: it was
written, dropped from the queue, or taken by the policy once more. -/
inductive Placed (topic : ℕ) (thread : Thread) (since : List Entry) (view : ChannelView)
    (message : Message) : Prop
  | pending (member : message ∈ view.pending thread) : Placed topic thread since view message
  | queued (member : message ∈ view.queue) : Placed topic thread since view message
  | held (member : message ∈ view.holding (.worker topic)) : Placed topic thread since view message
  | gone {entry : Entry} (logged : entry ∈ since)
      (left : entry.event ∈ [.delivered (.send topic) message, .evicted topic message,
        .taken (.send topic) message]) : Placed topic thread since view message

/-- Every message of the batch is accounted for by the events after `before`. -/
def Accounted (topic : ℕ) (thread : Thread) (batch : List Message) (before : List Entry)
    (s : NodeState) : Prop :=
  ∃ since, (s.view (.send topic)).log = before ++ since ∧
    ∀ message ∈ batch, Placed topic thread since (s.view (.send topic)) message

/-- A step that adds some events keeps the account when it moves every message that is
still under way in one of the ways above. -/
theorem Accounted.next {thread : Thread} {batch : List Message} {before entries : List Entry}
    (accounted : s.Accounted topic thread batch before)
    (log : (t.view (.send topic)).log = (s.view (.send topic)).log ++ entries)
    (moves : ∀ since message, Placed topic thread [] (s.view (.send topic)) message ->
      Placed topic thread (since ++ entries) (t.view (.send topic)) message) :
    t.Accounted topic thread batch before := by
  rcases accounted with ⟨since, before_log, places⟩
  refine ⟨since ++ entries, by rw [log, before_log, List.append_assoc], fun message member => ?_⟩
  cases places message member with
  | pending member => exact moves since message (.pending member)
  | queued member => exact moves since message (.queued member)
  | held member => exact moves since message (.held member)
  | gone logged left => exact .gone (List.mem_append_left _ logged) left

end NodeState

end SwarmBridge
