import SwarmBridge.SimComm.Arrivals

namespace SwarmBridge

open Foundation

/-!
# Messages that were taken do not pass

On a channel without a bitrate a message meets at most one check that takes it or
lets it leave.  What the fault policy takes is replayed and never checked again,
and what has passed its last check is never taken.  A rate-limited topic is
different: a replay puts its messages back into the bitrate queue, and the worker
has them checked once more.
-/

namespace Event

def passed? : Event -> Option Message
  | .passed _ message => some message
  | _ => none

def replayed? : Event -> Option Message
  | .replayed _ message => some message
  | _ => none

end Event

namespace ChannelView

variable (view : ChannelView)

/-- The messages that the last check let pass. -/
def passed : List Message := view.log.filterMap fun entry => entry.event.passed?

/-- The messages that a flush replayed. -/
def replayed : List Message := view.log.filterMap fun entry => entry.event.replayed?

/-- The messages that the fault policy took, in any window. -/
def taken : List Message := view.log.filterMap fun entry => entry.event.taken?

/-- The message is or was in a replay batch. -/
def Batched (message : Message) : Prop :=
  message ∈ view.replayed ∨ ∃ thread, message ∈ view.pending thread

section Projections

variable {entries : List Entry} {buffer queue : List Message}
  {holding pending : Thread -> List Message} {pastCheck : Thread -> Bool}

@[simp] theorem passed_append :
    passed ⟨view.log ++ entries, buffer, queue, holding, pending, pastCheck⟩ =
      view.passed ++ entries.filterMap fun entry => entry.event.passed? :=
  List.filterMap_append

@[simp] theorem replayed_append :
    replayed ⟨view.log ++ entries, buffer, queue, holding, pending, pastCheck⟩ =
      view.replayed ++ entries.filterMap fun entry => entry.event.replayed? :=
  List.filterMap_append

@[simp] theorem taken_append :
    taken ⟨view.log ++ entries, buffer, queue, holding, pending, pastCheck⟩ =
      view.taken ++ entries.filterMap fun entry => entry.event.taken? :=
  List.filterMap_append

@[simp] theorem passed_log :
    passed ⟨view.log, buffer, queue, holding, pending, pastCheck⟩ = view.passed := rfl

@[simp] theorem taken_log :
    taken ⟨view.log, buffer, queue, holding, pending, pastCheck⟩ = view.taken := rfl

end Projections

theorem mem_passed {message : Message} :
    message ∈ view.passed ↔ ∃ entry ∈ view.log, entry.event.passed? = some message :=
  List.mem_filterMap

theorem mem_taken {message : Message} (member : message ∈ view.taken) :
    ∃ window, message ∈ view.takenIn window := by
  rcases List.mem_filterMap.mp member with ⟨entry, logged, taken⟩
  refine ⟨entry.window, List.mem_filterMap.mpr ⟨entry, ?_, taken⟩⟩
  exact List.mem_filter.mpr ⟨logged, decide_eq_true rfl⟩

end ChannelView

/-! ## Taken messages of a channel without a bitrate do not pass -/

/-- On a channel that only its reader writes, no message both passes its last check and
is taken by the policy. -/
structure Separate (reader : Thread) (view : ChannelView) : Prop where
  passed : ∀ message ∈ view.passed, message ∉ view.taken
  stored : ∀ message, message ∈ view.buffer ∨ view.Batched message -> message ∈ view.taken
  hand : ∀ message ∈ view.holding reader, message ∉ view.taken
  unpassed : view.pastCheck reader = false -> ∀ message ∈ view.holding reader,
    message ∉ view.passed
  arrived : view.passed ⊆ view.arrived

namespace Separate

variable {reader : Thread} {view after : ChannelView}

/-- Stored messages move along, and the hand is left alone or emptied. -/
theorem moved (separate : Separate reader view) (passed : after.passed = view.passed)
    (taken : after.taken = view.taken) (arrived : after.arrived = view.arrived)
    (stored : ∀ message, message ∈ after.buffer ∨ after.Batched message ->
      message ∈ view.buffer ∨ view.Batched message)
    (hand : after.holding reader = [] ∨ after.holding reader = view.holding reader ∧
      after.pastCheck reader = view.pastCheck reader) : Separate reader after where
  passed := by rw [passed, taken]; exact separate.passed
  stored := fun message isStored => by
    rw [taken]
    exact separate.stored message (stored message isStored)
  hand := by
    rw [taken]
    rcases hand with empty | ⟨same, -⟩
    · rw [empty]
      exact fun _ member => by cases member
    · rw [same]
      exact separate.hand
  unpassed := by
    rw [passed]
    rcases hand with empty | ⟨same, samePast⟩
    · rw [empty]
      exact fun _ _ member => by cases member
    · rw [same, samePast]
      exact separate.unpassed
  arrived := by rw [passed, arrived]; exact separate.arrived

/-- A message that is new to the node comes into the hand. -/
theorem arrive (separate : Separate reader view) (new : Message)
    (fresh : ∀ message ∈ view.arrived, message ≠ new) (known : view.taken ⊆ view.arrived)
    (passed : after.passed = view.passed) (taken : after.taken = view.taken)
    (arrived : view.arrived ⊆ after.arrived)
    (stored : ∀ message, message ∈ after.buffer ∨ after.Batched message ->
      message ∈ view.buffer ∨ view.Batched message)
    (hand : after.holding reader = [new]) : Separate reader after where
  passed := by rw [passed, taken]; exact separate.passed
  stored := fun message isStored => by
    rw [taken]
    exact separate.stored message (stored message isStored)
  hand := by
    rw [hand, taken]
    intro message member isTaken
    exact fresh message (known isTaken) (List.mem_singleton.mp member)
  unpassed := by
    rw [hand, passed]
    intro _ message member hasPassed
    exact fresh message (separate.arrived hasPassed) (List.mem_singleton.mp member)
  arrived := by
    rw [passed]
    exact fun message member => arrived (separate.arrived member)

/-- The policy takes the message in the hand. -/
theorem take (separate : Separate reader view) {message : Message}
    (holds : message ∈ view.holding reader) (unpassed : view.pastCheck reader = false)
    (passed : after.passed = view.passed) (taken : after.taken = view.taken ++ [message])
    (arrived : after.arrived = view.arrived)
    (stored : ∀ other, other ∈ after.buffer ∨ after.Batched other ->
      other = message ∨ other ∈ view.buffer ∨ view.Batched other)
    (hand : after.holding reader = []) : Separate reader after where
  passed := by
    rw [passed, taken]
    intro other hasPassed isTaken
    rcases List.mem_append.mp isTaken with isTaken | same
    · exact separate.passed other hasPassed isTaken
    · rw [List.mem_singleton.mp same] at hasPassed
      exact separate.unpassed unpassed message holds hasPassed
  stored := by
    rw [taken]
    intro other isStored
    rcases stored other isStored with same | isStored
    · exact List.mem_append_right _ (List.mem_singleton.mpr same)
    · exact List.mem_append_left _ (separate.stored other isStored)
  hand := by rw [hand]; exact fun _ member => by cases member
  unpassed := by rw [hand]; exact fun _ _ member => by cases member
  arrived := by rw [passed, arrived]; exact separate.arrived

/-- The message in the hand passes its last check. -/
theorem pass (separate : Separate reader view) {message : Message}
    (holds : message ∈ view.holding reader) (known : message ∈ view.arrived)
    (passed : after.passed = view.passed ++ [message]) (taken : after.taken = view.taken)
    (arrived : after.arrived = view.arrived)
    (stored : ∀ other, other ∈ after.buffer ∨ after.Batched other ->
      other ∈ view.buffer ∨ view.Batched other)
    (hand : after.holding reader = view.holding reader) (past : after.pastCheck reader = true) :
    Separate reader after where
  passed := by
    rw [passed, taken]
    intro other hasPassed
    rcases List.mem_append.mp hasPassed with hasPassed | same
    · exact separate.passed other hasPassed
    · rw [List.mem_singleton.mp same]
      exact separate.hand message holds
  stored := fun other isStored => by
    rw [taken]
    exact separate.stored other (stored other isStored)
  hand := by rw [hand, taken]; exact separate.hand
  unpassed := fun unpassed => by
    rw [past] at unpassed
    cases unpassed
  arrived := by
    rw [passed, arrived]
    exact List.append_subset.mpr ⟨separate.arrived, by simpa using known⟩

end Separate

namespace NodeState

variable {cfg : BridgeConfig} {channel : Channel} {s t : NodeState} {action : Action}

/-- The messages of a channel without a bitrate are only ever in the hand of its reader. -/
theorem reader_of_unlimited {allow : NodeState -> Action -> Prop}
    (unlimited : cfg.limited channel = false) (run : (bridgeNode cfg).Reaches allow s)
    {thread : Thread} {job : Job thread} (call : (s.pc thread).job? = some job)
    (about : job.channel = channel) : thread = channel.reader := by
  rcases Job.thread_of_channel about with own | ⟨topic, rfl, rfl⟩
  · exact own
  · rw [unstarted_of_reaches unlimited run] at call
    cases call

theorem separate_initial (channel : Channel) (now : ℚ) :
    Separate channel.reader ((NodeState.initial cfg now).view channel) where
  passed := fun _ member => by cases member
  stored := by
    rintro message (member | member | ⟨thread, member⟩)
    · cases member
    · cases member
    · rw [pending_of_phases (initial_phases now thread)] at member
      cases member
  hand := fun message member => by
    rw [holding_of_free (initial_job? now _)] at member
    cases member
  unpassed := fun _ message member => by
    rw [holding_of_free (initial_job? now _)] at member
    cases member
  arrived := List.nil_subset _

theorem taken_subset (known : Arrivals channel.reader s.arrivals (s.view channel)) :
    (s.view channel).taken ⊆ (s.view channel).arrived := by
  intro message member
  rcases (s.view channel).mem_taken member with ⟨window, isTaken⟩
  exact known.behind message (.taken isTaken)

theorem separate_step {allow : NodeState -> Action -> Prop}
    (valid : cfg.hasChannel channel = true) (unlimited : cfg.limited channel = false)
    (run : (bridgeNode cfg).Reaches allow s) (separate : Separate channel.reader (s.view channel))
    (step : NodeStep cfg s action t) : Separate channel.reader (t.view channel) := by
  have known : Arrivals channel.reader s.arrivals (s.view channel) := arrivals_of_reaches valid run
  cases step.onChannel valid with
  | same view => exact view ▸ separate
  | @arrived payload _ at_idle arrivals view =>
      apply separate.arrive ⟨s.arrivals, payload⟩ _ (taken_subset known)
      · simp [view, stamp, Event.passed?]
      · simp [view, stamp, Event.taken?]
      · simp [view]
      · intro message isStored
        simpa [view, stamp, Event.replayed?, ChannelView.Batched] using isStored
      · simp [view]
      · rintro message member rfl
        exact lt_irrefl _ (known.fresh _ member)
  | @took thread job _ about at_check settled active inside view =>
      have call : (s.pc thread).job? = some job := by rw [at_check]; rfl
      have own := reader_of_unlimited unlimited run call about
      subst own
      have holds : job.message ∈ (s.view channel).holding channel.reader := by
        rw [holding_of_job call about]
        exact List.mem_singleton_self _
      apply separate.take holds
      · simp [NodeState.view, at_check, Pc.pastCheck]
      · simp [view, stamp, Event.passed?]
      · simp [view, stamp, Event.taken?]
      · simp [view, stamp, Event.arrived?]
      · intro other isStored
        rcases isStored with cached | batched
        · rw [view] at cached
          have parts := (applyFaultPolicyToBuffer_sublist _ _ _).subset cached
          rcases List.mem_append.mp parts with cached | same
          · exact .inr (.inl cached)
          · exact .inl (List.mem_singleton.mp same)
        · refine .inr (.inr ?_)
          simpa [view, stamp, Event.replayed?, ChannelView.Batched] using batched
      · simp [view]
  | @passed thread job _ about at_check settled outside final view =>
      have call : (s.pc thread).job? = some job := by rw [at_check]; rfl
      have own := reader_of_unlimited unlimited run call about
      subst own
      have holds : job.message ∈ (s.view channel).holding channel.reader := by
        rw [holding_of_job call about]
        exact List.mem_singleton_self _
      apply separate.pass holds (known.hand holds)
      · simp [view, stamp, Event.passed?]
      · simp [view, stamp, Event.taken?]
      · simp [view, stamp, Event.arrived?]
      · intro other isStored
        simpa [view, stamp, Event.replayed?, ChannelView.Batched] using isStored
      · rw [view]
      · simp [view]
  | @enqueued topic message evicted kept _ about at_cleared =>
      subst about
      rw [(Routed.of_reaches run).queued topic message at_cleared] at unlimited
      cases unlimited
  | @delivered thread job _ about at_cleared final view =>
      have call : (s.pc thread).job? = some job := by rw [at_cleared]; rfl
      have own := reader_of_unlimited unlimited run call about
      subst own
      apply separate.moved
      · simp [view, stamp, Event.passed?]
      · simp [view, stamp, Event.taken?]
      · simp [view, stamp, Event.arrived?]
      · intro other isStored
        simpa [view, stamp, Event.replayed?, ChannelView.Batched] using isStored
      · simp [view]
  | dequeued about at_loop =>
      subst about
      rw [unstarted_of_reaches unlimited run] at at_loop
      cases at_loop
  | @swapped thread _ holds view =>
      apply separate.moved
      · simp [view]
      · simp [view]
      · simp [view]
      · rintro message (cached | replayed | ⟨flusher, member⟩)
        · rw [view] at cached
          cases cached
        · rw [view] at replayed
          exact .inr (.inl replayed)
        · rw [view] at member
          by_cases same : flusher = thread
          · subst same
            exact .inl (by simpa using member)
          · simp only [Function.update_of_ne same] at member
            exact .inr (.inr ⟨flusher, member⟩)
      · exact .inr ⟨by rw [view], by rw [view]⟩
  | @replayedDirect thread done rest replayed _ holds _ view =>
      apply separate.moved
      · simp [view, stamp, Event.passed?]
      · simp [view, stamp, Event.taken?]
      · simp [view, stamp, Event.arrived?]
      · rintro message (cached | isReplayed | ⟨flusher, member⟩)
        · rw [view] at cached
          exact .inl cached
        · have before : message ∈ (s.view channel).replayed ∨ message = replayed := by
            simpa [view, stamp, Event.replayed?] using isReplayed
          rcases before with before | rfl
          · exact .inr (.inl before)
          · refine .inr (.inr ⟨thread, ?_⟩)
            rw [pending_of_replay holds]
            exact List.mem_cons_self
        · rw [view] at member
          exact .inr (.inr ⟨flusher, mem_pending_of_rest holds member⟩)
      · exact .inr ⟨by rw [view], by rw [view]⟩
  | replayedQueued about holds limited =>
      rw [unlimited] at limited
      cases limited
  | opened starts view =>
      apply separate.moved
      · simp [view]
      · simp [view]
      · simp [view]
      · rintro message (cached | batched)
        · rw [view] at cached
          cases cached
        · rw [view] at batched
          exact .inr batched
      · exact .inr ⟨by rw [view], by rw [view]⟩

theorem separate_of_reaches {allow : NodeState -> Action -> Prop}
    (valid : cfg.hasChannel channel = true) (unlimited : cfg.limited channel = false)
    (run : (bridgeNode cfg).Reaches allow s) : Separate channel.reader (s.view channel) := by
  apply run.invariant (P := fun s => Separate channel.reader (s.view channel))
  · rintro s ⟨now, rfl⟩
    exact separate_initial channel now
  · exact fun s a t reached separate _ stepped =>
      separate_step valid unlimited reached separate (nodeStep_cases stepped)

end NodeState

end SwarmBridge
