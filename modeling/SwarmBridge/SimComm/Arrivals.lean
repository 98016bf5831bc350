import SwarmBridge.Foundation.Ordered
import SwarmBridge.SimComm.Routing

namespace SwarmBridge

open Foundation

/-!
# Every message in the node has arrived

The places of a channel hold arrived messages only, and the message in the hand of
the dispatching thread is the newest of them.  Both hold in every run, whatever
the fault control does.
-/

namespace ChannelView

/-- The message is somewhere behind the dispatching thread, or it was taken by the
policy before. -/
inductive Behind (reader : Thread) (view : ChannelView) (message : Message) : Prop
  | cached (member : message ∈ view.buffer) : Behind reader view message
  | queued (member : message ∈ view.queue) : Behind reader view message
  | batched {thread : Thread} (member : message ∈ view.pending thread) : Behind reader view message
  | held {thread : Thread} (other : thread ≠ reader) (member : message ∈ view.holding thread) :
      Behind reader view message
  | taken {window : ℕ} (member : message ∈ view.takenIn window) : Behind reader view message

end ChannelView

/-- The arrivals of a channel, and where they can be. -/
structure Arrivals (reader : Thread) (arrivals : ℕ) (view : ChannelView) : Prop where
  fresh : ∀ message ∈ view.arrived, message.arrival < arrivals
  increasing : view.arrived.Pairwise Message.Earlier
  behind : ∀ message, view.Behind reader message -> message ∈ view.arrived
  hand : view.holding reader ⊆ view.arrived
  newest : ∀ new ∈ view.holding reader, ∀ message, view.Behind reader message ->
    message.Earlier new

namespace Arrivals

variable {reader : Thread} {arrivals : ℕ} {view after : ChannelView}

theorem later (known : Arrivals reader arrivals view) {more : ℕ} (le : arrivals ≤ more) :
    Arrivals reader more view :=
  { known with fresh := fun message member => lt_of_lt_of_le (known.fresh message member) le }

/-- Messages move along behind the dispatching thread. -/
theorem moved (known : Arrivals reader arrivals view) (arrived : after.arrived = view.arrived)
    (hand : after.holding reader = view.holding reader)
    (behind : ∀ message, after.Behind reader message -> view.Behind reader message) :
    Arrivals reader arrivals after where
  fresh := arrived ▸ known.fresh
  increasing := arrived ▸ known.increasing
  behind := fun message isBehind => arrived ▸ known.behind message (behind message isBehind)
  hand := by rw [hand, arrived]; exact known.hand
  newest := fun new member message isBehind =>
    known.newest new (hand ▸ member) message (behind message isBehind)

/-- The dispatching thread lets go of its message. -/
theorem released (known : Arrivals reader arrivals view) (arrived : after.arrived = view.arrived)
    (hand : after.holding reader = [])
    (behind : ∀ message, after.Behind reader message ->
      view.Behind reader message ∨ message ∈ view.holding reader) :
    Arrivals reader arrivals after where
  fresh := arrived ▸ known.fresh
  increasing := arrived ▸ known.increasing
  behind := fun message isBehind => by
    rw [arrived]
    exact (behind message isBehind).elim (known.behind message) fun member => known.hand member
  hand := by rw [hand]; exact List.nil_subset _
  newest := fun new member => by rw [hand] at member; cases member

/-- A new message arrives. -/
theorem arrive (known : Arrivals reader arrivals view) {new : Message}
    (number : new.arrival = arrivals) (arrived : after.arrived = view.arrived ++ [new])
    (hand : after.holding reader = [new])
    (behind : ∀ message, after.Behind reader message -> view.Behind reader message) :
    Arrivals reader (arrivals + 1) after := by
  have older : ∀ message ∈ view.arrived, message.Earlier new := fun message member => by
    rw [Message.Earlier, number]
    exact known.fresh message member
  constructor
  · rw [arrived]
    intro message member
    rcases List.mem_append.mp member with member | member
    · exact Nat.lt_succ_of_lt (known.fresh message member)
    · rw [List.mem_singleton.mp member, number]
      exact Nat.lt_succ_self arrivals
  · rw [arrived]
    exact ordered_concat known.increasing older
  · intro message isBehind
    rw [arrived]
    exact List.mem_append_left _ (known.behind message (behind message isBehind))
  · rw [hand, arrived]
    exact List.subset_append_right _ _
  · intro last member message isBehind
    rw [hand, List.mem_singleton] at member
    rw [member]
    exact older message (known.behind message (behind message isBehind))

end Arrivals

namespace NodeState

variable {cfg : BridgeConfig} {channel : Channel} {s t : NodeState} {action : Action}

theorem arrivals_initial (channel : Channel) (now : ℚ) :
    Arrivals channel.reader (NodeState.initial cfg now).arrivals
      ((NodeState.initial cfg now).view channel) := by
  have nothing : ∀ message, ¬ ((NodeState.initial cfg now).view channel).Behind channel.reader
      message := by
    intro message behind
    cases behind with
    | cached member => cases member
    | queued member => cases channel <;> cases member
    | batched member =>
        rw [pending_of_phases (initial_phases now _)] at member
        cases member
    | held _ member =>
        rw [holding_of_free (initial_job? now _)] at member
        cases member
    | taken member => cases member
  constructor
  · exact fun _ member => by cases member
  · exact List.Pairwise.nil
  · exact fun message behind => absurd behind (nothing message)
  · rw [holding_of_free (initial_job? now _)]
    exact List.nil_subset _
  · exact fun _ _ message behind => absurd behind (nothing message)

/-- A message that a thread other than the reader owns is behind the reader. -/
theorem behind_of_job {thread : Thread} {job : Job thread} (call : (s.pc thread).job? = some job)
    (about : job.channel = channel) (other : thread ≠ channel.reader) :
    (s.view channel).Behind channel.reader job.message :=
  .held other (by rw [holding_of_job call about]; exact List.mem_singleton_self _)

/-- What the policy has taken it had taken before, unless the step is a take. -/
theorem behind_of_untaken {entries : List Entry} {window : ℕ} {message : Message}
    (untaken : ∀ entry ∈ entries, entry.event.taken? = none)
    (member : message ∈ ChannelView.takenIn
      { s.view channel with log := (s.view channel).log ++ entries } window) :
    (s.view channel).Behind channel.reader message := by
  rw [ChannelView.takenIn_append_untaken _ untaken] at member
  exact .taken member

/-- What another thread holds after a step that empties or fills one hand. -/
theorem held_of_update {thread other : Thread} {hand : List Message} {message : Message}
    (member : message ∈ Function.update (s.view channel).holding thread hand other) :
    message ∈ hand ∨ message ∈ (s.view channel).holding other := by
  by_cases same : other = thread
  · subst same
    rw [Function.update_self] at member
    exact .inl member
  · rw [Function.update_of_ne same] at member
    exact .inr member

/-- A message behind the reader was there before, or the reader has just let go of it. -/
theorem behind_step (step : ChannelStep cfg channel s action t) {message : Message}
    (behind : (t.view channel).Behind channel.reader message) :
    (s.view channel).Behind channel.reader message ∨
      (message ∈ (s.view channel).holding channel.reader ∧
        (t.view channel).holding channel.reader = []) := by
  cases step with
  | same view => exact .inl (view ▸ behind)
  | arrived idle arrivals view =>
      rw [view] at behind
      refine .inl ?_
      cases behind with
      | cached member => exact .cached member
      | queued member => exact .queued member
      | batched member => exact .batched member
      | held other member =>
          simp only [Function.update_of_ne other] at member
          exact .held other member
      | taken member => exact behind_of_untaken (by simp [stamp, Event.taken?]) member
  | @took thread job _ about at_check settled active inside view =>
      have call : (s.pc thread).job? = some job := by rw [at_check]; rfl
      -- the message that is taken was in the hand of the thread
      have own : (s.view channel).Behind channel.reader job.message ∨
          (job.message ∈ (s.view channel).holding channel.reader ∧
            (t.view channel).holding channel.reader = []) := by
        by_cases reads : thread = channel.reader
        · subst reads
          refine .inr ⟨?_, by simp [view]⟩
          rw [holding_of_job call about]
          exact List.mem_singleton_self _
        · exact .inl (behind_of_job call about reads)
      simp only [view] at behind
      cases behind with
      | cached member =>
          rcases List.mem_append.mp ((applyFaultPolicyToBuffer_sublist _ _ _).subset member) with
            member | member
          · exact .inl (.cached member)
          · rw [List.mem_singleton.mp member]
            exact own
      | queued member => exact .inl (.queued member)
      | batched member => exact .inl (.batched member)
      | held other member =>
          rcases held_of_update member with member | member
          · cases member
          · exact .inl (.held other member)
      | @taken window member =>
          rw [ChannelView.takenIn_append] at member
          rcases List.mem_append.mp member with member | member
          · exact .inl (.taken member)
          · have same : message = job.message := by
              by_cases now : s.windows = window <;> simp [now, stamp, Event.taken?] at member
              exact member
            rw [same]
            exact own
  | passed about at_check settled outside final view =>
      rw [view] at behind
      refine .inl ?_
      cases behind with
      | cached member => exact .cached member
      | queued member => exact .queued member
      | batched member => exact .batched member
      | held other member => exact .held other member
      | taken member => exact behind_of_untaken (by simp [stamp, Event.taken?]) member
  | @enqueued topic moved evicted kept _ about at_cleared queue view =>
      subst about
      have call : (s.pc .ros).job? = some (.dispatchSend topic moved) := by rw [at_cleared]; rfl
      have hand : (s.view (.send topic)).holding .ros = [moved] := holding_of_job call rfl
      have empty : (t.view (.send topic)).holding .ros = [] := by simp [view]
      rw [view] at behind
      cases behind with
      | cached member => exact .inl (.cached member)
      | queued member =>
          rcases List.mem_append.mp member with member | member
          · exact .inl (.queued (by rw [queue]; exact List.mem_append_right _ member))
          · exact .inr ⟨hand.symm ▸ member, empty⟩
      | batched member => exact .inl (.batched member)
      | held other member =>
          rcases held_of_update member with member | member
          · cases member
          · exact .inl (.held other member)
      | taken member => exact .inl (behind_of_untaken (by simp [stamp, Event.taken?]) member)
  | delivered about at_cleared final view =>
      rw [view] at behind
      refine .inl ?_
      cases behind with
      | cached member => exact .cached member
      | queued member => exact .queued member
      | batched member => exact .batched member
      | held other member =>
          rcases held_of_update member with member | member
          · cases member
          · exact .held other member
      | taken member => exact behind_of_untaken (by simp [stamp, Event.taken?]) member
  | dequeued about at_loop queue view =>
      rw [view] at behind
      refine .inl ?_
      cases behind with
      | cached member => exact .cached member
      | queued member => exact .queued (by rw [queue]; exact List.mem_cons_of_mem _ member)
      | batched member => exact .batched member
      | held other member =>
          rcases held_of_update member with member | member
          · rw [List.mem_singleton.mp member]
            exact .queued (by rw [queue]; exact List.mem_cons_self)
          · exact .held other member
      | taken member => exact behind_of_untaken (by simp [stamp, Event.taken?]) member
  | @swapped thread _ holds view =>
      rw [view] at behind
      refine .inl ?_
      cases behind with
      | cached member => cases member
      | queued member => exact .queued member
      | @batched other member =>
          by_cases same : other = thread
          · subst same
            exact .cached (by simpa using member)
          · simp only [Function.update_of_ne same] at member
            exact .batched member
      | held other member => exact .held other member
      | taken member => exact .taken member
  | replayedDirect holds unlimited view =>
      rw [view] at behind
      refine .inl ?_
      cases behind with
      | cached member => exact .cached member
      | queued member => exact .queued member
      | batched member => exact .batched (mem_pending_of_rest holds member)
      | held other member => exact .held other member
      | taken member => exact behind_of_untaken (by simp [stamp, Event.taken?]) member
  | replayedQueued about holds limited queue view =>
      rw [view] at behind
      refine .inl ?_
      cases behind with
      | cached member => exact .cached member
      | queued member =>
          rcases List.mem_append.mp member with member | member
          · exact .queued (by rw [queue]; exact List.mem_append_right _ member)
          · rw [List.mem_singleton.mp member]
            exact .batched (by rw [pending_of_replay holds]; exact List.mem_cons_self)
      | batched member => exact .batched (mem_pending_of_rest holds member)
      | held other member => exact .held other member
      | taken member => exact behind_of_untaken (by simp [stamp, Event.taken?]) member
  | opened starts view =>
      rw [view] at behind
      refine .inl ?_
      cases behind with
      | cached member => cases member
      | queued member => exact .queued member
      | batched member => exact .batched member
      | held other member => exact .held other member
      | taken member => exact .taken member

/-- The reader keeps what it holds, lets go of it, or gets a new message. -/
theorem reader_step (step : ChannelStep cfg channel s action t) :
    ((t.view channel).arrived = (s.view channel).arrived ∧
      ((t.view channel).holding channel.reader = (s.view channel).holding channel.reader ∨
        (t.view channel).holding channel.reader = [])) ∨
    ∃ new : Message, new.arrival = s.arrivals ∧ t.arrivals = s.arrivals + 1 ∧
      (t.view channel).arrived = (s.view channel).arrived ++ [new] ∧
      (s.view channel).holding channel.reader = [] ∧
      (t.view channel).holding channel.reader = [new] := by
  have emptied : ∀ thread : Thread,
      Function.update (s.view channel).holding thread [] channel.reader =
          (s.view channel).holding channel.reader ∨
        Function.update (s.view channel).holding thread [] channel.reader = [] := by
    intro thread
    by_cases own : channel.reader = thread
    · exact .inr (by rw [own, Function.update_self])
    · exact .inl (Function.update_of_ne own _ _)
  cases step with
  | same view => exact .inl (by simp [view])
  | @arrived payload _ idle arrivals view =>
      refine .inr ⟨⟨s.arrivals, payload⟩, rfl, arrivals, ?_, ?_, ?_⟩
      · simp [view, stamp, Event.arrived?]
      · exact holding_of_free (by rw [idle]; rfl)
      · simp [view]
  | took about at_check settled active inside view =>
      exact .inl ⟨by simp [view, stamp, Event.arrived?], by rw [view]; exact emptied _⟩
  | passed about at_check settled outside final view =>
      exact .inl ⟨by simp [view, stamp, Event.arrived?], by rw [view]; exact .inl rfl⟩
  | enqueued about at_cleared queue view =>
      exact .inl ⟨by simp [view, stamp, Event.arrived?], by rw [view]; exact emptied _⟩
  | delivered about at_cleared final view =>
      exact .inl ⟨by simp [view, stamp, Event.arrived?], by rw [view]; exact emptied _⟩
  | dequeued about at_loop queue view =>
      subst about
      exact .inl ⟨by simp [view, stamp, Event.arrived?], .inl (by simp [view, Channel.reader])⟩
  | swapped holds view => exact .inl (by simp [view])
  | replayedDirect holds unlimited view => exact .inl (by simp [view, stamp, Event.arrived?])
  | replayedQueued about holds limited queue view =>
      exact .inl (by simp [view, stamp, Event.arrived?])
  | opened starts view => exact .inl (by simp [view])

theorem arrivals_step (valid : cfg.hasChannel channel = true)
    (known : Arrivals channel.reader s.arrivals (s.view channel)) (step : NodeStep cfg s action t) :
    Arrivals channel.reader t.arrivals (t.view channel) := by
  have inChannel : ChannelStep cfg channel s action t := step.onChannel valid
  rcases reader_step inChannel with
    ⟨arrived, hand⟩ | ⟨new, number, arrivals, arrived, before, after⟩
  · by_cases released : (t.view channel).holding channel.reader = []
    · apply (known.released arrived released _).later (arrivals_le step)
      exact fun message behind => (behind_step inChannel behind).imp_right And.left
    · apply (known.moved arrived (hand.resolve_right released) _).later (arrivals_le step)
      exact fun message behind =>
        (behind_step inChannel behind).resolve_right fun both => released both.2
  · rw [arrivals]
    apply known.arrive number arrived after
    intro message behind
    apply (behind_step inChannel behind).resolve_right
    rintro ⟨member, -⟩
    rw [before] at member
    cases member

theorem arrivals_of_reaches {allow : NodeState -> Action -> Prop}
    (valid : cfg.hasChannel channel = true) (run : (bridgeNode cfg).Reaches allow s) :
    Arrivals channel.reader s.arrivals (s.view channel) := by
  apply run.invariant (P := fun s => Arrivals channel.reader s.arrivals (s.view channel))
  · rintro s ⟨now, rfl⟩
    exact arrivals_initial channel now
  · exact fun s a t _ known _ stepped => arrivals_step valid known (nodeStep_cases stepped)

end NodeState

end SwarmBridge
