import SwarmBridge.Delivery.Conservation
import SwarmBridge.Recovery.Retention

namespace SwarmBridge

open Foundation

/-!
# No run copies a message

Conservation needs a node whose faults come from the control server: a startup
schedule can interrupt a window and erase what is cached, and two recoveries can
run at once.  None of this copies a message.  In every run, with any mix of
triggers and also after the stop of the fault control, each arrived message is in
at most one place of its own channel, so it leaves the node at most once.
-/

namespace NodeState

variable {cfg : BridgeConfig} {channel : Channel} {s t : NodeState} {action : Action}

/-- What the places of a channel contain, without what the policies gave up. -/
def present (channel : Channel) (s : NodeState) : Place -> Multiset Message :=
  (s.view channel).contents .buffer 0

/-- Entries about neither the exit nor an eviction change no place. -/
theorem present_logged {view : ChannelView} {entries : List Entry}
    (undelivered : ∀ entry ∈ entries, entry.event.delivered? = none)
    (unevicted : ∀ entry ∈ entries, entry.event.evicted? = none) :
    ChannelView.contents { view with log := view.log ++ entries } .buffer 0 =
      view.contents .buffer 0 := by
  funext place
  cases place with
  | delivered =>
      simp only [ChannelView.contents, ChannelView.delivered_append]
      rw [List.filterMap_eq_nil_iff.mpr undelivered, List.append_nil]
  | evicted =>
      simp only [ChannelView.contents, ChannelView.evicted_append]
      rw [List.filterMap_eq_nil_iff.mpr unevicted, List.append_nil]
  | _ => rfl

/-- The fault policy takes the message of a thread: it is dropped, or cached behind
the others, or cached in their place. -/
theorem thins_took {view : ChannelView} (policy : SimCommFaultPolicy) {thread : Thread}
    {message : Message} {stamp : Entry} (held : view.holding thread = [message])
    (undelivered : stamp.event.delivered? = none) (unevicted : stamp.event.evicted? = none) :
    Thins (view.contents .buffer 0)
      (ChannelView.contents
        { view with
          log := view.log ++ [stamp]
          buffer := applyFaultPolicyToBuffer policy message view.buffer
          holding := Function.update view.holding thread [] } .buffer 0) := by
  -- the policies keep parts of what policy buffer keeps
  have moved : Moves (view.contents .buffer 0)
      (ChannelView.contents
        { view with
          log := view.log ++ [stamp]
          buffer := view.buffer ++ [message]
          holding := Function.update view.holding thread [] } .buffer 0)
      (.hand thread) .buffer {message} := by
    refine ⟨Place.noConfusion, ?_, ChannelView.coe_concat _ _, fun other notOrigin notTarget => ?_⟩
    · simp [ChannelView.contents, held]
    · cases other with
      | hand other =>
          have apart : other ≠ thread := fun same => notOrigin (same ▸ rfl)
          simp only [ChannelView.contents, Function.update_of_ne apart]
      | buffer => exact absurd rfl notTarget
      | _ => simp [ChannelView.contents, undelivered, unevicted]
  apply moved.rearranges.thins.trans
  apply Thins.of_le
  intro place
  cases place with
  | buffer => exact Multiset.coe_le.mpr (applyFaultPolicyToBuffer_sublist _ _ _).subperm
  | _ => exact le_rfl

/-- A step takes messages from one place to the next or loses them, or it puts a new
one into the hand of the dispatching thread. -/
theorem present_step (step : ChannelStep cfg channel s action t) :
    ((t.view channel).arrived = (s.view channel).arrived ∧
      Thins (s.present channel) (t.present channel)) ∨
    ∃ new : Message, new.arrival = s.arrivals ∧
      (t.view channel).arrived = (s.view channel).arrived ++ [new] ∧
      t.present channel (.hand channel.reader) =
        s.present channel (.hand channel.reader) + {new} ∧
      ∀ other, other ≠ .hand channel.reader -> t.present channel other = s.present channel other := by
  unfold present
  cases step with
  | same view => exact .inl ⟨by rw [view], (Rearranges.of_eq (by rw [view])).thins⟩
  | @arrived payload _ at_idle arrivals view =>
      have free : (s.view channel).holding channel.reader = [] :=
        holding_of_free (by rw [at_idle]; rfl)
      refine .inr ⟨⟨s.arrivals, payload⟩, rfl, by simp [view, stamp, Event.arrived?], ?_, ?_⟩
      · simp [ChannelView.contents, view, free]
      · intro other notTarget
        cases other with
        | hand other =>
            have apart : other ≠ channel.reader := fun same => notTarget (same ▸ rfl)
            simp [ChannelView.contents, view, Function.update_of_ne apart]
        | _ => simp [ChannelView.contents, view, stamp, Event.delivered?, Event.evicted?]
  | @took thread job _ about at_check settled active inside view =>
      have held := holding_of_job (s := s) (by rw [at_check]; rfl) about
      refine .inl ⟨by simp [view, stamp, Event.arrived?], ?_⟩
      rw [view]
      exact thins_took (cfg.policy channel) held rfl rfl
  | passed about at_check settled outside final view =>
      refine .inl ⟨by simp [view, stamp, Event.arrived?], (Rearranges.of_eq ?_).thins⟩
      rw [view]
      apply present_logged <;> simp [stamp, Event.delivered?, Event.evicted?]
  | @enqueued topic message evicted kept _ about at_cleared queue view =>
      subst about
      have call : (s.pc .ros).job? = some (.dispatchSend topic message) := by rw [at_cleared]; rfl
      have held : (s.view (.send topic)).holding .ros = [message] := holding_of_job call rfl
      refine .inl ⟨by simp [view, stamp, Event.arrived?], ?_⟩
      refine (moves_evicted _ _ (evicted.map fun dropped => s.stamp (.evicted topic dropped)) queue
        (by simp [stamp, Event.taken?]) (by simp [stamp, Event.delivered?])
        (by simp [List.filterMap_map, stamp, Event.evicted?])).rearranges.thins.trans ?_
      rw [view]
      refine Rearranges.thins (Moves.rearranges (moves_from_hand .queue [] held Place.noConfusion rfl rfl
        (List.append_nil _).symm (by simp) ?_ ?_))
      · exact ChannelView.coe_concat kept message
      · simp [ChannelView.contents]
  | @delivered thread job _ about at_cleared final view =>
      have held := holding_of_job (s := s) (by rw [at_cleared]; rfl) about
      refine .inl ⟨by simp [view, stamp, Event.arrived?], ?_⟩
      rw [view]
      refine Rearranges.thins (Moves.rearranges (moves_from_hand .delivered
        [s.stamp (.delivered channel job.message)] held Place.noConfusion rfl rfl rfl
        (by simp [stamp, Event.taken?]) ?_ ?_))
      · simp [ChannelView.contents, stamp, Event.delivered?, ChannelView.coe_concat]
      · simp [ChannelView.contents, stamp, Event.evicted?]
  | @dequeued topic front rest _ about at_loop queue view =>
      subst about
      have free : (s.view (.send topic)).holding (.worker topic) = [] :=
        holding_of_free (by rw [at_loop]; rfl)
      refine .inl ⟨by simp [view, stamp, Event.arrived?],
        (Moves.rearranges (?_ : Moves _ _ .queue (.hand (.worker topic)) {front})).thins⟩
      refine ⟨Place.noConfusion, ?_, ?_, fun other notOrigin notTarget => ?_⟩
      · simp only [ChannelView.contents, queue, view]
        exact ChannelView.coe_cons front rest
      · simp [ChannelView.contents, free, view]
      · cases other with
        | hand other =>
            have apart : other ≠ .worker topic := fun same => notTarget (same ▸ rfl)
            simp [ChannelView.contents, view, Function.update_of_ne apart]
        | queue => exact absurd rfl notOrigin
        | _ => simp [ChannelView.contents, view, stamp, Event.delivered?, Event.evicted?]
  | @swapped thread _ holds view =>
      have empty : (s.view channel).pending thread = [] := pending_of_swap holds
      refine .inl ⟨by simp [view], ?_⟩
      rw [view]
      refine (Moves.rearranges
        (?_ : Moves _ _ .buffer (.batch thread) ((s.view channel).buffer : Multiset Message))).thins
      refine ⟨Place.noConfusion, ?_, ?_, fun other notOrigin notTarget => ?_⟩
      · simp [ChannelView.contents]
      · simp [ChannelView.contents, empty]
      · cases other with
        | batch other =>
            have apart : other ≠ thread := fun same => notTarget (same ▸ rfl)
            simp [ChannelView.contents, Function.update_of_ne apart]
        | buffer => exact absurd rfl notOrigin
        | _ => rfl
  | @replayedDirect thread done rest message _ holds unlimited view =>
      refine .inl ⟨by simp [view, stamp, Event.arrived?], ?_⟩
      rw [view]
      refine Rearranges.thins (Moves.rearranges (moves_from_batch .delivered
        [s.stamp (.replayed channel message), s.stamp (.delivered channel message)]
        (pending_of_replay holds) Place.noConfusion rfl rfl rfl (by simp [stamp, Event.taken?])
        ?_ ?_))
      · simp [ChannelView.contents, stamp, Event.delivered?, ChannelView.coe_concat]
      · simp [ChannelView.contents, stamp, Event.evicted?]
  | @replayedQueued thread done rest topic message evicted kept _ about holds limited queue view =>
      subst about
      refine .inl ⟨by simp [view, stamp, Event.arrived?], ?_⟩
      refine (moves_evicted _ _ (s.stamp (.replayed (.send topic) message) ::
        evicted.map fun dropped => s.stamp (.evicted topic dropped)) queue
        (by simp [stamp, Event.taken?]) (by simp [stamp, Event.delivered?])
        (by simp [List.filterMap_map, stamp, Event.evicted?])).rearranges.thins.trans ?_
      rw [view]
      refine Rearranges.thins (Moves.rearranges (moves_from_batch .queue [] (pending_of_replay holds)
        Place.noConfusion rfl rfl (List.append_nil _).symm (by simp) ?_ ?_))
      · exact ChannelView.coe_concat kept message
      · simp [ChannelView.contents]
  | opened starts view =>
      refine .inl ⟨by rw [view]; rfl, Thins.of_le fun place => ?_⟩
      rw [view]
      cases place with
      | buffer => exact Multiset.zero_le _
      | _ => exact le_rfl

/-- No arrived message of the channel is in two places or twice in one, and no other
message is anywhere. -/
structure SinglyHeld (channel : Channel) (s : NodeState) : Prop where
  scarce : ∀ message ∈ (s.view channel).arrived, Scarce (s.present channel) message
  known : ∀ message ∉ (s.view channel).arrived, Absent (s.present channel) message

namespace SinglyHeld

theorem initial (now : ℚ) : (NodeState.initial cfg now).SinglyHeld channel where
  scarce := fun message member => by cases member
  known := by
    intro message _ place
    unfold present
    cases place with
    | hand thread =>
        simp only [ChannelView.contents]
        rw [holding_of_free (initial_job? now thread)]
        rfl
    | batch thread =>
        simp only [ChannelView.contents]
        rw [pending_of_phases (initial_phases now thread)]
        rfl
    | queue => cases channel <;> rfl
    | _ => rfl

theorem step (held : s.SinglyHeld channel) (known : Arrivals channel.reader s.arrivals (s.view channel))
    (step : ChannelStep cfg channel s action t) : t.SinglyHeld channel := by
  rcases present_step step with ⟨arrived, thins⟩ | ⟨new, number, arrived, added, frame⟩
  · constructor <;> rw [arrived]
    · exact fun message member => thins.scarce message (held.scarce message member)
    · exact fun message absent => thins.absent message (held.known message absent)
  · have fresh : new ∉ (s.view channel).arrived := by
      intro member
      have below := known.fresh new member
      omega
    have counts : ∀ message, message ≠ new -> ∀ place,
        (t.present channel place).count message = (s.present channel place).count message := by
      intro message different place
      by_cases target : place = .hand channel.reader
      · rw [target, added, Multiset.count_add, Multiset.count_singleton, if_neg different, add_zero]
      · rw [frame place target]
    constructor <;> rw [arrived] <;> intro message member
    · by_cases same : message = new
      · rw [same]
        exact .inl (located_of_added (held.known new fresh) added frame)
      · have older := (List.mem_append.mp member).resolve_right fun last =>
          same (List.mem_singleton.mp last)
        apply (held.scarce message older).imp
        · rintro ⟨place, count⟩
          exact ⟨place, fun other => (counts message same other).trans (count other)⟩
        · exact fun nowhere place => (counts message same place).trans (nowhere place)
    · have apart : message ∉ (s.view channel).arrived ∧ message ≠ new := by
        simpa using member
      exact fun place => (counts message apart.2 place).trans (held.known message apart.1 place)

theorem of_reaches {allow : NodeState -> Action -> Prop} (valid : cfg.hasChannel channel = true)
    (run : (bridgeNode cfg).Reaches allow s) : s.SinglyHeld channel := by
  apply run.invariant (P := fun s => s.SinglyHeld channel)
  · rintro s ⟨now, rfl⟩
    exact initial now
  · intro s a t reached held _ stepped
    have step : NodeStep cfg s a t := nodeStep_cases stepped
    exact held.step (arrivals_of_reaches valid reached.reachable) (step.onChannel valid)

theorem delivered_arrived (held : s.SinglyHeld channel) :
    (s.view channel).delivered ⊆ (s.view channel).arrived := by
  intro message member
  by_contra unknown
  have nowhere := held.known message unknown .delivered
  exact Multiset.count_eq_zero.mp nowhere member

theorem delivered_nodup (held : s.SinglyHeld channel) : (s.view channel).delivered.Nodup := by
  refine List.nodup_iff_count_le_one.mpr fun message => ?_
  by_cases member : message ∈ (s.view channel).arrived
  · rw [← Multiset.coe_count]
    exact (held.scarce message member).count_le_one .delivered
  · rw [List.count_eq_zero_of_not_mem fun left => member (held.delivered_arrived left)]
    exact Nat.zero_le 1

end SinglyHeld

end NodeState

open NodeState

/-- At most once.  In every run, whatever starts the faults, however windows and
recoveries overlap, and before and after the stop of the fault control, a message
leaves the node at most once, on the channel on which it arrived, and a message that
is still cached, queued, held or being replayed has not left it. -/
theorem relays_at_most_once (cfg : BridgeConfig) (channel : Channel)
    (valid : cfg.hasChannel channel = true) (s : NodeState) (run : (bridgeNode cfg).Reachable s) :
    (s.view channel).delivered.Nodup ∧ (s.view channel).delivered ⊆ (s.view channel).arrived ∧
      ∀ message ∈ (s.view channel).delivered, message ∉ s.faultBuffers channel ∧
        message ∉ s.queue channel ∧ ∀ thread, message ∉ (s.view channel).holding thread ∧
          message ∉ (s.view channel).pending thread := by
  have held := SinglyHeld.of_reaches valid run
  have arrived := held.delivered_arrived
  refine ⟨held.delivered_nodup, arrived, ?_⟩
  intro message left
  have elsewhere : ∀ place, message ∈ s.present channel place -> place = .delivered :=
    fun place member => (held.scarce message (arrived left)).apart member left
  refine ⟨fun member => ?_, fun member => ?_, fun thread => ⟨fun member => ?_, fun member => ?_⟩⟩
  · cases elsewhere .buffer member
  · cases elsewhere .queue member
  · cases elsewhere (.hand thread) member
  · cases elsewhere (.batch thread) member

/-- A remote window of ten seconds caches a message; after five seconds the startup
schedule opens a window of its own, which erases the message, caches another one and
lasts one second. -/
def erasedSchedule : List Action :=
  interruptedSchedule ++
    [.run .startup, .arrive (.send 0) ⟨1, [1]⟩, .run .ros, .run .ros, .advance 6,
      .run .monitor, .run .monitor, .run .monitor, .run .monitor, .run .monitor]

/-- Of these two messages the second one is written, once. -/
theorem relays_at_most_once_erased :
    ∃ s : NodeState, (s.view (.send 0)).arrived.map Message.arrival = [0, 1] ∧
      (s.view (.send 0)).delivered.map Message.arrival = [1] ∧
      (s.view (.send 0)).delivered.Nodup := by
  have executed : ((bridgeNode interruptedConfig).exec (fun _ _ => True)
      (NodeState.initial interruptedConfig 0) erasedSchedule).map
      (fun s => ((s.view (.send 0)).arrived.map Message.arrival,
        (s.view (.send 0)).delivered.map Message.arrival)) = some ([0, 1], [1]) := by
    decide +kernel
  rcases NodeState.exists_of_schedule executed with ⟨s, reached, observed⟩
  simp only [Prod.mk.injEq] at observed
  exact ⟨s, observed.1, observed.2,
    (relays_at_most_once interruptedConfig (.send 0) (by decide) s reached).1⟩

end SwarmBridge
