import SwarmBridge.Foundation.Places
import SwarmBridge.SimComm.Arrivals
import SwarmBridge.Recovery.Cached
import SwarmBridge.Delivery.Replay
import Mathlib.Algebra.BigOperators.Group.Finset.Basic

namespace SwarmBridge

open Foundation

/-!
# No message is lost or copied without a reason

A message that has arrived on a channel is in one place: in the hand of a thread,
in the fault buffer, in the batch of a flush, in the bitrate queue, out of the
node, or discarded for one of three reasons.  It may visit the queue, the worker,
the buffer and a batch several times, in one window after another; each step of
each thread only takes it from one place to the next.
-/

/-- Where a message of a channel can be. -/
inductive Place
  /-- In the hand of the dispatching thread or of the worker. -/
  | hand (thread : Thread)
  /-- In the fault buffer. -/
  | buffer
  /-- In the batch that a thread is replaying. -/
  | batch (thread : Thread)
  /-- In the bitrate queue. -/
  | queue
  /-- Written to the socket or published. -/
  | delivered
  /-- Taken by policy drop inside a window. -/
  | dropped
  /-- Taken by policy latest, and a later message was taken in the same window. -/
  | superseded
  /-- Evicted from the bitrate queue. -/
  | evicted
deriving DecidableEq

namespace ChannelView

variable (view : ChannelView)

/-- The messages that the fault policy took inside a window. -/
def takenInside : List Message :=
  view.log.filterMap fun entry => if entry.inWindow then entry.event.taken? else none

/-- What each place contains, according to the state and the log of the channel,
when windows up to the given number have been opened. -/
def contents (policy : SimCommFaultPolicy) (windows : ℕ) : Place -> Multiset Message
  | .hand thread => view.holding thread
  | .buffer => view.buffer
  | .batch thread => view.pending thread
  | .queue => view.queue
  | .delivered => view.delivered
  | .dropped => if policy = .drop then view.takenInside else 0
  | .superseded =>
      if policy = .latest then
        ∑ window ∈ Finset.range (windows + 1), ((view.takenIn window).dropLast : Multiset Message)
      else 0
  | .evicted => view.evicted

section Projections

variable {entries : List Entry} {buffer queue : List Message}
  {holding pending : Thread -> List Message} {pastCheck : Thread -> Bool}

@[simp] theorem takenInside_append :
    takenInside ⟨view.log ++ entries, buffer, queue, holding, pending, pastCheck⟩ =
      view.takenInside ++ entries.filterMap fun entry =>
        if entry.inWindow then entry.event.taken? else none :=
  List.filterMap_append

end Projections

theorem coe_concat (messages : List Message) (message : Message) :
    ((messages ++ [message] : List Message) : Multiset Message) = messages + {message} :=
  (Multiset.coe_add messages [message]).symm

theorem coe_cons (message : Message) (messages : List Message) :
    ((message :: messages : List Message) : Multiset Message) = messages + {message} := by
  rw [add_comm, Multiset.singleton_add, Multiset.cons_coe]

/-- A window that has taken nothing supersedes nothing. -/
theorem contents_succ {policy : SimCommFaultPolicy} {windows : ℕ}
    (fresh : view.takenIn (windows + 1) = []) :
    view.contents policy (windows + 1) = view.contents policy windows := by
  funext place
  cases place with
  | superseded =>
      simp only [contents]
      rw [Finset.sum_range_succ, fresh]
      simp
  | _ => rfl

/-- Entries about other events than takes discard nothing by a policy. -/
theorem contents_logged (view after : ChannelView) {entries : List Entry}
    (log : after.log = view.log ++ entries) (untaken : ∀ entry ∈ entries, entry.event.taken? = none)
    (policy : SimCommFaultPolicy) (windows : ℕ) :
    after.contents policy windows .dropped = view.contents policy windows .dropped ∧
      after.contents policy windows .superseded = view.contents policy windows .superseded := by
  have inside : after.takenInside = view.takenInside := by
    rw [takenInside, log, List.filterMap_append, ← takenInside, List.append_right_eq_self,
      List.filterMap_eq_nil_iff]
    intro entry member
    rw [untaken entry member, ite_self]
  have taken : ∀ window, after.takenIn window = view.takenIn window := by
    intro window
    rw [takenIn, log, List.filter_append, List.filterMap_append, ← takenIn,
      List.append_right_eq_self, List.filterMap_eq_nil_iff]
    exact fun entry member => untaken entry (List.mem_filter.mp member).1
  simp only [contents, inside, taken, and_self]

/-- When the policy latest takes a message, the one it held becomes superseded. -/
theorem superseded_of_taken {view after : ChannelView} {windows window : ℕ} {message : Message}
    (known : window ≤ windows)
    (taken : ∀ other, after.takenIn other =
      view.takenIn other ++ if window = other then [message] else []) :
    ∑ other ∈ Finset.range (windows + 1), ((after.takenIn other).dropLast : Multiset Message) =
      ∑ other ∈ Finset.range (windows + 1), ((view.takenIn other).dropLast : Multiset Message) +
        ((view.takenIn window).getLast?.toList : Multiset Message) := by
  have member : window ∈ Finset.range (windows + 1) := Finset.mem_range.mpr (by omega)
  have others : ∀ other ∈ (Finset.range (windows + 1)).erase window,
      ((after.takenIn other).dropLast : Multiset Message) = (view.takenIn other).dropLast := by
    intro other erased
    rw [taken, if_neg (Ne.symm (Finset.ne_of_mem_erase erased)), List.append_nil]
  have whole : ((view.takenIn window : List Message) : Multiset Message) =
      (view.takenIn window).dropLast +
        ((view.takenIn window).getLast?.toList : Multiset Message) := by
    rw [Multiset.coe_add]
    cases messages : view.takenIn window using List.reverseRecOn with
    | nil => rfl
    | append_singleton messages last => simp
  rw [← Finset.add_sum_erase _ _ member, ← Finset.add_sum_erase _ _ member,
    Finset.sum_congr rfl others, taken window, if_pos rfl, List.dropLast_concat, whole,
    add_right_comm]

end ChannelView

namespace NodeState

variable {cfg : BridgeConfig} {channel : Channel} {s t : NodeState} {action : Action}

/-- What each place of a channel contains. -/
def contents (cfg : BridgeConfig) (channel : Channel) (s : NodeState) :
    Place -> Multiset Message :=
  (s.view channel).contents (cfg.policy channel) s.windows

/-- Opening a window changes the contents of no place. -/
theorem contents_of_windows (channel : Channel) (cached : s.Cached cfg)
    (step : FaultStep cfg s action t) :
    t.contents cfg channel = (t.view channel).contents (cfg.policy channel) s.windows := by
  cases step with
  | opened _ _ _ _ _ windows _ taken =>
      rw [contents, windows]
      refine ChannelView.contents_succ _ ?_
      rw [taken channel (s.windows + 1)]
      exact cached.fresh channel _ (Nat.lt_succ_self _)
  | still _ _ _ _ _ _ windows => rw [contents, windows]
  | took _ _ _ _ _ _ _ _ _ windows => rw [contents, windows]
  | began _ _ _ _ _ _ _ _ _ _ _ windows => rw [contents, windows]
  | swapped _ _ _ _ _ _ _ _ windows => rw [contents, windows]
  | replayed _ _ _ _ _ _ _ _ windows => rw [contents, windows]
  | ended _ _ _ _ _ _ _ _ windows => rw [contents, windows]

/-- The thread hands on the message that it holds. -/
theorem moves_from_hand {view after : ChannelView} {policy : SimCommFaultPolicy} {windows : ℕ}
    {thread : Thread} {message : Message} (target : Place) (entries : List Entry)
    (held : view.holding thread = [message]) (different : .hand thread ≠ target)
    (holding : after.holding = Function.update view.holding thread [])
    (pending : after.pending = view.pending) (log : after.log = view.log ++ entries)
    (untaken : ∀ entry ∈ entries, entry.event.taken? = none)
    (added : after.contents policy windows target = view.contents policy windows target + {message})
    (frame : ∀ other ∈ [Place.buffer, .queue, .delivered, .evicted], other ≠ target ->
      after.contents policy windows other = view.contents policy windows other) :
    Moves (view.contents policy windows) (after.contents policy windows) (.hand thread) target
      {message} where
  different := different
  taken := by simp [ChannelView.contents, held, holding]
  added := added
  frame := by
    have discards := ChannelView.contents_logged view after log untaken policy windows
    intro other notOrigin notTarget
    cases other with
    | hand other =>
        have apart : other ≠ thread := fun same => notOrigin (same ▸ rfl)
        simp only [ChannelView.contents, holding, Function.update_of_ne apart]
    | batch other => simp only [ChannelView.contents, pending]
    | dropped => exact discards.1
    | superseded => exact discards.2
    | _ => exact frame _ (by simp) notTarget

/-- A flush hands on the first message of its batch. -/
theorem moves_from_batch {view after : ChannelView} {policy : SimCommFaultPolicy} {windows : ℕ}
    {thread : Thread} {message : Message} {rest : List Message} (target : Place)
    (entries : List Entry) (batch : view.pending thread = message :: rest)
    (different : .batch thread ≠ target)
    (pending : after.pending = Function.update view.pending thread rest)
    (holding : after.holding = view.holding) (log : after.log = view.log ++ entries)
    (untaken : ∀ entry ∈ entries, entry.event.taken? = none)
    (added : after.contents policy windows target = view.contents policy windows target + {message})
    (frame : ∀ other ∈ [Place.buffer, .queue, .delivered, .evicted], other ≠ target ->
      after.contents policy windows other = view.contents policy windows other) :
    Moves (view.contents policy windows) (after.contents policy windows) (.batch thread) target
      {message} where
  different := different
  taken := by
    simp only [ChannelView.contents, batch, pending, Function.update_self]
    exact ChannelView.coe_cons message rest
  added := added
  frame := by
    have discards := ChannelView.contents_logged view after log untaken policy windows
    intro other notOrigin notTarget
    cases other with
    | batch other =>
        have apart : other ≠ thread := fun same => notOrigin (same ▸ rfl)
        simp only [ChannelView.contents, pending, Function.update_of_ne apart]
    | hand other => simp only [ChannelView.contents, holding]
    | dropped => exact discards.1
    | superseded => exact discards.2
    | _ => exact frame _ (by simp) notTarget

/-- The bitrate queue evicts its oldest messages. -/
theorem moves_evicted {view : ChannelView} (policy : SimCommFaultPolicy) (windows : ℕ)
    {evicted kept : List Message} (entries : List Entry) (queue : view.queue = evicted ++ kept)
    (untaken : ∀ entry ∈ entries, entry.event.taken? = none)
    (undelivered : ∀ entry ∈ entries, entry.event.delivered? = none)
    (logged : entries.filterMap (fun entry => entry.event.evicted?) = evicted) :
    Moves (view.contents policy windows)
      (ChannelView.contents { view with log := view.log ++ entries, queue := kept } policy windows)
      .queue .evicted evicted where
  different := Place.noConfusion
  taken := by
    simp only [ChannelView.contents, queue, Multiset.coe_add, Multiset.coe_eq_coe]
    exact List.perm_append_comm
  added := by simp only [ChannelView.contents, ChannelView.evicted_append, logged, Multiset.coe_add]
  frame := by
    have discards := ChannelView.contents_logged view
      { view with log := view.log ++ entries, queue := kept } rfl untaken policy windows
    intro other notOrigin notTarget
    cases other with
    | queue => exact absurd rfl notOrigin
    | evicted => exact absurd rfl notTarget
    | delivered =>
        simp only [ChannelView.contents, ChannelView.delivered_append]
        rw [List.filterMap_eq_nil_iff.mpr undelivered, List.append_nil]
    | dropped => exact discards.1
    | superseded => exact discards.2
    | _ => rfl

/-- The fault policy takes the message of a thread. -/
theorem rearranges_took {view : ChannelView} {policy : SimCommFaultPolicy} {thread : Thread}
    {message : Message} {stamp : Entry} {windows : ℕ} (held : view.holding thread = [message])
    (known : stamp.window ≤ windows) (inside : stamp.inWindow = true)
    (event : stamp.event.taken? = some message) (undelivered : stamp.event.delivered? = none)
    (unevicted : stamp.event.evicted? = none)
    (kept : policy = .latest -> view.buffer = (view.takenIn stamp.window).getLast?.toList) :
    Rearranges (view.contents policy windows)
      (ChannelView.contents
        { view with
          log := view.log ++ [stamp]
          buffer := applyFaultPolicyToBuffer policy message view.buffer
          holding := Function.update view.holding thread [] } policy windows) := by
  cases policy with
  | drop =>
      refine (?_ : Moves _ _ (.hand thread) .dropped {message}).rearranges
      refine ⟨Place.noConfusion, ?_, ?_, fun other notOrigin notTarget => ?_⟩
      · simp [ChannelView.contents, held]
      · simp [ChannelView.contents, inside, event, ChannelView.coe_concat]
      · cases other with
        | hand other =>
            have apart : other ≠ thread := fun same => notOrigin (same ▸ rfl)
            simp only [ChannelView.contents, Function.update_of_ne apart]
        | dropped => exact absurd rfl notTarget
        | _ => simp [ChannelView.contents, undelivered, unevicted]
  | buffer =>
      refine (?_ : Moves _ _ (.hand thread) .buffer {message}).rearranges
      refine ⟨Place.noConfusion, ?_, ?_, fun other notOrigin notTarget => ?_⟩
      · simp [ChannelView.contents, held]
      · simp [ChannelView.contents, ChannelView.coe_concat]
      · cases other with
        | hand other =>
            have apart : other ≠ thread := fun same => notOrigin (same ▸ rfl)
            simp only [ChannelView.contents, Function.update_of_ne apart]
        | buffer => exact absurd rfl notTarget
        | _ => simp [ChannelView.contents, undelivered, unevicted]
  | latest =>
      -- the message in the buffer gives way to the new one
      have taken : ∀ other, ChannelView.takenIn
          { view with
            log := view.log ++ [stamp]
            buffer := applyFaultPolicyToBuffer .latest message view.buffer
            holding := Function.update view.holding thread [] } other =
          view.takenIn other ++ if stamp.window = other then [message] else [] := by
        intro other
        rw [ChannelView.takenIn_append]
        by_cases now : stamp.window = other <;> simp [now, event]
      have superseded := ChannelView.superseded_of_taken known taken
      rw [← kept rfl] at superseded
      have first : Moves (view.contents .latest windows) _ .buffer .superseded view.buffer :=
        moves_update Place.noConfusion (zero_add _).symm
      refine first.rearranges.trans
        (Moves.rearranges (?_ : Moves _ _ (.hand thread) .buffer {message}))
      refine ⟨Place.noConfusion, ?_, ?_, fun other notOrigin notTarget => ?_⟩
      · simp [ChannelView.contents, held]
      · simp [ChannelView.contents]
      · cases other with
        | hand other =>
            have apart : other ≠ thread := fun same => notOrigin (same ▸ rfl)
            simp [ChannelView.contents, Function.update_of_ne apart]
        | buffer => exact absurd rfl notTarget
        | superseded => simpa [ChannelView.contents] using superseded
        | _ => simp [ChannelView.contents, undelivered, unevicted]

/-- The step takes messages from one place to the next, or it puts a new one into the
hand of the dispatching thread. -/
def HandsOn (cfg : BridgeConfig) (channel : Channel) (s : NodeState) (action : Action)
    (t : NodeState) : Prop :=
    ((t.view channel).arrived = (s.view channel).arrived ∧
      Rearranges (s.contents cfg channel)
        ((t.view channel).contents (cfg.policy channel) s.windows)) ∨
    ∃ new : Message, action = .arrive channel new.payload ∧ new.arrival = s.arrivals ∧
      (t.view channel).arrived = (s.view channel).arrived ++ [new] ∧
      (t.view channel).contents (cfg.policy channel) s.windows (.hand channel.reader) =
        s.contents cfg channel (.hand channel.reader) + {new} ∧
      ∀ other, other ≠ .hand channel.reader ->
        (t.view channel).contents (cfg.policy channel) s.windows other =
          s.contents cfg channel other

/-- Every step hands messages on, when policy latest holds the last message that it took in the
window, and a window that opens finds an empty buffer. -/
theorem contents_step_of (opened : s.nodeFaultActive = true -> 0 < s.windows)
    (latest : s.nodeFaultActive = true -> cfg.policy channel = .latest ->
      (s.view channel).buffer = ((s.view channel).takenIn s.windows).getLast?.toList)
    (clean : startsFault s action = true -> (s.view channel).buffer = [])
    (step : ChannelStep cfg channel s action t) :
    HandsOn cfg channel s action t := by
  rw [HandsOn, contents]
  cases step with
  | same view => exact .inl ⟨by rw [view], .of_eq (by rw [view])⟩
  | @arrived payload _ at_idle arrivals view =>
      have free : (s.view channel).holding channel.reader = [] :=
        holding_of_free (by rw [at_idle]; rfl)
      have log : (t.view channel).log = (s.view channel).log ++
          [s.stamp (.arrived channel ⟨s.arrivals, payload⟩)] := by rw [view]
      have discards := ChannelView.contents_logged (s.view channel) (t.view channel) log
        (by simp [stamp, Event.taken?]) (cfg.policy channel) s.windows
      refine .inr ⟨⟨s.arrivals, payload⟩, rfl, rfl, by simp [view, stamp, Event.arrived?], ?_, ?_⟩
      · simp [ChannelView.contents, view, free]
      · intro other notTarget
        cases other with
        | hand other =>
            have apart : other ≠ channel.reader := fun same => notTarget (same ▸ rfl)
            simp [ChannelView.contents, view, Function.update_of_ne apart]
        | dropped => exact discards.1
        | superseded => exact discards.2
        | _ => simp [ChannelView.contents, view, stamp, Event.delivered?, Event.evicted?]
  | @took thread job _ about at_check settled active inside view =>
      have held := holding_of_job (s := s) (by rw [at_check]; rfl) about
      refine .inl ⟨by simp [view, stamp, Event.arrived?], ?_⟩
      rw [view]
      refine rearranges_took held le_rfl ?_ rfl rfl rfl (latest active)
      simp [Entry.inWindow, stamp, opened active, inside]
  | @passed _ job _ about at_check settled outside final view =>
      have log : (t.view channel).log = (s.view channel).log ++
          [s.stamp (.passed channel job.message)] := by rw [view]
      have discards := ChannelView.contents_logged (s.view channel) (t.view channel) log
        (by simp [stamp, Event.taken?]) (cfg.policy channel) s.windows
      refine .inl ⟨by simp [view, stamp, Event.arrived?], .of_eq ?_⟩
      funext place
      cases place with
      | dropped => exact discards.1
      | superseded => exact discards.2
      | _ => simp [ChannelView.contents, view, stamp, Event.delivered?, Event.evicted?]
  | @enqueued topic message evicted kept _ about at_cleared queue view =>
      subst about
      have call : (s.pc .ros).job? = some (.dispatchSend topic message) := by rw [at_cleared]; rfl
      have held : (s.view (.send topic)).holding .ros = [message] := holding_of_job call rfl
      refine .inl ⟨by simp [view, stamp, Event.arrived?], ?_⟩
      refine (moves_evicted _ _ (evicted.map fun dropped => s.stamp (.evicted topic dropped)) queue
        (by simp [stamp, Event.taken?]) (by simp [stamp, Event.delivered?])
        (by simp [List.filterMap_map, stamp, Event.evicted?])).rearranges.trans ?_
      rw [view]
      refine Moves.rearranges (moves_from_hand .queue [] held Place.noConfusion rfl rfl
        (List.append_nil _).symm (by simp) ?_ ?_)
      · exact ChannelView.coe_concat kept message
      · simp [ChannelView.contents]
  | @delivered thread job _ about at_cleared final view =>
      have held := holding_of_job (s := s) (by rw [at_cleared]; rfl) about
      refine .inl ⟨by simp [view, stamp, Event.arrived?], ?_⟩
      rw [view]
      refine Moves.rearranges (moves_from_hand .delivered
        [s.stamp (.delivered channel job.message)] held Place.noConfusion rfl rfl rfl
        (by simp [stamp, Event.taken?]) ?_ ?_)
      · simp [ChannelView.contents, stamp, Event.delivered?, ChannelView.coe_concat]
      · simp [ChannelView.contents, stamp, Event.evicted?]
  | @dequeued topic front rest _ about at_loop queue view =>
      subst about
      have free : (s.view (.send topic)).holding (.worker topic) = [] :=
        holding_of_free (by rw [at_loop]; rfl)
      have log : (t.view (.send topic)).log = (s.view (.send topic)).log ++
          [s.stamp (.dequeued topic front)] := by rw [view]
      have discards := ChannelView.contents_logged (s.view (.send topic)) (t.view (.send topic)) log
        (by simp [stamp, Event.taken?]) (cfg.policy (.send topic)) s.windows
      refine .inl ⟨by simp [view, stamp, Event.arrived?],
        Moves.rearranges (?_ : Moves _ _ .queue (.hand (.worker topic)) {front})⟩
      refine ⟨Place.noConfusion, ?_, ?_, fun other notOrigin notTarget => ?_⟩
      · simp only [ChannelView.contents, queue, view]
        exact ChannelView.coe_cons front rest
      · simp [ChannelView.contents, free, view]
      · cases other with
        | hand other =>
            have apart : other ≠ .worker topic := fun same => notTarget (same ▸ rfl)
            simp [ChannelView.contents, view, Function.update_of_ne apart]
        | queue => exact absurd rfl notOrigin
        | dropped => exact discards.1
        | superseded => exact discards.2
        | _ => simp [ChannelView.contents, view, stamp, Event.delivered?, Event.evicted?]
  | @swapped thread _ holds view =>
      have empty : (s.view channel).pending thread = [] := pending_of_swap holds
      refine .inl ⟨by simp [view], ?_⟩
      rw [view]
      refine Moves.rearranges
        (?_ : Moves _ _ .buffer (.batch thread) ((s.view channel).buffer : Multiset Message))
      refine ⟨Place.noConfusion, ?_, ?_, fun other notOrigin notTarget => ?_⟩
      · simp [ChannelView.contents]
      · simp [ChannelView.contents, empty]
      · cases other with
        | batch other =>
            have apart : other ≠ thread := fun same => notTarget (same ▸ rfl)
            simp [ChannelView.contents, Function.update_of_ne apart]
        | buffer => exact absurd rfl notOrigin
        | _ => rfl
  | @replayedDirect thread done rest message _ holds unlimited view =>
      refine .inl ⟨by simp [view, stamp, Event.arrived?], ?_⟩
      rw [view]
      refine Moves.rearranges (moves_from_batch .delivered
        [s.stamp (.replayed channel message), s.stamp (.delivered channel message)]
        (pending_of_replay holds) Place.noConfusion rfl rfl rfl (by simp [stamp, Event.taken?])
        ?_ ?_)
      · simp [ChannelView.contents, stamp, Event.delivered?, ChannelView.coe_concat]
      · simp [ChannelView.contents, stamp, Event.evicted?]
  | @replayedQueued thread done rest topic message evicted kept _ about holds limited queue view =>
      subst about
      refine .inl ⟨by simp [view, stamp, Event.arrived?], ?_⟩
      refine (moves_evicted _ _ (s.stamp (.replayed (.send topic) message) ::
        evicted.map fun dropped => s.stamp (.evicted topic dropped)) queue
        (by simp [stamp, Event.taken?]) (by simp [stamp, Event.delivered?])
        (by simp [List.filterMap_map, stamp, Event.evicted?])).rearranges.trans ?_
      rw [view]
      refine Moves.rearranges (moves_from_batch .queue [] (pending_of_replay holds)
        Place.noConfusion rfl rfl (List.append_nil _).symm (by simp) ?_ ?_)
      · exact ChannelView.coe_concat kept message
      · simp [ChannelView.contents]
  | opened starts view =>
      have empty := clean starts
      exact .inl ⟨by rw [view, ← empty], .of_eq (by rw [view, ← empty])⟩

/-- In a run whose faults are started on an idle node both hold. -/
theorem contents_step (orderly : s.Orderly cfg) (opened : s.nodeFaultActive = true -> 0 < s.windows)
    (idle : StartsWhenIdle s action) (step : ChannelStep cfg channel s action t) :
    HandsOn cfg channel s action t := by
  apply contents_step_of opened _ _ step
  · intro active latest
    have kept := orderly.cached.kept (.inl active) channel
    rw [latest] at kept
    exact kept
  · intro starts
    have calm := idle starts
    simp only [isNodeFaultBusy, Bool.or_eq_false_iff] at calm
    exact orderly.empty calm.1 calm.2 channel

/-- A window is only active after it has been opened. -/
theorem opened_step (opened : s.nodeFaultActive = true -> 0 < s.windows)
    (step : FaultStep cfg s action t) (active : t.nodeFaultActive = true) : 0 < t.windows := by
  cases step with
  | still _ _ _ kept _ _ windows => exact windows ▸ opened (kept ▸ active)
  | took _ _ open_ _ _ _ _ _ _ windows => exact windows ▸ opened open_
  | opened _ _ _ _ _ windows => rw [windows]; exact Nat.succ_pos _
  | began _ _ _ _ _ _ _ _ closed => rw [closed] at active; cases active
  | swapped _ _ _ _ _ kept _ _ windows => exact windows ▸ opened (kept ▸ active)
  | replayed _ _ _ _ _ kept _ _ windows => exact windows ▸ opened (kept ▸ active)
  | ended _ _ _ _ _ kept _ _ windows => exact windows ▸ opened (kept ▸ active)

/-- Every arrived message of the channel is in exactly one place, and no other message
is anywhere. -/
structure Conserved (cfg : BridgeConfig) (channel : Channel) (s : NodeState) : Prop where
  once : ∀ message ∈ (s.view channel).arrived, Located (s.contents cfg channel) message
  known : ∀ message ∉ (s.view channel).arrived, Absent (s.contents cfg channel) message
  opened : s.nodeFaultActive = true -> 0 < s.windows

namespace Conserved

theorem initial (now : ℚ) : (NodeState.initial cfg now).Conserved cfg channel where
  once := fun message member => by cases member
  known := by
    intro message _ place
    cases place with
    | hand thread =>
        simp only [contents, ChannelView.contents]
        rw [holding_of_free (initial_job? now thread)]
        rfl
    | batch thread =>
        simp only [contents, ChannelView.contents]
        rw [pending_of_phases (initial_phases now thread)]
        rfl
    | queue => cases channel <;> rfl
    | dropped =>
        simp only [contents, ChannelView.contents]
        split <;> rfl
    | superseded =>
        simp only [contents, ChannelView.contents]
        split <;> rfl
    | _ => rfl
  opened := fun active => by cases active

theorem of_handsOn (conserved : s.Conserved cfg channel)
    (known : Arrivals channel.reader s.arrivals (s.view channel))
    (windows : t.contents cfg channel = (t.view channel).contents (cfg.policy channel) s.windows)
    (opened : t.nodeFaultActive = true -> 0 < t.windows)
    (handsOn : HandsOn cfg channel s action t) : t.Conserved cfg channel := by
  rcases handsOn with ⟨arrived, rearranges⟩ | ⟨new, -, number, arrived, added, frame⟩
  · refine ⟨?_, ?_, opened⟩ <;> rw [arrived, windows]
    · exact fun message member => rearranges.located message (conserved.once message member)
    · exact fun message absent => rearranges.absent message (conserved.known message absent)
  · have fresh : new ∉ (s.view channel).arrived := by
      intro member
      have below := known.fresh new member
      omega
    have counts : ∀ message, message ≠ new -> ∀ place,
        ((t.view channel).contents (cfg.policy channel) s.windows place).count message =
          (s.contents cfg channel place).count message := by
      intro message different place
      by_cases target : place = .hand channel.reader
      · rw [target, added, Multiset.count_add, Multiset.count_singleton, if_neg different, add_zero]
      · rw [frame place target]
    refine ⟨?_, ?_, opened⟩ <;> rw [arrived, windows] <;> intro message member
    · by_cases same : message = new
      · rw [same]
        exact located_of_added (conserved.known new fresh) added frame
      · rcases conserved.once message
          ((List.mem_append.mp member).resolve_right fun last =>
            same (List.mem_singleton.mp last)) with ⟨place, count⟩
        exact ⟨place, fun other => (counts message same other).trans (count other)⟩
    · have apart : message ∉ (s.view channel).arrived ∧ message ≠ new := by
        simpa using member
      exact fun place =>
        (counts message apart.2 place).trans (conserved.known message apart.1 place)

theorem step (conserved : s.Conserved cfg channel) (valid : cfg.hasChannel channel = true)
    (orderly : s.Orderly cfg) (known : Arrivals channel.reader s.arrivals (s.view channel))
    (idle : StartsWhenIdle s action) (notStop : action ≠ .stop) (step : NodeStep cfg s action t) :
    t.Conserved cfg channel := by
  have windows := contents_of_windows channel orderly.cached (step.fault notStop)
  have opened := opened_step conserved.opened (step.fault notStop)
  exact conserved.of_handsOn known windows opened
    (contents_step orderly conserved.opened idle (step.onChannel valid))

theorem of_reaches (valid : cfg.hasChannel channel = true)
    (run : (bridgeNode cfg).Reaches StartsWhenIdle s) (running : s.nodeFaultThreadRunning = true) :
    s.Conserved cfg channel :=
  invariant_of_running run running initial
    fun _ _ _ reached before conserved idle notStop step =>
      conserved.step valid (Orderly.of_reaches reached before fun _ _ idle => idle)
        (arrivals_of_reaches valid reached) idle notStop step

end Conserved

/-- No message arrives on two channels. -/
theorem arrived_apart {first second : Channel} (validFirst : cfg.hasChannel first = true)
    (validSecond : cfg.hasChannel second = true) (run : (bridgeNode cfg).Reaches StartsWhenIdle s)
    (running : s.nodeFaultThreadRunning = true) {message : Message}
    (inFirst : message ∈ (s.view first).arrived) (inSecond : message ∈ (s.view second).arrived) :
    first = second := by
  by_contra different
  revert inFirst inSecond
  refine invariant_of_running run running
    (P := fun s => message ∈ (s.view first).arrived -> message ∈ (s.view second).arrived -> False)
    (fun _ member => by cases member) ?_
  intro s action t reached before apart idle notStop step inFirst inSecond
  have orderly := Orderly.of_reaches reached before fun _ _ idle => idle
  have opened := (Conserved.of_reaches validFirst reached before).opened
  have freshFirst := (arrivals_of_reaches validFirst reached).fresh message
  have freshSecond := (arrivals_of_reaches validSecond reached).fresh message
  rcases contents_step orderly opened idle (step.onChannel validFirst) with
    ⟨sameFirst, -⟩ | ⟨new, action₁, number, grownFirst, -⟩ <;>
  rcases contents_step orderly opened idle (step.onChannel validSecond) with
    ⟨sameSecond, -⟩ | ⟨new', action₂, number', grownSecond, -⟩
  · rw [sameFirst] at inFirst
    rw [sameSecond] at inSecond
    exact apart inFirst inSecond
  · rw [sameFirst] at inFirst
    rw [grownSecond] at inSecond
    rcases List.mem_append.mp inSecond with older | last
    · exact apart inFirst older
    · rw [List.mem_singleton.mp last] at freshFirst inFirst
      have below := freshFirst inFirst
      omega
  · rw [grownFirst] at inFirst
    rw [sameSecond] at inSecond
    rcases List.mem_append.mp inFirst with older | last
    · exact apart older inSecond
    · rw [List.mem_singleton.mp last] at freshSecond inSecond
      have below := freshSecond inSecond
      omega
  · rw [action₁] at action₂
    exact different (Action.arrive.inj action₂).1

/-- Nothing of a receive topic is left inside an idle node that buffers it. -/
theorem contents_eq_zero {topic : ℕ} (orderly : s.Orderly cfg)
    (policy : cfg.policy (.recv topic) = .buffer) (calm : s.isNodeFaultBusy = false)
    (free : ∀ thread, (s.pc thread).job? = none) {place : Place} (inside : place ≠ .delivered) :
    s.contents cfg (.recv topic) place = 0 := by
  simp only [isNodeFaultBusy, Bool.or_eq_false_iff] at calm
  unfold contents
  cases place with
  | hand thread => simp only [ChannelView.contents, holding_of_free (free thread)]; rfl
  | buffer =>
      have empty : (s.view (.recv topic)).buffer = [] := orderly.empty calm.1 calm.2 _
      simp only [ChannelView.contents, empty]
      rfl
  | batch thread =>
      have outside := orderly.exclusive.phases_eq_none calm.2 thread
      simp only [ChannelView.contents, pending_of_phases outside]
      rfl
  | queue => rfl
  | delivered => exact absurd rfl inside
  | dropped => simp [ChannelView.contents, policy]
  | superseded => simp [ChannelView.contents, policy]
  | evicted =>
      simp only [ChannelView.contents, Multiset.coe_eq_zero, ChannelView.evicted, view,
        List.filterMap_eq_nil_iff]
      intro entry member
      have about := of_decide_eq_true (List.mem_filter.mp member).2
      cases event : entry.event with
      | evicted other message => rw [event] at about; cases about
      | _ => rfl

end NodeState

open NodeState

/-- Conservation.  In a run before shutdown whose faults come from the control
server, every message passed to a dispatch function is in one place of its own
channel, once, and in no place of another channel.  On an idle receive topic with
policy buffer, whose messages nobody holds, this place is outside the node. -/
theorem message_conservation (cfg : BridgeConfig) (only : cfg.ControlOnly) (channel : Channel)
    (valid : cfg.hasChannel channel = true) (s : NodeState) (run : (bridgeNode cfg).Reachable s)
    (running : s.nodeFaultThreadRunning = true) :
    (∀ message ∈ (s.view channel).arrived, ∃ place, ∀ channel' place',
      cfg.hasChannel channel' = true -> (s.contents cfg channel' place').count message =
        if channel' = channel ∧ place' = place then 1 else 0) ∧
    (∀ topic, channel = .recv topic -> cfg.policy channel = .buffer -> s.isNodeFaultBusy = false ->
      (∀ thread, (s.pc thread).job? = none) ->
      (s.view channel).arrived.Nodup ∧
        (s.view channel).delivered.Perm (s.view channel).arrived) := by
  have idle := reaches_startsWhenIdle only run
  have conserved := Conserved.of_reaches valid idle running
  constructor
  · intro message member
    rcases conserved.once message member with ⟨place, counts⟩
    refine ⟨place, fun channel' place' valid' => ?_⟩
    by_cases same : channel' = channel
    · subst same
      rw [counts place']
      simp
    · rw [if_neg fun both => same both.1]
      have elsewhere : message ∉ (s.view channel').arrived := fun member' =>
        same (arrived_apart valid' valid idle running member' member)
      exact (Conserved.of_reaches valid' idle running).known message elsewhere place'
  · rintro topic rfl policy calm free
    have known := arrivals_of_reaches valid run
    have distinct : (s.view (.recv topic)).arrived.Nodup :=
      known.increasing.imp fun earlier same => absurd (same ▸ earlier) (lt_irrefl _)
    refine ⟨distinct, List.perm_iff_count.mpr fun message => ?_⟩
    have count : (s.contents cfg (.recv topic) .delivered).count message =
        (s.view (.recv topic)).delivered.count message := Multiset.coe_count _ _
    rw [← count]
    by_cases member : message ∈ (s.view (.recv topic)).arrived
    · rcases conserved.once message member with ⟨place, counts⟩
      have outside : place = .delivered := by
        by_contra inside
        have here := counts place
        rw [contents_eq_zero (Orderly.of_reaches idle running fun _ _ starts => starts) policy calm
          free inside, if_pos rfl] at here
        cases here
      rw [counts, if_pos outside.symm, List.count_eq_one_of_mem distinct member]
    · rw [conserved.known message member, List.count_eq_zero_of_not_mem member]

/-- One receive topic with policy latest. -/
def supersedingConfig : BridgeConfig where
  sendTopics := []
  recvTopics := [⟨0, .latest⟩]
  nodeFault := none
  durationCast := id
  undefinedSize := fun _ => 0

/-- Of two messages that the policy takes in one window, the second is published. -/
def supersedingSchedule : List Action :=
  [.request 1, .run .control, .run .control,
    .arrive (.recv 0) ⟨1, [0]⟩, .run (.recv 0), .run (.recv 0),
    .arrive (.recv 0) ⟨1, [1]⟩, .run (.recv 0), .run (.recv 0), .advance 1,
    .run .monitor, .run .monitor, .run .monitor, .run .monitor, .run .monitor]

/-- The first message is superseded, so it is not published. -/
theorem message_conservation_superseded :
    ∃ (s : NodeState) (message : Message), message ∈ (s.view (.recv 0)).arrived ∧
      (s.contents supersedingConfig (.recv 0) .superseded).count message = 1 ∧
      message ∉ (s.view (.recv 0)).delivered := by
  let older : Message := ⟨0, ⟨1, [0]⟩⟩
  let newer : Message := ⟨1, ⟨1, [1]⟩⟩
  have executed : ((bridgeNode supersedingConfig).exec (fun _ _ => True)
      (NodeState.initial supersedingConfig 0) supersedingSchedule).map
      (fun s => (s.nodeFaultThreadRunning, s.windows, (s.view (.recv 0)).takenIn 0,
        (s.view (.recv 0)).takenIn 1, (s.view (.recv 0)).arrived)) =
      some (true, 1, [], [older, newer], [older, newer]) := by
    decide +kernel
  rcases NodeState.exists_of_schedule executed with ⟨s, reached, observed⟩
  simp only [Prod.mk.injEq] at observed
  rcases observed with ⟨running, windows, before, inWindow, arrived⟩
  have member : older ∈ (s.view (.recv 0)).arrived := by simp [arrived]
  have superseded : (s.contents supersedingConfig (.recv 0) .superseded).count older = 1 := by
    have policy : supersedingConfig.policy (.recv 0) = .latest := by decide
    simp [NodeState.contents, ChannelView.contents, policy, windows, before, inWindow,
      Finset.sum_range_succ]
  rcases (message_conservation supersedingConfig rfl (.recv 0) (by decide) s
    reached running).1 older member with ⟨place, counts⟩
  have here : place = .superseded := by
    have count := counts (.recv 0) .superseded (by decide)
    rw [superseded] at count
    by_contra elsewhere
    rw [if_neg fun both => elsewhere both.2.symm] at count
    cases count
  refine ⟨s, older, member, superseded, fun delivered => ?_⟩
  have count := counts (.recv 0) .delivered (by decide)
  rw [if_neg fun both => by rw [here] at both; cases both.2] at count
  exact Multiset.count_eq_zero.mp count delivered

end SwarmBridge
