import SwarmBridge.Recovery.Cached
import SwarmBridge.SimComm.Routing

namespace SwarmBridge

open Foundation

/-!
# Channels without a bitrate queue

A receive topic, and a send topic whose bitrate is not limited, hand every message
from the thread that dispatches it straight to the socket or to the publisher, or
through the fault buffer and one replay.  The law of such a channel says where all
its messages are: delivered, in a batch, in the fault buffer and in the hand of
the dispatching thread, in this order, are the arrivals that no policy discarded.

The law rests on one condition about the last check of the channel: a message may
pass it only when no earlier one is left in the fault buffer.  The modules on the
two directions of the bridge say when the checks of the program meet it.
-/

namespace ChannelView

/-- The policy took the message in some window and did not keep it. -/
def lost (policy : SimCommFaultPolicy) (view : ChannelView) (message : Message) : Bool :=
  view.log.any fun entry => decide (entry.event.taken? = some message) &&
    decide (message ∉ policy.keep (view.takenIn entry.window))

theorem mem_takenIn {view : ChannelView} {message : Message} {window : ℕ} :
    message ∈ view.takenIn window ↔
      ∃ entry ∈ view.log, entry.window = window ∧ entry.event.taken? = some message := by
  simp [takenIn, and_assoc]

theorem lost_iff {policy : SimCommFaultPolicy} {view : ChannelView} {message : Message} :
    view.lost policy message = true ↔
      ∃ window, message ∈ view.takenIn window ∧ message ∉ policy.keep (view.takenIn window) := by
  simp only [lost, List.any_eq_true, Bool.and_eq_true, decide_eq_true_eq, mem_takenIn]
  constructor
  · rintro ⟨entry, member, taken, dropped⟩
    exact ⟨entry.window, ⟨entry, member, rfl, taken⟩, dropped⟩
  · rintro ⟨window, ⟨entry, member, rfl, taken⟩, dropped⟩
    exact ⟨entry, member, taken, dropped⟩

theorem lost_buffer {view : ChannelView} {message : Message} :
    view.lost .buffer message = false := by
  refine Bool.eq_false_iff.mpr fun lost => ?_
  rcases lost_iff.mp lost with ⟨window, member, dropped⟩
  exact dropped member

/-- With policy drop everything that was taken is lost. -/
theorem lost_drop_iff {view : ChannelView} {message : Message} :
    view.lost .drop message = true ↔ ∃ window, message ∈ view.takenIn window := by
  simp [lost_iff, SimCommFaultPolicy.keep]

/-- With policy latest all but the last message of each window are lost. -/
theorem lost_latest_iff {view : ChannelView} {message : Message} :
    view.lost .latest message = true ↔ ∃ window, message ∈ view.takenIn window ∧
      (view.takenIn window).getLast? ≠ some message := by
  simp [lost_iff, SimCommFaultPolicy.keep]

/-- What is lost depends on the taken messages only. -/
theorem lost_congr {policy : SimCommFaultPolicy} {view other : ChannelView}
    (same : ∀ window, other.takenIn window = view.takenIn window) :
    other.lost policy = view.lost policy := by
  funext message
  rw [Bool.eq_iff_iff, lost_iff, lost_iff]
  simp only [same]

end ChannelView

namespace SimCommFaultPolicy

/-- Of the messages it holds and the next one, a policy gives up exactly those it
does not keep. -/
theorem keep_filter (policy : SimCommFaultPolicy) {taken : List Message} {message : Message}
    (new : message ∉ taken) :
    (policy.keep taken ++ [message]).filter
        (fun other => !decide (other ∈ taken ++ [message] ∧
          other ∉ policy.keep (taken ++ [message]))) =
      policy.keep (taken ++ [message]) := by
  cases policy with
  | drop => simp [keep]
  | buffer =>
      refine List.filter_eq_self.mpr fun other _ => ?_
      exact (Bool.not_eq_true' _).mpr (decide_eq_false fun both => both.2 both.1)
  | latest =>
      rcases List.eq_nil_or_concat taken with rfl | ⟨init, last, rfl⟩
      · simp [keep]
      · have different : last ≠ message := by
          rintro rfl
          exact new (by simp)
        simp [keep, different]

theorem keep_of_concat (policy : SimCommFaultPolicy) {taken : List Message}
    {message other : Message} (member : other ∈ policy.keep (taken ++ [message])) :
    other = message ∨ other ∈ policy.keep taken := by
  cases policy with
  | drop => cases member
  | buffer => exact (List.mem_append.mp member).symm.imp List.mem_singleton.mp id
  | latest =>
      simp only [keep, List.getLast?_concat, Option.toList_some, List.mem_singleton] at member
      exact .inl member

end SimCommFaultPolicy

namespace NodeState

variable {cfg : BridgeConfig} {channel : Channel} {s t : NodeState} {action : Action}

/-- The action is the last check of a message of the channel, about to let it pass. -/
def passesFor (channel : Channel) (s : NodeState) : Action -> Bool
  | .run thread =>
      match s.pc thread with
      | .check job => job.final && decide (job.channel = channel) && !s.nodeFaultRecovering &&
          !s.isNodeFaultActiveLocked
      | _ => false
  | _ => false

end NodeState

/-- A message passes the last check of the channel while the window is still marked
active only when the fault buffer of the channel is empty. -/
def PassesDrained (channel : Channel) (s : NodeState) (action : Action) : Prop :=
  s.passesFor channel action = true -> s.nodeFaultActive = true -> s.faultBuffers channel = []

instance (channel : Channel) (s : NodeState) (action : Action) :
    Decidable (PassesDrained channel s action) :=
  inferInstanceAs (Decidable (_ -> _ -> _))

namespace NodeState

variable {cfg : BridgeConfig} {channel : Channel} {s t : NodeState} {action : Action}

theorem passesFor_of_check {thread : Thread} {job : Job thread} (about : job.channel = channel)
    (at_check : s.pc thread = .check job) (settled : s.nodeFaultRecovering = false)
    (outside : s.nodeFaultActive = true -> s.nodeFaultUntil ≤ s.now) (final : job.final = true) :
    s.passesFor channel (.run thread) = true := by
  have inactive := isNodeFaultActiveLocked_eq_false outside
  simp [passesFor, at_check, about, settled, final, inactive]

end NodeState

/-! ## The law of a direct channel -/

/-- Where the messages of a channel without a bitrate queue are. -/
structure DirectLaw (policy : SimCommFaultPolicy) (reader : Thread) (arrivals : ℕ)
    (view : ChannelView) : Prop where
  queue : view.queue = []
  hands : ∀ thread, thread ≠ reader -> view.holding thread = []
  fresh : ∀ message ∈ view.arrived, message.arrival < arrivals
  increasing : view.arrived.Pairwise Message.Earlier
  arrived : ∀ message window, message ∈ view.takenIn window -> message ∈ view.arrived
  untaken : ∀ message ∈ view.holding reader, ∀ window, message ∉ view.takenIn window
  gate : view.pastCheck reader = true ->
    view.buffer = [] ∧ ∀ thread, view.pending thread = []
  law : ∃ flusher, (∀ thread, thread ≠ flusher -> view.pending thread = []) ∧
    view.delivered ++ view.pending flusher ++ view.buffer ++ view.holding reader =
      view.arrived.filter fun message => !view.lost policy message

namespace DirectLaw

variable {policy : SimCommFaultPolicy} {reader : Thread} {arrivals : ℕ} {view : ChannelView}

/-- The law when no batch is pending. -/
theorem law_of_settled (direct : DirectLaw policy reader arrivals view)
    (settled : ∀ thread, view.pending thread = []) :
    view.delivered ++ view.buffer ++ view.holding reader =
      view.arrived.filter fun message => !view.lost policy message := by
  rcases direct.law with ⟨flusher, -, law⟩
  rw [settled flusher, List.append_nil] at law
  exact law

theorem distinct (direct : DirectLaw policy reader arrivals view) : view.arrived.Nodup :=
  direct.increasing.imp fun earlier same => by rw [same] at earlier; exact lt_irrefl _ earlier

/-- The message in the hand of the reader has arrived. -/
theorem hand_arrived (direct : DirectLaw policy reader arrivals view) {message : Message}
    (hand : view.holding reader = [message]) : message ∈ view.arrived := by
  rcases direct.law with ⟨flusher, -, law⟩
  have found : message ∈ view.arrived.filter fun other => !view.lost policy other := by
    rw [← law, hand]
    exact List.mem_append_right _ (List.mem_singleton_self message)
  exact List.mem_of_mem_filter found

theorem later (direct : DirectLaw policy reader arrivals view) {more : ℕ} (le : arrivals ≤ more) :
    DirectLaw policy reader more view :=
  { direct with fresh := fun message member => lt_of_lt_of_le (direct.fresh message member) le }

/-- A dispatch function is called with a new message. -/
theorem arrive (direct : DirectLaw policy reader arrivals view) (free : view.holding reader = [])
    (unchecked : view.pastCheck reader = false) {entry : Entry} {channel : Channel}
    {payload : SimCommMessage} (about : entry.event = .arrived channel ⟨arrivals, payload⟩) :
    DirectLaw policy reader (arrivals + 1)
      { view with
        log := view.log ++ [entry]
        holding := Function.update view.holding reader [⟨arrivals, payload⟩] } := by
  have untaken : ∀ window, (⟨arrivals, payload⟩ : Message) ∉ view.takenIn window := by
    intro window member
    exact lt_irrefl arrivals (direct.fresh _ (direct.arrived _ window member))
  have same : ∀ window, ChannelView.takenIn { view with
        log := view.log ++ [entry]
        holding := Function.update view.holding reader [⟨arrivals, payload⟩] } window =
      view.takenIn window :=
    fun _ => view.takenIn_append_untaken (by simp [about, Event.taken?])
  have kept : view.lost policy ⟨arrivals, payload⟩ = false := by
    by_contra dropped
    rcases ChannelView.lost_iff.mp (Bool.not_eq_false _ ▸ dropped) with ⟨window, member, -⟩
    exact untaken window member
  rcases direct.law with ⟨flusher, others, law⟩
  refine ⟨direct.queue, ?_, ?_, ?_, ?_, ?_, ?_, flusher, others, ?_⟩
  · intro thread different
    simp only [Function.update_of_ne different]
    exact direct.hands thread different
  · intro message member
    simp only [ChannelView.arrived_append, List.mem_append, List.filterMap_cons, about,
      Event.arrived?, List.filterMap_nil, List.mem_singleton] at member
    rcases member with member | rfl
    · exact Nat.lt_succ_of_lt (direct.fresh message member)
    · exact Nat.lt_succ_self arrivals
  · simp only [ChannelView.arrived_append, List.filterMap_cons, about, Event.arrived?,
      List.filterMap_nil, List.pairwise_append]
    refine ⟨direct.increasing, List.pairwise_singleton _ _, fun earlier member last isLast => ?_⟩
    rw [List.mem_singleton.mp isLast]
    exact direct.fresh earlier member
  · intro message window member
    rw [same window] at member
    rw [ChannelView.arrived_append]
    exact List.mem_append_left _ (direct.arrived message window member)
  · intro message member window
    simp only [Function.update_self, List.mem_singleton] at member
    rw [same window, member]
    exact untaken window
  · intro checked
    rw [unchecked] at checked
    cases checked
  · rw [ChannelView.lost_congr same, ChannelView.delivered_append, ChannelView.arrived_append,
      List.filter_append, ← law, free]
    simp [about, Event.arrived?, Event.delivered?, kept]

/-- What the policy gives up when it takes one more message in a window, next to
what it has given up before. -/
theorem lost_take (direct : DirectLaw policy reader arrivals view) {message : Message}
    (hand : view.holding reader = [message]) {entry : Entry} {channel : Channel}
    (about : entry.event = .taken channel message) {after : ChannelView}
    (log : after.log = view.log ++ [entry]) (other : Message) :
    after.lost policy other = (view.lost policy other ||
      decide (other ∈ view.takenIn entry.window ++ [message] ∧
        other ∉ policy.keep (view.takenIn entry.window ++ [message]))) := by
  have taken : ∀ window, after.takenIn window = view.takenIn window ++
      if entry.window = window then [message] else [] := by
    intro window
    simp only [ChannelView.takenIn, log, List.filter_append, List.filterMap_append]
    congr 1
    by_cases now : entry.window = window <;> simp [now, about, Event.taken?]
  have new : message ∉ view.takenIn entry.window :=
    direct.untaken message (by rw [hand]; exact List.mem_singleton_self message) entry.window
  rw [Bool.eq_iff_iff, Bool.or_eq_true, decide_eq_true_eq, ChannelView.lost_iff,
    ChannelView.lost_iff]
  simp only [taken]
  constructor
  · rintro ⟨window, member, dropped⟩
    by_cases now : entry.window = window
    · subst now
      rw [if_pos rfl] at member dropped
      exact .inr ⟨member, dropped⟩
    · rw [if_neg now, List.append_nil] at member dropped
      exact .inl ⟨window, member, dropped⟩
  · rintro (⟨window, member, dropped⟩ | both)
    · refine ⟨window, List.mem_append_left _ member, ?_⟩
      by_cases now : entry.window = window
      · subst now
        rw [if_pos rfl]
        intro kept
        rcases policy.keep_of_concat kept with rfl | kept
        · exact new member
        · exact dropped kept
      · rw [if_neg now, List.append_nil]
        exact dropped
    · exact ⟨entry.window, by rwa [if_pos rfl]⟩

/-- The law across a take: what was delivered stays, and the buffer becomes what
the policy keeps. -/
theorem law_take (direct : DirectLaw policy reader arrivals view) {message : Message}
    (hand : view.holding reader = [message]) (settled : ∀ thread, view.pending thread = [])
    {entry : Entry} {channel : Channel} (about : entry.event = .taken channel message)
    (kept : view.buffer = policy.keep (view.takenIn entry.window)) {after : ChannelView}
    (log : after.log = view.log ++ [entry]) :
    view.delivered ++ applyFaultPolicyToBuffer policy message view.buffer =
      view.arrived.filter fun other => !after.lost policy other := by
  have law := direct.law_of_settled settled
  rw [hand, List.append_assoc] at law
  have alive : (view.delivered ++ (view.buffer ++ [message])).Nodup := by
    rw [law]
    exact direct.distinct.filter _
  have new : message ∉ view.takenIn entry.window :=
    direct.untaken message (by rw [hand]; exact List.mem_singleton_self message) entry.window
  have delivered : ∀ other ∈ view.delivered, (!decide
      (other ∈ view.takenIn entry.window ++ [message] ∧
        other ∉ policy.keep (view.takenIn entry.window ++ [message]))) = true := by
    intro other member
    refine (Bool.not_eq_true' _).mpr (decide_eq_false ?_)
    rintro ⟨taken, -⟩
    have apart := List.disjoint_of_nodup_append alive member
    rcases List.mem_append.mp taken with taken | same
    · have remains : other ∈ view.arrived.filter fun other => !view.lost policy other :=
        law ▸ List.mem_append_left _ member
      have found : other ∈ policy.keep (view.takenIn entry.window) := by
        by_contra dropped
        have lost := ChannelView.lost_iff.mpr ⟨entry.window, taken, dropped⟩
        simp [lost] at remains
      exact apart (List.mem_append_left _ (kept ▸ found))
    · exact apart (List.mem_append_right _ same)
  rw [kept, ← policy.keep_concat, ← policy.keep_filter new]
  calc view.delivered ++ (policy.keep (view.takenIn entry.window) ++ [message]).filter
        (fun other => !decide (other ∈ view.takenIn entry.window ++ [message] ∧
          other ∉ policy.keep (view.takenIn entry.window ++ [message])))
      = (view.delivered ++ (view.buffer ++ [message])).filter
          (fun other => !decide (other ∈ view.takenIn entry.window ++ [message] ∧
            other ∉ policy.keep (view.takenIn entry.window ++ [message]))) := by
        rw [List.filter_append view.delivered, List.filter_eq_self.mpr delivered, kept]
    _ = view.arrived.filter fun other => !after.lost policy other := by
        rw [law, List.filter_filter]
        refine List.filter_congr fun other _ => ?_
        rw [direct.lost_take hand about log other, Bool.not_or, Bool.and_comm]

/-- The policy takes the message in the hand of the reader. -/
theorem take (direct : DirectLaw policy reader arrivals view) {message : Message}
    (hand : view.holding reader = [message]) (unchecked : view.pastCheck reader = false)
    (settled : ∀ thread, view.pending thread = []) {entry : Entry} {channel : Channel}
    (about : entry.event = .taken channel message)
    (kept : view.buffer = policy.keep (view.takenIn entry.window)) :
    DirectLaw policy reader arrivals
      { view with
        log := view.log ++ [entry]
        buffer := applyFaultPolicyToBuffer policy message view.buffer
        holding := Function.update view.holding reader [] } := by
  refine ⟨direct.queue, ?_, ?_, ?_, ?_, ?_, ?_, .ros, fun thread _ => settled thread, ?_⟩
  · intro thread different
    simp only [Function.update_of_ne different]
    exact direct.hands thread different
  · simpa [about, Event.arrived?] using direct.fresh
  · simpa [about, Event.arrived?] using direct.increasing
  · intro other window taken
    simp only [ChannelView.arrived_append, ChannelView.takenIn_append] at taken ⊢
    refine List.mem_append_left _ ?_
    rcases List.mem_append.mp taken with taken | taken
    · exact direct.arrived other window taken
    · by_cases now : entry.window = window
      · simp only [now, about, Event.taken?, decide_true, List.filter_cons_of_pos, List.filter_nil,
          List.filterMap_cons, List.filterMap_nil, List.mem_singleton] at taken
        rw [taken]
        exact direct.hand_arrived hand
      · simp [now] at taken
  · intro other held
    simp only [Function.update_self] at held
    cases held
  · intro checked
    rw [unchecked] at checked
    cases checked
  · simp only [settled, Function.update_self, List.append_nil, ChannelView.delivered_append,
      ChannelView.arrived_append, List.filterMap_cons, about, Event.arrived?, Event.delivered?,
      List.filterMap_nil]
    exact direct.law_take hand settled about kept rfl

/-- Steps that neither bring in a message nor let the policy take one only move
messages along. -/
theorem moved (direct : DirectLaw policy reader arrivals view) {after : ChannelView}
    (arrived : after.arrived = view.arrived)
    (taken : ∀ window, after.takenIn window = view.takenIn window)
    (queue : after.queue = view.queue)
    (hands : ∀ thread, thread ≠ reader -> after.holding thread = view.holding thread)
    (hand : ∀ message ∈ after.holding reader, message ∈ view.holding reader)
    (gate : after.pastCheck reader = true ->
      after.buffer = [] ∧ ∀ thread, after.pending thread = [])
    (law : ∃ flusher, (∀ thread, thread ≠ flusher -> after.pending thread = []) ∧
      after.delivered ++ after.pending flusher ++ after.buffer ++ after.holding reader =
        view.arrived.filter fun message => !view.lost policy message) :
    DirectLaw policy reader arrivals after where
  queue := queue.trans direct.queue
  hands := fun thread different => (hands thread different).trans (direct.hands thread different)
  fresh := arrived ▸ direct.fresh
  increasing := arrived ▸ direct.increasing
  arrived := fun message window member => arrived ▸ direct.arrived message window (taken window ▸ member)
  untaken := fun message member window => taken window ▸ direct.untaken message (hand message member) window
  gate := gate
  law := by rwa [arrived, ChannelView.lost_congr taken]

/-- The message in the hand of the reader passes its last check. -/
theorem pass (direct : DirectLaw policy reader arrivals view) (drained : view.buffer = [])
    (settled : ∀ thread, view.pending thread = []) {entry : Entry} {channel : Channel}
    {message : Message} (about : entry.event = .passed channel message) :
    DirectLaw policy reader arrivals
      { view with
        log := view.log ++ [entry]
        pastCheck := Function.update view.pastCheck reader true } := by
  refine direct.moved ?_ ?_ rfl (fun _ _ => rfl) (fun _ held => held)
    (fun _ => ⟨drained, settled⟩) ?_
  · simp [about, Event.arrived?]
  · exact fun _ => view.takenIn_append_untaken (by simp [about, Event.taken?])
  · simpa [about, Event.delivered?] using direct.law

/-- The message in the hand of the reader leaves the node. -/
theorem deliver (direct : DirectLaw policy reader arrivals view) {message : Message}
    (hand : view.holding reader = [message]) (checked : view.pastCheck reader = true)
    {entry : Entry} {channel : Channel} (about : entry.event = .delivered channel message) :
    DirectLaw policy reader arrivals
      { view with
        log := view.log ++ [entry]
        holding := Function.update view.holding reader []
        pastCheck := Function.update view.pastCheck reader false } := by
  rcases direct.gate checked with ⟨drained, settled⟩
  have law := direct.law_of_settled settled
  rw [drained, hand, List.append_nil] at law
  refine direct.moved ?_ ?_ rfl ?_ ?_ ?_ ⟨.ros, fun thread _ => settled thread, ?_⟩
  · simp [about, Event.arrived?]
  · exact fun _ => view.takenIn_append_untaken (by simp [about, Event.taken?])
  · exact fun thread different => Function.update_of_ne different _ _
  · simp
  · simp
  · simpa [about, Event.delivered?, settled, drained] using law

/-- A flush swaps the buffers out. -/
theorem swap (direct : DirectLaw policy reader arrivals view)
    (settled : ∀ thread, view.pending thread = []) (thread : Thread) :
    DirectLaw policy reader arrivals
      { view with
        buffer := []
        pending := Function.update view.pending thread view.buffer } := by
  have law := direct.law_of_settled settled
  refine direct.moved rfl (fun _ => rfl) rfl (fun _ _ => rfl) (fun _ held => held) ?_
    ⟨thread, ?_, ?_⟩
  · intro checked
    refine ⟨rfl, fun other => ?_⟩
    simp only [(direct.gate checked).1]
    by_cases same : other = thread
    · rw [same, Function.update_self]
    · rw [Function.update_of_ne same, settled]
  · intro other different
    simp only [Function.update_of_ne different, settled]
  · simpa using law

/-- A flush replays one message. -/
theorem replay (direct : DirectLaw policy reader arrivals view) {thread : Thread}
    {message : Message} {rest : List Message} (pending : view.pending thread = message :: rest)
    {replayed delivered : Entry} {channel : Channel}
    (first : replayed.event = .replayed channel message)
    (second : delivered.event = .delivered channel message) :
    DirectLaw policy reader arrivals
      { view with
        log := view.log ++ [replayed, delivered]
        pending := Function.update view.pending thread rest } := by
  rcases direct.law with ⟨flusher, others, law⟩
  have flushes : thread = flusher := by
    by_contra different
    rw [others thread different] at pending
    cases pending
  subst flushes
  rw [pending] at law
  refine direct.moved ?_ ?_ rfl (fun _ _ => rfl) (fun _ held => held) ?_ ⟨thread, ?_, ?_⟩
  · simp [first, second, Event.arrived?]
  · exact fun _ => view.takenIn_append_untaken (by simp [first, second, Event.taken?])
  · intro checked
    rw [(direct.gate checked).2 thread] at pending
    cases pending
  · intro other different
    simp only [Function.update_of_ne different, others other different]
  · simpa [first, second, Event.delivered?] using law

end DirectLaw

/-! ## The law holds in every run that meets the condition -/

namespace NodeState

variable {cfg : BridgeConfig} {channel : Channel} {s t : NodeState} {action : Action}

theorem directLaw_initial (channel : Channel) (now : ℚ) (policy : SimCommFaultPolicy) :
    DirectLaw policy channel.reader (NodeState.initial cfg now).arrivals
      ((NodeState.initial cfg now).view channel) := by
  have free : ∀ thread, ((NodeState.initial cfg now).view channel).holding thread = [] := by
    intro thread
    simp [view, Pc.holding]
  have settled : ∀ thread, ((NodeState.initial cfg now).view channel).pending thread = [] :=
    fun thread => pending_of_phases (initial_phases now thread)
  refine ⟨?_, fun thread _ => free thread, ?_, List.Pairwise.nil, ?_, ?_,
    fun _ => ⟨rfl, settled⟩, .ros, fun thread _ => settled thread, ?_⟩
  · cases channel <;> rfl
  · intro message member
    cases member
  · intro message window member
    cases member
  · intro message member
    rw [free] at member
    cases member
  · rw [free, settled]
    rfl

theorem DirectLaw.reader_of_job {policy : SimCommFaultPolicy} {arrivals : ℕ}
    (direct : DirectLaw policy channel.reader arrivals (s.view channel)) {thread : Thread}
    {job : Job thread} (call : (s.pc thread).job? = some job) (about : job.channel = channel) :
    thread = channel.reader := by
  by_contra different
  have empty := direct.hands thread different
  rw [holding_of_job call about] at empty
  cases empty

/-- A check that lets a message pass finds the fault buffer empty: the window is
closed, or the condition says so. -/
theorem buffer_eq_nil_of_passes (orderly : s.Orderly cfg) (drained : PassesDrained channel s action)
    (settled : s.nodeFaultRecovering = false) (passes : s.passesFor channel action = true) :
    s.faultBuffers channel = [] := by
  cases active : s.nodeFaultActive with
  | false => exact orderly.empty active settled channel
  | true => exact drained passes active

theorem directLaw_step (valid : cfg.hasChannel channel = true)
    (unlimited : cfg.limited channel = false) (orderly : s.Orderly cfg)
    (routed : s.Routed cfg)
    (direct : DirectLaw (cfg.policy channel) channel.reader s.arrivals (s.view channel))
    (idle : StartsWhenIdle s action) (drained : PassesDrained channel s action)
    (step : NodeStep cfg s action t) :
    DirectLaw (cfg.policy channel) channel.reader t.arrivals (t.view channel) := by
  have le := arrivals_le step
  have settled_pending : s.nodeFaultRecovering = false ->
      ∀ thread, (s.view channel).pending thread = [] := fun settled thread =>
    pending_of_phases (orderly.exclusive.phases_eq_none settled thread)
  cases step.onChannel valid with
  | same view => exact view ▸ direct.later le
  | arrived at_idle arrivals view =>
      rw [view, arrivals]
      refine direct.arrive ?_ ?_ rfl
      · simp [NodeState.view, at_idle, Pc.holding, Pc.job?]
      · simp [NodeState.view, at_idle, Pc.pastCheck]
  | @took thread job _ about at_check settled active inside view =>
      have reader := DirectLaw.reader_of_job direct (by rw [at_check]; rfl) about
      subst reader
      rw [view]
      refine (direct.take (holding_of_job (by rw [at_check]; rfl) about) ?_
        (settled_pending settled) rfl ?_).later le
      · simp [NodeState.view, at_check, Pc.pastCheck]
      · exact orderly.cached.kept (.inl active) channel
  | passed about at_check settled outside final view =>
      have reader := DirectLaw.reader_of_job direct (by rw [at_check]; rfl) about
      subst reader
      rw [view]
      refine (direct.pass ?_ (settled_pending settled) rfl).later le
      exact buffer_eq_nil_of_passes orderly drained settled
        (passesFor_of_check about at_check settled outside final)
  | enqueued about at_cleared =>
      subst about
      rw [routed.queued _ _ at_cleared] at unlimited
      cases unlimited
  | delivered about at_cleared final view =>
      have reader := DirectLaw.reader_of_job direct (by rw [at_cleared]; rfl) about
      subst reader
      rw [view]
      refine (direct.deliver (holding_of_job (by rw [at_cleared]; rfl) about) ?_ rfl).later le
      simp [NodeState.view, at_cleared, Pc.pastCheck, final, about]
  | dequeued about at_loop queue view =>
      rw [direct.queue] at queue
      cases queue
  | @swapped thread _ holds view =>
      rw [view]
      refine (direct.swap (fun other => ?_) thread).later le
      by_cases same : other = thread
      · exact same ▸ pending_of_swap holds
      · exact pending_of_phases (orderly.exclusive.sole.others (by rw [holds]; rfl) other same)
  | replayedDirect holds unlimited view =>
      rw [view]
      exact (direct.replay (pending_of_replay holds) rfl rfl).later le
  | replayedQueued about holds limited =>
      rw [limited] at unlimited
      cases unlimited
  | opened starts view =>
      have calm := idle starts
      simp only [isNodeFaultBusy, Bool.or_eq_false_iff] at calm
      have empty : (s.view channel).buffer = [] := orderly.empty calm.1 calm.2 channel
      rw [view, ← empty]
      exact direct.later le

/-- The law holds in every run before the stop in which faults are started on an
idle node and the last checks of the channel meet the condition. -/
theorem directLaw_of_reaches {allow : NodeState -> Action -> Prop}
    (valid : cfg.hasChannel channel = true) (unlimited : cfg.limited channel = false)
    (run : (bridgeNode cfg).Reaches allow s) (running : s.nodeFaultThreadRunning = true)
    (idle : ∀ s a, allow s a -> StartsWhenIdle s a)
    (drained : ∀ s a, allow s a -> PassesDrained channel s a) :
    DirectLaw (cfg.policy channel) channel.reader s.arrivals (s.view channel) := by
  apply invariant_of_running run running
    (P := fun s => DirectLaw (cfg.policy channel) channel.reader s.arrivals (s.view channel))
  · exact fun now => directLaw_initial channel now _
  · intro s a t reached before direct allowed _ step
    have orderly := Orderly.of_reaches reached before idle
    exact directLaw_step valid unlimited orderly (Routed.of_reaches reached) direct
      (idle s a allowed) (drained s a allowed) step

end NodeState

/-! ## What the law says about the order of delivery -/

namespace DirectLaw

variable {policy : SimCommFaultPolicy} {reader : Thread} {arrivals : ℕ} {view : ChannelView}

theorem delivered_sublist (direct : DirectLaw policy reader arrivals view) :
    view.delivered.Sublist view.arrived := by
  rcases direct.law with ⟨flusher, -, law⟩
  have kept : (view.arrived.filter fun message => !view.lost policy message).Sublist view.arrived :=
    List.filter_sublist
  rw [← law, List.append_assoc, List.append_assoc] at kept
  exact (List.sublist_append_left _ _).trans kept

/-- Messages still in the fault buffer or in a batch are later than all delivered ones. -/
theorem delivered_before (direct : DirectLaw policy reader arrivals view)
    {delivered cached : Message} (left : delivered ∈ view.delivered)
    (waits : cached ∈ view.buffer ∨ ∃ thread, cached ∈ view.pending thread) :
    delivered.arrival < cached.arrival := by
  rcases direct.law with ⟨flusher, others, law⟩
  have ordered := direct.increasing.sublist
    (List.filter_sublist (p := fun message => !view.lost policy message))
  rw [← law, List.append_assoc, List.append_assoc] at ordered
  refine (List.pairwise_append.mp ordered).2.2 delivered left cached ?_
  rcases waits with cached | ⟨thread, pending⟩
  · exact List.mem_append_right _ (List.mem_append_left _ cached)
  · by_cases same : thread = flusher
    · exact List.mem_append_left _ (same ▸ pending)
    · rw [others thread same] at pending
      cases pending

/-- The message in the hand of the reader is later than everything cached. -/
theorem buffer_before_hand (direct : DirectLaw policy reader arrivals view)
    {cached held : Message} (waits : cached ∈ view.buffer) (hand : held ∈ view.holding reader) :
    cached.arrival < held.arrival := by
  rcases direct.law with ⟨flusher, -, law⟩
  have ordered := direct.increasing.sublist
    (List.filter_sublist (p := fun message => !view.lost policy message))
  rw [← law] at ordered
  exact (List.pairwise_append.mp ordered).2.2 cached (List.mem_append_right _ waits) held hand

end DirectLaw

end SwarmBridge
