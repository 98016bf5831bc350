import SwarmBridge.SimComm.Condition
import SwarmBridge.SimComm.FaultSteps
import SwarmBridge.Foundation.Fairness

namespace SwarmBridge

open Foundation

/-!
# The shared condition variable strands nobody

Dispatching threads and workers wait on `node_fault_condition` for the end of a
recovery, the monitor waits on it for a fault, and `start_node_fault` notifies only
one of them.  Whoever has set `node_fault_recovering` still owes a `notify_all`,
and keeps owing it until it calls it.  A dispatching thread only goes to sleep
while somebody owes one, so if `notify_one` wakes such a thread instead of the
monitor, a `notify_all` for the monitor is on its way.
-/

namespace Pc

variable {thread : Thread}

/-- The thread will call `notify_all` in the course of what it is doing. -/
def owesNotifyAll : {thread : Thread} -> Pc thread -> Bool
  | _, .flushing _ _ => true
  | _, .notifyAll _ => true
  | _, .stopNotify => true
  | _, _ => false

theorem ne_idle_of_atWait {pc : Pc thread} (atWait : pc.atWait = true) : pc ≠ .idle := by
  rintro rfl
  cases atWait

theorem ne_idle_of_owes {pc : Pc thread} (owes : pc.owesNotifyAll = true) : pc ≠ .idle := by
  rintro rfl
  cases owes

theorem ne_idle_of_atNotifyOne {pc : Pc thread} (at_notify : pc.atNotifyOne = true) :
    pc ≠ .idle := by
  rintro rfl
  cases at_notify

/-- Only the two starters call `notify_one`. -/
theorem starter_of_atNotifyOne {pc : Pc thread} (at_notify : pc.atNotifyOne = true) :
    thread = .control ∨ thread = .startup := by
  cases pc with
  | notifyOne starter => exact starter
  | _ => cases at_notify

/-- Whoever sleeps, other than the monitor, waits for the end of a recovery. -/
theorem check_of_atWait {pc : Pc thread} (atWait : pc.atWait = true) (other : thread ≠ .monitor) :
    ∃ job, pc = .check job := by
  cases pc with
  | check job => exact ⟨job, rfl⟩
  | waitFault => exact absurd rfl other
  | waitDeadline => exact absurd rfl other
  | _ => cases atWait

/-- Past its swap, the thread only replays before it calls `notify_all`. -/
def replays : {thread : Thread} -> Pc thread -> Bool
  | _, .flushing _ (.replay _ _) => true
  | _, .notifyAll _ => true
  | _, .stopNotify => true
  | _, _ => false

/-- The messages that are still to replay, and the end of the flush. -/
def sectionsLeft : {thread : Thread} -> Pc thread -> ℕ
  | _, .flushing _ (.replay _ rest) => rest.length + 1
  | _, _ => 0

theorem owes_of_replays {pc : Pc thread} (replays : pc.replays = true) :
    pc.owesNotifyAll = true := by
  cases pc with
  | flushing resume phase => rfl
  | notifyAll job => rfl
  | stopNotify => rfl
  | _ => cases replays

theorem not_atWait_of_owes {pc : Pc thread} (owes : pc.owesNotifyAll = true) :
    pc.atWait = false ∧ pc.atNotifyOne = false := by
  cases pc with
  | flushing resume phase => exact ⟨rfl, rfl⟩
  | notifyAll job => exact ⟨rfl, rfl⟩
  | stopNotify => exact ⟨rfl, rfl⟩
  | _ => cases owes

/-- Whoever owes a `notify_all` has begun to replay, or is about to swap. -/
theorem replays_or_swap {pc : Pc thread} (owes : pc.owesNotifyAll = true) :
    pc.replays = true ∨ ∃ resume, pc = .flushing resume .swap := by
  cases pc with
  | flushing resume phase =>
      cases phase with
      | swap => exact .inr ⟨resume, rfl⟩
      | replay done rest => exact .inl rfl
  | notifyAll job => exact .inl rfl
  | stopNotify => exact .inl rfl
  | _ => cases owes

end Pc

namespace NodeState

variable {cfg : BridgeConfig} {s t : NodeState} {thread : Thread} {action : Action}

/-- Some thread will call `notify_all` in the course of what it is doing. -/
def OwesNotifyAll (s : NodeState) : Prop := ∃ thread, (s.pc thread).owesNotifyAll = true

/-- Some thread is between setting `node_fault_recovering` and clearing it. -/
def Flushes (s : NodeState) : Prop := ∃ thread, (s.phases thread).isSome = true

theorem Flushes.owes (flushes : s.Flushes) : s.OwesNotifyAll := by
  rcases flushes with ⟨thread, present⟩
  refine ⟨thread, ?_⟩
  simp only [phases] at present
  cases at_pc : s.pc thread with
  | flushing resume phase => rfl
  | _ => rw [at_pc] at present; cases present

/-- Whoever set the flag last has not cleared it yet. -/
theorem flushes_step (flushes : s.nodeFaultRecovering = true -> s.Flushes)
    (step : NodeStep cfg s action t) (recovering : t.nodeFaultRecovering = true) : t.Flushes := by
  by_cases isStop : action = .stop
  · subst isStop
    cases step
    cases recovering
  · have stays : ∀ {thread : Thread} {phase : FlushPhase},
        t.phases = Function.update s.phases thread (some phase) -> t.Flushes := by
      intro thread phase phases
      exact ⟨thread, by rw [phases, Function.update_self]; rfl⟩
    cases step.fault isStop with
    | still _ phases kept =>
        rw [Flushes, phases]
        exact flushes (kept ▸ recovering)
    | took _ _ _ _ _ settled => rw [settled] at recovering; cases recovering
    | opened _ phases kept =>
        rw [Flushes, phases]
        exact flushes (kept ▸ recovering)
    | began _ _ _ _ _ _ phases => exact stays phases
    | swapped _ _ _ phases => exact stays phases
    | replayed _ _ _ phases => exact stays phases
    | ended _ _ _ _ settled => rw [settled] at recovering; cases recovering

/-- A thread that owes a `notify_all` is never held up. -/
theorem section_of_owes (owes : (s.pc thread).owesNotifyAll = true) :
    nodeStep cfg s (.run thread) ≠ none := by
  unfold nodeStep
  cases at_pc : s.pc thread with
  | flushing resume phase => simp [section?, at_pc]
  | notifyAll job => simp [section?, at_pc]
  | stopNotify => simp [section?, at_pc]
  | _ => rw [at_pc] at owes; cases owes

/-- The step after the swap replays. -/
theorem replays_of_swap {resume : Resume thread} (at_swap : s.pc thread = .flushing resume .swap)
    (step : nodeStep cfg s (.run thread) = some t) : (t.pc thread).replays = true := by
  simp only [nodeStep, section?, at_swap, flushSection, Option.some.injEq] at step
  subst step
  rw [swapBuffers, move_pc, Function.update_self]
  rfl

/-- A replaying thread that does not notify yet has one section less to go. -/
theorem replays_run (replays : (s.pc thread).replays = true)
    (quiet : (s.pc thread).atNotifyAll = false) (step : nodeStep cfg s (.run thread) = some t) :
    (t.pc thread).replays = true ∧ (t.pc thread).sectionsLeft < (s.pc thread).sectionsLeft := by
  unfold nodeStep at step
  cases at_pc : s.pc thread with
  | flushing resume phase =>
      simp only [section?, at_pc, Option.some.injEq] at step
      subst step
      cases phase with
      | swap => rw [at_pc] at replays; cases replays
      | replay done rest =>
          cases rest with
          | cons head rest =>
              rw [flushSection, move_pc, Function.update_self]
              exact ⟨rfl, by simp [Pc.sectionsLeft]⟩
          | nil =>
              cases resume with
              | job job =>
                  rw [flushSection, endRecovery, move_pc, Function.update_self]
                  exact ⟨rfl, by simp [Pc.sectionsLeft]⟩
              | loop => rw [at_pc] at quiet; cases quiet
  | notifyAll job => rw [at_pc] at quiet; cases quiet
  | stopNotify => rw [at_pc] at quiet; cases quiet
  | _ => rw [at_pc] at replays; cases replays

/-- A step of a thread that owes a `notify_all` calls it, or leaves it owed. -/
theorem owes_run (owes : (s.pc thread).owesNotifyAll = true)
    (quiet : (s.pc thread).atNotifyAll = false) (step : nodeStep cfg s (.run thread) = some t) :
    (t.pc thread).owesNotifyAll = true := by
  rcases Pc.replays_or_swap owes with replays | ⟨resume, at_swap⟩
  · exact Pc.owes_of_replays (replays_run replays quiet step).1
  · exact Pc.owes_of_replays (replays_of_swap at_swap step)

/-- Whoever owes a `notify_all` calls it in this step, or still owes it. -/
theorem OwesNotifyAll.step (owes : s.OwesNotifyAll)
    (quiet : ∀ thread, action = .run thread -> (s.pc thread).atNotifyAll = false)
    (step : nodeStep cfg s action = some t) : t.OwesNotifyAll := by
  rcases owes with ⟨thread, owed⟩
  refine ⟨thread, ?_⟩
  by_cases own : action = .run thread
  · subst own
    exact owes_run owed (quiet thread rfl) step
  · rwa [(nodeStep_cases step).pc_busy (Pc.ne_idle_of_owes owed) own]

/-- A window is opened by a thread that is then about to call `notify_one`. -/
theorem active_step (step : NodeStep cfg s action t) (active : t.nodeFaultActive = true) :
    s.nodeFaultActive = true ∨ ∃ starter, (t.pc starter).atNotifyOne = true := by
  cases step with
  | @openWindow thread durationSec starter =>
      refine .inr ⟨thread, ?_⟩
      rw [move_pc, Function.update_self]
      rfl
  | expire => cases active
  | monitorExpire => cases active
  | stop => cases active
  | _ => exact .inl active

end NodeState

/-- What the sleepers of `node_fault_condition` can rely on. -/
structure Wakeable (c : ConditionState) : Prop where
  atWait : ∀ thread ∈ c.waiting, (c.node.pc thread).atWait = true
  flushes : c.node.nodeFaultRecovering = true -> c.node.Flushes
  dispatchers : ∀ thread ∈ c.waiting, thread ≠ .monitor -> c.node.OwesNotifyAll
  monitor : c.node.nodeFaultActive = true -> .monitor ∈ c.waiting ->
    c.node.pc .monitor = .waitFault ->
    c.node.OwesNotifyAll ∨ ∃ starter, (c.node.pc starter).atNotifyOne = true

namespace Wakeable

variable {cfg : BridgeConfig} {c d : ConditionState} {action : ConditionAction}

theorem initial (started : (conditionNode cfg).init c) : Wakeable c := by
  rcases started with ⟨⟨now, initial⟩, nobody⟩
  constructor
  · intro thread asleep
    rw [nobody] at asleep
    cases asleep
  · intro recovering
    rw [initial] at recovering
    cases recovering
  · intro thread asleep
    rw [nobody] at asleep
    cases asleep
  · intro active
    rw [initial] at active
    cases active

/-- Fewer sleepers, in a state that owes what it owed. -/
theorem fewer (wakeable : Wakeable c) {waiting : Finset Thread} (subset : waiting ⊆ c.waiting) :
    Wakeable ⟨c.node, waiting⟩ where
  atWait := fun thread asleep => wakeable.atWait thread (subset asleep)
  flushes := wakeable.flushes
  dispatchers := fun thread asleep => wakeable.dispatchers thread (subset asleep)
  monitor := fun active asleep => wakeable.monitor active (subset asleep)

/-- Nobody sleeps. -/
theorem nobody {t : NodeState} (flushes : t.nodeFaultRecovering = true -> t.Flushes) :
    Wakeable ⟨t, ∅⟩ where
  atWait := fun _ asleep => by cases asleep
  flushes := flushes
  dispatchers := fun _ asleep => by cases asleep
  monitor := fun _ asleep => by cases asleep

/-- A thread goes to sleep because its predicate fails. -/
theorem sleep (wakeable : Wakeable c) {thread : Thread} (must : c.node.mustWait thread = true) :
    Wakeable ⟨c.node, insert thread c.waiting⟩ := by
  have newcomer : (c.node.pc thread).atWait = true := by
    unfold NodeState.mustWait at must
    cases at_pc : c.node.pc thread with
    | check job => rfl
    | waitFault => rfl
    | waitDeadline => rfl
    | _ => rw [at_pc] at must; cases must
  constructor
  · intro other asleep
    rcases Finset.mem_insert.mp asleep with rfl | asleep
    · exact newcomer
    · exact wakeable.atWait other asleep
  · exact wakeable.flushes
  · intro other asleep notMonitor
    rcases Finset.mem_insert.mp asleep with rfl | asleep
    · -- the flag is set, so somebody flushes
      rcases Pc.check_of_atWait newcomer notMonitor with ⟨job, at_check⟩
      simp only [NodeState.mustWait, at_check] at must
      exact (wakeable.flushes must).owes
    · exact wakeable.dispatchers other asleep notMonitor
  · intro active asleep at_wait
    rcases Finset.mem_insert.mp asleep with same | asleep
    · subst same
      have open_ : c.node.nodeFaultActive = true := active
      have here : c.node.pc .monitor = .waitFault := at_wait
      simp only [NodeState.mustWait, here, open_, Bool.not_true, Bool.and_false] at must
      cases must
    · exact wakeable.monitor active asleep at_wait

/-- A step that calls no `notify_all` only has to account for the monitor. -/
theorem after (wakeable : Wakeable c) {action : Action} {t : NodeState} {waiting : Finset Thread}
    (awake : ∀ thread, action = .run thread -> thread ∉ c.waiting)
    (quiet : ∀ thread, action = .run thread -> (c.node.pc thread).atNotifyAll = false)
    (step : nodeStep cfg c.node action = some t) (subset : waiting ⊆ c.waiting)
    (monitor : t.nodeFaultActive = true -> .monitor ∈ waiting ->
      c.node.pc .monitor = .waitFault ->
      t.OwesNotifyAll ∨ ∃ starter, (t.pc starter).atNotifyOne = true) :
    Wakeable ⟨t, waiting⟩ := by
  have stays : ∀ thread ∈ waiting, t.pc thread = c.node.pc thread := by
    intro thread asleep
    refine (nodeStep_cases step).pc_busy
      (Pc.ne_idle_of_atWait (wakeable.atWait thread (subset asleep))) ?_
    exact fun own => awake thread own (subset asleep)
  constructor
  · intro thread asleep
    rw [stays thread asleep]
    exact wakeable.atWait thread (subset asleep)
  · exact NodeState.flushes_step wakeable.flushes (nodeStep_cases step)
  · intro thread asleep notMonitor
    exact (wakeable.dispatchers thread (subset asleep) notMonitor).step quiet step
  · intro active asleep at_wait
    exact monitor active asleep ((stays .monitor asleep).symm.trans at_wait)

/-- A step of an awake thread, or of the surroundings. -/
theorem moved (wakeable : Wakeable c) {action : Action} {t : NodeState}
    (awake : ∀ thread, action = .run thread -> thread ∉ c.waiting)
    (quiet : ∀ thread, action = .run thread -> (c.node.pc thread).atNotifyAll = false)
    (unnotified : ∀ starter, action = .run starter -> (c.node.pc starter).atNotifyOne = false)
    (step : nodeStep cfg c.node action = some t) : Wakeable ⟨t, c.waiting⟩ := by
  refine wakeable.after awake quiet step (Finset.Subset.refl _) fun active asleep at_wait => ?_
  rcases NodeState.active_step (nodeStep_cases step) active with before | notifier
  · rcases wakeable.monitor before asleep at_wait with owes | ⟨starter, at_notify⟩
    · exact .inl (owes.step quiet step)
    · refine .inr ⟨starter, ?_⟩
      rw [(nodeStep_cases step).pc_busy (Pc.ne_idle_of_atNotifyOne at_notify)]
      · exact at_notify
      · intro own
        rw [unnotified starter own] at at_notify
        cases at_notify
  · exact .inr notifier

/-- `notify_one` wakes the monitor, or a thread for which a `notify_all` is owed. -/
theorem notifiedOne (wakeable : Wakeable c) {starter woken : Thread} {t : NodeState}
    (asleep : woken ∈ c.waiting) (at_notify : (c.node.pc starter).atNotifyOne = true)
    (step : nodeStep cfg c.node (.run starter) = some t) :
    Wakeable ⟨t, c.waiting.erase woken⟩ := by
  have awake : starter ∉ c.waiting := by
    intro sleeping
    have atWait := wakeable.atWait starter sleeping
    cases at_pc : c.node.pc starter with
    | notifyOne => rw [at_pc] at atWait; cases atWait
    | _ => rw [at_pc] at at_notify; cases at_notify
  have quiet : (c.node.pc starter).atNotifyAll = false := by
    cases at_pc : c.node.pc starter with
    | notifyOne => rfl
    | _ => rw [at_pc] at at_notify; cases at_notify
  have quiet' : ∀ thread, Action.run starter = .run thread ->
      (c.node.pc thread).atNotifyAll = false := by
    rintro thread own
    cases own
    exact quiet
  refine wakeable.after ?_ quiet' step (Finset.erase_subset _ _) fun _ monitor _ => ?_
  · rintro thread own
    cases own
    exact awake
  · -- the monitor still sleeps, so another thread was woken
    have wrong : woken ≠ .monitor := fun same => Finset.ne_of_mem_erase monitor same.symm
    exact .inl ((wakeable.dispatchers woken asleep wrong).step quiet' step)

theorem step (wakeable : Wakeable c) (step : ConditionStep cfg c action d) : Wakeable d := by
  have flushes : ∀ {action : Action} {t : NodeState}, nodeStep cfg c.node action = some t ->
      t.nodeFaultRecovering = true -> t.Flushes := fun moves =>
    NodeState.flushes_step wakeable.flushes (nodeStep_cases moves)
  cases step with
  | @moved action t runnable quiet step =>
      refine wakeable.moved ?_ ?_ ?_ step
      · rintro thread rfl
        simp only [ConditionState.runnable, Bool.and_eq_true, decide_eq_true_eq] at runnable
        exact runnable.1
      · rintro thread rfl
        exact quiet
      · rintro starter rfl
        simp only [ConditionState.runnable, Bool.and_eq_true, Bool.not_eq_true'] at runnable
        exact runnable.2
  | notifiedAll _ step => exact nobody (flushes step)
  | notifiedNobody _ _ step => exact nobody (flushes step)
  | notifiedOne asleep at_notify step => exact wakeable.notifiedOne asleep at_notify step
  | slept _ must => exact wakeable.sleep must
  | woke => exact wakeable.fewer (Finset.erase_subset _ _)

theorem of_reachable (run : (conditionNode cfg).Reachable c) : Wakeable c :=
  run.invariant (fun _ started => initial started)
    fun _ _ _ _ wakeable _ stepped => wakeable.step (conditionStep_cases stepped)

end Wakeable

/-! ## What is owed is paid -/

namespace ConditionState

variable {cfg : BridgeConfig} {c d : ConditionState} {thread : Thread}

/-- In every continuation in which no thread that can step is passed over for ever,
some thread calls `notify_all`.  The call wakes every sleeper. -/
def NotifyAllToCome (cfg : BridgeConfig) (c : ConditionState) : Prop :=
  ∀ trace : (conditionNode cfg).Trace (fun _ _ => True) c,
    (∀ thread, trace.Fair (.node (.run thread))) ->
      ∃ n thread, trace.action n = .node (.run thread) ∧
        ((trace.state n).node.pc thread).atNotifyAll = true ∧ (trace.state (n + 1)).waiting = ∅

/-- The own step of an awake thread is a section of the node. -/
theorem own_step (cfg : BridgeConfig) (awake : thread ∉ c.waiting)
    (silent : (c.node.pc thread).atNotifyOne = false) :
    conditionStep cfg c (.node (.run thread)) =
      (nodeStep cfg c.node (.run thread)).map fun node =>
        ⟨node, if (c.node.pc thread).atNotifyAll then ∅ else c.waiting⟩ := by
  have runnable : c.runnable (.run thread) = true := by
    simp [ConditionState.runnable, awake, silent]
  rw [conditionStep, nodeAction, if_pos runnable]
  rfl

/-- Nobody else moves a thread that owes a `notify_all`. -/
theorem pc_owes {action : ConditionAction} (owes : (c.node.pc thread).owesNotifyAll = true)
    (other : action ≠ .node (.run thread)) (step : ConditionStep cfg c action d) :
    d.node.pc thread = c.node.pc thread := by
  have busy := Pc.ne_idle_of_owes owes
  have silent := (Pc.not_atWait_of_owes owes).2
  have not_starter : ∀ {starter : Thread}, (c.node.pc starter).atNotifyOne = true ->
      Action.run starter ≠ .run thread := by
    rintro starter at_notify own
    cases own
    rw [silent] at at_notify
    cases at_notify
  cases step with
  | moved _ _ step => exact (nodeStep_cases step).pc_busy busy fun own => other (congrArg _ own)
  | notifiedAll _ step => exact (nodeStep_cases step).pc_busy busy fun own => other (congrArg _ own)
  | notifiedNobody _ at_notify step =>
      exact (nodeStep_cases step).pc_busy busy (not_starter at_notify)
  | notifiedOne _ at_notify step =>
      exact (nodeStep_cases step).pc_busy busy (not_starter at_notify)
  | slept => rfl
  | woke => rfl

end ConditionState

section Owed

variable {cfg : BridgeConfig} {c : ConditionState} {thread : Thread}
  {trace : (conditionNode cfg).Trace (fun _ _ => True) c}

theorem Wakeable.awake (wakeable : Wakeable c) (owes : (c.node.pc thread).owesNotifyAll = true) :
    thread ∉ c.waiting := by
  intro asleep
  have atWait := wakeable.atWait thread asleep
  rw [(Pc.not_atWait_of_owes owes).1] at atWait
  cases atWait

/-- The own step of a thread that owes a `notify_all` is always enabled. -/
theorem Wakeable.enabled (wakeable : Wakeable c)
    (owes : (c.node.pc thread).owesNotifyAll = true) :
    (conditionNode cfg).step c (.node (.run thread)) ≠ none := by
  have own := ConditionState.own_step cfg (wakeable.awake owes)
    (Pc.not_atWait_of_owes owes).2
  show conditionStep cfg c (.node (.run thread)) ≠ none
  rw [own, ne_eq, Option.map_eq_none_iff]
  exact NodeState.section_of_owes owes

/-- The own step of such a thread is a step of the node. -/
theorem Wakeable.own_moves (wakeable : Wakeable c) {d : ConditionState}
    (owes : (c.node.pc thread).owesNotifyAll = true)
    (stepped : (conditionNode cfg).step c (.node (.run thread)) = some d) :
    nodeStep cfg c.node (.run thread) = some d.node := by
  have own := ConditionState.own_step cfg (wakeable.awake owes)
    (Pc.not_atWait_of_owes owes).2
  rcases Option.map_eq_some_iff.mp (own.symm.trans stepped) with ⟨node, moved, rfl⟩
  exact moved

theorem Wakeable.along (run : (conditionNode cfg).Reachable c) (n : ℕ) :
    Wakeable (trace.state n) := by
  rcases run with ⟨origin, initial, path⟩
  exact Wakeable.of_reachable ⟨origin, initial, path.trans (trace.path n)⟩

/-- At an own step a thread that replays calls `notify_all`, or has one section less
to go afterwards. -/
theorem replays_own_step (run : (conditionNode cfg).Reachable c) {n : ℕ}
    (replays : ((trace.state n).node.pc thread).replays = true)
    (own : trace.action n = .node (.run thread)) :
    (((trace.state (n + 1)).node.pc thread).replays = true ∧
      ((trace.state (n + 1)).node.pc thread).sectionsLeft <
        ((trace.state n).node.pc thread).sectionsLeft) ∨
    ((trace.state n).node.pc thread).atNotifyAll = true := by
  by_cases notifies : ((trace.state n).node.pc thread).atNotifyAll = true
  · exact .inr notifies
  · have stepped := trace.steps n
    rw [own] at stepped
    have moved := (Wakeable.along run n).own_moves (Pc.owes_of_replays replays) stepped
    exact .inl (NodeState.replays_run replays (Bool.eq_false_iff.mpr notifies) moved)

/-- A thread that replays calls `notify_all`: each own step leaves one section less. -/
theorem notifies_of_replays (run : (conditionNode cfg).Reachable c)
    (fair : trace.Fair (.node (.run thread))) {start : ℕ}
    (begins : ((trace.state start).node.pc thread).replays = true) :
    ∃ n, start ≤ n ∧ trace.action n = .node (.run thread) ∧
      ((trace.state n).node.pc thread).atNotifyAll = true := by
  refine Machine.Trace.leads_to_of_rank
    (P := fun n => ((trace.state n).node.pc thread).replays = true) fair
    (fun n => ((trace.state n).node.pc thread).sectionsLeft) ?_ ?_ ?_ begins
  · intro n replays
    exact (Wakeable.along run n).enabled (Pc.owes_of_replays replays)
  · intro n replays
    by_cases own : trace.action n = .node (.run thread)
    · rcases replays_own_step run replays own with after | notifies
      · exact .inl ⟨after.1, after.2.le⟩
      · exact .inr ⟨own, notifies⟩
    · have same := ConditionState.pc_owes (Pc.owes_of_replays replays) own
        (conditionStep_cases (trace.steps n))
      rw [same]
      exact .inl ⟨replays, le_rfl⟩
  · intro n replays own
    exact (replays_own_step run replays own).imp_right fun notifies => ⟨own, notifies⟩

/-- A thread that is about to swap its buffers comes to replay them. -/
theorem replays_of_flushing (run : (conditionNode cfg).Reachable c)
    (fair : trace.Fair (.node (.run thread))) {resume : Resume thread}
    (begins : c.node.pc thread = .flushing resume .swap) :
    ∃ n, ((trace.state n).node.pc thread).replays = true := by
  have swaps : ∀ n, (trace.state n).node.pc thread = .flushing resume .swap ->
      trace.action n = .node (.run thread) ->
      ((trace.state (n + 1)).node.pc thread).replays = true := by
    intro n at_swap own
    have stepped := trace.steps n
    rw [own] at stepped
    have owes : ((trace.state n).node.pc thread).owesNotifyAll = true := by rw [at_swap]; rfl
    exact NodeState.replays_of_swap at_swap ((Wakeable.along run n).own_moves owes stepped)
  have reaches : ∃ n, 0 ≤ n ∧ ((trace.state (n + 1)).node.pc thread).replays = true := by
    refine Machine.Trace.leads_to
      (P := fun n => (trace.state n).node.pc thread = .flushing resume .swap) fair
      ?_ ?_ swaps (trace.begins.symm ▸ begins)
    · intro n at_swap
      exact (Wakeable.along run n).enabled (by rw [at_swap]; rfl)
    · intro n at_swap
      by_cases own : trace.action n = .node (.run thread)
      · exact .inr (swaps n at_swap own)
      · have owes : ((trace.state n).node.pc thread).owesNotifyAll = true := by rw [at_swap]; rfl
        have same := ConditionState.pc_owes owes own (conditionStep_cases (trace.steps n))
        exact .inl (same.trans at_swap)
  rcases reaches with ⟨n, _, replays⟩
  exact ⟨n + 1, replays⟩

/-- A `notify_all` that is owed comes. -/
theorem notifyAll_of_owes (run : (conditionNode cfg).Reachable c)
    (owes : c.node.OwesNotifyAll) : c.NotifyAllToCome cfg := by
  rcases owes with ⟨thread, owed⟩
  intro trace fair
  have begins : ∃ start, ((trace.state start).node.pc thread).replays = true := by
    rcases Pc.replays_or_swap owed with replays | ⟨resume, at_swap⟩
    · exact ⟨0, by rw [trace.begins]; exact replays⟩
    · exact replays_of_flushing run (fair thread) at_swap
  rcases begins with ⟨start, replays⟩
  rcases notifies_of_replays run (fair thread) replays with ⟨n, _, own, notifies⟩
  refine ⟨n, thread, own, notifies, ?_⟩
  have step := conditionStep_cases (trace.steps n)
  rw [own] at step
  generalize trace.state (n + 1) = after at step
  cases step with
  | moved _ quiet => rw [ConditionState.notifiesAll, notifies] at quiet; cases quiet
  | notifiedAll => rfl

end Owed

/-- The shared condition variable strands nobody, in any interleaving of starts,
windows, recoveries, spurious wake-ups and the stop of the fault control. -/
theorem condition_strands_nobody {cfg : BridgeConfig} {c : ConditionState}
    (run : (conditionNode cfg).Reachable c) :
    (c.node.nodeFaultRecovering = true ->
      ∃ thread, (c.node.phases thread).isSome = true) ∧
    (∀ thread, (c.node.phases thread).isSome = true ->
      thread ∉ c.waiting ∧ c.node.mustWait thread = false) ∧
    (∀ thread job, thread ∈ c.waiting -> c.node.pc thread = .check job ->
      c.node.nodeFaultRecovering = false -> c.NotifyAllToCome cfg) ∧
    (c.node.nodeFaultActive = true -> .monitor ∈ c.waiting -> c.node.pc .monitor = .waitFault ->
      (∃ starter, (c.node.pc starter).atNotifyOne = true ∧ c.waiting = {.monitor}) ∨
        c.NotifyAllToCome cfg) := by
  have wakeable := Wakeable.of_reachable run
  refine ⟨wakeable.flushes, ?_, ?_, ?_⟩
  · intro thread flushing
    cases at_pc : c.node.pc thread with
    | flushing resume phase =>
        refine ⟨wakeable.awake (by rw [at_pc]; rfl), ?_⟩
        simp only [NodeState.mustWait, at_pc]
    | _ => rw [NodeState.phases, at_pc] at flushing; cases flushing
  · intro thread job asleep at_check _
    have other : thread ≠ .monitor := by
      rintro rfl
      cases job
    exact notifyAll_of_owes run (wakeable.dispatchers thread asleep other)
  · intro active asleep at_wait
    by_cases alone : c.waiting = {.monitor}
    · rcases wakeable.monitor active asleep at_wait with owes | ⟨starter, at_notify⟩
      · exact .inr (notifyAll_of_owes run owes)
      · exact .inl ⟨starter, at_notify, alone⟩
    · -- whoever else sleeps is owed a `notify_all`
      have another : ∃ thread ∈ c.waiting, thread ≠ .monitor := by
        by_contra none
        push Not at none
        exact alone (Finset.eq_singleton_iff_unique_mem.mpr ⟨asleep, none⟩)
      rcases another with ⟨thread, sleeps, other⟩
      exact .inr (notifyAll_of_owes run (wakeable.dispatchers thread sleeps other))

/-- Two receive topics, and a startup fault that is due when a remote one ends. -/
def crowdedConfig : BridgeConfig where
  sendTopics := []
  recvTopics := [⟨0, .drop⟩, ⟨0, .drop⟩]
  nodeFault := some (1, 5)
  durationCast := id
  undefinedSize := fun _ => 0

/-- The startup fault begins in a recovery, and its `notify_one` wakes a dispatching
thread instead of the monitor. -/
def crowdedSchedule : List ConditionAction :=
  [.node (.run .monitor), .wait .monitor, .node (.request 1), .node (.run .control),
    .notifyOne .control (some .monitor), .node (.run .monitor), .wait .monitor,
    .node (.advance 1), .node (.arrive (.recv 0) ⟨1, [0]⟩), .node (.run (.recv 0)),
    .wake .monitor, .node (.run .monitor), .wait .monitor,
    .node (.arrive (.recv 1) ⟨1, [1]⟩), .node (.run (.recv 1)), .wait (.recv 1),
    .node (.run .startup), .notifyOne .startup (some (.recv 1))]

/-- A monitor that sleeps through the start of a fault is woken by the `notify_all`
of the recovery that was on. -/
theorem condition_strands_nobody_crowded :
    ∃ c, (conditionNode crowdedConfig).Reachable c ∧ c.node.nodeFaultActive = true ∧
      .monitor ∈ c.waiting ∧ c.NotifyAllToCome crowdedConfig := by
  have executed : ((conditionNode crowdedConfig).exec (fun _ _ => True)
      ⟨NodeState.initial crowdedConfig 0, ∅⟩ crowdedSchedule).map
      (fun c => (c.node.nodeFaultActive, c.waiting, c.node.pc .monitor,
        (c.node.pc .control).atNotifyOne, (c.node.pc .startup).atNotifyOne)) =
      some (true, {.monitor}, .waitFault, false, false) := by
    decide +kernel
  have started : (conditionNode crowdedConfig).init ⟨NodeState.initial crowdedConfig 0, ∅⟩ :=
    ⟨⟨0, rfl⟩, rfl⟩
  rcases Machine.exists_reaches_of_exec _ started executed with ⟨c, reached, observed⟩
  simp only [Prod.mk.injEq] at observed
  rcases observed with ⟨active, waiting, at_wait, control, startup⟩
  have asleep : .monitor ∈ c.waiting := by simp [waiting]
  refine ⟨c, reached, active, asleep, ?_⟩
  rcases (condition_strands_nobody reached).2.2.2 active asleep at_wait with
    ⟨starter, at_notify, _⟩ | owed
  · rcases Pc.starter_of_atNotifyOne at_notify with rfl | rfl
    · rw [control] at at_notify; cases at_notify
    · rw [startup] at at_notify; cases at_notify
  · exact owed

end SwarmBridge
