import SwarmBridge.SimComm.Runs

namespace SwarmBridge

open Foundation

/-!
# At most one recovery at a time

`node_fault_recovering` is one Boolean, set and cleared by whichever thread finds
a window expired.  It stands for "a flush is running" as long as no window is
found expired while it is set: then it is true exactly during the one flush
section that is running, and no check lets a message pass meanwhile.  The busy
check of `handle_control_request` guarantees more, namely that no fault is even
started during a recovery; `schedule_node_fault` starts its fault without that
check, and a short window may then expire before the recovery has ended.
-/

namespace NodeState

/-- The check section that `action` is about to run lets its message pass: this is
the false branch of `consume_send_message_if_fault_active` and the fall-through
of the checks of the two dispatch functions. -/
def passesCheck (s : NodeState) : Action -> Bool
  | .run thread =>
      match s.pc thread with
      | .check _ => !s.nodeFaultRecovering && !s.isNodeFaultActiveLocked
      | _ => false
  | _ => false

/-- Recovery is exclusive in this state: one thread at most is in a flush section,
the flag is set while one is, and a message passes a check only when no batch is
being flushed or replayed. -/
structure RecoveryExclusive (s : NodeState) : Prop where
  sole : ∀ first second, (s.phases first).isSome = true -> (s.phases second).isSome = true ->
    first = second
  flagged : ∀ thread, (s.phases thread).isSome = true -> s.nodeFaultRecovering = true
  no_pass : ∀ action, s.passesCheck action = true -> ∀ thread, s.phases thread = none

/-- The inductive form: the flag says whether a flush is running. -/
structure SoleRecovery (s : NodeState) : Prop where
  sole : Sole s.phases
  flagged : s.nodeFaultRecovering = true ↔ ∃ thread, (s.phases thread).isSome = true

end NodeState

/-- No window is found expired during a recovery. -/
def ExpiresOutsideRecovery (s : NodeState) (action : Action) : Prop :=
  beginsRecovery s action = true -> s.nodeFaultRecovering = false

instance (s : NodeState) (action : Action) : Decidable (ExpiresOutsideRecovery s action) :=
  inferInstanceAs (Decidable (_ -> _))

/-- No fault is started during a recovery. -/
def StartsOutsideRecovery (s : NodeState) (action : Action) : Prop :=
  startsFault s action = true -> s.nodeFaultRecovering = false

instance (s : NodeState) (action : Action) : Decidable (StartsOutsideRecovery s action) :=
  inferInstanceAs (Decidable (_ -> _))

theorem StartsWhenIdle.outsideRecovery {s : NodeState} {action : Action}
    (idle : StartsWhenIdle s action) : StartsOutsideRecovery s action := by
  intro starts
  have both := idle starts
  simp only [NodeState.isNodeFaultBusy, Bool.or_eq_false_iff] at both
  exact both.2

namespace NodeState

variable {cfg : BridgeConfig} {s t : NodeState} {action : Action}

/-! ## The flag counts the flushes -/

theorem SoleRecovery.initial (now : ℚ) : (NodeState.initial cfg now).SoleRecovery where
  sole := fun first second present => by simp at present
  flagged := iff_of_false Bool.noConfusion fun ⟨thread, present⟩ => by simp at present

/-- A settled node has no flush. -/
theorem SoleRecovery.phases_eq_none (recovery : s.SoleRecovery)
    (settled : s.nodeFaultRecovering = false) (thread : Thread) : s.phases thread = none := by
  by_contra present
  have recovering := recovery.flagged.mpr ⟨thread, Option.isSome_iff_ne_none.mpr present⟩
  rw [settled] at recovering
  cases recovering

/-- While a flush goes on, the thread that flushes and the flag stay the same. -/
theorem SoleRecovery.continue (recovery : s.SoleRecovery) {thread : Thread}
    {phase next : FlushPhase} (holds : s.phases thread = some phase)
    (phases : t.phases = Function.update s.phases thread (some next))
    (recovering : t.nodeFaultRecovering = s.nodeFaultRecovering) : t.SoleRecovery where
  sole := by
    rw [phases]
    exact sole_update _ (recovery.sole.others (by rw [holds]; rfl))
  flagged := by
    rw [recovering, phases]
    refine iff_of_true (recovery.flagged.mpr ⟨thread, by rw [holds]; rfl⟩) ⟨thread, ?_⟩
    rw [Function.update_self]
    rfl

theorem SoleRecovery.step (recovery : s.SoleRecovery) (outside : ExpiresOutsideRecovery s action)
    (step : FaultStep cfg s action t) : t.SoleRecovery := by
  cases step with
  | still starts phases recovering => exact ⟨phases ▸ recovery.sole, phases ▸ recovering ▸ recovery.flagged⟩
  | took starts settled open_ inside phases recovering =>
      exact ⟨phases ▸ recovery.sole, phases ▸ recovering ▸ settled ▸ recovery.flagged⟩
  | opened starts phases recovering =>
      exact ⟨phases ▸ recovery.sole, phases ▸ recovering ▸ recovery.flagged⟩
  | @began starts thread runs begins free open_ expired phases recovering =>
      refine ⟨?_, iff_of_true recovering ⟨thread, ?_⟩⟩
      · rw [phases]
        exact sole_update _ fun other _ => recovery.phases_eq_none (outside begins) other
      · rw [phases, Function.update_self]
        rfl
  | swapped starts runs holds phases recovering => exact recovery.continue holds phases recovering
  | replayed starts runs holds phases recovering => exact recovery.continue holds phases recovering
  | @ended starts thread runs done holds phases recovering =>
      have present : (s.phases thread).isSome = true := by rw [holds]; rfl
      have others := recovery.sole.others present
      refine ⟨?_, ?_⟩
      · rw [phases]
        exact sole_update _ others
      · rw [recovering, phases]
        refine iff_of_false Bool.noConfusion ?_
        rintro ⟨other, present⟩
        by_cases same : other = thread
        · subst same
          rw [Function.update_self] at present
          cases present
        · rw [Function.update_of_ne same, others other same] at present
          cases present

theorem SoleRecovery.recoveryExclusive (recovery : s.SoleRecovery) : s.RecoveryExclusive where
  sole := recovery.sole
  flagged := fun thread present => recovery.flagged.mpr ⟨thread, present⟩
  no_pass := by
    intro action passes thread
    refine recovery.phases_eq_none ?_ thread
    cases action with
    | run runner =>
        simp only [passesCheck] at passes
        split at passes
        case h_1 job at_check => exact Bool.not_eq_true' _ ▸ ((Bool.and_eq_true _ _).mp passes).1
        case h_2 => cases passes
    | _ => cases passes

theorem SoleRecovery.of_reaches {allow : NodeState -> Action -> Prop}
    (run : (bridgeNode cfg).Reaches allow s) (running : s.nodeFaultThreadRunning = true)
    (outside : ∀ s a, allow s a -> ExpiresOutsideRecovery s a) : s.SoleRecovery :=
  invariant_of_running run running SoleRecovery.initial
    fun s a _ _ _ recovery allowed notStop step =>
      recovery.step (outside s a allowed) (step.fault notStop)

/-- A window found expired during a recovery puts a second thread into a flush. -/
theorem SoleRecovery.second_flush (recovery : s.SoleRecovery)
    (running : s.nodeFaultThreadRunning = true) (stepped : nodeStep cfg s action = some t)
    (inside : ¬ ExpiresOutsideRecovery s action) : ¬ t.RecoveryExclusive := by
  simp only [ExpiresOutsideRecovery, Classical.not_imp, Bool.not_eq_false] at inside
  rcases inside with ⟨begins, recovering⟩
  rcases recovery.flagged.mp recovering with ⟨holder, present⟩
  have entered : ∃ thread resume, s.phases thread = none ∧ t = s.beginRecovery thread resume := by
    cases action with
    | run thread =>
        simp only [beginsRecovery, Bool.and_eq_true] at begins
        rcases begins with ⟨expired, at_pc⟩
        simp only [nodeStep] at stepped
        split at at_pc
        case h_1 job at_entry =>
          rw [at_entry] at stepped
          simp only [section?, flushExpiredFaultIfNeeded, if_pos expired, Option.some.injEq] at stepped
          exact ⟨_, .job job, by rw [phases, at_entry]; rfl, stepped.symm⟩
        case h_2 at_wait =>
          rw [at_wait] at stepped
          simp only [section?, running, Bool.not_true, Bool.false_eq_true, if_false,
            (faultExpired_eq_true_iff.mp expired).2, if_true, if_pos expired,
            Option.some.injEq] at stepped
          exact ⟨_, .loop, by rw [phases, at_wait]; rfl, stepped.symm⟩
        case h_3 => cases at_pc
    | _ => cases begins
  rcases entered with ⟨thread, resume, free, rfl⟩
  have different : holder ≠ thread := by
    rintro rfl
    rw [free] at present
    cases present
  have after : (s.beginRecovery thread resume).phases =
      Function.update s.phases thread (some .swap) := phases_move _ _ _
  intro exclusive
  refine different (exclusive.sole holder thread ?_ ?_)
  · rwa [after, Function.update_of_ne different]
  · rw [after, Function.update_self]
    rfl

/-! ## Runs without a start during a recovery -/

/-- The stronger form that holds when no fault is started during a recovery: a
recovering node has no window open at all. -/
structure Exclusive (s : NodeState) : Prop extends SoleRecovery s where
  closed : s.nodeFaultRecovering = true -> s.nodeFaultActive = false

theorem Exclusive.initial (now : ℚ) : (NodeState.initial cfg now).Exclusive where
  toSoleRecovery := SoleRecovery.initial now
  closed := fun recovering => by cases recovering

/-- An open window excludes a flush. -/
theorem Exclusive.settled_of_active (exclusive : s.Exclusive)
    (active : s.nodeFaultActive = true) : s.nodeFaultRecovering = false := by
  by_contra recovering
  rw [exclusive.closed (Bool.not_eq_false _ ▸ recovering)] at active
  cases active

theorem Exclusive.closed_of_phase (exclusive : s.Exclusive) {thread : Thread} {phase : FlushPhase}
    (holds : s.phases thread = some phase) : s.nodeFaultActive = false :=
  exclusive.closed (exclusive.flagged.mpr ⟨thread, by rw [holds]; rfl⟩)

theorem beginsRecovery_active (begins : beginsRecovery s action = true) :
    s.nodeFaultActive = true := by
  cases action with
  | run thread => exact (faultExpired_eq_true_iff.mp ((Bool.and_eq_true _ _).mp begins).1).1
  | _ => cases begins

theorem Exclusive.expiresOutside (exclusive : s.Exclusive) (action : Action) :
    ExpiresOutsideRecovery s action :=
  fun begins => exclusive.settled_of_active (beginsRecovery_active begins)

theorem Exclusive.step (exclusive : s.Exclusive) (outside : StartsOutsideRecovery s action)
    (step : FaultStep cfg s action t) : t.Exclusive := by
  refine ⟨exclusive.toSoleRecovery.step (exclusive.expiresOutside action) step, fun set => ?_⟩
  cases step with
  | still _ _ recovering active => exact active ▸ exclusive.closed (recovering ▸ set)
  | took _ _ _ _ _ recovering => rw [recovering] at set; cases set
  | opened starts _ recovering => rw [recovering, outside starts] at set; cases set
  | began _ _ _ _ _ _ _ _ active => exact active
  | swapped _ _ _ _ recovering active => exact active ▸ exclusive.closed (recovering ▸ set)
  | replayed _ _ _ _ recovering active => exact active ▸ exclusive.closed (recovering ▸ set)
  | ended _ _ _ _ recovering => rw [recovering] at set; cases set

theorem Exclusive.of_reaches {allow : NodeState -> Action -> Prop}
    (run : (bridgeNode cfg).Reaches allow s) (running : s.nodeFaultThreadRunning = true)
    (outside : ∀ s a, allow s a -> StartsOutsideRecovery s a) : s.Exclusive :=
  invariant_of_running run running Exclusive.initial
    fun s a _ _ _ exclusive allowed notStop step =>
      exclusive.step (outside s a allowed) (step.fault notStop)

end NodeState

/-- Recovery is exclusive in every state of every run in which no window is found
expired during a recovery, and the first step that violates this condition leads
to a state in which it is not. -/
theorem recovery_exclusive (cfg : BridgeConfig) (s : NodeState)
    (run : (bridgeNode cfg).Reaches ExpiresOutsideRecovery s)
    (running : s.nodeFaultThreadRunning = true) :
    s.RecoveryExclusive ∧ ∀ action t, nodeStep cfg s action = some t ->
      ¬ ExpiresOutsideRecovery s action -> ¬ t.RecoveryExclusive := by
  have recovery := NodeState.SoleRecovery.of_reaches run running fun _ _ outside => outside
  exact ⟨recovery.recoveryExclusive, fun _ _ stepped inside =>
    recovery.second_flush running stepped inside⟩

/-- A run without a start during a recovery meets the condition, in particular
every run whose faults are all started through `handle_control_request`. -/
theorem reaches_expiresOutside {cfg : BridgeConfig} {s : NodeState}
    (run : (bridgeNode cfg).Reaches StartsOutsideRecovery s)
    (running : s.nodeFaultThreadRunning = true) :
    (bridgeNode cfg).Reaches ExpiresOutsideRecovery s :=
  NodeState.strengthen_of_running run running fun _ action reached before _ =>
    (NodeState.Exclusive.of_reaches reached before fun _ _ outside => outside).expiresOutside action

/-! ## The startup schedule overlaps a recovery -/

/-- One unlimited topic with policy buffer, and a startup fault one second after
the start that lasts for one second. -/
def overlapConfig : BridgeConfig where
  sendTopics := [⟨0, .buffer⟩]
  recvTopics := []
  nodeFault := some (1, 1)
  durationCast := id
  undefinedSize := fun _ => 0

/-- A remote fault of one second expires just before the startup thread wakes up.
The ROS thread enters the flush section, the startup thread opens a window all
the same, and the monitor finds that window expired before the flush has ended. -/
def overlapSchedule : List Action :=
  [.request 1, .run .control, .run .control, .advance 1,
    .arrive (.send 0) ⟨1, [0]⟩, .run .ros, .run .startup, .advance 2,
    .run .monitor, .run .monitor]

/-- Without the condition two threads can be in a flush section at once. -/
theorem recovery_not_exclusive :
    ¬ ∀ (cfg : BridgeConfig) (s : NodeState), (bridgeNode cfg).Reachable s ->
      s.nodeFaultThreadRunning = true -> s.RecoveryExclusive := by
  intro claim
  have executed : ((bridgeNode overlapConfig).exec (fun _ _ => True)
      (NodeState.initial overlapConfig 0) overlapSchedule).map
      (fun s => (s.nodeFaultThreadRunning, (s.phases .ros).isSome, (s.phases .monitor).isSome)) =
      some (true, true, true) := by decide +kernel
  rcases NodeState.exists_of_schedule executed with ⟨s, reached, observed⟩
  simp only [Prod.mk.injEq] at observed
  have exclusive := claim overlapConfig s reached observed.1
  cases exclusive.sole .ros .monitor observed.2.1 observed.2.2

/-- The condition is met by the first half of that schedule, in which a recovery
is running. -/
theorem recovery_exclusive_during_flush :
    ∃ s : NodeState, (s.phases .ros).isSome = true ∧ s.RecoveryExclusive := by
  have executed : ((bridgeNode overlapConfig).exec ExpiresOutsideRecovery
      (NodeState.initial overlapConfig 0) (overlapSchedule.take 6)).map
      (fun s => (s.nodeFaultThreadRunning, (s.phases .ros).isSome)) = some (true, true) := by
    decide +kernel
  rcases NodeState.exists_of_schedule executed with ⟨s, reached, observed⟩
  simp only [Prod.mk.injEq] at observed
  exact ⟨s, observed.2, (recovery_exclusive overlapConfig s reached observed.1).1⟩

end SwarmBridge
