import SwarmBridge.Recovery.Exclusive

namespace SwarmBridge

open Foundation

/-!
# What the fault buffers hold

While a window is open, and from its end until the swap of the flush that ended
it, every fault buffer holds what the policy of its channel keeps of the messages
taken in the window.  At all other times the fault buffers are empty.  This needs
that no fault is started between the end of a window and the swap of its buffers,
which is less than the busy check of `handle_control_request` guarantees: a start
during a replay is harmless here.
-/

/-- A start finds no flush between the end of a window and the swap of its buffers. -/
def StartsAfterSwap (s : NodeState) (action : Action) : Prop :=
  startsFault s action = true -> ∀ thread, s.phases thread ≠ some .swap

/-- A start finds no window open and no flush before its swap. -/
def StartsClean (s : NodeState) (action : Action) : Prop :=
  startsFault s action = true ->
    s.nodeFaultActive = false ∧ ∀ thread, s.phases thread ≠ some .swap

/-- In the step from `s` to `t` the fault policy of the channel takes `kept` while it
holds `discarded`. -/
structure Supersedes (channel : Channel) (s t : NodeState) (discarded kept : Message) : Prop where
  cached : discarded ∈ s.faultBuffers channel
  taken : t.log = s.log ++ [s.stamp (.taken channel kept)]

theorem StartsClean.afterSwap {s : NodeState} {action : Action} (clean : StartsClean s action) :
    StartsAfterSwap s action :=
  fun starts => (clean starts).2

/-- An idle node has no window open and no flush running. -/
theorem StartsWhenIdle.clean {s : NodeState} {action : Action} (idle : StartsWhenIdle s action)
    (recovery : s.SoleRecovery) : StartsClean s action := by
  intro starts
  have calm := idle starts
  simp only [NodeState.isNodeFaultBusy, Bool.or_eq_false_iff] at calm
  refine ⟨calm.1, fun thread holds => ?_⟩
  rw [recovery.phases_eq_none calm.2 thread] at holds
  cases holds

namespace NodeState

variable {cfg : BridgeConfig} {s t : NodeState} {action : Action}

/-- A window is open, or it has ended and its buffers are still to be swapped out. -/
def HoldsWindow (s : NodeState) : Prop :=
  s.nodeFaultActive = true ∨ ∃ thread, s.phases thread = some .swap

theorem not_holdsWindow_iff :
    ¬ s.HoldsWindow ↔ s.nodeFaultActive = false ∧ ∀ thread, s.phases thread ≠ some .swap := by
  simp [HoldsWindow]

/-- The fault buffers hold what the policies keep of the latest window. -/
structure Cached (cfg : BridgeConfig) (s : NodeState) : Prop where
  closed : ∀ thread, s.phases thread = some .swap -> s.nodeFaultActive = false
  sole : ∀ first second, s.phases first = some .swap -> s.phases second = some .swap ->
    first = second
  kept : s.HoldsWindow -> ∀ channel, s.faultBuffers channel =
    (cfg.policy channel).keep ((s.view channel).takenIn s.windows)
  empty : ¬ s.HoldsWindow -> ∀ channel, s.faultBuffers channel = []
  fresh : ∀ channel window, s.windows < window -> (s.view channel).takenIn window = []

namespace Cached

theorem initial (now : ℚ) : (NodeState.initial cfg now).Cached cfg where
  closed := fun thread holds => by simp at holds
  sole := fun first second holds => by simp at holds
  kept := by
    rintro (active | ⟨thread, holds⟩)
    · cases active
    · simp at holds
  empty := fun _ _ => rfl
  fresh := fun _ _ _ => rfl

theorem not_swapping (cached : s.Cached cfg) (active : s.nodeFaultActive = true)
    (thread : Thread) : s.phases thread ≠ some .swap := by
  intro holds
  rw [cached.closed thread holds] at active
  cases active

/-- A step that touches neither the buffers nor the window nor the log of taken
messages, and leaves the threads before their swap where they are. -/
theorem congr (cached : s.Cached cfg)
    (swaps : ∀ thread, t.phases thread = some .swap ↔ s.phases thread = some .swap)
    (active : t.nodeFaultActive = s.nodeFaultActive) (buffers : t.faultBuffers = s.faultBuffers)
    (windows : t.windows = s.windows) (taken : t.TakesAs s) : t.Cached cfg := by
  have window : t.HoldsWindow ↔ s.HoldsWindow := by simp only [HoldsWindow, active, swaps]
  refine ⟨?_, ?_, ?_, ?_, ?_⟩
  · exact fun thread holds => active ▸ cached.closed thread ((swaps thread).mp holds)
  · exact fun first second holds holds' =>
      cached.sole first second ((swaps first).mp holds) ((swaps second).mp holds')
  · intro held channel
    rw [buffers, windows, taken channel s.windows]
    exact cached.kept (window.mp held) channel
  · intro free channel
    rw [buffers]
    exact cached.empty (fun held => free (window.mpr held)) channel
  · intro channel later above
    rw [taken channel later]
    exact cached.fresh channel later (windows ▸ above)

/-- A thread whose phase is not the swap, before or after, changes no swap. -/
theorem swaps_update {thread : Thread} {phase : Option FlushPhase}
    (phases : t.phases = Function.update s.phases thread phase)
    (before : s.phases thread ≠ some .swap) (after : phase ≠ some .swap) (other : Thread) :
    t.phases other = some .swap ↔ s.phases other = some .swap := by
  rw [phases]
  by_cases same : other = thread
  · subst same
    rw [Function.update_self]
    exact iff_of_false after before
  · rw [Function.update_of_ne same]

theorem step (cached : s.Cached cfg) (after : StartsAfterSwap s action)
    (step : FaultStep cfg s action t) : t.Cached cfg := by
  cases step with
  | still _ phases _ active _ buffers windows _ taken =>
      exact cached.congr (fun _ => by rw [phases]) active buffers windows taken
  | @took _ target message settled open_ inside phases _ active _ buffers windows _ log =>
      have none_swaps : ∀ thread, t.phases thread ≠ some .swap :=
        phases ▸ cached.not_swapping open_
      refine ⟨fun thread holds => absurd holds (none_swaps thread),
        fun first _ holds => absurd holds (none_swaps first), ?_, ?_, ?_⟩
      · intro _ channel
        rw [buffers, windows, takenIn_of_taken log channel s.windows]
        by_cases same : target = channel
        · subst same
          simp only [Function.update_self, and_self, if_true]
          rw [SimCommFaultPolicy.keep_concat, ← cached.kept (.inl open_)]
        · simp only [Function.update_of_ne (Ne.symm same), same, false_and, if_false,
            List.append_nil]
          exact cached.kept (.inl open_) channel
      · exact fun free => absurd (.inl active) free
      · intro channel later above
        have different : s.windows ≠ later := by omega
        rw [takenIn_of_taken log channel later, cached.fresh channel later (windows ▸ above)]
        simp [different]
  | opened starts phases _ active buffers windows _ taken =>
      have none_swaps : ∀ thread, t.phases thread ≠ some .swap := phases ▸ after starts
      refine ⟨fun thread holds => absurd holds (none_swaps thread),
        fun first _ holds => absurd holds (none_swaps first), ?_, ?_, ?_⟩
      · intro _ channel
        rw [buffers, windows, taken channel, cached.fresh channel _ (by omega)]
        exact (SimCommFaultPolicy.keep_nil _).symm
      · exact fun free => absurd (.inl active) free
      · intro channel later above
        rw [taken channel later]
        exact cached.fresh channel later (by omega)
  | @began _ thread _ _ free open_ expired phases _ active _ buffers windows _ taken =>
      have only : ∀ other, t.phases other = some .swap -> other = thread := by
        intro other holds
        by_contra different
        rw [phases, Function.update_of_ne different] at holds
        exact cached.not_swapping open_ other holds
      refine ⟨fun _ _ => active, fun first second holds holds' =>
        (only first holds).trans (only second holds').symm, ?_, ?_, ?_⟩
      · intro _ channel
        rw [buffers, windows, taken channel]
        exact cached.kept (.inl open_) channel
      · refine fun unheld => absurd (.inr ⟨thread, ?_⟩) unheld
        rw [phases, Function.update_self]
      · intro channel later above
        rw [taken channel later]
        exact cached.fresh channel later (windows ▸ above)
  | @swapped _ thread _ holds phases _ active _ buffers windows _ taken =>
      have none_swaps : ∀ other, t.phases other ≠ some .swap := by
        intro other holds'
        rw [phases] at holds'
        by_cases same : other = thread
        · subst same
          rw [Function.update_self] at holds'
          cases holds'
        · rw [Function.update_of_ne same] at holds'
          exact same (cached.sole other thread holds' holds)
      refine ⟨fun other holds' => absurd holds' (none_swaps other),
        fun first _ holds' => absurd holds' (none_swaps first), ?_, ?_, ?_⟩
      · rintro (open_ | ⟨other, holds'⟩)
        · rw [active, cached.closed thread holds] at open_
          cases open_
        · exact absurd holds' (none_swaps other)
      · exact fun _ channel => by rw [buffers]
      · intro channel later above
        rw [taken channel later]
        exact cached.fresh channel later (windows ▸ above)
  | replayed _ _ holds phases _ active _ buffers windows _ taken =>
      exact cached.congr (swaps_update phases (by rw [holds]; simp) (by simp)) active buffers
        windows taken
  | ended _ _ holds phases _ active _ buffers windows _ taken =>
      exact cached.congr (swaps_update phases (by rw [holds]; simp) (by simp)) active buffers
        windows taken

theorem of_reaches {allow : NodeState -> Action -> Prop}
    (run : (bridgeNode cfg).Reaches allow s) (running : s.nodeFaultThreadRunning = true)
    (after : ∀ s a, allow s a -> StartsAfterSwap s a) : s.Cached cfg :=
  invariant_of_running run running initial
    fun s a _ _ _ cached allowed notStop step =>
      cached.step (after s a allowed) (step.fault notStop)

end Cached

/-- What holds in every state of a run whose faults are started on an idle node. -/
structure Orderly (cfg : BridgeConfig) (s : NodeState) : Prop where
  exclusive : s.Exclusive
  cached : s.Cached cfg

namespace Orderly

theorem of_reaches {allow : NodeState -> Action -> Prop}
    (run : (bridgeNode cfg).Reaches allow s) (running : s.nodeFaultThreadRunning = true)
    (idle : ∀ s a, allow s a -> StartsWhenIdle s a) : s.Orderly cfg := by
  refine invariant_of_running run running
    (fun now => ⟨Exclusive.initial now, Cached.initial now⟩) ?_
  intro s a t _ _ orderly allowed notStop step
  have idle := idle s a allowed
  exact ⟨orderly.exclusive.step idle.outsideRecovery (step.fault notStop),
    orderly.cached.step (StartsWhenIdle.clean idle orderly.exclusive.toSoleRecovery).afterSwap
      (step.fault notStop)⟩

/-- A node without an open window and without a recovery has empty fault buffers. -/
theorem empty (orderly : s.Orderly cfg) (inactive : s.nodeFaultActive = false)
    (settled : s.nodeFaultRecovering = false) (channel : Channel) :
    s.faultBuffers channel = [] := by
  refine orderly.cached.empty ?_ channel
  rintro (active | ⟨thread, holds⟩)
  · rw [inactive] at active
    cases active
  · rw [orderly.exclusive.phases_eq_none settled thread] at holds
    cases holds

end Orderly

end NodeState

/-- In a run whose faults are started on an idle node every start is clean. -/
theorem clean_of_reaches {cfg : BridgeConfig} {allow : NodeState -> Action -> Prop}
    {s : NodeState} (run : (bridgeNode cfg).Reaches allow s)
    (running : s.nodeFaultThreadRunning = true) (idle : ∀ s a, allow s a -> StartsWhenIdle s a)
    {action : Action} (allowed : allow s action) : StartsClean s action := by
  have exclusive : s.Exclusive :=
    NodeState.Exclusive.of_reaches run running fun s a allowed => (idle s a allowed).outsideRecovery
  exact (idle s action allowed).clean exclusive.toSoleRecovery

theorem reaches_clean {cfg : BridgeConfig} {s : NodeState}
    (run : (bridgeNode cfg).Reaches StartsWhenIdle s) (running : s.nodeFaultThreadRunning = true) :
    (bridgeNode cfg).Reaches StartsClean s :=
  NodeState.strengthen_of_running run running fun _ _ reached before allowed =>
    clean_of_reaches reached before (fun _ _ idle => idle) allowed

end SwarmBridge
