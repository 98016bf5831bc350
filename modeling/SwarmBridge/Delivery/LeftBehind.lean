import SwarmBridge.Delivery.Conservation
import SwarmBridge.Recovery.Shutdown

namespace SwarmBridge

open Foundation

/-!
# What a shutdown leaves behind

`stop_node_fault_control` ends a window or a recovery at once and replays nothing.  A flush
that has begun goes on to its end, but what nobody takes out of the fault buffers stays in
them.  The places of the messages account for all of it: after the stop no policy takes a
message, so one that does not leave the node is in a fault buffer or in a bitrate queue, or
it was discarded before.
-/

namespace NodeState

variable {cfg : BridgeConfig} {channel : Channel} {s t u : NodeState} {action : Action}

namespace Halted

theorem of_path (halted : s.Halted) (path : (bridgeNode cfg).Path (fun _ _ => True) s t) :
    t.Halted :=
  path.invariant (P := Halted) halted fun _ _ _ before _ stepped => before.step stepped

end Halted

/-! ## Conservation, also after the stop -/

namespace Conserved

theorem halted_step (conserved : s.Conserved cfg channel) (valid : cfg.hasChannel channel = true)
    (known : Arrivals channel.reader s.arrivals (s.view channel)) (halted : s.Halted)
    (stepped : nodeStep cfg s action = some t) : t.Conserved cfg channel := by
  have step : NodeStep cfg s action t := nodeStep_cases stepped
  have starts := halted.starts_eq_false action
  have windows := ((step.fault (halted.notStop stepped)).window_kept starts).2
  apply conserved.of_handsOn known (by rw [contents, windows])
  · intro active
    rw [(halted.step stepped).inactive] at active
    cases active
  · apply contents_step_of conserved.opened _ _ (step.onChannel valid)
    · intro active
      rw [halted.inactive] at active
      cases active
    · intro starts'
      rw [starts] at starts'
      cases starts'

/-- Every run conserves the messages when its faults are started on an idle node. -/
theorem throughout (valid : cfg.hasChannel channel = true)
    (run : (bridgeNode cfg).Reaches StartsWhenIdle s) : s.Conserved cfg channel := by
  apply run.invariant (P := fun s => s.Conserved cfg channel)
  · rintro s ⟨now, rfl⟩
    exact .initial now
  · intro s action t reached conserved idle stepped
    have step : NodeStep cfg s action t := nodeStep_cases stepped
    have known := arrivals_of_reaches valid reached
    cases running : s.nodeFaultThreadRunning with
    | true =>
        have orderly := Orderly.of_reaches reached running fun _ _ idle => idle
        by_cases isStop : action = .stop
        · have handsOn := contents_step orderly conserved.opened idle (step.onChannel valid)
          subst isStop
          cases step
          exact conserved.of_handsOn known rfl (fun active => by cases active) handsOn
        · exact conserved.step valid orderly known idle isStop step
    | false => exact conserved.halted_step valid known (.of_reachable reached.reachable running) stepped

/-- When no thread has a message in its hand or a batch to replay, the messages of a topic with
policy buffer have left the node, or they are in its buffer or its queue, or evicted. -/
theorem accounted (conserved : s.Conserved cfg channel)
    (known : Arrivals channel.reader s.arrivals (s.view channel))
    (policy : cfg.policy channel = .buffer) (free : ∀ thread, (s.pc thread).job? = none)
    (outside : ∀ thread, s.phases thread = none) :
    ((s.view channel).delivered ++ s.faultBuffers channel ++ s.queue channel ++
      (s.view channel).evicted).Perm (s.view channel).arrived := by
  have distinct : (s.view channel).arrived.Nodup :=
    known.increasing.imp fun earlier same => absurd (same ▸ earlier) (lt_irrefl _)
  apply List.perm_iff_count.mpr
  intro message
  have whole : ((s.view channel).delivered ++ s.faultBuffers channel ++ s.queue channel ++
      (s.view channel).evicted).count message =
      (s.contents cfg channel .delivered).count message +
        (s.contents cfg channel .buffer).count message +
        (s.contents cfg channel .queue).count message +
        (s.contents cfg channel .evicted).count message := by
    simp only [List.count_append, contents, ChannelView.contents, Multiset.coe_count]
    rfl
  rw [whole]
  by_cases member : message ∈ (s.view channel).arrived
  · rcases conserved.once message member with ⟨place, counts⟩
    have here := counts place
    rw [counts, counts, counts, counts, List.count_eq_one_of_mem distinct member]
    cases place with
    | hand thread =>
        simp [contents, ChannelView.contents, holding_of_free (free thread)] at here
    | batch thread =>
        simp [contents, ChannelView.contents, pending_of_phases (outside thread)] at here
    | dropped | superseded => simp [contents, ChannelView.contents, policy] at here
    | _ => simp
  · have absent := conserved.known message member
    rw [absent, absent, absent, absent, List.count_eq_zero_of_not_mem member]

end Conserved

/-! ## The fault buffers after the stop -/

/-- What the fault control of `s`, after the stop, becomes in a later state. -/
structure Frozen (s t : NodeState) : Prop where
  taken : t.TakesAs s
  swaps : ∀ thread, t.phases thread = some .swap -> s.phases thread = some .swap
  buffers : t.faultBuffers = s.faultBuffers ∨
    (t.faultBuffers = fun _ => []) ∧ ∃ thread, s.phases thread = some .swap

namespace Frozen

theorem refl (s : NodeState) : s.Frozen s where
  taken := fun _ _ => rfl
  swaps := fun _ swaps => swaps
  buffers := .inl rfl

theorem trans (first : s.Frozen t) (second : t.Frozen u) : s.Frozen u where
  taken := fun channel window => (second.taken channel window).trans (first.taken channel window)
  swaps := fun thread swaps => first.swaps thread (second.swaps thread swaps)
  buffers := by
    rcases second.buffers with same | ⟨empty, thread, swaps⟩
    · rw [same]
      exact first.buffers
    · exact .inr ⟨empty, thread, first.swaps thread swaps⟩

/-- A thread that does not come before its swap. -/
theorem swaps_update {thread : Thread} {phase : Option FlushPhase}
    (phases : t.phases = Function.update s.phases thread phase) (other : phase ≠ some .swap) :
    ∀ other, t.phases other = some .swap -> s.phases other = some .swap := by
  intro swapping swaps
  rw [phases] at swaps
  by_cases own : swapping = thread
  · rw [own, Function.update_self] at swaps
    exact absurd swaps other
  · rwa [Function.update_of_ne own] at swaps

theorem step (halted : s.Halted) (stepped : nodeStep cfg s action = some t) : s.Frozen t := by
  have step : NodeStep cfg s action t := nodeStep_cases stepped
  cases step.fault (halted.notStop stepped) with
  | still _ phases _ _ _ buffers _ _ taken =>
      exact ⟨taken, fun _ swaps => by rwa [phases] at swaps, .inl buffers⟩
  | took _ _ open_ => rw [halted.inactive] at open_; cases open_
  | opened starts => rw [halted.starts_eq_false action] at starts; cases starts
  | began _ _ _ _ open_ => rw [halted.inactive] at open_; cases open_
  | swapped _ _ holds phases _ _ _ buffers _ _ taken =>
      exact ⟨taken, swaps_update phases (by simp), .inr ⟨buffers, _, holds⟩⟩
  | replayed _ _ _ phases _ _ _ buffers _ _ taken =>
      exact ⟨taken, swaps_update phases (by simp), .inl buffers⟩
  | ended _ _ _ phases _ _ _ buffers _ _ taken =>
      exact ⟨taken, swaps_update phases (by simp), .inl buffers⟩

theorem of_path (halted : s.Halted) (path : (bridgeNode cfg).Path (fun _ _ => True) s t) :
    s.Frozen t := by
  induction path with
  | refl => exact .refl s
  | tail before _ stepped ih => exact ih.trans (.step (halted.of_path before) stepped)

end Frozen

end NodeState

open NodeState

/-- What a shutdown loses.  After `stop_node_fault_control` each message is still in exactly one
place, and no policy takes one.  The fault buffers stay as they are, and nothing in them is
ever written or published, unless a thread was about to swap them out and replay them.  On a
topic with policy buffer, when the threads have finished, what has not left the node is in the
fault buffer or the bitrate queue, or was evicted. -/
theorem shutdown_loses_what_is_cached (cfg : BridgeConfig) (only : cfg.ControlOnly)
    (channel : Channel) (valid : cfg.hasChannel channel = true) (s t : NodeState)
    (run : (bridgeNode cfg).Reachable s) (stopped : s.nodeFaultThreadRunning = false)
    (path : (bridgeNode cfg).Path (fun _ _ => True) s t) :
    (∀ message ∈ (t.view channel).arrived, Located (t.contents cfg channel) message) ∧
    (∀ window, (t.view channel).takenIn window = (s.view channel).takenIn window) ∧
    ((t.faultBuffers channel = s.faultBuffers channel ∧
        ∀ message ∈ s.faultBuffers channel, message ∉ (t.view channel).delivered) ∨
      (t.faultBuffers channel = [] ∧ ∃ thread, s.phases thread = some .swap)) ∧
    (cfg.policy channel = .buffer -> (∀ thread, (t.pc thread).job? = none) ->
      (∀ thread, t.phases thread = none) ->
      ((t.view channel).delivered ++ t.faultBuffers channel ++ t.queue channel ++
        (t.view channel).evicted).Perm (t.view channel).arrived) := by
  have reached : (bridgeNode cfg).Reachable t :=
    run.imp fun _ => .imp_right fun before => before.trans path
  have conserved : t.Conserved cfg channel :=
    .throughout valid (reaches_startsWhenIdle only reached)
  have frozen : s.Frozen t := .of_path (.of_reachable run stopped) path
  refine ⟨conserved.once, frozen.taken channel, ?_,
    conserved.accounted (arrivals_of_reaches valid reached)⟩
  rcases frozen.buffers with same | ⟨empty, swaps⟩
  · refine .inl ⟨congrFun same channel, fun message cached left => ?_⟩
    rw [← same] at cached
    have arrived : message ∈ (t.view channel).arrived := by
      by_contra unknown
      exact Multiset.count_eq_zero.mp (conserved.known message unknown .delivered) left
    have scarce : Scarce (t.contents cfg channel) message := .inl (conserved.once message arrived)
    have both : Place.buffer = .delivered := scarce.apart cached left
    cases both
  · exact .inr ⟨congrFun empty channel, swaps⟩

/-- One receive topic with policy buffer. -/
def cachingConfig : BridgeConfig where
  sendTopics := []
  recvTopics := [⟨0, .buffer⟩]
  nodeFault := none
  durationCast := id
  undefinedSize := fun _ => 0

/-- A message is cached in a window, and then comes the stop. -/
def stoppingSchedule : List Action :=
  [.request 1, .run .control, .run .control, .arrive (.recv 0) ⟨1, [0]⟩, .run (.recv 0),
    .run (.recv 0), .stop]

/-- Another message arrives while the threads end. -/
def endingSchedule : List Action :=
  [.run .ros, .arrive (.recv 0) ⟨1, [1]⟩, .run (.recv 0), .run (.recv 0), .run (.recv 0),
    .advance 2, .run .monitor]

/-- The cached message is lost, the later one is published. -/
theorem shutdown_loses_what_is_cached_window :
    ∃ (s t : NodeState) (message : Message), message ∈ s.faultBuffers (.recv 0) ∧
      (t.view (.recv 0)).delivered.map Message.arrival = [1] ∧
      message ∈ t.faultBuffers (.recv 0) ∧ message ∉ (t.view (.recv 0)).delivered := by
  have executed : (((bridgeNode cachingConfig).exec (fun _ _ => True)
      (NodeState.initial cachingConfig 0) stoppingSchedule).bind fun s =>
      ((bridgeNode cachingConfig).exec (fun _ _ => True) s endingSchedule).map fun t =>
      (s.nodeFaultThreadRunning, s.faultBuffers (.recv 0), t.faultBuffers (.recv 0),
        (t.view (.recv 0)).delivered.map Message.arrival)) =
      some (false, [⟨0, ⟨1, [0]⟩⟩], [⟨0, ⟨1, [0]⟩⟩], [1]) := by
    decide +kernel
  rcases Option.bind_eq_some_iff.mp executed with ⟨s, first, executed⟩
  rcases Option.map_eq_some_iff.mp executed with ⟨t, second, observed⟩
  simp only [Prod.mk.injEq] at observed
  rcases observed with ⟨stopped, cached, kept, published⟩
  have run : (bridgeNode cachingConfig).Reachable s := Machine.reaches_of_exec ⟨0, rfl⟩ first
  have path : (bridgeNode cachingConfig).Path (fun _ _ => True) s t := Machine.path_of_exec second
  rcases (shutdown_loses_what_is_cached cachingConfig rfl (.recv 0) (by decide) s t run stopped
    path).2.2.1 with ⟨-, lost⟩ | ⟨empty, -⟩
  · have member : ⟨0, ⟨1, [0]⟩⟩ ∈ s.faultBuffers (.recv 0) := by rw [cached]; exact .head _
    exact ⟨s, t, _, member, published, by rw [kept]; exact .head _, lost _ member⟩
  · rw [kept] at empty
    cases empty

end SwarmBridge
