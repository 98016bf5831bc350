import SwarmBridge.SimComm.Sections

namespace SwarmBridge

open Foundation

/-!
# What a step of the node can do

`nodeStep` is the executable model.  The relation `NodeStep` lists its outcomes,
one constructor for each branch of a section, with the guards that led there.
`nodeStep_cases` is the inversion theorem: every invariant of a run is proved by
cases on this list, and no later proof unfolds a section to find its branches.
-/

namespace NodeState

/-- A thread that is about to execute the section of `start_node_fault`. -/
inductive Starter (s : NodeState) (durationSec : ℚ) : Thread -> Prop
  | control (at_start : s.pc .control = .granted durationSec) : Starter s durationSec .control
  | startup {wake : ℚ} (at_start : s.pc .startup = .sleeping wake durationSec)
      (due : wake ≤ s.now) : Starter s durationSec .startup

theorem Starter.thread_eq {s : NodeState} {durationSec : ℚ} {thread : Thread}
    (starter : s.Starter durationSec thread) : thread = .control ∨ thread = .startup := by
  cases starter with
  | control at_start => exact .inl rfl
  | startup at_start due => exact .inr rfl

end NodeState

/-- The outcomes of a step, by the branch taken. -/
inductive NodeStep (cfg : BridgeConfig) (s : NodeState) : Action -> NodeState -> Prop
  | advance {time : ℚ} (later : s.now ≤ time) : NodeStep cfg s (.advance time) { s with now := time }
  | arrive {channel : Channel} {payload : SimCommMessage}
      (valid : cfg.hasChannel channel = true) (idle : s.pc channel.reader = .idle) :
      NodeStep cfg s (.arrive channel payload) (s.arrive channel payload)
  | refused {durationSec : ℚ} : NodeStep cfg s (.request durationSec) s
  | granted {durationSec : ℚ} (idle : s.pc .control = .idle) (positive : 0 < durationSec)
      (inactive : s.nodeFaultActive = false) (settled : s.nodeFaultRecovering = false) :
      NodeStep cfg s (.request durationSec) (s.move .control (.granted durationSec))
  | expire {thread : Thread} {job : Job thread} (at_entry : s.pc thread = .entry job)
      (active : s.nodeFaultActive = true) (expired : s.nodeFaultUntil ≤ s.now) :
      NodeStep cfg s (.run thread) (s.beginRecovery thread (.job job))
  | unexpired {thread : Thread} {job : Job thread} (at_entry : s.pc thread = .entry job)
      (fresh : s.nodeFaultActive = true -> s.now < s.nodeFaultUntil) :
      NodeStep cfg s (.run thread) (s.move thread (.check job))
  | take {thread : Thread} {job : Job thread} (at_check : s.pc thread = .check job)
      (settled : s.nodeFaultRecovering = false) (active : s.nodeFaultActive = true)
      (inside : s.now < s.nodeFaultUntil) : NodeStep cfg s (.run thread) (s.take cfg job)
  | toQueue {topic : ℕ} {message : Message} (at_check : s.pc .ros = .check (.dispatchSend topic message))
      (settled : s.nodeFaultRecovering = false)
      (outside : s.nodeFaultActive = true -> s.nodeFaultUntil ≤ s.now)
      (limited : cfg.limited (.send topic) = true) :
      NodeStep cfg s (.run .ros) (s.move .ros (.cleared (.dispatchSend topic message)))
  | toZmq {topic : ℕ} {message : Message} (at_check : s.pc .ros = .check (.dispatchSend topic message))
      (settled : s.nodeFaultRecovering = false)
      (outside : s.nodeFaultActive = true -> s.nodeFaultUntil ≤ s.now)
      (unlimited : cfg.limited (.send topic) = false) :
      NodeStep cfg s (.run .ros) (s.move .ros (.entry (.beforeZmq topic message)))
  | pass {thread : Thread} {job : Job thread} (at_check : s.pc thread = .check job)
      (settled : s.nodeFaultRecovering = false)
      (outside : s.nodeFaultActive = true -> s.nodeFaultUntil ≤ s.now) (final : job.final = true) :
      NodeStep cfg s (.run thread)
        ((s.record (.passed job.channel job.message)).move thread (.cleared job))
  | enqueue {topic : ℕ} {message : Message}
      (at_cleared : s.pc .ros = .cleared (.dispatchSend topic message)) :
      NodeStep cfg s (.run .ros) ((s.enqueue cfg topic message).move .ros .idle)
  | deliver {thread : Thread} {job : Job thread} (at_cleared : s.pc thread = .cleared job)
      (final : job.final = true) :
      NodeStep cfg s (.run thread) ((s.deliver job.channel job.message).move thread .idle)
  | swap {thread : Thread} {resume : Resume thread}
      (at_swap : s.pc thread = .flushing resume .swap) :
      NodeStep cfg s (.run thread) (s.swapBuffers cfg thread resume)
  | replayQueued {thread : Thread} {resume : Resume thread} {done rest : List (Channel × Message)}
      {topic : ℕ} {message : Message}
      (at_replay : s.pc thread = .flushing resume (.replay done ((.send topic, message) :: rest)))
      (limited : cfg.limited (.send topic) = true) :
      NodeStep cfg s (.run thread)
        (((s.record (.replayed (.send topic) message)).enqueue cfg topic message).move thread
          (.flushing resume (.replay (done ++ [(.send topic, message)]) rest)))
  | replayDirect {thread : Thread} {resume : Resume thread} {done rest : List (Channel × Message)}
      {channel : Channel} {message : Message}
      (at_replay : s.pc thread = .flushing resume (.replay done ((channel, message) :: rest)))
      (unlimited : cfg.limited channel = false) :
      NodeStep cfg s (.run thread)
        (((s.record (.replayed channel message)).deliver channel message).move thread
          (.flushing resume (.replay (done ++ [(channel, message)]) rest)))
  | endRecovery {thread : Thread} {job : Job thread} {done : List (Channel × Message)}
      (at_end : s.pc thread = .flushing (.job job) (.replay done [])) :
      NodeStep cfg s (.run thread)
        ({ s with nodeFaultRecovering := false }.move thread (.notifyAll job))
  | endLoop {done : List (Channel × Message)} {pc : Pc .monitor}
      (at_end : s.pc .monitor = .flushing .loop (.replay done [])) (quiet : pc.quiet = true)
      (awake : s.nodeFaultThreadRunning = true -> pc ≠ .stopped) :
      NodeStep cfg s (.run .monitor) ({ s with nodeFaultRecovering := false }.move .monitor pc)
  | notified {thread : Thread} {job : Job thread} (at_notify : s.pc thread = .notifyAll job) :
      NodeStep cfg s (.run thread) (s.move thread (.check job))
  | startWorker {topic : ℕ} (at_start : s.pc (.worker topic) = .unstarted)
      (limited : cfg.limited (.send topic) = true) :
      NodeStep cfg s (.run (.worker topic)) (s.startWorker cfg topic)
  | awaitTokens {topic : ℕ} {front : Message} {rest : List Message} {bucket : Bucket ℚ}
      (at_loop : s.pc (.worker topic) = .idle)
      (queue : (s.sendQueues topic).messages = front :: rest)
      (refilled : bucket = refillTokens (cfg.topic (.send topic)).maxBitrate s.now front.dataLen
        (s.buckets topic))
      (short : bucket.available < front.dataLen) :
      NodeStep cfg s (.run (.worker topic))
        { s with buckets := Function.update s.buckets topic bucket }
  | dequeue {topic : ℕ} {front : Message} {rest : List Message} {bucket : Bucket ℚ} {bytes : ℕ}
      (at_loop : s.pc (.worker topic) = .idle)
      (queue : (s.sendQueues topic).messages = front :: rest)
      (refilled : bucket = refillTokens (cfg.topic (.send topic)).maxBitrate s.now front.dataLen
        (s.buckets topic))
      (counted : bytes = sizeSub (s.sendQueues topic).bytes front.dataLen)
      (enough : (front.dataLen : ℚ) ≤ bucket.available) :
      NodeStep cfg s (.run (.worker topic))
        (({ s with
            buckets := Function.update s.buckets topic (bucket.spend front.dataLen)
            sendQueues := Function.update s.sendQueues topic ⟨rest, bytes⟩ }.record
          (.dequeued topic front)).move (.worker topic) (.entry (.pump front)))
  | monitorExpire (at_wait : s.pc .monitor = .waitDeadline) (active : s.nodeFaultActive = true)
      (expired : s.nodeFaultUntil ≤ s.now) :
      NodeStep cfg s (.run .monitor) (s.beginRecovery .monitor .loop)
  | openWindow {thread : Thread} {durationSec : ℚ} (starter : s.Starter durationSec thread)
      (positive : 0 < durationSec) (starts : startsFault s (.run thread) = true) :
      NodeStep cfg s (.run thread)
        ((s.openWindow cfg durationSec).move thread (.notifyOne starter.thread_eq))
  | quiet {thread : Thread} {pc : Pc thread} (free : (s.pc thread).job? = none)
      (outside : (s.pc thread).phase? = none) (quiet : pc.quiet = true)
      (notWorker : ∀ topic, thread ≠ .worker topic) (starts : startsFault s (.run thread) = false)
      (awake : s.nodeFaultThreadRunning = true -> thread = .monitor -> pc ≠ .stopped) :
      NodeStep cfg s (.run thread) (s.move thread pc)
  | stop (ros : s.pc .ros = .idle) (control : s.pc .control = .idle) :
      NodeStep cfg s .stop s.stopNodeFaultControl

namespace NodeState

variable {cfg : BridgeConfig} {s t : NodeState}

theorem faultExpired_eq_true_iff :
    s.faultExpired = true ↔ s.nodeFaultActive = true ∧ s.nodeFaultUntil ≤ s.now := by
  simp [faultExpired]

theorem isNodeFaultActiveLocked_eq_true_iff :
    s.isNodeFaultActiveLocked = true ↔ s.nodeFaultActive = true ∧ s.now < s.nodeFaultUntil := by
  simp [isNodeFaultActiveLocked]

theorem isNodeFaultActiveLocked_eq_false
    (outside : s.nodeFaultActive = true -> s.nodeFaultUntil ≤ s.now) :
    s.isNodeFaultActiveLocked = false := by
  apply Bool.eq_false_iff.mpr
  intro locked
  have window := isNodeFaultActiveLocked_eq_true_iff.mp locked
  exact absurd (outside window.1) (not_le.mpr window.2)

theorem monitorLoop_quiet (s : NodeState) : s.monitorLoop.quiet = true := by
  unfold monitorLoop
  split
  · split <;> rfl
  · rfl

theorem monitorLoop_ne_stopped (running : s.nodeFaultThreadRunning = true) :
    s.monitorLoop ≠ .stopped := by
  simp only [monitorLoop, if_pos running]
  split <;> simp

/-! ## One inversion lemma for each kind of section -/

theorem flushExpiredFaultIfNeeded_cases {thread : Thread} {job : Job thread}
    (at_entry : s.pc thread = .entry job) :
    NodeStep cfg s (.run thread) (s.flushExpiredFaultIfNeeded job) := by
  unfold flushExpiredFaultIfNeeded
  by_cases expired : s.faultExpired = true
  · rw [if_pos expired]
    have window := faultExpired_eq_true_iff.mp expired
    exact .expire at_entry window.1 window.2
  · rw [if_neg expired]
    refine .unexpired at_entry (fun active => ?_)
    exact not_le.mp (fun late => expired (faultExpired_eq_true_iff.mpr ⟨active, late⟩))

theorem pass_cases {thread : Thread} {job : Job thread} (at_check : s.pc thread = .check job)
    (settled : s.nodeFaultRecovering = false)
    (outside : s.nodeFaultActive = true -> s.nodeFaultUntil ≤ s.now) :
    NodeStep cfg s (.run thread) (s.pass cfg job) := by
  cases job with
  | dispatchSend topic message =>
      simp only [pass]
      by_cases limited : cfg.limited (.send topic) = true
      · rw [if_pos limited]
        exact .toQueue at_check settled outside limited
      · rw [if_neg limited]
        exact .toZmq at_check settled outside (Bool.eq_false_iff.mpr limited)
  | beforeZmq topic message => exact .pass at_check settled outside rfl
  | pump message => exact .pass at_check settled outside rfl
  | received message => exact .pass at_check settled outside rfl

theorem checkFault_cases {thread : Thread} {job : Job thread} (at_check : s.pc thread = .check job)
    (stepped : s.checkFault cfg job = some t) : NodeStep cfg s (.run thread) t := by
  unfold checkFault at stepped
  by_cases recovering : s.nodeFaultRecovering = true
  · simp [recovering] at stepped
  · have settled : s.nodeFaultRecovering = false := Bool.eq_false_iff.mpr recovering
    by_cases active : s.isNodeFaultActiveLocked = true
    · simp only [settled, active, Bool.false_eq_true, if_false, if_true, Option.some.injEq] at stepped
      have window := isNodeFaultActiveLocked_eq_true_iff.mp active
      exact stepped ▸ .take at_check settled window.1 window.2
    · simp only [settled, active, Bool.false_eq_true, if_false, Option.some.injEq] at stepped
      refine stepped ▸ pass_cases at_check settled (fun open_ => ?_)
      exact not_lt.mp (fun early => active (isNodeFaultActiveLocked_eq_true_iff.mpr ⟨open_, early⟩))

theorem afterCheck_cases {thread : Thread} {job : Job thread}
    (at_cleared : s.pc thread = .cleared job) :
    NodeStep cfg s (.run thread) (s.afterCheck cfg job) := by
  cases job with
  | dispatchSend topic message => exact .enqueue at_cleared
  | beforeZmq topic message => exact .deliver at_cleared rfl
  | pump message => exact .deliver at_cleared rfl
  | received message => exact .deliver at_cleared rfl

theorem flushSection_cases {thread : Thread} {resume : Resume thread} {phase : FlushPhase}
    (at_flush : s.pc thread = .flushing resume phase) :
    NodeStep cfg s (.run thread) (s.flushSection cfg thread resume phase) := by
  cases phase with
  | swap => exact .swap at_flush
  | replay done rest =>
      cases rest with
      | nil =>
          cases resume with
          | job job => exact .endRecovery at_flush
          | loop => exact .endLoop at_flush (monitorLoop_quiet _) monitorLoop_ne_stopped
      | cons head rest =>
          rcases head with ⟨channel, message⟩
          simp only [flushSection, replayMessage]
          cases channel with
          | recv topic => exact .replayDirect at_flush rfl
          | send topic =>
              by_cases limited : cfg.limited (.send topic) = true
              · simp only [if_pos limited]
                exact .replayQueued at_flush limited
              · simp only [if_neg limited]
                exact .replayDirect at_flush (Bool.eq_false_iff.mpr limited)

theorem sendFuncIteration_cases {topic : ℕ} {front : Message} {rest : List Message}
    (at_loop : s.pc (.worker topic) = .idle)
    (queue : (s.sendQueues topic).messages = front :: rest) :
    NodeStep cfg s (.run (.worker topic)) (s.sendFuncIteration cfg topic front rest) := by
  simp only [sendFuncIteration]
  split
  case isTrue enough => exact .dequeue at_loop queue rfl rfl enough
  case isFalse short => exact .awaitTokens at_loop queue rfl (not_le.mp short)

theorem startNodeFault_cases {thread : Thread} {durationSec : ℚ}
    (starter : s.Starter durationSec thread) :
    NodeStep cfg s (.run thread) (s.startNodeFault cfg durationSec starter.thread_eq) := by
  have free : (s.pc thread).job? = none ∧ (s.pc thread).phase? = none ∧
      ∀ topic, thread ≠ .worker topic := by
    cases starter with
    | control at_start => simp [at_start, Pc.job?, Pc.phase?]
    | startup at_start due => simp [at_start, Pc.job?, Pc.phase?]
  unfold startNodeFault
  by_cases positive : 0 < durationSec
  · rw [if_neg (not_le.mpr positive)]
    by_cases running : s.nodeFaultThreadRunning = true
    · rw [if_pos running]
      refine .openWindow starter positive ?_
      cases starter with
      | control at_start => simp [startsFault, at_start, positive, running]
      | startup at_start due => simp [startsFault, at_start, due, positive, running]
    · rw [if_neg running]
      refine .quiet free.1 free.2.1 rfl free.2.2 ?_ (by simp)
      cases starter with
      | control at_start => simp [startsFault, at_start, running]
      | startup at_start due => simp [startsFault, at_start, running]
  · rw [if_pos (not_lt.mp positive)]
    refine .quiet free.1 free.2.1 rfl free.2.2 ?_ (by simp)
    cases starter with
    | control at_start => simp [startsFault, at_start, positive]
    | startup at_start due => simp [startsFault, at_start, positive]

/-- The monitor's own sections are quiet moves or the end of a window. -/
theorem monitor_cases {pc : Pc .monitor} (at_pc : s.pc .monitor = pc)
    (free : pc.job? = none) (outside : pc.phase? = none)
    (stepped : s.section? cfg pc = some t) : NodeStep cfg s (.run .monitor) t := by
  have move : ∀ next : Pc .monitor, next.quiet = true ->
      (s.nodeFaultThreadRunning = true -> next ≠ .stopped) ->
      NodeStep cfg s (.run .monitor) (s.move .monitor next) := fun next quiet awake =>
    .quiet (by rw [at_pc, free]) (by rw [at_pc, outside]) quiet (fun _ => Thread.noConfusion) rfl
      (fun running _ => awake running)
  have loop := move _ (monitorLoop_quiet s) monitorLoop_ne_stopped
  cases pc with
  | idle => exact Option.some.inj stepped ▸ loop
  | waitFault =>
      simp only [section?] at stepped
      split at stepped
      · cases stepped
      · exact Option.some.inj stepped ▸ loop
  | waitDeadline =>
      simp only [section?] at stepped
      split at stepped
      case isTrue stops =>
        refine Option.some.inj stepped ▸ move _ rfl (fun running => ?_)
        rw [running] at stops
        cases stops
      · split at stepped
        · split at stepped
          case isTrue expired =>
            have window := faultExpired_eq_true_iff.mp expired
            exact Option.some.inj stepped ▸ .monitorExpire at_pc window.1 window.2
          case isFalse => exact Option.some.inj stepped ▸ loop
        · cases stepped
  | notifyOne starter => rcases starter with impossible | impossible <;> cases impossible
  | stopped => cases stepped
  | entry job => cases free
  | check job => cases free
  | cleared job => cases free
  | notifyAll job => cases free
  | flushing resume phase => cases outside

theorem section_cases {thread : Thread} {pc : Pc thread} (at_pc : s.pc thread = pc)
    (stepped : s.section? cfg pc = some t) : NodeStep cfg s (.run thread) t := by
  cases pc with
  | entry job => exact Option.some.inj stepped ▸ flushExpiredFaultIfNeeded_cases at_pc
  | check job => exact checkFault_cases at_pc stepped
  | cleared job => exact Option.some.inj stepped ▸ afterCheck_cases at_pc
  | flushing resume phase => exact Option.some.inj stepped ▸ flushSection_cases at_pc
  | notifyAll job => exact Option.some.inj stepped ▸ .notified at_pc
  | unstarted =>
      simp only [section?] at stepped
      split at stepped
      case isTrue valid =>
        exact Option.some.inj stepped ▸ .startWorker at_pc ((Bool.and_eq_true _ _).mp valid).2
      case isFalse => cases stepped
  | waitFault => exact monitor_cases at_pc rfl rfl stepped
  | waitDeadline => exact monitor_cases at_pc rfl rfl stepped
  | granted durationSec => exact Option.some.inj stepped ▸ startNodeFault_cases (.control at_pc)
  | sleeping wake durationSec =>
      simp only [section?] at stepped
      split at stepped
      case isTrue due =>
        exact Option.some.inj stepped ▸ startNodeFault_cases (.startup at_pc due)
      case isFalse => cases stepped
  | stopNotify =>
      refine Option.some.inj stepped ▸ .quiet ?_ ?_ rfl (fun _ => Thread.noConfusion) rfl
        (fun _ => Thread.noConfusion) <;> rw [at_pc] <;> rfl
  | stopped => cases thread <;> cases stepped
  | notifyOne starter =>
      have moved : s.move thread .idle = t := by
        rcases starter with rfl | rfl <;> exact Option.some.inj stepped
      refine moved ▸ .quiet ?_ ?_ rfl ?_ ?_ (by simp)
      · rw [at_pc]; rfl
      · rw [at_pc]; rfl
      · rcases starter with rfl | rfl <;> exact fun _ => Thread.noConfusion
      · rcases starter with rfl | rfl <;> simp [startsFault, at_pc]
  | idle =>
      cases thread with
      | worker topic =>
          simp only [section?] at stepped
          split at stepped
          case h_1 front rest queue =>
            exact Option.some.inj stepped ▸ sendFuncIteration_cases at_pc queue
          case h_2 => cases stepped
      | monitor => exact monitor_cases at_pc rfl rfl stepped
      | ros => cases stepped
      | recv topic => cases stepped
      | control => cases stepped
      | startup => cases stepped

end NodeState

/-- Inversion of a step: it is one of the branches listed in `NodeStep`. -/
theorem nodeStep_cases {cfg : BridgeConfig} {s t : NodeState} {action : Action}
    (stepped : nodeStep cfg s action = some t) : NodeStep cfg s action t := by
  cases action with
  | advance time =>
      simp only [nodeStep] at stepped
      split at stepped
      case isTrue later => exact Option.some.inj stepped ▸ .advance later
      case isFalse => cases stepped
  | arrive channel payload =>
      simp only [nodeStep] at stepped
      split at stepped
      case isTrue enabled =>
        have parts := (Bool.and_eq_true _ _).mp enabled
        have valid := ((Bool.and_eq_true _ _).mp parts.1).2
        exact Option.some.inj stepped ▸ .arrive valid (of_decide_eq_true parts.2)
      case isFalse => cases stepped
  | request durationSec =>
      simp only [nodeStep] at stepped
      split at stepped
      case isTrue enabled =>
        have idle := of_decide_eq_true ((Bool.and_eq_true _ _).mp enabled).2
        refine Option.some.inj stepped ▸ ?_
        unfold NodeState.handleControlRequest
        by_cases positive : 0 < durationSec
        · rw [if_pos positive]
          by_cases busy : s.isNodeFaultBusy = true
          · rw [if_pos busy]
            exact .refused
          · rw [if_neg busy]
            simp only [NodeState.isNodeFaultBusy, Bool.or_eq_true, not_or, Bool.not_eq_true] at busy
            exact .granted idle positive busy.1 busy.2
        · rw [if_neg positive]
          exact .refused
      case isFalse => cases stepped
  | run thread => exact NodeState.section_cases rfl stepped
  | stop =>
      simp only [nodeStep] at stepped
      split at stepped
      case isTrue enabled => exact Option.some.inj stepped ▸ .stop enabled.2.1 enabled.2.2.1
      case isFalse => cases stepped

end SwarmBridge
