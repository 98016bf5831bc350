import SwarmBridge.SimComm.SendFunc
import SwarmBridge.Foundation.TokenDemand
import Mathlib.Algebra.Order.Floor.Semiring

namespace SwarmBridge

open Foundation

/-!
# When the worker of a limited topic sends

A message that lacks tokens is taken by the first iteration after the time at which
its tokens are due, however long it is, and the waits of the loop bring that
iteration about.  Messages that keep to the bitrate and the bucket never wait.
-/

section Loop

variable {maxBitrate : ℚ} {bucket : Bucket ℚ} {iteration : Iteration}

theorem bytesPerSecond_pos (limited : 0 < maxBitrate) : 0 < bytesPerSecond maxBitrate :=
  div_pos limited (by norm_num)

/-- The time at which the tokens for the front message are due. -/
def tokensDue (maxBitrate : ℚ) (front : Message) (bucket : Bucket ℚ) : ℚ :=
  bucket.due (bytesPerSecond maxBitrate) front.dataLen

/-- The capacity leaves room for the front message. -/
theorem front_le_capacity (maxBitrate : ℚ) (front : Message) :
    (front.dataLen : ℚ) ≤ max (baseBucketCapacity maxBitrate) front.dataLen :=
  le_max_right _ _

/-- An iteration takes its front message from the due time on. -/
theorem sendFuncLoop_due (limited : 0 < maxBitrate)
    (due : tokensDue maxBitrate iteration.front bucket ≤ iteration.now) :
    (sendFuncLoop maxBitrate bucket iteration).message? = some iteration.front := by
  have enough := (Bucket.le_refill_iff (bytesPerSecond_pos limited)
    (front_le_capacity maxBitrate iteration.front)).mpr due
  unfold sendFuncLoop refillTokens
  rw [if_pos enough]
  rfl

/-- Before the due time it waits, and the due time stays. -/
theorem sendFuncLoop_early (limited : 0 < maxBitrate)
    (early : iteration.now < tokensDue maxBitrate iteration.front bucket) :
    ∃ next : Bucket ℚ, sendFuncLoop maxBitrate bucket iteration =
        .waits (waitSeconds maxBitrate iteration.front.dataLen next) next ∧
      next.refilled = iteration.now ∧
      tokensDue maxBitrate iteration.front next = tokensDue maxBitrate iteration.front bucket := by
  have positive := bytesPerSecond_pos limited
  have within := front_le_capacity maxBitrate iteration.front
  have short := not_le.mpr early
  rw [tokensDue, ← Bucket.le_refill_iff positive within] at short
  refine ⟨refillTokens maxBitrate iteration.now iteration.front.dataLen bucket, ?_, rfl,
    Bucket.due_refill positive within (not_le.mp short)⟩
  exact if_neg short

/-- The number of the first iteration that takes a message. -/
def firstTake (maxBitrate : ℚ) (bucket : Bucket ℚ) (iterations : List Iteration) : Option ℕ :=
  (sendFuncRun maxBitrate bucket iterations).findIdx? LoopResult.takes

theorem firstTake_cons (maxBitrate : ℚ) (bucket : Bucket ℚ) (iteration : Iteration)
    (later : List Iteration) : firstTake maxBitrate bucket (iteration :: later) =
      if (sendFuncLoop maxBitrate bucket iteration).takes then some 0
      else (firstTake maxBitrate (sendFuncLoop maxBitrate bucket iteration).bucket later).map
        (· + 1) := by
  rw [firstTake, sendFuncRun, List.findIdx?_cons]
  rfl

theorem firstTake_due (limited : 0 < maxBitrate)
    (due : tokensDue maxBitrate iteration.front bucket ≤ iteration.now) (later : List Iteration) :
    firstTake maxBitrate bucket (iteration :: later) = some 0 := by
  rw [firstTake_cons, LoopResult.takes, sendFuncLoop_due limited due]
  rfl

theorem firstTake_early {seconds : ℚ} {next : Bucket ℚ}
    (waits : sendFuncLoop maxBitrate bucket iteration = .waits seconds next)
    (later : List Iteration) : firstTake maxBitrate bucket (iteration :: later) =
      (firstTake maxBitrate next later).map (· + 1) := by
  rw [firstTake_cons, waits]
  rfl

variable {front : Message} {iterations : List Iteration}

/-- The first iteration that takes the message is the first one from the due time on. -/
theorem firstTake_eq (limited : 0 < maxBitrate)
    (same : ∀ iteration ∈ iterations, iteration.front = front) :
    firstTake maxBitrate bucket iterations = iterations.findIdx? fun iteration =>
      decide (tokensDue maxBitrate front bucket ≤ iteration.now) := by
  induction iterations generalizing bucket with
  | nil => rfl
  | cons iteration later ih =>
      have rest : ∀ {bucket : Bucket ℚ}, firstTake maxBitrate bucket later =
          later.findIdx? fun iteration =>
            decide (tokensDue maxBitrate front bucket ≤ iteration.now) :=
        ih fun iteration member => same iteration (List.mem_cons_of_mem _ member)
      rcases same iteration List.mem_cons_self with rfl : iteration.front = front
      rw [List.findIdx?_cons]
      by_cases due : tokensDue maxBitrate iteration.front bucket ≤ iteration.now
      · rw [firstTake_due limited due, if_pos (decide_eq_true due)]
      · rcases sendFuncLoop_early limited (not_le.mp due) with ⟨next, waits, _, stays⟩
        rw [firstTake_early waits, rest, stays, if_neg (by simpa using due)]

/-- What the loop waits for is what is left until the tokens are due, cut to the
longest wait. -/
theorem waitSeconds_eq (maxBitrate : ℚ) (front : Message) (bucket : Bucket ℚ) :
    waitSeconds maxBitrate front.dataLen bucket =
      min (tokensDue maxBitrate front bucket - bucket.refilled) maxTokenWaitSec := by
  rw [waitSeconds, tokensDue, Bucket.due, add_sub_cancel_left]

/-- A wait that does not reach the due time brings it closer by the longest wait. -/
theorem firstTake_lt (limited : 0 < maxBitrate)
    (same : ∀ iteration ∈ iterations, iteration.front = front)
    (waited : WaitsOut maxBitrate bucket iterations) {count : ℕ}
    (ahead : bucket.refilled < tokensDue maxBitrate front bucket)
    (left : tokensDue maxBitrate front bucket - bucket.refilled ≤ count * maxTokenWaitSec)
    (enough : count ≤ iterations.length) :
    ∃ n < count, firstTake maxBitrate bucket iterations = some n := by
  induction count generalizing bucket iterations with
  | zero =>
      simp only [Nat.cast_zero, zero_mul] at left
      linarith
  | succ count ih =>
      cases iterations with
      | nil => cases enough
      | cons iteration later =>
          have rest := fun iteration member => same iteration (List.mem_cons_of_mem _ member)
          rcases same iteration List.mem_cons_self with rfl : iteration.front = front
          by_cases due : tokensDue maxBitrate iteration.front bucket ≤ iteration.now
          · exact ⟨0, Nat.succ_pos count, firstTake_due limited due later⟩
          · rcases sendFuncLoop_early limited (not_le.mp due) with ⟨next, waits, time, stays⟩
            rcases waited with ⟨slept, waited'⟩
            rw [waits] at waited'
            rw [waitSeconds_eq] at slept
            -- the wait was cut, for otherwise the tokens would be due by now
            have cut : bucket.refilled + maxTokenWaitSec ≤ iteration.now := by
              rcases min_choice (tokensDue maxBitrate iteration.front bucket - bucket.refilled)
                maxTokenWaitSec with whole | cut
              · rw [whole] at slept
                linarith
              · rwa [cut] at slept
            have closer : tokensDue maxBitrate iteration.front next - next.refilled ≤
                count * maxTokenWaitSec := by
              rw [stays, time]
              push_cast at left
              linarith
            rcases ih rest waited' (by rw [stays, time]; exact not_le.mp due)
              closer (Nat.le_of_succ_le_succ enough) with ⟨n, bound, taken⟩
            exact ⟨n + 1, Nat.succ_lt_succ bound, by rw [firstTake_early waits, taken]; rfl⟩

end Loop

/-- The wait for tokens.  With `available` tokens at `refilled`, the front message is
taken by exactly the first iteration at or after the time at which the missing tokens
are due.  If the waits last as long as they are asked to, this is one of the next
iterations, as many as longest waits fit into the missing time. -/
theorem token_wait (maxBitrate : ℚ) (limited : 0 < maxBitrate) (front : Message)
    (available refilled : ℚ) (iterations : List Iteration)
    (same : ∀ iteration ∈ iterations, iteration.front = front) :
    (firstTake maxBitrate ⟨available, refilled⟩ iterations = iterations.findIdx? fun iteration =>
      decide (refilled + ((front.dataLen : ℚ) - available) / bytesPerSecond maxBitrate ≤
        iteration.now)) ∧
    (available < (front.dataLen : ℚ) -> WaitsOut maxBitrate ⟨available, refilled⟩ iterations ->
      ⌈((front.dataLen : ℚ) - available) / bytesPerSecond maxBitrate / maxTokenWaitSec⌉₊ ≤
        iterations.length ->
      ∃ n < ⌈((front.dataLen : ℚ) - available) / bytesPerSecond maxBitrate / maxTokenWaitSec⌉₊,
        firstTake maxBitrate ⟨available, refilled⟩ iterations = some n) := by
  refine ⟨firstTake_eq limited same, fun short waited enough => ?_⟩
  have missing : tokensDue maxBitrate front ⟨available, refilled⟩ - refilled =
      ((front.dataLen : ℚ) - available) / bytesPerSecond maxBitrate := add_sub_cancel_left _ _
  refine firstTake_lt limited same waited ?_ ?_ enough
  · refine sub_pos.mp ?_
    rw [missing]
    exact div_pos (sub_pos.mpr short) (bytesPerSecond_pos limited)
  · rw [missing]
    exact (div_le_iff₀ (by unfold maxTokenWaitSec; norm_num)).mp (Nat.le_ceil _)

/-- A front message of 230 bytes that the loop looks at every 20 ms. -/
def twoLooks : List Iteration :=
  [⟨1 / 50, ⟨0, ⟨230, []⟩⟩, [], 230⟩, ⟨1 / 25, ⟨0, ⟨230, []⟩⟩, [], 230⟩]

/-- At 1000 bytes a second and with 200 tokens at hand, it is taken after 30 ms, that
is by the second iteration. -/
theorem token_wait_oversized :
    firstTake 8000 ⟨200, 0⟩ twoLooks = some 1 ∧
      ∃ n < 2, firstTake 8000 ⟨200, 0⟩ twoLooks = some n := by
  have law := token_wait 8000 (by norm_num) ⟨0, ⟨230, []⟩⟩ 200 0 twoLooks (by decide)
  have count : ⌈((Message.dataLen ⟨0, ⟨230, []⟩⟩ : ℚ) - 200) / bytesPerSecond 8000 /
      maxTokenWaitSec⌉₊ = 2 := by
    decide +kernel
  have bounded := law.2 (by decide +kernel) (by decide +kernel) (by rw [count]; decide)
  rw [count] at bounded
  exact ⟨law.1.trans (by decide +kernel), bounded⟩

/-! ## Traffic that conforms -/

/-- Each message is enqueued when it arrives, and the worker's loop looks at the queue
at the same time: what is evicted, and what the worker takes. -/
def serveArrivals (undefinedSize : ℚ -> ℕ) (maxBitrate : ℚ) :
    SendQueue -> Bucket ℚ -> List (ℚ × Message) -> List (List Message × Option Message)
  | _, _, [] => []
  | queue, bucket, (now, message) :: later =>
      let (evicted, queue) := enqueueSendMessage undefinedSize maxBitrate message queue
      match queue.messages with
      | front :: rest =>
          match sendFuncLoop maxBitrate bucket ⟨now, front, rest, queue.bytes⟩ with
          | .took taken queue bucket =>
              (evicted, some taken) :: serveArrivals undefinedSize maxBitrate queue bucket later
          | .waits _ bucket =>
              (evicted, none) :: serveArrivals undefinedSize maxBitrate queue bucket later
      | [] => (evicted, none) :: serveArrivals undefinedSize maxBitrate queue bucket later

/-- The times and lengths of some arrivals. -/
def demand (arrivals : List (ℚ × Message)) : List (ℚ × ℚ) :=
  arrivals.map fun arrival => (arrival.1, (arrival.2.dataLen : ℚ))

/-- The messages that a run of the loop looks at, and when. -/
def looks (iterations : List Iteration) : List (ℚ × Message) :=
  iterations.map fun iteration => (iteration.now, iteration.front)

section Conforming

variable {maxBitrate : ℚ} {bucket : Bucket ℚ} {now : ℚ} {message : Message}
  {later : List (ℚ × Message)}

/-- A refill for a message that is no longer than the base capacity. -/
theorem refillTokens_short (short : (message.dataLen : ℚ) ≤ baseBucketCapacity maxBitrate) :
    refillTokens maxBitrate now message.dataLen bucket =
      bucket.refill (bytesPerSecond maxBitrate) (baseBucketCapacity maxBitrate) now := by
  rw [refillTokens, max_eq_left short]

/-- The first message of affordable traffic is taken at once, and the later ones stay
affordable. -/
theorem sendFuncLoop_affords
    (affords : bucket.Affords (bytesPerSecond maxBitrate) (demand ((now, message) :: later)))
    (conforming : Conforming (bytesPerSecond maxBitrate) (baseBucketCapacity maxBitrate)
      (demand ((now, message) :: later))) (rest : List Message) (bytes : ℕ) :
    ∃ next : Bucket ℚ, sendFuncLoop maxBitrate bucket ⟨now, message, rest, bytes⟩ =
        .took message ⟨rest, sizeSub bytes message.dataLen⟩ next ∧
      next.Affords (bytesPerSecond maxBitrate) (demand later) := by
  have short : (message.dataLen : ℚ) ≤ baseBucketCapacity maxBitrate :=
    conforming.le_burst List.mem_cons_self
  have pays := affords.pays conforming
  refine ⟨_, ?_, affords.next conforming⟩
  unfold sendFuncLoop
  rw [refillTokens_short short]
  exact if_pos pays

/-- A run of the loop over affordable traffic takes every message at once. -/
theorem sendFuncRun_affords {iterations : List Iteration}
    (affords : bucket.Affords (bytesPerSecond maxBitrate) (demand (looks iterations)))
    (conforming : Conforming (bytesPerSecond maxBitrate) (baseBucketCapacity maxBitrate)
      (demand (looks iterations))) :
    (sendFuncRun maxBitrate bucket iterations).map LoopResult.message? =
      (looks iterations).map fun arrival => some arrival.2 := by
  induction iterations generalizing bucket with
  | nil => rfl
  | cons iteration later ih =>
      rcases sendFuncLoop_affords affords conforming iteration.rest iteration.bytes
          with ⟨next, taken, affords'⟩
      unfold sendFuncRun
      rw [taken, List.map_cons]
      exact congrArg _ (ih affords' conforming.tail)

/-- An empty queue takes a message in without an eviction, and is empty again once the
worker has taken the message. -/
theorem enqueue_empty (undefinedSize : ℚ -> ℕ) (maxBitrate : ℚ) (message : Message) :
    enqueueSendMessage undefinedSize maxBitrate message SendQueue.empty =
        ([], ⟨[message], sizeAdd 0 message.dataLen⟩) ∧
      sizeSub (sizeAdd 0 message.dataLen) message.dataLen = 0 := by
  refine ⟨rfl, ?_⟩
  simp only [sizeSub, sizeAdd, sizeModulus]
  omega

/-- Affordable traffic passes the queue without an eviction or a wait. -/
theorem serveArrivals_affords (undefinedSize : ℚ -> ℕ) {arrivals : List (ℚ × Message)}
    (affords : bucket.Affords (bytesPerSecond maxBitrate) (demand arrivals))
    (conforming : Conforming (bytesPerSecond maxBitrate) (baseBucketCapacity maxBitrate)
      (demand arrivals)) :
    serveArrivals undefinedSize maxBitrate SendQueue.empty bucket arrivals =
      arrivals.map fun arrival => ([], some arrival.2) := by
  induction arrivals generalizing bucket with
  | nil => rfl
  | cons arrival later ih =>
      rcases arrival with ⟨now, message⟩
      rcases sendFuncLoop_affords affords conforming [] (sizeAdd 0 message.dataLen)
          with ⟨next, taken, affords'⟩
      rcases enqueue_empty undefinedSize maxBitrate message with ⟨entered, left⟩
      unfold serveArrivals
      rw [entered]
      dsimp only
      rw [taken, left]
      exact congrArg _ (ih affords' conforming.tail)

end Conforming

/-- The bitrate limiter is transparent to conforming traffic.  A loop that looks at
each message when it arrives takes all of them at once; where the worker keeps up,
no message drives out another one either. -/
theorem bitrate_transparent (undefinedSize : ℚ -> ℕ) (maxBitrate : ℚ) (limited : 0 < maxBitrate)
    (start : ℚ) (arrivals : List (ℚ × Message)) (after : ∀ arrival ∈ arrivals, start ≤ arrival.1)
    (conforming : Conforming (bytesPerSecond maxBitrate) (baseBucketCapacity maxBitrate)
      (demand arrivals)) :
    (∀ iterations, looks iterations = arrivals ->
      (sendFuncRun maxBitrate (initialBucket maxBitrate start) iterations).map
        LoopResult.message? = arrivals.map fun arrival => some arrival.2) ∧
    serveArrivals undefinedSize maxBitrate SendQueue.empty (initialBucket maxBitrate start) arrivals =
      arrivals.map fun arrival => ([], some arrival.2) := by
  have affords : (initialBucket maxBitrate start).Affords (bytesPerSecond maxBitrate)
      (demand arrivals) := by
    refine Bucket.affords_full (bytesPerSecond_pos limited).le conforming ?_
    intro entry member
    rcases List.mem_map.mp member with ⟨arrival, arrives, rfl⟩
    exact after arrival arrives
  refine ⟨?_, serveArrivals_affords undefinedSize affords conforming⟩
  rintro iterations rfl
  exact sendFuncRun_affords affords conforming

/-- Two messages that fill more than the bucket, a tenth of a second apart. -/
theorem bitrate_transparent_burst :
    serveArrivals (fun _ => 0) 8000 SendQueue.empty (initialBucket 8000 0)
        [(0, ⟨0, ⟨150, []⟩⟩), (1 / 10, ⟨1, ⟨100, []⟩⟩)] =
      [([], some ⟨0, ⟨150, []⟩⟩), ([], some ⟨1, ⟨100, []⟩⟩)] := by
  have rate : bytesPerSecond 8000 = 1000 := by decide +kernel
  have burst : baseBucketCapacity 8000 = 200 := by decide +kernel
  have conforming : Conforming (bytesPerSecond 8000) (baseBucketCapacity 8000)
      (demand [(0, ⟨0, ⟨150, []⟩⟩), (1 / 10, ⟨1, ⟨100, []⟩⟩)]) := by
    rw [rate, burst]
    intro window infix_ first isFirst last isLast
    simp only [demand, List.map_cons, List.map_nil, List.infix_cons_iff, List.prefix_cons_iff,
      List.prefix_nil, List.infix_nil] at infix_
    rcases infix_ with (rfl | ⟨_, rfl, rfl | ⟨_, rfl, rfl⟩⟩) | (rfl | ⟨_, rfl, rfl⟩) | rfl
    · cases isFirst
    · cases isFirst
      cases isLast
      norm_num [Message.dataLen]
    · cases isFirst
      cases isLast
      norm_num [Message.dataLen]
    · cases isFirst
    · cases isFirst
      cases isLast
      norm_num [Message.dataLen]
    · cases isFirst
  exact (bitrate_transparent _ 8000 (by norm_num) 0 _ (by decide +kernel) conforming).2

end SwarmBridge
