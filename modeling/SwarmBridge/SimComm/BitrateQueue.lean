import SwarmBridge.SimComm.Messages
import SwarmBridge.Foundation.NearestEven
import SwarmBridge.Foundation.TokenBucket
import Mathlib.Data.Rat.Floor
import Mathlib.Algebra.Order.BigOperators.Group.List

namespace SwarmBridge

open Foundation

/-!
# The bounded bitrate queue and its token bucket

A send topic with a positive `max_bitrate` owns a queue of waiting messages, a
byte counter kept beside it, and a worker that dequeues at the pace of a token
bucket.  Times and token amounts are exact rationals.  The limit of the queue in bytes
is a product of `double`s, rounded as the program rounds it and cast to `size_t`;
`size_t` arithmetic on the byte counter wraps at `2 ^ 64` as in the program.
-/

/-- `BITRATE_QUEUE_WINDOW_SEC`. -/
def bitrateQueueWindowSec : ℚ := 1 / 5

/-- `MAX_BITRATE_QUEUE_MESSAGES`. -/
def maxBitrateQueueMessages : ℕ := 30

/-- The number of values of `size_t`. -/
def sizeModulus : ℕ := 2 ^ 64

def sizeAdd (left right : ℕ) : ℕ := (left + right) % sizeModulus

def sizeSub (left right : ℕ) : ℕ := (left + (sizeModulus - right % sizeModulus)) % sizeModulus

/-- One entry of `send_queues` together with its entry of `send_queue_bytes`. -/
structure SendQueue where
  messages : List Message
  bytes : ℕ
deriving DecidableEq, Repr

namespace SendQueue

def empty : SendQueue := ⟨[], 0⟩

end SendQueue

/-- `max_queue_bytes_from_time`, a quotient and a product of `double`s. -/
def maxQueueBytesFromTime (maxBitrate : ℚ) : ℚ :=
  binary64.nearest (binary64.nearest (maxBitrate / 8) * binary64.nearest bitrateQueueWindowSec)

/-- A `double` cast to `size_t`, which cuts off the fraction; without a value when the
result is out of range. -/
def toSize (value : ℚ) : Option ℕ :=
  if -1 < value ∧ value < sizeModulus then some ⌊value⌋.toNat else none

/-- `max_queue_bytes_from_time`, cast to `size_t`. -/
def queueWindowBytes (maxBitrate : ℚ) : Option ℕ := toSize (maxQueueBytesFromTime maxBitrate)

-- just below 120 bit/s the exact product is below 3, the rounded one is 3
example : queueWindowBytes (120 - 1 / 2 ^ 46) = some 3 := by decide +kernel

/-- The size that `enqueue_send_message` goes on with.  Nothing is known of it when the cast
has no value: `undefinedSize` gives it then. -/
def queueWindowSize (undefinedSize : ℚ -> ℕ) (maxBitrate : ℚ) : ℕ :=
  (queueWindowBytes maxBitrate).getD (undefinedSize maxBitrate)

/-- `max_queue_bytes` of `enqueue_send_message`. -/
def maxQueueBytes (undefinedSize : ℚ -> ℕ) (maxBitrate : ℚ) (dataLen : ℕ) : ℕ :=
  max (queueWindowSize undefinedSize maxBitrate) dataLen

/-- The eviction loop of `enqueue_send_message`: the messages it pops, oldest
first, and the queue it leaves. -/
def evictOldest (limit incoming : ℕ) : List Message -> ℕ -> List Message × SendQueue
  | [], bytes => ([], ⟨[], bytes⟩)
  | front :: rest, bytes =>
      if maxBitrateQueueMessages ≤ (front :: rest).length ∨ limit < sizeAdd bytes incoming then
        let result := evictOldest limit incoming rest (sizeSub bytes front.dataLen)
        (front :: result.1, result.2)
      else ([], ⟨front :: rest, bytes⟩)

/-- `enqueue_send_message`: make room, then append.  The first component lists
the evicted messages. -/
def enqueueSendMessage (undefinedSize : ℚ -> ℕ) (maxBitrate : ℚ) (message : Message)
    (queue : SendQueue) : List Message × SendQueue :=
  let room := evictOldest (maxQueueBytes undefinedSize maxBitrate message.dataLen) message.dataLen
    queue.messages queue.bytes
  (room.1, ⟨room.2.messages ++ [message], sizeAdd room.2.bytes message.dataLen⟩)

/-! ## The eviction loop splits the queue -/

theorem evictOldest_split (limit incoming : ℕ) (messages : List Message) (bytes : ℕ) :
    (evictOldest limit incoming messages bytes).1 ++
      (evictOldest limit incoming messages bytes).2.messages = messages := by
  induction messages generalizing bytes with
  | nil => rfl
  | cons front rest ih =>
      simp only [evictOldest]
      split
      · simp only [List.cons_append, ih]
      · rfl

/-- The evicted messages are a prefix of the old queue, and the message is appended
to what they leave. -/
theorem enqueueSendMessage_kept (undefinedSize : ℚ -> ℕ) (maxBitrate : ℚ) (message : Message)
    (queue : SendQueue) :
    ∃ kept, queue.messages = (enqueueSendMessage undefinedSize maxBitrate message queue).1 ++ kept ∧
      (enqueueSendMessage undefinedSize maxBitrate message queue).2.messages = kept ++ [message] :=
  ⟨_, (evictOldest_split _ message.dataLen queue.messages queue.bytes).symm, rfl⟩

/-! ## The byte counter -/

/-- The bytes of some messages. -/
def totalLen (messages : List Message) : ℕ := (messages.map Message.dataLen).sum

@[simp] theorem totalLen_nil : totalLen [] = 0 := rfl

@[simp] theorem totalLen_cons (message : Message) (messages : List Message) :
    totalLen (message :: messages) = message.dataLen + totalLen messages :=
  List.sum_cons

@[simp] theorem totalLen_append (front back : List Message) :
    totalLen (front ++ back) = totalLen front + totalLen back := by
  simp only [totalLen, List.map_append, List.sum_append]

theorem dataLen_le_totalLen {message : Message} {messages : List Message}
    (member : message ∈ messages) : message.dataLen ≤ totalLen messages :=
  List.le_sum_of_mem (List.mem_map_of_mem member)

namespace SendQueue

/-- The counter holds the bytes of the waiting messages, as far as `size_t` does. -/
def Counted (queue : SendQueue) : Prop := queue.bytes = totalLen queue.messages % sizeModulus

theorem counted_empty : empty.Counted := rfl

/-- Taking the front message out subtracts its bytes. -/
theorem counted_tail {front : Message} {rest : List Message} {bytes : ℕ}
    (counted : Counted ⟨front :: rest, bytes⟩) :
    Counted ⟨rest, sizeSub bytes front.dataLen⟩ := by
  simp only [Counted, totalLen_cons, sizeSub, sizeModulus] at counted ⊢
  omega

end SendQueue

theorem evictOldest_counted (limit incoming : ℕ) (messages : List Message) (bytes : ℕ)
    (counted : SendQueue.Counted ⟨messages, bytes⟩) :
    (evictOldest limit incoming messages bytes).2.Counted := by
  induction messages generalizing bytes with
  | nil => exact counted
  | cons front rest ih =>
      simp only [evictOldest]
      split
      · exact ih _ (SendQueue.counted_tail counted)
      · exact counted

/-- As long as the later messages leave room for a new one, the eviction loop takes none of
them. -/
theorem evictOldest_spares {limit incoming : ℕ} {later : List Message}
    (count : later.length < maxBitrateQueueMessages)
    (room : totalLen later + incoming ≤ limit) (backlog : List Message) (bytes : ℕ)
    (counted : SendQueue.Counted ⟨backlog ++ later, bytes⟩) :
    (evictOldest limit incoming (backlog ++ later) bytes).1 <+: backlog := by
  induction backlog generalizing bytes with
  | nil =>
      cases later with
      | nil => exact List.nil_prefix
      | cons front rest =>
          have counter : bytes = totalLen (front :: rest) % sizeModulus := counted
          have roomy : sizeAdd bytes incoming ≤ limit := by
            apply le_trans _ room
            rw [counter, sizeAdd, Nat.mod_add_mod]
            exact Nat.mod_le _ _
          have stays : ¬ (maxBitrateQueueMessages ≤ (front :: rest).length ∨
              limit < sizeAdd bytes incoming) := by
            rintro (full | late)
            · exact absurd count (not_lt.mpr full)
            · exact absurd roomy (not_le.mpr late)
          have nothing : (evictOldest limit incoming (front :: rest) bytes).1 = [] := by
            rw [evictOldest, if_neg stays]
          exact List.prefix_nil.mpr nothing
  | cons front rest ih =>
      simp only [List.cons_append, evictOldest]
      split
      · exact List.cons_prefix_cons.mpr ⟨rfl, ih _ (SendQueue.counted_tail counted)⟩
      · exact List.nil_prefix

theorem enqueueSendMessage_counted (undefinedSize : ℚ -> ℕ) (maxBitrate : ℚ) (message : Message)
    {queue : SendQueue} (counted : queue.Counted) :
    (enqueueSendMessage undefinedSize maxBitrate message queue).2.Counted := by
  have room := evictOldest_counted (maxQueueBytes undefinedSize maxBitrate message.dataLen)
    message.dataLen queue.messages queue.bytes counted
  simp only [SendQueue.Counted, enqueueSendMessage, sizeAdd, totalLen_append, totalLen_cons,
    totalLen_nil, sizeModulus] at room ⊢
  omega

/-- A new message drives out only what waits in front of messages that leave room for it. -/
theorem enqueueSendMessage_spares {undefinedSize : ℚ -> ℕ} {maxBitrate : ℚ} {message : Message}
    {queue : SendQueue} {backlog later : List Message} (counted : queue.Counted)
    (split : queue.messages = backlog ++ later)
    (count : later.length < maxBitrateQueueMessages)
    (bytes : totalLen later + message.dataLen ≤ queueWindowSize undefinedSize maxBitrate) :
    (enqueueSendMessage undefinedSize maxBitrate message queue).1 <+: backlog := by
  rw [enqueueSendMessage, split]
  exact evictOldest_spares count (bytes.trans (le_max_left _ _)) backlog queue.bytes
    (split ▸ counted)

/-! ## The token bucket of `send_func` -/

/-- `bytes_per_second` of `send_func`. -/
def bytesPerSecond (maxBitrate : ℚ) : ℚ := maxBitrate / 8

/-- `base_bucket_capacity` of `send_func`. -/
def baseBucketCapacity (maxBitrate : ℚ) : ℚ :=
  max 1 (bytesPerSecond maxBitrate * bitrateQueueWindowSec)

/-- The refill at the top of each iteration of the inner loop of `send_func`.
The capacity is the base capacity, or the length of the front message when that
is larger, so that an oversized message can still pass. -/
def refillTokens (maxBitrate now : ℚ) (frontDataLen : ℕ) (bucket : Bucket ℚ) : Bucket ℚ :=
  bucket.refill (bytesPerSecond maxBitrate)
    (max (baseBucketCapacity maxBitrate) frontDataLen) now

/-- The bucket with which `send_func` starts. -/
def initialBucket (maxBitrate now : ℚ) : Bucket ℚ := ⟨baseBucketCapacity maxBitrate, now⟩

end SwarmBridge
