import SwarmBridge.SimComm.BitrateQueue
import SwarmBridge.Foundation.LongestSuffix
import SwarmBridge.Foundation.Machine

namespace SwarmBridge

open Foundation

/-!
# Runs of one bitrate queue

The queue of a topic changes in two ways only: `enqueue_send_message` evicts and
appends, and `send_func` takes the front message out.  Here a run of one queue is
any sequence of the two, with everything that went in and came out.

As long as the limit and the messages are shorter than half the range of `size_t`,
the byte counter is exact and the eviction loop leaves the longest suffix of the
queue that has room for the new message.
-/

/-- The queue of one topic, the messages that were enqueued, and the messages that
were evicted or dequeued. -/
structure QueueState where
  queue : SendQueue
  enqueued : List Message
  removed : List Message
deriving DecidableEq

inductive QueueAction
  | enqueue (message : Message)
  | dequeue
deriving DecidableEq

/-- One call of `enqueue_send_message`, or one message taken by `send_func`. -/
def queueStep (undefinedSize : ℚ -> ℕ) (maxBitrate : ℚ) (s : QueueState) :
    QueueAction -> Option QueueState
  | .enqueue message =>
      let result := enqueueSendMessage undefinedSize maxBitrate message s.queue
      some ⟨result.2, s.enqueued ++ [message], s.removed ++ result.1⟩
  | .dequeue =>
      match s.queue.messages with
      | front :: rest =>
          some ⟨⟨rest, sizeSub s.queue.bytes front.dataLen⟩, s.enqueued, s.removed ++ [front]⟩
      | [] => none

/-- One bitrate queue, empty at first. -/
def bitrateQueue (undefinedSize : ℚ -> ℕ) (maxBitrate : ℚ) : Machine QueueState QueueAction where
  init := fun s => s = ⟨SendQueue.empty, [], []⟩
  step := queueStep undefinedSize maxBitrate

/-- Lengths below half the range of `size_t`. -/
def shortLen : ℕ := 2 ^ 63

/-- The messages that are enqueued are short. -/
def EnqueuesShort (_ : QueueState) : QueueAction -> Prop
  | .enqueue message => message.dataLen < shortLen
  | .dequeue => True

instance (s : QueueState) : (action : QueueAction) -> Decidable (EnqueuesShort s action)
  | .enqueue message => inferInstanceAs (Decidable (message.dataLen < shortLen))
  | .dequeue => inferInstanceAs (Decidable True)

/-! ## What an enqueue keeps -/

/-- A part of the queue with room for a message of `incoming` bytes: nothing, or less
than the maximum of messages and, with the new one, no more than `limit` bytes. -/
def Roomy (limit incoming : ℕ) (kept : List Message) : Prop :=
  kept = [] ∨ kept.length < maxBitrateQueueMessages ∧ totalLen kept + incoming ≤ limit

instance (limit incoming : ℕ) : DecidablePred (Roomy limit incoming) := fun _ =>
  inferInstanceAs (Decidable (_ ∨ _ ∧ _))

/-- What an enqueue is to keep of the queue. -/
def keptMessages (undefinedSize : ℚ -> ℕ) (maxBitrate : ℚ) (message : Message)
    (messages : List Message) : List Message :=
  longestSuffix (Roomy (maxQueueBytes undefinedSize maxBitrate message.dataLen) message.dataLen)
    messages

/-- The subtractions from the byte counter in the eviction loop: the counter and the
length that is subtracted. -/
def evictionSubtractions (limit incoming : ℕ) : List Message -> ℕ -> List (ℕ × ℕ)
  | [], _ => []
  | front :: rest, bytes =>
      if maxBitrateQueueMessages ≤ (front :: rest).length ∨ limit < sizeAdd bytes incoming then
        (bytes, front.dataLen) ::
          evictionSubtractions limit incoming rest (sizeSub bytes front.dataLen)
      else []

/-- These are the lengths of the evicted messages, taken off the counter one after
the other. -/
theorem evictionSubtractions_eq (limit incoming : ℕ) (messages : List Message) (bytes : ℕ) :
    (evictionSubtractions limit incoming messages bytes).map Prod.snd =
        (evictOldest limit incoming messages bytes).1.map Message.dataLen ∧
      ((evictionSubtractions limit incoming messages bytes).map Prod.snd).foldl sizeSub bytes =
        (evictOldest limit incoming messages bytes).2.bytes := by
  induction messages generalizing bytes with
  | nil => exact ⟨rfl, rfl⟩
  | cons front rest ih =>
      unfold evictionSubtractions evictOldest
      split_ifs with evicts
      · exact ⟨congrArg _ (ih _).1, (ih _).2⟩
      · exact ⟨rfl, rfl⟩

section Exact

variable {limit incoming : ℕ}

theorem sizeAdd_exact {left right : ℕ} (small : left + right < sizeModulus) :
    sizeAdd left right = left + right := Nat.mod_eq_of_lt small

/-- The counter without its front message. -/
theorem sizeSub_front {front : Message} {rest : List Message}
    (small : totalLen (front :: rest) < sizeModulus) :
    sizeSub (totalLen (front :: rest)) front.dataLen = totalLen rest := by
  simp only [totalLen_cons, sizeSub, sizeModulus] at small ⊢
  omega

/-- The loop goes on while the queue has no room. -/
theorem evicts_iff {front : Message} {rest : List Message}
    (small : totalLen (front :: rest) + incoming < sizeModulus) :
    (maxBitrateQueueMessages ≤ (front :: rest).length ∨
      limit < sizeAdd (totalLen (front :: rest)) incoming) ↔
      ¬ Roomy limit incoming (front :: rest) := by
  rw [sizeAdd_exact small, Roomy]
  constructor
  · rintro (full | late) (empty | ⟨few, room⟩)
    · cases empty
    · exact absurd few (not_lt.mpr full)
    · cases empty
    · exact absurd room (not_le.mpr late)
  · intro tight
    by_contra both
    push Not at both
    exact tight (.inr ⟨both.1, both.2⟩)

/-- The eviction loop leaves the longest roomy suffix, with an exact counter. -/
theorem evictOldest_eq (messages : List Message)
    (small : totalLen messages + incoming < sizeModulus) :
    (evictOldest limit incoming messages (totalLen messages)).2 =
      ⟨longestSuffix (Roomy limit incoming) messages,
        totalLen (longestSuffix (Roomy limit incoming) messages)⟩ := by
  induction messages with
  | nil => rfl
  | cons front rest ih =>
      have smaller : totalLen rest + incoming < sizeModulus := by
        rw [totalLen_cons] at small
        omega
      rw [evictOldest, longestSuffix]
      by_cases room : Roomy limit incoming (front :: rest)
      · rw [if_neg fun evicts => (evicts_iff small).mp evicts room, if_pos room]
      · rw [if_pos ((evicts_iff small).mpr room), if_neg room,
          sizeSub_front (lt_of_le_of_lt (Nat.le_add_right _ _) small)]
        exact ih smaller

/-- No subtraction of the loop wraps. -/
theorem evictionSubtractions_le (messages : List Message)
    (small : totalLen messages + incoming < sizeModulus) :
    ∀ pair ∈ evictionSubtractions limit incoming messages (totalLen messages),
      pair.2 ≤ pair.1 := by
  induction messages with
  | nil =>
      intro pair member
      cases member
  | cons front rest ih =>
      have smaller : totalLen rest + incoming < sizeModulus := by
        rw [totalLen_cons] at small
        omega
      intro pair member
      rw [evictionSubtractions] at member
      split_ifs at member with evicts
      · rw [sizeSub_front (lt_of_le_of_lt (Nat.le_add_right _ _) small)] at member
        rcases List.mem_cons.mp member with rfl | later
        · rw [totalLen_cons]
          exact Nat.le_add_right _ _
        · exact ih smaller pair later
      · cases member

end Exact

/-! ## The invariant of a queue -/

theorem totalLen_suffix {kept messages : List Message} (suffix : kept <:+ messages) :
    totalLen kept ≤ totalLen messages := by
  rcases suffix with ⟨dropped, rfl⟩
  rw [totalLen_append]
  exact Nat.le_add_left _ _

/-- The length of the longest message. -/
def longestLen (messages : List Message) : ℕ := (messages.map Message.dataLen).foldr max 0

theorem dataLen_le_longestLen {message : Message} {messages : List Message}
    (member : message ∈ messages) : message.dataLen ≤ longestLen messages := by
  induction messages with
  | nil => cases member
  | cons first rest ih =>
      rcases List.mem_cons.mp member with rfl | later
      · exact le_max_left _ _
      · exact (ih later).trans (le_max_right _ _)

/-- What holds of a queue between two operations. -/
structure QueueSound (undefinedSize : ℚ -> ℕ) (maxBitrate : ℚ) (s : QueueState) : Prop where
  counted : s.queue.bytes = totalLen s.queue.messages
  short : ∀ message ∈ s.queue.messages, message.dataLen < shortLen
  few : s.queue.messages.length ≤ maxBitrateQueueMessages
  bounded : s.queue.bytes ≤
    max (queueWindowSize undefinedSize maxBitrate) (longestLen s.queue.messages)
  ordered : s.removed ++ s.queue.messages = s.enqueued

namespace QueueSound

variable {undefinedSize : ℚ -> ℕ} {maxBitrate : ℚ} {s t : QueueState} {message : Message}

theorem initial : QueueSound undefinedSize maxBitrate ⟨SendQueue.empty, [], []⟩ where
  counted := rfl
  short := fun _ member => by cases member
  few := Nat.zero_le _
  bounded := Nat.zero_le _
  ordered := rfl

/-- With a short message more, the counter stays in its range. -/
theorem small (sound : QueueSound undefinedSize maxBitrate s)
    (window : queueWindowSize undefinedSize maxBitrate < shortLen) (short : message.dataLen < shortLen) :
    totalLen s.queue.messages + message.dataLen < sizeModulus := by
  have longest : longestLen s.queue.messages < shortLen := by
    have each := sound.short
    generalize s.queue.messages = messages at each
    induction messages with
    | nil => exact (by decide : 0 < shortLen)
    | cons first rest ih =>
        refine max_lt (each first List.mem_cons_self) (ih fun message member => ?_)
        exact each message (List.mem_cons_of_mem first member)
  have bytes : totalLen s.queue.messages < shortLen := by
    rw [← sound.counted]
    exact lt_of_le_of_lt sound.bounded (max_lt window longest)
  unfold shortLen at bytes short
  unfold sizeModulus
  omega

/-- What an enqueue does to a sound queue. -/
theorem enqueue_eq (sound : QueueSound undefinedSize maxBitrate s)
    (window : queueWindowSize undefinedSize maxBitrate < shortLen) (short : message.dataLen < shortLen) :
    (enqueueSendMessage undefinedSize maxBitrate message s.queue).2 =
      ⟨keptMessages undefinedSize maxBitrate message s.queue.messages ++ [message],
        totalLen (keptMessages undefinedSize maxBitrate message s.queue.messages) +
          message.dataLen⟩ := by
  have small := sound.small window short
  have shorter : totalLen (keptMessages undefinedSize maxBitrate message s.queue.messages) ≤
      totalLen s.queue.messages := totalLen_suffix (longestSuffix_suffix _)
  have room : (evictOldest (maxQueueBytes undefinedSize maxBitrate message.dataLen) message.dataLen
      s.queue.messages s.queue.bytes).2 =
      ⟨keptMessages undefinedSize maxBitrate message s.queue.messages,
        totalLen (keptMessages undefinedSize maxBitrate message s.queue.messages)⟩ := by
    rw [sound.counted]
    exact evictOldest_eq s.queue.messages small
  simp only [enqueueSendMessage, room]
  rw [sizeAdd_exact (by omega)]

theorem enqueue (sound : QueueSound undefinedSize maxBitrate s)
    (window : queueWindowSize undefinedSize maxBitrate < shortLen) (short : message.dataLen < shortLen)
    (stepped : queueStep undefinedSize maxBitrate s (.enqueue message) = some t) :
    QueueSound undefinedSize maxBitrate t := by
  have split := evictOldest_split (maxQueueBytes undefinedSize maxBitrate message.dataLen)
    message.dataLen s.queue.messages s.queue.bytes
  have kept := sound.enqueue_eq window short
  have roomy : Roomy (maxQueueBytes undefinedSize maxBitrate message.dataLen) message.dataLen
      (keptMessages undefinedSize maxBitrate message s.queue.messages) :=
    longestSuffix_holds (.inl rfl) _
  have suffix : keptMessages undefinedSize maxBitrate message s.queue.messages <:+ s.queue.messages :=
    longestSuffix_suffix _
  simp only [queueStep, Option.some.injEq] at stepped
  subst stepped
  constructor
  · simp [kept]
  · intro other member
    rw [kept] at member
    rcases List.mem_append.mp member with old | new
    · exact sound.short other (suffix.subset old)
    · rw [List.mem_singleton.mp new]
      exact short
  · rw [kept, List.length_append, List.length_singleton]
    rcases roomy with empty | ⟨few, _⟩
    · rw [empty]
      decide
    · exact few
  · have longest : message.dataLen ≤
        longestLen (keptMessages undefinedSize maxBitrate message s.queue.messages ++ [message]) :=
      dataLen_le_longestLen (List.mem_append_right _ (List.mem_singleton_self message))
    rw [kept]
    rcases roomy with empty | ⟨_, room⟩
    · rw [empty, totalLen_nil, Nat.zero_add]
      rw [empty] at longest
      exact longest.trans (le_max_right _ _)
    · exact room.trans (max_le_max le_rfl longest)
  · dsimp only
    rw [← sound.ordered, ← split]
    simp only [enqueueSendMessage, List.append_assoc]

/-- Taking the front message out of a sound queue. -/
theorem dequeue (sound : QueueSound undefinedSize maxBitrate s)
    (window : queueWindowSize undefinedSize maxBitrate < shortLen)
    (stepped : queueStep undefinedSize maxBitrate s .dequeue = some t) :
    QueueSound undefinedSize maxBitrate t := by
  unfold queueStep at stepped
  cases waiting : s.queue.messages with
  | nil => rw [waiting] at stepped; cases stepped
  | cons front rest =>
      have member : front ∈ s.queue.messages := by rw [waiting]; exact List.mem_cons_self
      have small := sound.small window (sound.short front member)
      have bytes := sound.counted
      have bounded := sound.bounded
      rw [waiting] at stepped small bytes
      cases stepped
      have exact_ : sizeSub s.queue.bytes front.dataLen = totalLen rest := by
        rw [bytes]
        exact sizeSub_front (lt_of_le_of_lt (Nat.le_add_right _ _) small)
      constructor
      · exact exact_
      · intro other later
        exact sound.short other (by rw [waiting]; exact List.mem_cons_of_mem front later)
      · have few := sound.few
        rw [waiting, List.length_cons] at few
        exact Nat.le_of_succ_le few
      · -- if the front message was longer than all limits, it was alone but for empty messages
        rw [bytes, totalLen_cons, waiting] at bounded
        have longest : longestLen (front :: rest) = max front.dataLen (longestLen rest) := rfl
        dsimp only
        rw [exact_]
        omega
      · have ordered := sound.ordered
        rw [waiting] at ordered
        simpa using ordered

theorem of_reaches (window : queueWindowSize undefinedSize maxBitrate < shortLen)
    (run : (bitrateQueue undefinedSize maxBitrate).Reaches EnqueuesShort s) :
    QueueSound undefinedSize maxBitrate s := by
  refine run.invariant (P := QueueSound undefinedSize maxBitrate) ?_ ?_
  · rintro s rfl
    exact initial
  · intro s action t _ sound short stepped
    cases action with
    | enqueue message => exact sound.enqueue window short stepped
    | dequeue => exact sound.dequeue window stepped

end QueueSound

end SwarmBridge
