import SwarmBridge.SimComm.Sections

namespace SwarmBridge

open Foundation

/-!
# The inner loop of `send_func`

One iteration of the inner loop reads the clock, refills the tokens for the front
message, and takes that message or waits.  Between two iterations other threads may
append to the queue or evict from it, so a run of the loop is a sequence of queues,
each with the time at which the loop looks at it.
-/

/-- The longest wait between two iterations. -/
def maxTokenWaitSec : ℚ := 1 / 50

/-- The argument of `wait_for`, which is `wait_seconds` cut to 20 ms. -/
def waitSeconds (maxBitrate : ℚ) (frontDataLen : ℕ) (bucket : Bucket ℚ) : ℚ :=
  min (((frontDataLen : ℚ) - bucket.available) / bytesPerSecond maxBitrate) maxTokenWaitSec

/-- How an iteration ends. -/
inductive LoopResult
  /-- The front message is taken out of the queue. -/
  | took (message : Message) (queue : SendQueue) (bucket : Bucket ℚ)
  /-- The loop waits for this long. -/
  | waits (seconds : ℚ) (bucket : Bucket ℚ)
deriving DecidableEq

namespace LoopResult

def bucket : LoopResult -> Bucket ℚ
  | .took _ _ bucket => bucket
  | .waits _ bucket => bucket

def message? : LoopResult -> Option Message
  | .took message _ _ => some message
  | .waits _ _ => none

def takes (result : LoopResult) : Bool := result.message?.isSome

end LoopResult

/-- What an iteration looks at. -/
structure Iteration where
  now : ℚ
  front : Message
  rest : List Message
  bytes : ℕ
deriving DecidableEq

/-- One iteration of the inner loop. -/
def sendFuncLoop (maxBitrate : ℚ) (bucket : Bucket ℚ) (iteration : Iteration) : LoopResult :=
  let bucket := refillTokens maxBitrate iteration.now iteration.front.dataLen bucket
  if (iteration.front.dataLen : ℚ) ≤ bucket.available then
    .took iteration.front
      ⟨iteration.rest, sizeSub iteration.bytes iteration.front.dataLen⟩
      (bucket.spend iteration.front.dataLen)
  else .waits (waitSeconds maxBitrate iteration.front.dataLen bucket) bucket

/-- Several iterations, each with the tokens that the one before it left. -/
def sendFuncRun (maxBitrate : ℚ) : Bucket ℚ -> List Iteration -> List LoopResult
  | _, [] => []
  | bucket, iteration :: later =>
      let result := sendFuncLoop maxBitrate bucket iteration
      result :: sendFuncRun maxBitrate result.bucket later

/-- Every wait lasts at least as long as it was asked to, until a message is taken. -/
def WaitsOut (maxBitrate : ℚ) : Bucket ℚ -> List Iteration -> Prop
  | _, [] => True
  | bucket, iteration :: later =>
      bucket.refilled + waitSeconds maxBitrate iteration.front.dataLen bucket ≤ iteration.now ∧
        match sendFuncLoop maxBitrate bucket iteration with
        | .took _ _ _ => True
        | .waits _ bucket => WaitsOut maxBitrate bucket later

instance decidableWaitsOut (maxBitrate : ℚ) :
    (bucket : Bucket ℚ) -> (iterations : List Iteration) ->
      Decidable (WaitsOut maxBitrate bucket iterations)
  | _, [] => .isTrue trivial
  | bucket, iteration :: later =>
      have : Decidable (match sendFuncLoop maxBitrate bucket iteration with
          | .took _ _ _ => True
          | .waits _ bucket => WaitsOut maxBitrate bucket later) :=
        match sendFuncLoop maxBitrate bucket iteration with
        | .took _ _ _ => .isTrue trivial
        | .waits _ bucket => decidableWaitsOut maxBitrate bucket later
      inferInstanceAs (Decidable (_ ∧ _))

namespace NodeState

/-- What the worker of a topic does with the result of an iteration. -/
def afterLoop (topic : ℕ) (s : NodeState) : LoopResult -> NodeState
  | .took message queue bucket =>
      ({ s with
          buckets := Function.update s.buckets topic bucket
          sendQueues := Function.update s.sendQueues topic queue }.record
        (.dequeued topic message)).move (.worker topic) (.entry (.pump message))
  | .waits _ bucket => { s with buckets := Function.update s.buckets topic bucket }

/-- The worker of a node runs this loop. -/
theorem sendFuncIteration_eq (cfg : BridgeConfig) (s : NodeState) (topic : ℕ) (front : Message)
    (rest : List Message) : s.sendFuncIteration cfg topic front rest =
      s.afterLoop topic (sendFuncLoop (cfg.topic (.send topic)).maxBitrate (s.buckets topic)
        ⟨s.now, front, rest, (s.sendQueues topic).bytes⟩) := by
  unfold sendFuncIteration sendFuncLoop
  dsimp only
  split_ifs <;> rfl

end NodeState

end SwarmBridge
