import SwarmBridge.Foundation.BigEndian
import SwarmBridge.SimComm.Messages

namespace SwarmBridge

open Foundation

/-!
# Messages on the wire

`send_serialized_message` writes two frames, the length of the payload as a
`size_t` and the payload.  `recv_func` reads the length from the first frame and
copies that many bytes out of the second one.  It does not look at the length of
the second frame, so a peer that announces more than it sends makes it read past
the end of the frame, and a peer that announces less loses the rest.
-/

/-- The bytes of one part of a multipart message. -/
abbrev Frame := List UInt8

/-- What `recv_func` meets outside of the program: how `zmqpp` reads a `size_t` from a
frame that has not eight bytes (`none` for an exception), for which lengths
`std::vector::resize` finds the memory, and what lies in memory behind a frame. -/
structure WireEnvironment where
  readOther : Frame -> Option ℕ
  resizes : ℕ -> Bool
  beyond : Frame -> ℕ -> UInt8

namespace WireEnvironment

/-- `message << size`: one frame of eight bytes. -/
def appendSize (size : ℕ) : Frame := toBigEndian 8 size

variable (env : WireEnvironment)

/-- `message >> size` on the next frame. -/
def readSize (frame : Frame) : Option ℕ :=
  if frame.length = 8 then some (ofBigEndian frame) else env.readOther frame

/-- `memcpy` of `size` bytes from the beginning of a frame, wherever it ends. -/
def memcpy (frame : Frame) (size : ℕ) : List UInt8 :=
  (List.range size).map fun index => (frame[index]?).getD (env.beyond frame index)

end WireEnvironment

/-- The frames that `send_serialized_message` writes for a message with
`data_len = data.size()`. -/
def sendSerializedMessage (message : SimCommMessage) : List Frame :=
  [WireEnvironment.appendSize message.dataLen, message.data.take message.dataLen]

/-- What `recv_func` does with a multipart message: an exception, or a call of
`dispatch_received_message`, with the indices of the body frame that it has read. -/
inductive Decoding
  | rejected
  | dispatched (message : SimCommMessage) (reads : List ℕ)
deriving DecidableEq, Repr

/-- The decoding part of `recv_func`: unpack the length, resize the buffer, copy from
the next frame.  `>>` and `raw_data` raise an exception when their frame is missing. -/
def recvFunc (env : WireEnvironment) : List Frame -> Decoding
  | [] => .rejected
  | header :: rest =>
      match env.readSize header with
      | none => .rejected
      | some dataLen =>
          if env.resizes dataLen then
            match rest with
            | [] => .rejected
            | body :: _ => .dispatched ⟨dataLen, env.memcpy body dataLen⟩ (List.range dataLen)
          else .rejected

/-- The second frame is the payload of the dispatched message, byte for byte, and no
byte behind it is read. -/
structure FaithfulTo (body : Frame) (message : SimCommMessage) (reads : List ℕ) : Prop where
  length : message.dataLen = body.length
  data : message.data = body
  inside : ∀ index ∈ reads, index < body.length

/-- The multipart message is rejected or decoded to its second frame. -/
def DecodesSafely (env : WireEnvironment) (frames : List Frame) : Prop :=
  ∀ message reads, recvFunc env frames = .dispatched message reads ->
    ∃ body, frames[1]? = some body ∧ FaithfulTo body message reads

/-- The announced length, when it can be read and allocated, is that of the body. -/
def LengthAgrees (env : WireEnvironment) (frames : List Frame) : Prop :=
  ∀ header body rest dataLen, frames = header :: body :: rest ->
    env.readSize header = some dataLen -> env.resizes dataLen = true -> dataLen = body.length

namespace WireEnvironment

variable (env : WireEnvironment)

/-- Copying a whole frame gives the frame. -/
theorem memcpy_length (frame : Frame) : env.memcpy frame frame.length = frame := by
  apply List.ext_getElem
  · simp [memcpy]
  · intro index _ inside
    simp [memcpy, inside]

theorem readSize_appendSize (size : ℕ) (fits : size < 2 ^ 64) :
    env.readSize (appendSize size) = some size := by
  have fits : size < 256 ^ 8 := fits
  simp only [readSize, appendSize, length_toBigEndian, if_true,
    ofBigEndian_toBigEndian 8 size fits]

end WireEnvironment

/-- Two readable frames are dispatched. -/
theorem recvFunc_two {env : WireEnvironment} {header body : Frame} {rest : List Frame}
    {dataLen : ℕ} (readable : env.readSize header = some dataLen)
    (allocated : env.resizes dataLen = true) :
    recvFunc env (header :: body :: rest) =
      .dispatched ⟨dataLen, env.memcpy body dataLen⟩ (List.range dataLen) := by
  simp only [recvFunc, readable, allocated, if_true]

/-- Only two readable frames are dispatched. -/
theorem of_dispatched {env : WireEnvironment} {frames : List Frame} {message : SimCommMessage}
    {reads : List ℕ} (dispatched : recvFunc env frames = .dispatched message reads) :
    ∃ header body rest dataLen, frames = header :: body :: rest ∧
      env.readSize header = some dataLen ∧ env.resizes dataLen = true ∧
      message = ⟨dataLen, env.memcpy body dataLen⟩ ∧ reads = List.range dataLen := by
  cases frames with
  | nil => cases dispatched
  | cons header rest =>
      cases readable : env.readSize header with
      | none => simp [recvFunc, readable] at dispatched
      | some dataLen =>
          by_cases allocated : env.resizes dataLen = true
          · cases rest with
            | nil => simp [recvFunc, readable] at dispatched
            | cons body rest =>
                rw [recvFunc_two readable allocated] at dispatched
                cases dispatched
                exact ⟨header, body, rest, dataLen, rfl, readable, allocated, rfl, rfl⟩
          · simp [recvFunc, readable, allocated] at dispatched

/-- A multipart message is decoded safely exactly when the length it announces agrees
with its body, and what `send_serialized_message` writes is decoded to itself. -/
theorem decodes_safely_iff (env : WireEnvironment) :
    (∀ frames, DecodesSafely env frames ↔ LengthAgrees env frames) ∧
      ∀ message : SimCommMessage, message.dataLen = message.data.length ->
        message.dataLen < 2 ^ 64 -> env.resizes message.dataLen = true ->
        recvFunc env (sendSerializedMessage message) =
          .dispatched message (List.range message.dataLen) := by
  constructor
  · intro frames
    constructor
    · rintro safe header body rest dataLen rfl readable allocated
      rcases safe _ _ (recvFunc_two readable allocated) with ⟨same, second, faithful⟩
      have isBody : body = same := Option.some.inj second
      rw [isBody]
      exact faithful.length
    · intro agrees message reads dispatched
      rcases of_dispatched dispatched with
        ⟨header, body, rest, dataLen, rfl, readable, allocated, rfl, rfl⟩
      have same := agrees header body rest dataLen rfl readable allocated
      subst same
      refine ⟨body, rfl, rfl, env.memcpy_length body, ?_⟩
      exact fun index member => List.mem_range.mp member
  · intro message whole fits allocated
    have body : message.data.take message.dataLen = message.data := by
      rw [whole, List.take_length]
    rw [sendSerializedMessage, body, recvFunc_two (env.readSize_appendSize _ fits) allocated]
    rw [whole, env.memcpy_length, ← whole]

/-- Memory for everything, no exception, and zeros behind every frame. -/
def plainEnvironment : WireEnvironment where
  readOther := fun frame => some (ofBigEndian frame)
  resizes := fun _ => true
  beyond := fun _ _ => 0

/-- A peer announces two bytes and sends one: the second byte is read behind the frame. -/
theorem decodes_unsafely :
    ¬ ∀ (env : WireEnvironment) (frames : List Frame), DecodesSafely env frames := by
  intro claim
  have decoded : recvFunc plainEnvironment [WireEnvironment.appendSize 2, [7]] =
      .dispatched ⟨2, [7, 0]⟩ [0, 1] := by decide +kernel
  rcases claim _ _ _ _ decoded with ⟨body, second, faithful⟩
  have isBody : [7] = body := Option.some.inj second
  subst isBody
  cases faithful.length

/-- A message of three bytes survives the way over the wire. -/
theorem decodes_safely_three :
    recvFunc plainEnvironment (sendSerializedMessage ⟨3, [1, 2, 3]⟩) =
      .dispatched ⟨3, [1, 2, 3]⟩ [0, 1, 2] :=
  (decodes_safely_iff plainEnvironment).2 ⟨3, [1, 2, 3]⟩ rfl (by decide) rfl

end SwarmBridge
