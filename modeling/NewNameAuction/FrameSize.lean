import NewNameAuction.SessionRecv

/-! The size of a received frame. The receiver accepts payloads of up to
`BUFFER_DEFAULT` bytes, but a packet of that size takes the five bytes of the
header as well and keeps its last byte free: a frame is handed on whole up to
1994 bytes of payload, and from 1996 on `Dequeue` writes past the buffer. -/
namespace NewNameAuction.FrameSize
open ByteMemory RingBuffer

/-- What `MoveWritePos` returns. -/
def moveWritePosReturn (p : Packet) (size : Int) : Int :=
  if size ≤ 0 then 0 else if Packet.endPos - p.writePos < size then -1 else size

/-- What `MoveReadPos` returns. -/
def moveReadPosReturn (p : Packet) (size : Int) : Int :=
  if size ≤ 0 then 0 else if p.writePos - p.readPos < size then -1 else size

/-- `mAlloc`, `addRef` and `ClearNetwork` of the receive branch. -/
def recvBuf (memory : PassMemory) : Packet := (memory.block.mAlloc.addRef 1).clearNetwork

/-- The packet `Dequeue` has written into. -/
def filled (memory : PassMemory) (bytes : Bytes) : Packet :=
  { recvBuf memory with buffer := store (recvBuf memory).buffer (recvBuf memory).writePos bytes }

/-- A frame of this payload at the front of the ring goes into its packet and is
handed to `OnRecv`. -/
structure Delivered (memory : PassMemory) (s : RecvSession) (leftByte : Nat) (payload : Bytes) : Prop where
  /-- `Dequeue` stays in the buffer. -/
  inside : let dequeued := s.recvQueue.dequeue (payload.length + networkHeaderSize)
    (recvBuf memory).writePos + dequeued.2.1.length ≤ bufferDefault
  wrote : let dequeued := s.recvQueue.dequeue (payload.length + networkHeaderSize)
    moveWritePosReturn (filled memory dequeued.2.1) dequeued.1 = dequeued.1
  read : let dequeued := s.recvQueue.dequeue (payload.length + networkHeaderSize)
    moveReadPosReturn ((filled memory dequeued.2.1).moveWritePos dequeued.1) networkHeaderSize =
      networkHeaderSize
  handed : ∃ s' left, recvPass memory ⟨s, leftByte⟩ = .again ⟨s', left⟩ ∧
    s'.received = s.received ++ [payload]

/-- The ring holds a frame with the network's code and this payload, and perhaps
more behind it. -/
structure Frame (r : RingBuffer) (header payload rest : Bytes) : Prop where
  stored : r.contents = header ++ payload ++ rest
  width : header.length = networkHeaderSize
  code : (Header.ofBytes header).code = networkCode
  len : (Header.ofBytes header).len = payload.length

section Pass
variable {memory : PassMemory} {s : RecvSession} {leftByte : Nat} {header payload rest : Bytes}

theorem peek_frame (bounds : s.recvQueue.InBounds) (frame : Frame s.recvQueue header payload rest) :
    peekHeader memory.code s.recvQueue = ⟨networkCode, payload.length⟩ := by
  have enough : networkHeaderSize ≤ s.recvQueue.contents.length := by
    rw [frame.stored, List.append_assoc, List.length_append, frame.width]
    exact Nat.le_add_right _ _
  have peeked := peek_spec bounds (show 0 < networkHeaderSize by decide) enough
  rw [frame.stored, List.append_assoc, List.take_left' frame.width] at peeked
  rw [peekHeader, peeked]
  dsimp only
  rw [if_pos rfl, ← frame.code, ← frame.len]

theorem dequeue_frame (bounds : s.recvQueue.InBounds) (frame : Frame s.recvQueue header payload rest) :
    ∃ ring, s.recvQueue.dequeue (payload.length + networkHeaderSize) =
      ((payload.length + networkHeaderSize : Int), header ++ payload, ring) := by
  have length : (header ++ payload).length = payload.length + networkHeaderSize := by
    rw [List.length_append, frame.width, Nat.add_comm]
  obtain ⟨ring, dequeued, _⟩ := dequeue_spec bounds
    (show 0 < payload.length + networkHeaderSize by simp only [networkHeaderSize]; omega)
    (by rw [frame.stored, List.length_append, length]; exact Nat.le_add_right _ _)
  rw [frame.stored, List.take_left' length] at dequeued
  exact ⟨ring, dequeued⟩

/-- The pass takes a frame that the length check lets through. -/
theorem pass_takes (memory : PassMemory) (bounds : s.recvQueue.InBounds) (frame : Frame s.recvQueue header payload rest)
    (checked : payload.length ≤ bufferDefault) (left : leftByte ≠ 0) :
    ∃ ring, recvPass memory ⟨s, leftByte⟩ = .again {
      session := { s with
        recvQueue := ring
        received := s.received ++ [(((filled memory (header ++ payload)).moveWritePos
          (payload.length + networkHeaderSize)).moveReadPos networkHeaderSize).readable] }
      leftByte := (leftByte + 2 ^ 32 - (payload.length + networkHeaderSize)) % 2 ^ 32 } := by
  obtain ⟨ring, dequeued⟩ := dequeue_frame bounds frame
  have use := use_size_eq_length bounds
  rw [frame.stored, List.length_append, List.length_append, frame.width] at use
  refine ⟨ring, ?_⟩
  simp only [recvPass, if_neg left, peek_frame bounds frame]
  rw [if_neg (by simp), if_neg (Nat.not_lt.mpr checked), if_neg (by omega), dequeued]
  dsimp only
  rw [if_neg (by simp only [networkHeaderSize]; omega), if_neg (by simp [Packet.decode])]
  rfl

/-- The last position of the buffer takes no byte. -/
theorem write_return (memory : PassMemory) (bytes : Bytes) (length : Nat) :
    moveWritePosReturn (filled memory bytes) (length + networkHeaderSize) =
      if length ≤ 1994 then (length + networkHeaderSize : Int) else -1 := by
  have start : (filled memory bytes).writePos = 0 := rfl
  simp only [moveWritePosReturn, Packet.endPos, start, bufferDefault, networkHeaderSize]
  split_ifs <;> omega

theorem read_return (memory : PassMemory) (bytes : Bytes) {length : Nat} (fits : length ≤ 1994) :
    moveReadPosReturn ((filled memory bytes).moveWritePos (length + networkHeaderSize))
      networkHeaderSize = networkHeaderSize := by
  have start : (filled memory bytes).writePos = 0 ∧ (filled memory bytes).readPos = 0 := ⟨rfl, rfl⟩
  have moved : ((filled memory bytes).moveWritePos (length + networkHeaderSize)).writePos =
      length + networkHeaderSize ∧
      ((filled memory bytes).moveWritePos (length + networkHeaderSize)).readPos = 0 := by
    rw [Packet.moveWritePos, if_neg (by simp only [networkHeaderSize]; omega), if_neg (by
      simp only [start, Packet.endPos, bufferDefault, networkHeaderSize]; omega)]
    exact ⟨by rw [start.1, Int.zero_add], start.2⟩
  rw [moveReadPosReturn, if_neg (by decide), if_neg (by
    rw [moved.1, moved.2]
    simp only [networkHeaderSize]
    omega)]

/-- A payload of at most 1994 bytes is delivered. -/
theorem delivered_of_fits (bounds : s.recvQueue.InBounds)
    (frame : Frame s.recvQueue header payload rest) (left : leftByte ≠ 0)
    (fits : payload.length ≤ 1994) : Delivered memory s leftByte payload := by
  obtain ⟨ring, dequeued⟩ := dequeue_frame bounds frame
  have checked : payload.length ≤ bufferDefault := Nat.le_trans fits (by decide)
  have length : (header ++ payload).length = payload.length + networkHeaderSize := by
    rw [List.length_append, frame.width, Nat.add_comm]
  refine ⟨?inside, ?wrote, ?read, ?handed⟩
  case inside =>
    rw [dequeued]
    dsimp only
    rw [length, show (recvBuf memory).writePos = 0 from rfl]
    simp only [networkHeaderSize, bufferDefault]
    omega
  case wrote =>
    rw [dequeued]
    dsimp only
    rw [write_return, if_pos fits]
  case read =>
    rw [dequeued]
    exact read_return memory _ fits
  case handed =>
    obtain ⟨ring, passed⟩ := pass_takes memory bounds frame checked left
    refine ⟨_, _, passed, ?_⟩
    dsimp only
    have readable := Packet.received_readable memory.block frame.width fits
    rw [length] at readable
    exact congrArg (fun bytes => s.received ++ [bytes]) readable

/-- `MoveWritePos` refuses a longer one. -/
theorem fits_of_delivered (bounds : s.recvQueue.InBounds)
    (frame : Frame s.recvQueue header payload rest) (delivered : Delivered memory s leftByte payload) :
    payload.length ≤ 1994 := by
  obtain ⟨ring, dequeued⟩ := dequeue_frame bounds frame
  have wrote := delivered.wrote
  rw [dequeued] at wrote
  dsimp only at wrote
  rw [write_return] at wrote
  split at wrote
  · assumption
  · simp only [networkHeaderSize] at wrote
    omega

/-- Of all frames, wherever they stand in the ring, those with at most 1994 bytes of
payload are delivered. -/
theorem frame_delivered_iff (bounds : s.recvQueue.InBounds)
    (frame : Frame s.recvQueue header payload rest) (left : leftByte ≠ 0) :
    Delivered memory s leftByte payload ↔ payload.length ≤ 1994 :=
  ⟨fits_of_delivered bounds frame, delivered_of_fits bounds frame left⟩

end Pass

/-! ## Frames at the limit -/

/-- The header of a frame with a payload of this length. -/
def frameHeader (length : Nat) : Bytes := [networkCode] ++ Packet.shortBytes length ++ [0, 0]

/-- Any bytes that fit can wait in a session's ring. -/
private theorem bytes_wait {bytes : Bytes} (positive : 0 < bytes.length) (room : bytes.length ≤ 80000) :
    ∃ s : RecvSession, s.recvQueue.InBounds ∧ s.recvQueue.contents = bytes := by
  obtain ⟨ring, _, bounds, _, _, contents⟩ := enqueue_spec
    (create_in_bounds (show (2 : Int) ≤ recvQueueSize by decide) fun _ => 0)
    (store (fun _ => 0) 0 bytes) positive
    (show (bytes.length : Int) ≤ (create recvQueueSize fun _ => 0).getFreeSize from
      Int.ofNat_le.mpr room)
  rw [load_store_same] at contents
  exact ⟨⟨ring, .normalState, []⟩, bounds, contents⟩

private theorem frame_waits {length : Nat} (checked : length ≤ bufferDefault) :
    ∃ s : RecvSession, s.recvQueue.InBounds ∧
      Frame s.recvQueue (frameHeader length) (List.replicate length 7) [] := by
  have total : (frameHeader length ++ List.replicate length 7).length = 5 + length := by
    rw [List.length_append, List.length_replicate]
    rfl
  simp only [bufferDefault] at checked
  obtain ⟨s, bounds, contents⟩ := @bytes_wait (frameHeader length ++ List.replicate length 7)
    (by omega) (by omega)
  refine ⟨s, bounds, by rw [contents, List.append_nil], rfl, rfl, ?_⟩
  rw [List.length_replicate]
  exact Message.short_bytes_value (by omega)

/-- Memory before the pass. -/
def freshMemory : PassMemory := ⟨0, ⟨fun _ => 0, 0, 0, 0, 0, false⟩⟩

/-- The longest payload that is delivered. -/
theorem frame_1994_delivered : ∃ s : RecvSession,
    Frame s.recvQueue (frameHeader 1994) (List.replicate 1994 7) [] ∧
      Delivered freshMemory s 1999 (List.replicate 1994 7) := by
  obtain ⟨s, bounds, frame⟩ := @frame_waits 1994 (by decide)
  refine ⟨s, frame, (frame_delivered_iff bounds frame (by decide)).mpr ?_⟩
  rw [List.length_replicate]

/-- Two bytes more pass the length check as well, and `Dequeue` writes a byte past the
buffer. -/
theorem frame_1996_overruns : ∃ s : RecvSession,
    Frame s.recvQueue (frameHeader 1996) (List.replicate 1996 7) [] ∧ 1996 ≤ bufferDefault ∧
      (s.recvQueue.dequeue (1996 + networkHeaderSize)).2.1.length = bufferDefault + 1 ∧
      ¬Delivered freshMemory s 2001 (List.replicate 1996 7) := by
  obtain ⟨s, bounds, frame⟩ := @frame_waits 1996 (by decide)
  refine ⟨s, frame, by decide, ?_, fun delivered => ?_⟩
  · obtain ⟨ring, dequeued⟩ := dequeue_frame bounds frame
    rw [List.length_replicate] at dequeued
    rw [show ((1996 : Int) + networkHeaderSize) = ((1996 : Nat) : Int) + networkHeaderSize from rfl,
      dequeued, List.length_append, frame.width, List.length_replicate]
    rfl
  · have fits := fits_of_delivered bounds frame delivered
    rw [List.length_replicate] at fits
    exact absurd fits (by decide)

end NewNameAuction.FrameSize
