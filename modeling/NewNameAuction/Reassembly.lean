import NewNameAuction.SessionRecv

/-! Stream reassembly: what the receive branch makes of a byte stream that is
cut into chunks. A chunk's bytes join the ring's queue whatever the ring's
position; the loop then takes whole frames off its front. The counter
`leftByte`, set from the chunk alone, agrees with the backlog exactly when the
cut fell between two frames. The messages have at most 1994 bytes of payload, so that
the blocks of their packets hold them. -/
namespace NewNameAuction.Reassembly
open ByteMemory

/-- The bytes that wait in a well-formed session ring. -/
def Waiting (r : RingBuffer) (bytes : Bytes) : Prop :=
  r.InBounds ∧ r.contents = bytes ∧ r.size = recvQueueSize

/-- The stream a list of messages makes. -/
def wire (msgs : List Message) : Bytes := (msgs.map Message.frame).flatten

/-! ## Arrival -/

section Arrival
variable {r : RingBuffer} {chunk : Bytes}

/-- A chunk that fits joins the end of the queue. -/
theorem arrival_appends {bytes : Bytes} {posted : WsaBuf × WsaBuf} {step : DisconnectStep}
    {received : List Bytes} (waiting : Waiting r bytes) (positive : 0 < chunk.length)
    (fits : chunk.length ≤ r.getFreeSize) (post : recvPost ⟨r, step, received⟩ = some posted) :
    Waiting ((r.fill posted chunk).moveRear chunk.length) (bytes ++ chunk) := by
  obtain ⟨bounds, rfl, sized⟩ := waiting
  have filled : r.fill posted chunk = { r with mem := r.appended chunk } := by
    simp only [recvPost] at post
    split at post
    · cases post
    · rw [← Option.some.inj post]
      rfl
  obtain ⟨moved, size, _, contents⟩ := RingBuffer.append_spec bounds positive fits
  rw [filled]
  exact ⟨moved, contents, size.trans sized⟩

end Arrival

/-! ## One pass of the loop -/

section Pass
variable {s : RecvSession} {memory : PassMemory} {bytes tail : Bytes}

/-- With five bytes waiting the local header is theirs; with fewer its `code`
is whatever the stack held. -/
private theorem peek_header_waiting (waiting : Waiting s.recvQueue bytes) :
    peekHeader memory.code s.recvQueue =
      if networkHeaderSize ≤ bytes.length then Header.ofBytes (bytes.take networkHeaderSize)
      else ⟨memory.code, 0⟩ := by
  obtain ⟨bounds, rfl, _⟩ := waiting
  by_cases enough : networkHeaderSize ≤ s.recvQueue.contents.length
  · have peeked := RingBuffer.peek_spec bounds (show 0 < networkHeaderSize by decide) enough
    simp only [peekHeader, peeked, ↓reduceIte, enough]
  · have use := RingBuffer.use_size_eq_length bounds
    have refused : s.recvQueue.peek networkHeaderSize = (-1, []) := by
      rw [RingBuffer.peek, if_pos (by omega)]
    rw [if_neg enough, peekHeader, refused]
    rfl

private theorem of_bytes_take (bytes : Bytes) :
    Header.ofBytes (bytes.take networkHeaderSize) = Header.ofBytes bytes := by
  simp [Header.ofBytes, networkHeaderSize, List.getD_eq_getElem?_getD]

/-- The header of a message's frame, read from a stream that the frame starts. -/
private theorem of_bytes_frame (m : Message) {rest : Bytes}
    (starts : bytes ++ tail = m.frame ++ rest) (enough : networkHeaderSize ≤ bytes.length) :
    Header.ofBytes bytes = ⟨networkCode, m.payload.length⟩ := by
  obtain ⟨header, width, spelling, fields⟩ := m.frame_split
  have front : bytes.take networkHeaderSize = header := by
    have taken := congrArg (List.take networkHeaderSize) starts
    rwa [List.take_append_of_le_length enough, spelling, List.append_assoc, ← width,
      List.take_left, width] at taken
  rw [← of_bytes_take, front, fields]

/-- Fewer bytes than a header: the pass ends, and with a foreign `code` on the
stack it disconnects the session. -/
private theorem pass_short (waiting : Waiting s.recvQueue bytes) (short : bytes.length < networkHeaderSize)
    {leftByte : Nat} (left : leftByte ≠ 0) :
    recvPass memory ⟨s, leftByte⟩ =
      .leave (if memory.code = networkCode then s else s.disconnectSession) := by
  have header := @peek_header_waiting s memory _ waiting
  rw [if_neg (by omega)] at header
  have use := RingBuffer.use_size_eq_length waiting.1
  rw [waiting.2.1] at use
  simp only [recvPass, if_neg left, header]
  by_cases same : memory.code = networkCode
  · rw [if_neg (by simp [same]), if_neg (by decide), if_pos (by omega), if_pos same]
  · rw [if_pos same, if_neg same]

/-- A frame that has not arrived in full waits. -/
private theorem pass_incomplete (m : Message) {rest : Bytes} (waiting : Waiting s.recvQueue bytes)
    (starts : bytes ++ tail = m.frame ++ rest) (enough : networkHeaderSize ≤ bytes.length)
    (short : bytes.length < m.frame.length) {leftByte : Nat} (left : leftByte ≠ 0) :
    recvPass memory ⟨s, leftByte⟩ = .leave s := by
  have header := @peek_header_waiting s memory _ waiting
  rw [if_pos enough, of_bytes_take, of_bytes_frame m starts enough] at header
  have use := RingBuffer.use_size_eq_length waiting.1
  rw [waiting.2.1] at use
  have fits := m.fits
  rw [m.length_frame] at short
  have notLong : ¬ bufferDefault < m.payload.length := by simp only [bufferDefault]; omega
  have incomplete : s.recvQueue.getUseSize < m.payload.length + networkHeaderSize := by omega
  simp only [recvPass, if_neg left, header]
  rw [if_neg (by simp), if_neg notLong, if_pos incomplete]

/-- What the pool block hands to `OnRecv`: the frame, copied to its front,
without its header. -/
theorem received_payload (m : Message) (block : Packet) :
    let recvBuf := (block.mAlloc.addRef 1).clearNetwork
    let filled := { recvBuf with buffer := store recvBuf.buffer recvBuf.writePos m.frame }
    ((filled.moveWritePos m.frame.length).moveReadPos networkHeaderSize).readable = m.payload := by
  obtain ⟨header, width, spelling, _⟩ := m.frame_split
  rw [spelling]
  exact Packet.received_readable block width m.fits

/-- A complete frame at the front leaves the ring as one call of `OnRecv`. -/
private theorem pass_frame (m : Message) {rest : Bytes}
    (waiting : Waiting s.recvQueue (m.frame ++ rest)) {leftByte : Nat} (left : leftByte ≠ 0) :
    ∃ ring, Waiting ring rest ∧ recvPass memory ⟨s, leftByte⟩ =
      .again ⟨{ s with recvQueue := ring, received := s.received ++ [m.payload] },
        (leftByte + 2 ^ 32 - m.frame.length) % 2 ^ 32⟩ := by
  have length := m.length_frame
  have fits := m.fits
  have enough : networkHeaderSize ≤ (m.frame ++ rest).length := by
    rw [List.length_append]
    omega
  have whole : (m.frame ++ rest) ++ [] = m.frame ++ rest := List.append_nil _
  have header := @peek_header_waiting s memory _ waiting
  rw [if_pos enough, of_bytes_take, of_bytes_frame m whole enough] at header
  obtain ⟨bounds, stored, sized⟩ := waiting
  have use := RingBuffer.use_size_eq_length bounds
  rw [stored] at use
  obtain ⟨ring, dequeued, ringBounds, ringSize, ringStored⟩ := RingBuffer.dequeue_spec bounds
    (show 0 < m.frame.length by simp only [networkHeaderSize] at length; omega)
    (by rw [stored, List.length_append]; omega)
  rw [stored, List.take_left] at dequeued
  rw [stored, List.drop_left] at ringStored
  refine ⟨ring, ⟨ringBounds, ringStored, ringSize.trans sized⟩, ?_⟩
  have sameSize : (m.payload.length : Int) + networkHeaderSize = m.frame.length := by omega
  have payload := received_payload m memory.block
  simp only [recvPass, if_neg left, header]
  rw [if_neg (by simp), if_neg (by simp only [bufferDefault]; omega), if_neg (by
    rw [List.length_append] at use; omega), sameSize, dequeued]
  dsimp only
  rw [if_neg (by simp only [networkHeaderSize] at length; omega), if_neg (by simp [Packet.decode])]
  dsimp only at payload
  rw [payload, length]

end Pass

/-! ## The loop -/

section Loop
variable {s : RecvSession}

private theorem wire_cons (m : Message) (msgs : List Message) :
    wire (m :: msgs) = m.frame ++ wire msgs := rfl

private theorem wire_append (first second : List Message) :
    wire (first ++ second) = wire first ++ wire second := by
  simp [wire]

private theorem frame_long (m : Message) : networkHeaderSize < m.frame.length := by
  have nonempty := m.nonempty
  rw [m.length_frame]
  omega

/-- A counter that counts exactly the waiting frames is zero exactly when the
last of them has gone, so all are delivered and nothing else is read. -/
theorem loop_whole (msgs : List Message) (memory : Nat → PassMemory) (fuel : Nat)
    (waiting : Waiting s.recvQueue (wire msgs)) (enough : (wire msgs).length < fuel)
    (small : (wire msgs).length < 2 ^ 32) :
    ∃ s', recvLoop memory fuel ⟨s, (wire msgs).length⟩ = some s' ∧ Waiting s'.recvQueue [] ∧
      s'.received = s.received ++ msgs.map Message.payload ∧
      s'.disconnectStep = s.disconnectStep := by
  induction msgs generalizing s memory fuel with
  | nil =>
    obtain ⟨fuel, rfl⟩ : ∃ n, fuel = n + 1 := ⟨fuel - 1, by omega⟩
    refine ⟨s, ?_, waiting, by simp, rfl⟩
    simp [recvLoop, recvPass, wire]
  | cons m msgs ih =>
    obtain ⟨fuel, rfl⟩ : ∃ n, fuel = n + 1 := ⟨fuel - 1, by omega⟩
    have long := frame_long m
    rw [wire_cons] at waiting enough small
    rw [List.length_append] at enough small
    obtain ⟨ring, ringWaiting, pass⟩ := @pass_frame s (memory 0) m _ waiting
      (m.frame ++ wire msgs).length (by rw [List.length_append]; omega)
    have counter : ((m.frame ++ wire msgs).length + 2 ^ 32 - m.frame.length) % 2 ^ 32 =
        (wire msgs).length := by
      rw [List.length_append]
      omega
    rw [counter] at pass
    obtain ⟨s', ran, finish, received, step⟩ := ih
      (s := { s with recvQueue := ring, received := s.received ++ [m.payload] })
      (fun k => memory (k + 1)) fuel ringWaiting (by omega) (by omega)
    refine ⟨s', ?_, finish, by simp [received], step⟩
    rw [wire_cons, recvLoop, pass]
    exact ran

/-- Whatever the counter says, the loop ends, and a session still connected
has lost whole frames only. When it comes to an empty ring past a foreign
`code`, the counter was zero: it counted just the frames taken. -/
theorem loop_takes_frames (fuel : Nat) (msgs : List Message) (memory : Nat → PassMemory)
    {bytes tail : Bytes} (waiting : Waiting s.recvQueue bytes) (starts : bytes ++ tail = wire msgs)
    (enough : bytes.length < fuel) (leftByte : Nat) (dword : leftByte < 2 ^ 32) :
    ∃ s', recvLoop memory fuel ⟨s, leftByte⟩ = some s' ∧
      (s'.disconnectStep ≠ .disconnect → ∃ taken kept rest, msgs = taken ++ kept ∧
        Waiting s'.recvQueue rest ∧ bytes = wire taken ++ rest ∧
        (rest = [] → (∀ k, (memory k).code ≠ networkCode) →
          leftByte = (wire taken).length % 2 ^ 32)) := by
  induction fuel generalizing s msgs memory bytes leftByte with
  | zero => omega
  | succ fuel ih =>
    have stays : ∀ condition : bytes = [] → (∀ k, (memory k).code ≠ networkCode) → leftByte = 0,
        ∃ taken kept rest, msgs = taken ++ kept ∧ Waiting s.recvQueue rest ∧
          bytes = wire taken ++ rest ∧ (rest = [] → (∀ k, (memory k).code ≠ networkCode) →
            leftByte = (wire taken).length % 2 ^ 32) := fun condition =>
      ⟨[], msgs, bytes, rfl, waiting, rfl, fun empty foreign => by
        simpa [wire] using condition empty foreign⟩
    rw [recvLoop]
    by_cases left : leftByte = 0
    · refine ⟨s, ?_, fun _ => stays fun _ _ => left⟩
      simp [recvPass, left]
    by_cases short : bytes.length < networkHeaderSize
    · rw [pass_short waiting short left]
      by_cases same : (memory 0).code = networkCode
      · exact ⟨s, by rw [if_pos same], fun _ => stays fun _ foreign => absurd same (foreign 0)⟩
      · exact ⟨s.disconnectSession, by rw [if_neg same], fun connected => absurd rfl connected⟩
    cases msgs with
    | nil =>
      have none : bytes = [] := by
        simp only [wire, List.map_nil, List.flatten_nil, List.append_eq_nil_iff] at starts
        exact starts.1
      simp [none, networkHeaderSize] at short
    | cons m msgs =>
      rw [wire_cons] at starts
      by_cases complete : bytes.length < m.frame.length
      · rw [pass_incomplete m waiting starts (by omega) complete left]
        refine ⟨s, rfl, fun _ => stays fun empty => ?_⟩
        simp [empty, networkHeaderSize] at short
      · obtain ⟨rest, rfl⟩ : ∃ rest, bytes = m.frame ++ rest := by
          refine ⟨bytes.drop m.frame.length, ?_⟩
          have front := congrArg (List.take m.frame.length) starts
          rw [List.take_append_of_le_length (by omega), List.take_left] at front
          rw [← front, List.length_take, Nat.min_eq_left (by omega), List.take_append_drop]
        rw [List.append_assoc, List.append_cancel_left_eq] at starts
        have long := frame_long m
        rw [List.length_append] at enough
        obtain ⟨ring, ringWaiting, pass⟩ := @pass_frame s (memory 0) m _ waiting _ left
        rw [pass]
        obtain ⟨s', ran, shape⟩ := ih
          (s := { s with recvQueue := ring, received := s.received ++ [m.payload] })
          msgs (fun k => memory (k + 1)) ringWaiting starts (by omega)
          ((leftByte + 2 ^ 32 - m.frame.length) % 2 ^ 32) (Nat.mod_lt _ (by decide))
        refine ⟨s', ran, fun connected => ?_⟩
        obtain ⟨taken, kept, behind, rfl, behindWaiting, rfl, counter⟩ := shape connected
        refine ⟨m :: taken, kept, behind, rfl, behindWaiting, by rw [wire_cons, List.append_assoc], ?_⟩
        intro empty foreign
        have later := counter empty fun k => foreign (k + 1)
        have fits := m.fits
        have frameLength := m.length_frame
        simp only [networkHeaderSize] at frameLength
        rw [wire_cons, List.length_append]
        omega

end Loop

/-! ## Whole runs -/

section Runs
variable {s : RecvSession}

/-- What reassembly promises of a run over chunks: no session state after a
chunk is disconnected or holds an undelivered frame, and in the end `OnRecv`
has seen exactly these payloads. -/
def Reassembles (memory : Nat → Nat → PassMemory) (s : RecvSession) (msgs : List Message)
    (chunks : List Bytes) : Prop :=
  ∃ states, receiveAll memory s chunks = some states ∧
    (∀ s' ∈ states, s'.disconnectStep ≠ .disconnect ∧ ¬ HoldsFrame s'.recvQueue.contents) ∧
    (states.getLastD s).received = s.received ++ msgs.map Message.payload

/-- Every cut falls between two frames: after each chunk the stream so far is
a whole number of frames. -/
def CutsBetweenFrames (msgs : List Message) (chunks : List Bytes) : Prop :=
  ∀ k ≤ chunks.length, ∃ j, (chunks.take k).flatten = wire (msgs.take j)

/-- A receive that is posted: the chunk joins the ring and the loop runs. -/
private theorem receive_posted (memory : Nat → PassMemory) {chunk bytes : Bytes}
    (connected : s.disconnectStep ≠ .disconnect) (waiting : Waiting s.recvQueue bytes)
    (nonempty : chunk ≠ []) (fits : chunk.length ≤ s.recvQueue.getFreeSize) :
    ∃ ring, Waiting ring (bytes ++ chunk) ∧ receive memory s chunk =
      recvLoop memory ((bytes ++ chunk).length + 1)
        ⟨{ s with recvQueue := ring }, chunk.length⟩ := by
  obtain ⟨posted, post⟩ : ∃ posted, recvPost s = some posted := by
    simp [recvPost, connected]
  have arrived := arrival_appends waiting (List.length_pos_iff.mpr nonempty) fits post
  have used : ((s.recvQueue.fill posted chunk).moveRear chunk.length).getUseSize.toNat =
      (bytes ++ chunk).length := by
    rw [RingBuffer.use_size_eq_length arrived.1, arrived.2.1, Int.toNat_natCast]
  refine ⟨_, arrived, ?_⟩
  simp only [receive, post, recvBranch, used]

private theorem waiting_small {r : RingBuffer} {bytes : Bytes} (waiting : Waiting r bytes) :
    bytes.length < 2 ^ 32 := by
  obtain ⟨bounds, stored, sized⟩ := waiting
  have use := RingBuffer.use_size_bounds bounds
  have length := RingBuffer.use_size_eq_length bounds
  rw [stored] at length
  simp only [RingBuffer.endPos, sized, recvQueueSize] at use
  omega

private theorem holds_frame_wire (m : Message) (msgs : List Message) :
    HoldsFrame (wire (m :: msgs)) := by
  have long := frame_long m
  have whole : wire (m :: msgs) ++ [] = m.frame ++ wire msgs := List.append_nil _
  have enough : networkHeaderSize ≤ (wire (m :: msgs)).length := by
    rw [wire_cons, List.length_append]
    omega
  refine ⟨enough, ?_⟩
  rw [of_bytes_frame m whole enough, wire_cons, List.length_append, m.length_frame]
  exact Nat.le_add_right _ _

/-- In a run without defect the ring is empty before each chunk, because it
is empty at the end: a chunk that ends at a frame's end after a backlog takes
the loop past its own counter. -/
theorem reassembled_cuts (chunks : List Bytes) (memory : Nat → Nat → PassMemory)
    (foreign : ∀ k pass, (memory k pass).code ≠ networkCode) (msgs : List Message) {bytes : Bytes}
    (connected : s.disconnectStep ≠ .disconnect) (waiting : Waiting s.recvQueue bytes)
    (drained : ¬ HoldsFrame bytes) (stream : bytes ++ chunks.flatten = wire msgs)
    (nonempty : ∀ chunk ∈ chunks, chunk ≠ []) (arrives : Arrives memory s chunks)
    (states : List RecvSession) (ran : receiveAll memory s chunks = some states)
    (sound : ∀ s' ∈ states, s'.disconnectStep ≠ .disconnect ∧ ¬ HoldsFrame s'.recvQueue.contents) :
    bytes = [] ∧ CutsBetweenFrames msgs chunks := by
  induction chunks generalizing s memory msgs bytes states with
  | nil =>
    rw [List.flatten_nil, List.append_nil] at stream
    refine ⟨?_, fun k _ => ⟨0, by simp [wire]⟩⟩
    cases msgs with
    | nil => exact stream
    | cons m msgs => exact absurd (stream ▸ holds_frame_wire m msgs) drained
  | cons chunk rest ih =>
    obtain ⟨fits, later⟩ := arrives
    obtain ⟨ring, ringWaiting, received⟩ :=
      receive_posted (memory 0) connected waiting (nonempty chunk (by simp)) fits
    rw [List.flatten_cons, ← List.append_assoc] at stream
    have positive := List.length_pos_iff.mpr (nonempty chunk (by simp))
    have small := waiting_small ringWaiting
    rw [List.length_append] at small
    obtain ⟨s', looped, shape⟩ := loop_takes_frames ((bytes ++ chunk).length + 1) msgs (memory 0)
      (s := { s with recvQueue := ring }) ringWaiting stream (by omega) chunk.length (by omega)
    rw [← received] at looped
    simp only [receiveAll, looped, Option.map_eq_some_iff] at ran
    obtain ⟨states, ranLater, rfl⟩ := ran
    obtain ⟨stillConnected, stillDrained⟩ := sound s' (by simp)
    obtain ⟨taken, kept, behind, rfl, behindWaiting, split, counter⟩ := shape stillConnected
    rw [behindWaiting.2.1] at stillDrained
    rw [split, wire_append, List.append_assoc, List.append_cancel_left_eq] at stream
    obtain ⟨rfl, cuts⟩ := ih (fun k => memory (k + 1)) (fun k => foreign (k + 1)) kept
      stillConnected behindWaiting stillDrained stream
      (fun c member => nonempty c (List.mem_cons_of_mem _ member)) (later s' looped stillConnected)
      states ranLater (fun t member => sound t (List.mem_cons_of_mem _ member))
    have counted := counter rfl (foreign 0)
    rw [List.append_nil] at split
    rw [← split, List.length_append, Nat.mod_eq_of_lt (by omega)] at counted
    have empty : bytes = [] := List.eq_nil_of_length_eq_zero (by omega)
    subst empty
    refine ⟨rfl, fun k within => ?_⟩
    cases k with
    | zero => exact ⟨0, by simp [wire]⟩
    | succ k =>
      obtain ⟨j, cut⟩ := cuts k (by simpa using within)
      refine ⟨taken.length + j, ?_⟩
      rw [List.take_succ_cons, List.flatten_cons, cut, List.take_length_add_append, wire_append,
        ← split, List.nil_append]

/-- Chunks of whole frames are delivered one by one, each from an empty ring. -/
theorem cuts_reassembled (chunks : List Bytes) (memory : Nat → Nat → PassMemory)
    (msgs : List Message) (connected : s.disconnectStep ≠ .disconnect)
    (waiting : Waiting s.recvQueue []) (stream : chunks.flatten = wire msgs)
    (nonempty : ∀ chunk ∈ chunks, chunk ≠ []) (arrives : Arrives memory s chunks)
    (cuts : CutsBetweenFrames msgs chunks) : Reassembles memory s msgs chunks := by
  induction chunks generalizing s memory msgs with
  | nil =>
    have none : msgs = [] := by
      cases msgs with
      | nil => rfl
      | cons m msgs =>
        have long := congrArg List.length stream
        have frame := frame_long m
        simp only [List.flatten_nil, List.length_nil, wire_cons, List.length_append] at long
        omega
    exact ⟨[], rfl, by simp, by simp [none]⟩
  | cons chunk rest ih =>
    obtain ⟨fits, later⟩ := arrives
    obtain ⟨ring, ringWaiting, received⟩ :=
      receive_posted (memory 0) connected waiting (nonempty chunk (by simp)) fits
    obtain ⟨count, first⟩ := cuts 1 (by simp)
    simp only [List.take_succ_cons, List.take_zero, List.flatten_cons, List.flatten_nil,
      List.append_nil] at first
    rw [List.nil_append, first] at ringWaiting received
    obtain ⟨s', looped, finish, delivered, step⟩ := loop_whole (msgs.take count) (memory 0)
      ((wire (msgs.take count)).length + 1) (s := { s with recvQueue := ring }) ringWaiting
      (by omega) (waiting_small ringWaiting)
    rw [← received, ← first] at looped
    have stillConnected : s'.disconnectStep ≠ .disconnect := by rw [step]; exact connected
    have whole : wire msgs = wire (msgs.take count) ++ wire (msgs.drop count) := by
      rw [← wire_append, List.take_append_drop]
    rw [List.flatten_cons, first, whole, List.append_cancel_left_eq] at stream
    have cutsLater : CutsBetweenFrames (msgs.drop count) rest := by
      intro k within
      obtain ⟨j, cut⟩ := cuts (k + 1) (by simpa using within)
      rw [List.take_succ_cons, List.flatten_cons, first] at cut
      refine ⟨j - count, ?_⟩
      by_cases ahead : count ≤ j
      · have split : msgs.take j = msgs.take count ++ (msgs.drop count).take (j - count) := by
          rw [← List.take_add, Nat.add_sub_cancel' ahead]
        rw [split, wire_append, List.append_cancel_left_eq] at cut
        exact cut
      · -- fewer frames than already delivered leave nothing for the later chunks
        have split : msgs.take count = msgs.take j ++ (msgs.drop j).take (count - j) := by
          rw [← List.take_add, Nat.add_sub_cancel' (by omega)]
        have length := congrArg List.length cut
        rw [split, wire_append] at length
        simp only [List.length_append] at length
        rw [show j - count = 0 by omega]
        exact List.eq_nil_of_length_eq_zero (by omega)
    obtain ⟨states, ran, sound, all⟩ := ih (fun k => memory (k + 1)) (msgs.drop count)
      stillConnected finish stream (fun c member => nonempty c (List.mem_cons_of_mem _ member))
      (later s' looped stillConnected) cutsLater
    refine ⟨s' :: states, ?_, ?_, ?_⟩
    · simp [receiveAll, looped, ran]
    · intro t member
      rcases List.mem_cons.mp member with rfl | member
      · refine ⟨stillConnected, fun holds => ?_⟩
        rw [finish.2.1] at holds
        exact absurd holds.1 (by decide)
      · exact sound t member
    · rw [List.getLastD_cons, all, delivered, List.append_assoc, ← List.map_append,
        List.take_append_drop]

private theorem accepted_waiting (mem : Memory) : Waiting (acceptedSession mem).recvQueue [] :=
  ⟨RingBuffer.clear_in_bounds (show 2 ≤ recvQueueSize by decide), RingBuffer.clear_contents _, rfl⟩

/-- A stream no longer than the ring's smaller capacity always fits, wherever
it is cut. -/
theorem short_stream_arrives (chunks : List Bytes) (memory : Nat → Nat → PassMemory)
    (msgs : List Message) {bytes tail : Bytes} (connected : s.disconnectStep ≠ .disconnect)
    (waiting : Waiting s.recvQueue bytes) (stream : bytes ++ chunks.flatten ++ tail = wire msgs)
    (short : (bytes ++ chunks.flatten).length ≤ recvQueueSize - 2)
    (nonempty : ∀ chunk ∈ chunks, chunk ≠ []) : Arrives memory s chunks := by
  induction chunks generalizing s memory msgs bytes with
  | nil => trivial
  | cons chunk rest ih =>
    rw [List.flatten_cons, List.length_append, List.length_append] at short
    have fits : chunk.length ≤ s.recvQueue.getFreeSize := by
      have use := RingBuffer.use_size_eq_length waiting.1
      rw [waiting.2.1] at use
      have size := waiting.2.2
      simp only [RingBuffer.getFreeSize, RingBuffer.usableSize]
      split <;> omega
    refine ⟨fits, fun s' ran still => ?_⟩
    obtain ⟨ring, ringWaiting, received⟩ :=
      receive_posted (memory 0) connected waiting (nonempty chunk (by simp)) fits
    rw [List.flatten_cons, ← List.append_assoc, List.append_assoc _ _ tail] at stream
    have small := waiting_small ringWaiting
    rw [List.length_append] at small
    obtain ⟨s'', looped, shape⟩ := loop_takes_frames ((bytes ++ chunk).length + 1) msgs (memory 0)
      (s := { s with recvQueue := ring }) ringWaiting stream (by omega) chunk.length (by omega)
    rw [← received, ran] at looped
    obtain rfl : s' = s'' := Option.some.inj looped
    obtain ⟨taken, kept, behind, rfl, behindWaiting, split, _⟩ := shape still
    rw [split, wire_append, List.append_assoc, List.append_cancel_left_eq, ← List.append_assoc] at stream
    have lengths := congrArg List.length split
    simp only [List.length_append] at lengths
    exact ih (fun k => memory (k + 1)) kept still behindWaiting stream
      (by rw [List.length_append]; omega) (fun c member => nonempty c (List.mem_cons_of_mem _ member))

/-- Reassembly is exactly as good as the cuts. Over all contents of the
uninitialised header and of the pool's blocks, the receive branch delivers a
stream of frames if and only if every chunk consists of whole frames. -/
theorem reassembles_iff_cuts_between_frames (mem : Memory) (msgs : List Message)
    (chunks : List Bytes) (stream : chunks.flatten = wire msgs)
    (nonempty : ∀ chunk ∈ chunks, chunk ≠ [])
    (arrives : ∀ memory, Arrives memory (acceptedSession mem) chunks) :
    (∀ memory, Reassembles memory (acceptedSession mem) msgs chunks) ↔
      CutsBetweenFrames msgs chunks := by
  have connected : (acceptedSession mem).disconnectStep ≠ .disconnect := by
    simp [acceptedSession]
  constructor
  · intro all
    let memory : Nat → Nat → PassMemory := fun _ _ => ⟨0, ⟨mem, 0, 0, 0, 0, false⟩⟩
    have foreign : (0 : UInt8) ≠ networkCode := by decide
    obtain ⟨states, ran, sound, _⟩ := all memory
    exact (reassembled_cuts chunks memory (fun _ _ => foreign) msgs connected
      (accepted_waiting mem) (fun holds => absurd holds.1 (by decide)) stream nonempty
      (arrives memory) states ran sound).2
  · intro cuts memory
    exact cuts_reassembled chunks memory msgs connected (accepted_waiting mem) stream nonempty
      (arrives memory) cuts

/-- Two messages whose frames are seven and six bytes long. -/
def firstMessage : Message := ⟨⟨fun _ => 0, 0, 0, 0, 0, false⟩, [65, 66], by decide, by decide⟩
def secondMessage : Message := ⟨⟨fun _ => 0, 0, 0, 0, 0, false⟩, [67], by decide, by decide⟩

/-- The first frame arrives but for its last byte, which then comes together
with the second frame. -/
def splitChunks : List Bytes :=
  [firstMessage.frame.take 6, firstMessage.frame.drop 6 ++ secondMessage.frame]

/-- Cut like this the stream is not reassembled, whatever the uninitialised
memory holds: the second chunk is as long as the first frame, so `leftByte`
is zero while the second frame waits complete in the ring. -/
theorem split_frame_not_reassembled :
    splitChunks.flatten = wire [firstMessage, secondMessage] ∧ (∀ chunk ∈ splitChunks, chunk ≠ []) ∧
      (∀ memory, Arrives memory (acceptedSession fun _ => 0) splitChunks) ∧
      ∀ memory, ¬ Reassembles memory (acceptedSession fun _ => 0) [firstMessage, secondMessage]
        splitChunks := by
  have stream : splitChunks.flatten = wire [firstMessage, secondMessage] := by
    simp [splitChunks, wire, ← List.append_assoc, List.take_append_drop]
  have first : firstMessage.frame.length = 7 := firstMessage.length_frame
  have second : secondMessage.frame.length = 6 := secondMessage.length_frame
  have nonempty : ∀ chunk ∈ splitChunks, chunk ≠ [] := by
    intro chunk member empty
    rcases List.mem_cons.mp member with rfl | member
    · simpa [first] using congrArg List.length empty
    · obtain rfl := List.mem_singleton.mp member
      simpa [first, second] using congrArg List.length empty
  have connected : (acceptedSession fun _ => 0).disconnectStep ≠ .disconnect := by
    simp [acceptedSession]
  have arrives (memory : Nat → Nat → PassMemory) :
      Arrives memory (acceptedSession fun _ => 0) splitChunks := by
    refine short_stream_arrives splitChunks memory [firstMessage, secondMessage] connected
      (accepted_waiting _) (show [] ++ splitChunks.flatten ++ [] = _ by simpa using stream) ?_ nonempty
    simp [splitChunks, first, second, recvQueueSize]
  refine ⟨stream, nonempty, arrives, fun memory reassembles => ?_⟩
  obtain ⟨states, ran, sound, _⟩ := reassembles
  obtain ⟨fits, later⟩ := arrives memory
  have whole : firstMessage.frame.take 6 ++ (firstMessage.frame.drop 6 ++ secondMessage.frame) =
      firstMessage.frame ++ secondMessage.frame := by
    rw [← List.append_assoc, List.take_append_drop]
  obtain ⟨ring, ringWaiting, received⟩ := receive_posted (memory 0) connected
    (accepted_waiting _) (nonempty _ (by simp [splitChunks])) fits
  rw [List.nil_append] at ringWaiting received
  have waits := @pass_incomplete { acceptedSession (fun _ => 0) with recvQueue := ring } (memory 0 0)
    _ _ firstMessage _ ringWaiting whole (by simp [first, networkHeaderSize]) (by simp [first])
    (firstMessage.frame.take 6).length (by simp [first])
  rw [recvLoop, waits] at received
  obtain ⟨fits', _⟩ := later _ received connected
  obtain ⟨ring', ringWaiting', received'⟩ := receive_posted (memory 1)
    (s := { acceptedSession (fun _ => 0) with recvQueue := ring }) connected ringWaiting
    (nonempty _ (by simp [splitChunks])) fits'
  rw [whole] at ringWaiting' received'
  obtain ⟨ring'', behind, takes⟩ := @pass_frame
    { acceptedSession (fun _ => 0) with recvQueue := ring' } (memory 1 0) firstMessage _ ringWaiting'
    (firstMessage.frame.drop 6 ++ secondMessage.frame).length (by simp [first, second])
  rw [recvLoop, takes] at received'
  have counter : ((firstMessage.frame.drop 6 ++ secondMessage.frame).length + 2 ^ 32 -
      firstMessage.frame.length) % 2 ^ 32 = 0 := by
    simp [first, second]
  obtain ⟨fuel, length⟩ : ∃ n, (firstMessage.frame ++ secondMessage.frame).length = n + 1 :=
    ⟨12, by simp [first, second]⟩
  simp only [counter, length, recvLoop, recvPass, ↓reduceIte] at received'
  simp only [splitChunks, receiveAll, received, received', Option.map_some, Option.some.injEq] at ran
  subst ran
  have holds := (sound _ (List.mem_cons_of_mem _ (List.mem_singleton.mpr rfl))).2
  rw [behind.2.1] at holds
  exact holds (by simpa [wire] using holds_frame_wire secondMessage [])

/-- Two frames in one chunk are reassembled. -/
theorem whole_chunk_reassembled :
    CutsBetweenFrames [firstMessage, secondMessage] [wire [firstMessage, secondMessage]] ∧
      ∀ memory, Reassembles memory (acceptedSession fun _ => 0) [firstMessage, secondMessage]
        [wire [firstMessage, secondMessage]] := by
  have stream : [wire [firstMessage, secondMessage]].flatten = wire [firstMessage, secondMessage] := by
    simp
  have first : firstMessage.frame.length = 7 := firstMessage.length_frame
  have second : secondMessage.frame.length = 6 := secondMessage.length_frame
  have length : (wire [firstMessage, secondMessage]).length = 13 := by
    simp [wire, first, second]
  have nonempty : ∀ chunk ∈ [wire [firstMessage, secondMessage]], chunk ≠ [] := by
    intro chunk member empty
    obtain rfl := List.mem_singleton.mp member
    rw [empty] at length
    cases length
  have arrives (memory : Nat → Nat → PassMemory) :
      Arrives memory (acceptedSession fun _ => 0) [wire [firstMessage, secondMessage]] := by
    refine short_stream_arrives _ memory [firstMessage, secondMessage] (by simp [acceptedSession])
      (accepted_waiting _) (show [] ++ [wire [firstMessage, secondMessage]].flatten ++ [] = _ by simp)
      ?_ nonempty
    simp [length, recvQueueSize]
  have cuts : CutsBetweenFrames [firstMessage, secondMessage] [wire [firstMessage, secondMessage]] := by
    intro k within
    rcases k with _ | k
    · exact ⟨0, rfl⟩
    · obtain rfl : k = 0 := by simpa using within
      exact ⟨2, by simp⟩
  exact ⟨cuts, (reassembles_iff_cuts_between_frames (fun _ => 0) _ _ stream nonempty arrives).mpr cuts⟩

end Runs

end NewNameAuction.Reassembly
