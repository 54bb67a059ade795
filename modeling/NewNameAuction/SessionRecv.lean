import NewNameAuction.RingBuffer
import NewNameAuction.Packet

/-! The receiving side of a session: what `recvPost` posts, how a completed
receive lands in the ring, and the receive branch of `CNetServer::WorkerThread`
with its 32-bit `leftByte` counter. -/
namespace NewNameAuction
open ByteMemory

/-- `st_Session::disconnectStep`. -/
inductive DisconnectStep where
  | normalState
  | sendPacketLast
  | sendPostLast
  | disconnect
  deriving DecidableEq

/-- The fields of `st_Session` that receiving works on, with the payloads
handed to `OnRecv` so far. -/
structure RecvSession where
  recvQueue : RingBuffer
  disconnectStep : DisconnectStep
  received : List Bytes

namespace RecvSession

/-- `disconnectSession`; cancelling the pending I/O touches none of the fields
here. -/
def disconnectSession (s : RecvSession) : RecvSession := { s with disconnectStep := .disconnect }

end RecvSession

structure WsaBuf where
  buf : Int
  len : Int

/-- `recvPost`: the two regions it posts, or nothing for a session that is
being disconnected. -/
def recvPost (s : RecvSession) : Option (WsaBuf × WsaBuf) :=
  if s.disconnectStep = .disconnect then none
  else
    let freeSize := s.recvQueue.getFreeSize
    let enqueueSize := s.recvQueue.directEnqueueSize
    some (⟨s.recvQueue.getRearBufferPtr, s.recvQueue.directEnqueueSize⟩,
      ⟨s.recvQueue.getBeginPtr, if enqueueSize < freeSize then freeSize - enqueueSize else 0⟩)

/-- A completed `WSARecv` has filled its buffers in the order given. -/
def RingBuffer.fill (r : RingBuffer) (bufs : WsaBuf × WsaBuf) (bytes : Bytes) : RingBuffer :=
  { r with
    mem := store (store r.mem bufs.1.buf (bytes.take bufs.1.len.toNat)) bufs.2.buf
      (bytes.drop bufs.1.len.toNat) }

/-- What one pass of the receive loop finds in memory it has not written: the
`code` of its local `st_header`, and the block the packet pool hands out. -/
structure PassMemory where
  code : UInt8
  block : Packet

/-- `header.len = 0` and the `Peek` into the local header. The return value is
not looked at, so a refused `Peek` leaves `code` as it was. -/
def peekHeader (code : UInt8) (r : RingBuffer) : Header :=
  let peeked := r.peek networkHeaderSize
  if peeked.1 = networkHeaderSize then Header.ofBytes peeked.2 else ⟨code, 0⟩

structure RecvState where
  session : RecvSession
  leftByte : Nat

/-- How a pass of `while (1)` ends. -/
inductive PassResult where
  | leave (session : RecvSession)
  | again (state : RecvState)

/-- One pass of the receive loop. `leftByte` is a `DWORD`: the subtraction
wraps. The packet's block is unbounded here: a payload of 1996 to 2000 bytes, which
`Dequeue` writes past the end of the block in the code, stays in the packet. What the
pass does to the ring does not depend on it. -/
def recvPass (memory : PassMemory) (state : RecvState) : PassResult :=
  let session := state.session
  if state.leftByte = 0 then .leave session
  else
    let header := peekHeader memory.code session.recvQueue
    if header.code ≠ networkCode then .leave session.disconnectSession
    else if bufferDefault < header.len then .leave session.disconnectSession
    else if session.recvQueue.getUseSize < header.len + networkHeaderSize then .leave session
    else
      let recvBuf := (memory.block.mAlloc.addRef 1).clearNetwork
      let (retDequeue, bytes, ring) := session.recvQueue.dequeue (header.len + networkHeaderSize)
      if retDequeue ≤ 0 then .leave session.disconnectSession
      else
        let filled := { recvBuf with buffer := store recvBuf.buffer recvBuf.writePos bytes }
        let recvBuf := filled.moveWritePos retDequeue
        if recvBuf.decode = false then
          .leave { session with recvQueue := ring }.disconnectSession
        else
          let recvBuf := recvBuf.moveReadPos networkHeaderSize
          .again
            { session := { session with
                recvQueue := ring
                received := session.received ++ [recvBuf.readable] }
              leftByte := (state.leftByte + 2 ^ 32 - (header.len + networkHeaderSize)) % 2 ^ 32 }

/-- The receive loop, for at most `fuel` passes. -/
def recvLoop (memory : Nat → PassMemory) : Nat → RecvState → Option RecvSession
  | 0, _ => none
  | fuel + 1, state =>
    match recvPass (memory 0) state with
    | .leave session => some session
    | .again state => recvLoop (fun pass => memory (pass + 1)) fuel state

/-- The receive branch for a completion of `transferred` bytes. Each pass that
goes on takes bytes out of the ring, so the ring's size bounds the passes. -/
def recvBranch (memory : Nat → PassMemory) (s : RecvSession) (transferred : Nat) :
    Option RecvSession :=
  let s := { s with recvQueue := s.recvQueue.moveRear transferred }
  recvLoop memory (s.recvQueue.getUseSize.toNat + 1) ⟨s, transferred⟩

/-- One receive from the posting to the end of the branch: the chunk lands in
the posted regions, then the branch runs. -/
def receive (memory : Nat → PassMemory) (s : RecvSession) (chunk : Bytes) : Option RecvSession :=
  match recvPost s with
  | none => none
  | some bufs => recvBranch memory { s with recvQueue := s.recvQueue.fill bufs chunk } chunk.length

/-- The sessions after each chunk. A disconnected session posts no further
receive, so its run ends. -/
def receiveAll (memory : Nat → Nat → PassMemory) (s : RecvSession) :
    List Bytes → Option (List RecvSession)
  | [] => some []
  | chunk :: rest =>
    match receive (memory 0) s chunk with
    | none => none
    | some s' => (receiveAll (fun k => memory (k + 1)) s' rest).map (s' :: ·)

/-- Each chunk fits into the free space when it arrives. -/
def Arrives (memory : Nat → Nat → PassMemory) (s : RecvSession) : List Bytes → Prop
  | [] => True
  | chunk :: rest =>
    chunk.length ≤ s.recvQueue.getFreeSize ∧
      ∀ s', receive (memory 0) s chunk = some s' → s'.disconnectStep ≠ .disconnect →
        Arrives (fun k => memory (k + 1)) s' rest

/-- The size `CRingBuffer`'s default constructor allocates. -/
def recvQueueSize : Int := 80001

/-- A session as `AcceptThread` leaves it, its ring cleared. -/
def acceptedSession (mem : Memory) : RecvSession :=
  ⟨(RingBuffer.create recvQueueSize mem).clearBuffer, .normalState, []⟩

/-- The bytes begin with a complete frame. -/
def HoldsFrame (bytes : Bytes) : Prop :=
  networkHeaderSize ≤ bytes.length ∧ (Header.ofBytes bytes).len + networkHeaderSize ≤ bytes.length

end NewNameAuction
