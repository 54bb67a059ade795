import NewNameAuction.ByteMemory

/-! `CPacket`, the buffer a message is built in and received into, as built:
`Encode_option` is not defined, so `Encode` writes only the code and the length
of the header and `Decode` accepts everything. Positions are offsets from
`begin`. -/
namespace NewNameAuction
open ByteMemory

def networkHeaderSize : Nat := 5
def networkCode : UInt8 := 0x77
def bufferDefault : Nat := 2000

/-- The buffer is memory of `BUFFER_DEFAULT` bytes; a block that comes back
from the pool keeps the bytes of its last use. -/
structure Packet where
  buffer : Memory
  readPos : Int
  writePos : Int
  dataSize : Int
  refCount : Int
  encodeFlag : Bool

namespace Packet

/-- `begin + BufferSize - 1`. -/
def endPos : Int := bufferDefault - 1

/-- `mAlloc` resets only the count and the flag of a recycled block. -/
def mAlloc (block : Packet) : Packet := { block with refCount := 0, encodeFlag := false }

def addRef (p : Packet) (addNum : Int) : Packet := { p with refCount := p.refCount + addNum }

def clear (p : Packet) : Packet :=
  { p with readPos := 0, writePos := networkHeaderSize, dataSize := networkHeaderSize }

def clearNetwork (p : Packet) : Packet := { p with readPos := 0, writePos := 0, dataSize := 0 }

def moveWritePos (p : Packet) (size : Int) : Packet :=
  if size ≤ 0 then p
  else if endPos - p.writePos < size then p
  else { p with writePos := p.writePos + size, dataSize := p.dataSize + size }

def moveReadPos (p : Packet) (size : Int) : Packet :=
  if size ≤ 0 then p
  else if p.writePos - p.readPos < size then p
  else { p with readPos := p.readPos + size, dataSize := p.dataSize - size }

def putData (p : Packet) (bytes : Bytes) : Packet :=
  if bytes.length = 0 then p
  else if endPos - p.writePos < bytes.length then p
  else
    { p with
      buffer := store p.buffer p.writePos bytes
      writePos := p.writePos + bytes.length
      dataSize := p.dataSize + bytes.length }

/-- `operator <<` of a value with these bytes. `writePos` never passes `end`, so that
the difference is the same compared as an unsigned number. -/
def insert (p : Packet) (bytes : Bytes) : Packet :=
  if bytes.length ≤ endPos - p.writePos then
    { p with
      buffer := store p.buffer p.writePos bytes
      writePos := p.writePos + bytes.length
      dataSize := p.dataSize + bytes.length }
  else p

/-- `unsigned short` as it stands in the packed header. -/
def shortBytes (n : Nat) : Bytes := [UInt8.ofNat n, UInt8.ofNat (n / 256)]

/-- `Encode` as built. It refuses a packet without payload. -/
def encode (p : Packet) : Bool × Packet :=
  if p.dataSize ≤ 5 then (false, p)
  else
    let len := (p.writePos - p.readPos - networkHeaderSize).toNat
    (true, { p with
      buffer := store (store p.buffer 0 [networkCode]) 1 (shortBytes len)
      encodeFlag := true })

/-- `Decode` as built. -/
def decode (_ : Packet) : Bool := true

/-- What a reader of the packet gets: the bytes from `readPos` to `writePos`. -/
def readable (p : Packet) : Bytes := load p.buffer p.readPos (p.writePos - p.readPos).toNat

/-- `GetDataSize` goes by the positions, not by `DataSize`. -/
def getDataSize (p : Packet) : Int := p.writePos - p.readPos

/-- The buffer `sendPost` hands to the socket: `GetDataSize` bytes from `readPos` on. -/
def wsaSendbuf (p : Packet) : Bytes := load p.buffer p.readPos p.getDataSize.toNat

section Put
variable {p : Packet} {bytes more : Bytes}

theorem insert_eq_put (nonempty : bytes ≠ []) : p.insert bytes = p.putData bytes := by
  have positive := List.length_pos_iff.mpr nonempty
  by_cases fits : (bytes.length : Int) ≤ endPos - p.writePos
  · rw [insert, putData, if_pos fits, if_neg (by omega), if_neg (by omega)]
  · rw [insert, putData, if_neg fits, if_neg (by omega), if_pos (by omega)]

/-- Data put one after the other stand as one. -/
theorem put_put (nonempty : bytes ≠ []) (nonempty' : more ≠ [])
    (fits : bytes.length + more.length ≤ endPos - p.writePos) :
    (p.putData bytes).putData more = p.putData (bytes ++ more) := by
  have positive := List.length_pos_iff.mpr nonempty
  have positive' := List.length_pos_iff.mpr nonempty'
  have both : p.putData (bytes ++ more) = { p with
      buffer := store p.buffer p.writePos (bytes ++ more)
      writePos := p.writePos + (bytes.length + more.length)
      dataSize := p.dataSize + (bytes.length + more.length) } := by
    rw [putData, if_neg (by simp [nonempty]), if_neg (by rw [List.length_append]; omega),
      List.length_append, Int.natCast_add]
  have first : p.putData bytes = { p with
      buffer := store p.buffer p.writePos bytes
      writePos := p.writePos + bytes.length
      dataSize := p.dataSize + bytes.length } := by
    rw [putData, if_neg (by omega), if_neg (by omega)]
  rw [both, first, putData, if_neg (by omega), if_neg (by dsimp only; omega)]
  simp only [store_append, Int.add_assoc]

end Put

/-- A frame copied to the front of a block, as its reader gets it: without the
header. -/
theorem received_readable (block : Packet) {header payload : Bytes}
    (width : header.length = networkHeaderSize) (fits : payload.length ≤ 1994) :
    let recvBuf := (block.mAlloc.addRef 1).clearNetwork
    let filled := { recvBuf with buffer := store recvBuf.buffer recvBuf.writePos (header ++ payload) }
    ((filled.moveWritePos (header ++ payload).length).moveReadPos networkHeaderSize).readable =
      payload := by
  intro recvBuf filled
  simp only [networkHeaderSize] at width
  have length : (header ++ payload).length = 5 + payload.length := by rw [List.length_append, width]
  have write : filled.moveWritePos (header ++ payload).length =
      { filled with writePos := 5 + payload.length, dataSize := 5 + payload.length } := by
    rw [moveWritePos, if_neg (by omega), if_neg (by
      simp only [endPos, bufferDefault, filled, recvBuf, clearNetwork]; omega), length]
    simp [filled, recvBuf, clearNetwork]
  rw [write, moveReadPos, if_neg (by decide), if_neg (by
    simp only [networkHeaderSize, filled, recvBuf, clearNetwork]; omega)]
  have read : load (store recvBuf.buffer 0 (header ++ payload)) 0 (5 + payload.length) =
      header ++ payload := by
    rw [← length]
    exact load_store_same _ _ _
  rw [load_append] at read
  have behind := (List.append_inj read (by simp [width])).2
  have count : (5 + (payload.length : Int) - (0 + networkHeaderSize)).toNat = payload.length := by
    simp only [networkHeaderSize]
    omega
  simp only [readable, filled, recvBuf, clearNetwork]
  rw [count]
  simpa [networkHeaderSize, recvBuf, clearNetwork] using behind

end Packet

/-- The header fields the receiver looks at. -/
structure Header where
  code : UInt8
  len : Nat
  deriving DecidableEq

/-- The packed header at the front of some bytes. -/
def Header.ofBytes (bytes : Bytes) : Header :=
  ⟨bytes.getD 0 0, (bytes.getD 1 0).toNat + 256 * (bytes.getD 2 0).toNat⟩

/-- A message given to the network layer: the pool block it is built in, with
whatever the block still holds, and a payload that leaves the last buffer byte
free. -/
structure Message where
  block : Packet
  payload : Bytes
  nonempty : 0 < payload.length
  fits : payload.length ≤ 1994

namespace Message

/-- Building, then encoding: `Clear`, the payload, `Encode`. -/
def packet (m : Message) : Bool × Packet := (m.block.mAlloc.clear.putData m.payload).encode

/-- The frame `sendPost` hands to the socket. -/
def frame (m : Message) : Bytes := m.packet.2.readable

theorem short_bytes_value {n : Nat} (small : n < 65536) :
    (UInt8.ofNat n).toNat + 256 * (UInt8.ofNat (n / 256)).toNat = n := by
  simp only [UInt8.toNat_ofNat']
  omega

/-- What building leaves in the block: the payload behind the header cells,
then the code and the length written over the first three of them. -/
theorem packet_eq (m : Message) :
    m.packet = (true, { m.block with
      buffer := store (store (store m.block.buffer 5 m.payload) 0 [networkCode]) 1
        (Packet.shortBytes m.payload.length)
      readPos := 0
      writePos := 5 + m.payload.length
      dataSize := 5 + m.payload.length
      refCount := 0
      encodeFlag := true }) := by
  have nonempty := m.nonempty
  have fits := m.fits
  have put : m.block.mAlloc.clear.putData m.payload = { m.block with
      buffer := store m.block.buffer 5 m.payload
      readPos := 0
      writePos := 5 + m.payload.length
      dataSize := 5 + m.payload.length
      refCount := 0
      encodeFlag := false } := by
    rw [Packet.putData, if_neg (by omega), if_neg (by
      simp only [Packet.endPos, Packet.clear, bufferDefault, networkHeaderSize]; omega)]
    rfl
  rw [packet, put, Packet.encode, if_neg (by dsimp only; omega)]
  have len : ((5 : Int) + m.payload.length - 0 - networkHeaderSize).toNat = m.payload.length := by
    simp only [networkHeaderSize]
    omega
  simp only [len]

/-- `Encode` accepts every message. -/
theorem packet_encoded (m : Message) : m.packet.1 = true := by
  rw [packet_eq]

/-- A frame is five header bytes followed by the payload. -/
theorem frame_split (m : Message) :
    ∃ header : Bytes, header.length = networkHeaderSize ∧ m.frame = header ++ m.payload ∧
      Header.ofBytes header = ⟨networkCode, m.payload.length⟩ := by
  have nonempty := m.nonempty
  have fits := m.fits
  let inner := store (store (store m.block.buffer 5 m.payload) 0 [networkCode]) 1
    (Packet.shortBytes m.payload.length)
  have read : m.frame = load inner 0 (5 + m.payload.length) := by
    have width : ((5 : Int) + m.payload.length - 0).toNat = 5 + m.payload.length := by omega
    rw [frame, packet_eq, Packet.readable]
    simp only [width, inner]
  refine ⟨load inner 0 5, by simp [networkHeaderSize], ?_, ?_⟩
  · rw [read, load_append]
    congr 1
    rw [load_store_apart _ _ _ (by simp [Packet.shortBytes]),
      load_store_apart _ _ _ (by simp)]
    exact load_store_same _ _ _
  · have code : inner 0 = networkCode := by
      rw [show inner 0 = (store (store m.block.buffer 5 m.payload) 0 [networkCode]) 0 from
        store_outside _ _ _ (by simp)]
      exact store_inside _ 0 [networkCode] (i := 0) (by simp)
    have low : inner 1 = UInt8.ofNat m.payload.length :=
      store_inside _ 1 (Packet.shortBytes m.payload.length) (i := 0) (by simp [Packet.shortBytes])
    have high : inner 2 = UInt8.ofNat (m.payload.length / 256) :=
      store_inside _ 1 (Packet.shortBytes m.payload.length) (i := 1) (by simp [Packet.shortBytes])
    have cells : load inner 0 5 = [inner 0, inner 1, inner 2, inner 3, inner 4] := rfl
    rw [cells, code, low, high]
    have len := short_bytes_value (n := m.payload.length) (by omega)
    simpa only [Header.ofBytes, List.getD_cons_zero, List.getD_cons_succ, Header.mk.injEq, true_and]
      using len

theorem length_frame (m : Message) : m.frame.length = m.payload.length + networkHeaderSize := by
  obtain ⟨header, width, spelling, _⟩ := m.frame_split
  rw [spelling, List.length_append, width, Nat.add_comm]

end Message

end NewNameAuction
