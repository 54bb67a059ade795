import NewNameAuction.LittleEndian
import NewNameAuction.Packet
import NewNameAuction.Runs

/-! `CPacket` as a bounded queue of bytes. What stands between `readPos` and
`writePos` is the queue: every operation that writes appends to it, every one that
reads or skips takes from its front, and one for which the space or the data does
not suffice changes nothing. -/
namespace NewNameAuction.PacketQueue
open ByteMemory

/-! ## The integer types -/

/-- The integer types with an `operator <<` and an `operator >>`. -/
inductive IntType
  | unsignedChar
  | signedChar
  | char
  | short
  | unsignedShort
  | int
  | unsignedInt
  | long
  | unsignedLong
  | int64
  deriving DecidableEq

namespace IntType

/-- `sizeof`. -/
def size : IntType → Nat
  | .unsignedChar | .signedChar | .char => 1
  | .short | .unsignedShort => 2
  | .int | .unsignedInt | .long | .unsignedLong => 4
  | .int64 => 8

/-- The values of a type. `char` is signed, `long` has 32 bits. -/
abbrev Value : IntType → Type
  | .unsignedChar => UInt8
  | .signedChar | .char => Int8
  | .short => Int16
  | .unsignedShort => UInt16
  | .int | .long => Int32
  | .unsignedInt | .unsignedLong => UInt32
  | .int64 => Int64

/-- The bits of a value, as a number. -/
def bits : (t : IntType) → t.Value → Nat
  | .unsignedChar, value => UInt8.toNat value
  | .signedChar, value | .char, value => (Int8.toUInt8 value).toNat
  | .short, value => (Int16.toUInt16 value).toNat
  | .unsignedShort, value => UInt16.toNat value
  | .int, value | .long, value => (Int32.toUInt32 value).toNat
  | .unsignedInt, value | .unsignedLong, value => UInt32.toNat value
  | .int64, value => (Int64.toUInt64 value).toNat

/-- The value with these bits. -/
def ofBits : (t : IntType) → Nat → t.Value
  | .unsignedChar, n => UInt8.ofNat n
  | .signedChar, n | .char, n => (UInt8.ofNat n).toInt8
  | .short, n => (UInt16.ofNat n).toInt16
  | .unsignedShort, n => UInt16.ofNat n
  | .int, n | .long, n => (UInt32.ofNat n).toInt32
  | .unsignedInt, n | .unsignedLong, n => UInt32.ofNat n
  | .int64, n => (UInt64.ofNat n).toInt64

/-- A value as it lies in memory. -/
def encode (t : IntType) (value : t.Value) : Bytes := leBytes t.size (t.bits value)

def decode (t : IntType) (bytes : Bytes) : t.Value := t.ofBits (littleEndian bytes)

variable (t : IntType)

theorem size_pos : 0 < t.size := by
  cases t <;> decide

theorem bits_lt (value : t.Value) : t.bits value < 256 ^ t.size := by
  cases t
  case unsignedChar => exact UInt8.toNat_lt value
  case signedChar => exact (Int8.toUInt8 value).toNat_lt
  case char => exact (Int8.toUInt8 value).toNat_lt
  case short => exact (Int16.toUInt16 value).toNat_lt
  case unsignedShort => exact UInt16.toNat_lt value
  case int => exact (Int32.toUInt32 value).toNat_lt
  case unsignedInt => exact UInt32.toNat_lt value
  case long => exact (Int32.toUInt32 value).toNat_lt
  case unsignedLong => exact UInt32.toNat_lt value
  case int64 => exact (Int64.toUInt64 value).toNat_lt

theorem ofBits_bits (value : t.Value) : t.ofBits (t.bits value) = value := by
  cases t <;> simp [ofBits, bits]

theorem bits_ofBits {n : Nat} (fits : n < 256 ^ t.size) : t.bits (t.ofBits n) = n := by
  cases t <;> simp only [size] at fits <;> simp [ofBits, bits] <;> omega

@[simp] theorem length_encode (value : t.Value) : (t.encode value).length = t.size :=
  length_leBytes _ _

@[simp] theorem decode_encode (value : t.Value) : t.decode (t.encode value) = value := by
  rw [decode, encode, littleEndian_of_lt (t.bits_lt value), ofBits_bits]

/-- A value read from memory lies in its variable as the bytes it was read from. -/
theorem encode_decode {bytes : Bytes} (width : bytes.length = t.size) :
    t.encode (t.decode bytes) = bytes := by
  have small := littleEndian_lt bytes
  rw [width] at small
  rw [encode, decode, bits_ofBits t small, ← width, leBytes_littleEndian]

end IntType

/-! ## Operations -/

/-- A difference of pointers, compared with a `sizeof`, is taken as a `size_t`. -/
def sizeT (difference : Int) : Nat := (difference % 2 ^ 64).toNat

/-- `operator <<`. -/
def shiftLeft (p : Packet) (t : IntType) (value : t.Value) : Packet :=
  if t.size ≤ sizeT (Packet.endPos - p.writePos) then
    { p with
      buffer := store p.buffer p.writePos (t.encode value)
      writePos := p.writePos + t.size
      dataSize := p.dataSize + t.size }
  else p

/-- `operator >>` into a variable with this value before. -/
def shiftRight (p : Packet) (t : IntType) (old : t.Value) : t.Value × Packet :=
  if t.size ≤ sizeT (p.writePos - p.readPos) then
    (t.decode (load p.buffer p.readPos t.size),
      { p with
        readPos := p.readPos + t.size
        dataSize := p.dataSize - t.size })
  else (old, p)

/-- What the operations with a size return. -/
def moved (available size : Int) : Int :=
  if size ≤ 0 then 0 else if available < size then -1 else size

/-- What they return when they do nothing. -/
def refusal (size : Int) : Int := if size ≤ 0 then 0 else -1

/-- `PutData` from the memory at `chpSrc`. -/
def putData (p : Packet) (chpSrc : Memory) (putSize : Int) : Int × Packet :=
  (moved (Packet.endPos - p.writePos) putSize,
    if putSize ≤ 0 then p
    else if Packet.endPos - p.writePos < putSize then p
    else
      { p with
        buffer := store p.buffer p.writePos (load chpSrc 0 putSize.toNat)
        writePos := p.writePos + putSize
        dataSize := p.dataSize + putSize })

/-- `GetData`: what it returns and the bytes it copies to `chpDest`. -/
def getData (p : Packet) (getSize : Int) : Int × Bytes × Packet :=
  (moved (p.writePos - p.readPos) getSize,
    if getSize ≤ 0 then ([], p)
    else if p.writePos - p.readPos < getSize then ([], p)
    else
      (load p.buffer p.readPos getSize.toNat,
        { p with
          readPos := p.readPos + getSize
          dataSize := p.dataSize - getSize }))

def moveWritePos (p : Packet) (size : Int) : Int × Packet :=
  (moved (Packet.endPos - p.writePos) size, p.moveWritePos size)

def moveReadPos (p : Packet) (size : Int) : Int × Packet :=
  (moved (p.writePos - p.readPos) size, p.moveReadPos size)

inductive PacketCall
  | shiftLeft (t : IntType) (value : t.Value)
  | shiftRight (t : IntType) (old : t.Value)
  | putData (chpSrc : Memory) (putSize : Int)
  | getData (getSize : Int)
  | moveWritePos (size : Int)
  | moveReadPos (size : Int)

/-- What a call leaves of a packet. -/
def call (p : Packet) : PacketCall → Packet
  | .shiftLeft t value => shiftLeft p t value
  | .shiftRight t old => (shiftRight p t old).2
  | .putData chpSrc putSize => (putData p chpSrc putSize).2
  | .getData getSize => (getData p getSize).2.2
  | .moveWritePos size => (moveWritePos p size).2
  | .moveReadPos size => (moveReadPos p size).2

/-- The number of bytes a call asks for. -/
def PacketCall.size : PacketCall → Int
  | .shiftLeft t _ | .shiftRight t _ => t.size
  | .putData _ size | .getData size | .moveWritePos size | .moveReadPos size => size

/-- The space behind `writePos` for a call that writes, the data for one that reads. -/
def available (p : Packet) : PacketCall → Int
  | .shiftLeft _ _ | .putData _ _ | .moveWritePos _ => Packet.endPos - p.writePos
  | .shiftRight _ _ | .getData _ | .moveReadPos _ => p.writePos - p.readPos

/-- The space or the data suffices for a call, which asks for something. -/
def Suffices (p : Packet) (c : PacketCall) : Prop := 0 < c.size ∧ c.size ≤ available p c

instance (p : Packet) (c : PacketCall) : Decidable (Suffices p c) := inferInstanceAs (Decidable (_ ∧ _))

/-- The bytes a successful write is given. `MoveWritePos` takes those that stand in
the buffer already. -/
def written (p : Packet) : PacketCall → Bytes
  | .shiftLeft t value => t.encode value
  | .putData chpSrc putSize => load chpSrc 0 putSize.toNat
  | .moveWritePos size => load p.buffer p.writePos size.toNat
  | _ => []

/-- The bytes a successful read leaves in the caller's variable or memory, or those
that `MoveReadPos` skips. -/
def read (p : Packet) : PacketCall → Bytes
  | .shiftRight t old => t.encode (shiftRight p t old).1
  | .getData getSize => (getData p getSize).2.1
  | .moveReadPos size => load p.buffer p.readPos size.toNat
  | _ => []

/-- What a call appends to the queue. -/
def appended (p : Packet) (c : PacketCall) : Bytes := if Suffices p c then written p c else []

/-- What a call takes from the front of the queue. -/
def taken (p : Packet) (c : PacketCall) : Bytes := if Suffices p c then read p c else []

/-- The bytes in the queue. -/
def contents (p : Packet) : Bytes := load p.buffer p.readPos (p.writePos - p.readPos).toNat

/-- The positions stand in order, and `DataSize` is kept apart from them but in step. -/
structure Sound (p : Packet) : Prop where
  read_first : 0 ≤ p.readPos
  read_write : p.readPos ≤ p.writePos
  write_end : p.writePos ≤ Packet.endPos
  dataSize : p.dataSize = p.writePos - p.readPos

/-! ## One call -/

/-- The packet with some bytes put behind `writePos`. -/
def append (p : Packet) (bytes : Bytes) : Packet :=
  { p with
    buffer := store p.buffer p.writePos bytes
    writePos := p.writePos + bytes.length
    dataSize := p.dataSize + bytes.length }

/-- The packet with some bytes taken off the front. -/
def advance (p : Packet) (count : Nat) : Packet :=
  { p with
    readPos := p.readPos + count
    dataSize := p.dataSize - count }

/-- What a call does: nothing, or append bytes for which there is space, or take bytes
that are there. -/
inductive Outcome (p : Packet) (c : PacketCall) : Prop
  | nothing (short : ¬Suffices p c) (same : call p c = p)
  | append (served : Suffices p c) (width : ((written p c).length : Int) ≤ Packet.endPos - p.writePos)
      (nothing : read p c = []) (after : call p c = append p (written p c))
  | take (count : Nat) (served : Suffices p c) (width : (count : Int) ≤ p.writePos - p.readPos)
      (nothing : written p c = []) (front : read p c = load p.buffer p.readPos count)
      (after : call p c = advance p count)

section Call
variable {p : Packet}

theorem sizeT_eq {difference : Int} (nonneg : 0 ≤ difference) (small : difference < 2 ^ 64) :
    (sizeT difference : Int) = difference := by
  rw [sizeT, Int.emod_eq_of_lt nonneg small, Int.toNat_of_nonneg nonneg]

theorem store_load (m : Memory) (start : Int) (count : Nat) : store m start (load m start count) = m := by
  funext cell
  by_cases inside : start ≤ cell ∧ cell < start + (load m start count).length
  · obtain ⟨i, offset⟩ := Int.eq_ofNat_of_zero_le (Int.sub_nonneg_of_le inside.1)
    obtain rfl : cell = start + (i : Int) := by omega
    have within : i < (load m start count).length := by omega
    rw [store_inside m start _ within, getElem_load]
  · exact store_outside m start _ (by omega)

theorem contents_append (sound : Sound p) (bytes : Bytes) : contents (append p bytes) = contents p ++ bytes := by
  have order := sound.read_write
  have count : (p.writePos + bytes.length - p.readPos).toNat =
      (p.writePos - p.readPos).toNat + bytes.length := by omega
  have behind : p.readPos + ((p.writePos - p.readPos).toNat : Nat) = p.writePos := by omega
  simp only [contents, append]
  rw [count, load_append, behind, load_store_same, load_store_apart _ _ _ (.inl (by omega))]

theorem contents_advance {count : Nat} (width : (count : Int) ≤ p.writePos - p.readPos) :
    contents p = load p.buffer p.readPos count ++ contents (advance p count) := by
  have split : (p.writePos - p.readPos).toNat = count + (p.writePos - (p.readPos + count)).toNat := by
    omega
  simp only [contents, advance]
  rw [split, load_append]

theorem Sound.append (sound : Sound p) {bytes : Bytes}
    (width : (bytes.length : Int) ≤ Packet.endPos - p.writePos) : Sound (append p bytes) := by
  obtain ⟨first, order, last, size⟩ := sound
  constructor <;> simp only [PacketQueue.append] <;> omega

theorem Sound.advance (sound : Sound p) {count : Nat} (width : (count : Int) ≤ p.writePos - p.readPos) :
    Sound (advance p count) := by
  obtain ⟨first, order, last, size⟩ := sound
  constructor <;> simp only [PacketQueue.advance] <;> omega

/-- The space as `operator <<` computes it. -/
theorem space_sizeT (sound : Sound p) :
    (sizeT (Packet.endPos - p.writePos) : Int) = Packet.endPos - p.writePos := by
  obtain ⟨first, order, last, _⟩ := sound
  apply sizeT_eq
  · omega
  · simp only [Packet.endPos, bufferDefault]
    omega

/-- The data as `operator >>` computes it. -/
theorem data_sizeT (sound : Sound p) : (sizeT (p.writePos - p.readPos) : Int) = p.writePos - p.readPos := by
  obtain ⟨first, order, last, _⟩ := sound
  apply sizeT_eq
  · omega
  · simp only [Packet.endPos, bufferDefault] at last
    omega

theorem shiftLeft_outcome (sound : Sound p) (t : IntType) (value : t.Value) :
    Outcome p (.shiftLeft t value) := by
  have space := space_sizeT sound
  have positive := t.size_pos
  by_cases fits : t.size ≤ sizeT (Packet.endPos - p.writePos)
  · refine .append ⟨Int.natCast_pos.mpr positive, ?_⟩ ?_ rfl ?_
    · simp only [PacketCall.size, available]
      omega
    · simp only [written, IntType.length_encode]
      omega
    · simp only [call, shiftLeft, if_pos fits, written, append, IntType.length_encode]
  · refine .nothing (fun served => ?_) ?_
    · have enough := served.2
      simp only [PacketCall.size, available] at enough
      omega
    · simp only [call, shiftLeft, if_neg fits]

theorem shiftRight_outcome (sound : Sound p) (t : IntType) (old : t.Value) :
    Outcome p (.shiftRight t old) := by
  have data := data_sizeT sound
  have positive := t.size_pos
  by_cases fits : t.size ≤ sizeT (p.writePos - p.readPos)
  · refine .take t.size ⟨Int.natCast_pos.mpr positive, ?_⟩ (by omega) rfl ?_ ?_
    · simp only [PacketCall.size, available]
      omega
    · simp only [read, shiftRight, if_pos fits]
      exact t.encode_decode (length_load ..)
    · simp only [call, shiftRight, if_pos fits, advance]
  · refine .nothing (fun served => ?_) ?_
    · have enough := served.2
      simp only [PacketCall.size, available] at enough
      omega
    · simp only [call, shiftRight, if_neg fits]

/-- The two checks of an operation with a size, as one. -/
private theorem sized_guard {α : Type} {available size : Int} {idle done : α} :
    (if size ≤ 0 then idle else if available < size then idle else done) =
      if 0 < size ∧ size ≤ available then done else idle := by
  by_cases positive : size ≤ 0
  · rw [if_pos positive, if_neg (by omega)]
  · by_cases short : available < size
    · rw [if_neg positive, if_pos short, if_neg (by omega)]
    · rw [if_neg positive, if_neg short, if_pos ⟨by omega, by omega⟩]

private theorem moved_served {available size : Int} (served : 0 < size ∧ size ≤ available) :
    moved available size = size := by
  rw [moved, if_neg (by omega), if_neg (by omega)]

private theorem moved_refused {available size : Int} (short : ¬(0 < size ∧ size ≤ available)) :
    moved available size = refusal size := by
  rw [moved, refusal]
  by_cases positive : size ≤ 0
  · rw [if_pos positive, if_pos positive]
  · rw [if_neg positive, if_neg positive, if_pos (by omega)]

private theorem sized_within {available size : Int} (served : 0 < size ∧ size ≤ available) :
    ((size.toNat : Nat) : Int) ≤ available := by
  omega

/-- The front of the queue, as it stands in the buffer. -/
theorem contents_take {count : Nat} (width : (count : Int) ≤ p.writePos - p.readPos) :
    (contents p).take count = load p.buffer p.readPos count := by
  rw [contents_advance width, List.take_left' (length_load ..)]

section Sized
variable {chpSrc : Memory} {size : Int}

theorem putData_served (served : Suffices p (.putData chpSrc size)) :
    putData p chpSrc size = (size, append p (load chpSrc 0 size.toNat)) := by
  have guard : 0 < size ∧ size ≤ Packet.endPos - p.writePos := served
  have width : ((size.toNat : Nat) : Int) = size := Int.toNat_of_nonneg (le_of_lt served.1)
  simp only [putData, sized_guard, moved_served guard, if_pos guard, append, length_load, width]

theorem putData_refused (short : ¬Suffices p (.putData chpSrc size)) :
    putData p chpSrc size = (refusal size, p) := by
  have guard : ¬(0 < size ∧ size ≤ Packet.endPos - p.writePos) := short
  simp only [putData, sized_guard, moved_refused guard, if_neg guard]

theorem getData_served (served : Suffices p (.getData size)) :
    getData p size = (size, (contents p).take size.toNat, advance p size.toNat) := by
  have guard : 0 < size ∧ size ≤ p.writePos - p.readPos := served
  have width : ((size.toNat : Nat) : Int) = size := Int.toNat_of_nonneg (le_of_lt served.1)
  simp only [getData, sized_guard, moved_served guard, if_pos guard,
    contents_take (sized_within guard), advance, width]

theorem getData_refused (short : ¬Suffices p (.getData size)) :
    getData p size = (refusal size, [], p) := by
  have guard : ¬(0 < size ∧ size ≤ p.writePos - p.readPos) := short
  simp only [getData, sized_guard, moved_refused guard, if_neg guard]

theorem moveWritePos_served (served : Suffices p (.moveWritePos size)) :
    moveWritePos p size = (size, append p (load p.buffer p.writePos size.toNat)) := by
  have guard : 0 < size ∧ size ≤ Packet.endPos - p.writePos := served
  have width : ((size.toNat : Nat) : Int) = size := Int.toNat_of_nonneg (le_of_lt served.1)
  simp only [moveWritePos, Packet.moveWritePos, sized_guard, moved_served guard, if_pos guard, append,
    length_load, width, store_load]

theorem moveWritePos_refused (short : ¬Suffices p (.moveWritePos size)) :
    moveWritePos p size = (refusal size, p) := by
  have guard : ¬(0 < size ∧ size ≤ Packet.endPos - p.writePos) := short
  simp only [moveWritePos, Packet.moveWritePos, sized_guard, moved_refused guard, if_neg guard]

theorem moveReadPos_served (served : Suffices p (.moveReadPos size)) :
    moveReadPos p size = (size, advance p size.toNat) := by
  have guard : 0 < size ∧ size ≤ p.writePos - p.readPos := served
  have width : ((size.toNat : Nat) : Int) = size := Int.toNat_of_nonneg (le_of_lt served.1)
  simp only [moveReadPos, Packet.moveReadPos, sized_guard, moved_served guard, if_pos guard, advance, width]

theorem moveReadPos_refused (short : ¬Suffices p (.moveReadPos size)) :
    moveReadPos p size = (refusal size, p) := by
  have guard : ¬(0 < size ∧ size ≤ p.writePos - p.readPos) := short
  simp only [moveReadPos, Packet.moveReadPos, sized_guard, moved_refused guard, if_neg guard]

end Sized

theorem putData_outcome (chpSrc : Memory) (putSize : Int) : Outcome p (.putData chpSrc putSize) := by
  by_cases served : Suffices p (.putData chpSrc putSize)
  · refine .append served ?_ rfl (congrArg Prod.snd (putData_served served))
    rw [written, length_load]
    exact sized_within served
  · exact .nothing served (congrArg Prod.snd (putData_refused served))

theorem getData_outcome (getSize : Int) : Outcome p (.getData getSize) := by
  by_cases served : Suffices p (.getData getSize)
  · have got := congrArg Prod.snd (getData_served served)
    refine .take getSize.toNat served (sized_within served) rfl ?_ (congrArg Prod.snd got)
    exact (congrArg Prod.fst got).trans (contents_take (sized_within served))
  · exact .nothing served (congrArg (fun got => got.2.2) (getData_refused served))

theorem moveWritePos_outcome (size : Int) : Outcome p (.moveWritePos size) := by
  by_cases served : Suffices p (.moveWritePos size)
  · refine .append served ?_ rfl (congrArg Prod.snd (moveWritePos_served served))
    rw [written, length_load]
    exact sized_within served
  · exact .nothing served (congrArg Prod.snd (moveWritePos_refused served))

theorem moveReadPos_outcome (size : Int) : Outcome p (.moveReadPos size) := by
  by_cases served : Suffices p (.moveReadPos size)
  · exact .take size.toNat served (sized_within served) rfl rfl
      (congrArg Prod.snd (moveReadPos_served served))
  · exact .nothing served (congrArg Prod.snd (moveReadPos_refused served))

theorem call_outcome (sound : Sound p) (c : PacketCall) : Outcome p c := by
  cases c with
  | shiftLeft t value => exact shiftLeft_outcome sound t value
  | shiftRight t old => exact shiftRight_outcome sound t old
  | putData chpSrc putSize => exact putData_outcome chpSrc putSize
  | getData getSize => exact getData_outcome getSize
  | moveWritePos size => exact moveWritePos_outcome size
  | moveReadPos size => exact moveReadPos_outcome size

theorem call_idle (sound : Sound p) {c : PacketCall} (short : ¬Suffices p c) : call p c = p := by
  cases call_outcome sound c with
  | nothing _ same => exact same
  | append served => exact absurd served short
  | take _ served => exact absurd served short

theorem call_sound (sound : Sound p) (c : PacketCall) : Sound (call p c) := by
  cases call_outcome sound c with
  | nothing _ same => rwa [same]
  | append _ width _ after => rw [after]; exact sound.append width
  | take _ _ width _ _ after => rw [after]; exact sound.advance width

/-- A call hands on what it appends and what it takes. -/
theorem call_queue (sound : Sound p) (c : PacketCall) :
    contents p ++ appended p c = taken p c ++ contents (call p c) := by
  cases call_outcome sound c with
  | nothing short same => rw [appended, taken, if_neg short, if_neg short, same, List.append_nil, List.nil_append]
  | append served _ nothing after =>
    rw [appended, taken, if_pos served, if_pos served, after, nothing, contents_append sound, List.nil_append]
  | take _ served width nothing front after =>
    rw [appended, taken, if_pos served, if_pos served, after, nothing, front, List.append_nil,
      ← contents_advance width]

end Call

/-! ## Values -/

/-- A value with its type. -/
abbrev IntValue := (t : IntType) × t.Value

/-- The bytes of some values. -/
def encodeAll (values : List IntValue) : Bytes := values.flatMap fun value => value.1.encode value.2

/-- `<<` of some values. -/
def putAll (p : Packet) (values : List IntValue) : Packet :=
  values.foldl (fun q value => shiftLeft q value.1 value.2) p

/-- `>>` into some variables, given with the values they have before. -/
def getAll : Packet → List IntValue → List IntValue × Packet
  | p, [] => ([], p)
  | p, ⟨t, old⟩ :: rest =>
    let (value, q) := shiftRight p t old
    (⟨t, value⟩ :: (getAll q rest).1, (getAll q rest).2)

section Values
variable {p : Packet}

/-- What stands in the queue is what `writePos` has moved on by. -/
theorem length_contents (sound : Sound p) : ((contents p).length : Int) = p.writePos - p.readPos := by
  have order := sound.read_write
  rw [contents, length_load]
  omega

theorem shiftLeft_fits (sound : Sound p) {t : IntType} (value : t.Value)
    (fits : (t.size : Int) ≤ Packet.endPos - p.writePos) :
    shiftLeft p t value = append p (t.encode value) := by
  have space := space_sizeT sound
  rw [shiftLeft, if_pos (by omega), append, IntType.length_encode]

/-- The stream operator and the block copy that messages are built with. -/
theorem shiftLeft_insert (sound : Sound p) (t : IntType) (value : t.Value) :
    shiftLeft p t value = p.insert (t.encode value) := by
  have space := space_sizeT sound
  by_cases fits : t.size ≤ sizeT (Packet.endPos - p.writePos)
  · rw [shiftLeft, Packet.insert, if_pos fits, IntType.length_encode, if_pos (by omega)]
  · rw [shiftLeft, Packet.insert, if_neg fits, IntType.length_encode, if_neg (by omega)]

theorem putData_block (chpSrc : Memory) (count : Nat) :
    (putData p chpSrc count).2 = p.putData (load chpSrc 0 count) := by
  have none : (count : Int) ≤ 0 ↔ count = 0 := by omega
  simp only [putData, Packet.putData, length_load, Int.toNat_natCast, none]

theorem putAll_contents (sound : Sound p) (values : List IntValue)
    (fits : ((encodeAll values).length : Int) ≤ Packet.endPos - p.writePos) :
    Sound (putAll p values) ∧ contents (putAll p values) = contents p ++ encodeAll values := by
  induction values generalizing p with
  | nil => exact ⟨sound, (List.append_nil _).symm⟩
  | cons value rest ih =>
    rw [encodeAll, List.flatMap_cons, ← encodeAll, List.length_append, IntType.length_encode,
      Int.natCast_add] at fits
    have put := shiftLeft_fits sound value.2 (by omega)
    have after : Sound (append p (value.1.encode value.2)) := sound.append (by
      rw [IntType.length_encode]
      omega)
    rw [putAll, List.foldl_cons, ← putAll, put]
    obtain ⟨still, held⟩ := ih after (by
      simp only [append, IntType.length_encode]
      omega)
    refine ⟨still, ?_⟩
    rw [held, contents_append sound, List.append_assoc, encodeAll, encodeAll, List.flatMap_cons]

/-- A value at the front of the queue is read and taken off. -/
theorem shiftRight_front (sound : Sound p) {t : IntType} {value : t.Value} {rest : Bytes} (old : t.Value)
    (front : contents p = t.encode value ++ rest) :
    (shiftRight p t old).1 = value ∧ Sound (shiftRight p t old).2 ∧ contents (shiftRight p t old).2 = rest := by
  have data := data_sizeT sound
  have length := length_contents sound
  rw [front, List.length_append, IntType.length_encode] at length
  have width : (t.size : Int) ≤ p.writePos - p.readPos := by omega
  have split := contents_advance width
  rw [front] at split
  obtain ⟨bytes, behind⟩ := List.append_inj split (by rw [IntType.length_encode, length_load])
  rw [shiftRight, if_pos (by omega)]
  refine ⟨?_, sound.advance width, behind.symm⟩
  dsimp only
  rw [← bytes, IntType.decode_encode]

theorem getAll_front (sound : Sound p) {values targets : List IntValue} {rest : Bytes}
    (front : contents p = encodeAll values ++ rest)
    (types : targets.map Sigma.fst = values.map Sigma.fst) : (getAll p targets).1 = values := by
  induction values generalizing p targets with
  | nil =>
    obtain rfl := List.map_eq_nil_iff.mp types
    rfl
  | cons value values ih =>
    obtain ⟨⟨t, old⟩, targets, rfl, same, later⟩ := List.map_eq_cons_iff.mp types
    obtain ⟨_, value⟩ := value
    dsimp only at same
    subst same
    rw [encodeAll, List.flatMap_cons, ← encodeAll, List.append_assoc] at front
    obtain ⟨read, still, behind⟩ := shiftRight_front sound old front
    rw [getAll]
    dsimp only
    rw [read, ih still behind later]

/-- Values that fit are read back, once what stood before them is skipped. -/
theorem values_back (sound : Sound p) {values targets : List IntValue}
    (fits : ((encodeAll values).length : Int) ≤ Packet.endPos - p.writePos)
    (types : targets.map Sigma.fst = values.map Sigma.fst) :
    (getAll (moveReadPos (putAll p values) (contents p).length).2 targets).1 = values := by
  obtain ⟨still, held⟩ := putAll_contents sound values fits
  have length := length_contents still
  rw [held, List.length_append] at length
  have width : ((contents p).length : Int) ≤ (putAll p values).writePos - (putAll p values).readPos := by
    omega
  have skipped : (moveReadPos (putAll p values) (contents p).length).2 =
      advance (putAll p values) (contents p).length := by
    rw [moveReadPos, Packet.moveReadPos, sized_guard]
    by_cases empty : (0 : Int) < (contents p).length
    · rw [if_pos ⟨empty, width⟩, advance]
    · have none : (contents p).length = 0 := by omega
      rw [if_neg (fun both => empty both.1), none, advance, Int.natCast_zero, Int.add_zero, Int.sub_zero]
  have split := contents_advance width
  rw [held] at split
  obtain ⟨_, behind⟩ := List.append_inj split (by rw [length_load])
  have front : contents (advance (putAll p values) (contents p).length) = encodeAll values ++ [] := by
    rw [← behind, List.append_nil]
  rw [skipped, getAll_front (still.advance width) front types]

end Values

/-! ## Runs -/

/-- A step is a call. Its label says in which state the packet was called. -/
def PacketStep (p : Packet) (label : Packet × PacketCall) (q : Packet) : Prop :=
  label.1 = p ∧ call p label.2 = q

/-- What the calls return and leave where the space or the data suffices. -/
structure Serves (p : Packet) : Prop where
  insert : ∀ t value, Suffices p (.shiftLeft t value) →
    shiftLeft p t value = append p (t.encode value)
  extract : ∀ t old, Suffices p (.shiftRight t old) →
    shiftRight p t old = (t.decode ((contents p).take t.size), advance p t.size)
  put : ∀ chpSrc putSize, Suffices p (.putData chpSrc putSize) →
    putData p chpSrc putSize = (putSize, append p (load chpSrc 0 putSize.toNat))
  get : ∀ getSize, Suffices p (.getData getSize) →
    getData p getSize = (getSize, (contents p).take getSize.toNat, advance p getSize.toNat)
  moveWrite : ∀ size, Suffices p (.moveWritePos size) →
    moveWritePos p size = (size, append p (load p.buffer p.writePos size.toNat))
  moveRead : ∀ size, Suffices p (.moveReadPos size) →
    moveReadPos p size = (size, advance p size.toNat)

/-- What they return where it does not: a variable keeps its value, and nothing is
copied to the caller. -/
structure Refuses (p : Packet) : Prop where
  extract : ∀ t old, ¬Suffices p (.shiftRight t old) → (shiftRight p t old).1 = old
  put : ∀ chpSrc putSize, ¬Suffices p (.putData chpSrc putSize) →
    (putData p chpSrc putSize).1 = refusal putSize
  get : ∀ getSize, ¬Suffices p (.getData getSize) →
    getData p getSize = (refusal getSize, [], p)
  moveWrite : ∀ size, ¬Suffices p (.moveWritePos size) → (moveWritePos p size).1 = refusal size
  moveRead : ∀ size, ¬Suffices p (.moveReadPos size) → (moveReadPos p size).1 = refusal size

section Answers
variable {p : Packet}

private theorem sound_serves (sound : Sound p) : Serves p where
  insert t value served := by
    have space := space_sizeT sound
    have enough : (t.size : Int) ≤ Packet.endPos - p.writePos := served.2
    exact shiftLeft_fits sound value enough
  extract t old served := by
    have data := data_sizeT sound
    have enough : (t.size : Int) ≤ p.writePos - p.readPos := served.2
    rw [shiftRight, if_pos (by omega), contents_take enough]
    rfl
  put _ _ := putData_served
  get _ := getData_served
  moveWrite _ := moveWritePos_served
  moveRead _ := moveReadPos_served

private theorem sound_refuses (sound : Sound p) : Refuses p where
  extract t old short := by
    have data := data_sizeT sound
    have few : ¬(t.size : Int) ≤ p.writePos - p.readPos := fun enough =>
      short ⟨Int.natCast_pos.mpr t.size_pos, enough⟩
    rw [shiftRight, if_neg (by omega)]
  put _ _ short := congrArg Prod.fst (putData_refused short)
  get _ := getData_refused
  moveWrite _ short := congrArg Prod.fst (moveWritePos_refused short)
  moveRead _ short := congrArg Prod.fst (moveReadPos_refused short)

end Answers

/-- A packet that held some bytes first is a queue. -/
structure ByteQueue (first : Bytes) (labels : List (Packet × PacketCall)) (p : Packet) : Prop where
  sound : Sound p
  serves : Serves p
  refuses : Refuses p
  idle : ∀ c, ¬Suffices p c → call p c = p
  order : first ++ labels.flatMap (fun label => appended label.1 label.2) =
    labels.flatMap (fun label => taken label.1 label.2) ++ contents p
  back : ∀ values targets : List IntValue,
    ((encodeAll values).length : Int) ≤ Packet.endPos - p.writePos →
    targets.map Sigma.fst = values.map Sigma.fst →
    (getAll (moveReadPos (putAll p values) (contents p).length).2 targets).1 = values

private theorem run_queue {start p : Packet} {labels : List (Packet × PacketCall)} (sound : Sound start)
    (run : Run PacketStep start labels p) : ByteQueue (contents start) labels p := by
  have kept : ∀ s label t, Sound s → PacketStep s label t → Sound t := by
    rintro s label t sound ⟨_, rfl⟩
    exact call_sound sound label.2
  have order : ∀ s label t, Sound s → PacketStep s label t →
      contents s ++ appended label.1 label.2 = taken label.1 label.2 ++ contents t := by
    rintro s label t sound ⟨rfl, rfl⟩
    exact call_queue sound label.2
  have after := run.invariant kept sound
  refine ⟨after, sound_serves after, sound_refuses after, fun c short => call_idle after short, ?_,
    fun values targets => values_back after⟩
  exact (run.mono_invariant kept (fun s label t sound taken => order s label t sound taken) sound).queue
    contents (fun _ _ _ now => now)

theorem clear_sound (block : Packet) : Sound block.clear := by
  constructor <;> simp [Packet.clear, Packet.endPos, bufferDefault, networkHeaderSize]

theorem clearNetwork_sound (block : Packet) : Sound block.clearNetwork := by
  constructor <;> simp [Packet.clearNetwork, Packet.endPos, bufferDefault]

theorem packet_byte_queue (block : Packet) {p : Packet} {labels : List (Packet × PacketCall)} :
    (Run PacketStep block.clear labels p →
      ByteQueue (load block.buffer 0 networkHeaderSize) labels p) ∧
    (Run PacketStep block.clearNetwork labels p → ByteQueue [] labels p) := by
  constructor
  · intro run
    exact run_queue (clear_sound block) run
  · intro run
    exact run_queue (clearNetwork_sound block) run

/-- A `short` put behind the header, an `int` read across both, and a packet with
nothing to skip. -/
theorem packet_byte_queue_three :
    let block : Packet := ⟨fun _ => 7, 40, 30, 3, 1, true⟩
    let second := call block.clear (.shiftLeft .short (300 : Int16))
    ByteQueue [7, 7, 7, 7, 7] [(block.clear, .shiftLeft .short (300 : Int16)), (second, .shiftRight .int (0 : Int32))]
        (call second (.shiftRight .int (0 : Int32))) ∧
      ByteQueue [] [(block.clearNetwork, .moveReadPos 1)] block.clearNetwork := by
  intro block second
  exact ⟨(packet_byte_queue block).1 (.cons ⟨rfl, rfl⟩ <| .single ⟨rfl, rfl⟩),
    (packet_byte_queue block).2 (.single ⟨rfl, rfl⟩)⟩

end NewNameAuction.PacketQueue
