import NewNameAuction.ByteMemory

/-! `CRingBuffer`, the byte ring every session receives into. Positions are
offsets from `begin`, so `begin` is 0 and the source's pointer comparisons and
differences are comparisons and differences of integers. A position names the
cell before the one it stands for: data lies in `begin + 1 .. end`. -/
namespace NewNameAuction
open ByteMemory

structure RingBuffer where
  size : Int
  mem : Memory
  front : Int
  rear : Int

namespace RingBuffer

/-- `begin + size - 1`, the last cell. -/
def endPos (r : RingBuffer) : Int := r.size - 1

def usableSize (r : RingBuffer) : Int := r.size - 1

/-- The constructor: both positions start at `begin`, whatever the fresh
memory holds. -/
def create (bufferSize : Int) (mem : Memory) : RingBuffer := ⟨bufferSize, mem, 0, 0⟩

def getUseSize (r : RingBuffer) : Int :=
  if r.front = r.rear then 0
  else
    let tempFront := if r.front = r.endPos then 0 else r.front
    if tempFront ≤ r.rear then r.rear - tempFront
    else r.usableSize - (tempFront - r.rear)

def getFreeSize (r : RingBuffer) : Int :=
  if r.front = 0 then r.usableSize - r.getUseSize
  else r.usableSize - 1 - r.getUseSize

def directEnqueueSize (r : RingBuffer) : Int :=
  if r.front ≤ r.rear then
    if r.rear = r.endPos then r.front - 1 else r.endPos - r.rear
  else r.front - r.rear - 1

def directDequeueSize (r : RingBuffer) : Int :=
  if r.front = r.endPos ∧ r.rear = r.endPos then 0
  else
    let tempFront := if r.front = r.endPos then 0 else r.front
    if tempFront ≤ r.rear then r.rear - tempFront else r.endPos - tempFront

/-- `Enqueue` of the bytes at `chpData`: the return value and the ring afterwards. -/
def enqueue (r : RingBuffer) (chpData : Memory) (enqueueSize : Int) : Int × RingBuffer :=
  let tempFront := if r.front = r.endPos then 0 else r.front
  let tempRear := if r.rear = r.endPos then 0 else r.rear
  if enqueueSize ≤ 0 then (0, r)
  else if r.getFreeSize < enqueueSize then (-1, r)
  else if tempFront ≤ tempRear then
    if enqueueSize ≤ r.endPos - tempRear then
      (enqueueSize, { r with
        mem := store r.mem (tempRear + 1) (load chpData 0 enqueueSize.toNat)
        rear := tempRear + enqueueSize })
    else
      let firstLength := r.endPos - tempRear
      let secondLength := enqueueSize - firstLength
      (enqueueSize, { r with
        mem := store (store r.mem (tempRear + 1) (load chpData 0 firstLength.toNat)) 1
          (load chpData firstLength secondLength.toNat)
        rear := secondLength })
  else
    (enqueueSize, { r with
      mem := store r.mem (tempRear + 1) (load chpData 0 enqueueSize.toNat)
      rear := tempRear + enqueueSize })

/-- `Dequeue`: the return value, the bytes copied to the destination, and the
ring afterwards. -/
def dequeue (r : RingBuffer) (dequeueSize : Int) : Int × Bytes × RingBuffer :=
  if dequeueSize ≤ 0 then (0, [], r)
  else if r.getUseSize < dequeueSize then (-1, [], r)
  else if r.front = r.rear then (0, [], r)
  else
    let tempFront := if r.front = r.endPos then 0 else r.front
    if tempFront ≤ r.rear then
      (dequeueSize, load r.mem (tempFront + 1) dequeueSize.toNat,
        { r with front := tempFront + dequeueSize })
    else if dequeueSize ≤ r.endPos - tempFront then
      (dequeueSize, load r.mem (tempFront + 1) dequeueSize.toNat,
        { r with front := tempFront + dequeueSize })
    else
      let firstLength := r.endPos - tempFront
      let secondLength := dequeueSize - firstLength
      (dequeueSize, load r.mem (tempFront + 1) firstLength.toNat ++ load r.mem 1 secondLength.toNat,
        { r with front := secondLength })

/-- `Peek` checks the sizes as `Dequeue` does but leaves `front` as it stands,
also when it is at `end`. -/
def peek (r : RingBuffer) (peekSize : Int) : Int × Bytes :=
  if r.getUseSize < peekSize then (-1, [])
  else if peekSize ≤ 0 then (0, [])
  else if r.front ≤ r.rear then (peekSize, load r.mem (r.front + 1) peekSize.toNat)
  else if peekSize ≤ r.endPos - r.front then (peekSize, load r.mem (r.front + 1) peekSize.toNat)
  else
    let firstLength := r.endPos - r.front
    let secondLength := peekSize - firstLength
    (peekSize, load r.mem (r.front + 1) firstLength.toNat ++ load r.mem 1 secondLength.toNat)

def moveRear (r : RingBuffer) (moveSize : Int) : RingBuffer :=
  if moveSize ≤ 0 then r
  else
    let tempRear := if r.rear = r.endPos then 0 else r.rear
    if moveSize ≤ r.endPos - tempRear then { r with rear := tempRear + moveSize }
    else { r with rear := moveSize - (r.endPos - tempRear) }

/-- `MoveFront`: the return value and the ring afterwards. -/
def moveFront (r : RingBuffer) (moveSize : Int) : Int × RingBuffer :=
  let tempFront := if r.front = r.endPos then 0 else r.front
  if moveSize ≤ 0 then (0, r)
  else if r.size < moveSize then (-1, r)
  else if moveSize ≤ r.endPos - tempFront then (moveSize, { r with front := tempFront + moveSize })
  else (moveSize, { r with front := moveSize - (r.endPos - tempFront) })

def clearBuffer (r : RingBuffer) : RingBuffer := { r with front := 0, rear := 0 }

def getFrontBufferPtr (r : RingBuffer) : Int := if r.front = r.endPos then 1 else r.front + 1

def getRearBufferPtr (r : RingBuffer) : Int := if r.rear = r.endPos then 1 else r.rear + 1

def getBeginPtr (_ : RingBuffer) : Int := 1

/-! ## The queue a ring stands for -/

/-- Both positions lie between `begin` and `end`, and there is at least one
data cell. -/
structure InBounds (r : RingBuffer) : Prop where
  size : 2 ≤ r.size
  front : 0 ≤ r.front ∧ r.front ≤ r.endPos
  rear : 0 ≤ r.rear ∧ r.rear ≤ r.endPos

/-- `front` with its alias removed: `end` and `begin` precede the same cell. -/
def origin (r : RingBuffer) : Int := if r.front = r.endPos then 0 else r.front

/-- Where the byte stands that is `i` places behind the oldest one. -/
def cell (r : RingBuffer) (i : Nat) : Int :=
  if r.origin + i + 1 ≤ r.endPos then r.origin + i + 1 else r.origin + i + 1 - r.endPos

/-- The stored bytes, oldest first. -/
def contents (r : RingBuffer) : Bytes :=
  (List.range r.getUseSize.toNat).map fun i => r.mem (r.cell i)

theorem origin_cases (r : RingBuffer) :
    (r.front = r.endPos ∧ r.origin = 0) ∨ (r.front ≠ r.endPos ∧ r.origin = r.front) := by
  by_cases atEnd : r.front = r.endPos <;> simp [origin, atEnd]

/-- The used size by the three layouts: empty, in one piece, and wrapped. -/
theorem use_size_cases (r : RingBuffer) :
    (r.front = r.rear ∧ r.getUseSize = 0) ∨
      (r.front ≠ r.rear ∧ r.origin ≤ r.rear ∧ r.getUseSize = r.rear - r.origin) ∨
      (r.front ≠ r.rear ∧ r.rear < r.origin ∧ r.getUseSize = r.endPos - (r.origin - r.rear)) := by
  have use : r.getUseSize = if r.front = r.rear then 0 else
      if r.origin ≤ r.rear then r.rear - r.origin else r.endPos - (r.origin - r.rear) := rfl
  by_cases same : r.front = r.rear
  · exact .inl ⟨same, by rw [use, if_pos same]⟩
  · rw [if_neg same] at use
    by_cases ordered : r.origin ≤ r.rear
    · exact .inr (.inl ⟨same, ordered, by rw [use, if_pos ordered]⟩)
    · exact .inr (.inr ⟨same, by omega, by rw [use, if_neg ordered]⟩)

variable {r : RingBuffer}

theorem create_in_bounds {bufferSize : Int} (atLeast : 2 ≤ bufferSize) (mem : Memory) :
    (create bufferSize mem).InBounds :=
  ⟨atLeast, by simp [create, endPos]; omega, by simp [create, endPos]; omega⟩

theorem use_size_bounds (bounds : r.InBounds) : 0 ≤ r.getUseSize ∧ r.getUseSize ≤ r.endPos := by
  obtain ⟨size, front, rear⟩ := bounds
  simp only [getUseSize, usableSize, endPos] at *
  split_ifs <;> omega

@[simp] theorem length_contents : r.contents.length = r.getUseSize.toNat := by
  simp [contents]

theorem use_size_eq_length (bounds : r.InBounds) : r.getUseSize = r.contents.length := by
  have := use_size_bounds bounds
  simp only [length_contents]
  omega

@[simp] theorem getElem_contents {i : Nat} (inside : i < r.contents.length) :
    r.contents[i] = r.mem (r.cell i) := by
  simp [contents]

/-- The cells depend on the size and on `front` alone. -/
theorem cell_congr {r' : RingBuffer} (size : r'.size = r.size) (front : r'.front = r.front) (i : Nat) :
    r'.cell i = r.cell i := by
  obtain ⟨size', mem', front', rear'⟩ := r'
  obtain rfl : size' = r.size := size
  obtain rfl : front' = r.front := front
  rfl

/-- Bytes read cell by cell from the oldest are a prefix of the contents. -/
theorem eq_take_contents {bytes : Bytes} (fits : bytes.length ≤ r.getUseSize.toNat)
    (cells : ∀ (i : Nat) (inside : i < bytes.length), bytes[i] = r.mem (r.cell i)) :
    bytes = r.contents.take bytes.length := by
  apply List.ext_getElem
  · simpa using fits
  · intro i inside _
    rw [List.getElem_take, getElem_contents, cells i inside]

/-- A block that does not cross `end` is a run of consecutive cells. -/
theorem load_straight {count : Nat} (straight : r.origin + count ≤ r.endPos) :
    ∀ (i : Nat) (inside : i < (load r.mem (r.origin + 1) count).length),
      (load r.mem (r.origin + 1) count)[i] = r.mem (r.cell i) := by
  intro i inside
  simp only [length_load] at inside
  rw [getElem_load, cell, if_pos (by omega)]
  congr 1
  omega

/-- A block that crosses `end` goes on at `begin + 1`. -/
private theorem load_wrapped {first second : Nat} (reach : r.origin + first = r.endPos) :
    ∀ (i : Nat) (inside : i < (load r.mem (r.origin + 1) first ++ load r.mem 1 second).length),
      (load r.mem (r.origin + 1) first ++ load r.mem 1 second)[i] = r.mem (r.cell i) := by
  intro i inside
  simp only [List.length_append, length_load] at inside
  rw [List.getElem_append]
  split
  · rename_i early
    simp only [length_load] at early
    rw [getElem_load, cell, if_pos (by omega)]
    congr 1
    omega
  · rename_i late
    simp only [length_load] at late ⊢
    rw [getElem_load, cell, if_neg (by omega)]
    congr 1
    omega

/-- Removing bytes moves the origin along the cells and changes no byte. -/
private theorem contents_advance {r' : RingBuffer} {count : Nat} (memory : r'.mem = r.mem)
    (left : r'.getUseSize.toNat = r.getUseSize.toNat - count)
    (cells : ∀ i : Nat, count + i < r.getUseSize.toNat → r'.cell i = r.cell (count + i)) :
    r'.contents = r.contents.drop count := by
  apply List.ext_getElem
  · simpa using left
  · intro i inside _
    rw [List.getElem_drop, getElem_contents, getElem_contents, memory, cells i]
    simp only [length_contents] at inside
    omega

/-- `Peek` of stored bytes returns the oldest ones. Although it does not
normalise `front`, a ring whose `front` stands at `end` takes the split copy
with an empty first part. -/
theorem peek_spec (bounds : r.InBounds) {count : Nat} (positive : 0 < count)
    (stored : count ≤ r.contents.length) :
    r.peek count = ((count : Int), r.contents.take count) := by
  have use := use_size_bounds bounds
  obtain ⟨size, front, rear⟩ := bounds
  have useEq : r.getUseSize = if r.front = r.rear then 0 else
      if r.origin ≤ r.rear then r.rear - r.origin else r.endPos - (r.origin - r.rear) := rfl
  simp only [length_contents] at stored
  rw [peek, if_neg (by omega), if_neg (by omega)]
  by_cases ordered : r.front ≤ r.rear
  · have origin : r.origin = r.front := by
      rw [origin, if_neg]
      intro atEnd
      have same : r.front = r.rear := by omega
      rw [if_pos same] at useEq
      omega
    have straight : r.origin + count ≤ r.endPos := by
      split_ifs at useEq <;> omega
    rw [if_pos ordered, ← origin]
    have bytes := eq_take_contents (by simpa using stored) (load_straight straight)
    simpa using bytes
  · rw [if_neg ordered]
    by_cases short : count ≤ r.endPos - r.front
    · have origin : r.origin = r.front := by
        rw [origin, if_neg (by omega)]
      rw [if_pos short, ← origin]
      have bytes := eq_take_contents (by simpa using stored) (load_straight (by omega))
      simpa using bytes
    · rw [if_neg short]
      by_cases atEnd : r.front = r.endPos
      · have origin : r.origin = 0 := by rw [origin, if_pos atEnd]
        have bytes := eq_take_contents (r := r) (by simpa using stored)
          (load_straight (r := r) (by omega))
        simpa [atEnd, origin] using bytes
      · have origin : r.origin = r.front := by rw [origin, if_neg atEnd]
        have bytes := @eq_take_contents r
          (load r.mem (r.origin + 1) (r.endPos - r.front).toNat ++
            load r.mem 1 (count - (r.endPos - r.front)).toNat)
          (by simp; omega) (load_wrapped (by omega))
        have total : (r.endPos - r.front).toNat + (count - (r.endPos - r.front)).toNat = count := by
          omega
        rw [← origin]
        simpa [origin, total] using bytes

/-- A `front` moved over stored bytes, around `end` if it must, drops them. -/
private theorem front_advanced (bounds : r.InBounds) (apart : r.front ≠ r.rear) {count : Nat}
    (stored : (count : Int) ≤ r.getUseSize) {position : Int}
    (inside : 0 < position ∧ position ≤ r.endPos)
    (advanced : position = r.origin + count ∨ position = r.origin + count - r.endPos)
    (passed : r.origin ≤ r.rear → position = r.origin + count) :
    { r with front := position }.contents = r.contents.drop count := by
  generalize moved : ({ r with front := position } : RingBuffer) = r'
  have ends : r'.endPos = r.endPos := by rw [← moved]; rfl
  have front : r'.front = position := by rw [← moved]
  have rear : r'.rear = r.rear := by rw [← moved]
  have memory : r'.mem = r.mem := by rw [← moved]
  have rears := bounds.rear
  have before := use_size_cases r
  have after := use_size_cases r'
  have origins := origin_cases r'
  rw [ends, front] at origins
  rw [ends, front, rear] at after
  have used : r'.getUseSize = r.getUseSize - count := by
    rcases origins with ⟨atEnd, zero⟩ | ⟨early, same⟩ <;> omega
  refine contents_advance memory (by omega) fun i below => ?_
  have whole := use_size_bounds bounds
  unfold cell
  rw [ends]
  rcases origins with ⟨atEnd, zero⟩ | ⟨early, same⟩
  · rw [zero]
    split_ifs <;> omega
  · rw [same]
    split_ifs <;> omega

/-- `Dequeue` of stored bytes returns and removes exactly the oldest ones. -/
theorem dequeue_spec (bounds : r.InBounds) {count : Nat} (positive : 0 < count)
    (stored : count ≤ r.contents.length) :
    ∃ r', r.dequeue count = ((count : Int), r.contents.take count, r') ∧ r'.InBounds ∧
      r'.size = r.size ∧ r'.contents = r.contents.drop count := by
  have use := use_size_bounds bounds
  have useEq : r.getUseSize = if r.front = r.rear then 0 else
      if r.origin ≤ r.rear then r.rear - r.origin else r.endPos - (r.origin - r.rear) := rfl
  simp only [length_contents] at stored
  have apart : r.front ≠ r.rear := by
    intro same
    rw [if_pos same] at useEq
    omega
  have left {position : Int} := @front_advanced r bounds apart count (by omega) position
  have originRange : 0 ≤ r.origin ∧ r.origin < r.endPos := by
    have origins := origin_cases r
    have size := bounds.size
    have front := bounds.front
    have last : r.endPos = r.size - 1 := rfl
    omega
  obtain ⟨size, front, rear⟩ := bounds
  rw [dequeue, if_neg (by omega), if_neg (by omega), if_neg apart]
  change ∃ r', (if r.origin ≤ r.rear then _ else _) = _ ∧ _
  by_cases ordered : r.origin ≤ r.rear
  · rw [if_neg apart, if_pos ordered] at useEq
    have bytes := eq_take_contents (by simpa using stored) (load_straight (r := r) (by omega))
    simp only [length_load] at bytes
    refine ⟨{ r with front := r.origin + count }, ?_, ⟨size, ?_, rear⟩, rfl,
      left ?_ (.inl rfl) (fun _ => rfl)⟩
    · rw [if_pos ordered, ← bytes]
      rfl
    · simp only [endPos] at *
      omega
    · omega
  · rw [if_neg ordered]
    by_cases short : (count : Int) ≤ r.endPos - r.origin
    · have bytes := eq_take_contents (by simpa using stored) (load_straight (r := r) (by omega))
      simp only [length_load] at bytes
      refine ⟨{ r with front := r.origin + count }, ?_, ⟨size, ?_, rear⟩, rfl,
        left ?_ (.inl rfl) (fun _ => rfl)⟩
      · change (if (count : Int) ≤ r.endPos - r.origin then _ else _) = _
        rw [if_pos short, ← bytes]
        rfl
      · simp only [endPos] at *
        omega
      · omega
    · rw [if_neg apart, if_neg ordered] at useEq
      have bytes := @eq_take_contents r
        (load r.mem (r.origin + 1) (r.endPos - r.origin).toNat ++
          load r.mem 1 (count - (r.endPos - r.origin)).toNat)
        (by simp; omega) (load_wrapped (by omega))
      have total : (r.endPos - r.origin).toNat + (count - (r.endPos - r.origin)).toNat = count := by
        omega
      simp only [List.length_append, length_load, total] at bytes
      refine ⟨{ r with front := count - (r.endPos - r.origin) }, ?_, ⟨size, ?_, rear⟩, rfl,
        left ?_ (.inr (by omega)) (by omega)⟩
      · change (if (count : Int) ≤ r.endPos - r.origin then _ else _) = _
        rw [if_neg short, ← bytes]
        rfl
      · simp only [endPos] at *
        omega
      · omega

/-- The cells behind the newest byte: first those that `DirectEnqueueSize`
counts from `GetRearBufferPtr`, then those from `begin + 1`. -/
theorem cell_free (bounds : r.InBounds) {j : Nat} (free : j < r.getFreeSize) :
    r.cell (r.getUseSize.toNat + j) =
      if j < r.directEnqueueSize then r.getRearBufferPtr + j
      else r.getBeginPtr + (j - r.directEnqueueSize) := by
  have use := use_size_bounds bounds
  obtain ⟨size, front, rear⟩ := bounds
  have used := use_size_cases r
  have origins := origin_cases r
  simp only [getFreeSize, usableSize, endPos] at free used origins use front rear
  unfold cell directEnqueueSize getRearBufferPtr getBeginPtr endPos
  split_ifs at free ⊢ <;> omega

/-- No stored byte stands in a cell that a receive may fill. -/
theorem cell_stored (bounds : r.InBounds) {i : Nat} (stored : i < r.getUseSize.toNat)
    (room : 0 < r.getFreeSize) :
    (r.cell i < r.getRearBufferPtr ∨ r.getRearBufferPtr + r.directEnqueueSize ≤ r.cell i) ∧
      r.getBeginPtr + (r.getFreeSize - r.directEnqueueSize) ≤ r.cell i := by
  have use := use_size_bounds bounds
  obtain ⟨size, front, rear⟩ := bounds
  have used := use_size_cases r
  have origins := origin_cases r
  simp only [getFreeSize, usableSize, endPos] at room used origins use front rear ⊢
  unfold cell directEnqueueSize getRearBufferPtr getBeginPtr endPos
  split_ifs at room ⊢ <;> omega

/-- With room left, the direct part is a part of the free space. -/
theorem direct_enqueue_le_free (bounds : r.InBounds) (room : 0 < r.getFreeSize) :
    0 ≤ r.directEnqueueSize ∧ r.directEnqueueSize ≤ r.getFreeSize := by
  have use := use_size_bounds bounds
  obtain ⟨size, front, rear⟩ := bounds
  have used := use_size_cases r
  have origins := origin_cases r
  simp only [getFreeSize, directEnqueueSize, usableSize, endPos] at room used origins use front rear ⊢
  split_ifs at room ⊢ <;> omega

/-- When the free space crosses `end`, its part from `begin + 1` on ends before
the direct part starts. -/
theorem begin_region_below (bounds : r.InBounds) (room : 0 < r.getFreeSize)
    (crosses : r.directEnqueueSize < r.getFreeSize) :
    r.getBeginPtr + (r.getFreeSize - r.directEnqueueSize) ≤ r.getRearBufferPtr := by
  have use := use_size_bounds bounds
  obtain ⟨size, front, rear⟩ := bounds
  have used := use_size_cases r
  have origins := origin_cases r
  simp only [getFreeSize, directEnqueueSize, getRearBufferPtr, getBeginPtr, usableSize, endPos] at *
  split_ifs at room crosses ⊢ <;> omega

/-- `rear` with its alias removed, as `Enqueue` and `MoveRear` start from it. -/
private def RearAlias (r : RingBuffer) (tempRear : Int) : Prop :=
  (r.rear = r.endPos ∧ tempRear = 0) ∨ (r.rear ≠ r.endPos ∧ tempRear = r.rear)

private theorem rear_alias (r : RingBuffer) :
    r.RearAlias (if r.rear = r.endPos then 0 else r.rear) := by
  unfold RearAlias
  split
  · rename_i atEnd
    exact .inl ⟨atEnd, rfl⟩
  · rename_i early
    exact .inr ⟨early, rfl⟩

theorem move_rear_eq {count : Nat} (positive : 0 < count) :
    r.moveRear count = { r with rear :=
      let tempRear := if r.rear = r.endPos then 0 else r.rear
      if (count : Int) ≤ r.endPos - tempRear then tempRear + count
      else count - (r.endPos - tempRear) } := by
  rw [moveRear, if_neg (by omega)]
  dsimp only
  split_ifs <;> rfl

/-- `MoveRear` within the free space adds to the used size and moves nothing
but `rear`. -/
theorem move_rear_spec (bounds : r.InBounds) {count : Nat} (positive : 0 < count)
    (room : count ≤ r.getFreeSize) :
    (r.moveRear count).InBounds ∧ (r.moveRear count).getUseSize = r.getUseSize + count ∧
      (r.moveRear count).front = r.front ∧ (r.moveRear count).size = r.size ∧
      (r.moveRear count).mem = r.mem := by
  have temp := rear_alias r
  have last : r.endPos = r.size - 1 := rfl
  have before := use_size_cases r
  have origins := origin_cases r
  obtain ⟨size, front, rear⟩ := bounds
  rw [move_rear_eq positive]
  dsimp only
  generalize (if r.rear = r.endPos then 0 else r.rear) = tempRear at *
  unfold RearAlias at temp
  unfold getFreeSize usableSize at room
  generalize moved : (if (count : Int) ≤ r.endPos - tempRear then tempRear + count
    else count - (r.endPos - tempRear)) = position
  have after := use_size_cases { r with rear := position }
  change (r.front = position ∧ _) ∨ (r.front ≠ position ∧ r.origin ≤ position ∧ _ = position - r.origin) ∨
    (r.front ≠ position ∧ position < r.origin ∧ _ = r.endPos - (r.origin - position)) at after
  have inside : 0 ≤ position ∧ position ≤ r.endPos := by
    split_ifs at room moved <;> omega
  refine ⟨⟨size, front, inside⟩, ?_, rfl, rfl, rfl⟩
  split_ifs at room moved <;> omega

/-- The memory after bytes have been copied behind the newest one: as many as
`DirectEnqueueSize` from `GetRearBufferPtr` on, the others from `begin + 1` on. -/
def appended (r : RingBuffer) (bytes : Bytes) : Memory :=
  store (store r.mem r.getRearBufferPtr (bytes.take r.directEnqueueSize.toNat)) r.getBeginPtr
    (bytes.drop r.directEnqueueSize.toNat)

section Append
variable {bytes : Bytes}

/-- A stored byte stays where it is. -/
private theorem appended_stored (bounds : r.InBounds) (positive : 0 < bytes.length)
    (fits : bytes.length ≤ r.getFreeSize) {i : Nat} (stored : i < r.getUseSize.toNat) :
    r.appended bytes (r.cell i) = r.mem (r.cell i) := by
  have room : 0 < r.getFreeSize := by omega
  have direct := direct_enqueue_le_free bounds room
  obtain ⟨apart, above⟩ := cell_stored bounds stored room
  have second : (bytes.drop r.directEnqueueSize.toNat).length ≤
      r.getFreeSize - r.directEnqueueSize := by
    simp only [List.length_drop]
    omega
  have first : (bytes.take r.directEnqueueSize.toNat).length ≤ r.directEnqueueSize := by
    simp only [List.length_take]
    omega
  rw [appended, store_outside _ _ _ (by omega), store_outside _ _ _ (by omega)]

/-- A new byte comes to stand behind those before it. -/
private theorem appended_new (bounds : r.InBounds) (fits : bytes.length ≤ r.getFreeSize)
    {j : Nat} (inside : j < bytes.length) :
    r.appended bytes (r.cell (r.getUseSize.toNat + j)) = bytes[j] := by
  have room : 0 < r.getFreeSize := by omega
  have direct := direct_enqueue_le_free bounds room
  rw [cell_free bounds (by omega), appended]
  by_cases early : (j : Int) < r.directEnqueueSize
  · rw [if_pos early]
    have placed : j < (bytes.take r.directEnqueueSize.toNat).length := by
      simp only [List.length_take]
      omega
    rw [store_outside, store_inside _ _ _ placed, List.getElem_take]
    -- the second region is a copy of nothing, or ends before the first begins
    by_cases short : bytes.length ≤ r.directEnqueueSize.toNat
    · simp only [List.length_drop]
      omega
    · right
      have below := begin_region_below bounds room (by omega)
      simp only [List.length_drop]
      omega
  · rw [if_neg early]
    have placed : j - r.directEnqueueSize.toNat <
        (bytes.drop r.directEnqueueSize.toNat).length := by
      simp only [List.length_drop]
      omega
    have offset : (j : Int) - r.directEnqueueSize =
        ((j - r.directEnqueueSize.toNat : Nat) : Int) := by omega
    rw [offset, store_inside _ _ _ placed, List.getElem_drop]
    congr 1
    omega

/-- Bytes copied behind the newest one join the contents when `rear` moves past them. -/
theorem append_spec (bounds : r.InBounds) (positive : 0 < bytes.length)
    (fits : bytes.length ≤ r.getFreeSize) :
    ({ r with mem := r.appended bytes }.moveRear bytes.length).InBounds ∧
      ({ r with mem := r.appended bytes }.moveRear bytes.length).size = r.size ∧
      ({ r with mem := r.appended bytes }.moveRear bytes.length).front = r.front ∧
      ({ r with mem := r.appended bytes }.moveRear bytes.length).contents = r.contents ++ bytes := by
  have bounded : ({ r with mem := r.appended bytes } : RingBuffer).InBounds :=
    ⟨bounds.size, bounds.front, bounds.rear⟩
  obtain ⟨moved, used, front, size, memory⟩ := move_rear_spec bounded positive fits
  have use := use_size_bounds bounds
  generalize ({ r with mem := r.appended bytes } : RingBuffer).moveRear bytes.length = r' at *
  have cells := cell_congr (r := r) size front
  have count : r'.getUseSize.toNat = r.getUseSize.toNat + bytes.length := by
    rw [used]
    change (r.getUseSize + bytes.length).toNat = _
    omega
  refine ⟨moved, size, front, ?_⟩
  apply List.ext_getElem
  · simpa using count
  · intro i inside _
    rw [getElem_contents, cells, memory, List.getElem_append]
    simp only [length_contents, count] at inside
    split
    · rename_i old
      rw [getElem_contents]
      exact appended_stored bounds positive fits (by simpa using old)
    · rename_i new
      simp only [length_contents] at new ⊢
      have past := appended_new bounds fits (j := i - r.getUseSize.toNat) (by omega)
      rwa [show r.getUseSize.toNat + (i - r.getUseSize.toNat) = i by omega] at past

end Append

section Enqueues
variable {tempRear : Int} {count : Nat}

/-- Bytes that `Enqueue` copies at once are no more than `DirectEnqueueSize`. -/
private theorem direct_at_once (bounds : r.InBounds) (temp : r.RearAlias tempRear) (positive : 0 < count)
    (room : count ≤ r.getFreeSize) (once : r.origin ≤ tempRear → count ≤ r.endPos - tempRear) :
    count ≤ r.directEnqueueSize ∧ count ≤ r.endPos - tempRear := by
  have used := use_size_cases r
  have origins := origin_cases r
  obtain ⟨size, front, rear⟩ := bounds
  unfold RearAlias at temp
  simp only [getFreeSize, directEnqueueSize, usableSize, endPos] at *
  split_ifs at room ⊢ <;> omega

/-- Where it copies in two parts, the first one is as long as `DirectEnqueueSize`. -/
private theorem direct_in_parts (bounds : r.InBounds) (temp : r.RearAlias tempRear)
    (room : count ≤ r.getFreeSize) (ordered : r.origin ≤ tempRear)
    (parts : r.endPos - tempRear < count) :
    r.directEnqueueSize = r.endPos - tempRear ∧ 0 ≤ r.endPos - tempRear := by
  have used := use_size_cases r
  have origins := origin_cases r
  obtain ⟨size, front, rear⟩ := bounds
  unfold RearAlias at temp
  simp only [getFreeSize, directEnqueueSize, usableSize, endPos] at *
  split_ifs at room ⊢ <;> omega

/-- `Enqueue` within the free space is that copy and that move of `rear`. -/
theorem enqueue_eq (bounds : r.InBounds) (chpData : Memory) (positive : 0 < count)
    (room : count ≤ r.getFreeSize) : r.enqueue chpData count =
      ((count : Int), { r.moveRear count with mem := r.appended (load chpData 0 count) }) := by
  have rearPtr : r.getRearBufferPtr = (if r.rear = r.endPos then 0 else r.rear) + 1 := by
    unfold getRearBufferPtr
    split <;> rfl
  have short (fits : count ≤ r.directEnqueueSize) :
      r.appended (load chpData 0 count) = store r.mem r.getRearBufferPtr (load chpData 0 count) := by
    have all : (load chpData 0 count).length ≤ r.directEnqueueSize.toNat := by
      rw [length_load]
      omega
    rw [appended, List.take_of_length_le all, List.drop_of_length_le all, store_nil]
  rw [move_rear_eq positive, enqueue]
  dsimp only
  rw [if_neg (by omega), if_neg (by omega), Int.toNat_natCast]
  have temp := rear_alias r
  have tempFront : (if r.front = r.endPos then 0 else r.front) = r.origin := rfl
  rw [tempFront]
  generalize (if r.rear = r.endPos then 0 else r.rear) = tempRear at *
  by_cases ordered : r.origin ≤ tempRear
  · rw [if_pos ordered]
    by_cases fits : (count : Int) ≤ r.endPos - tempRear
    · have direct := direct_at_once bounds temp positive room fun _ => fits
      rw [if_pos fits, if_pos fits, short direct.1, rearPtr]
    · have direct := direct_in_parts bounds temp room ordered (by omega)
      rw [if_neg fits, if_neg fits, appended, rearPtr, direct.1, take_load _ _ (by omega),
        drop_load _ _ (by omega), getBeginPtr]
      have offset : ((r.endPos - tempRear).toNat : Int) = r.endPos - tempRear :=
        Int.toNat_of_nonneg direct.2
      have left : (count - (r.endPos - tempRear)).toNat = count - (r.endPos - tempRear).toNat := by
        omega
      rw [offset, left, Int.zero_add]
  · have direct := direct_at_once bounds temp positive room fun straight => absurd straight ordered
    rw [if_neg ordered, if_pos direct.2, short direct.1, rearPtr]

end Enqueues

/-- `Enqueue` of bytes that fit appends them. -/
theorem enqueue_spec (bounds : r.InBounds) (chpData : Memory) {count : Nat} (positive : 0 < count)
    (room : count ≤ r.getFreeSize) :
    ∃ r', r.enqueue chpData count = ((count : Int), r') ∧ r'.InBounds ∧ r'.size = r.size ∧
      r'.front = r.front ∧ r'.contents = r.contents ++ load chpData 0 count := by
  have length := length_load chpData 0 count
  have appends := @append_spec r (load chpData 0 count) bounds (by omega) (by omega)
  rw [length] at appends
  refine ⟨_, enqueue_eq bounds chpData positive room, ?_⟩
  have same : { r.moveRear count with mem := r.appended (load chpData 0 count) } =
      { r with mem := r.appended (load chpData 0 count) }.moveRear count := by
    rw [move_rear_eq positive, move_rear_eq positive]
    rfl
  rw [same]
  exact appends

theorem clear_contents (r : RingBuffer) : r.clearBuffer.contents = [] := by
  simp [contents, clearBuffer, getUseSize]

theorem clear_in_bounds (atLeast : 2 ≤ r.size) : r.clearBuffer.InBounds :=
  ⟨atLeast, by simp [clearBuffer, endPos]; omega, by simp [clearBuffer, endPos]; omega⟩

end RingBuffer

end NewNameAuction
