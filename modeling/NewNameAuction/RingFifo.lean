import NewNameAuction.RingBuffer
import NewNameAuction.Runs

/-! `CRingBuffer` is a bounded queue of bytes. It has room for `size - 1` bytes until
the first byte is taken out, and for one less from then on until it is cleared:
`begin` and `end` precede the same cell, and only a `front` at `begin` can tell a full
ring from an empty one. -/
namespace NewNameAuction.RingFifo
open ByteMemory RingBuffer

/-! ## Calls -/

/-- A call of a ring operation. `chpData` is the memory from the caller's pointer on. -/
inductive RingCall
  | enqueue (chpData : Memory) (size : Int)
  | dequeue (size : Int)
  | peek (size : Int)
  | clearBuffer

/-- What a call returns, and the bytes it copies to the caller. -/
structure Reply where
  ret : Int
  bytes : Bytes

def ringCall (r : RingBuffer) : RingCall → Reply × RingBuffer
  | .enqueue chpData size => (⟨(r.enqueue chpData size).1, []⟩, (r.enqueue chpData size).2)
  | .dequeue size => (⟨(r.dequeue size).1, (r.dequeue size).2.1⟩, (r.dequeue size).2.2)
  | .peek size => (⟨(r.peek size).1, (r.peek size).2⟩, r)
  | .clearBuffer => (⟨0, []⟩, r.clearBuffer)

def RingStep (r : RingBuffer) (label : RingCall × Reply) (r' : RingBuffer) : Prop :=
  ringCall r label.1 = (label.2, r')

/-- The calls in order, with their replies, and the ring afterwards. -/
def served (r : RingBuffer) : List RingCall → List (RingCall × Reply) × RingBuffer
  | [] => ([], r)
  | call :: later =>
    let (reply, next) := ringCall r call
    ((call, reply) :: (served next later).1, (served next later).2)

theorem served_run (r : RingBuffer) (calls : List RingCall) :
    Run RingStep r (served r calls).1 (served r calls).2 := by
  induction calls generalizing r with
  | nil => exact .nil r
  | cons call later ih => exact .cons rfl (ih _)

/-! ## Accesses -/

/-- A copy to or from the ring: its first cell and its length. -/
abbrev Copy := Int × Int

/-- The copies of `Enqueue`. -/
def enqueueCopies (r : RingBuffer) (enqueueSize : Int) : List Copy :=
  let tempFront := if r.front = r.endPos then 0 else r.front
  let tempRear := if r.rear = r.endPos then 0 else r.rear
  if enqueueSize ≤ 0 then []
  else if r.getFreeSize < enqueueSize then []
  else if tempFront ≤ tempRear then
    if enqueueSize ≤ r.endPos - tempRear then [(tempRear + 1, enqueueSize)]
    else
      let firstLength := r.endPos - tempRear
      [(tempRear + 1, firstLength), (1, enqueueSize - firstLength)]
  else [(tempRear + 1, enqueueSize)]

/-- The copies of `Dequeue`. -/
def dequeueCopies (r : RingBuffer) (dequeueSize : Int) : List Copy :=
  if dequeueSize ≤ 0 then []
  else if r.getUseSize < dequeueSize then []
  else if r.front = r.rear then []
  else
    let tempFront := if r.front = r.endPos then 0 else r.front
    if tempFront ≤ r.rear then [(tempFront + 1, dequeueSize)]
    else if dequeueSize ≤ r.endPos - tempFront then [(tempFront + 1, dequeueSize)]
    else
      let firstLength := r.endPos - tempFront
      [(tempFront + 1, firstLength), (1, dequeueSize - firstLength)]

/-- The copies of `Peek`. -/
def peekCopies (r : RingBuffer) (peekSize : Int) : List Copy :=
  if r.getUseSize < peekSize then []
  else if peekSize ≤ 0 then []
  else if r.front ≤ r.rear then [(r.front + 1, peekSize)]
  else if peekSize ≤ r.endPos - r.front then [(r.front + 1, peekSize)]
  else
    let firstLength := r.endPos - r.front
    [(r.front + 1, firstLength), (1, peekSize - firstLength)]

/-- Every access of a call to the ring's memory. -/
def copies (r : RingBuffer) : RingCall → List Copy
  | .enqueue _ size => enqueueCopies r size
  | .dequeue size => dequeueCopies r size
  | .peek size => peekCopies r size
  | .clearBuffer => []

/-- The caller's bytes written copy by copy, `done` of them before. -/
def copyIn (chpData : Memory) : Memory → Int → List Copy → Memory
  | mem, _, [] => mem
  | mem, done, (start, count) :: rest =>
    copyIn chpData (store mem start (load chpData done count.toNat)) (done + count) rest

/-- The bytes read copy by copy. -/
def copyOut (mem : Memory) (reads : List Copy) : Bytes :=
  reads.flatMap fun copy => load mem copy.1 copy.2.toNat

/-- A copy touches only cells from `begin + 1` to `end`, or none. -/
def Inside (r : RingBuffer) (copy : Copy) : Prop :=
  0 ≤ copy.2 ∧ (0 < copy.2 → 1 ≤ copy.1 ∧ copy.1 + copy.2 - 1 ≤ r.endPos)

section Accesses
variable {r : RingBuffer}

theorem enqueue_copies (chpData : Memory) (size : Int) :
    (r.enqueue chpData size).2.mem = copyIn chpData r.mem 0 (enqueueCopies r size) := by
  unfold enqueue enqueueCopies
  dsimp only
  split_ifs
  all_goals simp only [copyIn, Int.zero_add]

theorem dequeue_copies (size : Int) :
    (r.dequeue size).2.1 = copyOut r.mem (dequeueCopies r size) := by
  unfold dequeue dequeueCopies
  dsimp only
  split_ifs
  all_goals simp [copyOut]

theorem peek_copies (size : Int) : (r.peek size).2 = copyOut r.mem (peekCopies r size) := by
  unfold peek peekCopies
  dsimp only
  split_ifs
  all_goals simp [copyOut]

end Accesses

/-! ## The queue -/

/-- A bounded queue of bytes. `untouched` says that nothing has been taken out since
the queue was made or cleared. -/
structure Fifo where
  size : Int
  stored : Bytes
  untouched : Bool

namespace Fifo

def empty (size : Int) : Fifo := ⟨size, [], true⟩

def capacity (q : Fifo) : Int := if q.untouched then q.size - 1 else q.size - 2

def free (q : Fifo) : Int := q.capacity - q.stored.length

/-- What is asked for is taken if so much is stored. -/
def taken (q : Fifo) (size : Int) : Reply :=
  if size ≤ 0 then ⟨0, []⟩
  else if size ≤ q.stored.length then ⟨size, q.stored.take size.toNat⟩
  else ⟨-1, []⟩

def call (q : Fifo) : RingCall → Reply × Fifo
  | .enqueue chpData size =>
    if size ≤ 0 then (⟨0, []⟩, q)
    else if size ≤ q.free then
      (⟨size, []⟩, { q with stored := q.stored ++ load chpData 0 size.toNat })
    else (⟨-1, []⟩, q)
  | .dequeue size =>
    (q.taken size, if 0 < size ∧ size ≤ q.stored.length then
      { q with stored := q.stored.drop size.toNat, untouched := false } else q)
  | .peek size => (q.taken size, q)
  | .clearBuffer => (⟨0, []⟩, { q with stored := [], untouched := true })

end Fifo

def FifoStep (q : Fifo) (label : RingCall × Reply) (q' : Fifo) : Prop :=
  q.call label.1 = (label.2, q')

/-- The ring stands for the queue. -/
structure Stands (r : RingBuffer) (q : Fifo) : Prop where
  bounds : r.InBounds
  size : r.size = q.size
  stored : r.contents = q.stored
  atBegin : r.front = 0 ↔ q.untouched = true

/-! ## A call on the ring is that call on the queue -/

section Calls
variable {r r' : RingBuffer} {q : Fifo}

theorem use_add_free (r : RingBuffer) :
    r.getUseSize + r.getFreeSize = if r.front = 0 then r.size - 1 else r.size - 2 := by
  simp only [getFreeSize, usableSize]
  split_ifs <;> omega

theorem Stands.use (stands : Stands r q) : r.getUseSize = q.stored.length := by
  rw [use_size_eq_length stands.bounds, stands.stored]

theorem Stands.free (stands : Stands r q) : r.getFreeSize = q.free := by
  have sum := use_add_free r
  have use := stands.use
  have size := stands.size
  rw [Fifo.free, Fifo.capacity, ← use, ← size]
  by_cases untouched : q.untouched = true
  · rw [if_pos (stands.atBegin.mpr untouched)] at sum
    rw [if_pos untouched]
    omega
  · rw [if_neg (mt stands.atBegin.mp untouched)] at sum
    rw [if_neg untouched]
    omega

theorem create_stands {bufferSize : Int} (atLeast : 2 ≤ bufferSize) (mem : Memory) :
    Stands (create bufferSize mem) (Fifo.empty bufferSize) :=
  ⟨create_in_bounds atLeast mem, rfl, rfl, by simp [create, Fifo.empty]⟩

/-- A byte taken out leaves `front` past `begin`. -/
theorem dequeue_front (bounds : r.InBounds) {size : Int} (positive : 0 < size)
    (stored : size ≤ r.getUseSize) : (r.dequeue size).2.2.front ≠ 0 := by
  have used := use_size_cases r
  have origins := origin_cases r
  obtain ⟨least, front, rear⟩ := bounds
  rw [dequeue, if_neg (by omega), if_neg (by omega), if_neg (by omega)]
  change (if r.origin ≤ r.rear then _ else if size ≤ r.endPos - r.origin then _ else _ :
    Int × Bytes × RingBuffer).2.2.front ≠ 0
  split_ifs
  all_goals dsimp only
  all_goals omega

theorem enqueue_stands (stands : Stands r q) (chpData : Memory) (size : Int) :
    (ringCall r (.enqueue chpData size)).1 = (q.call (.enqueue chpData size)).1 ∧
      Stands (ringCall r (.enqueue chpData size)).2 (q.call (.enqueue chpData size)).2 := by
  have free := stands.free
  by_cases none : size ≤ 0
  · simp only [ringCall, enqueue, Fifo.call, if_pos none]
    exact ⟨trivial, stands⟩
  by_cases fits : size ≤ q.free
  · obtain ⟨count, rfl⟩ := Int.eq_ofNat_of_zero_le (show 0 ≤ size by omega)
    obtain ⟨r', call, bounds, sameSize, front, contents⟩ :=
      enqueue_spec stands.bounds chpData (show 0 < count by omega) (by omega)
    simp only [ringCall, call, Fifo.call, if_neg none, if_pos fits]
    refine ⟨trivial, bounds, sameSize.trans stands.size, ?_, ?_⟩
    · rw [contents, stands.stored, Int.toNat_natCast]
    · rw [front]
      exact stands.atBegin
  · have refused : r.getFreeSize < size := by omega
    simp only [ringCall, enqueue, Fifo.call, if_neg none, if_neg fits, if_pos refused]
    exact ⟨trivial, stands⟩

theorem dequeue_stands (stands : Stands r q) (size : Int) :
    (ringCall r (.dequeue size)).1 = (q.call (.dequeue size)).1 ∧
      Stands (ringCall r (.dequeue size)).2 (q.call (.dequeue size)).2 := by
  have use := stands.use
  by_cases none : size ≤ 0
  · simp only [ringCall, dequeue, Fifo.call, Fifo.taken, if_pos none]
    rw [if_neg (by omega)]
    exact ⟨trivial, stands⟩
  by_cases enough : size ≤ q.stored.length
  · have past := dequeue_front stands.bounds (show 0 < size by omega) (by omega)
    obtain ⟨count, rfl⟩ := Int.eq_ofNat_of_zero_le (show 0 ≤ size by omega)
    obtain ⟨r', call, bounds, sameSize, contents⟩ :=
      dequeue_spec stands.bounds (show 0 < count by omega) (by rw [stands.stored]; omega)
    rw [call] at past
    simp only [ringCall, call, Fifo.call, Fifo.taken, if_neg none, if_pos enough]
    rw [if_pos ⟨by omega, enough⟩, stands.stored, Int.toNat_natCast]
    refine ⟨rfl, bounds, sameSize.trans stands.size, ?_, ?_⟩
    · rw [contents, stands.stored]
    · exact iff_of_false past Bool.false_ne_true
  · have refused : r.getUseSize < size := by omega
    simp only [ringCall, dequeue, Fifo.call, Fifo.taken, if_neg none, if_neg enough, if_pos refused]
    rw [if_neg (by omega)]
    exact ⟨trivial, stands⟩

theorem peek_stands (stands : Stands r q) (size : Int) :
    (ringCall r (.peek size)).1 = (q.call (.peek size)).1 := by
  have use := stands.use
  by_cases none : size ≤ 0
  · have asked : ¬ r.getUseSize < size := by omega
    simp only [ringCall, peek, Fifo.call, Fifo.taken, if_pos none, if_neg asked]
  by_cases enough : size ≤ q.stored.length
  · obtain ⟨count, rfl⟩ := Int.eq_ofNat_of_zero_le (show 0 ≤ size by omega)
    have call := peek_spec stands.bounds (show 0 < count by omega) (by rw [stands.stored]; omega)
    simp only [ringCall, call, Fifo.call, Fifo.taken, if_neg none, if_pos enough]
    rw [stands.stored, Int.toNat_natCast]
  · have refused : r.getUseSize < size := by omega
    simp only [ringCall, peek, Fifo.call, Fifo.taken, if_neg none, if_neg enough, if_pos refused]

theorem clear_stands (stands : Stands r q) :
    Stands (ringCall r .clearBuffer).2 (q.call .clearBuffer).2 :=
  ⟨clear_in_bounds stands.bounds.size, stands.size, clear_contents r,
    by simp [ringCall, clearBuffer, Fifo.call]⟩

/-- A ring and the queue it stands for answer every call alike, and stand for each
other afterwards. -/
theorem call_stands (stands : Stands r q) (call : RingCall) :
    (ringCall r call).1 = (q.call call).1 ∧ Stands (ringCall r call).2 (q.call call).2 := by
  cases call with
  | enqueue chpData size => exact enqueue_stands stands chpData size
  | dequeue size => exact dequeue_stands stands size
  | peek size => exact ⟨peek_stands stands size, stands⟩
  | clearBuffer => exact ⟨rfl, clear_stands stands⟩

theorem ring_step_fifo_step (stands : Stands r q) {label : RingCall × Reply}
    (step : RingStep r label r') : ∃ q', FifoStep q label q' ∧ Stands r' q' := by
  obtain ⟨call, reply⟩ := label
  obtain ⟨same, after⟩ := call_stands stands call
  rw [step] at same after
  exact ⟨(q.call call).2, Prod.ext same.symm rfl, after⟩

theorem ring_run_fifo_run {labels : List (RingCall × Reply)} (run : Run RingStep r labels r')
    (stands : Stands r q) : ∃ q', Run FifoStep q labels q' ∧ Stands r' q' := by
  induction run generalizing q with
  | nil _ => exact ⟨q, .nil q, stands⟩
  | cons step _ ih =>
    obtain ⟨q₁, first, between⟩ := ring_step_fifo_step stands step
    obtain ⟨q₂, others, after⟩ := ih between
    exact ⟨q₂, .cons first others, after⟩

end Calls

/-! ## What holds of a ring in bounds -/

section Contract
variable {r : RingBuffer}

theorem enqueue_copies_inside (bounds : r.InBounds) (size : Int) :
    ∀ copy ∈ enqueueCopies r size, Inside r copy := by
  have use := use_size_bounds bounds
  have used := use_size_cases r
  have origins := origin_cases r
  have last : (r.rear = r.endPos ∧ (if r.rear = r.endPos then 0 else r.rear) = 0) ∨
      (r.rear ≠ r.endPos ∧ (if r.rear = r.endPos then 0 else r.rear) = r.rear) := by
    split_ifs <;> omega
  have room : r.getFreeSize ≤ r.endPos - r.getUseSize := by
    simp only [getFreeSize, usableSize, endPos]
    split_ifs <;> omega
  obtain ⟨least, front, rear⟩ := bounds
  intro copy member
  unfold enqueueCopies at member
  change copy ∈ (if _ then _ else if _ then _ else if r.origin ≤ _ then _ else _) at member
  generalize (if r.rear = r.endPos then 0 else r.rear) = tempRear at *
  unfold Inside
  split_ifs at member
  all_goals simp only [List.mem_cons, List.not_mem_nil, or_false, Prod.ext_iff] at member
  all_goals omega

theorem dequeue_copies_inside (bounds : r.InBounds) (size : Int) :
    ∀ copy ∈ dequeueCopies r size, Inside r copy := by
  have use := use_size_bounds bounds
  have used := use_size_cases r
  have origins := origin_cases r
  obtain ⟨least, front, rear⟩ := bounds
  intro copy member
  unfold dequeueCopies at member
  change copy ∈ (if _ then _ else if _ then _ else if _ then _ else if r.origin ≤ _ then _ else
    if _ ≤ _ - r.origin then _ else _) at member
  unfold Inside
  split_ifs at member
  all_goals simp only [List.mem_cons, List.not_mem_nil, or_false, Prod.ext_iff] at member
  all_goals omega

/-- `Peek` may start a first copy behind `end`, but then of no byte. -/
theorem peek_copies_inside (bounds : r.InBounds) (size : Int) :
    ∀ copy ∈ peekCopies r size, Inside r copy := by
  have use := use_size_bounds bounds
  have used := use_size_cases r
  have origins := origin_cases r
  obtain ⟨least, front, rear⟩ := bounds
  intro copy member
  unfold peekCopies at member
  unfold Inside
  split_ifs at member
  all_goals simp only [List.mem_cons, List.not_mem_nil, or_false, Prod.ext_iff] at member
  all_goals omega

/-- No call touches a byte outside `begin + 1 .. end`. -/
theorem copies_inside (bounds : r.InBounds) (call : RingCall) :
    ∀ copy ∈ copies r call, Inside r copy := by
  cases call with
  | enqueue chpData size => exact enqueue_copies_inside bounds size
  | dequeue size => exact dequeue_copies_inside bounds size
  | peek size => exact peek_copies_inside bounds size
  | clearBuffer => exact fun _ member => by cases member

/-- A ring as a bounded queue: its sizes, what each operation returns, moves and leaves
behind, and the cells it touches. -/
structure BoundedFifo (r : RingBuffer) : Prop where
  use : r.getUseSize = r.contents.length
  useAndFree : r.getUseSize + r.getFreeSize = if r.front = 0 then r.size - 1 else r.size - 2
  enqueued : ∀ (chpData : Memory) (n : Int), 0 < n → n ≤ r.getFreeSize →
    (r.enqueue chpData n).1 = n ∧
      (r.enqueue chpData n).2.contents = r.contents ++ load chpData 0 n.toNat
  noRoom : ∀ (chpData : Memory) (n : Int), 0 < n → r.getFreeSize < n → r.enqueue chpData n = (-1, r)
  dequeued : ∀ n : Int, 0 < n → n ≤ r.getUseSize →
    (r.dequeue n).1 = n ∧ (r.dequeue n).2.1 = r.contents.take n.toNat ∧
      (r.dequeue n).2.2.contents = r.contents.drop n.toNat
  tooFew : ∀ n : Int, 0 < n → r.getUseSize < n → r.dequeue n = (-1, [], r)
  peeked : ∀ n : Int, r.peek n = ((r.dequeue n).1, (r.dequeue n).2.1)
  inside : ∀ (call : RingCall), ∀ copy ∈ copies r call, Inside r copy
  written : ∀ (chpData : Memory) (n : Int),
    (r.enqueue chpData n).2.mem = copyIn chpData r.mem 0 (copies r (.enqueue chpData n))
  readOut : ∀ n : Int, (r.dequeue n).2.1 = copyOut r.mem (copies r (.dequeue n)) ∧
    (r.peek n).2 = copyOut r.mem (copies r (.peek n))

theorem bounded_fifo {q : Fifo} (stands : Stands r q) : BoundedFifo r where
  use := use_size_eq_length stands.bounds
  useAndFree := use_add_free r
  enqueued := by
    intro chpData n positive room
    obtain ⟨count, rfl⟩ := Int.eq_ofNat_of_zero_le (show 0 ≤ n by omega)
    obtain ⟨r', call, _, _, _, contents⟩ :=
      enqueue_spec stands.bounds chpData (show 0 < count by omega) room
    rw [call]
    exact ⟨rfl, contents⟩
  noRoom := by
    intro chpData n positive full
    rw [enqueue, if_neg (by omega), if_pos full]
  dequeued := by
    intro n positive stored
    obtain ⟨count, rfl⟩ := Int.eq_ofNat_of_zero_le (show 0 ≤ n by omega)
    have use := use_size_eq_length stands.bounds
    obtain ⟨r', call, _, _, contents⟩ :=
      dequeue_spec stands.bounds (show 0 < count by omega) (by omega)
    rw [call]
    exact ⟨rfl, rfl, contents⟩
  tooFew := by
    intro n positive short
    rw [dequeue, if_neg (by omega), if_pos short]
  peeked := by
    intro n
    have peek := peek_stands stands n
    have dequeue := (dequeue_stands stands n).1
    have same : (ringCall r (.peek n)).1 = (ringCall r (.dequeue n)).1 := peek.trans dequeue.symm
    simp only [ringCall, Reply.mk.injEq] at same
    exact Prod.ext same.1 same.2
  inside := copies_inside stands.bounds
  written := enqueue_copies
  readOut := fun n => ⟨dequeue_copies n, peek_copies n⟩

/-- Whatever has been called since its construction, a ring stands for the bounded queue
that has answered the same calls in the same way. -/
theorem ring_refines_fifo {bufferSize : Int} (atLeast : 2 ≤ bufferSize) {mem : Memory}
    {labels : List (RingCall × Reply)} (run : Run RingStep (create bufferSize mem) labels r) :
    (∃ q, Run FifoStep (Fifo.empty bufferSize) labels q ∧ Stands r q) ∧ BoundedFifo r := by
  obtain ⟨q, same, stands⟩ := ring_run_fifo_run run (create_stands atLeast mem)
  exact ⟨⟨q, same, stands⟩, bounded_fifo stands⟩

end Contract

/-- Four bytes into a ring of five cells, three out, and two more across `end`. -/
theorem ring_refines_fifo_wrapped :
    let calls := [.enqueue (fun p => p.toNat.toUInt8) 4, .dequeue 3, .enqueue (fun _ => 9) 2]
    let r := (served (create 5 fun _ => 0) calls).2
    r.contents = [3, 9, 9] ∧ r.rear < r.front ∧
      (∃ q, Run FifoStep (Fifo.empty 5) (served (create 5 fun _ => 0) calls).1 q ∧ Stands r q) ∧
        BoundedFifo r :=
  ⟨by decide, by decide, ring_refines_fifo (by decide) (served_run _ _)⟩

end NewNameAuction.RingFifo
