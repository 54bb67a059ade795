import NewNameAuction.RingFifo

/-! The socket path hands out pointers into a ring and moves `front` and `rear` itself,
where `Enqueue` and `Dequeue` copy. The two ways find their positions by case analyses of
their own; on every ring that its operations can leave behind they find the same ones. -/
namespace NewNameAuction.RingDirect
open ByteMemory RingBuffer

/-! ## Operations -/

/-- A call that moves a position of the ring. -/
inductive RingMove
  | enqueue (chpData : Memory) (size : Int)
  | dequeue (size : Int)
  | moveRear (size : Int)
  | moveFront (size : Int)
  | clearBuffer

def ringMove (r : RingBuffer) : RingMove → RingBuffer
  | .enqueue chpData size => (r.enqueue chpData size).2
  | .dequeue size => (r.dequeue size).2.2
  | .moveRear size => r.moveRear size
  | .moveFront size => (r.moveFront size).2
  | .clearBuffer => r.clearBuffer

/-- `MoveRear` and `MoveFront` check nothing; their callers stay within the free and
the used part. -/
def Within (r : RingBuffer) : RingMove → Prop
  | .moveRear size => size ≤ r.getFreeSize
  | .moveFront size => size ≤ r.getUseSize
  | _ => True

instance (r : RingBuffer) : DecidablePred (Within r) := fun move => by
  cases move <;> unfold Within <;> infer_instance

def MoveStep (r : RingBuffer) (move : RingMove) (r' : RingBuffer) : Prop :=
  Within r move ∧ ringMove r move = r'

/-- The first `min(n, DirectEnqueueSize())` bytes at `GetRearBufferPtr()`, the others at
`GetBeginPtr()`. -/
def writeDirect (r : RingBuffer) (chpData : Memory) (n : Int) : RingBuffer :=
  let first := min n r.directEnqueueSize
  { r with
    mem := store (store r.mem r.getRearBufferPtr (load chpData 0 first.toNat)) r.getBeginPtr
      (load chpData first (n - first).toNat) }

section Agreement
variable {r : RingBuffer}

/-! ## Writing -/

theorem write_direct_eq (bounds : r.InBounds) (chpData : Memory) {n : Int} (positive : 0 < n)
    (room : n ≤ r.getFreeSize) :
    writeDirect r chpData n = { r with mem := r.appended (load chpData 0 n.toNat) } := by
  have direct := direct_enqueue_le_free bounds (by omega)
  rw [writeDirect, appended]
  by_cases short : n ≤ r.directEnqueueSize
  · have all : (load chpData 0 n.toNat).length ≤ r.directEnqueueSize.toNat := by
      rw [length_load]
      omega
    rw [min_eq_left short, List.take_of_length_le all, List.drop_of_length_le all, Int.sub_self]
    rfl
  · have offset : (r.directEnqueueSize.toNat : Int) = r.directEnqueueSize :=
      Int.toNat_of_nonneg direct.1
    have left : (n - r.directEnqueueSize).toNat = n.toNat - r.directEnqueueSize.toNat := by omega
    rw [min_eq_right (by omega), take_load _ _ (by omega), drop_load _ _ (by omega), offset,
      Int.zero_add, left]

theorem direct_write_enqueue (bounds : r.InBounds) (chpData : Memory) {n : Int} (positive : 0 < n)
    (room : n ≤ r.getFreeSize) :
    r.enqueue chpData n = (n, (writeDirect r chpData n).moveRear n) := by
  obtain ⟨count, rfl⟩ := Int.eq_ofNat_of_zero_le (show 0 ≤ n by omega)
  have counted : 0 < count := by omega
  rw [enqueue_eq bounds chpData counted room, write_direct_eq bounds chpData positive room,
    move_rear_eq counted, move_rear_eq counted]
  rfl

/-! ## Reading -/

/-- `MoveFront` of stored bytes moves `front` as `Dequeue` does. -/
theorem move_front_dequeue (bounds : r.InBounds) {n : Int} (positive : 0 < n)
    (stored : n ≤ r.getUseSize) : r.moveFront n = (n, (r.dequeue n).2.2) := by
  have use := use_size_bounds bounds
  have used := use_size_cases r
  have last : r.endPos = r.size - 1 := rfl
  rw [moveFront, dequeue]
  change (if n ≤ 0 then _ else if r.size < n then _ else if n ≤ r.endPos - r.origin then _ else _) =
    (n, (if n ≤ 0 then _ else if r.getUseSize < n then _ else if r.front = r.rear then _ else
      if r.origin ≤ r.rear then _ else if n ≤ r.endPos - r.origin then _ else _ :
      Int × Bytes × RingBuffer).2.2)
  have asked : ¬ n ≤ 0 := by omega
  have inSize : ¬ r.size < n := by omega
  have enough : ¬ r.getUseSize < n := by omega
  have apart : ¬ r.front = r.rear := by omega
  rw [if_neg asked, if_neg asked, if_neg inSize, if_neg enough, if_neg apart]
  by_cases straight : n ≤ r.endPos - r.origin
  · rw [if_pos straight, if_pos straight, ite_self]
  · have wrapped : ¬ r.origin ≤ r.rear := by
      have rear := bounds.rear
      omega
    rw [if_neg straight, if_neg straight, if_neg wrapped]

/-- `Peek` returns the bytes that `Dequeue` takes out. -/
theorem peek_dequeue (bounds : r.InBounds) {n : Int} (positive : 0 < n)
    (stored : n ≤ r.getUseSize) : r.peek n = (n, (r.dequeue n).2.1) ∧ (r.dequeue n).1 = n := by
  have use := use_size_eq_length bounds
  obtain ⟨count, rfl⟩ := Int.eq_ofNat_of_zero_le (show 0 ≤ n by omega)
  obtain ⟨r', taken, _⟩ := dequeue_spec bounds (show 0 < count by omega) (by omega)
  rw [peek_spec bounds (by omega) (by omega), taken]
  exact ⟨rfl, rfl⟩

/-- `DirectDequeueSize` counts stored bytes, and at least one when there is one. -/
theorem direct_dequeue_bounds (bounds : r.InBounds) :
    0 ≤ r.directDequeueSize ∧ r.directDequeueSize ≤ r.getUseSize ∧
      (0 < r.getUseSize → 0 < r.directDequeueSize) ∧
      r.origin + r.directDequeueSize ≤ r.endPos := by
  have used := use_size_cases r
  have origins := origin_cases r
  obtain ⟨least, front, rear⟩ := bounds
  have direct : r.directDequeueSize = if r.front = r.endPos ∧ r.rear = r.endPos then 0 else
      if r.origin ≤ r.rear then r.rear - r.origin else r.endPos - r.origin := rfl
  simp only [endPos] at *
  split_ifs at direct <;> omega

/-- They stand in one piece at `GetFrontBufferPtr`, and are the oldest. -/
theorem direct_dequeue_oldest (bounds : r.InBounds) :
    load r.mem r.getFrontBufferPtr r.directDequeueSize.toNat =
      r.contents.take r.directDequeueSize.toNat := by
  obtain ⟨positive, stored, _, straight⟩ := direct_dequeue_bounds bounds
  have start : r.getFrontBufferPtr = r.origin + 1 := by
    rw [getFrontBufferPtr, origin]
    split_ifs
    · rfl
    · rfl
  have bytes := eq_take_contents (r := r) (by rw [length_load]; omega)
    (@load_straight r r.directDequeueSize.toNat (by omega))
  rw [length_load] at bytes
  rw [start]
  exact bytes

/-! ## Every ring of a run -/

/-- A ring too small for a byte, which no call can move. -/
structure Cramped (r : RingBuffer) : Prop where
  size : r.size ≤ 1
  front : r.front = 0
  rear : r.rear = 0

theorem Cramped.sizes (cramped : Cramped r) :
    r.getUseSize = 0 ∧ r.getFreeSize ≤ 0 ∧ r.directDequeueSize = 0 := by
  obtain ⟨size, front, rear⟩ := cramped
  have use : r.getUseSize = 0 := by rw [getUseSize, if_pos (by omega)]
  refine ⟨use, ?_, ?_⟩
  · rw [getFreeSize, use, usableSize]
    split_ifs
    omega
  · simp only [directDequeueSize, endPos]
    split_ifs <;> omega

theorem cramped_move (cramped : Cramped r) {move : RingMove} (within : Within r move) :
    Cramped (ringMove r move) := by
  obtain ⟨use, free, _⟩ := cramped.sizes
  cases move with
  | enqueue chpData size =>
    simp only [ringMove, enqueue]
    by_cases none : size ≤ 0
    · rwa [if_pos none]
    · rwa [if_neg none, if_pos (by omega)]
  | dequeue size =>
    simp only [ringMove, dequeue]
    by_cases none : size ≤ 0
    · rwa [if_pos none]
    · rwa [if_neg none, if_pos (by omega)]
  | moveRear size =>
    have none : size ≤ 0 := Int.le_trans within free
    rwa [ringMove, moveRear, if_pos none]
  | moveFront size =>
    have none : size ≤ 0 := Int.le_trans within (Int.le_of_eq use)
    rwa [ringMove, moveFront, if_pos none]
  | clearBuffer => exact ⟨cramped.size, rfl, rfl⟩

theorem dequeue_in_bounds (bounds : r.InBounds) {n : Int} (positive : 0 < n)
    (stored : n ≤ r.getUseSize) : (r.dequeue n).2.2.InBounds := by
  have use := use_size_eq_length bounds
  obtain ⟨count, rfl⟩ := Int.eq_ofNat_of_zero_le (show 0 ≤ n by omega)
  obtain ⟨r', taken, after, _⟩ := dequeue_spec bounds (show 0 < count by omega) (by omega)
  rw [taken]
  exact after

theorem in_bounds_move (bounds : r.InBounds) {move : RingMove} (within : Within r move) :
    (ringMove r move).InBounds := by
  cases move with
  | enqueue chpData size =>
    by_cases none : size ≤ 0
    · rwa [ringMove, enqueue, if_pos none]
    by_cases full : r.getFreeSize < size
    · rwa [ringMove, enqueue, if_neg none, if_pos full]
    obtain ⟨count, rfl⟩ := Int.eq_ofNat_of_zero_le (show 0 ≤ size by omega)
    obtain ⟨r', put, after, _⟩ :=
      enqueue_spec bounds chpData (show 0 < count by omega) (by omega)
    rw [ringMove, put]
    exact after
  | dequeue size =>
    by_cases none : size ≤ 0
    · rwa [ringMove, dequeue, if_pos none]
    by_cases short : r.getUseSize < size
    · rwa [ringMove, dequeue, if_neg none, if_pos short]
    exact dequeue_in_bounds bounds (by omega) (by omega)
  | moveRear size =>
    by_cases none : size ≤ 0
    · rwa [ringMove, moveRear, if_pos none]
    obtain ⟨count, rfl⟩ := Int.eq_ofNat_of_zero_le (show 0 ≤ size by omega)
    exact (move_rear_spec bounds (by omega) within).1
  | moveFront size =>
    by_cases none : size ≤ 0
    · rwa [ringMove, moveFront, if_pos none]
    rw [ringMove, move_front_dequeue bounds (by omega) within]
    exact dequeue_in_bounds bounds (by omega) within
  | clearBuffer => exact clear_in_bounds bounds.size

theorem reached_in_bounds {bufferSize : Int} {mem : Memory} {moves : List RingMove}
    (run : Run MoveStep (create bufferSize mem) moves r) : r.InBounds ∨ Cramped r := by
  refine run.invariant (P := fun r => r.InBounds ∨ Cramped r) ?_ ?_
  · rintro s move s' standing ⟨within, rfl⟩
    rcases standing with bounds | cramped
    · exact .inl (in_bounds_move bounds within)
    · exact .inr (cramped_move cramped within)
  · by_cases room : 2 ≤ bufferSize
    · exact .inl (create_in_bounds room mem)
    · exact .inr ⟨show bufferSize ≤ 1 by omega, rfl, rfl⟩

/-- The pointers and moves of the socket path against the copies of `Enqueue`,
`Dequeue` and `Peek`. -/
structure CopiesAgree (r : RingBuffer) : Prop where
  enqueued : ∀ (chpData : Memory) (n : Int), 1 ≤ n → n ≤ r.getFreeSize →
    r.enqueue chpData n = (n, (writeDirect r chpData n).moveRear n)
  dequeued : ∀ n : Int, 1 ≤ n → n ≤ r.getUseSize →
    r.dequeue n = (n, (r.peek n).2, (r.moveFront n).2)
  oldest : load r.mem r.getFrontBufferPtr r.directDequeueSize.toNat =
    r.contents.take r.directDequeueSize.toNat
  stored : 0 ≤ r.directDequeueSize ∧ r.directDequeueSize ≤ r.getUseSize
  positive : r.contents ≠ [] → 0 < r.directDequeueSize

theorem in_bounds_agree (bounds : r.InBounds) : CopiesAgree r where
  enqueued := by
    intro chpData n positive room
    exact direct_write_enqueue bounds chpData (by omega) room
  dequeued := by
    intro n positive stored
    obtain ⟨peeked, returned⟩ := peek_dequeue bounds (show 0 < n by omega) stored
    rw [peeked, move_front_dequeue bounds (by omega) stored]
    exact Prod.ext returned rfl
  oldest := direct_dequeue_oldest bounds
  stored := ⟨(direct_dequeue_bounds bounds).1, (direct_dequeue_bounds bounds).2.1⟩
  positive := by
    intro stored
    have use := use_size_eq_length bounds
    have length := List.length_pos_iff.mpr stored
    exact (direct_dequeue_bounds bounds).2.2.1 (by omega)

theorem cramped_agree (cramped : Cramped r) : CopiesAgree r := by
  obtain ⟨use, free, direct⟩ := cramped.sizes
  have nothing : r.contents = [] := by
    apply List.eq_nil_of_length_eq_zero
    rw [length_contents, use]
    rfl
  refine ⟨fun _ n positive room => ?_, fun n positive stored => ?_, ?_, by omega, ?_⟩
  · omega
  · omega
  · rw [direct]
    rfl
  · exact fun stored => absurd nothing stored

/-- On every ring that its operations reach, copy-free access and copying access come to
the same bytes and the same positions. -/
theorem copies_agree {bufferSize : Int} {mem : Memory} {moves : List RingMove}
    (run : Run MoveStep (create bufferSize mem) moves r) : CopiesAgree r := by
  rcases reached_in_bounds run with bounds | cramped
  · exact in_bounds_agree bounds
  · exact cramped_agree cramped

end Agreement

/-- Four bytes into a ring of five cells, three out, and two more of which the second
stands behind `end`. -/
theorem copies_agree_wrapped :
    ∃ r : RingBuffer, Run MoveStep (create 5 fun _ => 7) [.enqueue (fun p => p.toNat.toUInt8) 4,
        .dequeue 3, .moveRear 2] r ∧ r.contents = [3, 0, 1] ∧ r.rear < r.front ∧
      r.directDequeueSize = 1 ∧ CopiesAgree r := by
  have run : Run MoveStep (create 5 fun _ => 7) [.enqueue (fun p => p.toNat.toUInt8) 4,
      .dequeue 3, .moveRear 2] _ :=
    .cons ⟨trivial, rfl⟩ <| .cons ⟨trivial, rfl⟩ <| .single ⟨by decide, rfl⟩
  exact ⟨_, run, by decide, by decide, by decide, copies_agree run⟩

end NewNameAuction.RingDirect
