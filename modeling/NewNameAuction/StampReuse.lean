import NewNameAuction.MemoryPool

/-! The stamp of `_freeNodePtr` after 2^16 blocks. A thread that sleeps that long between
its read and its exchange takes the word for the one it has read, and links a block as
free that somebody has. -/
namespace NewNameAuction.MemoryPool
open StampedPointer

section Wrap
variable {ι : Type*} [DecidableEq ι]

def freed (s : Shared) (pBlock : Block) : Shared :=
  { pool :=
      { s.pool with
        freeNodePtr := relinked pBlock s.pool.freeNodePtr
        next := Function.update s.pool.next pBlock (pointer s.pool.freeNodePtr)
        useSize := s.pool.useSize - 1 }
    live := s.live.erase pBlock }

theorem free_call {s : Shared} {pBlock : Block} (live : pBlock ∈ s.live) :
    Run Alone (s, .idle) [.other, .other, .other, .other, .other] (freed s pBlock, .idle) :=
  free_first (.call live) (free_first (.read ..) (free_first (.next ..)
    (free_first (.exchange pBlock rfl) (free_first (.discount _) (.nil _)))))

/-- A block is taken and freed again. -/
def cycle : List Event :=
  [.other, .read, .other, .taken, .other, .other, .other, .other, .other, .other]

/-- One block is free, the other one live. -/
structure OneFree (pBlock other : Block) (stamp : BitVec 16) (s : Shared) : Prop where
  pointer : pointer s.pool.freeNodePtr = some pBlock
  stamp : StampedPointer.stamp s.pool.freeNodePtr = stamp
  next : s.pool.next pBlock = none
  live : s.live = [other]

theorem cycle_run {pBlock other : Block} {stamp : BitVec 16} {s : Shared}
    (free : OneFree pBlock other stamp s) :
    ∃ s', Run Alone (s, .idle) cycle (s', .idle) ∧ OneFree pBlock other (stamp + 1) s' := by
  have frees := free_call (s := taken s pBlock) (List.mem_cons_self ..)
  refine ⟨_, (alloc_call free.pointer).append frees, ?_, ?_, ?_, ?_⟩
  · exact pointer_relinked ..
  · simp [freed, taken, free.stamp]
  · simp [freed, taken, free.next]
  · simp [freed, taken, free.live]

theorem cycles_run {pBlock other : Block} {stamp : BitVec 16} {s : Shared}
    (free : OneFree pBlock other stamp s) (n : Nat) :
    ∃ s', Run Alone (s, .idle) (List.replicate n cycle).flatten (s', .idle) ∧
      OneFree pBlock other (stamp + BitVec.ofNat 16 n) s' := by
  induction n with
  | zero =>
    exact ⟨s, .nil _, (BitVec.add_zero stamp).symm ▸ free⟩
  | succ n ih =>
    obtain ⟨s', run, free⟩ := ih
    obtain ⟨s'', last, free⟩ := cycle_run free
    refine ⟨s'', ?_, ?_⟩
    · rw [List.replicate_succ', List.flatten_append, List.flatten_singleton]
      exact run.append last
    · rw [BitVec.ofNat_add, ← BitVec.add_assoc]
      exact free

theorem since_others {i j : ι} (differ : j ≠ i) (past : List (ι × Event)) (events : List Event) :
    since i (past ++ events.map (Prod.mk j)) = since i past + (events.map Event.takes).sum := by
  induction events generalizing past with
  | nil => simp
  | cons event events ih =>
    have step : (past ++ [(j, event)]) ++ events.map (Prod.mk j) =
        past ++ (event :: events).map (Prod.mk j) := by simp
    rw [← step, ih, since_step past fun read => differ (congrArg Prod.fst read)]
    simp [Nat.add_assoc]

/-- What the other thread does while the first one sleeps: it takes both blocks, frees the
one that was first, and takes and frees that one until the word is what it was. -/
theorem word_comes_back {pBlock other : Block} {s : Shared} (differ : other ≠ pBlock)
    (top : pointer s.pool.freeNodePtr = some pBlock) (zero : stamp s.pool.freeNodePtr = 0)
    (follows : s.pool.next pBlock = some other) (ends : s.pool.next other = none) (none : s.live = []) :
    ∃ events back, Run Alone (s, .idle) events (back, .idle) ∧
      (events.map Event.takes).sum = 2 ^ 16 ∧ back.pool.freeNodePtr = s.pool.freeNodePtr ∧
      back.live = [other] := by
  have second : pointer (taken s pBlock).pool.freeNodePtr = some other := by
    rw [taken, pointer_stamped, follows]
  have both := (alloc_call top).append (alloc_call second)
  have held : pBlock ∈ (taken (taken s pBlock) other).live :=
    List.mem_cons_of_mem _ (List.mem_cons_self ..)
  have frees := free_call held
  have free : OneFree pBlock other 2 (freed (taken (taken s pBlock) other) pBlock) := by
    refine ⟨pointer_relinked .., ?_, ?_, ?_⟩
    · simp [freed, taken, zero]
    · simp [freed, taken, ends]
    · simp [freed, taken, none, differ]
  obtain ⟨back, cycles, again⟩ := cycles_run free (2 ^ 16 - 2)
  refine ⟨_, back, (both.append frees).append cycles, ?_, ?_, again.live⟩
  · have each : (cycle.map Event.takes).sum = 1 := rfl
    rw [List.map_append, List.sum_append, List.map_flatten, List.sum_flatten, List.map_replicate,
      List.map_replicate, each, List.sum_replicate]
    rfl
  · exact word_ext (again.pointer.trans top.symm) (again.stamp.trans zero.symm)

/-- With 2^16 blocks taken between a read and its exchange, a block is handed out that
somebody has. -/
theorem live_twice (next : Block → Option Block) {pBlock other : Block} (differ : other ≠ pBlock) :
    ∃ past rest m, Run Step (start Bool next [pBlock, other]) (past ++ (false, .taken) :: rest) m ∧
      since false past = 2 ^ 16 ∧ ¬ m.shared.live.Nodup := by
  generalize made : constructed next [pBlock, other] = pool
  have top : pointer pool.freeNodePtr = some pBlock := made ▸ pointer_address pBlock
  have follows : pool.next pBlock = some other := by simp [← made, constructed]
  have ends : pool.next other = none := by
    rw [← made, constructed]
    simp [Function.update_of_ne differ, constructed]
  have zero : stamp pool.freeNodePtr = 0 := by
    have small := pBlock.small
    rw [← made]
    exact BitVec.eq_of_toNat_eq (by rw [stamp_toNat]; exact Nat.div_eq_of_lt small)
  obtain ⟨events, back, works, takes, same, live⟩ :=
    word_comes_back (s := ⟨pool, []⟩) differ top zero follows ends rfl
  have start_eq : start Bool next [pBlock, other] = ⟨⟨pool, []⟩, fun _ => .idle⟩ := by
    rw [start, made]
  rw [start_eq]
  let tempFreeNode := pool.freeNodePtr
  let newFreeNode := stamped (pool.next pBlock) (stamp tempFreeNode + 1)
  have front : pointer newFreeNode = some other := by rw [pointer_stamped, follows]
  let handed : Shared :=
    { pool := { back.pool with freeNodePtr := newFreeNode, useSize := back.pool.useSize + 1 }
      live := pBlock :: back.live }
  have wakes : Run Alone (back, .allocExchange tempFreeNode newFreeNode pBlock) [.taken, .other]
      (handed, .idle) :=
    alloc_first (.exchange _ _ same) (alloc_first (.use ..) (.nil _))
  let asleep : Threads Bool Shared Place := Threads.move ⟨⟨pool, []⟩, fun _ => .idle⟩ false ⟨pool, []⟩
    (.allocExchange tempFreeNode newFreeNode pBlock)
  have sleeping := Threads.run_alone false (alloc_reads (s := ⟨pool, []⟩) top)
    ⟨⟨pool, []⟩, fun _ => .idle⟩ rfl rfl
  have working := Threads.run_alone true works asleep rfl rfl
  have waking := Threads.run_alone false wakes (asleep.move true back .idle) rfl rfl
  have again := Threads.run_alone true (alloc_call (s := handed) front)
    ((asleep.move true back .idle).move false handed .idle) rfl rfl
  refine ⟨_, _, _, (sleeping.append working).append (waking.append again), ?_, ?_⟩
  · rw [since_others (by decide)]
    exact (congrArg (_ + ·) takes).trans rfl
  · simp [taken, handed, live]

end Wrap

end NewNameAuction.MemoryPool
