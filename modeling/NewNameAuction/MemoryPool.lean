import NewNameAuction.Interleaving
import NewNameAuction.NodeChain
import NewNameAuction.Runs
import NewNameAuction.StampedPointer
import Mathlib.Data.List.Count

/-! `CMemoryPool` under any number of threads. Each access of `mAlloc` and `mFree` to
what the threads share is one step. The free blocks are a list from `_freeNodePtr`, whose
upper 16 bits count the blocks taken: a thread is misled only when it sleeps, between its
read of that word and its exchange, while 2^16 blocks are taken. -/
namespace NewNameAuction.MemoryPool
open StampedPointer

/-! ## Steps -/

/-- The address of a block. -/
abbrev Block := Address

/-- `next` of the blocks, and the blocks that `new` has given out: none is deleted while
the pool is there. The counters count blocks in memory, far fewer than 2^31. -/
structure CMemoryPool where
  freeNodePtr : BitVec 64
  next : Block → Option Block
  useSize : Int
  capacity : Int
  blocks : List Block

/-- The constructor's loop, with the blocks it makes from last to first. -/
def constructed (next : Block → Option Block) : List Block → CMemoryPool
  | [] => ⟨0, next, 0, 0, []⟩
  | newNode :: made =>
    let pool := constructed next made
    { pool with
      freeNodePtr := newNode.address
      next := Function.update pool.next newNode (pointer pool.freeNodePtr)
      capacity := pool.capacity + 1
      blocks := newNode :: pool.blocks }

/-- The pool, and the blocks that callers of `mAlloc` have and have not given to `mFree`. -/
structure Shared where
  pool : CMemoryPool
  live : List Block

inductive Event
  | other
  /-- `mAlloc` has read a word with a block in it. -/
  | read
  /-- `mAlloc` has exchanged the word. -/
  | taken
  deriving DecidableEq

/-- Where a thread stands: before which access. -/
inductive Place
  | idle
  /-- `mAlloc`: `_freeNodePtr`, `new`, `next`, the exchange, and the counters. -/
  | allocRead
  | allocNew
  | allocNext (tempFreeNode : BitVec 64) (pBlockTop : Block)
  | allocExchange (tempFreeNode newFreeNode : BitVec 64) (pBlockTop : Block)
  | countCapacity (pBlock : Block)
  | countUse (pBlock : Block)
  /-- `mFree`: `_freeNodePtr`, `next`, the exchange, and `_UseSize`. -/
  | freeRead (pBlock : Block)
  | freeNext (pBlock : Block) (tempFreeNode : BitVec 64)
  | freeExchange (pBlock : Block) (tempFreeNode : BitVec 64)
  | discount

/-- `mAlloc`. -/
inductive AllocStep : Shared → Place → Event → Shared → Place → Prop
  | call (s : Shared) : AllocStep s .idle .other s .allocRead
  | null {s : Shared} (null : pointer s.pool.freeNodePtr = none) :
      AllocStep s .allocRead .other s .allocNew
  | read {s : Shared} {pBlockTop : Block} (top : pointer s.pool.freeNodePtr = some pBlockTop) :
      AllocStep s .allocRead .read s (.allocNext s.pool.freeNodePtr pBlockTop)
  | new {s : Shared} {pBlock : Block} (fresh : pBlock ∉ s.pool.blocks) :
      AllocStep s .allocNew .other { s with pool.blocks := pBlock :: s.pool.blocks }
        (.countCapacity pBlock)
  | capacity (s : Shared) (pBlock : Block) :
      AllocStep s (.countCapacity pBlock) .other { s with pool.capacity := s.pool.capacity + 1 }
        (.countUse pBlock)
  | next (s : Shared) (tempFreeNode : BitVec 64) (pBlockTop : Block) :
      AllocStep s (.allocNext tempFreeNode pBlockTop) .other s
        (.allocExchange tempFreeNode (stamped (s.pool.next pBlockTop) (stamp tempFreeNode + 1)) pBlockTop)
  | exchange {s : Shared} {tempFreeNode : BitVec 64} (newFreeNode : BitVec 64) (pBlockTop : Block)
      (same : s.pool.freeNodePtr = tempFreeNode) :
      AllocStep s (.allocExchange tempFreeNode newFreeNode pBlockTop) .taken
        { s with pool.freeNodePtr := newFreeNode } (.countUse pBlockTop)
  | retry {s : Shared} {tempFreeNode : BitVec 64} (newFreeNode : BitVec 64) (pBlockTop : Block)
      (other : s.pool.freeNodePtr ≠ tempFreeNode) :
      AllocStep s (.allocExchange tempFreeNode newFreeNode pBlockTop) .other s .allocRead
  | use (s : Shared) (pBlock : Block) :
      AllocStep s (.countUse pBlock) .other
        { s with pool.useSize := s.pool.useSize + 1, live := pBlock :: s.live } .idle

/-- `mFree`, by any thread. -/
inductive FreeStep : Shared → Place → Event → Shared → Place → Prop
  | call {s : Shared} {pBlock : Block} (live : pBlock ∈ s.live) :
      FreeStep s .idle .other { s with live := s.live.erase pBlock } (.freeRead pBlock)
  | read (s : Shared) (pBlock : Block) :
      FreeStep s (.freeRead pBlock) .other s (.freeNext pBlock s.pool.freeNodePtr)
  | next (s : Shared) (pBlock : Block) (tempFreeNode : BitVec 64) :
      FreeStep s (.freeNext pBlock tempFreeNode) .other
        { s with pool.next := Function.update s.pool.next pBlock (pointer tempFreeNode) }
        (.freeExchange pBlock tempFreeNode)
  | exchange {s : Shared} (pBlock : Block) {tempFreeNode : BitVec 64}
      (same : s.pool.freeNodePtr = tempFreeNode) :
      FreeStep s (.freeExchange pBlock tempFreeNode) .other
        { s with pool.freeNodePtr := relinked pBlock tempFreeNode } .discount
  | retry {s : Shared} (pBlock : Block) {tempFreeNode : BitVec 64}
      (other : s.pool.freeNodePtr ≠ tempFreeNode) :
      FreeStep s (.freeExchange pBlock tempFreeNode) .other s (.freeRead pBlock)
  | discount (s : Shared) :
      FreeStep s .discount .other { s with pool.useSize := s.pool.useSize - 1 } .idle

inductive PoolStep (s : Shared) (p : Place) (event : Event) (s' : Shared) (p' : Place) : Prop
  | alloc (step : AllocStep s p event s' p')
  | free (step : FreeStep s p event s' p')

section System
variable {ι : Type*} [DecidableEq ι]

abbrev Step : Threads ι Shared Place → ι × Event → Threads ι Shared Place → Prop :=
  Threads.Takes PoolStep

def start (ι : Type*) (next : Block → Option Block) (made : List Block) : Threads ι Shared Place :=
  ⟨⟨constructed next made, []⟩, fun _ => .idle⟩

def Event.takes : Event → Nat
  | .taken => 1
  | _ => 0

/-- The blocks taken since a thread has last read `_freeNodePtr` in `mAlloc`. -/
def since (i : ι) (past : List (ι × Event)) : Nat :=
  past.foldl (fun taken label => if label = (i, .read) then 0 else taken + label.2.takes) 0

/-- No thread lets 2^16 blocks be taken between its read and its exchange. -/
def Brief (labels : List (ι × Event)) : Prop :=
  ∀ past i rest, labels = past ++ (i, .taken) :: rest → since i past < 2 ^ 16

theorem since_read (i : ι) (past : List (ι × Event)) : since i (past ++ [(i, .read)]) = 0 := by
  simp [since]

theorem since_step {i j : ι} {event : Event} (past : List (ι × Event)) (goes : (j, event) ≠ (i, .read)) :
    since i (past ++ [(j, event)]) = since i past + event.takes := by
  simp [since, goes]

theorem since_le (i : ι) (past : List (ι × Event)) : since i past ≤ past.length := by
  induction past using List.reverseRecOn with
  | nil => exact Nat.le_refl 0
  | append_singleton past label ih =>
    obtain ⟨j, event⟩ := label
    rw [List.length_append, List.length_singleton]
    by_cases read : (j, event) = (i, .read)
    · rw [read, since_read]
      exact Nat.zero_le _
    · have takes : event.takes ≤ 1 := by cases event <;> decide
      rw [since_step past read]
      omega

theorem brief_of_short {labels : List (ι × Event)} (short : labels.length < 2 ^ 16) : Brief labels := by
  rintro past i rest rfl
  have le := since_le i past
  rw [List.length_append] at short
  omega

theorem Brief.init {past : List (ι × Event)} {label : ι × Event} (brief : Brief (past ++ [label])) :
    Brief past := by
  rintro before i rest rfl
  exact brief before i (rest ++ [label]) (by simp)

theorem Brief.last {past : List (ι × Event)} {i : ι} (brief : Brief (past ++ [(i, .taken)])) :
    since i past < 2 ^ 16 := brief past i [] rfl

end System

/-! ## What holds between the steps -/

namespace Place

/-- The block that a thread has got and not handed out, or is about to link. -/
def block : Place → Option Block
  | .countCapacity pBlock | .countUse pBlock => some pBlock
  | .freeRead pBlock | .freeNext pBlock _ | .freeExchange pBlock _ => some pBlock
  | _ => none

def owns (pBlock : Block) (p : Place) : Nat := if p.block = some pBlock then 1 else 0

/-- A block that `_capacity` does not count yet. -/
def uncounted : Place → Nat
  | .countCapacity _ => 1
  | _ => 0

/-- A block that is no longer live and still counted by `_UseSize`. -/
def leaving : Place → Nat
  | .freeRead _ | .freeNext _ _ | .freeExchange _ _ | .discount => 1
  | _ => 0

/-- What a thread knows, when `taken` blocks were taken since its read. -/
def Sound (taken : Nat) (pool : CMemoryPool) (nodes : List Block) : Place → Prop
  | .allocNext tempFreeNode pBlockTop =>
    pointer tempFreeNode = some pBlockTop ∧
      stamp pool.freeNodePtr = stamp tempFreeNode + BitVec.ofNat 16 taken ∧
      (taken = 0 → pBlockTop ∈ nodes)
  | .allocExchange tempFreeNode newFreeNode pBlockTop =>
    pointer tempFreeNode = some pBlockTop ∧
      stamp pool.freeNodePtr = stamp tempFreeNode + BitVec.ofNat 16 taken ∧
      stamp newFreeNode = stamp tempFreeNode + 1 ∧
      (taken = 0 → pBlockTop ∈ nodes ∧ pointer newFreeNode = pool.next pBlockTop)
  | .freeExchange pBlock tempFreeNode => pool.next pBlock = pointer tempFreeNode
  | _ => True

/-- A pool that differs in what a thread does not look at. -/
theorem Sound.congr {taken : Nat} {pool pool' : CMemoryPool} {nodes nodes' : List Block} {p : Place}
    (sound : p.Sound taken pool nodes) (stamps : stamp pool'.freeNodePtr = stamp pool.freeNodePtr)
    (listed : ∀ n ∈ nodes, n ∈ nodes' ∧ pool'.next n = pool.next n)
    (own : ∀ n, p.block = some n → pool'.next n = pool.next n) : p.Sound taken pool' nodes' := by
  cases p with
  | allocNext tempFreeNode pBlockTop =>
    obtain ⟨top, stamped, member⟩ := sound
    exact ⟨top, stamps.trans stamped, fun none => (listed _ (member none)).1⟩
  | allocExchange tempFreeNode newFreeNode pBlockTop =>
    obtain ⟨top, stamped, next, member⟩ := sound
    refine ⟨top, stamps.trans stamped, next, fun none => ?_⟩
    obtain ⟨inside, follows⟩ := member none
    exact ⟨(listed _ inside).1, follows.trans (listed _ inside).2.symm⟩
  | freeExchange pBlock tempFreeNode => exact (own pBlock rfl).trans sound
  | idle | allocRead | allocNew | countCapacity _ | countUse _ | freeRead _ | freeNext _ _
  | discount => trivial

/-- A block taken by another thread moves the stamp once more. -/
theorem Sound.taken {taken : Nat} {pool pool' : CMemoryPool} {nodes nodes' : List Block} {p : Place}
    (sound : p.Sound taken pool nodes) (stamps : stamp pool'.freeNodePtr = stamp pool.freeNodePtr + 1)
    (next : pool'.next = pool.next) : p.Sound (taken + 1) pool' nodes' := by
  have later {start : BitVec 16} (stamped : stamp pool.freeNodePtr = start + BitVec.ofNat 16 taken) :
      stamp pool'.freeNodePtr = start + BitVec.ofNat 16 (taken + 1) := by
    rw [stamps, stamped, BitVec.ofNat_add, BitVec.add_assoc]
    rfl
  cases p with
  | allocNext tempFreeNode pBlockTop => exact ⟨sound.1, later sound.2.1, fun none => nomatch none⟩
  | allocExchange tempFreeNode newFreeNode pBlockTop =>
    exact ⟨sound.1, later sound.2.1, sound.2.2.1, fun none => nomatch none⟩
  | freeExchange pBlock tempFreeNode => exact (congrFun next pBlock).trans sound
  | idle | allocRead | allocNew | countCapacity _ | countUse _ | freeRead _ | freeNext _ _
  | discount => trivial

end Place

section Invariant
variable {ι : Type*} [Fintype ι]

/-- Every block of the pool is at one place: in the list of the free ones, live, or with
one thread. -/
structure Owned (m : Threads ι Shared Place) (nodes : List Block) : Prop where
  chain : Chain m.shared.pool.next (pointer m.shared.pool.freeNodePtr) nodes
  distinct : m.shared.pool.blocks.Nodup
  once : ∀ pBlock, nodes.count pBlock + m.shared.live.count pBlock + m.total (Place.owns pBlock) =
    m.shared.pool.blocks.count pBlock
  useSize : m.shared.pool.useSize = m.shared.live.length + m.total Place.leaving
  capacity : m.shared.pool.capacity + m.total Place.uncounted = m.shared.pool.blocks.length

namespace Owned
variable {m : Threads ι Shared Place} {nodes : List Block} (owned : Owned m nodes)
include owned

theorem le_one (pBlock : Block) :
    nodes.count pBlock + m.shared.live.count pBlock + m.total (Place.owns pBlock) ≤ 1 := by
  rw [owned.once]
  exact List.nodup_iff_count_le_one.mp owned.distinct pBlock

theorem not_listed {i : ι} {pBlock : Block} (mine : (m.place i).block = some pBlock) :
    pBlock ∉ nodes := by
  intro member
  have le := owned.le_one pBlock
  have one := m.le_total (Place.owns pBlock) i
  have positive := List.count_pos_iff.mpr member
  rw [Place.owns, if_pos mine] at one
  omega

theorem apart {i j : ι} {pBlock : Block} (mine : (m.place i).block = some pBlock)
    (other : (m.place j).block = some pBlock) : i = j := by
  by_contra differ
  have le := owned.le_one pBlock
  have two := m.add_le_total (Place.owns pBlock) differ
  rw [Place.owns, Place.owns, if_pos mine, if_pos other] at two
  omega

end Owned

variable [DecidableEq ι]

structure Sound (past : List (ι × Event)) (m : Threads ι Shared Place) (nodes : List Block) : Prop where
  owned : Owned m nodes
  places : ∀ i, (m.place i).Sound (since i past) m.shared.pool nodes

end Invariant

/-! ## One step -/

/-- What a step makes of the blocks and of the counters. -/
structure Trade (s : Shared) (p : Place) (nodes : List Block) (s' : Shared) (p' : Place)
    (nodes' : List Block) : Prop where
  distinct : s.pool.blocks.Nodup → s'.pool.blocks.Nodup
  once : ∀ pBlock, nodes'.count pBlock + s'.live.count pBlock + p'.owns pBlock +
      s.pool.blocks.count pBlock =
    nodes.count pBlock + s.live.count pBlock + p.owns pBlock + s'.pool.blocks.count pBlock
  useSize : s'.pool.useSize + s.live.length + p.leaving = s.pool.useSize + s'.live.length + p'.leaving
  capacity : s'.pool.capacity + p'.uncounted + s.pool.blocks.length =
    s.pool.capacity + p.uncounted + s'.pool.blocks.length

/-- A thread passes its block on from one access to the next. -/
theorem Trade.pass {s : Shared} {p p' : Place} {nodes : List Block} {pool : CMemoryPool}
    (counters : pool.useSize = s.pool.useSize ∧ pool.capacity = s.pool.capacity)
    (blocks : pool.blocks = s.pool.blocks) (block : p'.block = p.block)
    (leaving : p'.leaving = p.leaving) (uncounted : p'.uncounted = p.uncounted) :
    Trade s p nodes { s with pool := pool } p' nodes where
  distinct := fun distinct => blocks ▸ distinct
  once := fun pBlock => by rw [Place.owns, Place.owns, block, blocks]
  useSize := by rw [counters.1, leaving]
  capacity := by rw [counters.2, uncounted, blocks]

section Moves
variable {ι : Type*} [Fintype ι] [DecidableEq ι] {past : List (ι × Event)} {m : Threads ι Shared Place}
  {nodes nodes' : List Block} {i : ι} {event : Event} {s : Shared} {p : Place}

theorem Owned.move (owned : Owned m nodes) (trade : Trade m.shared (m.place i) nodes s p nodes')
    (chain : Chain s.pool.next (pointer s.pool.freeNodePtr) nodes') : Owned (m.move i s p) nodes' where
  chain := chain
  distinct := trade.distinct owned.distinct
  once := fun pBlock => by
    have before := owned.once pBlock
    have traded := trade.once pBlock
    have total := Threads.total_move m i s p (Place.owns pBlock)
    rw [Threads.shared_move]
    omega
  useSize := by
    have before := owned.useSize
    have traded := trade.useSize
    have total := Threads.total_move m i s p Place.leaving
    rw [Threads.shared_move]
    omega
  capacity := by
    have before := owned.capacity
    have traded := trade.capacity
    have total := Threads.total_move m i s p Place.uncounted
    rw [Threads.shared_move]
    omega

theorem Sound.move (owned : Owned (m.move i s p) nodes')
    (self : p.Sound (since i (past ++ [(i, event)])) s.pool nodes')
    (others : ∀ j, j ≠ i → (m.place j).Sound (since j past + event.takes) s.pool nodes') :
    Sound (past ++ [(i, event)]) (m.move i s p) nodes' where
  owned := owned
  places := fun j => by
    by_cases same : j = i
    · subst same
      rwa [Threads.place_move_self]
    · rw [Threads.place_move_other _ _ _ _ same,
        since_step past fun read => same (congrArg Prod.fst read).symm]
      exact others j same

/-- A step that leaves the list alone. -/
theorem Sound.quiet (sound : Sound past m nodes) (word : s.pool.freeNodePtr = m.shared.pool.freeNodePtr)
    (next : s.pool.next = m.shared.pool.next) {q : Place} (here : m.place i = q)
    (trade : Trade m.shared q nodes s p nodes) (keeps : event.takes = 0)
    (self : p.Sound (since i (past ++ [(i, event)])) m.shared.pool nodes) :
    Sound (past ++ [(i, event)]) (m.move i s p) nodes := by
  have kept {taken : Nat} {q : Place} (known : q.Sound taken m.shared.pool nodes) :
      q.Sound taken s.pool nodes :=
    known.congr (congrArg stamp word) (fun n member => ⟨member, congrFun next n⟩)
      fun n _ => congrFun next n
  subst here
  refine Sound.move (sound.owned.move trade ?_) (kept self) fun j _ => ?_
  · rw [word, next]
    exact sound.owned.chain
  · rw [keeps]
    exact kept (sound.places j)

/-- An exchange that succeeds is of the word as the thread has read it, since nobody can
have taken as many blocks as would bring the stamp back. -/
theorem not_taken {taken : Nat} {word : BitVec 64} (brief : taken < 2 ^ 16)
    (stamps : stamp word = stamp word + BitVec.ofNat 16 taken) : taken = 0 := by
  have values := congrArg BitVec.toNat stamps
  have small := (stamp word).isLt
  rw [BitVec.toNat_add, BitVec.toNat_ofNat] at values
  omega

theorem take_block (sound : Sound past m nodes) {tempFreeNode newFreeNode : BitVec 64}
    {pBlockTop : Block} (here : m.place i = .allocExchange tempFreeNode newFreeNode pBlockTop)
    (same : m.shared.pool.freeNodePtr = tempFreeNode) (brief : since i past < 2 ^ 16) :
    ∃ nodes', Sound (past ++ [(i, .taken)])
      (m.move i { m.shared with pool.freeNodePtr := newFreeNode } (.countUse pBlockTop)) nodes' := by
  have known := sound.places i
  rw [here] at known
  obtain ⟨top, stamps, moves, ready⟩ := known
  rw [same] at stamps
  obtain ⟨-, follows⟩ := ready (not_taken brief stamps)
  obtain ⟨rest, rfl, later⟩ : ∃ rest, nodes = pBlockTop :: rest ∧
      Chain m.shared.pool.next (m.shared.pool.next pBlockTop) rest := by
    have chain := sound.owned.chain
    rw [same, top] at chain
    cases chain with
    | cons later => exact ⟨_, rfl, later⟩
  refine ⟨rest, Sound.move (sound.owned.move ?_ ?_) trivial fun j _ => ?_⟩
  · rw [here]
    refine ⟨id, fun pBlock => ?_, rfl, rfl⟩
    rw [List.count_cons]
    simp [Place.owns, Place.block]
    omega
  · rw [follows]
    exact later
  · refine (sound.places j).taken ?_ rfl
    rw [moves, same]

theorem alloc_step (sound : Sound past m nodes) (step : AllocStep m.shared (m.place i) event s p)
    (brief : event = .taken → since i past < 2 ^ 16) :
    ∃ nodes', Sound (past ++ [(i, event)]) (m.move i s p) nodes' := by
  have known := sound.places i
  generalize here : m.place i = before at step
  rw [here] at known
  have kept : since i (past ++ [(i, .other)]) = since i past := since_step past (by simp)
  cases step with
  | call | null _ =>
    exact ⟨nodes, sound.quiet rfl rfl here (.pass ⟨rfl, rfl⟩ rfl rfl rfl rfl) rfl trivial⟩
  | retry newFreeNode pBlockTop other =>
    exact ⟨nodes, sound.quiet rfl rfl here (.pass ⟨rfl, rfl⟩ rfl rfl rfl rfl) rfl trivial⟩
  | @read pBlockTop top =>
    refine ⟨nodes, sound.quiet rfl rfl here (.pass ⟨rfl, rfl⟩ rfl rfl rfl rfl) rfl ?_⟩
    have chain := sound.owned.chain
    rw [top] at chain
    cases chain with
    | cons later =>
      rw [since_read]
      exact ⟨top, (BitVec.add_zero _).symm, fun _ => List.mem_cons_self ..⟩
  | @new pBlock fresh =>
    refine ⟨nodes, sound.quiet rfl rfl here ⟨fun distinct => List.nodup_cons.mpr ⟨fresh, distinct⟩,
      fun other => ?_, rfl, ?_⟩ rfl trivial⟩
    · simp [Place.owns, Place.block, List.count_cons]
      omega
    · simp [Place.uncounted]
      omega
  | capacity pBlock =>
    refine ⟨nodes, sound.quiet rfl rfl here ⟨id, fun _ => rfl, rfl, ?_⟩ rfl trivial⟩
    simp [Place.uncounted]
  | next tempFreeNode pBlockTop =>
    obtain ⟨top, stamps, member⟩ := known
    refine ⟨nodes, sound.quiet rfl rfl here (.pass ⟨rfl, rfl⟩ rfl rfl rfl rfl) rfl ?_⟩
    rw [kept]
    exact ⟨top, stamps, stamp_stamped .., fun none => ⟨member none, pointer_stamped ..⟩⟩
  | exchange newFreeNode pBlockTop same => exact take_block sound here same (brief rfl)
  | use pBlock =>
    refine ⟨nodes, sound.quiet rfl rfl here ⟨id, fun other => ?_, ?_, rfl⟩ rfl trivial⟩
    · simp [Place.owns, Place.block, List.count_cons]
      omega
    · simp [Place.leaving]
      omega

/-- `mFree` writes to its own block, which nobody else looks at. -/
theorem set_next (sound : Sound past m nodes) {pBlock : Block} {tempFreeNode : BitVec 64}
    (here : m.place i = .freeNext pBlock tempFreeNode) :
    Sound (past ++ [(i, .other)])
      (m.move i
        { m.shared with
          pool.next := Function.update m.shared.pool.next pBlock (pointer tempFreeNode) }
        (.freeExchange pBlock tempFreeNode)) nodes := by
  have mine : (m.place i).block = some pBlock := by rw [here, Place.block]
  have listed : ∀ n ∈ nodes, Function.update m.shared.pool.next pBlock (pointer tempFreeNode) n =
      m.shared.pool.next n := fun n member =>
    Function.update_of_ne (ne_of_mem_of_not_mem member (sound.owned.not_listed mine)) ..
  refine Sound.move (sound.owned.move ?_ ?_) (Function.update_self ..) fun j other => ?_
  · rw [here]
    exact .pass ⟨rfl, rfl⟩ rfl rfl rfl rfl
  · exact sound.owned.chain.frame listed
  · refine (sound.places j).congr rfl (fun n member => ⟨member, listed n member⟩) fun n own => ?_
    exact Function.update_of_ne (fun same => other (sound.owned.apart (same ▸ own) mine)) ..

theorem link_block (sound : Sound past m nodes) {pBlock : Block} {tempFreeNode : BitVec 64}
    (here : m.place i = .freeExchange pBlock tempFreeNode)
    (same : m.shared.pool.freeNodePtr = tempFreeNode) :
    Sound (past ++ [(i, .other)])
      (m.move i { m.shared with pool.freeNodePtr := relinked pBlock tempFreeNode } .discount)
      (pBlock :: nodes) := by
  have front := sound.places i
  rw [here] at front
  refine Sound.move (sound.owned.move ?_ ?_) trivial fun j _ => ?_
  · rw [here]
    refine ⟨id, fun other => ?_, rfl, rfl⟩
    simp [Place.owns, Place.block, List.count_cons]
    omega
  · rw [pointer_relinked]
    refine .cons ?_
    rw [front, ← same]
    exact sound.owned.chain
  · refine (sound.places j).congr ?_ (fun n member => ⟨List.mem_cons_of_mem _ member, rfl⟩)
      fun _ _ => rfl
    rw [stamp_relinked, same]

theorem free_step (sound : Sound past m nodes) (step : FreeStep m.shared (m.place i) event s p) :
    ∃ nodes', Sound (past ++ [(i, event)]) (m.move i s p) nodes' := by
  generalize here : m.place i = before at step
  cases step with
  | @call pBlock live =>
    refine ⟨nodes, sound.quiet rfl rfl here ⟨id, fun other => ?_, ?_, rfl⟩ rfl trivial⟩
    · have positive := List.count_pos_iff.mpr live
      rw [List.count_erase]
      by_cases same : pBlock = other
      · subst same
        simp [Place.owns, Place.block]
        omega
      · simp [Place.owns, Place.block, same]
    · have length := List.length_erase_add_one live
      simp [Place.leaving]
      omega
  | read pBlock =>
    exact ⟨nodes, sound.quiet rfl rfl here (.pass ⟨rfl, rfl⟩ rfl rfl rfl rfl) rfl trivial⟩
  | retry pBlock other =>
    exact ⟨nodes, sound.quiet rfl rfl here (.pass ⟨rfl, rfl⟩ rfl rfl rfl rfl) rfl trivial⟩
  | next pBlock tempFreeNode => exact ⟨nodes, set_next sound here⟩
  | exchange pBlock same => exact ⟨pBlock :: nodes, link_block sound here same⟩
  | discount =>
    refine ⟨nodes, sound.quiet rfl rfl here ⟨id, fun _ => rfl, ?_, rfl⟩ rfl trivial⟩
    simp [Place.leaving]
    omega

end Moves

/-! ## A call by itself -/

section Calls
variable {ι : Type*} [DecidableEq ι] {m : Threads ι Shared Place} {i : ι}

/-- The steps of one thread, the others at rest. -/
abbrev Alone : Shared × Place → Event → Shared × Place → Prop :=
  fun x event y => PoolStep x.1 x.2 event y.1 y.2

theorem alloc_first {s s' : Shared} {p p' : Place} {event : Event} (step : AllocStep s p event s' p')
    {events : List Event} {y : Shared × Place} (rest : Run Alone (s', p') events y) :
    Run Alone (s, p) (event :: events) y := .cons (t := (s', p')) (.alloc step) rest

theorem free_first {s s' : Shared} {p p' : Place} {event : Event} (step : FreeStep s p event s' p')
    {events : List Event} {y : Shared × Place} (rest : Run Alone (s', p') events y) :
    Run Alone (s, p) (event :: events) y := .cons (t := (s', p')) (.free step) rest

def taken (s : Shared) (pBlockTop : Block) : Shared :=
  { pool :=
      { s.pool with
        freeNodePtr := stamped (s.pool.next pBlockTop) (stamp s.pool.freeNodePtr + 1)
        useSize := s.pool.useSize + 1 }
    live := pBlockTop :: s.live }

/-- A call of `mAlloc` up to its exchange. -/
theorem alloc_reads {s : Shared} {pBlockTop : Block} (top : pointer s.pool.freeNodePtr = some pBlockTop) :
    Run Alone (s, .idle) [.other, .read, .other]
      (s, .allocExchange s.pool.freeNodePtr
        (stamped (s.pool.next pBlockTop) (stamp s.pool.freeNodePtr + 1)) pBlockTop) :=
  alloc_first (.call s) (alloc_first (.read top) (alloc_first (.next ..) (.nil _)))

theorem alloc_call {s : Shared} {pBlockTop : Block} (top : pointer s.pool.freeNodePtr = some pBlockTop) :
    Run Alone (s, .idle) [.other, .read, .other, .taken, .other] (taken s pBlockTop, .idle) :=
  (alloc_reads top).append (alloc_first (.exchange _ _ rfl) (alloc_first (.use ..) (.nil _)))

end Calls

/-! ## Runs -/

section Runs
variable {ι : Type*}

theorem constructed_blocks (next : Block → Option Block) (made : List Block) :
    (constructed next made).blocks = made := by
  induction made with
  | nil => rfl
  | cons newNode made ih => exact congrArg (newNode :: ·) ih

theorem constructed_counts (next : Block → Option Block) (made : List Block) :
    (constructed next made).useSize = 0 ∧ (constructed next made).capacity = made.length := by
  induction made with
  | nil => exact ⟨rfl, rfl⟩
  | cons newNode made ih =>
    refine ⟨ih.1, ?_⟩
    rw [constructed, List.length_cons]
    dsimp only
    rw [ih.2]
    rfl

theorem constructed_chain (next : Block → Option Block) {made : List Block} (distinct : made.Nodup) :
    Chain (constructed next made).next (pointer (constructed next made).freeNodePtr) made := by
  induction made with
  | nil =>
    have null : pointer (constructed next []).freeNodePtr = none := pointer_null
    rw [null]
    exact .nil
  | cons newNode made ih =>
    obtain ⟨fresh, distinct⟩ := List.nodup_cons.mp distinct
    rw [constructed, pointer_address]
    refine .cons ?_
    dsimp only
    rw [Function.update_self]
    exact (ih distinct).frame fun n member => Function.update_of_ne (ne_of_mem_of_not_mem member fresh) ..

variable [Fintype ι] [DecidableEq ι] {labels : List (ι × Event)} {m : Threads ι Shared Place}

theorem start_sound (next : Block → Option Block) {made : List Block} (distinct : made.Nodup) :
    Sound [] (start ι next made) made := by
  have counts := constructed_counts next made
  have none (weight : Place → Nat) (idle : weight .idle = 0) : (start ι next made).total weight = 0 :=
    Threads.total_zero weight _ fun _ => idle
  refine ⟨⟨constructed_chain next distinct, ?_, fun pBlock => ?_, ?_, ?_⟩, fun _ => trivial⟩
  · exact (constructed_blocks next made).symm ▸ distinct
  · rw [none (Place.owns pBlock) rfl]
    exact congrArg (List.count pBlock) (constructed_blocks next made).symm
  · rw [none Place.leaving rfl]
    exact counts.1
  · rw [none Place.uncounted rfl]
    rw [start, constructed_blocks, counts.2]
    exact Int.add_zero _

theorem run_sound {next : Block → Option Block} {made : List Block} (distinct : made.Nodup)
    (run : Run Step (start ι next made) labels m) : Brief labels → ∃ nodes, Sound labels m nodes := by
  refine run.history (P := fun labels m => Brief labels → ∃ nodes, Sound labels m nodes) ?_
    fun _ => ⟨made, start_sound next distinct⟩
  rintro past m ⟨i, event⟩ m' before ⟨s, p, step, rfl⟩ brief
  obtain ⟨nodes, sound⟩ := before brief.init
  cases step with
  | alloc step => exact alloc_step sound step fun taken => Brief.last (taken ▸ brief)
  | free step => exact free_step sound step

/-- No thread is in the middle of a call. -/
def AtRest (m : Threads ι Shared Place) : Prop := ∀ i, m.place i = .idle

/-- No block is live twice, or live and free. At rest every block is one or the other, and
the counters say how many there are. -/
structure Intact (m : Threads ι Shared Place) (nodes : List Block) : Prop where
  owned : Owned m nodes
  distinct : (nodes ++ m.shared.live).Nodup
  blocks : AtRest m → (nodes ++ m.shared.live).Perm m.shared.pool.blocks
  useSize : AtRest m → m.shared.pool.useSize = m.shared.live.length
  capacity : AtRest m → m.shared.pool.capacity = m.shared.pool.blocks.length

/-- Nobody gets a block that somebody has, and no block gets lost. -/
theorem blocks_owned_once {next : Block → Option Block} {made : List Block} (distinct : made.Nodup)
    (run : Run Step (start ι next made) labels m) (brief : Brief labels) :
    ∃ nodes, Intact m nodes := by
  obtain ⟨nodes, sound⟩ := run_sound distinct run brief
  have owned := sound.owned
  have none (rest : AtRest m) (weight : Place → Nat) (idle : weight .idle = 0) : m.total weight = 0 :=
    Threads.total_zero weight _ fun i => by rw [rest i, idle]
  refine ⟨nodes, owned, List.nodup_iff_count_le_one.mpr fun pBlock => ?_, fun rest => ?_,
    fun rest => ?_, fun rest => ?_⟩
  · have le := owned.le_one pBlock
    rw [List.count_append]
    omega
  · refine List.perm_iff_count.mpr fun pBlock => ?_
    have once := owned.once pBlock
    rwa [none rest (Place.owns pBlock) rfl, Nat.add_zero, ← List.count_append] at once
  · have useSize := owned.useSize
    rw [none rest Place.leaving rfl] at useSize
    omega
  · have capacity := owned.capacity
    rw [none rest Place.uncounted rfl] at capacity
    omega

end Runs

/-- One thread takes the only block. -/
theorem block_taken : ∃ pBlock : Block, ∃ labels m,
    Run Step (start Bool (fun _ => none) [pBlock]) labels m ∧ m.shared.live = [pBlock] ∧
      ∃ nodes, Intact m nodes := by
  let pBlock : Block := ⟨4096, by decide, by decide⟩
  have run := Threads.run_alone true
    (alloc_call (s := ⟨constructed (fun _ => none) [pBlock], []⟩) (pointer_address pBlock))
    (start Bool (fun _ => none) [pBlock]) rfl rfl
  exact ⟨pBlock, _, _, run, rfl,
    blocks_owned_once (List.nodup_singleton pBlock) run (brief_of_short (by decide))⟩

end NewNameAuction.MemoryPool
