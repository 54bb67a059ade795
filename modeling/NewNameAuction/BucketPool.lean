import NewNameAuction.Runs
import Mathlib.Data.List.Nodup
import Mathlib.Data.List.Pairwise
import Mathlib.Logic.Function.Basic

/-! `CMemoryPoolBucket`. A thread takes objects from a bucket of its own until all of
them are handed out; any thread gives them back, and whoever frees the last one gives
the bucket back to the shared pool. Two counters, one for the objects handed out and
one for those freed, keep the buckets apart from each other and from the threads. Addresses are numbers. -/
namespace NewNameAuction.BucketPool

/-- `POOL_BUCKET_SIZE`, and `sizeof(DataBlock<T>)`: the word `bucketAddress` and a
`Data` of at least one byte. -/
structure Layout where
  poolBucketSize : Nat
  blockSize : Nat
  bucket_pos : 1 ≤ poolBucketSize
  word_fits : 8 < blockSize

namespace Layout
variable (l : Layout)

/-- `DataArray[i]` of a bucket, whose first word is `bucketAddress`. -/
def dataBlock (pBucket : Nat) (i : Nat) : Nat := pBucket + i * l.blockSize

/-- `DataArray[i].Data`. -/
def data (pBucket : Nat) (i : Nat) : Nat := l.dataBlock pBucket i + 8

/-- The bytes of a bucket's `DataArray`. -/
def arraySize : Nat := l.poolBucketSize * l.blockSize

/-- Two blocks of the shared pool do not overlap: a bucket stands 24 bytes behind the
start of its block. -/
def Apart (block other : Nat) : Prop :=
  block + 24 + l.arraySize ≤ other ∨ other + 24 + l.arraySize ≤ block

/-- Two buckets, whose arrays do not overlap. -/
def Separate (pBucket other : Nat) : Prop :=
  pBucket + l.arraySize ≤ other ∨ other + l.arraySize ≤ pBucket

end Layout

/-- `CMemoryPool<DataBucket<T>>`. `freeNodes` are the blocks linked from `_freeNodePtr`,
`blocks` all those that `new` has given out: none is deleted while the pool is there.
The counters count blocks in memory, far fewer than 2^31. `ERROR_CHECK_FLAG` is not
defined, so that nothing reads `isUse`, `check` and the bounds of a block. -/
structure CMemoryPool where
  freeNodes : List Nat
  useSize : Int
  capacity : Int
  blocks : List Nat

namespace CMemoryPool

/-- `mAlloc`, where `newBlock` is what `new` gives out when no block is free. What it
constructs in a block sets none of the words and counters below. -/
def mAlloc (shared : CMemoryPool) (newBlock : Nat) : Nat × CMemoryPool :=
  match shared.freeNodes with
  | [] =>
    (newBlock + 24,
      { shared with
        useSize := shared.useSize + 1
        capacity := shared.capacity + 1
        blocks := newBlock :: shared.blocks })
  | pBlockTop :: next =>
    (pBlockTop + 24,
      { shared with
        freeNodes := next
        useSize := shared.useSize + 1 })

def mFree (shared : CMemoryPool) (inParam : Nat) : CMemoryPool :=
  { shared with
    freeNodes := (inParam - 24) :: shared.freeNodes
    useSize := shared.useSize - 1 }

end CMemoryPool

/-- The bucket pool: the shared pool, every thread's word at `TLS_MemoryPoolIndex` (0 is
`NULL`), the words `bucketAddress` by their address, and the counters of the buckets. -/
structure Pool (ι : Type*) where
  shared : CMemoryPool
  tls : ι → Nat
  bucketAddress : Nat → Nat
  allocCount : Nat → Nat
  useCount : Nat → Int

/-- A call on the shared pool, with the bucket it gets or gives back. -/
inductive SharedCall
  | mAlloc (pBucket : Nat)
  | mFree (pBucket : Nat)
  deriving DecidableEq

inductive Call
  | mAlloc (outParam : Nat)
  | mFree (inParam : Nat)

/-- A call of a thread, with the bucket it works on and the calls it makes on the
shared pool. -/
structure Turn (ι : Type*) where
  thread : ι
  call : Call
  pBucket : Nat
  shared : List SharedCall

namespace Pool
variable {ι : Type*} [DecidableEq ι] (l : Layout) (pool : Pool ι) (i : ι)

/-- The loop of `borrowBucket` over the first blocks of the array. -/
def setAddresses (pBucket : Nat) : Nat → (Nat → Nat) → Nat → Nat
  | 0, words => words
  | count + 1, words =>
    Function.update (setAddresses pBucket count words) (l.dataBlock pBucket count) pBucket

def borrowBucket (newBlock : Nat) : Pool ι :=
  let (pBucket, shared) := pool.shared.mAlloc newBlock
  { shared := shared
    tls := Function.update pool.tls i pBucket
    bucketAddress := setAddresses l pBucket l.poolBucketSize pool.bucketAddress
    allocCount := Function.update pool.allocCount pBucket 0
    useCount := Function.update pool.useCount pBucket l.poolBucketSize }

/-- The part of `mAlloc` behind `borrowBucket`: the next object of the thread's bucket. -/
def handOut : Nat × Pool ι :=
  let pBucket := pool.tls i
  let temp := pool.allocCount pBucket
  let counted := { pool with allocCount := Function.update pool.allocCount pBucket (temp + 1) }
  (l.data pBucket temp,
    if temp + 1 = l.poolBucketSize then { counted with tls := Function.update pool.tls i 0 }
    else counted)

def mAlloc (newBlock : Nat) : Turn ι × Pool ι :=
  let null := pool.tls i = 0
  let ready := if null then pool.borrowBucket l i newBlock else pool
  let pBucket := ready.tls i
  (⟨i, .mAlloc (ready.handOut l i).1, pBucket, if null then [.mAlloc pBucket] else []⟩,
    (ready.handOut l i).2)

def mFree (inParam : Nat) : Turn ι × Pool ι :=
  let pBucket := pool.bucketAddress (inParam - 8)
  let useCount := pool.useCount pBucket - 1
  let counted := { pool with useCount := Function.update pool.useCount pBucket useCount }
  (⟨i, .mFree inParam, pBucket, if useCount = 0 then [.mFree pBucket] else []⟩,
    if useCount = 0 then { counted with shared := pool.shared.mFree pBucket } else counted)

def getUseSize : Int := pool.shared.useSize

end Pool

/-! ## Runs -/

/-- The pool, and the live pointers, each with the bucket that `mAlloc` took it from. -/
structure System (ι : Type*) where
  pool : Pool ι
  live : List (Nat × Nat)

section Steps
variable {ι : Type*} [DecidableEq ι] (l : Layout)

/-- What `new` gives out overlaps no block. -/
def Fresh (pool : Pool ι) (newBlock : Nat) : Prop :=
  ∀ block ∈ pool.shared.blocks, l.Apart newBlock block

/-- The words after the holders of live objects have written into these, which are the
bytes from the pointer to the end of the `DataBlock`. -/
def Written (s : System ι) (words : Nat → Nat) : Prop :=
  ∀ word, (∀ object ∈ s.live, word + 8 ≤ object.1 ∨ object.1 + l.blockSize ≤ word + 8) →
    words word = s.pool.bucketAddress word

/-- A call of a thread, after some writes: `mAlloc`, or `mFree` on a live pointer. -/
inductive Step : System ι → Turn ι → System ι → Prop
  | mAlloc {s : System ι} (i : ι) (newBlock : Nat) {words : Nat → Nat} {turn : Turn ι}
      {pool : Pool ι} {outParam : Nat} (fresh : Fresh l s.pool newBlock)
      (written : Written l s words)
      (served : { s.pool with bucketAddress := words }.mAlloc l i newBlock = (turn, pool))
      (out : turn.call = .mAlloc outParam) :
      Step s turn ⟨pool, (outParam, turn.pBucket) :: s.live⟩
  | mFree {s : System ι} (i : ι) {inParam pBucket : Nat} {words : Nat → Nat}
      {turn : Turn ι} {pool : Pool ι} (live : (inParam, pBucket) ∈ s.live)
      (written : Written l s words)
      (served : { s.pool with bucketAddress := words }.mFree i inParam = (turn, pool)) :
      Step s turn ⟨pool, s.live.erase (inParam, pBucket)⟩

/-- The pool as constructed, with some blocks made in advance. What lies in a block
does not matter. -/
def start (blocks : List Nat) (bucketAddress : Nat → Nat) (allocCount : Nat → Nat)
    (useCount : Nat → Int) : System ι :=
  ⟨⟨⟨blocks, 0, blocks.length, blocks⟩, fun _ => 0, bucketAddress, allocCount, useCount⟩, []⟩

end Steps

/-! ## What holds between the turns -/

/-- An object by its bucket and its place there. -/
abbrev Slot := Nat × Nat

/-- The pointer to an object, with its bucket. -/
def Layout.object (l : Layout) (slot : Slot) : Nat × Nat := (l.data slot.1 slot.2, slot.1)

/-- The shared pool, when some buckets are borrowed. -/
structure Accounts (l : Layout) (shared : CMemoryPool) (buckets : List Nat) : Prop where
  blocks : (shared.freeNodes.map (· + 24) ++ buckets).Perm (shared.blocks.map (· + 24))
  apart : shared.blocks.Pairwise l.Apart
  useSize : shared.useSize = buckets.length

/-- The pool with the borrowed buckets and the live objects. -/
structure Sound {ι : Type*} (l : Layout) (pool : Pool ι) (buckets : List Nat) (slots : List Slot) :
    Prop where
  shared : Accounts l pool.shared buckets
  words : ∀ b ∈ buckets, ∀ j < l.poolBucketSize, pool.bucketAddress (l.dataBlock b j) = b
  room : ∀ b ∈ buckets, pool.allocCount b ≤ l.poolBucketSize
  used : ∀ b ∈ buckets, 0 < pool.useCount b ∧ pool.useCount b ≤ l.poolBucketSize
  counts : ∀ b ∈ buckets,
    (pool.allocCount b : Int) + pool.useCount b = l.poolBucketSize + slots.countP (·.1 = b)
  placed : ∀ slot ∈ slots, slot.1 ∈ buckets ∧ slot.2 < pool.allocCount slot.1
  once : slots.Nodup
  current : ∀ i, pool.tls i ≠ 0 →
    pool.tls i ∈ buckets ∧ pool.allocCount (pool.tls i) < l.poolBucketSize
  own : ∀ i j, pool.tls i ≠ 0 → pool.tls i = pool.tls j → i = j

section Geometry
variable {l : Layout}

instance : Std.Symm l.Apart := ⟨fun _ _ apart => Or.symm apart⟩

instance : Std.Symm l.Separate := ⟨fun _ _ apart => Or.symm apart⟩

/-- The `DataBlock`s of buckets that do not overlap do not overlap either. -/
theorem dataBlock_apart {b b' : Nat} {j j' : Nat}
    (arrays : b = b' ∨ l.Separate b b') (inside : j < l.poolBucketSize)
    (inside' : j' < l.poolBucketSize) (other : (b, j) ≠ (b', j')) :
    l.dataBlock b j + l.blockSize ≤ l.dataBlock b' j' ∨
      l.dataBlock b' j' + l.blockSize ≤ l.dataBlock b j := by
  have upTo {k m : Nat} (less : k < m) : k * l.blockSize + l.blockSize ≤ m * l.blockSize := by
    rw [← Nat.succ_mul]
    exact Nat.mul_le_mul_right _ less
  have last := upTo inside
  have last' := upTo inside'
  unfold Layout.Separate Layout.arraySize at arrays
  unfold Layout.dataBlock
  rcases arrays with rfl | arrays
  · rcases Nat.lt_trichotomy j j' with less | rfl | more
    · have between := upTo less
      omega
    · exact absurd rfl other
    · have between := upTo more
      omega
  · omega

theorem arraySize_pos (l : Layout) : 0 < l.arraySize :=
  Nat.mul_pos l.bucket_pos (Nat.lt_of_le_of_lt (Nat.zero_le 8) l.word_fits)

end Geometry

namespace Accounts
variable {l : Layout} {shared : CMemoryPool} {buckets : List Nat}

/-- All buckets, free or borrowed, are apart. -/
theorem pairwise (accounts : Accounts l shared buckets) :
    (shared.freeNodes.map (· + 24) ++ buckets).Pairwise l.Separate := by
  refine (accounts.blocks.pairwise_iff fun apart => symm apart).mpr (List.pairwise_map.mpr ?_)
  refine accounts.apart.imp fun apart => ?_
  unfold Layout.Apart at apart
  unfold Layout.Separate
  omega

theorem nodup (accounts : Accounts l shared buckets) :
    (shared.freeNodes.map (· + 24) ++ buckets).Nodup := by
  refine accounts.pairwise.imp fun apart => ?_
  have positive := arraySize_pos l
  unfold Layout.Separate at apart
  omega

theorem buckets_nodup (accounts : Accounts l shared buckets) : buckets.Nodup :=
  (List.nodup_append.mp accounts.nodup).2.1

theorem separate (accounts : Accounts l shared buckets) {b b' : Nat} (borrowed : b ∈ buckets)
    (borrowed' : b' ∈ buckets) : b = b' ∨ l.Separate b b' := by
  by_cases same : b = b'
  · exact .inl same
  · exact .inr ((List.pairwise_append.mp accounts.pairwise).2.1.forall borrowed borrowed' same)

/-- A borrowed bucket stands behind the start of its block. -/
theorem behind (accounts : Accounts l shared buckets) {b : Nat} (borrowed : b ∈ buckets) : 24 ≤ b := by
  have member := accounts.blocks.mem_iff.mp (List.mem_append_right _ borrowed)
  obtain ⟨block, _, rfl⟩ := List.mem_map.mp member
  exact Nat.le_add_left 24 block

theorem mAlloc (accounts : Accounts l shared buckets) {newBlock : Nat}
    (fresh : ∀ block ∈ shared.blocks, l.Apart newBlock block) :
    Accounts l (shared.mAlloc newBlock).2 ((shared.mAlloc newBlock).1 :: buckets) := by
  obtain ⟨blocks, apart, useSize⟩ := accounts
  cases free : shared.freeNodes with
  | nil =>
    rw [free, List.map_nil, List.nil_append] at blocks
    simp only [CMemoryPool.mAlloc, free]
    refine ⟨?_, List.pairwise_cons.mpr ⟨fresh, apart⟩, ?_⟩
    · exact blocks.cons _
    · rw [List.length_cons, Int.natCast_succ, ← useSize]
  | cons pBlockTop next =>
    rw [free, List.map_cons, List.cons_append] at blocks
    simp only [CMemoryPool.mAlloc, free]
    refine ⟨List.perm_middle.trans blocks, apart, ?_⟩
    rw [List.length_cons, Int.natCast_succ, ← useSize]

theorem mFree (accounts : Accounts l shared buckets) {b : Nat} (borrowed : b ∈ buckets) :
    Accounts l (shared.mFree b) (buckets.erase b) := by
  have behind := accounts.behind borrowed
  obtain ⟨blocks, apart, useSize⟩ := accounts
  have again : b - 24 + 24 = b := Nat.sub_add_cancel behind
  have length := List.length_erase_of_mem borrowed
  have positive := List.length_pos_of_mem borrowed
  refine ⟨?_, apart, ?_⟩
  · simp only [CMemoryPool.mFree, List.map_cons, again, List.cons_append]
    have front : (b :: (shared.freeNodes.map (· + 24) ++ buckets.erase b)).Perm
        (shared.freeNodes.map (· + 24) ++ b :: buckets.erase b) := List.perm_middle.symm
    exact (front.trans ((List.perm_cons_erase borrowed).symm.append_left _)).trans blocks
  · simp only [CMemoryPool.mFree]
    omega

end Accounts

namespace Sound
variable {ι : Type*} {l : Layout} {pool : Pool ι} {buckets : List Nat} {slots : List Slot}

theorem placed_lt (sound : Sound l pool buckets slots) {slot : Slot} (live : slot ∈ slots) :
    slot.2 < l.poolBucketSize :=
  Nat.lt_of_lt_of_le (sound.placed slot live).2 (sound.room _ (sound.placed slot live).1)

/-- The `DataBlock`s of borrowed buckets do not overlap. -/
theorem blocks_apart (sound : Sound l pool buckets slots) {b b' j j' : Nat} (borrowed : b ∈ buckets)
    (borrowed' : b' ∈ buckets) (inside : j < l.poolBucketSize) (inside' : j' < l.poolBucketSize)
    (other : (b, j) ≠ (b', j')) :
    l.dataBlock b j + l.blockSize ≤ l.dataBlock b' j' ∨
      l.dataBlock b' j' + l.blockSize ≤ l.dataBlock b j :=
  dataBlock_apart (sound.shared.separate borrowed borrowed') inside inside' other

/-- Writes to live objects reach no word in front of an object. -/
theorem write (sound : Sound l pool buckets slots) {words : Nat → Nat}
    (written : Written l ⟨pool, slots.map l.object⟩ words) :
    Sound l { pool with bucketAddress := words } buckets slots := by
  refine { sound with words := fun b borrowed j inside => ?_ }
  refine (written _ fun object member => ?_).trans (sound.words b borrowed j inside)
  obtain ⟨slot, live, rfl⟩ := List.mem_map.mp member
  simp only [Layout.object, Layout.data]
  by_cases same : (b, j) = slot
  · rw [← same]
    exact .inl (Nat.le_refl _)
  · have apart := sound.blocks_apart borrowed (sound.placed slot live).1 inside (sound.placed_lt live) same
    omega

theorem tls_ne (sound : Sound l pool buckets slots) {b : Nat} (free : b ∉ buckets) (positive : b ≠ 0)
    (i : ι) : pool.tls i ≠ b := fun same =>
  free (same ▸ (sound.current i (same ▸ positive)).1)

/-- An object is given back, while others of its bucket are still out or to come. -/
theorem free (sound : Sound l pool buckets slots) {b j : Nat} (live : (b, j) ∈ slots)
    (more : pool.useCount b ≠ 1) :
    Sound l { pool with useCount := Function.update pool.useCount b (pool.useCount b - 1) } buckets
      (slots.erase (b, j)) := by
  refine { sound with
    used := fun other member => ?_
    counts := fun other member => ?_
    placed := fun slot member => sound.placed slot (List.mem_of_mem_erase member)
    once := sound.once.erase _ }
  · have used := sound.used other member
    by_cases same : other = b
    · subst same
      simp only [Function.update_self]
      omega
    · simpa only [Function.update_of_ne same] using used
  · have counts := sound.counts other member
    have erased := (List.perm_cons_erase live).countP_eq (fun slot : Slot => decide (slot.1 = other))
    rw [List.countP_cons] at erased
    by_cases same : other = b
    · subst same
      simp only [Function.update_self, decide_true, if_true] at erased ⊢
      omega
    · simp only [Function.update_of_ne same, decide_eq_true_eq, if_neg (Ne.symm same)] at erased ⊢
      omega

/-- The last object of a bucket is given back. All of them were handed out, and the
others freed. -/
theorem last (sound : Sound l pool buckets slots) {b j : Nat} (live : (b, j) ∈ slots)
    (last : pool.useCount b = 1) :
    pool.allocCount b = l.poolBucketSize ∧ slots.countP (·.1 = b) = 1 := by
  obtain ⟨borrowed, _⟩ := sound.placed _ live
  have room := sound.room b borrowed
  have counts := sound.counts b borrowed
  have some : 0 < slots.countP (·.1 = b) := List.countP_pos_iff.mpr ⟨_, live, decide_eq_true rfl⟩
  omega

theorem giveBack (sound : Sound l pool buckets slots) {b j : Nat} (live : (b, j) ∈ slots)
    (last : pool.useCount b = 1) :
    Sound l
      { pool with
        useCount := Function.update pool.useCount b (pool.useCount b - 1)
        shared := pool.shared.mFree b }
      (buckets.erase b) (slots.erase (b, j)) := by
  obtain ⟨borrowed, _⟩ := sound.placed _ live
  obtain ⟨full, alone⟩ := sound.last live last
  have erased := (List.perm_cons_erase live).countP_eq (fun slot : Slot => decide (slot.1 = b))
  simp only [List.countP_cons, decide_true, if_true, alone] at erased
  have none : ∀ slot ∈ slots.erase (b, j), slot.1 ≠ b := by
    intro slot member same
    have counted : 0 < (slots.erase (b, j)).countP (·.1 = b) :=
      List.countP_pos_iff.mpr ⟨slot, member, decide_eq_true same⟩
    omega
  have keeps {other : Nat} (member : other ∈ buckets.erase b) : other ∈ buckets ∧ other ≠ b :=
    (List.Nodup.mem_erase_iff sound.shared.buckets_nodup).mp member |>.symm
  constructor
  case shared => exact sound.shared.mFree borrowed
  case words => exact fun other member => sound.words other (keeps member).1
  case room => exact fun other member => sound.room other (keeps member).1
  case used =>
    intro other member
    simpa only [Function.update_of_ne (keeps member).2] using sound.used other (keeps member).1
  case counts =>
    intro other member
    have counts := sound.counts other (keeps member).1
    have same := (List.perm_cons_erase live).countP_eq (fun slot : Slot => decide (slot.1 = other))
    simp only [List.countP_cons, decide_eq_true_eq, if_neg (Ne.symm (keeps member).2)] at same
    simp only [Function.update_of_ne (keeps member).2]
    omega
  case placed =>
    intro slot member
    obtain ⟨held, less⟩ := sound.placed slot (List.mem_of_mem_erase member)
    exact ⟨(List.mem_erase_of_ne (none slot member)).mpr held, less⟩
  case once => exact sound.once.erase _
  case current =>
    intro i some
    obtain ⟨held, less⟩ := sound.current i some
    have other : pool.tls i ≠ b := by
      intro same
      rw [same, full] at less
      exact Nat.lt_irrefl _ less
    exact ⟨(List.mem_erase_of_ne other).mpr held, less⟩
  case own => exact sound.own

variable [DecidableEq ι]

theorem setAddresses_inside (pBucket : Nat) {count j : Nat} (inside : j < count) (words : Nat → Nat) :
    Pool.setAddresses l pBucket count words (l.dataBlock pBucket j) = pBucket := by
  induction count with
  | zero => exact absurd inside (Nat.not_lt_zero j)
  | succ count ih =>
    by_cases last : l.dataBlock pBucket j = l.dataBlock pBucket count
    · rw [Pool.setAddresses, last, Function.update_self]
    · have before : j < count := Nat.lt_of_le_of_ne (Nat.le_of_lt_succ inside) fun same => last (same ▸ rfl)
      rw [Pool.setAddresses, Function.update_of_ne last, ih before]

theorem setAddresses_outside {pBucket word : Nat} {count : Nat} {words : Nat → Nat}
    (outside : ∀ j < count, word ≠ l.dataBlock pBucket j) :
    Pool.setAddresses l pBucket count words word = words word := by
  induction count with
  | zero => rfl
  | succ count ih =>
    rw [Pool.setAddresses, Function.update_of_ne (outside count (Nat.lt_succ_self count)),
      ih fun j less => outside j (Nat.lt_succ_of_lt less)]

/-- One thread takes up a bucket that no other works on, or puts its own down. -/
theorem own_update {tls : ι → Nat} (own : ∀ j k, tls j ≠ 0 → tls j = tls k → j = k) {i : ι} {b : Nat}
    (others : ∀ j, j ≠ i → tls j ≠ 0 → tls j ≠ b) (j k : ι) (some : Function.update tls i b j ≠ 0)
    (same : Function.update tls i b j = Function.update tls i b k) : j = k := by
  by_cases self : j = i
  · by_cases self' : k = i
    · rw [self, self']
    · rw [self, Function.update_self] at some same
      rw [Function.update_of_ne self'] at same
      exact absurd same.symm (others k self' (same ▸ some))
  · rw [Function.update_of_ne self] at some same
    by_cases self' : k = i
    · rw [self', Function.update_self] at same
      exact absurd same (others j self some)
    · rw [Function.update_of_ne self'] at same
      exact own j k some same

/-- A thread without a bucket gets one from which nothing is handed out. -/
theorem borrow (sound : Sound l pool buckets slots) (i : ι) {newBlock : Nat}
    (fresh : Fresh l pool newBlock) :
    ∃ b, b ∉ buckets ∧ b ≠ 0 ∧ (pool.borrowBucket l i newBlock).tls i = b ∧
      (pool.borrowBucket l i newBlock).allocCount b = 0 ∧
      (pool.borrowBucket l i newBlock).useCount b = l.poolBucketSize ∧
      (∀ other, other ≠ b → (pool.borrowBucket l i newBlock).allocCount other = pool.allocCount other ∧
        (pool.borrowBucket l i newBlock).useCount other = pool.useCount other) ∧
      Sound l (pool.borrowBucket l i newBlock) (b :: buckets) slots := by
  have accounts := sound.shared.mAlloc fresh
  generalize bucket : (pool.shared.mAlloc newBlock).1 = b at accounts
  have new : b ∉ buckets := (List.nodup_cons.mp accounts.buckets_nodup).1
  have positive : b ≠ 0 := by
    have behind := accounts.behind List.mem_cons_self
    omega
  have tls_other := sound.tls_ne new positive
  refine ⟨b, new, positive, ?_, ?_, ?_, fun other apart => ?_, ?_⟩
  · simp [Pool.borrowBucket, bucket]
  · simp [Pool.borrowBucket, bucket]
  · simp [Pool.borrowBucket, bucket]
  · simp [Pool.borrowBucket, bucket, Function.update_of_ne apart]
  have old {other : Nat} (member : other ∈ buckets) : other ≠ b := fun same => new (same ▸ member)
  simp only [Pool.borrowBucket, bucket]
  constructor
  case shared => exact accounts
  case words =>
    intro other member j inside
    rcases List.mem_cons.mp member with rfl | member
    · exact setAddresses_inside _ inside _
    · refine (setAddresses_outside fun k less same => ?_).trans (sound.words other member j inside)
      have apart := dataBlock_apart (accounts.separate (List.mem_cons_of_mem b member) List.mem_cons_self)
        inside less fun same => old member (Prod.mk.inj same).1
      have width := l.word_fits
      omega
  case room =>
    intro other member
    rcases List.mem_cons.mp member with rfl | member
    · simp
    · simpa [Function.update_of_ne (old member)] using sound.room other member
  case used =>
    intro other member
    rcases List.mem_cons.mp member with rfl | member
    · have positive := l.bucket_pos
      simp only [Function.update_self]
      omega
    · simpa only [Function.update_of_ne (old member)] using sound.used other member
  case counts =>
    intro other member
    rcases List.mem_cons.mp member with rfl | member
    · have none : slots.countP (·.1 = other) = 0 :=
        List.countP_eq_zero.mpr fun slot live same =>
          new (of_decide_eq_true same ▸ (sound.placed slot live).1)
      simp [none]
    · simpa [Function.update_of_ne (old member)] using sound.counts other member
  case placed =>
    intro slot live
    obtain ⟨member, less⟩ := sound.placed slot live
    exact ⟨List.mem_cons_of_mem b member, by simpa [Function.update_of_ne (old member)] using less⟩
  case once => exact sound.once
  case current =>
    intro j some
    by_cases self : j = i
    · subst self
      simp only [Function.update_self]
      exact ⟨List.mem_cons_self, l.bucket_pos⟩
    · simp only [Function.update_of_ne self] at some ⊢
      obtain ⟨member, less⟩ := sound.current j some
      exact ⟨List.mem_cons_of_mem b member, by simpa [Function.update_of_ne (old member)] using less⟩
  case own => exact own_update sound.own fun j _ _ => tls_other j

/-- Handing out counts an object, and puts a bucket down that is used up. -/
theorem handOut_eq (pool : Pool ι) (i : ι) : (pool.handOut l i).2 =
    { pool with
      allocCount := Function.update pool.allocCount (pool.tls i) (pool.allocCount (pool.tls i) + 1)
      tls := if pool.allocCount (pool.tls i) + 1 = l.poolBucketSize then Function.update pool.tls i 0
        else pool.tls } := by
  unfold Pool.handOut
  dsimp only
  split_ifs <;> rfl

/-- The next object of a thread's bucket is none of the live ones. -/
theorem handOut (sound : Sound l pool buckets slots) {i : ι} (some : pool.tls i ≠ 0) :
    (pool.handOut l i).1 = l.data (pool.tls i) (pool.allocCount (pool.tls i)) ∧
      (pool.handOut l i).2.useCount = pool.useCount ∧
      (pool.handOut l i).2.allocCount =
        Function.update pool.allocCount (pool.tls i) (pool.allocCount (pool.tls i) + 1) ∧
      Sound l (pool.handOut l i).2 buckets ((pool.tls i, pool.allocCount (pool.tls i)) :: slots) := by
  obtain ⟨borrowed, less⟩ := sound.current i some
  have others {j : ι} (other : j ≠ i) : pool.tls j ≠ pool.tls i := fun same =>
    other (sound.own i j some same.symm).symm
  rw [handOut_eq]
  refine ⟨rfl, rfl, rfl, ?_⟩
  generalize pool.tls i = b at some borrowed less others
  have counted (other : Nat) : pool.allocCount other ≤
      Function.update pool.allocCount b (pool.allocCount b + 1) other := by
    by_cases same : other = b
    · rw [same, Function.update_self]
      exact Nat.le_succ _
    · exact Nat.le_of_eq (Function.update_of_ne same ..).symm
  constructor
  case shared => exact sound.shared
  case words => exact sound.words
  case room =>
    intro other member
    by_cases same : other = b
    · simpa only [same, Function.update_self] using Nat.succ_le_of_lt less
    · simpa only [Function.update_of_ne same] using sound.room other member
  case used => exact sound.used
  case counts =>
    intro other member
    have counts := sound.counts other member
    rw [List.countP_cons]
    by_cases same : other = b
    · subst same
      simp only [Function.update_self, decide_true, if_true]
      omega
    · simp only [Function.update_of_ne same, decide_eq_true_eq, if_neg (Ne.symm same)]
      omega
  case placed =>
    intro slot live
    rcases List.mem_cons.mp live with rfl | live
    · exact ⟨borrowed, by simp only [Function.update_self]; exact Nat.lt_succ_self _⟩
    · obtain ⟨member, less⟩ := sound.placed slot live
      exact ⟨member, Nat.lt_of_lt_of_le less (counted slot.1)⟩
  case once =>
    refine List.nodup_cons.mpr ⟨fun live => ?_, sound.once⟩
    exact Nat.lt_irrefl _ (sound.placed _ live).2
  case current =>
    intro j some
    dsimp only at some ⊢
    split_ifs at some ⊢ with full
    · have other : j ≠ i := fun self => some (self ▸ Function.update_self ..)
      rw [Function.update_of_ne other] at some ⊢
      simpa only [Function.update_of_ne (others other)] using sound.current j some
    · obtain ⟨member, within⟩ := sound.current j some
      refine ⟨member, ?_⟩
      by_cases same : pool.tls j = b
      · rw [same, Function.update_self]
        exact Nat.lt_of_le_of_ne less full
      · rwa [Function.update_of_ne same]
  case own =>
    dsimp only
    split_ifs
    · exact own_update sound.own fun _ _ busy => busy
    · exact sound.own

end Sound

end NewNameAuction.BucketPool
