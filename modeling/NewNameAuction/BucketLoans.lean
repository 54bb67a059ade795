import NewNameAuction.BucketPool

/-! The buckets over a run. Whatever the order of the calls, the two counters of a
bucket say how many of its objects were handed out and how many freed since it was
borrowed, so that it goes back to the shared pool once, with the last of its objects. -/
namespace NewNameAuction.BucketPool

/-! ## What the turns say of a bucket -/

/-- A bucket while it is borrowed: how many of its objects have been handed out, and how
many of these freed. -/
structure Tenancy where
  handed : Nat
  freed : Nat
  deriving DecidableEq

section History
variable {ι : Type*}

/-- A bucket after a turn. -/
def tenancyAfter (pBucket : Nat) (tenancy : Option Tenancy) (turn : Turn ι) : Option Tenancy :=
  if turn.pBucket = pBucket then
    if .mFree pBucket ∈ turn.shared then none
    else
      let tenancy := if .mAlloc pBucket ∈ turn.shared then some ⟨0, 0⟩ else tenancy
      match turn.call with
      | .mAlloc _ => tenancy.map fun t => { t with handed := t.handed + 1 }
      | .mFree _ => tenancy.map fun t => { t with freed := t.freed + 1 }
  else tenancy

/-- A bucket after some turns; none if it is not borrowed, or given back. -/
def tenancy (pBucket : Nat) (past : List (Turn ι)) : Option Tenancy :=
  past.foldl (tenancyAfter pBucket) none

def sharedCalls (past : List (Turn ι)) : List SharedCall := past.flatMap Turn.shared

end History

/-! ## One turn -/

/-- What `mAlloc` does: the next object of the thread's bucket, or the first of a bucket
it borrows. -/
inductive Allocated {ι : Type*} (l : Layout) (pool : Pool ι) (buckets : List Nat) (slots : List Slot)
    (turn : Turn ι) (pool' : Pool ι) : Prop
  | own (b : Nat) (borrowed : b ∈ buckets) (bucket : turn.pBucket = b) (shared : turn.shared = [])
      (call : turn.call = .mAlloc (l.data b (pool.allocCount b)))
      (handed : pool'.allocCount = Function.update pool.allocCount b (pool.allocCount b + 1))
      (freed : pool'.useCount = pool.useCount)
      (sound : Sound l pool' buckets ((b, pool.allocCount b) :: slots))
  | borrowed (b : Nat) (new : b ∉ buckets) (bucket : turn.pBucket = b) (shared : turn.shared = [.mAlloc b])
      (call : turn.call = .mAlloc (l.data b 0))
      (handed : pool'.allocCount b = 1) (freed : pool'.useCount b = l.poolBucketSize)
      (others : ∀ other, other ≠ b →
        pool'.allocCount other = pool.allocCount other ∧ pool'.useCount other = pool.useCount other)
      (sound : Sound l pool' (b :: buckets) ((b, 0) :: slots))

/-- What `mFree` does with an object of a bucket: it counts it, and gives the bucket back
after the last. -/
inductive Freed {ι : Type*} (l : Layout) (pool : Pool ι) (buckets : List Nat) (slots : List Slot)
    (b j : Nat) (turn : Turn ι) (pool' : Pool ι) : Prop
  | kept (bucket : turn.pBucket = b) (shared : turn.shared = []) (call : turn.call = .mFree (l.data b j))
      (more : pool.useCount b ≠ 1) (handed : pool'.allocCount = pool.allocCount)
      (freed : pool'.useCount = Function.update pool.useCount b (pool.useCount b - 1))
      (tls : pool'.tls = pool.tls) (sound : Sound l pool' buckets (slots.erase (b, j)))
  | given (bucket : turn.pBucket = b) (shared : turn.shared = [.mFree b])
      (call : turn.call = .mFree (l.data b j))
      (last : pool.useCount b = 1) (handed : pool'.allocCount = pool.allocCount)
      (others : ∀ other, other ≠ b → pool'.useCount other = pool.useCount other)
      (tls : pool'.tls = pool.tls) (back : pool'.shared = pool.shared.mFree b)
      (sound : Sound l pool' (buckets.erase b) (slots.erase (b, j)))

section Turns
variable {ι : Type*} [DecidableEq ι] {l : Layout} {pool pool' : Pool ι} {buckets : List Nat}
  {slots : List Slot} {turn : Turn ι} {i : ι}

theorem mAlloc_allocated (sound : Sound l pool buckets slots) {newBlock : Nat}
    (fresh : Fresh l pool newBlock) (served : pool.mAlloc l i newBlock = (turn, pool')) :
    Allocated l pool buckets slots turn pool' := by
  obtain ⟨rfl, rfl⟩ := Prod.mk.inj served
  by_cases null : pool.tls i = 0
  · obtain ⟨b, new, positive, tls, none, all, others, ready⟩ := sound.borrow i fresh
    obtain ⟨out, useCount, allocCount, after⟩ := ready.handOut (tls.symm ▸ positive)
    rw [tls, none] at out allocCount after
    refine .borrowed b new ?_ ?_ ?_ ?_ ?_ (fun other apart => ?_) ?_
    · simp only [if_pos null, tls]
    · simp only [if_pos null, tls]
    · simp only [if_pos null, out]
    · simp only [if_pos null, allocCount, Function.update_self]
    · simp only [if_pos null, useCount, all]
    · simp only [if_pos null, useCount, allocCount, Function.update_of_ne apart]
      exact others other apart
    · simp only [if_pos null]
      exact after
  · obtain ⟨out, useCount, allocCount, after⟩ := sound.handOut null
    refine .own (pool.tls i) (sound.current i null).1 ?_ ?_ ?_ ?_ ?_ ?_
    · simp only [if_neg null]
    · simp only [if_neg null]
    · simp only [if_neg null, out]
    · simp only [if_neg null, allocCount]
    · simp only [if_neg null, useCount]
    · simp only [if_neg null]
      exact after

omit [DecidableEq ι] in
theorem mFree_freed (sound : Sound l pool buckets slots) {b j : Nat} (live : (b, j) ∈ slots)
    (served : pool.mFree i (l.data b j) = (turn, pool')) : Freed l pool buckets slots b j turn pool' := by
  obtain ⟨rfl, rfl⟩ := Prod.mk.inj served
  have word : pool.bucketAddress (l.data b j - 8) = b := by
    rw [Layout.data, Nat.add_sub_cancel]
    exact sound.words b (sound.placed _ live).1 j (sound.placed_lt live)
  by_cases last : pool.useCount b - 1 = 0
  · have one : pool.useCount b = 1 := by omega
    have after := sound.giveBack live one
    refine .given word ?_ rfl one ?_ (fun other apart => ?_) ?_ ?_ ?_
    · simp only [word, if_pos last]
    · simp only [word, if_pos last]
    · simp only [word, if_pos last, Function.update_of_ne apart]
    · simp only [word, if_pos last]
    · simp only [word, if_pos last]
    · simp only [word, if_pos last]
      exact after
  · have more : pool.useCount b ≠ 1 := by omega
    have after := sound.free live more
    refine .kept word ?_ rfl more ?_ ?_ ?_ ?_
    · simp only [word, if_neg last]
    · simp only [word, if_neg last]
    · simp only [word, if_neg last]
    · simp only [word, if_neg last]
    · simp only [word, if_neg last]
      exact after

end Turns

/-! ## The turns so far -/

/-- The state together with what the turns so far say of the buckets. -/
structure Recorded {ι : Type*} (l : Layout) (past : List (Turn ι)) (s : System ι) (buckets : List Nat)
    (slots : List Slot) : Prop where
  sound : Sound l s.pool buckets slots
  live : s.live = slots.map l.object
  borrowed : ∀ b ∈ buckets, tenancy b past =
    some ⟨s.pool.allocCount b, (l.poolBucketSize - s.pool.useCount b).toNat⟩
  free : ∀ b, b ∉ buckets → tenancy b past = none
  calls : ∀ b, (sharedCalls past).count (.mAlloc b) =
    (sharedCalls past).count (.mFree b) + if b ∈ buckets then 1 else 0

section Record
variable {ι : Type*} {l : Layout} {past : List (Turn ι)} {s : System ι} {buckets : List Nat}
  {slots : List Slot} {turn : Turn ι}

theorem tenancy_append (b : Nat) (past : List (Turn ι)) (turn : Turn ι) :
    tenancy b (past ++ [turn]) = tenancyAfter b (tenancy b past) turn :=
  List.foldl_append

theorem tenancy_other {b : Nat} (other : turn.pBucket ≠ b) :
    tenancy b (past ++ [turn]) = tenancy b past := by
  rw [tenancy_append, tenancyAfter, if_neg other]

theorem calls_append (call : SharedCall) (past : List (Turn ι)) (turn : Turn ι) :
    (sharedCalls (past ++ [turn])).count call = (sharedCalls past).count call + turn.shared.count call := by
  rw [sharedCalls, List.flatMap_append, List.count_append, List.flatMap_singleton, ← sharedCalls]

theorem object_injective (l : Layout) : Function.Injective l.object := by
  rintro ⟨b, j⟩ ⟨b', j'⟩ same
  obtain ⟨address, rfl⟩ := Prod.mk.inj same
  have width := l.word_fits
  simp only [Layout.data, Layout.dataBlock, Nat.add_right_cancel_iff, Nat.add_left_cancel_iff] at address
  rw [Nat.eq_of_mul_eq_mul_right (by omega) address]

theorem Recorded.write (recorded : Recorded l past s buckets slots) {words : Nat → Nat}
    (written : Written l s words) :
    Recorded l past ⟨{ s.pool with bucketAddress := words }, s.live⟩ buckets slots := by
  refine { recorded with sound := recorded.sound.write ?_ }
  rw [← recorded.live]
  exact written

theorem Recorded.mAlloc (recorded : Recorded l past s buckets slots) {pool : Pool ι} {outParam : Nat}
    (allocated : Allocated l s.pool buckets slots turn pool) (out : turn.call = .mAlloc outParam) :
    ∃ buckets' slots', Recorded l (past ++ [turn]) ⟨pool, (outParam, turn.pBucket) :: s.live⟩ buckets' slots' := by
  obtain ⟨_, live, tenancies, free, calls⟩ := recorded
  cases allocated with
  | own b held bucket shared call handed freed sound =>
    obtain rfl := Call.mAlloc.inj (out.symm.trans call)
    refine ⟨buckets, _, sound, ?_, fun other member => ?_, fun other member => ?_, fun other => ?_⟩
    · rw [List.map_cons, ← live, bucket]
      rfl
    · simp only [handed, freed]
      by_cases same : other = b
      · subst same
        rw [tenancy_append, tenancyAfter, if_pos bucket, tenancies other member, shared, call,
          Function.update_self]
        simp
      · rw [tenancy_other (bucket ▸ Ne.symm same), tenancies other member, Function.update_of_ne same]
    · have apart : other ≠ b := fun same => member (same ▸ held)
      rw [tenancy_other (bucket ▸ Ne.symm apart), free other member]
    · simp only [calls_append, calls other, shared, List.count_nil, Nat.add_zero]
  | borrowed b new bucket shared call handed freed others sound =>
    obtain rfl := Call.mAlloc.inj (out.symm.trans call)
    refine ⟨b :: buckets, _, sound, ?_, fun other member => ?_, fun other member => ?_, fun other => ?_⟩
    · rw [List.map_cons, ← live, bucket]
      rfl
    · rcases List.mem_cons.mp member with rfl | member
      · rw [tenancy_append, tenancyAfter, if_pos bucket, shared, call, handed, freed]
        simp
      · have apart : other ≠ b := fun same => new (same ▸ member)
        rw [tenancy_other (bucket ▸ Ne.symm apart), tenancies other member, (others other apart).1,
          (others other apart).2]
    · obtain ⟨apart, none⟩ := not_or.mp (mt List.mem_cons.mpr member)
      rw [tenancy_other (bucket ▸ Ne.symm apart), free other none]
    · rw [calls_append, calls_append, calls other, shared]
      by_cases same : other = b
      · subst same
        simp [new]
      · simp [same, Ne.symm same]

theorem Recorded.mFree (recorded : Recorded l past s buckets slots) {pool : Pool ι} {b j : Nat}
    (held : (b, j) ∈ slots) (freed : Freed l s.pool buckets slots b j turn pool) :
    ∃ buckets' slots', Recorded l (past ++ [turn]) ⟨pool, s.live.erase (l.object (b, j))⟩ buckets' slots' := by
  obtain ⟨before, live, tenancies, free, calls⟩ := recorded
  obtain ⟨borrowed, _⟩ := before.placed _ held
  have erased : s.live.erase (l.object (b, j)) = (slots.erase (b, j)).map l.object := by
    rw [live, List.map_erase (object_injective l)]
  cases freed with
  | kept bucket shared call more handed freed tls sound =>
    refine ⟨buckets, _, sound, erased, fun other member => ?_, fun other member => ?_, fun other => ?_⟩
    · simp only [handed, freed]
      by_cases same : other = b
      · subst same
        have used := before.used other member
        rw [tenancy_append, tenancyAfter, if_pos bucket, tenancies other member, shared, call,
          Function.update_self]
        simp
        omega
      · rw [tenancy_other (bucket ▸ Ne.symm same), tenancies other member, Function.update_of_ne same]
    · have apart : other ≠ b := fun same => member (same ▸ borrowed)
      rw [tenancy_other (bucket ▸ Ne.symm apart), free other member]
    · simp only [calls_append, calls other, shared, List.count_nil, Nat.add_zero]
  | given bucket shared call last handed others tls back sound =>
    have nodup := before.shared.buckets_nodup
    refine ⟨buckets.erase b, _, sound, erased, fun other member => ?_, fun other member => ?_, fun other => ?_⟩
    · obtain ⟨apart, member⟩ := nodup.mem_erase_iff.mp member
      rw [tenancy_other (bucket ▸ Ne.symm apart), tenancies other member, handed, others other apart]
    · by_cases same : other = b
      · subst same
        rw [tenancy_append, tenancyAfter, if_pos bucket, shared, if_pos List.mem_cons_self]
      · have none : other ∉ buckets := fun held => member (nodup.mem_erase_iff.mpr ⟨same, held⟩)
        rw [tenancy_other (bucket ▸ Ne.symm same), free other none]
    · rw [calls_append, calls_append, calls other, shared]
      by_cases same : other = b
      · subst same
        simp [borrowed, nodup.not_mem_erase]
      · simp [Ne.symm same, List.mem_erase_of_ne same]

end Record

/-! ## All runs -/

/-- What the pool gives its users, and how it deals with the shared pool. -/
structure HandsOut {ι : Type*} [DecidableEq ι] (l : Layout) (past : List (Turn ι)) (s : System ι) :
    Prop where
  distinct : (s.live.map Prod.fst).Nodup
  /-- Not even the `DataBlock`s of live objects overlap. -/
  apart : s.live.Pairwise fun object other =>
    object.1 + l.blockSize ≤ other.1 ∨ other.1 + l.blockSize ≤ object.1
  /-- The word that `mFree` reads, whatever the holders write to their objects. -/
  found : ∀ words, Written l s words → ∀ object ∈ s.live, words (object.1 - 8) = object.2
  once : ∀ b, (sharedCalls past).count (.mAlloc b) =
    (sharedCalls past).count (.mFree b) + if (tenancy b past).isSome then 1 else 0
  /-- A turn gives a bucket back when it frees the last of its objects, with all of them
  handed out. -/
  returned : ∀ turn t b, Step l s turn t → (.mFree b ∈ turn.shared ↔
    turn.pBucket = b ∧ (∃ inParam, turn.call = .mFree inParam) ∧
      tenancy b past = some ⟨l.poolBucketSize, l.poolBucketSize - 1⟩)
  outstanding : ∀ b t, tenancy b past = some t → t.handed ≤ l.poolBucketSize ∧ t.freed < l.poolBucketSize
  current : ∀ i, s.pool.tls i ≠ 0 →
    ∃ t, tenancy (s.pool.tls i) past = some t ∧ t.handed < l.poolBucketSize
  apartFromThreads : ∀ turn t b, Step l s turn t → .mFree b ∈ turn.shared →
    ∀ i, s.pool.tls i ≠ b ∧ t.pool.tls i ≠ b
  /-- A bucket given back is the first of the free ones again. -/
  linked : ∀ turn t b, Step l s turn t → .mFree b ∈ turn.shared →
    t.pool.shared.freeNodes.map (· + 24) = b :: s.pool.shared.freeNodes.map (· + 24)
  /-- The blocks of the shared pool are the free ones and those of the borrowed
  buckets, and `getUseSize()` counts the latter. -/
  useSize : ∃ buckets : List Nat, buckets.Nodup ∧ (∀ b, b ∈ buckets ↔ (tenancy b past).isSome) ∧
    s.pool.getUseSize = buckets.length ∧
    (s.pool.shared.freeNodes.map (· + 24) ++ buckets).Nodup ∧
    (s.pool.shared.freeNodes.map (· + 24) ++ buckets).Perm (s.pool.shared.blocks.map (· + 24))

section Runs
variable {ι : Type*} [DecidableEq ι] {l : Layout} {past : List (Turn ι)} {s t : System ι}
  {buckets : List Nat} {slots : List Slot} {turn : Turn ι}

/-- A turn is one of the two calls, in the pool as the holders have left it. -/
theorem step_turn (recorded : Recorded l past s buckets slots) (step : Step l s turn t) :
    ∃ words, Recorded l past ⟨{ s.pool with bucketAddress := words }, s.live⟩ buckets slots ∧
      ((∃ outParam, turn.call = .mAlloc outParam ∧ t.live = (outParam, turn.pBucket) :: s.live ∧
          Allocated l { s.pool with bucketAddress := words } buckets slots turn t.pool) ∨
        ∃ b j, (b, j) ∈ slots ∧ t.live = s.live.erase (l.object (b, j)) ∧
          Freed l { s.pool with bucketAddress := words } buckets slots b j turn t.pool) := by
  cases step with
  | @mAlloc _ _ words _ _ outParam fresh written served out =>
    have after := recorded.write written
    exact ⟨words, after, .inl ⟨outParam, out, rfl, mAlloc_allocated after.sound fresh served⟩⟩
  | @mFree _ inParam pBucket words _ _ live written served =>
    have after := recorded.write written
    rw [recorded.live] at live
    obtain ⟨⟨b, j⟩, held, same⟩ := List.mem_map.mp live
    obtain ⟨rfl, rfl⟩ := Prod.mk.inj same
    exact ⟨words, after, .inr ⟨b, j, held, rfl, mFree_freed after.sound held served⟩⟩

theorem step_recorded (recorded : Recorded l past s buckets slots) (step : Step l s turn t) :
    ∃ buckets' slots', Recorded l (past ++ [turn]) t buckets' slots' := by
  obtain ⟨words, before, ⟨outParam, out, live, allocated⟩ | ⟨b, j, held, live, freed⟩⟩ :=
    step_turn recorded step
  · obtain ⟨buckets', slots', after⟩ := before.mAlloc allocated out
    rw [← live] at after
    exact ⟨buckets', slots', after⟩
  · obtain ⟨buckets', slots', after⟩ := before.mFree held freed
    rw [← live] at after
    exact ⟨buckets', slots', after⟩

omit [DecidableEq ι] in
theorem Recorded.isSome_iff (recorded : Recorded l past s buckets slots) (b : Nat) :
    b ∈ buckets ↔ (tenancy b past).isSome := by
  constructor
  · intro member
    rw [recorded.borrowed b member, Option.isSome_some]
  · intro some
    by_contra none
    rw [recorded.free b none] at some
    cases some

omit [DecidableEq ι] in
theorem Recorded.tenancy_some (recorded : Recorded l past s buckets slots) {b : Nat} {t : Tenancy}
    (some : tenancy b past = some t) :
    b ∈ buckets ∧ t = ⟨s.pool.allocCount b, (l.poolBucketSize - s.pool.useCount b).toNat⟩ := by
  have member := (recorded.isSome_iff b).mpr (by rw [some, Option.isSome_some])
  exact ⟨member, Option.some.inj (some.symm.trans (recorded.borrowed b member))⟩

/-- The bucket of a freed object goes back when the object was its last. -/
theorem returned_iff (recorded : Recorded l past s buckets slots) (step : Step l s turn t) (b : Nat) :
    .mFree b ∈ turn.shared ↔ turn.pBucket = b ∧ (∃ inParam, turn.call = .mFree inParam) ∧
      tenancy b past = some ⟨l.poolBucketSize, l.poolBucketSize - 1⟩ := by
  obtain ⟨words, before, ⟨outParam, out, _, allocated⟩ | ⟨bucket, j, held, _, freed⟩⟩ :=
    step_turn recorded step
  · have other : ¬∃ inParam, turn.call = .mFree inParam := by
      rintro ⟨inParam, same⟩
      cases out.symm.trans same
    have none : .mFree b ∉ turn.shared := by
      cases allocated with
      | own _ _ _ shared => simp [shared]
      | borrowed _ _ _ shared => simp [shared]
    exact iff_of_false none fun all => other all.2.1
  · obtain ⟨borrowed, _⟩ := before.sound.placed _ held
    have used := before.sound.used _ borrowed
    have tenancy := before.borrowed _ borrowed
    cases freed with
    | kept same shared call more =>
      refine iff_of_false (by simp [shared]) ?_
      rintro ⟨rfl, _, all⟩
      rw [same, tenancy] at all
      obtain ⟨_, freed⟩ := Tenancy.mk.inj (Option.some.inj all)
      dsimp only at used freed more
      omega
    | given same shared call last =>
      obtain ⟨full, _⟩ := before.sound.last held last
      have all : BucketPool.tenancy bucket past = some ⟨l.poolBucketSize, l.poolBucketSize - 1⟩ := by
        rw [tenancy]
        dsimp only at full last ⊢
        rw [full, last]
        congr 2
        omega
      simp only [shared, List.mem_singleton, SharedCall.mFree.injEq]
      constructor
      · rintro rfl
        exact ⟨same, ⟨_, call⟩, all⟩
      · rintro ⟨rfl, _⟩
        exact same

/-- A bucket that goes back is no thread's, and is linked in front of the free ones. -/
theorem given_back (recorded : Recorded l past s buckets slots) (step : Step l s turn t) {b : Nat}
    (given : .mFree b ∈ turn.shared) :
    (∀ i, s.pool.tls i ≠ b ∧ t.pool.tls i ≠ b) ∧
      t.pool.shared.freeNodes.map (· + 24) = b :: s.pool.shared.freeNodes.map (· + 24) := by
  have sound := recorded.sound
  obtain ⟨words, before, ⟨_, _, _, allocated⟩ | ⟨bucket, j, held, _, freed⟩⟩ := step_turn recorded step
  · cases allocated with
    | own _ _ _ shared => simp [shared] at given
    | borrowed _ _ _ shared => simp [shared] at given
  · cases freed with
    | kept _ shared => simp [shared] at given
    | given _ shared _ last _ _ tls back =>
      simp only [shared, List.mem_singleton, SharedCall.mFree.injEq] at given
      subst given
      obtain ⟨full, _⟩ := before.sound.last held last
      have behind := sound.shared.behind (sound.placed _ held).1
      refine ⟨fun i => ?_, ?_⟩
      · have other : s.pool.tls i ≠ b := by
          intro same
          have less := (sound.current i (by omega)).2
          rw [same] at less
          exact Nat.ne_of_lt less full
        rw [tls]
        exact ⟨other, other⟩
      · rw [back, CMemoryPool.mFree, List.map_cons, Nat.sub_add_cancel behind]

theorem Recorded.handsOut (recorded : Recorded l past s buckets slots) : HandsOut l past s := by
  have sound := recorded.sound
  have blocks : s.live.Pairwise fun object other =>
      object.1 + l.blockSize ≤ other.1 ∨ other.1 + l.blockSize ≤ object.1 := by
    rw [recorded.live, List.pairwise_map]
    refine sound.once.imp_of_mem fun {slot other} live live' differ => ?_
    have apart := sound.blocks_apart (sound.placed _ live).1 (sound.placed _ live').1
      (sound.placed_lt live) (sound.placed_lt live') differ
    simp only [Layout.object, Layout.data]
    omega
  have width := l.word_fits
  refine ⟨?_, blocks, fun words written => ?_, fun b => ?_, fun turn t b step => returned_iff recorded step b,
    fun b t some => ?_, fun i some => ?_, fun turn t b step given => (given_back recorded step given).1,
    fun turn t b step given => (given_back recorded step given).2, ?_⟩
  · refine List.pairwise_map.mpr (blocks.imp fun apart => ?_)
    omega
  · have after := recorded.write written
    intro object member
    rw [recorded.live] at member
    obtain ⟨⟨b, j⟩, live, rfl⟩ := List.mem_map.mp member
    have word := after.sound.words b (sound.placed _ live).1 j (sound.placed_lt live)
    simpa only [Layout.object, Layout.data, Nat.add_sub_cancel] using word
  · rw [recorded.calls b]
    congr 1
    exact if_congr (recorded.isSome_iff b) rfl rfl
  · obtain ⟨member, rfl⟩ := recorded.tenancy_some some
    have room := sound.room b member
    have used := sound.used b member
    have positive := l.bucket_pos
    refine ⟨room, ?_⟩
    dsimp only
    omega
  · obtain ⟨member, less⟩ := sound.current i some
    exact ⟨_, recorded.borrowed _ member, less⟩
  · exact ⟨buckets, sound.shared.buckets_nodup, recorded.isSome_iff, sound.shared.useSize,
      sound.shared.nodup, sound.shared.blocks⟩

omit [DecidableEq ι] in
theorem start_recorded {blocks : List Nat} (apart : blocks.Pairwise l.Apart)
    (bucketAddress : Nat → Nat) (allocCount : Nat → Nat) (useCount : Nat → Int) :
    Recorded l ([] : List (Turn ι)) (start blocks bucketAddress allocCount useCount) [] [] where
  sound :=
    { shared := ⟨by rw [List.append_nil]; exact .refl _, apart, rfl⟩
      words := fun _ member => by cases member
      room := fun _ member => by cases member
      used := fun _ member => by cases member
      counts := fun _ member => by cases member
      placed := fun _ member => by cases member
      once := .nil
      current := fun _ some => absurd rfl some
      own := fun _ _ some => absurd rfl some }
  live := rfl
  borrowed := fun _ member => by cases member
  free := fun _ _ => rfl
  calls := fun _ => rfl

theorem bucket_pool_hands_out {blocks : List Nat} (apart : blocks.Pairwise l.Apart)
    {bucketAddress : Nat → Nat} {allocCount : Nat → Nat} {useCount : Nat → Int}
    (run : Run (Step l) (start blocks bucketAddress allocCount useCount) past s) : HandsOut l past s := by
  obtain ⟨buckets, slots, recorded⟩ :=
    run.history (P := fun past s => ∃ buckets slots, Recorded l past s buckets slots)
      (fun _ _ _ _ ⟨_, _, recorded⟩ step => step_recorded recorded step)
      ⟨[], [], start_recorded apart bucketAddress allocCount useCount⟩
  exact recorded.handsOut

end Runs

/-- A thread takes both objects of a bucket, another frees them: the bucket goes back. -/
theorem bucket_pool_hands_out_two :
    let l : Layout := ⟨2, 16, by decide, by decide⟩
    ∃ past s, Run (Step l) (start [1000] (fun _ => 0) (fun _ => 0) (fun _ => 0)) past (s : System Bool) ∧
      sharedCalls past = [.mAlloc 1024, .mFree 1024] ∧ s.live = [] ∧
      s.pool.shared.freeNodes = [1000] ∧ HandsOut l past s := by
  intro l
  have fresh : ∀ block ∈ [1000], l.Apart 5000 block := by
    simp [Layout.Apart, Layout.arraySize, l]
  have run : Run (Step l) (start [1000] (fun _ => 0) (fun _ => 0) (fun _ => 0)) _ (_ : System Bool) :=
    .cons (.mAlloc true 5000 fresh (fun _ _ => rfl) rfl rfl) <|
    .cons (.mAlloc true 5000 fresh (fun _ _ => rfl) rfl rfl) <|
    .cons (.mFree false (.tail _ (.head _)) (fun _ _ => rfl) rfl) <|
    .single (.mFree false (.head _) (fun _ _ => rfl) rfl)
  exact ⟨_, _, run, by decide, by decide, by decide,
    bucket_pool_hands_out (List.pairwise_singleton _ _) run⟩

end NewNameAuction.BucketPool
