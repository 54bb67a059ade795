import NewNameAuction.Attempts
import NewNameAuction.MemoryPool

/-! `CMemoryPool` is free of locks. From any state on, whatever the free list looks like,
only so many steps of `mAlloc` and `mFree` go by before one of them returns, and only
`new` can keep a thread from its next step. -/
namespace NewNameAuction.MemoryPool
open StampedPointer

namespace Place

/-- At most so many steps are left of the call, should its exchange not fail. -/
def rank : Place → Nat
  | .idle => 7
  | .allocRead => 6
  | .allocNew => 5
  | .allocNext _ _ => 5
  | .allocExchange _ _ _ => 4
  | .countCapacity _ => 4
  | .countUse _ => 3
  | .freeRead _ => 6
  | .freeNext _ _ => 5
  | .freeExchange _ _ => 4
  | .discount => 3

/-- What the thread has read of `_freeNodePtr`. -/
def tempWord : Place → Option (BitVec 64)
  | .allocNext tempFreeNode _ => some tempFreeNode
  | .allocExchange tempFreeNode _ _ => some tempFreeNode
  | .freeNext _ tempFreeNode => some tempFreeNode
  | .freeExchange _ tempFreeNode => some tempFreeNode
  | _ => none

/-- The exchange that is still to be made. -/
def ahead : Place → Nat
  | .countCapacity _ => 0
  | .countUse _ => 0
  | .discount => 0
  | _ => 1

theorem rank_le (p : Place) : p.rank ≤ 7 := by
  cases p <;> simp [rank]

theorem ahead_le (p : Place) : p.ahead ≤ 1 := by
  cases p <;> simp [ahead]

end Place

def attempts : Attempts Shared Place :=
  .ofWord Place.rank 7 Place.rank_le (fun s => s.pool.freeNodePtr) Place.tempWord Place.ahead

section Steps
variable {s s' : Shared} {p p' : Place} {event : Event}

theorem alloc_advances (step : AllocStep s p event s' p') (unreturned : p' ≠ .idle) :
    attempts.Advances s p s' p' := by
  cases step with
  | call => exact Attempts.ofWord_on rfl (Nat.le_refl 1) (Nat.lt_succ_self 6) (.inl rfl)
  | null null => exact Attempts.ofWord_on rfl (Nat.le_refl 1) (Nat.lt_succ_self 5) (.inl rfl)
  | read top => exact Attempts.ofWord_on rfl (Nat.le_refl 1) (Nat.lt_succ_self 5) (.inr (.inr rfl))
  | new fresh => exact Attempts.ofWord_on rfl (Nat.zero_le 1) (Nat.lt_succ_self 4) (.inl rfl)
  | capacity pBlock => exact Attempts.ofWord_on rfl (Nat.le_refl 0) (Nat.lt_succ_self 3) (.inl rfl)
  | next tempFreeNode pBlockTop =>
    exact Attempts.ofWord_on rfl (Nat.le_refl 1) (Nat.lt_succ_self 4) (.inr (.inl rfl))
  | exchange newFreeNode pBlockTop same => exact Attempts.ofWord_exchange Nat.zero_lt_one
  | retry newFreeNode pBlockTop other =>
    exact Attempts.ofWord_again (Nat.le_refl 1) rfl other rfl
  | use pBlock => exact absurd rfl unreturned

theorem free_advances (step : FreeStep s p event s' p') (unreturned : p' ≠ .idle) :
    attempts.Advances s p s' p' := by
  cases step with
  | call live => exact Attempts.ofWord_on rfl (Nat.le_refl 1) (Nat.lt_succ_self 6) (.inl rfl)
  | read pBlock => exact Attempts.ofWord_on rfl (Nat.le_refl 1) (Nat.lt_succ_self 5) (.inr (.inr rfl))
  | next pBlock tempFreeNode =>
    exact Attempts.ofWord_on rfl (Nat.le_refl 1) (Nat.lt_succ_self 4) (.inr (.inl rfl))
  | exchange pBlock same => exact Attempts.ofWord_exchange Nat.zero_lt_one
  | retry pBlock other => exact Attempts.ofWord_again (Nat.le_refl 1) rfl other rfl
  | discount => exact absurd rfl unreturned

/-- A thread can go on, unless `new` finds no room for another block. -/
theorem thread_steps (s : Shared) (p : Place) :
    (∃ event s' p', PoolStep s p event s' p') ∨ p = .allocNew ∧ ∀ pBlock, pBlock ∈ s.pool.blocks := by
  cases p with
  | idle => exact .inl ⟨_, _, _, .alloc (.call s)⟩
  | allocRead =>
    cases top : pointer s.pool.freeNodePtr with
    | none => exact .inl ⟨_, _, _, .alloc (.null top)⟩
    | some pBlockTop => exact .inl ⟨_, _, _, .alloc (.read top)⟩
  | allocNew =>
    by_cases full : ∀ pBlock, pBlock ∈ s.pool.blocks
    · exact .inr ⟨rfl, full⟩
    · obtain ⟨pBlock, fresh⟩ := not_forall.mp full
      exact .inl ⟨_, _, _, .alloc (.new fresh)⟩
  | allocNext tempFreeNode pBlockTop => exact .inl ⟨_, _, _, .alloc (.next s tempFreeNode pBlockTop)⟩
  | allocExchange tempFreeNode newFreeNode pBlockTop =>
    by_cases same : s.pool.freeNodePtr = tempFreeNode
    · exact .inl ⟨_, _, _, .alloc (.exchange newFreeNode pBlockTop same)⟩
    · exact .inl ⟨_, _, _, .alloc (.retry newFreeNode pBlockTop same)⟩
  | countCapacity pBlock => exact .inl ⟨_, _, _, .alloc (.capacity s pBlock)⟩
  | countUse pBlock => exact .inl ⟨_, _, _, .alloc (.use s pBlock)⟩
  | freeRead pBlock => exact .inl ⟨_, _, _, .free (.read s pBlock)⟩
  | freeNext pBlock tempFreeNode => exact .inl ⟨_, _, _, .free (.next s pBlock tempFreeNode)⟩
  | freeExchange pBlock tempFreeNode =>
    by_cases same : s.pool.freeNodePtr = tempFreeNode
    · exact .inl ⟨_, _, _, .free (.exchange pBlock same)⟩
    · exact .inl ⟨_, _, _, .free (.retry pBlock same)⟩
  | discount => exact .inl ⟨_, _, _, .free (.discount s)⟩

end Steps

section Runs
variable {ι : Type*} [DecidableEq ι] {m m' : Threads ι Shared Place} {labels : List (ι × Event)}

/-- A step of a call that does not return with it. -/
def Unreturned (m : Threads ι Shared Place) (label : ι × Event) (m' : Threads ι Shared Place) : Prop :=
  Step m label m' ∧ m'.place label.1 ≠ .idle

theorem unreturned_advances {label : ι × Event} (step : Unreturned m label m') :
    ∃ i s p, m' = m.move i s p ∧ attempts.Advances m.shared (m.place i) s p := by
  obtain ⟨⟨s, p, taken, rfl⟩, unreturned⟩ := step
  rw [Threads.place_move_self] at unreturned
  refine ⟨label.1, s, p, rfl, ?_⟩
  cases taken with
  | alloc step => exact alloc_advances step unreturned
  | free step => exact free_advances step unreturned

/-- From any state on, a call returns before `(n + 1) (15 n + 1)` steps of `n` threads have
gone by, and none of them has to wait but for memory. -/
theorem some_call_ends [Fintype ι] (run : Run Unreturned m labels m') :
    labels.length < (Fintype.card ι + 1) * (15 * Fintype.card ι + 1) ∧
      ∀ i, (∃ event m'', Step m' (i, event) m'') ∨
        m'.place i = .allocNew ∧ ∀ pBlock, pBlock ∈ m'.shared.pool.blocks := by
  constructor
  · have exchanges : attempts.exchanges m ≤ Fintype.card ι := by
      have total := m.total_le_card Place.ahead Place.ahead_le
      rwa [Nat.mul_one] at total
    have length := attempts.run_length_lt (fun m => m) (fun _ => True)
      (fun _ _ _ _ _ => trivial) (fun _ _ _ _ step => unreturned_advances step) run trivial exchanges
    rwa [Nat.mul_comm 15]
  · intro i
    rcases thread_steps m'.shared (m'.place i) with ⟨event, s, p, step⟩ | full
    · exact .inl ⟨event, _, s, p, step, rfl⟩
    · exact .inr full

theorem Unreturned.alloc {i : ι} {s : Shared} {p : Place} {event : Event}
    (step : AllocStep m.shared (m.place i) event s p) (inside : p ≠ .idle) :
    Unreturned m (i, event) (m.move i s p) :=
  ⟨⟨s, p, .alloc step, rfl⟩, (m.place_move_self i s p).symm ▸ inside⟩

end Runs

/-- Thread 1 takes the block that thread 0 has read, and thread 0 begins again. -/
theorem contended_run (pBlock : Block) :
    ∃ m, Run Unreturned (start (Fin 2) (fun _ => none) [pBlock])
      [(0, .other), (0, .read), (0, .other), (1, .other), (1, .read), (1, .other), (1, .taken),
        (0, .other)] m := by
  refine ⟨_, .cons (.alloc (.call _) nofun) (.cons (.alloc (.read (pointer_address pBlock)) nofun)
    (.cons (.alloc (.next ..) nofun) (.cons (.alloc (.call _) nofun)
    (.cons (.alloc (.read (pointer_address pBlock)) nofun) (.cons (.alloc (.next ..) nofun)
    (.cons (.alloc (.exchange _ _ rfl) nofun) (.single (.alloc (.retry _ _ ?_) nofun))))))))⟩
  intro same
  have stamps := congrArg stamp same
  dsimp only [Threads.move] at stamps
  rw [stamp_stamped] at stamps
  exact absurd stamps (by simp)

theorem contended_call_ends :
    ∃ m labels m', labels.length = 8 ∧ Run (@Unreturned (Fin 2) _) m labels m' ∧
      labels.length < (Fintype.card (Fin 2) + 1) * (15 * Fintype.card (Fin 2) + 1) ∧
      ∀ i, (∃ event m'', Step m' (i, event) m'') ∨
        m'.place i = .allocNew ∧ ∀ pBlock, pBlock ∈ m'.shared.pool.blocks := by
  obtain ⟨m, run⟩ := contended_run ⟨4096, by decide, by decide⟩
  exact ⟨_, _, m, rfl, run, some_call_ends run⟩

end NewNameAuction.MemoryPool
