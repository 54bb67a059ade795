import NewNameAuction.Attempts
import NewNameAuction.LockFreeStack
import Mathlib.Data.Fintype.Option

/-! `LockFreeStack` is free of locks: from any state on only so many steps of `push` and
`pop` go by before one of them returns, and only `NodePool` can keep a thread from its
next step. -/
namespace NewNameAuction.LockFreeStack

section Attempts
variable {α : Type*}

/-- Where one of the pushing threads stands, or the popping one. -/
abbrev Standing (α : Type*) := PushPlace α ⊕ PopPlace α

namespace Standing

/-- At most so many steps are left of the call, should its exchange not fail. -/
def rank : Standing α → Nat
  | .inl .idle => 8
  | .inl (.alloc _) => 7
  | .inl (.setData _ _) => 6
  | .inl (.readTop _ _) => 5
  | .inl (.setNext _ _ _) => 4
  | .inl (.exchange _ _ _) => 3
  | .inl .count => 2
  | .inr .idle => 8
  | .inr .discount => 7
  | .inr .readTop => 6
  | .inr (.readNext _ _) => 5
  | .inr (.exchange _ _ _) => 4
  | .inr (.readData _) => 3
  | .inr (.free _ _) => 2
  | .inr .recount => 2

/-- What the thread has read of `top`. -/
def tempTop : Standing α → Option Top
  | .inl (.setNext _ _ tempTop) => some tempTop
  | .inl (.exchange _ _ tempTop) => some tempTop
  | .inr (.readNext tempTop _) => some tempTop
  | .inr (.exchange tempTop _ _) => some tempTop
  | _ => none

/-- The exchange that is still to be made. -/
def ahead : Standing α → Nat
  | .inl .count => 0
  | .inr (.readData _) => 0
  | .inr (.free _ _) => 0
  | .inr .recount => 0
  | _ => 1

theorem rank_le (p : Standing α) : p.rank ≤ 8 := by
  rcases p with p | p <;> cases p <;> simp [rank]

theorem ahead_le (p : Standing α) : p.ahead ≤ 1 := by
  rcases p with p | p <;> cases p <;> simp [ahead]

end Standing

def attempts (α : Type*) : Attempts (Stack α) (Standing α) :=
  .ofWord Standing.rank 8 Standing.rank_le Stack.top Standing.tempTop Standing.ahead

variable {s s' : Stack α} {event : Event α}

theorem push_advances {p p' : PushPlace α} (step : PushStep s p event s' p') (unreturned : p' ≠ .idle) :
    (attempts α).Advances s (.inl p) s' (.inl p') := by
  cases step with
  | call data => exact Attempts.ofWord_on rfl (Nat.le_refl 1) (Nat.lt_succ_self 7) (.inl rfl)
  | alloc data free => exact Attempts.ofWord_on rfl (Nat.le_refl 1) (Nat.lt_succ_self 6) (.inl rfl)
  | setData data n => exact Attempts.ofWord_on rfl (Nat.le_refl 1) (Nat.lt_succ_self 5) (.inl rfl)
  | readTop data n =>
    exact Attempts.ofWord_on rfl (Nat.le_refl 1) (Nat.lt_succ_self 4) (.inr (.inr rfl))
  | setNext data n tempTop =>
    exact Attempts.ofWord_on rfl (Nat.le_refl 1) (Nat.lt_succ_self 3) (.inr (.inl rfl))
  | exchange data n same => exact Attempts.ofWord_exchange Nat.zero_lt_one
  | retry data n other => exact Attempts.ofWord_again (Nat.le_refl 1) rfl other rfl
  | count => exact absurd rfl unreturned

theorem pop_advances {p p' : PopPlace α} (step : PopStep s p event s' p') (unreturned : p' ≠ .idle) :
    (attempts α).Advances s (.inr p) s' (.inr p') := by
  cases step with
  | refuse none => exact absurd rfl unreturned
  | call some => exact Attempts.ofWord_on rfl (Nat.le_refl 1) (Nat.lt_succ_self 7) (.inl rfl)
  | discount => exact Attempts.ofWord_on rfl (Nat.le_refl 1) (Nat.lt_succ_self 6) (.inl rfl)
  | null null => exact Attempts.ofWord_on rfl (Nat.zero_le 1) (show 2 < 6 by decide) (.inl rfl)
  | readTop top => exact Attempts.ofWord_on rfl (Nat.le_refl 1) (Nat.lt_succ_self 5) (.inr (.inr rfl))
  | readNext tempTop pTop =>
    exact Attempts.ofWord_on rfl (Nat.le_refl 1) (Nat.lt_succ_self 4) (.inr (.inl rfl))
  | exchange newTop pTop same => exact Attempts.ofWord_exchange Nat.zero_lt_one
  | retry newTop pTop other => exact Attempts.ofWord_again (Nat.le_refl 1) rfl other rfl
  | readData pTop => exact Attempts.ofWord_on rfl (Nat.le_refl 0) (Nat.lt_succ_self 2) (.inl rfl)
  | free pTop data => exact absurd rfl unreturned
  | recount => exact absurd rfl unreturned

/-- A pusher can go on, unless the pool has no node for it. -/
theorem push_steps (s : Stack α) {p : PushPlace α} (inside : p ≠ .idle) :
    (∃ event s' p', PushStep s p event s' p') ∨ ∃ data, p = .alloc data ∧ ∀ n, s.inUse n = true := by
  cases p with
  | idle => exact absurd rfl inside
  | alloc data =>
    by_cases full : ∀ n, s.inUse n = true
    · exact .inr ⟨data, rfl, full⟩
    · obtain ⟨n, free⟩ := not_forall.mp full
      exact .inl ⟨_, _, _, .alloc data (Bool.not_eq_true _ ▸ free)⟩
  | setData data n => exact .inl ⟨_, _, _, .setData s data n⟩
  | readTop data n => exact .inl ⟨_, _, _, .readTop s data n⟩
  | setNext data n tempTop => exact .inl ⟨_, _, _, .setNext s data n tempTop⟩
  | exchange data n tempTop =>
    by_cases same : s.top = tempTop
    · exact .inl ⟨_, _, _, .exchange data n same⟩
    · exact .inl ⟨_, _, _, .retry data n same⟩
  | count => exact .inl ⟨_, _, _, .count s⟩

theorem pop_steps (s : Stack α) (p : PopPlace α) : ∃ event s' p', PopStep s p event s' p' := by
  cases p with
  | idle =>
    by_cases none : s.nodeCount ≤ 0
    · exact ⟨_, _, _, .refuse none⟩
    · exact ⟨_, _, _, .call (not_le.mp none)⟩
  | discount => exact ⟨_, _, _, .discount s⟩
  | readTop =>
    cases top : s.top.pointer with
    | none => exact ⟨_, _, _, .null top⟩
    | some pTop => exact ⟨_, _, _, .readTop top⟩
  | readNext tempTop pTop => exact ⟨_, _, _, .readNext s tempTop pTop⟩
  | exchange tempTop newTop pTop =>
    by_cases same : s.top = tempTop
    · exact ⟨_, _, _, .exchange newTop pTop same⟩
    · exact ⟨_, _, _, .retry newTop pTop same⟩
  | readData pTop => exact ⟨_, _, _, .readData s pTop⟩
  | free pTop data => exact ⟨_, _, _, .free s pTop data⟩
  | recount => exact ⟨_, _, _, .recount s⟩

end Attempts

section Runs
variable {ι : Type*} {α : Type*} [DecidableEq ι]
  {m m' : Threads ι (Shared α) (PushPlace α)} {labels : List (Event α)}

/-- A step of a call that does not return with it. -/
inductive Unreturned :
    Threads ι (Shared α) (PushPlace α) → Event α → Threads ι (Shared α) (PushPlace α) → Prop
  | push {m : Threads ι (Shared α) (PushPlace α)} (i : ι) {event : Event α} {stack : Stack α}
      {place : PushPlace α} (step : PushStep m.shared.stack (m.place i) event stack place)
      (inside : place ≠ .idle) : Unreturned m event (m.move i ⟨stack, m.shared.popper⟩ place)
  | pop {m : Threads ι (Shared α) (PushPlace α)} {event : Event α} {stack : Stack α}
      {popper : PopPlace α} (step : PopStep m.shared.stack m.shared.popper event stack popper)
      (inside : popper ≠ .idle) : Unreturned m event { m with shared := ⟨stack, popper⟩ }

omit [DecidableEq ι] in
/-- The popping thread beside the pushing ones. -/
def everybody (m : Threads ι (Shared α) (PushPlace α)) : Threads (Option ι) (Stack α) (Standing α) where
  shared := m.shared.stack
  place
    | none => .inr m.shared.popper
    | some i => .inl (m.place i)

theorem everybody_push (i : ι) (stack : Stack α) (place : PushPlace α) :
    everybody (m.move i ⟨stack, m.shared.popper⟩ place) =
      (everybody m).move (some i) stack (.inl place) := by
  unfold everybody Threads.move
  congr 1
  funext j
  cases j with
  | none => rfl
  | some j => by_cases same : j = i <;> simp [same]

theorem everybody_pop (stack : Stack α) (popper : PopPlace α) :
    everybody { m with shared := ⟨stack, popper⟩ } = (everybody m).move none stack (.inr popper) := by
  unfold everybody Threads.move
  congr 1
  funext j
  cases j with
  | none => rfl
  | some j => rfl

theorem unreturned_advances {event : Event α} (step : Unreturned m event m') :
    ∃ i s p, everybody m' = (everybody m).move i s p ∧
      (attempts α).Advances (everybody m).shared ((everybody m).place i) s p := by
  cases step with
  | push i step inside => exact ⟨some i, _, _, everybody_push i _ _, push_advances step inside⟩
  | pop step inside => exact ⟨none, _, _, everybody_pop _ _, pop_advances step inside⟩

/-- From any state on, a call returns before `(n + 2) (17 (n + 1) + 1)` steps of `n` pushing
threads and the popping one have gone by, and none of them has to wait but for a node. -/
theorem some_call_finishes [Fintype ι] (run : Run Unreturned m labels m') :
    labels.length < (Fintype.card ι + 2) * (17 * (Fintype.card ι + 1) + 1) ∧
      (∀ i, m'.place i ≠ .idle →
        (∃ event stack place, PushStep m'.shared.stack (m'.place i) event stack place) ∨
          ∃ data, m'.place i = .alloc data ∧ ∀ n, m'.shared.stack.inUse n = true) ∧
      ∃ event stack popper, PopStep m'.shared.stack m'.shared.popper event stack popper := by
  refine ⟨?_, fun i inside => push_steps _ inside, pop_steps ..⟩
  have exchanges : (attempts α).exchanges (everybody m) ≤ Fintype.card (Option ι) := by
    have total := (everybody m).total_le_card Standing.ahead Standing.ahead_le
    rwa [Nat.mul_one] at total
  have length := (attempts α).run_length_lt everybody (fun _ => True)
    (fun _ _ _ _ _ => trivial) (fun _ _ _ _ step => unreturned_advances step) run trivial exchanges
  rw [Fintype.card_option] at length
  rwa [Nat.mul_comm 17]

end Runs

/-- Thread 0 links its node before thread 1, which begins again. -/
theorem contended_call_finishes :
    ∃ m labels m', labels.length = 12 ∧ Run (@Unreturned (Fin 2) Nat _) m labels m' ∧
      labels.length < (Fintype.card (Fin 2) + 2) * (17 * (Fintype.card (Fin 2) + 1) + 1) ∧
      (∀ i, m'.place i ≠ .idle →
        (∃ event stack place, PushStep m'.shared.stack (m'.place i) event stack place) ∨
          ∃ data, m'.place i = .alloc data ∧ ∀ n, m'.shared.stack.inUse n = true) ∧
      ∃ event stack popper, PopStep m'.shared.stack m'.shared.popper event stack popper := by
  obtain ⟨m', run⟩ : ∃ m', Run (@Unreturned (Fin 2) Nat _) (start (fun _ => none) fun _ => 0)
      (.replicate 9 .other ++ [.linked 5, .other, .other]) m' := by
    refine ⟨_, .cons (.push 0 (.call _ 5) nofun) (.cons (.push 0 (@PushStep.alloc _ _ 5 0 rfl) nofun)
      (.cons (.push 0 (.setData _ 5 0) nofun) (.cons (.push 0 (.readTop _ 5 0) nofun)
      (.cons (.push 0 (.setNext _ 5 0 _) nofun)
      (.cons (.push 1 (.call _ 6) nofun) (.cons (.push 1 (@PushStep.alloc _ _ 6 1 rfl) nofun)
      (.cons (.push 1 (.setData _ 6 1) nofun) (.cons (.push 1 (.readTop _ 6 1) nofun)
      (.cons (.push 0 (.exchange 5 0 rfl) nofun)
      (.cons (.push 1 (.setNext _ 6 1 _) nofun)
      (.single (.push 1 (.retry 6 1 nofun) nofun))))))))))))⟩
  exact ⟨_, _, m', rfl, run, some_call_finishes run⟩

end NewNameAuction.LockFreeStack
