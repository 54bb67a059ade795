import NewNameAuction.Interleaving

/-! Threads that try an exchange until none comes between. An attempt is lost only to an
exchange of some thread, and between two returns the threads have only so many exchanges
to make: then only so many steps go by before a call returns. -/
namespace NewNameAuction

/-- `rank` bounds the steps left in an attempt, and `ahead` and `slack` the exchanges that
the threads and what they share are still good for. A thread is `sure` of its attempt as
long as no exchange has come between. -/
structure Attempts (S P : Type*) where
  rank : P → Nat
  top : Nat
  rank_le : ∀ p, rank p ≤ top
  sure : S → P → Prop
  ahead : P → Nat
  slack : S → Nat

namespace Attempts
variable {ι S P : Type*} (attempts : Attempts S P) {m : Threads ι S P}

/-- What is to be shown of a step from `s` and `p` to `t` and `q`: that it is an exchange,
or gets the thread on, or begins again an attempt that was lost. -/
structure Advances (s : S) (p : P) (t : S) (q : P) : Prop where
  left : attempts.ahead q + attempts.slack t ≤ attempts.ahead p + attempts.slack s
  others : attempts.ahead q + attempts.slack t = attempts.ahead p + attempts.slack s →
    ∀ place, attempts.sure s place → attempts.sure t place
  self : attempts.ahead q + attempts.slack t = attempts.ahead p + attempts.slack s →
    attempts.rank q < attempts.rank p ∧ (attempts.sure s p → attempts.sure t q) ∨
      ¬ attempts.sure s p ∧ attempts.sure t q

/-- A step that is an exchange. -/
theorem Advances.exchange {s t : S} {p q : P}
    (fewer : attempts.ahead q + attempts.slack t < attempts.ahead p + attempts.slack s) :
    attempts.Advances s p t q :=
  ⟨fewer.le, fun same => absurd same fewer.ne, fun same => absurd same fewer.ne⟩

/-- A step that leaves what is shared as it is. -/
theorem Advances.read {s : S} {p q : P} (ahead : attempts.ahead q ≤ attempts.ahead p)
    (on : attempts.rank q < attempts.rank p) (sure : attempts.sure s p → attempts.sure s q) :
    attempts.Advances s p s q :=
  ⟨Nat.add_le_add_right ahead _, fun _ _ sure => sure, fun _ => .inl ⟨on, sure⟩⟩

/-- A lost attempt begins again. -/
theorem Advances.again {s : S} {p q : P} (ahead : attempts.ahead q ≤ attempts.ahead p)
    (lost : ¬ attempts.sure s p) (sure : attempts.sure s q) : attempts.Advances s p s q :=
  ⟨Nat.add_le_add_right ahead _, fun _ _ sure => sure, fun _ => .inr ⟨lost, sure⟩⟩

open Classical in
/-- What is left of an attempt, and of the next one where it is lost. -/
noncomputable def cost (s : S) (p : P) : Nat :=
  attempts.rank p + if attempts.sure s p then 0 else attempts.top + 1

theorem cost_le (s : S) (p : P) : attempts.cost s p ≤ 2 * attempts.top + 1 := by
  have rank := attempts.rank_le p
  unfold cost
  split <;> omega

theorem cost_sure {s : S} {p : P} (sure : attempts.sure s p) : attempts.cost s p = attempts.rank p := by
  rw [cost, if_pos sure, Nat.add_zero]

theorem cost_lost {s : S} {p : P} (lost : ¬ attempts.sure s p) :
    attempts.cost s p = attempts.rank p + (attempts.top + 1) := by
  rw [cost, if_neg lost]

/-- An exchange kept away, an attempt costs no more after a step. -/
theorem cost_kept {s t : S} {p : P} (kept : attempts.sure s p → attempts.sure t p) :
    attempts.cost t p ≤ attempts.cost s p := by
  by_cases sure : attempts.sure s p
  · rw [cost_sure attempts sure, cost_sure attempts (kept sure)]
  · rw [cost_lost attempts sure]
    by_cases now : attempts.sure t p
    · rw [cost_sure attempts now]
      exact Nat.le_add_right _ _
    · exact (cost_lost attempts now).le

theorem Advances.cost {s t : S} {p q : P} (advances : attempts.Advances s p t q)
    (same : attempts.ahead q + attempts.slack t = attempts.ahead p + attempts.slack s) :
    attempts.cost t q < attempts.cost s p := by
  rcases advances.self same with ⟨on, kept⟩ | ⟨lost, sure⟩
  · by_cases sure : attempts.sure s p
    · rw [cost_sure attempts sure, cost_sure attempts (kept sure)]
      exact on
    · rw [cost_lost attempts sure]
      by_cases now : attempts.sure t q
      · rw [cost_sure attempts now]
        omega
      · rw [cost_lost attempts now]
        omega
  · have rank := attempts.rank_le q
    rw [cost_lost attempts lost, cost_sure attempts sure]
    omega

section Total
variable [Fintype ι]

/-- The exchanges that are left. -/
def exchanges (m : Threads ι S P) : Nat := m.total attempts.ahead + attempts.slack m.shared

/-- The steps that are left. -/
noncomputable def weight (m : Threads ι S P) : Nat :=
  attempts.exchanges m * (Fintype.card ι * (2 * attempts.top + 1) + 1) +
    m.total (attempts.cost m.shared)

theorem weight_lt {m : Threads ι S P} {most : Nat} (le : attempts.exchanges m ≤ most) :
    attempts.weight m < (most + 1) * (Fintype.card ι * (2 * attempts.top + 1) + 1) := by
  have costs := m.total_le_card (attempts.cost m.shared) (attempts.cost_le m.shared)
  have times := Nat.mul_le_mul_right (Fintype.card ι * (2 * attempts.top + 1) + 1) le
  rw [Nat.add_mul, Nat.one_mul, weight]
  omega

variable [DecidableEq ι]

/-- Every step of a thread takes off some weight. -/
theorem Advances.weight {i : ι} {t : S} {q : P}
    (advances : attempts.Advances m.shared (m.place i) t q) :
    attempts.weight (m.move i t q) < attempts.weight m := by
  have ahead := m.total_move i t q attempts.ahead
  have left := advances.left
  unfold Attempts.weight
  by_cases same : attempts.ahead q + attempts.slack t =
    attempts.ahead (m.place i) + attempts.slack m.shared
  · have exchanges : attempts.exchanges (m.move i t q) = attempts.exchanges m := by
      unfold Attempts.exchanges
      rw [Threads.shared_move]
      omega
    have moved := m.total_move i t q (attempts.cost t)
    have kept : m.total (attempts.cost t) + attempts.cost m.shared (m.place i) ≤
        m.total (attempts.cost m.shared) + attempts.cost t (m.place i) :=
      m.total_le_without _ (fun place => attempts.cost_kept (advances.others same place)) i
    have cost := advances.cost attempts same
    rw [exchanges, Threads.shared_move]
    omega
  · have exchanges : attempts.exchanges (m.move i t q) + 1 ≤ attempts.exchanges m := by
      unfold Attempts.exchanges
      rw [Threads.shared_move]
      omega
    have costs := (m.move i t q).total_le_card (attempts.cost t) (attempts.cost_le t)
    have times := Nat.mul_le_mul_right (Fintype.card ι * (2 * attempts.top + 1) + 1) exchanges
    rw [Nat.add_mul, Nat.one_mul] at times
    rw [Threads.shared_move]
    omega

/-- A run whose steps all advance ends before the exchanges and the attempts they spoil
are used up. -/
theorem run_length_lt {σ α : Type*} {step : σ → α → σ → Prop} {s s' : σ}
    {labels : List α} {most : Nat} (view : σ → Threads ι S P) (Holds : σ → Prop)
    (kept : ∀ s a s', Holds s → step s a s' → Holds s')
    (advances : ∀ s a s', Holds s → step s a s' → ∃ i t q, view s' = (view s).move i t q ∧
      attempts.Advances (view s).shared ((view s).place i) t q)
    (run : Run step s labels s') (start : Holds s) (le : attempts.exchanges (view s) ≤ most) :
    labels.length < (most + 1) * (Fintype.card ι * (2 * attempts.top + 1) + 1) := by
  have less (s : σ) (a : α) (s' : σ) (holds : Holds s) (taken : step s a s') :
      attempts.weight (view s') < attempts.weight (view s) := by
    obtain ⟨i, t, q, moved, advance⟩ := advances s a s' holds taken
    rw [moved]
    exact advance.weight attempts
  have length := run.length_le (fun s => attempts.weight (view s)) kept less start
  have weight := attempts.weight_lt le
  omega

end Total

/-! ## One word -/

section Word
variable {W : Type*} {rank ahead : P → Nat} {top : Nat} {rank_le : ∀ p, rank p ≤ top} {word : S → W}
  {read : P → Option W} {s t : S} {p q : P}

/-- Attempts to exchange one word: what a thread has read of it is still so. -/
def ofWord (rank : P → Nat) (top : Nat) (rank_le : ∀ p, rank p ≤ top) (word : S → W)
    (read : P → Option W) (ahead : P → Nat) : Attempts S P where
  rank := rank
  top := top
  rank_le := rank_le
  sure s p := ∀ tempWord, read p = some tempWord → word s = tempWord
  ahead := ahead
  slack _ := 0

theorem ofWord_on (same : word t = word s) (fewer : ahead q ≤ ahead p) (on : rank q < rank p)
    (kept : read q = none ∨ read q = read p ∨ read q = some (word s)) :
    (ofWord rank top rank_le word read ahead).Advances s p t q where
  left := Nat.add_le_add_right fewer 0
  others := fun _ _ sure tempWord known => same.trans (sure tempWord known)
  self := by
    refine fun _ => .inl ⟨on, fun sure tempWord known => ?_⟩
    rcases kept with none | before | now
    · cases none.symm.trans known
    · exact same.trans (sure tempWord (before ▸ known))
    · exact same.trans (Option.some.inj (now.symm.trans known))

theorem ofWord_again {tempWord : W} (fewer : ahead q ≤ ahead p) (known : read p = some tempWord)
    (other : word s ≠ tempWord) (unread : read q = none) :
    (ofWord rank top rank_le word read ahead).Advances s p s q :=
  .again _ fewer (fun sure => other (sure tempWord known)) fun _ known => nomatch unread.symm.trans known

theorem ofWord_exchange (fewer : ahead q < ahead p) :
    (ofWord rank top rank_le word read ahead).Advances s p t q :=
  .exchange _ (Nat.add_lt_add_right fewer 0)

end Word

end Attempts

end NewNameAuction
