import Mathlib.Algebra.Order.BigOperators.Group.Finset
import Mathlib.Data.List.Perm.Subperm
import NewNameAuction.Runs

/-! Threads that share a state and take turns, one atomic step at a time. What all
threads together hold is counted by a weight on the places they stand at. -/
namespace NewNameAuction

/-- A shared state, and the place each thread stands at. -/
structure Threads (ι S P : Type*) where
  shared : S
  place : ι → P

/-- A change at one place exchanges one term of a sum. -/
theorem sum_update {ι β : Type*} [Fintype ι] [DecidableEq ι] (weight : β → Nat) (f : ι → β) (i : ι)
    (b : β) : ∑ j, weight (Function.update f i b j) + weight (f i) = ∑ j, weight (f j) + weight b := by
  have others : ∑ j ∈ Finset.univ.erase i, weight (Function.update f i b j) =
      ∑ j ∈ Finset.univ.erase i, weight (f j) := by
    refine Finset.sum_congr rfl fun j member => ?_
    rw [Function.update_of_ne (Finset.ne_of_mem_erase member)]
  have before := Finset.add_sum_erase Finset.univ (fun j => weight (f j)) (Finset.mem_univ i)
  have after := Finset.add_sum_erase Finset.univ (fun j => weight (Function.update f i b j))
    (Finset.mem_univ i)
  rw [others, Function.update_self] at after
  omega

namespace Threads
variable {ι S P : Type*}

section Total
variable [Fintype ι] (weight : P → Nat) (m : Threads ι S P)

/-- The weight of all threads. -/
def total : Nat := ∑ i, weight (m.place i)

theorem le_total (i : ι) : weight (m.place i) ≤ total weight m :=
  Finset.single_le_sum (f := fun j => weight (m.place j)) (fun _ _ => Nat.zero_le _)
    (Finset.mem_univ i)

theorem add_le_total {i j : ι} (other : i ≠ j) :
    weight (m.place i) + weight (m.place j) ≤ total weight m := by
  classical
  calc weight (m.place i) + weight (m.place j) = ∑ k ∈ {i, j}, weight (m.place k) :=
        (Finset.sum_pair (f := fun k => weight (m.place k)) other).symm
    _ ≤ total weight m := Finset.sum_le_sum_of_subset (Finset.subset_univ _)

theorem total_le {heavier : P → Nat} (le : ∀ place, weight place ≤ heavier place) :
    total weight m ≤ total heavier m :=
  Finset.sum_le_sum fun i _ => le (m.place i)

/-- The same without one thread. -/
theorem total_le_without {heavier : P → Nat} (le : ∀ place, weight place ≤ heavier place) (i : ι) :
    total weight m + heavier (m.place i) ≤ total heavier m + weight (m.place i) := by
  classical
  have light := Finset.add_sum_erase Finset.univ (fun j => weight (m.place j)) (Finset.mem_univ i)
  have heavy := Finset.add_sum_erase Finset.univ (fun j => heavier (m.place j)) (Finset.mem_univ i)
  have others := Finset.sum_le_sum (s := Finset.univ.erase i) fun j _ => le (m.place j)
  unfold total
  omega

theorem total_le_card {most : Nat} (le : ∀ place, weight place ≤ most) :
    total weight m ≤ Fintype.card ι * most := by
  refine (Finset.sum_le_card_nsmul _ _ _ fun i _ => le (m.place i)).trans ?_
  rw [Nat.nsmul_eq_mul, Finset.card_univ]

theorem total_zero (none : ∀ i, weight (m.place i) = 0) : total weight m = 0 :=
  Finset.sum_eq_zero fun i _ => none i

end Total

section Move
variable [DecidableEq ι] (m : Threads ι S P) (i : ι) (shared : S) (place : P)

/-- The threads after thread `i` has moved. -/
def move : Threads ι S P := ⟨shared, fun j => if j = i then place else m.place j⟩

@[simp] theorem shared_move : (m.move i shared place).shared = shared := rfl

@[simp] theorem place_move_self : (m.move i shared place).place i = place := if_pos rfl

theorem place_move_other {j : ι} (other : j ≠ i) : (m.move i shared place).place j = m.place j :=
  if_neg other

/-- What holds where a thread comes to stand, and where the others stand, holds
everywhere. -/
theorem place_move_all {Q : P → Prop} (self : Q place) (others : ∀ j, j ≠ i → Q (m.place j)) (j : ι) :
    Q ((m.move i shared place).place j) := by
  by_cases same : j = i
  · rwa [same, place_move_self]
  · rw [place_move_other m i shared place same]
    exact others j same

theorem move_self : m.move i m.shared (m.place i) = m := by
  unfold move
  congr 1
  funext j
  split
  · next same => rw [same]
  · rfl

theorem move_move (shared' : S) (place' : P) :
    (m.move i shared place).move i shared' place' = m.move i shared' place' := by
  unfold move
  congr 1
  funext j
  dsimp only
  split <;> rfl

/-- A move exchanges one term of a total. -/
theorem total_move [Fintype ι] (weight : P → Nat) :
    total weight (m.move i shared place) + weight (m.place i) = total weight m + weight place := by
  have moved : (m.move i shared place).place = Function.update m.place i place :=
    funext fun j => (Function.update_apply ..).symm
  unfold total
  rw [moved]
  exact sum_update weight m.place i place

end Move

/-- Thread `i` takes an atomic step. -/
def Step [DecidableEq ι] (step : S → P → S → P → Prop) (m : Threads ι S P) (i : ι)
    (m' : Threads ι S P) : Prop :=
  ∃ shared place, step m.shared (m.place i) shared place ∧ m' = m.move i shared place

/-- The same with a label that says what happens. -/
def Takes [DecidableEq ι] {ε : Type*} (step : S → P → ε → S → P → Prop) (m : Threads ι S P)
    (label : ι × ε) (m' : Threads ι S P) : Prop :=
  ∃ shared place, step m.shared (m.place label.1) label.2 shared place ∧
    m' = m.move label.1 shared place

/-- What a thread does while the others stand still. -/
theorem run_alone [DecidableEq ι] {ε : Type*} {step : S → P → ε → S → P → Prop} (i : ι)
    {events : List ε} {x y : S × P}
    (run : Run (fun x event y => step x.1 x.2 event y.1 y.2) x events y) :
    ∀ m : Threads ι S P, m.shared = x.1 → m.place i = x.2 →
      Run (Takes step) m (events.map (Prod.mk i)) (m.move i y.1 y.2) := by
  induction run with
  | nil x =>
    rintro m shared place
    rw [← shared, ← place, move_self]
    exact .nil m
  | @cons x y z event events taken _ ih =>
    rintro m shared place
    have later := ih (m.move i y.1 y.2) rfl (place_move_self ..)
    rw [move_move] at later
    exact .cons ⟨y.1, y.2, by rw [shared, place]; exact taken, rfl⟩ later

end Threads

/-! ## Values of many threads -/

section Tagged
variable {ι ε β : Type*}

/-- The values of the events of a run, each with the thread it is of. -/
def tagged (values : ε → List β) (labels : List (ι × ε)) : List (ι × β) :=
  labels.flatMap fun label => (values label.2).map (Prod.mk label.1)

theorem tagged_append_single (values : ε → List β) (labels : List (ι × ε)) (label : ι × ε) :
    (tagged values (labels ++ [label])).map Prod.snd =
      (tagged values labels).map Prod.snd ++ values label.2 := by
  simp [tagged, Function.comp_def]

variable [DecidableEq ι]

/-- The values of one thread, in its order. -/
def ofThread (i : ι) (values : List (ι × β)) : List (ι × β) := values.filter (·.1 = i)

/-- A thread that takes values out in the order it puts them in. -/
theorem Run.of_thread {S P : Type*} {step : Threads ι S P → ι × ε → Threads ι S P → Prop}
    {m m' : Threads ι S P} {labels : List (ι × ε)} (waiting : P → List β) {put taken : ε → List β}
    (others : ∀ m i event m', step m (i, event) m' → ∀ j, j ≠ i → m'.place j = m.place j)
    (kept : ∀ m i event m', step m (i, event) m' →
      waiting (m.place i) ++ put event = taken event ++ waiting (m'.place i))
    (run : Run step m labels m') (i : ι) (start : waiting (m.place i) = []) :
    ofThread i (tagged put labels) =
      ofThread i (tagged taken labels) ++ (waiting (m'.place i)).map (Prod.mk i) := by
  have each : ∀ m label m', step m label m' →
      (waiting (m.place i)).map (Prod.mk i) ++ ofThread i ((put label.2).map (Prod.mk label.1)) =
        ofThread i ((taken label.2).map (Prod.mk label.1)) ++
          (waiting (m'.place i)).map (Prod.mk i) := by
    rintro m ⟨j, event⟩ m' step
    by_cases same : j = i
    · subst same
      have tagged := congrArg (List.map (Prod.mk j)) (kept m j event m' step)
      simpa [ofThread, List.filter_map, Function.comp_def] using tagged
    · simp [ofThread, List.filter_map, Function.comp_def, same,
        others m j event m' step i (Ne.symm same)]
  have queue := run.queue (fun m => (waiting (m.place i)).map (Prod.mk i)) each
  simpa [ofThread, tagged, List.filter_flatMap, start] using queue

theorem subperm_of_threads {values values' : List (ι × β)}
    (le : ∀ i, ofThread i values <+: ofThread i values') : values.Subperm values' := by
  classical
  refine List.subperm_ext_iff.mpr fun ⟨i, value⟩ _ => ?_
  rw [← List.count_filter (p := (·.1 = i)) (l := values) (by simp),
    ← List.count_filter (p := (·.1 = i)) (l := values') (by simp)]
  exact (le i).sublist.count_le _

/-- The same for the values alone. -/
theorem values_subperm {values values' : List (ι × β)}
    (le : ∀ i, ofThread i values <+: ofThread i values') :
    (values.map Prod.snd).Subperm (values'.map Prod.snd) := by
  obtain ⟨chosen, perm, sublist⟩ := subperm_of_threads le
  exact ⟨chosen.map Prod.snd, perm.map _, sublist.map _⟩

theorem perm_of_threads {values values' : List (ι × β)}
    (same : ∀ i, ofThread i values = ofThread i values') : values.Perm values' :=
  (subperm_of_threads fun i => by rw [same i]).antisymm (subperm_of_threads fun i => by rw [same i])

end Tagged

end NewNameAuction
