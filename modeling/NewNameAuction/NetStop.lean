import Mathlib.Data.List.DropRight
import NewNameAuction.Interleaving

/-! The end of the worker threads. `CNetServer::Stop` posts one empty completion for each,
and waits for all of them; a worker that gets an empty completion ends. The completion port
hands out first what was posted first, so what was posted before the last empty completion
is dealt with, and what was posted after it never is. -/
namespace NewNameAuction.NetStop

/-! ## The port and its threads -/

/-- `WaitForMultipleObjects` does not wait for more handles than this. -/
def maximumWaitObjects : Nat := 64

/-- Where `Stop` stands. -/
inductive StopPlace
  | uncalled
  /-- It has so many empty completions still to post; then it waits. -/
  | posting (left : Nat)
  | passed
  deriving DecidableEq

/-- Where a worker stands. -/
inductive WorkerPlace (α : Type)
  /-- In `GetQueuedCompletionStatus`. -/
  | waiting
  | handling (completion : α)
  | returned
  deriving DecidableEq

/-- An empty completion is `none`. -/
structure Port (α : Type) where
  queue : List (Option α)
  stop : StopPlace

inductive PortEvent (α : Type) (n : Nat)
  | called
  | posted (completion : Option α)
  | took (worker : Fin n) (completion : Option α)
  | handled (worker : Fin n)
  | passed

section Steps
variable {α : Type} {n : Nat}

def start (α : Type) (n : Nat) : Threads (Fin n) (Port α) (WorkerPlace α) :=
  ⟨⟨[], .uncalled⟩, fun _ => .waiting⟩

/-- Completions come from the network and from all threads, at any time. `maxThreadNum` is
`n`. -/
inductive PortStep (m : Threads (Fin n) (Port α) (WorkerPlace α)) :
    PortEvent α n → Threads (Fin n) (Port α) (WorkerPlace α) → Prop
  | completion (a : α) :
      PortStep m (.posted (some a)) { m with shared := { m.shared with queue := m.shared.queue ++ [some a] } }
  | called (uncalled : m.shared.stop = .uncalled) :
      PortStep m .called { m with shared := { m.shared with stop := .posting n } }
  | empty {left : Nat} (posting : m.shared.stop = .posting (left + 1)) :
      PortStep m (.posted none) { m with shared := ⟨m.shared.queue ++ [none], .posting left⟩ }
  | passed (posting : m.shared.stop = .posting 0)
      (waits : n ≤ maximumWaitObjects → ∀ j, m.place j = .returned) :
      PortStep m .passed { m with shared := { m.shared with stop := .passed } }
  | took {j : Fin n} {completion : Option α} {rest : List (Option α)} (waits : m.place j = .waiting)
      (queued : m.shared.queue = completion :: rest) :
      PortStep m (.took j completion)
        (m.move j { m.shared with queue := rest } (completion.elim .returned .handling))
  | handled {j : Fin n} {a : α} (there : m.place j = .handling a) :
      PortStep m (.handled j) (m.move j m.shared .waiting)

/-- What an event puts into the port, and what it takes out. -/
def put : PortEvent α n → List (Option α)
  | .posted completion => [completion]
  | _ => []

def taken : PortEvent α n → List (Option α)
  | .took _ completion => [completion]
  | _ => []

/-! ## The empty completions -/

/-- A worker that has ended has had one of them. -/
def had : WorkerPlace α → Nat
  | .returned => 1
  | _ => 0

/-- Those that `Stop` has not posted. -/
def unposted (n : Nat) : StopPlace → Nat
  | .uncalled => n
  | .posting left => left
  | .passed => 0

def empties (queue : List (Option α)) : Nat := queue.countP Option.isNone

/-- Each worker has its empty completion: not posted yet, queued, or taken. -/
structure Accounted (m : Threads (Fin n) (Port α) (WorkerPlace α)) : Prop where
  sum : m.total had + empties m.shared.queue + unposted n m.shared.stop = n
  waited : m.shared.stop = .passed → n ≤ maximumWaitObjects → ∀ j, m.place j = .returned

variable {m m' : Threads (Fin n) (Port α) (WorkerPlace α)} {event : PortEvent α n}

theorem start_accounted : Accounted (start α n) := by
  refine ⟨?_, fun passed => (nomatch passed)⟩
  have none : (start α n).total had = 0 := (start α n).total_zero had fun _ => rfl
  rw [none]
  exact Nat.zero_add n

theorem accounted_step (accounted : Accounted m) (step : PortStep m event m') : Accounted m' := by
  obtain ⟨sum, waited⟩ := accounted
  cases step with
  | completion a =>
    refine ⟨?_, waited⟩
    simpa [empties, Threads.total] using sum
  | called uncalled =>
    refine ⟨?_, fun passed => (nomatch passed)⟩
    rw [uncalled] at sum
    exact sum
  | empty posting =>
    refine ⟨?_, fun passed => (nomatch passed)⟩
    rw [posting] at sum
    simp only [empties, Threads.total, unposted, List.countP_append] at sum ⊢
    simp only [List.countP_singleton, Option.isNone_none, ↓reduceIte]
    omega
  | passed posting waits =>
    refine ⟨?_, fun _ => waits⟩
    rw [posting] at sum
    exact sum
  | @took j completion rest waits queued =>
    refine ⟨?_, fun passed few => ?_⟩
    · have moved := m.total_move j { m.shared with queue := rest } (completion.elim .returned .handling) had
      rw [waits] at moved
      rw [queued] at sum
      cases completion with
      | none =>
        simp only [empties, had, Option.elim_none, Threads.shared_move, List.countP_cons, Option.isNone_none,
          ↓reduceIte] at sum moved ⊢
        omega
      | some a =>
        simp only [empties, had, Option.elim_some, Threads.shared_move, List.countP_cons, Option.isNone_some,
          Bool.false_eq_true, ↓reduceIte] at sum moved ⊢
        omega
    · cases waits.symm.trans (waited passed few j)
  | @handled j a there =>
    refine ⟨?_, fun passed few => ?_⟩
    · have moved := m.total_move j m.shared .waiting had
      rw [there] at moved
      simp only [had, Threads.shared_move] at moved ⊢
      omega
    · cases there.symm.trans (waited passed few j)

/-- What is taken is what was put in first. -/
theorem port_step (m : Threads (Fin n) (Port α) (WorkerPlace α)) (event : PortEvent α n)
    (m' : Threads (Fin n) (Port α) (WorkerPlace α)) (step : PortStep m event m') :
    m.shared.queue ++ put event = taken event ++ m'.shared.queue := by
  cases step with
  | completion | empty => rfl
  | called | passed | handled => exact List.append_nil _
  | took waits queued => exact (List.append_nil _).trans queued

/-- When all workers have ended, nothing is taken any more. -/
theorem ended_step (ended : ∀ j, m.place j = .returned) (step : PortStep m event m') :
    (∀ j, m'.place j = .returned) ∧ taken event = [] := by
  cases step with
  | completion | called | empty | passed => exact ⟨ended, rfl⟩
  | @took j _ _ waits => cases waits.symm.trans (ended j)
  | @handled j _ there => cases there.symm.trans (ended j)

end Steps

/-! ## When the wait has ended -/

section Drains
variable {α : Type} {n : Nat} {m m' : Threads (Fin n) (Port α) (WorkerPlace α)}
  {labels : List (PortEvent α n)}

/-- No worker is left; all that was posted before the last empty completion was taken, and
nothing else ever is. -/
structure Drained (labels : List (PortEvent α n)) (m : Threads (Fin n) (Port α) (WorkerPlace α)) : Prop where
  ended : ∀ j, m.place j = .returned
  queue : labels.flatMap put = labels.flatMap taken ++ m.shared.queue
  late : none ∉ m.shared.queue
  last : ∀ more m', Run PortStep m more m' → more.flatMap taken = []

theorem run_accounted (run : Run PortStep (start α n) labels m) : Accounted m :=
  run.invariant (fun _ _ _ before step => accounted_step before step) start_accounted

theorem ended_run (run : Run PortStep m labels m') (ended : ∀ j, m.place j = .returned) :
    labels.flatMap taken = [] := by
  induction run with
  | nil => rfl
  | cons step _ ih =>
    obtain ⟨still, none⟩ := ended_step ended step
    rw [List.flatMap_cons, none, ih still]
    rfl

theorem ended_drained (run : Run PortStep (start α n) labels m) (ended : ∀ j, m.place j = .returned) :
    Drained labels m := by
  have queue := run.queue (fun m => m.shared.queue) port_step
  refine ⟨ended, queue, fun there => ?_, fun more m' later => ended_run later ended⟩
  have sum := (run_accounted run).sum
  have all : m.total had = n := by simp [Threads.total, ended, had]
  have some : 0 < empties m.shared.queue := List.countP_pos_iff.mpr ⟨none, there, rfl⟩
  omega

/-- `Stop` posts its empty completions. -/
theorem posts_run (queue : List (Option α)) (left : Nat) :
    ∃ queue', Run PortStep (⟨⟨queue, .posting left⟩, fun _ : Fin n => .waiting⟩)
      (List.replicate left (.posted none)) ⟨⟨queue', .posting 0⟩, fun _ => .waiting⟩ := by
  induction left generalizing queue with
  | zero => exact ⟨queue, .nil _⟩
  | succ left ih =>
    obtain ⟨queue', run⟩ := ih (queue ++ [none])
    exact ⟨queue', .cons (.empty rfl) run⟩

/-- What `Stop` leaves when it has waited is drained, in every run, exactly if there are no
more workers than it can wait for. -/
theorem stop_drains_iff (α : Type) (n : Nat) :
    (∀ labels m, Run PortStep (start α n) labels m → m.shared.stop = .passed → Drained labels m) ↔
      n ≤ maximumWaitObjects := by
  constructor
  · intro drains
    by_contra many
    obtain ⟨queue, posts⟩ := posts_run (n := n) ([] : List (Option α)) n
    have call : PortStep (start α n) .called _ := .called rfl
    have pass : PortStep ⟨⟨queue, .posting 0⟩, fun _ : Fin n => .waiting⟩ .passed _ :=
      .passed rfl fun few => absurd few many
    have drained := drains _ _ (.cons call (posts.append (.single pass))) rfl
    have positive : 0 < n := Nat.pos_of_ne_zero fun zero => many (zero ▸ Nat.zero_le _)
    cases drained.ended ⟨0, positive⟩
  · intro few labels m run passed
    exact ended_drained run ((run_accounted run).waited passed few)

end Drains

/-! ## How long it takes -/

section Lengths
variable {α : Type} {n : Nat} {m m' : Threads (Fin n) (Port α) (WorkerPlace α)}
  {labels : List (PortEvent α n)} {event : PortEvent α n}

/-- The queue up to its last empty completion. -/
def due (queue : List (Option α)) : List (Option α) := queue.rdropWhile Option.isSome

theorem due_completion (queue : List (Option α)) (a : α) : due (queue ++ [some a]) = due queue :=
  List.rdropWhile_concat_pos _ _ _ rfl

theorem due_cons {queue : List (Option α)} {completion : Option α} (some : none ∈ completion :: queue) :
    due (completion :: queue) = completion :: due queue := by
  induction queue using List.reverseRecOn with
  | nil =>
    rw [← List.mem_singleton.mp some]
    rfl
  | append_singleton queue last ih =>
    unfold due at ih ⊢
    rw [← List.cons_append]
    cases last with
    | none =>
      rw [List.rdropWhile_concat_neg _ _ _ (by simp), List.rdropWhile_concat_neg _ _ _ (by simp)]
      rfl
    | some a =>
      rw [List.rdropWhile_concat_pos _ _ _ rfl, List.rdropWhile_concat_pos _ _ _ rfl]
      refine ih ?_
      simpa using some

theorem due_nonempty {queue : List (Option α)} : due queue ≠ [] ↔ none ∈ queue := by
  unfold due
  rw [ne_eq, List.rdropWhile_eq_nil_iff, not_forall]
  constructor
  · rintro ⟨completion, other⟩
    obtain ⟨member, none⟩ := Classical.not_imp.mp other
    rwa [Option.not_isSome_iff_eq_none.mp none] at member
  · exact fun member => ⟨none, fun all => nomatch all member⟩

/-- `Stop` has posted all its empty completions. -/
def Posted (m : Threads (Fin n) (Port α) (WorkerPlace α)) : Prop :=
  m.shared.stop = .posting 0 ∨ m.shared.stop = .passed

theorem posted_unposted (posted : Posted m) : unposted n m.shared.stop = 0 := by
  rcases posted with all | passed
  · rw [all]
    rfl
  · rw [passed]
    rfl

/-- A worker that has not ended has an empty completion waiting for it. -/
theorem empty_queued (accounted : Accounted m) (posted : Posted m) {j : Fin n}
    (alive : m.place j ≠ .returned) : none ∈ m.shared.queue := by
  have sum := accounted.sum
  rw [posted_unposted posted, Nat.add_zero] at sum
  have fewer : m.total had < n := by
    have one : had (m.place j) < 1 := by
      generalize m.place j = place at alive
      cases place with
      | returned => exact absurd rfl alive
      | waiting | handling => exact Nat.zero_lt_one
    calc m.total had < ∑ _ : Fin n, 1 :=
          Finset.sum_lt_sum (fun k _ => by generalize m.place k = place; cases place <;> simp [had])
            ⟨j, Finset.mem_univ j, one⟩
      _ = n := by simp
  obtain ⟨completion, member, none⟩ := List.countP_pos_iff.mp (show 0 < empties m.shared.queue by omega)
  rwa [Option.isNone_iff_eq_none.mp none] at member

theorem due_step (accounted : Accounted m) (posted : Posted m) (step : PortStep m event m') :
    Posted m' ∧ due m.shared.queue = taken event ++ due m'.shared.queue := by
  cases step with
  | completion a => exact ⟨posted, (due_completion ..).symm⟩
  | called uncalled =>
    rcases posted with all | passed
    · cases uncalled.symm.trans all
    · cases uncalled.symm.trans passed
  | empty posting =>
    rcases posted with all | passed
    · cases posting.symm.trans all
    · cases posting.symm.trans passed
  | passed => exact ⟨.inr rfl, rfl⟩
  | handled => exact ⟨posted, rfl⟩
  | @took j completion rest waits queued =>
    have some := empty_queued accounted posted (j := j) (by rw [waits]; simp)
    rw [queued] at some ⊢
    exact ⟨posted, due_cons some⟩

/-- A worker with nothing in the way of its next step. -/
theorem alive_step (accounted : Accounted m) (posted : Posted m) {j : Fin n} (alive : m.place j ≠ .returned) :
    ∃ event m', PortStep m event m' ∧ ((∃ completion, event = .took j completion) ∨ event = .handled j) := by
  have some := empty_queued accounted posted alive
  cases there : m.place j with
  | returned => exact absurd there alive
  | handling a => exact ⟨_, _, .handled there, .inr rfl⟩
  | waiting =>
    cases queued : m.shared.queue with
    | nil =>
      rw [queued] at some
      cases some
    | cons completion rest => exact ⟨_, _, .took there queued, .inl ⟨completion, rfl⟩⟩

theorem due_alive (accounted : Accounted m) (posted : Posted m) :
    due m.shared.queue ≠ [] ↔ ∃ j, m.place j ≠ .returned := by
  rw [due_nonempty]
  constructor
  · intro some
    by_contra all
    have ended : ∀ j, m.place j = .returned := fun j => not_not.mp fun alive => all ⟨j, alive⟩
    have sum := accounted.sum
    have had : m.total had = n := by simp [Threads.total, ended, had]
    have one : 0 < empties m.shared.queue := List.countP_pos_iff.mpr ⟨none, some, rfl⟩
    omega
  · rintro ⟨j, alive⟩
    exact empty_queued accounted posted alive

/-- After the last empty completion is posted, whatever the threads do: the workers take
what is queued up to it and nothing else, each that has not ended can go on, and when all
of that is taken they have all ended. -/
theorem workers_end {more : List (PortEvent α n)} (run : Run PortStep (start α n) labels m) (posted : Posted m)
    (later : Run PortStep m more m') :
    due m.shared.queue = more.flatMap taken ++ due m'.shared.queue ∧
      (due m'.shared.queue ≠ [] ↔ ∃ j, m'.place j ≠ .returned) ∧
      ∀ j, m'.place j ≠ .returned → ∃ event m'', PortStep m' event m'' ∧
        ((∃ completion, event = .took j completion) ∨ event = .handled j) := by
  have kept := later.history (P := fun more m' => Accounted m' ∧ Posted m' ∧
    due m.shared.queue = more.flatMap taken ++ due m'.shared.queue) ?_ ⟨run_accounted run, posted, rfl⟩
  · obtain ⟨accounted, posted, took⟩ := kept
    exact ⟨took, due_alive accounted posted, fun j alive => alive_step accounted posted alive⟩
  · rintro past m event m' ⟨accounted, posted, took⟩ step
    obtain ⟨posted', one⟩ := due_step accounted posted step
    refine ⟨accounted_step accounted step, posted', ?_⟩
    rw [took, one, List.flatMap_append, List.flatMap_singleton, List.append_assoc]

end Lengths

/-- One worker, and a completion queued before the empty one. -/
theorem one_worker_ends : ∃ labels m more m', Run PortStep (start Nat 1) labels m ∧ Run PortStep m more m' ∧
    more.flatMap taken = [some 5, none] ∧ ∀ j, m'.place j = .returned := by
  have run : Run PortStep (start Nat 1) [.posted (some 5), .called, .posted none]
      ⟨⟨[some 5, none], .posting 0⟩, fun _ => .waiting⟩ :=
    .cons (.completion 5) <| .cons (.called rfl) <| .single (.empty rfl)
  have first : PortStep ⟨⟨[some 5, none], .posting 0⟩, fun _ : Fin 1 => .waiting⟩ (.took 0 (some 5)) _ :=
    .took rfl rfl
  have later := Run.cons first <| .cons (.handled (j := 0) (Threads.place_move_self ..)) <|
    .single (.took (j := 0) (Threads.place_move_self ..) rfl)
  refine ⟨_, _, _, _, run, later, rfl, fun j => ?_⟩
  obtain ⟨_, ended, _⟩ := workers_end run (.inl rfl) later
  exact not_not.mp fun alive => ended.mpr ⟨j, alive⟩ rfl

end NewNameAuction.NetStop
