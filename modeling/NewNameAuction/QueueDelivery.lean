import NewNameAuction.QueueOrder

/-! What the consumers of `LockFreeQueue` get of what the producers give: everything
once, and with one consumer in each producer's order, in the runs whose exchanges are of
what was read. In other runs a producer that was held up before its exchange of `next`
finds the node it read in use again, and links there. -/
namespace NewNameAuction.QueueDelivery
open LockFreeQueue

variable {ι : Type*} {α : Type*} {labels : List (ι × Event α)} {m m' : Threads ι (Queue α) (Place α)}
  {pInitNode : Node} {next : Node → Option Node} {data : Node → α}

/-- `QueueOrder.Place.Fresh` of the thread that takes the step. -/
def Fresh (m : Threads ι (Queue α) (Place α)) (label : ι × Event α) : Prop :=
  QueueOrder.Place.Fresh m.shared (m.place label.1)

instance (m : Threads ι (Queue α) (Place α)) (label : ι × Event α) : Decidable (Fresh m label) :=
  inferInstanceAs (Decidable (QueueOrder.Place.Fresh _ _))

def given (labels : List (ι × Event α)) : List (ι × α) := tagged Event.givenData labels

def linked (labels : List (ι × Event α)) : List (ι × α) := tagged Event.linkedData labels

def unlinked (labels : List (ι × Event α)) : List (ι × α) := tagged Event.unlinkedData labels

def returned (labels : List (ι × Event α)) : List (ι × α) := tagged Event.returnedData labels

/-- Only one thread calls `Dequeue`. -/
def OneConsumer (labels : List (ι × Event α)) : Prop :=
  ∃ c, ∀ i, (i, Event.asked) ∈ labels → i = c

/-- What the queue has done with the values given to `Enqueue`. `sources` says from which
producer each of the values comes that the one consumer has got. -/
structure KeepsOrder [DecidableEq ι] (labels : List (ι × Event α))
    (m : Threads ι (Queue α) (Place α)) : Prop where
  once : ((returned labels).map Prod.snd).Subperm ((given labels).map Prod.snd)
  inOrder : OneConsumer labels → ∃ sources : List (ι × α),
    sources.map Prod.snd = (returned labels).map Prod.snd ∧
    ∀ i, ofThread i sources <+: ofThread i (given labels)
  rest : (∀ i, m.place i = .idle) → ∃ rest,
    Chain m.shared.next (some m.shared.front.pointer) (m.shared.front.pointer :: rest) ∧
    ((returned labels).map Prod.snd ++ rest.map m.shared.data).Perm ((given labels).map Prod.snd) ∧
    m.shared.nodeCount = rest.length

section Threads
variable [DecidableEq ι]

theorem others_step {i : ι} {event : Event α} (step : Step m (i, event) m') (j : ι) (other : j ≠ i) :
    m'.place j = m.place j := by
  obtain ⟨q, p, _, rfl⟩ := step
  exact Threads.place_move_other m i q p other

theorem self_step {i : ι} {event : Event α} (step : Step m (i, event) m') :
    QueueStep m.shared (m.place i) event m'.shared (m'.place i) := by
  obtain ⟨q, p, step, rfl⟩ := step
  rwa [Threads.shared_move, Threads.place_move_self]

/-- A producer links its values in the order it is given them. -/
theorem given_linked (run : Run Step (start pInitNode next data) labels m) (i : ι) :
    ofThread i (given labels) =
      ofThread i (linked labels) ++ (m.place i).giving.map (Prod.mk i) :=
  run.of_thread Place.giving (fun _ _ _ _ step => others_step step)
    (fun _ _ _ _ step => giving_step (self_step step)) i rfl

/-- A consumer returns the values it has unlinked. -/
theorem unlinked_returned (run : Run Step (start pInitNode next data) labels m) (i : ι) :
    ofThread i (unlinked labels) =
      ofThread i (returned labels) ++ (m.place i).taking.map (Prod.mk i) :=
  run.of_thread Place.taking (fun _ _ _ _ step => others_step step)
    (fun _ _ _ _ step => taking_step (self_step step)) i rfl

/-- Whoever is in `Dequeue`, or has unlinked or returned a value, has called it. -/
structure Called (labels : List (ι × Event α)) (m : Threads ι (Queue α) (Place α)) : Prop where
  inside : ∀ i, (m.place i).dequeues = true → (i, .asked) ∈ labels
  takers : ∀ i event, (i, event) ∈ labels → event.unlinkedData ≠ [] ∨ event.returnedData ≠ [] →
    (i, .asked) ∈ labels

theorem called_step {past : List (ι × Event α)} {label : ι × Event α} (called : Called past m)
    (step : Step m label m') : Called (past ++ [label]) m' := by
  obtain ⟨i, event⟩ := label
  refine ⟨fun j within => ?_, fun j event' member takes => ?_⟩
  · by_cases same : j = i
    · subst same
      rcases dequeues_step (self_step step) within with rfl | earlier
      · exact List.mem_append_right _ (List.mem_singleton_self _)
      · exact List.mem_append_left _ (called.inside j earlier)
    · rw [others_step step j same] at within
      exact List.mem_append_left _ (called.inside j within)
  · rcases List.mem_append.mp member with old | new
    · exact List.mem_append_left _ (called.takers j event' old takes)
    · obtain ⟨rfl, rfl⟩ := Prod.mk.inj (List.mem_singleton.mp new)
      exact List.mem_append_left _ (called.inside j (unlinks_step (self_step step) takes))

theorem run_called (run : Run Step (start pInitNode next data) labels m) : Called labels m :=
  run.history (fun _ _ _ _ called step => called_step called step)
    ⟨fun _ inside => (nomatch inside), fun _ _ member => (nomatch member)⟩

end Threads

/-! ## The list and its values -/

section Runs
variable [DecidableEq ι]

/-- The values of the list are those linked and not yet unlinked, oldest first. -/
def Holds (labels : List (ι × Event α)) (m : Threads ι (Queue α) (Place α)) : Prop :=
  ∃ rest, QueueOrder.Shape m rest ∧
    (linked labels).map Prod.snd = (unlinked labels).map Prod.snd ++ rest.map m.shared.data

omit [DecidableEq ι] in
theorem start_shape (pInitNode : Node) (next : Node → Option Node) (data : Node → α) :
    QueueOrder.Shape (start pInitNode next data : Threads ι (Queue α) (Place α)) [] where
  chain := by
    have ends : (Queue.create pInitNode next data).next pInitNode = none := by simp [Queue.create]
    refine .cons (?_ : Chain _ ((Queue.create pInitNode next data).next pInitNode) [])
    rw [ends]
    exact .nil
  linked := fun n member => by
    rw [List.mem_singleton.mp member]
    simp [start, Queue.create]
  held := fun _ _ own => nomatch own
  apart := fun _ _ _ own => nomatch own
  rear := .inl rfl
  facts := fun _ => trivial

theorem holds_step {past : List (ι × Event α)} {label : ι × Event α} (holds : Holds past m)
    (step : Step m label m') (fresh : Fresh m label) : Holds (past ++ [label]) m' := by
  obtain ⟨rest, shape, values⟩ := holds
  obtain ⟨q, p, step, rfl⟩ := step
  obtain ⟨rest', shape', queued⟩ := QueueOrder.queue_shape shape fresh step
  refine ⟨rest', shape', ?_⟩
  unfold linked unlinked at values ⊢
  rw [tagged_append_single, tagged_append_single, values, List.append_assoc, queued,
    List.append_assoc]
  rfl

theorem run_holds (run : Run (Meeting Step Fresh) (start pInitNode next data) labels m) :
    Holds labels m :=
  run.history (fun _ _ _ _ holds step => holds_step holds step.1 step.2)
    ⟨[], start_shape pInitNode next data, rfl⟩

theorem run_counts [Fintype ι] (run : Run Step (start pInitNode next data) labels m) :
    m.shared.nodeCount + m.total Place.uncounted + m.total Place.discounted +
      (unlinked labels).length = (linked labels).length := by
  refine run.history (P := fun labels m => m.shared.nodeCount + m.total Place.uncounted +
    m.total Place.discounted + (unlinked labels).length = ((linked labels).length : Int)) ?_ ?_
  · rintro past m label m' counted ⟨q, p, step, rfl⟩
    have count := count_step step
    have uncounted := m.total_move label.1 q p Place.uncounted
    have discounted := m.total_move label.1 q p Place.discounted
    have taken := congrArg List.length (tagged_append_single Event.unlinkedData past label)
    have put := congrArg List.length (tagged_append_single Event.linkedData past label)
    simp only [List.length_map, List.length_append] at taken put
    unfold unlinked linked at counted ⊢
    rw [Threads.shared_move]
    omega
  · rw [Threads.total_zero Place.uncounted _ fun _ => rfl,
      Threads.total_zero Place.discounted _ fun _ => rfl]
    rfl

/-- With one consumer the values unlinked are the values it has returned, and what it has
in hand. -/
theorem one_consumer (run : Run Step (start pInitNode next data) labels m)
    (one : OneConsumer labels) : returned labels <+: unlinked labels := by
  obtain ⟨c, one⟩ := one
  have called := run_called run
  have all (values : Event α → List α)
      (takes : ∀ event, values event ≠ [] → event.unlinkedData ≠ [] ∨ event.returnedData ≠ []) :
      ofThread c (tagged values labels) = tagged values labels := by
    refine List.filter_eq_self.mpr fun ⟨i, value⟩ member => ?_
    obtain ⟨label, listed, mine⟩ := List.mem_flatMap.mp member
    obtain ⟨value', here, same⟩ := List.mem_map.mp mine
    obtain ⟨rfl, rfl⟩ := Prod.mk.inj same
    have asked := called.takers label.1 label.2 listed (takes _ (List.ne_nil_of_mem here))
    exact decide_eq_true (one _ asked)
  have order := unlinked_returned run c
  rw [unlinked, all _ fun _ => .inl, returned, all _ fun _ => .inr] at order
  exact ⟨_, order.symm⟩

/-- In a run whose exchanges are of what was read, the queue keeps the values and their
order. -/
theorem queue_keeps_order [Fintype ι]
    (run : Run (Meeting Step Fresh) (start pInitNode next data) labels m) : KeepsOrder labels m := by
  have plain : Run Step (start pInitNode next data) labels m := run.mono fun _ _ _ taken => taken.1
  obtain ⟨rest, shape, values⟩ := run_holds run
  have given_by (i : ι) : ofThread i (linked labels) <+: ofThread i (given labels) :=
    ⟨_, (given_linked plain i).symm⟩
  have unlinked_linked : (unlinked labels).map Prod.snd <+: (linked labels).map Prod.snd :=
    ⟨_, values.symm⟩
  constructor
  case once =>
    have returns : ((returned labels).map Prod.snd).Subperm ((unlinked labels).map Prod.snd) :=
      values_subperm fun i => ⟨_, (unlinked_returned plain i).symm⟩
    exact returns.trans (unlinked_linked.sublist.subperm.trans (values_subperm given_by))
  case inOrder =>
    intro one
    have taken : (returned labels).map Prod.snd <+: (linked labels).map Prod.snd :=
      ((one_consumer plain one).map Prod.snd).trans unlinked_linked
    refine ⟨(linked labels).take (returned labels).length, ?_, fun i => ?_⟩
    · rw [List.map_take, List.prefix_iff_eq_take.mp taken, List.length_map]
    · exact ((List.take_prefix _ _).filter _).trans (given_by i)
  case rest =>
    intro idle
    have same_linked : (given labels).Perm (linked labels) := perm_of_threads fun i => by
      rw [given_linked plain i, idle i]
      exact List.append_nil _
    have same_unlinked : (unlinked labels).Perm (returned labels) := perm_of_threads fun i => by
      rw [unlinked_returned plain i, idle i]
      exact List.append_nil _
    refine ⟨rest, shape.chain, ?_, ?_⟩
    · have moved := (same_unlinked.map Prod.snd).symm.append_right (rest.map m.shared.data)
      rw [← values] at moved
      exact moved.trans (same_linked.map Prod.snd).symm
    · have counted := run_counts plain
      have length := congrArg List.length values
      rw [Threads.total_zero Place.uncounted m fun i => by rw [idle i]; rfl,
        Threads.total_zero Place.discounted m fun i => by rw [idle i]; rfl] at counted
      simp only [List.length_map, List.length_append] at length
      omega

end Runs

/-! ## Two schedules -/

/-- An empty queue. -/
def begins : Threads (Fin 3) (Queue Nat) (Place Nat) := start 0 (fun _ => none) fun _ => 0

/-- Two values of one producer go through, the second while the consumer takes the
first. -/
def alone : List (Fin 3 × Choice Nat) :=
  .flatten [[(0, .enqueue 1), (0, .node 1)], .replicate 7 (0, .go),
    [(0, .enqueue 2), (0, .node 2), (2, .dequeue)], .replicate 4 (2, .go), .replicate 7 (0, .go),
    .replicate 4 (2, .go), [(2, .dequeue)], .replicate 8 (2, .go)]

theorem queue_keeps_order_alone :
    ∃ labels m, Run (Meeting Step Fresh) begins labels m ∧ given labels = [(0, 1), (0, 2)] ∧
      returned labels = [(2, 1), (2, 2)] ∧ KeepsOrder labels m := by
  obtain ⟨⟨labels, m⟩, replayed⟩ : ∃ after, replay (guarded Fresh turn) begins alone = some after :=
    Option.isSome_iff_exists.mp (by decide +kernel)
  have values : (replay (guarded Fresh turn) begins alone).map
      (fun after => (given after.1, returned after.1)) =
        some ([(0, 1), (0, 2)], [(2, 1), (2, 2)]) := by
    decide +kernel
  rw [replayed] at values
  obtain ⟨taken, got⟩ := Prod.mk.inj (Option.some.inj values)
  have run := replay_run (guarded_sound fun _ _ _ _ => turn_step) replayed
  exact ⟨labels, m, run, taken, got, queue_keeps_order run⟩

/-- Producer 0 stands before its exchange while 3 goes through the queue. The node it has
read is freed and comes to producer 1 for 4, and so 1 is linked behind 4, which is linked
behind 2. -/
def heldUp : List (Fin 3 × Choice Nat) :=
  .flatten [[(0, .enqueue 1), (0, .node 1)], .replicate 4 (0, .go),
    [(1, .enqueue 3), (1, .node 2)], .replicate 7 (1, .go),
    [(2, .dequeue)], .replicate 8 (2, .go),
    [(1, .enqueue 4), (1, .node 0)], .replicate 2 (1, .go),
    .replicate 3 (0, .go),
    [(0, .enqueue 2), (0, .node 3)], .replicate 7 (0, .go),
    .replicate 5 (1, .go),
    [(2, .dequeue)], .replicate 8 (2, .go),
    [(2, .dequeue)], .replicate 8 (2, .go),
    [(2, .dequeue)], .replicate 9 (2, .go)]

theorem recycled_node_breaks_order :
    ∃ labels m, Run Step begins labels m ∧ (∀ i, (i, Event.asked) ∈ labels → i = 2) ∧
      ofThread 0 (given labels) = [(0, 1), (0, 2)] ∧
      (returned labels).map Prod.snd = [3, 2, 4, 1] ∧ ¬ KeepsOrder labels m := by
  obtain ⟨⟨labels, m⟩, replayed⟩ : ∃ after, replay turn begins heldUp = some after :=
    Option.isSome_iff_exists.mp (by decide +kernel)
  have values : (replay turn begins heldUp).map (fun after => (given after.1,
      (returned after.1).map Prod.snd, decide (∀ label ∈ after.1, label.2 = .asked → label.1 = 2))) =
      some ([(0, 1), (1, 3), (1, 4), (0, 2)], [3, 2, 4, 1], true) := by
    decide +kernel
  rw [replayed] at values
  obtain ⟨taken, others⟩ := Prod.mk.inj (Option.some.inj values)
  obtain ⟨got, asked⟩ := Prod.mk.inj others
  have one (i : Fin 3) (member : (i, Event.asked) ∈ labels) : i = 2 :=
    of_decide_eq_true asked _ member rfl
  refine ⟨labels, m, replay_run (fun _ _ _ _ => turn_step) replayed, one, by rw [taken]; decide,
    got, fun keeps => ?_⟩
  obtain ⟨sources, same, inOrder⟩ := keeps.inOrder ⟨2, one⟩
  rw [got] at same
  rw [taken] at inOrder
  obtain ⟨⟨a, _⟩, _, rfl, rfl, second⟩ := List.map_eq_cons_iff.mp same
  obtain ⟨⟨b, _⟩, _, rfl, rfl, third⟩ := List.map_eq_cons_iff.mp second
  obtain ⟨⟨c, _⟩, _, rfl, rfl, fourth⟩ := List.map_eq_cons_iff.mp third
  obtain ⟨⟨d, _⟩, _, rfl, rfl, none⟩ := List.map_eq_cons_iff.mp fourth
  obtain rfl := List.map_eq_nil_iff.mp none
  clear same second third fourth none
  revert a b c d
  decide +kernel

end NewNameAuction.QueueDelivery
