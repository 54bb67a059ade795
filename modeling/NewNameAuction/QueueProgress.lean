import NewNameAuction.Attempts
import NewNameAuction.QueueDelivery

/-! `LockFreeQueue` is free of locks: as long as calls of `Enqueue` and `Dequeue` are
under way and none returns, only so many steps go by, whichever threads take them. That a
`Dequeue` which finds no node reads `nodeCount` again does not hold it up either, since
`nodeCount` has become negative by then or a call has returned. -/
namespace NewNameAuction.QueueProgress
open LockFreeQueue QueueOrder QueueDelivery

/-! ## Attempts -/

section Attempts
variable {α : Type*}

/-- At most so many steps are left of the call, should no exchange of it fail. -/
def rank : Place α → Nat
  | .idle => 10
  | .alloc _ => 9
  | .setData _ _ => 8
  | .setNext _ _ => 7
  | .readRear _ _ => 6
  | .readNext _ _ _ => 5
  | .link _ _ _ => 4
  | .readAgain _ _ _ => 3
  | .swing _ _ _ _ => 2
  | .swingNew _ _ => 2
  | .count => 1
  | .discount => 9
  | .readFront => 8
  | .readFrontNext _ => 7
  | .checkCount => 2
  | .recount => 1
  | .readData _ _ => 6
  | .unlink _ _ _ => 5
  | .readRearToo _ _ _ => 4
  | .readRearNext _ _ _ _ => 3
  | .swingToo _ _ _ _ => 2
  | .free _ _ => 1

/-- What a thread has read is still so. -/
def Sure (q : Queue α) : Place α → Prop
  | .readNext _ _ tempRear => q.rear = tempRear
  | .link _ _ tempRear => q.next tempRear.pointer = none
  | .readAgain _ _ _ => False
  | .swing _ _ tempRear _ => q.rear = tempRear
  | .readFrontNext tempFront => q.front = tempFront
  | .checkCount => q.nodeCount < 0
  | .readData tempFront _ => q.front = tempFront
  | .unlink tempFront _ _ => q.front = tempFront
  | _ => True

/-- The exchanges that a call is still to make: with a node that is linked `rear` is to be
moved on as well, by whichever thread. -/
def ahead : Place α → Nat
  | .swingNew _ _ => 0
  | .count => 0
  | .discount => 1
  | .readFront => 1
  | .readFrontNext _ => 1
  | .checkCount => 1
  | .recount => 0
  | .readData _ _ => 1
  | .unlink _ _ _ => 1
  | .readRearToo _ _ _ => 0
  | .readRearNext _ _ _ _ => 0
  | .swingToo _ _ _ _ => 0
  | .free _ _ => 0
  | _ => 2

/-- Whether `rear` is behind. -/
def slack (q : Queue α) : Nat := (q.next q.rear.pointer).isSome.toNat

theorem rank_le (p : Place α) : rank p ≤ 10 := by
  cases p <;> simp [rank]

theorem ahead_le (p : Place α) : ahead p ≤ 2 := by
  cases p <;> simp [ahead]

theorem slack_le (q : Queue α) : slack q ≤ 1 := Bool.toNat_le _

theorem slack_behind {q : Queue α} {n : Node} (next : q.next q.rear.pointer = some n) :
    slack q = 1 := by
  rw [slack, next]
  rfl

theorem slack_last {q : Queue α} (next : q.next q.rear.pointer = none) : slack q = 0 := by
  rw [slack, next]
  rfl

def attempts (α : Type*) : Attempts (Queue α) (Place α) where
  rank := rank
  top := 10
  rank_le := rank_le
  sure := Sure
  ahead := ahead
  slack := slack

/-- A write that leaves the words as they are and takes no `next` from null. -/
theorem sure_calm {q q' : Queue α} (rear : q'.rear = q.rear) (front : q'.front = q.front)
    (count : q'.nodeCount ≤ q.nodeCount) (next : ∀ n, q.next n = none → q'.next n = none)
    (p : Place α) (sure : Sure q p) : Sure q' p := by
  cases p with
  | readNext data n tempRear => exact rear.trans sure
  | link data n tempRear => exact next _ sure
  | readAgain data n tempRear => exact sure
  | swing data n tempRear pNext => exact rear.trans sure
  | readFrontNext tempFront => exact front.trans sure
  | checkCount => exact count.trans_lt sure
  | readData tempFront pNext => exact front.trans sure
  | unlink tempFront pNext data => exact front.trans sure
  | idle | alloc _ | setData _ _ | setNext _ _ | readRear _ _ | swingNew _ _ | count | discount
  | readFront | recount | readRearToo _ _ _ | readRearNext _ _ _ _ | swingToo _ _ _ _ | free _ _ =>
    trivial

/-- A step that gets the thread on with such a write. -/
theorem calm_advances {q q' : Queue α} {p p' : Place α} (rear : q'.rear = q.rear)
    (front : q'.front = q.front) (count : q'.nodeCount ≤ q.nodeCount)
    (next : ∀ n, q.next n = none → q'.next n = none) (fewer : ahead p' ≤ ahead p)
    (on : rank p' < rank p) (sure : Sure q' p') : (attempts α).Advances q p q' p' where
  left := by
    refine Nat.add_le_add fewer ?_
    show slack q' ≤ slack q
    cases last : q.next q.rear.pointer with
    | none => exact (slack_last (rear ▸ next _ last)).le.trans (Nat.zero_le _)
    | some n => exact (slack_le q').trans (slack_behind last).ge
  others := fun _ => sure_calm rear front count next
  self := fun _ => .inl ⟨on, fun _ => sure⟩

end Attempts

/-! ## Steps -/

section Steps
variable {ι : Type*} {α : Type*} {m : Threads ι (Queue α) (Place α)} {rest : List Node}

/-- `nodeCount` counts the nodes of the list, less those that a `Dequeue` has counted out. -/
structure Sound [Fintype ι] (m : Threads ι (Queue α) (Place α)) (rest : List Node) :
    Prop where
  shape : Shape m rest
  count : m.shared.nodeCount + m.total Place.uncounted + m.total Place.discounted = rest.length

/-- The exchange of `rear` for the node behind it. -/
theorem swing_advances {tempRear : Word} {pNext : Node} {i : ι} {p' : Place α}
    (shape : Shape m rest) (fresh : m.shared.rear = tempRear)
    (behind : Place.Behind m.shared tempRear pNext) (fewer : ahead p' ≤ ahead (m.place i)) :
    (attempts α).Advances m.shared (m.place i) { m.shared with rear := tempRear.moved pNext } p' := by
  have next := behind.2 fresh
  have last : m.shared.next pNext = none := shape.behind_last next ▸ shape.last_next
  refine .exchange _ (?_ : ahead p' + slack _ < ahead (m.place i) + slack m.shared)
  rw [slack_behind next, slack_last (q := { m.shared with rear := tempRear.moved pNext }) last]
  omega

/-- A `Dequeue` that sees the end of the list at `front` has counted out more than there is. -/
theorem counted_out [Fintype ι] {i : ι} (sound : Sound m rest)
    (none : m.shared.next m.shared.front.pointer = none)
    (discounted : Place.discounted (m.place i) = 1) : m.shared.nodeCount < 0 := by
  have empty : rest = [] := by
    have chain := sound.shape.chain
    cases chain with
    | cons later =>
      rw [none] at later
      cases later
      rfl
  have count := sound.count
  have self := m.le_total Place.discounted i
  rw [empty, List.length_nil] at count
  omega

variable [Fintype ι] {i : ι} {q' : Queue α} {p' : Place α} {event : Event α}

theorem enqueue_advances (sound : Sound m rest) (fresh : Place.Fresh m.shared (m.place i))
    (step : EnqueueStep m.shared (m.place i) event q' p') (unreturned : p' ≠ .idle) :
    (attempts α).Advances m.shared (m.place i) q' p' := by
  have facts := sound.shape.facts i
  have swing {tempRear : Word} {pNext : Node} {p' : Place α} :=
    @swing_advances _ _ _ _ tempRear pNext i p' sound.shape
  generalize m.place i = p at step fresh facts swing ⊢
  cases step with
  | call data => exact .read _ (Nat.le_refl 2) (Nat.lt_succ_self 9) fun _ => trivial
  | alloc data free =>
    exact calm_advances rfl rfl (le_refl _) (fun _ none => none) (Nat.le_refl 2)
      (Nat.lt_succ_self 8) trivial
  | setData data n =>
    exact calm_advances rfl rfl (le_refl _) (fun _ none => none) (Nat.le_refl 2)
      (Nat.lt_succ_self 7) trivial
  | setNext data n =>
    refine calm_advances rfl rfl (le_refl _) (fun k none => ?_) (Nat.le_refl 2)
      (Nat.lt_succ_self 6) trivial
    by_cases same : k = n
    · rw [same]
      exact Function.update_self ..
    · exact (Function.update_of_ne same ..).trans none
  | readRear data n => exact .read _ (Nat.le_refl 2) (Nat.lt_succ_self 5) fun _ => rfl
  | readNull data n next => exact .read _ (Nat.le_refl 2) (Nat.lt_succ_self 4) fun _ => next
  | readNext data n next =>
    exact .read _ (Nat.le_refl 2) (show 2 < 5 by decide) fun sure => sure
  | link data n next =>
    have fewer (q : Queue α) : 0 + slack q < 2 + slack m.shared := by
      have le := slack_le q
      omega
    exact .exchange _ (fewer _)
  | linkFails data n next =>
    exact .read _ (Nat.le_refl 2) (Nat.lt_succ_self 3) fun sure => absurd sure next
  | swingNew n same => exact swing (fresh same) facts (Nat.le_refl 0)
  | swingNewFails n other => exact .read _ (Nat.le_refl 0) (Nat.lt_succ_self 1) fun _ => trivial
  | readAgainNull data n next => exact .again _ (Nat.le_refl 2) (fun lost => lost) trivial
  | readAgain data n next => exact .read _ (Nat.le_refl 2) (Nat.lt_succ_self 2) fun lost => lost.elim
  | swing data n pNext same => exact swing (fresh same) facts.2 (Nat.le_refl 2)
  | swingFails data n pNext other =>
    exact .again _ (Nat.le_refl 2) (fun sure => other (sure ▸ ⟨rfl, rfl⟩)) trivial
  | count => exact absurd rfl unreturned

theorem dequeue_advances (sound : Sound m rest) (fresh : Place.Fresh m.shared (m.place i))
    (step : DequeueStep m.shared (m.place i) event q' p') (unreturned : p' ≠ .idle) :
    (attempts α).Advances m.shared (m.place i) q' p' := by
  have facts := sound.shape.facts i
  have swing {tempRear : Word} {pNext : Node} {p' : Place α} :=
    @swing_advances _ _ _ _ tempRear pNext i p' sound.shape
  have counted := counted_out (i := i) sound
  generalize m.place i = p at step fresh facts swing counted ⊢
  cases step with
  | refuse none => exact absurd rfl unreturned
  | call some => exact .read _ (show 1 ≤ 2 by decide) (Nat.lt_succ_self 9) fun _ => trivial
  | discount =>
    exact calm_advances rfl rfl (Int.sub_le_self _ (by decide)) (fun _ none => none) (Nat.le_refl 1)
      (Nat.lt_succ_self 8) trivial
  | readFront => exact .read _ (Nat.le_refl 1) (Nat.lt_succ_self 7) fun _ => rfl
  | readNull next =>
    exact .read _ (Nat.le_refl 1) (show 2 < 7 by decide) fun sure => counted (sure ▸ next) rfl
  | again enough => exact .again _ (Nat.le_refl 1) (not_lt.mpr enough) trivial
  | giveUp few => exact .read _ (Nat.zero_le 1) (Nat.lt_succ_self 1) fun _ => trivial
  | recount => exact absurd rfl unreturned
  | readNext next => exact .read _ (Nat.le_refl 1) (Nat.lt_succ_self 6) fun sure => sure
  | readData tempFront pNext => exact .read _ (Nat.le_refl 1) (Nat.lt_succ_self 5) fun sure => sure
  | unlink pNext data same => exact .exchange _ (Nat.add_lt_add_right Nat.zero_lt_one _)
  | unlinkFails pNext data other =>
    exact .again _ (Nat.le_refl 1) (fun sure => other (sure ▸ ⟨rfl, rfl⟩)) trivial
  | readRear pFront pNext data =>
    exact .read _ (Nat.le_refl 0) (Nat.lt_succ_self 3) fun _ => trivial
  | behind pFront data next => exact .read _ (Nat.le_refl 0) (Nat.lt_succ_self 2) fun _ => trivial
  | notBehind pFront data next =>
    exact .read _ (Nat.le_refl 0) (show 1 < 3 by decide) fun _ => trivial
  | swing pFront pNext data same => exact swing (fresh same) facts.2 (Nat.le_refl 0)
  | swingFails pFront pNext data other =>
    exact .read _ (Nat.le_refl 0) (Nat.lt_succ_self 1) fun _ => trivial
  | free pFront data => exact absurd rfl unreturned

end Steps

/-! ## Runs -/

section Runs
variable {ι : Type*} {α : Type*} [DecidableEq ι] {m m' : Threads ι (Queue α) (Place α)}
  {past later : List (ι × Event α)} {pInitNode : Node} {next : Node → Option Node} {data : Node → α}

instance : DecidablePred fun p : Place α => p ≠ .idle
  | .idle => isFalse fun apart => apart rfl
  | .alloc .. | .setData .. | .setNext .. | .readRear .. | .readNext .. | .link .. | .swingNew ..
  | .readAgain .. | .swing .. | .count | .discount | .readFront | .readFrontNext .. | .checkCount
  | .recount | .readData .. | .unlink .. | .readRearToo .. | .readRearNext .. | .swingToo ..
  | .free .. => isTrue nofun

/-- A step of a call that does not return with it. -/
def Unreturned (m : Threads ι (Queue α) (Place α)) (label : ι × Event α)
    (m' : Threads ι (Queue α) (Place α)) : Prop :=
  Meeting Step Fresh m label m' ∧ m'.place label.1 ≠ .idle

theorem run_sound [Fintype ι] (run : Run (Meeting Step Fresh) (start pInitNode next data) past m) :
    ∃ rest, Sound m rest := by
  have plain : Run Step (start pInitNode next data) past m := run.mono fun _ _ _ taken => taken.1
  obtain ⟨rest, shape, values⟩ := run_holds run
  have counted := run_counts plain
  have length := congrArg List.length values
  simp only [List.length_map, List.length_append] at length
  exact ⟨rest, shape, by omega⟩

theorem unreturned_advances [Fintype ι] {label : ι × Event α} {rest : List Node} (sound : Sound m rest)
    (step : Unreturned m label m') : ∃ i q p, m' = m.move i q p ∧
      (attempts α).Advances m.shared (m.place i) q p := by
  obtain ⟨⟨⟨q, p, taken, rfl⟩, fresh⟩, unreturned⟩ := step
  rw [Threads.place_move_self] at unreturned
  refine ⟨label.1, q, p, rfl, ?_⟩
  cases taken with
  | enqueue step => exact enqueue_advances sound fresh step unreturned
  | dequeue step => exact dequeue_advances sound fresh step unreturned

/-- The pool has a node that nobody has taken. -/
def Spare (q : Queue α) : Prop := ∃ most, ∀ n : Nat, most ≤ n → q.inUse n = false

theorem spare_step {q q' : Queue α} {p p' : Place α} {event : Event α} (spare : Spare q)
    (step : QueueStep q p event q' p') : Spare q' := by
  obtain ⟨most, spare⟩ := spare
  have updated (node : Nat) (used : Bool) : ∃ most, ∀ n : Nat, most ≤ n →
      Function.update q.inUse node used n = false := by
    refine ⟨max most (node + 1), fun n above => ?_⟩
    rw [Function.update_of_ne (Nat.ne_of_gt ((Nat.le_max_right most (node + 1)).trans above))]
    exact spare n ((Nat.le_max_left ..).trans above)
  rcases step with step | step <;> cases step <;> first
    | exact ⟨most, spare⟩
    | exact updated _ _

/-- A thread can take the next step of its call, and begin one. -/
theorem thread_steps {q : Queue α} (spare : Spare q) (p : Place α) :
    ∃ event q' p', QueueStep q p event q' p' := by
  obtain ⟨most, spare⟩ := spare
  cases p with
  | idle =>
    by_cases none : q.nodeCount ≤ 0
    · exact ⟨_, _, _, .dequeue (.refuse none)⟩
    · exact ⟨_, _, _, .dequeue (.call (not_le.mp none))⟩
  | alloc data => exact ⟨_, _, _, .enqueue (.alloc data (spare most (le_refl most)))⟩
  | setData data n => exact ⟨_, _, _, .enqueue (.setData q data n)⟩
  | setNext data n => exact ⟨_, _, _, .enqueue (.setNext q data n)⟩
  | readRear data n => exact ⟨_, _, _, .enqueue (.readRear q data n)⟩
  | readNext data n tempRear =>
    cases next : q.next tempRear.pointer with
    | none => exact ⟨_, _, _, .enqueue (.readNull data n next)⟩
    | some pNext => exact ⟨_, _, _, .enqueue (.readNext data n next)⟩
  | link data n tempRear =>
    by_cases next : q.next tempRear.pointer = none
    · exact ⟨_, _, _, .enqueue (.link data n next)⟩
    · exact ⟨_, _, _, .enqueue (.linkFails data n next)⟩
  | swingNew n tempRear =>
    by_cases same : q.rear.Same tempRear
    · exact ⟨_, _, _, .enqueue (.swingNew n same)⟩
    · exact ⟨_, _, _, .enqueue (.swingNewFails n same)⟩
  | readAgain data n tempRear =>
    cases next : q.next tempRear.pointer with
    | none => exact ⟨_, _, _, .enqueue (.readAgainNull data n next)⟩
    | some pNext => exact ⟨_, _, _, .enqueue (.readAgain data n next)⟩
  | swing data n tempRear pNext =>
    by_cases same : q.rear.Same tempRear
    · exact ⟨_, _, _, .enqueue (.swing data n pNext same)⟩
    · exact ⟨_, _, _, .enqueue (.swingFails data n pNext same)⟩
  | count => exact ⟨_, _, _, .enqueue (.count q)⟩
  | discount => exact ⟨_, _, _, .dequeue (.discount q)⟩
  | readFront => exact ⟨_, _, _, .dequeue (.readFront q)⟩
  | readFrontNext tempFront =>
    cases next : q.next tempFront.pointer with
    | none => exact ⟨_, _, _, .dequeue (.readNull next)⟩
    | some pNext => exact ⟨_, _, _, .dequeue (.readNext next)⟩
  | checkCount =>
    by_cases few : q.nodeCount < 0
    · exact ⟨_, _, _, .dequeue (.giveUp few)⟩
    · exact ⟨_, _, _, .dequeue (.again (not_lt.mp few))⟩
  | recount => exact ⟨_, _, _, .dequeue (.recount q)⟩
  | readData tempFront pNext => exact ⟨_, _, _, .dequeue (.readData q tempFront pNext)⟩
  | unlink tempFront pNext data =>
    by_cases same : q.front.Same tempFront
    · exact ⟨_, _, _, .dequeue (.unlink pNext data same)⟩
    · exact ⟨_, _, _, .dequeue (.unlinkFails pNext data same)⟩
  | readRearToo pFront pNext data => exact ⟨_, _, _, .dequeue (.readRear q pFront pNext data)⟩
  | readRearNext pFront pNext data tempRear =>
    by_cases next : q.next tempRear.pointer = some pNext
    · exact ⟨_, _, _, .dequeue (.behind pFront data next)⟩
    · exact ⟨_, _, _, .dequeue (.notBehind pFront data next)⟩
  | swingToo pFront pNext data tempRear =>
    by_cases same : q.rear.Same tempRear
    · exact ⟨_, _, _, .dequeue (.swing pFront pNext data same)⟩
    · exact ⟨_, _, _, .dequeue (.swingFails pFront pNext data same)⟩
  | free pFront data => exact ⟨_, _, _, .dequeue (.free q pFront data)⟩

theorem run_spare (run : Run Step (start pInitNode next data) past m) : Spare m.shared := by
  refine run.invariant (P := fun m => Spare m.shared) ?_ ⟨pInitNode + 1, fun n above => ?_⟩
  · rintro m label m' spare ⟨q, p, step, rfl⟩
    exact spare_step spare step
  · show Function.update (fun _ => false) pInitNode true n = false
    rw [Function.update_of_ne (Nat.ne_of_gt above)]

/-- In the runs whose exchanges are of what was read, a call returns before
`(2 n + 2) (21 n + 1)` steps of `n` threads have gone by, and none of them has to wait. -/
theorem some_call_returns [Fintype ι]
    (reached : Run (Meeting Step Fresh) (start pInitNode next data) past m)
    (run : Run Unreturned m later m') :
    later.length < (2 * Fintype.card ι + 2) * (21 * Fintype.card ι + 1) ∧
      ∀ i, ∃ event m'', Step m' (i, event) m'' := by
  have ran : ∃ past, Run (Meeting Step Fresh) (start pInitNode next data) past m' :=
    run.invariant (P := fun m => ∃ past, Run (Meeting Step Fresh) (start pInitNode next data) past m)
      (fun _ _ _ ⟨past, reached⟩ step => ⟨_, reached.append (.single step.1)⟩) ⟨past, reached⟩
  constructor
  · have exchanges : (attempts α).exchanges m ≤ 2 * Fintype.card ι + 1 := by
      have total := m.total_le_card ahead ahead_le
      have slack := slack_le m.shared
      show m.total ahead + QueueProgress.slack m.shared ≤ 2 * Fintype.card ι + 1
      omega
    have length := (attempts α).run_length_lt (fun m => m)
      (fun m => ∃ past, Run (Meeting Step Fresh) (start pInitNode next data) past m)
      (fun _ _ _ ⟨past, reached⟩ step => ⟨_, reached.append (.single step.1)⟩)
      (fun m _ _ ⟨past, reached⟩ step => by
        obtain ⟨rest, sound⟩ := run_sound reached
        exact unreturned_advances sound step) run ⟨past, reached⟩ exchanges
    rwa [Nat.mul_comm 21]
  · obtain ⟨all, ran⟩ := ran
    intro i
    obtain ⟨event, q, p, step⟩ := thread_steps (run_spare (ran.mono fun _ _ _ taken => taken.1))
      (m'.place i)
    exact ⟨event, _, q, p, step, rfl⟩

/-- A turn that does not return. -/
def goOn (m : Threads ι (Queue α) (Place α)) (choice : ι × Choice α) :
    Option ((ι × Event α) × Threads ι (Queue α) (Place α)) :=
  (guarded Fresh turn m choice).filter fun after => decide (after.2.place after.1.1 ≠ .idle)

theorem goOn_unreturned {label : ι × Event α} {choice : ι × Choice α}
    (gone : goOn m choice = some (label, m')) : Unreturned m label m' := by
  obtain ⟨taken, apart⟩ := Option.filter_eq_some_iff.mp gone
  exact ⟨guarded_sound (fun _ _ _ _ => turn_step) m choice label m' taken, of_decide_eq_true apart⟩

end Runs

/-- The other thread links its node before this one, which moves `rear` on and links its own
behind. -/
def contended : List (Bool × Choice Nat) :=
  .flatten [[(true, .enqueue 1), (true, .node 1)], .replicate 4 (true, .go),
    [(false, .enqueue 2), (false, .node 2)], .replicate 5 (false, .go),
    .replicate 7 (true, .go), [(false, .go)]]

theorem contended_call_returns :
    ∃ labels m, labels.length = 21 ∧
      Run Unreturned (start 0 (fun _ => none) (fun _ => 0) : Threads Bool (Queue Nat) (Place Nat))
        labels m ∧
      labels.length < (2 * Fintype.card Bool + 2) * (21 * Fintype.card Bool + 1) ∧
      ∀ i, ∃ event m', Step m (i, event) m' := by
  let begins : Threads Bool (Queue Nat) (Place Nat) := start 0 (fun _ => none) fun _ => 0
  obtain ⟨⟨labels, m⟩, replayed⟩ : ∃ after, replay goOn begins contended = some after :=
    Option.isSome_iff_exists.mp (by decide +kernel)
  have length : (replay goOn begins contended).map (fun after => after.1.length) = some 21 := by
    decide +kernel
  rw [replayed] at length
  have run := replay_run (fun _ _ _ _ => goOn_unreturned) replayed
  exact ⟨labels, m, Option.some.inj length, run, some_call_returns (.nil begins) run⟩

end NewNameAuction.QueueProgress
