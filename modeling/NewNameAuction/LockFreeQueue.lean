import NewNameAuction.Interleaving
import NewNameAuction.NodeChain
import NewNameAuction.Runs

/-! `LockFreeQueue`: each read, write and interlocked operation of `Enqueue` and
`Dequeue` is one step of some thread. Here is what the threads do, and what follows of
the values they carry whatever the list of nodes looks like. -/
namespace NewNameAuction.LockFreeQueue

/-- The address of a node. -/
abbrev Node := Nat

/-- A word `front` or `rear`. `version` counts the exchanges of the word; the word itself
holds its low 16 bits as a stamp. -/
structure Word where
  pointer : Node
  version : Nat
  deriving DecidableEq

/-- The comparison of an interlocked exchange sees the pointer and the stamp. -/
def Word.Same (word other : Word) : Prop :=
  word.pointer = other.pointer ∧ word.version % 2 ^ 16 = other.version % 2 ^ 16

instance (word other : Word) : Decidable (word.Same other) := inferInstanceAs (Decidable (_ ∧ _))

/-- The word after an exchange: another node, and the next stamp. -/
def Word.moved (tempWord : Word) (pointer : Node) : Word := ⟨pointer, tempWord.version + 1⟩

/-- `inUse` are the nodes `NodePool` has handed out and not got back. -/
structure Queue (α : Type*) where
  front : Word
  rear : Word
  nodeCount : Int
  next : Node → Option Node
  data : Node → α
  inUse : Node → Bool

/-- The constructor takes a node of the pool and ends the list with it. -/
def Queue.create {α : Type*} (pInitNode : Node) (next : Node → Option Node) (data : Node → α) :
    Queue α where
  front := ⟨pInitNode, 0⟩
  rear := ⟨pInitNode, 0⟩
  nodeCount := 0
  next := Function.update next pInitNode none
  data := data
  inUse := Function.update (fun _ => false) pInitNode true

inductive Event (α : Type*)
  | other
  /-- `Enqueue` is called, its node linked, and it returns. -/
  | given (data : α)
  | linked (data : α)
  | stored
  /-- `Dequeue` is called, its exchange of `front` succeeds, and it returns. -/
  | asked
  | unlinked (data : α)
  | returned (data : α)
  | refused
  deriving DecidableEq

/-- Where a thread stands: before which access of `Enqueue` or `Dequeue`. -/
inductive Place (α : Type*)
  | idle
  | alloc (data : α)
  | setData (data : α) (pNewNode : Node)
  | setNext (data : α) (pNewNode : Node)
  | readRear (data : α) (pNewNode : Node)
  | readNext (data : α) (pNewNode : Node) (tempRear : Word)
  | link (data : α) (pNewNode : Node) (tempRear : Word)
  | swingNew (pNewNode : Node) (tempRear : Word)
  | readAgain (data : α) (pNewNode : Node) (tempRear : Word)
  | swing (data : α) (pNewNode : Node) (tempRear : Word) (pNext : Node)
  | count
  | discount
  | readFront
  | readFrontNext (tempFront : Word)
  | checkCount
  | recount
  | readData (tempFront : Word) (pNext : Node)
  | unlink (tempFront : Word) (pNext : Node) (data : α)
  | readRearToo (pFront pNext : Node) (data : α)
  | readRearNext (pFront pNext : Node) (data : α) (tempRear : Word)
  | swingToo (pFront pNext : Node) (data : α) (tempRear : Word)
  | free (pFront : Node) (data : α)

section Steps
variable {α : Type*}

inductive EnqueueStep : Queue α → Place α → Event α → Queue α → Place α → Prop
  | call (q : Queue α) (data : α) : EnqueueStep q .idle (.given data) q (.alloc data)
  | alloc {q : Queue α} (data : α) {pNewNode : Node} (free : q.inUse pNewNode = false) :
      EnqueueStep q (.alloc data) .other
        { q with inUse := Function.update q.inUse pNewNode true } (.setData data pNewNode)
  | setData (q : Queue α) (data : α) (pNewNode : Node) :
      EnqueueStep q (.setData data pNewNode) .other
        { q with data := Function.update q.data pNewNode data } (.setNext data pNewNode)
  | setNext (q : Queue α) (data : α) (pNewNode : Node) :
      EnqueueStep q (.setNext data pNewNode) .other
        { q with next := Function.update q.next pNewNode none } (.readRear data pNewNode)
  | readRear (q : Queue α) (data : α) (pNewNode : Node) :
      EnqueueStep q (.readRear data pNewNode) .other q (.readNext data pNewNode q.rear)
  | readNull {q : Queue α} (data : α) (pNewNode : Node) {tempRear : Word}
      (next : q.next tempRear.pointer = none) :
      EnqueueStep q (.readNext data pNewNode tempRear) .other q (.link data pNewNode tempRear)
  | readNext {q : Queue α} (data : α) (pNewNode : Node) {tempRear : Word} {pNext : Node}
      (next : q.next tempRear.pointer = some pNext) :
      EnqueueStep q (.readNext data pNewNode tempRear) .other q (.swing data pNewNode tempRear pNext)
  | link {q : Queue α} (data : α) (pNewNode : Node) {tempRear : Word}
      (next : q.next tempRear.pointer = none) :
      EnqueueStep q (.link data pNewNode tempRear) (.linked data)
        { q with next := Function.update q.next tempRear.pointer (some pNewNode) }
        (.swingNew pNewNode tempRear)
  | linkFails {q : Queue α} (data : α) (pNewNode : Node) {tempRear : Word}
      (next : q.next tempRear.pointer ≠ none) :
      EnqueueStep q (.link data pNewNode tempRear) .other q (.readAgain data pNewNode tempRear)
  | swingNew {q : Queue α} (pNewNode : Node) {tempRear : Word} (same : q.rear.Same tempRear) :
      EnqueueStep q (.swingNew pNewNode tempRear) .other
        { q with rear := tempRear.moved pNewNode } .count
  | swingNewFails {q : Queue α} (pNewNode : Node) {tempRear : Word} (other : ¬ q.rear.Same tempRear) :
      EnqueueStep q (.swingNew pNewNode tempRear) .other q .count
  | readAgainNull {q : Queue α} (data : α) (pNewNode : Node) {tempRear : Word}
      (next : q.next tempRear.pointer = none) :
      EnqueueStep q (.readAgain data pNewNode tempRear) .other q (.readRear data pNewNode)
  | readAgain {q : Queue α} (data : α) (pNewNode : Node) {tempRear : Word} {pNext : Node}
      (next : q.next tempRear.pointer = some pNext) :
      EnqueueStep q (.readAgain data pNewNode tempRear) .other q (.swing data pNewNode tempRear pNext)
  | swing {q : Queue α} (data : α) (pNewNode : Node) {tempRear : Word} (pNext : Node)
      (same : q.rear.Same tempRear) :
      EnqueueStep q (.swing data pNewNode tempRear pNext) .other
        { q with rear := tempRear.moved pNext } (.readRear data pNewNode)
  | swingFails {q : Queue α} (data : α) (pNewNode : Node) {tempRear : Word} (pNext : Node)
      (other : ¬ q.rear.Same tempRear) :
      EnqueueStep q (.swing data pNewNode tempRear pNext) .other q (.readRear data pNewNode)
  | count (q : Queue α) :
      EnqueueStep q .count .stored { q with nodeCount := q.nodeCount + 1 } .idle

inductive DequeueStep : Queue α → Place α → Event α → Queue α → Place α → Prop
  | refuse {q : Queue α} (none : q.nodeCount ≤ 0) : DequeueStep q .idle .refused q .idle
  | call {q : Queue α} (some : 0 < q.nodeCount) : DequeueStep q .idle .asked q .discount
  | discount (q : Queue α) :
      DequeueStep q .discount .other { q with nodeCount := q.nodeCount - 1 } .readFront
  | readFront (q : Queue α) : DequeueStep q .readFront .other q (.readFrontNext q.front)
  | readNull {q : Queue α} {tempFront : Word} (next : q.next tempFront.pointer = none) :
      DequeueStep q (.readFrontNext tempFront) .other q .checkCount
  | again {q : Queue α} (enough : 0 ≤ q.nodeCount) : DequeueStep q .checkCount .other q .readFront
  | giveUp {q : Queue α} (few : q.nodeCount < 0) : DequeueStep q .checkCount .other q .recount
  | recount (q : Queue α) :
      DequeueStep q .recount .refused { q with nodeCount := q.nodeCount + 1 } .idle
  | readNext {q : Queue α} {tempFront : Word} {pNext : Node}
      (next : q.next tempFront.pointer = some pNext) :
      DequeueStep q (.readFrontNext tempFront) .other q (.readData tempFront pNext)
  | readData (q : Queue α) (tempFront : Word) (pNext : Node) :
      DequeueStep q (.readData tempFront pNext) .other q (.unlink tempFront pNext (q.data pNext))
  | unlink {q : Queue α} {tempFront : Word} (pNext : Node) (data : α)
      (same : q.front.Same tempFront) :
      DequeueStep q (.unlink tempFront pNext data) (.unlinked data)
        { q with front := tempFront.moved pNext } (.readRearToo tempFront.pointer pNext data)
  | unlinkFails {q : Queue α} {tempFront : Word} (pNext : Node) (data : α)
      (other : ¬ q.front.Same tempFront) :
      DequeueStep q (.unlink tempFront pNext data) .other q .readFront
  | readRear (q : Queue α) (pFront pNext : Node) (data : α) :
      DequeueStep q (.readRearToo pFront pNext data) .other q (.readRearNext pFront pNext data q.rear)
  | behind {q : Queue α} (pFront : Node) {pNext : Node} (data : α) {tempRear : Word}
      (next : q.next tempRear.pointer = some pNext) :
      DequeueStep q (.readRearNext pFront pNext data tempRear) .other q
        (.swingToo pFront pNext data tempRear)
  | notBehind {q : Queue α} (pFront : Node) {pNext : Node} (data : α) {tempRear : Word}
      (next : q.next tempRear.pointer ≠ some pNext) :
      DequeueStep q (.readRearNext pFront pNext data tempRear) .other q (.free pFront data)
  | swing {q : Queue α} (pFront pNext : Node) (data : α) {tempRear : Word}
      (same : q.rear.Same tempRear) :
      DequeueStep q (.swingToo pFront pNext data tempRear) .other
        { q with rear := tempRear.moved pNext } (.free pFront data)
  | swingFails {q : Queue α} (pFront pNext : Node) (data : α) {tempRear : Word}
      (other : ¬ q.rear.Same tempRear) :
      DequeueStep q (.swingToo pFront pNext data tempRear) .other q (.free pFront data)
  | free (q : Queue α) (pFront : Node) (data : α) :
      DequeueStep q (.free pFront data) (.returned data)
        { q with inUse := Function.update q.inUse pFront false } .idle

inductive QueueStep (q : Queue α) (p : Place α) (event : Event α) (q' : Queue α) (p' : Place α) : Prop
  | enqueue (step : EnqueueStep q p event q' p')
  | dequeue (step : DequeueStep q p event q' p')

end Steps

section System
variable {ι : Type*} {α : Type*} [DecidableEq ι]

/-- A thread takes a step. The label says which thread, and what it has done. -/
def Step (m : Threads ι (Queue α) (Place α)) (label : ι × Event α)
    (m' : Threads ι (Queue α) (Place α)) : Prop :=
  ∃ q p, QueueStep m.shared (m.place label.1) label.2 q p ∧ m' = m.move label.1 q p

def start (pInitNode : Node) (next : Node → Option Node) (data : Node → α) :
    Threads ι (Queue α) (Place α) :=
  ⟨.create pInitNode next data, fun _ => .idle⟩

end System

/-! ## The values on their way -/

namespace Event
variable {α : Type*}

def givenData : Event α → List α
  | .given data => [data]
  | _ => []

def linkedData : Event α → List α
  | .linked data => [data]
  | _ => []

def unlinkedData : Event α → List α
  | .unlinked data => [data]
  | _ => []

def returnedData : Event α → List α
  | .returned data => [data]
  | _ => []

end Event

namespace Place
variable {α : Type*}

/-- The value that `Enqueue` has been given and has not linked. -/
def giving : Place α → List α
  | .alloc data => [data]
  | .setData data _ => [data]
  | .setNext data _ => [data]
  | .readRear data _ => [data]
  | .readNext data _ _ => [data]
  | .link data _ _ => [data]
  | .readAgain data _ _ => [data]
  | .swing data _ _ _ => [data]
  | _ => []

/-- The value that `Dequeue` has unlinked and has not returned. -/
def taking : Place α → List α
  | .readRearToo _ _ data => [data]
  | .readRearNext _ _ data _ => [data]
  | .swingToo _ _ data _ => [data]
  | .free _ data => [data]
  | _ => []

/-- Linked, and not counted yet. -/
def uncounted : Place α → Nat
  | .swingNew _ _ => 1
  | .count => 1
  | _ => 0

/-- Counted out, and not unlinked. -/
def discounted : Place α → Nat
  | .readFront => 1
  | .readFrontNext _ => 1
  | .checkCount => 1
  | .recount => 1
  | .readData _ _ => 1
  | .unlink _ _ _ => 1
  | _ => 0

/-- A thread in `Dequeue`. -/
def dequeues : Place α → Bool
  | .discount => true
  | .readFront => true
  | .readFrontNext _ => true
  | .checkCount => true
  | .recount => true
  | .readData _ _ => true
  | .unlink _ _ _ => true
  | .readRearToo _ _ _ => true
  | .readRearNext _ _ _ _ => true
  | .swingToo _ _ _ _ => true
  | .free _ _ => true
  | _ => false

end Place

section Bookkeeping
variable {α : Type*} {q q' : Queue α} {p p' : Place α} {event : Event α}

/-- What a thread has in hand changes by what the step takes in and gives out. -/
theorem giving_step (step : QueueStep q p event q' p') :
    p.giving ++ event.givenData = event.linkedData ++ p'.giving := by
  rcases step with step | step <;> cases step <;> rfl

theorem taking_step (step : QueueStep q p event q' p') :
    p.taking ++ event.unlinkedData = event.returnedData ++ p'.taking := by
  rcases step with step | step <;> cases step <;> rfl

theorem count_step (step : QueueStep q p event q' p') :
    q'.nodeCount + p'.uncounted + p'.discounted + event.unlinkedData.length =
      q.nodeCount + p.uncounted + p.discounted + event.linkedData.length := by
  rcases step with step | step <;> cases step <;>
    simp [Place.uncounted, Place.discounted, Event.unlinkedData, Event.linkedData]

/-- A thread gets into `Dequeue` by calling it. -/
theorem dequeues_step (step : QueueStep q p event q' p') (inside : p'.dequeues = true) :
    event = .asked ∨ p.dequeues = true := by
  rcases step with step | step <;> cases step <;> simp_all [Place.dequeues]

theorem unlinks_step (step : QueueStep q p event q' p')
    (taken : event.unlinkedData ≠ [] ∨ event.returnedData ≠ []) : p.dequeues = true := by
  rcases step with step | step <;> cases step <;>
    simp_all [Place.dequeues, Event.unlinkedData, Event.returnedData]

end Bookkeeping

/-! ## Taking the steps -/

section Advance
variable {ι : Type*} {α : Type*} {q q' : Queue α} {p p' : Place α} {event : Event α}

/-- What the steps leave open: what an idle thread calls, and the node the pool has. -/
inductive Choice (α : Type*)
  | enqueue (data : α)
  | dequeue
  | node (pNewNode : Node)
  | go

/-- The step of a thread, once the choice is made. -/
def advance (q : Queue α) : Place α → Choice α → Option (Event α × Queue α × Place α)
  | .idle, .enqueue data => some (.given data, q, .alloc data)
  | .idle, .dequeue => if q.nodeCount ≤ 0 then some (.refused, q, .idle) else some (.asked, q, .discount)
  | .alloc data, .node n => if q.inUse n = false then
      some (.other, { q with inUse := Function.update q.inUse n true }, .setData data n) else none
  | .setData data n, .go =>
      some (.other, { q with data := Function.update q.data n data }, .setNext data n)
  | .setNext data n, .go =>
      some (.other, { q with next := Function.update q.next n none }, .readRear data n)
  | .readRear data n, .go => some (.other, q, .readNext data n q.rear)
  | .readNext data n tempRear, .go => match q.next tempRear.pointer with
    | none => some (.other, q, .link data n tempRear)
    | some pNext => some (.other, q, .swing data n tempRear pNext)
  | .link data n tempRear, .go => if q.next tempRear.pointer = none then
      some (.linked data, { q with next := Function.update q.next tempRear.pointer (some n) },
        .swingNew n tempRear) else some (.other, q, .readAgain data n tempRear)
  | .swingNew n tempRear, .go => if q.rear.Same tempRear then
      some (.other, { q with rear := tempRear.moved n }, .count) else some (.other, q, .count)
  | .readAgain data n tempRear, .go => match q.next tempRear.pointer with
    | none => some (.other, q, .readRear data n)
    | some pNext => some (.other, q, .swing data n tempRear pNext)
  | .swing data n tempRear pNext, .go => if q.rear.Same tempRear then
      some (.other, { q with rear := tempRear.moved pNext }, .readRear data n)
      else some (.other, q, .readRear data n)
  | .count, .go => some (.stored, { q with nodeCount := q.nodeCount + 1 }, .idle)
  | .discount, .go => some (.other, { q with nodeCount := q.nodeCount - 1 }, .readFront)
  | .readFront, .go => some (.other, q, .readFrontNext q.front)
  | .readFrontNext tempFront, .go => match q.next tempFront.pointer with
    | none => some (.other, q, .checkCount)
    | some pNext => some (.other, q, .readData tempFront pNext)
  | .checkCount, .go =>
    if q.nodeCount < 0 then some (.other, q, .recount) else some (.other, q, .readFront)
  | .recount, .go => some (.refused, { q with nodeCount := q.nodeCount + 1 }, .idle)
  | .readData tempFront pNext, .go => some (.other, q, .unlink tempFront pNext (q.data pNext))
  | .unlink tempFront pNext data, .go => if q.front.Same tempFront then
      some (.unlinked data, { q with front := tempFront.moved pNext },
        .readRearToo tempFront.pointer pNext data) else some (.other, q, .readFront)
  | .readRearToo pFront pNext data, .go => some (.other, q, .readRearNext pFront pNext data q.rear)
  | .readRearNext pFront pNext data tempRear, .go => if q.next tempRear.pointer = some pNext then
      some (.other, q, .swingToo pFront pNext data tempRear) else some (.other, q, .free pFront data)
  | .swingToo pFront pNext data tempRear, .go => if q.rear.Same tempRear then
      some (.other, { q with rear := tempRear.moved pNext }, .free pFront data)
      else some (.other, q, .free pFront data)
  | .free pFront data, .go =>
      some (.returned data, { q with inUse := Function.update q.inUse pFront false }, .idle)
  | _, _ => none

theorem advance_step {choice : Choice α} (advanced : advance q p choice = some (event, q', p')) :
    QueueStep q p event q' p' := by
  revert advanced
  fun_cases advance q p choice <;> intro advanced <;> cases advanced
  all_goals first
    | exact .enqueue (by constructor <;> assumption)
    | exact .dequeue (by constructor <;> first | assumption | omega)

variable [DecidableEq ι]

/-- A thread is chosen, and what it does if that is open. -/
def turn (m : Threads ι (Queue α) (Place α)) (choice : ι × Choice α) :
    Option ((ι × Event α) × Threads ι (Queue α) (Place α)) :=
  (advance m.shared (m.place choice.1) choice.2).map fun after =>
    ((choice.1, after.1), m.move choice.1 after.2.1 after.2.2)

theorem turn_step {m m' : Threads ι (Queue α) (Place α)} {choice : ι × Choice α}
    {label : ι × Event α} (turned : turn m choice = some (label, m')) : Step m label m' := by
  obtain ⟨⟨event, q, p⟩, advanced, same⟩ := Option.map_eq_some_iff.mp turned
  obtain ⟨rfl, rfl⟩ := Prod.mk.inj same
  exact ⟨q, p, advance_step advanced, rfl⟩

end Advance

end NewNameAuction.LockFreeQueue
