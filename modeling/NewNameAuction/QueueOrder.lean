import NewNameAuction.LockFreeQueue
import Mathlib.Data.List.Count

/-! The order `LockFreeQueue` keeps. As long as a node is linked behind the node `rear`
points to, and no exchange takes a stamp for the one it read before the word came round,
the list from `front` is the queue of the values linked and not yet unlinked. A node
linked to a `next` that was recycled meanwhile breaks the order of its producer. -/
namespace NewNameAuction.QueueOrder
open LockFreeQueue

/-! ## Exchanges of what was read -/

namespace Place
variable {α : Type*}

/-- A successful exchange of `next` is one of the node `rear` points to, and a successful
exchange of `front` or `rear` one of the very word that was read. -/
def Fresh (q : Queue α) : Place α → Prop
  | .link _ _ tempRear => q.next tempRear.pointer = none → q.rear.pointer = tempRear.pointer
  | .swingNew _ tempRear => q.rear.Same tempRear → q.rear = tempRear
  | .swing _ _ tempRear _ => q.rear.Same tempRear → q.rear = tempRear
  | .unlink tempFront _ _ => q.front.Same tempFront → q.front = tempFront
  | .swingToo _ _ _ tempRear => q.rear.Same tempRear → q.rear = tempRear
  | _ => True

instance (q : Queue α) : DecidablePred (Fresh q)
  | .link .. | .swingNew .. | .swing .. | .unlink .. | .swingToo .. =>
    inferInstanceAs (Decidable (_ → _))
  | .idle | .alloc .. | .setData .. | .setNext .. | .readRear .. | .readNext .. | .readAgain ..
  | .count | .discount | .readFront | .readFrontNext .. | .checkCount | .recount | .readData ..
  | .readRearToo .. | .readRearNext .. | .free .. => isTrue trivial

/-- The node that only this thread holds: not linked yet, or unlinked and not freed. -/
def node : Place α → Option Node
  | .setData _ pNewNode => some pNewNode
  | .setNext _ pNewNode => some pNewNode
  | .readRear _ pNewNode => some pNewNode
  | .readNext _ pNewNode _ => some pNewNode
  | .link _ pNewNode _ => some pNewNode
  | .readAgain _ pNewNode _ => some pNewNode
  | .swing _ pNewNode _ _ => some pNewNode
  | .readRearToo pFront _ _ => some pFront
  | .readRearNext pFront _ _ _ => some pFront
  | .swingToo pFront _ _ _ => some pFront
  | .free pFront _ => some pFront
  | _ => none

/-- An unlinked node that `rear` may still point to. -/
def retired : Place α → Option Node
  | .readRearToo pFront _ _ => some pFront
  | .readRearNext pFront _ _ _ => some pFront
  | .swingToo pFront _ _ _ => some pFront
  | _ => none

/-- A node ready to be linked. -/
def Ready (q : Queue α) (data : α) (pNewNode : Node) : Prop :=
  q.data pNewNode = data ∧ q.next pNewNode = none

/-- `pNext` comes behind what `rear` points to, if `rear` is still what was read. -/
def Behind (q : Queue α) (tempRear : Word) (pNext : Node) : Prop :=
  tempRear.version ≤ q.rear.version ∧ (q.rear = tempRear → q.next q.rear.pointer = some pNext)

/-- What a thread may rely on. -/
def Facts (q : Queue α) : Place α → Prop
  | .setNext data pNewNode => q.data pNewNode = data
  | .readRear data pNewNode => Ready q data pNewNode
  | .readNext data pNewNode tempRear => Ready q data pNewNode ∧ tempRear.version ≤ q.rear.version
  | .link data pNewNode tempRear => Ready q data pNewNode ∧ tempRear.version ≤ q.rear.version
  | .readAgain data pNewNode tempRear => Ready q data pNewNode ∧ tempRear.version ≤ q.rear.version
  | .swingNew pNewNode tempRear => Behind q tempRear pNewNode
  | .swing data pNewNode tempRear pNext => Ready q data pNewNode ∧ Behind q tempRear pNext
  | .readFrontNext tempFront => tempFront.version ≤ q.front.version
  | .readData tempFront pNext => tempFront.version ≤ q.front.version ∧
    (q.front = tempFront → q.next q.front.pointer = some pNext)
  | .unlink tempFront pNext data => tempFront.version ≤ q.front.version ∧
    (q.front = tempFront → q.next q.front.pointer = some pNext ∧ q.data pNext = data)
  | .readRearToo pFront pNext _ => q.next pFront = some pNext
  | .readRearNext pFront pNext _ tempRear => q.next pFront = some pNext ∧
    tempRear.version ≤ q.rear.version ∧ (q.rear.pointer = pFront → q.rear = tempRear)
  | .swingToo pFront pNext _ tempRear =>
    (q.rear.pointer = pFront → q.rear = tempRear) ∧ Behind q tempRear pNext
  | .free pFront _ => q.rear.pointer ≠ pFront
  | _ => True

theorem retired_node {p : Place α} {n : Node} (retired : Place.retired p = some n) :
    Place.node p = some n := by
  cases p <;> first | exact retired | cases retired

end Place

section Facts
variable {α : Type*} {q q' : Queue α} {p : Place α}

/-- How the queue may change under a thread without its taking notice. -/
structure Calm (q q' : Queue α) (p : Place α) : Prop where
  own : ∀ n, Place.node p = some n → q'.data n = q.data n ∧ q'.next n = q.next n
  rear : q'.rear = q.rear ∨
    (q'.rear.version = q.rear.version + 1 ∧ Place.node p ≠ some q'.rear.pointer)
  front : q'.front = q.front ∨ q'.front.version = q.front.version + 1
  nexts : ∀ n k, (n = q.rear.pointer ∨ n = q.front.pointer) → q.next n = some k → q'.next n = some k
  datas : ∀ k, q.next q.front.pointer = some k → q'.data k = q.data k

theorem Calm.ready (calm : Calm q q' p) {data : α} {n : Node} (own : Place.node p = some n)
    (ready : Place.Ready q data n) : Place.Ready q' data n :=
  ⟨(calm.own n own).1.trans ready.1, (calm.own n own).2.trans ready.2⟩

theorem Calm.rear_version (calm : Calm q q' p) : q.rear.version ≤ q'.rear.version := by
  rcases calm.rear with same | later
  · rw [same]
  · omega

theorem Calm.front_version (calm : Calm q q' p) : q.front.version ≤ q'.front.version := by
  rcases calm.front with same | later
  · rw [same]
  · omega

/-- A word that was read earlier and is still there has not been exchanged. -/
theorem Calm.rear_same (calm : Calm q q' p) {tempRear : Word}
    (read : tempRear.version ≤ q.rear.version) (still : q'.rear = tempRear) : q'.rear = q.rear := by
  rcases calm.rear with same | later
  · exact same
  · rw [still] at later
    omega

theorem Calm.front_same (calm : Calm q q' p) {tempFront : Word}
    (read : tempFront.version ≤ q.front.version) (still : q'.front = tempFront) :
    q'.front = q.front := by
  rcases calm.front with same | later
  · exact same
  · rw [still] at later
    omega

theorem Calm.behind (calm : Calm q q' p) {tempRear : Word} {pNext : Node}
    (behind : Place.Behind q tempRear pNext) : Place.Behind q' tempRear pNext := by
  refine ⟨behind.1.trans calm.rear_version, fun still => ?_⟩
  have same := calm.rear_same behind.1 still
  rw [same]
  exact calm.nexts _ _ (.inl rfl) (behind.2 (same ▸ still))

theorem Calm.rear_own (calm : Calm q q' p) {tempRear : Word} {pFront : Node}
    (own : Place.node p = some pFront) (known : q.rear.pointer = pFront → q.rear = tempRear) :
    q'.rear.pointer = pFront → q'.rear = tempRear := by
  intro there
  rcases calm.rear with same | later
  · rw [same] at there ⊢
    exact known there
  · exact absurd (own.trans (congrArg some there.symm)) later.2

theorem facts_calm (facts : Place.Facts q p) (calm : Calm q q' p) : Place.Facts q' p := by
  have rear := calm.rear_version
  have front := calm.front_version
  cases p with
  | setNext data n => exact (calm.own n rfl).1.trans facts
  | readRear data n => exact calm.ready rfl facts
  | readNext data n tempRear => exact ⟨calm.ready rfl facts.1, facts.2.trans rear⟩
  | link data n tempRear => exact ⟨calm.ready rfl facts.1, facts.2.trans rear⟩
  | readAgain data n tempRear => exact ⟨calm.ready rfl facts.1, facts.2.trans rear⟩
  | swingNew n tempRear => exact calm.behind facts
  | swing data n tempRear pNext => exact ⟨calm.ready rfl facts.1, calm.behind facts.2⟩
  | readFrontNext tempFront => exact facts.trans front
  | readData tempFront pNext =>
    refine ⟨facts.1.trans front, fun still => ?_⟩
    have same := calm.front_same facts.1 still
    rw [same]
    exact calm.nexts _ _ (.inr rfl) (facts.2 (same ▸ still))
  | unlink tempFront pNext data =>
    refine ⟨facts.1.trans front, fun still => ?_⟩
    have same := calm.front_same facts.1 still
    obtain ⟨next, value⟩ := facts.2 (same ▸ still)
    rw [same]
    exact ⟨calm.nexts _ _ (.inr rfl) next, (calm.datas _ next).trans value⟩
  | readRearToo pFront pNext data => exact (calm.own pFront rfl).2.trans facts
  | readRearNext pFront pNext data tempRear =>
    exact ⟨(calm.own pFront rfl).2.trans facts.1, facts.2.1.trans rear,
      calm.rear_own rfl facts.2.2⟩
  | swingToo pFront pNext data tempRear => exact ⟨calm.rear_own rfl facts.1, calm.behind facts.2⟩
  | free pFront data =>
    intro there
    rcases calm.rear with same | later
    · rw [same] at there
      exact facts there
    · exact later.2 (congrArg some there.symm)
  | idle | alloc _ | setData _ _ | count | discount | readFront | checkCount | recount => trivial

end Facts

/-! ## The list -/

section Shape
variable {ι : Type*} {α : Type*} {m : Threads ι (Queue α) (Place α)} {rest : List Node}

/-- The last node of the list from `front`. -/
def last (m : Threads ι (Queue α) (Place α)) (rest : List Node) : Node :=
  (m.shared.front.pointer :: rest).getLast (List.cons_ne_nil _ _)

/-- `rest` are the nodes behind the one `front` points to. `rear` points to the last node
or to the one before it, which a thread may have unlinked already. -/
structure Shape (m : Threads ι (Queue α) (Place α)) (rest : List Node) : Prop where
  chain : Chain m.shared.next (some m.shared.front.pointer) (m.shared.front.pointer :: rest)
  linked : ∀ n ∈ m.shared.front.pointer :: rest, m.shared.inUse n = true
  held : ∀ i n, Place.node (m.place i) = some n →
    m.shared.inUse n = true ∧ n ∉ m.shared.front.pointer :: rest
  apart : ∀ i j n, Place.node (m.place i) = some n → Place.node (m.place j) = some n → i = j
  rear : m.shared.rear.pointer = last m rest ∨
    (m.shared.next m.shared.rear.pointer = some (last m rest) ∧
      (m.shared.rear.pointer ∈ m.shared.front.pointer :: rest ∨
        ∃ i, Place.retired (m.place i) = some m.shared.rear.pointer))
  facts : ∀ i, Place.Facts m.shared (m.place i)

theorem last_mem (m : Threads ι (Queue α) (Place α)) (rest : List Node) :
    last m rest ∈ m.shared.front.pointer :: rest := List.getLast_mem _

/-- The list ends with its last node. -/
theorem Shape.last_next (shape : Shape m rest) : m.shared.next (last m rest) = none :=
  shape.chain.getLast_next _

/-- What `rear` points to in the list, or a node unlinked a moment ago. -/
theorem Shape.rear_live (shape : Shape m rest) :
    m.shared.rear.pointer ∈ m.shared.front.pointer :: rest ∨
      ∃ i, Place.retired (m.place i) = some m.shared.rear.pointer := by
  rcases shape.rear with at_ | ⟨_, live⟩
  · exact .inl (at_ ▸ last_mem m rest)
  · exact live

/-- A thread whose own node `rear` points to has just unlinked it. -/
theorem Shape.rear_own (shape : Shape m rest) {i : ι}
    (own : Place.node (m.place i) = some m.shared.rear.pointer) :
    Place.retired (m.place i) = some m.shared.rear.pointer := by
  rcases shape.rear_live with listed | ⟨j, retired⟩
  · exact absurd listed (shape.held i _ own).2
  · rwa [shape.apart i j _ own (Place.retired_node retired)]

/-- Whatever comes behind what `rear` points to is the last node. -/
theorem Shape.behind_last (shape : Shape m rest) {n : Node}
    (next : m.shared.next m.shared.rear.pointer = some n) : n = last m rest := by
  rcases shape.rear with at_ | ⟨known, _⟩
  · rw [at_, shape.last_next] at next
    cases next
  · exact Option.some.inj (next.symm.trans known)

theorem Shape.rear_last (shape : Shape m rest)
    (next : m.shared.next m.shared.rear.pointer = none) : m.shared.rear.pointer = last m rest := by
  rcases shape.rear with at_ | ⟨known, _⟩
  · exact at_
  · rw [next] at known
    cases known

end Shape

/-! ## One step -/

section Step
variable {ι : Type*} {α : Type*} [DecidableEq ι] {m : Threads ι (Queue α) (Place α)}
  {rest rest' : List Node} {i : ι} {q : Queue α} {p : Place α} {event : Event α}

/-- What is to be shown of the queue and of the place the moving thread comes to. -/
structure Moves (m : Threads ι (Queue α) (Place α)) (i : ι) (q : Queue α) (p : Place α)
    (rest : List Node) : Prop where
  chain : Chain q.next (some q.front.pointer) (q.front.pointer :: rest)
  linked : ∀ n ∈ q.front.pointer :: rest, q.inUse n = true
  own : ∀ n, Place.node p = some n → q.inUse n = true ∧ n ∉ q.front.pointer :: rest ∧
    ∀ j, j ≠ i → Place.node (m.place j) ≠ some n
  others : ∀ j, j ≠ i → ∀ n, Place.node (m.place j) = some n →
    q.inUse n = true ∧ n ∉ q.front.pointer :: rest
  rear : q.rear.pointer = (q.front.pointer :: rest).getLast (List.cons_ne_nil _ _) ∨
    (q.next q.rear.pointer = some ((q.front.pointer :: rest).getLast (List.cons_ne_nil _ _)) ∧
      (q.rear.pointer ∈ q.front.pointer :: rest ∨ Place.retired p = some q.rear.pointer ∨
        ∃ j, j ≠ i ∧ Place.retired (m.place j) = some q.rear.pointer))
  facts : Place.Facts q p
  calm : ∀ j, j ≠ i → Calm m.shared q (m.place j)

theorem shape_move (shape : Shape m rest) (moves : Moves m i q p rest') :
    Shape (m.move i q p) rest' where
  chain := moves.chain
  linked := moves.linked
  held := Threads.place_move_all m i (Q := fun p => ∀ n, Place.node p = some n →
    q.inUse n = true ∧ n ∉ q.front.pointer :: rest') _ _
    (fun n own => ⟨(moves.own n own).1, (moves.own n own).2.1⟩) moves.others
  apart := by
    intro j k n own other
    by_cases first : j = i
    · subst first
      rw [Threads.place_move_self] at own
      by_contra apart
      rw [Threads.place_move_other _ _ _ _ (Ne.symm apart)] at other
      exact (moves.own n own).2.2 k (Ne.symm apart) other
    · rw [Threads.place_move_other _ _ _ _ first] at own
      by_cases second : k = i
      · subst second
        rw [Threads.place_move_self] at other
        exact absurd own ((moves.own n other).2.2 j first)
      · rw [Threads.place_move_other _ _ _ _ second] at other
        exact shape.apart j k n own other
  rear := by
    rcases moves.rear with at_ | ⟨next, listed | self | ⟨j, other, retired⟩⟩
    · exact .inl at_
    · exact .inr ⟨next, .inl listed⟩
    · refine .inr ⟨next, .inr ⟨i, ?_⟩⟩
      rwa [Threads.place_move_self]
    · refine .inr ⟨next, .inr ⟨j, ?_⟩⟩
      rwa [Threads.place_move_other _ _ _ _ other]
  facts := Threads.place_move_all m i (Q := Place.Facts q) _ _ moves.facts fun j other =>
    facts_calm (shape.facts j) (moves.calm j other)

/-- A thread that writes at most to its own node, or to `nodeCount`. -/
theorem own_step (shape : Shape m rest) (front : q.front = m.shared.front)
    (rear : q.rear = m.shared.rear) (inUse : q.inUse = m.shared.inUse)
    (others : ∀ n, Place.node (m.place i) ≠ some n →
      q.data n = m.shared.data n ∧ q.next n = m.shared.next n)
    (retired : ∀ n, Place.retired (m.place i) = some n → q.next n = m.shared.next n ∧
      (Place.retired p = some n ∨ q.rear.pointer ≠ n))
    (node : Place.node p = Place.node (m.place i)) (facts : Place.Facts q p) :
    Shape (m.move i q p) rest ∧ rest.map q.data = rest.map m.shared.data := by
  have listed (n : Node) (member : n ∈ m.shared.front.pointer :: rest) :
      Place.node (m.place i) ≠ some n := fun own => (shape.held i n own).2 member
  have rearNext : q.next m.shared.rear.pointer = m.shared.next m.shared.rear.pointer := by
    by_cases own : Place.node (m.place i) = some m.shared.rear.pointer
    · exact (retired _ (shape.rear_own own)).1
    · exact (others _ own).2
  have values : rest.map q.data = rest.map m.shared.data :=
    List.map_congr_left fun n member => (others n (listed n (List.mem_cons_of_mem _ member))).1
  refine ⟨shape_move shape ⟨?_, ?_, ?_, ?_, ?_, facts, ?_⟩, values⟩
  · rw [front]
    exact shape.chain.frame fun n member => (others n (listed n member)).2
  · rw [front, inUse]
    exact shape.linked
  · intro n own
    rw [node] at own
    rw [front, inUse]
    exact ⟨(shape.held i n own).1, (shape.held i n own).2,
      fun j other held => other (shape.apart j i n held own)⟩
  · intro j _ n own
    rw [front, inUse]
    exact shape.held j n own
  · rw [front, rear, rearNext]
    rcases shape.rear with at_ | ⟨next, listed | ⟨j, gone⟩⟩
    · exact .inl at_
    · exact .inr ⟨next, .inl listed⟩
    · refine .inr ⟨next, .inr ?_⟩
      by_cases self : j = i
      · subst self
        rcases (retired _ gone).2 with kept | passed
        · exact .inl kept
        · exact absurd (congrArg Word.pointer rear) passed
      · exact .inr ⟨j, self, gone⟩
  · intro j other
    refine ⟨fun n own => others n fun mine => other (shape.apart j i n own mine), .inl rear,
      .inl front, ?_, ?_⟩
    · rintro n k (rfl | rfl) next
      · rwa [rearNext]
      · rwa [(others _ (listed _ (List.mem_cons_self ..))).2]
    · intro k next
      have member : k ∈ m.shared.front.pointer :: rest := by
        have chain := shape.chain
        cases chain with
        | cons later =>
          rw [next] at later
          cases later
          exact List.mem_cons_of_mem _ (List.mem_cons_self ..)
      exact (others k (listed k member)).1

/-- A successful exchange of `rear` takes it to the last node. -/
theorem swing_step {tempRear : Word} {pNext : Node} (shape : Shape m rest)
    (still : m.shared.rear = tempRear) (behind : Place.Behind m.shared tempRear pNext)
    (moved : q = { m.shared with rear := tempRear.moved pNext })
    (node : Place.node p = Place.node (m.place i) ∨ Place.node p = none)
    (facts : Place.Facts q p) : Shape (m.move i q p) rest := by
  obtain rfl := shape.behind_last (behind.2 still)
  subst moved
  refine shape_move shape ⟨shape.chain, shape.linked, ?_, fun j _ => shape.held j, .inl rfl, facts, ?_⟩
  · intro n own
    rcases node with same | none
    · rw [same] at own
      exact ⟨(shape.held i n own).1, (shape.held i n own).2,
        fun j other held => other (shape.apart j i n held own)⟩
    · rw [none] at own
      cases own
  · intro j _
    refine ⟨fun _ _ => ⟨rfl, rfl⟩, .inr ⟨?_, ?_⟩, .inl rfl, fun _ _ _ next => next, fun _ _ => rfl⟩
    · rw [still]
      rfl
    · exact fun own => (shape.held j _ own).2 (last_mem m rest)

/-- A node from the pool belongs to no one else. -/
theorem alloc_step {data : α} {n : Node} (shape : Shape m rest) (here : m.place i = .alloc data)
    (free : m.shared.inUse n = false)
    (moved : q = { m.shared with inUse := Function.update m.shared.inUse n true }) :
    Shape (m.move i q (.setData data n)) rest := by
  have stays (k : Node) (used : m.shared.inUse k = true) : k ≠ n ∧ q.inUse k = true := by
    have other : k ≠ n := by
      rintro rfl
      rw [free] at used
      cases used
    rw [moved]
    exact ⟨other, (Function.update_of_ne other ..).trans used⟩
  have taken : q.inUse n = true := by
    rw [moved]
    exact Function.update_self ..
  have same : q.front = m.shared.front ∧ q.rear = m.shared.rear ∧ q.next = m.shared.next ∧
      q.data = m.shared.data := by
    rw [moved]
    exact ⟨rfl, rfl, rfl, rfl⟩
  obtain ⟨front, rear, next, datas⟩ := same
  refine shape_move shape ⟨?_, ?_, ?_, ?_, ?_, trivial, ?_⟩
  · rw [front, next]
    exact shape.chain
  · rw [front]
    exact fun k member => (stays k (shape.linked k member)).2
  · intro k own
    obtain rfl : n = k := Option.some.inj own
    rw [front]
    exact ⟨taken, fun member => (stays n (shape.linked n member)).1 rfl,
      fun j _ held => (stays n (shape.held j n held).1).1 rfl⟩
  · intro j _ k own
    rw [front]
    exact ⟨(stays k (shape.held j k own).1).2, (shape.held j k own).2⟩
  · rw [front, rear, next]
    rcases shape.rear with at_ | ⟨next, listed | ⟨j, gone⟩⟩
    · exact .inl at_
    · exact .inr ⟨next, .inl listed⟩
    · refine .inr ⟨next, .inr (.inr ⟨j, ?_, gone⟩)⟩
      rintro rfl
      rw [here] at gone
      cases gone
  · exact fun j _ => ⟨fun k _ => ⟨congrFun datas k, congrFun next k⟩, .inl rear, .inl front,
      fun n k _ old => by rwa [next], fun k _ => congrFun datas k⟩

/-- A node linked behind the last one, which is where `rear` points. -/
theorem link_step {data : α} {n : Node} {tempRear : Word} (shape : Shape m rest)
    (here : m.place i = .link data n tempRear) (null : m.shared.next tempRear.pointer = none)
    (fresh : m.shared.rear.pointer = tempRear.pointer)
    (moved : q = { m.shared with next := Function.update m.shared.next tempRear.pointer (some n) }) :
    Shape (m.move i q (.swingNew n tempRear)) (rest ++ [n]) ∧
      (rest ++ [n]).map q.data = rest.map m.shared.data ++ [data] := by
  have own : Place.node (m.place i) = some n := by rw [here]; rfl
  obtain ⟨used, away⟩ := shape.held i n own
  have facts := shape.facts i
  rw [here] at facts
  obtain ⟨⟨stored, ends⟩, version⟩ := facts
  have atLast : m.shared.rear.pointer = last m rest := shape.rear_last (by rw [fresh, null])
  have apart : n ≠ tempRear.pointer := by
    rintro rfl
    exact away (fresh ▸ atLast ▸ last_mem m rest)
  subst moved
  have fromLast : Function.update m.shared.next tempRear.pointer (some n) =
      Function.update m.shared.next (last m rest) (some n) := by
    rw [← atLast, fresh]
  have last' : (m.shared.front.pointer :: (rest ++ [n])).getLast (List.cons_ne_nil _ _) = n := by
    simp
  have member (k : Node) : k ∈ m.shared.front.pointer :: (rest ++ [n]) ↔
      k ∈ m.shared.front.pointer :: rest ∨ k = n := by
    simp [or_assoc]
  refine ⟨shape_move shape ⟨?_, ?_, ?_, ?_, ?_, ?_, ?_⟩, ?_⟩
  · rw [fromLast]
    exact shape.chain.append (List.cons_ne_nil _ _) away ends
  · intro k listed
    rcases (member k).mp listed with old | rfl
    · exact shape.linked k old
    · exact used
  · exact fun k held => nomatch held
  · intro j other k held
    refine ⟨(shape.held j k held).1, fun listed => ?_⟩
    rcases (member k).mp listed with old | rfl
    · exact (shape.held j k held).2 old
    · exact other (shape.apart j i k held own)
  · refine .inr ⟨?_, .inl ?_⟩
    · rw [last']
      dsimp only
      rw [fresh, Function.update_self]
    · exact (member _).mpr (.inl (atLast ▸ last_mem m rest))
  · refine ⟨version, fun _ => ?_⟩
    dsimp only
    rw [fresh, Function.update_self]
  · intro j other
    refine ⟨fun k held => ⟨rfl, Function.update_of_ne ?_ ..⟩, .inl rfl, .inl rfl, ?_, fun _ _ => rfl⟩
    · rintro rfl
      exact (shape.held j _ held).2 (fresh ▸ atLast ▸ last_mem m rest)
    · intro k l _ old
      refine (Function.update_of_ne ?_ ..).trans old
      rintro rfl
      rw [null] at old
      cases old
  · rw [List.map_append]
    exact congrArg (rest.map m.shared.data ++ ·) (congrArg (fun d => [d]) stored)

/-- A successful exchange of `front` takes the oldest value off. `rear` may still point to
the node that is unlinked. -/
theorem unlink_step {tempFront : Word} {pNext : Node} {data : α} (shape : Shape m rest)
    (here : m.place i = .unlink tempFront pNext data) (still : m.shared.front = tempFront)
    (moved : q = { m.shared with front := tempFront.moved pNext }) :
    ∃ rest', Shape (m.move i q (.readRearToo tempFront.pointer pNext data)) rest' ∧
      rest.map m.shared.data = data :: rest'.map q.data := by
  have facts := shape.facts i
  rw [here] at facts
  obtain ⟨next, value⟩ := facts.2 still
  obtain ⟨rest', rfl, later⟩ : ∃ rest', rest = pNext :: rest' ∧
      Chain m.shared.next (some pNext) (pNext :: rest') := by
    have chain := shape.chain
    cases chain with
    | cons later =>
      rw [next] at later
      cases later with
      | cons later => exact ⟨_, rfl, .cons later⟩
  have distinct := List.nodup_cons.mp shape.chain.nodup
  have front : m.shared.front.pointer = tempFront.pointer := by rw [still]
  refine ⟨rest', shape_move shape ⟨?_, ?_, ?_, ?_, ?_, ?_, ?_⟩, ?_⟩
  · rw [moved]
    exact later
  · rw [moved]
    exact fun n member => shape.linked n (List.mem_cons_of_mem _ member)
  · intro n own
    obtain rfl : tempFront.pointer = n := Option.some.inj own
    rw [moved, ← front]
    exact ⟨shape.linked _ (List.mem_cons_self ..), distinct.1,
      fun j _ held => (shape.held j _ held).2 (List.mem_cons_self ..)⟩
  · intro j _ n own
    rw [moved]
    exact ⟨(shape.held j n own).1,
      fun member => (shape.held j n own).2 (List.mem_cons_of_mem _ member)⟩
  · rw [moved]
    rcases shape.rear with at_ | ⟨follows, listed | ⟨j, gone⟩⟩
    · exact .inl at_
    · refine .inr ⟨follows, ?_⟩
      rcases List.mem_cons.mp listed with first | later
      · exact .inr (.inl (congrArg some (front ▸ first.symm)))
      · exact .inl later
    · refine .inr ⟨follows, .inr (.inr ⟨j, ?_, gone⟩)⟩
      rintro rfl
      rw [here] at gone
      cases gone
  · rw [moved]
    change m.shared.next tempFront.pointer = some pNext
    rw [← front, next]
  · intro j _
    rw [moved]
    refine ⟨fun _ _ => ⟨rfl, rfl⟩, .inl rfl, .inr ?_, fun _ _ _ old => old, fun _ _ => rfl⟩
    rw [still]
    rfl
  · rw [moved, List.map_cons, value]

/-- A node is freed when `rear` has gone past it. -/
theorem free_step {pFront : Node} {data : α} (shape : Shape m rest)
    (here : m.place i = .free pFront data)
    (moved : q = { m.shared with inUse := Function.update m.shared.inUse pFront false }) :
    Shape (m.move i q .idle) rest := by
  have own : Place.node (m.place i) = some pFront := by rw [here]; rfl
  have stays (n : Node) (other : n ≠ pFront) : q.inUse n = m.shared.inUse n := by
    rw [moved]
    exact Function.update_of_ne other ..
  have same : q.front = m.shared.front ∧ q.rear = m.shared.rear ∧ q.next = m.shared.next ∧
      q.data = m.shared.data := by
    rw [moved]
    exact ⟨rfl, rfl, rfl, rfl⟩
  obtain ⟨front, rear, next, datas⟩ := same
  refine shape_move shape ⟨?_, ?_, fun n own => (nomatch own), ?_, ?_, trivial, ?_⟩
  · rw [front, next]
    exact shape.chain
  · rw [front]
    intro n member
    rw [stays n fun same => (shape.held i pFront own).2 (same ▸ member)]
    exact shape.linked n member
  · intro j other n held
    rw [front, stays n fun same => other (shape.apart j i n held (same ▸ own))]
    exact shape.held j n held
  · rw [front, rear, next]
    rcases shape.rear with at_ | ⟨next, listed | ⟨j, gone⟩⟩
    · exact .inl at_
    · exact .inr ⟨next, .inl listed⟩
    · refine .inr ⟨next, .inr (.inr ⟨j, ?_, gone⟩)⟩
      rintro rfl
      rw [here] at gone
      cases gone
  · exact fun j _ => ⟨fun k _ => ⟨congrFun datas k, congrFun next k⟩, .inl rear, .inl front,
      fun n k _ old => by rwa [next], fun k _ => congrFun datas k⟩

/-- A step that changes nothing shared. -/
theorem quiet_step (shape : Shape m rest) (node : Place.node p = Place.node (m.place i))
    (retired : ∀ n, Place.retired (m.place i) = some n →
      Place.retired p = some n ∨ m.shared.rear.pointer ≠ n)
    (facts : Place.Facts m.shared p) : Shape (m.move i m.shared p) rest :=
  (own_step shape rfl rfl rfl (fun _ _ => ⟨rfl, rfl⟩) (fun n gone => ⟨rfl, retired n gone⟩) node
    facts).1

/-- The queue that a step makes of the values in the list. -/
def Queued (values : List α) (event : Event α) (values' : List α) : Prop :=
  values ++ event.linkedData = event.unlinkedData ++ values'

theorem queued_same {values values' : List α} (linked : event.linkedData = [])
    (unlinked : event.unlinkedData = []) (same : values' = values) : Queued values event values' := by
  rw [Queued, linked, unlinked, same, List.append_nil, List.nil_append]

theorem enqueue_shape (shape : Shape m rest) (fresh : Place.Fresh m.shared (m.place i))
    (step : EnqueueStep m.shared (m.place i) event q p) :
    ∃ rest', Shape (m.move i q p) rest' ∧
      Queued (rest.map m.shared.data) event (rest'.map q.data) := by
  have facts := shape.facts i
  generalize here : m.place i = before at step
  rw [here] at facts fresh
  have node : Place.node (m.place i) = Place.node before := by rw [here]
  have retired : Place.retired (m.place i) = Place.retired before := by rw [here]
  have quiet {p : Place α} (same : Place.node p = Place.node before)
      (none : Place.retired before = none) (facts : Place.Facts m.shared p) :
      ∃ rest', Shape (m.move i m.shared p) rest' ∧
        Queued (rest.map m.shared.data) .other (rest'.map m.shared.data) :=
    ⟨rest, quiet_step shape (same.trans node.symm) (fun n gone => by
      rw [retired, none] at gone
      cases gone) facts, queued_same rfl rfl rfl⟩
  cases step with
  | call data =>
    refine ⟨rest, quiet_step shape node.symm (fun n gone => ?_) trivial, queued_same rfl rfl rfl⟩
    rw [retired] at gone
    cases gone
  | alloc data free => exact ⟨rest, alloc_step shape here free rfl, queued_same rfl rfl rfl⟩
  | setData data n =>
    obtain ⟨moved, values⟩ := own_step shape (q := { m.shared with
      data := Function.update m.shared.data n data }) (p := .setNext data n) (i := i) rfl rfl rfl
      (fun k other => ⟨Function.update_of_ne (fun same => other (by rw [node, same]; rfl)) .., rfl⟩)
      (fun k gone => by rw [retired] at gone; cases gone) node.symm (Function.update_self ..)
    exact ⟨rest, moved, queued_same rfl rfl values⟩
  | setNext data n =>
    obtain ⟨moved, values⟩ := own_step shape (q := { m.shared with
      next := Function.update m.shared.next n none }) (p := .readRear data n) (i := i) rfl rfl rfl
      (fun k other => ⟨rfl, Function.update_of_ne (fun same => other (by rw [node, same]; rfl)) ..⟩)
      (fun k gone => by rw [retired] at gone; cases gone) node.symm
      ⟨facts, Function.update_self ..⟩
    exact ⟨rest, moved, queued_same rfl rfl values⟩
  | readRear data n => exact quiet rfl rfl ⟨facts, Nat.le_refl _⟩
  | readNull data n next => exact quiet rfl rfl facts
  | readNext data n next => exact quiet rfl rfl ⟨facts.1, facts.2, fun still => still ▸ next⟩
  | link data n next =>
    obtain ⟨moved, values⟩ := link_step shape here next (fresh next) rfl
    exact ⟨_, moved, values.symm⟩
  | linkFails data n next => exact quiet rfl rfl facts
  | swingNew n same =>
    exact ⟨rest, swing_step shape (fresh same) facts rfl (.inr rfl) trivial, queued_same rfl rfl rfl⟩
  | swingNewFails n other => exact quiet rfl rfl trivial
  | readAgainNull data n next => exact quiet rfl rfl facts.1
  | readAgain data n next => exact quiet rfl rfl ⟨facts.1, facts.2, fun still => still ▸ next⟩
  | swing data n pNext same =>
    exact ⟨rest, swing_step shape (fresh same) facts.2 rfl (.inl node.symm) facts.1,
      queued_same rfl rfl rfl⟩
  | swingFails data n pNext other => exact quiet rfl rfl facts.1
  | count =>
    obtain ⟨moved, values⟩ := own_step shape (q := { m.shared with
      nodeCount := m.shared.nodeCount + 1 }) (p := .idle) (i := i) rfl rfl rfl (fun _ _ => ⟨rfl, rfl⟩)
      (fun k gone => by rw [retired] at gone; cases gone) node.symm trivial
    exact ⟨rest, moved, queued_same rfl rfl values⟩

theorem dequeue_shape (shape : Shape m rest) (fresh : Place.Fresh m.shared (m.place i))
    (step : DequeueStep m.shared (m.place i) event q p) :
    ∃ rest', Shape (m.move i q p) rest' ∧
      Queued (rest.map m.shared.data) event (rest'.map q.data) := by
  have facts := shape.facts i
  generalize here : m.place i = before at step
  rw [here] at facts fresh
  have node : Place.node (m.place i) = Place.node before := by rw [here]
  have retired : Place.retired (m.place i) = Place.retired before := by rw [here]
  have quiet {p : Place α} {event : Event α} (linked : event.linkedData = [])
      (unlinked : event.unlinkedData = []) (same : Place.node p = Place.node before)
      (passed : ∀ n, Place.retired before = some n →
        Place.retired p = some n ∨ m.shared.rear.pointer ≠ n) (facts : Place.Facts m.shared p) :
      ∃ rest', Shape (m.move i m.shared p) rest' ∧
        Queued (rest.map m.shared.data) event (rest'.map m.shared.data) :=
    ⟨rest, quiet_step shape (same.trans node.symm) (fun n gone => passed n (retired ▸ gone)) facts,
      queued_same linked unlinked rfl⟩
  have counted (count : Int) {p : Place α} {event : Event α} (linked : event.linkedData = [])
      (unlinked : event.unlinkedData = []) (same : Place.node p = Place.node before)
      (none : Place.retired before = none)
      (facts : Place.Facts { m.shared with nodeCount := count } p) :
      ∃ rest', Shape (m.move i { m.shared with nodeCount := count } p) rest' ∧
        Queued (rest.map m.shared.data) event (rest'.map m.shared.data) := by
    obtain ⟨moved, values⟩ := own_step shape (q := { m.shared with nodeCount := count }) (p := p)
      (i := i) rfl rfl rfl (fun _ _ => ⟨rfl, rfl⟩)
      (fun k gone => by rw [retired, none] at gone; cases gone) (same.trans node.symm) facts
    exact ⟨rest, moved, queued_same linked unlinked values⟩
  cases step with
  | refuse none => exact quiet rfl rfl rfl (fun _ gone => nomatch gone) trivial
  | call some => exact quiet rfl rfl rfl (fun _ gone => nomatch gone) trivial
  | discount => exact counted _ rfl rfl rfl rfl trivial
  | readFront => exact quiet rfl rfl rfl (fun _ gone => nomatch gone) (Nat.le_refl _)
  | readNull next => exact quiet rfl rfl rfl (fun _ gone => nomatch gone) trivial
  | again enough => exact quiet rfl rfl rfl (fun _ gone => nomatch gone) trivial
  | giveUp few => exact quiet rfl rfl rfl (fun _ gone => nomatch gone) trivial
  | recount => exact counted _ rfl rfl rfl rfl trivial
  | readNext next =>
    exact quiet rfl rfl rfl (fun _ gone => nomatch gone) ⟨facts, fun still => still ▸ next⟩
  | readData tempFront pNext =>
    exact quiet rfl rfl rfl (fun _ gone => nomatch gone)
      ⟨facts.1, fun still => ⟨facts.2 still, rfl⟩⟩
  | unlink pNext data same =>
    obtain ⟨rest', moved, values⟩ := unlink_step shape here (fresh same) rfl
    exact ⟨rest', moved, by rw [Queued, values]; exact List.append_nil _⟩
  | unlinkFails pNext data other => exact quiet rfl rfl rfl (fun _ gone => nomatch gone) trivial
  | readRear pFront pNext data =>
    exact quiet rfl rfl rfl (fun _ gone => .inl gone) ⟨facts, Nat.le_refl _, fun _ => rfl⟩
  | behind pFront data next =>
    exact quiet rfl rfl rfl (fun _ gone => .inl gone)
      ⟨facts.2.2, facts.2.1, fun still => still ▸ next⟩
  | @notBehind pFront pNext data tempRear next =>
    have passed : m.shared.rear.pointer ≠ pFront := by
      intro there
      have still := facts.2.2 there
      rw [← still, there] at next
      exact next facts.1
    exact quiet rfl rfl rfl (fun n gone => .inr (Option.some.inj gone ▸ passed)) passed
  | swing pFront pNext data same =>
    refine ⟨rest, swing_step shape (fresh same) facts.2 rfl (.inl node.symm) ?_,
      queued_same rfl rfl rfl⟩
    have next := facts.2.2 (fresh same)
    have own : Place.node (m.place i) = some pFront := node
    rintro rfl
    exact (shape.held i pNext own).2 (shape.behind_last next ▸ last_mem m rest)
  | @swingFails pFront pNext data tempRear other =>
    have passed : m.shared.rear.pointer ≠ pFront := by
      intro there
      rw [facts.1 there] at other
      exact other ⟨rfl, rfl⟩
    exact quiet rfl rfl rfl (fun n gone => .inr (Option.some.inj gone ▸ passed)) passed
  | free pFront data =>
    exact ⟨rest, free_step shape here rfl, queued_same rfl rfl rfl⟩

theorem queue_shape (shape : Shape m rest) (fresh : Place.Fresh m.shared (m.place i))
    (step : QueueStep m.shared (m.place i) event q p) :
    ∃ rest', Shape (m.move i q p) rest' ∧
      Queued (rest.map m.shared.data) event (rest'.map q.data) := by
  cases step with
  | enqueue step => exact enqueue_shape shape fresh step
  | dequeue step => exact dequeue_shape shape fresh step

end Step

end NewNameAuction.QueueOrder
