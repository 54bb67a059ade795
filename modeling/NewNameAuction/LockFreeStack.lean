import NewNameAuction.Interleaving
import NewNameAuction.NodeChain
import NewNameAuction.Runs
import Mathlib.Algebra.Order.Group.Multiset

/-! `LockFreeStack` with one popping thread, as `AcceptThread` and `releaseSession` use
`emptyIndexStack`. Each read, write and interlocked operation of `push` and `pop` is one
step. Only `pop` moves the stamp of `top`, and only `pop` takes nodes off, so that with
one popper a node it has read as the top stays in the list until its exchange. -/
namespace NewNameAuction.LockFreeStack

/-- The address of a node. -/
abbrev Node := Nat

/-- The word `top`: a pointer, and the stamp in the upper 16 bits. -/
structure Top where
  pointer : Option Node
  stamp : UInt16
  deriving DecidableEq

/-- `inUse` are the nodes `NodePool` has handed out and not got back. `nodeCount`
counts nodes in memory, far fewer than 2^31. -/
structure Stack (α : Type*) where
  top : Top
  nodeCount : Int
  next : Node → Option Node
  data : Node → α
  inUse : Node → Bool

/-- An empty stack. What the pool's nodes hold does not matter. -/
def Stack.empty {α : Type*} (next : Node → Option Node) (data : Node → α) : Stack α :=
  ⟨⟨none, 0⟩, 0, next, data, fun _ => false⟩

inductive Event (α : Type*)
  | other
  | linked (data : α)
  | unlinked (data : α)
  | returned (data : α)
  | refused

/-- Where a thread stands in `push`: before which access. -/
inductive PushPlace (α : Type*)
  | idle
  | alloc (data : α)
  | setData (data : α) (pNewNode : Node)
  | readTop (data : α) (pNewNode : Node)
  | setNext (data : α) (pNewNode : Node) (tempTop : Top)
  | exchange (data : α) (pNewNode : Node) (tempTop : Top)
  | count

/-- Where the thread stands in `pop`. -/
inductive PopPlace (α : Type*)
  | idle
  | discount
  | readTop
  | readNext (tempTop : Top) (pTop : Node)
  | exchange (tempTop newTop : Top) (pTop : Node)
  | readData (pTop : Node)
  | free (pTop : Node) (data : α)
  | recount

section Steps
variable {α : Type*}

inductive PushStep : Stack α → PushPlace α → Event α → Stack α → PushPlace α → Prop
  | call (s : Stack α) (data : α) : PushStep s .idle .other s (.alloc data)
  | alloc {s : Stack α} (data : α) {pNewNode : Node} (free : s.inUse pNewNode = false) :
      PushStep s (.alloc data) .other { s with inUse := Function.update s.inUse pNewNode true }
        (.setData data pNewNode)
  | setData (s : Stack α) (data : α) (pNewNode : Node) :
      PushStep s (.setData data pNewNode) .other
        { s with data := Function.update s.data pNewNode data } (.readTop data pNewNode)
  | readTop (s : Stack α) (data : α) (pNewNode : Node) :
      PushStep s (.readTop data pNewNode) .other s (.setNext data pNewNode s.top)
  | setNext (s : Stack α) (data : α) (pNewNode : Node) (tempTop : Top) :
      PushStep s (.setNext data pNewNode tempTop) .other
        { s with next := Function.update s.next pNewNode tempTop.pointer }
        (.exchange data pNewNode tempTop)
  | exchange {s : Stack α} (data : α) (pNewNode : Node) {tempTop : Top} (same : s.top = tempTop) :
      PushStep s (.exchange data pNewNode tempTop) (.linked data)
        { s with top := ⟨some pNewNode, tempTop.stamp⟩ } .count
  | retry {s : Stack α} (data : α) (pNewNode : Node) {tempTop : Top} (other : s.top ≠ tempTop) :
      PushStep s (.exchange data pNewNode tempTop) .other s (.readTop data pNewNode)
  | count (s : Stack α) :
      PushStep s .count .other { s with nodeCount := s.nodeCount + 1 } .idle

inductive PopStep : Stack α → PopPlace α → Event α → Stack α → PopPlace α → Prop
  | refuse {s : Stack α} (none : s.nodeCount ≤ 0) : PopStep s .idle .refused s .idle
  | call {s : Stack α} (some : 0 < s.nodeCount) : PopStep s .idle .other s .discount
  | discount (s : Stack α) :
      PopStep s .discount .other { s with nodeCount := s.nodeCount - 1 } .readTop
  | null {s : Stack α} (null : s.top.pointer = none) : PopStep s .readTop .other s .recount
  | readTop {s : Stack α} {pTop : Node} (top : s.top.pointer = some pTop) :
      PopStep s .readTop .other s (.readNext s.top pTop)
  | readNext (s : Stack α) (tempTop : Top) (pTop : Node) :
      PopStep s (.readNext tempTop pTop) .other s
        (.exchange tempTop ⟨s.next pTop, tempTop.stamp + 1⟩ pTop)
  | exchange {s : Stack α} {tempTop : Top} (newTop : Top) (pTop : Node) (same : s.top = tempTop) :
      PopStep s (.exchange tempTop newTop pTop) (.unlinked (s.data pTop)) { s with top := newTop }
        (.readData pTop)
  | retry {s : Stack α} {tempTop : Top} (newTop : Top) (pTop : Node) (other : s.top ≠ tempTop) :
      PopStep s (.exchange tempTop newTop pTop) .other s .readTop
  | readData (s : Stack α) (pTop : Node) :
      PopStep s (.readData pTop) .other s (.free pTop (s.data pTop))
  | free (s : Stack α) (pTop : Node) (data : α) :
      PopStep s (.free pTop data) (.returned data)
        { s with inUse := Function.update s.inUse pTop false } .idle
  | recount (s : Stack α) :
      PopStep s .recount .refused { s with nodeCount := s.nodeCount + 1 } .idle

end Steps

/-- What the threads share, and where the popping thread stands. -/
structure Shared (α : Type*) where
  stack : Stack α
  popper : PopPlace α

section System
variable {ι : Type*} {α : Type*} [DecidableEq ι]

/-- One of the pushing threads or the popping thread takes a step. -/
inductive Step : Threads ι (Shared α) (PushPlace α) → Event α → Threads ι (Shared α) (PushPlace α) → Prop
  | push {m : Threads ι (Shared α) (PushPlace α)} (i : ι) {event : Event α} {stack : Stack α}
      {place : PushPlace α} (step : PushStep m.shared.stack (m.place i) event stack place) :
      Step m event (m.move i ⟨stack, m.shared.popper⟩ place)
  | pop {m : Threads ι (Shared α) (PushPlace α)} {event : Event α} {stack : Stack α}
      {popper : PopPlace α} (step : PopStep m.shared.stack m.shared.popper event stack popper) :
      Step m event { m with shared := ⟨stack, popper⟩ }

def start (next : Node → Option Node) (data : Node → α) : Threads ι (Shared α) (PushPlace α) :=
  ⟨⟨.empty next data, .idle⟩, fun _ => .idle⟩

end System

/-! ## What holds between the steps -/

section Invariant
variable {ι : Type*} {α : Type*}

namespace Event

def linkedData : Event α → List α
  | .linked data => [data]
  | _ => []

def unlinkedData : Event α → List α
  | .unlinked data => [data]
  | _ => []

def returnedData : Event α → List α
  | .returned data => [data]
  | _ => []

end Event

namespace PushPlace

/-- The node a pusher has not linked yet. -/
def node : PushPlace α → Option Node
  | .setData _ pNewNode => some pNewNode
  | .readTop _ pNewNode => some pNewNode
  | .setNext _ pNewNode _ => some pNewNode
  | .exchange _ pNewNode _ => some pNewNode
  | _ => none

/-- A node that is linked and not counted yet. -/
def uncounted : PushPlace α → Nat
  | .count => 1
  | _ => 0

def Sound (s : Stack α) : PushPlace α → Prop
  | .readTop data pNewNode => s.data pNewNode = data
  | .setNext data pNewNode _ => s.data pNewNode = data
  | .exchange data pNewNode tempTop => s.data pNewNode = data ∧ s.next pNewNode = tempTop.pointer
  | _ => True

end PushPlace

namespace PopPlace

/-- The node the popper has unlinked and not freed yet. -/
def node : PopPlace α → Option Node
  | .readData pTop => some pTop
  | .free pTop _ => some pTop
  | _ => none

/-- A node that is counted out and still linked. -/
def discounted : PopPlace α → Nat
  | .readTop => 1
  | .readNext _ _ => 1
  | .exchange _ _ _ => 1
  | .recount => 1
  | _ => 0

/-- The value unlinked and not returned yet. -/
def pending (s : Stack α) : PopPlace α → List α
  | .readData pTop => [s.data pTop]
  | .free _ data => [data]
  | _ => []

/-- Past the check of `nodeCount` there is a node to take, and `recount` is not reached. -/
def Sound (s : Stack α) (nodes : List Node) : PopPlace α → Prop
  | .discount => nodes ≠ []
  | .readTop => nodes ≠ []
  | .readNext tempTop pTop => tempTop.pointer = some pTop ∧ pTop ∈ nodes
  | .exchange tempTop newTop pTop =>
    tempTop.pointer = some pTop ∧ pTop ∈ nodes ∧ newTop.pointer = s.next pTop
  | .recount => False
  | _ => True

end PopPlace

/-- `nodes` are the list from `top`. Every other node that is in use belongs to one
thread. -/
structure Sound [Fintype ι] (past : List (Event α)) (m : Threads ι (Shared α) (PushPlace α))
    (nodes : List Node) : Prop where
  chain : Chain m.shared.stack.next m.shared.stack.top.pointer nodes
  linked : ∀ n ∈ nodes, m.shared.stack.inUse n = true
  held : ∀ i n, (m.place i).node = some n → m.shared.stack.inUse n = true ∧ n ∉ nodes
  apart : ∀ i j n, (m.place i).node = some n → (m.place j).node = some n → i = j
  popped : ∀ n, m.shared.popper.node = some n →
    m.shared.stack.inUse n = true ∧ n ∉ nodes ∧ ∀ i, (m.place i).node ≠ some n
  pushers : ∀ i, (m.place i).Sound m.shared.stack
  popper : m.shared.popper.Sound m.shared.stack nodes
  count : m.shared.stack.nodeCount + m.total PushPlace.uncounted + m.shared.popper.discounted =
    nodes.length
  values : (past.flatMap Event.unlinkedData ++ nodes.map m.shared.stack.data).Perm
    (past.flatMap Event.linkedData)
  returned : past.flatMap Event.unlinkedData =
    past.flatMap Event.returnedData ++ m.shared.popper.pending m.shared.stack

theorem PushPlace.Sound.congr {s s' : Stack α} {place : PushPlace α} (sound : place.Sound s)
    (same : ∀ n, place.node = some n → s'.data n = s.data n ∧ s'.next n = s.next n) :
    place.Sound s' := by
  cases place with
  | readTop data n => exact (same n rfl).1.trans sound
  | setNext data n tempTop => exact (same n rfl).1.trans sound
  | exchange data n tempTop => exact ⟨(same n rfl).1.trans sound.1, (same n rfl).2.trans sound.2⟩
  | idle | alloc _ | setData _ _ | count => trivial

theorem PopPlace.Sound.congr {s s' : Stack α} {nodes : List Node} {place : PopPlace α}
    (sound : place.Sound s nodes) (same : ∀ n ∈ nodes, s'.next n = s.next n) :
    place.Sound s' nodes := by
  cases place with
  | exchange tempTop newTop pTop =>
    exact ⟨sound.1, sound.2.1, sound.2.2.trans (same pTop sound.2.1).symm⟩
  | idle | discount | readTop | readNext _ _ | readData _ | free _ _ | recount => exact sound

/-- A node more in front leaves the popper what it has read. -/
theorem PopPlace.Sound.cons {s s' : Stack α} {nodes : List Node} {place : PopPlace α}
    (sound : place.Sound s nodes) (next : s'.next = s.next) (n : Node) :
    place.Sound s' (n :: nodes) := by
  cases place with
  | discount | readTop => exact List.cons_ne_nil _ _
  | readNext tempTop pTop => exact ⟨sound.1, List.mem_cons_of_mem _ sound.2⟩
  | exchange tempTop newTop pTop =>
    exact ⟨sound.1, List.mem_cons_of_mem _ sound.2.1, by rw [next]; exact sound.2.2⟩
  | recount => exact sound
  | idle | readData _ | free _ _ => trivial

theorem PopPlace.pending_congr {s s' : Stack α} {place : PopPlace α}
    (same : ∀ n, place.node = some n → s'.data n = s.data n) :
    place.pending s' = place.pending s := by
  cases place with
  | readData pTop => exact congrArg (fun d => [d]) (same pTop rfl)
  | idle | discount | readTop | readNext _ _ | exchange _ _ _ | free _ _ | recount => rfl

end Invariant

/-! ## Steps of a pusher -/

section Push
variable {ι : Type*} {α : Type*} [Fintype ι] [DecidableEq ι] {past : List (Event α)}
  {m : Threads ι (Shared α) (PushPlace α)} {nodes : List Node} {i : ι} {stack : Stack α}
  {place : PushPlace α} {event : Event α}

/-- A pusher that writes to its own node alone changes nothing for the others. -/
theorem own_node (sound : Sound past m nodes) (top : stack.top = m.shared.stack.top)
    (count : stack.nodeCount = m.shared.stack.nodeCount)
    (inUse : stack.inUse = m.shared.stack.inUse)
    (others : ∀ n, (m.place i).node ≠ some n →
      stack.data n = m.shared.stack.data n ∧ stack.next n = m.shared.stack.next n)
    (node : place.node = (m.place i).node) (uncounted : place.uncounted = (m.place i).uncounted)
    (self : place.Sound stack) :
    Sound (past ++ [.other]) (m.move i ⟨stack, m.shared.popper⟩ place) nodes := by
  have holds (j : ι) : ((m.move i ⟨stack, m.shared.popper⟩ place).place j).node =
      (m.place j).node := by
    by_cases same : j = i
    · subst same
      rw [Threads.place_move_self, node]
    · rw [Threads.place_move_other _ _ _ _ same]
  have onList (n : Node) (member : n ∈ nodes) : (m.place i).node ≠ some n :=
    fun own => (sound.held i n own).2 member
  have total := Threads.total_move m i ⟨stack, m.shared.popper⟩ place PushPlace.uncounted
  refine ⟨?_, ?_, ?_, ?_, ?_, ?_, ?_, ?_, ?_, ?_⟩
  · rw [Threads.shared_move, top]
    exact sound.chain.frame fun n member => (others n (onList n member)).2
  · rw [Threads.shared_move, inUse]
    exact sound.linked
  · intro j n own
    rw [Threads.shared_move, inUse]
    exact sound.held j n (holds j ▸ own)
  · intro j k n own other
    exact sound.apart j k n (holds j ▸ own) (holds k ▸ other)
  · intro n own
    obtain ⟨used, away, apart⟩ := sound.popped n own
    rw [Threads.shared_move, inUse]
    exact ⟨used, away, fun j => holds j ▸ apart j⟩
  · refine Threads.place_move_all m i _ place self fun j other => (sound.pushers j).congr fun n own => ?_
    exact others n fun same => other (sound.apart j i n own same)
  · exact sound.popper.congr fun n member => (others n (onList n member)).2
  · have before := sound.count
    rw [Threads.shared_move, count]
    dsimp only
    omega
  · rw [List.flatMap_append, List.flatMap_append, Threads.shared_move]
    have data : nodes.map stack.data = nodes.map m.shared.stack.data :=
      List.map_congr_left fun n member => (others n (onList n member)).1
    simpa only [Event.unlinkedData, Event.linkedData, List.flatMap_cons, List.flatMap_nil,
      List.append_nil, data] using sound.values
  · have pending : m.shared.popper.pending stack = m.shared.popper.pending m.shared.stack :=
      PopPlace.pending_congr fun n own => (others n ((sound.popped n own).2.2 i)).1
    rw [List.flatMap_append, List.flatMap_append, Threads.shared_move]
    simpa only [Event.unlinkedData, Event.returnedData, List.flatMap_cons, List.flatMap_nil,
      List.append_nil, pending] using sound.returned

/-- Pushers hold different nodes as long as a new one is no one else's. -/
theorem apart_move (sound : Sound past m nodes) (shared : Shared α)
    (new : ∀ n, place.node = some n → ∀ j, j ≠ i → (m.place j).node ≠ some n) (j k : ι) (n : Node)
    (own : ((m.move i shared place).place j).node = some n)
    (other : ((m.move i shared place).place k).node = some n) : j = k := by
  by_cases first : j = i
  · subst first
    rw [Threads.place_move_self] at own
    by_contra apart
    rw [Threads.place_move_other _ _ _ _ (Ne.symm apart)] at other
    exact new n own k (Ne.symm apart) other
  · rw [Threads.place_move_other _ _ _ _ first] at own
    by_cases second : k = i
    · subst second
      rw [Threads.place_move_self] at other
      exact absurd own (new n other j first)
    · rw [Threads.place_move_other _ _ _ _ second] at other
      exact sound.apart j k n own other

/-- A node from the pool belongs to no one else. -/
theorem alloc_node {data : α} {n : Node} (sound : Sound past m nodes)
    (here : m.place i = .alloc data) (free : m.shared.stack.inUse n = false)
    (moved : stack = { m.shared.stack with inUse := Function.update m.shared.stack.inUse n true }) :
    Sound (past ++ [.other]) (m.move i ⟨stack, m.shared.popper⟩ (.setData data n)) nodes := by
  have total := Threads.total_move m i ⟨stack, m.shared.popper⟩ (.setData data n)
    PushPlace.uncounted
  have taken : stack.inUse n = true := by rw [moved]; exact Function.update_self ..
  have stays (k : Node) (used : m.shared.stack.inUse k = true) : k ≠ n ∧ stack.inUse k = true := by
    have other : k ≠ n := by
      rintro rfl
      rw [free] at used
      cases used
    rw [moved]
    exact ⟨other, (Function.update_of_ne other ..).trans used⟩
  have same : stack.top = m.shared.stack.top ∧ stack.nodeCount = m.shared.stack.nodeCount ∧
      stack.next = m.shared.stack.next ∧ stack.data = m.shared.stack.data := by
    rw [moved]
    exact ⟨rfl, rfl, rfl, rfl⟩
  obtain ⟨top, count, next, datas⟩ := same
  constructor
  case chain =>
    rw [Threads.shared_move, top, next]
    exact sound.chain
  case linked => exact fun k member => (stays k (sound.linked k member)).2
  case held =>
    refine Threads.place_move_all m i (Q := fun p => ∀ k, p.node = some k →
      stack.inUse k = true ∧ k ∉ nodes) _ _ ?_ ?_
    · rintro k own
      obtain rfl : n = k := Option.some.inj own
      exact ⟨taken, fun member => (stays n (sound.linked n member)).1 rfl⟩
    · exact fun j _ k own => ⟨(stays k (sound.held j k own).1).2, (sound.held j k own).2⟩
  case apart =>
    refine apart_move sound _ fun k own j other held => ?_
    obtain rfl : n = k := Option.some.inj own
    exact (stays n (sound.held j n held).1).1 rfl
  case popped =>
    intro k own
    obtain ⟨used, away, others⟩ := sound.popped k own
    refine ⟨(stays k used).2, away, Threads.place_move_all m i (Q := fun p => p.node ≠ some k) _ _
      (fun same => ?_) fun j _ => others j⟩
    exact (stays k used).1 (Option.some.inj same).symm
  case pushers =>
    exact Threads.place_move_all m i (Q := PushPlace.Sound stack) _ _ trivial fun j _ =>
      (sound.pushers j).congr fun k _ => ⟨congrFun datas k, congrFun next k⟩
  case popper => exact sound.popper.congr fun k _ => congrFun next k
  case count =>
    have before := sound.count
    rw [here] at total
    simp only [PushPlace.uncounted] at total
    rw [Threads.shared_move, count]
    dsimp only
    omega
  case values =>
    rw [Threads.shared_move, datas]
    simpa [Event.unlinkedData, Event.linkedData] using sound.values
  case returned =>
    rw [Threads.shared_move, PopPlace.pending_congr fun k _ => congrFun datas k]
    simpa [Event.unlinkedData, Event.returnedData] using sound.returned

/-- A successful exchange puts the node, whose `next` is the top, in front of the list.
That the top may have been taken off and come back meanwhile does not matter. -/
theorem link_node {data : α} {n : Node} {tempTop : Top} (sound : Sound past m nodes)
    (here : m.place i = .exchange data n tempTop) (same : m.shared.stack.top = tempTop)
    (moved : stack = { m.shared.stack with top := ⟨some n, tempTop.stamp⟩ }) :
    Sound (past ++ [.linked data]) (m.move i ⟨stack, m.shared.popper⟩ .count) (n :: nodes) := by
  have total := Threads.total_move m i ⟨stack, m.shared.popper⟩ .count PushPlace.uncounted
  have own : (m.place i).node = some n := by rw [here]; rfl
  have ready := sound.pushers i
  rw [here] at ready
  obtain ⟨stored, front⟩ := ready
  obtain ⟨used, away⟩ := sound.held i n own
  have others (j : ι) (other : j ≠ i) (k : Node) (held : (m.place j).node = some k) : k ≠ n :=
    fun same => other (sound.apart j i k held (same ▸ own))
  have rest : stack.top.pointer = some n ∧ stack.nodeCount = m.shared.stack.nodeCount ∧
      stack.next = m.shared.stack.next ∧ stack.data = m.shared.stack.data ∧
      stack.inUse = m.shared.stack.inUse := by
    rw [moved]
    exact ⟨rfl, rfl, rfl, rfl, rfl⟩
  obtain ⟨top, count, next, datas, inUse⟩ := rest
  constructor
  case chain =>
    rw [Threads.shared_move, top, next]
    refine .cons ?_
    rw [front, ← same]
    exact sound.chain
  case linked =>
    rw [Threads.shared_move, inUse]
    exact List.forall_mem_cons.mpr ⟨used, sound.linked⟩
  case held =>
    rw [Threads.shared_move, inUse]
    refine Threads.place_move_all m i (Q := fun p => ∀ k, p.node = some k →
      m.shared.stack.inUse k = true ∧ k ∉ n :: nodes) _ _ (fun k held => nomatch held) ?_
    exact fun j other k held => ⟨(sound.held j k held).1,
      List.not_mem_cons_of_ne_of_not_mem (others j other k held) (sound.held j k held).2⟩
  case apart => exact apart_move sound _ fun k held => nomatch held
  case popped =>
    intro k held
    obtain ⟨popUsed, popAway, apart⟩ := sound.popped k held
    rw [Threads.shared_move, inUse]
    refine ⟨popUsed, List.not_mem_cons_of_ne_of_not_mem (fun same => apart i (same ▸ own)) popAway,
      Threads.place_move_all m i (Q := fun p => p.node ≠ some k) _ _ (fun held => nomatch held) ?_⟩
    exact fun j _ => apart j
  case pushers =>
    exact Threads.place_move_all m i (Q := PushPlace.Sound stack) _ _ trivial fun j _ =>
      (sound.pushers j).congr fun k _ => ⟨congrFun datas k, congrFun next k⟩
  case popper => exact sound.popper.cons next n
  case count =>
    have before := sound.count
    rw [here] at total
    simp only [PushPlace.uncounted] at total
    rw [Threads.shared_move, count, List.length_cons]
    dsimp only
    omega
  case values =>
    rw [List.flatMap_append, List.flatMap_append, Threads.shared_move, datas]
    simp only [Event.unlinkedData, Event.linkedData, List.flatMap_cons, List.flatMap_nil,
      List.append_nil, List.map_cons, stored]
    exact List.perm_middle.trans ((sound.values.cons data).trans
      (List.perm_append_singleton data _).symm)
  case returned =>
    rw [Threads.shared_move, PopPlace.pending_congr fun k _ => congrFun datas k]
    simpa [Event.unlinkedData, Event.returnedData] using sound.returned

theorem count_node (sound : Sound past m nodes) (here : m.place i = .count)
    (moved : stack = { m.shared.stack with nodeCount := m.shared.stack.nodeCount + 1 }) :
    Sound (past ++ [.other]) (m.move i ⟨stack, m.shared.popper⟩ .idle) nodes := by
  have total := Threads.total_move m i ⟨stack, m.shared.popper⟩ .idle PushPlace.uncounted
  have rest : stack.top = m.shared.stack.top ∧ stack.nodeCount = m.shared.stack.nodeCount + 1 ∧
      stack.next = m.shared.stack.next ∧ stack.data = m.shared.stack.data ∧
      stack.inUse = m.shared.stack.inUse := by
    rw [moved]
    exact ⟨rfl, rfl, rfl, rfl, rfl⟩
  obtain ⟨top, count, next, datas, inUse⟩ := rest
  constructor
  case chain =>
    rw [Threads.shared_move, top, next]
    exact sound.chain
  case linked =>
    rw [Threads.shared_move, inUse]
    exact sound.linked
  case held =>
    rw [Threads.shared_move, inUse]
    exact Threads.place_move_all m i (Q := fun p => ∀ k, p.node = some k →
      m.shared.stack.inUse k = true ∧ k ∉ nodes) _ _ (fun k held => nomatch held)
      fun j _ => sound.held j
  case apart => exact apart_move sound _ fun k held => nomatch held
  case popped =>
    intro k held
    obtain ⟨used, away, apart⟩ := sound.popped k held
    rw [Threads.shared_move, inUse]
    exact ⟨used, away, Threads.place_move_all m i (Q := fun p => p.node ≠ some k) _ _
      (fun held => nomatch held) fun j _ => apart j⟩
  case pushers =>
    exact Threads.place_move_all m i (Q := PushPlace.Sound stack) _ _ trivial fun j _ =>
      (sound.pushers j).congr fun k _ => ⟨congrFun datas k, congrFun next k⟩
  case popper => exact sound.popper.congr fun k _ => congrFun next k
  case count =>
    have before := sound.count
    rw [here] at total
    simp only [PushPlace.uncounted] at total
    rw [Threads.shared_move, count]
    dsimp only
    omega
  case values =>
    rw [Threads.shared_move, datas]
    simpa [Event.unlinkedData, Event.linkedData] using sound.values
  case returned =>
    rw [Threads.shared_move, PopPlace.pending_congr fun k _ => congrFun datas k]
    simpa [Event.unlinkedData, Event.returnedData] using sound.returned

theorem push_sound (sound : Sound past m nodes)
    (step : PushStep m.shared.stack (m.place i) event stack place) :
    ∃ nodes', Sound (past ++ [event]) (m.move i ⟨stack, m.shared.popper⟩ place) nodes' := by
  have ready := sound.pushers i
  generalize here : m.place i = before at step
  rw [here] at ready
  cases step with
  | call data =>
    exact ⟨nodes, own_node sound rfl rfl rfl (fun _ _ => ⟨rfl, rfl⟩) (by rw [here]; rfl)
      (by rw [here]; rfl) trivial⟩
  | alloc data free => exact ⟨nodes, alloc_node sound here free rfl⟩
  | setData data n =>
    refine ⟨nodes, own_node sound rfl rfl rfl (fun k other => ⟨?_, rfl⟩) (by rw [here]; rfl)
      (by rw [here]; rfl) (Function.update_self ..)⟩
    rw [here] at other
    exact Function.update_of_ne (fun same => other (congrArg some same.symm)) _ _
  | readTop data n =>
    exact ⟨nodes, own_node sound rfl rfl rfl (fun _ _ => ⟨rfl, rfl⟩) (by rw [here]; rfl)
      (by rw [here]; rfl) ready⟩
  | setNext data n tempTop =>
    refine ⟨nodes, own_node sound rfl rfl rfl (fun k other => ⟨rfl, ?_⟩) (by rw [here]; rfl)
      (by rw [here]; rfl) ⟨ready, Function.update_self ..⟩⟩
    rw [here] at other
    exact Function.update_of_ne (fun same => other (congrArg some same.symm)) _ _
  | exchange data n same => exact ⟨n :: nodes, link_node sound here same rfl⟩
  | retry data n other =>
    exact ⟨nodes, own_node sound rfl rfl rfl (fun _ _ => ⟨rfl, rfl⟩) (by rw [here]; rfl)
      (by rw [here]; rfl) ready.1⟩
  | count => exact ⟨nodes, count_node sound here rfl⟩

end Push

/-! ## Steps of the popper -/

section Pop
variable {ι : Type*} {α : Type*} [Fintype ι] {past : List (Event α)}
  {m : Threads ι (Shared α) (PushPlace α)} {nodes : List Node} {stack : Stack α}
  {popper : PopPlace α} {event : Event α}

/-- A popper that changes at most `nodeCount`, and with it what it has counted out. -/
theorem popper_moves (sound : Sound past m nodes) (top : stack.top = m.shared.stack.top)
    (next : stack.next = m.shared.stack.next) (datas : stack.data = m.shared.stack.data)
    (inUse : stack.inUse = m.shared.stack.inUse)
    (count : stack.nodeCount + popper.discounted =
      m.shared.stack.nodeCount + m.shared.popper.discounted)
    (node : popper.node = m.shared.popper.node)
    (pending : popper.pending stack = m.shared.popper.pending m.shared.stack)
    (self : popper.Sound stack nodes) (quiet : event = .other ∨ event = .refused) :
    Sound (past ++ [event]) { m with shared := ⟨stack, popper⟩ } nodes := by
  have silent : event.linkedData = [] ∧ event.unlinkedData = [] ∧ event.returnedData = [] := by
    rcases quiet with rfl | rfl <;> exact ⟨rfl, rfl, rfl⟩
  obtain ⟨linked, unlinked, returned⟩ := silent
  constructor
  case chain =>
    rw [top, next]
    exact sound.chain
  case linked =>
    rw [inUse]
    exact sound.linked
  case held =>
    rw [inUse]
    exact sound.held
  case apart => exact sound.apart
  case popped =>
    rw [inUse]
    exact fun n own => sound.popped n (node ▸ own)
  case pushers =>
    exact fun j => (sound.pushers j).congr fun n _ => ⟨congrFun datas n, congrFun next n⟩
  case popper => exact self
  case count =>
    have before := sound.count
    have total : Threads.total PushPlace.uncounted { m with shared := (⟨stack, popper⟩ : Shared α) } =
        Threads.total PushPlace.uncounted m := rfl
    rw [total]
    dsimp only
    omega
  case values =>
    rw [List.flatMap_append, List.flatMap_append, datas]
    simpa [linked, unlinked] using sound.values
  case returned =>
    rw [List.flatMap_append, List.flatMap_append, pending]
    simpa [unlinked, returned] using sound.returned

/-- A successful exchange takes the first node off: the popper has read it as the top
and its `next` since, and only the popper moves the stamp. -/
theorem unlink_node {tempTop newTop : Top} {pTop : Node} (sound : Sound past m nodes)
    (here : m.shared.popper = .exchange tempTop newTop pTop) (same : m.shared.stack.top = tempTop)
    (moved : stack = { m.shared.stack with top := newTop }) :
    ∃ rest, Sound (past ++ [.unlinked (m.shared.stack.data pTop)])
      { m with shared := ⟨stack, .readData pTop⟩ } rest := by
  have ready := sound.popper
  rw [here] at ready
  obtain ⟨top, member, next⟩ := ready
  obtain ⟨rest, rfl, later⟩ : ∃ rest, nodes = pTop :: rest ∧
      Chain m.shared.stack.next (m.shared.stack.next pTop) rest := by
    have chain := sound.chain
    rw [same, top] at chain
    cases chain with
    | cons later => exact ⟨_, rfl, later⟩
  have distinct := List.nodup_cons.mp sound.chain.nodup
  refine ⟨rest, ?_⟩
  subst moved
  constructor
  case chain =>
    dsimp only
    rw [next]
    exact later
  case linked => exact fun n member => sound.linked n (List.mem_cons_of_mem _ member)
  case held =>
    exact fun j n own => ⟨(sound.held j n own).1,
      fun member => (sound.held j n own).2 (List.mem_cons_of_mem _ member)⟩
  case apart => exact sound.apart
  case popped =>
    intro n own
    obtain rfl : pTop = n := Option.some.inj own
    exact ⟨sound.linked pTop member, distinct.1,
      fun j held => (sound.held j pTop held).2 member⟩
  case pushers => exact fun j => (sound.pushers j).congr fun n _ => ⟨rfl, rfl⟩
  case popper => trivial
  case count =>
    have before := sound.count
    have total : Threads.total PushPlace.uncounted { m with shared :=
        (⟨{ m.shared.stack with top := newTop }, .readData pTop⟩ : Shared α) } =
        Threads.total PushPlace.uncounted m := rfl
    rw [here] at before
    simp only [PopPlace.discounted, List.length_cons] at before
    rw [total]
    simp only [PopPlace.discounted]
    omega
  case values =>
    simpa [Event.unlinkedData, Event.linkedData, List.append_assoc] using sound.values
  case returned =>
    have before := sound.returned
    rw [here] at before
    simpa [Event.unlinkedData, Event.returnedData, PopPlace.pending] using before

theorem free_node {pTop : Node} {data : α} (sound : Sound past m nodes)
    (here : m.shared.popper = .free pTop data)
    (moved : stack = { m.shared.stack with inUse := Function.update m.shared.stack.inUse pTop false }) :
    Sound (past ++ [.returned data]) { m with shared := ⟨stack, .idle⟩ } nodes := by
  obtain ⟨_, away, apart⟩ := sound.popped pTop (by rw [here]; rfl)
  have stays (k : Node) (other : k ≠ pTop) : stack.inUse k = m.shared.stack.inUse k := by
    rw [moved]
    exact Function.update_of_ne other ..
  constructor
  case chain =>
    rw [moved]
    exact sound.chain
  case linked =>
    intro n member
    exact (stays n fun same => away (same ▸ member)).trans (sound.linked n member)
  case held =>
    intro j n own
    exact ⟨(stays n fun same => apart j (same ▸ own)).trans (sound.held j n own).1,
      (sound.held j n own).2⟩
  case apart => exact sound.apart
  case popped => exact fun n own => nomatch own
  case pushers =>
    rw [moved]
    exact fun j => (sound.pushers j).congr fun n _ => ⟨rfl, rfl⟩
  case popper => trivial
  case count =>
    have before := sound.count
    rw [here] at before
    rw [moved]
    exact before
  case values =>
    rw [moved]
    simpa [Event.unlinkedData, Event.linkedData] using sound.values
  case returned =>
    have before := sound.returned
    rw [here] at before
    simpa [Event.unlinkedData, Event.returnedData, PopPlace.pending] using before

theorem pop_sound (sound : Sound past m nodes)
    (step : PopStep m.shared.stack m.shared.popper event stack popper) :
    ∃ nodes', Sound (past ++ [event]) { m with shared := ⟨stack, popper⟩ } nodes' := by
  have ready := sound.popper
  have count := sound.count
  generalize here : m.shared.popper = before at step
  rw [here] at ready count
  cases step with
  | refuse none =>
    exact ⟨nodes, popper_moves sound rfl rfl rfl rfl (by rw [here]) (by rw [here]) (by rw [here])
      trivial (.inr rfl)⟩
  | call some =>
    refine ⟨nodes, popper_moves sound rfl rfl rfl rfl (by rw [here]; rfl) (by rw [here]; rfl)
      (by rw [here]; rfl) ?_ (.inl rfl)⟩
    rintro rfl
    simp only [PopPlace.discounted, List.length_nil] at count
    omega
  | discount =>
    exact ⟨nodes, popper_moves sound rfl rfl rfl rfl (by rw [here]; simp [PopPlace.discounted])
      (by rw [here]; rfl) (by rw [here]; rfl) ready (.inl rfl)⟩
  | null null =>
    have chain := sound.chain
    rw [null] at chain
    cases chain
    exact absurd rfl ready
  | @readTop pTop top =>
    refine ⟨nodes, popper_moves sound rfl rfl rfl rfl (by rw [here]; rfl) (by rw [here]; rfl)
      (by rw [here]; rfl) ⟨top, ?_⟩ (.inl rfl)⟩
    have chain := sound.chain
    rw [top] at chain
    cases chain
    exact List.mem_cons_self ..
  | readNext tempTop pTop =>
    exact ⟨nodes, popper_moves sound rfl rfl rfl rfl (by rw [here]; rfl) (by rw [here]; rfl)
      (by rw [here]; rfl) ⟨ready.1, ready.2, rfl⟩ (.inl rfl)⟩
  | exchange newTop pTop same => exact unlink_node sound here same rfl
  | retry newTop pTop other =>
    exact ⟨nodes, popper_moves sound rfl rfl rfl rfl (by rw [here]; rfl) (by rw [here]; rfl)
      (by rw [here]; rfl) (List.ne_nil_of_mem ready.2.1) (.inl rfl)⟩
  | readData pTop =>
    exact ⟨nodes, popper_moves sound rfl rfl rfl rfl (by rw [here]; rfl) (by rw [here]; rfl)
      (by rw [here]; rfl) trivial (.inl rfl)⟩
  | free pTop data => exact ⟨nodes, free_node sound here rfl⟩
  | recount => exact ready.elim

end Pop

/-! ## Runs -/

section Runs
variable {ι : Type*} {α : Type*} {events : List (Event α)}
  {m m' : Threads ι (Shared α) (PushPlace α)} {next : Node → Option Node} {data : Node → α}

def Quiescent (m : Threads ι (Shared α) (PushPlace α)) : Prop :=
  m.shared.popper = .idle ∧ ∀ i, m.place i = .idle

/-- What the stack has done with the values pushed. A value is linked when the exchange
of its `push` succeeds, and unlinked by the exchange of a `pop`. -/
structure KeepsValues (events : List (Event α)) (m : Threads ι (Shared α) (PushPlace α))
    (nodes : List Node) : Prop where
  chain : Chain m.shared.stack.next m.shared.stack.top.pointer nodes
  values : (events.flatMap Event.unlinkedData ++ nodes.map m.shared.stack.data).Perm
    (events.flatMap Event.linkedData)
  returned : events.flatMap Event.unlinkedData =
    events.flatMap Event.returnedData ++ m.shared.popper.pending m.shared.stack
  count : Quiescent m → m.shared.stack.nodeCount = nodes.length
  refused : Quiescent m → ∀ stack popper,
    PopStep m.shared.stack m.shared.popper .refused stack popper → nodes = []
  decided : m.shared.popper ≠ .recount

theorem start_sound [Fintype ι] (next : Node → Option Node) (data : Node → α) :
    Sound [] (start next data : Threads ι (Shared α) (PushPlace α)) [] where
  chain := .nil
  linked := fun _ member => nomatch member
  held := fun _ _ own => nomatch own
  apart := fun _ _ _ own => nomatch own
  popped := fun _ own => nomatch own
  pushers := fun _ => trivial
  popper := trivial
  count := by
    have total := Threads.total_zero PushPlace.uncounted
      (start next data : Threads ι (Shared α) (PushPlace α)) fun _ => rfl
    rw [total]
    rfl
  values := .nil
  returned := rfl

variable [Fintype ι] [DecidableEq ι]

theorem step_sound {past : List (Event α)} {nodes : List Node} {event : Event α}
    (sound : Sound past m nodes) (step : Step m event m') :
    ∃ nodes', Sound (past ++ [event]) m' nodes' := by
  cases step with
  | push i step => exact push_sound sound step
  | pop step => exact pop_sound sound step

/-- Nothing pushed is lost or doubled, however the steps interleave. -/
theorem stack_keeps_values (run : Run Step (start next data) events m) :
    ∃ nodes, KeepsValues events m nodes := by
  obtain ⟨nodes, sound⟩ := run.history (P := fun past m => ∃ nodes, Sound past m nodes)
    (fun _ _ _ _ sound step => step_sound sound.choose_spec step) ⟨[], start_sound next data⟩
  have count (quiet : Quiescent m) : m.shared.stack.nodeCount = nodes.length := by
    have counted := sound.count
    have total := Threads.total_zero PushPlace.uncounted m fun i => by rw [quiet.2 i]; rfl
    rw [total, quiet.1] at counted
    simpa [PopPlace.discounted] using counted
  have decided : m.shared.popper ≠ .recount := by
    intro here
    have ready := sound.popper
    rw [here] at ready
    exact ready
  refine ⟨nodes, sound.chain, sound.values, sound.returned, count, fun quiet stack popper step => ?_,
    decided⟩
  have empty := count quiet
  rw [quiet.1] at step
  cases step with
  | refuse none => exact List.eq_nil_of_length_eq_zero (by omega)

end Runs

/-- One push and one pop. -/
theorem stack_keeps_pushed :
    ∃ (events : List (Event Nat)) (m : Threads Unit (Shared Nat) (PushPlace Nat)),
      Run Step (start (fun _ => none) fun _ => 0) events m ∧
      events.flatMap Event.linkedData = [7] ∧ events.flatMap Event.returnedData = [7] ∧
      Quiescent m ∧ ∃ nodes, KeepsValues events m nodes := by
  have run : Run Step (start (ι := Unit) (fun _ => none) fun _ => 0) _ _ :=
    .cons (.push () (.call _ 7)) <| .cons (.push () (@PushStep.alloc _ _ 7 3 rfl)) <|
    .cons (.push () (.setData _ 7 3)) <| .cons (.push () (.readTop _ 7 3)) <|
    .cons (.push () (.setNext _ 7 3 _)) <| .cons (.push () (.exchange 7 3 rfl)) <|
    .cons (.push () (.count _)) <|
    .cons (.pop (.call (by decide))) <| .cons (.pop (.discount _)) <|
    .cons (.pop (@PopStep.readTop _ _ 3 rfl)) <| .cons (.pop (.readNext _ _ 3)) <|
    .cons (.pop (.exchange _ 3 rfl)) <| .cons (.pop (.readData _ 3)) <|
    .cons (.pop (.free _ 3 _)) <| .nil _
  exact ⟨_, _, run, rfl, rfl, ⟨rfl, fun _ => rfl⟩, stack_keeps_values run⟩

end NewNameAuction.LockFreeStack
