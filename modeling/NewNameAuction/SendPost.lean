import NewNameAuction.Interleaving
import NewNameAuction.SessionSlot

/-! The sends of one session: `sendPacket`, `sendPost` and the send completion of
`WorkerThread`, each access of what they share one step of some thread. The session is
the same throughout, so that `IOcount` does not show. -/
namespace NewNameAuction.SendPost

/-- `dfMAX_PACKET`. -/
def maxPacket : Nat := 950

/-- `sendQueue` is taken as a FIFO queue: `Enqueue`, `Dequeue` and the read of its
`nodeCount`, which is its length, are one step each. This is an assumption about
`LockFreeQueue`, which several threads enqueue to: it holds in no run in which a node is
recycled while another thread still works on it. `requests` are the `SENDPOST_REQ` posted and
not taken, `inFlight` the calls of `WSASend` not completed. On record are the packets
queued, each with its `LastPacket`, and those of the completed calls. -/
structure Session (α : Type*) where
  disconnectStep : SessionSlot.DisconnectStep
  sendFlag : Bool
  sendQueue : List α
  requests : Nat
  inFlight : List (List α)
  queued : List (α × Bool)
  completed : List α

def Session.start (α : Type*) : Session α where
  disconnectStep := .normalState
  sendFlag := false
  sendQueue := []
  requests := 0
  inFlight := []
  queued := []
  completed := []

/-- Where a thread stands: before which access. -/
inductive Place (α : Type*)
  | idle
  /-- `sendPacket`: `disconnectStep`, `Enqueue`, the exchange for `LastPacket`, the
  request. -/
  | found (packet : α) (lastPacket : Bool)
  | enqueue (packet : α) (lastPacket : Bool)
  | last
  | post
  /-- `sendPost`: `sendFlag`, `disconnectStep`, `nodeCount`, and `sendFlag` again when it
  returns. -/
  | takeFlag
  | readStep
  | readCount
  | giveBack
  /-- `Dequeue`, the read of `disconnectStep`, its exchange, `WSASend`. -/
  | dequeue (batch : List α)
  | readLast (batch : List α)
  | markLast (batch : List α)
  | send (batch : List α)
  /-- After an error of `WSASend`: `disconnectStep`, `sendFlag`. -/
  | failed
  | failedFlag
  | readCancel
  /-- The completion: `disconnectStep`, twice, `sendFlag`, `nodeCount`. -/
  | readPosted
  | cut
  | resetFlag
  | readMore
  deriving DecidableEq

inductive Event
  | other
  /-- `PostQueuedCompletionStatus` returns `FALSE`. -/
  | unposted
  /-- `WSASend` or its completion is an error. -/
  | sendFailed
  /-- The completion disconnects the session. -/
  | cut
  deriving DecidableEq

section Steps
variable {α : Type*}

/-- `sendPacket` with the session found, and `disconnectSession`. The packet goes to the
end of `sendQueue` in one step. -/
inductive PacketStep : Session α → Place α → Event → Session α → Place α → Prop
  | call (s : Session α) (packet : α) (lastPacket : Bool) :
      PacketStep s .idle .other s (.found packet lastPacket)
  | disconnected {s : Session α} (packet : α) (lastPacket : Bool)
      (step : s.disconnectStep = .disconnect) :
      PacketStep s (.found packet lastPacket) .other s .idle
  | connected {s : Session α} (packet : α) (lastPacket : Bool)
      (step : s.disconnectStep ≠ .disconnect) :
      PacketStep s (.found packet lastPacket) .other s (.enqueue packet lastPacket)
  | enqueue (s : Session α) (packet : α) (lastPacket : Bool) :
      PacketStep s (.enqueue packet lastPacket) .other
        { s with
          sendQueue := s.sendQueue ++ [packet]
          queued := s.queued ++ [(packet, lastPacket)] }
        (if lastPacket then .last else .post)
  | last {s : Session α} (step : s.disconnectStep = .normalState) :
      PacketStep s .last .other { s with disconnectStep := .sendPacketLast } .post
  | lastFails {s : Session α} (step : s.disconnectStep ≠ .normalState) :
      PacketStep s .last .other s .post
  | post (s : Session α) : PacketStep s .post .other { s with requests := s.requests + 1 } .idle
  | unposted (s : Session α) : PacketStep s .post .unposted s .idle
  | disconnect (s : Session α) :
      PacketStep s .idle .other { s with disconnectStep := .disconnect } .idle

inductive PostStep : Session α → Place α → Event → Session α → Place α → Prop
  | taken {s : Session α} (free : s.sendFlag = false) :
      PostStep s .takeFlag .other { s with sendFlag := true } .readStep
  | busy {s : Session α} (held : s.sendFlag = true) :
      PostStep s .takeFlag .other { s with sendFlag := true } .idle
  | disconnected {s : Session α} (step : s.disconnectStep = .disconnect) :
      PostStep s .readStep .other s .giveBack
  | connected {s : Session α} (step : s.disconnectStep ≠ .disconnect) :
      PostStep s .readStep .other s .readCount
  | none {s : Session α} (empty : s.sendQueue = []) : PostStep s .readCount .other s .giveBack
  | some {s : Session α} (more : s.sendQueue ≠ []) : PostStep s .readCount .other s (.dequeue [])
  | giveBack (s : Session α) : PostStep s .giveBack .other { s with sendFlag := false } .idle
  | dequeue {s : Session α} {batch : List α} {packet : α} {rest : List α}
      (room : batch.length < maxPacket) (queue : s.sendQueue = packet :: rest) :
      PostStep s (.dequeue batch) .other { s with sendQueue := rest } (.dequeue (batch ++ [packet]))
  | empty {s : Session α} {batch : List α} (room : batch.length < maxPacket)
      (queue : s.sendQueue = []) : PostStep s (.dequeue batch) .other s (.readLast batch)
  | full {s : Session α} {batch : List α} (full : maxPacket ≤ batch.length) :
      PostStep s (.dequeue batch) .other s (.readLast batch)
  | isLast {s : Session α} (batch : List α) (step : s.disconnectStep = .sendPacketLast) :
      PostStep s (.readLast batch) .other s (.markLast batch)
  | notLast {s : Session α} (batch : List α) (step : s.disconnectStep ≠ .sendPacketLast) :
      PostStep s (.readLast batch) .other s (.send batch)
  | mark {s : Session α} (batch : List α) (step : s.disconnectStep = .sendPacketLast) :
      PostStep s (.markLast batch) .other { s with disconnectStep := .sendPostLast } (.send batch)
  | markFails {s : Session α} (batch : List α) (step : s.disconnectStep ≠ .sendPacketLast) :
      PostStep s (.markLast batch) .other s (.send batch)
  | send (s : Session α) (batch : List α) :
      PostStep s (.send batch) .other { s with inFlight := s.inFlight ++ [batch] } .readCancel
  | sendFails (s : Session α) (batch : List α) :
      PostStep s (.send batch) .sendFailed s .failed
  | failed (s : Session α) :
      PostStep s .failed .other { s with disconnectStep := .disconnect } .failedFlag
  | failedFlag (s : Session α) :
      PostStep s .failedFlag .other { s with sendFlag := false } .readCancel
  | readCancel (s : Session α) : PostStep s .readCancel .other s .idle

/-- `WorkerThread` with a request, or with the completion of a `WSASend`. -/
inductive WorkerStep : Session α → Place α → Event → Session α → Place α → Prop
  | request {s : Session α} {others : Nat} (posted : s.requests = others + 1) :
      WorkerStep s .idle .other { s with requests := others } .takeFlag
  | completed {s : Session α} {before after : List (List α)} {batch : List α}
      (sent : s.inFlight = before ++ batch :: after) (transferred : batch ≠ []) :
      WorkerStep s .idle .other
        { s with inFlight := before ++ after, completed := s.completed ++ batch } .readPosted
  | completedFails {s : Session α} {before after : List (List α)} {batch : List α}
      (sent : s.inFlight = before ++ batch :: after) :
      WorkerStep s .idle .sendFailed { s with inFlight := before ++ after } .idle
  | posted {s : Session α} (step : s.disconnectStep = .sendPostLast) :
      WorkerStep s .readPosted .other s .cut
  | notPosted {s : Session α} (step : s.disconnectStep ≠ .sendPostLast) :
      WorkerStep s .readPosted .other s .resetFlag
  | cut (s : Session α) :
      WorkerStep s .cut .cut { s with disconnectStep := .disconnect } .resetFlag
  | resetFlag (s : Session α) :
      WorkerStep s .resetFlag .other { s with sendFlag := false } .readMore
  | more {s : Session α} (more : s.sendQueue ≠ []) : WorkerStep s .readMore .other s .takeFlag
  | noMore {s : Session α} (none : s.sendQueue = []) : WorkerStep s .readMore .other s .idle

inductive SendStep (s : Session α) (p : Place α) (event : Event) (s' : Session α) (p' : Place α) : Prop
  | packet (step : PacketStep s p event s' p')
  | post (step : PostStep s p event s' p')
  | worker (step : WorkerStep s p event s' p')

end Steps

section System
variable {ι : Type*} {α : Type*} [DecidableEq ι]

/-- A thread takes a step. -/
def Step (m : Threads ι (Session α) (Place α)) (label : ι × Event)
    (m' : Threads ι (Session α) (Place α)) : Prop :=
  ∃ s p, SendStep m.shared (m.place label.1) label.2 s p ∧ m' = m.move label.1 s p

def start (ι α : Type*) : Threads ι (Session α) (Place α) := ⟨.start α, fun _ => .idle⟩

end System

/-! ## Who has the flag -/

/-- A thread that answers for `sendFlag`. -/
def Place.holds {α : Type*} : Place α → Nat
  | .readStep | .readCount | .giveBack => 1
  | .dequeue _ | .readLast _ | .markLast _ | .send _ => 1
  | .failed | .failedFlag => 1
  | .readPosted | .cut | .resetFlag => 1
  | _ => 0

/-- The packets that a thread has in hand with the flag. -/
def Place.batch {α : Type*} : Place α → List α
  | .dequeue batch | .readLast batch | .markLast batch | .send batch => batch
  | _ => []

section Flag
variable {ι : Type*} {α : Type*} {s s' : Session α} {p p' : Place α} {event : Event}

/-- The flag is passed on: from a thread to its `WSASend`, to the thread that gets the
completion, and back. -/
theorem flag_step (step : SendStep s p event s' p') (held : 0 < p.holds → s.sendFlag = true) :
    p'.holds + s'.inFlight.length + s.sendFlag.toNat ≤
        p.holds + s.inFlight.length + s'.sendFlag.toNat ∧
      (event ≠ .sendFailed → p.holds + s.inFlight.length + s'.sendFlag.toNat ≤
        p'.holds + s'.inFlight.length + s.sendFlag.toNat) := by
  rcases step with step | step | step
  · cases step with
    | enqueue packet lastPacket => cases lastPacket <;> simp [Place.holds]
    | _ => simp [Place.holds]
  · cases step with
    | taken | giveBack | send _ | failedFlag =>
      simp_all only [Place.holds, Nat.one_pos, forall_const, List.length_append, List.length_singleton,
        Bool.toNat_true, Bool.toNat_false]
      omega
    | _ => simp_all [Place.holds]
  · cases step <;> simp_all [Place.holds] <;> omega

variable [Fintype ι]

/-- At most one thread or `WSASend` has the flag, and as long as every send succeeds, one
has it whenever it is set. -/
structure Exclusive (labels : List (ι × Event)) (m : Threads ι (Session α) (Place α)) : Prop where
  le : m.total Place.holds + m.shared.inFlight.length ≤ m.shared.sendFlag.toNat
  ge : (∀ label ∈ labels, label.2 ≠ .sendFailed) →
    m.shared.sendFlag.toNat ≤ m.total Place.holds + m.shared.inFlight.length

theorem Exclusive.held {labels : List (ι × Event)} {m : Threads ι (Session α) (Place α)}
    (exclusive : Exclusive labels m) {i : ι} (holds : 0 < (m.place i).holds) :
    m.shared.sendFlag = true := by
  have le := exclusive.le
  have one := m.le_total Place.holds i
  cases set : m.shared.sendFlag with
  | true => rfl
  | false =>
    rw [set, Bool.toNat_false] at le
    omega

section Owners
variable {labels : List (ι × Event)} {m : Threads ι (Session α) (Place α)} (exclusive : Exclusive labels m)
include exclusive

theorem Exclusive.alone {i : ι} (holds : 0 < (m.place i).holds) :
    m.shared.inFlight = [] ∧ ∀ j, j ≠ i → (m.place j).holds = 0 := by
  have le := exclusive.le
  rw [exclusive.held holds, Bool.toNat_true] at le
  refine ⟨List.eq_nil_of_length_eq_zero ?_, fun j other => ?_⟩
  · have one := m.le_total Place.holds i
    omega
  · have two := m.add_le_total Place.holds other
    omega

theorem Exclusive.flying {before after : List (List α)} {batch : List α}
    (sent : m.shared.inFlight = before ++ batch :: after) :
    before = [] ∧ after = [] ∧ ∀ i, (m.place i).holds = 0 := by
  have le := exclusive.le
  have flag := m.shared.sendFlag.toNat_le
  rw [sent, List.length_append, List.length_cons] at le
  refine ⟨List.eq_nil_of_length_eq_zero ?_, List.eq_nil_of_length_eq_zero ?_, fun i => ?_⟩
  · omega
  · omega
  · have one := m.le_total Place.holds i
    omega

theorem Exclusive.free (free : m.shared.sendFlag = false) :
    m.shared.inFlight = [] ∧ ∀ i, (m.place i).holds = 0 := by
  have le := exclusive.le
  rw [free, Bool.toNat_false] at le
  refine ⟨List.eq_nil_of_length_eq_zero ?_, fun i => ?_⟩
  · omega
  · have one := m.le_total Place.holds i
    omega

end Owners

variable [DecidableEq ι] {labels : List (ι × Event)} {m m' : Threads ι (Session α) (Place α)}

theorem exclusive_step {label : ι × Event} (exclusive : Exclusive labels m) (step : Step m label m') :
    Exclusive (labels ++ [label]) m' := by
  obtain ⟨s, p, step, rfl⟩ := step
  obtain ⟨less, more⟩ := flag_step step exclusive.held
  have total := m.total_move label.1 s p Place.holds
  have le := exclusive.le
  refine ⟨?_, fun succeed => ?_⟩
  · rw [Threads.shared_move]
    omega
  · have ge := exclusive.ge fun other member => succeed other (List.mem_append_left _ member)
    have more := more (succeed label (List.mem_append_right _ (List.mem_singleton_self _)))
    rw [Threads.shared_move]
    omega

theorem run_exclusive (run : Run Step (start ι α) labels m) : Exclusive labels m := by
  refine run.history (fun _ _ _ _ exclusive step => exclusive_step exclusive step)
    ⟨?_, fun _ => Nat.zero_le _⟩
  rw [Threads.total_zero Place.holds _ fun _ => rfl]
  exact Nat.zero_le _

end Flag

/-! ## Taking the steps -/

section Advance
variable {ι : Type*} {α : Type*} {s s' : Session α} {p p' : Place α} {event : Event}

/-- What the steps leave open: what an idle thread does, and whether a call fails. -/
inductive Choice (α : Type*)
  | sendPacket (packet : α) (lastPacket : Bool)
  | disconnect
  | request
  | completion
  | go
  | fail

/-- The step of a thread, once the choice is made. -/
def advance (s : Session α) : Place α → Choice α → Option (Event × Session α × Place α)
  | .idle, .sendPacket packet lastPacket => some (.other, s, .found packet lastPacket)
  | .idle, .disconnect => some (.other, { s with disconnectStep := .disconnect }, .idle)
  | .idle, .request => match s.requests with
    | 0 => none
    | others + 1 => some (.other, { s with requests := others }, .takeFlag)
  | .idle, .completion => match s.inFlight with
    | (packet :: more) :: after => some (.other,
        { s with inFlight := after, completed := s.completed ++ packet :: more }, .readPosted)
    | _ => none
  | .found packet lastPacket, .go => if s.disconnectStep = .disconnect then some (.other, s, .idle)
      else some (.other, s, .enqueue packet lastPacket)
  | .enqueue packet lastPacket, .go => some (.other,
      { s with
        sendQueue := s.sendQueue ++ [packet]
        queued := s.queued ++ [(packet, lastPacket)] },
      if lastPacket then .last else .post)
  | .last, .go => if s.disconnectStep = .normalState then
      some (.other, { s with disconnectStep := .sendPacketLast }, .post) else some (.other, s, .post)
  | .post, .go => some (.other, { s with requests := s.requests + 1 }, .idle)
  | .post, .fail => some (.unposted, s, .idle)
  | .takeFlag, .go => if s.sendFlag = false then
      some (.other, { s with sendFlag := true }, .readStep)
      else some (.other, { s with sendFlag := true }, .idle)
  | .readStep, .go => if s.disconnectStep = .disconnect then some (.other, s, .giveBack)
      else some (.other, s, .readCount)
  | .readCount, .go => match s.sendQueue with
    | [] => some (.other, s, .giveBack)
    | _ :: _ => some (.other, s, .dequeue [])
  | .giveBack, .go => some (.other, { s with sendFlag := false }, .idle)
  | .dequeue batch, .go => if batch.length < maxPacket then
      match s.sendQueue with
      | [] => some (.other, s, .readLast batch)
      | packet :: rest => some (.other, { s with sendQueue := rest }, .dequeue (batch ++ [packet]))
      else some (.other, s, .readLast batch)
  | .readLast batch, .go => if s.disconnectStep = .sendPacketLast then
      some (.other, s, .markLast batch) else some (.other, s, .send batch)
  | .markLast batch, .go => if s.disconnectStep = .sendPacketLast then
      some (.other, { s with disconnectStep := .sendPostLast }, .send batch)
      else some (.other, s, .send batch)
  | .send batch, .go => some (.other, { s with inFlight := s.inFlight ++ [batch] }, .readCancel)
  | .send _, .fail => some (.sendFailed, s, .failed)
  | .failed, .go => some (.other, { s with disconnectStep := .disconnect }, .failedFlag)
  | .failedFlag, .go => some (.other, { s with sendFlag := false }, .readCancel)
  | .readCancel, .go => some (.other, s, .idle)
  | .readPosted, .go => if s.disconnectStep = .sendPostLast then some (.other, s, .cut)
      else some (.other, s, .resetFlag)
  | .cut, .go => some (.cut, { s with disconnectStep := .disconnect }, .resetFlag)
  | .resetFlag, .go => some (.other, { s with sendFlag := false }, .readMore)
  | .readMore, .go => match s.sendQueue with
    | [] => some (.other, s, .idle)
    | _ :: _ => some (.other, s, .takeFlag)
  | _, _ => none

theorem advance_step {choice : Choice α} (advanced : advance s p choice = some (event, s', p')) :
    SendStep s p event s' p' := by
  revert advanced
  fun_cases advance s p choice <;> intro advanced <;> cases advanced
  all_goals first
    | exact .post (.full (Nat.le_of_not_lt ‹_›))
    | exact .worker (@WorkerStep.completed _ _ [] _ _ ‹_› (List.cons_ne_nil _ _))
    | exact .packet (by constructor <;> assumption)
    | exact .post (by constructor <;> first | assumption | simp_all)
    | exact .worker (by constructor <;> first | assumption | simp_all)

variable [DecidableEq ι]

/-- A thread is chosen, and what it does if that is open. -/
def turn (m : Threads ι (Session α) (Place α)) (choice : ι × Choice α) :
    Option ((ι × Event) × Threads ι (Session α) (Place α)) :=
  (advance m.shared (m.place choice.1) choice.2).map fun after =>
    ((choice.1, after.1), m.move choice.1 after.2.1 after.2.2)

theorem turn_step {m m' : Threads ι (Session α) (Place α)} {choice : ι × Choice α}
    {label : ι × Event} (turned : turn m choice = some (label, m')) : Step m label m' := by
  obtain ⟨⟨event, s, p⟩, advanced, same⟩ := Option.map_eq_some_iff.mp turned
  obtain ⟨rfl, rfl⟩ := Prod.mk.inj same
  exact ⟨s, p, advance_step advanced, rfl⟩

end Advance

end NewNameAuction.SendPost
