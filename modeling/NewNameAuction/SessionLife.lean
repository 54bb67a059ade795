import NewNameAuction.Interleaving
import NewNameAuction.SessionSlot

/-! The life of the sessions in `sessionList`: each access to the fields that decide it,
by `AcceptThread`, `findSession` and its callers, `WorkerThread` and `releaseSession`, is
one step. First one slot, then the server with all its slots, the stack of the empty
indexes and the number for the next session. -/
namespace NewNameAuction.SessionLife
open SessionSlot (delflagOff delflagOn)

/-! ## A slot -/

/-- `pending` are the completions that have a count of `IOcount`: operations in flight and
the `SENDPOST_REQ` posted. `requests` are the `RELEASE_REQ` posted. `free` counts the times
`emptyIndexStack` has the index. On record are the session numbers the slot has had. -/
structure Slot where
  sessionID : Int64
  isValid : Bool
  releaseFlag : Int
  ioCount : Int
  pending : Nat
  requests : Nat
  free : Nat
  ids : List Int64

/-- After `Start`, which does not write the session number. -/
def Slot.start (sessionID : Int64) : Slot where
  sessionID := sessionID
  isValid := false
  releaseFlag := delflagOff
  ioCount := 0
  pending := 0
  requests := 0
  free := 1
  ids := []

inductive Event
  | other
  /-- `AcceptThread` has taken the index, has given the session its number, calls
  `OnClientJoin`. -/
  | popped
  | accepted (id : Int64)
  | joined (id : Int64)
  /-- `releaseSession` calls `OnClientLeave`, and gives the index back. -/
  | left (id : Int64)
  | pushed
  /-- `WSARecv` of `AcceptThread`, or the post of a `RELEASE_REQ`, is an error. -/
  | recvFailed
  | unrequested
  deriving DecidableEq

/-- Where a thread stands: before which access to the slot. -/
inductive Place
  | idle
  /-- `findSession(id)`: `isValid`, `IOcount++`, `releaseFlag`, `sessionID`, and the
  `--IOcount` before it returns false. -/
  | findValid (id : Int64)
  | findEnter (id : Int64)
  | findFlag (id : Int64)
  | findID (id : Int64)
  | findFailed
  /-- Its callers with the session: after `IOcount++` the post of `SENDPOST_REQ`, and the
  `--IOcount` at the end. -/
  | found (id : Int64)
  | posting
  | unposted
  | leave
  /-- The thread has brought `IOcount` to 0: the post of `RELEASE_REQ`. -/
  | zero
  /-- A worker with a completion, and with an operation it starts. -/
  | working
  | starting
  /-- A worker that will release the session: the read of `sessionID`. -/
  | finished
  /-- `releaseSession(id)`: `isValid`, `IOcount`, the compare-exchange, and the two reads
  of `sessionID`. -/
  | releaseValid (id : Int64)
  | releaseCount (id : Int64)
  | releaseFlag (id : Int64) (tempCount : Int)
  | releaseID (id : Int64)
  | releaseCheck (id tempID : Int64)
  /-- Another session has the slot: `IOcount++`, `releaseFlag`, `--IOcount`. -/
  | reenter (tempID : Int64)
  | reopen (tempID : Int64)
  | relet (tempID : Int64)
  /-- The clean-up: `isValid`, `OnClientLeave`, `emptyIndexStack`. -/
  | clean (id : Int64)
  | leaving (id : Int64)
  | push
  /-- `AcceptThread`: `sessionID`, `IOcount++`, `isValid`, `releaseFlag`, `OnClientJoin`,
  `WSARecv`. -/
  | acceptID
  | acceptEnter
  | acceptValid
  | acceptFlag
  | acceptJoin
  | acceptRecv
  deriving DecidableEq

/-- `findSession`. -/
inductive FindStep : Slot → Place → Event → Slot → Place → Prop
  | call (s : Slot) (id : Int64) : FindStep s .idle .other s (.findValid id)
  | invalid {s : Slot} (id : Int64) (invalid : s.isValid = false) :
      FindStep s (.findValid id) .other s .idle
  | valid {s : Slot} (id : Int64) (valid : s.isValid = true) :
      FindStep s (.findValid id) .other s (.findEnter id)
  | enter (s : Slot) (id : Int64) :
      FindStep s (.findEnter id) .other { s with ioCount := s.ioCount + 1 } (.findFlag id)
  | on {s : Slot} (id : Int64) (on : s.releaseFlag = delflagOn) :
      FindStep s (.findFlag id) .other s .findFailed
  | off {s : Slot} (id : Int64) (off : s.releaseFlag ≠ delflagOn) :
      FindStep s (.findFlag id) .other s (.findID id)
  | other {s : Slot} (id : Int64) (other : id ≠ s.sessionID) :
      FindStep s (.findID id) .other s .findFailed
  | same {s : Slot} (id : Int64) (same : id = s.sessionID) :
      FindStep s (.findID id) .other s (.found id)
  | failed (s : Slot) :
      FindStep s .findFailed .other { s with ioCount := s.ioCount - 1 }
        (if s.ioCount - 1 = 0 then .zero else .idle)

/-- `sendPacket`, `disconnectSession` and `LogicThread` with the session found, and
`releaseRequest`. `LogicThread` releases the session itself. -/
inductive UseStep : Slot → Place → Event → Slot → Place → Prop
  | found (s : Slot) (id : Int64) : UseStep s (.found id) .other s .leave
  | dismiss (s : Slot) (id : Int64) :
      UseStep s (.found id) .other { s with ioCount := s.ioCount - 1 }
        (if s.ioCount - 1 = 0 then .releaseValid id else .idle)
  | post (s : Slot) (id : Int64) :
      UseStep s (.found id) .other { s with ioCount := s.ioCount + 1 } .posting
  | posted (s : Slot) : UseStep s .posting .other { s with pending := s.pending + 1 } .leave
  | unposted (s : Slot) :
      UseStep s .posting .other { s with ioCount := s.ioCount - 1 }
        (if s.ioCount - 1 = 0 then .unposted else .leave)
  | requestToo (s : Slot) :
      UseStep s .unposted .other { s with requests := s.requests + 1 } .leave
  | unrequestedToo (s : Slot) : UseStep s .unposted .unrequested s .leave
  | leave (s : Slot) :
      UseStep s .leave .other { s with ioCount := s.ioCount - 1 }
        (if s.ioCount - 1 = 0 then .zero else .idle)
  | request (s : Slot) : UseStep s .zero .other { s with requests := s.requests + 1 } .idle
  | unrequested (s : Slot) : UseStep s .zero .unrequested s .idle

/-- `WorkerThread` with a completion, in which `recvPost` and `sendPost` may start
operations, or with a `RELEASE_REQ`. -/
inductive WorkerStep : Slot → Place → Event → Slot → Place → Prop
  | take {s : Slot} {others : Nat} (pending : s.pending = others + 1) :
      WorkerStep s .idle .other { s with pending := others } .working
  | start (s : Slot) :
      WorkerStep s .working .other { s with ioCount := s.ioCount + 1 } .starting
  | started (s : Slot) :
      WorkerStep s .starting .other { s with pending := s.pending + 1 } .working
  | notStarted (s : Slot) :
      WorkerStep s .starting .other { s with ioCount := s.ioCount - 1 } .working
  | finish (s : Slot) :
      WorkerStep s .working .other { s with ioCount := s.ioCount - 1 }
        (if s.ioCount - 1 = 0 then .finished else .idle)
  | request {s : Slot} {others : Nat} (requests : s.requests = others + 1) :
      WorkerStep s .idle .other { s with requests := others } .finished
  | release (s : Slot) : WorkerStep s .finished .other s (.releaseValid s.sessionID)

/-- `releaseSession`. -/
inductive ReleaseStep : Slot → Place → Event → Slot → Place → Prop
  | invalid {s : Slot} (id : Int64) (invalid : s.isValid = false) :
      ReleaseStep s (.releaseValid id) .other s .idle
  | valid {s : Slot} (id : Int64) (valid : s.isValid = true) :
      ReleaseStep s (.releaseValid id) .other s (.releaseCount id)
  | count (s : Slot) (id : Int64) :
      ReleaseStep s (.releaseCount id) .other s (.releaseFlag id s.ioCount)
  | differs {s : Slot} (id : Int64) {tempCount : Int} (differs : s.releaseFlag ≠ tempCount) :
      ReleaseStep s (.releaseFlag id tempCount) .other s .idle
  | exchanged {s : Slot} (id : Int64) {tempCount : Int} (equal : s.releaseFlag = tempCount) :
      ReleaseStep s (.releaseFlag id tempCount) .other { s with releaseFlag := delflagOn }
        (.releaseID id)
  | read (s : Slot) (id : Int64) :
      ReleaseStep s (.releaseID id) .other s (.releaseCheck id s.sessionID)
  | other {s : Slot} {id : Int64} (tempID : Int64) (other : id ≠ s.sessionID) :
      ReleaseStep s (.releaseCheck id tempID) .other s (.reenter tempID)
  | reenter (s : Slot) (tempID : Int64) :
      ReleaseStep s (.reenter tempID) .other { s with ioCount := s.ioCount + 1 } (.reopen tempID)
  | reopen (s : Slot) (tempID : Int64) :
      ReleaseStep s (.reopen tempID) .other { s with releaseFlag := delflagOff } (.relet tempID)
  | relet (s : Slot) (tempID : Int64) :
      ReleaseStep s (.relet tempID) .other { s with ioCount := s.ioCount - 1 }
        (if s.ioCount - 1 = 0 then .releaseValid tempID else .idle)
  | same {s : Slot} {id : Int64} (tempID : Int64) (same : id = s.sessionID) :
      ReleaseStep s (.releaseCheck id tempID) .other s (.clean id)
  | clean (s : Slot) (id : Int64) :
      ReleaseStep s (.clean id) .other { s with isValid := false } (.leaving id)
  | leaving (s : Slot) (id : Int64) : ReleaseStep s (.leaving id) (.left id) s .push
  | push (s : Slot) : ReleaseStep s .push .pushed { s with free := s.free + 1 } .idle

/-- `AcceptThread`. -/
inductive AcceptStep : Slot → Place → Event → Slot → Place → Prop
  | pop {s : Slot} {others : Nat} (free : s.free = others + 1) :
      AcceptStep s .idle .popped { s with free := others } .acceptID
  | sessionID (s : Slot) (id : Int64) :
      AcceptStep s .acceptID (.accepted id) { s with sessionID := id, ids := s.ids ++ [id] }
        .acceptEnter
  | enter (s : Slot) :
      AcceptStep s .acceptEnter .other { s with ioCount := s.ioCount + 1 } .acceptValid
  | valid (s : Slot) : AcceptStep s .acceptValid .other { s with isValid := true } .acceptFlag
  | flag (s : Slot) :
      AcceptStep s .acceptFlag .other { s with releaseFlag := delflagOff } .acceptJoin
  | join (s : Slot) : AcceptStep s .acceptJoin (.joined s.sessionID) s .acceptRecv
  | recv (s : Slot) : AcceptStep s .acceptRecv .other { s with pending := s.pending + 1 } .idle
  | recvFailed (s : Slot) :
      AcceptStep s .acceptRecv .recvFailed { s with ioCount := s.ioCount - 1 } .idle

/-- What a sender or worker does. -/
inductive ServeStep (s : Slot) (p : Place) (event : Event) (s' : Slot) (p' : Place) : Prop
  | find (step : FindStep s p event s' p')
  | use (step : UseStep s p event s' p')
  | worker (step : WorkerStep s p event s' p')
  | release (step : ReleaseStep s p event s' p')

/-- `none` is `AcceptThread`, the others are senders and workers. -/
inductive SlotStep {κ : Type*} : Option κ → Slot → Place → Event → Slot → Place → Prop
  | accept {s s' : Slot} {p p' : Place} {event : Event} (step : AcceptStep s p event s' p') :
      SlotStep none s p event s' p'
  | serve (j : κ) {s s' : Slot} {p p' : Place} {event : Event} (step : ServeStep s p event s' p') :
      SlotStep (some j) s p event s' p'

section Slots
variable {κ : Type*} [DecidableEq κ]

/-- A thread takes a step at the slot. -/
def Step (m : Threads (Option κ) Slot Place) (label : Option κ × Event)
    (m' : Threads (Option κ) Slot Place) : Prop :=
  ∃ s p, SlotStep label.1 m.shared (m.place label.1) label.2 s p ∧ m' = m.move label.1 s p

def start (κ : Type*) (sessionID : Int64) : Threads (Option κ) Slot Place :=
  ⟨.start sessionID, fun _ => .idle⟩

end Slots

/-! ## The server -/

/-- `dfMAX_SESSION`. -/
def maxSession : Nat := 30000

/-- The number of a session: `AllocNum << 16 | index`. -/
def newSessionID (allocNum : Int64) (index : Nat) : Int64 := allocNum <<< 16 ||| Int64.ofNat index

/-- `(short)SessionID`, the index that `findSession` looks at. -/
def indexOf (id : Int64) : Int := id.toInt16.toInt

/-- `sessionList` up to `maxSession`, `emptyIndexStack` and `sessionAllocNum`. -/
structure Server (n : Nat) where
  slots : Fin n → Slot
  emptyIndexStack : List (Fin n)
  sessionAllocNum : Int64

/-- `Start` writes neither the session numbers nor `sessionAllocNum`. -/
def Server.start {n : Nat} (sessionIDs : Fin n → Int64) (sessionAllocNum : Int64) : Server n where
  slots := fun index => .start (sessionIDs index)
  emptyIndexStack := (List.finRange n).reverse
  sessionAllocNum := sessionAllocNum

/-- What a step at slot `index` does to the stack and to the next number. -/
inductive Shared {n : Nat} (index : Fin n) :
    Event → List (Fin n) → Int64 → List (Fin n) → Int64 → Prop
  | popped (stack : List (Fin n)) (allocNum : Int64) :
      Shared index .popped (index :: stack) allocNum stack allocNum
  | accepted (stack : List (Fin n)) (allocNum : Int64) :
      Shared index (.accepted (newSessionID allocNum index)) stack allocNum stack (allocNum + 1)
  | pushed (stack : List (Fin n)) (allocNum : Int64) :
      Shared index .pushed stack allocNum (index :: stack) allocNum
  | other {event : Event} (stack : List (Fin n)) (allocNum : Int64) (pops : event ≠ .popped)
      (accepts : ∀ id, event ≠ .accepted id) (pushes : event ≠ .pushed) :
      Shared index event stack allocNum stack allocNum

section Servers
variable {κ : Type*} {n : Nat}

/-- Where a thread stands at slot `index`. At any time it is at one slot, or at none. -/
def standing (index : Fin n) : Option (Fin n × Place) → Place
  | none => .idle
  | some (other, p) => if other = index then p else .idle

def stand (index : Fin n) (p : Place) : Option (Fin n × Place) :=
  if p = .idle then none else some (index, p)

variable [DecidableEq κ]

/-- A thread takes a step at a slot: at the one where it stands, or, from none, at any.
`findSession(id)` begins at the slot that `id` names. -/
inductive ServerStep (m : Threads (Option κ) (Server n) (Option (Fin n × Place))) :
    Option κ × Fin n × Event → Threads (Option κ) (Server n) (Option (Fin n × Place)) → Prop
  | step {i : Option κ} {index : Fin n} {event : Event} {s : Slot} {p : Place}
      {stack : List (Fin n)} {allocNum : Int64}
      (there : m.place i = none ∨ ∃ p, m.place i = some (index, p))
      (taken : SlotStep i (m.shared.slots index) (standing index (m.place i)) event s p)
      (names : ∀ id, p = .findValid id → indexOf id = index)
      (shared : Shared index event m.shared.emptyIndexStack m.shared.sessionAllocNum stack allocNum) :
      ServerStep m (i, index, event)
        (m.move i ⟨Function.update m.shared.slots index s, stack, allocNum⟩ (stand index p))

def serverStart (κ : Type*) (sessionIDs : Fin n → Int64) (sessionAllocNum : Int64) :
    Threads (Option κ) (Server n) (Option (Fin n × Place)) :=
  ⟨.start sessionIDs sessionAllocNum, fun _ => none⟩

end Servers

end NewNameAuction.SessionLife
