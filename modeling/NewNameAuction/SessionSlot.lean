import NewNameAuction.Interleaving

/-! One slot of `sessionList` under any number of threads. Each read, write and
interlocked operation on it by `findSession`, `sendPacket`, `releaseSession` and
`AcceptThread` is one step; the workers appear by what they count and send. -/
namespace NewNameAuction.SessionSlot

def delflagOff : Int := 0
def delflagOn : Int := -1

/-- `disconnectStep`. -/
inductive DisconnectStep
  | normalState
  | sendPacketLast
  | sendPostLast
  | disconnect
  deriving DecidableEq

/-- A packet in `sendQueue`: the number it was given to `sendPacket` with, and the
session that `findSession` found. -/
structure Given where
  sessionID : Int64
  session : Nat
  deriving DecidableEq

/-- A slot. Sessions are counted in the order in which they get the slot: `sessions`
have had it, `sock` is the socket of one of them. `pending` are the operations and
requests in flight on the completion port, each with its `IOcount`. `inStack` says
that `emptyIndexStack` has the index, `sent` what `WSASend` was given and on which
socket. -/
structure Slot where
  sessionID : Int64
  isValid : Bool
  releaseFlag : Int
  ioCount : Int
  disconnectStep : DisconnectStep
  sock : Nat
  sendQueue : List Given
  inStack : Bool
  sessions : Nat
  pending : Nat
  sent : List (Given × Nat)

/-- After `Start`. The session number has not been written yet. -/
def Slot.start (sessionID : Int64) : Slot where
  sessionID := sessionID
  isValid := false
  releaseFlag := delflagOff
  ioCount := 0
  disconnectStep := .normalState
  sock := 0
  sendQueue := []
  inStack := true
  sessions := 0
  pending := 0
  sent := []

/-- Where a thread stands: before which access to the slot. -/
inductive Place
  | idle
  /-- `findSession(id)`: `isValid`, `IOcount++`, `releaseFlag`, `sessionID`, and the
  `--IOcount` before it returns false. -/
  | findValid (id : Int64)
  | findEnter (id : Int64)
  | findFlag (id : Int64)
  | findID (id : Int64)
  | findFailed
  /-- After `findSession(id)` returned true for a session: the caller's
  `disconnectStep`, `Enqueue`, `LastPacket`, `IOcount++`, the request, and the
  matching `--IOcount`. -/
  | found (id : Int64) (session : Nat)
  | enqueue (id : Int64) (session : Nat)
  | lastPacket (id : Int64) (session : Nat)
  | post (id : Int64) (session : Nat)
  | posted (id : Int64) (session : Nat)
  | leave (id : Int64) (session : Nat)
  /-- `releaseSession(id)`: `isValid`, `IOcount`, the compare-exchange, and the two
  reads of `sessionID`. -/
  | releaseValid (id : Int64)
  | releaseCount (id : Int64)
  | releaseFlag (id : Int64) (tempCount : Int)
  | releaseID (id : Int64)
  | releaseCheck (id tempID : Int64)
  /-- Another session has the slot: `IOcount++`, `releaseFlag`, `--IOcount`. -/
  | reenter (tempID : Int64)
  | reopen (tempID : Int64)
  | relet (tempID : Int64)
  /-- The clean-up: `isValid`, `closesocket`, `sendQueue`, `emptyIndexStack`. -/
  | clean
  | close
  | drain
  | push
  /-- `AcceptThread`: `sessionID`, `IOcount++`, `isValid`, `releaseFlag`, `sock`,
  `sendQueue`, `WSARecv`. -/
  | acceptID (newSessionID : Int64)
  | acceptEnter (session : Nat)
  | acceptValid (session : Nat)
  | acceptFlag (session : Nat)
  | acceptSock (session : Nat)
  | acceptDrain
  | acceptRecv
  /-- A worker with a completion, and the packets `sendPost` has dequeued. -/
  | working (batch : List Given)
  | posting (batch : List Given)
  | finished
  deriving DecidableEq

/-! ## The steps -/

/-- `findSession`. -/
inductive FindStep : Slot → Place → Slot → Place → Prop
  | call (s : Slot) (id : Int64) : FindStep s .idle s (.findValid id)
  | invalid {s : Slot} {id : Int64} : s.isValid = false → FindStep s (.findValid id) s .idle
  | valid {s : Slot} {id : Int64} : s.isValid = true → FindStep s (.findValid id) s (.findEnter id)
  | enter (s : Slot) (id : Int64) :
      FindStep s (.findEnter id) { s with ioCount := s.ioCount + 1 } (.findFlag id)
  | on {s : Slot} {id : Int64} : s.releaseFlag = delflagOn → FindStep s (.findFlag id) s .findFailed
  | off {s : Slot} {id : Int64} : s.releaseFlag ≠ delflagOn → FindStep s (.findFlag id) s (.findID id)
  | other {s : Slot} {id : Int64} : id ≠ s.sessionID → FindStep s (.findID id) s .findFailed
  | same {s : Slot} {id : Int64} : id = s.sessionID → FindStep s (.findID id) s (.found id s.sessions)
  | failed (s : Slot) : FindStep s .findFailed { s with ioCount := s.ioCount - 1 } .idle

/-- `sendPacket` and `disconnectSession` with the session found. A decrement to 0
posts a release request, for which a thread calls `releaseSession` some time. -/
inductive SendStep : Slot → Place → Slot → Place → Prop
  | disconnect (s : Slot) (id : Int64) (session : Nat) :
      SendStep s (.found id session) { s with disconnectStep := .disconnect } (.leave id session)
  | disconnected {s : Slot} (id : Int64) (session : Nat) : s.disconnectStep = .disconnect →
      SendStep s (.found id session) s (.leave id session)
  | connected {s : Slot} (id : Int64) (session : Nat) : s.disconnectStep ≠ .disconnect →
      SendStep s (.found id session) s (.enqueue id session)
  | enqueue (s : Slot) (id : Int64) (session : Nat) :
      SendStep s (.enqueue id session) { s with sendQueue := s.sendQueue ++ [⟨id, session⟩] }
        (.lastPacket id session)
  | last (s : Slot) (id : Int64) (session : Nat) :
      SendStep s (.lastPacket id session)
        { s with disconnectStep :=
          if s.disconnectStep = .normalState then .sendPacketLast else s.disconnectStep }
        (.post id session)
  | notLast (s : Slot) (id : Int64) (session : Nat) :
      SendStep s (.lastPacket id session) s (.post id session)
  | post (s : Slot) (id : Int64) (session : Nat) :
      SendStep s (.post id session) { s with ioCount := s.ioCount + 1 } (.posted id session)
  | posted (s : Slot) (id : Int64) (session : Nat) :
      SendStep s (.posted id session) { s with pending := s.pending + 1 } (.leave id session)
  | unposted (s : Slot) (id : Int64) (session : Nat) :
      SendStep s (.posted id session) { s with ioCount := s.ioCount - 1 } (.leave id session)
  | leave (s : Slot) (id : Int64) (session : Nat) :
      SendStep s (.leave id session) { s with ioCount := s.ioCount - 1 } .idle

/-- `releaseSession`. -/
inductive ReleaseStep : Slot → Place → Slot → Place → Prop
  | call (s : Slot) (id : Int64) : ReleaseStep s .idle s (.releaseValid id)
  | invalid {s : Slot} {id : Int64} : s.isValid = false → ReleaseStep s (.releaseValid id) s .idle
  | valid {s : Slot} {id : Int64} : s.isValid = true →
      ReleaseStep s (.releaseValid id) s (.releaseCount id)
  | count (s : Slot) (id : Int64) : ReleaseStep s (.releaseCount id) s (.releaseFlag id s.ioCount)
  | differs {s : Slot} {id : Int64} {tempCount : Int} : s.releaseFlag ≠ tempCount →
      ReleaseStep s (.releaseFlag id tempCount) s .idle
  | exchanged {s : Slot} {id : Int64} {tempCount : Int} : s.releaseFlag = tempCount →
      ReleaseStep s (.releaseFlag id tempCount) { s with releaseFlag := delflagOn } (.releaseID id)
  | read (s : Slot) (id : Int64) : ReleaseStep s (.releaseID id) s (.releaseCheck id s.sessionID)
  | other {s : Slot} {id tempID : Int64} : id ≠ s.sessionID →
      ReleaseStep s (.releaseCheck id tempID) s (.reenter tempID)
  | reenter (s : Slot) (tempID : Int64) :
      ReleaseStep s (.reenter tempID) { s with ioCount := s.ioCount + 1 } (.reopen tempID)
  | reopen (s : Slot) (tempID : Int64) :
      ReleaseStep s (.reopen tempID) { s with releaseFlag := delflagOff } (.relet tempID)
  | relet (s : Slot) (tempID : Int64) :
      ReleaseStep s (.relet tempID) { s with ioCount := s.ioCount - 1 }
        (if s.ioCount - 1 = 0 then .releaseValid tempID else .idle)
  | same {s : Slot} {id tempID : Int64} : id = s.sessionID →
      ReleaseStep s (.releaseCheck id tempID) s .clean
  | clean (s : Slot) : ReleaseStep s .clean { s with isValid := false } .close
  | close (s : Slot) : ReleaseStep s .close s .drain
  | drain {s : Slot} {packet : Given} {rest : List Given} : s.sendQueue = packet :: rest →
      ReleaseStep s .drain { s with sendQueue := rest } .drain
  | drained {s : Slot} : s.sendQueue = [] → ReleaseStep s .drain s .push
  | push (s : Slot) : ReleaseStep s .push { s with inStack := true } .idle

/-- `AcceptThread`, when it pops the index of the slot. All slots share the
allocation number, so the new session number may be any. -/
inductive AcceptStep : Slot → Place → Slot → Place → Prop
  | pop {s : Slot} (newSessionID : Int64) : s.inStack = true →
      AcceptStep s .idle { s with inStack := false } (.acceptID newSessionID)
  | sessionID (s : Slot) (newSessionID : Int64) :
      AcceptStep s (.acceptID newSessionID)
        { s with sessionID := newSessionID, sessions := s.sessions + 1 }
        (.acceptEnter (s.sessions + 1))
  | enter (s : Slot) (session : Nat) :
      AcceptStep s (.acceptEnter session) { s with ioCount := s.ioCount + 1 } (.acceptValid session)
  | valid (s : Slot) (session : Nat) :
      AcceptStep s (.acceptValid session) { s with isValid := true } (.acceptFlag session)
  | flag (s : Slot) (session : Nat) :
      AcceptStep s (.acceptFlag session) { s with releaseFlag := delflagOff } (.acceptSock session)
  | sock (s : Slot) (session : Nat) :
      AcceptStep s (.acceptSock session)
        { s with sock := session, disconnectStep := .normalState } .acceptDrain
  | drain {s : Slot} {packet : Given} {rest : List Given} : s.sendQueue = packet :: rest →
      AcceptStep s .acceptDrain { s with sendQueue := rest } .acceptDrain
  | drained {s : Slot} : s.sendQueue = [] → AcceptStep s .acceptDrain s .acceptRecv
  | recv (s : Slot) : AcceptStep s .acceptRecv { s with pending := s.pending + 1 } .idle
  | recvFailed (s : Slot) : AcceptStep s .acceptRecv { s with ioCount := s.ioCount - 1 } .idle

/-- `WorkerThread` with a completion of the slot: `recvPost` and `sendPost` count and
start operations, the latter with the packets it takes off `sendQueue`. What else a
worker writes is `disconnectStep`. -/
inductive WorkerStep : Slot → Place → Slot → Place → Prop
  | take {s : Slot} {others : Nat} : s.pending = others + 1 →
      WorkerStep s .idle { s with pending := others } (.working [])
  | mark (s : Slot) (batch : List Given) (step : DisconnectStep) :
      WorkerStep s (.working batch) { s with disconnectStep := step } (.working batch)
  | dequeue {s : Slot} {packet : Given} {rest : List Given} (batch : List Given) :
      s.sendQueue = packet :: rest →
      WorkerStep s (.working batch) { s with sendQueue := rest } (.working (batch ++ [packet]))
  | post (s : Slot) (batch : List Given) :
      WorkerStep s (.working batch) { s with ioCount := s.ioCount + 1 } (.posting batch)
  | posted (s : Slot) (batch : List Given) :
      WorkerStep s (.posting batch)
        { s with pending := s.pending + 1, sent := s.sent ++ batch.map fun packet => (packet, s.sock) }
        (.working [])
  | unposted (s : Slot) (batch : List Given) :
      WorkerStep s (.posting batch) { s with ioCount := s.ioCount - 1 } (.working [])
  | finish (s : Slot) :
      WorkerStep s (.working []) { s with ioCount := s.ioCount - 1 }
        (if s.ioCount - 1 = 0 then .finished else .idle)
  | release (s : Slot) : WorkerStep s .finished s (.releaseValid s.sessionID)

/-- One atomic step of a thread. -/
inductive SlotStep (s : Slot) (p : Place) (s' : Slot) (p' : Place) : Prop
  | find : FindStep s p s' p' → SlotStep s p s' p'
  | send : SendStep s p s' p' → SlotStep s p s' p'
  | release : ReleaseStep s p s' p' → SlotStep s p s' p'
  | accept : AcceptStep s p s' p' → SlotStep s p s' p'
  | worker : WorkerStep s p s' p' → SlotStep s p s' p'

end NewNameAuction.SessionSlot
