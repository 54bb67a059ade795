import NewNameAuction.Interleaving
import NewNameAuction.SendPost

/-! The references to packets: each `mAlloc`, `addRef`, `subRef`, `mFree`, and each transfer
of a packet to or from `sendQueue`, `sentPacketArray` and `JobQueue`, is one step of some
thread. Whether `findSession` finds a session that is there, what `disconnectStep` is, and
what a packet says, is left open. `Enqueue` returns `true` always. -/
namespace NewNameAuction.PacketRefs
open SendPost (maxPacket)

/-! ## What is shared -/

/-- `PacketPool` and the packets: `live` are those that `mAlloc` has given out and `mFree`
has not got back. -/
structure Pool (α : Type*) where
  live : α → Bool
  refCount : α → Int

/-- `inFlight` are the calls of `WSASend` not completed. On record is how many of the first
entries of `sentPacketArray` the loop that gives them up has come past. -/
structure Session (α : Type*) where
  isValid : Bool
  sendFlag : Bool
  sendQueue : List α
  sentPacketArray : Nat → α
  sendPacketCount : Nat
  inFlight : Nat
  released : Nat

/-- After `Start`, which writes neither `sendFlag` nor the array. -/
def Session.start {α : Type*} (sendFlag : Bool) (sentPacketArray : Nat → α) : Session α where
  isValid := false
  sendFlag := sendFlag
  sendQueue := []
  sentPacketArray := sentPacketArray
  sendPacketCount := 0
  inFlight := 0
  released := 0

/-- The packets of the `ON_RECV` jobs in `JobQueue`; the other jobs have none. -/
structure Server (n : Nat) (α : Type*) where
  pool : Pool α
  sessions : Fin n → Session α
  jobQueue : List α

/-! ## Where the threads stand -/

/-- Who runs the loop over `sentPacketArray`, or over `sendQueue`. -/
inductive Sent
  /-- `sendPost` after an error of `WSASend`, the send completion, `releaseSession`. -/
  | failed
  | completed
  | released
  deriving DecidableEq

inductive Drain
  | release
  | accept
  deriving DecidableEq

/-- A thread stands before an access. `job` is the packet of the job whose `PacketProc`
calls the builder, if it is one that does. -/
inductive Place (n : Nat) (α : Type*)
  | idle
  /-- A `SendPacket_` builder: `addRef`, `sendPacket` to the sessions that are left. -/
  | created (p : α) (targets : List (Fin n)) (job : Option α)
  | sending (p : α) (targets : List (Fin n)) (job : Option α)
  /-- `sendPacket` with the session found: `addRef`, `Enqueue`. -/
  | found (p : α) (s : Fin n) (targets : List (Fin n)) (job : Option α)
  | enqueue (p : α) (s : Fin n) (targets : List (Fin n)) (job : Option α)
  /-- `WorkerThread` with a packet received: `addRef`, then `OnRecv` with its `addRef` and
  `Enqueue`. -/
  | received (p : α)
  | filled (p : α)
  | handOver (p : α)
  /-- `LogicThread` with an `ON_RECV` job: before it has found the player, in `PacketProc`. -/
  | job (p : α)
  | packetProc (p : α)
  /-- `sendPost`: `sendFlag`, `disconnectStep` and `nodeCount`, `Dequeue`, `WSASend`, and
  `sendFlag` again. -/
  | takeFlag (s : Fin n)
  | readCount (s : Fin n)
  | dequeue (s : Fin n) (batch : List α)
  | send (s : Fin n)
  | giveBack (s : Fin n)
  /-- The completion: `sendFlag`, `nodeCount`. -/
  | resetFlag (s : Fin n)
  | readMore (s : Fin n)
  /-- The loop over `sentPacketArray` at entry `i`, and `sendPacketCount` after it. -/
  | sent (s : Fin n) (i : Nat) (who : Sent)
  | zero (s : Fin n) (who : Sent)
  /-- The loop over `sendQueue`. -/
  | drain (s : Fin n) (who : Drain)
  /-- Before `subRef`, and, when it returns 0, before `mFree`. -/
  | letGo (p : α) (next : Place n α)
  | free (p : α) (next : Place n α)
  deriving DecidableEq

/-- Back in `PacketProc`, or done. -/
def Place.back {n : Nat} {α : Type*} : Option α → Place n α
  | none => .idle
  | some p => .packetProc p

inductive Event (α : Type*)
  | other
  | mAlloc (p : α)
  | addRef (p : α)
  | subRef (p : α)
  | mFree (p : α)
  deriving DecidableEq

section Steps
variable {n : Nat} {α : Type*} [DecidableEq α]

/-! ## The reference counts -/

namespace Pool

/-- `CPacket::mAlloc`. -/
def mAlloc (pool : Pool α) (p : α) : Pool α :=
  ⟨Function.update pool.live p true, Function.update pool.refCount p 0⟩

/-- `addRef(1)`. -/
def addRef (pool : Pool α) (p : α) : Pool α :=
  { pool with refCount := Function.update pool.refCount p (pool.refCount p + 1) }

def subRef (pool : Pool α) (p : α) : Pool α :=
  { pool with refCount := Function.update pool.refCount p (pool.refCount p - 1) }

def mFree (pool : Pool α) (p : α) : Pool α :=
  { pool with live := Function.update pool.live p false }

section Fields
variable (pool : Pool α) (p : α)

@[simp] theorem live_mAlloc : (pool.mAlloc p).live p = true := Function.update_self ..
@[simp] theorem refCount_mAlloc : (pool.mAlloc p).refCount p = 0 := Function.update_self ..
@[simp] theorem refCount_addRef : (pool.addRef p).refCount p = pool.refCount p + 1 :=
  Function.update_self ..
@[simp] theorem refCount_subRef : (pool.subRef p).refCount p = pool.refCount p - 1 :=
  Function.update_self ..
@[simp] theorem live_mFree : (pool.mFree p).live p = false := Function.update_self ..

variable {pool p} {q : α} (other : q ≠ p)
include other

theorem mAlloc_other : (pool.mAlloc p).live q = pool.live q ∧
    (pool.mAlloc p).refCount q = pool.refCount q :=
  ⟨Function.update_of_ne other .., Function.update_of_ne other ..⟩

theorem addRef_other : (pool.addRef p).refCount q = pool.refCount q :=
  Function.update_of_ne other ..

theorem subRef_other : (pool.subRef p).refCount q = pool.refCount q :=
  Function.update_of_ne other ..

theorem mFree_other : (pool.mFree p).live q = pool.live q := Function.update_of_ne other ..

end Fields

end Pool

/-- The pool gives out a packet that it has. -/
inductive PoolStep : Pool α → Place n α → Event α → Pool α → Place n α → Prop
  | build {pool : Pool α} {p : α} (free : pool.live p = false) (targets : List (Fin n))
      (job : Option α) :
      PoolStep pool (.back job) (.mAlloc p) (pool.mAlloc p) (.created p targets job)
  | receive {pool : Pool α} {p : α} (free : pool.live p = false) :
      PoolStep pool .idle (.mAlloc p) (pool.mAlloc p) (.received p)
  | created (pool : Pool α) (p : α) (targets : List (Fin n)) (job : Option α) :
      PoolStep pool (.created p targets job) (.addRef p) (pool.addRef p) (.sending p targets job)
  | received (pool : Pool α) (p : α) :
      PoolStep pool (.received p) (.addRef p) (pool.addRef p) (.filled p)
  | found (pool : Pool α) (p : α) (s : Fin n) (targets : List (Fin n)) (job : Option α) :
      PoolStep pool (.found p s targets job) (.addRef p) (pool.addRef p) (.enqueue p s targets job)
  | onRecv (pool : Pool α) (p : α) :
      PoolStep pool (.filled p) (.addRef p) (pool.addRef p) (.handOver p)
  | subRef (pool : Pool α) (p : α) (next : Place n α) :
      PoolStep pool (.letGo p next) (.subRef p) (pool.subRef p)
        (if pool.refCount p - 1 = 0 then .free p next else next)
  | mFree (pool : Pool α) (p : α) (next : Place n α) :
      PoolStep pool (.free p next) (.mFree p) (pool.mFree p) next

/-! ## Builders, jobs -/

/-- Steps of a thread alone: `sendPacket` where it finds no session to send to, the end of
a builder, `WorkerThread` when `Dequeue` or `Decode` fails, and the branches of the job:
no player, another session, not valid, and `PacketProc`, whatever it returns. -/
inductive LocalStep : Place n α → Place n α → Prop
  | skip (p : α) (s : Fin n) (targets : List (Fin n)) (job : Option α) :
      LocalStep (.sending p (s :: targets) job) (.sending p targets job)
  | disconnected (p : α) (s : Fin n) (targets : List (Fin n)) (job : Option α) :
      LocalStep (.found p s targets job) (.sending p targets job)
  | built (p : α) (job : Option α) : LocalStep (.sending p [] job) (.letGo p (.back job))
  | recvFailed (p : α) : LocalStep (.filled p) (.letGo p .idle)
  | noPlayer (p : α) : LocalStep (.job p) (.letGo p .idle)
  | otherSession (p : α) : LocalStep (.job p) (.letGo p .idle)
  | notValid (p : α) : LocalStep (.job p) (.letGo p .idle)
  | packetProc (p : α) : LocalStep (.job p) (.packetProc p)
  | processed (p : α) : LocalStep (.packetProc p) (.letGo p .idle)

/-- `JobQueue`: `OnRecv`, `LogicThread`. -/
inductive JobStep : List α → Place n α → List α → Place n α → Prop
  | enqueue (jobQueue : List α) (p : α) :
      JobStep jobQueue (.handOver p) (jobQueue ++ [p]) (.letGo p .idle)
  | dequeue (p : α) (rest : List α) : JobStep (p :: rest) .idle rest (.job p)

/-! ## Sends -/

/-- `sendPacket` to a session, `sendPost`, and the send completion. -/
inductive SendStep (s : Fin n) : Session α → Place n α → Session α → Place n α → Prop
  | found {x : Session α} (p : α) (targets : List (Fin n)) (job : Option α)
      (valid : x.isValid = true) :
      SendStep s x (.sending p (s :: targets) job) x (.found p s targets job)
  | enqueue (x : Session α) (p : α) (targets : List (Fin n)) (job : Option α) :
      SendStep s x (.enqueue p s targets job) { x with sendQueue := x.sendQueue ++ [p] }
        (.sending p targets job)
  | call {x : Session α} (valid : x.isValid = true) : SendStep s x .idle x (.takeFlag s)
  | taken {x : Session α} (free : x.sendFlag = false) :
      SendStep s x (.takeFlag s) { x with sendFlag := true } (.readCount s)
  | busy {x : Session α} (held : x.sendFlag = true) :
      SendStep s x (.takeFlag s) { x with sendFlag := true } .idle
  | disconnected (x : Session α) : SendStep s x (.readCount s) x (.giveBack s)
  | none {x : Session α} (empty : x.sendQueue = []) : SendStep s x (.readCount s) x (.giveBack s)
  | some {x : Session α} (more : x.sendQueue ≠ []) : SendStep s x (.readCount s) x (.dequeue s [])
  | dequeue {x : Session α} {batch : List α} {p : α} {rest : List α}
      (room : batch.length < maxPacket) (queue : x.sendQueue = p :: rest) :
      SendStep s x (.dequeue s batch)
        { x with
          sendQueue := rest
          sentPacketArray := Function.update x.sentPacketArray batch.length p }
        (.dequeue s (batch ++ [p]))
  | empty {x : Session α} {batch : List α} (room : batch.length < maxPacket)
      (queue : x.sendQueue = []) :
      SendStep s x (.dequeue s batch) { x with sendPacketCount := batch.length } (.send s)
  | full {x : Session α} {batch : List α} (full : maxPacket ≤ batch.length) :
      SendStep s x (.dequeue s batch) { x with sendPacketCount := batch.length } (.send s)
  | send (x : Session α) : SendStep s x (.send s) { x with inFlight := x.inFlight + 1 } .idle
  | sendFails (x : Session α) : SendStep s x (.send s) x (.sent s 0 .failed)
  | giveBack (x : Session α) : SendStep s x (.giveBack s) { x with sendFlag := false } .idle
  | completed {x : Session α} {others : Nat} (inFlight : x.inFlight = others + 1) :
      SendStep s x .idle { x with inFlight := others } (.sent s 0 .completed)
  | completedFails {x : Session α} {others : Nat} (inFlight : x.inFlight = others + 1) :
      SendStep s x .idle { x with inFlight := others } .idle
  | resetFlag (x : Session α) :
      SendStep s x (.resetFlag s) { x with sendFlag := false } (.readMore s)
  | noMore {x : Session α} (empty : x.sendQueue = []) : SendStep s x (.readMore s) x .idle
  | more {x : Session α} (more : x.sendQueue ≠ []) : SendStep s x (.readMore s) x (.takeFlag s)

/-- What comes after the loop over `sentPacketArray`. -/
def Sent.next (s : Fin n) : Sent → Place n α
  | .failed => .giveBack s
  | .completed => .resetFlag s
  | .released => .idle

/-- The loops that give packets up. `AcceptThread` has the session ready when it has emptied
its queue. -/
inductive LoopStep (s : Fin n) : Session α → Place n α → Session α → Place n α → Prop
  | entry {x : Session α} {i : Nat} (who : Sent) (more : i < x.sendPacketCount) :
      LoopStep s x (.sent s i who) { x with released := i + 1 }
        (.letGo (x.sentPacketArray i) (.sent s (i + 1) who))
  | past {x : Session α} {i : Nat} (who : Sent) (past : x.sendPacketCount ≤ i) :
      LoopStep s x (.sent s i who) x (.zero s who)
  | zero (x : Session α) (who : Sent) :
      LoopStep s x (.zero s who) { x with sendPacketCount := 0, released := 0 } (who.next s)
  | drain {x : Session α} (who : Drain) {p : α} {rest : List α} (queue : x.sendQueue = p :: rest) :
      LoopStep s x (.drain s who) { x with sendQueue := rest } (.letGo p (.drain s who))
  | released {x : Session α} (empty : x.sendQueue = []) :
      LoopStep s x (.drain s .release) x (.sent s 0 .released)
  | accepted {x : Session α} (empty : x.sendQueue = []) :
      LoopStep s x (.drain s .accept) { x with isValid := true } .idle

/-- `releaseSession` past the test of `releaseFlag`, and `AcceptThread` with the index. -/
inductive TurnStep (s : Fin n) : Session α → Place n α → Session α → Place n α → Prop
  | release {x : Session α} (valid : x.isValid = true) :
      TurnStep s x .idle { x with isValid := false } (.drain s .release)
  | accept {x : Session α} (invalid : x.isValid = false) :
      TurnStep s x .idle { x with sendFlag := false } (.drain s .accept)

/-! ## The server -/

/-- The session whose steps a thread is in the middle of. -/
def session : Place n α → Option (Fin n)
  | .found _ s _ _ | .enqueue _ s _ _ => some s
  | .takeFlag s | .readCount s | .dequeue s _ | .send s | .giveBack s => some s
  | .resetFlag s | .readMore s => some s
  | .sent s _ _ | .zero s _ | .drain s _ => some s
  | .letGo _ next | .free _ next => session next
  | .idle | .created _ _ _ | .sending _ _ _ | .received _ | .filled _ | .handOver _ => none
  | .job _ | .packetProc _ => none

variable {κ : Type*}

/-- No step of the session is in progress. -/
def Quiet (m : Threads κ (Server n α) (Place n α)) (s : Fin n) : Prop :=
  (∀ i, session (m.place i) ≠ some s) ∧ (m.shared.sessions s).inFlight = 0

variable [DecidableEq κ]

inductive Step (m : Threads κ (Server n α) (Place n α)) :
    κ × Event α → Threads κ (Server n α) (Place n α) → Prop
  | pool {i : κ} {event : Event α} {pool : Pool α} {p : Place n α}
      (step : PoolStep m.shared.pool (m.place i) event pool p) :
      Step m (i, event) (m.move i { m.shared with pool := pool } p)
  | alone {i : κ} {p : Place n α} (step : LocalStep (m.place i) p) :
      Step m (i, .other) (m.move i m.shared p)
  | job {i : κ} {jobQueue : List α} {p : Place n α}
      (step : JobStep m.shared.jobQueue (m.place i) jobQueue p) :
      Step m (i, .other) (m.move i { m.shared with jobQueue := jobQueue } p)
  | send {i : κ} (s : Fin n) {x : Session α} {p : Place n α}
      (step : SendStep s (m.shared.sessions s) (m.place i) x p) :
      Step m (i, .other)
        (m.move i { m.shared with sessions := Function.update m.shared.sessions s x } p)
  | loop {i : κ} (s : Fin n) {x : Session α} {p : Place n α}
      (step : LoopStep s (m.shared.sessions s) (m.place i) x p) :
      Step m (i, .other)
        (m.move i { m.shared with sessions := Function.update m.shared.sessions s x } p)
  | turn {i : κ} (s : Fin n) {x : Session α} {p : Place n α} (quiet : Quiet m s)
      (step : TurnStep s (m.shared.sessions s) (m.place i) x p) :
      Step m (i, .other)
        (m.move i { m.shared with sessions := Function.update m.shared.sessions s x } p)

/-- After `Start`, with no packet given out. -/
def start (κ : Type*) (refCount : α → Int) (sendFlags : Fin n → Bool)
    (sentPacketArrays : Fin n → Nat → α) : Threads κ (Server n α) (Place n α) where
  shared :=
    { pool := ⟨fun _ => false, refCount⟩
      sessions := fun s => .start (sendFlags s) (sentPacketArrays s)
      jobQueue := [] }
  place := fun _ => .idle

end Steps

end NewNameAuction.PacketRefs
