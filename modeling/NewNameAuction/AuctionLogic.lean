import NewNameAuction.AuctionPackets

/-! `LogicThread`: the jobs it takes off `JobQueue`, and `Update`, which it calls
when the queue is empty. A step that leaves defined behaviour ends in a fault. -/
namespace NewNameAuction
open ByteMemory

/-- A job of `JobQueue`, with what its type reads of the block. -/
inductive Job
  | onClientJoin (sessionID : Int64)
  | onClientLeave (sessionID : Int64)
  | onRecv (sessionID : Int64) (pPacket : Bytes)
  | nicknameChangeAble (accountNo : Int64)
  | nicknameRegisterAble (sessionID accountNo : Int64)

/-- What a job meets outside the store: the locals of the packet procedures, the
block `DBJobPool` hands out, and the clock. -/
structure JobEnv where
  locals : Locals
  block : DBCheckJob
  curTime : UInt64

abbrev Stepped := Except Fault (Store × List Effect)

def maxServerSlot : Int32 := 20000
def maxUserSlot : Int32 := 5

namespace Store

def joined (sessionID : Int64) : Player :=
  ⟨true, 0, sessionID, ⟨[78, 85, 76, 76], by decide, by decide⟩, 0⟩

def clientJoin (s : Store) (sessionID : Int64) : Store :=
  { s with playerList := s.playerList.emplace sessionID (joined sessionID) }

def clientLeave (s : Store) (sessionID : Int64) : Store :=
  match s.playerList.find sessionID with
  | none => s
  | some pPlayer =>
    { s with
      waitingDataList := s.waitingDataList.erase pPlayer.accountNo
      playerList := s.playerList.erase sessionID }

/-- `LogicThread`'s local after `>> packetType`. -/
def withType (s : Store) (packetType : UInt16) : Store := { s with packetType := packetType }

def clientRecv (env : JobEnv) (s : Store) (sessionID : Int64) (pPacket : Bytes) : Stepped :=
  let (packetType, pPacket) := getWord s.packetType pPacket
  let s := s.withType packetType
  match s.playerList.find sessionID with
  | none => .ok (s, [])
  | some player =>
    if player.sessionID ≠ sessionID then .ok (s, [])
    else if player.isValid = false then .ok (s, [])
    else do
      let (ret, s, effects) ← s.packetProc env.locals env.block player pPacket sessionID packetType
      .ok (s, if ret then effects else effects ++ [.disconnect player.sessionID])

/-- The loop of `NICKNAME_CHANGE_ABLE` from index `i` on. Every turn lowers
`count`, so no more than `count` turns are made. -/
def changeLoop : Nat → Nat → NickNameList → Except Fault NickNameList
  | 0, _, slots => .ok slots
  | turns + 1, i, slots =>
    if (i : Int) < slots.count.toInt then
      match slots.nickNames[i]? with
      | none => .error .outOfRange
      | some name => changeLoop turns (i + 1)
        { nickNames := if name = slots.requestNickName then slots.nickNames.eraseIdx i
            else slots.nickNames
          count := slots.count - 1
          requestNickName := [78, 85, 76, 76] }
    else .ok slots

def nicknameChangeAble (s : Store) (accountNo : Int64) : Except Fault Store :=
  match s.ownList.find accountNo with
  | none => .error .endIterator
  | some slots => do
    let slots ← changeLoop (loopBound slots.count) 0 slots
    .ok { s with ownList := s.ownList.assign accountNo slots }

/-- The record `REGISTER_ABLE` fills. -/
def newAuction (curTime : UInt64) (accountNo : Int64) (terms : InitData) (nickName : NickName) :
    AuctionData where
  bidderID := 0
  count := 0
  startTime := curTime
  endTime := curTime + terms.time.toInt64.toUInt64 * 60 * 60 * 1000 - 10 * 60 * 1000
  ownerID := accountNo
  price := terms.price
  status := .sale
  nickName := nickName

/-- What `REGISTER_ABLE` does with a new record. -/
def enlist (s : Store) (accountNo : Int64) (slots : NickNameList) (time : Int8)
    (data : AuctionData) : Store :=
  let wstr := data.nickName.chars
  let pData := s.nextAuction
  let slots := { slots with count := slots.count + 1, nickNames := slots.nickNames ++ [wstr] }
  { s with
    toAuctionBook := s.toAuctionBook.register data
    cellListPriceOrder := insertPrice s.cellListPriceOrder data.price pData
    cellListTimeOrder48 := if 24 < time then pData :: s.cellListTimeOrder48 else s.cellListTimeOrder48
    cellListTimeOrder24 := if 24 < time then s.cellListTimeOrder24 else pData :: s.cellListTimeOrder24
    ownList := s.ownList.assign accountNo slots
    numOfSales := s.numOfSales + 1 }

def nicknameRegisterAble (env : JobEnv) (s : Store) (sessionID accountNo : Int64) :
    Store × List Effect :=
  let s := { s with ownList := s.ownList.emplace accountNo .empty }
  let slots := (s.ownList.find accountNo).getD .empty
  if slots.count ≥ maxUserSlot then
    (s, [.send sessionID (.resSale .failUserSlot)])
  else if s.numOfSales ≥ maxServerSlot then
    (s, [.send sessionID (.resSale .failServerSlot)])
  else
    match s.waitingDataList.find accountNo with
    | none => (s, [])
    | some terms =>
      let s := { s with waitingDataList := s.waitingDataList.erase accountNo }
      match s.playerList.find accountNo with
      | none => (s, [])
      | some pPlayer =>
        let data := newAuction env.curTime accountNo terms pPlayer.nickName
        (s.enlist accountNo slots terms.time data,
          [.send sessionID (.resSale .success),
            .enqueueDB { env.block with
              jobType := .nicknameChangeCheck
              accountNo := accountNo
              sessionID := sessionID
              myNickName := data.nickName.chars }])

/-- One job. -/
def runJob (env : JobEnv) (s : Store) : Job → Stepped
  | .onClientJoin sessionID => .ok (s.clientJoin sessionID, [])
  | .onClientLeave sessionID => .ok (s.clientLeave sessionID, [])
  | .onRecv sessionID pPacket => s.clientRecv env sessionID pPacket
  | .nicknameChangeAble accountNo => do
    let s ← s.nicknameChangeAble accountNo
    .ok (s, [])
  | .nicknameRegisterAble sessionID accountNo => .ok (s.nicknameRegisterAble env sessionID accountNo)

end Store

/-! ## The periodic sweep -/

/-- What `Update` meets outside the store: the clock, the random draws and the
blocks of `DBJobPool` (each key is visited once, so a draw and a block for every
key are any sequence of them), and what remains if it erases `end()`: nothing,
or a process that goes on with the two time-ordered lists in any state. -/
structure UpdateEnv where
  curTime : UInt64
  draw : WString → Draw
  block : WString → DBCheckJob
  undefined : Option (List AuctionRef × List AuctionRef)

namespace Store
variable (env : UpdateEnv)

/-- One turn of the loop over `CellList`. -/
def visitCell (wstr : WString) (pData : AuctionRef) (s : Store) : Store :=
  if (s.auctions pData).endTime < env.curTime then
    { s with toAuctionBook := s.toAuctionBook.moveToImminent wstr pData (env.draw wstr) }
  else s

/-- The loop over `CellList_TimeOrder24`. `rbegin().base()` is `end()`, so the
first record it would drop is the end of defined behaviour. -/
def trimTimeOrder24 (s : Store) : Except Fault Store :=
  match s.cellListTimeOrder24.getLast? with
  | none => .ok s
  | some pData => if (s.auctions pData).status.ended then .error .endIterator else .ok s

/-- The loop over `CellList_TimeOrder48`, likewise. -/
def trimTimeOrder48 (s : Store) : Except Fault Store :=
  match s.cellListTimeOrder48.getLast? with
  | none => .ok s
  | some pData =>
    if (s.auctions pData).endTime < env.curTime + 1000 * 60 * 60 * 24 then .error .endIterator
    else .ok s

/-- Both loops, with what the environment says of undefined behaviour. -/
def trimTimeOrders (s : Store) : Except Fault Store :=
  match s.trimTimeOrder24 >>= trimTimeOrder48 env, env.undefined with
  | .ok s, _ => .ok s
  | .error fault, none => .error fault
  | .error _, some (timeOrder24, timeOrder48) =>
    .ok { s with cellListTimeOrder24 := timeOrder24, cellListTimeOrder48 := timeOrder48 }

/-- The block that runs every minute. -/
def sweepCells (s : Store) : Except Fault Store := do
  let s ← (UnorderedMap.sweep (visitCell env) s.cellList.entries s).trimTimeOrders env
  .ok { s with cellListPriceOrder := s.cellListPriceOrder.filter fun entry =>
    ¬ (s.auctions entry.2).status.ended }

/-- The `NICKNAME_SOLD` job about an ended record. -/
def soldJob (block : DBCheckJob) (data : AuctionData) : DBCheckJob :=
  { block with
    jobType := .nicknameSold
    accountNo := data.bidderID
    count := data.count
    myNickName := data.nickName.chars }

/-- One turn of the loop over `ImminentList`. -/
def visitImminent (set : List Int64) (wstr : WString) (pData : AuctionRef)
    (turn : Store × List Effect) : Store × List Effect :=
  let (s, effects) := turn
  if (s.auctions pData).endTime < env.curTime then
    let s := { s with toAuctionBook := s.toAuctionBook.finish wstr pData }
    let data := s.auctions pData
    (s, effects ++ sendToSet set (.resExpire data.nickName.chars data.status) ++
      [.enqueueDB (soldJob (env.block wstr) data)])
  else turn

/-- The block that runs every five seconds. -/
def sweepImminent (s : Store) : Store × List Effect :=
  UnorderedMap.sweep (visitImminent env (sessionSet s.playerList.values)) s.imminentList.entries
    (s, [])

/-- Has more than this many milliseconds passed since the last call? -/
def elapsed (s : Store) (interval : UInt64) : Prop := env.curTime - s.lastUpdateTime > interval

instance (s : Store) (interval : UInt64) : Decidable (s.elapsed env interval) :=
  inferInstanceAs (Decidable (_ > _))

/-- The first half of `Update`. -/
def updateMinute (s : Store) : Except Fault Store :=
  if s.elapsed env 60000 then s.sweepCells env else .ok s

/-- The second half of `Update`. -/
def updateFiveSeconds (s : Store) : Store × List Effect :=
  if s.elapsed env 5000 then s.sweepImminent env else (s, [])

def update (s : Store) : Stepped := do
  let s ← s.updateMinute env
  let (s, effects) := s.updateFiveSeconds env
  .ok ({ s with lastUpdateTime := env.curTime }, effects)

end Store

/-! ## Steps of the thread -/

inductive LogicStep
  | job (job : Job) (env : JobEnv)
  | update (env : UpdateEnv)

/-- One step, from the store before it. -/
def Store.step (s : Store) : LogicStep → Stepped
  | .job job env => s.runJob env job
  | .update env => s.update env

/-- A step that returned, with its effects. -/
def Store.Takes (s : Store) (taken : LogicStep × List Effect) (s' : Store) : Prop :=
  s.step taken.1 = .ok (s', taken.2)

/-- A step that returned. -/
def Store.Steps (s : Store) (step : LogicStep) (s' : Store) : Prop :=
  ∃ effects, s.Takes (step, effects) s'

/-- The store half-way through a step: between the two halves of `Update`. -/
def Store.midway (s : Store) : LogicStep → Store
  | .job _ _ => s
  | .update env =>
    match s.updateMinute env with
    | .ok midway => midway
    | .error _ => s

/-- The store after some steps. -/
def Store.runSteps (s : Store) : List LogicStep → Except Fault Store
  | [] => .ok s
  | step :: steps => do
    let (s, _) ← s.step step
    s.runSteps steps

theorem Store.run_of_run_steps {s t : Store} {steps : List LogicStep}
    (ran : s.runSteps steps = .ok t) : Run Store.Steps s steps t := by
  induction steps generalizing s with
  | nil =>
    cases ran
    exact .nil _
  | cons step steps ih =>
    obtain ⟨⟨next, effects⟩, stepped, ran⟩ := bind_ok.mp ran
    exact .cons ⟨effects, stepped⟩ (ih ran)

/-- A run that computes, seen through some function of the store it ends in. -/
theorem Store.run_of_seen {α : Type} (s : Store) (steps : List LogicStep) (seen : Store → α) (a : α)
    (ran : (s.runSteps steps).map seen = .ok a) : ∃ t, Run Store.Steps s steps t ∧ seen t = a := by
  cases reached : s.runSteps steps with
  | error fault =>
    rw [reached] at ran
    cases ran
  | ok t =>
    rw [reached] at ran
    exact ⟨t, run_of_run_steps reached, Except.ok.inj ran⟩

/-- Surroundings in which all memory that was not written is zero. -/
def JobEnv.zero (curTime : UInt64) : JobEnv where
  locals := ⟨List.replicate nicknameMaxLength 0, [], 0, 0, 0, 0⟩
  block := ⟨.onClientJoin, 0, 0, 0, 0, [], []⟩
  curTime := curTime

/-- A record of the pool before its first use. -/
def AuctionData.zero : AuctionData := ⟨0, 0, .sale, 0, 0, ⟨[], by decide, by decide⟩, 0, 0⟩

/-- The nickname "A". -/
def nameA : NickName := ⟨[65], by decide, by decide⟩

/-- The nickname "B". -/
def nameB : NickName := ⟨[66], by decide, by decide⟩

/-- The least of what can be drawn, eight minutes. -/
def leastDraw : Draw := ⟨480000, by decide, by decide⟩

/-- Ten minutes, in the middle of the range. -/
def middleDraw : Draw := ⟨600000, by decide, by decide⟩

end NewNameAuction
