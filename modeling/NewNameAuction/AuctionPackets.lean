import NewNameAuction.AuctionStore

/-! The packet procedures of `AuctionServer`. Each reads its fields off the
payload into locals it has not initialised, then works on the store. A
procedure that returns `false` has the session cut. -/
namespace NewNameAuction
open ByteMemory

/-- What a procedure's locals hold when it starts, and what stands in memory
behind its nickname field. -/
structure Locals where
  nickName : List UInt16
  beyond : List UInt16
  time : Int8
  price : Int32
  accountNo : Int64
  point : Int32

/-- A procedure's return value, the store and what it sent. -/
abbrev Processed := Except Fault (Bool × Store × List Effect)

/-- `RES_SEARCH` about a record, as `REQ_SEARCH` and the lists of recent auctions
send it. -/
def resSearch (pPlayer : Player) (data : AuctionData) (endTime : UInt64) : Reply :=
  .resSearch data.nickName.chars
    (if data.ownerID = pPlayer.accountNo then .mine else .others)
    (if data.bidderID = pPlayer.accountNo then .me else .other)
    data.status data.price endTime.toInt64

namespace Store

/-! ## The slots of an account -/

/-- The loop of `OwnList_CheckAndInsert`: is `wstr` among the first `count`
names? -/
def checkNames (wstr : WString) : Nat → List WString → Except Fault Bool
  | 0, _ => .ok false
  | _ + 1, [] => .error .outOfRange
  | count + 1, name :: rest => if name = wstr then .ok true else checkNames wstr count rest

/-- `int` loop bounds: a loop up to a negative count does not run. -/
def loopBound (count : Int32) : Nat := count.toInt.toNat

def ownListCheckAndInsert (s : Store) (accountNo : Int64) (wstr : WString) : Except Fault Store := do
  let ownList := s.ownList.emplace accountNo .empty
  let slots := (ownList.find accountNo).getD .empty
  if ← checkNames wstr (loopBound slots.count) slots.nickNames then
    .ok { s with ownList := ownList }
  else
    let slots := { slots with nickNames := slots.nickNames ++ [wstr], count := slots.count + 1 }
    .ok { s with ownList := ownList.assign accountNo slots }

/-! ## What a player is sent when his account is known -/

/-- The record a slot stands for. `ImminentList` and `FinList_UMap` are searched
only when `CellList` had an entry. -/
def slotAuction (s : Store) (wstr : WString) : Option AuctionRef :=
  match s.cellList.find wstr with
  | none => none
  | some inCells =>
    let pData := (s.imminentList.find wstr).getD inCells
    some ((s.finListUMap.find wstr).getD pData)

/-- The packet about one slot. -/
def slotReply (s : Store) (pPlayer : Player) (wstr : WString) : Except Fault Reply :=
  match s.slotAuction wstr with
  | none => do
    let nickName ← wcscpyS wstr
    .ok (.resSearch nickName.chars .mine .me .finFail 0 0)
  | some pData =>
    let data := s.auctions pData
    .ok (resSearch pPlayer data (if data.status = .sale then data.endTime else 0))

/-- The slots from the first to the `count`-th. -/
def slotReplies (s : Store) (pPlayer : Player) : Nat → List WString → Except Fault (List Reply)
  | 0, _ => .ok []
  | _ + 1, [] => .error .outOfRange
  | count + 1, wstr :: rest => do
    let reply ← s.slotReply pPlayer wstr
    let replies ← s.slotReplies pPlayer count rest
    .ok (reply :: replies)

/-- The first two hundred records of a list. -/
def recentReplies (s : Store) (pPlayer : Player) (recent : List AuctionRef) : List Reply :=
  (recent.take 200).map fun pData =>
    resSearch pPlayer (s.auctions pData) (s.auctions pData).endTime

/-- The packets about the player's slots. -/
def ownReplies (s : Store) (pPlayer : Player) : Except Fault (List Reply) :=
  match s.ownList.find pPlayer.accountNo with
  | none => .ok []
  | some slots => s.slotReplies pPlayer (loopBound slots.count) slots.nickNames

def sendInitPackets (s : Store) (pPlayer : Player) : Except Fault (List Effect) := do
  let slots ← s.ownReplies pPlayer
  let replies := slots ++ s.recentReplies pPlayer s.cellListTimeOrder48 ++
    s.recentReplies pPlayer s.finList
  .ok (replies.map (.send pPlayer.sessionID))

/-! ## The procedures -/

section Procedures
variable (locals : Locals) (block : DBCheckJob) (s : Store) (pPlayer : Player) (pPacket : Bytes)
  (sessionID : Int64)

/-- The string that starts at a nickname local. -/
def localString (nickName : List UInt16) : WString := cString (nickName ++ locals.beyond)

def packetProcReqSale : Processed :=
  let (nickName, pPacket) := getNickName locals.nickName pPacket
  let (time, pPacket) := getInt8 locals.time pPacket
  let (price, _) := getInt32 locals.price pPacket
  if pPlayer.nickName.chars ≠ localString locals nickName then
    .ok (false, s, [])
  else do
    let waiting := s.waitingDataList.emplace pPlayer.accountNo ⟨time, price⟩
    let myNickName ← wcscpyS (localString locals nickName)
    .ok (true, { s with waitingDataList := waiting }, [.enqueueDB { block with
      jobType := .nicknameRegisterCheck
      accountNo := pPlayer.accountNo
      sessionID := sessionID
      myNickName := myNickName.chars }])

/-- The packets about the entries whose key contains `wstr`. -/
def searchReplies (wstr : WString) (auctions : UnorderedMap WString AuctionRef) : List Reply :=
  (auctions.entries.filter fun entry => decide (wstr <:+: entry.1)).map fun entry =>
    resSearch pPlayer (s.auctions entry.2) (s.auctions entry.2).endTime

def packetProcReqSearch : Processed :=
  let (nickName, _) := getNickName locals.nickName pPacket
  let wstr := localString locals nickName
  let replies := s.searchReplies pPlayer wstr s.cellList ++
    s.searchReplies pPlayer wstr s.imminentList
  .ok (true, s, replies.map (.send sessionID))

/-- The player and the record after an accepted bid. -/
def acceptBid (pData : AuctionRef) (price : Int32) : Store :=
  { s with
    toAuctionBook := s.toAuctionBook.bid pData pPlayer.accountNo price
    playerList := s.playerList.assign sessionID { pPlayer with point := pPlayer.point - price } }

/-- The packets an accepted bid sends: one to the bidder, one to every player of
another account. -/
def bidReplies (nickName : WString) (price : Int32) : List Effect :=
  .send pPlayer.sessionID (.resBid nickName .me price) ::
    sendToSet (sessionSet (s.playerList.values.filter fun player =>
      player.accountNo ≠ pPlayer.accountNo)) (.resBid nickName .other price)

def packetProcReqBid : Processed :=
  let (nickName, pPacket) := getNickName locals.nickName pPacket
  let (price, _) := getInt32 locals.price pPacket
  if pPlayer.point ≠ price then
    .ok (false, s, [])
  else
    let wstr := localString locals nickName
    match s.find wstr with
    | none => .ok (true, s, [])
    | some pData =>
      if (s.auctions pData).price ≥ price ∨ (s.auctions pData).ownerID = pPlayer.accountNo then
        .ok (true, s, [])
      else do
        let bidden := s.acceptBid pPlayer sessionID pData price
        let listed ← bidden.ownListCheckAndInsert pPlayer.accountNo wstr
        .ok (true, listed, bidden.bidReplies pPlayer (cString nickName) price)

def packetProcReqChangeNickname : Processed :=
  let (nickName, _) := getNickName locals.nickName pPacket
  match s.ownList.find pPlayer.accountNo with
  | none => .error .endIterator
  | some slots => do
    let ownList := s.ownList.assign pPlayer.accountNo
      { slots with requestNickName := localString locals nickName }
    let targetNickName ← wcscpyS (localString locals nickName)
    .ok (true, { s with ownList := ownList }, [.enqueueDB { block with
      jobType := .nicknameChangeCheck
      accountNo := pPlayer.accountNo
      sessionID := sessionID
      myNickName := pPlayer.nickName.chars
      targetNickName := targetNickName.chars }])

/-- `pPlayer->Point = Point` and the copy of the nickname. -/
def informed (pPlayer : Player) (point : Int32) (nickName : NickName) : Player :=
  { pPlayer with point := point, nickName := nickName }

/-- The account number of the packet is looked up among the session numbers. -/
def packetProcResPlayerInfo : Processed :=
  let (accountNo, pPacket) := getInt64 locals.accountNo pPacket
  let (point, pPacket) := getInt32 locals.point pPacket
  let (nickName, _) := getNickName locals.nickName pPacket
  match s.playerList.find accountNo with
  | none => .ok (true, s, [])
  | some pPlayer => do
    let copied ← wcscpyS (localString locals nickName)
    let pPlayer := informed pPlayer point copied
    let s := { s with playerList := s.playerList.assign accountNo pPlayer }
    let sent ← s.sendInitPackets pPlayer
    .ok (true, s, sent)

/-- The types `en_PACKET_…` that the server dispatches on. -/
def packetProc (packetType : UInt16) : Processed :=
  if packetType = 1 then s.packetProcReqSale locals block pPlayer pPacket sessionID
  else if packetType = 3 then s.packetProcReqSearch locals pPlayer pPacket sessionID
  else if packetType = 5 then s.packetProcReqBid locals pPlayer pPacket sessionID
  else if packetType = 8 then s.packetProcReqChangeNickname locals block pPlayer pPacket sessionID
  else if packetType = 10 then s.packetProcResPlayerInfo locals pPacket
  else .ok (false, s, [])

end Procedures

end Store

end NewNameAuction
