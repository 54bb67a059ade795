import NewNameAuction.AuctionBook

/-! The state of `AuctionServer` that its logic thread works on, and what the
thread hands to others: packets to sessions, jobs to the database thread, and
sessions to cut. Fields that no modelled function reads are left out
(`lastTime`, the job counters). -/
namespace NewNameAuction

/-- `st_Player`. -/
structure Player where
  isValid : Bool
  accountNo : Int64
  sessionID : Int64
  nickName : NickName
  point : Int32
  deriving DecidableEq

/-- `st_NickNameList`: an account's slots. `count` is kept beside the vector. -/
structure NickNameList where
  count : Int32
  requestNickName : WString
  nickNames : List WString
  deriving DecidableEq

/-- A new `st_NickNameList` after `clear`. -/
def NickNameList.empty : NickNameList := ⟨0, [], []⟩

/-- `st_Auction_InitData`. -/
structure InitData where
  time : Int8
  price : Int32
  deriving DecidableEq

/-- `en_JobType`. -/
inductive JobType
  | onClientJoin
  | onRecv
  | onClientLeave
  | nicknameChangeCheck
  | nicknameChangeAble
  | nicknameRegister
  | nicknameRegisterCheck
  | nicknameRegisterAble
  | nicknameSold
  deriving DecidableEq

/-- `st_JobItem_DBCheck`, a block of `DBJobPool`. A job that does not write a
field carries what the block held before. -/
structure DBCheckJob where
  jobType : JobType
  accountNo : Int64
  sessionID : Int64
  endTime : UInt64
  count : Int32
  myNickName : WString
  targetNickName : WString
  deriving DecidableEq

/-- The flag of `RES_SALE`. -/
inductive RegisterFlag
  | success
  | failSold
  | failServerSlot
  | failUserSlot
  deriving DecidableEq

/-- The flag of `RES_CHANGE_NICKNAME`. -/
inductive ChangeFlag
  | success
  | fail
  deriving DecidableEq

/-- `en_AUCTION_ITSMINE_MINE` and `en_AUCTION_ITSMINE_OTHERS`. -/
inductive ItsMine
  | mine
  | others
  deriving DecidableEq

/-- `en_AUCTION_BIDDER_ME` and `en_AUCTION_BIDDER_OTHER`. -/
inductive Bidder
  | me
  | other
  deriving DecidableEq

/-- The packets the auction server sends. A nickname field is given by the
string in it; what stands behind a terminator is not modelled. -/
inductive Reply
  | resSale (flag : RegisterFlag)
  | resSearch (nickName : WString) (itsMine : ItsMine) (bidder : Bidder) (status : AuctionStatus)
      (price : Int32) (endTime : Int64)
  | resBid (nickName : WString) (bidder : Bidder) (price : Int32)
  | resExpire (nickName : WString) (status : AuctionStatus)
  | resChangeNickname (flag : ChangeFlag)
  deriving DecidableEq

/-- What a step does outside the store, in order. -/
inductive Effect
  /-- `pNetServer->sendPacket(sessionID, …)`. -/
  | send (sessionID : Int64) (reply : Reply)
  /-- `JobQueue_DBThread.Enqueue` and `SetEvent`. -/
  | enqueueDB (job : DBCheckJob)
  /-- `findSession`, `disconnectSession`, and the release that may follow. -/
  | disconnect (sessionID : Int64)
  deriving DecidableEq

def sessionSetSize : Nat := 1000

/-- `CSessionSet::setSession`: a full set takes no more. -/
def setSession (set : List Int64) (sessionID : Int64) : List Int64 :=
  if sessionSetSize ≤ set.length then set else set ++ [sessionID]

/-- A `CSessionSet` filled in the order of the players. -/
def sessionSet (players : List Player) : List Int64 :=
  players.foldl (fun set player => setSession set player.sessionID) []

/-- `sendPacket(CSessionSet*, …)`. -/
def sendToSet (set : List Int64) (reply : Reply) : List Effect :=
  set.map fun sessionID => .send sessionID reply

/-- The containers of `AuctionServer`. `packetType` is the local variable of
`LogicThread`, which keeps its value from job to job. -/
structure Store extends AuctionBook where
  playerList : UnorderedMap Int64 Player
  ownList : UnorderedMap Int64 NickNameList
  cellListTimeOrder24 : List AuctionRef
  cellListTimeOrder48 : List AuctionRef
  cellListPriceOrder : List (Int32 × AuctionRef)
  waitingDataList : UnorderedMap Int64 InitData
  numOfSales : Int32
  lastUpdateTime : UInt64
  packetType : UInt16

/-- The server after construction. The pool's records and the thread's local
hold anything. -/
def Store.empty (auctions : AuctionRef → AuctionData) (packetType : UInt16) : Store where
  cellList := ∅
  imminentList := ∅
  finList := []
  finListUMap := ∅
  auctions := auctions
  nextAuction := 0
  playerList := ∅
  ownList := ∅
  cellListTimeOrder24 := []
  cellListTimeOrder48 := []
  cellListPriceOrder := []
  waitingDataList := ∅
  numOfSales := 0
  lastUpdateTime := 0
  packetType := packetType

/-- `CellList_PriceOrder.insert`: a multimap in descending order that puts a
key behind its equals. -/
def insertPrice (prices : List (Int32 × AuctionRef)) (price : Int32) (pData : AuctionRef) :
    List (Int32 × AuctionRef) :=
  prices.takeWhile (fun entry => decide (price ≤ entry.1)) ++
    (price, pData) :: prices.dropWhile (fun entry => decide (price ≤ entry.1))

end NewNameAuction
