import Mathlib.Logic.Function.Basic
import NewNameAuction.NickName
import NewNameAuction.UnorderedMap
import NewNameAuction.Runs

/-! The book of auctions: the records and the containers that decide which of
them are running and which have ended. Registering, bidding, becoming imminent
and ending each write one record and move it between the maps; the handlers and
the periodic sweep are made of these four. -/
namespace NewNameAuction

/-- `en_Auction_Status`. -/
inductive AuctionStatus
  | sale
  | imminent
  | fin
  | finFail
  deriving DecidableEq

/-- `en_AUCTION_FIN` or `en_AUCTION_FIN_FAIL`. -/
def AuctionStatus.ended (status : AuctionStatus) : Prop := status = .fin ∨ status = .finFail

instance (status : AuctionStatus) : Decidable status.ended :=
  inferInstanceAs (Decidable (_ ∨ _))

theorem AuctionStatus.running_of_sale {status : AuctionStatus} (sale : status = .sale) :
    ¬status.ended := by
  rw [sale]
  decide

theorem AuctionStatus.running_of_imminent {status : AuctionStatus} (imminent : status = .imminent) :
    ¬status.ended := by
  rw [imminent]
  decide

/-- `st_AuctionData`. -/
structure AuctionData where
  startTime : UInt64
  endTime : UInt64
  status : AuctionStatus
  ownerID : Int64
  bidderID : Int64
  nickName : NickName
  price : Int32
  count : Int32
  deriving DecidableEq

/-- A record of `AuctionDataPool`. Records are never given back to the pool, so
it hands out every number once. -/
abbrev AuctionRef := Nat

/-- A value of `range(8*60000, 12*60000)`. -/
def Draw := { ms : UInt64 // 480000 ≤ ms ∧ ms ≤ 720000 }

/-- `nextAuction` is the record the pool hands out next. -/
structure AuctionBook where
  cellList : UnorderedMap WString AuctionRef
  imminentList : UnorderedMap WString AuctionRef
  finList : List AuctionRef
  finListUMap : UnorderedMap WString AuctionRef
  auctions : AuctionRef → AuctionData
  nextAuction : AuctionRef

namespace AuctionBook

/-- The auction a bid on `wstr` is for: `ImminentList` first, then `CellList`. -/
def find (b : AuctionBook) (wstr : WString) : Option AuctionRef :=
  match b.imminentList.find wstr with
  | some pData => some pData
  | none => b.cellList.find wstr

/-- What is found is under a key of the two maps. -/
theorem mem_of_find {b : AuctionBook} {wstr : WString} {pData : AuctionRef}
    (found : b.find wstr = some pData) : wstr ∈ b.cellList ∨ wstr ∈ b.imminentList := by
  unfold find at found
  split at found
  · rename_i imminent
    exact .inr (UnorderedMap.mem_of_find imminent)
  · exact .inl (UnorderedMap.mem_of_find found)

/-- `*pData = data`. -/
def write (b : AuctionBook) (pData : AuctionRef) (data : AuctionData) : AuctionBook :=
  { b with auctions := Function.update b.auctions pData data }

/-- A new record goes into `CellList`, unless its nickname is there already. -/
def register (b : AuctionBook) (data : AuctionData) : AuctionBook :=
  { b.write b.nextAuction data with
    nextAuction := b.nextAuction + 1
    cellList := b.cellList.emplace data.nickName.chars b.nextAuction }

/-- An accepted bid. -/
def bid (b : AuctionBook) (pData : AuctionRef) (bidder : Int64) (price : Int32) : AuctionBook :=
  b.write pData { b.auctions pData with
    bidderID := bidder, price := price, count := (b.auctions pData).count + 1 }

/-- An entry of `CellList` moves to `ImminentList`, unless its key is there already. -/
def moveToImminent (b : AuctionBook) (wstr : WString) (pData : AuctionRef) (draw : Draw) :
    AuctionBook :=
  { b.write pData { b.auctions pData with
      status := .imminent, endTime := (b.auctions pData).endTime + draw.1 } with
    cellList := b.cellList.erase wstr
    imminentList := b.imminentList.emplace wstr pData }

/-- An entry of `ImminentList` ends: without a bidder it failed, with one it goes
into the two lists of finished auctions. -/
def finish (b : AuctionBook) (wstr : WString) (pData : AuctionRef) : AuctionBook :=
  if (b.auctions pData).bidderID = 0 then
    { b.write pData { b.auctions pData with status := .finFail } with
      imminentList := b.imminentList.erase wstr }
  else
    { b.write pData { b.auctions pData with status := .fin } with
      finList := pData :: b.finList
      finListUMap := b.finListUMap.emplace wstr pData
      imminentList := b.imminentList.erase wstr }

/-! ## What each of them leaves in the containers -/

section Writes
variable (b : AuctionBook) (pData r : AuctionRef) (data : AuctionData) (wstr : WString)
  (bidder : Int64) (price : Int32) (draw : Draw)

theorem auctions_register : (b.register data).auctions r =
    if r = b.nextAuction then data else b.auctions r :=
  Function.update_apply _ _ _ _

/-- What holds of all records and of the new one holds of all records then. -/
theorem forall_register {P : AuctionData → Prop} (old : ∀ r < b.nextAuction, P (b.auctions r))
    (new : P data) : ∀ r < (b.register data).nextAuction, P ((b.register data).auctions r) := by
  intro r there
  rw [auctions_register]
  split
  · exact new
  · next other => exact old r (Nat.lt_of_le_of_ne (Nat.lt_succ_iff.mp there) other)

theorem auctions_bid : (b.bid pData bidder price).auctions r =
    if r = pData then { b.auctions pData with
      bidderID := bidder, price := price, count := (b.auctions pData).count + 1 }
    else b.auctions r :=
  Function.update_apply _ _ _ _

theorem auctions_moveToImminent : (b.moveToImminent wstr pData draw).auctions r =
    if r = pData then { b.auctions pData with
      status := .imminent, endTime := (b.auctions pData).endTime + draw.1 }
    else b.auctions r :=
  Function.update_apply _ _ _ _

/-- The status an ending auction takes. -/
def finishStatus (data : AuctionData) : AuctionStatus := if data.bidderID = 0 then .finFail else .fin

theorem finish_status_ended (data : AuctionData) : (finishStatus data).ended := by
  unfold finishStatus
  split
  · exact .inr rfl
  · exact .inl rfl

theorem auctions_finish : (b.finish wstr pData).auctions r =
    if r = pData then { b.auctions pData with status := finishStatus (b.auctions pData) }
    else b.auctions r := by
  unfold finish finishStatus
  by_cases unbid : (b.auctions pData).bidderID = 0
  · rw [if_pos unbid, if_pos unbid]
    exact Function.update_apply b.auctions pData _ r
  · rw [if_neg unbid, if_neg unbid]
    exact Function.update_apply b.auctions pData _ r

section Fields
variable {α : Type} (field : AuctionData → α)

/-- What a bid does not write stays, of whatever record. -/
theorem bid_field (unwritten : ∀ (data : AuctionData) (bidder : Int64) (price count : Int32),
      field { data with bidderID := bidder, price := price, count := count } = field data) :
    field ((b.bid pData bidder price).auctions r) = field (b.auctions r) := by
  rw [auctions_bid]
  split
  · rename_i same
    rw [same, unwritten]
  · rfl

theorem move_field (unwritten : ∀ (data : AuctionData) (status : AuctionStatus) (endTime : UInt64),
      field { data with status := status, endTime := endTime } = field data) :
    field ((b.moveToImminent wstr pData draw).auctions r) = field (b.auctions r) := by
  rw [auctions_moveToImminent]
  split
  · rename_i same
    rw [same, unwritten]
  · rfl

theorem finish_field (unwritten : ∀ (data : AuctionData) (status : AuctionStatus),
      field { data with status := status } = field data) :
    field ((b.finish wstr pData).auctions r) = field (b.auctions r) := by
  rw [auctions_finish]
  split
  · rename_i same
    rw [same, unwritten]
  · rfl

end Fields

@[simp] theorem endTime_finish : ((b.finish wstr pData).auctions r).endTime =
    (b.auctions r).endTime :=
  finish_field b pData r wstr AuctionData.endTime fun _ _ => rfl

@[simp] theorem cellList_register : (b.register data).cellList =
    b.cellList.emplace data.nickName.chars b.nextAuction := rfl

@[simp] theorem imminentList_register : (b.register data).imminentList = b.imminentList := rfl

@[simp] theorem finListUMap_register : (b.register data).finListUMap = b.finListUMap := rfl

@[simp] theorem finList_register : (b.register data).finList = b.finList := rfl

@[simp] theorem nextAuction_register : (b.register data).nextAuction = b.nextAuction + 1 := rfl

@[simp] theorem cellList_moveToImminent : (b.moveToImminent wstr pData draw).cellList =
    b.cellList.erase wstr := rfl

@[simp] theorem imminentList_moveToImminent : (b.moveToImminent wstr pData draw).imminentList =
    b.imminentList.emplace wstr pData := rfl

@[simp] theorem finListUMap_moveToImminent : (b.moveToImminent wstr pData draw).finListUMap =
    b.finListUMap := rfl

@[simp] theorem finList_moveToImminent : (b.moveToImminent wstr pData draw).finList =
    b.finList := rfl

@[simp] theorem nextAuction_moveToImminent : (b.moveToImminent wstr pData draw).nextAuction =
    b.nextAuction := rfl

@[simp] theorem cellList_finish : (b.finish wstr pData).cellList = b.cellList := by
  unfold finish
  split <;> rfl

@[simp] theorem imminentList_finish : (b.finish wstr pData).imminentList =
    b.imminentList.erase wstr := by
  unfold finish
  split <;> rfl

@[simp] theorem nextAuction_finish : (b.finish wstr pData).nextAuction = b.nextAuction := by
  unfold finish
  split <;> rfl

theorem finListUMap_finish : (b.finish wstr pData).finListUMap =
    if (b.auctions pData).bidderID = 0 then b.finListUMap
    else b.finListUMap.emplace wstr pData := by
  unfold finish
  split <;> rfl

theorem finList_finish : (b.finish wstr pData).finList =
    if (b.auctions pData).bidderID = 0 then b.finList else pData :: b.finList := by
  unfold finish
  split <;> rfl

end Writes

/-! ## Steps of the book -/

/-- What one handler or one turn of a sweep does to the book. -/
inductive Event
  | registered (data : AuctionData)
  | bid (pData : AuctionRef) (bidder : Int64) (price : Int32)
  | imminent (wstr : WString) (pData : AuctionRef) (draw : Draw)
  | ended (wstr : WString) (pData : AuctionRef)

/-- An event with what the code has checked when it happens. -/
inductive Step : AuctionBook → Event → AuctionBook → Prop
  | registered {b : AuctionBook} {data : AuctionData} (sale : data.status = .sale)
      (noBidder : data.bidderID = 0) (noBid : data.count = 0) :
      Step b (.registered data) (b.register data)
  | bid {b : AuctionBook} {wstr : WString} {pData : AuctionRef} {bidder : Int64} {price : Int32}
      (found : b.find wstr = some pData) (higher : (b.auctions pData).price < price)
      (other : (b.auctions pData).ownerID ≠ bidder) :
      Step b (.bid pData bidder price) (b.bid pData bidder price)
  | imminent {b : AuctionBook} {wstr : WString} {pData : AuctionRef} {draw : Draw}
      (found : b.cellList.find wstr = some pData) :
      Step b (.imminent wstr pData draw) (b.moveToImminent wstr pData draw)
  | ended {b : AuctionBook} {wstr : WString} {pData : AuctionRef}
      (found : b.imminentList.find wstr = some pData) :
      Step b (.ended wstr pData) (b.finish wstr pData)

section Steps
variable {b b' : AuctionBook} {data : AuctionData} {pData : AuctionRef} {bidder : Int64} {price : Int32}

theorem Step.registered_eq (step : Step b (.registered data) b') : b' = b.register data := by
  cases step
  rfl

theorem Step.bid_eq (step : Step b (.bid pData bidder price) b') : b' = b.bid pData bidder price := by
  cases step
  rfl

/-- What has been checked of a bid. -/
theorem Step.bid_checked (step : Step b (.bid pData bidder price) b') :
    (∃ wstr, b.find wstr = some pData) ∧ (b.auctions pData).price < price ∧
      (b.auctions pData).ownerID ≠ bidder := by
  cases step with
  | bid found higher other => exact ⟨⟨_, found⟩, higher, other⟩

end Steps

end AuctionBook

end NewNameAuction
