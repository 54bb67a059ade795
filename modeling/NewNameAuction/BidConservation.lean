import Mathlib.Algebra.BigOperators.Group.Finset.Basic
import NewNameAuction.AuctionEvents

/-! Conservation of points by bids. A bid takes the bidder's points and writes
its price over the price before it, which is given back to nobody: the sum is
kept when there was no earlier bidder, or when he had bid nothing. -/
namespace NewNameAuction.BidConservation
open ByteMemory AuctionBook Store

/-- The auctions that have not ended: those in `CellList` or `ImminentList`. -/
def unfinished (b : AuctionBook) : Finset AuctionRef :=
  (b.cellList.values ++ b.imminentList.values).toFinset

/-- The points of all connected players. -/
def totalPoint (s : Store) : Int := (s.playerList.values.map fun pPlayer => pPlayer.point.toInt).sum

/-- What a record holds of its bidder's points. -/
def heldPrice (data : AuctionData) : Int := if data.bidderID = 0 then 0 else data.price.toInt

/-- The prices of the unfinished auctions that have a bidder. -/
def totalPrice (b : AuctionBook) : Int := ∑ r ∈ unfinished b, heldPrice (b.auctions r)

/-- Accounts identify the connected players, and unfinished auctions have no
bidder or a connected one. -/
structure Accounts (s : Store) : Prop where
  nonzero : ∀ sessionID pPlayer, s.playerList.find sessionID = some pPlayer → pPlayer.accountNo ≠ 0
  distinct : ∀ sessionID sessionID' pPlayer pPlayer', s.playerList.find sessionID = some pPlayer →
    s.playerList.find sessionID' = some pPlayer' → pPlayer.accountNo = pPlayer'.accountNo →
    sessionID = sessionID'
  bidders : ∀ r ∈ unfinished s.toAuctionBook, (s.auctions r).bidderID = 0 ∨
    ∃ sessionID pPlayer, s.playerList.find sessionID = some pPlayer ∧
      pPlayer.accountNo = (s.auctions r).bidderID

/-- The law for one `REQ_BID` on session `bidder`: the sum of points and prices
is kept, an earlier bidder gets his price back, the bidder pays his bid, and no
one else's points change. -/
structure Conserves (s : Store) (locals : Locals) (bidder : Int64) (pPlayer : Player)
    (pPacket : Bytes) (s' : Store) : Prop where
  total : totalPoint s' + totalPrice s'.toAuctionBook = totalPoint s + totalPrice s.toAuctionBook
  players : ∀ sessionID p, s.playerList.find sessionID = some p →
    ∃ p', s'.playerList.find sessionID = some p' ∧
      match s.acceptedBid locals pPlayer pPacket with
      | none => p'.point.toInt = p.point.toInt
      | some pData => p'.point.toInt = p.point.toInt +
          (if p.accountNo = (s.auctions pData).bidderID then (s.auctions pData).price.toInt else 0) -
          (if sessionID = bidder then (readBid locals pPacket).2.toInt else 0)

/-- The auction an accepted bid is for had no bidder, or a price of zero. -/
def NothingToRefund (s : Store) (locals : Locals) (pPlayer : Player) (pPacket : Bytes) : Prop :=
  ∀ pData, s.acceptedBid locals pPlayer pPacket = some pData →
    (s.auctions pData).bidderID = 0 ∨ (s.auctions pData).price = 0

section Bids
variable {s s' : Store} {locals : Locals} {block : DBCheckJob} {pPlayer : Player} {pPacket : Bytes}
  {bidder : Int64} {ret : Bool} {effects : List Effect}

private theorem mem_unfinished {b : AuctionBook} {wstr : WString} {r : AuctionRef}
    (found : b.find wstr = some r) : r ∈ unfinished b := by
  unfold unfinished
  rw [List.mem_toFinset, List.mem_append]
  unfold AuctionBook.find at found
  split at found
  · rename_i imminent
    exact .inr (UnorderedMap.mem_values.mpr ⟨wstr, found ▸ imminent⟩)
  · exact .inl (UnorderedMap.mem_values.mpr ⟨wstr, found⟩)

/-- A bid exchanges what its record holds. -/
private theorem total_price_bid {b : AuctionBook} {pData : AuctionRef} (running : pData ∈ unfinished b)
    (account : Int64) (price : Int32) :
    totalPrice (b.bid pData account price) =
      totalPrice b - heldPrice (b.auctions pData) + (if account = 0 then 0 else price.toInt) := by
  have others : ∑ r ∈ (unfinished b).erase pData, heldPrice ((b.bid pData account price).auctions r) =
      ∑ r ∈ (unfinished b).erase pData, heldPrice (b.auctions r) := by
    refine Finset.sum_congr rfl fun r member => ?_
    rw [auctions_bid, if_neg (Finset.ne_of_mem_erase member)]
  have mine : heldPrice ((b.bid pData account price).auctions pData) =
      if account = 0 then 0 else price.toInt := by
    rw [auctions_bid, if_pos rfl, heldPrice]
  have before := Finset.add_sum_erase (unfinished b) (fun r => heldPrice (b.auctions r)) running
  have after := Finset.add_sum_erase (unfinished b)
    (fun r => heldPrice ((b.bid pData account price).auctions r)) running
  change ∑ r ∈ unfinished b, heldPrice ((b.bid pData account price).auctions r) = _
  unfold totalPrice
  rw [others, mine] at after
  omega

private theorem total_point_paid (known : s.playerList.find bidder = some pPlayer) (pData : AuctionRef)
    {price : Int32} (affordable : pPlayer.point = price) :
    totalPoint (s.acceptBid pPlayer bidder pData price) = totalPoint s - price.toInt := by
  have zero : (pPlayer.point - price).toInt = 0 := by
    rw [affordable, Int32.sub_self]
    rfl
  have sum : totalPoint (s.acceptBid pPlayer bidder pData price) + pPlayer.point.toInt =
      totalPoint s + (pPlayer.point - price).toInt :=
    UnorderedMap.sum_values_assign (fun p : Player => p.point.toInt) known
  rw [zero, affordable] at sum
  omega

/-- What the bid does to the points of each player. -/
private theorem players_after_bid (known : s.playerList.find bidder = some pPlayer)
    (pData : AuctionRef) {price : Int32} (affordable : pPlayer.point = price)
    {sessionID : Int64} {p : Player} (found : s.playerList.find sessionID = some p) :
    ∃ p', (s.acceptBid pPlayer bidder pData price).playerList.find sessionID = some p' ∧
      p'.point.toInt = p.point.toInt - if sessionID = bidder then price.toInt else 0 := by
  have looked := UnorderedMap.find_assign s.playerList bidder sessionID
    { pPlayer with point := pPlayer.point - price }
  rw [known, Option.map_some] at looked
  rcases eq_or_ne sessionID bidder with rfl | other
  · rw [if_pos rfl] at looked
    refine ⟨_, looked, ?_⟩
    obtain rfl := Option.some.inj (known.symm.trans found)
    rw [if_pos rfl, affordable, Int32.sub_self, Int.sub_self]
    rfl
  · rw [if_neg other] at looked
    refine ⟨p, looked.trans found, ?_⟩
    rw [if_neg other, Int.sub_zero]

/-- Points are conserved by a bid exactly when it has nothing to refund. -/
theorem conserves_iff_nothing_to_refund (accounts : Accounts s)
    (known : s.playerList.find bidder = some pPlayer)
    (ran : s.packetProcReqBid locals pPlayer pPacket bidder = .ok (ret, s', effects)) :
    Conserves s locals bidder pPlayer pPacket s' ↔ NothingToRefund s locals pPlayer pPacket := by
  cases accepted : s.acceptedBid locals pPlayer pPacket with
  | none =>
    obtain ⟨rfl, _⟩ := req_bid_refused accepted ran
    constructor
    · intro _ pData some
      rw [accepted] at some
      cases some
    · intro _
      refine ⟨rfl, fun sessionID p found => ⟨p, found, ?_⟩⟩
      rw [accepted]
  | some pData =>
    obtain ⟨affordable, found, _, _⟩ := accepted_bid_some accepted
    obtain ⟨_, ⟨ownList, rfl⟩, _⟩ := req_bid_accepted accepted ran
    have payer := accounts.nonzero bidder pPlayer known
    have points := total_point_paid known pData affordable
    have prices := total_price_bid (mem_unfinished found) pPlayer.accountNo (readBid locals pPacket).2
    rw [if_neg payer] at prices
    constructor
    · intro conserves pData' same
      obtain rfl := Option.some.inj (accepted.symm.trans same)
      have total : totalPoint (s.acceptBid pPlayer bidder pData (readBid locals pPacket).2) +
          totalPrice (s.toAuctionBook.bid pData pPlayer.accountNo (readBid locals pPacket).2) =
          totalPoint s + totalPrice s.toAuctionBook := conserves.total
      have held : heldPrice (s.auctions pData) = 0 := by omega
      unfold heldPrice at held
      split at held
      · exact .inl ‹_›
      · exact .inr (Int32.toInt_inj.mp held)
    · intro nothing
      have held : heldPrice (s.auctions pData) = 0 := by
        unfold heldPrice
        rcases nothing pData accepted with free | price
        · rw [if_pos free]
        · rw [price, Int32.toInt_zero, ite_self]
      refine ⟨?_, fun sessionID p stood => ?_⟩
      · change totalPoint (s.acceptBid pPlayer bidder pData (readBid locals pPacket).2) +
          totalPrice (s.toAuctionBook.bid pData pPlayer.accountNo (readBid locals pPacket).2) = _
        omega
      · obtain ⟨p', stands, point⟩ := players_after_bid known pData affordable stood
        refine ⟨p', stands, ?_⟩
        rw [accepted]
        change p'.point.toInt = _
        have refund : (if p.accountNo = (s.auctions pData).bidderID
            then (s.auctions pData).price.toInt else 0) = 0 := by
          rcases nothing pData accepted with free | price
          · rw [if_neg (free ▸ accounts.nonzero sessionID p stood)]
          · rw [price, Int32.toInt_zero, ite_self]
        rw [point, refund, Int.add_zero]

end Bids

/-! ## Two players -/

/-- Players of accounts 7 and 8 with 100 points each, and one auction of account 9
at 50, with a bid of account `bidderID`. -/
def twoPlayers (bidderID : Int64) : Store :=
  { Store.empty (fun _ => { AuctionData.zero with
      nickName := nameA, ownerID := 9, bidderID := bidderID,
      price := 50 }) 0 with
    nextAuction := 1
    cellList := (∅ : UnorderedMap WString AuctionRef).emplace [65] 0
    playerList := ((∅ : UnorderedMap Int64 Player).emplace 5
      ⟨true, 7, 5, nameB, 100⟩).emplace 6
      ⟨true, 8, 6, ⟨[67], by decide, by decide⟩, 100⟩ }

/-- The player of account 7. -/
def bidderPlayer : Player := ⟨true, 7, 5, nameB, 100⟩

/-- His `REQ_BID` of 100 for that auction. -/
def hundred : Bytes := [65, 0] ++ List.replicate 18 0 ++ [100, 0, 0, 0]

private theorem two_players_accounts {bidderID : Int64} (bidder : bidderID = 0 ∨ bidderID = 8) :
    Accounts (twoPlayers bidderID) := by
  have players : ∀ sessionID p, (twoPlayers bidderID).playerList.find sessionID = some p →
      (sessionID = 5 ∧ p.accountNo = 7) ∨ (sessionID = 6 ∧ p.accountNo = 8) := by
    intro sessionID p found
    unfold twoPlayers at found
    rcases UnorderedMap.find_emplace_some found with found | ⟨rfl, rfl⟩
    · rcases UnorderedMap.find_emplace_some found with found | ⟨rfl, rfl⟩
      · cases found
      · exact .inl ⟨rfl, rfl⟩
    · exact .inr ⟨rfl, rfl⟩
  refine ⟨?_, ?_, ?_⟩
  · intro sessionID p found
    rcases players sessionID p found with ⟨_, account⟩ | ⟨_, account⟩
    · rw [account]
      decide
    · rw [account]
      decide
  · intro sessionID sessionID' p p' found found' same
    rcases players sessionID p found with ⟨rfl, account⟩ | ⟨rfl, account⟩ <;>
      rcases players sessionID' p' found' with ⟨rfl, account'⟩ | ⟨rfl, account'⟩
    · rfl
    · rw [account, account'] at same
      exact absurd same (by decide)
    · rw [account, account'] at same
      exact absurd same (by decide)
    · rfl
  · intro r _
    rcases bidder with rfl | rfl
    · exact .inl rfl
    · exact .inr ⟨6, _, rfl, rfl⟩

/-- A first bid keeps the sum. -/
theorem first_bid_conserves : ∃ effects s',
    (twoPlayers 0).packetProcReqBid (JobEnv.zero 0).locals bidderPlayer hundred 5 =
      .ok (true, s', effects) ∧
    Conserves (twoPlayers 0) (JobEnv.zero 0).locals 5 bidderPlayer hundred s' := by
  have ran : ∃ effects s', (twoPlayers 0).packetProcReqBid (JobEnv.zero 0).locals bidderPlayer
      hundred 5 = .ok (true, s', effects) := ⟨_, _, rfl⟩
  obtain ⟨effects, s', ran⟩ := ran
  have accounts := two_players_accounts (.inl rfl)
  exact ⟨effects, s', ran, (conserves_iff_nothing_to_refund accounts rfl ran).mpr fun pData accepted =>
    .inl rfl⟩

/-- A bid over the 50 points of account 8 loses them. -/
theorem outbid_price_lost : ∃ effects s',
    Accounts (twoPlayers 8) ∧ (twoPlayers 8).playerList.find 5 = some bidderPlayer ∧
    (twoPlayers 8).packetProcReqBid (JobEnv.zero 0).locals bidderPlayer hundred 5 =
      .ok (true, s', effects) ∧
    totalPoint (twoPlayers 8) + totalPrice (twoPlayers 8).toAuctionBook = 250 ∧
    totalPoint s' + totalPrice s'.toAuctionBook = 200 := by
  have ran : ∃ effects s', (twoPlayers 8).packetProcReqBid (JobEnv.zero 0).locals bidderPlayer
      hundred 5 = .ok (true, s', effects) ∧ totalPoint s' + totalPrice s'.toAuctionBook = 200 :=
    ⟨_, _, rfl, rfl⟩
  obtain ⟨effects, s', ran, total⟩ := ran
  exact ⟨effects, s', two_players_accounts (.inr rfl), rfl, ran, rfl, total⟩

end NewNameAuction.BidConservation
