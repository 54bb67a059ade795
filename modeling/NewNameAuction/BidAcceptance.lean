import NewNameAuction.BidConservation
import NewNameAuction.SlotBounds

/-! Which bids `REQ_BID` accepts, and what an accepted one leaves. The check of the
points asks for a price equal to all points of the player, not for one they cover; and a
nickname that is pushed behind names no longer counted does not come among the counted
ones. -/
namespace NewNameAuction.BidAcceptance
open Store ByteMemory SlotBounds

/-- The names that the count says of. -/
def visibleNames (slots : NickNameList) : List WString :=
  slots.nickNames.take (loopBound slots.count)

/-- A bid that shall be accepted, for the auction it is for: `ImminentList` is searched
first, then `CellList`. -/
structure Acceptable (s : Store) (pPlayer : Player) (wstr : WString) (price : Int32)
    (pData : AuctionRef) : Prop where
  found : s.find wstr = some pData
  other : (s.auctions pData).ownerID ≠ pPlayer.accountNo
  higher : (s.auctions pData).price < price
  covered : price ≤ pPlayer.point

/-- The bid is paid, recorded and listed. -/
structure Taken (s' : Store) (pPlayer : Player) (sessionID : Int64) (wstr : WString) (price : Int32)
    (pData : AuctionRef) : Prop where
  paid : s'.playerList.find sessionID = some { pPlayer with point := pPlayer.point - price }
  price : (s'.auctions pData).price = price
  bidder : (s'.auctions pData).bidderID = pPlayer.accountNo
  listed : ∃ slots, s'.ownList.find pPlayer.accountNo = some slots ∧ wstr ∈ visibleNames slots

/-- No player, auction or slot list is another. -/
structure Unchanged (s s' : Store) : Prop where
  players : s'.playerList = s.playerList
  book : s'.toAuctionBook = s.toAuctionBook
  slots : s'.ownList = s.ownList

/-- The procedure takes the bids that shall be accepted, and nothing else. -/
def BidRight (locals : Locals) (s : Store) (pPlayer : Player) (pPacket : Bytes) (sessionID : Int64) :
    Prop :=
  let wstr := localString locals (readBid locals pPacket).1
  let price := (readBid locals pPacket).2
  ∃ ret s' effects, s.packetProcReqBid locals pPlayer pPacket sessionID = .ok (ret, s', effects) ∧
    (∀ pData, Acceptable s pPlayer wstr price pData → Taken s' pPlayer sessionID wstr price pData) ∧
    ((¬∃ pData, Acceptable s pPlayer wstr price pData) → Unchanged s s')

/-- The nickname is counted, or it stands right behind the counted names once it has
been pushed. -/
def Listable (slots : NickNameList) (wstr : WString) : Prop :=
  wstr ∈ visibleNames slots ∨ 0 ≤ slots.count.toInt ∧ slots.count.toInt < 2 ^ 31 - 1 ∧
    (slots.nickNames ++ [wstr])[slots.count.toInt.toNat]? = some wstr

/-! ## The slots -/

section Names
variable {wstr : WString}

theorem check_names_known {count : Nat} {names : List WString} :
    checkNames wstr count names = .ok true ↔ wstr ∈ names.take count := by
  induction count generalizing names with
  | zero => exact iff_of_false (fun known => by cases known) (by rw [List.take_zero]; exact List.not_mem_nil)
  | succ count ih =>
    cases names with
    | nil => exact iff_of_false (fun known => by cases known) List.not_mem_nil
    | cons name rest =>
      rw [checkNames, List.take_succ_cons, List.mem_cons]
      by_cases here : name = wstr
      · rw [if_pos here]
        exact iff_of_true rfl (.inl here.symm)
      · rw [if_neg here, ih, or_iff_right (Ne.symm here)]

theorem check_names_free {count : Nat} {names : List WString} :
    checkNames wstr count names = .ok false ↔ wstr ∉ names.take count ∧ count ≤ names.length := by
  constructor
  · intro free
    refine ⟨fun member => ?_, ?_⟩
    · cases (check_names_known.mpr member).symm.trans free
    · induction count generalizing names with
      | zero => exact Nat.zero_le _
      | succ count ih =>
        cases names with
        | nil => cases free
        | cons name rest =>
          rw [checkNames] at free
          split at free
          · cases free
          · exact Nat.succ_le_succ (ih free)
  · rintro ⟨absent, within⟩
    obtain ⟨known, checked⟩ := check_names_total wstr within
    cases known with
    | true => exact absurd (check_names_known.mp checked) absent
    | false => exact checked

theorem count_raised {count : Int32} (room : count.toInt < 2 ^ 31 - 1) :
    (count + 1).toInt = count.toInt + 1 := by
  have low := count.le_toInt
  rw [Int32.toInt_add]
  change (count.toInt + 1).bmod (2 ^ 32) = _
  exact Int.bmod_eq_of_le (by omega) (by omega)

/-- Of what is pushed the last counted name decides. -/
theorem pushed_visible {slots : NickNameList} (absent : wstr ∉ visibleNames slots)
    (within : loopBound slots.count ≤ slots.nickNames.length) :
    wstr ∈ visibleNames (slots.push wstr) ↔ Listable slots wstr := by
  have top := slots.count.toInt_lt
  unfold Listable
  rw [or_iff_right absent]
  unfold visibleNames at absent ⊢
  unfold loopBound at absent within ⊢
  dsimp only [NickNameList.push]
  by_cases last : slots.count.toInt < 2 ^ 31 - 1
  · rw [count_raised last]
    by_cases negative : slots.count.toInt < 0
    · have none : (slots.count.toInt + 1).toNat = 0 := by omega
      rw [none, List.take_zero]
      exact iff_of_false List.not_mem_nil (by omega)
    · have up : (slots.count.toInt + 1).toNat = slots.count.toInt.toNat + 1 := by omega
      rw [up, List.take_add_one, List.mem_append, List.take_append_of_le_length within,
        or_iff_right absent, Option.mem_toList]
      exact ⟨fun there => ⟨by omega, last, there⟩, fun there => there.2.2⟩
  · have full : slots.count = Int32.maxValue := by
      apply Int32.toInt_inj.mp
      change slots.count.toInt = 2 ^ 31 - 1
      omega
    rw [full]
    exact iff_of_false List.not_mem_nil fun there => absurd there.2.1 (by decide)

end Names

section Bids
variable {s s' : Store} {locals : Locals} {pPlayer : Player} {pPacket : Bytes} {sessionID : Int64}

/-- `OwnList_CheckAndInsert` returns with the nickname counted exactly if it can. -/
theorem inserted_visible (s : Store) (accountNo : Int64) (wstr : WString) :
    (∃ s', s.ownListCheckAndInsert accountNo wstr = .ok s' ∧
      ∃ slots, s'.ownList.find accountNo = some slots ∧ wstr ∈ visibleNames slots) ↔
    Listable (s.slotsOf accountNo) wstr := by
  have emplaced := find_slots_emplaced s accountNo
  unfold ownListCheckAndInsert
  dsimp only
  rw [slots_emplaced]
  by_cases member : wstr ∈ visibleNames (s.slotsOf accountNo)
  · rw [check_names_known.mpr member]
    exact iff_of_true ⟨_, rfl, _, emplaced, member⟩ (.inl member)
  · by_cases within : loopBound (s.slotsOf accountNo).count ≤ (s.slotsOf accountNo).nickNames.length
    · rw [check_names_free.mpr ⟨member, within⟩, ← pushed_visible member within]
      have found : ((s.ownList.emplace accountNo .empty).assign accountNo
          ((s.slotsOf accountNo).push wstr)).find accountNo = some ((s.slotsOf accountNo).push wstr) := by
        rw [UnorderedMap.find_assign, if_pos rfl, emplaced]
        rfl
      constructor
      · rintro ⟨t, ran, slots, there, visible⟩
        cases ran
        cases found.symm.trans there
        exact visible
      · exact fun visible => ⟨_, rfl, _, found, visible⟩
    · refine iff_of_false ?_ ?_
      · rintro ⟨t, ran, _⟩
        obtain ⟨known, checked, _⟩ := bind_ok.mp ran
        cases known with
        | true => exact member (check_names_known.mp checked)
        | false => exact within (check_names_free.mp checked).2
      · rintro (visible | ⟨_, _, last⟩)
        · exact member visible
        · have inside := (List.getElem?_eq_some_iff.mp last).1
          unfold loopBound at within
          rw [List.length_append, List.length_singleton] at inside
          omega

/-- Whatever the code accepts shall be accepted. -/
theorem accepted_acceptable {pData : AuctionRef}
    (accepted : s.acceptedBid locals pPlayer pPacket = some pData) :
    Acceptable s pPlayer (localString locals (readBid locals pPacket).1) (readBid locals pPacket).2
      pData := by
  obtain ⟨points, found, higher, other⟩ := accepted_bid_some accepted
  exact ⟨found, other, higher, Int32.le_of_eq points.symm⟩

theorem acceptable_accepted {pData : AuctionRef}
    (acceptable : Acceptable s pPlayer (localString locals (readBid locals pPacket).1)
      (readBid locals pPacket).2 pData) (points : pPlayer.point = (readBid locals pPacket).2) :
    s.acceptedBid locals pPlayer pPacket = some pData := by
  unfold acceptedBid
  dsimp only
  rw [if_pos points, acceptable.found]
  exact Option.filter_eq_some_iff.mpr ⟨rfl, decide_eq_true ⟨acceptable.higher, acceptable.other⟩⟩

/-- An accepted bid is taken exactly if its nickname can be listed. -/
theorem accepted_taken (known : s.playerList.find sessionID = some pPlayer) {pData : AuctionRef}
    (accepted : s.acceptedBid locals pPlayer pPacket = some pData) :
    (∃ ret s' effects, s.packetProcReqBid locals pPlayer pPacket sessionID = .ok (ret, s', effects) ∧
      Taken s' pPlayer sessionID (localString locals (readBid locals pPacket).1)
        (readBid locals pPacket).2 pData) ↔
    Listable (s.slotsOf pPlayer.accountNo) (localString locals (readBid locals pPacket).1) := by
  have listing := inserted_visible (s.acceptBid pPlayer sessionID pData (readBid locals pPacket).2)
    pPlayer.accountNo (localString locals (readBid locals pPacket).1)
  constructor
  · rintro ⟨ret, s', effects, ran, taken⟩
    obtain ⟨_, inserted, _⟩ := req_bid_listed accepted ran
    exact listing.mp ⟨s', inserted, taken.listed⟩
  · intro listable
    obtain ⟨s', inserted, listed⟩ := listing.mpr listable
    obtain ⟨ownList, rfl⟩ := own_list_inserted inserted
    refine ⟨true, _, _, (req_bid_accepted_eq accepted).trans (bind_ok.mpr ⟨_, inserted, rfl⟩), ?_⟩
    have record := AuctionBook.auctions_bid s.toAuctionBook pData pData pPlayer.accountNo
      (readBid locals pPacket).2
    rw [if_pos rfl] at record
    refine ⟨?_, congrArg AuctionData.price record, congrArg AuctionData.bidderID record, listed⟩
    refine (UnorderedMap.find_assign ..).trans ?_
    rw [if_pos rfl, known]
    rfl

/-- For every store, connected player and bid: the procedure is right exactly if a bid
that shall be accepted is of all the player's points and its nickname can be listed. -/
theorem bid_right_iff (locals : Locals) (s : Store) (pPlayer : Player) (pPacket : Bytes)
    (sessionID : Int64) (known : s.playerList.find sessionID = some pPlayer) :
    BidRight locals s pPlayer pPacket sessionID ↔
      ∀ pData, Acceptable s pPlayer (localString locals (readBid locals pPacket).1)
          (readBid locals pPacket).2 pData →
        pPlayer.point = (readBid locals pPacket).2 ∧
          Listable (s.slotsOf pPlayer.accountNo) (localString locals (readBid locals pPacket).1) := by
  constructor
  · rintro ⟨ret, s', effects, ran, taken, _⟩ pData acceptable
    have made := taken pData acceptable
    cases accepted : s.acceptedBid locals pPlayer pPacket with
    | none =>
      -- the record would have to have the price that is higher than its own
      obtain ⟨rfl, _⟩ := req_bid_refused accepted ran
      have higher := acceptable.higher
      rw [made.price] at higher
      exact absurd higher Int32.lt_irrefl
    | some r =>
      obtain rfl := Option.some.inj ((accepted_acceptable accepted).found.symm.trans acceptable.found)
      exact ⟨(accepted_bid_some accepted).1, (accepted_taken known accepted).mp ⟨ret, s', effects, ran, made⟩⟩
  · intro right
    by_cases wanted : ∃ pData, Acceptable s pPlayer (localString locals (readBid locals pPacket).1)
        (readBid locals pPacket).2 pData
    · obtain ⟨pData, acceptable⟩ := wanted
      obtain ⟨points, listable⟩ := right pData acceptable
      obtain ⟨ret, s', effects, ran, taken⟩ :=
        (accepted_taken known (acceptable_accepted acceptable points)).mpr listable
      refine ⟨ret, s', effects, ran, fun r again => ?_, fun unwanted => absurd ⟨pData, acceptable⟩ unwanted⟩
      obtain rfl := Option.some.inj (again.found.symm.trans acceptable.found)
      exact taken
    · have refused : s.acceptedBid locals pPlayer pPacket = none := by
        rw [Option.eq_none_iff_forall_ne_some]
        exact fun pData accepted => wanted ⟨pData, accepted_acceptable accepted⟩
      obtain ⟨ret, ran⟩ : ∃ ret, s.packetProcReqBid locals pPlayer pPacket sessionID =
          .ok (ret, s, []) := req_bid_refused_eq refused
      exact ⟨ret, s, [], ran, fun pData acceptable => absurd ⟨pData, acceptable⟩ wanted,
        fun _ => ⟨rfl, rfl, rfl⟩⟩

end Bids

/-! ## Two players -/

open BidConservation

/-- A bid of all points is handled as it shall be. -/
theorem whole_bid_right :
    BidRight (JobEnv.zero 0).locals (twoPlayers 0) bidderPlayer hundred 5 :=
  (bid_right_iff _ (twoPlayers 0) bidderPlayer hundred 5 rfl).mpr fun _ _ =>
    ⟨rfl, .inr ⟨by decide, by decide, rfl⟩⟩

/-- `REQ_BID` of 60 for the auction at 50. -/
def sixty : Bytes := [65, 0] ++ List.replicate 18 0 ++ [60, 0, 0, 0]

/-- A bid of 60 from a player with 100 points is not accepted, and he is cut. -/
theorem partial_bid_refused :
    Acceptable (twoPlayers 0) bidderPlayer [65] 60 0 ∧
      ¬BidRight (JobEnv.zero 0).locals (twoPlayers 0) bidderPlayer sixty 5 ∧
      (twoPlayers 0).packetProcReqBid (JobEnv.zero 0).locals bidderPlayer sixty 5 =
        .ok (false, twoPlayers 0, []) := by
  have acceptable : Acceptable (twoPlayers 0) bidderPlayer [65] 60 0 := by
    refine ⟨rfl, ?_, ?_, ?_⟩
    · change (9 : Int64) ≠ 7
      decide
    · change (50 : Int32) < 60
      decide
    · change (60 : Int32) ≤ 100
      decide
  refine ⟨acceptable, ?_, rfl⟩
  rintro ⟨ret, s', effects, ran, taken, _⟩
  have refused : (twoPlayers 0).packetProcReqBid (JobEnv.zero 0).locals bidderPlayer sixty 5 =
      .ok (false, twoPlayers 0, []) := rfl
  cases refused.symm.trans ran
  exact absurd (show (50 : Int32) = 60 from (taken 0 acceptable).price) (by decide)

end NewNameAuction.BidAcceptance
