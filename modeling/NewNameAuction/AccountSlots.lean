import NewNameAuction.AuctionEvents

/-! The slots of an account in `OwnList`, and the ways a job can change them. An
account without an entry has the empty slots that the code would insert. -/
namespace NewNameAuction
open ByteMemory

/-- `NickNames.push_back(wstr)` and `count++`. -/
def NickNameList.push (slots : NickNameList) (wstr : WString) : NickNameList :=
  { slots with nickNames := slots.nickNames ++ [wstr], count := slots.count + 1 }

namespace Store

/-- The slots of an account. -/
def slotsOf (s : Store) (accountNo : Int64) : NickNameList := (s.ownList.find accountNo).getD .empty

/-- What a job can make of an account's slots. -/
inductive SlotChange (s : Store) (env : JobEnv) (job : Job) (accountNo : Int64) : NickNameList → Prop
  | kept : SlotChange s env job accountNo (s.slotsOf accountNo)
  | bid {bid : AcceptedBid} {wstr : WString} : s.bidOf env job = some bid →
      bid.pPlayer.accountNo = accountNo → s.find wstr = some bid.pData →
      checkNames wstr (loopBound (s.slotsOf accountNo).count) (s.slotsOf accountNo).nickNames =
        .ok false →
      SlotChange s env job accountNo ((s.slotsOf accountNo).push wstr)
  | requested (request : WString) :
      SlotChange s env job accountNo { s.slotsOf accountNo with requestNickName := request }
  | changed {slots : NickNameList} : job = .nicknameChangeAble accountNo →
      changeLoop (loopBound (s.slotsOf accountNo).count) 0 (s.slotsOf accountNo) = .ok slots →
      SlotChange s env job accountNo slots
  | registered {data : AuctionData} : s.registration env job = some data →
      data.ownerID = accountNo →
      SlotChange s env job accountNo ((s.slotsOf accountNo).push data.nickName.chars)

section Slots
variable {env : JobEnv} {s s' : Store} {effects : List Effect} {accountNo : Int64}

/-- Writing one account's slots. -/
theorem slots_assigned {ownList : UnorderedMap Int64 NickNameList} {account : Int64}
    {old : NickNameList} (known : ownList.find account = some old) (slots : NickNameList) :
    ((ownList.assign account slots).find accountNo).getD .empty =
      if accountNo = account then slots else (ownList.find accountNo).getD .empty := by
  rw [UnorderedMap.find_assign, known]
  split
  · rfl
  · rfl

theorem find_slots_emplaced (s : Store) (account : Int64) :
    (s.ownList.emplace account NickNameList.empty).find account = some (s.slotsOf account) := by
  unfold slotsOf
  rw [UnorderedMap.find_emplace, if_pos rfl]
  cases s.ownList.find account with
  | some slots => rfl
  | none => rfl

theorem slots_emplaced (s : Store) (account accountNo : Int64) :
    ((s.ownList.emplace account NickNameList.empty).find accountNo).getD .empty =
      s.slotsOf accountNo := by
  by_cases here : accountNo = account
  · rw [here, find_slots_emplaced, Option.getD_some]
  · unfold slotsOf
    rw [UnorderedMap.find_emplace, if_neg here, Option.or_none]

/-- `OwnList_CheckAndInsert` pushes the name that its loop does not find. -/
theorem slots_inserted {account : Int64} {wstr : WString}
    (ran : s.ownListCheckAndInsert account wstr = .ok s') (accountNo : Int64) :
    s'.slotsOf accountNo = s.slotsOf accountNo ∨ accountNo = account ∧
      checkNames wstr (loopBound (s.slotsOf account).count) (s.slotsOf account).nickNames =
        .ok false ∧ s'.slotsOf accountNo = (s.slotsOf account).push wstr := by
  have same := slots_emplaced s account account
  obtain ⟨known, checked, ran⟩ := bind_ok.mp ran
  rw [same] at checked ran
  cases known with
  | true =>
    obtain rfl := Except.ok.inj ran
    exact .inl (slots_emplaced s account accountNo)
  | false =>
    obtain rfl := Except.ok.inj ran
    unfold slotsOf at checked ⊢
    dsimp only
    rw [slots_assigned (find_slots_emplaced s account)]
    split
    · rename_i here
      exact .inr ⟨here, checked, rfl⟩
    · exact .inl (slots_emplaced s account accountNo)

/-- A packet about something else leaves the slots alone. -/
theorem packet_slots {locals : Locals} {pPlayer : Player} {pPacket : Bytes}
    {sessionID : Int64} {packetType : UInt16} (notBid : packetType ≠ 5) (notChange : packetType ≠ 8)
    (turn : PacketTurn locals s pPlayer pPacket sessionID packetType s' effects) :
    s'.ownList = s.ownList := by
  cases turn with
  | bid ownList type accepted => exact absurd type notBid
  | changeNickname ownList job type check => exact absurd type notChange
  | saleRefused type => rfl
  | sale terms job type check => rfl
  | search replies type => rfl
  | bidRefused type refused => rfl
  | unknownPlayer type unknown => rfl
  | playerInfo nickName replies type known copied => rfl
  | unknownType other => rfl

private theorem bid_slots {sessionID : Int64} {pPacket : Bytes} {player : Player} {ret : Bool}
    (known : s.playerList.find sessionID = some player)
    (own : player.sessionID = sessionID ∧ player.isValid = true) (type : (s.readType pPacket).1 = 5)
    (ran : (s.withType (s.readType pPacket).1).packetProcReqBid env.locals player
      (s.readType pPacket).2 sessionID = .ok (ret, s', effects)) :
    SlotChange s env (.onRecv sessionID pPacket) accountNo (s'.slotsOf accountNo) := by
  cases accepted : (s.withType (s.readType pPacket).1).acceptedBid env.locals player
      (s.readType pPacket).2 with
  | none =>
    obtain ⟨rfl, _⟩ := req_bid_refused accepted ran
    exact .kept
  | some pData =>
    obtain ⟨_, inserted, _⟩ := req_bid_listed accepted ran
    rcases slots_inserted inserted accountNo with same | ⟨rfl, free, pushed⟩
    · rw [same]
      exact .kept
    · have made : s.bidOf env (.onRecv sessionID pPacket) =
          some ⟨pData, player, (readBid env.locals (s.readType pPacket).2).2⟩ := by
        dsimp only [bidOf]
        rw [known]
        dsimp only
        rw [if_pos ⟨own, type⟩]
        exact Option.map_eq_some_iff.mpr ⟨pData, accepted, rfl⟩
      rw [pushed]
      exact .bid made rfl (accepted_bid_some accepted).2.1 free

private theorem request_slots {locals : Locals} {block : DBCheckJob} {pPlayer : Player}
    {pPacket : Bytes} {sessionID : Int64} {ret : Bool}
    (ran : s.packetProcReqChangeNickname locals block pPlayer pPacket sessionID =
      .ok (ret, s', effects)) (accountNo : Int64) :
    s'.slotsOf accountNo = s.slotsOf accountNo ∨
      ∃ request, s'.slotsOf accountNo = { s.slotsOf accountNo with requestNickName := request } := by
  unfold packetProcReqChangeNickname at ran
  dsimp only at ran
  split at ran
  · cases ran
  · rename_i slots known
    obtain ⟨target, _, ran⟩ := bind_ok.mp ran
    cases ran
    unfold slotsOf
    dsimp only
    rw [slots_assigned known]
    split
    · rename_i here
      rw [here, known]
      exact .inr ⟨_, rfl⟩
    · exact .inl rfl

/-- A registered auction takes a slot of its owner. -/
theorem registered_slots {job : Job} {data : AuctionData} (made : s.registration env job = some data)
    (ran : s.runJob env job = .ok (s', effects)) :
    s'.slotsOf data.ownerID = (s.slotsOf data.ownerID).push data.nickName.chars := by
  obtain ⟨sessionID, accountNo, rfl, slot, terms, pPlayer, waiting, found, rfl⟩ := registration_made made
  cases job_turn ran with
  | registerRefused _ flag full => exact absurd full slot
  | registerUnasked _ _ unasked => cases unasked.symm.trans waiting
  | registerUnknown _ _ asked unknown => cases unknown.symm.trans found
  | register _ _ asked known =>
    cases asked.symm.trans waiting
    cases known.symm.trans found
    rw [slotsOf]
    dsimp only [registering, enlist, newAuction]
    rw [slots_assigned (find_slots_emplaced s accountNo), if_pos rfl]
    rfl

private theorem recv_slots {sessionID : Int64} {pPacket : Bytes}
    (ran : s.runJob env (.onRecv sessionID pPacket) = .ok (s', effects)) (accountNo : Int64) :
    SlotChange s env (.onRecv sessionID pPacket) accountNo (s'.slotsOf accountNo) := by
  rcases client_recv_cases ran with ⟨rfl, _, _⟩ | ⟨player, ret, processed, known, own, proc, _⟩
  · exact .kept
  · by_cases bid : (s.readType pPacket).1 = 5
    · unfold packetProc at proc
      rw [if_neg (by rw [bid]; decide), if_neg (by rw [bid]; decide), if_pos bid] at proc
      exact bid_slots known own bid proc
    · by_cases change : (s.readType pPacket).1 = 8
      · unfold packetProc at proc
        rw [if_neg (by rw [change]; decide), if_neg (by rw [change]; decide), if_neg bid,
          if_pos change] at proc
        rcases request_slots proc accountNo with same | ⟨request, same⟩
        · rw [same]
          exact .kept
        · rw [same]
          exact .requested request
      · have same := packet_slots bid change (packet_turn proc)
        unfold slotsOf
        rw [same]
        exact .kept

private theorem change_slots {account : Int64} (change : s.nicknameChangeAble account = .ok s')
    (accountNo : Int64) :
    SlotChange s env (.nicknameChangeAble account) accountNo (s'.slotsOf accountNo) := by
  unfold nicknameChangeAble at change
  split at change
  · cases change
  · rename_i slots known
    obtain ⟨slots', loop, change⟩ := bind_ok.mp change
    cases change
    have before : s.slotsOf account = slots := by
      rw [slotsOf, known]
      rfl
    rw [slotsOf]
    dsimp only
    rw [slots_assigned known]
    split
    · rename_i here
      subst here
      rw [← before] at loop
      exact .changed rfl loop
    · exact .kept

private theorem register_slots {sessionID account : Int64}
    (ran : s.runJob env (.nicknameRegisterAble sessionID account) = .ok (s', effects))
    (accountNo : Int64) :
    SlotChange s env (.nicknameRegisterAble sessionID account) accountNo (s'.slotsOf accountNo) := by
  cases job_turn ran with
  | registerRefused _ flag full =>
    rw [slotsOf, slots_emplaced]
    exact .kept
  | registerUnasked _ slot unasked =>
    rw [slotsOf, slots_emplaced]
    exact .kept
  | registerUnknown _ slot asked unknown =>
    rw [slotsOf]
    dsimp only [registering]
    rw [slots_emplaced]
    exact .kept
  | register _ slot asked known =>
    have made : s.registration env (.nicknameRegisterAble sessionID account) = _ :=
      registration_found slot asked known
    by_cases here : accountNo = account
    · subst here
      exact Eq.mpr (congrArg (SlotChange s env _ accountNo) (registered_slots made ran))
        (.registered made rfl)
    · rw [slotsOf]
      dsimp only [registering, enlist]
      rw [slots_assigned (find_slots_emplaced s account), if_neg here, slots_emplaced]
      exact .kept

/-- Every job changes the slots of an account in one of the ways, or not at all. -/
theorem slot_change {job : Job} (ran : s.runJob env job = .ok (s', effects)) (accountNo : Int64) :
    SlotChange s env job accountNo (s'.slotsOf accountNo) := by
  cases job with
  | onClientJoin sessionID =>
    cases job_turn ran
    exact .kept
  | onClientLeave sessionID =>
    cases job_turn ran with
    | leaveUnknown unknown => exact .kept
    | leave known => exact .kept
  | onRecv sessionID pPacket => exact recv_slots ran accountNo
  | nicknameChangeAble account =>
    obtain ⟨changed, change, ran⟩ := bind_ok.mp ran
    cases ran
    exact change_slots change accountNo
  | nicknameRegisterAble sessionID account => exact register_slots ran accountNo

theorem update_slots {env : UpdateEnv} (ran : s.update env = .ok (s', effects)) (accountNo : Int64) :
    s'.slotsOf accountNo = s.slotsOf accountNo := by
  obtain ⟨_, _, _, _, rfl⟩ := update_frame ran
  rfl

end Slots

end Store

end NewNameAuction
