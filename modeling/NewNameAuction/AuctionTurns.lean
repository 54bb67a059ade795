import NewNameAuction.AuctionLogic

/-! What a packet and a job can do, one case for each way through their
procedures. Each case says what it met and what it left; whatever a job keeps is
then proved case by case, away from the code of the procedures. -/
namespace NewNameAuction
open ByteMemory

namespace Store

/-! ## Procedures -/

section Procedures
variable {locals : Locals} {block : DBCheckJob} {s s' : Store} {pPlayer : Player} {pPacket : Bytes}
  {sessionID : Int64} {ret : Bool} {effects : List Effect}

/-- The nickname and the price of a bid. -/
def readBid (locals : Locals) (pPacket : Bytes) : List UInt16 × Int32 :=
  let (nickName, pPacket) := getNickName locals.nickName pPacket
  (nickName, (getInt32 locals.price pPacket).1)

/-- The auction a bid is accepted for, by the checks of the procedure. -/
def acceptedBid (s : Store) (locals : Locals) (pPlayer : Player) (pPacket : Bytes) :
    Option AuctionRef :=
  let (nickName, price) := readBid locals pPacket
  if pPlayer.point = price then
    (s.find (localString locals nickName)).filter fun pData =>
      (s.auctions pData).price < price ∧ (s.auctions pData).ownerID ≠ pPlayer.accountNo
  else none

theorem accepted_bid_some {pData : AuctionRef}
    (accepted : s.acceptedBid locals pPlayer pPacket = some pData) :
    pPlayer.point = (readBid locals pPacket).2 ∧
      s.find (localString locals (readBid locals pPacket).1) = some pData ∧
      (s.auctions pData).price < (readBid locals pPacket).2 ∧
      (s.auctions pData).ownerID ≠ pPlayer.accountNo := by
  unfold acceptedBid at accepted
  dsimp only at accepted
  split at accepted
  · rename_i affordable
    obtain ⟨found, checks⟩ := Option.filter_eq_some_iff.mp accepted
    obtain ⟨higher, other⟩ := of_decide_eq_true checks
    exact ⟨affordable, found, higher, other⟩
  · cases accepted

/-- `OwnList_CheckAndInsert` writes `OwnList` alone. -/
theorem own_list_inserted {accountNo : Int64} {wstr : WString}
    (ran : s.ownListCheckAndInsert accountNo wstr = .ok s') :
    ∃ ownList, s' = { s with ownList := ownList } := by
  obtain ⟨known, _, ran⟩ := bind_ok.mp ran
  cases known with
  | true => exact ⟨_, (Except.ok.inj ran).symm⟩
  | false => exact ⟨_, (Except.ok.inj ran).symm⟩

/-- A bid that is not accepted changes and sends nothing. -/
theorem req_bid_refused_eq (refused : s.acceptedBid locals pPlayer pPacket = none) :
    ∃ ret, s.packetProcReqBid locals pPlayer pPacket sessionID = .ok (ret, s, []) := by
  unfold packetProcReqBid
  unfold acceptedBid readBid at refused
  dsimp only at refused ⊢
  split
  · exact ⟨false, rfl⟩
  · rename_i affordable
    rw [if_pos (not_not.mp affordable)] at refused
    split
    · exact ⟨true, rfl⟩
    · rename_i pData found
      rw [found, Option.filter_eq_none_iff] at refused
      have checks := refused pData rfl
      simp only [ne_eq, decide_eq_true_eq, not_and, not_not] at checks
      split
      · exact ⟨true, rfl⟩
      · rename_i passed
        obtain ⟨higher, other⟩ := not_or.mp passed
        exact absurd (checks (Int32.not_le.mp higher)) other

theorem req_bid_refused (refused : s.acceptedBid locals pPlayer pPacket = none)
    (ran : s.packetProcReqBid locals pPlayer pPacket sessionID = .ok (ret, s', effects)) :
    s' = s ∧ effects = [] := by
  obtain ⟨ret', returned⟩ := req_bid_refused_eq refused
  cases returned.symm.trans ran
  exact ⟨rfl, rfl⟩

/-- An accepted bid is taken, then listed. -/
theorem req_bid_accepted_eq {pData : AuctionRef}
    (accepted : s.acceptedBid locals pPlayer pPacket = some pData) :
    let price := (readBid locals pPacket).2
    s.packetProcReqBid locals pPlayer pPacket sessionID =
      (s.acceptBid pPlayer sessionID pData price).ownListCheckAndInsert pPlayer.accountNo
        (localString locals (readBid locals pPacket).1) >>= fun listed =>
      .ok (true, listed, (s.acceptBid pPlayer sessionID pData price).bidReplies pPlayer
        (cString (readBid locals pPacket).1) price) := by
  obtain ⟨affordable, found, higher, other⟩ := accepted_bid_some accepted
  unfold packetProcReqBid
  unfold readBid at affordable found higher ⊢
  dsimp only at affordable found higher ⊢
  rw [if_neg (not_not.mpr affordable), found]
  dsimp only
  rw [if_neg (not_or.mpr ⟨Int32.not_le.mpr higher, other⟩)]

/-- An accepted bid, if the procedure returns, is taken and listed. -/
theorem req_bid_listed {pData : AuctionRef}
    (accepted : s.acceptedBid locals pPlayer pPacket = some pData)
    (ran : s.packetProcReqBid locals pPlayer pPacket sessionID = .ok (ret, s', effects)) :
    let price := (readBid locals pPacket).2
    ret = true ∧
      (s.acceptBid pPlayer sessionID pData price).ownListCheckAndInsert pPlayer.accountNo
        (localString locals (readBid locals pPacket).1) = .ok s' ∧
      effects = (s.acceptBid pPlayer sessionID pData price).bidReplies pPlayer
        (cString (readBid locals pPacket).1) price := by
  rw [req_bid_accepted_eq accepted] at ran
  obtain ⟨listed, inserted, ran⟩ := bind_ok.mp ran
  cases ran
  exact ⟨rfl, inserted, rfl⟩

/-- An accepted bid, if the procedure returns. -/
theorem req_bid_accepted {pData : AuctionRef}
    (accepted : s.acceptedBid locals pPlayer pPacket = some pData)
    (ran : s.packetProcReqBid locals pPlayer pPacket sessionID = .ok (ret, s', effects)) :
    let price := (readBid locals pPacket).2
    ret = true ∧ (∃ ownList, s' = { s.acceptBid pPlayer sessionID pData price with ownList }) ∧
      effects = (s.acceptBid pPlayer sessionID pData price).bidReplies pPlayer
        (cString (readBid locals pPacket).1) price := by
  obtain ⟨returned, inserted, sent⟩ := req_bid_listed accepted ran
  exact ⟨returned, own_list_inserted inserted, sent⟩

/-- The nickname and the terms of a sale request. -/
def readSale (locals : Locals) (pPacket : Bytes) : List UInt16 × InitData :=
  let (nickName, pPacket) := getNickName locals.nickName pPacket
  let (time, pPacket) := getInt8 locals.time pPacket
  (nickName, ⟨time, (getInt32 locals.price pPacket).1⟩)

/-- The `NICKNAME_REGISTER_CHECK` job about the player's nickname. -/
def registerCheck (block : DBCheckJob) (pPlayer : Player) (sessionID : Int64) : DBCheckJob :=
  { block with
    jobType := .nicknameRegisterCheck
    accountNo := pPlayer.accountNo
    sessionID := sessionID
    myNickName := pPlayer.nickName.chars }

/-- A sale request under the player's nickname leaves its terms and one job. The
copy of the nickname cannot fail: it equals a field that is terminated. -/
theorem req_sale_eq (locals : Locals) (block : DBCheckJob) (s : Store) (pPlayer : Player)
    (pPacket : Bytes) (sessionID : Int64) :
    s.packetProcReqSale locals block pPlayer pPacket sessionID =
      if pPlayer.nickName.chars ≠ localString locals (readSale locals pPacket).1 then .ok (false, s, [])
      else .ok (true, { s with
          waitingDataList := s.waitingDataList.emplace pPlayer.accountNo (readSale locals pPacket).2 },
        [.enqueueDB (registerCheck block pPlayer sessionID)]) := by
  unfold packetProcReqSale readSale
  dsimp only
  split
  · rfl
  · rename_i same
    rw [← not_not.mp same, wcscpyS_chars]
    rfl

/-- A sale request leaves at most its terms and one job. -/
theorem req_sale_cases
    (ran : s.packetProcReqSale locals block pPlayer pPacket sessionID = .ok (ret, s', effects)) :
    (s' = s ∧ effects = []) ∨ ∃ terms job,
      s' = { s with waitingDataList := s.waitingDataList.emplace pPlayer.accountNo terms } ∧
      effects = [.enqueueDB job] ∧ job.jobType = .nicknameRegisterCheck := by
  rw [req_sale_eq] at ran
  split at ran
  · cases ran
    exact .inl ⟨rfl, rfl⟩
  · cases ran
    exact .inr ⟨_, _, rfl, rfl, rfl⟩

theorem req_search_cases
    (ran : s.packetProcReqSearch locals pPlayer pPacket sessionID = .ok (ret, s', effects)) :
    s' = s ∧ ∃ replies : List Reply, effects = replies.map (.send sessionID) := by
  cases ran
  exact ⟨rfl, _, rfl⟩

theorem req_change_nickname_cases
    (ran : s.packetProcReqChangeNickname locals block pPlayer pPacket sessionID =
      .ok (ret, s', effects)) :
    ∃ ownList job, s' = { s with ownList } ∧ effects = [.enqueueDB job] ∧
      job.jobType = .nicknameChangeCheck := by
  unfold packetProcReqChangeNickname at ran
  dsimp only at ran
  split at ran
  · cases ran
  · obtain ⟨target, _, ran⟩ := bind_ok.mp ran
    cases ran
    exact ⟨_, _, rfl, rfl, rfl⟩

/-- The account number in a `RES_PLAYER_INFO` packet. -/
def readAccount (locals : Locals) (pPacket : Bytes) : Int64 := (getInt64 locals.accountNo pPacket).1

/-- The points and the nickname behind it. -/
def readInfo (locals : Locals) (pPacket : Bytes) : Int32 × List UInt16 :=
  let (point, pPacket) := getInt32 locals.point (getInt64 locals.accountNo pPacket).2
  (point, (getNickName locals.nickName pPacket).1)

theorem init_packets_sent (ran : s.sendInitPackets pPlayer = .ok effects) :
    ∃ replies : List Reply, effects = replies.map (.send pPlayer.sessionID) := by
  obtain ⟨slots, _, ran⟩ := bind_ok.mp ran
  cases ran
  exact ⟨_, rfl⟩

/-- Player information reaches the player whose session number is the account
number, if there is one. -/
theorem res_player_info_cases
    (ran : s.packetProcResPlayerInfo locals pPacket = .ok (ret, s', effects)) :
    (s.playerList.find (readAccount locals pPacket) = none ∧ s' = s ∧ effects = []) ∨
      ∃ found nickName, s.playerList.find (readAccount locals pPacket) = some found ∧
        wcscpyS (localString locals (readInfo locals pPacket).2) = .ok nickName ∧
        s' = { s with
          playerList := s.playerList.assign (readAccount locals pPacket)
            (informed found (readInfo locals pPacket).1 nickName) } ∧
        ∃ replies : List Reply, effects = replies.map (.send found.sessionID) := by
  unfold packetProcResPlayerInfo at ran
  unfold readAccount
  dsimp only at ran
  split at ran
  · rename_i unknown
    cases ran
    exact .inl ⟨unknown, rfl, rfl⟩
  · rename_i found known
    obtain ⟨nickName, copied, ran⟩ := bind_ok.mp ran
    obtain ⟨sent, sending, ran⟩ := bind_ok.mp ran
    obtain ⟨replies, sent⟩ := init_packets_sent sending
    cases ran
    exact .inr ⟨found, nickName, known, copied, rfl, replies, sent⟩

/-! ## Packets -/

/-- What a packet of a player can do. -/
inductive PacketTurn (locals : Locals) (s : Store) (pPlayer : Player) (pPacket : Bytes)
    (sessionID : Int64) (packetType : UInt16) : Store → List Effect → Prop
  | saleRefused : packetType = 1 → PacketTurn locals s pPlayer pPacket sessionID packetType s []
  | sale (terms : InitData) (job : DBCheckJob) : packetType = 1 →
      job.jobType = .nicknameRegisterCheck →
      PacketTurn locals s pPlayer pPacket sessionID packetType
        { s with waitingDataList := s.waitingDataList.emplace pPlayer.accountNo terms }
        [.enqueueDB job]
  | search (replies : List Reply) : packetType = 3 →
      PacketTurn locals s pPlayer pPacket sessionID packetType s (replies.map (.send sessionID))
  | bidRefused : packetType = 5 → s.acceptedBid locals pPlayer pPacket = none →
      PacketTurn locals s pPlayer pPacket sessionID packetType s []
  | bid {pData : AuctionRef} (ownList : UnorderedMap Int64 NickNameList) : packetType = 5 →
      s.acceptedBid locals pPlayer pPacket = some pData →
      PacketTurn locals s pPlayer pPacket sessionID packetType
        { s.acceptBid pPlayer sessionID pData (readBid locals pPacket).2 with ownList }
        ((s.acceptBid pPlayer sessionID pData (readBid locals pPacket).2).bidReplies pPlayer
          (cString (readBid locals pPacket).1) (readBid locals pPacket).2)
  | changeNickname (ownList : UnorderedMap Int64 NickNameList) (job : DBCheckJob) :
      packetType = 8 → job.jobType = .nicknameChangeCheck →
      PacketTurn locals s pPlayer pPacket sessionID packetType { s with ownList } [.enqueueDB job]
  | unknownPlayer : packetType = 10 → s.playerList.find (readAccount locals pPacket) = none →
      PacketTurn locals s pPlayer pPacket sessionID packetType s []
  | playerInfo {found : Player} (nickName : NickName) (replies : List Reply) :
      packetType = 10 → s.playerList.find (readAccount locals pPacket) = some found →
      wcscpyS (localString locals (readInfo locals pPacket).2) = .ok nickName →
      PacketTurn locals s pPlayer pPacket sessionID packetType
        { s with
          playerList := s.playerList.assign (readAccount locals pPacket)
            (informed found (readInfo locals pPacket).1 nickName) }
        (replies.map (.send found.sessionID))
  | unknownType : packetType ∉ [1, 3, 5, 8, 10] →
      PacketTurn locals s pPlayer pPacket sessionID packetType s []

theorem packet_turn {packetType : UInt16}
    (ran : s.packetProc locals block pPlayer pPacket sessionID packetType = .ok (ret, s', effects)) :
    PacketTurn locals s pPlayer pPacket sessionID packetType s' effects := by
  unfold packetProc at ran
  split at ran
  · rename_i type
    obtain ⟨rfl, rfl⟩ | ⟨terms, job, rfl, rfl, check⟩ := req_sale_cases ran
    · exact .saleRefused type
    · exact .sale terms job type check
  rename_i notSale
  split at ran
  · rename_i type
    obtain ⟨rfl, replies, rfl⟩ := req_search_cases ran
    exact .search replies type
  rename_i notSearch
  split at ran
  · rename_i type
    cases accepted : s.acceptedBid locals pPlayer pPacket with
    | none =>
      obtain ⟨rfl, rfl⟩ := req_bid_refused accepted ran
      exact .bidRefused type accepted
    | some pData =>
      obtain ⟨_, ⟨ownList, rfl⟩, rfl⟩ := req_bid_accepted accepted ran
      exact .bid ownList type accepted
  rename_i notBid
  split at ran
  · rename_i type
    obtain ⟨ownList, job, rfl, rfl, check⟩ := req_change_nickname_cases ran
    exact .changeNickname ownList job type check
  rename_i notChange
  split at ran
  · rename_i type
    obtain ⟨unknown, rfl, rfl⟩ | ⟨found, nickName, known, copied, rfl, replies, rfl⟩ :=
      res_player_info_cases ran
    · exact .unknownPlayer type unknown
    · exact .playerInfo nickName replies type known copied
  · rename_i notInfo
    cases ran
    exact .unknownType (by simp [notSale, notSearch, notBid, notChange, notInfo])

/-- A bid is accepted and taken, or leaves everything alone. -/
theorem bid_turn {packetType : UInt16} (type : packetType = 5)
    (turn : PacketTurn locals s pPlayer pPacket sessionID packetType s' effects) :
    (s.acceptedBid locals pPlayer pPacket = none ∧ s' = s) ∨
      ∃ pData ownList, s.acceptedBid locals pPlayer pPacket = some pData ∧
        s' = { s.acceptBid pPlayer sessionID pData (readBid locals pPacket).2 with ownList } := by
  subst type
  cases turn with
  | bidRefused _ refused => exact .inl ⟨refused, rfl⟩
  | bid ownList _ accepted => exact .inr ⟨_, ownList, accepted, rfl⟩
  | unknownType other => exact absurd (by simp) other
  | saleRefused other | sale _ _ other _ | search _ other | changeNickname _ _ other _
  | unknownPlayer other _ | playerInfo _ _ other _ _ => exact absurd other (by decide)

end Procedures

/-! ## Jobs -/

section Jobs
variable {env : JobEnv} {s s' : Store} {job : Job} {effects : List Effect}

/-- The type word of a packet, and the packet behind it. -/
def readType (s : Store) (pPacket : Bytes) : UInt16 × Bytes := getWord s.packetType pPacket

/-- A packet for the player of its session is handed to the procedure of its type. -/
theorem client_recv_known {sessionID : Int64} {pPacket : Bytes} {player : Player}
    (known : s.playerList.find sessionID = some player)
    (own : player.sessionID = sessionID ∧ player.isValid = true) :
    s.clientRecv env sessionID pPacket =
      (s.withType (s.readType pPacket).1).packetProc env.locals env.block player
          (s.readType pPacket).2 sessionID (s.readType pPacket).1 >>= fun processed =>
        .ok (processed.2.1, if processed.1 then processed.2.2
          else processed.2.2 ++ [.disconnect player.sessionID]) := by
  have listed : (s.withType (s.readType pPacket).1).playerList.find sessionID = some player := known
  unfold clientRecv
  rw [readType] at listed
  simp only [listed]
  rw [if_neg (not_not.mpr own.1), if_neg (by rw [own.2]; decide)]
  rfl

/-- A packet for nobody changes the local and nothing else. -/
theorem client_recv_dropped {sessionID : Int64} {pPacket : Bytes}
    (refused : ∀ player, s.playerList.find sessionID = some player →
      ¬(player.sessionID = sessionID ∧ player.isValid = true)) :
    s.clientRecv env sessionID pPacket = .ok (s.withType (s.readType pPacket).1, []) := by
  unfold clientRecv
  dsimp only
  split
  · rfl
  · rename_i player known
    split
    · rfl
    · rename_i own
      split
      · rfl
      · rename_i valid
        exact absurd ⟨not_not.mp own, by simpa using valid⟩ (refused player known)

/-- A packet reaches its procedure only for a player of that session. -/
theorem client_recv_cases {sessionID : Int64} {pPacket : Bytes}
    (ran : s.clientRecv env sessionID pPacket = .ok (s', effects)) :
    let typed := s.withType (s.readType pPacket).1
    (s' = typed ∧ effects = [] ∧ ∀ player, s.playerList.find sessionID = some player →
        ¬(player.sessionID = sessionID ∧ player.isValid = true)) ∨
      ∃ player ret processed, s.playerList.find sessionID = some player ∧
        (player.sessionID = sessionID ∧ player.isValid = true) ∧
        typed.packetProc env.locals env.block player (s.readType pPacket).2 sessionID
          (s.readType pPacket).1 = .ok (ret, s', processed) ∧
        effects = if ret then processed else processed ++ [.disconnect player.sessionID] := by
  by_cases judged : ∃ player, s.playerList.find sessionID = some player ∧
      player.sessionID = sessionID ∧ player.isValid = true
  · obtain ⟨player, known, own⟩ := judged
    rw [client_recv_known known own] at ran
    obtain ⟨⟨ret, s'', processed⟩, proc, ran⟩ := bind_ok.mp ran
    cases ran
    exact .inr ⟨player, ret, processed, known, own, proc, rfl⟩
  · have refused : ∀ player, s.playerList.find sessionID = some player →
        ¬(player.sessionID = sessionID ∧ player.isValid = true) :=
      fun player known own => judged ⟨player, known, own⟩
    cases (client_recv_dropped refused).symm.trans ran
    exact .inl ⟨rfl, rfl, refused⟩

/-- `REGISTER_ABLE` finds no slot for the account. -/
abbrev NoSlot (s : Store) (accountNo : Int64) : Prop :=
  ((s.ownList.find accountNo).getD .empty).count ≥ maxUserSlot ∨ s.numOfSales ≥ maxServerSlot

/-- The store in which `REGISTER_ABLE` enlists the new record. -/
def registering (s : Store) (accountNo : Int64) : Store :=
  { s with
    ownList := s.ownList.emplace accountNo .empty
    waitingDataList := s.waitingDataList.erase accountNo }

/-- What a job can do. -/
inductive JobTurn (env : JobEnv) (s : Store) : Job → Store → List Effect → Prop
  | join (sessionID : Int64) : JobTurn env s (.onClientJoin sessionID) (s.clientJoin sessionID) []
  | leaveUnknown {sessionID : Int64} : s.playerList.find sessionID = none →
      JobTurn env s (.onClientLeave sessionID) s []
  | leave {sessionID : Int64} {pPlayer : Player} : s.playerList.find sessionID = some pPlayer →
      JobTurn env s (.onClientLeave sessionID)
        { s with
          waitingDataList := s.waitingDataList.erase pPlayer.accountNo
          playerList := s.playerList.erase sessionID } []
  | dropped {sessionID : Int64} {pPacket : Bytes} :
      (∀ player, s.playerList.find sessionID = some player →
        ¬(player.sessionID = sessionID ∧ player.isValid = true)) →
      JobTurn env s (.onRecv sessionID pPacket) (s.withType (s.readType pPacket).1) []
  | packet {sessionID : Int64} {pPacket : Bytes} {player : Player} {s' : Store}
      {processed : List Effect} (ret : Bool) : s.playerList.find sessionID = some player →
      (player.sessionID = sessionID ∧ player.isValid = true) →
      PacketTurn env.locals (s.withType (s.readType pPacket).1) player (s.readType pPacket).2
        sessionID (s.readType pPacket).1 s' processed →
      JobTurn env s (.onRecv sessionID pPacket) s'
        (if ret then processed else processed ++ [.disconnect player.sessionID])
  | changeAble (accountNo : Int64) (ownList : UnorderedMap Int64 NickNameList) :
      JobTurn env s (.nicknameChangeAble accountNo) { s with ownList } []
  | registerRefused (sessionID : Int64) {accountNo : Int64} (flag : RegisterFlag) :
      s.NoSlot accountNo →
      JobTurn env s (.nicknameRegisterAble sessionID accountNo)
        { s with ownList := s.ownList.emplace accountNo .empty } [.send sessionID (.resSale flag)]
  | registerUnasked (sessionID : Int64) {accountNo : Int64} : ¬s.NoSlot accountNo →
      s.waitingDataList.find accountNo = none →
      JobTurn env s (.nicknameRegisterAble sessionID accountNo)
        { s with ownList := s.ownList.emplace accountNo .empty } []
  | registerUnknown (sessionID : Int64) {accountNo : Int64} {terms : InitData} :
      ¬s.NoSlot accountNo → s.waitingDataList.find accountNo = some terms →
      s.playerList.find accountNo = none →
      JobTurn env s (.nicknameRegisterAble sessionID accountNo) (s.registering accountNo) []
  | register (sessionID : Int64) {accountNo : Int64} {terms : InitData} {pPlayer : Player} :
      ¬s.NoSlot accountNo → s.waitingDataList.find accountNo = some terms →
      s.playerList.find accountNo = some pPlayer →
      JobTurn env s (.nicknameRegisterAble sessionID accountNo)
        ((s.registering accountNo).enlist accountNo ((s.ownList.find accountNo).getD .empty)
          terms.time (newAuction env.curTime accountNo terms pPlayer.nickName))
        [.send sessionID (.resSale .success),
          .enqueueDB { env.block with
            jobType := .nicknameChangeCheck
            accountNo := accountNo
            sessionID := sessionID
            myNickName := pPlayer.nickName.chars }]

private theorem register_able_turn {sessionID accountNo : Int64} :
    JobTurn env s (.nicknameRegisterAble sessionID accountNo)
      (s.nicknameRegisterAble env sessionID accountNo).1
      (s.nicknameRegisterAble env sessionID accountNo).2 := by
  have slots : ((s.ownList.emplace accountNo NickNameList.empty).find accountNo).getD .empty =
      (s.ownList.find accountNo).getD .empty := by
    rw [UnorderedMap.find_emplace, if_pos rfl]
    cases s.ownList.find accountNo with
    | none => rfl
    | some found => rfl
  unfold nicknameRegisterAble
  dsimp only
  rw [slots]
  split
  · rename_i full
    exact .registerRefused sessionID .failUserSlot (.inl full)
  rename_i free
  split
  · rename_i full
    exact .registerRefused sessionID .failServerSlot (.inr full)
  rename_i open'
  have slot : ¬s.NoSlot accountNo := not_or.mpr ⟨free, open'⟩
  split
  · rename_i unasked
    exact .registerUnasked sessionID slot unasked
  rename_i terms asked
  split
  · rename_i unknown
    exact .registerUnknown sessionID slot asked unknown
  · rename_i pPlayer known
    exact .register sessionID slot asked known

theorem job_turn (ran : s.runJob env job = .ok (s', effects)) : JobTurn env s job s' effects := by
  cases job with
  | onClientJoin sessionID =>
    cases ran
    exact .join sessionID
  | onClientLeave sessionID =>
    cases ran
    unfold clientLeave
    split
    · rename_i unknown
      exact .leaveUnknown unknown
    · rename_i pPlayer known
      exact .leave known
  | onRecv sessionID pPacket =>
    obtain ⟨rfl, rfl, refused⟩ | ⟨player, ret, processed, known, own, proc, rfl⟩ :=
      client_recv_cases ran
    · exact .dropped refused
    · exact .packet ret known own (packet_turn proc)
  | nicknameChangeAble accountNo =>
    obtain ⟨changed, change, ran⟩ := bind_ok.mp ran
    cases ran
    unfold nicknameChangeAble at change
    split at change
    · cases change
    · obtain ⟨slots, _, change⟩ := bind_ok.mp change
      cases change
      exact .changeAble accountNo _
  | nicknameRegisterAble sessionID accountNo =>
    have pair : s.nicknameRegisterAble env sessionID accountNo = (s', effects) := Except.ok.inj ran
    have turn := @register_able_turn env s sessionID accountNo
    rw [pair] at turn
    exact turn

end Jobs

end Store

end NewNameAuction
