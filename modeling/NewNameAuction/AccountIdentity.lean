import NewNameAuction.AuctionEvents

/-! Account numbers of players. `JOIN` writes 0 into every player and nothing
writes it again, while `PlayerList` is searched with account numbers under its
session numbers: accounts are told apart only as long as the one account that is
ever found is account 0. -/
namespace NewNameAuction.AccountIdentity
open Store ByteMemory

/-! ## Look-ups by account number -/

/-- The account number of a `RES_PLAYER_INFO` that reaches its procedure. -/
def infoAccount (s : Store) (env : JobEnv) : Job → Option Int64
  | .onRecv sessionID pPacket =>
    match s.playerList.find sessionID with
    | none => none
    | some player =>
      if (player.sessionID = sessionID ∧ player.isValid = true) ∧ (s.readType pPacket).1 = 10 then
        some (readAccount env.locals (s.readType pPacket).2)
      else none
  | _ => none

/-- The account number a job looks up in `PlayerList`. -/
def lookedUp (s : Store) (env : JobEnv) : Job → Option Int64
  | .nicknameRegisterAble _ accountNo =>
    if ((s.ownList.find accountNo).getD .empty).count ≥ maxUserSlot ∨
        s.numOfSales ≥ maxServerSlot then none
    else (s.waitingDataList.find accountNo).map fun _ => accountNo
  | job => infoAccount s env job

/-- The account for which a job's `RES_PLAYER_INFO` is accepted: it finds a player. -/
def acceptedAccount (s : Store) (env : JobEnv) (job : Job) : Option Int64 :=
  (infoAccount s env job).filter fun accountNo => accountNo ∈ s.playerList

/-- A new auction is that of the player looked up. -/
theorem registration_looked_up {s : Store} {env : JobEnv} {sessionID accountNo : Int64}
    {data : AuctionData}
    (registered : s.registration env (.nicknameRegisterAble sessionID accountNo) = some data) :
    lookedUp s env (.nicknameRegisterAble sessionID accountNo) = some accountNo ∧
      data.ownerID = accountNo ∧
      ∃ pPlayer, s.playerList.find accountNo = some pPlayer ∧ data.nickName = pPlayer.nickName := by
  obtain ⟨slot, terms, pPlayer, waiting, found, rfl⟩ := registration_some registered
  unfold NoSlot at slot
  unfold lookedUp
  dsimp only
  rw [if_neg slot, waiting]
  exact ⟨rfl, rfl, pPlayer, found, rfl⟩

/-! ## Runs with their accepted packets -/

/-- The store, and the session and the account of every accepted
`RES_PLAYER_INFO` about a player who has not left since. -/
structure Tracked where
  store : Store
  accepted : List (Int64 × Int64)

/-- The server after construction. -/
def Tracked.start (auctions : AuctionRef → AuctionData) (packetType : UInt16) : Tracked :=
  ⟨Store.empty auctions packetType, []⟩

/-- The player found for an account is the one of that session number. -/
def track (s : Store) (accepted : List (Int64 × Int64)) : LogicStep → List (Int64 × Int64)
  | .job (.onClientLeave sessionID) _ => accepted.filter fun entry => entry.1 ≠ sessionID
  | .job job env => (acceptedAccount s env job).toList.map (fun account => (account, account)) ++ accepted
  | .update _ => accepted

def TrackedStep (c : Tracked) (step : LogicStep) (c' : Tracked) : Prop :=
  c.store.Steps step c'.store ∧ c'.accepted = track c.store c.accepted step

theorem tracked_step {c : Tracked} {step : LogicStep} {s' : Store} {effects : List Effect}
    (ran : c.store.step step = .ok (s', effects)) :
    TrackedStep c step ⟨s', track c.store c.accepted step⟩ := ⟨⟨effects, ran⟩, rfl⟩

/-- Every look-up of the step finds a player of that account. -/
def LookedUpRight (s : Store) : LogicStep → Prop
  | .job job env => ∀ accountNo pPlayer, lookedUp s env job = some accountNo →
      s.playerList.find accountNo = some pPlayer → pPlayer.accountNo = accountNo
  | .update _ => True

/-- Accepted packets name the accounts of their players, and keep players apart. -/
structure Identified (c : Tracked) : Prop where
  account : ∀ sessionID accountNo pPlayer, (sessionID, accountNo) ∈ c.accepted →
    c.store.playerList.find sessionID = some pPlayer → pPlayer.accountNo = accountNo
  apart : ∀ sessionID sessionID' accountNo accountNo' pPlayer pPlayer',
    (sessionID, accountNo) ∈ c.accepted → (sessionID', accountNo') ∈ c.accepted →
    accountNo ≠ accountNo' → c.store.playerList.find sessionID = some pPlayer →
    c.store.playerList.find sessionID' = some pPlayer' → pPlayer.accountNo ≠ pPlayer'.accountNo

/-- A `RES_PLAYER_INFO` that finds a player is about account 0. -/
def AboutAccountZero (c : Tracked) : LogicStep → Prop
  | .job job env => ∀ accountNo, acceptedAccount c.store env job = some accountNo → accountNo = 0
  | .update _ => True

/-! ## Every account is 0 -/

/-- No player has another account than 0, and no other account waits for a sale. -/
structure ZeroAccounts (s : Store) : Prop where
  players : ∀ sessionID pPlayer, s.playerList.find sessionID = some pPlayer → pPlayer.accountNo = 0
  waiting : ∀ accountNo, accountNo ∈ s.waitingDataList → accountNo = 0

section Steps
variable {env : JobEnv} {s s' : Store} {job : Job} {effects : List Effect}

private theorem players_assigned (zero : ZeroAccounts s) (key : Int64) {pPlayer : Player}
    (account : pPlayer.accountNo = 0) (sessionID : Int64) (p : Player)
    (found : (s.playerList.assign key pPlayer).find sessionID = some p) : p.accountNo = 0 := by
  rw [UnorderedMap.find_assign] at found
  split at found
  · obtain ⟨_, _, rfl⟩ := Option.map_eq_some_iff.mp found
    exact account
  · exact zero.players sessionID p found

private theorem zero_packet {locals : Locals} {pPlayer : Player} {pPacket : Bytes}
    {sessionID : Int64} {packetType : UInt16} (zero : ZeroAccounts s) (own : pPlayer.accountNo = 0)
    (turn : PacketTurn locals s pPlayer pPacket sessionID packetType s' effects) :
    ZeroAccounts s' := by
  cases turn with
  | saleRefused type => exact zero
  | sale terms job type check =>
    refine ⟨zero.players, fun accountNo member => ?_⟩
    rcases (UnorderedMap.mem_emplace ..).mp member with rfl | member
    · exact own
    · exact zero.waiting accountNo member
  | search replies type => exact zero
  | bidRefused type refused => exact zero
  | bid ownList type accepted => exact ⟨players_assigned zero sessionID own, zero.waiting⟩
  | changeNickname ownList job type check => exact ⟨zero.players, zero.waiting⟩
  | unknownPlayer type unknown => exact zero
  | @playerInfo found nickName replies type known copied =>
    exact ⟨players_assigned zero _ (zero.players _ found known), zero.waiting⟩
  | unknownType other => exact zero

theorem zero_job (zero : ZeroAccounts s) (ran : s.runJob env job = .ok (s', effects)) :
    ZeroAccounts s' := by
  have erased (accountNo key : Int64) (member : key ∈ s.waitingDataList.erase accountNo) : key = 0 :=
    zero.waiting key ((UnorderedMap.mem_erase ..).mp member).2
  cases job_turn ran with
  | join sessionID =>
    refine ⟨fun key pPlayer found => ?_, zero.waiting⟩
    rcases UnorderedMap.find_emplace_some found with found | ⟨_, rfl⟩
    · exact zero.players key pPlayer found
    · rfl
  | leaveUnknown unknown => exact zero
  | leave known =>
    refine ⟨fun key pPlayer found => ?_, erased _⟩
    rw [UnorderedMap.find_erase] at found
    split at found
    · cases found
    · exact zero.players key pPlayer found
  | dropped refused => exact ⟨zero.players, zero.waiting⟩
  | @packet sessionID pPacket player _ _ ret known own turn =>
    have typed : ZeroAccounts (s.withType (s.readType pPacket).1) := ⟨zero.players, zero.waiting⟩
    exact zero_packet typed (zero.players sessionID player known) turn
  | changeAble accountNo ownList => exact ⟨zero.players, zero.waiting⟩
  | registerRefused sessionID flag full => exact ⟨zero.players, zero.waiting⟩
  | registerUnasked sessionID slot unasked => exact ⟨zero.players, zero.waiting⟩
  | registerUnknown sessionID slot asked unknown => exact ⟨zero.players, erased _⟩
  | register sessionID slot asked known => exact ⟨zero.players, erased _⟩

theorem zero_update {env : UpdateEnv} (zero : ZeroAccounts s)
    (ran : s.update env = .ok (s', effects)) : ZeroAccounts s' := by
  obtain ⟨_, _, _, _, rfl⟩ := update_frame ran
  exact ⟨zero.players, zero.waiting⟩

/-- What a registered auction is: on sale, account 0's, and nobody has bid on it. -/
theorem registered_zero {data : AuctionData} (zero : ZeroAccounts s)
    (made : s.registration env job = some data) :
    data.status = .sale ∧ data.ownerID = 0 ∧ data.bidderID = 0 := by
  obtain ⟨_, accountNo, _, _, terms, pPlayer, waiting, _, rfl⟩ := registration_made made
  exact ⟨rfl, zero.waiting accountNo (UnorderedMap.mem_of_find waiting), rfl⟩

/-- Nobody may bid on his own auction, and all that can be found are account 0's. -/
theorem no_bid (zero : ZeroAccounts s)
    (owners : ∀ wstr r, s.toAuctionBook.find wstr = some r → (s.auctions r).ownerID = 0)
    (ran : s.runJob env job = .ok (s', effects)) : s.bidOf env job = none := by
  cases accepted : s.bidOf env job with
  | none => rfl
  | some bid =>
    obtain ⟨_, known, _⟩ := accepted_bid_paid accepted ran
    obtain ⟨_, ⟨wstr, found⟩, _, other⟩ := job_bid accepted ran
    refine absurd ?_ other
    rw [owners wstr _ found, zero.players _ _ known]

theorem empty_zero (auctions : AuctionRef → AuctionData) (packetType : UInt16) :
    ZeroAccounts (.empty auctions packetType) where
  players := fun _ _ found => by cases found
  waiting := fun accountNo member => absurd member (AList.notMem_empty accountNo)

end Steps

/-! ## One step -/

/-- All accounts are 0, the accepted ones too. -/
structure AllZero (c : Tracked) : Prop where
  store : ZeroAccounts c.store
  accepted : ∀ entry ∈ c.accepted, entry = (0, 0)

section Runs
variable {c c' : Tracked} {step : LogicStep}

private theorem all_zero_step (zero : AllZero c) (taken : TrackedStep c step c')
    (about : AboutAccountZero c step) : AllZero c' := by
  obtain ⟨⟨effects, ran⟩, tracked⟩ := taken
  cases step with
  | update env =>
    exact ⟨zero_update zero.store ran, tracked ▸ zero.accepted⟩
  | job job env =>
    refine ⟨zero_job zero.store ran, ?_⟩
    have added : ∀ entry ∈ (acceptedAccount c.store env job).toList.map
        (fun account => (account, account)) ++ c.accepted, entry = (0, 0) := by
      intro entry member
      rcases List.mem_append.mp member with new | old
      · obtain ⟨account, accepted, rfl⟩ := List.mem_map.mp new
        rw [about account (Option.mem_toList.mp accepted)]
      · exact zero.accepted entry old
    rw [tracked]
    cases job with
    | onClientLeave sessionID =>
      intro entry member
      exact zero.accepted entry (List.mem_filter.mp member).1
    | onClientJoin sessionID => exact added
    | onRecv sessionID pPacket => exact added
    | nicknameChangeAble accountNo => exact added
    | nicknameRegisterAble sessionID accountNo => exact added

/-- Where all accounts are 0, looking up account 0 alone is right. -/
private theorem looked_up_right (zero : AllZero c) (about : AboutAccountZero c step) :
    LookedUpRight c.store step := by
  cases step with
  | update env => trivial
  | job job env =>
    intro accountNo pPlayer looked found
    rw [zero.store.players accountNo pPlayer found]
    have info (asked : infoAccount c.store env job = some accountNo) : 0 = accountNo := by
      refine (about accountNo ?_).symm
      unfold acceptedAccount
      rw [asked, Option.filter_some, if_pos]
      exact decide_eq_true (UnorderedMap.mem_of_find found)
    cases job with
    | nicknameRegisterAble sessionID account =>
      unfold lookedUp at looked
      dsimp only at looked
      split at looked
      · cases looked
      · obtain ⟨terms, waiting, rfl⟩ := Option.map_eq_some_iff.mp looked
        exact (zero.store.waiting account (UnorderedMap.mem_of_find waiting)).symm
    | onClientJoin sessionID => exact info looked
    | onClientLeave sessionID => exact info looked
    | onRecv sessionID pPacket => exact info looked
    | nicknameChangeAble account => exact info looked

private theorem about_zero_of_looked_up (zero : AllZero c) (right : LookedUpRight c.store step) :
    AboutAccountZero c step := by
  cases step with
  | update env => trivial
  | job job env =>
    intro accountNo accepted
    obtain ⟨asked, known⟩ := Option.filter_eq_some_iff.mp accepted
    obtain ⟨pPlayer, found⟩ := UnorderedMap.find_of_mem (of_decide_eq_true known)
    have looked : lookedUp c.store env job = some accountNo := by
      cases job with
      | nicknameRegisterAble sessionID account => cases asked
      | onClientJoin sessionID => exact asked
      | onClientLeave sessionID => exact asked
      | onRecv sessionID pPacket => exact asked
      | nicknameChangeAble account => exact asked
    exact (right accountNo pPlayer looked found).symm.trans
      (zero.store.players accountNo pPlayer found)

private theorem identified_of_zero (zero : AllZero c) : Identified c := by
  constructor
  · intro sessionID accountNo pPlayer member found
    cases zero.accepted _ member
    exact zero.store.players 0 pPlayer found
  · intro sessionID sessionID' accountNo accountNo' pPlayer pPlayer' member member' other
    cases zero.accepted _ member
    cases zero.accepted _ member'
    exact absurd rfl other

/-- From the start, the runs that identify accounts after every step and in every
look-up are those whose `RES_PLAYER_INFO` packets find players for account 0
alone. -/
theorem runs_identified_iff_account_zero (auctions : AuctionRef → AuctionData) (packetType : UInt16)
    (steps : List LogicStep) (c : Tracked) :
    Run (fun a step b => TrackedStep a step b ∧ LookedUpRight a.store step ∧ Identified b)
        (.start auctions packetType) steps c ↔
      Run (Meeting TrackedStep AboutAccountZero) (.start auctions packetType) steps c := by
  have start : AllZero (.start auctions packetType) :=
    ⟨empty_zero auctions packetType, fun entry member => by cases member⟩
  constructor
  · intro run
    refine run.mono_invariant (P := AllZero) ?_ ?_ start
    · intro a step b zero taken
      exact all_zero_step zero taken.1 (about_zero_of_looked_up zero taken.2.1)
    · intro a step b zero taken
      exact ⟨taken.1, about_zero_of_looked_up zero taken.2.1⟩
  · intro run
    refine run.mono_invariant (P := AllZero) ?_ ?_ start
    · intro a step b zero taken
      exact all_zero_step zero taken.1 taken.2
    · intro a step b zero taken
      exact ⟨taken.1, looked_up_right zero taken.2,
        identified_of_zero (all_zero_step zero taken.1 taken.2)⟩

end Runs

/-! ## Two accounts -/

/-- `RES_PLAYER_INFO` for an account below 256, with 100 points and the name "A". -/
def playerInfo (account : UInt8) : Bytes :=
  [10, 0] ++ [account, 0, 0, 0, 0, 0, 0, 0] ++ [100, 0, 0, 0] ++ [65, 0] ++ List.replicate 18 0

/-- Sessions 5 and 6 join and accounts 5 and 6 are accepted for them. -/
def twoAccounts : List LogicStep :=
  [.job (.onClientJoin 5) (.zero 0), .job (.onClientJoin 6) (.zero 0),
    .job (.onRecv 5 (playerInfo 5)) (.zero 0), .job (.onRecv 6 (playerInfo 6)) (.zero 0)]

/-- Both players are left with account 0. -/
theorem two_accounts_coincide : ∃ c pPlayer pPlayer',
    Run TrackedStep (.start (fun _ => .zero) 0) twoAccounts c ∧
    (5, 5) ∈ c.accepted ∧ c.store.playerList.find 5 = some pPlayer ∧
    (6, 6) ∈ c.accepted ∧ c.store.playerList.find 6 = some pPlayer' ∧
    pPlayer.accountNo = 0 ∧ pPlayer'.accountNo = 0 ∧ ¬Identified c := by
  have run : ∃ c pPlayer pPlayer', Run TrackedStep (.start (fun _ => .zero) 0) twoAccounts c ∧
      c.accepted = [(6, 6), (5, 5)] ∧ c.store.playerList.find 5 = some pPlayer ∧
      c.store.playerList.find 6 = some pPlayer' ∧ pPlayer.accountNo = 0 ∧ pPlayer'.accountNo = 0 :=
    ⟨_, _, _, .cons (tracked_step rfl) (.cons (tracked_step rfl) (.cons (tracked_step rfl)
      (.single (tracked_step rfl)))), rfl, rfl, rfl, rfl, rfl⟩
  obtain ⟨c, pPlayer, pPlayer', run, accepted, first, second, zero, zero'⟩ := run
  have five : (5, 5) ∈ c.accepted := by rw [accepted]; decide
  have six : (6, 6) ∈ c.accepted := by rw [accepted]; decide
  refine ⟨c, pPlayer, pPlayer', run, five, first, six, second, zero, zero', fun identified => ?_⟩
  have account := identified.account 5 5 pPlayer five first
  rw [zero] at account
  exact absurd account (by decide)

end NewNameAuction.AccountIdentity
