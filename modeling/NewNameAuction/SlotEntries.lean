import NewNameAuction.AccountSlots
import NewNameAuction.IndexConsistency

/-! The entries of `OwnList`. `REGISTER_ABLE`, whatever comes of it, and an accepted bid
see to it that the account has one, and none is ever removed. A nickname change looks up
its account and goes on as if there were an entry. -/
namespace NewNameAuction.SlotEntries
open Store IndexConsistency

/-- The accounts that have an entry after the step. -/
def listing (s : Store) : LogicStep → List Int64
  | .job (.nicknameRegisterAble _ accountNo) _ => [accountNo]
  | .job job env => (s.bidOf env job).toList.map fun bid => bid.pPlayer.accountNo
  | .update _ => []

/-- The account of the player whose `REQ_CHANGE_NICKNAME` the step handles. -/
def requesting (s : Store) : LogicStep → List Int64
  | .job (.onRecv sessionID pPacket) _ =>
    match s.playerList.find sessionID with
    | none => []
    | some player =>
      if (player.sessionID = sessionID ∧ player.isValid = true) ∧ (s.readType pPacket).1 = 8 then
        [player.accountNo]
      else []
  | _ => []

/-- The accounts whose entry the step uses without a check. -/
def dereferencing (s : Store) : LogicStep → List Int64
  | .job (.nicknameChangeAble accountNo) _ => [accountNo]
  | step => requesting s step

/-! ## Runs with what came before -/

/-- The store, the accounts that a step so far has listed, and those that have asked for
a change. -/
structure Noted where
  store : Store
  listed : List Int64
  requested : List Int64

/-- The server after construction. -/
def Noted.start (auctions : AuctionRef → AuctionData) (packetType : UInt16) : Noted :=
  ⟨Store.empty auctions packetType, [], []⟩

def NotedStep (n : Noted) (step : LogicStep) (n' : Noted) : Prop :=
  n.store.Steps step n'.store ∧ n'.listed = listing n.store step ++ n.listed ∧
    n'.requested = requesting n.store step ++ n.requested

theorem noted_step {n : Noted} {step : LogicStep} {s' : Store} {effects : List Effect}
    (ran : n.store.step step = .ok (s', effects)) :
    NotedStep n step ⟨s', listing n.store step ++ n.listed, requesting n.store step ++ n.requested⟩ :=
  ⟨⟨effects, ran⟩, rfl, rfl⟩

/-- `NICKNAME_CHANGE_ABLE` answers a request of its account. -/
def ChangeRequested (n : Noted) : LogicStep → Prop
  | .job (.nicknameChangeAble accountNo) _ => accountNo ∈ n.requested
  | _ => True

/-- The step handles a request only of an account that has been listed before. -/
def RequestListed (n : Noted) (step : LogicStep) : Prop :=
  ∀ accountNo ∈ requesting n.store step, accountNo ∈ n.listed

/-- Every entry that the step uses is there. -/
def EntriesFound (s : Store) (step : LogicStep) : Prop :=
  ∀ accountNo ∈ dereferencing s step, ∃ slots, s.ownList.find accountNo = some slots

/-! ## One step -/

section Steps
variable {env : JobEnv} {s s' : Store} {job : Job} {effects : List Effect}

theorem mem_own_list_inserted {account : Int64} {wstr : WString}
    (ran : s.ownListCheckAndInsert account wstr = .ok s') (accountNo : Int64) :
    accountNo ∈ s'.ownList ↔ accountNo = account ∨ accountNo ∈ s.ownList := by
  obtain ⟨known, _, ran⟩ := bind_ok.mp ran
  cases known with
  | true =>
    obtain rfl := Except.ok.inj ran
    exact UnorderedMap.mem_emplace ..
  | false =>
    obtain rfl := Except.ok.inj ran
    exact AList.mem_replace.trans (UnorderedMap.mem_emplace ..)

/-- A change request that returned found an entry, and keeps all of them. -/
theorem request_entry {locals : Locals} {block : DBCheckJob} {pPlayer : Player}
    {pPacket : ByteMemory.Bytes} {sessionID : Int64} {ret : Bool}
    (ran : s.packetProcReqChangeNickname locals block pPlayer pPacket sessionID =
      .ok (ret, s', effects)) :
    pPlayer.accountNo ∈ s.ownList ∧ ∀ accountNo, accountNo ∈ s'.ownList ↔ accountNo ∈ s.ownList := by
  unfold packetProcReqChangeNickname at ran
  dsimp only at ran
  split at ran
  · cases ran
  · rename_i slots known
    obtain ⟨target, _, ran⟩ := bind_ok.mp ran
    cases ran
    exact ⟨UnorderedMap.mem_of_find known, fun accountNo => AList.mem_replace⟩

/-- What a packet of a player does to the entries: only an accepted bid adds one, and a
change request needs one. -/
theorem packet_entries {pPlayer : Player} {pPacket : ByteMemory.Bytes} {sessionID : Int64}
    {packetType : UInt16} {ret : Bool}
    (ran : s.packetProc env.locals env.block pPlayer pPacket sessionID packetType =
      .ok (ret, s', effects)) :
    (packetType = 8 → pPlayer.accountNo ∈ s.ownList) ∧ ∀ accountNo, accountNo ∈ s'.ownList ↔
      (packetType = 5 ∧ (s.acceptedBid env.locals pPlayer pPacket).isSome ∧
        accountNo = pPlayer.accountNo) ∨ accountNo ∈ s.ownList := by
  by_cases bid : packetType = 5
  · subst bid
    refine ⟨fun change => absurd change (by decide), fun accountNo => ?_⟩
    change s.packetProcReqBid env.locals pPlayer pPacket sessionID = _ at ran
    cases accepted : s.acceptedBid env.locals pPlayer pPacket with
    | none =>
      obtain ⟨rfl, _⟩ := req_bid_refused accepted ran
      simp
    | some pData =>
      obtain ⟨_, inserted, _⟩ := req_bid_listed accepted ran
      rw [mem_own_list_inserted inserted]
      simp [acceptBid]
  · by_cases change : packetType = 8
    · subst change
      obtain ⟨found, kept⟩ := request_entry ran
      refine ⟨fun _ => found, fun accountNo => ?_⟩
      rw [kept]
      simp
    · refine ⟨fun now => absurd now change, fun accountNo => ?_⟩
      rw [packet_slots bid change (packet_turn ran)]
      simp [bid]

/-- A packet that no player sent does nothing about entries. -/
private theorem dropped_entries {sessionID : Int64} {pPacket : ByteMemory.Bytes}
    (refused : ∀ player, s.playerList.find sessionID = some player →
      ¬(player.sessionID = sessionID ∧ player.isValid = true)) :
    listing s (.job (.onRecv sessionID pPacket) env) = [] ∧
      requesting s (.job (.onRecv sessionID pPacket) env) = [] := by
  dsimp only [listing, requesting, bidOf]
  cases known : s.playerList.find sessionID with
  | none => exact ⟨rfl, rfl⟩
  | some player =>
    dsimp only
    rw [if_neg fun both => refused player known both.1, if_neg fun both => refused player known both.1]
    exact ⟨rfl, rfl⟩

private theorem recv_entries {sessionID : Int64} {pPacket : ByteMemory.Bytes}
    (ran : s.runJob env (.onRecv sessionID pPacket) = .ok (s', effects)) :
    (∀ accountNo ∈ requesting s (.job (.onRecv sessionID pPacket) env), accountNo ∈ s.ownList) ∧
      ∀ accountNo, accountNo ∈ s'.ownList ↔
        accountNo ∈ listing s (.job (.onRecv sessionID pPacket) env) ∨ accountNo ∈ s.ownList := by
  rcases client_recv_cases ran with ⟨rfl, _, refused⟩ | ⟨player, ret, processed, known, own, proc, _⟩
  · obtain ⟨nothing, nobody⟩ := dropped_entries refused
    rw [nothing, nobody]
    exact ⟨fun _ member => absurd member List.not_mem_nil, fun accountNo =>
      (or_iff_right List.not_mem_nil).symm⟩
  · obtain ⟨needs, members⟩ := packet_entries proc
    dsimp only [listing, requesting, bidOf]
    rw [known]
    dsimp only
    refine ⟨fun accountNo member => ?_, fun accountNo => (members accountNo).trans (or_congr_left ?_)⟩
    · split at member
      · rename_i request
        obtain rfl := List.mem_singleton.mp member
        exact needs request.2
      · cases member
    · change _ ∧ (s.acceptedBid env.locals player (s.readType pPacket).2).isSome ∧ _ ↔ _
      by_cases type : (s.readType pPacket).1 = 5
      · rw [if_pos ⟨own, type⟩]
        cases s.acceptedBid env.locals player (s.readType pPacket).2 with
        | none => simp
        | some pData => simp [type]
      · rw [if_neg fun both => type both.2]
        simp [type]

/-- After a job exactly those accounts have an entry that had one or that the job lists;
and a request that was handled had one. -/
theorem job_entries (ran : s.runJob env job = .ok (s', effects)) :
    (∀ accountNo ∈ requesting s (.job job env), accountNo ∈ s.ownList) ∧
      ∀ accountNo, accountNo ∈ s'.ownList ↔
        accountNo ∈ listing s (.job job env) ∨ accountNo ∈ s.ownList := by
  have unlisted (accountNo : Int64) : accountNo ∈ s.ownList ↔ accountNo ∈ [] ∨ accountNo ∈ s.ownList :=
    (or_iff_right List.not_mem_nil).symm
  have unasked (accountNo : Int64) (member : accountNo ∈ []) : accountNo ∈ s.ownList :=
    absurd member List.not_mem_nil
  cases job with
  | onRecv sessionID pPacket => exact recv_entries ran
  | onClientJoin sessionID =>
    cases job_turn ran
    exact ⟨unasked, unlisted⟩
  | onClientLeave sessionID =>
    cases job_turn ran with
    | leaveUnknown unknown => exact ⟨unasked, unlisted⟩
    | leave known => exact ⟨unasked, unlisted⟩
  | nicknameChangeAble account =>
    obtain ⟨changed, change, ran⟩ := bind_ok.mp ran
    cases ran
    unfold nicknameChangeAble at change
    split at change
    · cases change
    · obtain ⟨slots, _, change⟩ := bind_ok.mp change
      cases change
      exact ⟨unasked, fun accountNo => AList.mem_replace.trans (unlisted accountNo)⟩
  | nicknameRegisterAble sessionID account =>
    have listed (accountNo : Int64) : accountNo ∈ s.ownList.emplace account NickNameList.empty ↔
        accountNo ∈ [account] ∨ accountNo ∈ s.ownList := by
      rw [UnorderedMap.mem_emplace, List.mem_singleton]
    cases job_turn ran with
    | registerRefused _ flag full => exact ⟨unasked, listed⟩
    | registerUnasked _ slot unasked' => exact ⟨unasked, listed⟩
    | registerUnknown _ slot asked unknown => exact ⟨unasked, listed⟩
    | register _ slot asked known =>
      exact ⟨unasked, fun accountNo => AList.mem_replace.trans (listed accountNo)⟩

end Steps

/-! ## Runs -/

/-- Who has been listed has an entry, and nobody else; who has asked has been listed. -/
structure Entered (n : Noted) : Prop where
  entries : ∀ accountNo, accountNo ∈ n.store.ownList ↔ accountNo ∈ n.listed
  requested : ∀ accountNo ∈ n.requested, accountNo ∈ n.listed

theorem entered_step {n n' : Noted} {step : LogicStep} (entered : Entered n)
    (taken : NotedStep n step n') : Entered n' := by
  obtain ⟨store, listed, requested⟩ := n'
  obtain ⟨⟨effects, ran⟩, rfl, rfl⟩ := taken
  have stepped : (∀ accountNo ∈ requesting n.store step, accountNo ∈ n.store.ownList) ∧
      ∀ accountNo, accountNo ∈ store.ownList ↔
        accountNo ∈ listing n.store step ∨ accountNo ∈ n.store.ownList := by
    cases step with
    | job job env => exact job_entries ran
    | update env =>
      obtain ⟨_, _, _, _, same⟩ := update_frame ran
      refine ⟨fun _ member => absurd member List.not_mem_nil, fun accountNo => ?_⟩
      obtain rfl : store = _ := same
      exact (or_iff_right List.not_mem_nil).symm
  obtain ⟨needs, members⟩ := stepped
  refine ⟨fun accountNo => ?_, fun accountNo member => ?_⟩
  · rw [members, entered.entries, List.mem_append]
  · rw [List.mem_append]
    rcases List.mem_append.mp member with now | before
    · exact .inr ((entered.entries accountNo).mp (needs accountNo now))
    · exact .inr (entered.requested accountNo before)

theorem entered_run {auctions : AuctionRef → AuctionData} {packetType : UInt16}
    {steps : List LogicStep} {n : Noted}
    (run : Run (Meeting NotedStep ChangeRequested) (.start auctions packetType) steps n) : Entered n := by
  refine run.invariant (P := Entered) (fun _ _ _ entered taken => entered_step entered taken.1) ?_
  refine ⟨fun accountNo => ?_, fun accountNo member => absurd member List.not_mem_nil⟩
  exact iff_of_false (AList.notMem_empty accountNo) List.not_mem_nil

/-- In every run in which nickname changes answer requests, the next step finds the
entries it uses exactly if it handles no request of an account that no registration and
no accepted bid has listed before. -/
theorem entries_found_iff (auctions : AuctionRef → AuctionData) (packetType : UInt16)
    (steps : List LogicStep) (n : Noted) (step : LogicStep)
    (run : Run (Meeting NotedStep ChangeRequested) (.start auctions packetType) steps n)
    (allowed : ChangeRequested n step) : EntriesFound n.store step ↔ RequestListed n step := by
  have entered := entered_run run
  have found (accountNo : Int64) :
      (∃ slots, n.store.ownList.find accountNo = some slots) ↔ accountNo ∈ n.listed := by
    rw [← entered.entries]
    exact ⟨fun ⟨slots, known⟩ => UnorderedMap.mem_of_find known, UnorderedMap.find_of_mem⟩
  have nothing (P : Int64 → Prop) : ∀ accountNo ∈ ([] : List Int64), P accountNo :=
    fun _ member => absurd member List.not_mem_nil
  unfold EntriesFound RequestListed
  cases step with
  | update env => exact iff_of_true (nothing _) (nothing _)
  | job job env =>
    cases job with
    | nicknameChangeAble account =>
      refine iff_of_true (fun accountNo member => ?_) (nothing _)
      obtain rfl := List.mem_singleton.mp member
      exact (found accountNo).mpr (entered.requested accountNo allowed)
    | onRecv sessionID pPacket => exact forall₂_congr fun accountNo _ => found accountNo
    | onClientJoin sessionID => exact iff_of_true (nothing _) (nothing _)
    | onClientLeave sessionID => exact iff_of_true (nothing _) (nothing _)
    | nicknameRegisterAble sessionID account => exact iff_of_true (nothing _) (nothing _)

/-- A `REQ_CHANGE_NICKNAME` without a name in it. -/
def changeRequest : ByteMemory.Bytes := [8, 0]

/-- A player joins, has a sale refused, and asks for a change. -/
theorem refused_sale_entered :
    let register : LogicStep := .job (.nicknameRegisterAble 7 0) (.zero 0)
    let request : LogicStep := .job (.onRecv 7 changeRequest) (.zero 0)
    ∃ n, Run (Meeting NotedStep ChangeRequested) (.start (fun _ => .zero) 0)
        [.job (.onClientJoin 7) (.zero 0), register] n ∧ requesting n.store request = [0] ∧
      EntriesFound n.store request := by
  intro register request
  obtain ⟨n, run, asking, listed⟩ : ∃ n, Run (Meeting NotedStep ChangeRequested)
      (.start (fun _ => .zero) 0) [.job (.onClientJoin 7) (.zero 0), register] n ∧
      requesting n.store request = [0] ∧ n.listed = [0] :=
    ⟨_, .cons ⟨noted_step rfl, trivial⟩ (.single ⟨noted_step rfl, trivial⟩), rfl, rfl⟩
  refine ⟨n, run, asking, (entries_found_iff _ _ _ n request run trivial).mpr fun accountNo member => ?_⟩
  rw [listed, ← asking]
  exact member

/-- A player joins and asks for a change: there is no entry, and the process goes on at
`OwnList.end()`. -/
theorem fresh_request_unentered :
    let request : LogicStep := .job (.onRecv 7 changeRequest) (.zero 0)
    ∃ n, Run (Meeting NotedStep ChangeRequested) (.start (fun _ => .zero) 0)
        [.job (.onClientJoin 7) (.zero 0)] n ∧ ChangeRequested n request ∧
      ¬EntriesFound n.store request ∧ n.store.step request = .error .endIterator := by
  intro request
  refine ⟨_, .single ⟨noted_step rfl, trivial⟩, trivial, fun found => ?_, rfl⟩
  obtain ⟨slots, known⟩ := found 0 (List.mem_singleton.mpr rfl)
  cases known

end NewNameAuction.SlotEntries
