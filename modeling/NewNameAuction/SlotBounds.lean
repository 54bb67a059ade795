import NewNameAuction.UserSlots

/-! Indices into the names of a slot list. Its loops run up to the count kept beside the
vector, not to its size; they stay inside because the count is never above it, and the
nickname change, which erases at most one name on a turn, lowers the count on every
turn. -/
namespace NewNameAuction.SlotBounds
open Store UserSlots

/-- The count says of no more names than there are, and is not negative. -/
def InRange (slots : NickNameList) : Prop :=
  0 ≤ slots.count.toInt ∧ slots.count.toInt ≤ slots.nickNames.length

theorem loop_bound_le {slots : NickNameList} (inRange : InRange slots) :
    loopBound slots.count ≤ slots.nickNames.length := by
  unfold InRange at inRange
  unfold loopBound
  omega

/-! ## Loops -/

/-- The loop of `OwnList_CheckAndInsert` returns. -/
theorem check_names_total (wstr : WString) {count : Nat} {names : List WString}
    (inside : count ≤ names.length) : ∃ known, checkNames wstr count names = .ok known := by
  induction count generalizing names with
  | zero => exact ⟨false, rfl⟩
  | succ count ih =>
    cases names with
    | nil => exact absurd inside (Nat.not_succ_le_zero count)
    | cons name rest =>
      rw [checkNames]
      split
      · exact ⟨true, rfl⟩
      · exact ih (Nat.le_of_succ_le_succ inside)

/-- A turn of the nickname change. -/
theorem in_range_turn {slots : NickNameList} {i : Nat} (inRange : InRange slots)
    (inside : (i : Int) < slots.count.toInt) (name request : WString) :
    InRange
      { nickNames := if name = slots.requestNickName then slots.nickNames.eraseIdx i
          else slots.nickNames
        count := slots.count - 1
        requestNickName := request } := by
  obtain ⟨counted, within⟩ := inRange
  have positive : slots.count.toInt = ((slots.count.toInt - 1).toNat : Int) + 1 := by omega
  have lowered := count_lowered positive
  have erased : (slots.nickNames.eraseIdx i).length = slots.nickNames.length - 1 :=
    List.length_eraseIdx_of_lt (by omega)
  unfold InRange
  dsimp only
  rw [lowered]
  split
  · omega
  · omega

/-- The loop of the nickname change returns, with a count that is still right. -/
theorem change_loop_in_range (turns i : Nat) {slots : NickNameList} (inRange : InRange slots) :
    ∃ slots', changeLoop turns i slots = .ok slots' ∧ InRange slots' := by
  induction turns generalizing i slots with
  | zero => exact ⟨slots, rfl, inRange⟩
  | succ turns ih =>
    rw [changeLoop]
    split
    · rename_i inside
      have there : i < slots.nickNames.length := by
        have within := inRange.2
        omega
      rw [List.getElem?_eq_getElem there]
      exact ih (i + 1) (in_range_turn inRange inside slots.nickNames[i] _)
    · exact ⟨slots, rfl, inRange⟩

theorem wcscpy_fault {source : WString} {fault : Fault} (failed : wcscpyS source = .error fault) :
    fault = .abort := by
  unfold wcscpyS at failed
  split at failed
  · cases failed
  · exact (Except.error.inj failed).symm

/-- The loop of `SendInitPackets` fails only in a copy. -/
theorem slot_replies_fault {s : Store} {pPlayer : Player} {fault : Fault} {count : Nat}
    {names : List WString} (inside : count ≤ names.length)
    (failed : s.slotReplies pPlayer count names = .error fault) : fault = .abort := by
  induction count generalizing names with
  | zero => cases failed
  | succ count ih =>
    cases names with
    | nil => exact absurd inside (Nat.not_succ_le_zero count)
    | cons wstr rest =>
      rcases bind_error.mp failed with here | ⟨reply, _, failed⟩
      · unfold slotReply at here
        split at here
        · rcases bind_error.mp here with copy | ⟨_, _, here⟩
          · exact wcscpy_fault copy
          · cases here
        · cases here
      · rcases bind_error.mp failed with later | ⟨_, _, failed⟩
        · exact ih (Nat.le_of_succ_le_succ inside) later
        · cases failed

/-! ## Steps -/

/-- All slot lists are in range. -/
def Counted (s : Store) : Prop := ∀ accountNo, InRange (s.slotsOf accountNo)

section Steps
variable {s s' : Store} {env : JobEnv} {job : Job} {effects : List Effect} {fault : Fault}

private theorem insert_fault (counted : Counted s) {accountNo : Int64} {wstr : WString} :
    ∃ s', s.ownListCheckAndInsert accountNo wstr = .ok s' := by
  obtain ⟨known, checked⟩ := check_names_total wstr (loop_bound_le (counted accountNo))
  unfold ownListCheckAndInsert
  dsimp only
  rw [slots_emplaced, checked]
  cases known with
  | true => exact ⟨_, rfl⟩
  | false => exact ⟨_, rfl⟩

private theorem bid_fault {locals : Locals} {pPlayer : Player} {pPacket : ByteMemory.Bytes}
    {sessionID : Int64} (counted : Counted s) :
    ∃ processed, s.packetProcReqBid locals pPlayer pPacket sessionID = .ok processed := by
  cases accepted : s.acceptedBid locals pPlayer pPacket with
  | none =>
    obtain ⟨ret, returned⟩ : ∃ ret, s.packetProcReqBid locals pPlayer pPacket sessionID =
        .ok (ret, s, []) := req_bid_refused_eq accepted
    exact ⟨_, returned⟩
  | some pData =>
    have bidden : Counted (s.acceptBid pPlayer sessionID pData (readBid locals pPacket).2) := counted
    obtain ⟨listed, inserted⟩ := @insert_fault _ bidden pPlayer.accountNo
      (localString locals (readBid locals pPacket).1)
    exact ⟨_, (req_bid_accepted_eq accepted).trans (bind_ok.mpr ⟨listed, inserted, rfl⟩)⟩

private theorem request_fault {locals : Locals} {block : DBCheckJob} {pPlayer : Player}
    {pPacket : ByteMemory.Bytes} {sessionID : Int64}
    (failed : s.packetProcReqChangeNickname locals block pPlayer pPacket sessionID = .error fault) :
    fault ≠ .outOfRange := by
  unfold packetProcReqChangeNickname at failed
  dsimp only at failed
  split at failed
  · cases failed
    decide
  · rcases bind_error.mp failed with copy | ⟨_, _, failed⟩
    · rw [wcscpy_fault copy]
      decide
    · cases failed

private theorem info_fault {locals : Locals} {pPacket : ByteMemory.Bytes} (counted : Counted s)
    (failed : s.packetProcResPlayerInfo locals pPacket = .error fault) : fault = .abort := by
  unfold packetProcResPlayerInfo at failed
  dsimp only at failed
  split at failed
  · cases failed
  · rcases bind_error.mp failed with copy | ⟨name, _, failed⟩
    · exact wcscpy_fault copy
    · rcases bind_error.mp failed with sending | ⟨_, _, failed⟩
      · rcases bind_error.mp sending with slots | ⟨_, _, sending⟩
        · unfold ownReplies at slots
          split at slots
          · cases slots
          · rename_i own found
            have same : s.slotsOf _ = own := congrArg (Option.getD · NickNameList.empty) found
            exact slot_replies_fault (loop_bound_le (same ▸ counted _)) slots
        · cases sending
      · cases failed

private theorem packet_fault {locals : Locals} {block : DBCheckJob} {pPlayer : Player}
    {pPacket : ByteMemory.Bytes} {sessionID : Int64} {packetType : UInt16} (counted : Counted s)
    (failed : s.packetProc locals block pPlayer pPacket sessionID packetType = .error fault) :
    fault ≠ .outOfRange := by
  unfold packetProc at failed
  split at failed
  · rw [req_sale_eq] at failed
    split at failed
    · cases failed
    · cases failed
  split at failed
  · cases failed
  split at failed
  · obtain ⟨processed, returned⟩ := @bid_fault s locals pPlayer pPacket sessionID counted
    cases returned.symm.trans failed
  split at failed
  · exact request_fault failed
  split at failed
  · rw [info_fault counted failed]
    decide
  · cases failed

theorem job_fault (counted : Counted s) (failed : s.runJob env job = .error fault) :
    fault ≠ .outOfRange := by
  cases job with
  | onClientJoin sessionID => cases failed
  | onClientLeave sessionID => cases failed
  | nicknameRegisterAble sessionID accountNo => cases failed
  | nicknameChangeAble accountNo =>
    rcases bind_error.mp failed with change | ⟨_, _, failed⟩
    · unfold nicknameChangeAble at change
      split at change
      · cases change
        decide
      · rename_i slots known
        have same : s.slotsOf accountNo = slots := congrArg (Option.getD · NickNameList.empty) known
        obtain ⟨slots', loop, _⟩ :=
          change_loop_in_range (loopBound slots.count) 0 (same ▸ counted accountNo)
        rcases bind_error.mp change with stuck | ⟨_, _, change⟩
        · cases loop.symm.trans stuck
        · cases change
    · cases failed
  | onRecv sessionID pPacket =>
    by_cases judged : ∃ player, s.playerList.find sessionID = some player ∧
        player.sessionID = sessionID ∧ player.isValid = true
    · obtain ⟨player, known, own⟩ := judged
      rw [runJob, client_recv_known known own] at failed
      rcases bind_error.mp failed with proc | ⟨_, _, failed⟩
      · exact packet_fault (s := s.withType (s.readType pPacket).1) counted proc
      · cases failed
    · have returned := @client_recv_dropped env s sessionID pPacket fun player known own =>
        judged ⟨player, known, own⟩
      cases returned.symm.trans failed

theorem update_fault {env : UpdateEnv} (failed : s.update env = .error fault) :
    fault ≠ .outOfRange := by
  rcases bind_error.mp failed with minute | ⟨_, _, failed⟩
  · unfold updateMinute at minute
    split at minute
    · rcases bind_error.mp minute with orders | ⟨_, _, minute⟩
      · unfold trimTimeOrders at orders
        split at orders
        · cases orders
        · rename_i stuck _
          cases orders
          rw [trim_fault stuck]
          decide
        · cases orders
      · cases minute
    · cases minute
  · cases failed

theorem counted_job (one : OneAccount s) (counted : Counted s)
    (ran : s.runJob env job = .ok (s', effects)) : Counted s' := by
  intro accountNo
  have before := counted accountNo
  have change := slot_change ran accountNo
  generalize s'.slotsOf accountNo = slots' at change
  cases change with
  | kept => exact before
  | bid accepted account found free => cases (no_bid one ran).symm.trans accepted
  | requested request => exact before
  | changed able loop =>
    obtain ⟨slots'', loop', inRange⟩ :=
      change_loop_in_range (loopBound (s.slotsOf accountNo).count) 0 before
    cases loop.symm.trans loop'
    exact inRange
  | @registered data registers owner =>
    obtain ⟨_, _, free⟩ := registered_data one.zero registers
    rw [owner] at free
    obtain ⟨positive, within⟩ := before
    have up := push_count data.nickName.chars positive free
    unfold InRange
    rw [up]
    simp only [NickNameList.push, List.length_append, List.length_singleton]
    omega

end Steps

/-! ## Runs -/

/-- In every run from the empty store no count is negative or above its names, and no
step, whatever it is, indexes names out of range. -/
theorem slots_in_range (auctions : AuctionRef → AuctionData) (packetType : UInt16)
    (steps : List LogicStep) (s : Store) (run : Run Steps (.empty auctions packetType) steps s) :
    (∀ accountNo slots, s.ownList.find accountNo = some slots →
      0 ≤ slots.count.toInt ∧ slots.count.toInt ≤ slots.nickNames.length) ∧
    ∀ step, s.step step ≠ .error .outOfRange := by
  obtain ⟨one, counted⟩ : OneAccount s ∧ Counted s := by
    refine run.invariant (P := fun s => OneAccount s ∧ Counted s) ?_
      ⟨one_account_empty auctions packetType, fun accountNo => ⟨Int.le_refl _, Int.le_refl _⟩⟩
    rintro s (⟨job, env⟩ | env) s' ⟨one, counted⟩ ⟨effects, ran⟩
    · exact ⟨one_account_job one ran, counted_job one counted ran⟩
    · refine ⟨one_account_update one ran, fun accountNo => ?_⟩
      rw [update_slots ran]
      exact counted accountNo
  refine ⟨fun accountNo slots found => ?_, fun step failed => ?_⟩
  · have same : s.slotsOf accountNo = slots := congrArg (Option.getD · NickNameList.empty) found
    exact same ▸ counted accountNo
  · cases step with
    | job job env => exact job_fault counted failed rfl
    | update env => exact update_fault failed rfl

/-- A sale, and a nickname change that takes its slot away. -/
theorem changed_sale_in_range :
    ∃ t, Run Steps IndexConsistency.emptyStore
        (IndexConsistency.firstSale ++ [.job (.nicknameChangeAble 0) (.zero 0)]) t ∧
      ∀ step, t.step step ≠ .error .outOfRange := by
  have run : ∃ t, Run Steps IndexConsistency.emptyStore
      (IndexConsistency.firstSale ++ [.job (.nicknameChangeAble 0) (.zero 0)]) t :=
    ⟨_, .cons ⟨_, rfl⟩ (.cons ⟨_, rfl⟩ (.cons ⟨_, rfl⟩ (.single ⟨_, rfl⟩)))⟩
  obtain ⟨t, run⟩ := run
  exact ⟨t, run, (slots_in_range _ _ _ t run).2⟩

end NewNameAuction.SlotBounds
