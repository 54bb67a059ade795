import NewNameAuction.AuctionEvents

/-! The terms of a sale. `REQ_SALE` leaves them in `waitingDataList` under the
account while the database thread checks the nickname, and `REGISTER_ABLE` takes
whatever it finds there. Only a registration and `LEAVE` clear the entry, and
`insert` does not replace one: an answer that refuses leaves the old terms for
the next sale of the account. -/
namespace NewNameAuction.SaleTerms
open Store ByteMemory

/-- A sale request under the nickname of its player. -/
structure SaleRequest where
  sessionID : Int64
  accountNo : Int64
  terms : InitData
  deriving DecidableEq

/-- The request a job makes, if its packet is a sale request that has the nickname
checked. -/
def saleOf (s : Store) (env : JobEnv) : Job → Option SaleRequest
  | .onRecv sessionID pPacket =>
    match s.playerList.find sessionID with
    | none => none
    | some player =>
      let sale := readSale env.locals (s.readType pPacket).2
      if (player.sessionID = sessionID ∧ player.isValid = true) ∧ (s.readType pPacket).1 = 1 ∧
          player.nickName.chars = localString env.locals sale.1 then
        some ⟨sessionID, player.accountNo, sale.2⟩
      else none
  | _ => none

/-! ## What a job does to the terms that wait -/

section Jobs
variable {env : JobEnv} {s s' : Store} {effects : List Effect}

/-- A packet of another type leaves the terms alone. -/
theorem packet_waiting {locals : Locals} {pPlayer : Player} {pPacket : Bytes} {sessionID : Int64}
    {packetType : UInt16} (other : packetType ≠ 1)
    (turn : PacketTurn locals s pPlayer pPacket sessionID packetType s' effects) :
    s'.waitingDataList = s.waitingDataList := by
  cases turn with
  | sale terms job type check => exact absurd type other
  | _ => rfl

/-- A packet leaves the terms of the request it makes, and otherwise what waits. -/
theorem recv_waiting {sessionID : Int64} {pPacket : Bytes}
    (ran : s.clientRecv env sessionID pPacket = .ok (s', effects)) :
    s'.waitingDataList = match saleOf s env (.onRecv sessionID pPacket) with
      | none => s.waitingDataList
      | some sale => s.waitingDataList.emplace sale.accountNo sale.terms := by
  dsimp only [saleOf]
  rcases client_recv_cases ran with ⟨rfl, _, foreign⟩ | ⟨player, ret, processed, known, own, proc, _⟩
  · cases found : s.playerList.find sessionID with
    | none => rfl
    | some player =>
      dsimp only
      rw [if_neg fun both => foreign player found both.1]
      rfl
  · rw [known]
    dsimp only
    by_cases type : (s.readType pPacket).1 = 1
    · rw [packetProc, if_pos type, req_sale_eq] at proc
      split at proc
      · rename_i other
        cases proc
        rw [if_neg fun both => other both.2.2]
        rfl
      · rename_i same
        cases proc
        rw [if_pos ⟨own, type, not_not.mp same⟩]
        rfl
    · rw [if_neg fun both => type both.2.1]
      have kept := packet_waiting type (packet_turn proc)
      exact kept

/-- The account and the session of every `NICKNAME_REGISTER_CHECK` job among some
effects. -/
def registerChecks (effects : List Effect) : List (Int64 × Int64) :=
  effects.filterMap fun
    | .enqueueDB job =>
      if job.jobType = .nicknameRegisterCheck then some (job.accountNo, job.sessionID) else none
    | _ => none

@[simp] theorem register_checks_sends (sessionID : Int64) (replies : List Reply) :
    registerChecks (replies.map (.send sessionID)) = [] :=
  filterMap_sends (fun _ _ => rfl) sessionID replies

@[simp] theorem register_checks_send_to_set (set : List Int64) (reply : Reply) :
    registerChecks (sendToSet set reply) = [] :=
  filterMap_send_to_set (fun _ _ => rfl) set reply

theorem register_checks_disconnected (ret : Bool) (sessionID : Int64) (effects : List Effect) :
    registerChecks (if ret then effects else effects ++ [.disconnect sessionID]) =
      registerChecks effects := by
  cases ret with
  | true => rfl
  | false => simp [registerChecks]

private theorem packet_checks {locals : Locals} {pPlayer : Player} {pPacket : Bytes}
    {sessionID : Int64} {packetType : UInt16} (other : packetType ≠ 1)
    (turn : PacketTurn locals s pPlayer pPacket sessionID packetType s' effects) :
    registerChecks effects = [] := by
  cases turn with
  | sale terms job type check => exact absurd type other
  | search replies type => exact register_checks_sends _ _
  | bid ownList type accepted => exact register_checks_send_to_set _ _
  | changeNickname ownList job type check => simp [registerChecks, check]
  | playerInfo nickName replies type known copied => exact register_checks_sends _ _
  | saleRefused type => rfl
  | bidRefused type refused => rfl
  | unknownPlayer type unknown => rfl
  | unknownType unknown => rfl

/-- The requests are what the database thread is asked to check. -/
theorem request_queued {job : Job} (ran : s.runJob env job = .ok (s', effects)) :
    registerChecks effects = (saleOf s env job).toList.map fun sale =>
      (sale.accountNo, sale.sessionID) := by
  cases job with
  | onRecv sessionID pPacket =>
    dsimp only [saleOf]
    rcases client_recv_cases ran with ⟨_, rfl, foreign⟩ |
      ⟨player, ret, processed, known, own, proc, rfl⟩
    · cases found : s.playerList.find sessionID with
      | none => rfl
      | some player =>
        dsimp only
        rw [if_neg fun both => foreign player found both.1]
        rfl
    · rw [register_checks_disconnected, known]
      dsimp only
      by_cases type : (s.readType pPacket).1 = 1
      · rw [packetProc, if_pos type, req_sale_eq] at proc
        split at proc
        · rename_i other
          cases proc
          rw [if_neg fun both => other both.2.2]
          rfl
        · rename_i same
          cases proc
          rw [if_pos ⟨own, type, not_not.mp same⟩]
          rfl
      · rw [if_neg fun both => type both.2.1]
        exact packet_checks type (packet_turn proc)
  | onClientJoin sessionID =>
    cases job_turn ran
    rfl
  | onClientLeave sessionID => cases job_turn ran <;> rfl
  | nicknameChangeAble accountNo =>
    cases job_turn ran
    rfl
  | nicknameRegisterAble sessionID accountNo => cases job_turn ran <;> rfl

/-- Every job that does not answer a check keeps the terms that wait, leaves new
ones for its own request, or takes some away. -/
theorem job_waiting {job : Job} (unanswering : ∀ sessionID accountNo, job ≠ .nicknameRegisterAble sessionID accountNo)
    (ran : s.runJob env job = .ok (s', effects)) :
    s'.waitingDataList = (match saleOf s env job with
      | none => s.waitingDataList
      | some sale => s.waitingDataList.emplace sale.accountNo sale.terms) ∨
      saleOf s env job = none ∧ ∃ accountNo, s'.waitingDataList = s.waitingDataList.erase accountNo := by
  cases job with
  | onRecv sessionID pPacket => exact .inl (recv_waiting ran)
  | nicknameRegisterAble sessionID accountNo => exact absurd rfl (unanswering sessionID accountNo)
  | onClientJoin sessionID =>
    cases job_turn ran
    exact .inl rfl
  | onClientLeave sessionID =>
    cases job_turn ran with
    | leaveUnknown unknown => exact .inl rfl
    | leave known => exact .inr ⟨rfl, _, rfl⟩
  | nicknameChangeAble accountNo =>
    cases job_turn ran
    exact .inl rfl

/-- A sweep is not about waiting terms. -/
theorem update_waiting {env : UpdateEnv} (ran : s.update env = .ok (s', effects)) :
    s'.waitingDataList = s.waitingDataList := by
  obtain ⟨_, _, _, _, rfl⟩ := update_frame ran
  rfl

end Jobs

/-! ## The terms an auction has -/

/-- The hours of a sale as `REGISTER_ABLE` computes with them. -/
theorem hours_value (time : Int8) : ((time.toInt64.toUInt64 * 60 * 60 * 1000).toNat : Int) =
    time.toInt * 3600000 % ((2 ^ 64 : Nat) : Int) := by
  have bits : (time.toInt64.toUInt64.toNat : Int) = time.toInt % ((2 ^ 64 : Nat) : Int) := by
    rw [← Int8.toInt_toInt64 time, ← Int64.toInt_toBitVec, ← Int64.toNat_toBitVec,
      BitVec.toInt_eq_toNat_bmod, Int.bmod_emod]
    exact (Int.emod_eq_of_lt (by omega) (Int.ofNat_lt.mpr time.toInt64.toBitVec.isLt)).symm
  have whole : time.toInt64.toUInt64 * 60 * 60 * 1000 = time.toInt64.toUInt64 * 3600000 := by
    rw [UInt64.mul_assoc, UInt64.mul_assoc]
    rfl
  rw [whole, UInt64.toNat_mul, Int.natCast_emod, Int.natCast_mul, bits, Int.mul_emod, Int.emod_emod,
    ← Int.mul_emod]
  rfl

/-- Congruent numbers that are less than the modulus apart are equal. -/
private theorem eq_of_emod_eq {m : Nat} {x y : Int} (same : x % (m : Int) = y % (m : Int))
    (near : (x - y).natAbs < m) : x = y := by
  have divides : (m : Int) ∣ x - y :=
    Int.dvd_of_emod_eq_zero (Int.emod_eq_emod_iff_emod_sub_eq_zero.mp same)
  have zero := Int.eq_zero_of_dvd_of_natAbs_lt_natAbs divides near
  exact Int.sub_eq_zero.mp zero

/-- An auction shows the terms it was made with. -/
theorem new_auction_terms {curTime : UInt64} {accountNo : Int64} {terms terms' : InitData}
    {nickName nickName' : NickName}
    (same : newAuction curTime accountNo terms nickName = newAuction curTime accountNo terms' nickName') :
    terms = terms' := by
  have price : terms.price = terms'.price := congrArg AuctionData.price same
  have ends : curTime + terms.time.toInt64.toUInt64 * 60 * 60 * 1000 - 10 * 60 * 1000 =
      curTime + terms'.time.toInt64.toUInt64 * 60 * 60 * 1000 - 10 * 60 * 1000 :=
    congrArg AuctionData.endTime same
  have hours := (UInt64.add_right_inj _).mp ((UInt64.sub_left_inj _).mp ends)
  have values := congrArg (fun x : UInt64 => (x.toNat : Int)) hours
  simp only [hours_value] at values
  have low := Int8.le_toInt terms.time
  have high := Int8.toInt_lt terms.time
  have low' := Int8.le_toInt terms'.time
  have high' := Int8.toInt_lt terms'.time
  have near : (terms.time.toInt * 3600000 - terms'.time.toInt * 3600000).natAbs < 2 ^ 64 := by
    clear values
    omega
  have time : terms.time = terms'.time := by
    apply Int8.toInt_inj.mp
    exact Int.eq_of_mul_eq_mul_right (by decide) (eq_of_emod_eq values near)
  cases terms
  cases terms'
  rw [InitData.mk.injEq]
  exact ⟨time, price⟩

/-! ## Runs with the checks under way -/

/-- A request with the number it was given. -/
structure Check extends SaleRequest where
  number : Nat

/-- The logic thread, the requests whose checks are not answered yet, first the
first, and which request left the terms that wait for an account. -/
structure Desk where
  store : Store
  unanswered : List Check
  waitingFrom : Int64 → Option Nat
  numbered : Nat

/-- Before the first request. -/
def Desk.start (s : Store) : Desk := ⟨s, [], fun _ => none, 0⟩

/-- The request of a step. -/
def requestIn (s : Store) : LogicStep → Option SaleRequest
  | .job job env => saleOf s env job
  | .update _ => none

/-- Terms that wait after a step waited before, or the step's request left them. -/
def Desk.comesFrom (q : Desk) (s' : Store) (accountNo : Int64) : Option Nat :=
  if accountNo ∉ s'.waitingDataList then none
  else if accountNo ∈ q.store.waitingDataList then q.waitingFrom accountNo
  else some q.numbered

/-- The `REGISTER_ABLE` job that answers a check. -/
def Check.able (check : Check) (env : JobEnv) : LogicStep :=
  .job (.nicknameRegisterAble check.sessionID check.accountNo) env

def IsAnswer (step : LogicStep) : Prop :=
  ∃ sessionID accountNo env, step = .job (.nicknameRegisterAble sessionID accountNo) env

inductive SaleEvent
  | step (step : LogicStep)
  /-- The database thread sends `RES_SALE` with `FAIL_SOLD`. -/
  | refused

/-- A step of the logic thread, or a refusal. Answers come in the order of the
checks. -/
inductive SaleStep : Desk → SaleEvent → Desk → Prop
  | step {q : Desk} {step : LogicStep} {s' : Store} : ¬IsAnswer step → q.store.Steps step s' →
      SaleStep q (.step step) {
        store := s'
        unanswered := q.unanswered ++ (requestIn q.store step).toList.map (Check.mk · q.numbered)
        waitingFrom := q.comesFrom s'
        numbered := q.numbered + 1 }
  | able {q : Desk} {check : Check} {rest : List Check} {env : JobEnv} {s' : Store} :
      q.unanswered = check :: rest → q.store.Steps (check.able env) s' →
      SaleStep q (.step (check.able env))
        { q with store := s', unanswered := rest, waitingFrom := q.comesFrom s' }
  | refused {q : Desk} {check : Check} {rest : List Check} : q.unanswered = check :: rest →
      SaleStep q .refused { q with unanswered := rest }

/-- An auction registered in answer to a check has the price and the time of its
request. -/
def OnItsTerms (q : Desk) : SaleEvent → Prop
  | .step (.job job env) => ∀ check rest data, q.unanswered = check :: rest →
      q.store.registration env job = some data →
      ∃ nickName, data = newAuction env.curTime check.accountNo check.terms nickName
  | _ => True

/-- Nothing waits that an answered request has left. -/
def NothingRemains (q : Desk) : Prop :=
  ∀ accountNo number, q.waitingFrom accountNo = some number →
    ∃ check ∈ q.unanswered, check.number = number

/-- The condition on a step. A refused request has no terms waiting any more; and
terms that are registered were left by the request answered, or by another one for
the same. -/
def AnswersItsOwn (q : Desk) : SaleEvent → Prop
  | .refused => ∀ check rest, q.unanswered = check :: rest →
      q.waitingFrom check.accountNo ≠ some check.number
  | .step (.job (.nicknameRegisterAble _ accountNo) _) => ∀ check rest, q.unanswered = check :: rest →
      if q.store.NoSlot accountNo then q.waitingFrom check.accountNo ≠ some check.number
      else accountNo ∈ q.store.playerList → ∀ number, q.waitingFrom accountNo = some number →
        ∃ asked ∈ q.unanswered, asked.number = number ∧ asked.terms = check.terms
  | .step _ => True

/-- What waits are the terms of an unanswered request of the account. -/
structure Tracked (q : Desk) : Prop where
  numbers : (q.unanswered.map Check.number).Nodup
  below : ∀ check ∈ q.unanswered, check.number < q.numbered
  waits : ∀ accountNo terms, q.store.waitingDataList.find accountNo = some terms →
    ∃ check ∈ q.unanswered, check.accountNo = accountNo ∧ check.terms = terms ∧
      q.waitingFrom accountNo = some check.number
  there : ∀ accountNo number, q.waitingFrom accountNo = some number →
    accountNo ∈ q.store.waitingDataList

section Steps
variable {q q' : Desk} {event : SaleEvent} {check : Check} {rest : List Check}

theorem start_tracked {s : Store} (none : s.waitingDataList = ∅) : Tracked (.start s) := by
  refine ⟨List.nodup_nil, fun check member => ?_, fun accountNo terms found => ?_,
    fun accountNo number waits => ?_⟩
  · cases member
  · dsimp only [Desk.start] at found
    rw [none] at found
    cases found
  · cases waits

theorem Tracked.nothing_remains (tracked : Tracked q) : NothingRemains q := by
  intro accountNo number waits
  have member := tracked.there accountNo number waits
  cases found : q.store.waitingDataList.find accountNo with
  | none => exact absurd member (UnorderedMap.find_eq_none.mp found)
  | some terms =>
    obtain ⟨check, asked, _, _, left⟩ := tracked.waits accountNo terms found
    exact ⟨check, asked, Option.some.inj (left.symm.trans waits)⟩

/-- Unanswered requests have their own numbers. -/
theorem Tracked.unique (tracked : Tracked q) {check check' : Check} (asked : check ∈ q.unanswered)
    (asked' : check' ∈ q.unanswered) (same : check.number = check'.number) : check = check' :=
  List.inj_on_of_nodup_map tracked.numbers asked asked' same

theorem comes_from_kept {s' : Store} {accountNo : Int64} (after : accountNo ∈ s'.waitingDataList)
    (before : accountNo ∈ q.store.waitingDataList) :
    q.comesFrom s' accountNo = q.waitingFrom accountNo := by
  rw [Desk.comesFrom, if_neg (not_not.mpr after), if_pos before]

theorem comes_from_new {s' : Store} {accountNo : Int64} (after : accountNo ∈ s'.waitingDataList)
    (before : accountNo ∉ q.store.waitingDataList) :
    q.comesFrom s' accountNo = some q.numbered := by
  rw [Desk.comesFrom, if_neg (not_not.mpr after), if_neg before]

theorem comes_from_there {s' : Store} {accountNo : Int64} {number : Nat}
    (waits : q.comesFrom s' accountNo = some number) : accountNo ∈ s'.waitingDataList := by
  by_contra gone
  rw [Desk.comesFrom, if_pos gone] at waits
  cases waits

/-- What waits after a step that answers nothing waited before, or is new and the
step's request. -/
theorem step_waiting {s s' : Store} {step : LogicStep} (unanswering : ¬IsAnswer step)
    (taken : s.Steps step s') {accountNo : Int64} {terms : InitData}
    (found : s'.waitingDataList.find accountNo = some terms) :
    s.waitingDataList.find accountNo = some terms ∨
      accountNo ∉ s.waitingDataList ∧ ∃ sale, requestIn s step = some sale ∧
        sale.accountNo = accountNo ∧ sale.terms = terms := by
  obtain ⟨effects, ran⟩ := taken
  cases step with
  | update env =>
    rw [update_waiting ran] at found
    exact .inl found
  | job job env =>
    rcases job_waiting (fun sessionID account same => unanswering ⟨sessionID, account, env, by rw [same]⟩)
      ran with left | ⟨_, account, erased⟩
    · dsimp only [requestIn]
      cases asked : saleOf s env job with
      | none =>
        rw [left, asked] at found
        exact .inl found
      | some sale =>
        rw [left, asked] at found
        by_cases waited : accountNo ∈ s.waitingDataList
        · rcases UnorderedMap.find_emplace_some found with old | ⟨rfl, rfl⟩
          · exact .inl old
          · dsimp only at found
            rw [UnorderedMap.emplace, if_pos waited] at found
            exact .inl found
        · rcases UnorderedMap.find_emplace_some found with old | ⟨rfl, rfl⟩
          · exact absurd (UnorderedMap.mem_of_find old) waited
          · exact .inr ⟨waited, sale, rfl, rfl, rfl⟩
    · rw [erased, UnorderedMap.find_erase] at found
      split at found
      · cases found
      · exact .inl found

/-- Requests come in, and players leave. -/
theorem step_tracked (tracked : Tracked q) {step : LogicStep} {s' : Store}
    (unanswering : ¬IsAnswer step) (taken : q.store.Steps step s') : Tracked {
      store := s'
      unanswered := q.unanswered ++ (requestIn q.store step).toList.map (Check.mk · q.numbered)
      waitingFrom := q.comesFrom s'
      numbered := q.numbered + 1 } := by
  refine ⟨?numbers, ?below, ?waits, fun accountNo number => comes_from_there⟩
  case numbers =>
    cases requestIn q.store step with
    | none => simpa using tracked.numbers
    | some sale =>
      dsimp only [Option.toList, List.map]
      rw [List.map_append]
      refine tracked.numbers.append (List.nodup_singleton _) fun number old new => ?_
      obtain ⟨check, asked, rfl⟩ := List.mem_map.mp old
      obtain same := List.mem_singleton.mp new
      exact absurd same (Nat.ne_of_lt (tracked.below check asked))
  case below =>
    intro check member
    rcases List.mem_append.mp member with old | new
    · exact Nat.lt_succ_of_lt (tracked.below check old)
    · obtain ⟨sale, _, rfl⟩ := List.mem_map.mp new
      exact Nat.lt_succ_self _
  case waits =>
    intro accountNo terms found
    have after := UnorderedMap.mem_of_find found
    dsimp only
    rcases step_waiting unanswering taken found with old | ⟨fresh, sale, asked, rfl, rfl⟩
    · obtain ⟨check, asked, account, same, left⟩ := tracked.waits accountNo terms old
      rw [comes_from_kept after (UnorderedMap.mem_of_find old)]
      exact ⟨check, List.mem_append_left _ asked, account, same, left⟩
    · rw [comes_from_new after fresh, asked]
      exact ⟨⟨sale, q.numbered⟩, List.mem_append_right _ (List.mem_singleton_self _), rfl, rfl, rfl⟩

/-- Once the answered request has left nothing, the others are tracked as before. -/
theorem answered_tracked (tracked : Tracked q) (first : q.unanswered = check :: rest) {s' : Store}
    {waitingFrom : Int64 → Option Nat}
    (kept : ∀ accountNo terms, s'.waitingDataList.find accountNo = some terms →
      q.store.waitingDataList.find accountNo = some terms ∧
        waitingFrom accountNo = q.waitingFrom accountNo ∧ waitingFrom accountNo ≠ some check.number)
    (there : ∀ accountNo number, waitingFrom accountNo = some number → accountNo ∈ s'.waitingDataList) :
    Tracked { q with store := s', unanswered := rest, waitingFrom := waitingFrom } := by
  have numbers := tracked.numbers
  rw [first, List.map_cons, List.nodup_cons] at numbers
  refine ⟨numbers.2, fun other member => ?_, fun accountNo terms found => ?_, there⟩
  · exact tracked.below other (first ▸ List.mem_cons_of_mem _ member)
  · obtain ⟨old, same, elsewhere⟩ := kept accountNo terms found
    obtain ⟨other, asked, account, named, left⟩ := tracked.waits accountNo terms old
    rw [first] at asked
    rcases List.mem_cons.mp asked with rfl | later
    · exact absurd (same.trans left) elsewhere
    · exact ⟨other, later, account, named, same.trans left⟩

/-- A request leaves its terms under its own account. -/
theorem Tracked.account (tracked : Tracked q) (asked : check ∈ q.unanswered) {accountNo : Int64}
    (waits : q.waitingFrom accountNo = some check.number) : check.accountNo = accountNo ∧
      q.store.waitingDataList.find accountNo = some check.terms := by
  cases found : q.store.waitingDataList.find accountNo with
  | none => exact absurd (tracked.there accountNo _ waits) (UnorderedMap.find_eq_none.mp found)
  | some terms =>
    obtain ⟨other, asked', account, same, left⟩ := tracked.waits accountNo terms found
    obtain rfl := tracked.unique asked asked' (Option.some.inj (waits.symm.trans left))
    exact ⟨account, by rw [same]⟩

/-- `REGISTER_ABLE` takes the terms of its account away, unless it finds no slot. -/
theorem able_waiting {s s' : Store} {env : JobEnv} {sessionID accountNo : Int64}
    {effects : List Effect}
    (ran : s.runJob env (.nicknameRegisterAble sessionID accountNo) = .ok (s', effects))
    (account : Int64) : s'.waitingDataList.find account =
      if account = accountNo ∧ ¬s.NoSlot accountNo then none
      else s.waitingDataList.find account := by
  cases job_turn ran with
  | registerRefused _ flag full =>
    rw [if_neg fun both => both.2 full]
  | registerUnasked _ slot unasked =>
    split
    · rename_i both
      rw [both.1]
      exact unasked
    · rfl
  | registerUnknown _ slot asked unknown =>
    dsimp only [registering]
    rw [UnorderedMap.find_erase]
    simp only [slot, not_false_eq_true, and_true]
  | register _ slot asked known =>
    dsimp only [registering, enlist]
    rw [UnorderedMap.find_erase]
    simp only [slot, not_false_eq_true, and_true]

/-- With its own terms waiting or none, `REGISTER_ABLE` registers what was asked for. -/
theorem on_its_terms (tracked : Tracked q) (env : JobEnv) (first : q.unanswered = check :: rest)
    (own : AnswersItsOwn q (.step (check.able env))) : OnItsTerms q (.step (check.able env)) := by
  intro check' rest' data first' made
  obtain ⟨rfl, rfl⟩ := List.cons.inj (first.symm.trans first')
  obtain ⟨slot, terms, pPlayer, waiting, known, rfl⟩ := registration_some made
  obtain ⟨left, asked, account, same, waits⟩ := tracked.waits _ terms waiting
  have owned := own check rest first
  rw [if_neg slot] at owned
  obtain ⟨asked', member, number, alike⟩ := owned (UnorderedMap.mem_of_find known) _ waits
  obtain rfl := tracked.unique member asked number
  rw [← alike, same]
  exact ⟨_, rfl⟩

/-- And leaves nothing of the request it answers. -/
theorem able_tracked (tracked : Tracked q) {env : JobEnv} {s' : Store}
    (first : q.unanswered = check :: rest) (taken : q.store.Steps (check.able env) s')
    (own : AnswersItsOwn q (.step (check.able env))) :
    Tracked { q with store := s', unanswered := rest, waitingFrom := q.comesFrom s' } := by
  obtain ⟨effects, ran⟩ := taken
  have waiting := able_waiting ran
  have asked : check ∈ q.unanswered := first ▸ List.mem_cons_self
  have owned := own check rest first
  refine answered_tracked tracked first (fun accountNo terms found => ?_) fun _ _ => comes_from_there
  have after := UnorderedMap.mem_of_find found
  rw [waiting] at found
  split at found
  · cases found
  · rename_i stays
    have same := comes_from_kept after (UnorderedMap.mem_of_find found)
    refine ⟨found, same, fun left => ?_⟩
    rw [same] at left
    obtain ⟨rfl, _⟩ := tracked.account asked left
    have full := not_not.mp (not_and.mp stays rfl)
    rw [if_pos full] at owned
    exact owned left

/-- A refusal with nothing of its request waiting leaves nothing of it. -/
theorem refused_tracked (tracked : Tracked q) (first : q.unanswered = check :: rest)
    (own : AnswersItsOwn q .refused) : Tracked { q with unanswered := rest } := by
  refine answered_tracked tracked first (fun accountNo terms found => ⟨found, rfl, fun left => ?_⟩)
    tracked.there
  obtain ⟨rfl, _⟩ := tracked.account (first ▸ List.mem_cons_self) left
  exact own check rest first left

theorem own_of_unanswering {step : LogicStep} (unanswering : ¬IsAnswer step) :
    AnswersItsOwn q (.step step) ∧ OnItsTerms q (.step step) := by
  cases step with
  | update env => exact ⟨trivial, trivial⟩
  | job job env =>
    cases job with
    | nicknameRegisterAble sessionID accountNo => exact absurd ⟨_, _, _, rfl⟩ unanswering
    | onClientJoin sessionID => exact ⟨trivial, fun _ _ _ _ made => by cases made⟩
    | onClientLeave sessionID => exact ⟨trivial, fun _ _ _ _ made => by cases made⟩
    | onRecv sessionID pPacket => exact ⟨trivial, fun _ _ _ _ made => by cases made⟩
    | nicknameChangeAble accountNo => exact ⟨trivial, fun _ _ _ _ made => by cases made⟩

/-- A request that nothing remains of has nothing waiting. -/
theorem answered_gone (tracked : Tracked q) (first : q.unanswered = check :: rest)
    {waitingFrom : Int64 → Option Nat} {s' : Store}
    (nothing : NothingRemains { q with store := s', unanswered := rest, waitingFrom := waitingFrom }) :
    waitingFrom check.accountNo ≠ some check.number := by
  intro left
  obtain ⟨other, later, same⟩ := nothing _ _ left
  have numbers := tracked.numbers
  rw [first, List.map_cons, List.nodup_cons] at numbers
  exact numbers.1 (same ▸ List.mem_map_of_mem later)

theorem able_own (tracked : Tracked q) {env : JobEnv} {s' : Store}
    (first : q.unanswered = check :: rest) (taken : q.store.Steps (check.able env) s')
    (terms : OnItsTerms q (.step (check.able env)))
    (nothing : NothingRemains { q with
      store := s', unanswered := rest, waitingFrom := q.comesFrom s' }) :
    AnswersItsOwn q (.step (check.able env)) := by
  obtain ⟨effects, ran⟩ := taken
  have asked : check ∈ q.unanswered := first ▸ List.mem_cons_self
  intro check' rest' first'
  obtain ⟨rfl, rfl⟩ := List.cons.inj (first.symm.trans first')
  split
  · rename_i full
    intro left
    obtain ⟨_, waiting⟩ := tracked.account asked left
    have after : s'.waitingDataList.find check.accountNo = some check.terms := by
      rw [able_waiting ran, if_neg fun both => both.2 full, waiting]
    have same := comes_from_kept (q := q) (UnorderedMap.mem_of_find after)
      (UnorderedMap.mem_of_find waiting)
    exact answered_gone tracked first nothing (same.trans left)
  · rename_i slot
    intro member number waits
    cases known : q.store.playerList.find check.accountNo with
    | none => exact absurd member (UnorderedMap.find_eq_none.mp known)
    | some pPlayer =>
      obtain ⟨left, asked', same⟩ := tracked.nothing_remains _ _ waits
      obtain ⟨_, waiting⟩ := tracked.account asked' (waits.trans (by rw [same]))
      obtain ⟨nickName, made⟩ := terms check rest _ first (registration_found slot waiting known)
      exact ⟨left, asked', same, new_auction_terms made⟩

/-- A step is right in both ways exactly when it meets the condition. -/
theorem step_right (tracked : Tracked q) (taken : SaleStep q event q') :
    (OnItsTerms q event ∧ NothingRemains q' ↔ AnswersItsOwn q event) ∧
      (AnswersItsOwn q event → Tracked q') := by
  cases taken with
  | step unanswering taken =>
    have after := step_tracked tracked unanswering taken
    obtain ⟨own, terms⟩ := own_of_unanswering (q := q) unanswering
    exact ⟨⟨fun _ => own, fun _ => ⟨terms, after.nothing_remains⟩⟩, fun _ => after⟩
  | able first taken =>
    refine ⟨⟨fun right => able_own tracked first taken right.1 right.2, fun own => ?_⟩,
      able_tracked tracked first taken⟩
    exact ⟨on_its_terms tracked _ first own, (able_tracked tracked first taken own).nothing_remains⟩
  | @refused check rest first =>
    refine ⟨⟨fun right check' rest' first' => ?_, fun own => ?_⟩, refused_tracked tracked first⟩
    · obtain ⟨rfl, rfl⟩ := List.cons.inj (first.symm.trans first')
      exact answered_gone tracked first right.2
    · exact ⟨trivial, (refused_tracked tracked first own).nothing_remains⟩

/-- In a run that starts with no terms waiting, every registration is on the terms
of its request, and nothing remains of an answered one, exactly when every answer
meets the condition. -/
theorem sales_on_their_terms {s : Store} (none : s.waitingDataList = ∅) (events : List SaleEvent)
    (q : Desk) :
    Run (fun a event b => SaleStep a event b ∧ OnItsTerms a event ∧ NothingRemains b) (.start s)
        events q ↔
      Run (Meeting SaleStep AnswersItsOwn) (.start s) events q := by
  constructor
  · intro run
    refine run.mono_invariant (P := Tracked) ?_ ?_ (start_tracked none)
    · intro a event b tracked taken
      obtain ⟨right, after⟩ := step_right tracked taken.1
      exact after (right.mp taken.2)
    · intro a event b tracked taken
      exact ⟨taken.1, (step_right tracked taken.1).1.mp taken.2⟩
  · intro run
    refine run.mono_invariant (P := Tracked) ?_ ?_ (start_tracked none)
    · intro a event b tracked taken
      exact (step_right tracked taken.1).2 taken.2
    · intro a event b tracked taken
      exact ⟨taken.1, (step_right tracked taken.1).1.mpr taken.2⟩

end Steps

/-! ## A second sale after a refusal -/

/-- `REQ_SALE` of the nickname every new player has, for a day. -/
def saleFor (price : UInt8) : Bytes :=
  [1, 0] ++ [78, 0, 85, 0, 76, 0, 76, 0] ++ List.replicate 12 0 ++ [24] ++ [price, 0, 0, 0]

def emptyStore : Store := .empty (fun _ => .zero) 0

private theorem asked {q : Desk} (job : Job) {s' : Store} {effects : List Effect}
    (other : ∀ sessionID accountNo, job ≠ .nicknameRegisterAble sessionID accountNo)
    (ran : q.store.runJob (.zero 0) job = .ok (s', effects)) :
    SaleStep q (.step (.job job (.zero 0))) {
      store := s'
      unanswered := q.unanswered ++ (saleOf q.store (.zero 0) job).toList.map (Check.mk · q.numbered)
      waitingFrom := q.comesFrom s'
      numbered := q.numbered + 1 } :=
  .step (fun ⟨_, _, _, same⟩ => other _ _ (LogicStep.job.inj same).1) ⟨effects, ran⟩

private theorem own_of_alone {q : Desk} {check : Check} {env : JobEnv} (alone : q.unanswered = [check])
    (slot : ¬q.store.NoSlot check.accountNo)
    (waits : q.waitingFrom check.accountNo = some check.number) :
    AnswersItsOwn q (.step (check.able env)) := by
  intro check' rest' first
  obtain ⟨rfl, _⟩ := List.cons.inj (alone.symm.trans first)
  rw [if_neg slot]
  intro _ number left
  exact ⟨check, alone ▸ List.mem_cons_self, Option.some.inj (waits.symm.trans left), rfl⟩

/-- The request for 50, when it is the first after a player has joined. -/
def forFifty : Check := ⟨⟨0, 0, ⟨24, 50⟩⟩, 1⟩

def fiftyEvents : List SaleEvent :=
  [.step (.job (.onClientJoin 0) (.zero 0)), .step (.job (.onRecv 0 (saleFor 50)) (.zero 0)),
    .step (forFifty.able (.zero 0))]

/-- It is registered for 50. -/
theorem fifty_on_its_terms : ∃ q, (q.store.auctions 0).price = 50 ∧
    Run (fun a event b => SaleStep a event b ∧ OnItsTerms a event ∧ NothingRemains b)
      (.start emptyStore) fiftyEvents q := by
  have run : ∃ q, Run (Meeting SaleStep AnswersItsOwn) (.start emptyStore) fiftyEvents q ∧
      (q.store.auctions 0).price = 50 :=
    ⟨_, .cons ⟨asked (.onClientJoin 0) (fun _ _ same => nomatch same) rfl, trivial⟩ <|
      .cons ⟨asked (.onRecv 0 (saleFor 50)) (fun _ _ same => nomatch same) rfl, trivial⟩ <|
      .single ⟨.able rfl ⟨_, rfl⟩, own_of_alone rfl (by decide) rfl⟩, rfl⟩
  obtain ⟨q, run, price⟩ := run
  exact ⟨q, price, (sales_on_their_terms rfl _ _).mpr run⟩

/-- The same after a request for 50 that was refused. -/
def forHundred : Check := ⟨⟨0, 0, ⟨24, 100⟩⟩, 2⟩

def refusedEvents : List SaleEvent :=
  [.step (.job (.onClientJoin 0) (.zero 0)), .step (.job (.onRecv 0 (saleFor 50)) (.zero 0)), .refused,
    .step (.job (.onRecv 0 (saleFor 100)) (.zero 0))]

/-- After a refusal the old terms stay, and the next sale of the account is
registered on them: for 50 instead of 100. -/
theorem old_terms_registered : ∃ q data, Run SaleStep (.start emptyStore) refusedEvents q ∧
    q.unanswered = [forHundred] ∧
    q.store.registration (.zero 0) (.nicknameRegisterAble 0 0) = some data ∧ data.price = 50 ∧
    ¬OnItsTerms q (.step (forHundred.able (.zero 0))) ∧ ¬NothingRemains q := by
  have run : ∃ q, Run SaleStep (.start emptyStore) refusedEvents q ∧ q.unanswered = [forHundred] ∧
      q.waitingFrom 0 = some 1 ∧ ∃ data, data.price = 50 ∧
        q.store.registration (.zero 0) (.nicknameRegisterAble 0 0) = some data :=
    ⟨_, .cons (asked (.onClientJoin 0) (fun _ _ same => nomatch same) rfl) <|
      .cons (asked (.onRecv 0 (saleFor 50)) (fun _ _ same => nomatch same) rfl) <|
      .cons (.refused rfl) <|
      .single (asked (.onRecv 0 (saleFor 100)) (fun _ _ same => nomatch same) rfl), rfl, rfl, _, rfl, rfl⟩
  obtain ⟨q, run, alone, waits, data, price, made⟩ := run
  refine ⟨q, data, run, alone, made, price, fun terms => ?_, fun nothing => ?_⟩
  · obtain ⟨nickName, same⟩ := terms forHundred [] data alone made
    rw [same] at price
    exact absurd (show (100 : Int32) = 50 from price) (by decide)
  · obtain ⟨check, member, number⟩ := nothing 0 1 waits
    rw [alone, List.mem_singleton] at member
    rw [member] at number
    cases number

end NewNameAuction.SaleTerms
