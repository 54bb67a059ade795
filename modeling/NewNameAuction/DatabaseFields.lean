import NewNameAuction.DatabaseRequests
import NewNameAuction.IndexConsistency
import NewNameAuction.NicknameField

/-! What the database thread makes of a job, and what the job's block held before.
Blocks of `DBJobPool` are not cleared, and each producer writes some fields of its
block: the sale check and the registration leave out the nickname that is queried,
a won auction leaves out its end time. -/
namespace NewNameAuction.DatabaseFields
open Store DatabaseRequests IndexConsistency

/-- A request to the database thread, and what it is about. -/
inductive Request
  | registerCheck (pPlayer : Player) (sessionID : Int64)
  | changeCheck (pPlayer : Player) (sessionID : Int64) (targetNickName : NickName)
  | registered (sessionID : Int64) (data : AuctionData)
  | sold (data : AuctionData)

namespace Request

/-- The job about a request, in a block of the pool. -/
def job (block : DBCheckJob) : Request → DBCheckJob
  | .registerCheck pPlayer sessionID => Store.registerCheck block pPlayer sessionID
  | .changeCheck pPlayer sessionID targetNickName => { block with
      jobType := .nicknameChangeCheck
      accountNo := pPlayer.accountNo
      sessionID := sessionID
      myNickName := pPlayer.nickName.chars
      targetNickName := targetNickName.chars }
  | .registered sessionID data => { block with
      jobType := .nicknameChangeCheck
      accountNo := data.ownerID
      sessionID := sessionID
      myNickName := data.nickName.chars }
  | .sold data => soldJob block data

/-- The queries a request is made for. -/
def asked : Request → List DBQuery
  | .registerCheck pPlayer _ => [.soldExists pPlayer.nickName.chars]
  | .changeCheck _ _ targetNickName => [.soldOwner targetNickName.chars]
  | .registered _ data =>
    [.insertCelling data.nickName.chars data.ownerID data.endTime data.count]
  | .sold data =>
    if data.bidderID ≠ 0 then
      [.insertSold data.nickName.chars data.bidderID data.endTime data.count]
    else []

def IsChange : Request → Prop
  | .changeCheck _ _ _ => True
  | _ => False

/-- The end of an auction nobody has bid on. -/
def IsUnsold : Request → Prop
  | .sold data => data.bidderID = 0
  | _ => False

end Request

/-- Whatever a block held before, of these contents, the database thread does the
same about the request, and asks what the request is made for. -/
structure OwnData (contents : DBCheckJob → Prop) (request : Request) : Prop where
  same : ∀ block block', contents block → contents block' → ∀ row item,
    dbAccess (request.job block) row item = dbAccess (request.job block') row item
  asked : ∀ block, contents block → ∀ row item, ∃ effects,
    dbAccess (request.job block) row item = .ok effects ∧
      ∀ query ∈ request.asked, .query query ∈ effects

/-- A block whose second nickname is terminated: `wcscpy_s` takes it, whatever stands
behind the terminator. -/
def Terminated (block : DBCheckJob) : Prop :=
  ∃ targetNickName, wcscpyS block.targetNickName = .ok targetNickName

/-! ## The requests of the logic thread -/

/-- The request a step makes, and the block it is written into. -/
inductive Made (s : Store) : LogicStep → Request → DBCheckJob → Prop
  | registerCheck {sessionID : Int64} {pPacket : ByteMemory.Bytes} {env : JobEnv} {pPlayer : Player} :
      s.playerList.find sessionID = some pPlayer →
      Made s (.job (.onRecv sessionID pPacket) env) (.registerCheck pPlayer sessionID) env.block
  | changeCheck {sessionID : Int64} {pPacket : ByteMemory.Bytes} {env : JobEnv} {pPlayer : Player}
      {targetNickName : NickName} : s.playerList.find sessionID = some pPlayer →
      Made s (.job (.onRecv sessionID pPacket) env) (.changeCheck pPlayer sessionID targetNickName)
        env.block
  | registered {sessionID accountNo : Int64} {env : JobEnv} {data : AuctionData} :
      s.registration env (.nicknameRegisterAble sessionID accountNo) = some data →
      Made s (.job (.nicknameRegisterAble sessionID accountNo) env) (.registered sessionID data) env.block
  | sold {env : UpdateEnv} {wstr : WString} {data : AuctionData} : data.status.ended →
      Made s (.update env) (.sold data) (env.block wstr)

section Enqueued
variable {s s' : Store} {job : DBCheckJob} {effects : List Effect}

private theorem sends_no_job {sessionID : Int64} {replies : List Reply}
    (member : .enqueueDB job ∈ replies.map (Effect.send sessionID)) : False := by
  obtain ⟨reply, _, sent⟩ := List.mem_map.mp member
  cases sent

private theorem set_no_job {set : List Int64} {reply : Reply}
    (member : .enqueueDB job ∈ sendToSet set reply) : False := by
  obtain ⟨sessionID, _, sent⟩ := List.mem_map.mp member
  cases sent

private theorem change_enqueued {locals : Locals} {block : DBCheckJob} {pPlayer : Player}
    {pPacket : ByteMemory.Bytes} {sessionID : Int64} {ret : Bool}
    (ran : s.packetProcReqChangeNickname locals block pPlayer pPacket sessionID =
      .ok (ret, s', effects)) :
    ∃ targetNickName,
      effects = [.enqueueDB ((Request.changeCheck pPlayer sessionID targetNickName).job block)] := by
  unfold packetProcReqChangeNickname at ran
  dsimp only at ran
  split at ran
  · cases ran
  · obtain ⟨target, _, ran⟩ := bind_ok.mp ran
    cases ran
    exact ⟨target, rfl⟩

private theorem packet_enqueued {locals : Locals} {block : DBCheckJob} {pPlayer : Player}
    {pPacket : ByteMemory.Bytes} {sessionID : Int64} {packetType : UInt16} {ret : Bool}
    (ran : s.packetProc locals block pPlayer pPacket sessionID packetType = .ok (ret, s', effects))
    (member : .enqueueDB job ∈ effects) :
    job = (Request.registerCheck pPlayer sessionID).job block ∨ ∃ targetNickName,
      job = (Request.changeCheck pPlayer sessionID targetNickName).job block := by
  by_cases sale : packetType = 1
  · rw [packetProc, if_pos sale, req_sale_eq] at ran
    split at ran
    · cases ran
      cases member
    · cases ran
      exact .inl (Effect.enqueueDB.inj (List.mem_singleton.mp member))
  by_cases change : packetType = 8
  · subst change
    obtain ⟨target, rfl⟩ := change_enqueued
      (show s.packetProcReqChangeNickname locals block pPlayer pPacket sessionID = _ from ran)
    exact .inr ⟨target, Effect.enqueueDB.inj (List.mem_singleton.mp member)⟩
  exfalso
  cases packet_turn ran with
  | sale terms job type check => exact sale type
  | changeNickname ownList job type check => exact change type
  | search replies type => exact sends_no_job member
  | playerInfo nickName replies type known copied => exact sends_no_job member
  | bid ownList type accepted =>
    rcases List.mem_cons.mp member with first | member
    · cases first
    · exact set_no_job member
  | saleRefused type => cases member
  | bidRefused type refused => cases member
  | unknownPlayer type unknown => cases member
  | unknownType unknown => cases member

private theorem sweep_enqueued (s : Store) (env : UpdateEnv) :
    ∀ job, .enqueueDB job ∈ (s.updateFiveSeconds env).2 →
      ∃ wstr data, data.status.ended ∧ job = soldJob (env.block wstr) data := by
  unfold updateFiveSeconds
  split
  · refine UnorderedMap.sweep_invariant (fun turn : Store × List Effect => turn.1.imminentList)
      (P := fun turn => ∀ job, .enqueueDB job ∈ turn.2 →
        ∃ wstr data, data.status.ended ∧ job = soldJob (env.block wstr) data)
      (s := (s, [])) (visit_imminent_others _) ?_ fun job member => by cases member
    rintro wstr pData ⟨turn, effects⟩ sold found job member
    unfold visitImminent at member
    dsimp only at member
    split at member
    · rcases List.mem_append.mp member with member | member
      · rcases List.mem_append.mp member with member | member
        · exact sold job member
        · exact (set_no_job member).elim
      · refine ⟨wstr, _, ?_, Effect.enqueueDB.inj (List.mem_singleton.mp member)⟩
        rw [AuctionBook.auctions_finish, if_pos rfl]
        exact AuctionBook.finish_status_ended _
    · exact sold job member
  · exact fun job member => by cases member

private theorem job_enqueued {env : JobEnv} {task : Job} (ran : s.runJob env task = .ok (s', effects))
    (member : .enqueueDB job ∈ effects) : ∃ request, Made s (.job task env) request env.block ∧
      job = request.job env.block := by
  cases task with
  | onClientJoin sessionID =>
    cases ran
    cases member
  | onClientLeave sessionID =>
    cases ran
    cases member
  | nicknameChangeAble accountNo =>
    cases job_turn ran
    cases member
  | onRecv sessionID pPacket =>
    rcases client_recv_cases ran with ⟨_, rfl, _⟩ | ⟨player, ret, processed, known, _, proc, rfl⟩
    · cases member
    · have processed : .enqueueDB job ∈ processed := by
        cases ret with
        | true => exact member
        | false =>
          rcases List.mem_append.mp member with member | member
          · exact member
          · cases List.mem_singleton.mp member
      rcases packet_enqueued proc processed with rfl | ⟨target, rfl⟩
      · exact ⟨_, .registerCheck known, rfl⟩
      · exact ⟨_, .changeCheck known, rfl⟩
  | nicknameRegisterAble sessionID accountNo =>
    cases job_turn ran with
    | registerRefused _ flag full => cases List.mem_singleton.mp member
    | registerUnasked _ slot unasked => cases member
    | registerUnknown _ slot asked unknown => cases member
    | register _ slot asked known =>
      rcases List.mem_cons.mp member with first | member
      · cases first
      · refine ⟨_, .registered (registration_found slot asked known), ?_⟩
        exact Effect.enqueueDB.inj (List.mem_singleton.mp member)

/-- Every job for the database thread is about one of the requests, in a block
that is otherwise as it was. -/
theorem enqueued_made {step : LogicStep} (ran : s.Takes (step, effects) s')
    (member : .enqueueDB job ∈ effects) : ∃ request block, Made s step request block ∧
      job = request.job block := by
  cases step with
  | update env =>
    obtain ⟨midway, _, _, rfl⟩ := update_cases ran
    obtain ⟨wstr, data, ended, rfl⟩ := sweep_enqueued midway env job member
    exact ⟨_, _, .sold ended, rfl⟩
  | job task env =>
    obtain ⟨request, made, rfl⟩ := job_enqueued ran member
    exact ⟨request, _, made, rfl⟩

end Enqueued

/-! ## What the database thread reads -/

section Reads
variable {job : DBCheckJob} {row : Option Int64} {item : JobItem} (nickName target : NickName)

omit target in
/-- The second nickname is copied, whatever the job is. -/
theorem db_access_unterminated (mine : job.myNickName = nickName.chars)
    (overlong : wcscpyS job.targetNickName = .error .abort) :
    dbAccess job row item = .error .abort := by
  unfold dbAccess
  rw [mine, wcscpyS_chars, overlong]
  rfl

theorem change_check_access (type : job.jobType = .nicknameChangeCheck)
    (mine : job.myNickName = nickName.chars) (targets : wcscpyS job.targetNickName = .ok target) :
    dbAccess job row item = .ok (.query (.soldOwner target.chars) ::
      if row = some job.accountNo then [.fill (ableItem item .nicknameChangeAble job), .setEvent]
      else [.send job.sessionID (.resChangeNickname .fail)]) := by
  unfold dbAccess
  rw [mine, targets, wcscpyS_chars, type]
  rfl

theorem register_check_access
    (type : job.jobType = .nicknameRegisterCheck) (mine : job.myNickName = nickName.chars)
    (targets : wcscpyS job.targetNickName = .ok target) :
    dbAccess job row item = .ok (.query (.soldExists target.chars) ::
      if row ≠ none then [.send job.sessionID (.resSale .failSold)]
      else [.fill (ableItem item .nicknameRegisterAble job), .setEvent]) := by
  unfold dbAccess
  rw [mine, targets, wcscpyS_chars, type]
  rfl

theorem sold_access (type : job.jobType = .nicknameSold)
    (mine : job.myNickName = nickName.chars) (targets : wcscpyS job.targetNickName = .ok target) :
    dbAccess job row item = .ok (.query (.deleteCelling nickName.chars) ::
      if job.accountNo ≠ 0 then
        [.query (.insertSold nickName.chars job.accountNo job.endTime job.count)]
      else []) := by
  unfold dbAccess
  rw [mine, targets, wcscpyS_chars, type]
  rfl

end Reads

/-! ## Contents that show -/

/-- A block that held this nickname and this end time. -/
def holding (targetNickName : WString) (endTime : UInt64) : DBCheckJob :=
  ⟨.onClientJoin, 0, 0, endTime, 0, [], targetNickName⟩

theorem holding_short (letter : List UInt16) (short : letter.length < nicknameMaxLength)
    (plain : 0 ∉ letter) (endTime : UInt64) : Terminated (holding letter endTime) :=
  ⟨⟨letter, short, plain⟩, wcscpyS_chars ⟨letter, short, plain⟩⟩

/-- A job of `JobPool` to be filled. -/
def freshItem : JobItem := ⟨.onClientJoin, 0, 0, []⟩

section Shows
variable {contents : DBCheckJob → Prop}

/-- The sale check asks about whatever nickname the block held. -/
theorem register_check_stale (empty : contents (holding [] 0)) (other : contents (holding [1] 0))
    (pPlayer : Player) (sessionID : Int64) : ¬OwnData contents (.registerCheck pPlayer sessionID) := by
  intro own
  have same := own.same _ _ empty other none freshItem
  have first : dbAccess ((Request.registerCheck pPlayer sessionID).job (holding [] 0)) none freshItem = _ :=
    register_check_access pPlayer.nickName ⟨[], by decide, by decide⟩ rfl rfl rfl
  have second : dbAccess ((Request.registerCheck pPlayer sessionID).job (holding [1] 0)) none freshItem = _ :=
    register_check_access pPlayer.nickName ⟨[1], by decide, by decide⟩ rfl rfl rfl
  rw [first, second] at same
  have queries := (List.cons.inj (Except.ok.inj same)).1
  cases queries

/-- So does the job of a registration, which is not put into `cellingtable`. -/
theorem registered_stale (empty : contents (holding [] 0)) (other : contents (holding [1] 0))
    (sessionID : Int64) (data : AuctionData) : ¬OwnData contents (.registered sessionID data) := by
  intro own
  have same := own.same _ _ empty other none freshItem
  have first : dbAccess ((Request.registered sessionID data).job (holding [] 0)) none freshItem = _ :=
    change_check_access data.nickName ⟨[], by decide, by decide⟩ rfl rfl rfl
  have second : dbAccess ((Request.registered sessionID data).job (holding [1] 0)) none freshItem = _ :=
    change_check_access data.nickName ⟨[1], by decide, by decide⟩ rfl rfl rfl
  rw [first, second] at same
  have queries := (List.cons.inj (Except.ok.inj same)).1
  cases queries

/-- A won auction goes into `soldtable` with whatever end time the block held. -/
theorem won_stale (zero : contents (holding [] 0)) (one : contents (holding [] 1)) {data : AuctionData}
    (won : data.bidderID ≠ 0) : ¬OwnData contents (.sold data) := by
  intro own
  have same := own.same _ _ zero one none freshItem
  have first : dbAccess ((Request.sold data).job (holding [] 0)) none freshItem = _ :=
    sold_access data.nickName ⟨[], by decide, by decide⟩ rfl rfl rfl
  have second : dbAccess ((Request.sold data).job (holding [] 1)) none freshItem = _ :=
    sold_access data.nickName ⟨[], by decide, by decide⟩ rfl rfl rfl
  have bidder (endTime : UInt64) : ((Request.sold data).job (holding [] endTime)).accountNo ≠ 0 := won
  rw [first, second, if_pos (bidder 0), if_pos (bidder 1)] at same
  have inserts := (List.cons.inj (List.cons.inj (Except.ok.inj same)).2).1
  have ends : (0 : UInt64) = 1 := (DBQuery.insertSold.inj (DBEffect.query.inj inserts)).2.2.1
  exact absurd ends (by decide)

/-- The request for a change writes all that is read. -/
theorem change_check_own (pPlayer : Player) (sessionID : Int64) (targetNickName : NickName) :
    OwnData contents (.changeCheck pPlayer sessionID targetNickName) := by
  have access (block : DBCheckJob) (row : Option Int64) (item : JobItem) :
      dbAccess ((Request.changeCheck pPlayer sessionID targetNickName).job block) row item = _ :=
    change_check_access pPlayer.nickName targetNickName rfl rfl (wcscpyS_chars targetNickName)
  refine ⟨fun block block' _ _ row item => ?_, fun block _ row item => ⟨_, access block row item, ?_⟩⟩
  · rw [access, access]
    rfl
  · intro query member
    obtain rfl := List.mem_singleton.mp member
    exact List.mem_cons_self

/-- A failed auction is only taken out of `cellingtable`. -/
theorem unsold_own {data : AuctionData} (unsold : data.bidderID = 0) :
    OwnData Terminated (.sold data) := by
  have access {block : DBCheckJob} (terminated : Terminated block) (row : Option Int64) (item : JobItem) :
      dbAccess ((Request.sold data).job block) row item =
        .ok [.query (.deleteCelling data.nickName.chars)] := by
    obtain ⟨target, names⟩ := terminated
    have bidder : ((Request.sold data).job block).accountNo = 0 := unsold
    have ends : dbAccess ((Request.sold data).job block) row item = _ :=
      sold_access data.nickName target rfl rfl names
    rw [ends, if_neg (not_not.mpr bidder)]
  refine ⟨fun block block' first second row item => ?_, fun block terminated row item =>
    ⟨_, access terminated row item, fun query member => ?_⟩⟩
  · rw [access first, access second]
  · rw [Request.asked, if_neg (not_not.mpr unsold)] at member
    cases member

/-- With an unterminated nickname in the block, the end of an auction aborts. -/
theorem sold_stale
    (overlong : contents (holding (List.replicate nicknameMaxLength 1) 0)) (data : AuctionData) :
    ¬OwnData contents (.sold data) := by
  intro own
  obtain ⟨effects, ran, _⟩ := own.asked _ overlong none freshItem
  have aborts : dbAccess ((Request.sold data).job (holding (List.replicate nicknameMaxLength 1) 0))
      none freshItem = .error .abort := db_access_unterminated data.nickName rfl rfl
  cases aborts.symm.trans ran

end Shows

/-- The requests that carry their own data only: a nickname change; and, if the
nicknames in blocks are terminated, the end of an auction nobody has bid on. -/
theorem own_data_iff (request : Request) :
    (OwnData (fun _ => True) request ↔ request.IsChange) ∧
    (OwnData Terminated request ↔ request.IsChange ∨ request.IsUnsold) := by
  have empty := holding_short [] (by decide) (by decide)
  have other := holding_short [1] (by decide) (by decide)
  cases request with
  | registerCheck pPlayer sessionID =>
    exact ⟨iff_of_false (register_check_stale trivial trivial _ _) id,
      iff_of_false (register_check_stale (empty 0) (other 0) _ _) fun either => either.elim id id⟩
  | changeCheck pPlayer sessionID targetNickName =>
    exact ⟨iff_of_true (change_check_own _ _ _) trivial,
      iff_of_true (change_check_own _ _ _) (.inl trivial)⟩
  | registered sessionID data =>
    exact ⟨iff_of_false (registered_stale trivial trivial _ _) id,
      iff_of_false (registered_stale (empty 0) (other 0) _ _) fun either => either.elim id id⟩
  | sold data =>
    refine ⟨iff_of_false (sold_stale trivial data) id, ⟨fun own => .inr ?_, fun either => ?_⟩⟩
    · by_contra won
      exact won_stale (empty 0) (empty 1) won own
    · exact unsold_own (either.resolve_left id)

/-- A player asks for a sale of "NULL", in a block that was about "B" before: the
database is asked whether "B" has been sold. -/
theorem sale_check_asks_other : ∃ s s' : Store,
    Run Steps emptyStore [.job (.onClientJoin 0) (.zero 0)] s ∧
    s.Takes (.job (.onRecv 0 saleRequest) { JobEnv.zero 0 with
      block := holding [66] 0 },
      [.enqueueDB ((Request.registerCheck (joined 0) 0).job (holding [66] 0))]) s' ∧
    (∃ follow, dbAccess ((Request.registerCheck (joined 0) 0).job (holding [66] 0)) none freshItem =
      .ok (.query (.soldExists [66]) :: follow)) ∧
    ¬OwnData Terminated (.registerCheck (joined 0) 0) := by
  have run : ∃ s s' : Store, Run Steps emptyStore [.job (.onClientJoin 0) (.zero 0)] s ∧
      s.Takes (.job (.onRecv 0 saleRequest) { JobEnv.zero 0 with
        block := holding [66] 0 },
        [.enqueueDB ((Request.registerCheck (joined 0) 0).job (holding [66] 0))]) s' :=
    ⟨_, _, .single ⟨_, rfl⟩, rfl⟩
  obtain ⟨s, s', joins, asks⟩ := run
  exact ⟨s, s', joins, asks, ⟨_, rfl⟩,
    register_check_stale (holding_short [] (by decide) (by decide) 0)
      (holding_short [1] (by decide) (by decide) 0) _ _⟩

end NewNameAuction.DatabaseFields
