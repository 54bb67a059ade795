import NewNameAuction.AuctionTurns

/-! What one step of the logic thread can do. A job changes the book of auctions
by at most one event, which the store before it decides; `Update` changes it by
auctions becoming imminent, then by auctions ending. -/
namespace NewNameAuction
open ByteMemory

namespace Store

/-! ## Database jobs about sold nicknames -/

section Sends
variable {α : Type} {f : Effect → Option α}

/-- What is not about packets is not among packets. -/
theorem filterMap_sends (silent : ∀ sessionID reply, f (.send sessionID reply) = none)
    (sessionID : Int64) (replies : List Reply) : (replies.map (.send sessionID)).filterMap f = [] := by
  induction replies with
  | nil => rfl
  | cons reply replies ih => exact (List.filterMap_cons_none (silent sessionID reply)).trans ih

theorem filterMap_send_to_set (silent : ∀ sessionID reply, f (.send sessionID reply) = none)
    (set : List Int64) (reply : Reply) : (sendToSet set reply).filterMap f = [] := by
  induction set with
  | nil => rfl
  | cons sessionID set ih => exact (List.filterMap_cons_none (silent sessionID reply)).trans ih

end Sends

/-- The `NICKNAME_SOLD` jobs among some effects. -/
def soldJobs (effects : List Effect) : List DBCheckJob :=
  effects.filterMap fun
    | .enqueueDB job => if job.jobType = .nicknameSold then some job else none
    | _ => none

@[simp] theorem sold_jobs_nil : soldJobs [] = [] := rfl

@[simp] theorem sold_jobs_append (first second : List Effect) :
    soldJobs (first ++ second) = soldJobs first ++ soldJobs second :=
  List.filterMap_append

@[simp] theorem sold_jobs_disconnect (sessionID : Int64) (effects : List Effect) :
    soldJobs (.disconnect sessionID :: effects) = soldJobs effects := rfl

@[simp] theorem sold_jobs_sends (sessionID : Int64) (replies : List Reply) :
    soldJobs (replies.map (.send sessionID)) = [] :=
  filterMap_sends (fun _ _ => rfl) sessionID replies

@[simp] theorem sold_jobs_send_to_set (set : List Int64) (reply : Reply) :
    soldJobs (sendToSet set reply) = [] :=
  filterMap_send_to_set (fun _ _ => rfl) set reply

theorem sold_jobs_other {job : DBCheckJob} (other : job.jobType ≠ .nicknameSold)
    (effects : List Effect) : soldJobs (.enqueueDB job :: effects) = soldJobs effects := by
  simp [soldJobs, other]

/-! ## Packets and jobs -/

/-- No packet queues a `NICKNAME_SOLD` job, and only an accepted bid changes the
book. -/
theorem packet_event {locals : Locals} {s s' : Store} {pPlayer : Player} {pPacket : Bytes}
    {sessionID : Int64} {packetType : UInt16} {effects : List Effect}
    (turn : PacketTurn locals s pPlayer pPacket sessionID packetType s' effects) :
    soldJobs effects = [] ∧
      match (if packetType = 5 then s.acceptedBid locals pPlayer pPacket else none) with
      | none => s'.toAuctionBook = s.toAuctionBook
      | some pData => s'.toAuctionBook =
          s.toAuctionBook.bid pData pPlayer.accountNo (readBid locals pPacket).2 := by
  cases turn with
  | saleRefused type =>
    subst type
    exact ⟨rfl, rfl⟩
  | sale terms job type check =>
    subst type
    exact ⟨sold_jobs_other (by rw [check]; decide) [], rfl⟩
  | search replies type =>
    subst type
    exact ⟨sold_jobs_sends _ _, rfl⟩
  | bidRefused type refused =>
    rw [if_pos type, refused]
    exact ⟨rfl, rfl⟩
  | bid ownList type accepted =>
    rw [if_pos type, accepted]
    exact ⟨sold_jobs_send_to_set _ _, rfl⟩
  | changeNickname ownList job type check =>
    subst type
    exact ⟨sold_jobs_other (by rw [check]; decide) [], rfl⟩
  | unknownPlayer type unknown =>
    subst type
    exact ⟨rfl, rfl⟩
  | playerInfo nickName replies type known copied =>
    subst type
    exact ⟨sold_jobs_sends _ _, rfl⟩
  | unknownType other =>
    rw [if_neg fun type => other (by simp [type])]
    exact ⟨rfl, rfl⟩

section Jobs
variable {env : JobEnv} {s s' : Store} {job : Job} {effects : List Effect}

/-- A bid that is accepted. -/
structure AcceptedBid where
  pData : AuctionRef
  pPlayer : Player
  price : Int32

/-- The bid a job makes and has accepted. -/
def bidOf (s : Store) (env : JobEnv) : Job → Option AcceptedBid
  | .onRecv sessionID pPacket =>
    match s.playerList.find sessionID with
    | none => none
    | some player =>
      if (player.sessionID = sessionID ∧ player.isValid = true) ∧ (s.readType pPacket).1 = 5 then
        (s.acceptedBid env.locals player (s.readType pPacket).2).map fun pData =>
          ⟨pData, player, (readBid env.locals (s.readType pPacket).2).2⟩
      else none
  | _ => none

/-- The auction a job creates. -/
def registration (s : Store) (env : JobEnv) : Job → Option AuctionData
  | .nicknameRegisterAble _ accountNo =>
    if ((s.ownList.find accountNo).getD .empty).count ≥ maxUserSlot ∨
        s.numOfSales ≥ maxServerSlot then none
    else
      match s.waitingDataList.find accountNo, s.playerList.find accountNo with
      | some terms, some pPlayer => some (newAuction env.curTime accountNo terms pPlayer.nickName)
      | _, _ => none
  | _ => none

theorem registration_found {sessionID accountNo : Int64} {terms : InitData}
    {pPlayer : Player} (slot : ¬s.NoSlot accountNo)
    (waiting : s.waitingDataList.find accountNo = some terms)
    (known : s.playerList.find accountNo = some pPlayer) :
    s.registration env (.nicknameRegisterAble sessionID accountNo) =
      some (newAuction env.curTime accountNo terms pPlayer.nickName) := by
  dsimp only [registration]
  rw [if_neg slot, waiting, known]

theorem registration_some {sessionID accountNo : Int64} {data : AuctionData}
    (made : s.registration env (.nicknameRegisterAble sessionID accountNo) = some data) :
    ¬s.NoSlot accountNo ∧ ∃ terms pPlayer, s.waitingDataList.find accountNo = some terms ∧
      s.playerList.find accountNo = some pPlayer ∧
      data = newAuction env.curTime accountNo terms pPlayer.nickName := by
  dsimp only [registration] at made
  split at made
  · cases made
  · rename_i slot
    split at made
    · rename_i terms pPlayer waiting known
      exact ⟨slot, terms, pPlayer, waiting, known, (Option.some.inj made).symm⟩
    · cases made

/-- The event of a job. -/
def jobEvent (s : Store) (env : JobEnv) (job : Job) : Option AuctionBook.Event :=
  match s.bidOf env job with
  | some bid => some (.bid bid.pData bid.pPlayer.accountNo bid.price)
  | none => (s.registration env job).map .registered

theorem job_event_cases {event : AuctionBook.Event} (made : s.jobEvent env job = some event) :
    (∃ data, event = .registered data ∧ s.registration env job = some data) ∨
      ∃ bid, event = .bid bid.pData bid.pPlayer.accountNo bid.price ∧ s.bidOf env job = some bid := by
  unfold jobEvent at made
  split at made
  · rename_i bid accepted
    cases made
    exact .inr ⟨bid, rfl, accepted⟩
  · obtain ⟨data, registered, rfl⟩ := Option.map_eq_some_iff.mp made
    exact .inl ⟨data, rfl, registered⟩

/-- Only `REGISTER_ABLE` creates an auction. -/
theorem registration_made {data : AuctionData} (made : s.registration env job = some data) :
    ∃ sessionID accountNo, job = .nicknameRegisterAble sessionID accountNo ∧ ¬s.NoSlot accountNo ∧
      ∃ terms pPlayer, s.waitingDataList.find accountNo = some terms ∧
        s.playerList.find accountNo = some pPlayer ∧
        data = newAuction env.curTime accountNo terms pPlayer.nickName := by
  cases job with
  | onRecv sessionID pPacket => cases made
  | nicknameRegisterAble sessionID accountNo => exact ⟨sessionID, accountNo, rfl, registration_some made⟩
  | onClientJoin sessionID => cases made
  | onClientLeave sessionID => cases made
  | nicknameChangeAble accountNo => cases made

/-- A job that creates an auction makes no bid. -/
theorem registration_unbid {data : AuctionData} (made : s.registration env job = some data) :
    s.bidOf env job = none := by
  obtain ⟨sessionID, accountNo, rfl, _⟩ := registration_made made
  rfl

theorem bid_unregistered {bid : AcceptedBid} (accepted : s.bidOf env job = some bid) :
    s.registration env job = none := by
  cases made : s.registration env job with
  | none => rfl
  | some data => cases (registration_unbid made).symm.trans accepted

theorem job_event_registered {data : AuctionData} (made : s.registration env job = some data) :
    s.jobEvent env job = some (.registered data) := by
  rw [jobEvent, registration_unbid made, made]
  rfl

theorem job_event_bid {bid : AcceptedBid} (accepted : s.bidOf env job = some bid) :
    s.jobEvent env job = some (.bid bid.pData bid.pPlayer.accountNo bid.price) := by
  rw [jobEvent, accepted]

/-- A job makes its one event, and queues no `NICKNAME_SOLD` job. -/
theorem job_event (ran : s.runJob env job = .ok (s', effects)) :
    soldJobs effects = [] ∧
      match s.jobEvent env job with
      | none => s'.toAuctionBook = s.toAuctionBook
      | some event => AuctionBook.Step s.toAuctionBook event s'.toAuctionBook := by
  cases job_turn ran with
  | join sessionID => exact ⟨rfl, rfl⟩
  | leaveUnknown unknown => exact ⟨rfl, rfl⟩
  | leave known => exact ⟨rfl, rfl⟩
  | changeAble accountNo ownList => exact ⟨rfl, rfl⟩
  | @dropped sessionID pPacket refused =>
    refine ⟨rfl, ?_⟩
    dsimp only [jobEvent, bidOf, registration]
    cases known : s.playerList.find sessionID with
    | none => rfl
    | some player =>
      dsimp only
      rw [if_neg fun both => refused player known both.1]
      rfl
  | @packet sessionID pPacket player _ processed ret known own turn =>
    obtain ⟨sold, book⟩ := packet_event turn
    refine ⟨by cases ret <;> simp [sold], ?_⟩
    dsimp only [jobEvent, bidOf, registration]
    rw [known]
    dsimp only
    by_cases type : (s.readType pPacket).1 = 5
    · rw [if_pos type] at book
      rw [if_pos ⟨own, type⟩]
      change match s.acceptedBid env.locals player (s.readType pPacket).2 with
        | none => s'.toAuctionBook = s.toAuctionBook
        | some pData => s'.toAuctionBook = s.toAuctionBook.bid pData player.accountNo
            (readBid env.locals (s.readType pPacket).2).2 at book
      cases accepted : s.acceptedBid env.locals player (s.readType pPacket).2 with
      | none =>
        rw [accepted] at book
        exact book
      | some pData =>
        rw [accepted] at book
        obtain ⟨_, found, higher, other⟩ := accepted_bid_some accepted
        exact book ▸ AuctionBook.Step.bid found higher other
    · rw [if_neg type] at book
      rw [if_neg fun both => type both.2]
      exact book
  | registerRefused sessionID flag full =>
    refine ⟨rfl, ?_⟩
    dsimp only [jobEvent, bidOf, registration]
    rw [if_pos full]
    rfl
  | registerUnasked sessionID slot unasked =>
    refine ⟨rfl, ?_⟩
    dsimp only [jobEvent, bidOf, registration]
    rw [if_neg slot, unasked]
    rfl
  | registerUnknown sessionID slot asked unknown =>
    refine ⟨rfl, ?_⟩
    dsimp only [jobEvent, bidOf, registration]
    rw [if_neg slot, asked, unknown]
    rfl
  | register sessionID slot asked known =>
    refine ⟨rfl, ?_⟩
    dsimp only [jobEvent, bidOf, registration]
    rw [if_neg slot, asked, known]
    exact AuctionBook.Step.registered rfl rfl rfl

/-- An accepted bid is for an auction that is found, is higher, and by somebody else. -/
theorem job_bid {bid : AcceptedBid} (accepted : s.bidOf env job = some bid)
    (ran : s.runJob env job = .ok (s', effects)) :
    s'.toAuctionBook = s.toAuctionBook.bid bid.pData bid.pPlayer.accountNo bid.price ∧
      (∃ wstr, s.toAuctionBook.find wstr = some bid.pData) ∧
      (s.auctions bid.pData).price < bid.price ∧
      (s.auctions bid.pData).ownerID ≠ bid.pPlayer.accountNo := by
  obtain ⟨_, book⟩ := job_event ran
  rw [job_event_bid accepted] at book
  exact ⟨book.bid_eq, book.bid_checked⟩

theorem job_registered {data : AuctionData} (made : s.registration env job = some data)
    (ran : s.runJob env job = .ok (s', effects)) :
    s'.toAuctionBook = s.toAuctionBook.register data := by
  obtain ⟨_, book⟩ := job_event ran
  rw [job_event_registered made] at book
  exact book.registered_eq

/-- A job without a bid and without a registration keeps the book. -/
theorem job_unchanged (unbid : s.bidOf env job = none) (unmade : s.registration env job = none)
    (ran : s.runJob env job = .ok (s', effects)) : s'.toAuctionBook = s.toAuctionBook := by
  obtain ⟨_, book⟩ := job_event ran
  rw [jobEvent, unbid, unmade] at book
  exact book

/-- Only a registration lists an auction by its price, and counts it. -/
theorem job_registers (ran : s.runJob env job = .ok (s', effects)) :
    match s.registration env job with
    | none => s'.cellListPriceOrder = s.cellListPriceOrder ∧ s'.numOfSales = s.numOfSales
    | some data =>
      s'.cellListPriceOrder = insertPrice s.cellListPriceOrder data.price s.nextAuction ∧
        s'.numOfSales = s.numOfSales + 1 := by
  cases job_turn ran with
  | join sessionID => exact ⟨rfl, rfl⟩
  | leaveUnknown unknown => exact ⟨rfl, rfl⟩
  | leave known => exact ⟨rfl, rfl⟩
  | changeAble accountNo ownList => exact ⟨rfl, rfl⟩
  | dropped refused => exact ⟨rfl, rfl⟩
  | packet ret known own turn =>
    cases turn with
    | saleRefused type => exact ⟨rfl, rfl⟩
    | sale terms job type check => exact ⟨rfl, rfl⟩
    | search replies type => exact ⟨rfl, rfl⟩
    | bidRefused type refused => exact ⟨rfl, rfl⟩
    | bid ownList type accepted => exact ⟨rfl, rfl⟩
    | changeNickname ownList job type check => exact ⟨rfl, rfl⟩
    | unknownPlayer type unknown => exact ⟨rfl, rfl⟩
    | playerInfo nickName replies type known copied => exact ⟨rfl, rfl⟩
    | unknownType other => exact ⟨rfl, rfl⟩
  | registerRefused sessionID flag full =>
    dsimp only [registration]
    rw [if_pos full]
    exact ⟨rfl, rfl⟩
  | registerUnasked sessionID slot unasked =>
    dsimp only [registration]
    rw [if_neg slot, unasked]
    exact ⟨rfl, rfl⟩
  | registerUnknown sessionID slot asked unknown =>
    dsimp only [registration]
    rw [if_neg slot, asked, unknown]
    exact ⟨rfl, rfl⟩
  | register sessionID slot asked known =>
    rw [registration_found slot asked known]
    exact ⟨rfl, rfl⟩

/-- An accepted bid is paid by the player of the session, and the price is what
he had. -/
theorem accepted_bid_paid {bid : AcceptedBid} (accepted : s.bidOf env job = some bid)
    (ran : s.runJob env job = .ok (s', effects)) :
    ∃ sessionID, s.playerList.find sessionID = some bid.pPlayer ∧ bid.pPlayer.sessionID = sessionID ∧
      bid.pPlayer.point = bid.price ∧ s'.playerList = s.playerList.assign sessionID
        { bid.pPlayer with point := bid.pPlayer.point - bid.price } := by
  cases job_turn ran with
  | join sessionID => cases accepted
  | leaveUnknown unknown => cases accepted
  | leave known => cases accepted
  | changeAble accountNo ownList => cases accepted
  | registerRefused sessionID flag full => cases accepted
  | registerUnasked sessionID slot unasked => cases accepted
  | registerUnknown sessionID slot asked unknown => cases accepted
  | register sessionID slot asked known => cases accepted
  | dropped refused =>
    dsimp only [bidOf] at accepted
    split at accepted
    · cases accepted
    · rename_i player known
      rw [if_neg fun both => refused player known both.1] at accepted
      cases accepted
  | @packet sessionID pPacket player _ processed ret known own turn =>
    dsimp only [bidOf] at accepted
    rw [known] at accepted
    dsimp only at accepted
    split at accepted
    · rename_i bidding
      obtain ⟨pData, accepts, rfl⟩ := Option.map_eq_some_iff.mp accepted
      have accepts : (s.withType (s.readType pPacket).1).acceptedBid env.locals player
          (s.readType pPacket).2 = some pData := accepts
      obtain ⟨refused, _⟩ | ⟨_, ownList, takes, rfl⟩ := bid_turn bidding.2 turn
      · cases refused.symm.trans accepts
      · cases takes.symm.trans accepts
        exact ⟨sessionID, known, own.1, (accepted_bid_some accepts).1, rfl⟩
    · cases accepted

/-- A bid that is not accepted leaves everything but the type word alone. -/
theorem refused_bid_idle {sessionID : Int64} {pPacket : Bytes}
    (type : (s.readType pPacket).1 = 5) (refused : s.bidOf env (.onRecv sessionID pPacket) = none)
    (ran : s.runJob env (.onRecv sessionID pPacket) = .ok (s', effects)) :
    s' = s.withType 5 := by
  cases job_turn ran with
  | dropped none => rw [type]
  | @packet _ _ player _ processed ret known own turn =>
    dsimp only [bidOf] at refused
    rw [known] at refused
    dsimp only at refused
    rw [if_pos ⟨own, type⟩, Option.map_eq_none_iff] at refused
    obtain ⟨_, rfl⟩ | ⟨pData, ownList, accepts, _⟩ := bid_turn type turn
    · rw [type]
    · cases refused.symm.trans accepts

end Jobs

/-! ## The two halves of `Update` -/

section Update
variable {env : UpdateEnv} {s s' : Store} {effects : List Effect}

theorem visit_cell_others (wstr : WString) (pData : AuctionRef) (s : Store) (key : WString)
    (apart : key ≠ wstr) :
    (visitCell env wstr pData s).cellList.find key = s.cellList.find key := by
  unfold visitCell
  split
  · rw [AuctionBook.cellList_moveToImminent, UnorderedMap.find_erase, if_neg apart]
  · rfl

/-- What each turn of the loop over `CellList` keeps of the book, the loop keeps,
and nothing but the book changes. -/
theorem sweep_cells_book {P : AuctionBook → Prop}
    (kept : ∀ (b : AuctionBook) wstr pData, P b → b.cellList.find wstr = some pData →
      (b.auctions pData).endTime < env.curTime → P (b.moveToImminent wstr pData (env.draw wstr)))
    (start : P s.toAuctionBook) :
    ∃ book, UnorderedMap.sweep (visitCell env) s.cellList.entries s = { s with toAuctionBook := book } ∧
      P book := by
  refine UnorderedMap.sweep_invariant (fun t : Store => t.cellList)
    (P := fun t => ∃ book, t = { s with toAuctionBook := book } ∧ P book) visit_cell_others ?_
    ⟨s.toAuctionBook, rfl, start⟩
  rintro wstr pData _ ⟨book, rfl, holds⟩ found
  unfold visitCell
  split
  · rename_i due
    exact ⟨_, rfl, kept book wstr pData holds found due⟩
  · exact ⟨book, rfl, holds⟩

/-- A loop that returned met a last auction that stays, and changed nothing. -/
theorem trim24_ok : s.trimTimeOrder24 = .ok s' ↔
    s' = s ∧ ∀ pData ∈ s.cellListTimeOrder24.getLast?, ¬(s.auctions pData).status.ended := by
  unfold trimTimeOrder24
  cases s.cellListTimeOrder24.getLast? with
  | none => simp [eq_comm]
  | some pData =>
    dsimp only
    by_cases done : (s.auctions pData).status.ended
    · rw [if_pos done]
      exact iff_of_false (fun ran => by cases ran) fun kept => kept.2 pData rfl done
    · rw [if_neg done]
      exact ⟨fun ran => ⟨(Except.ok.inj ran).symm, fun _ last => Option.some.inj last ▸ done⟩,
        fun kept => congrArg Except.ok kept.1.symm⟩

theorem trim48_ok : s.trimTimeOrder48 env = .ok s' ↔
    s' = s ∧ ∀ pData ∈ s.cellListTimeOrder48.getLast?,
      ¬(s.auctions pData).endTime < env.curTime + 1000 * 60 * 60 * 24 := by
  unfold trimTimeOrder48
  cases s.cellListTimeOrder48.getLast? with
  | none => simp [eq_comm]
  | some pData =>
    dsimp only
    by_cases soon : (s.auctions pData).endTime < env.curTime + 1000 * 60 * 60 * 24
    · rw [if_pos soon]
      exact iff_of_false (fun ran => by cases ran) fun kept => kept.2 pData rfl soon
    · rw [if_neg soon]
      exact ⟨fun ran => ⟨(Except.ok.inj ran).symm, fun _ last => Option.some.inj last ▸ soon⟩,
        fun kept => congrArg Except.ok kept.1.symm⟩

/-- A loop that does not return erases the end. -/
theorem trim_fault {fault : Fault} (failed : s.trimTimeOrder24 >>= trimTimeOrder48 env = .error fault) :
    fault = .endIterator := by
  rcases bind_error.mp failed with first | ⟨_, _, second⟩
  · unfold trimTimeOrder24 at first
    split at first
    · cases first
    · split at first
      · exact (Except.error.inj first).symm
      · cases first
  · unfold trimTimeOrder48 at second
    split at second
    · cases second
    · split at second
      · exact (Except.error.inj second).symm
      · cases second

theorem trim_time_orders_ok (ran : s.trimTimeOrders env = .ok s') :
    ∃ timeOrder24 timeOrder48, s' = { s with
      cellListTimeOrder24 := timeOrder24
      cellListTimeOrder48 := timeOrder48 } := by
  unfold trimTimeOrders at ran
  split at ran
  · rename_i trim
    obtain ⟨first, trim24, trim48⟩ := bind_ok.mp trim
    obtain ⟨rfl, _⟩ := trim24_ok.mp trim24
    obtain ⟨rfl, _⟩ := trim48_ok.mp trim48
    cases ran
    exact ⟨_, _, rfl⟩
  · cases ran
  · cases ran
    exact ⟨_, _, rfl⟩

/-- The first half moves due entries of `CellList` one by one, and otherwise
touches the time-ordered lists and the price order. -/
theorem update_minute_cases {P : AuctionBook → Prop} (ran : s.updateMinute env = .ok s')
    (kept : s.elapsed env 60000 → ∀ (b : AuctionBook) wstr pData, P b → b.cellList.find wstr = some pData →
      (b.auctions pData).endTime < env.curTime → P (b.moveToImminent wstr pData (env.draw wstr)))
    (start : P s.toAuctionBook) :
    P s'.toAuctionBook ∧ ∃ timeOrder24 timeOrder48 priceOrder, s' = { s with
      toAuctionBook := s'.toAuctionBook
      cellListTimeOrder24 := timeOrder24
      cellListTimeOrder48 := timeOrder48
      cellListPriceOrder := priceOrder } := by
  unfold updateMinute at ran
  split at ran
  · rename_i elapsed
    obtain ⟨trimmed, trim, ran⟩ := bind_ok.mp ran
    obtain ⟨book, swept, holds⟩ := sweep_cells_book (kept elapsed) start
    rw [swept] at trim
    obtain ⟨timeOrder24, timeOrder48, rfl⟩ := trim_time_orders_ok trim
    cases ran
    exact ⟨holds, _, _, _, rfl⟩
  · cases ran
    exact ⟨start, _, _, _, rfl⟩

/-- The first half does not touch the time stamp. -/
theorem update_minute_elapsed (ran : s.updateMinute env = .ok s') (interval : UInt64) :
    s'.elapsed env interval ↔ s.elapsed env interval := by
  obtain ⟨_, _, _, _, same⟩ := update_minute_cases (P := fun _ => True) ran
    (fun _ _ _ _ _ _ _ => trivial) trivial
  unfold Store.elapsed
  rw [same]

/-- When the minute is over, the price order keeps what has not ended. -/
theorem update_minute_prices (ran : s.updateMinute env = .ok s') :
    s'.cellListPriceOrder =
      if s.elapsed env 60000 then
        s.cellListPriceOrder.filter fun entry => ¬(s'.auctions entry.2).status.ended
      else s.cellListPriceOrder := by
  unfold updateMinute at ran
  split at ran
  · rename_i elapsed
    rw [if_pos elapsed]
    obtain ⟨trimmed, trim, ran⟩ := bind_ok.mp ran
    obtain ⟨book, swept, _⟩ := @sweep_cells_book env s (fun _ => True)
      (fun _ _ _ _ _ _ => trivial) trivial
    rw [swept] at trim
    obtain ⟨timeOrder24, timeOrder48, rfl⟩ := trim_time_orders_ok trim
    cases ran
    rfl
  · rename_i recent
    cases ran
    rw [if_neg recent]

theorem visit_imminent_others (set : List Int64) (wstr : WString) (pData : AuctionRef)
    (turn : Store × List Effect) (key : WString) (apart : key ≠ wstr) :
    (visitImminent env set wstr pData turn).1.imminentList.find key =
      turn.1.imminentList.find key := by
  unfold visitImminent
  dsimp only
  split
  · rw [AuctionBook.imminentList_finish, UnorderedMap.find_erase, if_neg apart]
  · rfl

/-- The second half ends due entries of `ImminentList` one by one, each with its
`NICKNAME_SOLD` job, and otherwise touches nothing. -/
theorem update_five_seconds_cases (env : UpdateEnv) {P : AuctionBook → List DBCheckJob → Prop}
    (kept : s.elapsed env 5000 → ∀ (b : AuctionBook) sold wstr pData, P b sold →
      b.imminentList.find wstr = some pData →
      (b.auctions pData).endTime < env.curTime →
      P (b.finish wstr pData)
        (sold ++ [soldJob (env.block wstr) ((b.finish wstr pData).auctions pData)]))
    (start : P s.toAuctionBook []) :
    ∃ book, (s.updateFiveSeconds env).1 = { s with toAuctionBook := book } ∧
      P book (soldJobs (s.updateFiveSeconds env).2) := by
  unfold updateFiveSeconds
  split
  · rename_i elapsed
    refine UnorderedMap.sweep_invariant (fun turn : Store × List Effect => turn.1.imminentList)
      (P := fun turn => ∃ book, turn.1 = { s with toAuctionBook := book } ∧ P book (soldJobs turn.2))
      (s := (s, [])) (visit_imminent_others _) ?_ ⟨s.toAuctionBook, rfl, start⟩
    rintro wstr pData ⟨_, effects⟩ ⟨book, rfl, holds⟩ found
    unfold visitImminent
    dsimp only
    split
    · rename_i due
      refine ⟨_, rfl, ?_⟩
      have sold := kept elapsed book _ wstr pData holds found due
      simpa [soldJobs, soldJob, sendToSet] using sold
    · exact ⟨book, rfl, holds⟩
  · exact ⟨s.toAuctionBook, rfl, start⟩

/-- `Update` is its two halves and the new time stamp. -/
theorem update_cases (ran : s.update env = .ok (s', effects)) :
    ∃ midway, s.updateMinute env = .ok midway ∧
      s' = { (midway.updateFiveSeconds env).1 with lastUpdateTime := env.curTime } ∧
      effects = (midway.updateFiveSeconds env).2 := by
  obtain ⟨midway, minute, ran⟩ := bind_ok.mp ran
  cases ran
  exact ⟨midway, minute, rfl, rfl⟩

theorem midway_of_minute {m : Store} (minute : s.updateMinute env = .ok m) :
    s.midway (.update env) = m := by
  rw [Store.midway, minute]

/-- What becoming imminent and ending keep of the book, `Update` keeps. -/
theorem update_book {P : AuctionBook → Prop} (ran : s.update env = .ok (s', effects))
    (moved : ∀ (b : AuctionBook) wstr pData, P b → b.cellList.find wstr = some pData →
      P (b.moveToImminent wstr pData (env.draw wstr)))
    (finished : ∀ (b : AuctionBook) wstr pData, P b → b.imminentList.find wstr = some pData →
      P (b.finish wstr pData)) (start : P s.toAuctionBook) : P s'.toAuctionBook := by
  obtain ⟨midway, minute, rfl, _⟩ := update_cases ran
  obtain ⟨half, _⟩ := update_minute_cases (P := P) minute
    (fun _ b wstr pData holds found _ => moved b wstr pData holds found) start
  obtain ⟨book, final, holds⟩ := update_five_seconds_cases env (s := midway) (P := fun b _ => P b)
    (fun _ b _ wstr pData holds found _ => finished b wstr pData holds found) half
  rw [final]
  exact holds

/-- What every event keeps of the book, a step of the thread keeps. -/
theorem steps_book {P : AuctionBook → Prop} {step : LogicStep}
    (kept : ∀ b event b', P b → AuctionBook.Step b event b' → P b') (taken : s.Steps step s')
    (start : P s.toAuctionBook) : P s'.toAuctionBook := by
  obtain ⟨effects, ran⟩ := taken
  cases step with
  | update env =>
    exact update_book ran (fun b _ _ holds found => kept b _ _ holds (.imminent found))
      (fun b _ _ holds found => kept b _ _ holds (.ended found)) start
  | job job env =>
    obtain ⟨_, book⟩ := job_event ran
    cases made : s.jobEvent env job with
    | none =>
      rw [made] at book
      rwa [book]
    | some event =>
      rw [made] at book
      exact kept _ _ _ start book

/-- `Update` takes no record from the pool. -/
theorem update_next (ran : s.update env = .ok (s', effects)) : s'.nextAuction = s.nextAuction :=
  update_book (P := fun b => b.nextAuction = s.nextAuction) ran (fun _ _ _ same _ => same)
    (fun b wstr pData same _ => (AuctionBook.nextAuction_finish b pData wstr).trans same) rfl

/-- `Update` touches the book, the lists made of it and the time stamp. -/
theorem update_frame (ran : s.update env = .ok (s', effects)) :
    ∃ book timeOrder24 timeOrder48 priceOrder, s' = { s with
      toAuctionBook := book
      cellListTimeOrder24 := timeOrder24
      cellListTimeOrder48 := timeOrder48
      cellListPriceOrder := priceOrder
      lastUpdateTime := env.curTime } := by
  obtain ⟨midway, minute, rfl, _⟩ := update_cases ran
  obtain ⟨_, _, _, _, first⟩ := update_minute_cases (P := fun _ => True) minute
    (fun _ _ _ _ _ _ _ => trivial) trivial
  obtain ⟨book, second, _⟩ := update_five_seconds_cases env (s := midway) (P := fun _ _ => True)
    (fun _ _ _ _ _ _ _ _ => trivial) trivial
  rw [second, first]
  exact ⟨_, _, _, _, rfl⟩

end Update

end Store

end NewNameAuction
