import NewNameAuction.DatabaseRequests

/-! What comes of the server as it is built. The database thread does not put an `ABLE`
job into `JobQueue`, and `REGISTER_ABLE` is the only way into the book of auctions: from
the start on the book stays empty, so that `LogicThread` never sends a packet, the
database is never written, and a refused sale is the one answer that any client gets. -/
namespace NewNameAuction.NothingSold
open DatabaseRequests DatabaseWakeup ByteMemory

/-! ## The empty book -/

/-- No auction was ever registered, and nobody has a slot. -/
structure Empty (s : Store) : Prop where
  cellList : s.cellList = ∅
  imminentList : s.imminentList = ∅
  finList : s.finList = []
  finListUMap : s.finListUMap = ∅
  nextAuction : s.nextAuction = 0
  ownList : s.ownList = ∅
  timeOrder24 : s.cellListTimeOrder24 = []
  timeOrder48 : s.cellListTimeOrder48 = []
  priceOrder : s.cellListPriceOrder = []
  numOfSales : s.numOfSales = 0

theorem start_empty (auctions : AuctionRef → AuctionData) (packetType : UInt16) :
    Empty (.empty auctions packetType) :=
  ⟨rfl, rfl, rfl, rfl, rfl, rfl, rfl, rfl, rfl, rfl⟩

/-- The players, their terms, the type word and the time stamp are not about it. -/
theorem Empty.frame {s : Store} (empty : Empty s) (playerList : UnorderedMap Int64 Player)
    (waitingDataList : UnorderedMap Int64 InitData) (lastUpdateTime : UInt64) (packetType : UInt16) :
    Empty { s with playerList, waitingDataList, lastUpdateTime, packetType } :=
  ⟨empty.cellList, empty.imminentList, empty.finList, empty.finListUMap, empty.nextAuction,
    empty.ownList, empty.timeOrder24, empty.timeOrder48, empty.priceOrder, empty.numOfSales⟩

/-- What `LogicThread` still does: it asks the database whether a nickname was sold, and
it cuts sessions. -/
def Unanswered : Effect → Prop
  | .send _ _ => False
  | .enqueueDB job => job.jobType = .nicknameRegisterCheck
  | .disconnect _ => True

section Packets
variable {locals : Locals} {block : DBCheckJob} {s s' : Store} {pPlayer : Player} {pPacket : Bytes}
  {sessionID : Int64} {ret : Bool} {effects : List Effect}

theorem search_empty (empty : Empty s) :
    s.packetProcReqSearch locals pPlayer pPacket sessionID = .ok (true, s, []) := by
  simp [Store.packetProcReqSearch, Store.searchReplies, empty.cellList, empty.imminentList]

theorem bid_empty (empty : Empty s) :
    ∃ ret, s.packetProcReqBid locals pPlayer pPacket sessionID = .ok (ret, s, []) := by
  refine Store.req_bid_refused_eq ?_
  have unknown (wstr : WString) : s.find wstr = none := by
    unfold AuctionBook.find
    rw [empty.imminentList, empty.cellList]
    rfl
  simp [Store.acceptedBid, unknown]

/-- Nobody has a slot to change a nickname with: the look-up ends at `end()`. -/
theorem change_empty (empty : Empty s) :
    s.packetProcReqChangeNickname locals block pPlayer pPacket sessionID = .error .endIterator := by
  simp only [Store.packetProcReqChangeNickname, empty.ownList]
  rfl

theorem init_packets_empty (empty : Empty s) : s.sendInitPackets pPlayer = .ok [] := by
  have own : s.ownReplies pPlayer = .ok [] := by
    simp only [Store.ownReplies, empty.ownList]
    rfl
  simp only [Store.sendInitPackets, own, Store.recentReplies, empty.timeOrder48, empty.finList]
  rfl

theorem player_info_empty (empty : Empty s)
    (ran : s.packetProcResPlayerInfo locals pPacket = .ok (ret, s', effects)) :
    Empty s' ∧ effects = [] := by
  unfold Store.packetProcResPlayerInfo at ran
  dsimp only at ran
  split at ran
  · cases ran
    exact ⟨empty, rfl⟩
  · obtain ⟨nickName, _, ran⟩ := bind_ok.mp ran
    rw [init_packets_empty (empty.frame ..)] at ran
    cases ran
    exact ⟨empty.frame .., rfl⟩

theorem sale_empty (empty : Empty s)
    (ran : s.packetProcReqSale locals block pPlayer pPacket sessionID = .ok (ret, s', effects)) :
    Empty s' ∧ ∀ effect ∈ effects, Unanswered effect := by
  obtain ⟨rfl, rfl⟩ | ⟨terms, job, rfl, rfl, check⟩ := Store.req_sale_cases ran
  · exact ⟨empty, fun effect member => nomatch member⟩
  · refine ⟨empty.frame .., fun effect member => ?_⟩
    rw [List.mem_singleton.mp member]
    exact check

/-- No packet is answered, and none changes the book. -/
theorem packet_empty {packetType : UInt16} (empty : Empty s)
    (ran : s.packetProc locals block pPlayer pPacket sessionID packetType = .ok (ret, s', effects)) :
    Empty s' ∧ ∀ effect ∈ effects, Unanswered effect := by
  have silent : ∀ effect ∈ ([] : List Effect), Unanswered effect := fun _ member => nomatch member
  unfold Store.packetProc at ran
  split at ran
  · exact sale_empty empty ran
  split at ran
  · rw [search_empty empty] at ran
    cases ran
    exact ⟨empty, silent⟩
  split at ran
  · obtain ⟨refused, same⟩ : ∃ ret, s.packetProcReqBid locals pPlayer pPacket sessionID =
        .ok (ret, s, []) := bid_empty empty
    rw [same] at ran
    cases ran
    exact ⟨empty, silent⟩
  split at ran
  · rw [change_empty empty] at ran
    cases ran
  split at ran
  · obtain ⟨kept, rfl⟩ := player_info_empty empty ran
    exact ⟨kept, silent⟩
  · cases ran
    exact ⟨empty, silent⟩

end Packets

/-! ## Jobs and sweeps -/

section Jobs
variable {s s' : Store} {env : JobEnv} {item : JobItem} {effects : List Effect}

theorem item_empty (empty : Empty s) (network : FromNetwork item)
    (ran : runItem s env item = .ok (s', effects)) :
    Empty s' ∧ ∀ effect ∈ effects, Unanswered effect := by
  have silent : ∀ effect ∈ ([] : List Effect), Unanswered effect := fun _ member => nomatch member
  unfold runItem JobItem.job at ran
  rcases network with type | type | type
  · rw [type] at ran
    cases ran
    exact ⟨empty.frame .., silent⟩
  · rw [type] at ran
    cases ran
    unfold Store.clientLeave
    split
    · exact ⟨empty, silent⟩
    · exact ⟨empty.frame .., silent⟩
  · rw [type] at ran
    rcases Store.client_recv_cases ran with ⟨rfl, rfl, _⟩ |
      ⟨player, ret, processed, known, own, proc, rfl⟩
    · exact ⟨empty.frame .., silent⟩
    · obtain ⟨kept, quiet⟩ := packet_empty (empty.frame ..) proc
      refine ⟨kept, ?_⟩
      cases ret with
      | true => exact quiet
      | false =>
        intro effect member
        rcases List.mem_append.mp member with mine | cut
        · exact quiet effect mine
        · rw [List.mem_singleton.mp cut]
          trivial

/-- `Update` has nothing to look at. It returns whatever the clock and the draws are. -/
theorem update_empty (empty : Empty s) (env : UpdateEnv) :
    s.update env = .ok ({ s with lastUpdateTime := env.curTime }, []) := by
  have trim : s.trimTimeOrders env = .ok s := by
    simp [Store.trimTimeOrders, Store.trimTimeOrder24, Store.trimTimeOrder48, empty.timeOrder24,
      empty.timeOrder48, bind, Except.bind]
  have minute : s.updateMinute env = .ok s := by
    unfold Store.updateMinute Store.sweepCells
    split
    · rw [empty.cellList]
      change (s.trimTimeOrders env >>= fun s => _) = _
      rw [trim]
      simp only [bind, Except.bind, empty.priceOrder, List.filter_nil]
      rw [← empty.priceOrder]
    · rfl
  have five : s.updateFiveSeconds env = (s, []) := by
    unfold Store.updateFiveSeconds Store.sweepImminent
    split
    · rw [empty.imminentList]
      rfl
    · rfl
  simp only [Store.update, minute, five, bind, Except.bind]

end Jobs

/-! ## The two threads -/

/-- What the database thread does for a request to sell. -/
def Refuses : DBEffect → Prop
  | .query query => ∃ nickName, query = .soldExists nickName
  | .send _ reply => reply = .resSale .failSold
  | .fill _ | .setEvent => True
  | .enqueue _ => False

/-- The answers of the database thread in a run. -/
def Refused : SystemEvent → Prop
  | .answered _ _ _ effects => ∀ effect ∈ effects, Refuses effect
  | _ => True

/-- The requests on their way to the database thread, or in its hands. -/
def requests (s : System) : List DBCheckJob := s.outgoing ++ s.database.queue ++ inHand s

structure Dormant (s : System) : Prop where
  store : Empty s.store
  items : ∀ item ∈ s.jobQueue, FromNetwork item
  requests : ∀ job ∈ requests s, job.jobType = .nicknameRegisterCheck

section Steps
variable {s t : System} {label : SystemEvent}

theorem answer_refuses {job : DBCheckJob} {row : Option Int64} {block : JobItem}
    {effects : List DBEffect} (check : job.jobType = .nicknameRegisterCheck)
    (ran : dbAccess job row block = .ok effects) : ∀ effect ∈ effects, Refuses effect := by
  obtain ⟨myNickName, _, ran⟩ := bind_ok.mp ran
  obtain ⟨targetNickName, _, ran⟩ := bind_ok.mp ran
  obtain rfl := Except.ok.inj ran
  rw [check]
  intro effect member
  rcases List.mem_cons.mp member with rfl | member
  · exact ⟨_, rfl⟩
  · split at member
    · rw [List.mem_singleton.mp member]
      exact rfl
    · rcases List.mem_cons.mp member with rfl | member
      · trivial
      · rw [List.mem_singleton.mp member]
        trivial

theorem refused_unqueued {effects : List DBEffect} (refuses : ∀ effect ∈ effects, Refuses effect) :
    enqueuedItems effects = [] := by
  refine List.filterMap_eq_nil_iff.mpr fun effect member => ?_
  cases effect with
  | enqueue item => exact (refuses _ member).elim
  | _ => rfl

theorem checks_only {effects : List Effect} (silent : ∀ effect ∈ effects, Unanswered effect) :
    ∀ job ∈ databaseJobs effects, job.jobType = .nicknameRegisterCheck := by
  intro job member
  obtain ⟨effect, here, made⟩ := List.mem_filterMap.mp member
  have quiet := silent effect here
  cases effect with
  | enqueueDB other =>
    cases made
    exact quiet
  | _ => cases made

/-- A step of the database thread's channel hands the requests on. -/
theorem requests_channel {c c' : JobChannel DBCheckJob} {event : ChannelEvent DBCheckJob}
    (step : ChannelStep c event c') (outgoing : List DBCheckJob) :
    ∀ job ∈ requests { s with outgoing := outgoing, database := c' },
      job ∈ requests { s with outgoing := outgoing, database := c } ∨ event = .enqueue job := by
  intro job member
  simp only [requests, inHand, List.mem_append] at member ⊢
  cases step with
  | enqueue other =>
    simp only [List.mem_append, List.mem_singleton] at member
    rcases member with (out | queued | rfl) | hand
    · exact .inl (.inl (.inl out))
    · exact .inl (.inl (.inr queued))
    · exact .inr rfl
    · exact .inl (.inr hand)
  | setEvent _ => exact .inl member
  | shutDown => exact .inl member
  | loop there =>
    rcases member with (out | queued) | hand
    · exact .inl (.inl (.inl out))
    · exact .inl (.inl (.inr queued))
    · dsimp only at hand
      split at hand
      · next handling =>
        split at handling <;> cases handling
      · cases hand
  | found there queue =>
    rcases member with (out | queued) | hand
    · exact .inl (.inl (.inl out))
    · exact .inl (.inl (.inr (queue ▸ List.mem_cons_of_mem _ queued)))
    · exact .inl (.inl (.inr (queue ▸ List.mem_cons.mpr (.inl (List.mem_singleton.mp hand)))))
  | empty there none =>
    rcases member with (out | queued) | hand
    · exact .inl (.inl (.inl out))
    · exact .inl (.inl (.inr queued))
    · cases hand
  | handled there =>
    rcases member with (out | queued) | hand
    · exact .inl (.inl (.inl out))
    · exact .inl (.inl (.inr queued))
    · cases hand
  | wake there signalled =>
    rcases member with (out | queued) | hand
    · exact .inl (.inl (.inl out))
    · exact .inl (.inl (.inr queued))
    · cases hand

theorem dormant_step (dormant : Dormant s) (step : SystemStep s label t) :
    Dormant t ∧ Refused label := by
  obtain ⟨store, items, checks⟩ := dormant
  cases step with
  | network network =>
    refine ⟨⟨store, fun item member => ?_, checks⟩, trivial⟩
    rcases List.mem_append.mp member with old | new
    · exact items item old
    · rw [List.mem_singleton.mp new]
      exact network
  | logic next idle signalled ran =>
    obtain ⟨kept, silent⟩ := item_empty store (items _ (next ▸ List.mem_cons_self ..)) ran
    refine ⟨⟨kept, fun item member => items item (next ▸ List.mem_cons_of_mem _ member), ?_⟩, trivial⟩
    intro job member
    simp only [requests, inHand, idle, List.nil_append, List.append_assoc, List.mem_append] at member checks
    rcases member with new | old
    · exact checks_only silent job new
    · exact checks job old
  | update next idle signalled ran =>
    rw [update_empty store] at ran
    cases ran
    refine ⟨⟨store.frame .., items, fun job member => checks job ?_⟩, trivial⟩
    simpa [requests, inHand, databaseJobs, idle] using member
  | @enqueue job rest database outgoing signalled channel =>
    have out : job.jobType = .nicknameRegisterCheck :=
      checks job (by simp [requests, outgoing])
    refine ⟨⟨store, items, fun other member => ?_⟩, trivial⟩
    rcases requests_channel channel rest other member with old | new
    · refine checks other ?_
      simp only [requests, inHand, outgoing, List.mem_append, List.mem_cons] at old ⊢
      tauto
    · cases new
      exact out
  | thread quiet channel =>
    refine ⟨⟨store, items, fun other member => ?_⟩, trivial⟩
    rcases requests_channel channel s.outgoing other member with old | new
    · exact checks other old
    · rw [new] at quiet
      cases quiet
  | @answered job row block effects database there ran channel =>
    have check : job.jobType = .nicknameRegisterCheck :=
      checks job (by simp [requests, inHand, there])
    have refuses := answer_refuses check ran
    refine ⟨⟨store, ?_, fun other member => ?_⟩, refuses⟩
    · rw [refused_unqueued refuses, List.append_nil]
      exact items
    · rcases requests_channel channel s.outgoing other member with old | new
      · exact checks other old
      · cases new

end Steps

/-! ## Runs -/

section Runs
variable {auctions : AuctionRef → AuctionData} {packetType : UInt16} {labels : List SystemEvent}
  {s : System}

/-- Nothing is on sale, the next job is answered by nobody, and neither is `Update`; a
request to change a nickname is the end of defined behaviour. -/
structure Unsold (s : System) : Prop where
  book : Empty s.store
  job : ∀ item ∈ s.jobQueue.head?, ∀ env store effects,
    runItem s.store env item = .ok (store, effects) → ∀ effect ∈ effects, Unanswered effect
  update : ∀ env, s.store.update env = .ok ({ s.store with lastUpdateTime := env.curTime }, [])
  change : ∀ env player sessionID pPacket, s.store.playerList.find sessionID = some player →
    player.sessionID = sessionID ∧ player.isValid = true → (s.store.readType pPacket).1 = 8 →
    s.store.clientRecv env sessionID pPacket = .error .endIterator

theorem Dormant.unsold (dormant : Dormant s) : Unsold s where
  book := dormant.store
  job := by
    intro item next env store effects ran
    exact (item_empty dormant.store (dormant.items item (List.mem_of_mem_head? next)) ran).2
  update := update_empty dormant.store
  change := by
    intro env player sessionID pPacket known own type
    rw [Store.client_recv_known known own, type]
    have procedure : (s.store.withType 8).packetProc env.locals env.block player
        (s.store.readType pPacket).2 sessionID 8 = .error .endIterator := by
      unfold Store.packetProc
      rw [if_neg (by decide), if_neg (by decide), if_neg (by decide), if_pos rfl]
      exact change_empty (dormant.store.frame ..)
    rw [procedure]
    rfl

/-- In every run of the threads nothing is ever on sale, `LogicThread` answers nobody,
and the database thread asks for sold nicknames and refuses them, and does no more. -/
theorem nothing_sold (run : Run SystemStep (.start auctions packetType) labels s) :
    Unsold s ∧ ∀ label ∈ labels, Refused label := by
  have reached : Dormant s ∧ ∀ label ∈ labels, Refused label := by
    refine run.history (P := fun labels s => Dormant s ∧ ∀ label ∈ labels, Refused label) ?_ ?_
    · intro labels s label t before step
      obtain ⟨dormant, refused⟩ := dormant_step before.1 step
      refine ⟨dormant, fun other member => ?_⟩
      rcases List.mem_append.mp member with old | new
      · exact before.2 other old
      · rwa [List.mem_singleton.mp new]
    · refine ⟨⟨start_empty auctions packetType, ?_, ?_⟩, ?_⟩ <;> exact fun _ member => nomatch member
  exact ⟨reached.1.unsold, reached.2⟩

end Runs

/-- A player asks to sell a nickname that was not sold before, and nothing comes of it. -/
theorem free_nickname_unsold : ∃ effects s,
    Run SystemStep (.start (fun _ => .zero) 0) (saleEvents none effects) s ∧ Unsold s ∧
      ∀ label ∈ saleEvents none effects, Refused label := by
  have ran : dbAccess saleCheck none joinItem = .ok [.query (.soldExists []),
      .fill (ableItem joinItem .nicknameRegisterAble saleCheck), .setEvent] := rfl
  have asks : Run SystemStep (.start (fun _ => .zero) 0)
      [.network joinItem, .logic joinItem (.zero 0), .network saleItem, .logic saleItem (.zero 0),
        .database (.enqueue saleCheck), .database .setEvent] _ :=
    .cons (.network (.inl rfl)) <| .cons (.logic rfl rfl rfl rfl) <|
      .cons (.network (.inr (.inr rfl))) <| .cons (.logic rfl rfl rfl rfl) <|
      .cons (.enqueue rfl rfl (.enqueue _ _)) <| .single (.thread trivial (.setEvent rfl))
  have answers : Run SystemStep (.start (fun _ => .zero) 0) (saleEvents none _) _ :=
    asks.append <| .cons (.thread trivial (.loop rfl)) <|
      .cons (.thread trivial (.found rfl rfl)) <| .single (.answered rfl ran (.handled rfl))
  obtain ⟨unsold, refused⟩ := nothing_sold answers
  exact ⟨_, _, answers, unsold, refused⟩

end NewNameAuction.NothingSold
