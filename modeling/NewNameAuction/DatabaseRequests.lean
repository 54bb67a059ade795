import NewNameAuction.AuctionEvents
import NewNameAuction.DatabaseWakeup

/-! Check requests between `LogicThread` and `DBAccessThread`. Both queues hand on
what they are given, but the database thread fills an `ABLE` job and signals it
without putting it into `JobQueue`: a request has its outcome exactly when the
answer is negative and its nicknames can be copied. -/
namespace NewNameAuction.DatabaseRequests
open DatabaseWakeup ByteMemory

/-- `st_JobItem`, with the contents of its packet. -/
structure JobItem where
  jobType : JobType
  sessionID : Int64
  accountNo : Int64
  pPacket : Bytes
  deriving DecidableEq

/-- The case of `LogicThread`'s switch. -/
def JobItem.job (item : JobItem) : Option Job :=
  match item.jobType with
  | .onClientJoin => some (.onClientJoin item.sessionID)
  | .onClientLeave => some (.onClientLeave item.sessionID)
  | .onRecv => some (.onRecv item.sessionID item.pPacket)
  | .nicknameChangeAble => some (.nicknameChangeAble item.accountNo)
  | .nicknameRegisterAble => some (.nicknameRegisterAble item.sessionID item.accountNo)
  | _ => none

/-- One turn of `LogicThread`'s inner loop. -/
def runItem (s : Store) (env : JobEnv) (item : JobItem) : Stepped :=
  match item.job with
  | some job => s.runJob env job
  | none => .ok (s, [])

/-! ## The database thread -/

/-- The queries, with the values formatted into them. -/
inductive DBQuery
  | soldOwner (nickName : WString)
  | soldExists (nickName : WString)
  | insertCelling (nickName : WString) (accountNo : Int64) (endTime : UInt64) (count : Int32)
  | deleteCelling (nickName : WString)
  | insertSold (nickName : WString) (accountNo : Int64) (endTime : UInt64) (count : Int32)
  deriving DecidableEq

/-- What the database thread does with a job, in order. -/
inductive DBEffect
  | query (query : DBQuery)
  /-- A packet to a session. -/
  | send (sessionID : Int64) (reply : Reply)
  /-- `JobPool.mAlloc` and the writes to the block. -/
  | fill (item : JobItem)
  /-- `JobQueue.Enqueue`. -/
  | enqueue (item : JobItem)
  /-- `SetEvent(hJobEvent)`. -/
  | setEvent
  deriving DecidableEq

/-- The `ABLE` job of a type, in a block of `JobPool`. -/
def ableItem (block : JobItem) (jobType : JobType) (job : DBCheckJob) : JobItem :=
  { block with jobType := jobType, sessionID := job.sessionID, accountNo := job.accountNo }

/-- The body of `DBAccessThread`'s inner loop. `row` is what `FetchRow` gives: no
row, or one with this account number. The result of `sendQuery_Save` is not looked
at: when the query fails, `FetchRow` reads whatever `pSqlResult` was left with, so
`row` has nothing to do with the query's nickname there. -/
def dbAccess (job : DBCheckJob) (row : Option Int64) (block : JobItem) :
    Except Fault (List DBEffect) := do
  let myNickName ← wcscpyS job.myNickName
  let targetNickName ← wcscpyS job.targetNickName
  .ok (match job.jobType with
    | .nicknameChangeCheck =>
      .query (.soldOwner targetNickName.chars) ::
        if row = some job.accountNo then [.fill (ableItem block .nicknameChangeAble job), .setEvent]
        else [.send job.sessionID (.resChangeNickname .fail)]
    | .nicknameRegisterCheck =>
      .query (.soldExists targetNickName.chars) ::
        if row ≠ none then [.send job.sessionID (.resSale .failSold)]
        else [.fill (ableItem block .nicknameRegisterAble job), .setEvent]
    | .nicknameRegister =>
      [.query (.insertCelling myNickName.chars job.accountNo job.endTime job.count)]
    | .nicknameSold =>
      .query (.deleteCelling myNickName.chars) ::
        if job.accountNo ≠ 0 then
          [.query (.insertSold myNickName.chars job.accountNo job.endTime job.count)]
        else []
    | _ => [])

/-- The packets among some effects. -/
def sentReplies (effects : List DBEffect) : List (Int64 × Reply) :=
  effects.filterMap fun
    | .send sessionID reply => some (sessionID, reply)
    | _ => none

/-- The jobs put into `JobQueue` by some effects. -/
def enqueuedItems (effects : List DBEffect) : List JobItem :=
  effects.filterMap fun
    | .enqueue item => some item
    | _ => none

/-! ## The two threads -/

/-- The store, `JobQueue`, the jobs `LogicThread` still has to put into
`JobQueue_DBThread`, and that queue with the database thread. Both queues are taken as
FIFO channels, an `Enqueue` or `Dequeue` one step. -/
structure System where
  store : Store
  jobQueue : List JobItem
  outgoing : List DBCheckJob
  database : JobChannel DBCheckJob

def System.start (auctions : AuctionRef → AuctionData) (packetType : UInt16) : System :=
  ⟨Store.empty auctions packetType, [], [], .start⟩

inductive SystemEvent
  | network (item : JobItem)
  | logic (item : JobItem) (env : JobEnv)
  | update (env : UpdateEnv)
  | database (event : ChannelEvent DBCheckJob)
  | answered (job : DBCheckJob) (row : Option Int64) (block : JobItem) (effects : List DBEffect)

/-- The jobs `CContentsHandler` makes. -/
def FromNetwork (item : JobItem) : Prop :=
  item.jobType = .onClientJoin ∨ item.jobType = .onClientLeave ∨ item.jobType = .onRecv

/-- Neither an `Enqueue` nor the handling of a job. -/
def Quiet : ChannelEvent DBCheckJob → Prop
  | .enqueue _ => False
  | .handled => False
  | _ => True

/-- The jobs for the database thread among some effects. -/
def databaseJobs (effects : List Effect) : List DBCheckJob :=
  effects.filterMap fun
    | .enqueueDB job => some job
    | _ => none

/-- One step of a network thread, of `LogicThread`, or of the database thread.
`LogicThread` enqueues and signals its database jobs one by one. -/
inductive SystemStep : System → SystemEvent → System → Prop
  | network {s : System} {item : JobItem} : FromNetwork item →
      SystemStep s (.network item) { s with jobQueue := s.jobQueue ++ [item] }
  | logic {s : System} {item : JobItem} {rest : List JobItem} {env : JobEnv} {store : Store}
      {effects : List Effect} : s.jobQueue = item :: rest → s.outgoing = [] →
      s.database.signalling = 0 → runItem s.store env item = .ok (store, effects) →
      SystemStep s (.logic item env)
        { s with store := store, jobQueue := rest, outgoing := databaseJobs effects }
  | update {s : System} {env : UpdateEnv} {store : Store} {effects : List Effect} :
      s.jobQueue = [] → s.outgoing = [] → s.database.signalling = 0 →
      s.store.update env = .ok (store, effects) →
      SystemStep s (.update env) { s with store := store, outgoing := databaseJobs effects }
  | enqueue {s : System} {job : DBCheckJob} {rest : List DBCheckJob}
      {database : JobChannel DBCheckJob} : s.outgoing = job :: rest → s.database.signalling = 0 →
      ChannelStep s.database (.enqueue job) database →
      SystemStep s (.database (.enqueue job)) { s with outgoing := rest, database := database }
  | thread {s : System} {event : ChannelEvent DBCheckJob} {database : JobChannel DBCheckJob} :
      Quiet event → ChannelStep s.database event database →
      SystemStep s (.database event) { s with database := database }
  | answered {s : System} {job : DBCheckJob} {row : Option Int64} {block : JobItem}
      {effects : List DBEffect} {database : JobChannel DBCheckJob} :
      s.database.thread = .handling job → dbAccess job row block = .ok effects →
      ChannelStep s.database .handled database →
      SystemStep s (.answered job row block effects)
        { s with jobQueue := s.jobQueue ++ enqueuedItems effects, database := database }

/-! ## Outcomes -/

def IsCheck (job : DBCheckJob) : Prop :=
  job.jobType = .nicknameChangeCheck ∨ job.jobType = .nicknameRegisterCheck

/-- The negative reply to a request, and the type of the job that goes on with it. -/
def outcomeOf : JobType → Reply × JobType
  | .nicknameChangeCheck => (.resChangeNickname .fail, .nicknameChangeAble)
  | _ => (.resSale .failSold, .nicknameRegisterAble)

/-- A request has one negative reply, or one job in `JobQueue`. -/
def OneOutcome (job : DBCheckJob) (effects : List DBEffect) : Prop :=
  (sentReplies effects = [(job.sessionID, (outcomeOf job.jobType).1)] ∧ enqueuedItems effects = []) ∨
    (sentReplies effects = [] ∧ ∃ item, enqueuedItems effects = [item] ∧
      item.jobType = (outcomeOf job.jobType).2 ∧ item.sessionID = job.sessionID ∧
      item.accountNo = job.accountNo)

/-- The nickname to change to was not sold to this account, or the one to sell was
sold before. -/
def Negative (job : DBCheckJob) (row : Option Int64) : Prop :=
  if job.jobType = .nicknameChangeCheck then row ≠ some job.accountNo else row ≠ none

instance (job : DBCheckJob) (row : Option Int64) : Decidable (Negative job row) :=
  inferInstanceAs (Decidable (if job.jobType = .nicknameChangeCheck then row ≠ some job.accountNo
    else row ≠ none))

/-- Both nicknames of a job's block are terminated, so `wcscpy_s` does not abort on
them. -/
def Copies (job : DBCheckJob) : Prop :=
  (∃ myNickName, wcscpyS job.myNickName = .ok myNickName) ∧
    ∃ targetNickName, wcscpyS job.targetNickName = .ok targetNickName

/-- The jobs in the database thread's hands. -/
def inHand (s : System) : List DBCheckJob :=
  match s.database.thread with
  | .handling job => [job]
  | _ => []

/-- The jobs an event puts into and takes off `JobQueue_DBThread`, and those it
deals with. -/
def requested : SystemEvent → List DBCheckJob
  | .database (.enqueue job) => [job]
  | _ => []

def takenRequest : SystemEvent → List DBCheckJob
  | .database (.dequeue found) => found.toList
  | _ => []

def answeredRequest : SystemEvent → List DBCheckJob
  | .answered job _ _ _ => [job]
  | _ => []

/-- The jobs an event puts into and takes off `JobQueue`. -/
def putItems : SystemEvent → List JobItem
  | .network item => [item]
  | .answered _ _ _ effects => enqueuedItems effects
  | _ => []

def processedItem : SystemEvent → List JobItem
  | .logic item _ => [item]
  | _ => []

/-- Both queues hand on what they are given, the database thread deals with what it
takes, comes to the end of every request whatever the answer is, and every request it
has dealt with has its one outcome. -/
structure Answered (s : System) (labels : List SystemEvent) (t : System) : Prop where
  requests : s.database.queue ++ labels.flatMap requested =
    labels.flatMap takenRequest ++ t.database.queue
  taken : inHand s ++ labels.flatMap takenRequest = labels.flatMap answeredRequest ++ inHand t
  ends : ∀ job ∈ inHand s ++ labels.flatMap takenRequest, IsCheck job → ∀ row block,
    ∃ effects, dbAccess job row block = .ok effects
  outcome : ∀ job row block effects, .answered job row block effects ∈ labels → IsCheck job →
    OneOutcome job effects
  processed : s.jobQueue ++ labels.flatMap putItems = labels.flatMap processedItem ++ t.jobQueue

/-- A job that is dealt with has its nicknames copied. -/
theorem access_copies {job : DBCheckJob} {row : Option Int64} {block : JobItem}
    {effects : List DBEffect} (ran : dbAccess job row block = .ok effects) : Copies job := by
  obtain ⟨myNickName, mine, ran⟩ := bind_ok.mp ran
  obtain ⟨targetNickName, target, _⟩ := bind_ok.mp ran
  exact ⟨⟨myNickName, mine⟩, ⟨targetNickName, target⟩⟩

/-- A job is dealt with to the end exactly when its nicknames can be copied. -/
theorem copies_iff_ends {job : DBCheckJob} : Copies job ↔
    ∀ row block, ∃ effects, dbAccess job row block = .ok effects := by
  constructor
  · rintro ⟨⟨myNickName, mine⟩, ⟨targetNickName, target⟩⟩ row block
    exact ⟨_, bind_ok.mpr ⟨myNickName, mine, bind_ok.mpr ⟨targetNickName, target, rfl⟩⟩⟩
  · intro ends
    obtain ⟨effects, ran⟩ := ends none ⟨.onClientJoin, 0, 0, []⟩
    exact access_copies ran

/-- A request has its one outcome exactly when the answer is negative. -/
private theorem one_outcome_iff_negative {job : DBCheckJob} {row : Option Int64} {block : JobItem}
    {effects : List DBEffect} (check : IsCheck job) (ran : dbAccess job row block = .ok effects) :
    OneOutcome job effects ↔ Negative job row := by
  obtain ⟨myNickName, _, ran⟩ := bind_ok.mp ran
  obtain ⟨targetNickName, _, ran⟩ := bind_ok.mp ran
  obtain rfl := Except.ok.inj ran
  unfold OneOutcome Negative
  rcases check with type | type
  · rw [type, if_pos rfl]
    dsimp only
    by_cases owner : row = some job.accountNo
    · rw [if_pos owner]
      refine iff_of_false ?_ (not_not.mpr owner)
      rintro (⟨sent, _⟩ | ⟨_, item, put, _⟩)
      · cases sent
      · cases put
    · rw [if_neg owner]
      exact iff_of_true (.inl ⟨rfl, rfl⟩) owner
  · have other : ¬JobType.nicknameRegisterCheck = .nicknameChangeCheck := by decide
    rw [type, if_neg other]
    dsimp only
    by_cases sold : row ≠ none
    · rw [if_pos sold]
      exact iff_of_true (.inl ⟨rfl, rfl⟩) sold
    · rw [if_neg sold]
      refine iff_of_false ?_ sold
      rintro (⟨sent, _⟩ | ⟨_, item, put, _⟩)
      · cases sent
      · cases put

/-! ## Runs -/

section Runs
variable {s t : System} {labels : List SystemEvent}

private theorem requests_step (s : System) (label : SystemEvent) (t : System)
    (taken : SystemStep s label t) :
    s.database.queue ++ requested label = takenRequest label ++ t.database.queue := by
  cases taken with
  | network _ => exact List.append_nil _
  | logic _ _ _ _ => exact List.append_nil _
  | update _ _ _ _ => exact List.append_nil _
  | enqueue _ _ channel =>
    cases channel
    rfl
  | thread quiet channel =>
    cases channel with
    | enqueue job => cases quiet
    | handled there => cases quiet
    | found there job =>
      rw [job]
      exact List.append_nil _
    | _ => exact List.append_nil _
  | answered _ _ channel =>
    cases channel
    exact List.append_nil _

private theorem taken_step (s : System) (label : SystemEvent) (t : System)
    (taken : SystemStep s label t) :
    inHand s ++ takenRequest label = answeredRequest label ++ inHand t := by
  cases taken with
  | network _ => exact List.append_nil _
  | logic _ _ _ _ => exact List.append_nil _
  | update _ _ _ _ => exact List.append_nil _
  | enqueue _ _ channel =>
    cases channel
    exact List.append_nil _
  | thread quiet channel =>
    cases channel with
    | enqueue job => cases quiet
    | handled there => cases quiet
    | setEvent _ => exact List.append_nil _
    | shutDown => exact List.append_nil _
    | loop there =>
      unfold inHand
      rw [there]
      dsimp only
      split
      · rename_i job handling
        split at handling <;> cases handling
      · rfl
    | found there job =>
      unfold inHand
      rw [there]
      rfl
    | empty there none =>
      unfold inHand
      rw [there]
      rfl
    | wake there signalled =>
      unfold inHand
      rw [there]
      rfl
  | answered there _ channel =>
    cases channel
    unfold inHand
    rw [there]
    rfl

private theorem processed_step (s : System) (label : SystemEvent) (t : System)
    (taken : SystemStep s label t) :
    s.jobQueue ++ putItems label = processedItem label ++ t.jobQueue := by
  cases taken with
  | network _ => rfl
  | logic next _ _ _ =>
    rw [next]
    exact List.append_nil _
  | update _ _ _ _ => exact List.append_nil _
  | enqueue _ _ _ => exact List.append_nil _
  | thread quiet channel => exact List.append_nil _
  | answered _ _ _ => rfl

/-- In every run, the requests taken have their outcomes exactly when the nicknames of
all of them can be copied and all answers are negative. -/
theorem answered_iff_negative (run : Run SystemStep s labels t) :
    Answered s labels t ↔
      (∀ job ∈ inHand s ++ labels.flatMap takenRequest, IsCheck job → Copies job) ∧
      ∀ job row block effects, .answered job row block effects ∈ labels → IsCheck job →
        Negative job row := by
  have ran : ∀ label ∈ labels, ∀ job row block effects, label = .answered job row block effects →
      dbAccess job row block = .ok effects := by
    refine run.labels_all fun a label b taken job row block effects same => ?_
    subst same
    cases taken with
    | answered _ ran _ => exact ran
  constructor
  · intro answered
    refine ⟨fun job held check => copies_iff_ends.mpr (answered.ends job held check), ?_⟩
    intro job row block effects member check
    exact (one_outcome_iff_negative check (ran _ member job row block effects rfl)).mp
      (answered.outcome job row block effects member check)
  · rintro ⟨copied, negative⟩
    refine ⟨run.queue (fun s => s.database.queue) requests_step, run.queue inHand taken_step,
      fun job held check => copies_iff_ends.mp (copied job held check), ?_,
      run.queue System.jobQueue processed_step⟩
    intro job row block effects member check
    exact (one_outcome_iff_negative check (ran _ member job row block effects rfl)).mpr
      (negative job row block effects member check)

end Runs

/-! ## One request to sell -/

/-- `JOIN` of session 5. -/
def joinItem : JobItem := ⟨.onClientJoin, 5, 0, []⟩

/-- `REQ_SALE` of the nickname a player joins with, for 24 hours from 50. -/
def saleItem : JobItem :=
  ⟨.onRecv, 5, 0, [1, 0] ++ [78, 0, 85, 0, 76, 0, 76, 0] ++ List.replicate 12 0 ++ [24] ++ [50, 0, 0, 0]⟩

/-- The request this makes. -/
def saleCheck : DBCheckJob := ⟨.nicknameRegisterCheck, 0, 5, 0, 0, [78, 85, 76, 76], []⟩

/-- Up to the database's answer. -/
def saleEvents (row : Option Int64) (effects : List DBEffect) : List SystemEvent :=
  [.network joinItem, .logic joinItem (.zero 0), .network saleItem, .logic saleItem (.zero 0),
    .database (.enqueue saleCheck), .database .setEvent, .database .loop,
    .database (.dequeue (some saleCheck)), .answered saleCheck row joinItem effects]

private theorem sale_run {row : Option Int64} {effects : List DBEffect}
    (ran : dbAccess saleCheck row joinItem = .ok effects) :
    ∃ t, Run SystemStep (.start (fun _ => .zero) 0) (saleEvents row effects) t ∧
      t.jobQueue = enqueuedItems effects :=
  ⟨_, .cons (.network (.inl rfl)) <| .cons (.logic rfl rfl rfl rfl) <|
    .cons (.network (.inr (.inr rfl))) <| .cons (.logic rfl rfl rfl rfl) <|
    .cons (.enqueue rfl rfl (.enqueue _ _)) <| .cons (.thread trivial (.setEvent rfl)) <|
    .cons (.thread trivial (.loop rfl)) <| .cons (.thread trivial (.found rfl rfl)) <|
    .single (.answered rfl ran (.handled rfl)), rfl⟩

private theorem sale_answered (row : Option Int64) (effects : List DBEffect) :
    .answered saleCheck row joinItem effects ∈ saleEvents row effects := by
  simp [saleEvents]

/-- A nickname that was sold before is refused. -/
theorem sold_nickname_refused : ∃ effects t,
    Run SystemStep (.start (fun _ => .zero) 0) (saleEvents (some 1) effects) t ∧
    sentReplies effects = [(5, .resSale .failSold)] ∧
    Answered (.start (fun _ => .zero) 0) (saleEvents (some 1) effects) t := by
  have ran : dbAccess saleCheck (some 1) joinItem =
      .ok [.query (.soldExists []), .send 5 (.resSale .failSold)] := rfl
  obtain ⟨t, run, _⟩ := sale_run ran
  refine ⟨_, t, run, rfl, (answered_iff_negative run).mpr ⟨fun job taken _ => ?_,
    fun job row block effects member _ => ?_⟩⟩
  · obtain rfl := List.mem_singleton.mp (show job ∈ [saleCheck] from taken)
    exact ⟨⟨_, rfl⟩, ⟨_, rfl⟩⟩
  have answer : (job, row) = (saleCheck, some 1) := by
    simp only [saleEvents, List.mem_cons, List.not_mem_nil, reduceCtorEq, false_or, or_false,
      SystemEvent.answered.injEq] at member
    rw [member.1, member.2.1]
  cases answer
  decide

/-- For a nickname that was never sold, neither a reply nor a job comes of the
request. -/
theorem free_nickname_lost : ∃ effects t,
    Run SystemStep (.start (fun _ => .zero) 0) (saleEvents none effects) t ∧
    sentReplies effects = [] ∧ t.jobQueue = [] ∧
    ¬Answered (.start (fun _ => .zero) 0) (saleEvents none effects) t := by
  have ran : dbAccess saleCheck none joinItem = .ok [.query (.soldExists []),
      .fill (ableItem joinItem .nicknameRegisterAble saleCheck), .setEvent] := rfl
  obtain ⟨t, run, left⟩ := sale_run ran
  refine ⟨_, t, run, rfl, left, fun answered => ?_⟩
  have outcome := answered.outcome saleCheck none joinItem _ (sale_answered none _) (.inr rfl)
  rcases outcome with ⟨sent, _⟩ | ⟨_, item, put, _⟩
  · cases sent
  · cases put

end NewNameAuction.DatabaseRequests
