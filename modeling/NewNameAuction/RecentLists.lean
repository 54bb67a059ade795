import NewNameAuction.IndexConsistency
import NewNameAuction.Settlement
import NewNameAuction.TailTrim

/-! The lists that a player is sent the recent auctions from. As long as nothing undefined
happens, `CellList_TimeOrder48` and `CellList_TimeOrder24` are the history of all
registrations, and `FinList` is the history of all sales. What has been in a list stays in
it, and the first entry of each comes to stand in the way of `Update`. -/
namespace NewNameAuction.RecentLists
open AuctionBook Settlement TailTrim

/-- A step of the thread, with the hours of the auction that it creates. -/
structure Entry where
  step : LogicStep
  effects : List Effect
  hours : Option Int8

/-- The hours that were asked for the auction a step creates. -/
def registeredHours (s : Store) : LogicStep → Option Int8
  | .job job env => (s.registration env job).bind fun data =>
    (s.waitingDataList.find data.ownerID).map InitData.time
  | .update _ => none

/-- A step, as it goes into the history. -/
def Logs (s : Store) (entry : Entry) (s' : Store) : Prop :=
  s.Takes (entry.step, entry.effects) s' ∧ entry.hours = registeredHours s entry.step

/-- Erasing `end()` is the end of the process. -/
def Defined (_ : Store) (entry : Entry) : Prop :=
  ∀ env, entry.step = .update env → env.undefined = none

/-- The hours of all registrations. The pool hands out its records in this order. -/
def hours (log : List Entry) : List Int8 := log.filterMap Entry.hours

/-- The auctions whose hours meet a condition, from the first on. -/
def listed (condition : Int8 → Bool) (hours : List Int8) : List AuctionRef :=
  (hours.zipIdx.filter fun registered => condition registered.1).map Prod.snd

def long (hours : Int8) : Bool := decide (24 < hours)

def short (hours : Int8) : Bool := !long hours

/-- What the database has been told of the auctions that were sold. -/
def sales (sold : List DBCheckJob) : List (WString × Int64 × Int32) :=
  (sold.filter fun job => decide (job.accountNo ≠ 0)).map toldBy

section Listed
variable {condition : Int8 → Bool} {past : List Int8} {r : AuctionRef}

theorem listed_append (time : Int8) : listed condition (past ++ [time]) =
    listed condition past ++ if condition time then [past.length] else [] := by
  unfold listed
  rw [List.zipIdx_append, List.filter_append, List.map_append]
  by_cases kept : condition time <;> simp [kept]

/-- A record that is listed has been taken from the pool. -/
theorem listed_lt (member : r ∈ listed condition past) : r < past.length := by
  unfold listed at member
  obtain ⟨⟨time, index⟩, kept, rfl⟩ := List.mem_map.mp member
  have bound := (List.mem_zipIdx (List.mem_filter.mp kept).1).2.1
  rwa [Nat.zero_add] at bound

theorem hours_append (log : List Entry) (entry : Entry) :
    hours (log ++ [entry]) = hours log ++ entry.hours.toList := by
  unfold hours
  rw [List.filterMap_append]
  cases made : entry.hours <;> simp [made]

theorem sales_append (sold more : List DBCheckJob) : sales (sold ++ more) = sales sold ++ sales more := by
  unfold sales
  rw [List.filter_append, List.map_append]

end Listed

/-! ## The ledger -/

/-- `FinList` has the auctions the database was told to be sold, the last one first. None
is in it twice, and none is written again. -/
structure Ledger (b : AuctionBook) (sold : List DBCheckJob) : Prop where
  separate : Separate b
  ended : ∀ r ∈ b.finList, r < b.nextAuction ∧ (b.auctions r).status.ended
  nodup : b.finList.Nodup
  told : (b.finList.map fun r => about (b.auctions r)) = (sales sold).reverse

section Ledger
variable {b b' : AuctionBook} {sold : List DBCheckJob} {wstr : WString} {pData : AuctionRef}

theorem empty_ledger (auctions : AuctionRef → AuctionData) (packetType : UInt16) :
    Ledger (Store.empty auctions packetType).toAuctionBook [] where
  separate := empty_separate auctions packetType
  ended := fun _ member => by cases member
  nodup := List.nodup_nil
  told := rfl

/-- A write to a record that has not ended leaves the ledger alone. -/
theorem ledger_kept (ledger : Ledger b sold) (separate : Separate b') (list : b'.finList = b.finList)
    (grows : b.nextAuction ≤ b'.nextAuction)
    (same : ∀ r < b.nextAuction, (b.auctions r).status.ended → b'.auctions r = b.auctions r) :
    Ledger b' sold := by
  have kept (r : AuctionRef) (member : r ∈ b.finList) : b'.auctions r = b.auctions r := by
    obtain ⟨pooled, done⟩ := ledger.ended r member
    exact same r pooled done
  refine ⟨separate, fun r member => ?_, by rw [list]; exact ledger.nodup, ?_⟩
  · rw [list] at member
    obtain ⟨pooled, done⟩ := ledger.ended r member
    rw [kept r member]
    exact ⟨Nat.lt_of_lt_of_le pooled grows, done⟩
  · rw [list, ← ledger.told]
    exact List.map_congr_left fun r member => by rw [kept r member]

theorem move_ledger (ledger : Ledger b sold) (draw : Draw) (found : b.cellList.find wstr = some pData) :
    Ledger (b.moveToImminent wstr pData draw) sold := by
  refine ledger_kept ledger (imminent_separate ledger.separate draw found) rfl (Nat.le_refl _)
    fun r _ done => ?_
  have sale := ledger.separate.cell wstr pData found
  rw [auctions_moveToImminent, if_neg]
  rintro rfl
  exact AuctionStatus.running_of_sale sale done

/-- An auction that ends goes to the front if it has been sold. -/
theorem finish_ledger (ledger : Ledger b sold) (block : DBCheckJob)
    (found : b.imminentList.find wstr = some pData) :
    Ledger (b.finish wstr pData)
      (sold ++ [Store.soldJob block ((b.finish wstr pData).auctions pData)]) := by
  have imminent := ledger.separate.imminent wstr pData found
  have pooled := ledger.separate.pooled wstr pData (.inr found)
  have apart (r : AuctionRef) (done : (b.auctions r).status.ended) : r ≠ pData := by
    rintro rfl
    exact AuctionStatus.running_of_imminent imminent done
  have others (r : AuctionRef) (member : r ∈ b.finList) :
      (b.finish wstr pData).auctions r = b.auctions r := by
    rw [auctions_finish, if_neg (apart r (ledger.ended r member).2)]
  have itself : (b.finish wstr pData).auctions pData =
      { b.auctions pData with status := finishStatus (b.auctions pData) } := by
    rw [auctions_finish, if_pos rfl]
  have listed := finList_finish b pData wstr
  have older : (b.finList.map fun r => about ((b.finish wstr pData).auctions r)) = (sales sold).reverse := by
    rw [← ledger.told]
    exact List.map_congr_left fun r member => by rw [others r member]
  have stays (r : AuctionRef) (member : r ∈ b.finList) :
      r < (b.finish wstr pData).nextAuction ∧ ((b.finish wstr pData).auctions r).status.ended := by
    rw [others r member, nextAuction_finish]
    exact ledger.ended r member
  rw [itself]
  by_cases nobody : (b.auctions pData).bidderID = 0
  · rw [if_pos nobody] at listed
    refine ⟨finish_separate ledger.separate found, ?_, ?_, ?_⟩
    · rw [listed]
      exact stays
    · rw [listed]
      exact ledger.nodup
    · rw [listed, older, sales_append]
      simp [sales, Store.soldJob, nobody]
  · rw [if_neg nobody] at listed
    refine ⟨finish_separate ledger.separate found, ?_, ?_, ?_⟩
    · rw [listed]
      intro r member
      rcases List.mem_cons.mp member with rfl | member
      · rw [itself, nextAuction_finish]
        exact ⟨pooled, finish_status_ended _⟩
      · exact stays r member
    · rw [listed]
      exact List.nodup_cons.mpr ⟨fun member => apart pData (ledger.ended pData member).2 rfl, ledger.nodup⟩
    · rw [listed, List.map_cons, older, itself, sales_append, List.reverse_append]
      simp [sales, Store.soldJob, nobody, about, toldBy]

end Ledger

/-! ## One step -/

section Steps
variable {s s' : Store} {log : List Entry} {effects : List Effect}

/-- A job that creates no auction leaves both lists alone; one that does puts it at the
front of its list. -/
theorem job_lists {job : Job} {env : JobEnv} (ran : s.runJob env job = .ok (s', effects)) :
    match registeredHours s (.job job env) with
    | none => s'.nextAuction = s.nextAuction ∧ s'.cellListTimeOrder48 = s.cellListTimeOrder48 ∧
        s'.cellListTimeOrder24 = s.cellListTimeOrder24
    | some time => s'.nextAuction = s.nextAuction + 1 ∧
        s'.cellListTimeOrder48 =
          (if long time then s.nextAuction :: s.cellListTimeOrder48 else s.cellListTimeOrder48) ∧
        s'.cellListTimeOrder24 =
          if short time then s.nextAuction :: s.cellListTimeOrder24 else s.cellListTimeOrder24 := by
  unfold registeredHours
  dsimp only
  cases Store.job_turn ran with
  | join sessionID => exact ⟨rfl, rfl, rfl⟩
  | leaveUnknown unknown => exact ⟨rfl, rfl, rfl⟩
  | leave known => exact ⟨rfl, rfl, rfl⟩
  | changeAble accountNo ownList => exact ⟨rfl, rfl, rfl⟩
  | dropped refused => exact ⟨rfl, rfl, rfl⟩
  | packet ret known own turn =>
    cases turn with
    | saleRefused type => exact ⟨rfl, rfl, rfl⟩
    | sale terms job type check => exact ⟨rfl, rfl, rfl⟩
    | search replies type => exact ⟨rfl, rfl, rfl⟩
    | bidRefused type refused => exact ⟨rfl, rfl, rfl⟩
    | bid ownList type accepted => exact ⟨rfl, rfl, rfl⟩
    | changeNickname ownList job type check => exact ⟨rfl, rfl, rfl⟩
    | unknownPlayer type unknown => exact ⟨rfl, rfl, rfl⟩
    | playerInfo nickName replies type known copied => exact ⟨rfl, rfl, rfl⟩
    | unknownType other => exact ⟨rfl, rfl, rfl⟩
  | registerRefused sessionID flag full =>
    dsimp only [Store.registration]
    rw [if_pos full]
    exact ⟨rfl, rfl, rfl⟩
  | registerUnasked sessionID slot unasked =>
    dsimp only [Store.registration]
    rw [if_neg slot, unasked]
    exact ⟨rfl, rfl, rfl⟩
  | registerUnknown sessionID slot asked unknown =>
    dsimp only [Store.registration]
    rw [if_neg slot, asked, unknown]
    exact ⟨rfl, rfl, rfl⟩
  | @register sessionID accountNo terms pPlayer slot asked known =>
    rw [Store.registration_found slot asked known]
    dsimp only [Option.bind_some, Store.newAuction]
    rw [asked]
    refine ⟨rfl, ?_, ?_⟩
    · by_cases many : 24 < terms.time <;> simp [Store.enlist, Store.registering, long, many]
    · by_cases many : 24 < terms.time <;> simp [Store.enlist, Store.registering, short, long, many]

/-- A job keeps the ledger, and tells the database of no sale. -/
theorem job_ledger {job : Job} {env : JobEnv} {sold : List DBCheckJob} (ledger : Ledger s.toAuctionBook sold)
    (ran : s.runJob env job = .ok (s', effects)) :
    Ledger s'.toAuctionBook (sold ++ Store.soldJobs effects) := by
  obtain ⟨unsold, book⟩ := Store.job_event ran
  rw [unsold, List.append_nil]
  cases made : s.jobEvent env job with
  | none =>
    rw [made] at book
    rwa [book]
  | some event =>
    rw [made] at book
    generalize s'.toAuctionBook = b' at book ⊢
    have separate := step_separate ledger.separate book
    cases book with
    | registered sale noBidder noBid =>
      refine ledger_kept ledger separate rfl (Nat.le_succ _) fun r pooled _ => ?_
      rw [auctions_register, if_neg (Nat.ne_of_lt pooled)]
    | bid found higher other =>
      refine ledger_kept ledger separate rfl (Nat.le_refl _) fun r _ done => ?_
      rw [auctions_bid, if_neg]
      rintro rfl
      exact running_of_found ledger.separate found done
    | imminent found =>
      exact move_ledger ledger _ found
    | ended found =>
      obtain ⟨_, same, _⟩ | ⟨_, same, _⟩ := Store.job_event_cases made <;> cases same

/-- `Update` keeps it, with what it tells the database. -/
theorem update_ledger {env : UpdateEnv} {sold : List DBCheckJob} (ledger : Ledger s.toAuctionBook sold)
    (ran : s.update env = .ok (s', effects)) :
    Ledger s'.toAuctionBook (sold ++ Store.soldJobs effects) := by
  obtain ⟨midway, minute, rfl, rfl⟩ := Store.update_cases ran
  obtain ⟨half, _⟩ := Store.update_minute_cases (P := fun b => Ledger b sold) minute
    (fun _ _ _ _ ledger found _ => move_ledger ledger _ found) ledger
  have ends (_ : midway.elapsed env 5000) (b : AuctionBook) (jobs : List DBCheckJob) (wstr : WString)
      (pData : AuctionRef) (ledger : Ledger b (sold ++ jobs))
      (found : b.imminentList.find wstr = some pData) (_ : (b.auctions pData).endTime < env.curTime) :
      Ledger (b.finish wstr pData)
        (sold ++ (jobs ++ [Store.soldJob (env.block wstr) ((b.finish wstr pData).auctions pData)])) := by
    rw [← List.append_assoc]
    exact finish_ledger ledger (env.block wstr) found
  obtain ⟨book, final, kept⟩ := Store.update_five_seconds_cases (s := midway) env
    (P := fun b jobs => Ledger b (sold ++ jobs)) ends (by rwa [List.append_nil])
  rw [final]
  exact kept

theorem defined_self {env : UpdateEnv} (defined : env.undefined = none) : TailTrim.defined env = env := by
  cases env
  cases defined
  rfl

/-- A minute's block that returns has found two last auctions that stay, and has changed
neither list. -/
theorem minute_ran {env : UpdateEnv} (defined : env.undefined = none)
    (ran : s.updateMinute env = .ok s') (elapsed : s.elapsed env 60000) :
    s' = { sweptCells env s with cellListPriceOrder := s'.cellListPriceOrder } ∧
      (∀ r ∈ s.cellListTimeOrder24.getLast?, hasEnded (sweptCells env s) r = false) ∧
      ∀ r ∈ s.cellListTimeOrder48.getLast?,
        ¬((sweptCells env s).auctions r).endTime < env.curTime + 1000 * 60 * 60 * 24 := by
  obtain ⟨order24, order48⟩ := swept_lists env s
  unfold Store.updateMinute at ran
  rw [if_pos elapsed] at ran
  obtain ⟨trimmed, trim, ran⟩ := bind_ok.mp ran
  have loops := (@trim_orders_defined env _ trimmed).mp (by rwa [defined_self defined])
  obtain ⟨first, trim24, trim48⟩ := bind_ok.mp loops
  obtain ⟨rfl, kept24⟩ := Store.trim24_ok.mp trim24
  obtain ⟨rfl, kept48⟩ := Store.trim48_ok.mp trim48
  cases ran
  change (sweptCells env s).cellListTimeOrder24 = _ at order24
  change ∀ r ∈ (sweptCells env s).cellListTimeOrder24.getLast?, _ at kept24
  change ∀ r ∈ (sweptCells env s).cellListTimeOrder48.getLast?, _ at kept48
  rw [order24] at kept24
  rw [order48] at kept48
  exact ⟨rfl, fun r last => decide_eq_false (kept24 r last), kept48⟩

/-- It returns exactly if it finds them so. -/
theorem minute_defined_iff {env : UpdateEnv} (defined : env.undefined = none) (elapsed : s.elapsed env 60000) :
    (∃ s', s.updateMinute env = .ok s') ↔
      (∀ r ∈ s.cellListTimeOrder24.getLast?, hasEnded (sweptCells env s) r = false) ∧
        ∀ r ∈ s.cellListTimeOrder48.getLast?,
          ¬((sweptCells env s).auctions r).endTime < env.curTime + 1000 * 60 * 60 * 24 := by
  constructor
  · rintro ⟨s', ran⟩
    exact (minute_ran defined ran elapsed).2
  · rintro ⟨kept24, kept48⟩
    obtain ⟨order24, order48⟩ := swept_lists env s
    rw [← order24] at kept24
    rw [← order48] at kept48
    have loops : (sweptCells env s).trimTimeOrder24 >>= Store.trimTimeOrder48 env = .ok (sweptCells env s) :=
      bind_ok.mpr ⟨_, Store.trim24_ok.mpr ⟨rfl, fun r last => of_decide_eq_false (kept24 r last)⟩,
        Store.trim48_ok.mpr ⟨rfl, kept48⟩⟩
    have trimmed := (@trim_orders_defined env _ _).mpr loops
    rw [defined_self defined] at trimmed
    exact ⟨_, (if_pos elapsed).trans (bind_ok.mpr ⟨_, trimmed, rfl⟩)⟩

/-- An `Update` that does not return has erased the end of a list. -/
theorem update_fault {env : UpdateEnv} {fault : Fault} (defined : env.undefined = none)
    (failed : s.update env = .error fault) : fault = .endIterator := by
  rcases bind_error.mp failed with minute | ⟨_, _, rest⟩
  · unfold Store.updateMinute at minute
    split at minute
    · rcases bind_error.mp minute with orders | ⟨_, _, rest⟩
      · unfold Store.trimTimeOrders at orders
        rw [defined] at orders
        split at orders
        · cases orders
        · next trim _ =>
          cases orders
          exact Store.trim_fault trim
        · next undefined => cases undefined
      · cases rest
    · cases minute
  · cases rest

/-- `Update` leaves both lists alone. -/
theorem update_lists {env : UpdateEnv} (defined : env.undefined = none)
    (ran : s.update env = .ok (s', effects)) :
    s'.cellListTimeOrder48 = s.cellListTimeOrder48 ∧ s'.cellListTimeOrder24 = s.cellListTimeOrder24 := by
  obtain ⟨midway, minute, rfl, _⟩ := Store.update_cases ran
  obtain ⟨book, final, _⟩ := Store.update_five_seconds_cases env (s := midway) (P := fun _ _ => True)
    (fun _ _ _ _ _ _ _ _ => trivial) trivial
  rw [final]
  by_cases elapsed : s.elapsed env 60000
  · obtain ⟨order24, order48⟩ := swept_lists env s
    obtain ⟨same, _⟩ := minute_ran defined minute elapsed
    rw [same]
    exact ⟨order48, order24⟩
  · unfold Store.updateMinute at minute
    rw [if_neg elapsed] at minute
    cases minute
    exact ⟨rfl, rfl⟩

end Steps

/-! ## Runs -/

/-- The lists hold what the history says. -/
structure Recent (log : List Entry) (s : Store) : Prop where
  next : s.nextAuction = (hours log).length
  timeOrder48 : s.cellListTimeOrder48 = (listed long (hours log)).reverse
  timeOrder24 : s.cellListTimeOrder24 = (listed short (hours log)).reverse
  ledger : Ledger s.toAuctionBook (Store.soldJobs (log.flatMap Entry.effects))

section Runs
variable {s s' t : Store} {log : List Entry} {entry : Entry} {auctions : AuctionRef → AuctionData}
  {packetType : UInt16}

theorem recent_start (auctions : AuctionRef → AuctionData) (packetType : UInt16) :
    Recent [] (Store.empty auctions packetType) :=
  ⟨rfl, rfl, rfl, empty_ledger auctions packetType⟩

theorem recent_step (recent : Recent log s) (taken : Logs s entry s') (defined : Defined s entry) :
    Recent (log ++ [entry]) s' := by
  obtain ⟨next, order48, order24, ledger⟩ := recent
  obtain ⟨ran, made⟩ := taken
  have history := hours_append log entry
  have told : Store.soldJobs ((log ++ [entry]).flatMap Entry.effects) =
      Store.soldJobs (log.flatMap Entry.effects) ++ Store.soldJobs entry.effects := by
    rw [List.flatMap_append, Store.sold_jobs_append, List.flatMap_singleton]
  cases step : entry.step with
  | update env =>
    rw [step] at ran made
    rw [made, registeredHours, Option.toList_none, List.append_nil] at history
    obtain ⟨same48, same24⟩ := update_lists (defined env step) ran
    refine ⟨?_, by rw [same48, order48, history], by rw [same24, order24, history], ?_⟩
    · rw [Store.update_next ran, next, history]
    · rw [told]
      exact update_ledger ledger ran
  | job job env =>
    rw [step] at ran made
    have lists := job_lists ran
    rw [← made] at lists
    have kept := job_ledger ledger ran
    rw [← told] at kept
    cases asked : entry.hours with
    | none =>
      rw [asked] at lists history
      rw [Option.toList_none, List.append_nil] at history
      obtain ⟨same, same48, same24⟩ := lists
      exact ⟨by rw [same, next, history], by rw [same48, order48, history],
        by rw [same24, order24, history], kept⟩
    | some time =>
      rw [asked] at lists history
      rw [Option.toList_some] at history
      obtain ⟨more, new48, new24⟩ := lists
      refine ⟨?_, ?_, ?_, kept⟩
      · rw [more, next, history, List.length_append, List.length_singleton]
      · rw [new48, order48, next, history, listed_append, List.reverse_append]
        split <;> rfl
      · rw [new24, order24, next, history, listed_append, List.reverse_append]
        split <;> rfl

/-- The clock is far from the end of its 64 bits. -/
def Early (_ : Store) (entry : Entry) : Prop :=
  ∀ env, entry.step = .update env → env.curTime.toNat < 2 ^ 63

/-- The oldest auction of each list: the long one ends no sooner than a day from now, and
the short one has not ended. -/
structure Passable (env : UpdateEnv) (log : List Entry) (s : Store) : Prop where
  long : ∀ r ∈ (listed long (hours log)).head?,
    env.curTime.toNat + 24 * 60 * 60 * 1000 ≤ (s.auctions r).endTime.toNat
  short : ∀ r ∈ (listed short (hours log)).head?, ¬(s.auctions r).status.ended

/-- Without a wrapping sum the loop compares with a day from now. -/
theorem ends_within_day {env : UpdateEnv} {r : AuctionRef} (early : env.curTime.toNat < 2 ^ 63) :
    (s.auctions r).endTime < env.curTime + 1000 * 60 * 60 * 24 ↔ endsWithinDay env s r = true := by
  have day : (1000 * 60 * 60 * 24 : UInt64).toNat = 86400000 := rfl
  unfold endsWithinDay
  rw [decide_eq_true_iff, UInt64.lt_iff_toNat_lt, UInt64.toNat_add, day,
    Nat.mod_eq_of_lt (by omega)]

/-- An auction that has ended is in neither map, so the loop over `CellList` leaves it. -/
theorem swept_ended {env : UpdateEnv} (separate : Separate s.toAuctionBook) (r : AuctionRef) :
    hasEnded (sweptCells env s) r = false ↔ ¬(s.auctions r).status.ended := by
  rw [swept_ended_iff]
  constructor
  · intro only done
    obtain ⟨listed, _⟩ := only (decide_eq_true done)
    obtain ⟨wstr, found⟩ := UnorderedMap.mem_values.mp listed
    exact AuctionStatus.running_of_sale (separate.cell wstr r found) done
  · intro running done
    exact absurd (of_decide_eq_true done) running

/-- `Update` is defined as long as the block of the minute finds the oldest auctions so. -/
theorem update_defined_iff {env : UpdateEnv} (recent : Recent log s) (defined : env.undefined = none)
    (early : env.curTime.toNat < 2 ^ 63) : (∃ s' effects, s.update env = .ok (s', effects)) ↔
      (s.elapsed env 60000 → Passable env log s) := by
  have minute : (∃ s' effects, s.update env = .ok (s', effects)) ↔ ∃ s', s.updateMinute env = .ok s' := by
    constructor
    · rintro ⟨s', effects, ran⟩
      obtain ⟨midway, ran, _⟩ := Store.update_cases ran
      exact ⟨midway, ran⟩
    · rintro ⟨midway, ran⟩
      exact ⟨_, _, bind_ok.mpr ⟨midway, ran, rfl⟩⟩
  have within := swept_within_day env s
  rw [minute]
  by_cases elapsed : s.elapsed env 60000
  · rw [minute_defined_iff defined elapsed, recent.timeOrder48, recent.timeOrder24,
      List.getLast?_reverse, List.getLast?_reverse]
    refine ⟨fun passed _ => ⟨fun r first => ?_, fun r first => ?_⟩,
      fun passed => ⟨fun r first => ?_, fun r first => ?_⟩⟩
    · have later := passed.2 r first
      rw [ends_within_day early, within, Bool.not_eq_true] at later
      exact Nat.le_of_not_lt (of_decide_eq_false later)
    · exact (swept_ended recent.ledger.separate r).mp (passed.1 r first)
    · exact (swept_ended recent.ledger.separate r).mpr ((passed elapsed).short r first)
    · rw [ends_within_day early, within, Bool.not_eq_true]
      exact decide_eq_false (Nat.not_lt_of_le ((passed elapsed).long r first))
  · refine iff_of_true ?_ fun ended => absurd ended elapsed
    exact ⟨s, if_neg elapsed⟩

/-- Otherwise it erases `end()`. -/
theorem update_stops_iff {env : UpdateEnv} (recent : Recent log s) (defined : env.undefined = none)
    (early : env.curTime.toNat < 2 ^ 63) :
    s.update env = .error .endIterator ↔ s.elapsed env 60000 ∧ ¬Passable env log s := by
  have returns := update_defined_iff recent defined early
  rw [← Classical.not_imp, ← returns]
  constructor
  · rintro failed ⟨s', effects, ran⟩
    cases failed.symm.trans ran
  · intro stuck
    cases ran : s.update env with
    | ok next => exact absurd ⟨next.1, next.2, ran⟩ stuck
    | error fault => rw [update_fault defined ran]

/-- An `Update` that returns leaves a first long auction on sale: were it due, it would get
at most twelve minutes more, and the loop over its list would find it. -/
theorem update_first_sale {env : UpdateEnv} {effects : List Effect} {r : AuctionRef}
    (recent : Recent log s) (defined : env.undefined = none) (early : env.curTime.toNat < 2 ^ 63)
    (first : r ∈ (listed long (hours log)).head?) (sale : (s.auctions r).status = .sale)
    (ran : s.update env = .ok (s', effects)) : (s'.auctions r).status = .sale := by
  obtain ⟨midway, minute, rfl, _⟩ := Store.update_cases ran
  have half : Separate midway.toAuctionBook ∧ (midway.auctions r).status = .sale := by
    refine ⟨(Store.update_minute_cases minute
      (fun _ _ _ _ separate found _ => imminent_separate separate _ found) recent.ledger.separate).1, ?_⟩
    by_cases elapsed : s.elapsed env 60000
    · obtain ⟨same, _, later⟩ := minute_ran defined minute elapsed
      rw [recent.timeOrder48, List.getLast?_reverse] at later
      have later := later r first
      rw [ends_within_day early, swept_within_day, Bool.not_eq_true] at later
      have due : ¬(s.auctions r).endTime < env.curTime := by
        have far := of_decide_eq_false later
        rw [UInt64.lt_iff_toNat_lt]
        omega
      rw [same]
      change ((sweptCells env s).auctions r).status = .sale
      unfold sweptCells
      rw [swept_status, if_neg fun both => due both.2, sale]
    · unfold Store.updateMinute at minute
      rw [if_neg elapsed] at minute
      cases minute
      exact sale
  have ends (_ : midway.elapsed env 5000) (b : AuctionBook) (_ : List DBCheckJob) (wstr : WString)
      (pData : AuctionRef) (running : Separate b ∧ (b.auctions r).status = .sale)
      (found : b.imminentList.find wstr = some pData) (_ : (b.auctions pData).endTime < env.curTime) :
      Separate (b.finish wstr pData) ∧ ((b.finish wstr pData).auctions r).status = .sale := by
    obtain ⟨separate, sale⟩ := running
    refine ⟨finish_separate separate found, ?_⟩
    have imminent := separate.imminent wstr pData found
    rw [auctions_finish, if_neg]
    · exact sale
    · rintro rfl
      cases sale.symm.trans imminent
  obtain ⟨book, final, _, kept⟩ := Store.update_five_seconds_cases env (s := midway)
    (P := fun b _ => Separate b ∧ (b.auctions r).status = .sale) ends half
  rw [final]
  exact kept

/-- A job leaves it on sale too, or creates it. -/
theorem job_first_sale {job : Job} {env : JobEnv} {effects : List Effect} {r : AuctionRef}
    (pooled : r < s.nextAuction → (s.auctions r).status = .sale) (known : r < s'.nextAuction)
    (ran : s.runJob env job = .ok (s', effects)) : (s'.auctions r).status = .sale := by
  obtain ⟨_, book⟩ := Store.job_event ran
  cases made : s.jobEvent env job with
  | none =>
    rw [made] at book
    dsimp only at book
    rw [book] at known ⊢
    exact pooled known
  | some event =>
    rw [made] at book
    generalize s'.toAuctionBook = b' at book known ⊢
    cases book with
    | registered sale noBidder noBid =>
      rw [auctions_register]
      split
      · exact sale
      · next older => exact pooled (Nat.lt_of_le_of_ne (Nat.lt_succ_iff.mp known) older)
    | bid found higher other =>
      rw [bid_field s.toAuctionBook _ r _ _ AuctionData.status fun _ _ _ _ => rfl]
      exact pooled known
    | imminent found =>
      obtain ⟨_, same, _⟩ | ⟨_, same, _⟩ := Store.job_event_cases made <;> cases same
    | ended found =>
      obtain ⟨_, same, _⟩ | ⟨_, same, _⟩ := Store.job_event_cases made <;> cases same

/-- The history, and the first long auction on sale. -/
theorem first_sale_run
    (run : Run (Meeting Logs fun s entry => Defined s entry ∧ Early s entry)
      (Store.empty auctions packetType) log t) :
    Recent log t ∧ ∀ r ∈ (listed long (hours log)).head?, (t.auctions r).status = .sale := by
  refine run.history (P := fun log t => Recent log t ∧
    ∀ r ∈ (listed long (hours log)).head?, (t.auctions r).status = .sale) ?_
    ⟨recent_start auctions packetType, fun r none => by cases none⟩
  rintro log s entry s' ⟨recent, sale⟩ ⟨taken, defined, early⟩
  have recent' := recent_step recent taken defined
  refine ⟨recent', fun r first => ?_⟩
  have member := List.mem_of_mem_head? first
  have known : r < s'.nextAuction := by
    rw [recent'.next]
    exact listed_lt member
  have older (before : r < s.nextAuction) : r ∈ (listed long (hours log)).head? := by
    rw [hours_append] at first
    cases made : entry.hours with
    | none =>
      rw [made, Option.toList_none, List.append_nil] at first
      exact first
    | some time =>
      rw [made, Option.toList_some, listed_append] at first
      cases past : listed long (hours log) with
      | nil =>
        rw [past, List.nil_append] at first
        split at first
        · cases first
          exact absurd before (recent.next ▸ Nat.lt_irrefl _)
        · cases first
      | cons oldest rest =>
        rw [past] at first
        exact first
  obtain ⟨ran, _⟩ := taken
  cases step : entry.step with
  | job job env =>
    rw [step] at ran
    exact job_first_sale (fun before => sale r (older before)) known ran
  | update env =>
    rw [step] at ran
    have before : r < s.nextAuction := (Store.update_next ran) ▸ known
    exact update_first_sale recent (defined env step) (early env step) (older before) (sale r (older before)) ran

/-- In every defined run the first auction ever registered for more than 24 hours stays on
sale for ever, and `Update` is defined as long as, when its block of the minute runs, that
auction has a day left and the first of the others has not ended. Otherwise it erases
`end()`. -/
theorem minutes_run_out
    (run : Run (Meeting Logs fun s entry => Defined s entry ∧ Early s entry)
      (Store.empty auctions packetType) log t) :
    (∀ r ∈ (listed long (hours log)).head?, (t.auctions r).status = .sale) ∧
      ∀ env : UpdateEnv, env.undefined = none → env.curTime.toNat < 2 ^ 63 →
        ((∃ t' effects, t.update env = .ok (t', effects)) ↔
          (t.elapsed env 60000 → Passable env log t)) ∧
        (t.update env = .error .endIterator ↔ t.elapsed env 60000 ∧ ¬Passable env log t) := by
  obtain ⟨recent, sale⟩ := first_sale_run run
  exact ⟨sale, fun env defined early =>
    ⟨update_defined_iff recent defined early, update_stops_iff recent defined early⟩⟩

end Runs

/-! ## One long auction -/

open IndexConsistency (emptyStore)

/-- `REQ_SALE` of the nickname every new player has, for two days from price 1. -/
def longRequest : ByteMemory.Bytes :=
  [1, 0] ++ [78, 0, 85, 0, 76, 0, 76, 0] ++ List.replicate 12 0 ++ [48] ++ [1, 0, 0, 0]

/-- A player joins, asks for a sale of two days, and has it registered. -/
def longSale : List Entry :=
  [⟨.job (.onClientJoin 0) (.zero 0), [], none⟩,
    ⟨.job (.onRecv 0 longRequest) (.zero 0),
      [.enqueueDB ⟨.nicknameRegisterCheck, 0, 0, 0, 0, [78, 85, 76, 76], []⟩], none⟩,
    ⟨.job (.nicknameRegisterAble 0 0) (.zero 0),
      [.send 0 (.resSale .success), .enqueueDB ⟨.nicknameChangeCheck, 0, 0, 0, 0, [78, 85, 76, 76], []⟩],
      some 48⟩]

/-- `Update`, a day later. -/
def dayLater : UpdateEnv :=
  ⟨86400000, fun _ => middleDraw, fun _ => (JobEnv.zero 0).block, none⟩

theorem long_sale_runs : ∃ (t : Store) (effects : List Effect),
    Run (Meeting Logs fun s entry => Defined s entry ∧ Early s entry) emptyStore longSale t ∧
      t.sendInitPackets (Store.joined 0) = .ok effects ∧
      t.elapsed dayLater 60000 ∧ (t.auctions 0).endTime = 172200000 := by
  refine ⟨_, _, .cons ⟨⟨rfl, rfl⟩, ?_, ?_⟩ (.cons ⟨⟨rfl, rfl⟩, ?_, ?_⟩
    (.cons ⟨⟨rfl, rfl⟩, ?_, ?_⟩ (.nil _))), rfl, of_decide_eq_true rfl, rfl⟩ <;>
    exact fun env other => by cases other

/-- The sale stays, and after a day it is in the way. -/
theorem long_sale_stays : ∃ t, Run (Meeting Logs fun s entry => Defined s entry ∧ Early s entry)
    emptyStore longSale t ∧ (t.auctions 0).status = .sale ∧
      t.update dayLater = .error .endIterator := by
  obtain ⟨t, _, run, _, elapsed, ends⟩ := long_sale_runs
  obtain ⟨stays, update⟩ := minutes_run_out run
  refine ⟨t, run, stays 0 rfl, (update dayLater rfl (by decide)).2.mpr ⟨elapsed, fun passable => ?_⟩⟩
  have later := passable.long 0 rfl
  rw [ends] at later
  exact absurd later (by decide)

end NewNameAuction.RecentLists
