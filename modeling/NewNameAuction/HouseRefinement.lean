import NewNameAuction.AuctionEvents
import NewNameAuction.AuctionHouse

/-! The auction server as a house of ascending auctions. As long as nobody registers under
a name that is running, and no bidder is account 0, whatever `LogicThread` does to the
book of auctions is what a house does: the two maps are the index of its running lots,
`FinList` is its ledger, and the database is told what the house says of the lots that
close. -/
namespace NewNameAuction.HouseRefinement
open AuctionHouse

abbrev Lots := House WString Int64 Int32

/-! ## The lots of a book -/

def phaseOf : AuctionStatus → Phase
  | .sale => .onSale
  | .imminent => .closing
  | .fin => .sold
  | .finFail => .failed

/-- Account 0 stands for nobody. -/
def bidderOf (account : Int64) : Option Int64 := if account = 0 then none else some account

def lotOf (data : AuctionData) : Lot WString Int64 Int32 where
  name := data.nickName.chars
  owner := data.ownerID
  phase := phaseOf data.status
  price := data.price
  bidder := bidderOf data.bidderID

/-- A map of running auctions, as the index of the lots in one phase. -/
def Indexes (entries : UnorderedMap WString AuctionRef) (house : Lots) (phase : Phase) : Prop :=
  ∀ wstr r, entries.find wstr = some r ↔ ∃ lot, house.lots[r]? = some lot ∧ lot.phase = phase ∧ lot.name = wstr

/-- `b` holds the lots of the house, under their names in the map of their phase. -/
structure Represents (b : AuctionBook) (house : Lots) : Prop where
  length : house.lots.length = b.nextAuction
  record : ∀ r < b.nextAuction, house.lots[r]? = some (lotOf (b.auctions r))
  cell : Indexes b.cellList house .onSale
  imminent : Indexes b.imminentList house .closing
  ledger : b.finList = house.sold
  valid : Valid house

section Books
variable {b b' : AuctionBook} {house : Lots} {wstr : WString} {r pData : AuctionRef} {data : AuctionData}
  {event : AuctionBook.Event}

theorem empty_represents (auctions : AuctionRef → AuctionData) (packetType : UInt16) :
    Represents (Store.empty auctions packetType).toAuctionBook ⟨[], []⟩ where
  length := rfl
  record := fun r inside => absurd inside (Nat.not_lt_zero r)
  cell := fun _ _ => ⟨fun found => (nomatch found), fun there => by
    obtain ⟨lot, there, _⟩ := there
    cases there⟩
  imminent := fun _ _ => ⟨fun found => (nomatch found), fun there => by
    obtain ⟨lot, there, _⟩ := there
    cases there⟩
  ledger := rfl
  valid := empty_valid

/-- A lot of the house is a record of the book. -/
theorem Represents.lot (rep : Represents b house) {lot : Lot WString Int64 Int32}
    (there : house.lots[r]? = some lot) : r < b.nextAuction ∧ lot = lotOf (b.auctions r) := by
  obtain ⟨inside, _⟩ := List.getElem?_eq_some_iff.mp there
  rw [rep.length] at inside
  exact ⟨inside, Option.some.inj (there.symm.trans (rep.record r inside))⟩

/-- The auction that bids under a name are for is the running lot of that name. -/
theorem find_runs (rep : Represents b house) : b.find wstr = some r ↔ house.Runs wstr r := by
  unfold AuctionBook.find
  constructor
  · intro found
    split at found
    · next pData imminent =>
      cases found
      obtain ⟨lot, there, closing, named⟩ := (rep.imminent wstr _).mp imminent
      exact ⟨lot, there, .inr closing, named⟩
    · obtain ⟨lot, there, onSale, named⟩ := (rep.cell wstr _).mp found
      exact ⟨lot, there, .inl onSale, named⟩
  · rintro ⟨lot, there, running, named⟩
    split
    · next pData imminent =>
      obtain ⟨other, here, closing, named'⟩ := (rep.imminent wstr _).mp imminent
      exact congrArg some (rep.valid.names wstr _ _ ⟨other, here, .inr closing, named'⟩
        ⟨lot, there, running, named⟩)
    · next absent =>
      rcases running with onSale | closing
      · exact (rep.cell wstr r).mpr ⟨lot, there, onSale, named⟩
      · rw [(rep.imminent wstr r).mpr ⟨lot, there, closing, named⟩] at absent
        cases absent

/-! ## One record -/

/-- A write that leaves phase and name of the lot leaves the index. -/
theorem indexes_put {entries : UnorderedMap WString AuctionRef} {phase : Phase}
    {lot lot' : Lot WString Int64 Int32} (indexes : Indexes entries house phase)
    (there : house.lots[pData]? = some lot) (same : lot'.phase = lot.phase) (named : lot'.name = lot.name) :
    Indexes entries (house.put pData lot') phase := by
  intro wstr r
  rw [indexes wstr r]
  by_cases here : pData = r
  · subst here
    rw [put_self there, there]
    simp [same, named]
  · rw [put_other here]

/-- A lot leaves the phase that is indexed, and its name the index. -/
theorem indexes_erase {entries : UnorderedMap WString AuctionRef} {phase : Phase}
    {lot lot' : Lot WString Int64 Int32} (indexes : Indexes entries house phase)
    (there : house.lots[pData]? = some lot) (leaves : lot'.phase ≠ phase)
    (found : entries.find wstr = some pData) : Indexes (entries.erase wstr) (house.put pData lot') phase := by
  intro key r
  rw [UnorderedMap.find_erase]
  by_cases here : pData = r
  · subst here
    rw [put_self there]
    obtain ⟨other, here, _, named⟩ := (indexes wstr pData).mp found
    cases there.symm.trans here
    refine iff_of_false ?_ fun still => ?_
    · split
      · simp
      · next apart =>
        intro known
        obtain ⟨other, here, _, named'⟩ := (indexes key pData).mp known
        cases there.symm.trans here
        exact apart (named'.symm.trans named)
    · obtain ⟨other, here, phased, _⟩ := still
      cases here
      exact leaves phased
  · rw [put_other here, ← indexes key r]
    split
    · next same =>
      subst same
      rw [found]
      simp [here]
    · rfl

/-- A lot comes to the phase that is indexed, and its name, which is new, to the index. -/
theorem indexes_emplace {entries : UnorderedMap WString AuctionRef} {phase : Phase}
    {lot lot' : Lot WString Int64 Int32} (indexes : Indexes entries house phase)
    (there : house.lots[pData]? = some lot) (other : lot.phase ≠ phase) (comes : lot'.phase = phase)
    (new : lot'.name ∉ entries) : Indexes (entries.emplace lot'.name pData) (house.put pData lot') phase := by
  intro key r
  rw [UnorderedMap.find_emplace]
  by_cases here : pData = r
  · subst here
    rw [put_self there]
    have absent : entries.find key ≠ some pData := fun known => by
      obtain ⟨lot', here, phased, _⟩ := (indexes key pData).mp known
      cases there.symm.trans here
      exact other phased
    by_cases same : key = lot'.name
    · subst same
      rw [UnorderedMap.find_eq_none.mpr new]
      simp [comes]
    · rw [if_neg same, Option.or_none]
      refine iff_of_false absent fun still => ?_
      obtain ⟨other, here, _, named⟩ := still
      cases here
      exact same named.symm
  · rw [put_other here, ← indexes key r]
    split
    · next same =>
      subst same
      rw [UnorderedMap.find_eq_none.mpr new]
      simp [here]
    · rw [Option.or_none]

/-- A lot that is in another phase before and after. -/
theorem indexes_apart {entries : UnorderedMap WString AuctionRef} {phase : Phase}
    {lot lot' : Lot WString Int64 Int32} (indexes : Indexes entries house phase)
    (there : house.lots[pData]? = some lot) (other : lot.phase ≠ phase) (other' : lot'.phase ≠ phase) :
    Indexes entries (house.put pData lot') phase := by
  intro key r
  rw [indexes key r]
  by_cases here : pData = r
  · subst here
    rw [put_self there, there]
    simp [other, other']
  · rw [put_other here]

/-- A new lot, whose phase is another one. -/
theorem indexes_append {entries : UnorderedMap WString AuctionRef} {phase : Phase}
    {lot : Lot WString Int64 Int32} (indexes : Indexes entries house phase) (other : lot.phase ≠ phase) :
    Indexes entries { house with lots := house.lots ++ [lot] } phase := by
  intro key r
  rw [indexes key r, lots_append]
  split
  · next same =>
    rw [same, List.getElem?_eq_none (Nat.le_refl _)]
    simp [other]
  · rfl

/-- A new lot, whose phase is indexed. -/
theorem indexes_listed {entries : UnorderedMap WString AuctionRef} {phase : Phase}
    {lot : Lot WString Int64 Int32} (indexes : Indexes entries house phase) (comes : lot.phase = phase)
    (new : lot.name ∉ entries) :
    Indexes (entries.emplace lot.name house.lots.length) { house with lots := house.lots ++ [lot] } phase := by
  intro key r
  rw [UnorderedMap.find_emplace, lots_append]
  by_cases here : r = house.lots.length
  · subst here
    have absent : entries.find key ≠ some house.lots.length := fun known => by
      obtain ⟨other, there, _⟩ := (indexes key _).mp known
      rw [List.getElem?_eq_none (Nat.le_refl _)] at there
      cases there
    rw [if_pos rfl]
    by_cases same : key = lot.name
    · subst same
      rw [UnorderedMap.find_eq_none.mpr new]
      simp [comes]
    · rw [if_neg same, Option.or_none]
      refine iff_of_false absent fun still => ?_
      obtain ⟨other, here, _, named⟩ := still
      cases here
      exact same named.symm
  · rw [if_neg here, ← indexes key r]
    split
    · next same =>
      subst same
      rw [UnorderedMap.find_eq_none.mpr new]
      simp [Ne.symm here]
    · rw [Option.or_none]

/-! ## One step -/

/-- The records after one of them is written. -/
theorem put_records (b' : AuctionBook) (rep : Represents b house) {lot : Lot WString Int64 Int32}
    (inside : pData < b.nextAuction) (next : b'.nextAuction = b.nextAuction)
    (written : lotOf (b'.auctions pData) = lot) (others : ∀ r, r ≠ pData → b'.auctions r = b.auctions r) :
    (house.put pData lot).lots.length = b'.nextAuction ∧
      ∀ r < b'.nextAuction, (house.put pData lot).lots[r]? = some (lotOf (b'.auctions r)) := by
  refine ⟨(List.length_set ..).trans (rep.length.trans next.symm), fun r before => ?_⟩
  by_cases here : pData = r
  · subst here
    rw [put_self (rep.record pData inside), written]
  · rw [put_other here, others r (Ne.symm here), rep.record r (next ▸ before)]

/-- The nickname of a registration is not running, and a bidder has an account. -/
def Proper (b : AuctionBook) : AuctionBook.Event → Prop
  | .registered data => data.nickName.chars ∉ b.cellList ∧ data.nickName.chars ∉ b.imminentList
  | .bid _ bidder _ => bidder ≠ 0
  | _ => True

theorem registered_represents (rep : Represents b house) (sale : data.status = .sale)
    (noBidder : data.bidderID = 0) (proper : Proper b (.registered data)) :
    ∃ event house', AuctionHouse.Step house event house' ∧ said event = none ∧
      Represents (b.register data) house' := by
  obtain ⟨noCell, notImminent⟩ := proper
  have onSale : (lotOf data).phase = .onSale := by rw [lotOf, sale, phaseOf]
  have new : ∀ i, ¬house.Runs (lotOf data).name i := fun i runs => by
    rcases AuctionBook.mem_of_find ((find_runs rep).mpr runs) with cell | imminent
    · exact noCell cell
    · exact notImminent imminent
  have step := AuctionHouse.Step.registered new onSale (by rw [lotOf, noBidder, bidderOf, if_pos rfl])
  refine ⟨_, _, step, rfl, ?_, fun r inside => ?_, ?_, ?_, rep.ledger, valid_step rep.valid step⟩
  · rw [List.length_append, rep.length]
    rfl
  · rw [lots_append, AuctionBook.auctions_register, rep.length]
    split
    · rfl
    · next other => exact rep.record r (Nat.lt_of_le_of_ne (Nat.lt_succ_iff.mp inside) other)
  · rw [AuctionBook.cellList_register, ← rep.length]
    exact indexes_listed rep.cell onSale noCell
  · exact indexes_append rep.imminent (by rw [onSale]; simp)

theorem bid_represents {bidder : Int64} {price : Int32} (rep : Represents b house)
    (found : b.find wstr = some pData) (higher : (b.auctions pData).price < price)
    (other : (b.auctions pData).ownerID ≠ bidder) (account : bidder ≠ 0) :
    ∃ event house', AuctionHouse.Step house event house' ∧ said event = none ∧
      Represents (b.bid pData bidder price) house' := by
  obtain ⟨lot, there, running, _⟩ := (find_runs rep).mp found
  obtain ⟨inside, rfl⟩ := rep.lot there
  have step := AuctionHouse.Step.bid there running higher other
  obtain ⟨length, record⟩ := put_records (b.bid pData bidder price) rep inside rfl
    (by rw [AuctionBook.auctions_bid, if_pos rfl, lotOf, bidderOf, if_neg account])
    fun r differs => by rw [AuctionBook.auctions_bid, if_neg differs]
  exact ⟨_, _, step, rfl, length, record, indexes_put rep.cell there rfl rfl,
    indexes_put rep.imminent there rfl rfl, rep.ledger, valid_step rep.valid step⟩

theorem imminent_represents (rep : Represents b house) (found : b.cellList.find wstr = some pData) (draw : Draw) :
    ∃ event house', AuctionHouse.Step house event house' ∧ said event = none ∧
      Represents (b.moveToImminent wstr pData draw) house' := by
  obtain ⟨lot, there, onSale, named⟩ := (rep.cell wstr pData).mp found
  obtain ⟨inside, rfl⟩ := rep.lot there
  have new : (lotOf (b.auctions pData)).name ∉ b.imminentList := fun listed => by
    obtain ⟨r, known⟩ := UnorderedMap.find_of_mem listed
    obtain ⟨other, here, closing, named'⟩ := (rep.imminent _ r).mp known
    obtain rfl := rep.valid.names _ r pData ⟨other, here, .inr closing, named'⟩ ⟨_, there, .inl onSale, rfl⟩
    cases there.symm.trans here
    cases onSale.symm.trans closing
  have step : AuctionHouse.Step house _ _ := .closing there onSale
  obtain ⟨length, record⟩ := put_records (b.moveToImminent wstr pData draw) rep inside rfl
    (by rw [AuctionBook.auctions_moveToImminent, if_pos rfl])
    fun r differs => by rw [AuctionBook.auctions_moveToImminent, if_neg differs]
  refine ⟨_, _, step, rfl, length, record, ?_, ?_, rep.ledger, valid_step rep.valid step⟩
  · exact indexes_erase rep.cell there (by simp) found
  · rw [AuctionBook.imminentList_moveToImminent, ← named]
    have comes : ({ lotOf (b.auctions pData) with phase := .closing } : Lot ..).phase = .closing := rfl
    exact indexes_emplace rep.imminent there (by rw [onSale]; simp) comes new

theorem ended_represents (rep : Represents b house) (found : b.imminentList.find wstr = some pData) :
    ∃ event house', AuctionHouse.Step house event house' ∧
      said event = some ((b.auctions pData).nickName.chars, bidderOf (b.auctions pData).bidderID) ∧
      Represents (b.finish wstr pData) house' := by
  obtain ⟨lot, there, closing, named⟩ := (rep.imminent wstr pData).mp found
  obtain ⟨inside, rfl⟩ := rep.lot there
  have step : AuctionHouse.Step house _ _ := .closed there closing
  have outcome : phaseOf (AuctionBook.finishStatus (b.auctions pData)) = (lotOf (b.auctions pData)).outcome := by
    unfold AuctionBook.finishStatus Lot.outcome lotOf bidderOf
    by_cases nobody : (b.auctions pData).bidderID = 0 <;> simp [nobody, phaseOf]
  have closed : (lotOf (b.auctions pData)).outcome ≠ .onSale ∧ (lotOf (b.auctions pData)).outcome ≠ .closing := by
    unfold Lot.outcome
    split <;> simp
  obtain ⟨length, record⟩ := put_records (b.finish wstr pData) rep inside
    (AuctionBook.nextAuction_finish ..)
    (by rw [AuctionBook.auctions_finish, if_pos rfl, lotOf, outcome])
    fun r differs => by rw [AuctionBook.auctions_finish, if_neg differs]
  refine ⟨_, _, step, rfl, length, record, ?_, ?_, ?_, valid_step rep.valid step⟩
  · rw [AuctionBook.cellList_finish]
    exact indexes_apart rep.cell there (by rw [closing]; simp) closed.1
  · rw [AuctionBook.imminentList_finish]
    exact indexes_erase rep.imminent there closed.2 found
  · rw [AuctionBook.finList_finish, rep.ledger]
    unfold lotOf bidderOf
    by_cases nobody : (b.auctions pData).bidderID = 0 <;> simp [nobody]

end Books

/-! ## Runs -/

section Runs
variable {s s' t : Store} {house : Lots} {effects : List Effect}

/-- What `DBAccessThread` is told of an auction that has ended. -/
def told (job : DBCheckJob) : WString × Option Int64 := (job.myNickName, bidderOf job.accountNo)

/-- What the house does meanwhile, and says of the lots it closes. -/
def Follows (house : Lots) (b : AuctionBook) (sold : List DBCheckJob) : Prop :=
  ∃ events house', Run AuctionHouse.Step house events house' ∧ events.filterMap said = sold.map told ∧
    Represents b house'

theorem follows_start {b : AuctionBook} (rep : Represents b house) : Follows house b [] :=
  ⟨[], house, .nil house, rfl, rep⟩

/-- One step more. -/
theorem follows_next {b b' : AuctionBook} {sold more : List DBCheckJob} (follows : Follows house b sold)
    (next : ∀ house', Represents b house' → ∃ event house'', AuctionHouse.Step house' event house'' ∧
      (said event).toList = more.map told ∧ Represents b' house'') : Follows house b' (sold ++ more) := by
  obtain ⟨events, house', run, tells, rep⟩ := follows
  obtain ⟨event, house'', step, tells', rep'⟩ := next house' rep
  refine ⟨events ++ [event], house'', run.append (.single step), ?_, rep'⟩
  rw [List.filterMap_append, tells, List.map_append, ← tells', List.filterMap_cons]
  cases said event <;> rfl

theorem follows_quiet {b b' : AuctionBook} {sold : List DBCheckJob} (follows : Follows house b sold)
    (next : ∀ house', Represents b house' → ∃ event house'', AuctionHouse.Step house' event house'' ∧
      said event = none ∧ Represents b' house'') : Follows house b' sold := by
  rw [← List.append_nil sold]
  refine follows_next follows fun house' rep => ?_
  obtain ⟨event, house'', step, silent, rep'⟩ := next house' rep
  exact ⟨event, house'', step, by rw [silent]; rfl, rep'⟩

/-- The event of a job is proper. -/
def ProperStep (s : Store) (taken : LogicStep × List Effect) : Prop :=
  match taken.1 with
  | .job job env => ∀ event, s.jobEvent env job = some event → Proper s.toAuctionBook event
  | .update _ => True

theorem job_follows {job : Job} {env : JobEnv} {sold : List DBCheckJob}
    (follows : Follows house s.toAuctionBook sold) (ran : s.runJob env job = .ok (s', effects))
    (proper : ∀ event, s.jobEvent env job = some event → Proper s.toAuctionBook event) :
    Follows house s'.toAuctionBook (sold ++ Store.soldJobs effects) := by
  obtain ⟨unsold, book⟩ := Store.job_event ran
  rw [unsold, List.append_nil]
  cases made : s.jobEvent env job with
  | none =>
    rw [made] at book
    rwa [book]
  | some event =>
    rw [made] at book
    have proper := proper event made
    generalize s'.toAuctionBook = b' at book ⊢
    refine follows_quiet follows fun house' rep => ?_
    cases book with
    | registered sale noBidder _ => exact registered_represents rep sale noBidder proper
    | bid found higher other => exact bid_represents rep found higher other proper
    | imminent found => exact imminent_represents rep found _
    | ended found =>
      obtain ⟨_, same, _⟩ | ⟨_, same, _⟩ := Store.job_event_cases made <;> cases same

theorem update_follows {env : UpdateEnv} {sold : List DBCheckJob} (follows : Follows house s.toAuctionBook sold)
    (ran : s.update env = .ok (s', effects)) :
    Follows house s'.toAuctionBook (sold ++ Store.soldJobs effects) := by
  obtain ⟨midway, minute, rfl, rfl⟩ := Store.update_cases ran
  obtain ⟨half, _⟩ := Store.update_minute_cases (P := fun b => Follows house b sold) minute
    (fun _ _ _ _ follows found _ => follows_quiet follows fun _ rep => imminent_represents rep found _) follows
  have ends (_ : midway.elapsed env 5000) (b : AuctionBook) (jobs : List DBCheckJob) (wstr : WString)
      (pData : AuctionRef) (follows : Follows house b (sold ++ jobs))
      (found : b.imminentList.find wstr = some pData) (_ : (b.auctions pData).endTime < env.curTime) :
      Follows house (b.finish wstr pData)
        (sold ++ (jobs ++ [Store.soldJob (env.block wstr) ((b.finish wstr pData).auctions pData)])) := by
    rw [← List.append_assoc]
    refine follows_next follows fun house' rep => ?_
    obtain ⟨event, house'', step, spoken, rep'⟩ := ended_represents rep found
    refine ⟨event, house'', step, ?_, rep'⟩
    rw [spoken, AuctionBook.auctions_finish, if_pos rfl]
    rfl
  obtain ⟨book, final, ended⟩ := Store.update_five_seconds_cases (s := midway) env
    (P := fun b jobs => Follows house b (sold ++ jobs)) ends (by rwa [List.append_nil])
  rw [final]
  exact ended

theorem run_follows {taken : List (LogicStep × List Effect)} (rep : Represents s.toAuctionBook house)
    (run : Run (Meeting Store.Takes ProperStep) s taken t) :
    Follows house t.toAuctionBook (Store.soldJobs (taken.flatMap Prod.snd)) := by
  refine run.history (P := fun taken t => Follows house t.toAuctionBook (Store.soldJobs (taken.flatMap Prod.snd)))
    ?_ (follows_start rep)
  rintro past s ⟨step, effects⟩ s' follows ⟨ran, proper⟩
  rw [List.flatMap_append, Store.sold_jobs_append, List.flatMap_singleton]
  cases step with
  | job job env => exact job_follows follows ran proper
  | update env => exact update_follows follows ran

/-- Whatever `LogicThread` does, with proper registrations and bids, a house of auctions
does: it tells the database what the house says of its lots in closing them, and a bid
finds the running lot of its nickname. -/
theorem store_refines_house {taken : List (LogicStep × List Effect)} (rep : Represents s.toAuctionBook house)
    (run : Run (Meeting Store.Takes ProperStep) s taken t) :
    ∃ events house', Run AuctionHouse.Step house events house' ∧
      events.filterMap said = (Store.soldJobs (taken.flatMap Prod.snd)).map told ∧
      Represents t.toAuctionBook house' ∧
      ∀ wstr r, t.find wstr = some r ↔ house'.Runs wstr r := by
  obtain ⟨events, house', ran, tells, rep'⟩ := run_follows rep run
  exact ⟨events, house', ran, tells, rep', fun wstr r => find_runs rep'⟩

end Runs

/-! ## Searches -/

section Searches
variable {s t : Store} {house : Lots} {text : WString} {r : AuctionRef}

/-- The auctions a search goes through in one of the maps. -/
def searched (text : WString) (entries : UnorderedMap WString AuctionRef) : List AuctionRef :=
  (entries.entries.filter fun entry => decide (text <:+: entry.1)).map Sigma.snd

theorem mem_searched {entries : UnorderedMap WString AuctionRef} {phase : Phase}
    (indexes : Indexes entries house phase) : r ∈ searched text entries ↔
      ∃ lot, house.lots[r]? = some lot ∧ lot.phase = phase ∧ text <:+: lot.name := by
  unfold searched
  rw [List.mem_map]
  constructor
  · rintro ⟨⟨wstr, r⟩, member, rfl⟩
    obtain ⟨entry, infixed⟩ := List.mem_filter.mp member
    obtain ⟨lot, there, phased, named⟩ := (indexes wstr r).mp (UnorderedMap.find_entry.mpr entry)
    exact ⟨lot, there, phased, named ▸ of_decide_eq_true infixed⟩
  · rintro ⟨lot, there, phased, infixed⟩
    have entry := UnorderedMap.find_entry.mp ((indexes lot.name r).mpr ⟨lot, there, phased, rfl⟩)
    exact ⟨⟨lot.name, r⟩, List.mem_filter.mpr ⟨entry, decide_eq_true infixed⟩, rfl⟩

/-- Every auction stands under one name. -/
theorem nodup_searched {entries : UnorderedMap WString AuctionRef} {phase : Phase}
    (indexes : Indexes entries house phase) : (searched text entries).Nodup := by
  have nodup : (entries.entries.filter fun entry => decide (text <:+: entry.1)).Nodup :=
    (List.Nodup.of_map Sigma.fst entries.nodupKeys).filter _
  refine nodup.map_on fun entry member entry' member' same => ?_
  obtain ⟨lot, there, _, named⟩ :=
    (indexes entry.1 entry.2).mp (UnorderedMap.find_entry.mpr (List.mem_filter.mp member).1)
  obtain ⟨lot', there', _, named'⟩ :=
    (indexes entry'.1 entry'.2).mp (UnorderedMap.find_entry.mpr (List.mem_filter.mp member').1)
  rw [same] at there
  cases there.symm.trans there'
  exact Sigma.ext (named.symm.trans named') (heq_of_eq same)

theorem running_of_phase {data : AuctionData} : (lotOf data).phase.Running ↔ ¬data.status.ended := by
  unfold lotOf
  cases data.status <;> simp [phaseOf, Phase.Running, AuctionStatus.ended]

/-- In every state of such a run, a search reports each running auction whose nickname has
the text in it, once and as it is, and nothing else. -/
theorem search_reports_running {taken : List (LogicStep × List Effect)} (rep : Represents s.toAuctionBook house)
    (run : Run (Meeting Store.Takes ProperStep) s taken t) (locals : Locals) (pPlayer : Player)
    (pPacket : ByteMemory.Bytes) (sessionID : Int64) :
    ∃ refs : List AuctionRef, refs.Nodup ∧
      (∀ r, r ∈ refs ↔ r < t.nextAuction ∧ ¬(t.auctions r).status.ended ∧
        Store.localString locals (getNickName locals.nickName pPacket).1 <:+: (t.auctions r).nickName.chars) ∧
      t.packetProcReqSearch locals pPlayer pPacket sessionID = .ok (true, t, refs.map fun r =>
        .send sessionID (resSearch pPlayer (t.auctions r) (t.auctions r).endTime)) := by
  obtain ⟨_, house', _, _, rep⟩ := run_follows rep run
  generalize text : Store.localString locals (getNickName locals.nickName pPacket).1 = wstr
  refine ⟨searched wstr t.cellList ++ searched wstr t.imminentList, ?_, fun r => ?_, ?_⟩
  · refine (nodup_searched rep.cell).append (nodup_searched rep.imminent) fun r cell imminent => ?_
    obtain ⟨lot, there, onSale, _⟩ := (mem_searched rep.cell).mp cell
    obtain ⟨lot', there', closing, _⟩ := (mem_searched rep.imminent).mp imminent
    cases there.symm.trans there'
    cases onSale.symm.trans closing
  · rw [List.mem_append, mem_searched rep.cell, mem_searched rep.imminent, ← running_of_phase]
    constructor
    · rintro (⟨lot, there, phased, infixed⟩ | ⟨lot, there, phased, infixed⟩)
      · obtain ⟨inside, rfl⟩ := rep.lot there
        exact ⟨inside, .inl phased, infixed⟩
      · obtain ⟨inside, rfl⟩ := rep.lot there
        exact ⟨inside, .inr phased, infixed⟩
    · rintro ⟨inside, onSale | closing, infixed⟩
      · exact .inl ⟨_, rep.record r inside, onSale, infixed⟩
      · exact .inr ⟨_, rep.record r inside, closing, infixed⟩
  · unfold Store.packetProcReqSearch
    dsimp only
    rw [text]
    simp [Store.searchReplies, searched, Function.comp_def]

end Searches

/-! ## An auction that is due -/

/-- Account 7 has bid on an imminent auction whose end has come. -/
def dueBook : Store :=
  { Store.empty (fun _ => { AuctionData.zero with
      status := .imminent, nickName := nameA, ownerID := 5, bidderID := 7 }) 0 with
    nextAuction := 1
    imminentList := (∅ : UnorderedMap WString AuctionRef).emplace [65] 0 }

def dueLot : Lot WString Int64 Int32 := ⟨[65], 5, .closing, 0, some 7⟩

theorem due_represents : Represents dueBook.toAuctionBook ⟨[dueLot], []⟩ where
  length := rfl
  record := fun r inside => by
    obtain rfl := Nat.lt_one_iff.mp inside
    rfl
  cell := fun wstr r => by
    refine iff_of_false (fun found => (nomatch found)) fun there => ?_
    obtain ⟨lot, there, onSale, _⟩ := there
    cases r with
    | zero =>
      cases there
      cases onSale
    | succ r => cases there
  imminent := fun wstr r => by
    constructor
    · intro found
      rcases UnorderedMap.find_emplace_some found with none | ⟨rfl, rfl⟩
      · cases none
      · exact ⟨dueLot, rfl, rfl, rfl⟩
    · rintro ⟨lot, there, _, rfl⟩
      cases r with
      | zero =>
        cases there
        rfl
      | succ r => cases there
  ledger := rfl
  valid := by
    have closing {i : Nat} (inside : i < 1) (lot : Lot WString Int64 Int32)
        (there : [dueLot][i]? = some lot) : lot.phase ≠ .sold := by
      obtain rfl := Nat.lt_one_iff.mp inside
      cases there
      simp [dueLot]
    refine ⟨fun name i j runs runs' => ?_, List.nodup_nil, fun i => ?_⟩
    · obtain ⟨_, there, _⟩ := runs
      obtain ⟨_, there', _⟩ := runs'
      obtain ⟨inside, _⟩ := List.getElem?_eq_some_iff.mp there
      obtain ⟨inside', _⟩ := List.getElem?_eq_some_iff.mp there'
      exact (Nat.lt_one_iff.mp inside).trans (Nat.lt_one_iff.mp inside').symm
    · refine iff_of_false List.not_mem_nil fun sold => ?_
      obtain ⟨lot, there, phase⟩ := sold
      obtain ⟨inside, _⟩ := List.getElem?_eq_some_iff.mp there
      exact closing inside lot there phase

/-- The house says that it is sold. -/
theorem due_lot_sold : ∃ taken t events house', Run (Meeting Store.Takes ProperStep) dueBook taken t ∧
    Run AuctionHouse.Step ⟨[dueLot], []⟩ events house' ∧ events.filterMap said = [([65], some 7)] ∧
    Represents t.toAuctionBook house' := by
  have run : ∃ t, Run (Meeting Store.Takes ProperStep) dueBook
      [(.update ⟨10000, fun _ => middleDraw, fun _ => (JobEnv.zero 0).block, none⟩,
        [.enqueueDB ⟨.nicknameSold, 7, 0, 0, 0, [65], []⟩])] t :=
    ⟨_, .single ⟨rfl, trivial⟩⟩
  obtain ⟨t, run⟩ := run
  obtain ⟨events, house', house, spoken, rep, _⟩ := store_refines_house due_represents run
  exact ⟨_, t, events, house', run, house, spoken, rep⟩

/-! ## A search beside it -/

/-- `REQ_SALE` of the nickname every new player has, for a day from price 1. -/
def listingRequest : ByteMemory.Bytes :=
  [1, 0] ++ [78, 0, 85, 0, 76, 0, 76, 0] ++ List.replicate 12 0 ++ [24] ++ [1, 0, 0, 0]

/-- A player joins, asks for a sale of "NULL", and has it registered. -/
def listing : List (LogicStep × List Effect) :=
  [(.job (.onClientJoin 0) (.zero 0), []),
    (.job (.onRecv 0 listingRequest) (.zero 0),
      [.enqueueDB ⟨.nicknameRegisterCheck, 0, 0, 0, 0, [78, 85, 76, 76], []⟩]),
    (.job (.nicknameRegisterAble 0 0) (.zero 0),
      [.send 0 (.resSale .success), .enqueueDB ⟨.nicknameChangeCheck, 0, 0, 0, 0, [78, 85, 76, 76], []⟩])]

theorem listing_runs : ∃ t, Run (Meeting Store.Takes ProperStep) dueBook listing t ∧
    t.nextAuction = 2 ∧ (t.auctions 0).nickName.chars = [65] ∧
    (t.auctions 1).nickName.chars = [78, 85, 76, 76] ∧ (t.auctions 1).status = .sale := by
  refine ⟨_, .cons ⟨rfl, ?_⟩ (.cons ⟨rfl, ?_⟩ (.cons ⟨rfl, ?_⟩ (.nil _))), rfl, rfl, rfl, rfl⟩
  · rintro event made
    cases made
  · rintro event made
    cases made
  · rintro event made
    cases made
    exact ⟨by decide, by decide⟩

/-- `REQ_SEARCH` of "U", without the type word. -/
def searchRequest : ByteMemory.Bytes := [85, 0] ++ List.replicate 18 0

/-- The search finds "NULL", and not "A". -/
theorem due_lot_searched : ∃ t, Run (Meeting Store.Takes ProperStep) dueBook listing t ∧
    ∃ refs : List AuctionRef, 0 ∉ refs ∧ 1 ∈ refs ∧
      t.packetProcReqSearch (JobEnv.zero 0).locals (Store.joined 3) searchRequest 3 =
        .ok (true, t, refs.map fun r =>
          .send 3 (resSearch (Store.joined 3) (t.auctions r) (t.auctions r).endTime)) := by
  obtain ⟨t, run, next, due, listed, onSale⟩ := listing_runs
  obtain ⟨refs, _, running, replies⟩ :=
    search_reports_running due_represents run (JobEnv.zero 0).locals (Store.joined 3) searchRequest 3
  refine ⟨t, run, refs, fun found => ?_, (running 1).mpr ⟨?_, ?_, ?_⟩, replies⟩
  · obtain ⟨_, _, infixed⟩ := (running 0).mp found
    rw [due] at infixed
    exact absurd infixed (by decide)
  · rw [next]
    exact Nat.one_lt_two
  · rw [onSale]
    decide
  · rw [listed]
    decide

end NewNameAuction.HouseRefinement
