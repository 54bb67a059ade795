import NewNameAuction.AccountIdentity

/-! The index of auctions: which container finds which record. It stays
consistent as long as nicknames are: a registration under a nickname that is
still running meets a map whose `insert` keeps the older record. The same would
hold for the sale of a nickname that was sold before, but in a run from the
empty store no bid is ever accepted. -/
namespace NewNameAuction.IndexConsistency
open AuctionBook

/-- Every record is found where its status says. -/
structure Indexed (b : AuctionBook) : Prop where
  sale : ∀ r < b.nextAuction, (b.auctions r).status = .sale →
    b.cellList.find (b.auctions r).nickName.chars = some r
  imminent : ∀ r < b.nextAuction, (b.auctions r).status = .imminent →
    b.imminentList.find (b.auctions r).nickName.chars = some r
  fin : ∀ r < b.nextAuction, (b.auctions r).status = .fin →
    r ∈ b.finList ∧ b.finListUMap.find (b.auctions r).nickName.chars = some r
  apart : ∀ wstr ∈ b.cellList, wstr ∉ b.imminentList

/-- And the maps of running auctions hold nothing else. -/
structure Consistent (b : AuctionBook) : Prop extends Indexed b where
  cellEntry : ∀ wstr r, b.cellList.find wstr = some r →
    r < b.nextAuction ∧ (b.auctions r).nickName.chars = wstr ∧ (b.auctions r).status = .sale
  imminentEntry : ∀ wstr r, b.imminentList.find wstr = some r →
    r < b.nextAuction ∧ (b.auctions r).nickName.chars = wstr ∧ (b.auctions r).status = .imminent

/-- The nickname of an event is new to the maps it goes into. -/
def NewName (b : AuctionBook) : Event → Prop
  | .registered data => data.nickName.chars ∉ b.cellList ∧ data.nickName.chars ∉ b.imminentList
  | .ended wstr pData => (b.auctions pData).bidderID ≠ 0 → wstr ∉ b.finListUMap
  | _ => True

theorem empty_consistent (auctions : AuctionRef → AuctionData) (packetType : UInt16) :
    Consistent (Store.empty auctions packetType).toAuctionBook where
  sale := fun r old => absurd old (Nat.not_lt_zero r)
  imminent := fun r old => absurd old (Nat.not_lt_zero r)
  fin := fun r old => absurd old (Nat.not_lt_zero r)
  apart := fun _ known => absurd known (AList.notMem_empty _)
  cellEntry := fun _ _ found => by cases found
  imminentEntry := fun _ _ found => by cases found

section Steps
variable {b : AuctionBook}

theorem register_consistent (consistent : Consistent b) {data : AuctionData}
    (sale : data.status = .sale) (new : NewName b (.registered data)) :
    Consistent (b.register data) := by
  obtain ⟨noCell, notImminent⟩ := new
  have old {r : AuctionRef} (there : r < b.nextAuction + 1) (other : r ≠ b.nextAuction) :
      r < b.nextAuction := Nat.lt_of_le_of_ne (Nat.lt_succ_iff.mp there) other
  -- an older record is untouched
  have kept {r : AuctionRef} (there : r < b.nextAuction) :
      (b.register data).auctions r = b.auctions r := by
    rw [auctions_register, if_neg (Nat.ne_of_lt there)]
  have fresh : (b.register data).auctions b.nextAuction = data := by
    rw [auctions_register, if_pos rfl]
  refine ⟨⟨?sale, ?imminent, ?fin, ?apart⟩, ?cellEntry, ?imminentEntry⟩
  case sale =>
    intro r there status
    rcases eq_or_ne r b.nextAuction with rfl | other
    · rw [fresh, cellList_register]
      exact UnorderedMap.find_emplace_new _ noCell
    · rw [kept (old there other)] at status ⊢
      exact UnorderedMap.find_emplace_old _ _ (consistent.sale r (old there other) status)
  case imminent =>
    intro r there status
    rcases eq_or_ne r b.nextAuction with rfl | other
    · rw [fresh, sale] at status
      cases status
    · rw [kept (old there other)] at status ⊢
      exact consistent.imminent r (old there other) status
  case fin =>
    intro r there status
    rcases eq_or_ne r b.nextAuction with rfl | other
    · rw [fresh, sale] at status
      cases status
    · rw [kept (old there other)] at status ⊢
      exact consistent.fin r (old there other) status
  case apart =>
    intro wstr known
    rw [cellList_register, UnorderedMap.mem_emplace] at known
    rcases known with rfl | known
    · exact notImminent
    · exact consistent.apart wstr known
  case cellEntry =>
    intro wstr r found
    rcases UnorderedMap.find_emplace_some found with found | ⟨rfl, rfl⟩
    · obtain ⟨there, name, status⟩ := consistent.cellEntry wstr r found
      exact ⟨Nat.lt_succ_of_lt there, by rwa [kept there], by rwa [kept there]⟩
    · exact ⟨Nat.lt_succ_self _, by rw [fresh], by rwa [fresh]⟩
  case imminentEntry =>
    intro wstr r found
    obtain ⟨there, name, status⟩ := consistent.imminentEntry wstr r found
    exact ⟨Nat.lt_succ_of_lt there, by rwa [kept there], by rwa [kept there]⟩

theorem bid_consistent (consistent : Consistent b) (pData : AuctionRef) (bidder : Int64)
    (price : Int32) : Consistent (b.bid pData bidder price) := by
  -- a bid writes neither the status nor the nickname of a record
  have kept (r : AuctionRef) : ((b.bid pData bidder price).auctions r).status = (b.auctions r).status ∧
      ((b.bid pData bidder price).auctions r).nickName = (b.auctions r).nickName :=
    ⟨bid_field b pData r bidder price AuctionData.status fun _ _ _ _ => rfl,
      bid_field b pData r bidder price AuctionData.nickName fun _ _ _ _ => rfl⟩
  refine ⟨⟨?sale, ?imminent, ?fin, consistent.apart⟩, ?cellEntry, ?imminentEntry⟩
  case sale =>
    intro r there status
    rw [(kept r).1] at status
    rw [(kept r).2]
    exact consistent.sale r there status
  case imminent =>
    intro r there status
    rw [(kept r).1] at status
    rw [(kept r).2]
    exact consistent.imminent r there status
  case fin =>
    intro r there status
    rw [(kept r).1] at status
    rw [(kept r).2]
    exact consistent.fin r there status
  case cellEntry =>
    intro wstr r found
    rw [(kept r).1, (kept r).2]
    exact consistent.cellEntry wstr r found
  case imminentEntry =>
    intro wstr r found
    rw [(kept r).1, (kept r).2]
    exact consistent.imminentEntry wstr r found

theorem imminent_consistent (consistent : Consistent b) {wstr : WString} {pData : AuctionRef}
    (draw : Draw) (found : b.cellList.find wstr = some pData) :
    Consistent (b.moveToImminent wstr pData draw) := by
  obtain ⟨there, name, sale⟩ := consistent.cellEntry wstr pData found
  have notImminent := consistent.apart wstr (UnorderedMap.mem_of_find found)
  have kept {r : AuctionRef} (other : r ≠ pData) :
      (b.moveToImminent wstr pData draw).auctions r = b.auctions r := by
    rw [auctions_moveToImminent, if_neg other]
  have moved : ((b.moveToImminent wstr pData draw).auctions pData).status = .imminent ∧
      ((b.moveToImminent wstr pData draw).auctions pData).nickName.chars = wstr := by
    rw [auctions_moveToImminent, if_pos rfl]
    exact ⟨rfl, name⟩
  -- another record's entry has another key
  have elsewhere {r : AuctionRef} {key : WString} (other : r ≠ pData)
      (entry : b.cellList.find key = some r) : key ≠ wstr := UnorderedMap.key_ne entry found other
  refine ⟨⟨?sale, ?imminent, ?fin, ?apart⟩, ?cellEntry, ?imminentEntry⟩
  case sale =>
    intro r old status
    rcases eq_or_ne r pData with rfl | other
    · rw [moved.1] at status
      cases status
    · rw [kept other] at status ⊢
      have entry := consistent.sale r old status
      rw [cellList_moveToImminent, UnorderedMap.find_erase, if_neg (elsewhere other entry), entry]
  case imminent =>
    intro r old status
    rcases eq_or_ne r pData with rfl | other
    · rw [moved.2]
      exact UnorderedMap.find_emplace_new _ notImminent
    · rw [kept other] at status ⊢
      exact UnorderedMap.find_emplace_old _ _ (consistent.imminent r old status)
  case fin =>
    intro r old status
    rcases eq_or_ne r pData with rfl | other
    · rw [moved.1] at status
      cases status
    · rw [kept other] at status ⊢
      exact consistent.fin r old status
  case apart =>
    intro key known
    rw [cellList_moveToImminent, UnorderedMap.mem_erase] at known
    rw [imminentList_moveToImminent, UnorderedMap.mem_emplace]
    rintro (same | imminent)
    · exact known.1 same
    · exact consistent.apart key known.2 imminent
  case cellEntry =>
    intro key r entry
    rw [cellList_moveToImminent, UnorderedMap.find_erase] at entry
    split at entry
    · cases entry
    · rename_i apart
      obtain ⟨old, called, status⟩ := consistent.cellEntry key r entry
      have other : r ≠ pData := by
        rintro rfl
        exact apart (called.symm.trans name)
      rw [kept other]
      exact ⟨old, called, status⟩
  case imminentEntry =>
    intro key r entry
    rcases UnorderedMap.find_emplace_some entry with entry | ⟨rfl, rfl⟩
    · obtain ⟨old, called, status⟩ := consistent.imminentEntry key r entry
      have other : r ≠ pData := by
        rintro rfl
        rw [sale] at status
        cases status
      rw [kept other]
      exact ⟨old, called, status⟩
    · exact ⟨there, moved.2, moved.1⟩

theorem finish_consistent (consistent : Consistent b) {wstr : WString} {pData : AuctionRef}
    (found : b.imminentList.find wstr = some pData) (new : NewName b (.ended wstr pData)) :
    Consistent (b.finish wstr pData) := by
  obtain ⟨there, name, imminent⟩ := consistent.imminentEntry wstr pData found
  have kept {r : AuctionRef} (other : r ≠ pData) :
      (b.finish wstr pData).auctions r = b.auctions r := by
    rw [auctions_finish, if_neg other]
  have ended : ((b.finish wstr pData).auctions pData).status = finishStatus (b.auctions pData) ∧
      ((b.finish wstr pData).auctions pData).nickName.chars = wstr := by
    rw [auctions_finish, if_pos rfl]
    exact ⟨rfl, name⟩
  have isOver := finish_status_ended (b.auctions pData)
  refine ⟨⟨?sale, ?imminent, ?fin, ?apart⟩, ?cellEntry, ?imminentEntry⟩
  case sale =>
    intro r old status
    rcases eq_or_ne r pData with rfl | other
    · exact absurd isOver (AuctionStatus.running_of_sale (ended.1.symm.trans status))
    · rw [kept other] at status ⊢
      rw [nextAuction_finish] at old
      rw [cellList_finish]
      exact consistent.sale r old status
  case imminent =>
    intro r old status
    rcases eq_or_ne r pData with rfl | other
    · exact absurd isOver (AuctionStatus.running_of_imminent (ended.1.symm.trans status))
    · rw [kept other] at status ⊢
      rw [nextAuction_finish] at old
      have entry := consistent.imminent r old status
      rw [imminentList_finish, UnorderedMap.find_erase,
        if_neg (UnorderedMap.key_ne entry found other), entry]
  case fin =>
    intro r old status
    rw [nextAuction_finish] at old
    rw [finList_finish, finListUMap_finish]
    rcases eq_or_ne r pData with rfl | other
    · have bidden : (b.auctions r).bidderID ≠ 0 := by
        intro unbid
        rw [ended.1, finishStatus, if_pos unbid] at status
        cases status
      rw [ended.2, if_neg bidden, if_neg bidden]
      exact ⟨List.mem_cons_self, UnorderedMap.find_emplace_new r (new bidden)⟩
    · rw [kept other] at status ⊢
      obtain ⟨member, entry⟩ := consistent.fin r old status
      split
      · exact ⟨member, entry⟩
      · exact ⟨List.mem_cons_of_mem _ member, UnorderedMap.find_emplace_old _ _ entry⟩
  case apart =>
    intro key known
    rw [cellList_finish] at known
    rw [imminentList_finish, UnorderedMap.mem_erase]
    exact fun member => consistent.apart key known member.2
  case cellEntry =>
    intro key r entry
    rw [cellList_finish] at entry
    obtain ⟨old, called, status⟩ := consistent.cellEntry key r entry
    have other : r ≠ pData := by
      rintro rfl
      rw [imminent] at status
      cases status
    rw [kept other, nextAuction_finish]
    exact ⟨old, called, status⟩
  case imminentEntry =>
    intro key r entry
    rw [imminentList_finish, UnorderedMap.find_erase] at entry
    split at entry
    · cases entry
    · rename_i apart
      obtain ⟨old, called, status⟩ := consistent.imminentEntry key r entry
      have other : r ≠ pData := by
        rintro rfl
        exact apart (called.symm.trans name)
      rw [kept other, nextAuction_finish]
      exact ⟨old, called, status⟩

/-- Every event under a new name keeps the index consistent. -/
theorem step_consistent {b' : AuctionBook} {event : Event} (consistent : Consistent b)
    (step : Step b event b') (new : NewName b event) : Consistent b' := by
  cases step with
  | registered sale _ _ => exact register_consistent consistent sale new
  | bid _ _ _ => exact bid_consistent consistent _ _ _
  | imminent found => exact imminent_consistent consistent _ found
  | ended found => exact finish_consistent consistent found new

end Steps

/-! ## Steps of the logic thread -/

/-- The condition on a step: a job registers only under a nickname that is not
running. -/
def NewNames (s : Store) : LogicStep → Prop
  | .job job env => ∀ data, s.registration env job = some data →
      data.nickName.chars ∉ s.cellList ∧ data.nickName.chars ∉ s.imminentList
  | .update _ => True

/-- All auctions are account 0's, and nobody has bid on one. -/
structure Unbid (b : AuctionBook) : Prop where
  owners : ∀ r < b.nextAuction, (b.auctions r).ownerID = 0
  bidders : ∀ r < b.nextAuction, (b.auctions r).bidderID = 0

/-- The index with what keeps bids away from it. -/
structure Untouched (s : Store) : Prop where
  consistent : Consistent s.toAuctionBook
  unbid : Unbid s.toAuctionBook
  zero : AccountIdentity.ZeroAccounts s

section Books
variable {b : AuctionBook}

theorem Consistent.pooled (consistent : Consistent b) {wstr : WString} {r : AuctionRef}
    (found : b.find wstr = some r) : r < b.nextAuction := by
  unfold AuctionBook.find at found
  split at found
  · rename_i imminent
    exact (consistent.imminentEntry wstr r (found ▸ imminent)).1
  · exact (consistent.cellEntry wstr r found).1

theorem Unbid.register (unbid : Unbid b) {data : AuctionData} (owner : data.ownerID = 0)
    (bidder : data.bidderID = 0) : Unbid (b.register data) where
  owners := forall_register (P := fun data => data.ownerID = 0) b data unbid.owners owner
  bidders := forall_register (P := fun data => data.bidderID = 0) b data unbid.bidders bidder

/-- Owners and bidders are written by registrations and bids alone. -/
theorem Unbid.same {b' : AuctionBook} (unbid : Unbid b) (next : b'.nextAuction = b.nextAuction)
    (kept : ∀ r, (b'.auctions r).ownerID = (b.auctions r).ownerID ∧
      (b'.auctions r).bidderID = (b.auctions r).bidderID) : Unbid b' := by
  refine ⟨fun r there => ?_, fun r there => ?_⟩
  · rw [(kept r).1]
    exact unbid.owners r (next ▸ there)
  · rw [(kept r).2]
    exact unbid.bidders r (next ▸ there)

theorem Unbid.moveToImminent (unbid : Unbid b) (wstr : WString) (pData : AuctionRef) (draw : Draw) :
    Unbid (b.moveToImminent wstr pData draw) :=
  unbid.same rfl fun r =>
    ⟨move_field b pData r wstr draw AuctionData.ownerID fun _ _ _ => rfl,
      move_field b pData r wstr draw AuctionData.bidderID fun _ _ _ => rfl⟩

theorem Unbid.finish (unbid : Unbid b) (wstr : WString) (pData : AuctionRef) :
    Unbid (b.finish wstr pData) :=
  unbid.same (nextAuction_finish b pData wstr) fun r =>
    ⟨finish_field b pData r wstr AuctionData.ownerID fun _ _ => rfl,
      finish_field b pData r wstr AuctionData.bidderID fun _ _ => rfl⟩

end Books

section Runs
variable {s s' : Store} {effects : List Effect}

private theorem untouched_job {job : Job} {env : JobEnv} (untouched : Untouched s)
    (ran : s.runJob env job = .ok (s', effects)) (new : NewNames s (.job job env)) : Untouched s' := by
  obtain ⟨consistent, unbid, zero⟩ := untouched
  have quiet := AccountIdentity.no_bid zero
    (fun wstr r found => unbid.owners r (consistent.pooled found)) ran
  have after := AccountIdentity.zero_job zero ran
  cases made : s.registration env job with
  | none =>
    have same := Store.job_unchanged quiet made ran
    exact ⟨same ▸ consistent, same ▸ unbid, after⟩
  | some data =>
    obtain ⟨_, owner, bidder⟩ := AccountIdentity.registered_zero zero made
    have book := (Store.job_event ran).2
    rw [Store.job_event_registered made] at book
    have same := Store.job_registered made ran
    exact ⟨step_consistent consistent book (new data made), same ▸ unbid.register owner bidder, after⟩

/-- `Update` ends auctions without a bidder only, which go into no map. -/
private theorem untouched_update {env : UpdateEnv} (untouched : Untouched s)
    (ran : s.update env = .ok (s', effects)) : Untouched s' := by
  obtain ⟨consistent, unbid, zero⟩ := untouched
  obtain ⟨consistent', unbid'⟩ := Store.update_book (P := fun b => Consistent b ∧ Unbid b) ran
    (fun b wstr pData holds found =>
      ⟨step_consistent holds.1 (.imminent found) trivial, holds.2.moveToImminent wstr pData _⟩)
    (fun b wstr pData holds found => by
      have there := (holds.1.imminentEntry wstr pData found).1
      exact ⟨step_consistent holds.1 (.ended found) fun bidden => absurd (holds.2.bidders pData there) bidden,
        holds.2.finish wstr pData⟩) ⟨consistent, unbid⟩
  exact ⟨consistent', unbid', AccountIdentity.zero_update zero ran⟩

private theorem untouched_empty (auctions : AuctionRef → AuctionData) (packetType : UInt16) :
    Untouched (.empty auctions packetType) where
  consistent := empty_consistent auctions packetType
  unbid := ⟨fun r old => absurd old (Nat.not_lt_zero r), fun r old => absurd old (Nat.not_lt_zero r)⟩
  zero := AccountIdentity.empty_zero auctions packetType

/-- The index of auctions over whole runs: as long as nothing is registered under a
nickname that is running, every record is found where its status says. -/
theorem indexed_of_new_names (auctions : AuctionRef → AuctionData) (packetType : UInt16)
    (steps : List LogicStep) (s : Store)
    (run : Run (Meeting Store.Steps NewNames) (Store.empty auctions packetType) steps s) :
    Indexed s.toAuctionBook := by
  suffices untouched : Untouched s from untouched.consistent.toIndexed
  refine run.invariant (P := Untouched) ?_ (untouched_empty auctions packetType)
  rintro s step s' untouched ⟨⟨effects, ran⟩, new⟩
  cases step with
  | job job env => exact untouched_job untouched ran new
  | update env => exact untouched_update untouched ran

end Runs

/-! ## A nickname on sale twice -/

/-- `REQ_SALE` of the nickname every new player has, for a day from price 1. -/
def saleRequest : ByteMemory.Bytes :=
  [1, 0] ++ [78, 0, 85, 0, 76, 0, 76, 0] ++ List.replicate 12 0 ++ [24] ++ [1, 0, 0, 0]

/-- A player joins, asks for a sale, and has it registered. -/
def firstSale : List LogicStep :=
  [.job (.onClientJoin 0) (.zero 0), .job (.onRecv 0 saleRequest) (.zero 0),
    .job (.nicknameRegisterAble 0 0) (.zero 0)]

def emptyStore : Store := .empty (fun _ => .zero) 0

theorem first_sale_indexed : ∃ t, Run (Meeting Store.Steps NewNames) emptyStore firstSale t ∧
    Indexed t.toAuctionBook := by
  have run : ∃ t, Run (Meeting Store.Steps NewNames) emptyStore firstSale t := by
    refine ⟨_, .cons ⟨⟨_, rfl⟩, fun data registered => ?_⟩ (.cons ⟨⟨_, rfl⟩, fun data registered => ?_⟩
      (.cons ⟨⟨_, rfl⟩, fun data registered => ?_⟩ (.nil _)))⟩
    · exact (Option.some_ne_none data registered.symm).elim
    · exact (Option.some_ne_none data registered.symm).elim
    · obtain rfl := Option.some.inj registered
      decide +kernel
  obtain ⟨t, run⟩ := run
  exact ⟨t, run, indexed_of_new_names _ _ _ t run⟩

/-- Registered twice, the nickname leads to the first auction only: the second
is on sale and no map finds it. -/
theorem second_sale_not_indexed : ∃ t,
    Run Store.Steps emptyStore (firstSale ++ firstSale.drop 1) t ∧ ¬ Indexed t.toAuctionBook := by
  obtain ⟨t, run, seen⟩ := Store.run_of_seen emptyStore (firstSale ++ firstSale.drop 1)
    (fun t => (t.nextAuction, (t.auctions 1).status, t.cellList.find (t.auctions 1).nickName.chars))
    (2, .sale, some 0) rfl
  simp only [Prod.mk.injEq] at seen
  obtain ⟨two, sale, first⟩ := seen
  refine ⟨t, run, fun indexed => ?_⟩
  have second := indexed.sale 1 (by rw [two]; decide) sale
  rw [first] at second
  cases second

end NewNameAuction.IndexConsistency
