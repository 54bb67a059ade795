import NewNameAuction.BidLedger
import NewNameAuction.Settlement

/-! `CellList_PriceOrder` as an index of the running auctions. Its keys are copies
of prices: registering an auction adds one and the sweep drops those of auctions
that have ended, but a bid changes the price in the record alone. -/
namespace NewNameAuction
open AuctionBook BidLedger Settlement

/-! ## The multimap -/

section Multimap
variable {prices : List (Int32 × AuctionRef)} {price : Int32} {pData : AuctionRef}

/-- Keys in the order of a multimap by `greater`. -/
def Descending (prices : List (Int32 × AuctionRef)) : Prop := prices.Pairwise fun a b => b.1 ≤ a.1

theorem insert_price_cons (entry : Int32 × AuctionRef) :
    insertPrice (entry :: prices) price pData =
      if price ≤ entry.1 then entry :: insertPrice prices price pData
      else (price, pData) :: entry :: prices := by
  unfold insertPrice
  rw [List.takeWhile_cons, List.dropWhile_cons]
  by_cases ahead : price ≤ entry.1
  · rw [if_pos ahead, if_pos (decide_eq_true ahead), if_pos (decide_eq_true ahead), List.cons_append]
  · rw [if_neg ahead, decide_eq_false ahead]
    rfl

theorem insert_price_perm (prices : List (Int32 × AuctionRef)) (price : Int32) (pData : AuctionRef) :
    (insertPrice prices price pData).Perm ((price, pData) :: prices) := by
  have parts : (insertPrice prices price pData).Perm
      ((price, pData) :: (prices.takeWhile (fun entry => decide (price ≤ entry.1)) ++
        prices.dropWhile fun entry => decide (price ≤ entry.1))) := List.perm_middle
  rwa [List.takeWhile_append_dropWhile] at parts

theorem insert_price_descending (descending : Descending prices) :
    Descending (insertPrice prices price pData) := by
  induction prices with
  | nil => exact List.pairwise_singleton _ _
  | cons entry prices ih =>
    obtain ⟨first, rest⟩ := List.pairwise_cons.mp descending
    rw [insert_price_cons]
    split
    · rename_i ahead
      refine List.pairwise_cons.mpr ⟨fun other member => ?_, ih rest⟩
      rcases List.mem_cons.mp ((insert_price_perm _ _ _).mem_iff.mp member) with rfl | old
      · exact ahead
      · exact first other old
    · rename_i behind
      have below : entry.1 ≤ price := Int32.le_of_lt (Int32.not_le.mp behind)
      refine List.pairwise_cons.mpr ⟨fun other member => ?_, descending⟩
      rcases List.mem_cons.mp member with rfl | old
      · exact below
      · exact Int32.le_trans (first other old) below

end Multimap

/-! ## The index -/

/-- Each entry has the current price of its auction as its key, and each
registered auction that runs has exactly one entry. -/
structure PriceIndex (s : Store) : Prop where
  current : ∀ entry ∈ s.cellListPriceOrder, entry.1 = (s.auctions entry.2).price
  registered : ∀ entry ∈ s.cellListPriceOrder, entry.2 < s.nextAuction
  once : ∀ r < s.nextAuction, ¬(s.auctions r).status.ended →
    s.cellListPriceOrder.countP (fun entry => entry.2 = r) = 1
  descending : Descending s.cellListPriceOrder

/-- The walk over the index meets no price higher than the one before. -/
def WalkDescends (s : Store) : Prop :=
  s.cellListPriceOrder.Pairwise fun a b => (s.auctions b.2).price ≤ (s.auctions a.2).price

theorem PriceIndex.walk {s : Store} (index : PriceIndex s) : WalkDescends s :=
  index.descending.imp_of_mem fun {a b} first later below => by
    rw [← index.current a first, ← index.current b later]
    exact below

section Steps
variable {s s' : Store} {effects : List Effect}

private theorem register_index (index : PriceIndex s) {data : AuctionData}
    (after : s'.toAuctionBook = s.toAuctionBook.register data)
    (prices : s'.cellListPriceOrder = insertPrice s.cellListPriceOrder data.price s.nextAuction) :
    PriceIndex s' := by
  have perm := insert_price_perm s.cellListPriceOrder data.price s.nextAuction
  have kept {r : AuctionRef} (there : r < s.nextAuction) : s'.auctions r = s.auctions r := by
    rw [after, auctions_register, if_neg (Nat.ne_of_lt there)]
  have next : s'.nextAuction = s.nextAuction + 1 := by rw [after, nextAuction_register]
  refine ⟨fun entry member => ?_, fun entry member => ?_, fun r there running => ?_, ?_⟩
  · rw [prices, perm.mem_iff, List.mem_cons] at member
    rcases member with rfl | old
    · rw [after, auctions_register, if_pos rfl]
    · rw [kept (index.registered entry old)]
      exact index.current entry old
  · rw [prices, perm.mem_iff, List.mem_cons] at member
    rw [next]
    rcases member with rfl | old
    · exact Nat.lt_succ_self _
    · exact Nat.lt_succ_of_lt (index.registered entry old)
  · rw [prices, perm.countP_eq, List.countP_cons]
    by_cases new : r = s.nextAuction
    · have none : s.cellListPriceOrder.countP (fun entry => entry.2 = r) = 0 := by
        refine List.countP_eq_zero.mpr fun entry member => ?_
        rw [decide_eq_true_eq, new]
        exact Nat.ne_of_lt (index.registered entry member)
      rw [none, if_pos (decide_eq_true new.symm)]
    · rw [next] at there
      have old : r < s.nextAuction := Nat.lt_of_le_of_ne (Nat.le_of_lt_succ there) new
      rw [kept old] at running
      rw [index.once r old running, if_neg]
      simpa using Ne.symm new
  · rw [prices]
    exact insert_price_descending index.descending

/-- A job that accepts no bid keeps the index. -/
private theorem job_index {job : Job} {env : JobEnv} (index : PriceIndex s)
    (unbid : s.bidOf env job = none) (ran : s.runJob env job = .ok (s', effects)) : PriceIndex s' := by
  have lists := Store.job_registers ran
  cases made : s.registration env job with
  | none =>
    rw [made] at lists
    obtain ⟨prices, _⟩ := lists
    have book := Store.job_unchanged unbid made ran
    obtain ⟨current, registered, once, descending⟩ := index
    constructor
    · rwa [prices, book]
    · rwa [prices, book]
    · rwa [prices, book]
    · rwa [prices]
  | some data =>
    rw [made] at lists
    exact register_index index (Store.job_registered made ran) lists.1

private theorem count_filter {prices : List (Int32 × AuctionRef)} {P : AuctionRef → Prop}
    [DecidablePred P] {r : AuctionRef} (holds : P r) :
    (prices.filter fun entry => P entry.2).countP (fun entry => entry.2 = r) =
      prices.countP (fun entry => entry.2 = r) := by
  rw [List.countP_filter]
  refine List.countP_congr fun entry _ => ?_
  simp only [Bool.and_eq_true, decide_eq_true_eq]
  exact ⟨And.left, fun same => ⟨same, same ▸ holds⟩⟩

/-- `Update` drops from the index what has ended by then, and nothing that runs on. -/
private theorem update_index {env : UpdateEnv} (index : PriceIndex s)
    (separate : Separate s.toAuctionBook) (ran : s.update env = .ok (s', effects)) : PriceIndex s' := by
  have ledger := update_ledger ran
  have settles := update_settles separate ran
  have next := Store.update_next ran
  obtain ⟨midway, minute, after, _⟩ := Store.update_cases ran
  have there : s.midway (.update env) = midway := Store.midway_of_minute minute
  rw [there] at settles
  have swept := Store.update_minute_prices minute
  have prices : s'.cellListPriceOrder = midway.cellListPriceOrder := by
    obtain ⟨book, final, _⟩ := Store.update_five_seconds_cases env (s := midway)
      (P := fun _ _ => True) (fun _ _ _ _ _ _ _ _ => trivial) trivial
    rw [after, final]
  have subset : s'.cellListPriceOrder.Sublist s.cellListPriceOrder := by
    rw [prices, swept]
    split
    · exact List.filter_sublist
    · exact List.Sublist.refl _
  refine ⟨fun entry member => ?_, fun entry member => ?_, fun r old running => ?_,
    index.descending.sublist subset⟩
  · have listed := subset.subset member
    rw [(ledger.others entry.2 (index.registered entry listed) fun bid made => by cases made).1]
    exact index.current entry listed
  · rw [next]
    exact index.registered entry (subset.subset member)
  · rw [next] at old
    obtain ⟨first, second, final⟩ := settles.moves r old
    have before : ¬(s.auctions r).status.ended := fun isOver => running (final isOver ▸ isOver)
    have halfway : ¬(midway.auctions r).status.ended := by
      rcases second with same | ⟨imminent, _⟩
      · rwa [← same]
      · exact AuctionStatus.running_of_imminent imminent
    rw [prices, swept]
    split
    · rw [count_filter (P := fun r => ¬(midway.auctions r).status.ended) halfway]
      exact index.once r old before
    · exact index.once r old before

/-- An accepted bid leaves the old price in the index. -/
private theorem bid_stale {step : LogicStep} {bid : Store.AcceptedBid} (index : PriceIndex s)
    (separate : Separate s.toAuctionBook) (accepted : acceptedIn s step = some bid)
    (taken : s.Steps step s') : ¬PriceIndex s' := by
  obtain ⟨effects, ran⟩ := taken
  cases step with
  | update env => cases accepted
  | job job env =>
    have bidding : s.bidOf env job = some bid := accepted
    obtain ⟨_, ⟨wstr, found⟩, higher, _⟩ := Store.job_bid bidding ran
    obtain ⟨_, _, changed, _⟩ := (job_ledger ran).accepted bid accepted
    have lists := Store.job_registers ran
    rw [Store.bid_unregistered bidding] at lists
    obtain ⟨prices, _⟩ := lists
    have listed := index.once bid.pData (pooled_of_found separate found)
      (running_of_found separate found)
    obtain ⟨entry, member, about⟩ := List.countP_pos_iff.mp (Nat.lt_of_lt_of_eq Nat.zero_lt_one listed.symm)
    intro index'
    have stale := index'.current entry (prices ▸ member)
    rw [of_decide_eq_true about, changed] at stale
    rw [index.current entry member, of_decide_eq_true about] at stale
    rw [stale] at higher
    exact Int32.lt_irrefl higher

/-- Where it holds, with the records apart, the index is kept by every step but an
accepted bid, and the records stay apart. -/
theorem price_index_kept_iff {step : LogicStep} (index : PriceIndex s)
    (separate : Separate s.toAuctionBook) (taken : s.Steps step s') :
    ((PriceIndex s' ∧ WalkDescends s') ↔ acceptedIn s step = none) ∧ Separate s'.toAuctionBook := by
  refine ⟨⟨fun kept => ?_, fun unbid => ?_⟩, ?_⟩
  · cases accepted : acceptedIn s step with
    | none => rfl
    | some bid => exact absurd kept.1 (bid_stale index separate accepted taken)
  · obtain ⟨effects, ran⟩ := taken
    have kept : PriceIndex s' := by
      cases step with
      | job job env => exact job_index index unbid ran
      | update env => exact update_index index separate ran
    exact ⟨kept, kept.walk⟩
  · obtain ⟨effects, ran⟩ := taken
    exact (takes_settles separate ran).2

end Steps

/-! ## An auction at 50 points -/

/-- The index lists the one auction there is. -/
def indexedStore : Store := { bidStore 3 with cellListPriceOrder := [(50, 0)] }

private theorem indexed_cell {wstr : WString} {r : AuctionRef}
    (found : indexedStore.cellList.find wstr = some r) : wstr = [65] ∧ r = 0 := by
  rcases UnorderedMap.find_emplace_some found with none | same
  · cases none
  · exact same

private theorem indexed_start : PriceIndex indexedStore ∧ Separate indexedStore.toAuctionBook := by
  have imminent (wstr : WString) : indexedStore.imminentList.find wstr = none := rfl
  constructor
  · refine ⟨fun entry member => ?_, fun entry member => ?_, fun r there _ => ?_,
      List.pairwise_singleton _ _⟩
    · obtain rfl := List.mem_singleton.mp member
      rfl
    · obtain rfl := List.mem_singleton.mp member
      decide
    · obtain rfl := Nat.lt_one_iff.mp there
      rfl
  · refine ⟨fun wstr r found => rfl, fun wstr r found => ?_, fun wstr wstr' r found found' => ?_,
      fun wstr wstr' r found _ => ?_, fun wstr r found => ?_⟩
    · rw [imminent] at found
      cases found
    · rw [(indexed_cell found).1, (indexed_cell found').1]
    · rw [imminent] at found
      cases found
    · rcases found with found | found
      · rw [(indexed_cell found).2]
        decide
      · rw [imminent] at found
        cases found

/-- `Update` makes the auction imminent and keeps the index. -/
theorem imminent_still_indexed : ∃ s' : Store, (s'.auctions 0).status = .imminent ∧
    PriceIndex s' ∧ WalkDescends s' := by
  have run : ∃ s', indexedStore.Steps (.update { dueUpdate with curTime := 70000 }) s' ∧
      (s'.auctions 0).status = .imminent := ⟨_, ⟨_, rfl⟩, rfl⟩
  obtain ⟨s', taken, imminent⟩ := run
  exact ⟨s', imminent, (price_index_kept_iff indexed_start.1 indexed_start.2 taken).1.mpr rfl⟩

/-- A bid of 100 points leaves the auction listed at 50. -/
theorem bid_listed_at_fifty : ∃ s', PriceIndex indexedStore ∧ indexedStore.Steps bidStep s' ∧
    s'.cellListPriceOrder = [(50, 0)] ∧ (s'.auctions 0).price = 100 ∧ ¬PriceIndex s' := by
  have run : ∃ s', indexedStore.Steps bidStep s' ∧ s'.cellListPriceOrder = [(50, 0)] ∧
      (s'.auctions 0).price = 100 := ⟨_, ⟨_, rfl⟩, rfl, rfl⟩
  obtain ⟨s', taken, listed, price⟩ := run
  refine ⟨s', indexed_start.1, taken, listed, price, fun index => ?_⟩
  have current := index.current (50, 0) (by rw [listed]; exact List.mem_singleton_self _)
  exact absurd (show (100 : Int32) = 50 from price.symm.trans current.symm) (by decide)

end NewNameAuction
