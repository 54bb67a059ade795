import NewNameAuction.AuctionEvents

/-! The bid ledger of an auction. Whatever the order of jobs and sweeps, the
price, the bidder and the number of bids of a record are the work of the bids
accepted for it: each beats all before it, and the last one stands. -/
namespace NewNameAuction.BidLedger
open AuctionBook Store

/-- The bid that a step makes and has accepted. -/
def acceptedIn (s : Store) : LogicStep → Option AcceptedBid
  | .job job env => s.bidOf env job
  | .update _ => none

/-- A step of the logic thread, labelled with its accepted bid. -/
def BidStep (s : Store) (label : LogicStep × Option AcceptedBid) (s' : Store) : Prop :=
  s.Steps label.1 s' ∧ label.2 = acceptedIn s label.1

/-- The bids accepted for a record, in order. -/
def bidsOn (r : AuctionRef) (labels : List (LogicStep × Option AcceptedBid)) : List AcceptedBid :=
  (labels.filterMap Prod.snd).filter fun bid => bid.pData = r

/-- Every run has its labels. -/
theorem labelled {s t : Store} {steps : List LogicStep} (run : Run Store.Steps s steps t) :
    ∃ labels, labels.map Prod.fst = steps ∧ Run BidStep s labels t := by
  induction run with
  | nil s => exact ⟨[], rfl, .nil s⟩
  | cons taken _ ih =>
    obtain ⟨labels, rfl, run⟩ := ih
    exact ⟨(_, acceptedIn _ _) :: labels, rfl, .cons ⟨taken, rfl⟩ run⟩

/-! ## One step -/

/-- What one step does to the bids of the auctions there are, to their owners,
and to the bidders. -/
structure StepLedger (s : Store) (step : LogicStep) (s' : Store) : Prop where
  grows : s.nextAuction ≤ s'.nextAuction
  owner : ∀ r < s.nextAuction, (s'.auctions r).ownerID = (s.auctions r).ownerID
  accepted : ∀ bid, acceptedIn s step = some bid →
    (s.auctions bid.pData).price < bid.price ∧
    (s.auctions bid.pData).ownerID ≠ bid.pPlayer.accountNo ∧
    (s'.auctions bid.pData).price = bid.price ∧
    (s'.auctions bid.pData).bidderID = bid.pPlayer.accountNo ∧
    (s'.auctions bid.pData).count = (s.auctions bid.pData).count + 1 ∧
    s.playerList.find bid.pPlayer.sessionID = some bid.pPlayer ∧
    ∃ pPlayer', s'.playerList.find bid.pPlayer.sessionID = some pPlayer' ∧
      pPlayer'.point.toInt = bid.pPlayer.point.toInt - bid.price.toInt
  others : ∀ r < s.nextAuction, (∀ bid, acceptedIn s step = some bid → bid.pData ≠ r) →
    (s'.auctions r).price = (s.auctions r).price ∧
    (s'.auctions r).bidderID = (s.auctions r).bidderID ∧
    (s'.auctions r).count = (s.auctions r).count
  refused : ∀ sessionID pPacket env, step = .job (.onRecv sessionID pPacket) env →
    (s.readType pPacket).1 = 5 → acceptedIn s step = none →
    s'.playerList = s.playerList ∧ s'.toAuctionBook = s.toAuctionBook ∧ s'.ownList = s.ownList

section Steps
variable {s s' : Store} {effects : List Effect}

/-- The ledger fields of a record. -/
private def Same (data data' : AuctionData) : Prop :=
  data'.ownerID = data.ownerID ∧ data'.price = data.price ∧ data'.bidderID = data.bidderID ∧
    data'.count = data.count

private theorem moved_same (b : AuctionBook) (wstr : WString) (pData r : AuctionRef) (draw : Draw) :
    Same (b.auctions r) ((b.moveToImminent wstr pData draw).auctions r) :=
  ⟨move_field b pData r wstr draw AuctionData.ownerID fun _ _ _ => rfl,
    move_field b pData r wstr draw AuctionData.price fun _ _ _ => rfl,
    move_field b pData r wstr draw AuctionData.bidderID fun _ _ _ => rfl,
    move_field b pData r wstr draw AuctionData.count fun _ _ _ => rfl⟩

private theorem finished_same (b : AuctionBook) (wstr : WString) (pData r : AuctionRef) :
    Same (b.auctions r) ((b.finish wstr pData).auctions r) :=
  ⟨finish_field b pData r wstr AuctionData.ownerID fun _ _ => rfl,
    finish_field b pData r wstr AuctionData.price fun _ _ => rfl,
    finish_field b pData r wstr AuctionData.bidderID fun _ _ => rfl,
    finish_field b pData r wstr AuctionData.count fun _ _ => rfl⟩

private theorem Same.trans {first middle last : AuctionData} (earlier : Same first middle)
    (later : Same middle last) : Same first last :=
  ⟨later.1.trans earlier.1, later.2.1.trans earlier.2.1, later.2.2.1.trans earlier.2.2.1,
    later.2.2.2.trans earlier.2.2.2⟩

/-- `Update` leaves the ledger of every record alone. -/
theorem update_ledger {env : UpdateEnv} (ran : s.update env = .ok (s', effects)) :
    StepLedger s (.update env) s' := by
  have kept : ∀ r, Same (s.auctions r) (s'.auctions r) :=
    update_book (P := fun b => ∀ r, Same (s.auctions r) (b.auctions r)) ran
      (fun b wstr pData kept _ r => (kept r).trans (moved_same b wstr pData r _))
      (fun b wstr pData kept _ r => (kept r).trans (finished_same b wstr pData r))
      fun _ => ⟨rfl, rfl, rfl, rfl⟩
  refine ⟨Nat.le_of_eq (update_next ran).symm, fun r _ => (kept r).1, fun bid made => ?_,
    fun r _ _ => (kept r).2, fun sessionID pPacket env' job => ?_⟩
  · cases made
  · cases job

theorem job_ledger {job : Job} {env : JobEnv} (ran : s.runJob env job = .ok (s', effects)) :
    StepLedger s (.job job env) s' := by
  have refused (sessionID : Int64) (pPacket : ByteMemory.Bytes) (env' : JobEnv)
      (same : LogicStep.job job env = .job (.onRecv sessionID pPacket) env')
      (type : (s.readType pPacket).1 = 5) (idle : acceptedIn s (.job job env) = none) :
      s'.playerList = s.playerList ∧ s'.toAuctionBook = s.toAuctionBook ∧
        s'.ownList = s.ownList := by
    cases same
    rw [refused_bid_idle type idle ran]
    exact ⟨rfl, rfl, rfl⟩
  cases bidding : s.bidOf env job with
  | some bid =>
    obtain ⟨_, known, rfl, affordable, paid⟩ := accepted_bid_paid bidding ran
    obtain ⟨after, _, higher, other⟩ := job_bid bidding ran
    refine ⟨?_, fun r _ => ?_, fun bid' made => ?_, fun r _ unbid => ?_, refused⟩
    · rw [after]
      exact Nat.le_refl _
    · rw [after, auctions_bid]
      split
      · rename_i same
        rw [same]
      · rfl
    · obtain rfl : bid = bid' := Option.some.inj (bidding.symm.trans made)
      rw [after, auctions_bid, if_pos rfl]
      refine ⟨higher, other, rfl, rfl, rfl, known,
        { bid.pPlayer with point := bid.pPlayer.point - bid.price }, ?_, ?_⟩
      · rw [paid, UnorderedMap.find_assign, if_pos rfl, known, Option.map_some]
      · rw [affordable, Int32.sub_self, Int.sub_self]
        rfl
    · rw [after, auctions_bid, if_neg (Ne.symm (unbid bid bidding))]
      exact ⟨rfl, rfl, rfl⟩
  | none =>
    have unbid (bid : AcceptedBid) (made : acceptedIn s (.job job env) = some bid) : False := by
      cases bidding.symm.trans made
    have kept : s.nextAuction ≤ s'.nextAuction ∧
        ∀ r < s.nextAuction, s'.auctions r = s.auctions r := by
      cases registered : s.registration env job with
      | none =>
        rw [job_unchanged bidding registered ran]
        exact ⟨Nat.le_refl _, fun _ _ => rfl⟩
      | some data =>
        rw [job_registered registered ran]
        refine ⟨Nat.le_succ _, fun r there => ?_⟩
        rw [auctions_register, if_neg (Nat.ne_of_lt there)]
    refine ⟨kept.1, fun r there => by rw [kept.2 r there], fun bid made => (unbid bid made).elim,
      fun r there _ => ?_, refused⟩
    rw [kept.2 r there]
    exact ⟨rfl, rfl, rfl⟩

theorem step_ledger {step : LogicStep} (taken : s.Steps step s') : StepLedger s step s' := by
  obtain ⟨effects, ran⟩ := taken
  cases step with
  | job job env => exact job_ledger ran
  | update env => exact update_ledger ran

end Steps

/-! ## Whole runs -/

/-- The ledger of a record against the bids accepted for it since the start. The
number of bids is counted in a signed 32-bit field. -/
structure Ledger (data : AuctionData) (bids : List AcceptedBid) (data' : AuctionData) : Prop where
  owner : data'.ownerID = data.ownerID
  rising : List.Pairwise (· < ·) (data.price :: bids.map AcceptedBid.price)
  price : data'.price = (bids.map AcceptedBid.price).getLastD data.price
  bidder : data'.bidderID = (bids.map fun bid => bid.pPlayer.accountNo).getLastD data.bidderID
  notOwner : bids ≠ [] → data'.bidderID ≠ data'.ownerID
  count : data.count.toInt + bids.length < 2 ^ 31 →
    data'.count.toInt = data.count.toInt + bids.length

section Runs
variable {s t t' : Store}

private theorem ledger_nil (data : AuctionData) : Ledger data [] data :=
  ⟨rfl, List.pairwise_singleton _ _, rfl, rfl, fun none => absurd rfl none, fun _ => by simp⟩

private theorem ledger_same {data middle last : AuctionData} {bids : List AcceptedBid}
    (ledger : Ledger data bids middle) (owner : last.ownerID = middle.ownerID)
    (same : last.price = middle.price ∧ last.bidderID = middle.bidderID ∧
      last.count = middle.count) : Ledger data bids last := by
  obtain ⟨price, bidder, count⟩ := same
  refine ⟨owner.trans ledger.owner, ledger.rising, price.trans ledger.price,
    bidder.trans ledger.bidder, fun some => ?_, fun small => ?_⟩
  · rw [bidder, owner]
    exact ledger.notOwner some
  · rw [count]
    exact ledger.count small

/-- No price so far is above the current one. -/
private theorem price_le {data data' : AuctionData} {bids : List AcceptedBid}
    (ledger : Ledger data bids data') :
    ∀ price ∈ data.price :: bids.map AcceptedBid.price, price ≤ data'.price := by
  intro price member
  have rising := ledger.rising
  have current := ledger.price
  rcases List.eq_nil_or_concat' bids with rfl | ⟨earlier, bid, rfl⟩
  · rw [List.map_nil, List.mem_singleton] at member
    rw [member, current]
    exact Int32.le_rfl
  · rw [List.map_append, ← List.cons_append, List.mem_append] at member
    rw [List.map_append, ← List.cons_append, List.pairwise_append] at rising
    rw [List.map_append] at current
    have last : data'.price = bid.price := current.trans List.getLastD_concat
    rw [last]
    rcases member with before | now
    · exact Int32.le_of_lt (rising.2.2 price before bid.price (by simp))
    · obtain rfl := List.mem_singleton.mp now
      exact Int32.le_rfl

private theorem ledger_bid {data middle last : AuctionData} {bids : List AcceptedBid}
    {bid : AcceptedBid} (ledger : Ledger data bids middle) (higher : middle.price < bid.price)
    (other : middle.ownerID ≠ bid.pPlayer.accountNo) (owner : last.ownerID = middle.ownerID)
    (price : last.price = bid.price) (bidder : last.bidderID = bid.pPlayer.accountNo)
    (count : last.count = middle.count + 1) : Ledger data (bids ++ [bid]) last := by
  refine ⟨owner.trans ledger.owner, ?_, ?_, ?_, fun _ => ?_, fun small => ?_⟩
  · rw [List.map_append, ← List.cons_append, List.pairwise_append]
    refine ⟨ledger.rising, List.pairwise_singleton _ _, fun earlier member last now => ?_⟩
    obtain rfl := List.mem_singleton.mp now
    exact Int32.lt_of_le_of_lt (price_le ledger earlier member) higher
  · rw [List.map_append, price]
    exact (List.getLastD_concat).symm
  · rw [List.map_append, bidder]
    exact (List.getLastD_concat).symm
  · rw [bidder, owner]
    exact Ne.symm other
  · rw [List.length_append, List.length_singleton, Nat.cast_add, Nat.cast_one] at small ⊢
    have before := ledger.count (by omega)
    have low := middle.count.le_toInt
    rw [count, Int32.toInt_add, before, Int.bmod_eq_of_le] <;> simp <;> omega

private theorem bids_on_append (r : AuctionRef) (past : List (LogicStep × Option AcceptedBid))
    (step : LogicStep) (made : Option AcceptedBid) :
    bidsOn r (past ++ [(step, made)]) =
      bidsOn r past ++ (made.toList.filter fun bid => bid.pData = r) := by
  unfold bidsOn
  rw [List.filterMap_append, List.filter_append]
  congr 2

private theorem ledgers_step {past : List (LogicStep × Option AcceptedBid)}
    {label : LogicStep × Option AcceptedBid} (taken : BidStep t label t')
    (grows : s.nextAuction ≤ t.nextAuction)
    (ledgers : ∀ r < s.nextAuction, Ledger (s.auctions r) (bidsOn r past) (t.auctions r)) :
    ∀ r < s.nextAuction, Ledger (s.auctions r) (bidsOn r (past ++ [label])) (t'.auctions r) := by
  obtain ⟨step, made⟩ := label
  obtain ⟨ran, label⟩ := taken
  dsimp only at ran label
  subst label
  intro r old
  have there := Nat.lt_of_lt_of_le old grows
  have ledger := ledgers r old
  have moves := step_ledger ran
  rw [bids_on_append]
  cases made : acceptedIn t step with
  | none =>
    rw [Option.toList_none, List.filter_nil, List.append_nil]
    refine ledger_same ledger (moves.owner r there) (moves.others r there fun bid some => ?_)
    cases made.symm.trans some
  | some bid =>
    rw [Option.toList_some]
    by_cases mine : bid.pData = r
    · subst mine
      rw [List.filter_cons_of_pos (by simp), List.filter_nil]
      obtain ⟨higher, other, price, bidder, count, _⟩ := moves.accepted bid made
      exact ledger_bid ledger higher other (moves.owner _ there) price bidder count
    · rw [List.filter_cons_of_neg (by simpa using mine), List.filter_nil, List.append_nil]
      refine ledger_same ledger (moves.owner r there) (moves.others r there fun bid' some => ?_)
      obtain rfl : bid = bid' := Option.some.inj (made.symm.trans some)
      exact mine

/-- The bid ledger over whole runs from any store. Every record is a record of
the start: a run may be taken up right after its registration. -/
theorem bid_ledger (s : Store) (labels : List (LogicStep × Option AcceptedBid)) (t : Store)
    (run : Run BidStep s labels t) :
    (∀ step t', t.Steps step t' → StepLedger t step t') ∧
      ∀ r < s.nextAuction, Ledger (s.auctions r) (bidsOn r labels) (t.auctions r) := by
  have history := run.history (P := fun past t => s.nextAuction ≤ t.nextAuction ∧
      ∀ r < s.nextAuction, Ledger (s.auctions r) (bidsOn r past) (t.auctions r))
    (fun past t label t' holds taken => ⟨Nat.le_trans holds.1 (step_ledger taken.1).grows,
      ledgers_step taken holds.1 holds.2⟩)
    ⟨Nat.le_refl _, fun r _ => ledger_nil _⟩
  exact ⟨fun step t' ran => step_ledger ran, history.2⟩

end Runs

/-! ## Two auctions -/

/-- A player of account 7 with 100 points, and one auction on sale at 50. -/
def bidStore (count : Int32) : Store :=
  { Store.empty (fun _ => { AuctionData.zero with
      nickName := nameA, ownerID := 1, bidderID := 2, price := 50,
      count := count }) 0 with
    nextAuction := 1
    cellList := (∅ : UnorderedMap WString AuctionRef).emplace [65] 0
    playerList := (∅ : UnorderedMap Int64 Player).emplace 5
      ⟨true, 7, 5, nameB, 100⟩ }

/-- `REQ_BID` of 100 for that auction. -/
def bidRequest : ByteMemory.Bytes := [5, 0] ++ [65, 0] ++ List.replicate 18 0 ++ [100, 0, 0, 0]

def bidStep : LogicStep := .job (.onRecv 5 bidRequest) (.zero 0)

/-- The bid is accepted and enters the ledger. -/
theorem hundred_bid : ∃ labels t, Run BidStep (bidStore 3) labels t ∧
    (bidsOn 0 labels).map AcceptedBid.price = [100] ∧
    Ledger ((bidStore 3).auctions 0) (bidsOn 0 labels) (t.auctions 0) := by
  have run : ∃ t, Run BidStep (bidStore 3) [(bidStep, acceptedIn (bidStore 3) bidStep)] t :=
    ⟨_, .single ⟨⟨_, rfl⟩, rfl⟩⟩
  obtain ⟨t, run⟩ := run
  exact ⟨_, t, run, rfl, (bid_ledger (bidStore 3) _ t run).2 0 (by decide)⟩

/-- An auction that has had 2147483647 bids comes to a negative count with the
next one. -/
theorem count_wraps : ∃ labels t, Run BidStep (bidStore 2147483647) labels t ∧
    (∀ r, ((bidStore 2147483647).auctions r).count = 0 ∨ 0 < ((bidStore 2147483647).auctions r).count ∧
      ((bidStore 2147483647).auctions r).bidderID ≠ ((bidStore 2147483647).auctions r).ownerID) ∧
    (bidsOn 0 labels).length = 1 ∧
    (t.auctions 0).count.toInt ≠ ((bidStore 2147483647).auctions 0).count.toInt + 1 := by
  have run : ∃ t, Run BidStep (bidStore 2147483647)
      [(bidStep, acceptedIn (bidStore 2147483647) bidStep)] t ∧ (t.auctions 0).count = -2147483648 :=
    ⟨_, .single ⟨⟨_, rfl⟩, rfl⟩, rfl⟩
  obtain ⟨t, run, count⟩ := run
  refine ⟨_, t, run, fun r => .inr ⟨?_, ?_⟩, rfl, ?_⟩
  · change (0 : Int32) < 2147483647
    decide
  · change (2 : Int64) ≠ 1
    decide
  · rw [count]
    decide

end NewNameAuction.BidLedger
