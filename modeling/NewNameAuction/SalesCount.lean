import NewNameAuction.Settlement
import NewNameAuction.SweepPeriod

/-! `NumOfSales` as the number of running auctions. Registering counts one up and
nothing counts down: the number is right until an auction ends, or a map that
already has a key keeps its older record and another auction falls out. -/
namespace NewNameAuction.SalesCount
open AuctionBook Store

/-- The auctions in `CellList` and in `ImminentList`. -/
def running (b : AuctionBook) : Nat := b.cellList.size + b.imminentList.size

/-- `NumOfSales` is the number of running auctions. -/
def Counted (s : Store) : Prop := s.numOfSales.toInt = (running s.toAuctionBook : Int)

/-- `REGISTER_ABLE` finds no server slot only while 20000 auctions run. -/
def RefusedWhenFull (s : Store) : Prop := ∀ env sessionID accountNo,
  .send sessionID (.resSale .failServerSlot) ∈ (s.nicknameRegisterAble env sessionID accountNo).2 →
    20000 ≤ running s.toAuctionBook

/-- The auctions `Update` ends: those in `ImminentList` past their end, and those
in `CellList` that are past it even by the drawn delay. -/
def Ends (env : UpdateEnv) (s : Store) (wstr : WString) (pData : AuctionRef) : Prop :=
  s.elapsed env 5000 ∧
    (s.imminentList.find wstr = some pData ∧ (s.auctions pData).endTime < env.curTime ∨
      s.elapsed env 60000 ∧ s.cellList.find wstr = some pData ∧
        (s.auctions pData).endTime < env.curTime ∧
        (s.auctions pData).endTime + (env.draw wstr).1 < env.curTime)

/-- No auction ends, and none falls out of a map because its key is taken. -/
def NothingLost (s : Store) : LogicStep → Prop
  | .job job env => ∀ data, s.registration env job = some data → data.nickName.chars ∉ s.cellList
  | .update env =>
    (s.elapsed env 60000 → ∀ wstr r, s.cellList.find wstr = some r →
      (s.auctions r).endTime < env.curTime → wstr ∉ s.imminentList) ∧
    ∀ wstr r, ¬Ends env s wstr r

theorem Counted.refused_when_full {s : Store} (counted : Counted s) : RefusedWhenFull s := by
  intro env sessionID accountNo refused
  have full : s.numOfSales ≥ maxServerSlot := by
    by_contra free
    unfold nicknameRegisterAble at refused
    dsimp only at refused
    split at refused
    · simp at refused
    · split at refused
      · simp at refused
      · split at refused
        · simp at refused
        · simp at refused
  have slots := Int32.le_iff_toInt_le.mp full
  rw [counted] at slots
  exact Int.ofNat_le.mp slots

/-! ## Jobs -/

section Jobs
variable {s s' : Store} {job : Job} {env : JobEnv} {effects : List Effect}

private theorem sales_counted {n : Int32} {size : Nat} (counted : n.toInt = (size : Int))
    (slot : n < maxServerSlot) : (n + 1).toInt = (size : Int) + 1 := by
  have small := Int32.lt_iff_toInt_lt.mp slot
  have limit : maxServerSlot.toInt = 20000 := rfl
  rw [counted, limit] at small
  rw [Int32.toInt_add, counted]
  change ((size : Int) + 1).bmod (2 ^ 32) = size + 1
  exact Int.bmod_eq_of_le (by omega) (by omega)

theorem job_counted_iff (counted : Counted s) (ran : s.runJob env job = .ok (s', effects)) :
    Counted s' ↔ NothingLost s (.job job env) := by
  have lists := job_registers ran
  unfold NothingLost
  cases made : s.registration env job with
  | none =>
    rw [made] at lists
    have same : running s'.toAuctionBook = running s.toAuctionBook := by
      cases bidding : s.bidOf env job with
      | none => rw [job_unchanged bidding made ran]
      | some bid =>
        rw [(job_bid bidding ran).1]
        rfl
    refine iff_of_true ?_ fun data registered => ?_
    · rw [Counted, same, lists.2]
      exact counted
    · cases made.symm.trans registered
  | some data =>
    rw [made] at lists
    have slot : s.numOfSales < maxServerSlot := by
      obtain ⟨_, _, _, free, _⟩ := registration_made made
      exact Int32.not_le.mp fun full => free (.inr full)
    have after := job_registered made ran
    have size : running s'.toAuctionBook =
        if data.nickName.chars ∈ s.cellList then running s.toAuctionBook
        else running s.toAuctionBook + 1 := by
      rw [after, running, cellList_register, UnorderedMap.size_emplace, imminentList_register, running]
      split
      · rfl
      · exact Nat.add_right_comm _ _ _
    rw [Counted, lists.2, sales_counted counted slot, size]
    constructor
    · intro same data' registered
      obtain rfl := Option.some.inj (made.symm.trans registered)
      intro taken
      rw [if_pos taken] at same
      omega
    · intro new
      rw [if_neg (new data made)]
      exact (Int.natCast_succ _).symm

end Jobs

/-! ## The sweeps -/

/-- The loop over `CellList`, part of the way: what has left it was due, and is in
`ImminentList` unless that had its key. -/
structure Sweeping (env : UpdateEnv) (s : Store) (b : AuctionBook) : Prop where
  separate : Settlement.Separate b
  cell : ∀ wstr r, b.cellList.find wstr = some r →
    s.cellList.find wstr = some r ∧ b.auctions r = s.auctions r
  stood : ∀ wstr r, s.imminentList.find wstr = some r →
    b.imminentList.find wstr = some r ∧ b.auctions r = s.auctions r
  left : ∀ wstr r, s.cellList.find wstr = some r → wstr ∉ b.cellList →
    (s.auctions r).endTime < env.curTime ∧ wstr ∈ b.imminentList ∧
      (wstr ∉ s.imminentList → b.imminentList.find wstr = some r ∧
        (b.auctions r).endTime = (s.auctions r).endTime + (env.draw wstr).1)
  imminent : ∀ wstr r, b.imminentList.find wstr = some r →
    s.imminentList.find wstr = some r ∨ s.cellList.find wstr = some r ∧ wstr ∉ b.cellList

section Sweeps
variable {env : UpdateEnv} {s : Store} {b : AuctionBook}

theorem sweeping_start (separate : Settlement.Separate s.toAuctionBook) :
    Sweeping env s s.toAuctionBook :=
  ⟨separate, fun _ _ found => ⟨found, rfl⟩, fun _ _ found => ⟨found, rfl⟩,
    fun _ _ found gone => absurd (UnorderedMap.mem_of_find found) gone, fun _ _ found => .inl found⟩

theorem sweeping_moved {key : WString} {pData : AuctionRef} (sweeping : Sweeping env s b)
    (found : b.cellList.find key = some pData) (due : (b.auctions pData).endTime < env.curTime) :
    Sweeping env s (b.moveToImminent key pData (env.draw key)) := by
  obtain ⟨before, same⟩ := sweeping.cell key pData found
  have sale := sweeping.separate.cell key pData found
  have listed := UnorderedMap.mem_of_find found
  -- the moved record is in no entry but this one
  have other {wstr : WString} {r : AuctionRef} (entry : b.imminentList.find wstr = some r) :
      r ≠ pData := by
    rintro rfl
    have status := sweeping.separate.imminent wstr r entry
    rw [sale] at status
    cases status
  refine ⟨Settlement.imminent_separate sweeping.separate _ found, fun wstr r entry => ?_,
    fun wstr r entry => ?_, fun wstr r entry gone => ?_, fun wstr r entry => ?_⟩
  · rw [cellList_moveToImminent, UnorderedMap.find_erase] at entry
    split at entry
    · cases entry
    · rename_i apart
      have another : r ≠ pData := by
        rintro rfl
        exact apart (sweeping.separate.cellOnce wstr key r entry found)
      rw [auctions_moveToImminent, if_neg another]
      exact sweeping.cell wstr r entry
  · obtain ⟨stands, kept⟩ := sweeping.stood wstr r entry
    rw [auctions_moveToImminent, if_neg (other stands)]
    exact ⟨UnorderedMap.find_emplace_old key pData stands, kept⟩
  · rcases eq_or_ne wstr key with rfl | apart
    · obtain rfl : r = pData := Option.some.inj (entry.symm.trans before)
      rw [same] at due
      refine ⟨due, UnorderedMap.mem_emplace _ _ _ _ |>.mpr (.inl rfl), fun free => ?_⟩
      have new : wstr ∉ b.imminentList := by
        intro member
        obtain ⟨r', entry'⟩ := UnorderedMap.find_of_mem member
        rcases sweeping.imminent wstr r' entry' with old | ⟨_, gone⟩
        · exact free (UnorderedMap.mem_of_find old)
        · exact gone listed
      refine ⟨UnorderedMap.find_emplace_new r new, ?_⟩
      rw [auctions_moveToImminent, if_pos rfl, same]
    · rw [cellList_moveToImminent, UnorderedMap.mem_erase, not_and] at gone
      have gone := gone apart
      obtain ⟨past, moved, free⟩ := sweeping.left wstr r entry gone
      refine ⟨past, UnorderedMap.mem_emplace _ _ _ _ |>.mpr (.inr moved), fun unlisted => ?_⟩
      obtain ⟨stands, time⟩ := free unlisted
      rw [auctions_moveToImminent, if_neg (other stands)]
      exact ⟨UnorderedMap.find_emplace_old key pData stands, time⟩
  · rcases UnorderedMap.find_emplace_some entry with stands | ⟨rfl, rfl⟩
    · rcases sweeping.imminent wstr r stands with old | ⟨cell, gone⟩
      · exact .inl old
      · refine .inr ⟨cell, fun member => gone ?_⟩
        rw [cellList_moveToImminent, UnorderedMap.mem_erase] at member
        exact member.2
    · refine .inr ⟨before, fun member => ?_⟩
      rw [cellList_moveToImminent, UnorderedMap.mem_erase] at member
      exact member.1 rfl

/-- A sweep of `CellList` that moves some keys loses those that `ImminentList` had. -/
theorem running_swept (sweeping : Sweeping env s b) :
    running b + (s.imminentList.keySet ∩ (s.cellList.keySet \ b.cellList.keySet)).card =
      running s.toAuctionBook := by
  have cells : b.cellList.keySet ⊆ s.cellList.keySet := by
    intro wstr member
    obtain ⟨r, found⟩ := UnorderedMap.find_of_mem (UnorderedMap.mem_keySet.mp member)
    exact UnorderedMap.mem_keySet.mpr (UnorderedMap.mem_of_find (sweeping.cell wstr r found).1)
  have imminent : b.imminentList.keySet =
      s.imminentList.keySet ∪ (s.cellList.keySet \ b.cellList.keySet) := by
    ext wstr
    simp only [Finset.mem_union, Finset.mem_sdiff, UnorderedMap.mem_keySet]
    constructor
    · intro member
      obtain ⟨r, found⟩ := UnorderedMap.find_of_mem member
      rcases sweeping.imminent wstr r found with old | ⟨cell, gone⟩
      · exact .inl (UnorderedMap.mem_of_find old)
      · exact .inr ⟨UnorderedMap.mem_of_find cell, gone⟩
    · rintro (old | ⟨cell, gone⟩)
      · obtain ⟨r, found⟩ := UnorderedMap.find_of_mem old
        exact UnorderedMap.mem_of_find (sweeping.stood wstr r found).1
      · obtain ⟨r, found⟩ := UnorderedMap.find_of_mem cell
        exact (sweeping.left wstr r found gone).2.1
  have union := Finset.card_union_add_card_inter s.imminentList.keySet
    (s.cellList.keySet \ b.cellList.keySet)
  have parts := Finset.card_sdiff_add_card_eq_card cells
  unfold running
  rw [← UnorderedMap.card_keySet, ← UnorderedMap.card_keySet, ← UnorderedMap.card_keySet,
    ← UnorderedMap.card_keySet, imminent]
  omega

/-- Half-way through `Update`: what has left `CellList` is what was due, if a
minute was over. -/
theorem minute_swept {midway : Store} (separate : Settlement.Separate s.toAuctionBook)
    (ran : s.updateMinute env = .ok midway) :
    Sweeping env s midway.toAuctionBook ∧ ∀ wstr r, s.cellList.find wstr = some r →
      (wstr ∉ midway.cellList ↔ s.elapsed env 60000 ∧ (s.auctions r).endTime < env.curTime) := by
  obtain ⟨sweeping, _⟩ := update_minute_cases (P := Sweeping env s) ran
    (fun _ b wstr pData sweeping found due => sweeping_moved sweeping found due)
    (sweeping_start separate)
  refine ⟨sweeping, fun wstr r found => ⟨fun gone => ?_, fun due stands => ?_⟩⟩
  · refine ⟨?_, (sweeping.left wstr r found gone).1⟩
    by_contra recent
    unfold updateMinute at ran
    rw [if_neg recent] at ran
    cases ran
    exact gone (UnorderedMap.mem_of_find found)
  · obtain ⟨r', still⟩ := UnorderedMap.find_of_mem stands
    obtain ⟨before, same⟩ := sweeping.cell wstr r' still
    obtain rfl : r' = r := Option.some.inj (before.symm.trans found)
    refine SweepPeriod.swept_minute due.1 ran wstr r' still ?_
    rw [same]
    exact due.2

/-- The second half of `Update` takes out of `ImminentList` what is due. -/
theorem five_seconds_swept (env : UpdateEnv) (s : Store) :
    let s' := (s.updateFiveSeconds env).1
    s'.cellList = s.cellList ∧ s'.imminentList.keySet ⊆ s.imminentList.keySet ∧
      (s'.imminentList.keySet = s.imminentList.keySet ↔ ∀ wstr r,
        s.imminentList.find wstr = some r →
          ¬(s.elapsed env 5000 ∧ (s.auctions r).endTime < env.curTime)) := by
  obtain ⟨book, after, cells, stood, times, left⟩ := update_five_seconds_cases env (s := s)
    (P := fun b _ => b.cellList = s.cellList ∧
      (∀ wstr r, b.imminentList.find wstr = some r → s.imminentList.find wstr = some r) ∧
      (∀ r, (b.auctions r).endTime = (s.auctions r).endTime) ∧
      ∀ wstr r, s.imminentList.find wstr = some r → wstr ∉ b.imminentList →
        s.elapsed env 5000 ∧ (s.auctions r).endTime < env.curTime)
    (fun elapsed b _ key pData holds found due => by
      obtain ⟨cells, stood, times, left⟩ := holds
      refine ⟨by rw [cellList_finish, cells], fun wstr r entry => ?_, fun r => ?_,
        fun wstr r entry gone => ?_⟩
      · rw [imminentList_finish, UnorderedMap.find_erase] at entry
        split at entry
        · cases entry
        · exact stood wstr r entry
      · rw [endTime_finish, times]
      · rw [imminentList_finish, UnorderedMap.mem_erase, not_and] at gone
        rcases eq_or_ne wstr key with rfl | apart
        · obtain rfl : pData = r := Option.some.inj ((stood wstr pData found).symm.trans entry)
          rw [times] at due
          exact ⟨elapsed, due⟩
        · exact left wstr r entry (gone apart))
    ⟨rfl, fun _ _ found => found, fun _ => rfl,
      fun _ _ found gone => absurd (UnorderedMap.mem_of_find found) gone⟩
  have subset : book.imminentList.keySet ⊆ s.imminentList.keySet := by
    intro wstr member
    obtain ⟨r, found⟩ := UnorderedMap.find_of_mem (UnorderedMap.mem_keySet.mp member)
    exact UnorderedMap.mem_keySet.mpr (UnorderedMap.mem_of_find (stood wstr r found))
  refine ⟨by rw [after, cells], by rw [after]; exact subset, ?_⟩
  constructor
  · rintro same wstr r found ⟨elapsed, due⟩
    have stands : wstr ∈ (s.updateFiveSeconds env).1.imminentList := by
      rw [← UnorderedMap.mem_keySet, same, UnorderedMap.mem_keySet]
      exact UnorderedMap.mem_of_find found
    obtain ⟨r', still⟩ := UnorderedMap.find_of_mem stands
    have early := SweepPeriod.swept_five_seconds elapsed wstr r' still
    rw [after] at still early
    obtain rfl : r' = r := Option.some.inj ((stood wstr r' still).symm.trans found)
    change ¬(book.auctions r').endTime < env.curTime at early
    rw [times] at early
    exact early due
  · intro early
    rw [after]
    refine Finset.Subset.antisymm subset fun wstr member => ?_
    obtain ⟨r, found⟩ := UnorderedMap.find_of_mem (UnorderedMap.mem_keySet.mp member)
    by_contra gone
    exact early wstr r found (left wstr r found fun there => gone (UnorderedMap.mem_keySet.mpr there))

/-- What the two halves of `Update` take away is what `NothingLost` excludes. -/
theorem update_counted_iff {s' : Store} {effects : List Effect} (counted : Counted s)
    (separate : Settlement.Separate s.toAuctionBook) (ran : s.update env = .ok (s', effects)) :
    Counted s' ↔ NothingLost s (.update env) := by
  obtain ⟨_, _, _, _, frame⟩ := update_frame ran
  have sales : s'.numOfSales = s.numOfSales := by rw [frame]
  obtain ⟨midway, minute, rfl, _⟩ := update_cases ran
  obtain ⟨sweeping, gone_iff⟩ := minute_swept separate minute
  obtain ⟨cells, subset, all_iff⟩ := five_seconds_swept env midway
  have elapsed_iff := update_minute_elapsed minute 5000
  have first := running_swept sweeping
  have second := Finset.card_le_card subset
  have total : Counted { (midway.updateFiveSeconds env).1 with lastUpdateTime := env.curTime } ↔
      s.imminentList.keySet ∩ (s.cellList.keySet \ midway.cellList.keySet) = ∅ ∧
        (midway.updateFiveSeconds env).1.imminentList.keySet = midway.imminentList.keySet := by
    rw [Counted, sales, counted, Int.ofNat_inj, ← first]
    unfold running
    rw [← UnorderedMap.card_keySet midway.imminentList,
      ← UnorderedMap.card_keySet (midway.updateFiveSeconds env).1.imminentList, cells]
    constructor
    · intro same
      exact ⟨Finset.card_eq_zero.mp (by omega), Finset.eq_of_subset_of_card_le subset (by omega)⟩
    · rintro ⟨none, all⟩
      rw [none, all, Finset.card_empty, Nat.add_zero]
  rw [total, all_iff]
  have lost_iff : s.imminentList.keySet ∩ (s.cellList.keySet \ midway.cellList.keySet) = ∅ ↔
      (s.elapsed env 60000 → ∀ wstr r, s.cellList.find wstr = some r →
        (s.auctions r).endTime < env.curTime → wstr ∉ s.imminentList) := by
    rw [Finset.eq_empty_iff_forall_notMem]
    constructor
    · intro none elapsed wstr r found due taken
      refine none wstr ?_
      simp only [Finset.mem_inter, Finset.mem_sdiff, UnorderedMap.mem_keySet]
      exact ⟨taken, UnorderedMap.mem_of_find found, (gone_iff wstr r found).mpr ⟨elapsed, due⟩⟩
    · intro free wstr member
      simp only [Finset.mem_inter, Finset.mem_sdiff, UnorderedMap.mem_keySet] at member
      obtain ⟨taken, listed, gone⟩ := member
      obtain ⟨r, found⟩ := UnorderedMap.find_of_mem listed
      obtain ⟨elapsed, due⟩ := (gone_iff wstr r found).mp gone
      exact free elapsed wstr r found due taken
  rw [lost_iff]
  refine and_congr_right fun free => ⟨fun early wstr r ends => ?_, fun runs wstr r found due => ?_⟩
  · obtain ⟨elapsed, ⟨found, due⟩ | ⟨minuteOver, found, past, due⟩⟩ := ends
    · obtain ⟨stands, same⟩ := sweeping.stood wstr r found
      exact early wstr r stands ⟨elapsed_iff.mpr elapsed, by rwa [same]⟩
    · have gone := (gone_iff wstr r found).mpr ⟨minuteOver, past⟩
      obtain ⟨moved, time⟩ := (sweeping.left wstr r found gone).2.2 (free minuteOver wstr r found past)
      exact early wstr r moved ⟨elapsed_iff.mpr elapsed, by rwa [time]⟩
  · have elapsed := elapsed_iff.mp due.1
    rcases sweeping.imminent wstr r found with old | ⟨cell, gone⟩
    · obtain ⟨_, same⟩ := sweeping.stood wstr r old
      rw [same] at due
      exact runs wstr r ⟨elapsed, .inl ⟨old, due.2⟩⟩
    · obtain ⟨minuteOver, past⟩ := (gone_iff wstr r cell).mp gone
      obtain ⟨_, time⟩ := (sweeping.left wstr r cell gone).2.2 (free minuteOver wstr r cell past)
      rw [time] at due
      exact runs wstr r ⟨elapsed, .inr ⟨minuteOver, cell, past, due.2⟩⟩

end Sweeps

/-- Where it is right, with the records apart, `NumOfSales` stays the number of
running auctions exactly in the steps that lose no auction; the records stay apart. -/
theorem sales_counted_iff {s s' : Store} {step : LogicStep} (counted : Counted s)
    (separate : Settlement.Separate s.toAuctionBook) (taken : s.Steps step s') :
    ((Counted s' ∧ RefusedWhenFull s') ↔ NothingLost s step) ∧
      Settlement.Separate s'.toAuctionBook := by
  obtain ⟨effects, ran⟩ := taken
  refine ⟨(and_iff_left_of_imp Counted.refused_when_full).trans ?_,
    (Settlement.takes_settles separate ran).2⟩
  cases step with
  | job job env => exact job_counted_iff counted ran
  | update env => exact update_counted_iff counted separate ran

/-! ## An imminent auction and a sale that is asked for -/

/-- One auction is imminent and due, and the player under session number 5 may
put his nickname "B" on sale. -/
def saleStore : Store :=
  { Settlement.dueStore with
    numOfSales := 1
    playerList := (∅ : UnorderedMap Int64 Player).emplace 5
      ⟨true, 5, 5, nameB, 100⟩
    waitingDataList := (∅ : UnorderedMap Int64 InitData).emplace 5 ⟨24, 1⟩ }

/-- The sale is counted. -/
theorem second_sale_counted : ∃ s' : Store, s'.numOfSales = 2 ∧ Counted s' ∧ RefusedWhenFull s' := by
  have run : ∃ s', saleStore.Steps (.job (.nicknameRegisterAble 5 5) (.zero 0)) s' ∧
      s'.numOfSales = 2 := ⟨_, ⟨_, rfl⟩, rfl⟩
  obtain ⟨s', taken, two⟩ := run
  have counted : Counted saleStore := rfl
  refine ⟨s', two, (sales_counted_iff counted Settlement.due_separate taken).1.mpr ?_⟩
  intro data _
  exact AList.notMem_empty _

/-- The auction ends and is still counted. -/
theorem ended_still_counted : ∃ s', Counted saleStore ∧
    saleStore.Steps (.update Settlement.dueUpdate) s' ∧ s'.numOfSales = 1 ∧
    running s'.toAuctionBook = 0 ∧ ¬Counted s' := by
  have run : ∃ s', saleStore.Steps (.update Settlement.dueUpdate) s' ∧ s'.numOfSales = 1 ∧
      running s'.toAuctionBook = 0 := ⟨_, ⟨_, rfl⟩, rfl, rfl⟩
  obtain ⟨s', taken, one, none⟩ := run
  refine ⟨s', rfl, taken, one, none, fun counted => ?_⟩
  rw [Counted, one, none] at counted
  exact absurd counted (by decide)

end NewNameAuction.SalesCount
