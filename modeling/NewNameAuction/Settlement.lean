import NewNameAuction.AuctionEvents

/-! Settlement of auctions. While no record is in two places of the maps of
running auctions, a record moves from sale over imminent to its end, is
announced to the database at that moment, and is never written again. -/
namespace NewNameAuction.Settlement
open AuctionBook

/-- Each record is the value of at most one entry of `CellList` and
`ImminentList` together, with the status its map stands for; and the pool does
not hand out a record that a map holds. -/
structure Separate (b : AuctionBook) : Prop where
  cell : ∀ wstr r, b.cellList.find wstr = some r → (b.auctions r).status = .sale
  imminent : ∀ wstr r, b.imminentList.find wstr = some r → (b.auctions r).status = .imminent
  cellOnce : ∀ wstr wstr' r, b.cellList.find wstr = some r → b.cellList.find wstr' = some r →
    wstr = wstr'
  imminentOnce : ∀ wstr wstr' r, b.imminentList.find wstr = some r →
    b.imminentList.find wstr' = some r → wstr = wstr'
  pooled : ∀ wstr r, b.cellList.find wstr = some r ∨ b.imminentList.find wstr = some r →
    r < b.nextAuction

theorem empty_separate (auctions : AuctionRef → AuctionData) (packetType : UInt16) :
    Separate (Store.empty auctions packetType).toAuctionBook where
  cell := fun _ _ found => by cases found
  imminent := fun _ _ found => by cases found
  cellOnce := fun _ _ _ found => by cases found
  imminentOnce := fun _ _ _ found => by cases found
  pooled := fun _ _ found => by rcases found with found | found <;> cases found

section Book
variable {b b' : AuctionBook} {event : Event} {wstr : WString} {pData : AuctionRef}

theorem register_separate (separate : Separate b) {data : AuctionData} (sale : data.status = .sale) :
    Separate (b.register data) := by
  have fresh (wstr : WString) : b.cellList.find wstr ≠ some b.nextAuction := fun found =>
    absurd (separate.pooled wstr _ (.inl found)) (Nat.lt_irrefl _)
  refine ⟨?cell, ?imminent, ?cellOnce, separate.imminentOnce, ?pooled⟩
  case cell =>
    intro wstr r found
    rcases UnorderedMap.find_emplace_some found with found | ⟨_, rfl⟩
    · rw [auctions_register, if_neg (Nat.ne_of_lt (separate.pooled wstr r (.inl found)))]
      exact separate.cell wstr r found
    · rw [auctions_register, if_pos rfl, sale]
  case imminent =>
    intro wstr r found
    rw [auctions_register, if_neg (Nat.ne_of_lt (separate.pooled wstr r (.inr found)))]
    exact separate.imminent wstr r found
  case cellOnce =>
    intro wstr wstr' r found found'
    rcases UnorderedMap.find_emplace_some found with found | ⟨rfl, rfl⟩
    · rcases UnorderedMap.find_emplace_some found' with found' | ⟨rfl, rfl⟩
      · exact separate.cellOnce wstr wstr' r found found'
      · exact absurd found (fresh wstr)
    · rcases UnorderedMap.find_emplace_some found' with found' | ⟨rfl, _⟩
      · exact absurd found' (fresh wstr')
      · rfl
  case pooled =>
    rintro wstr r (found | found)
    · rcases UnorderedMap.find_emplace_some found with found | ⟨_, rfl⟩
      · exact Nat.lt_succ_of_lt (separate.pooled wstr r (.inl found))
      · exact Nat.lt_succ_self _
    · exact Nat.lt_succ_of_lt (separate.pooled wstr r (.inr found))

theorem bid_separate (separate : Separate b) (pData : AuctionRef) (bidder : Int64) (price : Int32) :
    Separate (b.bid pData bidder price) := by
  have kept (r : AuctionRef) : ((b.bid pData bidder price).auctions r).status =
      (b.auctions r).status := bid_field b pData r bidder price AuctionData.status fun _ _ _ _ => rfl
  refine ⟨fun wstr r found => ?_, fun wstr r found => ?_, separate.cellOnce, separate.imminentOnce,
    separate.pooled⟩
  · rw [kept]
    exact separate.cell wstr r found
  · rw [kept]
    exact separate.imminent wstr r found

theorem imminent_separate (separate : Separate b) (draw : Draw)
    (found : b.cellList.find wstr = some pData) : Separate (b.moveToImminent wstr pData draw) := by
  have sale := separate.cell wstr pData found
  have left {key : WString} {r : AuctionRef}
      (entry : (b.moveToImminent wstr pData draw).cellList.find key = some r) :
      b.cellList.find key = some r ∧ r ≠ pData := by
    rw [cellList_moveToImminent, UnorderedMap.find_erase] at entry
    split at entry
    · cases entry
    · rename_i apart
      refine ⟨entry, ?_⟩
      rintro rfl
      exact apart (separate.cellOnce key wstr r entry found)
  have elsewhere {key : WString} (entry : b.imminentList.find key = some pData) : False := by
    have status := separate.imminent key pData entry
    rw [sale] at status
    cases status
  refine ⟨?cell, ?imminent, ?cellOnce, ?imminentOnce, ?pooled⟩
  case cell =>
    intro key r entry
    obtain ⟨entry, other⟩ := left entry
    rw [auctions_moveToImminent, if_neg other]
    exact separate.cell key r entry
  case imminent =>
    intro key r entry
    rw [auctions_moveToImminent]
    split
    · rfl
    · rename_i other
      rcases UnorderedMap.find_emplace_some entry with entry | ⟨_, same⟩
      · exact separate.imminent key r entry
      · exact absurd same other
  case cellOnce =>
    intro key key' r entry entry'
    exact separate.cellOnce key key' r (left entry).1 (left entry').1
  case imminentOnce =>
    intro key key' r entry entry'
    rcases UnorderedMap.find_emplace_some entry with stood | ⟨rfl, rfl⟩
    · rcases UnorderedMap.find_emplace_some entry' with stood' | ⟨_, rfl⟩
      · exact separate.imminentOnce key key' r stood stood'
      · exact (elsewhere stood).elim
    · rcases UnorderedMap.find_emplace_some entry' with stood' | ⟨rfl, _⟩
      · exact (elsewhere stood').elim
      · rfl
  case pooled =>
    rintro key r (entry | entry)
    · exact separate.pooled key r (.inl (left entry).1)
    · rcases UnorderedMap.find_emplace_some entry with entry | ⟨_, rfl⟩
      · exact separate.pooled key r (.inr entry)
      · exact separate.pooled wstr r (.inl found)

theorem finish_separate (separate : Separate b) (found : b.imminentList.find wstr = some pData) :
    Separate (b.finish wstr pData) := by
  have imminent := separate.imminent wstr pData found
  have left {key : WString} {r : AuctionRef}
      (entry : (b.finish wstr pData).imminentList.find key = some r) :
      b.imminentList.find key = some r ∧ r ≠ pData := by
    rw [imminentList_finish, UnorderedMap.find_erase] at entry
    split at entry
    · cases entry
    · rename_i apart
      refine ⟨entry, ?_⟩
      rintro rfl
      exact apart (separate.imminentOnce key wstr r entry found)
  have cells {key : WString} {r : AuctionRef}
      (entry : (b.finish wstr pData).cellList.find key = some r) : b.cellList.find key = some r := by
    rwa [cellList_finish] at entry
  refine ⟨?cell, ?imminent, ?cellOnce, ?imminentOnce, ?pooled⟩
  case cell =>
    intro key r entry
    have status := separate.cell key r (cells entry)
    have other : r ≠ pData := by
      rintro rfl
      rw [imminent] at status
      cases status
    rwa [auctions_finish, if_neg other]
  case imminent =>
    intro key r entry
    obtain ⟨entry, other⟩ := left entry
    rw [auctions_finish, if_neg other]
    exact separate.imminent key r entry
  case cellOnce =>
    intro key key' r entry entry'
    exact separate.cellOnce key key' r (cells entry) (cells entry')
  case imminentOnce =>
    intro key key' r entry entry'
    exact separate.imminentOnce key key' r (left entry).1 (left entry').1
  case pooled =>
    rw [nextAuction_finish]
    rintro key r (entry | entry)
    · exact separate.pooled key r (.inl (cells entry))
    · exact separate.pooled key r (.inr (left entry).1)

/-- Every event keeps the records apart. -/
theorem step_separate (separate : Separate b) (step : Step b event b') : Separate b' := by
  cases step with
  | registered sale _ _ => exact register_separate separate sale
  | bid _ _ _ => exact bid_separate separate _ _ _
  | imminent found => exact imminent_separate separate _ found
  | ended found => exact finish_separate separate found

end Book

/-! ## One step -/

/-- What the database is told of a sold nickname. -/
def about (data : AuctionData) : WString × Int64 × Int32 :=
  (data.nickName.chars, data.bidderID, data.count)

def toldBy (job : DBCheckJob) : WString × Int64 × Int32 := (job.myNickName, job.accountNo, job.count)

/-- How a record moves in one step: first to imminent, then to its end, and not
at all once it has ended. -/
structure Moves (data midway data' : AuctionData) : Prop where
  first : midway.status = data.status ∨ data.status = .sale ∧ midway.status = .imminent
  second : data'.status = midway.status ∨
    midway.status = .imminent ∧ data'.bidderID = midway.bidderID ∧
      (data'.bidderID ≠ 0 ∧ data'.status = .fin ∨ data'.bidderID = 0 ∧ data'.status = .finFail)
  final : data.status.ended → data' = data

/-- A step settles auctions: every record moves as it may, a new one is on sale,
and each that ended in this step is told to the database once. `m` is the book
half-way, `sold` are the `NICKNAME_SOLD` jobs of the step. -/
structure Settles (b m b' : AuctionBook) (sold : List DBCheckJob) : Prop where
  grows : b.nextAuction ≤ b'.nextAuction
  moves : ∀ r < b.nextAuction, Moves (b.auctions r) (m.auctions r) (b'.auctions r)
  born : ∀ r, b.nextAuction ≤ r → r < b'.nextAuction → (b'.auctions r).status = .sale
  told : ∃ ended : List AuctionRef, ended.Nodup ∧
    (∀ r, r ∈ ended ↔
      r < b.nextAuction ∧ ¬(b.auctions r).status.ended ∧ (b'.auctions r).status.ended) ∧
    sold.map toldBy = ended.map fun r => about (b'.auctions r)

section Jobs
variable {b b' : AuctionBook}

/-- A step that leaves every status alone tells the database nothing. -/
private theorem settles_quiet (grows : b.nextAuction ≤ b'.nextAuction)
    (same : ∀ r < b.nextAuction, (b'.auctions r).status = (b.auctions r).status)
    (final : ∀ r < b.nextAuction, (b.auctions r).status.ended → b'.auctions r = b.auctions r)
    (born : ∀ r, b.nextAuction ≤ r → r < b'.nextAuction → (b'.auctions r).status = .sale) :
    Settles b b b' [] := by
  refine ⟨grows, fun r there => ⟨.inl rfl, .inl (same r there), final r there⟩, born, [],
    List.nodup_nil, fun r => ⟨fun member => absurd member List.not_mem_nil, ?_⟩, rfl⟩
  rintro ⟨there, running, ended⟩
  rw [same r there] at ended
  exact absurd ended running

theorem register_settles {data : AuctionData} (sale : data.status = .sale) :
    Settles b b (b.register data) [] := by
  have kept {r : AuctionRef} (there : r < b.nextAuction) :
      (b.register data).auctions r = b.auctions r := by
    rw [auctions_register, if_neg (Nat.ne_of_lt there)]
  refine settles_quiet (Nat.le_succ _) (fun r there => by rw [kept there])
    (fun r there _ => kept there) fun r new old => ?_
  rw [auctions_register, if_pos (Nat.le_antisymm (Nat.lt_succ_iff.mp old) new), sale]

theorem running_of_found (separate : Separate b) {wstr : WString} {r : AuctionRef}
    (found : b.find wstr = some r) : ¬(b.auctions r).status.ended := by
  unfold AuctionBook.find at found
  split at found
  · rename_i imminent
    exact AuctionStatus.running_of_imminent (separate.imminent wstr r (found ▸ imminent))
  · exact AuctionStatus.running_of_sale (separate.cell wstr r found)

theorem pooled_of_found (separate : Separate b) {wstr : WString} {r : AuctionRef}
    (found : b.find wstr = some r) : r < b.nextAuction := by
  unfold AuctionBook.find at found
  split at found
  · rename_i imminent
    exact separate.pooled wstr r (.inr (found ▸ imminent))
  · exact separate.pooled wstr r (.inl found)

/-- Bids reach running auctions only. -/
theorem bid_settles (separate : Separate b) {wstr : WString} {pData : AuctionRef} (bidder : Int64)
    (price : Int32) (found : b.find wstr = some pData) : Settles b b (b.bid pData bidder price) [] := by
  refine settles_quiet (Nat.le_refl _)
    (fun r _ => bid_field b pData r bidder price AuctionData.status fun _ _ _ _ => rfl)
    (fun r _ ended => ?_) fun r new old => absurd old (Nat.not_lt.mpr new)
  rw [auctions_bid, if_neg]
  rintro rfl
  exact running_of_found separate found ended

theorem job_settles {s s' : Store} {job : Job} {env : JobEnv} {effects : List Effect}
    (separate : Separate s.toAuctionBook) (ran : s.runJob env job = .ok (s', effects)) :
    Settles s.toAuctionBook s.toAuctionBook s'.toAuctionBook (Store.soldJobs effects) := by
  obtain ⟨sold, book⟩ := Store.job_event ran
  rw [sold]
  cases made : s.jobEvent env job with
  | none =>
    rw [made] at book
    rw [book]
    exact settles_quiet (Nat.le_refl _) (fun _ _ => rfl) (fun _ _ _ => rfl)
      fun r new old => absurd old (Nat.not_lt.mpr new)
  | some event =>
    rw [made] at book
    generalize s'.toAuctionBook = b' at book ⊢
    rcases Store.job_event_cases made with ⟨data, rfl, _⟩ | ⟨bid, rfl, _⟩
    · cases book with
      | registered sale _ _ => exact register_settles sale
    · cases book with
      | bid found _ _ => exact bid_settles separate _ _ found

end Jobs

/-! ## The two halves of `Update` -/

/-- Half-way, against the book before: some records on sale are imminent. -/
structure Half (b m : AuctionBook) : Prop where
  separate : Separate m
  next : m.nextAuction = b.nextAuction
  record : ∀ r, m.auctions r = b.auctions r ∨
    (b.auctions r).status = .sale ∧ ∃ endTime, m.auctions r =
      { b.auctions r with status := .imminent, endTime := endTime }

/-- In the second half: the records ended so far, each with its job. -/
structure Ended (m b' : AuctionBook) (sold : List DBCheckJob) (ended : List AuctionRef) : Prop where
  separate : Separate b'
  next : b'.nextAuction = m.nextAuction
  nodup : ended.Nodup
  others : ∀ r, r ∉ ended → b'.auctions r = m.auctions r
  ends : ∀ r ∈ ended, r < m.nextAuction ∧ (m.auctions r).status = .imminent ∧
    b'.auctions r = { m.auctions r with status := finishStatus (m.auctions r) }
  jobs : sold.map toldBy = ended.map fun r => about (b'.auctions r)

section Update
variable {b m b' : AuctionBook} {wstr : WString} {pData : AuctionRef}

private theorem half_moved (half : Half b m) (draw : Draw)
    (found : m.cellList.find wstr = some pData) : Half b (m.moveToImminent wstr pData draw) := by
  refine ⟨imminent_separate half.separate draw found, half.next, fun r => ?_⟩
  have sale := half.separate.cell wstr pData found
  rw [auctions_moveToImminent]
  split
  · rename_i same
    subst same
    rcases half.record r with same | ⟨_, endTime, moved⟩
    · rw [same] at sale ⊢
      exact .inr ⟨sale, _, rfl⟩
    · rw [moved] at sale
      cases sale
  · exact half.record r

private theorem ended_finished {sold : List DBCheckJob} {ended : List AuctionRef}
    (so : Ended m b' sold ended) (block : DBCheckJob) (found : b'.imminentList.find wstr = some pData) :
    Ended m (b'.finish wstr pData)
      (sold ++ [Store.soldJob block ((b'.finish wstr pData).auctions pData)]) (ended ++ [pData]) := by
  have imminent := so.separate.imminent wstr pData found
  have running : pData ∉ ended := by
    intro member
    obtain ⟨_, _, isOver⟩ := so.ends pData member
    have status : (b'.auctions pData).status = finishStatus (m.auctions pData) := by rw [isOver]
    have isOver := finish_status_ended (m.auctions pData)
    rw [← status] at isOver
    exact AuctionStatus.running_of_imminent imminent isOver
  have same := so.others pData running
  have kept {r : AuctionRef} (member : r ∈ ended) :
      (b'.finish wstr pData).auctions r = b'.auctions r := by
    rw [auctions_finish, if_neg]
    rintro rfl
    exact running member
  refine ⟨finish_separate so.separate found, ?next, ?nodup, ?others, ?ends, ?jobs⟩
  case next => rw [nextAuction_finish, so.next]
  case nodup => exact so.nodup.append (List.nodup_singleton _) (by simpa using running)
  case others =>
    intro r absent
    rw [List.mem_append, List.mem_singleton, not_or] at absent
    rw [auctions_finish, if_neg absent.2, so.others r absent.1]
  case ends =>
    intro r member
    rcases List.mem_append.mp member with before | now
    · rw [kept before]
      exact so.ends r before
    · obtain rfl := List.mem_singleton.mp now
      rw [auctions_finish, if_pos rfl, same]
      rw [same] at imminent
      exact ⟨so.next ▸ so.separate.pooled wstr r (.inr found), imminent, rfl⟩
  case jobs =>
    rw [List.map_append, List.map_append, so.jobs, List.map_congr_left fun r member => by
      rw [← kept member]]
    rfl

/-- What the two halves of `Update` together do to the records. -/
private theorem halves_settle (half : Half b m) {sold : List DBCheckJob} {ended : List AuctionRef}
    (so : Ended m b' sold ended) : Settles b m b' sold := by
  have running {r : AuctionRef} (imminent : (m.auctions r).status = .imminent) :
      ¬(b.auctions r).status.ended := by
    rcases half.record r with same | ⟨sale, _⟩
    · rw [← same]
      exact AuctionStatus.running_of_imminent imminent
    · exact AuctionStatus.running_of_sale sale
  refine ⟨by rw [so.next, half.next], fun r there => ⟨?first, ?second, ?final⟩, ?born, ended,
    so.nodup, fun r => ⟨fun member => ?_, ?_⟩, so.jobs⟩
  case first =>
    rcases half.record r with same | ⟨sale, _, moved⟩
    · rw [same]
      exact .inl rfl
    · rw [moved]
      exact .inr ⟨sale, rfl⟩
  case second =>
    by_cases member : r ∈ ended
    · obtain ⟨_, imminent, isOver⟩ := so.ends r member
      rw [isOver]
      refine .inr ⟨imminent, rfl, ?_⟩
      unfold finishStatus
      by_cases unbid : (m.auctions r).bidderID = 0
      · rw [if_pos unbid]
        exact .inr ⟨unbid, rfl⟩
      · rw [if_neg unbid]
        exact .inl ⟨unbid, rfl⟩
    · rw [so.others r member]
      exact .inl rfl
  case final =>
    intro isOver
    have same : m.auctions r = b.auctions r := by
      rcases half.record r with same | ⟨sale, _⟩
      · exact same
      · exact absurd isOver (AuctionStatus.running_of_sale sale)
    rw [so.others r fun member => running (so.ends r member).2.1 isOver, same]
  case born =>
    intro r new old
    rw [so.next, half.next] at old
    exact absurd old (Nat.not_lt.mpr new)
  · obtain ⟨there, imminent, isOver⟩ := so.ends r member
    refine ⟨half.next ▸ there, running imminent, ?_⟩
    rw [isOver]
    exact finish_status_ended _
  · rintro ⟨_, before, isOver⟩
    by_contra absent
    rw [so.others r absent] at isOver
    rcases half.record r with same | ⟨_, _, moved⟩
    · rw [same] at isOver
      exact before isOver
    · rw [moved] at isOver
      exact AuctionStatus.running_of_imminent rfl isOver

theorem update_settles {s s' : Store} {env : UpdateEnv} {effects : List Effect}
    (separate : Separate s.toAuctionBook) (ran : s.update env = .ok (s', effects)) :
    Settles s.toAuctionBook (s.midway (.update env)).toAuctionBook s'.toAuctionBook
      (Store.soldJobs effects) := by
  obtain ⟨midway, minute, rfl, rfl⟩ := Store.update_cases ran
  have there : s.midway (.update env) = midway := Store.midway_of_minute minute
  obtain ⟨half, _⟩ := Store.update_minute_cases (P := Half s.toAuctionBook) minute
    (fun _ _ _ _ holds found _ => half_moved holds _ found)
    ⟨separate, rfl, fun _ => .inl rfl⟩
  obtain ⟨book, final, ended, so⟩ := Store.update_five_seconds_cases (s := midway) env
    (P := fun b' sold => ∃ ended, Ended midway.toAuctionBook b' sold ended)
    (fun _ _ _ _ _ ⟨ended, so⟩ found _ => ⟨ended ++ [_], ended_finished so _ found⟩)
    ⟨[], half.separate, rfl, List.nodup_nil, fun _ _ => rfl,
      fun _ member => absurd member List.not_mem_nil, rfl⟩
  rw [there, final]
  exact halves_settle half so

end Update

/-! ## Whole runs -/

/-- The steps so far have told the database of every record that has ended since
the start, once, with the values the record still has. -/
def ToldOnce (s : Store) (taken : List (LogicStep × List Effect)) (t : Store) : Prop :=
  ∃ settled : List AuctionRef, settled.Nodup ∧
    (∀ r, r ∈ settled ↔ r < t.nextAuction ∧ (t.auctions r).status.ended ∧
      ¬(r < s.nextAuction ∧ (s.auctions r).status.ended)) ∧
    (Store.soldJobs (taken.flatMap Prod.snd)).map toldBy =
      settled.map fun r => about (t.auctions r)

/-- Settlement as the runs of the logic thread keep it. -/
structure SettledRun (s : Store) (taken : List (LogicStep × List Effect)) (t : Store) : Prop where
  next : ∀ step effects t', t.Takes (step, effects) t' →
    Settles t.toAuctionBook (t.midway step).toAuctionBook t'.toAuctionBook (Store.soldJobs effects)
  once : ToldOnce s taken t

section Runs
variable {s t t' : Store}

theorem takes_settles {step : LogicStep} {effects : List Effect} (separate : Separate t.toAuctionBook)
    (ran : t.Takes (step, effects) t') :
    Settles t.toAuctionBook (t.midway step).toAuctionBook t'.toAuctionBook (Store.soldJobs effects) ∧
      Separate t'.toAuctionBook := by
  refine ⟨?_, Store.steps_book (fun _ _ _ => step_separate) ⟨effects, ran⟩ separate⟩
  cases step with
  | job job env => exact job_settles separate ran
  | update env => exact update_settles separate ran

/-- The history of a run: what has been told, and what had ended before. -/
private structure Told (s : Store) (past : List (LogicStep × List Effect)) (t : Store) : Prop where
  separate : Separate t.toAuctionBook
  grows : s.nextAuction ≤ t.nextAuction
  kept : ∀ r < s.nextAuction, (s.auctions r).status.ended → t.auctions r = s.auctions r
  once : ToldOnce s past t

private theorem told_step {past : List (LogicStep × List Effect)} {taken : LogicStep × List Effect}
    (told : Told s past t) (ran : t.Takes taken t') : Told s (past ++ [taken]) t' := by
  obtain ⟨settles, separate⟩ := takes_settles told.separate ran
  obtain ⟨settled, nodup, members, jobs⟩ := told.once
  obtain ⟨ended, newNodup, newMembers, newJobs⟩ := settles.told
  have same {r : AuctionRef} (there : r < t.nextAuction) (isOver : (t.auctions r).status.ended) :
      t'.auctions r = t.auctions r := (settles.moves r there).final isOver
  have before {r : AuctionRef} (old : r < s.nextAuction) (isOver : (s.auctions r).status.ended) :
      (t.auctions r).status.ended := by rwa [told.kept r old isOver]
  refine ⟨separate, Nat.le_trans told.grows settles.grows, fun r old isOver => ?_,
    settled ++ ended, ?nodup, fun r => ⟨fun member => ?_, ?_⟩, ?jobs⟩
  · rw [same (Nat.lt_of_lt_of_le old told.grows) (before old isOver), told.kept r old isOver]
  case nodup =>
    refine nodup.append newNodup fun r member newly => ?_
    exact ((newMembers r).mp newly).2.1 ((members r).mp member).2.1
  · rcases List.mem_append.mp member with member | newly
    · obtain ⟨there, isOver, new⟩ := (members r).mp member
      exact ⟨Nat.lt_of_lt_of_le there settles.grows, by rwa [same there isOver], new⟩
    · obtain ⟨there, running, isOver⟩ := (newMembers r).mp newly
      exact ⟨Nat.lt_of_lt_of_le there settles.grows, isOver, fun old => running (before old.1 old.2)⟩
  · rintro ⟨there, isOver, new⟩
    rw [List.mem_append]
    by_cases old : r < t.nextAuction
    · by_cases already : (t.auctions r).status.ended
      · exact .inl ((members r).mpr ⟨old, already, new⟩)
      · exact .inr ((newMembers r).mpr ⟨old, already, isOver⟩)
    · have born := settles.born r (Nat.not_lt.mp old) there
      exact absurd isOver (AuctionStatus.running_of_sale born)
  case jobs =>
    rw [List.flatMap_append, Store.sold_jobs_append, List.map_append, List.map_append, jobs,
      List.flatMap_singleton, newJobs]
    congr 1
    refine List.map_congr_left fun r member => ?_
    obtain ⟨there, isOver, _⟩ := (members r).mp member
    rw [same there isOver]

/-- Settlement happens once and is final, over every run from a store whose
records are apart. -/
theorem settled_once_and_final (s : Store) (separate : Separate s.toAuctionBook)
    (taken : List (LogicStep × List Effect)) (t : Store) (run : Run Store.Takes s taken t) :
    SettledRun s taken t := by
  have start : Told s [] s := by
    refine ⟨separate, Nat.le_refl _, fun _ _ _ => rfl, [], List.nodup_nil, fun r => ?_, rfl⟩
    refine ⟨fun member => absurd member List.not_mem_nil, ?_⟩
    rintro ⟨there, isOver, new⟩
    exact absurd ⟨there, isOver⟩ new
  have told := run.history (P := fun past t => Told s past t)
    (fun past t taken t' told ran => told_step told ran) start
  exact ⟨fun step effects t' ran => (takes_settles told.separate ran).1, told.once⟩

end Runs

/-! ## An auction that is due -/

/-- Account 7 has bid on an imminent auction whose end has come. -/
def dueStore : Store :=
  { Store.empty (fun _ => { AuctionData.zero with
      status := .imminent, nickName := nameA, bidderID := 7, count := 1 }) 0 with
    nextAuction := 1
    imminentList := (∅ : UnorderedMap WString AuctionRef).emplace [65] 0 }

def dueUpdate : UpdateEnv where
  curTime := 10000
  draw := fun _ => middleDraw
  block := fun _ => (JobEnv.zero 0).block
  undefined := none

theorem due_separate : Separate dueStore.toAuctionBook := by
  have cells (wstr : WString) : dueStore.cellList.find wstr = none := rfl
  have entry {wstr : WString} {r : AuctionRef} (found : dueStore.imminentList.find wstr = some r) :
      wstr = [65] ∧ r = 0 := by
    rcases UnorderedMap.find_emplace_some found with none | same
    · cases none
    · exact same
  refine ⟨fun wstr r found => ?_, fun wstr r found => ?_, fun wstr wstr' r found _ => ?_,
    fun wstr wstr' r found found' => ?_, fun wstr r found => ?_⟩
  · rw [cells] at found
    cases found
  · rfl
  · rw [cells] at found
    cases found
  · rw [(entry found).1, (entry found').1]
  · rcases found with found | found
    · rw [cells] at found
      cases found
    · rw [(entry found).2]
      decide

/-- It ends as sold, and the database is told. -/
theorem due_settled : ∃ taken t, Run Store.Takes dueStore taken t ∧ SettledRun dueStore taken t ∧
    (Store.soldJobs (taken.flatMap Prod.snd)).map toldBy = [([65], 7, 1)] := by
  have run : ∃ t, Run Store.Takes dueStore
      [(.update dueUpdate, [.enqueueDB ⟨.nicknameSold, 7, 0, 0, 1, [65], []⟩])] t :=
    ⟨_, .single rfl⟩
  obtain ⟨t, run⟩ := run
  exact ⟨_, t, run, settled_once_and_final dueStore due_separate _ t run, rfl⟩

end NewNameAuction.Settlement
