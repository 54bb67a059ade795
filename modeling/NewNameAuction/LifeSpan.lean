import Mathlib.Data.Int.ModEq
import NewNameAuction.SaleTerms
import NewNameAuction.Settlement

/-! How long an auction lasts. `Time` is a signed byte of the client that nobody checks.
It is widened to 64 bits, taken as hours and shortened by ten minutes; the 8 to 12 minutes
that `Update` adds later are drawn at random. -/
namespace NewNameAuction.LifeSpan
open AuctionBook Store Settlement SaleTerms

/-- A request is accepted, and a later `REGISTER_ABLE` at `curTime` takes its terms and
makes an auction of them. -/
inductive Sold (sale : SaleRequest) (curTime : UInt64) (pData : AuctionRef) (t' : Store) : Prop
  | intro {auctions : AuctionRef → AuctionData} {packetType : UInt16} {before between : List LogicStep}
      {s s' t : Store} {job : Job} {env answer : JobEnv} {sessionID : Int64} {data : AuctionData}
      (reached : Run Steps (.empty auctions packetType) before s)
      (accepted : saleOf s env job = some sale) (requested : s.Steps (.job job env) s')
      (later : Run Steps s' between t)
      (waiting : t.waitingDataList.find sale.accountNo = some sale.terms)
      (made : t.registration answer (.nicknameRegisterAble sessionID sale.accountNo) = some data)
      (clock : answer.curTime = curTime) (record : t.nextAuction = pData)
      (answered : t.Steps (.job (.nicknameRegisterAble sessionID sale.accountNo) answer) t')

/-- Between two end times that are four minutes apart, and after the start. -/
structure NearHours (startTime endTime : UInt64) (hours : Int) : Prop where
  least : (startTime.toNat : Int) + hours * 3600000 - 120000 ≤ endTime.toNat
  most : (endTime.toNat : Int) ≤ startTime.toNat + hours * 3600000 + 120000
  later : startTime < endTime

/-- The life span of an auction since `t'` is sensible: it ends after it starts, and near
its hours when `Update` has moved it out of `CellList`, whatever the thread did before. -/
structure Sensible (t' : Store) (pData : AuctionRef) (hours : Int) : Prop where
  positive : (t'.auctions pData).startTime < (t'.auctions pData).endTime
  moved : ∀ (steps : List LogicStep) (u u' : Store) (env : UpdateEnv) (effects : List Effect),
    Run Steps t' steps u → env.curTime.toNat < 2 ^ 62 → u.update env = .ok (u', effects) →
    pData ∈ u.cellList.values → pData ∉ u'.cellList.values →
    NearHours (u'.auctions pData).startTime (u'.auctions pData).endTime hours

/-! ## Times -/

section Times

theorem toNat_sub_modEq (x y : UInt64) :
    ((x - y).toNat : Int) ≡ x.toNat - y.toNat [ZMOD ((2 ^ 64 : Nat) : Int)] := by
  rw [UInt64.toNat_sub, Int.natCast_emod]
  refine (Int.mod_modEq _ _).trans ?_
  have small := y.toNat_lt
  have whole : ((2 ^ 64 - y.toNat + x.toNat : Nat) : Int) =
      x.toNat - y.toNat + ((2 ^ 64 : Nat) : Int) := by omega
  rw [whole]
  exact Int.add_modEq_right

theorem toNat_add_modEq (x y : UInt64) :
    ((x + y).toNat : Int) ≡ x.toNat + y.toNat [ZMOD ((2 ^ 64 : Nat) : Int)] := by
  rw [UInt64.toNat_add, Int.natCast_emod]
  exact Int.mod_modEq _ _

/-- The milliseconds from the start of the epoch to the end of an auction, before they are
reduced to 64 bits. -/
def closing (curTime : UInt64) (terms : InitData) : Int :=
  curTime.toNat + terms.time.toInt * 3600000 - 600000

variable {curTime : UInt64} {accountNo : Int64} {terms : InitData} {nickName : NickName}

theorem end_time_modEq : ((newAuction curTime accountNo terms nickName).endTime.toNat : Int) ≡
    closing curTime terms [ZMOD ((2 ^ 64 : Nat) : Int)] := by
  have hours := hours_value terms.time
  refine (toNat_sub_modEq _ _).trans (Int.ModEq.sub ?_ rfl)
  refine (toNat_add_modEq _ _).trans (Int.ModEq.add rfl ?_)
  rw [hours]
  exact Int.mod_modEq _ _

/-- Below 2^62 the sum stays as it is, or it is negative and wraps once. -/
theorem end_time_value (early : curTime.toNat < 2 ^ 62) :
    ((newAuction curTime accountNo terms nickName).endTime.toNat : Int) =
      if 0 ≤ closing curTime terms then closing curTime terms
      else closing curTime terms + ((2 ^ 64 : Nat) : Int) := by
  have same := @end_time_modEq curTime accountNo terms nickName
  have small := (newAuction curTime accountNo terms nickName).endTime.toNat_lt
  have low := Int8.le_toInt terms.time
  have high := Int8.toInt_lt terms.time
  have bounds : -(2 ^ 30 : Int) < closing curTime terms ∧ closing curTime terms < 2 ^ 63 := by
    unfold closing
    omega
  generalize (newAuction curTime accountNo terms nickName).endTime.toNat = e at same small
  generalize closing curTime terms = c at same bounds ⊢
  have reduced : (e : Int) % ((2 ^ 64 : Nat) : Int) = e :=
    Int.emod_eq_of_lt (Int.natCast_nonneg e) (by exact_mod_cast small)
  rw [Int.ModEq, reduced] at same
  rw [same]
  split
  · rename_i positive
    exact Int.emod_eq_of_lt positive (by omega)
  · rw [← Int.add_emod_right]
    exact Int.emod_eq_of_lt (by omega) (by omega)

/-- Where the sum does not wrap, the auction ends after it starts if it has a positive
number of hours. -/
theorem starts_before_iff (early : curTime.toNat < 2 ^ 62) :
    curTime < (newAuction curTime accountNo terms nickName).endTime ↔
      0 < terms.time.toInt ∨ closing curTime terms < 0 := by
  have value := @end_time_value curTime accountNo terms nickName early
  have low := Int8.le_toInt terms.time
  rw [UInt64.lt_iff_toNat_lt]
  generalize (newAuction curTime accountNo terms nickName).endTime.toNat = e at value ⊢
  unfold closing at value ⊢
  split at value <;> omega

/-- What `Update` adds. -/
theorem near_hours (early : curTime.toNat < 2 ^ 62) (hours : 0 < terms.time.toInt) (draw : Draw) :
    NearHours curTime ((newAuction curTime accountNo terms nickName).endTime + draw.1) terms.time.toInt := by
  have value := @end_time_value curTime accountNo terms nickName early
  obtain ⟨draw, least, most⟩ := draw
  have high := Int8.toInt_lt terms.time
  rw [UInt64.le_iff_toNat_le] at least most
  have eight : (480000 : UInt64).toNat = 480000 := rfl
  have twelve : (720000 : UInt64).toNat = 720000 := rfl
  rw [eight] at least
  rw [twelve] at most
  have inside : 0 ≤ closing curTime terms := by
    unfold closing
    omega
  rw [if_pos inside] at value
  have sum : ((newAuction curTime accountNo terms nickName).endTime + draw).toNat =
      (newAuction curTime accountNo terms nickName).endTime.toNat + draw.toNat := by
    rw [UInt64.toNat_add]
    refine Nat.mod_eq_of_lt ?_
    unfold closing at value
    omega
  unfold closing at value
  refine ⟨?_, ?_, UInt64.lt_iff_toNat_lt.mpr ?_⟩ <;>
  · rw [sum]
    omega

end Times

/-! ## Until the auction is moved -/

section Moves
variable {s s' : Store} {pData : AuctionRef} {startTime endTime : UInt64}

/-- An auction that has not left `CellList` ends when it was to end at first. -/
structure Unmoved (b : AuctionBook) (pData : AuctionRef) (startTime endTime : UInt64) : Prop where
  separate : Separate b
  pooled : pData < b.nextAuction
  start : (b.auctions pData).startTime = startTime
  listed : pData ∈ b.cellList.values → (b.auctions pData).endTime = endTime

/-- The auction that is moved leaves `CellList`. -/
theorem left_cells {b : AuctionBook} (separate : Separate b) {wstr : WString} {r : AuctionRef} {draw : Draw}
    (found : b.cellList.find wstr = some r)
    (member : pData ∈ (b.moveToImminent wstr r draw).cellList.values) :
    pData ≠ r ∧ pData ∈ b.cellList.values := by
  obtain ⟨key, entry⟩ := UnorderedMap.mem_values.mp member
  rw [cellList_moveToImminent, UnorderedMap.find_erase] at entry
  split at entry
  · cases entry
  · rename_i apart
    refine ⟨?_, UnorderedMap.mem_values.mpr ⟨key, entry⟩⟩
    rintro rfl
    exact apart (separate.cellOnce key wstr pData entry found)

theorem step_unmoved (b : AuctionBook) (event : Event) (b' : AuctionBook)
    (unmoved : Unmoved b pData startTime endTime) (step : Step b event b') :
    Unmoved b' pData startTime endTime := by
  obtain ⟨separate, pooled, start, listed⟩ := unmoved
  have separate' := step_separate separate step
  cases step with
  | registered sale noBidder noBid =>
    have old : pData ≠ b.nextAuction := Nat.ne_of_lt pooled
    refine ⟨separate', Nat.lt_succ_of_lt pooled, ?_, fun member => ?_⟩
    · rw [auctions_register, if_neg old]
      exact start
    · rw [auctions_register, if_neg old]
      obtain ⟨key, entry⟩ := UnorderedMap.mem_values.mp member
      rcases UnorderedMap.find_emplace_some entry with entry | ⟨_, same⟩
      · exact listed (UnorderedMap.mem_values.mpr ⟨key, entry⟩)
      · exact absurd same old
  | @bid wstr r bidder price found higher other =>
    have times : ((b.bid r bidder price).auctions pData).startTime = (b.auctions pData).startTime ∧
        ((b.bid r bidder price).auctions pData).endTime = (b.auctions pData).endTime :=
      ⟨bid_field b r pData bidder price AuctionData.startTime fun _ _ _ _ => rfl,
        bid_field b r pData bidder price AuctionData.endTime fun _ _ _ _ => rfl⟩
    exact ⟨separate', pooled, times.1.trans start, fun member => times.2.trans (listed member)⟩
  | @imminent wstr r draw found =>
    have started := move_field b r pData wstr draw AuctionData.startTime fun _ _ _ => rfl
    refine ⟨separate', pooled, started.trans start, fun member => ?_⟩
    obtain ⟨other, before⟩ := left_cells separate found member
    rw [auctions_moveToImminent, if_neg other]
    exact listed before
  | @ended wstr r found =>
    have started := finish_field b r pData wstr AuctionData.startTime fun _ _ => rfl
    refine ⟨separate', ?_, started.trans start, fun member => (endTime_finish b r pData wstr).trans (listed ?_)⟩
    · rw [nextAuction_finish]
      exact pooled
    · rw [cellList_finish] at member
      exact member

/-- While `Update` runs: the auction is still in `CellList`, or it was due and has a drawn
time added. -/
structure MovedOnce (env : UpdateEnv) (b : AuctionBook) (pData : AuctionRef)
    (startTime endTime : UInt64) : Prop extends Unmoved b pData startTime endTime where
  moved : pData ∉ b.cellList.values → endTime < env.curTime ∧
    ∃ draw : Draw, (b.auctions pData).endTime = endTime + draw.1

private theorem moved_once {env : UpdateEnv} {b : AuctionBook} {wstr : WString} {r : AuctionRef} (draw : Draw)
    (once : MovedOnce env b pData startTime endTime) (found : b.cellList.find wstr = some r)
    (due : (b.auctions r).endTime < env.curTime) :
    MovedOnce env (b.moveToImminent wstr r draw) pData startTime endTime := by
  refine ⟨step_unmoved b _ _ once.toUnmoved (.imminent found), fun absent => ?_⟩
  rw [auctions_moveToImminent]
  by_cases same : pData = r
  · subst same
    have ends := once.listed (UnorderedMap.mem_values.mpr ⟨wstr, found⟩)
    rw [if_pos rfl]
    rw [ends] at due
    exact ⟨due, draw, congrArg (· + draw.1) ends⟩
  · rw [if_neg same]
    refine once.moved fun before => absent ?_
    obtain ⟨key, entry⟩ := UnorderedMap.mem_values.mp before
    refine UnorderedMap.mem_values.mpr ⟨key, ?_⟩
    rw [cellList_moveToImminent, UnorderedMap.find_erase, if_neg (UnorderedMap.key_ne entry found same)]
    exact entry

private theorem finished_once {env : UpdateEnv} {b : AuctionBook} {wstr : WString} {r : AuctionRef}
    (once : MovedOnce env b pData startTime endTime) (found : b.imminentList.find wstr = some r) :
    MovedOnce env (b.finish wstr r) pData startTime endTime := by
  refine ⟨step_unmoved b _ _ once.toUnmoved (.ended found), ?_⟩
  rw [cellList_finish, endTime_finish]
  exact once.moved

/-- An `Update` that takes the auction out of `CellList` adds to its end time once. -/
theorem update_moved {env : UpdateEnv} {effects : List Effect}
    (unmoved : Unmoved s.toAuctionBook pData startTime endTime)
    (ran : s.update env = .ok (s', effects)) (listed : pData ∈ s.cellList.values)
    (gone : pData ∉ s'.cellList.values) :
    (s'.auctions pData).startTime = startTime ∧ endTime < env.curTime ∧
      ∃ draw : Draw, (s'.auctions pData).endTime = endTime + draw.1 := by
  obtain ⟨midway, minute, rfl, _⟩ := update_cases ran
  obtain ⟨half, _⟩ := update_minute_cases (P := fun b => MovedOnce env b pData startTime endTime) minute
    (fun _ _ _ _ once found due => moved_once _ once found due) ⟨unmoved, fun absent => absurd listed absent⟩
  obtain ⟨book, final, once⟩ := update_five_seconds_cases env (s := midway)
    (P := fun b _ => MovedOnce env b pData startTime endTime)
    (fun _ _ _ _ _ once found _ => finished_once once found) half
  rw [final] at gone ⊢
  exact ⟨once.start, once.moved gone⟩

end Moves

/-! ## The life span -/

section Spans
variable {sale : SaleRequest} {curTime : UInt64} {pData : AuctionRef} {t' : Store}

theorem register_record (b : AuctionBook) (data : AuctionData) :
    (b.register data).auctions b.nextAuction = data :=
  (auctions_register b b.nextAuction data).trans (if_pos rfl)

/-- A new auction has the times of its terms, and stands where only `Update` moves it. -/
theorem sold_unmoved (sold : Sold sale curTime pData t') :
    ∃ nickName, Unmoved t'.toAuctionBook pData curTime
        (newAuction curTime sale.accountNo sale.terms nickName).endTime ∧
      t'.auctions pData = newAuction curTime sale.accountNo sale.terms nickName := by
  obtain ⟨reached, _, requested, later, waiting, made, rfl, rfl, answered⟩ := sold
  have separate := ((reached.append (.cons requested later)).append (.single answered)).invariant
    (P := fun s => Separate s.toAuctionBook)
    (fun _ _ _ separate taken => steps_book (fun _ _ _ => step_separate) taken separate)
    (empty_separate _ _)
  obtain ⟨effects, ran⟩ := answered
  have book := job_registered made ran
  obtain ⟨_, terms, pPlayer, found, _, rfl⟩ := registration_some made
  obtain rfl := Option.some.inj (found.symm.trans waiting)
  refine ⟨pPlayer.nickName, ?_⟩
  rw [book] at separate ⊢
  exact ⟨⟨separate, Nat.lt_succ_self _, congrArg AuctionData.startTime (register_record _ _),
    fun _ => congrArg AuctionData.endTime (register_record _ _)⟩, register_record _ _⟩

/-- For every accepted sale request, and every auction made from its terms at a clock below
2^62: its life span is sensible exactly if its hours are positive, or the clock is so small
that the sum wraps to an end that no such clock reaches. -/
theorem life_span_iff (sale : SaleRequest) (curTime : UInt64) (pData : AuctionRef) (t' : Store)
    (sold : Sold sale curTime pData t') (early : curTime.toNat < 2 ^ 62) :
    Sensible t' pData sale.terms.time.toInt ↔
      0 < sale.terms.time.toInt ∨ closing curTime sale.terms < 0 := by
  obtain ⟨nickName, unmoved, record⟩ := sold_unmoved sold
  have positive := @starts_before_iff curTime sale.accountNo sale.terms nickName early
  constructor
  · intro sensible
    have before := sensible.positive
    rw [record] at before
    exact positive.mp before
  · intro condition
    refine ⟨by rw [record]; exact positive.mpr condition, ?_⟩
    intro steps u u' env effects run clock ran listed gone
    have stays := run.invariant (P := fun s => Unmoved s.toAuctionBook pData curTime _)
      (fun _ _ _ unmoved taken => steps_book step_unmoved taken unmoved) unmoved
    obtain ⟨start, due, draw, moved⟩ := update_moved stays ran listed gone
    rw [start, moved]
    refine near_hours early (condition.resolve_right fun wrapped => ?_) draw
    have value := @end_time_value curTime sale.accountNo sale.terms nickName early
    rw [if_neg (Int.not_le.mpr wrapped)] at value
    have low := Int8.le_toInt sale.terms.time
    rw [UInt64.lt_iff_toNat_lt] at due
    unfold closing at value
    omega

end Spans

/-! ## Hours of a client -/

/-- `REQ_SALE` of the nickname every new player has, for some hours from price 1. -/
def hoursRequest (time : UInt8) : ByteMemory.Bytes :=
  [1, 0] ++ [78, 0, 85, 0, 76, 0, 76, 0] ++ List.replicate 12 0 ++ [time] ++ [1, 0, 0, 0]

/-- A player has joined. -/
def joined : Store := emptyStore.clientJoin 0

/-- He has asked for these hours. -/
def asked (time : UInt8) : Store :=
  { joined with
    packetType := 1
    waitingDataList := (∅ : UnorderedMap Int64 InitData).emplace 0 ⟨time.toInt8, 1⟩ }

/-- The auction is made at the clock. -/
def made (time : UInt8) (curTime : UInt64) : Store :=
  ((asked time).nicknameRegisterAble (.zero curTime) 0 0).1

private theorem hours_sold {time : UInt8} (curTime : UInt64)
    (accepted : saleOf joined (.zero 0) (.onRecv 0 (hoursRequest time)) =
      some ⟨0, 0, ⟨time.toInt8, 1⟩⟩)
    (requested : joined.Steps (.job (.onRecv 0 (hoursRequest time)) (.zero 0)) (asked time)) :
    Sold ⟨0, 0, ⟨time.toInt8, 1⟩⟩ curTime 0 (made time curTime) := by
  have join : emptyStore.Steps (.job (.onClientJoin 0) (.zero 0)) joined := ⟨_, rfl⟩
  have registered : ∃ data,
      (asked time).registration (.zero curTime) (.nicknameRegisterAble 0 0) = some data := ⟨_, rfl⟩
  obtain ⟨data, registered⟩ := registered
  exact .intro (.single join) accepted requested (.nil _) rfl registered rfl rfl ⟨_, rfl⟩

/-- A day. -/
theorem day_sensible : Sensible (made 24 1700000000000) 0 24 :=
  (life_span_iff ⟨0, 0, ⟨24, 1⟩⟩ 1700000000000 0 _ (hours_sold _ rfl ⟨_, rfl⟩) (by decide)).mpr
    (.inl (by decide))

/-- No hours: the auction is over ten minutes before it starts. -/
theorem no_hours_over :
    Sold ⟨0, 0, ⟨0, 1⟩⟩ 1700000000000 0 (made 0 1700000000000) ∧
      ((made 0 1700000000000).auctions 0).startTime = 1700000000000 ∧
      ((made 0 1700000000000).auctions 0).endTime = 1699999400000 ∧
      ¬Sensible (made 0 1700000000000) 0 0 := by
  have start : ((made 0 1700000000000).auctions 0).startTime = 1700000000000 := rfl
  have finish : ((made 0 1700000000000).auctions 0).endTime = 1699999400000 := by decide
  refine ⟨hours_sold _ rfl ⟨_, rfl⟩, start, finish, fun sensible => ?_⟩
  have positive := sensible.positive
  rw [start, finish] at positive
  exact absurd positive (by decide)

end NewNameAuction.LifeSpan
