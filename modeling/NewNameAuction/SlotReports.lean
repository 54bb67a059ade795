import NewNameAuction.ClosingTime

/-! What a connecting player is told about his slots. The record of a slot is searched in
`CellList`, and then in `ImminentList` and `FinList_UMap` if it was found there: a name
that has left `CellList` is reported as failed, and one that is in two maps by the later
of them. -/
namespace NewNameAuction.SlotReports
open Store ByteMemory ClosingTime

/-- The three maps have their auctions under the nicknames of these. -/
structure Keyed (s : Store) : Prop where
  cell : ∀ wstr r, s.cellList.find wstr = some r → (s.auctions r).nickName.chars = wstr
  imminent : ∀ wstr r, s.imminentList.find wstr = some r → (s.auctions r).nickName.chars = wstr
  fin : ∀ wstr r, s.finListUMap.find wstr = some r → (s.auctions r).nickName.chars = wstr

/-- No map has an auction under the nickname. -/
structure Nowhere (s : Store) (wstr : WString) : Prop where
  cell : s.cellList.find wstr = none
  imminent : s.imminentList.find wstr = none
  fin : s.finListUMap.find wstr = none

/-- The auction of a nickname: in `CellList`, or else in `ImminentList`, or else in
`FinList_UMap`. -/
def storedAuction (s : Store) (wstr : WString) : Option AuctionRef :=
  ((s.cellList.find wstr).or (s.imminentList.find wstr)).or (s.finListUMap.find wstr)

/-- A packet is the truth about a nickname: of its auction, if there is one; and a failure
only if there is none. -/
def Truthful (s : Store) (pPlayer : Player) (wstr : WString) : Reply → Prop
  | .resSearch nickName itsMine bidder status price _ =>
    (match storedAuction s wstr with
      | some r => nickName = (s.auctions r).nickName.chars ∧ status = (s.auctions r).status ∧
          price = (s.auctions r).price ∧
          (itsMine = .mine ↔ (s.auctions r).ownerID = pPlayer.accountNo) ∧
          (bidder = .me ↔ (s.auctions r).bidderID = pPlayer.accountNo)
      | none => status = .finFail ∧ price = 0) ∧
      (status = .finFail → price = 0 → Nowhere s wstr)
  | _ => False

/-- `SendInitPackets` sends one packet about each counted name, and each is the truth. -/
def SlotsTold (s : Store) (pPlayer : Player) (slots : NickNameList) : Prop :=
  ∃ replies, s.sendInitPackets pPlayer = .ok ((replies ++ s.recentReplies pPlayer s.cellListTimeOrder48 ++
      s.recentReplies pPlayer s.finList).map (.send pPlayer.sessionID)) ∧
    loopBound slots.count ≤ slots.nickNames.length ∧
    List.Forall₂ (Truthful s pPlayer) (slots.nickNames.take (loopBound slots.count)) replies

/-- Two records of which a player is told the same. -/
structure ToldAlike (pPlayer : Player) (data data' : AuctionData) : Prop where
  status : data.status = data'.status
  price : data.price = data'.price
  owner : data.ownerID = pPlayer.accountNo ↔ data'.ownerID = pPlayer.accountNo
  bidder : data.bidderID = pPlayer.accountNo ↔ data'.bidderID = pPlayer.accountNo

/-- The name is in no map and fits into a nickname field; or it is in `CellList`, not as a
failure at price 0, and another auction of this name, in `FinList_UMap` or else in
`ImminentList`, is told alike. -/
def Shown (s : Store) (pPlayer : Player) (wstr : WString) : Prop :=
  (Nowhere s wstr ∧ (cString wstr).length < nicknameMaxLength) ∨
    ∃ r, s.cellList.find wstr = some r ∧
      ¬((s.auctions r).status = .finFail ∧ (s.auctions r).price = 0) ∧
      ∀ later, (s.finListUMap.find wstr).or (s.imminentList.find wstr) = some later →
        ToldAlike pPlayer (s.auctions later) (s.auctions r)

theorem ToldAlike.refl (pPlayer : Player) (data : AuctionData) : ToldAlike pPlayer data data :=
  ⟨rfl, rfl, Iff.rfl, Iff.rfl⟩

section Slots
variable {s : Store} {pPlayer : Player} {wstr : WString}

/-- The record that is shown instead of the one in `CellList`. -/
theorem slot_auction_listed {r : AuctionRef} (listed : s.cellList.find wstr = some r) :
    s.slotAuction wstr = some (((s.finListUMap.find wstr).or (s.imminentList.find wstr)).getD r) := by
  unfold slotAuction
  rw [listed]
  cases s.finListUMap.find wstr with
  | some finished => rfl
  | none => rfl

theorem stored_listed {r : AuctionRef} (listed : s.cellList.find wstr = some r) :
    storedAuction s wstr = some r := by
  unfold storedAuction
  rw [listed]
  rfl

/-- The packet about a record is the truth about another one of the same name. -/
theorem res_search_truthful {r shown : AuctionRef} (listed : s.cellList.find wstr = some r)
    (named : (s.auctions shown).nickName.chars = (s.auctions r).nickName.chars) (endTime : UInt64) :
    Truthful s pPlayer wstr (resSearch pPlayer (s.auctions shown) endTime) ↔
      ToldAlike pPlayer (s.auctions shown) (s.auctions r) ∧
        ¬((s.auctions r).status = .finFail ∧ (s.auctions r).price = 0) := by
  have somewhere : ¬Nowhere s wstr := fun nowhere => by cases listed.symm.trans nowhere.cell
  have mine (owner : Int64) : (if owner = pPlayer.accountNo then ItsMine.mine else .others) = .mine ↔
      owner = pPlayer.accountNo := Ne.ite_eq_left_iff (by decide)
  have me (bidder : Int64) : (if bidder = pPlayer.accountNo then Bidder.me else .other) = .me ↔
      bidder = pPlayer.accountNo := Ne.ite_eq_left_iff (by decide)
  unfold Truthful resSearch
  dsimp only
  rw [stored_listed listed]
  dsimp only
  rw [mine, me]
  constructor
  · rintro ⟨⟨_, status, price, owner, bidder⟩, failed⟩
    refine ⟨⟨status, price, owner, bidder⟩, fun failure => ?_⟩
    exact somewhere (failed (status.trans failure.1) (price.trans failure.2))
  · rintro ⟨⟨status, price, owner, bidder⟩, success⟩
    refine ⟨⟨named, status, price, owner, bidder⟩, fun failure free => ?_⟩
    exact absurd ⟨status ▸ failure, price ▸ free⟩ success

/-- A name that is not in `CellList` is told as a failure. -/
theorem slot_reply_unlisted (unlisted : s.cellList.find wstr = none) {reply : Reply}
    (told : s.slotReply pPlayer wstr = .ok reply) :
    ∃ nickName, reply = .resSearch nickName .mine .me .finFail 0 0 := by
  have nothing : s.slotAuction wstr = none := by
    unfold slotAuction
    rw [unlisted]
  unfold slotReply at told
  rw [nothing] at told
  obtain ⟨nickName, _, told⟩ := bind_ok.mp told
  exact ⟨_, (Except.ok.inj told).symm⟩

theorem failure_truthful (nowhere : Nowhere s wstr) (nickName : WString) :
    Truthful s pPlayer wstr (.resSearch nickName .mine .me .finFail 0 0) := by
  have stored : storedAuction s wstr = none := by
    unfold storedAuction
    rw [nowhere.cell, nowhere.imminent, nowhere.fin]
    rfl
  unfold Truthful
  dsimp only
  rw [stored]
  exact ⟨⟨rfl, rfl⟩, fun _ _ => nowhere⟩

/-- What is told of a name of `CellList`: its last record, found in this one or a later map. -/
theorem slot_reply_listed (keyed : Keyed s) {r : AuctionRef} (listed : s.cellList.find wstr = some r) :
    ∃ last endTime, s.slotReply pPlayer wstr = .ok (resSearch pPlayer (s.auctions last) endTime) ∧
      (s.auctions last).nickName.chars = (s.auctions r).nickName.chars ∧
      ((s.finListUMap.find wstr).or (s.imminentList.find wstr) = none ∧ last = r ∨
        (s.finListUMap.find wstr).or (s.imminentList.find wstr) = some last) := by
  have auction := slot_auction_listed listed
  have sent (last : AuctionRef) (found : s.slotAuction wstr = some last) : ∃ endTime,
      s.slotReply pPlayer wstr = .ok (resSearch pPlayer (s.auctions last) endTime) := by
    unfold slotReply
    rw [found]
    exact ⟨_, rfl⟩
  cases later : (s.finListUMap.find wstr).or (s.imminentList.find wstr) with
  | none =>
    rw [later] at auction
    obtain ⟨endTime, told⟩ := sent r auction
    exact ⟨r, endTime, told, rfl, .inl ⟨rfl, rfl⟩⟩
  | some last =>
    rw [later] at auction
    obtain ⟨endTime, told⟩ := sent last auction
    refine ⟨last, endTime, told, ?_, .inr rfl⟩
    rw [keyed.cell wstr r listed]
    rcases Option.or_eq_some_iff.mp later with finished | ⟨_, imminent⟩
    · exact keyed.fin wstr last finished
    · exact keyed.imminent wstr last imminent

/-- A slot is told exactly if it is shown. -/
theorem slot_reply_truthful_iff (keyed : Keyed s) :
    (∃ reply, s.slotReply pPlayer wstr = .ok reply ∧ Truthful s pPlayer wstr reply) ↔
      Shown s pPlayer wstr := by
  cases listed : s.cellList.find wstr with
  | none =>
    have sent := @slot_reply_sent_iff s pPlayer wstr
    rw [or_iff_right (UnorderedMap.find_eq_none.mp listed)] at sent
    unfold Shown
    rw [or_iff_left (by rintro ⟨r, found, _⟩; cases listed.symm.trans found)]
    constructor
    · rintro ⟨reply, told, truth⟩
      refine ⟨?_, sent.mp ⟨reply, told⟩⟩
      obtain ⟨nickName, rfl⟩ := slot_reply_unlisted listed told
      exact truth.2 rfl rfl
    · rintro ⟨nowhere, fits⟩
      obtain ⟨reply, told⟩ := sent.mpr fits
      obtain ⟨nickName, rfl⟩ := slot_reply_unlisted listed told
      exact ⟨_, told, failure_truthful nowhere nickName⟩
  | some r =>
    obtain ⟨last, endTime, told, named, shown⟩ := @slot_reply_listed s pPlayer wstr keyed r listed
    have truth := @res_search_truthful s pPlayer wstr r last listed named endTime
    unfold Shown
    rw [or_iff_right fun unlisted => by cases listed.symm.trans unlisted.1.cell]
    constructor
    · rintro ⟨reply, told', truthful⟩
      cases told.symm.trans told'
      obtain ⟨alike, success⟩ := truth.mp truthful
      refine ⟨r, listed, success, fun later found => ?_⟩
      rcases shown with ⟨none, _⟩ | there
      · cases none.symm.trans found
      · obtain rfl := Option.some.inj (there.symm.trans found)
        exact alike
    · rintro ⟨r', same, success, alike⟩
      obtain rfl := Option.some.inj (listed.symm.trans same)
      refine ⟨_, told, truth.mpr ⟨?_, success⟩⟩
      rcases shown with ⟨_, rfl⟩ | later
      · exact .refl ..
      · exact alike last later

/-- The packets about some slots are as they shall be exactly if each of them can be. -/
theorem slot_replies_forall₂ {told : WString → Reply → Prop} (count : Nat) (names : List WString) :
    (∃ replies, s.slotReplies pPlayer count names = .ok replies ∧ count ≤ names.length ∧
      List.Forall₂ told (names.take count) replies) ↔
    count ≤ names.length ∧ ∀ wstr ∈ names.take count, ∃ reply, s.slotReply pPlayer wstr = .ok reply ∧
      told wstr reply := by
  induction count generalizing names with
  | zero =>
    rw [List.take_zero]
    exact ⟨fun _ => ⟨Nat.zero_le _, fun wstr member => absurd member List.not_mem_nil⟩,
      fun _ => ⟨[], rfl, Nat.zero_le _, .nil⟩⟩
  | succ count ih =>
    cases names with
    | nil =>
      exact ⟨fun ⟨_, _, within, _⟩ => absurd within (Nat.not_succ_le_zero count),
        fun ⟨within, _⟩ => absurd within (Nat.not_succ_le_zero count)⟩
    | cons wstr names =>
      rw [List.take_succ_cons, List.forall_mem_cons]
      constructor
      · rintro ⟨replies, sent, within, truth⟩
        obtain ⟨reply, first, sent⟩ := bind_ok.mp sent
        obtain ⟨others, rest, sent⟩ := bind_ok.mp sent
        obtain rfl := Except.ok.inj sent
        cases truth with
        | cons here later =>
          obtain ⟨_, shown⟩ := (ih names).mp ⟨others, rest, Nat.le_of_succ_le_succ within, later⟩
          exact ⟨within, ⟨reply, first, here⟩, shown⟩
      · rintro ⟨within, ⟨reply, first, here⟩, shown⟩
        obtain ⟨others, rest, _, later⟩ := (ih names).mpr ⟨Nat.le_of_succ_le_succ within, shown⟩
        refine ⟨reply :: others, ?_, within, .cons here later⟩
        rw [slotReplies, first, rest]
        rfl

/-- A player with a slot list is told the truth about his slots exactly if the names
counted are there and each of them is shown. -/
theorem slots_told_iff (s : Store) (pPlayer : Player) (slots : NickNameList) (keyed : Keyed s)
    (known : s.ownList.find pPlayer.accountNo = some slots) :
    SlotsTold s pPlayer slots ↔ loopBound slots.count ≤ slots.nickNames.length ∧
      ∀ wstr ∈ slots.nickNames.take (loopBound slots.count), Shown s pPlayer wstr := by
  have each := @slot_replies_forall₂ s pPlayer (Truthful s pPlayer) (loopBound slots.count)
    slots.nickNames
  simp only [slot_reply_truthful_iff keyed] at each
  rw [← each]
  have own : s.ownReplies pPlayer =
      s.slotReplies pPlayer (loopBound slots.count) slots.nickNames := by
    rw [ownReplies, known]
  unfold SlotsTold sendInitPackets
  rw [own]
  constructor
  · rintro ⟨replies, sent, within, truth⟩
    obtain ⟨told, sends, sent⟩ := bind_ok.mp sent
    have apart : Function.Injective (Effect.send pPlayer.sessionID) :=
      fun _ _ same => (Effect.send.inj same).2
    have same := List.map_injective_iff.mpr apart (Except.ok.inj sent)
    obtain rfl := List.append_cancel_right (List.append_cancel_right same)
    exact ⟨told, sends, within, truth⟩
  · rintro ⟨replies, sends, within, truth⟩
    exact ⟨replies, by rw [sends]; rfl, within, truth⟩

end Slots

/-! ## One slot -/

/-- Account 7 with a slot for the name "A", and the maps that have an auction of it: its
own, at 50, which it won itself. -/
def oneSlot (status : AuctionStatus) (cell imminent fin : List WString) : Store :=
  let stored (names : List WString) : UnorderedMap WString AuctionRef :=
    names.foldl (fun m wstr => m.emplace wstr 0) ∅
  { Store.empty (fun _ => { AuctionData.zero with
      nickName := nameA, ownerID := 9, bidderID := 7, price := 50,
      status := status }) 0 with
    nextAuction := 1
    cellList := stored cell
    imminentList := stored imminent
    finListUMap := stored fin
    ownList := (∅ : UnorderedMap Int64 NickNameList).emplace 7 ⟨1, [], [[65]]⟩ }

/-- The player of account 7. -/
def slotPlayer : Player := ⟨true, 7, 5, nameB, 100⟩

private theorem only_name {m : UnorderedMap WString AuctionRef} {wstr : WString} {r : AuctionRef}
    (only : m.keys ⊆ [[65]]) (found : m.find wstr = some r) : [65] = wstr :=
  (List.mem_singleton.mp (only (UnorderedMap.mem_of_find found))).symm

/-- A slot whose auction is on sale is told. -/
theorem sale_slot_told : SlotsTold (oneSlot .sale [[65]] [] []) slotPlayer ⟨1, [], [[65]]⟩ := by
  have keyed : Keyed (oneSlot .sale [[65]] [] []) :=
    ⟨fun wstr r found => only_name (by decide) found, fun wstr r found => (by cases found),
      fun wstr r found => (by cases found)⟩
  refine (slots_told_iff _ slotPlayer ⟨1, [], [[65]]⟩ keyed rfl).mpr ⟨by decide, fun wstr member => ?_⟩
  obtain rfl := List.mem_singleton.mp member
  exact .inr ⟨0, rfl, fun failure => (by cases failure.1), fun later found => (by cases found)⟩

/-- The winner of an auction is told that it failed. -/
theorem winner_told_failure :
    Keyed (oneSlot .fin [] [] [[65]]) ∧
      storedAuction (oneSlot .fin [] [] [[65]]) [65] = some 0 ∧
      (oneSlot .fin [] [] [[65]]).sendInitPackets slotPlayer =
        .ok [.send 5 (.resSearch [65] .mine .me .finFail 0 0)] ∧
      ¬SlotsTold (oneSlot .fin [] [] [[65]]) slotPlayer ⟨1, [], [[65]]⟩ := by
  have keyed : Keyed (oneSlot .fin [] [] [[65]]) :=
    ⟨fun wstr r found => (by cases found), fun wstr r found => (by cases found),
      fun wstr r found => only_name (by decide) found⟩
  have sent : (oneSlot .fin [] [] [[65]]).sendInitPackets slotPlayer =
      .ok [.send 5 (.resSearch [65] .mine .me .finFail 0 0)] := rfl
  refine ⟨keyed, rfl, sent, ?_⟩
  rintro ⟨replies, sent', _, truth⟩
  have apart : Function.Injective (Effect.send 5) := fun _ _ same => (Effect.send.inj same).2
  have same : [Reply.resSearch [65] .mine .me .finFail 0 0] = replies ++ [] ++ [] :=
    List.map_injective_iff.mpr apart (Except.ok.inj (sent.symm.trans sent'))
  rw [List.append_nil, List.append_nil] at same
  subst same
  cases truth with
  | cons here _ => exact absurd here.1.2.1 (by decide)

end NewNameAuction.SlotReports
