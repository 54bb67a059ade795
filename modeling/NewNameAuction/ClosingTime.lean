import NewNameAuction.IndexConsistency
import NewNameAuction.PacketBytes
import NewNameAuction.Settlement

/-! What players are told about when an auction closes. The end of an imminent
auction is random and shall stay secret: `RES_SEARCH` about it shall have end time
0. The slots of an account are sent so, the auctions found by a search and the two
lists of recent auctions are not. -/
namespace NewNameAuction.ClosingTime
open AuctionBook Store ByteMemory IndexConsistency

/-- The store with other end times for its imminent auctions. -/
def withEnds (s : Store) (ends : AuctionRef → UInt64) : Store :=
  { s with
    auctions := fun pData =>
      if (s.auctions pData).status = .imminent then { s.auctions pData with endTime := ends pData }
      else s.auctions pData }

/-- Two stores that are equal but for when their imminent auctions end. -/
def SameButEnds (s t : Store) : Prop := ∃ ends, t = withEnds s ends

/-- A `RES_SEARCH` about an imminent auction has no end time in it. -/
def Hidden : Effect → Prop
  | .send _ (.resSearch _ _ _ status _ endTime) => status = .imminent → endTime = 0
  | _ => True

/-- The packets sent do not tell when an imminent auction ends. -/
structure Secret (s : Store) (packets : Store → Except Fault (List Effect)) : Prop where
  same : ∀ t, SameButEnds s t → packets t = packets s
  zero : ∀ effects, packets s = .ok effects → ∀ effect ∈ effects, Hidden effect

/-- The packets `REQ_SEARCH` is answered with. -/
def searchPackets (locals : Locals) (pPlayer : Player) (pPacket : Bytes) (sessionID : Int64)
    (s : Store) : Except Fault (List Effect) :=
  (s.packetProcReqSearch locals pPlayer pPacket sessionID).map fun after => after.2.2

/-- The string that is searched for. -/
def query (locals : Locals) (pPacket : Bytes) : WString :=
  localString locals (getNickName locals.nickName pPacket).1

/-! ## Other end times -/

section Ends
variable {s t : Store}

theorem withEnds_self (s : Store) : withEnds s (fun pData => (s.auctions pData).endTime) = s := by
  have auctions : (withEnds s fun pData => (s.auctions pData).endTime).auctions = s.auctions := by
    funext pData
    exact ite_self _
  exact congrArg (fun auctions => { s with auctions := auctions }) auctions

theorem SameButEnds.refl (s : Store) : SameButEnds s s := ⟨_, (withEnds_self s).symm⟩

theorem SameButEnds.others (same : SameButEnds s t) {pData : AuctionRef}
    (other : (s.auctions pData).status ≠ .imminent) : t.auctions pData = s.auctions pData := by
  obtain ⟨ends, rfl⟩ := same
  exact if_neg other

/-- A packet that has an end time of sales only is the same. -/
theorem SameButEnds.res_search (same : SameButEnds s t) (pPlayer : Player) (pData : AuctionRef) :
    resSearch pPlayer (t.auctions pData)
        (if (t.auctions pData).status = .sale then (t.auctions pData).endTime else 0) =
      resSearch pPlayer (s.auctions pData)
        (if (s.auctions pData).status = .sale then (s.auctions pData).endTime else 0) := by
  by_cases imminent : (s.auctions pData).status = .imminent
  · obtain ⟨ends, rfl⟩ := same
    have other : (withEnds s ends).auctions pData = { s.auctions pData with endTime := ends pData } :=
      if_pos imminent
    have noSale : (s.auctions pData).status ≠ .sale := by
      rw [imminent]
      decide
    rw [other, if_neg noSale, if_neg noSale]
    rfl
  · rw [same.others imminent]

end Ends

/-! ## Lists of auctions with their end times -/

/-- `RES_SEARCH` about some auctions, with the end times they have. -/
def listing (s : Store) (pPlayer : Player) (listed : List AuctionRef) : List Reply :=
  listed.map fun pData => resSearch pPlayer (s.auctions pData) (s.auctions pData).endTime

/-- The auctions whose key contains `wstr`. -/
def matching (wstr : WString) (auctions : UnorderedMap WString AuctionRef) : List AuctionRef :=
  (auctions.entries.filter fun entry => decide (wstr <:+: entry.1)).map Sigma.snd

section Listings
variable {s : Store} {pPlayer : Player}

theorem mem_matching {wstr : WString} {auctions : UnorderedMap WString AuctionRef} {pData : AuctionRef} :
    pData ∈ matching wstr auctions ↔ ∃ key, auctions.find key = some pData ∧ wstr <:+: key := by
  unfold matching
  simp only [List.mem_map, List.mem_filter, decide_eq_true_eq]
  constructor
  · rintro ⟨⟨key, pData⟩, ⟨member, part⟩, rfl⟩
    exact ⟨key, UnorderedMap.find_entry.mpr member, part⟩
  · rintro ⟨key, found, part⟩
    exact ⟨⟨key, pData⟩, ⟨UnorderedMap.find_entry.mp found, part⟩, rfl⟩

theorem search_listing (wstr : WString) (auctions : UnorderedMap WString AuctionRef) :
    s.searchReplies pPlayer wstr auctions = listing s pPlayer (matching wstr auctions) := by
  unfold searchReplies listing matching
  rw [List.map_map]
  rfl

theorem listing_append (listed listed' : List AuctionRef) : listing s pPlayer (listed ++ listed') =
    listing s pPlayer listed ++ listing s pPlayer listed' := List.map_append

/-- Some end time or other is told of an imminent auction that is listed. -/
theorem listing_same_iff (pPlayer : Player) {listed : List AuctionRef} :
    (∀ t, SameButEnds s t → listing t pPlayer listed = listing s pPlayer listed) ↔
      ∀ pData ∈ listed, (s.auctions pData).status ≠ .imminent := by
  constructor
  · intro same pData member imminent
    have later := same _ ⟨fun pData => (s.auctions pData).endTime + 1, rfl⟩
    have told := List.map_inj_left.mp later pData member
    have other : (withEnds s fun pData => (s.auctions pData).endTime + 1).auctions pData =
        { s.auctions pData with endTime := (s.auctions pData).endTime + 1 } := if_pos imminent
    rw [other] at told
    have ends := (Reply.resSearch.inj told).2.2.2.2.2
    have unchanged : (s.auctions pData).endTime + 1 = (s.auctions pData).endTime :=
      congrArg Int64.toUInt64 ends
    exact absurd (UInt64.add_eq_left.mp unchanged) (by decide)
  · intro others t same
    refine List.map_congr_left fun pData member => ?_
    rw [same.others (others pData member)]

theorem listing_hidden {listed : List AuctionRef}
    (others : ∀ pData ∈ listed, (s.auctions pData).status ≠ .imminent) (sessionID : Int64) :
    ∀ reply ∈ listing s pPlayer listed, Hidden (.send sessionID reply) := by
  intro reply member
  obtain ⟨pData, there, rfl⟩ := List.mem_map.mp member
  exact fun imminent => absurd imminent (others pData there)

/-- Packets that list auctions behind others in which nothing is told are secret
when none of those is imminent. -/
theorem listing_secret_iff {packets : Store → Except Fault (List Effect)} {told : List Reply}
    {listed : List AuctionRef} {sessionID : Int64}
    (sends : ∀ t, SameButEnds s t →
      packets t = .ok ((told ++ listing t pPlayer listed).map (.send sessionID)))
    (hidden : ∀ reply ∈ told, Hidden (.send sessionID reply)) :
    Secret s packets ↔ ∀ pData ∈ listed, (s.auctions pData).status ≠ .imminent := by
  have now := sends s (.refl s)
  constructor
  · intro secret
    refine (listing_same_iff pPlayer).mp fun t ends => ?_
    have same := secret.same t ends
    rw [now, sends t ends] at same
    have apart : Function.Injective (Effect.send sessionID) := fun _ _ sent => (Effect.send.inj sent).2
    exact List.append_cancel_left (List.map_injective_iff.mpr apart (Except.ok.inj same))
  · intro others
    refine ⟨fun t ends => ?_, fun effects sent effect member => ?_⟩
    · rw [now, sends t ends, (listing_same_iff pPlayer).mpr others t ends]
    · rw [now] at sent
      obtain rfl := Except.ok.inj sent
      obtain ⟨reply, there, rfl⟩ := List.mem_map.mp member
      rcases List.mem_append.mp there with there | there
      · exact hidden reply there
      · exact listing_hidden others sessionID reply there

end Listings

/-! ## The slots of an account -/

/-- Each counted slot has a name, which is on sale or short enough to be sent. -/
def SlotsSent (s : Store) (pPlayer : Player) : Prop :=
  ∀ slots, s.ownList.find pPlayer.accountNo = some slots → ∀ i < loopBound slots.count,
    ∃ wstr, slots.nickNames[i]? = some wstr ∧
      (wstr ∈ s.cellList ∨ (cString wstr).length < nicknameMaxLength)

section Slots
variable {s : Store} {pPlayer : Player}

theorem slot_reply_sent_iff (wstr : WString) : (∃ reply, s.slotReply pPlayer wstr = .ok reply) ↔
    wstr ∈ s.cellList ∨ (cString wstr).length < nicknameMaxLength := by
  unfold slotReply slotAuction
  cases listed : s.cellList.find wstr with
  | none =>
    have unlisted : wstr ∉ s.cellList := UnorderedMap.find_eq_none.mp listed
    dsimp only
    unfold wcscpyS
    by_cases fits : (cString wstr).length < nicknameMaxLength
    · rw [dif_pos fits]
      exact ⟨fun _ => .inr fits, fun _ => ⟨_, rfl⟩⟩
    · rw [dif_neg fits]
      refine ⟨fun sent => ?_, fun sends => (sends.elim unlisted fits).elim⟩
      obtain ⟨reply, sent⟩ := sent
      cases sent
  | some pData => exact ⟨fun _ => .inl (UnorderedMap.mem_of_find listed), fun _ => ⟨_, rfl⟩⟩

theorem slot_replies_sent_iff (count : Nat) (names : List WString) :
    (∃ replies, s.slotReplies pPlayer count names = .ok replies) ↔
      ∀ i < count, ∃ wstr, names[i]? = some wstr ∧
        (wstr ∈ s.cellList ∨ (cString wstr).length < nicknameMaxLength) := by
  induction count generalizing names with
  | zero => exact ⟨fun _ i below => absurd below (Nat.not_lt_zero i), fun _ => ⟨[], rfl⟩⟩
  | succ count ih =>
    cases names with
    | nil =>
      constructor
      · rintro ⟨replies, sent⟩
        cases sent
      · intro named
        obtain ⟨wstr, there, _⟩ := named 0 (Nat.succ_pos count)
        cases there
    | cons wstr names =>
      constructor
      · rintro ⟨replies, sent⟩ i below
        obtain ⟨reply, first, rest⟩ := bind_ok.mp sent
        obtain ⟨others, rest, _⟩ := bind_ok.mp rest
        cases i with
        | zero => exact ⟨wstr, rfl, (slot_reply_sent_iff wstr).mp ⟨reply, first⟩⟩
        | succ i => exact (ih names).mp ⟨others, rest⟩ i (Nat.lt_of_succ_lt_succ below)
      · intro named
        obtain ⟨_, there, first⟩ := named 0 (Nat.succ_pos count)
        obtain rfl := Option.some.inj there
        obtain ⟨reply, first⟩ := (slot_reply_sent_iff wstr).mpr first
        obtain ⟨others, rest⟩ := (ih names).mpr fun i below => named (i + 1) (Nat.succ_lt_succ below)
        refine ⟨reply :: others, ?_⟩
        rw [slotReplies, first, rest]
        rfl

theorem own_replies_sent_iff :
    (∃ replies, s.ownReplies pPlayer = .ok replies) ↔ SlotsSent s pPlayer := by
  unfold ownReplies SlotsSent
  cases s.ownList.find pPlayer.accountNo with
  | none => exact ⟨fun _ slots known => (Option.some_ne_none slots known.symm).elim, fun _ => ⟨[], rfl⟩⟩
  | some slots =>
    rw [slot_replies_sent_iff]
    simp only [Option.some.injEq, forall_eq']

/-- The slots do not tell when an imminent auction ends. -/
theorem slot_reply_same {t : Store} (same : SameButEnds s t) (wstr : WString) :
    t.slotReply pPlayer wstr = s.slotReply pPlayer wstr := by
  have listed : t.slotAuction wstr = s.slotAuction wstr := by
    obtain ⟨ends, rfl⟩ := same
    rfl
  unfold slotReply
  rw [listed]
  cases s.slotAuction wstr with
  | none => rfl
  | some pData => exact congrArg Except.ok (same.res_search pPlayer pData)

theorem own_replies_same {t : Store} (same : SameButEnds s t) :
    t.ownReplies pPlayer = s.ownReplies pPlayer := by
  have slots : t.ownList = s.ownList := by
    obtain ⟨ends, rfl⟩ := same
    rfl
  unfold ownReplies
  rw [slots]
  cases s.ownList.find pPlayer.accountNo with
  | none => rfl
  | some slots => exact slot_replies_congr (slot_reply_same same) _ _

theorem slot_reply_hidden {wstr : WString} {reply : Reply} (sent : s.slotReply pPlayer wstr = .ok reply)
    (sessionID : Int64) : Hidden (.send sessionID reply) := by
  unfold slotReply at sent
  split at sent
  · obtain ⟨nickName, _, made⟩ := bind_ok.mp sent
    obtain rfl := Except.ok.inj made
    exact fun imminent => by cases imminent
  · rename_i pData _
    obtain rfl := Except.ok.inj sent
    intro (imminent : (s.auctions pData).status = .imminent)
    rw [imminent]
    rfl

theorem slot_replies_hidden {count : Nat} {names : List WString} {replies : List Reply}
    (sent : s.slotReplies pPlayer count names = .ok replies) (sessionID : Int64) :
    ∀ reply ∈ replies, Hidden (.send sessionID reply) := by
  fun_induction slotReplies s pPlayer count names generalizing replies with
  | case1 names =>
    obtain rfl := Except.ok.inj sent
    exact fun reply member => absurd member List.not_mem_nil
  | case2 count => cases sent
  | case3 count wstr rest ih =>
    obtain ⟨first, told, sent⟩ := bind_ok.mp sent
    obtain ⟨others, listed, sent⟩ := bind_ok.mp sent
    obtain rfl := Except.ok.inj sent
    intro reply member
    rcases List.mem_cons.mp member with rfl | member
    · exact slot_reply_hidden told sessionID
    · exact ih listed reply member

theorem own_replies_hidden {replies : List Reply} (sent : s.ownReplies pPlayer = .ok replies)
    (sessionID : Int64) : ∀ reply ∈ replies, Hidden (.send sessionID reply) := by
  unfold ownReplies at sent
  split at sent
  · obtain rfl := Except.ok.inj sent
    exact fun reply member => absurd member List.not_mem_nil
  · exact slot_replies_hidden sent sessionID

end Slots

/-! ## The packets as a whole -/

section Packets
variable {s : Store} {pPlayer : Player}

theorem search_secret_iff {locals : Locals} {pPacket : Bytes} {sessionID : Int64} :
    Secret s (searchPackets locals pPlayer pPacket sessionID) ↔
      ∀ wstr pData, s.cellList.find wstr = some pData ∨ s.imminentList.find wstr = some pData →
        query locals pPacket <:+: wstr → (s.auctions pData).status ≠ .imminent := by
  have sends (t : Store) (same : SameButEnds s t) :
      searchPackets locals pPlayer pPacket sessionID t =
        .ok (([] ++ listing t pPlayer (matching (query locals pPacket) s.cellList ++
          matching (query locals pPacket) s.imminentList)).map (.send sessionID)) := by
    obtain ⟨ends, rfl⟩ := same
    rw [listing_append, ← search_listing, ← search_listing]
    rfl
  rw [listing_secret_iff sends fun reply member => absurd member List.not_mem_nil]
  constructor
  · rintro others wstr pData (found | found) part
    · exact others pData (List.mem_append_left _ (mem_matching.mpr ⟨wstr, found, part⟩))
    · exact others pData (List.mem_append_right _ (mem_matching.mpr ⟨wstr, found, part⟩))
  · intro others pData member
    rcases List.mem_append.mp member with member | member
    · obtain ⟨wstr, found, part⟩ := mem_matching.mp member
      exact others wstr pData (.inl found) part
    · obtain ⟨wstr, found, part⟩ := mem_matching.mp member
      exact others wstr pData (.inr found) part

theorem init_packets_secret_iff : Secret s (fun s => s.sendInitPackets pPlayer) ↔
    (SlotsSent s pPlayer → ∀ pData ∈ s.cellListTimeOrder48.take 200 ++ s.finList.take 200,
      (s.auctions pData).status ≠ .imminent) := by
  cases sent : s.ownReplies pPlayer with
  | error fault =>
    have fails (t : Store) (same : SameButEnds s t) : t.sendInitPackets pPlayer = .error fault := by
      unfold sendInitPackets
      rw [own_replies_same same, sent]
      rfl
    refine ⟨fun _ sends => ?_, fun _ => ⟨fun t same => ?_, fun effects ran => ?_⟩⟩
    · obtain ⟨replies, ran⟩ := own_replies_sent_iff.mpr sends
      cases sent.symm.trans ran
    · rw [fails t same, fails s (.refl s)]
    · cases (fails s (.refl s)).symm.trans ran
  | ok replies =>
    have sends (t : Store) (same : SameButEnds s t) : t.sendInitPackets pPlayer =
        .ok ((replies ++ listing t pPlayer (s.cellListTimeOrder48.take 200 ++
          s.finList.take 200)).map (.send pPlayer.sessionID)) := by
      unfold sendInitPackets
      rw [own_replies_same same, sent, listing_append, ← List.append_assoc]
      obtain ⟨ends, rfl⟩ := same
      rfl
    rw [listing_secret_iff sends (own_replies_hidden sent pPlayer.sessionID)]
    exact ⟨fun others _ => others, fun others => others (own_replies_sent_iff.mp ⟨replies, sent⟩)⟩

end Packets

/-- A search keeps the closing times secret when it finds no imminent auction.
What a player is sent when his account is known does when no imminent auction is
among the first two hundred of the recent ones, or sending his slots fails first. -/
theorem closing_times_secret_iff (s : Store) (pPlayer : Player) :
    (∀ locals pPacket sessionID, Secret s (searchPackets locals pPlayer pPacket sessionID) ↔
      ∀ wstr pData, s.cellList.find wstr = some pData ∨ s.imminentList.find wstr = some pData →
        query locals pPacket <:+: wstr → (s.auctions pData).status ≠ .imminent) ∧
    (Secret s (fun s => s.sendInitPackets pPlayer) ↔
      (SlotsSent s pPlayer → ∀ pData ∈ s.cellListTimeOrder48.take 200 ++ s.finList.take 200,
        (s.auctions pData).status ≠ .imminent)) :=
  ⟨fun _ _ _ => search_secret_iff, init_packets_secret_iff⟩

/-! ## An imminent auction -/

/-- `REQ_SALE` of a nickname for some hours from price 1. -/
def saleFor (letters : Bytes) (hours : UInt8) : Bytes :=
  [1, 0] ++ letters ++ List.replicate (20 - letters.length) 0 ++ [hours] ++ [1, 0, 0, 0]

/-- A player who is named "A". -/
def playerA : Player := ⟨true, 0, 0, nameA, 0⟩

/-- A long sale of "NULL", a sale of "A" for 25 hours, and `Update` after these. The
long sale is the oldest of the recent ones, so `Update` takes none off their list. -/
def imminentSale : List LogicStep :=
  [.job (.onClientJoin 0) (.zero 0),
    .job (.onRecv 0 (saleFor [78, 0, 85, 0, 76, 0, 76, 0] 127)) (.zero 0),
    .job (.nicknameRegisterAble 0 0) (.zero 0),
    .job (.onRecv 0 ([10, 0] ++ List.replicate 12 0 ++ [65, 0] ++ List.replicate 18 0)) (.zero 0),
    .job (.onRecv 0 (saleFor [65, 0] 25)) (.zero 0),
    .job (.nicknameRegisterAble 0 0) (.zero 0),
    .update { Settlement.dueUpdate with
      curTime := 90000000 }]

/-- The player is told the random end, when he searches for "A" and when his
account is known. -/
theorem closing_time_told : ∃ t : Store, Run Steps emptyStore imminentSale t ∧
    t.playerList.find 0 = some playerA ∧
    ¬Secret t (searchPackets (JobEnv.zero 0).locals playerA (65 :: List.replicate 19 0) 0) ∧
    ¬Secret t (fun s => s.sendInitPackets playerA) := by
  obtain ⟨t, run, seen⟩ := run_of_seen emptyStore imminentSale
    (fun t => (t.playerList.find 0,
      searchPackets (JobEnv.zero 0).locals playerA (65 :: List.replicate 19 0) 0 t,
      t.sendInitPackets playerA))
    (some playerA, .ok [.send 0 (.resSearch [65] .mine .me .imminent 1 90000000)],
      .ok [.send 0 (.resSearch [78, 85, 76, 76] .mine .me .sale 1 456600000),
        .send 0 (.resSearch [65] .mine .me .finFail 0 0),
        .send 0 (.resSearch [65] .mine .me .imminent 1 90000000),
        .send 0 (.resSearch [78, 85, 76, 76] .mine .me .sale 1 456600000)]) rfl
  simp only [Prod.mk.injEq] at seen
  obtain ⟨known, search, init⟩ := seen
  refine ⟨t, run, known, fun secret => ?_, fun secret => ?_⟩
  · have hidden := secret.zero _ search _ List.mem_cons_self
    exact absurd (hidden rfl) (by decide)
  · have hidden := secret.zero _ init (.send 0 (.resSearch [65] .mine .me .imminent 1 90000000))
      (by decide)
    exact absurd (hidden rfl) (by decide)

end NewNameAuction.ClosingTime
