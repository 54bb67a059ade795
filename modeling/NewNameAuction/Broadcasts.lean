import NewNameAuction.BidConservation
import NewNameAuction.Settlement

/-! Who is told of bids and of auctions that have ended. The recipients pass through a set
of 1000 sessions that takes no more when it is full, and both callers ignore that. -/
namespace NewNameAuction.Broadcasts
open Store AuctionBook ByteMemory

/-- The players have different sessions and different accounts. -/
structure Connected (players : List Player) : Prop where
  sessions : (players.map Player.sessionID).Nodup
  accounts : (players.map Player.accountNo).Nodup

/-- Every player but the bidder is sent the bid, once. -/
def BidTold (s : Store) (pPlayer : Player) (nickName : WString) (price : Int32)
    (effects : List Effect) : Prop :=
  ∀ player ∈ s.playerList.values,
    effects.count (.send player.sessionID (.resBid nickName .other price)) =
      if player.accountNo = pPlayer.accountNo then 0 else 1

/-- The end of an auction is over. -/
def isDue (env : UpdateEnv) (m : Store) (entry : Sigma fun _ : WString => AuctionRef) : Bool :=
  decide ((m.auctions entry.2).endTime < env.curTime)

/-- The entries of `ImminentList` that the loop of `Update` ends: those that are due. -/
def endings (env : UpdateEnv) (s : Store) : List (Sigma fun _ : WString => AuctionRef) :=
  let m := s.midway (.update env)
  if m.elapsed env 5000 then m.imminentList.entries.filter (isDue env m) else []

/-- The packet about an auction that has ended. -/
def expirePacket (data : AuctionData) : Reply := .resExpire data.nickName.chars data.status

/-- Every player is sent the packet about an auction that has ended, once for it (and once
for each other one with the same packet). -/
def EndTold (env : UpdateEnv) (s s' : Store) (pData : AuctionRef) (effects : List Effect) : Prop :=
  ∀ player ∈ s.playerList.values,
    effects.count (.send player.sessionID (expirePacket (s'.auctions pData))) =
      (endings env s).countP fun entry =>
        expirePacket (s'.auctions entry.2) = expirePacket (s'.auctions pData)

/-! ## The set -/

section Sets
variable {players : List Player}

private theorem fold_sessions (players : List Player) (set : List Int64)
    (room : set.length ≤ sessionSetSize) :
    players.foldl (fun set player => setSession set player.sessionID) set =
      (set ++ players.map Player.sessionID).take sessionSetSize := by
  induction players generalizing set with
  | nil => simp [List.take_of_length_le room]
  | cons player players ih =>
    rw [List.foldl_cons, setSession, List.map_cons]
    by_cases full : sessionSetSize ≤ set.length
    · rw [if_pos full, ih set room, List.take_append_of_le_length full,
        List.take_append_of_le_length full]
    · rw [if_neg full, ih]
      · rw [List.append_assoc, List.singleton_append]
      · rw [List.length_append, List.length_singleton]
        omega

/-- A set has the first thousand sessions. -/
theorem session_set_take (players : List Player) :
    sessionSet players = (players.map Player.sessionID).take sessionSetSize :=
  fold_sessions players [] (Nat.zero_le _)

/-- Each player is in the set once exactly if there is room for all of them. -/
theorem all_in_set_iff (sessions : (players.map Player.sessionID).Nodup) :
    (∀ player ∈ players, (sessionSet players).count player.sessionID = 1) ↔
      players.length ≤ sessionSetSize := by
  rw [session_set_take]
  constructor
  · intro once
    have inside : players.map Player.sessionID ⊆
        (players.map Player.sessionID).take sessionSetSize := by
      intro sessionID member
      obtain ⟨player, known, rfl⟩ := List.mem_map.mp member
      exact List.count_pos_iff.mp (by rw [once player known]; exact Nat.one_pos)
    have most := (sessions.subperm inside).length_le
    rw [List.length_map, List.length_take] at most
    omega
  · intro room player known
    rw [List.take_of_length_le (by rwa [List.length_map])]
    exact List.count_eq_one_of_mem sessions (List.mem_map_of_mem known)

theorem count_send_to_set (set : List Int64) (sessionID : Int64) (reply : Reply) :
    (sendToSet set reply).count (.send sessionID reply) = set.count sessionID :=
  List.count_map_of_injective set _ (fun _ _ same => (Effect.send.inj same).1) sessionID

theorem count_send_other (set : List Int64) (sessionID : Int64) {reply other : Reply}
    (apart : other ≠ reply) : (sendToSet set other).count (.send sessionID reply) = 0 := by
  rw [List.count_eq_zero]
  intro member
  obtain ⟨_, _, same⟩ := List.mem_map.mp member
  exact apart (Effect.send.inj same).2

end Sets

/-! ## Bids -/

section Bids
variable {s s' : Store} {locals : Locals} {pPlayer : Player} {pPacket : Bytes} {sessionID : Int64}
  {effects : List Effect} {ret : Bool}

/-- The others are all players but one. -/
theorem others_length {players : List Player} (connected : Connected players)
    (known : pPlayer ∈ players) :
    (players.filter fun player => player.accountNo ≠ pPlayer.accountNo).length + 1 =
      players.length := by
  have self : players.countP (fun player => player.accountNo = pPlayer.accountNo) = 1 := by
    have once := List.count_eq_one_of_mem connected.accounts (List.mem_map_of_mem known)
    rw [List.count, List.countP_map] at once
    exact once
  have parts := List.length_eq_countP_add_countP
    (fun player : Player => decide (player.accountNo = pPlayer.accountNo)) (l := players)
  rw [self] at parts
  rw [parts, Nat.add_comm, List.countP_eq_length_filter]
  simp

/-- A bid reaches the others exactly if there is room for them. -/
theorem bid_told_iff {players : List Player} (connected : Connected players)
    (known : pPlayer ∈ players) (nickName : WString) (price : Int32) :
    (∀ player ∈ players,
      (sendToSet (sessionSet (players.filter fun player => player.accountNo ≠ pPlayer.accountNo))
        (.resBid nickName .other price)).count (.send player.sessionID (.resBid nickName .other price)) =
          if player.accountNo = pPlayer.accountNo then 0 else 1) ↔
      players.length ≤ sessionSetSize + 1 := by
  have sessions : ((players.filter fun player => player.accountNo ≠ pPlayer.accountNo).map
      Player.sessionID).Nodup := connected.sessions.sublist (List.filter_sublist.map _)
  have room := all_in_set_iff sessions
  rw [← others_length connected known, Nat.add_le_add_iff_right, ← room]
  constructor
  · intro told player member
    obtain ⟨there, other⟩ := List.mem_filter.mp member
    have once := told player there
    rwa [count_send_to_set, if_neg (of_decide_eq_true other)] at once
  · intro once player there
    rw [count_send_to_set]
    split
    · rename_i own
      rw [session_set_take, List.count_eq_zero]
      intro member
      obtain ⟨player', member', same⟩ := List.mem_map.mp (List.mem_of_mem_take member)
      obtain ⟨there', other⟩ := List.mem_filter.mp member'
      obtain rfl := List.inj_on_of_nodup_map connected.sessions there' there same
      exact of_decide_eq_true other own
    · rename_i other
      exact once player (List.mem_filter.mpr ⟨there, decide_eq_true other⟩)

/-- An assignment to a player who keeps his session and account keeps everybody's. -/
private theorem assigned_sessions {m : UnorderedMap Int64 Player} {player : Player}
    (found : m.find sessionID = some pPlayer) (session : player.sessionID = pPlayer.sessionID)
    (account : player.accountNo = pPlayer.accountNo) (bidder : Int64) :
    sessionSet ((m.assign sessionID player).values.filter fun player => player.accountNo ≠ bidder) =
      sessionSet (m.values.filter fun player => player.accountNo ≠ bidder) := by
  have seen (players : List Player) :
      (players.filter fun player => player.accountNo ≠ bidder).map Player.sessionID =
        ((players.map fun player => (player.accountNo, player.sessionID)).filter
          fun seen => seen.1 ≠ bidder).map Prod.snd := by
    rw [List.filter_map, List.map_map]
    rfl
  rw [session_set_take, session_set_take, seen, seen,
    UnorderedMap.map_values_assign _ found (Prod.ext account session)]

theorem accepted_bid_told_iff (connected : Connected s.playerList.values)
    (known : s.playerList.find sessionID = some pPlayer) {pData : AuctionRef}
    (accepted : s.acceptedBid locals pPlayer pPacket = some pData)
    (ran : s.packetProcReqBid locals pPlayer pPacket sessionID = .ok (ret, s', effects)) :
    BidTold s pPlayer (cString (readBid locals pPacket).1) (readBid locals pPacket).2 effects ↔
      s.playerList.values.length ≤ sessionSetSize + 1 := by
  obtain ⟨_, _, rfl⟩ := req_bid_accepted accepted ran
  rw [← bid_told_iff connected (UnorderedMap.mem_values.mpr ⟨sessionID, known⟩)
    (cString (readBid locals pPacket).1) (readBid locals pPacket).2]
  unfold BidTold bidReplies
  refine forall₂_congr fun player _ => ?_
  rw [List.count_cons_of_ne (by simp)]
  have same : sessionSet ((s.acceptBid pPlayer sessionID pData (readBid locals pPacket).2).playerList.values.filter
      fun player => player.accountNo ≠ pPlayer.accountNo) = _ :=
    @assigned_sessions _ _ _ { pPlayer with point := pPlayer.point - (readBid locals pPacket).2 }
      known rfl rfl pPlayer.accountNo
  rw [same]

end Bids

/-! ## Ended auctions -/

section Ends
variable {env : UpdateEnv} {s s' : Store} {effects : List Effect}

/-- What the loop over `ImminentList` sends and queues about one entry. -/
def announced (env : UpdateEnv) (set : List Int64) (m : Store)
    (entry : Sigma fun _ : WString => AuctionRef) : List Effect :=
  sendToSet set (.resExpire (m.auctions entry.2).nickName.chars (finishStatus (m.auctions entry.2))) ++
    [.enqueueDB (soldJob (env.block entry.1) (m.auctions entry.2))]

/-- In the loop: the auctions visited so far have ended, and the others are as before. -/
def EndedSoFar (m : Store) (visited : List AuctionRef) (t : Store) : Prop :=
  ∀ r, t.auctions r =
    if r ∈ visited then { m.auctions r with status := finishStatus (m.auctions r) } else m.auctions r

theorem visit_announces {set : List Int64} {m t : Store} {visited : List AuctionRef}
    (ended : EndedSoFar m visited t) (wstr : WString) (r : AuctionRef)
    (due : (m.auctions r).endTime < env.curTime) (sent : List Effect) :
    (visitImminent env set wstr r (t, sent)).2 = sent ++ announced env set m ⟨wstr, r⟩ ∧
      EndedSoFar m (visited ++ [r]) (visitImminent env set wstr r (t, sent)).1 := by
  obtain ⟨status, record⟩ : ∃ status, t.auctions r = { m.auctions r with status := status } := by
    rw [ended r]
    split
    · exact ⟨_, rfl⟩
    · exact ⟨_, rfl⟩
  have time : (t.auctions r).endTime < env.curTime := by
    rw [record]
    exact due
  have finished (r' : AuctionRef) : (t.toAuctionBook.finish wstr r).auctions r' =
      if r' = r then { m.auctions r with status := finishStatus (m.auctions r) }
      else t.auctions r' := by
    rw [auctions_finish, record]
    rfl
  unfold visitImminent
  dsimp only
  rw [if_pos time]
  refine ⟨?_, fun r' => ?_⟩
  · dsimp only
    rw [finished, if_pos rfl, List.append_assoc]
    rfl
  · dsimp only
    rw [finished, ended r']
    by_cases same : r' = r
    · rw [if_pos same, if_pos (by simp [same]), same]
    · rw [if_neg same]
      exact if_congr (by simp [same]) rfl rfl

/-- The loop sends and queues about the due entries, one after the other. -/
theorem sweep_announces {set : List Int64} {m : Store}
    (entries : List (Sigma fun _ : WString => AuctionRef)) (t : Store) (visited : List AuctionRef)
    (ended : EndedSoFar m visited t) (sent : List Effect) :
    (UnorderedMap.sweep (visitImminent env set) entries (t, sent)).2 =
        sent ++ (entries.filter (isDue env m)).flatMap (announced env set m) ∧
      EndedSoFar m (visited ++ (entries.filter (isDue env m)).map Sigma.snd)
        (UnorderedMap.sweep (visitImminent env set) entries (t, sent)).1 := by
  induction entries generalizing t visited sent with
  | nil =>
    rw [List.filter_nil, List.flatMap_nil, List.map_nil, List.append_nil, List.append_nil]
    exact ⟨rfl, ended⟩
  | cons entry entries ih =>
    change (UnorderedMap.sweep (visitImminent env set) entries
      (visitImminent env set entry.1 entry.2 (t, sent))).2 = _ ∧ EndedSoFar _ _
        (UnorderedMap.sweep (visitImminent env set) entries
          (visitImminent env set entry.1 entry.2 (t, sent))).1
    by_cases due : (m.auctions entry.2).endTime < env.curTime
    · obtain ⟨now, after⟩ := @visit_announces env set m t visited ended entry.1 entry.2 due sent
      obtain ⟨later, final⟩ := ih _ _ after (visitImminent env set entry.1 entry.2 (t, sent)).2
      have here : isDue env m entry = true := decide_eq_true due
      rw [List.filter_cons_of_pos here, List.flatMap_cons, List.map_cons, ← List.append_assoc]
      refine ⟨later.trans ?_, ?_⟩
      · rw [now]
      · rw [List.append_assoc] at final
        exact final
    · have idle : visitImminent env set entry.1 entry.2 (t, sent) = (t, sent) := by
        refine if_neg fun time => due ?_
        rw [ended entry.2] at time
        split at time <;> exact time
      rw [List.filter_cons_of_neg (by simpa [isDue] using due), idle]
      exact ih t visited ended sent

/-- All that `Update` sends is about the auctions it ends, and they have ended after it. -/
theorem update_announces (ran : s.update env = .ok (s', effects)) :
    let m := s.midway (.update env)
    effects = (endings env s).flatMap (announced env (sessionSet s.playerList.values) m) ∧
      EndedSoFar m ((endings env s).map Sigma.snd) s' := by
  obtain ⟨m, minute, rfl, rfl⟩ := update_cases ran
  have there : s.midway (.update env) = m := Store.midway_of_minute minute
  obtain ⟨_, _, _, _, frame⟩ := update_minute_cases (P := fun _ => True) minute
    (fun _ _ _ _ _ _ _ => trivial) trivial
  have players : m.playerList = s.playerList := by rw [frame]
  unfold endings
  rw [there, ← players]
  dsimp only
  unfold updateFiveSeconds
  by_cases elapsed : m.elapsed env 5000
  · rw [if_pos elapsed, if_pos elapsed]
    have start : EndedSoFar m [] m := fun r => (if_neg List.not_mem_nil).symm
    exact @sweep_announces env _ m m.imminentList.entries m [] start []
  · rw [if_neg elapsed, if_neg elapsed]
    exact ⟨rfl, fun r => (if_neg List.not_mem_nil).symm⟩

/-- The first half ends no auction. -/
private theorem minute_running {m : Store} (separate : Settlement.Separate s.toAuctionBook)
    (minute : s.updateMinute env = .ok m) : Settlement.Separate m.toAuctionBook ∧
      ∀ r, (m.auctions r).status.ended ↔ (s.auctions r).status.ended := by
  refine (update_minute_cases (P := fun b => Settlement.Separate b ∧
    ∀ r, (b.auctions r).status.ended ↔ (s.auctions r).status.ended) minute ?_
    ⟨separate, fun _ => Iff.rfl⟩).1
  rintro - b wstr pData ⟨separate, same⟩ found -
  refine ⟨Settlement.imminent_separate separate _ found, fun r => ?_⟩
  rw [auctions_moveToImminent, ← same r]
  split
  · rename_i here
    rw [here]
    exact iff_of_false (AuctionStatus.running_of_imminent rfl)
      (AuctionStatus.running_of_sale (separate.cell wstr pData found))
  · exact Iff.rfl

/-- The entries that `Update` ends are the auctions that have ended after it and had not
before. -/
theorem endings_iff (separate : Settlement.Separate s.toAuctionBook)
    (ran : s.update env = .ok (s', effects)) (pData : AuctionRef) :
    pData ∈ (endings env s).map Sigma.snd ↔
      ¬(s.auctions pData).status.ended ∧ (s'.auctions pData).status.ended := by
  obtain ⟨_, ended⟩ := update_announces ran
  obtain ⟨m, minute, _⟩ := update_cases ran
  have there : s.midway (.update env) = m := Store.midway_of_minute minute
  obtain ⟨separate, same⟩ := minute_running separate minute
  rw [there] at ended
  rw [ended pData, ← same pData]
  constructor
  · intro member
    rw [if_pos member]
    refine ⟨?_, finish_status_ended _⟩
    obtain ⟨entry, listed, rfl⟩ := List.mem_map.mp member
    unfold endings at listed
    rw [there] at listed
    dsimp only at listed
    split at listed
    · have found := UnorderedMap.find_entry.mpr (List.mem_filter.mp listed).1
      exact AuctionStatus.running_of_imminent (separate.imminent _ _ found)
    · cases listed
  · rintro ⟨running, done⟩
    by_contra absent
    rw [if_neg absent] at done
    exact running done

/-- What has ended has the status and the packet that the loop sent. -/
theorem ended_packet {m t : Store} {visited : List AuctionRef} (ended : EndedSoFar m visited t)
    {r : AuctionRef} (member : r ∈ visited) : expirePacket (t.auctions r) =
      .resExpire (m.auctions r).nickName.chars (finishStatus (m.auctions r)) := by
  rw [ended r, if_pos member]
  rfl

/-- Each announcement of a packet calls for every session of the set. -/
theorem count_announced (set : List Int64) (m : Store) (packet : Reply) (sessionID : Int64)
    (entries : List (Sigma fun _ : WString => AuctionRef)) :
    (entries.flatMap (announced env set m)).count (.send sessionID packet) =
      entries.countP (fun entry => .resExpire (m.auctions entry.2).nickName.chars
        (finishStatus (m.auctions entry.2)) = packet) * set.count sessionID := by
  induction entries with
  | nil => simp
  | cons entry entries ih =>
    have queued : [Effect.enqueueDB (soldJob (env.block entry.1) (m.auctions entry.2))].count
        (.send sessionID packet) = 0 := by simp
    rw [List.flatMap_cons, List.count_append, ih, announced, List.count_append, queued, List.countP_cons]
    by_cases same : Reply.resExpire (m.auctions entry.2).nickName.chars
        (finishStatus (m.auctions entry.2)) = packet
    · rw [same, count_send_to_set, if_pos (by simp), Nat.add_mul, Nat.one_mul, Nat.add_zero, Nat.add_comm]
    · rw [count_send_other _ _ same, if_neg (by simpa using same), Nat.add_zero, Nat.add_zero,
        Nat.zero_add]

/-- An auction that `Update` ends reaches everybody exactly if there is room for them. -/
theorem end_told_iff (connected : Connected s.playerList.values)
    (ran : s.update env = .ok (s', effects)) {entry : Sigma fun _ : WString => AuctionRef}
    (ends : entry ∈ endings env s) :
    EndTold env s s' entry.2 effects ↔ s.playerList.values.length ≤ sessionSetSize := by
  obtain ⟨rfl, ended⟩ := update_announces ran
  have packet (entry : Sigma fun _ : WString => AuctionRef) (member : entry ∈ endings env s) :=
    ended_packet ended (List.mem_map_of_mem (f := Sigma.snd) member)
  have many : (endings env s).countP (fun other => Reply.resExpire
        ((s.midway (.update env)).auctions other.2).nickName.chars
        (finishStatus ((s.midway (.update env)).auctions other.2)) =
          expirePacket (s'.auctions entry.2)) =
      (endings env s).countP fun other =>
        expirePacket (s'.auctions other.2) = expirePacket (s'.auctions entry.2) := by
    refine List.countP_congr fun other member => ?_
    rw [packet other member]
  have some : 0 < (endings env s).countP fun other =>
      expirePacket (s'.auctions other.2) = expirePacket (s'.auctions entry.2) :=
    List.countP_pos_iff.mpr ⟨entry, ends, by simp⟩
  rw [← all_in_set_iff connected.sessions]
  unfold EndTold
  refine forall₂_congr fun player _ => ?_
  rw [count_announced, many]
  constructor
  · exact fun told => Nat.eq_of_mul_eq_mul_left some (told.trans (Nat.mul_one _).symm)
  · intro once
    rw [once, Nat.mul_one]

end Ends

/-- For every set of connected players: an accepted bid reaches all others exactly if there
are at most 1000 of them, and an auction that `Update` ends reaches all players exactly if
there are at most 1000. -/
theorem broadcasts_reach_iff (s : Store) (connected : Connected s.playerList.values) :
    (∀ (locals : Locals) (pPlayer : Player) (pPacket : Bytes) (sessionID : Int64) (pData : AuctionRef)
      (ret : Bool) (s' : Store) (effects : List Effect),
      s.playerList.find sessionID = some pPlayer → s.acceptedBid locals pPlayer pPacket = some pData →
      s.packetProcReqBid locals pPlayer pPacket sessionID = .ok (ret, s', effects) →
      (BidTold s pPlayer (cString (readBid locals pPacket).1) (readBid locals pPacket).2 effects ↔
        s.playerList.values.length ≤ sessionSetSize + 1)) ∧
    ∀ (env : UpdateEnv) (s' : Store) (effects : List Effect) (entry : Sigma fun _ : WString => AuctionRef),
      s.update env = .ok (s', effects) → entry ∈ endings env s →
      (EndTold env s s' entry.2 effects ↔ s.playerList.values.length ≤ sessionSetSize) :=
  ⟨fun _ _ _ _ _ _ _ _ known accepted ran => accepted_bid_told_iff connected known accepted ran,
    fun _ _ _ _ ran ends => end_told_iff connected ran ends⟩

/-! ## Two players, and a crowd -/

/-- The auction of the two players is due at once, and over after ten minutes more. -/
def lateUpdate : UpdateEnv where
  curTime := 700000
  draw := fun _ => middleDraw
  block := fun _ => (JobEnv.zero 0).block
  undefined := none

theorem two_players_told :
    (∃ s' effects, (BidConservation.twoPlayers 0).packetProcReqBid (JobEnv.zero 0).locals
        BidConservation.bidderPlayer BidConservation.hundred 5 = .ok (true, s', effects) ∧
      BidTold (BidConservation.twoPlayers 0) BidConservation.bidderPlayer [65] 100 effects) ∧
    ∃ s' effects, (BidConservation.twoPlayers 0).update lateUpdate = .ok (s', effects) ∧
      EndTold lateUpdate (BidConservation.twoPlayers 0) s' 0 effects := by
  have connected : Connected (BidConservation.twoPlayers 0).playerList.values := ⟨by decide, by decide⟩
  have listed : (⟨[65], 0⟩ : Sigma fun _ : WString => AuctionRef) ∈
      endings lateUpdate (BidConservation.twoPlayers 0) := List.mem_cons_self
  obtain ⟨bids, ends⟩ := broadcasts_reach_iff _ connected
  exact ⟨⟨_, _, rfl, (bids (JobEnv.zero 0).locals BidConservation.bidderPlayer BidConservation.hundred 5
      0 true _ _ rfl rfl rfl).mpr (by decide)⟩,
    ⟨_, _, rfl, (ends _ _ _ _ rfl listed).mpr (by decide)⟩⟩

/-- One of a crowd. -/
def oneOf (i : Nat) : Player :=
  ⟨true, Int64.ofNat i, Int64.ofNat i, nameB, 100⟩

section Crowd
variable {n : Nat} (fits : n ≤ 30000)
include fits

theorem ids_nodup : ((List.range n).map Int64.ofNat).Nodup := by
  refine List.Nodup.map_on (fun i inside j inside' same => ?_) List.nodup_range
  have values := congrArg Int64.toInt same
  rw [List.mem_range] at inside inside'
  rw [Int64.toInt_ofNat_of_lt (by omega), Int64.toInt_ofNat_of_lt (by omega)] at values
  exact Int.ofNat.inj values

/-- Some players. -/
def crowd : UnorderedMap Int64 Player :=
  ⟨(List.range n).map fun i => ⟨Int64.ofNat i, oneOf i⟩, by
    rw [List.NodupKeys, List.keys, List.map_map]
    exact ids_nodup fits⟩

/-- An auction is over, and some players are connected. -/
def crowded : Store := { Settlement.dueStore with playerList := crowd fits }

theorem crowd_values : (crowded fits).playerList.values = (List.range n).map oneOf := List.map_map

theorem crowd_connected : Connected (crowded fits).playerList.values := by
  rw [crowd_values]
  exact ⟨by rw [List.map_map]; exact ids_nodup fits, by rw [List.map_map]; exact ids_nodup fits⟩

theorem crowd_recent : ¬(crowded fits).elapsed Settlement.dueUpdate 60000 :=
  (by decide : ¬(10000 : UInt64) - 0 > 60000)

theorem crowd_due : endings Settlement.dueUpdate (crowded fits) = [⟨[65], 0⟩] := by
  have elapsed : (crowded fits).elapsed Settlement.dueUpdate 5000 :=
    (by decide : (10000 : UInt64) - 0 > 5000)
  have there : (crowded fits).midway (.update Settlement.dueUpdate) = crowded fits := by
    rw [Store.midway, updateMinute, if_neg (crowd_recent fits)]
  unfold endings
  rw [there]
  exact if_pos elapsed

theorem crowd_update : ∃ s' effects,
    (crowded fits).update Settlement.dueUpdate = .ok (s', effects) := by
  unfold Store.update
  rw [updateMinute, if_neg (crowd_recent fits)]
  exact ⟨_, _, rfl⟩

/-- The end of the auction is not told to the player after the first thousand. -/
theorem crowd_untold {s' : Store} {effects : List Effect}
    (ran : (crowded fits).update Settlement.dueUpdate = .ok (s', effects)) (more : 1000 < n) :
    effects.count (.send (Int64.ofNat 1000) (expirePacket (s'.auctions 0))) = 0 := by
  have announced := (update_announces ran).1
  have absent : (sessionSet (crowded fits).playerList.values).count (Int64.ofNat 1000) = 0 := by
    rw [List.count_eq_zero, session_set_take, crowd_values, List.map_map]
    intro inside
    have distinct := ids_nodup fits
    rw [← List.take_append_drop sessionSetSize ((List.range n).map Int64.ofNat)] at distinct
    refine (List.nodup_append.mp distinct).2.2 _ inside (Int64.ofNat 1000) ?_ rfl
    refine List.mem_drop_iff_getElem.mpr ⟨0, ?_, ?_⟩
    · rw [List.length_map, List.length_range]
      exact more
    · rw [List.getElem_map, List.getElem_range]
      rfl
  rw [announced, count_announced, absent, Nat.mul_zero]

end Crowd

/-- One player more than the set has room for. -/
def tooMany : Store := crowded (n := 1001) (by decide)

/-- The last one is not told. -/
theorem last_not_told : Connected tooMany.playerList.values ∧ tooMany.playerList.values.length = 1001 ∧
    ∃ s' effects, tooMany.update Settlement.dueUpdate = .ok (s', effects) ∧
      ⟨[65], 0⟩ ∈ endings Settlement.dueUpdate tooMany ∧
      effects.count (.send 1000 (expirePacket (s'.auctions 0))) = 0 ∧
      ¬EndTold Settlement.dueUpdate tooMany s' 0 effects := by
  have fits : 1001 ≤ 30000 := by decide
  have players : tooMany.playerList.values = (List.range 1001).map oneOf := crowd_values fits
  have listed : ⟨[65], 0⟩ ∈ endings Settlement.dueUpdate tooMany := by
    rw [tooMany, crowd_due]
    exact List.mem_cons_self
  obtain ⟨s', effects, ran⟩ := crowd_update fits
  have untold := crowd_untold fits ran (by decide)
  refine ⟨crowd_connected fits, ?_, s', effects, ran, listed, untold, fun told => ?_⟩
  · rw [players, List.length_map, List.length_range]
  · have last : oneOf 1000 ∈ tooMany.playerList.values := by
      rw [players]
      exact List.mem_map_of_mem (List.mem_range.mpr (by decide))
    have called := told (oneOf 1000) last
    have zero := List.countP_eq_zero.mp (called.symm.trans untold) _ listed
    exact zero (decide_eq_true rfl)

end NewNameAuction.Broadcasts
