import NewNameAuction.DatabaseRequests
import NewNameAuction.ReceiveTurns

/-! The players of the auction server against the sessions of the network server. The
handler's calls go through `JobQueue`: `LogicThread` makes a player when it comes to the
`JOIN` of a session and drops it at the `LEAVE`. However the threads interleave, no `JOIN`
meets a player that is there, no `LEAVE` or packet one that is not, and `PlayerPool` has
as many blocks in use as there are players. All this rests on `JobQueue` being a FIFO
queue with one step for each operation. -/
namespace NewNameAuction.PlayerSessions
open DatabaseRequests DatabaseWakeup ByteMemory
open SessionLife SessionOwner SessionNumbers SessionLifeCycle ReceiveTurns

/-! ## The two servers -/

/-- `JobQueue`, which the workers, `AcceptThread` and `releaseSession` put jobs into, is
taken as a FIFO queue, an `Enqueue` or `Dequeue` one step: an assumption about
`LockFreeQueue`, which keeps no order once a node is recycled under a thread that still
works on it. -/
structure Game (κ : Type*) (n : Nat) where
  net : Net κ n
  system : System

/-- `OnClientJoin` and `OnClientLeave`, with a block of `JobPool`. -/
def handlerItems (block : JobItem) : SessionLife.Event → List JobItem
  | .joined id => [{ block with jobType := .onClientJoin, sessionID := id, pPacket := [] }]
  | .left id => [{ block with jobType := .onClientLeave, sessionID := id, pPacket := [] }]
  | _ => []

/-- `OnRecv`. -/
def recvItem (block : JobItem) (sessionID : Int64) (pPacket : Bytes) : JobItem :=
  { block with jobType := .onRecv, sessionID := sessionID, pPacket := pPacket }

inductive GameEvent (κ : Type*) (n : Nat)
  | net (label : Option κ × Fin n × SessionLife.Event) (block : JobItem)
  | recv (item : JobItem)
  | system (event : SystemEvent)

/-- Is the event one of `LogicThread` or `DBAccessThread`? -/
def Inner : SystemEvent → Prop
  | .network _ => False
  | _ => True

section Steps
variable {κ : Type*} {n : Nat} [DecidableEq κ]

def Game.start (κ : Type*) {n : Nat} (sessionIDs : Fin n → Int64) (sessionAllocNum : Int64)
    (auctions : AuctionRef → AuctionData) (packetType : UInt16) : Game κ n :=
  ⟨netStart κ sessionIDs sessionAllocNum, .start auctions packetType⟩

/-- The network and the auction server, which meet at `JobQueue`: what a handler is
called with goes to its end in one step. A worker that has the completion of a receive
may hand on any packets. -/
inductive GameStep (g : Game κ n) : GameEvent κ n → Game κ n → Prop
  | net {label : Option κ × Fin n × SessionLife.Event} {net : Net κ n} (step : NetStep g.net label net)
      (block : JobItem) :
      GameStep g (.net label block)
        ⟨net, { g.system with jobQueue := g.system.jobQueue ++ handlerItems block label.2.2 }⟩
  | recv {j : κ} {index : Fin n} (reads : g.net.reading j = true)
      (works : standing index (g.net.server.place (some j)) = .working) (block : JobItem)
      (pPacket : Bytes) :
      GameStep g (.recv (recvItem block (g.net.server.shared.slots index).sessionID pPacket))
        { g with system := { g.system with jobQueue := g.system.jobQueue ++
            [recvItem block (g.net.server.shared.slots index).sessionID pPacket] } }
  | system {event : SystemEvent} {system : System} (inner : Inner event)
      (step : SystemStep g.system event system) : GameStep g (.system event) { g with system := system }

end Steps

/-! ## The history of `JobQueue` -/

def joinsOf (items : List JobItem) : List Int64 :=
  items.filterMap fun item => if item.jobType = .onClientJoin then some item.sessionID else none

def leavesOf (items : List JobItem) : List Int64 :=
  items.filterMap fun item => if item.jobType = .onClientLeave then some item.sessionID else none

/-- A job comes where it should: the `JOIN` of a session first and once, its packets and
then its `LEAVE` after it, and nothing after that. -/
def Follows (before : List JobItem) (item : JobItem) : Prop :=
  match item.jobType with
  | .onClientJoin => item.sessionID ∉ joinsOf before
  | .onClientLeave | .onRecv => item.sessionID ∈ joinsOf before ∧ item.sessionID ∉ leavesOf before
  | _ => False

def Orderly (items : List JobItem) : Prop :=
  ∀ before item after, items = before ++ item :: after → Follows before item

section Histories
variable {items before after : List JobItem} {item : JobItem}

theorem joins_snoc (items : List JobItem) (item : JobItem) : joinsOf (items ++ [item]) =
    joinsOf items ++ if item.jobType = .onClientJoin then [item.sessionID] else [] := by
  rw [joinsOf, List.filterMap_append]
  congr 1
  by_cases type : item.jobType = .onClientJoin <;> simp [type]

theorem leaves_snoc (items : List JobItem) (item : JobItem) : leavesOf (items ++ [item]) =
    leavesOf items ++ if item.jobType = .onClientLeave then [item.sessionID] else [] := by
  rw [leavesOf, List.filterMap_append]
  congr 1
  by_cases type : item.jobType = .onClientLeave <;> simp [type]

theorem Orderly.first (orderly : Orderly (items ++ after)) : Orderly items := by
  intro before item rest same
  exact orderly before item (rest ++ after) (by rw [same, List.append_assoc, List.cons_append])

theorem orderly_snoc (orderly : Orderly items) (follows : Follows items item) :
    Orderly (items ++ [item]) := by
  intro before other after same
  rcases List.eq_nil_or_concat after with rfl | ⟨rest, last, rfl⟩
  · obtain ⟨rfl, single⟩ := List.append_inj' same rfl
    rwa [← (List.cons.inj single).1]
  · rw [List.concat_eq_append, ← List.cons_append, ← List.append_assoc] at same
    exact orderly before other rest (List.append_inj' same rfl).1

/-- Whoever has left has joined. -/
theorem leaves_subset (orderly : Orderly items) : leavesOf items ⊆ joinsOf items := by
  induction items using List.reverseRecOn with
  | nil => exact fun _ member => nomatch member
  | append_singleton items item ih =>
    intro id member
    have before := ih orderly.first
    have follows := orderly items item [] rfl
    rw [leaves_snoc, List.mem_append] at member
    rw [joins_snoc, List.mem_append]
    left
    rcases member with old | new
    · exact before old
    · by_cases type : item.jobType = .onClientLeave
      · rw [if_pos type] at new
        unfold Follows at follows
        rw [type] at follows
        rw [List.mem_singleton.mp new]
        exact follows.1
      · rw [if_neg type] at new
        cases new

end Histories

/-! ## The players -/

/-- The players are those whose `JOIN` has been done and whose `LEAVE` has not. -/
structure Seated (items : List JobItem) (s : Store) : Prop where
  keys : ∀ id, id ∈ s.playerList ↔ id ∈ joinsOf items ∧ id ∉ leavesOf items
  own : ∀ id player, s.playerList.find id = some player → player.sessionID = id ∧ player.isValid = true
  pool : s.playerList.size + (leavesOf items).length = (joinsOf items).length

theorem start_seated (auctions : AuctionRef → AuctionData) (packetType : UInt16) :
    Seated [] (.empty auctions packetType) :=
  ⟨fun id => by simp [joinsOf, Store.empty], fun _ _ found => (nomatch found), rfl⟩

section Players
variable {s s' : Store} {items : List JobItem} {item : JobItem} {env : JobEnv} {effects : List Effect}

/-- The same players, but for their accounts, nicknames and points. -/
structure SamePlayers (players players' : UnorderedMap Int64 Player) : Prop where
  keys : ∀ id, id ∈ players' ↔ id ∈ players
  own : ∀ id player', players'.find id = some player' → ∃ player, players.find id = some player ∧
    player'.sessionID = player.sessionID ∧ player'.isValid = player.isValid
  size : players'.size = players.size

theorem same_players (players : UnorderedMap Int64 Player) : SamePlayers players players :=
  ⟨fun _ => Iff.rfl, fun _ player found => ⟨player, found, rfl, rfl⟩, rfl⟩

theorem assign_players {players : UnorderedMap Int64 Player} {key : Int64} {player player' : Player}
    (known : players.find key = some player) (session : player'.sessionID = player.sessionID)
    (valid : player'.isValid = player.isValid) : SamePlayers players (players.assign key player') := by
  refine ⟨fun id => AList.mem_replace, fun id other found => ?_, UnorderedMap.size_assign ..⟩
  rw [UnorderedMap.find_assign] at found
  split at found
  · next same =>
    rw [known] at found
    cases found
    exact ⟨player, same ▸ known, session, valid⟩
  · exact ⟨other, found, rfl, rfl⟩

theorem SamePlayers.seated (same : SamePlayers s.playerList s'.playerList) (seated : Seated items s) :
    Seated items s' where
  keys := fun id => (same.keys id).trans (seated.keys id)
  own := fun id player' found => by
    obtain ⟨player, known, session, valid⟩ := same.own id player' found
    rw [session, valid]
    exact seated.own id player known
  pool := by rw [same.size, seated.pool]

/-- A packet leaves the players who they are. -/
theorem packet_players {locals : Locals} {player : Player} {pPacket : Bytes} {sessionID : Int64}
    {packetType : UInt16} (known : s.playerList.find sessionID = some player)
    (turn : Store.PacketTurn locals s player pPacket sessionID packetType s' effects) :
    SamePlayers s.playerList s'.playerList := by
  cases turn with
  | bid ownList _ _ => exact assign_players known rfl rfl
  | playerInfo nickName _ _ found _ => exact assign_players found rfl rfl
  | saleRefused | sale | search | bidRefused | changeNickname | unknownPlayer | unknownType =>
    exact same_players _

theorem update_players {env : UpdateEnv} (ran : s.update env = .ok (s', effects)) :
    SamePlayers s.playerList s'.playerList := by
  obtain ⟨_, _, _, _, rfl⟩ := Store.update_frame ran
  exact same_players _

theorem join_seated (seated : Seated items s) (type : item.jobType = .onClientJoin)
    (orderly : Orderly (items ++ [item])) : Seated (items ++ [item]) (s.clientJoin item.sessionID) := by
  have follows := orderly items item [] rfl
  unfold Follows at follows
  rw [type] at follows
  have unleft : item.sessionID ∉ leavesOf items := fun gone => follows (leaves_subset orderly.first gone)
  have new : item.sessionID ∉ s.playerList := fun there => follows ((seated.keys _).mp there).1
  have joins : joinsOf (items ++ [item]) = joinsOf items ++ [item.sessionID] := by
    simp [joins_snoc, type]
  have leaves : leavesOf (items ++ [item]) = leavesOf items := by simp [leaves_snoc, type]
  constructor
  case keys =>
    intro id
    rw [joins, leaves, List.mem_append, List.mem_singleton]
    refine (UnorderedMap.mem_emplace ..).trans ?_
    rw [seated.keys]
    constructor
    · rintro (rfl | ⟨joined, stays⟩)
      · exact ⟨.inr rfl, unleft⟩
      · exact ⟨.inl joined, stays⟩
    · rintro ⟨joined | rfl, stays⟩
      · exact .inr ⟨joined, stays⟩
      · exact .inl rfl
  case own =>
    intro id player found
    rcases UnorderedMap.find_emplace_some found with old | ⟨rfl, rfl⟩
    · exact seated.own id player old
    · exact ⟨rfl, rfl⟩
  case pool =>
    have size : (s.clientJoin item.sessionID).playerList.size = s.playerList.size + 1 :=
      (UnorderedMap.size_emplace ..).trans (if_neg new)
    have before := seated.pool
    rw [joins, leaves, size, List.length_append, List.length_singleton]
    omega

theorem leave_seated (seated : Seated items s) (type : item.jobType = .onClientLeave)
    (orderly : Orderly (items ++ [item])) {waitingDataList : UnorderedMap Int64 InitData} :
    Seated (items ++ [item])
      { s with waitingDataList, playerList := s.playerList.erase item.sessionID } := by
  have follows := orderly items item [] rfl
  unfold Follows at follows
  rw [type] at follows
  have there : item.sessionID ∈ s.playerList := (seated.keys _).mpr follows
  have joins : joinsOf (items ++ [item]) = joinsOf items := by simp [joins_snoc, type]
  have leaves : leavesOf (items ++ [item]) = leavesOf items ++ [item.sessionID] := by
    simp [leaves_snoc, type]
  constructor
  case keys =>
    intro id
    rw [joins, leaves, List.mem_append, List.mem_singleton, not_or]
    refine (UnorderedMap.mem_erase ..).trans ?_
    rw [seated.keys]
    tauto
  case own =>
    intro id player found
    rw [UnorderedMap.find_erase] at found
    split at found
    · cases found
    · exact seated.own id player found
  case pool =>
    have size := UnorderedMap.size_erase there
    have before := seated.pool
    dsimp only
    rw [joins, leaves, List.length_append, List.length_singleton]
    omega

/-- `LogicThread` takes the next job, which comes where it should. -/
theorem item_seated (seated : Seated items s) (orderly : Orderly (items ++ [item]))
    (ran : runItem s env item = .ok (s', effects)) : Seated (items ++ [item]) s' := by
  have follows := orderly items item [] rfl
  have stays (join : item.jobType ≠ .onClientJoin) (leave : item.jobType ≠ .onClientLeave)
      (same : SamePlayers s.playerList s'.playerList) : Seated (items ++ [item]) s' := by
    obtain ⟨keys, own, pool⟩ := same.seated seated
    refine ⟨fun id => ?_, own, ?_⟩ <;> simp [joins_snoc, leaves_snoc, join, leave, keys, pool]
  unfold Follows at follows
  unfold runItem JobItem.job at ran
  split at follows
  · next type =>
    rw [type] at ran
    cases Store.job_turn ran
    exact join_seated seated type orderly
  · next type =>
    rw [type] at ran
    cases Store.job_turn ran with
    | leaveUnknown unknown =>
      exact absurd ((seated.keys _).mpr follows) (UnorderedMap.find_eq_none.mp unknown)
    | leave known => exact leave_seated seated type orderly
  · next type =>
    rw [type] at ran
    refine stays (by simp [type]) (by simp [type]) ?_
    cases Store.job_turn ran with
    | dropped refused => exact same_players _
    | packet ret known own turn => exact packet_players (s := s.withType (s.readType item.pPacket).1) known turn
  · cases follows

end Players

/-! ## The calls of a slot -/

section Slots
variable {κ : Type*} {labels : List (Option κ × SessionLife.Event)}
  {v v' : Threads (Option κ) Slot Place} {label : Option κ × SessionLife.Event}

/-- A session joins after it has its number, and once. -/
structure Introduced (labels : List (Option κ × SessionLife.Event))
    (v : Threads (Option κ) Slot Place) : Prop where
  accepted : joined labels ⊆ accepted labels
  unjoined : numbering (v.place none) = true ∨ joining (v.place none) = true →
    v.shared.sessionID ∉ joined labels

theorem start_introduced (sessionID : Int64) : Introduced [] (start κ sessionID) where
  accepted := List.nil_subset _
  unjoined := fun _ member => nomatch member

variable [DecidableEq κ]

theorem introduced_step (introduced : Introduced labels v) (numbered : Numbered labels v)
    (step : Step v label v') (fresh : Fresh v label) : Introduced (labels ++ [label]) v' := by
  obtain ⟨accepts, unjoined⟩ := introduced
  obtain ⟨i, event⟩ := label
  obtain ⟨s, p, slot, rfl⟩ := step
  cases slot with
  | serve j slot =>
    obtain ⟨given, joins, _⟩ := event_step slot
    refine ⟨?_, ?_⟩
    · simpa [joined_snoc, accepted_snoc, joins, given] using accepts
    · rw [Threads.place_move_other _ _ _ _ (Option.some_ne_none j).symm, Threads.shared_move,
        (number_step slot).1, joined_snoc, joins, List.append_nil]
      exact unjoined
  | accept slot =>
    have opened := numbered.opened
    generalize v.place none = place at slot unjoined opened
    have ids := numbered.ids
    refine ⟨?_, ?_⟩
    · rw [joined_snoc, accepted_snoc]
      cases slot with
      | join =>
        have some : v.shared.ids ≠ [] := fun none => by
          have valid := (opened (.inl rfl)).1
          rw [(numbered.unnumbered none).1] at valid
          cases valid
        exact snoc_subset (List.Subset.trans accepts (List.subset_append_left _ _))
          (List.mem_append_left _ (ids ▸ numbered.current some))
      | _ =>
        simp only [Event.joinedID, List.append_nil]
        exact List.Subset.trans accepts (List.subset_append_left _ _)
    · rw [Threads.place_move_self, Threads.shared_move, joined_snoc]
      cases slot with
      | sessionID id =>
        intro _ old
        simp only [Event.joinedID, List.append_nil] at old
        exact fresh id (List.mem_singleton_self _) (ids ▸ accepts old)
      | enter | valid | flag =>
        intro _
        simp only [Event.joinedID, List.append_nil]
        exact unjoined (by first | exact .inl rfl | exact .inr rfl)
      | _ => exact fun within => by rcases within with early | late <;> contradiction

end Slots

/-! ## The calls of all slots -/

section Calls
variable {κ : Type*} {n : Nat} {labels : List (Option κ × Fin n × SessionLife.Event)}
  {index other : Fin n} {id : Int64}

/-- The sessions the handler was called for. -/
def allJoined (labels : List (Option κ × Fin n × SessionLife.Event)) : List Int64 :=
  labels.flatMap fun label => Event.joinedID label.2.2

def allLeft (labels : List (Option κ × Fin n × SessionLife.Event)) : List Int64 :=
  labels.flatMap fun label => Event.leftID label.2.2

theorem mem_ofSlot (f : SessionLife.Event → List Int64) :
    id ∈ (ofSlot index labels).flatMap (fun label => f label.2) ↔
      ∃ label ∈ labels, label.2.1 = index ∧ id ∈ f label.2.2 := by
  simp only [ofSlot, List.mem_flatMap, List.mem_filterMap]
  constructor
  · rintro ⟨_, ⟨label, member, same⟩, named⟩
    split at same
    · next here =>
      cases same
      exact ⟨label, member, here, named⟩
    · cases same
  · rintro ⟨label, member, here, named⟩
    exact ⟨_, ⟨label, member, if_pos here⟩, named⟩

theorem mem_all (f : SessionLife.Event → List Int64) :
    id ∈ labels.flatMap (fun label => f label.2.2) ↔
      ∃ index, id ∈ (ofSlot index labels).flatMap fun label => f label.2 := by
  rw [List.mem_flatMap]
  constructor
  · rintro ⟨label, member, named⟩
    exact ⟨_, (mem_ofSlot f).mpr ⟨label, member, rfl, named⟩⟩
  · rintro ⟨index, called⟩
    obtain ⟨label, member, _, named⟩ := (mem_ofSlot f).mp called
    exact ⟨label, member, named⟩

/-- A number is that of one slot. -/
theorem sole_slot (nodup : (given labels).Nodup) (here : id ∈ accepted (ofSlot index labels))
    (there : id ∈ accepted (ofSlot other labels)) : other = index := by
  obtain ⟨first, member, rfl, named⟩ := (mem_ofSlot Event.acceptedID).mp here
  obtain ⟨second, member', rfl, named'⟩ := (mem_ofSlot Event.acceptedID).mp there
  by_contra differs
  have symmetric : Std.Symm (Function.onFun List.Disjoint fun label : Option κ × Fin n × SessionLife.Event =>
      Event.acceptedID label.2.2) := ⟨fun _ _ apart => List.Disjoint.symm apart⟩
  have apart := (List.nodup_flatMap.mp nodup).2.forall member member' fun same => differs (by rw [same])
  exact apart named named'

/-- What is called for the number of a slot is called there. -/
theorem called_here {f : SessionLife.Event → List Int64} (nodup : (given labels).Nodup)
    (known : ∀ index, (ofSlot index labels).flatMap (fun label => f label.2) ⊆ accepted (ofSlot index labels))
    (here : id ∈ accepted (ofSlot index labels)) :
    id ∈ labels.flatMap (fun label => f label.2.2) ↔
      id ∈ (ofSlot index labels).flatMap fun label => f label.2 := by
  rw [mem_all]
  refine ⟨?_, fun called => ⟨index, called⟩⟩
  rintro ⟨other, called⟩
  rwa [← sole_slot nodup here (known other called)]

end Calls

section Nets
variable {κ : Type*} {n : Nat} {labels : List (Option κ × Fin n × SessionLife.Event)}
  {m m' : Net κ n} {items : List JobItem} {block : JobItem} {allocNum : Int64}

/-- What went into `JobQueue` against what happened on the network. -/
structure Recorded (labels : List (Option κ × Fin n × SessionLife.Event)) (items : List JobItem) : Prop where
  joins : joinsOf items = allJoined labels
  leaves : leavesOf items = allLeft labels
  orderly : Orderly items

/-- What holds as long as no number is given twice. -/
structure Told (labels : List (Option κ × Fin n × SessionLife.Event)) (m : Net κ n)
    (items : List JobItem) : Prop where
  turns : Turns m
  introduced : ∀ index, Introduced (ofSlot index labels) (view index m.server)
  recorded : Recorded labels items

variable [Fintype κ]

theorem told_joined (reached : Reached allocNum labels m.server) (few : (given labels).length ≤ 2 ^ 48)
    (told : Told labels m items) {index : Fin n} {id : Int64} (here : id ∈ accepted (ofSlot index labels)) :
    id ∈ joinsOf items ↔ id ∈ joined (ofSlot index labels) := by
  rw [told.recorded.joins]
  exact called_here (given_nodup reached.allocated few) (fun index => (told.introduced index).accepted) here

theorem told_left (reached : Reached allocNum labels m.server) (few : (given labels).length ≤ 2 ^ 48)
    (told : Told labels m items) {index : Fin n} {id : Int64} (here : id ∈ accepted (ofSlot index labels)) :
    id ∈ leavesOf items ↔ id ∈ left (ofSlot index labels) := by
  rw [told.recorded.leaves]
  refine called_here (given_nodup reached.allocated few) (fun index => ?_) here
  have numbered := reached.numbered few index
  exact numbered.ids ▸ numbered.leftKnown

variable [DecidableEq κ]

/-- The handler is called for a session that has not joined yet, or not left yet. -/
theorem handler_follows (reached : Reached allocNum labels m.server)
    (few : (given labels).length ≤ 2 ^ 48) (told : Told labels m items)
    {label : Option κ × Fin n × SessionLife.Event} {server : Threads (Option κ) (Server n) (Option (Fin n × Place))}
    (step : ServerStep m.server label server) : ∀ item ∈ handlerItems block label.2.2, Follows items item := by
  obtain ⟨i, index, event⟩ := label
  obtain ⟨s, p, slot, same⟩ := view_step step
  have numbered := reached.numbered few index
  have known := numbered.ids
  have leaver (j : κ) := leaver_numbered (j := j) (reached.kept index).2.choose_spec numbered
  have introduced := told.introduced index
  intro item member
  cases slot with
  | accept slot =>
    have opened := numbered.opened
    have unjoined := introduced.unjoined
    dsimp only at slot
    generalize (view index m.server).place none = place at slot opened unjoined
    cases slot with
    | join =>
      obtain rfl := List.mem_singleton.mp member
      have some : (view index m.server).shared.ids ≠ [] := fun none => by
        have valid := (opened (.inl rfl)).1
        rw [(numbered.unnumbered none).1] at valid
        cases valid
      exact fun old => unjoined (.inr rfl)
        ((told_joined reached few told (known ▸ numbered.current some)).mp old)
    | _ => cases member
  | serve j slot =>
    obtain ⟨_, joins, leaves⟩ := event_step slot
    dsimp only at slot joins leaves member
    cases event with
    | joined id => cases joins
    | left id =>
      obtain rfl := List.mem_singleton.mp member
      rcases leaves with none | ⟨_, here, same⟩
      · cases none
      · cases same
        obtain ⟨unleft, joined, ids, _⟩ := leaver j ⟨id, here⟩
        obtain rfl := numbered.cleaned j id (.inr here)
        have named := known ▸ ids
        exact ⟨(told_joined reached few told named).mpr joined,
          fun old => unleft ((told_left reached few told named).mp old)⟩
    | other | popped | accepted | pushed | recvFailed | unrequested => cases member

omit [DecidableEq κ] in
/-- A worker hands on the packets of a session that has joined and has not left. -/
theorem recv_follows (reached : Reached allocNum labels m.server)
    (few : (given labels).length ≤ 2 ^ 48) (told : Told labels m items) {j : κ} {index : Fin n}
    (reads : m.reading j = true) (works : standing index (m.server.place (some j)) = .working)
    (pPacket : Bytes) :
    Follows items (recvItem block (m.server.shared.slots index).sessionID pPacket) := by
  obtain ⟨turn, taken⟩ := told.turns.taken index
  have numbered := reached.numbered few index
  have place : (view index m.server).place (some j) = .working := works
  have mine := taken.reader j reads (by rw [place]; simp)
  obtain ⟨joined, unleft⟩ := live_of_holds numbered taken (by rw [mine]; rfl)
  have named := (told.introduced index).accepted joined
  exact ⟨(told_joined reached few told named).mpr joined,
    fun old => unleft ((told_left reached few told named).mp old)⟩

omit [Fintype κ] [DecidableEq κ] in
theorem recorded_net (recorded : Recorded labels items) {label : Option κ × Fin n × SessionLife.Event}
    (follows : ∀ item ∈ handlerItems block label.2.2, Follows items item) :
    Recorded (labels ++ [label]) (items ++ handlerItems block label.2.2) := by
  obtain ⟨joins, leaves, orderly⟩ := recorded
  unfold allJoined at joins
  unfold allLeft at leaves
  have quiet (none : handlerItems block label.2.2 = []) (unjoined : Event.joinedID label.2.2 = [])
      (unleft : Event.leftID label.2.2 = []) :
      Recorded (labels ++ [label]) (items ++ handlerItems block label.2.2) := by
    rw [none, List.append_nil]
    exact ⟨by simp [allJoined, joins, unjoined], by simp [allLeft, leaves, unleft], orderly⟩
  obtain ⟨i, index, event⟩ := label
  cases event with
  | joined id =>
    have next := orderly_snoc orderly (follows _ (List.mem_singleton_self _))
    exact ⟨by simp [allJoined, joins, handlerItems, joins_snoc, Event.joinedID],
      by simp [allLeft, leaves, handlerItems, leaves_snoc, Event.leftID], next⟩
  | left id =>
    have next := orderly_snoc orderly (follows _ (List.mem_singleton_self _))
    exact ⟨by simp [allJoined, joins, handlerItems, joins_snoc, Event.joinedID],
      by simp [allLeft, leaves, handlerItems, leaves_snoc, Event.leftID], next⟩
  | other | popped | accepted | pushed | recvFailed | unrequested => exact quiet rfl rfl rfl

omit [Fintype κ] [DecidableEq κ] in
theorem recorded_recv (recorded : Recorded labels items) {sessionID : Int64} {pPacket : Bytes}
    (follows : Follows items (recvItem block sessionID pPacket)) :
    Recorded labels (items ++ [recvItem block sessionID pPacket]) := by
  obtain ⟨joins, leaves, orderly⟩ := recorded
  exact ⟨by simp [joins_snoc, recvItem, joins], by simp [leaves_snoc, recvItem, leaves],
    orderly_snoc orderly follows⟩

/-- What a step of the network keeps. -/
theorem told_net (reached : Reached allocNum labels m.server)
    {label : Option κ × Fin n × SessionLife.Event} (told : Told labels m items)
    (step : NetStep m label m') (allocated : Allocated allocNum (labels ++ [label]) m'.server.shared.sessionAllocNum)
    (few : (given (labels ++ [label])).length ≤ 2 ^ 48) :
    Told (labels ++ [label]) m' (items ++ handlerItems block label.2.2) := by
  have before := few_of_snoc few
  have numbered := reached.numbered before
  refine ⟨turns_step told.turns reached.kept numbered step, ?_,
    recorded_net told.recorded (handler_follows reached before told step.server)⟩
  obtain ⟨i, index, event⟩ := label
  have slot := view_step step.server
  exact slots_step (P := Introduced) labels told.introduced step.server
    (introduced_step (told.introduced index) (numbered index) slot
      (given_fresh (numbered index) allocated few))

end Nets

/-! ## Runs -/

section Runs
variable {κ : Type*} {n : Nat} {g : Game κ n} {labels : List (GameEvent κ n)}
  {sessionIDs : Fin n → Int64} {allocNum : Int64} {auctions : AuctionRef → AuctionData} {packetType : UInt16}

/-- What the network did. -/
def GameEvent.network : GameEvent κ n → Option (Option κ × Fin n × SessionLife.Event)
  | .net label _ => some label
  | _ => none

def networkLabels (labels : List (GameEvent κ n)) : List (Option κ × Fin n × SessionLife.Event) :=
  labels.filterMap GameEvent.network

/-- The jobs an event puts into `JobQueue`, and the one it takes off. -/
def GameEvent.entered : GameEvent κ n → List JobItem
  | .net label block => handlerItems block label.2.2
  | .recv item => [item]
  | .system _ => []

def GameEvent.processed : GameEvent κ n → List JobItem
  | .system event => processedItem event
  | _ => []

/-- `LogicThread` finds the player of a job as the job expects it. -/
def Meets (item : JobItem) (s : Store) : Prop :=
  match item.jobType with
  | .onClientJoin => item.sessionID ∉ s.playerList
  | .onClientLeave => item.sessionID ∈ s.playerList
  | .onRecv => ∃ player, s.playerList.find item.sessionID = some player ∧
      player.sessionID = item.sessionID ∧ player.isValid = true
  | _ => False

/-- The players are the sessions, as far as the jobs have come. -/
structure Matched (labels : List (GameEvent κ n)) (g : Game κ n) : Prop where
  recorded : Recorded (networkLabels labels) (labels.flatMap GameEvent.entered)
  queue : labels.flatMap GameEvent.entered = labels.flatMap GameEvent.processed ++ g.system.jobQueue
  seated : Seated (labels.flatMap GameEvent.processed) g.system.store
  next : ∀ item rest, g.system.jobQueue = item :: rest → Meets item g.system.store

theorem seated_meets {items : List JobItem} {item : JobItem} {s : Store} (seated : Seated items s)
    (follows : Follows items item) : Meets item s := by
  unfold Follows at follows
  unfold Meets
  split at follows
  · exact fun there => follows ((seated.keys _).mp there).1
  · exact (seated.keys _).mpr follows
  · obtain ⟨player, found⟩ := UnorderedMap.find_of_mem ((seated.keys _).mpr follows)
    exact ⟨player, found, seated.own _ _ found⟩
  · cases follows

/-- The database thread puts nothing into `JobQueue`. -/
theorem answer_unqueued {job : DBCheckJob} {row : Option Int64} {block : JobItem}
    {effects : List DBEffect} (ran : dbAccess job row block = .ok effects) : enqueuedItems effects = [] := by
  obtain ⟨_, _, ran⟩ := bind_ok.mp ran
  obtain ⟨_, _, ran⟩ := bind_ok.mp ran
  obtain rfl := Except.ok.inj ran
  cases job.jobType with
  | nicknameChangeCheck | nicknameRegisterCheck | nicknameSold =>
    dsimp only
    split <;> rfl
  | _ => rfl

variable [DecidableEq κ]

theorem queue_step (g : Game κ n) (label : GameEvent κ n) (g' : Game κ n) (step : GameStep g label g') :
    g.system.jobQueue ++ label.entered = label.processed ++ g'.system.jobQueue := by
  cases step with
  | net step block => rfl
  | recv reads works block pPacket => rfl
  | system inner step =>
    refine (List.append_nil _).trans ?_
    cases step with
    | network => cases inner
    | logic next _ _ _ => exact next
    | answered _ ran _ =>
      dsimp only
      rw [answer_unqueued ran, List.append_nil]
      rfl
    | update | enqueue | thread => rfl

/-- `LogicThread` and the database thread on the players. -/
theorem system_seated {items : List JobItem} {s s' : System} {event : SystemEvent} (inner : Inner event)
    (step : SystemStep s event s') (seated : Seated items s.store) (orderly : Orderly (items ++ s.jobQueue)) :
    Seated (items ++ processedItem event) s'.store := by
  cases step with
  | network => cases inner
  | logic next _ _ ran =>
    rw [next, List.append_cons] at orderly
    exact item_seated seated orderly.first ran
  | update _ _ _ ran =>
    simp only [processedItem, List.append_nil]
    exact (update_players ran).seated seated
  | enqueue | thread | answered =>
    simp only [processedItem, List.append_nil]
    exact seated

omit [DecidableEq κ] in
theorem network_snoc (labels : List (GameEvent κ n)) (label : GameEvent κ n) :
    networkLabels (labels ++ [label]) = networkLabels labels ++ label.network.toList := by
  rw [networkLabels, List.filterMap_append]
  rfl

/-- What the run has kept. -/
structure Matching [Fintype κ] (allocNum : Int64) (labels : List (GameEvent κ n)) (g : Game κ n) : Prop where
  reached : Reached allocNum (networkLabels labels) g.net.server
  queue : labels.flatMap GameEvent.entered = labels.flatMap GameEvent.processed ++ g.system.jobQueue
  told : (given (networkLabels labels)).length ≤ 2 ^ 48 →
    Told (networkLabels labels) g.net (labels.flatMap GameEvent.entered) ∧
      Seated (labels.flatMap GameEvent.processed) g.system.store

variable [Fintype κ]

theorem kept_game {g' : Game κ n} {label : GameEvent κ n} (within : n ≤ maxSession)
    (kept : Matching allocNum labels g) (step : GameStep g label g') : Matching allocNum (labels ++ [label]) g' := by
  obtain ⟨reached, queue, told⟩ := kept
  have queued : (labels ++ [label]).flatMap GameEvent.entered =
      (labels ++ [label]).flatMap GameEvent.processed ++ g'.system.jobQueue := by
    simp only [List.flatMap_append, List.flatMap_singleton]
    rw [queue, List.append_assoc, List.append_assoc, queue_step g label g' step]
  cases step with
  | @net label net step block =>
    have network : networkLabels (labels ++ [.net label block]) = networkLabels labels ++ [label] :=
      network_snoc labels _
    refine ⟨?_, queued, fun few => ?_⟩
    · rw [network]
      exact reached_step within reached step.server
    · rw [network] at few ⊢
      obtain ⟨told, seated⟩ := told (few_of_snoc few)
      simp only [List.flatMap_append, List.flatMap_singleton, GameEvent.entered, GameEvent.processed,
        List.append_nil]
      exact ⟨told_net reached told step (allocated_step within reached.allocated step.server) few, seated⟩
  | @recv j index reads works block pPacket =>
    have network : networkLabels (labels ++ [GameEvent.recv (recvItem block
        (g.net.server.shared.slots index).sessionID pPacket)]) = networkLabels labels :=
      (network_snoc labels _).trans (List.append_nil _)
    refine ⟨by rw [network]; exact reached, queued, fun few => ?_⟩
    rw [network] at few ⊢
    obtain ⟨told, seated⟩ := told few
    have follows : Follows _ (recvItem block (g.net.server.shared.slots index).sessionID pPacket) :=
      recv_follows reached few told reads works pPacket
    simp only [List.flatMap_append, List.flatMap_singleton, GameEvent.entered, GameEvent.processed,
      List.append_nil]
    exact ⟨⟨told.turns, told.introduced, recorded_recv told.recorded follows⟩, seated⟩
  | @system event system inner step =>
    have network : networkLabels (labels ++ [GameEvent.system event]) = networkLabels labels :=
      (network_snoc labels _).trans (List.append_nil _)
    refine ⟨by rw [network]; exact reached, queued, fun few => ?_⟩
    rw [network] at few ⊢
    obtain ⟨told, seated⟩ := told few
    simp only [List.flatMap_append, List.flatMap_singleton, GameEvent.entered, GameEvent.processed,
      List.append_nil]
    exact ⟨told, system_seated inner step seated (queue ▸ told.recorded.orderly)⟩

/-- In every run the players are the sessions, as far as `LogicThread` has come: every job
finds its player as it expects it. -/
theorem players_are_sessions (within : n ≤ maxSession)
    (run : Run GameStep (Game.start κ sessionIDs allocNum auctions packetType) labels g)
    (few : (given (networkLabels labels)).length ≤ 2 ^ 48) : Matched labels g := by
  have start : Matching allocNum [] (Game.start κ sessionIDs allocNum auctions packetType) :=
    { reached := start_reached sessionIDs allocNum
      queue := rfl
      told := fun _ => ⟨⟨start_turns sessionIDs allocNum, fun index => start_introduced (sessionIDs index),
        ⟨rfl, rfl, fun before item after same => by cases before <;> cases same⟩⟩,
        start_seated auctions packetType⟩ }
  obtain ⟨_, queue, told⟩ := run.history (fun _ _ _ _ kept step => kept_game within kept step) start
  obtain ⟨told, seated⟩ := told few
  refine ⟨told.recorded, queue, seated, fun item rest next => ?_⟩
  exact seated_meets seated (told.recorded.orderly _ item rest (by rw [queue, next]))

/-! ## Runs of the network -/

omit [Fintype κ] in
/-- The handler's calls of a run of the network go into `JobQueue`. -/
theorem game_run {m m' : Net κ n} {moves : List (Option κ × Fin n × SessionLife.Event)}
    (run : Run NetStep m moves m') (system : System) (block : JobItem) :
    Run GameStep ⟨m, system⟩ (moves.map fun label => .net label block)
      ⟨m', { system with
        jobQueue := system.jobQueue ++ moves.flatMap fun label => handlerItems block label.2.2 }⟩ := by
  induction run generalizing system with
  | nil m =>
    rw [List.flatMap_nil, List.append_nil]
    exact .nil _
  | @cons m m' m'' label moves step _ ih =>
    have later := ih { system with jobQueue := system.jobQueue ++ handlerItems block label.2.2 }
    rw [List.append_assoc] at later
    exact .cons (.net step block) later

end Runs

/-- The first session, and its player. -/
theorem first_player_seated : ∃ labels g,
    Run GameStep (Game.start (Fin 1) (fun _ : Fin 1 => 0) 0 (fun _ => .zero) 0) labels g ∧
      newSessionID 0 0 ∈ g.system.store.playerList ∧ Matched labels g := by
  let places : Option (Fin 1) → Option (Fin 1 × Place) := fun _ => none
  have here : places none = stand 0 .idle := rfl
  have joins : AloneStep (none : Option (Fin 1))
      ⟨session (newSessionID 0 0) 1 0 0 [newSessionID 0 0], [], 1, .acceptJoin⟩
      (.joined (newSessionID 0 0)) ⟨session (newSessionID 0 0) 1 0 0 [newSessionID 0 0], [], 1, .acceptRecv⟩ :=
    alone_accept (.join _) (.other _ _ (by simp) (by simp) (by simp))
  have opens := (accept_opens (κ := Fin 1) 0 SessionSlot.delflagOff [] 0).append (.single joins)
  obtain ⟨m, moves, same⟩ := net_run (by decide) (alone_run here opens) (by decide)
  have told := game_run moves (.start (fun _ => .zero) 0) joinItem
  have seats := told.append (.single (.system (show Inner (.logic _ (.zero 0)) from trivial)
    (.logic rfl rfl rfl rfl)))
  refine ⟨_, _, seats, ?_, players_are_sessions (by decide) seats (by decide)⟩
  exact (UnorderedMap.mem_emplace ..).mpr (.inl rfl)

end NewNameAuction.PlayerSessions
