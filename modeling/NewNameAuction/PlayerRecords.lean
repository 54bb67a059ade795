import NewNameAuction.AccountIdentity

/-! Whose record a packet can write. The packets of a client write the record of
the player of their session; player information, which a game server sends, names
the player itself, and the server keeps no note of which sessions are game servers. -/
namespace NewNameAuction.PlayerRecords
open Store ByteMemory

/-- A record after a packet is as before, or as player information about it left it:
with the points of the packet and the nickname copied from its field. -/
structure Confined (s : Store) (env : JobEnv) (payload : Bytes) (key : Int64)
    (pPlayer pPlayer' : Player) : Prop where
  accountNo : pPlayer'.accountNo = pPlayer.accountNo
  named : pPlayer' = pPlayer ∨ (s.readType payload).1 = 10 ∧
    key = readAccount env.locals (s.readType payload).2 ∧
    ∃ nickName, wcscpyS (localString env.locals (readInfo env.locals (s.readType payload).2).2) =
        .ok nickName ∧
      pPlayer' = informed pPlayer (readInfo env.locals (s.readType payload).2).1 nickName

section Packets
variable {s s' : Store} {env : JobEnv} {sessionID key : Int64} {payload : Bytes} {pPlayer : Player}
  {effects : List Effect}

private theorem kept_confined (known : s.playerList.find key = some pPlayer)
    (same : s'.playerList.find key = s.playerList.find key) :
    ∃ pPlayer', s'.playerList.find key = some pPlayer' ∧
      Confined s env payload key pPlayer pPlayer' :=
  ⟨pPlayer, same.trans known, rfl, .inl rfl⟩

/-- A packet on one session writes no record of another player, unless it is
player information: that writes its points and its nickname to the player it names,
and never an account number. -/
theorem others_confined (ran : s.runJob env (.onRecv sessionID payload) = .ok (s', effects))
    (other : key ≠ sessionID) (known : s.playerList.find key = some pPlayer) :
    ∃ pPlayer', s'.playerList.find key = some pPlayer' ∧
      Confined s env payload key pPlayer pPlayer' := by
  cases job_turn ran with
  | dropped refused => exact kept_confined known rfl
  | packet ret found own turn =>
    cases turn with
    | saleRefused type => exact kept_confined known rfl
    | sale terms job type check => exact kept_confined known rfl
    | search replies type => exact kept_confined known rfl
    | bidRefused type refused => exact kept_confined known rfl
    | bid ownList type accepted =>
      refine kept_confined known ?_
      dsimp only [acceptBid]
      rw [UnorderedMap.find_assign, if_neg other]
      rfl
    | changeNickname ownList job type check => exact kept_confined known rfl
    | unknownPlayer type unknown => exact kept_confined known rfl
    | unknownType untyped => exact kept_confined known rfl
    | @playerInfo found' nickName replies type named copied =>
      by_cases here : key = readAccount env.locals (s.readType payload).2
      · have same : found' = pPlayer := by
          rw [← here] at named
          exact Option.some.inj (named.symm.trans known)
        refine ⟨informed found' (readInfo env.locals (s.readType payload).2).1 nickName, ?_, ?_,
          .inr ⟨type, here, nickName, copied, ?_⟩⟩
        · dsimp only
          rw [UnorderedMap.find_assign, if_pos here, named, Option.map_some]
        · rw [same]
          rfl
        · rw [same]
      · refine kept_confined known ?_
        dsimp only
        rw [UnorderedMap.find_assign, if_neg here]
        rfl

end Packets

/-! ## Player information from a client -/

/-- Player information about player 6, sent by player 5, gives player 6 its points and
its name, and leaves player 7 alone. -/
theorem info_leaves_third : ∃ (s s' : Store) (effects : List Effect) (six six' seven : Player),
    s.runJob (.zero 0) (.onRecv 5 (AccountIdentity.playerInfo 6)) = .ok (s', effects) ∧
    s.playerList.find 6 = some six ∧ s'.playerList.find 6 = some six' ∧
    six.point = 0 ∧ six'.point = 100 ∧
    Confined s (.zero 0) (AccountIdentity.playerInfo 6) 6 six six' ∧
    s.playerList.find 7 = some seven ∧ s'.playerList.find 7 = some seven := by
  have run : ∃ (s s' : Store) (effects : List Effect) (six' : Player),
      s.runJob (.zero 0) (.onRecv 5 (AccountIdentity.playerInfo 6)) = .ok (s', effects) ∧
      s.playerList.find 6 = some (joined 6) ∧ s'.playerList.find 6 = some six' ∧
      six'.point = 100 ∧ s.playerList.find 7 = some (joined 7) :=
    ⟨(((empty (fun _ => .zero) 0).clientJoin 5).clientJoin 6).clientJoin 7, _, _, _, rfl, rfl, rfl,
      rfl, rfl⟩
  obtain ⟨s, s', effects, six', ran, known, after, points, third⟩ := run
  obtain ⟨written, found, confined⟩ := others_confined ran (by decide : (6 : Int64) ≠ 5) known
  obtain ⟨seven', kept, left⟩ := others_confined ran (by decide : (7 : Int64) ≠ 5) third
  have same : seven' = joined 7 := by
    rcases left.named with same | ⟨_, named, _⟩
    · exact same
    · exact absurd (show (7 : Int64) = 6 from named) (by decide)
  rw [after] at found
  obtain rfl := Option.some.inj found
  exact ⟨s, s', effects, joined 6, six', joined 7, ran, known, after, rfl, points, confined, third,
    same ▸ kept⟩

/-- Player information sent by player 5 gives player 6 a hundred points and the
name "A". -/
theorem info_writes_other : ∃ s s' effects pPlayer pPlayer',
    Run Steps (.empty (fun _ => .zero) 0)
      [.job (.onClientJoin 5) (.zero 0), .job (.onClientJoin 6) (.zero 0)] s ∧
    s.runJob (.zero 0) (.onRecv 5 (AccountIdentity.playerInfo 6)) = .ok (s', effects) ∧
    s.playerList.find 6 = some pPlayer ∧ s'.playerList.find 6 = some pPlayer' ∧
    pPlayer.point = 0 ∧ pPlayer'.point = 100 ∧ pPlayer.nickName.chars = [78, 85, 76, 76] ∧
    pPlayer'.nickName.chars = [65] :=
  ⟨_, _, _, _, _, .cons ⟨_, rfl⟩ (.single ⟨_, rfl⟩), rfl, rfl, rfl, rfl, rfl, rfl, rfl⟩

end NewNameAuction.PlayerRecords
