import NewNameAuction.AccountSlots

/-! The ten `WCHAR`s of a nickname field, read as a string. A field from a packet
need not hold a terminator; what a procedure then reads depends on how it uses the
field. Nicknames that are stored come from terminated fields, or from names of
auctions, and can be copied back into a field anywhere. -/
namespace NewNameAuction
open ByteMemory

/-! ## Strings in a buffer -/

theorem cString_terminated {field : List UInt16} (zero : 0 ∈ field) (beyond : List UInt16) :
    cString (field ++ beyond) = cString field := by
  unfold cString
  induction field with
  | nil => cases zero
  | cons w field ih =>
    rw [List.cons_append, List.takeWhile_cons, List.takeWhile_cons]
    split
    · rename_i plain
      rcases List.mem_cons.mp zero with here | later
      · rw [← here] at plain
        cases plain
      · rw [ih later]
    · rfl

theorem cString_unterminated {field : List UInt16} (plain : 0 ∉ field) (beyond : List UInt16) :
    cString (field ++ beyond) = field ++ cString beyond :=
  List.takeWhile_append_of_pos fun _ member =>
    decide_eq_true fun zero => plain (zero ▸ member)

theorem length_cString_lt {field : List UInt16} (zero : 0 ∈ field) :
    (cString field).length < field.length := by
  refine Nat.lt_of_le_of_ne (List.takeWhile_prefix _).length_le fun same => ?_
  have whole : cString field = field := (List.takeWhile_prefix _).eq_of_length same
  exact zero_notMem_cString field (whole.symm ▸ zero)

theorem wcscpyS_cString (words : List UInt16) : wcscpyS (cString words) = wcscpyS words := by
  have same : cString (cString words) = cString words := by
    unfold cString
    rw [List.takeWhile_takeWhile]
    simp
  unfold wcscpyS
  simp only [same]

theorem length_wideChars (bytes : Bytes) : (wideChars bytes).length = bytes.length / 2 := by
  fun_induction wideChars bytes with
  | case1 low high rest ih =>
    rw [List.length_cons, ih, List.length_cons, List.length_cons]
    omega
  | case2 bytes short =>
    rcases bytes with _ | ⟨low, _ | ⟨high, rest⟩⟩
    · rfl
    · simp
    · exact absurd rfl (short low high rest)

/-! ## Uses of a field -/

/-- How many `WCHAR`s of `words` `wcscmp(string, words)` reads: up to the first
difference, or the terminator of both. -/
def compareReach : List UInt16 → List UInt16 → Nat
  | c :: string, w :: words => if c = w ∧ w ≠ 0 then compareReach string words + 1 else 1
  | _, _ => 0

/-- What a procedure does with its nickname field. -/
inductive FieldUse
  /-- `wcscmp` with a nickname of the server. -/
  | compare (nickName : NickName)
  /-- A `wstring` made of it or assigned from it, or `%s`. -/
  | string
  /-- `wcscpy_s` into a nickname field. -/
  | copy

/-- How many `WCHAR`s a use reads. `wcscpy_s` stops when the destination is full. -/
def FieldUse.reach (words : List UInt16) : FieldUse → Nat
  | compare nickName => compareReach (nickName.chars ++ [0]) words
  | string => (cString words).length + 1
  | copy => min ((cString words).length + 1) nicknameMaxLength

theorem compareReach_le (string words : List UInt16) : compareReach string words ≤ string.length := by
  fun_induction compareReach string words with
  | case1 c string w words same ih => exact Nat.succ_le_succ ih
  | case2 c string w words differ => exact Nat.succ_le_succ (Nat.zero_le _)
  | case3 => exact Nat.zero_le _

section Reach
variable {field : List UInt16} (beyond : List UInt16)

/-- `wcscmp` stays in the field, as the other string ends first. -/
theorem compare_within (nickName : NickName) (words : List UInt16) :
    (FieldUse.compare nickName).reach words ≤ nicknameMaxLength := by
  have shorter := compareReach_le (nickName.chars ++ [0]) words
  rw [List.length_append] at shorter
  exact Nat.le_trans shorter nickName.fits

theorem copy_within (words : List UInt16) : FieldUse.copy.reach words ≤ nicknameMaxLength :=
  Nat.min_le_right _ _

theorem string_within_iff (whole : field.length = nicknameMaxLength) :
    FieldUse.string.reach (field ++ beyond) ≤ nicknameMaxLength ↔ 0 ∈ field := by
  dsimp only [FieldUse.reach]
  rw [← whole]
  refine ⟨fun within => ?_, fun zero => ?_⟩
  · by_contra plain
    rw [cString_unterminated plain, List.length_append] at within
    omega
  · rw [cString_terminated zero]
    exact length_cString_lt zero

theorem terminated_within (whole : field.length = nicknameMaxLength) (zero : 0 ∈ field)
    (use : FieldUse) : use.reach (field ++ beyond) ≤ nicknameMaxLength := by
  cases use with
  | compare nickName => exact compare_within nickName _
  | string => exact (string_within_iff beyond whole).mpr zero
  | copy => exact copy_within _

/-- `wcscpy_s` takes a field with a terminator, and aborts on one without. -/
theorem wcscpyS_field_iff (whole : field.length = nicknameMaxLength) :
    wcscpyS (cString (field ++ beyond)) ≠ .error .abort ↔ 0 ∈ field := by
  rw [wcscpyS_cString, wcscpyS]
  refine ⟨fun copied => ?_, fun zero => ?_⟩
  · by_contra plain
    rw [dif_neg] at copied
    · exact copied rfl
    · rw [cString_unterminated plain, List.length_append]
      omega
  · rw [dif_pos]
    · exact fun failed => by cases failed
    · rw [cString_terminated zero, ← whole]
      exact length_cString_lt zero

end Reach

/-! ## Stored nicknames -/

/-- A string that fits a nickname field. -/
def Fits (wstr : WString) : Prop := ∃ nickName : NickName, nickName.chars = wstr

/-- The keys of the auctions that run. -/
structure AuctionBook.ShortKeys (b : AuctionBook) : Prop where
  cells : ∀ wstr ∈ b.cellList, Fits wstr
  imminent : ∀ wstr ∈ b.imminentList, Fits wstr

section Keys
variable {b b' : AuctionBook}

theorem AuctionBook.ShortKeys.found (short : b.ShortKeys) {wstr : WString} {pData : AuctionRef}
    (found : b.find wstr = some pData) : Fits wstr :=
  (AuctionBook.mem_of_find found).elim (short.cells wstr) (short.imminent wstr)

theorem AuctionBook.ShortKeys.step {event : AuctionBook.Event} (short : b.ShortKeys)
    (taken : AuctionBook.Step b event b') : b'.ShortKeys := by
  cases taken with
  | registered sale noBidder noBid =>
    refine ⟨fun wstr member => ?_, short.imminent⟩
    rw [AuctionBook.cellList_register, UnorderedMap.mem_emplace] at member
    rcases member with rfl | old
    · exact ⟨_, rfl⟩
    · exact short.cells wstr old
  | bid found higher other => exact ⟨short.cells, short.imminent⟩
  | @imminent key pData draw found =>
    refine ⟨fun wstr member => ?_, fun wstr member => ?_⟩
    · rw [AuctionBook.cellList_moveToImminent, UnorderedMap.mem_erase] at member
      exact short.cells wstr member.2
    · rw [AuctionBook.imminentList_moveToImminent, UnorderedMap.mem_emplace] at member
      rcases member with rfl | old
      · exact short.cells wstr (UnorderedMap.mem_of_find found)
      · exact short.imminent wstr old
  | ended found =>
    refine ⟨fun wstr member => ?_, fun wstr member => ?_⟩
    · rw [AuctionBook.cellList_finish] at member
      exact short.cells wstr member
    · rw [AuctionBook.imminentList_finish, UnorderedMap.mem_erase] at member
      exact short.imminent wstr member.2

end Keys

namespace Store

/-- All names of the store that `wcscpy_s` may be given. -/
structure ShortNames (s : Store) : Prop where
  keys : s.toAuctionBook.ShortKeys
  slots : ∀ accountNo, ∀ wstr ∈ (s.slotsOf accountNo).nickNames, Fits wstr

section ShortNames
variable {s s' : Store} {effects : List Effect}

theorem ShortNames.players (short : s.ShortNames) (playerList : UnorderedMap Int64 Player) :
    ShortNames { s with playerList } := ⟨short.keys, short.slots⟩

private theorem change_loop_subset (turns i : Nat) {slots slots' : NickNameList}
    (ran : changeLoop turns i slots = .ok slots') : slots'.nickNames ⊆ slots.nickNames := by
  induction turns generalizing i slots with
  | zero =>
    obtain rfl := Except.ok.inj ran
    exact List.Subset.refl _
  | succ turns ih =>
    rw [changeLoop] at ran
    split at ran
    · split at ran
      · cases ran
      · refine List.Subset.trans (ih _ ran) ?_
        dsimp only
        split
        · exact List.eraseIdx_subset
        · exact List.Subset.refl _
    · obtain rfl := Except.ok.inj ran
      exact List.Subset.refl _

private theorem pushed_short {slots : NickNameList} (short : ∀ wstr ∈ slots.nickNames, Fits wstr)
    {name : WString} (fits : Fits name) : ∀ wstr ∈ (slots.push name).nickNames, Fits wstr := by
  intro wstr member
  rcases List.mem_append.mp member with old | new
  · exact short wstr old
  · rw [List.mem_singleton.mp new]
    exact fits

private theorem short_job {env : JobEnv} {job : Job} (short : s.ShortNames)
    (ran : s.runJob env job = .ok (s', effects)) : s'.ShortNames := by
  refine ⟨?_, fun accountNo => ?_⟩
  · obtain ⟨_, moved⟩ := job_event ran
    split at moved
    · exact moved.symm ▸ short.keys
    · exact short.keys.step moved
  · have old := short.slots accountNo
    have change := slot_change ran accountNo
    generalize s'.slotsOf accountNo = slots' at change
    cases change with
    | kept => exact old
    | bid accepted account found free => exact pushed_short old (short.keys.found found)
    | requested request => exact old
    | changed job ran => exact fun wstr member => old wstr (change_loop_subset _ _ ran member)
    | registered made owner => exact pushed_short old ⟨_, rfl⟩

private theorem short_update {env : UpdateEnv} (short : s.ShortNames)
    (ran : s.update env = .ok (s', effects)) : s'.ShortNames := by
  refine ⟨?_, fun accountNo => ?_⟩
  · exact update_book ran (fun b wstr pData keys found => keys.step (.imminent found))
      (fun b wstr pData keys found => keys.step (.ended found)) short.keys
  · rw [update_slots ran]
    exact short.slots accountNo

/-- No store of a run holds a name that does not fit a nickname field. -/
theorem short_names_reachable {auctions : AuctionRef → AuctionData} {packetType : UInt16}
    {steps : List LogicStep} (reached : Run Steps (.empty auctions packetType) steps s) :
    s.ShortNames := by
  refine reached.invariant ?_ ⟨⟨fun wstr member => ?_, fun wstr member => ?_⟩, fun _ wstr member => ?_⟩
  · rintro s (⟨job, env⟩ | env) s' short ⟨effects, ran⟩
    · exact short_job short ran
    · exact short_update short ran
  · exact absurd member (AList.notMem_empty wstr)
  · exact absurd member (AList.notMem_empty wstr)
  · cases member

end ShortNames

/-! ## The procedures -/

section Uses
variable (locals : Locals) (s : Store) (pPlayer : Player) (pPacket : Bytes) (packetType : UInt16)

/-- The local that a procedure's `GetData` leaves. Only `RES_PLAYER_INFO` has
other fields before the nickname. -/
def readNickName : List UInt16 :=
  if packetType = 10 then
    (getNickName locals.nickName (getInt32 locals.point (getInt64 locals.accountNo pPacket).2).2).1
  else (getNickName locals.nickName pPacket).1

/-- What a procedure does with the local, in order. A sale request under another
name is logged with both names. -/
def fieldUses : List FieldUse :=
  if packetType = 1 then
    .compare pPlayer.nickName ::
      if pPlayer.nickName.chars ≠ localString locals (readNickName locals pPacket packetType) then
        [.string]
      else [.copy]
  else if packetType = 3 then [.string]
  else if packetType = 5 then
    if pPlayer.point ≠ (readBid locals pPacket).2 then [] else [.string]
  else if packetType = 8 then [.string, .copy]
  else if packetType = 10 then
    match s.playerList.find (readAccount locals pPacket) with
    | none => []
    | some _ => [.copy]
  else []

/-- Where the nickname field of a packet lies behind the type. -/
def fieldStart : Nat := if packetType = 10 then 12 else 0

/-- The nickname field of a packet. -/
def nickNameField : List UInt16 :=
  wideChars ((pPacket.drop (fieldStart packetType)).take (2 * nicknameMaxLength))

/-- The packet reaches to the end of its nickname field. -/
def HoldsField : Prop := fieldStart packetType + 2 * nicknameMaxLength ≤ pPacket.length

/-- A packet is handled inside its nickname field and without an abort. -/
def HandledWithin (env : JobEnv) (sessionID : Int64) (payload : Bytes) : Prop :=
  let (packetType, pPacket) := s.readType payload
  (∀ use ∈ s.fieldUses env.locals pPlayer pPacket packetType,
    use.reach (readNickName env.locals pPacket packetType ++ env.locals.beyond) ≤
      nicknameMaxLength) ∧
  s.runJob env (.onRecv sessionID payload) ≠ .error .abort

end Uses

section Procedures
variable {locals : Locals} {block : DBCheckJob} {s : Store} {pPlayer : Player} {pPacket : Bytes}
  {sessionID : Int64} {packetType : UInt16}

theorem length_nickNameField (holds : HoldsField pPacket packetType) :
    (nickNameField pPacket packetType).length = nicknameMaxLength := by
  unfold nickNameField
  unfold HoldsField at holds
  rw [length_wideChars, List.length_take, List.length_drop, Nat.min_eq_left (by omega)]
  exact Nat.mul_div_cancel_left _ (by decide)

/-- A whole field is what the procedure reads. -/
theorem read_nick_name_field (locals : Locals) (holds : HoldsField pPacket packetType) :
    readNickName locals pPacket packetType = nickNameField pPacket packetType := by
  unfold HoldsField fieldStart at holds
  unfold readNickName nickNameField fieldStart
  have size : 2 * nicknameMaxLength = 20 := rfl
  rw [size] at holds ⊢
  split
  · rename_i info
    rw [if_pos info] at holds
    have account : (getInt64 locals.accountNo pPacket).2 = pPacket.drop 8 := by
      rw [getInt64, extract_whole (by omega)]
    have point : (getInt32 locals.point (pPacket.drop 8)).2 = pPacket.drop 12 := by
      rw [getInt32, extract_whole (by rw [List.length_drop]; omega), List.drop_drop]
    rw [account, point, getNickName, size, extract_whole (by rw [List.length_drop]; omega)]
  · rename_i other
    rw [if_neg other] at holds
    rw [getNickName, size, extract_whole (by omega), List.drop_zero]

/-! ### What cannot abort -/

private theorem check_names_runs (wstr : WString) (count : Nat) (names : List WString) :
    checkNames wstr count names ≠ .error .abort := by
  fun_induction checkNames wstr count names with
  | case1 | case2 | case3 => exact fun failed => by cases failed
  | case4 count name rest other ih => exact ih

private theorem req_bid_runs :
    s.packetProcReqBid locals pPlayer pPacket sessionID ≠ .error .abort := by
  unfold packetProcReqBid
  dsimp only
  split
  · exact fun failed => by cases failed
  · split
    · exact fun failed => by cases failed
    · split
      · exact fun failed => by cases failed
      · intro failed
        rcases bind_error.mp failed with failed | ⟨listed, _, failed⟩
        · rcases bind_error.mp failed with failed | ⟨known, _, failed⟩
          · exact check_names_runs _ _ _ failed
          · cases known <;> cases failed
        · cases failed

private theorem slot_replies_run (count : Nat) (names : List WString)
    (short : ∀ wstr ∈ names, Fits wstr) : s.slotReplies pPlayer count names ≠ .error .abort := by
  induction count generalizing names with
  | zero => exact fun failed => by cases failed
  | succ count ih =>
    cases names with
    | nil => exact fun failed => by cases failed
    | cons wstr names =>
      intro failed
      rcases bind_error.mp failed with failed | ⟨reply, _, failed⟩
      · obtain ⟨nickName, rfl⟩ := short wstr List.mem_cons_self
        unfold slotReply at failed
        split at failed
        · rw [wcscpyS_chars] at failed
          cases failed
        · cases failed
      · rcases bind_error.mp failed with failed | ⟨replies, _, failed⟩
        · exact ih names (fun wstr member => short wstr (List.mem_cons_of_mem _ member)) failed
        · cases failed

/-- The slots' names are copied into fields, and fit. -/
private theorem init_packets_run (short : s.ShortNames) :
    s.sendInitPackets pPlayer ≠ .error .abort := by
  intro failed
  rcases bind_error.mp failed with failed | ⟨replies, _, failed⟩
  · unfold ownReplies at failed
    split at failed
    · cases failed
    · rename_i slots known
      have names := short.slots pPlayer.accountNo
      rw [slotsOf, known, Option.getD_some] at names
      exact slot_replies_run _ _ names failed
  · cases failed

/-- A packet that is judged aborts in its procedure or not at all. -/
private theorem recv_aborts_iff {env : JobEnv} {payload : Bytes}
    (known : s.playerList.find sessionID = some pPlayer)
    (own : pPlayer.sessionID = sessionID ∧ pPlayer.isValid = true) :
    s.runJob env (.onRecv sessionID payload) = .error .abort ↔
      (s.withType (s.readType payload).1).packetProc env.locals env.block pPlayer
        (s.readType payload).2 sessionID (s.readType payload).1 = .error .abort := by
  rw [runJob, client_recv_known known own, bind_error]
  refine ⟨fun failed => ?_, .inl⟩
  rcases failed with failed | ⟨_, _, failed⟩
  · exact failed
  · cases failed

private theorem not_ok_aborts {α : Type} {value : α} :
    (.ok value : Except Fault α) ≠ .error .abort := fun failed => by cases failed

/-- A procedure aborts only where it copies the field. -/
private theorem proc_runs (short : s.ShortNames)
    (copied : packetType = 8 ∨ packetType = 10 ∧ readAccount locals pPacket ∈ s.playerList →
      wcscpyS (localString locals (readNickName locals pPacket packetType)) ≠ .error .abort) :
    s.packetProc locals block pPlayer pPacket sessionID packetType ≠ .error .abort := by
  unfold packetProc
  split
  · rw [req_sale_eq]
    split
    · exact not_ok_aborts
    · exact not_ok_aborts
  split
  · exact not_ok_aborts
  split
  · exact req_bid_runs
  split
  · rename_i type
    unfold readNickName at copied
    rw [if_neg (by rw [type]; decide)] at copied
    unfold packetProcReqChangeNickname
    dsimp only
    split
    · exact fun failed => by cases failed
    · intro failed
      rcases bind_error.mp failed with failed | ⟨_, _, failed⟩
      · exact copied (.inl type) failed
      · exact not_ok_aborts failed
  split
  · rename_i type
    unfold readNickName at copied
    rw [if_pos type] at copied
    unfold packetProcResPlayerInfo
    dsimp only
    split
    · exact not_ok_aborts
    · rename_i found known
      intro failed
      rcases bind_error.mp failed with failed | ⟨_, _, failed⟩
      · exact copied (.inr ⟨type, UnorderedMap.mem_of_find known⟩) failed
      · rcases bind_error.mp failed with failed | ⟨_, _, failed⟩
        · exact init_packets_run (short.players _) failed
        · exact not_ok_aborts failed
  · exact not_ok_aborts

/-- A `RES_PLAYER_INFO` about a player copies its field. -/
private theorem info_aborts {found : Player}
    (known : s.playerList.find (readAccount locals pPacket) = some found)
    (overlong : wcscpyS (localString locals (readNickName locals pPacket 10)) = .error .abort) :
    s.packetProc locals block pPlayer pPacket sessionID 10 = .error .abort := by
  change s.packetProcResPlayerInfo locals pPacket = .error .abort
  unfold packetProcResPlayerInfo
  unfold readAccount at known
  dsimp only
  rw [known]
  exact bind_error.mpr (.inl overlong)

/-- All procedures but that of `RES_PLAYER_INFO` read a field without a
terminator as a string; `REQ_BID` does so once the price is right. -/
private theorem string_used (whole : (readNickName locals pPacket packetType).length = nicknameMaxLength)
    (plain : 0 ∉ readNickName locals pPacket packetType) (dispatched : packetType ∈ [1, 3, 5, 8])
    (paid : packetType = 5 → pPlayer.point = (readBid locals pPacket).2) :
    .string ∈ s.fieldUses locals pPlayer pPacket packetType := by
  have other : pPlayer.nickName.chars ≠
      localString locals (readNickName locals pPacket packetType) := by
    intro same
    have fits := pPlayer.nickName.fits
    rw [same, localString, cString_unterminated plain, List.length_append] at fits
    omega
  unfold fieldUses
  simp only [List.mem_cons, List.not_mem_nil, or_false] at dispatched
  rcases dispatched with type | type | type | type
  · rw [if_pos type, if_pos other]
    exact List.mem_cons_of_mem _ List.mem_cons_self
  · subst type
    exact List.mem_cons_self
  · have affordable := paid type
    subst type
    rw [if_neg (by decide), if_neg (by decide), if_pos rfl, if_neg (not_not.mpr affordable)]
    exact List.mem_cons_self
  · subst type
    exact List.mem_cons_self

/-- A refused bid does not look at the field, and no procedure but that of
`RES_PLAYER_INFO` leaves it alone. -/
private theorem unread_within (unread : packetType = 5 ∧ pPlayer.point ≠ (readBid locals pPacket).2 ∨
      packetType = 10 ∧ readAccount locals pPacket ∉ s.playerList) :
    s.fieldUses locals pPlayer pPacket packetType = [] := by
  unfold fieldUses
  rcases unread with ⟨rfl, unpaid⟩ | ⟨rfl, unknown⟩
  · rw [if_neg (by decide), if_neg (by decide), if_pos rfl, if_pos unpaid]
  · rw [if_neg (by decide), if_neg (by decide), if_neg (by decide), if_neg (by decide), if_pos rfl,
      UnorderedMap.find_eq_none.mpr unknown]

/-- From any reachable store, a packet that holds its nickname field is handled
inside the field and without an abort if and only if the field is terminated, or
the packet is a bid of other than all points, or player information about nobody. -/
theorem field_handled_within_iff {auctions : AuctionRef → AuctionData} {first : UInt16}
    {steps : List LogicStep} (reached : Run Steps (.empty auctions first) steps s) {env : JobEnv}
    {payload : Bytes} (known : s.playerList.find sessionID = some pPlayer)
    (own : pPlayer.sessionID = sessionID ∧ pPlayer.isValid = true)
    (dispatched : (s.readType payload).1 ∈ [1, 3, 5, 8, 10])
    (holds : HoldsField (s.readType payload).2 (s.readType payload).1) :
    s.HandledWithin pPlayer env sessionID payload ↔
      0 ∈ nickNameField (s.readType payload).2 (s.readType payload).1 ∨
      ((s.readType payload).1 = 5 ∧
        pPlayer.point ≠ (readBid env.locals (s.readType payload).2).2) ∨
      ((s.readType payload).1 = 10 ∧
        readAccount env.locals (s.readType payload).2 ∉ s.playerList) := by
  have short := short_names_reachable reached
  have read := read_nick_name_field env.locals holds
  have whole := length_nickNameField holds
  unfold HandledWithin
  dsimp only
  rw [ne_eq, recv_aborts_iff known own]
  generalize (s.readType payload).1 = packetType at *
  generalize (s.readType payload).2 = pPacket at *
  rw [← read] at whole ⊢
  have copies := wcscpyS_field_iff env.locals.beyond whole
  constructor
  · rintro ⟨within, runs⟩
    by_contra outside
    simp only [not_or, not_and, not_not] at outside
    obtain ⟨plain, paid, told⟩ := outside
    by_cases info : packetType = 10
    · subst info
      obtain ⟨found, known⟩ := UnorderedMap.find_of_mem (told rfl)
      refine runs (info_aborts known ?_)
      by_contra copied
      exact plain (copies.mp copied)
    · have others : packetType ∈ [1, 3, 5, 8] := by
        simpa [info] using dispatched
      have used : .string ∈ s.fieldUses env.locals pPlayer pPacket packetType :=
        string_used whole plain others paid
      exact plain ((string_within_iff _ whole).mp (within _ used))
  · rintro (zero | unread)
    · exact ⟨fun use _ => terminated_within _ whole zero use,
        proc_runs ⟨short.keys, short.slots⟩ fun _ => copies.mpr zero⟩
    · refine ⟨fun use used => ?_, proc_runs ⟨short.keys, short.slots⟩ fun copied => ?_⟩
      · rw [unread_within unread] at used
        cases used
      · rcases unread with ⟨rfl, _⟩ | ⟨rfl, unknown⟩
        · rcases copied with type | ⟨type, _⟩
          · exact absurd type (by decide)
          · exact absurd type (by decide)
        · rcases copied with type | ⟨_, member⟩
          · exact absurd type (by decide)
          · exact absurd member unknown

end Procedures

/-! ## Two fields of player information about account 0 -/

/-- `RES_PLAYER_INFO` about account 0 whose nickname field holds a character ten
times, or nine times and a terminator. -/
def infoFilled (character last : UInt8) : Bytes :=
  [10, 0] ++ List.replicate 12 0 ++ (List.replicate 9 [character, 0]).flatten ++ [last, 0]

private theorem joined_zero : ∃ s : Store, Run Steps (.empty (fun _ => .zero) 0)
      [.job (.onClientJoin 0) (.zero 0)] s ∧ s.playerList.find 0 = some (joined 0) :=
  ⟨_, .single ⟨_, rfl⟩, rfl⟩

/-- Nine characters are copied. -/
theorem nine_handled_within : ∃ s : Store, s.playerList.find 0 = some (joined 0) ∧
    s.HandledWithin (joined 0) (.zero 0) 0 (infoFilled 65 0) := by
  obtain ⟨s, run, known⟩ := joined_zero
  have typed : s.readType (infoFilled 65 0) = (10, (infoFilled 65 0).drop 2) := rfl
  refine ⟨s, known, (field_handled_within_iff run known ⟨rfl, rfl⟩ ?_ ?_).mpr (.inl ?_)⟩
  · rw [typed]
    decide
  · rw [typed]
    unfold HoldsField
    decide
  · rw [typed]
    decide

/-- Ten characters end the process. -/
theorem ten_abort : ∃ s : Store, Run Steps (.empty (fun _ => .zero) 0)
      [.job (.onClientJoin 0) (.zero 0)] s ∧ s.playerList.find 0 = some (joined 0) ∧
    s.runJob (.zero 0) (.onRecv 0 (infoFilled 65 65)) = .error .abort ∧
    ¬s.HandledWithin (joined 0) (.zero 0) 0 (infoFilled 65 65) := by
  have run : ∃ s, Run Steps (.empty (fun _ => .zero) 0) [.job (.onClientJoin 0) (.zero 0)] s ∧
      s.playerList.find 0 = some (joined 0) ∧
      s.runJob (.zero 0) (.onRecv 0 (infoFilled 65 65)) = .error .abort :=
    ⟨_, .single ⟨_, rfl⟩, rfl, rfl⟩
  obtain ⟨s, run, known, aborts⟩ := run
  exact ⟨s, run, known, aborts, fun within => within.2 aborts⟩

end Store

end NewNameAuction
