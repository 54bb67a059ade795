import NewNameAuction.SlotBounds

/-! What `NICKNAME_CHANGE_ABLE` takes out of an account's slots. Its loop resets the name
it looks for on the first turn, so that it finds the first name or none, and lowers the
count on every turn. -/
namespace NewNameAuction.NicknameChange
open Store UserSlots SlotBounds

/-- What `RequestNickName` is reset to. -/
def nullName : WString := [78, 85, 76, 76]

/-- The requested name is gone from the slots, and nothing else. -/
structure RemovesRequest (slots slots' : NickNameList) : Prop where
  names : slots'.nickNames = slots.nickNames.filter (· != slots.requestNickName)
  count : slots'.count.toInt = slots'.nickNames.length
  reset : slots.requestNickName ∈ slots.nickNames → slots'.requestNickName = nullName

/-- The job takes the requested name out of the account's slots, and keeps those of the
others. -/
def ChangeRemoves (s : Store) (env : JobEnv) (accountNo : Int64) (slots : NickNameList) : Prop :=
  ∃ s' slots', s.runJob env (.nicknameChangeAble accountNo) = .ok (s', []) ∧
    s'.ownList.find accountNo = some slots' ∧ RemovesRequest slots slots' ∧
    ∀ other, other ≠ accountNo → s'.ownList.find other = s.ownList.find other

section Change
variable {s : Store} {env : JobEnv} {accountNo : Int64} {slots slots' : NickNameList}

/-- The job is its loop, on the slots of its account. -/
theorem change_removes_loop (known : s.ownList.find accountNo = some slots)
    (loop : changeLoop (loopBound slots.count) 0 slots = .ok slots') :
    ChangeRemoves s env accountNo slots ↔ RemovesRequest slots slots' := by
  have ran : s.runJob env (.nicknameChangeAble accountNo) =
      .ok ({ s with ownList := s.ownList.assign accountNo slots' }, []) := by
    rw [runJob, nicknameChangeAble, known]
    dsimp only
    rw [loop]
    rfl
  have found : (s.ownList.assign accountNo slots').find accountNo = some slots' := by
    rw [UnorderedMap.find_assign, if_pos rfl, known]
    rfl
  constructor
  · rintro ⟨t, slots'', ran', found', removes, _⟩
    cases ran.symm.trans ran'
    cases found.symm.trans found'
    exact removes
  · intro removes
    refine ⟨_, slots', ran, found, removes, fun other apart => ?_⟩
    exact (UnorderedMap.find_assign ..).trans (if_neg apart)

/-- With at least three slots the count falls by more than one. -/
theorem long_change (counted : slots.count.toInt = slots.nickNames.length)
    (different : slots.nickNames.Nodup) (long : 3 ≤ slots.nickNames.length)
    (loop : changeLoop (loopBound slots.count) 0 slots = .ok slots') : ¬RemovesRequest slots slots' := by
  intro removes
  have halved := change_halves (by omega) loop
  have kept : slots.nickNames.length - 1 ≤ slots'.nickNames.length := by
    rw [removes.names, ← different.erase_eq_filter]
    exact List.le_length_erase
  have count := removes.count
  omega

/-- One turn takes out the first name if it is the requested one. -/
def firstTurn (slots : NickNameList) (name : WString) (rest : List WString) : NickNameList where
  nickNames := if name = slots.requestNickName then rest else name :: rest
  count := slots.count - 1
  requestNickName := nullName

theorem change_one {name : WString} {rest : List WString} (names : slots.nickNames = name :: rest)
    (counted : slots.count.toInt = slots.nickNames.length) (short : rest.length ≤ 1) :
    changeLoop (loopBound slots.count) 0 slots = .ok (firstTurn slots name rest) := by
  have length : slots.count.toInt = (rest.length : Int) + 1 := by
    rw [counted, names, List.length_cons]
    rfl
  have turns : loopBound slots.count = rest.length + 1 := by
    unfold loopBound
    omega
  have lowered := count_lowered length
  have first : slots.nickNames[0]? = some name := by rw [names]; rfl
  have erased : slots.nickNames.eraseIdx 0 = rest := by rw [names]; rfl
  rw [turns, changeLoop, if_pos (by omega), first]
  dsimp only
  rw [erased, names]
  change changeLoop rest.length 1 (firstTurn slots name rest) = _
  cases rest with
  | nil => rfl
  | cons second rest =>
    rw [List.length_cons, changeLoop, if_neg]
    rw [show (firstTurn slots name (second :: rest)).count = slots.count - 1 from rfl, lowered]
    simp only [List.length_cons] at short ⊢
    omega

/-- One or two slots: right exactly if the first name is the requested one. -/
theorem short_change {name : WString} {rest : List WString} (names : slots.nickNames = name :: rest)
    (counted : slots.count.toInt = slots.nickNames.length) (different : slots.nickNames.Nodup) :
    RemovesRequest slots (firstTurn slots name rest) ↔ name = slots.requestNickName := by
  have length : slots.count.toInt = (rest.length : Int) + 1 := by
    rw [counted, names, List.length_cons]
    rfl
  have lowered := count_lowered length
  constructor
  · intro removes
    by_contra other
    have count := removes.count
    rw [firstTurn, if_neg other] at count
    dsimp only at count
    rw [lowered, List.length_cons] at count
    omega
  · intro same
    rw [names, List.nodup_cons] at different
    have others : rest.filter (· != slots.requestNickName) = rest := by
      refine List.filter_eq_self.mpr fun other member => ?_
      rw [bne_iff_ne, ← same]
      exact fun again => different.1 (again ▸ member)
    refine ⟨?_, ?_, fun _ => rfl⟩
    · rw [names, List.filter_cons_of_neg (by rw [same, bne_self_eq_false]; decide), others, firstTurn,
        if_pos same]
    · rw [firstTurn, if_pos same]
      exact lowered

/-- On slots with different names, all of them counted, the change is right exactly if
there are none, or if there are at most two and the requested name is the first. -/
theorem change_removes_iff (s : Store) (env : JobEnv) (accountNo : Int64) (slots : NickNameList)
    (known : s.ownList.find accountNo = some slots)
    (counted : slots.count.toInt = slots.nickNames.length) (different : slots.nickNames.Nodup) :
    ChangeRemoves s env accountNo slots ↔
      slots.nickNames = [] ∨
        slots.nickNames.head? = some slots.requestNickName ∧ slots.nickNames.length ≤ 2 := by
  cases names : slots.nickNames with
  | nil =>
    have none : slots.count.toInt = 0 := by
      rw [counted, names]
      rfl
    have loop : changeLoop (loopBound slots.count) 0 slots = .ok slots := by
      rw [loopBound, none]
      rfl
    rw [change_removes_loop known loop]
    refine iff_of_true ⟨?_, counted, fun member => ?_⟩ (.inl rfl)
    · rw [names]
      rfl
    · rw [names] at member
      cases member
  | cons name rest =>
    rw [List.head?_cons, Option.some.injEq]
    by_cases short : rest.length ≤ 1
    · rw [change_removes_loop known (change_one names counted short),
        short_change names counted different]
      have few : (name :: rest).length ≤ 2 := Nat.succ_le_succ short
      exact ⟨fun same => .inr ⟨same, few⟩, fun cases => cases.elim (fun none => by cases none) (·.1)⟩
    · have long : 3 ≤ slots.nickNames.length := by
        rw [names, List.length_cons]
        omega
      obtain ⟨slots', loop, _⟩ := change_loop_in_range (loopBound slots.count) 0
        (show InRange slots from ⟨by omega, by omega⟩)
      rw [change_removes_loop known loop]
      refine iff_of_false (long_change counted different long loop) ?_
      rintro (none | ⟨_, few⟩)
      · cases none
      · exact short (Nat.le_of_succ_le_succ few)

end Change

/-- Account 0 with slots for the names of one letter each, and a request. -/
def lettered (request : UInt16) (letters : List UInt16) : Store :=
  { IndexConsistency.emptyStore with
    ownList := (∅ : UnorderedMap Int64 NickNameList).emplace 0
      ⟨Int32.ofNat letters.length, [request], letters.map ([·])⟩ }

/-- Of two names the first is taken out. -/
theorem first_of_two_removed :
    ChangeRemoves (lettered 65 [65, 66]) (.zero 0) 0 ⟨2, [65], [[65], [66]]⟩ :=
  (change_removes_iff (lettered 65 [65, 66]) (.zero 0) 0 ⟨2, [65], [[65], [66]]⟩ rfl (by decide)
    (by decide)).mpr (.inr ⟨rfl, by decide⟩)

/-- Of three names the second stays, and the count is one. -/
theorem second_of_three_kept :
    ¬ChangeRemoves (lettered 66 [65, 66, 67]) (.zero 0) 0 ⟨3, [66], [[65], [66], [67]]⟩ ∧
      (((lettered 66 [65, 66, 67]).nicknameChangeAble 0).map fun s => s.ownList.find 0) =
        .ok (some ⟨1, nullName, [[65], [66], [67]]⟩) := by
  refine ⟨?_, by decide⟩
  rintro ⟨s', slots', ran, found, removes, _⟩
  have kept : ((lettered 66 [65, 66, 67]).runJob (.zero 0) (.nicknameChangeAble 0)).map
      (fun after => after.1.ownList.find 0) = .ok (some ⟨1, nullName, [[65], [66], [67]]⟩) := by decide
  rw [ran] at kept
  cases found.symm.trans (Except.ok.inj kept)
  exact absurd removes.count (by decide)

end NewNameAuction.NicknameChange
