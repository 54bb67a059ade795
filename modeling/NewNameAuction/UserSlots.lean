import NewNameAuction.AccountIdentity
import NewNameAuction.AccountSlots
import NewNameAuction.BidLedger
import NewNameAuction.IndexConsistency
import NewNameAuction.Settlement

/-! The limit on an account's running auctions. It is checked on the count kept
with the account's slots, which a nickname change halves: its loop lowers the
count on every turn, whether it takes a name out or not. -/
namespace NewNameAuction.UserSlots
open AuctionBook Store IndexConsistency

/-- The auctions of an account that have been registered and have not ended. -/
def owned (b : AuctionBook) (accountNo : Int64) : Nat :=
  (List.range b.nextAuction).countP fun r =>
    ¬(b.auctions r).status.ended ∧ (b.auctions r).ownerID = accountNo

/-- A nickname change that leaves the account's count no smaller than the number
of its running auctions. -/
def ChangeKeepsSlots (s : Store) : LogicStep → Prop
  | .job (.nicknameChangeAble accountNo) _ =>
    (owned s.toAuctionBook accountNo : Int) ≤ (s.slotsOf accountNo).count.toInt / 2
  | _ => True

/-! ## The loop -/

theorem count_lowered {count : Int32} {n : Nat} (positive : count.toInt = (n : Int) + 1) :
    (count - 1).toInt = n := by
  have bound := count.toInt_lt
  rw [positive] at bound
  rw [Int32.toInt_sub, positive]
  change ((n : Int) + 1 - 1).bmod (2 ^ 32) = n
  rw [Int.add_sub_cancel]
  exact Int.bmod_eq_of_le (by omega) (by omega)

private theorem loop_count (turns i : Nat) {slots slots' : NickNameList}
    (starts : slots.count.toInt = turns) (ran : changeLoop turns i slots = .ok slots') :
    slots'.count.toInt = min (turns : Int) ((turns + i) / 2) := by
  induction turns generalizing i slots with
  | zero =>
    obtain rfl := Except.ok.inj ran
    rw [starts]
    omega
  | succ turns ih =>
    rw [changeLoop] at ran
    split at ran
    · rename_i inside
      rw [starts] at inside
      split at ran
      · cases ran
      · have rest := ih (i + 1) (count_lowered (by rw [starts]; rfl)) ran
        rw [rest]
        omega
    · rename_i past
      rw [starts] at past
      obtain rfl := Except.ok.inj ran
      rw [starts]
      omega

/-- The loop of `CHANGE_ABLE` halves the count. -/
theorem change_halves {slots slots' : NickNameList} (counted : 0 ≤ slots.count.toInt)
    (ran : changeLoop (loopBound slots.count) 0 slots = .ok slots') :
    slots'.count.toInt = slots.count.toInt / 2 := by
  have starts : slots.count.toInt = (loopBound slots.count : Int) :=
    (Int.toNat_of_nonneg counted).symm
  rw [loop_count _ 0 starts ran, starts]
  omega

/-! ## The auctions of an account -/

section Owned
variable {b b' : AuctionBook} {data : AuctionData} {accountNo : Int64}

theorem owned_register (sale : data.status = .sale) :
    owned (b.register data) accountNo =
      owned b accountNo + if data.ownerID = accountNo then 1 else 0 := by
  have old : (List.range b.nextAuction).countP (fun r =>
        ¬((b.register data).auctions r).status.ended ∧
          ((b.register data).auctions r).ownerID = accountNo) = owned b accountNo := by
    refine List.countP_congr fun r member => ?_
    rw [auctions_register, if_neg (Nat.ne_of_lt (List.mem_range.mp member))]
  unfold owned
  rw [nextAuction_register, List.range_succ, List.countP_append, old, List.countP_singleton,
    auctions_register, if_pos rfl, sale]
  have runs : ¬AuctionStatus.sale.ended := by decide
  simp only [runs, not_false_eq_true, true_and, decide_eq_true_eq]
  rfl

/-- An account owns no more when no auction is added, revived or handed over. -/
theorem owned_le (next : b'.nextAuction = b.nextAuction)
    (kept : ∀ r < b.nextAuction, ¬(b'.auctions r).status.ended →
      ¬(b.auctions r).status.ended ∧ (b'.auctions r).ownerID = (b.auctions r).ownerID)
    (accountNo : Int64) : owned b' accountNo ≤ owned b accountNo := by
  unfold owned
  rw [next]
  refine List.countP_mono_left fun r member => ?_
  simp only [decide_eq_true_eq]
  rintro ⟨runs, owner⟩
  obtain ⟨ran, same⟩ := kept r (List.mem_range.mp member) runs
  exact ⟨ran, same ▸ owner⟩

end Owned

/-! ## One step -/

/-- All auctions are account 0's, as all players are. -/
structure OneAccount (s : Store) : Prop where
  separate : Settlement.Separate s.toAuctionBook
  zero : AccountIdentity.ZeroAccounts s
  owners : ∀ r < s.nextAuction, (s.auctions r).ownerID = 0

/-- Each account has counted slots for its running auctions, and no more of those
than the limit. -/
structure Slotted (s : Store) : Prop where
  separate : Settlement.Separate s.toAuctionBook
  zero : AccountIdentity.ZeroAccounts s
  owners : ∀ r < s.nextAuction, (s.auctions r).ownerID = 0
  counted : ∀ accountNo, (owned s.toAuctionBook accountNo : Int) ≤ (s.slotsOf accountNo).count.toInt
  limit : ∀ accountNo, owned s.toAuctionBook accountNo ≤ 5

theorem Slotted.oneAccount {s : Store} (slotted : Slotted s) : OneAccount s :=
  ⟨slotted.separate, slotted.zero, slotted.owners⟩

section Steps
variable {s s' : Store} {env : JobEnv} {job : Job} {effects : List Effect}

theorem no_bid (one : OneAccount s) (ran : s.runJob env job = .ok (s', effects)) :
    s.bidOf env job = none :=
  AccountIdentity.no_bid one.zero
    (fun _ _ found => one.owners _ (Settlement.pooled_of_found one.separate found)) ran

/-- One more slot, as long as there are fewer than the limit. -/
theorem push_count {slots : NickNameList} (wstr : WString) (counted : 0 ≤ slots.count.toInt)
    (free : slots.count < maxUserSlot) : (slots.push wstr).count.toInt = slots.count.toInt + 1 := by
  have small := Int32.lt_iff_toInt_lt.mp free
  have limit : maxUserSlot.toInt = 5 := rfl
  rw [limit] at small
  change (slots.count + 1).toInt = _
  rw [Int32.toInt_add]
  change (slots.count.toInt + 1).bmod (2 ^ 32) = _
  exact Int.bmod_eq_of_le (by omega) (by omega)

private theorem slot_counted {slots : NickNameList} {n : Nat} (wstr : WString)
    (counted : (n : Int) ≤ slots.count.toInt) (free : slots.count < maxUserSlot) :
    ((n : Int) + 1) ≤ (slots.push wstr).count.toInt ∧ n + 1 ≤ 5 := by
  have small := Int32.lt_iff_toInt_lt.mp free
  have limit : maxUserSlot.toInt = 5 := rfl
  have up := push_count wstr (by omega) free
  omega

/-- What a registered auction is: on sale, account 0's, and there was a slot for it. -/
theorem registered_data {data : AuctionData} (zero : AccountIdentity.ZeroAccounts s)
    (made : s.registration env job = some data) :
    data.status = .sale ∧ data.ownerID = 0 ∧ (s.slotsOf data.ownerID).count < maxUserSlot := by
  obtain ⟨sale, owner, _⟩ := AccountIdentity.registered_zero zero made
  obtain ⟨_, accountNo, _, slot, terms, pPlayer, _, _, rfl⟩ := registration_made made
  exact ⟨sale, owner, Int32.not_le.mp fun full => slot (.inl full)⟩

theorem one_account_job (one : OneAccount s) (ran : s.runJob env job = .ok (s', effects)) :
    OneAccount s' := by
  have taken : s.Takes (.job job env, effects) s' := ran
  refine ⟨(Settlement.takes_settles one.separate taken).2, AccountIdentity.zero_job one.zero ran, ?_⟩
  cases made : s.registration env job with
  | none =>
    rw [job_unchanged (no_bid one ran) made ran]
    exact one.owners
  | some data =>
    have same := job_registered made ran
    obtain ⟨_, owner, _⟩ := registered_data one.zero made
    rw [same]
    exact forall_register (P := fun data => data.ownerID = 0) _ data one.owners owner

theorem one_account_update {env : UpdateEnv} (one : OneAccount s)
    (ran : s.update env = .ok (s', effects)) : OneAccount s' := by
  have next := update_next ran
  have taken : s.Takes (.update env, effects) s' := ran
  refine ⟨(Settlement.takes_settles one.separate taken).2, AccountIdentity.zero_update one.zero ran, ?_⟩
  intro r there
  rw [next] at there
  rw [(BidLedger.update_ledger ran).owner r there]
  exact one.owners r there

theorem one_account_empty (auctions : AuctionRef → AuctionData) (packetType : UInt16) :
    OneAccount (.empty auctions packetType) where
  separate := Settlement.empty_separate auctions packetType
  zero := AccountIdentity.empty_zero auctions packetType
  owners := fun r there => absurd there (Nat.not_lt_zero r)

/-- A job leaves an account of which it registers no auction with slots enough. -/
private theorem slots_suffice (slotted : Slotted s) (keeps : ChangeKeepsSlots s (.job job env))
    (ran : s.runJob env job = .ok (s', effects)) {accountNo : Int64}
    (others : ∀ data, s.registration env job = some data → data.ownerID ≠ accountNo) :
    (owned s.toAuctionBook accountNo : Int) ≤ (s'.slotsOf accountNo).count.toInt := by
  have before := slotted.counted accountNo
  have change := slot_change ran accountNo
  generalize s'.slotsOf accountNo = slots' at change
  cases change with
  | kept => exact before
  | bid accepted account found free => cases (no_bid slotted.oneAccount ran).symm.trans accepted
  | requested request => exact before
  | changed able loop =>
    subst able
    rw [change_halves (by omega) loop]
    exact keeps
  | registered registers owner => exact absurd owner (others _ registers)

private theorem slotted_job (slotted : Slotted s) (keeps : ChangeKeepsSlots s (.job job env))
    (ran : s.runJob env job = .ok (s', effects)) : Slotted s' := by
  obtain ⟨separate, zero, owners⟩ := one_account_job slotted.oneAccount ran
  cases made : s.registration env job with
  | none =>
    have same := job_unchanged (no_bid slotted.oneAccount ran) made ran
    refine ⟨separate, zero, owners, fun accountNo => ?_,
      fun accountNo => by rw [same]; exact slotted.limit accountNo⟩
    rw [same]
    exact slots_suffice slotted keeps ran fun data registers => by cases made.symm.trans registers
  | some data =>
    have same := job_registered made ran
    obtain ⟨sale, _, free⟩ := registered_data slotted.zero made
    have more (accountNo : Int64) : owned s'.toAuctionBook accountNo =
        owned s.toAuctionBook accountNo + if data.ownerID = accountNo then 1 else 0 := by
      rw [same]
      exact owned_register sale
    have taken := slot_counted data.nickName.chars (slotted.counted data.ownerID) free
    refine ⟨separate, zero, owners, fun accountNo => ?_, fun accountNo => ?_⟩
    · rw [more]
      by_cases mine : data.ownerID = accountNo
      · rw [if_pos mine, ← mine, registered_slots made ran]
        exact taken.1
      · rw [if_neg mine]
        refine slots_suffice slotted keeps ran fun data' registers => ?_
        obtain rfl := Option.some.inj (made.symm.trans registers)
        exact mine
    · rw [more]
      by_cases mine : data.ownerID = accountNo
      · rw [if_pos mine, ← mine]
        exact taken.2
      · rw [if_neg mine]
        exact slotted.limit accountNo

private theorem slotted_update {env : UpdateEnv} (slotted : Slotted s)
    (ran : s.update env = .ok (s', effects)) : Slotted s' := by
  have settles := Settlement.update_settles slotted.separate ran
  obtain ⟨separate, zero, owners⟩ := one_account_update slotted.oneAccount ran
  have ledger := BidLedger.update_ledger ran
  have fewer := owned_le (update_next ran) fun r there runs =>
    ⟨fun isOver => runs ((settles.moves r there).final isOver ▸ isOver), ledger.owner r there⟩
  refine ⟨separate, zero, owners, fun accountNo => ?_,
    fun accountNo => Nat.le_trans (fewer accountNo) (slotted.limit accountNo)⟩
  rw [update_slots ran]
  exact Int.le_trans (Int.ofNat_le.mpr (fewer accountNo)) (slotted.counted accountNo)

end Steps

/-! ## Runs -/

/-- From the empty store, no account comes to own more running auctions than the
limit as long as no nickname change takes its count below them. -/
theorem slot_limit_kept (auctions : AuctionRef → AuctionData) (packetType : UInt16)
    (steps : List LogicStep) (s : Store)
    (run : Run (Meeting Steps ChangeKeepsSlots) (.empty auctions packetType) steps s)
    (accountNo : Int64) : owned s.toAuctionBook accountNo ≤ 5 := by
  have start : Slotted (.empty auctions packetType) := by
    obtain ⟨separate, zero, owners⟩ := one_account_empty auctions packetType
    exact ⟨separate, zero, owners, fun account => Int.le_refl _, fun account => Nat.zero_le _⟩
  refine (run.invariant (P := Slotted) ?_ start).limit accountNo
  rintro s (⟨job, env⟩ | env) s' slotted ⟨⟨effects, ran⟩, keeps⟩
  · exact slotted_job slotted keeps ran
  · exact slotted_update slotted ran

/-- A sale that ends without a bid, a second one, and a nickname change. -/
def secondSale : List LogicStep :=
  firstSale ++ [.update ⟨86400000, fun _ => leastDraw, fun _ => (JobEnv.zero 0).block, none⟩] ++
    firstSale.drop 1

/-- The change takes the count from 2 to 1, which is what the account owns. -/
theorem change_keeps_second_sale : ∃ t, Run (Meeting Steps ChangeKeepsSlots) emptyStore
      (secondSale ++ [.job (.nicknameChangeAble 0) (.zero 0)]) t ∧
    (t.slotsOf 0).count = 1 ∧ owned t.toAuctionBook 0 ≤ 5 := by
  obtain ⟨t, sold, seen⟩ := run_of_seen emptyStore secondSale
    (fun t => (owned t.toAuctionBook 0, (t.slotsOf 0).count,
      (t.nicknameChangeAble 0).map fun t' => (t'.slotsOf 0).count)) (1, 2, .ok 1) (by decide +kernel)
  obtain ⟨one, seen⟩ := Prod.mk.inj seen
  obtain ⟨two, changes⟩ := Prod.mk.inj seen
  cases changed : t.nicknameChangeAble 0 with
  | error fault =>
    rw [changed] at changes
    cases changes
  | ok t' =>
    rw [changed] at changes
    have keeps : ChangeKeepsSlots t (.job (.nicknameChangeAble 0) (.zero 0)) := by
      change (owned t.toAuctionBook 0 : Int) ≤ (t.slotsOf 0).count.toInt / 2
      rw [one, two]
      decide
    have change : Steps t (.job (.nicknameChangeAble 0) (.zero 0)) t' :=
      ⟨[], bind_ok.mpr ⟨t', changed, rfl⟩⟩
    have others : ∀ step ∈ secondSale, ∀ s, ChangeKeepsSlots s step := by
      simp [secondSale, firstSale, ChangeKeepsSlots]
    have run := (sold.meeting others).append (.single ⟨change, keeps⟩)
    exact ⟨t', run, Except.ok.inj changes, slot_limit_kept _ _ _ t' run 0⟩

/-- Five sales, a nickname change that takes the count from 5 to 2, and a sixth. -/
def sixSales : List LogicStep :=
  firstSale ++ (List.replicate 4 (firstSale.drop 1)).flatten ++
    [.job (.nicknameChangeAble 0) (.zero 0)] ++ firstSale.drop 1

theorem change_frees_slots : ∃ t, Run Steps emptyStore sixSales t ∧ owned t.toAuctionBook 0 = 6 :=
  run_of_seen emptyStore sixSales (fun t => owned t.toAuctionBook 0) 6 (by decide +kernel)

end NewNameAuction.UserSlots
