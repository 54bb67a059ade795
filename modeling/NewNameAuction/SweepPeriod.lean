import NewNameAuction.AuctionEvents

/-! The period of the two sweeps. Both blocks of `Update` measure their interval
from `LastUpdateTime_ms`, which every call sets: a block runs only when the call
before it, and not its own last run, lies more than its interval back. -/
namespace NewNameAuction.SweepPeriod
open AuctionBook Store ByteMemory

/-- The two blocks of `Update`. -/
inductive Block
  | minute
  | fiveSeconds

def Block.interval : Block → UInt64
  | minute => 60000
  | fiveSeconds => 5000

/-- The list a block sweeps. -/
def Block.list : Block → AuctionBook → UnorderedMap WString AuctionRef
  | minute => AuctionBook.cellList
  | fiveSeconds => AuctionBook.imminentList

/-- No auction on a block's list has ended by the time of the call. -/
def Swept (block : Block) (env : UpdateEnv) (b : AuctionBook) : Prop :=
  ∀ wstr pData, (block.list b).find wstr = some pData → ¬(b.auctions pData).endTime < env.curTime

/-! ## One call -/

section Call
variable {env : UpdateEnv} {s s' : Store} {effects : List Effect}

/-- The minute block leaves no due auction in `CellList`. -/
theorem swept_minute (elapsed : s.elapsed env 60000) (ran : s.updateMinute env = .ok s') :
    Swept .minute env s'.toAuctionBook := by
  intro wstr pData stands
  unfold updateMinute at ran
  rw [if_pos elapsed] at ran
  obtain ⟨trimmed, trim, ran⟩ := bind_ok.mp ran
  obtain ⟨timeOrder24, timeOrder48, rfl⟩ := trim_time_orders_ok trim
  cases ran
  refine UnorderedMap.sweep_standing (fun t : Store => t.cellList)
    (Q := fun _ r t => ¬(t.auctions r).endTime < env.curTime) visit_cell_others ?_ ?_ stands
  · intro key r t r' found remains
    unfold visitCell at remains ⊢
    split at remains
    · rw [cellList_moveToImminent, UnorderedMap.find_erase, if_pos rfl] at remains
      cases remains
    · rename_i early
      obtain rfl := Option.some.inj (found.symm.trans remains)
      rwa [if_neg early]
  · intro key r t _ r' _ early
    unfold visitCell
    split
    · rename_i due
      have apart : r' ≠ r := by
        rintro rfl
        exact early due
      rw [auctions_moveToImminent, if_neg apart]
      exact early
    · exact early

/-- The five-second block leaves no due auction in `ImminentList`. -/
theorem swept_five_seconds (elapsed : s.elapsed env 5000) :
    Swept .fiveSeconds env (s.updateFiveSeconds env).1.toAuctionBook := by
  intro wstr pData stands
  unfold updateFiveSeconds at stands ⊢
  rw [if_pos elapsed] at stands ⊢
  refine UnorderedMap.sweep_standing (fun turn : Store × List Effect => turn.1.imminentList)
    (Q := fun _ r turn => ¬(turn.1.auctions r).endTime < env.curTime) (s := (s, []))
    (visit_imminent_others _) ?_ ?_ stands
  · intro key r turn r' found remains
    unfold visitImminent at remains ⊢
    dsimp only at remains ⊢
    split at remains
    · rw [imminentList_finish, UnorderedMap.find_erase, if_pos rfl] at remains
      cases remains
    · rename_i early
      obtain rfl := Option.some.inj (found.symm.trans remains)
      rwa [if_neg early]
  · intro key r turn _ r' _ early
    unfold visitImminent
    dsimp only
    split
    · rw [endTime_finish]
      exact early
    · exact early

/-- The five-second block touches neither `CellList` nor an end time. -/
private theorem five_seconds_kept (env : UpdateEnv) (s : Store) :
    (s.updateFiveSeconds env).1.cellList = s.cellList ∧
      ∀ r, ((s.updateFiveSeconds env).1.auctions r).endTime = (s.auctions r).endTime := by
  obtain ⟨book, after, cells, times⟩ := update_five_seconds_cases env (s := s)
    (P := fun b _ => b.cellList = s.cellList ∧ ∀ r, (b.auctions r).endTime = (s.auctions r).endTime)
    (fun _ b _ wstr pData holds _ _ => ⟨(cellList_finish b _ _).trans holds.1,
      fun r => (endTime_finish b _ r _).trans (holds.2 r)⟩) ⟨rfl, fun _ => rfl⟩
  rw [after]
  exact ⟨cells, times⟩

/-- A call leaves a list swept if its block runs, and as it was otherwise. -/
theorem swept_by_call (ran : s.update env = .ok (s', effects)) (block : Block) :
    Swept block env s'.toAuctionBook ↔
      s.elapsed env block.interval ∨ Swept block env s.toAuctionBook := by
  obtain ⟨midway, minute, rfl, _⟩ := update_cases ran
  cases block with
  | minute =>
    obtain ⟨cells, times⟩ := five_seconds_kept env midway
    have late : Swept .minute env (midway.updateFiveSeconds env).1.toAuctionBook ↔
        Swept .minute env midway.toAuctionBook := by
      unfold Swept Block.list
      simp only [cells, times]
    refine late.trans ?_
    by_cases elapsed : s.elapsed env 60000
    · exact iff_of_true (swept_minute elapsed minute) (.inl elapsed)
    · unfold updateMinute at minute
      rw [if_neg elapsed] at minute
      cases minute
      exact (or_iff_right elapsed).symm
  | fiveSeconds =>
    by_cases elapsed : s.elapsed env 5000
    · have still := (update_minute_elapsed minute 5000).mpr elapsed
      exact iff_of_true (swept_five_seconds still) (.inl elapsed)
    · have shorter : ¬s.elapsed env 60000 := fun longer =>
        elapsed (UInt64.lt_trans (by decide) longer)
      unfold updateMinute at minute
      rw [if_neg shorter] at minute
      cases minute
      unfold updateFiveSeconds
      rw [if_neg elapsed]
      exact (or_iff_right elapsed).symm

end Call

/-! ## Jobs in between -/

section Jobs
variable {env : JobEnv} {s s' : Store} {job : Job} {effects : List Effect}

private theorem packet_stamp {locals : Locals} {pPlayer : Player} {pPacket : Bytes}
    {sessionID : Int64} {packetType : UInt16}
    (turn : PacketTurn locals s pPlayer pPacket sessionID packetType s' effects) :
    s'.lastUpdateTime = s.lastUpdateTime := by
  cases turn with
  | _ => rfl

/-- No job touches `LastUpdateTime_ms`. -/
theorem job_stamp (ran : s.runJob env job = .ok (s', effects)) :
    s'.lastUpdateTime = s.lastUpdateTime := by
  cases job_turn ran with
  | packet ret known own turn =>
    have stamp := packet_stamp turn
    exact stamp
  | _ => rfl

end Jobs

/-! ## Runs of calls -/

/-- The store, when `Update` was last called, and when each block last ran. -/
structure Clocked where
  store : Store
  lastCall : Option UInt64
  lastRan : Block → Option UInt64

/-- Before any call. -/
def Clocked.start (s : Store) : Clocked := ⟨s, none, fun _ => none⟩

/-- A job, or a call of `Update` at a later time than the call before. -/
def ClockStep (c : Clocked) : LogicStep → Clocked → Prop
  | .job job env, c' => ∃ s', c.store.Steps (.job job env) s' ∧ c' = { c with store := s' }
  | .update env, c' => (∀ time, c.lastCall = some time → time < env.curTime) ∧
      ∃ s', c.store.Steps (.update env) s' ∧ c' = {
        store := s'
        lastCall := some env.curTime
        lastRan := fun block =>
          if c.store.elapsed env block.interval then some env.curTime else c.lastRan block }

/-- More than the interval has passed since the block last ran, or it never ran. -/
def Due (c : Clocked) (env : UpdateEnv) (block : Block) : Prop :=
  ∀ time, c.lastRan block = some time → time.toNat + block.interval.toNat < env.curTime.toNat

/-- More than the interval has passed since the last call. Before the first
call, `LastUpdateTime_ms` stands for it. -/
def Gap (c : Clocked) (env : UpdateEnv) (block : Block) : Prop :=
  match c.lastCall with
  | some time => time.toNat + block.interval.toNat < env.curTime.toNat
  | none => c.store.elapsed env block.interval

/-- A call after which every list whose block was due is swept. -/
def Periodic (step : LogicStep) (c c' : Clocked) : Prop :=
  match step with
  | .job _ _ => True
  | .update env => ∀ block, Due c env block → Swept block env c'.store.toAuctionBook

/-- A call that finds no due block held back by the call before it, unless
nothing on its list has ended. -/
def Spaced (c : Clocked) : LogicStep → Prop
  | .job _ _ => True
  | .update env => ∀ block, Due c env block →
      Gap c env block ∨ Swept block env c.store.toAuctionBook

/-- `LastUpdateTime_ms` is the time of the last call. -/
def Stamped (c : Clocked) : Prop := ∀ time, c.lastCall = some time → c.store.lastUpdateTime = time

section Runs
variable {c c' : Clocked} {step : LogicStep}

theorem stamped_start (s : Store) : Stamped (.start s) := fun _ called => by cases called

theorem stamped_step (stamped : Stamped c) (taken : ClockStep c step c') : Stamped c' := by
  intro time called
  cases step with
  | job job env =>
    obtain ⟨s', ⟨effects, ran⟩, rfl⟩ := taken
    exact (job_stamp ran).trans (stamped time called)
  | update env =>
    obtain ⟨_, s', ⟨effects, ran⟩, rfl⟩ := taken
    obtain ⟨midway, _, rfl, _⟩ := update_cases ran
    exact Option.some.inj called

/-- Between calls at increasing times, what `Update` measures is the gap. -/
theorem elapsed_iff_gap {env : UpdateEnv} (stamped : Stamped c)
    (increasing : ∀ time, c.lastCall = some time → time < env.curTime) (block : Block) :
    c.store.elapsed env block.interval ↔ Gap c env block := by
  unfold Gap
  cases called : c.lastCall with
  | none => exact Iff.rfl
  | some time =>
    have earlier := increasing time called
    dsimp only
    unfold Store.elapsed
    rw [stamped time called, gt_iff_lt, UInt64.lt_iff_toNat_lt,
      UInt64.toNat_sub_of_le _ _ (UInt64.le_of_lt earlier)]
    omega

/-- One call is periodic exactly when it is spaced. -/
theorem periodic_iff_spaced (stamped : Stamped c) (taken : ClockStep c step c') :
    Periodic step c c' ↔ Spaced c step := by
  cases step with
  | job job env => exact Iff.rfl
  | update env =>
    obtain ⟨increasing, s', ⟨effects, ran⟩, rfl⟩ := taken
    refine forall_congr' fun block => imp_congr_right fun _ => ?_
    rw [swept_by_call ran block, elapsed_iff_gap stamped increasing block]

/-- From any store, the runs whose every call sweeps what is due are those whose
every call is spaced. -/
theorem runs_periodic_iff_spaced (s : Store) (steps : List LogicStep) (c : Clocked) :
    Run (fun a step b => ClockStep a step b ∧ Periodic step a b) (.start s) steps c ↔
      Run (Meeting ClockStep Spaced) (.start s) steps c := by
  constructor
  · intro run
    exact run.mono_invariant (fun a step b stamped taken => stamped_step stamped taken.1)
      (fun a step b stamped taken => ⟨taken.1, (periodic_iff_spaced stamped taken.1).mp taken.2⟩)
      (stamped_start s)
  · intro run
    exact run.mono_invariant (fun a step b stamped taken => stamped_step stamped taken.1)
      (fun a step b stamped taken => ⟨taken.1, (periodic_iff_spaced stamped taken.1).mpr taken.2⟩)
      (stamped_start s)

end Runs

/-! ## Three calls -/

/-- An auction on sale until 120000, without players. -/
def onSale : Store :=
  { Store.empty (fun _ => { AuctionData.zero with
      nickName := nameA, endTime := 120000, ownerID := 1, price := 50 }) 0 with
    nextAuction := 1
    cellList := (∅ : UnorderedMap WString AuctionRef).emplace [65] 0 }

/-- A call with zero memory and the shortest draws. -/
def callAt (curTime : UInt64) : UpdateEnv where
  curTime := curTime
  draw := fun _ => leastDraw
  block := fun _ => (JobEnv.zero curTime).block
  undefined := none

/-- Calls at 100000, 150000 and 200000: the third leaves the auction in
`CellList`, although the block last ran at the first. -/
theorem third_call_skips : ∃ c c',
    Run ClockStep (.start onSale) [.update (callAt 100000), .update (callAt 150000)] c ∧
    ClockStep c (.update (callAt 200000)) c' ∧ ¬Periodic (.update (callAt 200000)) c c' := by
  have calls : ∃ c c',
      Run ClockStep (.start onSale) [.update (callAt 100000), .update (callAt 150000)] c ∧
      ClockStep c (.update (callAt 200000)) c' ∧ c.lastRan .minute = some 100000 ∧
      c'.store.cellList.find [65] = some 0 ∧ (c'.store.auctions 0).endTime = 120000 := by
    refine ⟨_, _, .cons ⟨?_, _, ⟨_, rfl⟩, rfl⟩ (.cons ⟨?_, _, ⟨_, rfl⟩, rfl⟩ (.nil _)),
      ⟨?_, _, ⟨_, rfl⟩, rfl⟩, rfl, rfl, rfl⟩
    · intro time called
      cases called
    · intro time called
      obtain rfl := Option.some.inj called
      decide
    · intro time called
      obtain rfl := Option.some.inj called
      decide
  obtain ⟨c, c', run, third, lastRan, stands, endTime⟩ := calls
  refine ⟨c, c', run, third, fun periodic => ?_⟩
  have due : Due c (callAt 200000) .minute := by
    intro time ran
    obtain rfl := Option.some.inj (lastRan.symm.trans ran)
    decide
  refine periodic .minute due [65] 0 stands ?_
  rw [endTime]
  decide

end NewNameAuction.SweepPeriod
