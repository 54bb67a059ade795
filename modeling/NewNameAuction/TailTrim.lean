import Mathlib.Data.List.DropRight
import NewNameAuction.AuctionEvents

/-! The loops over the ends of `CellList_TimeOrder24` and `CellList_TimeOrder48`. They
erase at `rbegin().base()`, which is `end()` and not the last auction, so that a loop is
defined only while it has nothing to erase. -/
namespace NewNameAuction.TailTrim
open Store

/-- `Status` is `FIN` or `FIN_FAIL`. -/
def hasEnded (s : Store) (pData : AuctionRef) : Bool := decide (s.auctions pData).status.ended

/-- `EndTime` is less than 24 hours from now. -/
def endsWithinDay (env : UpdateEnv) (s : Store) (pData : AuctionRef) : Bool :=
  decide ((s.auctions pData).endTime.toNat < env.curTime.toNat + 24 * 60 * 60 * 1000)

/-- The ends of the lists have been trimmed: what ends within a day has gone from one list
to the other, and what has ended is in neither. -/
structure TailsTrimmed (env : UpdateEnv) (s s' : Store) : Prop where
  timeOrder48 : s'.cellListTimeOrder48 =
    s.cellListTimeOrder48.rdropWhile (endsWithinDay env s')
  timeOrder24 : s'.cellListTimeOrder24 =
    s.cellListTimeOrder48.rtakeWhile (endsWithinDay env s') ++
      s.cellListTimeOrder24.rdropWhile (hasEnded s')

/-- The loop over `CellList` will move the auction to `ImminentList`. -/
def dueCell (env : UpdateEnv) (s : Store) (pData : AuctionRef) : Prop :=
  pData ∈ s.cellList.values ∧ (s.auctions pData).endTime < env.curTime

instance (env : UpdateEnv) (s : Store) (pData : AuctionRef) : Decidable (dueCell env s pData) :=
  inferInstanceAs (Decidable (_ ∧ _))

/-- The last auction of each list, if there is one, shall stay. -/
structure NothingToTrim (env : UpdateEnv) (s : Store) : Prop where
  timeOrder48 : ∀ pData ∈ s.cellListTimeOrder48.getLast?, endsWithinDay env s pData = false
  timeOrder24 : ∀ pData ∈ s.cellListTimeOrder24.getLast?,
    hasEnded s pData = true → dueCell env s pData

/-- Surroundings in which erasing `end()` is the end of the process. -/
def defined (env : UpdateEnv) : UpdateEnv := { env with undefined := none }

section List
variable {α : Type} {p : α → Bool} {l : List α}

theorem untrimmed_iff : l.rdropWhile p = l ↔ ∀ x ∈ l.getLast?, p x = false := by
  rw [List.rdropWhile_eq_self_iff]
  constructor
  · intro kept x last
    obtain ⟨nonempty, rfl⟩ := List.mem_getLast?_eq_getLast last
    exact Bool.eq_false_iff.mpr (kept nonempty)
  · intro kept nonempty
    rw [kept _ (List.getLast?_eq_some_getLast nonempty)]
    exact Bool.false_ne_true

theorem untaken_iff : l.rtakeWhile p = [] ↔ ∀ x ∈ l.getLast?, p x = false := by
  rw [← untrimmed_iff, List.rdropWhile_eq_self_iff, List.rtakeWhile_eq_nil_iff]

end List

/-! ## After the loop over `CellList` -/

section Swept
variable (env : UpdateEnv)

/-- The store in which the loops run. -/
def sweptCells (s : Store) : Store := UnorderedMap.sweep (visitCell env) s.cellList.entries s

theorem swept_lists (s : Store) :
    (sweptCells env s).cellListTimeOrder24 = s.cellListTimeOrder24 ∧
      (sweptCells env s).cellListTimeOrder48 = s.cellListTimeOrder48 := by
  obtain ⟨book, swept, _⟩ := @sweep_cells_book env s (fun _ => True) (fun _ _ _ _ _ _ => trivial) trivial
  unfold sweptCells
  rw [swept]
  exact ⟨rfl, rfl⟩

/-- What is moved to `ImminentList` ended before now, and gets at most 12 minutes. -/
private theorem moved_within_day {b : AuctionBook} {wstr : WString} {pData : AuctionRef} (draw : Draw)
    (due : (b.auctions pData).endTime < env.curTime) (r : AuctionRef) :
    ((b.moveToImminent wstr pData draw).auctions r).endTime.toNat <
        env.curTime.toNat + 24 * 60 * 60 * 1000 ↔
      (b.auctions r).endTime.toNat < env.curTime.toNat + 24 * 60 * 60 * 1000 := by
  rw [AuctionBook.auctions_moveToImminent]
  split
  · rename_i same
    have most := draw.2.2
    rw [UInt64.lt_iff_toNat_lt] at due
    rw [UInt64.le_iff_toNat_le] at most
    have twelve : (720000 : UInt64).toNat = 720000 := rfl
    have wrapped := Nat.mod_le ((b.auctions pData).endTime.toNat + draw.1.toNat) (2 ^ 64)
    dsimp only
    rw [UInt64.toNat_add, same]
    omega
  · exact Iff.rfl

theorem swept_within_day (s : Store) : endsWithinDay env (sweptCells env s) = endsWithinDay env s := by
  obtain ⟨book, swept, same⟩ := @sweep_cells_book env s
    (fun b => ∀ r, (b.auctions r).endTime.toNat < env.curTime.toNat + 24 * 60 * 60 * 1000 ↔
      (s.auctions r).endTime.toNat < env.curTime.toNat + 24 * 60 * 60 * 1000)
    (fun b wstr pData same _ due r => (moved_within_day env _ due r).trans (same r))
    (fun _ => Iff.rfl)
  funext pData
  unfold sweptCells
  rw [swept]
  exact decide_eq_decide.mpr (same pData)

/-- One turn gives its auction, when it is due, the status `IMMINENT`. -/
theorem visit_cell_data (s : Store) (wstr : WString) (pData r : AuctionRef) :
    (visitCell env wstr pData s).auctions r =
      if r = pData ∧ (s.auctions pData).endTime < env.curTime then
        { s.auctions pData with
          status := .imminent
          endTime := (s.auctions pData).endTime + (env.draw wstr).1 }
      else s.auctions r := by
  unfold visitCell
  by_cases due : (s.auctions pData).endTime < env.curTime
  · rw [if_pos due]
    dsimp only
    rw [AuctionBook.auctions_moveToImminent]
    simp only [due, and_true]
  · rw [if_neg due, if_neg fun both => due both.2]

theorem swept_status (s : Store) (r : AuctionRef) (entries : List (Sigma fun _ : WString => AuctionRef)) :
    ((UnorderedMap.sweep (visitCell env) entries s).auctions r).status =
      if r ∈ entries.map Sigma.snd ∧ (s.auctions r).endTime < env.curTime then .imminent
      else (s.auctions r).status := by
  induction entries generalizing s with
  | nil => rfl
  | cons entry entries ih =>
    have turn := visit_cell_data env s entry.1 entry.2 r
    refine (ih (visitCell env entry.1 entry.2 s)).trans ?_
    by_cases here : r = entry.2 ∧ (s.auctions entry.2).endTime < env.curTime
    · rw [if_pos here] at turn
      rw [turn, ite_self, here.1]
      exact (if_pos ⟨List.mem_cons_self, here.2⟩).symm
    · rw [if_neg here] at turn
      rw [turn]
      refine if_congr ⟨fun later => ⟨List.mem_cons_of_mem _ later.1, later.2⟩, ?_⟩ rfl rfl
      rintro ⟨listed, due⟩
      rcases List.mem_cons.mp listed with rfl | later
      · exact absurd ⟨rfl, due⟩ here
      · exact ⟨later, due⟩

theorem swept_ended_iff (s : Store) (pData : AuctionRef) :
    hasEnded (sweptCells env s) pData = false ↔ (hasEnded s pData = true → dueCell env s pData) := by
  unfold hasEnded sweptCells
  rw [swept_status, decide_eq_false_iff_not, decide_eq_true_iff]
  change ¬(if dueCell env s pData then AuctionStatus.imminent
    else (s.auctions pData).status).ended ↔ _
  by_cases due : dueCell env s pData
  · rw [if_pos due]
    exact iff_of_true (by decide) fun _ => due
  · rw [if_neg due]
    exact ⟨fun running done => absurd done running, fun only done => due (only done)⟩

end Swept

/-! ## The loops -/

section Trim
variable {env : UpdateEnv} {s s' : Store}

/-- The 64-bit sum may wrap, and then the loop compares with less. -/
theorem ends_later {pData : AuctionRef} (later : endsWithinDay env s pData = false) :
    ¬(s.auctions pData).endTime < env.curTime + 1000 * 60 * 60 * 24 := by
  have far := of_decide_eq_false later
  rw [UInt64.lt_iff_toNat_lt, UInt64.toNat_add]
  have day : (1000 * 60 * 60 * 24 : UInt64).toNat = 86400000 := rfl
  rw [day]
  have wrapped := Nat.mod_le (env.curTime.toNat + 86400000) (2 ^ 64)
  omega

/-- With no meaning given to the erasure, the two loops are one after the other. -/
theorem trim_orders_defined (t : Store) : s.trimTimeOrders (defined env) = .ok t ↔
    s.trimTimeOrder24 >>= trimTimeOrder48 env = .ok t := by
  unfold trimTimeOrders
  change _ ↔ s.trimTimeOrder24 >>= trimTimeOrder48 (defined env) = .ok t
  cases s.trimTimeOrder24 >>= trimTimeOrder48 (defined env) with
  | ok t => exact Iff.rfl
  | error fault => exact Iff.rfl

/-- The block of the minute returns exactly if both loops do, and leaves their lists. -/
theorem minute_trimmed (elapsed : s.elapsed env 60000) :
    (∃ s', s.updateMinute (defined env) = .ok s' ∧ TailsTrimmed env s s') ↔
      ∃ t, (sweptCells env s).trimTimeOrder24 >>= trimTimeOrder48 env = .ok t ∧ TailsTrimmed env s t := by
  have minute : s.updateMinute (defined env) =
      (sweptCells env s).trimTimeOrders (defined env) >>= fun t =>
        .ok { t with cellListPriceOrder := t.cellListPriceOrder.filter fun entry =>
          ¬(t.auctions entry.2).status.ended } := if_pos elapsed
  rw [minute]
  constructor
  · rintro ⟨s', ran, trimmed⟩
    obtain ⟨t, trim, ran⟩ := bind_ok.mp ran
    cases ran
    exact ⟨t, (trim_orders_defined t).mp trim, trimmed.timeOrder48, trimmed.timeOrder24⟩
  · rintro ⟨t, trim, trimmed⟩
    exact ⟨_, bind_ok.mpr ⟨t, (trim_orders_defined t).mpr trim, rfl⟩,
      trimmed.timeOrder48, trimmed.timeOrder24⟩

/-- For every store and clock at which the block of the minute runs: its loops trim what
they shall exactly if they have nothing to trim. -/
theorem tails_trimmed_iff (env : UpdateEnv) (s : Store) (elapsed : s.elapsed env 60000) :
    (∃ s', s.updateMinute (defined env) = .ok s' ∧ TailsTrimmed env s s') ↔ NothingToTrim env s := by
  obtain ⟨order24, order48⟩ := swept_lists env s
  rw [minute_trimmed elapsed]
  constructor
  · rintro ⟨t, ran, trimmed⟩
    obtain ⟨first, trim24, trim48⟩ := bind_ok.mp ran
    obtain ⟨rfl, kept24⟩ := trim24_ok.mp trim24
    obtain ⟨rfl, _⟩ := trim48_ok.mp trim48
    have same := trimmed.timeOrder48
    rw [order48, swept_within_day] at same
    rw [order24] at kept24
    exact ⟨untrimmed_iff.mp same.symm, fun pData last =>
      (swept_ended_iff env s pData).mp (decide_eq_false (kept24 pData last))⟩
  · rintro ⟨kept48, kept24⟩
    have running (pData : AuctionRef) (last : pData ∈ s.cellListTimeOrder24.getLast?) :
        hasEnded (sweptCells env s) pData = false :=
      (swept_ended_iff env s pData).mpr (kept24 pData last)
    refine ⟨sweptCells env s, bind_ok.mpr ⟨sweptCells env s, trim24_ok.mpr ⟨rfl, ?_⟩, ?_⟩, ?_, ?_⟩
    · rw [order24]
      exact fun pData last => of_decide_eq_false (running pData last)
    · refine trim48_ok.mpr ⟨rfl, ?_⟩
      rw [order48]
      intro pData last
      refine ends_later ?_
      rw [swept_within_day]
      exact kept48 pData last
    · rw [order48, swept_within_day, untrimmed_iff.mpr kept48]
    · rw [order24, swept_within_day, untaken_iff.mpr kept48, untrimmed_iff.mpr running,
        List.nil_append]

end Trim

/-! ## One auction -/

/-- One auction in `CellList_TimeOrder24`. -/
def oneListed (status : AuctionStatus) : Store :=
  { Store.empty (fun _ => { AuctionData.zero with status := status }) 0 with
    nextAuction := 1
    cellListTimeOrder24 := [0] }

/-- A minute and a millisecond after the start. -/
def minuteLater : UpdateEnv :=
  ⟨60001, fun _ => leastDraw, fun _ => (JobEnv.zero 0).block, none⟩

theorem sale_listed : ∃ s', (oneListed .sale).updateMinute (defined minuteLater) = .ok s' ∧
    TailsTrimmed minuteLater (oneListed .sale) s' :=
  (tails_trimmed_iff minuteLater (oneListed .sale) (by decide)).mpr
    ⟨fun _ last => (by cases last), fun pData last running => (by cases last; cases running)⟩

/-- An auction that has ended is the end of the process, not of its entry. -/
theorem ended_not_dropped : (oneListed .fin).elapsed minuteLater 60000 ∧
    (oneListed .fin).updateMinute (defined minuteLater) = .error .endIterator ∧
    ¬∃ s', (oneListed .fin).updateMinute (defined minuteLater) = .ok s' ∧
      TailsTrimmed minuteLater (oneListed .fin) s' := by
  have stuck : (oneListed .fin).updateMinute (defined minuteLater) = .error .endIterator := rfl
  refine ⟨by decide, stuck, ?_⟩
  rintro ⟨s', ran, _⟩
  cases stuck.symm.trans ran

end NewNameAuction.TailTrim
