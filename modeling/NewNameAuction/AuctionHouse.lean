import Mathlib.Data.List.Basic
import NewNameAuction.Runs

/-! A house of ascending auctions, as those see it who deal with it. A lot goes on sale
under a name that no running lot has. A bid on a running lot beats the price that stands
and is not the owner's. A lot closes in two steps, the second of which decides whether it
was sold; the house keeps a ledger of the lots that were. -/
namespace NewNameAuction.AuctionHouse

inductive Phase
  | onSale
  | closing
  | sold
  | failed
  deriving DecidableEq

def Phase.Running (phase : Phase) : Prop := phase = .onSale ∨ phase = .closing

instance (phase : Phase) : Decidable phase.Running := inferInstanceAs (Decidable (_ ∨ _))

structure Lot (Name Account Price : Type*) where
  name : Name
  owner : Account
  phase : Phase
  price : Price
  bidder : Option Account

/-- The lots in the order they came, and the ledger of those sold, the last one first. -/
structure House (Name Account Price : Type*) where
  lots : List (Lot Name Account Price)
  sold : List Nat

inductive Event (Name Account Price : Type*)
  | registered (lot : Lot Name Account Price)
  | bid (i : Nat) (bidder : Account) (price : Price)
  | closing (i : Nat)
  /-- With what is said of it: the name, and who got it. -/
  | closed (i : Nat) (name : Name) (bidder : Option Account)

section Houses
variable {Name Account Price : Type*} {house house' : House Name Account Price} {name : Name}
  {lot lot' : Lot Name Account Price} {i j : Nat} {event : Event Name Account Price}

/-- What a closing lot becomes. -/
def Lot.outcome (lot : Lot Name Account Price) : Phase := if lot.bidder.isSome then .sold else .failed

/-- Lot `i` is running under this name. -/
def House.Runs (house : House Name Account Price) (name : Name) (i : Nat) : Prop :=
  ∃ lot, house.lots[i]? = some lot ∧ lot.phase.Running ∧ lot.name = name

def House.put (house : House Name Account Price) (i : Nat) (lot : Lot Name Account Price) :
    House Name Account Price := { house with lots := house.lots.set i lot }

inductive Step [LT Price] (house : House Name Account Price) :
    Event Name Account Price → House Name Account Price → Prop
  | registered {lot : Lot Name Account Price} (new : ∀ i, ¬house.Runs lot.name i)
      (onSale : lot.phase = .onSale) (unbid : lot.bidder = none) :
      Step house (.registered lot) { house with lots := house.lots ++ [lot] }
  | bid {i : Nat} {lot : Lot Name Account Price} {bidder : Account} {price : Price}
      (there : house.lots[i]? = some lot) (running : lot.phase.Running) (higher : lot.price < price)
      (other : lot.owner ≠ bidder) :
      Step house (.bid i bidder price) (house.put i { lot with price := price, bidder := some bidder })
  | closing {i : Nat} {lot : Lot Name Account Price} (there : house.lots[i]? = some lot)
      (onSale : lot.phase = .onSale) :
      Step house (.closing i) (house.put i { lot with phase := .closing })
  | closed {i : Nat} {lot : Lot Name Account Price} (there : house.lots[i]? = some lot)
      (closing : lot.phase = .closing) :
      Step house (.closed i lot.name lot.bidder)
        { house.put i { lot with phase := lot.outcome } with
          sold := if lot.bidder.isSome then i :: house.sold else house.sold }

/-- What is said of the lots that close. -/
def said : Event Name Account Price → Option (Name × Option Account)
  | .closed _ name bidder => some (name, bidder)
  | _ => none

/-! ## What every step keeps -/

/-- A name is that of one running lot, and the ledger is of the lots that were sold. -/
structure Valid (house : House Name Account Price) : Prop where
  names : ∀ name i j, house.Runs name i → house.Runs name j → i = j
  nodup : house.sold.Nodup
  ledger : ∀ i, i ∈ house.sold ↔ ∃ lot, house.lots[i]? = some lot ∧ lot.phase = .sold

theorem empty_valid : Valid (⟨[], []⟩ : House Name Account Price) where
  names := fun _ _ _ runs => by
    obtain ⟨lot, there, _⟩ := runs
    cases there
  nodup := List.nodup_nil
  ledger := fun i => ⟨fun member => (nomatch member), fun sold => by
    obtain ⟨lot, there, _⟩ := sold
    cases there⟩

theorem put_self (there : house.lots[i]? = some lot) : (house.put i lot').lots[i]? = some lot' := by
  obtain ⟨inside, _⟩ := List.getElem?_eq_some_iff.mp there
  exact List.getElem?_set_self inside

theorem put_other (other : i ≠ j) : (house.put i lot').lots[j]? = house.lots[j]? :=
  List.getElem?_set_ne other

/-- A lot that does not change its name, and is not opened again, runs as before. -/
theorem runs_put (runs : (house.put i lot').Runs name j) (there : house.lots[i]? = some lot)
    (name' : lot'.name = lot.name) (running : lot'.phase.Running → lot.phase.Running) :
    house.Runs name j := by
  obtain ⟨other, here, runs, named⟩ := runs
  by_cases same : i = j
  · subst same
    rw [put_self there] at here
    cases here
    exact ⟨lot, there, running runs, name'.symm.trans named⟩
  · rw [put_other same] at here
    exact ⟨other, here, runs, named⟩

/-- A change at a lot that is not sold before or after. -/
theorem put_valid (valid : Valid house) (there : house.lots[i]? = some lot) (name' : lot'.name = lot.name)
    (running : lot'.phase.Running → lot.phase.Running) (unsold : lot.phase ≠ .sold)
    (unsold' : lot'.phase ≠ .sold) : Valid (house.put i lot') where
  names := fun name j k runs runs' =>
    valid.names name j k (runs_put runs there name' running) (runs_put runs' there name' running)
  nodup := valid.nodup
  ledger := fun j => by
    refine (valid.ledger j).trans ?_
    by_cases same : i = j
    · subst same
      rw [put_self there, there]
      simp [unsold, unsold']
    · rw [put_other same]

theorem running_unsold {phase : Phase} (running : phase.Running) : phase ≠ .sold := by
  rintro rfl
  rcases running with same | same <;> cases same

theorem lots_append (i : Nat) : (house.lots ++ [lot])[i]? =
    if i = house.lots.length then some lot else house.lots[i]? := by
  split
  · next same =>
    subst same
    exact List.getElem?_concat_length
  · next other =>
    by_cases inside : i < house.lots.length
    · exact List.getElem?_append_left inside
    · have beyond : house.lots.length < i := Nat.lt_of_le_of_ne (Nat.not_lt.mp inside) (Ne.symm other)
      rw [List.getElem?_eq_none (by simpa using Nat.succ_le_of_lt beyond), List.getElem?_eq_none (Nat.not_lt.mp inside)]

theorem registered_valid (valid : Valid house) (new : ∀ i, ¬house.Runs lot.name i)
    (onSale : lot.phase = .onSale) : Valid { house with lots := house.lots ++ [lot] } := by
  have before {i : Nat} {name : Name} (runs : House.Runs { house with lots := house.lots ++ [lot] } name i) :
      (i = house.lots.length ∧ lot.name = name) ∨ house.Runs name i := by
    obtain ⟨other, here, runs, named⟩ := runs
    rw [lots_append] at here
    split at here
    · next same =>
      cases here
      exact .inl ⟨same, named⟩
    · exact .inr ⟨other, here, runs, named⟩
  refine ⟨fun name i j runs runs' => ?_, valid.nodup, fun i => (valid.ledger i).trans ?_⟩
  · rcases before runs with ⟨here, rfl⟩ | old
    · rcases before runs' with ⟨here', _⟩ | old'
      · exact here.trans here'.symm
      · exact absurd old' (new j)
    · rcases before runs' with ⟨_, rfl⟩ | old'
      · exact absurd old (new i)
      · exact valid.names name i j old old'
  · rw [lots_append]
    split
    · next same =>
      rw [same, List.getElem?_eq_none (Nat.le_refl _)]
      simp [onSale]
    · rfl

theorem closed_valid (valid : Valid house) (there : house.lots[i]? = some lot) (closing : lot.phase = .closing) :
    Valid { house.put i { lot with phase := lot.outcome } with
      sold := if lot.bidder.isSome then i :: house.sold else house.sold } := by
  have unlisted : i ∉ house.sold := fun listed => by
    obtain ⟨other, here, sold⟩ := (valid.ledger i).mp listed
    cases there.symm.trans here
    cases closing.symm.trans sold
  have before {name : Name} {j : Nat} (runs : (house.put i { lot with phase := lot.outcome }).Runs name j) :
      house.Runs name j := runs_put runs there rfl fun _ => .inr closing
  refine ⟨fun name j k runs runs' => valid.names name j k (before runs) (before runs'), ?_, fun j => ?_⟩
  · dsimp only
    split
    · exact List.nodup_cons.mpr ⟨unlisted, valid.nodup⟩
    · exact valid.nodup
  · dsimp only
    by_cases same : i = j
    · subst same
      rw [put_self there]
      unfold Lot.outcome
      split <;> simp [unlisted]
    · rw [put_other same, ← valid.ledger j]
      split
      · simp [Ne.symm same]
      · rfl

theorem valid_step [LT Price] (valid : Valid house) (step : Step house event house') : Valid house' := by
  cases step with
  | registered new onSale _ => exact registered_valid valid new onSale
  | bid there running _ _ =>
    exact put_valid valid there rfl id (running_unsold running) (running_unsold running)
  | closing there onSale =>
    exact put_valid valid there rfl (fun _ => .inl onSale) (by rw [onSale]; simp) (by simp)
  | closed there closing => exact closed_valid valid there closing

end Houses

end NewNameAuction.AuctionHouse
