import Mathlib.Data.List.Basic

/-! Finite runs of a labelled transition relation. A property of every reachable
state is proved from its start and from one step; a property that speaks of the
past takes the labels so far along with the state. -/
namespace NewNameAuction

variable {σ α : Type*}

/-- A run, with the labels of its steps from first to last. -/
inductive Run (step : σ → α → σ → Prop) : σ → List α → σ → Prop
  | nil (s : σ) : Run step s [] s
  | cons {s t u : σ} {a : α} {labels : List α} :
      step s a t → Run step t labels u → Run step s (a :: labels) u

/-- The steps of a relation that meet a condition on label and state before. -/
def Meeting (step : σ → α → σ → Prop) (condition : σ → α → Prop) (s : σ) (a : α) (t : σ) : Prop :=
  step s a t ∧ condition s a

namespace Run
variable {step : σ → α → σ → Prop} {s t u : σ} {a : α} {labels : List α}

theorem single (taken : step s a t) : Run step s [a] t := .cons taken (.nil t)

/-- One run after another. -/
theorem append {later : List α} (first : Run step s labels t) (second : Run step t later u) :
    Run step s (labels ++ later) u := by
  induction first with
  | nil _ => exact second
  | cons taken _ ih => exact .cons taken (ih second)

/-- What every step keeps holds at the end of a run. -/
theorem invariant {P : σ → Prop} (kept : ∀ s a t, P s → step s a t → P t)
    (run : Run step s labels t) (start : P s) : P t := by
  induction run with
  | nil _ => exact start
  | cons taken _ ih => exact ih (kept _ _ _ start taken)

/-- Steps from states with an invariant may be replaced by steps of a wider relation. -/
theorem mono_invariant {wider : σ → α → σ → Prop} {P : σ → Prop}
    (kept : ∀ s a t, P s → step s a t → P t)
    (widen : ∀ s a t, P s → step s a t → wider s a t) (run : Run step s labels t) (start : P s) :
    Run wider s labels t := by
  induction run with
  | nil s => exact .nil s
  | cons taken _ ih => exact .cons (widen _ _ _ start taken) (ih (kept _ _ _ start taken))

theorem mono {wider : σ → α → σ → Prop} (widen : ∀ s a t, step s a t → wider s a t)
    (run : Run step s labels t) : Run wider s labels t :=
  run.mono_invariant (P := fun _ => True) (fun _ _ _ _ _ => trivial)
    (fun s a t _ taken => widen s a t taken) trivial

private theorem history_after {P : List α → σ → Prop}
    (kept : ∀ past s a t, P past s → step s a t → P (past ++ [a]) t)
    (run : Run step s labels t) {past : List α} (start : P past s) : P (past ++ labels) t := by
  induction run generalizing past with
  | nil _ => simpa using start
  | @cons _ _ _ a labels taken _ ih =>
    have later := ih (kept past _ a _ start taken)
    rwa [List.append_assoc, List.singleton_append] at later

/-- The same for what relates the state to the labels so far. -/
theorem history {P : List α → σ → Prop} (kept : ∀ past s a t, P past s → step s a t → P (past ++ [a]) t)
    (run : Run step s labels t) (start : P [] s) : P labels t :=
  history_after kept run start

/-- A run whose labels meet the condition wherever they stand. -/
theorem meeting {condition : σ → α → Prop} (met : ∀ a ∈ labels, ∀ s, condition s a)
    (run : Run step s labels t) : Run (Meeting step condition) s labels t := by
  induction run with
  | nil s => exact .nil s
  | cons taken _ ih =>
    exact .cons ⟨taken, met _ List.mem_cons_self _⟩ (ih fun a member => met a (List.mem_cons_of_mem _ member))

/-- What every step says of its label holds of all labels of a run. -/
theorem labels_all {Q : α → Prop} (kept : ∀ s a t, step s a t → Q a) (run : Run step s labels t) :
    ∀ a ∈ labels, Q a := by
  induction run with
  | nil _ => exact fun a member => by cases member
  | cons taken _ ih =>
    intro a member
    rcases List.mem_cons.mp member with rfl | later
    · exact kept _ _ _ taken
    · exact ih a later

/-- Where every step takes off some weight, a run is no longer than the weight is. -/
theorem length_le {P : σ → Prop} (weight : σ → Nat) (kept : ∀ s a t, P s → step s a t → P t)
    (less : ∀ s a t, P s → step s a t → weight t < weight s) (run : Run step s labels t)
    (start : P s) : labels.length + weight t ≤ weight s := by
  induction run with
  | nil _ => exact Nat.le_of_eq (Nat.zero_add _)
  | cons taken _ ih =>
    have later := ih (kept _ _ _ start taken)
    have now := less _ _ _ start taken
    rw [List.length_cons]
    omega

/-- A queue hands on, in order, what every step puts in and takes out. -/
theorem queue {β : Type*} (waiting : σ → List β) {put taken : α → List β}
    (kept : ∀ s a t, step s a t → waiting s ++ put a = taken a ++ waiting t)
    (run : Run step s labels t) :
    waiting s ++ labels.flatMap put = labels.flatMap taken ++ waiting t := by
  induction run with
  | nil _ => exact List.append_nil _
  | cons now _ ih =>
    rw [List.flatMap_cons, List.flatMap_cons, ← List.append_assoc, kept _ _ _ now,
      List.append_assoc, ih, List.append_assoc]

end Run

/-! ## Runs by choice -/

section Replay
variable {χ : Type*} {step : σ → α → σ → Prop} {s t : σ} {labels : List α}

/-- The run that a list of choices leads through, if every choice can be made. -/
def replay (advance : σ → χ → Option (α × σ)) : σ → List χ → Option (List α × σ)
  | s, [] => some ([], s)
  | s, choice :: rest =>
    match advance s choice with
    | none => none
    | some (a, t) => (replay advance t rest).map fun later => (a :: later.1, later.2)

theorem replay_run {advance : σ → χ → Option (α × σ)}
    (sound : ∀ s choice a t, advance s choice = some (a, t) → step s a t) {choices : List χ}
    (replayed : replay advance s choices = some (labels, t)) : Run step s labels t := by
  induction choices generalizing s labels with
  | nil =>
    obtain ⟨rfl, rfl⟩ := Prod.mk.inj (Option.some.inj replayed)
    exact .nil s
  | cons choice rest ih =>
    rw [replay] at replayed
    split at replayed
    · cases replayed
    · next a u advanced =>
      obtain ⟨later, ran, same⟩ := Option.map_eq_some_iff.mp replayed
      obtain ⟨rfl, rfl⟩ := Prod.mk.inj same
      exact .cons (sound _ _ _ _ advanced) (ih ran)

/-- Choices whose steps meet a condition. -/
def guarded (condition : σ → α → Prop) [∀ s a, Decidable (condition s a)]
    (advance : σ → χ → Option (α × σ)) (s : σ) (choice : χ) : Option (α × σ) :=
  (advance s choice).filter fun after => decide (condition s after.1)

theorem guarded_sound {condition : σ → α → Prop} [∀ s a, Decidable (condition s a)]
    {advance : σ → χ → Option (α × σ)} (sound : ∀ s choice a t, advance s choice = some (a, t) → step s a t)
    (s : σ) (choice : χ) (a : α) (t : σ) (taken : guarded condition advance s choice = some (a, t)) :
    Meeting step condition s a t := by
  obtain ⟨advanced, met⟩ := Option.filter_eq_some_iff.mp taken
  exact ⟨sound _ _ _ _ advanced, of_decide_eq_true met⟩

end Replay

end NewNameAuction
