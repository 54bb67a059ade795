import Mathlib.Data.List.Count
import NewNameAuction.SessionNumbers

/-! Where the index of a slot is: on `emptyIndexStack`, with the one session that was
accepted and has not left, or with the one thread that accepts or releases it. -/
namespace NewNameAuction.SessionPlaces
open SessionSlot (delflagOff delflagOn)
open SessionLife SessionOwner SessionNumbers

/-- A thread that has the index: `AcceptThread` with the index it took, and whoever cleans
the session up. -/
def owning : Place → Bool
  | .clean _ | .leaving _ | .push => true
  | .acceptID | .acceptEnter | .acceptValid | .acceptFlag | .acceptJoin | .acceptRecv => true
  | _ => false

/-- A thread that has the index and no session. -/
def between : Place → Nat
  | .acceptID | .push => 1
  | .idle | .findValid _ | .findEnter _ | .findFlag _ | .findID _ | .findFailed => 0
  | .found _ | .posting | .unposted | .leave | .zero | .working | .starting | .finished => 0
  | .releaseValid _ | .releaseCount _ | .releaseFlag _ _ | .releaseID _ | .releaseCheck _ _ => 0
  | .reenter _ | .reopen _ | .relet _ | .clean _ | .leaving _ => 0
  | .acceptEnter | .acceptValid | .acceptFlag | .acceptJoin | .acceptRecv => 0

theorem owning_turning {p : Place} (owns : owning p = true) : turning p = true ∨ late p = true := by
  cases p <;> first | exact .inl rfl | exact .inr rfl | cases owns

section Remaining
variable {κ : Type*} {labels : List (Option κ × SessionLife.Event)}
  {m m' : Threads (Option κ) Slot Place} {owner : Owner (Option κ)}

/-- The sessions that were accepted and have not left. -/
def remaining (labels : List (Option κ × SessionLife.Event)) : List Int64 :=
  (accepted labels).diff (left labels)

/-- Whoever has left was accepted. -/
theorem left_subperm (numbered : Numbered labels m) : (left labels).Subperm (accepted labels) := by
  rw [← numbered.ids]
  exact List.subperm_of_subset numbered.leftNodup numbered.leftKnown

theorem remaining_perm (numbered : Numbered labels m) :
    (left labels ++ remaining labels).Perm (accepted labels) :=
  List.subperm_append_diff_self_of_count_le (List.subperm_ext_iff.mp (left_subperm numbered))

theorem between_step {i : Option κ} {s s' : Slot} {p p' : Place} {event : SessionLife.Event}
    (step : SlotStep i s p event s' p') :
    s'.free + between p' + (Event.acceptedID event).length =
      s.free + between p + (Event.leftID event).length := by
  cases step with
  | accept step =>
    cases step with
    | pop free =>
      rw [free]
      rfl
    | _ => rfl
  | serve j step =>
    rcases step with step | step | step | step <;> cases step <;> (try split) <;> rfl

/-- An index on the stack, or between the stack and a session, has no session, any other
has one. -/
def Accounted [Fintype κ] (labels : List (Option κ × SessionLife.Event))
    (m : Threads (Option κ) Slot Place) : Prop :=
  (accepted labels).length + m.shared.free + m.total between = (left labels).length + 1

theorem start_accounted [Fintype κ] (sessionID : Int64) : Accounted [] (start κ sessionID) := by
  rw [Accounted, Threads.total_zero between _ fun _ => rfl]
  rfl

theorem accounted_step [Fintype κ] [DecidableEq κ] {label : Option κ × SessionLife.Event}
    (accounted : Accounted labels m) (step : Step m label m') : Accounted (labels ++ [label]) m' := by
  obtain ⟨i, event⟩ := label
  obtain ⟨s, p, step, rfl⟩ := step
  have moves := between_step step
  have total := m.total_move i s p between
  unfold Accounted at *
  rw [accepted_snoc, left_snoc, List.length_append, List.length_append, Threads.shared_move]
  dsimp only at moves ⊢
  omega

/-- An index in its place. -/
def Placed (labels : List (Option κ × SessionLife.Event)) (m : Threads (Option κ) Slot Place) :
    Prop :=
  (m.shared.free = 1 ∧ remaining labels = [] ∧ m.shared.isValid = false ∧
    ∀ i, owning (m.place i) = false) ∨
  (m.shared.free = 0 ∧ remaining labels = [m.shared.sessionID] ∧ m.shared.isValid = true ∧
    ∀ i, owning (m.place i) = false) ∨
  (m.shared.free = 0 ∧ (remaining labels).length ≤ 1 ∧ ∃! i, owning (m.place i) = true)

theorem late_acceptor [Fintype κ] (counted : Counted m) {i : Option κ} (here : late (m.place i) = true) :
    i = none := by
  cases i with
  | none => rfl
  | some j =>
    have aside := counted.servers j
    generalize m.place (some j) = place at here aside
    cases place <;> contradiction

/-- While `AcceptThread` has a session set up and not finished, it is valid, and nobody
cleans it up. -/
theorem late_facts (custody : Custody m owner) (numbered : Numbered labels m)
    (here : late (m.place none) = true) :
    m.shared.isValid = true ∧ ∀ j, owning (m.place (some j)) = true → turning (m.place (some j)) = true →
      accepting (m.place (some j)) = true := by
  have opened := numbered.opened (by
    generalize m.place none = place at here
    cases place <;> first | exact .inl rfl | exact .inr rfl | cases here)
  obtain ⟨valid, away⟩ := opened
  refine ⟨valid, fun j owns turns => ?_⟩
  have turned := turner_facts custody turns
  have untested := away j
  have cleaned := numbered.cleaned j
  generalize m.place (some j) = place at owns turned untested cleaned
  cases place with
  | clean id =>
    rw [cleaned id (.inl rfl)] at untested
    exact absurd (List.mem_singleton_self _) untested
  | leaving | push =>
    rw [turned.1] at valid
    cases valid
  | acceptID | acceptEnter | acceptValid | acceptFlag | acceptJoin | acceptRecv => rfl
  | _ => cases owns

/-- One thread at most has the index. -/
theorem sole_owning [Fintype κ] (counted : Counted m) (custody : Custody m owner)
    (numbered : Numbered labels m) {i k : Option κ} (owns : owning (m.place i) = true)
    (too : owning (m.place k) = true) : k = i := by
  have mixed {i k : Option κ} (turns : turning (m.place i) = true) (owns : owning (m.place i) = true)
      (here : late (m.place k) = true) : k = i := by
    obtain rfl := late_acceptor counted here
    cases i with
    | none => rfl
    | some j =>
      have aside := counted.servers j
      rw [(late_facts custody numbered here).2 j owns turns] at aside
      cases aside
  rcases owning_turning owns with turns | here
  · rcases owning_turning too with turns' | here'
    · exact sole_turner custody turns turns'
    · exact mixed turns owns here'
  · rcases owning_turning too with turns' | here'
    · exact (mixed turns' too here).symm
    · exact (late_acceptor counted here').trans (late_acceptor counted here).symm

theorem owning_unfree [Fintype κ] (counted : Counted m) (custody : Custody m owner)
    (numbered : Numbered labels m) {i : Option κ} (owns : owning (m.place i) = true) :
    m.shared.free = 0 := by
  cases owner with
  | session | thread => exact custody.owned.1
  | stack =>
    rcases owning_turning owns with turns | here
    · cases custody.turning i turns
    · obtain rfl := late_acceptor counted here
      have valid := (late_facts custody numbered here).1
      rw [custody.owned.2.1] at valid
      cases valid

/-- Without a thread that has it, an index that is not on the stack has a session. -/
theorem unowned_valid (custody : Custody m owner) (unowned : ∀ i, owning (m.place i) = false) :
    (m.shared.free = 1 ∧ m.shared.isValid = false) ∨
      (m.shared.free = 0 ∧ m.shared.isValid = true) := by
  cases owner with
  | stack => exact .inl ⟨custody.owned.1, custody.owned.2.1⟩
  | session => exact .inr ⟨custody.owned.1, custody.owned.2.1⟩
  | thread i =>
    obtain ⟨free, turned⟩ := custody.owned
    refine .inr ⟨free, ?_⟩
    have aside := unowned i
    generalize m.place i = place at turned aside
    cases place with
    | releaseID | releaseCheck | reenter | reopen => exact turned.1
    | clean | leaving | push | acceptID | acceptEnter | acceptValid | acceptFlag => cases aside
    | _ => exact turned.elim

theorem owning_between {p : Place} (aside : owning p = false) : between p = 0 := by
  cases p <;> first | rfl | cases aside

/-- The index of a slot is in its place. -/
theorem placed [Fintype κ] (kept : Kept m) (numbered : Numbered labels m)
    (accounted : Accounted labels m) : Placed labels m := by
  obtain ⟨counted, owner, custody⟩ := kept
  have perm := remaining_perm numbered
  have lengths : (left labels).length + (remaining labels).length = (accepted labels).length := by
    rw [← List.length_append]
    exact perm.length_eq
  have account : (remaining labels).length + m.shared.free + m.total between = 1 := by
    unfold Accounted at accounted
    omega
  by_cases owned : ∃ i, owning (m.place i) = true
  · obtain ⟨i, owns⟩ := owned
    exact .inr (.inr ⟨owning_unfree counted custody numbered owns, by omega, i, owns,
      fun k too => sole_owning counted custody numbered owns too⟩)
  · have unowned (i : Option κ) : owning (m.place i) = false := by
      cases owns : owning (m.place i) with
      | false => rfl
      | true => exact absurd ⟨i, owns⟩ owned
    have none : m.total between = 0 :=
      Threads.total_zero between m fun i => owning_between (unowned i)
    rcases unowned_valid custody unowned with ⟨free, invalid⟩ | ⟨free, valid⟩
    · exact .inl ⟨free, List.eq_nil_of_length_eq_zero (by omega), invalid, unowned⟩
    · refine .inr (.inl ⟨free, ?_, valid, unowned⟩)
      have known : m.shared.sessionID ∈ left labels ++ remaining labels := by
        rw [perm.mem_iff, ← numbered.ids]
        refine numbered.current fun none => ?_
        rw [(numbered.unnumbered none).1] at valid
        cases valid
      obtain ⟨id, only⟩ := List.length_eq_one_iff.mp
        (show (remaining labels).length = 1 by omega)
      rcases List.mem_append.mp known with gone | stays
      · exact absurd gone (numbered.present (.inl valid)).1
      · rw [only] at stays ⊢
        rw [List.mem_singleton.mp stays]

end Remaining

end NewNameAuction.SessionPlaces
