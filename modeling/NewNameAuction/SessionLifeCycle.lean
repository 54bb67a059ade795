import NewNameAuction.SessionPlaces

/-! The life cycles of all sessions of a server. A step is at one slot and leaves the
others as they are; what the slots have in common are the stack of the empty indexes and
the number for the next session. -/
namespace NewNameAuction.SessionLifeCycle
open SessionSlot (delflagOff delflagOn)
open SessionLife SessionOwner SessionNumbers SessionPlaces

section Views
variable {κ : Type*} {n : Nat} {index other : Fin n}

/-- The steps at a slot. -/
def ofSlot (index : Fin n) (labels : List (Option κ × Fin n × SessionLife.Event)) :
    List (Option κ × SessionLife.Event) :=
  labels.filterMap fun label => if label.2.1 = index then some (label.1, label.2.2) else none

/-- A slot and where the threads stand at it. -/
def view (index : Fin n) (m : Threads (Option κ) (Server n) (Option (Fin n × Place))) :
    Threads (Option κ) Slot Place :=
  ⟨m.shared.slots index, fun i => standing index (m.place i)⟩

theorem ofSlot_self (labels : List (Option κ × Fin n × SessionLife.Event)) (i : Option κ)
    (event : SessionLife.Event) :
    ofSlot index (labels ++ [(i, index, event)]) = ofSlot index labels ++ [(i, event)] := by
  simp [ofSlot]

theorem ofSlot_other (labels : List (Option κ × Fin n × SessionLife.Event)) (i : Option κ)
    (event : SessionLife.Event) (differs : other ≠ index) :
    ofSlot other (labels ++ [(i, index, event)]) = ofSlot other labels := by
  simp [ofSlot, Ne.symm differs]

theorem standing_stand (p : Place) : standing index (stand index p) = p := by
  unfold stand
  split
  · next idle => exact idle.symm
  · exact if_pos rfl

theorem standing_other {place : Option (Fin n × Place)} (differs : other ≠ index)
    (there : place = none ∨ ∃ p, place = some (index, p)) : standing other place = .idle := by
  rcases there with rfl | ⟨p, rfl⟩
  · rfl
  · exact if_neg (Ne.symm differs)

theorem there_stand (p : Place) :
    stand index p = none ∨ ∃ p', stand index p = some (index, p') := by
  unfold stand
  split
  · exact .inl rfl
  · exact .inr ⟨p, rfl⟩

variable [DecidableEq κ] {m m' : Threads (Option κ) (Server n) (Option (Fin n × Place))}
  {i : Option κ} {event : SessionLife.Event}

/-- A step of the server is a step at its slot. -/
theorem view_step (step : ServerStep m (i, index, event) m') :
    Step (view index m) (i, event) (view index m') := by
  cases step with
  | @step _ _ _ s p stack allocNum there taken names shared =>
    refine ⟨s, p, taken, ?_⟩
    unfold view Threads.move
    congr 1
    · exact Function.update_self ..
    · funext j
      dsimp only
      split
      · exact standing_stand p
      · rfl

theorem view_other (step : ServerStep m (i, index, event) m') (differs : other ≠ index) :
    view other m' = view other m := by
  cases step with
  | @step _ _ _ s p stack allocNum there taken names shared =>
    unfold view Threads.move
    congr 1
    · exact Function.update_of_ne differs ..
    · funext j
      dsimp only
      split
      · next same =>
        rw [same, standing_other differs (there_stand p), standing_other differs there]
      · rfl

/-- What held at every slot holds after a step that keeps it at its own. -/
theorem slots_step {P : List (Option κ × SessionLife.Event) → Threads (Option κ) Slot Place → Prop}
    (labels : List (Option κ × Fin n × SessionLife.Event))
    (before : ∀ index, P (ofSlot index labels) (view index m))
    (step : ServerStep m (i, index, event) m')
    (own : P (ofSlot index labels ++ [(i, event)]) (view index m')) (other : Fin n) :
    P (ofSlot other (labels ++ [(i, index, event)])) (view other m') := by
  by_cases same : other = index
  · subst same
    rwa [ofSlot_self]
  · rw [ofSlot_other _ _ _ same, view_other step same]
    exact before other

end Views

/-! ## The stack -/

section Stack
variable {κ : Type*} {n : Nat}

/-- Every slot knows whether the stack has its index. -/
def Stacked (m : Threads (Option κ) (Server n) (Option (Fin n × Place))) : Prop :=
  ∀ index, m.shared.emptyIndexStack.count index = (m.shared.slots index).free

theorem start_stacked (sessionIDs : Fin n → Int64) (allocNum : Int64) :
    Stacked (serverStart κ sessionIDs allocNum) := by
  intro index
  exact (List.count_reverse ..).trans (List.count_finRange index)

def popped (event : SessionLife.Event) : Nat := if event = .popped then 1 else 0

def pushed (event : SessionLife.Event) : Nat := if event = .pushed then 1 else 0

theorem free_step {i : Option κ} {s s' : Slot} {p p' : Place} {event : SessionLife.Event}
    (step : SlotStep i s p event s' p') : s'.free + popped event = s.free + pushed event := by
  cases step with
  | accept step =>
    cases step with
    | pop free => exact free.symm
    | _ => rfl
  | serve j step =>
    rcases step with step | step | step | step <;> cases step <;> rfl

theorem count_self {index : Fin n} {event : SessionLife.Event} {stack stack' : List (Fin n)}
    {allocNum allocNum' : Int64} (shared : Shared index event stack allocNum stack' allocNum') :
    stack'.count index + popped event = stack.count index + pushed event := by
  cases shared with
  | popped => exact (List.count_cons_self ..).symm
  | pushed => exact List.count_cons_self ..
  | accepted => rfl
  | other _ _ pops accepts pushes =>
    rw [popped, pushed, if_neg pops, if_neg pushes]

theorem count_other {index other : Fin n} {event : SessionLife.Event} {stack stack' : List (Fin n)}
    {allocNum allocNum' : Int64} (shared : Shared index event stack allocNum stack' allocNum')
    (differs : other ≠ index) : stack'.count other = stack.count other := by
  cases shared with
  | popped => exact (List.count_cons_of_ne (Ne.symm differs)).symm
  | pushed => exact List.count_cons_of_ne (Ne.symm differs)
  | accepted | other => rfl

theorem stacked_step [DecidableEq κ] {m m' : Threads (Option κ) (Server n) (Option (Fin n × Place))}
    {label : Option κ × Fin n × SessionLife.Event} (stacked : Stacked m)
    (step : ServerStep m label m') : Stacked m' := by
  cases step with
  | @step i index event s p stack allocNum there taken names shared =>
    intro other
    have before := stacked other
    rw [Threads.shared_move]
    dsimp only
    by_cases same : other = index
    · subst same
      rw [Function.update_self]
      have free := free_step taken
      have count := count_self shared
      omega
    · rw [Function.update_of_ne same, count_other shared same]
      exact before

end Stack

/-! ## The numbers of all sessions -/

/-- The part of a session number above the index. -/
def allocNumOf (id : Int64) : Nat := id.toBitVec.toNat / 2 ^ 16

theorem allocNumOf_new (allocNum : Int64) {index : Nat} (small : index < 2 ^ 16) :
    allocNumOf (newSessionID allocNum index) = allocNum.toBitVec.toNat % 2 ^ 48 := by
  unfold allocNumOf newSessionID
  have sixteen : BitVec.smod (16 : Int64).toBitVec 64 = 16#64 := by decide
  rw [Int64.toBitVec_or, Int64.toBitVec_shiftLeft, BitVec.toNat_or, Int64.toBitVec_ofNat', sixteen]
  simp only [BitVec.shiftLeft_eq', BitVec.toNat_ofNat, BitVec.toNat_shiftLeft]
  have low : index % 2 ^ 64 / 2 ^ 16 = 0 := by omega
  rw [Nat.or_div_two_pow, low, Nat.or_zero, Nat.shiftLeft_eq]
  simp only [Nat.reducePow, Nat.reduceMod]
  omega

section Numbers
variable {κ : Type*} {n : Nat}

/-- The numbers of all sessions that were accepted. -/
def given (labels : List (Option κ × Fin n × SessionLife.Event)) : List Int64 :=
  labels.flatMap fun label => Event.acceptedID label.2.2

theorem given_snoc (labels : List (Option κ × Fin n × SessionLife.Event))
    (label : Option κ × Fin n × SessionLife.Event) :
    given (labels ++ [label]) = given labels ++ Event.acceptedID label.2.2 := by
  rw [given, List.flatMap_append, List.flatMap_singleton]
  rfl

/-- The sessions get one number after the other. -/
structure Allocated (start : Int64) (labels : List (Option κ × Fin n × SessionLife.Event))
    (allocNum : Int64) : Prop where
  next : allocNum.toBitVec.toNat = (start.toBitVec.toNat + (given labels).length) % 2 ^ 64
  numbers : (given labels).map allocNumOf =
    (List.range (given labels).length).map fun j => (start.toBitVec.toNat + j) % 2 ^ 48

/-- A step gives a session the next number, or none. -/
theorem acceptedID_shared {index : Fin n} {event : SessionLife.Event} {stack stack' : List (Fin n)}
    {allocNum allocNum' : Int64} (shared : Shared index event stack allocNum stack' allocNum') :
    Event.acceptedID event = [] ∧ allocNum' = allocNum ∨
      Event.acceptedID event = [newSessionID allocNum index] ∧ allocNum' = allocNum + 1 := by
  cases shared with
  | popped | pushed => exact .inl ⟨rfl, rfl⟩
  | accepted => exact .inr ⟨rfl, rfl⟩
  | other _ _ pops accepts pushes =>
    cases event with
    | accepted id => exact absurd rfl (accepts id)
    | _ => exact .inl ⟨rfl, rfl⟩

theorem allocated_step [DecidableEq κ] {start : Int64}
    {m m' : Threads (Option κ) (Server n) (Option (Fin n × Place))}
    {labels : List (Option κ × Fin n × SessionLife.Event)} {label : Option κ × Fin n × SessionLife.Event}
    (within : n ≤ maxSession) (allocated : Allocated start labels m.shared.sessionAllocNum)
    (step : ServerStep m label m') :
    Allocated start (labels ++ [label]) m'.shared.sessionAllocNum := by
  cases step with
  | @step i index event s p stack allocNum there taken names shared =>
    obtain ⟨next, numbers⟩ := allocated
    rw [Threads.shared_move]
    rcases acceptedID_shared shared with ⟨none, same⟩ | ⟨one, more⟩
    · have keep : given (labels ++ [(i, index, event)]) = given labels := by
        rw [given_snoc, none, List.append_nil]
      dsimp only
      rw [same]
      exact ⟨by rw [keep, next], by rw [keep, numbers]⟩
    · have longer : given (labels ++ [(i, index, event)]) =
          given labels ++ [newSessionID m.shared.sessionAllocNum index] := by rw [given_snoc, one]
      have small : (index : Nat) < 2 ^ 16 := by
        have bound := index.isLt
        unfold maxSession at within
        omega
      constructor
      · rw [longer, List.length_append, List.length_singleton]
        dsimp only
        rw [more, Int64.toBitVec_add, BitVec.toNat_add, next]
        change (_ + 1) % 2 ^ 64 = _
        omega
      · rw [longer, List.map_append, List.length_append, List.length_singleton, List.range_succ,
          List.map_append, numbers, List.map_singleton, List.map_singleton,
          allocNumOf_new _ small, next]
        congr 2
        omega

/-- The first 2^48 sessions have different numbers. -/
theorem given_nodup {start : Int64} {labels : List (Option κ × Fin n × SessionLife.Event)}
    {allocNum : Int64} (allocated : Allocated start labels allocNum)
    (few : (given labels).length ≤ 2 ^ 48) : (given labels).Nodup := by
  refine List.Nodup.of_map allocNumOf ?_
  rw [allocated.numbers]
  refine List.Nodup.map_on (fun j below k below' same => ?_) List.nodup_range
  rw [List.mem_range] at below below'
  omega

/-- The numbers of the sessions of a slot are among those of all. -/
theorem accepted_ofSlot (index : Fin n) (labels : List (Option κ × Fin n × SessionLife.Event)) :
    (accepted (ofSlot index labels)).Sublist (given labels) := by
  induction labels with
  | nil => exact List.Sublist.refl _
  | cons label labels ih =>
    unfold accepted ofSlot given at *
    rw [List.filterMap_cons, List.flatMap_cons]
    split
    · exact ih.trans (List.sublist_append_right ..)
    · next same =>
      split at same
      · obtain rfl := Option.some.inj same
        rw [List.flatMap_cons]
        exact List.Sublist.append (List.Sublist.refl _) ih
      · cases same

end Numbers

/-! ## A server with one slot -/

section Alone
variable {κ : Type*} {i : Option κ} {s s' : Slot} {stack stack' : List (Fin 1)}
  {allocNum allocNum' : Int64} {p p' : Place}

/-- The server, with the place of the thread that takes the steps. -/
structure Alone where
  slot : Slot
  stack : List (Fin 1)
  allocNum : Int64
  place : Place

def Alone.server (x : Alone) : Server 1 := ⟨fun _ => x.slot, x.stack, x.allocNum⟩

/-- What one thread does while the others stand still. -/
structure AloneStep (i : Option κ) (x : Alone) (event : SessionLife.Event) (y : Alone) : Prop where
  taken : SlotStep i x.slot x.place event y.slot y.place
  names : ∀ id, y.place = .findValid id → indexOf id = 0
  shared : Shared (0 : Fin 1) event x.stack x.allocNum y.stack y.allocNum

theorem alone_accept {event : SessionLife.Event} (step : AcceptStep s p event s' p')
    (shared : Shared 0 event stack allocNum stack' allocNum') :
    AloneStep (none : Option κ) ⟨s, stack, allocNum, p⟩ event ⟨s', stack', allocNum', p'⟩ :=
  ⟨.accept step, fun _ (here : p' = _) => (by cases step <;> cases here), shared⟩

theorem alone_serve {j : κ} {event : SessionLife.Event} (step : ServeStep s p event s' p')
    (names : ∀ id, p' = .findValid id → indexOf id = 0)
    (shared : Shared 0 event stack allocNum stack' allocNum') :
    AloneStep (some j) ⟨s, stack, allocNum, p⟩ event ⟨s', stack', allocNum', p'⟩ :=
  ⟨.serve j step, names, shared⟩

theorem shared_other : Shared (0 : Fin 1) .other stack allocNum stack allocNum :=
  .other _ _ (by simp) (by simp) (by simp)

/-- The labels of what a thread does. -/
def eventsOf (i : Option κ) (events : List SessionLife.Event) :
    List (Option κ × Fin 1 × SessionLife.Event) := events.map fun event => (i, 0, event)

theorem alone_run [DecidableEq κ] {places : Option κ → Option (Fin 1 × Place)} {x y : Alone}
    {events : List SessionLife.Event} (here : places i = stand 0 x.place)
    (run : Run (AloneStep i) x events y) :
    Run ServerStep ⟨x.server, places⟩ (eventsOf i events)
      ⟨y.server, Function.update places i (stand 0 y.place)⟩ := by
  induction run generalizing places with
  | nil x =>
    rw [← here, Function.update_eq_self]
    exact .nil _
  | @cons x y z event events step _ ih =>
    have after : Function.update places i (stand 0 y.place) i = stand 0 y.place :=
      Function.update_self ..
    have next := ih after
    rw [Function.update_idem] at next
    refine .cons ?_ next
    have stands : places i = none ∨ ∃ p, places i = some (0, p) := here ▸ there_stand x.place
    have taken : SlotStep i x.slot (standing 0 (places i)) event y.slot y.place := by
      rw [here, standing_stand]
      exact step.taken
    convert ServerStep.step (m := ⟨x.server, places⟩) stands taken step.names step.shared using 1
    unfold Threads.move Alone.server
    congr 1
    · congr 1
      exact funext fun index => by rw [Subsingleton.elim index 0, Function.update_self]
    · exact funext fun j => Function.update_apply ..

/-- A thread that ends where it started. -/
theorem alone_round [DecidableEq κ] {places : Option κ → Option (Fin 1 × Place)} {x y : Alone}
    {events : List SessionLife.Event} (here : places i = stand 0 x.place) (run : Run (AloneStep i) x events y)
    (back : y.place = x.place) :
    Run ServerStep ⟨x.server, places⟩ (eventsOf i events) ⟨y.server, places⟩ := by
  have run := alone_run here run
  rwa [back, ← here, Function.update_eq_self] at run

/-- A slot without a session, and one with a session. -/
def vacant (id : Int64) (releaseFlag : Int) (ids : List Int64) : Slot :=
  ⟨id, false, releaseFlag, 0, 0, 0, 1, ids⟩

def session (id : Int64) (ioCount : Int) (pending requests : Nat) (ids : List Int64) : Slot :=
  ⟨id, true, delflagOff, ioCount, pending, requests, 0, ids⟩

/-- `AcceptThread` up to the call of `OnClientJoin`, and the rest. -/
theorem accept_opens (id : Int64) (releaseFlag : Int) (ids : List Int64) (allocNum : Int64) :
    Run (AloneStep (none : Option κ)) ⟨vacant id releaseFlag ids, [0], allocNum, .idle⟩
      [.popped, .accepted (newSessionID allocNum 0), .other, .other, .other]
      ⟨session (newSessionID allocNum 0) 1 0 0 (ids ++ [newSessionID allocNum 0]), [], allocNum + 1,
        .acceptJoin⟩ := by
  have free : (vacant id releaseFlag ids).free = 0 + 1 := rfl
  refine .cons (alone_accept (.pop free) (.popped [] allocNum)) ?_
  refine .cons (alone_accept (.sessionID _ _) (.accepted [] allocNum)) ?_
  refine .cons (alone_accept (.enter _) shared_other) ?_
  refine .cons (alone_accept (.valid _) shared_other) ?_
  exact .single (alone_accept (.flag _) shared_other)

theorem accept_joins (id : Int64) (ids : List Int64) (stack : List (Fin 1)) (allocNum : Int64) :
    Run (AloneStep (none : Option κ)) ⟨session id 1 0 0 ids, stack, allocNum, .acceptJoin⟩
      [.joined id, .other] ⟨session id 1 1 0 ids, stack, allocNum, .idle⟩ := by
  refine .cons (alone_accept (.join _) (.other _ _ (by simp) (by simp) (by simp))) ?_
  exact .single (alone_accept (.recv _) shared_other)

/-- A worker with the last completion. -/
theorem take_alone (j : κ) (id : Int64) (ids : List Int64) (stack : List (Fin 1)) (allocNum : Int64) :
    Run (AloneStep (some j)) ⟨session id 1 1 0 ids, stack, allocNum, .idle⟩ [.other, .other]
      ⟨session id 0 0 0 ids, stack, allocNum, .finished⟩ := by
  have pending : (session id 1 1 0 ids).pending = 0 + 1 := rfl
  have finishes : WorkerStep (session id 1 0 0 ids) .working .other (session id 0 0 0 ids) .finished :=
    .finish _
  refine .cons (alone_serve (.worker (.take pending)) (by simp) shared_other) ?_
  exact .single (alone_serve (.worker finishes) (by simp) shared_other)

/-- `findSession` up to the count, and the rest of a send whose count is the last. -/
theorem find_alone (j : κ) {id : Int64} (first : indexOf id = 0) (ids : List Int64) (stack : List (Fin 1))
    (allocNum : Int64) :
    Run (AloneStep (some j)) ⟨session id 1 1 0 ids, stack, allocNum, .idle⟩ [.other, .other]
      ⟨session id 1 1 0 ids, stack, allocNum, .findEnter id⟩ := by
  refine .cons (alone_serve (.find (.call _ id)) ?_ shared_other) ?_
  · intro id' same
    obtain rfl := Place.findValid.inj same
    exact first
  · exact .single (alone_serve (.find (.valid _ rfl)) (by simp) shared_other)

theorem use_alone (j : κ) (id : Int64) (ids : List Int64) (stack : List (Fin 1)) (allocNum : Int64) :
    Run (AloneStep (some j)) ⟨session id 0 0 0 ids, stack, allocNum, .findEnter id⟩
      [.other, .other, .other, .other, .other, .other]
      ⟨session id 0 0 1 ids, stack, allocNum, .idle⟩ := by
  have leaves : UseStep (session id 1 0 0 ids) .leave .other (session id 0 0 0 ids) .zero := .leave _
  have open' : delflagOff ≠ delflagOn := by decide
  refine .cons (alone_serve (.find (.enter _ _)) (by simp) shared_other) ?_
  refine .cons (alone_serve (.find (.off _ open')) (by simp) shared_other) ?_
  refine .cons (alone_serve (.find (.same _ rfl)) (by simp) shared_other) ?_
  refine .cons (alone_serve (.use (.found _ _)) (by simp) shared_other) ?_
  refine .cons (alone_serve (.use leaves) (by simp) shared_other) ?_
  exact .single (alone_serve (.use (.request _)) (by simp) shared_other)

/-- A worker takes the request for the release. -/
theorem ask_alone (j : κ) (id : Int64) (ids : List Int64) (stack : List (Fin 1)) (allocNum : Int64) :
    Run (AloneStep (some j)) ⟨session id 0 0 1 ids, stack, allocNum, .idle⟩ [.other]
      ⟨session id 0 0 0 ids, stack, allocNum, .finished⟩ := by
  have requests : (session id 0 0 1 ids).requests = 0 + 1 := rfl
  exact .single (alone_serve (.worker (.request requests)) (by simp) shared_other)

/-- `releaseSession` up to the test, from the test to `OnClientLeave`, and the rest. -/
theorem test_alone (j : κ) (id : Int64) (requests : Nat) (ids : List Int64) (stack : List (Fin 1))
    (allocNum : Int64) :
    Run (AloneStep (some j)) ⟨session id 0 0 requests ids, stack, allocNum, .finished⟩
      [.other, .other, .other]
      ⟨session id 0 0 requests ids, stack, allocNum, .releaseFlag id 0⟩ := by
  refine .cons (alone_serve (.worker (.release _)) (by simp) shared_other) ?_
  refine .cons (alone_serve (.release (.valid _ rfl)) (by simp) shared_other) ?_
  exact .single (alone_serve (.release (.count _ _)) (by simp) shared_other)

theorem leave_alone (j : κ) (id : Int64) (ioCount : Int) (ids : List Int64) (stack : List (Fin 1))
    (allocNum : Int64) :
    Run (AloneStep (some j)) ⟨session id ioCount 0 0 ids, stack, allocNum, .releaseFlag id 0⟩
      [.other, .other, .other, .other, .left id]
      ⟨⟨id, false, delflagOn, ioCount, 0, 0, 0, ids⟩, stack, allocNum, .push⟩ := by
  refine .cons (alone_serve (.release (.exchanged _ rfl)) (by simp) shared_other) ?_
  refine .cons (alone_serve (.release (.read _ _)) (by simp) shared_other) ?_
  refine .cons (alone_serve (.release (.same _ rfl)) (by simp) shared_other) ?_
  refine .cons (alone_serve (.release (.clean _ _)) (by simp) shared_other) ?_
  exact .single (alone_serve (.release (.leaving _ _)) (by simp)
    (.other _ _ (by simp) (by simp) (by simp)))

theorem push_alone (j : κ) (id : Int64) (ids : List Int64) (allocNum : Int64) :
    Run (AloneStep (some j)) ⟨⟨id, false, delflagOn, 0, 0, 0, 0, ids⟩, [], allocNum, .push⟩ [.pushed]
      ⟨vacant id delflagOn ids, [0], allocNum, .idle⟩ :=
  .single (alone_serve (.release (.push _)) (by simp) (.pushed [] allocNum))

/-- The calls of `OnClientJoin` without one of `OnClientLeave`. -/
def unleft (labels : List (Option κ × Fin 1 × SessionLife.Event)) : Int :=
  (joined (ofSlot 0 labels)).length - (left (ofSlot 0 labels)).length

theorem unleft_append (labels later : List (Option κ × Fin 1 × SessionLife.Event)) :
    unleft (labels ++ later) = unleft labels + unleft later := by
  simp only [unleft, joined, left, ofSlot, List.filterMap_append, List.flatMap_append,
    List.length_append]
  omega

theorem unleft_events (i : Option κ) (events : List SessionLife.Event) :
    unleft (eventsOf i events) =
      (events.flatMap Event.joinedID).length - (events.flatMap Event.leftID).length := by
  simp [unleft, joined, left, ofSlot, eventsOf, List.filterMap_map, List.flatMap_map]

/-- A session more has come and gone. -/
theorem cycle_run [DecidableEq κ] {places : Option κ → Option (Fin 1 × Place)} {j : κ}
    (acceptor : places none = none) (worker : places (some j) = none) (id : Int64)
    (ids : List Int64) (allocNum : Int64) :
    ∃ labels, Run ServerStep ⟨Alone.server ⟨vacant id delflagOn ids, [0], allocNum, .idle⟩, places⟩ labels
        ⟨Alone.server ⟨vacant (newSessionID allocNum 0) delflagOn (ids ++ [newSessionID allocNum 0]), [0],
          allocNum + 1, .idle⟩, places⟩ ∧ unleft labels = 0 := by
  have sets := (accept_opens (κ := κ) id delflagOn ids allocNum).append (accept_joins ..)
  have cleans := (take_alone j (newSessionID allocNum 0) (ids ++ [newSessionID allocNum 0]) []
    (allocNum + 1)).append ((test_alone ..).append ((leave_alone ..).append (push_alone ..)))
  have accepts := alone_round acceptor sets rfl
  have leaves := alone_round worker cleans rfl
  refine ⟨_, accepts.append leaves, ?_⟩
  rw [unleft_append, unleft_events, unleft_events]
  rfl

theorem cycles_run [DecidableEq κ] {places : Option κ → Option (Fin 1 × Place)} {j : κ}
    (acceptor : places none = none) (worker : places (some j) = none) (id : Int64)
    (ids : List Int64) (allocNum : Int64) (k : Nat) :
    ∃ labels id' ids', Run ServerStep ⟨Alone.server ⟨vacant id delflagOn ids, [0], allocNum, .idle⟩, places⟩ labels
        ⟨Alone.server ⟨vacant id' delflagOn ids', [0], allocNum + Int64.ofNat k, .idle⟩, places⟩ ∧
      unleft labels = 0 := by
  induction k generalizing id ids allocNum with
  | zero =>
    refine ⟨[], id, ids, ?_, rfl⟩
    rw [show Int64.ofNat 0 = 0 from rfl, Int64.add_zero]
    exact .nil _
  | succ k ih =>
    obtain ⟨first, once, even⟩ := cycle_run acceptor worker id ids allocNum
    obtain ⟨later, id', ids', more, even'⟩ := ih (newSessionID allocNum 0)
      (ids ++ [newSessionID allocNum 0]) (allocNum + 1)
    refine ⟨first ++ later, id', ids', once.append ?_, by rw [unleft_append, even, even']; rfl⟩
    have next : allocNum + Int64.ofNat (k + 1) = allocNum + 1 + Int64.ofNat k := by
      rw [Int64.ofNat_add, Int64.add_comm (Int64.ofNat k), ← Int64.add_assoc]
      rfl
    rwa [next]

end Alone

/-! ## The life cycle -/

section Runs
variable {κ : Type*} {n : Nat} {labels : List (Option κ × Fin n × SessionLife.Event)}
  {m m' : Threads (Option κ) (Server n) (Option (Fin n × Place))}

/-- The counts are right, no session leaves twice or before it has joined, every index is
in its place, and the sessions have different numbers. -/
structure LifeCycle (labels : List (Option κ × Fin n × SessionLife.Event))
    (m : Threads (Option κ) (Server n) (Option (Fin n × Place))) : Prop where
  counts : ∀ index, 0 ≤ (m.shared.slots index).ioCount
  once : ∀ index id,
    (left (ofSlot index labels)).count id ≤ (accepted (ofSlot index labels)).count id
  joined : ∀ index id,
    (left (ofSlot index labels)).count id ≤ (joined (ofSlot index labels)).count id
  stacked : Stacked m
  placed : ∀ index, Placed (ofSlot index labels) (view index m)
  numbers : (given labels).length < 2 ^ 47 → (given labels).Nodup

/-- What holds in every state reached. The first 2^48 sessions have numbers that are not
given twice. -/
structure Reached [Fintype κ] (start : Int64) (labels : List (Option κ × Fin n × SessionLife.Event))
    (m : Threads (Option κ) (Server n) (Option (Fin n × Place))) : Prop where
  kept : ∀ index, Kept (view index m)
  stacked : Stacked m
  allocated : Allocated start labels m.shared.sessionAllocNum
  accounted : ∀ index, Accounted (ofSlot index labels) (view index m)
  numbered : (given labels).length ≤ 2 ^ 48 →
    ∀ index, Numbered (ofSlot index labels) (view index m)

theorem start_reached [Fintype κ] (sessionIDs : Fin n → Int64) (allocNum : Int64) :
    Reached allocNum [] (serverStart κ sessionIDs allocNum) where
  kept := fun index => start_kept (sessionIDs index)
  stacked := start_stacked sessionIDs allocNum
  allocated := ⟨(Nat.mod_eq_of_lt allocNum.toBitVec.isLt).symm, rfl⟩
  accounted := fun index => start_accounted (sessionIDs index)
  numbered := fun _ index => start_numbered (sessionIDs index)

/-- The number that a session gets is new. -/
theorem given_fresh {start allocNum : Int64} {index : Fin n} {i : Option κ} {event : SessionLife.Event}
    (numbered : Numbered (ofSlot index labels) (view index m))
    (allocated : Allocated start (labels ++ [(i, index, event)]) allocNum)
    (few : (given (labels ++ [(i, index, event)])).length ≤ 2 ^ 48) :
    Fresh (view index m) (i, event) := by
  intro id new old
  have nodup := given_nodup allocated few
  rw [given_snoc] at nodup
  rw [numbered.ids] at old
  exact List.disjoint_of_nodup_append nodup ((accepted_ofSlot index labels).subset old) new

variable [DecidableEq κ]

theorem reached_step [Fintype κ] {start : Int64} {label : Option κ × Fin n × SessionLife.Event}
    (within : n ≤ maxSession) (reached : Reached start labels m) (step : ServerStep m label m') :
    Reached start (labels ++ [label]) m' := by
  obtain ⟨i, here, event⟩ := label
  have allocated := allocated_step within reached.allocated step
  have slot := view_step step
  constructor
  case stacked => exact stacked_step reached.stacked step
  case allocated => exact allocated
  case kept =>
    exact slots_step (P := fun _ m => Kept m) labels reached.kept step (kept_step (reached.kept here) slot)
  case accounted =>
    exact slots_step (P := Accounted) labels reached.accounted step
      (accounted_step (reached.accounted here) slot)
  case numbered =>
    intro few
    have numbered := reached.numbered (by
      rw [given_snoc, List.length_append] at few
      omega)
    exact slots_step (P := Numbered) labels numbered step
      (numbered_step (reached.kept here) (numbered here) slot (given_fresh (numbered here) allocated few))

/-- The life of every session is one cycle, as long as no number is given twice. The
counts are right in any case. -/
theorem life_cycle [Fintype κ] {sessionIDs : Fin n → Int64} {allocNum : Int64}
    (within : n ≤ maxSession) (run : Run ServerStep (serverStart κ sessionIDs allocNum) labels m) :
    (∀ index, 0 ≤ (m.shared.slots index).ioCount) ∧
      ((given labels).length ≤ 2 ^ 48 → LifeCycle labels m) := by
  have reached : Reached allocNum labels m := run.history
    (fun _ _ _ _ before step => reached_step within before step) (start_reached sessionIDs allocNum)
  have counts (index : Fin n) := (reached.kept index).1.count
  refine ⟨counts, fun few => ?_⟩
  have numbered := reached.numbered few
  exact {
    counts
    once := fun index id => (left_subperm (numbered index)).count_le id
    joined := fun index id =>
      (List.subperm_of_subset (numbered index).leftNodup (numbered index).leftJoined).count_le id
    stacked := reached.stacked
    placed := fun index => placed (reached.kept index) (numbered index) (reached.accounted index)
    numbers := fun _ => given_nodup reached.allocated few }

end Runs

/-- One session comes and goes. -/
theorem life_cycle_one : ∃ labels m,
    Run ServerStep (serverStart (Fin 1) (fun _ : Fin 1 => 0) 0) labels m ∧
      left (ofSlot 0 labels) = [newSessionID 0 0] ∧ LifeCycle labels m := by
  let places : Option (Fin 1) → Option (Fin 1 × Place) := fun _ => none
  have sets := (accept_opens (κ := Fin 1) 0 delflagOff [] 0).append (accept_joins ..)
  have cleans := (take_alone (0 : Fin 1) (newSessionID 0 0) [newSessionID 0 0] [] 1).append
    ((test_alone ..).append ((leave_alone ..).append (push_alone ..)))
  have acceptor : places none = stand 0 .idle := rfl
  have worker : places (some 0) = stand 0 .idle := rfl
  have first := alone_round acceptor sets rfl
  have second := alone_round worker cleans rfl
  have run := first.append second
  exact ⟨_, _, run, rfl, (life_cycle (by decide) run).2 (by decide)⟩

/-- The sender is thread 0. Two workers release the session, worker 1 stops before its
test of `releaseFlag`. -/
theorem stale_run : ∃ labels places,
    Run ServerStep (serverStart (Fin 3) (fun _ : Fin 1 => 0) 0) labels
      ⟨Alone.server ⟨vacant (newSessionID 0 0) delflagOn [newSessionID 0 0], [0], 1, .idle⟩, places⟩ ∧
    places none = none ∧ places (some 1) = some (0, .releaseFlag (newSessionID 0 0) 0) ∧
    places (some 2) = none ∧ unleft labels = 0 := by
  let id := newSessionID 0 0
  -- the sender has seen the session valid when its last count goes
  have accepts := (accept_opens (κ := Fin 3) 0 delflagOff [] 0).append (accept_joins ..)
  have finds := find_alone (0 : Fin 3) (by decide : indexOf id = 0) [id] [] 1
  have uses := use_alone (0 : Fin 3) id [id] [] 1
  have asks := ask_alone (2 : Fin 3) id [id] [] 1
  have cleans := asks.append ((test_alone (2 : Fin 3) id 0 [id] [] 1).append
    ((leave_alone ..).append (push_alone ..)))
  let places₀ : Option (Fin 3) → Option (Fin 1 × Place) := fun _ => none
  let places₁ := Function.update places₀ (some 0) (stand 0 (.findEnter id))
  let places₂ := Function.update places₁ (some 1) (stand 0 .finished)
  let places₃ := Function.update places₂ (some 0) (stand 0 .idle)
  let places₄ := Function.update places₃ (some 1) (stand 0 (.releaseFlag id 0))
  have acceptor : places₀ none = stand 0 .idle := rfl
  have sender : places₀ (some 0) = stand 0 .idle := rfl
  have worker : places₁ (some 1) = stand 0 .idle := rfl
  have sender' : places₂ (some 0) = stand 0 (.findEnter id) := rfl
  have worker' : places₃ (some 1) = stand 0 .finished := rfl
  have other : places₄ (some 2) = stand 0 .idle := rfl
  have first := alone_round acceptor accepts rfl
  have second := alone_run sender finds
  have third := alone_run worker (take_alone 1 id [id] [] 1)
  have fourth := alone_run sender' uses
  have fifth := alone_run worker' (test_alone 1 id 1 [id] [] 1)
  have sixth := alone_round other cleans rfl
  refine ⟨_, places₄, first.append (second.append (third.append (fourth.append
    (fifth.append sixth)))), rfl, rfl, rfl, ?_⟩
  simp only [unleft_append, unleft_events]
  rfl

/-- With the number of the first session given again, the release that is late for it
takes the new session down before `OnClientJoin`. -/
theorem repeated_number_leaves_unjoined : ¬ ∀ labels m,
    Run ServerStep (serverStart (Fin 3) (fun _ : Fin 1 => 0) 0) labels m → LifeCycle labels m := by
  intro whole
  obtain ⟨before, places, stale, acceptor, late, worker, even⟩ := stale_run
  obtain ⟨between, id, ids, cycles, even'⟩ := cycles_run acceptor worker (newSessionID 0 0)
    [newSessionID 0 0] 1 (2 ^ 48 - 1)
  have again : newSessionID (1 + Int64.ofNat (2 ^ 48 - 1)) 0 = newSessionID 0 0 := by decide
  have opens := alone_run acceptor (accept_opens (κ := Fin 3) id delflagOn ids
    (1 + Int64.ofNat (2 ^ 48 - 1)))
  rw [again] at opens
  have late' : Function.update places none (stand 0 .acceptJoin) (some 1) =
      stand 0 (.releaseFlag (newSessionID 0 0) 0) := late
  have leaves := alone_run late' (leave_alone (1 : Fin 3) (newSessionID 0 0) 1
    (ids ++ [newSessionID 0 0]) [] (1 + Int64.ofNat (2 ^ 48 - 1) + 1))
  have cycle := whole _ _ (stale.append (cycles.append (opens.append leaves)))
  have fewer := (List.subperm_ext_iff.mpr fun id _ => cycle.joined 0 id).length_le
  have more : unleft (before ++ (between ++ (eventsOf (none : Option (Fin 3)) [.popped,
      .accepted (newSessionID 0 0), .other, .other, .other] ++
        eventsOf (some 1) [.other, .other, .other, .other, .left (newSessionID 0 0)]))) = -1 := by
    rw [unleft_append, unleft_append, unleft_append, even, even', unleft_events, unleft_events]
    rfl
  unfold unleft at more
  omega

end NewNameAuction.SessionLifeCycle
