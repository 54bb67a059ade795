import NewNameAuction.SessionOwner

/-! The numbers of the sessions of a slot. As long as no number is given twice, a release
attempt that is late for its session does not take the next one down: it has the old
number, or it has read a count that is not 0. -/
namespace NewNameAuction.SessionNumbers
open SessionSlot (delflagOff delflagOn)
open SessionLife SessionOwner

/-! ## What has been called -/

namespace Event

def acceptedID : SessionLife.Event → List Int64
  | .accepted id => [id]
  | _ => []

def joinedID : SessionLife.Event → List Int64
  | .joined id => [id]
  | _ => []

def leftID : SessionLife.Event → List Int64
  | .left id => [id]
  | _ => []

end Event

section Numbers
variable {κ : Type*}

def accepted (labels : List (Option κ × SessionLife.Event)) : List Int64 :=
  labels.flatMap fun label => Event.acceptedID label.2

def joined (labels : List (Option κ × SessionLife.Event)) : List Int64 :=
  labels.flatMap fun label => Event.joinedID label.2

def left (labels : List (Option κ × SessionLife.Event)) : List Int64 :=
  labels.flatMap fun label => Event.leftID label.2

section Snoc
variable (labels : List (Option κ × SessionLife.Event)) (label : Option κ × SessionLife.Event)

theorem accepted_snoc : accepted (labels ++ [label]) = accepted labels ++ Event.acceptedID label.2 := by
  rw [accepted, List.flatMap_append, List.flatMap_singleton]
  rfl

theorem joined_snoc : joined (labels ++ [label]) = joined labels ++ Event.joinedID label.2 := by
  rw [joined, List.flatMap_append, List.flatMap_singleton]
  rfl

theorem left_snoc : left (labels ++ [label]) = left labels ++ Event.leftID label.2 := by
  rw [left, List.flatMap_append, List.flatMap_singleton]
  rfl

end Snoc

/-- A session gets a number the slot has not had. -/
def Fresh (m : Threads (Option κ) Slot Place) (label : Option κ × SessionLife.Event) : Prop :=
  ∀ id ∈ Event.acceptedID label.2, id ∉ m.shared.ids

end Numbers

/-! ## The threads and the numbers -/

/-- The numbers that a thread has read. -/
def held : Place → List Int64
  | .found id | .releaseValid id | .releaseCount id | .releaseFlag id _ | .releaseID id => [id]
  | .releaseCheck id tempID => [id, tempID]
  | .reenter tempID | .reopen tempID | .relet tempID => [tempID]
  | .clean id | .leaving id => [id]
  | .idle | .findValid _ | .findEnter _ | .findFlag _ | .findID _ | .findFailed => []
  | .posting | .unposted | .leave | .zero | .working | .starting | .finished | .push => []
  | .acceptID | .acceptEnter | .acceptValid | .acceptFlag | .acceptJoin | .acceptRecv => []

/-- The number with which a thread is past `isValid` in `releaseSession`. -/
def past : Place → List Int64
  | .releaseCount id | .releaseFlag id _ | .releaseID id | .releaseCheck id _ => [id]
  | .clean id | .leaving id => [id]
  | .idle | .findValid _ | .findEnter _ | .findFlag _ | .findID _ | .findFailed => []
  | .found _ | .posting | .unposted | .leave | .zero | .working | .starting | .finished => []
  | .releaseValid _ | .reenter _ | .reopen _ | .relet _ | .push => []
  | .acceptID | .acceptEnter | .acceptValid | .acceptFlag | .acceptJoin | .acceptRecv => []

/-- The number with which a thread has read a count of 0 there. -/
def tested : Place → List Int64
  | .releaseFlag id tempCount => if tempCount = 0 then [id] else []
  | .releaseID id | .releaseCheck id _ | .clean id | .leaving id => [id]
  | .idle | .findValid _ | .findEnter _ | .findFlag _ | .findID _ | .findFailed => []
  | .found _ | .posting | .unposted | .leave | .zero | .working | .starting | .finished => []
  | .releaseValid _ | .releaseCount _ | .reenter _ | .reopen _ | .relet _ | .push => []
  | .acceptID | .acceptEnter | .acceptValid | .acceptFlag | .acceptJoin | .acceptRecv => []

theorem past_held (p : Place) : past p ⊆ held p := by
  cases p <;> simp [past, held]

theorem tested_past (p : Place) : tested p ⊆ past p := by
  cases p with
  | releaseFlag id tempCount =>
    simp only [tested, past]
    split <;> simp
  | _ => simp [past, tested]

section Steps
variable {s s' : Slot} {p p' : Place} {event : SessionLife.Event}

theorem held_step (step : ServeStep s p event s' p') :
    ∀ id ∈ held p', id ∈ held p ∨ id = s.sessionID := by
  rcases step with step | step | step | step <;> cases step <;> (try split) <;> simp_all [held]

theorem past_step (step : ServeStep s p event s' p') (invalid : s.isValid = false) {id : Int64}
    (away : id ∉ past p) : id ∉ past p' := by
  rcases step with step | step | step | step <;> cases step <;> (try split) <;> simp_all [past]

/-- While `IOcount` is not 0, nobody comes to compare the number of the session. -/
theorem tested_step (step : ServeStep s p event s' p') (counts : s.ioCount ≠ 0)
    (clear : ∀ id tempCount, p = .releaseFlag id tempCount → s.releaseFlag = tempCount → tempCount = 0)
    (away : s.sessionID ∉ tested p) : s.sessionID ∉ tested p' := by
  rcases step with step | step | step | step
  · cases step <;> (try split) <;> simp_all [tested]
  · cases step <;> (try split) <;> simp_all [tested]
  · cases step <;> (try split) <;> simp_all [tested]
  · cases step with
    | exchanged id equal =>
      have zero := clear _ _ rfl equal
      simp_all [tested]
    | relet tempID => split <;> simp [tested]
    | _ => simp_all [tested]

theorem number_step (step : ServeStep s p event s' p') :
    s'.sessionID = s.sessionID ∧ s'.ids = s.ids := by
  rcases step with step | step | step | step <;> cases step <;> exact ⟨rfl, rfl⟩

theorem valid_step (step : ServeStep s p event s' p') :
    s'.isValid = s.isValid ∨ s'.isValid = false ∧ ∃ id, p = .clean id := by
  rcases step with step | step | step | step <;> cases step <;>
    first | exact .inl rfl | exact .inr ⟨rfl, _, rfl⟩

theorem clean_step (step : ServeStep s p event s' p') {id : Int64} (clean : p' = .clean id) :
    id = s.sessionID := by
  rcases step with step | step | step | step <;> cases step <;> (try split at clean) <;> simp_all

theorem leaving_step (step : ServeStep s p event s' p') {id : Int64} (leaving : p' = .leaving id) :
    p = .clean id ∧ event = .other := by
  rcases step with step | step | step | step <;> cases step <;> (try split at leaving) <;> simp_all

/-- A sender or worker accepts nothing, and what leaves is the number it cleans up for. -/
theorem event_step (step : ServeStep s p event s' p') :
    Event.acceptedID event = [] ∧ Event.joinedID event = [] ∧
      (Event.leftID event = [] ∨ ∃ id, p = .leaving id ∧ Event.leftID event = [id]) := by
  rcases step with step | step | step | step <;> cases step <;>
    first | exact ⟨rfl, rfl, .inl rfl⟩ | exact ⟨rfl, rfl, .inr ⟨_, rfl, rfl⟩⟩

end Steps

/-! ## The session and its calls -/

/-- `AcceptThread` between `sessionID` and `isValid`. -/
def numbering : Place → Bool
  | .acceptEnter | .acceptValid => true
  | _ => false

/-- `AcceptThread` from `isValid` to `OnClientJoin`. -/
def joining : Place → Bool
  | .acceptFlag | .acceptJoin => true
  | _ => false

section Numbered
variable {κ : Type*} {labels : List (Option κ × SessionLife.Event)}
  {m : Threads (Option κ) Slot Place} {owner : Owner (Option κ)}

/-- What the numbers say, when no number is given twice. -/
structure Numbered (labels : List (Option κ × SessionLife.Event))
    (m : Threads (Option κ) Slot Place) : Prop where
  ids : m.shared.ids = accepted labels
  /-- Before the first session. -/
  unnumbered : m.shared.ids = [] → m.shared.isValid = false ∧ m.shared.pending = 0 ∧
    m.shared.requests = 0 ∧ ∀ j, outside (m.place (some j)) = true
  known : ∀ j, held (m.place (some j)) ⊆ m.shared.ids
  current : m.shared.ids ≠ [] → m.shared.sessionID ∈ m.shared.ids
  /-- While `AcceptThread` sets the session up, nobody releases it. -/
  numbering : numbering (m.place none) = true →
    m.shared.ids ≠ [] ∧ ∀ j, m.shared.sessionID ∉ past (m.place (some j))
  opened : joining (m.place none) = true ∨ m.place none = .acceptRecv →
    m.shared.isValid = true ∧ ∀ j, m.shared.sessionID ∉ tested (m.place (some j))
  cleaned : ∀ j id, m.place (some j) = .clean id ∨ m.place (some j) = .leaving id →
    id = m.shared.sessionID
  leftNodup : (left labels).Nodup
  leftJoined : left labels ⊆ joined labels
  leftKnown : left labels ⊆ m.shared.ids
  /-- The session has not left, and unless it is being set up it has joined. -/
  present : m.shared.isValid = true ∨ (∃ j id, m.place (some j) = .leaving id) →
    m.shared.sessionID ∉ left labels ∧
      (joining (m.place none) = false → m.shared.sessionID ∈ joined labels)
  unborn : SessionNumbers.numbering (m.place none) = true → m.shared.sessionID ∉ left labels

theorem start_numbered (sessionID : Int64) :
    Numbered [] (start κ sessionID) where
  ids := rfl
  unnumbered := fun _ => ⟨rfl, rfl, rfl, fun _ => rfl⟩
  known := fun _ => List.nil_subset _
  current := fun some => absurd rfl some
  numbering := fun within => nomatch within
  opened := fun within => by rcases within with joins | here <;> contradiction
  cleaned := fun _ _ here => by rcases here with clean | leaving <;> contradiction
  leftNodup := List.nodup_nil
  leftJoined := List.nil_subset _
  leftKnown := List.nil_subset _
  present := fun here => by rcases here with valid | ⟨_, _, leaving⟩ <;> contradiction
  unborn := fun within => nomatch within

theorem nodup_snoc {ids : List Int64} {id : Int64} (nodup : ids.Nodup) (new : id ∉ ids) :
    (ids ++ [id]).Nodup := by
  refine List.nodup_append.mpr ⟨nodup, List.nodup_singleton _, fun other member same here => ?_⟩
  rintro rfl
  exact new (List.mem_singleton.mp here ▸ member)

theorem snoc_subset {ids more : List Int64} {id : Int64} (subset : ids ⊆ more) (member : id ∈ more) :
    ids ++ [id] ⊆ more := by
  intro other listed
  rcases List.mem_append.mp listed with old | new
  · exact subset old
  · rwa [List.mem_singleton.mp new]

theorem outside_held {p : Place} (away : outside p = true) : held p = [] ∧ releasing p = false := by
  cases p <;> first | exact ⟨rfl, rfl⟩ | cases away

/-- The thread that turns the slot over is the owner, and the only one. -/
theorem sole_turner (custody : Custody m owner) {i k : Option κ} (turns : turning (m.place i) = true)
    (too : turning (m.place k) = true) : k = i :=
  Owner.thread.inj ((custody.turning k too).symm.trans (custody.turning i turns))

theorem turner_facts (custody : Custody m owner) {i : Option κ} (turns : turning (m.place i) = true) :
    Turned m (m.place i) := by
  have owned := custody.owned
  rw [custody.turning i turns] at owned
  exact owned.2

theorem numbering_turns {p : Place} (within : numbering p = true) : turning p = true := by
  cases p <;> first | rfl | cases within

theorem numbering_invalid (custody : Custody m owner) (within : numbering (m.place none) = true) :
    m.shared.isValid = false := by
  have turned := turner_facts custody (numbering_turns within)
  generalize m.place none = place at within turned
  cases place <;> first | exact turned.1 | cases within

variable {j : κ} {s : Slot} {p : Place} {event : SessionLife.Event}

theorem serve_places [DecidableEq κ] {Q : Place → Prop} (self : Q p) (others : ∀ k, Q (m.place (some k))) (k : κ) :
    Q ((m.move (some j) s p).place (some k)) := by
  by_cases same : k = j
  · rwa [same, Threads.place_move_self]
  · rw [Threads.place_move_other _ _ _ _ fun same' => same (Option.some.inj same')]
    exact others k

/-- Tests pass in a session only with a count of 0. -/
theorem clear_tests [Fintype κ] (counted : Counted m) (custody : Custody m owner) (id : Int64)
    (tempCount : Int) (here : m.place (some j) = .releaseFlag id tempCount)
    (equal : m.shared.releaseFlag = tempCount) : tempCount = 0 := by
  have count := counted.tests _ _ _ here
  have clear : m.shared.releaseFlag ≠ delflagOn := by
    rw [equal]
    rintro rfl
    exact absurd count (by decide)
  obtain rfl := tested_session custody.owned (i := some j) (by rw [here]; rfl) clear
  exact equal.symm.trans custody.owned.2.2

/-- What leaves is the session of the slot, which nobody else takes down or sets up. -/
theorem left_serve (numbered : Numbered labels m)
    (step : ServeStep m.shared (m.place (some j)) event s p) :
    left (labels ++ [(some j, event)]) = left labels ∨
      ((∃ id, m.place (some j) = .leaving id) ∧
        left (labels ++ [(some j, event)]) = left labels ++ [m.shared.sessionID]) := by
  rw [left_snoc]
  rcases (event_step step).2.2 with none | ⟨id, here, some⟩
  · left
    rw [none, List.append_nil]
  · right
    rw [some, numbered.cleaned j id (.inr here)]
    exact ⟨⟨id, here⟩, rfl⟩

/-- Whoever leaves is the only one that turns the slot over, and the session is not valid
any more. -/
theorem leaving_facts (custody : Custody m owner) {i : Option κ} {id : Int64}
    (here : m.place i = .leaving id) : m.shared.isValid = false := by
  have turned := turner_facts custody (i := i) (by rw [here]; rfl)
  rw [here] at turned
  exact turned.1

theorem cleaning_facts (custody : Custody m owner) {i : Option κ} {id : Int64}
    (here : m.place i = .clean id) : m.shared.isValid = true := by
  have turned := turner_facts custody (i := i) (by rw [here]; rfl)
  rw [here] at turned
  exact turned.1

variable [DecidableEq κ]

/-- A session that is there after a step was there before, and does not leave in it. -/
theorem present_serve (custody : Custody m owner)
    (step : ServeStep m.shared (m.place (some j)) event s p)
    (there : s.isValid = true ∨ ∃ k id, (m.move (some j) s p).place (some k) = .leaving id) :
    (m.shared.isValid = true ∨ ∃ k id, m.place (some k) = .leaving id) ∧
      ∀ id, m.place (some j) ≠ .leaving id := by
  rcases there with valid | ⟨k, id, here⟩
  · have before : m.shared.isValid = true := by
      rcases valid_step step with same | ⟨invalid, _⟩
      · exact same.symm.trans valid
      · rw [invalid] at valid
        cases valid
    refine ⟨.inl before, fun id leaving => ?_⟩
    rw [leaving_facts custody leaving] at before
    cases before
  · by_cases self : k = j
    · subst self
      rw [Threads.place_move_self] at here
      have clean := (leaving_step step here).1
      refine ⟨.inl (cleaning_facts custody clean), fun id leaving => ?_⟩
      rw [clean] at leaving
      cases leaving
    · rw [Threads.place_move_other _ _ _ _ fun same => self (Option.some.inj same)] at here
      refine ⟨.inr ⟨k, id, here⟩, fun id leaving => self ?_⟩
      exact Option.some.inj (sole_turner custody (i := some j) (k := some k) (by rw [leaving]; rfl)
        (by rw [here]; rfl))

omit [DecidableEq κ] in
/-- Before the first session there is nothing to serve. -/
theorem unnumbered_serve (numbered : Numbered labels m)
    (step : ServeStep m.shared (m.place (some j)) event s p) (none : m.shared.ids = []) :
    s.isValid = false ∧ s.pending = 0 ∧ s.requests = 0 ∧ outside p = true := by
  obtain ⟨invalid, pending, requests, away⟩ := numbered.unnumbered none
  obtain ⟨_, requests', valid, after⟩ := primal_local step (outside_held (away j)).2 requests
    (fun _ => ⟨pending, away j⟩) (fun valid => by rw [invalid] at valid; cases valid)
  exact ⟨valid.trans invalid, (after invalid).1, requests', (after invalid).2⟩

omit [DecidableEq κ] in
/-- The session whose handler is being told has a number, joined, and has not left. -/
theorem leaver_numbered (custody : Custody m owner) (numbered : Numbered labels m)
    (here : ∃ id, m.place (some j) = .leaving id) :
    m.shared.sessionID ∉ left labels ∧ m.shared.sessionID ∈ joined labels ∧
      m.shared.sessionID ∈ m.shared.ids ∧ numbering (m.place none) = false := by
  obtain ⟨id, here⟩ := here
  obtain ⟨unleft, joined⟩ := numbered.present (.inr ⟨j, id, here⟩)
  have invalid := leaving_facts custody here
  refine ⟨unleft, joined ?_, numbered.current fun none => ?_, ?_⟩
  · cases within : joining (m.place none) with
    | false => rfl
    | true =>
      rw [(numbered.opened (.inl within)).1] at invalid
      cases invalid
  · have away := (numbered.unnumbered none).2.2.2 j
    rw [here] at away
    cases away
  · cases within : SessionNumbers.numbering (m.place none) with
    | false => rfl
    | true =>
      have same := sole_turner custody (i := none) (k := some j) (numbering_turns within)
        (by rw [here]; rfl)
      cases same

omit [DecidableEq κ] in
/-- `AcceptThread` has a count of the session until it is done with it. -/
theorem opened_counts [Fintype κ] (counted : Counted m)
    (within : joining (m.place none) = true ∨ m.place none = .acceptRecv) : m.shared.ioCount ≠ 0 := by
  have sum := counted.sum
  have one := m.le_total refs none
  have own : refs (m.place none) = 1 := by
    generalize m.place none = place at within
    rcases within with joins | rfl
    · cases place <;> first | rfl | cases joins
    · rfl
  omega

omit [DecidableEq κ] in
/-- A session that leaves has not left before, and has joined. -/
theorem left_kept (custody : Custody m owner) (numbered : Numbered labels m)
    (step : ServeStep m.shared (m.place (some j)) event s p) :
    (left (labels ++ [(some j, event)])).Nodup ∧ left (labels ++ [(some j, event)]) ⊆ joined labels ∧
      left (labels ++ [(some j, event)]) ⊆ m.shared.ids := by
  rcases left_serve numbered step with same | ⟨here, more⟩
  · rw [same]
    exact ⟨numbered.leftNodup, numbered.leftJoined, numbered.leftKnown⟩
  · obtain ⟨unleft, joined, known, _⟩ := leaver_numbered custody numbered here
    rw [more]
    exact ⟨nodup_snoc numbered.leftNodup unleft, snoc_subset numbered.leftJoined joined,
      snoc_subset numbered.leftKnown known⟩

theorem numbered_serve [Fintype κ] (counted : Counted m) (custody : Custody m owner)
    (numbered : Numbered labels m) (step : ServeStep m.shared (m.place (some j)) event s p) :
    Numbered (labels ++ [(some j, event)]) (m.move (some j) s p) := by
  obtain ⟨sessionID, ids⟩ := number_step step
  obtain ⟨accepts, joins, _⟩ := event_step step
  have stays : (m.move (some j) s p).place none = m.place none :=
    Threads.place_move_other _ _ _ _ (Option.some_ne_none j).symm
  have accepted' : accepted (labels ++ [(some j, event)]) = accepted labels := by
    rw [accepted_snoc, accepts, List.append_nil]
  have joined' : joined (labels ++ [(some j, event)]) = joined labels := by
    rw [joined_snoc, joins, List.append_nil]
  have leaves := left_serve numbered step
  obtain ⟨leftNodup, leftJoined, leftKnown⟩ := left_kept custody numbered step
  constructor
  case ids => exact ids.trans (numbered.ids.trans accepted'.symm)
  case unnumbered =>
    intro none
    obtain ⟨invalid, pending, requests, away⟩ := unnumbered_serve numbered step (ids ▸ none)
    exact ⟨invalid, pending, requests, serve_places (Q := fun p => outside p = true) away
      (numbered.unnumbered (ids ▸ none)).2.2.2⟩
  case known =>
    rw [Threads.shared_move, ids]
    refine serve_places (Q := fun p => held p ⊆ m.shared.ids) (fun id holds => ?_) numbered.known
    by_cases none : m.shared.ids = []
    · rw [(outside_held (unnumbered_serve numbered step none).2.2.2).1] at holds
      cases holds
    · rcases held_step step id holds with before | rfl
      · exact numbered.known j before
      · exact numbered.current none
  case current =>
    rw [Threads.shared_move, ids, sessionID]
    exact numbered.current
  case numbering =>
    rw [stays, Threads.shared_move, ids, sessionID]
    intro within
    obtain ⟨some, away⟩ := numbered.numbering within
    exact ⟨some, serve_places (Q := fun p => m.shared.sessionID ∉ past p)
      (past_step step (numbering_invalid custody within) (away j)) away⟩
  case opened =>
    rw [stays, Threads.shared_move, sessionID]
    intro within
    obtain ⟨valid, away⟩ := numbered.opened within
    have counts := opened_counts counted within
    refine ⟨?_, serve_places (Q := fun p => m.shared.sessionID ∉ tested p)
      (tested_step step counts (clear_tests counted custody) (away j)) away⟩
    rcases valid_step step with same | ⟨_, id, clean⟩
    · exact same.trans valid
    · have mine := away j
      rw [clean, numbered.cleaned j id (.inl clean)] at mine
      exact absurd (List.mem_singleton_self _) mine
  case cleaned =>
    rw [Threads.shared_move, sessionID]
    refine serve_places (Q := fun p => ∀ id, p = .clean id ∨ p = .leaving id →
      id = m.shared.sessionID) (fun id here => ?_) numbered.cleaned
    rcases here with clean | leaving
    · exact clean_step step clean
    · exact numbered.cleaned j id (.inl (leaving_step step leaving).1)
  case leftNodup => exact leftNodup
  case leftJoined =>
    rw [joined']
    exact leftJoined
  case leftKnown =>
    rw [Threads.shared_move, ids]
    exact leftKnown
  case present =>
    rw [stays, joined', Threads.shared_move, sessionID]
    intro there
    obtain ⟨before, remains⟩ := present_serve custody step there
    rcases leaves with same | ⟨⟨id, here⟩, _⟩
    · rw [same]
      exact numbered.present before
    · exact absurd here (remains id)
  case unborn =>
    rw [stays, Threads.shared_move, sessionID]
    intro within
    rcases leaves with same | ⟨here, _⟩
    · rw [same]
      exact numbered.unborn within
    · rw [(leaver_numbered custody numbered here).2.2.2] at within
      cases within

/-- A step of `AcceptThread` that gives no number. -/
theorem numbered_keep (numbered : Numbered labels m) {label : Option κ × SessionLife.Event}
    (same : s.sessionID = m.shared.sessionID ∧ s.ids = m.shared.ids)
    (calls : Event.acceptedID label.2 = [] ∧ Event.leftID label.2 = [])
    (unnumbered : m.shared.ids = [] → s.isValid = false ∧ s.pending = 0 ∧ s.requests = 0)
    (early : SessionNumbers.numbering p = true → SessionNumbers.numbering (m.place none) = true)
    (opened : joining p = true ∨ p = .acceptRecv → s.isValid = true ∧
      ∀ k, m.shared.sessionID ∉ tested (m.place (some k)))
    (present : s.isValid = true ∨ (∃ k id, m.place (some k) = .leaving id) →
      m.shared.sessionID ∉ left labels ∧ (joining p = false →
        m.shared.sessionID ∈ joined labels ++ Event.joinedID label.2)) :
    Numbered (labels ++ [label]) (m.move none s p) := by
  have self : (m.move none s p).place none = p := Threads.place_move_self ..
  have others (k : κ) : (m.move none s p).place (some k) = m.place (some k) :=
    Threads.place_move_other _ _ _ _ (Option.some_ne_none k)
  have accepted' : accepted (labels ++ [label]) = accepted labels := by
    rw [accepted_snoc, calls.1, List.append_nil]
  have left' : left (labels ++ [label]) = left labels := by
    rw [left_snoc, calls.2, List.append_nil]
  have joined' := joined_snoc labels label
  obtain ⟨sessionID, ids⟩ := same
  constructor
  case ids => exact ids.trans (numbered.ids.trans accepted'.symm)
  case unnumbered =>
    intro none
    obtain ⟨invalid, pending, requests⟩ := unnumbered (ids ▸ none)
    refine ⟨invalid, pending, requests, fun k => ?_⟩
    rw [others]
    exact (numbered.unnumbered (ids ▸ none)).2.2.2 k
  case known =>
    intro k
    rw [others, Threads.shared_move, ids]
    exact numbered.known k
  case current =>
    rw [Threads.shared_move, ids, sessionID]
    exact numbered.current
  case numbering =>
    rw [self, Threads.shared_move, ids, sessionID]
    intro within
    obtain ⟨some, away⟩ := numbered.numbering (early within)
    refine ⟨some, fun k => ?_⟩
    rw [others]
    exact away k
  case opened =>
    rw [self, Threads.shared_move, sessionID]
    intro within
    obtain ⟨valid, away⟩ := opened within
    refine ⟨valid, fun k => ?_⟩
    rw [others]
    exact away k
  case cleaned =>
    intro k id
    rw [others, Threads.shared_move, sessionID]
    exact numbered.cleaned k id
  case leftNodup =>
    rw [left']
    exact numbered.leftNodup
  case leftJoined =>
    rw [left', joined']
    exact fun id member => List.mem_append_left _ (numbered.leftJoined member)
  case leftKnown =>
    rw [left', Threads.shared_move, ids]
    exact numbered.leftKnown
  case present =>
    rw [self, left', joined', Threads.shared_move, sessionID]
    rintro (valid | ⟨k, id, here⟩)
    · exact present (.inl valid)
    · rw [others] at here
      exact present (.inr ⟨k, id, here⟩)
  case unborn =>
    rw [self, left', Threads.shared_move, sessionID]
    exact fun within => numbered.unborn (early within)

/-- A session gets its number, which no thread has read. -/
theorem numbered_number (custody : Custody m owner) (numbered : Numbered labels m) (id : Int64)
    (here : m.place none = .acceptID) (new : id ∉ m.shared.ids)
    (moved : s = { m.shared with sessionID := id, ids := m.shared.ids ++ [id] }) :
    Numbered (labels ++ [(none, .accepted id)]) (m.move none s .acceptEnter) := by
  have self : (m.move none s .acceptEnter).place none = .acceptEnter := Threads.place_move_self ..
  have others (k : κ) : (m.move none s .acceptEnter).place (some k) = m.place (some k) :=
    Threads.place_move_other _ _ _ _ (Option.some_ne_none k)
  have invalid : m.shared.isValid = false := by
    have turned := turner_facts custody (i := none) (by rw [here]; rfl)
    rw [here] at turned
    exact turned.1
  have sole (k : κ) (turns : turning (m.place (some k)) = true) : False := by
    have same := sole_turner custody (i := none) (k := some k) (by rw [here]; rfl) turns
    cases same
  have accepted' : accepted (labels ++ [((none : Option κ), .accepted id)]) = accepted labels ++ [id] :=
    accepted_snoc ..
  have left' : left (labels ++ [((none : Option κ), .accepted id)]) = left labels :=
    (left_snoc ..).trans (List.append_nil _)
  have joined' : joined (labels ++ [((none : Option κ), .accepted id)]) = joined labels :=
    (joined_snoc ..).trans (List.append_nil _)
  have ids : s.ids = m.shared.ids ++ [id] := by rw [moved]
  have sessionID : s.sessionID = id := by rw [moved]
  have unset : s.isValid = false := by rw [moved]; exact invalid
  constructor
  case ids => rw [Threads.shared_move, ids, accepted', numbered.ids]
  case unnumbered =>
    rw [Threads.shared_move, ids]
    exact fun none => absurd none (List.append_ne_nil_of_right_ne_nil _ (List.cons_ne_nil _ _))
  case known =>
    intro k other holds
    rw [others] at holds
    rw [Threads.shared_move, ids]
    exact List.mem_append_left _ (numbered.known k holds)
  case current =>
    rw [Threads.shared_move, ids, sessionID]
    exact fun _ => List.mem_append_right _ (List.mem_singleton_self _)
  case numbering =>
    rw [Threads.shared_move, ids, sessionID]
    refine fun _ => ⟨List.append_ne_nil_of_right_ne_nil _ (List.cons_ne_nil _ _), fun k reads => ?_⟩
    rw [others] at reads
    exact new (numbered.known k (past_held _ reads))
  case opened =>
    rw [self]
    rintro (joins | recv) <;> contradiction
  case cleaned =>
    intro k other cleans
    rw [others] at cleans
    refine (sole k ?_).elim
    rcases cleans with clean | leaving
    · rw [clean]
      rfl
    · rw [leaving]
      rfl
  case leftNodup =>
    rw [left']
    exact numbered.leftNodup
  case leftJoined =>
    rw [left', joined']
    exact numbered.leftJoined
  case leftKnown =>
    rw [left', Threads.shared_move, ids]
    exact fun other member => List.mem_append_left _ (numbered.leftKnown member)
  case present =>
    rw [Threads.shared_move, unset]
    rintro (valid | ⟨k, other, leaving⟩)
    · cases valid
    · rw [others] at leaving
      exact (sole k (by rw [leaving]; rfl)).elim
  case unborn =>
    rw [left', Threads.shared_move, sessionID]
    exact fun _ member => new (numbered.leftKnown member)

theorem numbered_accept (custody : Custody m owner) (numbered : Numbered labels m)
    (step : AcceptStep m.shared (m.place none) event s p) (fresh : Fresh m (none, event)) :
    Numbered (labels ++ [(none, event)]) (m.move none s p) := by
  have unnumbered := numbered.unnumbered
  have opened := numbered.opened
  have present := numbered.present
  have within := numbered.numbering
  have unborn := numbered.unborn
  generalize here : m.place none = place at step opened present within unborn
  have joinedToo (joins : joining place = false) (there : m.shared.isValid = true ∨
      ∃ k id, m.place (some k) = .leaving id) : m.shared.sessionID ∉ left labels ∧
        (joining p = false → m.shared.sessionID ∈ joined labels ++ Event.joinedID event) :=
    ⟨(present there).1, fun _ => List.mem_append_left _ ((present there).2 joins)⟩
  have started (none : m.shared.ids = []) :=
    And.intro (unnumbered none).1 (And.intro (unnumbered none).2.1 (unnumbered none).2.2.1)
  cases step with
  | pop free =>
    exact numbered_keep numbered ⟨rfl, rfl⟩ ⟨rfl, rfl⟩ started (fun early => (nomatch early))
      (fun later => by rcases later with joins | recv <;> contradiction) (joinedToo rfl)
  | sessionID id =>
    exact numbered_number custody numbered id here (fresh id (List.mem_singleton_self _)) rfl
  | enter =>
    exact numbered_keep numbered ⟨rfl, rfl⟩ ⟨rfl, rfl⟩ started (fun _ => by rw [here]; rfl)
      (fun later => by rcases later with joins | recv <;> contradiction) (joinedToo rfl)
  | valid =>
    obtain ⟨some, away⟩ := within rfl
    exact numbered_keep numbered ⟨rfl, rfl⟩ ⟨rfl, rfl⟩ (fun none => absurd none some)
      (fun early => (nomatch early)) (fun _ => ⟨rfl, fun k reads => away k (tested_past _ reads)⟩)
      (fun _ => ⟨unborn rfl, fun joins => (nomatch joins)⟩)
  | flag =>
    exact numbered_keep numbered ⟨rfl, rfl⟩ ⟨rfl, rfl⟩ started (fun early => (nomatch early))
      (fun _ => opened (.inl rfl)) fun there => ⟨(present there).1, fun joins => (nomatch joins)⟩
  | join =>
    exact numbered_keep numbered ⟨rfl, rfl⟩ ⟨rfl, rfl⟩ started (fun early => (nomatch early))
      (fun _ => opened (.inl rfl)) fun there => ⟨(present there).1,
        fun _ => List.mem_append_right _ (List.mem_singleton_self _)⟩
  | recv =>
    have valid := (opened (.inr rfl)).1
    exact numbered_keep numbered ⟨rfl, rfl⟩ ⟨rfl, rfl⟩
      (fun none => absurd valid (by rw [(unnumbered none).1]; decide))
      (fun early => (nomatch early)) (fun later => by rcases later with joins | recv <;> contradiction)
      (joinedToo rfl)
  | recvFailed =>
    exact numbered_keep numbered ⟨rfl, rfl⟩ ⟨rfl, rfl⟩ started (fun early => (nomatch early))
      (fun later => by rcases later with joins | recv <;> contradiction) (joinedToo rfl)

end Numbered

/-! ## Runs -/

section Runs
variable {κ : Type*} [Fintype κ] [DecidableEq κ] {labels : List (Option κ × SessionLife.Event)}
  {m m' : Threads (Option κ) Slot Place}

theorem numbered_step {label : Option κ × SessionLife.Event} (kept : Kept m)
    (numbered : Numbered labels m) (step : Step m label m') (fresh : Fresh m label) :
    Numbered (labels ++ [label]) m' := by
  obtain ⟨counted, owner, custody⟩ := kept
  obtain ⟨i, event⟩ := label
  obtain ⟨s, p, step, rfl⟩ := step
  cases step with
  | accept step => exact numbered_accept custody numbered step fresh
  | serve j step => exact numbered_serve counted custody numbered step

theorem run_numbered {sessionID : Int64}
    (run : Run (Meeting Step Fresh) (start κ sessionID) labels m) : Kept m ∧ Numbered labels m :=
  run.history (P := fun labels m => Kept m ∧ Numbered labels m)
    (fun _ _ _ _ before step => ⟨kept_step before.1 step.1,
      numbered_step before.1 before.2 step.1 step.2⟩)
    ⟨start_kept sessionID, start_numbered sessionID⟩

end Runs

end NewNameAuction.SessionNumbers
