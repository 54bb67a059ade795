import NewNameAuction.SessionLifeCycle

/-! No session is stuck: a slot that is valid with `IOcount` 0 has a thread that will
release it, or a `RELEASE_REQ`. Two branches of the source do without: `AcceptThread`
gives its count back when its `WSARecv` fails and does not look at what is left, and
`releaseRequest` does not look at what its post returns. -/
namespace NewNameAuction.SessionAttended
open SessionSlot (delflagOff delflagOn)
open SessionLife SessionOwner SessionNumbers SessionPlaces SessionLifeCycle

/-- A thread that will release the session, or has begun to: it has brought `IOcount` to 0,
it has the count still to read, or has read 0, or it has set `releaseFlag`. -/
def releases : Place → Bool
  | .zero | .unposted | .finished => true
  | .releaseValid _ | .releaseCount _ => true
  | .releaseFlag _ tempCount => tempCount == 0
  | .releaseID _ | .releaseCheck _ _ | .reenter _ | .reopen _ | .relet _ => true
  | .clean _ | .leaving _ | .push => true
  | .idle | .findValid _ | .findEnter _ | .findFlag _ | .findID _ | .findFailed => false
  | .found _ | .posting | .leave | .working | .starting => false
  | .acceptID | .acceptEnter | .acceptValid | .acceptFlag | .acceptJoin | .acceptRecv => false

section Attended
variable {κ : Type*}

/-- A session without a count is about to be released. -/
def Attended (m : Threads (Option κ) Slot Place) : Prop :=
  m.shared.isValid = true → m.shared.ioCount = 0 →
    0 < m.shared.requests ∨ ∃ i, releases (m.place i) = true

/-- Whatever thread `i` does, the session is seen to. -/
def Relieved (m : Threads (Option κ) Slot Place) (i : Option κ) : Prop :=
  m.shared.isValid = false ∨ 0 < m.shared.requests ∨ ∃ k, k ≠ i ∧ releases (m.place k) = true

/-- The two branches are not taken where they leave the last count to nobody. -/
def Minded (m : Threads (Option κ) Slot Place) (label : Option κ × SessionLife.Event) : Prop :=
  (label.2 = .recvFailed → m.shared.ioCount ≠ 1 ∨ Relieved m label.1) ∧
  (label.2 = .unrequested → m.shared.ioCount ≠ 0 ∨ Relieved m label.1)

theorem start_attended (sessionID : Int64) : Attended (start κ sessionID) := fun valid =>
  (nomatch valid)

section Steps
variable {s s' : Slot} {p p' : Place} {event : SessionLife.Event}

/-- Where a step of a sender or worker ends with a valid slot and no count, the thread
releases it or has asked for it, or the slot was so before: then the thread was not the one
to release it, its post has failed, it is past the release, or its test has found
`releaseFlag` set. -/
theorem serve_attends (step : ServeStep s p event s' p') (counts : (refs p : Int) ≤ s.ioCount)
    (valid : s'.isValid = true) (none : s'.ioCount = 0) :
    releases p' = true ∨ 0 < s'.requests ∨
      (s.isValid = true ∧ s.ioCount = 0 ∧ s'.requests = s.requests ∧
        (releases p = false ∨ event = .unrequested ∨ p = .push ∨
          ∃ id, p = .releaseFlag id 0 ∧ s.releaseFlag ≠ delflagOff)) := by
  rcases step with step | step | step | step
  · cases step with
    | failed => simp_all [releases]
    | enter =>
      simp_all [refs]
      omega
    | _ => exact .inr (.inr ⟨valid, none, rfl, .inl rfl⟩)
  · cases step with
    | dismiss | leave | unposted => simp_all [releases]
    | request | requestToo => exact .inr (.inl (Nat.succ_pos _))
    | unrequested | unrequestedToo => exact .inr (.inr ⟨valid, none, rfl, .inr (.inl rfl)⟩)
    | post =>
      simp_all [refs]
      omega
    | _ => exact .inr (.inr ⟨valid, none, rfl, .inl rfl⟩)
  · cases step with
    | finish => simp_all [releases]
    | start | notStarted =>
      simp_all [refs]
      omega
    | request | release => exact .inl rfl
    | take => exact .inr (.inr ⟨valid, none, rfl, .inl rfl⟩)
    | started => exact .inr (.inr ⟨valid, none, rfl, .inl rfl⟩)
  · cases step with
    | invalid id invalid =>
      rw [invalid] at valid
      cases valid
    | count => simp_all [releases]
    | @differs id tempCount differs =>
      by_cases zero : tempCount = 0
      · subst zero
        exact .inr (.inr ⟨valid, none, rfl, .inr (.inr (.inr ⟨id, rfl, differs⟩))⟩)
      · exact .inr (.inr ⟨valid, none, rfl, .inl (by simp [releases, zero])⟩)
    | relet => simp_all [releases]
    | push => exact .inr (.inr ⟨valid, none, rfl, .inr (.inr (.inl rfl))⟩)
    | _ => exact .inl rfl

/-- `AcceptThread` is never the one to release a session. -/
theorem accept_attends (step : AcceptStep s p event s' p') (counts : (refs p : Int) ≤ s.ioCount)
    (valid : s'.isValid = true) (none : s'.ioCount = 0) :
    releases p = false ∧ s.isValid = true ∧ s'.requests = s.requests ∧
      (s.ioCount = 0 ∨ s.ioCount = 1 ∧ event = .recvFailed) := by
  cases step with
  | enter =>
    simp_all [refs]
    omega
  | valid => simp_all [refs]
  | recvFailed =>
    refine ⟨rfl, valid, rfl, .inr ⟨?_, rfl⟩⟩
    dsimp only at none
    omega
  | _ => exact ⟨rfl, valid, rfl, .inl none⟩

end Steps

section Moves
variable [Fintype κ] {m : Threads (Option κ) Slot Place} {owner : Owner (Option κ)}
  {s : Slot} {p : Place} {event : SessionLife.Event}

omit [Fintype κ] in
theorem releases_move [DecidableEq κ] {i : Option κ}
    (other : ∃ k, k ≠ i ∧ releases (m.place k) = true) :
    ∃ k, releases ((m.move i s p).place k) = true := by
  obtain ⟨k, other, here⟩ := other
  refine ⟨k, ?_⟩
  rwa [Threads.place_move_other _ _ _ _ other]

/-- Whoever has set `releaseFlag` for a valid session without a count releases it. -/
theorem flag_releases (counted : Counted m) (custody : Custody m owner) {i : Option κ}
    (here : turning (m.place i) = false) (valid : m.shared.isValid = true)
    (none : m.shared.ioCount = 0) (set : m.shared.releaseFlag ≠ delflagOff) :
    ∃ k, k ≠ i ∧ releases (m.place k) = true := by
  have owned := custody.owned
  cases owner with
  | stack =>
    rw [owned.2.1] at valid
    cases valid
  | session => exact absurd owned.2.2 set
  | thread k =>
    obtain ⟨_, turned⟩ := owned
    refine ⟨k, ?_, ?_⟩
    · rintro rfl
      exact absurd (turned_turning turned) (by rw [here]; decide)
    · have sum := counted.sum
      have own := m.le_total refs k
      generalize m.place k = place at turned own
      cases place with
      | releaseID | releaseCheck | reenter | reopen | clean | leaving | push => rfl
      | acceptID | acceptEnter | acceptValid =>
        rw [turned.1] at valid
        cases valid
      | acceptFlag =>
        change 1 ≤ _ at own
        omega
      | _ => exact turned.elim

variable [DecidableEq κ]

theorem attended_serve (counted : Counted m) (custody : Custody m owner) (attended : Attended m)
    {j : κ} (step : ServeStep m.shared (m.place (some j)) event s p)
    (minded : Minded m (some j, event)) : Attended (m.move (some j) s p) := by
  intro valid none
  have sum := counted.sum
  have own := m.le_total refs (some j)
  rcases serve_attends step (by omega) valid none with here | asked | ⟨valid', none', same, why⟩
  · exact .inr ⟨some j, by rwa [Threads.place_move_self]⟩
  · exact .inl asked
  · rw [Threads.shared_move, same]
    rcases why with aside | failed | past | ⟨id, here, set⟩
    · rcases attended valid' none' with asked | ⟨i, here⟩
      · exact .inl asked
      · refine .inr (releases_move ⟨i, ?_, here⟩)
        rintro rfl
        rw [aside] at here
        cases here
    · rcases minded.2 failed with counts | invalid | asked | other
      · exact absurd none' counts
      · rw [invalid] at valid'
        cases valid'
      · exact .inl asked
      · exact .inr (releases_move other)
    · have turned := turner_facts custody (i := some j) (by rw [past]; rfl)
      rw [past] at turned
      rw [turned.1] at valid'
      cases valid'
    · exact .inr (releases_move (flag_releases counted custody (by rw [here]; rfl) valid' none' set))

theorem attended_accept (counted : Counted m) (attended : Attended m)
    (step : AcceptStep m.shared (m.place none) event s p) (minded : Minded m (none, event)) :
    Attended (m.move none s p) := by
  intro valid none
  have sum := counted.sum
  have own := m.le_total refs Option.none
  obtain ⟨aside, valid', same, counts⟩ := accept_attends step (by omega) valid none
  rw [Threads.shared_move, same]
  rcases counts with none' | ⟨one, failed⟩
  · rcases attended valid' none' with asked | ⟨i, here⟩
    · exact .inl asked
    · refine .inr (releases_move ⟨i, ?_, here⟩)
      rintro rfl
      rw [aside] at here
      cases here
  · rcases minded.1 failed with more | invalid | asked | other
    · exact absurd one more
    · rw [invalid] at valid'
      cases valid'
    · exact .inl asked
    · exact .inr (releases_move other)

theorem attended_step {m' : Threads (Option κ) Slot Place} {label : Option κ × SessionLife.Event}
    (kept : Kept m) (attended : Attended m) (step : Step m label m') (minded : Minded m label) :
    Attended m' := by
  obtain ⟨counted, owner, custody⟩ := kept
  obtain ⟨i, event⟩ := label
  obtain ⟨s, p, step, rfl⟩ := step
  cases step with
  | accept step => exact attended_accept counted attended step minded
  | serve j step => exact attended_serve counted custody attended step minded

end Moves

/-- A slot without a count at which every thread is done, and no `RELEASE_REQ` is left. -/
structure AtRest (m : Threads (Option κ) Slot Place) : Prop where
  ioCount : m.shared.ioCount = 0
  requests : m.shared.requests = 0
  idle : ∀ i, m.place i = .idle

/-- Its index is on the stack, and every session it had has left. -/
theorem rest_released [Fintype κ] {m : Threads (Option κ) Slot Place}
    {labels : List (Option κ × SessionLife.Event)} (kept : Kept m) (accounted : Accounted labels m)
    (attended : Attended m) (rest : AtRest m) :
    m.shared.free = 1 ∧ (left labels).length = (accepted labels).length := by
  obtain ⟨counted, owner, custody⟩ := kept
  have unowned (i : Option κ) : owning (m.place i) = false := by
    rw [rest.idle i]
    rfl
  rcases unowned_valid custody unowned with ⟨free, _⟩ | ⟨_, valid⟩
  · have none := Threads.total_zero between m fun i => owning_between (unowned i)
    unfold Accounted at accounted
    exact ⟨free, by omega⟩
  · rcases attended valid rest.ioCount with asked | ⟨i, here⟩
    · rw [rest.requests] at asked
      cases asked
    · rw [rest.idle i] at here
      cases here

end Attended

/-! ## The server -/

section Servers
variable {κ : Type*} {n : Nat} {labels : List (Option κ × Fin n × SessionLife.Event)}
  {m : Threads (Option κ) (Server n) (Option (Fin n × Place))}

/-- The steps that meet the condition at their slot. -/
def MindedAt (m : Threads (Option κ) (Server n) (Option (Fin n × Place)))
    (label : Option κ × Fin n × SessionLife.Event) : Prop :=
  Minded (view label.2.1 m) (label.1, label.2.2)

structure Cared [Fintype κ] (labels : List (Option κ × SessionLife.Event))
    (m : Threads (Option κ) Slot Place) : Prop where
  kept : Kept m
  accounted : Accounted labels m
  attended : Attended m

theorem cared_step [Fintype κ] [DecidableEq κ] {label : Option κ × Fin n × SessionLife.Event}
    {m' : Threads (Option κ) (Server n) (Option (Fin n × Place))}
    (cared : ∀ index, Cared (ofSlot index labels) (view index m))
    (step : Meeting ServerStep MindedAt m label m') (index : Fin n) :
    Cared (ofSlot index (labels ++ [label])) (view index m') := by
  obtain ⟨i, here, event⟩ := label
  obtain ⟨step, minded⟩ := step
  obtain ⟨kept, accounted, attended⟩ := cared here
  have slot := view_step step
  have own : Cared (ofSlot here labels ++ [(i, event)]) (view here m') :=
    ⟨kept_step kept slot, accounted_step accounted slot, attended_step kept attended slot minded⟩
  exact slots_step (P := Cared) labels cared step own index

/-- As long as the two branches leave the last count to nobody, a valid session without a
count is about to be released; and a slot that has come to rest without a count has given
its index back and told the handler of every session that it has left. -/
theorem sessions_attended [Fintype κ] [DecidableEq κ] {sessionIDs : Fin n → Int64} {allocNum : Int64}
    (run : Run (Meeting ServerStep MindedAt) (serverStart κ sessionIDs allocNum) labels m) :
    (∀ index, Attended (view index m)) ∧ ∀ index, AtRest (view index m) →
      m.shared.emptyIndexStack.count index = 1 ∧
        (left (ofSlot index labels)).length = (accepted (ofSlot index labels)).length := by
  have cared : ∀ index, Cared (ofSlot index labels) (view index m) := run.history
    (P := fun labels m => ∀ index, Cared (ofSlot index labels) (view index m))
    (fun _ _ _ _ before step => cared_step before step)
    fun index => ⟨start_kept _, start_accounted _, start_attended (sessionIDs index)⟩
  have stacked : Stacked m :=
    run.invariant (fun _ _ _ before step => stacked_step before step.1) (start_stacked _ _)
  refine ⟨fun index => (cared index).attended, fun index rest => ?_⟩
  obtain ⟨free, leaves⟩ :=
    rest_released (cared index).kept (cared index).accounted (cared index).attended rest
  exact ⟨(stacked index).trans free, leaves⟩

end Servers

/-- A worker has brought the count of the one session to 0. -/
theorem sessions_attended_one : ∃ labels m,
    Run (Meeting ServerStep MindedAt) (serverStart (Fin 1) (fun _ : Fin 1 => 0) 0) labels m ∧
      (m.shared.slots 0).isValid = true ∧ (m.shared.slots 0).ioCount = 0 ∧ Attended (view 0 m) := by
  let places : Option (Fin 1) → Option (Fin 1 × Place) := fun _ => none
  have sets := (accept_opens (κ := Fin 1) 0 delflagOff [] 0).append (accept_joins ..)
  have acceptor : places none = stand 0 .idle := rfl
  have worker : places (some 0) = stand 0 .idle := rfl
  have first := alone_round acceptor sets rfl
  have second := alone_run worker (take_alone (0 : Fin 1) (newSessionID 0 0) [newSessionID 0 0] [] 1)
  have run := first.append second
  have fine : ∀ label ∈ eventsOf (none : Option (Fin 1)) ([.popped, .accepted (newSessionID 0 0),
      .other, .other, .other] ++ [.joined (newSessionID 0 0), .other]) ++
        eventsOf (some 0) [.other, .other],
      label.2.2 ≠ .recvFailed ∧ label.2.2 ≠ .unrequested := by decide
  have met : Run (Meeting ServerStep MindedAt) _ _ _ := run.meeting fun label member _ =>
    ⟨fun failed => absurd failed (fine label member).1, fun failed => absurd failed (fine label member).2⟩
  exact ⟨_, _, met, rfl, rfl, (sessions_attended met).1 0⟩

/-- `WSARecv` of `AcceptThread` fails, and nobody looks at the count it gives back. -/
theorem failed_receive_unattended : ¬ ∀ labels m,
    Run ServerStep (serverStart (Fin 1) (fun _ : Fin 1 => 0) 0) labels m →
      ∀ index, Attended (view index m) := by
  intro attended
  let places : Option (Fin 1) → Option (Fin 1 × Place) := fun _ => none
  have fails : Run (AloneStep (none : Option (Fin 1)))
      ⟨session (newSessionID 0 0) 1 0 0 [newSessionID 0 0], [], 1, .acceptJoin⟩
      [.joined (newSessionID 0 0), .recvFailed]
      ⟨session (newSessionID 0 0) 0 0 0 [newSessionID 0 0], [], 1, .idle⟩ := by
    refine .cons (alone_accept (.join _) (.other _ _ (by simp) (by simp) (by simp))) ?_
    exact .single (alone_accept (.recvFailed _) (.other _ _ (by simp) (by simp) (by simp)))
  have acceptor : places none = stand 0 .idle := rfl
  have run := alone_round acceptor ((accept_opens (κ := Fin 1) 0 delflagOff [] 0).append fails) rfl
  rcases attended _ _ run 0 rfl rfl with asked | ⟨i, here⟩
  · exact absurd asked (by decide)
  · cases here

end NewNameAuction.SessionAttended
