import NewNameAuction.LastPacket

/-! What the client of a session gets, in every run, also when `WSASend` or its
completion fails: the packets that were queued, from the first one on, each once and in
their order, by at most one `WSASend` at a time. A send that fails ends the session's
sending: the flag is given back only when `disconnectStep` says so, or not at all. All
this rests on `sendQueue` being a FIFO queue with one step for each operation. -/
namespace NewNameAuction.WireOrder
open SendPost LastPacket

/-! ## Batches -/

section Sizes
variable {α : Type*} {s s' : Session α} {p p' : Place α} {event : Event}

/-- A batch for `WSASend`: not empty, and no longer than `sentPacketArray`. -/
def Sized (batch : List α) : Prop := batch ≠ [] ∧ batch.length ≤ maxPacket

/-- A batch that is being filled is short, and has or gets a packet. -/
def Filling (s : Session α) : Place α → Prop
  | .dequeue batch => batch.length ≤ maxPacket ∧ (batch = [] → s.sendQueue ≠ [])
  | .readLast batch | .markLast batch | .send batch => Sized batch
  | _ => True

theorem filling_step (step : SendStep s p event s' p') (filling : Filling s p) : Filling s' p' := by
  rcases step with step | step | step
  · cases step with
    | enqueue packet lastPacket => cases lastPacket <;> trivial
    | _ => trivial
  · cases step with
    | some more => exact ⟨Nat.zero_le _, fun _ => more⟩
    | @dequeue batch packet rest room queue =>
      have longer : (batch ++ [packet]).length = batch.length + 1 := by simp
      exact ⟨by omega, fun none => absurd none (List.append_ne_nil_of_right_ne_nil _ (by simp))⟩
    | empty room queue => exact ⟨fun none => filling.2 none queue, filling.1⟩
    | full full =>
      refine ⟨?_, filling.1⟩
      rintro rfl
      cases full
    | isLast batch step | notLast batch step | mark batch step | markFails batch step => exact filling
    | _ => trivial
  · cases step <;> trivial

/-- Only who has the flag takes packets off the queue. -/
theorem queue_step (step : SendStep s p event s' p') (aside : p.holds = 0) (more : s.sendQueue ≠ []) :
    s'.sendQueue ≠ [] := by
  rcases step with step | step | step
  · cases step with
    | enqueue packet lastPacket => exact List.append_ne_nil_of_left_ne_nil more _
    | _ => exact more
  · cases step with
    | dequeue room queue => cases aside
    | _ => exact more
  · cases step <;> exact more

theorem filling_aside (step : SendStep s p event s' p') (aside : p.holds = 0) {other : Place α}
    (filling : Filling s other) : Filling s' other := by
  cases other with
  | dequeue batch => exact ⟨filling.1, fun none => queue_step step aside (filling.2 none)⟩
  | _ => exact filling

/-- What is in flight after a step was so before, or is the batch of the thread. -/
theorem flight_step (step : SendStep s p event s' p') :
    ∀ batch ∈ s'.inFlight, batch ∈ s.inFlight ∨ p = .send batch := by
  intro batch member
  rcases step with step | step | step
  · cases step <;> exact .inl member
  · cases step with
    | send mine =>
      rcases List.mem_append.mp member with before | new
      · exact .inl before
      · exact .inr (by rw [List.mem_singleton.mp new])
    | _ => exact .inl member
  · cases step with
    | completed sent _ | completedFails sent =>
      refine .inl ?_
      rw [sent]
      rcases List.mem_append.mp member with before | after
      · exact List.mem_append_left _ before
      · exact List.mem_append_right _ (List.mem_cons_of_mem _ after)
    | _ => exact .inl member

end Sizes

/-! ## After a failure -/

section Halt
variable {α : Type*} {s s' : Session α} {p p' : Place α} {event : Event}

/-- Where a thread may stand when a send has failed: without the flag, on its way to
`disconnectStep`, or on its way back from it. -/
def Halted (s : Session α) (p : Place α) : Prop :=
  p.holds = 0 ∨ p = .failed ∨
    s.disconnectStep = .disconnect ∧ (p = .failedFlag ∨ p = .readStep ∨ p = .giveBack)

/-- The session is disconnected, or nobody gets the flag. -/
def Closed (s : Session α) : Prop := s.disconnectStep = .disconnect ∨ s.sendFlag = true

theorem disconnect_step (step : SendStep s p event s' p') (gone : s.disconnectStep = .disconnect) :
    s'.disconnectStep = .disconnect := by
  rcases step with step | step | step <;> cases step <;> simp_all

/-- A thread that stands so stays so, and sends nothing. -/
theorem halted_step (step : SendStep s p event s' p') (none : s.inFlight = []) (closed : Closed s)
    (halted : Halted s p) :
    Halted s' p' ∧ Closed s' ∧ s'.inFlight = [] ∧ s'.completed = s.completed := by
  unfold Halted Closed at *
  rcases step with step | step | step
  · cases step with
    | enqueue packet lastPacket => exact ⟨.inl (by cases lastPacket <;> rfl), closed, none, rfl⟩
    | last normal =>
      refine ⟨.inl rfl, .inr ?_, none, rfl⟩
      rcases closed with gone | set
      · rw [gone] at normal
        cases normal
      · exact set
    | disconnect => exact ⟨.inl rfl, .inl rfl, none, rfl⟩
    | _ => exact ⟨.inl rfl, closed, none, rfl⟩
  · cases step with
    | taken free =>
      rcases closed with gone | set
      · exact ⟨.inr (.inr ⟨gone, .inr (.inl rfl)⟩), .inl gone, none, rfl⟩
      · rw [free] at set
        cases set
    | busy held => exact ⟨.inl rfl, .inr rfl, none, rfl⟩
    | disconnected gone => exact ⟨.inr (.inr ⟨gone, .inr (.inr rfl)⟩), closed, none, rfl⟩
    | giveBack | failedFlag =>
      have gone : s.disconnectStep = .disconnect := by simpa [Place.holds] using halted
      exact ⟨.inl rfl, .inl gone, none, rfl⟩
    | failed => exact ⟨.inr (.inr ⟨rfl, .inl rfl⟩), .inl rfl, none, rfl⟩
    | readCancel => exact ⟨.inl rfl, closed, none, rfl⟩
    | connected stays => simp [Place.holds, stays] at halted
    | _ => simp [Place.holds] at halted
  · cases step with
    | completed sent _ | completedFails sent => simp [none] at sent
    | posted | notPosted | cut | resetFlag => simp [Place.holds] at halted
    | _ => exact ⟨.inl rfl, closed, none, rfl⟩

theorem halted_aside (step : SendStep s p event s' p') {other : Place α} (halted : Halted s other) :
    Halted s' other := by
  rcases halted with aside | failed | ⟨gone, places⟩
  · exact .inl aside
  · exact .inr (.inl failed)
  · exact .inr (.inr ⟨disconnect_step step gone, places⟩)

end Halt

/-! ## Runs -/

section Runs
variable {ι : Type*} {α : Type*} {labels later : List (ι × Event)}
  {m m' : Threads ι (Session α) (Place α)}

/-- After a send has failed: what is completed are still the first packets, and nothing
more comes of the threads. -/
structure Stopped (m : Threads ι (Session α) (Place α)) : Prop where
  completed : m.shared.completed <+: m.shared.queued.map Prod.fst
  none : m.shared.inFlight = []
  closed : Closed m.shared
  halted : ∀ i, Halted m.shared (m.place i)

/-- Has `WSASend` or a completion failed? -/
def Failed (labels : List (ι × Event)) : Prop := ∃ label ∈ labels, label.2 = .sendFailed

structure Sending [Fintype ι] (labels : List (ι × Event)) (m : Threads ι (Session α) (Place α)) :
    Prop where
  exclusive : Exclusive labels m
  filling : ∀ i, Filling m.shared (m.place i)
  sized : ∀ batch ∈ m.shared.inFlight, Sized batch
  order : ¬Failed labels → ∃ hand, Hand m hand
  stopped : Failed labels → Stopped m

variable [DecidableEq ι]

theorem stopped_step {label : ι × Event} (stopped : Stopped m) (step : Step m label m') :
    Stopped m' ∧ m'.shared.completed = m.shared.completed := by
  obtain ⟨s, p, step, rfl⟩ := step
  obtain ⟨halted, closed, none, completed⟩ :=
    halted_step step stopped.none stopped.closed (stopped.halted label.1)
  obtain ⟨new, queued⟩ := queued_step step
  refine ⟨⟨?_, none, closed, ?_⟩, completed⟩
  · rw [Threads.shared_move, completed, queued, List.map_append]
    exact stopped.completed.trans (List.prefix_append _ _)
  · exact Threads.place_move_all m label.1 (Q := Halted s) s p halted
      fun i _ => halted_aside step (stopped.halted i)

theorem stopped_run (run : Run Step m later m') (stopped : Stopped m) :
    Stopped m' ∧ m'.shared.completed = m.shared.completed :=
  run.invariant (P := fun t => Stopped t ∧ t.shared.completed = m.shared.completed)
    (fun _ _ _ before step => by
      obtain ⟨stopped, same⟩ := stopped_step before.1 step
      exact ⟨stopped, same.trans before.2⟩) ⟨stopped, rfl⟩

variable [Fintype ι]

/-- The step at which a send fails. -/
theorem stopped_of_failure {i : ι} {s : Session α} {p : Place α} {hand : List α}
    (exclusive : Exclusive labels m) (kept : Hand m hand)
    (step : SendStep m.shared (m.place i) .sendFailed s p) : Stopped (m.move i s p) := by
  have sent : m.shared.completed <+: m.shared.queued.map Prod.fst := by
    rw [kept.order, List.append_assoc]
    exact List.prefix_append _ _
  have others (aside : ∀ j, j ≠ i → (m.place j).holds = 0) (self : Halted s p) :
      ∀ j, Halted s ((m.move i s p).place j) :=
    Threads.place_move_all m i (Q := Halted s) s p self fun j other => .inl (aside j other)
  generalize here : m.place i = place at step
  rcases step with step | step | step
  · cases step
  · cases step with
    | sendFails batch =>
      have holds : 0 < (m.place i).holds := by simp [here, Place.holds]
      obtain ⟨flying, aside⟩ := exclusive.alone holds
      exact ⟨sent, flying, .inr (exclusive.held holds), others aside (.inr (.inl rfl))⟩
  · cases step with
    | @completedFails before after batch flight =>
      obtain ⟨rfl, rfl, aside⟩ := exclusive.flying flight
      refine ⟨sent, rfl, .inr ?_, others (fun j _ => aside j) (.inl rfl)⟩
      have le := exclusive.le
      rw [flight] at le
      cases set : m.shared.sendFlag with
      | true => rfl
      | false => simp [set] at le

omit [DecidableEq ι] [Fintype ι] in
theorem failed_snoc (labels : List (ι × Event)) (label : ι × Event) :
    Failed (labels ++ [label]) ↔ Failed labels ∨ label.2 = .sendFailed := by
  simp [Failed, or_and_right, exists_or]

theorem sending_step {label : ι × Event} (sending : Sending labels m) (step : Step m label m') :
    Sending (labels ++ [label]) m' := by
  have exclusive := exclusive_step sending.exclusive step
  have moved := step
  obtain ⟨s, p, step, rfl⟩ := step
  constructor
  case exclusive => exact exclusive
  case filling =>
    refine Threads.place_move_all m label.1 (Q := Filling s) s p
      (filling_step step (sending.filling label.1)) fun j other => ?_
    by_cases holds : 0 < (m.place label.1).holds
    · have aside := (sending.exclusive.alone holds).2 j other
      have filling := sending.filling j
      cases place : m.place j with
      | dequeue batch | readLast batch | markLast batch | send batch =>
        rw [place] at aside
        cases aside
      | _ => trivial
    · exact filling_aside step (Nat.eq_zero_of_not_pos holds) (sending.filling j)
  case sized =>
    intro batch member
    rcases flight_step step batch member with before | here
    · exact sending.sized batch before
    · have filling := sending.filling label.1
      rwa [here] at filling
  case order =>
    intro succeeds
    rw [failed_snoc, not_or] at succeeds
    obtain ⟨hand, kept⟩ := sending.order succeeds.1
    obtain ⟨hand', kept', _⟩ := hand_step sending.exclusive kept step succeeds.2
    exact ⟨hand', kept'⟩
  case stopped =>
    intro fails
    by_cases before : Failed labels
    · exact (stopped_step (sending.stopped before) moved).1
    · obtain ⟨hand, kept⟩ := sending.order before
      rcases (failed_snoc ..).mp fails with earlier | now
      · exact absurd earlier before
      · rw [now] at step
        exact stopped_of_failure sending.exclusive kept step

omit [DecidableEq ι] in
theorem start_sending : Sending [] (start ι α) where
  exclusive := by
    refine ⟨?_, fun _ => Nat.zero_le _⟩
    rw [Threads.total_zero Place.holds _ fun _ => rfl]
    exact Nat.zero_le _
  filling := fun _ => trivial
  sized := fun _ member => nomatch member
  order := fun _ => ⟨[], rfl, fun _ _ => rfl, fun _ member => (nomatch member), fun _ _ => rfl⟩
  stopped := fun ⟨_, member, _⟩ => nomatch member

/-- The packets on the wire, in the order of the queue. -/
structure InOrder (s : Session α) : Prop where
  wire : s.completed ++ s.inFlight.flatten <+: s.queued.map Prod.fst
  single : s.inFlight.length ≤ 1
  sized : ∀ batch ∈ s.inFlight, Sized batch

omit [DecidableEq ι] in
theorem Sending.inOrder (sending : Sending labels m) : InOrder m.shared where
  single := by
    have le := sending.exclusive.le
    have flag := m.shared.sendFlag.toNat_le
    omega
  sized := sending.sized
  wire := by
    by_cases fails : Failed labels
    · have stopped := sending.stopped fails
      rw [stopped.none, List.flatten_nil, List.append_nil]
      exact stopped.completed
    · obtain ⟨hand, kept⟩ := sending.order fails
      rw [kept.order]
      cases flying : m.shared.inFlight with
      | nil =>
        rw [List.flatten_nil, List.append_nil, List.append_assoc]
        exact List.prefix_append _ _
      | cons batch rest =>
        have single : (batch :: rest).length ≤ 1 := by
          have le := sending.exclusive.le
          have flag := m.shared.sendFlag.toNat_le
          rw [flying] at le
          omega
        obtain rfl : rest = [] := List.eq_nil_of_length_eq_zero (Nat.le_zero.mp (Nat.le_of_succ_le_succ single))
        obtain rfl := kept.inFlight batch (flying ▸ List.mem_cons_self ..)
        simp

/-- In every run the client gets the first of the queued packets, each once and in order,
by one `WSASend` at a time. After a send has failed nothing more is sent. -/
theorem wire_in_order (run : Run Step (start ι α) labels m) :
    InOrder m.shared ∧ (Failed labels → ∀ later m', Run Step m later m' →
      m'.shared.inFlight = [] ∧ m'.shared.completed = m.shared.completed) := by
  have sending : Sending labels m := run.history
    (fun _ _ _ _ before step => sending_step before step) start_sending
  refine ⟨sending.inOrder, fun fails later m' more => ?_⟩
  obtain ⟨stopped, same⟩ := stopped_run more (sending.stopped fails)
  exact ⟨stopped.none, same⟩

end Runs

/-! ## A send that fails -/

/-- Two packets: the first is sent, `WSASend` refuses the second. Thread
`false` queues them, thread `true` is the worker. -/
def secondRefused : List (Bool × Choice Nat) :=
  .flatten [[(false, .sendPacket 1 false)], .replicate 3 (false, .go),
    [(true, .request)], .replicate 8 (true, .go), [(true, .completion)], .replicate 3 (true, .go),
    [(false, .sendPacket 2 false)], .replicate 3 (false, .go),
    [(true, .request)], .replicate 6 (true, .go), [(true, .fail)]]

/-- What is completed and queued, and whether the schedule has come to the refusal. -/
def sentSo (after : List (Bool × Event) × Threads Bool (Session Nat) (Place Nat)) :
    List Nat × List (Nat × Bool) × Bool :=
  (after.2.shared.completed, after.2.shared.queued, decide ((true, .sendFailed) ∈ after.1))

theorem second_refused : ∃ labels m, Run Step (start Bool Nat) labels m ∧
    m.shared.queued = [(1, false), (2, false)] ∧ m.shared.completed = [1] ∧ InOrder m.shared ∧
    ∀ later m', Run Step m later m' → m'.shared.inFlight = [] ∧ m'.shared.completed = [1] := by
  obtain ⟨⟨labels, m⟩, replayed⟩ :
      ∃ after, replay turn (start Bool Nat) secondRefused = some after :=
    Option.isSome_iff_exists.mp (by decide +kernel)
  have after : (replay turn (start Bool Nat) secondRefused).map sentSo =
      some ([1], [(1, false), (2, false)], true) := by
    decide +kernel
  rw [replayed] at after
  obtain ⟨completed, others⟩ := Prod.mk.inj (Option.some.inj after)
  obtain ⟨queued, refused⟩ := Prod.mk.inj others
  have run := replay_run (fun _ _ _ _ => turn_step) replayed
  obtain ⟨inOrder, last⟩ := wire_in_order run
  refine ⟨labels, m, run, queued, completed, inOrder, fun later m' more => ?_⟩
  obtain ⟨none, same⟩ := last ⟨_, of_decide_eq_true refused, rfl⟩ later m' more
  exact ⟨none, same.trans completed⟩

end NewNameAuction.WireOrder
