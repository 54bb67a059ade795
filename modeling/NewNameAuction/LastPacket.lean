import NewNameAuction.SendPost

/-! What has been sent when a session is cut after its `LastPacket`. The marks on
`disconnectStep` do not say which packets a batch held: the session is cut too early when
`sendPost` marks it as sent while the packet is still queued, because the batch was full
or the packet came after the batch was taken. -/
namespace NewNameAuction.LastPacket
open SendPost

section UpToLast
variable {α : Type*} {queued : List (α × Bool)}

/-- The packets queued up to and including the first one with `LastPacket`. -/
def upToLast : List (α × Bool) → List α
  | [] => []
  | (packet, true) :: _ => [packet]
  | (packet, false) :: rest => packet :: upToLast rest

def HasLast (queued : List (α × Bool)) : Prop := ∃ packet, (packet, true) ∈ queued

theorem upToLast_queued (queued : List (α × Bool)) : upToLast queued <+: queued.map Prod.fst := by
  induction queued with
  | nil => exact List.prefix_rfl
  | cons entry rest ih =>
    obtain ⟨packet, last⟩ := entry
    cases last with
    | true => exact (List.prefix_append [packet] _)
    | false => exact (List.prefix_cons_inj packet).mpr ih

/-- What is queued later comes after the last packet. -/
theorem upToLast_append (has : HasLast queued) (later : List (α × Bool)) :
    upToLast (queued ++ later) = upToLast queued := by
  induction queued with
  | nil =>
    obtain ⟨packet, member⟩ := has
    cases member
  | cons entry rest ih =>
    obtain ⟨packet, last⟩ := entry
    cases last with
    | true => rfl
    | false =>
      obtain ⟨other, member⟩ := has
      rcases List.mem_cons.mp member with same | member
      · cases same
      · exact congrArg (packet :: ·) (ih ⟨other, member⟩)

end UpToLast

section Statement
variable {ι : Type*} {α : Type*}

/-- Every packet up to the last one has been part of a completed `WSASend`. -/
def LastSent (s : Session α) : Prop :=
  HasLast s.queued ∧ upToLast s.queued <+: s.completed

/-- What `sendPost` marks as sent is no longer queued. -/
def MarksSent (s : Session α) : Place α → Prop
  | .markLast _ => s.disconnectStep = .sendPacketLast →
    (upToLast s.queued).length + s.sendQueue.length ≤ s.queued.length
  | _ => True

instance (s : Session α) : DecidablePred (MarksSent s)
  | .markLast _ => inferInstanceAs (Decidable (_ → _))
  | .idle | .found .. | .enqueue .. | .last | .post | .takeFlag | .readStep | .readCount
  | .giveBack | .dequeue _ | .readLast _ | .send _ | .failed | .failedFlag | .readCancel
  | .readPosted | .cut | .resetFlag | .readMore => isTrue trivial

/-- `MarksSent` of the thread that takes the step. -/
def Marked (m : Threads ι (Session α) (Place α)) (label : ι × Event) : Prop :=
  MarksSent m.shared (m.place label.1)

instance (m : Threads ι (Session α) (Place α)) (label : ι × Event) : Decidable (Marked m label) :=
  inferInstanceAs (Decidable (MarksSent _ _))

end Statement

/-! ## The packets on their way -/

section Pass
variable {α : Type*} {s s' : Session α} {p p' : Place α} {event : Event}

/-- What a step does with the packets that are taken off the queue and not yet sent. -/
inductive Pass (s : Session α) (p : Place α) (s' : Session α) (p' : Place α) : Prop
  /-- The thread has no part in them. It may queue another one. -/
  | aside (before : p.holds = 0) (after : p'.holds = 0) (inFlight : s'.inFlight = s.inFlight)
      (completed : s'.completed = s.completed) (new : List (α × Bool))
      (queued : s'.queued = s.queued ++ new)
      (sendQueue : s'.sendQueue = s.sendQueue ++ new.map Prod.fst)
  | take (free : s.sendFlag = false) (batch : p'.batch = []) (inFlight : s'.inFlight = s.inFlight)
      (completed : s'.completed = s.completed) (queued : s'.queued = s.queued)
      (sendQueue : s'.sendQueue = s.sendQueue)
  | keep (before : 0 < p.holds) (after : 0 < p'.holds) (inFlight : s'.inFlight = s.inFlight)
      (completed : s'.completed = s.completed) (queued : s'.queued = s.queued) (more : List α)
      (batch : p'.batch = p.batch ++ more) (sendQueue : s.sendQueue = more ++ s'.sendQueue)
  | give (before : 0 < p.holds) (after : p'.holds = 0) (batch : p.batch = [])
      (inFlight : s'.inFlight = s.inFlight) (completed : s'.completed = s.completed)
      (queued : s'.queued = s.queued) (sendQueue : s'.sendQueue = s.sendQueue)
  | send (before : 0 < p.holds) (after : p'.holds = 0) (inFlight : s'.inFlight = s.inFlight ++ [p.batch])
      (completed : s'.completed = s.completed) (queued : s'.queued = s.queued)
      (sendQueue : s'.sendQueue = s.sendQueue)
  | complete {earlier later : List (List α)} {batch : List α} (before : p.holds = 0)
      (after : 0 < p'.holds) (hand : p'.batch = [])
      (sent : s.inFlight = earlier ++ batch :: later) (inFlight : s'.inFlight = earlier ++ later)
      (completed : s'.completed = s.completed ++ batch) (queued : s'.queued = s.queued)
      (sendQueue : s'.sendQueue = s.sendQueue)

theorem pass_step (step : SendStep s p event s' p') (succeeds : event ≠ .sendFailed) :
    Pass s p s' p' := by
  rcases step with step | step | step
  · cases step with
    | enqueue packet lastPacket =>
      exact .aside rfl (by cases lastPacket <;> rfl) rfl rfl [(packet, lastPacket)] rfl rfl
    | _ => exact .aside rfl rfl rfl rfl [] (List.append_nil _).symm (List.append_nil _).symm
  · cases step with
    | taken free => exact .take free rfl rfl rfl rfl rfl
    | busy held => exact .aside rfl rfl rfl rfl [] (List.append_nil _).symm (List.append_nil _).symm
    | readCancel => exact .aside rfl rfl rfl rfl [] (List.append_nil _).symm (List.append_nil _).symm
    | giveBack | failedFlag => exact .give Nat.one_pos rfl rfl rfl rfl rfl rfl
    | @dequeue batch packet rest room queue =>
      exact .keep Nat.one_pos Nat.one_pos rfl rfl rfl [packet] rfl queue
    | send batch => exact .send Nat.one_pos rfl rfl rfl rfl rfl
    | sendFails batch => exact absurd rfl succeeds
    | _ => exact .keep Nat.one_pos Nat.one_pos rfl rfl rfl [] (List.append_nil _).symm rfl
  · cases step with
    | completed sent transferred => exact .complete rfl Nat.one_pos rfl sent rfl rfl rfl rfl
    | completedFails sent => exact absurd rfl succeeds
    | posted | notPosted | cut =>
      exact .keep Nat.one_pos Nat.one_pos rfl rfl rfl [] (List.append_nil _).symm rfl
    | resetFlag => exact .give Nat.one_pos rfl rfl rfl rfl rfl rfl
    | _ => exact .aside rfl rfl rfl rfl [] (List.append_nil _).symm (List.append_nil _).symm

end Pass

section Order
variable {ι : Type*} {α : Type*} {labels : List (ι × Event)} {m : Threads ι (Session α) (Place α)}
  {hand : List α}

/-- `hand` are the packets taken off the queue and not yet sent: those of the thread that
has the flag, or of the `WSASend` that has it. -/
structure Hand (m : Threads ι (Session α) (Place α)) (hand : List α) : Prop where
  order : m.shared.queued.map Prod.fst = m.shared.completed ++ hand ++ m.shared.sendQueue
  holder : ∀ i, 0 < (m.place i).holds → (m.place i).batch = hand
  inFlight : ∀ batch ∈ m.shared.inFlight, batch = hand
  nobody : (∀ i, (m.place i).holds = 0) → m.shared.inFlight = [] → hand = []

/-- What one step does to the packets in hand. -/
theorem hand_step [Fintype ι] [DecidableEq ι] {label : ι × Event} {s : Session α} {p : Place α}
    (exclusive : Exclusive labels m) (kept : Hand m hand)
    (step : SendStep m.shared (m.place label.1) label.2 s p) (succeeds : label.2 ≠ .sendFailed) :
    ∃ hand', Hand (m.move label.1 s p) hand' ∧
      m.shared.completed ++ hand <+: s.completed ++ hand' := by
  obtain ⟨i, event⟩ := label
  have elsewhere {hand' : List α} (self : 0 < p.holds → p.batch = hand')
      (others : ∀ j, j ≠ i → 0 < (m.place j).holds → (m.place j).batch = hand') :
      ∀ j, 0 < ((m.move i s p).place j).holds → ((m.move i s p).place j).batch = hand' :=
    Threads.place_move_all m i (Q := fun p => 0 < p.holds → p.batch = hand') s p self others
  have back (none : ∀ j, ((m.move i s p).place j).holds = 0) :
      ∀ j, j ≠ i → (m.place j).holds = 0 := by
    intro j other
    rw [← none j, Threads.place_move_other _ _ _ _ other]
  cases pass_step step succeeds with
  | aside before after inFlight completed new queued sendQueue =>
    refine ⟨hand, ⟨?_, elsewhere (fun holds => ?_) fun j _ => kept.holder j, ?_, fun none empty => ?_⟩, ?_⟩
    · simp [queued, completed, sendQueue, kept.order, List.append_assoc]
    · exact absurd after (Nat.ne_of_gt holds)
    · rw [Threads.shared_move, inFlight]
      exact kept.inFlight
    · refine kept.nobody (fun j => ?_) (inFlight ▸ empty)
      by_cases self : j = i
      · rw [self, before]
      · exact back none j self
    · rw [completed]
  | take free batch inFlight completed queued sendQueue =>
    obtain ⟨flying, zero⟩ := exclusive.free free
    obtain rfl := kept.nobody zero flying
    refine ⟨[], ⟨?_, elsewhere (fun _ => batch) fun j _ => kept.holder j, ?_, fun _ _ => rfl⟩, ?_⟩
    · rw [Threads.shared_move, queued, completed, sendQueue, kept.order]
    · rw [Threads.shared_move, inFlight]
      exact kept.inFlight
    · rw [completed]
  | keep before after inFlight completed queued more batch sendQueue =>
    obtain ⟨flying, others⟩ := exclusive.alone before
    obtain rfl := kept.holder i before
    refine ⟨(m.place i).batch ++ more, ⟨?_, elsewhere (fun _ => batch) fun j other holds => ?_, ?_,
      fun none _ => ?_⟩, ?_⟩
    · rw [Threads.shared_move, queued, completed, kept.order, sendQueue]
      simp only [List.append_assoc]
    · exact absurd (others j other) (Nat.ne_of_gt holds)
    · rw [Threads.shared_move, inFlight, flying]
      exact fun _ member => nomatch member
    · have zero := none i
      rw [Threads.place_move_self] at zero
      exact absurd zero (Nat.ne_of_gt after)
    · rw [completed, ← List.append_assoc]
      exact List.prefix_append _ _
  | give before after batch inFlight completed queued sendQueue =>
    obtain ⟨flying, others⟩ := exclusive.alone before
    obtain rfl := kept.holder i before
    refine ⟨(m.place i).batch, ⟨?_, elsewhere (fun holds => ?_) fun j other holds => ?_, ?_,
      fun _ _ => batch⟩, ?_⟩
    · rw [Threads.shared_move, queued, completed, kept.order, sendQueue]
    · exact absurd after (Nat.ne_of_gt holds)
    · exact absurd (others j other) (Nat.ne_of_gt holds)
    · rw [Threads.shared_move, inFlight]
      exact kept.inFlight
    · rw [completed]
  | send before after inFlight completed queued sendQueue =>
    obtain ⟨flying, others⟩ := exclusive.alone before
    obtain rfl := kept.holder i before
    refine ⟨(m.place i).batch, ⟨?_, elsewhere (fun holds => ?_) fun j other holds => ?_, ?_,
      fun _ empty => ?_⟩, ?_⟩
    · rw [Threads.shared_move, queued, completed, kept.order, sendQueue]
    · exact absurd after (Nat.ne_of_gt holds)
    · exact absurd (others j other) (Nat.ne_of_gt holds)
    · rw [Threads.shared_move, inFlight, flying]
      exact fun _ member => List.mem_singleton.mp member
    · rw [Threads.shared_move, inFlight, flying] at empty
      cases empty
    · rw [completed]
  | complete before after nothing sent inFlight completed queued sendQueue =>
    obtain ⟨rfl, rfl, zero⟩ := exclusive.flying sent
    obtain rfl := kept.inFlight _ (sent ▸ List.mem_append_right _ (List.mem_cons_self ..))
    refine ⟨[], ⟨?_, elsewhere (fun _ => nothing) fun j _ holds => ?_, ?_, fun none _ => rfl⟩, ?_⟩
    · rw [Threads.shared_move, queued, completed, kept.order, sendQueue, List.append_nil]
    · exact absurd (zero j) (Nat.ne_of_gt holds)
    · rw [Threads.shared_move, inFlight]
      exact fun _ member => nomatch member
    · rw [completed, List.append_nil]

end Order

/-! ## The marks -/

section Marks
variable {α : Type*} {s s' : Session α} {p p' : Place α} {event : Event}

def Announced (s : Session α) : Prop :=
  s.disconnectStep = .sendPacketLast ∨ s.disconnectStep = .sendPostLast

theorem queued_step (step : SendStep s p event s' p') : ∃ new, s'.queued = s.queued ++ new := by
  rcases step with step | step | step <;> cases step <;>
    first | exact ⟨_, rfl⟩ | exact ⟨[], (List.append_nil _).symm⟩

theorem announced_step (step : SendStep s p event s' p') (announced : Announced s') :
    Announced s ∨ p = .last := by
  unfold Announced at *
  rcases step with step | step | step <;> cases step <;> simp_all

theorem last_step (step : SendStep s p event s' p') (last : p' = .last) : HasLast s'.queued := by
  rcases step with step | step | step
  · cases step with
    | enqueue packet lastPacket =>
      cases lastPacket with
      | true => exact ⟨packet, List.mem_append_right _ (List.mem_singleton_self _)⟩
      | false => cases last
    | _ => cases last
  · cases step <;> cases last
  · cases step <;> cases last

/-- The session is marked as sent by `sendPost`, with a batch in hand. -/
theorem marked_step (step : SendStep s p event s' p') (marked : s'.disconnectStep = .sendPostLast) :
    s.disconnectStep = .sendPostLast ∨
      ∃ batch, p = .markLast batch ∧ s.disconnectStep = .sendPacketLast := by
  rcases step with step | step | step <;> cases step <;> simp_all

theorem cut_step (step : SendStep s p event s' p') (cut : p' = .cut) :
    s.disconnectStep = .sendPostLast := by
  rcases step with step | step | step
  · cases step with
    | enqueue packet lastPacket => cases lastPacket <;> cases cut
    | _ => cases cut
  · cases step <;> cases cut
  · cases step with
    | posted step => exact step
    | _ => cases cut

theorem cut_next {ι : Type*} [DecidableEq ι] {m : Threads ι (Session α) (Place α)} {i : ι}
    (here : m.place i = .cut) : ∃ m', Step m (i, .cut) m' := by
  have step : SendStep m.shared (m.place i) .cut { m.shared with disconnectStep := .disconnect }
      .resetFlag := by
    rw [here]
    exact .worker (.cut m.shared)
  exact ⟨_, _, _, step, rfl⟩

theorem cut_place (step : SendStep s p .cut s' p') : p = .cut := by
  rcases step with step | step | step <;> cases step
  rfl

end Marks

/-! ## Runs -/

section Runs
variable {ι : Type*} {α : Type*} {labels : List (ι × Event)} {m m' : Threads ι (Session α) (Place α)}
  {hand : List α}

/-- The session is marked when a last packet has been queued, and marked as sent when the
packets up to it have been taken off the queue. -/
structure Marks (m : Threads ι (Session α) (Place α)) (hand : List α) : Prop where
  announced : Announced m.shared → HasLast m.shared.queued
  last : ∀ i, m.place i = .last → HasLast m.shared.queued
  marked : m.shared.disconnectStep = .sendPostLast →
    upToLast m.shared.queued <+: m.shared.completed ++ hand
  cut : ∀ i, m.place i = .cut →
    HasLast m.shared.queued ∧ upToLast m.shared.queued <+: m.shared.completed ++ hand

variable [DecidableEq ι]

theorem marks_step {label : ι × Event} {s : Session α} {p : Place α} {hand' : List α}
    (kept : Hand m hand) (marks : Marks m hand)
    (step : SendStep m.shared (m.place label.1) label.2 s p) (condition : Marked m label)
    (grows : m.shared.completed ++ hand <+: s.completed ++ hand') :
    Marks (m.move label.1 s p) hand' := by
  obtain ⟨i, event⟩ := label
  obtain ⟨new, queued⟩ := queued_step step
  have has (before : HasLast m.shared.queued) : HasLast s.queued := by
    obtain ⟨packet, member⟩ := before
    exact ⟨packet, queued ▸ List.mem_append_left _ member⟩
  have carry (before : HasLast m.shared.queued)
      (taken : upToLast m.shared.queued <+: m.shared.completed ++ hand) :
      upToLast s.queued <+: s.completed ++ hand' := by
    rw [queued, upToLast_append before]
    exact taken.trans grows
  refine ⟨fun announced => ?_, ?_, fun marked => ?_, ?_⟩
  · rcases announced_step step announced with before | last
    · exact has (marks.announced before)
    · exact has (marks.last i last)
  · exact Threads.place_move_all m i (Q := fun p => p = .last → HasLast s.queued) s p
      (last_step step) fun j _ last => has (marks.last j last)
  · rcases marked_step step marked with before | ⟨batch, here, before⟩
    · exact carry (marks.announced (.inr before)) (marks.marked before)
    · have taken : (upToLast m.shared.queued).length ≤ (m.shared.completed ++ hand).length := by
        have behind : (upToLast m.shared.queued).length + m.shared.sendQueue.length ≤
            m.shared.queued.length := by
          unfold Marked at condition
          rw [here] at condition
          exact condition before
        have length := congrArg List.length kept.order
        simp only [List.length_map, List.length_append] at length ⊢
        omega
      refine carry (marks.announced (.inl before)) (List.prefix_of_prefix_length_le
        (upToLast_queued _) ?_ taken)
      rw [kept.order]
      exact List.prefix_append _ _
  · refine Threads.place_move_all m i (Q := fun p => p = .cut → HasLast s.queued ∧
      upToLast s.queued <+: s.completed ++ hand') s p (fun cut => ?_) fun j _ cut => ?_
    · have before := cut_step step cut
      have last := marks.announced (.inr before)
      exact ⟨has last, carry last (marks.marked before)⟩
    · obtain ⟨last, taken⟩ := marks.cut j cut
      exact ⟨has last, carry last taken⟩

/-- What holds as long as every send succeeds. -/
def Kept (m : Threads ι (Session α) (Place α)) : Prop := ∃ hand, Hand m hand ∧ Marks m hand

omit [DecidableEq ι] in
theorem start_kept : Kept (start ι α) := by
  refine ⟨[], ⟨rfl, fun _ _ => rfl, fun _ member => (nomatch member), fun _ _ => rfl⟩, ?_⟩
  refine ⟨fun announced => ?_, fun _ here => (nomatch here), fun _ => List.prefix_rfl,
    fun _ here => (nomatch here)⟩
  rcases announced with marked | marked <;> cases marked

theorem kept_step [Fintype ι] {label : ι × Event} (exclusive : Exclusive labels m) (kept : Kept m)
    (step : Step m label m') (succeeds : label.2 ≠ .sendFailed) (condition : Marked m label) :
    Kept m' := by
  obtain ⟨hand, held, marks⟩ := kept
  obtain ⟨s, p, step, rfl⟩ := step
  obtain ⟨hand', held', grows⟩ := hand_step exclusive held step succeeds
  exact ⟨hand', held', marks_step held marks step condition grows⟩

theorem run_kept [Fintype ι] (run : Run (Meeting Step Marked) (start ι α) labels m) :
    Exclusive labels m ∧ ((∀ label ∈ labels, label.2 ≠ .sendFailed) → Kept m) := by
  refine run.history (P := fun past m =>
    Exclusive past m ∧ ((∀ label ∈ past, label.2 ≠ .sendFailed) → Kept m)) ?_
    ⟨run_exclusive (.nil _), fun _ => start_kept⟩
  rintro past m label m' ⟨exclusive, kept⟩ ⟨step, condition⟩
  refine ⟨exclusive_step exclusive step, fun succeed => ?_⟩
  exact kept_step exclusive (kept fun other member => succeed other (List.mem_append_left _ member))
    step (succeed label (List.mem_append_right _ (List.mem_singleton_self _))) condition

/-- A session that is cut after its last packet has sent it, and what was queued before. -/
theorem last_packet_sent [Fintype ι] (run : Run (Meeting Step Marked) (start ι α) labels m)
    (succeed : ∀ label ∈ labels, label.2 ≠ .sendFailed) {i : ι} (cut : Step m (i, .cut) m') :
    LastSent m.shared := by
  obtain ⟨hand, held, marks⟩ := (run_kept run).2 succeed
  obtain ⟨s, p, step, rfl⟩ := cut
  have here := cut_place step
  obtain ⟨has, taken⟩ := marks.cut i here
  have nothing : [] = hand := by
    have batch := held.holder i
    rw [here] at batch
    exact batch Nat.one_pos
  rw [← nothing, List.append_nil] at taken
  exact ⟨has, taken⟩

end Runs

/-! ## Two schedules -/

/-- What is completed and queued after a schedule, and whether every send succeeded. -/
def sends (after : List (Fin 2 × Event) × Threads (Fin 2) (Session Nat) (Place Nat)) :
    List Nat × List (Nat × Bool) × Bool :=
  (after.2.shared.completed, after.2.shared.queued,
    decide ((∀ label ∈ after.1, label.2 ≠ .sendFailed) ∧ after.2.place 1 = .cut))

/-- Two packets, the second of them the last one, before their requests are taken. -/
def lastInBatch : List (Fin 2 × Choice Nat) :=
  .flatten [[(0, .sendPacket 1 false)], .replicate 3 (0, .go),
    [(0, .sendPacket 2 true)], .replicate 4 (0, .go),
    [(1, .request)], .replicate 10 (1, .go),
    [(1, .completion), (1, .go)]]

theorem last_packet_sent_in_batch :
    ∃ labels m m', Run (Meeting Step Marked) (start (Fin 2) Nat) labels m ∧ Step m (1, .cut) m' ∧
      m.shared.queued = [(1, false), (2, true)] ∧ LastSent m.shared := by
  obtain ⟨⟨labels, m⟩, replayed⟩ :
      ∃ after, replay (guarded Marked turn) (start (Fin 2) Nat) lastInBatch = some after :=
    Option.isSome_iff_exists.mp (by decide +kernel)
  have after : (replay (guarded Marked turn) (start (Fin 2) Nat) lastInBatch).map sends =
      some ([1, 2], [(1, false), (2, true)], true) := by
    decide +kernel
  rw [replayed] at after
  obtain ⟨completed, others⟩ := Prod.mk.inj (Option.some.inj after)
  obtain ⟨queued, settled⟩ := Prod.mk.inj others
  obtain ⟨succeed, here⟩ := of_decide_eq_true settled
  obtain ⟨m', cut⟩ := cut_next here
  exact ⟨labels, m, m', replay_run (guarded_sound fun _ _ _ _ => turn_step) replayed, cut, queued,
    last_packet_sent (replay_run (guarded_sound fun _ _ _ _ => turn_step) replayed) succeed cut⟩

/-- The second packet, the last one, comes when the batch has been taken. -/
def lastAfterBatch : List (Fin 2 × Choice Nat) :=
  .flatten [[(0, .sendPacket 1 false)], .replicate 3 (0, .go),
    [(1, .request)], .replicate 5 (1, .go),
    [(0, .sendPacket 2 true)], .replicate 4 (0, .go),
    .replicate 4 (1, .go), [(1, .completion), (1, .go)]]

theorem cut_before_last_packet :
    ∃ labels m m', Run Step (start (Fin 2) Nat) labels m ∧
      (∀ label ∈ labels, label.2 ≠ .sendFailed) ∧ Step m (1, .cut) m' ∧
      m.shared.queued = [(1, false), (2, true)] ∧ m.shared.completed = [1] ∧
      ¬ LastSent m.shared := by
  obtain ⟨⟨labels, m⟩, replayed⟩ :
      ∃ after, replay turn (start (Fin 2) Nat) lastAfterBatch = some after :=
    Option.isSome_iff_exists.mp (by decide +kernel)
  have after : (replay turn (start (Fin 2) Nat) lastAfterBatch).map sends =
      some ([1], [(1, false), (2, true)], true) := by
    decide +kernel
  rw [replayed] at after
  obtain ⟨completed, others⟩ := Prod.mk.inj (Option.some.inj after)
  obtain ⟨queued, settled⟩ := Prod.mk.inj others
  obtain ⟨succeed, here⟩ := of_decide_eq_true settled
  obtain ⟨m', cut⟩ := cut_next here
  refine ⟨labels, m, m', replay_run (fun _ _ _ _ => turn_step) replayed, succeed, cut, queued,
    completed, fun sent => ?_⟩
  have missing := sent.2
  rw [queued, completed] at missing
  revert missing
  decide

end NewNameAuction.LastPacket
