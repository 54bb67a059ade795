import NewNameAuction.SendPost

/-! Whether somebody looks after `sendQueue`. Whoever has the flag looks there again
before it lets the session be, save one: `sendPost` that has found the queue empty gives
the flag back without another look. A packet queued before that, whose request found the
flag taken, stays where it is. -/
namespace NewNameAuction.SendWakeup
open SendPost

/-- A thread that has the flag, or will try to get it, or will post a request. -/
def awake {α : Type*} : Place α → Bool
  | .last | .post => true
  | .takeFlag | .readStep | .readCount | .giveBack => true
  | .dequeue _ | .readLast _ | .markLast _ | .send _ => true
  | .readPosted | .cut | .resetFlag | .readMore => true
  | _ => false

section Awake
variable {ι : Type*} {α : Type*}

/-- Somebody will look at `sendQueue`: a thread, one that takes a request, or one that
gets a completion. -/
def Awake (m : Threads ι (Session α) (Place α)) : Prop :=
  0 < m.shared.requests ∨ m.shared.inFlight ≠ [] ∨ ∃ i, awake (m.place i) = true

/-- Somebody other than thread `i`. -/
def OthersAwake (m : Threads ι (Session α) (Place α)) (i : ι) : Prop :=
  0 < m.shared.requests ∨ m.shared.inFlight ≠ [] ∨ ∃ j, j ≠ i ∧ awake (m.place j) = true

/-- When `sendPost` gives the flag back after it has found `sendQueue` empty, and when a
request cannot be posted, the queue is empty or somebody else will look at it. -/
def Attended (m : Threads ι (Session α) (Place α)) (label : ι × Event) : Prop :=
  m.place label.1 = .giveBack ∨ label.2 = .unposted → m.shared.disconnectStep ≠ .disconnect →
    m.shared.sendQueue = [] ∨ OthersAwake m label.1

instance [Fintype ι] [DecidableEq ι] [DecidableEq α] (m : Threads ι (Session α) (Place α)) (i : ι) :
    Decidable (OthersAwake m i) :=
  inferInstanceAs (Decidable (_ ∨ _ ∨ _))

instance [Fintype ι] [DecidableEq ι] [DecidableEq α] (m : Threads ι (Session α) (Place α))
    (label : ι × Event) : Decidable (Attended m label) :=
  inferInstanceAs (Decidable (_ → _ → _))

/-- Nobody is in `sendPacket`, in `sendPost` or in a completion, and nothing is pending. -/
structure AtRest (m : Threads ι (Session α) (Place α)) : Prop where
  idle : ∀ i, m.place i = .idle
  requests : m.shared.requests = 0
  inFlight : m.shared.inFlight = []

/-- At rest, a session that is connected and whose sends have all succeeded has nothing
to send. -/
def NotStranded (labels : List (ι × Event)) (m : Threads ι (Session α) (Place α)) : Prop :=
  AtRest m → (∀ label ∈ labels, label.2 ≠ .sendFailed) → m.shared.disconnectStep ≠ .disconnect →
    m.shared.sendQueue = [] ∧ m.shared.sendFlag = false

end Awake

/-! ## One step -/

section Step
variable {α : Type*} {s s' : Session α} {p p' : Place α} {event : Event}

/-- A session stays disconnected. -/
theorem connected_step (step : SendStep s p event s' p')
    (connected : s'.disconnectStep ≠ .disconnect) : s.disconnectStep ≠ .disconnect := by
  intro was
  rcases step with step | step | step <;> cases step <;> simp_all

/-- The thread leaves the queue to others: it gives the flag back, finds it taken, or
cannot post its request. -/
def Leaves (s : Session α) (p : Place α) (event : Event) : Prop :=
  p = .giveBack ∨ event = .unposted ∨ (p = .takeFlag ∧ s.sendFlag = true)

/-- Otherwise, somebody who looks after the queue goes on to do so, or has left it empty. -/
theorem awake_step (step : SendStep s p event s' p') (succeeds : event ≠ .sendFailed)
    (connected : s'.disconnectStep ≠ .disconnect) (stays : ¬ Leaves s p event)
    (watched : 0 < s.requests ∨ s.inFlight ≠ [] ∨ awake p = true) :
    s'.sendQueue = [] ∨ 0 < s'.requests ∨ s'.inFlight ≠ [] ∨ awake p' = true := by
  unfold Leaves at stays
  rcases step with step | step | step
  · cases step with
    | enqueue packet lastPacket => cases lastPacket <;> simp [awake]
    | _ => simp_all [awake]
  · cases step <;> simp_all [awake]
  · cases step <;> simp_all [awake]

/-- A packet is put into the queue by a thread that goes on to look after it. -/
theorem queue_step (step : SendStep s p event s' p') (empty : s.sendQueue = []) :
    s'.sendQueue = [] ∨ awake p' = true := by
  rcases step with step | step | step
  · cases step with
    | enqueue packet lastPacket => cases lastPacket <;> simp [awake]
    | _ => simp_all [awake]
  · cases step <;> simp_all [awake]
  · cases step <;> simp_all [awake]

/-- As long as every send succeeds, whoever has the flag looks after the queue. -/
theorem holder_step (step : SendStep s p event s' p') (succeeds : event ≠ .sendFailed)
    (watches : 0 < p.holds → awake p = true) : 0 < p'.holds → awake p' = true := by
  rcases step with step | step | step
  · cases step with
    | enqueue packet lastPacket => cases lastPacket <;> simp [awake]
    | _ => simp_all [awake, Place.holds]
  · cases step <;> simp_all [awake, Place.holds]
  · cases step <;> simp_all [awake, Place.holds]

theorem leave_step (step : SendStep s p event s' p') (leaves : Leaves s p event) :
    s'.requests = s.requests ∧ s'.inFlight = s.inFlight := by
  unfold Leaves at leaves
  rcases step with step | step | step <;> cases step <;> simp_all

end Step

/-! ## Runs -/

section Runs
variable {ι : Type*} {α : Type*} {labels : List (ι × Event)} {m m' : Threads ι (Session α) (Place α)}

/-- What holds as long as every send succeeds. -/
structure Watched (m : Threads ι (Session α) (Place α)) : Prop where
  holders : ∀ i, 0 < (m.place i).holds → awake (m.place i) = true
  queue : m.shared.disconnectStep ≠ .disconnect → m.shared.sendQueue = [] ∨ Awake m

/-- Someone else has the flag that a thread finds taken. -/
theorem taken_watched [Fintype ι] (exclusive : Exclusive labels m) (watched : Watched m)
    (succeed : ∀ label ∈ labels, label.2 ≠ .sendFailed) {i : ι} (here : m.place i = .takeFlag)
    (taken : m.shared.sendFlag = true) : OthersAwake m i := by
  have ge := exclusive.ge succeed
  rw [taken, Bool.toNat_true] at ge
  by_cases none : m.shared.inFlight = []
  · rw [none, List.length_nil] at ge
    obtain ⟨j, holds⟩ : ∃ j, 0 < (m.place j).holds := by
      by_contra nobody
      have zero := m.total_zero Place.holds fun j =>
        Nat.eq_zero_of_not_pos fun holds => nobody ⟨j, holds⟩
      omega
    refine .inr (.inr ⟨j, ?_, watched.holders j holds⟩)
    rintro rfl
    rw [here] at holds
    cases holds
  · exact .inr (.inl none)

variable [DecidableEq ι]

theorem awake_move {i : ι} {s : Session α} {p : Place α}
    (seen : 0 < s.requests ∨ s.inFlight ≠ [] ∨ awake p = true) : Awake (m.move i s p) := by
  rcases seen with requests | inFlight | self
  · exact .inl requests
  · exact .inr (.inl inFlight)
  · exact .inr (.inr ⟨i, by rwa [Threads.place_move_self]⟩)

theorem other_awake {i j : ι} {s : Session α} {p : Place α} (other : j ≠ i)
    (watches : awake (m.place j) = true) : Awake (m.move i s p) :=
  .inr (.inr ⟨j, by rwa [Threads.place_move_other _ _ _ _ other]⟩)

theorem watched_step [Fintype ι] {label : ι × Event} (exclusive : Exclusive labels m)
    (watched : Watched m) (succeed : ∀ label ∈ labels, label.2 ≠ .sendFailed)
    (succeeds : label.2 ≠ .sendFailed) (step : Step m label m') (attended : Attended m label) :
    Watched m' := by
  obtain ⟨i, event⟩ := label
  obtain ⟨s, p, step, rfl⟩ := step
  refine ⟨Threads.place_move_all m i (Q := fun p => 0 < p.holds → awake p = true) s p
    (holder_step step succeeds (watched.holders i)) fun j _ => watched.holders j, fun connected => ?_⟩
  have was := connected_step step connected
  have emptied (empty : m.shared.sendQueue = []) : s.sendQueue = [] ∨ Awake (m.move i s p) :=
    (queue_step step empty).imp_right fun self => awake_move (.inr (.inr self))
  rcases watched.queue was with empty | someone
  · exact emptied empty
  by_cases leaves : Leaves m.shared (m.place i) event
  · have others : m.shared.sendQueue = [] ∨ OthersAwake m i := by
      rcases leaves with gives | unposted | ⟨here, taken⟩
      · exact attended (.inl gives) was
      · exact attended (.inr unposted) was
      · exact .inr (taken_watched exclusive watched succeed here taken)
    obtain ⟨requests, inFlight⟩ := leave_step step leaves
    rcases others with empty | requested | flying | ⟨j, other, watches⟩
    · exact emptied empty
    · exact .inr (awake_move (.inl (requests ▸ requested)))
    · exact .inr (awake_move (.inr (.inl (inFlight ▸ flying))))
    · exact .inr (other_awake other watches)
  · have goes := awake_step step succeeds connected leaves
    rcases someone with requested | flying | ⟨j, watches⟩
    · exact (goes (.inl requested)).imp_right awake_move
    · exact (goes (.inr (.inl flying))).imp_right awake_move
    · by_cases other : j = i
      · exact (goes (.inr (.inr (other ▸ watches)))).imp_right awake_move
      · exact .inr (other_awake other watches)

/-- Nothing is stranded in a run in which the flag is never given back, and no request
lost, over a packet that nobody else will look for. -/
theorem no_stranded_send [Fintype ι] (run : Run (Meeting Step Attended) (start ι α) labels m) :
    NotStranded labels m := by
  obtain ⟨exclusive, watched⟩ : Exclusive labels m ∧
      ((∀ label ∈ labels, label.2 ≠ .sendFailed) → Watched m) := by
    refine run.history (P := fun past m => Exclusive past m ∧
      ((∀ label ∈ past, label.2 ≠ .sendFailed) → Watched m)) ?_
      ⟨run_exclusive (.nil _), fun _ => ⟨fun _ holds => (nomatch holds), fun _ => .inl rfl⟩⟩
    rintro past m label m' ⟨exclusive, watched⟩ ⟨step, attended⟩
    refine ⟨exclusive_step exclusive step, fun succeed => ?_⟩
    have before : ∀ label ∈ past, label.2 ≠ .sendFailed :=
      fun other member => succeed other (List.mem_append_left _ member)
    exact watched_step exclusive (watched before) before
      (succeed label (List.mem_append_right _ (List.mem_singleton_self _))) step attended
  intro rest succeed connected
  constructor
  · rcases (watched succeed).queue connected with empty | requested | flying | ⟨i, watches⟩
    · exact empty
    · exact absurd rest.requests (Nat.ne_of_gt requested)
    · exact absurd rest.inFlight flying
    · rw [rest.idle i] at watches
      cases watches
  · have ge := exclusive.ge succeed
    rw [m.total_zero Place.holds fun i => by rw [rest.idle i]; rfl, rest.inFlight] at ge
    cases set : m.shared.sendFlag with
    | false => rfl
    | true =>
      rw [set] at ge
      cases ge

end Runs

/-! ## Two schedules -/

section Schedules

/-- The numerals of three threads mean the same, whatever is imported. -/
theorem three_threads : @NeZero Nat Zero.ofOfNat0 3 := ⟨by decide⟩

attribute [local instance] three_threads

/-- What a schedule leaves behind: the packets sent, the packets waiting, and whether all
is at rest. -/
def remains (after : List (Fin 3 × Event) × Threads (Fin 3) (Session Nat) (Place Nat)) :
    List Nat × List Nat × Bool :=
  (after.2.shared.completed, after.2.shared.sendQueue,
    decide ((∀ i, after.2.place i = .idle) ∧ after.2.shared.requests = 0 ∧
      after.2.shared.inFlight = [] ∧ (∀ label ∈ after.1, label.2 ≠ .sendFailed) ∧
      after.2.shared.disconnectStep ≠ .disconnect))

/-- One packet is sent. -/
def sendsOne : List (Fin 3 × Choice Nat) :=
  .flatten [[(0, .sendPacket 1 false)], .replicate 3 (0, .go),
    [(1, .request)], .replicate 8 (1, .go),
    [(1, .completion)], .replicate 3 (1, .go)]

theorem no_stranded_send_one :
    ∃ labels m, Run (Meeting Step Attended) (start (Fin 3) Nat) labels m ∧ AtRest m ∧
      m.shared.completed = [1] ∧ m.shared.sendQueue = [] ∧ m.shared.sendFlag = false := by
  obtain ⟨⟨labels, m⟩, replayed⟩ :
      ∃ after, replay (guarded Attended turn) (start (Fin 3) Nat) sendsOne = some after :=
    Option.isSome_iff_exists.mp (by decide +kernel)
  have after : (replay (guarded Attended turn) (start (Fin 3) Nat) sendsOne).map remains =
      some ([1], [], true) := by
    decide +kernel
  rw [replayed] at after
  obtain ⟨completed, others⟩ := Prod.mk.inj (Option.some.inj after)
  obtain ⟨idle, requests, inFlight, succeed, connected⟩ := of_decide_eq_true (Prod.mk.inj others).2
  have run := replay_run (guarded_sound fun _ _ _ _ => turn_step) replayed
  exact ⟨labels, m, run, ⟨idle, requests, inFlight⟩, completed,
    no_stranded_send run ⟨idle, requests, inFlight⟩ succeed connected⟩

/-- Packets 1 and 2 go out together. The second request finds the queue empty, and before
its thread gives the flag back, packet 3 is queued and its request finds the flag taken. -/
def strandsThird : List (Fin 3 × Choice Nat) :=
  .flatten [[(0, .sendPacket 1 false)], .replicate 3 (0, .go),
    [(0, .sendPacket 2 false)], .replicate 3 (0, .go),
    [(1, .request)], .replicate 9 (1, .go),
    [(1, .completion)], .replicate 3 (1, .go),
    [(1, .request)], .replicate 3 (1, .go),
    [(0, .sendPacket 3 false)], .replicate 3 (0, .go),
    [(2, .request), (2, .go), (1, .go)]]

theorem third_packet_stranded :
    ∃ labels m, Run Step (start (Fin 3) Nat) labels m ∧ AtRest m ∧
      m.shared.completed = [1, 2] ∧ m.shared.sendQueue = [3] ∧ ¬ NotStranded labels m := by
  obtain ⟨⟨labels, m⟩, replayed⟩ :
      ∃ after, replay turn (start (Fin 3) Nat) strandsThird = some after :=
    Option.isSome_iff_exists.mp (by decide +kernel)
  have after : (replay turn (start (Fin 3) Nat) strandsThird).map remains =
      some ([1, 2], [3], true) := by
    decide +kernel
  rw [replayed] at after
  obtain ⟨completed, others⟩ := Prod.mk.inj (Option.some.inj after)
  obtain ⟨waiting, settled⟩ := Prod.mk.inj others
  obtain ⟨idle, requests, inFlight, succeed, connected⟩ := of_decide_eq_true settled
  refine ⟨labels, m, replay_run (fun _ _ _ _ => turn_step) replayed, ⟨idle, requests, inFlight⟩,
    completed, waiting, fun kept => ?_⟩
  have empty := (kept ⟨idle, requests, inFlight⟩ succeed connected).1
  cases waiting.symm.trans empty

end Schedules

end NewNameAuction.SendWakeup
