import NewNameAuction.Runs

/-! The wake-ups of `DBAccessThread`. The wait for the event stands inside the
loop that drains the queue, and the thread ends when that loop does: it stays
attentive only as long as it never finds the queue empty, and never comes to wait
while work is queued that nobody will signal. -/
namespace NewNameAuction.DatabaseWakeup

variable {J : Type}

/-! ## The channel and its thread -/

/-- Where `DBAccessThread` stands in its nested loops. -/
inductive Place (J : Type)
  /-- Before `while (!ShutDownFlag)`. -/
  | outer
  /-- Before `while (Dequeue(&jobItem) == true)`. -/
  | draining
  /-- In the body of the inner loop. -/
  | handling (job : J)
  /-- In `WaitForSingleObject`. -/
  | waiting
  | returned
  deriving DecidableEq

/-- `JobQueue_DBThread`, `hJobEvent_DBThread`, `ShutDownFlag`, the number of
producers between their `Enqueue` and their `SetEvent`, and the thread. -/
structure JobChannel (J : Type) where
  queue : List J
  event : Bool
  shutDown : Bool
  signalling : Nat
  thread : Place J

/-- After construction, when the thread starts. -/
def JobChannel.start : JobChannel J := ⟨[], false, false, 0, .outer⟩

inductive ChannelEvent (J : Type)
  | enqueue (job : J)
  | setEvent
  | shutDown
  | loop
  | dequeue (found : Option J)
  | handled
  | wake

/-- One step of a producer, of `Stop`, or of the thread. The event is reset by the
wait it ends. -/
inductive ChannelStep : JobChannel J → ChannelEvent J → JobChannel J → Prop
  | enqueue (c : JobChannel J) (job : J) :
      ChannelStep c (.enqueue job)
        { c with queue := c.queue ++ [job], signalling := c.signalling + 1 }
  | setEvent {c : JobChannel J} {others : Nat} : c.signalling = others + 1 →
      ChannelStep c .setEvent { c with event := true, signalling := others }
  | shutDown (c : JobChannel J) : ChannelStep c .shutDown { c with shutDown := true }
  | loop {c : JobChannel J} : c.thread = .outer →
      ChannelStep c .loop { c with thread := if c.shutDown then .returned else .draining }
  | found {c : JobChannel J} {job : J} {rest : List J} : c.thread = .draining → c.queue = job :: rest →
      ChannelStep c (.dequeue (some job)) { c with queue := rest, thread := .handling job }
  | empty {c : JobChannel J} : c.thread = .draining → c.queue = [] →
      ChannelStep c (.dequeue none) { c with thread := .returned }
  | handled {c : JobChannel J} {job : J} : c.thread = .handling job →
      ChannelStep c .handled { c with thread := .waiting }
  | wake {c : JobChannel J} : c.thread = .waiting → c.event = true →
      ChannelStep c .wake { c with event := false, thread := .draining }

/-- While the server runs, the thread is there, and it does not sleep on work
whose producers have all signalled. -/
structure Attentive (c : JobChannel J) : Prop where
  pending : c.shutDown = false → c.signalling = 0 →
    (c.thread = .waiting ∧ c.event = false) ∨ c.thread = .returned → c.queue = []
  running : c.shutDown = false → c.thread ≠ .returned

/-- While the server runs, `Dequeue` finds a job, and the thread comes to wait
with an empty queue or with a signal given or to come. -/
def Fed (c : JobChannel J) : ChannelEvent J → Prop
  | .dequeue _ => c.shutDown = false → c.queue ≠ []
  | .handled => c.shutDown = false → c.queue = [] ∨ c.event = true ∨ 0 < c.signalling
  | _ => True

/-! ## One step -/

/-- A waiting thread has nothing to do or a signal given or to come. -/
structure Awake (c : JobChannel J) : Prop where
  waiting : c.thread = .waiting → c.shutDown = false →
    c.queue = [] ∨ c.event = true ∨ 0 < c.signalling
  returned : c.thread = .returned → c.shutDown = true

section Steps
variable {c c' : JobChannel J} {e : ChannelEvent J}

private theorem awake_step (awake : Awake c) (taken : ChannelStep c e c') (fed : Fed c e) : Awake c' := by
  cases taken with
  | enqueue job =>
    exact ⟨fun _ _ => .inr (.inr (Nat.succ_pos _)), awake.returned⟩
  | setEvent _ =>
    exact ⟨fun _ _ => .inr (.inl rfl), awake.returned⟩
  | shutDown =>
    refine ⟨fun _ running => ?_, fun _ => rfl⟩
    cases running
  | loop there =>
    constructor
    · intro waiting
      dsimp only at waiting
      split at waiting <;> cases waiting
    · intro returned
      dsimp only at returned
      split at returned
      · assumption
      · cases returned
  | found there job =>
    constructor
    · intro waiting
      cases waiting
    · intro returned
      cases returned
  | empty there none =>
    constructor
    · intro waiting
      cases waiting
    · intro _
      cases running : c.shutDown with
      | true => rfl
      | false => exact absurd none (fed running)
  | handled there =>
    refine ⟨fun _ running => fed running, fun returned => ?_⟩
    cases returned
  | wake there signalled =>
    constructor
    · intro waiting
      cases waiting
    · intro returned
      cases returned

private theorem attentive_of_awake (awake : Awake c) : Attentive c := by
  constructor
  · intro running settled idle
    rcases idle with ⟨waiting, silent⟩ | returned
    · rcases awake.waiting waiting running with none | signalled | coming
      · exact none
      · cases silent.symm.trans signalled
      · exact absurd settled (Nat.ne_of_gt coming)
    · cases running.symm.trans (awake.returned returned)
  · intro running returned
    cases running.symm.trans (awake.returned returned)

private theorem fed_of_attentive (taken : ChannelStep c e c') (attentive : Attentive c') : Fed c e := by
  cases taken with
  | enqueue job => trivial
  | setEvent _ => trivial
  | shutDown => trivial
  | loop there => trivial
  | found there job =>
    intro _ none
    cases none.symm.trans job
  | empty there none =>
    intro running
    exact absurd rfl (attentive.running running)
  | handled there =>
    intro running
    cases signalled : c.event with
    | true => exact .inr (.inl rfl)
    | false =>
      rcases Nat.eq_zero_or_pos c.signalling with settled | coming
      · exact .inl (attentive.pending running settled (.inl ⟨rfl, signalled⟩))
      · exact .inr (.inr coming)
  | wake there signalled => trivial

/-- From the start, the runs that leave the thread attentive after every step are
those that feed it at every step. -/
theorem runs_attentive_iff_fed (events : List (ChannelEvent J)) (c : JobChannel J) :
    Run (fun a e b => ChannelStep a e b ∧ Attentive b) .start events c ↔
      Run (Meeting ChannelStep Fed) .start events c := by
  have start : Awake (.start : JobChannel J) := by
    constructor
    · intro waiting
      cases waiting
    · intro returned
      cases returned
  constructor
  · intro run
    exact run.mono fun a e b taken => ⟨taken.1, fed_of_attentive taken.1 taken.2⟩
  · intro run
    refine run.mono_invariant (P := Awake) ?_ ?_ start
    · intro a e b awake taken
      exact awake_step awake taken.1 taken.2
    · intro a e b awake taken
      exact ⟨taken.1, attentive_of_awake (awake_step awake taken.1 taken.2)⟩

end Steps

/-! ## One job and three jobs -/

/-- After its first job the thread wakes to an empty queue and returns. After three
jobs that it found together, it waits for a signal that has come already. -/
theorem one_job_ends_three_strand :
    (∃ events c, Run ChannelStep (.start : JobChannel Nat) events c ∧
      c.shutDown = false ∧ c.thread = .returned ∧ ¬Attentive c) ∧
    ∃ events c, Run ChannelStep (.start : JobChannel Nat) events c ∧
      c.shutDown = false ∧ c.signalling = 0 ∧ c.thread = .waiting ∧ c.event = false ∧
      c.queue = [3] ∧ ¬Attentive c := by
  constructor
  · refine ⟨_, _, .cons (.enqueue _ 1) <| .cons (.setEvent rfl) <| .cons (.loop rfl) <|
      .cons (.found rfl rfl) <| .cons (.handled rfl) <| .cons (.wake rfl rfl) <|
      .single (.empty rfl rfl), rfl, rfl, ?_⟩
    intro attentive
    exact attentive.running rfl rfl
  · refine ⟨_, _, .cons (.enqueue _ 1) <| .cons (.setEvent rfl) <| .cons (.enqueue _ 2) <|
      .cons (.setEvent rfl) <| .cons (.enqueue _ 3) <| .cons (.setEvent rfl) <|
      .cons (.loop rfl) <| .cons (.found rfl rfl) <| .cons (.handled rfl) <|
      .cons (.wake rfl rfl) <| .cons (.found rfl rfl) <| .single (.handled rfl),
      rfl, rfl, rfl, rfl, rfl, ?_⟩
    intro attentive
    cases attentive.pending rfl rfl (.inl ⟨rfl, rfl⟩)

end NewNameAuction.DatabaseWakeup
