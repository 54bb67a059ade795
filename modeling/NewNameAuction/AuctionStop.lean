import NewNameAuction.DatabaseRequests

/-! Whether `AuctionServer::Stop` comes back. It sets `ShutDownFlag`, waits for
`LogicThread` and then for `DBAccessThread`, and signals no event. When `LogicThread` has
ended, nobody else signals the database thread either: it ends if the waits it has still
ahead are paid for by the one signal its event may hold. -/
namespace NewNameAuction.AuctionStop
open DatabaseRequests DatabaseWakeup

/-! ## The threads -/

/-- Where `LogicThread` stands in its nested loops. -/
inductive LogicPlace
  /-- Before `while (!ShutDownFlag)`. -/
  | outer
  /-- Before `while (Dequeue(&jobItem) == true)`. -/
  | draining
  | returned
  deriving DecidableEq

/-- Where `Stop` stands. -/
inductive StopPlace
  | uncalled
  /-- In the wait for `LogicThread`, and in the wait for `DBAccessThread`. -/
  | logicThread
  | databaseThread
  | returned
  deriving DecidableEq

/-- `ShutDownFlag` is that of the system's channel. -/
structure Servers where
  system : System
  logic : LogicPlace
  stop : StopPlace

def Servers.start (auctions : AuctionRef → AuctionData) (packetType : UInt16) : Servers :=
  ⟨.start auctions packetType, .outer, .uncalled⟩

inductive StopEvent
  | called
  /-- `LogicThread` reads `ShutDownFlag`. -/
  | tested
  /-- A wait of `Stop` ends. -/
  | joined
  | system (event : SystemEvent)

/-- `LogicThread` takes its jobs, and calls `Update`, inside its outer loop. `Stop` alone
sets the flag. -/
def Allowed (logic : LogicPlace) : SystemEvent → Prop
  | .logic _ _ | .update _ => logic = .draining
  | .database .shutDown => False
  | _ => True

def afterEvent (logic : LogicPlace) : SystemEvent → LogicPlace
  | .update _ => .outer
  | _ => logic

inductive StopStep (s : Servers) : StopEvent → Servers → Prop
  | called {database : JobChannel DBCheckJob} (uncalled : s.stop = .uncalled)
      (sets : ChannelStep s.system.database .shutDown database) :
      StopStep s .called
        { s with system := { s.system with database := database }, stop := .logicThread }
  | tested (there : s.logic = .outer) (signalled : s.system.outgoing = [] ∧ s.system.database.signalling = 0) :
      StopStep s .tested
        { s with logic := if s.system.database.shutDown then .returned else .draining }
  | logicThread (waits : s.stop = .logicThread) (returned : s.logic = .returned) :
      StopStep s .joined { s with stop := .databaseThread }
  | databaseThread (waits : s.stop = .databaseThread) (returned : s.system.database.thread = .returned) :
      StopStep s .joined { s with stop := .returned }
  | system {event : SystemEvent} {system : System} (allowed : Allowed s.logic event)
      (step : SystemStep s.system event system) :
      StopStep s (.system event) { s with system := system, logic := afterEvent s.logic event }

/-! ## What the database thread has ahead -/

section Channels
variable {c c' : JobChannel DBCheckJob} {event : ChannelEvent DBCheckJob}

/-- The jobs that the thread handles before it ends, if it gets there. -/
def ahead (c : JobChannel DBCheckJob) : List DBCheckJob :=
  match c.thread with
  | .outer | .returned => []
  | .draining | .waiting => c.queue
  | .handling job => job :: c.queue

/-- Each of them ends in a wait. -/
def waitsAhead (c : JobChannel DBCheckJob) : Nat :=
  (ahead c).length + if c.thread = .waiting then 1 else 0

def signals (c : JobChannel DBCheckJob) : Nat := if c.event then 1 else 0

/-- The waits that no signal pays for. -/
def owed (c : JobChannel DBCheckJob) : Int := (waitsAhead c : Int) - signals c

/-- The thread's own steps, once the flag is set and nobody signals, leave what it owes. -/
theorem owed_thread (shutDown : c.shutDown = true) (silent : c.signalling = 0) (quiet : Quiet event)
    (step : ChannelStep c event c') :
    owed c' = owed c ∧ ahead c' = ahead c ∧ c'.shutDown = true ∧ c'.signalling = 0 := by
  cases step with
  | enqueue | handled => cases quiet
  | setEvent some => exact absurd (some.symm.trans silent) (Nat.succ_ne_zero _)
  | shutDown => exact ⟨rfl, rfl, rfl, silent⟩
  | loop there => simp [owed, waitsAhead, ahead, signals, there, shutDown, silent]
  | found there queued => simp [owed, waitsAhead, ahead, signals, there, queued, shutDown, silent]
  | empty there none => simp [owed, waitsAhead, ahead, signals, there, none, shutDown, silent]
  | wake there event =>
    refine ⟨?_, by simp [ahead, there], shutDown, silent⟩
    simp [owed, waitsAhead, ahead, signals, there, event]

theorem owed_handled {job : DBCheckJob} (there : c.thread = .handling job) (step : ChannelStep c .handled c') :
    owed c' = owed c ∧ ahead c = job :: ahead c' ∧ c'.shutDown = c.shutDown ∧
      c'.signalling = c.signalling := by
  cases step with
  | handled => simp [owed, waitsAhead, ahead, signals, there]

end Channels

/-! ## After `LogicThread` -/

/-- `LogicThread` has ended, with its jobs and signals handed over, and the flag is set. -/
structure Ended (s : Servers) : Prop where
  logic : s.logic = .returned
  outgoing : s.system.outgoing = []
  signalling : s.system.database.signalling = 0
  shutDown : s.system.database.shutDown = true

section Steps
variable {s s' : Servers} {event : StopEvent}

/-- A step after the end of `LogicThread`: what the database thread owes does not change,
and it gets ahead only by a job that it handles. -/
theorem ended_step (ended : Ended s) (step : StopStep s event s') :
    Ended s' ∧ owed s'.system.database = owed s.system.database ∧
      (ahead s.system.database = ahead s'.system.database ∨
        ∃ job, Copies job ∧ ahead s.system.database = job :: ahead s'.system.database) := by
  obtain ⟨logic, outgoing, signalling, shutDown⟩ := ended
  cases step with
  | called _ sets =>
    cases sets
    exact ⟨⟨logic, outgoing, signalling, rfl⟩, rfl, .inl rfl⟩
  | tested there => cases logic.symm.trans there
  | logicThread | databaseThread => exact ⟨⟨logic, outgoing, signalling, shutDown⟩, rfl, .inl rfl⟩
  | system allowed step =>
    cases step with
    | network => exact ⟨⟨logic, outgoing, signalling, shutDown⟩, rfl, .inl rfl⟩
    | logic | update => cases logic.symm.trans allowed
    | enqueue out => cases outgoing.symm.trans out
    | thread quiet step =>
      obtain ⟨same, jobs, set, silent⟩ := owed_thread shutDown signalling quiet step
      exact ⟨⟨logic, outgoing, silent, set⟩, same, .inl jobs.symm⟩
    | @answered job row block effects _ there ran step =>
      obtain ⟨same, jobs, set, silent⟩ := owed_handled there step
      exact ⟨⟨logic, outgoing, silent.trans signalling, set.trans shutDown⟩, same,
        .inr ⟨job, access_copies ran, jobs⟩⟩

/-- `Stop` waits for the database thread after the other one has ended. -/
structure Ordered (s : Servers) : Prop where
  flag : s.stop ≠ .uncalled → s.system.database.shutDown = true
  ended : s.logic = .returned → Ended s
  waits : s.stop = .databaseThread ∨ s.stop = .returned → s.logic = .returned
  last : s.stop = .returned → s.system.database.thread = .returned

theorem start_ordered (auctions : AuctionRef → AuctionData) (packetType : UInt16) :
    Ordered (.start auctions packetType) :=
  ⟨fun called => absurd rfl called, fun returned => (nomatch returned),
    fun waits => by rcases waits with waits | returned <;> contradiction, fun returned => (nomatch returned)⟩

/-- The flag stays as `Stop` has left it. -/
theorem flag_system {system system' : System} {event : SystemEvent} {logic : LogicPlace}
    (allowed : Allowed logic event) (step : SystemStep system event system') :
    system'.database.shutDown = system.database.shutDown := by
  cases step with
  | network | logic | update => rfl
  | enqueue _ _ step | answered _ _ step =>
    cases step
    rfl
  | thread _ step =>
    cases step with
    | shutDown => cases allowed
    | _ => rfl

/-- A thread that has ended takes no steps. -/
theorem returned_system {system system' : System} {event : SystemEvent} (step : SystemStep system event system')
    (returned : system.database.thread = .returned) : system'.database.thread = .returned := by
  cases step with
  | network | logic | update => exact returned
  | enqueue _ _ step =>
    cases step
    exact returned
  | answered there => cases returned.symm.trans there
  | thread _ step =>
    cases step with
    | enqueue | setEvent | shutDown => exact returned
    | loop there | found there | empty there | handled there | wake there => cases returned.symm.trans there

theorem ordered_step (ordered : Ordered s) (step : StopStep s event s') : Ordered s' := by
  have ended : s.logic = .returned → Ended s' := fun returned =>
    (ended_step (ordered.ended returned) step).1
  obtain ⟨flag, _, waits, last⟩ := ordered
  cases step with
  | called uncalled sets =>
    cases sets
    exact ⟨fun _ => rfl, ended, fun later => (by rcases later with early | late <;> contradiction),
      fun late => (nomatch late)⟩
  | tested there signalled =>
    refine ⟨flag, fun returned => ?_, fun later => ?_, last⟩
    · dsimp only at returned
      split at returned
      · next set => exact ⟨by simp [set], signalled.1, signalled.2, set⟩
      · cases returned
    · cases there.symm.trans (waits later)
  | logicThread early returned =>
    exact ⟨fun _ => flag (by rw [early]; simp), ended, fun _ => returned, fun late => (nomatch late)⟩
  | databaseThread early returned =>
    exact ⟨fun _ => flag (by rw [early]; simp), ended, fun _ => waits (.inl early), fun _ => returned⟩
  | @system event system allowed step =>
    refine ⟨fun called => (flag_system allowed step).trans (flag called), ?_, fun later => ?_,
      fun late => returned_system step (last late)⟩
    · intro returned
      apply ended
      cases event with
      | update => cases returned
      | network | logic | database | answered => exact returned
    · have returned := waits later
      cases event with
      | update => cases returned.symm.trans allowed
      | network | logic | database | answered => exact returned

end Steps

/-! ## The end -/

section Ends
variable {s s' : Servers} {labels : List StopEvent}

/-- In a run after the end of `LogicThread`, the database thread handles the first of the
jobs it had ahead. -/
theorem ended_run (run : Run StopStep s labels s') (ended : Ended s) :
    owed s'.system.database = owed s.system.database ∧
      ∃ handled, ahead s.system.database = handled ++ ahead s'.system.database ∧
        ∀ job ∈ handled, Copies job := by
  induction run with
  | nil s => exact ⟨rfl, [], rfl, fun job member => nomatch member⟩
  | cons step _ ih =>
    obtain ⟨ended, same, jobs⟩ := ended_step ended step
    obtain ⟨later, handled, rest, copies⟩ := ih ended
    refine ⟨later.trans same, ?_⟩
    rcases jobs with none | ⟨job, copy, one⟩
    · exact ⟨handled, none.trans rest, copies⟩
    · refine ⟨job :: handled, by rw [one, rest, List.cons_append], fun other member => ?_⟩
      rcases List.mem_cons.mp member with rfl | member
      · exact copy
      · exact copies other member

/-- `Stop` returns in some run from here. -/
def CanReturn (s : Servers) : Prop := ∃ later s', Run StopStep s later s' ∧ s'.stop = .returned

theorem returns_after {event : StopEvent} (step : StopStep s event s') (later : CanReturn s') :
    CanReturn s := by
  obtain ⟨labels, last, more, returned⟩ := later
  exact ⟨_, last, .cons step more, returned⟩

/-- A step of the database thread. -/
theorem thread_step {event : ChannelEvent DBCheckJob} {database : JobChannel DBCheckJob}
    (step : ChannelStep s.system.database event database) (quiet : Quiet event)
    (unset : Allowed s.logic (.database event)) :
    StopStep s (.system (.database event)) { s with system := { s.system with database := database } } :=
  .system unset (.thread quiet step)

theorem returned_returns (waits : s.stop = .databaseThread) (returned : s.system.database.thread = .returned) :
    CanReturn s := ⟨_, _, .single (.databaseThread waits returned), rfl⟩

theorem drained_returns (waits : s.stop = .databaseThread) (there : s.system.database.thread = .draining)
    (none : s.system.database.queue = []) : CanReturn s :=
  returns_after (thread_step (.empty there none) trivial trivial) (returned_returns waits rfl)

theorem waiting_returns (waits : s.stop = .databaseThread) (there : s.system.database.thread = .waiting)
    (none : s.system.database.queue = []) (signalled : s.system.database.event = true) : CanReturn s :=
  returns_after (thread_step (.wake there signalled) trivial trivial) (drained_returns waits rfl none)

theorem handling_returns {job : DBCheckJob} (waits : s.stop = .databaseThread)
    (there : s.system.database.thread = .handling job) (copies : Copies job)
    (none : s.system.database.queue = []) (signalled : s.system.database.event = true) : CanReturn s := by
  obtain ⟨effects, ran⟩ := copies_iff_ends.mp copies .none joinItem
  have answers : StopStep s (.system (.answered job .none joinItem effects)) _ :=
    .system trivial (.answered there ran (.handled there))
  exact returns_after answers (waiting_returns waits rfl none signalled)

theorem draining_returns {job : DBCheckJob} (waits : s.stop = .databaseThread)
    (there : s.system.database.thread = .draining) (copies : Copies job)
    (one : s.system.database.queue = [job]) (signalled : s.system.database.event = true) : CanReturn s :=
  returns_after (thread_step (.found there one) trivial trivial)
    (handling_returns waits rfl copies rfl signalled)

/-- What one signal pays for. -/
theorem paid_returns (ended : Ended s) (waits : s.stop = .databaseThread)
    (paid : waitsAhead s.system.database ≤ signals s.system.database)
    (copies : ∀ job ∈ ahead s.system.database, Copies job) : CanReturn s := by
  have one : waitsAhead s.system.database = 0 ∨
      waitsAhead s.system.database = 1 ∧ s.system.database.event = true := by
    unfold signals at paid
    cases signalled : s.system.database.event with
    | true =>
      rw [if_pos signalled] at paid
      simpa using Nat.le_one_iff_eq_zero_or_eq_one.mp paid
    | false =>
      rw [if_neg (by rw [signalled]; simp)] at paid
      exact .inl (Nat.le_zero.mp paid)
  unfold waitsAhead at one
  unfold ahead at one copies
  cases there : s.system.database.thread with
  | outer =>
    have loops := thread_step (.loop there) trivial trivial
    rw [ended.shutDown] at loops
    exact returns_after loops (returned_returns waits rfl)
  | returned => exact returned_returns waits there
  | waiting =>
    simp only [there, ↓reduceIte] at one
    rcases one with none | ⟨one, signalled⟩
    · cases none
    · exact waiting_returns waits there (List.eq_nil_of_length_eq_zero (Nat.succ.inj one)) signalled
  | handling job =>
    simp only [there, reduceCtorEq, ↓reduceIte, List.length_cons] at one copies
    rcases one with none | ⟨one, signalled⟩
    · cases none
    · exact handling_returns waits there (copies job List.mem_cons_self)
        (List.eq_nil_of_length_eq_zero (Nat.succ.inj one)) signalled
  | draining =>
    simp only [there, reduceCtorEq, ↓reduceIte, Nat.add_zero] at one copies
    rcases one with none | ⟨one, signalled⟩
    · exact drained_returns waits there (List.eq_nil_of_length_eq_zero none)
    · obtain ⟨job, same⟩ := List.length_eq_one_iff.mp one
      exact draining_returns waits there (copies job (by rw [same]; exact List.mem_singleton_self _))
        same signalled

/-- In every run of the threads, once `Stop` waits for the database thread: it can return
exactly if the thread has no more waits ahead than its event has signals, and no fault. -/
theorem stop_returns_iff {auctions : AuctionRef → AuctionData} {packetType : UInt16}
    (run : Run StopStep (.start auctions packetType) labels s) (waits : s.stop = .databaseThread) :
    CanReturn s ↔ waitsAhead s.system.database ≤ signals s.system.database ∧
      ∀ job ∈ ahead s.system.database, Copies job := by
  have ordered := run.invariant (fun _ _ _ before step => ordered_step before step)
    (start_ordered auctions packetType)
  have ended := ordered.ended (ordered.waits (.inl waits))
  constructor
  · rintro ⟨later, last, more, stopped⟩
    have returned := (more.invariant (fun _ _ _ before step => ordered_step before step) ordered).last stopped
    obtain ⟨same, handled, all, copies⟩ := ended_run more ended
    have none : ahead last.system.database = [] := by simp [ahead, returned]
    have paid : owed last.system.database ≤ 0 := by
      simp [owed, waitsAhead, none, returned]
    rw [same, owed] at paid
    rw [all, none, List.append_nil]
    exact ⟨by omega, copies⟩
  · rintro ⟨paid, copies⟩
    exact paid_returns ended waits paid copies

end Ends

/-! ## A job ahead -/

/-- A second after the start. -/
def secondLater : UpdateEnv :=
  ⟨1000, fun _ => leastDraw, fun _ => saleCheck, none⟩

/-- A player joins and asks for a sale, `LogicThread` hands the request over and signals
it; `Stop` is called while the database thread has not yet taken it. -/
def stoppedEvents : List StopEvent :=
  [.system (.network joinItem), .system (.network saleItem), .tested,
    .system (.logic joinItem (.zero 0)), .system (.logic saleItem (.zero 0)),
    .system (.database .loop), .system (.database (.enqueue saleCheck)), .system (.database .setEvent),
    .system (.update secondLater), .called, .tested, .joined]

/-- `Stop` comes back: the one job ahead ends in a wait, which its signal pays for. -/
theorem stop_after_signalled_job : ∃ s,
    Run StopStep (.start (fun _ => .zero) 0) stoppedEvents s ∧ s.stop = .databaseThread ∧
    ahead s.system.database = [saleCheck] ∧ signals s.system.database = 1 ∧ CanReturn s := by
  have run : Run StopStep (.start (fun _ => .zero) 0) stoppedEvents _ :=
    .cons (.system trivial (.network (.inl rfl))) <|
    .cons (.system trivial (.network (.inr (.inr rfl)))) <| .cons (.tested rfl ⟨rfl, rfl⟩) <|
    .cons (.system rfl (.logic rfl rfl rfl rfl)) <| .cons (.system rfl (.logic rfl rfl rfl rfl)) <|
    .cons (.system trivial (.thread trivial (.loop rfl))) <|
    .cons (.system trivial (.enqueue rfl rfl (.enqueue _ _))) <|
    .cons (.system trivial (.thread trivial (.setEvent rfl))) <|
    .cons (.system rfl (.update rfl rfl rfl rfl)) <| .cons (.called rfl (.shutDown _)) <|
    .cons (.tested rfl ⟨rfl, rfl⟩) <| .single (.logicThread rfl rfl)
  refine ⟨_, run, rfl, rfl, rfl, (stop_returns_iff run rfl).mpr ⟨Nat.le_refl 1, fun job member => ?_⟩⟩
  obtain rfl := List.mem_singleton.mp (show job ∈ [saleCheck] from member)
  exact ⟨⟨_, rfl⟩, ⟨_, rfl⟩⟩

end NewNameAuction.AuctionStop
