import NewNameAuction.Runs
import NewNameAuction.SessionCustody

/-! Held sessions. A session that `findSession` has found stays in its slot until it
is let go, unless a release test that read `IOcount` before passes after. -/
namespace NewNameAuction.SessionHold
open SessionSlot SessionCustody

variable {ι : Type} [Fintype ι]

/-! ## Runs -/

/-- The session a thread holds: its `findSession(id)` has returned true, and it has
not done its decrement yet. -/
def holding : Place → Option (Int64 × Nat)
  | .found id session | .enqueue id session | .lastPacket id session | .post id session
  | .posted id session | .leave id session => some (id, session)
  | _ => none

/-- A `releaseSession` that has begun to take the session down. -/
def TakingDown : Place → Prop
  | .clean | .close | .drain | .push => True
  | _ => False

/-- A held session is in its slot, and no release has begun; and no packet was sent
on the socket of a later session than it was given for. -/
structure Safe (m : Threaded ι) : Prop where
  held : ∀ i id session, holding (m.place i) = some (id, session) →
    m.shared.sessionID = id ∧ m.shared.sessions = session ∧ m.shared.isValid = true ∧
      ∀ j, ¬TakingDown (m.place j)
  sent : ∀ packet sock, (packet, sock) ∈ m.shared.sent → sock ≤ packet.session

/-- All threads before their first step. -/
def start (ι : Type) (sessionID : Int64) : Threaded ι := ⟨.start sessionID, fun _ => .idle⟩

section Runs
variable {m : Threaded ι}

private theorem sound_start (sessionID : Int64) : Sound (start ι sessionID) := by
  have none (weight : Place → Nat) (idle : weight .idle = 0) :
      (start ι sessionID).total weight = 0 := Threads.total_zero _ _ fun _ => idle
  constructor
  · constructor
    · rw [none refs rfl]
      rfl
    · rw [none checking rfl, none turning rfl, none opening rfl]
      exact Nat.le_refl 1
    · exact .inl rfl
    · intro _
      rw [none entered rfl]
      exact .inr ⟨rfl, rfl⟩
    · intro _ _
      exact none testing rfl
    · intro _
      exact Nat.le_add_left 1 _
    · intro _
      unfold users
      rw [none uses rfl]
      rfl
  · exact fun i => trivial
  · exact fun _ => rfl
  · exact fun packet member => by cases member
  · exact Nat.le_refl 0
  · exact fun entry member => by cases member

private theorem safe_of_sound (sound : Sound m) : Safe m := by
  constructor
  · intro i id session holds
    have usesHere := m.le_total uses i
    have placed := sound.placed i
    have unused := sound.unused
    have valid := sound.valid
    unfold users at unused
    have used : 1 ≤ m.total uses ∧ m.shared.sessionID = id ∧ m.shared.sessions = session := by
      generalize m.place i = p at *
      cases p with
      | found _ _ | enqueue _ _ | lastPacket _ _ | post _ _ | posted _ _ | leave _ _ =>
        cases holds
        exact ⟨usesHere, placed⟩
      | _ => cases holds
    refine ⟨used.2.1, used.2.2, ?_, fun j taking => ?_⟩
    · cases invalid : m.shared.isValid with
      | true => rfl
      | false =>
        have none := unused (valid invalid)
        omega
    · have turningThere := m.le_total turning j
      generalize m.place j = q at *
      have turns : 1 ≤ m.total turning := by
        cases q with
        | clean | close | drain | push => exact turningThere
        | _ => cases taking
      have none := unused (by omega)
      omega
  · exact fun packet sock member => sound.sent (packet, sock) member

/-- However the threads interleave, held sessions stay and packets reach no later
session, as long as every release test that passes finds `IOcount` still 0. -/
theorem held_while_tested [DecidableEq ι] (sessionID : Int64) (labels : List ι) (m : Threaded ι)
    (run : Run (Meeting (Threads.Step SlotStep) Tested) (start ι sessionID) labels m) : Safe m :=
  safe_of_sound (run.invariant (fun _ _ _ sound taken => sound_step sound taken.2 taken.1)
    (sound_start sessionID))

end Runs

/-! ## Three threads -/

section Example

/-- A step from a known place. -/
private theorem step_from {m : Threaded (Fin 3)} {i : Fin 3} {p p' : Place} {s' : Slot}
    (taken : SlotStep m.shared p s' p') (here : m.place i = p) :
    Threads.Step SlotStep m i (m.move i s' p') := ⟨s', p', here ▸ taken, rfl⟩

private theorem tested_step_from {m : Threaded (Fin 3)} {i : Fin 3} {p p' : Place} {s' : Slot}
    (taken : SlotStep m.shared p s' p') (here : m.place i = p) (tested : Tested m i) :
    Meeting (Threads.Step SlotStep) Tested m i (m.move i s' p') := ⟨step_from taken here, tested⟩

/-- Thread 0 accepts a session; its receive completes, and thread 1 takes the count down
to 0 and releases it, with a test that passes. Then thread 0 accepts the next session
and thread 2 finds it. -/
theorem accepted_session_held : ∃ labels m,
    Run (Meeting (Threads.Step SlotStep) Tested) (start (Fin 3) 0) labels m ∧
    holding (m.place 2) = some (65537, 2) ∧ Safe m := by
  have run : ∃ labels m, Run (Meeting (Threads.Step SlotStep) Tested) (start (Fin 3) 0) labels m ∧
      holding (m.place 2) = some (65537, 2) :=
    ⟨_, _,
      .cons (tested_step_from (i := 0) (.accept (.pop 1 rfl)) rfl trivial) <|
      .cons (tested_step_from (i := 0) (.accept (.sessionID _ _)) rfl trivial) <|
      .cons (tested_step_from (i := 0) (.accept (.enter _ _)) rfl trivial) <|
      .cons (tested_step_from (i := 0) (.accept (.valid _ _)) rfl trivial) <|
      .cons (tested_step_from (i := 0) (.accept (.flag _ _)) rfl trivial) <|
      .cons (tested_step_from (i := 0) (.accept (.sock _ _)) rfl trivial) <|
      .cons (tested_step_from (i := 0) (.accept (.drained rfl)) rfl trivial) <|
      .cons (tested_step_from (i := 0) (.accept (.recv _)) rfl trivial) <|
      .cons (tested_step_from (i := 1) (.worker (.take rfl)) rfl trivial) <|
      .cons (tested_step_from (i := 1) (.worker (.finish _)) rfl trivial) <|
      .cons (tested_step_from (i := 1) (.worker (.release _)) rfl trivial) <|
      .cons (tested_step_from (i := 1) (.release (.valid rfl)) rfl trivial) <|
      .cons (tested_step_from (i := 1) (.release (.count _ _)) rfl trivial) <|
      .cons (tested_step_from (i := 1) (.release (.exchanged rfl)) rfl fun _ _ => rfl) <|
      .cons (tested_step_from (i := 1) (.release (.read _ _)) rfl trivial) <|
      .cons (tested_step_from (i := 1) (.release (.same rfl)) rfl trivial) <|
      .cons (tested_step_from (i := 1) (.release (.clean _)) rfl trivial) <|
      .cons (tested_step_from (i := 1) (.release (.close _)) rfl trivial) <|
      .cons (tested_step_from (i := 1) (.release (.drained rfl)) rfl trivial) <|
      .cons (tested_step_from (i := 1) (.release (.push _)) rfl trivial) <|
      .cons (tested_step_from (i := 0) (.accept (.pop 65537 rfl)) rfl trivial) <|
      .cons (tested_step_from (i := 0) (.accept (.sessionID _ _)) rfl trivial) <|
      .cons (tested_step_from (i := 0) (.accept (.enter _ _)) rfl trivial) <|
      .cons (tested_step_from (i := 0) (.accept (.valid _ _)) rfl trivial) <|
      .cons (tested_step_from (i := 0) (.accept (.flag _ _)) rfl trivial) <|
      .cons (tested_step_from (i := 2) (.find (.call _ 65537)) rfl trivial) <|
      .cons (tested_step_from (i := 2) (.find (.valid rfl)) rfl trivial) <|
      .cons (tested_step_from (i := 2) (.find (.enter _ _)) rfl trivial) <|
      .cons (tested_step_from (i := 2) (.find (.off (by decide))) rfl trivial) <|
      .single (tested_step_from (i := 2) (.find (.same rfl)) rfl trivial), rfl⟩
  obtain ⟨labels, m, run, holds⟩ := run
  exact ⟨labels, m, run, holds, held_while_tested 0 labels m run⟩

/-- Thread 0 accepts a session; its receive completes, thread 1 takes the count down
to 0 and reads it; thread 2 finds the session; the exchange of thread 1 passes, and
it takes the session down. Then thread 0 accepts the next session, and the packet of
thread 2 is sent on its socket. -/
theorem found_session_released : ∃ labels m labels' m',
    Run (Threads.Step SlotStep) (start (Fin 3) 0) labels m ∧
    holding (m.place 2) = some (1, 1) ∧ m.shared.isValid = false ∧ ¬Safe m ∧
    Run (Threads.Step SlotStep) m labels' m' ∧
    m'.shared.sent = [(⟨1, 1⟩, 2)] ∧ ¬Safe m' := by
  have runs : ∃ labels m labels' m',
      Run (Threads.Step SlotStep) (start (Fin 3) 0) labels m ∧
      holding (m.place 2) = some (1, 1) ∧ m.shared.isValid = false ∧
      Run (Threads.Step SlotStep) m labels' m' ∧ m'.shared.sent = [(⟨1, 1⟩, 2)] :=
    ⟨_, _, _, _,
      .cons (step_from (i := 0) (.accept (.pop 1 rfl)) rfl) <|
      .cons (step_from (i := 0) (.accept (.sessionID _ _)) rfl) <|
      .cons (step_from (i := 0) (.accept (.enter _ _)) rfl) <|
      .cons (step_from (i := 0) (.accept (.valid _ _)) rfl) <|
      .cons (step_from (i := 0) (.accept (.flag _ _)) rfl) <|
      .cons (step_from (i := 0) (.accept (.sock _ _)) rfl) <|
      .cons (step_from (i := 0) (.accept (.drained rfl)) rfl) <|
      .cons (step_from (i := 0) (.accept (.recv _)) rfl) <|
      .cons (step_from (i := 1) (.worker (.take rfl)) rfl) <|
      .cons (step_from (i := 1) (.worker (.finish _)) rfl) <|
      .cons (step_from (i := 1) (.worker (.release _)) rfl) <|
      .cons (step_from (i := 1) (.release (.valid rfl)) rfl) <|
      .cons (step_from (i := 1) (.release (.count _ _)) rfl) <|
      .cons (step_from (i := 2) (.find (.call _ 1)) rfl) <|
      .cons (step_from (i := 2) (.find (.valid rfl)) rfl) <|
      .cons (step_from (i := 2) (.find (.enter _ _)) rfl) <|
      .cons (step_from (i := 2) (.find (.off (by decide))) rfl) <|
      .cons (step_from (i := 2) (.find (.same rfl)) rfl) <|
      .cons (step_from (i := 1) (.release (.exchanged rfl)) rfl) <|
      .cons (step_from (i := 1) (.release (.read _ _)) rfl) <|
      .cons (step_from (i := 1) (.release (.same rfl)) rfl) <|
      .single (step_from (i := 1) (.release (.clean _)) rfl), rfl, rfl,
      .cons (step_from (i := 1) (.release (.close _)) rfl) <|
      .cons (step_from (i := 1) (.release (.drained rfl)) rfl) <|
      .cons (step_from (i := 1) (.release (.push _)) rfl) <|
      .cons (step_from (i := 0) (.accept (.pop 65537 rfl)) rfl) <|
      .cons (step_from (i := 0) (.accept (.sessionID _ _)) rfl) <|
      .cons (step_from (i := 0) (.accept (.enter _ _)) rfl) <|
      .cons (step_from (i := 0) (.accept (.valid _ _)) rfl) <|
      .cons (step_from (i := 0) (.accept (.flag _ _)) rfl) <|
      .cons (step_from (i := 0) (.accept (.sock _ _)) rfl) <|
      .cons (step_from (i := 0) (.accept (.drained rfl)) rfl) <|
      .cons (step_from (i := 0) (.accept (.recv _)) rfl) <|
      .cons (step_from (i := 2) (.send (.connected _ _ (by decide))) rfl) <|
      .cons (step_from (i := 2) (.send (.enqueue _ _ _)) rfl) <|
      .cons (step_from (i := 2) (.send (.notLast _ _ _)) rfl) <|
      .cons (step_from (i := 2) (.send (.post _ _ _)) rfl) <|
      .cons (step_from (i := 2) (.send (.posted _ _ _)) rfl) <|
      .cons (step_from (i := 1) (.worker (.take rfl)) rfl) <|
      .cons (step_from (i := 1) (.worker (.dequeue _ rfl)) rfl) <|
      .cons (step_from (i := 1) (.worker (.post _ _)) rfl) <|
      .single (step_from (i := 1) (.worker (.posted _ _)) rfl), rfl⟩
  obtain ⟨labels, m, labels', m', run, holds, invalid, run', sent⟩ := runs
  refine ⟨labels, m, labels', m', run, holds, invalid, fun safe => ?_, run', sent, fun safe => ?_⟩
  · obtain ⟨_, _, valid, _⟩ := safe.held 2 1 1 holds
    cases invalid.symm.trans valid
  · have earlier := safe.sent ⟨1, 1⟩ 2 (by rw [sent]; exact List.mem_singleton_self _)
    exact absurd earlier (by decide)

end Example

end NewNameAuction.SessionHold
