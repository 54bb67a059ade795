import NewNameAuction.SessionSlot

/-! The custody of a slot. What the threads hold is counted; one thread at most takes
a session down or sets the next one up, and nobody uses the slot meanwhile, as long
as every release test that passes finds `IOcount` still 0. -/
namespace NewNameAuction.SessionCustody
open SessionSlot

/-! ## What the threads hold -/

/-- The counts in `IOcount` that a thread answers for. -/
def refs : Place → Nat
  | .findFlag _ | .findID _ | .findFailed => 1
  | .found _ _ | .enqueue _ _ | .lastPacket _ _ | .post _ _ | .leave _ _ => 1
  | .posted _ _ => 2
  | .reopen _ | .relet _ => 1
  | .acceptValid _ | .acceptFlag _ | .acceptSock _ | .acceptDrain | .acceptRecv => 1
  | .working _ => 1
  | .posting _ => 2
  | .idle | .findValid _ | .findEnter _ => 0
  | .releaseValid _ | .releaseCount _ | .releaseFlag _ _ | .releaseID _ | .releaseCheck _ _ => 0
  | .reenter _ | .clean | .close | .drain | .push => 0
  | .acceptID _ | .acceptEnter _ | .finished => 0

/-- A thread that uses the session: past `releaseFlag` in `findSession` or in
`AcceptThread`, or with a completion. -/
def uses : Place → Nat
  | .findID _ | .found _ _ | .enqueue _ _ | .lastPacket _ _ | .post _ _ | .posted _ _ | .leave _ _ => 1
  | .acceptSock _ | .acceptDrain | .acceptRecv => 1
  | .working _ | .posting _ => 1
  | .idle | .findValid _ | .findEnter _ | .findFlag _ | .findFailed => 0
  | .releaseValid _ | .releaseCount _ | .releaseFlag _ _ | .releaseID _ | .releaseCheck _ _ => 0
  | .reenter _ | .reopen _ | .relet _ | .clean | .close | .drain | .push => 0
  | .acceptID _ | .acceptEnter _ | .acceptValid _ | .acceptFlag _ | .finished => 0

/-- A thread whose compare-exchange succeeded and that still compares, or that gives
`releaseFlag` back. -/
def checking : Place → Nat
  | .releaseID _ | .releaseCheck _ _ | .reenter _ | .reopen _ => 1
  | _ => 0

/-- A thread that takes the session down, or sets the next one up. -/
def turning : Place → Nat
  | .clean | .close | .drain | .push => 1
  | .acceptID _ | .acceptEnter _ | .acceptValid _ => 1
  | _ => 0

/-- `AcceptThread` before it writes `releaseFlag`. -/
def opening : Place → Nat
  | .acceptFlag _ => 1
  | _ => 0

/-- A thread that has seen `isValid` set. -/
def entered : Place → Nat
  | .idle | .findValid _ | .releaseValid _ => 0
  | .acceptID _ | .acceptEnter _ | .acceptValid _ => 0
  | _ => 1

/-- A thread about to compare `releaseFlag` with `DELFLAG_OFF`. -/
def testing : Place → Nat
  | .releaseFlag _ tempCount => if tempCount = 0 then 1 else 0
  | _ => 0

theorem uses_le_refs (p : Place) : uses p ≤ refs p := by
  cases p <;> simp [uses, refs]

theorem opening_le_refs (p : Place) : opening p ≤ refs p := by
  cases p <;> simp [opening, refs]

theorem testing_le_entered (p : Place) : testing p ≤ entered p := by
  cases p <;> simp [testing, entered]
  split <;> simp

/-! ## What one step can do -/

/-- A step that leaves the custody of the slot as it is. -/
structure Quiet (s : Slot) (p : Place) (s' : Slot) (p' : Place) : Prop where
  sessionID : s'.sessionID = s.sessionID
  isValid : s'.isValid = s.isValid
  releaseFlag : s'.releaseFlag = s.releaseFlag
  inStack : s'.inStack = s.inStack
  sessions : s'.sessions = s.sessions
  checking : checking p' = checking p
  turning : turning p' = turning p
  opening : opening p' = opening p
  uses : uses p = 0 → s.pending = 0 → uses p' = 0 ∧ s'.pending = 0
  entered : s.isValid = false → s.pending = 0 → entered p = 0 → entered p' = 0 ∧ s'.pending = 0
  testing : testing p' = 0

/-- The steps that change it, and the read of `IOcount`. -/
inductive Turn : Slot → Place → Slot → Place → Prop
  | off {s : Slot} {id : Int64} : s.releaseFlag ≠ delflagOn → Turn s (.findFlag id) s (.findID id)
  | count (s : Slot) (id : Int64) : Turn s (.releaseCount id) s (.releaseFlag id s.ioCount)
  | exchanged {s : Slot} {id : Int64} {tempCount : Int} : s.releaseFlag = tempCount →
      Turn s (.releaseFlag id tempCount) { s with releaseFlag := delflagOn } (.releaseID id)
  | same {s : Slot} {id tempID : Int64} : id = s.sessionID →
      Turn s (.releaseCheck id tempID) s .clean
  | reopen (s : Slot) (tempID : Int64) :
      Turn s (.reopen tempID) { s with releaseFlag := delflagOff } (.relet tempID)
  | clean (s : Slot) : Turn s .clean { s with isValid := false } .close
  | push (s : Slot) : Turn s .push { s with inStack := true } .idle
  | pop {s : Slot} (newSessionID : Int64) : s.inStack = true →
      Turn s .idle { s with inStack := false } (.acceptID newSessionID)
  | sessionID (s : Slot) (newSessionID : Int64) :
      Turn s (.acceptID newSessionID)
        { s with sessionID := newSessionID, sessions := s.sessions + 1 }
        (.acceptEnter (s.sessions + 1))
  | valid (s : Slot) (session : Nat) :
      Turn s (.acceptValid session) { s with isValid := true } (.acceptFlag session)
  | flag (s : Slot) (session : Nat) :
      Turn s (.acceptFlag session) { s with releaseFlag := delflagOff } (.acceptSock session)

section Steps
variable {s s' : Slot} {p p' : Place}

private theorem find_turn (taken : FindStep s p s' p') : Quiet s p s' p' ∨ Turn s p s' p' := by
  cases taken with
  | off open' => exact .inr (.off open')
  | valid there =>
    left
    constructor <;> simp [checking, turning, opening, uses, entered, testing, there]
  | _ =>
    left
    constructor <;> simp [checking, turning, opening, uses, entered, testing]

private theorem send_quiet (taken : SendStep s p s' p') : Quiet s p s' p' := by
  cases taken <;> constructor <;> simp [checking, turning, opening, uses, entered, testing]

private theorem release_turn (taken : ReleaseStep s p s' p') : Quiet s p s' p' ∨ Turn s p s' p' := by
  cases taken with
  | count id => exact .inr (.count s id)
  | exchanged equal => exact .inr (.exchanged equal)
  | same equal => exact .inr (.same equal)
  | reopen tempID => exact .inr (.reopen s tempID)
  | clean => exact .inr (.clean s)
  | push => exact .inr (.push s)
  | valid there =>
    left
    constructor <;> simp [checking, turning, opening, uses, entered, testing, there]
  | relet tempID =>
    left
    split <;> constructor <;> simp [checking, turning, opening, uses, entered, testing]
  | _ =>
    left
    constructor <;> simp [checking, turning, opening, uses, entered, testing]

private theorem accept_turn (taken : AcceptStep s p s' p') : Quiet s p s' p' ∨ Turn s p s' p' := by
  cases taken with
  | pop newSessionID free => exact .inr (.pop newSessionID free)
  | sessionID newSessionID => exact .inr (.sessionID s newSessionID)
  | valid session => exact .inr (.valid s session)
  | flag session => exact .inr (.flag s session)
  | _ =>
    left
    constructor <;> simp [checking, turning, opening, uses, entered, testing]

private theorem worker_quiet (taken : WorkerStep s p s' p') : Quiet s p s' p' := by
  cases taken with
  | take there => constructor <;> simp [checking, turning, opening, uses, entered, testing, there]
  | finish =>
    split <;> constructor <;> simp [checking, turning, opening, uses, entered, testing]
  | _ => constructor <;> simp [checking, turning, opening, uses, entered, testing]

theorem quiet_or_turn (taken : SlotStep s p s' p') : Quiet s p s' p' ∨ Turn s p s' p' := by
  cases taken with
  | find taken => exact find_turn taken
  | send taken => exact .inl (send_quiet taken)
  | release taken => exact release_turn taken
  | accept taken => exact accept_turn taken
  | worker taken => exact .inl (worker_quiet taken)

/-- `IOcount` counts what the threads and the operations in flight answer for. -/
theorem count_kept (taken : SlotStep s p s' p') :
    s'.ioCount + s.pending + refs p = s.ioCount + s'.pending + refs p' := by
  cases taken with
  | find taken => cases taken <;> simp only [refs] <;> omega
  | send taken => cases taken <;> simp only [refs] <;> omega
  | release taken =>
    cases taken with
    | relet tempID => split <;> simp only [refs] <;> omega
    | _ => simp only [refs] <;> omega
  | accept taken => cases taken <;> simp only [refs] <;> omega
  | worker taken =>
    cases taken with
    | finish => split <;> simp only [refs] <;> omega
    | _ => simp only [refs] <;> omega

/-- Packets enter `sendQueue` from a thread that found their session, and leave it at
the front. -/
theorem queue_cases (taken : SlotStep s p s' p') :
    (∃ id session, p = .enqueue id session ∧ s'.sendQueue = s.sendQueue ++ [⟨id, session⟩]) ∨
      s'.sendQueue = s.sendQueue ∨ ∃ packet, s.sendQueue = packet :: s'.sendQueue := by
  cases taken with
  | find taken => cases taken <;> exact .inr (.inl rfl)
  | send taken =>
    cases taken with
    | enqueue id session => exact .inl ⟨id, session, rfl, rfl⟩
    | _ => exact .inr (.inl rfl)
  | release taken =>
    cases taken with
    | drain queue => exact .inr (.inr ⟨_, queue⟩)
    | _ => exact .inr (.inl rfl)
  | accept taken =>
    cases taken with
    | drain queue => exact .inr (.inr ⟨_, queue⟩)
    | _ => exact .inr (.inl rfl)
  | worker taken =>
    cases taken with
    | dequeue batch queue => exact .inr (.inr ⟨_, queue⟩)
    | _ => exact .inr (.inl rfl)

/-- The socket is that of the session `AcceptThread` sets up. -/
theorem sock_cases (taken : SlotStep s p s' p') :
    s'.sock = s.sock ∨ ∃ session, p = .acceptSock session ∧ s'.sock = session := by
  cases taken with
  | find taken => cases taken <;> exact .inl rfl
  | send taken => cases taken <;> exact .inl rfl
  | release taken => cases taken <;> exact .inl rfl
  | accept taken =>
    cases taken with
    | sock session => exact .inr ⟨session, rfl, rfl⟩
    | _ => exact .inl rfl
  | worker taken => cases taken <;> exact .inl rfl

/-- A worker sends what it has dequeued on the socket of the slot. -/
theorem sent_cases (taken : SlotStep s p s' p') :
    s'.sent = s.sent ∨ ∃ batch, p = .posting batch ∧
      s'.sent = s.sent ++ batch.map fun packet => (packet, s.sock) := by
  cases taken with
  | find taken => cases taken <;> exact .inl rfl
  | send taken => cases taken <;> exact .inl rfl
  | release taken => cases taken <;> exact .inl rfl
  | accept taken => cases taken <;> exact .inl rfl
  | worker taken =>
    cases taken with
    | posted batch => exact .inr ⟨batch, rfl, rfl⟩
    | _ => exact .inl rfl

end Steps

/-! ## The custody of the slot -/

variable {ι : Type} [Fintype ι]

/-- The slot with its threads. -/
abbrev Threaded (ι : Type) := Threads ι Slot Place

/-- What a place says of the slot, and of how many use it. -/
def Placed (s : Slot) (users : Nat) : Place → Prop
  | .found id session | .enqueue id session | .lastPacket id session | .post id session
  | .posted id session | .leave id session => s.sessionID = id ∧ s.sessions = session
  | .releaseFlag _ tempCount => 0 ≤ tempCount
  | .releaseID id | .releaseCheck id _ => id = s.sessionID → users = 0
  | .push | .acceptID _ => s.sendQueue = []
  | .acceptEnter session | .acceptValid session | .acceptFlag session | .acceptSock session =>
    session ≤ s.sessions
  | .working batch | .posting batch => ∀ packet ∈ batch, packet.session = s.sessions
  | .idle | .findValid _ | .findEnter _ | .findFlag _ | .findID _ | .findFailed => True
  | .releaseValid _ | .releaseCount _ | .reenter _ | .reopen _ | .relet _ => True
  | .clean | .close | .drain | .acceptDrain | .acceptRecv | .finished => True

/-- Threads and operations that use the session. -/
def users (m : Threaded ι) : Nat := m.total uses + m.shared.pending

/-- One thread at most takes the session down or sets up the next one, and only while
nobody uses it. -/
structure Custody (m : Threaded ι) : Prop where
  count : m.shared.ioCount = m.shared.pending + m.total refs
  exclusive : m.total checking + m.total turning + m.total opening + m.shared.inStack.toNat ≤ 1
  flag : m.shared.releaseFlag = delflagOff ∨ m.shared.releaseFlag = delflagOn
  free : m.shared.releaseFlag ≠ delflagOn →
    m.total checking + m.total turning + m.shared.inStack.toNat = 0 ∨
      (m.shared.isValid = false ∧ m.total entered + m.shared.pending = 0)
  window : m.shared.releaseFlag ≠ delflagOn → 1 ≤ m.total opening → m.total testing = 0
  valid : m.shared.isValid = false → 1 ≤ m.total turning + m.shared.inStack.toNat
  unused : 1 ≤ m.total turning + m.shared.inStack.toNat → users m = 0

/-- The custody, what the places say, and whose the packets are. -/
structure Sound (m : Threaded ι) : Prop extends Custody m where
  placed : ∀ i, Placed m.shared (users m) (m.place i)
  drained : m.shared.inStack = true → m.shared.sendQueue = []
  packets : ∀ packet ∈ m.shared.sendQueue, packet.session = m.shared.sessions
  sock : m.shared.sock ≤ m.shared.sessions
  sent : ∀ entry ∈ m.shared.sent, entry.2 ≤ entry.1.session

/-- A release test that passes for the session in the slot finds `IOcount` still 0. -/
def Tested (m : Threaded ι) (i : ι) : Prop :=
  match m.place i with
  | .releaseFlag id tempCount => m.shared.releaseFlag = tempCount → id = m.shared.sessionID →
      m.shared.ioCount = 0
  | _ => True

section Sound
variable {m : Threaded ι} {i : ι} {s' : Slot} {p' : Place}

/-- The session changes under a thread that has the custody. -/
private theorem session_kept {s : Slot} {p : Place} (taken : SlotStep s p s' p') :
    (s'.sessionID = s.sessionID ∧ s'.sessions = s.sessions) ∨
      ∃ newSessionID, p = .acceptID newSessionID ∧ s'.sessions = s.sessions + 1 := by
  rcases quiet_or_turn taken with quiet | turn
  · exact .inl ⟨quiet.sessionID, quiet.sessions⟩
  · cases turn with
    | sessionID newSessionID => exact .inr ⟨newSessionID, rfl, rfl⟩
    | _ => exact .inl ⟨rfl, rfl⟩

private theorem sessions_grow {s : Slot} {p : Place} (taken : SlotStep s p s' p') :
    s.sessions ≤ s'.sessions := by
  rcases session_kept taken with same | ⟨_, _, next⟩
  · exact Nat.le_of_eq same.2.symm
  · omega

/-- A release test that passes for the session in the slot leaves nobody using it. -/
private theorem unused_when_tested (custody : Custody m) (zero : m.shared.ioCount = 0) :
    users m = 0 := by
  have count := custody.count
  have answered := m.total_le uses uses_le_refs
  unfold users
  omega

private theorem drained_step (sound : Sound m) (taken : SlotStep m.shared (m.place i) s' p') :
    s'.inStack = true → s'.sendQueue = [] := by
  intro free'
  have turningHere := m.le_total turning i
  have usesHere := m.le_total uses i
  have placed := sound.placed i
  obtain ⟨empty, turns⟩ : m.shared.sendQueue = [] ∧ 1 ≤ m.total turning + m.shared.inStack.toNat := by
    have ready (free : m.shared.inStack = true) :
        m.shared.sendQueue = [] ∧ 1 ≤ m.total turning + m.shared.inStack.toNat := by
      refine ⟨sound.drained free, ?_⟩
      rw [free]
      exact Nat.le_add_left 1 _
    rcases quiet_or_turn taken with quiet | turn
    · exact ready (quiet.inStack.symm.trans free')
    · generalize m.place i = p at *
      cases turn with
      | push => exact ⟨placed, Nat.le_add_right_of_le turningHere⟩
      | pop newSessionID free => cases free'
      | _ => exact ready free'
  rcases queue_cases taken with ⟨id, session, here, queue⟩ | same | ⟨packet, first⟩
  · have none := sound.unused turns
    rw [here] at usesHere
    simp only [uses] at usesHere
    unfold users at none
    omega
  · exact same.trans empty
  · rw [empty] at first
    cases first

private theorem packets_step (sound : Sound m) (taken : SlotStep m.shared (m.place i) s' p') :
    ∀ packet ∈ s'.sendQueue, packet.session = s'.sessions := by
  have placed := sound.placed i
  intro packet member
  rcases session_kept taken with ⟨_, same⟩ | ⟨newSessionID, here, _⟩
  · rw [same]
    rcases queue_cases taken with ⟨id, session, here, queue⟩ | same | ⟨_, first⟩
    · rw [queue] at member
      rw [here] at placed
      rcases List.mem_append.mp member with old | new
      · exact sound.packets packet old
      · obtain rfl := List.mem_singleton.mp new
        exact placed.2.symm
    · exact sound.packets packet (same ▸ member)
    · exact sound.packets packet (by rw [first]; exact List.mem_cons_of_mem _ member)
  · rw [here] at placed
    rcases queue_cases taken with ⟨_, _, there, _⟩ | same | ⟨_, first⟩
    · cases here.symm.trans there
    · rw [same, placed] at member
      cases member
    · cases placed.symm.trans first

private theorem sock_step (sound : Sound m) (taken : SlotStep m.shared (m.place i) s' p') :
    s'.sock ≤ s'.sessions := by
  have placed := sound.placed i
  refine Nat.le_trans ?_ (sessions_grow taken)
  rcases sock_cases taken with same | ⟨session, here, new⟩
  · rw [same]
    exact sound.sock
  · rw [here] at placed
    rw [new]
    exact placed

private theorem sent_step (sound : Sound m) (taken : SlotStep m.shared (m.place i) s' p') :
    ∀ entry ∈ s'.sent, entry.2 ≤ entry.1.session := by
  have placed := sound.placed i
  intro entry member
  rcases sent_cases taken with same | ⟨batch, here, new⟩
  · exact sound.sent entry (same ▸ member)
  · rw [new] at member
    rw [here] at placed
    rcases List.mem_append.mp member with old | sent
    · exact sound.sent entry old
    · obtain ⟨packet, inBatch, rfl⟩ := List.mem_map.mp sent
      dsimp only
      rw [placed packet inBatch]
      exact sound.sock

end Sound

section Custody
variable [DecidableEq ι] {m : Threaded ι} {i : ι} {s' : Slot} {p' : Place}

/-! ## The custody is kept -/

private theorem custody_quiet (custody : Custody m) (quiet : Quiet m.shared (m.place i) s' p')
    (count : s'.ioCount + m.shared.pending + refs (m.place i) =
      m.shared.ioCount + s'.pending + refs p') : Custody (m.move i s' p') := by
  have refs' := m.total_move i s' p' refs
  have checking' := m.total_move i s' p' checking
  have turning' := m.total_move i s' p' turning
  have opening' := m.total_move i s' p' opening
  have entered' := m.total_move i s' p' entered
  have testing' := m.total_move i s' p' testing
  have uses' := m.total_move i s' p' uses
  rw [quiet.checking] at checking'
  rw [quiet.turning] at turning'
  rw [quiet.opening] at opening'
  rw [quiet.testing] at testing'
  have total := custody.count
  have exclusive := custody.exclusive
  constructor
  · rw [Threads.shared_move]
    omega
  · rw [Threads.shared_move, quiet.inStack]
    omega
  · rw [Threads.shared_move, quiet.releaseFlag]
    exact custody.flag
  · intro off
    rw [Threads.shared_move, quiet.releaseFlag] at off
    rw [Threads.shared_move, quiet.inStack, quiet.isValid]
    rcases custody.free off with none | ⟨invalid, untouched⟩
    · left
      omega
    · right
      have here := m.le_total entered i
      have still := quiet.entered invalid (by omega) (by omega)
      exact ⟨invalid, by omega⟩
  · intro off
    rw [Threads.shared_move, quiet.releaseFlag] at off
    have window := custody.window off
    omega
  · intro invalid
    rw [Threads.shared_move, quiet.isValid] at invalid
    rw [Threads.shared_move, quiet.inStack]
    have turns := custody.valid invalid
    omega
  · intro turns
    rw [Threads.shared_move, quiet.inStack] at turns
    have unused := custody.unused (by omega)
    unfold users at unused ⊢
    have here := m.le_total uses i
    have still := quiet.uses (by omega) (by omega)
    rw [Threads.shared_move]
    omega

omit [DecidableEq ι] in
/-- With the flag off, a thread that has entered finds that nobody has custody. -/
theorem Custody.alone (custody : Custody m) (off : m.shared.releaseFlag ≠ delflagOn)
    (inside : 1 ≤ entered (m.place i)) :
    m.total checking + m.total turning + m.shared.inStack.toNat = 0 := by
  rcases custody.free off with none | ⟨_, untouched⟩
  · exact none
  · have here := m.le_total entered i
    omega

private theorem custody_turn (custody : Custody m) (turn : Turn m.shared (m.place i) s' p')
    (placed : Placed m.shared (users m) (m.place i)) (tested : Tested m i) :
    Custody (m.move i s' p') := by
  have shared : (m.move i s' p').shared = s' := rfl
  have refs' := m.total_move i s' p' refs
  have checking' := m.total_move i s' p' checking
  have turning' := m.total_move i s' p' turning
  have opening' := m.total_move i s' p' opening
  have entered' := m.total_move i s' p' entered
  have testing' := m.total_move i s' p' testing
  have uses' := m.total_move i s' p' uses
  have usesRefs := m.total_le uses uses_le_refs
  have openingRefs := m.total_le opening opening_le_refs
  have testingEntered := m.total_le testing testing_le_entered
  have turningHere := m.le_total turning i
  have enteredHere := m.le_total entered i
  have testingHere := m.le_total testing i
  have alone := @Custody.alone ι _ m i custody
  obtain ⟨count, exclusive, flag, free, window, valid, unused⟩ := custody
  unfold Tested at tested
  unfold users at placed unused
  generalize m.place i = p at *
  cases turn with
  | off open' =>
    -- a thread that has entered finds the flag off: nobody has custody
    have alone := alone open' (Nat.le_refl 1)
    simp only [refs, checking, turning, opening, entered, testing, uses] at *
    constructor <;> grind -linarith [users]
  | count id =>
    -- in the window `AcceptThread` answers for one count, so the count is not 0
    simp only [refs, checking, turning, opening, entered, testing, uses] at *
    have held : 1 ≤ m.total opening → m.shared.ioCount ≠ 0 := by omega
    constructor <;> grind -linarith [users]
  | @exchanged id tempCount equal =>
    simp only [refs, checking, turning, opening, entered, testing, uses, Placed] at *
    have off : m.shared.releaseFlag = delflagOff := by
      rcases flag with off | on
      · exact off
      · rw [← equal, on] at placed
        exact absurd placed (by decide)
    have zero : tempCount = 0 := equal.symm.trans off
    have notOn : m.shared.releaseFlag ≠ delflagOn := by
      rw [off]
      decide
    have alone := alone notOn (Nat.le_refl 1)
    have closed : m.total opening = 0 := by
      rw [if_pos zero] at testingHere
      have window := window notOn
      omega
    constructor <;> grind -linarith [users]
  | same equal =>
    -- what the place says: nobody uses the session
    simp only [refs, checking, turning, opening, entered, testing, uses, Placed] at *
    have nobody := placed equal
    constructor <;> grind -linarith [users]
  | valid session =>
    simp only [refs, checking, turning, opening, entered, testing, uses] at *
    constructor <;> grind -linarith [users]
  | flag session =>
    -- `AcceptThread` had the custody alone, and gives it up
    simp only [refs, checking, turning, opening, entered, testing, uses] at *
    have alone : m.total checking + m.total turning + m.shared.inStack.toNat = 0 := by omega
    constructor <;> grind -linarith [users]
  | _ =>
    simp only [refs, checking, turning, opening, entered, testing, uses] at *
    constructor <;> grind -linarith [users, delflagOn, delflagOff]

/-! ## The places are right -/

/-- Nobody begins to use the session while a thread compares. -/
private theorem unused_kept (custody : Custody m) (taken : SlotStep m.shared (m.place i) s' p')
    (compares : 1 ≤ m.total checking) (unused : users m = 0) : users (m.move i s' p') = 0 := by
  have uses' := m.total_move i s' p' uses
  have enteredHere := m.le_total entered i
  have openingHere := m.le_total opening i
  have exclusive := custody.exclusive
  have free := custody.free
  unfold users at unused ⊢
  rw [Threads.shared_move]
  rcases quiet_or_turn taken with quiet | turn
  · have usesHere := m.le_total uses i
    have still := quiet.uses (by omega) (by omega)
    omega
  · generalize m.place i = p at *
    cases turn with
    | off open' =>
      simp only [entered] at enteredHere
      have none := free open'
      omega
    | flag session =>
      simp only [opening] at openingHere
      omega
    | _ =>
      simp only [uses] at uses'
      change _ + m.shared.pending = 0
      omega

private theorem placed_other {j : ι} (custody : Custody m)
    (taken : SlotStep m.shared (m.place i) s' p') (placed : Placed m.shared (users m) (m.place j)) :
    Placed s' (users (m.move i s' p')) (m.place j) := by
  have session := session_kept taken
  have unused' := unused_kept custody taken
  have queue := queue_cases taken
  have usesHere := m.le_total uses i
  have turningHere := m.le_total turning i
  have usesThere := m.le_total uses j
  have checkingThere := m.le_total checking j
  have turningThere := m.le_total turning j
  have unused := custody.unused
  have exclusive := custody.exclusive
  have used : 1 ≤ m.total uses → s'.sessionID = m.shared.sessionID ∧ s'.sessions = m.shared.sessions := by
    intro used
    rcases session with same | ⟨newSessionID, here, _⟩
    · exact same
    · rw [here] at turningHere
      simp only [turning] at turningHere
      have none := unused (by omega)
      unfold users at none
      omega
  have compared : 1 ≤ m.total checking → s'.sessionID = m.shared.sessionID := by
    intro compared
    rcases session with same | ⟨newSessionID, here, _⟩
    · exact same.1
    · rw [here] at turningHere
      simp only [turning] at turningHere
      omega
  have emptied : 1 ≤ m.total turning → m.shared.sendQueue = [] → s'.sendQueue = [] := by
    intro turns empty
    rcases queue with ⟨id, session, here, _⟩ | same | ⟨packet, first⟩
    · have none := unused (by omega)
      rw [here] at usesHere
      simp only [uses] at usesHere
      unfold users at none
      omega
    · rw [same, empty]
    · rw [empty] at first
      cases first
  have grown := sessions_grow taken
  generalize m.place j = q at *
  cases q with
  | found id session | enqueue id session | lastPacket id session | post id session
  | posted id session | leave id session =>
    obtain ⟨sameID, same⟩ := used usesThere
    exact ⟨sameID.trans placed.1, same.trans placed.2⟩
  | releaseFlag id tempCount => exact placed
  | releaseID id | releaseCheck id tempID =>
    intro equal
    rw [compared checkingThere] at equal
    exact unused' checkingThere (placed equal)
  | push | acceptID newSessionID => exact emptied turningThere placed
  | acceptEnter session | acceptValid session | acceptFlag session | acceptSock session =>
    exact Nat.le_trans placed grown
  | working batch | posting batch =>
    intro packet member
    exact (placed packet member).trans (used usesThere).2.symm
  | _ => trivial

/-- The place a thread comes to. -/
private theorem placed_here (sound : Sound m) (taken : SlotStep m.shared (m.place i) s' p')
    (tested : Tested m i) : Placed s' (users (m.move i s' p')) p' := by
  have uses' := m.total_move i s' p' uses
  have count := sound.count
  have placed := sound.placed i
  unfold Tested at tested
  generalize m.place i = p at *
  cases taken with
  | find taken =>
    cases taken with
    | same equal => exact ⟨equal.symm, rfl⟩
    | _ => trivial
  | send taken =>
    cases taken with
    | leave id session => trivial
    | _ => exact placed
  | release taken =>
    cases taken with
    | count id =>
      change 0 ≤ m.shared.ioCount
      omega
    | exchanged flag =>
      intro equal
      have none := unused_when_tested sound.toCustody (tested flag equal)
      simp only [uses] at uses'
      unfold users at none ⊢
      change _ + m.shared.pending = 0
      omega
    | read id =>
      intro equal
      have none := placed equal
      simp only [uses] at uses'
      unfold users at none ⊢
      change _ + m.shared.pending = 0
      omega
    | drained empty => exact empty
    | relet tempID => split <;> trivial
    | _ => trivial
  | accept taken =>
    cases taken with
    | pop newSessionID free => exact sound.drained free
    | sessionID newSessionID => exact Nat.le_refl _
    | enter session => exact placed
    | valid session => exact placed
    | flag session => exact placed
    | _ => trivial
  | worker taken =>
    cases taken with
    | mark batch step => exact placed
    | post batch => exact placed
    | dequeue batch queue =>
      intro packet member
      rcases List.mem_append.mp member with old | new
      · exact placed packet old
      · obtain rfl := List.mem_singleton.mp new
        exact sound.packets packet (by rw [queue]; exact List.mem_cons_self)
    | finish => split <;> trivial
    | release => trivial
    | _ => exact fun packet member => by cases member

private theorem placed_step (sound : Sound m) (taken : SlotStep m.shared (m.place i) s' p')
    (tested : Tested m i) : ∀ j, Placed s' (users (m.move i s' p')) ((m.move i s' p').place j) := by
  intro j
  rcases eq_or_ne j i with rfl | other
  · rw [Threads.place_move_self]
    exact placed_here sound taken tested
  · rw [Threads.place_move_other m i s' p' other]
    exact placed_other sound.toCustody taken (sound.placed j)

/-- What a step keeps, if its release test was in time. -/
theorem sound_step {m' : Threaded ι} (sound : Sound m) (tested : Tested m i)
    (taken : Threads.Step SlotStep m i m') : Sound m' := by
  obtain ⟨s', p', taken, rfl⟩ := taken
  have custody : Custody (m.move i s' p') := by
    rcases quiet_or_turn taken with quiet | turn
    · exact custody_quiet sound.toCustody quiet (count_kept taken)
    · exact custody_turn sound.toCustody turn (sound.placed i) tested
  exact { custody with
    placed := placed_step sound taken tested
    drained := drained_step sound taken
    packets := packets_step sound taken
    sock := sock_step sound taken
    sent := sent_step sound taken }

end Custody

end NewNameAuction.SessionCustody
