import NewNameAuction.SessionLifeCycle

/-! Whose turn it is to receive. A session has one receive operation: `AcceptThread`
starts it, a worker gets its completion, and `recvPost` starts it again when the worker is
done with `recvQueue`. So `recvQueue` has one user at a time, and as the operation has its
count of `IOcount`, nobody takes the session down meanwhile. -/
namespace NewNameAuction.ReceiveTurns
open SessionLife SessionOwner SessionNumbers SessionLifeCycle

/-! ## The server and its receives -/

/-- `receives` are the `WSARecv` of a slot of which no worker has the completion yet,
`reading` the workers that have one and have not come to the end of `recvPost`. -/
structure Net (κ : Type*) (n : Nat) where
  server : Threads (Option κ) (Server n) (Option (Fin n × Place))
  receives : Fin n → Nat
  reading : κ → Bool

def netStart (κ : Type*) {n : Nat} (sessionIDs : Fin n → Int64) (sessionAllocNum : Int64) : Net κ n :=
  ⟨serverStart κ sessionIDs sessionAllocNum, fun _ => 0, fun _ => false⟩

section Steps
variable {κ : Type*} {n : Nat} [DecidableEq κ]

/-- A step of the server, with what it does about receives. -/
inductive NetStep (m : Net κ n) : Option κ × Fin n × SessionLife.Event → Net κ n → Prop
  /-- A worker gets the completion of a receive. -/
  | completed {j : κ} {index : Fin n} {others : Nat}
      {server : Threads (Option κ) (Server n) (Option (Fin n × Place))}
      (step : ServerStep m.server (some j, index, .other) server)
      (idle : standing index (m.server.place (some j)) = .idle)
      (working : standing index (server.place (some j)) = .working)
      (receives : m.receives index = others + 1) :
      NetStep m (some j, index, .other)
        ⟨server, Function.update m.receives index others, Function.update m.reading j true⟩
  /-- `recvPost` counts the operation, and starts it. -/
  | counts {j : κ} {index : Fin n}
      {server : Threads (Option κ) (Server n) (Option (Fin n × Place))}
      (step : ServerStep m.server (some j, index, .other) server) (reads : m.reading j = true)
      (starting : standing index (server.place (some j)) = .starting) :
      NetStep m (some j, index, .other) { m with server := server }
  | posted {j : κ} {index : Fin n}
      {server : Threads (Option κ) (Server n) (Option (Fin n × Place))}
      (step : ServerStep m.server (some j, index, .other) server) (reads : m.reading j = true)
      (pending : (server.shared.slots index).pending = (m.server.shared.slots index).pending + 1) :
      NetStep m (some j, index, .other)
        ⟨server, Function.update m.receives index (m.receives index + 1),
          Function.update m.reading j false⟩
  /-- `WSARecv` is an error, the session is disconnected, or the receive was an error. -/
  | ended {j : κ} {index : Fin n}
      {server : Threads (Option κ) (Server n) (Option (Fin n × Place))}
      (step : ServerStep m.server (some j, index, .other) server) (reads : m.reading j = true)
      (unposted : (server.shared.slots index).pending = (m.server.shared.slots index).pending)
      (finished : standing index (server.place (some j)) ≠ .starting) :
      NetStep m (some j, index, .other) ⟨server, m.receives, Function.update m.reading j false⟩
  /-- `WSARecv` of `AcceptThread`. -/
  | accepted {index : Fin n} {server : Threads (Option κ) (Server n) (Option (Fin n × Place))}
      (step : ServerStep m.server (none, index, .other) server)
      (recv : standing index (m.server.place none) = .acceptRecv) :
      NetStep m (none, index, .other)
        ⟨server, Function.update m.receives index (m.receives index + 1), m.reading⟩
  /-- Anything else. A completion that is taken is not that of a receive. -/
  | other {i : Option κ} {index : Fin n} {event : SessionLife.Event}
      {server : Threads (Option κ) (Server n) (Option (Fin n × Place))}
      (step : ServerStep m.server (i, index, event) server)
      (aside : ∀ j, i = some j → m.reading j = false)
      (unaccepted : standing index (m.server.place i) = .acceptRecv → event ≠ .other)
      (covered : m.receives index ≤ (server.shared.slots index).pending) :
      NetStep m (i, index, event) { m with server := server }

theorem NetStep.server {m m' : Net κ n} {label : Option κ × Fin n × SessionLife.Event}
    (step : NetStep m label m') : ServerStep m.server label m'.server := by
  cases step <;> assumption

end Steps

/-! ## One slot -/

/-- A worker with a completion. -/
def busy : Place → Bool
  | .working | .starting => true
  | _ => false

/-- `AcceptThread` from its `IOcount++` to its `WSARecv`. -/
def settingUp : Place → Bool
  | .acceptValid | .acceptFlag | .acceptJoin | .acceptRecv => true
  | _ => false

/-- Who has the turn: nobody, the operation, a worker with its completion, or
`AcceptThread`. -/
inductive Turn (κ : Type*)
  | nobody
  | pending
  | worker (j : κ)
  | acceptor

def Turn.receives {κ : Type*} : Turn κ → Nat
  | .pending => 1
  | _ => 0

/-- The session has an operation or a worker with its completion. -/
def Turn.holds {κ : Type*} : Turn κ → Bool
  | .pending | .worker _ => true
  | _ => false

section Slots
variable {κ : Type*} {v : Threads (Option κ) Slot Place} {receives : Nat} {reading : κ → Bool}
  {turn : Turn κ} {i : Option κ} {j : κ} {s : Slot} {p : Place} {event : SessionLife.Event}

/-- Nobody is about to take the session of the slot down. -/
def Held (v : Threads (Option κ) Slot Place) : Prop :=
  v.shared.isValid = true ∧ ∀ j, v.shared.sessionID ∉ tested (v.place (some j))

structure Taken (v : Threads (Option κ) Slot Place) (receives : Nat) (reading : κ → Bool)
    (turn : Turn κ) : Prop where
  count : receives = turn.receives
  reader : ∀ j, reading j = true → v.place (some j) ≠ .idle → turn = .worker j
  worker : ∀ j, turn = .worker j → reading j = true ∧ busy (v.place (some j)) = true
  acceptor : settingUp (v.place none) = true ↔ turn = .acceptor
  held : turn.holds = true → Held v
  covered : receives ≤ v.shared.pending

theorem start_taken (sessionID : Int64) :
    Taken (start κ sessionID) 0 (fun _ => false) (.nobody : Turn κ) where
  count := rfl
  reader := fun _ reads => nomatch reads
  worker := fun _ same => nomatch same
  acceptor := ⟨fun within => (nomatch within), fun same => (nomatch same)⟩
  held := fun holds => nomatch holds
  covered := Nat.zero_le _

/-- Whoever has the turn has a count of `IOcount`. -/
theorem Taken.counts [Fintype κ] (taken : Taken v receives reading turn) (counted : Counted v)
    (holds : turn.holds = true) : v.shared.ioCount ≠ 0 := by
  have sum := counted.sum
  cases turn with
  | pending =>
    have covered := taken.covered
    rw [taken.count, Turn.receives] at covered
    omega
  | worker j =>
    have one := v.le_total refs (some j)
    have own : 0 < refs (v.place (some j)) := by
      have works := (taken.worker j rfl).2
      generalize v.place (some j) = place at works
      cases place <;> first | exact Nat.succ_pos _ | cases works
    omega
  | nobody | acceptor => cases holds

theorem held_serve [Fintype κ] [DecidableEq κ] {labels : List (Option κ × SessionLife.Event)} (kept : Kept v)
    (numbered : Numbered labels v) (held : Held v) (counts : v.shared.ioCount ≠ 0)
    (step : ServeStep v.shared (v.place (some j)) event s p) : Held (v.move (some j) s p) := by
  obtain ⟨counted, owner, custody⟩ := kept
  obtain ⟨valid, away⟩ := held
  refine ⟨?_, ?_⟩
  · rcases valid_step step with same | ⟨_, id, clean⟩
    · exact same.trans valid
    · have mine := away j
      rw [clean, numbered.cleaned j id (.inl clean)] at mine
      exact absurd (List.mem_singleton_self _) mine
  · rw [Threads.shared_move, (number_step step).1]
    exact serve_places (Q := fun p => v.shared.sessionID ∉ tested p)
      (tested_step step counts (clear_tests counted custody) (away j)) away

/-- `AcceptThread` takes no steps at a slot with a session but those of its set-up. -/
theorem held_acceptor (custody : ∃ owner, Custody v owner) (valid : v.shared.isValid = true)
    (step : AcceptStep v.shared (v.place none) event s p) : settingUp (v.place none) = true := by
  obtain ⟨owner, custody⟩ := custody
  have unset (turns : turning (v.place none) = true) := turner_facts custody turns
  generalize v.place none = place at step unset
  cases step with
  | pop free =>
    cases owner with
    | stack =>
      rw [custody.owned.2.1] at valid
      cases valid
    | thread | session => cases free.symm.trans custody.owned.1
  | sessionID | enter =>
    rw [(unset rfl).1] at valid
    cases valid
  | valid | flag | join | recv | recvFailed => rfl

/-! ## Its steps -/

variable [DecidableEq κ]

/-- A step of another worker or of a sender. -/
theorem taken_aside (taken : Taken v receives reading turn) (aside : reading j = false)
    (held : turn.holds = true → Held (v.move (some j) s p)) (covered : receives ≤ s.pending) :
    Taken (v.move (some j) s p) receives reading turn where
  count := taken.count
  reader := by
    intro k reads stands
    have other : k ≠ j := by
      rintro rfl
      rw [aside] at reads
      cases reads
    rw [Threads.place_move_other _ _ _ _ fun same => other (Option.some.inj same)] at stands
    exact taken.reader k reads stands
  worker := by
    intro k same
    obtain ⟨reads, works⟩ := taken.worker k same
    have other : k ≠ j := by
      rintro rfl
      rw [aside] at reads
      cases reads
    rw [Threads.place_move_other _ _ _ _ fun same => other (Option.some.inj same)]
    exact ⟨reads, works⟩
  acceptor := by
    rw [Threads.place_move_other _ _ _ _ (Option.some_ne_none j).symm]
    exact taken.acceptor
  held := held
  covered := covered

/-- The worker with the turn, or the one that gets it, moves on. -/
theorem taken_mine (taken : Taken v receives reading turn) {receives' : Nat} {reading' : κ → Bool}
    {turn' : Turn κ} (mine : turn = .worker j ∨ turn = .pending) (number : receives' = turn'.receives)
    (others : ∀ k, k ≠ j → reading' k = reading k)
    (self : reading' j = true ↔ turn' = .worker j) (works : reading' j = true → busy p = true)
    (own : ∀ k, turn' = .worker k → k = j) (acceptor : turn' ≠ .acceptor)
    (held : turn'.holds = true → Held (v.move (some j) s p)) (covered : receives' ≤ s.pending) :
    Taken (v.move (some j) s p) receives' reading' turn' where
  count := number
  reader := by
    intro k reads stands
    by_cases same : k = j
    · rw [same]
      exact self.mp (same ▸ reads)
    · rw [others k same] at reads
      rw [Threads.place_move_other _ _ _ _ fun eq => same (Option.some.inj eq)] at stands
      have before := taken.reader k reads stands
      rcases mine with mine | mine
      · exact absurd (Turn.worker.inj (before.symm.trans mine)) same
      · cases before.symm.trans mine
  worker := by
    intro k same
    obtain rfl := own k same
    have reads := self.mpr same
    rw [Threads.place_move_self]
    exact ⟨reads, works reads⟩
  acceptor := by
    rw [Threads.place_move_other _ _ _ _ (Option.some_ne_none j).symm]
    refine iff_of_false (fun within => ?_) acceptor
    have before := taken.acceptor.mp within
    rcases mine with mine | mine <;> cases before.symm.trans mine
  held := held
  covered := covered

/-- A step of `AcceptThread` that starts no receive. -/
theorem taken_accept (taken : Taken v receives reading turn) (custody : ∃ owner, Custody v owner)
    (step : AcceptStep v.shared (v.place none) event s p) :
    ∃ turn', Taken (v.move none s p) receives reading turn' := by
  have free : turn.holds = false := by
    cases holds : turn.holds with
    | false => rfl
    | true =>
      have mine := taken.acceptor.mp (held_acceptor custody (taken.held holds).1 step)
      rw [mine] at holds
      cases holds
  have zero : receives = 0 := by
    rw [taken.count]
    cases turn <;> first | rfl | cases free
  have unread (k : κ) (reads : reading k = true) : v.place (some k) = .idle := by
    by_contra stands
    rw [taken.reader k reads stands] at free
    cases free
  have fresh (turn' : Turn κ) (away : turn'.receives = 0) (lets : turn'.holds = false)
      (acceptor : settingUp p = true ↔ turn' = .acceptor) :
      Taken (v.move none s p) receives reading turn' :=
    { count := zero.trans away.symm
      reader := fun k reads stands => by
        rw [Threads.place_move_other _ _ _ _ (Option.some_ne_none k)] at stands
        exact absurd (unread k reads) stands
      worker := fun k same => by
        rw [same] at lets
        cases lets
      acceptor := by rwa [Threads.place_move_self]
      held := fun holds => by
        rw [lets] at holds
        cases holds
      covered := zero ▸ Nat.zero_le _ }
  cases within : settingUp p with
  | true => exact ⟨.acceptor, fresh .acceptor rfl rfl (iff_of_true within rfl)⟩
  | false =>
    exact ⟨.nobody, fresh .nobody rfl rfl (iff_of_false (by rw [within]; decide) (fun same => (nomatch same)))⟩

/-- `WSARecv` of `AcceptThread`: the operation has the turn. -/
theorem taken_recv {labels : List (Option κ × SessionLife.Event)} (taken : Taken v receives reading turn)
    (numbered : Numbered labels v) (here : v.place none = .acceptRecv)
    (step : AcceptStep v.shared (v.place none) .other s p) :
    Taken (v.move none s p) (receives + 1) reading .pending := by
  have mine : turn = .acceptor := taken.acceptor.mp (by rw [here]; rfl)
  have opened := numbered.opened (.inr here)
  have zero : receives = 0 := by
    rw [taken.count, mine]
    rfl
  rw [here] at step
  cases step
  exact {
    count := by rw [zero, Turn.receives]
    reader := fun k reads stands => by
      rw [Threads.place_move_other _ _ _ _ (Option.some_ne_none k)] at stands
      cases mine.symm.trans (taken.reader k reads stands)
    worker := fun k same => nomatch same
    acceptor := by
      rw [Threads.place_move_self]
      exact iff_of_false (fun within => (nomatch within)) (fun same => (nomatch same))
    held := fun _ => by
      refine ⟨opened.1, fun k => ?_⟩
      rw [Threads.place_move_other _ _ _ _ (Option.some_ne_none k)]
      exact opened.2 k
    covered := by
      rw [zero]
      exact Nat.succ_le_succ (Nat.zero_le _) }

omit [DecidableEq κ] in
/-- What happens at other slots is not seen. -/
theorem taken_elsewhere (taken : Taken v receives reading turn) {reading' : κ → Bool}
    (same : ∀ k, v.place (some k) ≠ .idle → reading' k = reading k) :
    Taken v receives reading' turn where
  count := taken.count
  reader := by
    intro k reads stands
    rw [same k stands] at reads
    exact taken.reader k reads stands
  worker := by
    intro k his
    obtain ⟨reads, works⟩ := taken.worker k his
    refine ⟨?_, works⟩
    rw [same k fun idle => by rw [idle] at works; cases works]
    exact reads
  acceptor := taken.acceptor
  held := taken.held
  covered := taken.covered

end Slots

/-! ## All slots -/

section Nets
variable {κ : Type*} {n : Nat} {m m' : Net κ n} {index other : Fin n} {j : κ}
  {labels : List (Option κ × Fin n × SessionLife.Event)}

structure Turns (m : Net κ n) : Prop where
  standing : ∀ j, m.reading j = true →
    ∃ index p, m.server.place (some j) = some (index, p) ∧ busy p = true
  taken : ∀ index, ∃ turn, Taken (view index m.server) (m.receives index) m.reading turn

theorem start_turns (sessionIDs : Fin n → Int64) (sessionAllocNum : Int64) :
    Turns (netStart κ sessionIDs sessionAllocNum) :=
  ⟨fun _ reads => (nomatch reads), fun index => ⟨.nobody, start_taken (sessionIDs index)⟩⟩

variable [DecidableEq κ]

/-- Whoever takes a step at a slot stands at no other. -/
theorem step_there {server server' : Threads (Option κ) (Server n) (Option (Fin n × Place))}
    {i : Option κ} {event : SessionLife.Event} (step : ServerStep server (i, index, event) server') :
    server.place i = none ∨ ∃ p, server.place i = some (index, p) := by
  cases step with
  | step there taken names shared => exact there

theorem place_others {server server' : Threads (Option κ) (Server n) (Option (Fin n × Place))}
    {i k : Option κ} {event : SessionLife.Event} (step : ServerStep server (i, index, event) server')
    (other : k ≠ i) : server'.place k = server.place k := by
  cases step with
  | step there taken names shared => exact Threads.place_move_other _ _ _ _ other

theorem reader_busy (turns : Turns m) (reads : m.reading j = true) {event : SessionLife.Event}
    {server : Threads (Option κ) (Server n) (Option (Fin n × Place))}
    (step : ServerStep m.server (some j, index, event) server) :
    busy ((view index m.server).place (some j)) = true := by
  obtain ⟨at', p, here, works⟩ := turns.standing j reads
  have there := step_there step
  rw [here] at there
  rcases there with none | ⟨p', same⟩
  · cases none
  · obtain ⟨rfl, rfl⟩ := Prod.mk.inj (Option.some.inj same)
    change busy (standing at' (m.server.place (some j))) = true
    rw [here]
    exact (congrArg busy (if_pos rfl)).trans works

theorem busy_turn (turns : Turns m) (reads : m.reading j = true) {event : SessionLife.Event}
    {server : Threads (Option κ) (Server n) (Option (Fin n × Place))}
    (step : ServerStep m.server (some j, index, event) server) {turn : Turn κ}
    (taken : Taken (view index m.server) (m.receives index) m.reading turn) : turn = .worker j := by
  refine taken.reader j reads fun idle => ?_
  have works := reader_busy turns reads step
  rw [idle] at works
  cases works

/-- What holds at the slot of a step, and held at the others, holds at all. -/
theorem turns_step_at {i : Option κ} {event : SessionLife.Event} (turns : Turns m)
    (step : ServerStep m.server (i, index, event) m'.server)
    (receives : ∀ other, other ≠ index → m'.receives other = m.receives other)
    (reading : ∀ k, some k ≠ i → m'.reading k = m.reading k)
    (own : ∃ turn, Taken (view index m'.server) (m'.receives index) m'.reading turn)
    (stands : ∀ k, some k = i → m'.reading k = true →
      busy ((view index m'.server).place (some k)) = true) : Turns m' := by
  constructor
  case standing =>
    intro k reads
    by_cases mine : some k = i
    · have works := stands k mine reads
      change busy (standing index (m'.server.place (some k))) = true at works
      cases here : m'.server.place (some k) with
      | none =>
        rw [here] at works
        cases works
      | some at' =>
        obtain ⟨at', p⟩ := at'
        rw [here] at works
        refine ⟨at', p, rfl, ?_⟩
        unfold standing at works
        dsimp only at works
        split at works
        · exact works
        · cases works
    · rw [reading k mine] at reads
      obtain ⟨at', p, here, works⟩ := turns.standing k reads
      exact ⟨at', p, (place_others step mine).trans here, works⟩
  case taken =>
    intro other
    by_cases same : other = index
    · rw [same]
      exact own
    · obtain ⟨turn, taken⟩ := turns.taken other
      refine ⟨turn, ?_⟩
      rw [view_other step same, receives other same]
      refine taken_elsewhere taken fun k here => reading k ?_
      rintro rfl
      exact here (standing_other same (step_there step))

variable [Fintype κ]

/-- A step of a worker that has the turn or gets it. Afterwards it has the turn and reads,
or it has given the turn up. -/
theorem turns_worker {event : SessionLife.Event} {turn : Turn κ} (turn' : Turn κ) (reads : Bool) (turns : Turns m)
    (kept : Kept (view index m.server)) (numbered : Numbered (ofSlot index labels) (view index m.server))
    (taken : Taken (view index m.server) (m.receives index) m.reading turn)
    (step : ServerStep m.server (some j, index, event) m'.server)
    (mine : turn = .worker j ∨ turn = .pending)
    (whose : if reads then turn' = .worker j else turn' = .pending ∨ turn' = .nobody)
    (receives : m'.receives = Function.update m.receives index turn'.receives)
    (reading : m'.reading = Function.update m.reading j reads)
    (works : reads = true → busy ((view index m'.server).place (some j)) = true)
    (covered : turn'.receives ≤ (view index m'.server).shared.pending) : Turns m' := by
  have self : m'.reading j = reads := by rw [reading, Function.update_self]
  have others (k : κ) (other : k ≠ j) : m'.reading k = m.reading k := by
    rw [reading, Function.update_of_ne other]
  have number : m'.receives index = turn'.receives := by rw [receives, Function.update_self]
  refine turns_step_at turns step (fun o other => by rw [receives, Function.update_of_ne other])
    (fun k other => others k fun same => other (congrArg some same)) ⟨turn', ?_⟩ fun k same stands => ?_
  · obtain ⟨s, p, slot, same⟩ := view_step step
    rw [same] at covered ⊢
    cases slot with
    | serve _ slot =>
      refine taken_mine taken mine number others ?_ (fun stands => ?_) (fun k his => ?_) ?_
        (fun _ => ?_) (number ▸ covered)
      · rw [self]
        cases reads with
        | true => exact iff_of_true rfl whose
        | false => rcases whose with rfl | rfl <;> simp
      · rw [self] at stands
        have works := works stands
        rwa [same, Threads.place_move_self] at works
      · cases reads with
        | true => exact Turn.worker.inj (his.symm.trans whose)
        | false => rcases whose with here | here <;> cases his.symm.trans here
      · rintro rfl
        cases reads with
        | true => cases whose
        | false => rcases whose with here | here <;> cases here
      · have holds : turn.holds = true := by rcases mine with rfl | rfl <;> rfl
        exact held_serve kept numbered (taken.held holds) (taken.counts kept.1 holds) slot
  · obtain rfl := Option.some.inj same
    exact works (self.symm.trans stands)

theorem turns_step {label : Option κ × Fin n × SessionLife.Event} (turns : Turns m)
    (kept : ∀ index, Kept (view index m.server))
    (numbered : ∀ index, Numbered (ofSlot index labels) (view index m.server))
    (step : NetStep m label m') : Turns m' := by
  cases step with
  | @completed j index others server step idle working receives =>
    obtain ⟨turn, taken⟩ := turns.taken index
    have mine : turn = .pending ∧ others = 0 := by
      have count := taken.count
      rw [receives] at count
      cases turn with
      | pending => exact ⟨rfl, Nat.succ.inj count⟩
      | nobody | worker _ | acceptor => cases count
    obtain ⟨rfl, rfl⟩ := mine
    have works : busy ((view index server).place (some j)) = true := congrArg busy working
    exact turns_worker (.worker j) true turns (kept index) (numbered index) taken
      step (.inr rfl) rfl rfl rfl (fun _ => works) (Nat.zero_le _)
  | @counts j index server step reads starting =>
    obtain ⟨turn, taken⟩ := turns.taken index
    obtain rfl := busy_turn turns reads step taken
    have works : busy ((view index server).place (some j)) = true := congrArg busy starting
    exact turns_worker (.worker j) true turns (kept index) (numbered index) taken
      step (.inl rfl) rfl (by rw [← taken.count, Function.update_eq_self])
      (by rw [← reads, Function.update_eq_self]) (fun _ => works) (Nat.zero_le _)
  | @posted j index server step reads pending =>
    obtain ⟨turn, taken⟩ := turns.taken index
    obtain rfl := busy_turn turns reads step taken
    have more : 1 ≤ (view index server).shared.pending := pending ▸ Nat.succ_pos _
    exact turns_worker .pending false turns (kept index) (numbered index) taken
      step (.inl rfl) (.inl rfl) (by rw [taken.count]; rfl) rfl (fun stands => nomatch stands) more
  | @ended j index server step reads unposted finished =>
    obtain ⟨turn, taken⟩ := turns.taken index
    obtain rfl := busy_turn turns reads step taken
    exact turns_worker .nobody false turns (kept index) (numbered index) taken
      step (.inl rfl) (.inr rfl)
      (by rw [show (Turn.nobody : Turn κ).receives = m.receives index from taken.count.symm,
        Function.update_eq_self]) rfl (fun stands => nomatch stands) (Nat.zero_le _)
  | @accepted index server step recv =>
    obtain ⟨turn, taken⟩ := turns.taken index
    refine turns_step_at turns step (fun o other => Function.update_of_ne other ..) (fun _ _ => rfl)
      ⟨.pending, ?_⟩ fun k same => (nomatch same)
    obtain ⟨s, p, slot, same⟩ := view_step step
    dsimp only
    rw [same, Function.update_self]
    cases slot with
    | accept slot => exact taken_recv taken (numbered index) recv slot
  | @other i index event server step aside unaccepted covered =>
    obtain ⟨turn, taken⟩ := turns.taken index
    refine turns_step_at turns step (fun _ _ => rfl) (fun _ _ => rfl) ?_ fun k same reads => ?_
    · obtain ⟨s, p, slot, same⟩ := view_step step
      have covered : m.receives index ≤ (view index server).shared.pending := covered
      rw [same] at covered ⊢
      cases slot with
      | accept slot => exact taken_accept taken (kept index).2 slot
      | serve j slot =>
        refine ⟨turn, taken_aside taken (aside j rfl) (fun holds => ?_) covered⟩
        exact held_serve (kept index) (numbered index) (taken.held holds)
          (taken.counts (kept index).1 holds) slot
    · rw [aside k same.symm] at reads
      cases reads

end Nets

/-! ## Runs -/

section Runs
variable {κ : Type*} {n : Nat} {m : Net κ n} {labels : List (Option κ × Fin n × SessionLife.Event)}
  {sessionIDs : Fin n → Int64} {allocNum : Int64}

/-- The session of the slot has joined and has not left. -/
def Live (labels : List (Option κ × SessionLife.Event)) (v : Threads (Option κ) Slot Place) : Prop :=
  v.shared.sessionID ∈ joined labels ∧ v.shared.sessionID ∉ left labels

theorem live_of_holds {labels : List (Option κ × SessionLife.Event)} {v : Threads (Option κ) Slot Place}
    {receives : Nat} {reading : κ → Bool} {turn : Turn κ} (numbered : Numbered labels v)
    (taken : Taken v receives reading turn) (holds : turn.holds = true) : Live labels v := by
  obtain ⟨unleft, joins⟩ := numbered.present (.inl (taken.held holds).1)
  refine ⟨joins ?_, unleft⟩
  have aside : settingUp (v.place none) ≠ true := fun within => by
    rw [taken.acceptor.mp within] at holds
    cases holds
  generalize v.place none = place at aside
  cases place <;> first | rfl | exact absurd rfl aside

theorem few_of_snoc {label : Option κ × Fin n × SessionLife.Event}
    (few : (given (labels ++ [label])).length ≤ 2 ^ 48) : (given labels).length ≤ 2 ^ 48 := by
  rw [given_snoc, List.length_append] at few
  omega

variable [Fintype κ] [DecidableEq κ]

theorem run_turns (within : n ≤ maxSession) (run : Run NetStep (netStart κ sessionIDs allocNum) labels m) :
    Reached allocNum labels m.server ∧ ((given labels).length ≤ 2 ^ 48 → Turns m) := by
  refine run.history (P := fun labels m => Reached allocNum labels m.server ∧
    ((given labels).length ≤ 2 ^ 48 → Turns m)) ?_
    ⟨start_reached sessionIDs allocNum, fun _ => start_turns sessionIDs allocNum⟩
  rintro labels m label m' ⟨reached, turns⟩ step
  refine ⟨reached_step within reached step.server, fun few => ?_⟩
  exact turns_step (turns (few_of_snoc few)) reached.kept (reached.numbered (few_of_snoc few)) step

/-- In every run, one at most of the receive operation of a slot, the workers with its
completion and `AcceptThread` has the turn; and while the operation or a worker has it,
the session of the slot has joined, has not left, and is not about to. -/
theorem one_receiver (within : n ≤ maxSession)
    (run : Run NetStep (netStart κ sessionIDs allocNum) labels m)
    (few : (given labels).length ≤ 2 ^ 48) (index : Fin n) :
    ∃ turn, Taken (view index m.server) (m.receives index) m.reading turn ∧
      (turn.holds = true → Live (ofSlot index labels) (view index m.server)) := by
  obtain ⟨reached, turns⟩ := run_turns within run
  obtain ⟨turn, taken⟩ := (turns few).taken index
  exact ⟨turn, taken, live_of_holds (reached.numbered few index) taken⟩

/-! ## Runs of the server -/

section Pending
variable {s s' : Slot} {p p' : Place} {event : SessionLife.Event}

omit [Fintype κ] [DecidableEq κ] in
theorem accept_pending (step : AcceptStep s p event s' p') : s.pending ≤ s'.pending := by
  cases step <;> simp

/-- Only who takes a completion has fewer of them afterwards. -/
theorem serve_pending (step : ServeStep s p event s' p') : p ≠ .acceptRecv ∧
    (s.pending ≤ s'.pending ∨
      p = .idle ∧ p' = .working ∧ event = .other ∧ s.pending = s'.pending + 1) := by
  rcases step with step | step | step | step
  · cases step <;> simp
  · cases step <;> simp
  · cases step <;> simp_all
  · cases step <;> simp

end Pending

omit [Fintype κ] in
theorem serve_reading {j : κ} {index : Fin n} {event : SessionLife.Event}
    {server : Threads (Option κ) (Server n) (Option (Fin n × Place))} (turns : Turns m)
    (reads : m.reading j = true) (step : ServerStep m.server (some j, index, event) server) :
    ∃ m', NetStep m (some j, index, event) m' ∧ m'.server = server := by
  obtain ⟨s, p, slot, same⟩ := view_step step
  have works := reader_busy turns reads step
  have pending : (server.shared.slots index).pending = s.pending := by
    change (view index server).shared.pending = _
    rw [same, Threads.shared_move]
  have after : standing index (server.place (some j)) = p := by
    change (view index server).place (some j) = _
    rw [same, Threads.place_move_self]
  dsimp only at slot
  generalize (view index m.server).place (some j) = place at slot works
  cases slot with
  | serve _ slot =>
    rcases slot with slot | slot | slot | slot
    · cases slot <;> cases works
    · cases slot <;> cases works
    · cases slot with
      | start => exact ⟨_, .counts step reads after, rfl⟩
      | started => exact ⟨_, .posted step reads pending, rfl⟩
      | notStarted => exact ⟨_, .ended step reads pending (by rw [after]; simp), rfl⟩
      | finish => exact ⟨_, .ended step reads pending (by rw [after]; split <;> simp), rfl⟩
      | take | request | release => cases works
    · cases slot <;> cases works

omit [Fintype κ] in
/-- Whatever a server does, it does something about receives. -/
theorem net_step {label : Option κ × Fin n × SessionLife.Event}
    {server : Threads (Option κ) (Server n) (Option (Fin n × Place))} (turns : Turns m)
    (step : ServerStep m.server label server) : ∃ m', NetStep m label m' ∧ m'.server = server := by
  obtain ⟨i, index, event⟩ := label
  obtain ⟨turn, taken⟩ := turns.taken index
  obtain ⟨s, p, slot, same⟩ := view_step step
  have pending : (server.shared.slots index).pending = s.pending := by
    change (view index server).shared.pending = _
    rw [same, Threads.shared_move]
  have after : standing index (server.place i) = p := by
    change (view index server).place i = _
    rw [same, Threads.place_move_self]
  have covered : m.receives index ≤ (view index m.server).shared.pending := taken.covered
  cases slot with
  | accept slot =>
    by_cases recv : standing index (m.server.place none) = .acceptRecv ∧ event = .other
    · obtain ⟨here, rfl⟩ := recv
      exact ⟨_, .accepted step here, rfl⟩
    · exact ⟨_, .other step (fun _ none => (nomatch none)) (fun here other => recv ⟨here, other⟩)
        (pending ▸ covered.trans (accept_pending slot)), rfl⟩
  | serve j slot =>
    by_cases reads : m.reading j = true
    · exact serve_reading turns reads step
    · obtain ⟨unaccepting, more⟩ := serve_pending slot
      by_cases stays : m.receives index ≤ s.pending
      · refine ⟨_, .other step (fun k mine => ?_) (fun here => absurd here unaccepting)
          (pending ▸ stays), rfl⟩
        obtain rfl := Option.some.inj mine
        exact Bool.not_eq_true _ ▸ reads
      · rcases more with more | ⟨idle, working, rfl, fewer⟩
        · exact absurd (covered.trans more) stays
        · have receives : m.receives index = s.pending + 1 := by omega
          exact ⟨_, .completed step idle (after.trans working) receives, rfl⟩

/-- Every run of the server is one with its receives told apart. -/
theorem net_run {server : Threads (Option κ) (Server n) (Option (Fin n × Place))} (within : n ≤ maxSession)
    (run : Run ServerStep (serverStart κ sessionIDs allocNum) labels server)
    (few : (given labels).length ≤ 2 ^ 48) :
    ∃ m, Run NetStep (netStart κ sessionIDs allocNum) labels m ∧ m.server = server := by
  refine run.history (P := fun labels server => (given labels).length ≤ 2 ^ 48 →
    ∃ m, Run NetStep (netStart κ sessionIDs allocNum) labels m ∧ m.server = server) ?_
    (fun _ => ⟨_, .nil _, rfl⟩) few
  intro labels server label server' before step few
  obtain ⟨m, run, rfl⟩ := before (few_of_snoc few)
  obtain ⟨m', next, same⟩ := net_step ((run_turns within run).2 (few_of_snoc few)) step
  exact ⟨m', run.append (.single next), same⟩

end Runs

/-- `AcceptThread` has started the receive of the first session. -/
theorem first_receive_pending : ∃ labels m,
    Run NetStep (netStart (Fin 1) (fun _ : Fin 1 => 0) 0) labels m ∧ m.receives 0 = 1 ∧
      Live (ofSlot 0 labels) (view 0 m.server) := by
  let places : Option (Fin 1) → Option (Fin 1 × Place) := fun _ => none
  have here : places none = stand 0 .idle := rfl
  have joins : AloneStep (none : Option (Fin 1))
      ⟨session (newSessionID 0 0) 1 0 0 [newSessionID 0 0], [], 1, .acceptJoin⟩
      (.joined (newSessionID 0 0)) ⟨session (newSessionID 0 0) 1 0 0 [newSessionID 0 0], [], 1, .acceptRecv⟩ :=
    alone_accept (.join _) (.other _ _ (by simp) (by simp) (by simp))
  have opens := (accept_opens (κ := Fin 1) 0 SessionSlot.delflagOff [] 0).append (.single joins)
  have run := alone_run here opens
  obtain ⟨m, lifted, same⟩ := net_run (by decide) run (by decide)
  have receives : AloneStep (none : Option (Fin 1))
      ⟨session (newSessionID 0 0) 1 0 0 [newSessionID 0 0], [], 1, .acceptRecv⟩
      .other ⟨session (newSessionID 0 0) 1 1 0 [newSessionID 0 0], [], 1, .idle⟩ :=
    alone_accept (.recv _) shared_other
  have there : Function.update places none (stand 0 .acceptRecv) none = stand 0 .acceptRecv :=
    Function.update_self ..
  have posts : Run ServerStep _ [((none : Option (Fin 1)), 0, .other)] _ := alone_run there (.single receives)
  cases posts with
  | cons step rest =>
    rw [← same] at step
    have recv : standing 0 (m.server.place none) = .acceptRecv := by
      rw [same]
      rfl
    have whole := lifted.append (.single (.accepted step recv))
    obtain ⟨turn, taken, live⟩ := one_receiver (by decide) whole (by decide) 0
    have count := taken.count
    cases turn with
    | pending => exact ⟨_, _, whole, count, live rfl⟩
    | nobody | worker _ | acceptor =>
      simp [Turn.receives] at count

end NewNameAuction.ReceiveTurns
