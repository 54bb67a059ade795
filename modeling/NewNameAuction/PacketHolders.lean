import NewNameAuction.PacketStages

/-! Every reference to a packet has a holder. `refCount` counts the holders, the last one
to let go gives the packet back to the pool, and nobody holds a packet that the pool has. -/
namespace NewNameAuction.PacketHolders
open PacketRefs PacketStages

/-! ## Holders -/

section Holders
variable {n : Nat} {α : Type*}

/-- The packets of which a thread has references, one entry for each. -/
def held : Place n α → List α
  | .sending p _ job | .found p _ _ job => p :: job.toList
  | .enqueue p _ _ job => p :: p :: job.toList
  | .created _ _ job => job.toList
  | .filled p | .job p | .packetProc p => [p]
  | .handOver p => [p, p]
  | .dequeue _ batch => batch
  | .letGo p next => p :: held next
  | .free _ next => held next
  | .idle | .received _ | .takeFlag _ | .readCount _ | .send _ | .giveBack _ => []
  | .resetFlag _ | .readMore _ | .sent _ _ _ | .zero _ _ | .drain _ _ => []

/-- The packets without a reference: a thread has them new from the pool, or is about to give
them back. -/
def bare : Place n α → List α
  | .created p _ _ | .received p => [p]
  | .letGo _ next => bare next
  | .free p next => p :: bare next
  | .idle | .sending _ _ _ | .found _ _ _ _ | .enqueue _ _ _ _ | .filled _ | .handOver _ => []
  | .job _ | .packetProc _ | .takeFlag _ | .readCount _ | .dequeue _ _ | .send _ => []
  | .giveBack _ | .resetFlag _ | .readMore _ | .sent _ _ _ | .zero _ _ | .drain _ _ => []

theorem held_back (job : Option α) : held (.back job : Place n α) = job.toList := by
  cases job <;> rfl

theorem bare_back (job : Option α) : bare (.back job : Place n α) = [] := by
  cases job <;> rfl

/-- The entries of `sendQueue`, and the first `sendPacketCount` entries of `sentPacketArray`
that the loop has not come past. -/
def kept (x : Session α) : List α := x.sendQueue ++ (entries x).drop x.released

variable [DecidableEq α] {κ : Type*} [Fintype κ]

/-- The places that hold a packet: threads, sessions, jobs. -/
def holders (m : Threads κ (Server n α) (Place n α)) (p : α) : Nat :=
  m.total (fun place => (held place).count p) + ∑ s, (kept (m.shared.sessions s)).count p +
    m.shared.jobQueue.count p

/-! ## The account of a packet -/

/-- A packet that is out has `refCount` for its holders, and without one a single thread has
it; the others have none. -/
def Account (live : Bool) (refCount : Int) (holders bare : Nat) : Prop :=
  match live with
  | false => holders = 0 ∧ bare = 0
  | true => refCount = holders ∧ bare = if refCount = 0 then 1 else 0

def Accounted (m : Threads κ (Server n α) (Place n α)) : Prop :=
  ∀ p, Account (m.shared.pool.live p) (m.shared.pool.refCount p) (holders m p)
    (m.total fun place => (bare place).count p)

/-- What a step of the pool is for the packet it is about. -/
theorem pool_cases {pool pool' : Pool α} {event : Event α} {place place' : Place n α}
    (step : PoolStep pool place event pool' place') :
    (∃ p, event = .mAlloc p ∧ pool' = pool.mAlloc p ∧ pool.live p = false ∧
      held place' = held place ∧ bare place' = p :: bare place) ∨
    (∃ p, event = .addRef p ∧ pool' = pool.addRef p ∧ held place' = p :: held place ∧
      (bare place = p :: bare place' ∨ p ∈ held place ∧ bare place' = bare place)) ∨
    (∃ p, event = .subRef p ∧ pool' = pool.subRef p ∧ held place = p :: held place' ∧
      bare place' = if pool.refCount p - 1 = 0 then p :: bare place else bare place) ∨
    (∃ p, event = .mFree p ∧ pool' = pool.mFree p ∧ held place' = held place ∧
      bare place = p :: bare place') := by
  cases step with
  | @build p free targets job =>
    refine .inl ⟨p, rfl, rfl, free, (held_back job).symm, ?_⟩
    rw [bare_back]
    rfl
  | @receive p free => exact .inl ⟨p, rfl, rfl, free, rfl, rfl⟩
  | created p targets job => exact .inr (.inl ⟨p, rfl, rfl, rfl, .inl rfl⟩)
  | received p => exact .inr (.inl ⟨p, rfl, rfl, rfl, .inl rfl⟩)
  | found p s targets job =>
    exact .inr (.inl ⟨p, rfl, rfl, rfl, .inr ⟨List.mem_cons_self, rfl⟩⟩)
  | onRecv p => exact .inr (.inl ⟨p, rfl, rfl, rfl, .inr ⟨List.mem_cons_self, rfl⟩⟩)
  | subRef p next =>
    refine .inr (.inr (.inl ⟨p, rfl, rfl, ?_, ?_⟩))
    · split <;> rfl
    · split <;> rfl
  | mFree p next => exact .inr (.inr (.inr ⟨p, rfl, rfl, rfl, rfl⟩))

/-! ## Transfers -/

omit [DecidableEq α] in
theorem local_held {place place' : Place n α} (step : LocalStep place place') :
    held place' = held place ∧ bare place' = bare place := by
  cases step with
  | built p job => exact ⟨congrArg (List.cons p) (held_back job), bare_back job⟩
  | _ => exact ⟨rfl, rfl⟩

theorem job_held {jobQueue jobQueue' : List α} {place place' : Place n α}
    (step : JobStep jobQueue place jobQueue' place') (p : α) :
    (held place').count p + jobQueue'.count p = (held place).count p + jobQueue.count p := by
  cases step with
  | enqueue q =>
    simp only [held, List.count_append, List.count_cons, List.count_nil]
    omega
  | dequeue q =>
    simp only [held, List.count_cons, List.count_nil]
    omega

variable {s : Fin n} {x x' : Session α} {place place' : Place n α}

theorem send_held (fits : ∀ g, stage place = some (s, g) → Fits g x)
    (step : SendStep s x place x' place') (p : α) :
    (held place').count p + (kept x').count p = (held place).count p + (kept x).count p := by
  cases step with
  | enqueue q targets job =>
    simp only [held, kept, entries, List.count_append, List.count_cons, List.count_nil]
    omega
  | @dequeue batch q rest room queue =>
    obtain ⟨_, count, _⟩ := fits _ rfl
    simp only [held, kept, entries, queue, count, List.count_append, List.count_cons, List.count_nil,
      List.range_zero, List.map_nil, List.drop_nil]
    omega
  | empty | full =>
    obtain ⟨_, count, released, filled⟩ := fits _ rfl
    simp only [held, kept, entries, filled, count, released, List.count_append, List.count_nil,
      List.range_zero, List.map_nil, List.drop_zero]
    omega
  | _ => rfl

theorem loop_held (fits : ∀ g, stage place = some (s, g) → Fits g x)
    (step : LoopStep s x place x' place') (p : α) :
    (held place').count p + (kept x').count p = (held place).count p + (kept x).count p := by
  cases step with
  | @entry i who more =>
    obtain ⟨_, released, _⟩ := fits _ rfl
    have inside : i < (entries x).length := by
      rw [entries, List.length_map, List.length_range]
      exact more
    have first : (entries x)[i] = x.sentPacketArray i := by
      simp [entries]
    have rest := List.drop_eq_getElem_cons inside
    rw [first] at rest
    simp only [held, kept, released, rest, List.count_append, List.count_cons, List.count_nil]
    change _ + (_ + ((entries x).drop (i + 1)).count p) = _
    omega
  | zero who =>
    obtain ⟨_, released⟩ := fits _ rfl
    have none : (entries x).drop x.released = [] := by
      rw [released]
      exact List.drop_eq_nil_of_le (by simp [entries])
    have next : held (Sent.next s who : Place n α) = [] := by cases who <;> rfl
    rw [next, kept, kept, none]
    rfl
  | drain who queue =>
    simp only [held, kept, queue, List.count_append, List.count_cons, List.count_nil]
    change _ + (_ + ((entries x).drop x.released).count p) = _
    omega
  | _ => rfl

theorem turn_held (step : TurnStep s x place x' place') (p : α) :
    (held place').count p + (kept x').count p = (held place).count p + (kept x).count p := by
  cases step <;> rfl

section Bare
omit [DecidableEq α]

theorem job_bare {jobQueue jobQueue' : List α} (step : JobStep jobQueue place jobQueue' place') :
    bare place' = bare place := by
  cases step <;> rfl

theorem send_bare (step : SendStep s x place x' place') : bare place' = bare place := by
  cases step <;> rfl

theorem loop_bare (step : LoopStep s x place x' place') : bare place' = bare place := by
  cases step with
  | zero who => cases who <;> rfl
  | _ => rfl

theorem turn_bare (step : TurnStep s x place x' place') : bare place' = bare place := by
  cases step <;> rfl

end Bare

/-! ## Steps -/

theorem account_alloc {refCount : Int} {holders bare : Nat} (account : Account false refCount holders bare) :
    Account true 0 holders (bare + 1) := by
  obtain ⟨none, fresh⟩ := account
  exact ⟨by omega, by rw [fresh]; rfl⟩

/-- The first reference. -/
theorem account_first {live : Bool} {refCount : Int} {holders bare : Nat}
    (account : Account live refCount holders (bare + 1)) :
    Account live (refCount + 1) (holders + 1) bare := by
  cases live with
  | false => exact absurd account.2 (Nat.succ_ne_zero _)
  | true =>
    obtain ⟨count, sole⟩ := account
    split at sole
    · exact ⟨by omega, by rw [if_neg (by omega)]; omega⟩
    · cases sole

theorem account_addRef {live : Bool} {refCount : Int} {holders bare : Nat} (some : 0 < holders)
    (account : Account live refCount holders bare) :
    Account live (refCount + 1) (holders + 1) bare := by
  cases live with
  | false => exact absurd account.1 (by omega)
  | true =>
    obtain ⟨count, sole⟩ := account
    rw [if_neg (by omega)] at sole
    exact ⟨by omega, by rw [if_neg (by omega)]; exact sole⟩

/-- The last to let go has the packet without a reference. -/
theorem account_subRef {live : Bool} {refCount : Int} {holders bare : Nat}
    (account : Account live refCount (holders + 1) bare) :
    Account live (refCount - 1) holders (if refCount - 1 = 0 then bare + 1 else bare) := by
  cases live with
  | false => exact absurd account.1 (Nat.succ_ne_zero _)
  | true =>
    obtain ⟨count, sole⟩ := account
    rw [if_neg (by omega)] at sole
    refine ⟨by omega, ?_⟩
    rw [sole]

/-- A packet goes back to the pool live and without a reference. -/
theorem account_free {live : Bool} {refCount : Int} {holders bare : Nat}
    (account : Account live refCount holders (bare + 1)) :
    (live = true ∧ refCount = 0) ∧ Account false refCount holders bare := by
  cases live with
  | false => exact absurd account.2 (Nat.succ_ne_zero _)
  | true =>
    obtain ⟨count, sole⟩ := account
    split at sole
    · next zero => exact ⟨⟨rfl, zero⟩, by omega, by omega⟩
    · cases sole

theorem start_accounted (refCount : α → Int) (sendFlags : Fin n → Bool)
    (sentPacketArrays : Fin n → Nat → α) :
    Accounted (start κ refCount sendFlags sentPacketArrays) := by
  intro p
  refine ⟨?_, Threads.total_zero _ _ fun _ => rfl⟩
  have idle : (start κ refCount sendFlags sentPacketArrays).total (fun place => (held place).count p) = 0 :=
    Threads.total_zero _ _ fun _ => rfl
  have kept : ∑ s, (kept ((start κ refCount sendFlags sentPacketArrays).shared.sessions s)).count p = 0 :=
    Finset.sum_eq_zero fun _ _ => rfl
  unfold holders
  rw [idle, kept]
  rfl

variable [DecidableEq κ] {m m' : Threads κ (Server n α) (Place n α)} {i : κ}

theorem bare_move (w : Server n α) (place : Place n α) (p : α) :
    (m.move i w place).total (fun place => (bare place).count p) + (bare (m.place i)).count p =
      m.total (fun place => (bare place).count p) + (bare place).count p :=
  m.total_move i w place _

/-- A step that hands packets on. -/
theorem accounted_transfer {w : Server n α} {place : Place n α} (accounted : Accounted m)
    (pool : w.pool = m.shared.pool) (none : bare place = bare (m.place i))
    (same : ∀ p, holders (m.move i w place) p = holders m p) : Accounted (m.move i w place) := by
  intro p
  have account := accounted p
  have moved := bare_move (m := m) (i := i) w place p
  rw [none] at moved
  rw [Threads.shared_move, pool, same, Nat.add_right_cancel moved]
  exact account

theorem holders_pool (pool : Pool α) (place : Place n α) (p : α) :
    holders (m.move i { m.shared with pool := pool } place) p + (held (m.place i)).count p =
      holders m p + (held place).count p := by
  have moved := m.total_move i { m.shared with pool := pool } place fun place => (held place).count p
  unfold holders
  rw [Threads.shared_move]
  dsimp only at moved ⊢
  omega

/-- A step of the pool in numbers of one packet: whether it is live, its references, how
many of them a thread has, and how often the thread has the packet without one. -/
inductive Deal : Bool → Bool → Int → Int → Nat → Nat → Nat → Nat → Prop
  | apart {live : Bool} {refCount : Int} {h b : Nat} :
      Deal live live refCount refCount h h b b
  | mAlloc {refCount : Int} {h b : Nat} : Deal false true refCount 0 h h b (b + 1)
  | first {live : Bool} {refCount : Int} {h b : Nat} :
      Deal live live refCount (refCount + 1) h (h + 1) (b + 1) b
  | addRef {live : Bool} {refCount : Int} {h b : Nat} : 0 < h →
      Deal live live refCount (refCount + 1) h (h + 1) b b
  | subRef {live : Bool} {refCount : Int} {h b : Nat} :
      Deal live live refCount (refCount - 1) (h + 1) h b (if refCount - 1 = 0 then b + 1 else b)
  | mFree {live : Bool} {refCount : Int} {h b : Nat} : Deal live false refCount refCount h h (b + 1) b

theorem pool_deal {pool pool' : Pool α} {event : Event α} {place place' : Place n α}
    (step : PoolStep pool place event pool' place') (q : α) :
    Deal (pool.live q) (pool'.live q) (pool.refCount q) (pool'.refCount q) ((held place).count q)
      ((held place').count q) ((bare place).count q) ((bare place').count q) := by
  rcases pool_cases step with ⟨p, _, rfl, fresh, same, more⟩ | ⟨p, _, rfl, more, why⟩ |
      ⟨p, _, rfl, less, why⟩ | ⟨p, _, rfl, same, less⟩
  · rw [same, more]
    by_cases here : q = p
    · subst here
      rw [fresh, Pool.live_mAlloc, Pool.refCount_mAlloc, List.count_cons_self]
      exact .mAlloc
    · rw [(Pool.mAlloc_other here).1, (Pool.mAlloc_other here).2, List.count_cons_of_ne (Ne.symm here)]
      exact .apart
  · rw [more]
    by_cases here : q = p
    · subst here
      rw [Pool.refCount_addRef, List.count_cons_self]
      rcases why with first | ⟨member, still⟩
      · rw [first, List.count_cons_self]
        exact .first
      · rw [still]
        exact .addRef (List.count_pos_iff.mpr member)
    · have still : (bare place').count q = (bare place).count q := by
        rcases why with first | ⟨_, still⟩
        · rw [first, List.count_cons_of_ne (Ne.symm here)]
        · rw [still]
      rw [Pool.addRef_other here, List.count_cons_of_ne (Ne.symm here), still]
      exact .apart
  · rw [less, why]
    by_cases here : q = p
    · subst here
      rw [Pool.refCount_subRef, List.count_cons_self, apply_ite (List.count q), List.count_cons_self]
      exact .subRef
    · rw [Pool.subRef_other here, List.count_cons_of_ne (Ne.symm here), apply_ite (List.count q),
        List.count_cons_of_ne (Ne.symm here), ite_self]
      exact .apart
  · rw [same, less]
    by_cases here : q = p
    · subst here
      rw [Pool.live_mFree, List.count_cons_self]
      exact .mFree
    · rw [Pool.mFree_other here, List.count_cons_of_ne (Ne.symm here)]
      exact .apart

/-- The account of all holders follows the thread's part in the deal. -/
theorem account_deal {live live' : Bool} {refCount refCount' : Int}
    {h h' b b' holders holders' bares bares' : Nat}
    (deal : Deal live live' refCount refCount' h h' b b') (some : h ≤ holders)
    (holds : holders' + h = holders + h') (moved : bares' + b = bares + b')
    (account : Account live refCount holders bares) : Account live' refCount' holders' bares' := by
  cases deal with
  | apart =>
    obtain rfl := Nat.add_right_cancel holds
    obtain rfl := Nat.add_right_cancel moved
    exact account
  | mAlloc =>
    obtain rfl := Nat.add_right_cancel holds
    obtain rfl : bares' = bares + 1 := by omega
    exact account_alloc account
  | first =>
    obtain rfl : holders' = holders + 1 := by omega
    obtain rfl : bares = bares' + 1 := by omega
    exact account_first account
  | addRef there =>
    obtain rfl : holders' = holders + 1 := by omega
    obtain rfl := Nat.add_right_cancel moved
    exact account_addRef (there.trans_le some) account
  | subRef =>
    obtain rfl : holders = holders' + 1 := by omega
    have subbed := account_subRef account
    split at moved
    · next zero =>
      obtain rfl : bares' = bares + 1 := by omega
      rwa [if_pos zero] at subbed
    · next more =>
      obtain rfl := Nat.add_right_cancel moved
      rwa [if_neg more] at subbed
  | mFree =>
    obtain rfl := Nat.add_right_cancel holds
    obtain rfl : bares = bares' + 1 := by omega
    exact (account_free account).2

theorem accounted_pool {pool : Pool α} {event : Event α} {place : Place n α} (accounted : Accounted m)
    (step : PoolStep m.shared.pool (m.place i) event pool place) :
    Accounted (m.move i { m.shared with pool := pool } place) := by
  intro q
  have own := m.le_total (fun place => (held place).count q) i
  have some : (held (m.place i)).count q ≤ holders m q := by
    unfold holders
    omega
  exact account_deal (pool_deal step q) some (holders_pool pool place q) (bare_move _ place q)
    (accounted q)

theorem holders_job {jobQueue : List α} {place : Place n α}
    (step : JobStep m.shared.jobQueue (m.place i) jobQueue place) (p : α) :
    holders (m.move i { m.shared with jobQueue := jobQueue } place) p = holders m p := by
  have moved := m.total_move i { m.shared with jobQueue := jobQueue } place
    fun place => (held place).count p
  have transfer := job_held step p
  unfold holders
  rw [Threads.shared_move]
  dsimp only at moved ⊢
  omega

theorem holders_session {x : Session α} {place : Place n α} {p : α}
    (transfer : (held place).count p + (kept x).count p =
      (held (m.place i)).count p + (kept (m.shared.sessions s)).count p) :
    holders (m.move i { m.shared with sessions := Function.update m.shared.sessions s x } place) p =
      holders m p := by
  have moved := m.total_move i { m.shared with sessions := Function.update m.shared.sessions s x }
    place fun place => (held place).count p
  have stored := sum_update (fun x => (kept x).count p) m.shared.sessions s x
  unfold holders
  rw [Threads.shared_move]
  dsimp only at moved stored ⊢
  omega

theorem accounted_step {label : κ × Event α} (shaped : ∀ s, ∃ owner, Shape s m owner)
    (accounted : Accounted m) (step : Step m label m') : Accounted m' := by
  have fits (s : Fin n) {i : κ} (g : Stage α) (here : stage (m.place i) = some (s, g)) :
      Fits g (m.shared.sessions s) := by
    obtain ⟨owner, shape⟩ := shaped s
    exact shape.fits i g here
  cases step with
  | pool step => exact accounted_pool accounted step
  | @alone i place step =>
    obtain ⟨holds, none⟩ := local_held step
    refine accounted_transfer accounted rfl none fun p => ?_
    have moved := m.total_move i m.shared place fun place => (held place).count p
    rw [holds] at moved
    unfold holders
    rw [Threads.shared_move]
    omega
  | @job i jobQueue place step =>
    exact accounted_transfer accounted rfl (job_bare step) fun p => holders_job step p
  | @send i s x place step =>
    exact accounted_transfer accounted rfl (send_bare step) fun p =>
      holders_session (send_held (fits s) step p)
  | @loop i s x place step =>
    exact accounted_transfer accounted rfl (loop_bare step) fun p =>
      holders_session (loop_held (fits s) step p)
  | @turn i s x place quiet step =>
    exact accounted_transfer accounted rfl (turn_bare step) fun p =>
      holders_session (turn_held step p)

/-! ## The pool -/

/-- The times a packet was taken from the pool, and given back. -/
def taken (p : α) (labels : List (κ × Event α)) : Nat := (labels.map Prod.snd).count (.mAlloc p)

def returned (p : α) (labels : List (κ × Event α)) : Nat := (labels.map Prod.snd).count (.mFree p)

/-- A packet that is out was taken once more than it was given back, any other as often. -/
def Balanced (labels : List (κ × Event α)) (m : Threads κ (Server n α) (Place n α)) : Prop :=
  ∀ p, returned p labels + (if m.shared.pool.live p = true then 1 else 0) = taken p labels

omit [Fintype κ] [DecidableEq κ] in
theorem taken_snoc (p : α) (labels : List (κ × Event α)) (label : κ × Event α) :
    taken p (labels ++ [label]) = taken p labels + if label.2 = .mAlloc p then 1 else 0 := by
  rw [taken, List.map_append, List.count_append, List.map_singleton, List.count_singleton]
  simp only [beq_iff_eq]
  rfl

omit [Fintype κ] [DecidableEq κ] in
theorem returned_snoc (p : α) (labels : List (κ × Event α)) (label : κ × Event α) :
    returned p (labels ++ [label]) = returned p labels + if label.2 = .mFree p then 1 else 0 := by
  rw [returned, List.map_append, List.count_append, List.map_singleton, List.count_singleton]
  simp only [beq_iff_eq]
  rfl

omit [DecidableEq κ] in
/-- Whoever has a packet bare has it out of the pool, without references. -/
theorem bare_facts (accounted : Accounted m) {p : α} (here : p ∈ bare (m.place i)) :
    m.shared.pool.live p = true ∧ m.shared.pool.refCount p = 0 := by
  have account := accounted p
  have own := m.le_total (fun place => (bare place).count p) i
  have some := List.count_pos_iff.mpr here
  generalize Threads.total (fun place => (bare place).count p) m = bares at account own
  obtain ⟨others, rfl⟩ : ∃ others, bares = others + 1 := ⟨bares - 1, by omega⟩
  exact (account_free account).1

theorem balanced_pool {labels : List (κ × Event α)} {pool : Pool α} {event : Event α}
    {place : Place n α} (accounted : Accounted m) (balanced : Balanced labels m)
    (step : PoolStep m.shared.pool (m.place i) event pool place) :
    Balanced (labels ++ [(i, event)]) (m.move i { m.shared with pool := pool } place) := by
  intro q
  have before := balanced q
  rw [taken_snoc, returned_snoc, Threads.shared_move]
  rcases pool_cases step with ⟨p, rfl, rfl, fresh, _⟩ | ⟨p, rfl, rfl, _⟩ | ⟨p, rfl, rfl, _⟩ |
      ⟨p, rfl, rfl, _, less⟩
  · by_cases here : q = p
    · subst here
      simp [fresh] at before ⊢
      exact before
    · simpa [(Pool.mAlloc_other here).1, Ne.symm here] using before
  · simp only [reduceCtorEq, if_false, Nat.add_zero]
    exact before
  · simp only [reduceCtorEq, if_false, Nat.add_zero]
    exact before
  · by_cases here : q = p
    · subst here
      have live := (bare_facts accounted (i := i) (p := q) (by rw [less]; exact List.mem_cons_self)).1
      simp [live] at before ⊢
      exact before
    · simpa [Pool.mFree_other here, Ne.symm here] using before

theorem balanced_step {labels : List (κ × Event α)} {label : κ × Event α} (accounted : Accounted m)
    (balanced : Balanced labels m) (step : Step m label m') : Balanced (labels ++ [label]) m' := by
  have other {i : κ} {w : Server n α} {place : Place n α} (pool : w.pool = m.shared.pool) :
      Balanced (labels ++ [(i, .other)]) (m.move i w place) := by
    intro q
    rw [taken_snoc, returned_snoc, Threads.shared_move, pool]
    exact balanced q
  cases step with
  | pool step => exact balanced_pool accounted balanced step
  | alone => exact other rfl
  | job => exact other rfl
  | send => exact other rfl
  | loop => exact other rfl
  | turn => exact other rfl

/-! ## Runs -/

/-- A loop over `sentPacketArray` is in progress. -/
def Looping (m : Threads κ (Server n α) (Place n α)) (s : Fin n) : Prop :=
  ∃ i, (∃ j who, stage (m.place i) = some (s, .releasing j who)) ∨
    ∃ who, stage (m.place i) = some (s, .emptied who)

/-- The account of all packets. -/
structure Accounts (labels : List (κ × Event α)) (m : Threads κ (Server n α) (Place n α)) : Prop where
  counted : ∀ p, m.shared.pool.live p = true → m.shared.pool.refCount p = holders m p
  /-- Nobody holds a packet that the pool has. -/
  live : ∀ p, 0 < holders m p → m.shared.pool.live p = true
  /-- A thread gives back only what is out, and has no holder. -/
  bare : ∀ i p, p ∈ bare (m.place i) → m.shared.pool.live p = true ∧ holders m p = 0
  /-- A packet without a holder has one thread that has it new, or gives it back. -/
  last : ∀ p, m.shared.pool.live p = true → holders m p = 0 →
    ∃! i, p ∈ PacketHolders.bare (m.place i)
  balanced : Balanced labels m
  /-- But for a loop in progress, all first entries of the array count. -/
  whole : ∀ s, ¬ Looping m s → (m.shared.sessions s).released = 0

omit [DecidableEq α] [DecidableEq κ] [Fintype κ] in
theorem released_whole (shaped : ∃ owner, Shape s m owner) (loops : ¬ Looping m s) :
    (m.shared.sessions s).released = 0 := by
  obtain ⟨owner, shape⟩ := shaped
  cases owner with
  | none => exact (shape.idle rfl).released
  | some i =>
    obtain ⟨_, g, here, has⟩ := shape.owned i rfl
    have fits := shape.fits i g here
    cases g with
    | visiting => cases has
    | flagged => exact fits.2.2
    | gathering => exact fits.2.2.1
    | sending => exact fits.2
    | releasing j who => exact absurd ⟨i, .inl ⟨j, who, here⟩⟩ loops
    | emptied who => exact absurd ⟨i, .inr ⟨who, here⟩⟩ loops
    | draining who =>
      cases who with
      | release => exact fits.2
      | accept => exact fits.2.1

omit [DecidableEq κ] in
theorem accounted_last (accounted : Accounted m) {p : α} (live : m.shared.pool.live p = true)
    (none : holders m p = 0) : ∃! i, p ∈ bare (m.place i) := by
  have account := accounted p
  rw [live, none] at account
  obtain ⟨zero, sole⟩ := account
  rw [if_pos (zero.trans Int.natCast_zero)] at sole
  have some : ∃ i, p ∈ bare (m.place i) := by
    by_contra nobody
    push Not at nobody
    have nought := Threads.total_zero (fun place => (bare place).count p) m fun i =>
      List.count_eq_zero.mpr (nobody i)
    omega
  obtain ⟨i, here⟩ := some
  refine ⟨i, here, fun k there => ?_⟩
  by_contra other
  have two := m.add_le_total (fun place => (bare place).count p) other
  have one := List.count_pos_iff.mpr here
  have one' := List.count_pos_iff.mpr there
  omega

/-- Whatever the threads do: `refCount` counts the holders, and every packet goes back to
the pool once for each time it was taken, when the last of them has let go. -/
theorem packets_accounted {refCount : α → Int} {sendFlags : Fin n → Bool}
    {sentPacketArrays : Fin n → Nat → α} {labels : List (κ × Event α)}
    (run : Run Step (start κ refCount sendFlags sentPacketArrays) labels m) : Accounts labels m := by
  have all : (∀ s, ∃ owner, Shape s m owner) ∧ Accounted m ∧ Balanced labels m := run.history
    (P := fun labels m => (∀ s, ∃ owner, Shape s m owner) ∧ Accounted m ∧ Balanced labels m)
    (fun _ _ _ _ before step => ⟨shaped_step before.1 step, accounted_step before.1 before.2.1 step,
      balanced_step before.2.1 before.2.2 step⟩)
    ⟨start_shaped refCount sendFlags sentPacketArrays, start_accounted refCount sendFlags sentPacketArrays,
      fun _ => rfl⟩
  obtain ⟨shaped, accounted, balanced⟩ := all
  exact {
    counted := fun p live => by
      have account := accounted p
      rw [live] at account
      exact account.1
    live := fun p some => by
      cases live : m.shared.pool.live p with
      | true => rfl
      | false =>
        have account := accounted p
        rw [live] at account
        exact absurd account.1 (Nat.pos_iff_ne_zero.mp some)
    bare := fun i p here => by
      obtain ⟨live, zero⟩ := bare_facts accounted here
      have account := accounted p
      rw [live, zero] at account
      exact ⟨live, by have count := account.1; omega⟩
    last := fun p live none => accounted_last accounted live none
    balanced
    whole := fun s loops => released_whole (shaped s) loops }

end Holders

/-- A packet is built and sent to the one session. When the send completes it goes back. -/
theorem packets_accounted_one : ∃ labels m,
    Run Step (start (Fin 1) (fun _ : Fin 1 => 0) (fun _ : Fin 1 => true) fun _ _ => 0) labels m ∧
      taken 0 labels = 1 ∧ returned 0 labels = 1 ∧ Accounts labels m := by
  let events : List (Event (Fin 1)) := [.other, .other, .mAlloc 0, .addRef 0, .other, .addRef 0,
    .other, .other, .subRef 0, .other, .other, .other, .other, .other, .other, .other, .other,
    .subRef 0, .mFree 0, .other, .other, .other, .other]
  have run : ∃ m, Run Step (start (Fin 1) (fun _ : Fin 1 => 0) (fun _ : Fin 1 => true) fun _ _ => 0)
      (events.map (Prod.mk 0)) m := by
    apply Exists.intro
    apply Run.cons (.turn 0 ⟨fun _ => nofun, rfl⟩ (.accept rfl))
    apply Run.cons (.loop 0 (.accepted rfl))
    apply Run.cons (.pool (.build (p := 0) rfl [0] none))
    apply Run.cons (.pool (.created ..))
    apply Run.cons (.send 0 (.found _ _ _ rfl))
    apply Run.cons (.pool (.found ..))
    apply Run.cons (.send 0 (.enqueue ..))
    apply Run.cons (.alone (.built ..))
    apply Run.cons (.pool (.subRef ..))
    apply Run.cons (.send 0 (.call rfl))
    apply Run.cons (.send 0 (.taken rfl))
    apply Run.cons (.send 0 (.some (by decide)))
    apply Run.cons (.send 0 (.dequeue (by decide) rfl))
    apply Run.cons (.send 0 (.empty (by decide) rfl))
    apply Run.cons (.send 0 (.send _))
    apply Run.cons (.send 0 (.completed rfl))
    apply Run.cons (.loop 0 (.entry _ (by decide)))
    apply Run.cons (.pool (.subRef ..))
    apply Run.cons (.pool (.mFree ..))
    apply Run.cons (.loop 0 (.past _ (by decide)))
    apply Run.cons (.loop 0 (.zero ..))
    apply Run.cons (.send 0 (.resetFlag ..))
    apply Run.single (.send 0 (.noMore rfl))
  obtain ⟨m, run⟩ := run
  exact ⟨_, m, run, rfl, rfl, packets_accounted run⟩

end NewNameAuction.PacketHolders
