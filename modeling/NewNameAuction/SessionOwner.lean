import NewNameAuction.SessionLife
import Mathlib.Data.Fintype.Option

/-! Who has a slot: the stack, one thread that takes a session down or sets the next one
up, or the session. This holds in every run, whatever numbers the sessions have. -/
namespace NewNameAuction.SessionOwner
open SessionSlot (delflagOff delflagOn)
open SessionLife

/-! ## Counts -/

/-- The counts of `IOcount` that a thread answers for. -/
def refs : Place → Nat
  | .findFlag _ | .findID _ | .findFailed => 1
  | .found _ | .unposted | .leave => 1
  | .posting => 2
  | .working => 1
  | .starting => 2
  | .reopen _ | .relet _ => 1
  | .acceptValid | .acceptFlag | .acceptJoin | .acceptRecv => 1
  | .idle | .findValid _ | .findEnter _ | .zero | .finished => 0
  | .releaseValid _ | .releaseCount _ | .releaseFlag _ _ | .releaseID _ | .releaseCheck _ _ => 0
  | .reenter _ | .clean _ | .leaving _ | .push | .acceptID | .acceptEnter => 0

/-- A thread in `AcceptThread`. -/
def accepting : Place → Bool
  | .acceptID | .acceptEnter | .acceptValid | .acceptFlag | .acceptJoin | .acceptRecv => true
  | _ => false

section Counted
variable {κ : Type*} {m m' : Threads (Option κ) Slot Place} {i : Option κ} {s s' : Slot}
  {p p' : Place} {event : Event}

/-- `IOcount` is what the threads and the completions answer for, and no test compares a
negative count. -/
structure Counted [Fintype κ] (m : Threads (Option κ) Slot Place) : Prop where
  sum : m.shared.ioCount = m.total refs + m.shared.pending
  tests : ∀ i id tempCount, m.place i = .releaseFlag id tempCount → 0 ≤ tempCount
  acceptor : m.place none = .idle ∨ accepting (m.place none) = true
  servers : ∀ j, accepting (m.place (some j)) = false

theorem refs_step (step : SlotStep i s p event s' p') :
    s'.ioCount + refs p + s.pending = s.ioCount + refs p' + s'.pending := by
  cases step with
  | accept step =>
    cases step with
    | recv =>
      simp [refs]
      omega
    | _ => simp [refs]
  | serve j step =>
    rcases step with step | step | step | step <;> cases step <;> (try split) <;> simp_all [refs] <;>
      omega

/-- A test compares the count that was read. -/
theorem tests_step (step : SlotStep i s p event s' p') (count : 0 ≤ s.ioCount) :
    ∀ id tempCount, p' = .releaseFlag id tempCount → 0 ≤ tempCount := by
  cases step with
  | accept step => cases step <;> simp
  | serve j step =>
    rcases step with step | step | step | step <;> cases step <;> (try split) <;> simp_all

theorem sides_step (step : SlotStep i s p event s' p') :
    (i = none → p' = .idle ∨ accepting p' = true) ∧ (i ≠ none → accepting p' = false) := by
  cases step with
  | accept step => cases step <;> simp [accepting]
  | serve j step =>
    rcases step with step | step | step | step <;> cases step <;> (try split) <;> simp [accepting]

theorem Counted.count [Fintype κ] (counted : Counted m) : 0 ≤ m.shared.ioCount := by
  rw [counted.sum]
  omega

theorem counted_step [Fintype κ] [DecidableEq κ] {label : Option κ × Event} (counted : Counted m)
    (step : Step m label m') : Counted m' := by
  obtain ⟨i, event⟩ := label
  obtain ⟨s, p, step, rfl⟩ := step
  obtain ⟨acceptor, servers⟩ := sides_step step
  refine ⟨?_, Threads.place_move_all m i (Q := fun p => ∀ id tempCount,
    p = .releaseFlag id tempCount → 0 ≤ tempCount) s p (tests_step step counted.count)
    fun j _ => counted.tests j, ?_, ?_⟩
  · have sum := counted.sum
    have refs := refs_step step
    have total := m.total_move i s p SessionOwner.refs
    change s.ioCount = ((m.move i s p).total SessionOwner.refs : Int) + s.pending
    dsimp only at refs
    omega
  · by_cases self : i = none
    · subst self
      rw [Threads.place_move_self]
      exact acceptor rfl
    · rw [Threads.place_move_other _ _ _ _ (Ne.symm self)]
      exact counted.acceptor
  · intro j
    by_cases self : some j = i
    · subst self
      rw [Threads.place_move_self]
      exact servers (Option.some_ne_none j)
    · rw [Threads.place_move_other _ _ _ _ self]
      exact counted.servers j

end Counted

/-! ## The owner -/

/-- A thread that has set `releaseFlag` and not given it back, or that has taken the index
and not yet cleared `releaseFlag`. -/
def turning : Place → Bool
  | .releaseID _ | .releaseCheck _ _ | .reenter _ | .reopen _ => true
  | .clean _ | .leaving _ | .push => true
  | .acceptID | .acceptEnter | .acceptValid | .acceptFlag => true
  | _ => false

/-- A thread that has brought `IOcount` to 0, or that is in `releaseSession`. -/
def releasing : Place → Bool
  | .zero | .unposted | .finished => true
  | .releaseValid _ | .releaseCount _ | .releaseFlag _ _ => true
  | .releaseID _ | .releaseCheck _ _ | .reenter _ | .reopen _ | .relet _ => true
  | .clean _ | .leaving _ | .push => true
  | .idle | .findValid _ | .findEnter _ | .findFlag _ | .findID _ | .findFailed => false
  | .found _ | .posting | .leave | .working | .starting => false
  | .acceptID | .acceptEnter | .acceptValid | .acceptFlag | .acceptJoin | .acceptRecv => false

/-- A thread that has not got past `isValid`. -/
def outside : Place → Bool
  | .idle | .findValid _ => true
  | .findEnter _ | .findFlag _ | .findID _ | .findFailed => false
  | .found _ | .posting | .unposted | .leave | .zero | .working | .starting | .finished => false
  | .releaseValid _ | .releaseCount _ | .releaseFlag _ _ | .releaseID _ | .releaseCheck _ _ => false
  | .reenter _ | .reopen _ | .relet _ | .clean _ | .leaving _ | .push => false
  | .acceptID | .acceptEnter | .acceptValid | .acceptFlag | .acceptJoin | .acceptRecv => false

/-- `AcceptThread` after it has cleared `releaseFlag`. -/
def late : Place → Bool
  | .acceptJoin | .acceptRecv => true
  | _ => false

inductive Owner (ι : Type*)
  | stack
  | thread (i : ι)
  | session

section Custody
variable {κ : Type*}

/-- As `Start` leaves it, `releaseFlag` is clear though no session has the slot. Nobody
tests it before there is one. -/
structure Primal (m : Threads (Option κ) Slot Place) : Prop where
  releasing : ∀ i, releasing (m.place i) = false
  requests : m.shared.requests = 0
  pending : m.shared.isValid = false → m.shared.pending = 0
  outside : m.shared.isValid = false → ∀ j, outside (m.place (some j)) = true
  early : late (m.place none) = false

def Shut (m : Threads (Option κ) Slot Place) : Prop :=
  m.shared.releaseFlag = delflagOn ∨ m.shared.releaseFlag = delflagOff ∧ Primal m

/-- The slot while a thread turns it over. -/
def Turned (m : Threads (Option κ) Slot Place) : Place → Prop
  | .releaseID _ | .releaseCheck _ _ | .reenter _ | .reopen _ | .clean _ =>
    m.shared.isValid = true ∧ m.shared.releaseFlag = delflagOn
  | .leaving _ | .push => m.shared.isValid = false ∧ m.shared.releaseFlag = delflagOn
  | .acceptID | .acceptEnter | .acceptValid => m.shared.isValid = false ∧ Shut m
  | .acceptFlag => m.shared.isValid = true ∧ Shut m
  | _ => False

def Owned (m : Threads (Option κ) Slot Place) : Owner (Option κ) → Prop
  | .stack => m.shared.free = 1 ∧ m.shared.isValid = false ∧ Shut m
  | .thread i => m.shared.free = 0 ∧ Turned m (m.place i)
  | .session => m.shared.free = 0 ∧ m.shared.isValid = true ∧ m.shared.releaseFlag = delflagOff

structure Custody (m : Threads (Option κ) Slot Place) (owner : Owner (Option κ)) : Prop where
  turning : ∀ i, turning (m.place i) = true → owner = .thread i
  owned : Owned m owner

end Custody

section ServeSteps
variable {s s' : Slot} {p p' : Place} {event : Event}

/-- What decides who has the slot does not change. -/
structure Same (s s' : Slot) : Prop where
  sessionID : s'.sessionID = s.sessionID
  isValid : s'.isValid = s.isValid
  releaseFlag : s'.releaseFlag = s.releaseFlag
  free : s'.free = s.free
  ids : s'.ids = s.ids

/-- A thread that does not turn the slot over sets `releaseFlag`, or leaves all as it is. -/
theorem serve_step (step : ServeStep s p event s' p') (aside : turning p = false) :
    (∃ id, p = .releaseFlag id s.releaseFlag ∧ s' = { s with releaseFlag := delflagOn } ∧
      p' = .releaseID id) ∨
    (Same s s' ∧ turning p' = false ∧ (event = .other ∨ event = .unrequested)) := by
  rcases step with step | step | step | step
  · cases step <;> (try split) <;> exact .inr ⟨⟨rfl, rfl, rfl, rfl, rfl⟩, rfl, .inl rfl⟩
  · cases step <;> (try split) <;>
      first
        | exact .inr ⟨⟨rfl, rfl, rfl, rfl, rfl⟩, rfl, .inl rfl⟩
        | exact .inr ⟨⟨rfl, rfl, rfl, rfl, rfl⟩, rfl, .inr rfl⟩
  · cases step <;> (try split) <;> exact .inr ⟨⟨rfl, rfl, rfl, rfl, rfl⟩, rfl, .inl rfl⟩
  · cases step with
    | exchanged id equal => exact .inl ⟨id, by rw [equal], rfl, rfl⟩
    | relet tempID => split <;> exact .inr ⟨⟨rfl, rfl, rfl, rfl, rfl⟩, rfl, .inl rfl⟩
    | invalid | valid | count | differs =>
      exact .inr ⟨⟨rfl, rfl, rfl, rfl, rfl⟩, rfl, .inl rfl⟩
    | _ => cases aside

/-- Only `releaseSession` turns a slot over. -/
theorem turning_step (step : ServeStep s p event s' p') (turns : turning p = true) :
    ReleaseStep s p event s' p' := by
  rcases step with step | step | step | step
  · cases step <;> cases turns
  · cases step <;> cases turns
  · cases step <;> cases turns
  · exact step

/-- Before the first session, a step of a sender or worker starts no release. -/
theorem primal_local (step : ServeStep s p event s' p') (before : releasing p = false)
    (requests : s.requests = 0) (outside' : s.isValid = false → s.pending = 0 ∧ outside p = true)
    (many : s.isValid = true → 0 < refs p → 2 ≤ s.ioCount) :
    releasing p' = false ∧ s'.requests = 0 ∧ s'.isValid = s.isValid ∧
      (s.isValid = false → s'.pending = 0 ∧ outside p' = true) := by
  have valid (within : outside p = false) : s.isValid = true := by
    cases set : s.isValid with
    | true => rfl
    | false => exact absurd (outside' set).2 (by rw [within]; decide)
  have more (within : outside p = false) (holds : 0 < refs p) : s.ioCount - 1 ≠ 0 := by
    have two := many (valid within) holds
    omega
  rcases step with step | step | step | step
  · cases step with
    | failed => simp_all [releasing, outside, refs]
    | _ => simp_all [releasing, outside]
  · cases step with
    | dismiss _ | unposted | leave => simp_all [releasing, outside, refs]
    | _ => simp_all [releasing, outside]
  · cases step with
    | finish => simp_all [releasing, outside, refs]
    | _ => simp_all [releasing, outside]
  · cases step <;> cases before

end ServeSteps

section CustodySteps
variable {κ : Type*} {m : Threads (Option κ) Slot Place} {owner : Owner (Option κ)}

theorem turned_shut {p : Place} (turned : Turned m p) : Shut m := by
  cases p <;> first | exact .inl turned.2 | exact turned.2 | exact turned.elim

theorem turned_turning {p : Place} (turned : Turned m p) : turning p = true := by
  cases p <;> first | rfl | exact turned.elim

/-- A slot whose flag is tested clear belongs to a session. -/
theorem tested_session (owned : Owned m owner) {i : Option κ} (here : releasing (m.place i) = true)
    (clear : m.shared.releaseFlag ≠ delflagOn) : owner = .session := by
  have open' : ¬ Shut m := by
    rintro (on | ⟨_, primal⟩)
    · exact clear on
    · exact absurd here (by rw [primal.releasing i]; decide)
  cases owner with
  | stack => exact absurd owned.2.2 open'
  | thread j => exact absurd (turned_shut owned.2) open'
  | session => rfl

variable [DecidableEq κ] {i : Option κ} {s : Slot} {p : Place} {event : Event}
  {owner' : Owner (Option κ)}

theorem custody_move (custody : Custody m owner) (self : turning p = true → owner' = .thread i)
    (others : ∀ k, k ≠ i → owner = .thread k → owner' = .thread k)
    (owned : Owned (m.move i s p) owner') : Custody (m.move i s p) owner' := by
  refine ⟨fun k turns => ?_, owned⟩
  by_cases same : k = i
  · subst same
    rw [Threads.place_move_self] at turns
    exact self turns
  · rw [Threads.place_move_other _ _ _ _ same] at turns
    exact others k same (custody.turning k turns)

theorem primal_serve [Fintype κ] (counted : Counted m) (primal : Primal m) {j : κ}
    (acceptor : m.shared.isValid = true → 0 < refs (m.place none))
    (step : ServeStep m.shared (m.place (some j)) event s p) : Primal (m.move (some j) s p) := by
  have many (valid : m.shared.isValid = true) (holds : 0 < refs (m.place (some j))) :
      2 ≤ m.shared.ioCount := by
    have sum := counted.sum
    have two := m.add_le_total refs (Option.some_ne_none j).symm
    have one := acceptor valid
    omega
  obtain ⟨quiet, requests, valid, away⟩ := primal_local step (primal.releasing _) primal.requests
    (fun invalid => ⟨primal.pending invalid, primal.outside invalid j⟩) many
  refine ⟨Threads.place_move_all m (some j) (Q := fun p => releasing p = false) s p quiet
    fun k _ => primal.releasing k, requests, fun invalid => (away (valid ▸ invalid)).1,
    fun invalid k => ?_, ?_⟩
  · have before : m.shared.isValid = false := valid ▸ invalid
    by_cases self : k = j
    · rw [self, Threads.place_move_self]
      exact (away before).2
    · rw [Threads.place_move_other _ _ _ _ fun same => self (Option.some.inj same)]
      exact primal.outside before k
  · rw [Threads.place_move_other _ _ _ _ (Option.some_ne_none j).symm]
    exact primal.early

/-- `AcceptThread`, up to the write of `isValid`, leaves the others as they are. -/
theorem primal_accept (primal : Primal m) (quiet : releasing p = false) (early : late p = false)
    (requests : s.requests = m.shared.requests)
    (invalid : s.isValid = false → m.shared.isValid = false ∧ s.pending = m.shared.pending) :
    Primal (m.move none s p) := by
  refine ⟨Threads.place_move_all m none (Q := fun p => releasing p = false) s p quiet
    fun k _ => primal.releasing k, requests.trans primal.requests, fun unset => ?_,
    fun unset k => ?_, ?_⟩
  · obtain ⟨before, pending⟩ := invalid unset
    exact pending.trans (primal.pending before)
  · rw [Threads.place_move_other _ _ _ _ (Option.some_ne_none k)]
    exact primal.outside (invalid unset).1 k
  · rwa [Threads.place_move_self]

/-- Where the slot is not open to tests, it stays so under a step that changes nothing. -/
theorem shut_serve [Fintype κ] (counted : Counted m) (shut : Shut m) {j : κ}
    (acceptor : m.shared.isValid = true → 0 < refs (m.place none))
    (step : ServeStep m.shared (m.place (some j)) event s p) (same : Same m.shared s) :
    Shut (m.move (some j) s p) := by
  rcases shut with on | ⟨off, primal⟩
  · exact .inl (same.releaseFlag.trans on)
  · exact .inr ⟨same.releaseFlag.trans off, primal_serve counted primal acceptor step⟩

theorem owned_serve [Fintype κ] (counted : Counted m) (owned : Owned m owner) {j : κ}
    (aside : turning (m.place (some j)) = false)
    (step : ServeStep m.shared (m.place (some j)) event s p) (same : Same m.shared s) :
    Owned (m.move (some j) s p) owner := by
  have shut := fun shut acceptor => shut_serve counted shut acceptor step same
  cases owner with
  | stack =>
    obtain ⟨free, invalid, closed⟩ := owned
    refine ⟨same.free.trans free, same.isValid.trans invalid, shut closed fun valid => ?_⟩
    rw [invalid] at valid
    cases valid
  | session =>
    obtain ⟨free, valid, off⟩ := owned
    exact ⟨same.free.trans free, same.isValid.trans valid, same.releaseFlag.trans off⟩
  | thread i =>
    obtain ⟨free, turned⟩ := owned
    have other : i ≠ some j := by
      rintro rfl
      exact absurd (turned_turning turned) (by rw [aside]; decide)
    refine ⟨same.free.trans free, ?_⟩
    rw [Threads.place_move_other _ _ _ _ other]
    generalize here : m.place i = place at turned
    have acceptor (within : accepting place = true) : i = none := by
      cases i with
      | none => rfl
      | some k => exact absurd within (by rw [← here, counted.servers k]; decide)
    cases place with
    | releaseID | releaseCheck | reenter | reopen | clean | leaving | push =>
      exact ⟨same.isValid.trans turned.1, same.releaseFlag.trans turned.2⟩
    | acceptID | acceptEnter | acceptValid =>
      refine ⟨same.isValid.trans turned.1, shut turned.2 fun valid => ?_⟩
      rw [turned.1] at valid
      cases valid
    | acceptFlag =>
      refine ⟨same.isValid.trans turned.1, shut turned.2 fun _ => ?_⟩
      rw [acceptor rfl] at here
      rw [here]
      exact Nat.one_pos
    | _ => exact turned.elim

theorem custody_serve [Fintype κ] (counted : Counted m) (custody : Custody m owner) {j : κ}
    (step : ServeStep m.shared (m.place (some j)) event s p) :
    ∃ owner', Custody (m.move (some j) s p) owner' := by
  by_cases turns : turning (m.place (some j)) = true
  · have release := turning_step step turns
    have mine := custody.turning _ turns
    have others {owner' : Owner (Option κ)} (k : Option κ) (other : k ≠ some j)
        (his : owner = .thread k) : owner' = .thread k := by
      rw [mine] at his
      exact absurd (Owner.thread.inj his).symm other
    have owned := custody.owned
    rw [mine] at owned
    obtain ⟨free, turned⟩ := owned
    have here : ((m.move (some j) s p).place (some j)) = p := Threads.place_move_self ..
    generalize m.place (some j) = place at release turns turned
    cases release with
    | invalid | valid | count | differs | exchanged | relet => cases turns
    | read | other | reenter =>
      refine ⟨.thread (some j), custody_move custody (fun _ => rfl) others ⟨free, ?_⟩⟩
      rw [here]
      exact turned
    | reopen =>
      exact ⟨.session, custody_move custody (fun turns => (nomatch turns)) others
        ⟨free, turned.1, rfl⟩⟩
    | same =>
      refine ⟨.thread (some j), custody_move custody (fun _ => rfl) others ⟨free, ?_⟩⟩
      rw [here]
      exact turned
    | clean =>
      refine ⟨.thread (some j), custody_move custody (fun _ => rfl) others ⟨free, ?_⟩⟩
      rw [here]
      exact ⟨rfl, turned.2⟩
    | leaving =>
      refine ⟨.thread (some j), custody_move custody (fun _ => rfl) others ⟨free, ?_⟩⟩
      rw [here]
      exact turned
    | push =>
      exact ⟨.stack, custody_move custody (fun turns => (nomatch turns)) others
        ⟨congrArg (· + 1) free, turned.1, .inl turned.2⟩⟩
  · have aside := Bool.not_eq_true _ ▸ turns
    rcases serve_step step aside with ⟨id, here, rfl, rfl⟩ | ⟨same, quiet, _⟩
    · have clear : m.shared.releaseFlag ≠ delflagOn := by
        have count := counted.tests _ _ _ here
        intro on
        rw [on] at count
        exact absurd count (by decide)
      obtain rfl := tested_session custody.owned (i := some j) (by rw [here]; rfl) clear
      obtain ⟨free, valid, off⟩ := custody.owned
      refine ⟨.thread (some j), custody_move custody (fun _ => rfl)
        (fun _ _ his => (nomatch his)) ⟨free, ?_⟩⟩
      rw [Threads.place_move_self]
      exact ⟨valid, rfl⟩
    · refine ⟨owner, custody_move custody (fun turns => ?_) (fun _ _ his => his)
        (owned_serve counted custody.owned aside step same)⟩
      rw [quiet] at turns
      cases turns

theorem shut_accept (shut : Shut m) (flag : s.releaseFlag = m.shared.releaseFlag)
    (quiet : releasing p = false) (early : late p = false) (requests : s.requests = m.shared.requests)
    (invalid : s.isValid = false → m.shared.isValid = false ∧ s.pending = m.shared.pending) :
    Shut (m.move none s p) := by
  rcases shut with on | ⟨off, primal⟩
  · exact .inl (flag.trans on)
  · exact .inr ⟨flag.trans off, primal_accept primal quiet early requests invalid⟩

/-- What `AcceptThread` does after it has cleared `releaseFlag` is not about the owner. -/
theorem owned_late (owned : Owned m owner) (within : late (m.place none) = true)
    (same : s.free = m.shared.free ∧ s.isValid = m.shared.isValid ∧
      s.releaseFlag = m.shared.releaseFlag) : Owned (m.move none s p) owner := by
  obtain ⟨free, valid, flag⟩ := same
  have shut (shut : Shut m) : Shut (m.move none s p) := by
    rcases shut with on | ⟨_, primal⟩
    · exact .inl (flag.trans on)
    · exact absurd within (by rw [primal.early]; decide)
  cases owner with
  | stack => exact ⟨free.trans owned.1, valid.trans owned.2.1, shut owned.2.2⟩
  | session => exact ⟨free.trans owned.1, valid.trans owned.2.1, flag.trans owned.2.2⟩
  | thread i =>
    obtain ⟨unfree, turned⟩ := owned
    have other : i ≠ none := by
      rintro rfl
      generalize m.place none = place at within turned
      cases place <;> first | exact turned.elim | cases within
    refine ⟨free.trans unfree, ?_⟩
    rw [Threads.place_move_other _ _ _ _ other]
    generalize m.place i = place at turned
    cases place with
    | releaseID | releaseCheck | reenter | reopen | clean | leaving | push =>
      exact ⟨valid.trans turned.1, flag.trans turned.2⟩
    | acceptID | acceptEnter | acceptValid | acceptFlag =>
      exact ⟨valid.trans turned.1, shut turned.2⟩
    | _ => exact turned.elim

theorem custody_accept (custody : Custody m owner)
    (step : AcceptStep m.shared (m.place none) event s p) :
    ∃ owner', Custody (m.move none s p) owner' := by
  have self : ((m.move none s p).place none) = p := Threads.place_move_self ..
  generalize here : m.place none = place at step
  have mine (turns : turning place = true) : owner = .thread none :=
    custody.turning none (here ▸ turns)
  have others (turns : turning place = true) {owner' : Owner (Option κ)} (k : Option κ)
      (other : k ≠ none) (his : owner = .thread k) : owner' = .thread k := by
    rw [mine turns] at his
    exact absurd (Owner.thread.inj his).symm other
  have turned (turns : turning place = true) : m.shared.free = 0 ∧ Turned m place := by
    have owned := custody.owned
    rw [mine turns] at owned
    exact here ▸ owned
  have kept (within : late place = true) (still : turning p = false)
      (same : s.free = m.shared.free ∧ s.isValid = m.shared.isValid ∧
        s.releaseFlag = m.shared.releaseFlag) : ∃ owner', Custody (m.move none s p) owner' := by
    refine ⟨owner, custody_move custody (fun turns => ?_) (fun _ _ his => his)
      (owned_late custody.owned (here ▸ within) same)⟩
    rw [still] at turns
    cases turns
  cases step with
  | pop free =>
    have stack : owner = .stack := by
      have owned := custody.owned
      cases owner with
      | stack => rfl
      | thread _ => exact absurd (free.symm.trans owned.1) (Nat.succ_ne_zero _)
      | session => exact absurd (free.symm.trans owned.1) (Nat.succ_ne_zero _)
    subst stack
    obtain ⟨one, invalid, shut⟩ := custody.owned
    refine ⟨.thread none, custody_move custody (fun _ => rfl) (fun _ _ his => (nomatch his))
      ⟨Nat.succ.inj (free.symm.trans one), ?_⟩⟩
    rw [self]
    exact ⟨invalid, shut_accept shut rfl rfl rfl rfl fun unset => ⟨unset, rfl⟩⟩
  | sessionID id =>
    obtain ⟨free, invalid, shut⟩ := turned rfl
    refine ⟨.thread none, custody_move custody (fun _ => rfl) (others rfl) ⟨free, ?_⟩⟩
    rw [self]
    exact ⟨invalid, shut_accept shut rfl rfl rfl rfl fun unset => ⟨unset, rfl⟩⟩
  | enter =>
    obtain ⟨free, invalid, shut⟩ := turned rfl
    refine ⟨.thread none, custody_move custody (fun _ => rfl) (others rfl) ⟨free, ?_⟩⟩
    rw [self]
    exact ⟨invalid, shut_accept shut rfl rfl rfl rfl fun unset => ⟨unset, rfl⟩⟩
  | valid =>
    obtain ⟨free, invalid, shut⟩ := turned rfl
    refine ⟨.thread none, custody_move custody (fun _ => rfl) (others rfl) ⟨free, ?_⟩⟩
    rw [self]
    exact ⟨rfl, shut_accept shut rfl rfl rfl rfl fun unset => (nomatch unset)⟩
  | flag =>
    obtain ⟨free, valid, shut⟩ := turned rfl
    exact ⟨.session, custody_move custody (fun turns => (nomatch turns)) (others rfl)
      ⟨free, valid, rfl⟩⟩
  | join => exact kept rfl rfl ⟨rfl, rfl, rfl⟩
  | recv => exact kept rfl rfl ⟨rfl, rfl, rfl⟩
  | recvFailed => exact kept rfl rfl ⟨rfl, rfl, rfl⟩

end CustodySteps

section Runs
variable {κ : Type*} [Fintype κ] [DecidableEq κ] {labels : List (Option κ × Event)}
  {m m' : Threads (Option κ) Slot Place}

/-- The counts are right, and the slot has one owner. -/
def Kept (m : Threads (Option κ) Slot Place) : Prop := Counted m ∧ ∃ owner, Custody m owner

omit [DecidableEq κ] in
theorem start_kept (sessionID : Int64) : Kept (start κ sessionID) := by
  refine ⟨⟨?_, fun _ _ _ here => (nomatch here), .inl rfl, fun _ => rfl⟩, .stack,
    ⟨fun _ turns => (nomatch turns), rfl, rfl, .inr ⟨rfl, fun _ => rfl, rfl, fun _ => rfl,
      fun _ _ => rfl, rfl⟩⟩⟩
  rw [Threads.total_zero refs _ fun _ => rfl]
  rfl

theorem kept_step {label : Option κ × Event} (kept : Kept m) (step : Step m label m') :
    Kept m' := by
  obtain ⟨counted, owner, custody⟩ := kept
  refine ⟨counted_step counted step, ?_⟩
  obtain ⟨i, event⟩ := label
  obtain ⟨s, p, step, rfl⟩ := step
  cases step with
  | accept step => exact custody_accept custody step
  | serve j step => exact custody_serve counted custody step

theorem run_kept {sessionID : Int64} (run : Run Step (start κ sessionID) labels m) : Kept m :=
  run.invariant (fun _ _ _ kept step => kept_step kept step) (start_kept sessionID)

end Runs

end NewNameAuction.SessionOwner
