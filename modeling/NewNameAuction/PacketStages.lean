import NewNameAuction.PacketRefs

/-! Who has the sends of a session: a thread in the middle of them, the call of `WSASend`
in flight, or nobody. This decides which entries of `sentPacketArray` count. -/
namespace NewNameAuction.PacketStages
open PacketRefs

/-- What a thread does with a session: it uses it beside others, or has its sends. -/
inductive Stage (α : Type*)
  | visiting
  | flagged
  | gathering (batch : List α)
  | sending
  | releasing (i : Nat) (who : Sent)
  | emptied (who : Sent)
  | draining (who : Drain)

def busy {α : Type*} : Stage α → Bool
  | .visiting => false
  | .flagged | .gathering _ | .sending => true
  | .releasing _ _ | .emptied _ | .draining _ => true

section Stages
variable {n : Nat} {α : Type*}

def stage : Place n α → Option (Fin n × Stage α)
  | .found _ s _ _ | .enqueue _ s _ _ | .takeFlag s | .readMore s => some (s, .visiting)
  | .readCount s | .giveBack s | .resetFlag s => some (s, .flagged)
  | .dequeue s batch => some (s, .gathering batch)
  | .send s => some (s, .sending)
  | .sent s i who => some (s, .releasing i who)
  | .zero s who => some (s, .emptied who)
  | .drain s who => some (s, .draining who)
  | .letGo _ next | .free _ next => stage next
  | .idle | .created _ _ _ | .sending _ _ _ | .received _ | .filled _ | .handOver _ => none
  | .job _ | .packetProc _ => none

theorem session_stage (p : Place n α) : session p = (stage p).map Prod.fst := by
  induction p with
  | letGo _ next ih => exact ih
  | free _ next ih => exact ih
  | _ => rfl

theorem stage_back (job : Option α) : stage (.back job : Place n α) = none := by
  cases job <;> rfl

/-- The first entries of `sentPacketArray`. -/
def entries (x : Session α) : List α := (List.range x.sendPacketCount).map x.sentPacketArray

def Sent.owns (who : Sent) (x : Session α) : Prop :=
  match who with
  | .failed | .completed => x.isValid = true ∧ x.sendFlag = true
  | .released => x.isValid = false

/-- What a thread at a stage knows of the session. -/
def Fits : Stage α → Session α → Prop
  | .visiting, x => x.isValid = true
  | .flagged, x => (x.isValid = true ∧ x.sendFlag = true) ∧ x.sendPacketCount = 0 ∧ x.released = 0
  | .gathering batch, x => (x.isValid = true ∧ x.sendFlag = true) ∧ x.sendPacketCount = 0 ∧
    x.released = 0 ∧ (List.range batch.length).map x.sentPacketArray = batch
  | .sending, x => (x.isValid = true ∧ x.sendFlag = true) ∧ x.released = 0
  | .releasing i who, x => Sent.owns who x ∧ x.released = i ∧ i ≤ x.sendPacketCount
  | .emptied who, x => Sent.owns who x ∧ x.released = x.sendPacketCount
  | .draining .release, x => x.isValid = false ∧ x.released = 0
  | .draining .accept, x => x.isValid = false ∧ x.released = 0 ∧ x.sendPacketCount = 0 ∧
    x.sendFlag = false

/-- A session whose sends no thread has. With `sendFlag` set a call is in flight, or its
completion was an error. -/
structure Idle (x : Session α) : Prop where
  released : x.released = 0
  inFlight : x.inFlight ≤ 1
  none : x.isValid = false ∨ x.sendFlag = false → x.sendPacketCount = 0 ∧ x.inFlight = 0

/-- All that the sends depend on is as before. -/
structure Calm (x x' : Session α) : Prop where
  isValid : x'.isValid = x.isValid
  sendFlag : x'.sendFlag = x.sendFlag
  sentPacketArray : x'.sentPacketArray = x.sentPacketArray
  sendPacketCount : x'.sendPacketCount = x.sendPacketCount
  inFlight : x'.inFlight = x.inFlight
  released : x'.released = x.released

theorem Calm.fits {x x' : Session α} (calm : Calm x x') {g : Stage α} (fits : Fits g x) : Fits g x' := by
  obtain ⟨isValid, sendFlag, array, count, inFlight, released⟩ := calm
  cases g with
  | releasing i who | emptied who =>
    cases who <;> simpa only [Fits, Sent.owns, isValid, sendFlag, count, released] using fits
  | draining who => cases who <;> simpa only [Fits, isValid, sendFlag, count, released] using fits
  | _ => simpa only [Fits, isValid, sendFlag, array, count, released] using fits

theorem Calm.idle {x x' : Session α} (calm : Calm x x') (idle : Idle x) : Idle x' := by
  obtain ⟨isValid, sendFlag, array, count, inFlight, released⟩ := calm
  refine ⟨released.trans idle.released, inFlight.trans_le idle.inFlight, ?_⟩
  rw [isValid, sendFlag, count, inFlight]
  exact idle.none

/-- Whoever has the sends has `sendFlag` set by a thread that uses the session, or has the
session while it is not valid. -/
theorem busy_fits {x : Session α} {g : Stage α} (has : busy g = true) (fits : Fits g x)
    (valid : x.isValid = true) : x.sendFlag = true := by
  cases g with
  | visiting => cases has
  | flagged | gathering | sending => exact fits.1.2
  | releasing i who | emptied who =>
    cases who with
    | failed | completed => exact fits.1.2
    | released =>
      rw [fits.1] at valid
      cases valid
  | draining who =>
    cases who <;>
    · rw [fits.1] at valid
      cases valid

/-! ## Steps -/

/-- What a thread makes of its stage at a session, and of the session. -/
inductive Moves (s : Fin n) (x x' : Session α) : Option (Fin n × Stage α) →
    Option (Fin n × Stage α) → Prop
  | visit {o o' : Option (Fin n × Stage α)} (calm : Calm x x')
      (before : o = none ∨ o = some (s, .visiting))
      (after : o' = none ∨ o' = some (s, .visiting) ∧ (o = o' ∨ x.isValid = true)) :
      Moves s x x' o o'
  | take (free : x.sendFlag = false) (took : x' = { x with sendFlag := true }) :
      Moves s x x' (some (s, .visiting)) (some (s, .flagged))
  | complete {others : Nat} (inFlight : x.inFlight = others + 1)
      (took : x' = { x with inFlight := others }) :
      Moves s x x' none (some (s, .releasing 0 .completed))
  | fail {others : Nat} (inFlight : x.inFlight = others + 1)
      (took : x' = { x with inFlight := others }) : Moves s x x' none none
  | go {g g' : Stage α} (has : busy g = true) (has' : busy g' = true)
      (fits : Fits g x → Fits g' x') (inFlight : x'.inFlight = x.inFlight)
      (isValid : x'.isValid = x.isValid) : Moves s x x' (some (s, g)) (some (s, g'))
  | quit {g : Stage α} {o' : Option (Fin n × Stage α)} (has : busy g = true)
      (idle : Fits g x → x.inFlight = 0 → Idle x')
      (isValid : x.isValid = true → x'.isValid = true)
      (after : o' = none ∨ o' = some (s, .visiting) ∧ (Fits g x → x'.isValid = true)) :
      Moves s x x' (some (s, g)) o'

variable {s : Fin n} {x x' : Session α} {p p' : Place n α}

theorem Calm.refl (x : Session α) : Calm x x := ⟨rfl, rfl, rfl, rfl, rfl, rfl⟩

theorem range_update {batch : List α} {array : Nat → α} (p : α)
    (filled : (List.range batch.length).map array = batch) :
    (List.range (batch ++ [p]).length).map (Function.update array batch.length p) = batch ++ [p] := by
  rw [List.length_append, List.length_singleton, List.range_succ, List.map_append,
    List.map_singleton, Function.update_self]
  congr 1
  refine Eq.trans (List.map_congr_left fun i member => ?_) filled
  exact Function.update_of_ne (Nat.ne_of_lt (List.mem_range.mp member)) ..

theorem send_moves (step : SendStep s x p x' p') : Moves s x x' (stage p) (stage p') := by
  cases step with
  | found p targets job valid => exact .visit (.refl x) (.inl rfl) (.inr ⟨rfl, .inr valid⟩)
  | enqueue p targets job => exact .visit ⟨rfl, rfl, rfl, rfl, rfl, rfl⟩ (.inr rfl) (.inl rfl)
  | call valid => exact .visit (.refl x) (.inl rfl) (.inr ⟨rfl, .inr valid⟩)
  | taken free => exact .take free rfl
  | busy held => exact .visit ⟨rfl, held.symm, rfl, rfl, rfl, rfl⟩ (.inr rfl) (.inl rfl)
  | disconnected | none => exact .go rfl rfl id rfl rfl
  | some more => exact .go rfl rfl (fun fits => ⟨fits.1, fits.2.1, fits.2.2, rfl⟩) rfl rfl
  | dequeue room queue =>
    exact .go rfl rfl (fun fits => ⟨fits.1, fits.2.1, fits.2.2.1, range_update _ fits.2.2.2⟩) rfl rfl
  | empty | full => exact .go rfl rfl (fun fits => ⟨fits.1, fits.2.2.1⟩) rfl rfl
  | send =>
    refine .quit rfl (fun fits none => ⟨fits.2, ?_, fun unset => ?_⟩) id (.inl rfl)
    · dsimp only
      omega
    · rcases unset with invalid | clear
      · rw [fits.1.1] at invalid
        cases invalid
      · rw [fits.1.2] at clear
        cases clear
  | sendFails => exact .go rfl rfl (fun fits => ⟨fits.1, fits.2, Nat.zero_le _⟩) rfl rfl
  | giveBack =>
    exact .quit rfl (fun fits none => ⟨fits.2.2, none.trans_le (Nat.zero_le 1), fun _ => ⟨fits.2.1, none⟩⟩)
      id (.inl rfl)
  | completed inFlight => exact .complete inFlight rfl
  | completedFails inFlight => exact .fail inFlight rfl
  | resetFlag =>
    exact .quit rfl (fun fits none => ⟨fits.2.2, none.trans_le (Nat.zero_le 1), fun _ => ⟨fits.2.1, none⟩⟩)
      id (.inr ⟨rfl, fun fits => fits.1.1⟩)
  | noMore => exact .visit (.refl x) (.inr rfl) (.inl rfl)
  | more => exact .visit (.refl x) (.inr rfl) (.inr ⟨rfl, .inl rfl⟩)

theorem loop_moves (step : LoopStep s x p x' p') : Moves s x x' (stage p) (stage p') := by
  cases step with
  | @entry i who more =>
    refine .go rfl rfl (fun fits => ⟨?_, rfl, more⟩) rfl rfl
    cases who <;> exact fits.1
  | @past i who past =>
    refine .go rfl rfl (fun fits => ⟨fits.1, ?_⟩) rfl rfl
    obtain ⟨_, released, bound⟩ := fits
    omega
  | zero who =>
    cases who with
    | failed | completed => exact .go rfl rfl (fun fits => ⟨fits.1, rfl, rfl⟩) rfl rfl
    | released =>
      exact .quit rfl (fun _ none => ⟨rfl, none.trans_le (Nat.zero_le 1), fun _ => ⟨rfl, none⟩⟩)
        id (.inl rfl)
  | drain who queue => exact .go rfl rfl (fun fits => by cases who <;> exact fits) rfl rfl
  | released => exact .go rfl rfl (fun fits => ⟨fits.1, fits.2, Nat.zero_le _⟩) rfl rfl
  | accepted =>
    exact .quit rfl (fun fits none => ⟨fits.2.1, none.trans_le (Nat.zero_le 1),
      fun _ => ⟨fits.2.2.1, none⟩⟩) (fun _ => rfl) (.inl rfl)

theorem turn_stage (step : TurnStep s x p x' p') : stage p = none ∧
    ∃ who, stage p' = some (s, .draining who) ∧ (Idle x → Fits (.draining who) x') ∧
      x'.inFlight = x.inFlight := by
  cases step with
  | release valid => exact ⟨rfl, .release, rfl, fun idle => ⟨rfl, idle.released⟩, rfl⟩
  | accept invalid =>
    exact ⟨rfl, .accept, rfl, fun idle => ⟨invalid, idle.released, (idle.none (.inl invalid)).1, rfl⟩, rfl⟩

/-! ## The sends of a session -/

section Shape
variable {κ : Type*} {m : Threads κ (Server n α) (Place n α)} {owner : Option κ}

/-- One thread at most has the sends of a session, and every thread knows the session. -/
structure Shape (s : Fin n) (m : Threads κ (Server n α) (Place n α)) (owner : Option κ) : Prop where
  busy : ∀ i g, stage (m.place i) = some (s, g) → PacketStages.busy g = true → owner = some i
  fits : ∀ i g, stage (m.place i) = some (s, g) → Fits g (m.shared.sessions s)
  idle : owner = none → Idle (m.shared.sessions s)
  owned : ∀ i, owner = some i → (m.shared.sessions s).inFlight = 0 ∧
    ∃ g, stage (m.place i) = some (s, g) ∧ PacketStages.busy g = true

theorem shape_move [DecidableEq κ] {i : κ} {w : Server n α} {owner' : Option κ}
    (self : ∀ g, stage p = some (s, g) →
      (PacketStages.busy g = true → owner' = some i) ∧ Fits g (w.sessions s))
    (others : ∀ k, k ≠ i → ∀ g, stage (m.place k) = some (s, g) →
      (PacketStages.busy g = true → owner' = some k) ∧ Fits g (w.sessions s))
    (idle : owner' = none → Idle (w.sessions s))
    (owned : ∀ k, owner' = some k → (w.sessions s).inFlight = 0 ∧
      ∃ g, stage ((m.move i w p).place k) = some (s, g) ∧ PacketStages.busy g = true) :
    Shape s (m.move i w p) owner' := by
  have both : ∀ k g, stage ((m.move i w p).place k) = some (s, g) →
      (PacketStages.busy g = true → owner' = some k) ∧ Fits g (w.sessions s) := by
    intro k g here
    by_cases same : k = i
    · subst same
      rw [Threads.place_move_self] at here
      exact self g here
    · rw [Threads.place_move_other _ _ _ _ same] at here
      exact others k same g here
  exact ⟨fun k g here => (both k g here).1, fun k g here => (both k g here).2, idle, owned⟩

/-- A thread that has not the sends leaves them with whoever has them. -/
theorem shape_visit [DecidableEq κ] (shape : Shape s m owner) {i : κ} {w : Server n α}
    (calm : Calm (m.shared.sessions s) (w.sessions s))
    (before : ∀ g, stage (m.place i) = some (s, g) → PacketStages.busy g = false)
    (after : ∀ g, stage p = some (s, g) → PacketStages.busy g = false ∧ Fits g (m.shared.sessions s)) :
    Shape s (m.move i w p) owner := by
  refine shape_move (fun g here => ⟨fun has => ?_, calm.fits (after g here).2⟩)
    (fun k _ g here => ⟨shape.busy k g here, calm.fits (shape.fits k g here)⟩)
    (fun none => calm.idle (shape.idle none)) (fun k owns => ?_)
  · rw [(after g here).1] at has
    cases has
  · obtain ⟨none, g, here, has⟩ := shape.owned k owns
    refine ⟨calm.inFlight.trans none, g, ?_, has⟩
    rwa [Threads.place_move_other]
    rintro rfl
    rw [before g here] at has
    cases has

/-- Whoever else is at the session uses it beside the owner. -/
theorem shape_others (shape : Shape s m owner) {i k : κ} (owns : owner = some i) (other : k ≠ i)
    {g : Stage α} (here : stage (m.place k) = some (s, g)) :
    g = .visiting ∧ (m.shared.sessions s).isValid = true := by
  have none : PacketStages.busy g = false := by
    cases has : PacketStages.busy g with
    | false => rfl
    | true => exact absurd (Option.some.inj ((shape.busy k g here has).symm.trans owns)) other
  have fits := shape.fits k g here
  cases g <;> first | exact ⟨rfl, fits⟩ | cases none

/-- A thread takes the sends of a session that nobody has. -/
theorem shape_take [DecidableEq κ] (shape : Shape s m none) {i : κ} {w : Server n α} {g : Stage α}
    (after : stage p = some (s, g)) (has : PacketStages.busy g = true) (fits : Fits g (w.sessions s))
    (valid : (∃ k, k ≠ i ∧ stage (m.place k) = some (s, .visiting)) → (w.sessions s).isValid = true)
    (none : (w.sessions s).inFlight = 0) : Shape s (m.move i w p) (some i) := by
  refine shape_move (fun g' here => ⟨fun _ => rfl, ?_⟩) (fun k other g' here => ?_)
    (fun owns => (nomatch owns)) (fun k owns => ?_)
  · rw [after] at here
    obtain ⟨_, rfl⟩ := Prod.mk.inj (Option.some.inj here)
    exact fits
  · have free : PacketStages.busy g' = false := by
      cases has' : PacketStages.busy g' with
      | false => rfl
      | true => cases shape.busy k g' here has'
    cases g' with
    | visiting => exact ⟨fun has' => (nomatch has'), valid ⟨k, other, here⟩⟩
    | _ => cases free
  · obtain rfl := Option.some.inj owns
    exact ⟨none, g, by rwa [Threads.place_move_self], has⟩

/-- Nobody has the sends of a session whose last send is not completed. -/
theorem shape_unowned (shape : Shape s m owner) {others : Nat}
    (inFlight : (m.shared.sessions s).inFlight = others + 1) :
    owner = none ∧ others = 0 ∧ (m.shared.sessions s).isValid = true ∧
      (m.shared.sessions s).sendFlag = true ∧ (m.shared.sessions s).released = 0 := by
  cases owner with
  | some k => exact absurd (shape.owned k rfl).1 (by omega)
  | none =>
    have idle := shape.idle rfl
    have one := idle.inFlight
    have set : ¬((m.shared.sessions s).isValid = false ∨ (m.shared.sessions s).sendFlag = false) :=
      fun unset => absurd (idle.none unset).2 (by omega)
    rw [not_or, Bool.not_eq_false, Bool.not_eq_false] at set
    exact ⟨rfl, by omega, set.1, set.2, idle.released⟩

section Moving
variable [DecidableEq κ] {i : κ} {w : Server n α} {g g' : Stage α}

/-- A thread that is at the session, or comes to it, beside whoever has the sends. -/
theorem shape_visits {o o' : Option (Fin n × Stage α)} (shape : Shape s m owner)
    (before : stage (m.place i) = o) (after : stage p = o')
    (calm : Calm (m.shared.sessions s) (w.sessions s)) (was : o = none ∨ o = some (s, .visiting))
    (becomes : o' = none ∨
      o' = some (s, .visiting) ∧ (o = o' ∨ (m.shared.sessions s).isValid = true)) :
    Shape s (m.move i w p) owner := by
  refine shape_visit shape calm (fun g here => ?_) (fun g here => ?_)
  · rcases was with rfl | rfl
    · rw [before] at here
      cases here
    · rw [before] at here
      obtain ⟨_, rfl⟩ := Prod.mk.inj (Option.some.inj here)
      rfl
  · rcases becomes with rfl | ⟨rfl, valid⟩
    · rw [after] at here
      cases here
    · rw [after] at here
      obtain ⟨_, rfl⟩ := Prod.mk.inj (Option.some.inj here)
      refine ⟨rfl, ?_⟩
      rcases valid with rfl | valid
      · exact shape.fits i .visiting before
      · exact valid

/-- Whoever sets the free flag has the sends. -/
theorem shape_flag (shape : Shape s m owner) (before : stage (m.place i) = some (s, .visiting))
    (after : stage p = some (s, .flagged)) (free : (m.shared.sessions s).sendFlag = false)
    (took : w.sessions s = { m.shared.sessions s with sendFlag := true }) :
    Shape s (m.move i w p) (some i) := by
  have valid := shape.fits i .visiting before
  cases owner with
  | some k =>
    obtain ⟨_, g, here, has⟩ := shape.owned k rfl
    rw [busy_fits has (shape.fits k g here) valid] at free
    cases free
  | none =>
    obtain ⟨count, none⟩ := (shape.idle rfl).none (.inr free)
    refine shape_take shape after rfl ?_ (fun _ => ?_) ?_
    · rw [took]
      exact ⟨⟨valid, rfl⟩, count, (shape.idle rfl).released⟩
    · rw [took]
      exact valid
    · rw [took]
      exact none

/-- So has whoever gets the completion of the send. -/
theorem shape_complete (shape : Shape s m owner) {others : Nat}
    (after : stage p = some (s, .releasing 0 .completed))
    (inFlight : (m.shared.sessions s).inFlight = others + 1)
    (took : w.sessions s = { m.shared.sessions s with inFlight := others }) :
    Shape s (m.move i w p) (some i) := by
  obtain ⟨rfl, none, valid, held, released⟩ := shape_unowned shape inFlight
  refine shape_take shape after rfl ?_ (fun _ => ?_) ?_
  · rw [took]
    exact ⟨⟨valid, held⟩, released, Nat.zero_le _⟩
  · rw [took]
    exact valid
  · rw [took]
    exact none

/-- A completion that fails leaves the session to nobody. -/
theorem shape_fail (shape : Shape s m owner) {others : Nat} (after : stage p = none)
    (inFlight : (m.shared.sessions s).inFlight = others + 1)
    (took : w.sessions s = { m.shared.sessions s with inFlight := others }) :
    Shape s (m.move i w p) none := by
  obtain ⟨rfl, none, valid, held, released⟩ := shape_unowned shape inFlight
  refine shape_move (fun g here => ?_) (fun k _ g here => ⟨shape.busy k g here, ?_⟩) (fun _ => ?_)
    (fun k owns => (nomatch owns))
  · rw [after] at here
    cases here
  · have fits := shape.fits k g here
    rw [took]
    cases g with
    | releasing _ who | emptied who => cases who <;> exact fits
    | draining who => cases who <;> exact fits
    | _ => exact fits
  · rw [took]
    refine ⟨released, none.trans_le (Nat.zero_le 1), fun unset => ?_⟩
    rcases unset with invalid | clear
    · cases valid.symm.trans invalid
    · cases held.symm.trans clear

/-- Whoever has the sends goes on with them. -/
theorem shape_go (shape : Shape s m owner) (before : stage (m.place i) = some (s, g))
    (after : stage p = some (s, g')) (has : PacketStages.busy g = true)
    (has' : PacketStages.busy g' = true)
    (fits : Fits g (m.shared.sessions s) → Fits g' (w.sessions s))
    (inFlight : (w.sessions s).inFlight = (m.shared.sessions s).inFlight)
    (isValid : (w.sessions s).isValid = (m.shared.sessions s).isValid) :
    Shape s (m.move i w p) owner := by
  have owns := shape.busy i g before has
  have none := (shape.owned i owns).1
  refine shape_move (fun h here => ⟨fun _ => owns, ?_⟩) (fun k other h here => ?_)
    (fun none' => ?_) (fun k owns' => ?_)
  · rw [after] at here
    obtain ⟨_, rfl⟩ := Prod.mk.inj (Option.some.inj here)
    exact fits (shape.fits i g before)
  · obtain ⟨rfl, valid⟩ := shape_others shape owns other here
    exact ⟨fun has => (nomatch has), isValid.trans valid⟩
  · rw [owns] at none'
    cases none'
  · rw [owns] at owns'
    obtain rfl := Option.some.inj owns'
    exact ⟨inFlight.trans none, g', by rwa [Threads.place_move_self], has'⟩

/-- Whoever has the sends leaves the session idle. -/
theorem shape_quit {o' : Option (Fin n × Stage α)} (shape : Shape s m owner)
    (before : stage (m.place i) = some (s, g)) (after : stage p = o')
    (has : PacketStages.busy g = true)
    (idle : Fits g (m.shared.sessions s) → (m.shared.sessions s).inFlight = 0 → Idle (w.sessions s))
    (isValid : (m.shared.sessions s).isValid = true → (w.sessions s).isValid = true)
    (becomes : o' = none ∨ o' = some (s, .visiting) ∧
      (Fits g (m.shared.sessions s) → (w.sessions s).isValid = true)) :
    Shape s (m.move i w p) none := by
  have owns := shape.busy i g before has
  have none := (shape.owned i owns).1
  have mine := shape.fits i g before
  refine shape_move (fun h here => ?_) (fun k other h here => ?_) (fun _ => idle mine none)
    (fun k owns => (nomatch owns))
  · rw [after] at here
    rcases becomes with rfl | ⟨rfl, valid⟩
    · cases here
    · obtain ⟨_, rfl⟩ := Prod.mk.inj (Option.some.inj here)
      exact ⟨fun has => (nomatch has), valid mine⟩
  · obtain ⟨rfl, valid⟩ := shape_others shape owns other here
    exact ⟨fun has => (nomatch has), isValid valid⟩

theorem shape_moves (shape : Shape s m owner)
    (moves : Moves s (m.shared.sessions s) (w.sessions s) (stage (m.place i)) (stage p)) :
    ∃ owner', Shape s (m.move i w p) owner' := by
  generalize before : stage (m.place i) = o at moves
  generalize after : stage p = o' at moves
  cases moves with
  | visit calm was becomes => exact ⟨owner, shape_visits shape before after calm was becomes⟩
  | take free took => exact ⟨_, shape_flag shape before after free took⟩
  | complete inFlight took => exact ⟨_, shape_complete shape after inFlight took⟩
  | fail inFlight took => exact ⟨_, shape_fail shape after inFlight took⟩
  | go has has' fits inFlight isValid =>
    exact ⟨owner, shape_go shape before after has has' fits inFlight isValid⟩
  | quit has idle isValid becomes =>
    exact ⟨_, shape_quit shape before after has idle isValid becomes⟩

end Moving

/-- `releaseSession` and `AcceptThread` come to a session at which nobody is. -/
theorem shape_turn [DecidableEq κ] (shape : Shape s m owner) {i : κ} {w : Server n α}
    (quiet : Quiet m s) (step : TurnStep s (m.shared.sessions s) (m.place i) (w.sessions s) p) :
    ∃ owner', Shape s (m.move i w p) owner' := by
  obtain ⟨away, none⟩ := quiet
  have nobody (k : κ) (g : Stage α) : stage (m.place k) ≠ some (s, g) := by
    intro here
    refine away k ?_
    rw [session_stage, here]
    rfl
  obtain ⟨_, who, after, fits, inFlight⟩ := turn_stage step
  cases owner with
  | some k =>
    obtain ⟨_, g, here, _⟩ := shape.owned k rfl
    exact absurd here (nobody k g)
  | none =>
    exact ⟨some i, shape_take shape after rfl (fits (shape.idle rfl))
      (fun ⟨k, _, here⟩ => absurd here (nobody k _)) (inFlight.trans none)⟩

/-- A step that is not at the session, or only leaves it, keeps it in shape. -/
theorem shape_apart [DecidableEq κ] (shape : Shape s m owner) {i : κ} {w : Server n α}
    (same : w.sessions s = m.shared.sessions s)
    (keeps : stage p = stage (m.place i) ∨ (∀ g, stage p ≠ some (s, g)) ∧
      ∀ g, stage (m.place i) = some (s, g) → PacketStages.busy g = false) :
    Shape s (m.move i w p) owner := by
  refine shape_move (fun g here => ?_) (fun k _ g here => ?_) (fun none => ?_) (fun k owns => ?_)
  · rcases keeps with stays | ⟨leaves, _⟩
    · rw [same]
      exact ⟨shape.busy i g (stays.symm.trans here), shape.fits i g (stays.symm.trans here)⟩
    · exact absurd here (leaves g)
  · rw [same]
    exact ⟨shape.busy k g here, shape.fits k g here⟩
  · rw [same]
    exact shape.idle none
  · obtain ⟨none, g, here, has⟩ := shape.owned k owns
    refine ⟨by rw [same]; exact none, g, ?_, has⟩
    by_cases self : k = i
    · subst self
      rw [Threads.place_move_self]
      rcases keeps with stays | ⟨_, free⟩
      · exact stays.trans here
      · rw [free g here] at has
        cases has
    · rwa [Threads.place_move_other _ _ _ _ self]

end Shape

/-! ## Runs -/

/-- A thread is at the session of its step, before and after. -/
theorem moves_apart {other : Fin n} {o o' : Option (Fin n × Stage α)} (moves : Moves s x x' o o')
    (differs : other ≠ s) : (∀ g, o' ≠ some (other, g)) ∧ ∀ g, o ≠ some (other, g) := by
  have away (g g' : Stage α) : some (s, g') ≠ some (other, g) := fun same =>
    differs (Prod.mk.inj (Option.some.inj same)).1.symm
  cases moves with
  | visit _ before after =>
    refine ⟨fun g => ?_, fun g => ?_⟩
    · rcases after with rfl | ⟨rfl, _⟩
      · exact nofun
      · exact away _ _
    · rcases before with rfl | rfl
      · exact nofun
      · exact away _ _
  | take | go => exact ⟨fun g => away _ _, fun g => away _ _⟩
  | complete => exact ⟨fun g => away _ _, nofun⟩
  | fail => exact ⟨nofun, nofun⟩
  | quit _ _ _ after =>
    refine ⟨fun g => ?_, fun g => away _ _⟩
    rcases after with rfl | ⟨rfl, _⟩
    · exact nofun
    · exact away _ _

theorem local_stage (step : LocalStep p p') :
    stage p' = stage p ∨ stage p' = none ∧ ∃ s, stage p = some (s, .visiting) := by
  cases step with
  | disconnected p s => exact .inr ⟨rfl, s, rfl⟩
  | built p job => exact .inl (stage_back job)
  | _ => exact .inl rfl

theorem job_stage {jobQueue jobQueue' : List α} (step : JobStep jobQueue p jobQueue' p') :
    stage p' = stage p := by
  cases step <;> rfl

theorem pool_stage [DecidableEq α] {pool pool' : Pool α} {event : Event α}
    (step : PoolStep pool p event pool' p') : stage p' = stage p := by
  cases step with
  | build free targets job => exact (stage_back job).symm
  | subRef p next => split <;> rfl
  | _ => rfl

section Steps
variable {κ : Type*} {m m' : Threads κ (Server n α) (Place n α)} {label : κ × Event α}

theorem start_shaped (refCount : α → Int) (sendFlags : Fin n → Bool)
    (sentPacketArrays : Fin n → Nat → α) (s : Fin n) :
    ∃ owner, Shape s (start κ refCount sendFlags sentPacketArrays) owner :=
  ⟨none, fun _ _ here => (nomatch here), fun _ _ here => (nomatch here),
    fun _ => ⟨rfl, Nat.zero_le 1, fun _ => ⟨rfl, rfl⟩⟩, fun _ owns => (nomatch owns)⟩

variable [DecidableEq κ]

/-- A step at one session. -/
theorem shaped_session (shaped : ∀ s, ∃ owner, Shape s m owner) {i : κ}
    (here : ∃ owner', Shape s (m.move i { m.shared with
      sessions := Function.update m.shared.sessions s x } p) owner')
    (apart : ∀ other, other ≠ s → (∀ g, stage p ≠ some (other, g)) ∧
      ∀ g, stage (m.place i) ≠ some (other, g)) (other : Fin n) :
    ∃ owner, Shape other (m.move i { m.shared with
      sessions := Function.update m.shared.sessions s x } p) owner := by
  by_cases same : other = s
  · subst same
    exact here
  · obtain ⟨owner, shape⟩ := shaped other
    obtain ⟨after, before⟩ := apart other same
    exact ⟨owner, shape_apart shape (Function.update_of_ne same ..)
      (.inr ⟨after, fun g at' => absurd at' (before g)⟩)⟩

theorem shaped_step [DecidableEq α] (shaped : ∀ s, ∃ owner, Shape s m owner) (step : Step m label m') (s : Fin n) :
    ∃ owner, Shape s m' owner := by
  cases step with
  | pool step =>
    obtain ⟨owner, shape⟩ := shaped s
    exact ⟨owner, shape_apart shape rfl (.inl (pool_stage step))⟩
  | alone step =>
    obtain ⟨owner, shape⟩ := shaped s
    refine ⟨owner, shape_apart shape rfl ?_⟩
    rcases local_stage step with stays | ⟨leaves, t, before⟩
    · exact .inl stays
    · refine .inr ⟨fun g here => ?_, fun g here => ?_⟩
      · rw [leaves] at here
        cases here
      · rw [before] at here
        obtain ⟨_, rfl⟩ := Prod.mk.inj (Option.some.inj here)
        rfl
  | job step =>
    obtain ⟨owner, shape⟩ := shaped s
    exact ⟨owner, shape_apart shape rfl (.inl (job_stage step))⟩
  | send t step =>
    obtain ⟨owner, shape⟩ := shaped t
    exact shaped_session shaped (shape_moves shape (by
      dsimp only
      rw [Function.update_self]
      exact send_moves step)) (fun other => moves_apart (send_moves step)) s
  | loop t step =>
    obtain ⟨owner, shape⟩ := shaped t
    exact shaped_session shaped (shape_moves shape (by
      dsimp only
      rw [Function.update_self]
      exact loop_moves step)) (fun other => moves_apart (loop_moves step)) s
  | turn t quiet step =>
    obtain ⟨owner, shape⟩ := shaped t
    obtain ⟨before, who, after, _⟩ := turn_stage step
    refine shaped_session shaped (shape_turn shape quiet (by
      dsimp only
      rw [Function.update_self]
      exact step)) (fun other differs => ⟨fun g here => ?_, fun g here => ?_⟩) s
    · rw [after] at here
      exact differs (Prod.mk.inj (Option.some.inj here)).1.symm
    · rw [before] at here
      cases here

end Steps

end Stages

end NewNameAuction.PacketStages
