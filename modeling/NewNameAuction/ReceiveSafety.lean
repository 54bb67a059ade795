import NewNameAuction.Reassembly
import NewNameAuction.Runs

/-! Posted receives and unread bytes. After the frame loop a connected session holds
at most an incomplete frame, whatever the client has sent, so the ring never comes
near the layout in which `DirectEnqueueSize` is -1. This is about the ring alone: the
block of a packet has no end here, and a payload of 1996 to 2000 bytes overruns it in the
code. -/
namespace NewNameAuction.ReceiveSafety
open ByteMemory RingBuffer

/-- The longest backlog the frame loop leaves to a connected session: one byte less
than the longest frame it accepts. -/
def backlogMax : Int := 2004

/-! ## A session's receives -/

/-- Where a session's receiving stands. -/
inductive Phase
  | receiving (posted : List WsaBuf)
  | looped
  | stopped

structure Receiver where
  session : RecvSession
  phase : Phase

inductive ReceiveEvent
  | completion (memory : Nat → PassMemory) (chunk : Bytes)
  | post (bufs : WsaBuf × WsaBuf)
  | noPost
  | disconnectStep (value : DisconnectStep)

/-- `AcceptThread` posts the first receive with one buffer. -/
def acceptPost (r : RingBuffer) : WsaBuf := ⟨r.getRearBufferPtr, r.directEnqueueSize⟩

def accepted (mem : Memory) : Receiver :=
  ⟨acceptedSession mem, .receiving [acceptPost (acceptedSession mem).recvQueue]⟩

/-- The receive fills its buffers in the order given. -/
def scatter : Memory → List WsaBuf → Bytes → Memory
  | mem, [], _ => mem
  | mem, buf :: bufs, bytes =>
    scatter (store mem buf.buf (bytes.take buf.len.toNat)) bufs (bytes.drop buf.len.toNat)

def posted (bufs : List WsaBuf) : Int := (bufs.map WsaBuf.len).sum

/-- The session when the receive has landed, before the receive branch. -/
def landed (s : RecvSession) (bufs : List WsaBuf) (chunk : Bytes) : RecvSession :=
  { s with recvQueue := { s.recvQueue with mem := scatter s.recvQueue.mem bufs chunk } }

inductive ReceiveStep : Receiver → ReceiveEvent → Receiver → Prop
  | completion {s s' : RecvSession} {bufs : List WsaBuf} (memory : Nat → PassMemory) (chunk : Bytes)
      (transferred : 1 ≤ chunk.length) (fits : chunk.length ≤ posted bufs)
      (branch : recvBranch memory (landed s bufs chunk) chunk.length = some s') :
      ReceiveStep ⟨s, .receiving bufs⟩ (.completion memory chunk) ⟨s', .looped⟩
  | post {s : RecvSession} {bufs : WsaBuf × WsaBuf} (post : recvPost s = some bufs) :
      ReceiveStep ⟨s, .looped⟩ (.post bufs) ⟨s, .receiving [bufs.1, bufs.2]⟩
  | noPost {s : RecvSession} (post : recvPost s = none) :
      ReceiveStep ⟨s, .looped⟩ .noPost ⟨s, .stopped⟩
  /-- Another thread moves `disconnectStep` on. Nothing but a new accept takes it
  back from `SESSION_DISCONNECT`. -/
  | disconnectStep {s : RecvSession} {phase : Phase} (value : DisconnectStep)
      (kept : s.disconnectStep = .disconnect → value = .disconnect) :
      ReceiveStep ⟨s, phase⟩ (.disconnectStep value) ⟨{ s with disconnectStep := value }, phase⟩

/-! ## The backlog the frame loop leaves -/

section Backlog
variable {s : RecvSession}

/-- A session ring in good order. -/
def SessionRing (r : RingBuffer) : Prop := r.InBounds ∧ r.size = recvQueueSize

def Drained (s : RecvSession) : Prop :=
  SessionRing s.recvQueue ∧
    (s.disconnectStep ≠ .disconnect → s.recvQueue.getUseSize ≤ backlogMax)

/-- What a pass of the loop can do: leave for one of its reasons, or take a frame. -/
theorem pass_cases (ring : SessionRing s.recvQueue) (memory : PassMemory) (leftByte : Nat) :
    (leftByte = 0 ∧ recvPass memory ⟨s, leftByte⟩ = .leave s) ∨
      (∃ s', recvPass memory ⟨s, leftByte⟩ = .leave s' ∧ Drained s') ∨
      (∃ (s' : RecvSession) (count : Nat), networkHeaderSize ≤ count ∧ count ≤ s.recvQueue.getUseSize ∧
        count ≤ bufferDefault + networkHeaderSize ∧
        recvPass memory ⟨s, leftByte⟩ = .again ⟨s', (leftByte + 2 ^ 32 - count) % 2 ^ 32⟩ ∧
        SessionRing s'.recvQueue ∧ s'.recvQueue.getUseSize = s.recvQueue.getUseSize - count) := by
  obtain ⟨bounds, sized⟩ := ring
  have use := use_size_eq_length bounds
  simp only [recvPass]
  by_cases none : leftByte = 0
  · exact .inl ⟨none, by rw [if_pos none]⟩
  rw [if_neg none]
  refine .inr ?_
  generalize peekHeader memory.code s.recvQueue = header
  by_cases foreign : header.code ≠ networkCode
  · rw [if_pos foreign]
    exact .inl ⟨_, rfl, ⟨bounds, sized⟩, fun connected => absurd rfl connected⟩
  by_cases long : bufferDefault < header.len
  · rw [if_neg foreign, if_pos long]
    exact .inl ⟨_, rfl, ⟨bounds, sized⟩, fun connected => absurd rfl connected⟩
  by_cases incomplete : s.recvQueue.getUseSize < header.len + networkHeaderSize
  · rw [if_neg foreign, if_neg long, if_pos incomplete]
    refine .inl ⟨_, rfl, ⟨bounds, sized⟩, fun _ => ?_⟩
    simp only [bufferDefault, networkHeaderSize, backlogMax] at *
    omega
  · rw [if_neg foreign, if_neg long, if_neg incomplete]
    obtain ⟨ring, dequeued, ringBounds, ringSize, ringStored⟩ := dequeue_spec bounds
      (show 0 < header.len + networkHeaderSize by simp only [networkHeaderSize]; omega)
      (by omega)
    rw [Int.natCast_add] at dequeued
    rw [dequeued]
    dsimp only
    rw [if_neg (by simp only [networkHeaderSize]; omega), if_neg (by simp [Packet.decode])]
    have ringUse := use_size_eq_length ringBounds
    rw [ringStored, List.length_drop] at ringUse
    refine .inr ⟨_, header.len + networkHeaderSize, by omega, by omega, by omega, rfl,
      ⟨ringBounds, ringSize.trans sized⟩, ?_⟩
    dsimp only
    omega

/-- The loop ends, and leaves a connected session no more than the backlog it had or
an incomplete frame. `leftByte` counts what is stored beyond the old backlog. -/
theorem loop_drains (fuel : Nat) (memory : Nat → PassMemory) (ring : SessionRing s.recvQueue)
    {before : Int} (small : before ≤ backlogMax) (nonneg : 0 ≤ before) {leftByte : Nat}
    (counted : (leftByte : Int) = (s.recvQueue.getUseSize - before) % 2 ^ 32)
    (enough : s.recvQueue.getUseSize.toNat < fuel) :
    ∃ s', recvLoop memory fuel ⟨s, leftByte⟩ = some s' ∧ Drained s' := by
  induction fuel generalizing s memory leftByte with
  | zero => omega
  | succ fuel ih =>
    have use := use_size_bounds ring.1
    have size := ring.2
    simp only [endPos, size, recvQueueSize] at use
    rw [recvLoop]
    rcases pass_cases ring (memory 0) leftByte with ⟨rfl, left⟩ | ⟨s', left, drained⟩ |
      ⟨s', count, least, stored, most, again, ring', use'⟩
    · rw [left]
      refine ⟨s, rfl, ring, fun _ => ?_⟩
      simp only [backlogMax] at *
      omega
    · rw [left]
      exact ⟨s', rfl, drained⟩
    · rw [again]
      simp only [networkHeaderSize, bufferDefault] at least most
      exact ih _ ring' (by omega) (by omega)

end Backlog

/-! ## The regions a receive is posted with -/

def Covers (buf : WsaBuf) (p : Int) : Prop := buf.buf ≤ p ∧ p < buf.buf + buf.len

/-- The two regions are the free space of the ring, and nothing else. -/
structure SafePost (r : RingBuffer) (bufs : WsaBuf × WsaBuf) : Prop where
  direct : 0 ≤ bufs.1.len
  wrapped : 0 ≤ bufs.2.len
  total : bufs.1.len + bufs.2.len = r.getFreeSize
  apart : ∀ p, ¬ (Covers bufs.1 p ∧ Covers bufs.2 p)
  inside : ∀ p, Covers bufs.1 p ∨ Covers bufs.2 p → 1 ≤ p ∧ p ≤ r.endPos
  unread : ∀ i : Nat, i < r.getUseSize →
    ¬ Covers bufs.1 (r.cell i) ∧ ¬ Covers bufs.2 (r.cell i)
  notFull : ¬ (r.front = 0 ∧ r.rear = r.endPos) ∧ r.directEnqueueSize ≠ -1

section Regions
variable {r : RingBuffer} {s : RecvSession} {bufs : WsaBuf × WsaBuf}

theorem free_of_drained (ring : SessionRing r) (drained : r.getUseSize ≤ backlogMax) :
    77000 < r.getFreeSize := by
  have size := ring.2
  simp only [getFreeSize, usableSize, size, recvQueueSize, backlogMax] at *
  split_ifs <;> omega

theorem rear_region_inside (bounds : r.InBounds) :
    1 ≤ r.getRearBufferPtr ∧ r.getRearBufferPtr + r.directEnqueueSize - 1 ≤ r.endPos := by
  have use := use_size_bounds bounds
  obtain ⟨size, front, rear⟩ := bounds
  simp only [directEnqueueSize, getRearBufferPtr, endPos] at *
  split_ifs at * <;> omega

theorem post_eq (post : recvPost s = some bufs) :
    bufs.1 = acceptPost s.recvQueue ∧ bufs.2 = ⟨1,
      if s.recvQueue.directEnqueueSize < s.recvQueue.getFreeSize then
        s.recvQueue.getFreeSize - s.recvQueue.directEnqueueSize else 0⟩ := by
  simp only [recvPost] at post
  split at post
  · cases post
  · rw [← Option.some.inj post]
    exact ⟨rfl, rfl⟩

theorem post_connected (post : recvPost s = some bufs) : s.disconnectStep ≠ .disconnect := by
  intro gone
  rw [recvPost, if_pos gone] at post
  cases post

/-- With room in the ring, a receive is posted for the free space alone. -/
theorem post_safe (bounds : s.recvQueue.InBounds) (room : 0 < s.recvQueue.getFreeSize)
    (post : recvPost s = some bufs) : SafePost s.recvQueue bufs := by
  obtain ⟨first, second⟩ := post_eq post
  have directRange := direct_enqueue_le_free bounds room
  have rearInside := rear_region_inside bounds
  have crossing := begin_region_below bounds room
  have use := use_size_bounds bounds
  have last : s.recvQueue.getFreeSize ≤ s.recvQueue.endPos := by
    simp only [getFreeSize, usableSize, endPos] at *
    split_ifs <;> omega
  obtain ⟨bufs, bufs'⟩ := bufs
  obtain rfl : bufs = acceptPost s.recvQueue := first
  obtain rfl : bufs' = _ := second
  simp only [getBeginPtr] at crossing
  constructor
  case direct => exact directRange.1
  case wrapped =>
    dsimp only
    split_ifs <;> omega
  case total =>
    dsimp only [acceptPost]
    split_ifs <;> omega
  case apart =>
    intro p
    dsimp only [Covers, acceptPost]
    split_ifs with crosses
    · have below := crossing crosses
      omega
    · omega
  case inside =>
    intro p
    dsimp only [Covers, acceptPost]
    split_ifs <;> omega
  case unread =>
    intro i stored
    obtain ⟨aside, above⟩ := cell_stored bounds (i := i) (by omega) room
    simp only [getBeginPtr] at above
    dsimp only [Covers, acceptPost]
    split_ifs <;> omega
  case notFull =>
    refine ⟨fun full => ?_, by omega⟩
    simp only [directEnqueueSize] at directRange
    rw [if_pos (by omega), if_pos full.2] at directRange
    omega

end Regions

/-! ## Runs -/

section Runs
variable {s s' : RecvSession} {x y : Receiver} {bufs : List WsaBuf} {event : ReceiveEvent}

/-- What has been posted takes any chunk that fits to where the ring will look for it. -/
def Fills (r : RingBuffer) (bufs : List WsaBuf) : Prop :=
  posted bufs ≤ r.getFreeSize ∧
    ∀ chunk : Bytes, chunk.length ≤ posted bufs → scatter r.mem bufs chunk = r.appended chunk

structure Sound (x : Receiver) : Prop where
  ring : SessionRing x.session.recvQueue
  receiving : ∀ bufs, x.phase = .receiving bufs →
    x.session.recvQueue.getUseSize ≤ backlogMax ∧ Fills x.session.recvQueue bufs
  looped : x.phase = .looped → Drained x.session

theorem post_fills {both : WsaBuf × WsaBuf} (safe : SafePost s.recvQueue both)
    (post : recvPost s = some both) : Fills s.recvQueue [both.1, both.2] := by
  obtain ⟨first, second⟩ := post_eq post
  have direct := safe.direct
  have wrapped := safe.wrapped
  have total := safe.total
  have sum : posted [both.1, both.2] = both.1.len + both.2.len := by simp [posted]
  refine ⟨by omega, fun chunk fits => ?_⟩
  have rest : (chunk.drop both.1.len.toNat).length ≤ both.2.len.toNat := by
    rw [List.length_drop]
    omega
  rw [scatter, scatter, scatter, List.take_of_length_le rest, first]
  rw [second]
  rfl

theorem accept_fills (mem : Memory) :
    Fills (acceptedSession mem).recvQueue [acceptPost (acceptedSession mem).recvQueue] := by
  have direct : (acceptedSession mem).recvQueue.directEnqueueSize = 80000 := rfl
  have free : (acceptedSession mem).recvQueue.getFreeSize = 80000 := rfl
  have sum : posted [acceptPost (acceptedSession mem).recvQueue] = 80000 := by
    simp [posted, acceptPost, direct]
  refine ⟨by omega, fun chunk fits => ?_⟩
  have none : chunk.drop (80000 : Int).toNat = [] := List.drop_of_length_le (by omega)
  rw [appended, direct, none, store_nil]
  rfl

theorem accepted_sound (mem : Memory) : Sound (accepted mem) where
  ring := ⟨clear_in_bounds (show (2 : Int) ≤ recvQueueSize by decide), rfl⟩
  receiving := by
    intro bufs phase
    obtain rfl := Phase.receiving.inj phase
    exact ⟨show (0 : Int) ≤ backlogMax by decide, accept_fills mem⟩
  looped := fun phase => nomatch phase

/-- The receive branch always ends, and drains the ring of a connected session. -/
theorem branch_drains (sound : Sound ⟨s, .receiving bufs⟩) (memory : Nat → PassMemory)
    {chunk : Bytes} (transferred : 1 ≤ chunk.length) (fits : chunk.length ≤ posted bufs) :
    ∃ s', recvBranch memory (landed s bufs chunk) chunk.length = some s' ∧ Drained s' := by
  obtain ⟨small, room, fills⟩ := sound.receiving bufs rfl
  obtain ⟨bounds, sized⟩ := sound.ring
  dsimp only at small room fills bounds sized
  have use := use_size_bounds bounds
  obtain ⟨moved, size, _, contents⟩ := append_spec bounds transferred (fits.trans room)
  have use' := use_size_eq_length moved
  have before := use_size_eq_length bounds
  rw [contents, List.length_append] at use'
  rw [recvBranch, landed, fills chunk fits]
  have last : _ = (80001 : Int) := size.trans sized
  have range := (use_size_bounds moved).2
  rw [endPos, last] at range
  exact loop_drains _ memory ⟨moved, size.trans sized⟩ small use.1 (by dsimp only; omega)
    (by dsimp only; omega)

theorem step_sound (sound : Sound x) (step : ReceiveStep x event y) : Sound y := by
  cases step with
  | completion memory chunk transferred fits branch =>
    obtain ⟨s', ended, drained⟩ := branch_drains sound memory transferred fits
    obtain rfl := Option.some.inj (ended.symm.trans branch)
    exact ⟨drained.1, fun _ phase => (nomatch phase), fun _ => drained⟩
  | post post =>
    have drained := (sound.looped rfl).2 (post_connected post)
    have room := free_of_drained sound.ring drained
    have safe := post_safe sound.ring.1 (Int.lt_trans (by decide) room) post
    refine ⟨sound.ring, fun bufs phase => ?_, fun phase => nomatch phase⟩
    obtain rfl := Phase.receiving.inj phase
    exact ⟨drained, post_fills safe post⟩
  | noPost _ => exact ⟨sound.ring, fun _ phase => (nomatch phase), fun phase => nomatch phase⟩
  | disconnectStep value kept =>
    refine ⟨sound.ring, sound.receiving, fun phase => ⟨(sound.looped phase).1, fun connected => ?_⟩⟩
    exact (sound.looped phase).2 fun gone => connected (kept gone)

/-- Whatever a client sends, in whatever pieces: every completed receive is worked off,
and every receive posted afterwards is posted for free cells of the ring alone. -/
theorem receives_spare_unread {mem : Memory} {events : List ReceiveEvent}
    (run : Run ReceiveStep (accepted mem) events x) :
    (∀ bufs, x.phase = .receiving bufs → ∀ (memory : Nat → PassMemory) (chunk : Bytes),
      1 ≤ chunk.length → chunk.length ≤ posted bufs →
        ∃ s', recvBranch memory (landed x.session bufs chunk) chunk.length = some s') ∧
    (∀ bufs, x.phase = .looped → recvPost x.session = some bufs →
      SafePost x.session.recvQueue bufs) := by
  have sound := run.invariant (P := Sound) (fun _ _ _ sound step => step_sound sound step)
    (accepted_sound mem)
  constructor
  · intro bufs phase memory chunk transferred fits
    obtain ⟨s, _⟩ := x
    obtain rfl : _ = Phase.receiving bufs := phase
    obtain ⟨s', ended, _⟩ := branch_drains sound memory transferred fits
    exact ⟨s', ended⟩
  · intro bufs phase post
    have drained := (sound.looped phase).2 (post_connected post)
    have room := free_of_drained sound.ring drained
    exact post_safe sound.ring.1 (by omega) post

end Runs

/-- Seven bytes of a frame that announces 200 more. -/
private abbrev incomplete : Bytes := [networkCode, 200, 0, 0, 0, 1, 2]

/-- They stay in the ring, and the next receive is posted for the cells behind them. -/
theorem receives_spare_unread_incomplete :
    let memory : Nat → PassMemory := fun _ => ⟨0, ⟨fun _ => 0, 0, 0, 0, 0, false⟩⟩
    let start := accepted fun _ => 0
    ∃ s, recvBranch memory (landed start.session [acceptPost start.session.recvQueue] incomplete) 7 =
        some s ∧
      s.recvQueue.getUseSize = 7 ∧ s.recvQueue.getFreeSize = 79993 ∧
        ∃ bufs, recvPost s = some bufs ∧ bufs.1.buf = 8 ∧ SafePost s.recvQueue bufs := by
  intro memory start
  have step : ReceiveStep start (.completion memory incomplete) _ :=
    .completion memory incomplete (show 1 ≤ 7 by decide) (show (7 : Int) ≤ 80000 by decide) rfl
  exact ⟨_, rfl, rfl, rfl, _, rfl, rfl, (receives_spare_unread (.single step)).2 _ rfl rfl⟩

end NewNameAuction.ReceiveSafety
