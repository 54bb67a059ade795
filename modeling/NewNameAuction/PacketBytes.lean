import NewNameAuction.UnreadLocals

/-! What a packet's outcome depends on. The type word and the fields of a packet
are read into locals that keep what they held when bytes are missing: the type of
the packet before, and memory nobody wrote. Two threads that agree on the store
and on the packet are compared under any two contents of those. -/
namespace NewNameAuction
open ByteMemory

/-- The packets and database jobs among some effects. -/
def sent (effects : List Effect) : List Effect :=
  effects.filter fun
    | .disconnect _ => false
    | _ => true

namespace Store

/-! ## Two threads -/

section Outcome
variable (s : Store) (env : JobEnv) (sessionID : Int64) (payload : Bytes)

/-- What a thread whose locals held these values makes of a packet: the store, and
the packets and database jobs it hands out. -/
def outcome (packetType : UInt16) (locals : Locals) : Except Fault (Store × List Effect) :=
  ((s.withType packetType).runJob { env with locals } (.onRecv sessionID payload)).map
    fun after => (after.1.withType 0, sent after.2)

/-- The type word of a payload that has one. -/
def typeOf : UInt16 := (getWord 0 payload).1

/-- Players, auctions, slots and waiting sale requests are as before. -/
structure Idle (s s' : Store) : Prop where
  players : s'.playerList = s.playerList
  book : s'.toAuctionBook = s.toAuctionBook
  slots : s'.ownList = s.ownList
  waiting : s'.waitingDataList = s.waitingDataList

end Outcome

section Procedures
variable (block : DBCheckJob) (s : Store) (pPlayer : Player) (pPacket : Bytes) (sessionID : Int64)

end Procedures

section Judged
variable {block : DBCheckJob} {s : Store} {pPlayer : Player} {pPacket : Bytes} {sessionID : Int64}

/-- Slots are answered alike where each name is. -/
theorem slot_replies_congr {t : Store} {pPlayer' : Player}
    (each : ∀ wstr, t.slotReply pPlayer' wstr = s.slotReply pPlayer wstr) (count : Nat)
    (names : List WString) : t.slotReplies pPlayer' count names = s.slotReplies pPlayer count names := by
  fun_induction slotReplies s pPlayer count names with
  | case1 names => rw [slotReplies]
  | case2 count => rfl
  | case3 count wstr rest ih => rw [slotReplies, ih, each]

section Informed
variable {accountNo : Int64} {point : Int32} {nickName : WString} {found : Player}

end Informed

section Short
variable {locals : Locals} {t : Store} {effects : List Effect}

end Short

end Judged

section Packet
variable {s : Store} {env : JobEnv} {sessionID : Int64} {pPlayer : Player} {payload : Bytes}

end Packet

/-! ## Packets of a player who just joined -/

end Store

end NewNameAuction
