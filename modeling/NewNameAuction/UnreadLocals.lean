import NewNameAuction.NicknameField

/-! What the locals of a packet procedure hold when the packet does not reach to
the end of its fields. Complete fields are the packet's; a field that is cut short
leaves its local, and the bytes before it for the next one. -/
namespace NewNameAuction
open ByteMemory

theorem extract_short {α : Type} {size : Nat} {packet : Bytes} (short : packet.length < size)
    (decode : Bytes → α) (old : α) : extract size decode old packet = (old, packet) :=
  if_pos short

namespace Store

/-! ## Strings an unread local can hold -/

/-- The nickname field behind a type, if it is whole; nothing otherwise. -/
def heldName (pPacket : Bytes) : List UInt16 := (getNickName [] pPacket).1

section Fields
variable {pPacket : Bytes}

theorem nick_name_whole (whole : 20 ≤ pPacket.length) (old : List UInt16) :
    getNickName old pPacket = (wideChars (pPacket.take 20), pPacket.drop 20) :=
  extract_whole whole wideChars old

theorem nick_name_short (short : pPacket.length < 20) (old : List UInt16) :
    getNickName old pPacket = (old, pPacket) := extract_short short wideChars old

theorem held_whole (whole : 20 ≤ pPacket.length) (old : List UInt16) :
    (getNickName old pPacket).1 = heldName pPacket := by
  rw [heldName, nick_name_whole whole, nick_name_whole whole]

theorem held_short (short : pPacket.length < 20) : heldName pPacket = [] := by
  rw [heldName, nick_name_short short]

theorem whole_of_held (zero : 0 ∈ heldName pPacket) : 20 ≤ pPacket.length := by
  by_contra short
  rw [held_short (Nat.not_le.mp short)] at zero
  cases zero

/-- What is read starts with the field, and is the field where that is terminated. -/
theorem local_held (pPacket : Bytes) (locals : Locals) :
    if 0 ∈ heldName pPacket then
      localString locals (getNickName locals.nickName pPacket).1 = cString (heldName pPacket)
    else heldName pPacket <+: localString locals (getNickName locals.nickName pPacket).1 := by
  split
  · rename_i zero
    rw [held_whole (whole_of_held zero), localString, cString_terminated zero]
  · rename_i plain
    by_cases whole : 20 ≤ pPacket.length
    · rw [held_whole whole, localString, cString_unterminated plain]
      exact List.prefix_append _ _
    · rw [held_short (Nat.not_le.mp whole)]
      exact List.nil_prefix

end Fields

end Store

end NewNameAuction
