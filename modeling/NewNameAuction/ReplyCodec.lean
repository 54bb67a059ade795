import NewNameAuction.DatabaseRequests
import NewNameAuction.NicknameField
import NewNameAuction.RequestCodec
import NewNameAuction.Settlement

/-! The messages to the clients, which the server builds and never parses. A client has
`CommonProtocol.h` to read them by: the stream falls apart at its headers, and every message
says what was meant, except that `RES_EXPIRE` has the status of the record where a code of
its own is documented, and that `RES_SEARCH` tells the end of a closing auction where 0 is
documented. -/
namespace NewNameAuction.ReplyCodec
open ByteMemory RequestCodec
open DatabaseRequests (JobItem DBEffect dbAccess)

/-! ## The values of the enumerations -/

def registerCode : RegisterFlag → Int8
  | .success => 0
  | .failSold => 1
  | .failServerSlot => 2
  | .failUserSlot => 3

def changeCode : ChangeFlag → Int8
  | .success => 0
  | .fail => 1

def statusCode : AuctionStatus → Int8
  | .sale => 0
  | .imminent => 1
  | .fin => 2
  | .finFail => 3

def itsMineCode : ItsMine → Int8
  | .mine => 0
  | .others => 1

def bidderCode : Bidder → Int8
  | .me => 0
  | .other => 1

/-! ## The builders -/

section Builders
variable (block : Packet) (nickName : List UInt16)

def sendPacketResSale (flag : Int8) : Packet :=
  ((newPacket block).insert (wordBytes 2)).insert (int8Bytes flag)

def sendPacketResSearch (itsMine bidder status : Int8) (price : Int32) (endTime : Int64) : Packet :=
  (((((((newPacket block).insert (wordBytes 4)).putData (nameBytes nickName)).insert
    (int8Bytes itsMine)).insert (int8Bytes bidder)).insert (int8Bytes status)).insert
      (int32Bytes price)).insert (int64Bytes endTime)

/-- Both overloads: to one session and to a `CSessionSet`. -/
def sendPacketResBid (bidder : Int8) (price : Int32) : Packet :=
  ((((newPacket block).insert (wordBytes 6)).putData (nameBytes nickName)).insert
    (int8Bytes bidder)).insert (int32Bytes price)

def sendPacketResExpire (status : Int8) : Packet :=
  (((newPacket block).insert (wordBytes 7)).putData (nameBytes nickName)).insert (int8Bytes status)

def sendPacketResChangeNickname (status : Int8) : Packet :=
  ((newPacket block).insert (wordBytes 9)).insert (int8Bytes status)

end Builders

/-- The nickname of a message that has one. -/
def nickNameOf : Reply → Option WString
  | .resSale _ => none
  | .resSearch nickName _ _ _ _ _ => some nickName
  | .resBid nickName _ _ => some nickName
  | .resExpire nickName _ => some nickName
  | .resChangeNickname _ => none

def typeOf : Reply → UInt16
  | .resSale _ => 2
  | .resSearch _ _ _ _ _ _ => 4
  | .resBid _ _ _ => 6
  | .resExpire _ _ => 7
  | .resChangeNickname _ => 9

/-- A message on its way out: the block of the pool it is built in, and the ten `WCHAR`s
with its nickname. What stands behind the terminator is sent along. -/
structure Sending where
  block : Packet
  reply : Reply
  nickName : List UInt16
  buffer : nickName.length = nicknameMaxLength
  spelled : ∀ name ∈ nickNameOf reply, cString nickName = name

namespace Sending

def build (x : Sending) : Packet :=
  match x.reply with
  | .resSale flag => sendPacketResSale x.block (registerCode flag)
  | .resSearch _ itsMine bidder status price endTime =>
    sendPacketResSearch x.block x.nickName (itsMineCode itsMine) (bidderCode bidder)
      (statusCode status) price endTime
  | .resBid _ bidder price => sendPacketResBid x.block x.nickName (bidderCode bidder) price
  | .resExpire _ status => sendPacketResExpire x.block x.nickName (statusCode status)
  | .resChangeNickname flag => sendPacketResChangeNickname x.block (changeCode flag)

/-- The fields, in the order they are put into the packet. -/
def fields (x : Sending) : List Bytes :=
  match x.reply with
  | .resSale flag => [int8Bytes (registerCode flag)]
  | .resSearch _ itsMine bidder status price endTime =>
    [nameBytes x.nickName, int8Bytes (itsMineCode itsMine), int8Bytes (bidderCode bidder),
      int8Bytes (statusCode status), int32Bytes price, int64Bytes endTime]
  | .resBid _ bidder price => [nameBytes x.nickName, int8Bytes (bidderCode bidder), int32Bytes price]
  | .resExpire _ status => [nameBytes x.nickName, int8Bytes (statusCode status)]
  | .resChangeNickname flag => [int8Bytes (changeCode flag)]

def payload (x : Sending) : Bytes := wordBytes (typeOf x.reply) ++ x.fields.flatten

end Sending

/-- What the socket is given for some messages, one after the other. -/
def stream (sendings : List Sending) : Bytes := (sendings.map fun x => sentFrame x.build).flatten

/-! ## A client -/

/-- A stream as the payloads behind its headers. -/
def payloads : Nat → Bytes → Option (List Bytes)
  | _, [] => some []
  | 0, _ :: _ => none
  | turns + 1, first :: rest =>
    let header := Header.ofBytes (first :: rest)
    let arrived := (first :: rest).drop networkHeaderSize
    if header.code ≠ networkCode ∨ header.len = 0 ∨ arrived.length < header.len then none
    else (payloads turns (arrived.drop header.len)).map fun later => arrived.take header.len :: later

/-- What the messages are documented to say. -/
inductive Told
  | sale (flag : RegisterFlag)
  | search (nickName : WString) (itsMine : ItsMine) (bidder : Bidder) (status : AuctionStatus)
      (price : Int32) (endTime : Int64)
  | bid (nickName : WString) (bidder : Bidder) (price : Int32)
  | expire (nickName : WString) (sold : Bool)
  | changeNickname (flag : ChangeFlag)
  deriving DecidableEq

section Reader
variable (fields : Bytes)

/-- 0: done, 1: sold before, 2: no slot of the server, 3: no slot of the seller. -/
def readResSale : Option Told :=
  let (flag, rest) := getInt8 0 fields
  if fields.length ≠ 1 ∨ rest ≠ [] then none
  else (([(0, .success), (1, .failSold), (2, .failServerSlot), (3, .failUserSlot)] :
    List (Int8 × RegisterFlag)).lookup flag).map .sale

/-- 0: mine, 1: another's. -/
def itsMines : List (Int8 × ItsMine) := [(0, .mine), (1, .others)]

def bidders : List (Int8 × Bidder) := [(0, .me), (1, .other)]

/-- 0: on sale, 1: closing, 2: sold, 3: failed. -/
def statuses : List (Int8 × AuctionStatus) := [(0, .sale), (1, .imminent), (2, .fin), (3, .finFail)]

/-- The end of an auction that is closing is kept back: its `EndTime` is 0. -/
def readResSearch : Option Told :=
  let (nickName, rest) := getNickName [] fields
  let (itsMine, rest) := getInt8 0 rest
  let (bidder, rest) := getInt8 0 rest
  let (status, rest) := getInt8 0 rest
  let (price, rest) := getInt32 0 rest
  let (endTime, _) := getInt64 0 rest
  if fields.length ≠ 35 then none
  else do
    let itsMine ← itsMines.lookup itsMine
    let bidder ← bidders.lookup bidder
    let status ← statuses.lookup status
    if status = .imminent ∧ endTime ≠ 0 then none
    else some (.search (cString nickName) itsMine bidder status price endTime)

def readResBid : Option Told :=
  let (nickName, rest) := getNickName [] fields
  let (bidder, rest) := getInt8 0 rest
  let (price, _) := getInt32 0 rest
  if fields.length ≠ 25 then none
  else (bidders.lookup bidder).map fun bidder => .bid (cString nickName) bidder price

/-- 1: sold, 2: failed. -/
def readResExpire : Option Told :=
  let (nickName, rest) := getNickName [] fields
  let (status, _) := getInt8 0 rest
  if fields.length ≠ 21 then none
  else (([(1, true), (2, false)] : List (Int8 × Bool)).lookup status).map fun sold =>
    .expire (cString nickName) sold

/-- 0: done, 1: failed. -/
def readResChangeNickname : Option Told :=
  let (status, _) := getInt8 0 fields
  if fields.length ≠ 1 then none
  else (([(0, .success), (1, .fail)] : List (Int8 × ChangeFlag)).lookup status).map .changeNickname

/-- A payload, by its type. -/
def readPayload (payload : Bytes) : Option Told :=
  let (packetType, fields) := getWord 0 payload
  if packetType = 2 then readResSale fields
  else if packetType = 4 then readResSearch fields
  else if packetType = 6 then readResBid fields
  else if packetType = 7 then readResExpire fields
  else if packetType = 9 then readResChangeNickname fields
  else none

end Reader

/-- Each message of a stream, as far as the documentation knows it. -/
def readStream (bytes : Bytes) : Option (List (Option Told)) :=
  (payloads bytes.length bytes).map fun found => found.map readPayload

/-- How a client understands a message: an auction that was sold as failed, one that failed
not at all, nor one that is closing with its end, and everything else as it was meant. -/
def understood : Reply → Option Told
  | .resSale flag => some (.sale flag)
  | .resSearch nickName itsMine bidder status price endTime =>
    if status = .imminent ∧ endTime ≠ 0 then none
    else some (.search nickName itsMine bidder status price endTime)
  | .resBid nickName bidder price => some (.bid nickName bidder price)
  | .resExpire nickName .imminent => some (.expire nickName true)
  | .resExpire nickName .fin => some (.expire nickName false)
  | .resExpire _ _ => none
  | .resChangeNickname flag => some (.changeNickname flag)

/-! ## Building -/

section Building

theorem fields_length (x : Sending) : (∀ bytes ∈ x.fields, bytes ≠ []) ∧
    1 ≤ x.fields.flatten.length ∧ x.fields.flatten.length ≤ 35 := by
  obtain ⟨block, reply, nickName, buffer, spelled⟩ := x
  have name : (nameBytes nickName).length = 20 := by
    rw [length_nameBytes, buffer]
    rfl
  have nonempty : nameBytes nickName ≠ [] := by
    rw [← List.length_pos_iff, name]
    decide
  cases reply <;> simp [Sending.fields, int8Bytes, int32Bytes, int64Bytes, leBytes, name, nonempty]

/-- Field after field, a builder puts what stands behind one another. -/
theorem new_puts (block : Packet) {front : Bytes} {fields : List Bytes} (nonempty : front ≠ [])
    (all : ∀ bytes ∈ fields, bytes ≠ []) (fits : front.length + fields.flatten.length ≤ 1994) :
    fields.foldl Packet.insert ((newPacket block).insert front) =
      (newPacket block).putData (front ++ fields.flatten) := by
  rw [Packet.insert_eq_put nonempty]
  induction fields generalizing front with
  | nil => rw [List.foldl_nil, List.flatten_nil, List.append_nil]
  | cons bytes fields ih =>
    rw [List.flatten_cons, List.length_append] at fits
    have first : bytes ≠ [] := all bytes List.mem_cons_self
    rw [List.foldl_cons, Packet.insert_eq_put first, Packet.put_put nonempty first,
      ih (List.append_ne_nil_of_left_ne_nil nonempty _) (fun later member => all later (List.mem_cons_of_mem _ member)),
      List.flatten_cons, List.append_assoc]
    · rw [List.length_append]
      omega
    · simp only [newPacket, Packet.addRef, Packet.clear, Packet.endPos, bufferDefault, networkHeaderSize]
      omega

theorem build_eq (x : Sending) : x.build = (newPacket x.block).putData x.payload := by
  obtain ⟨nonempty, _, most⟩ := fields_length x
  have built := @new_puts x.block (wordBytes (typeOf x.reply)) x.fields (List.cons_ne_nil _ _) nonempty
    (by rw [wordBytes, length_leBytes]; omega)
  rw [Sending.payload, ← built]
  obtain ⟨block, reply, nickName, buffer, spelled⟩ := x
  have name : nameBytes nickName ≠ [] := by
    rw [← List.length_pos_iff, length_nameBytes, buffer]
    decide
  have put (p : Packet) : p.putData (nameBytes nickName) = p.insert (nameBytes nickName) :=
    (Packet.insert_eq_put name).symm
  cases reply <;>
    simp only [Sending.build, Sending.fields, typeOf, sendPacketResSale, sendPacketResSearch, sendPacketResBid,
      sendPacketResExpire, sendPacketResChangeNickname, put, List.foldl_cons, List.foldl_nil]

theorem payload_length (x : Sending) : 0 < x.payload.length ∧ x.payload.length ≤ 1994 := by
  obtain ⟨_, _, most⟩ := fields_length x
  rw [Sending.payload, List.length_append, wordBytes, length_leBytes]
  omega

/-- What is sent, as a message of the network layer. -/
def message (x : Sending) : Message := ⟨x.block, x.payload, (payload_length x).1, (payload_length x).2⟩

theorem sent_message (x : Sending) : sentFrame x.build = (message x).frame := by
  rw [build_eq]
  exact sent_frame (message x)

end Building

/-! ## Reading -/

section Reading

/-- The header of a frame says where its payload ends. -/
theorem payloads_frame (turns : Nat) (m : Message) (rest : Bytes) :
    payloads (turns + 1) (m.frame ++ rest) = (payloads turns rest).map fun later => m.payload :: later := by
  obtain ⟨header, width, spelling, fields⟩ := m.frame_split
  have nonempty := m.nonempty
  have whole : m.frame ++ rest = header ++ (m.payload ++ rest) := by rw [spelling, List.append_assoc]
  have front : Header.ofBytes (m.frame ++ rest) = ⟨networkCode, m.payload.length⟩ := by
    rw [whole, ← fields]
    simp [Header.ofBytes, List.getD_eq_getElem?_getD, List.getElem?_append_left, width, networkHeaderSize]
  have arrived : (m.frame ++ rest).drop networkHeaderSize = m.payload ++ rest := by
    rw [whole, List.drop_left' width]
  have some : 0 < (m.frame ++ rest).length := by
    rw [List.length_append, m.length_frame]
    omega
  obtain ⟨first, tail, cons⟩ := List.exists_cons_of_length_pos some
  rw [cons] at front arrived ⊢
  rw [payloads, front, arrived, if_neg, List.take_left, List.drop_left]
  rw [List.length_append]
  simp only [ne_eq, not_true, false_or]
  omega

/-- The messages of a stream, with turns enough to take them all. -/
theorem payloads_stream (sendings : List Sending) (turns : Nat) (enough : sendings.length ≤ turns) :
    payloads turns (stream sendings) = some (sendings.map Sending.payload) := by
  induction sendings generalizing turns with
  | nil =>
    change payloads turns [] = _
    rw [payloads]
    rfl
  | cons x sendings ih =>
    obtain ⟨turns, rfl⟩ := Nat.exists_eq_add_one_of_ne_zero (Nat.ne_of_gt (Nat.lt_of_lt_of_le (Nat.succ_pos _) enough))
    have split : stream (x :: sendings) = (message x).frame ++ stream sendings := by
      unfold stream
      rw [List.map_cons, List.flatten_cons, sent_message]
    rw [split, payloads_frame, ih turns (Nat.le_of_succ_le_succ enough)]
    rfl

/-- Every message has bytes. -/
theorem stream_long (sendings : List Sending) : sendings.length ≤ (stream sendings).length := by
  induction sendings with
  | nil => exact Nat.zero_le _
  | cons x sendings ih =>
    have frame := (message x).length_frame
    have nonempty := (message x).nonempty
    unfold stream at ih ⊢
    rw [List.map_cons, List.flatten_cons, List.length_append, sent_message, List.length_cons]
    omega

theorem lookup_its_mine (itsMine : ItsMine) : itsMines.lookup (itsMineCode itsMine) = some itsMine := by
  cases itsMine <;> rfl

theorem lookup_bidder (bidder : Bidder) : bidders.lookup (bidderCode bidder) = some bidder := by
  cases bidder <;> rfl

theorem lookup_status (status : AuctionStatus) : statuses.lookup (statusCode status) = some status := by
  cases status <;> rfl

theorem read_by_type :
    (∀ fields, readPayload (wordBytes 2 ++ fields) = readResSale fields) ∧
      (∀ fields, readPayload (wordBytes 4 ++ fields) = readResSearch fields) ∧
      (∀ fields, readPayload (wordBytes 6 ++ fields) = readResBid fields) ∧
      (∀ fields, readPayload (wordBytes 7 ++ fields) = readResExpire fields) ∧
      ∀ fields, readPayload (wordBytes 9 ++ fields) = readResChangeNickname fields := by
  simp only [readPayload, getWord_front]
  exact ⟨fun _ => rfl, fun _ => rfl, fun _ => rfl, fun _ => rfl, fun _ => rfl⟩

/-- A client reads a payload as the documentation has it. -/
theorem read_payload (x : Sending) : readPayload x.payload = understood x.reply := by
  obtain ⟨block, reply, nickName, buffer, spelled⟩ := x
  have front (rest : Bytes) : getNickName [] (nameBytes nickName ++ rest) = (nickName, rest) :=
    getNickName_front [] buffer
  have name : (nameBytes nickName).length = 20 := by
    rw [length_nameBytes, buffer]
    rfl
  obtain ⟨sale, search, bid, expire, change⟩ := read_by_type
  cases reply with
  | resSale flag =>
    simp only [Sending.payload, Sending.fields, typeOf, sale, readResSale, List.flatten_cons,
      List.flatten_nil, getInt8_front]
    cases flag <;> rfl
  | resSearch _ itsMine bidder status price endTime =>
    obtain rfl := spelled _ rfl
    simp only [Sending.payload, Sending.fields, typeOf, search, readResSearch, List.flatten_cons,
      List.flatten_nil, front, getInt8_front, getInt32_front, getInt64_front, lookup_its_mine,
      lookup_bidder, lookup_status]
    rw [if_neg]
    · rfl
    · simp [name, int8Bytes, int32Bytes, int64Bytes]
  | resBid _ bidder price =>
    obtain rfl := spelled _ rfl
    simp only [Sending.payload, Sending.fields, typeOf, bid, readResBid, List.flatten_cons,
      List.flatten_nil, front, getInt8_front, getInt32_front, lookup_bidder]
    rw [if_neg]
    · rfl
    · simp [name, int8Bytes, int32Bytes]
  | resExpire _ status =>
    obtain rfl := spelled _ rfl
    simp only [Sending.payload, Sending.fields, typeOf, expire, readResExpire, List.flatten_cons,
      List.flatten_nil, front, getInt8_front]
    rw [if_neg]
    · cases status <;> rfl
    · simp [name, int8Bytes]
  | resChangeNickname flag =>
    simp only [Sending.payload, Sending.fields, typeOf, change, readResChangeNickname, List.flatten_cons,
      List.flatten_nil, getInt8_front]
    cases flag <;> rfl

theorem read_stream (sendings : List Sending) :
    readStream (stream sendings) = some (sendings.map fun x => understood x.reply) := by
  unfold readStream
  rw [payloads_stream sendings _ (stream_long sendings), Option.map_some, List.map_map]
  exact congrArg some (List.map_congr_left fun x _ => read_payload x)

end Reading

/-! ## What is sent -/

/-- The nickname fits its field, and only an auction that has ended is said to have. -/
structure Proper (reply : Reply) : Prop where
  named : ∀ nickName ∈ nickNameOf reply, Fits nickName
  ended : ∀ nickName status, reply = .resExpire nickName status → status.ended

def AllProper (effects : List Effect) : Prop :=
  ∀ sessionID reply, .send sessionID reply ∈ effects → Proper reply

section Sent
variable {s s' : Store} {pPlayer : Player} {effects more : List Effect} {replies : List Reply}

theorem nothing_proper : AllProper [] := fun _ _ member => by cases member

theorem all_proper_append (first : AllProper effects) (later : AllProper more) : AllProper (effects ++ more) :=
  fun sessionID reply member =>
    (List.mem_append.mp member).elim (first sessionID reply) (later sessionID reply)

/-- An effect that is no packet. -/
theorem other_proper {effect : Effect} (silent : ∀ sessionID reply, effect ≠ .send sessionID reply) :
    AllProper [effect] := fun sessionID reply member =>
  absurd (List.mem_singleton.mp member).symm (silent sessionID reply)

theorem all_proper_map (proper : ∀ reply ∈ replies, Proper reply) (sessionID : Int64) :
    AllProper (replies.map (.send sessionID)) := by
  intro id reply member
  obtain ⟨sent, sending, same⟩ := List.mem_map.mp member
  cases same
  exact proper reply sending

theorem set_proper {reply : Reply} (proper : Proper reply) (set : List Int64) :
    AllProper (sendToSet set reply) := by
  intro id sent member
  obtain ⟨_, _, same⟩ := List.mem_map.mp member
  cases same
  exact proper

theorem one_proper {reply : Reply} (proper : Proper reply) (sessionID : Int64) :
    AllProper [.send sessionID reply] := set_proper proper [sessionID]

theorem res_sale_proper (flag : RegisterFlag) : Proper (.resSale flag) :=
  ⟨fun _ none => (by cases none), fun _ _ other => by cases other⟩

theorem res_search_proper (data : AuctionData) (endTime : UInt64) : Proper (resSearch pPlayer data endTime) :=
  ⟨fun _ name => by cases name; exact ⟨data.nickName, rfl⟩, fun _ _ other => by cases other⟩

theorem slot_replies_proper {count : Nat} {names : List WString}
    (sent : s.slotReplies pPlayer count names = .ok replies) : ∀ reply ∈ replies, Proper reply := by
  fun_induction Store.slotReplies s pPlayer count names generalizing replies with
  | case1 names =>
    cases sent
    exact fun reply member => by cases member
  | case2 count => cases sent
  | case3 count wstr rest ih =>
    obtain ⟨first, told, sent⟩ := bind_ok.mp sent
    obtain ⟨others, listed, sent⟩ := bind_ok.mp sent
    cases sent
    intro reply member
    rcases List.mem_cons.mp member with rfl | member
    · unfold Store.slotReply at told
      split at told
      · obtain ⟨nickName, _, told⟩ := bind_ok.mp told
        cases told
        exact ⟨fun _ name => by cases name; exact ⟨nickName, rfl⟩, fun _ _ other => by cases other⟩
      · cases told
        exact res_search_proper _ _
    · exact ih listed reply member

theorem init_packets_proper (sent : s.sendInitPackets pPlayer = .ok effects) : AllProper effects := by
  obtain ⟨slots, own, sent⟩ := bind_ok.mp sent
  cases sent
  have recent (listed : List AuctionRef) : ∀ reply ∈ s.recentReplies pPlayer listed, Proper reply := by
    intro reply member
    obtain ⟨pData, _, rfl⟩ := List.mem_map.mp member
    exact res_search_proper _ _
  refine all_proper_map (fun reply member => ?_) _
  rcases List.mem_append.mp member with earlier | finished
  · rcases List.mem_append.mp earlier with slot | registered
    · unfold Store.ownReplies at own
      split at own
      · cases own
        cases slot
      · exact slot_replies_proper own reply slot
    · exact recent _ reply registered
  · exact recent _ reply finished

theorem search_replies_proper {wstr : WString} {auctions : UnorderedMap WString AuctionRef} :
    ∀ reply ∈ s.searchReplies pPlayer wstr auctions, Proper reply := by
  intro reply member
  obtain ⟨entry, _, rfl⟩ := List.mem_map.mp member
  exact res_search_proper _ _

/-- The front of a string that fits a field fits it. -/
theorem fits_front {field beyond : List UInt16} (fits : Fits (cString (field ++ beyond))) :
    Fits (cString field) := by
  by_cases zero : 0 ∈ field
  · rwa [cString_terminated zero] at fits
  · obtain ⟨name, same⟩ := fits
    have short := name.fits
    have whole : cString field = field := by
      have alone := cString_unterminated zero []
      rwa [List.append_nil, show cString [] = [] from rfl, List.append_nil] at alone
    rw [same, cString_unterminated zero, List.length_append] at short
    rw [whole]
    exact ⟨⟨field, by omega, zero⟩, rfl⟩

/-- The bid is for an auction, whose nickname is in the field of the packet. -/
theorem bid_proper {locals : Locals} {pPacket : Bytes} {sessionID : Int64} {ret : Bool}
    (keys : s.toAuctionBook.ShortKeys)
    (ran : s.packetProcReqBid locals pPlayer pPacket sessionID = .ok (ret, s', effects)) :
    AllProper effects := by
  cases accepted : s.acceptedBid locals pPlayer pPacket with
  | none =>
    obtain ⟨_, rfl⟩ := Store.req_bid_refused accepted ran
    exact nothing_proper
  | some pData =>
    obtain ⟨_, _, rfl⟩ := Store.req_bid_accepted accepted ran
    obtain ⟨_, found, _⟩ := Store.accepted_bid_some accepted
    have fits : Fits (cString (Store.readBid locals pPacket).1) := fits_front (keys.found found)
    have proper (bidder : Bidder) (price : Int32) :
        Proper (.resBid (cString (Store.readBid locals pPacket).1) bidder price) :=
      ⟨fun _ name => by cases name; exact fits, fun _ _ other => by cases other⟩
    exact all_proper_append (one_proper (proper _ _) _) (set_proper (proper _ _) _)

theorem packet_proper {locals : Locals} {block : DBCheckJob} {pPacket : Bytes} {sessionID : Int64}
    {packetType : UInt16} {ret : Bool} (keys : s.toAuctionBook.ShortKeys)
    (ran : s.packetProc locals block pPlayer pPacket sessionID packetType = .ok (ret, s', effects)) :
    AllProper effects := by
  unfold Store.packetProc at ran
  split at ran
  · obtain ⟨_, rfl⟩ | ⟨_, _, _, rfl, _⟩ := Store.req_sale_cases ran
    · exact nothing_proper
    · exact other_proper fun _ _ same => by cases same
  split at ran
  · cases ran
    refine all_proper_map (fun reply member => ?_) _
    rcases List.mem_append.mp member with cell | imminent
    · exact search_replies_proper reply cell
    · exact search_replies_proper reply imminent
  split at ran
  · exact bid_proper keys ran
  split at ran
  · obtain ⟨_, _, _, rfl, _⟩ := Store.req_change_nickname_cases ran
    exact other_proper fun _ _ same => by cases same
  split at ran
  · unfold Store.packetProcResPlayerInfo at ran
    dsimp only at ran
    split at ran
    · cases ran
      exact nothing_proper
    · obtain ⟨_, _, ran⟩ := bind_ok.mp ran
      obtain ⟨sent, sending, ran⟩ := bind_ok.mp ran
      cases ran
      exact init_packets_proper sending
  · cases ran
    exact nothing_proper

theorem job_proper {job : Job} {env : JobEnv} (keys : s.toAuctionBook.ShortKeys)
    (ran : s.runJob env job = .ok (s', effects)) : AllProper effects := by
  cases job with
  | onRecv sessionID pPacket =>
    obtain ⟨_, rfl, _⟩ | ⟨player, ret, processed, _, _, proc, rfl⟩ := Store.client_recv_cases ran
    · exact nothing_proper
    · have proper := packet_proper (s := s.withType (s.readType pPacket).1) keys proc
      cases ret with
      | true => exact proper
      | false => exact all_proper_append proper (other_proper fun _ _ same => by cases same)
  | onClientJoin sessionID =>
    cases ran
    exact nothing_proper
  | onClientLeave sessionID =>
    cases ran
    exact nothing_proper
  | nicknameChangeAble accountNo =>
    obtain ⟨_, _, ran⟩ := bind_ok.mp ran
    cases ran
    exact nothing_proper
  | nicknameRegisterAble sessionID accountNo =>
    cases Store.job_turn ran with
    | registerRefused _ flag full => exact one_proper (res_sale_proper flag) _
    | registerUnasked _ slot unasked => exact nothing_proper
    | registerUnknown _ slot asked unknown => exact nothing_proper
    | register _ slot asked known =>
      exact all_proper_append (one_proper (res_sale_proper .success) sessionID)
        (other_proper fun _ _ same => by cases same)

/-- `Update` tells the players of the auctions that it ends. -/
theorem update_proper {env : UpdateEnv} (ran : s.update env = .ok (s', effects)) : AllProper effects := by
  obtain ⟨midway, _, _, rfl⟩ := Store.update_cases ran
  unfold Store.updateFiveSeconds
  split
  · refine UnorderedMap.sweep_invariant (fun turn : Store × List Effect => turn.1.imminentList)
      (P := fun turn => AllProper turn.2) (s := (midway, [])) (Store.visit_imminent_others _) ?_ nothing_proper
    rintro wstr pData ⟨t, earlier⟩ proper _
    unfold Store.visitImminent
    dsimp only
    split
    · refine all_proper_append (all_proper_append proper (set_proper ⟨?_, ?_⟩ _))
        (other_proper fun _ _ same => by cases same)
      · intro nickName same
        cases same
        exact ⟨_, rfl⟩
      · intro nickName status same
        cases same
        rw [AuctionBook.auctions_finish, if_pos rfl]
        exact AuctionBook.finish_status_ended _
    · exact proper
  · exact nothing_proper

/-- What `DBAccessThread` sends. -/
theorem access_proper {job : DBCheckJob} {row : Option Int64} {block : JobItem} {answered : List DBEffect}
    {sessionID : Int64} {reply : Reply} (ran : dbAccess job row block = .ok answered)
    (sent : .send sessionID reply ∈ answered) : Proper reply := by
  obtain ⟨myNickName, _, ran⟩ := bind_ok.mp ran
  obtain ⟨targetNickName, _, ran⟩ := bind_ok.mp ran
  have flag : reply = .resChangeNickname .fail ∨ reply = .resSale .failSold := by
    cases ran
    split at sent
    · split at sent <;> simp_all
    · split at sent <;> simp_all
    · simp at sent
    · split at sent <;> simp at sent
    · cases sent
  rcases flag with rfl | rfl
  · exact ⟨fun _ none => (by cases none), fun _ _ other => by cases other⟩
  · exact res_sale_proper .failSold

/-- All that `LogicThread` sends in a run. -/
theorem run_proper {t : Store} {taken : List (LogicStep × List Effect)} (keys : s.toAuctionBook.ShortKeys)
    (run : Run Store.Takes s taken t) : AllProper (taken.flatMap Prod.snd) := by
  refine (run.history (P := fun taken t => t.toAuctionBook.ShortKeys ∧ AllProper (taken.flatMap Prod.snd)) ?_
    ⟨keys, nothing_proper⟩).2
  rintro past t ⟨step, effects⟩ t' ⟨keys, proper⟩ ran
  rw [List.flatMap_append, List.flatMap_singleton]
  refine ⟨Store.steps_book (fun _ _ _ keys taken => keys.step taken) ⟨effects, ran⟩ keys,
    all_proper_append proper ?_⟩
  cases step with
  | job job env => exact job_proper keys ran
  | update env => exact update_proper ran

/-- A packet of the run, from one thread or the other. -/
def SentIn (taken : List (LogicStep × List Effect)) (reply : Reply) : Prop :=
  (∃ sessionID, .send sessionID reply ∈ taken.flatMap Prod.snd) ∨
    ∃ job row block answered sessionID, dbAccess job row block = .ok answered ∧
      .send sessionID reply ∈ answered

/-- In every run, each reply has a nickname that fits its field with a terminator, and
whatever replies are sent, in whatever order, a client finds these messages in the bytes
and reads them as they were meant, except for closing auctions with their end and for the
ends of auctions: none is ever read as the sale of an auction. -/
theorem clients_read {t : Store} {taken : List (LogicStep × List Effect)} (keys : s.toAuctionBook.ShortKeys)
    (run : Run Store.Takes s taken t) :
    (∀ reply, SentIn taken reply → ∀ nickName ∈ nickNameOf reply, Fits nickName) ∧
      ∀ sendings : List Sending, (∀ x ∈ sendings, SentIn taken x.reply) →
        readStream (stream sendings) = some (sendings.map fun x => understood x.reply) ∧
          ∀ nickName, some (.expire nickName true) ∉ sendings.map fun x => understood x.reply := by
  have proper (reply : Reply) (sent : SentIn taken reply) : Proper reply := by
    rcases sent with ⟨sessionID, sent⟩ | ⟨job, row, block, answered, sessionID, ran, sent⟩
    · exact run_proper keys run sessionID reply sent
    · exact access_proper ran sent
  refine ⟨fun reply sent => (proper reply sent).named, fun sendings sent => ⟨read_stream sendings, ?_⟩⟩
  intro nickName member
  obtain ⟨x, among, heard⟩ := List.mem_map.mp member
  have ended := (proper x.reply (sent x among)).ended
  generalize x.reply = reply at heard ended
  cases reply with
  | resExpire name status =>
    cases status with
    | imminent => rcases ended name .imminent rfl with other | other <;> cases other
    | sale => cases heard
    | fin => cases heard
    | finFail => cases heard
  | resSale flag => cases heard
  | resSearch name itsMine bidder status price endTime =>
    by_cases closing : status = .imminent ∧ endTime ≠ 0
    · rw [understood, if_pos closing] at heard
      cases heard
    · rw [understood, if_neg closing] at heard
      cases heard
  | resBid name bidder price => cases heard
  | resChangeNickname flag => cases heard

end Sent

/-! ## An auction that closes and is sold -/

/-- Account 7 has bid on an imminent auction that ends at 9000, and a player is there. -/
def watched : Store :=
  { Settlement.dueStore with
    auctions := fun _ => { Settlement.dueStore.auctions 0 with endTime := 9000 }
    playerList := (∅ : UnorderedMap Int64 Player).emplace 3 (Store.joined 3) }

theorem watched_short : watched.toAuctionBook.ShortKeys := by
  refine ⟨fun wstr member => ?_, fun wstr member => ?_⟩
  · exact absurd member (AList.notMem_empty wstr)
  · unfold watched Settlement.dueStore at member
    rw [UnorderedMap.mem_emplace] at member
    rcases member with rfl | none
    · exact ⟨nameA, rfl⟩
    · exact absurd none (AList.notMem_empty wstr)

/-- `REQ_SEARCH` for "A". -/
def searchRequest : Bytes := [3, 0] ++ [65, 0] ++ List.replicate 18 0

/-- What the player is sent about the auction that closes. -/
def closingReply : Reply := .resSearch [65] .mine .other .imminent 0 9000

/-- A packet with the nickname "A" in it. -/
def sendingOf (reply : Reply) (named : nickNameOf reply = some [65]) : Sending where
  block := ⟨fun _ => 0, 0, 0, 0, 0, false⟩
  reply := reply
  nickName := 65 :: List.replicate 9 0
  buffer := rfl
  spelled := fun _ same => by cases named.symm.trans same; rfl

/-- The player searches for the auction and cannot read the answer; when it has been sold
he reads that nobody has bought it. -/
theorem sale_read_as_failure :
    ∃ taken t, Run Store.Takes watched taken t ∧ SentIn taken closingReply ∧
      SentIn taken (.resExpire [65] .fin) ∧
      readStream (stream [sendingOf closingReply rfl, sendingOf (.resExpire [65] .fin) rfl]) =
        some [none, some (.expire [65] false)] := by
  have run : ∃ taken t, Run Store.Takes watched taken t ∧ SentIn taken closingReply ∧
      SentIn taken (.resExpire [65] .fin) := by
    refine ⟨[(.job (.onRecv 3 searchRequest) (.zero 0), [.send 3 closingReply]),
      (.update Settlement.dueUpdate, [.send 3 (.resExpire [65] .fin),
        .enqueueDB ⟨.nicknameSold, 7, 0, 0, 1, [65], []⟩])], _, .cons rfl (.single rfl),
      .inl ⟨3, ?_⟩, .inl ⟨3, ?_⟩⟩
    · exact List.mem_cons_self
    · exact List.mem_cons_of_mem _ List.mem_cons_self
  obtain ⟨taken, t, run, closing, sent⟩ := run
  have read := (clients_read watched_short run).2
    [sendingOf closingReply rfl, sendingOf (.resExpire [65] .fin) rfl] fun x member => by
      rcases List.mem_pair.mp member with rfl | rfl
      · exact closing
      · exact sent
  exact ⟨taken, t, run, closing, sent, read.1⟩

end NewNameAuction.ReplyCodec
