import NewNameAuction.AuctionPackets
import NewNameAuction.Reassembly

/-! The messages the server both builds and parses. A builder and its parser go over
the fields one by one and agree on their order, except that `RES_PLAYER_INFO` is built
with the nickname first and parsed, as documented, with the nickname last. -/
namespace NewNameAuction.RequestCodec
open ByteMemory

/-! ## Fields as bytes -/

def wordBytes (value : UInt16) : Bytes := leBytes 2 value.toNat

def int8Bytes (value : Int8) : Bytes := leBytes 1 value.toUInt8.toNat

def int32Bytes (value : Int32) : Bytes := leBytes 4 value.toUInt32.toNat

def int64Bytes (value : Int64) : Bytes := leBytes 8 value.toUInt64.toNat

/-- A buffer of `WCHAR`s. -/
def nameBytes (words : List UInt16) : Bytes := words.flatMap wordBytes

section Fields
variable {rest : Bytes}

@[simp] theorem length_nameBytes (words : List UInt16) : (nameBytes words).length = 2 * words.length := by
  induction words with
  | nil => rfl
  | cons word words ih =>
    rw [nameBytes, List.flatMap_cons, List.length_append, ← nameBytes, ih, wordBytes,
      length_leBytes, List.length_cons]
    omega

theorem word_decode (value : UInt16) : .ofNat (littleEndian (wordBytes value)) = value := by
  rw [wordBytes, littleEndian_of_lt value.toNat_lt, UInt16.ofNat_toNat]

theorem int8_decode (value : Int8) : .ofNat (littleEndian (int8Bytes value)) = value := by
  rw [int8Bytes, littleEndian_of_lt value.toUInt8.toNat_lt]
  exact congrArg Int8.ofUInt8 UInt8.ofNat_toNat

theorem int32_decode (value : Int32) : .ofNat (littleEndian (int32Bytes value)) = value := by
  rw [int32Bytes, littleEndian_of_lt value.toUInt32.toNat_lt]
  exact congrArg Int32.ofUInt32 UInt32.ofNat_toNat

theorem int64_decode (value : Int64) : .ofNat (littleEndian (int64Bytes value)) = value := by
  rw [int64Bytes, littleEndian_of_lt value.toUInt64.toNat_lt]
  exact congrArg Int64.ofUInt64 UInt64.ofNat_toNat

theorem wideChars_nameBytes (words : List UInt16) : wideChars (nameBytes words) = words := by
  induction words with
  | nil => rfl
  | cons word words ih =>
    have head := word_decode word
    have cells : wordBytes word = [.ofNat word.toNat, .ofNat (word.toNat / 256)] := rfl
    rw [cells] at head
    rw [nameBytes, List.flatMap_cons, ← nameBytes, cells, List.cons_append, List.cons_append,
      List.nil_append, wideChars, head, ih]

theorem extract_front {α : Type} {size : Nat} {decode : Bytes → α} {old : α} {bytes : Bytes}
    (width : bytes.length = size) :
    extract size decode old (bytes ++ rest) = (decode bytes, rest) := by
  rw [extract, if_neg (by rw [List.length_append]; omega), List.take_left' width,
    List.drop_left' width]

@[simp] theorem getWord_front (old value : UInt16) :
    getWord old (wordBytes value ++ rest) = (value, rest) :=
  (extract_front (length_leBytes 2 value.toNat)).trans (congrArg (·, rest) (word_decode value))

@[simp] theorem getInt8_front (old value : Int8) :
    getInt8 old (int8Bytes value ++ rest) = (value, rest) :=
  (extract_front (length_leBytes 1 value.toUInt8.toNat)).trans (congrArg (·, rest) (int8_decode value))

@[simp] theorem getInt32_front (old value : Int32) :
    getInt32 old (int32Bytes value ++ rest) = (value, rest) :=
  (extract_front (length_leBytes 4 value.toUInt32.toNat)).trans (congrArg (·, rest) (int32_decode value))

@[simp] theorem getInt64_front (old value : Int64) :
    getInt64 old (int64Bytes value ++ rest) = (value, rest) :=
  (extract_front (length_leBytes 8 value.toUInt64.toNat)).trans (congrArg (·, rest) (int64_decode value))

theorem getNickName_front (old : List UInt16) {words : List UInt16}
    (buffer : words.length = nicknameMaxLength) :
    getNickName old (nameBytes words ++ rest) = (words, rest) := by
  rw [getNickName, extract_front (by rw [length_nameBytes, buffer]), wideChars_nameBytes]

end Fields

/-! ## The builders -/

/-- What a message says, whichever way it is spelled. -/
inductive Request
  | reqSale (nickName : List UInt16) (time : Int8) (price : Int32)
  | reqSearch (nickName : List UInt16)
  | reqBid (nickName : List UInt16) (price : Int32)
  | reqChangeNickname (nickName : List UInt16)
  | resPlayerInfo (nickName : List UInt16) (accountNo : Int64) (point : Int32)

/-- How every builder starts: with a block of the pool. -/
def newPacket (block : Packet) : Packet := block.mAlloc.clear.addRef 1

section Builders
variable (block : Packet) (nickName : List UInt16)

def sendPacketReqSale (time : Int8) (price : Int32) : Packet :=
  ((((newPacket block).insert (wordBytes 1)).putData (nameBytes nickName)).insert
    (int8Bytes time)).insert (int32Bytes price)

def sendPacketReqSearch : Packet :=
  ((newPacket block).insert (wordBytes 3)).putData (nameBytes nickName)

def sendPacketReqBid (price : Int32) : Packet :=
  (((newPacket block).insert (wordBytes 5)).putData (nameBytes nickName)).insert (int32Bytes price)

def sendPacketReqChangeNickname : Packet :=
  ((newPacket block).insert (wordBytes 8)).putData (nameBytes nickName)

def sendPacketResPlayerInfo (accountNo : Int64) (point : Int32) : Packet :=
  ((((newPacket block).insert (wordBytes 10)).putData (nameBytes nickName)).insert
    (int64Bytes accountNo)).insert (int32Bytes point)

end Builders

/-- `sendPacket` takes a reference and encodes a packet that is not yet; `sendPost`
hands the buffer to the socket. -/
def sentFrame (p : Packet) : Bytes :=
  let p := p.addRef 1
  (if p.encodeFlag = false then p.encode.2 else p).wsaSendbuf

/-- The receive branch of `WorkerThread`, from the block it takes to `OnRecv`. -/
def onRecvPacket (block : Packet) (frame : Bytes) : Packet :=
  let recvBuf := (block.mAlloc.addRef 1).clearNetwork
  let filled := { recvBuf with buffer := store recvBuf.buffer recvBuf.writePos frame }
  (filled.moveWritePos frame.length).moveReadPos networkHeaderSize

/-! ## The parsers -/

section Parsers
variable (locals : Locals) (pPacket : Bytes)

def readReqSale : Request × Bytes :=
  let (nickName, pPacket) := getNickName locals.nickName pPacket
  let (time, pPacket) := getInt8 locals.time pPacket
  let (price, pPacket) := getInt32 locals.price pPacket
  (.reqSale nickName time price, pPacket)

def readReqSearch : Request × Bytes :=
  let (nickName, pPacket) := getNickName locals.nickName pPacket
  (.reqSearch nickName, pPacket)

def readReqBid : Request × Bytes :=
  let (nickName, pPacket) := getNickName locals.nickName pPacket
  let (price, pPacket) := getInt32 locals.price pPacket
  (.reqBid nickName price, pPacket)

def readReqChangeNickname : Request × Bytes :=
  let (nickName, pPacket) := getNickName locals.nickName pPacket
  (.reqChangeNickname nickName, pPacket)

def readResPlayerInfo : Request × Bytes :=
  let (accountNo, pPacket) := getInt64 locals.accountNo pPacket
  let (point, pPacket) := getInt32 locals.point pPacket
  let (nickName, pPacket) := getNickName locals.nickName pPacket
  (.resPlayerInfo nickName accountNo point, pPacket)

/-- `LogicThread` takes the type off, and `PacketProc` calls the parser of that type.
The bytes left over come with what has been read. -/
def parsed (oldType : UInt16) : Option (Request × Bytes) :=
  let (packetType, pPacket) := getWord oldType pPacket
  if packetType = 1 then some (readReqSale locals pPacket)
  else if packetType = 3 then some (readReqSearch locals pPacket)
  else if packetType = 5 then some (readReqBid locals pPacket)
  else if packetType = 8 then some (readReqChangeNickname locals pPacket)
  else if packetType = 10 then some (readResPlayerInfo locals pPacket)
  else none

end Parsers

namespace Request

def nickName : Request → List UInt16
  | .reqSale nickName _ _ => nickName
  | .reqSearch nickName => nickName
  | .reqBid nickName _ => nickName
  | .reqChangeNickname nickName => nickName
  | .resPlayerInfo nickName _ _ => nickName

def build (block : Packet) : Request → Packet
  | .reqSale nickName time price => sendPacketReqSale block nickName time price
  | .reqSearch nickName => sendPacketReqSearch block nickName
  | .reqBid nickName price => sendPacketReqBid block nickName price
  | .reqChangeNickname nickName => sendPacketReqChangeNickname block nickName
  | .resPlayerInfo nickName accountNo point =>
    sendPacketResPlayerInfo block nickName accountNo point

/-- The type and the fields, in the order they are put into the packet. -/
def payload : Request → Bytes
  | .reqSale nickName time price =>
    wordBytes 1 ++ (nameBytes nickName ++ (int8Bytes time ++ int32Bytes price))
  | .reqSearch nickName => wordBytes 3 ++ nameBytes nickName
  | .reqBid nickName price => wordBytes 5 ++ (nameBytes nickName ++ int32Bytes price)
  | .reqChangeNickname nickName => wordBytes 8 ++ nameBytes nickName
  | .resPlayerInfo nickName accountNo point =>
    wordBytes 10 ++ (nameBytes nickName ++ (int64Bytes accountNo ++ int32Bytes point))

/-- A packet built in one block, sent, and received into another is read as what was
said, to its last byte. `oldType` and `locals` are what the reader's variables held. -/
def Agrees (request : Request) (sender receiver : Packet) (oldType : UInt16) (locals : Locals) : Prop :=
  parsed locals (onRecvPacket receiver (sentFrame (request.build sender))).readable oldType =
    some (request, [])

end Request

/-! ## Building and sending -/

section Building
variable {request : Request}

theorem payload_length (buffer : request.nickName.length = nicknameMaxLength) :
    22 ≤ request.payload.length ∧ request.payload.length ≤ 34 := by
  cases request <;>
    simp_all [Request.payload, Request.nickName, wordBytes, int8Bytes, int32Bytes, int64Bytes,
      nicknameMaxLength]

theorem new_put_put {bytes more : Bytes} (block : Packet) (nonempty : 0 < bytes.length)
    (nonempty' : 0 < more.length) (fits : bytes.length + more.length ≤ 34) :
    ((newPacket block).putData bytes).putData more = (newPacket block).putData (bytes ++ more) := by
  apply Packet.put_put (List.length_pos_iff.mp nonempty) (List.length_pos_iff.mp nonempty')
  simp only [newPacket, Packet.addRef, Packet.clear, Packet.endPos, bufferDefault, networkHeaderSize]
  omega

/-- Field after field, a builder puts the payload. -/
theorem build_eq (buffer : request.nickName.length = nicknameMaxLength) (block : Packet) :
    request.build block = (newPacket block).putData request.payload := by
  have name := length_nameBytes request.nickName
  rw [buffer, nicknameMaxLength] at name
  have word (value : UInt16) : (wordBytes value).length = 2 := length_leBytes ..
  have int8 (value : Int8) : (int8Bytes value).length = 1 := length_leBytes ..
  have int32 (value : Int32) : (int32Bytes value).length = 4 := length_leBytes ..
  have int64 (value : Int64) : (int64Bytes value).length = 8 := length_leBytes ..
  have insert {p : Packet} {bytes : Bytes} (nonempty : 0 < bytes.length) :
      p.insert bytes = p.putData bytes := Packet.insert_eq_put (List.length_pos_iff.mp nonempty)
  cases request with
  | reqSale nickName time price =>
    simp only [Request.nickName] at name
    simp only [Request.build, Request.payload, sendPacketReqSale]
    rw [insert, insert, insert, new_put_put, new_put_put, new_put_put, List.append_assoc,
      List.append_assoc] <;> simp [word, int8, int32, name]
  | reqSearch nickName =>
    simp only [Request.nickName] at name
    simp only [Request.build, Request.payload, sendPacketReqSearch]
    rw [insert, new_put_put] <;> simp [word, name]
  | reqBid nickName price =>
    simp only [Request.nickName] at name
    simp only [Request.build, Request.payload, sendPacketReqBid]
    rw [insert, insert, new_put_put, new_put_put, List.append_assoc] <;> simp [word, int32, name]
  | reqChangeNickname nickName =>
    simp only [Request.nickName] at name
    simp only [Request.build, Request.payload, sendPacketReqChangeNickname]
    rw [insert, new_put_put] <;> simp [word, name]
  | resPlayerInfo nickName accountNo point =>
    simp only [Request.nickName] at name
    simp only [Request.build, Request.payload, sendPacketResPlayerInfo]
    rw [insert, insert, insert, new_put_put, new_put_put, new_put_put, List.append_assoc,
      List.append_assoc] <;> simp [word, int32, int64, name]

theorem sent_encoded {p : Packet} (fresh : p.encodeFlag = false) (payload : 5 < p.dataSize) :
    sentFrame p = load (store (store p.buffer 0 [networkCode]) 1
      (Packet.shortBytes (p.writePos - p.readPos - networkHeaderSize).toNat)) p.readPos
        p.getDataSize.toNat := by
  have encoded : (p.addRef 1).encode.2.wsaSendbuf = _ :=
    congrArg (fun result : Bool × Packet => result.2.wsaSendbuf) (if_neg (by
      change ¬ p.dataSize ≤ 5
      omega))
  exact (congrArg Packet.wsaSendbuf (if_pos fresh)).trans encoded

/-- What is sent is the frame of the payload. -/
theorem sent_frame (m : Message) : sentFrame ((newPacket m.block).putData m.payload) = m.frame := by
  have nonempty := m.nonempty
  have fits := m.fits
  have put : (newPacket m.block).putData m.payload = { m.block with
      buffer := store m.block.buffer 5 m.payload
      readPos := 0
      writePos := 5 + m.payload.length
      dataSize := 5 + m.payload.length
      refCount := 1
      encodeFlag := false } := by
    rw [Packet.putData, if_neg (by omega), if_neg (by
      simp only [newPacket, Packet.addRef, Packet.endPos, Packet.clear, bufferDefault,
        networkHeaderSize]
      omega)]
    rfl
  have len : ((5 : Int) + m.payload.length - networkHeaderSize).toNat = m.payload.length := by
    simp only [networkHeaderSize]
    omega
  rw [put, sent_encoded rfl (by dsimp only; omega), Message.frame, m.packet_eq]
  simp only [len, Packet.readable, Packet.getDataSize, Int.sub_zero]

/-- The reader finds the payload, behind the header. -/
theorem received_build (buffer : request.nickName.length = nicknameMaxLength)
    (sender receiver : Packet) :
    (onRecvPacket receiver (sentFrame (request.build sender))).readable = request.payload := by
  obtain ⟨least, most⟩ := payload_length buffer
  let m : Message := ⟨sender, request.payload, by omega, by omega⟩
  rw [build_eq buffer]
  change (onRecvPacket receiver (sentFrame ((newPacket m.block).putData m.payload))).readable = _
  rw [sent_frame]
  exact Reassembly.received_payload m receiver

end Building

/-! ## Reading back -/

/-- The fields of `RES_PLAYER_INFO` read the same in both orders: the nickname is five
times over what `Point` is made of, and `AccountNo` twice. -/
def RepeatsPoint (nickName : List UInt16) (accountNo : Int64) (point : Int32) : Prop :=
  let low : UInt16 := .ofNat point.toUInt32.toNat
  let high : UInt16 := .ofNat (point.toUInt32.toNat / 2 ^ 16)
  nickName = (List.replicate 5 [low, high]).flatten ∧
    accountNo.toUInt64.toNat = point.toUInt32.toNat + 2 ^ 32 * point.toUInt32.toNat

namespace Request

def ReadsBack : Request → Prop
  | .reqSale _ _ _ => True
  | .reqSearch _ => True
  | .reqBid _ _ => True
  | .reqChangeNickname _ => True
  | .resPlayerInfo nickName accountNo point => RepeatsPoint nickName accountNo point

end Request

section Reading
variable {nickName : List UInt16} {accountNo : Int64} {point : Int32} {locals : Locals}

/-- `RES_PLAYER_INFO` in the order it is documented and read in. -/
def documented (nickName : List UInt16) (accountNo : Int64) (point : Int32) : Bytes :=
  int64Bytes accountNo ++ (int32Bytes point ++ nameBytes nickName)

theorem read_documented (buffer : nickName.length = nicknameMaxLength) :
    readResPlayerInfo locals (documented nickName accountNo point) =
      (.resPlayerInfo nickName accountNo point, []) := by
  have name := @getNickName_front [] locals.nickName nickName buffer
  rw [List.append_nil] at name
  simp only [readResPlayerInfo, documented, getInt64_front, getInt32_front, name]

theorem int32_encode {bytes : Bytes} (width : bytes.length = 4) :
    int32Bytes (.ofNat (littleEndian bytes)) = bytes := by
  have value : (Int32.ofNat (littleEndian bytes)).toUInt32.toNat = littleEndian bytes :=
    Nat.mod_eq_of_lt (by simpa [width] using littleEndian_lt bytes)
  rw [int32Bytes, value, ← width, leBytes_littleEndian]

theorem int64_encode {bytes : Bytes} (width : bytes.length = 8) :
    int64Bytes (.ofNat (littleEndian bytes)) = bytes := by
  have value : (Int64.ofNat (littleEndian bytes)).toUInt64.toNat = littleEndian bytes :=
    Nat.mod_eq_of_lt (by simpa [width] using littleEndian_lt bytes)
  rw [int64Bytes, value, ← width, leBytes_littleEndian]

theorem name_encode (words : Nat) {bytes : Bytes} (width : bytes.length = 2 * words) :
    ∃ name : List UInt16, name.length = words ∧ nameBytes name = bytes := by
  induction words generalizing bytes with
  | zero => exact ⟨[], rfl, (List.eq_nil_of_length_eq_zero width).symm⟩
  | succ words ih =>
    obtain ⟨name, length, spelled⟩ := @ih (bytes.drop 2) (by rw [List.length_drop]; omega)
    have head : (bytes.take 2).length = 2 := by rw [List.length_take]; omega
    have value : (UInt16.ofNat (littleEndian (bytes.take 2))).toNat = littleEndian (bytes.take 2) :=
      Nat.mod_eq_of_lt (by simpa [head] using littleEndian_lt (bytes.take 2))
    refine ⟨.ofNat (littleEndian (bytes.take 2)) :: name, by rw [List.length_cons, length], ?_⟩
    have front := leBytes_littleEndian (bytes.take 2)
    rw [head] at front
    rw [nameBytes, List.flatMap_cons, ← nameBytes, spelled, wordBytes, value, front,
      List.take_append_drop]

/-- Any 32 bytes are the documented form of something. -/
theorem documented_surjective {bytes : Bytes} (width : bytes.length = 32) :
    ∃ nickName accountNo point, nickName.length = nicknameMaxLength ∧
      bytes = documented nickName accountNo point := by
  obtain ⟨name, length, spelled⟩ := @name_encode nicknameMaxLength (bytes.drop 12)
    (by rw [List.length_drop, width]; rfl)
  have account : (bytes.take 8).length = 8 := by rw [List.length_take, width]; rfl
  have point : ((bytes.drop 8).take 4).length = 4 := by rw [List.length_take, List.length_drop, width]; rfl
  refine ⟨name, .ofNat (littleEndian (bytes.take 8)), .ofNat (littleEndian ((bytes.drop 8).take 4)),
    length, ?_⟩
  rw [documented, int64_encode account, int32_encode point, spelled,
    show bytes.drop 12 = (bytes.drop 8).drop 4 by rw [List.drop_drop], List.take_append_drop,
    List.take_append_drop]

theorem read_iff {bytes : Bytes} (width : bytes.length = 32) (buffer : nickName.length = nicknameMaxLength) :
    readResPlayerInfo locals bytes = (.resPlayerInfo nickName accountNo point, []) ↔
      bytes = documented nickName accountNo point := by
  constructor
  · intro read
    obtain ⟨nickName', accountNo', point', buffer', rfl⟩ := documented_surjective width
    rw [read_documented buffer'] at read
    simp only [Prod.mk.injEq, Request.resPlayerInfo.injEq, and_true] at read
    obtain ⟨rfl, rfl, rfl⟩ := read
    rfl
  · rintro rfl
    exact read_documented buffer

end Reading

/-! ## When both orders agree -/

section Orders
variable {nickName : List UInt16} {accountNo : Int64} {point : Int32}

/-- Of two words that commute, the longer one is the shorter one and a word that
commutes with it. -/
theorem commuting_prefix {a b : Bytes} (commute : a ++ b = b ++ a) (longer : b.length ≤ a.length) :
    ∃ c, a = b ++ c ∧ c ++ b = b ++ c := by
  obtain ⟨c, rfl⟩ : ∃ c, a = b ++ c := by
    have front : (a ++ b).take b.length = b := by rw [commute, List.take_left]
    rw [List.take_append_of_le_length longer] at front
    exact ⟨a.drop b.length, by conv_lhs => rw [← List.take_append_drop b.length a, front]⟩
  rw [List.append_assoc, List.append_cancel_left_eq] at commute
  exact ⟨c, rfl, commute⟩

/-- Twenty bytes and twelve commute when they repeat the same four. -/
theorem orders_agree {name account point : Bytes} (names : name.length = 20)
    (accounts : account.length = 8) (points : point.length = 4) :
    name ++ (account ++ point) = account ++ (point ++ name) ↔
      name = point ++ (point ++ (point ++ (point ++ point))) ∧ account = point ++ point := by
  constructor
  · intro agree
    rw [← List.append_assoc account] at agree
    obtain ⟨first, rfl, commute₁⟩ := commuting_prefix agree (by
      rw [List.length_append]
      omega)
    simp only [List.length_append] at names
    obtain ⟨second, whole, commute₂⟩ := commuting_prefix commute₁.symm (by
      rw [List.length_append]
      omega)
    have seconds := congrArg List.length whole
    simp only [List.length_append] at seconds
    obtain ⟨third, rfl, commute₃⟩ := commuting_prefix commute₂.symm (by omega)
    simp only [List.length_append] at names seconds
    obtain ⟨rfl, -⟩ := List.append_inj commute₃ (by omega)
    obtain ⟨rfl, rfl⟩ := List.append_inj whole (by rw [List.length_append]; omega)
    simp only [List.append_assoc, and_self]
  · rintro ⟨rfl, rfl⟩
    simp only [List.append_assoc]

/-- A double word is its low word, then its high word. -/
theorem int32Bytes_words (point : Int32) :
    int32Bytes point = nameBytes [.ofNat point.toUInt32.toNat, .ofNat (point.toUInt32.toNat / 2 ^ 16)] := by
  have word (n : Nat) : wordBytes (.ofNat n) = leBytes 2 n := by
    rw [wordBytes, leBytes_eq_iff, UInt16.toNat_ofNat']
    exact Nat.mod_mod _ _
  have split := leBytes_add 2 2 point.toUInt32.toNat
  rw [nameBytes, List.flatMap_cons, List.flatMap_cons, List.flatMap_nil, List.append_nil, word, word]
  exact split

theorem nameBytes_inj {words words' : List UInt16} : nameBytes words = nameBytes words' ↔ words = words' :=
  ⟨fun same => by rw [← wideChars_nameBytes words, same, wideChars_nameBytes], congrArg nameBytes⟩

theorem int64Bytes_twice :
    int64Bytes accountNo = int32Bytes point ++ int32Bytes point ↔
      accountNo.toUInt64.toNat = point.toUInt32.toNat + 2 ^ 32 * point.toUInt32.toNat := by
  have account := accountNo.toUInt64.toNat_lt
  have points := point.toUInt32.toNat_lt
  have split := leBytes_add 4 4 accountNo.toUInt64.toNat
  have halves : int64Bytes accountNo = int32Bytes point ++ int32Bytes point ↔
      leBytes 4 accountNo.toUInt64.toNat = leBytes 4 point.toUInt32.toNat ∧
        leBytes 4 (accountNo.toUInt64.toNat / 256 ^ 4) = leBytes 4 point.toUInt32.toNat := by
    rw [int64Bytes, int32Bytes, split]
    exact ⟨fun same => List.append_inj same (by rw [length_leBytes, length_leBytes]),
      fun same => by rw [same.1, same.2]⟩
  rw [halves, leBytes_eq_iff, leBytes_eq_iff, show 256 ^ 4 = 2 ^ 32 from rfl,
    Nat.mod_eq_of_lt points, Nat.mod_eq_of_lt (show accountNo.toUInt64.toNat / 2 ^ 32 < 2 ^ 32 by omega)]
  omega

theorem repeats_point_iff (buffer : nickName.length = nicknameMaxLength) :
    nameBytes nickName ++ (int64Bytes accountNo ++ int32Bytes point) =
      documented nickName accountNo point ↔ RepeatsPoint nickName accountNo point := by
  have name : (nameBytes nickName).length = 20 := by rw [length_nameBytes, buffer]; rfl
  have account : (int64Bytes accountNo).length = 8 := length_leBytes ..
  have points : (int32Bytes point).length = 4 := length_leBytes ..
  rw [documented, orders_agree name account points, int64Bytes_twice, RepeatsPoint, int32Bytes_words]
  simp only [nameBytes, ← List.flatMap_append]
  rw [← nameBytes, ← nameBytes, nameBytes_inj]
  rfl

end Orders

/-! ## Agreement -/

section Agreement
variable {nickName : List UInt16} {locals : Locals} {rest : Bytes}

theorem read_sale (buffer : nickName.length = nicknameMaxLength) (time : Int8) (price : Int32) :
    readReqSale locals (nameBytes nickName ++ (int8Bytes time ++ (int32Bytes price ++ rest))) =
      (.reqSale nickName time price, rest) := by
  simp only [readReqSale, getNickName_front _ buffer, getInt8_front, getInt32_front]

theorem read_search (buffer : nickName.length = nicknameMaxLength) :
    readReqSearch locals (nameBytes nickName ++ rest) = (.reqSearch nickName, rest) := by
  simp only [readReqSearch, getNickName_front _ buffer]

theorem read_bid (buffer : nickName.length = nicknameMaxLength) (price : Int32) :
    readReqBid locals (nameBytes nickName ++ (int32Bytes price ++ rest)) =
      (.reqBid nickName price, rest) := by
  simp only [readReqBid, getNickName_front _ buffer, getInt32_front]

theorem read_change_nickname (buffer : nickName.length = nicknameMaxLength) :
    readReqChangeNickname locals (nameBytes nickName ++ rest) = (.reqChangeNickname nickName, rest) := by
  simp only [readReqChangeNickname, getNickName_front _ buffer]

/-- A builder and its parser agree on every value of a message's fields, but on
`RES_PLAYER_INFO` only where both orders of its fields are the same bytes. -/
theorem agrees_iff_reads_back {request : Request} (buffer : request.nickName.length = nicknameMaxLength)
    (sender receiver : Packet) (oldType : UInt16) (locals : Locals) :
    request.Agrees sender receiver oldType locals ↔ request.ReadsBack := by
  rw [Request.Agrees, received_build buffer]
  cases request with
  | reqSale nickName time price =>
    have read := @read_sale nickName locals [] buffer time price
    rw [List.append_nil] at read
    simp only [Request.payload, parsed, getWord_front]
    exact iff_of_true (congrArg some read) trivial
  | reqSearch nickName =>
    have read := @read_search nickName locals [] buffer
    rw [List.append_nil] at read
    simp only [Request.payload, parsed, getWord_front]
    exact iff_of_true (congrArg some read) trivial
  | reqBid nickName price =>
    have read := @read_bid nickName locals [] buffer price
    rw [List.append_nil] at read
    simp only [Request.payload, parsed, getWord_front]
    exact iff_of_true (congrArg some read) trivial
  | reqChangeNickname nickName =>
    have read := @read_change_nickname nickName locals [] buffer
    rw [List.append_nil] at read
    simp only [Request.payload, parsed, getWord_front]
    exact iff_of_true (congrArg some read) trivial
  | resPlayerInfo nickName accountNo point =>
    have width : (nameBytes nickName ++ (int64Bytes accountNo ++ int32Bytes point)).length = 32 := by
      have name := length_nameBytes nickName
      rw [show nickName.length = nicknameMaxLength from buffer] at name
      rw [List.length_append, List.length_append, name]
      simp [int64Bytes, int32Bytes, nicknameMaxLength]
    simp only [Request.payload, parsed, getWord_front]
    exact Option.some_inj.trans ((read_iff width buffer).trans (repeats_point_iff buffer))

end Agreement

private abbrev fresh : Packet := ⟨fun _ => 0, 0, 0, 0, 0, false⟩

private abbrev unset : Locals := ⟨[], [], 0, 0, 0, 0⟩

/-- A sale; and the information on a player that survives the other order. -/
theorem agrees_sale_and_repeated :
    (Request.reqSale [65, 66, 0, 0, 0, 0, 0, 0, 0, 0] 24 1000).Agrees fresh fresh 0 unset ∧
      (Request.resPlayerInfo [7, 0, 7, 0, 7, 0, 7, 0, 7, 0] (7 + 2 ^ 32 * 7) 7).Agrees fresh fresh 0
        unset :=
  ⟨(agrees_iff_reads_back rfl _ _ _ _).mpr trivial,
    (agrees_iff_reads_back rfl _ _ _ _).mpr ⟨rfl, rfl⟩⟩

/-- `A`, account 1, two points: the reader finds account 65 without a point, whose name
starts with a terminator. -/
theorem player_info_misread :
    parsed unset (onRecvPacket fresh (sentFrame
        ((Request.resPlayerInfo [65, 0, 0, 0, 0, 0, 0, 0, 0, 0] 1 2).build fresh))).readable 0 =
      some (.resPlayerInfo [0, 0, 0, 0, 1, 0, 0, 0, 2, 0] 65 0, []) ∧
    ¬ (Request.resPlayerInfo [65, 0, 0, 0, 0, 0, 0, 0, 0, 0] 1 2).Agrees fresh fresh 0 unset := by
  have read : parsed unset (onRecvPacket fresh (sentFrame
      ((Request.resPlayerInfo [65, 0, 0, 0, 0, 0, 0, 0, 0, 0] 1 2).build fresh))).readable 0 =
        some (.resPlayerInfo [0, 0, 0, 0, 1, 0, 0, 0, 2, 0] 65 0, []) := by
    rw [received_build rfl]
    rfl
  refine ⟨read, fun agrees => ?_⟩
  rw [Request.Agrees, read] at agrees
  simp at agrees

end NewNameAuction.RequestCodec
