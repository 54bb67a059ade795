import NewNameAuction.Packet
import NewNameAuction.ChainCipher

/-! `Encode` and `Decode` as they are under `Encode_option`: the payload and a checksum
before it are enciphered in place with the fixed key and a random one that the header
carries. -/
namespace NewNameAuction.EncodeOption
open ByteMemory ChainCipher

def networkKey : UInt8 := 0x32

/-! ## The source's loops -/

/-- `Sum` over the payload. At most 65535 bytes are added up, far from the end of `int`. -/
def sumLoop (mem : Memory) : Nat → Int → Nat → Nat
  | 0, _, sum => sum
  | count + 1, payloadPos, sum =>
    sumLoop mem count (payloadPos + 1) (sum + (mem payloadPos).toNat)

/-- The loop of `Encode`. The sums and the exclusive ors are taken as `int` and cut when
they are stored in an `unsigned char`. -/
def encodeLoop (randkey : UInt8) : Nat → Nat → Int → UInt8 → UInt8 → Memory → Memory
  | 0, _, _, _, _, mem => mem
  | count + 1, i, encodingPos, lastE, lastP, mem =>
    let nowP := UInt8.ofNat ((mem encodingPos).toNat ^^^ (lastP.toNat + randkey.toNat + i + 1))
    let nowE := UInt8.ofNat (nowP.toNat ^^^ (lastE.toNat + networkKey.toNat + i + 1))
    encodeLoop randkey count (i + 1) (encodingPos + 1) nowE nowP (store mem encodingPos [nowE])

/-- The loop of `Decode`. -/
def decodeLoop (randkey : UInt8) : Nat → Nat → Int → UInt8 → UInt8 → Memory → Memory
  | 0, _, _, _, _, mem => mem
  | count + 1, i, decodingPos, lastE, lastP, mem =>
    let nowP := UInt8.ofNat ((mem decodingPos).toNat ^^^ (lastE.toNat + networkKey.toNat + i + 1))
    let plain := UInt8.ofNat (nowP.toNat ^^^ (lastP.toNat + randkey.toNat + i + 1))
    decodeLoop randkey count (i + 1) (decodingPos + 1) (mem decodingPos) nowP
      (store mem decodingPos [plain])

/-- `Encode` with the key that the generator draws. -/
def encode (p : Packet) (randkey : UInt8) : Bool × Packet :=
  if p.dataSize ≤ 5 then (false, p)
  else
    let len := (p.writePos - p.readPos - networkHeaderSize).toNat
    let header := store (store (store p.buffer 0 [networkCode]) 1 (Packet.shortBytes len)) 3 [randkey]
    let sum := sumLoop header (p.dataSize - networkHeaderSize).toNat networkHeaderSize 0
    let summed := store header 4 [UInt8.ofNat (sum % 256)]
    (true, { p with
      buffer := encodeLoop randkey (p.dataSize - networkHeaderSize + 1).toNat 0 4 0 0 summed
      encodeFlag := true })

/-- `Decode`. It leaves the deciphered bytes in the buffer also when the checksum is
wrong. -/
def decode (p : Packet) : Bool × Packet :=
  if p.dataSize ≤ 5 then (false, p)
  else
    let len := (p.buffer 1).toNat + 256 * (p.buffer 2).toNat
    let decoded := decodeLoop (p.buffer 3) (len + 1) 0 4 0 0 p.buffer
    let sum := sumLoop decoded len networkHeaderSize 0
    (decide (UInt8.ofNat (sum % 256) = decoded 4), { p with buffer := decoded })

/-! ## What the loops compute -/

/-- The mask of a plain byte from the byte before it, mixed. -/
def plainMask (randkey : UInt8) (i : Nat) (lastP : UInt8) : UInt8 :=
  UInt8.ofNat (lastP.toNat + randkey.toNat + i + 1)

/-- The mask of a mixed byte from the cipher byte before it. -/
def cipherMask (i : Nat) (lastE : UInt8) : UInt8 :=
  UInt8.ofNat (lastE.toNat + networkKey.toNat + i + 1)

def mix (a b : UInt8) : UInt8 := a ^^^ b

theorem mix_mix (a b : UInt8) : mix (mix a b) b = a := by
  rw [mix, mix, UInt8.xor_assoc, UInt8.xor_self, UInt8.xor_zero]

/-- Cutting the exclusive or is the exclusive or of what is cut. -/
theorem cut_xor (a : UInt8) (n : Nat) : UInt8.ofNat (a.toNat ^^^ n) = mix a (UInt8.ofNat n) := by
  rw [UInt8.ofNat_xor, UInt8.ofNat_toNat, mix]

def checkSum (payload : Bytes) : UInt8 := UInt8.ofNat ((payload.map UInt8.toNat).sum % 256)

def encipher (randkey : UInt8) : Nat → UInt8 → UInt8 → Bytes → Bytes :=
  ChainCipher.encipher mix (plainMask randkey) cipherMask

def decipher (randkey : UInt8) : Nat → UInt8 → UInt8 → Bytes → Bytes :=
  ChainCipher.decipher mix (plainMask randkey) cipherMask

theorem load_succ (mem : Memory) (start : Int) (count : Nat) :
    load mem start (count + 1) = mem start :: load mem (start + 1) count := by
  rw [Nat.add_comm, load_append]
  simp [load]

/-- Bytes written one after the other stand as one block. -/
theorem store_cons (mem : Memory) (start : Int) (byte : UInt8) (bytes : Bytes) :
    store (store mem start [byte]) (start + 1) bytes = store mem start (byte :: bytes) :=
  store_append mem start [byte] bytes

/-- A frame is the cells of its header that stay plain and the others. -/
theorem load_frame (mem : Memory) (n : Nat) : load mem 0 (n + 5) = load mem 0 4 ++ load mem 4 (n + 1) := by
  rw [show n + 5 = 4 + (n + 1) by omega]
  exact load_append mem 0 4 (n + 1)

theorem sum_loop_eq (mem : Memory) (count : Nat) (payloadPos : Int) (sum : Nat) :
    sumLoop mem count payloadPos sum =
      sum + ((load mem payloadPos count).map UInt8.toNat).sum := by
  induction count generalizing payloadPos sum with
  | zero => rfl
  | succ count ih =>
    rw [sumLoop, ih, load_succ, List.map_cons, List.sum_cons, Nat.add_assoc]

theorem encode_loop_eq (randkey : UInt8) (count i : Nat) (encodingPos : Int) (lastE lastP : UInt8)
    (mem : Memory) : encodeLoop randkey count i encodingPos lastE lastP mem =
      store mem encodingPos (encipher randkey i lastE lastP (load mem encodingPos count)) := by
  induction count generalizing i encodingPos lastE lastP mem with
  | zero => exact (store_nil mem encodingPos).symm
  | succ count ih =>
    -- the byte just written lies before those still to be read
    rw [encodeLoop, ih, load_store_apart _ _ _ (by simp), store_cons, load_succ, cut_xor, cut_xor]
    rfl

theorem decode_loop_eq (randkey : UInt8) (count i : Nat) (decodingPos : Int) (lastE lastP : UInt8)
    (mem : Memory) : decodeLoop randkey count i decodingPos lastE lastP mem =
      store mem decodingPos (decipher randkey i lastE lastP (load mem decodingPos count)) := by
  induction count generalizing i decodingPos lastE lastP mem with
  | zero => exact (store_nil mem decodingPos).symm
  | succ count ih =>
    rw [decodeLoop, ih, load_store_apart _ _ _ (by simp), store_cons, load_succ, cut_xor, cut_xor]
    rfl

/-! ## Packets -/

/-- A packet that was cleared and then given this payload. -/
structure Filled (p : Packet) (payload : Bytes) : Prop where
  readPos : p.readPos = 0
  writePos : p.writePos = networkHeaderSize + payload.length
  dataSize : p.dataSize = networkHeaderSize + payload.length
  bytes : load p.buffer networkHeaderSize payload.length = payload

theorem put_filled (block : Packet) {payload : Bytes} (nonempty : 0 < payload.length)
    (fits : payload.length ≤ 1994) : Filled (block.clear.putData payload) payload := by
  have put : block.clear.putData payload = { block.clear with
      buffer := store block.buffer networkHeaderSize payload
      writePos := networkHeaderSize + payload.length
      dataSize := networkHeaderSize + payload.length } := by
    rw [Packet.putData, if_neg (by omega), if_neg (by
      simp only [Packet.endPos, Packet.clear, bufferDefault, networkHeaderSize]; omega)]
    rfl
  rw [put]
  exact ⟨rfl, rfl, rfl, load_store_same _ _ _⟩

/-- The first cells of a packet whose header is written but not yet its checksum. -/
def headerBytes (len : Nat) (randkey : UInt8) : Bytes :=
  [networkCode, UInt8.ofNat len, UInt8.ofNat (len / 256), randkey]

/-- The bytes of an encoded packet. -/
def frameBytes (randkey : UInt8) (payload : Bytes) : Bytes :=
  headerBytes payload.length randkey ++
    encipher randkey 0 0 0 (checkSum payload :: payload)

/-- What `Encode` makes of a packet: its header, and behind it the checksum and the
payload, enciphered. -/
theorem encode_spec {p : Packet} {payload : Bytes} (filled : Filled p payload)
    (nonempty : 1 ≤ payload.length) (randkey : UInt8) :
    (encode p randkey).1 = true ∧
      load (encode p randkey).2.buffer 0 (payload.length + 5) = frameBytes randkey payload := by
  obtain ⟨readPos, writePos, dataSize, bytes⟩ := filled
  simp only [networkHeaderSize] at readPos writePos dataSize bytes
  have len : (p.writePos - p.readPos - networkHeaderSize).toNat = payload.length := by
    simp only [networkHeaderSize]
    omega
  have count : (p.dataSize - networkHeaderSize).toNat = payload.length := by
    simp only [networkHeaderSize]
    omega
  have count' : (p.dataSize - networkHeaderSize + 1).toNat = payload.length + 1 := by
    simp only [networkHeaderSize]
    omega
  rw [encode, if_neg (by omega), len, count, count']
  dsimp only
  have header : store (store (store p.buffer 0 [networkCode]) 1 (Packet.shortBytes payload.length)) 3
      [randkey] = store p.buffer 0 (headerBytes payload.length randkey) := by
    have two := store_append p.buffer 0 [networkCode] (Packet.shortBytes payload.length)
    have three := store_append p.buffer 0 (networkCode :: Packet.shortBytes payload.length) [randkey]
    simp only [List.length_cons, List.length_nil, Packet.shortBytes] at two three
    exact Eq.trans (congrArg (store · 3 [randkey]) two) three
  have kept : load (store p.buffer 0 (headerBytes payload.length randkey)) 5 payload.length = payload := by
    rw [load_store_apart _ _ _ (by simp [headerBytes])]
    exact bytes
  have sum : UInt8.ofNat (sumLoop (store p.buffer 0 (headerBytes payload.length randkey))
      payload.length networkHeaderSize 0 % 256) = checkSum payload := by
    rw [sum_loop_eq, Nat.zero_add, checkSum]
    exact congrArg (fun bytes : Bytes => UInt8.ofNat ((bytes.map UInt8.toNat).sum % 256)) kept
  have summed : load (store (store p.buffer 0 (headerBytes payload.length randkey)) 4 [checkSum payload])
      4 (payload.length + 1) = checkSum payload :: payload := by
    rw [load_succ, load_store_apart _ _ _ (by simp)]
    have first := store_inside (store p.buffer 0 (headerBytes payload.length randkey)) 4
      [checkSum payload] (i := 0) (by simp)
    exact congrArg₂ List.cons first kept
  have cells : (encipher randkey 0 0 0 (checkSum payload :: payload)).length = payload.length + 1 :=
    length_encipher mix (plainMask randkey) cipherMask 0 0 0 (checkSum payload :: payload)
  rw [header, sum, encode_loop_eq, summed, frameBytes]
  generalize encipher randkey 0 0 0 (checkSum payload :: payload) = coded at cells
  refine ⟨rfl, ?_⟩
  rw [load_frame, ← cells, load_store_same, load_store_apart _ _ _ (.inl (by omega)),
    load_store_apart _ _ _ (.inl (by omega))]
  exact congrArg (· ++ coded) (load_store_same p.buffer 0 (headerBytes payload.length randkey))

/-- What `Decode` makes of a packet whose header counts its payload: the bytes from the
checksum on are deciphered, and the packet is accepted if the checksum fits. -/
theorem decode_spec {q : Packet} {n : Nat} (counted : (q.buffer 1).toNat + 256 * (q.buffer 2).toNat = n)
    (nonempty : 1 ≤ n) (size : q.dataSize = n + 5) {sum : UInt8} {payload : Bytes}
    (plain : decipher (q.buffer 3) 0 0 0 (load q.buffer 4 (n + 1)) = sum :: payload) :
    (decode q).1 = decide (checkSum payload = sum) ∧ load (decode q).2.buffer 5 n = payload := by
  have width : payload.length = n := by
    have lengths := congrArg List.length plain
    rw [decipher, length_decipher, length_load, List.length_cons] at lengths
    omega
  rw [decode, if_neg (by omega)]
  dsimp only
  rw [counted, decode_loop_eq, plain]
  have read : load (store q.buffer 4 (sum :: payload)) 4 (n + 1) = sum :: payload := by
    rw [← width]
    exact load_store_same _ 4 (sum :: payload)
  rw [load_succ] at read
  obtain ⟨first, behind⟩ := List.cons.inj read
  refine ⟨?_, behind⟩
  rw [sum_loop_eq, Nat.zero_add, first, checkSum]
  exact congrArg (fun bytes : Bytes =>
    decide (UInt8.ofNat ((bytes.map UInt8.toNat).sum % 256) = sum)) behind

/-! ## Round trips -/

/-- `Encode` and then `Decode`, in a packet that holds the same bytes, restores the
payload. -/
theorem decode_encode {p q : Packet} {payload : Bytes} (filled : Filled p payload)
    (nonempty : 1 ≤ payload.length) (small : payload.length < 65536) (randkey : UInt8)
    (size : q.dataSize = payload.length + 5)
    (received : load q.buffer 0 (payload.length + 5) =
      load (encode p randkey).2.buffer 0 (payload.length + 5)) :
    (decode q).1 = true ∧ load (decode q).2.buffer 5 payload.length = payload ∧
      Header.ofBytes (load q.buffer 0 5) = ⟨networkCode, payload.length⟩ := by
  rw [(encode_spec filled nonempty randkey).2,
    load_frame, frameBytes] at received
  obtain ⟨header, cells⟩ := List.append_inj received (by simp [headerBytes])
  have first : [q.buffer 0, q.buffer 1, q.buffer 2, q.buffer 3] =
      [networkCode, UInt8.ofNat payload.length, UInt8.ofNat (payload.length / 256), randkey] := header
  simp only [List.cons.injEq, and_true] at first
  obtain ⟨code, low, high, key⟩ := first
  have counted : (q.buffer 1).toNat + 256 * (q.buffer 2).toNat = payload.length := by
    rw [low, high]
    exact Message.short_bytes_value small
  have plain : decipher (q.buffer 3) 0 0 0 (load q.buffer 4 (payload.length + 1)) =
      checkSum payload :: payload := by
    rw [key, show load q.buffer 4 (payload.length + 1) = _ from cells]
    exact decipher_encipher _ _ mix_mix _ _ _ _
  obtain ⟨accepted, restored⟩ := decode_spec counted nonempty size plain
  refine ⟨?_, restored, ?_⟩
  · rw [accepted, decide_eq_true rfl]
  · exact congrArg₂ Header.mk code counted

/-- A frame that `Decode` accepts is what `Encode` makes of the payload it was decoded
to, with the key that stands in the frame. -/
theorem encode_decode {p q : Packet} {n : Nat} (code : q.buffer 0 = networkCode)
    (counted : (q.buffer 1).toNat + 256 * (q.buffer 2).toNat = n) (nonempty : 1 ≤ n)
    (size : q.dataSize = n + 5) (accepted : (decode q).1 = true)
    (filled : Filled p (load (decode q).2.buffer 5 n)) :
    (encode p (q.buffer 3)).1 = true ∧
      load (encode p (q.buffer 3)).2.buffer 0 (n + 5) = load q.buffer 0 (n + 5) := by
  have width := length_decipher mix (plainMask (q.buffer 3)) cipherMask 0 0 0 (load q.buffer 4 (n + 1))
  obtain ⟨sum, payload, plain⟩ : ∃ sum payload,
      decipher (q.buffer 3) 0 0 0 (load q.buffer 4 (n + 1)) = sum :: payload := by
    apply List.exists_cons_of_length_pos
    rw [decipher, width, length_load]
    omega
  obtain ⟨verdict, restored⟩ := decode_spec counted nonempty size plain
  rw [accepted] at verdict
  obtain rfl : checkSum payload = sum := of_decide_eq_true verdict.symm
  rw [restored] at filled
  have length : payload.length = n := by
    rw [← restored, length_load]
  obtain ⟨done, frame⟩ := encode_spec filled (by omega) (q.buffer 3)
  rw [length] at frame
  refine ⟨done, ?_⟩
  have again : encipher (q.buffer 3) 0 0 0 (checkSum payload :: payload) = load q.buffer 4 (n + 1) := by
    rw [← plain]
    exact encipher_decipher _ _ mix_mix _ _ _ _
  have low : UInt8.ofNat n = q.buffer 1 := by
    rw [← UInt8.toNat_inj, UInt8.toNat_ofNat']
    have := (q.buffer 1).toNat_lt
    omega
  have high : UInt8.ofNat (n / 256) = q.buffer 2 := by
    rw [← UInt8.toNat_inj, UInt8.toNat_ofNat']
    have := (q.buffer 1).toNat_lt
    have := (q.buffer 2).toNat_lt
    omega
  have header : headerBytes n (q.buffer 3) = load q.buffer 0 4 := by
    rw [headerBytes, ← code, low, high]
    rfl
  rw [frame, frameBytes, again, length, header, load_frame]

/-- `Encode` and `Decode` undo each other: on every payload that a cleared packet can
hold, with every key, and on every frame that `Decode` accepts. -/
theorem encode_decode_inverse :
    (∀ (block q : Packet) (payload : Bytes) (randkey : UInt8),
      1 ≤ payload.length → payload.length ≤ 1994 → q.dataSize = payload.length + 5 →
      load q.buffer 0 (payload.length + 5) =
        load (encode (block.clear.putData payload) randkey).2.buffer 0 (payload.length + 5) →
      (encode (block.clear.putData payload) randkey).1 = true ∧ (decode q).1 = true ∧
        load (decode q).2.buffer 5 payload.length = payload ∧
        Header.ofBytes (load q.buffer 0 5) = ⟨networkCode, payload.length⟩) ∧
    (∀ (p q : Packet) (n : Nat), Header.ofBytes (load q.buffer 0 5) = ⟨networkCode, n⟩ → 1 ≤ n →
      q.dataSize = n + 5 → (decode q).1 = true → Filled p (load (decode q).2.buffer 5 n) →
      (encode p (q.buffer 3)).1 = true ∧
        load (encode p (q.buffer 3)).2.buffer 0 (n + 5) = load q.buffer 0 (n + 5)) := by
  refine ⟨?_, ?_⟩
  · intro block q payload randkey nonempty fits size received
    have filled := put_filled block nonempty fits
    obtain ⟨accepted, restored, header⟩ := decode_encode filled nonempty (by omega) randkey size received
    exact ⟨(encode_spec filled nonempty randkey).1, accepted, restored, header⟩
  · intro p q n header nonempty size accepted filled
    obtain ⟨code, counted⟩ := Header.mk.inj header
    exact encode_decode code counted nonempty size accepted filled

/-- A block whose buffer holds these bytes at `begin`. -/
def received (bytes : Bytes) : Packet :=
  ⟨store (fun _ => 0) 0 bytes, 0, bytes.length, bytes.length, 1, false⟩

/-- Three bytes under the key 200, there and back, and the frame they were sent in,
decoded and encoded again. -/
theorem encode_decode_inverse_three :
    let sent := (encode ((received []).clear.putData [1, 2, 255]) 200).2
    let q := received (load sent.buffer 0 8)
    load sent.buffer 0 8 = [0x77, 3, 0, 200, 248, 184, 176, 48] ∧ (decode q).1 = true ∧
      load (decode q).2.buffer 5 3 = [1, 2, 255] ∧
      load (encode ((received []).clear.putData (load (decode q).2.buffer 5 3)) 200).2.buffer 0 8 =
        load q.buffer 0 8 := by
  intro sent q
  obtain ⟨_, accepted, restored, header⟩ := encode_decode_inverse.1 (received []) q [1, 2, 255] 200
    (by decide) (by decide) (by decide) (by decide)
  have again := encode_decode_inverse.2
    ((received []).clear.putData (load (decode q).2.buffer 5 3)) q 3 header (by decide) (by decide)
    accepted (put_filled _ (by decide) (by decide))
  exact ⟨by decide, accepted, restored, again.2⟩

end NewNameAuction.EncodeOption
