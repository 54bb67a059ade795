import Mathlib.Data.List.TakeWhile
import NewNameAuction.LittleEndian

/-! Wide strings and the ten-`WCHAR` nickname fields. A field that the program
wrote with `wcscpy_s` is terminated; a local that `GetData` filled, or left as
it was, may not be, and then reading it as a string goes on behind the field. -/
namespace NewNameAuction
open ByteMemory

def nicknameMaxLength : Nat := 10

/-- `wstring`, and what a C string holds before its terminator. -/
abbrev WString := List UInt16

/-- How the process can leave defined behaviour. -/
inductive Fault
  /-- `wcscpy_s` was given a source that does not fit. -/
  | abort
  /-- `end()` was dereferenced or erased. -/
  | endIterator
  /-- A vector was indexed past its size. -/
  | outOfRange
  deriving DecidableEq

/-- What a computation that returned has computed first. -/
theorem bind_ok {ε α β : Type} {first : Except ε α} {next : α → Except ε β} {result : β} :
    first >>= next = .ok result ↔ ∃ value, first = .ok value ∧ next value = .ok result := by
  cases first with
  | error fault => simp [Bind.bind, Except.bind]
  | ok value => simp [Bind.bind, Except.bind]

/-- A computation fails in its first part, or after it. -/
theorem bind_error {ε α β : Type} {first : Except ε α} {next : α → Except ε β} {fault : ε} :
    first >>= next = .error fault ↔
      first = .error fault ∨ ∃ value, first = .ok value ∧ next value = .error fault := by
  cases first with
  | error fault => simp [Bind.bind, Except.bind]
  | ok value => simp [Bind.bind, Except.bind]

/-- The string that starts at the first of these `WCHAR`s. -/
def cString (words : List UInt16) : WString := words.takeWhile (· ≠ 0)

/-- A terminated `WCHAR[en_NICKNAME_MAX_LENGTH]`. -/
structure NickName where
  chars : WString
  fits : chars.length < nicknameMaxLength
  plain : 0 ∉ chars
  deriving DecidableEq

theorem zero_notMem_cString (words : List UInt16) : 0 ∉ cString words := fun zero => by
  simpa using List.mem_takeWhile_imp zero

/-- `wcscpy_s` into a nickname field. -/
def wcscpyS (source : WString) : Except Fault NickName :=
  if fits : (cString source).length < nicknameMaxLength then
    .ok ⟨cString source, fits, zero_notMem_cString source⟩
  else .error .abort

theorem cString_chars (name : NickName) : cString name.chars = name.chars := by
  unfold cString
  rw [List.takeWhile_eq_self_iff]
  intro c member
  simpa using fun zero : c = 0 => name.plain (zero ▸ member)

/-- Copying one field to another cannot fail. -/
@[simp] theorem wcscpyS_chars (name : NickName) : wcscpyS name.chars = .ok name := by
  unfold wcscpyS
  have fits := name.fits
  simp [cString_chars, fits]

/-! ## Fields of a packet

`>>` and `GetData` take a field off the front of the packet; with too few bytes
left they do nothing, and the local variable keeps what it held. -/

def extract {α : Type} (size : Nat) (decode : Bytes → α) (old : α) (packet : Bytes) : α × Bytes :=
  if packet.length < size then (old, packet) else (decode (packet.take size), packet.drop size)

theorem extract_whole {α : Type} {size : Nat} {packet : Bytes} (whole : size ≤ packet.length)
    (decode : Bytes → α) (old : α) :
    extract size decode old packet = (decode (packet.take size), packet.drop size) :=
  if_neg (Nat.not_lt.mpr whole)

def getWord : UInt16 → Bytes → UInt16 × Bytes := extract 2 fun bytes => .ofNat (littleEndian bytes)

def getInt8 : Int8 → Bytes → Int8 × Bytes := extract 1 fun bytes => .ofNat (littleEndian bytes)

def getInt32 : Int32 → Bytes → Int32 × Bytes := extract 4 fun bytes => .ofNat (littleEndian bytes)

def getInt64 : Int64 → Bytes → Int64 × Bytes := extract 8 fun bytes => .ofNat (littleEndian bytes)

/-- The `WCHAR`s that lie in some bytes. -/
def wideChars : Bytes → List UInt16
  | low :: high :: rest => .ofNat (littleEndian [low, high]) :: wideChars rest
  | _ => []

/-- `GetData((char*)NickName, sizeof(WCHAR) * en_NICKNAME_MAX_LENGTH)`. -/
def getNickName : List UInt16 → Bytes → List UInt16 × Bytes :=
  extract (2 * nicknameMaxLength) wideChars

end NewNameAuction
