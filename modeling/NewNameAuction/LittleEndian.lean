import NewNameAuction.ByteMemory
import Mathlib.Algebra.Order.Group.Nat

/-! Numbers as little-endian bytes: writing and reading with a fixed width are inverse
to each other, up to the width. -/
namespace NewNameAuction
open ByteMemory

/-- Little-endian value of some bytes. -/
def littleEndian : Bytes → Nat
  | [] => 0
  | byte :: rest => byte.toNat + 256 * littleEndian rest

/-- The `width` low bytes of a number. -/
def leBytes : Nat → Nat → Bytes
  | 0, _ => []
  | width + 1, n => .ofNat n :: leBytes width (n / 256)

@[simp] theorem length_leBytes (width n : Nat) : (leBytes width n).length = width := by
  induction width generalizing n with
  | zero => rfl
  | succ width ih => simp [leBytes, ih]

theorem littleEndian_leBytes (width n : Nat) : littleEndian (leBytes width n) = n % 256 ^ width := by
  induction width generalizing n with
  | zero => simp [leBytes, littleEndian, Nat.mod_one]
  | succ width ih =>
    have split : n % 256 ^ (width + 1) = n % 256 + 256 * (n / 256 % 256 ^ width) := by
      rw [pow_succ', Nat.mod_mul]
    rw [leBytes, littleEndian, ih, UInt8.toNat_ofNat', split]

/-- A number written in enough bytes is read back. -/
theorem littleEndian_of_lt {width n : Nat} (fits : n < 256 ^ width) :
    littleEndian (leBytes width n) = n := by
  rw [littleEndian_leBytes, Nat.mod_eq_of_lt fits]

theorem leBytes_littleEndian (bytes : Bytes) : leBytes bytes.length (littleEndian bytes) = bytes := by
  induction bytes with
  | nil => rfl
  | cons byte rest ih =>
    have small := byte.toNat_lt
    have low : UInt8.ofNat (byte.toNat + 256 * littleEndian rest) = byte := by
      apply UInt8.toNat_inj.mp
      rw [UInt8.toNat_ofNat']
      omega
    have high : (byte.toNat + 256 * littleEndian rest) / 256 = littleEndian rest := by omega
    rw [List.length_cons, littleEndian, leBytes, low, high, ih]

theorem littleEndian_lt (bytes : Bytes) : littleEndian bytes < 256 ^ bytes.length := by
  have value := littleEndian_leBytes bytes.length (littleEndian bytes)
  rw [leBytes_littleEndian] at value
  rw [value]
  exact Nat.mod_lt _ (by positivity)

/-- Bytes of one width are told apart by their value. -/
theorem littleEndian_inj {bytes bytes' : Bytes} (width : bytes.length = bytes'.length)
    (value : littleEndian bytes = littleEndian bytes') : bytes = bytes' := by
  rw [← leBytes_littleEndian bytes, ← leBytes_littleEndian bytes', width, value]

/-- The bytes of a number are those of its remainder. -/
theorem leBytes_eq_iff {width n m : Nat} :
    leBytes width n = leBytes width m ↔ n % 256 ^ width = m % 256 ^ width := by
  rw [← littleEndian_leBytes width n, ← littleEndian_leBytes width m]
  exact ⟨congrArg littleEndian, littleEndian_inj (by rw [length_leBytes, length_leBytes])⟩

theorem leBytes_add (low high n : Nat) :
    leBytes (low + high) n = leBytes low n ++ leBytes high (n / 256 ^ low) := by
  induction low generalizing n with
  | zero => simp [leBytes]
  | succ low ih =>
    rw [Nat.succ_add, leBytes, leBytes, ih, List.cons_append, Nat.div_div_eq_div_mul, ← pow_succ']

end NewNameAuction
