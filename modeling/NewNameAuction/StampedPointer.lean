import Mathlib.Data.Nat.Bitwise

/-! A pointer and a stamp in one word of 64 bits. Addresses take 48 bits, so that an
interlocked operation on the word replaces the pointer and counts at the same time. -/
namespace NewNameAuction.StampedPointer

def pointerMask : BitVec 64 := 0x0000FFFFFFFFFFFF#64
def stampMask : BitVec 64 := 0xFFFF000000000000#64

/-- An address that leaves the stamp its 16 bits. -/
structure Address where
  address : BitVec 64
  nonnull : address ≠ 0
  small : address.toNat < 2 ^ 48
  deriving DecidableEq

def addressOf : Option Address → BitVec 64
  | none => 0
  | some p => p.address

def stamp (word : BitVec 64) : BitVec 16 := ((word &&& stampMask) >>> 48).setWidth 16

theorem masked_toNat (word : BitVec 64) : (word &&& pointerMask).toNat = word.toNat % 2 ^ 48 := by
  rw [BitVec.toNat_and]
  exact Nat.and_two_pow_sub_one_eq_mod word.toNat 48

theorem masked_small (word : BitVec 64) : (word &&& pointerMask).toNat < 2 ^ 48 := by
  rw [masked_toNat]
  exact Nat.mod_lt _ (Nat.two_pow_pos 48)

/-- The pointer in the word. -/
def pointer (word : BitVec 64) : Option Address :=
  if null : word &&& pointerMask = 0 then none else some ⟨word &&& pointerMask, null, masked_small word⟩

/-- A word with both. -/
def stamped (next : Option Address) (stamp : BitVec 16) : BitVec 64 :=
  addressOf next ||| stamp.signExtend 64 <<< 48

/-- A new pointer with the stamp of a word. -/
def relinked (p : Address) (word : BitVec 64) : BitVec 64 :=
  p.address ||| (word &&& stampMask)

theorem address_small (next : Option Address) : (addressOf next).toNat < 2 ^ 48 := by
  cases next with
  | none => decide
  | some p => exact p.small

theorem pointer_of_masked {word : BitVec 64} {next : Option Address}
    (masked : (word &&& pointerMask).toNat = (addressOf next).toNat) : pointer word = next := by
  have same := BitVec.eq_of_toNat_eq masked
  unfold pointer
  cases next with
  | none => exact dif_pos same
  | some p =>
    have nonnull : word &&& pointerMask ≠ 0 := fun null => p.nonnull (same.symm.trans null)
    rw [dif_neg nonnull]
    congr 1
    cases p
    congr 1

theorem stamp_toNat (word : BitVec 64) : (stamp word).toNat = word.toNat / 2 ^ 48 := by
  have mask : stampMask.toNat >>> 48 = 2 ^ 16 - 1 := by decide
  rw [stamp, BitVec.toNat_setWidth, BitVec.toNat_ushiftRight, BitVec.toNat_and,
    Nat.shiftRight_and_distrib, mask, Nat.and_two_pow_sub_one_eq_mod, Nat.shiftRight_eq_div_pow]
  omega

theorem upper_toNat (word : BitVec 64) :
    (word &&& stampMask).toNat = (word.toNat / 2 ^ 48) <<< 48 := by
  have mask : stampMask.toNat = (2 ^ 16 - 1) <<< 48 := by decide
  rw [BitVec.toNat_and, mask]
  refine Nat.eq_of_testBit_eq fun i => ?_
  rw [Nat.testBit_and, Nat.testBit_shiftLeft, Nat.testBit_shiftLeft, Nat.testBit_two_pow_sub_one,
    Nat.testBit_div_two_pow]
  by_cases low : 48 ≤ i
  · rw [Nat.sub_add_cancel low]
    by_cases high : i < 64
    · simp [low]
      omega
    · have above := Nat.pow_le_pow_right (n := 2) (by decide) (Nat.le_of_not_lt high)
      simp [Nat.testBit_lt_two_pow (Nat.lt_of_lt_of_le word.isLt above)]
  · simp [low]

theorem stamped_toNat (next : Option Address) (stamp : BitVec 16) :
    (stamped next stamp).toNat = 2 ^ 48 * stamp.toNat + (addressOf next).toNat := by
  have shifted : (stamp.signExtend 64 <<< 48).toNat = stamp.toNat <<< 48 := by
    rw [BitVec.toNat_shiftLeft, BitVec.toNat_signExtend, BitVec.toNat_setWidth, Nat.shiftLeft_eq,
      Nat.shiftLeft_eq]
    split <;> omega
  rw [stamped, BitVec.toNat_or, shifted, Nat.or_comm,
    ← Nat.shiftLeft_add_eq_or_of_lt (address_small next), Nat.shiftLeft_eq, Nat.mul_comm]

theorem relinked_toNat (p : Address) (word : BitVec 64) :
    (relinked p word).toNat = 2 ^ 48 * (stamp word).toNat + p.address.toNat := by
  rw [relinked, BitVec.toNat_or, upper_toNat, Nat.or_comm, ← Nat.shiftLeft_add_eq_or_of_lt p.small,
    Nat.shiftLeft_eq, Nat.mul_comm, stamp_toNat]

theorem addressOf_pointer (word : BitVec 64) : addressOf (pointer word) = word &&& pointerMask := by
  unfold pointer
  split
  · next null => exact null.symm
  · rfl

/-- The pointer and the stamp are all there is in the word. -/
theorem word_ext {word word' : BitVec 64} (pointers : pointer word = pointer word')
    (stamps : stamp word = stamp word') : word = word' := by
  have low := congrArg (fun next => (addressOf next).toNat) pointers
  have high := congrArg BitVec.toNat stamps
  simp only [addressOf_pointer, masked_toNat, stamp_toNat] at low high
  exact BitVec.eq_of_toNat_eq (by omega)

@[simp] theorem pointer_stamped (next : Option Address) (stamp : BitVec 16) :
    pointer (stamped next stamp) = next := by
  have small := address_small next
  refine pointer_of_masked ?_
  rw [masked_toNat, stamped_toNat]
  omega

@[simp] theorem stamp_stamped (next : Option Address) (stamp : BitVec 16) :
    StampedPointer.stamp (stamped next stamp) = stamp := by
  have small := address_small next
  refine BitVec.eq_of_toNat_eq ?_
  rw [stamp_toNat, stamped_toNat]
  omega

@[simp] theorem pointer_relinked (p : Address) (word : BitVec 64) :
    pointer (relinked p word) = some p := by
  have small := p.small
  refine pointer_of_masked ?_
  rw [masked_toNat, relinked_toNat, addressOf]
  omega

@[simp] theorem stamp_relinked (p : Address) (word : BitVec 64) :
    stamp (relinked p word) = stamp word := by
  have small := p.small
  refine BitVec.eq_of_toNat_eq ?_
  rw [stamp_toNat, relinked_toNat]
  omega

@[simp] theorem pointer_null : pointer 0#64 = none := pointer_of_masked rfl

@[simp] theorem pointer_address (p : Address) : pointer p.address = some p := by
  have small := p.small
  refine pointer_of_masked ?_
  rw [masked_toNat, addressOf]
  omega

end NewNameAuction.StampedPointer
