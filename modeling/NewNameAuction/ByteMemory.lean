import Mathlib.Data.List.GetD
import Mathlib.Tactic.Linarith

/-! A flat byte memory addressed by signed offsets, with block reads and block
writes. The laws say what a copy leaves in the cells it covers and that it
touches no other cell. -/
namespace NewNameAuction.ByteMemory

abbrev Bytes := List UInt8

/-- Every offset holds a byte, whether or not a program may touch it. -/
abbrev Memory := Int → UInt8

/-- The `count` bytes that start at `start`. -/
def load (m : Memory) (start : Int) (count : Nat) : Bytes :=
  (List.range count).map fun i : Nat => m (start + (i : Int))

/-- `memcpy` of a whole block to `start`. -/
def store (m : Memory) (start : Int) (bytes : Bytes) : Memory := fun p =>
  if start ≤ p ∧ p < start + bytes.length then bytes.getD (p - start).toNat 0 else m p

variable (m : Memory) (start : Int) (bytes : Bytes)

@[simp] theorem length_load (count : Nat) : (load m start count).length = count := by
  simp [load]

@[simp] theorem load_zero : load m start 0 = [] := rfl

@[simp] theorem getElem_load {count i : Nat} (inside : i < (load m start count).length) :
    (load m start count)[i] = m (start + i) := by
  simp [load]

theorem store_nil : store m start [] = m := by
  funext p
  rw [store, if_neg]
  simp only [List.length_nil]
  omega

/-- A cell of the block receives its own byte. -/
theorem store_inside {i : Nat} (inside : i < bytes.length) :
    store m start bytes (start + i) = bytes[i] := by
  have offset : (start + (i : Int) - start).toNat = i := by omega
  rw [store, if_pos ⟨by omega, by omega⟩, offset, List.getD_eq_getElem _ _ inside]

/-- A cell before or after the block keeps its byte. -/
theorem store_outside {p : Int} (outside : p < start ∨ start + bytes.length ≤ p) :
    store m start bytes p = m p := by
  rw [store, if_neg (by omega)]

/-- Two adjacent copies are one. -/
theorem store_append (more : Bytes) :
    store (store m start bytes) (start + bytes.length) more = store m start (bytes ++ more) := by
  funext p
  simp only [store, List.length_append]
  by_cases inFirst : start ≤ p ∧ p < start + bytes.length
  · rw [if_neg (by omega), if_pos inFirst, if_pos (by omega),
      List.getD_append _ _ _ _ (by omega)]
  · by_cases inMore : start + bytes.length ≤ p ∧ p < start + bytes.length + more.length
    · rw [if_pos inMore, if_pos (by omega), List.getD_append_right _ _ _ _ (by omega)]
      congr 1
      omega
    · rw [if_neg inMore, if_neg inFirst, if_neg (by omega)]

theorem load_append (first second : Nat) :
    load m start (first + second) = load m start first ++ load m (start + first) second := by
  apply List.ext_getElem
  · simp
  · intro i inside _
    rw [List.getElem_append]
    split
    · simp
    · rename_i past
      simp only [length_load] at past inside ⊢
      simp only [getElem_load]
      congr 1
      omega

theorem take_load {first count : Nat} (le : first ≤ count) :
    (load m start count).take first = load m start first := by
  obtain ⟨rest, rfl⟩ := Nat.exists_eq_add_of_le le
  rw [load_append, List.take_left' (length_load ..)]

theorem drop_load {first count : Nat} (le : first ≤ count) :
    (load m start count).drop first = load m (start + first) (count - first) := by
  obtain ⟨rest, rfl⟩ := Nat.exists_eq_add_of_le le
  rw [load_append, List.drop_left' (length_load ..), Nat.add_sub_cancel_left]

/-- Reading a block back gives the bytes that were copied there. -/
theorem load_store_same : load (store m start bytes) start bytes.length = bytes := by
  apply List.ext_getElem
  · simp
  · intro i inside inBytes
    rw [getElem_load, store_inside m start bytes inBytes]

/-- A copy changes no block that lies apart from it. -/
theorem load_store_apart {other : Int} {count : Nat}
    (apart : other + count ≤ start ∨ start + bytes.length ≤ other) :
    load (store m start bytes) other count = load m other count := by
  apply List.ext_getElem
  · simp
  · intro i inside _
    simp only [length_load] at inside
    simp only [getElem_load]
    exact store_outside m start bytes (by omega)

end NewNameAuction.ByteMemory
