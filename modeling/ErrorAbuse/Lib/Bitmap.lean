import Mathlib.Data.Set.Insert

/-!
# Bitmaps

A sequence of bytes is read as the set of the numbers whose bits are set: the bit of `i` is bit
`i % 8` of byte `i / 8`. Setting a bit adds its number and no other.
-/

namespace Lib

/-- Whether the bit of a number is set. Past the last byte none is. -/
def bitOf (bytes : List UInt8) (i : ℕ) : Bool := (bytes.getD (i >>> 3) 0).toNat.testBit (i &&& 7)

/-- A byte with the bit of a number set. -/
def withBit (b : UInt8) (i : ℕ) : UInt8 := UInt8.ofNat (b.toNat ||| 1 <<< (i &&& 7))

/-- The bit of a number is set, if there is a byte for it. -/
def setBit (bytes : List UInt8) (i : ℕ) : List UInt8 :=
  bytes.set (i >>> 3) (withBit (bytes.getD (i >>> 3) 0) i)

/-- The numbers in a bitmap. -/
def members (bytes : List UInt8) : Set ℕ := {i | bitOf bytes i = true}

variable {bytes : List UInt8} {i j : ℕ}

@[simp] theorem mem_members : i ∈ members bytes ↔ bitOf bytes i = true := Iff.rfl

@[simp] theorem length_setBit : (setBit bytes i).length = bytes.length := List.length_set

theorem and_seven (i : ℕ) : i &&& 7 = i % 8 := Nat.and_two_pow_sub_one_eq_mod i 3

theorem shiftRight_three (i : ℕ) : i >>> 3 = i / 8 := Nat.shiftRight_eq_div_pow i 3

theorem testBit_withBit (b : UInt8) (i : ℕ) (hj : j < 8) :
    (withBit b i).toNat.testBit j = (b.toNat.testBit j || decide (i % 8 = j)) := by
  rw [withBit, and_seven, UInt8.toNat_ofNat', Nat.testBit_mod_two_pow, Nat.testBit_or,
    Nat.one_shiftLeft, Nat.testBit_two_pow]
  simp [hj]

theorem bitOf_setBit (hi : i >>> 3 < bytes.length) (j : ℕ) :
    bitOf (setBit bytes i) j = (bitOf bytes j || decide (i = j)) := by
  have hj : j % 8 < 8 := Nat.mod_lt j (by decide)
  rw [bitOf, bitOf, and_seven]
  by_cases hbyte : j >>> 3 = i >>> 3
  · have hself : (setBit bytes i).getD (j >>> 3) 0 = withBit (bytes.getD (j >>> 3) 0) i := by
      simp [setBit, hbyte, List.getD_eq_getElem?_getD, hi]
    have heq : i % 8 = j % 8 ↔ i = j := by
      rw [shiftRight_three, shiftRight_three] at hbyte
      omega
    rw [hself, testBit_withBit _ i hj]
    simp [heq]
  · have hother : (setBit bytes i).getD (j >>> 3) 0 = bytes.getD (j >>> 3) 0 := by
      simp [setBit, List.getD_eq_getElem?_getD, List.getElem?_set_ne (Ne.symm hbyte)]
    have hne : i ≠ j := fun h => hbyte (h ▸ rfl)
    rw [hother]
    simp [hne]

/-- Setting the bit of a number adds the number. -/
theorem members_setBit (hi : i >>> 3 < bytes.length) :
    members (setBit bytes i) = insert i (members bytes) := by
  ext j
  rw [Set.mem_insert_iff, mem_members, mem_members, bitOf_setBit hi, Bool.or_eq_true,
    decide_eq_true_iff, or_comm, eq_comm]

/-- A bitmap has no numbers but those it has bits for. -/
theorem lt_of_mem_members (h : i ∈ members bytes) : i < 8 * bytes.length := by
  by_contra hge
  have hlen : bytes.length ≤ i >>> 3 := by
    rw [shiftRight_three]
    omega
  simp [bitOf, List.getD_eq_getElem?_getD, List.getElem?_eq_none hlen] at h

end Lib
