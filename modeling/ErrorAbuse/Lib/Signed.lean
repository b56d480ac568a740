import Mathlib.Algebra.Order.Ring.Int
import Mathlib.Tactic.Positivity

/-!
# Checked signed arithmetic

`Fits w z` says that `z` is a value of the signed type of `w` bits. An operation yields the exact
result where that fits and `none`, an overflow, where it does not. A conversion never fails: it
keeps what fits and reduces anything else modulo `2 ^ w`.
-/

namespace Lib

namespace Signed

/-- The values of the signed type of `w` bits. -/
def Fits (w : ℕ) (z : ℤ) : Prop := -2 ^ (w - 1) ≤ z ∧ z < 2 ^ (w - 1)

instance (w : ℕ) (z : ℤ) : Decidable (Fits w z) := inferInstanceAs (Decidable (_ ∧ _))

/-- A result, if it fits. -/
def check (w : ℕ) (z : ℤ) : Option ℤ := if Fits w z then some z else none

def add (w : ℕ) (a b : ℤ) : Option ℤ := check w (a + b)
def sub (w : ℕ) (a b : ℤ) : Option ℤ := check w (a - b)
def mul (w : ℕ) (a b : ℤ) : Option ℤ := check w (a * b)

def convert (w : ℕ) (z : ℤ) : ℤ := z.bmod (2 ^ w)

variable {v w : ℕ} {a b z z' : ℤ}

theorem check_of_fits (h : Fits w z) : check w z = some z := if_pos h

/-- What is computed is exact. -/
theorem check_eq_some : check w z = some z' ↔ Fits w z ∧ z = z' := by
  rw [check]
  split_ifs with h
  · simp [h]
  · simp [h]

theorem fits_of_nonneg (h : 0 ≤ z) : Fits w z ↔ z < 2 ^ (w - 1) := by
  have hpos : (0 : ℤ) < 2 ^ (w - 1) := by positivity
  exact and_iff_right (by omega)

/-- Between two values all fit. -/
theorem Fits.between (ha : Fits w a) (hb : Fits w b) (haz : a ≤ z) (hzb : z ≤ b) : Fits w z :=
  ⟨ha.1.trans haz, hzb.trans_lt hb.2⟩

theorem Fits.mono (h : Fits v z) (hvw : v ≤ w) : Fits w z := by
  have hpow : (2 : ℤ) ^ (v - 1) ≤ 2 ^ (w - 1) :=
    pow_le_pow_right₀ one_le_two (Nat.sub_le_sub_right hvw 1)
  obtain ⟨hle, hlt⟩ := h
  exact ⟨by omega, by omega⟩

/-- Values that are not negative have a difference. -/
theorem sub_of_nonneg (ha : 0 ≤ a) (hb : 0 ≤ b) (hfa : Fits w a) (hfb : Fits w b) :
    sub w a b = some (a - b) := by
  refine check_of_fits ⟨?_, ?_⟩
  · have hlt := hfb.2
    omega
  · have hlt := hfa.2
    omega

theorem convert_of_fits (hw : 0 < w) (h : Fits w z) : convert w z = z := by
  have hpow : (2 : ℤ) ^ w = 2 ^ (w - 1) * 2 := by
    rw [← pow_succ, Nat.sub_add_cancel hw]
  obtain ⟨hle, hlt⟩ := h
  refine Int.bmod_eq_of_le_mul_two ?_ ?_
  · push_cast
    omega
  · push_cast
    omega

end Signed

end Lib
