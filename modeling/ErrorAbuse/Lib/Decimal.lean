import Mathlib.Data.Nat.Digits.Lemmas

/-!
# Decimal numerals

`decimal n` is the numeral of `n` in ASCII. It contains digits only, and different numbers
have different numerals, so that numerals joined by another character can be told apart.
-/

namespace Lib

/-- The decimal numeral of a number. -/
def decimal (n : ℕ) : List UInt8 :=
  if n = 0 then [48] else (Nat.digits 10 n).reverse.map fun d => UInt8.ofNat (48 + d)

theorem mem_decimal {n : ℕ} {b : UInt8} (h : b ∈ decimal n) : 48 ≤ b.toNat ∧ b.toNat ≤ 57 := by
  rw [decimal] at h
  split_ifs at h
  · obtain rfl := List.mem_singleton.mp h
    decide
  · obtain ⟨d, hd, rfl⟩ := List.mem_map.mp h
    have hlt : d < 10 := Nat.digits_lt_base (by norm_num) (List.mem_reverse.mp hd)
    interval_cases d <;> decide

/-- A byte that is no digit does not occur. -/
theorem not_mem_decimal {b : UInt8} (hb : b.toNat < 48 ∨ 57 < b.toNat) (n : ℕ) : b ∉ decimal n := by
  intro h
  have := mem_decimal h
  omega

/-- The number a numeral stands for. -/
def ofDecimal (l : List UInt8) : ℕ :=
  Nat.ofDigits 10 (l.reverse.map fun b => b.toNat - 48)

theorem ofDecimal_append_singleton (text : List UInt8) (b : UInt8) :
    ofDecimal (text ++ [b]) = ofDecimal text * 10 + (b.toNat - 48) := by
  simp [ofDecimal, Nat.ofDigits_cons, add_comm, mul_comm]

theorem ofDecimal_decimal (n : ℕ) : ofDecimal (decimal n) = n := by
  rw [decimal]
  split_ifs with hn
  · exact hn.symm
  · have hdigits : (Nat.digits 10 n).map (fun d => (UInt8.ofNat (48 + d)).toNat - 48) =
        Nat.digits 10 n := by
      refine (List.map_congr_left fun d hd => ?_).trans (List.map_id _)
      have hlt : d < 10 := Nat.digits_lt_base (by norm_num) hd
      interval_cases d <;> rfl
    rw [ofDecimal, ← List.map_reverse, List.reverse_reverse, List.map_map, Function.comp_def,
      hdigits, Nat.ofDigits_digits]

theorem decimal_injective : Function.Injective decimal :=
  Function.LeftInverse.injective ofDecimal_decimal

/-- Texts joined by a character that the first ones do not contain can be told apart. -/
theorem append_cons_inj {α : Type*} {a : α} {l₁ l₂ r₁ r₂ : List α} (h₁ : a ∉ l₁) (h₂ : a ∉ l₂)
    (h : l₁ ++ a :: r₁ = l₂ ++ a :: r₂) : l₁ = l₂ ∧ r₁ = r₂ := by
  induction l₁ generalizing l₂ with
  | nil =>
      cases l₂ with
      | nil => exact ⟨rfl, (List.cons.inj h).2⟩
      | cons b l₂ => exact absurd ((List.cons.inj h).1 ▸ List.mem_cons_self) h₂
  | cons b l₁ ih =>
      cases l₂ with
      | nil => exact absurd ((List.cons.inj h).1 ▸ List.mem_cons_self) h₁
      | cons c l₂ =>
          obtain ⟨rfl, htail⟩ := List.cons.inj h
          obtain ⟨rfl, hr⟩ := ih (fun hm => h₁ (.tail _ hm)) (fun hm => h₂ (.tail _ hm)) htail
          exact ⟨rfl, hr⟩

end Lib
