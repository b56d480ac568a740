import Mathlib.Data.List.Basic
import Mathlib.Order.Interval.Finset.Nat
import Mathlib.Algebra.GroupWithZero.Nat

/-!
# Disjoint blocks in a segment

Blocks are half-open intervals of natural numbers. Pairwise disjoint blocks inside a
segment cannot take more room than the segment has.
-/

namespace Lib

universe u

variable {α : Type u} {addr size : α → ℕ} {lo hi : ℕ}

/-- Two blocks that do not overlap. -/
def Apart (addr size : α → ℕ) (x y : α) : Prop :=
  addr x + size x ≤ addr y ∨ addr y + size y ≤ addr x

/-- The cells of a list of blocks. -/
def cells (addr size : α → ℕ) : List α → Finset ℕ
  | [] => ∅
  | x :: l => Finset.Ico (addr x) (addr x + size x) ∪ cells addr size l

theorem mem_cells {l : List α} {c : ℕ} :
    c ∈ cells addr size l ↔ ∃ x ∈ l, addr x ≤ c ∧ c < addr x + size x := by
  induction l with
  | nil => simp [cells]
  | cons x l ih => simp [cells, ih]

/-- Disjoint blocks have as many cells as their sizes say. -/
theorem card_cells {l : List α} (h : l.Pairwise (Apart addr size)) :
    (cells addr size l).card = (l.map size).sum := by
  induction l with
  | nil => rfl
  | cons x l ih =>
      obtain ⟨hx, hl⟩ := List.pairwise_cons.mp h
      have hdisj : Disjoint (Finset.Ico (addr x) (addr x + size x)) (cells addr size l) := by
        rw [Finset.disjoint_left]
        intro c hc hcl
        obtain ⟨y, hy, hlo, hhi⟩ := mem_cells.mp hcl
        obtain ⟨hc₁, hc₂⟩ := Finset.mem_Ico.mp hc
        rcases hx y hy with h | h <;> omega
      rw [cells, Finset.card_union_of_disjoint hdisj, Nat.card_Ico, ih hl, List.map_cons,
        List.sum_cons, Nat.add_sub_cancel_left]

/-- **The sizes of disjoint blocks add up to at most the size of the segment.** -/
theorem sum_size_le {l : List α} (hin : ∀ x ∈ l, lo ≤ addr x ∧ addr x + size x ≤ hi)
    (h : l.Pairwise (Apart addr size)) : (l.map size).sum ≤ hi - lo := by
  have hsub : cells addr size l ⊆ Finset.Ico lo hi := by
    intro c hc
    obtain ⟨x, hx, hlo, hhi⟩ := mem_cells.mp hc
    obtain ⟨h₁, h₂⟩ := hin x hx
    exact Finset.mem_Ico.mpr ⟨h₁.trans hlo, hhi.trans_le h₂⟩
  rw [← card_cells h, ← Nat.card_Ico]
  exact Finset.card_le_card hsub

end Lib
