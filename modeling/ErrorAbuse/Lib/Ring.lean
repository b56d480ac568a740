import Mathlib.Data.List.Basic
import Mathlib.Data.List.GetD
import Mathlib.Data.List.Range
import Mathlib.Data.Nat.ModEq
import Mathlib.Order.Basic
import Mathlib.Tactic.Common

/-!
# Ring buffers read as queues, and cutoff windows

A ring is a block of slots with a head index and a count. `Ring.contents` reads
it oldest first; pushing writes the slot one past the last entry and popping
advances the head, both modulo the capacity. Slots outside the contents are
unrestricted.

A cutoff window over a sequence keeps the entries strictly above a bound. Over a
nondecreasing sequence the window is a suffix, so dropping from the front while
the head is at or below the bound computes it.
-/

namespace Lib

universe u

namespace Ring

variable {α : Type u} (d : α)

/-- The entries of a ring, oldest first. -/
def contents (cap : ℕ) (slots : List α) (head count : ℕ) : List α :=
  (List.range count).map fun i => slots.getD ((head + i) % cap) d

variable {d} {cap head count : ℕ} {slots : List α}

@[simp] theorem contents_zero (cap : ℕ) (slots : List α) (head : ℕ) :
    contents d cap slots head 0 = [] := rfl

@[simp] theorem length_contents (cap : ℕ) (slots : List α) (head count : ℕ) :
    (contents d cap slots head count).length = count := by simp [contents]

/-- The head entry, then the ring one slot on. -/
theorem contents_succ (hhead : head < cap) :
    contents d cap slots head (count + 1) =
      slots.getD head d :: contents d cap slots ((head + 1) % cap) count := by
  simp only [contents, List.range_succ_eq_map, List.map_cons, List.map_map, Nat.add_zero,
    Nat.mod_eq_of_lt hhead, List.cons.injEq, true_and]
  apply List.map_congr_left
  intro i _
  simp only [Function.comp_apply, Nat.succ_eq_add_one, Nat.mod_add_mod]
  congr 2
  omega

/-- Two offsets below the capacity name two different slots. -/
theorem slot_ne {i j : ℕ} (hi : i < cap) (hj : j < cap) (hij : i ≠ j) :
    (head + i) % cap ≠ (head + j) % cap := by
  intro h
  have : i % cap = j % cap := Nat.ModEq.add_left_cancel' head h
  rw [Nat.mod_eq_of_lt hi, Nat.mod_eq_of_lt hj] at this
  exact hij this

/-- Writing the slot one past the last entry appends to the contents. -/
theorem contents_push (hlen : slots.length = cap) (hcount : count < cap) (x : α) :
    contents d cap (slots.set ((head + count) % cap) x) head (count + 1) =
      contents d cap slots head count ++ [x] := by
  have hslot : (head + count) % cap < slots.length := by
    rw [hlen]; exact Nat.mod_lt _ (by omega)
  simp only [contents, List.range_succ, List.map_append, List.map_cons, List.map_nil]
  congr 1
  · apply List.map_congr_left
    intro i hi
    have hne : (head + count) % cap ≠ (head + i) % cap :=
      slot_ne hcount (by have := List.mem_range.mp hi; omega)
        (by have := List.mem_range.mp hi; omega)
    simp [List.getD_eq_getElem?_getD, List.getElem?_set_ne hne]
  · simp [List.getD_eq_getElem?_getD, List.getElem?_set_self hslot]

/-- Advance the head while the head entry satisfies `p`: the new head and count. -/
def dropFront (p : α → Bool) (d : α) (cap : ℕ) (slots : List α) : ℕ → ℕ → ℕ × ℕ
  | 0, head => (head, 0)
  | count + 1, head =>
    if p (slots.getD head d) then dropFront p d cap slots count ((head + 1) % cap)
    else (head, count + 1)

theorem dropFront_head_lt (p : α → Bool) (hhead : head < cap) :
    (dropFront p d cap slots count head).1 < cap := by
  induction count generalizing head with
  | zero => exact hhead
  | succ count ih =>
      simp only [dropFront]
      split
      · exact ih (Nat.mod_lt _ (by omega))
      · exact hhead

theorem dropFront_count_le (p : α → Bool) :
    (dropFront p d cap slots count head).2 ≤ count := by
  induction count generalizing head with
  | zero => simp [dropFront]
  | succ count ih =>
      simp only [dropFront]
      split
      · exact (ih).trans (Nat.le_succ count)
      · exact le_rfl

/-- Dropping from the front of the ring drops the matching prefix of its contents. -/
theorem contents_dropFront (p : α → Bool) (hhead : head < cap) :
    contents d cap slots (dropFront p d cap slots count head).1
        (dropFront p d cap slots count head).2 =
      (contents d cap slots head count).dropWhile p := by
  induction count generalizing head with
  | zero => simp [dropFront]
  | succ count ih =>
      rw [contents_succ hhead]
      by_cases hp : p (slots.getD head d) = true
      · simp only [dropFront, hp, if_true, List.dropWhile_cons_of_pos]
        exact ih (Nat.mod_lt _ (by omega))
      · simp only [dropFront, hp, Bool.false_eq_true, if_false, List.dropWhile_cons]
        exact contents_succ hhead

end Ring

section Window

variable {α : Type u} [LinearOrder α]

/-- The entries strictly above a cutoff. -/
def window (cutoff : α) (l : List α) : List α := l.filter fun x => cutoff < x

@[simp] theorem window_nil (cutoff : α) : window cutoff [] = [] := rfl

@[simp] theorem window_append (cutoff : α) (l₁ l₂ : List α) :
    window cutoff (l₁ ++ l₂) = window cutoff l₁ ++ window cutoff l₂ := List.filter_append ..

theorem mem_window {cutoff x : α} {l : List α} : x ∈ window cutoff l ↔ x ∈ l ∧ cutoff < x := by
  simp [window]

theorem window_eq_nil {cutoff : α} {l : List α} (h : ∀ x ∈ l, x ≤ cutoff) :
    window cutoff l = [] := by
  simp only [window, List.filter_eq_nil_iff, decide_eq_true_eq, not_lt]
  exact h

theorem window_eq_self {cutoff : α} {l : List α} (h : ∀ x ∈ l, cutoff < x) :
    window cutoff l = l := by
  simp only [window, List.filter_eq_self, decide_eq_true_eq]
  exact h

theorem length_window_le (cutoff : α) (l : List α) : (window cutoff l).length ≤ l.length :=
  List.length_filter_le ..

/-- A later cutoff does not see what an earlier one removed. -/
theorem window_window {c c' : α} (h : c ≤ c') (l : List α) :
    window c' (window c l) = window c' l := by
  simp only [window, List.filter_filter]
  congr 1
  funext x
  by_cases hx : c' < x
  · simp [hx, lt_of_le_of_lt h hx]
  · simp [hx]

/-- Over a nondecreasing sequence, dropping the prefix at or below the cutoff
leaves the window. -/
theorem dropWhile_eq_window {cutoff : α} {l : List α} (h : l.Pairwise (· ≤ ·)) :
    l.dropWhile (fun x => decide (x ≤ cutoff)) = window cutoff l := by
  induction l with
  | nil => rfl
  | cons a l ih =>
      obtain ⟨ha, hl⟩ := List.pairwise_cons.mp h
      by_cases hc : a ≤ cutoff
      · rw [List.dropWhile_cons_of_pos (by simpa using hc), ih hl]
        simp [window, not_lt.mpr hc]
      · have hall : ∀ x ∈ a :: l, cutoff < x := by
          intro x hx
          rcases List.mem_cons.mp hx with rfl | hx
          · exact not_le.mp hc
          · exact lt_of_lt_of_le (not_le.mp hc) (ha x hx)
        rw [window_eq_self hall, List.dropWhile_cons_of_neg (by simpa using hc)]

/-- The entries at or below the cutoff that come behind one above it, which dropping from
the front does not reach. -/
def stranded (cutoff : α) (l : List α) : List α :=
  (l.dropWhile fun x => decide (x ≤ cutoff)).filter fun x => x ≤ cutoff

@[simp] theorem stranded_nil (cutoff : α) : stranded cutoff [] = [] := rfl

/-- Dropping from the front leaves the window and what is stranded in it. -/
theorem length_dropWhile_eq (cutoff : α) (l : List α) :
    (l.dropWhile fun x => decide (x ≤ cutoff)).length =
      (window cutoff l).length + (stranded cutoff l).length := by
  induction l with
  | nil => rfl
  | cons a l ih =>
      by_cases hc : a ≤ cutoff
      · simp only [window, stranded, List.dropWhile_cons, hc, decide_true, if_true,
          List.filter_cons, not_lt.mpr hc, decide_false, Bool.false_eq_true, if_false] at ih ⊢
        exact ih
      · rw [stranded, List.dropWhile_cons_of_neg (by simpa using hc)]
        have h := List.length_eq_length_filter_add (l := a :: l) fun x => decide (cutoff < x)
        simpa [window, ← not_lt] using h

/-- Nothing is stranded in a nondecreasing sequence. -/
theorem stranded_eq_nil {cutoff : α} {l : List α} (h : l.Pairwise (· ≤ ·)) :
    stranded cutoff l = [] := by
  rw [stranded, dropWhile_eq_window h, List.filter_eq_nil_iff]
  intro x hx
  simpa using (mem_window.mp hx).2

end Window

end Lib
