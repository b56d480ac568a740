import Mathlib.Data.List.Basic

/-!
# Filling a buffer from left to right

A cursor is a buffer of which a part has been written and the rest has not. Writing fails when
the bytes do not fit, so that a program that ends with no room left has written every byte of
its buffer and none outside it. Writes one after the other are one write.

The second half reads such texts back: what stands between two delimiters, and fields of
constant width.
-/

namespace Lib

variable {α β : Type*}

/-- What has been written to a buffer, and how much more there is room for. -/
structure Cursor (α : Type*) where
  written : List α
  room : ℕ
  deriving DecidableEq, Repr

namespace Cursor

/-- A buffer that nothing has been written to. -/
def fresh (size : ℕ) : Cursor α := ⟨[], size⟩

/-- Write on; `none` is a write outside the buffer. -/
def put (c : Cursor α) (l : List α) : Option (Cursor α) :=
  if l.length ≤ c.room then some ⟨c.written ++ l, c.room - l.length⟩ else none

/-- The first `n` entries; `none` is a read of what has not been written. -/
def read (c : Cursor α) (n : ℕ) : Option (List α) :=
  if n ≤ c.written.length then some (c.written.take n) else none

theorem put_of_le {c : Cursor α} {l : List α} (h : l.length ≤ c.room) :
    c.put l = some ⟨c.written ++ l, c.room - l.length⟩ := if_pos h

@[simp] theorem put_nil (c : Cursor α) : c.put [] = some c := by simp [put]

theorem put_append (c : Cursor α) (l l' : List α) :
    c.put (l ++ l') = (c.put l).bind fun c => c.put l' := by
  by_cases hl : l.length ≤ c.room
  · rw [put_of_le hl, Option.bind_some, put, put, List.length_append]
    by_cases hl' : l.length + l'.length ≤ c.room
    · have hrest : l'.length ≤ c.room - l.length := by omega
      rw [if_pos hl', if_pos hrest, List.append_assoc, Nat.sub_sub]
    · have hrest : ¬ l'.length ≤ c.room - l.length := by omega
      rw [if_neg hl', if_neg hrest]
  · have hboth : ¬ (l ++ l').length ≤ c.room := by
      rw [List.length_append]
      omega
    rw [put, put, if_neg hl, if_neg hboth, Option.bind_none]

/-- A loop of writes. -/
theorem foldlM_put (f : β → List α) (bs : List β) (c : Cursor α) :
    bs.foldlM (fun c b => c.put (f b)) c = c.put (bs.flatMap f) := by
  induction bs generalizing c with
  | nil => simp
  | cons b bs ih =>
      rw [List.foldlM_cons, List.flatMap_cons, put_append]
      exact congrArg _ (funext ih)

end Cursor

/-! ## Delimiters -/

/-- The text between the first `a` and the next `b`. -/
def between [DecidableEq α] (a b : α) (l : List α) : Option (List α) :=
  match l.dropWhile (· ≠ a) with
  | [] => none
  | _ :: rest => if b ∈ rest then some (rest.takeWhile (· ≠ b)) else none

theorem between_eq [DecidableEq α] {a b : α} {l m r : List α} (hl : a ∉ l) (hm : b ∉ m) :
    between a b (l ++ a :: (m ++ b :: r)) = some m := by
  have hbefore : ∀ x ∈ l, decide (x ≠ a) = true := by
    intro x hx
    exact decide_eq_true fun h => hl (h ▸ hx)
  have hinside : ∀ x ∈ m, decide (x ≠ b) = true := by
    intro x hx
    exact decide_eq_true fun h => hm (h ▸ hx)
  have hdrop : (l ++ a :: (m ++ b :: r)).dropWhile (· ≠ a) = a :: (m ++ b :: r) := by
    rw [List.dropWhile_append_of_pos hbefore]
    simp
  rw [between, hdrop]
  have hmem : b ∈ m ++ b :: r := by simp
  simp only [if_pos hmem]
  rw [List.takeWhile_append_of_pos hinside]
  simp

/-- Fields of constant width can be told apart. -/
theorem flatMap_injective {f : α → List β} {n : ℕ} (hn : 0 < n) (hlength : ∀ a, (f a).length = n)
    (hf : Function.Injective f) : Function.Injective fun l : List α => l.flatMap f := by
  have hne : ∀ a, f a ≠ [] := by
    intro a h
    have hzero := hlength a
    rw [h, List.length_nil] at hzero
    omega
  intro l l' h
  induction l generalizing l' with
  | nil =>
      cases l' with
      | nil => rfl
      | cons b l' => exact absurd (List.append_eq_nil_iff.mp h.symm).1 (hne b)
  | cons a l ih =>
      cases l' with
      | nil => exact absurd (List.append_eq_nil_iff.mp h).1 (hne a)
      | cons b l' =>
          have hwidth : (f a).length = (f b).length := (hlength a).trans (hlength b).symm
          obtain ⟨hhead, htail⟩ := List.append_inj h hwidth
          rw [hf hhead, ih htail]

theorem length_flatMap_const {f : α → List β} {n : ℕ} (hlength : ∀ a, (f a).length = n)
    (l : List α) : (l.flatMap f).length = l.length * n := by
  simp [List.length_flatMap, hlength]

/-- Induction over a text of fields of width two. -/
@[elab_as_elim]
theorem pairs_induction {motive : (l : List α) → l.length % 2 = 0 → Prop} (nil : motive [] rfl)
    (pair : ∀ a b l heven, motive l heven →
      motive (a :: b :: l) ((Nat.add_mod_right l.length 2).trans heven)) :
    ∀ (l : List α) (heven : l.length % 2 = 0), motive l heven
  | [], _ => nil
  | [_], heven => by cases heven
  | a :: b :: l, heven =>
    pair a b l _ (pairs_induction nil pair l ((Nat.add_mod_right l.length 2).symm.trans heven))

end Lib
