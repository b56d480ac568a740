import Mathlib.Data.List.Nodup
import Mathlib.Logic.Function.Basic

/-!
# Heap objects and their handles

A program that allocates objects and frees them by handle. Handles are never reused, and
`freed` logs every handle that `free` was called with, so that freeing twice shows in it.
`Sole h o` is the ownership invariant of a program that keeps at most one object: the
handle it holds is the only live one.
-/

namespace Lib

universe u

variable {α : Type u}

/-- The live objects, the next handle, and the frees so far, newest first. -/
structure Handles (α : Type u) where
  get : ℕ → Option α
  next : ℕ
  freed : List ℕ

namespace Handles

def empty : Handles α := ⟨fun _ => none, 0, []⟩

/-- Allocate an object; its handle is `h.next`. -/
def alloc (h : Handles α) (a : α) : Handles α :=
  { h with get := Function.update h.get h.next (some a), next := h.next + 1 }

/-- Change the object behind a handle, if there is one. -/
def modify (h : Handles α) (i : ℕ) (f : α → α) : Handles α :=
  { h with get := Function.update h.get i ((h.get i).map f) }

/-- Free a handle, whether or not it is live. -/
def free (h : Handles α) (i : ℕ) : Handles α :=
  { h with get := Function.update h.get i none, freed := i :: h.freed }

variable {h : Handles α} {i j : ℕ} {a : α} {f : α → α}

@[simp] theorem get_empty (i : ℕ) : (empty : Handles α).get i = none := rfl
@[simp] theorem get_alloc_next : (h.alloc a).get h.next = some a := Function.update_self ..
@[simp] theorem next_alloc : (h.alloc a).next = h.next + 1 := rfl
@[simp] theorem freed_alloc : (h.alloc a).freed = h.freed := rfl
@[simp] theorem next_modify : (h.modify i f).next = h.next := rfl
@[simp] theorem freed_modify : (h.modify i f).freed = h.freed := rfl
@[simp] theorem next_free : (h.free i).next = h.next := rfl
@[simp] theorem freed_free : (h.free i).freed = i :: h.freed := rfl
@[simp] theorem get_free_self : (h.free i).get i = none := Function.update_self ..

theorem get_alloc : (h.alloc a).get i = if i = h.next then some a else h.get i := by
  simp only [alloc, Function.update_apply]

theorem get_modify : (h.modify i f).get j = if j = i then (h.get j).map f else h.get j := by
  simp only [modify, Function.update_apply]
  split_ifs with hj
  · rw [hj]
  · rfl

theorem get_free : (h.free i).get j = if j = i then none else h.get j := by
  simp only [free, Function.update_apply]

@[simp] theorem isSome_get_modify : ((h.modify i f).get j).isSome = (h.get j).isSome := by
  rw [get_modify]
  split_ifs <;> simp

theorem modify_modify (h : Handles α) (i : ℕ) (f g : α → α) :
    (h.modify i f).modify i g = h.modify i fun a => g (f a) := by
  simp only [modify, Function.update_self, Function.update_idem, Option.map_map]
  rfl

/-! ## Ownership -/

/-- The handle held, if any, is the only live one; and nothing was freed twice. -/
structure Sole (h : Handles α) (o : Option ℕ) : Prop where
  live_iff : ∀ i, (h.get i).isSome ↔ o = some i
  lt_next : ∀ i, o = some i → i < h.next
  freed_lt : ∀ i ∈ h.freed, i < h.next
  nodup : h.freed.Nodup
  not_freed : ∀ i ∈ h.freed, o ≠ some i

namespace Sole

theorem empty : Sole (empty : Handles α) none where
  live_iff i := by simp
  lt_next i hi := by cases hi
  freed_lt i hi := by cases hi
  nodup := List.nodup_nil
  not_freed i hi := by cases hi

theorem live (hs : Sole h (some i)) : ∃ a, h.get i = some a :=
  Option.isSome_iff_exists.mp ((hs.live_iff i).mpr rfl)

theorem dead (hs : Sole h none) (i : ℕ) : h.get i = none := by
  have hlive := hs.live_iff i
  simpa using hlive

/-- With nothing held, a new object becomes the one held. -/
theorem alloc (hs : Sole h none) (a : α) : Sole (h.alloc a) (some h.next) where
  live_iff i := by
    rw [get_alloc]
    split_ifs with hi
    · simp [hi]
    · simp [hs.dead i, Ne.symm hi]
  lt_next i hi := by
    obtain rfl := Option.some.inj hi
    exact Nat.lt_succ_self _
  freed_lt i hi := Nat.lt_succ_of_lt (hs.freed_lt i hi)
  nodup := hs.nodup
  not_freed i hi he := by
    obtain rfl := Option.some.inj he
    exact Nat.lt_irrefl _ (hs.freed_lt _ hi)

/-- Freeing the object held leaves nothing held. -/
theorem free (hs : Sole h (some i)) : Sole (h.free i) none where
  live_iff j := by
    rw [get_free]
    split_ifs with hj
    · simp
    · have hdead := (hs.live_iff j).not.mpr fun he => hj (Option.some.inj he).symm
      simpa using hdead
  lt_next j hj := by cases hj
  freed_lt j hj := by
    rcases List.mem_cons.mp hj with rfl | hj
    · exact hs.lt_next j rfl
    · exact hs.freed_lt j hj
  nodup := List.nodup_cons.mpr ⟨fun hi => hs.not_freed i hi rfl, hs.nodup⟩
  not_freed j _ := by simp

/-- A new object takes the place of the one held. -/
theorem replace (hs : Sole h (some i)) (a : α) : Sole ((h.alloc a).free i) (some h.next) where
  live_iff j := by
    have hlt := hs.lt_next i rfl
    have hold := hs.live_iff j
    rw [get_free, get_alloc, Option.some.injEq]
    split_ifs with hj hnew
    · simp only [Option.isSome_none, Bool.false_eq_true, false_iff]
      omega
    · simp [hnew]
    · rw [hold, Option.some.injEq]
      exact iff_of_false (Ne.symm hj) (Ne.symm hnew)
  lt_next j hj := by
    obtain rfl := Option.some.inj hj
    exact Nat.lt_succ_self _
  freed_lt j hj := by
    rcases List.mem_cons.mp hj with rfl | hj
    · exact Nat.lt_succ_of_lt (hs.lt_next j rfl)
    · exact Nat.lt_succ_of_lt (hs.freed_lt j hj)
  nodup := List.nodup_cons.mpr ⟨fun hi => hs.not_freed i hi rfl, hs.nodup⟩
  not_freed j hj he := by
    obtain rfl := Option.some.inj he
    rcases List.mem_cons.mp hj with heq | hj
    · exact Nat.lt_irrefl _ (heq ▸ hs.lt_next i rfl)
    · exact Nat.lt_irrefl _ (hs.freed_lt _ hj)

theorem modify {o : Option ℕ} (hs : Sole h o) (i : ℕ) (f : α → α) : Sole (h.modify i f) o :=
  ⟨fun j => by rw [isSome_get_modify, hs.live_iff], hs.lt_next, hs.freed_lt, hs.nodup, hs.not_freed⟩

end Sole

end Handles

end Lib
