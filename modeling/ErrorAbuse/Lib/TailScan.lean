import Mathlib.Data.List.Rotate
import Mathlib.Logic.Function.Iterate
import Mathlib.Tactic.Common

/-!
# Bounded scans from the tail of a queue

A scan looks at up to `k` entries from the tail of a queue, head first. Entries that
satisfy `p` are held and move to the front, and the first one that does not is taken out,
which ends the scan. A scan that finds nothing has rotated the queue, so that scans one
after the other reach every entry: with `b` held entries behind the last one that may go,
`b / k` scans fail and the next one takes it out.
-/

namespace Lib

universe u

variable {α : Type u} {p : α → Bool} {k : ℕ} {x : α} {l moved rest held front : List α}

/-- The last `k` entries moved to the front, their order kept. -/
def rotateTail (k : ℕ) (l : List α) : List α := l.drop (l.length - k) ++ l.take (l.length - k)

/-- The scan with the entries moved so far, in front of what is left, tail first. -/
def scanFrom (p : α → Bool) : ℕ → List α → List α → List α × Option α
  | 0, moved, rest => (moved ++ rest.reverse, none)
  | _ + 1, moved, [] => (moved, none)
  | k + 1, moved, x :: rest =>
    if p x then scanFrom p k (x :: moved) rest else (moved ++ rest.reverse, some x)

/-- A scan of a queue: the queue after it, and the entry taken out. -/
def tailScan (p : α → Bool) (k : ℕ) (l : List α) : List α × Option α := scanFrom p k [] l.reverse

/-! ## Rotation -/

/-- Rotating a whole queue changes nothing. -/
theorem rotateTail_of_length_le (h : l.length ≤ k) : rotateTail k l = l := by
  simp [rotateTail, Nat.sub_eq_zero_of_le h]

theorem rotateTail_append (h : held.length = k) : rotateTail k (front ++ held) = held ++ front := by
  have hlen : (front ++ held).length - k = front.length := by
    simp [h]
  rw [rotateTail, hlen, List.drop_left, List.take_left]

theorem rotateTail_isRotated (k : ℕ) (l : List α) : (rotateTail k l).IsRotated l := by
  have h : (rotateTail k l).IsRotated (l.take (l.length - k) ++ l.drop (l.length - k)) :=
    List.isRotated_append
  rwa [List.take_append_drop] at h

theorem iterate_rotateTail_isRotated (k n : ℕ) (l : List α) :
    ((rotateTail k)^[n] l).IsRotated l := by
  induction n with
  | zero => exact List.IsRotated.refl l
  | succ n ih =>
      rw [Function.iterate_succ_apply']
      exact (rotateTail_isRotated k _).trans ih

/-- With at least `k` entries behind `x`, rotating brings it `k` closer to the tail. -/
theorem rotateTail_behind (h : k ≤ held.length) :
    rotateTail k (front ++ x :: held) =
      (held.drop (held.length - k) ++ front) ++ x :: held.take (held.length - k) := by
  have hsplit : front ++ x :: held =
      (front ++ x :: held.take (held.length - k)) ++ held.drop (held.length - k) := by
    rw [List.append_assoc, List.cons_append, List.take_append_drop]
  rw [hsplit, rotateTail_append (by rw [List.length_drop]; omega), List.append_assoc]

/-- The queue after `n` rotations none of which reaches `x`. -/
theorem iterate_rotateTail_behind (n : ℕ) (h : k * n ≤ held.length) :
    (rotateTail k)^[n] (front ++ x :: held) =
      (held.drop (held.length - k * n) ++ front) ++ x :: held.take (held.length - k * n) := by
  induction n with
  | zero => simp
  | succ n ih =>
      rw [Nat.mul_succ] at h
      have hlen : (held.take (held.length - k * n)).length = held.length - k * n := by
        rw [List.length_take]
        omega
      have hdrop : ∀ m ≤ held.length - k * n, held.drop m =
          (held.take (held.length - k * n)).drop m ++ held.drop (held.length - k * n) := by
        intro m hm
        rw [← List.drop_append_of_le_length (by rw [hlen]; exact hm), List.take_append_drop]
      rw [Function.iterate_succ_apply', ih (by omega), rotateTail_behind (by omega), hlen,
        List.take_take, Nat.mul_succ, ← Nat.sub_sub, min_eq_left (Nat.sub_le _ _),
        hdrop _ (Nat.sub_le _ _)]
      simp only [List.append_assoc]

/-! ## One scan -/

/-- Passing over held entries. -/
theorem scanFrom_append (hp : ∀ x ∈ held, p x = true) (hk : held.length ≤ k) :
    scanFrom p k moved (held ++ rest) = scanFrom p (k - held.length) (held.reverse ++ moved) rest := by
  induction held generalizing k moved with
  | nil => rfl
  | cons x held ih =>
      cases k with
      | zero => simp at hk
      | succ k =>
          rw [List.cons_append, scanFrom, if_pos (hp x List.mem_cons_self),
            ih (fun y hy => hp y (List.mem_cons_of_mem x hy)) (by simpa using hk)]
          simp

/-- A scan over held entries only finds nothing and rotates the queue. -/
theorem tailScan_none (h : ∀ x ∈ l.drop (l.length - k), p x = true) :
    tailScan p k l = (rotateTail k l, none) := by
  have hsplit : l.reverse = (l.drop (l.length - k)).reverse ++ (l.take (l.length - k)).reverse := by
    rw [← List.reverse_append, List.take_append_drop]
  have hlen : (l.drop (l.length - k)).reverse.length = l.length - (l.length - k) := by simp
  rw [tailScan, hsplit, scanFrom_append (by simpa using h) (by omega), hlen, List.reverse_reverse,
    List.append_nil, rotateTail]
  by_cases hk : k ≤ l.length
  · rw [show k - (l.length - (l.length - k)) = 0 by omega, scanFrom, List.reverse_reverse]
  · rw [show l.length - k = 0 by omega]
    cases k - (l.length - 0) <;> simp [scanFrom]

/-- A scan that reaches an entry that may go takes it out. -/
theorem tailScan_some (hp : ∀ y ∈ held, p y = true) (hx : p x = false) (hk : held.length < k) :
    tailScan p k (front ++ x :: held) = (held ++ front, some x) := by
  have hsplit : (front ++ x :: held).reverse = held.reverse ++ x :: front.reverse := by simp
  obtain ⟨j, hj⟩ : ∃ j, k - held.reverse.length = j + 1 := by
    refine ⟨k - held.length - 1, ?_⟩
    rw [List.length_reverse]
    omega
  rw [tailScan, hsplit, scanFrom_append (by simpa using hp) (by simpa using hk.le), hj, scanFrom, hx]
  simp

/-! ## Scans one after the other -/

/-- While at least `k` held entries are behind `x`, a scan finds nothing. -/
theorem tailScan_behind (hp : ∀ y ∈ held, p y = true) {n : ℕ} (h : k * (n + 1) ≤ held.length) :
    tailScan p k ((rotateTail k)^[n] (front ++ x :: held)) =
      ((rotateTail k)^[n + 1] (front ++ x :: held), none) := by
  rw [Nat.mul_succ] at h
  rw [Function.iterate_succ_apply', tailScan_none]
  intro y hy
  rw [iterate_rotateTail_behind n (by omega)] at hy
  generalize hfront : held.drop (held.length - k * n) ++ front = front' at hy
  generalize hheld : held.take (held.length - k * n) = held' at hy
  have hlen : held'.length = held.length - k * n := by
    rw [← hheld, List.length_take]
    omega
  have hdrop : (front' ++ x :: held').length - k = (front' ++ [x]).length + (held'.length - k) := by
    simp only [List.length_append, List.length_cons, List.length_nil]
    omega
  rw [hdrop, show front' ++ x :: held' = (front' ++ [x]) ++ held' by simp, List.drop_append,
    List.drop_eq_nil_of_le (by omega), List.nil_append] at hy
  have hmem : y ∈ held' := List.mem_of_mem_drop hy
  rw [← hheld] at hmem
  exact hp y (List.mem_of_mem_take hmem)

/-- **A scan reaches the last entry that may go after `held.length / k` rotations**, and
leaves the others in cyclic order. -/
theorem tailScan_reaches (hk : 0 < k) (hp : ∀ y ∈ held, p y = true) (hx : p x = false) :
    tailScan p k ((rotateTail k)^[held.length / k] (front ++ x :: held)) =
      (held ++ front, some x) := by
  have hle : k * (held.length / k) ≤ held.length := Nat.mul_div_le _ _
  have hrest : held.length - k * (held.length / k) = held.length % k := by
    have := Nat.div_add_mod held.length k
    omega
  rw [iterate_rotateTail_behind _ hle, tailScan_some
    (fun y hy => hp y (List.mem_of_mem_take hy)) hx ?_]
  · rw [← List.append_assoc, List.take_append_drop]
  · rw [List.length_take, hrest]
    exact (min_le_left _ _).trans_lt (Nat.mod_lt _ hk)

end Lib
