import ErrorAbuse.Lib.Run
import Mathlib.Tactic.SplitIfs

/-!
# A circuit breaker

A breaker counts failures in a row. When the count reaches a threshold it starts over, and
the breaker opens until a deadline that `pause` computes from the time of that failure. A
success starts the count over as well; what is neither leaves the breaker alone.

`failuresInARow` reads the same count off a history of outcomes. The streak of a breaker is
that number modulo the threshold, and the deadline moves with every failure that completes a
multiple of the threshold.
-/

namespace Lib

universe u

variable {τ : Type u}

/-- What an operation means to a breaker. -/
inductive Outcome (τ : Type u)
  | failure (now : τ)
  | success
  | neutral
  deriving DecidableEq, Repr

structure Breaker (τ : Type u) where
  streak : ℕ
  deadline : τ
  deriving DecidableEq, Repr

/-- The breaker after an operation. -/
def Breaker.after (threshold : ℕ) (pause : τ → τ) (b : Breaker τ) : Outcome τ → Breaker τ
  | .failure now =>
    if b.streak + 1 ≥ threshold then ⟨0, pause now⟩ else { b with streak := b.streak + 1 }
  | .success => { b with streak := 0 }
  | .neutral => b

/-- The failures in a row after one more outcome. -/
def rowAfter (n : ℕ) : Outcome τ → ℕ
  | .failure _ => n + 1
  | .success => 0
  | .neutral => n

/-- The failures at the end of a history since the last success. -/
def failuresInARow (history : List (Outcome τ)) : ℕ := run rowAfter 0 history

namespace Breaker

variable {threshold : ℕ} {pause : τ → τ} {b : Breaker τ}

theorem streak_after_lt (h : b.streak < threshold) (outcome : Outcome τ) :
    (b.after threshold pause outcome).streak < threshold := by
  have hpos : 0 < threshold := Nat.zero_lt_of_lt h
  cases outcome with
  | failure now =>
      rw [after]
      split_ifs with htrip
      · exact hpos
      · exact Nat.lt_of_not_le htrip
  | success => exact hpos
  | neutral => exact h

/-- A failure always shows in the breaker. -/
theorem after_failure_ne (h : b.streak < threshold) (hone : 1 < threshold) (now : τ) :
    b.after threshold pause (.failure now) ≠ b := by
  intro heq
  have hstreak := congrArg streak heq
  rw [after] at hstreak
  split_ifs at hstreak with htrip
  · simp only at hstreak
    omega
  · simp at hstreak

/-- One more failure, counted modulo the threshold. -/
theorem succ_mod {n t : ℕ} (ht : 0 < t) :
    (n + 1) % t = if n % t + 1 ≥ t then 0 else n % t + 1 := by
  have hlt := Nat.mod_lt n ht
  split_ifs with h
  · have heq : n % t + 1 = t := by omega
    rw [← Nat.mod_add_mod, heq, Nat.mod_self]
  · rw [← Nat.mod_add_mod]
    exact Nat.mod_eq_of_lt (Nat.lt_of_not_le h)

theorem streak_after_mod (ht : 0 < threshold) {n : ℕ} (h : b.streak = n % threshold)
    (outcome : Outcome τ) :
    (b.after threshold pause outcome).streak = rowAfter n outcome % threshold := by
  cases outcome with
  | failure now =>
      rw [after, rowAfter, succ_mod ht, h]
      split_ifs <;> rfl
  | success => exact (Nat.zero_mod threshold).symm
  | neutral => exact h

/-- The streak is the failures in a row, modulo the threshold. -/
theorem streak_run (ht : 0 < threshold) (d : τ) (history : List (Outcome τ)) :
    (run (after threshold pause) ⟨0, d⟩ history).streak = failuresInARow history % threshold := by
  have hgen : ∀ (b : Breaker τ) (n : ℕ), b.streak = n % threshold →
      (run (after threshold pause) b history).streak = run rowAfter n history % threshold := by
    induction history with
    | nil => exact fun _ _ h => h
    | cons outcome history ih => exact fun b n h => ih _ _ (streak_after_mod ht h outcome)
  exact hgen ⟨0, d⟩ 0 (Nat.zero_mod threshold).symm

/-- The deadline moves with the failure that completes a row, and with no other one. -/
theorem deadline_after_failure (ht : 0 < threshold) (d : τ) (history : List (Outcome τ)) (now : τ) :
    let b := run (after threshold pause) ⟨0, d⟩ history
    (b.after threshold pause (.failure now)).deadline =
      if (failuresInARow history + 1) % threshold = 0 then pause now else b.deadline := by
  intro b
  have hstreak : b.streak = failuresInARow history % threshold := streak_run ht d history
  simp only [after, hstreak, succ_mod ht]
  by_cases htrip : failuresInARow history % threshold + 1 ≥ threshold
  · rw [if_pos htrip, if_pos htrip, if_pos rfl]
  · rw [if_neg htrip, if_neg htrip, if_neg (Nat.succ_ne_zero _)]

theorem deadline_after {outcome : Outcome τ} (h : ∀ now, outcome ≠ .failure now) :
    (b.after threshold pause outcome).deadline = b.deadline := by
  cases outcome with
  | failure now => exact absurd rfl (h now)
  | success => rfl
  | neutral => rfl

end Breaker

end Lib
