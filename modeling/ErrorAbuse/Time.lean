import Mathlib.Data.Int.ConditionallyCompleteOrder
import Mathlib.Data.Int.Order.Basic
import Mathlib.Tactic.NormNum

/-!
# Saturating time arithmetic

Times are integers; what the platform's `time_t` bounds is the ceiling at which
`timeAddSaturate` stops. The helper never forms a sum above the ceiling, so it is
free of the overflow a plain addition would have.
-/

namespace ErrorAbuse

/-- Width and signedness of the platform's `time_t`. -/
structure TimeT where
  bytes : ℕ
  isSigned : Bool
  deriving DecidableEq, Repr

namespace TimeT

/-- The signed 64-bit `time_t` of current platforms. -/
def int64 : TimeT := ⟨8, true⟩

/-- The signed 32-bit `time_t` of older platforms. -/
def int32 : TimeT := ⟨4, true⟩

/-- The largest value, by the ladder of width tests in the source. -/
def timeMax (T : TimeT) : ℤ :=
  if !T.isSigned then 2 ^ (8 * T.bytes) - 1
  else if 8 ≤ T.bytes then 2 ^ 63 - 1
  else if 4 ≤ T.bytes then 2 ^ 31 - 1
  else if 2 ≤ T.bytes then 2 ^ 15 - 1
  else 2 ^ 7 - 1

theorem timeMax_lt (T : TimeT) (h : T.isSigned = true) : T.timeMax < 2 ^ 63 := by
  simp only [timeMax, h, Bool.not_true, Bool.false_eq_true, if_false]
  split_ifs <;> norm_num

theorem timeMax_pos (T : TimeT) (h : T.isSigned = true) : 0 < T.timeMax := by
  simp only [timeMax, h, Bool.not_true, Bool.false_eq_true, if_false]
  split_ifs <;> norm_num

end TimeT

/-- Add a duration to a time without passing the ceiling. -/
def timeAddSaturateAt (now duration ceiling : ℤ) : ℤ :=
  if now ≥ ceiling then ceiling
  else if duration ≤ 0 then now
  else if duration > ceiling - now then ceiling
  else now + duration

def timeAddSaturate (T : TimeT) (now duration : ℤ) : ℤ :=
  timeAddSaturateAt now duration T.timeMax

section

variable {T : TimeT} {now now' duration : ℤ}

theorem timeAddSaturate_eq_min (hd : 0 < duration) :
    timeAddSaturate T now duration = min (now + duration) T.timeMax := by
  unfold timeAddSaturate timeAddSaturateAt
  split_ifs <;> omega

theorem timeAddSaturate_of_le (hd : 0 < duration) (h : now + duration ≤ T.timeMax) :
    timeAddSaturate T now duration = now + duration := by
  rw [timeAddSaturate_eq_min hd, min_eq_left h]

theorem timeAddSaturate_le_timeMax (hd : 0 < duration) :
    timeAddSaturate T now duration ≤ T.timeMax := by
  rw [timeAddSaturate_eq_min hd]; omega

theorem timeAddSaturate_mono (hd : 0 < duration) (h : now ≤ now') :
    timeAddSaturate T now duration ≤ timeAddSaturate T now' duration := by
  rw [timeAddSaturate_eq_min hd, timeAddSaturate_eq_min hd]; omega

/-- Below the ceiling, a saturated deadline that has passed is the exact one. -/
theorem add_le_of_timeAddSaturate_le {t : ℤ} (hd : 0 < duration) (ht : t < T.timeMax)
    (h : timeAddSaturate T now duration ≤ t) : now + duration ≤ t := by
  rw [timeAddSaturate_eq_min hd] at h; omega

end

end ErrorAbuse
