import ErrorAbuse.Zone.Effects

/-!
# The slots of the event array

A list answers an index outside it with a default and ignores a store there. The array
behind a node does neither, so here the calls run with accesses that check: an access to a
slot that is not there makes the whole call `none`. On a node whose ring is in bounds no
check fails, and the call is the one with plain accesses.
-/

namespace ErrorAbuse

open Lib

variable {core : Core} {conf : ZoneConf} {now : ℤ} {n : Node} {i : ℕ}

/-! ## Checked accesses -/

/-- `events[i]` and `events[i] = x`, if there is such a slot. -/
def Access.checked : Access Option where
  read conf ean i := if i < conf.threshold then ean.events[i]? else none
  write conf ean i x :=
    if i < conf.threshold ∧ i < ean.events.length then
      some { ean with events := ean.events.set i x }
    else none

/-! ## Rings in bounds -/

/-- A node whose ring lies inside its event array. -/
structure Bounded (conf : ZoneConf) (n : Node) : Prop where
  head : n.eventHead < conf.threshold
  count : n.eventCount ≤ conf.threshold
  slots : n.events.length = conf.threshold
  digest : n.data.length = digestLen

theorem Bounded.fresh (conf : ZoneConf) (hash : UInt32) (key : Digest) (now : ℤ) :
    Bounded conf (freshNode conf hash key now) :=
  ⟨conf.threshold_pos, Nat.zero_le _, List.length_replicate, key.2⟩

theorem Bounded.pruneEvents (h : Bounded conf n) (now : ℤ) :
    Bounded conf (pruneEvents conf n now) := by
  rw [pruneEvents_eq]
  exact ⟨Ring.dropFront_head_lt _ h.head, (Ring.dropFront_count_le _).trans h.count, h.slots, h.digest⟩

/-- An emptied ring is in bounds, and a deadline or a time of last access is not part of it. -/
theorem Bounded.reset (h : Bounded conf n) (blockedUntil : ℤ) :
    Bounded conf { n with blockedUntil := blockedUntil, eventHead := 0, eventCount := 0 } :=
  ⟨conf.threshold_pos, Nat.zero_le _, h.slots, h.digest⟩

/-- Lifting a ban empties the ring. -/
theorem Bounded.lift (h : Bounded conf n) :
    Bounded conf (if n.blockedUntil ≠ 0 then
      { n with blockedUntil := 0, eventHead := 0, eventCount := 0 } else n) := by
  split_ifs
  · exact h.reset 0
  · exact h

/-- No call takes a ring out of its bounds. The entry `record` adds may be one too many for
the array, but then the ring is emptied before the call returns. -/
theorem Bounded.onNode (h : Bounded conf n) (c : Call) : Bounded conf (c.onNode conf n).1 := by
  cases c with
  | record key now slab =>
      simp only [Call.onNode, recordNode_eq]
      by_cases hban : n.blockedUntil > now
      · rw [if_pos hban]
        exact h
      · rw [if_neg hban]
        have hp := h.lift.pruneEvents now
        dsimp only
        generalize ErrorAbuse.pruneEvents conf _ now = m at hp
        split_ifs with hfull
        · exact ⟨conf.threshold_pos, Nat.zero_le _, by simpa using hp.slots, hp.digest⟩
        · exact ⟨hp.head, (not_le.mp hfull).le, by simpa using hp.slots, hp.digest⟩
  | isBlocked key now =>
      simp only [Call.onNode, isBlockedNode_eq]
      split_ifs with hban hlift
      · exact h
      · exact h.reset 0
      · exact h.pruneEvents now

/-! ## No check fails -/

theorem read_checked (h : n.events.length = conf.threshold) (hi : i < conf.threshold) :
    Access.checked.read conf n i = some (n.events.getD i 0) := by
  refine (if_pos hi).trans ?_
  rw [List.getD_eq_getElem?_getD, List.getElem?_eq_getElem (by rw [h]; exact hi), Option.getD_some]

theorem write_checked (h : n.events.length = conf.threshold) (hi : i < conf.threshold) (x : ℤ) :
    Access.checked.write conf n i x = some { n with events := n.events.set i x } :=
  if_pos ⟨hi, by rw [h]; exact hi⟩

theorem slot_lt (conf : ZoneConf) (j : ℕ) : j % conf.threshold < conf.threshold :=
  Nat.mod_lt _ conf.threshold_pos

theorem readRing_checked (h : n.events.length = conf.threshold) :
    readRing .checked conf n = some (n.contents conf) := by
  have hread : ∀ l : List ℕ,
      (l.mapM fun i => Access.checked.read conf n ((n.eventHead + i) % conf.threshold)) =
        some (l.map fun i => n.events.getD ((n.eventHead + i) % conf.threshold) 0) := by
    intro l
    induction l with
    | nil => rfl
    | cons i l ih =>
        rw [List.mapM_cons, ih, read_checked h (slot_lt conf _)]
        rfl
  exact hread _

theorem pruneLoop_checked (h : n.events.length = conf.threshold) (cutoff : ℤ) (count : ℕ)
    {head : ℕ} (hhead : head < conf.threshold) :
    pruneLoop .checked conf n cutoff count head =
      some (pruneLoop (.plain Id) conf n cutoff count head) := by
  induction count generalizing head with
  | zero => rfl
  | succ count ih =>
      simp only [pruneLoop, read_checked h hhead, Option.bind_eq_bind, Option.bind_some]
      by_cases he : n.events.getD head 0 ≤ cutoff
      · rw [if_pos he]
        exact (ih (slot_lt conf _)).trans (congrArg some (if_pos he).symm)
      · rw [if_neg he]
        exact congrArg some (if_neg he).symm

theorem pruneEvents_checked (h : Bounded conf n) (now : ℤ) :
    pruneEventsVia .checked conf n now = some (pruneEvents conf n now) := by
  rw [pruneEventsVia, pruneLoop_checked h.slots _ _ h.head]
  rfl

theorem recordNode_checked (h : Bounded conf n) (now : ℤ) :
    recordNodeVia .checked conf n now = some (recordNode conf n now) := by
  rw [recordNodeVia, recordNode_eq]
  by_cases hban : n.blockedUntil > now
  · rw [if_pos hban, if_pos hban]
    rfl
  · rw [if_neg hban, if_neg hban]
    simp only [pruneEvents_checked h.lift, Option.bind_eq_bind, Option.bind_some,
      write_checked (h.lift.pruneEvents now).slots (slot_lt conf _)]
    rfl

theorem isBlockedNode_checked (h : Bounded conf n) (now : ℤ) :
    isBlockedNodeVia .checked conf n now = some (isBlockedNode conf n now) := by
  rw [isBlockedNodeVia, isBlockedNode_eq, pruneEvents_checked h]
  split_ifs <;> rfl

end ErrorAbuse
