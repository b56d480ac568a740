import ErrorAbuse.Lib.Ring

/-!
# A sliding-window limiter with bans

The abstract limiter keeps, for one client, the list of times of its events and
the deadline of its ban. A hit while a ban is in force changes nothing. Otherwise a
lapsed ban is lifted together with the events that led to it, and the hit counts
next to the events above the cutoff; when the threshold is reached the events are
exchanged for a ban.

An `Entry` is a representation, a `Standing` is what can be observed of it at a
time. Two entries are the `SameFrom` a time on if their standings agree from then
on, whatever stale events either one still lists. The limiter respects this
relation, so an implementation may forget stale entries when it pleases.
-/

namespace Lib.Limiter

universe u

variable {τ : Type u} [LinearOrder τ]

/-- What a limiter is configured with. `cutoff now` is the latest time that no
longer counts at `now`, and `ban now` the deadline of a ban imposed at `now`. -/
structure Policy (τ : Type u) where
  threshold : ℕ
  cutoff : τ → τ
  ban : τ → τ

/-- The record of one client: its events, oldest first, and its ban. -/
structure Entry (τ : Type u) where
  times : List τ
  deadline : Option τ
  deriving DecidableEq

/-- A client not heard of. -/
def Entry.empty : Entry τ := ⟨[], none⟩

/-- What an entry amounts to at some time. -/
inductive Standing (τ : Type u)
  | banned (deadline : τ)
  | counting (times : List τ)

/-- What the limiter answers. A ban whose deadline is not after its start is
`lapsed` from the beginning. -/
inductive Answer (τ : Type u)
  | banned (deadline : τ)
  | counted (n : ℕ)
  | lapsed (deadline : τ)
  deriving DecidableEq

namespace Entry

variable (P : Policy τ) (e : Entry τ) (now : τ)

/-- Lift a ban that is over, and forget what led to it. -/
def lift : Entry τ :=
  match e.deadline with
  | some d => if now < d then e else .empty
  | none => e

def standing : Standing τ :=
  match e.deadline with
  | some d => if now < d then .banned d else .counting []
  | none => .counting (window (P.cutoff now) e.times)

/-- An event of the client. -/
def hit : Entry τ × Answer τ :=
  match e.standing P now with
  | .banned d => (e, .banned d)
  | .counting times =>
    if P.threshold ≤ times.length + 1 then
      (⟨[], some (P.ban now)⟩, if now < P.ban now then .banned (P.ban now) else .lapsed (P.ban now))
    else (⟨(e.lift now).times ++ [now], none⟩, .counted (times.length + 1))

/-- A look at the client. -/
def check : Entry τ × Answer τ :=
  match e.standing P now with
  | .banned d => (e, .banned d)
  | .counting times => (e.lift now, .counted times.length)

end Entry

variable {P : Policy τ} {e e' e'' : Entry τ} {now now' d : τ}

/-- A ban in force, and nothing else, makes a client banned. -/
theorem Entry.standing_eq_banned : e.standing P now = .banned d ↔ e.deadline = some d ∧ now < d := by
  simp only [standing]
  split
  · rename_i d' hd
    split_ifs with hlt
    · simp only [hd, Standing.banned.injEq, Option.some.injEq]
      constructor
      · intro h; exact ⟨h, h ▸ hlt⟩
      · intro h; exact h.1
    · simp only [hd, Option.some.injEq, false_iff, not_and]
      intro h; exact h ▸ hlt
  · rename_i hd
    simp [hd]

/-- A client that counts is seen, now and later, through the times it lists once
its ban is lifted. -/
theorem Entry.standing_of_counting {ts : List τ} (h : e.standing P now = .counting ts)
    (hle : now ≤ now') :
    e.standing P now' = .counting (window (P.cutoff now') (e.lift now).times) := by
  simp only [standing, lift] at h ⊢
  cases hd : e.deadline with
  | none => rfl
  | some d =>
      simp only [hd] at h ⊢
      split_ifs at h with hlt
      have hlt' : ¬ now' < d := fun h' => hlt (lt_of_le_of_lt hle h')
      rw [if_neg hlt', if_neg hlt]
      rfl

theorem Entry.deadline_lift {ts : List τ} (h : e.standing P now = .counting ts) :
    (e.lift now).deadline = none := by
  simp only [standing, lift] at h ⊢
  cases hd : e.deadline with
  | none => simp [hd]
  | some d =>
      simp only [hd] at h ⊢
      split_ifs at h with hlt
      rw [if_neg hlt]
      rfl

theorem Entry.hit_of_counting {ts : List τ} (h : e.standing P now = .counting ts) :
    e.hit P now = if P.threshold ≤ ts.length + 1 then
        (⟨[], some (P.ban now)⟩,
          if now < P.ban now then .banned (P.ban now) else .lapsed (P.ban now))
      else (⟨(e.lift now).times ++ [now], none⟩, .counted (ts.length + 1)) := by
  simp only [hit, h]

/-! ## Agreement from a time on -/

/-- Two entries that cannot be told apart at `t` or later. -/
def SameFrom (P : Policy τ) (t : τ) (e e' : Entry τ) : Prop :=
  ∀ now, t ≤ now → e.standing P now = e'.standing P now

namespace SameFrom

@[simp, refl] theorem refl (t : τ) (e : Entry τ) : SameFrom P t e e := fun _ _ => rfl

theorem symm (h : SameFrom P now e e') : SameFrom P now e' e := fun t ht => (h t ht).symm

theorem trans (h : SameFrom P now e e') (h' : SameFrom P now e' e'') : SameFrom P now e e'' :=
  fun t ht => (h t ht).trans (h' t ht)

theorem mono (h : SameFrom P now e e') (hle : now ≤ now') : SameFrom P now' e e' :=
  fun t ht => h t (hle.trans ht)

/-- Entries without a ban agree if their windows do. -/
theorem of_window {ts ts' : List τ}
    (h : ∀ t, now ≤ t → window (P.cutoff t) ts = window (P.cutoff t) ts') :
    SameFrom P now ⟨ts, none⟩ ⟨ts', none⟩ := by
  intro t ht
  simp only [Entry.standing, h t ht]

end SameFrom

/-- Lifting a ban that is over changes nothing that can be observed. -/
theorem sameFrom_lift {ts : List τ} (h : e.standing P now = .counting ts) :
    SameFrom P now (e.lift now) e := by
  intro t ht
  rw [Entry.standing_of_counting h ht, Entry.standing, Entry.deadline_lift h]

/-- Stale events may be dropped. -/
theorem sameFrom_window (hmono : Monotone P.cutoff) (ts : List τ) (now : τ) :
    SameFrom P now ⟨window (P.cutoff now) ts, none⟩ ⟨ts, none⟩ :=
  .of_window fun _ ht => window_window (hmono ht) ts

/-- A client without a ban in force whose events are all stale may be forgotten. -/
theorem sameFrom_empty (hmono : Monotone P.cutoff) (htimes : ∀ x ∈ e.times, x ≤ P.cutoff now)
    (hban : ∀ d, e.deadline = some d → d ≤ now) : SameFrom P now e .empty := by
  intro t ht
  simp only [Entry.standing, Entry.empty, window_nil]
  cases hd : e.deadline with
  | none => simp only [window_eq_nil fun x hx => (htimes x hx).trans (hmono ht)]
  | some d => simp only [not_lt.mpr ((hban d hd).trans ht), if_false]

/-! ## The limiter respects agreement -/

namespace SameFrom

theorem hit_answer (h : SameFrom P now e e') : (e.hit P now).2 = (e'.hit P now).2 := by
  simp only [Entry.hit, h now le_rfl]
  split
  · rfl
  · split_ifs <;> rfl

theorem check_answer (h : SameFrom P now e e') : (e.check P now).2 = (e'.check P now).2 := by
  simp only [Entry.check, h now le_rfl]
  split <;> rfl

theorem hit (h : SameFrom P now e e') : SameFrom P now (e.hit P now).1 (e'.hit P now).1 := by
  have hs : e.standing P now = e'.standing P now := h now le_rfl
  simp only [Entry.hit, hs]
  cases he : e'.standing P now with
  | banned d => exact h
  | counting ts =>
      by_cases hth : P.threshold ≤ ts.length + 1
      · simp only [if_pos hth]
        exact refl now _
      · simp only [if_neg hth]
        refine of_window fun t ht => ?_
        have hw := h t ht
        rw [Entry.standing_of_counting (hs.trans he) ht, Entry.standing_of_counting he ht] at hw
        rw [window_append, window_append, Standing.counting.inj hw]

/-- Looking at a client changes nothing that can be observed. -/
theorem check (e : Entry τ) (now : τ) : SameFrom P now (e.check P now).1 e := by
  simp only [Entry.check]
  split
  · exact refl now e
  · rename_i ts hs
    exact sameFrom_lift hs

end SameFrom

end Lib.Limiter
