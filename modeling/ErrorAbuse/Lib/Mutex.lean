import ErrorAbuse.Lib.Run
import Mathlib.Logic.Function.Basic

/-!
# Named mutexes

A mutex is free, held by one process, or abandoned by a process that ended while it held it.
Waiting for it without blocking takes it unless another process holds it. `Frame i m m'` is all
that the others see of what process `i` does to a mutex: none of them has got or lost it.

`Contenders` are processes that share mutexes by name. A step of one process changes its own state
and its own mutex. An invariant of single processes that looks at the mutex only to see whether
the process holds it is kept by the steps of all others, so it holds all along every run; and a
section that a process enters only while it holds its mutex has one process in it.
-/

namespace Lib

universe u v w x

inductive Mutex (ι : Type u)
  | free
  | abandoned
  | held (i : ι)
  deriving DecidableEq

/-- How waiting for a mutex ends. -/
inductive MutexWait
  | object
  | abandoned
  | timeout
  deriving DecidableEq

namespace Mutex

variable {ι : Type u} [DecidableEq ι] {m m' m'' : Mutex ι} {i j : ι}

/-- Wait for no time. A holder need not wait for its own mutex. -/
def wait (i : ι) : Mutex ι → MutexWait × Mutex ι
  | .free => (.object, .held i)
  | .abandoned => (.abandoned, .held i)
  | .held j => (if j = i then .object else .timeout, .held j)

def release (i : ι) (m : Mutex ι) : Mutex ι := if m = .held i then .free else m

/-- The mutex when process `i` ends. -/
def die (i : ι) (m : Mutex ι) : Mutex ι := if m = .held i then .abandoned else m

theorem wait_cases (i : ι) (m : Mutex ι) :
    (∃ r, r ≠ .timeout ∧ m.wait i = (r, .held i) ∧ ∀ j, j ≠ i → m ≠ .held j) ∨
    (m.wait i = (.timeout, m) ∧ ∃ j, j ≠ i ∧ m = .held j) := by
  cases m with
  | free => exact .inl ⟨.object, by simp, rfl, by simp⟩
  | abandoned => exact .inl ⟨.abandoned, by simp, rfl, by simp⟩
  | held j =>
      by_cases hj : j = i
      · subst hj
        exact .inl ⟨.object, by simp, by simp [wait], fun k hk h => hk (held.inj h).symm⟩
      · exact .inr ⟨by simp [wait, hj], j, hj, rfl⟩

theorem release_ne_held (i : ι) (m : Mutex ι) : m.release i ≠ .held i := by
  rw [release]
  split_ifs with h
  · simp
  · exact h

theorem die_ne_held (i : ι) (m : Mutex ι) : m.die i ≠ .held i := by
  rw [die]
  split_ifs with h
  · simp
  · exact h

/-! ## What the others see -/

/-- Nobody but `i` has got or lost the mutex. -/
def Frame (i : ι) (m m' : Mutex ι) : Prop := ∀ j, j ≠ i → (m' = .held j ↔ m = .held j)

omit [DecidableEq ι] in
theorem Frame.refl (i : ι) (m : Mutex ι) : Frame i m m := fun _ _ => Iff.rfl

omit [DecidableEq ι] in
/-- A mutex that none of the others holds may change to one that none of them holds. -/
theorem Frame.of_ne (h : ∀ j, j ≠ i → m ≠ .held j) (h' : ∀ j, j ≠ i → m' ≠ .held j) :
    Frame i m m' := fun j hj => iff_of_false (h' j hj) (h j hj)

omit [DecidableEq ι] in
theorem ne_held_of_held (h : m = .held i) : ∀ j, j ≠ i → m ≠ .held j := by
  intro j hj h'
  exact hj (held.inj (h.symm.trans h')).symm

theorem frame_release (i : ι) (m : Mutex ι) : Frame i m (m.release i) := by
  rw [release]
  split_ifs with h
  · exact Frame.of_ne (ne_held_of_held h) fun j _ => by simp
  · exact Frame.refl i m

theorem frame_die (i : ι) (m : Mutex ι) : Frame i m (m.die i) := by
  rw [die]
  split_ifs with h
  · exact Frame.of_ne (ne_held_of_held h) fun j _ => by simp
  · exact Frame.refl i m

end Mutex

/-! ## Processes that contend -/

/-- The states of the processes `ι` and the mutexes named by `κ`. -/
structure Contenders (ι : Type u) (κ : Type v) (σ : Type w) where
  procs : ι → σ
  mutexes : κ → Mutex ι

namespace Contenders

variable {ι : Type u} {κ : Type v} {σ : Type w} {ε : Type x} [DecidableEq ι] [DecidableEq κ]

/-- Every process is in state `p`, and every mutex is free. -/
def start (p : σ) : Contenders ι κ σ := ⟨fun _ => p, fun _ => .free⟩

/-- A step of one process, which uses the mutex of its name. -/
def step (name : ι → κ) (act : ι → σ → Mutex ι → ε → Option (σ × Mutex ι))
    (s : Contenders ι κ σ) (e : ι × ε) : Option (Contenders ι κ σ) :=
  (act e.1 (s.procs e.1) (s.mutexes (name e.1)) e.2).map fun r =>
    ⟨Function.update s.procs e.1 r.1, Function.update s.mutexes (name e.1) r.2⟩

variable {name : ι → κ} {act : ι → σ → Mutex ι → ε → Option (σ × Mutex ι)}
  {I : ι → σ → Prop → Prop} {s s' : Contenders ι κ σ} {e : ι × ε} {i j : ι}

theorem step_eq_some : step name act s e = some s' ↔
    ∃ p m, act e.1 (s.procs e.1) (s.mutexes (name e.1)) e.2 = some (p, m) ∧
      s' = ⟨Function.update s.procs e.1 p, Function.update s.mutexes (name e.1) m⟩ := by
  rw [step, Option.map_eq_some_iff, Prod.exists]
  simp only [eq_comm]

/-- Each process satisfies `I`, given whether it holds its mutex, and holds no other. -/
structure Fits (name : ι → κ) (I : ι → σ → Prop → Prop) (s : Contenders ι κ σ) : Prop where
  each : ∀ i, I i (s.procs i) (s.mutexes (name i) = .held i)
  name_eq : ∀ k i, s.mutexes k = .held i → name i = k

omit [DecidableEq ι] [DecidableEq κ] in
theorem Fits.start {p : σ} (h : ∀ i, I i p False) : Fits name I (start p) where
  each i := by simpa [Contenders.start] using h i
  name_eq k i hheld := by simp [Contenders.start] at hheld

theorem Fits.step
    (hact : ∀ i p m e p' m', I i p (m = .held i) → act i p m e = some (p', m') →
      I i p' (m' = .held i) ∧ Mutex.Frame i m m')
    (h : Fits name I s) (hstep : step name act s e = some s') : Fits name I s' := by
  obtain ⟨p, m, he, rfl⟩ := step_eq_some.mp hstep
  obtain ⟨hown, hframe⟩ := hact _ _ _ _ _ _ (h.each e.1) he
  constructor
  · intro i
    by_cases hi : i = e.1
    · subst hi
      simpa using hown
    · have heach := h.each i
      by_cases hname : name i = name e.1
      · rw [hname, ← propext (hframe i hi)] at heach
        simpa [Function.update_of_ne hi, hname] using heach
      · simpa [Function.update_of_ne hi, Function.update_of_ne hname] using heach
  · intro k i hheld
    by_cases hk : k = name e.1
    · subst hk
      by_cases hi : i = e.1
      · rw [hi]
      · simp only [Function.update_self] at hheld
        exact h.name_eq _ i ((hframe i hi).mp hheld)
    · simp only [Function.update_of_ne hk] at hheld
      exact h.name_eq k i hheld

omit [DecidableEq ι] [DecidableEq κ] in
/-- **One process in the section.** -/
theorem Fits.exclusive (critical : σ → Prop) (h : Fits name I s)
    (hcritical : ∀ i p holds, I i p holds → critical p → holds) (hname : name i = name j)
    (hi : critical (s.procs i)) (hj : critical (s.procs j)) : i = j := by
  have hheld := hcritical i _ _ (h.each i) hi
  have hheld' := hcritical j _ _ (h.each j) hj
  rw [hname] at hheld
  exact Mutex.held.inj (hheld.symm.trans hheld')

end Contenders

end Lib
