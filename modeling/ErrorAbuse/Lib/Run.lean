import Mathlib.Data.List.Basic
import Mathlib.Data.List.Induction
import Mathlib.Order.Basic

/-!
# Runs of state machines

`run` folds a total step function over a sequence of inputs, `runOpt` a partial
one, where `none` means that the input is not enabled. Each induction over a run
is stated here once: an invariant kept by every step holds after every run. `outputs`
collects what a machine puts out on the way.

Inputs may carry a clock reading. `Clocked time t is` says that the readings of
`is` are nondecreasing and start no earlier than `t`; `lastTime` is the reading a
run ends on. An invariant indexed by the clock then follows from its step lemma.
-/

namespace Lib

universe u v w

variable {σ : Type u} {ι : Type v}

/-! ## Total machines -/

/-- The state after a sequence of inputs. -/
def run (step : σ → ι → σ) : σ → List ι → σ := List.foldl step

@[simp] theorem run_nil (step : σ → ι → σ) (s : σ) : run step s [] = s := rfl
@[simp] theorem run_cons (step : σ → ι → σ) (s : σ) (i : ι) (is : List ι) :
    run step s (i :: is) = run step (step s i) is := rfl
@[simp] theorem run_append (step : σ → ι → σ) (s : σ) (is js : List ι) :
    run step s (is ++ js) = run step (run step s is) js := List.foldl_append

/-- An invariant kept by every step whose input satisfies `P` holds after every
run of such inputs. -/
theorem run_invariant {step : σ → ι → σ} (I : σ → Prop) (P : ι → Prop)
    (hstep : ∀ s i, I s → P i → I (step s i)) {s : σ} (h0 : I s) :
    ∀ {is : List ι}, (∀ i ∈ is, P i) → I (run step s is) := by
  intro is
  induction is generalizing s with
  | nil => intro _; exact h0
  | cons i is ih =>
      intro hP
      have hi : P i := hP i List.mem_cons_self
      exact ih (hstep s i h0 hi) fun j hj => hP j (List.mem_cons_of_mem i hj)

/-- What a machine puts out over a sequence of inputs, in order. -/
def outputs {ω : Type w} (step : σ → ι → σ) (out : σ → ι → List ω) : σ → List ι → List ω
  | _, [] => []
  | s, i :: is => out s i ++ outputs step out (step s i) is

@[simp] theorem outputs_nil {ω : Type w} (step : σ → ι → σ) (out : σ → ι → List ω) (s : σ) :
    outputs step out s [] = [] := rfl
@[simp] theorem outputs_cons {ω : Type w} (step : σ → ι → σ) (out : σ → ι → List ω) (s : σ) (i : ι)
    (is : List ι) :
    outputs step out s (i :: is) = out s i ++ outputs step out (step s i) is := rfl

/-- Something that is read off outputs piece by piece is read off each step's outputs. -/
theorem map_outputs {ω ω' : Type*} {step : σ → ι → σ} {out : σ → ι → List ω}
    {f : List ω → List ω'} (hnil : f [] = []) (happend : ∀ l l', f (l ++ l') = f l ++ f l')
    (s : σ) (is : List ι) :
    f (outputs step out s is) = outputs step (fun s i => f (out s i)) s is := by
  induction is generalizing s with
  | nil => exact hnil
  | cons i is ih => rw [outputs_cons, outputs_cons, happend, ih]

/-- A quantity that grows by at least the number of outputs of a kind bounds their number. -/
theorem countP_outputs_le {ω : Type w} {step : σ → ι → σ} {out : σ → ι → List ω} (p : ω → Bool)
    (f : σ → ℕ) (I : σ → Prop) (hkeep : ∀ s i, I s → I (step s i))
    (hstep : ∀ s i, I s → f s + (out s i).countP p ≤ f (step s i)) {s : σ} (h0 : I s)
    (is : List ι) : f s + (outputs step out s is).countP p ≤ f (run step s is) := by
  induction is generalizing s with
  | nil => simp
  | cons i is ih =>
      have hi := ih (hkeep s i h0)
      have := hstep s i h0
      rw [run_cons, outputs_cons, List.countP_append]
      omega

/-- What a view of a machine sees of a step is what the machine `loc` does with the outputs of
that step. Then this is so for whole runs, from every state with the invariant. -/
theorem run_view {τ : Type*} {ω : Type w} {step : σ → ι → σ} {out : σ → ι → List ω}
    (view : σ → τ) (loc : τ → ω → τ) (I : σ → Prop) (hkeep : ∀ s i, I s → I (step s i))
    (hview : ∀ s i, I s → view (step s i) = run loc (view s) (out s i)) {s : σ} (h0 : I s)
    (is : List ι) : view (run step s is) = run loc (view s) (outputs step out s is) := by
  induction is generalizing s with
  | nil => rfl
  | cons i is ih =>
      rw [run_cons, outputs_cons, run_append, ← hview s i h0]
      exact ih (hkeep s i h0)

/-- What some inputs set and others clear holds after a run if and only if one of the inputs set
it and no later one cleared it. -/
theorem run_latched {step : σ → ι → σ} (I P : σ → Prop) (sets : σ → ι → Prop) (clears : ι → Prop)
    (hkeep : ∀ s i, I s → I (step s i))
    (hstep : ∀ s i, I s → (P (step s i) ↔ P s ∧ ¬ clears i ∨ sets s i)) {s : σ} (h0 : I s)
    (hnot : ¬ P s) (is : List ι) :
    P (run step s is) ↔ ∃ before i after, is = before ++ i :: after ∧
      sets (run step s before) i ∧ ∀ j ∈ after, ¬ clears j := by
  induction is using List.reverseRec with
  | nil =>
      refine iff_of_false hnot ?_
      rintro ⟨before, i, after, he, -⟩
      exact List.append_ne_nil_of_right_ne_nil before (List.cons_ne_nil i after) he.symm
  | append_singleton is i ih =>
      have hI : I (run step s is) :=
        run_invariant I (fun _ => True) (fun s i h _ => hkeep s i h) h0 fun _ _ => trivial
      rw [run_append, run_cons, run_nil, hstep _ i hI, ih]
      constructor
      · rintro (⟨⟨before, j, after, rfl, hset, hafter⟩, hi⟩ | hset)
        · refine ⟨before, j, after ++ [i], by simp, hset, fun k hk => ?_⟩
          rcases List.mem_append.mp hk with hk | hk
          · exact hafter k hk
          · exact List.mem_singleton.mp hk ▸ hi
        · exact ⟨is, i, [], rfl, hset, by simp⟩
      · rintro ⟨before, j, after, he, hset, hafter⟩
        rcases List.eq_nil_or_concat after with rfl | ⟨after, k, rfl⟩
        · obtain ⟨rfl, hji⟩ := List.append_inj' he rfl
          obtain rfl := (List.cons.inj hji).1
          exact .inr hset
        · rw [List.concat_eq_append, ← List.cons_append, ← List.append_assoc] at he
          obtain ⟨rfl, hki⟩ := List.append_inj' he rfl
          obtain rfl := (List.cons.inj hki).1
          rw [List.concat_eq_append] at hafter
          exact .inl ⟨⟨before, j, after, rfl, hset,
            fun l hl => hafter l (List.mem_append_left _ hl)⟩, hafter i (by simp)⟩

/-! ## Clocked inputs -/

section Clock

variable {τ : Type w} [Preorder τ] (time : ι → τ)

/-- The readings are nondecreasing and start no earlier than `t`. -/
def Clocked : τ → List ι → Prop
  | _, [] => True
  | t, i :: is => t ≤ time i ∧ Clocked (time i) is

/-- The reading a run starting at `t` ends on. -/
def lastTime : τ → List ι → τ
  | t, [] => t
  | _, i :: is => lastTime (time i) is

@[simp] theorem clocked_nil (t : τ) : Clocked time t [] := trivial
@[simp] theorem clocked_cons (t : τ) (i : ι) (is : List ι) :
    Clocked time t (i :: is) ↔ t ≤ time i ∧ Clocked time (time i) is := Iff.rfl
omit [Preorder τ] in
@[simp] theorem lastTime_nil (t : τ) : lastTime time t [] = t := rfl
omit [Preorder τ] in
@[simp] theorem lastTime_cons (t : τ) (i : ι) (is : List ι) :
    lastTime time t (i :: is) = lastTime time (time i) is := rfl

omit [Preorder τ] in
theorem lastTime_append (t : τ) (is js : List ι) :
    lastTime time t (is ++ js) = lastTime time (lastTime time t is) js := by
  induction is generalizing t with
  | nil => rfl
  | cons i is ih => exact ih (time i)

theorem clocked_append (t : τ) (is js : List ι) :
    Clocked time t (is ++ js) ↔ Clocked time t is ∧ Clocked time (lastTime time t is) js := by
  induction is generalizing t with
  | nil => simp
  | cons i is ih => simp [ih, and_assoc]

instance decidableClocked [DecidableLE τ] :
    ∀ (t : τ) (is : List ι), Decidable (Clocked time t is)
  | _, [] => .isTrue trivial
  | t, i :: is =>
    have : Decidable (Clocked time (time i) is) := decidableClocked (time i) is
    inferInstanceAs (Decidable (t ≤ time i ∧ Clocked time (time i) is))

variable {time}

theorem Clocked.mono {t t' : τ} (h : t ≤ t') {is : List ι} (hc : Clocked time t' is) :
    Clocked time t is := by
  cases is with
  | nil => trivial
  | cons i is => exact ⟨h.trans hc.1, hc.2⟩

theorem Clocked.le_lastTime {t : τ} {is : List ι} (h : Clocked time t is) :
    t ≤ lastTime time t is := by
  induction is generalizing t with
  | nil => exact le_rfl
  | cons i is ih => exact h.1.trans (ih h.2)

/-- A clock-indexed invariant kept by every later step holds at the end of every
clocked run. -/
theorem run_clocked_invariant {step : σ → ι → σ} (I : τ → σ → Prop) (P : ι → Prop)
    (hstep : ∀ t s i, I t s → t ≤ time i → P i → I (time i) (step s i)) {t : τ} {s : σ}
    (h0 : I t s) : ∀ {is : List ι}, Clocked time t is → (∀ i ∈ is, P i) →
      I (lastTime time t is) (run step s is) := by
  intro is
  induction is generalizing t s with
  | nil => intro _ _; exact h0
  | cons i is ih =>
      intro hc hP
      have hi : I (time i) (step s i) := hstep t s i h0 hc.1 (hP i List.mem_cons_self)
      exact ih hi hc.2 fun j hj => hP j (List.mem_cons_of_mem i hj)

/-- The same for inputs some of which have no reading. -/
theorem run_timed_invariant {step : σ → ι → σ} (I : τ → σ → Prop) (reading : ι → Option τ)
    (hstep : ∀ t s i, I t s → (∀ n ∈ reading i, t ≤ n) → I ((reading i).getD t) (step s i)) {t : τ}
    {s : σ} (h0 : I t s) {is : List ι} (hclock : Clocked id t (is.filterMap reading)) :
    I (lastTime id t (is.filterMap reading)) (run step s is) := by
  induction is generalizing t s with
  | nil => exact h0
  | cons i is ih =>
      cases hi : reading i with
      | none =>
          rw [List.filterMap_cons_none hi] at hclock ⊢
          have hnext := hstep t s i h0 (by simp [hi])
          rw [hi] at hnext
          exact ih hnext hclock
      | some n =>
          rw [List.filterMap_cons_some hi] at hclock ⊢
          have hnext := hstep t s i h0 (by simpa [hi] using hclock.1)
          rw [hi] at hnext
          exact ih hnext hclock.2

end Clock

/-! ## Partial machines -/

/-- The state after a sequence of inputs, if each was enabled where it occurred. -/
def runOpt (step : σ → ι → Option σ) : σ → List ι → Option σ
  | s, [] => some s
  | s, i :: is => (step s i).bind fun s' => runOpt step s' is

@[simp] theorem runOpt_nil (step : σ → ι → Option σ) (s : σ) : runOpt step s [] = some s := rfl

theorem runOpt_cons_eq_some {step : σ → ι → Option σ} {s s' : σ} {i : ι} {is : List ι} :
    runOpt step s (i :: is) = some s' ↔
      ∃ t, step s i = some t ∧ runOpt step t is = some s' := Option.bind_eq_some_iff

theorem runOpt_append_eq_some {step : σ → ι → Option σ} {s s' : σ} {is js : List ι} :
    runOpt step s (is ++ js) = some s' ↔
      ∃ t, runOpt step s is = some t ∧ runOpt step t js = some s' := by
  induction is generalizing s with
  | nil => simp
  | cons i is ih =>
      simp only [List.cons_append, runOpt_cons_eq_some, ih]
      constructor
      · rintro ⟨a, ha, b, hb, h⟩
        exact ⟨b, ⟨a, ha, hb⟩, h⟩
      · rintro ⟨b, ⟨a, ha, hb⟩, h⟩
        exact ⟨a, ha, b, hb, h⟩

/-- Every state the run reaches satisfies `P`. -/
def Always (step : σ → ι → Option σ) (P : σ → Prop) : σ → List ι → Prop
  | s, [] => P s
  | s, i :: is => P s ∧ ∀ s', step s i = some s' → Always step P s' is

theorem Always.head {step : σ → ι → Option σ} {P : σ → Prop} {s : σ} {is : List ι}
    (h : Always step P s is) : P s := by
  cases is with
  | nil => exact h
  | cons i is => exact h.1

theorem Always.imp {step : σ → ι → Option σ} {P Q : σ → Prop} (hPQ : ∀ s, P s → Q s) {s : σ}
    {is : List ι} (h : Always step P s is) : Always step Q s is := by
  induction is generalizing s with
  | nil => exact hPQ s h
  | cons i is ih => exact ⟨hPQ s h.1, fun s' hs' => ih (h.2 s' hs')⟩

theorem Always.of_runOpt {step : σ → ι → Option σ} {P : σ → Prop} {s s' : σ} {is : List ι}
    (h : Always step P s is) (hrun : runOpt step s is = some s') : P s' := by
  induction is generalizing s with
  | nil => exact Option.some.inj hrun ▸ h
  | cons i is ih =>
      obtain ⟨t, ht, hrun⟩ := runOpt_cons_eq_some.mp hrun
      exact ih (h.2 t ht) hrun

/-- Every step of the run satisfies `P` in the state it starts from. -/
def StepsSatisfy (step : σ → ι → Option σ) (P : σ → ι → Prop) : σ → List ι → Prop
  | _, [] => True
  | s, i :: is => P s i ∧ ∀ s', step s i = some s' → StepsSatisfy step P s' is

instance decidableStepsSatisfy {step : σ → ι → Option σ} {P : σ → ι → Prop}
    [∀ s i, Decidable (P s i)] : ∀ (s : σ) (is : List ι), Decidable (StepsSatisfy step P s is)
  | _, [] => .isTrue trivial
  | s, i :: is =>
    have : ∀ s', Decidable (StepsSatisfy step P s' is) := fun s' => decidableStepsSatisfy s' is
    inferInstanceAs (Decidable (P s i ∧ ∀ s' ∈ step s i, StepsSatisfy step P s' is))

theorem StepsSatisfy.of_forall {step : σ → ι → Option σ} {P : σ → ι → Prop} {is : List ι}
    (h : ∀ i ∈ is, ∀ s, P s i) (s : σ) : StepsSatisfy step P s is := by
  induction is generalizing s with
  | nil => trivial
  | cons i is ih =>
      obtain ⟨hi, his⟩ := List.forall_mem_cons.mp h
      exact ⟨hi s, fun s' _ => ih his s'⟩

/-- An invariant kept by every enabled step that satisfies `P` holds all along the runs of
such steps. -/
theorem always_of_invariant {step : σ → ι → Option σ} (I : σ → Prop) (P : σ → ι → Prop)
    (hstep : ∀ s i s', I s → P s i → step s i = some s' → I s') {s : σ} (h0 : I s) {is : List ι}
    (hP : StepsSatisfy step P s is) : Always step I s is := by
  induction is generalizing s with
  | nil => exact h0
  | cons i is ih => exact ⟨h0, fun s' hs' => ih (hstep s i s' h0 hP.1 hs') (hP.2 s' hs')⟩

/-- An invariant kept by every enabled step holds all along every run. -/
theorem always_of_step {step : σ → ι → Option σ} (I : σ → Prop)
    (hstep : ∀ s i s', I s → step s i = some s' → I s') {s : σ} (h0 : I s) (is : List ι) :
    Always step I s is := by
  induction is generalizing s with
  | nil => exact h0
  | cons i is ih => exact ⟨h0, fun s' hs' => ih (hstep s i s' h0 hs')⟩

end Lib
