import Mathlib.Data.List.Forall2
import Mathlib.Data.List.Perm.Basic

/-!
# Computations that log

A computation appends lines to a log and either yields a value or fails. Two questions about it
are answered here once for its sequential composition and its loops. What it yields, its log
aside, is a computation in `Option`; a loop whose steps commute there yields the same for every
order of its inputs. And two runs are `Alike` when their logs agree and their results
correspond; loops over inputs that correspond are alike when their steps are.
-/

namespace Lib

universe u v

/-- The lines logged, and the value or the failure. -/
structure Logged (ω ε α : Type u) where
  log : List ω
  result : Except ε α

namespace Logged

variable {ω ε α β γ δ : Type u} {ι κ : Type v}

/-- Yield a value and log nothing. -/
def pure (a : α) : Logged ω ε α := ⟨[], .ok a⟩

/-- Log some lines and fail. -/
def fail (lines : List ω) (e : ε) : Logged ω ε α := ⟨lines, .error e⟩

/-- Log some lines. -/
def tell (lines : List ω) : Logged ω ε PUnit := ⟨lines, .ok ⟨⟩⟩

/-- Go on with the value, if there is one. -/
def bind (x : Logged ω ε α) (f : α → Logged ω ε β) : Logged ω ε β :=
  match x.result with
  | .error e => ⟨x.log, .error e⟩
  | .ok a => ⟨x.log ++ (f a).log, (f a).result⟩

instance : Monad (Logged ω ε) where
  pure := pure
  bind := bind

/-- The value, the log and the kind of failure aside. -/
def accepted (x : Logged ω ε α) : Option α :=
  match x.result with
  | .error _ => none
  | .ok a => some a

/-- Whether there is a value, and how the computation failed if there is none. -/
def verdict (x : Logged ω ε α) : Except ε PUnit.{u + 1} :=
  match x.result with
  | .error e => .error e
  | .ok _ => .ok ⟨⟩

@[simp] theorem accepted_pure (a : α) : (Pure.pure a : Logged ω ε α).accepted = some a := rfl
@[simp] theorem accepted_fail (lines : List ω) (e : ε) :
    (fail lines e : Logged ω ε α).accepted = none := rfl
@[simp] theorem accepted_tell (lines : List ω) :
    (tell lines : Logged ω ε PUnit).accepted = some ⟨⟩ := rfl

@[simp] theorem accepted_bind (x : Logged ω ε α) (f : α → Logged ω ε β) :
    (x >>= f).accepted = x.accepted.bind fun a => (f a).accepted := by
  change (bind x f).accepted = _
  unfold bind accepted
  cases x.result <;> rfl

/-- What a loop yields is a loop in `Option`. -/
theorem accepted_foldlM (f : α → ι → Logged ω ε α) (is : List ι) (a : α) :
    (is.foldlM f a).accepted = is.foldlM (fun a i => (f a i).accepted) a := by
  induction is generalizing a with
  | nil => rfl
  | cons i is ih =>
      rw [List.foldlM_cons, accepted_bind, List.foldlM_cons]
      exact congrArg _ (funext ih)

end Logged

/-! ## The order of inputs -/

section

variable {σ : Type u} {ι : Type v} {f : σ → ι → Option σ}

/-- A loop whose steps commute does not depend on the order of its inputs. -/
theorem foldlM_perm (hcomm : ∀ s i j, (f s i).bind (f · j) = (f s j).bind (f · i))
    {is js : List ι} (h : is.Perm js) (s : σ) : is.foldlM f s = js.foldlM f s := by
  induction h generalizing s with
  | nil => rfl
  | cons i _ ih =>
      rw [List.foldlM_cons, List.foldlM_cons]
      exact congrArg _ (funext ih)
  | swap i j is =>
      simp only [List.foldlM_cons, Option.bind_eq_bind]
      rw [← Option.bind_assoc, ← Option.bind_assoc, hcomm]
  | trans _ _ ih ih' => exact (ih s).trans (ih' s)

/-- An invariant of the steps of a loop holds of what it yields. -/
theorem foldlM_invariant {I : σ → Prop} {is : List ι}
    (hstep : ∀ s s' i, i ∈ is → I s → f s i = some s' → I s') {s s' : σ} (h0 : I s)
    (h : is.foldlM f s = some s') : I s' := by
  induction is generalizing s with
  | nil => exact Option.some.inj h ▸ h0
  | cons i is ih =>
      obtain ⟨t, ht, hrest⟩ := Option.bind_eq_some_iff.mp (by simpa using h)
      exact ih (fun s s' j hj => hstep s s' j (List.mem_cons_of_mem i hj))
        (hstep s t i List.mem_cons_self h0 ht) hrest

end

/-! ## Two runs -/

namespace Logged

variable {ω ε α β γ δ : Type u} {ι κ : Type v}

/-- Results that fail alike or yield values that correspond. -/
inductive Corresponds (R : α → β → Prop) : Except ε α → Except ε β → Prop
  | error (e : ε) : Corresponds R (.error e) (.error e)
  | ok (a : α) (b : β) : R a b → Corresponds R (.ok a) (.ok b)

/-- Two runs with the same log and results that correspond. -/
structure Alike (R : α → β → Prop) (x : Logged ω ε α) (y : Logged ω ε β) : Prop where
  log_eq : x.log = y.log
  result : Corresponds R x.result y.result

theorem Alike.refl {R : α → α → Prop} (hR : ∀ a, R a a) (x : Logged ω ε α) : Alike R x x := by
  refine ⟨rfl, ?_⟩
  cases x.result with
  | error e => exact .error e
  | ok a => exact .ok a a (hR a)

theorem Alike.pure {R : α → β → Prop} {a : α} {b : β} (h : R a b) :
    Alike R (Pure.pure a : Logged ω ε α) (Pure.pure b) := ⟨rfl, .ok a b h⟩

theorem Alike.fail {R : α → β → Prop} (lines : List ω) (e : ε) :
    Alike R (fail lines e) (fail lines e) := ⟨rfl, .error e⟩

theorem Alike.bind {R : α → β → Prop} {S : γ → δ → Prop} {x : Logged ω ε α} {y : Logged ω ε β}
    {f : α → Logged ω ε γ} {g : β → Logged ω ε δ} (h : Alike R x y)
    (hfg : ∀ a b, R a b → Alike S (f a) (g b)) : Alike S (x >>= f) (y >>= g) := by
  obtain ⟨log, result⟩ := x
  obtain ⟨log', result'⟩ := y
  obtain ⟨rfl, hresult⟩ := h
  cases hresult with
  | error e => exact ⟨rfl, .error e⟩
  | ok a b hab =>
      obtain ⟨hlog, hres⟩ := hfg a b hab
      exact ⟨congrArg (log ++ ·) hlog, hres⟩

/-- A loop over inputs that correspond. -/
theorem Alike.foldlM {R : ι → κ → Prop} {S : α → β → Prop} {f : α → ι → Logged ω ε α}
    {g : β → κ → Logged ω ε β}
    (hstep : ∀ a b i k, S a b → R i k → Alike S (f a i) (g b k)) {is : List ι} {ks : List κ}
    (h : List.Forall₂ R is ks) {a : α} {b : β} (hab : S a b) :
    Alike S (is.foldlM f a) (ks.foldlM g b) := by
  induction h generalizing a b with
  | nil => exact Alike.pure hab
  | cons hik _ ih =>
      rw [List.foldlM_cons, List.foldlM_cons]
      exact Alike.bind (hstep _ _ _ _ hab hik) fun a b => ih

/-- Two runs that begin in the same way. -/
theorem Alike.bind_same {S : γ → δ → Prop} (x : Logged ω ε α) {f : α → Logged ω ε γ}
    {g : α → Logged ω ε δ} (hfg : ∀ a, Alike S (f a) (g a)) : Alike S (x >>= f) (x >>= g) := by
  refine Alike.bind (Alike.refl (R := Eq) (fun _ => rfl) x) ?_
  rintro a _ rfl
  exact hfg a

/-- Runs that are alike are both accepted, or rejected in the same way. -/
theorem Alike.verdict_eq {R : α → β → Prop} {x : Logged ω ε α} {y : Logged ω ε β}
    (h : Alike R x y) : x.verdict = y.verdict := by
  obtain ⟨log, result⟩ := x
  obtain ⟨log', result'⟩ := y
  cases h.result <;> rfl

end Logged

end Lib
