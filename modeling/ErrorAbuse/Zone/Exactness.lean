import ErrorAbuse.Zone.Standing

/-!
# Counting is exact

The reference keeps, for each key, a plain list of event times and a ban deadline,
and never forgets an event. A zone keeps a ring it prunes, in a node it may expire
and create again. Over any run from the empty zone the two report the same, for
every key that was not force-evicted and for every call that did not fail.
-/

namespace ErrorAbuse

open Lib Lib.Limiter

variable {core : Core} {conf : ZoneConf} {s : Shctx} {t : ℤ}

/-- The limiter of the reference: bans last exactly `block`. -/
def reference (conf : ZoneConf) : Policy ℤ where
  threshold := conf.threshold
  cutoff now := now - conf.interval
  ban now := now + conf.block

/-- The reference's entries after a call. -/
def referenceStep (conf : ZoneConf) (ref : Key → Entry ℤ) (c : Call) : Key → Entry ℤ :=
  Function.update ref c.key (c.apply (reference conf) (ref c.key)).1

/-- The calls of a run that did not fail for lack of memory. -/
def accepted (core : Core) (conf : ZoneConf) : Shctx → List Call → List Call
  | _, [] => []
  | s, c :: cs =>
    if (c.exec core conf s).2.rc = .error then accepted core conf (callStep core conf s c) cs
    else c :: accepted core conf (callStep core conf s c) cs

/-- The reference's entries after the accepted calls of a run from the empty zone. -/
def referenceAfter (core : Core) (conf : ZoneConf) (cs : List Call) : Key → Entry ℤ :=
  run (referenceStep conf) (fun _ => .empty) (accepted core conf .empty cs)

/-- A zone refines the reference: no difference can be observed at `t` or later, for
keys that were never force-evicted. -/
structure Refines (core : Core) (conf : ZoneConf) (t : ℤ) (s : Shctx) (ref : Key → Entry ℤ) :
    Prop where
  ok : ZoneOk core conf t s
  agree : ∀ key ∉ s.evicted, SameFrom (policy conf) t (entryOf core conf s key) (ref key)

/-- Where no deadline saturates, the zone's limiter and the reference take the same step. -/
theorem apply_reference (c : Call) (h : c.now + conf.block ≤ conf.timeMax) (e : Entry ℤ) :
    c.apply (policy conf) e = c.apply (reference conf) e := by
  have hban : (policy conf).ban c.now = (reference conf).ban c.now :=
    timeAddSaturate_of_le conf.block_pos h
  have hst : ∀ now, e.standing (policy conf) now = e.standing (reference conf) now := fun _ => rfl
  cases c with
  | record key now slab =>
      simp only [Call.now] at hban
      simp only [Call.apply, Entry.hit, hst, hban]
      rfl
  | isBlocked key now => rfl

theorem refines_step {ref : Key → Entry ℤ} (h : Refines core conf t s ref) (c : Call)
    (ht : t ≤ c.now) (h0 : 0 ≤ c.now) (hsat : c.now + conf.block ≤ conf.timeMax) :
    Refines core conf c.now (callStep core conf s c)
      (if (c.exec core conf s).2.rc = .error then ref else referenceStep conf ref c) := by
  have hmax : c.now < conf.timeMax := by have := conf.block_pos; omega
  obtain ⟨lost, hsim⟩ := exec_simulates h.ok.settled c ht h0 hmax
  have hagree : ∀ key ∉ (c.exec core conf s).1.evicted,
      SameFrom (policy conf) c.now (entryOf core conf s key) (ref key) := by
    intro key hk
    rw [hsim.evicted] at hk
    exact (h.agree key fun h' => hk (List.mem_append_right _ h')).mono ht
  refine ⟨exec_zoneOk h.ok c ht h0, fun key hk => ?_⟩
  by_cases hkey : key = c.key
  · subst hkey
    split_ifs with hrc
    · exact (hsim.failed hrc).trans (hagree _ hk)
    · have happ := (c.apply_sameFrom (hagree _ hk)).1
      rw [referenceStep, Function.update_self, ← apply_reference c hsat]
      exact (hsim.answered hrc).2.trans happ
  · have hlost : key ∉ lost := by
      intro hl
      exact hk (hsim.evicted ▸ List.mem_append_left _ hl)
    have hother := (hsim.other key hkey hlost).trans (hagree key hk)
    split_ifs
    · exact hother
    · rwa [referenceStep, Function.update_of_ne hkey]

theorem refines_run {cs : List Call} {ref : Key → Entry ℤ} (h : Refines core conf t s ref)
    (h0 : 0 ≤ t) (hclock : Clocked Call.now t cs)
    (hsat : ∀ c ∈ cs, c.now + conf.block ≤ conf.timeMax) :
    Refines core conf (lastTime Call.now t cs) (run (callStep core conf) s cs)
      (run (referenceStep conf) ref (accepted core conf s cs)) := by
  induction cs generalizing t s ref with
  | nil => exact h
  | cons c cs ih =>
      have h0' : 0 ≤ c.now := h0.trans hclock.1
      have hstep := refines_step h c hclock.1 h0' (hsat c List.mem_cons_self)
      have hrun := ih hstep h0' hclock.2 fun c' hc' => hsat c' (List.mem_cons_of_mem c hc')
      rw [accepted]
      split_ifs at hrun ⊢ with hrc
      · exact hrun
      · exact hrun

/-- **Sliding-window exactness.** After any run of calls from the empty zone, whatever
workers they come from, with a nondecreasing clock that no deadline saturates, the next
call reports what the reference reports, unless it fails or its key was force-evicted
before; and it fails only when the allocator refuses a request of it. -/
theorem exec_eq_reference (core : Core) (conf : ZoneConf) (cs : List Call) (c : Call)
    (hclock : Clocked Call.now 0 (cs ++ [c]))
    (hsat : ∀ c' ∈ cs ++ [c], c'.now + conf.block ≤ conf.timeMax)
    (hev : (c.key : Key) ∉ (run (callStep core conf) .empty cs).evicted) :
    (c.NoFailure core conf (run (callStep core conf) .empty cs) →
      (c.exec core conf (run (callStep core conf) .empty cs)).2.rc ≠ .error) ∧
    ((c.exec core conf (run (callStep core conf) .empty cs)).2.rc ≠ .error →
      (c.exec core conf (run (callStep core conf) .empty cs)).2 =
        c.verdict conf (c.apply (reference conf) (referenceAfter core conf cs c.key)).2) := by
  obtain ⟨hpre, hlast, -⟩ := (clocked_append Call.now 0 cs [c]).mp hclock
  have hsatc : c.now + conf.block ≤ conf.timeMax := hsat c (by simp)
  have hstart : Refines core conf 0 .empty fun _ => .empty :=
    ⟨zoneOk_empty core conf 0, fun key _ => .refl 0 _⟩
  have hrun := refines_run hstart le_rfl hpre fun c' hc' => hsat c' (List.mem_append_left _ hc')
  have hmax : c.now < conf.timeMax := by have := conf.block_pos; omega
  obtain ⟨_, _, -, -, -, hroom⟩ := exec_effect conf hrun.ok.settled.indexed c
  refine ⟨fun hnf => (hroom hnf).2, fun hrc => ?_⟩
  obtain ⟨lost, hsim⟩ := exec_simulates hrun.ok.settled c hlast (hpre.le_lastTime.trans hlast) hmax
  have hagree := (hrun.agree c.key hev).mono hlast
  rw [(hsim.answered hrc).1, (c.apply_sameFrom hagree).2, apply_reference c hsatc]
  rfl

/-- Two events ban, and the reference agrees that the third call finds the ban. -/
theorem exec_eq_reference_banned :
    (Call.exec .unbalanced .small (run (callStep .unbalanced .small) .empty
        [.record (.repeated 7) 1 fun _ => some 4096, .record (.repeated 7) 2 fun _ => none])
      (.isBlocked (.repeated 7) 3)).2 =
    Call.verdict .small (.isBlocked (.repeated 7) 3)
      ((Call.isBlocked (.repeated 7) 3).apply (reference .small)
        (referenceAfter .unbalanced .small
          [.record (.repeated 7) 1 fun _ => some 4096, .record (.repeated 7) 2 fun _ => none]
          (Digest.repeated 7))).2 :=
  (exec_eq_reference .unbalanced .small _ _ (by decide) (by decide) (by decide +kernel)).2
    (by decide +kernel)

end ErrorAbuse
