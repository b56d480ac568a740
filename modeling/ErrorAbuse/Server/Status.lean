import ErrorAbuse.Server.Serving

/-!
# What a log says of a request

The state of a context is set by whichever handler worked on it last, and `$error_abuse_status`
shows it in log lines. `Labelled` ties it to what the handlers have done for the request: nothing
is shown as counted or blocked without a reason, and no rejection is hidden but by a dry run.
-/

namespace ErrorAbuse

open Lib

variable {ζ : Type} {site : Site ζ} {v : Visit} {zone : ζ} {r r' : Exchange ζ} {a : ℕ} {now : ℤ}

/-! ## The variable -/

def CtxState.text : CtxState → String
  | bypassed => "BYPASSED"
  | passed => "PASSED"
  | counted => "COUNTED"
  | blocked => "BLOCKED"
  | dryRun => "DRY_RUN"

/-- `$error_abuse_status` -/
def variableStatus (r : Exchange ζ) : String :=
  match r.ctx with
  | none => CtxState.bypassed.text
  | some a => (r.pool a).state.text

theorem variableStatus_eq (hctx : r.ctx = some a) : variableStatus r = (r.pool a).state.text := by
  rw [variableStatus, hctx]

/-! ## What happened -/

/-- A context whose state says nothing about its request that is not among the acts. -/
structure ReqCtx.Labelled (acts : List (Act ζ)) (c : ReqCtx ζ) : Prop where
  own : c.ownRejection = true → c.state = .blocked ∨ c.state = .dryRun
  counted : c.state = .counted → ∃ act ∈ acts, act.isRecord
  blocked : c.state = .blocked → ∃ act ∈ acts, act.isReject ∨ act.isRecord

def Labelled (r : Exchange ζ) : Prop := ∀ a, (r.pool a).Labelled r.acts

theorem Logs.subset {P : Act ζ → Prop} (h : Logs P r r') : r.acts ⊆ r'.acts := by
  obtain ⟨new, hacts, -⟩ := h
  rw [hacts]
  exact List.subset_append_right new r.acts

namespace ReqCtx.Labelled

variable {c c' : ReqCtx ζ} {acts acts' : List (Act ζ)}

theorem congr (h : c.Labelled acts) (hacts : acts ⊆ acts') (hstate : c'.state = c.state)
    (hown : c'.ownRejection = c.ownRejection) : c'.Labelled acts' where
  own := by
    rw [hown, hstate]
    exact h.own
  counted hc := by
    obtain ⟨act, hact, hrecord⟩ := h.counted (hstate ▸ hc)
    exact ⟨act, hacts hact, hrecord⟩
  blocked hb := by
    obtain ⟨act, hact, hcause⟩ := h.blocked (hstate ▸ hb)
    exact ⟨act, hacts hact, hcause⟩

theorem of_dryRun (h : c.state = .dryRun) : c.Labelled acts where
  own _ := .inr h
  counted hc := by cases h.symm.trans hc
  blocked hb := by cases h.symm.trans hb

theorem of_reject (h : c.state = .blocked) {status : ℕ} (hact : Act.reject status ∈ acts) :
    c.Labelled acts where
  own _ := .inl h
  counted hc := by cases h.symm.trans hc
  blocked _ := ⟨_, hact, .inl rfl⟩

/-- Once the response is recorded the state may be any, as long as nothing is rejected. -/
theorem of_record (hown : c.ownRejection = false) {key : Key}
    (hact : Act.record zone key now ∈ acts) : c.Labelled acts where
  own h := by cases hown.symm.trans h
  counted _ := ⟨_, hact, rfl⟩
  blocked _ := ⟨_, hact, .inr rfl⟩

/-- A context as it is built. -/
theorem of_built {key : List UInt8} {result : Option ℕ} {cleanup : List Cleanup}
    (h : Built site v r zone key result c cleanup) : c.Labelled acts := by
  have hfresh : c.ownRejection = false ∧ (c.state = .bypassed ∨ c.state = .passed) := by
    cases h <;> simp [ReqCtx.fresh, ReqCtx.filled, ReqCtx.zeroed]
  obtain ⟨hown, hstate⟩ := hfresh
  constructor
  · simp [hown]
  · intro hc
    rw [hc] at hstate
    simp at hstate
  · intro hb
    rw [hb] at hstate
    simp at hstate

end ReqCtx.Labelled

namespace Labelled

theorem start (loc : LocConf ζ) (shctx : ζ → Shctx) (worker : Worker) :
    Labelled (Exchange.start loc shctx worker) :=
  fun _ => ⟨fun h => (nomatch h), fun h => (nomatch h), fun h => (nomatch h)⟩

/-- A handler works on one context. -/
theorem within (h : Labelled r) (hw : Within a r r') (hacts : r.acts ⊆ r'.acts)
    (hctx : (r'.pool a).Labelled r'.acts) : Labelled r' := by
  intro b
  by_cases hba : b = a
  · rw [hba]
    exact hctx
  · rw [hw.other b hba]
    exact (h b).congr hacts rfl rfl

theorem prepared (h : Labelled r) {found : Option ℕ} (hp : Prepared site v r r' found) :
    Labelled r' := by
  have hacts : r.acts ⊆ r'.acts := (hp.logs (P := fun _ => True) fun _ _ => trivial).subset
  intro b
  cases hp with
  | attached _ _ => exact h b
  | none _ _ _ => exact h b
  | restored a _ _ =>
      by_cases hba : b = a
      · subst hba
        rw [Exchange.pool_restore_self]
        exact (h b).congr hacts rfl rfl
      · rw [Exchange.pool_restore_of_ne hba]
        exact h b
  | built zone key result c cleanup _ _ _ _ _ hbuilt =>
      by_cases hbn : b = r.next
      · simp only [hbn, Function.update_self]
        exact .of_built hbuilt
      · simp only [Function.update_of_ne hbn]
        exact (h b).congr hacts rfl rfl

theorem asked (h : Labelled r) {b : Bool} (ha : Asked site zone a r r' b) : Labelled r' := by
  have hacts : r.acts ⊆ r'.acts := (ha.logs (P := fun _ => True) fun _ => trivial).subset
  refine h.within ha.within hacts ?_
  cases ha with
  | pending _ => exact h a
  | _ =>
      simp only [Exchange.pool_onCtx_self]
      exact (h a).congr hacts rfl rfl

theorem ruled (h : Labelled r) {rc : PhaseRc} (hr : Ruled site v zone a r r' rc) : Labelled r' := by
  have hacts : r.acts ⊆ r'.acts :=
    (hr.logs (P := fun _ => True) trivial fun _ => trivial).subset
  refine h.within hr.within hacts ?_
  cases hr with
  | passed =>
      rw [Exchange.pool_work_self]
      exact (h a).congr hacts rfl rfl
  | observed =>
      rw [Exchange.pool_work_self]
      exact .of_dryRun rfl
  | rejected =>
      rw [Exchange.pool_work_self]
      exact .of_reject rfl List.mem_cons_self

theorem checked (h : Labelled r) {rc : PhaseRc} (hc : Checked site v zone a r r' rc) :
    Labelled r' := by
  cases hc with
  | parked _ _ _ hasked => exact h.asked hasked
  | refused _ _ _ _ _ hasked hruled => exact (h.asked hasked).ruled hruled
  | settled _ _ _ hruled => exact h.ruled hruled

theorem filtered (h : Labelled r) {out : HeadersOut} {rc : FilterRc}
    (hf : Filtered site v zone a out r r' rc) : Labelled r' := by
  have hacts : r.acts ⊆ r'.acts :=
    (hf.logs (P := fun _ => True) (fun _ => trivial) (fun _ => trivial) (fun _ => trivial)
      (fun _ => trivial) fun _ => trivial).subset
  refine h.within hf.within hacts ?_
  cases hf with
  | own =>
      rw [Exchange.pool_onCtx_self]
      exact (h a).congr hacts rfl rfl
  | quiet =>
      rw [Exchange.pool_onCtx_self]
      exact (h a).congr hacts rfl rfl
  | observed =>
      rw [Exchange.pool_work_self]
      exact .of_dryRun rfl
  | counted _ _ _ _ _ _ _ acts _ _ _ hlog =>
      have hrecord : Act.record zone (r.pool a).key v.now ∈ acts := by cases hlog <;> simp
      rw [Exchange.pool_work_self]
      exact .of_record rfl hrecord
  | full =>
      rw [Exchange.pool_work_self]
      exact .of_reject rfl List.mem_cons_self

theorem replied (h : Labelled r) {now : ℤ} {reply : Option Reply}
    (hr : Replied site now reply r r') : Labelled r' := by
  cases hr with
  | unasked _ => exact h
  | lost _ _ => exact h
  | answered a count deadline banned _ _ _ =>
      refine h.within (within_answered ..) (List.Subset.refl _) ?_
      simp only [Exchange.pool_onCtx_self]
      exact (h a).congr (List.Subset.refl _) rfl rfl

theorem turnStep [DecidableEq ζ] (h : Labelled r) (turn : Turn ζ) :
    Labelled (turnStep site r turn) := by
  cases turn with
  | preaccess v =>
      refine (preaccess_preaccessed site v r).keeps h (fun _ _ hp => h.prepared hp) ?_
      exact fun _ _ _ hp _ hc => (h.prepared hp).checked hc
  | headerFilter v out =>
      refine (headerFilter_headerFiltered site v out r).keeps h (fun _ _ hp => h.prepared hp) ?_
      exact fun _ _ _ hp _ _ hf => (h.prepared hp).filtered hf
  | reply now reply => exact h.replied (turnStep_replied site now reply r)
  | _ => exact h

end Labelled

/-- The attached context of a request that was rejected is the one that rejected it. -/
theorem Once.unrejected (h : Once r) (hanchored : Anchored r) (hctx : r.ctx = some a)
    (hown : (r.pool a).ownRejection = false) : ∀ act ∈ r.acts, act.isReject = false := by
  intro act hact
  by_contra hr
  obtain ⟨b, hzone, hflag⟩ := h.rejected act hact (by simpa using hr)
  obtain rfl := hanchored.attached a b hctx (hanchored.zoned b hzone)
  simp [hown] at hflag

/-- **The status in a log tells what happened.** In every run of a server: a request that is logged
as counted has called `record` exactly once; one that is logged as blocked was rejected, or it
called `record`; and one that was rejected is logged as nothing but blocked, or as a dry run, while
its context is attached. -/
theorem status_told {ι ω : Type} [DecidableEq ι] [DecidableEq ω] [DecidableEq ζ] (site : Site ζ)
    (owner : ι → ω) (loc : ι → LocConf ζ) (shctx : ζ → Shctx) (workers : ω → Worker)
    (es : List (Serving ι ω ζ)) (i : ι) :
    let r := (run (Server.serve site owner) (.start owner loc shctx workers) es).view owner i
    (variableStatus r = "COUNTED" → r.acts.countP Act.isRecord = 1) ∧
    (variableStatus r = "BLOCKED" → ∃ act ∈ r.acts, act.isReject ∨ act.isRecord) ∧
    ∀ a act, r.ctx = some a → act ∈ r.acts → act.isReject = true →
      variableStatus r = "BLOCKED" ∨ variableStatus r = "DRY_RUN" := by
  intro r
  have hstart : ∀ i, Anchored ((Server.start owner loc shctx workers).view owner i) ∧
      Once ((Server.start owner loc shctx workers).view owner i) ∧
      Labelled ((Server.start owner loc shctx workers).view owner i) := fun i =>
    ⟨.start (loc i) shctx (workers (owner i)), .start (loc i) shctx (workers (owner i)),
      .start (loc i) shctx (workers (owner i))⟩
  obtain ⟨hanchored, honce, hlabelled⟩ : Anchored r ∧ Once r ∧ Labelled r :=
    Server.view_invariant (fun r => Anchored r ∧ Once r ∧ Labelled r)
      (fun _ turn h => ⟨h.1.turnStep turn, h.2.1.turnStep h.1 turn, h.2.2.turnStep turn⟩) hstart es i
  cases hctx : r.ctx with
  | none => simp [variableStatus, hctx, CtxState.text]
  | some a =>
      rw [variableStatus_eq hctx]
      refine ⟨fun hcounted => ?_, fun hblocked => ?_, fun b act hb hact hreject => ?_⟩
      · have hstate : (r.pool a).state = .counted := by
          cases hs : (r.pool a).state <;> simp [hs, CtxState.text] at hcounted ⊢
        have hpos : 0 < r.acts.countP Act.isRecord :=
          List.countP_pos_iff.mpr ((hlabelled a).counted hstate)
        have hone := honce.records
        omega
      · refine (hlabelled a).blocked ?_
        cases hs : (r.pool a).state <;> simp [hs, CtxState.text] at hblocked ⊢
      · have hown : (r.pool a).ownRejection = true := by
          by_contra hno
          have hnone := honce.unrejected hanchored hctx (by simpa using hno) act hact
          cases hnone.symm.trans hreject
        rcases (hlabelled a).own hown with hs | hs
        · exact .inl (by rw [hs, CtxState.text])
        · exact .inr (by rw [hs, CtxState.text])

end ErrorAbuse
