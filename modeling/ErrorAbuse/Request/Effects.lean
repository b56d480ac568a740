import ErrorAbuse.Request.Handlers

/-!
# What the handlers do to a request

Each handler first prepares the context and then works on that context alone. `Prepared`
lists the outcomes of the first part, each with the state it leaves. `Within a r r'` says
what the second part leaves as it is: everything that decides which context the next
handler finds, the other contexts, and the identity of this one.

`Anchored` is the invariant that makes the cleanup list reliable: a context that got as far
as having a zone is the one in the list, and `r->ctx` never points to another one.
-/

namespace ErrorAbuse

open Lib

variable {ζ : Type} {site : Site ζ} {v : Visit} {zone : ζ} {r r' : Exchange ζ} {a : ℕ}

namespace Exchange

@[simp] theorem pool_onCtx_self (f : ReqCtx ζ → ReqCtx ζ) : (r.onCtx a f).pool a = f (r.pool a) :=
  Function.update_self ..
theorem pool_onCtx_of_ne {b : ℕ} (h : b ≠ a) (f : ReqCtx ζ → ReqCtx ζ) :
    (r.onCtx a f).pool b = r.pool b := Function.update_of_ne h ..
@[simp] theorem loc_onCtx (f : ReqCtx ζ → ReqCtx ζ) : (r.onCtx a f).loc = r.loc := rfl
@[simp] theorem ctx_onCtx (f : ReqCtx ζ → ReqCtx ζ) : (r.onCtx a f).ctx = r.ctx := rfl
@[simp] theorem cleanup_onCtx (f : ReqCtx ζ → ReqCtx ζ) : (r.onCtx a f).cleanup = r.cleanup := rfl
@[simp] theorem next_onCtx (f : ReqCtx ζ → ReqCtx ζ) : (r.onCtx a f).next = r.next := rfl
@[simp] theorem count_onCtx (f : ReqCtx ζ → ReqCtx ζ) : (r.onCtx a f).count = r.count := rfl
@[simp] theorem waiting_onCtx (f : ReqCtx ζ → ReqCtx ζ) : (r.onCtx a f).waiting = r.waiting := rfl
@[simp] theorem shctx_onCtx (f : ReqCtx ζ → ReqCtx ζ) : (r.onCtx a f).shctx = r.shctx := rfl
@[simp] theorem worker_onCtx (f : ReqCtx ζ → ReqCtx ζ) : (r.onCtx a f).worker = r.worker := rfl
@[simp] theorem acts_onCtx (f : ReqCtx ζ → ReqCtx ζ) : (r.onCtx a f).acts = r.acts := rfl
@[simp] theorem acts_note (act : Act ζ) : (r.note act).acts = act :: r.acts := rfl
@[simp] theorem pool_note (act : Act ζ) : (r.note act).pool = r.pool := rfl

theorem onCtx_onCtx (f g : ReqCtx ζ → ReqCtx ζ) :
    (r.onCtx a f).onCtx a g = r.onCtx a fun c => g (f c) := by
  simp only [onCtx, Function.update_self, Function.update_idem]

theorem onCtx_worker (w : Worker) (f : ReqCtx ζ → ReqCtx ζ) :
    { r with worker := w }.onCtx a f = { r.onCtx a f with worker := w } := rfl

/-- Work on one context and on what the requests share. -/
def work (r : Exchange ζ) (a : ℕ) (f : ReqCtx ζ → ReqCtx ζ) (shctx : ζ → Shctx) (worker : Worker)
    (acts : List (Act ζ)) : Exchange ζ :=
  { r.onCtx a f with shctx := shctx, worker := worker, acts := acts }

section work

variable {f g : ReqCtx ζ → ReqCtx ζ} {shctx : ζ → Shctx} {worker : Worker} {acts : List (Act ζ)}

@[simp] theorem pool_work_self : (r.work a f shctx worker acts).pool a = f (r.pool a) :=
  pool_onCtx_self f
@[simp] theorem loc_work : (r.work a f shctx worker acts).loc = r.loc := rfl
@[simp] theorem ctx_work : (r.work a f shctx worker acts).ctx = r.ctx := rfl
@[simp] theorem cleanup_work : (r.work a f shctx worker acts).cleanup = r.cleanup := rfl
@[simp] theorem next_work : (r.work a f shctx worker acts).next = r.next := rfl
@[simp] theorem count_work : (r.work a f shctx worker acts).count = r.count := rfl
@[simp] theorem waiting_work : (r.work a f shctx worker acts).waiting = r.waiting := rfl
@[simp] theorem shctx_work : (r.work a f shctx worker acts).shctx = shctx := rfl
@[simp] theorem acts_work : (r.work a f shctx worker acts).acts = acts := rfl

theorem work_onCtx : (r.work a f shctx worker acts).onCtx a g =
    r.work a (fun c => g (f c)) shctx worker acts := by
  simp only [work, onCtx, Function.update_self, Function.update_idem]

theorem work_work (shctx' : ζ → Shctx) (worker' : Worker) (acts' : List (Act ζ)) :
    (r.work a f shctx worker acts).work a g shctx' worker' acts' =
      r.work a (fun c => g (f c)) shctx' worker' acts' := by
  simp only [work, onCtx, Function.update_self, Function.update_idem]

theorem work_note (act : Act ζ) : (r.work a f shctx worker acts).note act =
    r.work a f shctx worker (act :: acts) := rfl

end work

theorem work_congr {f g : ReqCtx ζ → ReqCtx ζ} {shctx : ζ → Shctx} {worker : Worker}
    {acts : List (Act ζ)} (h : f (r.pool a) = g (r.pool a)) :
    r.work a f shctx worker acts = r.work a g shctx worker acts := by
  simp only [work, onCtx, h]

theorem onCtx_congr {f g : ReqCtx ζ → ReqCtx ζ} (h : f (r.pool a) = g (r.pool a)) :
    r.onCtx a f = r.onCtx a g := by
  simp only [onCtx, h]

/-- The context from the cleanup list becomes the attached one. -/
def restore (r : Exchange ζ) (a : ℕ) : Exchange ζ :=
  { r.onCtx a fun c => { c with fromAnchor := true } with ctx := some a }

@[simp] theorem pool_restore_self : (r.restore a).pool a = { r.pool a with fromAnchor := true } :=
  Function.update_self ..
theorem pool_restore_of_ne {b : ℕ} (h : b ≠ a) : (r.restore a).pool b = r.pool b :=
  Function.update_of_ne h ..

/-- The context that the next handler finds. -/
def found (r : Exchange ζ) : Option ℕ := r.ctx.or (findAnchorCtx r.cleanup)

end Exchange

/-! ## Preparing -/

/-- A context as it is published. -/
def ReqCtx.fresh (dryRun : Bool) : ReqCtx ζ := { ReqCtx.zeroed with dryRun := dryRun }

/-- A context that got its identity. -/
def ReqCtx.filled (c : ReqCtx ζ) (zone : ζ) (key : Key) : ReqCtx ζ :=
  { c with zone := some zone, key := key, state := .passed }

/-- The ways to build a context. -/
inductive Built (site : Site ζ) (v : Visit) (r : Exchange ζ) (zone : ζ) (key : List UInt8) :
    Option ℕ → ReqCtx ζ → List Cleanup → Prop
  | unanchored : v.anchorRoom = false → Built site v r zone key none (.fresh r.loc.dryRun) r.cleanup
  | keyless : key = [] → v.anchorRoom = true →
      Built site v r zone key (some r.next) (.fresh r.loc.dryRun)
        (.anchor anchorMagic r.next :: r.cleanup)
  | failed (digest : Key) : key ≠ [] → (v.digestRoom = false ∨ v.logKeyRoom = false) →
      v.anchorRoom = true → Built site v r zone key none { ReqCtx.fresh r.loc.dryRun with key := digest }
        (.anchor anchorMagic r.next :: r.cleanup)
  | complete : key ≠ [] → v.anchorRoom = true → v.digestRoom = true → v.logKeyRoom = true →
      Built site v r zone key (some r.next)
        ((ReqCtx.fresh r.loc.dryRun).filled zone (site.sha256 key))
        (.anchor anchorMagic r.next :: r.cleanup)

/-- What `prepareCtx` can do. -/
inductive Prepared (site : Site ζ) (v : Visit) (r : Exchange ζ) : Exchange ζ → Option ℕ → Prop
  | attached (a : ℕ) : r.ctx = some a → Prepared site v r r (some a)
  | restored (a : ℕ) : r.ctx = none → findAnchorCtx r.cleanup = some a →
      Prepared site v r (r.restore a) (some a)
  | none : r.ctx = none → findAnchorCtx r.cleanup = none →
      (r.loc.zone = none ∨ r.loc.enabled = false ∨ v.key = none ∨ v.ctxRoom = false) →
      Prepared site v r r none
  | built (zone : ζ) (key : List UInt8) (result : Option ℕ) (c : ReqCtx ζ) (cleanup : List Cleanup) :
      r.ctx = none → findAnchorCtx r.cleanup = none → r.loc.zone = some zone →
      r.loc.enabled = true → v.key = some key → Built site v r zone key result c cleanup →
      v.ctxRoom = true → Prepared site v r { r with
        pool := Function.update r.pool r.next c
        next := r.next + 1
        ctx := some r.next
        cleanup := cleanup
        acts := .built r.next key :: r.acts } result

theorem buildCtx_built (site : Site ζ) (zone : ζ) {key : List UInt8} (hkey : v.key = some key)
    (hroom : v.ctxRoom = true) : ∃ result c cleanup, Built site v r zone key result c cleanup ∧
      buildCtx site v zone r = ({ r with
        pool := Function.update r.pool r.next c
        next := r.next + 1
        ctx := some r.next
        cleanup := cleanup
        acts := .built r.next key :: r.acts }, result) := by
  simp only [buildCtx, hkey, hroom, Bool.not_true, Bool.false_eq_true, if_false, registerAnchor]
  cases hanchor : v.anchorRoom with
  | false => exact ⟨_, _, _, .unanchored hanchor, rfl⟩
  | true =>
      simp only [Bool.not_true, Bool.false_eq_true, if_false, fillCtx]
      by_cases hnil : key.length = 0
      · rw [if_pos hnil]
        exact ⟨_, _, _, .keyless (List.length_eq_zero_iff.mp hnil) hanchor, rfl⟩
      · have hne : key ≠ [] := fun h => hnil (List.length_eq_zero_iff.mpr h)
        rw [if_neg hnil]
        cases hdigest : v.digestRoom with
        | false => exact ⟨_, _, _, .failed [] hne (.inl hdigest) hanchor, rfl⟩
        | true =>
            simp only [Bool.not_true, Bool.false_eq_true, if_false, Exchange.onCtx, Exchange.note,
              Function.update_self, Function.update_idem]
            cases hlog : v.logKeyRoom with
            | false => exact ⟨_, _, _, .failed (site.sha256 key) hne (.inr hlog) hanchor, rfl⟩
            | true => exact ⟨_, _, _, .complete hne hanchor hdigest hlog, rfl⟩

theorem prepareCtx_prepared (site : Site ζ) (v : Visit) (r : Exchange ζ) :
    Prepared site v r (prepareCtx site v r).1 (prepareCtx site v r).2 := by
  cases hctx : r.ctx with
  | some a =>
      simp only [prepareCtx, hctx]
      exact .attached a hctx
  | none =>
      cases hfind : findAnchorCtx r.cleanup with
      | some a =>
          simp only [prepareCtx, hctx, hfind]
          exact .restored a hctx hfind
      | none =>
          cases hzone : r.loc.zone with
          | none =>
              simp only [prepareCtx, hctx, hfind, hzone]
              exact .none hctx hfind (.inl hzone)
          | some zone =>
              simp only [prepareCtx, hctx, hfind, hzone]
              by_cases hen : r.loc.enabled
              · simp only [hen, Bool.not_true, Bool.false_eq_true, if_false]
                cases hkey : v.key with
                | none =>
                    simp only [buildCtx, hkey]
                    exact .none hctx hfind (.inr (.inr (.inl hkey)))
                | some key =>
                    by_cases hroom : v.ctxRoom
                    · obtain ⟨result, c, cleanup, hbuilt, heq⟩ :=
                        buildCtx_built site zone hkey hroom
                      rw [heq]
                      exact .built zone key result c cleanup hctx hfind hzone hen hkey hbuilt hroom
                    · simp only [buildCtx, hkey, hroom, Bool.not_false, if_true]
                      exact .none hctx hfind (.inr (.inr (.inr (by simpa using hroom))))
              · simp only [hen, Bool.not_false, if_true]
                exact .none hctx hfind (.inr (.inl (by simpa using hen)))

theorem prepared_of_eq {found : Option ℕ} (h : prepareCtx site v r = (r', found)) :
    Prepared site v r r' found := by
  have hp := prepareCtx_prepared site v r
  rwa [h] at hp

/-- A context that is found is the attached one from then on. -/
theorem Prepared.ctx_eq (h : Prepared site v r r' (some a)) : r'.ctx = some a := by
  cases h with
  | attached _ ha => exact ha
  | restored _ _ _ => rfl
  | built _ _ _ _ _ _ _ _ _ _ hbuilt => cases hbuilt <;> rfl

/-! ## Working on one context -/

/-- The handler has worked on the context `a` alone, and left its identity. -/
structure Within (a : ℕ) (r r' : Exchange ζ) : Prop where
  loc : r'.loc = r.loc
  ctx : r'.ctx = r.ctx
  cleanup : r'.cleanup = r.cleanup
  next : r'.next = r.next
  other : ∀ b ≠ a, r'.pool b = r.pool b
  zone : (r'.pool a).zone = (r.pool a).zone
  key : (r'.pool a).key = (r.pool a).key
  fromAnchor : (r'.pool a).fromAnchor = (r.pool a).fromAnchor

theorem Within.refl (a : ℕ) (r : Exchange ζ) : Within a r r :=
  ⟨rfl, rfl, rfl, rfl, fun _ _ => rfl, rfl, rfl, rfl⟩

theorem Within.trans {r₁ r₂ r₃ : Exchange ζ} (h : Within a r₁ r₂) (h' : Within a r₂ r₃) :
    Within a r₁ r₃ where
  loc := h'.loc.trans h.loc
  ctx := h'.ctx.trans h.ctx
  cleanup := h'.cleanup.trans h.cleanup
  next := h'.next.trans h.next
  other b hb := (h'.other b hb).trans (h.other b hb)
  zone := h'.zone.trans h.zone
  key := h'.key.trans h.key
  fromAnchor := h'.fromAnchor.trans h.fromAnchor

theorem within_onCtx {f : ReqCtx ζ → ReqCtx ζ} (hzone : ∀ c, (f c).zone = c.zone)
    (hkey : ∀ c, (f c).key = c.key) (hfrom : ∀ c, (f c).fromAnchor = c.fromAnchor) :
    Within a r (r.onCtx a f) where
  loc := rfl
  ctx := rfl
  cleanup := rfl
  next := rfl
  other _ hb := Exchange.pool_onCtx_of_ne hb f
  zone := by rw [Exchange.pool_onCtx_self, hzone]
  key := by rw [Exchange.pool_onCtx_self, hkey]
  fromAnchor := by rw [Exchange.pool_onCtx_self, hfrom]

theorem within_work {f : ReqCtx ζ → ReqCtx ζ} (shctx : ζ → Shctx) (worker : Worker)
    (acts : List (Act ζ)) (hzone : ∀ c, (f c).zone = c.zone) (hkey : ∀ c, (f c).key = c.key)
    (hfrom : ∀ c, (f c).fromAnchor = c.fromAnchor) : Within a r (r.work a f shctx worker acts) :=
  have h : Within a r (r.onCtx a f) := within_onCtx hzone hkey hfrom
  ⟨h.loc, h.ctx, h.cleanup, h.next, h.other, h.zone, h.key, h.fromAnchor⟩

/-- The keys of the context are those it had, or those of its identity. -/
def KeysFor (site : Site ζ) (zone : ζ) (c : ReqCtx ζ) (events block : List UInt8) : Prop :=
  events = c.redisEvents ∧ block = c.redisBlock ∨
    (⟨events, block⟩ : RedisKeys) = buildRedisKeys site.redis (site.zones zone) c.key

theorem redisKeys_effect (site : Site ζ) (v : Visit) (zone : ζ) (a : ℕ) (r : Exchange ζ) :
    ∃ events block, KeysFor site zone (r.pool a) events block ∧
      (redisKeys site v zone a r).1 =
        r.onCtx a (fun c => { c with redisEvents := events, redisBlock := block }) ∧
      ∀ keys ∈ (redisKeys site v zone a r).2, keys = ⟨events, block⟩ ∧ block ≠ [] := by
  have hsame : r.onCtx a (fun c => { c with
      redisEvents := (r.pool a).redisEvents, redisBlock := (r.pool a).redisBlock }) = r := by
    simp only [Exchange.onCtx, Function.update_eq_self]
  rw [redisKeys]
  split_ifs with hbuilt hroom
  · refine ⟨_, _, .inl ⟨rfl, rfl⟩, hsame.symm, fun _ h => ⟨(Option.some.inj h).symm, ?_⟩⟩
    exact List.length_pos_iff.mp (Nat.pos_of_ne_zero hbuilt)
  · exact ⟨_, _, .inl ⟨rfl, rfl⟩, hsame.symm, fun _ h => nomatch h⟩
  · refine ⟨_, _, .inr rfl, rfl, fun _ h => ⟨(Option.some.inj h).symm, ?_⟩⟩
    exact block_buildRedisKeys_ne_nil site.redis (site.zones zone) (r.pool a).key

/-- A context that Redis has been asked about. -/
def ReqCtx.asked (c : ReqCtx ζ) (events block : List UInt8) (pending checked : Bool) : ReqCtx ζ :=
  { c with
    redisEvents := events, redisBlock := block, redisPending := pending, redisChecked := checked }

/-- What `redisCheck` can do. -/
inductive Asked (site : Site ζ) (zone : ζ) (a : ℕ) (r : Exchange ζ) : Exchange ζ → Bool → Prop
  | pending : (r.pool a).redisPending = true → Asked site zone a r r true
  | skipped (events block : List UInt8) (worker : Worker) : (r.pool a).redisPending = false →
      KeysFor site zone (r.pool a) events block → Asked site zone a r
        { r.onCtx a (fun c => c.asked events block false true) with worker := worker } false
  | queued (events block : List UInt8) : (r.pool a).redisPending = false → block ≠ [] →
      KeysFor site zone (r.pool a) events block → Asked site zone a r
        { r.onCtx a (fun c => c.asked events block true c.redisChecked) with
          count := r.count + 1, waiting := r.waiting + 1, acts := .get block :: r.acts } true

theorem redisCheck_asked (site : Site ζ) (v : Visit) (zone : ζ) (a : ℕ) (r : Exchange ζ) :
    Asked site zone a r (r.redisCheck site v zone a).1 (r.redisCheck site v zone a).2 := by
  obtain ⟨events, block, hfor, hstate, hkeys⟩ := redisKeys_effect site v zone a r
  cases hpending : (r.pool a).redisPending with
  | true =>
      rw [Exchange.redisCheck, if_pos hpending]
      exact .pending hpending
  | false =>
      have hskip : ∀ e b, (r.onCtx a fun c => c.asked e b false true) =
          r.onCtx a fun c => { c with redisEvents := e, redisBlock := b, redisChecked := true } :=
        fun e b => Exchange.onCtx_congr (by simp only [ReqCtx.asked, hpending])
      rw [Exchange.redisCheck, if_neg (by simp [hpending])]
      by_cases havailable : (!redisAvailable r.worker v.now) = true
      · have hown : (r.onCtx a fun c => { c with redisChecked := true }) =
            r.onCtx a fun c => c.asked (r.pool a).redisEvents (r.pool a).redisBlock false true :=
          Exchange.onCtx_congr (by simp only [ReqCtx.asked, hpending])
        rw [if_pos havailable, hown]
        exact .skipped _ _ r.worker hpending (.inl ⟨rfl, rfl⟩)
      · rw [if_neg havailable]
        rcases hr₁ : redisKeys site v zone a r with ⟨r₁, keys⟩
        rw [hr₁] at hstate hkeys
        obtain rfl : r₁ = _ := hstate
        cases keys with
        | none =>
            simp only [Exchange.onCtx_onCtx, ← hskip]
            exact .skipped events block r.worker hpending hfor
        | some keys =>
            obtain ⟨rfl, hne⟩ := hkeys keys rfl
            simp only [Exchange.onCtx_onCtx]
            split_ifs with hroom
            · simp only [Exchange.onCtx_worker, Exchange.onCtx_onCtx]
              exact .skipped events block _ hpending hfor
            · exact .queued events block hpending hne hfor

theorem Asked.within {b : Bool} (h : Asked site zone a r r' b) : Within a r r' := by
  cases h with
  | pending _ => exact .refl a r
  | skipped events block worker _ _ =>
      exact within_work r.shctx worker r.acts (fun _ => rfl) (fun _ => rfl) fun _ => rfl
  | queued events block _ _ _ =>
      have h := within_work (a := a) (r := r) (f := fun c => c.asked events block true c.redisChecked)
        r.shctx r.worker (.get block :: r.acts) (fun _ => rfl) (fun _ => rfl) fun _ => rfl
      exact ⟨h.loc, h.ctx, h.cleanup, h.next, h.other, h.zone, h.key, h.fromAnchor⟩

/-- A context after a check or a count. -/
def ReqCtx.judged (c : ReqCtx ζ) (count : ℕ) (deadline : ℤ) (state : CtxState) (own : Bool) : ReqCtx ζ :=
  { c with count := count, blockedUntil := deadline, state := state, ownRejection := own }

theorem ReqCtx.store_eq (c : ReqCtx ζ) (out : Option (ℕ × ℤ)) :
    ∃ count deadline, c.store out = c.judged count deadline c.state c.ownRejection := by
  cases out with
  | none => exact ⟨_, _, rfl⟩
  | some out => exact ⟨out.1, out.2, rfl⟩

/-- Redis or the zone says that the client is banned. -/
def Banned (site : Site ζ) (v : Visit) (zone : ζ) (a : ℕ) (r : Exchange ζ) : Prop :=
  (r.pool a).redisBlocked = true ∨
    (isBlocked site.core (site.zones zone) (r.pool a).key v.now (r.shctx zone)).2.rc = .ok

/-- The log of `checkBan`, up to its decision. -/
def checked (v : Visit) (zone : ζ) (a : ℕ) (r : Exchange ζ) : List (Act ζ) :=
  if (r.pool a).redisBlocked then r.acts else .isBlocked zone (r.pool a).key v.now :: r.acts

/-- What `checkBan` can do. -/
inductive Ruled (site : Site ζ) (v : Visit) (zone : ζ) (a : ℕ) (r : Exchange ζ) :
    Exchange ζ → PhaseRc → Prop
  | passed (count : ℕ) (deadline : ℤ) (shctx : ζ → Shctx) : ¬ Banned site v zone a r →
      Ruled site v zone a r
        (r.work a (fun c => c.judged count deadline c.state c.ownRejection) shctx r.worker
          (checked v zone a r)) .declined
  | observed (count : ℕ) (deadline : ℤ) (shctx : ζ → Shctx) : Banned site v zone a r →
      effectiveDryRun (r.pool a) r.loc = true → Ruled site v zone a r
        (r.work a (fun c => c.judged count deadline .dryRun c.ownRejection) shctx r.worker
          (checked v zone a r)) .declined
  | rejected (count : ℕ) (deadline : ℤ) (shctx : ζ → Shctx) : Banned site v zone a r →
      effectiveDryRun (r.pool a) r.loc = false → Ruled site v zone a r
        (r.work a (fun c => c.judged count deadline .blocked true) shctx r.worker
          (.reject r.loc.rejectStatus :: checked v zone a r)) (.status r.loc.rejectStatus)

theorem Ruled.within {rc : PhaseRc} (h : Ruled site v zone a r r' rc) : Within a r r' := by
  cases h <;> exact within_work _ _ _ (fun _ => rfl) (fun _ => rfl) fun _ => rfl

theorem enforce_ruled (count : ℕ) (deadline : ℤ) (shctx : ζ → Shctx) (hban : Banned site v zone a r)
    (hr' : r' = r.work a (fun c => c.judged count deadline c.state c.ownRejection) shctx r.worker
      (checked v zone a r)) : Ruled site v zone a r (enforce a r').1 (enforce a r').2 := by
  subst hr'
  have hdry : effectiveDryRun ((r.pool a).judged count deadline (r.pool a).state
      (r.pool a).ownRejection) r.loc = effectiveDryRun (r.pool a) r.loc := rfl
  simp only [enforce, Exchange.pool_work_self, Exchange.loc_work, hdry, Exchange.work_onCtx,
    Exchange.work_note]
  split_ifs with h
  · exact .observed count deadline shctx hban h
  · exact .rejected count deadline shctx hban (by simpa using h)

theorem checkBan_ruled [DecidableEq ζ] (site : Site ζ) (v : Visit) (zone : ζ) (a : ℕ) (r : Exchange ζ) :
    Ruled site v zone a r (checkBan site v zone a r).1 (checkBan site v zone a r).2 := by
  rw [checkBan]
  by_cases hredis : (r.pool a).redisBlocked = true
  · rw [if_pos hredis]
    have hacts : checked v zone a r = r.acts := if_pos hredis
    refine enforce_ruled (site.zones zone).threshold (r.pool a).blockedUntil r.shctx (.inl hredis) ?_
    rw [hacts]
    rfl
  · rw [if_neg hredis]
    have hacts : checked v zone a r = .isBlocked zone (r.pool a).key v.now :: r.acts := if_neg hredis
    rw [checkLocal]
    generalize hresult : isBlocked site.core (site.zones zone) (r.pool a).key v.now (r.shctx zone) =
      result
    obtain ⟨count, deadline, hstore⟩ := (r.pool a).store_eq result.2.out
    have hstate : ({ r with shctx := Function.update r.shctx zone result.1 }.note
        (.isBlocked zone (r.pool a).key v.now)).onCtx a (fun c => c.store result.2.out) =
        r.work a (fun c => c.judged count deadline c.state c.ownRejection)
          (Function.update r.shctx zone result.1) r.worker (checked v zone a r) := by
      simp only [Exchange.work, Exchange.onCtx, Exchange.note, hstore, hacts]
    simp only [hstate]
    split_ifs with hrc
    · exact enforce_ruled count deadline _ (.inr (by rw [hresult]; exact hrc)) rfl
    · refine .passed count deadline _ ?_
      rintro (h | h)
      · exact hredis h
      · rw [hresult] at h
        exact hrc h

/-- What `checkZone` can do: park the request, or ask Redis in vain or not at all and then
decide. -/
inductive Checked (site : Site ζ) (v : Visit) (zone : ζ) (a : ℕ) (r : Exchange ζ) :
    Exchange ζ → PhaseRc → Prop
  | parked (r' : Exchange ζ) : (site.zones zone).redis = true → (r.pool a).redisChecked = false →
      Asked site zone a r r' true → Checked site v zone a r r' .again
  | refused (r₁ r' : Exchange ζ) (rc : PhaseRc) : (site.zones zone).redis = true →
      (r.pool a).redisChecked = false → Asked site zone a r r₁ false →
      Ruled site v zone a r₁ r' rc → Checked site v zone a r r' rc
  | settled (r' : Exchange ζ) (rc : PhaseRc) :
      ((site.zones zone).redis = true → (r.pool a).redisChecked = true) →
      Ruled site v zone a r r' rc → Checked site v zone a r r' rc

theorem Checked.within {rc : PhaseRc} (h : Checked site v zone a r r' rc) : Within a r r' := by
  cases h with
  | parked _ _ _ hasked => exact hasked.within
  | refused _ _ _ _ _ hasked hruled => exact hasked.within.trans hruled.within
  | settled _ _ _ hruled => exact hruled.within

theorem checkZone_checked [DecidableEq ζ] (site : Site ζ) (v : Visit) (zone : ζ) (a : ℕ)
    (r : Exchange ζ) :
    Checked site v zone a r (checkZone site v zone a r).1 (checkZone site v zone a r).2 := by
  rw [checkZone]
  split_ifs with h
  · obtain ⟨hredis, hchecked⟩ := h
    have hasked := redisCheck_asked site v zone a r
    rcases hr₁ : r.redisCheck site v zone a with ⟨r₁, b⟩
    rw [hr₁] at hasked
    cases b with
    | true => exact .parked r₁ hredis (by simpa using hchecked) hasked
    | false => exact .refused r₁ _ _ hredis (by simpa using hchecked) hasked (checkBan_ruled ..)
  · refine .settled _ _ (fun hredis => ?_) (checkBan_ruled ..)
    simpa [hredis] using h

/-! ## Filtering -/

/-- A context once `header_filter` has taken the response as its own. -/
def ReqCtx.seen (c : ReqCtx ζ) (dryRun : Bool) : ReqCtx ζ :=
  { c with responseSeen := true, dryRun := dryRun }

/-- A context with its Redis keys. -/
def ReqCtx.keyed (c : ReqCtx ζ) (events block : List UInt8) : ReqCtx ζ :=
  { c with redisEvents := events, redisBlock := block }

/-- The log after `redis_record`, if it is called: the call, and the command if it gets that
far. -/
inductive RedisLogged (site : Site ζ) (v : Visit) (zone : ζ) (key : Key) (events block : List UInt8)
    (acts : List (Act ζ)) : List (Act ζ) → Prop
  | off : RedisLogged site v zone key events block acts acts
  | skipped : RedisLogged site v zone key events block acts (.redisRecord zone key v.now :: acts)
  | sent (worker : Worker) : block ≠ [] → RedisLogged site v zone key events block acts
      (.evalsha (recordArgs (site.zones zone) worker events block) ::
        .redisRecord zone key v.now :: acts)

theorem redisRecord_effect (site : Site ζ) (v : Visit) (zone : ζ) (a : ℕ) (r : Exchange ζ) :
    ∃ events block worker acts, KeysFor site zone (r.pool a) events block ∧
      RedisLogged site v zone (r.pool a).key events block r.acts acts ∧
      r.redisRecord site v zone a = r.work a (fun c => c.keyed events block) r.shctx worker acts := by
  obtain ⟨events, block, hfor, hstate, hkeys⟩ :=
    redisKeys_effect site v zone a (r.note (.redisRecord zone (r.pool a).key v.now))
  have hown : r.note (.redisRecord zone (r.pool a).key v.now) =
      r.work a (fun c => c.keyed (r.pool a).redisEvents (r.pool a).redisBlock) r.shctx r.worker
        (.redisRecord zone (r.pool a).key v.now :: r.acts) := by
    simp only [Exchange.work, Exchange.onCtx, ReqCtx.keyed, Function.update_eq_self, Exchange.note]
  rw [Exchange.redisRecord]
  by_cases havailable : (!redisAvailable r.worker v.now) = true
  · exact ⟨_, _, _, _, .inl ⟨rfl, rfl⟩, .skipped, (if_pos havailable).trans hown⟩
  · have hkeyed : (redisKeys site v zone a (r.note (.redisRecord zone (r.pool a).key v.now))).1 =
        r.work a (fun c => c.keyed events block) r.shctx r.worker
          (.redisRecord zone (r.pool a).key v.now :: r.acts) := hstate
    rcases hr₁ : redisKeys site v zone a (r.note (.redisRecord zone (r.pool a).key v.now)) with
      ⟨r₁, keys⟩
    rw [hr₁] at hkeyed hkeys
    obtain rfl : r₁ = _ := hkeyed
    refine ⟨events, block, ?_⟩
    cases keys with
    | none =>
        exact ⟨r.worker, _, hfor, .skipped, if_neg havailable⟩
    | some keys =>
        obtain ⟨rfl, hne⟩ := hkeys keys rfl
        exact ⟨nextSequence site.redis r.worker, _, hfor, .sent _ hne, if_neg havailable⟩

/-- A context after its event was counted, or found no room. -/
def ReqCtx.counted (c : ReqCtx ζ) (count : ℕ) (deadline : ℤ) (state : CtxState)
    (events block : List UInt8) (full : Bool) : ReqCtx ζ :=
  { (c.judged count deadline state full).keyed events block with responseSeen := !full }

/-- What `filterZone` can do. -/
inductive Filtered (site : Site ζ) (v : Visit) (zone : ζ) (a : ℕ) (out : HeadersOut)
    (r : Exchange ζ) : Exchange ζ → FilterRc → Prop
  | own (rc : FilterRc) : (r.pool a).ownRejection = true →
      (addRejectHeaders v (r.pool a).blockedUntil out).elim (rc = .error) (rc = .next ·) →
      Filtered site v zone a out r
        (r.onCtx a fun c => c.seen (effectiveDryRun c r.loc)) rc
  | quiet : (r.pool a).ownRejection = false → Filtered site v zone a out r
        (r.onCtx a fun c => c.seen (effectiveDryRun c r.loc)) (.next out)
  | observed (count : ℕ) (deadline : ℤ) : (r.pool a).ownRejection = false →
      effectiveDryRun (r.pool a) r.loc = true → Filtered site v zone a out r
        (r.work a (fun c => (c.seen true).judged count deadline .dryRun false) r.shctx r.worker
          (.peek zone (r.pool a).key v.now :: r.acts)) (.next out)
  | counted (count : ℕ) (deadline : ℤ) (state : CtxState) (events block : List UInt8)
      (shctx : ζ → Shctx) (worker : Worker) (acts : List (Act ζ)) :
      (r.pool a).ownRejection = false → effectiveDryRun (r.pool a) r.loc = false →
      KeysFor site zone (r.pool a) events block →
      RedisLogged site v zone (r.pool a).key events block
        (.record zone (r.pool a).key v.now :: r.acts) acts →
      Filtered site v zone a out r (r.work a
        (fun c => (c.seen false).counted count deadline state events block false) shctx worker acts)
        (.next out)
  | full (count : ℕ) (deadline : ℤ) (events block : List UInt8)
      (shctx : ζ → Shctx) (worker : Worker) (acts : List (Act ζ)) :
      (r.pool a).ownRejection = false → effectiveDryRun (r.pool a) r.loc = false →
      KeysFor site zone (r.pool a) events block →
      RedisLogged site v zone (r.pool a).key events block
        (.record zone (r.pool a).key v.now :: r.acts) acts →
      Filtered site v zone a out r (r.work a
        (fun c => (c.seen false).counted count deadline .blocked events block true) shctx worker
        (.reject r.loc.rejectStatus :: acts)) (.finalize r.loc.rejectStatus)

theorem Filtered.within {out : HeadersOut} {rc : FilterRc} (h : Filtered site v zone a out r r' rc) :
    Within a r r' := by
  cases h with
  | own _ _ _ => exact within_onCtx (fun _ => rfl) (fun _ => rfl) fun _ => rfl
  | quiet _ => exact within_onCtx (fun _ => rfl) (fun _ => rfl) fun _ => rfl
  | _ => exact within_work _ _ _ (fun _ => rfl) (fun _ => rfl) fun _ => rfl

/-- `countEvent` up to its return code. -/
theorem countEvent_effect [DecidableEq ζ] (site : Site ζ) (v : Visit) (zone : ζ) (a : ℕ)
    (r : Exchange ζ) (result : Shctx × Verdict) :
    let r₁ := ({ r with shctx := Function.update r.shctx zone result.1 }.note
      (.record zone (r.pool a).key v.now)).onCtx a fun c => c.store result.2.out
    ∃ count deadline events block worker acts, KeysFor site zone (r.pool a) events block ∧
      RedisLogged site v zone (r.pool a).key events block
        (.record zone (r.pool a).key v.now :: r.acts) acts ∧
      (if (site.zones zone).redis then r₁.redisRecord site v zone a else r₁) =
        r.work a (fun c => (c.judged count deadline c.state c.ownRejection).keyed events block)
          (Function.update r.shctx zone result.1) worker acts := by
  intro r₁
  obtain ⟨count, deadline, hstore⟩ := (r.pool a).store_eq result.2.out
  have hr₁ : r₁ = r.work a (fun c => c.judged count deadline c.state c.ownRejection)
      (Function.update r.shctx zone result.1) r.worker (.record zone (r.pool a).key v.now :: r.acts) := by
    simp only [r₁, Exchange.work, Exchange.onCtx, Exchange.note, hstore]
  rw [hr₁]
  split_ifs with hredis
  · obtain ⟨events, block, worker, acts, hfor, hlog, heq⟩ := redisRecord_effect site v zone a
      (r.work a (fun c => c.judged count deadline c.state c.ownRejection)
        (Function.update r.shctx zone result.1) r.worker (.record zone (r.pool a).key v.now :: r.acts))
    simp only [Exchange.pool_work_self, Exchange.acts_work] at hfor hlog
    refine ⟨count, deadline, events, block, worker, acts, hfor, hlog, ?_⟩
    rw [heq, Exchange.work_work, Exchange.shctx_work]
  · refine ⟨count, deadline, _, _, r.worker, _, .inl ⟨rfl, rfl⟩, .off, ?_⟩
    simp only [Exchange.work, Exchange.onCtx, ReqCtx.keyed, ReqCtx.judged]

theorem countEvent_cases [DecidableEq ζ] (site : Site ζ) (v : Visit) (zone : ζ) (a : ℕ)
    (out : HeadersOut) {r : Exchange ζ} (hown : (r.pool a).ownRejection = false) :
    ∃ count deadline events block shctx worker acts, KeysFor site zone (r.pool a) events block ∧
      RedisLogged site v zone (r.pool a).key events block
        (.record zone (r.pool a).key v.now :: r.acts) acts ∧
      ((∃ state, countEvent site v zone a out r = (r.work a (fun c =>
          (c.judged count deadline state false).keyed events block) shctx worker acts, .next out)) ∨
        countEvent site v zone a out r = (r.work a (fun c =>
          { (c.judged count deadline .blocked true).keyed events block with responseSeen := false })
          shctx worker (.reject r.loc.rejectStatus :: acts), .finalize r.loc.rejectStatus)) := by
  rw [countEvent]
  generalize record site.core (site.zones zone) (r.pool a).key v.now v.slab (r.shctx zone) = result
  obtain ⟨count, deadline, events, block, worker, acts, hfor, hlog, heq⟩ :=
    countEvent_effect site v zone a r result
  refine ⟨count, deadline, events, block, Function.update r.shctx zone result.1, worker, acts, hfor,
    hlog, ?_⟩
  simp only at heq ⊢
  simp only [heq, Exchange.work_onCtx, Exchange.work_note, Exchange.loc_work]
  have hsame : r.work a (fun c => (c.judged count deadline c.state c.ownRejection).keyed events block)
      (Function.update r.shctx zone result.1) worker acts =
      r.work a (fun c => (c.judged count deadline (r.pool a).state false).keyed events block)
      (Function.update r.shctx zone result.1) worker acts :=
    Exchange.work_congr (by simp only [hown])
  have hstate : ∀ state, r.work a (fun c =>
        { (c.judged count deadline c.state c.ownRejection).keyed events block with state := state })
      (Function.update r.shctx zone result.1) worker acts =
      r.work a (fun c => (c.judged count deadline state false).keyed events block)
      (Function.update r.shctx zone result.1) worker acts := fun state =>
    Exchange.work_congr (by simp only [hown, ReqCtx.judged, ReqCtx.keyed])
  cases result.2.rc with
  | error =>
      simp only
      split_ifs with hfull
      · exact .inr rfl
      · exact .inl ⟨_, congrArg (·, FilterRc.next out) hsame⟩
  | busy => exact .inl ⟨.blocked, congrArg (·, FilterRc.next out) (hstate .blocked)⟩
  | _ => exact .inl ⟨.counted, congrArg (·, FilterRc.next out) (hstate .counted)⟩

theorem observe_effect (site : Site ζ) (v : Visit) (zone : ζ) (a : ℕ) {r : Exchange ζ}
    (hown : (r.pool a).ownRejection = false) :
    ∃ count deadline, observe site v zone a r =
      r.work a (fun c => c.judged count deadline .dryRun false) r.shctx r.worker
        (.peek zone (r.pool a).key v.now :: r.acts) := by
  let p := peek site.core (site.zones zone) (r.pool a).key v.now (r.shctx zone)
  refine ⟨p.count, p.blockedUntil, ?_⟩
  simp only [observe, Exchange.work, Exchange.onCtx, Exchange.note, ReqCtx.judged, hown, p]

/-- Work on a context that was just marked as seen. -/
theorem seen_work {f : ReqCtx ζ → ReqCtx ζ} {dryRun : Bool} (shctx : ζ → Shctx) (worker : Worker)
    (acts : List (Act ζ)) (h : effectiveDryRun (r.pool a) r.loc = dryRun) :
    (r.onCtx a fun c => c.seen (effectiveDryRun c r.loc)).work a f shctx worker acts =
      r.work a (fun c => f (c.seen dryRun)) shctx worker acts := by
  simp only [Exchange.work, Exchange.onCtx, Function.update_self, Function.update_idem, h]

theorem filterZone_filtered [DecidableEq ζ] (site : Site ζ) (v : Visit) (zone : ζ) (a : ℕ)
    (out : HeadersOut) (r : Exchange ζ) :
    Filtered site v zone a out r (filterZone site v zone a out r).1 (filterZone site v zone a out r).2 := by
  have hseen : (r.onCtx a fun c => { c with
      responseSeen := true, dryRun := if c.fromAnchor then c.dryRun else r.loc.dryRun }) =
      r.onCtx a fun c => c.seen (effectiveDryRun c r.loc) := rfl
  rw [filterZone]
  simp only [hseen, Exchange.pool_onCtx_self]
  cases hown : (r.pool a).ownRejection with
  | true =>
      rw [if_pos (show ((r.pool a).seen _).ownRejection = true from hown)]
      have hdeadline : ∀ d, ((r.pool a).seen d).blockedUntil = (r.pool a).blockedUntil := fun _ => rfl
      simp only [hdeadline]
      cases hadd : addRejectHeaders v (r.pool a).blockedUntil out with
      | none => exact .own _ hown (by rw [hadd]; rfl)
      | some out' => exact .own _ hown (by rw [hadd]; rfl)
  | false =>
      have hown' : ∀ d, ((r.pool a).seen d).ownRejection = false := fun _ => hown
      rw [if_neg (by simp [hown'])]
      split_ifs with hstate hstatus hdry
      · exact .quiet hown
      · exact .quiet hown
      · have hdry' : effectiveDryRun (r.pool a) r.loc = true := hdry
        obtain ⟨count, deadline, hobserve⟩ := observe_effect site v zone a
          (show ((r.onCtx a fun c => c.seen (effectiveDryRun c r.loc)).pool a).ownRejection = false by
            simp [hown'])
        rw [hobserve, seen_work _ _ _ hdry', Exchange.pool_onCtx_self]
        exact .observed count deadline hown hdry'
      · have hdry' : effectiveDryRun (r.pool a) r.loc = false := by simpa [ReqCtx.seen] using hdry
        obtain ⟨count, deadline, events, block, shctx, worker, acts, hfor, hlog, hcases⟩ :=
          countEvent_cases site v zone a out
            (show ((r.onCtx a fun c => c.seen (effectiveDryRun c r.loc)).pool a).ownRejection = false by
              simp [hown'])
        simp only [Exchange.pool_onCtx_self] at hfor hlog
        rcases hcases with ⟨state, hcount⟩ | hcount
        · rw [hcount, seen_work _ _ _ hdry']
          exact .counted count deadline state events block shctx worker acts hown hdry' hfor hlog
        · rw [hcount, seen_work _ _ _ hdry']
          exact .full count deadline events block shctx worker acts hown hdry' hfor hlog

/-! ## Whole handlers -/

/-- What `preaccess` can do. -/
inductive Preaccessed (site : Site ζ) (v : Visit) (r : Exchange ζ) : Exchange ζ → PhaseRc → Prop
  | sub : v.main = false → Preaccessed site v r r .declined
  | none (r₁ : Exchange ζ) : v.main = true → prepareCtx site v r = (r₁, none) →
      Preaccessed site v r r₁
        (if r₁.loc.enabled ∧ r₁.loc.zone.isSome then .status 500 else .declined)
  | keyless (r₁ : Exchange ζ) (a : ℕ) : v.main = true → prepareCtx site v r = (r₁, some a) →
      (r₁.pool a).zone = none → Preaccessed site v r r₁ .declined
  | zoned (r₁ r' : Exchange ζ) (a : ℕ) (zone : ζ) (rc : PhaseRc) : v.main = true →
      prepareCtx site v r = (r₁, some a) → (r₁.pool a).zone = some zone →
      Checked site v zone a r₁ r' rc → Preaccessed site v r r' rc

theorem preaccess_preaccessed [DecidableEq ζ] (site : Site ζ) (v : Visit) (r : Exchange ζ) :
    Preaccessed site v r (preaccess site v r).1 (preaccess site v r).2 := by
  rw [preaccess]
  cases hmain : v.main with
  | false => exact .sub hmain
  | true =>
      simp only [Bool.not_true, Bool.false_eq_true, if_false]
      rcases hr₁ : prepareCtx site v r with ⟨r₁, found⟩
      cases found with
      | none => exact .none r₁ hmain hr₁
      | some a =>
          cases hzone : (r₁.pool a).zone with
          | none =>
              simp only [hzone]
              exact .keyless r₁ a hmain hr₁ hzone
          | some zone =>
              simp only [hzone]
              exact .zoned r₁ _ a zone _ hmain hr₁ hzone (checkZone_checked ..)

/-- What `headerFilter` can do. -/
inductive HeaderFiltered (site : Site ζ) (v : Visit) (out : HeadersOut) (r : Exchange ζ) :
    Exchange ζ → FilterRc → Prop
  | sub : v.main = false → HeaderFiltered site v out r r (.next out)
  | none (r₁ : Exchange ζ) : v.main = true → prepareCtx site v r = (r₁, none) →
      HeaderFiltered site v out r r₁ (.next out)
  | keyless (r₁ : Exchange ζ) (a : ℕ) : v.main = true → prepareCtx site v r = (r₁, some a) →
      (r₁.pool a).zone = none → HeaderFiltered site v out r r₁ (.next out)
  | again (r₁ : Exchange ζ) (a : ℕ) (zone : ζ) : v.main = true → prepareCtx site v r = (r₁, some a) →
      (r₁.pool a).zone = some zone → (r₁.pool a).responseSeen = true →
      HeaderFiltered site v out r r₁ (.next out)
  | zoned (r₁ r' : Exchange ζ) (a : ℕ) (zone : ζ) (rc : FilterRc) : v.main = true →
      prepareCtx site v r = (r₁, some a) → (r₁.pool a).zone = some zone →
      (r₁.pool a).responseSeen = false → Filtered site v zone a out r₁ r' rc →
      HeaderFiltered site v out r r' rc

theorem headerFilter_headerFiltered [DecidableEq ζ] (site : Site ζ) (v : Visit) (out : HeadersOut)
    (r : Exchange ζ) :
    HeaderFiltered site v out r (headerFilter site v out r).1 (headerFilter site v out r).2 := by
  rw [headerFilter]
  cases hmain : v.main with
  | false => exact .sub hmain
  | true =>
      simp only [Bool.not_true, Bool.false_eq_true, if_false]
      rcases hr₁ : prepareCtx site v r with ⟨r₁, found⟩
      cases found with
      | none => exact .none r₁ hmain hr₁
      | some a =>
          cases hzone : (r₁.pool a).zone with
          | none =>
              simp only [hzone]
              exact .keyless r₁ a hmain hr₁ hzone
          | some zone =>
              simp only [hzone]
              cases hseen : (r₁.pool a).responseSeen with
              | true => exact .again r₁ a zone hmain hr₁ hzone hseen
              | false => exact .zoned r₁ _ a zone _ hmain hr₁ hzone hseen (filterZone_filtered ..)

/-- What preparing the context and the check with it keep, a run of `preaccess` keeps. -/
theorem Preaccessed.keeps {P : Exchange ζ → Prop} {rc : PhaseRc} (h : Preaccessed site v r r' rc)
    (hsame : P r) (hprepared : ∀ r₁ found, Prepared site v r r₁ found → P r₁)
    (hchecked : ∀ r₁ a zone, Prepared site v r r₁ (some a) → (r₁.pool a).zone = some zone →
      Checked site v zone a r₁ r' rc → P r') : P r' := by
  cases h with
  | sub _ => exact hsame
  | none _ _ hp => exact hprepared _ _ (prepared_of_eq hp)
  | keyless _ _ _ hp _ => exact hprepared _ _ (prepared_of_eq hp)
  | zoned r₁ _ a zone _ _ hp hzone hc => exact hchecked r₁ a zone (prepared_of_eq hp) hzone hc

/-- The same for a run of the header filter. -/
theorem HeaderFiltered.keeps {P : Exchange ζ → Prop} {out : HeadersOut} {rc : FilterRc}
    (h : HeaderFiltered site v out r r' rc) (hsame : P r)
    (hprepared : ∀ r₁ found, Prepared site v r r₁ found → P r₁)
    (hfiltered : ∀ r₁ a zone, Prepared site v r r₁ (some a) → (r₁.pool a).zone = some zone →
      (r₁.pool a).responseSeen = false → Filtered site v zone a out r₁ r' rc → P r') : P r' := by
  cases h with
  | sub _ => exact hsame
  | none _ _ hp => exact hprepared _ _ (prepared_of_eq hp)
  | keyless _ _ _ hp _ => exact hprepared _ _ (prepared_of_eq hp)
  | again _ _ _ _ hp _ _ => exact hprepared _ _ (prepared_of_eq hp)
  | zoned r₁ _ a zone _ _ hp hzone hseen hf =>
      exact hfiltered r₁ a zone (prepared_of_eq hp) hzone hseen hf

/-- A context with Redis's answer. -/
def ReqCtx.answered (c : ReqCtx ζ) (count : ℕ) (deadline : ℤ) (banned : Bool) : ReqCtx ζ :=
  { c with
    count := count, blockedUntil := deadline
    redisPending := false, redisChecked := true, redisBlocked := banned }

/-- Only a string bans. -/
theorem ReqCtx.replied_eq (site : Site ζ) (now : ℤ) (reply : Option Reply) (c : ReqCtx ζ) :
    ∃ count deadline banned, c.replied site now reply = c.answered count deadline banned ∧
      (banned = true → ∃ str, reply = some (.string str)) := by
  unfold ReqCtx.replied
  dsimp only
  split
  · split
    · exact ⟨_, _, false, rfl, (nomatch ·)⟩
    · exact ⟨_, _, true, rfl, fun _ => ⟨_, rfl⟩⟩
  · exact ⟨_, _, false, rfl, (nomatch ·)⟩

/-- What a reply can do. -/
inductive Replied (site : Site ζ) (now : ℤ) (reply : Option Reply) (r : Exchange ζ) :
    Exchange ζ → Prop
  | unasked : r.waiting = 0 → Replied site now reply r r
  | lost : 0 < r.waiting → r.ctx = none → Replied site now reply r
      { r with count := r.count - 1, waiting := r.waiting - 1 }
  | answered (a count : ℕ) (deadline : ℤ) (banned : Bool) : 0 < r.waiting → r.ctx = some a →
      (banned = true → ∃ str, reply = some (.string str)) → Replied site now reply r
        { r.onCtx a (fun c => c.answered count deadline banned) with
          worker := r.worker.replied site.redis now reply
          count := r.count - 1
          waiting := r.waiting - 1 }

theorem turnStep_replied [DecidableEq ζ] (site : Site ζ) (now : ℤ) (reply : Option Reply)
    (r : Exchange ζ) : Replied site now reply r (turnStep site r (.reply now reply)) := by
  rw [turnStep]
  split_ifs with hwait
  · exact .unasked hwait
  · have hpos : 0 < r.waiting := Nat.pos_of_ne_zero hwait
    cases hctx : r.ctx with
    | none =>
        have hstep : r.redisCheckCallback site now reply =
            { r with count := r.count - 1, waiting := r.waiting - 1 } := by
          rw [Exchange.redisCheckCallback, hctx]
        rw [hstep]
        exact .lost hpos hctx
    | some a =>
        obtain ⟨count, deadline, banned, heq, hstring⟩ := (r.pool a).replied_eq site now reply
        have hstep : r.redisCheckCallback site now reply =
            { r.onCtx a (fun c => c.answered count deadline banned) with
              worker := r.worker.replied site.redis now reply
              count := r.count - 1
              waiting := r.waiting - 1 } := by
          rw [Exchange.redisCheckCallback, hctx, ← Exchange.onCtx_congr heq]
          rfl
        rw [hstep]
        exact .answered a count deadline banned hpos hctx hstring

theorem within_answered (a count : ℕ) (deadline : ℤ) (banned : Bool) (worker : Worker)
    (count' waiting : ℕ) :
    Within a r { r.onCtx a (fun c => c.answered count deadline banned) with
      worker := worker, count := count', waiting := waiting } := by
  have hw := within_work (a := a) (r := r) (f := fun c => c.answered count deadline banned)
    r.shctx worker r.acts (fun _ => rfl) (fun _ => rfl) fun _ => rfl
  exact ⟨hw.loc, hw.ctx, hw.cleanup, hw.next, hw.other, hw.zone, hw.key, hw.fromAnchor⟩

theorem Replied.acts_eq {now : ℤ} {reply : Option Reply} (h : Replied site now reply r r') :
    r'.acts = r.acts := by
  cases h <;> rfl

/-! ## The log -/

/-- The log has grown by acts with the property `P`, if at all. -/
def Logs (P : Act ζ → Prop) (r r' : Exchange ζ) : Prop :=
  ∃ new, r'.acts = new ++ r.acts ∧ ∀ act ∈ new, P act

namespace Logs

variable {P : Act ζ → Prop}

theorem of_eq (h : r'.acts = r.acts) : Logs P r r' := ⟨[], h, by simp⟩

theorem of_cons {act : Act ζ} (h : r'.acts = act :: r.acts) (hact : P act) : Logs P r r' :=
  ⟨[act], h, List.forall_mem_singleton.mpr hact⟩

theorem cons {act : Act ζ} {acts : List (Act ζ)} (h : ∃ new, acts = new ++ r.acts ∧ ∀ act ∈ new, P act)
    (hact : P act) (hacts : r'.acts = act :: acts) : Logs P r r' := by
  obtain ⟨new, rfl, hnew⟩ := h
  exact ⟨act :: new, hacts, List.forall_mem_cons.mpr ⟨hact, hnew⟩⟩

theorem trans {r₁ r₂ r₃ : Exchange ζ} (h : Logs P r₁ r₂) (h' : Logs P r₂ r₃) : Logs P r₁ r₃ := by
  obtain ⟨new, hacts, hnew⟩ := h
  obtain ⟨new', hacts', hnew'⟩ := h'
  refine ⟨new' ++ new, by rw [hacts', hacts, List.append_assoc], ?_⟩
  exact List.forall_mem_append.mpr ⟨hnew', hnew⟩

/-- Acts that are not counted. -/
theorem countP_eq {p : Act ζ → Bool} (h : Logs (fun act => p act = false) r r') :
    r'.acts.countP p = r.acts.countP p := by
  obtain ⟨new, hacts, hnew⟩ := h
  have hnone : new.countP p = 0 := by
    apply List.countP_eq_zero.mpr
    intro act hact
    simp [hnew act hact]
  rw [hacts, List.countP_append, hnone, zero_add]

end Logs

section logs

variable {P : Act ζ → Prop}

theorem Prepared.logs {found : Option ℕ} (h : Prepared site v r r' found)
    (hbuilt : ∀ b key, P (.built b key)) : Logs P r r' := by
  cases h with
  | built => exact .of_cons rfl (hbuilt _ _)
  | _ => exact .of_eq rfl

theorem Asked.logs {b : Bool} (h : Asked site zone a r r' b) (hget : ∀ block, P (.get block)) :
    Logs P r r' := by
  cases h with
  | queued => exact .of_cons rfl (hget _)
  | _ => exact .of_eq rfl

theorem checked_logs (v : Visit) (zone : ζ) (a : ℕ) (r : Exchange ζ)
    (hblocked : P (.isBlocked zone (r.pool a).key v.now)) :
    ∃ new, checked v zone a r = new ++ r.acts ∧ ∀ act ∈ new, P act := by
  rw [checked]
  split_ifs
  · exact ⟨[], rfl, by simp⟩
  · exact ⟨[.isBlocked zone (r.pool a).key v.now], rfl, List.forall_mem_singleton.mpr hblocked⟩

theorem Ruled.logs {rc : PhaseRc} (h : Ruled site v zone a r r' rc)
    (hblocked : P (.isBlocked zone (r.pool a).key v.now)) (hreject : ∀ status, P (.reject status)) :
    Logs P r r' := by
  have hchecked := checked_logs v zone a r hblocked
  cases h with
  | rejected => exact .cons hchecked (hreject _) rfl
  | _ => exact hchecked

theorem Checked.logs {rc : PhaseRc} (h : Checked site v zone a r r' rc)
    (hget : ∀ block, P (.get block)) (hblocked : ∀ key, P (.isBlocked zone key v.now))
    (hreject : ∀ status, P (.reject status)) : Logs P r r' := by
  cases h with
  | parked _ _ _ hasked => exact hasked.logs hget
  | refused _ _ _ _ _ hasked hruled =>
      exact (hasked.logs hget).trans (hruled.logs (hblocked _) hreject)
  | settled _ _ _ hruled => exact hruled.logs (hblocked _) hreject

theorem Filtered.logs {out : HeadersOut} {rc : FilterRc} (h : Filtered site v zone a out r r' rc)
    (hpeek : ∀ key, P (.peek zone key v.now)) (hrecord : ∀ key, P (.record zone key v.now))
    (hredis : ∀ key, P (.redisRecord zone key v.now)) (hevalsha : ∀ args, P (.evalsha args))
    (hreject : ∀ status, P (.reject status)) : Logs P r r' := by
  have hlogged : ∀ {key : Key} {events block : List UInt8} {acts : List (Act ζ)},
      RedisLogged site v zone key events block (.record zone key v.now :: r.acts) acts →
      ∃ new, acts = new ++ r.acts ∧ ∀ act ∈ new, P act := by
    intro key events block acts hlog
    cases hlog with
    | off => exact ⟨[_], rfl, by simp [hrecord]⟩
    | skipped => exact ⟨[_, _], rfl, by simp [hrecord, hredis]⟩
    | sent => exact ⟨[_, _, _], rfl, by simp [hrecord, hredis, hevalsha]⟩
  cases h with
  | own => exact .of_eq rfl
  | quiet => exact .of_eq rfl
  | observed => exact .of_cons rfl (hpeek _)
  | counted _ _ _ _ _ _ _ _ _ _ _ hlog => exact hlogged hlog
  | full _ _ _ _ _ _ _ _ _ _ hlog => exact .cons (hlogged hlog) (hreject _) rfl

end logs

/-! ## The anchor -/

/-- A context with a zone is the one in the cleanup list; `r->ctx` points to no other. -/
structure Anchored (r : Exchange ζ) : Prop where
  zoned : ∀ a, (r.pool a).zone.isSome → findAnchorCtx r.cleanup = some a
  attached : ∀ a b, r.ctx = some a → findAnchorCtx r.cleanup = some b → a = b
  lt_next : ∀ a, r.ctx = some a ∨ findAnchorCtx r.cleanup = some a → a < r.next
  unused : ∀ a ≥ r.next, r.pool a = .zeroed

namespace Anchored

theorem start (loc : LocConf ζ) (shctx : ζ → Shctx) (worker : Worker) :
    Anchored (Exchange.start loc shctx worker) where
  zoned _ h := nomatch h
  attached _ _ h := nomatch h
  lt_next _ h := by simp [Exchange.start, findAnchorCtx] at h
  unused _ _ := rfl

/-- At most one context has a zone. -/
theorem unique (h : Anchored r) {b : ℕ} (ha : (r.pool a).zone.isSome) (hb : (r.pool b).zone.isSome) :
    a = b := Option.some.inj ((h.zoned a ha).symm.trans (h.zoned b hb))

theorem within (h : Anchored r) (hw : Within a r r') (ha : a < r.next) : Anchored r' where
  zoned b hb := by
    rw [hw.cleanup]
    by_cases hba : b = a
    · subst hba
      exact h.zoned b (hw.zone ▸ hb)
    · exact h.zoned b (hw.other b hba ▸ hb)
  attached b c hb hc := h.attached b c (hw.ctx ▸ hb) (hw.cleanup ▸ hc)
  lt_next b hb := by
    rw [hw.ctx, hw.cleanup] at hb
    exact hw.next ▸ h.lt_next b hb
  unused b hb := by
    rw [hw.next] at hb
    rw [hw.other b (by omega)]
    exact h.unused b hb

theorem prepared (h : Anchored r) {found : Option ℕ} (hp : Prepared site v r r' found) :
    Anchored r' ∧ ∀ a, found = some a → a < r'.next := by
  cases hp with
  | attached a ha => exact ⟨h, fun b hb => Option.some.inj hb ▸ h.lt_next a (.inl ha)⟩
  | restored a hnone ha =>
      have hlt : a < r.next := h.lt_next a (.inr ha)
      refine ⟨⟨fun b hb => ?_, fun b c hb hc => ?_, fun b hb => ?_, fun b hb => ?_⟩, fun b hb => ?_⟩
      · by_cases hba : b = a
        · exact hba ▸ ha
        · rw [Exchange.pool_restore_of_ne hba] at hb
          exact h.zoned b hb
      · exact (Option.some.inj hb).symm.trans (Option.some.inj (ha.symm.trans hc))
      · rcases hb with hb | hb
        · exact Option.some.inj hb ▸ hlt
        · exact h.lt_next b (.inr hb)
      · rw [Exchange.pool_restore_of_ne (lt_of_lt_of_le hlt hb).ne']
        exact h.unused b hb
      · exact Option.some.inj hb ▸ hlt
  | none _ _ _ => exact ⟨h, fun b hb => nomatch hb⟩
  | built zone key result c cleanup hnone hfind hzone hen hkey hbuilt =>
      have hnew : (c.zone.isSome → findAnchorCtx cleanup = some r.next) ∧
          (∀ b, findAnchorCtx cleanup = some b → b = r.next) ∧ ∀ b, found = some b → b = r.next := by
        have hanchor : findAnchorCtx (.anchor anchorMagic r.next :: r.cleanup) = some r.next := rfl
        cases hbuilt with
        | unanchored _ => exact ⟨(nomatch ·), fun b hb => (nomatch hfind.symm.trans hb),
            fun _ hb => (nomatch hb)⟩
        | failed _ _ _ => exact ⟨fun _ => hanchor,
            fun b hb => Option.some.inj (hb.symm.trans hanchor), fun _ hb => (nomatch hb)⟩
        | _ => exact ⟨fun _ => hanchor, fun b hb => Option.some.inj (hb.symm.trans hanchor),
            fun b hb => (Option.some.inj hb).symm⟩
      obtain ⟨hzoned, hanchor, hresult⟩ := hnew
      refine ⟨⟨fun b hb => ?_, fun b d hb hd => ?_, fun b hb => ?_, fun b hb => ?_⟩, fun b hb => ?_⟩
      · by_cases hbn : b = r.next
        · subst hbn
          exact hzoned (by simpa using hb)
        · have hold : (r.pool b).zone.isSome := by simpa [Function.update_of_ne hbn] using hb
          exact nomatch hfind.symm.trans (h.zoned b hold)
      · exact (Option.some.inj hb).symm.trans (hanchor d hd).symm
      · rcases hb with hb | hb
        · exact Option.some.inj hb ▸ Nat.lt_succ_self _
        · exact hanchor b hb ▸ Nat.lt_succ_self _
      · have hlt : r.next < b := hb
        exact (Function.update_of_ne hlt.ne' ..).trans (h.unused b hlt.le)
      · exact hresult b hb ▸ Nat.lt_succ_self _

theorem preaccessed (h : Anchored r) {rc : PhaseRc} (hp : Preaccessed site v r r' rc) :
    Anchored r' := by
  refine hp.keeps h (fun r₁ found hprepared => (h.prepared hprepared).1) ?_
  intro r₁ a zone hprepared _ hc
  obtain ⟨h₁, hlt⟩ := h.prepared hprepared
  exact h₁.within hc.within (hlt a rfl)

theorem headerFiltered (h : Anchored r) {out : HeadersOut} {rc : FilterRc}
    (hp : HeaderFiltered site v out r r' rc) : Anchored r' := by
  refine hp.keeps h (fun r₁ found hprepared => (h.prepared hprepared).1) ?_
  intro r₁ a zone hprepared _ _ hf
  obtain ⟨h₁, hlt⟩ := h.prepared hprepared
  exact h₁.within hf.within (hlt a rfl)

theorem replied (h : Anchored r) {now : ℤ} {reply : Option Reply}
    (hr : Replied site now reply r r') : Anchored r' := by
  cases hr with
  | unasked _ => exact h
  | lost _ _ => exact ⟨h.zoned, h.attached, h.lt_next, h.unused⟩
  | answered a _ _ _ _ hctx _ => exact h.within (within_answered ..) (h.lt_next a (.inl hctx))

theorem turnStep [DecidableEq ζ] (h : Anchored r) (turn : Turn ζ) :
    Anchored (turnStep site r turn) := by
  cases turn with
  | preaccess v => exact h.preaccessed (preaccess_preaccessed site v r)
  | headerFilter v out => exact h.headerFiltered (headerFilter_headerFiltered site v out r)
  | clear =>
      refine ⟨h.zoned, fun _ _ hb => (nomatch hb), fun b hb => h.lt_next b (.inr ?_), h.unused⟩
      exact hb.resolve_left fun hb => (nomatch hb)
  | relocate loc => exact ⟨h.zoned, h.attached, h.lt_next, h.unused⟩
  | cleanupAdd => exact ⟨h.zoned, h.attached, h.lt_next, h.unused⟩
  | reply now reply => exact h.replied (turnStep_replied site now reply r)
  | others shctx worker => exact ⟨h.zoned, h.attached, h.lt_next, h.unused⟩

theorem run [DecidableEq ζ] (site : Site ζ) (loc : LocConf ζ) (shctx : ζ → Shctx) (worker : Worker)
    (turns : List (Turn ζ)) :
    Anchored (run (ErrorAbuse.turnStep site) (.start loc shctx worker) turns) :=
  run_invariant Anchored (fun _ => True) (fun _ turn h _ => h.turnStep turn) (start loc shctx worker)
    fun _ _ => trivial

end Anchored

end ErrorAbuse
