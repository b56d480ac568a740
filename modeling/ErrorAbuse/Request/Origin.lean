import ErrorAbuse.Request.Once

/-!
# Origin wins

The context that first gets a zone serves the request to its end: every handler finds it,
whatever location the request has come to, and everything it asks of a zone or of Redis it
asks of that zone and about that identity. Dry-run is that of the first location, provided
that nginx moves the request only once it has zeroed `r->ctx`.
-/

namespace ErrorAbuse

open Lib

variable {ζ : Type} {site : Site ζ} {v : Visit} {zone : ζ} {key : Key} {dry gone : Bool}
  {r r' : Exchange ζ} {a : ℕ}

/-- The act, if it names an identity, names this one. -/
def Act.About (site : Site ζ) (zone : ζ) (key : Key) : Act ζ → Prop
  | isBlocked z k _ | peek z k _ | record z k _ | redisRecord z k _ => z = zone ∧ k = key
  | get block => block = (buildRedisKeys site.redis (site.zones zone) key).block
  | evalsha args => (⟨args.events, args.block⟩ : RedisKeys) =
      buildRedisKeys site.redis (site.zones zone) key
  | built .. | reject _ => True

def Cleanup.isAnchor : Cleanup → Bool
  | anchor magic _ => magic = anchorMagic
  | other => false

theorem countP_isAnchor_eq_zero {cleanup : List Cleanup} (h : findAnchorCtx cleanup = none) :
    cleanup.countP Cleanup.isAnchor = 0 := by
  induction cleanup with
  | nil => rfl
  | cons c cleanup ih =>
      cases c with
      | other => exact ih h
      | anchor magic ctx =>
          rw [findAnchorCtx] at h
          split_ifs at h with hmagic
          rw [List.countP_cons_of_neg (by simpa [Cleanup.isAnchor] using hmagic)]
          exact ih h

/-- The context `a` is the request's, with this identity; `gone` says that `r->ctx` has been
zeroed since it was built. -/
structure Origin (site : Site ζ) (zone : ζ) (key : Key) (dry gone : Bool) (a : ℕ)
    (r : Exchange ζ) : Prop where
  anchored : Anchored r
  zone_eq : (r.pool a).zone = some zone
  key_eq : (r.pool a).key = key
  keys : (r.pool a).redisBlock = [] ∨
    (⟨(r.pool a).redisEvents, (r.pool a).redisBlock⟩ : RedisKeys) =
      buildRedisKeys site.redis (site.zones zone) key
  acts : ∀ act ∈ r.acts, act.About site zone key
  anchors : r.cleanup.countP Cleanup.isAnchor = 1
  dryRun_eq : (r.pool a).dryRun = dry
  bound : (r.pool a).fromAnchor = true ∨ r.ctx = none ∨ gone = false ∧ r.loc.dryRun = dry

namespace Origin

theorem found (h : Origin site zone key dry gone a r) : findAnchorCtx r.cleanup = some a :=
  h.anchored.zoned a (by rw [h.zone_eq]; rfl)

/-- Every handler finds the context. -/
theorem prepared (h : Origin site zone key dry gone a r) {found : Option ℕ}
    (hp : Prepared site v r r' found) :
    found = some a ∧ r'.ctx = some a ∧ Origin site zone key dry gone a r' := by
  have hanchored := (h.anchored.prepared hp).1
  have hfind := h.found
  cases hp with
  | attached b hb =>
      obtain rfl := h.anchored.attached b a hb hfind
      exact ⟨rfl, hb, h⟩
  | restored b _ hb =>
      obtain rfl := Option.some.inj (hfind.symm.trans hb)
      refine ⟨rfl, rfl, hanchored, ?_, ?_, ?_, h.acts, h.anchors, ?_, .inl ?_⟩ <;>
        rw [Exchange.pool_restore_self]
      · exact h.zone_eq
      · exact h.key_eq
      · exact h.keys
      · exact h.dryRun_eq
  | none _ hnone _ => cases hfind.symm.trans hnone
  | built _ _ _ _ _ _ hnone _ _ _ _ => cases hfind.symm.trans hnone

theorem effectiveDryRun_eq (h : Origin site zone key dry gone a r) (hctx : r.ctx = some a) :
    effectiveDryRun (r.pool a) r.loc = dry := by
  rw [effectiveDryRun]
  split_ifs with hfrom
  · exact h.dryRun_eq
  · rcases h.bound with hb | hb | hb
    · exact absurd hb hfrom
    · cases hctx.symm.trans hb
    · exact hb.2

theorem dryRunInEffect_eq (h : Origin site zone key dry gone a r) : dryRunInEffect site v r = dry := by
  rcases hp : prepareCtx site v r with ⟨r₁, found⟩
  obtain ⟨rfl, hctx, h₁⟩ := h.prepared (prepared_of_eq hp)
  rw [dryRunInEffect, hp]
  exact h₁.effectiveDryRun_eq hctx

/-- Keys that a handler uses are those of the identity. -/
theorem keysFor (h : Origin site zone key dry gone a r) {events block : List UInt8}
    (hfor : KeysFor site zone (r.pool a) events block) (hne : block ≠ []) :
    (⟨events, block⟩ : RedisKeys) = buildRedisKeys site.redis (site.zones zone) key := by
  rcases hfor with ⟨rfl, rfl⟩ | hbuilt
  · exact h.keys.resolve_left hne
  · rw [hbuilt, h.key_eq]

theorem keysFor_or (h : Origin site zone key dry gone a r) {events block : List UInt8}
    (hfor : KeysFor site zone (r.pool a) events block) : block = [] ∨
      (⟨events, block⟩ : RedisKeys) = buildRedisKeys site.redis (site.zones zone) key := by
  by_cases hne : block = []
  · exact .inl hne
  · exact .inr (h.keysFor hfor hne)

/-- Work on the context. -/
theorem within (h : Origin site zone key dry gone a r) (hw : Within a r r') (hlt : a < r.next)
    (new : List (Act ζ)) (hacts : r'.acts = new ++ r.acts)
    (hnew : ∀ act ∈ new, act.About site zone key)
    (hkeys : (r'.pool a).redisBlock = [] ∨
      (⟨(r'.pool a).redisEvents, (r'.pool a).redisBlock⟩ : RedisKeys) =
        buildRedisKeys site.redis (site.zones zone) key)
    (hdry : (r'.pool a).dryRun = dry) : Origin site zone key dry gone a r' where
  anchored := h.anchored.within hw hlt
  zone_eq := hw.zone.trans h.zone_eq
  key_eq := hw.key.trans h.key_eq
  keys := hkeys
  acts := hacts ▸ List.forall_mem_append.mpr ⟨hnew, h.acts⟩
  anchors := hw.cleanup ▸ h.anchors
  dryRun_eq := hdry
  bound := by
    rw [hw.fromAnchor, hw.ctx, hw.loc]
    exact h.bound

theorem lt_next (h : Origin site zone key dry gone a r) : a < r.next := h.anchored.lt_next a (.inr h.found)

theorem asked (h : Origin site zone key dry gone a r) {b : Bool} (hasked : Asked site zone a r r' b) :
    Origin site zone key dry gone a r' := by
  have hw := hasked.within
  cases hasked with
  | pending _ => exact h
  | skipped events block worker _ hfor =>
      refine h.within hw h.lt_next [] rfl (by simp) ?_ ?_ <;> simp only [Exchange.pool_onCtx_self]
      · exact h.keysFor_or hfor
      · exact h.dryRun_eq
  | queued events block _ hne hfor =>
      have habout : (Act.get block).About site zone key :=
        congrArg RedisKeys.block (h.keysFor hfor hne)
      refine h.within hw h.lt_next [.get block] rfl (List.forall_mem_singleton.mpr habout) ?_ ?_ <;>
        simp only [Exchange.pool_onCtx_self]
      · exact h.keysFor_or hfor
      · exact h.dryRun_eq

theorem ruled (h : Origin site zone key dry gone a r) {rc : PhaseRc} (hruled : Ruled site v zone a r r' rc) :
    Origin site zone key dry gone a r' := by
  have hw := hruled.within
  obtain ⟨new, hacts, hnew⟩ : ∃ new, ErrorAbuse.checked v zone a r = new ++ r.acts ∧
      ∀ act ∈ new, act.About site zone key := checked_logs v zone a r ⟨rfl, h.key_eq⟩
  cases hruled with
  | rejected count deadline shctx _ _ =>
      refine h.within hw h.lt_next (.reject r.loc.rejectStatus :: new) (congrArg (_ :: ·) hacts)
        (List.forall_mem_cons.mpr ⟨trivial, hnew⟩) ?_ ?_ <;> simp only [Exchange.pool_work_self]
      · exact h.keys
      · exact h.dryRun_eq
  | _ =>
      refine h.within hw h.lt_next new hacts hnew ?_ ?_ <;> simp only [Exchange.pool_work_self]
      · exact h.keys
      · exact h.dryRun_eq

theorem checked (h : Origin site zone key dry gone a r) {rc : PhaseRc}
    (hc : Checked site v zone a r r' rc) : Origin site zone key dry gone a r' := by
  cases hc with
  | parked _ _ _ hasked => exact h.asked hasked
  | refused _ _ _ _ _ hasked hruled => exact (h.asked hasked).ruled hruled
  | settled _ _ _ hruled => exact h.ruled hruled

/-- The calls that counting an event logs. -/
theorem logged (h : Origin site zone key dry gone a r) {events block : List UInt8} {acts : List (Act ζ)}
    (hfor : KeysFor site zone (r.pool a) events block)
    (hlog : RedisLogged site v zone (r.pool a).key events block
      (.record zone (r.pool a).key v.now :: r.acts) acts) :
    ∃ new, acts = new ++ r.acts ∧ ∀ act ∈ new, act.About site zone key := by
  have hrecord : (Act.record zone (r.pool a).key v.now).About site zone key := ⟨rfl, h.key_eq⟩
  have hredis : (Act.redisRecord zone (r.pool a).key v.now).About site zone key := ⟨rfl, h.key_eq⟩
  cases hlog with
  | off => exact ⟨[_], rfl, List.forall_mem_singleton.mpr hrecord⟩
  | skipped =>
      exact ⟨[_, _], rfl, List.forall_mem_cons.mpr ⟨hredis, List.forall_mem_singleton.mpr hrecord⟩⟩
  | sent worker hne =>
      refine ⟨[_, _, _], rfl, List.forall_mem_cons.mpr ⟨h.keysFor hfor hne, ?_⟩⟩
      exact List.forall_mem_cons.mpr ⟨hredis, List.forall_mem_singleton.mpr hrecord⟩

theorem filtered (h : Origin site zone key dry gone a r) (hctx : r.ctx = some a) {out : HeadersOut}
    {rc : FilterRc} (hf : Filtered site v zone a out r r' rc) : Origin site zone key dry gone a r' := by
  have hw := hf.within
  have heff := h.effectiveDryRun_eq hctx
  cases hf with
  | own _ _ _ =>
      refine h.within hw h.lt_next [] rfl (by simp) ?_ ?_ <;> simp only [Exchange.pool_onCtx_self]
      · exact h.keys
      · exact heff
  | quiet _ =>
      refine h.within hw h.lt_next [] rfl (by simp) ?_ ?_ <;> simp only [Exchange.pool_onCtx_self]
      · exact h.keys
      · exact heff
  | observed _ _ _ hdry =>
      refine h.within hw h.lt_next [.peek zone (r.pool a).key v.now] rfl
        (List.forall_mem_singleton.mpr ⟨rfl, h.key_eq⟩) ?_ ?_ <;>
        simp only [Exchange.pool_work_self]
      · exact h.keys
      · exact hdry.symm.trans heff
  | counted _ _ _ _ _ _ _ _ _ hdry hfor hlog =>
      obtain ⟨new, hacts, hnew⟩ := h.logged hfor hlog
      refine h.within hw h.lt_next new hacts hnew ?_ ?_ <;> simp only [Exchange.pool_work_self]
      · exact h.keysFor_or hfor
      · exact hdry.symm.trans heff
  | full _ _ _ _ _ _ _ _ hdry hfor hlog =>
      obtain ⟨new, hacts, hnew⟩ := h.logged hfor hlog
      refine h.within hw h.lt_next (.reject r.loc.rejectStatus :: new) (congrArg (_ :: ·) hacts)
        (List.forall_mem_cons.mpr ⟨trivial, hnew⟩) ?_ ?_ <;> simp only [Exchange.pool_work_self]
      · exact h.keysFor_or hfor
      · exact hdry.symm.trans heff

theorem preaccessed (h : Origin site zone key dry gone a r) {rc : PhaseRc}
    (hp : Preaccessed site v r r' rc) : Origin site zone key dry gone a r' := by
  refine hp.keeps h (fun r₁ found hprepared => (h.prepared hprepared).2.2) ?_
  intro r₁ b z hprepared hzone hc
  obtain ⟨hb, -, h₁⟩ := h.prepared hprepared
  obtain rfl := Option.some.inj hb
  obtain rfl := Option.some.inj (hzone.symm.trans h₁.zone_eq)
  exact h₁.checked hc

theorem headerFiltered (h : Origin site zone key dry gone a r) {out : HeadersOut} {rc : FilterRc}
    (hp : HeaderFiltered site v out r r' rc) : Origin site zone key dry gone a r' := by
  refine hp.keeps h (fun r₁ found hprepared => (h.prepared hprepared).2.2) ?_
  intro r₁ b z hprepared hzone _ hf
  obtain ⟨hb, hctx, h₁⟩ := h.prepared hprepared
  obtain rfl := Option.some.inj hb
  obtain rfl := Option.some.inj (hzone.symm.trans h₁.zone_eq)
  exact h₁.filtered hctx hf

theorem replied (h : Origin site zone key dry gone a r) {now : ℤ} {reply : Option Reply}
    (hr : Replied site now reply r r') : Origin site zone key dry gone a r' := by
  have hanchored := h.anchored.replied hr
  cases hr with
  | unasked _ => exact h
  | lost _ _ => exact { h with anchored := hanchored }
  | answered b _ _ _ _ hctx _ =>
      obtain rfl := h.anchored.attached b a hctx h.found
      refine h.within (within_answered ..) h.lt_next [] rfl (by simp) ?_ ?_ <;>
        simp only [Exchange.pool_onCtx_self, ReqCtx.answered]
      · exact h.keys
      · exact h.dryRun_eq

theorem clear (h : Origin site zone key dry gone a r) :
    Origin site zone key dry true a { r with ctx := none } :=
  { h with
    anchored := ⟨h.anchored.zoned, fun _ _ hb => (nomatch hb),
      fun b hb => h.anchored.lt_next b (.inr (hb.resolve_left fun hb => (nomatch hb))), h.anchored.unused⟩
    bound := .inr (.inl rfl) }

/-- Every turn keeps the origin, but the request only moves once `r->ctx` has been zeroed. -/
theorem turnStep [DecidableEq ζ] (h : Origin site zone key dry gone a r) {turn : Turn ζ}
    (hmove : ∀ loc, turn = .relocate loc → gone = true) :
    Origin site zone key dry gone a (turnStep site r turn) := by
  have hanchored : Anchored (ErrorAbuse.turnStep site r turn) := h.anchored.turnStep turn
  cases turn with
  | preaccess v => exact h.preaccessed (preaccess_preaccessed site v r)
  | headerFilter v out => exact h.headerFiltered (headerFilter_headerFiltered site v out r)
  | clear => exact { h with anchored := hanchored, bound := .inr (.inl rfl) }
  | relocate loc =>
      refine { h with anchored := hanchored, bound := h.bound.imp_right fun hb => hb.imp_right ?_ }
      intro hgone
      cases (hmove loc rfl).symm.trans hgone.1
  | cleanupAdd =>
      refine { h with anchored := hanchored, anchors := ?_ }
      exact (List.countP_cons_of_neg Bool.false_ne_true).trans h.anchors
  | reply now reply => exact h.replied (turnStep_replied site now reply r)
  | others shctx worker => exact { h with anchored := hanchored }

end Origin

/-! ## Whole runs -/

/-- nginx moves the request only once it has zeroed `r->ctx`. -/
def MovesOnRedirect : List (Turn ζ) → Prop
  | .clear :: _ => True
  | .relocate _ :: _ => False
  | _ :: turns => MovesOnRedirect turns
  | [] => True

theorem Origin.after_gone [DecidableEq ζ] {turns : List (Turn ζ)}
    (h : Origin site zone key dry true a r) :
    Origin site zone key dry true a (run (ErrorAbuse.turnStep site) r turns) :=
  run_invariant (Origin site zone key dry true a) (fun _ => True)
    (fun _ _ h _ => h.turnStep fun _ _ => rfl) h fun _ _ => trivial

theorem Origin.after [DecidableEq ζ] {turns : List (Turn ζ)} (h : Origin site zone key dry false a r)
    (hmoves : MovesOnRedirect turns) :
    ∃ gone, Origin site zone key dry gone a (run (ErrorAbuse.turnStep site) r turns) := by
  induction turns generalizing r with
  | nil => exact ⟨false, h⟩
  | cons turn turns ih =>
      cases turn with
      | clear => exact ⟨true, h.clear.after_gone⟩
      | relocate loc => exact hmoves.elim
      | _ => exact ih (h.turnStep fun _ ht => by cases ht) hmoves

/-! ## The beginning -/

/-- There is a context with a zone, or nothing was asked yet. -/
def Begun (r : Exchange ζ) : Prop :=
  (∃ b, (r.pool b).zone.isSome) ∨ ∀ act ∈ r.acts, ∃ ctx key, act = .built ctx key

theorem begun_within (hw : Within a r r') (hzone : (r.pool a).zone = some zone) : Begun r' :=
  .inl ⟨a, by rw [hw.zone, hzone]; rfl⟩

theorem begun_prepared (h : Begun r) (hanchored : Anchored r) {found : Option ℕ}
    (hp : Prepared site v r r' found) : Begun r' := by
  cases hp with
  | attached _ _ => exact h
  | restored a _ _ =>
      refine h.imp (fun hb => ?_) id
      obtain ⟨b, hb⟩ := hb
      refine ⟨b, ?_⟩
      by_cases hba : b = a
      · subst hba
        rw [Exchange.pool_restore_self]
        exact hb
      · rw [Exchange.pool_restore_of_ne hba]
        exact hb
  | none _ _ _ => exact h
  | built z k _ c cleanup _ hfind _ _ _ _ =>
      refine h.imp (fun hb => ?_) fun hacts => List.forall_mem_cons.mpr ⟨⟨_, _, rfl⟩, hacts⟩
      obtain ⟨b, hb⟩ := hb
      cases hfind.symm.trans (hanchored.zoned b hb)

theorem begun_turnStep [DecidableEq ζ] (h : Begun r) (hanchored : Anchored r) (turn : Turn ζ) :
    Begun (turnStep site r turn) := by
  cases turn with
  | preaccess v =>
      refine (preaccess_preaccessed site v r).keeps h ?_ ?_
      · exact fun r₁ found hprepared => begun_prepared h hanchored hprepared
      · exact fun r₁ a zone _ hzone hc => begun_within hc.within hzone
  | headerFilter v out =>
      refine (headerFilter_headerFiltered site v out r).keeps h ?_ ?_
      · exact fun r₁ found hprepared => begun_prepared h hanchored hprepared
      · exact fun r₁ a zone _ hzone _ hf => begun_within hf.within hzone
  | reply now reply =>
      have hr := turnStep_replied site now reply r
      generalize turnStep site r (.reply now reply) = r' at hr ⊢
      cases hr with
      | answered a count deadline banned _ _ _ =>
          refine h.imp (fun hb => ?_) id
          obtain ⟨b, hb⟩ := hb
          refine ⟨b, ?_⟩
          by_cases hba : b = a
          · subst hba
            simpa [ReqCtx.answered] using hb
          · rw [(within_answered a count deadline banned _ _ _).other b hba]
            exact hb
      | _ => exact h
  | _ => exact h

/-- A context that gets a zone here is the request's from then on. -/
theorem origin_of_built (h : Begun r) (hanchored : Anchored r) {r₀ : Exchange ζ}
    (hp : prepareCtx site v r = (r₀, some a)) (hbefore : (r.pool a).zone = none)
    (hzone : (r₀.pool a).zone = some zone) :
    ∃ key, v.key = some key ∧ r.loc.zone = some zone ∧ r₀.ctx = some a ∧
      Origin site zone (site.sha256 key) r.loc.dryRun false a r₀ := by
  have hprep := prepared_of_eq hp
  have hanchored₀ := (hanchored.prepared hprep).1
  cases hprep with
  | attached _ _ => cases hbefore.symm.trans hzone
  | restored _ _ _ =>
      rw [Exchange.pool_restore_self] at hzone
      cases hbefore.symm.trans hzone
  | built z key _ c cleanup hctx hfind hloc hen hkey hbuilt =>
      have hacts : ∀ act ∈ r.acts, ∃ ctx key, act = .built ctx key :=
        h.resolve_left fun ⟨b, hb⟩ => by cases hfind.symm.trans (hanchored.zoned b hb)
      cases hbuilt with
      | keyless _ =>
          simp only [Function.update_self] at hzone
          cases hzone
      | complete _ =>
          simp only [Function.update_self] at hzone
          obtain rfl := Option.some.inj hzone
          refine ⟨key, hkey, hloc, rfl, hanchored₀, ?_, ?_, .inl ?_, ?_, ?_, ?_,
            .inr (.inr ⟨rfl, rfl⟩)⟩
          · simp only [Function.update_self, ReqCtx.filled]
          · simp only [Function.update_self, ReqCtx.filled]
          · simp only [Function.update_self]
            rfl
          · refine List.forall_mem_cons.mpr ⟨trivial, fun act hact => ?_⟩
            obtain ⟨ctx, k, rfl⟩ := hacts act hact
            trivial
          · rw [List.countP_cons_of_pos rfl, countP_isAnchor_eq_zero hfind]
          · simp only [Function.update_self]
            rfl

theorem begun_run [DecidableEq ζ] (site : Site ζ) (loc : LocConf ζ) (shctx : ζ → Shctx)
    (worker : Worker) (turns : List (Turn ζ)) :
    Begun (run (turnStep site) (.start loc shctx worker) turns) :=
  (run_invariant (fun r => Anchored r ∧ Begun r) (fun _ => True)
    (fun _ turn h _ => ⟨h.1.turnStep turn, begun_turnStep h.2 h.1 turn⟩)
    ⟨.start loc shctx worker, .inr fun _ hact => (nomatch hact)⟩ fun _ _ => trivial).2

/-- The rest of the handler keeps the origin. -/
theorem origin_turnStep [DecidableEq ζ] {turn : Turn ζ} {r₀ : Exchange ζ}
    (hturn : turn.visit = some v) (hp : prepareCtx site v r = (r₀, some a))
    (h : Origin site zone key dry gone a r₀) (hctx : r₀.ctx = some a) :
    Origin site zone key dry gone a (turnStep site r turn) := by
  have hpre : ∀ {r' rc}, v.main = true → Preaccessed site v r r' rc →
      Origin site zone key dry gone a r' := by
    intro r' rc hmain hpre
    cases hpre with
    | sub hsub => cases hmain.symm.trans hsub
    | none _ _ hp' => cases hp.symm.trans hp'
    | keyless _ _ _ hp' hnone =>
        cases hp.symm.trans hp'
        cases hnone.symm.trans h.zone_eq
    | zoned _ _ _ _ _ _ hp' hzone hc =>
        cases hp.symm.trans hp'
        obtain rfl := Option.some.inj (hzone.symm.trans h.zone_eq)
        exact h.checked hc
  have hfilter : ∀ {out r' rc}, v.main = true → HeaderFiltered site v out r r' rc →
      Origin site zone key dry gone a r' := by
    intro out r' rc hmain hfilter
    cases hfilter with
    | sub hsub => cases hmain.symm.trans hsub
    | none _ _ hp' => cases hp.symm.trans hp'
    | keyless _ _ _ hp' hnone =>
        cases hp.symm.trans hp'
        cases hnone.symm.trans h.zone_eq
    | again _ _ _ _ hp' _ _ =>
        cases hp.symm.trans hp'
        exact h
    | zoned _ _ _ _ _ _ hp' hzone _ hf =>
        cases hp.symm.trans hp'
        obtain rfl := Option.some.inj (hzone.symm.trans h.zone_eq)
        exact h.filtered hctx hf
  cases turn with
  | preaccess w =>
      obtain ⟨hmain, rfl⟩ : w.main = true ∧ w = v := by simpa [Turn.visit] using hturn
      exact hpre hmain (preaccess_preaccessed site w r)
  | headerFilter w out =>
      obtain ⟨hmain, rfl⟩ : w.main = true ∧ w = v := by simpa [Turn.visit] using hturn
      exact hfilter hmain (headerFilter_headerFiltered site w out r)
  | _ => cases hturn

/-- **Origin wins.** Once a handler's `prepareCtx` has given a context a zone, at a location
`L`, every later one returns that context, the cleanup list has one anchor, all calls are
about the zone of `L` and the digest of its key, and dry-run is that of `L`. -/
theorem origin_wins [DecidableEq ζ] (site : Site ζ) (loc : LocConf ζ) (shctx : ζ → Shctx)
    (worker : Worker) (before : List (Turn ζ)) (turn : Turn ζ) (after : List (Turn ζ)) (v : Visit)
    (a : ℕ) (zone : ζ) (hturn : turn.visit = some v) (hmoves : MovesOnRedirect after) :
    let r := run (turnStep site) (.start loc shctx worker) before
    (prepareCtx site v r).2 = some a → (r.pool a).zone = none →
    ((prepareCtx site v r).1.pool a).zone = some zone →
    ∃ key, v.key = some key ∧ r.loc.zone = some zone ∧
      let r' := run (turnStep site) (.start loc shctx worker) (before ++ turn :: after)
      (∀ v', (prepareCtx site v' r').2 = some a) ∧
      r'.cleanup.countP Cleanup.isAnchor = 1 ∧
      (∀ act ∈ r'.acts, act.About site zone (site.sha256 key)) ∧
      ∀ v', dryRunInEffect site v' r' = r.loc.dryRun := by
  intro r hfound hbefore hzone
  have hp : prepareCtx site v r = ((prepareCtx site v r).1, some a) := Prod.ext rfl hfound
  obtain ⟨key, hkey, hloc, hctx, horigin⟩ := origin_of_built
    (begun_run site loc shctx worker before) (.run site loc shctx worker before) hp hbefore hzone
  obtain ⟨gone, h⟩ := (origin_turnStep hturn hp horigin hctx).after hmoves
  refine ⟨key, hkey, hloc, ?_⟩
  rw [run_append, run_cons]
  refine ⟨fun v' => (h.prepared (prepareCtx_prepared ..)).1, h.anchors, h.acts, fun v' => ?_⟩
  exact h.dryRunInEffect_eq

/-- A request that is redirected from a location with `error_abuse on` to one where it is off
and dry-run. -/
theorem origin_wins_redirected :
    let start : Exchange Unit := .start .on (fun _ => .empty) (.zeroed 0)
    let after : List (Turn Unit) := [.clear, .relocate .off, .preaccess (.roomy 2 4096)]
    let r' := run (turnStep (.single .small)) start (.preaccess (.roomy 1 4096) :: after)
    ∃ key, (Visit.roomy 1 4096).key = some key ∧ start.loc.zone = some () ∧
      (∀ v', (prepareCtx (.single .small) v' r').2 = some 0) ∧
      r'.cleanup.countP Cleanup.isAnchor = 1 ∧
      (∀ act ∈ r'.acts, act.About (.single .small) () ((Site.single .small).sha256 key)) ∧
      ∀ v', dryRunInEffect (.single .small) v' r' = false :=
  origin_wins (.single .small) .on (fun _ => .empty) (.zeroed 0) [] (.preaccess (.roomy 1 4096))
    [.clear, .relocate .off, .preaccess (.roomy 2 4096)] (.roomy 1 4096) 0 () rfl trivial rfl rfl rfl

end ErrorAbuse
