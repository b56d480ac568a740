import ErrorAbuse.Request.Once

/-!
# What becomes of a failed allocation

`prepareCtx` publishes a context, in `r->ctx` and in the cleanup list, before it has allocated
what the context is to hold. The run in which an allocation fails is answered with 500; the
context stays, without a zone, and the next run of `preaccess` that finds it takes it for that
of a request whose key is empty. Without an anchor it is found until `r->ctx` is zeroed, with
one to the end of the request.
-/

namespace ErrorAbuse

open Lib

variable {ζ : Type} {site : Site ζ} {v : Visit} {zone : ζ} {r r' : Exchange ζ} {a : ℕ}

def Act.isBuilt : Act ζ → Bool
  | built .. => true
  | _ => false

/-- No context is built. -/
theorem mem_built_iff (hlog : Logs (fun act => act.isBuilt = false) r r') {b : ℕ} {key : List UInt8} :
    .built b key ∈ r'.acts ↔ .built b key ∈ r.acts := by
  obtain ⟨new, hacts, hnew⟩ := hlog
  rw [hacts, List.mem_append, or_iff_right]
  exact fun hb => Bool.false_ne_true (hnew _ hb).symm

/-! ## The keys contexts were built from -/

/-- Every context that a handler can find was built once, from one key. -/
structure Registered (r : Exchange ζ) : Prop where
  lt_next : ∀ b key, .built b key ∈ r.acts → b < r.next
  unique : ∀ b key key', .built b key ∈ r.acts → .built b key' ∈ r.acts → key = key'
  known : ∀ b, r.ctx = some b ∨ findAnchorCtx r.cleanup = some b → ∃ key, .built b key ∈ r.acts

namespace Registered

theorem start (loc : LocConf ζ) (shctx : ζ → Shctx) (worker : Worker) :
    Registered (Exchange.start loc shctx worker) where
  lt_next _ _ h := nomatch h
  unique _ _ _ h := nomatch h
  known _ h := by simp [Exchange.start, findAnchorCtx] at h

/-- Nothing is built and nothing new can be found. -/
theorem extend (h : Registered r) (hlog : Logs (fun act => act.isBuilt = false) r r')
    (hnext : r'.next = r.next)
    (hfind : ∀ b, r'.ctx = some b ∨ findAnchorCtx r'.cleanup = some b →
      r.ctx = some b ∨ findAnchorCtx r.cleanup = some b) : Registered r' := by
  have hmem : ∀ b key, .built b key ∈ r'.acts ↔ .built b key ∈ r.acts :=
    fun b key => mem_built_iff hlog
  refine ⟨fun b key hb => ?_, fun b key key' hb hb' => ?_, fun b hb => ?_⟩
  · exact hnext ▸ h.lt_next b key ((hmem b key).mp hb)
  · exact h.unique b key key' ((hmem b key).mp hb) ((hmem b key').mp hb')
  · obtain ⟨key, hkey⟩ := h.known b (hfind b hb)
    exact ⟨key, (hmem b key).mpr hkey⟩

theorem within (h : Registered r) (hw : Within a r r')
    (hlog : Logs (fun act => act.isBuilt = false) r r') : Registered r' :=
  h.extend hlog hw.next fun b hb => by rwa [hw.ctx, hw.cleanup] at hb

theorem prepared (h : Registered r) {found : Option ℕ} (hp : Prepared site v r r' found) :
    Registered r' := by
  cases hp with
  | attached _ _ => exact h
  | none _ _ _ => exact h
  | restored a _ ha =>
      refine h.extend (.of_eq rfl) rfl fun b hb => .inr ?_
      rcases hb with hb | hb
      · exact Option.some.inj hb ▸ ha
      · exact hb
  | built zone key _ c cleanup _ hfind _ _ _ hbuilt =>
      have hanchor : ∀ b, findAnchorCtx cleanup = some b → b = r.next := by
        intro b hb
        cases hbuilt with
        | unanchored _ => cases hfind.symm.trans hb
        | _ => exact (Option.some.inj hb).symm
      refine ⟨fun b k hb => ?_, fun b k k' hb hb' => ?_, fun b hb => ⟨key, ?_⟩⟩
      · rcases List.mem_cons.mp hb with hb | hb
        · cases hb
          exact Nat.lt_succ_self _
        · exact Nat.lt_succ_of_lt (h.lt_next b k hb)
      · rcases List.mem_cons.mp hb with hb | hb <;> rcases List.mem_cons.mp hb' with hb' | hb'
        · cases hb
          cases hb'
          rfl
        · cases hb
          exact absurd (h.lt_next _ k' hb') (lt_irrefl _)
        · cases hb'
          exact absurd (h.lt_next _ k hb) (lt_irrefl _)
        · exact h.unique b k k' hb hb'
      · rcases hb with hb | hb
        · rw [Option.some.inj hb]
          exact List.mem_cons_self
        · rw [hanchor b hb]
          exact List.mem_cons_self

theorem turnStep [DecidableEq ζ] (h : Registered r) (turn : Turn ζ) :
    Registered (turnStep site r turn) := by
  have hpre : ∀ {v r' rc}, Preaccessed site v r r' rc → Registered r' := by
    intro v r' rc hp
    refine hp.keeps h (fun r₁ found hprepared => h.prepared hprepared) ?_
    intro r₁ a zone hprepared _ hc
    exact (h.prepared hprepared).within hc.within (hc.logs (fun _ => rfl) (fun _ => rfl) fun _ => rfl)
  have hfilter : ∀ {v out r' rc}, HeaderFiltered site v out r r' rc → Registered r' := by
    intro v out r' rc hp
    refine hp.keeps h (fun r₁ found hprepared => h.prepared hprepared) ?_
    intro r₁ a zone hprepared _ _ hf
    exact (h.prepared hprepared).within hf.within
      (hf.logs (fun _ => rfl) (fun _ => rfl) (fun _ => rfl) (fun _ => rfl) fun _ => rfl)
  cases turn with
  | preaccess v => exact hpre (preaccess_preaccessed site v r)
  | headerFilter v out => exact hfilter (headerFilter_headerFiltered site v out r)
  | clear => exact h.extend (.of_eq rfl) rfl fun b hb => .inr (hb.resolve_left (by simp [ErrorAbuse.turnStep]))
  | reply now reply =>
      have hr := turnStep_replied site now reply r
      generalize ErrorAbuse.turnStep site r (.reply now reply) = r' at hr ⊢
      cases hr with
      | answered => exact h.within (within_answered ..) (.of_eq rfl)
      | _ => exact h.extend (.of_eq rfl) rfl fun _ => id
  | _ => exact h.extend (.of_eq rfl) rfl fun _ => id

theorem run [DecidableEq ζ] (site : Site ζ) (loc : LocConf ζ) (shctx : ζ → Shctx) (worker : Worker)
    (turns : List (Turn ζ)) :
    Registered (run (ErrorAbuse.turnStep site) (.start loc shctx worker) turns) :=
  run_invariant Registered (fun _ => True) (fun _ turn h _ => h.turnStep turn) (start loc shctx worker)
    fun _ _ => trivial

end Registered

/-! ## Failed allocations -/

/-- The run of a handler builds a context for a key that is not empty. -/
structure Starts (r : Exchange ζ) (v : Visit) : Prop where
  absent : r.found = none
  enabled : r.loc.enabled = true
  zoned : r.loc.zone.isSome
  key : ∃ key, v.key = some key ∧ key ≠ []
  room : v.ctxRoom = true

/-- In the run of a handler in an earlier turn an allocation failed for the context it had built,
and that context is still found: without an anchor until `r->ctx` is zeroed, with one forever. -/
def Starved [DecidableEq ζ] (site : Site ζ) (r : Exchange ζ) (turns : List (Turn ζ)) : Prop :=
  ∃ before turn after v, turns = before ++ turn :: after ∧ turn.visit = some v ∧
    Starts (run (turnStep site) r before) v ∧
    (v.anchorRoom = false ∧ (∀ later ∈ after, later ≠ .clear) ∨
      v.anchorRoom = true ∧ (v.digestRoom = false ∨ v.logKeyRoom = false))

/-- The context was left without a zone although its key was not empty. -/
def Unzoned (r : Exchange ζ) (a : ℕ) : Prop :=
  (r.pool a).zone = none ∧ ∃ key, .built a key ∈ r.acts ∧ key ≠ []

/-- The next handler finds such a context. -/
def HalfBuilt (r : Exchange ζ) : Prop := ∃ a, r.found = some a ∧ Unzoned r a

/-- Only `r->ctx` points to it. -/
def Loose (r : Exchange ζ) : Prop :=
  findAnchorCtx r.cleanup = none ∧ ∃ a, r.ctx = some a ∧ Unzoned r a

/-- The anchor does. -/
def Stuck (r : Exchange ζ) : Prop := ∃ a, findAnchorCtx r.cleanup = some a ∧ Unzoned r a

theorem halfBuilt_iff (h : Anchored r) : HalfBuilt r ↔ Loose r ∨ Stuck r := by
  constructor
  · rintro ⟨a, hfound, ha⟩
    cases hfind : findAnchorCtx r.cleanup with
    | none =>
        rw [Exchange.found, hfind, Option.or_none] at hfound
        exact .inl ⟨hfind, a, hfound, ha⟩
    | some b =>
        refine .inr ⟨b, hfind, ?_⟩
        rcases Option.or_eq_some_iff.mp hfound with hctx | ⟨-, hanchor⟩
        · exact h.attached a b hctx hfind ▸ ha
        · exact Option.some.inj (hanchor.symm.trans hfind) ▸ ha
  · rintro (⟨-, a, hctx, ha⟩ | ⟨a, hfind, ha⟩)
    · exact ⟨a, Option.or_eq_some_iff.mpr (.inl hctx), ha⟩
    · refine ⟨a, ?_, ha⟩
      cases hctx : r.ctx with
      | none => exact Option.or_eq_some_iff.mpr (.inr ⟨hctx, hfind⟩)
      | some b => exact Option.or_eq_some_iff.mpr (.inl (h.attached b a hctx hfind ▸ hctx))

theorem Unzoned.congr (hzone : (r'.pool a).zone = (r.pool a).zone)
    (hlog : Logs (fun act => act.isBuilt = false) r r') : Unzoned r' a ↔ Unzoned r a := by
  simp only [Unzoned, hzone, mem_built_iff hlog]

/-- What handlers find is the same. -/
structure SameFound (r r' : Exchange ζ) : Prop where
  ctx : r'.ctx = r.ctx
  anchor : findAnchorCtx r'.cleanup = findAnchorCtx r.cleanup
  unzoned : ∀ b, Unzoned r' b ↔ Unzoned r b

namespace SameFound

theorem refl (r : Exchange ζ) : SameFound r r := ⟨rfl, rfl, fun _ => Iff.rfl⟩

theorem within (hw : Within a r r') (hlog : Logs (fun act => act.isBuilt = false) r r') :
    SameFound r r' where
  ctx := hw.ctx
  anchor := congrArg findAnchorCtx hw.cleanup
  unzoned b := by
    refine Unzoned.congr ?_ hlog
    by_cases hb : b = a
    · exact hb ▸ hw.zone
    · rw [hw.other b hb]

theorem loose_iff (h : SameFound r r') : Loose r' ↔ Loose r := by
  simp only [Loose, h.anchor, h.ctx, h.unzoned]

theorem stuck_iff (h : SameFound r r') : Stuck r' ↔ Stuck r := by
  simp only [Stuck, h.anchor, h.unzoned]

end SameFound

/-- A turn that runs a handler prepares a context and leaves what is found as it then is. -/
theorem sameFound_of_visit [DecidableEq ζ] (site : Site ζ) (r : Exchange ζ) {turn : Turn ζ}
    (hvisit : turn.visit = some v) :
    ∃ r₁ found, Prepared site v r r₁ found ∧ SameFound r₁ (turnStep site r turn) := by
  cases turn with
  | preaccess w =>
      obtain ⟨hmain, hv⟩ := Option.ite_none_right_eq_some.mp hvisit
      obtain rfl := Option.some.inj hv
      have hp := preaccess_preaccessed site w r
      rw [turnStep]
      generalize (preaccess site w r).1 = r' at hp ⊢
      generalize (preaccess site w r).2 = rc at hp
      cases hp with
      | sub hsub => cases hmain.symm.trans hsub
      | none _ _ hp => exact ⟨_, _, prepared_of_eq hp, .refl _⟩
      | keyless _ _ _ hp _ => exact ⟨_, _, prepared_of_eq hp, .refl _⟩
      | zoned _ _ _ _ _ _ hp _ hc =>
          exact ⟨_, _, prepared_of_eq hp,
            .within hc.within (hc.logs (fun _ => rfl) (fun _ => rfl) fun _ => rfl)⟩
  | headerFilter w out =>
      obtain ⟨hmain, hv⟩ := Option.ite_none_right_eq_some.mp hvisit
      obtain rfl := Option.some.inj hv
      have hp := headerFilter_headerFiltered site w out r
      rw [turnStep]
      generalize (headerFilter site w out r).1 = r' at hp ⊢
      generalize (headerFilter site w out r).2 = rc at hp
      cases hp with
      | sub hsub => cases hmain.symm.trans hsub
      | none _ _ hp => exact ⟨_, _, prepared_of_eq hp, .refl _⟩
      | keyless _ _ _ hp _ => exact ⟨_, _, prepared_of_eq hp, .refl _⟩
      | again _ _ _ _ hp _ _ => exact ⟨_, _, prepared_of_eq hp, .refl _⟩
      | zoned _ _ _ _ _ _ hp _ _ hf =>
          exact ⟨_, _, prepared_of_eq hp, .within hf.within
            (hf.logs (fun _ => rfl) (fun _ => rfl) (fun _ => rfl) (fun _ => rfl) fun _ => rfl)⟩
  | _ => cases hvisit

/-- Other turns leave it as it is, but for `r->ctx` when nginx zeroes it. -/
theorem sameFound_of_no_visit [DecidableEq ζ] {turn : Turn ζ} (hvisit : turn.visit = none)
    (hclear : turn ≠ .clear) : SameFound r (turnStep site r turn) := by
  cases turn with
  | preaccess w =>
      have hsub : w.main = false := by simpa [Turn.visit] using hvisit
      simp only [turnStep, preaccess, hsub, Bool.not_false, if_true]
      exact .refl r
  | headerFilter w out =>
      have hsub : w.main = false := by simpa [Turn.visit] using hvisit
      simp only [turnStep, headerFilter, hsub, Bool.not_false, if_true]
      exact .refl r
  | clear => exact absurd rfl hclear
  | reply now reply =>
      have hr := turnStep_replied site now reply r
      generalize turnStep site r (.reply now reply) = r' at hr ⊢
      cases hr with
      | unasked _ => exact .refl r
      | lost _ _ => exact ⟨rfl, rfl, fun _ => Iff.rfl⟩
      | answered => exact .within (within_answered ..) (.of_eq rfl)
  | _ => exact ⟨rfl, rfl, fun _ => Iff.rfl⟩

/-- Where a handler builds a context, it starts one for a key that is not empty, or the key is. -/
theorem starts_iff {key : List UInt8} (hctx : r.ctx = none) (hfind : findAnchorCtx r.cleanup = none)
    (hzone : r.loc.zone = some zone) (henabled : r.loc.enabled = true) (hkey : v.key = some key)
    (hroom : v.ctxRoom = true) : Starts r v ↔ key ≠ [] := by
  constructor
  · rintro ⟨-, -, -, ⟨key', hkey', hne⟩, -⟩
    exact Option.some.inj (hkey'.symm.trans hkey) ▸ hne
  · intro hne
    exact ⟨by rw [Exchange.found, hctx, hfind, Option.none_or], henabled, by rw [hzone]; rfl,
      ⟨key, hkey, hne⟩, hroom⟩

/-- The context that was just built lacks its zone if it was not filled in. -/
theorem unzoned_built (h : Registered r) (key : List UInt8) (c : ReqCtx ζ) (cleanup : List Cleanup) :
    Unzoned { r with
      pool := Function.update r.pool r.next c
      next := r.next + 1
      ctx := some r.next
      cleanup := cleanup
      acts := .built r.next key :: r.acts } r.next ↔ c.zone = none ∧ key ≠ [] := by
  have hkeys : ∀ key', .built r.next key' ∈ (.built r.next key :: r.acts : List (Act ζ)) ↔
      key' = key := by
    intro key'
    constructor
    · intro hmem
      rcases List.mem_cons.mp hmem with heq | hmem
      · cases heq
        rfl
      · exact absurd (h.lt_next _ _ hmem) (lt_irrefl _)
    · rintro rfl
      exact List.mem_cons_self
  simp only [Unzoned, Function.update_self, hkeys, exists_eq_left]

/-- A handler that finds a context, or builds none, starts none. -/
theorem not_starts_of_not_built {found : Option ℕ} (hp : Prepared site v r r' found)
    (hacts : r'.acts = r.acts) : ¬ Starts r v := by
  rintro ⟨habsent, henabled, hzone, ⟨key, hkey, -⟩, hroom⟩
  cases hp with
  | attached a ha => simp [Exchange.found, ha] at habsent
  | restored a hnone ha => simp [Exchange.found, hnone, ha] at habsent
  | none _ _ hwhy =>
      simp [Option.isSome_iff_ne_none.mp hzone, henabled, hkey, hroom] at hwhy
  | built => simp at hacts

/-- Preparing leaves a context that only `r->ctx` points to where no anchor can be allocated. -/
theorem loose_prepared (h : Registered r) {found : Option ℕ} (hp : Prepared site v r r' found) :
    Loose r' ↔ Loose r ∨ Starts r v ∧ v.anchorRoom = false := by
  have hidle := not_starts_of_not_built hp
  cases hp with
  | attached a ha => exact (or_iff_left fun hs => hidle rfl hs.1).symm
  | none hctx hfind hwhy => exact (or_iff_left fun hs => hidle rfl hs.1).symm
  | restored a hnone ha =>
      refine iff_of_false (fun hloose => ?_) (not_or.mpr ⟨fun hloose => ?_, fun hs => hidle rfl hs.1⟩)
      · cases hloose.1.symm.trans ha
      · cases hloose.1.symm.trans ha
  | built zone key _ c cleanup hctx hfind hz hen hkey hbuilt hroom =>
      have hno : ¬ Loose r := fun ⟨_, a, ha, _⟩ => by cases hctx.symm.trans ha
      have hunzoned := unzoned_built h key c cleanup
      rw [or_iff_right hno, starts_iff hctx hfind hz hen hkey hroom]
      have hloose : ∀ r' : Exchange ζ, r'.ctx = some r.next →
          (Loose r' ↔ findAnchorCtx r'.cleanup = none ∧ Unzoned r' r.next) := by
        intro r' hr'
        simp only [Loose, hr', Option.some.injEq, exists_eq_left']
      rw [hloose _ rfl, hunzoned]
      cases hbuilt with
      | unanchored hanchor => simp [hfind, hanchor, ReqCtx.fresh, ReqCtx.zeroed]
      | keyless _ hanchor => simp [findAnchorCtx, hanchor]
      | failed _ _ _ hanchor => simp [findAnchorCtx, hanchor]
      | complete _ hanchor _ _ => simp [findAnchorCtx, hanchor]

/-- Preparing leaves one that the anchor points to where a later allocation fails. -/
theorem stuck_prepared (h : Registered r) {found : Option ℕ} (hp : Prepared site v r r' found) :
    Stuck r' ↔ Stuck r ∨
      Starts r v ∧ v.anchorRoom = true ∧ (v.digestRoom = false ∨ v.logKeyRoom = false) := by
  have hidle := not_starts_of_not_built hp
  cases hp with
  | attached a ha => exact (or_iff_left fun hs => hidle rfl hs.1).symm
  | none hctx hfind hwhy => exact (or_iff_left fun hs => hidle rfl hs.1).symm
  | restored a hnone ha =>
      have hunzoned : ∀ b, Unzoned (r.restore a) b ↔ Unzoned r b := by
        intro b
        refine Unzoned.congr ?_ (.of_eq rfl)
        by_cases hb : b = a
        · rw [hb, Exchange.pool_restore_self]
        · rw [Exchange.pool_restore_of_ne hb]
      rw [or_iff_left fun hs => hidle rfl hs.1]
      exact exists_congr fun b => and_congr_right fun _ => hunzoned b
  | built zone key _ c cleanup hctx hfind hz hen hkey hbuilt hroom =>
      have hno : ¬ Stuck r := fun ⟨a, ha, _⟩ => by cases hfind.symm.trans ha
      have hunzoned := unzoned_built h key c cleanup
      rw [or_iff_right hno, starts_iff hctx hfind hz hen hkey hroom]
      have hstuck : ∀ r' : Exchange ζ, findAnchorCtx r'.cleanup = some r.next →
          (Stuck r' ↔ Unzoned r' r.next) := by
        intro r' hr'
        simp only [Stuck, hr', Option.some.injEq, exists_eq_left']
      cases hbuilt with
      | unanchored hanchor => simp [Stuck, hfind, hanchor]
      | keyless hempty hanchor => rw [hstuck _ rfl, hunzoned]; simp [hempty]
      | failed _ hne hfail hanchor =>
          rw [hstuck _ rfl, hunzoned]
          simp [hne, hfail, hanchor, ReqCtx.fresh, ReqCtx.zeroed]
      | complete hne hanchor hdigest hlog =>
          rw [hstuck _ rfl, hunzoned]
          simp [hdigest, hlog, ReqCtx.filled]

section Turns

variable [DecidableEq ζ]

/-- The handler run of the turn starts a context and gets no memory for its anchor. -/
def LosesAnchor (r : Exchange ζ) (turn : Turn ζ) : Prop :=
  ∃ v, turn.visit = some v ∧ Starts r v ∧ v.anchorRoom = false

/-- It does, and gets none for the digest or the log key. -/
def LosesIdentity (r : Exchange ζ) (turn : Turn ζ) : Prop :=
  ∃ v, turn.visit = some v ∧ Starts r v ∧ v.anchorRoom = true ∧
    (v.digestRoom = false ∨ v.logKeyRoom = false)

theorem loose_turnStep (h : Registered r) (turn : Turn ζ) :
    Loose (turnStep site r turn) ↔ Loose r ∧ ¬ turn = .clear ∨ LosesAnchor r turn := by
  cases hvisit : turn.visit with
  | some v =>
      obtain ⟨r₁, found, hp, hsame⟩ := sameFound_of_visit site r hvisit
      have hclear : turn ≠ .clear := fun he => by cases he ▸ hvisit
      rw [hsame.loose_iff, loose_prepared h hp, and_iff_left hclear]
      simp only [LosesAnchor, hvisit, Option.some.injEq, exists_eq_left']
  | none =>
      rw [or_iff_left fun ⟨v, hv, _⟩ => by cases hvisit.symm.trans hv]
      by_cases hclear : turn = .clear
      · subst hclear
        exact iff_of_false (fun ⟨_, a, ha, _⟩ => by cases ha) fun hloose => hloose.2 rfl
      · rw [(sameFound_of_no_visit hvisit hclear).loose_iff, and_iff_left hclear]

theorem stuck_turnStep (h : Registered r) (turn : Turn ζ) :
    Stuck (turnStep site r turn) ↔ Stuck r ∧ ¬ False ∨ LosesIdentity r turn := by
  rw [not_false_eq_true, and_true]
  cases hvisit : turn.visit with
  | some v =>
      obtain ⟨r₁, found, hp, hsame⟩ := sameFound_of_visit site r hvisit
      rw [hsame.stuck_iff, stuck_prepared h hp]
      simp only [LosesIdentity, hvisit, Option.some.injEq, exists_eq_left']
  | none =>
      rw [or_iff_left fun ⟨v, hv, _⟩ => by cases hvisit.symm.trans hv]
      by_cases hclear : turn = .clear
      · subst hclear
        exact Iff.rfl
      · rw [(sameFound_of_no_visit hvisit hclear).stuck_iff]

/-- A half-built context is found if and only if an allocation failed for it. -/
theorem halfBuilt_run (site : Site ζ) (loc : LocConf ζ) (shctx : ζ → Shctx) (worker : Worker)
    (turns : List (Turn ζ)) :
    HalfBuilt (run (turnStep site) (.start loc shctx worker) turns) ↔
      Starved site (.start loc shctx worker) turns := by
  have hkeep : ∀ r turn, Registered r → Registered (turnStep site r turn) :=
    fun _ turn h => h.turnStep turn
  have hstart := Registered.start loc shctx worker
  have hloose := run_latched Registered Loose LosesAnchor (· = .clear) hkeep
    (fun _ turn h => loose_turnStep h turn) hstart (fun ⟨_, a, ha, _⟩ => by cases ha) turns
  have hstuck := run_latched Registered Stuck LosesIdentity (fun _ => False) hkeep
    (fun _ turn h => stuck_turnStep h turn) hstart (fun ⟨a, ha, _⟩ => by cases ha) turns
  rw [halfBuilt_iff (Anchored.run site loc shctx worker turns), hloose, hstuck]
  constructor
  · rintro (⟨before, turn, after, hturns, ⟨v, hv, hs, hanchor⟩, hafter⟩ |
      ⟨before, turn, after, hturns, ⟨v, hv, hs, hfail⟩, -⟩)
    · exact ⟨before, turn, after, v, hturns, hv, hs, .inl ⟨hanchor, hafter⟩⟩
    · exact ⟨before, turn, after, v, hturns, hv, hs, .inr hfail⟩
  · rintro ⟨before, turn, after, v, hturns, hv, hs, ⟨hanchor, hafter⟩ | hfail⟩
    · exact .inl ⟨before, turn, after, hturns, ⟨v, hv, hs, hanchor⟩, hafter⟩
    · exact .inr ⟨before, turn, after, hturns, ⟨v, hv, hs, hfail⟩, fun _ _ => not_false⟩

end Turns

/-! ## Runs of preaccess -/

/-- The run of `preaccess` checks the request against a zone: it is parked until Redis has
answered, or asks the zone, or has Redis's answer. -/
def Examined [DecidableEq ζ] (site : Site ζ) (v : Visit) (r : Exchange ζ) : Prop :=
  (preaccess site v r).2 = .again ∨
  (∃ new zone key, (preaccess site v r).1.acts = new ++ r.acts ∧ .isBlocked zone key v.now ∈ new) ∨
  ∃ a zone, (prepareCtx site v r).2 = some a ∧ ((prepareCtx site v r).1.pool a).zone = some zone ∧
    ((prepareCtx site v r).1.pool a).redisBlocked = true

/-- The run of `preaccess` fails, or checks the request, or its key was empty. -/
def FailsClosed [DecidableEq ζ] (site : Site ζ) (v : Visit) (r : Exchange ζ) : Prop :=
  (preaccess site v r).2 = .status 500 ∨ Examined site v r ∨
    ∃ a, (prepareCtx site v r).2 = some a ∧ .built a [] ∈ (prepareCtx site v r).1.acts

/-- What a run finds that builds no context. -/
theorem prepareCtx_of_found (site : Site ζ) (v : Visit) (h : r.found = some a) :
    (prepareCtx site v r).2 = some a ∧ (prepareCtx site v r).1.acts = r.acts ∧
      ((prepareCtx site v r).1.pool a).zone = (r.pool a).zone := by
  rw [Exchange.found, Option.or_eq_some_iff] at h
  rcases h with hctx | ⟨hctx, hfind⟩
  · simp only [prepareCtx, hctx, and_self]
  · simp only [prepareCtx, hctx, hfind, Exchange.pool_onCtx_self, Exchange.acts_onCtx, and_self]

theorem prepared_found {found : Option ℕ} (h : Prepared site v r r' found) :
    r'.loc = r.loc ∧ (∃ new, r'.acts = new ++ r.acts) ∧ (found = r.found ∨ ∀ a, found = some a →
      (r'.pool a).zone = none → .built a [] ∈ r'.acts) := by
  cases h with
  | attached a ha => exact ⟨rfl, ⟨[], rfl⟩, .inl (by simp [Exchange.found, ha])⟩
  | restored a hnone ha => exact ⟨rfl, ⟨[], rfl⟩, .inl (by simp [Exchange.found, hnone, ha])⟩
  | none hctx hfind _ => exact ⟨rfl, ⟨[], rfl⟩, .inl (by simp [Exchange.found, hctx, hfind])⟩
  | built zone key _ c cleanup _ _ _ _ _ hbuilt =>
      refine ⟨rfl, ⟨[.built r.next key], rfl⟩, .inr fun a ha hzone => ?_⟩
      cases hbuilt with
      | unanchored _ => cases ha
      | failed _ _ _ => cases ha
      | keyless hkey =>
          cases ha
          exact hkey ▸ List.mem_cons_self
      | complete _ =>
          obtain rfl := Option.some.inj ha
          simp only [Function.update_self] at hzone
          cases hzone

/-- With a zone the run checks the request. -/
theorem examined_of_checked {rc : PhaseRc} (h : Checked site v zone a r r' rc) :
    rc = .again ∨ (∃ new zone key, r'.acts = new ++ r.acts ∧ .isBlocked zone key v.now ∈ new) ∨
      (r.pool a).redisBlocked = true := by
  have hruled : ∀ {r r' : Exchange ζ} {rc}, Ruled site v zone a r r' rc →
      (r.pool a).redisBlocked = true ∨
        ∃ new, r'.acts = new ++ r.acts ∧ .isBlocked zone (r.pool a).key v.now ∈ new := by
    intro r r' rc h
    by_cases hredis : (r.pool a).redisBlocked = true
    · exact .inl hredis
    · have hchecked : checked v zone a r = .isBlocked zone (r.pool a).key v.now :: r.acts := if_neg hredis
      cases h with
      | rejected =>
          refine .inr ⟨[.reject r.loc.rejectStatus, .isBlocked zone (r.pool a).key v.now], ?_, by simp⟩
          simp only [Exchange.acts_work, hchecked, List.cons_append, List.nil_append]
      | _ => exact .inr ⟨[.isBlocked zone (r.pool a).key v.now], hchecked, List.mem_singleton_self _⟩
  cases h with
  | parked => exact .inl rfl
  | settled _ _ _ hr =>
      rcases hruled hr with hredis | ⟨new, hacts, hmem⟩
      · exact .inr (.inr hredis)
      · exact .inr (.inl ⟨new, zone, _, hacts, hmem⟩)
  | refused r₁ _ _ _ _ hasked hr =>
      rcases hruled hr with hredis | ⟨new, hacts, hmem⟩
      · refine .inr (.inr ?_)
        cases hasked with
        | skipped => simpa only [Exchange.pool_onCtx_self, ReqCtx.asked] using hredis
      · obtain ⟨new', hacts', -⟩ := hasked.logs (P := fun _ => True) fun _ => trivial
        refine .inr (.inl ⟨new ++ new', zone, _, ?_, List.mem_append_left _ hmem⟩)
        rw [hacts, hacts', List.append_assoc]

/-- A run of `preaccess` bypasses the zone for a key that is not empty if and only if it finds a
half-built context. -/
theorem failsClosed_iff_not_halfBuilt [DecidableEq ζ] (hregistered : Registered r)
    (hmain : v.main = true) (henabled : r.loc.enabled = true) (hzone : r.loc.zone.isSome) :
    FailsClosed site v r ↔ ¬ HalfBuilt r := by
  constructor
  · rintro hclosed ⟨a, hfound, hnone, key, hbuilt, hne⟩
    obtain ⟨hprep, hacts, hsame⟩ := prepareCtx_of_found site v hfound
    have hpre : preaccess site v r = ((prepareCtx site v r).1, .declined) := by
      have hp : prepareCtx site v r = ((prepareCtx site v r).1, some a) := Prod.ext rfl hprep
      rw [preaccess, hmain, hp]
      simp only [Bool.not_true, Bool.false_eq_true, if_false, hsame.trans hnone]
    rcases hclosed with hfail | hexamined | ⟨b, hb, hempty⟩
    · rw [hpre] at hfail
      cases hfail
    · rcases hexamined with hparked | ⟨new, z, k, hlog, hmem⟩ | ⟨b, z, hb, hz, -⟩
      · rw [hpre] at hparked
        cases hparked
      · rw [hpre] at hlog
        obtain rfl := List.self_eq_append_left.mp (hacts.symm.trans hlog)
        cases hmem
      · obtain rfl := Option.some.inj (hprep.symm.trans hb)
        cases (hsame.trans hnone).symm.trans hz
    · obtain rfl := Option.some.inj (hprep.symm.trans hb)
      exact hne (hregistered.unique a key [] hbuilt (hacts ▸ hempty))
  · intro hwhole
    have hp := preaccess_preaccessed site v r
    rw [FailsClosed, Examined]
    generalize (preaccess site v r).1 = r' at hp ⊢
    generalize (preaccess site v r).2 = rc at hp ⊢
    cases hp with
    | sub hsub => cases hmain.symm.trans hsub
    | none r₁ _ hp =>
        have hloc := (prepared_found (prepared_of_eq hp)).1
        exact .inl (if_pos ⟨hloc ▸ henabled, hloc ▸ hzone⟩)
    | keyless r₁ a _ hp hnone =>
        refine .inr (.inr ⟨a, by rw [hp], ?_⟩)
        rcases (prepared_found (prepared_of_eq hp)).2.2 with hfound | hnew
        · obtain ⟨-, hacts, hsame⟩ := prepareCtx_of_found site v hfound.symm
          obtain ⟨key, hkey⟩ := hregistered.known a
            ((Option.or_eq_some_iff.mp hfound.symm).imp id And.right)
          have hempty : key = [] := by
            by_contra hne
            rw [hp] at hsame
            exact hwhole ⟨a, hfound.symm, hsame.symm.trans hnone, key, hkey, hne⟩
          rw [hacts]
          exact hempty ▸ hkey
        · rw [hp]
          exact hnew a rfl hnone
    | zoned r₁ _ a zone _ _ hp hz hc =>
        obtain ⟨new, hbefore⟩ := (prepared_found (prepared_of_eq hp)).2.1
        rw [hp]
        refine .inr (.inl ?_)
        rcases examined_of_checked hc with hparked | ⟨new', z, k, hacts, hmem⟩ | hredis
        · exact .inl hparked
        · refine .inr (.inl ⟨new' ++ new, z, k, ?_, List.mem_append_left _ hmem⟩)
          rw [hacts, hbefore, List.append_assoc]
        · exact .inr (.inr ⟨a, zone, rfl, hz, hredis⟩)

/-- **No bypass but this one.** In every state of every run: at a location with
`error_abuse on` and a zone, `preaccess` fails, or checks the request against a zone, or the
key was empty, if and only if no allocation failed for the context it finds. -/
theorem failsClosed_iff [DecidableEq ζ] (site : Site ζ) (loc : LocConf ζ) (shctx : ζ → Shctx)
    (worker : Worker) (turns : List (Turn ζ)) (v : Visit) (hmain : v.main = true)
    (henabled : (run (turnStep site) (.start loc shctx worker) turns).loc.enabled = true)
    (hzone : (run (turnStep site) (.start loc shctx worker) turns).loc.zone.isSome) :
    FailsClosed site v (run (turnStep site) (.start loc shctx worker) turns) ↔
      ¬ Starved site (.start loc shctx worker) turns := by
  rw [← halfBuilt_run]
  exact failsClosed_iff_not_halfBuilt (Registered.run site loc shctx worker turns) hmain henabled hzone

/-- No memory in the first run of `preaccess`, and an `error_page` for the 500. -/
def redirectedAfter (v : Visit) : List (Turn Unit) := [.preaccess v, .clear, .relocate .on]

/-- The client is checked after an `error_page` if it was the anchor that could not be allocated,
and passes if it was the digest. -/
theorem failsClosed_iff_redirected :
    let site := Site.single .small
    let start : Exchange Unit := .start .on (fun _ => .banned) (.zeroed 0)
    FailsClosed site (.roomy 3 8192)
      (run (turnStep site) start (redirectedAfter { Visit.roomy 3 8192 with anchorRoom := false })) ∧
    ¬ FailsClosed site (.roomy 3 8192)
      (run (turnStep site) start (redirectedAfter { Visit.roomy 3 8192 with digestRoom := false })) := by
  intro site start
  constructor
  · refine (failsClosed_iff site .on (fun _ => .banned) (.zeroed 0) _ (.roomy 3 8192) rfl rfl rfl).mpr ?_
    rintro ⟨before, turn, after, v, hturns, hvisit, -, hlost⟩
    rcases before with _ | ⟨_, before⟩
    · obtain ⟨rfl, rfl⟩ := List.cons.inj hturns
      obtain rfl := Option.some.inj hvisit
      rcases hlost with ⟨-, hkept⟩ | ⟨hanchor, -⟩
      · exact hkept .clear List.mem_cons_self rfl
      · cases hanchor
    · have hrest := (List.cons.inj hturns).2
      have hmem : turn ∈ [.clear, .relocate .on] := hrest ▸ List.mem_append_right before List.mem_cons_self
      rcases List.mem_pair.mp hmem with rfl | rfl <;> cases hvisit
  · intro hclosed
    refine (failsClosed_iff site .on (fun _ => .banned) (.zeroed 0) _ (.roomy 3 8192) rfl rfl rfl).mp
      hclosed ?_
    exact ⟨[], _, _, _, rfl, rfl, ⟨rfl, rfl, rfl, ⟨[97], rfl, by decide⟩, rfl⟩, .inr ⟨rfl, .inl rfl⟩⟩

/-- No memory for the digest, and an `error_page` for the 500: the client, who is banned, passes
the location that the request is redirected to. -/
theorem not_failsClosed_redirected :
    let site := Site.single .small
    let r := run (turnStep site) (.start .on (fun _ => .banned) (.zeroed 0))
      (redirectedAfter { Visit.roomy 3 8192 with digestRoom := false })
    (preaccess site (.roomy 3 8192) r).2 = .declined ∧ ¬ FailsClosed site (.roomy 3 8192) r := by
  intro site r
  have hrc : (preaccess site (.roomy 3 8192) r).2 = .declined := by decide +kernel
  have hacts : (preaccess site (.roomy 3 8192) r).1.acts = r.acts := by decide +kernel
  have hfound : (prepareCtx site (.roomy 3 8192) r).2 = some 0 := by decide +kernel
  have hzone : ((prepareCtx site (.roomy 3 8192) r).1.pool 0).zone = none := by decide +kernel
  have hbuilt : .built 0 [] ∉ (prepareCtx site (.roomy 3 8192) r).1.acts := by decide +kernel
  refine ⟨hrc, ?_⟩
  rintro (hfail | (hparked | ⟨new, z, k, hlog, hmem⟩ | ⟨b, z, hb, hz, -⟩) | ⟨b, hb, hempty⟩)
  · cases hrc.symm.trans hfail
  · cases hrc.symm.trans hparked
  · obtain rfl := List.self_eq_append_left.mp (hacts.symm.trans hlog)
    cases hmem
  · obtain rfl := Option.some.inj (hfound.symm.trans hb)
    cases hzone.symm.trans hz
  · obtain rfl := Option.some.inj (hfound.symm.trans hb)
    exact hbuilt hempty

end ErrorAbuse
