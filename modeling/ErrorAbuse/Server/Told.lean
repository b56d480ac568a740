import ErrorAbuse.Request.Private
import ErrorAbuse.Server.Bans
import ErrorAbuse.Zone.Preview

/-!
# What a client is told

Log formats read the count of a client and the end of its ban from two variables, and the client
reads `Retry-After` from its rejection. All of them come from the context, which was filled by
calls on the zone or by the answer of Redis, maybe some time before. `Told` bounds what is in a
context at any later time, and is kept by whatever happens on a server.
-/

namespace ErrorAbuse

open Lib

/-! ## What a zone reports -/

section zone

variable {core : Core} {conf : ZoneConf} {s : Shctx} {t now : ℤ}

theorem addSaturate_le (conf : ZoneConf) (now : ℤ) :
    conf.addSaturate now conf.block ≤ now + conf.block := by
  rw [ZoneConf.addSaturate, timeAddSaturate_eq_min conf.block_pos]
  exact min_le_left ..

/-- A node's ban ends within `block` of the last time the node was seen. -/
theorem NodeOk.ban_le_add {n : Node} (h : NodeOk conf t n) (h0 : 0 ≤ t) :
    n.blockedUntil ≤ t + conf.block := by
  have hblock := conf.block_pos
  by_cases hb : n.blockedUntil = 0
  · omega
  · have hle := (h.ban_le hb).trans (addSaturate_le conf n.lastSeen)
    have := h.lastSeen_le
    omega

/-- A call reports what is in the node that it leaves behind. -/
theorem onNode_out (conf : ZoneConf) (c : Call) (n : Node) : ∃ count deadline,
    (c.onNode conf n).2.out = some (count, deadline) ∧
      (count = conf.threshold ∨ count = (c.onNode conf n).1.eventCount) ∧
      (deadline = 0 ∨ deadline = (c.onNode conf n).1.blockedUntil) := by
  cases c with
  | record key now slab =>
      simp only [Call.onNode, recordNode_eq]
      split_ifs <;> exact ⟨_, _, rfl, by simp, .inr rfl⟩
  | isBlocked key now =>
      simp only [Call.onNode, isBlockedNode_eq]
      split_ifs
      · exact ⟨_, _, rfl, .inl rfl, .inr rfl⟩
      · exact ⟨_, _, rfl, .inr rfl, .inl rfl⟩
      · exact ⟨_, _, rfl, .inr rfl, .inl rfl⟩

theorem exec_out_le (hs : ZoneOk core conf t s) (c : Call) (ht : t ≤ c.now) (h0 : 0 ≤ c.now)
    {count : ℕ} {deadline : ℤ} (hout : (c.exec core conf s).2.out = some (count, deadline)) :
    count ≤ conf.threshold ∧ deadline ≤ c.now + conf.block := by
  have hblock := conf.block_pos
  have hok := exec_zoneOk hs c ht h0
  obtain ⟨lost, s₁, -, -, heff, -⟩ := exec_effect conf hs.indexed c
  generalize c.exec core conf s = result at hok heff hout
  cases heff with
  | absent _ _ =>
      obtain ⟨rfl, rfl⟩ := Prod.mk.inj (Option.some.inj hout)
      omega
  | full _ _ => cases hout
  | wrote n s' _ _ _ _ _ hnode =>
      have hn : NodeOk conf c.now (c.onNode conf n).1 :=
        hok.nodes ((hnode c.key).trans (if_pos rfl))
      obtain ⟨count', deadline', hout', hcount, hdeadline⟩ := onNode_out conf c n
      obtain ⟨rfl, rfl⟩ := Prod.mk.inj (Option.some.inj (hout'.symm.trans hout))
      have hlt := hn.count_lt
      have hban := hn.ban_le_add h0
      constructor
      · rcases hcount with h | h <;> omega
      · rcases hdeadline with h | h <;> omega

/-- And so does a look. -/
theorem peek_le (hs : ZoneOk core conf t s) (ht : t ≤ now) (h0 : 0 ≤ now) (key : Digest) :
    (peek core conf key now s).count ≤ conf.threshold ∧
      (peek core conf key now s).blockedUntil ≤ now + conf.block := by
  have hblock := conf.block_pos
  have hpos := conf.threshold_pos
  have hsat := addSaturate_le conf now
  rw [peek_eq]
  split
  · constructor
    · dsimp only
      split_ifs <;> omega
    · dsimp only
      split_ifs <;> omega
  · next a ha =>
      have hn : NodeOk conf now (s.mem a) := by
        have hnode : nodeOf core s key = some (s.mem a) := by simp [nodeOf, ha]
        exact (hs.nodes hnode).mono ht
      have hlt := hn.count_lt
      have hban := hn.ban_le_add h0
      have hvalid : (((s.mem a).contents conf).filter fun e => e > now - conf.interval).length ≤
          (s.mem a).eventCount := by
        simpa using List.length_filter_le _ ((s.mem a).contents conf)
      dsimp only
      split_ifs
      · exact ⟨le_rfl, hban⟩
      · exact ⟨by dsimp only; omega, hsat⟩
      · exact ⟨by dsimp only; omega, by dsimp only; omega⟩

end zone

/-! ## What is in the contexts -/

/-- What the clock reads during a turn. -/
def Turn.time {ζ : Type} : Turn ζ → Option ℤ
  | preaccess v | headerFilter v _ => some v.now
  | reply now _ => some now
  | _ => none

variable {ζ : Type} {site : Site ζ} {v : Visit} {zone : ζ} {r r' : Exchange ζ} {a : ℕ} {t now : ℤ}

/-- A context at time `t`: its count is within the threshold of its zone, and its deadline within
the `block` of its zone. Without a zone, both are 0. -/
structure ReqCtx.Told (site : Site ζ) (t : ℤ) (c : ReqCtx ζ) : Prop where
  count_le : ∀ zone, c.zone = some zone → c.count ≤ (site.zones zone).threshold
  deadline_le : ∀ zone, c.zone = some zone → c.blockedUntil ≤ t + (site.zones zone).block
  unzoned : c.zone = none → c.count = 0 ∧ c.blockedUntil = 0

/-- A request with such contexts, and zones as they can be at time `t`. -/
structure Told (site : Site ζ) (t : ℤ) (r : Exchange ζ) : Prop where
  nonneg : 0 ≤ t
  digested : Digested r
  zones : ∀ zone, ZoneOk site.core (site.zones zone) t (r.shctx zone)
  pool : ∀ a, (r.pool a).Told site t

/-- Nothing that `Told` looks at has changed. -/
structure SameTold (r r' : Exchange ζ) : Prop where
  shctx : r'.shctx = r.shctx
  zone : ∀ b, (r'.pool b).zone = (r.pool b).zone
  key : ∀ b, (r'.pool b).key = (r.pool b).key
  count : ∀ b, (r'.pool b).count = (r.pool b).count
  blockedUntil : ∀ b, (r'.pool b).blockedUntil = (r.pool b).blockedUntil

theorem SameTold.of_pool (hpool : r'.pool = r.pool) (hshctx : r'.shctx = r.shctx) :
    SameTold r r' where
  shctx := hshctx
  zone b := by rw [hpool]
  key b := by rw [hpool]
  count b := by rw [hpool]
  blockedUntil b := by rw [hpool]

theorem SameTold.onCtx (r : Exchange ζ) (a : ℕ) {f : ReqCtx ζ → ReqCtx ζ}
    (hzone : ∀ c, (f c).zone = c.zone) (hkey : ∀ c, (f c).key = c.key)
    (hcount : ∀ c, (f c).count = c.count) (hdeadline : ∀ c, (f c).blockedUntil = c.blockedUntil) :
    SameTold r (r.onCtx a f) := by
  have hpool : ∀ {β : Type} (g : ReqCtx ζ → β), (∀ c, g (f c) = g c) →
      ∀ b, g ((r.onCtx a f).pool b) = g (r.pool b) := by
    intro β g hg b
    by_cases hba : b = a
    · subst hba
      rw [Exchange.pool_onCtx_self, hg]
    · rw [Exchange.pool_onCtx_of_ne hba]
  exact ⟨rfl, hpool _ hzone, hpool _ hkey, hpool _ hcount, hpool _ hdeadline⟩

namespace ReqCtx.Told

variable {c c' : ReqCtx ζ}

theorem zeroed (site : Site ζ) (t : ℤ) : (ReqCtx.zeroed : ReqCtx ζ).Told site t :=
  ⟨fun _ h => (nomatch h), fun _ h => (nomatch h), fun _ => ⟨rfl, rfl⟩⟩

theorem mono (h : c.Told site t) (ht : t ≤ now) : c.Told site now where
  count_le := h.count_le
  deadline_le zone hzone := by
    have := h.deadline_le zone hzone
    omega
  unzoned := h.unzoned

theorem congr (h : c.Told site t) (hzone : c'.zone = c.zone) (hcount : c'.count = c.count)
    (hdeadline : c'.blockedUntil = c.blockedUntil) : c'.Told site t where
  count_le := by
    rw [hzone, hcount]
    exact h.count_le
  deadline_le := by
    rw [hzone, hdeadline]
    exact h.deadline_le
  unzoned := by
    rw [hzone, hcount, hdeadline]
    exact h.unzoned

/-- What a zone reports may be told. -/
theorem of_zone (hzone : c.zone = some zone) (hcount : c.count ≤ (site.zones zone).threshold)
    (hdeadline : c.blockedUntil ≤ t + (site.zones zone).block) : c.Told site t where
  count_le zone' h := by
    obtain rfl := Option.some.inj (hzone.symm.trans h)
    exact hcount
  deadline_le zone' h := by
    obtain rfl := Option.some.inj (hzone.symm.trans h)
    exact hdeadline
  unzoned h := by simp [hzone] at h

/-- So may what Redis answers, however late the deadline is that it names. -/
theorem replied (h : c.Told site t) (ht : t ≤ now) (reply : Option Reply) :
    (c.replied site now reply).Told site now := by
  unfold ReqCtx.replied
  dsimp only
  split
  · split
    · exact (h.mono ht).congr rfl rfl rfl
    · next zone hzone =>
        have hsat : timeAddSaturate site.redis.plat.time now (site.zones zone).block ≤
            now + (site.zones zone).block := by
          rw [timeAddSaturate_eq_min (site.zones zone).block_pos]
          exact min_le_left ..
        refine of_zone hzone le_rfl ?_
        simp only [redisDeadline]
        split_ifs <;> omega
  · exact (h.mono ht).congr rfl rfl rfl

end ReqCtx.Told

theorem ReqCtx.replied_zone (site : Site ζ) (now : ℤ) (reply : Option Reply) (c : ReqCtx ζ) :
    (c.replied site now reply).zone = c.zone ∧ (c.replied site now reply).key = c.key := by
  obtain ⟨count, deadline, banned, heq, -⟩ := c.replied_eq site now reply
  rw [heq]
  exact ⟨rfl, rfl⟩

namespace Told

theorem mono (h : Told site t r) (ht : t ≤ now) : Told site now r where
  nonneg := h.nonneg.trans ht
  digested := h.digested
  zones zone := (h.zones zone).mono ht
  pool a := (h.pool a).mono ht

theorem same (h : Told site t r) (hsame : SameTold r r') : Told site t r' where
  nonneg := h.nonneg
  digested b hb := by
    rw [hsame.zone] at hb
    rw [hsame.key]
    exact h.digested b hb
  zones zone := by
    rw [hsame.shctx]
    exact h.zones zone
  pool b := (h.pool b).congr (hsame.zone b) (hsame.count b) (hsame.blockedUntil b)

/-- Something new is stored to a context. -/
theorem stored (h : Told site t r) (ht : t ≤ now) {f : ReqCtx ζ → ReqCtx ζ}
    (hfz : ∀ c, (f c).zone = c.zone) (hfk : ∀ c, (f c).key = c.key)
    (hctx : (f (r.pool a)).Told site now) : Told site now (r.onCtx a f) := by
  refine ⟨h.nonneg.trans ht, fun b hb => ?_, (h.mono ht).zones, fun b => ?_⟩
  · by_cases hba : b = a
    · subst hba
      rw [Exchange.pool_onCtx_self, hfz] at hb
      rw [Exchange.pool_onCtx_self, hfk]
      exact h.digested b hb
    · rw [Exchange.pool_onCtx_of_ne hba] at hb ⊢
      exact h.digested b hb
  · by_cases hba : b = a
    · subst hba
      rw [Exchange.pool_onCtx_self]
      exact hctx
    · rw [Exchange.pool_onCtx_of_ne hba]
      exact (h.mono ht).pool b

/-- A context changes in other ways. -/
theorem onCtx (h : Told site t r) (a : ℕ) (f : ReqCtx ζ → ReqCtx ζ)
    (hzone : ∀ c, (f c).zone = c.zone) (hkey : ∀ c, (f c).key = c.key)
    (hcount : ∀ c, (f c).count = c.count) (hdeadline : ∀ c, (f c).blockedUntil = c.blockedUntil) :
    Told site t (r.onCtx a f) := h.same (.onCtx r a hzone hkey hcount hdeadline)

theorem of_pool (h : Told site t r) (hpool : r'.pool = r.pool) (hshctx : r'.shctx = r.shctx) :
    Told site t r' := h.same (.of_pool hpool hshctx)

/-- A call on the zone of a context, whose report is stored there. -/
theorem called [DecidableEq ζ] (h : Told site t r) (hzone : (r.pool a).zone = some zone) (c : Call)
    (ht : t ≤ c.now) (acts : List (Act ζ)) :
    Told site c.now (({ r with
      shctx := Function.update r.shctx zone
        (c.exec site.core (site.zones zone) (r.shctx zone)).1
      acts := acts } : Exchange ζ).onCtx a fun ctx =>
        ctx.store (c.exec site.core (site.zones zone) (r.shctx zone)).2.out) := by
  have h0 := h.nonneg.trans ht
  have hok := exec_zoneOk (h.zones zone) c ht h0
  have hout : ∀ {count deadline}, (c.exec site.core (site.zones zone) (r.shctx zone)).2.out =
      some (count, deadline) → count ≤ (site.zones zone).threshold ∧
        deadline ≤ c.now + (site.zones zone).block := exec_out_le (h.zones zone) c ht h0
  generalize c.exec site.core (site.zones zone) (r.shctx zone) = result at hok hout
  have hzones : Told site c.now { r with
      shctx := Function.update r.shctx zone result.1, acts := acts } := by
    refine ⟨h0, h.digested, fun zone' => ?_, (h.mono ht).pool⟩
    by_cases hz : zone' = zone
    · subst hz
      simpa only [Function.update_self] using hok
    · simpa only [Function.update_of_ne hz] using (h.zones zone').mono ht
  cases hres : result.2.out with
  | none =>
      exact hzones.onCtx a (fun ctx => ctx.store none) (fun _ => rfl) (fun _ => rfl) (fun _ => rfl)
        fun _ => rfl
  | some out =>
      obtain ⟨hcount, hdeadline⟩ := hout hres
      exact hzones.stored (f := fun ctx => ctx.store (some out)) le_rfl (fun _ => rfl)
        (fun _ => rfl) (.of_zone hzone hcount hdeadline)

theorem prepared (h : Told site t r) {found : Option ℕ} (hp : Prepared site v r r' found) :
    Told site t r' := by
  have hd := h.digested.prepared hp
  cases hp with
  | attached _ _ => exact h
  | restored a _ _ =>
      have hctx := h.onCtx a (fun c => { c with fromAnchor := true }) (fun _ => rfl)
        (fun _ => rfl) (fun _ => rfl) fun _ => rfl
      exact hctx.of_pool rfl rfl
  | none _ _ _ => exact h
  | built zone key _ c cleanup _ _ _ _ _ hbuilt =>
      have hzero : c.count = 0 ∧ c.blockedUntil = 0 := by cases hbuilt <;> exact ⟨rfl, rfl⟩
      refine ⟨h.nonneg, hd, h.zones, fun b => ?_⟩
      by_cases hbn : b = r.next
      · have h0 := h.nonneg
        simp only [hbn, Function.update_self]
        refine ⟨fun zone' _ => ?_, fun zone' _ => ?_, fun _ => hzero⟩
        · rw [hzero.1]
          exact Nat.zero_le _
        · have hblock := (site.zones zone').block_pos
          rw [hzero.2]
          omega
      · simp only [Function.update_of_ne hbn]
        exact h.pool b

theorem asked (h : Told site t r) {b : Bool} (ha : Asked site zone a r r' b) : Told site t r' := by
  cases ha with
  | pending _ => exact h
  | skipped events block worker _ _ =>
      have hctx := h.onCtx a (fun c => c.asked events block false true) (fun _ => rfl)
        (fun _ => rfl) (fun _ => rfl) fun _ => rfl
      exact hctx.of_pool rfl rfl
  | queued events block _ _ _ =>
      have hctx := h.onCtx a (fun c => c.asked events block true c.redisChecked) (fun _ => rfl)
        (fun _ => rfl) (fun _ => rfl) fun _ => rfl
      exact hctx.of_pool rfl rfl

theorem enforce (h : Told site t r) (a : ℕ) : Told site t (enforce a r).1 := by
  rw [ErrorAbuse.enforce]
  split_ifs
  · exact h.onCtx a (fun c => { c with state := .dryRun }) (fun _ => rfl) (fun _ => rfl)
      (fun _ => rfl) fun _ => rfl
  · have hctx := h.onCtx a (fun c => { c with state := .blocked, ownRejection := true })
      (fun _ => rfl) (fun _ => rfl) (fun _ => rfl) fun _ => rfl
    exact hctx.of_pool rfl rfl

section

variable [DecidableEq ζ]

theorem checkLocal (h : Told site t r) (hzone : (r.pool a).zone = some zone) (ht : t ≤ v.now) :
    Told site v.now (checkLocal site v zone a r).1 := by
  obtain ⟨key, hkey⟩ := h.digested a (by rw [hzone]; rfl)
  have hcalled := h.called hzone (.isBlocked key v.now) ht (.isBlocked zone key v.now :: r.acts)
  rw [ErrorAbuse.checkLocal, hkey]
  split_ifs
  · exact hcalled.enforce a
  · exact hcalled

theorem checkBan (h : Told site t r) (hzone : (r.pool a).zone = some zone) (ht : t ≤ v.now) :
    Told site v.now (checkBan site v zone a r).1 := by
  rw [ErrorAbuse.checkBan]
  split_ifs
  · refine (h.stored ht (f := fun c => { c with count := (site.zones zone).threshold })
      (fun _ => rfl) (fun _ => rfl) (.of_zone hzone le_rfl ?_)).enforce a
    exact ((h.pool a).mono ht).deadline_le zone hzone
  · exact h.checkLocal hzone ht

theorem checkZone (h : Told site t r) (hzone : (r.pool a).zone = some zone) (ht : t ≤ v.now) :
    Told site v.now (checkZone site v zone a r).1 := by
  rw [ErrorAbuse.checkZone]
  split_ifs
  · have hasked := redisCheck_asked site v zone a r
    rcases hr₁ : r.redisCheck site v zone a with ⟨r₁, b⟩
    rw [hr₁] at hasked
    cases b with
    | true => exact (h.mono ht).asked hasked
    | false => exact (h.asked hasked).checkBan (hasked.within.zone.trans hzone) ht
  · exact h.checkBan hzone ht

theorem preaccess (h : Told site t r) (ht : t ≤ v.now) : Told site v.now (preaccess site v r).1 := by
  rw [ErrorAbuse.preaccess]
  split_ifs
  · exact h.mono ht
  · rcases hp : prepareCtx site v r with ⟨r₁, found⟩
    have h₁ := h.prepared (prepared_of_eq hp)
    cases found with
    | none => exact h₁.mono ht
    | some a =>
        cases hzone : (r₁.pool a).zone with
        | none =>
            simp only [hzone]
            exact h₁.mono ht
        | some zone =>
            simp only [hzone]
            exact h₁.checkZone hzone ht

omit [DecidableEq ζ] in
theorem redisRecord (h : Told site t r) (v : Visit) (zone : ζ) (a : ℕ) :
    Told site t (r.redisRecord site v zone a) := by
  obtain ⟨events, block, -, hstate, -⟩ :=
    redisKeys_effect site v zone a (r.note (.redisRecord zone (r.pool a).key v.now))
  have hnoted : Told site t (r.note (.redisRecord zone (r.pool a).key v.now)) :=
    h.of_pool rfl rfl
  rw [Exchange.redisRecord]
  split_ifs
  · exact hnoted
  · rcases hr₁ : redisKeys site v zone a (r.note (.redisRecord zone (r.pool a).key v.now)) with
      ⟨r₁, keys⟩
    rw [hr₁] at hstate
    have h₁ : Told site t r₁ := by
      obtain rfl : r₁ = _ := hstate
      exact hnoted.onCtx a (fun c => { c with redisEvents := events, redisBlock := block })
        (fun _ => rfl) (fun _ => rfl) (fun _ => rfl) fun _ => rfl
    cases keys with
    | none => exact h₁
    | some keys => exact h₁.of_pool rfl rfl

theorem countEvent (h : Told site t r) (hzone : (r.pool a).zone = some zone) (ht : t ≤ v.now)
    (out : HeadersOut) : Told site v.now (countEvent site v zone a out r).1 := by
  obtain ⟨key, hkey⟩ := h.digested a (by rw [hzone]; rfl)
  have hcalled := h.called hzone (.record key v.now v.slab) ht (.record zone key v.now :: r.acts)
  rw [Call.exec] at hcalled
  rw [ErrorAbuse.countEvent, hkey]
  generalize record site.core (site.zones zone) key v.now v.slab (r.shctx zone) = result at hcalled ⊢
  set r₁ := ({ r with shctx := Function.update r.shctx zone result.1 }.note
    (.record zone key v.now)).onCtx a fun c => c.store result.2.out
  have hcounted : Told site v.now
      (if (site.zones zone).redis then r₁.redisRecord site v zone a else r₁) := by
    split_ifs
    · exact Told.redisRecord hcalled v zone a
    · exact hcalled
  generalize (if (site.zones zone).redis then r₁.redisRecord site v zone a else r₁) = r₂ at hcounted
  cases result.2.rc with
  | error =>
      simp only
      split_ifs
      · have hctx := hcounted.onCtx a
          (fun c => { c with state := .blocked, ownRejection := true, responseSeen := false })
          (fun _ => rfl) (fun _ => rfl) (fun _ => rfl) fun _ => rfl
        exact hctx.of_pool rfl rfl
      · exact hcounted
  | busy =>
      exact hcounted.onCtx a (fun c => { c with state := .blocked }) (fun _ => rfl) (fun _ => rfl)
        (fun _ => rfl) fun _ => rfl
  | _ =>
      exact hcounted.onCtx a (fun c => { c with state := .counted }) (fun _ => rfl) (fun _ => rfl)
        (fun _ => rfl) fun _ => rfl

omit [DecidableEq ζ] in
theorem observe (h : Told site t r) (hzone : (r.pool a).zone = some zone) (ht : t ≤ v.now) :
    Told site v.now (observe site v zone a r) := by
  obtain ⟨key, hkey⟩ := h.digested a (by rw [hzone]; rfl)
  have hpeek := peek_le (h.zones zone) ht (h.nonneg.trans ht) key
  have hnoted : Told site t (r.note (.peek zone key v.now)) := h.of_pool rfl rfl
  rw [ErrorAbuse.observe, hkey]
  exact hnoted.stored ht (fun _ => rfl) (fun _ => rfl) (.of_zone hzone hpeek.1 hpeek.2)

theorem filterZone (h : Told site t r) (hzone : (r.pool a).zone = some zone) (ht : t ≤ v.now)
    (out : HeadersOut) : Told site v.now (filterZone site v zone a out r).1 := by
  have hseen : Told site t (r.onCtx a fun c => { c with
      responseSeen := true, dryRun := if c.fromAnchor then c.dryRun else r.loc.dryRun }) :=
    h.onCtx a _ (fun _ => rfl) (fun _ => rfl) (fun _ => rfl) fun _ => rfl
  have hzone' : ((r.onCtx a fun c => { c with
      responseSeen := true
      dryRun := if c.fromAnchor then c.dryRun else r.loc.dryRun }).pool a).zone = some zone := by
    rw [Exchange.pool_onCtx_self]
    exact hzone
  rw [ErrorAbuse.filterZone]
  generalize (r.onCtx a fun c => { c with
    responseSeen := true, dryRun := if c.fromAnchor then c.dryRun else r.loc.dryRun }) = r₁
    at hseen hzone'
  split_ifs
  · split <;> exact hseen.mono ht
  · exact hseen.mono ht
  · exact hseen.mono ht
  · exact hseen.observe hzone' ht
  · exact hseen.countEvent hzone' ht out

theorem headerFilter (h : Told site t r) (ht : t ≤ v.now) (out : HeadersOut) :
    Told site v.now (headerFilter site v out r).1 := by
  rw [ErrorAbuse.headerFilter]
  split_ifs
  · exact h.mono ht
  · rcases hp : prepareCtx site v r with ⟨r₁, found⟩
    have h₁ := h.prepared (prepared_of_eq hp)
    cases found with
    | none => exact h₁.mono ht
    | some a =>
        cases hzone : (r₁.pool a).zone with
        | none =>
            simp only [hzone]
            exact h₁.mono ht
        | some zone =>
            simp only [hzone]
            split_ifs
            · exact h₁.mono ht
            · exact h₁.filterZone hzone ht out

omit [DecidableEq ζ] in
theorem redisCheckCallback (h : Told site t r) (ht : t ≤ now) (reply : Option Reply) :
    Told site now (r.redisCheckCallback site now reply) := by
  rw [Exchange.redisCheckCallback]
  split
  · exact (h.mono ht).of_pool rfl rfl
  · next a _ =>
      have hstored : Told site now (r.onCtx a (ReqCtx.replied site now reply)) :=
        h.stored ht (fun c => (c.replied_zone site now reply).1)
          (fun c => (c.replied_zone site now reply).2) ((h.pool a).replied ht reply)
      exact hstored.of_pool rfl rfl

/-- A turn of the request itself, at the time that its clock reads, if it reads one. -/
theorem turnStep (h : Told site t r) (turn : OwnTurn ζ) (ht : ∀ n ∈ turn.turn.time, t ≤ n) :
    Told site (turn.turn.time.getD t) (turnStep site r turn.turn) := by
  obtain ⟨turn, hown⟩ := turn
  cases turn with
  | preaccess v => exact h.preaccess (ht v.now rfl)
  | headerFilter v out => exact h.headerFilter (ht v.now rfl) out
  | reply now reply =>
      simp only [ErrorAbuse.turnStep]
      split_ifs
      · exact h.mono (ht now rfl)
      · exact h.redisCheckCallback (ht now rfl) reply
  | others shctx worker => simp [Turn.isOwn] at hown
  | _ => exact h.of_pool rfl rfl

omit [DecidableEq ζ] in
/-- Another request has its turn. -/
theorem others (h : Told site t r) (ht : t ≤ now) (h' : Told site now r') (worker : Worker) :
    Told site now { r with shctx := r'.shctx, worker := worker } :=
  ⟨h'.nonneg, h.digested, h'.zones, (h.mono ht).pool⟩

end

end Told

/-- A response is handed on as it is, or marked by the context that has rejected the request. -/
theorem headerFilter_next [DecidableEq ζ] {out out' : HeadersOut}
    (h : (headerFilter site v out r).2 = .next out') :
    out' = out ∨ ∃ a zone, (prepareCtx site v r).2 = some a ∧
      ((prepareCtx site v r).1.pool a).zone = some zone ∧
      out' = out.private
        (retryAfter out.status ((prepareCtx site v r).1.pool a).blockedUntil v.now) := by
  have hf := headerFilter_headerFiltered site v out r
  generalize (headerFilter site v out r).1 = r' at hf
  generalize (headerFilter site v out r).2 = rc at h hf
  subst h
  generalize hrc : FilterRc.next out' = rc at hf
  have hsame : rc = .next out → out' = out := fun h => FilterRc.next.inj (hrc.trans h)
  cases hf with
  | zoned r₁ _ a zone _ _ hp hzone _ hfiltered =>
      cases hfiltered with
      | own _ _ hadd =>
          cases hheaders : addRejectHeaders v (r₁.pool a).blockedUntil out with
          | none =>
              rw [hheaders] at hadd
              cases hrc.trans hadd
          | some marked =>
              rw [hheaders] at hadd
              obtain rfl := FilterRc.next.inj (hrc.trans hadd)
              rw [hp]
              exact .inr ⟨a, zone, rfl, hzone, addRejectHeaders_eq hheaders⟩
      | full => cases hrc
      | _ => exact .inl (hsame rfl)
  | _ => exact .inl (hsame rfl)

/-- `Retry-After` is never longer than the `block` of the zone that the request was rejected for. -/
theorem Told.retryAfter_le [DecidableEq ζ] (h : Told site t r) (ht : t ≤ v.now)
    {out out' : HeadersOut} (hsent : (ErrorAbuse.headerFilter site v out r).2 = .next out') :
    out' = out ∨ ∃ a zone retry, (prepareCtx site v r).2 = some a ∧
      ((prepareCtx site v r).1.pool a).zone = some zone ∧ out' = out.private retry ∧
      ∀ n ∈ retry, 1 ≤ n ∧ n ≤ (site.zones zone).block := by
  rcases headerFilter_next hsent with hsame | ⟨a, zone, hfound, hzone, hout⟩
  · exact .inl hsame
  · refine .inr ⟨a, zone, _, hfound, hzone, hout, fun n hn => ?_⟩
    have hdeadline := ((h.prepared (prepareCtx_prepared site v r)).pool a).deadline_le zone hzone
    rw [retryAfter] at hn
    split_ifs at hn with hlate
    · obtain rfl := Option.some.inj hn
      omega
    · cases hn

/-! ## On a server -/

def Serving.time {ι ω : Type} : Serving ι ω ζ → Option ℤ
  | request _ turn => turn.turn.time
  | redis .. => none

section server

variable {ι ω : Type} [DecidableEq ι] [DecidableEq ω] [DecidableEq ζ] {owner : ι → ω}
  {sv : Server ι ω ζ}

theorem told_serve (h : ∀ i, Told site t (sv.view owner i)) (e : Serving ι ω ζ)
    (ht : ∀ n ∈ e.time, t ≤ n) (i : ι) :
    Told site (e.time.getD t) ((Server.serve site owner sv e).view owner i) := by
  have hle : t ≤ e.time.getD t := by
    cases htime : e.time with
    | none => exact le_rfl
    | some n => exact ht n htime
  cases e with
  | request j turn =>
      have hj := (h j).turnStep turn ht
      by_cases hji : j = i
      · subst hji
        exact hj.of_pool (by simp [Server.view, Server.serve]) rfl
      · have hi := (h i).others hle hj (sv.workers (owner i))
        refine hi.of_pool ?_ rfl
        simp [Server.view, Server.serve, Function.update_of_ne (Ne.symm hji)]
  | redis worker state => exact (h i).of_pool rfl rfl

omit [DecidableEq ι] [DecidableEq ω] [DecidableEq ζ] in
theorem told_start (owner : ι → ω) (loc : ι → LocConf ζ) {shctx : ζ → Shctx} (workers : ω → Worker)
    (h0 : 0 ≤ t) (hzones : ∀ zone, ZoneOk site.core (site.zones zone) t (shctx zone)) (i : ι) :
    Told site t ((Server.start owner loc shctx workers).view owner i) :=
  ⟨h0, .start (loc i) shctx (workers (owner i)), hzones, fun _ => .zeroed site t⟩

theorem told_run (h : ∀ i, Told site t (sv.view owner i)) {es : List (Serving ι ω ζ)}
    (hclock : Clocked id t (es.filterMap Serving.time)) (i : ι) :
    Told site (lastTime id t (es.filterMap Serving.time))
      ((run (Server.serve site owner) sv es).view owner i) :=
  run_timed_invariant (fun t (sv : Server ι ω ζ) => ∀ i, Told site t (sv.view owner i)) Serving.time
    (fun _ _ e h ht i => told_serve h e ht i) h hclock i

end server

/-! ## Variables -/

/-- A value as the variables of the context of a request show it: of the context that is attached to
the request, and 0 without one. -/
def attached {β : Type} [Zero β] (f : ReqCtx ζ → β) (r : Exchange ζ) : β :=
  (r.ctx.map fun a => f (r.pool a)).getD 0

/-- `$error_abuse_count`, if there is memory for its text. -/
def variableCount (room : Bool) (r : Exchange ζ) : Option String :=
  if room then some (toString (attached ReqCtx.count r)) else none

/-- `$error_abuse_blocked_until`, likewise. -/
def variableBlockedUntil (room : Bool) (r : Exchange ζ) : Option String :=
  if room then some (toString (attached ReqCtx.blockedUntil r)) else none

/-- **Nobody is told of more than there can be.** In every run of a server whose clocks do not run
backwards, whatever Redis answers: for a request with a zone the count is within the threshold and
the end of the ban at most `block` away, and for any other both are 0; a response is left as it is,
or marked as private, with a `Retry-After` between 1 and `block` if at all. -/
theorem told_within_bounds {ι ω : Type} [DecidableEq ι] [DecidableEq ω] [DecidableEq ζ]
    (site : Site ζ) (owner : ι → ω) (loc : ι → LocConf ζ) (shctx : ζ → Shctx) (workers : ω → Worker)
    (t : ℤ) (es : List (Serving ι ω ζ)) (i : ι) :
    let r := (run (Server.serve site owner) (.start owner loc shctx workers) es).view owner i
    let now := lastTime id t (es.filterMap Serving.time)
    0 ≤ t → (∀ zone, ZoneOk site.core (site.zones zone) t (shctx zone)) →
    Clocked id t (es.filterMap Serving.time) →
    (∃ (count : ℕ) (deadline : ℤ), variableCount true r = some (toString count) ∧
      variableBlockedUntil true r = some (toString deadline) ∧
      (∀ a zone, r.ctx = some a → (r.pool a).zone = some zone →
        count ≤ (site.zones zone).threshold ∧ deadline ≤ now + (site.zones zone).block) ∧
      ((∀ a, r.ctx = some a → (r.pool a).zone = none) → count = 0 ∧ deadline = 0)) ∧
    ∀ (v : Visit) (out out' : HeadersOut), now ≤ v.now → (headerFilter site v out r).2 = .next out' →
      out' = out ∨ ∃ a zone retry, (prepareCtx site v r).2 = some a ∧
        ((prepareCtx site v r).1.pool a).zone = some zone ∧ out' = out.private retry ∧
        ∀ n ∈ retry, 1 ≤ n ∧ n ≤ (site.zones zone).block := by
  intro r now h0 hzones hclock
  have h : Told site now r := told_run (told_start owner loc workers h0 hzones) hclock i
  refine ⟨⟨attached ReqCtx.count r, attached ReqCtx.blockedUntil r, rfl, rfl, ?_, ?_⟩,
    fun v out out' hlate hsent => h.retryAfter_le hlate hsent⟩
  · intro a zone hctx hzone
    simp only [attached, hctx, Option.map_some, Option.getD_some]
    exact ⟨(h.pool a).count_le zone hzone, (h.pool a).deadline_le zone hzone⟩
  · intro hunzoned
    cases hctx : r.ctx with
    | none => simp [attached, hctx]
    | some a =>
        simp only [attached, hctx, Option.map_some, Option.getD_some]
        exact (h.pool a).unzoned (hunzoned a hctx)

/-- Two tracked responses to a client, and its third request is turned away. -/
theorem told_within_bounds_third :
    let site := Site.single .tracking
    let es := Server.twoNotFound ++ [.request 2 ⟨.preaccess (.roomy 3 12288), rfl⟩]
    let r := (run (Server.serve site id) (.start id (fun _ => .on) (fun _ => .empty)
      fun _ => .zeroed 0) es).view id 2
    (variableCount true r = some "2" ∧ variableBlockedUntil true r = some "22") ∧
    (∃ (count : ℕ) (deadline : ℤ), variableCount true r = some (toString count) ∧
      variableBlockedUntil true r = some (toString deadline) ∧
      (∀ a zone, r.ctx = some a → (r.pool a).zone = some zone →
        count ≤ (site.zones zone).threshold ∧ deadline ≤ 3 + (site.zones zone).block) ∧
      ((∀ a, r.ctx = some a → (r.pool a).zone = none) → count = 0 ∧ deadline = 0)) ∧
    ∀ (v : Visit) (out out' : HeadersOut), 3 ≤ v.now → (headerFilter site v out r).2 = .next out' →
      out' = out ∨ ∃ a zone retry, (prepareCtx site v r).2 = some a ∧
        ((prepareCtx site v r).1.pool a).zone = some zone ∧ out' = out.private retry ∧
        ∀ n ∈ retry, 1 ≤ n ∧ n ≤ (site.zones zone).block := by
  intro site es r
  refine ⟨by decide +kernel, ?_⟩
  exact told_within_bounds site id (fun _ => .on) (fun _ => .empty) (fun _ => .zeroed 0) 0 es 2
    le_rfl (fun _ => zoneOk_empty ..) (by decide +kernel)

end ErrorAbuse
