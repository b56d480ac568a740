import ErrorAbuse.Request.Asking
import ErrorAbuse.Server.Serving

/-!
# What a turn sends to Redis

A turn of a request queues at most one command: `preaccess` a `GET`, the header filter an
`EVALSHA`. Either is about the identity of a context that the request will never lose, and an
`EVALSHA` carries the next sequence number of the worker.
-/

namespace ErrorAbuse

open Lib

variable {ζ : Type} {site : Site ζ} {v : Visit} {zone : ζ} {r r' : Exchange ζ} {a : ℕ}

/-- The command that an act hands to hiredis. -/
def Act.command : Act ζ → Option Command
  | get block => some (.get block)
  | evalsha args => some (.evalsha args)
  | _ => none

/-- The commands of some acts. -/
def commands (acts : List (Act ζ)) : List Command := acts.filterMap Act.command

@[simp] theorem commands_nil : commands ([] : List (Act ζ)) = [] := rfl
@[simp] theorem commands_append (acts acts' : List (Act ζ)) :
    commands (acts ++ acts') = commands acts ++ commands acts' := List.filterMap_append ..

def Command.isEvalsha : Command → Bool
  | evalsha _ => true
  | _ => false

/-! ## Numbers -/

/-- What numbers the commands of a worker. -/
def Worker.counter (w : Worker) : ℕ × ℕ := (w.nonce, w.sequence)

theorem counter_redisRecordFailure (conf : RedisConf) (now : ℤ) (w : Worker) :
    (redisRecordFailure conf now w).counter = w.counter := by
  unfold redisRecordFailure
  dsimp only
  split_ifs <;> rfl

theorem counter_replied (conf : RedisConf) (now : ℤ) (reply : Option Reply) (w : Worker) :
    (w.replied conf now reply).counter = w.counter := by
  unfold Worker.replied
  split
  · rfl
  · rfl
  · exact counter_redisRecordFailure conf now w

theorem counter_nextSequence {conf : RedisConf} {w w' : Worker} (h : w.counter = w'.counter) :
    (nextSequence conf w).counter = (nextSequence conf w').counter := by
  obtain ⟨hnonce, hseq⟩ := Prod.mk.inj h
  simp only [Worker.counter, nextSequence, hnonce, hseq]

theorem recordArgs_congr {w w' : Worker} (h : w.counter = w'.counter) (conf : ZoneConf)
    (events block : List UInt8) :
    recordArgs conf w events block = recordArgs conf w' events block := by
  obtain ⟨hnonce, hseq⟩ := Prod.mk.inj h
  simp only [recordArgs, hnonce, hseq]

/-- The worker once it has queued a command, as far as numbers go. -/
def Worker.numbered (conf : RedisConf) (w : Worker) : Option Command → Worker
  | some (.evalsha _) => nextSequence conf w
  | _ => w

theorem counter_numbered {conf : RedisConf} {w w' : Worker} (h : w.counter = w'.counter)
    (cmd : Option Command) : (w.numbered conf cmd).counter = (w'.numbered conf cmd).counter := by
  rcases cmd with _ | cmd
  · exact h
  · cases cmd with
    | evalsha args => exact counter_nextSequence h
    | _ => exact h

/-! ## Identities -/

/-- A context of the request has this zone and this key. -/
def Serves (r : Exchange ζ) (zone : ζ) (key : Key) : Prop :=
  ∃ a, (r.pool a).zone = some zone ∧ (r.pool a).key = key

/-- No context with a zone loses its identity. -/
def Persists (r r' : Exchange ζ) : Prop :=
  ∀ a zone, (r.pool a).zone = some zone →
    (r'.pool a).zone = some zone ∧ (r'.pool a).key = (r.pool a).key

theorem Persists.trans {r₁ r₂ r₃ : Exchange ζ} (h : Persists r₁ r₂) (h' : Persists r₂ r₃) :
    Persists r₁ r₃ := by
  intro a zone hzone
  obtain ⟨hzone₂, hkey₂⟩ := h a zone hzone
  obtain ⟨hzone₃, hkey₃⟩ := h' a zone hzone₂
  exact ⟨hzone₃, hkey₃.trans hkey₂⟩

theorem Persists.of_pool (h : r'.pool = r.pool) : Persists r r' := by
  intro a zone hzone
  rw [h]
  exact ⟨hzone, rfl⟩

theorem Within.persists (h : Within a r r') : Persists r r' := by
  intro b zone hzone
  by_cases hba : b = a
  · subst hba
    exact ⟨h.zone.trans hzone, h.key⟩
  · rw [h.other b hba]
    exact ⟨hzone, rfl⟩

theorem Serves.persist {key : Key} (h : Serves r zone key) (hp : Persists r r') :
    Serves r' zone key := by
  obtain ⟨a, hzone, hkey⟩ := h
  obtain ⟨hzone', hkey'⟩ := hp a zone hzone
  exact ⟨a, hzone', hkey'.trans hkey⟩

/-- The keys that a context has built are those of its identity. -/
def Keyed (site : Site ζ) (r : Exchange ζ) : Prop :=
  ∀ a zone, (r.pool a).zone = some zone → (r.pool a).redisBlock = [] ∨
    (⟨(r.pool a).redisEvents, (r.pool a).redisBlock⟩ : RedisKeys) =
      buildRedisKeys site.redis (site.zones zone) (r.pool a).key

namespace Keyed

theorem of_pool (h : Keyed site r) (hpool : r'.pool = r.pool) : Keyed site r' := by
  intro a zone hzone
  rw [hpool] at hzone ⊢
  exact h a zone hzone

/-- The keys that are used for a context are those of its identity. -/
theorem keysFor (h : Keyed site r) (hzone : (r.pool a).zone = some zone)
    {events block : List UInt8} (hfor : KeysFor site zone (r.pool a) events block)
    (hne : block ≠ []) :
    (⟨events, block⟩ : RedisKeys) = buildRedisKeys site.redis (site.zones zone) (r.pool a).key := by
  rcases hfor with ⟨rfl, rfl⟩ | hbuilt
  · exact (h a zone hzone).resolve_left hne
  · exact hbuilt

/-- Work on a context that stores no other keys to it. -/
theorem within (h : Keyed site r) (hw : Within a r r')
    (hkeys : (r'.pool a).redisEvents = (r.pool a).redisEvents ∧
      (r'.pool a).redisBlock = (r.pool a).redisBlock) : Keyed site r' := by
  intro b zone hzone
  by_cases hba : b = a
  · subst hba
    rw [hw.zone] at hzone
    rw [hkeys.1, hkeys.2, hw.key]
    exact h b zone hzone
  · rw [hw.other b hba] at hzone ⊢
    exact h b zone hzone

theorem onCtx (h : Keyed site r) {f : ReqCtx ζ → ReqCtx ζ} (hzone : ∀ c, (f c).zone = c.zone)
    (hkey : ∀ c, (f c).key = c.key) (hevents : ∀ c, (f c).redisEvents = c.redisEvents)
    (hblock : ∀ c, (f c).redisBlock = c.redisBlock) : Keyed site (r.onCtx a f) := by
  intro b z hz
  by_cases hba : b = a
  · subst hba
    rw [Exchange.pool_onCtx_self] at hz ⊢
    rw [hevents, hblock, hkey]
    exact h b z ((hzone _).symm.trans hz)
  · rw [Exchange.pool_onCtx_of_ne hba] at hz ⊢
    exact h b z hz

/-- The keys are stored to the context. -/
theorem keyed (h : Keyed site r) (hzone : (r.pool a).zone = some zone) {events block : List UInt8}
    (hfor : KeysFor site zone (r.pool a) events block) {f : ReqCtx ζ → ReqCtx ζ}
    (hfz : ∀ c, (f c).zone = c.zone) (hfk : ∀ c, (f c).key = c.key)
    (hevents : ∀ c, (f c).redisEvents = events) (hblock : ∀ c, (f c).redisBlock = block) :
    Keyed site (r.onCtx a f) := by
  intro b z hz
  by_cases hba : b = a
  · subst hba
    rw [Exchange.pool_onCtx_self] at hz ⊢
    obtain rfl := Option.some.inj (hzone.symm.trans ((hfz _).symm.trans hz))
    rw [hevents, hblock, hfk]
    by_cases hne : block = []
    · exact .inl hne
    · exact .inr (h.keysFor hzone hfor hne)
  · rw [Exchange.pool_onCtx_of_ne hba] at hz ⊢
    exact h b z hz

end Keyed

/-! ## Sending -/

/-- A command about an identity, queued by a worker. -/
def Command.About (site : Site ζ) (zone : ζ) (key : Key) (w : Worker) (cmd : Command) : Prop :=
  let keys := buildRedisKeys site.redis (site.zones zone) key
  cmd = .get keys.block ∨
    cmd = .evalsha (recordArgs (site.zones zone) (nextSequence site.redis w) keys.events keys.block)

/-- What a turn, or a part of it, has sent to Redis. -/
structure Sends (site : Site ζ) (r r' : Exchange ζ) (cmd : Option Command) : Prop where
  persists : Persists r r'
  keyed : Keyed site r'
  logged : ∃ new, r'.acts = new ++ r.acts ∧ commands new = cmd.toList ∧
    (commands new).countP Command.isEvalsha ≤ new.countP Act.isRedisRecord
  counter : r'.worker.counter = (r.worker.numbered site.redis cmd).counter
  about : ∀ c ∈ cmd, ∃ zone key, Serves r' zone key ∧ c.About site zone key r.worker

namespace Sends

variable {r₁ r₂ r₃ : Exchange ζ} {cmd : Option Command}

/-- Nothing is sent. -/
theorem quiet (hpersists : Persists r r') (hkeyed : Keyed site r')
    (hlog : Logs (fun act => act.command = none) r r')
    (hcounter : r'.worker.counter = r.worker.counter) : Sends site r r' none := by
  obtain ⟨new, hacts, hnew⟩ := hlog
  have hnone : commands new = [] := List.filterMap_eq_nil_iff.mpr hnew
  refine ⟨hpersists, hkeyed, ⟨new, hacts, hnone, ?_⟩, hcounter, fun _ h => nomatch h⟩
  rw [hnone]
  exact Nat.zero_le _

theorem refl (h : Keyed site r) : Sends site r r none :=
  quiet (.of_pool rfl) h (.of_eq rfl) rfl

theorem then_quiet (h : Sends site r₁ r₂ cmd) (h' : Sends site r₂ r₃ none) :
    Sends site r₁ r₃ cmd := by
  obtain ⟨new, hacts, hcmd, hcount⟩ := h.logged
  obtain ⟨new', hacts', hcmd', hcount'⟩ := h'.logged
  refine ⟨h.persists.trans h'.persists, h'.keyed, ⟨new' ++ new, ?_, ?_, ?_⟩,
    h'.counter.trans h.counter, fun c hc => ?_⟩
  · rw [hacts', hacts, List.append_assoc]
  · rw [commands_append, hcmd', hcmd]
    rfl
  · rw [commands_append, List.countP_append, List.countP_append]
    exact Nat.add_le_add hcount' hcount
  · obtain ⟨zone, key, hserves, habout⟩ := h.about c hc
    exact ⟨zone, key, hserves.persist h'.persists, habout⟩

theorem after_quiet (h : Sends site r₁ r₂ none) (h' : Sends site r₂ r₃ cmd) :
    Sends site r₁ r₃ cmd := by
  obtain ⟨new, hacts, hcmd, hcount⟩ := h.logged
  obtain ⟨new', hacts', hcmd', hcount'⟩ := h'.logged
  have hcounter : r₂.worker.counter = r₁.worker.counter := h.counter
  refine ⟨h.persists.trans h'.persists, h'.keyed, ⟨new' ++ new, ?_, ?_, ?_⟩,
    h'.counter.trans (counter_numbered hcounter cmd), fun c hc => ?_⟩
  · rw [hacts', hacts, List.append_assoc]
  · rw [commands_append, hcmd', hcmd]
    exact List.append_nil _
  · rw [commands_append, List.countP_append, List.countP_append]
    exact Nat.add_le_add hcount' hcount
  · obtain ⟨zone, key, hserves, habout⟩ := h'.about c hc
    refine ⟨zone, key, hserves, ?_⟩
    rw [Command.About, recordArgs_congr (counter_nextSequence hcounter)] at habout
    exact habout

end Sends

theorem Keyed.quiet_onCtx (h : Keyed site r) {f : ReqCtx ζ → ReqCtx ζ}
    (hzone : ∀ c, (f c).zone = c.zone) (hkey : ∀ c, (f c).key = c.key)
    (hevents : ∀ c, (f c).redisEvents = c.redisEvents)
    (hblock : ∀ c, (f c).redisBlock = c.redisBlock)
    (hfrom : ∀ c, (f c).fromAnchor = c.fromAnchor) : Sends site r (r.onCtx a f) none :=
  .quiet (within_onCtx hzone hkey hfrom).persists (h.onCtx hzone hkey hevents hblock) (.of_eq rfl) rfl

/-! ## What the handlers send -/

theorem Prepared.sends {found : Option ℕ} (h : Prepared site v r r' found) (hanchored : Anchored r)
    (hkeyed : Keyed site r) : Sends site r r' Option.none := by
  have hlog : Logs (fun act => act.command = Option.none) r r' := h.logs fun _ _ => rfl
  cases h with
  | attached _ _ => exact .refl hkeyed
  | restored a _ _ =>
      have hpool : Sends site r (r.onCtx a fun c => { c with fromAnchor := true }) Option.none := by
        refine .quiet ?_ (hkeyed.onCtx (fun _ => rfl) (fun _ => rfl) (fun _ => rfl) fun _ => rfl)
          (.of_eq rfl) rfl
        intro b zone hzone
        by_cases hba : b = a
        · subst hba
          rw [Exchange.pool_onCtx_self]
          exact ⟨hzone, rfl⟩
        · rw [Exchange.pool_onCtx_of_ne hba]
          exact ⟨hzone, rfl⟩
      exact .quiet hpool.persists (hpool.keyed.of_pool rfl) hlog rfl
  | none _ _ _ => exact .refl hkeyed
  | built zone key _ c cleanup _ _ _ _ _ hbuilt =>
      have hold : ∀ b z, (r.pool b).zone = some z → b ≠ r.next := by
        rintro b z hz rfl
        rw [hanchored.unused r.next le_rfl] at hz
        cases hz
      refine .quiet (fun b z hz => ?_) (fun b z hz => ?_) hlog rfl
      · simp only [Function.update_of_ne (hold b z hz)]
        exact ⟨hz, trivial⟩
      · by_cases hbn : b = r.next
        · subst hbn
          simp only [Function.update_self]
          cases hbuilt <;> exact .inl rfl
        · simp only [Function.update_of_ne hbn] at hz ⊢
          exact hkeyed b z hz

theorem counter_redisCheck (site : Site ζ) (v : Visit) (zone : ζ) (a : ℕ) (r : Exchange ζ) :
    (r.redisCheck site v zone a).1.worker.counter = r.worker.counter := by
  obtain ⟨events, block, -, hstate, -⟩ := redisKeys_effect site v zone a r
  rw [Exchange.redisCheck]
  by_cases hpending : (r.pool a).redisPending = true
  · rw [if_pos hpending]
  · rw [if_neg hpending]
    by_cases havailable : (!redisAvailable r.worker v.now) = true
    · rw [if_pos havailable]
      rfl
    · rw [if_neg havailable]
      rcases hr₁ : redisKeys site v zone a r with ⟨r₁, keys⟩
      rw [hr₁] at hstate
      obtain rfl : r₁ = _ := hstate
      cases keys with
      | none => rfl
      | some keys =>
          dsimp only
          split_ifs
          · exact counter_redisRecordFailure ..
          · rfl

/-- Asking Redis queues one `GET`, if any. -/
theorem redisCheck_sends (h : Keyed site r) (hzone : (r.pool a).zone = some zone) :
    ∃ cmd, Sends site r (r.redisCheck site v zone a).1 cmd := by
  have hcounter := counter_redisCheck site v zone a r
  have hasked := redisCheck_asked site v zone a r
  generalize r.redisCheck site v zone a = result at hcounter hasked
  obtain ⟨r₁, queued⟩ := result
  have hw := hasked.within
  cases hasked with
  | pending _ => exact ⟨none, .refl h⟩
  | skipped events block worker _ hfor =>
      refine ⟨none, .quiet hw.persists (Keyed.of_pool ?_ rfl) (.of_eq rfl) hcounter⟩
      exact h.keyed (f := fun c => c.asked events block false true) hzone hfor (fun _ => rfl)
        (fun _ => rfl) (fun _ => rfl) fun _ => rfl
  | queued events block _ hne hfor =>
      have hkeys := h.keysFor hzone hfor hne
      refine ⟨some (.get block), hw.persists, Keyed.of_pool ?_ rfl, ⟨[.get block], rfl, rfl, le_rfl⟩,
        hcounter, fun c hc => ?_⟩
      · exact h.keyed (f := fun c => c.asked events block true c.redisChecked) hzone hfor
          (fun _ => rfl) (fun _ => rfl) (fun _ => rfl) fun _ => rfl
      · obtain rfl := Option.some.inj hc
        refine ⟨zone, _, ⟨a, hw.zone.trans hzone, hw.key⟩, .inl ?_⟩
        exact congrArg (fun keys : RedisKeys => Command.get keys.block) hkeys

theorem Ruled.sends {rc : PhaseRc} (h : Ruled site v zone a r r' rc) (hkeyed : Keyed site r) :
    Sends site r r' none := by
  have hw := h.within
  have hlog : Logs (fun act => act.command = none) r r' := h.logs rfl fun _ => rfl
  have hquiet : ((r'.pool a).redisEvents = (r.pool a).redisEvents ∧
      (r'.pool a).redisBlock = (r.pool a).redisBlock) ∧ r'.worker = r.worker := by
    cases h <;>
      · simp only [Exchange.pool_work_self]
        exact ⟨⟨rfl, rfl⟩, rfl⟩
  exact .quiet hw.persists (hkeyed.within hw hquiet.1) hlog (congrArg _ hquiet.2)

theorem checkZone_sends [DecidableEq ζ] (h : Keyed site r) (hzone : (r.pool a).zone = some zone) :
    ∃ cmd, Sends site r (checkZone site v zone a r).1 cmd := by
  rw [checkZone]
  split_ifs
  · obtain ⟨cmd, hsends⟩ := redisCheck_sends (v := v) h hzone
    rcases hr₁ : r.redisCheck site v zone a with ⟨r₁, b⟩
    rw [hr₁] at hsends
    cases b with
    | true => exact ⟨cmd, hsends⟩
    | false => exact ⟨cmd, hsends.then_quiet ((checkBan_ruled site v zone a r₁).sends hsends.keyed)⟩
  · exact ⟨none, (checkBan_ruled site v zone a r).sends h⟩

/-- Counting in Redis queues one `EVALSHA`, if any. -/
theorem redisRecord_sends (h : Keyed site r) (hzone : (r.pool a).zone = some zone) :
    ∃ cmd, Sends site r (r.redisRecord site v zone a) cmd := by
  have hnoted : Sends site r (r.note (.redisRecord zone (r.pool a).key v.now)) none :=
    .quiet (.of_pool rfl) (h.of_pool rfl) (.of_cons rfl rfl) rfl
  obtain ⟨events, block, hfor, hstate, hkeys⟩ :=
    redisKeys_effect site v zone a (r.note (.redisRecord zone (r.pool a).key v.now))
  rw [Exchange.redisRecord]
  split_ifs with havailable
  · exact ⟨none, hnoted⟩
  · rcases hr₁ : redisKeys site v zone a (r.note (.redisRecord zone (r.pool a).key v.now)) with
      ⟨r₁, keys⟩
    rw [hr₁] at hstate hkeys
    obtain rfl : r₁ = _ := hstate
    have hkeyed := hnoted.keyed.keyed (a := a)
      (f := fun c => { c with redisEvents := events, redisBlock := block }) hzone hfor
      (fun _ => rfl) (fun _ => rfl) (fun _ => rfl) fun _ => rfl
    have hw : Within a r ((r.note (.redisRecord zone (r.pool a).key v.now)).onCtx a fun c =>
        { c with redisEvents := events, redisBlock := block }) :=
      within_work (f := fun c => c.keyed events block) r.shctx r.worker
        (.redisRecord zone (r.pool a).key v.now :: r.acts) (fun _ => rfl) (fun _ => rfl) fun _ => rfl
    cases keys with
    | none => exact ⟨none, .quiet hw.persists hkeyed (.of_cons rfl rfl) rfl⟩
    | some keys =>
        obtain ⟨rfl, hne⟩ := hkeys keys rfl
        have hbuilt := hnoted.keyed.keysFor hzone hfor hne
        refine ⟨some (.evalsha _), hw.persists, hkeyed.of_pool rfl,
          ⟨[.evalsha _, .redisRecord zone (r.pool a).key v.now], rfl, rfl, le_rfl⟩, rfl,
          fun c hc => ?_⟩
        obtain rfl := Option.some.inj hc
        refine ⟨zone, _, ⟨a, hw.zone.trans hzone, hw.key⟩, .inr ?_⟩
        exact congrArg (fun keys : RedisKeys => Command.evalsha (recordArgs (site.zones zone)
          (nextSequence site.redis r.worker) keys.events keys.block)) hbuilt

theorem countEvent_sends [DecidableEq ζ] (out : HeadersOut) (h : Keyed site r)
    (hzone : (r.pool a).zone = some zone) :
    ∃ cmd, Sends site r (countEvent site v zone a out r).1 cmd := by
  rw [countEvent]
  generalize record site.core (site.zones zone) (r.pool a).key v.now v.slab (r.shctx zone) = result
  obtain ⟨count, deadline, hstore⟩ := (r.pool a).store_eq result.2.out
  set r₁ := ({ r with shctx := Function.update r.shctx zone result.1 }.note
    (.record zone (r.pool a).key v.now)).onCtx a fun c => c.store result.2.out with hr₁
  have hlocal : Sends site r r₁ none := by
    have heq : r₁ = r.work a (fun c => c.judged count deadline c.state c.ownRejection)
        (Function.update r.shctx zone result.1) r.worker
        (.record zone (r.pool a).key v.now :: r.acts) := by
      simp only [hr₁, Exchange.work, Exchange.onCtx, Exchange.note, hstore]
    rw [heq]
    have hw := within_work (a := a) (r := r)
      (f := fun c => c.judged count deadline c.state c.ownRejection)
      (Function.update r.shctx zone result.1) r.worker (.record zone (r.pool a).key v.now :: r.acts)
      (fun _ => rfl) (fun _ => rfl) fun _ => rfl
    refine .quiet hw.persists (h.within hw ?_) (.of_cons rfl rfl) rfl
    rw [Exchange.pool_work_self]
    exact ⟨rfl, rfl⟩
  obtain ⟨cmd, hcounted⟩ : ∃ cmd, Sends site r
      (if (site.zones zone).redis then r₁.redisRecord site v zone a else r₁) cmd := by
    split_ifs
    · obtain ⟨cmd, hsends⟩ := redisRecord_sends (v := v) hlocal.keyed (hlocal.persists a zone hzone).1
      exact ⟨cmd, hlocal.after_quiet hsends⟩
    · exact ⟨none, hlocal⟩
  refine ⟨cmd, hcounted.then_quiet ?_⟩
  generalize (if (site.zones zone).redis then r₁.redisRecord site v zone a else r₁) = r₂ at hcounted
  have hstored : ∀ f : ReqCtx ζ → ReqCtx ζ, (∀ c, (f c).zone = c.zone) → (∀ c, (f c).key = c.key) →
      (∀ c, (f c).redisEvents = c.redisEvents) → (∀ c, (f c).redisBlock = c.redisBlock) →
      (∀ c, (f c).fromAnchor = c.fromAnchor) → Sends site r₂ (r₂.onCtx a f) none :=
    fun f => hcounted.keyed.quiet_onCtx
  cases result.2.rc with
  | error =>
      simp only
      split_ifs
      · have hrejected := hstored
          (fun c => { c with state := .blocked, ownRejection := true, responseSeen := false })
          (fun _ => rfl) (fun _ => rfl) (fun _ => rfl) (fun _ => rfl) fun _ => rfl
        exact .quiet (hrejected.persists.trans (.of_pool rfl)) (hrejected.keyed.of_pool rfl)
          (.of_cons rfl rfl) rfl
      · exact .refl hcounted.keyed
  | busy =>
      exact hstored (fun c => { c with state := .blocked }) (fun _ => rfl) (fun _ => rfl)
        (fun _ => rfl) (fun _ => rfl) fun _ => rfl
  | _ =>
      exact hstored (fun c => { c with state := .counted }) (fun _ => rfl) (fun _ => rfl)
        (fun _ => rfl) (fun _ => rfl) fun _ => rfl

theorem filterZone_sends [DecidableEq ζ] (out : HeadersOut) (h : Keyed site r)
    (hzone : (r.pool a).zone = some zone) :
    ∃ cmd, Sends site r (filterZone site v zone a out r).1 cmd := by
  have hseen : Sends site r (r.onCtx a fun c => { c with
      responseSeen := true, dryRun := if c.fromAnchor then c.dryRun else r.loc.dryRun }) none :=
    h.quiet_onCtx (fun _ => rfl) (fun _ => rfl) (fun _ => rfl) (fun _ => rfl) fun _ => rfl
  rw [filterZone]
  generalize (r.onCtx a fun c => { c with
    responseSeen := true, dryRun := if c.fromAnchor then c.dryRun else r.loc.dryRun }) = r₁ at hseen
  split_ifs
  · refine ⟨none, ?_⟩
    split <;> exact hseen
  · exact ⟨none, hseen⟩
  · exact ⟨none, hseen⟩
  · have hobserved : Sends site r₁ (observe site v zone a r₁) none := by
      have hpeeked : Keyed site (r₁.note (.peek zone (r₁.pool a).key v.now)) :=
        hseen.keyed.of_pool rfl
      have hstored := hpeeked.quiet_onCtx (a := a)
        (f := fun c => { c with
          count := (peek site.core (site.zones zone) (r₁.pool a).key v.now (r₁.shctx zone)).count
          blockedUntil :=
            (peek site.core (site.zones zone) (r₁.pool a).key v.now (r₁.shctx zone)).blockedUntil
          state := .dryRun }) (fun _ => rfl) (fun _ => rfl) (fun _ => rfl) (fun _ => rfl) fun _ => rfl
      exact .quiet hstored.persists hstored.keyed (.of_cons rfl rfl) rfl
    exact ⟨none, hseen.then_quiet hobserved⟩
  · obtain ⟨cmd, hsends⟩ := countEvent_sends (v := v) out hseen.keyed
      (hseen.persists a zone hzone).1
    exact ⟨cmd, hseen.after_quiet hsends⟩

theorem preaccess_sends [DecidableEq ζ] (h : Keyed site r) (hanchored : Anchored r) (v : Visit) :
    ∃ cmd, Sends site r (preaccess site v r).1 cmd := by
  rw [preaccess]
  split_ifs
  · exact ⟨none, .refl h⟩
  · rcases hp : prepareCtx site v r with ⟨r₁, found⟩
    have hprepared := (prepared_of_eq hp).sends hanchored h
    cases found with
    | none => exact ⟨none, hprepared⟩
    | some a =>
        cases hzone : (r₁.pool a).zone with
        | none =>
            simp only [hzone]
            exact ⟨none, hprepared⟩
        | some zone =>
            obtain ⟨cmd, hsends⟩ := checkZone_sends (v := v) hprepared.keyed hzone
            simp only [hzone]
            exact ⟨cmd, hprepared.after_quiet hsends⟩

theorem headerFilter_sends [DecidableEq ζ] (h : Keyed site r) (hanchored : Anchored r) (v : Visit)
    (out : HeadersOut) : ∃ cmd, Sends site r (headerFilter site v out r).1 cmd := by
  rw [headerFilter]
  split_ifs
  · exact ⟨none, .refl h⟩
  · rcases hp : prepareCtx site v r with ⟨r₁, found⟩
    have hprepared := (prepared_of_eq hp).sends hanchored h
    cases found with
    | none => exact ⟨none, hprepared⟩
    | some a =>
        cases hzone : (r₁.pool a).zone with
        | none =>
            simp only [hzone]
            exact ⟨none, hprepared⟩
        | some zone =>
            simp only [hzone]
            split_ifs
            · exact ⟨none, hprepared⟩
            · obtain ⟨cmd, hsends⟩ := filterZone_sends (v := v) out hprepared.keyed hzone
              exact ⟨cmd, hprepared.after_quiet hsends⟩

theorem Replied.sends {now : ℤ} {reply : Option Reply} (h : Replied site now reply r r')
    (hkeyed : Keyed site r) : Sends site r r' none := by
  have hlog : Logs (fun act => act.command = none) r r' := .of_eq h.acts_eq
  cases h with
  | unasked _ => exact .refl hkeyed
  | lost _ _ => exact .quiet (.of_pool rfl) (hkeyed.of_pool rfl) hlog rfl
  | answered a count deadline banned _ _ _ =>
      have hw := within_answered (r := r) a count deadline banned
        (r.worker.replied site.redis now reply) (r.count - 1) (r.waiting - 1)
      refine .quiet hw.persists (hkeyed.within hw ?_) hlog (counter_replied ..)
      simp only [Exchange.pool_onCtx_self]
      exact ⟨rfl, rfl⟩

theorem keyed_start (site : Site ζ) (loc : LocConf ζ) (shctx : ζ → Shctx) (worker : Worker) :
    Keyed site (Exchange.start loc shctx worker) := fun _ _ h => nomatch h

/-- A turn of the request queues at most one command. -/
theorem turnStep_sends [DecidableEq ζ] (h : Keyed site r) (hanchored : Anchored r)
    (turn : OwnTurn ζ) : ∃ cmd, Sends site r (turnStep site r turn.turn) cmd := by
  obtain ⟨turn, hown⟩ := turn
  cases turn with
  | preaccess v => exact preaccess_sends h hanchored v
  | headerFilter v out => exact headerFilter_sends h hanchored v out
  | reply now reply => exact ⟨none, (turnStep_replied site now reply r).sends h⟩
  | others shctx worker => exact nomatch hown
  | _ => exact ⟨none, .quiet (.of_pool rfl) (h.of_pool rfl) (.of_eq rfl) rfl⟩

theorem turnStep_keyed [DecidableEq ζ] (h : Keyed site r) (hanchored : Anchored r)
    (turn : Turn ζ) : Keyed site (turnStep site r turn) := by
  by_cases hown : turn.isOwn = true
  · obtain ⟨_, hsends⟩ := turnStep_sends h hanchored ⟨turn, hown⟩
    exact hsends.keyed
  · cases turn with
    | others shctx worker => exact h.of_pool rfl
    | _ => exact absurd rfl hown

/-- The commands of a turn. -/
theorem commands_newActs {cmd : Option Command} (h : Sends site r r' cmd) :
    commands (newActs r r') = cmd.toList := by
  obtain ⟨new, hacts, hcmd, -⟩ := h.logged
  rw [newActs_of_eq hacts, commands, List.filterMap_reverse, ← commands, hcmd]
  cases cmd <;> rfl

/-! ## What Redis has said -/

/-- No context has been told of a ban that had not been told before. -/
def Untold (r r' : Exchange ζ) : Prop :=
  ∀ b, (r'.pool b).redisBlocked = true → (r.pool b).redisBlocked = true

theorem Untold.within (hw : Within a r r')
    (h : (r'.pool a).redisBlocked = (r.pool a).redisBlocked) : Untold r r' := by
  intro b hb
  by_cases hba : b = a
  · subst hba
    rwa [h] at hb
  · rwa [hw.other b hba] at hb

theorem Untold.trans {r₁ r₂ r₃ : Exchange ζ} (h : Untold r₁ r₂) (h' : Untold r₂ r₃) :
    Untold r₁ r₃ := fun b hb => h b (h' b hb)

theorem Prepared.untold {found : Option ℕ} (h : Prepared site v r r' found) : Untold r r' := by
  intro b hb
  cases h with
  | attached _ _ => exact hb
  | restored a _ _ =>
      by_cases hba : b = a
      · subst hba
        rwa [Exchange.pool_restore_self] at hb
      · rwa [Exchange.pool_restore_of_ne hba] at hb
  | none _ _ _ => exact hb
  | built zone key _ c cleanup _ _ _ _ _ hbuilt =>
      by_cases hbn : b = r.next
      · subst hbn
        simp only [Function.update_self] at hb
        cases hbuilt <;> cases hb
      · simpa only [Function.update_of_ne hbn] using hb

theorem Ruled.untold {rc : PhaseRc} (h : Ruled site v zone a r r' rc) : Untold r r' := by
  refine .within h.within ?_
  cases h <;> simp only [Exchange.pool_work_self, ReqCtx.judged]

theorem Checked.untold {rc : PhaseRc} (h : Checked site v zone a r r' rc) : Untold r r' := by
  cases h with
  | parked _ _ _ hasked => exact .within hasked.within (hasked.banned_eq a)
  | refused _ _ _ _ _ hasked hruled =>
      exact .trans (.within hasked.within (hasked.banned_eq a)) hruled.untold
  | settled _ _ _ hruled => exact hruled.untold

theorem Filtered.untold {out : HeadersOut} {rc : FilterRc} (h : Filtered site v zone a out r r' rc) :
    Untold r r' := by
  refine .within h.within ?_
  cases h <;>
    simp only [Exchange.pool_onCtx_self, Exchange.pool_work_self, ReqCtx.seen, ReqCtx.judged,
      ReqCtx.counted, ReqCtx.keyed]

/-- Only a reply tells of a ban. -/
theorem turnStep_untold [DecidableEq ζ] {turn : Turn ζ} (hreply : turn.isReply = false) :
    Untold r (turnStep site r turn) := by
  cases turn with
  | preaccess v =>
      refine (preaccess_preaccessed site v r).keeps (fun _ hb => hb) (fun _ _ hp => hp.untold) ?_
      exact fun _ _ _ hp _ hc => hp.untold.trans hc.untold
  | headerFilter v out =>
      refine (headerFilter_headerFiltered site v out r).keeps (fun _ hb => hb)
        (fun _ _ hp => hp.untold) ?_
      exact fun _ _ _ hp _ _ hf => hp.untold.trans hf.untold
  | reply now reply => cases hreply
  | _ => exact fun _ hb => hb

/-- And it tells the context that is attached, if that has a zone. -/
theorem redisBlocked_of_reply [DecidableEq ζ] {now : ℤ} {reply : Option Reply} {b : ℕ}
    (h : ((turnStep site r (.reply now reply)).pool b).redisBlocked = true) :
    (r.pool b).redisBlocked = true ∨
      (r.pool b).zone.isSome ∧ ∃ str, reply = some (.string str) := by
  by_cases hold : (r.pool b).redisBlocked = true
  · exact .inl hold
  · right
    rw [turnStep] at h
    split_ifs at h
    · exact absurd h hold
    · cases hctx : r.ctx with
      | none =>
          simp only [Exchange.redisCheckCallback, hctx] at h
          exact absurd h hold
      | some a =>
          simp only [Exchange.redisCheckCallback, hctx] at h
          by_cases hba : b = a
          · subst hba
            rw [Exchange.pool_onCtx_self] at h
            unfold ReqCtx.replied at h
            dsimp only at h
            split at h
            · cases hzone : (r.pool b).zone with
              | none => simp [hzone] at h
              | some zone => exact ⟨rfl, _, rfl⟩
            · cases h
          · rw [Exchange.pool_onCtx_of_ne hba] at h
            exact absurd h hold

end ErrorAbuse
