import ErrorAbuse.Request.Effects
import Mathlib.Data.List.Count

/-!
# One event for each request

A response is counted by the context with a zone, of which a request has at most one. The
context counts only as long as `response_seen` and `own_rejection` are both unset, and sets
one of them when it does. `response_seen` is unset again only together with setting
`own_rejection`, which stays.
-/

namespace ErrorAbuse

open Lib

variable {ζ : Type} {site : Site ζ} {v : Visit} {zone : ζ} {r r' : Exchange ζ} {a : ℕ}

namespace Act

def isRecord : Act ζ → Bool
  | record .. => true
  | _ => false

def isRedisRecord : Act ζ → Bool
  | redisRecord .. => true
  | _ => false

/-- A call that counts an event, here or in Redis. -/
def isEvent (act : Act ζ) : Bool := act.isRecord || act.isRedisRecord

def isReject : Act ζ → Bool
  | reject _ => true
  | _ => false

end Act

/-- The context has counted, or will not. -/
def ReqCtx.Spent (c : ReqCtx ζ) : Prop :=
  c.zone.isSome ∧ (c.responseSeen = true ∨ c.ownRejection = true)

/-- The context has rejected the request. -/
def ReqCtx.Rejected (c : ReqCtx ζ) : Prop := c.zone.isSome ∧ c.ownRejection = true

/-- A context that lost none of its marks. -/
structure ReqCtx.Keeps (c c' : ReqCtx ζ) : Prop where
  zone : c.zone.isSome → c'.zone.isSome
  responseSeen : c.responseSeen = true → c'.responseSeen = true
  ownRejection : c.ownRejection = true → c'.ownRejection = true

theorem ReqCtx.Keeps.of_eq {c c' : ReqCtx ζ} (h : c' = c) : c.Keeps c' := h ▸ ⟨id, id, id⟩

structure Once (r : Exchange ζ) : Prop where
  records : r.acts.countP Act.isRecord ≤ 1
  redisRecords : r.acts.countP Act.isRedisRecord ≤ 1
  ordered : r.acts.Pairwise fun later earlier => earlier.isReject → later.isEvent = false
  spent : ∀ act ∈ r.acts, act.isEvent → ∃ a, (r.pool a).Spent
  rejected : ∀ act ∈ r.acts, act.isReject → ∃ a, (r.pool a).Rejected

namespace Once

theorem start (loc : LocConf ζ) (shctx : ζ → Shctx) (worker : Worker) :
    Once (Exchange.start loc shctx worker) where
  records := Nat.zero_le _
  redisRecords := Nat.zero_le _
  ordered := List.Pairwise.nil
  spent _ h := nomatch h
  rejected _ h := nomatch h

/-- Acts that count nothing, with flags that are only set. -/
theorem extend (h : Once r) (new : List (Act ζ)) (hacts : r'.acts = new ++ r.acts)
    (hnew : ∀ act ∈ new, act.isEvent = false)
    (hreject : ∀ act ∈ new, act.isReject → ∃ a, (r'.pool a).Rejected)
    (hkeeps : ∀ a, (r.pool a).Keeps (r'.pool a)) : Once r' := by
  have hrecord : r'.acts.countP Act.isRecord = r.acts.countP Act.isRecord := by
    refine Logs.countP_eq ⟨new, hacts, fun act hact => ?_⟩
    exact (Bool.or_eq_false_iff.mp (hnew act hact)).1
  have hredis : r'.acts.countP Act.isRedisRecord = r.acts.countP Act.isRedisRecord := by
    refine Logs.countP_eq ⟨new, hacts, fun act hact => ?_⟩
    exact (Bool.or_eq_false_iff.mp (hnew act hact)).2
  refine ⟨?_, ?_, ?_, ?_, ?_⟩
  · rw [hrecord]
    exact h.records
  · rw [hredis]
    exact h.redisRecords
  · rw [hacts]
    refine List.pairwise_append.mpr ⟨?_, h.ordered, fun act hact _ _ _ => hnew act hact⟩
    exact List.pairwise_of_forall_mem_list fun act hact _ _ _ => hnew act hact
  · intro act hact he
    rw [hacts] at hact
    rcases List.mem_append.mp hact with hact | hact
    · rw [hnew act hact] at he
      cases he
    · obtain ⟨b, hb⟩ := h.spent act hact he
      exact ⟨b, (hkeeps b).zone hb.1, hb.2.imp (hkeeps b).responseSeen (hkeeps b).ownRejection⟩
  · intro act hact hr
    rw [hacts] at hact
    rcases List.mem_append.mp hact with hact | hact
    · exact hreject act hact hr
    · obtain ⟨b, hb⟩ := h.rejected act hact hr
      exact ⟨b, (hkeeps b).zone hb.1, (hkeeps b).ownRejection hb.2⟩

/-- A context that has not counted and has not rejected: nobody has. -/
theorem untouched (h : Once r) (hanchored : Anchored r) (hzone : (r.pool a).zone = some zone)
    (hseen : (r.pool a).responseSeen = false) (hown : (r.pool a).ownRejection = false) :
    ∀ act ∈ r.acts, act.isEvent = false ∧ act.isReject = false := by
  intro act hact
  have hsome : (r.pool a).zone.isSome := by rw [hzone]; rfl
  constructor
  · by_contra he
    obtain ⟨b, hb, hflag⟩ := h.spent act hact (by simpa using he)
    obtain rfl := hanchored.unique hsome hb
    simp [hseen, hown] at hflag
  · by_contra hr
    obtain ⟨b, hb, hflag⟩ := h.rejected act hact (by simpa using hr)
    obtain rfl := hanchored.unique hsome hb
    simp [hown] at hflag

theorem prepared (h : Once r) (hanchored : Anchored r) {found : Option ℕ}
    (hp : Prepared site v r r' found) : Once r' := by
  cases hp with
  | attached _ _ => exact h
  | restored a _ _ =>
      refine h.extend [] rfl (fun _ hact => (nomatch hact))
        (fun _ hact => (nomatch hact)) fun b => ?_
      by_cases hba : b = a
      · subst hba
        rw [Exchange.pool_restore_self]
        exact ⟨id, id, id⟩
      · exact .of_eq (Exchange.pool_restore_of_ne hba)
  | none _ _ _ => exact h
  | built zone key _ c cleanup _ _ _ _ _ _ =>
      refine h.extend [.built r.next key] rfl (fun act hact => ?_) (fun act hact hr => ?_)
        fun b => ?_
      · rw [List.mem_singleton.mp hact]
        rfl
      · rw [List.mem_singleton.mp hact] at hr
        cases hr
      · by_cases hbn : b = r.next
        · subst hbn
          rw [hanchored.unused r.next le_rfl]
          exact ⟨(nomatch ·), (nomatch ·), (nomatch ·)⟩
        · exact .of_eq (Function.update_of_ne hbn c r.pool)

/-- Work on the context with the zone that counts nothing. -/
theorem within (h : Once r) (hw : Within a r r') (hzone : (r.pool a).zone = some zone)
    (new : List (Act ζ)) (hacts : r'.acts = new ++ r.acts)
    (hnew : ∀ act ∈ new, act.isEvent = false)
    (hreject : ∀ act ∈ new, act.isReject → (r'.pool a).ownRejection = true)
    (hseen : (r.pool a).responseSeen = true → (r'.pool a).responseSeen = true)
    (hown : (r.pool a).ownRejection = true → (r'.pool a).ownRejection = true) : Once r' := by
  have hsome : (r'.pool a).zone.isSome := by rw [hw.zone, hzone]; rfl
  refine h.extend new hacts hnew (fun act hact hr => ⟨a, hsome, hreject act hact hr⟩) fun b => ?_
  by_cases hba : b = a
  · subst hba
    exact ⟨fun _ => hsome, hseen, hown⟩
  · exact .of_eq (hw.other b hba)

theorem asked (h : Once r) {b : Bool} (hzone : (r.pool a).zone = some zone)
    (hasked : Asked site zone a r r' b) : Once r' := by
  have hw := hasked.within
  cases hasked with
  | pending _ => exact h
  | skipped events block worker _ _ =>
      refine h.within hw hzone [] rfl (by simp) (by simp) ?_ ?_ <;>
        simp only [Exchange.pool_onCtx_self] <;> exact id
  | queued events block _ _ _ =>
      refine h.within hw hzone [.get block] rfl (List.forall_mem_singleton.mpr rfl)
        (List.forall_mem_singleton.mpr (nomatch ·)) ?_ ?_ <;>
        simp only [Exchange.pool_onCtx_self] <;> exact id

theorem ruled (h : Once r) {rc : PhaseRc} (hzone : (r.pool a).zone = some zone)
    (hruled : Ruled site v zone a r r' rc) : Once r' := by
  have hw := hruled.within
  obtain ⟨new, hacts, hnew⟩ : ∃ new, ErrorAbuse.checked v zone a r = new ++ r.acts ∧
      ∀ act ∈ new, act.isEvent = false ∧ act.isReject = false := checked_logs v zone a r ⟨rfl, rfl⟩
  have hcalm : ∀ act ∈ new, act.isReject → (r'.pool a).ownRejection = true := fun act hact hr => by
    simp [(hnew act hact).2] at hr
  cases hruled with
  | rejected count deadline shctx _ _ =>
      refine h.within hw hzone (.reject r.loc.rejectStatus :: new) (congrArg (_ :: ·) hacts) ?_ ?_ ?_ ?_
      · exact List.forall_mem_cons.mpr ⟨rfl, fun act hact => (hnew act hact).1⟩
      · simp [ReqCtx.judged]
      · simp only [Exchange.pool_work_self]
        exact id
      · simp [ReqCtx.judged]
  | _ =>
      refine h.within hw hzone new hacts (fun act hact => (hnew act hact).1) hcalm ?_ ?_ <;>
        simp only [Exchange.pool_work_self] <;> exact id

theorem checked (h : Once r) {rc : PhaseRc} (hzone : (r.pool a).zone = some zone)
    (hc : Checked site v zone a r r' rc) : Once r' := by
  cases hc with
  | parked _ _ _ hasked => exact h.asked hzone hasked
  | refused _ _ _ _ _ hasked hruled =>
      exact (h.asked hzone hasked).ruled (hasked.within.zone.trans hzone) hruled
  | settled _ _ _ hruled => exact h.ruled hzone hruled

/-- What is logged when the first event is counted. -/
theorem logged {key : Key} {events block : List UInt8} {acts acts' : List (Act ζ)}
    (hnone : ∀ act ∈ acts, act.isEvent = false ∧ act.isReject = false)
    (hlog : RedisLogged site v zone key events block (.record zone key v.now :: acts) acts') :
    acts'.countP Act.isRecord ≤ 1 ∧ acts'.countP Act.isRedisRecord ≤ 1 ∧
      ∀ act ∈ acts', act.isReject = false := by
  have hrecord : acts.countP Act.isRecord = 0 := List.countP_eq_zero.mpr fun act hact hr => by
    simpa [Act.isEvent, hr] using (hnone act hact).1
  have hredis : acts.countP Act.isRedisRecord = 0 := List.countP_eq_zero.mpr fun act hact hr => by
    simpa [Act.isEvent, hr] using (hnone act hact).1
  have hreject : ∀ act ∈ acts, act.isReject = false := fun act hact => (hnone act hact).2
  cases hlog <;>
    simp [List.countP_cons, Act.isRecord, Act.isRedisRecord, Act.isReject, hrecord, hredis] <;>
    exact hreject

theorem counted {acts : List (Act ζ)} {key : Key} {events block : List UInt8}
    (hnone : ∀ act ∈ r.acts, act.isEvent = false ∧ act.isReject = false)
    (hlog : RedisLogged site v zone key events block (.record zone key v.now :: r.acts) acts)
    (hspent : (r'.pool a).Spent)
    (hacts : r'.acts = acts ∨ (r'.pool a).Rejected ∧ ∃ status, r'.acts = .reject status :: acts) :
    Once r' := by
  obtain ⟨hrecord, hredis, hcalm⟩ := logged hnone hlog
  have hordered : acts.Pairwise fun later earlier => earlier.isReject → later.isEvent = false :=
    List.pairwise_of_forall_mem_list fun _ _ act hact hr => by simp [hcalm act hact] at hr
  rcases hacts with hacts | ⟨hrejected, status, hacts⟩
  · refine ⟨hacts ▸ hrecord, hacts ▸ hredis, hacts ▸ hordered, fun _ _ _ => ⟨a, hspent⟩, ?_⟩
    intro act hact hr
    rw [hacts] at hact
    simp [hcalm act hact] at hr
  · refine ⟨?_, ?_, ?_, fun _ _ _ => ⟨a, hspent⟩, fun _ _ _ => ⟨a, hrejected⟩⟩
    · rw [hacts, List.countP_cons_of_neg Bool.false_ne_true]
      exact hrecord
    · rw [hacts, List.countP_cons_of_neg Bool.false_ne_true]
      exact hredis
    · rw [hacts]
      exact List.pairwise_cons.mpr ⟨fun act hact hr => rfl, hordered⟩

theorem filtered (h : Once r) (hanchored : Anchored r) {out : HeadersOut} {rc : FilterRc}
    (hzone : (r.pool a).zone = some zone) (hseen : (r.pool a).responseSeen = false)
    (hf : Filtered site v zone a out r r' rc) : Once r' := by
  have hw := hf.within
  have hsome : (r'.pool a).zone.isSome := by rw [hw.zone, hzone]; rfl
  cases hf with
  | own _ _ _ =>
      refine h.within hw hzone [] rfl (by simp) (by simp) ?_ ?_ <;>
        simp only [Exchange.pool_onCtx_self]
      · exact fun _ => rfl
      · exact id
  | quiet _ =>
      refine h.within hw hzone [] rfl (by simp) (by simp) ?_ ?_ <;>
        simp only [Exchange.pool_onCtx_self]
      · exact fun _ => rfl
      · exact id
  | observed count deadline hown _ =>
      refine h.within hw hzone [.peek zone (r.pool a).key v.now] rfl
        (List.forall_mem_singleton.mpr rfl) (List.forall_mem_singleton.mpr (nomatch ·)) ?_ ?_
      · exact fun _ => by simp only [Exchange.pool_work_self, ReqCtx.judged, ReqCtx.seen]
      · simp [hown]
  | counted count deadline state events block shctx worker acts hown _ _ hlog =>
      refine counted (h.untouched hanchored hzone hseen hown) hlog ⟨hsome, .inl ?_⟩ (.inl rfl)
      simp only [Exchange.pool_work_self, ReqCtx.counted, Bool.not_false]
  | full count deadline events block shctx worker acts hown _ _ hlog =>
      have hrejected : ∀ c : ReqCtx ζ, (c.counted count deadline .blocked events block true).ownRejection =
          true := fun _ => rfl
      refine counted (h.untouched hanchored hzone hseen hown) hlog ⟨hsome, .inr ?_⟩
        (.inr ⟨⟨hsome, ?_⟩, r.loc.rejectStatus, rfl⟩) <;>
        simp only [Exchange.pool_work_self, hrejected]

theorem preaccessed (h : Once r) (hanchored : Anchored r) {rc : PhaseRc}
    (hp : Preaccessed site v r r' rc) : Once r' := by
  refine hp.keeps h (fun r₁ found hprepared => h.prepared hanchored hprepared) ?_
  intro r₁ a zone hprepared hzone hc
  exact (h.prepared hanchored hprepared).checked hzone hc

theorem headerFiltered (h : Once r) (hanchored : Anchored r) {out : HeadersOut} {rc : FilterRc}
    (hp : HeaderFiltered site v out r r' rc) : Once r' := by
  refine hp.keeps h (fun r₁ found hprepared => h.prepared hanchored hprepared) ?_
  intro r₁ a zone hprepared hzone hseen hf
  exact (h.prepared hanchored hprepared).filtered (hanchored.prepared hprepared).1 hzone hseen hf

theorem replied (h : Once r) {now : ℤ} {reply : Option Reply}
    (hr : Replied site now reply r r') : Once r' := by
  cases hr with
  | unasked _ => exact h
  | lost _ _ => exact h.extend [] rfl (by simp) (by simp) fun b => .of_eq rfl
  | answered a count deadline banned _ _ _ =>
      refine h.extend [] rfl (by simp) (by simp) fun b => ?_
      by_cases hba : b = a
      · subst hba
        simp only [Exchange.pool_onCtx_self, ReqCtx.answered]
        exact ⟨id, id, id⟩
      · exact .of_eq ((within_answered a count deadline banned _ _ _).other b hba)

theorem turnStep [DecidableEq ζ] (h : Once r) (hanchored : Anchored r) (turn : Turn ζ) :
    Once (turnStep site r turn) := by
  cases turn with
  | preaccess v => exact h.preaccessed hanchored (preaccess_preaccessed site v r)
  | headerFilter v out =>
      exact h.headerFiltered hanchored (headerFilter_headerFiltered site v out r)
  | reply now reply => exact h.replied (turnStep_replied site now reply r)
  | _ => exact h.extend [] rfl (by simp) (by simp) fun b => .of_eq rfl

theorem run [DecidableEq ζ] (site : Site ζ) (loc : LocConf ζ) (shctx : ζ → Shctx) (worker : Worker)
    (turns : List (Turn ζ)) :
    Once (run (ErrorAbuse.turnStep site) (.start loc shctx worker) turns) :=
  (run_invariant (fun r => Anchored r ∧ Once r) (fun _ => True)
    (fun _ turn h _ => ⟨h.1.turnStep turn, h.2.turnStep h.1 turn⟩)
    ⟨.start loc shctx worker, start loc shctx worker⟩ fun _ _ => trivial).2

end Once

/-! ## Where events come from -/

/-- Acts of which none counts an event. -/
def Uneventful (r r' : Exchange ζ) : Prop :=
  ∃ new, r'.acts = new ++ r.acts ∧ ∀ act ∈ new, act.isEvent = false

theorem Uneventful.of_eq (h : r'.acts = r.acts) : Uneventful r r' := Logs.of_eq h

theorem Uneventful.trans {r₁ r₂ r₃ : Exchange ζ} (h : Uneventful r₁ r₂) (h' : Uneventful r₂ r₃) :
    Uneventful r₁ r₃ := Logs.trans h h'

theorem Prepared.uneventful {found : Option ℕ} (h : Prepared site v r r' found) : Uneventful r r' :=
  h.logs fun _ _ => rfl

theorem Checked.uneventful {rc : PhaseRc} (h : Checked site v zone a r r' rc) : Uneventful r r' :=
  h.logs (fun _ => rfl) (fun _ => rfl) fun _ => rfl

theorem Preaccessed.uneventful {rc : PhaseRc} (h : Preaccessed site v r r' rc) : Uneventful r r' := by
  refine h.keeps (.of_eq rfl) (fun r₁ found hprepared => hprepared.uneventful) ?_
  intro r₁ a zone hprepared _ hc
  exact hprepared.uneventful.trans hc.uneventful

theorem HeaderFiltered.uneventful_or {out : HeadersOut} {rc : FilterRc}
    (h : HeaderFiltered site v out r r' rc) :
    Uneventful r r' ∨ v.main = true ∧ dryRunInEffect site v r = false := by
  cases h with
  | sub _ => exact .inl (.of_eq rfl)
  | none _ _ hp => exact .inl (prepared_of_eq hp).uneventful
  | keyless _ _ _ hp _ => exact .inl (prepared_of_eq hp).uneventful
  | again _ _ _ _ hp _ _ => exact .inl (prepared_of_eq hp).uneventful
  | zoned r₁ _ a zone _ hmain hp _ _ hf =>
      have hbefore := (prepared_of_eq hp).uneventful
      have hdry : dryRunInEffect site v r = effectiveDryRun (r₁.pool a) r₁.loc := by
        rw [dryRunInEffect, hp]
      cases hf with
      | own => exact .inl (hbefore.trans (.of_eq rfl))
      | quiet => exact .inl (hbefore.trans (.of_eq rfl))
      | observed => exact .inl (hbefore.trans (Logs.of_cons rfl rfl))
      | counted _ _ _ _ _ _ _ _ _ henforced => exact .inr ⟨hmain, hdry.trans henforced⟩
      | full _ _ _ _ _ _ _ _ henforced => exact .inr ⟨hmain, hdry.trans henforced⟩

/-- Only a header filter run on a main request outside dry-run counts an event. -/
theorem eventful_turn [DecidableEq ζ] {turn : Turn ζ} {new : List (Act ζ)}
    (hacts : (turnStep site r turn).acts = new ++ r.acts) (hevent : ∃ act ∈ new, act.isEvent) :
    ∃ v out, turn = .headerFilter v out ∧ v.main = true ∧ dryRunInEffect site v r = false := by
  have hloud : ¬ Uneventful r (turnStep site r turn) := by
    rintro ⟨new', hacts', hnew'⟩
    obtain ⟨act, hact, he⟩ := hevent
    obtain rfl := List.append_cancel_right (hacts.symm.trans hacts')
    simp [hnew' act hact] at he
  cases turn with
  | preaccess v => exact absurd (preaccess_preaccessed site v r).uneventful hloud
  | headerFilter v out =>
      exact ⟨v, out, rfl, (headerFilter_headerFiltered site v out r).uneventful_or.resolve_left hloud⟩
  | reply now reply => exact absurd (.of_eq (turnStep_replied site now reply r).acts_eq) hloud
  | _ => exact absurd (.of_eq rfl) hloud

/-- **One event.** Whatever happens to a main request, `record` and `redis_record` are each
called at most once, neither after the module has rejected the request, and only by a run
of the header filter on the main request outside dry-run. -/
theorem one_event [DecidableEq ζ] (site : Site ζ) (loc : LocConf ζ) (shctx : ζ → Shctx)
    (worker : Worker) (turns : List (Turn ζ)) :
    let r := run (turnStep site) (.start loc shctx worker) turns
    r.acts.countP Act.isRecord ≤ 1 ∧ r.acts.countP Act.isRedisRecord ≤ 1 ∧
    (r.acts.Pairwise fun later earlier => earlier.isReject → later.isEvent = false) ∧
    ∀ turn new, (turnStep site r turn).acts = new ++ r.acts → (∃ act ∈ new, act.isEvent) →
      ∃ v out, turn = .headerFilter v out ∧ v.main = true ∧ dryRunInEffect site v r = false := by
  intro r
  have h := Once.run site loc shctx worker turns
  exact ⟨h.records, h.redisRecords, h.ordered, fun _ _ => eventful_turn⟩

end ErrorAbuse
