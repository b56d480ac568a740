import ErrorAbuse.Request.Effects

/-!
# Asking Redis

A `GET` parks the request: `redis_pending` is set in its context and the request's count is
raised. The callback of the command undoes both, sets `redis_checked` and resumes the request.
Since at most one context of a request has a zone, and that one is found again after every
redirect, the two flags together remember whether Redis has been asked.

The callback looks for the context in `r->ctx` only. nginx zeroes that pointer when it
redirects a request or replaces a response, and goes on to run a handler in the same call;
callbacks are run from the event loop, between two calls. An `Episode` is what nginx does in
one call.
-/

namespace ErrorAbuse

open Lib

variable {ζ : Type} {site : Site ζ} {v : Visit} {zone : ζ} {r r' : Exchange ζ} {a : ℕ}
  {replies : List (Option Reply)}

/-! ## Episodes -/

/-- What nginx does with a main request in one call. -/
inductive Episode (ζ : Type)
  /-- a request comes to the phase, or is woken up in it -/
  | preaccess (v : Visit)
  | headerFilter (v : Visit) (out : HeadersOut)
  /-- `error_page` and other internal redirects: the phases start over -/
  | redirect (loc : LocConf ζ) (v : Visit)
  /-- another response is sent in place of the one at hand, or from the new location -/
  | replace (loc : LocConf ζ) (v : Visit) (out : HeadersOut)
  /-- the callback of the `GET` runs, and resumes the phases -/
  | reply (now : ℤ) (reply : Option Reply) (v : Visit)
  /-- the location changes by a rewrite -/
  | relocate (loc : LocConf ζ)
  | cleanupAdd
  | others (shctx : ζ → Shctx) (worker : Worker)

def Episode.turns : Episode ζ → List (Turn ζ)
  | preaccess v => [.preaccess v]
  | headerFilter v out => [.headerFilter v out]
  | redirect loc v => [.clear, .relocate loc, .preaccess { v with main := true }]
  | replace loc v out => [.clear, .relocate loc, .headerFilter { v with main := true } out]
  | reply now answer v => [.reply now answer, .preaccess { v with main := true }]
  | relocate loc => [.relocate loc]
  | cleanupAdd => [.cleanupAdd]
  | others shctx worker => [.others shctx worker]

/-- The replies whose callbacks a turn runs. -/
def Turn.delivers (r : Exchange ζ) : Turn ζ → List (Option Reply)
  | reply _ answer => if r.waiting = 0 then [] else [answer]
  | _ => []

/-- The replies whose callbacks have run after some turns. -/
def delivered [DecidableEq ζ] (site : Site ζ) (r : Exchange ζ) (turns : List (Turn ζ)) :
    List (Option Reply) :=
  outputs (turnStep site) (fun r turn => turn.delivers r) r turns

def Act.isGet : Act ζ → Bool
  | get _ => true
  | _ => false

/-- What `preaccess` returns in a zone without Redis. -/
def localDecision (site : Site ζ) (v : Visit) (zone : ζ) (ctx : ℕ) (r : Exchange ζ) : PhaseRc :=
  if (isBlocked site.core (site.zones zone) (r.pool ctx).key v.now (r.shctx zone)).2.rc = .ok then
    if effectiveDryRun (r.pool ctx) r.loc then .declined else .status r.loc.rejectStatus
  else .declined

/-! ## No reply without a context -/

/-- Whether `r->ctx` may be zero with nothing run since: `lost` before the turn. -/
def Turn.loses (lost : Bool) : Turn ζ → Bool
  | clear => true
  | preaccess v | headerFilter v _ => lost && !v.main
  | _ => lost

def Turn.isReply : Turn ζ → Bool
  | reply .. => true
  | _ => false

/-- Once `r->ctx` is lost a handler runs first, before any reply comes. -/
def RunsFirst : Bool → List (Turn ζ) → Prop
  | _, [] => True
  | lost, turn :: turns => (turn.isReply = true → lost = false) ∧ RunsFirst (turn.loses lost) turns

theorem RunsFirst.of_append {lost : Bool} {turns turns' : List (Turn ζ)}
    (h : RunsFirst lost (turns ++ turns')) : RunsFirst lost turns := by
  induction turns generalizing lost with
  | nil => trivial
  | cons turn turns ih => exact ⟨h.1, ih h.2⟩

theorem RunsFirst.turns (episode : Episode ζ) {turns : List (Turn ζ)} (h : RunsFirst false turns) :
    RunsFirst false (episode.turns ++ turns) := by
  cases episode <;> simpa [Episode.turns, RunsFirst, Turn.isReply, Turn.loses] using h

theorem RunsFirst.flatMap (episodes : List (Episode ζ)) :
    RunsFirst false (episodes.flatMap Episode.turns) := by
  induction episodes with
  | nil => trivial
  | cons episode episodes ih =>
      rw [List.flatMap_cons]
      exact ih.turns episode

/-! ## What is known of the answer -/

/-- A context with the same answer, and its zone if it had one. -/
structure ReqCtx.SameAnswer (c c' : ReqCtx ζ) : Prop where
  zone : c.zone.isSome → c'.zone.isSome
  pending : c'.redisPending = c.redisPending
  checked : c'.redisChecked = c.redisChecked
  banned : c'.redisBlocked = c.redisBlocked

theorem ReqCtx.SameAnswer.of_eq {c c' : ReqCtx ζ} (h : c' = c) : c.SameAnswer c' :=
  h ▸ ⟨id, rfl, rfl, rfl⟩

/-- Only the callback stores an answer. -/
theorem Asked.banned_eq {b : Bool} (h : Asked site zone a r r' b) (c : ℕ) :
    (r'.pool c).redisBlocked = (r.pool c).redisBlocked := by
  by_cases hca : c = a
  · subst hca
    cases h with
    | pending _ => rfl
    | _ => simp only [Exchange.pool_onCtx_self, ReqCtx.asked]
  · rw [h.within.other c hca]

/-- A request after the callbacks for `replies`. -/
structure Asking (r : Exchange ζ) (replies : List (Option Reply)) : Prop where
  count : r.count = 1 + r.waiting
  gets : r.acts.countP Act.isGet = r.waiting + replies.length
  once : r.acts.countP Act.isGet ≤ 1
  pending : ∀ a, (r.pool a).redisPending = true →
    (r.pool a).zone.isSome ∧ (r.pool a).redisChecked = false ∧ 0 < r.waiting
  waiting : 0 < r.waiting → ∃ a, (r.pool a).redisPending = true
  asked : 0 < r.acts.countP Act.isGet →
    ∃ a, (r.pool a).zone.isSome ∧ ((r.pool a).redisPending = true ∨ (r.pool a).redisChecked = true)
  banned : ∀ a, (r.pool a).redisBlocked = true → ∃ str, some (.string str) ∈ replies

namespace Asking

theorem start (loc : LocConf ζ) (shctx : ζ → Shctx) (worker : Worker) :
    Asking (Exchange.start loc shctx worker) [] where
  count := rfl
  gets := rfl
  once := Nat.zero_le _
  pending _ h := nomatch h
  waiting h := absurd h (lt_irrefl 0)
  asked h := absurd h (lt_irrefl 0)
  banned _ h := nomatch h

/-- Nothing is asked and nothing answered. -/
theorem extend (h : Asking r replies) (hlog : Logs (fun act => act.isGet = false) r r')
    (hcount : r'.count = r.count) (hwaiting : r'.waiting = r.waiting)
    (hsame : ∀ a, (r.pool a).SameAnswer (r'.pool a)) : Asking r' replies where
  count := by rw [hcount, hwaiting, h.count]
  gets := by rw [hlog.countP_eq, hwaiting, h.gets]
  once := by rw [hlog.countP_eq]; exact h.once
  pending a ha := by
    rw [(hsame a).pending] at ha
    obtain ⟨hzone, hchecked, hpos⟩ := h.pending a ha
    exact ⟨(hsame a).zone hzone, (hsame a).checked.trans hchecked, hwaiting ▸ hpos⟩
  waiting hpos := by
    obtain ⟨a, ha⟩ := h.waiting (hwaiting ▸ hpos)
    exact ⟨a, (hsame a).pending.trans ha⟩
  asked hpos := by
    obtain ⟨a, hzone, ha⟩ := h.asked (hlog.countP_eq ▸ hpos)
    rw [← (hsame a).pending, ← (hsame a).checked] at ha
    exact ⟨a, (hsame a).zone hzone, ha⟩
  banned a ha := h.banned a ((hsame a).banned.symm.trans ha)

/-- Nothing is asked by work on one context. -/
theorem within (h : Asking r replies) (hw : Within a r r')
    (hlog : Logs (fun act => act.isGet = false) r r')
    (hcount : r'.count = r.count) (hwaiting : r'.waiting = r.waiting)
    (hsame : (r.pool a).SameAnswer (r'.pool a)) : Asking r' replies := by
  refine h.extend hlog hcount hwaiting fun b => ?_
  by_cases hba : b = a
  · subst hba
    exact hsame
  · exact .of_eq (hw.other b hba)

/-- The context with a zone that has neither asked nor been told: nobody has asked. -/
theorem unasked (h : Asking r replies) (hanchored : Anchored r) (hzone : (r.pool a).zone.isSome)
    (hpending : (r.pool a).redisPending = false) (hchecked : (r.pool a).redisChecked = false) :
    r.acts.countP Act.isGet = 0 ∧ r.waiting = 0 ∧ replies = [] := by
  have hgets : r.acts.countP Act.isGet = 0 := by
    by_contra hne
    obtain ⟨b, hb, hflag⟩ := h.asked (Nat.pos_of_ne_zero hne)
    obtain rfl := hanchored.unique hzone hb
    simp [hpending, hchecked] at hflag
  have hsum := h.gets
  refine ⟨hgets, by omega, List.length_eq_zero_iff.mp (by omega)⟩

theorem waiting_eq_one (h : Asking r replies) (hpending : (r.pool a).redisPending = true) :
    r.waiting = 1 ∧ replies = [] := by
  obtain ⟨-, -, hpos⟩ := h.pending a hpending
  have hsum := h.gets
  have honce := h.once
  exact ⟨by omega, List.length_eq_zero_iff.mp (by omega)⟩

theorem prepared (h : Asking r replies) (hanchored : Anchored r) {found : Option ℕ}
    (hp : Prepared site v r r' found) : Asking r' replies := by
  have hlog : Logs (fun act => act.isGet = false) r r' := hp.logs fun _ _ => rfl
  cases hp with
  | attached _ _ => exact h
  | none _ _ _ => exact h
  | restored a _ _ =>
      refine h.extend hlog rfl rfl fun b => ?_
      by_cases hba : b = a
      · subst hba
        rw [Exchange.pool_restore_self]
        exact ⟨id, rfl, rfl, rfl⟩
      · exact .of_eq (Exchange.pool_restore_of_ne hba)
  | built zone key _ c cleanup _ _ _ _ _ hbuilt =>
      refine h.extend hlog rfl rfl fun b => ?_
      by_cases hbn : b = r.next
      · subst hbn
        rw [hanchored.unused r.next le_rfl]
        simp only [Function.update_self]
        cases hbuilt <;> exact ⟨(nomatch ·), rfl, rfl, rfl⟩
      · exact .of_eq (Function.update_of_ne hbn c r.pool)

theorem asked_of (h : Asking r replies) (hanchored : Anchored r) {b : Bool}
    (hzone : (r.pool a).zone.isSome) (hchecked : (r.pool a).redisChecked = false)
    (hasked : Asked site zone a r r' b) : Asking r' replies ∧ (b = true → r'.waiting = 1) := by
  have hw := hasked.within
  have hbanned : ∀ b, (r'.pool b).redisBlocked = true → ∃ str, some (.string str) ∈ replies :=
    fun b hb => h.banned b (hasked.banned_eq b ▸ hb)
  cases hasked with
  | pending hpending => exact ⟨h, fun _ => (h.waiting_eq_one hpending).1⟩
  | skipped events block worker hpending _ =>
      obtain ⟨hgets, hwaiting, rfl⟩ := h.unasked hanchored hzone hpending hchecked
      refine ⟨⟨h.count, h.gets, h.once, fun b hb => ?_, fun hpos => ?_, fun hpos => ?_, hbanned⟩,
        (nomatch ·)⟩
      · by_cases hba : b = a
        · subst hba
          simp [ReqCtx.asked] at hb
        · rw [hw.other b hba] at hb ⊢
          exact h.pending b hb
      · exact absurd hwaiting hpos.ne'
      · exact absurd hgets hpos.ne'
  | queued events block hpending _ _ =>
      obtain ⟨hgets, hwaiting, rfl⟩ := h.unasked hanchored hzone hpending hchecked
      have hone : (Act.get block :: r.acts).countP Act.isGet = 1 := by
        rw [List.countP_cons_of_pos rfl, hgets]
      refine ⟨⟨?_, ?_, hone.le, fun b hb => ?_, fun _ => ⟨a, ?_⟩, fun _ => ⟨a, ?_, .inl ?_⟩,
        hbanned⟩, fun _ => by simp [hwaiting]⟩
      · have hcount := h.count
        show r.count + 1 = 1 + (r.waiting + 1)
        omega
      · simpa [hwaiting] using hone
      · by_cases hba : b = a
        · subst hba
          simp only [Exchange.pool_onCtx_self]
          exact ⟨hzone, hchecked, Nat.succ_pos _⟩
        · rw [hw.other b hba] at hb
          exact absurd hwaiting (h.pending b hb).2.2.ne'
      · simp [ReqCtx.asked]
      · simpa [ReqCtx.asked] using hzone
      · simp [ReqCtx.asked]

theorem ruled (h : Asking r replies) {rc : PhaseRc} (hruled : Ruled site v zone a r r' rc) :
    Asking r' replies := by
  have hw := hruled.within
  have hlog : Logs (fun act => act.isGet = false) r r' := hruled.logs rfl fun _ => rfl
  cases hruled <;>
    · refine h.within hw hlog rfl rfl ?_
      simp only [Exchange.pool_work_self]
      exact ⟨id, rfl, rfl, rfl⟩

theorem checked (h : Asking r replies) (hanchored : Anchored r) {rc : PhaseRc}
    (hzone : (r.pool a).zone.isSome) (hc : Checked site v zone a r r' rc) :
    Asking r' replies ∧ (rc = .again → r'.waiting = 1) := by
  have hdecides : ∀ {r r' : Exchange ζ} {rc : PhaseRc}, Ruled site v zone a r r' rc →
      rc ≠ .again := by
    intro r r' rc hruled
    cases hruled <;> simp
  cases hc with
  | parked _ _ hchecked hasked =>
      obtain ⟨h', hparked⟩ := h.asked_of hanchored hzone hchecked hasked
      exact ⟨h', fun _ => hparked rfl⟩
  | refused _ _ _ _ hchecked hasked hruled =>
      have h' := (h.asked_of hanchored hzone hchecked hasked).1
      exact ⟨h'.ruled hruled, fun hagain => absurd hagain (hdecides hruled)⟩
  | settled _ _ _ hruled => exact ⟨h.ruled hruled, fun hagain => absurd hagain (hdecides hruled)⟩

theorem filtered (h : Asking r replies) {out : HeadersOut} {rc : FilterRc}
    (hf : Filtered site v zone a out r r' rc) : Asking r' replies := by
  have hw := hf.within
  have hlog : Logs (fun act => act.isGet = false) r r' :=
    hf.logs (fun _ => rfl) (fun _ => rfl) (fun _ => rfl) (fun _ => rfl) fun _ => rfl
  cases hf <;>
    · refine h.within hw hlog rfl rfl ?_
      simp only [Exchange.pool_work_self, Exchange.pool_onCtx_self]
      exact ⟨id, rfl, rfl, rfl⟩

/-- The callback finds the context that asked. -/
theorem replied (h : Asking r replies) (hanchored : Anchored r) {now : ℤ} {reply : Option Reply}
    (hattached : 0 < r.waiting → r.ctx ≠ none) (hr : Replied site now reply r r') :
    Asking r' (replies ++ if r.waiting = 0 then [] else [reply]) := by
  cases hr with
  | unasked hnone =>
      rw [if_pos hnone, List.append_nil]
      exact h
  | lost hpos hctx => exact absurd hctx (hattached hpos)
  | answered a count deadline banned hpos hctx hstring =>
      obtain ⟨b, hpending⟩ := h.waiting hpos
      obtain ⟨hzone, -, -⟩ := h.pending b hpending
      obtain ⟨hwaiting, rfl⟩ := h.waiting_eq_one hpending
      obtain rfl := hanchored.attached a b hctx (hanchored.zoned b hzone)
      have hw : Within a r { r.onCtx a (fun c => c.answered count deadline banned) with
          worker := r.worker.replied site.redis now reply
          count := r.count - 1
          waiting := r.waiting - 1 } := within_answered ..
      rw [if_neg hpos.ne', List.nil_append]
      refine ⟨?_, ?_, h.once, fun c hc => ?_, fun hpos => ?_, fun _ => ⟨a, hw.zone ▸ hzone, .inr ?_⟩,
        fun c hc => ?_⟩
      · have hcount := h.count
        show r.count - 1 = 1 + (r.waiting - 1)
        omega
      · have hgets := h.gets
        show r.acts.countP Act.isGet = r.waiting - 1 + 1
        simp only [List.length_nil] at hgets
        omega
      · by_cases hca : c = a
        · subst hca
          simp [ReqCtx.answered] at hc
        · rw [hw.other c hca] at hc
          exact absurd (hanchored.unique (h.pending c hc).1 hzone) hca
      · have hzero : 0 < r.waiting - 1 := hpos
        omega
      · simp [ReqCtx.answered]
      · by_cases hca : c = a
        · subst hca
          simp only [Exchange.pool_onCtx_self, ReqCtx.answered] at hc
          obtain ⟨str, rfl⟩ := hstring hc
          exact ⟨str, List.mem_singleton_self _⟩
        · rw [hw.other c hca] at hc
          obtain ⟨str, hstr⟩ := h.banned c hc
          cases hstr

theorem preaccessed (h : Asking r replies) (hanchored : Anchored r) {rc : PhaseRc}
    (hp : Preaccessed site v r r' rc) : Asking r' replies ∧ (rc = .again → r'.waiting = 1) := by
  cases hp with
  | sub _ => exact ⟨h, (nomatch ·)⟩
  | none r₁ _ hp =>
      refine ⟨h.prepared hanchored (prepared_of_eq hp), fun hagain => ?_⟩
      split_ifs at hagain
  | keyless _ _ _ hp _ => exact ⟨h.prepared hanchored (prepared_of_eq hp), (nomatch ·)⟩
  | zoned r₁ _ a zone _ _ hp hzone hc =>
      have hprepared := prepared_of_eq hp
      refine (h.prepared hanchored hprepared).checked (hanchored.prepared hprepared).1 ?_ hc
      rw [hzone]
      rfl

theorem headerFiltered (h : Asking r replies) (hanchored : Anchored r) {out : HeadersOut}
    {rc : FilterRc} (hp : HeaderFiltered site v out r r' rc) : Asking r' replies := by
  refine hp.keeps h (fun r₁ found hprepared => h.prepared hanchored hprepared) ?_
  intro r₁ a zone hprepared _ _ hf
  exact (h.prepared hanchored hprepared).filtered hf

/-- With a `GET` under way every run of a handler attaches the context. -/
theorem attached (h : Asking r replies) (hanchored : Anchored r) {found : Option ℕ}
    (hp : Prepared site v r r' found) (hpos : 0 < r'.waiting) : r'.ctx ≠ none := by
  cases found with
  | some a => simp [hp.ctx_eq]
  | none =>
      cases hp with
      | none _ hfind _ =>
          obtain ⟨b, hb⟩ := h.waiting hpos
          cases hfind.symm.trans (hanchored.zoned b (h.pending b hb).1)
      | built _ _ _ _ _ _ _ _ _ _ _ => simp

end Asking

/-! ## The decision -/

theorem Ruled.decision {rc : PhaseRc} (h : Ruled site v zone a r r' rc)
    (hbanned : (r.pool a).redisBlocked = false) : rc = localDecision site v zone a r := by
  have hlocal : Banned site v zone a r ↔
      (isBlocked site.core (site.zones zone) (r.pool a).key v.now (r.shctx zone)).2.rc = .ok := by
    simp [Banned, hbanned]
  rw [localDecision]
  cases h with
  | passed _ _ _ hpassed => rw [if_neg (hlocal.not.mp hpassed)]
  | observed _ _ _ hban hdry => rw [if_pos (hlocal.mp hban), if_pos hdry]
  | rejected _ _ _ hban hdry => rw [if_pos (hlocal.mp hban), hdry, if_neg Bool.false_ne_true]

/-- Without a ban from Redis the zone decides, whatever asking has come to. -/
theorem Checked.decision {rc : PhaseRc} (h : Checked site v zone a r r' rc)
    (hbanned : (r.pool a).redisBlocked = false) (hfinal : rc ≠ .again) :
    rc = localDecision site v zone a r := by
  cases h with
  | parked _ _ _ _ => exact absurd rfl hfinal
  | settled _ _ _ hruled => exact hruled.decision hbanned
  | refused r₁ _ _ _ _ hasked hruled =>
      rw [hruled.decision ((hasked.banned_eq a).trans hbanned)]
      cases hasked with
      | skipped events block worker _ _ => simp [localDecision, ReqCtx.asked, effectiveDryRun]

/-! ## Runs -/

/-- Between two turns. If `r->ctx` is not `lost`, the callback will find the context. -/
structure Attended (lost : Bool) (r : Exchange ζ) (replies : List (Option Reply)) : Prop where
  anchored : Anchored r
  asking : Asking r replies
  attached : lost = false → 0 < r.waiting → r.ctx ≠ none

namespace Attended

variable {lost : Bool}

/-- A turn that leaves the contexts and the references alone. -/
theorem same (h : Attended lost r replies) (hanchored : Anchored r') (hacts : r'.acts = r.acts)
    (hpool : r'.pool = r.pool) (hcount : r'.count = r.count) (hwaiting : r'.waiting = r.waiting)
    {lost' : Bool} (hattached : lost' = false → lost = false ∧ r'.ctx = r.ctx) :
    Attended lost' r' (replies ++ []) where
  anchored := hanchored
  asking := by
    rw [List.append_nil]
    exact h.asking.extend (.of_eq hacts) hcount hwaiting fun b => .of_eq (congrFun hpool b)
  attached hlost hpos := by
    obtain ⟨hlost, hctx⟩ := hattached hlost
    rw [hctx]
    exact h.attached hlost (hwaiting ▸ hpos)

theorem preaccess [DecidableEq ζ] (h : Attended lost r replies) (site : Site ζ) (v : Visit) :
    Attended (lost && !v.main) (preaccess site v r).1 replies := by
  have hp := preaccess_preaccessed site v r
  refine ⟨h.anchored.preaccessed hp, (h.asking.preaccessed h.anchored hp).1, ?_⟩
  intro hlost hpos
  generalize (ErrorAbuse.preaccess site v r).1 = r' at hp hpos ⊢
  generalize (ErrorAbuse.preaccess site v r).2 = rc at hp
  cases hp with
  | sub hmain => exact h.attached (by simpa [hmain] using hlost) hpos
  | none r₁ _ hp => exact h.asking.attached h.anchored (prepared_of_eq hp) hpos
  | keyless r₁ a _ hp _ => simp [(prepared_of_eq hp).ctx_eq]
  | zoned r₁ _ a _ _ _ hp _ hc => simp [hc.within.ctx, (prepared_of_eq hp).ctx_eq]

theorem headerFilter [DecidableEq ζ] (h : Attended lost r replies) (site : Site ζ) (v : Visit)
    (out : HeadersOut) : Attended (lost && !v.main) (headerFilter site v out r).1 replies := by
  have hp := headerFilter_headerFiltered site v out r
  refine ⟨h.anchored.headerFiltered hp, h.asking.headerFiltered h.anchored hp, ?_⟩
  intro hlost hpos
  generalize (ErrorAbuse.headerFilter site v out r).1 = r' at hp hpos ⊢
  generalize (ErrorAbuse.headerFilter site v out r).2 = rc at hp
  cases hp with
  | sub hmain => exact h.attached (by simpa [hmain] using hlost) hpos
  | none r₁ _ hp => exact h.asking.attached h.anchored (prepared_of_eq hp) hpos
  | keyless r₁ a _ hp _ => simp [(prepared_of_eq hp).ctx_eq]
  | again r₁ a _ _ hp _ _ => simp [(prepared_of_eq hp).ctx_eq]
  | zoned r₁ _ a _ _ _ hp _ _ hf => simp [hf.within.ctx, (prepared_of_eq hp).ctx_eq]

theorem turnStep [DecidableEq ζ] (h : Attended lost r replies) (site : Site ζ) (turn : Turn ζ)
    (hreply : turn.isReply = true → lost = false) :
    Attended (turn.loses lost) (turnStep site r turn) (replies ++ turn.delivers r) := by
  have hanchored : Anchored (ErrorAbuse.turnStep site r turn) := h.anchored.turnStep turn
  cases turn with
  | preaccess v =>
      have hnext := h.preaccess site v
      rwa [← List.append_nil replies] at hnext
  | headerFilter v out =>
      have hnext := h.headerFilter site v out
      rwa [← List.append_nil replies] at hnext
  | clear => exact h.same hanchored rfl rfl rfl rfl (nomatch ·)
  | relocate loc => exact h.same hanchored rfl rfl rfl rfl fun hlost => ⟨hlost, rfl⟩
  | cleanupAdd => exact h.same hanchored rfl rfl rfl rfl fun hlost => ⟨hlost, rfl⟩
  | others shctx worker => exact h.same hanchored rfl rfl rfl rfl fun hlost => ⟨hlost, rfl⟩
  | reply now answer =>
      have hattached := h.attached (hreply rfl)
      have hr := turnStep_replied site now answer r
      refine ⟨hanchored, h.asking.replied h.anchored hattached hr, fun _ => ?_⟩
      generalize ErrorAbuse.turnStep site r (.reply now answer) = r' at hr ⊢
      cases hr with
      | unasked _ => exact hattached
      | lost hpos hctx => exact absurd hctx (hattached hpos)
      | answered a _ _ _ hpos _ _ => exact fun _ => hattached hpos

theorem run [DecidableEq ζ] (site : Site ζ) {turns : List (Turn ζ)} (h : Attended lost r replies)
    (hfirst : RunsFirst lost turns) : ∃ lost', Attended lost'
      (run (ErrorAbuse.turnStep site) r turns) (replies ++ delivered site r turns) := by
  induction turns generalizing lost r replies with
  | nil =>
      refine ⟨lost, ?_⟩
      simpa [delivered] using h
  | cons turn turns ih =>
      have hstep := ih (h.turnStep site turn hfirst.1) hfirst.2
      rwa [List.append_assoc] at hstep

end Attended

/-- **Redis is asked once and fails open.** Whatever happens to a main request, and
whatever becomes of asking Redis, in any state at most one `GET` was queued, the request's
count is raised by one for each `GET` whose callback has not run, and each has at most one
callback. `preaccess` parks the request only while its `GET` is under way. If no callback was
given a string, `preaccess` decides as the zone does. -/
theorem redis_asked_once [DecidableEq ζ] (site : Site ζ) (loc : LocConf ζ) (shctx : ζ → Shctx)
    (worker : Worker) (episodes : List (Episode ζ)) (turns : List (Turn ζ))
    (hturns : turns <+: episodes.flatMap Episode.turns) :
    let start := Exchange.start loc shctx worker
    let r := run (turnStep site) start turns
    let replies := delivered site start turns
    r.acts.countP Act.isGet ≤ 1 ∧
    r.count = 1 + r.waiting ∧
    r.acts.countP Act.isGet = r.waiting + replies.length ∧
    ∀ v, ((preaccess site v r).2 = .again → (preaccess site v r).1.waiting = 1) ∧
      ((∀ str, some (.string str) ∉ replies) → v.main = true → (preaccess site v r).2 ≠ .again →
        ∀ r₁ a zone, prepareCtx site v r = (r₁, some a) → (r₁.pool a).zone = some zone →
          (preaccess site v r).2 = localDecision site v zone a r₁) := by
  intro start r replies
  have hbegin : Attended false start [] :=
    ⟨.start loc shctx worker, .start loc shctx worker, fun _ hpos => absurd hpos (lt_irrefl 0)⟩
  have hfirst : RunsFirst false turns := by
    obtain ⟨turns', happend⟩ := hturns
    exact RunsFirst.of_append (happend ▸ RunsFirst.flatMap episodes)
  obtain ⟨lost, hanchored, hasking, -⟩ := hbegin.run site hfirst
  change Anchored r at hanchored
  change Asking r replies at hasking
  refine ⟨hasking.once, hasking.count, hasking.gets, fun v => ⟨?_, ?_⟩⟩
  · exact (hasking.preaccessed hanchored (preaccess_preaccessed site v r)).2
  · intro hnone hmain hfinal r₁ a zone hprepared hzone
    have hp := preaccess_preaccessed site v r
    generalize (preaccess site v r).1 = r' at hp
    generalize (preaccess site v r).2 = rc at hp hfinal
    cases hp with
    | sub hsub => cases hmain.symm.trans hsub
    | none _ _ hp => cases hp.symm.trans hprepared
    | keyless _ _ _ hp hkeyless =>
        cases hp.symm.trans hprepared
        cases hkeyless.symm.trans hzone
    | zoned _ _ _ _ _ _ hp hz hc =>
        cases hp.symm.trans hprepared
        cases hz.symm.trans hzone
        have hask := hasking.prepared hanchored (prepared_of_eq hprepared)
        refine hc.decision ?_ hfinal
        by_contra hbanned
        obtain ⟨str, hstr⟩ := hask.banned a (by simpa using hbanned)
        exact hnone str hstr

/-- A client that the zone has banned is parked, Redis knows of no ban, and the zone decides. -/
theorem redis_asked_once_nil :
    let site := Site.single { ZoneConf.small with redis := true }
    let worker : Worker := { Worker.zeroed 0 with context := some 0, ready := true }
    let start := Exchange.start .on (fun _ => .banned) worker
    let r := run (turnStep site) start [.preaccess (.roomy 3 8192), .reply 3 (some .nil)]
    r.acts.countP Act.isGet = r.waiting + 1 ∧ r.count = 1 + r.waiting ∧
    (preaccess site (.roomy 4 8192) r).2 =
      localDecision site (.roomy 4 8192) () 0 (prepareCtx site (.roomy 4 8192) r).1 ∧
    (preaccess site (.roomy 4 8192) r).2 = .status 429 := by
  intro site worker start r
  obtain ⟨-, hcount, hgets, hdecision⟩ := redis_asked_once site .on (fun _ => .banned) worker
    [.preaccess (.roomy 3 8192), .reply 3 (some .nil) (.roomy 3 8192)]
    [.preaccess (.roomy 3 8192), .reply 3 (some .nil)] ⟨[.preaccess (.roomy 3 8192)], rfl⟩
  have hstatus : (preaccess site (.roomy 4 8192) r).2 = .status 429 := by decide +kernel
  have hreplies : delivered site start [.preaccess (.roomy 3 8192), .reply 3 (some .nil)] =
      [some .nil] := by decide +kernel
  refine ⟨?_, hcount, (hdecision (.roomy 4 8192)).2 ?_ rfl ?_ _ 0 () ?_ ?_, hstatus⟩
  · rw [hreplies] at hgets
    exact hgets
  · rw [hreplies]
    simp
  · exact fun hagain => nomatch hstatus.symm.trans hagain
  · exact Prod.ext rfl (by decide +kernel)
  · decide +kernel

end ErrorAbuse
