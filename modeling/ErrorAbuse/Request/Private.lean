import ErrorAbuse.Request.Once

/-!
# Rejections are private

When the module rejects a request it sets `own_rejection`, and the header filter that then
sees the response of the rejection adds `Cache-Control` and perhaps `Retry-After`. The filter
lets a response through as it is, though, once `response_seen` is set. Where a rejection ends
the check of a full zone the flag is unset again; where `preaccess` rejects, it is not, and a
request that comes back to `preaccess` after a response was filtered is rejected without the
two headers.
-/

namespace ErrorAbuse

open Lib

variable {ζ : Type} {site : Site ζ} {v : Visit} {zone : ζ} {r r' : Exchange ζ} {a : ℕ}

/-- The headers of a response that no shared cache may keep. -/
def HeadersOut.private (out : HeadersOut) (retryAfter : Option ℤ) : HeadersOut :=
  { out with
    lastModified := false
    headers := out.headers ++ ⟨"Cache-Control", "private, no-store"⟩ ::
      (retryAfter.map fun seconds => ⟨"Retry-After", toString seconds⟩).toList }

/-- What `Retry-After` is to say. -/
def retryAfter (status : ℕ) (blockedUntil now : ℤ) : Option ℤ :=
  if (status = 429 ∨ status = 503) ∧ blockedUntil > now then some (blockedUntil - now) else none

/-- A run of the header filter sends nothing, or marks the response. -/
def SendsPrivate [DecidableEq ζ] (site : Site ζ) (v : Visit) (out : HeadersOut) (r : Exchange ζ) :
    Prop :=
  (headerFilter site v out r).2 = .error ∨ ∃ a, (prepareCtx site v r).2 = some a ∧
    (headerFilter site v out r).2 = .next
      (out.private (retryAfter out.status ((prepareCtx site v r).1.pool a).blockedUntil v.now))

/-- The turn is a run of a handler that rejects the request. -/
def Rejects [DecidableEq ζ] (site : Site ζ) (r : Exchange ζ) : Turn ζ → Prop
  | .preaccess v => v.main = true ∧ (prepareCtx site v r).2.isSome ∧
      ∃ code, (preaccess site v r).2 = .status code
  | .headerFilter v out => ∃ code, (headerFilter site v out r).2 = .finalize code
  | _ => False

/-- The turn is a run of the header filter that takes the response of the context `a` and does not
itself reject the request. -/
def Takes [DecidableEq ζ] (site : Site ζ) (a : ℕ) (r : Exchange ζ) : Turn ζ → Prop
  | .headerFilter v out => v.main = true ∧ (prepareCtx site v r).2 = some a ∧
      ((prepareCtx site v r).1.pool a).zone.isSome ∧
      ∀ code, (headerFilter site v out r).2 ≠ .finalize code
  | _ => False

/-- The turn is a run of `preaccess` for a context of which a response was filtered before. -/
def ComesLate [DecidableEq ζ] (site : Site ζ) (start : Exchange ζ) (before : List (Turn ζ)) :
    Turn ζ → Prop
  | .preaccess v => ∃ a, (prepareCtx site v (run (turnStep site) start before)).2 = some a ∧
      ∃ early turn late, before = early ++ turn :: late ∧
        Takes site a (run (turnStep site) start early) turn
  | _ => False

/-- The turn is a run of the header filter for the main request. -/
def Turn.filters : Turn ζ → Bool
  | headerFilter v _ => v.main
  | _ => false

/-! ## The headers -/

theorem addHeader_eq {room : Bool} {key value : String} {out out' : HeadersOut}
    (h : addHeader room key value out = some out') :
    out' = { out with headers := out.headers ++ [⟨key, value⟩] } := by
  rw [addHeader] at h
  split_ifs at h
  exact (Option.some.inj h).symm

/-- Either there is no memory for the headers, or they say what they should. -/
theorem addRejectHeaders_eq {deadline : ℤ} {out out' : HeadersOut}
    (h : addRejectHeaders v deadline out = some out') :
    out' = out.private (retryAfter out.status deadline v.now) := by
  rw [addRejectHeaders] at h
  obtain ⟨out₁, hcache, h⟩ := Option.bind_eq_some_iff.mp h
  obtain rfl := addHeader_eq hcache
  simp only [HeadersOut.private, retryAfter]
  by_cases hretry : (out.status = 429 ∨ out.status = 503) ∧ deadline > v.now
  · have hpos : ¬ deadline - v.now < 1 := by omega
    rw [if_pos hretry] at h ⊢
    simp only [if_neg hpos] at h
    split_ifs at h
    rw [addHeader_eq h]
    simp
  · rw [if_neg hretry] at h ⊢
    rw [← Option.some.inj h]
    simp

/-! ## Responses taken -/

/-- Preparing a context takes no response. -/
theorem Prepared.responseSeen (h : Anchored r) {found : Option ℕ} (hp : Prepared site v r r' found)
    (b : ℕ) : (r'.pool b).responseSeen = (r.pool b).responseSeen := by
  cases hp with
  | attached _ _ => rfl
  | restored a _ _ =>
      by_cases hba : b = a
      · subst hba
        rw [Exchange.pool_restore_self]
      · rw [Exchange.pool_restore_of_ne hba]
  | none _ _ _ => rfl
  | built _ _ _ c _ _ _ _ _ _ hbuilt =>
      by_cases hbn : b = r.next
      · subst hbn
        rw [h.unused r.next le_rfl]
        show (Function.update r.pool r.next c r.next).responseSeen = _
        rw [Function.update_self]
        cases hbuilt <;> rfl
      · exact congrArg ReqCtx.responseSeen (Function.update_of_ne hbn c r.pool)

theorem Asked.flags {b : Bool} (h : Asked site zone a r r' b) :
    (r'.pool a).responseSeen = (r.pool a).responseSeen ∧
      (r'.pool a).ownRejection = (r.pool a).ownRejection := by
  cases h with
  | pending _ => exact ⟨rfl, rfl⟩
  | _ => simp only [Exchange.pool_onCtx_self, ReqCtx.asked, and_self]

theorem Ruled.flags {rc : PhaseRc} (h : Ruled site v zone a r r' rc) :
    (r'.pool a).responseSeen = (r.pool a).responseSeen ∧
      ((r.pool a).ownRejection = true → (r'.pool a).ownRejection = true) ∧
      ∀ code, rc = .status code → (r'.pool a).ownRejection = true := by
  cases h with
  | rejected => simp only [Exchange.pool_work_self, ReqCtx.judged, implies_true, and_self]
  | _ =>
      simp only [Exchange.pool_work_self, ReqCtx.judged, true_and]
      exact ⟨id, fun _ hrc => by cases hrc⟩

/-- `preaccess` leaves `response_seen` as it is and never unsets `own_rejection`. -/
theorem Checked.flags {rc : PhaseRc} (h : Checked site v zone a r r' rc) :
    (r'.pool a).responseSeen = (r.pool a).responseSeen ∧
      ((r.pool a).ownRejection = true → (r'.pool a).ownRejection = true) ∧
      ∀ code, rc = .status code → (r'.pool a).ownRejection = true := by
  cases h with
  | parked _ _ _ hasked =>
      exact ⟨hasked.flags.1, fun h => hasked.flags.2.trans h, fun _ hrc => (nomatch hrc)⟩
  | refused _ _ _ _ _ hasked hruled =>
      obtain ⟨hseen, hown, hreject⟩ := hruled.flags
      exact ⟨hseen.trans hasked.flags.1, fun h => hown (hasked.flags.2.trans h), hreject⟩
  | settled _ _ _ hruled => exact hruled.flags

/-- Only a run of the header filter takes a response. -/
theorem turnStep_responseSeen [DecidableEq ζ] (h : Anchored r) (a : ℕ) (turn : Turn ζ) :
    ((turnStep site r turn).pool a).responseSeen = true ↔
      (r.pool a).responseSeen = true ∨ Takes site a r turn := by
  cases turn with
  | preaccess v =>
      have hkept : ((preaccess site v r).1.pool a).responseSeen = (r.pool a).responseSeen := by
        have hp := preaccess_preaccessed site v r
        generalize (preaccess site v r).1 = r' at hp ⊢
        refine hp.keeps (P := fun r' => (r'.pool a).responseSeen = (r.pool a).responseSeen) rfl
          (fun _ _ hp => hp.responseSeen h a) fun r₁ b zone hp _ hc => ?_
        rw [← hp.responseSeen h a]
        by_cases hab : a = b
        · subst hab
          exact hc.flags.1
        · rw [hc.within.other a hab]
      rw [turnStep, hkept]
      exact (or_iff_left id).symm
  | headerFilter v out =>
      have hp := headerFilter_headerFiltered site v out r
      rw [turnStep]
      simp only [Takes]
      generalize (headerFilter site v out r).1 = r' at hp ⊢
      generalize (headerFilter site v out r).2 = rc at hp ⊢
      cases hp with
      | sub hsub => simp [hsub]
      | none r₁ _ hp => simp [hp, (prepared_of_eq hp).responseSeen h a]
      | keyless r₁ b _ hp hnone =>
          rw [(prepared_of_eq hp).responseSeen h a, hp]
          refine (or_iff_left ?_).symm
          rintro ⟨-, hb, hzone, -⟩
          obtain rfl := Option.some.inj hb
          simp [hnone] at hzone
      | again r₁ b zone _ hp _ hseen =>
          rw [(prepared_of_eq hp).responseSeen h a, hp]
          refine (or_iff_left_of_imp ?_).symm
          rintro ⟨-, hb, -, -⟩
          obtain rfl := Option.some.inj hb
          exact ((prepared_of_eq hp).responseSeen h b).symm.trans hseen
      | zoned r₁ _ b zone _ hmain hp hzone hseen hf =>
          rw [← (prepared_of_eq hp).responseSeen h a, hp]
          by_cases hba : b = a
          · subst hba
            rw [hseen, hmain, hzone]
            cases hf with
            | own _ _ hadd => cases hadd' : addRejectHeaders v (r₁.pool b).blockedUntil out <;> simp_all [ReqCtx.seen]
            | _ => simp [ReqCtx.seen, ReqCtx.judged, ReqCtx.counted, ReqCtx.keyed]
          · rw [hf.within.other a (Ne.symm hba)]
            simp [hba]
  | reply now reply =>
      have hkept : ((turnStep site r (.reply now reply)).pool a).responseSeen =
          (r.pool a).responseSeen := by
        have hr := turnStep_replied site now reply r
        generalize turnStep site r (.reply now reply) = r' at hr ⊢
        cases hr with
        | unasked _ => rfl
        | lost _ _ => rfl
        | answered b _ _ _ _ _ _ =>
            by_cases hab : a = b
            · subst hab
              simp only [Exchange.pool_onCtx_self, ReqCtx.answered]
            · exact congrArg ReqCtx.responseSeen (Function.update_of_ne hab ..)
      rw [hkept]
      exact (or_iff_left id).symm
  | _ => exact (or_iff_left id).symm

/-- A context has taken a response if and only if some run of the header filter took it. -/
theorem responseSeen_run [DecidableEq ζ] (site : Site ζ) (loc : LocConf ζ) (shctx : ζ → Shctx)
    (worker : Worker) (turns : List (Turn ζ)) (a : ℕ) :
    ((run (turnStep site) (.start loc shctx worker) turns).pool a).responseSeen = true ↔
      ∃ early turn late, turns = early ++ turn :: late ∧
        Takes site a (run (turnStep site) (.start loc shctx worker) early) turn := by
  have hrun := run_latched Anchored (fun r => (r.pool a).responseSeen = true) (Takes site a)
    (fun _ => False) (fun _ turn h => h.turnStep turn)
    (fun _ turn h => by simpa using turnStep_responseSeen h a turn)
    (Anchored.start loc shctx worker) Bool.false_ne_true turns
  simpa using hrun

/-! ## After the rejection -/

/-- The context `a` has rejected the request, and `seen` says whether it takes no more
responses. -/
structure Sworn (a : ℕ) (seen : Bool) (r : Exchange ζ) : Prop where
  anchored : Anchored r
  zoned : (r.pool a).zone.isSome
  own : (r.pool a).ownRejection = true
  responseSeen : (r.pool a).responseSeen = seen

namespace Sworn

variable {seen : Bool}

theorem lt_next (h : Sworn a seen r) : a < r.next := h.anchored.lt_next a (.inr (h.anchored.zoned a h.zoned))

theorem within (h : Sworn a seen r) (hw : Within a r r') (hown : (r'.pool a).ownRejection = true)
    (hseen : (r'.pool a).responseSeen = seen) : Sworn a seen r' where
  anchored := h.anchored.within hw h.lt_next
  zoned := hw.zone ▸ h.zoned
  own := hown
  responseSeen := hseen

/-- Every handler finds the context. -/
theorem prepared (h : Sworn a seen r) {found : Option ℕ} (hp : Prepared site v r r' found) :
    found = some a ∧ Sworn a seen r' := by
  have hanchored := (h.anchored.prepared hp).1
  have hfind := h.anchored.zoned a h.zoned
  cases hp with
  | attached b hb =>
      obtain rfl := h.anchored.attached b a hb hfind
      exact ⟨rfl, h⟩
  | restored b _ hb =>
      obtain rfl := Option.some.inj (hfind.symm.trans hb)
      refine ⟨rfl, hanchored, ?_, ?_, ?_⟩ <;> rw [Exchange.pool_restore_self]
      · exact h.zoned
      · exact h.own
      · exact h.responseSeen
  | none _ hnone _ => cases hfind.symm.trans hnone
  | built _ _ _ _ _ _ hnone _ _ _ _ => cases hfind.symm.trans hnone

theorem preaccessed (h : Sworn a seen r) {rc : PhaseRc} (hp : Preaccessed site v r r' rc) :
    Sworn a seen r' := by
  refine hp.keeps h (fun r₁ found hprepared => (h.prepared hprepared).2) ?_
  intro r₁ b z hprepared _ hc
  obtain ⟨hb, h₁⟩ := h.prepared hprepared
  obtain rfl := Option.some.inj hb
  obtain ⟨hseen, hown, -⟩ := hc.flags
  exact h₁.within hc.within (hown h₁.own) (hseen.trans h₁.responseSeen)

theorem replied (h : Sworn a seen r) {now : ℤ} {reply : Option Reply}
    (hr : Replied site now reply r r') : Sworn a seen r' := by
  have hanchored := h.anchored.replied hr
  cases hr with
  | unasked _ => exact h
  | lost _ _ => exact { h with anchored := hanchored }
  | answered b _ _ _ _ hctx _ =>
      obtain rfl := h.anchored.attached b a hctx (h.anchored.zoned a h.zoned)
      refine h.within (within_answered ..) ?_ ?_ <;>
        simp only [Exchange.pool_onCtx_self, ReqCtx.answered]
      · exact h.own
      · exact h.responseSeen

/-- Until a response is filtered nothing changes. -/
theorem turnStep [DecidableEq ζ] (h : Sworn a seen r) {turn : Turn ζ} (hturn : turn.filters = false) :
    Sworn a seen (turnStep site r turn) := by
  have hanchored : Anchored (ErrorAbuse.turnStep site r turn) := h.anchored.turnStep turn
  cases turn with
  | preaccess v => exact h.preaccessed (preaccess_preaccessed site v r)
  | headerFilter v out =>
      have hsub : v.main = false := hturn
      simp only [ErrorAbuse.turnStep, headerFilter, hsub, Bool.not_false, if_true]
      exact h
  | reply now reply => exact h.replied (turnStep_replied site now reply r)
  | _ => exact { h with anchored := hanchored }

theorem run [DecidableEq ζ] (h : Sworn a seen r) {turns : List (Turn ζ)}
    (hturns : ∀ turn ∈ turns, turn.filters = false) :
    Sworn a seen (run (ErrorAbuse.turnStep site) r turns) :=
  run_invariant (Sworn a seen) (fun turn => turn.filters = false)
    (fun _ _ h hturn => h.turnStep hturn) h hturns

/-- The header filter then marks the response, unless it takes none. -/
theorem sendsPrivate_iff [DecidableEq ζ] (h : Sworn a seen r) (hmain : v.main = true) (out : HeadersOut) :
    SendsPrivate site v out r ↔ seen = false := by
  rcases hr₁ : prepareCtx site v r with ⟨r₁, found⟩
  obtain ⟨rfl, h₁⟩ := h.prepared (prepared_of_eq hr₁)
  obtain ⟨zone, hzone⟩ := Option.isSome_iff_exists.mp h₁.zoned
  have hunmarked : ∀ retry, out ≠ out.private retry := fun retry heq => by
    have hlength := congrArg (fun o => o.headers.length) heq
    simp [HeadersOut.private] at hlength
  have hsends : SendsPrivate site v out r ↔ (headerFilter site v out r).2 = .error ∨
      (headerFilter site v out r).2 =
        .next (out.private (retryAfter out.status (r₁.pool a).blockedUntil v.now)) := by
    simp [SendsPrivate, hr₁]
  rw [hsends]
  have hp := headerFilter_headerFiltered site v out r
  generalize (headerFilter site v out r).1 = r' at hp
  generalize (headerFilter site v out r).2 = rc at hp
  cases hp with
  | sub hsub => cases hmain.symm.trans hsub
  | none _ _ hp => cases hr₁.symm.trans hp
  | keyless _ _ _ hp hnone =>
      cases hr₁.symm.trans hp
      cases hzone.symm.trans hnone
  | again _ _ _ _ hp _ hseen =>
      cases hr₁.symm.trans hp
      obtain rfl := h₁.responseSeen.symm.trans hseen
      simp [hunmarked]
  | zoned _ _ _ _ _ _ hp _ hseen hf =>
      cases hr₁.symm.trans hp
      obtain rfl := h₁.responseSeen.symm.trans hseen
      refine iff_of_true ?_ rfl
      have hown := h₁.own
      cases hf with
      | own _ _ hadd =>
          cases hheaders : addRejectHeaders v (r₁.pool a).blockedUntil out with
          | none =>
              rw [hheaders] at hadd
              exact .inl hadd
          | some out' =>
              rw [hheaders] at hadd
              exact .inr (addRejectHeaders_eq hheaders ▸ hadd)
      | quiet hno => cases hown.symm.trans hno
      | observed _ _ hno _ => cases hown.symm.trans hno
      | counted _ _ _ _ _ _ _ _ hno _ _ _ => cases hown.symm.trans hno
      | full _ _ _ _ _ _ _ hno _ _ _ => cases hown.symm.trans hno

end Sworn

/-- A rejection leaves a context that has sworn it; whether it takes a response after that
depends on when the rejection came. -/
theorem sworn_of_rejects [DecidableEq ζ] (hanchored : Anchored r) {turn : Turn ζ}
    (h : Rejects site r turn) :
    ∃ a seen, Sworn a seen (turnStep site r turn) ∧ (seen = true ↔ ∃ v, turn = .preaccess v ∧
      ∃ b, (prepareCtx site v r).2 = some b ∧ (r.pool b).responseSeen = true) := by
  have hstep : Anchored (turnStep site r turn) := hanchored.turnStep turn
  cases turn with
  | preaccess v =>
      obtain ⟨hmain, hfound, code, hrc⟩ := h
      have hp := preaccess_preaccessed site v r
      rw [turnStep] at hstep ⊢
      generalize (preaccess site v r).1 = r' at hp hstep ⊢
      rw [hrc] at hp
      generalize hstatus : PhaseRc.status code = rc at hp
      cases hp with
      | sub hsub => cases hmain.symm.trans hsub
      | none _ _ hp => simp [hp] at hfound
      | keyless => cases hstatus
      | zoned r₁ _ a zone _ _ hp hzone hc =>
          obtain ⟨hseen, -, hown⟩ := hc.flags
          refine ⟨a, (r₁.pool a).responseSeen, ⟨hstep, ?_, hown code hstatus.symm, hseen⟩, ?_⟩
          · rw [hc.within.zone, hzone]
            rfl
          · simp [hp, (prepared_of_eq hp).responseSeen hanchored]
  | headerFilter v out =>
      obtain ⟨code, hrc⟩ := h
      have hp := headerFilter_headerFiltered site v out r
      rw [turnStep] at hstep ⊢
      generalize (headerFilter site v out r).1 = r' at hp hstep ⊢
      rw [hrc] at hp
      generalize hstatus : FilterRc.finalize code = rc at hp
      cases hp with
      | zoned r₁ _ a zone _ _ hp hzone _ hf =>
          have hzoned : (r'.pool a).zone.isSome := by rw [hf.within.zone, hzone]; rfl
          refine ⟨a, false, ⟨hstep, hzoned, ?_, ?_⟩, by simp⟩ <;>
            cases hf with
            | own _ _ hadd => cases h : addRejectHeaders v (r₁.pool a).blockedUntil out <;> simp_all
            | full => simp only [Exchange.pool_work_self, ReqCtx.counted, ReqCtx.keyed, ReqCtx.judged,
                Bool.not_true]
            | _ => cases hstatus
      | _ => cases hstatus
  | _ => exact h.elim

/-! ## Every rejection -/

/-- **Private rejections.** In every run: the response that is sent after a rejection, which
is the one of the next run of the header filter, is marked private, or nothing is sent, if
and only if the rejection did not come from a run of `preaccess` after a response of the
request was filtered. -/
theorem rejection_private_iff [DecidableEq ζ] (site : Site ζ) (loc : LocConf ζ)
    (shctx : ζ → Shctx) (worker : Worker) (before : List (Turn ζ)) (turn : Turn ζ)
    (between : List (Turn ζ)) (v : Visit) (out : HeadersOut)
    (hrejects : Rejects site (run (turnStep site) (.start loc shctx worker) before) turn)
    (hbetween : ∀ t ∈ between, t.filters = false) (hmain : v.main = true) :
    SendsPrivate site v out
        (run (turnStep site) (.start loc shctx worker) (before ++ turn :: between)) ↔
      ¬ ComesLate site (.start loc shctx worker) before turn := by
  obtain ⟨a, seen, hsworn, hseen⟩ :=
    sworn_of_rejects (.run site loc shctx worker before) hrejects
  have hlate : ComesLate site (.start loc shctx worker) before turn ↔ seen = true := by
    simp only [hseen, responseSeen_run]
    cases turn <;> simp [ComesLate]
  rw [run_append, run_cons, hlate, (hsworn.run hbetween).sendsPrivate_iff hmain, Bool.not_eq_true]

/-- A banned client is rejected at once, with both headers. -/
theorem rejection_private_iff_banned :
    SendsPrivate (.single .small) (.roomy 3 8192) ⟨429, true, []⟩
      (run (turnStep (.single .small)) (.start .on (fun _ => .banned) (.zeroed 0))
        ([] ++ [.preaccess (.roomy 3 8192)])) := by
  refine (rejection_private_iff (.single .small) .on (fun _ => .banned) (.zeroed 0) []
    (.preaccess (.roomy 3 8192)) [] (.roomy 3 8192) ⟨429, true, []⟩
    ⟨rfl, rfl, 429, by decide +kernel⟩ (fun _ ht => (nomatch ht)) rfl).mpr ?_
  rintro ⟨_, -, early, turn, late, hnil, -⟩
  exact List.append_ne_nil_of_right_ne_nil early (List.cons_ne_nil turn late) hnil.symm

/-- A response passes the header filter, another filter replaces it, which redirects the request,
and meanwhile other requests get the client banned: the rejection goes out unmarked. -/
theorem rejection_not_private :
    let site := Site.single .small
    let before : List (Turn Unit) := [.headerFilter (.roomy 1 4096) ⟨200, true, []⟩, .clear,
      .relocate .on, .others (fun _ => .banned) (.zeroed 0)]
    let r := run (turnStep site) (.start .on (fun _ => .empty) (.zeroed 0)) before
    Rejects site r (.preaccess (.roomy 3 8192)) ∧
      ¬ SendsPrivate site (.roomy 3 8192) ⟨429, true, []⟩
        (turnStep site r (.preaccess (.roomy 3 8192))) := by
  intro site before r
  refine ⟨⟨rfl, by decide +kernel, 429, by decide +kernel⟩, ?_⟩
  have hsent : (headerFilter site (.roomy 3 8192) ⟨429, true, []⟩
      (turnStep site r (.preaccess (.roomy 3 8192)))).2 = .next ⟨429, true, []⟩ := by decide +kernel
  rintro (herror | ⟨a, -, hmarked⟩)
  · cases hsent.symm.trans herror
  · have hheaders := congrArg (fun rc => match rc with
      | .next out => out.headers.length
      | _ => 0) (hsent.symm.trans hmarked)
    simp [HeadersOut.private] at hheaders

end ErrorAbuse
