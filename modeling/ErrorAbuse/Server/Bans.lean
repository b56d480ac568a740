import ErrorAbuse.Lib.Evidence
import ErrorAbuse.Request.Asking
import ErrorAbuse.Server.Serving
import ErrorAbuse.Zone.Exactness
import ErrorAbuse.Zone.Runs

/-!
# Bans of a server

A ban rests on the requests of the banned client: as many different ones as the threshold says,
each with a tracked response, within one interval. Whatever the allocator refuses and whatever
is evicted, no client is turned away for less (`rejection_justified`). Once there, a ban is
enforced against every request of the client, on every worker, until it ends
(`ban_enforced`). As long as the client is not evicted, who is turned away is exactly who the
reference limiter bans (`enforcement_exact`).
-/

namespace ErrorAbuse

open Lib Lib.Limiter

variable {core : Core} {conf : ZoneConf} {t : ℤ} {s s' : Shctx} {cs : List Call}

/-! ## What the entries of a zone rest on -/

/-- The call records an event of the key. -/
def Call.records (key : Key) (c : Call) : Bool := c.isRecord && decide ((c.key : Key) = key)

/-- The times of the events that some calls recorded for a key. -/
def hitsOf (key : Key) (cs : List Call) : List ℤ := (cs.filter (Call.records key)).map Call.now

theorem hitsOf_append (key : Key) (cs cs' : List Call) :
    hitsOf key (cs ++ cs') = hitsOf key cs ++ hitsOf key cs' := by
  rw [hitsOf, List.filter_append, List.map_append]
  rfl

theorem hitsOf_singleton (key : Key) (c : Call) :
    hitsOf key [c] = if c.records key then [c.now] else [] := by
  by_cases hc : c.records key <;> simp [hitsOf, hc]

/-- A zone at time `t` after these calls: each of its nodes rests on the events recorded for its
key. -/
structure ZoneGrounded (core : Core) (conf : ZoneConf) (t : ℤ) (cs : List Call) (s : Shctx) :
    Prop where
  ok : ZoneOk core conf t s
  past : ∀ c ∈ cs, c.now ≤ t
  nodes : ∀ key n, nodeOf core s key = some n →
    Grounded (policy conf) t (hitsOf key cs) (n.entry conf)

namespace ZoneGrounded

theorem hits_le (h : ZoneGrounded core conf t cs s) {key : Key} {x : ℤ} (hx : x ∈ hitsOf key cs) :
    x ≤ t := by
  obtain ⟨c, hc, rfl⟩ := List.mem_map.mp hx
  exact h.past c (List.mem_of_mem_filter hc)

/-- A node that a call leaves alone. -/
theorem keep (h : ZoneGrounded core conf t cs s) {key : Key} {n : Node} (c : Call) (ht : t ≤ c.now)
    (hn : nodeOf core s key = some n) :
    Grounded (policy conf) c.now (hitsOf key (cs ++ [c])) (n.entry conf) := by
  refine (h.nodes key n hn).mono ht ?_
  rw [hitsOf_append]
  exact List.sublist_append_left _ _

/-- The node that a call works on, before and after. -/
theorem work (h : ZoneGrounded core conf t cs s) (c : Call) (ht : t ≤ c.now) (h0 : 0 ≤ c.now)
    {n : Node} (hn : c.Subject core conf s n) :
    Grounded (policy conf) c.now (hitsOf c.key (cs ++ [c])) ((c.onNode conf n).1.entry conf) := by
  obtain ⟨hok, hls, he⟩ := hn.spec h.ok.settled ht h0
  have hbefore : Grounded (policy conf) c.now (hitsOf c.key cs) (n.entry conf) := by
    cases hn with
    | found n hn => exact (h.nodes _ n hn).mono ht (.refl _)
    | created _ hnone =>
        rw [he, entryOf_none hnone]
        exact .empty _ _ _
  obtain ⟨-, hsame, -⟩ := c.onNode_simulates hok hls h0
  refine Grounded.congr ?_ hsame
  rw [hitsOf_append, hitsOf_singleton]
  cases c with
  | record key now slab =>
      have hrecords : (Call.record key now slab).records key = true := by
        simp [Call.records, Call.isRecord, Call.key]
      rw [Call.key, if_pos hrecords]
      exact hbefore.hit fun x hx => (h.hits_le hx).trans ht
  | isBlocked key now =>
      have hrecords : ¬ (Call.isBlocked key now).records key = true := by
        simp [Call.records, Call.isRecord]
      rw [Call.key, if_neg hrecords, List.append_nil]
      exact hbefore.check

theorem exec (h : ZoneGrounded core conf t cs s) (c : Call) (ht : t ≤ c.now) (h0 : 0 ≤ c.now) :
    ZoneGrounded core conf c.now (cs ++ [c]) (callStep core conf s c) := by
  refine ⟨exec_zoneOk h.ok c ht h0, fun c' hc' => ?_, fun key n hn => ?_⟩
  · rcases List.mem_append.mp hc' with hc' | hc'
    · exact (h.past c' hc').trans ht
    · exact (List.mem_singleton.mp hc') ▸ le_rfl
  · obtain ⟨lost, s₁, hsh, -, heff, -⟩ := exec_effect conf h.ok.indexed c
    have h₁ : ZoneGrounded core conf t cs s₁ :=
      ⟨⟨hsh.indexed, fun hn => h.ok.nodes (hsh.nodeOf_some h.ok.indexed hn)⟩, h.past,
        fun key n hn => h.nodes key n (hsh.nodeOf_some h.ok.indexed hn)⟩
    rw [callStep] at hn
    generalize c.exec core conf s = result at heff hn
    cases heff with
    | absent _ _ => exact h₁.keep c ht hn
    | full _ _ => exact h₁.keep c ht hn
    | wrote m s' hsub _ _ _ _ hnode =>
        rw [hnode] at hn
        split_ifs at hn with hk
        · obtain rfl := Option.some.inj hn
          exact hk ▸ h₁.work c ht h0 hsub
        · exact h₁.keep c ht hn

theorem start (core : Core) (conf : ZoneConf) : ZoneGrounded core conf 0 [] .empty where
  ok := zoneOk_empty core conf 0
  past _ hc := nomatch hc
  nodes key n hn := by simp [nodeOf, lookup, Shctx.empty, lookupFrom] at hn

/-- Every run of calls leaves a zone in which bans and events rest on the calls. -/
theorem run (h : ZoneGrounded core conf t cs s) (h0 : 0 ≤ t) {cs' : List Call}
    (hclock : Clocked Call.now t cs') :
    ZoneGrounded core conf (lastTime Call.now t cs') (cs ++ cs')
      (run (callStep core conf) s cs') := by
  induction cs' generalizing t s cs with
  | nil => simpa using h
  | cons c cs' ih =>
      have hstep := h.exec c hclock.1 (h0.trans hclock.1)
      have hrun := ih hstep (h0.trans hclock.1) hclock.2
      rwa [List.append_assoc, List.singleton_append] at hrun

/-- A ban that is in force has its grounds. -/
theorem grounds (h : ZoneGrounded core conf t cs s) {key : Key} {n : Node} {now : ℤ}
    (hn : nodeOf core s key = some n) (ht : t ≤ now) (h0 : 0 ≤ now) (hb : n.blockedUntil > now) :
    Grounds (policy conf) (hitsOf key cs) n.blockedUntil :=
  ((h.nodes key n hn).mono ht (.refl _)).grounds (standing_of_gt h0 hb)

end ZoneGrounded

/-- A zone turns a client away exactly while its ban is in force. -/
theorem isBlocked_ok_iff (conf : ZoneConf) (h : Indexed core s) (key : Digest) (now : ℤ) :
    (isBlocked core conf key now s).2.rc = .ok ↔
      ∃ n, nodeOf core s key = some n ∧ now < n.blockedUntil := by
  constructor
  · intro hrc
    obtain ⟨lost, s₁, hsh, -, heff, -⟩ := exec_effect conf h (.isBlocked key now)
    have hexec : (Call.isBlocked key now).exec core conf s = isBlocked core conf key now s := rfl
    rw [hexec] at heff
    generalize isBlocked core conf key now s = result at heff hrc
    cases heff with
    | absent _ _ => cases hrc
    | full hr _ => cases hr
    | wrote m s' hsub _ _ _ _ _ =>
        cases hsub with
        | created hr _ => cases hr
        | found n hn =>
            refine ⟨n, hsh.nodeOf_some h hn, ?_⟩
            by_contra hb
            simp only [Call.onNode, isBlockedNode_eq, Call.now] at hrc
            rw [if_neg (show ¬ n.blockedUntil > now from hb)] at hrc
            cases hrc
  · rintro ⟨n, hn, hlt⟩
    have hverdict : ((Call.isBlocked key now).exec core conf s).2 =
        (Call.isBlocked key now).verdict conf (.banned n.blockedUntil) :=
      (exec_of_banned h (.isBlocked key now) hn hlt).2 rfl
    exact congrArg Verdict.rc hverdict

/-- The entry of a key is banned exactly while the ban of its node is in force. -/
theorem entryOf_banned_iff {key : Key} {now : ℤ} (h0 : 0 ≤ now) :
    (∃ n, nodeOf core s key = some n ∧ now < n.blockedUntil) ↔
      ∃ d, (entryOf core conf s key).standing (policy conf) now = .banned d := by
  cases hn : nodeOf core s key with
  | none => simp [entryOf_none hn, Entry.standing, Entry.empty]
  | some n =>
      rw [entryOf_some hn]
      by_cases hb : n.blockedUntil > now
      · exact ⟨fun _ => ⟨_, standing_of_gt h0 hb⟩, fun _ => ⟨n, rfl, hb⟩⟩
      · rw [(standing_of_not_gt conf hb).1]
        simpa using hb

/-! ## Zones without Redis -/

variable {ζ : Type} {site : Site ζ} {v : Visit} {zone : ζ} {r r' : Exchange ζ} {a : ℕ}

/-- The request has a zone with Redis, or has never asked Redis. -/
def AsksOnlyFor (site : Site ζ) (r : Exchange ζ) : Prop :=
  (∃ a zone, (r.pool a).zone = some zone ∧ (site.zones zone).redis = true) ∨
    r.waiting = 0 ∧ ∀ a, (r.pool a).redisBlocked = false

namespace AsksOnlyFor

theorem start (site : Site ζ) (loc : LocConf ζ) (shctx : ζ → Shctx) (worker : Worker) :
    AsksOnlyFor site (Exchange.start loc shctx worker) :=
  .inr ⟨rfl, fun _ => rfl⟩

theorem prepared (h : AsksOnlyFor site r) (hanchored : Anchored r) {found : Option ℕ}
    (hp : Prepared site v r r' found) : AsksOnlyFor site r' := by
  have hpool : ∀ b, (r'.pool b).redisBlocked = (r.pool b).redisBlocked ∧
      ∀ zone, (r.pool b).zone = some zone → (r'.pool b).zone = some zone := by
    intro b
    cases hp with
    | attached _ _ => exact ⟨rfl, fun _ h => h⟩
    | restored a _ _ =>
        by_cases hba : b = a
        · subst hba
          rw [Exchange.pool_restore_self]
          exact ⟨rfl, fun _ h => h⟩
        · rw [Exchange.pool_restore_of_ne hba]
          exact ⟨rfl, fun _ h => h⟩
    | none _ _ _ => exact ⟨rfl, fun _ h => h⟩
    | built zone key result c cleanup _ _ _ _ _ hbuilt =>
        by_cases hbn : b = r.next
        · subst hbn
          rw [hanchored.unused r.next le_rfl]
          simp only [Function.update_self]
          refine ⟨?_, fun _ h => nomatch h⟩
          cases hbuilt <;> rfl
        · simp only [Function.update_of_ne hbn]
          exact ⟨trivial, fun _ h => h⟩
  have hwaiting : r'.waiting = r.waiting := by cases hp <;> rfl
  rcases h with ⟨b, zone, hzone, hredis⟩ | ⟨hw, hblocked⟩
  · exact .inl ⟨b, zone, (hpool b).2 zone hzone, hredis⟩
  · exact .inr ⟨hwaiting.trans hw, fun b => (hpool b).1.trans (hblocked b)⟩

/-- Work on a context with a zone, which asks nothing unless the zone has Redis. -/
theorem within (h : AsksOnlyFor site r) (hw : Within a r r') (hzone : (r.pool a).zone = some zone)
    (hquiet : (site.zones zone).redis = false → r'.waiting = r.waiting ∧
      (r'.pool a).redisBlocked = (r.pool a).redisBlocked) : AsksOnlyFor site r' := by
  cases hredis : (site.zones zone).redis with
  | true => exact .inl ⟨a, zone, hw.zone.trans hzone, hredis⟩
  | false =>
      obtain ⟨hwaiting, hblocked⟩ := hquiet hredis
      rcases h with ⟨b, z, hz, hon⟩ | ⟨hnone, hall⟩
      · refine .inl ⟨b, z, ?_, hon⟩
        by_cases hba : b = a
        · exact hba ▸ hw.zone.trans (hba ▸ hz)
        · rw [hw.other b hba, hz]
      · refine .inr ⟨hwaiting.trans hnone, fun b => ?_⟩
        by_cases hba : b = a
        · exact hba ▸ hblocked.trans (hall a)
        · rw [hw.other b hba, hall b]

theorem checked [DecidableEq ζ] (h : AsksOnlyFor site r) {rc : PhaseRc}
    (hzone : (r.pool a).zone = some zone) (hc : Checked site v zone a r r' rc) :
    AsksOnlyFor site r' := by
  refine h.within hc.within hzone fun hoff => ?_
  cases hc with
  | parked _ hon _ _ => simp [hoff] at hon
  | refused _ _ _ hon _ _ _ => simp [hoff] at hon
  | settled _ _ _ hruled =>
      cases hruled <;> exact ⟨rfl, by simp only [Exchange.pool_work_self, ReqCtx.judged]⟩

theorem filtered (h : AsksOnlyFor site r) {out : HeadersOut} {rc : FilterRc}
    (hzone : (r.pool a).zone = some zone) (hf : Filtered site v zone a out r r' rc) :
    AsksOnlyFor site r' := by
  refine h.within hf.within hzone fun _ => ?_
  cases hf with
  | own _ _ _ => exact ⟨rfl, by simp only [Exchange.pool_onCtx_self, ReqCtx.seen]⟩
  | quiet _ => exact ⟨rfl, by simp only [Exchange.pool_onCtx_self, ReqCtx.seen]⟩
  | observed _ _ _ _ =>
      exact ⟨rfl, by simp only [Exchange.pool_work_self, ReqCtx.seen, ReqCtx.judged]⟩
  | _ =>
      exact ⟨rfl, by simp only [Exchange.pool_work_self, ReqCtx.counted, ReqCtx.seen, ReqCtx.judged,
        ReqCtx.keyed]⟩

theorem replied (h : AsksOnlyFor site r) {now : ℤ} {reply : Option Reply}
    (hr : Replied site now reply r r') : AsksOnlyFor site r' := by
  rcases h with ⟨b, zone, hzone, hredis⟩ | ⟨hnone, hall⟩
  · refine .inl ⟨b, zone, ?_, hredis⟩
    cases hr with
    | unasked _ => exact hzone
    | lost _ _ => exact hzone
    | answered a count deadline banned _ _ _ =>
        by_cases hba : b = a
        · subst hba
          exact (within_answered b count deadline banned _ _ _).zone.trans hzone
        · have hother := (within_answered (r := r) a count deadline banned
            (r.worker.replied site.redis now reply) (r.count - 1) (r.waiting - 1)).other b hba
          exact (congrArg ReqCtx.zone hother).trans hzone
  · cases hr with
    | unasked _ => exact .inr ⟨hnone, hall⟩
    | lost hpos _ => exact absurd hpos (by omega)
    | answered _ _ _ _ hpos _ _ => exact absurd hpos (by omega)

theorem turnStep [DecidableEq ζ] (h : AsksOnlyFor site r) (hanchored : Anchored r) (turn : Turn ζ) :
    AsksOnlyFor site (turnStep site r turn) := by
  cases turn with
  | preaccess v =>
      refine (preaccess_preaccessed site v r).keeps h (fun _ _ hp => h.prepared hanchored hp) ?_
      exact fun r₁ a zone hp hzone hc => (h.prepared hanchored hp).checked hzone hc
  | headerFilter v out =>
      refine (headerFilter_headerFiltered site v out r).keeps h
        (fun _ _ hp => h.prepared hanchored hp) ?_
      exact fun r₁ a zone hp hzone _ hf => (h.prepared hanchored hp).filtered hzone hf
  | reply now reply => exact h.replied (turnStep_replied site now reply r)
  | _ => exact h

/-- A context of a zone without Redis has no ban from Redis. -/
theorem redisBlocked_eq_false (h : AsksOnlyFor site r) (hanchored : Anchored r)
    (hzone : (r.pool a).zone = some zone) (hoff : (site.zones zone).redis = false) :
    (r.pool a).redisBlocked = false := by
  rcases h with ⟨b, z, hz, hon⟩ | ⟨-, hall⟩
  · obtain rfl := hanchored.unique (by rw [hzone]; rfl) (by rw [hz]; rfl)
    obtain rfl := Option.some.inj (hzone.symm.trans hz)
    simp [hoff] at hon
  · exact hall a

end AsksOnlyFor

/-- What `preaccess` decides for a client of a zone. -/
theorem preaccess_eq_checkZone [DecidableEq ζ] (hmain : v.main = true) {r₁ : Exchange ζ}
    (hp : prepareCtx site v r = (r₁, some a)) (hzone : (r₁.pool a).zone = some zone) :
    preaccess site v r = checkZone site v zone a r₁ := by
  simp only [preaccess, hmain, Bool.not_true, Bool.false_eq_true, if_false, hp, hzone]

/-- Without Redis the zone alone decides. -/
theorem Checked.eq_localDecision [DecidableEq ζ] {rc : PhaseRc} (h : Checked site v zone a r r' rc)
    (hoff : (site.zones zone).redis = false) (hblocked : (r.pool a).redisBlocked = false) :
    rc = localDecision site v zone a r := by
  refine h.decision hblocked ?_
  rintro rfl
  cases h with
  | parked _ hon _ _ => simp [hoff] at hon
  | refused _ _ _ hon _ _ _ => simp [hoff] at hon
  | settled _ _ _ hruled => cases hruled

theorem Ruled.rejects {rc : PhaseRc} (h : Ruled site v zone a r r' rc)
    (hban : Banned site v zone a r) (hdry : effectiveDryRun (r.pool a) r.loc = false) :
    rc = .status r.loc.rejectStatus := by
  cases h with
  | passed _ _ _ hfree => exact absurd hban hfree
  | observed _ _ _ _ hd => simp [hdry] at hd
  | rejected _ _ _ _ _ => rfl

theorem Ruled.banned {code : ℕ} (h : Ruled site v zone a r r' (.status code)) :
    Banned site v zone a r := by
  cases h with
  | rejected _ _ _ hban _ => exact hban

/-- Asking changes nothing that the decision looks at. -/
theorem Asked.banned_iff {b : Bool} (h : Asked site zone a r r' b) :
    Banned site v zone a r' ↔ Banned site v zone a r := by
  have hkey := h.within.key
  have hredis := h.banned_eq a
  have hshctx : r'.shctx = r.shctx := by cases h <;> rfl
  rw [Banned, Banned, hkey, hredis, hshctx]

/-- A banned client is rejected or parked outside dry-run. -/
theorem Checked.again_or_rejected {rc : PhaseRc} (h : Checked site v zone a r r' rc)
    (hban : Banned site v zone a r) (hdry : effectiveDryRun (r.pool a) r.loc = false) :
    rc = .again ∧ (site.zones zone).redis = true ∨ rc = .status r.loc.rejectStatus := by
  cases h with
  | parked _ hon _ _ => exact .inl ⟨rfl, hon⟩
  | settled _ _ _ hruled => exact .inr (hruled.rejects hban hdry)
  | refused r₁ _ _ _ _ hasked hruled =>
      have hrejected := hruled.rejects (hasked.banned_iff.mpr hban)
      cases hasked with
      | skipped events block worker _ _ =>
          exact .inr (hrejected (by rw [Exchange.pool_onCtx_self]; exact hdry))

/-- Only a banned client is rejected. -/
theorem Checked.banned {code : ℕ} (h : Checked site v zone a r r' (.status code)) :
    Banned site v zone a r := by
  cases h with
  | settled _ _ _ hruled => exact hruled.banned
  | refused _ _ _ _ _ hasked hruled => exact hasked.banned_iff.mp hruled.banned

/-! ## Requests of a client -/

/-- A run of `preaccess` on a main request finds a context with this zone and identity; `r₁` is
the request with the context attached. -/
structure Finds (site : Site ζ) (v : Visit) (r r₁ : Exchange ζ) (a : ℕ) (zone : ζ) (key : Digest) :
    Prop where
  main : v.main = true
  found : prepareCtx site v r = (r₁, some a)
  zone_eq : (r₁.pool a).zone = some zone
  key_eq : (r₁.pool a).key = key

namespace Finds

variable {r₁ : Exchange ζ} {key : Digest}

theorem shctx_eq (h : Finds site v r r₁ a zone key) : r₁.shctx = r.shctx := by
  have hp := prepared_of_eq h.found
  cases hp <;> rfl

theorem checked [DecidableEq ζ] (h : Finds site v r r₁ a zone key) :
    Checked site v zone a r₁ (preaccess site v r).1 (preaccess site v r).2 := by
  rw [preaccess_eq_checkZone h.main h.found h.zone_eq]
  exact checkZone_checked site v zone a r₁

/-- In a zone without Redis, the decision is that of the zone. -/
theorem decision [DecidableEq ζ] (h : Finds site v r r₁ a zone key) (hanchored : Anchored r)
    (hasks : AsksOnlyFor site r) (hoff : (site.zones zone).redis = false) :
    (preaccess site v r).2 = localDecision site v zone a r₁ := by
  have hp := prepared_of_eq h.found
  refine h.checked.eq_localDecision hoff ?_
  exact (hasks.prepared hanchored hp).redisBlocked_eq_false (hanchored.prepared hp).1 h.zone_eq hoff

end Finds

/-! ## For concrete runs -/

/-- The small zone, tracking 404. -/
def ZoneConf.tracking : ZoneConf :=
  { ZoneConf.small with statuses := List.replicate 50 0 ++ [16] }

def HeadersOut.notFound : HeadersOut := ⟨404, false, []⟩

/-! ## Bans of a server -/

namespace Server

variable {ι ω : Type} [DecidableEq ι] [DecidableEq ω] [DecidableEq ζ] {owner : ι → ω}
  {loc : ι → LocConf ζ} {shctx : ζ → Shctx} {workers : ω → Worker}

omit [DecidableEq ι] [DecidableEq ω] in
/-- Who has recorded an event of a client, and when. -/
def offences (zone : ζ) (key : Key) (cs : List (ι × ζ × Call)) : List (ι × ℤ) :=
  (cs.filter fun c => decide (c.2.1 = zone) && c.2.2.records key).map fun c => (c.1, c.2.2.now)

omit [DecidableEq ι] [DecidableEq ω] in
theorem map_snd_offences (zone : ζ) (key : Key) (cs : List (ι × ζ × Call)) :
    (offences zone key cs).map Prod.snd = hitsOf key ((on zone cs).map Prod.snd) := by
  induction cs with
  | nil => rfl
  | cons c cs ih =>
      have hcons : offences zone key (c :: cs) = offences zone key [c] ++ offences zone key cs := by
        rw [offences, List.filter_cons]
        by_cases hc : decide (c.2.1 = zone) && c.2.2.records key <;> simp [offences, hc]
      have hon : on zone (c :: cs) = on zone [c] ++ on zone cs := on_append zone [c] cs
      rw [hcons, hon, List.map_append, List.map_append, hitsOf_append, ih]
      congr 1
      by_cases hz : c.2.1 = zone
      · by_cases hk : c.2.2.records key <;> simp [offences, on, hitsOf, hz, hk]
      · simp [offences, on, hitsOf, hz]

/-- Different offences are by different requests. -/
theorem nodup_offences (site : Site ζ) (owner : ι → ω) (loc : ι → LocConf ζ) (shctx : ζ → Shctx)
    (workers : ω → Worker) (es : List (Serving ι ω ζ)) (zone : ζ) (key : Key) :
    ((offences zone key (log site owner (start owner loc shctx workers) es)).map Prod.fst).Nodup := by
  refine List.nodup_iff_count_le_one.mpr fun i => ?_
  refine le_trans ?_ (countP_recordBy_le_one site owner loc shctx workers es i)
  rw [offences, List.map_map, List.count_eq_countP, List.countP_map, List.countP_filter]
  refine List.countP_mono_left fun c _ hc => ?_
  simp only [Function.comp_apply, Bool.and_eq_true, beq_iff_eq, Call.records] at hc
  simp [recordBy, hc.1, hc.2.2.1]

/-- The requests of a server are anchored, and ask Redis only for zones with Redis. -/
theorem view_local (site : Site ζ) (owner : ι → ω) (loc : ι → LocConf ζ) (shctx : ζ → Shctx)
    (workers : ω → Worker) (es : List (Serving ι ω ζ)) (i : ι) :
    Anchored ((run (serve site owner) (start owner loc shctx workers) es).view owner i) ∧
      AsksOnlyFor site ((run (serve site owner) (start owner loc shctx workers) es).view owner i) := by
  have hstart : ∀ i, Anchored ((start owner loc shctx workers).view owner i) ∧
      AsksOnlyFor site ((start owner loc shctx workers).view owner i) := fun i =>
    ⟨.start (loc i) shctx (workers (owner i)), .start site (loc i) shctx (workers (owner i))⟩
  exact view_invariant (fun r => Anchored r ∧ AsksOnlyFor site r)
    (fun _ turn h => ⟨h.1.turnStep turn, h.2.turnStep h.1 turn⟩) hstart es i

omit [DecidableEq ι] [DecidableEq ω] in
/-- The grounds of a ban are offences. -/
theorem exists_offences {conf : ZoneConf} {zone : ζ} {key : Key} {cs : List (ι × ζ × Call)} {d : ℤ}
    (h : Grounds (policy conf) (hitsOf key ((on zone cs).map Prod.snd)) d) :
    ∃ (hits : List (ι × ℤ)) (last : ℤ), hits.Sublist (offences zone key cs) ∧
      conf.threshold ≤ hits.length ∧
      (∀ hit ∈ hits, last - conf.interval < hit.2 ∧ hit.2 ≤ last) ∧
      last ∈ hitsOf key ((on zone cs).map Prod.snd) ∧ d = conf.addSaturate last conf.block := by
  obtain ⟨ts, last, hsub, hlen, hin, hd⟩ := h
  have hmem : last ∈ hitsOf key ((on zone cs).map Prod.snd) := hsub.subset (by simp)
  rw [← map_snd_offences] at hsub
  obtain ⟨hits, hhits, hmap⟩ := List.sublist_map_iff.mp hsub
  refine ⟨hits, last, hhits, ?_, fun hit hhit => ?_, hmem, hd⟩
  · rw [← List.length_map Prod.snd, ← hmap, List.length_append, List.length_singleton]
    exact hlen
  · have hts : hit.2 ∈ ts ++ [last] := hmap ▸ List.mem_map_of_mem hhit
    rcases List.mem_append.mp hts with hts | hts
    · exact hin _ hts
    · have := conf.interval_pos
      rw [List.mem_singleton.mp hts]
      exact ⟨by omega, le_rfl⟩

/-- A zone that turns a client away has been told of as many offences as its threshold says. -/
theorem offences_of_isBlocked (site : Site ζ) (owner : ι → ω) (loc : ι → LocConf ζ)
    (workers : ω → Worker) (es : List (Serving ι ω ζ)) (zone : ζ) (key : Digest) {now : ℤ}
    {s : Shctx} (hs : s = (run (serve site owner) (start owner loc (fun _ => .empty) workers) es).shctx
      zone)
    (hclock : Clocked Call.now 0 ((on zone (log site owner
      (start owner loc (fun _ => .empty) workers) es)).map Prod.snd ++ [.isBlocked key now]))
    (hrc : (isBlocked site.core (site.zones zone) key now s).2.rc = .ok) :
    ∃ (hits : List (ι × ℤ)) (last : ℤ),
      hits.Sublist (offences zone key (log site owner
        (start owner loc (fun _ => .empty) workers) es)) ∧
      (hits.map Prod.fst).Nodup ∧ (site.zones zone).threshold ≤ hits.length ∧
      (∀ hit ∈ hits, last - (site.zones zone).interval < hit.2 ∧ hit.2 ≤ last) ∧
      last ≤ now ∧ now < (site.zones zone).addSaturate last (site.zones zone).block := by
  obtain ⟨hpast, hlast, -⟩ := (clocked_append Call.now 0 _ _).mp hclock
  have h0 : 0 ≤ now := hpast.le_lastTime.trans hlast
  have hgrounded := (ZoneGrounded.start site.core (site.zones zone)).run le_rfl hpast
  have hzone : s = run (callStep site.core (site.zones zone)) .empty ((on zone (log site owner
      (start owner loc (fun _ => .empty) workers) es)).map Prod.snd) :=
    hs.trans (shctx_run (digested_start owner loc _ workers) zone es)
  rw [List.nil_append, ← hzone] at hgrounded
  obtain ⟨n, hn, hban⟩ := (isBlocked_ok_iff _ hgrounded.ok.indexed key now).mp hrc
  obtain ⟨hits, last, hhits, hlen, hin, hmem, hd⟩ :=
    exists_offences (hgrounded.grounds hn hlast h0 hban)
  refine ⟨hits, last, hhits, ?_, hlen, hin, (hgrounded.hits_le hmem).trans hlast, hd ▸ hban⟩
  exact (nodup_offences site owner loc _ workers es zone key).sublist (hhits.map Prod.fst)

/-- **Nobody is turned away for less than the threshold.** Whatever allocations fail and
whatever is evicted: if a client of a zone without Redis is rejected, then as many different
requests of that client as the threshold says have had a tracked response within one interval,
and the last of them is less than `block` ago. -/
theorem rejection_justified (site : Site ζ) (owner : ι → ω) (loc : ι → LocConf ζ)
    (workers : ω → Worker) (es : List (Serving ι ω ζ)) (i : ι) (v : Visit) (r₁ : Exchange ζ)
    (a : ℕ) (zone : ζ) (key : Digest) (code : ℕ) :
    let sv₀ := start owner loc (fun _ => .empty) workers
    let calls := log site owner sv₀ es
    let r := (run (serve site owner) sv₀ es).view owner i
    Finds site v r r₁ a zone key → (site.zones zone).redis = false →
    Clocked Call.now 0 ((on zone calls).map Prod.snd ++ [.isBlocked key v.now]) →
    (preaccess site v r).2 = .status code →
    ∃ (hits : List (ι × ℤ)) (last : ℤ), hits.Sublist (offences zone key calls) ∧
      (hits.map Prod.fst).Nodup ∧ (site.zones zone).threshold ≤ hits.length ∧
      (∀ hit ∈ hits, last - (site.zones zone).interval < hit.2 ∧ hit.2 ≤ last) ∧
      last ≤ v.now ∧ v.now < (site.zones zone).addSaturate last (site.zones zone).block := by
  intro sv₀ calls r hfinds hoff hclock hreject
  obtain ⟨hanchored, hasks⟩ := view_local site owner loc (fun _ => .empty) workers es i
  refine offences_of_isBlocked site owner loc workers es zone key
    (congrFun hfinds.shctx_eq zone) hclock ?_
  -- without Redis, it is the zone that has turned the client away
  rw [hfinds.decision hanchored hasks hoff, localDecision, hfinds.key_eq] at hreject
  by_contra hrc
  rw [if_neg hrc] at hreject
  cases hreject

/-- Two requests of one client, on two workers, get a tracked response each. -/
def twoNotFound : List (Serving ℕ ℕ Unit) :=
  [.request 0 ⟨.headerFilter (.roomy 1 4096) .notFound, rfl⟩,
    .request 1 ⟨.headerFilter (.roomy 2 8192) .notFound, rfl⟩]

/-- The third request of the client, on a third worker, is turned away for the first two. -/
theorem rejection_justified_third :
    let site := Site.single .tracking
    let sv₀ : Server ℕ ℕ Unit := start id (fun _ => .on) (fun _ => .empty) fun _ => .zeroed 0
    let calls := log site id sv₀ twoNotFound
    ∃ (hits : List (ℕ × ℤ)) (last : ℤ), hits.Sublist (offences () Digest.ofA calls) ∧
      (hits.map Prod.fst).Nodup ∧ 2 ≤ hits.length ∧
      (∀ hit ∈ hits, last - 10 < hit.2 ∧ hit.2 ≤ last) ∧
      last ≤ 3 ∧ 3 < ZoneConf.tracking.addSaturate last 20 := by
  intro site sv₀ calls
  let r := (run (serve site id) sv₀ twoNotFound).view id 2
  have hfinds : Finds site (.roomy 3 12288) r (prepareCtx site (.roomy 3 12288) r).1 0 () .ofA :=
    ⟨rfl, Prod.ext rfl (by decide +kernel), by decide +kernel, by decide +kernel⟩
  exact rejection_justified site id (fun _ => .on) (fun _ => .zeroed 0) twoNotFound 2
    (.roomy 3 12288) _ 0 () .ofA 429 hfinds rfl (by decide +kernel) (by decide +kernel)

/-! ## Enforcement -/

/-- A ban in a zone outlives what a server does before its end. -/
theorem bannedUntil_run {sv : Server ι ω ζ} (h : sv.Digested owner) {zone : ζ} {key : Digest} {d : ℤ}
    (hban : BannedUntil site.core d key (sv.shctx zone)) (es : List (Serving ι ω ζ))
    (hnow : ∀ c ∈ on zone (log site owner sv es), c.2.now < d) :
    BannedUntil site.core d key ((run (serve site owner) sv es).shctx zone) := by
  rw [shctx_run h]
  refine run_invariant (BannedUntil site.core d key) (fun c : Call => c.now < d) ?_ hban ?_
  · intro s c hs hc
    have hstep : BannedUntil site.core d key (requestStep site.core (site.zones zone) s (.call c)) :=
      requestStep_banned hs (.call c) hc
    exact hstep
  · intro c hc
    obtain ⟨c', hc', rfl⟩ := List.mem_map.mp hc
    exact hnow c' hc'

/-- **A ban is enforced on every worker.** From any reachable zones, at any point of a run: once a
client is banned in a zone until `d`, every request of that client, whichever worker serves it,
is rejected before `d` outside dry-run, or parked until Redis has answered; never let through. -/
theorem ban_enforced (site : Site ζ) (owner : ι → ω) (loc : ι → LocConf ζ) (ops : ζ → List Op)
    (workers : ω → Worker) (es es' : List (Serving ι ω ζ)) (zone : ζ) (key : Digest) (d : ℤ)
    (i : ι) (v : Visit) (r₁ : Exchange ζ) (a : ℕ) :
    let shctx := fun zone => run (opStep site.core (site.zones zone)) .empty (ops zone)
    let sv := run (serve site owner) (start owner loc shctx workers) es
    let r := (run (serve site owner) sv es').view owner i
    (∃ n, nodeOf site.core (sv.shctx zone) key = some n ∧ n.blockedUntil = d) →
    (∀ c ∈ on zone (log site owner sv es'), c.2.now < d) → v.now < d →
    Finds site v r r₁ a zone key → effectiveDryRun (r₁.pool a) r₁.loc = false →
    (preaccess site v r).2 = .status r₁.loc.rejectStatus ∨
      (preaccess site v r).2 = .again ∧ (site.zones zone).redis = true := by
  intro shctx sv r hban hnow hlt hfinds hdry
  have hdigested : sv.Digested owner :=
    run_invariant (Digested owner) (fun _ => True) (fun _ e h _ => digested_serve h e)
      (digested_start owner loc shctx workers) fun _ _ => trivial
  have hindexed : Indexed site.core (sv.shctx zone) := by
    rw [show sv.shctx zone = _ from shctx_run (digested_start owner loc shctx workers) zone es]
    exact run_invariant (Indexed site.core) (fun _ => True)
      (fun _ c h _ => callStep_indexed (site.zones zone) h c)
      (reachable_indexed site.core (site.zones zone) (ops zone)) fun _ _ => trivial
  obtain ⟨hi, n, hn, rfl⟩ := bannedUntil_run hdigested ⟨hindexed, hban⟩ es' hnow
  have hblocked : (isBlocked site.core (site.zones zone) key v.now (r₁.shctx zone)).2.rc = .ok := by
    rw [hfinds.shctx_eq]
    exact (isBlocked_ok_iff _ hi key v.now).mpr ⟨n, hn, hlt⟩
  have hbanned : Banned site v zone a r₁ := .inr (by rw [hfinds.key_eq]; exact hblocked)
  rcases hfinds.checked.again_or_rejected hbanned hdry with h | h
  · exact .inr h
  · exact .inl h

/-- The ban that two workers have brought about, met by a request on a third, after a fourth
request of the client was counted in vain. -/
theorem ban_enforced_third :
    let site := Site.single .tracking
    let sv := run (serve site id) (start id (fun _ => .on) (fun _ => .empty) fun _ => .zeroed 0)
      twoNotFound
    let r := (run (serve site id) sv [.request 3 ⟨.headerFilter (.roomy 3 8192) .notFound, rfl⟩]).view
      id 2
    let r₁ := (prepareCtx site (.roomy 4 12288) r).1
    (preaccess site (.roomy 4 12288) r).2 = .status r₁.loc.rejectStatus ∨
      (preaccess site (.roomy 4 12288) r).2 = .again ∧ (site.zones ()).redis = true := by
  intro site sv r r₁
  have hfinds : Finds site (.roomy 4 12288) r r₁ 0 () .ofA :=
    ⟨rfl, Prod.ext rfl (by decide +kernel), by decide +kernel, by decide +kernel⟩
  exact ban_enforced site id (fun _ => .on) (fun _ => []) (fun _ => .zeroed 0) twoNotFound
    [.request 3 ⟨.headerFilter (.roomy 3 8192) .notFound, rfl⟩] () .ofA 22 2 (.roomy 4 12288) _ 0
    ⟨(sv.shctx ()).mem 4096, by decide +kernel, by decide +kernel⟩ (by decide +kernel) (by decide)
    hfinds (by decide +kernel)

/-- **Enforcement is exact.** As long as the client is not force-evicted, a request to a zone
without Redis is rejected if and only if the reference limiter, told of the events that were
recorded on all workers, has the client banned; in dry-run it passes. -/
theorem enforcement_exact (site : Site ζ) (owner : ι → ω) (loc : ι → LocConf ζ)
    (workers : ω → Worker) (es : List (Serving ι ω ζ)) (i : ι) (v : Visit) (r₁ : Exchange ζ)
    (a : ℕ) (zone : ζ) (key : Digest) :
    let sv₀ := start owner loc (fun _ => .empty) workers
    let sv := run (serve site owner) sv₀ es
    let r := sv.view owner i
    let conf := site.zones zone
    let calls := (on zone (log site owner sv₀ es)).map Prod.snd
    Finds site v r r₁ a zone key → conf.redis = false →
    Clocked Call.now 0 (calls ++ [.isBlocked key v.now]) →
    (∀ c ∈ calls ++ [.isBlocked key v.now], c.now + conf.block ≤ conf.timeMax) →
    (key : Key) ∉ (sv.shctx zone).evicted →
    ((preaccess site v r).2 = .status r₁.loc.rejectStatus ↔
      (∃ d, (referenceAfter site.core conf calls key).standing (reference conf) v.now = .banned d) ∧
        effectiveDryRun (r₁.pool a) r₁.loc = false) ∧
    ((preaccess site v r).2 = .declined ∨ (preaccess site v r).2 = .status r₁.loc.rejectStatus) := by
  intro sv₀ sv r conf calls hfinds hoff hclock hsat hevicted
  obtain ⟨hpast, hlast, -⟩ := (clocked_append Call.now 0 _ _).mp hclock
  have h0 : 0 ≤ v.now := hpast.le_lastTime.trans hlast
  obtain ⟨hanchored, hasks⟩ := view_local site owner loc (fun _ => .empty) workers es i
  have hzone : sv.shctx zone = run (callStep site.core conf) .empty calls :=
    shctx_run (digested_start owner loc _ workers) zone es
  have hstart : Refines site.core conf 0 .empty fun _ => .empty :=
    ⟨zoneOk_empty site.core conf 0, fun key _ => .refl 0 _⟩
  have hrefines := refines_run hstart le_rfl hpast fun c hc => hsat c (List.mem_append_left _ hc)
  rw [← hzone] at hrefines
  have hagree := hrefines.agree key hevicted v.now hlast
  have hbanned : (isBlocked site.core conf key v.now (r₁.shctx zone)).2.rc = .ok ↔
      ∃ d, (referenceAfter site.core conf calls key).standing (reference conf) v.now = .banned d := by
    have hst : (referenceAfter site.core conf calls key).standing (reference conf) v.now =
        (entryOf site.core conf (sv.shctx zone) key).standing (policy conf) v.now := hagree.symm
    rw [hst, show r₁.shctx = sv.shctx from hfinds.shctx_eq, isBlocked_ok_iff conf hrefines.ok.indexed key v.now]
    exact entryOf_banned_iff h0
  rw [hfinds.decision hanchored hasks hoff, localDecision, hfinds.key_eq, ← hbanned]
  by_cases hrc : (isBlocked site.core conf key v.now (r₁.shctx zone)).2.rc = .ok
  · rw [if_pos hrc]
    cases hdry : effectiveDryRun (r₁.pool a) r₁.loc <;> simp [hrc]
  · rw [if_neg hrc]
    simp [hrc]

/-- After two tracked responses the reference has the client banned, and so has the server. -/
theorem enforcement_exact_third :
    let site := Site.single .tracking
    let sv₀ : Server ℕ ℕ Unit := start id (fun _ => .on) (fun _ => .empty) fun _ => .zeroed 0
    let r := (run (serve site id) sv₀ twoNotFound).view id 2
    let r₁ := (prepareCtx site (.roomy 3 12288) r).1
    let calls := (on () (log site id sv₀ twoNotFound)).map Prod.snd
    ((preaccess site (.roomy 3 12288) r).2 = .status r₁.loc.rejectStatus ↔
      (∃ d, (referenceAfter site.core .tracking calls Digest.ofA).standing (reference .tracking) 3 =
        .banned d) ∧ effectiveDryRun (r₁.pool 0) r₁.loc = false) ∧
    ((preaccess site (.roomy 3 12288) r).2 = .declined ∨
      (preaccess site (.roomy 3 12288) r).2 = .status r₁.loc.rejectStatus) := by
  intro site sv₀ r r₁ calls
  have hfinds : Finds site (.roomy 3 12288) r r₁ 0 () .ofA :=
    ⟨rfl, Prod.ext rfl (by decide +kernel), by decide +kernel, by decide +kernel⟩
  exact enforcement_exact site id (fun _ => .on) (fun _ => .zeroed 0) twoNotFound 2
    (.roomy 3 12288) _ 0 () .ofA hfinds rfl (by decide +kernel) (by decide +kernel)
    (by decide +kernel)

end Server

end ErrorAbuse
