import ErrorAbuse.Request.Once
import ErrorAbuse.Zone.Effects

/-!
# Serving many requests

Any number of worker processes serve any number of main requests. A worker runs one handler at
a time, and a handler works on a zone only while it holds the zone's mutex, so what happens is
some sequence of turns. Each of them is a turn of one request, taken with the memory of the
zones and the Redis state of its worker as the turns before have left them.

There are two ways to look at such a run. To one request it is a run of its own turns, with
those of the others between them (`view_serve`), so that what `turnStep` keeps is kept here.
To one zone it is a run of the calls that the handlers log (`shctx_serve`).
-/

namespace ErrorAbuse

open Lib

variable {ζ : Type} {site : Site ζ} {v : Visit} {zone : ζ} {r r' : Exchange ζ} {a : ℕ}

/-! ## The calls of a turn -/

/-- A key that is a digest. -/
def Digest.ofKey (key : Key) : Option Digest :=
  if h : key.length = digestLen then some ⟨key, h⟩ else none

@[simp] theorem Digest.ofKey_coe (key : Digest) : Digest.ofKey key = some key := dif_pos key.2

/-- The deciding call that an act is, and its zone. `record` takes its memory from `slab`. -/
def Act.call (slab : Slab) : Act ζ → Option (ζ × Call)
  | isBlocked zone key now => (Digest.ofKey key).map fun key => (zone, .isBlocked key now)
  | record zone key now => (Digest.ofKey key).map fun key => (zone, .record key now slab)
  | _ => none

/-- What the allocator of the zones answers during a turn. -/
def Turn.slab : Turn ζ → Slab
  | preaccess v | headerFilter v _ => v.slab
  | _ => fun _ => none

/-- The acts that were logged between two states of a request, oldest first. -/
def newActs (r r' : Exchange ζ) : List (Act ζ) :=
  (r'.acts.take (r'.acts.length - r.acts.length)).reverse

theorem newActs_of_eq {new : List (Act ζ)} (h : r'.acts = new ++ r.acts) :
    newActs r r' = new.reverse := by
  rw [newActs, h, List.length_append, Nat.add_sub_cancel, List.take_left]

/-- The deciding calls of a turn, in order. -/
def turnCalls [DecidableEq ζ] (site : Site ζ) (r : Exchange ζ) (turn : Turn ζ) : List (ζ × Call) :=
  (newActs r (turnStep site r turn)).filterMap (Act.call turn.slab)

/-- Those of some calls that are about a zone. -/
def callsOf [DecidableEq ζ] (zone : ζ) (cs : List (ζ × Call)) : List Call :=
  cs.filterMap fun c => if c.1 = zone then some c.2 else none

section callsOf

variable [DecidableEq ζ]

@[simp] theorem callsOf_nil (zone : ζ) : callsOf zone [] = [] := rfl
@[simp] theorem callsOf_append (zone : ζ) (cs cs' : List (ζ × Call)) :
    callsOf zone (cs ++ cs') = callsOf zone cs ++ callsOf zone cs' := List.filterMap_append ..

end callsOf

/-- What has happened to the zones between two states of a request are the calls it logged. -/
def Performs [DecidableEq ζ] (site : Site ζ) (slab : Slab) (r r' : Exchange ζ) : Prop :=
  ∃ new, r'.acts = new ++ r.acts ∧ ∀ zone, r'.shctx zone =
    run (callStep site.core (site.zones zone)) (r.shctx zone)
      (callsOf zone (new.reverse.filterMap (Act.call slab)))

namespace Performs

variable [DecidableEq ζ] {slab : Slab}

theorem trans {r₁ r₂ r₃ : Exchange ζ} (h : Performs site slab r₁ r₂)
    (h' : Performs site slab r₂ r₃) : Performs site slab r₁ r₃ := by
  obtain ⟨new, hacts, hshctx⟩ := h
  obtain ⟨new', hacts', hshctx'⟩ := h'
  refine ⟨new' ++ new, by rw [hacts', hacts, List.append_assoc], fun zone => ?_⟩
  rw [hshctx', hshctx, List.reverse_append, List.filterMap_append, callsOf_append, run_append]

/-- Acts that are no calls, with the zones left alone. -/
theorem of_logs (hlog : Logs (fun act => act.call slab = none) r r') (hshctx : r'.shctx = r.shctx) :
    Performs site slab r r' := by
  obtain ⟨new, hacts, hnew⟩ := hlog
  refine ⟨new, hacts, fun zone => ?_⟩
  have hnone : new.reverse.filterMap (Act.call slab) = [] := by
    rw [List.filterMap_eq_nil_iff]
    exact fun act hact => hnew act (List.mem_reverse.mp hact)
  rw [hnone, hshctx]
  rfl

/-- One act that is a call, with what it returns stored to the context. -/
theorem of_call {act : Act ζ} {c : Call} {s : Shctx} (hcall : act.call slab = some (zone, c))
    (hs : s = callStep site.core (site.zones zone) (r.shctx zone) c) (f : ReqCtx ζ → ReqCtx ζ) :
    Performs site slab r
      (({ r with shctx := Function.update r.shctx zone s }.note act).onCtx a f) := by
  refine ⟨[act], rfl, fun z => ?_⟩
  simp only [Exchange.shctx_onCtx, Exchange.note, List.reverse_singleton,
    List.filterMap_cons_some hcall, List.filterMap_nil]
  by_cases hz : z = zone
  · subst hz
    simp [callsOf, hs]
  · simp [callsOf, hz, Ne.symm hz]

end Performs

/-! ## What the handlers perform -/

theorem Prepared.performs [DecidableEq ζ] {found : Option ℕ} (h : Prepared site v r r' found)
    (slab : Slab) : Performs site slab r r' := by
  refine .of_logs (h.logs fun _ _ => rfl) ?_
  cases h <;> rfl

theorem Asked.performs [DecidableEq ζ] {b : Bool} (h : Asked site zone a r r' b) (slab : Slab) :
    Performs site slab r r' := by
  refine .of_logs (h.logs fun _ => rfl) ?_
  cases h <;> rfl

theorem Replied.performs [DecidableEq ζ] {now : ℤ} {reply : Option Reply}
    (h : Replied site now reply r r') (slab : Slab) : Performs site slab r r' := by
  refine .of_logs (.of_eq h.acts_eq) ?_
  cases h <;> rfl

theorem enforce_performs [DecidableEq ζ] (site : Site ζ) (slab : Slab) (a : ℕ) (r : Exchange ζ) :
    Performs site slab r (enforce a r).1 := by
  rw [enforce]
  split_ifs
  · exact .of_logs (.of_eq rfl) rfl
  · exact .of_logs (.of_cons rfl rfl) rfl

section handlers

variable [DecidableEq ζ] {key : Digest}

theorem checkBan_performs (site : Site ζ) (v : Visit) (slab : Slab) (zone : ζ)
    (hkey : (r.pool a).key = key) : Performs site slab r (checkBan site v zone a r).1 := by
  rw [checkBan]
  split_ifs
  · exact .trans (.of_logs (.of_eq rfl) rfl) (enforce_performs site slab a _)
  · have hcall : (Act.isBlocked zone (r.pool a).key v.now).call slab =
        some (zone, .isBlocked key v.now) := by
      simp [Act.call, hkey]
    rw [checkLocal]
    generalize hresult : isBlocked site.core (site.zones zone) (r.pool a).key v.now (r.shctx zone) =
      result
    have hs : result.1 = callStep site.core (site.zones zone) (r.shctx zone) (.isBlocked key v.now) := by
      rw [← hresult, hkey]
      rfl
    have hlocal := Performs.of_call (a := a) hcall hs fun c => c.store result.2.out
    split_ifs
    · exact hlocal.trans (enforce_performs site slab a _)
    · exact hlocal

theorem checkZone_performs (site : Site ζ) (v : Visit) (slab : Slab) (zone : ζ)
    (hkey : (r.pool a).key = key) : Performs site slab r (checkZone site v zone a r).1 := by
  rw [checkZone]
  split_ifs
  · have hasked := redisCheck_asked site v zone a r
    rcases hr₁ : r.redisCheck site v zone a with ⟨r₁, b⟩
    rw [hr₁] at hasked
    cases b with
    | true => exact hasked.performs slab
    | false =>
        exact (hasked.performs slab).trans
          (checkBan_performs site v slab zone (hasked.within.key.trans hkey))
  · exact checkBan_performs site v slab zone hkey

theorem redisRecord_performs (site : Site ζ) (v : Visit) (slab : Slab) (zone : ζ) (a : ℕ)
    (r : Exchange ζ) : Performs site slab r (r.redisRecord site v zone a) := by
  obtain ⟨events, block, worker, acts, -, hlog, heq⟩ := redisRecord_effect site v zone a r
  rw [heq]
  refine .of_logs ?_ rfl
  cases hlog with
  | off => exact .of_eq rfl
  | skipped => exact .of_cons rfl rfl
  | sent worker _ => exact ⟨[_, _], rfl, by simp [Act.call]⟩

/-- Counting an event is one call of `record`. -/
theorem countEvent_performs (site : Site ζ) (v : Visit) (zone : ζ) (out : HeadersOut)
    (hkey : (r.pool a).key = key) :
    Performs site v.slab r (countEvent site v zone a out r).1 := by
  have hcall : (Act.record zone (r.pool a).key v.now).call v.slab =
      some (zone, .record key v.now v.slab) := by
    simp [Act.call, hkey]
  have hcount : ∀ r₁ : Exchange ζ, Performs site v.slab r r₁ → Performs site v.slab r
      (if (site.zones zone).redis then r₁.redisRecord site v zone a else r₁) := by
    intro r₁ h₁
    split_ifs
    · exact h₁.trans (redisRecord_performs site v v.slab zone a r₁)
    · exact h₁
  rw [countEvent]
  generalize hresult : record site.core (site.zones zone) (r.pool a).key v.now v.slab (r.shctx zone) =
    result
  have hs : result.1 =
      callStep site.core (site.zones zone) (r.shctx zone) (.record key v.now v.slab) := by
    rw [← hresult, hkey]
    rfl
  have hcounted := hcount _ (.of_call (a := a) hcall hs fun c => c.store result.2.out)
  cases result.2.rc with
  | error =>
      by_cases hfull : (site.zones zone).onFullReject = true
      · rw [if_pos hfull]
        exact hcounted.trans (.of_logs (.of_cons rfl rfl) rfl)
      · rw [if_neg hfull]
        exact hcounted
  | _ => exact hcounted.trans (.of_logs (.of_eq rfl) rfl)

theorem filterZone_performs (site : Site ζ) (v : Visit) (zone : ζ) (out : HeadersOut)
    (hkey : (r.pool a).key = key) :
    Performs site v.slab r (filterZone site v zone a out r).1 := by
  have hseen : ∀ f : ReqCtx ζ → ReqCtx ζ, Performs site v.slab r (r.onCtx a f) :=
    fun _ => .of_logs (.of_eq rfl) rfl
  rw [filterZone]
  split_ifs
  · split <;> exact hseen _
  · exact hseen _
  · exact hseen _
  · exact (hseen _).trans (.of_logs (.of_cons rfl rfl) rfl)
  · refine (hseen _).trans (countEvent_performs site v zone out (show _ = (key : Key) from ?_))
    rw [Exchange.pool_onCtx_self]
    exact hkey

end handlers

/-! ## One turn -/

/-- Every context with a zone has a digest for its key. -/
def Digested (r : Exchange ζ) : Prop :=
  ∀ a, (r.pool a).zone.isSome → ∃ key : Digest, (r.pool a).key = key

namespace Digested

theorem start (loc : LocConf ζ) (shctx : ζ → Shctx) (worker : Worker) :
    Digested (Exchange.start loc shctx worker) :=
  fun _ h => nomatch h

theorem prepared (h : Digested r) {found : Option ℕ} (hp : Prepared site v r r' found) :
    Digested r' := by
  intro b hb
  cases hp with
  | attached _ _ => exact h b hb
  | restored a _ _ =>
      by_cases hba : b = a
      · subst hba
        rw [Exchange.pool_restore_self] at hb ⊢
        exact h b hb
      · rw [Exchange.pool_restore_of_ne hba] at hb ⊢
        exact h b hb
  | none _ _ _ => exact h b hb
  | built zone key result c cleanup _ _ _ _ _ hbuilt =>
      by_cases hbn : b = r.next
      · subst hbn
        simp only [Function.update_self] at hb ⊢
        cases hbuilt with
        | complete _ => exact ⟨site.sha256 key, rfl⟩
        | _ => exact nomatch hb
      · simp only [Function.update_of_ne hbn] at hb ⊢
        exact h b hb

theorem within (h : Digested r) (hw : Within a r r') : Digested r' := by
  intro b hb
  by_cases hba : b = a
  · subst hba
    rw [hw.zone] at hb
    rw [hw.key]
    exact h b hb
  · rw [hw.other b hba] at hb ⊢
    exact h b hb

theorem replied (h : Digested r) {now : ℤ} {reply : Option Reply}
    (hr : Replied site now reply r r') : Digested r' := by
  cases hr with
  | unasked _ => exact h
  | lost _ _ => exact h
  | answered a count deadline banned _ _ _ => exact h.within (within_answered ..)

theorem turnStep [DecidableEq ζ] (h : Digested r) (turn : Turn ζ) :
    Digested (turnStep site r turn) := by
  cases turn with
  | preaccess v =>
      refine (preaccess_preaccessed site v r).keeps h (fun _ _ hp => h.prepared hp) ?_
      exact fun r₁ a zone hp _ hc => (h.prepared hp).within hc.within
  | headerFilter v out =>
      refine (headerFilter_headerFiltered site v out r).keeps h (fun _ _ hp => h.prepared hp) ?_
      exact fun r₁ a zone hp _ _ hf => (h.prepared hp).within hf.within
  | reply now reply => exact h.replied (turnStep_replied site now reply r)
  | _ => exact h

end Digested

def Turn.isOwn : Turn ζ → Bool
  | others .. => false
  | _ => true

/-- A turn of the request itself. -/
structure OwnTurn (ζ : Type) where
  turn : Turn ζ
  isOwn : turn.isOwn = true

theorem preaccess_performs [DecidableEq ζ] (h : Digested r) (site : Site ζ) (v : Visit) :
    Performs site v.slab r (preaccess site v r).1 := by
  rw [preaccess]
  split_ifs
  · exact .of_logs (.of_eq rfl) rfl
  · rcases hp : prepareCtx site v r with ⟨r₁, found⟩
    have hprepared := prepared_of_eq hp
    cases found with
    | none => exact hprepared.performs v.slab
    | some a =>
        cases hzone : (r₁.pool a).zone with
        | none =>
            simp only [hzone]
            exact hprepared.performs v.slab
        | some zone =>
            obtain ⟨key, hkey⟩ := h.prepared hprepared a (by rw [hzone]; rfl)
            simp only [hzone]
            exact (hprepared.performs v.slab).trans (checkZone_performs site v v.slab zone hkey)

theorem headerFilter_performs [DecidableEq ζ] (h : Digested r) (site : Site ζ) (v : Visit)
    (out : HeadersOut) : Performs site v.slab r (headerFilter site v out r).1 := by
  rw [headerFilter]
  split_ifs
  · exact .of_logs (.of_eq rfl) rfl
  · rcases hp : prepareCtx site v r with ⟨r₁, found⟩
    have hprepared := prepared_of_eq hp
    cases found with
    | none => exact hprepared.performs v.slab
    | some a =>
        cases hzone : (r₁.pool a).zone with
        | none =>
            simp only [hzone]
            exact hprepared.performs v.slab
        | some zone =>
            obtain ⟨key, hkey⟩ := h.prepared hprepared a (by rw [hzone]; rfl)
            simp only [hzone]
            split_ifs
            · exact hprepared.performs v.slab
            · exact (hprepared.performs v.slab).trans (filterZone_performs site v zone out hkey)

/-- A turn does to the zones what its calls do. -/
theorem turnStep_performs [DecidableEq ζ] (h : Digested r) (site : Site ζ) (turn : OwnTurn ζ) :
    Performs site turn.turn.slab r (turnStep site r turn.turn) := by
  obtain ⟨turn, hown⟩ := turn
  cases turn with
  | preaccess v => exact preaccess_performs h site v
  | headerFilter v out => exact headerFilter_performs h site v out
  | reply now reply => exact (turnStep_replied site now reply r).performs _
  | others shctx worker => exact nomatch hown
  | _ => exact .of_logs (.of_eq rfl) rfl

theorem shctx_turnStep [DecidableEq ζ] (h : Digested r) (turn : OwnTurn ζ) (zone : ζ) :
    (turnStep site r turn.turn).shctx zone = run (callStep site.core (site.zones zone))
      (r.shctx zone) (callsOf zone (turnCalls site r turn.turn)) := by
  obtain ⟨new, hacts, hshctx⟩ := turnStep_performs h site turn
  rw [hshctx, turnCalls, newActs_of_eq hacts]

/-- The calls of `record` are among the acts. -/
theorem countP_turnCalls_le [DecidableEq ζ] (h : Digested r) (turn : OwnTurn ζ) :
    r.acts.countP Act.isRecord + (turnCalls site r turn.turn).countP (fun c => c.2.isRecord) ≤
      (turnStep site r turn.turn).acts.countP Act.isRecord := by
  obtain ⟨new, hacts, -⟩ := turnStep_performs h site turn
  have hcalls : ∀ acts : List (Act ζ), (acts.filterMap (Act.call turn.turn.slab)).countP
      (fun c => c.2.isRecord) ≤ acts.countP Act.isRecord := by
    intro acts
    rw [List.countP_filterMap]
    refine List.countP_mono_left fun act _ hc => ?_
    cases act with
    | record => rfl
    | isBlocked _ key _ =>
        simp only [Act.call] at hc
        cases hk : Digest.ofKey key <;> simp [hk, Call.isRecord] at hc
    | _ => simp [Act.call] at hc
  rw [turnCalls, newActs_of_eq hacts, hacts, List.countP_append, Nat.add_comm]
  exact Nat.add_le_add_right ((hcalls _).trans (List.countP_reverse).le) _

/-! ## The server -/

/-- Main requests `ι`, worker processes `ω` and what they share. What a request keeps of the
shared state from its last turn is not looked at again. -/
structure Server (ι ω ζ : Type) where
  requests : ι → Exchange ζ
  shctx : ζ → Shctx
  workers : ω → Worker

/-- What happens on a server. -/
inductive Serving (ι ω ζ : Type)
  | request (i : ι) (turn : OwnTurn ζ)
  /-- hiredis runs some of the callbacks of a worker, timers included -/
  | redis (worker : ω) (state : Worker)

namespace Server

variable {ι ω : Type} [DecidableEq ι] [DecidableEq ω] [DecidableEq ζ]

omit [DecidableEq ι] [DecidableEq ω] [DecidableEq ζ] in
/-- Nobody has been served. `owner` says which worker serves a request. -/
def start (owner : ι → ω) (loc : ι → LocConf ζ) (shctx : ζ → Shctx) (workers : ω → Worker) :
    Server ι ω ζ where
  requests i := .start (loc i) shctx (workers (owner i))
  shctx := shctx
  workers := workers

omit [DecidableEq ι] [DecidableEq ω] [DecidableEq ζ] in
/-- A request as its next turn finds it. -/
def view (owner : ι → ω) (i : ι) (sv : Server ι ω ζ) : Exchange ζ :=
  { sv.requests i with shctx := sv.shctx, worker := sv.workers (owner i) }

/-- What happens on a server, done. -/
def serve (site : Site ζ) (owner : ι → ω) (sv : Server ι ω ζ) : Serving ι ω ζ → Server ι ω ζ
  | .request i turn =>
    let r := turnStep site (sv.view owner i) turn.turn
    { requests := Function.update sv.requests i r
      shctx := r.shctx
      workers := Function.update sv.workers (owner i) r.worker }
  | .redis worker state => { sv with workers := Function.update sv.workers worker state }

/-- What a request sees of it. -/
def seenBy (site : Site ζ) (owner : ι → ω) (i : ι) (sv : Server ι ω ζ) (e : Serving ι ω ζ) :
    List (Turn ζ) :=
  let sv' := serve site owner sv e
  let others := [Turn.others sv'.shctx (sv'.workers (owner i))]
  match e with
  | .request j turn => if j = i then [turn.turn] else others
  | .redis .. => others

/-- The deciding calls that come of it, each with the request and the zone. -/
def calls (site : Site ζ) (owner : ι → ω) (sv : Server ι ω ζ) : Serving ι ω ζ →
    List (ι × ζ × Call)
  | .request i turn => (turnCalls site (sv.view owner i) turn.turn).map (i, ·)
  | .redis .. => []

omit [DecidableEq ι] [DecidableEq ω] in
/-- The calls that are about a zone. -/
def on (zone : ζ) (cs : List (ι × ζ × Call)) : List (ι × Call) :=
  cs.filterMap fun c => if c.2.1 = zone then some (c.1, c.2.2) else none

/-- The deciding calls of a run, in the order of the zones' mutexes. -/
def log (site : Site ζ) (owner : ι → ω) (sv : Server ι ω ζ) (es : List (Serving ι ω ζ)) :
    List (ι × ζ × Call) :=
  outputs (serve site owner) (calls site owner) sv es

variable {owner : ι → ω} {loc : ι → LocConf ζ} {shctx : ζ → Shctx} {workers : ω → Worker}
  {sv : Server ι ω ζ}

omit [DecidableEq ι] [DecidableEq ω] [DecidableEq ζ] in
@[simp] theorem view_start (i : ι) : (start owner loc shctx workers).view owner i =
    .start (loc i) shctx (workers (owner i)) := rfl

theorem view_serve (i : ι) (e : Serving ι ω ζ) : (serve site owner sv e).view owner i =
    run (turnStep site) (sv.view owner i) (seenBy site owner i sv e) := by
  cases e with
  | request j turn =>
      by_cases hji : j = i
      · subst hji
        simp [seenBy, view, serve]
      · simp [seenBy, view, serve, hji, Function.update_of_ne (Ne.symm hji), turnStep]
  | redis worker state => simp [seenBy, view, serve, turnStep]

/-- What every turn of a request keeps holds of every request all along. -/
theorem view_invariant (I : Exchange ζ → Prop) (hturn : ∀ r turn, I r → I (turnStep site r turn))
    (h0 : ∀ i, I (sv.view owner i)) (es : List (Serving ι ω ζ)) (i : ι) :
    I ((run (serve site owner) sv es).view owner i) := by
  rw [run_view (view owner i) (turnStep site) (fun _ => True) (fun _ _ _ => trivial)
    (fun _ e _ => view_serve i e) trivial es]
  exact run_invariant I (fun _ => True) (fun r turn h _ => hturn r turn h) (h0 i) fun _ _ => trivial

/-! ## The zones -/

omit [DecidableEq ι] [DecidableEq ω] in
@[simp] theorem on_append (zone : ζ) (cs cs' : List (ι × ζ × Call)) :
    on zone (cs ++ cs') = on zone cs ++ on zone cs' := List.filterMap_append ..

omit [DecidableEq ι] [DecidableEq ω] in
theorem map_snd_on (zone : ζ) (i : ι) (cs : List (ζ × Call)) :
    (on zone (cs.map (i, ·))).map Prod.snd = callsOf zone cs := by
  simp only [on, callsOf, List.filterMap_map, List.map_filterMap]
  congr 1
  funext c
  by_cases hc : c.1 = zone <;> simp [hc]

/-- All requests have digests for their keys. -/
def Digested (owner : ι → ω) (sv : Server ι ω ζ) : Prop :=
  ∀ i, ErrorAbuse.Digested (sv.view owner i)

theorem digested_serve (h : sv.Digested owner) (e : Serving ι ω ζ) :
    (serve site owner sv e).Digested owner := by
  intro i
  rw [view_serve]
  exact run_invariant ErrorAbuse.Digested (fun _ => True) (fun r turn h _ => h.turnStep turn) (h i)
    fun _ _ => trivial

omit [DecidableEq ι] [DecidableEq ω] [DecidableEq ζ] in
theorem digested_start (owner : ι → ω) (loc : ι → LocConf ζ) (shctx : ζ → Shctx)
    (workers : ω → Worker) : (start owner loc shctx workers).Digested owner :=
  fun i => .start (loc i) shctx (workers (owner i))

theorem shctx_serve (h : sv.Digested owner) (zone : ζ) (e : Serving ι ω ζ) :
    (serve site owner sv e).shctx zone = run (callStep site.core (site.zones zone))
      (sv.shctx zone) ((on zone (calls site owner sv e)).map Prod.snd) := by
  cases e with
  | request i turn =>
      rw [calls, map_snd_on]
      exact shctx_turnStep (h i) turn zone
  | redis worker state => rfl

/-- The calls of a run are all that happens to a zone. -/
theorem shctx_run (h : sv.Digested owner) (zone : ζ) (es : List (Serving ι ω ζ)) :
    (run (serve site owner) sv es).shctx zone = run (callStep site.core (site.zones zone))
      (sv.shctx zone) ((on zone (log site owner sv es)).map Prod.snd) := by
  rw [log, map_outputs (f := fun cs => (on zone cs).map Prod.snd) rfl (by simp)]
  exact run_view (fun sv : Server ι ω ζ => sv.shctx zone) _ (Digested owner)
    (fun _ e h => digested_serve h e) (fun _ e h => shctx_serve h zone e) h es

/-! ## Who calls -/

/-- A call of `record` by the request. -/
def recordBy (i : ι) (c : ι × ζ × Call) : Bool := decide (c.1 = i) && c.2.2.isRecord

omit [DecidableEq ω] [DecidableEq ζ] in
theorem countP_recordBy (i j : ι) (cs : List (ζ × Call)) :
    (cs.map (j, ·)).countP (recordBy i) =
      if j = i then cs.countP fun c => c.2.isRecord else 0 := by
  by_cases hji : j = i
  · simp [recordBy, List.countP_map, Function.comp_def, hji]
  · simp [recordBy, List.countP_map, Function.comp_def, hji]

theorem acts_view_of_ne {i j : ι} (hji : j ≠ i) (turn : OwnTurn ζ) :
    ((serve site owner sv (.request j turn)).view owner i).acts = (sv.view owner i).acts := by
  simp [view, serve, Function.update_of_ne (Ne.symm hji)]

theorem acts_view_self (i : ι) (turn : OwnTurn ζ) :
    ((serve site owner sv (.request i turn)).view owner i).acts =
      (turnStep site (sv.view owner i) turn.turn).acts := by
  simp [view, serve]

/-- The calls of `record` are logged by the request. -/
theorem countP_calls_le (h : sv.Digested owner) (i : ι) (e : Serving ι ω ζ) :
    (sv.view owner i).acts.countP Act.isRecord + (calls site owner sv e).countP (recordBy i) ≤
      ((serve site owner sv e).view owner i).acts.countP Act.isRecord := by
  cases e with
  | request j turn =>
      rw [calls, countP_recordBy]
      by_cases hji : j = i
      · subst hji
        rw [if_pos rfl, acts_view_self]
        exact countP_turnCalls_le (h j) turn
      · rw [if_neg hji, acts_view_of_ne hji]
        exact le_rfl
  | redis worker state => exact le_rfl

/-- Over all zones, the calls of `record` of a run are logged by their requests. -/
theorem countP_log_le (h : sv.Digested owner) (site : Site ζ) (es : List (Serving ι ω ζ)) (i : ι) :
    (sv.view owner i).acts.countP Act.isRecord +
        (log site owner sv es).countP (recordBy i) ≤
      ((run (serve site owner) sv es).view owner i).acts.countP Act.isRecord :=
  countP_outputs_le (recordBy i)
    (fun sv : Server ι ω ζ => (sv.view owner i).acts.countP Act.isRecord) (Digested owner)
    (fun _ e h => digested_serve h e) (fun _ e h => countP_calls_le h i e) h es

/-- Nobody calls `record` twice. -/
theorem countP_recordBy_le_one (site : Site ζ) (owner : ι → ω) (loc : ι → LocConf ζ)
    (shctx : ζ → Shctx) (workers : ω → Worker) (es : List (Serving ι ω ζ)) (i : ι) :
    (log site owner (start owner loc shctx workers) es).countP (recordBy i) ≤ 1 := by
  have hstart : ∀ i, Anchored ((start owner loc shctx workers).view owner i) ∧
      Once ((start owner loc shctx workers).view owner i) := fun i =>
    ⟨.start (loc i) shctx (workers (owner i)), .start (loc i) shctx (workers (owner i))⟩
  have honce : Once ((run (serve site owner) (start owner loc shctx workers) es).view owner i) :=
    (view_invariant (fun r => Anchored r ∧ Once r)
      (fun _ turn h => ⟨h.1.turnStep turn, h.2.turnStep h.1 turn⟩) hstart es i).2
  have hlog := countP_log_le (digested_start owner loc shctx workers) site es i
  exact (Nat.le_add_left _ _).trans (hlog.trans honce.records)

/-! ## Both ways to look at a run -/

omit [DecidableEq ω] [DecidableEq ζ] in
/-- The turns of a request, in order. -/
def ownTurns (i : ι) (es : List (Serving ι ω ζ)) : List (Turn ζ) :=
  es.filterMap fun
    | .request j turn => if j = i then some turn.turn else none
    | .redis .. => none

theorem filter_seenBy (i : ι) (es : List (Serving ι ω ζ)) :
    (outputs (serve site owner) (seenBy site owner i) sv es).filter Turn.isOwn = ownTurns i es := by
  induction es generalizing sv with
  | nil => rfl
  | cons e es ih =>
      rw [outputs_cons, List.filter_append, ih, ownTurns, ownTurns, List.filterMap_cons]
      cases e with
      | request j turn =>
          by_cases hji : j = i
          · simp [seenBy, hji, turn.isOwn]
          · simp [seenBy, hji, Turn.isOwn]
      | redis worker state => simp [seenBy, Turn.isOwn]

/-- **One order of calls explains everything.** However the turns of any number of requests on
any number of workers interleave, every zone is as the logged calls leave it, taken one by one;
every request has seen its own turns, in order, with nothing but others' turns between them;
and no request has called `record` more than once. -/
theorem linearised (site : Site ζ) (owner : ι → ω) (loc : ι → LocConf ζ) (shctx : ζ → Shctx)
    (workers : ω → Worker) (es : List (Serving ι ω ζ)) :
    let sv₀ := start owner loc shctx workers
    let sv := run (serve site owner) sv₀ es
    (∀ zone, sv.shctx zone = run (callStep site.core (site.zones zone)) (shctx zone)
      ((on zone (log site owner sv₀ es)).map Prod.snd)) ∧
    (∀ i, ∃ turns, turns.filter Turn.isOwn = ownTurns i es ∧
      sv.view owner i = run (turnStep site) (.start (loc i) shctx (workers (owner i))) turns) ∧
    ∀ i, (log site owner sv₀ es).countP (recordBy i) ≤ 1 := by
  intro sv₀ sv
  refine ⟨fun zone => ?_, fun i => ?_, fun i => ?_⟩
  · exact shctx_run (digested_start owner loc shctx workers) zone es
  · refine ⟨outputs (serve site owner) (seenBy site owner i) sv₀ es, filter_seenBy i es, ?_⟩
    exact run_view (view owner i) (turnStep site) (fun _ => True) (fun _ _ _ => trivial)
      (fun _ e _ => view_serve i e) trivial es
  · exact countP_recordBy_le_one site owner loc shctx workers es i

end Server

end ErrorAbuse
