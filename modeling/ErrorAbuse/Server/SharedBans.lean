import ErrorAbuse.Config.Locations
import ErrorAbuse.Server.Cluster

/-!
# Bans that servers have brought about together

What Redis tells a request of a ban is backed by as many executions of the record script for its
client as the threshold says (`Evidence`), wherever they come from: this is so for every answer on
its way and every context that has been told (`ClusterOk`), whatever happens in a cluster. Each
execution is of a request of its own, so nobody is rejected without grounds.
-/

namespace ErrorAbuse

open Lib

variable {ι ω ζ : Type} {site : Site ζ} {lua : Lua} {owner : ι → ω} {c c' : Cluster ι ω ζ}

/-! ## All clients -/

/-- The two keys of a client. -/
def keysOf (site : Site ζ) (zone : ζ) (key : Key) : RedisKeys :=
  buildRedisKeys site.redis (site.zones zone) key

section keys

variable {zone zone' : ζ} {key key' : Digest}

theorem Site.Uniform.eq_of_get (hu : site.Uniform) {kind kind' : KeyKind}
    (h : (keysOf site zone key).get kind = (keysOf site zone' key').get kind') :
    site.zones zone = site.zones zone' ∧ key = key' ∧ kind = kind' := by
  obtain ⟨-, hname, hkey, hkind⟩ :=
    get_buildRedisKeys_inj hu.keyPrefix (hu.name zone) hu.keyPrefix (hu.name zone') h
  exact ⟨hu.alike zone zone' hname, hkey, hkind⟩

/-- Keys for different clients differ in every way. -/
theorem Site.Uniform.get_ne (hu : site.Uniform)
    (h : (keysOf site zone key).events ≠ (keysOf site zone' key').events) (kind kind' : KeyKind) :
    (keysOf site zone key).get kind ≠ (keysOf site zone' key').get kind' := by
  intro hget
  obtain ⟨hzone, hkey, -⟩ := hu.eq_of_get hget
  exact h (by rw [keysOf, keysOf, hzone, hkey])

end keys

/-- The workers of a cluster, as far as one client is concerned. -/
def setup (site : Site ζ) (lua : Lua) {nonce : ω → ℕ} (hnonce : Function.Injective nonce)
    (zone : ζ) (key : Digest) : Setup ω where
  lua := lua
  zone := site.zones zone
  base := redisKeyWrite site.redis.keyPrefix (site.zones zone).name key
  conf _ := site.redis
  nonce := nonce
  nonce_injective := hnonce

/-- As many executions for the client as the threshold says, within one interval; the ban until `d`
that the last one has set was in force at the time `asked`. -/
def Grounded (site : Site ζ) (zone : ζ) (key : Digest) (c : Cluster ι ω ζ) (d asked : ℤ) : Prop :=
  ∃ (hits : List (Executed ι)) (last : Executed ι), hits.Sublist c.executed ∧ last ∈ hits ∧
    (∀ e ∈ hits, e.args.events = (keysOf site zone key).events ∧
      last.time - (site.zones zone).interval * 1000 < e.time ∧ e.time ≤ last.time) ∧
    (site.zones zone).threshold ≤ hits.length ∧
    d = (last.time + (site.zones zone).block * 1000) / 1000 ∧
    last.time ≤ asked ∧ asked ≤ last.time + (site.zones zone).block * 1000

/-- A `GET` of the request for the ban of the client has been executed, and has found a ban that
there were grounds for at that time. -/
def Evidence (site : Site ζ) (zone : ζ) (key : Digest) (i : ι) (c : Cluster ι ω ζ) (d : ℤ) : Prop :=
  ∃ get ∈ c.fetched, get.request = i ∧ get.key = (keysOf site zone key).block ∧
    get.reply = .string (decimal d.toNat) ∧ get.time ≤ c.clock ∧ Grounded site zone key c d get.time

theorem Grounded.mono {zone : ζ} {key : Digest} {d asked : ℤ} (h : Grounded site zone key c d asked)
    (hexecuted : c.executed.Sublist c'.executed) : Grounded site zone key c' d asked := by
  obtain ⟨hits, last, hsub, hrest⟩ := h
  exact ⟨hits, last, hsub.trans hexecuted, hrest⟩

theorem Evidence.mono {zone : ζ} {key : Digest} {i : ι} {d : ℤ} (h : Evidence site zone key i c d)
    (hexecuted : c.executed.Sublist c'.executed) (hfetched : c.fetched ⊆ c'.fetched)
    (hclock : c.clock ≤ c'.clock) : Evidence site zone key i c' d := by
  obtain ⟨get, hget, hi, hkey, hreply, hpast, hground⟩ := h
  exact ⟨get, hfetched hget, hi, hkey, hreply, hpast.trans hclock, hground.mono hexecuted⟩

/-- What a `GET` finds is backed by executions. -/
theorem Simulated.grounded {nonce : ω → ℕ} {hnonce : Function.Injective nonce} {zone : ζ}
    {key : Digest} (h : Simulated owner (setup site lua hnonce zone key) c) {now d : ℤ}
    (hnow : c.clock ≤ now)
    (hget : c.db.get now (keysOf site zone key).block = some (some d)) :
    Grounded site zone key c d now := by
  obtain ⟨s, hsim, hok⟩ := h
  obtain ⟨hits, last, hsub, hjoint, -, hd, hle⟩ := hok.grounds (hsim.db ▸ hget)
  have hmapped := hsub.map fun e => (e.sender, e.time, e.reply)
  rw [hsim.log] at hmapped
  obtain ⟨hits', hsub', heq⟩ := List.sublist_map_iff.mp hmapped
  have htimes : ∀ e' ∈ hits', ∃ e ∈ hits, e.time = e'.time := by
    intro e' he'
    have hmem : (owner e'.request, e'.time, e'.reply) ∈
        hits.map fun e => (e.sender, e.time, e.reply) := by
      rw [heq]
      exact List.mem_map_of_mem he'
    obtain ⟨e, he, hsame⟩ := List.mem_map.mp hmem
    exact ⟨e, he, congrArg (fun x => x.2.1) hsame⟩
  have hlast : (last.sender, last.time, last.reply) ∈
      hits'.map fun e => (owner e.request, e.time, e.reply) := by
    rw [← heq]
    exact List.mem_map_of_mem hjoint.last_mem
  obtain ⟨last', hlast', hsame⟩ := List.mem_map.mp hlast
  have htime : last'.time = last.time := congrArg (fun x => x.2.1) hsame
  have hpast : last.time ≤ now :=
    (hok.tally.times last (hsub.subset hjoint.last_mem)).trans (hsim.clock ▸ hnow)
  refine ⟨hits', last', hsub'.trans List.filter_sublist, hlast', fun e' he' => ?_, ?_, ?_, ?_, ?_⟩
  · obtain ⟨e, he, het⟩ := htimes e' he'
    have hfor := (List.mem_filter.mp (hsub'.subset he')).2
    rw [htime, ← het]
    exact ⟨of_decide_eq_true hfor, hjoint.within e he⟩
  · have hlen := congrArg List.length heq
    rw [List.length_map, List.length_map] at hlen
    exact hlen ▸ hjoint.enough
  · rw [htime]
    exact hd
  · rw [htime]
    exact hpast
  · rw [htime]
    exact hle

/-- A command about a client of the request. -/
def Backed (site : Site ζ) (owner : ι → ω) (c : Cluster ι ω ζ) (i : ι) (cmd : Command) : Prop :=
  ∃ zone, ∃ key : Digest, ∃ w : Worker,
    Serves (c.server.view owner i) zone key ∧ cmd.About site zone key w

/-- An answer that tells a request of a ban which there is evidence of. -/
def Warranted (site : Site ζ) (owner : ι → ω) (c : Cluster ι ω ζ) (i : ι) (str : List UInt8) : Prop :=
  ∃ zone, ∃ key : Digest, Serves (c.server.view owner i) zone key ∧
    ∃ d, str = decimal d.toNat ∧ Evidence site zone key i c d

/-- An `EVALSHA` of the request. -/
def sentBy [DecidableEq ι] (i : ι) (p : ι × Command) : Bool := decide (p.1 = i) && p.2.isEvalsha

/-- What the steps of a cluster keep. -/
structure ClusterOk [DecidableEq ι] [DecidableEq ω] [DecidableEq ζ] (site : Site ζ) (lua : Lua)
    (owner : ι → ω) (loc : ι → LocConf ζ) {nonce : ω → ℕ} (hnonce : Function.Injective nonce)
    (c : Cluster ι ω ζ) : Prop where
  reached : c.server = run (Server.serve site owner)
    (.start owner loc (fun _ => .empty) fun w => .zeroed (nonce w)) c.history
  keyed : ∀ i, Keyed site (c.server.view owner i)
  flying : ∀ p ∈ c.flying, Backed site owner c p.1 p.2
  executed : ∀ e ∈ c.executed, Backed site owner c e.request (.evalsha e.args)
  once : ∀ i, c.flying.countP (sentBy i) + c.executed.countP (fun e => e.request = i) ≤
    (c.server.view owner i).acts.countP Act.isRedisRecord
  calls : ∀ w, c.calls w < 2 ^ site.redis.plat.uintBits
  simulated : ∀ zone key, Simulated owner (setup site lua hnonce zone key) c
  answers : ∀ i str, (i, some (.string str)) ∈ c.answers → Warranted site owner c i str
  banned : ∀ i a, ((c.server.view owner i).pool a).redisBlocked = true → ∃ zone, ∃ key : Digest,
    ((c.server.view owner i).pool a).zone = some zone ∧
      ((c.server.view owner i).pool a).key = key ∧ ∃ d, Evidence site zone key i c d

/-! ## What happens on a server -/

variable [DecidableEq ι] [DecidableEq ω] [DecidableEq ζ] {loc : ι → LocConf ζ} {nonce : ω → ℕ}
  {hnonce : Function.Injective nonce}

namespace ClusterOk

/-- The requests are those of a run of the servers. -/
theorem view (h : ClusterOk site lua owner loc hnonce c) (i : ι) :
    Anchored (c.server.view owner i) ∧ Once (c.server.view owner i) ∧
      Digested (c.server.view owner i) := by
  rw [h.reached]
  refine Server.view_invariant (fun r => Anchored r ∧ Once r ∧ Digested r)
    (fun r turn h => ⟨h.1.turnStep turn, h.2.1.turnStep h.1 turn, h.2.2.turnStep turn⟩)
    (fun i => ?_) c.history i
  exact ⟨.start _ _ _, .start _ _ _, .start _ _ _⟩

/-- What a request looks like after something has happened on a server. -/
theorem persists (h : ClusterOk site lua owner loc hnonce c) (e : Serving ι ω ζ) (j : ι) :
    Persists (c.server.view owner j) ((c.serve site owner e).server.view owner j) := by
  have hview : (c.serve site owner e).server.view owner j =
      run (turnStep site) (c.server.view owner j) (Server.seenBy site owner j c.server e) :=
    Server.view_serve j e
  rw [hview]
  cases e with
  | request i turn =>
      by_cases hij : i = j
      · subst hij
        obtain ⟨_, hsends⟩ := turnStep_sends (h.keyed i) (h.view i).1 turn
        simpa [Server.seenBy] using hsends.persists
      · simp only [Server.seenBy, if_neg hij]
        exact .of_pool rfl
  | redis w state => exact .of_pool rfl

theorem backed (h : ClusterOk site lua owner loc hnonce c) (e : Serving ι ω ζ) {i : ι}
    {cmd : Command} (hbacked : Backed site owner c i cmd) :
    Backed site owner (c.serve site owner e) i cmd := by
  obtain ⟨zone, key, w, hserves, habout⟩ := hbacked
  exact ⟨zone, key, w, hserves.persist (h.persists e i), habout⟩

/-- The turn of a request, and what it sends. -/
theorem sends (h : ClusterOk site lua owner loc hnonce c) (i : ι) (turn : OwnTurn ζ) :
    ∃ cmd, Sends site (c.server.view owner i) (turnStep site (c.server.view owner i) turn.turn) cmd ∧
      Cluster.queued site owner c.server (.request i turn) = cmd.toList.map (i, ·) := by
  obtain ⟨cmd, hsends⟩ := turnStep_sends (h.keyed i) (h.view i).1 turn
  exact ⟨cmd, hsends, by rw [Cluster.queued, commands_newActs hsends]⟩

theorem counter_serve (i : ι) (turn : OwnTurn ζ) (w : ω) :
    ((c.serve site owner (.request i turn)).server.workers w).counter =
      if w = owner i then (turnStep site (c.server.view owner i) turn.turn).worker.counter
      else (c.server.workers w).counter := by
  have hworkers : (c.serve site owner (.request i turn)).server.workers =
      Function.update c.server.workers (owner i)
        (turnStep site (c.server.view owner i) turn.turn).worker := rfl
  rw [hworkers]
  by_cases hw : w = owner i
  · subst hw
    rw [if_pos rfl, Function.update_self]
  · rw [if_neg hw, Function.update_of_ne hw]

omit [DecidableEq ω] [DecidableEq ζ] in
/-- A command about a client fits this client's setup. -/
theorem fits (hu : site.Uniform) {zone zone' : ζ} {key key' : Digest} {w : ω} {worker : Worker}
    {args : RecordArgs} (habout : (Command.evalsha args).About site zone' key' worker) :
    Fits (setup site lua hnonce zone key) w worker args := by
  intro hevents
  rcases habout with habout | habout
  · cases habout
  · obtain rfl := Command.evalsha.inj habout
    obtain ⟨hzone, hkey, -⟩ := hu.eq_of_get
      (show (keysOf site zone' key').get .events = (keysOf site zone key).get .events from hevents)
    rw [hzone, hkey]
    rfl

theorem simulated_request (h : ClusterOk site lua owner loc hnonce c) (hu : site.Uniform) (i : ι)
    (turn : OwnTurn ζ) (zone : ζ) (key : Digest) :
    Simulated owner (setup site lua hnonce zone key) (c.serve site owner (.request i turn)) := by
  obtain ⟨cmd, hsends, hqueued⟩ := h.sends i turn
  have hflying : (c.serve site owner (.request i turn)).flying =
      c.flying ++ cmd.toList.map (i, ·) := by
    rw [← hqueued]
    rfl
  have hcalls : (c.serve site owner (.request i turn)).calls = fun w => c.calls w +
      (cmd.toList.map (i, ·)).countP fun p => owner p.1 = w ∧ p.2.isEvalsha := by
    rw [← hqueued]
    rfl
  have hquiet : ∀ cmd', cmd = cmd' → (∀ args, cmd' ≠ some (.evalsha args)) →
      Simulated owner (setup site lua hnonce zone key) (c.serve site owner (.request i turn)) := by
    rintro _ rfl hne
    have hnone : ∀ p ∈ cmd.toList.map (i, ·), p.2.isEvalsha = false := by
      intro p hp
      obtain ⟨x, hx, rfl⟩ := List.mem_map.mp hp
      rw [Option.mem_toList] at hx
      cases x with
      | evalsha args => exact absurd hx (hne args)
      | _ => rfl
    have hworker : (c.server.view owner i).worker.numbered site.redis cmd =
        c.server.workers (owner i) := by
      rcases cmd with _ | x
      · rfl
      · cases x with
        | evalsha args => exact absurd rfl (hne args)
        | _ => rfl
    refine (h.simulated zone key).quiet (fun w => ?_) ?_ ?_ rfl le_rfl rfl rfl
    · rw [counter_serve]
      split_ifs with hw
      · rw [hsends.counter, hworker, hw]
      · rfl
    · rw [hcalls]
      funext w
      rw [List.countP_eq_zero.mpr fun p hp => by simp [hnone p hp], Nat.add_zero]
    · rw [hflying, List.filterMap_append]
      have hnil : (cmd.toList.map (i, ·)).filterMap
          (evalshasFor owner (setup site lua hnonce zone key).events) = [] := by
        rw [List.filterMap_eq_nil_iff]
        rintro ⟨j, x⟩ hp
        have hx := hnone _ hp
        cases x with
        | evalsha args => cases hx
        | _ => rfl
      rw [hnil, List.append_nil]
  cases cmd with
  | none => exact hquiet none rfl fun _ h => nomatch h
  | some x =>
      obtain ⟨zone', key', hserves, habout⟩ := hsends.about x rfl
      obtain ⟨key', rfl⟩ : ∃ d : Digest, key' = (d : Key) := by
        obtain ⟨a, hzone, rfl⟩ := hserves
        exact ((h.view i).2.2.turnStep turn.turn) a (by rw [hzone]; rfl)
      cases x with
      | evalsha args =>
          have hone : ∀ w, (([Command.evalsha args].map (i, ·)).countP fun p : ι × Command =>
              owner p.1 = w ∧ p.2.isEvalsha) = if w = owner i then 1 else 0 := by
            intro w
            by_cases hw : w = owner i
            · simp [hw, Command.isEvalsha]
            · simp [hw, Ne.symm hw]
          refine (h.simulated zone key).send (w := owner i) (fits hu habout)
            (fun w => ?_) ?_ ?_ rfl rfl rfl
          · rw [counter_serve]
            split_ifs
            · exact hsends.counter
            · rfl
          · rw [hcalls]
            funext w
            simp only [Option.toList_some, hone]
            by_cases hw : w = owner i
            · subst hw
              rw [if_pos rfl, Function.update_self]
            · rw [if_neg hw, Function.update_of_ne hw, Nat.add_zero]
          · rw [hflying, List.filterMap_append]
            congr 1
            by_cases hevents : args.events = (setup site lua hnonce zone key).events
            · simp [evalshasFor, hevents]
            · simp [evalshasFor, hevents]
      | _ => exact hquiet _ rfl fun _ h => nomatch h

/-- The turn of a request queues at most one `EVALSHA`, and logs the call for it. -/
theorem once_request (h : ClusterOk site lua owner loc hnonce c) (i : ι) (turn : OwnTurn ζ) (j : ι) :
    (c.server.view owner j).acts.countP Act.isRedisRecord +
        (Cluster.queued site owner c.server (.request i turn)).countP (sentBy j) ≤
      ((c.serve site owner (.request i turn)).server.view owner j).acts.countP
        Act.isRedisRecord := by
  obtain ⟨cmd, hsends, hqueued⟩ := h.sends i turn
  rw [hqueued]
  by_cases hij : i = j
  · subst hij
    obtain ⟨new, hacts, hcmd, hcount⟩ := hsends.logged
    have hview : ((c.serve site owner (.request i turn)).server.view owner i).acts =
        (turnStep site (c.server.view owner i) turn.turn).acts := Server.acts_view_self i turn
    have hsent : (cmd.toList.map (i, ·)).countP (sentBy i) =
        (commands new).countP Command.isEvalsha := by
      rw [hcmd, List.countP_map]
      simp [Function.comp_def, sentBy]
    rw [hview, hacts, hsent, List.countP_append]
    omega
  · have hview : ((c.serve site owner (.request i turn)).server.view owner j).acts =
        (c.server.view owner j).acts := Server.acts_view_of_ne hij turn
    have hnone : (cmd.toList.map (i, ·)).countP (sentBy j) = 0 := by
      rw [List.countP_map]
      simp [Function.comp_def, sentBy, hij]
    rw [hview, hnone, Nat.add_zero]

/-- Something happens on a server, that tells no context of a ban without evidence. -/
theorem serve (h : ClusterOk site lua owner loc hnonce c) (hu : site.Uniform) {e : Serving ι ω ζ}
    (hcounter : ∀ w state, e = .redis w state → state.counter = (c.server.workers w).counter)
    (hcalls : ∀ w, (c.serve site owner e).calls w < 2 ^ site.redis.plat.uintBits)
    (hbanned : ∀ i a, (((c.serve site owner e).server.view owner i).pool a).redisBlocked = true →
      ((c.server.view owner i).pool a).redisBlocked = true ∨
        ∃ zone, ∃ key : Digest, ((c.server.view owner i).pool a).zone = some zone ∧
          ((c.server.view owner i).pool a).key = key ∧ ∃ d, Evidence site zone key i c d) :
    ClusterOk site lua owner loc hnonce (c.serve site owner e) where
  reached := by
    rw [show (c.serve site owner e).history = c.history ++ [e] from rfl, run_append, ← h.reached]
    rfl
  keyed j := by
    have hview : (c.serve site owner e).server.view owner j =
        run (turnStep site) (c.server.view owner j) (Server.seenBy site owner j c.server e) :=
      Server.view_serve j e
    rw [hview]
    exact (run_invariant (fun r => Anchored r ∧ Keyed site r) (fun _ => True)
      (fun r turn h _ => ⟨h.1.turnStep turn, turnStep_keyed h.2 h.1 turn⟩)
      ⟨(h.view j).1, h.keyed j⟩ fun _ _ => trivial).2
  flying p hp := by
    rcases List.mem_append.mp hp with hp | hp
    · exact h.backed e (h.flying p hp)
    · cases e with
      | redis w state => cases hp
      | request i turn =>
          obtain ⟨cmd, hsends, hqueued⟩ := h.sends i turn
          rw [hqueued] at hp
          obtain ⟨x, hx, rfl⟩ := List.mem_map.mp hp
          obtain ⟨zone, key, ⟨a, hzone, rfl⟩, habout⟩ :=
            hsends.about x (Option.mem_toList.mp hx)
          obtain ⟨key, hkey⟩ := (h.view i).2.2.turnStep turn.turn a (by rw [hzone]; rfl)
          have hview : ((c.serve site owner (.request i turn)).server.view owner i).pool =
              (turnStep site (c.server.view owner i) turn.turn).pool := by
            simp [Cluster.serve, Server.serve, Server.view]
          refine ⟨zone, key, (c.server.view owner i).worker, ⟨a, ?_, ?_⟩, ?_⟩
          · rw [hview]
            exact hzone
          · rw [hview]
            exact hkey
          · rw [← hkey]
            exact habout
  executed x hx := h.backed e (h.executed x hx)
  once j := by
    have hold := h.once j
    have hflying : (c.serve site owner e).flying =
      c.flying ++ Cluster.queued site owner c.server e := rfl
    have hexecuted : (c.serve site owner e).executed = c.executed := rfl
    have hnew : (c.server.view owner j).acts.countP Act.isRedisRecord +
        (Cluster.queued site owner c.server e).countP (sentBy j) ≤
          ((c.serve site owner e).server.view owner j).acts.countP Act.isRedisRecord := by
      cases e with
      | request i turn => exact h.once_request i turn j
      | redis w state => exact le_rfl
    rw [hflying, hexecuted, List.countP_append]
    omega
  calls := hcalls
  simulated zone key := by
    cases e with
    | request i turn => exact h.simulated_request hu i turn zone key
    | redis w state =>
        refine (h.simulated zone key).quiet (fun w' => ?_) ?_ ?_ rfl le_rfl rfl rfl
        · have hworkers : (c.serve site owner (.redis w state)).server.workers =
              Function.update c.server.workers w state := rfl
          rw [hworkers]
          by_cases hw : w' = w
          · subst hw
            rw [Function.update_self]
            exact hcounter w' state rfl
          · rw [Function.update_of_ne hw]
        · rfl
        · exact congrArg _ (List.append_nil _)
  answers i str hstr := by
    obtain ⟨zone, key, hserves, d, hd, hevidence⟩ := h.answers i str hstr
    exact ⟨zone, key, hserves.persist (h.persists e i), d, hd, hevidence.mono (.refl _) (List.Subset.refl _) le_rfl⟩
  banned i a hb := by
    have hold : ∃ zone, ∃ key : Digest, ((c.server.view owner i).pool a).zone = some zone ∧
        ((c.server.view owner i).pool a).key = key ∧ ∃ d, Evidence site zone key i c d := by
      rcases hbanned i a hb with hb | hb
      · exact h.banned i a hb
      · exact hb
    obtain ⟨zone, key, hzone, hkey, d, hevidence⟩ := hold
    obtain ⟨hzone', hkey'⟩ := h.persists e i a zone hzone
    exact ⟨zone, key, hzone', hkey'.trans hkey, d, hevidence.mono (.refl _) (List.Subset.refl _) le_rfl⟩

/-- The turn of a request queues at most one `EVALSHA`, for its own worker. -/
theorem calls_request_le (h : ClusterOk site lua owner loc hnonce c) (i : ι) (turn : OwnTurn ζ)
    (w : ω) : (c.serve site owner (.request i turn)).calls w ≤
      c.calls w + if w = owner i then 1 else 0 := by
  obtain ⟨cmd, hsends, hqueued⟩ := h.sends i turn
  have hcalls : (c.serve site owner (.request i turn)).calls w = c.calls w +
      (cmd.toList.map (i, ·)).countP fun p => owner p.1 = w ∧ p.2.isEvalsha := by
    rw [← hqueued]
    rfl
  rw [hcalls, List.countP_map]
  refine Nat.add_le_add_left ?_ _
  split_ifs with hw
  · exact List.countP_le_length.trans (by cases cmd <;> simp)
  · rw [List.countP_eq_zero.mpr fun p hp => by simp [Ne.symm hw]]

/-! ## What happens between the servers -/

/-- Commands and answers come and go, and Redis works. -/
theorem between (h : ClusterOk site lua owner loc hnonce c) (hserver : c'.server = c.server)
    (hhistory : c'.history = c.history) (hcalls : c'.calls = c.calls)
    (hflying : ∀ p ∈ c'.flying, p ∈ c.flying) (hexecuted : c.executed.Sublist c'.executed)
    (hfetched : c.fetched ⊆ c'.fetched)
    (hnew : ∀ e ∈ c'.executed, e ∈ c.executed ∨ (e.request, .evalsha e.args) ∈ c.flying)
    (honce : ∀ i, c'.flying.countP (sentBy i) + c'.executed.countP (fun e => e.request = i) ≤
      c.flying.countP (sentBy i) + c.executed.countP (fun e => e.request = i))
    (hclock : c.clock ≤ c'.clock)
    (hsimulated : ∀ zone key, Simulated owner (setup site lua hnonce zone key) c')
    (hanswers : ∀ i str, (i, some (.string str)) ∈ c'.answers →
      (i, some (.string str)) ∈ c.answers ∨ Warranted site owner c' i str) :
    ClusterOk site lua owner loc hnonce c' where
  reached := by rw [hserver, hhistory, h.reached]
  keyed := by simpa only [hserver] using h.keyed
  flying p hp := by simpa only [Backed, hserver] using h.flying p (hflying p hp)
  executed e he := by
    rcases hnew e he with he | he
    · simpa only [Backed, hserver] using h.executed e he
    · simpa only [Backed, hserver] using h.flying _ he
  once i := by
    rw [hserver]
    exact (honce i).trans (h.once i)
  calls := by simpa only [hcalls] using h.calls
  simulated := hsimulated
  answers i str hstr := by
    rcases hanswers i str hstr with hold | hnew
    · obtain ⟨zone, key, hserves, d, hd, hevidence⟩ := h.answers i str hold
      exact ⟨zone, key, by rwa [hserver], d, hd, hevidence.mono hexecuted hfetched hclock⟩
    · exact hnew
  banned i a hb := by
    rw [hserver] at hb ⊢
    obtain ⟨zone, key, hzone, hkey, d, hevidence⟩ := h.banned i a hb
    exact ⟨zone, key, hzone, hkey, d, hevidence.mono hexecuted hfetched hclock⟩

/-- Answers are lost, or come to be lost. -/
theorem fewer (h : ClusterOk site lua owner loc hnonce c) (answers : List (ι × Option Reply))
    (hanswers : ∀ i str, (i, some (.string str)) ∈ answers → (i, some (.string str)) ∈ c.answers) :
    ClusterOk site lua owner loc hnonce { c with answers := answers } :=
  h.between rfl rfl rfl (fun _ hp => hp) (.refl _) (List.Subset.refl _) (fun _ he => .inl he) (fun _ => le_rfl) le_rfl
    (fun zone key => (h.simulated zone key).quiet (fun _ => rfl) rfl rfl rfl le_rfl rfl rfl)
    fun i str hstr => .inl (hanswers i str hstr)

/-- A command is taken off the line, and maybe answered. -/
theorem taken (h : ClusterOk site lua owner loc hnonce c) {k : ℕ} {p : ι × Command} {now : ℤ}
    (answers : List (ι × Option Reply)) (fetched : List (Fetched ι)) (hp : c.flying[k]? = some p)
    (hnow : c.clock ≤ now) (hfetched : c.fetched ⊆ fetched)
    (hanswers : ∀ i str, (i, some (.string str)) ∈ answers →
      (i, some (.string str)) ∈ c.answers ∨ i = p.1 ∧ ∃ key, p.2 = .get key ∧
        .string str = getReply c.db now key ∧ ⟨i, key, now, .string str⟩ ∈ fetched) :
    ClusterOk site lua owner loc hnonce { c with
      flying := c.flying.eraseIdx k
      answers := answers
      clock := now
      fetched := fetched } := by
  refine h.between rfl rfl rfl (fun _ => List.mem_of_mem_eraseIdx) (.refl _) hfetched
    (fun _ he => .inl he) (fun i => ?_) hnow
    (fun zone key => (h.simulated zone key).lose hp rfl rfl rfl rfl rfl hnow)
    fun i str hstr => ?_
  · exact Nat.add_le_add_right (List.eraseIdx_sublist ..).countP_le _
  · rcases hanswers i str hstr with hold | ⟨rfl, block, hget, hreply, hmem⟩
    · exact .inl hold
    · right
      obtain ⟨zone, key, w, hserves, habout⟩ := h.flying p (List.mem_of_getElem? hp)
      have hblock : block = (keysOf site zone key).block := by
        rcases habout with habout | habout
        · exact Command.get.inj (hget.symm.trans habout)
        · cases hget.symm.trans habout
      subst hblock
      have hfound : ∃ d, c.db.get now (keysOf site zone key).block = some (some d) ∧
          str = decimal d.toNat := by
        unfold getReply at hreply
        split at hreply
        · cases hreply
        · cases hreply
        · next d hd => exact ⟨d, hd, Reply.string.inj hreply⟩
      obtain ⟨d, hd, rfl⟩ := hfound
      refine ⟨zone, key, hserves, d, rfl, _, hmem, rfl, rfl, rfl, le_rfl, ?_⟩
      exact ((h.simulated zone key).grounded hnow hd).mono (.refl _)

/-- Redis executes the script. -/
theorem evalsha (h : ClusterOk site lua owner loc hnonce c) (hu : site.Uniform) {k : ℕ} {i : ι}
    {args : RecordArgs} {now : ℤ} {db : RedisDb} {reply : RecordReply}
    (hp : c.flying[k]? = some (i, .evalsha args)) (hnow : c.clock ≤ now)
    (hscript : recordScript lua args now c.db = some (db, reply)) :
    ClusterOk site lua owner loc hnonce
      { c with
        flying := c.flying.eraseIdx k
        db := db
        clock := now
        executed := ⟨i, args, now, reply⟩ :: c.executed } := by
  have hmem := List.mem_of_getElem? hp
  refine h.between rfl rfl rfl (fun _ => List.mem_of_mem_eraseIdx) (List.sublist_cons_self ..)
    (List.Subset.refl _) (fun e he => ?_) (fun j => ?_) hnow (fun zone key => ?_) fun _ _ => .inl
  · rcases List.mem_cons.mp he with rfl | he
    · exact .inr hmem
    · exact .inl he
  · -- the request has one command less on its way, and one execution more
    obtain ⟨l₁, l₂, hflying, herase⟩ := exists_eraseIdx hp
    have hsent : sentBy j (i, .evalsha args) = decide (i = j) := by simp [sentBy, Command.isEvalsha]
    rw [herase, hflying]
    simp only [List.countP_append, List.countP_cons, hsent]
    omega
  · obtain ⟨zone', key', w, -, habout⟩ := h.flying _ hmem
    have hargs : args.events = (keysOf site zone' key').get .events ∧
        args.block = (keysOf site zone' key').get .block := by
      rcases habout with habout | habout
      · cases habout
      · obtain rfl := Command.evalsha.inj habout
        exact ⟨rfl, rfl⟩
    by_cases hevents : args.events = (setup site lua hnonce zone key).events
    · exact (h.simulated zone key).execute hp hevents hnow h.calls hscript
    · have hne := hu.get_ne (show (keysOf site zone key).events ≠ (keysOf site zone' key').events from
        fun heq => hevents (hargs.1.trans heq.symm))
      have hother : ∀ kind, db ((keysOf site zone key).get kind) =
          c.db ((keysOf site zone key).get kind) := fun kind =>
        recordScript_other hscript (hargs.1 ▸ hne kind .events) (hargs.2 ▸ hne kind .block)
      refine (h.simulated zone key).quiet (fun _ => rfl) rfl ?_ ?_ hnow (hother .events)
        (hother .block)
      · exact filterMap_eraseIdx_of_none hp (if_neg hevents)
      · exact List.filter_cons_of_neg (by simpa using hevents)

theorem expire (h : ClusterOk site lua owner loc hnonce c) {key : List UInt8} {now : ℤ}
    (hnow : c.clock ≤ now) (hexp : c.db.expirable now key) :
    ClusterOk site lua owner loc hnonce { c with db := c.db.del key, clock := now } :=
  h.between rfl rfl rfl (fun _ hp => hp) (.refl _) (List.Subset.refl _) (fun _ he => .inl he) (fun _ => le_rfl) hnow
    (fun zone key' => (h.simulated zone key').expire hnow hexp) fun _ _ => .inl

theorem pool_view_of_ne {i j : ι} (hij : i ≠ j) (turn : OwnTurn ζ) :
    ((c.serve site owner (.request i turn)).server.view owner j).pool =
      (c.server.view owner j).pool := by
  simp [Cluster.serve, Server.serve, Server.view, Function.update_of_ne (Ne.symm hij)]

theorem pool_view_self (i : ι) (turn : OwnTurn ζ) :
    ((c.serve site owner (.request i turn)).server.view owner i).pool =
      (turnStep site (c.server.view owner i) turn.turn).pool := by
  simp [Cluster.serve, Server.serve, Server.view]

/-- A request takes a turn that is not a reply. -/
theorem request (h : ClusterOk site lua owner loc hnonce c) (hu : site.Uniform) {i : ι}
    {turn : OwnTurn ζ} (hreply : turn.turn.isReply = false)
    (hunspent : c.calls (owner i) + 1 < 2 ^ site.redis.plat.uintBits) :
    ClusterOk site lua owner loc hnonce (c.serve site owner (.request i turn)) := by
  refine h.serve hu (fun _ _ he => nomatch he) (fun w => ?_) fun j a hb => ?_
  · refine (h.calls_request_le i turn w).trans_lt ?_
    split_ifs with hw
    · exact hw ▸ hunspent
    · exact h.calls w
  · left
    by_cases hij : i = j
    · subst hij
      rw [pool_view_self] at hb
      exact turnStep_untold hreply a hb
    · rwa [pool_view_of_ne hij] at hb

theorem callbacks (h : ClusterOk site lua owner loc hnonce c) (hu : site.Uniform) {w : ω}
    {state : Worker} (hcounter : state.counter = (c.server.workers w).counter) :
    ClusterOk site lua owner loc hnonce (c.serve site owner (.redis w state)) := by
  refine h.serve hu (fun w' state' he => ?_) h.calls fun _ _ => .inl
  obtain ⟨rfl, rfl⟩ := Serving.redis.inj he
  exact hcounter

/-- The callback of an answer runs. -/
theorem answer (h : ClusterOk site lua owner loc hnonce c) (hu : site.Uniform) {i : ι} {now : ℤ}
    {reply : Option Reply} (hreply : ∀ str, reply = some (.string str) → Warranted site owner c i str) :
    ClusterOk site lua owner loc hnonce
      (c.serve site owner (.request i ⟨.reply now reply, rfl⟩)) := by
  have hnothing : Cluster.queued site owner c.server (.request i ⟨.reply now reply, rfl⟩) = [] := by
    have hacts : (turnStep site (c.server.view owner i) (.reply now reply)).acts =
        [] ++ (c.server.view owner i).acts :=
      (turnStep_replied site now reply (c.server.view owner i)).acts_eq
    rw [Cluster.queued, newActs_of_eq hacts]
    rfl
  have hcalls : (c.serve site owner (.request i ⟨.reply now reply, rfl⟩)).calls = c.calls := by
    simp only [Cluster.serve, hnothing, List.countP_nil, Nat.add_zero]
  refine h.serve hu (fun _ _ he => nomatch he) (fun w => hcalls ▸ h.calls w) fun j a hb => ?_
  by_cases hij : i = j
  · subst hij
    rw [pool_view_self] at hb
    rcases redisBlocked_of_reply hb with hold | ⟨hsome, str, rfl⟩
    · exact .inl hold
    · -- only one context has a zone, so it is the one that has asked
      obtain ⟨zone, key, ⟨b, hzone, hkey⟩, d, -, hevidence⟩ := hreply str rfl
      obtain rfl := (h.view i).1.unique hsome (by rw [hzone]; rfl)
      exact .inr ⟨zone, key, hzone, hkey, d, hevidence⟩
  · rw [pool_view_of_ne hij] at hb
    exact .inl hb

theorem start (site : Site ζ) (lua : Lua) (owner : ι → ω) (loc : ι → LocConf ζ) {nonce : ω → ℕ}
    (hnonce : Function.Injective nonce) :
    ClusterOk site lua owner loc hnonce (.start owner loc nonce) where
  reached := rfl
  keyed i := keyed_start site (loc i) (fun _ => .empty) (.zeroed (nonce (owner i)))
  flying _ hp := nomatch hp
  executed _ he := nomatch he
  once _ := Nat.zero_le _
  calls _ := Nat.two_pow_pos _
  simulated _ _ := ⟨.start _, ⟨fun _ => rfl, rfl, rfl, rfl, rfl, rfl⟩, .start _⟩
  answers _ _ hstr := nomatch hstr
  banned _ _ hb := nomatch hb

end ClusterOk

/-- The worker of a request has sequence numbers left. -/
def Unspent (site : Site ζ) (owner : ι → ω) (c : Cluster ι ω ζ) : Happening ι ω ζ → Prop
  | .request i _ => c.calls (owner i) + 1 < 2 ^ site.redis.plat.uintBits
  | _ => True

instance (site : Site ζ) (owner : ι → ω) (c : Cluster ι ω ζ) :
    ∀ x, Decidable (Unspent site owner c x)
  | .request i _ => inferInstanceAs (Decidable (c.calls (owner i) + 1 < 2 ^ site.redis.plat.uintBits))
  | .callbacks .. | .lose .. | .cut _ | .execute .. | .expire .. | .answer .. => .isTrue trivial

/-- Whatever happens in a cluster. -/
theorem ClusterOk.step (h : ClusterOk site lua owner loc hnonce c) (hu : site.Uniform)
    {x : Happening ι ω ζ} (hunspent : Unspent site owner c x)
    (hstep : clusterStep site lua owner c x = some c') : ClusterOk site lua owner loc hnonce c' := by
  cases x with
  | request i turn =>
      rw [clusterStep, Option.ite_none_left_eq_some] at hstep
      obtain ⟨hreply, hc'⟩ := hstep
      exact Option.some.inj hc' ▸ h.request hu (by simpa using hreply) hunspent
  | callbacks w state =>
      rw [clusterStep, Option.ite_none_right_eq_some] at hstep
      obtain ⟨hcounter, hc'⟩ := hstep
      exact Option.some.inj hc' ▸ h.callbacks hu hcounter
  | lose k reply =>
      cases hp : c.flying[k]? with
      | none => simp [clusterStep, hp] at hstep
      | some p =>
          have hkept := h.taken c.answers c.fetched hp (le_refl c.clock) (List.Subset.refl _)
            fun _ _ => .inl
          simp only [clusterStep, hp] at hstep
          split_ifs at hstep with hevalsha herror
          · exact Option.some.inj hstep ▸ hkept
          · refine Option.some.inj hstep ▸ hkept.fewer _ fun i str hstr => ?_
            rcases List.mem_append.mp hstr with hstr | hstr
            · exact hstr
            · obtain ⟨-, rfl⟩ := Prod.mk.inj (List.mem_singleton.mp hstr)
              cases herror
  | cut k =>
      cases ha : c.answers[k]? with
      | none => simp [clusterStep, ha] at hstep
      | some p =>
          simp only [clusterStep, ha] at hstep
          refine Option.some.inj hstep ▸ h.fewer _ fun i str hstr => ?_
          rcases List.mem_or_eq_of_mem_set hstr with hstr | hstr
          · exact hstr
          · cases hstr
  | execute k now =>
      rw [clusterStep, Option.ite_none_left_eq_some] at hstep
      obtain ⟨hnow, hstep⟩ := hstep
      rw [not_lt] at hnow
      cases hp : c.flying[k]? with
      | none => simp [hp] at hstep
      | some p =>
          obtain ⟨i, cmd⟩ := p
          cases cmd with
          | get key =>
              simp only [hp] at hstep
              refine Option.some.inj hstep ▸ h.taken _ _ hp hnow (List.subset_cons_self ..)
                fun j str hstr => ?_
              rcases List.mem_append.mp hstr with hstr | hstr
              · exact .inl hstr
              · obtain ⟨rfl, hreply⟩ := Prod.mk.inj (List.mem_singleton.mp hstr)
                have hsame := Option.some.inj hreply
                exact .inr ⟨rfl, key, rfl, hsame, hsame ▸ List.mem_cons_self⟩
          | evalsha args =>
              simp only [hp, Option.bind_eq_bind, Option.bind_eq_some_iff] at hstep
              obtain ⟨⟨db, reply⟩, hscript, hc'⟩ := hstep
              exact Option.some.inj hc' ▸ h.evalsha hu hp hnow hscript
          | _ => simp [hp] at hstep
  | expire key now =>
      rw [clusterStep, Option.ite_none_left_eq_some] at hstep
      obtain ⟨hok, hc'⟩ := hstep
      push Not at hok
      exact Option.some.inj hc' ▸ h.expire hok.1 (by simpa using hok.2)
  | answer k now =>
      cases ha : c.answers[k]? with
      | none => simp [clusterStep, ha] at hstep
      | some p =>
          obtain ⟨i, reply⟩ := p
          simp only [clusterStep, ha] at hstep
          have hold := h.fewer (c.answers.eraseIdx k) fun _ _ => List.mem_of_mem_eraseIdx
          refine Option.some.inj hstep ▸ hold.answer hu fun str hstr => ?_
          subst hstr
          exact h.answers i str (List.mem_of_getElem? ha)

/-! ## Grounds -/

/-- Different executions are of different requests. -/
theorem ClusterOk.nodup_executed (h : ClusterOk site lua owner loc hnonce c) :
    (c.executed.map Executed.request).Nodup := by
  refine List.nodup_iff_count_le_one.mpr fun i => ?_
  have honce := (Nat.le_add_left ..).trans (h.once i)
  rw [List.count_eq_countP, List.countP_map]
  exact honce.trans (h.view i).2.1.redisRecords

/-- An execution for a client is of a request of that client. -/
theorem ClusterOk.serves_of_events (h : ClusterOk site lua owner loc hnonce c) (hu : site.Uniform)
    {e : Executed ι} (he : e ∈ c.executed) {zone : ζ} {key : Digest}
    (hevents : e.args.events = (keysOf site zone key).events) :
    ∃ zone', site.zones zone' = site.zones zone ∧
      Serves (c.server.view owner e.request) zone' key := by
  obtain ⟨zone', key', w, hserves, habout⟩ := h.executed e he
  rcases habout with habout | habout
  · cases habout
  · have hargs : e.args.events = (keysOf site zone' key').events := by
      rw [Command.evalsha.inj habout]
      rfl
    obtain ⟨hzone, rfl, -⟩ := hu.eq_of_get
      (show (keysOf site zone' key').get .events = (keysOf site zone key).get .events from
        hargs.symm.trans hevents)
    exact ⟨zone', hzone, hserves⟩

/-- **Nobody is turned away for less than the threshold, servers sharing a Redis included.**
Whatever happens in a cluster, whatever is lost, delayed, reordered or evicted: if a client is
rejected, then as many different requests of that client as the threshold says have had a tracked
response within one interval, either on this host, and its ban is not over; or on all hosts that
have such a zone, and the ban was not over when Redis executed the `GET` of this request. -/
theorem shared_rejection_justified (hu : site.Uniform) (lua : Lua) (owner : ι → ω)
    (loc : ι → LocConf ζ) {nonce : ω → ℕ} (hnonce : Function.Injective nonce)
    (xs : List (Happening ι ω ζ)) (c : Cluster ι ω ζ) (i : ι) (v : Visit) (r₁ : Exchange ζ) (a : ℕ)
    (zone : ζ) (key : Digest) (code : ℕ) :
    let calls := Server.log site owner
      (.start owner loc (fun _ => .empty) fun w => .zeroed (nonce w)) c.history
    let r := c.server.view owner i
    let conf := site.zones zone
    StepsSatisfy (clusterStep site lua owner) (Unspent site owner) (.start owner loc nonce) xs →
    runOpt (clusterStep site lua owner) (.start owner loc nonce) xs = some c →
    Finds site v r r₁ a zone key →
    Clocked Call.now 0 ((Server.on zone calls).map Prod.snd ++ [.isBlocked key v.now]) →
    (preaccess site v r).2 = .status code →
    (∃ (hits : List (ι × ℤ)) (last : ℤ), hits.Sublist (Server.offences zone key calls) ∧
      (hits.map Prod.fst).Nodup ∧ conf.threshold ≤ hits.length ∧
      (∀ hit ∈ hits, last - conf.interval < hit.2 ∧ hit.2 ≤ last) ∧
      last ≤ v.now ∧ v.now < conf.addSaturate last conf.block) ∨
    ∃ (hits : List (Executed ι)) (last : Executed ι) (get : Fetched ι), hits.Sublist c.executed ∧
      (hits.map Executed.request).Nodup ∧ conf.threshold ≤ hits.length ∧
      (∀ e ∈ hits, (∃ zone', site.zones zone' = conf ∧
        Serves (c.server.view owner e.request) zone' key) ∧
        last.time - conf.interval * 1000 < e.time ∧ e.time ≤ last.time) ∧ last ∈ hits ∧
      get ∈ c.fetched ∧ get.request = i ∧ get.key = (keysOf site zone key).block ∧
      get.reply = .string (decimal ((last.time + conf.block * 1000) / 1000).toNat) ∧
      last.time ≤ get.time ∧ get.time ≤ last.time + conf.block * 1000 ∧ get.time ≤ c.clock := by
  intro calls r conf hunspent hrun hfinds hclock hreject
  have hok : ClusterOk site lua owner loc hnonce c :=
    (always_of_invariant (ClusterOk site lua owner loc hnonce) (Unspent site owner)
      (fun _ _ _ h hx hstep => h.step hu hx hstep) (.start site lua owner loc hnonce)
      hunspent).of_runOpt hrun
  rcases (hreject ▸ hfinds.checked : Checked site v zone a r₁ _ (.status code)).banned with
    hredis | hlocal
  · -- the context has been told of the ban by Redis
    right
    have hp := prepared_of_eq hfinds.found
    obtain ⟨zone', key', hzone, hkey, d, hevidence⟩ := hok.banned i a (hp.untold a hredis)
    obtain ⟨hzone', hkey'⟩ := (hp.sends (hok.view i).1 (hok.keyed i)).persists a zone' hzone
    obtain rfl := Option.some.inj (hzone'.symm.trans hfinds.zone_eq)
    obtain rfl : key' = key :=
      Subtype.ext (hkey.symm.trans (hkey'.symm.trans hfinds.key_eq))
    obtain ⟨get, hget, hi, hfor, hreply, hpast, hits, last, hsub, hlast, hin, hlen, rfl, hafter,
      hbefore⟩ := hevidence
    refine ⟨hits, last, get, hsub, hok.nodup_executed.sublist (hsub.map _), hlen,
      fun e he => ⟨?_, (hin e he).2⟩, hlast, hget, hi, hfor, hreply, hafter, hbefore, hpast⟩
    exact hok.serves_of_events hu (hsub.subset he) (hin e he).1
  · left
    rw [hfinds.key_eq, hfinds.shctx_eq] at hlocal
    exact Server.offences_of_isBlocked site owner loc _ c.history zone key
      (congrFun (congrArg Server.shctx hok.reached) zone) hclock hlocal

/-- A zone with Redis, on two hosts. -/
def Site.hosts : Site Bool where
  core := .unbalanced
  zones _ := { ZoneConf.tracking with redis := true }
  redis := .sample
  sha256 _ := .ofA

theorem uniform_hosts : Site.hosts.Uniform where
  keyPrefix := by unfold Braceless; decide
  name _ := by
    show 123 ∉ ([122] : List UInt8) ∧ 125 ∉ ([122] : List UInt8)
    decide
  alike _ _ _ := rfl

/-- Requests 0 and 2 are on one host, the others on the other, each on a worker of its own. -/
def LocConf.hosts (i : ℕ) : LocConf Bool := ⟨some (i == 1), 429, false, true⟩

def Worker.connected (nonce : ℕ) : Worker := { Worker.zeroed nonce with context := some 0, ready := true }

/-- A tracked response on each host is counted in Redis; a third request asks. -/
def twoHosts : List (Happening ℕ ℕ Bool) :=
  [.callbacks 0 (.connected 0), .callbacks 1 (.connected 1), .callbacks 2 (.connected 2),
    .request 0 ⟨.headerFilter (.roomy 1 4096) .notFound, rfl⟩,
    .request 1 ⟨.headerFilter (.roomy 2 4096) .notFound, rfl⟩, .execute 1 1500, .execute 0 2000,
    .request 2 ⟨.preaccess (.roomy 3 8192), rfl⟩, .execute 0 3000, .answer 0 3]

/-- The third request is turned away for the other two. -/
theorem shared_rejection_justified_hosts :
    let run := runOpt (clusterStep .hosts .decimal id) (.start id LocConf.hosts id) twoHosts
    ∃ c, run = some c ∧
      ((∃ (hits : List (ℕ × ℤ)) (last : ℤ),
        hits.Sublist (Server.offences false Digest.ofA (Server.log .hosts id
          (.start id LocConf.hosts (fun _ => .empty) .zeroed) c.history)) ∧
        (hits.map Prod.fst).Nodup ∧ 2 ≤ hits.length ∧
        (∀ hit ∈ hits, last - 10 < hit.2 ∧ hit.2 ≤ last) ∧
        last ≤ 4 ∧ 4 < (Site.hosts.zones false).addSaturate last 20) ∨
      ∃ (hits : List (Executed ℕ)) (last : Executed ℕ) (get : Fetched ℕ), hits.Sublist c.executed ∧
        (hits.map Executed.request).Nodup ∧ 2 ≤ hits.length ∧
        (∀ e ∈ hits, (∃ zone', Site.hosts.zones zone' = Site.hosts.zones false ∧
          Serves (c.server.view id e.request) zone' Digest.ofA) ∧
          last.time - 10 * 1000 < e.time ∧ e.time ≤ last.time) ∧ last ∈ hits ∧
        get ∈ c.fetched ∧ get.request = 2 ∧ get.key = (keysOf .hosts false Digest.ofA).block ∧
        get.reply = .string (decimal ((last.time + 20 * 1000) / 1000).toNat) ∧
        last.time ≤ get.time ∧ get.time ≤ last.time + 20 * 1000 ∧ get.time ≤ c.clock) := by
  intro run
  let c := run.get (by decide +kernel)
  have hrun : run = some c := (Option.some_get _).symm
  let r := c.server.view id 2
  have hfinds : Finds .hosts (.roomy 4 12288) r (prepareCtx .hosts (.roomy 4 12288) r).1 0 false .ofA :=
    ⟨rfl, Prod.ext rfl (by decide +kernel), by decide +kernel, by decide +kernel⟩
  exact ⟨c, hrun, shared_rejection_justified uniform_hosts .decimal id LocConf.hosts
    (fun _ _ h => h) twoHosts c 2 (.roomy 4 12288) _ 0 false .ofA 429 (by decide +kernel) hrun
    hfinds (by decide +kernel) (by decide +kernel)⟩

end ErrorAbuse
