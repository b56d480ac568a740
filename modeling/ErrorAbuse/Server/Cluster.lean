import ErrorAbuse.Redis.Bans
import ErrorAbuse.Redis.Layout
import ErrorAbuse.Server.Bans
import ErrorAbuse.Server.Sending

/-!
# Servers that share a Redis

The requests of any number of servers, one Redis, and what is on its way between them. A `Server`
with zones `η × ζ` is a number of hosts `η`, each with its own shared memory. Commands and answers
may be lost, and Redis may execute in any order what different workers have sent.

For every client, a cluster is a system of workers that count this client together, as in
`Shared`: whatever else is going on changes neither the two keys nor their workers' numbers
(`Sim`). What Redis answers is therefore backed by the executions of the cluster, and these stem
from different requests.
-/

namespace ErrorAbuse

open Lib

/-- An execution of the record script, and the request that has asked for it. -/
structure Executed (ι : Type) where
  request : ι
  args : RecordArgs
  time : ℤ
  reply : RecordReply

/-- An execution of a `GET`, and the request that has asked for it. -/
structure Fetched (ι : Type) where
  request : ι
  key : List UInt8
  time : ℤ
  reply : Reply

/-- `history`, `calls`, `executed` and `fetched` are not part of the program: they log what has
happened to the servers, count the `EVALSHA`s of each worker and log the executions, newest
first. -/
structure Cluster (ι ω ζ : Type) where
  server : Server ι ω ζ
  flying : List (ι × Command)
  answers : List (ι × Option Reply)
  db : RedisDb
  clock : ℤ
  history : List (Serving ι ω ζ)
  calls : ω → ℕ
  executed : List (Executed ι)
  fetched : List (Fetched ι)

/-- What happens in a cluster. -/
inductive Happening (ι ω ζ : Type)
  | request (i : ι) (turn : OwnTurn ζ)
  /-- callbacks of other commands and timers of a worker run -/
  | callbacks (worker : ω) (state : Worker)
  /-- the `k`-th command is refused, or its connection breaks -/
  | lose (k : ℕ) (reply : Option Reply)
  /-- the `k`-th answer is lost with its connection -/
  | cut (k : ℕ)
  /-- Redis executes the `k`-th command on its way -/
  | execute (k : ℕ) (now : ℤ)
  /-- Redis drops a key whose expiry time has come -/
  | expire (key : List UInt8) (now : ℤ)
  /-- the callback of the `k`-th answer runs -/
  | answer (k : ℕ) (now : ℤ)

/-- The answer to a `GET`: a deadline is stored as its numeral. -/
def getReply (db : RedisDb) (now : ℤ) (key : List UInt8) : Reply :=
  match db.get now key with
  | none => .error []
  | some none => .nil
  | some (some d) => .string (decimal d.toNat)

namespace Cluster

variable {ι ω ζ : Type}

/-- Nobody has been served, and Redis is empty. -/
def start (owner : ι → ω) (loc : ι → LocConf ζ) (nonce : ω → ℕ) : Cluster ι ω ζ where
  server := .start owner loc (fun _ => .empty) fun w => .zeroed (nonce w)
  flying := []
  answers := []
  db := .empty
  clock := 0
  history := []
  calls _ := 0
  executed := []
  fetched := []

/-- The commands that something on a server queues. -/
def queued [DecidableEq ζ] (site : Site ζ) (owner : ι → ω) (sv : Server ι ω ζ) : Serving ι ω ζ → List (ι × Command)
  | .request i turn =>
    let r := sv.view owner i
    (commands (newActs r (turnStep site r turn.turn))).map (i, ·)
  | .redis .. => []

/-- Something happens on a server. -/
def serve [DecidableEq ι] [DecidableEq ω] [DecidableEq ζ] (site : Site ζ) (owner : ι → ω)
    (c : Cluster ι ω ζ) (e : Serving ι ω ζ) : Cluster ι ω ζ :=
  let cmds := queued site owner c.server e
  { c with
    server := c.server.serve site owner e
    flying := c.flying ++ cmds
    history := c.history ++ [e]
    calls := fun w => c.calls w + cmds.countP fun p => owner p.1 = w ∧ p.2.isEvalsha }

end Cluster

variable {ι ω ζ : Type}

/-- What a happening does; `none` if it cannot happen. -/
def clusterStep [DecidableEq ι] [DecidableEq ω] [DecidableEq ζ] (site : Site ζ) (lua : Lua)
    (owner : ι → ω) (c : Cluster ι ω ζ) : Happening ι ω ζ → Option (Cluster ι ω ζ)
  | .request i turn =>
    if turn.turn.isReply then none else some (c.serve site owner (.request i turn))
  | .callbacks w state =>
    if state.counter = (c.server.workers w).counter then some (c.serve site owner (.redis w state))
    else none
  | .lose k reply =>
    match c.flying[k]? with
    | none => none
    | some (i, cmd) =>
      if cmd.isEvalsha then some { c with flying := c.flying.eraseIdx k }
      else if reply.all Reply.isError then
        some { c with flying := c.flying.eraseIdx k, answers := c.answers ++ [(i, reply)] }
      else none
  | .cut k =>
    match c.answers[k]? with
    | none => none
    | some (i, _) => some { c with answers := c.answers.set k (i, none) }
  | .execute k now =>
    if now < c.clock then none
    else
      match c.flying[k]? with
      | some (i, .get key) =>
        let reply := getReply c.db now key
        some { c with
          flying := c.flying.eraseIdx k
          answers := c.answers ++ [(i, some reply)]
          clock := now
          fetched := ⟨i, key, now, reply⟩ :: c.fetched }
      | some (i, .evalsha args) => do
        let (db, reply) ← recordScript lua args now c.db
        some { c with
          flying := c.flying.eraseIdx k
          db := db
          clock := now
          executed := ⟨i, args, now, reply⟩ :: c.executed }
      | _ => none
  | .expire key now =>
    if now < c.clock ∨ !c.db.expirable now key then none
    else some { c with db := c.db.del key, clock := now }
  | .answer k now =>
    match c.answers[k]? with
    | none => none
    | some (i, reply) =>
      let c := { c with answers := c.answers.eraseIdx k }
      some (c.serve site owner (.request i ⟨.reply now reply, rfl⟩))

/-! ## Other keys -/

/-- The script leaves the keys of others alone. -/
theorem recordScript_other {lua : Lua} {args : RecordArgs} {now : ℤ} {db db' : RedisDb}
    {reply : RecordReply} (h : recordScript lua args now db = some (db', reply)) {key : List UInt8}
    (hevents : key ≠ args.events) (hblock : key ≠ args.block) : db' key = db key := by
  simp only [recordScript, Option.bind_eq_bind, Option.bind_eq_some_iff] at h
  obtain ⟨db₁, h₁, db₂, h₂, n, -, h₃⟩ := h
  have hfirst : db₁ key = db key := Keyspace.zremrangebyscore_other h₁ hevents
  have hsecond : db₂ key = db₁ key := Keyspace.zadd_other h₂ hevents
  have hthird : db₂.pexpire now args.events args.inactive key = db₂ key :=
    Keyspace.pexpire_other db₂ now args.inactive hevents
  have hkept := hthird.trans (hsecond.trans hfirst)
  split_ifs at h₃ <;> obtain ⟨rfl, -⟩ := Prod.mk.inj (Option.some.inj h₃)
  · exact (Keyspace.del_other _ hevents).trans ((Keyspace.setPx_other _ _ _ _ hblock).trans hkept)
  · exact hkept

/-- An element of a list, with those before and after it. -/
theorem exists_eraseIdx {α : Type*} {l : List α} {k : ℕ} {a : α} (h : l[k]? = some a) :
    ∃ l₁ l₂, l = l₁ ++ a :: l₂ ∧ l.eraseIdx k = l₁ ++ l₂ := by
  obtain ⟨hk, rfl⟩ := List.getElem?_eq_some_iff.mp h
  refine ⟨l.take k, l.drop (k + 1), ?_, List.eraseIdx_eq_take_drop_succ ..⟩
  rw [← List.drop_eq_getElem_cons hk, List.take_append_drop]

/-- An element that goes with one of the list that `F` maps to part of `l`. -/
theorem exists_of_filterMap_eraseIdx {α β γ : Type*} {f : α → Option β} {F : γ → β} {l : List α}
    {m : List γ} {k : ℕ} {a : α} {b : β} (h : l[k]? = some a) (hf : f a = some b)
    (hm : m.map F = l.filterMap f) :
    ∃ k' x, m[k']? = some x ∧ F x = b ∧ (m.eraseIdx k').map F = (l.eraseIdx k).filterMap f := by
  obtain ⟨l₁, l₂, rfl, herase⟩ := exists_eraseIdx h
  rw [List.filterMap_append, List.filterMap_cons_some hf, List.map_eq_append_iff] at hm
  obtain ⟨m₁, m', rfl, hm₁, hm'⟩ := hm
  obtain ⟨x, m₂, rfl, rfl, hm₂⟩ := List.map_eq_cons_iff.mp hm'
  refine ⟨m₁.length, x, by simp, rfl, ?_⟩
  rw [herase, List.filterMap_append, ← hm₁, ← hm₂, ← List.map_append,
    List.eraseIdx_append_of_length_le le_rfl, Nat.sub_self]
  rfl

theorem filterMap_eraseIdx_of_none {α β : Type*} {f : α → Option β} {l : List α} {k : ℕ} {a : α}
    (h : l[k]? = some a) (hf : f a = none) : (l.eraseIdx k).filterMap f = l.filterMap f := by
  obtain ⟨l₁, l₂, rfl, herase⟩ := exists_eraseIdx h
  rw [herase, List.filterMap_append, List.filterMap_append, List.filterMap_cons_none hf]

/-! ## One client -/

variable {site : Site ζ} {lua : Lua} {owner : ι → ω} {c c' : Cluster ι ω ζ} {g : Setup ω}
  {s : Shared ω}

/-- The `EVALSHA`s for a key, each with its worker. -/
def evalshasFor (owner : ι → ω) (events : List UInt8) : ι × Command → Option (ω × RecordArgs)
  | (i, .evalsha args) => if args.events = events then some (owner i, args) else none
  | _ => none

/-- To a client, the cluster is this system of workers that count the client together. -/
structure Sim (owner : ι → ω) (g : Setup ω) (c : Cluster ι ω ζ) (s : Shared ω) : Prop where
  counter : ∀ w, (s.workers w).counter = (c.server.workers w).counter
  calls : s.calls = c.calls
  flying : s.flying.map (fun p => (p.sender, p.args)) =
    c.flying.filterMap (evalshasFor owner g.events)
  log : s.log.map (fun e => (e.sender, e.time, e.reply)) =
    (c.executed.filter fun e => e.args.events = g.events).map fun e =>
      (owner e.request, e.time, e.reply)
  db : s.db = c.db
  clock : s.clock = c.clock

/-- There is such a system, and it keeps what systems of this kind keep. -/
def Simulated (owner : ι → ω) (g : Setup ω) (c : Cluster ι ω ζ) : Prop :=
  ∃ s, Sim owner g c s ∧ BanOk g s

/-- A command that, if it is about the client of `g`, is the next one its worker can send. -/
def Fits (g : Setup ω) (w : ω) (worker : Worker) (args : RecordArgs) : Prop :=
  args.events = g.events →
    args = recordArgs g.zone (nextSequence (g.conf w) worker) g.events g.block

namespace Simulated

/-- A worker queues an `EVALSHA`. -/
theorem send [DecidableEq ω] (h : Simulated owner g c) {w : ω} {args : RecordArgs}
    (hfits : Fits g w (c.server.workers w) args)
    (hcounter : ∀ w', (c'.server.workers w').counter =
      if w' = w then (nextSequence (g.conf w) (c.server.workers w)).counter
      else (c.server.workers w').counter)
    (hcalls : c'.calls = Function.update c.calls w (c.calls w + 1))
    (hflying : c'.flying.filterMap (evalshasFor owner g.events) =
      c.flying.filterMap (evalshasFor owner g.events) ++
        if args.events = g.events then [(w, args)] else [])
    (hexecuted : c'.executed = c.executed) (hdb : c'.db = c.db) (hclock : c'.clock = c.clock) :
    Simulated owner g c' := by
  obtain ⟨s, hsim, hok⟩ := h
  have hnext : ∀ w', ((s.send g w).workers w').counter = (c'.server.workers w').counter := by
    intro w'
    rw [hcounter]
    by_cases hw : w' = w
    · subst hw
      rw [if_pos rfl, Shared.send]
      simp only [Function.update_self]
      exact counter_nextSequence (hsim.counter w')
    · rw [if_neg hw, Shared.send]
      simp only [Function.update_of_ne hw]
      exact hsim.counter w'
  have hcalled : (s.send g w).calls = c'.calls := by
    rw [hcalls, Shared.send, hsim.calls]
  by_cases hevents : args.events = g.events
  · refine ⟨s.send g w, ⟨hnext, hcalled, ?_, ?_, hsim.db.trans hdb.symm,
      hsim.clock.trans hclock.symm⟩, hok.send w⟩
    · have hargs : recordArgs g.zone (nextSequence (g.conf w) (s.workers w)) g.events g.block =
          args := by
        rw [hfits hevents]
        exact recordArgs_congr (counter_nextSequence (hsim.counter w)) ..
      rw [hflying, if_pos hevents, Shared.send, List.map_append, hsim.flying, List.map_singleton,
        hargs]
    · rw [hexecuted]
      exact hsim.log
  · -- a command for another client counts as one that is lost
    have hlost : (s.send g w).flying.eraseIdx s.flying.length = s.flying := by
      rw [Shared.send, List.eraseIdx_append_of_length_le le_rfl, Nat.sub_self]
      exact List.append_nil _
    refine ⟨{ s.send g w with flying := (s.send g w).flying.eraseIdx s.flying.length },
      ⟨hnext, hcalled, ?_, ?_, hsim.db.trans hdb.symm, hsim.clock.trans hclock.symm⟩,
      (hok.send w).lose s.flying.length⟩
    · rw [hflying, if_neg hevents, List.append_nil, ← hsim.flying]
      exact congrArg (List.map _) hlost
    · rw [hexecuted]
      exact hsim.log

/-- Nothing happens to the client. -/
theorem quiet (h : Simulated owner g c)
    (hcounter : ∀ w, (c'.server.workers w).counter = (c.server.workers w).counter)
    (hcalls : c'.calls = c.calls)
    (hflying : c'.flying.filterMap (evalshasFor owner g.events) =
      c.flying.filterMap (evalshasFor owner g.events))
    (hexecuted : (c'.executed.filter fun e => e.args.events = g.events) =
      c.executed.filter fun e => e.args.events = g.events)
    (hclock : c.clock ≤ c'.clock) (hevents : c'.db g.events = c.db g.events)
    (hblock : c'.db g.block = c.db g.block) : Simulated owner g c' := by
  obtain ⟨s, hsim, hok⟩ := h
  refine ⟨{ s with db := c'.db, clock := c'.clock }, ⟨fun w => ?_, ?_, ?_, ?_, rfl, rfl⟩, ?_⟩
  · exact (hsim.counter w).trans (hcounter w).symm
  · exact hsim.calls.trans hcalls.symm
  · exact hsim.flying.trans hflying.symm
  · rw [hexecuted]
    exact hsim.log
  · rw [← hsim.clock] at hclock
    rw [← hsim.db] at hevents hblock
    exact hok.elsewhere hclock hevents hblock

/-- A command is lost. -/
theorem lose (h : Simulated owner g c) {k : ℕ} {p : ι × Command} (hp : c.flying[k]? = some p)
    (hserver : c'.server = c.server) (hcalls : c'.calls = c.calls)
    (hflying : c'.flying = c.flying.eraseIdx k) (hexecuted : c'.executed = c.executed)
    (hdb : c'.db = c.db) (hclock : c.clock ≤ c'.clock) : Simulated owner g c' := by
  cases hfor : evalshasFor owner g.events p with
  | none =>
      refine h.quiet (fun w => by rw [hserver]) hcalls ?_ (by rw [hexecuted]) hclock (by rw [hdb])
        (by rw [hdb])
      rw [hflying, filterMap_eraseIdx_of_none hp hfor]
  | some b =>
      obtain ⟨s, hsim, hok⟩ := h
      obtain ⟨k', x, hx, -, hmap⟩ := exists_of_filterMap_eraseIdx hp hfor hsim.flying
      have hlost : Simulated owner g { c with flying := c.flying.eraseIdx k } :=
        ⟨{ s with flying := s.flying.eraseIdx k' },
          ⟨hsim.counter, hsim.calls, hmap, hsim.log, hsim.db, hsim.clock⟩, hok.lose k'⟩
      exact hlost.quiet (fun w => by rw [hserver]) hcalls (by rw [hflying]) (by rw [hexecuted])
        hclock (by rw [hdb]) (by rw [hdb])

/-- A key expires. -/
theorem expire (h : Simulated owner g c) {key : List UInt8} {now : ℤ} (hnow : c.clock ≤ now)
    (hexp : c.db.expirable now key) :
    Simulated owner g { c with db := c.db.del key, clock := now } := by
  obtain ⟨s, hsim, hok⟩ := h
  have hdb : s.db.del key = c.db.del key := by rw [hsim.db]
  refine ⟨{ s with db := s.db.del key, clock := now }, ⟨hsim.counter, hsim.calls, hsim.flying, hsim.log, hdb, rfl⟩,
    hok.expire (hsim.clock ▸ hnow) (hsim.db ▸ hexp)⟩

/-- The script is executed for the client. -/
theorem execute [DecidableEq ω] (h : Simulated owner g c) {k : ℕ} {i : ι} {args : RecordArgs} {now : ℤ}
    {db : RedisDb} {reply : RecordReply} (hp : c.flying[k]? = some (i, .evalsha args))
    (hevents : args.events = g.events) (hnow : c.clock ≤ now)
    (hcalls : ∀ w, c.calls w < g.period w)
    (hscript : recordScript g.lua args now c.db = some (db, reply)) :
    Simulated owner g { c with
      flying := c.flying.eraseIdx k
      db := db
      clock := now
      executed := ⟨i, args, now, reply⟩ :: c.executed } := by
  obtain ⟨s, hsim, hok⟩ := h
  have hfor : evalshasFor owner g.events (i, .evalsha args) = some (owner i, args) := if_pos hevents
  obtain ⟨k', x, hx, hFx, hmap⟩ := exists_of_filterMap_eraseIdx hp hfor hsim.flying
  obtain ⟨hsender, hargs⟩ := Prod.mk.inj hFx
  have hspaced := hok.tally.spaced (fun w => hsim.calls ▸ hcalls w) (.execute k' now)
  obtain ⟨db', reply', hexec, hexact⟩ := hok.tally.execute_exact hx (hsim.clock ▸ hnow) hspaced
  -- both run the same script
  have hsame : recordScript g.lua x.args now s.db = some (db', reply') := by
    simp only [trafficStep, if_neg (not_lt.mpr (hsim.clock ▸ hnow)), hx, Option.bind_eq_bind,
      Option.bind_some, Option.bind_eq_some_iff] at hexec
    obtain ⟨result, hresult, hcount⟩ := hexec
    have hstate := Option.some.inj hcount
    have hlog := congrArg Shared.log hstate
    have hdb := congrArg Shared.db hstate
    simp only [Shared.count, Sent.counted, List.cons.injEq, and_true, Counted.mk.injEq,
      true_and] at hlog hdb
    rw [hresult, ← hdb, ← hlog]
  rw [hargs, hsim.db, hscript] at hsame
  obtain ⟨rfl, rfl⟩ := Prod.mk.inj (Option.some.inj hsame)
  refine ⟨s.count g k' x now db reply, ⟨hsim.counter, hsim.calls, hmap, ?_, rfl, rfl⟩,
    hok.count hx (hsim.clock ▸ hnow) hexact⟩
  rw [List.filter_cons_of_pos (by simpa using hevents), List.map_cons, ← hsim.log]
  simp only [Shared.count, Sent.counted, List.map_cons, hsender]

end Simulated

end ErrorAbuse
