import ErrorAbuse.Redis.Keys
import ErrorAbuse.Redis.Script

/-!
# Counting together

Any number of workers, of any number of servers, send their events to one Redis under the
same pair of keys. A command may be lost on its way, and Redis may execute those of
different workers in any order. `Shared` is this system, with a log of the executions; in
terms of the log, the sorted set holds the events since the last ban that were in the
window when it was last written, and its expiry time lies behind all of them.

A member is the time, the worker's nonce and its sequence number, which wraps around: of
two commands of one worker that are executed at the same time and whose calls are a
multiple of `2 ^ w` apart, only one counts. `Spaced` rules this out.
-/

namespace ErrorAbuse

open Lib

/-- Workers `ι` that count one identity of one zone together, with different nonces. -/
structure Setup (ι : Type) where
  lua : Lua
  zone : ZoneConf
  /-- what `redis_key_write` writes -/
  base : List UInt8
  conf : ι → RedisConf
  nonce : ι → ℕ
  nonce_injective : Function.Injective nonce

namespace Setup

variable {ι : Type} (g : Setup ι)

def events : List UInt8 := g.base ++ eventsSuffix
def block : List UInt8 := g.base ++ blockSuffix

theorem block_ne_events : g.block ≠ g.events := by
  intro h
  have hlen := congrArg List.length h
  simp [block, events, blockSuffix, eventsSuffix] at hlen

/-- The number of sequence numbers of a worker. -/
def period (i : ι) : ℕ := 2 ^ (g.conf i).plat.uintBits

/-- The arguments of a worker's `call`-th command. -/
def argsOf (i : ι) (call : ℕ) : RecordArgs :=
  recordArgs g.zone { Worker.zeroed (g.nonce i) with sequence := call % g.period i } g.events g.block

theorem argsOf_add_period (i : ι) (call : ℕ) : g.argsOf i (call + g.period i) = g.argsOf i call := by
  simp only [argsOf, Nat.add_mod_right]

end Setup

/-- A command on its way, with the number of the call that queued it. -/
structure Sent (ι : Type) where
  sender : ι
  call : ℕ
  args : RecordArgs

/-- An execution of the script, with the member it added. -/
structure Counted (ι : Type) where
  sender : ι
  call : ℕ
  time : ℤ
  member : List UInt8
  reply : RecordReply

/-- The workers, the commands on their way, and Redis with its clock. `calls` and `log` are not
part of the program: they count the calls of each worker and log the executions, newest
first. -/
structure Shared (ι : Type) where
  workers : ι → Worker
  calls : ι → ℕ
  flying : List (Sent ι)
  db : RedisDb
  clock : ℤ
  log : List (Counted ι)

/-- What can happen. A call of `redis_record` for another pair of keys is, as far as these keys
go, one whose command is lost. -/
inductive Traffic (ι : Type)
  /-- `redis_record` on a worker queues its command -/
  | call (i : ι)
  /-- the `k`-th command on its way is lost -/
  | lose (k : ℕ)
  /-- Redis executes the `k`-th command on its way -/
  | execute (k : ℕ) (now : ℤ)
  /-- Redis drops a key whose expiry time has come -/
  | expire (key : List UInt8) (now : ℤ)

variable {ι : Type} (g : Setup ι)

def Shared.start : Shared ι where
  workers i := .zeroed (g.nonce i)
  calls _ := 0
  flying := []
  db := .empty
  clock := 0
  log := []

/-- The worker's part of `redis_record`. -/
def Shared.send [DecidableEq ι] (s : Shared ι) (i : ι) : Shared ι :=
  let w := nextSequence (g.conf i) (s.workers i)
  { s with
    workers := Function.update s.workers i w
    calls := Function.update s.calls i (s.calls i + 1)
    flying := s.flying ++ [⟨i, s.calls i + 1, recordArgs g.zone w g.events g.block⟩] }

/-- The execution of a command. -/
def Sent.counted (c : Sent ι) (now : ℤ) (reply : RecordReply) : Counted ι :=
  ⟨c.sender, c.call, now, eventMember g.lua now c.args.nonce, reply⟩

/-- The `k`-th command on its way, `c`, has been executed. -/
def Shared.count (s : Shared ι) (k : ℕ) (c : Sent ι) (now : ℤ) (db : RedisDb) (reply : RecordReply) :
    Shared ι :=
  { s with
    flying := s.flying.eraseIdx k
    db := db
    clock := now
    log := c.counted g now reply :: s.log }

/-- What a piece of traffic does; `none` if it cannot happen. -/
def trafficStep [DecidableEq ι] (s : Shared ι) : Traffic ι → Option (Shared ι)
  | .call i => some (s.send g i)
  | .lose k => if k < s.flying.length then some { s with flying := s.flying.eraseIdx k } else none
  | .execute k now =>
    if now < s.clock then none
    else do
      let c ← s.flying[k]?
      let (db, reply) ← recordScript g.lua c.args now s.db
      some (s.count g k c now db reply)
  | .expire key now =>
    if now < s.clock ∨ !s.db.expirable now key then none
    else some { s with db := s.db.del key, clock := now }

/-! ## The log -/

/-- The executions since the last ban. -/
def sinceBan (log : List (Counted ι)) : List (Counted ι) :=
  log.takeWhile fun e => e.reply.deadline.isNone

/-- Those after `now - interval`. -/
def inWindow (now : ℤ) (l : List (Counted ι)) : List (Counted ι) :=
  l.filter fun e => now - g.zone.interval * 1000 < e.time

/-- The entry of an execution in the sorted set. -/
def Counted.entry (e : Counted ι) : List UInt8 × ℤ := (e.member, e.time)

/-- The sorted set in terms of the executions since the last ban: never written, or written
last at time `last`, and perhaps dropped since its expiry time. -/
inductive SetOf (clock : ℤ) (since : List (Counted ι)) (db : RedisDb) : Prop
  | fresh : since = [] → db g.events = none → SetOf clock since db
  | kept (last : ℤ) (z : SortedSet (List UInt8)) :
      since ≠ [] → last ≤ clock → (∀ e ∈ since, e.time ≤ last) →
      db g.events = some ⟨.sortedSet z, some (last + g.zone.inactive * 1000)⟩ →
      z.entries = (inWindow g last since).map Counted.entry → SetOf clock since db
  | dropped : (∀ e ∈ since, e.time + g.zone.inactive * 1000 ≤ clock) → db g.events = none →
      SetOf clock since db

variable {g} {s s' : Shared ι}

theorem inWindow_inWindow {now last : ℤ} (h : last ≤ now) (l : List (Counted ι)) :
    inWindow g now (inWindow g last l) = inWindow g now l := by
  rw [inWindow, inWindow, List.filter_filter, inWindow]
  refine List.filter_congr fun e _ => ?_
  simp only [Bool.and_eq_left_iff_imp, decide_eq_true_eq]
  omega

theorem filter_entries (now : ℤ) (l : List (Counted ι)) :
    (l.map Counted.entry).filter (fun e => now - g.zone.interval * 1000 < e.2) =
      (inWindow g now l).map Counted.entry := List.filter_map

/-- Nothing is left in the window after the set's expiry time. -/
theorem inWindow_eq_nil {now : ℤ} {l : List (Counted ι)}
    (h : ∀ e ∈ l, e.time + g.zone.inactive * 1000 ≤ now) : inWindow g now l = [] := by
  refine List.filter_eq_nil_iff.mpr fun e he => ?_
  have hle := g.zone.interval_le_inactive
  have := h e he
  rw [decide_eq_true_eq]
  omega

namespace SetOf

variable {clock now : ℤ} {since : List (Counted ι)} {db : RedisDb}

/-- At any later time the set shows the window, apart from entries the next execution drops. -/
theorem shows (h : SetOf g clock since db) (hnow : clock ≤ now) :
    ∃ l, db.Shows now g.events l ∧ l.filter (fun e => now - g.zone.interval * 1000 < e.2) =
      (inWindow g now since).map Counted.entry := by
  cases h with
  | fresh hsince hnone =>
      refine ⟨[], .inl ⟨?_, rfl⟩, by rw [hsince]; rfl⟩
      rw [Keyspace.find, hnone]
      rfl
  | kept last z _ hlast htimes hslot hentries =>
      by_cases hexp : now ≤ last + g.zone.inactive * 1000
      · refine ⟨z.entries, .inr ⟨z, some (last + g.zone.inactive * 1000), ?_, rfl⟩, ?_⟩
        · rw [Keyspace.find, hslot, Option.filter_some]
          exact if_pos (by simpa using hexp)
        · rw [hentries, filter_entries, inWindow_inWindow (hlast.trans hnow)]
      · refine ⟨[], .inl ⟨?_, rfl⟩, ?_⟩
        · rw [Keyspace.find, hslot, Option.filter_some]
          exact if_neg (by simpa using hexp)
        · rw [inWindow_eq_nil fun e he => ?_]
          · rfl
          · have := htimes e he
            omega
  | dropped hold hnone =>
      refine ⟨[], .inl ⟨?_, rfl⟩, ?_⟩
      · rw [Keyspace.find, hnone]
        rfl
      · rw [inWindow_eq_nil fun e he => (hold e he).trans hnow]
        rfl

/-- A set that has expired, or that Redis may drop, has no entry in the window. -/
theorem inWindow_eq_nil (h : SetOf g clock since db) (hnow : clock ≤ now)
    (hgone : db.expirable now g.events ∨ db.find now g.events = none) :
    inWindow g now since = [] := by
  cases h with
  | fresh hsince hnone => rw [hsince]; rfl
  | kept last z _ hlast htimes hslot hentries =>
      have hexp : last + g.zone.inactive * 1000 ≤ now := by
        rcases hgone with hexp | hfind
        · simpa [Keyspace.expirable, hslot] using hexp
        · rw [Keyspace.find, hslot, Option.filter_eq_none_iff] at hfind
          have := hfind _ rfl
          simp at this
          omega
      refine ErrorAbuse.inWindow_eq_nil fun e he => ?_
      have := htimes e he
      omega
  | dropped hold hnone => exact ErrorAbuse.inWindow_eq_nil fun e he => (hold e he).trans hnow

end SetOf

/-! ## Different members -/

/-- Of one worker's commands, the new one is no multiple of `2 ^ w` calls away from one executed
at the same time, `w` being the width of the sequence number. -/
def Spaced (g : Setup ι) (s : Shared ι) : Traffic ι → Prop
  | .execute k now => ∀ c ∈ s.flying[k]?, ∀ e ∈ s.log, e.sender = c.sender →
      g.lua.tostring e.time = g.lua.tostring now → e.call ≡ c.call [MOD g.period c.sender] →
        e.call = c.call
  | _ => True

/-- Members tell the workers apart, and their calls up to the period. -/
theorem eventMember_inj {t t' : ℤ} {i i' : ι} {call call' : ℕ}
    (h : eventMember g.lua t (g.argsOf i call).nonce = eventMember g.lua t' (g.argsOf i' call').nonce) :
    g.lua.tostring t = g.lua.tostring t' ∧ i = i' ∧ call ≡ call' [MOD g.period i'] := by
  have hcolon : ∀ n, 58 ∉ decimal n := not_mem_decimal (.inr (by decide))
  obtain ⟨htime, hrest⟩ := append_cons_inj (g.lua.colon_not_mem t) (g.lua.colon_not_mem t') h
  obtain ⟨hnonce, hseq⟩ := append_cons_inj (hcolon _) (hcolon _) hrest
  obtain rfl := g.nonce_injective (decimal_injective hnonce)
  exact ⟨htime, rfl, decimal_injective hseq⟩

/-- The calls whose commands are on their way or were executed. -/
def Shared.origins (s : Shared ι) : List (ι × ℕ) :=
  s.flying.map (fun c => (c.sender, c.call)) ++ s.log.map fun e => (e.sender, e.call)

/-- What the system keeps: the workers have counted their calls, every command on its way is
the one of its call, no call is executed twice, and the set is as the log says. -/
structure Tally (g : Setup ι) (s : Shared ι) : Prop where
  workers : ∀ i, (s.workers i).nonce = g.nonce i ∧ (s.workers i).sequence = s.calls i % g.period i
  args : ∀ c ∈ s.flying, c.args = g.argsOf c.sender c.call
  members : ∀ e ∈ s.log, e.member = eventMember g.lua e.time (g.argsOf e.sender e.call).nonce
  once : s.origins.Nodup
  called : ∀ p ∈ s.origins, p.2 ≤ s.calls p.1
  times : ∀ e ∈ s.log, e.time ≤ s.clock
  set : SetOf g s.clock (sinceBan s.log) s.db
  few : ∀ slot ∈ s.db g.events, ∃ z, slot.value = .sortedSet z ∧ z.card < g.zone.threshold

theorem SetOf.mono {clock clock' : ℤ} {since : List (Counted ι)} {db db' : RedisDb}
    (h : SetOf g clock since db) (hclock : clock ≤ clock') (hdb : db' g.events = db g.events) :
    SetOf g clock' since db' := by
  cases h with
  | fresh hsince hnone => exact .fresh hsince (hdb.trans hnone)
  | kept last z hne hlast htimes hslot hentries =>
      exact .kept last z hne (hlast.trans hclock) htimes (hdb.trans hslot) hentries
  | dropped hold hnone =>
      exact .dropped (fun e he => (hold e he).trans hclock) (hdb.trans hnone)

theorem Tally.start : Tally g (Shared.start g) where
  workers _ := ⟨rfl, (Nat.zero_mod _).symm⟩
  args _ h := absurd h List.not_mem_nil
  members _ h := absurd h List.not_mem_nil
  once := List.nodup_nil
  called _ h := absurd h List.not_mem_nil
  times _ h := absurd h List.not_mem_nil
  set := .fresh rfl rfl
  few _ h := nomatch h

/-- The command a call queues is the one of its number. -/
theorem recordArgs_send (h : Tally g s) (i : ι) :
    recordArgs g.zone (nextSequence (g.conf i) (s.workers i)) g.events g.block =
      g.argsOf i (s.calls i + 1) := by
  obtain ⟨hnonce, hseq⟩ := h.workers i
  have hsucc : (s.calls i % g.period i + 1) % g.period i = (s.calls i + 1) % g.period i :=
    Nat.mod_add_mod ..
  simp only [Setup.argsOf, recordArgs, nextSequence, Worker.zeroed, hnonce, hseq]
  rw [← hsucc]
  rfl

theorem Tally.send [DecidableEq ι] (h : Tally g s) (i : ι) : Tally g (s.send g i) := by
  have hnew : (i, s.calls i + 1) ∉ s.origins := by
    intro hmem
    have hle : s.calls i + 1 ≤ s.calls i := h.called _ hmem
    omega
  have hperm : (s.send g i).origins.Perm ((i, s.calls i + 1) :: s.origins) := by
    simp only [Shared.origins, Shared.send, List.map_append, List.map_cons, List.map_nil,
      List.append_assoc, List.singleton_append]
    exact List.perm_middle
  refine { h with workers := ?_, args := ?_, once := ?_, called := ?_ }
  · intro j
    rw [Shared.send]
    by_cases hj : j = i
    · subst hj
      obtain ⟨hnonce, hseq⟩ := h.workers j
      simp only [Function.update_self, nextSequence]
      refine ⟨hnonce, ?_⟩
      rw [hseq]
      exact Nat.mod_add_mod ..
    · simp only [Function.update_of_ne hj]
      exact h.workers j
  · intro c hc
    rcases List.mem_append.mp hc with hc | hc
    · exact h.args c hc
    · obtain rfl := List.mem_singleton.mp hc
      exact recordArgs_send h i
  · exact hperm.nodup_iff.mpr (List.nodup_cons.mpr ⟨hnew, h.once⟩)
  · intro p hp
    rcases List.mem_cons.mp (hperm.mem_iff.mp hp) with rfl | hp
    · exact (Function.update_self i _ s.calls).ge
    · refine (h.called p hp).trans ?_
      rw [Shared.send]
      by_cases hj : p.1 = i
      · rw [← hj]
        exact (Nat.le_succ _).trans (Function.update_self p.1 _ s.calls).ge
      · exact (Function.update_of_ne hj _ s.calls).ge

theorem Tally.lose (h : Tally g s) (k : ℕ) :
    Tally g { s with flying := s.flying.eraseIdx k } := by
  have hsub : (Shared.origins { s with flying := s.flying.eraseIdx k }).Sublist s.origins :=
    ((List.eraseIdx_sublist ..).map _).append_right _
  exact { h with
    args := fun c hc => h.args c (List.mem_of_mem_eraseIdx hc)
    once := h.once.sublist hsub
    called := fun p hp => h.called p (hsub.subset hp) }

/-- A key that has expired is dropped. -/
theorem Tally.expire (h : Tally g s) {key : List UInt8} {now : ℤ} (hnow : s.clock ≤ now)
    (hexp : s.db.expirable now key) : Tally g { s with db := s.db.del key, clock := now } := by
  have htimes : ∀ e ∈ s.log, e.time ≤ now := fun e he => (h.times e he).trans hnow
  by_cases hkey : g.events = key
  · subst hkey
    have hnone : s.db.del g.events g.events = none := Function.update_self ..
    refine { h with times := htimes, set := ?_, few := ?_ }
    · cases h.set with
      | fresh hsince _ => exact .fresh hsince hnone
      | kept last z _ _ hle hslot _ =>
          refine .dropped (fun e he => ?_) hnone
          have := hle e he
          have : last + g.zone.inactive * 1000 ≤ now := by simpa [Keyspace.expirable, hslot] using hexp
          show e.time + g.zone.inactive * 1000 ≤ now
          omega
      | dropped hold _ => exact .dropped (fun e he => (hold e he).trans hnow) hnone
    · intro slot hslot
      cases hnone.symm.trans hslot
  · have hsame : s.db.del key g.events = s.db g.events := Function.update_of_ne hkey ..
    exact { h with
      times := htimes
      set := h.set.mono hnow hsame
      few := fun slot hslot => h.few slot (hsame.symm.trans hslot) }

/-! ## Executions -/

/-- What an execution, logged as `e`, does at time `now`. -/
structure Exact (g : Setup ι) (s s' : Shared ι) (now : ℤ) (e : Counted ι) : Prop where
  logged : s'.log = e :: s.log
  new : e.member ∉ s.log.map Counted.member
  n_eq : e.reply.n = 1 + (inWindow g now (sinceBan s.log)).length
  deadline_eq : e.reply.deadline =
    if e.reply.n ≥ g.zone.threshold then some ((now + g.zone.block * 1000) / 1000) else none
  banned : e.reply.n ≥ g.zone.threshold → s'.db g.events = none ∧
    s'.db g.block = some ⟨.string ((now + g.zone.block * 1000) / 1000),
      some (now + g.zone.block * 1000)⟩
  counted : e.reply.n < g.zone.threshold → s'.db g.block = s.db g.block ∧
    ∃ z, s'.db g.events = some ⟨.sortedSet z, some (now + g.zone.inactive * 1000)⟩ ∧
      z.entries = (e.member, now) :: (inWindow g now (sinceBan s.log)).map Counted.entry

/-- A command that is executed adds a new member. -/
theorem Tally.new_member (h : Tally g s) {k : ℕ} {now : ℤ} {c : Sent ι} (hc : s.flying[k]? = some c)
    (hspaced : Spaced g s (.execute k now)) :
    eventMember g.lua now c.args.nonce ∉ s.log.map Counted.member := by
  intro hmem
  obtain ⟨e, he, hsame⟩ := List.mem_map.mp hmem
  have hcm : c ∈ s.flying := List.mem_of_getElem? hc
  rw [h.members e he, h.args c hcm] at hsame
  obtain ⟨htime, hsender, hmod⟩ := eventMember_inj hsame
  have hcall : e.call = c.call := hspaced c hc e he hsender htime hmod
  have hdisj := (List.nodup_append.mp h.once).2.2
  exact hdisj _ (List.mem_map_of_mem hcm) _ (List.mem_map_of_mem he) (by rw [hsender, hcall])

/-- An execution succeeds, and is exact. -/
theorem Tally.execute_exact [DecidableEq ι] (h : Tally g s) {k : ℕ} {now : ℤ} {c : Sent ι}
    (hc : s.flying[k]? = some c) (hnow : s.clock ≤ now) (hspaced : Spaced g s (.execute k now)) :
    ∃ db reply, trafficStep g s (.execute k now) = some (s.count g k c now db reply) ∧
      Exact g s (s.count g k c now db reply) now (c.counted g now reply) := by
  have hnew := h.new_member hc hspaced
  have hargs := h.args c (List.mem_of_getElem? hc)
  obtain ⟨i, call, args⟩ := c
  obtain rfl : args = g.argsOf i call := hargs
  obtain ⟨l, hshows, hl⟩ := h.set.shows hnow
  have hsub : (inWindow g now (sinceBan s.log)).Sublist s.log :=
    List.filter_sublist.trans (List.takeWhile_sublist _)
  have hfresh : eventMember g.lua now (g.argsOf i call).nonce ∉
      (l.filter fun e => now - (g.argsOf i call).interval < e.2).map Prod.fst := by
    rw [show (g.argsOf i call).interval = g.zone.interval * 1000 from rfl, hl, List.map_map]
    exact fun hmem => hnew ((hsub.map _).subset hmem)
  have hinactive : 0 < g.zone.inactive * 1000 := by
    have := g.zone.inactive_pos
    omega
  obtain ⟨db', reply, hscript, heffect⟩ :=
    recordScript_effect hshows g.block_ne_events hinactive hfresh
  rw [show (g.argsOf i call).interval = g.zone.interval * 1000 from rfl, hl] at heffect
  refine ⟨db', reply, ?_, rfl, hnew, ?_, heffect.deadline_eq, heffect.banned, heffect.counted⟩
  · simp only [trafficStep, if_neg (not_lt.mpr hnow), hc, hscript, Option.bind_eq_bind,
      Option.bind_some]
  · rw [add_comm, ← List.length_map Counted.entry]
    exact heffect.n_eq

theorem sinceBan_cons_of_none {e : Counted ι} (h : e.reply.deadline = none) (log : List (Counted ι)) :
    sinceBan (e :: log) = e :: sinceBan log := List.takeWhile_cons_of_pos (by rw [h]; rfl)

theorem sinceBan_cons_of_some {e : Counted ι} {d : ℤ} (h : e.reply.deadline = some d)
    (log : List (Counted ι)) : sinceBan (e :: log) = [] :=
  List.takeWhile_cons_of_neg (by rw [h]; exact Bool.false_ne_true)

/-- The event of an execution is in the window. -/
theorem inWindow_cons {e : Counted ι} {now : ℤ} (h : e.time = now) (l : List (Counted ι)) :
    inWindow g now (e :: l) = e :: inWindow g now l := by
  refine List.filter_cons_of_pos ?_
  have := g.zone.interval_pos
  rw [decide_eq_true_eq]
  omega

theorem Shared.perm_count {k : ℕ} {c : Sent ι} (hc : s.flying[k]? = some c) (now : ℤ) (db : RedisDb)
    (reply : RecordReply) : (s.count g k c now db reply).origins.Perm s.origins := by
  obtain ⟨hk, rfl⟩ := List.getElem?_eq_some_iff.mp hc
  have hperm := (List.getElem_cons_eraseIdx_perm hk).map fun c : Sent ι => (c.sender, c.call)
  exact List.perm_middle.trans (hperm.append_right _)

theorem Tally.count (h : Tally g s) {k : ℕ} {now : ℤ} {c : Sent ι} {db : RedisDb}
    {reply : RecordReply} (hc : s.flying[k]? = some c) (hnow : s.clock ≤ now)
    (hexact : Exact g s (s.count g k c now db reply) now (c.counted g now reply)) :
    Tally g (s.count g k c now db reply) := by
  have hperm := Shared.perm_count (g := g) hc now db reply
  refine ⟨h.workers, fun c hc => h.args c (List.mem_of_mem_eraseIdx hc), ?_,
    hperm.nodup_iff.mpr h.once, fun p hp => h.called p (hperm.mem_iff.mp hp), ?_, ?_, ?_⟩
  · intro e he
    rcases List.mem_cons.mp he with rfl | he
    · have hargs := h.args c (List.mem_of_getElem? hc)
      exact congrArg (fun args => eventMember g.lua now args.nonce) hargs
    · exact h.members e he
  · intro e he
    rcases List.mem_cons.mp he with rfl | he
    · exact le_rfl
    · exact (h.times e he).trans hnow
  · by_cases hn : g.zone.threshold ≤ reply.n
    · have hdead := hexact.deadline_eq.trans (if_pos hn)
      exact .fresh (sinceBan_cons_of_some hdead _) (hexact.banned hn).1
    · have hdead := hexact.deadline_eq.trans (if_neg hn)
      obtain ⟨-, z, hslot, hentries⟩ := hexact.counted (not_le.mp hn)
      have hsince := sinceBan_cons_of_none hdead s.log
      refine .kept now z ?_ le_rfl ?_ hslot ?_ <;> rw [Shared.count, hsince]
      · exact List.cons_ne_nil _ _
      · intro e he
        rcases List.mem_cons.mp he with rfl | he
        · exact le_rfl
        · exact (h.times e ((List.takeWhile_sublist _).subset he)).trans hnow
      · have hcons := inWindow_cons (g := g) (e := c.counted g now reply) rfl (sinceBan s.log)
        exact hentries.trans (congrArg (List.map Counted.entry) hcons.symm)
  · intro slot hslot
    by_cases hn : g.zone.threshold ≤ reply.n
    · cases (hexact.banned hn).1.symm.trans hslot
    · have hlt := not_le.mp hn
      obtain ⟨-, z, hset, hentries⟩ := hexact.counted hlt
      obtain rfl := Option.some.inj (hset.symm.trans hslot)
      refine ⟨z, rfl, ?_⟩
      have hcard : z.card = reply.n := by
        rw [SortedSet.card, hentries, List.length_cons, List.length_map, add_comm]
        exact hexact.n_eq.symm
      rw [hcard]
      exact hlt

/-- Every piece of traffic keeps the tally. -/
theorem Tally.step [DecidableEq ι] {traffic : Traffic ι} (h : Tally g s)
    (hspaced : Spaced g s traffic) (hstep : trafficStep g s traffic = some s') : Tally g s' := by
  cases traffic with
  | call i =>
      cases hstep
      exact h.send i
  | lose k =>
      rw [trafficStep, Option.ite_none_right_eq_some] at hstep
      obtain ⟨-, hs'⟩ := hstep
      exact Option.some.inj hs' ▸ h.lose k
  | execute k now =>
      have hnow : s.clock ≤ now := by
        by_contra hlt
        rw [trafficStep, if_pos (not_le.mp hlt)] at hstep
        cases hstep
      cases hc : s.flying[k]? with
      | none => simp [trafficStep, hc] at hstep
      | some c =>
          obtain ⟨db, reply, hexec, hexact⟩ := h.execute_exact hc hnow hspaced
          obtain rfl := Option.some.inj (hexec.symm.trans hstep)
          exact h.count hc hnow hexact
  | expire key now =>
      rw [trafficStep, Option.ite_none_left_eq_some] at hstep
      obtain ⟨hok, hs'⟩ := hstep
      push Not at hok
      exact Option.some.inj hs' ▸ h.expire hok.1 (by simpa using hok.2)

theorem calls_le_of_step [DecidableEq ι] {traffic : Traffic ι}
    (hstep : trafficStep g s traffic = some s') (i : ι) : s'.calls i ≤ s.calls i + 1 := by
  cases traffic with
  | call j =>
      cases hstep
      by_cases hij : i = j
      · subst hij
        exact (Function.update_self i _ s.calls).le
      · exact (Function.update_of_ne hij _ s.calls).le.trans (Nat.le_succ _)
  | lose k =>
      obtain ⟨-, rfl⟩ : _ ∧ _ = s' := by simpa [trafficStep] using hstep
      exact Nat.le_succ _
  | execute k now =>
      obtain ⟨-, c, -, db, reply, -, rfl⟩ : _ ∧ ∃ c, _ ∧ ∃ db reply, _ ∧ _ = s' := by
        simpa [trafficStep, Option.bind_eq_some_iff] using hstep
      exact Nat.le_succ _
  | expire key now =>
      obtain ⟨-, rfl⟩ : _ ∧ _ = s' := by simpa [trafficStep] using hstep
      exact Nat.le_succ _

/-- Before any worker has used up its sequence numbers, all traffic is spaced. -/
theorem Tally.spaced (h : Tally g s) (hlt : ∀ i, s.calls i < g.period i) (traffic : Traffic ι) :
    Spaced g s traffic := by
  cases traffic with
  | execute k now =>
      intro c hc e he hsender _ hmod
      have hcall : c.call ≤ s.calls c.sender := h.called (c.sender, c.call)
        (List.mem_append_left _ (List.mem_map_of_mem (List.mem_of_getElem? hc)))
      have hecall : e.call ≤ s.calls e.sender := h.called (e.sender, e.call)
        (List.mem_append_right _ (List.mem_map_of_mem he))
      rw [hsender] at hecall
      have := hlt c.sender
      exact Nat.ModEq.eq_of_lt_of_lt hmod (by omega) (by omega)
  | _ => trivial

theorem stepsSatisfy_spaced [DecidableEq ι] {traffic : List (Traffic ι)} (h : Tally g s)
    (hlt : ∀ i, s.calls i + traffic.length < g.period i) :
    StepsSatisfy (trafficStep g) (Spaced g) s traffic := by
  induction traffic generalizing s with
  | nil => trivial
  | cons t ts ih =>
      have hspaced := h.spaced (fun i => (Nat.le_add_right ..).trans_lt (hlt i)) t
      refine ⟨hspaced, fun s' hs' => ih (h.step hspaced hs') fun i => ?_⟩
      have hcalls := calls_le_of_step hs' i
      have hi := hlt i
      rw [List.length_cons] at hi
      omega

/-! ## All interleavings -/

/-- Between executions: the set holds fewer members than the threshold and is gone after a
ban, and its expiry takes no event of the window. -/
structure Calm (g : Setup ι) (s : Shared ι) : Prop where
  few : ∀ slot ∈ s.db g.events, ∃ z, slot.value = .sortedSet z ∧ z.card < g.zone.threshold
  empty : sinceBan s.log = [] → s.db g.events = none
  expiry : ∀ now ≥ s.clock, s.db.expirable now g.events ∨ s.db.find now g.events = none →
    inWindow g now (sinceBan s.log) = []

/-- An execution of any command on its way that satisfies `P` succeeds, and is exact. -/
def Countable [DecidableEq ι] (g : Setup ι) (P : Shared ι → Traffic ι → Prop) (s : Shared ι) : Prop :=
  ∀ k now c, s.flying[k]? = some c → s.clock ≤ now → P s (.execute k now) →
    ∃ s' reply, trafficStep g s (.execute k now) = some s' ∧ Exact g s s' now (c.counted g now reply)

theorem Tally.calm (h : Tally g s) : Calm g s where
  few := h.few
  empty hnil := by
    cases h.set with
    | fresh _ hnone => exact hnone
    | kept _ _ hne => exact absurd hnil hne
    | dropped _ hnone => exact hnone
  expiry now hnow hgone := h.set.inWindow_eq_nil hnow hgone

/-- In every interleaving of spaced traffic, every execution counts one new event, exactly. -/
theorem always_counted [DecidableEq ι] (g : Setup ι) (traffic : List (Traffic ι))
    (h : StepsSatisfy (trafficStep g) (Spaced g) (Shared.start g) traffic) :
    Always (trafficStep g) (fun s => Calm g s ∧ Countable g (Spaced g) s) (Shared.start g) traffic := by
  have htally := always_of_invariant (Tally g) (Spaced g)
    (fun s i s' hs hi hstep => hs.step hi hstep) Tally.start h
  refine htally.imp fun s hs => ⟨hs.calm, fun k now c hc hnow hspaced => ?_⟩
  obtain ⟨db, reply, hexec, hexact⟩ := hs.execute_exact hc hnow hspaced
  exact ⟨_, reply, hexec, hexact⟩

/-- Two workers of a zone on which two events ban. -/
def Setup.pair : Setup Bool where
  lua := .decimal
  zone := { ZoneConf.small with redis := true }
  base := [122]
  conf _ := .sample
  nonce i := i.toNat
  nonce_injective := by decide

/-- The same where a sequence number has 32 bits. -/
def Setup.pair32 : Setup Bool := { Setup.pair with
  zone := { ZoneConf.small32 with redis := true }
  conf := fun _ => { RedisConf.sample with plat := .ilp32 } }

/-- The commands of two workers, executed in the opposite order. -/
theorem always_counted_pair :
    Always (trafficStep Setup.pair) (fun s => Calm Setup.pair s ∧ Countable Setup.pair (Spaced Setup.pair) s)
      (Shared.start Setup.pair) [.call false, .call true, .execute 1 5000, .execute 0 5000] :=
  always_counted Setup.pair _ (stepsSatisfy_spaced Tally.start (by decide))

/-! ## Traffic that is not spaced -/

/-- `n` calls of a worker whose commands are lost. -/
def lap (i : ι) (n : ℕ) : List (Traffic ι) := (List.replicate n [.call i, .lose 0]).flatten

theorem runOpt_lap [DecidableEq ι] (h : Tally g s) (hempty : s.flying = []) (i : ι) (n : ℕ) :
    ∃ s', runOpt (trafficStep g) s (lap i n) = some s' ∧ Tally g s' ∧ s'.flying = [] ∧
      s'.log = s.log ∧ s'.clock = s.clock ∧ s'.calls i = s.calls i + n := by
  induction n generalizing s with
  | zero => exact ⟨s, rfl, h, hempty, rfl, rfl, rfl⟩
  | succ n ih =>
      have hlose : trafficStep g (s.send g i) (.lose 0) =
          some { s.send g i with flying := (s.send g i).flying.eraseIdx 0 } := by
        refine if_pos ?_
        simp [Shared.send]
      have hflying : (s.send g i).flying.eraseIdx 0 = [] := by simp [Shared.send, hempty]
      obtain ⟨s', hrun, htally, hf, hlog, hclock, hcalls⟩ := ih ((h.send i).lose 0) hflying
      refine ⟨s', ?_, htally, hf, hlog, hclock, hcalls.trans ?_⟩
      · exact runOpt_cons_eq_some.mpr ⟨_, rfl, runOpt_cons_eq_some.mpr ⟨_, hlose, hrun⟩⟩
      · have hself : (s.send g i).calls i = s.calls i + 1 := Function.update_self ..
        show (s.send g i).calls i + n = s.calls i + (n + 1)
        omega

/-- An event, a whole lap of the sequence number, and an event at the time of the first one. -/
def lapped (g : Setup ι) (i : ι) : List (Traffic ι) :=
  [.call i, .execute 0 0] ++ (lap i (g.period i - 1) ++ [.call i])

/-- The last command on its way then adds a member that is there already. -/
theorem not_always_counted [DecidableEq ι] (g : Setup ι) (i : ι) :
    ¬ Always (trafficStep g) (fun s => Calm g s ∧ Countable g (fun _ _ => True) s)
      (Shared.start g) (lapped g i) := by
  intro halways
  have hsend : Tally g ((Shared.start g).send g i) := Tally.start.send i
  have hfirst : ((Shared.start g).send g i).flying[0]? = some ⟨i, 1, g.argsOf i 1⟩ :=
    congrArg (fun args => some (Sent.mk i 1 args)) (recordArgs_send Tally.start i)
  obtain ⟨db, reply, hexec, hexact⟩ := hsend.execute_exact hfirst le_rfl
    fun _ _ e he => absurd he List.not_mem_nil
  obtain ⟨s, hrun, htally, hempty, hlog, hclock, hcalls⟩ :=
    runOpt_lap (hsend.count hfirst le_rfl hexact) rfl i (g.period i - 1)
  have hwhole : runOpt (trafficStep g) (Shared.start g) (lapped g i) = some (s.send g i) := by
    refine runOpt_append_eq_some.mpr ⟨_, ?_, runOpt_append_eq_some.mpr ⟨s, hrun, rfl⟩⟩
    exact runOpt_cons_eq_some.mpr ⟨_, rfl, runOpt_cons_eq_some.mpr ⟨_, hexec, rfl⟩⟩
  have hargs : recordArgs g.zone (nextSequence (g.conf i) (s.workers i)) g.events g.block =
      g.argsOf i 1 := by
    have hpos : 0 < g.period i := Nat.two_pow_pos _
    have hone : ((Shared.start g).send g i).calls i = 1 := Function.update_self ..
    have hcall : s.calls i + 1 = 1 + g.period i := by
      rw [hcalls, Shared.count, hone]
      omega
    rw [recordArgs_send htally i, hcall, g.argsOf_add_period]
  obtain ⟨s', reply', -, hlast⟩ := (halways.of_runOpt hwhole).2 0 0
    ⟨i, s.calls i + 1, g.argsOf i 1⟩ (by simp [Shared.send, hempty, hargs]) hclock.le trivial
  -- both commands are executed at time 0 and carry the sequence number 1
  have hlog' : (s.send g i).log = [Sent.counted g ⟨i, 1, g.argsOf i 1⟩ 0 reply] := hlog
  refine hlast.new ?_
  rw [hlog']
  exact List.mem_singleton_self _

/-- Two events of a worker with 32-bit sequence numbers, `2 ^ 32` calls apart. -/
theorem not_always_counted_pair32 :
    ¬ Always (trafficStep Setup.pair32) (fun s => Calm Setup.pair32 s ∧
        Countable Setup.pair32 (fun _ _ => True) s)
      (Shared.start Setup.pair32) (lapped Setup.pair32 false) :=
  not_always_counted Setup.pair32 false

end ErrorAbuse
