import ErrorAbuse.Redis.Counting

/-!
# Bans that servers share

The ban of an identity is a string in Redis, set by the execution that reaches the threshold and
dropped by Redis when its time is up. Whoever asks finds the latest ban of the log as long as
that is in force (`BlockOf`), and every ban of the log has been counted together from as many
executions as the threshold says (`Accounted`).
-/

namespace ErrorAbuse

open Lib

variable {ι : Type} {g : Setup ι} {s s' : Shared ι}

/-! ## The log, execution by execution -/

/-- Whether an execution has set a ban. -/
def Counted.bans (e : Counted ι) : Bool := e.reply.deadline.isSome

/-- An execution has counted the events that were logged before it. -/
structure Counts (g : Setup ι) (older : List (Counted ι)) (e : Counted ι) : Prop where
  last : ∀ e' ∈ older, e'.time ≤ e.time
  n_eq : e.reply.n = 1 + (inWindow g e.time (sinceBan older)).length
  deadline_eq : e.reply.deadline =
    if e.reply.n ≥ g.zone.threshold then some ((e.time + g.zone.block * 1000) / 1000) else none

/-- All executions of a log have. -/
def Accounted (g : Setup ι) : List (Counted ι) → Prop
  | [] => True
  | e :: older => Counts g older e ∧ Accounted g older

/-- As many executions as the threshold says, within one interval; `last` is the last of them. -/
structure Joint (g : Setup ι) (hits : List (Counted ι)) (last : Counted ι) : Prop where
  last_mem : last ∈ hits
  enough : g.zone.threshold ≤ hits.length
  within : ∀ e ∈ hits, last.time - g.zone.interval * 1000 < e.time ∧ e.time ≤ last.time

theorem Counts.joint {older : List (Counted ι)} {e : Counted ι} (h : Counts g older e)
    (hbans : e.bans = true) : Joint g (e :: inWindow g e.time (sinceBan older)) e := by
  have hn : e.reply.n ≥ g.zone.threshold := by
    by_contra hlt
    have hnone := h.deadline_eq.trans (if_neg hlt)
    simp [Counted.bans, hnone] at hbans
  refine ⟨List.mem_cons_self, ?_, fun e' he' => ?_⟩
  · rw [List.length_cons, add_comm, ← h.n_eq]
    exact hn
  · rcases List.mem_cons.mp he' with rfl | he'
    · have := g.zone.interval_pos
      exact ⟨by omega, le_rfl⟩
    · obtain ⟨hsince, hwindow⟩ := List.mem_filter.mp he'
      exact ⟨of_decide_eq_true hwindow, h.last e' ((List.takeWhile_sublist _).subset hsince)⟩

/-- Every ban of a log has its grounds there. -/
theorem Accounted.grounds {log : List (Counted ι)} (h : Accounted g log) {e : Counted ι}
    (he : e ∈ log) (hbans : e.bans = true) :
    ∃ hits, hits.Sublist log ∧ Joint g hits e := by
  induction log with
  | nil => cases he
  | cons e' older ih =>
      rcases List.mem_cons.mp he with rfl | he
      · refine ⟨_, .cons_cons e ?_, h.1.joint hbans⟩
        exact List.filter_sublist.trans (List.takeWhile_sublist _)
      · obtain ⟨hits, hsub, hjoint⟩ := ih h.2 he
        exact ⟨hits, hsub.cons e', hjoint⟩

theorem Accounted.counts {log : List (Counted ι)} (h : Accounted g log) {e : Counted ι}
    (he : e ∈ log) : ∃ older, Counts g older e := by
  induction log with
  | nil => cases he
  | cons e' older ih =>
      rcases List.mem_cons.mp he with rfl | he
      · exact ⟨older, h.1⟩
      · exact ih h.2 he

/-- The latest ban of a log is the one that ends last. -/
theorem Accounted.time_le_of_find? {log : List (Counted ι)} (h : Accounted g log) {last e : Counted ι}
    (hlast : log.find? Counted.bans = some last) (he : e ∈ log) (hbans : e.bans = true) :
    e.time ≤ last.time := by
  induction log with
  | nil => cases he
  | cons e' older ih =>
      by_cases hb : e'.bans = true
      · rw [List.find?_cons_of_pos hb] at hlast
        obtain rfl := Option.some.inj hlast
        rcases List.mem_cons.mp he with rfl | he
        · exact le_rfl
        · exact h.1.last e he
      · rw [List.find?_cons_of_neg hb] at hlast
        rcases List.mem_cons.mp he with rfl | he
        · exact absurd hbans hb
        · exact ih h.2 hlast he

/-! ## The string -/

/-- When the ban of an execution is over. -/
def Counted.expiry (g : Setup ι) (e : Counted ι) : ℤ := e.time + g.zone.block * 1000

/-- The string of a ban in terms of the latest ban of the log. -/
inductive BlockOf (g : Setup ι) (clock : ℤ) (db : RedisDb) : Option (Counted ι) → Prop
  | never : db g.block = none → BlockOf g clock db none
  | kept (e : Counted ι) : db g.block = some ⟨.string (e.expiry g / 1000), some (e.expiry g)⟩ →
      BlockOf g clock db (some e)
  | dropped (e : Counted ι) : e.expiry g ≤ clock → db g.block = none → BlockOf g clock db (some e)

namespace BlockOf

variable {clock clock' now : ℤ} {db db' : RedisDb} {last : Option (Counted ι)}

theorem mono (h : BlockOf g clock db last) (hclock : clock ≤ clock')
    (hdb : db' g.block = db g.block) : BlockOf g clock' db' last := by
  cases h with
  | never hnone => exact .never (hdb.trans hnone)
  | kept e hslot => exact .kept e (hdb.trans hslot)
  | dropped e hover hnone => exact .dropped e (hover.trans hclock) (hdb.trans hnone)

/-- Redis drops the string. -/
theorem expire (h : BlockOf g clock db last) (hclock : clock ≤ clock')
    (hexp : db.expirable clock' g.block) : BlockOf g clock' (db.del g.block) last := by
  have hnone : db.del g.block g.block = none := Function.update_self ..
  cases h with
  | never _ => exact .never hnone
  | kept e hslot => exact .dropped e (by simpa [Keyspace.expirable, hslot] using hexp) hnone
  | dropped e hover _ => exact .dropped e (hover.trans hclock) hnone

theorem get_ne_none (h : BlockOf g clock db last) : db.get now g.block ≠ none := by
  cases h with
  | never hnone => simp [Keyspace.get_of_none hnone]
  | kept e hslot => simp [Keyspace.get_of_string hslot]
  | dropped e _ hnone => simp [Keyspace.get_of_none hnone]

/-- Only the latest ban is ever seen, and only while it is in force. -/
theorem of_get {d : ℤ} (h : BlockOf g clock db last) (hget : db.get now g.block = some (some d)) :
    ∃ e, last = some e ∧ d = e.expiry g / 1000 ∧ now ≤ e.expiry g := by
  cases h with
  | never hnone => simp [Keyspace.get_of_none hnone] at hget
  | kept e hslot =>
      rw [Keyspace.get_of_string hslot] at hget
      split_ifs at hget with hnow
      · exact ⟨e, rfl, (Option.some.inj (Option.some.inj hget)).symm, hnow⟩
      · cases Option.some.inj hget
  | dropped e _ hnone => simp [Keyspace.get_of_none hnone] at hget

/-- The latest ban is seen while it is in force. -/
theorem get {e : Counted ι} (h : BlockOf g clock db (some e)) (hclock : clock ≤ now)
    (hnow : now < e.expiry g) : db.get now g.block = some (some (e.expiry g / 1000)) := by
  cases h with
  | kept _ hslot => rw [Keyspace.get_of_string hslot, if_pos hnow.le]
  | dropped _ hover _ => exact absurd (hover.trans hclock) (not_le.mpr hnow)

end BlockOf

/-! ## All along a run -/

/-- What a run keeps of the bans. -/
structure BanOk (g : Setup ι) (s : Shared ι) : Prop where
  tally : Tally g s
  accounted : Accounted g s.log
  block : BlockOf g s.clock s.db (s.log.find? Counted.bans)

namespace BanOk

theorem start (g : Setup ι) : BanOk g (Shared.start g) := ⟨.start, trivial, .never rfl⟩

theorem send [DecidableEq ι] (h : BanOk g s) (i : ι) : BanOk g (s.send g i) :=
  ⟨h.tally.send i, h.accounted, h.block⟩

theorem lose (h : BanOk g s) (k : ℕ) : BanOk g { s with flying := s.flying.eraseIdx k } :=
  ⟨h.tally.lose k, h.accounted, h.block⟩

theorem expire (h : BanOk g s) {key : List UInt8} {now : ℤ} (hnow : s.clock ≤ now)
    (hexp : s.db.expirable now key) : BanOk g { s with db := s.db.del key, clock := now } := by
  refine ⟨h.tally.expire hnow hexp, h.accounted, ?_⟩
  by_cases hkey : g.block = key
  · subst hkey
    exact h.block.expire hnow hexp
  · exact h.block.mono hnow (Function.update_of_ne hkey ..)

/-- Time passes, and other keys change. -/
theorem elsewhere (h : BanOk g s) {db : RedisDb} {now : ℤ} (hnow : s.clock ≤ now)
    (hevents : db g.events = s.db g.events) (hblock : db g.block = s.db g.block) :
    BanOk g { s with db := db, clock := now } where
  tally :=
    { h.tally with
      times := fun e he => (h.tally.times e he).trans hnow
      set := h.tally.set.mono hnow hevents
      few := fun slot hslot => h.tally.few slot (hevents.symm.trans hslot) }
  accounted := h.accounted
  block := h.block.mono hnow hblock

/-- An exact execution. -/
theorem count (h : BanOk g s) {k : ℕ} {now : ℤ} {c : Sent ι} {db : RedisDb} {reply : RecordReply}
    (hc : s.flying[k]? = some c) (hnow : s.clock ≤ now)
    (hexact : Exact g s (s.count g k c now db reply) now (c.counted g now reply)) :
    BanOk g (s.count g k c now db reply) := by
  refine ⟨h.tally.count hc hnow hexact, ⟨⟨?_, hexact.n_eq, hexact.deadline_eq⟩, h.accounted⟩, ?_⟩
  · exact fun e he => (h.tally.times e he).trans hnow
  · show BlockOf g now db ((c.counted g now reply :: s.log).find? Counted.bans)
    by_cases hn : g.zone.threshold ≤ reply.n
    · have hbans : (c.counted g now reply).bans = true := by
        rw [Counted.bans, hexact.deadline_eq.trans (if_pos hn)]
        rfl
      rw [List.find?_cons_of_pos hbans]
      exact .kept _ (hexact.banned hn).2
    · have hbans : ¬ (c.counted g now reply).bans = true := by
        rw [Counted.bans, hexact.deadline_eq.trans (if_neg hn)]
        exact Bool.false_ne_true
      rw [List.find?_cons_of_neg hbans]
      exact h.block.mono hnow (hexact.counted (not_le.mp hn)).1

theorem step [DecidableEq ι] {traffic : Traffic ι} (h : BanOk g s) (hspaced : Spaced g s traffic)
    (hstep : trafficStep g s traffic = some s') : BanOk g s' := by
  cases traffic with
  | call i =>
      cases hstep
      exact h.send i
  | lose k =>
      rw [trafficStep, Option.ite_none_right_eq_some] at hstep
      obtain ⟨-, hs'⟩ := hstep
      exact Option.some.inj hs' ▸ h.lose k
  | execute k now =>
      have hnow : s.clock ≤ now := by
        by_contra hlt
        rw [trafficStep, if_pos (not_le.mp hlt)] at hstep
        cases hstep
      cases hc : s.flying[k]? with
      | none => simp [trafficStep, hc] at hstep
      | some c =>
          obtain ⟨db, reply, hexec, hexact⟩ := h.tally.execute_exact hc hnow hspaced
          obtain rfl := Option.some.inj (hexec.symm.trans hstep)
          exact h.count hc hnow hexact
  | expire key now =>
      rw [trafficStep, Option.ite_none_left_eq_some] at hstep
      obtain ⟨hok, hs'⟩ := hstep
      push Not at hok
      exact Option.some.inj hs' ▸ h.expire hok.1 (by simpa using hok.2)

/-- A ban that is in force is seen, or a later one is. -/
theorem seen (h : BanOk g s) {now : ℤ} (hclock : s.clock ≤ now) {e : Counted ι} (he : e ∈ s.log)
    (hbans : e.bans = true) (hnow : now < e.expiry g) :
    ∃ d, s.db.get now g.block = some (some d) ∧ e.expiry g / 1000 ≤ d := by
  cases hlast : s.log.find? Counted.bans with
  | none =>
      rw [List.find?_eq_none] at hlast
      exact absurd hbans (hlast e he)
  | some last =>
      have hle : e.expiry g ≤ last.expiry g := by
        have := h.accounted.time_le_of_find? hlast he hbans
        rw [Counted.expiry, Counted.expiry]
        omega
      refine ⟨last.expiry g / 1000, (hlast ▸ h.block).get hclock (hnow.trans_le hle), ?_⟩
      omega

/-- What is seen is a ban of the log, with its grounds. -/
theorem grounds (h : BanOk g s) {now d : ℤ} (hget : s.db.get now g.block = some (some d)) :
    ∃ hits last, hits.Sublist s.log ∧ Joint g hits last ∧ last.reply.deadline = some d ∧
      d = last.expiry g / 1000 ∧ now ≤ last.expiry g := by
  obtain ⟨last, hlast, hd, hnow⟩ := h.block.of_get hget
  have hmem : last ∈ s.log := List.mem_of_find?_eq_some hlast
  have hbans : last.bans = true := List.find?_some hlast
  obtain ⟨hits, hsub, hjoint⟩ := h.accounted.grounds hmem hbans
  obtain ⟨older, hcounts⟩ := h.accounted.counts hmem
  refine ⟨hits, last, hsub, hjoint, ?_, hd, hnow⟩
  have hdead := hcounts.deadline_eq
  split_ifs at hdead with hn
  · rw [hdead, hd, Counted.expiry]
  · simp [Counted.bans, hdead] at hbans

end BanOk

/-- No two executions are of the same call. -/
theorem Tally.nodup_log (h : Tally g s) : (s.log.map fun e => (e.sender, e.call)).Nodup :=
  (List.nodup_append.mp h.once).2.1

/-- **Redis holds the bans that the servers have counted together, and no others.** However the
commands of any number of workers reach it, and whenever it drops expired keys: `GET` never fails;
from the execution that reaches the threshold on, it answers every server with a deadline at least
as late as that execution's until `block` is over; and what it answers is the deadline of a ban that
as many different events as the threshold says have brought about within one interval, and that is
not over. -/
theorem redis_bans_exact [DecidableEq ι] (g : Setup ι) (traffic : List (Traffic ι))
    (h : StepsSatisfy (trafficStep g) (Spaced g) (Shared.start g) traffic) :
    Always (trafficStep g) (fun s => ∀ now ≥ s.clock,
      s.db.get now g.block ≠ none ∧
      (∀ e ∈ s.log, ∀ d, e.reply.deadline = some d → now < e.time + g.zone.block * 1000 →
        ∃ d', s.db.get now g.block = some (some d') ∧ d ≤ d') ∧
      ∀ d, s.db.get now g.block = some (some d) →
        ∃ (hits : List (Counted ι)) (last : Counted ι), hits.Sublist s.log ∧ last ∈ hits ∧
          (hits.map fun e => (e.sender, e.call)).Nodup ∧ g.zone.threshold ≤ hits.length ∧
          (∀ e ∈ hits, last.time - g.zone.interval * 1000 < e.time ∧ e.time ≤ last.time) ∧
          d = (last.time + g.zone.block * 1000) / 1000 ∧
          now ≤ last.time + g.zone.block * 1000) (Shared.start g) traffic := by
  have hok := always_of_invariant (BanOk g) (Spaced g)
    (fun s t s' hs ht hstep => hs.step ht hstep) (.start g) h
  refine hok.imp fun s hs now hnow => ⟨hs.block.get_ne_none, fun e he d hd hlt => ?_, fun d hget => ?_⟩
  · have hbans : e.bans = true := by
      rw [Counted.bans, hd]
      rfl
    obtain ⟨older, hcounts⟩ := hs.accounted.counts he
    obtain ⟨d', hget, hle⟩ := hs.seen hnow he hbans hlt
    refine ⟨d', hget, hle.trans' ?_⟩
    have hdead := hd.symm.trans hcounts.deadline_eq
    split_ifs at hdead with hn
    exact (Option.some.inj hdead).le
  · obtain ⟨hits, last, hsub, hjoint, -, hd, hle⟩ := hs.grounds hget
    exact ⟨hits, last, hsub, hjoint.last_mem, hs.tally.nodup_log.sublist (hsub.map _), hjoint.enough,
      hjoint.within, hd, hle⟩

/-- Two workers ban a client together; Redis drops the string, and one of them starts anew. -/
theorem redis_bans_exact_pair :
    Always (trafficStep Setup.pair) (fun s => ∀ now ≥ s.clock,
      s.db.get now Setup.pair.block ≠ none ∧
      (∀ e ∈ s.log, ∀ d, e.reply.deadline = some d →
        now < e.time + Setup.pair.zone.block * 1000 →
          ∃ d', s.db.get now Setup.pair.block = some (some d') ∧ d ≤ d') ∧
      ∀ d, s.db.get now Setup.pair.block = some (some d) →
        ∃ (hits : List (Counted Bool)) (last : Counted Bool), hits.Sublist s.log ∧ last ∈ hits ∧
          (hits.map fun e => (e.sender, e.call)).Nodup ∧ Setup.pair.zone.threshold ≤ hits.length ∧
          (∀ e ∈ hits, last.time - Setup.pair.zone.interval * 1000 < e.time ∧ e.time ≤ last.time) ∧
          d = (last.time + Setup.pair.zone.block * 1000) / 1000 ∧
          now ≤ last.time + Setup.pair.zone.block * 1000)
      (Shared.start Setup.pair) [.call false, .call true, .execute 0 5000, .execute 0 6000,
        .expire Setup.pair.block 26000, .call true, .execute 0 27000] :=
  redis_bans_exact Setup.pair _ (stepsSatisfy_spaced Tally.start (by decide))

end ErrorAbuse
