import ErrorAbuse.Redis.Breaker
import ErrorAbuse.Request.Effects

/-!
# Requests and the circuit breaker

While the breaker of the worker is open a request asks Redis for nothing, and what becomes of
it is up to the zone.
-/

namespace ErrorAbuse

open Lib

variable {ζ : Type} {site : Site ζ} {v : Visit} {zone : ζ} {r : Exchange ζ} {a : ℕ}

theorem redisAvailable_of_lt {w : Worker} {now : ℤ} (h : now < w.breaker.deadline) :
    redisAvailable w now = false := by
  have hlate : ¬ w.circuitBreakerUntil ≤ now := not_le.mpr h
  simp [redisAvailable, hlate]

/-- A request that has not been to Redis yet. -/
def ReqCtx.Unasked (c : ReqCtx ζ) : Prop :=
  c.redisPending = false ∧ c.redisChecked = false ∧ c.redisBlocked = false

/-- The request is not parked; the zone decides. -/
theorem checkZone_of_open [DecidableEq ζ] (site : Site ζ) (v : Visit) (zone : ζ) (a : ℕ)
    (r : Exchange ζ) (hopen : v.now < r.worker.breaker.deadline) (hnew : (r.pool a).Unasked) :
    checkZone site v zone a r = checkLocal site v zone a
      (if (site.zones zone).redis then r.onCtx a fun c => { c with redisChecked := true } else r) := by
  obtain ⟨hpending, hchecked, hblocked⟩ := hnew
  rw [checkZone]
  by_cases hredis : (site.zones zone).redis
  · have hasked : r.redisCheck site v zone a =
        (r.onCtx a fun c => { c with redisChecked := true }, false) := by
      simp [Exchange.redisCheck, hpending, redisAvailable_of_lt hopen]
    rw [if_pos ⟨hredis, by rw [hchecked]; rfl⟩, if_pos hredis, hasked]
    exact if_neg (by rw [Exchange.pool_onCtx_self, hblocked]; exact Bool.false_ne_true)
  · rw [if_neg fun h => hredis h.1, if_neg hredis]
    exact if_neg (by rw [hblocked]; exact Bool.false_ne_true)

/-- No `EVALSHA` is handed to hiredis. -/
theorem redisRecord_of_open (site : Site ζ) (v : Visit) (zone : ζ) (a : ℕ) (r : Exchange ζ)
    (hopen : v.now < r.worker.breaker.deadline) :
    r.redisRecord site v zone a = r.note (.redisRecord zone (r.pool a).key v.now) := by
  have hunavailable := redisAvailable_of_lt hopen
  rw [Exchange.redisRecord, if_pos]
  rw [Bool.not_eq_true']
  exact hunavailable

/-- **Circuit breaker accounting.** In every state of every run of a worker: the streak is
below 5, and an operation changes the breaker as its outcome says, if and only if it is not an
`EVALSHA` that cannot be queued. In runs without those the streak is the failures in a row,
counted in fives, and the deadline moves with the failure that completes five, to 30 seconds
from then. Before the deadline no command is queued, and a request that has not been to Redis
is decided by its zone. -/
theorem breaker_accounting [DecidableEq ζ] (conf : RedisConf) (nonce : ℕ) (o : Connect) (random : ℕ)
    (ops : List Operation) (op : Operation) :
    let start := initProcess conf nonce o random
    let s := run (operationStep conf) start ops
    let failures := failuresInARow (outcomes conf start ops)
    s.worker.breaker.streak < 5 ∧
    ((operationStep conf s op).worker.breaker =
        breakerAfter conf s.worker.breaker (op.outcome conf s) ↔ ¬ op.Dropped conf s) ∧
    (NoneDropped conf start (ops ++ [op]) →
      s.worker.breaker.streak = failures % 5 ∧
      (∀ now, op.outcome conf s = .failure now →
        (operationStep conf s op).worker.breaker.deadline =
          if (failures + 1) % 5 = 0 then timeAddSaturate conf.plat.time now 30
          else s.worker.breaker.deadline) ∧
      ((∀ now, op.outcome conf s ≠ .failure now) →
        (operationStep conf s op).worker.breaker.deadline = s.worker.breaker.deadline)) ∧
    (∀ (action : Action) (now : ℤ), now < s.worker.breaker.deadline → action.perform conf now s = s) ∧
    ∀ (site : Site ζ) (v : Visit) (zone : ζ) (a : ℕ) (r : Exchange ζ), r.worker = s.worker →
      v.now < s.worker.breaker.deadline →
      r.redisRecord site v zone a = r.note (.redisRecord zone (r.pool a).key v.now) ∧
      ((r.pool a).Unasked → checkZone site v zone a r = checkLocal site v zone a
        (if (site.zones zone).redis then r.onCtx a fun c => { c with redisChecked := true }
          else r)) := by
  intro start s failures
  have hstart : start.worker.breaker = ⟨0, 0⟩ :=
    breaker_connectOrRetry o random ⟨.zeroed nonce, .empty, [], false⟩
  have hlt : s.worker.breaker.streak < 5 :=
    run_invariant (fun s : System => s.worker.breaker.streak < circuitBreakerThreshold) (fun _ => True)
      (fun _ op h _ => streak_operationStep_lt op h) (by rw [hstart]; decide) fun _ _ => trivial
  refine ⟨hlt, ⟨fun heq hdropped => ?_, breaker_operationStep op⟩, fun hnone => ?_, ?_, ?_⟩
  · obtain ⟨hsame, now, houtcome⟩ := breaker_of_dropped hdropped
    rw [hsame, houtcome] at heq
    exact Breaker.after_failure_ne hlt (by decide) now heq.symm
  · obtain ⟨hbefore, hop⟩ := noneDropped_append_singleton.mp hnone
    have hbreaker : s.worker.breaker = run (breakerAfter conf) ⟨0, 0⟩ (outcomes conf start ops) := by
      rw [← hstart]
      exact breaker_run hbefore
    rw [breaker_operationStep op hop, hbreaker]
    refine ⟨Breaker.streak_run (by decide) 0 _, fun now hfailure => ?_, Breaker.deadline_after⟩
    rw [hfailure]
    exact Breaker.deadline_after_failure (by decide) 0 _ now
  · exact fun action now hopen => perform_of_unavailable action (redisAvailable_of_lt hopen)
  · intro site v zone a r hworker hopen
    rw [← hworker] at hopen
    exact ⟨redisRecord_of_open site v zone a r hopen, checkZone_of_open site v zone a r hopen⟩

/-- The fifth `GET` in a row that gets no reply opens the breaker, which rests until 39. -/
theorem breaker_accounting_opens :
    let s := run (operationStep .sample) (initProcess .sample 1 .pending 0)
      (List.replicate 4 (.callback 0 false (.get [98]) none 7))
    s.worker.breaker.streak = 4 ∧
      (operationStep .sample s (.callback 0 false (.get [98]) none 9)).worker.breaker.deadline = 39 := by
  intro s
  obtain ⟨-, -, hcount, -⟩ := breaker_accounting (ζ := Unit) .sample 1 .pending 0
    (List.replicate 4 (.callback 0 false (.get [98]) none 7)) (.callback 0 false (.get [98]) none 9)
  obtain ⟨hstreak, htrips, -⟩ := hcount ⟨id, id, id, id, id, trivial⟩
  exact ⟨hstreak, htrips 9 rfl⟩

/-- Redis is connected and an `EVALSHA` cannot be queued: the streak stays 0, where a `GET`
that cannot be queued makes it 1. -/
theorem evalsha_unqueued :
    ∃ s, runOpt (eventStep .sample) (initProcess .sample 1 .pending 0)
        [.connected 0 ⟨true, true, true⟩ .plain] = some s ∧
      (Operation.request (.record .small [101] [98] false) 7).outcome .sample s = .failure 7 ∧
      (operationStep .sample s (.request (.record .small [101] [98] false) 7)).worker.breaker = ⟨0, 0⟩ ∧
      (operationStep .sample s (.request (.check [98] false) 7)).worker.breaker = ⟨1, 0⟩ ∧
      breakerAfter .sample s.worker.breaker (.failure 7) = ⟨1, 0⟩ :=
  ⟨_, rfl, by decide +kernel, rfl, rfl, rfl⟩

end ErrorAbuse
