import ErrorAbuse.Lib.Breaker
import ErrorAbuse.Redis.Reconnect

/-!
# The circuit breaker of a worker

Four places report to the worker's breaker: the queueing of a `GET` and of an `EVALSHA`, and
the callbacks of the two. An `Operation` is one run of one of them, and anything else that
happens to the connection, which leaves the breaker alone; every event of the event loop is a
sequence of operations.

Each operation has an outcome, and the worker's breaker is `Lib.Breaker` run over the outcomes,
but for an `EVALSHA` that cannot be queued: that is a failure which nobody reports.
-/

namespace ErrorAbuse

open Lib

variable {conf : RedisConf} {s s' : System}

/-- One step of the worker as its breaker sees it. -/
inductive Operation
  /-- a request asks for a command -/
  | request (a : Action) (now : ℤ)
  /-- the callback of a command runs -/
  | callback (ac : ℕ) (room : Bool) (cmd : Command) (reply : Option Reply) (now : ℤ)
  /-- anything else; the state becomes `s'`, but for the breaker -/
  | other (s' : System)

/-- The breaker as the worker stores it. -/
def Worker.breaker (w : Worker) : Breaker ℤ := ⟨w.consecutiveFailures, w.circuitBreakerUntil⟩

def Worker.setBreaker (w : Worker) (b : Breaker ℤ) : Worker :=
  { w with consecutiveFailures := b.streak, circuitBreakerUntil := b.deadline }

def operationStep (conf : RedisConf) (s : System) : Operation → System
  | .request a now => a.perform conf now s
  | .callback ac room cmd reply now => runCallback conf now ac room cmd reply s
  | .other s' => s'.onWorker fun w => w.setBreaker s.worker.breaker

/-- The deadline of a breaker that trips. -/
def breakerDeadline (conf : RedisConf) (now : ℤ) : ℤ :=
  timeAddSaturate conf.plat.time now circuitBreakerDuration

/-- The breaker after an outcome, as it should be. -/
def breakerAfter (conf : RedisConf) : Breaker ℤ → Outcome ℤ → Breaker ℤ :=
  Breaker.after circuitBreakerThreshold (breakerDeadline conf)

/-! ## Outcomes -/

/-- The command that an action hands to hiredis, if it gets that far. -/
def Action.command (conf : RedisConf) (s : System) : Action → Command
  | check block _ => .get block
  | record zone events block _ =>
    .evalsha (recordArgs zone (nextSequence conf s.worker) events block)

/-- The action gets as far as hiredis, which cannot queue its command. -/
def Action.Unqueued (conf : RedisConf) (now : ℤ) (s : System) (a : Action) : Prop :=
  redisAvailable s.worker now = true ∧ ∃ ac, s.worker.context = some ac ∧
    (redisAsyncCommand ac (a.command conf s) a.room s).2 = false

instance (conf : RedisConf) (now : ℤ) (s : System) (a : Action) :
    Decidable (a.Unqueued conf now s) :=
  decidable_of_iff (redisAvailable s.worker now = true ∧ ∃ ac ∈ s.worker.context,
    (redisAsyncCommand ac (a.command conf s) a.room s).2 = false) Iff.rfl

/-- What a reply to a `GET` means. -/
def checkOutcome (now : ℤ) : Option Reply → Outcome ℤ
  | some (.string _) | some .nil => .success
  | _ => .failure now

/-- What a reply to an `EVALSHA` means. -/
def recordOutcome (now : ℤ) : Option Reply → Outcome ℤ
  | some (.array (.integer :: .integer :: _)) => .success
  | some (.error str) => if str.take 8 = noscript then .neutral else .failure now
  | _ => .failure now

/-- What an operation means to the breaker. -/
def Operation.outcome (conf : RedisConf) (s : System) : Operation → Outcome ℤ
  | request a now => if a.Unqueued conf now s then .failure now else .neutral
  | callback _ _ (.get _) reply now => checkOutcome now reply
  | callback _ _ (.evalsha _) reply now => recordOutcome now reply
  | callback .. => .neutral
  | other _ => .neutral

/-- An `EVALSHA` cannot be queued. -/
def Operation.Dropped (conf : RedisConf) (s : System) : Operation → Prop
  | request (.record zone events block room) now =>
    (Action.record zone events block room).Unqueued conf now s
  | _ => False

/-! ## Each operation -/

theorem breaker_redisRecordFailure (now : ℤ) (w : Worker) :
    (redisRecordFailure conf now w).breaker = breakerAfter conf w.breaker (.failure now) := by
  have hafter : breakerAfter conf w.breaker (.failure now) =
      if w.consecutiveFailures + 1 ≥ circuitBreakerThreshold then ⟨0, breakerDeadline conf now⟩
      else ⟨w.consecutiveFailures + 1, w.circuitBreakerUntil⟩ := rfl
  simp only [hafter, redisRecordFailure]
  split_ifs <;> rfl

/-- Before the deadline no command is queued, nor anything else done. -/
theorem perform_of_unavailable (a : Action) {now : ℤ} (h : redisAvailable s.worker now = false) :
    a.perform conf now s = s := by
  cases a <;> simp [Action.perform, redisCheck, redisRecord, h]

theorem breaker_check (block : List UInt8) (room : Bool) (now : ℤ) (s : System) :
    (redisCheck conf now block room s).worker.breaker = breakerAfter conf s.worker.breaker
      (if (Action.check block room).Unqueued conf now s then .failure now else .neutral) := by
  cases havailable : redisAvailable s.worker now with
  | false =>
      rw [if_neg fun h => Bool.false_ne_true (havailable.symm.trans h.1)]
      exact congrArg (fun s => s.worker.breaker) (perform_of_unavailable (.check block room) havailable)
  | true =>
      rw [redisCheck, havailable]
      cases hctx : s.worker.context with
      | none =>
          have hqueued : ¬ (Action.check block room).Unqueued conf now s := by
            rintro ⟨-, ac, hac, -⟩
            cases hctx.symm.trans hac
          rw [if_neg hqueued]
          rfl
      | some ac =>
          have hworker := redisAsyncCommand_worker ac (.get block) room s
          have hqueued : (Action.check block room).Unqueued conf now s ↔
              (redisAsyncCommand ac (.get block) room s).2 = false := by
            simp [Action.Unqueued, Action.command, Action.room, havailable, hctx]
          simp only [hqueued, Bool.not_true, Bool.false_eq_true, if_false]
          cases hrc : (redisAsyncCommand ac (.get block) room s).2 with
          | false =>
              rw [← hworker]
              exact breaker_redisRecordFailure now _
          | true => exact congrArg Worker.breaker hworker

theorem breaker_record (zone : ZoneConf) (events block : List UInt8) (room : Bool) (now : ℤ)
    (s : System) :
    (redisRecord conf now zone events block room s).worker.breaker = s.worker.breaker := by
  rw [redisRecord]
  split_ifs
  · rfl
  · simp only
    split
    · rfl
    · rw [redisAsyncCommand_worker]
      rfl

theorem breaker_callback (ac : ℕ) (room : Bool) (cmd : Command) (reply : Option Reply) (now : ℤ)
    (s : System) :
    (runCallback conf now ac room cmd reply s).worker.breaker = breakerAfter conf s.worker.breaker
      ((Operation.callback ac room cmd reply now).outcome conf s) := by
  have hfailure : (s.onWorker (redisRecordFailure conf now)).worker.breaker =
      breakerAfter conf s.worker.breaker (.failure now) := breaker_redisRecordFailure now s.worker
  have hhandshake : (redisHandshakeCallback ac reply s).worker.breaker = s.worker.breaker := by
    rcases reply with _ | reply
    · rfl
    · cases reply <;> rfl
  cases cmd with
  | get key =>
      rcases reply with _ | reply
      · exact hfailure
      · cases reply with
        | string str => rfl
        | nil => rfl
        | _ => exact hfailure
  | evalsha args =>
      rcases reply with _ | reply
      · exact hfailure
      · cases reply with
        | array element =>
            rcases element with _ | ⟨first, _ | ⟨second, rest⟩⟩
            · exact hfailure
            · cases first <;> exact hfailure
            · cases first with
              | integer =>
                  cases second with
                  | integer => rfl
                  | _ => exact hfailure
              | _ => exact hfailure
        | error str =>
            simp only [runCallback, redisRecordCallback, Operation.outcome, recordOutcome]
            split_ifs
            · rw [redisAsyncCommand_worker]
              rfl
            · exact hfailure
        | _ => exact hfailure
  | auth user password => exact hhandshake
  | select db => exact hhandshake
  | scriptLoad => exact hhandshake

/-- **The breaker takes each outcome into account**, unless an `EVALSHA` is dropped. -/
theorem breaker_operationStep (op : Operation) (h : ¬ op.Dropped conf s) :
    (operationStep conf s op).worker.breaker = breakerAfter conf s.worker.breaker (op.outcome conf s) := by
  cases op with
  | request a now =>
      cases a with
      | check block room => exact breaker_check block room now s
      | record zone events block room =>
          have houtcome : (Operation.request (.record zone events block room) now).outcome conf s =
              .neutral := if_neg h
          rw [houtcome]
          exact breaker_record zone events block room now s
  | callback ac room cmd reply now => exact breaker_callback ac room cmd reply now s
  | other s' => rfl

/-- A dropped `EVALSHA` leaves the breaker as it is. -/
theorem breaker_of_dropped {op : Operation} (h : op.Dropped conf s) :
    (operationStep conf s op).worker.breaker = s.worker.breaker ∧
      ∃ now, op.outcome conf s = .failure now := by
  cases op with
  | request a now =>
      cases a with
      | check block room => exact h.elim
      | record zone events block room =>
          exact ⟨breaker_record zone events block room now s, now, if_pos h⟩
  | callback => exact h.elim
  | other => exact h.elim

theorem streak_operationStep_lt (op : Operation)
    (h : s.worker.breaker.streak < circuitBreakerThreshold) :
    (operationStep conf s op).worker.breaker.streak < circuitBreakerThreshold := by
  by_cases hdropped : op.Dropped conf s
  · rw [(breaker_of_dropped hdropped).1]
    exact h
  · rw [breaker_operationStep op hdropped]
    exact Breaker.streak_after_lt h _

/-! ## Whole runs -/

/-- The outcomes of a run. -/
def outcomes (conf : RedisConf) : System → List Operation → List (Outcome ℤ)
  | _, [] => []
  | s, op :: ops => op.outcome conf s :: outcomes conf (operationStep conf s op) ops

/-- No `EVALSHA` is dropped in the run. -/
def NoneDropped (conf : RedisConf) : System → List Operation → Prop
  | _, [] => True
  | s, op :: ops => ¬ op.Dropped conf s ∧ NoneDropped conf (operationStep conf s op) ops

theorem noneDropped_append_singleton {ops : List Operation} {op : Operation} :
    NoneDropped conf s (ops ++ [op]) ↔
      NoneDropped conf s ops ∧ ¬ op.Dropped conf (run (operationStep conf) s ops) := by
  induction ops generalizing s with
  | nil => simp [NoneDropped]
  | cons op' ops ih => simp only [List.cons_append, NoneDropped, ih, run_cons, and_assoc]

theorem breaker_run {ops : List Operation} (h : NoneDropped conf s ops) :
    (run (operationStep conf) s ops).worker.breaker =
      run (breakerAfter conf) s.worker.breaker (outcomes conf s ops) := by
  induction ops generalizing s with
  | nil => rfl
  | cons op ops ih =>
      rw [run_cons, outcomes, run_cons, ← breaker_operationStep op h.1]
      exact ih h.2

/-! ## Events are operations -/

/-- The states that a sequence of operations leads to. -/
def Operates (conf : RedisConf) (s s' : System) : Prop := ∃ ops, run (operationStep conf) s ops = s'

namespace Operates

theorem refl (s : System) : Operates conf s s := ⟨[], rfl⟩

theorem trans {s'' : System} (h : Operates conf s s') (h' : Operates conf s' s'') :
    Operates conf s s'' := by
  obtain ⟨ops, rfl⟩ := h
  obtain ⟨ops', rfl⟩ := h'
  exact ⟨ops ++ ops', run_append ..⟩

theorem operation (conf : RedisConf) (s : System) (op : Operation) : Operates conf s (operationStep conf s op) :=
  ⟨[op], rfl⟩

/-- What leaves the breaker alone. -/
theorem other (h : s'.worker.breaker = s.worker.breaker) : Operates conf s s' := by
  refine ⟨[.other s'], ?_⟩
  have hworker : s'.worker.setBreaker s'.worker.breaker = s'.worker := rfl
  rw [run_cons, run_nil, operationStep, System.onWorker, ← h, hworker]

end Operates

theorem performAll_operates (now : ℤ) (actions : List Action) (s : System) :
    Operates conf s (actions.foldl (Action.perform conf now) s) := by
  induction actions generalizing s with
  | nil => exact .refl s
  | cons a actions ih => exact (Operates.operation conf s (.request a now)).trans (ih _)

theorem failCallbacks_operates (conf : RedisConf) (now : ℤ) (ac : ℕ) (resumed : Resumed) (cmds : List Command)
    (s : System) : Operates conf s (failCallbacks conf now ac resumed cmds s) := by
  induction cmds generalizing s with
  | nil => exact .refl s
  | cons cmd cmds ih =>
      have hcallback := Operates.operation conf s (.callback ac false cmd none now)
      exact hcallback.trans ((performAll_operates now _ _).trans (ih _))

theorem timeOuts_operates (now : ℤ) (ac : ℕ) (rounds : List Resumed) (s : System) :
    Operates conf s (rounds.foldl (timeOut conf now ac) s) := by
  induction rounds generalizing s with
  | nil => exact .refl s
  | cons resumed rounds ih =>
      refine Operates.trans ?_ (ih _)
      rw [timeOut]
      split
      · exact .refl s
      · have htaken : Operates conf s (s.onContext ac fun c => { c with replied := [], pending := [] }) :=
          .other rfl
        exact htaken.trans (failCallbacks_operates ..)

/-- A `GET` times out, and the request that it resumes queues an `EVALSHA`, which fails as well. -/
example : (runOpt (eventStep .sample) (initProcess .sample 1 .pending 0)
    [.connected 0 ⟨true, true, true⟩ .plain, .request (.check [98] true) 0,
      .timedOut 0 [fun left => if left = 0 then [.record .small [101] [98] true] else [],
        fun _ => []] .plain]).map (fun s => s.worker.consecutiveFailures) = some 2 := rfl

@[simp] theorem breaker_redisArmReconnect (random : ℕ) (w : Worker) :
    (redisArmReconnect random w).breaker = w.breaker := by
  simp only [redisArmReconnect]
  split_ifs <;> rfl

theorem redisAsyncFree_operates (ac : ℕ) (e : Ending) (s : System) :
    Operates conf s (redisAsyncFree conf ac e s) := by
  rw [redisAsyncFree]
  split
  · exact .other rfl
  · rename_i c _
    have hdisconnect : Operates conf s (redisAsyncDisconnect ac s) := .other rfl
    have hcallbacks := failCallbacks_operates conf e.now ac e.resumed
      (c.replied.map Prod.fst ++ c.pending) (redisAsyncDisconnect ac s)
    refine (hdisconnect.trans hcallbacks).trans (.other ?_)
    simp only
    split_ifs
    · exact breaker_redisArmReconnect ..
    · rfl

theorem settle_operates (ac : ℕ) (e : Ending) (s : System) : Operates conf s (settle conf ac e s) := by
  rw [settle]
  split
  · exact .refl s
  · split_ifs
    · exact redisAsyncFree_operates ac e s
    · exact .refl s

theorem releaseContext_operates (e : Ending) (s : System) :
    Operates conf s (releaseContext conf e s) := by
  cases hctx : s.worker.context with
  | none =>
      simp only [releaseContext, hctx]
      exact .refl s
  | some ac =>
      simp only [releaseContext, hctx]
      exact (redisAsyncFree_operates ac e s).trans (.other rfl)

theorem breaker_queueHandshake (conf : RedisConf) (q : Handshake) (s : System) :
    (queueHandshake conf q s).1.worker = s.worker := by
  simp only [queueHandshake, queueNext_worker]

theorem breaker_redisConnected (q : Handshake) (s : System) :
    (redisConnected conf q s).worker.breaker = s.worker.breaker := by
  have hqueue := breaker_queueHandshake conf q
    (s.onWorker fun w => { w with ready := true, reconnectBackoff := 0 })
  rw [redisConnected]
  rcases hr : queueHandshake conf q
    (s.onWorker fun w => { w with ready := true, reconnectBackoff := 0 }) with ⟨s₁, queued⟩
  rw [hr] at hqueue
  have hsame : s₁.worker.breaker = s.worker.breaker := (congrArg Worker.breaker hqueue).trans rfl
  cases queued with
  | true => exact hsame
  | false =>
      simp only
      split
      · exact hsame
      · exact hsame

theorem breaker_connectOrRetry (o : Connect) (random : ℕ) (s : System) :
    (connectOrRetry conf o random s).worker.breaker = s.worker.breaker := by
  have hconnect : (redisConnect conf o s).1.worker.breaker = s.worker.breaker := by
    rw [redisConnect]
    simp only
    split_ifs <;> rfl
  rw [connectOrRetry]
  rcases hr : redisConnect conf o s with ⟨s₁, connected⟩
  rw [hr] at hconnect
  cases connected with
  | true => exact hconnect
  | false => exact (breaker_redisArmReconnect random s₁.worker).trans hconnect

/-- Every event is a sequence of operations, so what holds of all runs of operations holds
of the event loop. -/
theorem eventStep_operates {event : Event} (h : eventStep conf s event = some s') :
    Operates conf s s' := by
  rw [eventStep] at h
  split_ifs at h with hexited
  cases happens_of_eventEffect h with
  | reconnect o random harmed =>
      refine .other ?_
      rw [redisReconnect]
      split_ifs
      · rfl
      · exact breaker_connectOrRetry o random _
  | @connected ac c q e hc hconn =>
      have hconnected : Operates conf s
          (redisConnected conf q (s.onContext ac fun c => { c with connected := true })) :=
        .other ((breaker_redisConnected q _).trans rfl)
      exact hconnected.trans (settle_operates ac e _)
  | connectFailed hc hconn => exact .other rfl
  | serve reply hc hconn hpending => exact .other rfl
  | @deliver ac c cmd reply rest room e hc hconn hreplied =>
      have hread : Operates conf s (s.onContext ac fun c => { c with replied := rest }) :=
        .other rfl
      have hcallback := Operates.operation conf
        (s.onContext ac fun c => { c with replied := rest })
        (.callback ac room cmd (some reply) e.now)
      exact (hread.trans hcallback).trans (settle_operates ac e _)
  | @lost ac c e hc hconn => exact redisAsyncFree_operates ac e s
  | @timedOut ac _ _ rounds e =>
      exact (timeOuts_operates e.now ac rounds s).trans (redisAsyncFree_operates ac e _)
  | request a now => exact .operation conf s (.request a now)
  | registrationFailed => exact .other rfl
  | exit e =>
      have hexiting : Operates conf s
          (s.onWorker fun w => { w with exiting := true, reconnect := none }) := .other rfl
      exact (hexiting.trans (releaseContext_operates e _)).trans (.other rfl)

end ErrorAbuse
