import ErrorAbuse.Redis.Worker

/-!
# Who owns the connection

A worker either points to the one hiredis context that is live or has its reconnect timer
armed. `Owned` is this invariant. Most of what runs inside an event leaves it alone, since
it only moves commands, readiness and the breaker: `Quiet` says so once for all of it.

One event breaks it. When a pending connect fails, the connect callback only clears
`ready`; hiredis then frees the context the worker still points to, and no timer is armed.
-/

namespace ErrorAbuse

open Lib

variable {conf : RedisConf} {s s' s'' : System}

/-! ## What leaves ownership alone -/

/-- The worker points to the same context, the same contexts are live and connected, the timer
and the process are as they were, and Redis has executed nothing. -/
structure Quiet (s s' : System) : Prop where
  context : s'.worker.context = s.worker.context
  reconnect : s'.worker.reconnect = s.worker.reconnect
  exiting : s'.worker.exiting = s.worker.exiting
  connected : ∀ i, (s'.contexts.get i).map AsyncContext.connected =
    (s.contexts.get i).map AsyncContext.connected
  next : s'.contexts.next = s.contexts.next
  freed : s'.contexts.freed = s.contexts.freed
  exited : s'.exited = s.exited
  executed : s'.executed = s.executed

namespace Quiet

theorem refl (s : System) : Quiet s s := ⟨rfl, rfl, rfl, fun _ => rfl, rfl, rfl, rfl, rfl⟩

theorem trans (h : Quiet s s') (h' : Quiet s' s'') : Quiet s s'' where
  context := h'.context.trans h.context
  reconnect := h'.reconnect.trans h.reconnect
  exiting := h'.exiting.trans h.exiting
  connected i := (h'.connected i).trans (h.connected i)
  next := h'.next.trans h.next
  freed := h'.freed.trans h.freed
  exited := h'.exited.trans h.exited
  executed := h'.executed.trans h.executed

theorem onContext (s : System) (ac : ℕ) {f : AsyncContext → AsyncContext}
    (hf : ∀ c, (f c).connected = c.connected) : Quiet s (s.onContext ac f) := by
  refine ⟨rfl, rfl, rfl, fun i => ?_, rfl, rfl, rfl, rfl⟩
  rw [System.onContext, Handles.get_modify]
  split_ifs
  · rw [Option.map_map]
    exact congrArg (fun g => (s.contexts.get i).map g) (funext hf)
  · rfl

theorem onWorker (s : System) {f : Worker → Worker}
    (hf : (f s.worker).context = s.worker.context ∧ (f s.worker).reconnect = s.worker.reconnect ∧
      (f s.worker).exiting = s.worker.exiting) : Quiet s (s.onWorker f) :=
  ⟨hf.1, hf.2.1, hf.2.2, fun _ => rfl, rfl, rfl, rfl, rfl⟩

theorem live (h : Quiet s s') (i : ℕ) :
    (s'.contexts.get i).isSome = (s.contexts.get i).isSome := by
  simpa using congrArg Option.isSome (h.connected i)

theorem connected_eq (h : Quiet s s') {i : ℕ} {c c' : AsyncContext} (hc : s.contexts.get i = some c)
    (hc' : s'.contexts.get i = some c') : c'.connected = c.connected := by
  have hsame := h.connected i
  rw [hc, hc'] at hsame
  exact Option.some.inj hsame

theorem sole (h : Quiet s s') {o : Option ℕ} (hs : s.contexts.Sole o) : s'.contexts.Sole o where
  live_iff i := by rw [h.live, hs.live_iff]
  lt_next i hi := h.next ▸ hs.lt_next i hi
  freed_lt i hi := h.next ▸ hs.freed_lt i (h.freed ▸ hi)
  nodup := h.freed ▸ hs.nodup
  not_freed i hi := hs.not_freed i (h.freed ▸ hi)

end Quiet

theorem redisAsyncCommand_worker (ac : ℕ) (cmd : Command) (room : Bool) (s : System) :
    (redisAsyncCommand ac cmd room s).1.worker = s.worker := by
  rw [redisAsyncCommand]
  split
  · rfl
  · split_ifs <;> rfl

theorem redisAsyncCommand_quiet (ac : ℕ) (cmd : Command) (room : Bool) (s : System) :
    Quiet s (redisAsyncCommand ac cmd room s).1 := by
  rw [redisAsyncCommand]
  split
  · exact .refl s
  · split_ifs
    · exact .refl s
    · exact .onContext s ac fun _ => rfl

theorem redisAsyncDisconnect_quiet (ac : ℕ) (s : System) : Quiet s (redisAsyncDisconnect ac s) :=
  .onContext s ac fun _ => rfl

theorem redisRecordFailure_fields (conf : RedisConf) (now : ℤ) (w : Worker) :
    (redisRecordFailure conf now w).context = w.context ∧
      (redisRecordFailure conf now w).reconnect = w.reconnect ∧
      (redisRecordFailure conf now w).exiting = w.exiting := by
  simp only [redisRecordFailure]
  split_ifs <;> exact ⟨rfl, rfl, rfl⟩

theorem Action.perform_quiet (conf : RedisConf) (now : ℤ) (s : System) (a : Action) :
    Quiet s (a.perform conf now s) := by
  cases a with
  | check block room =>
      simp only [perform, redisCheck]
      split_ifs
      · exact .refl s
      · split
        · exact .refl s
        · split_ifs
          · exact (redisAsyncCommand_quiet ..).trans
              (.onWorker _ (redisRecordFailure_fields conf now _))
          · exact redisAsyncCommand_quiet ..
  | record zone events block room =>
      have hseq : Quiet s (s.onWorker (nextSequence conf)) := .onWorker s ⟨rfl, rfl, rfl⟩
      simp only [perform, redisRecord]
      split_ifs
      · exact .refl s
      · split
        · exact hseq
        · exact hseq.trans (redisAsyncCommand_quiet ..)

theorem runCallback_quiet (conf : RedisConf) (now : ℤ) (ac : ℕ) (room : Bool) (cmd : Command)
    (reply : Option Reply) (s : System) : Quiet s (runCallback conf now ac room cmd reply s) := by
  have hfail : Quiet s (s.onWorker (redisRecordFailure conf now)) :=
    .onWorker s (redisRecordFailure_fields conf now s.worker)
  have hreset : Quiet s (s.onWorker fun w => { w with consecutiveFailures := 0 }) :=
    .onWorker s ⟨rfl, rfl, rfl⟩
  have hhandshake : Quiet s (redisHandshakeCallback ac reply s) := by
    simp only [redisHandshakeCallback]
    split
    · exact (Quiet.onWorker s ⟨rfl, rfl, rfl⟩).trans (redisAsyncDisconnect_quiet ac _)
    · exact .refl s
  cases cmd with
  | get key =>
      simp only [runCallback, redisCheckCallback]
      split <;> assumption
  | evalsha args =>
      simp only [runCallback, redisRecordCallback]
      split
      · exact hreset
      · split_ifs
        · exact redisAsyncCommand_quiet ..
        · exact hfail
      · exact hfail
  | auth user password => exact hhandshake
  | select db => exact hhandshake
  | scriptLoad => exact hhandshake

theorem performAll_quiet (conf : RedisConf) (now : ℤ) (actions : List Action) (s : System) :
    Quiet s (actions.foldl (Action.perform conf now) s) := by
  induction actions generalizing s with
  | nil => exact .refl s
  | cons a actions ih => exact (a.perform_quiet conf now s).trans (ih _)

theorem failCallbacks_quiet (conf : RedisConf) (now : ℤ) (ac : ℕ) (resumed : Resumed)
    (cmds : List Command) (s : System) : Quiet s (failCallbacks conf now ac resumed cmds s) := by
  induction cmds generalizing s with
  | nil => exact .refl s
  | cons cmd cmds ih =>
      exact (runCallback_quiet ..).trans ((performAll_quiet conf now _ _).trans (ih _))

theorem timeOut_quiet (conf : RedisConf) (now : ℤ) (ac : ℕ) (s : System) (resumed : Resumed) :
    Quiet s (timeOut conf now ac s resumed) := by
  rw [timeOut]
  split
  · exact .refl s
  · have htaken : Quiet s (s.onContext ac fun c => { c with replied := [], pending := [] }) :=
      .onContext s ac fun _ => rfl
    exact htaken.trans (failCallbacks_quiet ..)

theorem timeOuts_quiet (conf : RedisConf) (now : ℤ) (ac : ℕ) (rounds : List Resumed) (s : System) :
    Quiet s (rounds.foldl (timeOut conf now ac) s) := by
  induction rounds generalizing s with
  | nil => exact .refl s
  | cons resumed rounds ih => exact (timeOut_quiet conf now ac s resumed).trans (ih _)

theorem workerCommand_quiet (cmd : Command) (room : Bool) (s : System) :
    Quiet s (workerCommand cmd room s).1 := by
  rw [workerCommand]
  split
  · exact .refl s
  · exact redisAsyncCommand_quiet ..

theorem queueNext_worker (needed : Bool) (cmd : Command) (room : Bool) (r : System × Bool) :
    (queueNext needed cmd room r).1.worker = r.1.worker := by
  rw [queueNext]
  split_ifs
  · rw [workerCommand]
    split
    · rfl
    · exact redisAsyncCommand_worker ..
  · rfl

theorem queueNext_quiet (needed : Bool) (cmd : Command) (room : Bool) {r : System × Bool}
    (h : Quiet s r.1) : Quiet s (queueNext needed cmd room r).1 := by
  rw [queueNext]
  split_ifs
  · exact h.trans (workerCommand_quiet ..)
  · exact h

theorem redisConnected_quiet (conf : RedisConf) (q : Handshake) (s : System) :
    Quiet s (redisConnected conf q s) := by
  have hstart : Quiet s (s.onWorker fun w => { w with ready := true, reconnectBackoff := 0 }) :=
    .onWorker s ⟨rfl, rfl, rfl⟩
  have hqueue : Quiet s (queueHandshake conf q
      (s.onWorker fun w => { w with ready := true, reconnectBackoff := 0 })).1 :=
    queueNext_quiet _ _ _ (queueNext_quiet _ _ _ (queueNext_quiet _ _ _ hstart))
  rw [redisConnected]
  generalize queueHandshake conf q _ = r at hqueue
  obtain ⟨s₁, rc⟩ := r
  have hready : Quiet s (s₁.onWorker fun w => { w with ready := false }) :=
    hqueue.trans (.onWorker s₁ ⟨rfl, rfl, rfl⟩)
  cases rc with
  | true => exact hqueue
  | false =>
      dsimp only
      split
      · exact hready
      · exact hready.trans (redisAsyncDisconnect_quiet ..)

/-! ## Ownership -/

/-- The context the worker points to is the only live one, no context was freed twice, and
the reconnect timer is armed exactly without a context. -/
structure Owned (s : System) : Prop where
  sole : s.contexts.Sole s.worker.context
  armed : s.exited = false → (s.worker.context = none ↔ s.worker.reconnect.isSome)
  staying : s.exited = false → s.worker.exiting = false

theorem Owned.quiet (h : Owned s) (hq : Quiet s s') : Owned s' where
  sole := hq.context ▸ hq.sole h.sole
  armed := by
    rw [hq.exited, hq.context, hq.reconnect]
    exact h.armed
  staying := by
    rw [hq.exited, hq.exiting]
    exact h.staying

@[simp] theorem redisArmReconnect_context (random : ℕ) (w : Worker) :
    (redisArmReconnect random w).context = w.context := by
  rw [redisArmReconnect]
  split_ifs <;> rfl

@[simp] theorem redisArmReconnect_exiting (random : ℕ) (w : Worker) :
    (redisArmReconnect random w).exiting = w.exiting := by
  rw [redisArmReconnect]
  split_ifs <;> rfl

@[simp] theorem redisArmReconnect_ready (random : ℕ) (w : Worker) :
    (redisArmReconnect random w).ready = w.ready := by
  rw [redisArmReconnect]
  split_ifs <;> rfl

theorem redisArmReconnect_armed (random : ℕ) {w : Worker} (h : w.exiting = false) :
    (redisArmReconnect random w).reconnect.isSome := by
  by_cases hw : w.reconnect.isSome = true
  · rwa [redisArmReconnect, if_pos (.inr hw)]
  · rw [redisArmReconnect, if_neg (by simp [h, hw])]
    rfl

/-- Freeing a live context: callbacks without a reply lead to a state `s₁`, in which the context
is dropped. -/
theorem redisAsyncFree_live (conf : RedisConf) (e : Ending) {ac : ℕ} {c : AsyncContext}
    (hc : s.contexts.get ac = some c) :
    ∃ s₁, Quiet s s₁ ∧ (redisAsyncFree conf ac e s).contexts = s₁.contexts.free ac ∧
      (redisAsyncFree conf ac e s).executed = s.executed ∧
      (redisAsyncFree conf ac e s).worker =
        if c.connected then redisDisconnectCallback e.random s₁.worker else s₁.worker := by
  let cmds := c.replied.map Prod.fst ++ c.pending
  let s₁ := failCallbacks conf e.now ac e.resumed cmds (redisAsyncDisconnect ac s)
  have hq : Quiet s s₁ := (redisAsyncDisconnect_quiet ac s).trans (failCallbacks_quiet ..)
  refine ⟨s₁, hq, ?_, ?_, ?_⟩ <;> simp only [redisAsyncFree, hc] <;> split_ifs
  · rfl
  · rfl
  · exact hq.executed
  · exact hq.executed
  · rfl
  · rfl

/-- A connected context that ends leaves the timer armed. -/
theorem Owned.free_connected (h : Owned s) (e : Ending) {ac : ℕ} {c : AsyncContext}
    (hc : s.contexts.get ac = some c) (hconn : c.connected = true) (hex : s.exited = false) :
    Owned (redisAsyncFree conf ac e s) := by
  have hac : s.worker.context = some ac := (h.sole.live_iff ac).mp (by rw [hc]; rfl)
  obtain ⟨s₁, hq, hcontexts, -, hworker⟩ := redisAsyncFree_live conf e hc
  rw [if_pos hconn, redisDisconnectCallback] at hworker
  have hsole : s₁.contexts.Sole (some ac) := hq.sole (hac ▸ h.sole)
  have hexiting : s₁.worker.exiting = false := hq.exiting.trans (h.staying hex)
  refine ⟨?_, ?_, ?_⟩
  · rw [hworker, redisArmReconnect_context, hcontexts]
    exact hsole.free
  · rw [hworker, redisArmReconnect_context]
    exact fun _ => iff_of_true rfl (redisArmReconnect_armed _ hexiting)
  · rw [hworker, redisArmReconnect_exiting]
    exact fun _ => hexiting

/-- Callbacks of a connected context, and what follows them. -/
theorem Owned.settle (h : Owned s) (e : Ending) {ac : ℕ} {c : AsyncContext}
    (hc : s.contexts.get ac = some c) (hconn : c.connected = true) (hex : s.exited = false)
    (hq : Quiet s s') : Owned (settle conf ac e s') := by
  have h' : Owned s' := h.quiet hq
  rw [ErrorAbuse.settle]
  split
  · exact h'
  · rename_i c' hc'
    split_ifs
    · exact h'.free_connected e hc' ((hq.connected_eq hc hc').trans hconn) (hq.exited.trans hex)
    · exact h'

/-- How an attempt to connect can come out: no context, one that was freed again, or one
whose connect is pending. -/
theorem redisConnect_cases (conf : RedisConf) (o : Connect) (s : System) :
    redisConnect conf o s = (s, false) ∨ ∃ ssl,
      redisConnect conf o s = ({ s.onWorker fun w => { w with ssl := ssl } with
        contexts := (s.contexts.alloc .connecting).free s.contexts.next }, false) ∨
      redisConnect conf o s =
        ({ s.onWorker fun w => { w with ssl := ssl, context := some s.contexts.next } with
          contexts := s.contexts.alloc .connecting }, true) := by
  simp only [redisConnect]
  split_ifs
  · exact .inl rfl
  · exact .inr ⟨s.worker.ssl, .inl rfl⟩
  · exact .inr ⟨s.worker.ssl, .inl rfl⟩
  · exact .inr ⟨s.worker.ssl || conf.tls, .inl rfl⟩
  · exact .inr ⟨s.worker.ssl || conf.tls, .inl rfl⟩
  · exact .inr ⟨s.worker.ssl || conf.tls, .inr rfl⟩

/-- Connecting, with nothing held: a pending context is held, or nothing still is. -/
theorem redisConnect_sole (conf : RedisConf) (o : Connect) (hs : s.contexts.Sole none)
    (hctx : s.worker.context = none) :
    (redisConnect conf o s).1.contexts.Sole (redisConnect conf o s).1.worker.context ∧
      ((redisConnect conf o s).1.worker.context = none ↔ (redisConnect conf o s).2 = false) ∧
      (redisConnect conf o s).1.worker.reconnect = s.worker.reconnect ∧
      (redisConnect conf o s).1.worker.exiting = s.worker.exiting := by
  have hnew := hs.alloc AsyncContext.connecting
  rcases redisConnect_cases conf o s with hr | ⟨ssl, hr | hr⟩ <;> rw [hr]
  · exact ⟨hctx ▸ hs, iff_of_true hctx rfl, rfl, rfl⟩
  · exact ⟨hctx ▸ hnew.free, iff_of_true hctx rfl, rfl, rfl⟩
  · exact ⟨hnew, by simp [System.onWorker], rfl, rfl⟩

/-- Connecting or else arming the timer. -/
theorem Owned.connect (o : Connect) (random : ℕ) (hs : s.contexts.Sole none)
    (hctx : s.worker.context = none) (hreconnect : s.worker.reconnect = none)
    (hexiting : s.worker.exiting = false) :
    Owned (connectOrRetry conf o random s) := by
  rw [connectOrRetry]
  obtain ⟨hsole, hheld, hreconnect', hexiting'⟩ := redisConnect_sole conf o hs hctx
  generalize redisConnect conf o s = r at hsole hheld hreconnect' hexiting'
  obtain ⟨s₁, rc⟩ := r
  rw [hexiting] at hexiting'
  rw [hreconnect] at hreconnect'
  cases rc with
  | true =>
      have hoff : s₁.worker.reconnect = none := hreconnect'
      exact ⟨hsole, fun _ => iff_of_false (by simp [hheld]) (by simp [hoff]), fun _ => hexiting'⟩
  | false =>
      have hnone : s₁.worker.context = none := hheld.mpr rfl
      have harmed := redisArmReconnect_armed random hexiting'
      refine ⟨?_, fun _ => iff_of_true ?_ harmed, fun _ => ?_⟩
      · change s₁.contexts.Sole (redisArmReconnect random s₁.worker).context
        rw [redisArmReconnect_context]
        exact hsole
      · exact (redisArmReconnect_context random s₁.worker).trans hnone
      · exact (redisArmReconnect_exiting random s₁.worker).trans hexiting'

theorem initProcess_owned (conf : RedisConf) (nonce : ℕ) (o : Connect) (random : ℕ) :
    Owned (initProcess conf nonce o random) :=
  Owned.connect o random .empty rfl rfl rfl

/-- Freeing the context the worker points to leaves nothing live. -/
theorem releaseContext_sole (conf : RedisConf) (e : Ending)
    (hs : s.contexts.Sole s.worker.context) :
    (releaseContext conf e s).contexts.Sole none ∧ (releaseContext conf e s).worker.context = none := by
  rw [releaseContext]
  split
  · rename_i hnone
    rw [hnone] at hs
    exact ⟨hs, hnone⟩
  · rename_i ac hac
    rw [hac] at hs
    obtain ⟨c, hc⟩ := hs.live
    obtain ⟨s₁, hq, hcontexts, -⟩ := redisAsyncFree_live conf e hc
    refine ⟨?_, rfl⟩
    change (redisAsyncFree conf ac e s).contexts.Sole none
    rw [hcontexts]
    exact (hq.sole hs).free

/-- The end of the process frees the context once. -/
theorem Owned.exit (h : Owned s) (e : Ending) : Owned (exitProcess conf e s) := by
  obtain ⟨hsole, hnone⟩ := releaseContext_sole conf e
    (s := s.onWorker fun w => { w with exiting := true, reconnect := none }) h.sole
  exact ⟨hnone.symm ▸ hsole, by simp [exitProcess], by simp [exitProcess]⟩

/-- Every event but a failed connect keeps ownership. -/
theorem eventEffect_owned (h : Owned s) (hex : s.exited = false) {event : Event}
    (hev : ∀ ac, event ≠ .connectFailed ac) (hstep : eventEffect conf s event = some s') :
    Owned s' := by
  cases happens_of_eventEffect hstep with
  | reconnect o random harmed =>
      have hnone : s.worker.context = none :=
        (h.armed hex).mpr (Option.isSome_iff_ne_none.mpr harmed)
      have hexiting : s.worker.exiting = false := h.staying hex
      rw [redisReconnect, if_neg (by simp [System.onWorker, hexiting])]
      exact .connect o random (hnone ▸ h.sole) hnone rfl hexiting
  | @connected ac c q e hc hconn =>
      have h' : Owned (s.onContext ac fun c => { c with connected := true }) :=
        ⟨h.sole.modify ac _, h.armed, h.staying⟩
      have hc' : (s.onContext ac fun c => { c with connected := true }).contexts.get ac =
          some { c with connected := true } := by
        rw [System.onContext, Handles.get_modify, if_pos rfl, hc]
        rfl
      exact h'.settle e hc' rfl hex (redisConnected_quiet ..)
  | @connectFailed ac => exact absurd rfl (hev ac)
  | @serve ac c cmd rest reply hc hconn hpending =>
      have hserve : Quiet s (s.onContext ac fun c => { c with
          pending := rest
          replied := c.replied ++ [(cmd, reply)]
          session := c.session.after cmd reply }) := .onContext s ac fun _ => rfl
      have h' := h.quiet hserve
      exact ⟨h'.sole, h'.armed, h'.staying⟩
  | @deliver ac c cmd reply rest room e hc hconn hreplied =>
      have hpop : Quiet s (s.onContext ac fun c => { c with replied := rest }) :=
        .onContext s ac fun _ => rfl
      exact h.settle e hc hconn hex (hpop.trans (runCallback_quiet ..))
  | lost e hc hconn => exact h.free_connected e hc hconn hex
  | @timedOut ac c c' rounds e hc hconn _ hc' _ =>
      have hq := timeOuts_quiet conf e.now ac rounds s
      exact (h.quiet hq).free_connected e hc' ((hq.connected_eq hc hc').trans hconn) (hq.exited.trans hex)
  | request a now => exact h.quiet (a.perform_quiet ..)
  | registrationFailed => exact h.quiet (.onWorker s ⟨rfl, rfl, rfl⟩)
  | exit e => exact h.exit e

/-- A pending connect that fails leaves the worker pointing to a context that is gone. -/
theorem connectFailed_dangles (h : Owned s) {ac : ℕ}
    (hstep : eventEffect conf s (.connectFailed ac) = some s') :
    s'.worker.context = some ac ∧ s'.contexts.get ac = none ∧ s'.exited = s.exited := by
  cases happens_of_eventEffect hstep with
  | connectFailed hc hconn =>
      exact ⟨(h.sole.live_iff ac).mp (by rw [hc]; rfl), Handles.get_free_self, rfl⟩

/-! ## The worker never gets stuck -/

/-- Until the process exits, the worker's context is live, and without one the reconnect timer
is armed; and no context was freed twice. -/
structure Healthy (s : System) : Prop where
  live : s.exited = false → ∀ ac, s.worker.context = some ac → (s.contexts.get ac).isSome
  retries : s.exited = false → s.worker.context = none → s.worker.reconnect.isSome
  freed_once : s.contexts.freed.Nodup

theorem Owned.healthy (h : Owned s) : Healthy s where
  live _ ac hac := (h.sole.live_iff ac).mpr hac
  retries hex := (h.armed hex).mp
  freed_once := h.sole.nodup

/-- **The worker stays healthy exactly as long as no pending connect fails.** -/
theorem always_healthy_iff (conf : RedisConf) (nonce : ℕ) (o : Connect) (random : ℕ)
    (events : List Event)
    (hrun : (runOpt (eventStep conf) (initProcess conf nonce o random) events).isSome) :
    Always (eventStep conf) Healthy (initProcess conf nonce o random) events ↔
      ∀ ac, Event.connectFailed ac ∉ events := by
  have howned := initProcess_owned conf nonce o random
  generalize initProcess conf nonce o random = s at hrun howned
  induction events generalizing s with
  | nil => exact iff_of_true howned.healthy (by simp)
  | cons event events ih =>
      obtain ⟨t, hrun⟩ := Option.isSome_iff_exists.mp hrun
      obtain ⟨s', hstep, hrest⟩ := runOpt_cons_eq_some.mp hrun
      have hafter : Always (eventStep conf) Healthy s (event :: events) ↔
          Always (eventStep conf) Healthy s' events := by
        refine ⟨fun h => h.2 s' hstep, fun h => ⟨howned.healthy, fun s'' hs'' => ?_⟩⟩
        exact Option.some.inj (hstep.symm.trans hs'') ▸ h
      rw [hafter]
      rw [eventStep] at hstep
      split_ifs at hstep with hex
      rw [Bool.not_eq_true] at hex
      by_cases hev : ∃ ac, event = .connectFailed ac
      · obtain ⟨ac, rfl⟩ := hev
        obtain ⟨hctx, hgone, hexited⟩ := connectFailed_dangles howned hstep
        refine iff_of_false (fun h => ?_) fun h => h ac List.mem_cons_self
        have hlive := h.head.live (hexited.trans hex) ac hctx
        rw [hgone] at hlive
        cases hlive
      · push Not at hev
        have hiff := ih s' (by rw [hrest]; rfl) (eventEffect_owned howned hex hev hstep)
        refine hiff.trans (forall_congr' fun ac => ?_)
        rw [List.mem_cons, not_or]
        exact (and_iff_right fun he => hev ac he.symm).symm

/-- A connection that breaks and is replaced. -/
theorem always_healthy_iff_replaced :
    Always (eventStep .sample) Healthy (initProcess .sample 1 .pending 0)
        [.connected 0 ⟨true, true, true⟩ .plain, .lost 0 .plain, .reconnect .pending 0] ↔
      ∀ ac, Event.connectFailed ac ∉
        [.connected 0 ⟨true, true, true⟩ .plain, .lost 0 .plain, .reconnect .pending 0] :=
  always_healthy_iff .sample 1 .pending 0 _ rfl

/-- The first connect fails: the worker points to a freed context, no timer is armed, and at
exit the context is freed a second time. -/
theorem connectFailed_stuck :
    (∃ s, runOpt (eventStep .sample) (initProcess .sample 1 .pending 0) [.connectFailed 0] = some s ∧
      s.worker.context = some 0 ∧ s.contexts.get 0 = none ∧ s.worker.reconnect = none ∧
      ¬ Healthy s) ∧
    ∃ s, runOpt (eventStep .sample) (initProcess .sample 1 .pending 0)
        [.connectFailed 0, .exit .plain] = some s ∧
      s.contexts.freed = [0, 0] ∧ ¬ Healthy s := by
  refine ⟨⟨_, rfl, rfl, rfl, rfl, fun h => ?_⟩, _, rfl, rfl, fun h => ?_⟩
  · have hlive := h.live rfl 0 rfl
    cases hlive
  · have hnodup : [0, 0].Nodup := h.freed_once
    simp at hnodup

end ErrorAbuse
