import ErrorAbuse.Redis.Reconnect

/-!
# Which session commands run in

The worker counts as ready as soon as the connection is up, while the replies to `AUTH` and
`SELECT` are still on their way. Commands queued behind a refused `AUTH` or `SELECT` are
executed nevertheless, as another user or in another database, until the refusal has reached
its callback. `Trusted` follows one connection through this: either what is left of the
login stands before everything else and leads to the configured session, or there is nothing
to read or write bans with in the queue, nor can there be any more.
-/

namespace ErrorAbuse

open Lib

variable {conf : RedisConf} {s s' s'' : System} {c : AsyncContext}

/-! ## One connection -/

/-- The session once all commands of a list have been accepted. -/
def Session.afterAll (session : Session) (cmds : List Command) : Session :=
  cmds.foldl (fun session cmd => session.after cmd .status) session

/-- What is left of the login comes first, and leads to the configured session. -/
def LoginFirst (conf : RedisConf) (c : AsyncContext) : Prop :=
  ∃ login rest, c.pending = login ++ rest ∧ (∀ cmd ∈ login, cmd.isLogin = true) ∧
    (∀ cmd ∈ rest, cmd.isLogin = false) ∧ c.session.afterAll login = conf.session

/-- A refused `AUTH` or `SELECT` whose reply is on its way. -/
def RefusalInFlight (c : AsyncContext) : Prop :=
  ∃ r ∈ c.replied, r.1.isLogin = true ∧ r.2.isError = true

/-- Nothing in the queue reads or writes bans, and a refusal or the end is near. -/
def Barred (c : AsyncContext) : Prop :=
  (∀ cmd ∈ c.pending, cmd.isData = false) ∧ (c.disconnecting = true ∨ RefusalInFlight c)

/-- What keeps the commands for bans of a connection in the configured session. Nothing has been
sent on a connection that is still being made. -/
def Trusted (conf : RedisConf) (c : AsyncContext) : Prop :=
  if c.connected then LoginFirst conf c ∨ Barred c else c.pending = [] ∧ c.session = .initial

theorem Session.after_of_not_login (session : Session) {cmd : Command} (h : cmd.isLogin = false)
    (reply : Reply) : session.after cmd reply = session := by
  cases cmd <;> first | rfl | cases h

theorem Session.after_of_not_error (session : Session) (cmd : Command) {reply : Reply}
    (h : reply.isError = false) : session.after cmd reply = session.after cmd .status := by
  have hstatus : Reply.status.isError = false := rfl
  cases cmd <;> simp [after, h, hstatus]

theorem not_isLogin_of_isData {cmd : Command} (h : cmd.isData = true) : cmd.isLogin = false := by
  cases cmd <;> first | rfl | cases h

/-- A command that is no login may be queued, one for bans only with no refusal in flight. -/
theorem Trusted.send (h : Trusted conf c) {cmd : Command} (hconn : c.connected = true)
    (hlogin : cmd.isLogin = false) (hdisc : c.disconnecting = false)
    (hdata : cmd.isData = true → ¬ RefusalInFlight c) :
    Trusted conf { c with pending := c.pending ++ [cmd] } := by
  simp only [Trusted, hconn, if_true] at h ⊢
  rcases h with ⟨login, rest, hpending, hall, hrest, hsession⟩ | ⟨hnone, hbar⟩
  · refine .inl ⟨login, rest ++ [cmd], ?_, hall, ?_, hsession⟩
    · simp only [hpending, List.append_assoc]
    · intro cmd' hmem
      rcases List.mem_append.mp hmem with hmem | hmem
      · exact hrest cmd' hmem
      · exact List.mem_singleton.mp hmem ▸ hlogin
  · have hrefusal : RefusalInFlight c := hbar.resolve_left (by simp [hdisc])
    refine .inr ⟨?_, hbar⟩
    intro cmd' hmem
    rcases List.mem_append.mp hmem with hmem | hmem
    · exact hnone cmd' hmem
    · rw [List.mem_singleton.mp hmem, ← Bool.not_eq_true]
      exact fun hd => hdata hd hrefusal

/-- Redis executes the next command. Unless it is a refused login with something for bans
behind it, the connection stays trusted; and a command for bans runs in the configured
session. -/
theorem Trusted.serve (h : Trusted conf c) {cmd : Command} {rest : List Command} (reply : Reply)
    (hconn : c.connected = true) (hpending : c.pending = cmd :: rest)
    (hbehind : cmd.isLogin = true → reply.isError = true → ∀ cmd' ∈ rest, cmd'.isData = false) :
    Trusted conf { c with
        pending := rest
        replied := c.replied ++ [(cmd, reply)]
        session := c.session.after cmd reply } ∧
      (cmd.isData = true → c.session = conf.session) := by
  simp only [Trusted, hconn, if_true] at h ⊢
  rcases h with ⟨login, rest', hsplit, hall, hrest, hsession⟩ | ⟨hnone, hbar⟩
  · rw [hpending] at hsplit
    cases login with
    | nil =>
        obtain rfl : cmd :: rest = rest' := hsplit
        have hlogin : cmd.isLogin = false := hrest cmd List.mem_cons_self
        refine ⟨.inl ⟨[], rest, rfl, hall, fun cmd' h => hrest cmd' (.tail cmd h), ?_⟩,
          fun _ => hsession⟩
        rw [c.session.after_of_not_login hlogin]
        exact hsession
    | cons cmd' login =>
        obtain ⟨rfl, rfl⟩ : cmd = cmd' ∧ rest = login ++ rest' := by simpa using hsplit
        have hlogin : cmd.isLogin = true := hall cmd List.mem_cons_self
        refine ⟨?_, fun hd => by simp [not_isLogin_of_isData hd] at hlogin⟩
        cases hreply : reply.isError with
        | true => exact .inr ⟨hbehind hlogin hreply, .inr ⟨(cmd, reply), by simp, hlogin, hreply⟩⟩
        | false =>
            refine .inl ⟨login, rest', rfl, fun cmd' h => hall cmd' (.tail cmd h), hrest, ?_⟩
            rw [c.session.after_of_not_error cmd hreply]
            exact hsession
  · rw [hpending] at hnone
    refine ⟨.inr ⟨fun cmd' h => hnone cmd' (.tail cmd h), ?_⟩, fun hd => ?_⟩
    · exact hbar.imp_right fun ⟨r, hr, hl⟩ => ⟨r, List.mem_append_left _ hr, hl⟩
    · simp [hnone cmd List.mem_cons_self] at hd

/-- The next reply is taken from the connection. If it is a refused login, its callback ends the
connection. -/
theorem Trusted.deliver (h : Trusted conf c) {cmd : Command} {reply : Reply}
    {rest : List (Command × Reply)} (hreplied : c.replied = (cmd, reply) :: rest)
    {disconnecting : Bool} (hdisc : c.disconnecting = true → disconnecting = true)
    (hrefused : cmd.isLogin = true → reply.isError = true → disconnecting = true) :
    Trusted conf { c with replied := rest, disconnecting := disconnecting } := by
  simp only [Trusted] at h ⊢
  split_ifs at h ⊢
  · rcases h with hlogin | ⟨hnone, hbar⟩
    · exact .inl hlogin
    · refine .inr ⟨hnone, ?_⟩
      rcases hbar with hbar | ⟨r, hr, hlogin, herror⟩
      · exact .inl (hdisc hbar)
      · rw [hreplied] at hr
        rcases List.mem_cons.mp hr with rfl | hr
        · exact .inl (hrefused hlogin herror)
        · exact .inr ⟨r, hr, hlogin, herror⟩
  · exact h

theorem Trusted.disconnect (h : Trusted conf c) : Trusted conf { c with disconnecting := true } := by
  simp only [Trusted] at h ⊢
  split_ifs at h ⊢
  · exact h.imp_right fun hbarred => ⟨hbarred.1, .inl rfl⟩
  · exact h

/-- The login of the configuration. -/
def RedisConf.login (conf : RedisConf) : List Command :=
  (if conf.password.length ≠ 0 then [conf.auth] else []) ++
    (if conf.db > 0 then [.select conf.db] else [])

theorem RedisConf.isLogin_of_mem (conf : RedisConf) : ∀ cmd ∈ conf.login, cmd.isLogin = true := by
  intro cmd hcmd
  rw [login, List.mem_append] at hcmd
  rcases hcmd with hcmd | hcmd <;> split_ifs at hcmd
  · exact List.mem_singleton.mp hcmd ▸ rfl
  · cases hcmd
  · exact List.mem_singleton.mp hcmd ▸ rfl
  · cases hcmd

theorem RedisConf.afterAll_login (conf : RedisConf) :
    Session.initial.afterAll conf.login = conf.session := by
  rw [login, session]
  split_ifs <;> simp_all [Session.afterAll, Session.after, auth, Reply.isError, Session.initial]

/-! ## The handshake -/

/-- Some of the commands `cmds` were queued on `ac` behind what `c` had, all of them if no
command was turned down. -/
def Queued (ac : ℕ) (c : AsyncContext) (cmds : List Command) (r : System × Bool) : Prop :=
  r.1.worker.context = some ac ∧ ∃ sent, sent <+: cmds ∧ (r.2 = true → sent = cmds) ∧
    r.1.contexts.get ac = some { c with pending := c.pending ++ sent }

theorem redisAsyncCommand_queued {ac : ℕ} {cmds : List Command}
    (h : Queued ac c cmds (s, true)) (cmd : Command) (room : Bool) :
    Queued ac c (cmds ++ [cmd]) (workerCommand cmd room s) := by
  obtain ⟨hctx, sent, -, hall, hget⟩ := h
  obtain rfl : sent = cmds := hall rfl
  have hrefused : Queued ac c (sent ++ [cmd]) (s, false) :=
    ⟨hctx, sent, List.prefix_append sent _, by simp, hget⟩
  simp only [workerCommand]
  simp only at hctx hget
  simp only [hctx, redisAsyncCommand, hget]
  split_ifs
  · exact hrefused
  · refine ⟨hctx, sent ++ [cmd], List.prefix_rfl, fun _ => rfl, ?_⟩
    simp only [System.onContext, Handles.get_modify, if_true, hget, Option.map_some, List.append_assoc]

theorem queueNext_queued {ac : ℕ} {cmds : List Command} {r : System × Bool} (h : Queued ac c cmds r)
    (needed : Bool) (cmd : Command) (room : Bool) :
    Queued ac c (cmds ++ if needed then [cmd] else []) (queueNext needed cmd room r) := by
  obtain ⟨s, rc⟩ := r
  rw [queueNext]
  cases rc with
  | true =>
      cases needed with
      | true => exact redisAsyncCommand_queued h cmd room
      | false => simpa using h
  | false =>
      obtain ⟨hctx, sent, hsent, -, hget⟩ := h
      exact ⟨hctx, sent, hsent.trans (List.prefix_append ..), by simp, hget⟩

/-- The connect callback leaves its connection trusted. -/
theorem redisConnected_trusted (q : Handshake) {ac : ℕ} (hctx : s.worker.context = some ac)
    (hget : s.contexts.get ac = some c) (hconn : c.connected = true) (hpending : c.pending = [])
    (hsession : c.session = .initial) :
    ∃ c', (redisConnected conf q s).contexts.get ac = some c' ∧ Trusted conf c' := by
  have hstart : Queued ac c [] (s.onWorker fun w => { w with ready := true, reconnectBackoff := 0 }, true) :=
    ⟨hctx, [], List.prefix_rfl, fun _ => rfl, by rw [List.append_nil]; exact hget⟩
  have hqueue : Queued ac c (conf.login ++ [.scriptLoad]) (queueHandshake conf q
      (s.onWorker fun w => { w with ready := true, reconnectBackoff := 0 })) := by
    have h := queueNext_queued (queueNext_queued (queueNext_queued hstart
      (conf.password.length ≠ 0) conf.auth q.auth) (conf.db > 0) (.select conf.db) q.select)
      true .scriptLoad q.scriptLoad
    simpa [RedisConf.login, queueHandshake] using h
  rw [redisConnected]
  generalize queueHandshake conf q _ = r at hqueue
  obtain ⟨s₁, rc⟩ := r
  obtain ⟨hctx₁, sent, hsent, hall, hget₁⟩ := hqueue
  simp only at hctx₁ hget₁
  rw [hpending, List.nil_append] at hget₁
  cases rc with
  | true =>
      refine ⟨_, hget₁, ?_⟩
      simp only [Trusted, hconn, if_true]
      refine .inl ⟨conf.login, [.scriptLoad], hall rfl, conf.isLogin_of_mem, by simp [Command.isLogin], ?_⟩
      rw [hsession, conf.afterAll_login]
  | false =>
      refine ⟨{ c with pending := sent, disconnecting := true }, ?_, ?_⟩
      · simp only [System.onWorker, hctx₁, redisAsyncDisconnect, System.onContext,
          Handles.get_modify, if_true, hget₁, Option.map_some]
      · simp only [Trusted, hconn, if_true]
        refine .inr ⟨fun cmd hcmd => ?_, .inl rfl⟩
        rcases List.mem_append.mp (hsent.subset hcmd) with hlogin | hload
        · have h := conf.isLogin_of_mem cmd hlogin
          cases cmd <;> first | rfl | cases h
        · exact List.mem_singleton.mp hload ▸ rfl

/-! ## The worker -/

/-- Nothing happened that could cost a connection its trust or make the worker ready. -/
structure Steady (conf : RedisConf) (s s' : System) : Prop extends Quiet s s' where
  ready : s'.worker.ready = true → s.worker.ready = true
  trusted : ∀ ac c', s'.contexts.get ac = some c' →
    ∃ c, s.contexts.get ac = some c ∧ (Trusted conf c → Trusted conf c')

namespace Steady

theorem refl (conf : RedisConf) (s : System) : Steady conf s s :=
  ⟨.refl s, id, fun _ c h => ⟨c, h, id⟩⟩

theorem trans (h : Steady conf s s') (h' : Steady conf s' s'') : Steady conf s s'' := by
  refine ⟨h.toQuiet.trans h'.toQuiet, fun hr => h.ready (h'.ready hr), fun ac c'' hc'' => ?_⟩
  obtain ⟨c', hc', ht'⟩ := h'.trusted ac c'' hc''
  obtain ⟨c, hc, ht⟩ := h.trusted ac c' hc'
  exact ⟨c, hc, fun h => ht' (ht h)⟩

theorem onWorker (s : System) {f : Worker → Worker} (hq : Quiet s (s.onWorker f))
    (hf : (f s.worker).ready = true → s.worker.ready = true) : Steady conf s (s.onWorker f) :=
  ⟨hq, hf, fun _ c h => ⟨c, h, id⟩⟩

theorem onContext {ac : ℕ} {f : AsyncContext → AsyncContext} (hf : ∀ c, (f c).connected = c.connected)
    (ht : ∀ c, s.contexts.get ac = some c → Trusted conf c → Trusted conf (f c)) :
    Steady conf s (s.onContext ac f) := by
  refine ⟨.onContext s ac hf, id, fun i c' hc' => ?_⟩
  rw [System.onContext, Handles.get_modify] at hc'
  split_ifs at hc' with hi
  · subst hi
    obtain ⟨c, hc, rfl⟩ := Option.map_eq_some_iff.mp hc'
    exact ⟨c, hc, ht c hc⟩
  · exact ⟨c', hc', id⟩

end Steady

theorem redisAsyncCommand_steady {ac : ℕ} {cmd : Command} {room : Bool} (hlogin : cmd.isLogin = false)
    (hok : room = true → ∀ c, s.contexts.get ac = some c →
      c.connected = true ∧ (cmd.isData = true → ¬ RefusalInFlight c)) :
    Steady conf s (redisAsyncCommand ac cmd room s).1 := by
  rw [redisAsyncCommand]
  split
  · exact .refl conf s
  · rename_i c hc
    split_ifs with hrefuse
    · exact .refl conf s
    · simp only [not_or, Bool.not_eq_true, Bool.not_eq_false'] at hrefuse
      obtain ⟨hconn, hrefusal⟩ := hok hrefuse.2 c hc
      refine .onContext (fun _ => rfl) fun c' hc' ht => ?_
      obtain rfl : c = c' := Option.some.inj (hc.symm.trans hc')
      exact ht.send hconn hlogin hrefuse.1 hrefusal

theorem ready_of_available {w : Worker} {now : ℤ} (h : redisAvailable w now = true) :
    w.ready = true := by
  simp only [redisAvailable, decide_eq_true_eq] at h
  exact h.2.1

theorem redisRecordFailure_steady (conf : RedisConf) (now : ℤ) (s : System) :
    Steady conf s (s.onWorker (redisRecordFailure conf now)) := by
  refine .onWorker s (.onWorker s (redisRecordFailure_fields conf now s.worker)) ?_
  simp only [redisRecordFailure]
  split_ifs <;> exact id

/-- A request that finds no refusal in flight if it gets to queue its command. -/
theorem Action.perform_steady (now : ℤ) (a : Action)
    (hok : redisAvailable s.worker now = true → a.room = true → ∀ ac c, s.worker.context = some ac →
      s.contexts.get ac = some c → c.connected = true ∧ ¬ RefusalInFlight c) :
    Steady conf s (a.perform conf now s) := by
  cases a with
  | check block room =>
      simp only [perform, redisCheck]
      split_ifs with havail
      · exact .refl conf s
      · rw [Bool.not_eq_true', Bool.not_eq_false] at havail
        split
        · exact .refl conf s
        · rename_i ac hac
          have hsend : Steady conf s (redisAsyncCommand ac (.get block) room s).1 :=
            redisAsyncCommand_steady rfl fun hroom c hc =>
              (hok havail hroom ac c hac hc).imp_right fun h _ => h
          split_ifs
          · exact hsend.trans (redisRecordFailure_steady conf now _)
          · exact hsend
  | record zone events block room =>
      have hseq : Steady conf s (s.onWorker (nextSequence conf)) :=
        .onWorker s (.onWorker s ⟨rfl, rfl, rfl⟩) id
      simp only [perform, redisRecord]
      split_ifs with havail
      · exact .refl conf s
      · rw [Bool.not_eq_true', Bool.not_eq_false] at havail
        split
        · exact hseq
        · rename_i ac hac
          exact hseq.trans (redisAsyncCommand_steady rfl fun hroom c hc =>
            (hok havail hroom ac c hac hc).imp_right fun h _ => h)

theorem redisHandshakeCallback_steady (conf : RedisConf) (ac : ℕ) (reply : Option Reply)
    (s : System) : Steady conf s (redisHandshakeCallback ac reply s) := by
  simp only [redisHandshakeCallback]
  split
  · have hready : Steady conf s (s.onWorker fun w => { w with ready := false }) :=
      .onWorker s (.onWorker s ⟨rfl, rfl, rfl⟩) fun h => by cases h
    exact hready.trans (.onContext (fun _ => rfl) fun _ _ ht => ht.disconnect)
  · exact .refl conf s

theorem runCallback_steady (conf : RedisConf) (now : ℤ) {ac : ℕ} (room : Bool) (cmd : Command)
    (reply : Reply) (hconn : ∀ c, s.contexts.get ac = some c → c.connected = true) :
    Steady conf s (runCallback conf now ac room cmd (some reply) s) := by
  have hfail := redisRecordFailure_steady conf now s
  have hreset : Steady conf s (s.onWorker fun w => { w with consecutiveFailures := 0 }) :=
    .onWorker s (.onWorker s ⟨rfl, rfl, rfl⟩) id
  cases cmd with
  | get key =>
      simp only [runCallback, redisCheckCallback]
      split <;> assumption
  | evalsha args =>
      simp only [runCallback, redisRecordCallback]
      split
      · exact hreset
      · split_ifs
        · exact redisAsyncCommand_steady rfl fun _ c hc => ⟨hconn c hc, fun h => by cases h⟩
        · exact hfail
      · exact hfail
  | auth user password => exact redisHandshakeCallback_steady ..
  | select db => exact redisHandshakeCallback_steady ..
  | scriptLoad => exact redisHandshakeCallback_steady ..

/-- A reply is taken from its connection and handed to its callback. The refusal of a login
and the end of its connection go together. -/
theorem deliver_steady (conf : RedisConf) (now : ℤ) {ac : ℕ} (room : Bool) {cmd : Command} {reply : Reply}
    {rest : List (Command × Reply)} (hc : s.contexts.get ac = some c) (hconn : c.connected = true)
    (hreplied : c.replied = (cmd, reply) :: rest) :
    Steady conf s (runCallback conf now ac room cmd (some reply)
      (s.onContext ac fun c => { c with replied := rest })) := by
  by_cases hrefused : cmd.isLogin = true ∧ reply.isError = true
  · obtain ⟨hlogin, herror⟩ := hrefused
    let f : AsyncContext → AsyncContext := fun c => { c with replied := rest, disconnecting := true }
    have hend : Steady conf s (s.onContext ac f) := by
      refine .onContext (fun _ => rfl) fun c' hc' ht => ?_
      obtain rfl : c = c' := Option.some.inj (hc.symm.trans hc')
      exact ht.deliver hreplied (fun _ => rfl) fun _ _ => rfl
    have hready : Steady conf s ((s.onContext ac f).onWorker fun w => { w with ready := false }) :=
      hend.trans (.onWorker _ (.onWorker _ ⟨rfl, rfl, rfl⟩) fun h => by cases h)
    have hcallback : runCallback conf now ac room cmd (some reply)
        (s.onContext ac fun c => { c with replied := rest }) =
          (s.onContext ac f).onWorker fun w => { w with ready := false } := by
      obtain ⟨str, rfl⟩ : ∃ str, reply = .error str := by
        cases reply <;> first | exact ⟨_, rfl⟩ | cases herror
      cases cmd with
      | auth | select =>
          simp only [runCallback, redisHandshakeCallback, redisAsyncDisconnect, System.onContext,
            System.onWorker, Handles.modify_modify, f]
      | scriptLoad | get | evalsha => cases hlogin
    rw [hcallback]
    exact hready
  · have hpop : Steady conf s (s.onContext ac fun c => { c with replied := rest }) := by
      refine .onContext (fun _ => rfl) fun c' hc' ht => ?_
      obtain rfl : c = c' := Option.some.inj (hc.symm.trans hc')
      exact ht.deliver hreplied id fun hlogin herror => absurd ⟨hlogin, herror⟩ hrefused
    refine hpop.trans (runCallback_steady conf now room cmd reply fun c' hc' => ?_)
    exact (hpop.connected_eq hc hc').trans hconn

/-! ## Runs -/

/-- Only the context the worker points to is live, none while the reconnect timer is armed; it is
trusted; and a ready worker has one that is connected. -/
structure Guarded (conf : RedisConf) (s : System) : Prop where
  tied : ∀ ac, (s.contexts.get ac).isSome → s.worker.context = some ac
  idle : s.worker.reconnect.isSome → s.worker.context = none
  trusted : ∀ ac c, s.contexts.get ac = some c → Trusted conf c
  ready : s.worker.ready = true →
    ∃ ac c, s.worker.context = some ac ∧ s.contexts.get ac = some c ∧ c.connected = true

theorem Guarded.steady (h : Guarded conf s) (hst : Steady conf s s') : Guarded conf s' where
  tied ac hac := by
    rw [hst.context]
    exact h.tied ac (hst.live ac ▸ hac)
  idle hr := by
    rw [hst.context]
    exact h.idle (hst.reconnect ▸ hr)
  trusted ac c' hc' := by
    obtain ⟨c, hc, ht⟩ := hst.trusted ac c' hc'
    exact ht (h.trusted ac c hc)
  ready hr := by
    obtain ⟨ac, c, hac, hc, hconn⟩ := h.ready (hst.ready hr)
    have hsame := hst.connected ac
    rw [hc, Option.map_some] at hsame
    obtain ⟨c', hc', he⟩ := Option.map_eq_some_iff.mp hsame
    exact ⟨ac, c', hst.context.trans hac, hc', he.trans hconn⟩

/-- With nothing live there is nothing to guard. -/
theorem Guarded.unready (hdead : ∀ i, s.contexts.get i = none) (hnone : s.worker.context = none)
    (hready : s.worker.ready = false) : Guarded conf s where
  tied ac hac := by
    rw [hdead] at hac
    cases hac
  idle _ := hnone
  trusted ac c hc := by
    rw [hdead] at hc
    cases hc
  ready hr := by
    rw [hready] at hr
    cases hr

/-- A connected context that is freed leaves nothing to guard, whatever it was sent. -/
theorem guarded_free (htied : ∀ i, (s.contexts.get i).isSome → s.worker.context = some i) (e : Ending)
    {ac : ℕ} (hc : s.contexts.get ac = some c) (hconn : c.connected = true) :
    Guarded conf (redisAsyncFree conf ac e s) := by
  obtain ⟨s₁, hq, hcontexts, -, hworker⟩ := redisAsyncFree_live conf e hc
  have hac : s.worker.context = some ac := htied ac (by rw [hc]; rfl)
  have hnone : ∀ i, (redisAsyncFree conf ac e s).contexts.get i = none := by
    intro i
    rw [hcontexts, Handles.get_free]
    split_ifs with hi
    · rfl
    · rw [← Option.not_isSome_iff_eq_none, hq.live]
      intro hlive
      exact hi (Option.some.inj ((htied i hlive).symm.trans hac))
  rw [if_pos hconn] at hworker
  refine .unready hnone ?_ ?_
  · rw [hworker]
    exact redisArmReconnect_context ..
  · rw [hworker]
    exact redisArmReconnect_ready ..

theorem Guarded.settle (h : Guarded conf s) (e : Ending) {ac : ℕ}
    (hconn : ∀ c, s.contexts.get ac = some c → c.connected = true) :
    Guarded conf (settle conf ac e s) := by
  rw [ErrorAbuse.settle]
  split
  · exact h
  · rename_i c hc
    split_ifs
    · exact guarded_free h.tied e hc (hconn c hc)
    · exact h

/-- Redis refuses an `AUTH` or `SELECT` only with no command for bans queued behind it, and no
request queues a command while such a refusal is on its way to its callback. -/
def Orderly (s : System) : Event → Prop
  | .serve ac reply => ∀ c ∈ s.contexts.get ac, ∀ cmd ∈ c.pending.head?, cmd.isLogin = true →
      reply.isError = true → ∀ cmd' ∈ c.pending.tail, cmd'.isData = false
  | .request a now => redisAvailable s.worker now = true → a.room = true →
      ∀ ac ∈ s.worker.context, ∀ c ∈ s.contexts.get ac, ¬ RefusalInFlight c
  | _ => True

instance (c : AsyncContext) : Decidable (RefusalInFlight c) :=
  inferInstanceAs (Decidable (∃ r ∈ c.replied, r.1.isLogin = true ∧ r.2.isError = true))

instance (s : System) : ∀ event, Decidable (Orderly s event)
  | .serve ac reply => inferInstanceAs (Decidable (∀ c ∈ s.contexts.get ac,
      ∀ cmd ∈ c.pending.head?, cmd.isLogin = true → reply.isError = true →
        ∀ cmd' ∈ c.pending.tail, cmd'.isData = false))
  | .request a now => inferInstanceAs (Decidable (redisAvailable s.worker now = true →
      a.room = true → ∀ ac ∈ s.worker.context, ∀ c ∈ s.contexts.get ac, ¬ RefusalInFlight c))
  | .reconnect .. | .connected .. | .connectFailed _ | .deliver .. | .lost .. | .timedOut ..
  | .registrationFailed | .exit _ => .isTrue trivial

/-- Connecting, with nothing held, and what follows a failure. -/
theorem Guarded.connect (o : Connect) (random : ℕ) (h : Guarded conf s)
    (hnone : s.worker.context = none) (hoff : s.worker.reconnect = none) :
    Guarded conf (connectOrRetry conf o random s) := by
  have hdead : ∀ i, s.contexts.get i = none := by
    intro i
    rw [← Option.not_isSome_iff_eq_none]
    intro hlive
    have := h.tied i hlive
    rw [hnone] at this
    cases this
  have hready : s.worker.ready = false := by
    rw [← Bool.not_eq_true]
    intro hr
    obtain ⟨ac, c, hac, -⟩ := h.ready hr
    rw [hnone] at hac
    cases hac
  have hnew : ∀ i c, (s.contexts.alloc .connecting).get i = some c →
      i = s.contexts.next ∧ c = .connecting := by
    intro i c hc
    rw [Handles.get_alloc, hdead] at hc
    split_ifs at hc with hi
    exact ⟨hi, (Option.some.inj hc).symm⟩
  have hfreed : ∀ i, ((s.contexts.alloc .connecting).free s.contexts.next).get i = none := by
    intro i
    rw [Handles.get_free]
    split_ifs with hi
    · rfl
    · rw [Handles.get_alloc, if_neg hi, hdead]
  rcases redisConnect_cases conf o s with hr | ⟨ssl, hr | hr⟩ <;> rw [connectOrRetry, hr]
  · exact .unready (fun i => hdead i) (by simp [System.onWorker, hnone]) (by simp [System.onWorker, hready])
  · exact .unready (fun i => hfreed i) (by simp [System.onWorker, hnone]) (by simp [System.onWorker, hready])
  · refine ⟨fun i hi => ?_, fun hr' => ?_, fun i c hc => ?_, fun hr' => ?_⟩
    · obtain ⟨c, hc⟩ := Option.isSome_iff_exists.mp hi
      rw [(hnew i c hc).1]
      rfl
    · simp [System.onWorker, hoff] at hr'
    · rw [(hnew i c hc).2]
      simp [Trusted, AsyncContext.connecting]
    · simp [System.onWorker, hready] at hr'

/-- Every command for bans that Redis executed ran in the configured session. -/
def Faithful (conf : RedisConf) (s : System) : Prop := ∀ x ∈ s.executed, x.session = conf.session

/-! ### Only Redis executes commands -/

@[simp] theorem executed_redisAsyncFree (conf : RedisConf) (ac : ℕ) (e : Ending) (s : System) :
    (redisAsyncFree conf ac e s).executed = s.executed := by
  cases hc : s.contexts.get ac with
  | none => simp only [redisAsyncFree, hc]
  | some c =>
      obtain ⟨s₁, -, -, hexecuted, -⟩ := redisAsyncFree_live conf e hc
      exact hexecuted

@[simp] theorem executed_settle (conf : RedisConf) (ac : ℕ) (e : Ending) (s : System) :
    (settle conf ac e s).executed = s.executed := by
  rw [settle]
  split
  · rfl
  · split_ifs
    · exact executed_redisAsyncFree ..
    · rfl

@[simp] theorem executed_releaseContext (conf : RedisConf) (e : Ending) (s : System) :
    (releaseContext conf e s).executed = s.executed := by
  rw [releaseContext]
  split
  · rfl
  · exact executed_redisAsyncFree ..

@[simp] theorem executed_connectOrRetry (conf : RedisConf) (o : Connect) (random : ℕ) (s : System) :
    (connectOrRetry conf o random s).executed = s.executed := by
  rcases redisConnect_cases conf o s with hr | ⟨ssl, hr | hr⟩ <;> rw [connectOrRetry, hr] <;> rfl

theorem initProcess_guarded (conf : RedisConf) (nonce : ℕ) (o : Connect) (random : ℕ) :
    Guarded conf (initProcess conf nonce o random) ∧
      Faithful conf (initProcess conf nonce o random) := by
  have hstart : Guarded conf ⟨.zeroed nonce, .empty, [], false⟩ :=
    .unready (fun _ => rfl) rfl rfl
  refine ⟨.connect o random hstart rfl rfl, fun x hx => ?_⟩
  rw [initProcess, executed_connectOrRetry] at hx
  cases hx

/-- The connect callback leaves the worker guarded. -/
theorem Guarded.connected (h : Guarded conf s) (q : Handshake) {ac : ℕ}
    (hc : s.contexts.get ac = some c) (hconn : c.connected = false) :
    let s' := redisConnected conf q (s.onContext ac fun c => { c with connected := true })
    Guarded conf s' ∧ (∀ c', s'.contexts.get ac = some c' → c'.connected = true) ∧
      s'.executed = s.executed := by
  intro s'
  let s₁ := s.onContext ac fun c => { c with connected := true }
  have hac : s.worker.context = some ac := h.tied ac (by rw [hc]; rfl)
  have hget₁ : s₁.contexts.get ac = some { c with connected := true } := by
    simp only [s₁, System.onContext, Handles.get_modify, if_true, hc, Option.map_some]
  have hq : Quiet s₁ s' := redisConnected_quiet conf q s₁
  have htied : ∀ i, (s'.contexts.get i).isSome → i = ac := by
    intro i hi
    rw [hq.live] at hi
    have hlive : (s.contexts.get i).isSome := by simpa [s₁, System.onContext] using hi
    exact Option.some.inj ((h.tied i hlive).symm.trans hac)
  have htrust := h.trusted ac c hc
  simp only [Trusted, hconn, Bool.false_eq_true, if_false] at htrust
  obtain ⟨c', hget', htrust'⟩ :=
    redisConnected_trusted q (s := s₁) hac hget₁ rfl htrust.1 htrust.2
  have hconn' : c'.connected = true := hq.connected_eq hget₁ hget'
  refine ⟨⟨fun i hi => ?_, fun hr => ?_, fun i c'' hc'' => ?_, fun _ => ?_⟩, fun c'' hc'' => ?_, hq.executed⟩
  · rw [htied i hi]
    exact hq.context.trans hac
  · rw [hq.reconnect] at hr
    rw [hq.context]
    exact h.idle hr
  · obtain rfl := htied i (by rw [hc'']; rfl)
    exact Option.some.inj (hget'.symm.trans hc'') ▸ htrust'
  · exact ⟨ac, c', hq.context.trans hac, hget', hconn'⟩
  · exact Option.some.inj (hget'.symm.trans hc'') ▸ hconn'

/-- An orderly event before the process exits. -/
theorem eventEffect_guarded (h : Guarded conf s) (hf : Faithful conf s) {event : Event}
    (hord : Orderly s event) (hstep : eventEffect conf s event = some s') :
    Faithful conf s' ∧ (s'.exited = false → Guarded conf s') := by
  cases happens_of_eventEffect hstep with
  | reconnect o random harmed =>
      have hnone : s.worker.context = none := h.idle (Option.isSome_iff_ne_none.mpr harmed)
      have hoff : Guarded conf (s.onWorker fun w => { w with reconnect := none }) :=
        ⟨h.tied, (by simp [System.onWorker]), h.trusted, h.ready⟩
      rw [redisReconnect]
      split_ifs
      · exact ⟨hf, fun _ => hoff⟩
      · refine ⟨fun x hx => ?_, fun _ => hoff.connect o random hnone rfl⟩
        rw [executed_connectOrRetry] at hx
        exact hf x hx
  | connected q e hc hconn =>
      obtain ⟨hguard, hconn', hexecuted⟩ := h.connected q hc hconn
      refine ⟨fun x hx => ?_, fun _ => hguard.settle e hconn'⟩
      rw [executed_settle, hexecuted] at hx
      exact hf x hx
  | @connectFailed ac c hc hconn =>
      have hac : s.worker.context = some ac := h.tied ac (by rw [hc]; rfl)
      have hdead : ∀ i, (s.contexts.free ac).get i = none := by
        intro i
        rw [Handles.get_free]
        split_ifs with hi
        · rfl
        · rw [← Option.not_isSome_iff_eq_none]
          exact fun hlive => hi (Option.some.inj ((h.tied i hlive).symm.trans hac))
      refine ⟨hf, fun _ => ⟨fun i hi => ?_, h.idle, fun i c' hc' => ?_, fun hr => by cases hr⟩⟩
      · simp [hdead] at hi
      · simp [hdead] at hc'
  | @serve ac c cmd rest reply hc hconn hpending =>
      have hbehind := hord c hc cmd (by rw [hpending]; rfl)
      rw [hpending] at hbehind
      have htrust := (h.trusted ac c hc).serve reply hconn hpending hbehind
      have hst : Steady conf s (s.onContext ac fun c => { c with
          pending := rest
          replied := c.replied ++ [(cmd, reply)]
          session := c.session.after cmd reply }) := by
        refine .onContext (fun _ => rfl) fun c' hc' _ => ?_
        obtain rfl : c = c' := Option.some.inj (hc.symm.trans hc')
        exact htrust.1
      have hguard := h.steady hst
      refine ⟨fun x hx => ?_, fun _ => ⟨hguard.tied, hguard.idle, hguard.trusted, hguard.ready⟩⟩
      simp only at hx
      split_ifs at hx with hdata
      · rcases List.mem_cons.mp hx with rfl | hx
        · exact htrust.2 hdata
        · exact hf x hx
      · exact hf x hx
  | @deliver ac c cmd reply rest room e hc hconn hreplied =>
      have hst := deliver_steady conf e.now room hc hconn hreplied
      refine ⟨fun x hx => ?_, fun _ => (h.steady hst).settle e fun c' hc' => ?_⟩
      · rw [executed_settle, hst.executed] at hx
        exact hf x hx
      · exact (hst.connected_eq hc hc').trans hconn
  | lost e hc hconn =>
      refine ⟨fun x hx => ?_, fun _ => guarded_free h.tied e hc hconn⟩
      rw [executed_redisAsyncFree] at hx
      exact hf x hx
  | @timedOut ac c c' rounds e hc hconn _ hc' _ =>
      -- the commands of the resumed requests are queued, but the connection ends before they run
      have hq := timeOuts_quiet conf e.now ac rounds s
      refine ⟨fun x hx => ?_, fun _ => ?_⟩
      · rw [executed_redisAsyncFree, hq.executed] at hx
        exact hf x hx
      · refine guarded_free (fun i hi => ?_) e hc' ((hq.connected_eq hc hc').trans hconn)
        rw [hq.context]
        exact h.tied i (hq.live i ▸ hi)
  | request a now =>
      have hst : Steady conf s (a.perform conf now s) := by
        refine a.perform_steady now fun havail hroom ac c hac hc => ?_
        obtain ⟨ac', c', hac', hc', hconn⟩ := h.ready (ready_of_available havail)
        obtain rfl : ac = ac' := Option.some.inj (hac.symm.trans hac')
        obtain rfl : c = c' := Option.some.inj (hc.symm.trans hc')
        exact ⟨hconn, hord havail hroom ac hac c hc⟩
      exact ⟨fun x hx => hf x (hst.executed ▸ hx), fun _ => h.steady hst⟩
  | registrationFailed =>
      have hst : Steady conf s (s.onWorker fun w => { w with ready := false }) :=
        .onWorker s (.onWorker s ⟨rfl, rfl, rfl⟩) fun h => by cases h
      exact ⟨hf, fun _ => h.steady hst⟩
  | exit e =>
      refine ⟨fun x hx => ?_, fun hex => by cases hex⟩
      simp only [exitProcess, System.onWorker, executed_releaseContext] at hx
      exact hf x hx

/-- **Commands for bans run in the configured session**, in every run in which no login is
refused with such a command behind it or a request on the way. -/
theorem always_faithful (conf : RedisConf) (nonce : ℕ) (o : Connect) (random : ℕ)
    (events : List Event)
    (hord : StepsSatisfy (eventStep conf) Orderly (initProcess conf nonce o random) events) :
    Always (eventStep conf) (Faithful conf) (initProcess conf nonce o random) events := by
  obtain ⟨hguard, hf⟩ := initProcess_guarded conf nonce o random
  have hinv : Always (eventStep conf) (fun s => Faithful conf s ∧ (s.exited = false → Guarded conf s))
      (initProcess conf nonce o random) events := by
    refine always_of_invariant _ Orderly (fun s event s' hs hord hstep => ?_)
      ⟨hf, fun _ => hguard⟩ hord
    rw [eventStep] at hstep
    split_ifs at hstep with hex
    exact eventEffect_guarded (hs.2 (by simpa using hex)) hs.1 hord hstep
  exact hinv.imp fun s hs => hs.1

/-- A request between the replies to an accepted login. -/
theorem always_faithful_accepted :
    Always (eventStep .sample) (Faithful .sample) (initProcess .sample 1 .pending 0)
      [.connected 0 ⟨true, true, true⟩ .plain, .serve 0 .status, .request (.check [98] true) 0,
        .serve 0 .status, .serve 0 (.string []), .serve 0 .nil] :=
  always_faithful .sample 1 .pending 0 _ (by decide)

/-- A request that arrives before the login has been answered: `SELECT` is refused, and the
`GET` behind it is executed in database 0 instead of 3. -/
theorem get_behind_refused_select :
    ∃ s, runOpt (eventStep .sample) (initProcess .sample 1 .pending 0)
        [.connected 0 ⟨true, true, true⟩ .plain, .request (.check [98] true) 0, .serve 0 .status,
          .serve 0 (.error []), .serve 0 (.string []), .serve 0 .nil] = some s ∧
      s.executed = [⟨0, .get [98], ⟨some (none, [112, 119]), 0⟩⟩] ∧ ¬ Faithful .sample s := by
  refine ⟨_, rfl, rfl, fun h => ?_⟩
  have hsession := h ⟨0, .get [98], ⟨some (none, [112, 119]), 0⟩⟩ List.mem_cons_self
  cases hsession

end ErrorAbuse
