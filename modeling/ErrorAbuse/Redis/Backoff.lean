import ErrorAbuse.Redis.Reconnect

/-!
# How often a worker tries to connect

A worker without a connection waits before it tries again: a second at first, twice as long after
each attempt that fails, half a minute at most, and up to a quarter more or less of that at random.
`delays` is what it has waited, or is waiting, since a connect last succeeded. That the delays are
as they should be follows from what `reconnect_backoff` holds between two of them (`Paced`), and
that needs the timer to be off whenever there is a connection that can break.
-/

namespace ErrorAbuse

open Lib

variable {conf : RedisConf} {s s' : System} {w w' : Worker} {delays : List ℕ}

/-! ## The delays -/

/-- How long to wait after `n` attempts that failed in a row, without the jitter. -/
def redisDelay (n : ℕ) : ℕ := min (redisReconnectMin * 2 ^ n) redisReconnectMax

/-- What `reconnect_backoff` is once the timer has been armed `n` times. -/
def backoffAfter : ℕ → ℕ
  | 0 => 0
  | n + 1 => redisDelay (n + 1)

theorem redisDelay_bounds (n : ℕ) :
    redisReconnectMin ≤ redisDelay n ∧ redisDelay n ≤ redisReconnectMax ∧ 4 ∣ redisDelay n := by
  have hpos : 1 ≤ 2 ^ n := Nat.one_le_two_pow
  simp only [redisDelay, redisReconnectMin, redisReconnectMax]
  omega

theorem redisDelay_succ (n : ℕ) : redisDelay (n + 1) =
    if redisDelay n * 2 > redisReconnectMax then redisReconnectMax else redisDelay n * 2 := by
  have hpow : 2 ^ (n + 1) = 2 ^ n * 2 := pow_succ 2 n
  by_cases hmax : redisDelay n * 2 > redisReconnectMax
  · rw [if_pos hmax]
    simp only [redisDelay, redisReconnectMin, redisReconnectMax] at hmax ⊢
    omega
  · rw [if_neg hmax]
    simp only [redisDelay, redisReconnectMin, redisReconnectMax] at hmax ⊢
    omega

/-- The timer is off or armed with the last of the delays, each of which is within a quarter of what
it should be; and `reconnect_backoff` is ready for the next. -/
structure Paced (w : Worker) (delays : List ℕ) : Prop where
  backoff : w.reconnectBackoff = backoffAfter delays.length
  jittered : ∀ i d, delays[i]? = some d → 3 * redisDelay i ≤ 4 * d ∧ 4 * d ≤ 5 * redisDelay i
  last : ∀ d, w.reconnect = some d → delays.getLast? = some d

namespace Paced

theorem congr (h : Paced w delays) (hbackoff : w'.reconnectBackoff = w.reconnectBackoff)
    (hreconnect : ∀ d, w'.reconnect = some d → w.reconnect = some d) : Paced w' delays where
  backoff := hbackoff.trans h.backoff
  jittered := h.jittered
  last d hd := h.last d (hreconnect d hd)

/-- The timer is taken off. -/
theorem off (h : Paced w delays) (hbackoff : w'.reconnectBackoff = w.reconnectBackoff)
    (hoff : w'.reconnect = none) : Paced w' delays :=
  h.congr hbackoff (by simp [hoff])

theorem nil (hbackoff : w.reconnectBackoff = 0) (hoff : w.reconnect = none) : Paced w [] where
  backoff := hbackoff
  jittered i d hd := by simp at hd
  last d hd := by simp [hoff] at hd

/-- The timer is armed. -/
theorem arm (h : Paced w delays) (hoff : w.reconnect = none) (random : ℕ) :
    Paced (redisArmReconnect random w)
      (delays ++ (redisArmReconnect random w).reconnect.toList) := by
  by_cases hexiting : w.exiting = true
  · rw [redisArmReconnect, if_pos (.inl hexiting), hoff]
    simpa using h
  have hbase : (if w.reconnectBackoff ≠ 0 then w.reconnectBackoff else redisReconnectMin) =
      redisDelay delays.length := by
    rw [h.backoff]
    cases delays.length with
    | zero => rfl
    | succ n =>
        have hmin := (redisDelay_bounds (n + 1)).1
        have hne : backoffAfter (n + 1) ≠ 0 := by
          simp only [backoffAfter, redisReconnectMin] at hmin ⊢
          omega
        rw [if_pos hne, backoffAfter]
  rw [redisArmReconnect, if_neg (by simp [hexiting, hoff])]
  simp only [hbase, Option.toList_some]
  refine ⟨?_, fun i d hd => ?_, fun d hd => ?_⟩
  · rw [List.length_append, List.length_singleton, backoffAfter, redisDelay_succ]
  · by_cases hi : i < delays.length
    · rw [List.getElem?_append_left hi] at hd
      exact h.jittered i d hd
    · obtain rfl : i = delays.length := by
        have hlt := (List.getElem?_eq_some_iff.mp hd).1
        simp only [List.length_append, List.length_singleton] at hlt
        omega
      rw [List.getElem?_concat_length] at hd
      have hd := Option.some.inj hd
      have hdiv := (redisDelay_bounds delays.length).2.2
      have hjitter : random % (redisDelay delays.length / 2 + 1) <
          redisDelay delays.length / 2 + 1 := Nat.mod_lt random (Nat.succ_pos _)
      omega
  · rw [List.getLast?_concat]
    exact hd

end Paced

/-! ## What leaves the pace alone -/

/-- The part of a worker that paces its attempts. -/
def Worker.pace (w : Worker) : Option ℕ × ℕ × Bool := (w.reconnect, w.reconnectBackoff, w.exiting)

theorem Paced.of_pace (h : Paced w delays) (hpace : w'.pace = w.pace) : Paced w' delays := by
  simp only [Worker.pace, Prod.mk.injEq] at hpace
  exact h.congr hpace.2.1 fun d hd => hpace.1 ▸ hd

theorem redisRecordFailure_pace (conf : RedisConf) (now : ℤ) (w : Worker) :
    (redisRecordFailure conf now w).pace = w.pace := by
  simp only [redisRecordFailure]
  split_ifs <;> rfl

theorem Action.perform_pace (conf : RedisConf) (now : ℤ) (s : System) (a : Action) :
    (a.perform conf now s).worker.pace = s.worker.pace := by
  cases a with
  | check block room =>
      simp only [perform, redisCheck]
      split_ifs
      · rfl
      · split
        · rfl
        · split_ifs
          · rw [System.onWorker, redisRecordFailure_pace, redisAsyncCommand_worker]
          · rw [redisAsyncCommand_worker]
  | record zone events block room =>
      simp only [perform, redisRecord]
      split_ifs
      · rfl
      · split
        · rfl
        · rw [redisAsyncCommand_worker]
          rfl

theorem runCallback_pace (conf : RedisConf) (now : ℤ) (ac : ℕ) (room : Bool) (cmd : Command)
    (reply : Option Reply) (s : System) :
    (runCallback conf now ac room cmd reply s).worker.pace = s.worker.pace := by
  have hfail := redisRecordFailure_pace conf now s.worker
  have hhandshake : (redisHandshakeCallback ac reply s).worker.pace = s.worker.pace := by
    simp only [redisHandshakeCallback]
    split <;> rfl
  cases cmd with
  | get key =>
      simp only [runCallback, redisCheckCallback]
      split
      · rfl
      · rfl
      · exact hfail
  | evalsha args =>
      simp only [runCallback, redisRecordCallback]
      split
      · rfl
      · split_ifs
        · rw [redisAsyncCommand_worker]
        · exact hfail
      · exact hfail
  | _ => exact hhandshake

theorem performAll_pace (conf : RedisConf) (now : ℤ) (actions : List Action) (s : System) :
    (actions.foldl (Action.perform conf now) s).worker.pace = s.worker.pace := by
  induction actions generalizing s with
  | nil => rfl
  | cons a actions ih => exact (ih _).trans (a.perform_pace conf now s)

theorem failCallbacks_pace (conf : RedisConf) (now : ℤ) (ac : ℕ) (resumed : Resumed)
    (cmds : List Command) (s : System) :
    (failCallbacks conf now ac resumed cmds s).worker.pace = s.worker.pace := by
  induction cmds generalizing s with
  | nil => rfl
  | cons cmd cmds ih =>
      exact (ih _).trans ((performAll_pace ..).trans (runCallback_pace ..))

theorem timeOuts_pace (conf : RedisConf) (now : ℤ) (ac : ℕ) (rounds : List Resumed) (s : System) :
    (rounds.foldl (timeOut conf now ac) s).worker.pace = s.worker.pace := by
  induction rounds generalizing s with
  | nil => rfl
  | cons resumed rounds ih =>
      refine (ih _).trans ?_
      rw [timeOut]
      split
      · rfl
      · exact failCallbacks_pace ..

/-- A connect that succeeds resets `reconnect_backoff`. -/
theorem redisConnected_pace (conf : RedisConf) (q : Handshake) (s : System) :
    (redisConnected conf q s).worker.pace = (s.worker.reconnect, 0, s.worker.exiting) := by
  have hqueue : (queueHandshake conf q
      (s.onWorker fun w => { w with ready := true, reconnectBackoff := 0 })).1.worker.pace =
      (s.worker.reconnect, 0, s.worker.exiting) := by
    simp only [queueHandshake, queueNext_worker]
    rfl
  rw [redisConnected]
  generalize queueHandshake conf q _ = r at hqueue
  obtain ⟨s₁, rc⟩ := r
  cases rc with
  | true => exact hqueue
  | false =>
      dsimp only
      split <;> exact hqueue

/-- A connection that ends arms the timer. -/
theorem redisAsyncFree_pace (conf : RedisConf) (e : Ending) {ac : ℕ} {c : AsyncContext}
    (hc : s.contexts.get ac = some c) (hconn : c.connected = true) :
    ∃ w, w.pace = s.worker.pace ∧
      (redisAsyncFree conf ac e s).worker = redisArmReconnect e.random w := by
  let s₁ := failCallbacks conf e.now ac e.resumed (c.replied.map Prod.fst ++ c.pending)
    (redisAsyncDisconnect ac s)
  have hpace : s₁.worker.pace = s.worker.pace := failCallbacks_pace ..
  refine ⟨{ s₁.worker with context := none, ready := false }, hpace, ?_⟩
  simp only [redisAsyncFree, hc, hconn, if_true]
  rfl

/-- A process that exits arms nothing. -/
theorem Paced.exit (h : Paced s.worker delays) (e : Ending) :
    Paced (exitProcess conf e s).worker delays := by
  let s₁ := s.onWorker fun w => { w with exiting := true, reconnect := none }
  have hpaced : Paced s₁.worker delays := h.off rfl rfl
  have hfree : ∀ ac, (redisAsyncFree conf ac e s₁).worker.pace = s₁.worker.pace := by
    intro ac
    cases hc : s₁.contexts.get ac with
    | none => simp only [redisAsyncFree, hc]
    | some c =>
        have hfail := failCallbacks_pace conf e.now ac e.resumed
          (c.replied.map Prod.fst ++ c.pending) (redisAsyncDisconnect ac s₁)
        have hexiting := congrArg (fun p => p.2.2) hfail
        simp only [redisAsyncFree, hc]
        split_ifs
        · rw [System.onWorker, redisDisconnectCallback, redisArmReconnect, if_pos (.inl hexiting)]
          exact hfail
        · exact hfail
  have hrelease : (releaseContext conf e s₁).worker.pace = s₁.worker.pace := by
    rw [releaseContext]
    split
    · rfl
    · exact hfree _
  exact hpaced.of_pace hrelease

/-! ## Runs -/

/-- The delays of the timer since a connect last succeeded, oldest first, once an event has led to
the state `s`. -/
def delaysAfter (delays : List ℕ) (s : System) : Event → List ℕ
  | .connected .. => s.worker.reconnect.toList
  | .reconnect .. | .deliver .. | .lost .. | .timedOut .. => delays ++ s.worker.reconnect.toList
  | _ => delays

/-- An event at a worker whose delays are noted. -/
def dialStep (conf : RedisConf) (p : System × List ℕ) (event : Event) : Option (System × List ℕ) :=
  (eventStep conf p.1 event).map fun s => (s, delaysAfter p.2 s event)

/-- The timer is not armed while a context is live. -/
structure Dialing (s : System) (delays : List ℕ) : Prop where
  paced : Paced s.worker delays
  sole : s.exited = false → ∃ o, s.contexts.Sole o ∧ (s.worker.reconnect.isSome → o = none)

namespace Dialing

theorem live (h : Dialing s delays) (hex : s.exited = false) {ac : ℕ} {c : AsyncContext}
    (hc : s.contexts.get ac = some c) :
    s.contexts.Sole (some ac) ∧ s.worker.reconnect = none := by
  obtain ⟨o, hsole, hidle⟩ := h.sole hex
  obtain rfl : o = some ac := (hsole.live_iff ac).mp (by rw [hc]; rfl)
  refine ⟨hsole, ?_⟩
  by_contra harmed
  cases hidle (Option.isSome_iff_ne_none.mpr harmed)

theorem quiet (h : Dialing s delays) (hq : Quiet s s') (hpace : s'.worker.pace = s.worker.pace) :
    Dialing s' delays where
  paced := h.paced.of_pace hpace
  sole hex := by
    obtain ⟨o, hsole, hidle⟩ := h.sole (hq.exited ▸ hex)
    rw [hq.reconnect]
    exact ⟨o, hq.sole hsole, hidle⟩

theorem free_connected (h : Dialing s delays) (hex : s.exited = false) (e : Ending) {ac : ℕ}
    {c : AsyncContext} (hc : s.contexts.get ac = some c) (hconn : c.connected = true) :
    Dialing (redisAsyncFree conf ac e s)
      (delays ++ (redisAsyncFree conf ac e s).worker.reconnect.toList) := by
  obtain ⟨hsole, hoff⟩ := h.live hex hc
  obtain ⟨s₁, hq, hcontexts, -⟩ := redisAsyncFree_live conf e hc
  obtain ⟨w, hpace, hworker⟩ := redisAsyncFree_pace conf e hc hconn
  have hw : w.reconnect = none := (congrArg Prod.fst hpace).trans hoff
  refine ⟨?_, fun _ => ⟨none, ?_, fun _ => rfl⟩⟩
  · rw [hworker]
    exact (h.paced.of_pace hpace).arm hw e.random
  · rw [hcontexts]
    exact (hq.sole hsole).free

/-- The end of a callback of a connected context. -/
theorem settle (h : Dialing s delays) (hex : s.exited = false) (e : Ending) {ac : ℕ}
    (hoff : s.worker.reconnect = none)
    (hconn : ∀ c, s.contexts.get ac = some c → c.connected = true) :
    Dialing (settle conf ac e s) (delays ++ (settle conf ac e s).worker.reconnect.toList) := by
  have hsame : Dialing s (delays ++ s.worker.reconnect.toList) := by
    rw [hoff, Option.toList_none, List.append_nil]
    exact h
  rw [ErrorAbuse.settle]
  split
  · exact hsame
  · next c hc =>
      split_ifs
      · exact h.free_connected hex e hc (hconn c hc)
      · exact hsame

/-- An attempt to connect, with the timer off. -/
theorem connect (hpaced : Paced s.worker delays) (hsole : s.contexts.Sole none)
    (hoff : s.worker.reconnect = none) (o : Connect) (random : ℕ) :
    Dialing (connectOrRetry conf o random s)
      (delays ++ (connectOrRetry conf o random s).worker.reconnect.toList) := by
  have hnew := hsole.alloc AsyncContext.connecting
  rw [connectOrRetry]
  rcases redisConnect_cases conf o s with hr | ⟨ssl, hr | hr⟩ <;> rw [hr]
  · exact ⟨hpaced.arm hoff random, fun _ => ⟨none, hsole, fun _ => rfl⟩⟩
  · have hssl : Paced { s.worker with ssl := ssl } delays := hpaced.of_pace rfl
    exact ⟨hssl.arm hoff random, fun _ => ⟨none, hnew.free, fun _ => rfl⟩⟩
  · refine ⟨?_, fun _ => ⟨_, hnew, fun harmed => ?_⟩⟩
    · have hnone : delays ++ s.worker.reconnect.toList = delays := by simp [hoff]
      exact hnone.symm ▸ hpaced.of_pace rfl
    · simp [System.onWorker, hoff] at harmed

theorem init (conf : RedisConf) (nonce : ℕ) (o : Connect) (random : ℕ) :
    Dialing (initProcess conf nonce o random)
      (initProcess conf nonce o random).worker.reconnect.toList := by
  have h : Dialing (initProcess conf nonce o random)
      ([] ++ (initProcess conf nonce o random).worker.reconnect.toList) :=
    connect (.nil rfl rfl) .empty rfl o random
  exact h

/-- Every event keeps the pace. -/
theorem step (h : Dialing s delays) {event : Event} (hstep : eventStep conf s event = some s') :
    Dialing s' (delaysAfter delays s' event) := by
  rw [eventStep] at hstep
  split_ifs at hstep with hexited
  have hex : s.exited = false := by simpa using hexited
  cases happens_of_eventEffect hstep with
  | reconnect o random harmed =>
      obtain ⟨o', hsole, hidle⟩ := h.sole hex
      obtain rfl := hidle (Option.isSome_iff_ne_none.mpr harmed)
      set s₁ := s.onWorker fun w => { w with reconnect := none }
      have hoff : s₁.worker.reconnect = none := rfl
      have hpaced : Paced s₁.worker delays := h.paced.off rfl hoff
      rw [redisReconnect]
      split_ifs
      · rw [delaysAfter, hoff, Option.toList_none, List.append_nil]
        exact ⟨hpaced, fun _ => ⟨none, hsole, fun _ => rfl⟩⟩
      · exact connect hpaced hsole hoff o random
  | @connected ac c q e hc hconn =>
      obtain ⟨hsole, hoff⟩ := h.live hex hc
      set s₁ := s.onContext ac fun c => { c with connected := true } with hs₁
      have hq := redisConnected_quiet conf q s₁
      have hpace := redisConnected_pace conf q s₁
      have hoff' : (redisConnected conf q s₁).worker.reconnect = none := hq.reconnect.trans hoff
      have h' : Dialing (redisConnected conf q s₁) [] := by
        refine ⟨.nil (congrArg (fun p => p.2.1) hpace) hoff', fun _ => ⟨some ac, ?_, fun harmed => ?_⟩⟩
        · exact hq.sole (hsole.modify ac _)
        · simp [hoff'] at harmed
      refine h'.settle (hq.exited.trans hex) e hoff' fun c' hc' => ?_
      have hconn' := hq.connected ac
      rw [hc', hs₁, System.onContext, Handles.get_modify, if_pos rfl, hc] at hconn'
      exact Option.some.inj hconn'
  | connectFailed hc hconn =>
      obtain ⟨hsole, hoff⟩ := h.live hex hc
      exact ⟨h.paced.of_pace rfl, fun _ => ⟨none, hsole.free, fun _ => rfl⟩⟩
  | @serve ac c cmd rest reply hc hconn hpending =>
      obtain ⟨o, hsole, hidle⟩ := h.sole hex
      exact ⟨h.paced, fun _ => ⟨o, hsole.modify ac _, hidle⟩⟩
  | @deliver ac c cmd reply rest room e hc hconn hreplied =>
      obtain ⟨hsole, hoff⟩ := h.live hex hc
      have hpop : Quiet s (s.onContext ac fun c => { c with replied := rest }) :=
        .onContext s ac fun _ => rfl
      have hq := hpop.trans (runCallback_quiet conf e.now ac room cmd (some reply) _)
      have h' := h.quiet hq (runCallback_pace ..)
      refine h'.settle (hq.exited.trans hex) e (hq.reconnect.trans hoff) fun c' hc' => ?_
      exact (hq.connected_eq hc hc').trans hconn
  | lost e hc hconn => exact h.free_connected hex e hc hconn
  | @timedOut ac c c' rounds e hc hconn _ hc' _ =>
      have hq := timeOuts_quiet conf e.now ac rounds s
      have h' := h.quiet hq (timeOuts_pace ..)
      exact h'.free_connected (hq.exited.trans hex) e hc' ((hq.connected_eq hc hc').trans hconn)
  | request a now => exact h.quiet (a.perform_quiet ..) (a.perform_pace ..)
  | registrationFailed => exact h.quiet (.onWorker s ⟨rfl, rfl, rfl⟩) rfl
  | exit e => exact ⟨h.paced.exit e, fun hno => by simp [exitProcess] at hno⟩

end Dialing

/-- **A worker does not storm Redis.** In whatever order connects fail, connections break and replies
come: the delays since a connect last succeeded are one second, two, four and so on up to half a
minute, give or take a quarter; the timer, if it is armed, is armed with the last of them, and
`reconnect_backoff` counts them. -/
theorem reconnects_paced (conf : RedisConf) (nonce : ℕ) (o : Connect) (random : ℕ)
    (events : List Event) :
    let s₀ := initProcess conf nonce o random
    Always (dialStep conf) (fun p =>
      (∀ i d, p.2[i]? = some d →
        3 * min (1000 * 2 ^ i) 30000 ≤ 4 * d ∧ 4 * d ≤ 5 * min (1000 * 2 ^ i) 30000) ∧
      (∀ d, p.1.worker.reconnect = some d → p.2.getLast? = some d) ∧
      p.1.worker.reconnectBackoff = backoffAfter p.2.length) (s₀, s₀.worker.reconnect.toList)
      events := by
  intro s₀
  refine (always_of_step (fun p => Dialing p.1 p.2) (fun p event p' h hstep => ?_)
    (Dialing.init conf nonce o random) events).imp fun p h => ?_
  · obtain ⟨s', hs', rfl⟩ := Option.map_eq_some_iff.mp hstep
    exact h.step hs'
  · exact ⟨h.paced.jittered, h.paced.last, h.paced.backoff⟩

end ErrorAbuse
