import ErrorAbuse.Lib.Decimal
import ErrorAbuse.Lib.Handles
import ErrorAbuse.Lib.Run
import ErrorAbuse.Zone.Memory

/-!
# The Redis connection of a worker

A worker process keeps one asynchronous Redis connection. Its state is `Worker`, the
fields of `ngx_http_error_abuse_redis_worker_t`; the hiredis contexts it works with are
objects behind handles. `Event` lists what the event loop can do to it: the reconnect
timer, the ends of a connect attempt, Redis executing the next command, a reply arriving,
a connection breaking, a request asking for a command, and the end of the process.

hiredis and Redis are modelled as far as the module relies on them. Commands of one
connection are executed in the order they were queued and their callbacks run in that
order; a context that is disconnecting accepts no command and is freed once no reply is
outstanding; when a connection breaks, the outstanding callbacks run without a reply, the
disconnect callback runs and the context is freed; when a pending connect fails, the
connect callback runs with an error and the context is freed. What hiredis decides on its
own, such as whether a command can be queued, comes with the event.
-/

namespace ErrorAbuse

open Lib

/-- The parameters of `error_abuse_redis` that are used after the connection is set up. -/
structure RedisConf where
  plat : Platform
  user : List UInt8
  password : List UInt8
  db : ℕ
  tls : Bool
  keyPrefix : List UInt8

/-- A configuration with a password and a database of its own, for concrete runs. -/
def RedisConf.sample : RedisConf where
  plat := .lp64
  user := []
  password := [112, 119]
  db := 3
  tls := false
  keyPrefix := [101]

/-! ## Commands and replies -/

/-- The arguments of the record script, as `redis_record` formats them. -/
structure RecordArgs where
  events : List UInt8
  block : List UInt8
  interval : ℤ
  threshold : ℕ
  blockMs : ℤ
  inactive : ℤ
  nonce : List UInt8
  deriving DecidableEq, Repr

inductive Command
  | auth (user : Option (List UInt8)) (password : List UInt8)
  | select (db : ℕ)
  | scriptLoad
  | get (key : List UInt8)
  | evalsha (args : RecordArgs)
  deriving DecidableEq, Repr

/-- The commands that read or write bans and events. -/
def Command.isData : Command → Bool
  | get _ | evalsha _ => true
  | _ => false

/-- The commands that choose the user and the database. -/
def Command.isLogin : Command → Bool
  | auth .. | select _ => true
  | _ => false

inductive ReplyType
  | string
  | array
  | integer
  | nil
  | status
  | error
  | other
  deriving DecidableEq, Repr

/-- A reply, with what the callbacks look at. -/
inductive Reply
  | string (str : List UInt8)
  | array (element : List ReplyType)
  | integer
  | nil
  | status
  | error (str : List UInt8)
  | other
  deriving DecidableEq, Repr

def Reply.isError : Reply → Bool
  | error _ => true
  | _ => false

/-- "NOSCRIPT" -/
def noscript : List UInt8 := [78, 79, 83, 67, 82, 73, 80, 84]

/-- What a connection has been told: the credentials last accepted and the database
last selected. -/
structure Session where
  login : Option (Option (List UInt8) × List UInt8)
  db : ℕ
  deriving DecidableEq, Repr

/-- The session of a new connection. -/
def Session.initial : Session := ⟨none, 0⟩

/-- The session after a command was executed. A refused command changes nothing. -/
def Session.after (session : Session) (cmd : Command) (reply : Reply) : Session :=
  match cmd with
  | .auth user password => if reply.isError then session else { session with login := some (user, password) }
  | .select db => if reply.isError then session else { session with db := db }
  | _ => session

/-- The `AUTH` command of a configuration. -/
def RedisConf.auth (conf : RedisConf) : Command :=
  .auth (if conf.user.length ≠ 0 then some conf.user else none) conf.password

/-- The session the configuration asks for. -/
def RedisConf.session (conf : RedisConf) : Session where
  login := if conf.password.length ≠ 0 then
      some (if conf.user.length ≠ 0 then some conf.user else none, conf.password)
    else none
  db := conf.db

/-! ## State -/

/-- A hiredis context that has not been freed, with the connection's far end: the commands
Redis has not executed yet, those it has, with replies on their way, and its session. -/
structure AsyncContext where
  connected : Bool
  disconnecting : Bool
  pending : List Command
  replied : List (Command × Reply)
  session : Session
  deriving DecidableEq, Repr

/-- A context whose connect is pending. -/
def AsyncContext.connecting : AsyncContext := ⟨false, false, [], [], .initial⟩

/-- A callback waits for its reply. -/
def AsyncContext.outstanding (c : AsyncContext) : Bool := !c.replied.isEmpty || !c.pending.isEmpty

/-- The worker's Redis state. `reconnect` is the delay in milliseconds its timer was armed
with, if it is armed. -/
structure Worker where
  context : Option ℕ
  ssl : Bool
  reconnect : Option ℕ
  sequence : ℕ
  nonce : ℕ
  consecutiveFailures : ℕ
  circuitBreakerUntil : ℤ
  reconnectBackoff : ℕ
  ready : Bool
  exiting : Bool
  deriving DecidableEq, Repr

/-- A worker that `init_process` has zeroed. -/
def Worker.zeroed (nonce : ℕ) : Worker := ⟨none, false, none, 0, nonce, 0, 0, 0, false, false⟩

/-- A command that Redis executed on a connection, with the session it ran in. -/
structure Execution where
  context : ℕ
  command : Command
  session : Session
  deriving DecidableEq, Repr

/-- A worker, its contexts, and whether its process has exited. `executed` is not part of the
program: it logs the data commands Redis executed, newest first. -/
structure System where
  worker : Worker
  contexts : Handles AsyncContext
  executed : List Execution
  exited : Bool

def System.onWorker (s : System) (f : Worker → Worker) : System := { s with worker := f s.worker }

def System.onContext (s : System) (ac : ℕ) (f : AsyncContext → AsyncContext) : System :=
  { s with contexts := s.contexts.modify ac f }

/-! ## hiredis -/

/-- `redisAsyncCommand` and its relatives; `room` is whether memory for it can be had. The
second component is whether it returns `REDIS_OK`. -/
def redisAsyncCommand (ac : ℕ) (cmd : Command) (room : Bool) (s : System) : System × Bool :=
  match s.contexts.get ac with
  | none => (s, false)
  | some c =>
    if c.disconnecting ∨ !room then (s, false)
    else (s.onContext ac fun c => { c with pending := c.pending ++ [cmd] }, true)

/-- `redisAsyncDisconnect` from inside a callback: the context is freed after it. -/
def redisAsyncDisconnect (ac : ℕ) (s : System) : System :=
  s.onContext ac fun c => { c with disconnecting := true }

/-! ## The circuit breaker -/

def circuitBreakerThreshold : ℕ := 5
def circuitBreakerDuration : ℤ := 30

def redisAvailable (w : Worker) (now : ℤ) : Bool :=
  w.circuitBreakerUntil ≤ now ∧ w.ready ∧ w.context.isSome

def redisRecordFailure (conf : RedisConf) (now : ℤ) (w : Worker) : Worker :=
  let w := { w with consecutiveFailures := w.consecutiveFailures + 1 }
  if w.consecutiveFailures ≥ circuitBreakerThreshold then
    { w with
      circuitBreakerUntil := timeAddSaturate conf.plat.time now circuitBreakerDuration
      consecutiveFailures := 0 }
  else w

/-! ## Requests -/

/-- A request at the point where it may queue a command; `room` is hiredis's answer. -/
inductive Action
  | check (block : List UInt8) (room : Bool)
  | record (zone : ZoneConf) (events block : List UInt8) (room : Bool)

/-- Whether there is memory for the command. -/
def Action.room : Action → Bool
  | check _ room => room
  | record _ _ _ room => room

/-- `redis_check` as far as the worker is concerned. -/
def redisCheck (conf : RedisConf) (now : ℤ) (block : List UInt8) (room : Bool) (s : System) :
    System :=
  if !redisAvailable s.worker now then s
  else
    match s.worker.context with
    | none => s
    | some ac =>
      let (s, rc) := redisAsyncCommand ac (.get block) room s
      if !rc then s.onWorker (redisRecordFailure conf now) else s

/-- The `EVALSHA` that `redis_record` queues once it has raised the sequence number, as long as the
products are within `time_t`. -/
def recordArgs (zone : ZoneConf) (w : Worker) (events block : List UInt8) : RecordArgs where
  events := events
  block := block
  interval := zone.interval * 1000
  threshold := zone.threshold
  blockMs := zone.block * 1000
  inactive := zone.inactive * 1000
  nonce := decimal w.nonce ++ 58 :: decimal w.sequence

def nextSequence (conf : RedisConf) (w : Worker) : Worker :=
  { w with sequence := (w.sequence + 1) % 2 ^ conf.plat.uintBits }

/-- `redis_record` as far as the worker is concerned. -/
def redisRecord (conf : RedisConf) (now : ℤ) (zone : ZoneConf) (events block : List UInt8)
    (room : Bool) (s : System) : System :=
  if !redisAvailable s.worker now then s
  else
    let s := s.onWorker (nextSequence conf)
    match s.worker.context with
    | none => s
    | some ac =>
      (redisAsyncCommand ac (.evalsha (recordArgs zone s.worker events block)) room s).1

def Action.perform (conf : RedisConf) (now : ℤ) (s : System) : Action → System
  | check block room => redisCheck conf now block room s
  | record zone events block room => redisRecord conf now zone events block room s

/-! ## Callbacks -/

/-- The callback of `AUTH`, `SELECT` and `SCRIPT LOAD`. -/
def redisHandshakeCallback (ac : ℕ) (reply : Option Reply) (s : System) : System :=
  match reply with
  | some (.error _) => redisAsyncDisconnect ac (s.onWorker fun w => { w with ready := false })
  | _ => s

/-- The callback of `GET` as far as the worker is concerned. -/
def redisCheckCallback (conf : RedisConf) (now : ℤ) (reply : Option Reply) (s : System) : System :=
  match reply with
  | some (.string _) | some .nil => s.onWorker fun w => { w with consecutiveFailures := 0 }
  | _ => s.onWorker (redisRecordFailure conf now)

/-- The callback of `EVALSHA`; a script that Redis no longer has is loaded again. -/
def redisRecordCallback (conf : RedisConf) (now : ℤ) (ac : ℕ) (room : Bool) (reply : Option Reply)
    (s : System) : System :=
  match reply with
  | some (.array (.integer :: .integer :: _)) =>
    s.onWorker fun w => { w with consecutiveFailures := 0 }
  | some (.error str) =>
    if str.take 8 = noscript then (redisAsyncCommand ac .scriptLoad room s).1
    else s.onWorker (redisRecordFailure conf now)
  | _ => s.onWorker (redisRecordFailure conf now)

/-- Run the callback of a command. -/
def runCallback (conf : RedisConf) (now : ℤ) (ac : ℕ) (room : Bool) (cmd : Command)
    (reply : Option Reply) (s : System) : System :=
  match cmd with
  | .get _ => redisCheckCallback conf now reply s
  | .evalsha _ => redisRecordCallback conf now ac room reply s
  | _ => redisHandshakeCallback ac reply s

/-! ## Reconnecting -/

def redisReconnectMin : ℕ := 1000
def redisReconnectMax : ℕ := 30000

/-- Arm the reconnect timer with capped exponential backoff and jitter. -/
def redisArmReconnect (random : ℕ) (w : Worker) : Worker :=
  if w.exiting ∨ w.reconnect.isSome then w
  else
    let base := if w.reconnectBackoff ≠ 0 then w.reconnectBackoff else redisReconnectMin
    let jitter := random % (base / 2 + 1)
    { w with
      reconnect := some (base - base / 4 + jitter)
      reconnectBackoff := if base * 2 > redisReconnectMax then redisReconnectMax else base * 2 }

def redisDisconnectCallback (random : ℕ) (w : Worker) : Worker :=
  redisArmReconnect random { w with context := none, ready := false }

/-- What is left of a request whose callback has run without a reply: it is resumed at once,
and may ask for commands. -/
abbrev Resumed := ℕ → List Action

/-- The callbacks of outstanding commands, run without a reply. -/
def failCallbacks (conf : RedisConf) (now : ℤ) (ac : ℕ) (resumed : Resumed) :
    List Command → System → System
  | [], s => s
  | cmd :: cmds, s =>
    let s := runCallback conf now ac false cmd none s
    let s := (resumed cmds.length).foldl (Action.perform conf now) s
    failCallbacks conf now ac resumed cmds s

/-- What the event loop hands to whatever may end a connection. -/
structure Ending where
  now : ℤ
  resumed : Resumed
  random : ℕ

/-- An ending at time 0 that resumes no request, for concrete runs. -/
def Ending.plain : Ending := ⟨0, fun _ => [], 0⟩

/-- `redisAsyncFree`, also as hiredis calls it on a connection that has ended. A context that
is not live is freed again. -/
def redisAsyncFree (conf : RedisConf) (ac : ℕ) (e : Ending) (s : System) : System :=
  match s.contexts.get ac with
  | none => { s with contexts := s.contexts.free ac }
  | some c =>
    let s := redisAsyncDisconnect ac s
    let s := failCallbacks conf e.now ac e.resumed (c.replied.map Prod.fst ++ c.pending) s
    let s := if c.connected then s.onWorker (redisDisconnectCallback e.random) else s
    { s with contexts := s.contexts.free ac }

/-- One round of `redisAsyncHandleTimeout`: the callbacks of the commands outstanding so far, run
without a reply. The context still takes the commands of the requests that they resume. -/
def timeOut (conf : RedisConf) (now : ℤ) (ac : ℕ) (s : System) (resumed : Resumed) : System :=
  match s.contexts.get ac with
  | none => s
  | some c =>
    failCallbacks conf now ac resumed (c.replied.map Prod.fst ++ c.pending)
      (s.onContext ac fun c => { c with replied := [], pending := [] })

/-- After a callback: a disconnecting context with no reply outstanding is freed. -/
def settle (conf : RedisConf) (ac : ℕ) (e : Ending) (s : System) : System :=
  match s.contexts.get ac with
  | none => s
  | some c =>
    if c.disconnecting ∧ c.pending = [] ∧ c.replied = [] then redisAsyncFree conf ac e s else s

/-! ## Connecting -/

/-- Which of the steps of `redis_connect` succeed, if they are reached. -/
structure Connect where
  /-- `redisAsyncConnect` returns a context -/
  allocated : Bool
  /-- the context carries an error -/
  err : Bool
  /-- `redisCreateSSLContext` -/
  sslContext : Bool
  /-- `redisInitiateSSLWithContext` -/
  sslSession : Bool
  /-- `redis_attach` -/
  attached : Bool

/-- All steps succeed: a connect is pending. -/
def Connect.pending : Connect := ⟨true, false, true, true, true⟩

/-- The second component is whether `NGX_OK` is returned. -/
def redisConnect (conf : RedisConf) (o : Connect) (s : System) : System × Bool :=
  if !o.allocated then (s, false)
  else
    let ac := s.contexts.next
    let s := { s with contexts := s.contexts.alloc .connecting }
    let fail (s : System) : System × Bool := ({ s with contexts := s.contexts.free ac }, false)
    if o.err then fail s
    else if conf.tls ∧ !s.worker.ssl ∧ !o.sslContext then fail s
    else
      let s := s.onWorker fun w => { w with ssl := w.ssl || conf.tls }
      if conf.tls ∧ !o.sslSession then fail s
      else if !o.attached then fail s
      else (s.onWorker fun w => { w with context := some ac }, true)

/-- Connect, and arm the reconnect timer if that fails at once. -/
def connectOrRetry (conf : RedisConf) (o : Connect) (random : ℕ) (s : System) : System :=
  match redisConnect conf o s with
  | (s, true) => s
  | (s, false) => s.onWorker (redisArmReconnect random)

/-- The handler of the reconnect timer, which is no longer armed when it runs. -/
def redisReconnect (conf : RedisConf) (o : Connect) (random : ℕ) (s : System) : System :=
  if s.worker.exiting then s else connectOrRetry conf o random s

/-- Which commands of the handshake can be queued, if they are reached. -/
structure Handshake where
  auth : Bool
  select : Bool
  scriptLoad : Bool

/-- Queue a command on the context the worker points to. -/
def workerCommand (cmd : Command) (room : Bool) (s : System) : System × Bool :=
  match s.worker.context with
  | none => (s, false)
  | some ac => redisAsyncCommand ac cmd room s

/-- The next command of the handshake, if it is needed and those before it were queued. -/
def queueNext (needed : Bool) (cmd : Command) (room : Bool) (r : System × Bool) : System × Bool :=
  if r.2 ∧ needed then workerCommand cmd room r.1 else r

/-- Queue `AUTH`, `SELECT` and `SCRIPT LOAD`, as far as they are needed. -/
def queueHandshake (conf : RedisConf) (q : Handshake) (s : System) : System × Bool :=
  queueNext true .scriptLoad q.scriptLoad
    (queueNext (conf.db > 0) (.select conf.db) q.select
      (queueNext (conf.password.length ≠ 0) conf.auth q.auth (s, true)))

/-- The connect callback with `REDIS_OK`. -/
def redisConnected (conf : RedisConf) (q : Handshake) (s : System) : System :=
  match queueHandshake conf q (s.onWorker fun w => { w with ready := true, reconnectBackoff := 0 }) with
  | (s, true) => s
  | (s, false) =>
    let s := s.onWorker fun w => { w with ready := false }
    match s.worker.context with
    | none => s
    | some ac => redisAsyncDisconnect ac s

/-- The connect callback with an error. -/
def redisConnectFailed (w : Worker) : Worker := { w with ready := false }

/-! ## Events -/

inductive Event
  /-- the reconnect timer fires -/
  | reconnect (o : Connect) (random : ℕ)
  /-- a pending connect succeeds -/
  | connected (ac : ℕ) (q : Handshake) (e : Ending)
  /-- a pending connect fails or times out -/
  | connectFailed (ac : ℕ)
  /-- Redis executes the next command of a connection -/
  | serve (ac : ℕ) (reply : Reply)
  /-- the next reply arrives; `room` is for a command its callback may queue. A request that
  the callback resumes asks for its commands in events of its own. -/
  | deliver (ac : ℕ) (room : Bool) (e : Ending)
  /-- a connection breaks -/
  | lost (ac : ℕ) (e : Ending)
  /-- a command times out; a round for what was outstanding, and one for each time that the
  requests resumed in the round before asked for more -/
  | timedOut (ac : ℕ) (rounds : List Resumed) (e : Ending)
  /-- a request asks for a command -/
  | request (a : Action) (now : ℤ)
  /-- an event of the connection could not be registered -/
  | registrationFailed
  /-- `exit_process` -/
  | exit (e : Ending)

def initProcess (conf : RedisConf) (nonce : ℕ) (o : Connect) (random : ℕ) : System :=
  connectOrRetry conf o random ⟨.zeroed nonce, .empty, [], false⟩

/-- Free the context the worker points to. -/
def releaseContext (conf : RedisConf) (e : Ending) (s : System) : System :=
  match s.worker.context with
  | none => s
  | some ac => (redisAsyncFree conf ac e s).onWorker fun w => { w with context := none }

def exitProcess (conf : RedisConf) (e : Ending) (s : System) : System :=
  let s := releaseContext conf e (s.onWorker fun w => { w with exiting := true, reconnect := none })
  { s.onWorker fun w => { w with ssl := false } with exited := true }

/-- What an event does to a worker that has not exited; `none` if it cannot happen. -/
def eventEffect (conf : RedisConf) (s : System) : Event → Option System
  | .reconnect o random =>
    if s.worker.reconnect.isNone then none
    else some (redisReconnect conf o random (s.onWorker fun w => { w with reconnect := none }))
  | .connected ac q e => do
    let c ← s.contexts.get ac
    if c.connected then none
    else
      let s := s.onContext ac fun c => { c with connected := true }
      some (settle conf ac e (redisConnected conf q s))
  | .connectFailed ac => do
    let c ← s.contexts.get ac
    if c.connected then none
    else
      let s := s.onWorker redisConnectFailed
      some { s with contexts := s.contexts.free ac }
  | .serve ac reply => do
    let c ← s.contexts.get ac
    match c.connected, c.pending with
    | true, cmd :: rest =>
      let executed := if cmd.isData then ⟨ac, cmd, c.session⟩ :: s.executed else s.executed
      let s := s.onContext ac fun c =>
        { c with
          pending := rest
          replied := c.replied ++ [(cmd, reply)]
          session := c.session.after cmd reply }
      some { s with executed := executed }
    | _, _ => none
  | .deliver ac room e => do
    let c ← s.contexts.get ac
    match c.connected, c.replied with
    | true, (cmd, reply) :: rest =>
      let s := s.onContext ac fun c => { c with replied := rest }
      some (settle conf ac e (runCallback conf e.now ac room cmd (some reply) s))
    | _, _ => none
  | .lost ac e => do
    let c ← s.contexts.get ac
    if c.connected then some (redisAsyncFree conf ac e s) else none
  | .timedOut ac rounds e => do
    let c ← s.contexts.get ac
    if !c.connected ∨ !c.outstanding then none
    else
      let s := rounds.foldl (timeOut conf e.now ac) s
      let c ← s.contexts.get ac
      if c.outstanding then none else some (redisAsyncFree conf ac e s)
  | .request a now => some (a.perform conf now s)
  | .registrationFailed => some (s.onWorker fun w => { w with ready := false })
  | .exit e => some (exitProcess conf e s)

def eventStep (conf : RedisConf) (s : System) (event : Event) : Option System :=
  if s.exited then none else eventEffect conf s event

/-- What each event does where it can happen. -/
inductive Happens (conf : RedisConf) (s : System) : Event → System → Prop
  | reconnect (o : Connect) (random : ℕ) : s.worker.reconnect ≠ none →
    Happens conf s (.reconnect o random)
      (redisReconnect conf o random (s.onWorker fun w => { w with reconnect := none }))
  | connected {ac : ℕ} {c : AsyncContext} (q : Handshake) (e : Ending) :
    s.contexts.get ac = some c → c.connected = false →
    Happens conf s (.connected ac q e) (settle conf ac e
      (redisConnected conf q (s.onContext ac fun c => { c with connected := true })))
  | connectFailed {ac : ℕ} {c : AsyncContext} : s.contexts.get ac = some c → c.connected = false →
    Happens conf s (.connectFailed ac) { s.onWorker redisConnectFailed with
      contexts := s.contexts.free ac }
  | serve {ac : ℕ} {c : AsyncContext} {cmd : Command} {rest : List Command} (reply : Reply) :
    s.contexts.get ac = some c → c.connected = true → c.pending = cmd :: rest →
    Happens conf s (.serve ac reply) { s.onContext ac fun c => { c with
        pending := rest
        replied := c.replied ++ [(cmd, reply)]
        session := c.session.after cmd reply } with
      executed := if cmd.isData then ⟨ac, cmd, c.session⟩ :: s.executed else s.executed }
  | deliver {ac : ℕ} {c : AsyncContext} {cmd : Command} {reply : Reply}
      {rest : List (Command × Reply)} (room : Bool) (e : Ending) :
    s.contexts.get ac = some c → c.connected = true → c.replied = (cmd, reply) :: rest →
    Happens conf s (.deliver ac room e) (settle conf ac e (runCallback conf e.now ac room cmd
      (some reply) (s.onContext ac fun c => { c with replied := rest })))
  | lost {ac : ℕ} {c : AsyncContext} (e : Ending) : s.contexts.get ac = some c →
    c.connected = true → Happens conf s (.lost ac e) (redisAsyncFree conf ac e s)
  | timedOut {ac : ℕ} {c c' : AsyncContext} (rounds : List Resumed) (e : Ending) :
    s.contexts.get ac = some c → c.connected = true → c.outstanding = true →
    (rounds.foldl (timeOut conf e.now ac) s).contexts.get ac = some c' → c'.outstanding = false →
    Happens conf s (.timedOut ac rounds e)
      (redisAsyncFree conf ac e (rounds.foldl (timeOut conf e.now ac) s))
  | request (a : Action) (now : ℤ) : Happens conf s (.request a now) (a.perform conf now s)
  | registrationFailed :
    Happens conf s .registrationFailed (s.onWorker fun w => { w with ready := false })
  | exit (e : Ending) : Happens conf s (.exit e) (exitProcess conf e s)

theorem happens_of_eventEffect {conf : RedisConf} {s s' : System} {event : Event}
    (h : eventEffect conf s event = some s') : Happens conf s event s' := by
  cases event <;>
    simp only [eventEffect, Option.bind_eq_bind, Option.bind_eq_some_iff, Option.some.injEq] at h
  case reconnect o random =>
    split_ifs at h with harmed
    obtain rfl := Option.some.inj h
    exact .reconnect o random (by simpa using harmed)
  case connected ac q e =>
    obtain ⟨c, hc, h⟩ := h
    split_ifs at h with hconn
    obtain rfl := Option.some.inj h
    exact .connected q e hc (by simpa using hconn)
  case connectFailed ac =>
    obtain ⟨c, hc, h⟩ := h
    split_ifs at h with hconn
    obtain rfl := Option.some.inj h
    exact .connectFailed hc (by simpa using hconn)
  case serve ac reply =>
    obtain ⟨c, hc, h⟩ := h
    split at h
    case h_1 cmd rest hconn hpending =>
      obtain rfl := Option.some.inj h
      exact .serve reply hc hconn hpending
    case h_2 => cases h
  case deliver ac room e =>
    obtain ⟨c, hc, h⟩ := h
    split at h
    case h_1 cmd reply rest hconn hreplied =>
      obtain rfl := Option.some.inj h
      exact .deliver room e hc hconn hreplied
    case h_2 => cases h
  case lost ac e =>
    obtain ⟨c, hc, h⟩ := h
    split_ifs at h with hconn
    obtain rfl := Option.some.inj h
    exact .lost e hc hconn
  case timedOut ac rounds e =>
    obtain ⟨c, hc, h⟩ := h
    split_ifs at h with hidle
    simp only [Bool.not_eq_true', not_or, Bool.not_eq_false] at hidle
    obtain ⟨c', hc', h⟩ := Option.bind_eq_some_iff.mp h
    split_ifs at h with hleft
    obtain rfl := Option.some.inj h
    exact .timedOut rounds e hc hidle.1 hidle.2 hc' (by simpa using hleft)
  case request a now => exact h ▸ .request a now
  case registrationFailed => exact h ▸ .registrationFailed
  case exit e => exact h ▸ .exit e

end ErrorAbuse
