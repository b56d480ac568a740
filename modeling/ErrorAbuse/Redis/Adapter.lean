import ErrorAbuse.Redis.Worker

/-!
# hiredis on the event loop

hiredis knows nothing of nginx. `redis_attach` gives it hooks that register a connection for
reading and writing and arm a timer, and nginx handlers that call hiredis back. Both sides free
things under the other's feet: a reply callback may end the connection while the read handler is
still draining it, and a handler may be posted for a connection that is given back meanwhile. The
one adapter of a worker is what the two sides look at, and it outlives every connection. The worker
has a pointer to the context of its own, for its requests and for the end of the process; a connect
that fails later on does not clear it.

The machine takes one call at a time. A handler that has called hiredis stays on the stack until
that call returns, and whatever hiredis does before it returns is an event of its own. `fault`
notes the use of a context or a connection that is gone.
-/

namespace ErrorAbuse

open Lib

namespace Adapter

/-- The descriptor of an nginx connection (`none` is -1), what is registered for its two events, and
whether its write event is `ready`. -/
structure Conn where
  fd : Option ℕ
  readActive : Bool
  writeActive : Bool
  readTimer : Bool
  writeTimer : Bool
  readPosted : Bool
  writePosted : Bool
  writeReady : Bool
  deriving DecidableEq, Repr

/-- What `ngx_get_connection` returns. -/
def Conn.fresh (fd : ℕ) : Conn := ⟨some fd, false, false, false, false, false, false, false⟩

/-- Nothing is registered any more. -/
def Conn.detached (c : Conn) : Bool :=
  !c.readActive && !c.writeActive && !c.readTimer && !c.writeTimer && !c.readPosted &&
    !c.writePosted

/-- A hiredis context, as far as the adapter is concerned: whether it has connected, and whether
its hooks are set. -/
structure Peer where
  connected : Bool
  attached : Bool
  deriving DecidableEq, Repr

/-- `ngx_http_error_abuse_redis_event_t`; of its timer, whether it is armed. -/
structure RedisEvent where
  context : Option ℕ
  conn : Option ℕ
  timeout : Bool
  deriving DecidableEq, Repr

/-- The adapter, the worker's own pointer to its context, the hiredis contexts and the connections
behind them. `reading` is the connection whose read handler is on the stack, `reconnect` whether the
reconnect timer is armed. `fault` is not part of the program; `returned` is nginx's free list, as
far as the connections given back to it are concerned. -/
structure Loop where
  adapter : RedisEvent
  context : Option ℕ
  contexts : Handles Peer
  conns : Handles Conn
  reading : Option ℕ
  reconnect : Bool
  ready : Bool
  exiting : Bool
  fault : Bool
  returned : List Conn

namespace Loop

/-- hiredis is called with a context. -/
def useContext (ac : ℕ) (l : Loop) : Loop :=
  { l with fault := l.fault || (l.contexts.get ac).isNone }

/-- The fields of a connection are used. -/
def useConn (c : ℕ) (l : Loop) : Loop := { l with fault := l.fault || (l.conns.get c).isNone }

/-- The fields of a connection are changed. -/
def onConn (c : ℕ) (f : Conn → Conn) (l : Loop) : Loop :=
  { l.useConn c with conns := l.conns.modify c f }

/-- `ngx_free_connection` -/
def freeConnection (c : ℕ) (l : Loop) : Loop :=
  { l with conns := l.conns.free c, returned := (l.conns.get c).toList ++ l.returned }

end Loop

/-! ## Handlers -/

/-- The head of the loop of `redis_read_handler`. -/
def drain (c : ℕ) (l : Loop) : Loop :=
  match l.adapter.context with
  | none => { l with reading := none }
  | some ac => { l.useContext ac with reading := some c }

/-- `redis_read_handler` up to its first call of `redisAsyncHandleRead`. -/
def redisReadHandler (c : ℕ) (l : Loop) : Loop := drain c (l.useConn c)

/-- The rest of `redis_read_handler` once that call has returned; `readable` is what
`platform_socket_readable` finds. -/
def redisReadReturned (c : ℕ) (readable : Bool) (l : Loop) : Loop :=
  match l.adapter.context with
  | none => { l with reading := none }
  | some _ => if readable then drain c (l.useConn c) else { l.useConn c with reading := none }

def redisWriteHandler (c : ℕ) (l : Loop) : Loop :=
  match l.adapter.context with
  | none => l.useConn c
  | some ac => (l.useConn c).useContext ac

def redisTimeoutHandler (l : Loop) : Loop :=
  match l.adapter.context with
  | none => l
  | some ac => l.useContext ac

/-! ## Hooks -/

/-- What `ngx_handle_read_event` or `ngx_handle_write_event` comes to: an error, or whether the
event is active now. -/
abbrev Registered := Option Bool

def redisAddRead (outcome : Registered) (l : Loop) : Loop :=
  match l.adapter.conn with
  | none => l
  | some c =>
    let l := l.useConn c
    if ((l.conns.get c).map Conn.readActive).getD false then l
    else
      match outcome with
      | none => { l with ready := false }
      | some active => l.onConn c fun k => { k with readActive := active }

def redisDelRead (l : Loop) : Loop :=
  match l.adapter.conn with
  | none => l
  | some c => l.onConn c fun k => { k with readActive := false }

def redisAddWrite (outcome : Registered) (l : Loop) : Loop :=
  match l.adapter.conn with
  | none => l
  | some c =>
    let l := l.useConn c
    let l :=
      if ((l.conns.get c).map Conn.writeActive).getD false then l
      else
        match outcome with
        | none => { l with ready := false }
        | some active => l.onConn c fun k => { k with writeActive := active }
    l.onConn c fun k => { k with writePosted := k.writePosted || k.writeReady }

def redisDelWrite (l : Loop) : Loop :=
  match l.adapter.conn with
  | none => l
  | some c => l.onConn c fun k => { k with writeActive := false }

def redisScheduleTimer (l : Loop) : Loop :=
  match l.adapter.conn with
  | none => l
  | some _ => { l with adapter := { l.adapter with timeout := true } }

/-- The part of `redis_cleanup` that takes back what is registered. -/
def Conn.detach (k : Conn) : Conn :=
  let k := if k.readActive then { k with readActive := false } else k
  let k := if k.writeActive then { k with writeActive := false } else k
  let k := if k.readTimer then { k with readTimer := false } else k
  let k := if k.writeTimer then { k with writeTimer := false } else k
  let k := if k.readPosted then { k with readPosted := false } else k
  if k.writePosted then { k with writePosted := false } else k

/-- `redis_cleanup`: the adapter lets go of both sides, and the connection is given back. -/
def redisCleanup (l : Loop) : Loop :=
  match l.adapter.conn with
  | none => { l with adapter := { l.adapter with context := none, conn := none } }
  | some c =>
    let l := ({ l with adapter := ⟨none, none, false⟩ }.onConn c Conn.detach).freeConnection c
    -- the connection is written to once more, while it is the first of nginx's free list
    { l with returned := l.returned.modifyHead fun k => { k with fd := none } }

/-! ## Connecting and freeing -/

/-- `redis_arm_reconnect`, the delay aside. -/
def redisArmReconnect (l : Loop) : Loop := { l with reconnect := l.reconnect || !l.exiting }

/-- `redis_attach`; `got` is whether `ngx_get_connection` returns one. A context and its descriptor
have the same number. The second component is whether `NGX_OK` is returned. -/
def redisAttach (ac : ℕ) (got : Bool) (l : Loop) : Loop × Bool :=
  if ((l.contexts.get ac).map Peer.attached).getD false then (l, false)
  else if !got then (l, false)
  else
    ({ l with
        conns := l.conns.alloc (.fresh ac)
        adapter := { l.adapter with context := some ac, conn := some l.conns.next }
        contexts := l.contexts.modify ac fun p => { p with attached := true } }, true)

/-- `redis_disconnect_callback` -/
def redisDisconnectCallback (l : Loop) : Loop :=
  redisArmReconnect { l with context := none, ready := false }

/-- `redisAsyncFree`, also as hiredis calls it itself: the hook `cleanup` first, if it is set, and
the disconnect callback if the context had connected. -/
def redisAsyncFree (ac : ℕ) (l : Loop) : Loop :=
  match l.contexts.get ac with
  | none => { l with fault := true, contexts := l.contexts.free ac }
  | some p =>
    let l := if p.attached then redisCleanup l else l
    let l := if p.connected then redisDisconnectCallback l else l
    { l with contexts := l.contexts.free ac }

/-- `redis_connect`; the steps of TLS are one. -/
def redisConnect (o : Connect) (l : Loop) : Loop × Bool :=
  if !o.allocated then (l, false)
  else
    let ac := l.contexts.next
    let l := { l with contexts := l.contexts.alloc ⟨false, false⟩ }
    if o.err then (redisAsyncFree ac l, false)
    else if !(o.sslContext && o.sslSession) then (redisAsyncFree ac l, false)
    else
      match redisAttach ac o.attached l with
      | (l, true) => ({ l with context := some ac }, true)
      | (l, false) => (redisAsyncFree ac l, false)

def connectOrRetry (o : Connect) (l : Loop) : Loop :=
  match redisConnect o l with
  | (l, true) => l
  | (l, false) => redisArmReconnect l

/-- `init_process` -/
def start (o : Connect) : Loop :=
  connectOrRetry o ⟨⟨none, none, false⟩, none, .empty, .empty, none, false, false, false, false, []⟩

/-- The handler of the reconnect timer, which is no longer armed when it runs. -/
def redisReconnect (o : Connect) (l : Loop) : Loop := if l.exiting then l else connectOrRetry o l

/-- The connect callback with `REDIS_OK`; `queued` is whether the handshake could be. -/
def redisConnected (queued : Bool) (l : Loop) : Loop :=
  match l.context with
  | none => { l with fault := true }
  | some ac => { l.useContext ac with ready := queued }

/-- The connect callback with an error. -/
def redisConnectFailed (l : Loop) : Loop := { l with ready := false }

/-- `exit_process` -/
def exitProcess (l : Loop) : Loop :=
  let l := { l with exiting := true, reconnect := false }
  match l.context with
  | none => l
  | some ac => { redisAsyncFree ac l with context := none }

/-! ## Events -/

/-- The hooks hiredis calls of its own accord. -/
inductive Hook
  | addRead (outcome : Registered)
  | delRead
  | addWrite (outcome : Registered)
  | delWrite
  | scheduleTimer

def Hook.call : Hook → Loop → Loop
  | addRead outcome => redisAddRead outcome
  | delRead => redisDelRead
  | addWrite outcome => redisAddWrite outcome
  | delWrite => redisDelWrite
  | scheduleTimer => redisScheduleTimer

inductive LoopEvent
  /-- nginx finds a connection readable, or runs its posted read event -/
  | readable (c : ℕ) (posted : Bool)
  /-- the call of `redisAsyncHandleRead` on the stack returns -/
  | handled (readable : Bool)
  /-- nginx finds a connection writable, or runs its posted write event -/
  | writable (c : ℕ) (posted : Bool)
  /-- nginx notes an event of a connection, to run it later -/
  | post (c : ℕ) (write : Bool)
  /-- the command timer fires -/
  | timedOut
  /-- the reconnect timer fires -/
  | reconnect (o : Connect)
  /-- a pending connect succeeds -/
  | connected (ac : ℕ) (queued : Bool)
  /-- a pending connect fails or times out -/
  | connectFailed (ac : ℕ)
  /-- Redis refuses a command of the handshake -/
  | refused (ac : ℕ)
  /-- a request asks for a command -/
  | request
  /-- hiredis calls a hook of a context, from a handler or for a request -/
  | hook (ac : ℕ) (h : Hook)
  /-- hiredis frees a context that has connected, as it has failed or has said goodbye -/
  | free (ac : ℕ)
  /-- `exit_process` -/
  | exit

/-- What an event does to a worker that has not exited; `none` if it cannot happen. nginx starts no
handler while one is on the stack, and none for an event that is not registered. -/
def loopEffect (l : Loop) : LoopEvent → Option Loop
  | .readable c posted =>
    match l.reading, l.conns.get c with
    | none, some k =>
      if posted then
        if k.readPosted then
          let conns := l.conns.modify c fun k => { k with readPosted := false }
          some (redisReadHandler c { l with conns := conns })
        else none
      else if k.readActive then some (redisReadHandler c l)
      else none
    | _, _ => none
  | .handled readable =>
    match l.reading with
    | none => none
    | some c => some (redisReadReturned c readable l)
  | .writable c posted =>
    match l.reading, l.conns.get c with
    | none, some k =>
      if posted then
        if k.writePosted then
          let conns := l.conns.modify c fun k => { k with writePosted := false }
          some (redisWriteHandler c { l with conns := conns })
        else none
      else if k.writeActive then
        let conns := l.conns.modify c fun k => { k with writeReady := true }
        some (redisWriteHandler c { l with conns := conns })
      else none
    | _, _ => none
  | .post c write =>
    match l.conns.get c with
    | none => none
    | some k =>
      if write then
        if k.writeActive then
          some { l with conns := l.conns.modify c fun k => { k with writePosted := true } }
        else none
      else if k.readActive then
        some { l with conns := l.conns.modify c fun k => { k with readPosted := true } }
      else none
  | .timedOut =>
    if l.reading.isNone && l.adapter.timeout then
      some (redisTimeoutHandler { l with adapter := { l.adapter with timeout := false } })
    else none
  | .reconnect o =>
    if l.reading.isNone && l.reconnect then some (redisReconnect o { l with reconnect := false })
    else none
  | .connected ac queued =>
    match l.contexts.get ac with
    | some ⟨false, attached⟩ =>
      some (redisConnected queued { l with contexts := l.contexts.modify ac fun _ => ⟨true, attached⟩ })
    | _ => none
  | .connectFailed ac =>
    match l.contexts.get ac with
    | some ⟨false, _⟩ => some (redisAsyncFree ac (redisConnectFailed l))
    | _ => none
  | .refused ac =>
    match l.contexts.get ac with
    | some ⟨true, _⟩ => some { l with ready := false }
    | _ => none
  | .request =>
    match l.context with
    | none => none
    | some ac => if l.ready then some (l.useContext ac) else none
  | .hook ac h =>
    match l.contexts.get ac with
    | some ⟨_, true⟩ => some (h.call l)
    | _ => none
  | .free ac =>
    match l.contexts.get ac with
    | some ⟨true, _⟩ => some (redisAsyncFree ac l)
    | _ => none
  | .exit => some (exitProcess l)

def loopStep (l : Loop) (e : LoopEvent) : Option Loop := if l.exiting then none else loopEffect l e

/-! ## The invariant -/

/-- A pending connect has failed: the worker still points to the context, which is gone, and nothing
else is left that could happen to it but the end of the process. -/
def Loop.Dangling (l : Loop) : Prop :=
  l.adapter.context = none ∧ l.reconnect = false ∧ ∃ ac ∈ l.contexts.freed, l.context = some ac

/-- The one live context and the one connection in use are those of the adapter; no timer is armed
and no handler on the stack that could reach others. The worker points to that context too, unless
it dangles. -/
structure LoopOk (l : Loop) : Prop where
  contexts : l.contexts.Sole l.adapter.context
  conns : l.conns.Sole l.adapter.conn
  paired : l.adapter.context.isSome = l.adapter.conn.isSome
  attached : ∀ ac p, l.contexts.get ac = some p → p.attached = true
  reading : ∀ c, l.reading = some c → l.adapter.context.isSome → l.adapter.conn = some c
  timeout : l.adapter.timeout = true → l.adapter.conn.isSome
  reconnect : l.reconnect = true → l.adapter.context = none
  fault : l.fault = false
  returned : ∀ k ∈ l.returned, k.detached = true ∧ k.fd = none
  worker : l.context = l.adapter.context ∨ l.Dangling
  ready : l.ready = true → ∃ ac attached, l.adapter.context = some ac ∧
    l.contexts.get ac = some ⟨true, attached⟩

theorem Conn.detached_detach (k : Conn) : k.detach.detached = true := by
  obtain ⟨fd, ra, wa, rt, wt, rp, wp, wr⟩ := k
  cases ra <;> cases wa <;> cases rt <;> cases wt <;> cases rp <;> cases wp <;> rfl

theorem Loop.onConn_of_live {l : Loop} {c : ℕ} (h : (l.conns.get c).isSome = true)
    (f : Conn → Conn) : l.onConn c f = { l with conns := l.conns.modify c f } := by
  have hnone : (l.conns.get c).isNone = false := by simpa using h
  simp only [Loop.onConn, Loop.useConn, hnone, Bool.or_false]

namespace LoopOk

variable {l : Loop} {ac c : ℕ}

/-- The adapter's context can be used. -/
theorem useContext (h : LoopOk l) (hac : l.adapter.context = some ac) : l.useContext ac = l := by
  have hlive : (l.contexts.get ac).isSome = true := (h.contexts.live_iff ac).mpr hac
  have hnone : (l.contexts.get ac).isNone = false := by simpa using hlive
  rw [Loop.useContext, hnone, Bool.or_false]

/-- The adapter's connection can be used. -/
theorem useConn (h : LoopOk l) (hc : l.adapter.conn = some c) : l.useConn c = l := by
  have hlive : (l.conns.get c).isSome = true := (h.conns.live_iff c).mpr hc
  have hnone : (l.conns.get c).isNone = false := by simpa using hlive
  rw [Loop.useConn, hnone, Bool.or_false]

/-- What is registered for a connection may change. -/
theorem modify (h : LoopOk l) (c : ℕ) (f : Conn → Conn) :
    LoopOk { l with conns := l.conns.modify c f } := { h with conns := h.conns.modify c f }

theorem onConn (h : LoopOk l) (hc : l.adapter.conn = some c) (f : Conn → Conn) :
    LoopOk (l.onConn c f) := by
  rw [Loop.onConn_of_live ((h.conns.live_iff c).mpr hc)]
  exact h.modify c f

/-- A connection in use is the adapter's. -/
theorem conn_eq (h : LoopOk l) {k : Conn} (hk : l.conns.get c = some k) :
    l.adapter.conn = some c := (h.conns.live_iff c).mp (by rw [hk]; rfl)

/-- A context that is live is the adapter's. -/
theorem context_eq (h : LoopOk l) {p : Peer} (hp : l.contexts.get ac = some p) :
    l.adapter.context = some ac := (h.contexts.live_iff ac).mp (by rw [hp]; rfl)

/-- With a context that is live the worker does not dangle. -/
theorem worker_eq (h : LoopOk l) (hac : l.adapter.context = some ac) : l.context = some ac := by
  rcases h.worker with heq | ⟨hnone, -, -⟩
  · exact heq.trans hac
  · cases hnone.symm.trans hac

/-- Without a context the worker is not ready. -/
theorem not_ready (h : LoopOk l) (hnone : l.adapter.context = none) : l.ready = false := by
  rw [← Bool.not_eq_true]
  intro hready
  obtain ⟨ac, -, hac, -⟩ := h.ready hready
  cases hnone.symm.trans hac

theorem unready (h : LoopOk l) : LoopOk { l with ready := false } := { h with ready := by simp }

/-- No handler is left on the stack. -/
theorem leave (h : LoopOk l) : LoopOk { l with reading := none } :=
  { h with reading := fun c hc => by cases hc }

theorem drain (h : LoopOk l) (hc : l.adapter.conn = some c) : LoopOk (drain c l) := by
  rw [Adapter.drain]
  cases hac : l.adapter.context with
  | none => exact h.leave
  | some ac =>
      have huse := h.useContext hac
      dsimp only
      rw [huse]
      exact { h with reading := fun c' hc' _ => by rw [hc, Option.some.inj hc'] }

theorem redisReadHandler (h : LoopOk l) (hc : l.adapter.conn = some c) :
    LoopOk (redisReadHandler c l) := by
  rw [Adapter.redisReadHandler, h.useConn hc]
  exact h.drain hc

/-- The context may have been freed meanwhile; if it has not, the connection is still its own. -/
theorem redisReadReturned (h : LoopOk l) (hc : l.reading = some c) (readable : Bool) :
    LoopOk (redisReadReturned c readable l) := by
  rw [Adapter.redisReadReturned]
  cases hac : l.adapter.context with
  | none => exact h.leave
  | some ac =>
      have hconn : l.adapter.conn = some c := h.reading c hc (by rw [hac]; rfl)
      dsimp only
      rw [h.useConn hconn]
      split_ifs
      · exact h.drain hconn
      · exact h.leave

theorem redisWriteHandler (h : LoopOk l) (hc : l.adapter.conn = some c) :
    LoopOk (redisWriteHandler c l) := by
  rw [Adapter.redisWriteHandler, h.useConn hc]
  cases hac : l.adapter.context with
  | none => exact h
  | some ac =>
      dsimp only
      rw [h.useContext hac]
      exact h

theorem redisTimeoutHandler (h : LoopOk l) : LoopOk (redisTimeoutHandler l) := by
  rw [Adapter.redisTimeoutHandler]
  cases hac : l.adapter.context with
  | none => exact h
  | some ac =>
      dsimp only
      rw [h.useContext hac]
      exact h

/-- A hook, called for whichever context. -/
theorem hook (h : LoopOk l) (hook : Hook) : LoopOk (hook.call l) := by
  have hready : LoopOk { l with ready := false } := h.unready
  cases hook with
  | addRead outcome =>
      rw [Hook.call, redisAddRead]
      cases hc : l.adapter.conn with
      | none => exact h
      | some c =>
          dsimp only
          rw [h.useConn hc]
          split_ifs
          · exact h
          · cases outcome with
            | none => exact hready
            | some active => exact h.onConn hc _
  | delRead =>
      rw [Hook.call, redisDelRead]
      cases hc : l.adapter.conn with
      | none => exact h
      | some c => exact h.onConn hc _
  | addWrite outcome =>
      rw [Hook.call, redisAddWrite]
      cases hc : l.adapter.conn with
      | none => exact h
      | some c =>
          dsimp only
          rw [h.useConn hc]
          split_ifs
          · exact h.onConn hc _
          · cases outcome with
            | none => exact hready.onConn hc _
            | some active => exact (h.onConn hc _).onConn hc _
  | delWrite =>
      rw [Hook.call, redisDelWrite]
      cases hc : l.adapter.conn with
      | none => exact h
      | some c => exact h.onConn hc _
  | scheduleTimer =>
      rw [Hook.call, redisScheduleTimer]
      cases hc : l.adapter.conn with
      | none => exact h
      | some c => exact { h with timeout := fun _ => by rw [hc]; rfl }

/-! ## Freeing and connecting -/

/-- With the context goes its connection. If it had connected, the worker learns of it. -/
theorem redisAsyncFree (h : LoopOk l) (hac : l.adapter.context = some ac) :
    LoopOk (redisAsyncFree ac l) ∧ (redisAsyncFree ac l).adapter.context = none ∧
      ∀ p, l.contexts.get ac = some p →
        (redisAsyncFree ac l).context = if p.connected then none else some ac := by
  obtain ⟨c, hc⟩ : ∃ c, l.adapter.conn = some c := by
    rw [← Option.isSome_iff_exists, ← h.paired, hac]
    rfl
  have hlive : (l.conns.get c).isSome = true := (h.conns.live_iff c).mpr hc
  obtain ⟨p, hp⟩ := Option.isSome_iff_exists.mp ((h.contexts.live_iff ac).mpr hac)
  obtain ⟨k, hk⟩ := Option.isSome_iff_exists.mp hlive
  have hcleanup : Adapter.redisCleanup l = { l with
      adapter := ⟨none, none, false⟩
      conns := (l.conns.modify c Conn.detach).free c
      returned := { k.detach with fd := none } :: l.returned } := by
    simp only [redisCleanup, hc]
    rw [Loop.onConn_of_live (l := { l with adapter := ⟨none, none, false⟩ }) hlive]
    simp [Loop.freeConnection, Handles.get_modify, hk]
  have hcontexts : (l.contexts.free ac).Sole none := (hac ▸ h.contexts).free
  have hconns : ((l.conns.modify c Conn.detach).free c).Sole none :=
    ((hc ▸ h.conns).modify c Conn.detach).free
  have hnone : ∀ i p, (l.contexts.free ac).get i = some p → p.attached = true := by
    intro i p hi
    have hlive := (hcontexts.live_iff i).mp (by rw [hi]; rfl)
    cases hlive
  have hreturned : ∀ k' ∈ { k.detach with fd := none } :: l.returned,
      k'.detached = true ∧ k'.fd = none := by
    intro k' hk'
    rcases List.mem_cons.mp hk' with rfl | hk'
    · exact ⟨k.detached_detach, rfl⟩
    · exact h.returned k' hk'
  have htimer : l.reconnect = false := by
    rw [← Bool.not_eq_true]
    intro hreconnect
    cases (h.reconnect hreconnect).symm.trans hac
  rw [Adapter.redisAsyncFree]
  obtain ⟨connected, attached⟩ := p
  obtain rfl : attached = true := h.attached ac _ hp
  simp only [hp, if_true, hcleanup, redisDisconnectCallback]
  cases connected with
  | true =>
      simp only [if_true]
      refine ⟨⟨hcontexts, hconns, rfl, hnone, by simp [redisArmReconnect], by simp [redisArmReconnect],
        fun _ => rfl, h.fault, hreturned, .inl rfl, by simp [redisArmReconnect]⟩, rfl,
        fun p hp => ?_⟩
      obtain rfl := Option.some.inj hp
      rfl
  | false =>
      have hready : l.ready = false := by
        rw [← Bool.not_eq_true]
        intro hready
        obtain ⟨ac', attached, hac', hp'⟩ := h.ready hready
        obtain rfl := Option.some.inj (hac.symm.trans hac')
        cases hp.symm.trans hp'
      have hdangling : ∃ ac' ∈ (l.contexts.free ac).freed, l.context = some ac' :=
        ⟨ac, List.mem_cons_self, h.worker_eq hac⟩
      simp only [Bool.false_eq_true, if_false]
      refine ⟨⟨hcontexts, hconns, rfl, hnone, by simp, by simp, fun _ => rfl, h.fault, hreturned,
        .inr ⟨rfl, htimer, hdangling⟩, by simp [hready]⟩, trivial, fun p hp => ?_⟩
      obtain rfl := Option.some.inj hp
      exact h.worker_eq hac

theorem redisArmReconnect (h : LoopOk l) (hnone : l.adapter.context = none)
    (hctx : l.context = none) : LoopOk (redisArmReconnect l) :=
  { h with reconnect := fun _ => hnone, worker := .inl (hctx.trans hnone.symm) }

/-- A context that has not been attached is freed alone. -/
theorem freeNew (h : LoopOk l) (hnone : l.adapter.context = none) (hctx : l.context = none) :
    let l' := Adapter.redisAsyncFree l.contexts.next
      { l with contexts := l.contexts.alloc ⟨false, false⟩ }
    LoopOk l' ∧ l'.adapter.context = none ∧ l'.context = none := by
  have hcontexts : ((l.contexts.alloc ⟨false, false⟩).free l.contexts.next).Sole none :=
    ((hnone ▸ h.contexts).alloc _).free
  have hfree : Adapter.redisAsyncFree l.contexts.next
      { l with contexts := l.contexts.alloc ⟨false, false⟩ } =
      { l with contexts := (l.contexts.alloc ⟨false, false⟩).free l.contexts.next } := by
    rw [Adapter.redisAsyncFree]
    simp only [Handles.get_alloc_next]
    rfl
  rw [hfree]
  refine ⟨{ h with
    contexts := hnone ▸ hcontexts
    attached := fun i p hi => ?_
    worker := .inl (hctx.trans hnone.symm)
    ready := by simp [h.not_ready hnone] }, hnone, hctx⟩
  have hlive := (hcontexts.live_iff i).mp (Option.isSome_iff_exists.mpr ⟨p, hi⟩)
  cases hlive

theorem connectOrRetry (h : LoopOk l) (hnone : l.adapter.context = none)
    (hctx : l.context = none) (hreading : l.reading = none) (htimer : l.reconnect = false)
    (o : Connect) : LoopOk (connectOrRetry o l) ∧
      (connectOrRetry o l).context = (connectOrRetry o l).adapter.context := by
  obtain ⟨hfree, hfreed, hcleared⟩ := h.freeNew hnone hctx
  have hretry := hfree.redisArmReconnect hfreed hcleared
  have hsame := hcleared.trans hfreed.symm
  have hconn : l.adapter.conn = none := by
    rw [← Option.isNone_iff_eq_none, ← Option.not_isSome, ← h.paired, hnone]
    rfl
  rw [Adapter.connectOrRetry, redisConnect]
  split_ifs with halloc herr hssl
  · exact ⟨h.redisArmReconnect hnone hctx, hctx.trans hnone.symm⟩
  · exact ⟨hretry, hsame⟩
  · exact ⟨hretry, hsame⟩
  · cases hgot : o.attached with
    | false =>
        simp only [redisAttach, Handles.get_alloc_next]
        exact ⟨hretry, hsame⟩
    | true =>
        have hcontexts := ((hnone ▸ h.contexts).alloc ⟨false, false⟩).modify l.contexts.next
          fun p : Peer => { p with attached := true }
        have hconns := (hconn ▸ h.conns).alloc (Conn.fresh l.contexts.next)
        have hattached : ∀ i p, ((l.contexts.alloc ⟨false, false⟩).modify l.contexts.next
            fun p => { p with attached := true }).get i = some p → p.attached = true := by
          intro i p hi
          rw [Handles.get_modify] at hi
          split_ifs at hi with hin
          · obtain ⟨q, -, rfl⟩ := Option.map_eq_some_iff.mp hi
            rfl
          · rw [Handles.get_alloc, if_neg hin] at hi
            exact h.attached i p hi
        simp only [redisAttach, Handles.get_alloc_next]
        exact ⟨⟨hcontexts, hconns, rfl, hattached, by simp [hreading], fun _ => rfl,
          by simp [htimer], h.fault, h.returned, .inl rfl, by simp [h.not_ready hnone]⟩, rfl⟩

/-- The process ends while the worker does not dangle. -/
theorem exitProcess (h : LoopOk l) (hsame : l.context = l.adapter.context) :
    LoopOk (exitProcess l) ∧ (exitProcess l).context = (exitProcess l).adapter.context := by
  have hexit : LoopOk { l with exiting := true, reconnect := false } :=
    { h with reconnect := by simp, worker := .inl hsame }
  rw [Adapter.exitProcess]
  dsimp only
  split
  · exact ⟨hexit, hsame⟩
  · next ac hctx =>
      obtain ⟨hfreed, hnone, -⟩ := hexit.redisAsyncFree (hsame.symm.trans hctx)
      exact ⟨{ hfreed with worker := .inl hnone.symm }, hnone.symm⟩

end LoopOk

/-! ## Steps -/

/-- Neither the adapter nor the worker has got another context. -/
def Kept (l l' : Loop) : Prop :=
  l'.context = l.context ∧ l'.adapter.context = l.adapter.context

section Kept

variable {l l' : Loop}

theorem kept_drain (c : ℕ) (l : Loop) : Kept l (drain c l) := by
  rw [drain]
  cases l.adapter.context <;> exact ⟨rfl, rfl⟩

theorem kept_redisReadReturned (c : ℕ) (readable : Bool) (l : Loop) :
    Kept l (redisReadReturned c readable l) := by
  rw [redisReadReturned]
  split
  · exact ⟨rfl, rfl⟩
  · split_ifs
    · exact kept_drain c (l.useConn c)
    · exact ⟨rfl, rfl⟩

theorem kept_redisWriteHandler (c : ℕ) (l : Loop) : Kept l (redisWriteHandler c l) := by
  rw [redisWriteHandler]
  cases l.adapter.context <;> exact ⟨rfl, rfl⟩

theorem kept_redisTimeoutHandler (l : Loop) : Kept l (redisTimeoutHandler l) := by
  rw [redisTimeoutHandler]
  cases l.adapter.context <;> exact ⟨rfl, rfl⟩

theorem kept_hook (hook : Hook) (l : Loop) : Kept l (hook.call l) := by
  cases hook with
  | addRead outcome =>
      rw [Hook.call, redisAddRead]
      split
      · exact ⟨rfl, rfl⟩
      · dsimp only
        split_ifs
        · exact ⟨rfl, rfl⟩
        · cases outcome <;> exact ⟨rfl, rfl⟩
  | addWrite outcome =>
      rw [Hook.call, redisAddWrite]
      split
      · exact ⟨rfl, rfl⟩
      · dsimp only
        split_ifs
        · exact ⟨rfl, rfl⟩
        · cases outcome <;> exact ⟨rfl, rfl⟩
  | delRead =>
      rw [Hook.call, redisDelRead]
      split <;> exact ⟨rfl, rfl⟩
  | delWrite =>
      rw [Hook.call, redisDelWrite]
      split <;> exact ⟨rfl, rfl⟩
  | scheduleTimer =>
      rw [Hook.call, redisScheduleTimer]
      split <;> exact ⟨rfl, rfl⟩

end Kept

/-- One event but the end of the process. The worker comes to point to another context than the
adapter only when a pending connect fails. -/
theorem LoopOk.effect {l l' : Loop} (h : LoopOk l) {e : LoopEvent} (hexit : e ≠ .exit)
    (hstep : loopEffect l e = some l') :
    LoopOk l' ∧ (Kept l l' ∨ l'.context = l'.adapter.context ∨ ∃ ac, e = .connectFailed ac) := by
  cases e with
  | readable c posted =>
      rw [loopEffect] at hstep
      cases hreading : l.reading with
      | some c => simp [hreading] at hstep
      | none =>
          cases hk : l.conns.get c with
          | none => simp [hreading, hk] at hstep
          | some k =>
              have hc := h.conn_eq hk
              simp only [hreading, hk] at hstep
              split_ifs at hstep <;> obtain rfl := Option.some.inj hstep
              · exact ⟨(h.modify c _).redisReadHandler hc, .inl (kept_drain c _)⟩
              · exact ⟨h.redisReadHandler hc, .inl (kept_drain c _)⟩
  | handled readable =>
      rw [loopEffect] at hstep
      cases hreading : l.reading with
      | none => simp [hreading] at hstep
      | some c =>
          simp only [hreading, Option.some.injEq] at hstep
          subst hstep
          exact ⟨h.redisReadReturned hreading readable, .inl (kept_redisReadReturned c readable l)⟩
  | writable c posted =>
      rw [loopEffect] at hstep
      cases hreading : l.reading with
      | some c => simp [hreading] at hstep
      | none =>
          cases hk : l.conns.get c with
          | none => simp [hreading, hk] at hstep
          | some k =>
              have hc := h.conn_eq hk
              simp only [hreading, hk] at hstep
              split_ifs at hstep <;> obtain rfl := Option.some.inj hstep
              · exact ⟨(h.leave.modify c _).redisWriteHandler hc, .inl (kept_redisWriteHandler c _)⟩
              · exact ⟨(h.leave.modify c _).redisWriteHandler hc, .inl (kept_redisWriteHandler c _)⟩
  | post c write =>
      rw [loopEffect] at hstep
      cases hk : l.conns.get c with
      | none => simp [hk] at hstep
      | some k =>
          simp only [hk] at hstep
          split_ifs at hstep <;> obtain rfl := Option.some.inj hstep
          · exact ⟨h.modify c _, .inl ⟨rfl, rfl⟩⟩
          · exact ⟨h.modify c _, .inl ⟨rfl, rfl⟩⟩
  | timedOut =>
      rw [loopEffect] at hstep
      split_ifs at hstep
      obtain rfl := Option.some.inj hstep
      exact ⟨LoopOk.redisTimeoutHandler { h with timeout := by simp },
        .inl (kept_redisTimeoutHandler _)⟩
  | reconnect o =>
      rw [loopEffect] at hstep
      split_ifs at hstep with hready
      obtain ⟨hreading, htimer⟩ : l.reading = none ∧ l.reconnect = true := by simpa using hready
      obtain rfl := Option.some.inj hstep
      have hnone := h.reconnect htimer
      have hctx : l.context = none := by
        rcases h.worker with hsame | ⟨-, hno, -⟩
        · exact hsame.trans hnone
        · cases htimer.symm.trans hno
      have hfired : LoopOk { l with reconnect := false } :=
        { h with reconnect := by simp, worker := .inl (hctx.trans hnone.symm) }
      rw [redisReconnect]
      split_ifs
      · exact ⟨hfired, .inl ⟨rfl, rfl⟩⟩
      · obtain ⟨hok, hsame⟩ := hfired.connectOrRetry hnone hctx hreading rfl o
        exact ⟨hok, .inr (.inl hsame)⟩
  | connected ac queued =>
      rw [loopEffect] at hstep
      split at hstep
      · next attached hp =>
          have hac := h.context_eq hp
          have hctx := h.worker_eq hac
          have hlive : ((l.contexts.modify ac fun _ => ⟨true, attached⟩).get ac) =
              some ⟨true, attached⟩ := by
            rw [Handles.get_modify, if_pos rfl, hp]
            rfl
          obtain rfl := Option.some.inj hstep
          have hused : redisConnected queued { l with
              contexts := l.contexts.modify ac fun _ => ⟨true, attached⟩ } = { l with
                contexts := l.contexts.modify ac fun _ => ⟨true, attached⟩
                ready := queued } := by
            simp only [redisConnected, hctx, Loop.useContext, hlive, Option.isNone_some,
              Bool.or_false]
          rw [hused]
          refine ⟨{ h with
            contexts := h.contexts.modify ac _
            attached := fun i p hi => ?_
            worker := .inl (hctx.trans hac.symm)
            ready := fun _ => ⟨ac, attached, hac, hlive⟩ }, .inl ⟨rfl, rfl⟩⟩
          rw [Handles.get_modify] at hi
          split_ifs at hi with hin
          · obtain ⟨q, hq, rfl⟩ := Option.map_eq_some_iff.mp hi
            exact h.attached ac ⟨false, attached⟩ hp
          · exact h.attached i p hi
      · cases hstep
  | connectFailed ac =>
      rw [loopEffect] at hstep
      split at hstep
      · next attached hp =>
          obtain rfl := Option.some.inj hstep
          exact ⟨(h.unready.redisAsyncFree (h.context_eq hp)).1, .inr (.inr ⟨ac, rfl⟩)⟩
      · cases hstep
  | refused ac =>
      rw [loopEffect] at hstep
      split at hstep
      · obtain rfl := Option.some.inj hstep
        exact ⟨h.unready, .inl ⟨rfl, rfl⟩⟩
      · cases hstep
  | request =>
      rw [loopEffect] at hstep
      split at hstep
      · cases hstep
      · next ac hctx =>
          split_ifs at hstep with hready
          obtain rfl := Option.some.inj hstep
          obtain ⟨ac', -, hac, -⟩ := h.ready hready
          obtain rfl := Option.some.inj ((h.worker_eq hac).symm.trans hctx)
          rw [h.useContext hac]
          exact ⟨h, .inl ⟨rfl, rfl⟩⟩
  | hook ac hk =>
      rw [loopEffect] at hstep
      split at hstep
      · obtain rfl := Option.some.inj hstep
        exact ⟨h.hook hk, .inl (kept_hook hk l)⟩
      · cases hstep
  | free ac =>
      rw [loopEffect] at hstep
      split at hstep
      · next attached hp =>
          obtain rfl := Option.some.inj hstep
          obtain ⟨hok, hnone, hcleared⟩ := h.redisAsyncFree (h.context_eq hp)
          exact ⟨hok, .inr (.inl ((hcleared _ hp).trans hnone.symm))⟩
      · cases hstep
  | exit => exact absurd rfl hexit

theorem start_ok (o : Connect) :
    LoopOk (start o) ∧ (start o).context = (start o).adapter.context :=
  LoopOk.connectOrRetry ⟨.empty, .empty, rfl, by simp, by simp, by simp, by simp, rfl, by simp,
    .inl rfl, by simp⟩ rfl rfl rfl rfl o

/-- A pending connect that fails leaves the worker dangling. -/
theorem LoopOk.connectFailed {l l' : Loop} (h : LoopOk l) {ac : ℕ}
    (hstep : loopEffect l (.connectFailed ac) = some l') : LoopOk l' ∧ l'.Dangling := by
  have hok := (h.effect (by simp) hstep).1
  rw [loopEffect] at hstep
  split at hstep
  · next attached hp =>
      obtain rfl := Option.some.inj hstep
      obtain ⟨-, hnone, hkept⟩ := h.unready.redisAsyncFree (h.context_eq hp)
      refine ⟨hok, hok.worker.resolve_left fun hsame => ?_⟩
      cases (hkept _ hp).symm.trans (hsame.trans hnone)
  · cases hstep

/-- Once the worker dangles, nothing happens any more but a handler that returns, and the end of the
process. -/
theorem Loop.Dangling.effect {l l' : Loop} (h : LoopOk l) (hd : l.Dangling) {e : LoopEvent}
    (hexit : e ≠ .exit) (hstep : loopEffect l e = some l') : l'.Dangling := by
  obtain ⟨hnone, htimer, ac, hfreed, hctx⟩ := hd
  have hconn : l.adapter.conn = none := by
    rw [← Option.isNone_iff_eq_none, ← Option.not_isSome, ← h.paired, hnone]
    rfl
  have hdead : ∀ i, l.contexts.get i = none := (hnone ▸ h.contexts).dead
  have hidle : ∀ i, l.conns.get i = none := (hconn ▸ h.conns).dead
  have hstill : l.adapter.timeout = false := by
    rw [← Bool.not_eq_true]
    intro hset
    simpa [hconn] using h.timeout hset
  cases e with
  | handled readable =>
      cases hreading : l.reading with
      | none => simp [loopEffect, hreading] at hstep
      | some c =>
          simp only [loopEffect, hreading, redisReadReturned, hnone, Option.some.injEq] at hstep
          exact hstep ▸ ⟨hnone, htimer, ac, hfreed, hctx⟩
  | exit => exact absurd rfl hexit
  | request => simp [loopEffect, hctx, h.not_ready hnone] at hstep
  | reconnect o => simp [loopEffect, htimer] at hstep
  | timedOut => simp [loopEffect, hstill] at hstep
  | _ => simp [loopEffect, hdead, hidle] at hstep

/-- If the process ends then, it frees the context a second time. -/
theorem Loop.Dangling.exit {l : Loop} (h : LoopOk l) (hd : l.Dangling) :
    (exitProcess l).fault = true ∧ ¬ (exitProcess l).contexts.freed.Nodup := by
  obtain ⟨hnone, -, ac, hfreed, hctx⟩ := hd
  have hdead : l.contexts.get ac = none := (hnone ▸ h.contexts).dead ac
  simp only [exitProcess, hctx, redisAsyncFree, hdead, Handles.freed_free, List.nodup_cons, hfreed]
  simp

/-! ## Safety -/

/-- What both sides of the adapter rely on: nobody uses a context or a connection that is gone, or
frees one twice; the only live context and the only connection in use are those of the adapter, both
or none; a connection is given back with nothing registered for it; a command timer is armed only
while there is one, and a reconnect timer only while there is none. -/
structure Safe (l : Loop) : Prop where
  fault : l.fault = false
  contexts_once : l.contexts.freed.Nodup
  conns_once : l.conns.freed.Nodup
  context_iff : ∀ ac, (l.contexts.get ac).isSome ↔ l.adapter.context = some ac
  conn_iff : ∀ c, (l.conns.get c).isSome ↔ l.adapter.conn = some c
  paired : l.adapter.context.isSome = l.adapter.conn.isSome
  returned : ∀ k ∈ l.returned, k.detached = true ∧ k.fd = none
  timeout : l.adapter.timeout = true → l.adapter.conn.isSome
  reconnect : l.reconnect = true → l.adapter.context = none

theorem LoopOk.safe {l : Loop} (h : LoopOk l) : Safe l :=
  ⟨h.fault, h.contexts.nodup, h.conns.nodup, h.contexts.live_iff, h.conns.live_iff, h.paired,
    h.returned, h.timeout, h.reconnect⟩

/-- A run in which no pending connect fails, or the process does not end. -/
theorem safe_of_events (o : Connect) {events : List LoopEvent}
    (h : (∀ ac, .connectFailed ac ∉ events) ∨ .exit ∉ events) : Always loopStep Safe (start o) events := by
  obtain ⟨hstart, hsame⟩ := start_ok o
  rcases h with hnever | hnever
  · refine (always_of_invariant (fun l => LoopOk l ∧ l.context = l.adapter.context)
      (fun _ e => ∀ ac, e ≠ .connectFailed ac) ?_ ⟨hstart, hsame⟩ ?_).imp fun l hl => hl.1.safe
    · rintro l e l' ⟨hl, hsame⟩ he hstep
      rw [loopStep, Option.ite_none_left_eq_some] at hstep
      by_cases hexit : e = .exit
      · subst hexit
        obtain rfl := Option.some.inj hstep.2
        exact hl.exitProcess hsame
      · obtain ⟨hl', hkept | hsame' | ⟨ac, hfailed⟩⟩ := hl.effect hexit hstep.2
        · exact ⟨hl', hkept.1.trans (hsame.trans hkept.2.symm)⟩
        · exact ⟨hl', hsame'⟩
        · exact absurd hfailed (he ac)
    · exact .of_forall (fun e he _ ac hfailed => hnever ac (by rwa [← hfailed])) _
  · refine (always_of_invariant LoopOk (fun _ e => e ≠ .exit) ?_ hstart ?_).imp fun l hl => hl.safe
    · intro l e l' hl he hstep
      rw [loopStep, Option.ite_none_left_eq_some] at hstep
      exact (hl.effect he hstep.2).1
    · refine .of_forall (fun e he _ => ?_) _
      rintro rfl
      exact hnever he

theorem exiting_exitProcess (l : Loop) : (exitProcess l).exiting = true := by
  have hcleanup : ∀ l : Loop, (redisCleanup l).exiting = l.exiting := fun l => by
    rw [redisCleanup]
    cases l.adapter.conn <;> rfl
  have hfree : ∀ ac (l : Loop), (redisAsyncFree ac l).exiting = l.exiting := fun ac l => by
    rw [redisAsyncFree]
    split
    · rfl
    · dsimp only
      split_ifs <;> first | rfl | exact hcleanup l
  rw [exitProcess]
  dsimp only
  split
  · rfl
  · exact hfree _ _

/-- A run in which a pending connect fails and the process ends. -/
theorem faulty_of_events (o : Connect) {events : List LoopEvent} {l : Loop} {ac : ℕ}
    (hrun : runOpt loopStep (start o) events = some l) (hfailed : .connectFailed ac ∈ events)
    (hexit : .exit ∈ events) : l.fault = true ∧ ¬ l.contexts.freed.Nodup := by
  obtain ⟨before, after, rfl, hnever⟩ := List.eq_append_cons_of_mem hexit
  obtain ⟨l₂, hbefore, hrun⟩ := runOpt_append_eq_some.mp hrun
  obtain ⟨l₃, hstep, hafter⟩ := runOpt_cons_eq_some.mp hrun
  rw [loopStep, Option.ite_none_left_eq_some] at hstep
  obtain rfl := Option.some.inj hstep.2
  -- nothing comes after the end of the process
  obtain rfl : after = [] := by
    cases after with
    | nil => rfl
    | cons e after =>
        obtain ⟨l₄, hlater, -⟩ := runOpt_cons_eq_some.mp hafter
        simp [loopStep, exiting_exitProcess] at hlater
  obtain rfl := Option.some.inj hafter
  have hfailed : .connectFailed ac ∈ before := by simpa using hfailed
  obtain ⟨early, late, rfl⟩ := List.append_of_mem hfailed
  have hquiet : ∀ e ∈ early ++ .connectFailed ac :: late, e ≠ .exit := fun e he heq =>
    hnever (heq ▸ he)
  obtain ⟨l₁, hearly, hlate⟩ := runOpt_append_eq_some.mp hbefore
  obtain ⟨l₄, hconnect, hlate⟩ := runOpt_cons_eq_some.mp hlate
  have hone : ∀ l e l', LoopOk l → e ≠ .exit → loopStep l e = some l' →
      loopEffect l e = some l' ∧ LoopOk l' := by
    intro l e l' hl he hstep
    rw [loopStep, Option.ite_none_left_eq_some] at hstep
    exact ⟨hstep.2, (hl.effect he hstep.2).1⟩
  have hok : LoopOk l₁ := (always_of_invariant LoopOk (fun _ e => e ≠ .exit)
    (fun l e l' hl he hstep => (hone l e l' hl he hstep).2) (start_ok o).1
    (.of_forall (fun e he _ => hquiet e (List.mem_append_left _ he)) _)).of_runOpt hearly
  have hdangles := hok.connectFailed (hone _ _ _ hok (by simp) hconnect).1
  have hlast : LoopOk l₂ ∧ l₂.Dangling := (always_of_invariant (fun l => LoopOk l ∧ l.Dangling)
    (fun _ e => e ≠ .exit) (fun l e l' hl he hstep => by
      obtain ⟨heffect, hl'⟩ := hone l e l' hl.1 he hstep
      exact ⟨hl', hl.2.effect hl.1 he heffect⟩) hdangles
    (.of_forall (fun e he _ => hquiet e (by simp [he])) _)).of_runOpt hlate
  exact hlast.2.exit hlast.1

/-- **The adapter is memory-safe and leaks nothing, but for one pointer.** However the events of
nginx, the calls and frees of hiredis, requests and connects that fail at any step follow each
other: no handler, no hook, no request and no callback uses a context or a connection that is gone
(the cleanup only marks a connection it has just given back), and neither is freed or given back
twice. So it is up to the end of the process, unless a pending connect has failed: then the worker
still points to the context of that connect, and the end of the process frees it a second time. -/
theorem adapter_safe (o : Connect) (events : List LoopEvent) :
    ((∀ ac, .connectFailed ac ∉ events) ∨ .exit ∉ events → Always loopStep Safe (start o) events) ∧
    ∀ l ac, runOpt loopStep (start o) events = some l → .connectFailed ac ∈ events →
      .exit ∈ events → l.fault = true ∧ ¬ l.contexts.freed.Nodup :=
  ⟨safe_of_events o, fun _ _ => faulty_of_events o⟩

/-- A reply ends the connection in the middle of a drain, while the write event is posted; and a
pending connect fails before the process ends. -/
theorem adapter_safe_drain :
    Always loopStep Safe (start .pending) [.hook 0 (.addWrite (some true)), .writable 0 false,
      .connected 0 true, .request, .hook 0 (.addRead (some true)), .post 0 true, .readable 0 false,
      .free 0, .handled true, .reconnect .pending, .exit] ∧
    ∃ l, runOpt loopStep (start .pending) [.hook 0 (.addRead (some true)), .readable 0 false,
      .connectFailed 0, .handled false, .exit] = some l ∧ ¬ l.contexts.freed.Nodup :=
  ⟨(adapter_safe .pending _).1 (.inl (by simp)), _, rfl,
    ((adapter_safe .pending [.hook 0 (.addRead (some true)), .readable 0 false, .connectFailed 0,
      .handled false, .exit]).2 _ 0 rfl (by simp) (by simp)).2⟩

/-- In the first of these runs all events can happen. -/
example : (runOpt loopStep (start .pending) [.hook 0 (.addWrite (some true)), .writable 0 false,
    .connected 0 true, .request, .hook 0 (.addRead (some true)), .post 0 true, .readable 0 false,
    .free 0, .handled true, .reconnect .pending, .exit]).map (fun l => (l.contexts.freed, l.fault)) =
      some ([1, 0], false) := by decide

end Adapter

end ErrorAbuse
