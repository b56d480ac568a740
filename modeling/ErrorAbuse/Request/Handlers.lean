import ErrorAbuse.Request.Context

/-!
# The handlers

nginx calls `preaccess` in the phase of that name, once for every location a request comes
to and again when a parked request is woken up, and `headerFilter` whenever response headers
are about to be sent. Both may be called any number of times and in any order: a redirect
starts over with `r->ctx` zeroed, and so does another module's filter that replaces the
response. What they return to nginx is `PhaseRc` and `FilterRc`.

`Turn` lists what can happen to a request, from the module's point of view.
-/

namespace ErrorAbuse

open Lib

variable {ζ : Type} [DecidableEq ζ]

/-! ## Redis -/

/-- `redis_keys`: the keys of the request, built once. -/
def redisKeys (site : Site ζ) (v : Visit) (zone : ζ) (ctx : ℕ) (r : Exchange ζ) :
    Exchange ζ × Option RedisKeys :=
  if (r.pool ctx).redisBlock.length ≠ 0 then
    (r, some ⟨(r.pool ctx).redisEvents, (r.pool ctx).redisBlock⟩)
  else if !v.redisKeysRoom then (r, none)
  else
    let keys := buildRedisKeys site.redis (site.zones zone) (r.pool ctx).key
    (r.onCtx ctx fun c => { c with redisEvents := keys.events, redisBlock := keys.block }, some keys)

/-- `redis_check`; the second component is whether it returns `NGX_AGAIN`. -/
def Exchange.redisCheck (site : Site ζ) (v : Visit) (zone : ζ) (ctx : ℕ) (r : Exchange ζ) :
    Exchange ζ × Bool :=
  if (r.pool ctx).redisPending then (r, true)
  else if !redisAvailable r.worker v.now then
    (r.onCtx ctx fun c => { c with redisChecked := true }, false)
  else
    match redisKeys site v zone ctx r with
    | (r, none) => (r.onCtx ctx fun c => { c with redisChecked := true }, false)
    | (r, some keys) =>
      let r := r.onCtx ctx fun c => { c with redisPending := true }
      if !v.redisRoom then
        let r := { r with worker := redisRecordFailure site.redis v.now r.worker }
        (r.onCtx ctx fun c => { c with redisPending := false, redisChecked := true }, false)
      else ({ r with count := r.count + 1, waiting := r.waiting + 1 }.note (.get keys.block), true)

/-- `redis_record` -/
def Exchange.redisRecord (site : Site ζ) (v : Visit) (zone : ζ) (ctx : ℕ) (r : Exchange ζ) :
    Exchange ζ :=
  let r := r.note (.redisRecord zone (r.pool ctx).key v.now)
  if !redisAvailable r.worker v.now then r
  else
    match redisKeys site v zone ctx r with
    | (r, none) => r
    | (r, some keys) =>
      let r := { r with worker := nextSequence site.redis r.worker }
      r.note (.evalsha (recordArgs (site.zones zone) r.worker keys.events keys.block))

/-- One step of the loop of `ngx_atoi`. -/
def atoiStep (max : ℕ) (value : ℕ) (b : UInt8) : Option ℕ :=
  if b < 48 ∨ b > 57 then none
  else if value ≥ max / 10 ∧ (value > max / 10 ∨ b.toNat - 48 > max % 10) then none
  else some (value * 10 + (b.toNat - 48))

/-- `ngx_atoi`, with the largest `ngx_int_t`; `none` is `NGX_ERROR`. -/
def ngxAtoi (max : ℕ) (line : List UInt8) : Option ℕ :=
  if line.length = 0 then none else line.foldlM (atoiStep max) 0

/-- The largest `ngx_int_t`. -/
def Platform.intMax (plat : Platform) : ℕ := 2 ^ (plat.uintBits - 1) - 1

/-- A number as a signed `time_t` of the given width. -/
def TimeT.ofInt (T : TimeT) (x : ℤ) : ℤ := x.bmod (2 ^ (8 * T.bytes))

/-- The deadline that a ban read from Redis sets: at most `now + block`. -/
def redisDeadline (plat : Platform) (zone : ZoneConf) (now : ℤ) (str : List UInt8) : ℤ :=
  let maxDeadline := timeAddSaturate plat.time now zone.block
  let blockedUntil := match ngxAtoi plat.intMax str with
    | none => maxDeadline
    | some deadline => if deadline > 0 then plat.time.ofInt deadline else maxDeadline
  if blockedUntil > maxDeadline then maxDeadline else blockedUntil

/-- What `redis_check_callback` stores to the context. -/
def ReqCtx.replied (site : Site ζ) (now : ℤ) (reply : Option Reply) (c : ReqCtx ζ) : ReqCtx ζ :=
  let c := { c with redisPending := false, redisChecked := true, redisBlocked := false }
  match reply with
  | some (.string str) =>
    match c.zone with
    | none => c
    | some zone =>
      { c with
        redisBlocked := true
        blockedUntil := redisDeadline site.redis.plat (site.zones zone) now str
        count := (site.zones zone).threshold }
  | _ => c

/-- What `redis_check_callback` does to the worker. -/
def Worker.replied (conf : RedisConf) (now : ℤ) (reply : Option Reply) (w : Worker) : Worker :=
  match reply with
  | some (.string _) | some .nil => { w with consecutiveFailures := 0 }
  | _ => redisRecordFailure conf now w

/-- `redis_check_callback`, up to the point where it resumes the request. -/
def Exchange.redisCheckCallback (site : Site ζ) (now : ℤ) (reply : Option Reply) (r : Exchange ζ) :
    Exchange ζ :=
  match r.ctx with
  | none => { r with count := r.count - 1, waiting := r.waiting - 1 }
  | some ctx =>
    let r := r.onCtx ctx (ReqCtx.replied site now reply)
    let r := { r with worker := r.worker.replied site.redis now reply }
    { r with count := r.count - 1, waiting := r.waiting - 1 }

/-! ## Preaccess -/

/-- What a phase handler returns: a status stands for itself. -/
inductive PhaseRc
  | declined
  | again
  | status (code : ℕ)
  deriving DecidableEq, Repr

/-- What `is_blocked` and `record` store to their out-parameters. -/
def ReqCtx.store (c : ReqCtx ζ) : Option (ℕ × ℤ) → ReqCtx ζ
  | none => c
  | some (count, blockedUntil) => { c with count := count, blockedUntil := blockedUntil }

/-- The end of `preaccess` for a banned client. -/
def enforce (ctx : ℕ) (r : Exchange ζ) : Exchange ζ × PhaseRc :=
  if effectiveDryRun (r.pool ctx) r.loc then
    (r.onCtx ctx fun c => { c with state := .dryRun }, .declined)
  else
    let r := r.onCtx ctx fun c => { c with state := .blocked, ownRejection := true }
    (r.note (.reject r.loc.rejectStatus), .status r.loc.rejectStatus)

/-- The check against the zone itself. -/
def checkLocal (site : Site ζ) (v : Visit) (zone : ζ) (ctx : ℕ) (r : Exchange ζ) :
    Exchange ζ × PhaseRc :=
  let key := (r.pool ctx).key
  let result := isBlocked site.core (site.zones zone) key v.now (r.shctx zone)
  let r := { r with shctx := Function.update r.shctx zone result.1 }.note (.isBlocked zone key v.now)
  let r := r.onCtx ctx fun c => c.store result.2.out
  if result.2.rc = .ok then enforce ctx r else (r, .declined)

/-- What `preaccess` does once Redis has been asked. -/
def checkBan (site : Site ζ) (v : Visit) (zone : ζ) (ctx : ℕ) (r : Exchange ζ) : Exchange ζ × PhaseRc :=
  if (r.pool ctx).redisBlocked then
    enforce ctx (r.onCtx ctx fun c => { c with count := (site.zones zone).threshold })
  else checkLocal site v zone ctx r

/-- `preaccess` with a context that has a zone. -/
def checkZone (site : Site ζ) (v : Visit) (zone : ζ) (ctx : ℕ) (r : Exchange ζ) :
    Exchange ζ × PhaseRc :=
  if (site.zones zone).redis ∧ !(r.pool ctx).redisChecked then
    match r.redisCheck site v zone ctx with
    | (r, true) => (r, .again)
    | (r, false) => checkBan site v zone ctx r
  else checkBan site v zone ctx r

def preaccess (site : Site ζ) (v : Visit) (r : Exchange ζ) : Exchange ζ × PhaseRc :=
  if !v.main then (r, .declined)
  else
    match prepareCtx site v r with
    | (r, none) =>
      (r, if r.loc.enabled ∧ r.loc.zone.isSome then .status 500 else .declined)
    | (r, some ctx) =>
      match (r.pool ctx).zone with
      | none => (r, .declined)
      | some zone => checkZone site v zone ctx r

/-! ## Response headers -/

structure Header where
  key : String
  value : String
  deriving DecidableEq, Repr

/-- The response headers as far as the module looks at them. -/
structure HeadersOut where
  status : ℕ
  /-- whether there is a `Last-Modified` -/
  lastModified : Bool
  headers : List Header
  deriving DecidableEq, Repr

/-- What a header filter does with the response: it hands it to the next filter, fails, or has
nginx send another one in its place. -/
inductive FilterRc
  | next (out : HeadersOut)
  | error
  | finalize (status : ℕ)
  deriving DecidableEq, Repr

/-- `add_header`; `none` is `NGX_ERROR`. -/
def addHeader (room : Bool) (key value : String) (out : HeadersOut) : Option HeadersOut :=
  if !room then none else some { out with headers := out.headers ++ [⟨key, value⟩] }

def addRejectHeaders (v : Visit) (blockedUntil : ℤ) (out : HeadersOut) : Option HeadersOut := do
  let out := { out with lastModified := false }
  let out ← addHeader v.headerRoom "Cache-Control" "private, no-store" out
  if (out.status = 429 ∨ out.status = 503) ∧ blockedUntil > v.now then
    let retry := blockedUntil - v.now
    let retry := if retry < 1 then 1 else retry
    if !v.retryAfterRoom then none
    else addHeader v.retryAfterHeaderRoom "Retry-After" (toString retry) out
  else some out

def maxStatus : ℕ := 599

def statusMatches (zone : ZoneConf) (status : ℕ) : Bool :=
  if status > maxStatus then false
  else (zone.statuses.getD (status >>> 3) 0).toNat.testBit (status &&& 7)

/-- The part of `header_filter` that only looks, for dry-run. -/
def observe (site : Site ζ) (v : Visit) (zone : ζ) (ctx : ℕ) (r : Exchange ζ) : Exchange ζ :=
  let key := (r.pool ctx).key
  let p := peek site.core (site.zones zone) key v.now (r.shctx zone)
  (r.note (.peek zone key v.now)).onCtx ctx fun c =>
    { c with count := p.count, blockedUntil := p.blockedUntil, state := .dryRun }

/-- The part of `header_filter` that counts the response. -/
def countEvent (site : Site ζ) (v : Visit) (zone : ζ) (ctx : ℕ) (out : HeadersOut) (r : Exchange ζ) :
    Exchange ζ × FilterRc :=
  let key := (r.pool ctx).key
  let result := record site.core (site.zones zone) key v.now v.slab (r.shctx zone)
  let r := { r with shctx := Function.update r.shctx zone result.1 }.note (.record zone key v.now)
  let r := r.onCtx ctx fun c => c.store result.2.out
  let r := if (site.zones zone).redis then r.redisRecord site v zone ctx else r
  match result.2.rc with
  | .error =>
    if (site.zones zone).onFullReject then
      -- the filters run once more for the response that nginx sends instead
      let r := r.onCtx ctx fun c =>
        { c with state := .blocked, ownRejection := true, responseSeen := false }
      (r.note (.reject r.loc.rejectStatus), .finalize r.loc.rejectStatus)
    else (r, .next out)
  | .busy => (r.onCtx ctx fun c => { c with state := .blocked }, .next out)
  | _ => (r.onCtx ctx fun c => { c with state := .counted }, .next out)

/-- `header_filter` for the first response of a request with a zone. -/
def filterZone (site : Site ζ) (v : Visit) (zone : ζ) (ctx : ℕ) (out : HeadersOut) (r : Exchange ζ) :
    Exchange ζ × FilterRc :=
  let conf := r.loc
  let r := r.onCtx ctx fun c =>
    { c with responseSeen := true, dryRun := if c.fromAnchor then c.dryRun else conf.dryRun }
  if (r.pool ctx).ownRejection then
    match addRejectHeaders v (r.pool ctx).blockedUntil out with
    | none => (r, .error)
    | some out => (r, .next out)
  else if (r.pool ctx).state = .dryRun then (r, .next out)
  else if !statusMatches (site.zones zone) out.status then (r, .next out)
  else if (r.pool ctx).dryRun then (observe site v zone ctx r, .next out)
  else countEvent site v zone ctx out r

def headerFilter (site : Site ζ) (v : Visit) (out : HeadersOut) (r : Exchange ζ) :
    Exchange ζ × FilterRc :=
  if !v.main then (r, .next out)
  else
    match prepareCtx site v r with
    | (r, none) => (r, .next out)
    | (r, some ctx) =>
      match (r.pool ctx).zone with
      | none => (r, .next out)
      | some zone => if (r.pool ctx).responseSeen then (r, .next out) else filterZone site v zone ctx out r

omit [DecidableEq ζ] in
/-- Dry-run at a handler's run, once it has prepared the context. -/
def dryRunInEffect (site : Site ζ) (v : Visit) (r : Exchange ζ) : Bool :=
  match prepareCtx site v r with
  | (r, some ctx) => effectiveDryRun (r.pool ctx) r.loc
  | (r, none) => r.loc.dryRun

/-! ## Turns -/

/-- What can happen to a request. -/
inductive Turn (ζ : Type)
  | preaccess (v : Visit)
  | headerFilter (v : Visit) (out : HeadersOut)
  /-- nginx zeroes `r->ctx` -/
  | clear
  /-- nginx moves the request to a location -/
  | relocate (loc : LocConf ζ)
  /-- another module adds to the cleanup list -/
  | cleanupAdd
  /-- the callback of the `GET` runs -/
  | reply (now : ℤ) (reply : Option Reply)
  /-- other requests and other workers have their turns -/
  | others (shctx : ζ → Shctx) (worker : Worker)

omit [DecidableEq ζ] in
/-- The handler that a turn runs on a main request, if any. -/
def Turn.visit : Turn ζ → Option Visit
  | preaccess v | headerFilter v _ => if v.main then some v else none
  | _ => none

/-- What a turn does. Without a `GET` there is no reply. -/
def turnStep (site : Site ζ) (r : Exchange ζ) : Turn ζ → Exchange ζ
  | .preaccess v => (preaccess site v r).1
  | .headerFilter v out => (headerFilter site v out r).1
  | .clear => { r with ctx := none }
  | .relocate loc => { r with loc := loc }
  | .cleanupAdd => { r with cleanup := .other :: r.cleanup }
  | .reply now reply => if r.waiting = 0 then r else r.redisCheckCallback site now reply
  | .others shctx worker => { r with shctx := shctx, worker := worker }

end ErrorAbuse
